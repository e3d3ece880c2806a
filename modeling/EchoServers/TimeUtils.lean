import Mathlib.Logic.Basic

namespace EchoServers.TimeUtils

/-- `struct timespec` with 64-bit `time_t` and `long`. -/
structure Timespec where
  tvSec : Int64 := 0
  tvNsec : Int64 := 0
  deriving DecidableEq, Repr

/-- `NUMBER_10E9`. -/
def number10E9 : Int64 := 1000000000

/-- Both operands are converted to `uint64_t`, so the arithmetic wraps. -/
def timespecToNs (ts : Timespec) : UInt64 :=
  ts.tvSec.toUInt64 * number10E9.toUInt64 + ts.tvNsec.toUInt64

def nsToTimespec (ns : UInt64) : Timespec where
  tvSec := (ns / number10E9.toUInt64).toInt64
  tvNsec := (ns % number10E9.toUInt64).toInt64

/-- Balances a timespec: whole seconds leave the nanoseconds, and the two
fields end with one sign or with a zero. -/
def timespecRebalance (ts : Timespec) : Timespec :=
  -- `hole_parts` is an `int`: the quotient is narrowed to 32 bits
  let holeParts : Int32 := (ts.tvNsec / number10E9).toInt32
  let tvSec := ts.tvSec + holeParts.toInt64
  let tvNsec := ts.tvNsec % number10E9
  if tvSec = 0 ∨ tvNsec = 0 then
    ⟨tvSec, tvNsec⟩
  else
    let secNegative := decide (tvSec < 0)
    let nsecNegative := decide (tvNsec < 0)
    if secNegative = nsecNegative then
      ⟨tvSec, tvNsec⟩
    else if nsecNegative then
      ⟨tvSec - 1, tvNsec + number10E9⟩
    else
      ⟨tvSec + 1, tvNsec - number10E9⟩

def timeDelta (minuend subtrahend : Timespec) : Timespec :=
  timespecRebalance
    { tvSec := minuend.tvSec - subtrahend.tvSec
      tvNsec := minuend.tvNsec - subtrahend.tvNsec }

def timespecLt (ts1 ts2 : Timespec) : Bool :=
  if ts1.tvSec = ts2.tvSec then
    decide (ts1.tvNsec < ts2.tvNsec)
  else
    decide (ts1.tvSec < ts2.tvSec)

end EchoServers.TimeUtils
