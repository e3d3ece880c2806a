import EchoServers.TimeUtils

namespace EchoServers.ServerBenchmark

open EchoServers.TimeUtils

/-- A block handed out by `malloc`: its length and what its addresses hold. -/
structure Allocation where
  length : Nat := 0
  bytes : Nat → UInt8 := fun _ => 0

/-- `memcpy(ptr + offset, source, source.length)`. -/
def Allocation.copyAt (block : Allocation) (offset : Nat) (source : List UInt8) :
    Allocation where
  length := block.length
  bytes address :=
    if offset ≤ address then
      (source[address - offset]?).getD (block.bytes address)
    else block.bytes address

/-- `meas_pcontainer_t`; sizes are `size_t`. -/
structure MeasPcontainer where
  entrySize : UInt64 := 0
  capacity : UInt64 := 0
  size : UInt64 := 0
  ptr : Allocation := {}

/-- The `malloc` of `meas_pcontainer_create` succeeded with arbitrary contents
`junk`; the requested length is the wrapped product. -/
def measPcontainerCreate (entrySize capacity : UInt64) (junk : Nat → UInt8) :
    MeasPcontainer where
  entrySize := entrySize
  capacity := capacity
  size := 0
  ptr := { length := (entrySize * capacity).toNat, bytes := junk }

def measPcontainerStore (container : MeasPcontainer) (holder : List UInt8)
    (holderSize : UInt64) : Int × MeasPcontainer :=
  if container.entrySize ≠ holderSize then
    (-1, container)
  else if container.size = container.capacity then
    (-1, container)
  else
    (0, { container with
      ptr := container.ptr.copyAt (container.size * holderSize).toNat
        (holder.take holderSize.toNat)
      size := container.size + 1 })

def measPcontainerFree (container : MeasPcontainer) : MeasPcontainer :=
  { container with ptr := {}, size := 0 }

/-- The object representation of a `meas_value_holder_t`, little endian. -/
def measValueHolderBytes (value : UInt64) : List UInt8 :=
  (List.range 8).map fun i => (value >>> UInt64.ofNat (8 * i)).toUInt8

/-- `sizeof(meas_value_holder_t)`. -/
def measValueHolderSize : UInt64 := 8

/-- The value of the `i`-th stored holder. -/
def measValueHolderAt (container : MeasPcontainer) (i : UInt64) : UInt64 :=
  (List.range 8).foldr
    (fun j value => value <<< 8 |||
      (container.ptr.bytes ((i * container.entrySize).toNat + j)).toUInt64) 0

structure ServerBench where
  doMeasure : Int32 := 0
  clientNo : Int32 := 0
  requestNo : UInt64 := 0
  measStartTime : Timespec := {}
  measEndTime : Timespec := {}
  eventLatency : MeasPcontainer := {}

def sbCreate (expectedNoEvents : Int32) (junk : Nat → UInt8) : ServerBench where
  eventLatency := measPcontainerCreate measValueHolderSize
    expectedNoEvents.toInt64.toUInt64 junk

def sbFree (b : ServerBench) : ServerBench :=
  { b with eventLatency := measPcontainerFree b.eventLatency }

/-- `now` is the reading of `now_monotonic`. -/
def sbStart (this : ServerBench) (now : Timespec) : ServerBench :=
  if this.doMeasure ≠ 0 then this
  else { this with doMeasure := 1, measStartTime := now }

def sbStop (this : ServerBench) (now : Timespec) : ServerBench :=
  { this with doMeasure := 0, measEndTime := now }

def sbClientConnected (this : ServerBench) : ServerBench :=
  { this with clientNo := this.clientNo + 1 }

def sbRequestsPerformed (this : ServerBench) (count : Int32) : ServerBench :=
  if this.doMeasure = 0 then this
  else { this with requestNo := this.requestNo + count.toInt64.toUInt64 }

/-- `now` is read only when the container is full and measuring stops. -/
def sbRecordEvent (this : ServerBench) (start finish now : Timespec) : ServerBench :=
  if this.doMeasure = 0 then this
  else
    let deltaNs := timespecToNs (timeDelta finish start)
    let stored := measPcontainerStore this.eventLatency
      (measValueHolderBytes deltaNs) measValueHolderSize
    let this := { this with eventLatency := stored.2 }
    if stored.1 < 0 then sbStop this now else this

/-- The array elements of the saved file, from index `i` on; `fuel` bounds the
loop over the stored values. -/
def sbSaveEvents (this : ServerBench) : Nat → UInt64 → String
  | 0, _ => ""
  | fuel + 1, i =>
      if i < this.eventLatency.size then
        "\x7b\"value\":" ++ toString (measValueHolderAt this.eventLatency i).toNat ++
          "\x7d" ++
          (if i ≠ this.eventLatency.size - 1 then "," else "") ++
          sbSaveEvents this fuel (i + 1)
      else ""

/-- The text `sb_save_bench` writes, or none while measuring still runs. -/
def sbSaveBench (this : ServerBench) : Option String :=
  if this.doMeasure ≠ 0 then none
  else some <|
    "\x7b" ++
    "\"meas_start_time\":" ++ toString (timespecToNs this.measStartTime).toNat ++ "," ++
    "\"meas_end_time\":" ++ toString (timespecToNs this.measEndTime).toNat ++ "," ++
    "\"client_no\":" ++ toString this.clientNo.toInt ++ "," ++
    "\"request_no\":" ++ toString this.requestNo.toNat ++ "," ++
    "\"event_latency\": [" ++
    sbSaveEvents this (this.eventLatency.size.toNat + 1) 0 ++
    "]" ++
    "\x7d"

end EchoServers.ServerBenchmark
