import EchoServers.JsonGrammar
import EchoServers.MeasContainer
import EchoServers.TimespecDelta

namespace EchoServers.SavedBench

open EchoServers.JsonGrammar
open EchoServers.MeasContainer
open EchoServers.ServerBenchmark
open EchoServers.TimespecDelta
open EchoServers.TimeUtils

section Data

end Data

section Text

variable {bench : ServerBench} {i : UInt64} {fuel : Nat}

end Text

section Parsing

variable {rest : List Char} {fuel : Nat}

variable {key₁ key₂ key₃ key₄ key₅ : List Char} {start stop requests : Nat} {clients : Int}
  {latencies : List UInt64}

end Parsing

end EchoServers.SavedBench
