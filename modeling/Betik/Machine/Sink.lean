/-
The output of a run, and how it can fail.

Output goes to a device that the program knows nothing of.  What a device does with a
request can depend on all that it was asked before, and on nothing else of the run; so an
arbitrary one is given by its answers to the requests so far.
-/
import Betik.Machine.RuntimeError

namespace Betik

inductive Sink.Request
  | write (text : String)
  | flush
deriving DecidableEq, Repr

/-- A request that fails, and how many bytes of its text have been taken by then. -/
structure Sink.Fault where
  failure : Failure
  taken : Nat := 0

/-- Where output goes.  A sink with a capacity takes that many bytes in all, and
may cut a character in two. -/
structure Sink where
  written : ByteArray := .empty
  capacity : Option Nat := none
  flushFails : Bool := false
  /-- What has been asked of the sink, the last request first. -/
  requests : List Sink.Request := []
  /-- How the first of these requests fails, if it does so whatever there is room for. -/
  faults : List Sink.Request → Option Sink.Fault := fun _ => none

namespace Sink

/-- How a write ends, and how many bytes of its text are taken. -/
def taking (s : Sink) (text : String) : Except Failure Unit × Nat :=
  match s.faults (.write text :: s.requests), s.capacity with
  | some fault, _ => (.error fault.failure, fault.taken)
  | none, none => (.ok (), text.utf8ByteSize)
  | none, some capacity =>
    let room := capacity - s.written.size
    (if text.utf8ByteSize ≤ room then .ok () else .error .sinkFull, room)

/-- Writes as much of the text as is taken.  It is a failure if some of it is left over. -/
def write (s : Sink) (text : String) : Except Failure Unit × Sink :=
  let (result, taken) := s.taking text
  (result, { s with
    written := s.written ++ text.toUTF8.extract 0 taken
    requests := .write text :: s.requests })

def flush (s : Sink) : Except Failure Unit × Sink :=
  let requests := .flush :: s.requests
  let result :=
    match s.faults requests with
    | some fault => .error fault.failure
    | none => if s.flushFails then .error .flushFailed else .ok ()
  (result, { s with requests := requests })

end Sink
end Betik
