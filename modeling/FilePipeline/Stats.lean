import FilePipeline.Error
import FilePipeline.Size

/-! # Counters

A dispatcher counts its work in six counters. Each counter is changed by single additions and read
by single loads, all listed here in the order in which they are made: a submission counts before the
work exists, a completion adds what the work moved before it adds one to `completed`, and a snapshot
loads `completed` first. Counters wrap at `2 ^ 64`. -/

namespace FilePipeline

/-- The kind of a piece of work. -/
inductive Op where
  | read
  | write
  deriving DecidableEq, Repr, Inhabited

/-- The counters of a dispatcher. -/
inductive Counter where
  | readsSubmitted
  | writesSubmitted
  | completed
  | failed
  | bytesRead
  | bytesWritten
  deriving DecidableEq, Repr

/-- The values of the counters, all together. -/
structure Stats where
  readsSubmitted : Nat := 0
  writesSubmitted : Nat := 0
  completed : Nat := 0
  failed : Nat := 0
  bytesRead : Nat := 0
  bytesWritten : Nat := 0
  deriving DecidableEq, Repr, Inhabited

/-- One addition to one counter. -/
structure Tick where
  counter : Counter
  amount : Nat
  deriving DecidableEq, Repr

namespace Stats

def get (s : Stats) : Counter → Nat
  | .readsSubmitted => s.readsSubmitted
  | .writesSubmitted => s.writesSubmitted
  | .completed => s.completed
  | .failed => s.failed
  | .bytesRead => s.bytesRead
  | .bytesWritten => s.bytesWritten

def set (s : Stats) (v : Nat) : Counter → Stats
  | .readsSubmitted => { s with readsSubmitted := v }
  | .writesSubmitted => { s with writesSubmitted := v }
  | .completed => { s with completed := v }
  | .failed => { s with failed := v }
  | .bytesRead => { s with bytesRead := v }
  | .bytesWritten => { s with bytesWritten := v }

def tick (s : Stats) (t : Tick) : Stats :=
  s.set ((s.get t.counter + t.amount) % (Size.max + 1)) t.counter

/-- The addition that counts a submission. -/
def submission : Op → Tick
  | .read => ⟨.readsSubmitted, 1⟩
  | .write => ⟨.writesSubmitted, 1⟩

/-- The additions that count a completion, in order. -/
def completion (op : Op) (result : Except WorkError Unit) (size : Nat) : List Tick :=
  let moved : Tick :=
    match result, op with
    | .ok (), .read => ⟨.bytesRead, size⟩
    | .ok (), .write => ⟨.bytesWritten, size⟩
    | .error _, _ => ⟨.failed, 1⟩
  [moved, ⟨.completed, 1⟩]

/-- The order in which a snapshot loads the counters. -/
def loadOrder : List Counter :=
  [.completed, .readsSubmitted, .writesSubmitted, .failed, .bytesRead, .bytesWritten]

def recordSubmitted (s : Stats) (op : Op) : Stats := s.tick (submission op)

def recordCompleted (s : Stats) (op : Op) (result : Except WorkError Unit) (size : Nat) : Stats :=
  (completion op result size).foldl tick s

/-- The number of pieces of work submitted and not yet complete. -/
def inFlight (s : Stats) : Except Crash Nat :=
  (Size.add s.readsSubmitted s.writesSubmitted).map (· - s.completed)

end Stats

end FilePipeline
