import FilePipeline.Crash
import FilePipeline.Text.Inspect

/-! # Worker threads

A worker is a named thread that may keep to one core. Workers are given cores in the order in which
they are started, and start over when the cores run out. Joining a worker that crashed is an error
that names it. -/

namespace FilePipeline

/-- The cores that workers are placed on. -/
structure Cores where
  ids : List Nat
  /-- How many cores the machine has; at least one. -/
  logical : Nat

/-- The core of the `n`-th worker. -/
def Cores.forWorker (c : Cores) (n : Nat) : Nat :=
  if c.ids.isEmpty then n % c.logical else c.ids.getD (n % c.ids.length) 0

/-- A started worker. -/
structure Worker where
  name : String
  core : Option Nat
  deriving DecidableEq, Repr, Inhabited

/-- A joined worker turned out to have crashed. -/
structure JoinError where
  worker : String
  deriving DecidableEq, Repr

def JoinError.message (e : JoinError) : String := s!"worker thread `{e.worker}` panicked"

namespace Worker

/-- Whether a thread can bear this name: the platform takes no name with a zero byte. -/
def checkName (name : String) : Except Crash Unit :=
  let bytes := name.toUTF8.data.toList
  match bytes.findIdx? (· == 0) with
  | some offset => .error (.nameWithZero bytes offset)
  | none => .ok ()

def start (cores : Cores) (pin : Bool) (n : Nat) (name : String) : Except Crash Worker :=
  match checkName name with
  | .error c => .error c
  | .ok () => .ok ⟨name, if pin then some (cores.forWorker n) else none⟩

/-- Starts workers one after the other, the first as the `n`-th. -/
def startAll (cores : Cores) (pin : Bool) : Nat → List String → Except Crash (List Worker)
  | _, [] => .ok []
  | n, name :: names =>
    match start cores pin n name with
    | .error c => .error c
    | .ok w => (startAll cores pin (n + 1) names).map (w :: ·)

def join (w : Worker) (crashed : Bool) : Except JoinError Unit :=
  if crashed then .error ⟨w.name⟩ else .ok ()

def inspect (w : Worker) : String :=
  let core := match w.core with
    | some c => Text.wrapped "Some" (toString c)
    | none => "None"
  Text.record "WorkerThread"
    [("name", Text.quoted w.name), ("handle", "JoinHandle \x7b .. \x7d"), ("core_id", core)]

end Worker

end FilePipeline
