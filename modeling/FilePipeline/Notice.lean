import FilePipeline.Error
import FilePipeline.Worker

/-! # Notices

What is logged, as values. A notice has a level, a text and the fields it carries. -/

namespace FilePipeline

inductive Level where
  | info
  | warn
  | error
  deriving DecidableEq, Repr

/-- Something worth logging. -/
inductive Notice where
  /-- A heap still holds a block of this size; `callstack` says whether it knows who asked for it. -/
  | leak (heap : String) (size : Nat) (callstack : Bool)
  /-- A heap was given a block that it had not recorded. -/
  | foreignFree (heap : String)
  | started (heap : String)
  | stopped (completed failed : Nat)
  | queueClosed
  | workFailed (e : WorkError)
  | workerCrashed (e : JoinError)
  /-- A dispatcher that was dropped could not be shut down cleanly. -/
  | shutdownFailed (text : String)
  deriving DecidableEq, Repr

namespace Notice

def level : Notice → Level
  | .leak .. | .workerCrashed _ | .shutdownFailed _ => .error
  | .foreignFree _ | .queueClosed | .workFailed _ => .warn
  | .started _ | .stopped .. => .info

/-- The first line of the text. -/
def message : Notice → String
  | .leak _ _ false => "Memory leak"
  | .leak _ _ true => "Memory leak with callstack:"
  | .foreignFree _ => "Freeing a block this heap did not allocate"
  | .started _ => "Dispatcher started"
  | .stopped .. => "Dispatcher stopped"
  | .queueClosed => "Dispatcher queue is closed"
  | .workFailed e => s!"Work failed: {e.message}"
  | .workerCrashed e => e.message
  | .shutdownFailed text => s!"Dispatcher shutdown failed: {text}"

end Notice

end FilePipeline
