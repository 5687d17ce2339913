import FilePipeline.Backend
import FilePipeline.Codec
import FilePipeline.Config
import FilePipeline.Work

/-! # Stages

The pipeline has two stages, each with a queue and a worker of its own. The I/O stage works with the
backend, the compression stage with the codec. `Setup` is what both are set up with and what never
changes; `Processed` is what a stage makes of a piece of work. -/

namespace FilePipeline

inductive Stage where
  | io
  | compression
  deriving DecidableEq, Repr, Inhabited

/-- The stage to which a stage hands work and pills. -/
def Stage.peer : Stage → Stage
  | .io => .compression
  | .compression => .io

/-- One value for each stage. -/
structure PerStage (α : Type) where
  io : α
  compression : α
  deriving Inhabited

namespace PerStage

variable {α : Type}

def get (p : PerStage α) : Stage → α
  | .io => p.io
  | .compression => p.compression

def set (p : PerStage α) (a : α) : Stage → PerStage α
  | .io => { p with io := a }
  | .compression => { p with compression := a }

@[simp] theorem get_set_self (p : PerStage α) (s : Stage) (a : α) : (p.set a s).get s = a := by
  cases s <;> rfl

@[simp] theorem get_set_peer (p : PerStage α) (s : Stage) (a : α) :
    (p.set a s).get s.peer = p.get s.peer := by
  cases s <;> rfl

end PerStage

/-- What the stages are set up with. -/
structure Setup (σ η κ : Type) where
  config : Config
  /-- The heap for the buffers that stay inside. -/
  ownHeap : HeapId
  backend : Backend σ η
  codec : Codec κ

/-- What a stage did with a piece of work: how it went, and the work, the heaps and the state of the
    stage's backend or codec afterwards. -/
structure Processed (τ α : Type) where
  result : Attempt WorkError α
  work : Work
  heaps : Heaps
  state : τ

end FilePipeline
