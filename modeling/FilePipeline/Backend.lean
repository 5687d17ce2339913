import FilePipeline.Crash
import FilePipeline.Error
import FilePipeline.Memory.Span
import FilePipeline.Path

/-! # Backends

A backend translates paths, and opens, sizes, reads, writes and closes files. It keeps a state of type
`σ`, and an open file is a handle of type `η`; both may change with every call but a translation. A
call answers with a result, an error or a crash, and nothing forces the counts among the results to be
true. Calls may be interrupted, but not for ever: an interrupted call uses up some of the backend's
`patience` with that handle. -/

namespace FilePipeline

/-- How a file is opened. -/
inductive OpenMode where
  /-- An existing file, for reading. -/
  | sharedRead
  /-- A new or emptied file, for writing. -/
  | createTruncate
  deriving DecidableEq, Repr, Inhabited

/-- What a call of a backend did: its answer, and the state after it. -/
structure IoReply (τ α : Type) where
  result : Attempt IoError α
  state : τ

/-- What reading did. `written` is what the given span holds afterwards; only the span's own size of
    it counts. -/
structure ReadReply (τ : Type) extends IoReply τ Nat where
  written : Nat → UInt8

/-- Whether the answer is an interruption, after which the call is made again. -/
def interrupted {α : Type} : Attempt IoError α → Bool
  | .error (.error e) => e.isInterrupted
  | _ => false

/-- A backend with states of type `σ` and handles of type `η`. -/
structure Backend (σ η : Type) where
  /-- The path as the platform takes it. What is refused here is never opened. -/
  translate : σ → String → Attempt PathError String :=
    fun _ path => Attempt.ofExcept (nativePath path)
  openFile : σ → String → OpenMode → IoReply σ η
  querySize : σ → η → IoReply (σ × η) Nat
  /-- Reads from where the handle stands; zero bytes mean the end of the file. -/
  read : σ → η → (dst : Span) → ReadReply (σ × η)
  write : σ → η → (src : List UInt8) → IoReply (σ × η) Nat
  close : σ → η → IoReply σ Unit
  /-- A bound on how many more interruptions a handle meets in a row. -/
  patience : σ × η → Nat
  read_patience : ∀ s h dst, interrupted (read s h dst).result = true →
    patience (read s h dst).state < patience (s, h)
  write_patience : ∀ s h src, interrupted (write s h src).result = true →
    patience (write s h src).state < patience (s, h)

end FilePipeline
