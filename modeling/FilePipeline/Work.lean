import FilePipeline.Heap.Buffer
import FilePipeline.Path
import FilePipeline.Stats

/-! # Work

A piece of work is one file operation on its way through the pipeline. It is held in one place at a
time, carries the buffer it has got so far, and ends with an outcome: a result, the buffer it held
then, and a size. -/

namespace FilePipeline

/-- The number of a piece of work, counted from the first submission. -/
abbrev WorkId := Nat

/-- The buffer of a piece of work. -/
inductive WorkBuffer where
  | none
  /-- The submitter's own bytes, which are only looked at. -/
  | caller (data : List UInt8)
  | owned (b : Buffer)

instance : Inhabited WorkBuffer := ⟨.none⟩

namespace WorkBuffer

def bytes? : WorkBuffer → Option (List UInt8)
  | .none => Option.none
  | .caller data => some data
  | .owned b => some b.bytes

/-- The bytes of a buffer; none at all if there is no buffer. -/
def bytes (b : WorkBuffer) : List UInt8 := b.bytes?.getD []

def isCallers : WorkBuffer → Bool
  | .caller _ => true
  | _ => false

def drop (hs : Heaps) : WorkBuffer → Heaps × List Notice
  | .owned b => hs.dropBuffer b
  | _ => (hs, [])

end WorkBuffer

/-- What is asked of the pipeline. -/
inductive Submission where
  /-- To read a file into a buffer of a heap, perhaps with a zero byte after the data. A compressed
      read takes the file for a frame. -/
  | read (path : String) (heap : HeapId) (nullTerminate compressed : Bool)
  /-- To make these bytes, or their frame, the contents of a file. -/
  | write (path : String) (data : List UInt8) (compressed : Bool)
  deriving Repr

namespace Submission

def op : Submission → Op
  | .read .. => .read
  | .write .. => .write

def path : Submission → String
  | .read path .. => path
  | .write path .. => path

end Submission

/-- A piece of work. -/
structure Work where
  id : WorkId
  op : Op
  path : PathField
  /-- Whether a zero byte is to follow the data of a read. -/
  nullTerminate : Bool
  /-- Whether the file is a frame. -/
  compressed : Bool
  /-- What was read so far, or what is to be written. -/
  buffer : WorkBuffer
  size : Nat
  /-- The heap for the buffer that goes to the submitter. -/
  heap : HeapId
  deriving Inhabited

/-- How a piece of work ended. -/
structure Outcome where
  result : Except WorkError Unit
  buffer : WorkBuffer
  size : Nat

/-- The outcome of work of which nothing is known. -/
def Outcome.abandoned : Outcome := ⟨.error .abandoned, .none, 0⟩

namespace Work

/-- The work asked for, with its path still to be filled in. `ownHeap` is the pipeline's own heap. -/
def ofSubmission (id : WorkId) (ownHeap : HeapId) : Submission → Work
  | .read _ heap nullTerminate compressed =>
    { id, op := .read, path := PathField.empty, nullTerminate, compressed, buffer := .none, size := 0
      heap }
  | .write _ data compressed =>
    { id, op := .write, path := PathField.empty, nullTerminate := false, compressed
      buffer := .caller data, size := data.length, heap := ownHeap }

/-- The room for a terminator that a read asks for. -/
def extra (w : Work) : Nat := if w.nullTerminate then 1 else 0

/-- The outcome of the work with a result. -/
def outcome (w : Work) (result : Except WorkError Unit) : Outcome := ⟨result, w.buffer, w.size⟩

/-- The work with a buffer in place of the one it held, which is let go, and the buffer's length as
    its size. -/
def carry (w : Work) (hs : Heaps) (b : Buffer) : Work × Heaps :=
  ({ w with buffer := .owned b, size := b.length }, (w.buffer.drop hs).1)

end Work

end FilePipeline
