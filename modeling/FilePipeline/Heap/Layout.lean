import FilePipeline.Error

/-! # Layouts

A request for memory: a size and an alignment. A layout is valid if the alignment is a power of two
and the size, rounded up to it, can still be addressed. -/

namespace FilePipeline

/-- The alignment of buffers unless something else is asked for. -/
def defaultAlignment : Nat := 8

def isPowerOfTwo (n : Nat) : Bool := n != 0 && Nat.pow 2 n.log2 == n

/-- A size and an alignment. -/
structure Layout where
  size : Nat
  align : Nat
  deriving DecidableEq, Repr, Inhabited

namespace Layout

/-- The largest size that can be addressed. -/
def maxSize : Nat := Nat.pow 2 63 - 1

/-- The least multiple of the alignment that is not below the size. -/
def rounded (l : Layout) : Nat := (l.size + (l.align - 1)) / l.align * l.align

def isValid (l : Layout) : Bool := isPowerOfTwo l.align && l.rounded ≤ maxSize

/-- The refusal of a layout by a heap of the given name. -/
def refusedBy (l : Layout) (heap : String) : AllocError := ⟨heap, l.size, l.align⟩

end Layout

end FilePipeline
