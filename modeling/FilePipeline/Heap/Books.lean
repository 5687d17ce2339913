import FilePipeline.Heap.Layout
import FilePipeline.Size

/-! # Books of live blocks

A tracking heap keeps a record of every block that it handed out and that was not given back, by
address, and counts the blocks it ever handed out; the count wraps at `2 ^ 64`. Recording and removing
are steps of their own: a block is recorded after it was obtained and removed before it is given
back. -/

namespace FilePipeline

/-- The record of a block. -/
structure Allocation where
  address : Nat
  size : Nat
  callstack : Bool
  deriving DecidableEq, Repr, Inhabited

/-- The books of a tracking heap. -/
structure Books where
  live : List Allocation := []
  total : Nat := 0
  deriving DecidableEq, Repr, Inhabited

namespace Books

/-- The books after a block was recorded. An address has one record at most. -/
def record (b : Books) (a : Allocation) : Books :=
  ⟨a :: b.live.filter (·.address ≠ a.address), (b.total + 1) % (Size.max + 1)⟩

/-- Whether there is a record of the address. -/
def has (b : Books) (address : Nat) : Bool := b.live.any (·.address == address)

/-- The books after the record of an address was removed. -/
def remove (b : Books) (address : Nat) : Books :=
  { b with live := b.live.filter (·.address ≠ address) }

/-- The number of live blocks. -/
def count (b : Books) : Nat := b.live.length

/-- The bytes in live blocks. -/
def bytes (b : Books) : Nat := b.live.foldr (fun a n => a.size + n) 0

end Books

end FilePipeline
