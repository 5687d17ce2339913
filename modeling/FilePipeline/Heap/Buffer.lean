import FilePipeline.Crash
import FilePipeline.Heap

/-! # Buffers

A buffer owns one block of a heap and holds the heap. It has a fixed capacity, all of it zero at the
start, and a length; bytes past the length stay where they are. The byte right after the length, if
there is room for one, is where a terminator goes. A buffer of capacity zero still owns a block of one
byte. Dropping a buffer gives the block back and lets the heap go. -/

namespace FilePipeline

/-- A buffer. Its capacity is the size of its storage. -/
structure Buffer where
  heap : HeapId
  address : Nat
  layout : Layout
  storage : Span
  length : Nat := 0

namespace Buffer

/-- The layout of the block under a buffer. -/
def layoutOf (capacity align : Nat) : Layout := ⟨max capacity 1, align⟩

def capacity (b : Buffer) : Nat := b.storage.size

/-- The bytes within the length. -/
def bytes (b : Buffer) : List UInt8 := (b.storage.take b.length).toList

/-- Sets the length; past the capacity this crashes. -/
def setLength (b : Buffer) (n : Nat) : Except Crash Buffer :=
  if n ≤ b.capacity then .ok { b with length := n } else .error .lengthPastCapacity

/-- The buffer after its storage was written to. -/
def write (b : Buffer) (byte : Nat → UInt8) : Buffer :=
  { b with storage := ⟨b.storage.size, byte⟩ }

/-- The buffer after bytes were stored from an offset on; none if they do not fit. -/
def store? (b : Buffer) (offset : Nat) (data : List UInt8) : Option Buffer :=
  if offset + data.length ≤ b.capacity then
    some (b.write (b.storage.overlay offset (Span.ofList data)).byte)
  else none

/-- The buffer after all bytes within the length were set. -/
def fill (b : Buffer) (byte : UInt8) : Buffer :=
  b.write (b.storage.overlay 0 (Span.filled b.length byte)).byte

/-- Puts a zero right after the length; answers whether there was room. -/
def terminate (b : Buffer) : Bool × Buffer :=
  if b.length < b.capacity then (true, b.write (b.storage.set b.length 0).byte) else (false, b)

/-- The bytes within the length and the one after them, if there is room for one. -/
def terminated? (b : Buffer) : Option (List UInt8) :=
  if b.length < b.capacity then some (b.storage.take (b.length + 1)).toList else none

end Buffer

namespace Heaps

/-- Allocates a zeroed buffer. A layout that is not valid is refused in the name of the heap, which
    is not asked. -/
def newBuffer (hs : Heaps) (id : HeapId) (capacity align : Nat) : Except AllocError Buffer × Heaps :=
  let l := Buffer.layoutOf capacity align
  if l.isValid then
    match hs.allocate id l true with
    | (.error e, hs) => (.error e, hs)
    | (.ok block, hs) =>
      (.ok { heap := id, address := block.address, layout := l,
             storage := ⟨capacity, block.contents.byte⟩ }, hs.retain id)
  else (.error ⟨hs.name id, capacity, align⟩, hs)

/-- Allocates a buffer that holds a copy of `data`. -/
def bufferOf (hs : Heaps) (id : HeapId) (data : List UInt8) : Except AllocError Buffer × Heaps :=
  match hs.newBuffer id data.length defaultAlignment with
  | (.error e, hs) => (.error e, hs)
  | (.ok b, hs) =>
    (.ok { b.write (b.storage.overlay 0 (Span.ofList data)).byte with length := data.length }, hs)

/-- Drops a buffer: its block goes back to its heap, and the heap is let go. -/
def dropBuffer (hs : Heaps) (b : Buffer) : Heaps × List Notice :=
  let freed := hs.free b.heap b.address
  let released := freed.1.release b.heap
  (released.1, freed.2 ++ released.2)

def inspectBuffer (hs : Heaps) (b : Buffer) : String :=
  Text.record "HeapBuffer"
    [("len", toString b.length), ("capacity", toString b.capacity),
      ("heap", Text.quoted (hs.name b.heap))]

end Heaps

end FilePipeline
