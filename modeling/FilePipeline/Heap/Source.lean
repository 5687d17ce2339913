import FilePipeline.Heap.Layout
import FilePipeline.Memory.Span

/-! # Sources of memory

A source is a heap that hands out blocks itself. It serves or refuses a request by looking at the
layout and at the requests before. A fresh block holds whatever it holds: `garbage`. A source that
knows how to hand out zeros does so on demand; the others have their blocks cleared by hand. -/

namespace FilePipeline

/-- A request a source has seen, and whether it was served. -/
structure Request where
  layout : Layout
  served : Bool
  deriving DecidableEq, Repr

/-- A heap that hands out blocks itself. -/
structure Source where
  name : String
  /-- Decides on a request, given the requests before it, newest first. -/
  decide : List Request → Layout → Except AllocError Unit
  /-- What a fresh block at an address holds. -/
  garbage : (address : Nat) → (offset : Nat) → UInt8
  /-- Whether it hands out zeros itself when asked to. -/
  clears : Bool

namespace Source

/-- The number of bytes a process can address. -/
def addressSpace : Nat := Nat.pow 2 47

/-- The blocks a machine can serve: not empty, and inside the address space wherever the alignment
    lets them start. -/
def servable (l : Layout) : Bool := 0 < l.size && l.size + l.align < addressSpace

/-- The decision of the machine's own memory. -/
def systemDecision (name : String) (l : Layout) : Except AllocError Unit :=
  if servable l then .ok () else .error (l.refusedBy name)

/-- The machine's own memory under a name. -/
def system (name : String) : Source where
  name := name
  decide _ l := systemDecision name l
  garbage _ _ := 0
  clears := true

/-- The name of the machine's memory where none was given. -/
def systemName : String := "system"

/-- The number of requests served. -/
def servedCount (history : List Request) : Nat := (history.filter Request.served).length

/-- A source over the machine's memory that serves blocks of at most `max` bytes, and `allow` blocks
    in all. Its blocks hold garbage. -/
def limited (name : String) (max allow : Option Nat) : Source where
  name := name
  decide history l :=
    if max.any (· < l.size) || allow.any (· ≤ servedCount history) then .error (l.refusedBy name)
    else systemDecision systemName l
  garbage _ _ := 0xAA
  clears := false

/-- The contents of a block, fresh or cleared. -/
def contents (s : Source) (address : Nat) (l : Layout) (zeroed : Bool) : Span :=
  let fresh : Span := ⟨l.size, s.garbage address⟩
  if zeroed then
    if s.clears then Span.zeros l.size else fresh.overlay 0 (Span.zeros l.size)
  else fresh

end Source

end FilePipeline
