import FilePipeline.Heap.Books
import FilePipeline.Heap.Source
import FilePipeline.Notice
import FilePipeline.Text.Inspect

/-! # Heaps

A heap is a source of memory or a tracking heap around another heap. Heaps are numbered in the order
in which they are set up, so the heap inside a tracking heap has a smaller number. A request goes from
the outside to the source; a block served is recorded from the inside to the outside, and a block
given back is removed from the books from the outside to the inside. A heap lives as long as someone
holds it: a client, a buffer, or a tracking heap around it. A tracking heap that ends with live blocks
reports them. -/

namespace FilePipeline

/-- The number of a heap. -/
abbrev HeapId := Nat

/-- A heap by its kind, with what it remembers. -/
inductive HeapKind where
  | source (s : Source) (history : List Request)
  | tracking (inner : HeapId) (callstacks : Bool) (books : Books)

/-- A heap, and how many hold it. -/
structure Heap where
  name : String
  kind : HeapKind
  holders : Nat

/-- A block of memory. -/
structure Block where
  address : Nat
  layout : Layout
  contents : Span

/-- All heaps of a process, and the address of the next block. -/
structure Heaps where
  heaps : List Heap
  nextAddress : Nat

namespace Heaps

/-- The heap that is always there: the machine's memory. -/
def systemHeap : HeapId := 0

/-- The heaps at the start: the machine's memory alone. -/
def initial : Heaps :=
  ⟨[⟨Source.systemName, .source (Source.system Source.systemName) [], 1⟩], 1⟩

instance : Inhabited Heaps := ⟨initial⟩

def get? (hs : Heaps) (id : HeapId) : Option Heap := hs.heaps[id]?

def name (hs : Heaps) (id : HeapId) : String :=
  match hs.get? id with
  | some h => h.name
  | none => Source.systemName

def modify (hs : Heaps) (id : HeapId) (f : Heap → Heap) : Heaps :=
  { hs with heaps := hs.heaps.modify id f }

/-- The heap inside a tracking heap. -/
def inner? (hs : Heaps) (id : HeapId) : Option HeapId :=
  match hs.get? id with
  | some ⟨_, .tracking inner _ _, _⟩ => if inner < id then some inner else none
  | _ => none

theorem inner?_lt {hs : Heaps} {id inner : HeapId} (h : hs.inner? id = some inner) : inner < id := by
  unfold inner? at h
  split at h
  · split at h <;> simp_all
  · simp at h

/-- The tracking heaps a request to a heap passes, outermost first, and the heap they end at. -/
def layers (hs : Heaps) (id : HeapId) : List HeapId × HeapId :=
  match _h : hs.inner? id with
  | none => ([], id)
  | some inner =>
    let rest := hs.layers inner
    (id :: rest.1, rest.2)
termination_by id
decreasing_by exact inner?_lt _h

/-! ### Books -/

def books? (hs : Heaps) (id : HeapId) : Option Books :=
  match hs.get? id with
  | some ⟨_, .tracking _ _ books, _⟩ => some books
  | _ => none

def modifyBooks (hs : Heaps) (id : HeapId) (f : Bool → Books → Books) : Heaps :=
  hs.modify id fun h =>
    match h.kind with
    | .tracking inner callstacks books =>
      { h with kind := .tracking inner callstacks (f callstacks books) }
    | .source .. => h

/-- Records a block in the books of a tracking heap. -/
def record (hs : Heaps) (id : HeapId) (address : Nat) (l : Layout) : Heaps :=
  hs.modifyBooks id fun callstacks books => books.record ⟨address, l.size, callstacks⟩

/-- Removes a block from the books of a tracking heap; a block that is not in them is noticed. -/
def unrecord (hs : Heaps) (id : HeapId) (address : Nat) : Heaps × List Notice :=
  match hs.books? id with
  | none => (hs, [])
  | some books =>
    (hs.modifyBooks id fun _ b => b.remove address,
      if books.has address then [] else [.foreignFree (hs.name id)])

/-! ### Requests -/

/-- Asks a source for a block. -/
def serve (hs : Heaps) (id : HeapId) (l : Layout) (zeroed : Bool) : Except AllocError Block × Heaps :=
  match hs.get? id with
  | some ⟨_, .source s history, _⟩ =>
    let note (served : Bool) (hs : Heaps) : Heaps :=
      hs.modify id fun h => { h with kind := .source s (⟨l, served⟩ :: history) }
    match s.decide history l with
    | .error e => (.error e, note false hs)
    | .ok () =>
      (.ok ⟨hs.nextAddress, l, s.contents hs.nextAddress l zeroed⟩,
        note true { hs with nextAddress := hs.nextAddress + 1 })
  | _ => (.error (l.refusedBy (hs.name id)), hs)

/-- Asks a heap for a block. -/
def allocate (hs : Heaps) (id : HeapId) (l : Layout) (zeroed : Bool) :
    Except AllocError Block × Heaps :=
  let path := hs.layers id
  match hs.serve path.2 l zeroed with
  | (.error e, hs) => (.error e, hs)
  | (.ok b, hs) => (.ok b, path.1.foldr (fun t hs => hs.record t b.address l) hs)

/-- Gives a block back to a heap, which need not be the one it came from. -/
def free (hs : Heaps) (id : HeapId) (address : Nat) : Heaps × List Notice :=
  (hs.layers id).1.foldl (fun acc t =>
    let r := acc.1.unrecord t address
    (r.1, acc.2 ++ r.2)) (hs, [])

/-! ### Setting up and letting go -/

/-- Takes one more hold of a heap. -/
def retain (hs : Heaps) (id : HeapId) : Heaps :=
  hs.modify id fun h => { h with holders := h.holders + 1 }

/-- The live blocks of a tracking heap, as they are reported. -/
def leaks (hs : Heaps) (id : HeapId) : List Notice :=
  match hs.books? id with
  | none => []
  | some books => books.live.map fun a => .leak (hs.name id) a.size a.callstack

/-- Lets a hold of a heap go. Without any hold left, a tracking heap reports its leaks and lets go of
    the heap inside. -/
def release (hs : Heaps) (id : HeapId) : Heaps × List Notice :=
  match hs.get? id with
  | none => (hs, [])
  | some h =>
    let hs := hs.modify id fun h => { h with holders := h.holders - 1 }
    if h.holders = 1 then
      match _h : hs.inner? id with
      | none => (hs, [])
      | some inner =>
        let r := hs.release inner
        (r.1, hs.leaks id ++ r.2)
    else (hs, [])
termination_by id
decreasing_by exact inner?_lt _h

/-- Sets up a source, held once. -/
def addSource (hs : Heaps) (s : Source) : HeapId × Heaps :=
  (hs.heaps.length, { hs with heaps := hs.heaps ++ [⟨s.name, .source s [], 1⟩] })

/-- The name of a tracking heap around a heap of the given name. -/
def trackingName (inner : String) : String := s!"tracking({inner})"

/-- Sets up a tracking heap around another heap, held once. -/
def addTracking (hs : Heaps) (inner : HeapId) (callstacks : Bool) : HeapId × Heaps :=
  let name := trackingName (hs.name inner)
  let hs := hs.retain inner
  (hs.heaps.length, { hs with heaps := hs.heaps ++ [⟨name, .tracking inner callstacks {}, 1⟩] })

/-- The structured form of a tracking heap. -/
def inspect? (hs : Heaps) (id : HeapId) : Option String :=
  (hs.books? id).map fun books =>
    Text.record "TrackingHeap"
      [("name", Text.quoted (hs.name id)), ("live_allocations", toString books.count),
        ("total_allocations", toString books.total)]

end Heaps

end FilePipeline
