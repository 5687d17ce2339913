import FilePipeline.Heap
import FilePipeline.Named

/-! # Named heaps

A client's heaps by name. The client holds each of them until it drops the name; a name without a
heap stands for the machine's memory. -/

namespace FilePipeline

/-- A heap to be set up. -/
inductive HeapSpec where
  | system (name : String)
  /-- A source with limits on the size of a block and on the number of blocks. -/
  | limited (name : String) (max allow : Option Nat)
  /-- A tracking heap around the heap of this name. -/
  | tracking (inner : String) (callstacks : Bool)
  deriving Repr

/-- Heaps, some of them under names. -/
structure HeapDirectory where
  heaps : Heaps := Heaps.initial
  names : Named HeapId := []
  deriving Inhabited

namespace HeapDirectory

/-- The heap a name stands for. -/
def resolve (d : HeapDirectory) (name : String) : HeapId :=
  (Named.find? d.names name).getD Heaps.systemHeap

/-- Sets a heap up under a name. The heap that had the name before is let go. -/
def add (d : HeapDirectory) (name : String) (spec : HeapSpec) : HeapDirectory × List Notice :=
  let added := match spec with
    | .system n => d.heaps.addSource (Source.system n)
    | .limited n max allow => d.heaps.addSource (Source.limited n max allow)
    | .tracking inner callstacks => d.heaps.addTracking (d.resolve inner) callstacks
  let released := match Named.find? d.names name with
    | some old => added.2.release old
    | none => (added.2, [])
  (⟨released.1, Named.put d.names name added.1⟩, released.2)

/-- The directory of heaps set up one after the other. -/
def ofSpecs (specs : List (String × HeapSpec)) : HeapDirectory :=
  specs.foldl (fun d s => (d.add s.1 s.2).1) {}

/-- Drops a name; answers whether it stood for a heap. -/
def drop (d : HeapDirectory) (name : String) : Bool × HeapDirectory × List Notice :=
  match Named.find? d.names name with
  | none => (false, d, [])
  | some id =>
    let r := d.heaps.release id
    (true, ⟨r.1, Named.remove d.names name⟩, r.2)

def dropAll (d : HeapDirectory) : HeapDirectory × List Notice :=
  d.names.foldl (fun acc p =>
    let r := acc.1.drop p.1
    (r.2.1, acc.2 ++ r.2.2)) (d, [])

/-- The books of the tracking heap under a name. -/
def books? (d : HeapDirectory) (name : String) : Option Books :=
  (Named.find? d.names name).bind d.heaps.books?

/-- The books of all tracking heaps under names. -/
def allBooks (d : HeapDirectory) : Named Books :=
  d.names.filterMap fun p => (d.heaps.books? p.2).map fun b => (p.1, b)

end HeapDirectory

end FilePipeline
