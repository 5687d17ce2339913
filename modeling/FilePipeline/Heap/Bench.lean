import FilePipeline.Heap.Buffer
import FilePipeline.Heap.Directory

/-! # Buffers and blocks at hand

A client that works with heaps directly: it keeps buffers under names, and, apart from them, single
blocks that it obtained without a buffer and gives back itself. -/

namespace FilePipeline

/-- A client's heaps, buffers and blocks. -/
structure Bench where
  directory : HeapDirectory
  buffers : Named Buffer := []
  blocks : Named Block := []

/-- Why a block was not obtained. -/
inductive BlockError where
  | badLayout
  | refused (e : AllocError)
  deriving Repr

namespace Bench

def withHeaps (b : Bench) (hs : Heaps) : Bench :=
  { b with directory := { b.directory with heaps := hs } }

def buffer? (b : Bench) (name : String) : Option Buffer := Named.find? b.buffers name

/-- Puts a buffer under a name; the one there before is dropped. -/
def keep (b : Bench) (name : String) (buffer : Buffer) : Bench × List Notice :=
  let dropped := match b.buffer? name with
    | some old => b.directory.heaps.dropBuffer old
    | none => (b.directory.heaps, [])
  ({ b.withHeaps dropped.1 with buffers := Named.put b.buffers name buffer }, dropped.2)

/-- Keeps what an allocation came to. -/
def keepNew (b : Bench) (name : String) (r : Except AllocError Buffer × Heaps) :
    Except AllocError Unit × Bench × List Notice :=
  match r with
  | (.error e, hs) => (.error e, b.withHeaps hs, [])
  | (.ok buffer, hs) => (.ok (), (b.withHeaps hs).keep name buffer)

def allocate (b : Bench) (name heap : String) (size align : Nat) :
    Except AllocError Unit × Bench × List Notice :=
  b.keepNew name (b.directory.heaps.newBuffer (b.directory.resolve heap) size align)

def copyOf (b : Bench) (name heap : String) (data : List UInt8) :
    Except AllocError Unit × Bench × List Notice :=
  b.keepNew name (b.directory.heaps.bufferOf (b.directory.resolve heap) data)

/-- Exchanges a buffer after it was changed in place. -/
def replace (b : Bench) (name : String) (buffer : Buffer) : Bench :=
  { b with buffers := Named.put b.buffers name buffer }

/-- Drops a buffer; answers whether there was one. -/
def drop (b : Bench) (name : String) : Bool × Bench × List Notice :=
  match b.buffer? name with
  | none => (false, b, [])
  | some buffer =>
    let r := b.directory.heaps.dropBuffer buffer
    (true, { b.withHeaps r.1 with buffers := Named.remove b.buffers name }, r.2)

/-- Loses a buffer without dropping it: its block stays live and its heap stays held. -/
def forget (b : Bench) (name : String) : Bench :=
  { b with buffers := Named.remove b.buffers name }

def dropAll (b : Bench) : Bench × List Notice :=
  b.buffers.foldl (fun acc p =>
    let r := acc.1.drop p.1
    (r.2.1, acc.2 ++ r.2.2)) (b, [])

/-- Obtains a single block. -/
def obtain (b : Bench) (name heap : String) (l : Layout) (zeroed : Bool) :
    Except BlockError Unit × Bench :=
  if l.isValid then
    match b.directory.heaps.allocate (b.directory.resolve heap) l zeroed with
    | (.error e, hs) => (.error (.refused e), b.withHeaps hs)
    | (.ok block, hs) => (.ok (), { b.withHeaps hs with blocks := Named.put b.blocks name block })
  else (.error .badLayout, b)

/-- Gives a single block back to a heap; answers whether there was one. -/
def giveBack (b : Bench) (name heap : String) : Bool × Bench × List Notice :=
  match Named.find? b.blocks name with
  | none => (false, b, [])
  | some block =>
    let r := b.directory.heaps.free (b.directory.resolve heap) block.address
    (true, { b.withHeaps r.1 with blocks := Named.remove b.blocks name }, r.2)

/-- Drops the name of a heap; answers whether it stood for one. -/
def dropHeap (b : Bench) (name : String) : Bool × Bench × List Notice :=
  let r := b.directory.drop name
  (r.1, { b with directory := r.2.1 }, r.2.2)

end Bench

end FilePipeline
