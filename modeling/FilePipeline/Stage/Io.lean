import FilePipeline.Backend.Transfer
import FilePipeline.Stage

/-! # The I/O stage

Moves whole files. Once a file is open it is closed again, whatever happens in between, unless the
worker goes down; that closing fails is passed over. A plain read goes into a buffer for the
submitter, with room for a terminator if there is to be one. A compressed read goes into a buffer of
the pipeline's own heap and is never terminated, since it is only on its way to the other stage. -/

namespace FilePipeline.Stage

variable {σ η κ α : Type}

/-- Closes the file that work was done on, unless the worker went down already. -/
def closing (b : Backend σ η) (r : Processed (σ × η) α) : Processed σ α :=
  match r.result with
  | .error (.crash c) => ⟨Attempt.crash c, r.work, r.heaps, r.state.1⟩
  | result =>
    let closed := b.close r.state.1 r.state.2
    match closed.result with
    | .error (.crash c) => ⟨Attempt.crash c, r.work, r.heaps, closed.state⟩
    | _ => ⟨result, r.work, r.heaps, closed.state⟩

/-- Opens the file of a piece of work, does something with it and closes it. -/
def withFile (p : Setup σ η κ) (hs : Heaps) (s : σ) (w : Work) (mode : OpenMode)
    (body : σ → η → Processed (σ × η) α) : Processed σ α :=
  match p.backend.translate s w.path.text with
  | .error f => ⟨Attempt.mapError .path (.error f), w, hs, s⟩
  | .ok path =>
    let opened := p.backend.openFile s path mode
    match opened.result with
    | .error f => ⟨Attempt.mapError .io (.error f), w, hs, opened.state⟩
    | .ok h => closing p.backend (body opened.state h)

/-! ### Reads -/

/-- The heap and the capacity of the buffer for a file of the given size. -/
def readTarget (p : Setup σ η κ) (w : Work) (size : Nat) : HeapId × Nat :=
  if w.compressed then (p.ownHeap, size) else (w.heap, Size.saturatingAdd size w.extra)

/-- The buffer after `n` bytes were read into it. A plain read is terminated where asked for. -/
def received (w : Work) (b : Buffer) (n : Nat) : Except Crash Buffer :=
  (b.setLength n).map fun b => if w.nullTerminate && !w.compressed then b.terminate.2 else b

/-- Reads the contents of an open file into a new buffer. -/
def readContents (p : Setup σ η κ) (hs : Heaps) (w : Work) (s : σ) (h : η) :
    Processed (σ × η) Unit :=
  let sized := p.backend.querySize s h
  match sized.result with
  | .error f => ⟨Attempt.mapError .io (.error f), w, hs, sized.state⟩
  | .ok size =>
    let target := readTarget p w size
    match hs.newBuffer target.1 target.2 p.config.bufferAlignment with
    | (.error e, hs) => ⟨Attempt.fail (.memory e), w, hs, sized.state⟩
    | (.ok b, hs) =>
      let r := p.backend.readFull sized.state.1 sized.state.2 (b.storage.take size)
      let filled := b.write (b.storage.overlay 0 ⟨size, r.written⟩).byte
      match r.result with
      | .error f => ⟨Attempt.mapError .io (.error f), w, (hs.dropBuffer b).1, r.state⟩
      | .ok n =>
        match received w filled n with
        | .error c => ⟨Attempt.crash c, w, (hs.dropBuffer b).1, r.state⟩
        | .ok b =>
          let carried := w.carry hs b
          ⟨.ok (), carried.1, carried.2, r.state⟩

def read (p : Setup σ η κ) (hs : Heaps) (s : σ) (w : Work) : Processed σ Unit :=
  withFile p hs s w .sharedRead (readContents p hs w)

/-! ### Writes -/

/-- Writes the bytes of a piece of work to an open file. -/
def writeContents (p : Setup σ η κ) (hs : Heaps) (w : Work) (s : σ) (h : η) :
    Processed (σ × η) Nat :=
  let r := p.backend.writeFull s h w.buffer.bytes
  ⟨Attempt.mapError .io r.result, w, hs, r.state⟩

/-- Writes the file of a piece of work, whose size is then what the backend says it took. -/
def write (p : Setup σ η κ) (hs : Heaps) (s : σ) (w : Work) : Processed σ Unit :=
  let r := withFile p hs s w .createTruncate (writeContents p hs w)
  match r.result with
  | .ok n => ⟨.ok (), { r.work with size := n }, r.heaps, r.state⟩
  | .error f => ⟨.error f, r.work, r.heaps, r.state⟩

def processIo (p : Setup σ η κ) (hs : Heaps) (s : σ) (w : Work) : Processed σ Unit :=
  match w.op with
  | .read => read p hs s w
  | .write => write p hs s w

end FilePipeline.Stage
