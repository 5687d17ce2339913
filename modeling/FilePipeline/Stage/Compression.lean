import FilePipeline.Frame
import FilePipeline.Stage

/-! # The compression stage

Frames what is to be written and unframes what was read. A frame is built in a buffer of the
pipeline's own heap and takes the place of the submitter's bytes. The payload of a frame goes into a
buffer for the submitter, which is allocated only once the header was checked; the frame itself is
let go in any case. -/

namespace FilePipeline.Stage

variable {σ η κ : Type}

/-- Puts the frame of the work's bytes in their place. -/
def compress (p : Setup σ η κ) (hs : Heaps) (s : κ) (w : Work) : Processed κ Unit :=
  let src := w.buffer.bytes
  match Frame.bound p.codec s src.length with
  | .error c => ⟨Attempt.crash c, w, hs, s⟩
  | .ok room =>
    match hs.newBuffer p.ownHeap room p.config.bufferAlignment with
    | (.error e, hs) => ⟨Attempt.fail (.memory e), w, hs, s⟩
    | (.ok b, hs) =>
      let r := Frame.encode p.codec s src b.storage
      match r.answer with
      | .error f => ⟨Attempt.mapError .codec (.error f), w, (hs.dropBuffer b).1, r.state⟩
      | .ok n =>
        match (b.write r.span.byte).setLength n with
        | .error c => ⟨Attempt.crash c, w, (hs.dropBuffer b).1, r.state⟩
        | .ok b =>
          let carried := w.carry hs b
          ⟨.ok (), carried.1, carried.2, r.state⟩

/-- The buffer after the payload was decoded into it. -/
def unpacked (w : Work) (b : Buffer) (n : Nat) : Except Crash Buffer :=
  (b.setLength n).map fun b => if w.nullTerminate then b.terminate.2 else b

/-- Puts the payload of a frame into a piece of work that holds no buffer. -/
def unpack (p : Setup σ η κ) (hs : Heaps) (s : κ) (w : Work) (frame : List UInt8) :
    Processed κ Unit :=
  match Frame.examine p.codec s frame with
  | .error f => ⟨Attempt.mapError .codec (.error f), w, hs, s⟩
  | .ok size =>
    match hs.newBuffer w.heap (Size.saturatingAdd size w.extra) p.config.bufferAlignment with
    | (.error e, hs) => ⟨Attempt.fail (.memory e), w, hs, s⟩
    | (.ok b, hs) =>
      let r := Frame.decode p.codec s frame b.storage
      match r.answer with
      | .error f => ⟨Attempt.mapError .codec (.error f), w, (hs.dropBuffer b).1, r.state⟩
      | .ok n =>
        match unpacked w (b.write r.span.byte) n with
        | .error c => ⟨Attempt.crash c, w, (hs.dropBuffer b).1, r.state⟩
        | .ok b =>
          let carried := w.carry hs b
          ⟨.ok (), carried.1, carried.2, r.state⟩

/-- Puts the payload of the frame that the work holds in the frame's place. -/
def decompress (p : Setup σ η κ) (hs : Heaps) (s : κ) (w : Work) : Processed κ Unit :=
  let r := unpack p hs s { w with buffer := .none } w.buffer.bytes
  { r with heaps := (w.buffer.drop r.heaps).1 }

def processCompression (p : Setup σ η κ) (hs : Heaps) (s : κ) (w : Work) : Processed κ Unit :=
  match w.op with
  | .read => decompress p hs s w
  | .write => compress p hs s w

end FilePipeline.Stage
