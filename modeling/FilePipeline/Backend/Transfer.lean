import FilePipeline.Backend
import FilePipeline.Size

/-! # Whole transfers

A backend may move fewer bytes than asked for, and may be interrupted. `readFull` and `writeFull` go
on until everything is moved, the file ends, or a call fails. Interruptions are passed over. A read
of no bytes ends the file; a write of no bytes is an error, since going on would not help. -/

namespace FilePipeline.Backend

variable {σ η : Type}

/-- Reads until `buf` is full or the file ends, when `filled` bytes are there already. Answers with
    the number of bytes read; the reply's span is `buf` afterwards. -/
def readFrom (b : Backend σ η) (s : σ) (h : η) (buf : Span) (filled : Nat) : ReadReply (σ × η) :=
  if _hlt : filled < buf.size then
    let r := b.read s h (buf.drop filled)
    let next : Span := buf.overlay filled ⟨buf.size - filled, r.written⟩
    match _hr : r.result with
    | .ok 0 => ⟨⟨.ok filled, r.state⟩, next.byte⟩
    | .ok (n + 1) =>
      match Size.add filled (n + 1) with
      | .ok _ => readFrom b r.state.1 r.state.2 next (filled + (n + 1))
      | .error c => ⟨⟨Attempt.crash c, r.state⟩, next.byte⟩
    | .error (.error e) =>
      if _he : e.isInterrupted = true then readFrom b r.state.1 r.state.2 next filled
      else ⟨⟨Attempt.fail e, r.state⟩, next.byte⟩
    | .error (.crash c) => ⟨⟨Attempt.crash c, r.state⟩, next.byte⟩
  else ⟨⟨.ok filled, (s, h)⟩, buf.byte⟩
termination_by (buf.size - filled, b.patience (s, h))
decreasing_by
  · exact Prod.Lex.left _ _ (by simp only [Span.size_overlay]; omega)
  · have hp := b.read_patience s h (buf.drop filled) (by
      have : (b.read s h (buf.drop filled)).result = .error (.error e) := _hr
      rw [this]; exact _he)
    exact Prod.Lex.right _ hp

def readFull (b : Backend σ η) (s : σ) (h : η) (buf : Span) : ReadReply (σ × η) :=
  b.readFrom s h buf 0

/-- Writes what is left of `data` after its first `written` bytes. Answers with the number of bytes
    the backend says it took, those first ones included. -/
def writeFrom (b : Backend σ η) (s : σ) (h : η) (data : List UInt8) (written : Nat) :
    IoReply (σ × η) Nat :=
  if _hlt : written < data.length then
    let r := b.write s h (data.drop written)
    match _hr : r.result with
    | .ok 0 => ⟨Attempt.fail .acceptedNothing, r.state⟩
    | .ok (n + 1) =>
      match Size.add written (n + 1) with
      | .ok _ => writeFrom b r.state.1 r.state.2 data (written + (n + 1))
      | .error c => ⟨Attempt.crash c, r.state⟩
    | .error (.error e) =>
      if _he : e.isInterrupted = true then writeFrom b r.state.1 r.state.2 data written
      else ⟨Attempt.fail e, r.state⟩
    | .error (.crash c) => ⟨Attempt.crash c, r.state⟩
  else ⟨.ok written, (s, h)⟩
termination_by (data.length - written, b.patience (s, h))
decreasing_by
  · exact Prod.Lex.left _ _ (by omega)
  · have hp := b.write_patience s h (data.drop written) (by
      have : (b.write s h (data.drop written)).result = .error (.error e) := _hr
      rw [this]; exact _he)
    exact Prod.Lex.right _ hp

def writeFull (b : Backend σ η) (s : σ) (h : η) (data : List UInt8) : IoReply (σ × η) Nat :=
  b.writeFrom s h data 0

end FilePipeline.Backend
