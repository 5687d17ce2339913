import FilePipeline.Codec.Scripted
import FilePipeline.Frame
import FilePipeline.Proofs.Memory.Prefix

/-! # Codecs and spans with the same bytes

If a codec replies alike to calls with spans of the same bytes, then so does whoever frames and unframes
with it (`encode_inStep`, `decode_inStep`). As in the case of backends a relation `R` says what that means
for the codec's states. A codec `KeepsToSpans` if its replies depend on the bytes of a span at most, and
not on what is behind its end. -/

namespace FilePipeline

variable {κ : Type}

/-- Two replies of a codec that was given the spans `dst` and `dst'`, which are alike. -/
structure CodecReply.InStep (R : κ → κ → Prop) (dst dst' : Span) (r r' : CodecReply κ) : Prop where
  answer : r.answer = r'.answer
  span : (r.span dst).Agrees (r'.span dst')
  state : R r.state r'.state

/-- A codec for which there is nothing behind the end of a span that it is given. -/
structure Codec.KeepsToSpans (c : Codec κ) : Prop where
  compress : ∀ k src {dst dst' : Span}, dst.Agrees dst' →
    CodecReply.InStep Eq dst dst' (c.compress k src dst) (c.compress k src dst')
  decompress : ∀ k src {dst dst' : Span}, dst.Agrees dst' →
    CodecReply.InStep Eq dst dst' (c.decompress k src dst) (c.decompress k src dst')

namespace Frame

variable {c : Codec κ} {R : κ → κ → Prop} {k l : κ} {dst dst' : Span}

/-- Two replies to framing or unframing that are alike. -/
structure Reply.InStep (R : κ → κ → Prop) (r r' : Reply κ) : Prop where
  answer : r.answer = r'.answer
  span : r.span.Agrees r'.span
  state : R r.state r'.state

theorem writeHeader_congr (n : Nat) (h : dst.size = dst'.size) :
    (∃ e, writeHeader dst n = .error e ∧ writeHeader dst' n = .error e) ∨
      (writeHeader dst n = .ok (dst.overlay 0 (header n)) ∧
        writeHeader dst' n = .ok (dst'.overlay 0 (header n))) := by
  unfold writeHeader
  rw [h]
  split
  · exact Or.inl ⟨_, rfl, rfl⟩
  · split
    · exact Or.inl ⟨_, rfl, rfl⟩
    · exact Or.inr ⟨rfl, rfl⟩

theorem encode_inStep (src : List UInt8) (hk : R k l)
    (hc : ∀ {body body' : Span}, body.Agrees body' →
      CodecReply.InStep R body body' (c.compress k src body) (c.compress l src body'))
    (h : dst.Agrees dst') : Reply.InStep R (encode c k src dst) (encode c l src dst') := by
  unfold encode
  rcases writeHeader_congr src.length h.size with ⟨e, he, he'⟩ | ⟨hw, hw'⟩
  · rw [he, he']
    exact ⟨rfl, h, hk⟩
  · have hh := h.overlay 0 (.refl (header src.length))
    have hbody := hc (hh.drop headerSize)
    rw [hw, hw']
    dsimp only
    rw [hbody.answer]
    exact ⟨rfl, hh.overlay headerSize hbody.span, hbody.state⟩

theorem decode_inStep {frame : List UInt8} (hk : R k l)
    (hheader : examine c k frame = examine c l frame)
    (hc : ∀ {body body' : Span}, body.Agrees body' → CodecReply.InStep R body body'
      (c.decompress k (frame.drop headerSize) body) (c.decompress l (frame.drop headerSize) body'))
    (h : dst.Agrees dst') : Reply.InStep R (decode c k frame dst) (decode c l frame dst') := by
  unfold decode
  rw [hheader, ← h.size]
  split
  · exact ⟨rfl, h, hk⟩
  · next n _ =>
    split
    · exact ⟨rfl, h, hk⟩
    · have hbody := hc (h.take n)
      dsimp only
      rw [hbody.answer]
      exact ⟨rfl, h.overlay 0 hbody.span, hbody.state⟩

end Frame

theorem Codec.keepsToSpans_scripted (script : Codec.Script) : (Codec.scripted script).KeepsToSpans := by
  have hplay : ∀ (act : Codec.Act) wrap src {dst dst' : Span}, dst.Agrees dst' →
      CodecReply.InStep Eq dst dst' (act.play wrap src dst) (act.play wrap src dst') := by
    intro act wrap src dst dst' h
    unfold Codec.Act.play
    cases act with
    | store =>
      dsimp only
      rw [← h.size]
      split
      · exact ⟨rfl, h, rfl⟩
      · exact ⟨rfl, h.overlay 0 (.refl _), rfl⟩
    | _ => exact ⟨rfl, h, rfl⟩
  exact ⟨fun _ src _ _ h => hplay _ _ src h, fun _ src _ _ h => hplay _ _ src h⟩

namespace Codec.KeepsToSpans

variable {c : Codec κ} {dst dst' : Span}

theorem encode (hc : c.KeepsToSpans) (k : κ) (src : List UInt8) (h : dst.Agrees dst') :
    Frame.Reply.InStep Eq (Frame.encode c k src dst) (Frame.encode c k src dst') :=
  Frame.encode_inStep src rfl (hc.compress k src) h

theorem decode (hc : c.KeepsToSpans) (k : κ) (frame : List UInt8) (h : dst.Agrees dst') :
    Frame.Reply.InStep Eq (Frame.decode c k frame dst) (Frame.decode c k frame dst') :=
  Frame.decode_inStep rfl rfl (hc.decompress k _) h

end Codec.KeepsToSpans

end FilePipeline
