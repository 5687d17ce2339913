import FilePipeline.Codec.Lz4
import FilePipeline.Proofs.Codec.Spans

/-! # Codecs without a state

A codec is pure if its replies do not depend on its state, and of the span it is given on no more than
the bytes in it (`Codec.Pure`). Then framing and unframing do not either (`Frame.encode_congr`,
`Frame.decode_congr`), so that what a stage does in one of its buffers is what `Frame.pack` and
`Frame.unpack` do on their own. -/

namespace FilePipeline

/-- A codec that is a function of the bytes it is given. -/
structure Codec.Pure {κ : Type} (c : Codec κ) : Prop where
  bound : ∀ k l n, c.bound k n = c.bound l n
  expansion : ∀ k l n, c.expansion k n = c.expansion l n
  compress : ∀ k l src {dst dst' : Span}, dst.Agrees dst' →
    (c.compress k src dst).answer = (c.compress l src dst').answer ∧
      ((c.compress k src dst).span dst).Agrees ((c.compress l src dst').span dst')
  decompress : ∀ k l src {dst dst' : Span}, dst.Agrees dst' →
    (c.decompress k src dst).answer = (c.decompress l src dst').answer ∧
      ((c.decompress k src dst).span dst).Agrees ((c.decompress l src dst').span dst')

namespace Frame

variable {κ : Type} {c : Codec κ} {dst dst' : Span}

theorem bound_congr (hc : c.Pure) (k l : κ) (n : Nat) : bound c k n = bound c l n := by
  unfold bound
  rw [hc.bound k l]

theorem examine_congr (hc : c.Pure) (k l : κ) (frame : List UInt8) :
    examine c k frame = examine c l frame := by
  unfold examine checkHeader Codec.decompressedBound
  simp only [hc.expansion k l]

theorem encode_congr (hc : c.Pure) (k l : κ) (src : List UInt8) (h : dst.Agrees dst') :
    (encode c k src dst).answer = (encode c l src dst').answer ∧
      (encode c k src dst).span.Agrees (encode c l src dst').span := by
  have hframe := encode_inStep (R := fun _ _ => True) (k := k) (l := l) src trivial (fun hbody => by
    obtain ⟨ha, hs⟩ := hc.compress k l src hbody
    exact ⟨ha, hs, trivial⟩) h
  exact ⟨hframe.answer, hframe.span⟩

/-- Unframing into spans that begin with the same bytes, as many as the header announces. -/
theorem decode_congr (hc : c.Pure) (k l : κ) {frame : List UInt8} {n : Nat}
    (hn : examine c k frame = .ok n) (hs : n ≤ dst.size)
    (h : (dst.take n).Agrees dst') :
    (decode c k frame dst).answer = (decode c l frame dst').answer ∧
      ((decode c k frame dst).span.take n).Agrees (decode c l frame dst').span := by
  have hsize : dst'.size = n := by rw [← h.size, Span.size_take, Nat.min_eq_left hs]
  have hl : examine c l frame = .ok n := (examine_congr hc l k frame).trans hn
  have hsame : (dst.take n).Agrees (dst'.take n) := by
    refine ⟨by rw [Span.size_take, Span.size_take, hsize, Nat.min_eq_left hs, Nat.min_self],
      fun i hi => h.byte i hi⟩
  unfold decode
  rw [hn, hl]
  dsimp only
  rw [if_neg (Nat.not_lt.mpr hs), if_neg (by omega)]
  obtain ⟨ha, hspan⟩ := hc.decompress k l (frame.drop headerSize) hsame
  dsimp only
  rw [ha]
  refine ⟨rfl, ?_⟩
  have hover := h.overlay 0 hspan
  exact ⟨hover.size, hover.byte⟩

theorem decode_agrees (hc : c.Pure) (k l : κ) (frame : List UInt8) (h : dst.Agrees dst') :
    (decode c k frame dst).answer = (decode c l frame dst').answer ∧
      (decode c k frame dst).span.Agrees (decode c l frame dst').span := by
  have hpayload := decode_inStep (R := fun _ _ => True) trivial (examine_congr hc k l frame)
    (fun hbody => by
      obtain ⟨ha, hs⟩ := hc.decompress k l (frame.drop headerSize) hbody
      exact ⟨ha, hs, trivial⟩) h
  exact ⟨hpayload.answer, hpayload.span⟩

theorem size_encode (c : Codec κ) (k : κ) (src : List UInt8) (frame : Span) :
    (encode c k src frame).span.size = frame.size := by
  unfold encode
  rcases writeHeader_congr src.length (Eq.refl frame.size) with ⟨e, he, -⟩ | ⟨hw, -⟩
  · rw [he]
  · rw [hw]
    rfl

theorem size_decode (c : Codec κ) (k : κ) (frame : List UInt8) (dst : Span) :
    (decode c k frame dst).span.size = dst.size := by
  unfold decode
  split
  · rfl
  · split <;> rfl

/-- What is unframed has the announced length. -/
theorem examine_of_decode {k : κ} {frame : List UInt8} {dst : Span} {n : Nat}
    (h : (decode c k frame dst).answer = .ok n) : examine c k frame = .ok n := by
  unfold decode at h
  split at h
  · cases h
  · next expected he =>
    split at h
    · cases h
    · dsimp only at h
      split at h
      · split at h
        · next actual heq =>
          cases h
          rw [he, heq]
        · cases h
      · cases h

/-- What framing makes of a payload can be seen in every span of the room that it asks for. -/
theorem pack_eq (hc : c.Pure) (k l : κ) {src : List UInt8} {room : Nat}
    (hroom : bound c k src.length = .ok room) (h : dst.Agrees (.zeros room)) :
    pack c k src = (encode c l src dst).answer.map fun n =>
      ((encode c l src dst).span.take n).toList := by
  obtain ⟨hanswer, hspan⟩ := encode_congr hc l k src h
  unfold pack
  rw [hroom]
  dsimp only
  rw [hanswer]
  congr 1
  funext n
  exact (hspan.take n).toList.symm

/-- What unframing makes of a frame can be seen in every span that begins with enough zeros. -/
theorem unpack_eq (hc : c.Pure) (k l : κ) {frame : List UInt8} {n : Nat}
    (hn : examine c l frame = .ok n) (hs : n ≤ dst.size) (h : (dst.take n).Agrees (.zeros n)) :
    unpack c k frame = (decode c l frame dst).answer.map fun m =>
      ((decode c l frame dst).span.take m).toList := by
  obtain ⟨hanswer, hspan⟩ := decode_congr hc l k hn hs h
  unfold unpack
  rw [examine_congr hc k l, hn]
  dsimp only
  rw [hanswer]
  cases hd : (decode c k frame (.zeros n)).answer with
  | error f => rfl
  | ok m =>
    obtain rfl : m = n := by
      have hm := examine_of_decode hd
      rw [examine_congr hc k l, hn] at hm
      exact (Except.ok.inj hm).symm
    have htwice : (((decode c l frame dst).span.take m).take m).Agrees
        ((decode c l frame dst).span.take m) := by
      refine ⟨?_, fun i hi => rfl⟩
      rw [Span.size_take, Span.size_take]
      omega
    exact congrArg Except.ok ((hspan.take m).toList.symm.trans htwice.toList)

end Frame

/-! ### The LZ4 codec -/

theorem CodecReply.store_agrees {κ : Type} (k l : κ) {dst dst' : Span} (h : dst.Agrees dst')
    (bytes : Array UInt8) : ((store k dst bytes).span dst).Agrees ((store l dst' bytes).span dst') :=
  h.overlay 0 (.refl _)

theorem Codec.pure_lz4 : Codec.lz4.Pure where
  bound _ _ _ := rfl
  expansion _ _ _ := rfl
  compress _ _ src dst dst' h := by
    show (lz4Compress src dst).answer = (lz4Compress src dst').answer ∧
      ((lz4Compress src dst).span dst).Agrees ((lz4Compress src dst').span dst')
    unfold lz4Compress
    rw [h.size]
    split
    · exact ⟨rfl, h⟩
    · split
      · exact ⟨rfl, h⟩
      · exact ⟨rfl, CodecReply.store_agrees () () h _⟩
  decompress _ _ src dst dst' h := by
    show (lz4Decompress src dst).answer = (lz4Decompress src dst').answer ∧
      ((lz4Decompress src dst).span dst).Agrees ((lz4Decompress src dst').span dst')
    unfold lz4Decompress
    rw [h.size]
    split
    · exact ⟨rfl, h⟩
    · exact ⟨rfl, CodecReply.store_agrees () () h _⟩

theorem Codec.keepsToSpans_lz4 : Codec.lz4.KeepsToSpans where
  compress k src _ _ h :=
    have hreply := Codec.pure_lz4.compress k k src h
    ⟨hreply.1, hreply.2, rfl⟩
  decompress k src _ _ h :=
    have hreply := Codec.pure_lz4.decompress k k src h
    ⟨hreply.1, hreply.2, rfl⟩

end FilePipeline
