import FilePipeline.Proofs.Frame.Accepted

/-! # Codecs that are not trusted

Whatever a codec answers and writes, unframing answers with the length that the header announces or not at
all, and leaves alone what lies behind that many bytes of the span it was given (`confined`). The header
itself is believed only as far as the codec says that the rest of the frame can hold so much. -/

namespace FilePipeline.Frame

variable {κ : Type} {codec : Codec κ} {k : κ} {frame : List UInt8} {dst : Span} {n : Nat}

/-- A header is accepted if the codec answers what the rest of the frame can hold, and it is no more. -/
theorem examine_iff : examine codec k frame = .ok n ↔ readHeader frame = .ok n ∧
    ∃ m, codec.expansion k (frame.length - headerSize) = .ok m ∧ n ≤ m := by
  unfold examine checkHeader Codec.decompressedBound
  dsimp only
  cases readHeader frame with
  | error e => exact ⟨(fun h => by cases h), fun h => by cases h.1⟩
  | ok claimed =>
    cases codec.expansion k (frame.length - headerSize) with
    | error c => exact ⟨(fun h => by cases h), fun ⟨_, m, hm, _⟩ => by cases hm⟩
    | ok m =>
      dsimp only
      rw [Attempt.ofExcept_eq_ok]
      split
      · next hlt =>
        refine ⟨fun h => (by cases h), fun ⟨hn, _, hm, hle⟩ => ?_⟩
        cases hn
        cases hm
        omega
      · next hge =>
        constructor
        · intro h
          cases h
          exact ⟨rfl, m, rfl, Nat.not_lt.mp hge⟩
        · exact fun h => h.1

theorem readHeader_of_take {m : Nat} (h : readHeader (frame.take m) = .ok n) :
    readHeader frame = .ok n := by
  rw [readHeader_iff, List.length_take, List.take_take] at h
  rw [readHeader_iff]
  obtain ⟨hlen, hn⟩ := h
  rw [Nat.min_eq_left (by omega)] at hn
  exact ⟨by omega, hn⟩

/-- What unframing does to the span `dst` with a codec of which nothing is known. -/
structure Confined (codec : Codec κ) (k : κ) (frame : List UInt8) (dst : Span) : Prop where
  /-- The answer is the length in the header, which is not implausible, and there is room for it. -/
  announced : ∀ n, (decode codec k frame dst).answer = .ok n → readHeader frame = .ok n ∧
    (∃ m, codec.expansion k (frame.length - headerSize) = .ok m ∧ n ≤ m) ∧ n ≤ dst.size
  size : (decode codec k frame dst).span.size = dst.size
  /-- Whether it goes well or not, nothing is written behind the length in the header, and nothing at all
      if there is no header. -/
  behind : ∀ i, (∀ n, readHeader frame = .ok n → n ≤ i) →
    (decode codec k frame dst).span.byte i = dst.byte i

theorem byte_overlay_front {s t : Span} {i : Nat} (h : t.size ≤ i) : (s.overlay 0 t).byte i = s.byte i :=
  if_neg fun hi => by omega

theorem confined (codec : Codec κ) (k : κ) (frame : List UInt8) (dst : Span) :
    Confined codec k frame dst := by
  have hsize := size_decode codec k frame dst
  refine ⟨fun n h => ?_, hsize, fun i hi => ?_⟩
  · have hheader := examine_of_decode h
    obtain ⟨hread, hbound⟩ := examine_iff.mp hheader
    refine ⟨hread, hbound, ?_⟩
    unfold decode at h
    rw [hheader] at h
    dsimp only at h
    split at h
    · cases h
    · omega
  · unfold decode
    split
    · rfl
    · next expected hheader =>
      split
      · rfl
      · -- only what lies before the announced length is given to the codec
        refine byte_overlay_front (t := CodecReply.span _ _) ?_
        have hle := hi expected (examine_iff.mp hheader).1
        show min expected dst.size ≤ i
        omega

end FilePipeline.Frame
