import FilePipeline.Codec.Lz4
import FilePipeline.Proofs.Codec.Pure
import FilePipeline.Proofs.Lz4.Torn
import FilePipeline.Proofs.Memory.Overlay

/-! # The frames that are accepted

`IsFrame frame data` says what a frame of `data` is, whoever wrote it: a header that announces the
length of `data`, and a block that decodes to `data` when nothing limits its output. Exactly such frames
are unframed (`unpack_iff`). The header bounds the output of the decoder, which does
no harm, since only output of the announced length is accepted; and the check of the header against the
length of the block turns no frame down (`IsFrame.checkHeader`).

A frame that is cut short, anywhere, is not unframed any more (`IsFrame.decode_torn`). -/

namespace FilePipeline

theorem LittleEndian.decode_lt (bytes : List UInt8) :
    LittleEndian.decode bytes < Nat.pow 256 bytes.length := by
  induction bytes with
  | nil => exact Nat.one_pos
  | cons b bytes ih =>
    have hb := b.toNat_lt
    show b.toNat + 256 * LittleEndian.decode bytes < Nat.pow 256 bytes.length * 256
    omega

namespace Frame

variable {frame data torn : List UInt8} {dst : Span} {n : Nat}

/-- A frame of `data`. -/
structure IsFrame (frame data : List UInt8) : Prop where
  header : headerSize ≤ frame.length
  announced : data.length = LittleEndian.decode (frame.take headerSize)
  block : Lz4.Decodes (frame.drop headerSize) data.toArray

theorem IsFrame.unique {data' : List UInt8} (h : IsFrame frame data) (h' : IsFrame frame data') :
    data = data' :=
  congrArg Array.toList (h.block.unique h'.block)

/-! ### Headers -/

theorem readHeader_iff : readHeader frame = .ok n ↔
    headerSize ≤ frame.length ∧ n = LittleEndian.decode (frame.take headerSize) := by
  unfold readHeader
  dsimp only
  rw [List.length_take]
  by_cases hlen : headerSize ≤ frame.length
  · rw [if_neg (by omega)]
    exact ⟨fun h => ⟨hlen, (Except.ok.inj h).symm⟩, fun h => congrArg Except.ok h.2.symm⟩
  · rw [if_pos (by omega)]
    exact ⟨(fun h => by cases h), fun h => absurd h.1 hlen⟩

theorem examine_lz4 (frame : List UInt8) :
    examine Codec.lz4 () frame = Attempt.ofExcept (checkHeader Codec.lz4 () frame) := by
  unfold examine
  cases readHeader frame <;> rfl

theorem examine_lz4_iff : examine Codec.lz4 () frame = .ok n ↔ checkHeader Codec.lz4 () frame = .ok n := by
  rw [examine_lz4]
  exact Attempt.ofExcept_eq_ok

theorem readHeader_of_checkHeader (h : checkHeader Codec.lz4 () frame = .ok n) :
    readHeader frame = .ok n := by
  unfold checkHeader at h
  split at h
  · cases h
  · next claimed hr =>
    dsimp only at h
    split at h
    · cases h
    · cases h
      exact hr

/-- A header is plausible if the block is not too short for what it announces. -/
theorem checkHeader_of_plausible (hlen : headerSize ≤ frame.length)
    (hn : n = LittleEndian.decode (frame.take headerSize))
    (hle : n ≤ Lz4.maxRatio * (frame.length - headerSize)) :
    checkHeader Codec.lz4 () frame = .ok n := by
  have hlt := LittleEndian.decode_lt (frame.take headerSize)
  rw [List.length_take, Nat.min_eq_left hlen, ← hn] at hlt
  have hlt : n < 4294967296 := hlt
  unfold Lz4.maxRatio at hle
  have hbound : n ≤ Codec.lz4.decompressedBound () (frame.length - headerSize) := by
    show _ ≤ min ((frame.length - headerSize) * 255) 18446744073709551615
    omega
  unfold Frame.checkHeader
  rw [readHeader_iff.mpr ⟨hlen, hn⟩]
  dsimp only
  rw [if_neg (Nat.not_lt.mpr hbound)]

theorem IsFrame.checkHeader (h : IsFrame frame data) :
    checkHeader Codec.lz4 () frame = .ok data.length := by
  have hratio := Lz4.size_le_of_decodes h.block
  rw [List.size_toArray, List.length_drop] at hratio
  exact checkHeader_of_plausible h.header h.announced hratio

/-! ### Unframing -/

/-- What unframing answers if the header is plausible and there is room for what it announces. -/
theorem decode_answer (h : Frame.checkHeader Codec.lz4 () frame = .ok n) (hd : n ≤ dst.size) :
    (decode Codec.lz4 () frame dst).answer = match Lz4.decode n (frame.drop headerSize) with
      | .error f => Attempt.mapError (fun e => .decompress e.message) (.error f)
      | .ok out =>
        if out.size = n then .ok out.size else Attempt.fail (.sizeMismatch n out.size) := by
  have hsize : (dst.take n).size = n := Nat.min_eq_left hd
  have hcall : Codec.lz4.decompress () (frame.drop headerSize) (dst.take n) =
      Codec.lz4Decompress (frame.drop headerSize) (dst.take n) := rfl
  unfold decode
  rw [examine_lz4_iff.mpr h]
  dsimp only
  rw [if_neg (Nat.not_lt.mpr hd), hcall]
  unfold Codec.lz4Decompress
  rw [hsize]
  cases Lz4.decode n (frame.drop headerSize) with
  | ok out => rfl
  | error f => cases f <;> rfl

/-- Unframing a frame into a span that is large enough: the payload comes out in front, and the rest of
    the span stays as it was. -/
theorem IsFrame.decode (h : IsFrame frame data) (hd : data.length ≤ dst.size) :
    decode Codec.lz4 () frame dst = ⟨.ok data.length, dst.overlay 0 (Span.ofList data), ()⟩ := by
  have hsize : (dst.take data.length).size = data.length := Nat.min_eq_left hd
  have hout := Lz4.decode_iff.mpr ⟨h.block, Nat.le_of_eq List.size_toArray⟩
  have hc : Codec.lz4.decompress () (frame.drop headerSize) (dst.take data.length) =
      .store () (dst.take data.length) data.toArray := by
    show Codec.lz4Decompress _ _ = _
    unfold Codec.lz4Decompress
    rw [hsize, hout]
  unfold Frame.decode
  rw [examine_lz4_iff.mpr h.checkHeader]
  dsimp only
  rw [if_neg (Nat.not_lt.mpr hd), hc]
  unfold CodecReply.store
  dsimp only
  rw [List.size_toArray, if_pos rfl]
  congr 1
  refine Span.overlay_take_overlay ?_
  rw [Nat.min_eq_left hd]
  exact Nat.le_refl _

theorem isFrame_of_decode (h : (decode Codec.lz4 () frame dst).answer = .ok n) :
    ∃ data, IsFrame frame data ∧ data.length = n ∧ n ≤ dst.size := by
  have hexamine := examine_of_decode h
  have hcheck := examine_lz4_iff.mp hexamine
  obtain ⟨hlen, hn⟩ := readHeader_iff.mp (readHeader_of_checkHeader hcheck)
  have hd : n ≤ dst.size := by
    refine Nat.le_of_not_lt fun hlt => ?_
    unfold decode at h
    rw [hexamine] at h
    dsimp only at h
    rw [if_pos hlt] at h
    cases h
  rw [decode_answer hcheck hd] at h
  split at h
  · next f hf => exact nomatch Attempt.mapError_eq_ok.mp h
  · next out hout =>
    split at h
    · next hsize =>
      have hlist : out.toList.length = n := by rw [Array.length_toList, hsize]
      refine ⟨out.toList, ⟨hlen, by rw [hlist, hn], ?_⟩, hlist, hd⟩
      rw [Array.toArray_toList]
      exact Lz4.decodes_of_decode hout
    · cases h

theorem IsFrame.unpack (h : IsFrame frame data) : unpack Codec.lz4 () frame = .ok data := by
  unfold Frame.unpack
  rw [examine_lz4_iff.mpr h.checkHeader]
  dsimp only
  rw [h.decode (Nat.le_refl _)]
  exact congrArg Except.ok (Span.toList_take_overlay (Nat.le_refl _))

theorem unpack_iff : unpack Codec.lz4 () frame = .ok data ↔ IsFrame frame data := by
  refine ⟨fun h => ?_, IsFrame.unpack⟩
  have hframe : ∃ data', IsFrame frame data' := by
    unfold Frame.unpack at h
    split at h
    · cases h
    · next n hcheck =>
      dsimp only at h
      cases ha : (Frame.decode Codec.lz4 () frame (Span.zeros n)).answer with
      | error f =>
        rw [ha] at h
        cases h
      | ok m =>
        obtain ⟨data', hframe, -⟩ := isFrame_of_decode ha
        exact ⟨data', hframe⟩
  obtain ⟨data', hframe⟩ := hframe
  obtain rfl : data' = data := Except.ok.inj (hframe.unpack.symm.trans h)
  exact hframe

/-! ### Frames that are cut short -/

/-- A frame that is cut short is unframed into no span, whatever is in the span. -/
theorem IsFrame.decode_torn (h : IsFrame frame data) (ht : torn <+: frame) (hne : torn ≠ frame)
    (dst : Span) : ∃ e, (Frame.decode Codec.lz4 () torn dst).answer = Attempt.fail e := by
  obtain ⟨cut, rfl⟩ := ht
  have hcut : cut ≠ [] := by
    rintro rfl
    exact hne (List.append_nil torn).symm
  cases hcheck : Frame.checkHeader Codec.lz4 () torn with
  | error e =>
    refine ⟨e, ?_⟩
    unfold Frame.decode
    rw [examine_lz4, hcheck]
    rfl
  | ok n =>
    by_cases hd : n ≤ dst.size
    · obtain ⟨hlen, hn⟩ := readHeader_iff.mp (readHeader_of_checkHeader hcheck)
      -- the header is whole, so it announces what the payload of the whole frame is long
      have hdata : data.length = n := by
        rw [h.announced, hn, List.take_append_of_le_length hlen]
      have hout := Lz4.decode_iff.mpr ⟨h.block, Nat.le_of_eq List.size_toArray⟩
      rw [List.drop_append_of_le_length hlen, hdata] at hout
      rw [decode_answer hcheck hd]
      rcases Lz4.decode_torn hcut hout with ⟨e, he⟩ | ⟨less, hless, hlt⟩
      · rw [he]
        exact ⟨_, rfl⟩
      · rw [show data.toArray.size = n from List.size_toArray.trans hdata] at hlt
        rw [hless]
        dsimp only
        rw [if_neg (Nat.ne_of_lt hlt)]
        exact ⟨_, rfl⟩
    · refine ⟨.sizeMismatch n 0, ?_⟩
      unfold Frame.decode
      rw [examine_lz4_iff.mpr hcheck]
      dsimp only
      rw [if_pos (Nat.lt_of_not_le hd)]

theorem IsFrame.unpack_torn (h : IsFrame frame data) (ht : torn <+: frame) (hne : torn ≠ frame) :
    ∃ e, Frame.unpack Codec.lz4 () torn = Attempt.fail e := by
  unfold Frame.unpack
  split
  · next f hf =>
    rw [examine_lz4] at hf
    obtain ⟨e, rfl⟩ := Attempt.fails_of_ofExcept hf
    exact ⟨e, rfl⟩
  · next n hn =>
    obtain ⟨e, he⟩ := h.decode_torn ht hne (Span.zeros n)
    dsimp only
    rw [he]
    exact ⟨e, rfl⟩

end Frame

end FilePipeline
