import FilePipeline.Proofs.Frame.Accepted
import FilePipeline.Proofs.Lz4.Parsed

/-! # Frames with LZ4 are read back

A payload that a header can announce is framed into a span of exactly the room that framing asks for,
and what comes out is a frame of it (`isFrame_lz4Frame`). So the check of its header does not turn it
down, and it is unframed to the payload into every span that is large enough, of which nothing else is
touched (`lz4_round_trip`). -/

namespace FilePipeline.Frame

/-- The frame of a payload: the header, then the block. -/
def lz4Frame (src : List UInt8) : List UInt8 :=
  LittleEndian.encode headerSize src.length ++ (Lz4.blockOf src.toArray).encode

theorem drop_lz4Frame (src : List UInt8) :
    (lz4Frame src).drop headerSize = (Lz4.blockOf src.toArray).encode := by
  unfold lz4Frame
  rw [List.drop_left' (LittleEndian.length_encode _ _)]

theorem length_lz4Frame (src : List UInt8) :
    (lz4Frame src).length = headerSize + (Lz4.blockOf src.toArray).encode.length := by
  unfold lz4Frame
  rw [List.length_append, LittleEndian.length_encode]

theorem bound_lz4 {n : Nat} (h : n ≤ maxPayload) :
    Lz4.encodedBound n = .ok (20 + n * 110 / 100) ∧
      bound Codec.lz4 () n = .ok (24 + n * 110 / 100) := by
  have hn : n ≤ 4294967295 := h
  have hb : Lz4.encodedBound n = .ok (20 + n * 110 / 100) := by
    unfold Lz4.encodedBound
    rw [Size.mul_of_le (show n * 110 ≤ 18446744073709551615 by omega)]
    rfl
  refine ⟨hb, ?_⟩
  have hc : Codec.lz4.bound () n = .ok (20 + n * 110 / 100) := hb
  unfold bound
  rw [hc]
  dsimp only
  unfold headerSize
  rw [Size.add_of_le (show 4 + (20 + n * 110 / 100) ≤ 18446744073709551615 by omega),
    ← Nat.add_assoc]

theorem length_block_le (src : List UInt8) :
    (Lz4.blockOf src.toArray).encode.length ≤ 20 + src.length * 110 / 100 := by
  have h := (Lz4.length_bounds_blockOf src.toArray).1
  rw [List.size_toArray] at h
  omega

theorem isFrame_lz4Frame {src : List UInt8} (h : src.length ≤ maxPayload) :
    IsFrame (lz4Frame src) src := by
  have hn : src.length ≤ 4294967295 := h
  refine ⟨?_, ?_, ?_⟩
  · rw [length_lz4Frame]
    exact Nat.le_add_right _ _
  · unfold lz4Frame
    rw [List.take_left' (LittleEndian.length_encode _ _),
      LittleEndian.decode_encode _ _ (show src.length < 4294967296 by omega)]
  · rw [drop_lz4Frame]
    exact Lz4.decodes_of_decode (Lz4.decode_blockOf h)

theorem readHeader_lz4Frame {src : List UInt8} (h : src.length ≤ maxPayload) :
    readHeader (lz4Frame src) = .ok src.length :=
  readHeader_iff.mpr ⟨(isFrame_lz4Frame h).header, (isFrame_lz4Frame h).announced⟩

theorem checkHeader_lz4Frame {src : List UInt8} (h : src.length ≤ maxPayload) :
    checkHeader Codec.lz4 () (lz4Frame src) = .ok src.length :=
  (isFrame_lz4Frame h).checkHeader

/-- Framing into a span of exactly the room that it asks for. -/
theorem encode_lz4 {src : List UInt8} (h : src.length ≤ maxPayload) {frame : Span}
    (hf : frame.size = 24 + src.length * 110 / 100) :
    (encode Codec.lz4 () src frame).answer = .ok (lz4Frame src).length ∧
      ((encode Codec.lz4 () src frame).span.take (lz4Frame src).length).toList =
        lz4Frame src := by
  have hn : src.length ≤ 4294967295 := h
  have hlen := length_block_le src
  have hw : writeHeader frame src.length = .ok (frame.overlay 0 (header src.length)) := by
    unfold writeHeader
    rw [if_neg (Nat.not_lt.mpr h), if_neg (by rw [hf]; unfold headerSize; omega)]
  have hc : Codec.lz4.compress () src ((frame.overlay 0 (header src.length)).drop headerSize) =
      .store () ((frame.overlay 0 (header src.length)).drop headerSize)
        (Lz4.blockOf src.toArray).encode.toArray := by
    show Codec.lz4Compress src _ = _
    unfold Codec.lz4Compress
    rw [(bound_lz4 h).1]
    dsimp only
    rw [if_neg]
    show ¬ frame.size - 4 < _
    omega
  have he : encode Codec.lz4 () src frame =
      ⟨.ok (lz4Frame src).length,
        (frame.overlay 0 (header src.length)).overlay headerSize
          (((frame.overlay 0 (header src.length)).drop headerSize).overlay 0
            (Span.ofList (Lz4.blockOf src.toArray).encode)), ()⟩ := by
    unfold encode
    rw [hw]
    dsimp only
    rw [hc]
    unfold CodecReply.store
    dsimp only
    rw [List.size_toArray, Size.add_of_le, length_lz4Frame]
    · rfl
    · show 4 + (Lz4.blockOf src.toArray).encode.length ≤ 18446744073709551615
      omega
  rw [he]
  refine ⟨rfl, ?_⟩
  dsimp only
  rw [Span.overlay_drop_overlay]
  · have hh : (LittleEndian.encode headerSize src.length).length = headerSize :=
      LittleEndian.length_encode _ _
    unfold lz4Frame header
    have ht := Span.toList_take_overlay_append (s := frame)
      (LittleEndian.encode headerSize src.length) (Lz4.blockOf src.toArray).encode
      (by rw [hh]; unfold headerSize; omega)
    rw [hh] at ht
    exact ht
  · rw [Span.size_ofList, Span.size_overlay]
    unfold headerSize
    omega

theorem pack_lz4 {src : List UInt8} (h : src.length ≤ maxPayload) :
    pack Codec.lz4 () src = .ok (lz4Frame src) := by
  obtain ⟨hanswer, hspan⟩ := encode_lz4 h (Span.size_zeros (24 + src.length * 110 / 100))
  unfold pack
  rw [(bound_lz4 h).2]
  dsimp only
  rw [hanswer]
  exact congrArg Except.ok hspan

theorem decode_lz4 {src : List UInt8} (h : src.length ≤ maxPayload) {dst : Span}
    (hd : src.length ≤ dst.size) : decode Codec.lz4 () (lz4Frame src) dst =
      ⟨.ok src.length, dst.overlay 0 (Span.ofList src), ()⟩ :=
  (isFrame_lz4Frame h).decode hd

theorem unpack_lz4 {src : List UInt8} (h : src.length ≤ maxPayload) :
    unpack Codec.lz4 () (lz4Frame src) = .ok src :=
  (isFrame_lz4Frame h).unpack

theorem length_lz4Frame_le (src : List UInt8) :
    (lz4Frame src).length ≤ 24 + src.length * 110 / 100 := by
  have := length_block_le src
  rw [length_lz4Frame]
  unfold headerSize
  omega

/-- What framing makes of a payload is a frame of it, and no machine is too small to hold it. -/
theorem isFrame_of_pack {src bytes : List UInt8} (h : pack Codec.lz4 () src = .ok bytes) :
    IsFrame bytes src ∧ bytes.length ≤ Size.max := by
  by_cases hn : src.length ≤ maxPayload
  · rw [pack_lz4 hn] at h
    cases h
    refine ⟨isFrame_lz4Frame hn, ?_⟩
    have hn : src.length ≤ 4294967295 := hn
    have hlen := length_lz4Frame_le src
    show _ ≤ 18446744073709551615
    omega
  · unfold pack at h
    split at h
    · cases h
    · unfold encode writeHeader at h
      rw [if_pos (Nat.lt_of_not_le hn)] at h
      cases h

/-- A payload whose length fits into a header is framed into exactly the room that framing asks for;
    the frame passes the check of the header, and every span that is large enough gets the payload in
    front and stays as it was behind it. -/
theorem lz4_round_trip (src : List UInt8) (h : src.length ≤ maxPayload) :
    ∃ room, bound Codec.lz4 () src.length = .ok room ∧
      ∀ buffer : Span, buffer.size = room →
        ∃ n frame, (encode Codec.lz4 () src buffer).answer = .ok n ∧ 5 ≤ n ∧ n ≤ room ∧
          ((encode Codec.lz4 () src buffer).span.take n).toList = frame ∧
          readHeader frame = .ok src.length ∧
          checkHeader Codec.lz4 () frame = .ok src.length ∧
          ∀ dst : Span, src.length ≤ dst.size →
            (decode Codec.lz4 () frame dst).answer = .ok src.length ∧
            ((decode Codec.lz4 () frame dst).span.take src.length).toList = src ∧
            ((decode Codec.lz4 () frame dst).span.drop src.length).toList =
              (dst.drop src.length).toList := by
  refine ⟨24 + src.length * 110 / 100, (bound_lz4 h).2, fun buffer hb => ?_⟩
  obtain ⟨hanswer, hframe⟩ := encode_lz4 h hb
  have hone := Lz4.Block.one_le_length_encode (Lz4.blockOf src.toArray)
  have hle := length_block_le src
  have hlen := length_lz4Frame src
  unfold headerSize at hlen
  refine ⟨_, lz4Frame src, hanswer, by omega, by omega, hframe, readHeader_lz4Frame h,
    checkHeader_lz4Frame h, fun dst hd => ?_⟩
  rw [decode_lz4 h hd]
  exact ⟨rfl, Span.toList_take_overlay hd, Span.toList_drop_overlay⟩

theorem lz4_round_trip_of_three_bytes :
    ∃ room, bound Codec.lz4 () 3 = .ok room ∧ ∃ n,
      (encode Codec.lz4 () [7, 7, 9] (Span.zeros room)).answer = .ok n ∧
        (decode Codec.lz4 ()
          ((encode Codec.lz4 () [7, 7, 9] (Span.zeros room)).span.take n).toList
          (Span.zeros 5)).answer = .ok 3 := by
  obtain ⟨room, hroom, h⟩ := lz4_round_trip [7, 7, 9] (by decide)
  obtain ⟨n, frame, hn, -, -, hf, -, -, hd⟩ := h (Span.zeros room) rfl
  refine ⟨room, hroom, n, hn, ?_⟩
  rw [hf]
  exact (hd (Span.zeros 5) (by decide)).1

end FilePipeline.Frame
