import FilePipeline.Proofs.Codec.Pure
import FilePipeline.Proofs.Heap.Buffers
import FilePipeline.Proofs.Stage.Identity

/-! # The compression stage over a pure codec

What the compression stage makes of a piece of work is what `Frame.pack` and `Frame.unpack` make of its
bytes (`compress_spec`, `decompress_spec`), unless the memory is refused. Its buffers are larger than
the spans of those two only by the room for a terminator, and all zeros like them. -/

namespace FilePipeline

theorem Buffer.storage_write {b : Buffer} {s : Span} (h : s.size = b.storage.size) :
    (b.write s.byte).storage = s := by
  unfold Buffer.write
  rw [← h]

namespace Stage

variable {σ η κ : Type} {p : Setup σ η κ} {hs : Heaps} {w : Work}

/-! ### Writes -/

theorem bytes_of_setLength {b b' : Buffer} {t : Span} {n : Nat} (ht : t.size = b.storage.size)
    (h : (b.write t.byte).setLength n = .ok b') :
    b'.bytes = (t.take n).toList ∧ b'.length = b'.bytes.length := by
  unfold Buffer.setLength Buffer.capacity at h
  rw [Buffer.storage_write ht] at h
  split at h
  · next hle =>
    cases h
    unfold Buffer.bytes
    dsimp only
    rw [Span.length_toList, Span.size_take, Nat.min_eq_left hle]
    exact ⟨rfl, rfl⟩
  · cases h

/-- What the compression stage does with a write. -/
structure Packed (p : Setup σ η κ) (k : κ) (w : Work) (r : Processed κ Unit) : Prop where
  full : r.result = .ok () → ∃ b, Frame.pack p.codec k w.buffer.bytes = .ok b.bytes ∧
    r.work = { w with buffer := .owned b, size := b.length } ∧ b.length = b.bytes.length
  /-- If framing keeps to the room that it asked for, only the memory can make it fail. -/
  served : ∀ room n, Frame.bound p.codec k w.buffer.bytes.length = .ok room →
    (Frame.encode p.codec k w.buffer.bytes (.zeros room)).answer = .ok n → n ≤ room →
    r.result = .ok () ∨ ∃ e, r.result = Attempt.fail (.memory e)

theorem compress_spec (hc : p.codec.Pure) (k s : κ) : Packed p k w (compress p hs s w) := by
  unfold compress
  dsimp only
  rw [Frame.bound_congr hc s k]
  split
  · next hroom => exact ⟨(fun h => by cases h), fun _ _ h => by rw [hroom] at h; cases h⟩
  · next room hroom =>
    split
    · exact ⟨(fun h => by cases h), fun _ _ _ _ _ => Or.inr ⟨_, rfl⟩⟩
    · next b hs' hnew =>
      obtain ⟨hstorage, -⟩ := Heaps.newBuffer_ok hnew
      have hanswer := (Frame.encode_congr hc s k w.buffer.bytes hstorage).1
      have hpack := Frame.pack_eq hc k s hroom hstorage
      split
      · next f hf =>
        refine ⟨fun h => ?_, fun room' n hroom' h => ?_⟩
        · exact nomatch Attempt.mapError_eq_ok.mp h
        · obtain rfl : room = room' := Except.ok.inj (hroom.symm.trans hroom')
          rw [← hanswer, hf] at h
          cases h
      · next n hn =>
        rw [hn] at hpack
        split
        · next hset =>
          refine ⟨(fun h => by cases h), fun room' m hroom' h hle => ?_⟩
          obtain rfl : room = room' := Except.ok.inj (hroom.symm.trans hroom')
          rw [← hanswer, hn] at h
          obtain rfl : n = m := Except.ok.inj h
          unfold Buffer.setLength Buffer.capacity at hset
          rw [Buffer.storage_write (Frame.size_encode _ _ _ _), Frame.size_encode,
            if_pos (by rw [hstorage.size]; exact hle)] at hset
          cases hset
        · next b' hset =>
          obtain ⟨hbytes, hlen⟩ := bytes_of_setLength (Frame.size_encode _ _ _ _) hset
          refine ⟨fun _ => ⟨b', hpack.trans ?_, rfl, hlen⟩, fun _ _ _ _ _ => Or.inl rfl⟩
          exact congrArg Except.ok hbytes.symm

/-! ### Reads -/

/-- What the compression stage makes of a read of `frame`. -/
structure Unpacked (p : Setup σ η κ) (k : κ) (w : Work) (frame : List UInt8) (r : Processed κ Unit) :
    Prop where
  full : r.result = .ok () → ∃ data b, Frame.unpack p.codec k frame = .ok data ∧
    r.work = { w with buffer := .owned b, size := data.length } ∧ b.Delivers data w.nullTerminate
  /-- Its result is that of unframing, if the memory is not refused. -/
  served : (∃ e, r.result = Attempt.fail (.memory e)) ∨
    r.result = Attempt.mapError .codec ((Frame.unpack p.codec k frame).map fun _ => ())

/-- The buffer into which a payload of `n` bytes was decoded, if it has room for the terminator. -/
theorem unpacked_spec (w : Work) {b : Buffer} {t : Span} {n : Nat} (ht : t.size = b.storage.size)
    (hroom : n + w.extra ≤ b.storage.size) : ∃ b', unpacked w (b.write t.byte) n = .ok b' ∧
      b'.Delivers (t.take n).toList w.nullTerminate := by
  have hle : n ≤ t.size := by omega
  have hlen : n = (t.take n).toList.length := by
    rw [Span.length_toList, Span.size_take, Nat.min_eq_left hle]
  have hst := Buffer.storage_write ht
  have hstarts : (b.write t.byte).storage.Starts (t.take n).toList := by
    rw [hst]
    exact Span.starts_toList_take hle
  refine Buffer.delivers_of_setLength hstarts hlen w.nullTerminate fun hn => ?_
  have hx : w.extra = 1 := if_pos hn
  rw [← hlen, hst]
  omega

theorem unpack_spec (hs : Heaps) (w : Work) (hc : p.codec.Pure) (k s : κ) (frame : List UInt8) :
    Unpacked p k w frame (unpack p hs s w frame) := by
  unfold unpack
  have hcheck := Frame.examine_congr hc s k frame
  split
  · next f hf =>
    rw [hcheck] at hf
    refine ⟨fun h => ?_, Or.inr ?_⟩
    · exact nomatch Attempt.mapError_eq_ok.mp h
    · unfold Frame.unpack
      rw [hf]
      rfl
  · next size hsize =>
    split
    · exact ⟨(fun h => by cases h), Or.inl ⟨_, rfl⟩⟩
    · next b hs' hnew =>
      obtain ⟨hstorage, -⟩ := Heaps.newBuffer_ok hnew
      obtain ⟨hcap, -⟩ := Heaps.newBuffer_saturating hnew
      have hzeros : (b.storage.take size).Agrees (.zeros size) := by
        refine ⟨by rw [Span.size_take, Span.size_zeros, hcap]; omega, fun i hi => ?_⟩
        refine hstorage.byte i ?_
        rw [Span.size_take] at hi
        omega
      have hunpack := Frame.unpack_eq hc k s hsize (by omega) hzeros
      dsimp only
      split
      · next f hf =>
        rw [hf] at hunpack
        refine ⟨fun h => ?_, Or.inr (by rw [hunpack]; rfl)⟩
        exact nomatch Attempt.mapError_eq_ok.mp h
      · next n hn =>
        obtain rfl : size = n := by
          have h := Frame.examine_of_decode hn
          rw [hsize] at h
          exact Except.ok.inj h
        rw [hn] at hunpack
        obtain ⟨b', hb', hdelivers⟩ := unpacked_spec w
          (Frame.size_decode p.codec s frame b.storage) (Nat.le_of_eq hcap.symm)
        rw [hb']
        refine ⟨fun _ => ⟨_, b', hunpack, ?_, hdelivers⟩, Or.inr (by rw [hunpack]; rfl)⟩
        show (w.carry hs' b').1 = _
        unfold Work.carry
        dsimp only
        rw [hdelivers.length]

theorem decompress_spec (hc : p.codec.Pure) (k s : κ) :
    Unpacked p k w w.buffer.bytes (decompress p hs s w) := by
  have h := unpack_spec hs { w with buffer := .none } hc k s w.buffer.bytes
  exact ⟨h.full, h.served⟩

theorem processCompression_write_spec (hs : Heaps) (hc : p.codec.Pure) (k s : κ)
    (hop : w.op = .write) : Packed p k w (processCompression p hs s w) := by
  unfold processCompression
  rw [hop]
  exact compress_spec hc k s

theorem processCompression_read_spec (hs : Heaps) (hc : p.codec.Pure) (k s : κ)
    (hop : w.op = .read) : Unpacked p k w w.buffer.bytes (processCompression p hs s w) := by
  unfold processCompression
  rw [hop]
  exact decompress_spec hc k s

end Stage

end FilePipeline
