import FilePipeline.Proofs.Codec.Pure
import FilePipeline.Proofs.Frame.RoundTrip
import FilePipeline.Proofs.Lz4.Overflow

/-! # Tame codecs

A codec is tame if it crashes on no payload of a length it can be asked for, stays within the room
that it is given for a frame, and crashes only on certain blocks (`Codec.Tame`). The LZ4 codec is,
with the blocks in which a length does not fit (`Codec.tame_lz4`). Framing then never crashes
(`Frame.encode_tame`), and unframing exactly where the codec does (`Frame.crashed_decode_iff`). -/

namespace FilePipeline

@[simp] theorem Attempt.crashed_mapError {ε δ α : Type} (f : ε → δ) (r : Attempt ε α) :
    (Attempt.mapError f r).crashed = r.crashed := by
  rcases r with (e | c) | a <;> rfl

theorem Attempt.crashed_renamed {ε δ α β : Type} {r : Attempt ε α} {f : Fault ε}
    (hr : r = .error f) (g : ε → δ) :
    Attempt.crashed (Attempt.mapError g (.error f) : Attempt δ β) = r.crashed :=
  (crashed_mapError g _).trans (crashed_error hr).symm

/-- The lengths that do not overflow when room for a block is asked for. -/
def Modest (n : Nat) : Prop := n * 110 < Nat.pow 2 64

theorem Modest.le_max {n : Nat} (h : Modest n) : n ≤ Size.max := by
  have h : n * 110 < 18446744073709551616 := h
  show n ≤ 18446744073709551615
  omega

namespace Codec

/-- A codec that crashes only when it is given one of the blocks `frail` to decompress. -/
structure Tame {κ : Type} (c : Codec κ) (frail : List UInt8 → Prop) : Prop where
  bound : ∀ k n, Modest n → ∃ m, c.bound k n = .ok m ∧ m + Frame.headerSize ≤ Size.max
  expansion : ∀ k n, ∃ m, c.expansion k n = .ok m
  compress : ∀ k src dst, Modest src.length → (c.compress k src dst).answer.crashed = false ∧
    ∀ n, (c.compress k src dst).answer = .ok n → n ≤ dst.size
  decompress : ∀ k src dst, (c.decompress k src dst).answer.crashed = true → frail src

/-- The codecs that a pipeline may have: LZ4, or any that does not crash itself. -/
inductive Admitted : {κ : Type} → Codec κ → (List UInt8 → Prop) → Prop
  | lz4 : Admitted Codec.lz4 Lz4.LongRun
  | other {κ : Type} {c : Codec κ} (h : c.Tame fun _ => False) : Admitted c fun _ => False

theorem bound_of_modest {n : Nat} (h : Modest n) :
    Lz4.encodedBound n = .ok (20 + n * 110 / 100) := by
  have h : n * 110 < 18446744073709551616 := h
  unfold Lz4.encodedBound
  rw [Size.mul_of_le (show n * 110 ≤ 18446744073709551615 by omega)]
  rfl

theorem crashed_lz4Decompress (src : List UInt8) (dst : Span) :
    (lz4Decompress src dst).answer.crashed = (Lz4.decode dst.size src).crashed := by
  unfold lz4Decompress
  cases hd : Lz4.decode dst.size src with
  | ok out => rfl
  | error f => exact Attempt.crashed_renamed rfl _

theorem tame_lz4 : Codec.lz4.Tame Lz4.LongRun where
  bound := by
    intro k n hn
    refine ⟨_, bound_of_modest hn, ?_⟩
    have hn : n * 110 < 18446744073709551616 := hn
    show 20 + n * 110 / 100 + 4 ≤ 18446744073709551615
    omega
  expansion _ n := ⟨Lz4.decodedBound n, rfl⟩
  compress := by
    intro k src dst hn
    show (lz4Compress src dst).answer.crashed = false ∧
      ∀ n, (lz4Compress src dst).answer = .ok n → n ≤ dst.size
    unfold lz4Compress
    rw [bound_of_modest hn]
    dsimp only
    split
    · exact ⟨rfl, fun n h => by cases h⟩
    · next hroom =>
      refine ⟨rfl, fun n h => ?_⟩
      obtain rfl : (Lz4.blockOf src.toArray).encode.toArray.size = n := Except.ok.inj h
      have hlen := Frame.length_block_le src
      rw [List.size_toArray]
      omega
  decompress := by
    intro k src dst h
    exact Lz4.longRun_of_decode ((crashed_lz4Decompress src dst).symm.trans h)

theorem Admitted.tame {κ : Type} {c : Codec κ} {frail : List UInt8 → Prop} (h : c.Admitted frail) :
    c.Tame frail := by
  cases h with
  | lz4 => exact tame_lz4
  | other h => exact h

end Codec

namespace Frame

variable {κ : Type} {c : Codec κ} {frail : List UInt8 → Prop} {k : κ} {src frame : List UInt8}
  {dst : Span}

theorem bound_tame (hc : c.Tame frail) (k : κ) {n : Nat} (hn : Modest n) :
    ∃ room, bound c k n = .ok room := by
  obtain ⟨m, hm, hle⟩ := hc.bound k n hn
  unfold bound
  rw [hm]
  dsimp only
  rw [Size.add_of_le (by omega)]
  exact ⟨_, rfl⟩

theorem examine_tame (hc : c.Tame frail) (k : κ) (frame : List UInt8) :
    (examine c k frame).crashed = false := by
  obtain ⟨m, hm⟩ := hc.expansion k (frame.length - headerSize)
  unfold examine
  rw [hm]
  cases readHeader frame <;> exact Attempt.crashed_ofExcept _

/-- Framing does not crash, and keeps to the room that it is given. -/
theorem encode_tame (hc : c.Tame frail) (k : κ) (hn : Modest src.length)
    (hmax : dst.size ≤ Size.max) : (encode c k src dst).answer.crashed = false ∧
      ∀ n, (encode c k src dst).answer = .ok n → n ≤ dst.size := by
  unfold encode writeHeader
  split
  · exact ⟨rfl, fun n h => by cases h⟩
  · next headed hw =>
    split at hw
    · cases hw
    · split at hw
      · cases hw
      · next hroom =>
        cases hw
        obtain ⟨hcalm, hle⟩ := hc.compress k src
          ((dst.overlay 0 (header src.length)).drop headerSize) hn
        rw [Span.size_drop, Span.size_overlay] at hle
        dsimp only
        generalize c.compress k src ((dst.overlay 0 (header src.length)).drop headerSize) = r
          at hcalm hle
        obtain ⟨(e | c) | n, written, k'⟩ := r
        · exact ⟨rfl, fun n h => by cases h⟩
        · cases hcalm
        · have hn := hle n rfl
          dsimp only
          rw [Size.add_of_le (by omega)]
          refine ⟨rfl, fun m h => ?_⟩
          obtain rfl : headerSize + n = m := Except.ok.inj h
          omega

theorem crashed_decode_iff {n : Nat} (h : examine c k frame = .ok n) (hd : n ≤ dst.size) :
    (decode c k frame dst).answer.crashed = true ↔
      (c.decompress k (frame.drop headerSize) (dst.take n)).answer.crashed = true := by
  unfold decode
  rw [h]
  dsimp only
  rw [if_neg (Nat.not_lt.mpr hd)]
  dsimp only
  cases (c.decompress k (frame.drop headerSize) (dst.take n)).answer with
  | ok m =>
    dsimp only
    split <;> exact Iff.rfl
  | error f => exact Iff.rfl

end Frame

end FilePipeline
