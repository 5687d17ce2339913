import FilePipeline.Proofs.Lz4.Lengths

/-! # Written blocks are decoded

`Fits cap size` says that what follows in a block can be decoded when `size` bytes of output are there
already: each match copies from bytes that exist, and there is room for everything. A block that fits
is decoded to what it stands for (`decode_encode`), and its written form is neither much longer than
that nor shorter than a 255th of it. -/

namespace FilePipeline.Lz4

/-- How many bytes a sequence appends. -/
def Sequence.covered (s : Sequence) : Nat := s.literals.length + s.length

/-- Whether a sequence can be decoded after `size` bytes of output. -/
structure Sequence.Fits (size : Nat) (s : Sequence) : Prop where
  distance_pos : 1 ≤ s.distance
  distance_le : s.distance ≤ maxDistance
  source : s.distance ≤ size + s.literals.length
  long : minMatch ≤ s.length

/-- Whether sequences and last literals can be decoded into `cap` bytes, after `size` bytes of
    output. -/
def Fits (cap : Nat) (last : List UInt8) : Nat → List Sequence → Prop
  | size, [] => size + last.length ≤ cap
  | size, s :: ss => s.Fits size ∧ Fits cap last (size + s.covered) ss

theorem Fits.size_le {cap size : Nat} {last : List UInt8} {ss : List Sequence}
    (h : Fits cap last size ss) : size ≤ cap := by
  induction ss generalizing size with
  | nil => exact Nat.le_trans (Nat.le_add_right _ _) h
  | cons s ss ih => exact Nat.le_trans (Nat.le_add_right _ _) (ih h.2)

/-! ### Expansion -/

theorem size_copyBack (out : Array UInt8) (distance n : Nat) :
    (copyBack out distance n).size = out.size + n := by
  induction n generalizing out with
  | zero => rfl
  | succ n ih =>
    unfold copyBack
    rw [ih, Array.size_push]
    omega

theorem size_append_literals (out : Array UInt8) (literals : List UInt8) :
    (out ++ literals).size = out.size + literals.length := by
  rw [← Array.length_toList, Array.toList_appendList, List.length_append, Array.length_toList]

theorem Sequence.size_expand (out : Array UInt8) (s : Sequence) :
    (s.expand out).size = out.size + s.covered := by
  unfold Sequence.expand covered
  rw [size_copyBack, size_append_literals, Nat.add_assoc]

/-! ### Decoding -/

section

variable {cap : Nat} (hcap : cap ≤ maxExtension)

include hcap

theorem readLiterals_written {out : Array UInt8} {literals : List UInt8}
    (hroom : out.size + literals.length ≤ cap) (rest : List UInt8) :
    readLiterals cap (nibble literals.length) out
      (overflow literals.length ++ (literals ++ rest)) = .ok (out ++ literals, rest) := by
  unfold readLiterals
  rw [readLength_overflow (by omega)]
  dsimp only
  rw [List.take_left, if_neg (Nat.lt_irrefl _), if_neg (by omega), List.drop_left]

theorem readMatch_written {out : Array UInt8} {distance length : Nat} (hpos : 1 ≤ distance)
    (hdist : distance ≤ maxDistance) (hsrc : distance ≤ out.size) (hlen : minMatch ≤ length)
    (hroom : out.size + length ≤ cap) (rest : List UInt8) :
    readMatch cap (nibble (length - minMatch)) out
      (LittleEndian.encode 2 distance ++ (overflow (length - minMatch) ++ rest)) =
      .ok (copyBack out distance length, rest) := by
  have hd : LittleEndian.decode (LittleEndian.encode 2 distance) = distance := by
    apply LittleEndian.decode_encode
    unfold maxDistance at hdist
    show distance < 65536
    omega
  have hm : minMatch + (length - minMatch) = length := Nat.add_sub_cancel' hlen
  obtain ⟨lo, hi, he⟩ : ∃ lo hi, LittleEndian.encode 2 distance = [lo, hi] := ⟨_, _, rfl⟩
  rw [he] at hd ⊢
  unfold readMatch
  dsimp only [List.cons_append, List.nil_append]
  rw [hd, if_neg (by omega), readLength_overflow (by omega)]
  dsimp only
  rw [hm, if_neg (by omega), if_neg (by omega)]

/-- A sequence is read back: its bytes are appended and the rest is decoded. -/
theorem decodeFrom_sequence {out : Array UInt8} {s : Sequence} (h : s.Fits out.size)
    (hroom : out.size + s.covered ≤ cap) (rest : List UInt8) :
    decodeFrom cap out (s.encode ++ rest) = decodeFrom cap (s.expand out) rest := by
  unfold Sequence.covered at hroom
  have hw : s.encode ++ rest = token s.literals.length (s.length - minMatch) ::
      (overflow s.literals.length ++ (s.literals ++ (LittleEndian.encode 2 s.distance ++
        (overflow (s.length - minMatch) ++ rest)))) := by
    unfold Sequence.encode token
    simp only [List.cons_append, List.append_assoc]
  have hsize := size_append_literals out s.literals
  have hne : (LittleEndian.encode 2 s.distance ++
      (overflow (s.length - minMatch) ++ rest)).isEmpty = false := rfl
  rw [hw]
  conv => lhs; unfold decodeFrom
  rw [high_token, low_token]
  split
  · next f hl => rw [readLiterals_written hcap (by omega)] at hl; cases hl
  · next out' rest' hl =>
    rw [readLiterals_written hcap (by omega)] at hl
    obtain ⟨rfl, rfl⟩ := Prod.mk.inj (Except.ok.inj hl)
    have hsource : s.distance ≤ (out ++ s.literals).size := by rw [hsize]; exact h.source
    have hm := readMatch_written hcap h.distance_pos h.distance_le hsource h.long (by omega) rest
    rw [hne, if_neg Bool.false_ne_true]
    split
    · next f hf => rw [hm] at hf; cases hf
    · next out' rest' hf =>
      rw [hm] at hf
      obtain ⟨rfl, rfl⟩ := Prod.mk.inj (Except.ok.inj hf)
      rfl

/-- The literals at the end are read back, and decoding ends with them. -/
theorem decodeFrom_last {out : Array UInt8} {last : List UInt8}
    (hroom : out.size + last.length ≤ cap) :
    decodeFrom cap out (encodeLast last) = .ok (out ++ last) := by
  have hw : encodeLast last =
      token last.length 0 :: (overflow last.length ++ (last ++ [])) := by
    unfold encodeLast token
    rw [List.append_nil]
    rfl
  rw [hw]
  unfold decodeFrom
  rw [high_token]
  split
  · next f hl => rw [readLiterals_written hcap hroom] at hl; cases hl
  · next out' rest hl =>
    rw [readLiterals_written hcap hroom] at hl
    obtain ⟨rfl, rfl⟩ := Prod.mk.inj (Except.ok.inj hl)
    rfl

theorem decodeFrom_written {out : Array UInt8} {ss : List Sequence} {last : List UInt8}
    (h : Fits cap last out.size ss) :
    decodeFrom cap out (ss.flatMap Sequence.encode ++ encodeLast last) =
      .ok (ss.foldl Sequence.expand out ++ last) := by
  induction ss generalizing out with
  | nil => exact decodeFrom_last hcap h
  | cons s ss ih =>
    have hroom := Fits.size_le h.2
    rw [List.flatMap_cons, List.append_assoc, decodeFrom_sequence hcap h.1 hroom,
      ih (by rw [Sequence.size_expand]; exact h.2)]
    rfl

theorem decode_encode {b : Block} (h : Fits cap b.last 0 b.sequences) :
    decode cap b.encode = .ok b.expand :=
  decodeFrom_written hcap h

end

/-! ### Length -/

theorem Sequence.length_encode (s : Sequence) :
    s.encode.length = 3 + (overflow s.literals.length).length + s.literals.length +
      (overflow (s.length - minMatch)).length := by
  unfold Sequence.encode
  simp only [List.length_cons, List.length_append, LittleEndian.length_encode]
  omega

theorem length_encodeLast (last : List UInt8) :
    (encodeLast last).length = 1 + (overflow last.length).length + last.length := by
  unfold encodeLast
  simp only [List.length_cons, List.length_append]
  omega

/-- A sequence is written in at most eleven tenths of the bytes it stands for, and stands for at most
    255 times the bytes it is written in. -/
theorem Sequence.length_bounds {s : Sequence} (h : minMatch ≤ s.length) :
    10 * s.encode.length ≤ 11 * s.covered ∧ s.covered ≤ 255 * s.encode.length := by
  rw [s.length_encode, length_overflow, length_overflow]
  unfold covered minMatch at *
  constructor <;> split <;> split <;> omega

theorem length_bounds_last (last : List UInt8) :
    10 * (encodeLast last).length ≤ 11 * last.length + 20 ∧
      last.length ≤ 255 * (encodeLast last).length := by
  rw [length_encodeLast, length_overflow]
  constructor <;> split <;> omega

theorem length_bounds_written {cap : Nat} {out : Array UInt8} {ss : List Sequence}
    {last : List UInt8} (h : Fits cap last out.size ss) :
    10 * (ss.flatMap Sequence.encode ++ encodeLast last).length + 11 * out.size ≤
        11 * (ss.foldl Sequence.expand out ++ last).size + 20 ∧
      (ss.foldl Sequence.expand out ++ last).size ≤
        out.size + 255 * (ss.flatMap Sequence.encode ++ encodeLast last).length := by
  induction ss generalizing out with
  | nil =>
    have := length_bounds_last last
    rw [List.foldl_nil, List.flatMap_nil, List.nil_append, size_append_literals]
    omega
  | cons s ss ih =>
    have hs := s.size_expand out
    have := Sequence.length_bounds h.1.long
    have hrest : Fits cap last (s.expand out).size ss := by rw [hs]; exact h.2
    have := ih hrest
    rw [List.foldl_cons, List.flatMap_cons, List.append_assoc, List.length_append]
    omega

/-- The written form of a block is at most a tenth and two bytes longer than what it stands for, and
    at least a 255th of it. -/
theorem Block.length_bounds {cap : Nat} {b : Block} (h : Fits cap b.last 0 b.sequences) :
    10 * b.encode.length ≤ 11 * b.expand.size + 20 ∧ b.expand.size ≤ 255 * b.encode.length := by
  have h' : Fits cap b.last (#[] : Array UInt8).size b.sequences := h
  have hb := length_bounds_written h'
  rw [Array.size_empty, Nat.zero_add] at hb
  exact hb

theorem Block.one_le_length_encode (b : Block) : 1 ≤ b.encode.length := by
  unfold encode encodeLast
  rw [List.length_append, List.length_cons]
  omega

end FilePipeline.Lz4
