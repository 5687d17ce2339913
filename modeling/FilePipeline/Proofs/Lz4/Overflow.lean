import FilePipeline.Proofs.Lz4.Decoded

/-! # Lengths that do not fit

The bytes that continue a length are summed up in 32 bits, and the decoder goes down where the sum
does not fit. That is so exactly where `longestRun` bytes 255 are followed by another byte than zero
(`crashed_readLength_iff`), and nothing else brings the decoder down: a block whose decoding crashes
has such a run in it (`longRun_of_decode`). -/

namespace FilePipeline

theorem Attempt.crashed_error {ε α β : Type} {r : Attempt ε α} {f : Fault ε} (hr : r = .error f) :
    r.crashed = Attempt.crashed (.error f : Attempt ε β) := by
  rw [hr]
  cases f <;> rfl

namespace Lz4

variable {cap bits : Nat} {out : Array UInt8} {input rest : List UInt8}

/-- How many bytes 255 there can be in a length. -/
def longestRun : Nat := 16843009

/-- The bytes begin with so many bytes 255, and one more that is not zero. -/
def Overflows (input : List UInt8) : Prop :=
  ∃ b rest, b ≠ 0 ∧ input = List.replicate longestRun 255 ++ b :: rest

/-- There are so many bytes 255 and one more that is not zero somewhere. -/
def LongRun (input : List UInt8) : Prop := ∃ tail, tail <:+ input ∧ Overflows tail

theorem LongRun.of_suffix (h : LongRun rest) (hs : rest <:+ input) : LongRun input := by
  obtain ⟨tail, ht, ho⟩ := h
  exact ⟨tail, ht.trans hs, ho⟩

/-- The 32 bits are just enough for a run of that length. -/
theorem maxExtension_eq : maxExtension = 255 * longestRun := by decide

/-! ### Single lengths -/

/-- A sum overflows at the first byte with which it does not fit, which stands behind bytes 255. -/
theorem crashed_readExtension_iff {n : Nat} (hn : n ≤ maxExtension) :
    (readExtension n input).crashed = true ↔ ∃ k b rest, input = List.replicate k 255 ++ b :: rest ∧
      n + 255 * k ≤ maxExtension ∧ maxExtension < n + 255 * k + b.toNat := by
  have hfull : (255 : UInt8).toNat = 255 := rfl
  constructor
  · intro h
    induction input generalizing n with
    | nil => cases h
    | cons b input ih =>
      unfold readExtension at h
      split at h
      · next hmax => exact ⟨0, b, input, rfl, hn, hmax⟩
      · next hmax =>
        split at h
        · next hb =>
          subst hb
          obtain ⟨k, b, rest, rfl, hk, hlt⟩ := ih (Nat.le_of_not_lt hmax) h
          exact ⟨k + 1, b, rest, rfl, by omega, by omega⟩
        · cases h
  · rintro ⟨k, b, rest, rfl, hk, hlt⟩
    induction k generalizing n with
    | zero =>
      show (readExtension n (b :: rest)).crashed = true
      unfold readExtension
      rw [if_pos (by omega)]
      rfl
    | succ k ih =>
      rw [List.replicate_succ, List.cons_append]
      unfold readExtension
      rw [if_neg (by omega), if_pos rfl]
      exact ih (by omega) (by omega) (by omega)

theorem crashed_readLength_full :
    (readLength 15 input).crashed = (readExtension 0 input).crashed := by
  unfold readLength
  rw [if_pos rfl]
  rcases readExtension 0 input with (e | c) | p <;> rfl

theorem crashed_readLength_iff :
    (readLength bits input).crashed = true ↔ bits = 15 ∧ Overflows input := by
  have hmax := maxExtension_eq
  by_cases hb : bits = 15
  · subst hb
    rw [crashed_readLength_full, crashed_readExtension_iff (Nat.zero_le _)]
    constructor
    · rintro ⟨k, b, rest, rfl, hk, hlt⟩
      have hb' := b.toNat_lt
      obtain rfl : k = longestRun := by omega
      refine ⟨rfl, b, rest, ?_, rfl⟩
      rintro rfl
      have : (0 : UInt8).toNat = 0 := rfl
      omega
    · rintro ⟨-, b, rest, hne, rfl⟩
      have hpos : b.toNat ≠ 0 := fun h => hne (UInt8.toNat_inj.mp h)
      exact ⟨longestRun, b, rest, rfl, by omega, by omega⟩
  · unfold readLength
    rw [if_neg hb]
    exact ⟨(fun h => by cases h), fun h => absurd h.1 hb⟩

/-! ### What is left of the input -/

theorem suffix_of_readExtension {n m : Nat} (h : readExtension n input = .ok (m, rest)) :
    rest <:+ input := by
  induction input generalizing n with
  | nil => cases h
  | cons b input ih =>
    unfold readExtension at h
    split at h
    · cases h
    · split at h
      · exact (ih h).trans (List.suffix_cons _ _)
      · cases h
        exact List.suffix_cons _ _

theorem suffix_of_readLength {n : Nat} (h : readLength bits input = .ok (n, rest)) :
    rest <:+ input := by
  unfold readLength at h
  split at h
  · split at h
    · cases h
    · next hr =>
      cases h
      exact suffix_of_readExtension hr
  · cases h
    exact List.suffix_refl _

theorem suffix_behind_literals {lits : Array UInt8}
    (h : readLiterals cap bits out input = .ok (lits, rest)) (token : UInt8) :
    rest <:+ token :: input := by
  obtain ⟨length, tail, hl, -, -, -, rfl⟩ := readLiterals_ok h
  exact ((List.drop_suffix _ _).trans (suffix_of_readLength hl)).trans (List.suffix_cons _ _)

theorem suffix_of_readMatch {copied : Array UInt8}
    (h : readMatch cap bits out input = .ok (copied, rest)) : rest <:+ input := by
  obtain ⟨lo, hi, tail, extra, rfl, -, hl, -⟩ := readMatch_ok h
  exact (suffix_of_readLength hl).trans
    ((List.suffix_cons hi tail).trans (List.suffix_cons lo _))

/-! ### Blocks -/

theorem crashed_readLiterals :
    (readLiterals cap bits out input).crashed = (readLength bits input).crashed := by
  unfold readLiterals
  rcases readLength bits input with (e | c) | ⟨length, rest⟩
  · rfl
  · rfl
  · dsimp only
    split
    · rfl
    · split <;> rfl

theorem longRun_of_readMatch (h : (readMatch cap bits out input).crashed = true) :
    LongRun input := by
  unfold readMatch at h
  split at h
  · next lo hi tail =>
    have hs : tail <:+ lo :: hi :: tail :=
      (List.suffix_cons hi tail).trans (List.suffix_cons lo _)
    dsimp only at h
    split at h
    · cases h
    · split at h
      · next f hf =>
        have hover := crashed_readLength_iff.mp ((Attempt.crashed_error hf).trans h)
        exact LongRun.of_suffix ⟨tail, List.suffix_refl _, hover.2⟩ hs
      · split at h
        · cases h
        · split at h <;> cases h
  · cases h

theorem longRun_of_decodeFrom (h : (decodeFrom cap out input).crashed = true) :
    LongRun input := by
  fun_induction decodeFrom cap out input with
  | case1 => cases h
  | case2 out token input f hl =>
    have hc := (Attempt.crashed_error hl).trans h
    rw [crashed_readLiterals] at hc
    have hover := crashed_readLength_iff.mp hc
    exact LongRun.of_suffix ⟨input, List.suffix_refl _, hover.2⟩ (List.suffix_cons _ _)
  | case3 => cases h
  | case4 out token input lits rest hl hne f hm =>
    have hrun := longRun_of_readMatch ((Attempt.crashed_error hm).trans h)
    exact hrun.of_suffix (suffix_behind_literals hl token)
  | case5 out token input lits rest hl hne copied rest' hm ih =>
    exact ((ih h).of_suffix (suffix_of_readMatch hm)).of_suffix (suffix_behind_literals hl token)

theorem longRun_of_decode (h : (decode cap input).crashed = true) : LongRun input :=
  longRun_of_decodeFrom h

theorem crashed_decode {token : UInt8} (ht : token.toNat / 16 = 15) (h : Overflows input) :
    (decode cap (token :: input)).crashed = true := by
  have hl : (readLiterals cap (token.toNat / 16) #[] input).crashed = true := by
    rw [crashed_readLiterals]
    exact crashed_readLength_iff.mpr ⟨ht, h⟩
  unfold decode
  rw [decodeFrom_cons]
  cases hr : readLiterals cap (token.toNat / 16) #[] input with
  | ok q =>
    rw [hr] at hl
    cases hl
  | error f =>
    rw [hr] at hl
    exact (Attempt.crashed_error rfl).trans hl

end Lz4

end FilePipeline
