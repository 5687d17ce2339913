import FilePipeline.Proofs.Lz4.Decoded

/-! # Blocks that are cut short

A block has no end mark: decoding stops where the input ends after a run of literals, so a block that is
cut off right there still decodes. But what was cut off is a match at least, and so less comes out
(`decode_torn`). Anywhere else the cut is noticed.

Each step of the decoder is told by what it does on `input ++ cut` when it is given `input` only: it
fails, or it reads the same and leaves less behind. -/

namespace FilePipeline.Lz4

variable {cap bits : Nat} {out out' : Array UInt8} {input rest cut : List UInt8}

/-- What a step that has read `a` and left `rest` does when `cut` is missing from the end of its input:
    it fails or does the same. -/
def SameOrFails {α : Type} (r : Attempt DecodeError (α × List UInt8)) (a : α)
    (rest cut : List UInt8) : Prop :=
  (∃ e, r = Attempt.fail e) ∨ ∃ rest', r = .ok (a, rest') ∧ rest = rest' ++ cut

theorem readExtension_torn {n m : Nat} (h : readExtension n (input ++ cut) = .ok (m, rest)) :
    SameOrFails (readExtension n input) m rest cut := by
  induction input generalizing n with
  | nil => exact Or.inl ⟨_, rfl⟩
  | cons b input ih =>
    rw [List.cons_append] at h
    unfold readExtension at h ⊢
    split at h
    · cases h
    · next hmax =>
      rw [if_neg hmax]
      split at h
      · next hb =>
        rw [if_pos hb]
        exact ih h
      · next hb =>
        rw [if_neg hb]
        cases h
        exact Or.inr ⟨input, rfl, rfl⟩

theorem readLength_torn {n : Nat} (h : readLength bits (input ++ cut) = .ok (n, rest)) :
    SameOrFails (readLength bits input) n rest cut := by
  unfold readLength at h ⊢
  split at h
  · next hb =>
    rw [if_pos hb]
    split at h
    · cases h
    · next extension rest' hr =>
      cases h
      rcases readExtension_torn hr with ⟨e, he⟩ | ⟨rest', hr', rfl⟩
      · rw [he]
        exact Or.inl ⟨e, rfl⟩
      · rw [hr']
        exact Or.inr ⟨rest', rfl, rfl⟩
  · next hb =>
    rw [if_neg hb]
    cases h
    exact Or.inr ⟨input, rfl, rfl⟩

theorem readLiterals_torn (h : readLiterals cap bits out (input ++ cut) = .ok (out', rest)) :
    SameOrFails (readLiterals cap bits out input) out' rest cut := by
  obtain ⟨length, tail, hl, -, hroom, rfl, rfl⟩ := readLiterals_ok h
  rcases readLength_torn hl with ⟨e, he⟩ | ⟨tail, hl', rfl⟩
  · refine Or.inl ⟨e, ?_⟩
    unfold readLiterals
    rw [he]
    rfl
  · by_cases hlen : length ≤ tail.length
    · rw [readLiterals_of_length hl' hlen hroom, List.take_append_of_le_length hlen,
        List.drop_append_of_le_length hlen]
      exact Or.inr ⟨_, rfl, rfl⟩
    · refine Or.inl ⟨.literalsPastInput, ?_⟩
      unfold readLiterals
      rw [hl']
      dsimp only
      rw [List.length_take, if_pos (by omega)]

theorem readMatch_torn (h : readMatch cap bits out (input ++ cut) = .ok (out', rest)) :
    SameOrFails (readMatch cap bits out input) out' rest cut := by
  obtain ⟨lo, hi, tail, extra, he, hne, hl, hroom, hdist, rfl⟩ := readMatch_ok h
  match input, he with
  | [], _ => exact Or.inl ⟨_, rfl⟩
  | [b], _ => exact Or.inl ⟨_, rfl⟩
  | lo :: hi :: input, he =>
    rw [List.cons_append, List.cons_append] at he
    cases he
    rcases readLength_torn hl with ⟨e, he⟩ | ⟨rest', hl', rfl⟩
    · refine Or.inl ⟨e, ?_⟩
      unfold readMatch
      dsimp only
      rw [if_neg hne, he]
      rfl
    · exact Or.inr ⟨rest', readMatch_of_length hne hl' hroom hdist, rfl⟩

/-- The rest of a block that is cut short is not decoded, or to less. -/
theorem decodeFrom_torn (hcut : cut ≠ []) (h : decodeFrom cap out (input ++ cut) = .ok out') :
    (∃ e, decodeFrom cap out input = Attempt.fail e) ∨
      ∃ less, decodeFrom cap out input = .ok less ∧ less.size < out'.size := by
  refine decodeFrom_induction (P := fun out whole => ∀ input, whole = input ++ cut →
    (∃ e, decodeFrom cap out input = Attempt.fail e) ∨
      ∃ less, decodeFrom cap out input = .ok less ∧ less.size < out'.size) ?_ ?_ h input rfl
  · intro out token tail hl input he
    cases input with
    | nil => exact Or.inl ⟨.inputEnded, by unfold decodeFrom; rfl⟩
    | cons b input =>
      cases he
      rcases readLiterals_torn hl with ⟨e, he⟩ | ⟨rest', -, hr⟩
      · refine Or.inl ⟨e, ?_⟩
        rw [decodeFrom_cons, he]
        rfl
      · -- nothing is left behind the literals at the end, so the cut goes into them
        exact absurd (List.append_eq_nil_iff.mp hr.symm).2 hcut
  · intro out token tail lits rest copied rest' hl hne hm hr ih input he
    cases input with
    | nil => exact Or.inl ⟨.inputEnded, by unfold decodeFrom; rfl⟩
    | cons b input =>
      cases he
      rw [decodeFrom_cons]
      rcases readLiterals_torn hl with ⟨e, he⟩ | ⟨left, hl', rfl⟩
      · rw [he]
        exact Or.inl ⟨e, rfl⟩
      · rw [hl']
        dsimp only
        by_cases hend : left = []
        · -- cut between the literals and the match
          subst hend
          have h1 := size_of_readMatch hm
          have h2 := size_of_decodeFrom hr
          unfold minMatch at h1
          exact Or.inr ⟨lits, rfl, by omega⟩
        · rw [if_neg (fun he => hend (List.isEmpty_iff.mp he))]
          rcases readMatch_torn hm with ⟨e, he⟩ | ⟨left', hm', rfl⟩
          · rw [he]
            exact Or.inl ⟨e, rfl⟩
          · rw [hm']
            exact ih left' rfl

theorem decode_torn (hcut : cut ≠ []) (h : decode cap (input ++ cut) = .ok out) :
    (∃ e, decode cap input = Attempt.fail e) ∨
      ∃ less, decode cap input = .ok less ∧ less.size < out.size :=
  decodeFrom_torn hcut h

end FilePipeline.Lz4
