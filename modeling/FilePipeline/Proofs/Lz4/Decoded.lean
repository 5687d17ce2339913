import FilePipeline.Lz4.Bound
import FilePipeline.Proofs.Lz4.Written

/-! # What the decoder accepts

`Decodes input out` says that a block decodes to `out` when nothing limits its output. A limit only
makes the decoder refuse longer output (`decode_iff`), and no block stands for more than 255 times its
own length (`size_le_of_decodes`). Both follow the decoder from sequence to sequence, by what it takes
to read a length, a run of literals and a match. -/

namespace FilePipeline.Lz4

variable {cap cap' bits : Nat} {out out' : Array UInt8} {input rest : List UInt8}

/-! ### What was read -/

theorem readLiterals_ok (h : readLiterals cap bits out input = .ok (out', rest)) :
    ∃ length tail, readLength bits input = .ok (length, tail) ∧ length ≤ tail.length ∧
      out.size + length ≤ cap ∧ out' = out ++ tail.take length ∧ rest = tail.drop length := by
  unfold readLiterals at h
  split at h
  · cases h
  · next length tail hl =>
    dsimp only at h
    split at h
    · cases h
    · next hlen =>
      rw [List.length_take] at hlen
      split at h
      · cases h
      · next hroom =>
        cases h
        exact ⟨length, tail, hl, by omega, by omega, rfl, rfl⟩

theorem readLiterals_of_length {length : Nat} {tail : List UInt8}
    (hl : readLength bits input = .ok (length, tail)) (hlen : length ≤ tail.length)
    (hroom : out.size + length ≤ cap) :
    readLiterals cap bits out input = .ok (out ++ tail.take length, tail.drop length) := by
  unfold readLiterals
  rw [hl]
  dsimp only
  rw [List.length_take, if_neg (by omega), if_neg (by omega)]

theorem readMatch_ok (h : readMatch cap bits out input = .ok (out', rest)) :
    ∃ lo hi tail extra, input = lo :: hi :: tail ∧ LittleEndian.decode [lo, hi] ≠ 0 ∧
      readLength bits tail = .ok (extra, rest) ∧ out.size + (minMatch + extra) ≤ cap ∧
      LittleEndian.decode [lo, hi] ≤ out.size ∧
      out' = copyBack out (LittleEndian.decode [lo, hi]) (minMatch + extra) := by
  unfold readMatch at h
  split at h
  · next lo hi tail =>
    dsimp only at h
    split at h
    · cases h
    · next hne =>
      split at h
      · cases h
      · next extra rest' hl =>
        split at h
        · cases h
        · next hroom =>
          split at h
          · cases h
          · next hdist =>
            cases h
            exact ⟨lo, hi, tail, extra, rfl, hne, hl, by omega, by omega, rfl⟩
  · cases h

theorem readMatch_of_length {lo hi : UInt8} {tail : List UInt8} {extra : Nat}
    (hne : LittleEndian.decode [lo, hi] ≠ 0) (hl : readLength bits tail = .ok (extra, rest))
    (hroom : out.size + (minMatch + extra) ≤ cap)
    (hdist : LittleEndian.decode [lo, hi] ≤ out.size) :
    readMatch cap bits out (lo :: hi :: tail) =
      .ok (copyBack out (LittleEndian.decode [lo, hi]) (minMatch + extra), rest) := by
  unfold readMatch
  dsimp only
  rw [if_neg hne, hl]
  dsimp only
  rw [if_neg (by omega), if_neg (by omega)]

/-- How decoding goes on after a token: with the literals, and then with a match unless the input
    ends there. -/
theorem decodeFrom_cons (cap : Nat) (out : Array UInt8) (token : UInt8) (input : List UInt8) :
    decodeFrom cap out (token :: input) =
      match readLiterals cap (token.toNat / 16) out input with
      | .error f => .error f
      | .ok (out, rest) =>
        if rest.isEmpty then .ok out
        else
          match readMatch cap (token.toNat % 16) out rest with
          | .error f => .error f
          | .ok (out, rest) => decodeFrom cap out rest := by
  conv => lhs; unfold decodeFrom
  split
  · next hl => rw [hl]
  · next hl =>
    rw [hl]
    dsimp only
    split
    · rfl
    · split
      · next hm => rw [hm]
      · next hm => rw [hm]

/-- A rest of a block that is decoded is a run of literals up to the end, or literals, a match and
    another such rest. -/
theorem decodeFrom_ok (h : decodeFrom cap out input = .ok out') :
    ∃ token tail lits rest, input = token :: tail ∧
      readLiterals cap (token.toNat / 16) out tail = .ok (lits, rest) ∧
      (rest = [] ∧ out' = lits ∨
        rest ≠ [] ∧ ∃ copied rest',
          readMatch cap (token.toNat % 16) lits rest = .ok (copied, rest') ∧
            decodeFrom cap copied rest' = .ok out') := by
  cases input with
  | nil =>
    unfold decodeFrom at h
    cases h
  | cons token tail =>
    rw [decodeFrom_cons] at h
    split at h
    · cases h
    · next lits rest hl =>
      refine ⟨token, tail, lits, rest, rfl, hl, ?_⟩
      split at h
      · next he => exact Or.inl ⟨List.isEmpty_iff.mp he, (Except.ok.inj h).symm⟩
      · next he =>
        split at h
        · cases h
        · next copied rest' hm =>
          exact Or.inr ⟨fun hn => he (List.isEmpty_iff.mpr hn), copied, rest', hm, h⟩

/-- Induction over the sequences of a rest of a block that is decoded to `result`. -/
theorem decodeFrom_induction {result : Array UInt8} {P : Array UInt8 → List UInt8 → Prop}
    (last : ∀ out token tail, readLiterals cap (token.toNat / 16) out tail = .ok (result, []) →
      P out (token :: tail))
    (sequence : ∀ out token tail lits rest copied rest',
      readLiterals cap (token.toNat / 16) out tail = .ok (lits, rest) → rest ≠ [] →
      readMatch cap (token.toNat % 16) lits rest = .ok (copied, rest') →
      decodeFrom cap copied rest' = .ok result → P copied rest' → P out (token :: tail))
    (h : decodeFrom cap out input = .ok result) : P out input := by
  induction hn : input.length using Nat.strongRecOn generalizing out input with
  | ind n ih =>
    obtain ⟨token, tail, lits, rest, rfl, hl, ⟨rfl, rfl⟩ | ⟨hne, copied, rest', hm, hr⟩⟩ :=
      decodeFrom_ok h
    · exact last out token tail hl
    · have h1 := length_of_readLiterals hl
      have h2 := length_of_readMatch hm
      rw [List.length_cons] at hn
      dsimp only at h1 h2
      exact sequence out token tail lits rest copied rest' hl hne hm hr (ih _ (by omega) hr rfl)

/-! ### The output grows -/

theorem size_of_readLiterals (h : readLiterals cap bits out input = .ok (out', rest)) :
    out.size ≤ out'.size ∧ out'.size ≤ cap := by
  obtain ⟨length, tail, -, hlen, hroom, rfl, -⟩ := readLiterals_ok h
  rw [size_append_literals, List.length_take]
  omega

theorem size_of_readMatch (h : readMatch cap bits out input = .ok (out', rest)) :
    out.size + minMatch ≤ out'.size ∧ out'.size ≤ cap := by
  obtain ⟨lo, hi, tail, extra, -, -, -, hroom, -, rfl⟩ := readMatch_ok h
  rw [size_copyBack]
  omega

theorem size_of_decodeFrom (h : decodeFrom cap out input = .ok out') :
    out.size ≤ out'.size ∧ out'.size ≤ cap := by
  refine decodeFrom_induction (P := fun out _ => out.size ≤ out'.size ∧ out'.size ≤ cap) ?_ ?_ h
  · intro out token tail hl
    exact size_of_readLiterals hl
  · intro out token tail lits rest copied rest' hl _ hm _ ih
    have h1 := size_of_readLiterals hl
    have h2 := size_of_readMatch hm
    omega

/-! ### The limit -/

theorem readLiterals_room (h : readLiterals cap bits out input = .ok (out', rest))
    (hroom : out'.size ≤ cap') : readLiterals cap' bits out input = .ok (out', rest) := by
  obtain ⟨length, tail, hl, hlen, -, rfl, rfl⟩ := readLiterals_ok h
  rw [size_append_literals, List.length_take, Nat.min_eq_left hlen] at hroom
  exact readLiterals_of_length hl hlen hroom

theorem readMatch_room (h : readMatch cap bits out input = .ok (out', rest))
    (hroom : out'.size ≤ cap') : readMatch cap' bits out input = .ok (out', rest) := by
  obtain ⟨lo, hi, tail, extra, rfl, hne, hl, -, hdist, rfl⟩ := readMatch_ok h
  rw [size_copyBack] at hroom
  exact readMatch_of_length hne hl hroom hdist

theorem decodeFrom_room (h : decodeFrom cap out input = .ok out') (hroom : out'.size ≤ cap') :
    decodeFrom cap' out input = .ok out' := by
  refine decodeFrom_induction (P := fun out input => decodeFrom cap' out input = .ok out') ?_ ?_ h
  · intro out token tail hl
    rw [decodeFrom_cons, readLiterals_room hl hroom]
    rfl
  · intro out token tail lits rest copied rest' hl hne hm hr ih
    have h2 := size_of_readMatch hm
    have h3 := size_of_decodeFrom hr
    rw [decodeFrom_cons, readLiterals_room hl (by omega)]
    dsimp only
    rw [if_neg (fun he => hne (List.isEmpty_iff.mp he)), readMatch_room hm (by omega)]
    exact ih

/-- A block decodes to `out` when nothing limits its output: however much room there is from some
    point on. -/
def Decodes (input : List UInt8) (out : Array UInt8) : Prop :=
  ∃ room, ∀ cap, room ≤ cap → decode cap input = .ok out

theorem decodes_of_decode (h : decode cap input = .ok out) : Decodes input out :=
  ⟨out.size, fun _ hroom => decodeFrom_room h hroom⟩

/-- With a limit a block is decoded to what it is decoded to without, if the limit leaves room for
    that. -/
theorem decode_iff : decode cap input = .ok out ↔ Decodes input out ∧ out.size ≤ cap := by
  constructor
  · intro h
    exact ⟨decodes_of_decode h, (size_of_decodeFrom h).2⟩
  · rintro ⟨⟨room, h⟩, hroom⟩
    exact decodeFrom_room (h room (Nat.le_refl room)) hroom

theorem Decodes.unique (h : Decodes input out) (h' : Decodes input out') : out = out' := by
  obtain ⟨room, h⟩ := h
  obtain ⟨room', h'⟩ := h'
  have h1 := h (max room room') (Nat.le_max_left _ _)
  have h2 := h' (max room room') (Nat.le_max_right _ _)
  exact Except.ok.inj (h1.symm.trans h2)

/-! ### How much a block can stand for

A byte of the input is worth 255 bytes of output, and decoding never puts out more than the bytes that
it has read are worth: the token pays for the 15 literals, and the distance for the 19 bytes of a match,
that its four bits can announce. -/

theorem worth_of_readExtension {n : Nat} {p : Nat × List UInt8}
    (h : readExtension n input = .ok p) : p.1 + 255 * p.2.length ≤ n + 255 * input.length := by
  fun_induction readExtension n input with
  | case1 => cases h
  | case2 => cases h
  | case3 n rest _ ih =>
    have := ih h
    have hb : (255 : UInt8).toNat = 255 := rfl
    rw [List.length_cons]
    omega
  | case4 n b rest _ hb =>
    cases h
    have := b.toNat_lt
    dsimp only
    rw [List.length_cons]
    omega

theorem worth_of_readLength {p : Nat × List UInt8} (hbits : bits < 16)
    (h : readLength bits input = .ok p) :
    p.1 + 255 * p.2.length ≤ 15 + 255 * input.length := by
  unfold readLength at h
  split at h
  · split at h
    · cases h
    · next hr =>
      cases h
      have := worth_of_readExtension hr
      dsimp only at this ⊢
      omega
  · cases h
    dsimp only
    omega

theorem worth_of_readLiterals (hbits : bits < 16)
    (h : readLiterals cap bits out input = .ok (out', rest)) :
    out'.size + 255 * rest.length ≤ out.size + 15 + 255 * input.length := by
  obtain ⟨length, tail, hl, hlen, -, rfl, rfl⟩ := readLiterals_ok h
  have := worth_of_readLength hbits hl
  rw [size_append_literals, List.length_take, List.length_drop]
  dsimp only at this
  omega

theorem worth_of_readMatch (hbits : bits < 16)
    (h : readMatch cap bits out input = .ok (out', rest)) :
    out'.size + 255 * rest.length ≤ out.size + 255 * input.length := by
  obtain ⟨lo, hi, tail, extra, rfl, -, hl, -, -, rfl⟩ := readMatch_ok h
  have := worth_of_readLength hbits hl
  rw [size_copyBack, List.length_cons, List.length_cons]
  unfold minMatch
  dsimp only at this
  omega

theorem size_le_of_decodeFrom (h : decodeFrom cap out input = .ok out') :
    out'.size ≤ out.size + 255 * input.length := by
  have hbits (token : UInt8) : token.toNat / 16 < 16 := by
    have := token.toNat_lt
    omega
  refine decodeFrom_induction
    (P := fun out input => out'.size ≤ out.size + 255 * input.length) ?_ ?_ h
  · intro out token tail hl
    have := worth_of_readLiterals (hbits token) hl
    rw [List.length_cons]
    omega
  · intro out token tail lits rest copied rest' hl _ hm _ ih
    have := worth_of_readLiterals (hbits token) hl
    have := worth_of_readMatch (Nat.mod_lt _ (by omega)) hm
    rw [List.length_cons]
    omega

theorem size_le_of_decodes (h : Decodes input out) : out.size ≤ maxRatio * input.length := by
  obtain ⟨room, h⟩ := h
  have := size_le_of_decodeFrom (h room (Nat.le_refl room))
  rwa [Array.size_empty, Nat.zero_add] at this

end FilePipeline.Lz4
