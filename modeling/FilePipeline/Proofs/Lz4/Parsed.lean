import FilePipeline.Lz4.Match
import FilePipeline.Proofs.Lz4.Written

/-! # The block of a payload stands for it

`Cuts src i ss j` says that the sequences `ss` are cut from the payload `src` between `i` and `j`: the
literals are the bytes there, and the bytes of a match repeat those a distance back (`Repeats`).
Sequences that are cut from a payload expand to it. That is all the encoder's scan has to keep; the
table of remembered positions, the hash and the growing steps do not matter, because a candidate is
compared before it is used. -/

namespace FilePipeline.Lz4

variable {src : Array UInt8}

/-! ### Repeated bytes -/

/-- The bytes from `i` up to `j` repeat those `distance` bytes back. -/
def Repeats (src : Array UInt8) (distance i j : Nat) : Prop :=
  ∀ k, i ≤ k → k < j → byteAt src k = byteAt src (k - distance)

theorem Repeats.append {distance i j k : Nat} (h : Repeats src distance i j)
    (h' : Repeats src distance j k) : Repeats src distance i k := by
  intro n hi hk
  rcases Nat.lt_or_ge n j with hn | hn
  · exact h n hi hn
  · exact h' n hn hk

theorem Repeats.nil {distance i : Nat} : Repeats src distance i i := by
  intro k hi hk
  omega

theorem Repeats.single {distance i : Nat} (h : byteAt src i = byteAt src (i - distance)) :
    Repeats src distance i (i + 1) := by
  intro k hi hk
  obtain rfl : k = i := by omega
  exact h

theorem Repeats.mono {distance i i' j : Nat} (h : Repeats src distance i j) (hi : i ≤ i') :
    Repeats src distance i' j := fun k hk => h k (Nat.le_trans hi hk)

/-- Copying back what is repeated extends a piece of the payload. -/
theorem copyBack_extract {distance n i : Nat} (hpos : 1 ≤ distance) (hle : distance ≤ i)
    (hsize : i + n ≤ src.size) (h : Repeats src distance i (i + n)) :
    copyBack (src.extract 0 i) distance n = src.extract 0 (i + n) := by
  induction n generalizing i with
  | zero => rfl
  | succ n ih =>
    have hi : i < src.size := by omega
    have hlen : (src.extract 0 i).size = i := by
      rw [Array.size_extract]
      omega
    have hb : (src.extract 0 i).getD (i - distance) 0 = src[i] := by
      have hk := h i (Nat.le_refl i) (by omega)
      unfold byteAt at hk
      rw [Array.getD_eq_getD_getElem?, Array.getElem?_eq_getElem hi] at hk
      rw [Array.getD_eq_getD_getElem?, Array.getElem?_extract, if_pos (by omega), Nat.zero_add,
        ← Array.getD_eq_getD_getElem?, ← hk]
      rfl
    have hstep : (src.extract 0 i).push src[i] = src.extract 0 (i + 1) := by
      rw [Array.push_extract_getElem hi]
      rw [Nat.min_eq_left (Nat.zero_le i)]
    unfold copyBack
    rw [hlen, hb, hstep, ih (by omega) (by omega) (by
      rw [Nat.add_right_comm]; exact h.mono (Nat.le_succ i)), Nat.add_right_comm]
    rfl

/-! ### Sequences cut from a payload -/

/-- A sequence that is cut from a payload at `i`. -/
structure Cut (src : Array UInt8) (i : Nat) (s : Sequence) : Prop where
  fits : s.Fits i
  bound : i + s.covered ≤ src.size
  literals : s.literals = piece src i (i + s.literals.length)
  repeated : Repeats src s.distance (i + s.literals.length) (i + s.covered)

/-- Sequences cut from a payload, one after the other. -/
inductive Cuts (src : Array UInt8) : Nat → List Sequence → Nat → Prop
  | nil (i : Nat) : Cuts src i [] i
  | cons {i j : Nat} {s : Sequence} {ss : List Sequence} (hs : Cut src i s)
      (h : Cuts src (i + s.covered) ss j) : Cuts src i (s :: ss) j

theorem Cuts.snoc {i j : Nat} {s : Sequence} {ss : List Sequence} (h : Cuts src i ss j)
    (hs : Cut src j s) : Cuts src i (ss ++ [s]) (j + s.covered) := by
  induction h with
  | nil i => exact .cons hs (.nil _)
  | cons hs' _ ih => exact .cons hs' (ih hs)

theorem extract_append_piece (src : Array UInt8) {i j : Nat} (h : i ≤ j) :
    src.extract 0 i ++ piece src i j = src.extract 0 j := by
  apply Array.ext'
  unfold piece
  rw [Array.toList_appendList, ← Array.toList_append, Array.extract_append_extract,
    Nat.min_eq_left (Nat.zero_le i), Nat.max_eq_right h]

theorem Cut.expand {i : Nat} {s : Sequence} (h : Cut src i s) :
    s.expand (src.extract 0 i) = src.extract 0 (i + s.covered) := by
  have hb := h.bound
  have hr := h.repeated
  unfold Sequence.covered at hb hr ⊢
  rw [← Nat.add_assoc] at hb hr ⊢
  have hl : src.extract 0 i ++ s.literals = src.extract 0 (i + s.literals.length) := by
    have he := extract_append_piece src (Nat.le_add_right i s.literals.length)
    rw [← h.literals] at he
    exact he
  unfold Sequence.expand
  rw [hl]
  exact copyBack_extract h.fits.distance_pos h.fits.source hb hr

theorem Cuts.expand {i j : Nat} {ss : List Sequence} (h : Cuts src i ss j) :
    ss.foldl Sequence.expand (src.extract 0 i) = src.extract 0 j := by
  induction h with
  | nil => rfl
  | cons hs _ ih => rw [List.foldl_cons, hs.expand, ih]

theorem Cuts.fits {i j : Nat} {ss : List Sequence} {last : List UInt8} (h : Cuts src i ss j)
    (hl : j + last.length ≤ src.size) : Fits src.size last i ss := by
  induction h with
  | nil => exact hl
  | cons hs _ ih => exact ⟨hs.fits, ih hl⟩

/-- A block that is cut from a payload. -/
def Parses (src : Array UInt8) (b : Block) : Prop :=
  ∃ j, j ≤ src.size ∧ Cuts src 0 b.sequences j ∧ b.last = piece src j src.size

theorem length_piece (src : Array UInt8) {i j : Nat} (hj : j ≤ src.size) :
    (piece src i j).length = j - i := by
  unfold piece
  rw [Array.length_toList, Array.size_extract, Nat.min_eq_left hj]

theorem Parses.expand {b : Block} (h : Parses src b) : b.expand = src := by
  obtain ⟨j, hj, hc, hl⟩ := h
  have he := hc.expand
  rw [Array.extract_zero] at he
  unfold Block.expand
  rw [hl]
  rw [he, extract_append_piece src hj, Array.extract_size]

theorem Parses.fits {b : Block} (h : Parses src b) :
    Lz4.Fits src.size b.last 0 b.sequences := by
  obtain ⟨j, hj, hc, hl⟩ := h
  refine hc.fits ?_
  rw [hl, length_piece src (Nat.le_refl _)]
  omega

/-! ### The scan -/

theorem isCandidate_spec {c cur : Nat} (h : isCandidate src c cur = true) :
    c < cur ∧ cur - c ≤ maxDistance ∧ Repeats src (cur - c) cur (cur + minMatch) := by
  unfold isCandidate at h
  simp only [Bool.and_eq_true, decide_eq_true_eq, beq_iff_eq] at h
  obtain ⟨⟨⟨⟨⟨hlt, hd⟩, h0⟩, h1⟩, h2⟩, h3⟩ := h
  refine ⟨hlt, hd, fun k hk hk' => ?_⟩
  unfold minMatch at hk'
  obtain rfl | rfl | rfl | rfl : k = cur ∨ k = cur + 1 ∨ k = cur + 2 ∨ k = cur + 3 := by omega
  · rw [Nat.sub_sub_self (Nat.le_of_lt hlt)]; exact h0.symm
  · rw [show cur + 1 - (cur - c) = c + 1 by omega]; exact h1.symm
  · rw [show cur + 2 - (cur - c) = c + 2 by omega]; exact h2.symm
  · rw [show cur + 3 - (cur - c) = c + 3 by omega]; exact h3.symm

theorem search_candidate {table : Table} {cur misses : Nat} {f : Found}
    (h : search src table cur misses = some f) : isCandidate src f.source f.cur = true := by
  fun_induction search src table cur misses with
  | case1 table cur misses hle slot c table' hc =>
    obtain rfl := Option.some.inj h
    exact hc
  | case2 table cur misses hle slot c table' hc ih => exact ih h
  | case3 => cases h

/-- Going backwards stays on this side of `start`, takes no more steps than there are bytes before the
    candidate, and passes repeated bytes only. -/
theorem backward_spec (src : Array UInt8) {start cur c : Nat} (hs : start ≤ cur) (hc : c ≤ cur) :
    start ≤ backward src start cur c ∧ backward src start cur c ≤ cur ∧
      cur ≤ backward src start cur c + c ∧
      Repeats src (cur - c) (backward src start cur c) cur := by
  fun_induction backward src start cur c with
  | case1 cur => exact ⟨hs, Nat.le_refl _, Nat.le_refl _, Repeats.nil⟩
  | case2 cur c h ih =>
    obtain ⟨hlt, hb⟩ := h
    obtain ⟨h1, h2, h3, h4⟩ := ih (by omega) (by omega)
    refine ⟨h1, by omega, by omega, ?_⟩
    have he : cur - 1 - c = cur - (c + 1) := by omega
    have hlast : Repeats src (cur - (c + 1)) (cur - 1) (cur - 1 + 1) := by
      apply Repeats.single
      rw [hb, show cur - 1 - (cur - (c + 1)) = c by omega]
    rw [Nat.sub_add_cancel (by omega)] at hlast
    rw [he] at h4
    exact h4.append hlast
  | case3 cur c h => exact ⟨hs, Nat.le_refl _, by omega, Repeats.nil⟩

theorem forward_spec {cur c : Nat} (hc : c ≤ cur) (hm : cur + endMargin ≤ src.size) :
    forward src cur c + endMargin ≤ src.size ∧
      Repeats src (cur - c) cur (forward src cur c) := by
  fun_induction forward src cur c with
  | case1 cur c h ih =>
    obtain ⟨hlt, hb⟩ := h
    obtain ⟨h1, h2⟩ := ih (by omega) (by omega)
    rw [Nat.add_sub_add_right] at h2
    refine ⟨h1, Repeats.append (.single ?_) h2⟩
    rw [hb, Nat.sub_sub_self hc]
  | case2 cur c h => exact ⟨hm, Repeats.nil⟩

/-- The sequence for a match that was found is cut from the payload. -/
theorem cut_sequenceAt {table : Table} {start cur misses : Nat} {f : Found} (hs : start ≤ cur)
    (h : search src table cur misses = some f) :
    Cut src start (sequenceAt src start f).1 ∧
      start + (sequenceAt src start f).1.covered = (sequenceAt src start f).2 := by
  obtain ⟨hcur, hend⟩ := search_bounds h
  obtain ⟨hlt, hdist, hrep⟩ := isCandidate_spec (search_candidate h)
  obtain ⟨hb1, hb2, hb3, hback⟩ :=
    backward_spec src (Nat.le_trans hs hcur) (Nat.le_of_lt hlt)
  have hmargin : f.cur + minMatch + endMargin ≤ src.size := by
    unfold startMargin at hend
    unfold minMatch endMargin
    omega
  obtain ⟨hf1, hforw⟩ := forward_spec (c := f.source + minMatch) (by omega) hmargin
  have hf2 := le_forward src (f.cur + minMatch) (f.source + minMatch)
  rw [Nat.add_sub_add_right] at hforw
  have hall := (hback.append hrep).append hforw
  -- what was found, with the two ends of the match named
  generalize hfirst : backward src start f.cur f.source = first at *
  generalize hstop : forward src (f.cur + minMatch) (f.source + minMatch) = stop at *
  have hseq : sequenceAt src start f =
      (⟨piece src start first, f.cur - f.source, stop - first⟩, stop) := by
    unfold sequenceAt
    rw [hfirst, hstop]
  have hlits : (piece src start first).length = first - start := length_piece src (by omega)
  have hcov : start + (⟨piece src start first, f.cur - f.source, stop - first⟩ :
      Sequence).covered = stop := by
    unfold Sequence.covered
    rw [hlits]
    show start + (first - start + (stop - first)) = stop
    omega
  have hmid : start + (first - start) = first := Nat.add_sub_cancel' hb1
  rw [hseq]
  refine ⟨⟨⟨?_, hdist, ?_, ?_⟩, ?_, ?_, ?_⟩, hcov⟩
  · show 1 ≤ f.cur - f.source
    omega
  · show f.cur - f.source ≤ start + (piece src start first).length
    rw [hlits]
    omega
  · show minMatch ≤ stop - first
    omega
  · rw [hcov]
    omega
  · show piece src start first = piece src start (start + (piece src start first).length)
    rw [hlits, hmid]
  · rw [hcov]
    show Repeats src _ (start + (piece src start first).length) stop
    rw [hlits, hmid]
    exact hall

theorem parses_blockFrom {table : Table} {start cur : Nat} {done : Array Sequence}
    (hs : start ≤ cur) (hb : start ≤ src.size) (h : Cuts src 0 done.toList start) :
    Parses src (blockFrom src table start cur done) := by
  fun_induction blockFrom src table start cur done with
  | case1 table start cur done hn => exact ⟨start, hb, h, rfl⟩
  | case2 table start cur done f hf next table' ih =>
    obtain ⟨hcut, hnext⟩ := cut_sequenceAt hs hf
    refine ih (Nat.le_refl _) ?_ ?_
    · exact hnext ▸ hcut.bound
    · rw [Array.toList_push, ← hnext]
      exact h.snoc hcut

theorem parses_blockOf (src : Array UInt8) : Parses src (blockOf src) := by
  unfold blockOf
  split
  · refine ⟨0, Nat.zero_le _, .nil 0, ?_⟩
    unfold piece
    rw [Array.extract_size]
  · exact parses_blockFrom (by omega) (Nat.zero_le _) (.nil 0)

/-- The block of a payload is decoded to the payload, given as much room as that takes. -/
theorem decode_blockOf {src : Array UInt8} (h : src.size ≤ maxExtension) :
    decode src.size (blockOf src).encode = .ok src := by
  rw [decode_encode h (parses_blockOf src).fits, (parses_blockOf src).expand]

theorem length_bounds_blockOf (src : Array UInt8) :
    10 * (blockOf src).encode.length ≤ 11 * src.size + 20 ∧
      src.size ≤ 255 * (blockOf src).encode.length := by
  have hb := Block.length_bounds (parses_blockOf src).fits
  rwa [(parses_blockOf src).expand] at hb

end FilePipeline.Lz4
