import FilePipeline.Memory.Span

/-! # What is in a span

`Span.Starts s bs` says that the span `s` starts with the bytes `bs`. It is how the contents of a span
are told while it is being filled: what is behind those bytes plays no part.

`Span.Agrees` says that two spans are the same to whoever looks at no more than their bytes. -/

namespace FilePipeline.Span

/-- The first bytes of a span are `bs`. -/
structure Starts (s : Span) (bs : List UInt8) : Prop where
  fits : bs.length ≤ s.size
  byte : ∀ i (h : i < bs.length), s.byte i = bs[i]

variable {s t : Span} {bs : List UInt8}

theorem toList_take (s : Span) (n : Nat) : (s.take n).toList = s.toList.take n := by
  unfold toList
  rw [← List.map_take, List.take_range]
  rfl

theorem toList_set (s : Span) (n : Nat) (b : UInt8) : (s.set n b).toList = s.toList.set n b := by
  apply List.ext_getElem?
  intro i
  rw [getElem?_toList, List.getElem?_set, getElem?_toList, size_set, length_toList]
  show (if i < s.size then some (if i = n then b else s.byte i) else none) = _
  by_cases hi : n = i
  · subst hi
    simp
  · rw [if_neg hi, if_neg (Ne.symm hi)]

theorem starts_nil (s : Span) : s.Starts [] :=
  ⟨Nat.zero_le _, fun _ h => absurd h (Nat.not_lt_zero _)⟩

theorem byte_ofList {bs : List UInt8} {i : Nat} (h : i < bs.length) :
    (ofList bs).byte i = bs[i] := by
  unfold ofList ofArray
  dsimp only
  rw [Array.getD_eq_getD_getElem?, List.getElem?_toArray, List.getElem?_eq_getElem h]
  rfl

theorem starts_ofList (bs : List UInt8) : (ofList bs).Starts bs :=
  ⟨Nat.le_of_eq (size_ofList bs).symm, fun _ h => byte_ofList h⟩

theorem Starts.toList_take (h : s.Starts bs) {n : Nat} (hn : n = bs.length) :
    (s.take n).toList = bs := by
  subst hn
  refine List.ext_getElem ?_ fun i hi hb => ?_
  · rw [length_toList, size_take, Nat.min_eq_left h.fits]
  · rw [← h.byte i hb]
    have hg := getElem?_toList (s.take bs.length) i
    rw [List.getElem?_eq_getElem hi, if_pos (by rwa [length_toList] at hi)] at hg
    exact Option.some.inj hg

theorem starts_toList_take {n : Nat} (h : n ≤ s.size) : s.Starts (s.take n).toList := by
  have hlen : (s.take n).toList.length = n := by
    rw [length_toList, size_take, Nat.min_eq_left h]
  refine ⟨by rw [hlen]; exact h, fun i hi => ?_⟩
  have hg := getElem?_toList (s.take n) i
  rw [List.getElem?_eq_getElem hi, if_pos (by rwa [length_toList] at hi)] at hg
  exact (Option.some.inj hg).symm

theorem Starts.congr (h : s.Starts bs) (hf : bs.length ≤ t.size)
    (hb : ∀ i < bs.length, t.byte i = s.byte i) : t.Starts bs :=
  ⟨hf, fun i hi => (hb i hi).trans (h.byte i hi)⟩

theorem Starts.append {cs : List UInt8} (h : s.Starts bs) (ht : t.Starts cs)
    (hs : bs.length + t.size ≤ s.size) : (s.overlay bs.length t).Starts (bs ++ cs) := by
  have hfits := ht.fits
  refine ⟨?_, fun i hi => ?_⟩
  · rw [List.length_append, size_overlay]
    omega
  · rw [List.length_append] at hi
    show (if bs.length ≤ i ∧ i < bs.length + t.size then t.byte (i - bs.length) else s.byte i) = _
    by_cases hb : i < bs.length
    · rw [if_neg (by omega), List.getElem_append_left hb, h.byte i hb]
    · rw [if_pos (by omega), List.getElem_append_right (by omega), ht.byte _ (by omega)]

theorem Starts.overlay (h : s.Starts bs) {k : Nat} (hk : bs.length ≤ k) (t : Span) :
    (s.overlay k t).Starts bs :=
  h.congr h.fits fun i hi => if_neg (by omega)

theorem Starts.front {cs : List UInt8} (ht : t.Starts cs) (hs : t.size ≤ s.size) :
    (s.overlay 0 t).Starts cs :=
  (starts_nil s).append ht (by rwa [List.length_nil, Nat.zero_add])

/-! ### Spans with the same bytes -/

/-- Two spans of one size with the same bytes. -/
structure Agrees (s t : Span) : Prop where
  size : s.size = t.size
  byte : ∀ i < s.size, s.byte i = t.byte i

namespace Agrees

variable {s' t' : Span}

theorem refl (s : Span) : s.Agrees s := ⟨rfl, fun _ _ => rfl⟩

theorem symm (h : s.Agrees t) : t.Agrees s :=
  ⟨h.size.symm, fun i hi => (h.byte i (h.size ▸ hi)).symm⟩

theorem trans {u : Span} (h : s.Agrees t) (h' : t.Agrees u) : s.Agrees u :=
  ⟨h.size.trans h'.size, fun i hi => (h.byte i hi).trans (h'.byte i (h.size ▸ hi))⟩

theorem toList (h : s.Agrees t) : s.toList = t.toList := by
  refine List.ext_getElem? fun i => ?_
  rw [getElem?_toList, getElem?_toList, ← h.size]
  split
  · next hi => rw [h.byte i hi]
  · rfl

theorem starts_zeros {m n : Nat} (h : s.Agrees (zeros n)) (hm : m ≤ n) :
    s.Starts (List.replicate m 0) := by
  have hsize : s.size = n := h.size
  refine ⟨by rw [List.length_replicate]; omega, fun i hi => ?_⟩
  rw [List.length_replicate] at hi
  rw [List.getElem_replicate]
  exact h.byte i (by omega)

theorem take (h : s.Agrees t) (n : Nat) : (s.take n).Agrees (t.take n) := by
  refine ⟨by rw [size_take, size_take, h.size], fun i hi => h.byte i ?_⟩
  rw [size_take] at hi
  omega

theorem drop (h : s.Agrees t) (n : Nat) : (s.drop n).Agrees (t.drop n) := by
  refine ⟨by rw [size_drop, size_drop, h.size], fun i hi => h.byte (n + i) ?_⟩
  rw [size_drop] at hi
  omega

theorem overlay (h : s.Agrees t) (n : Nat) (h' : s'.Agrees t') :
    (s.overlay n s').Agrees (t.overlay n t') := by
  refine ⟨h.size, fun i hi => ?_⟩
  show (if n ≤ i ∧ i < n + s'.size then s'.byte (i - n) else s.byte i) =
    if n ≤ i ∧ i < n + t'.size then t'.byte (i - n) else t.byte i
  rw [← h'.size]
  split
  · exact h'.byte _ (by omega)
  · exact h.byte i hi

theorem overlay_front {n : Nat} {f g : Nat → UInt8} (h : s.Agrees t)
    (h' : (⟨(s.take n).size, f⟩ : Span).Agrees ⟨(t.take n).size, g⟩) :
    (s.overlay 0 ⟨n, f⟩).Agrees (t.overlay 0 ⟨n, g⟩) := by
  refine ⟨h.size, fun i hi => ?_⟩
  show (if 0 ≤ i ∧ i < 0 + n then f (i - 0) else s.byte i) =
    if 0 ≤ i ∧ i < 0 + n then g (i - 0) else t.byte i
  split
  · next hn =>
    refine h'.byte i ?_
    rw [size_overlay] at hi
    show i < min n s.size
    omega
  · exact h.byte i hi

theorem set (h : s.Agrees t) (n : Nat) (b : UInt8) : (s.set n b).Agrees (t.set n b) := by
  refine ⟨h.size, fun i hi => ?_⟩
  show (if i = n then b else s.byte i) = if i = n then b else t.byte i
  split
  · rfl
  · exact h.byte i hi

end Agrees

end FilePipeline.Span
