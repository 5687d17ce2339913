import FilePipeline.Proofs.Memory.Prefix

/-! # Writing into parts of a span

Writing into a part of a span is writing into the span, and what was written can be read from there,
also when two pieces are written one behind the other. -/

namespace FilePipeline.Span

theorem overlay_drop_overlay {s u : Span} {k : Nat} (h : k + u.size ≤ s.size) :
    s.overlay k ((s.drop k).overlay 0 u) = s.overlay k u := by
  unfold overlay drop
  congr 1
  funext i
  dsimp only
  by_cases hi : k ≤ i ∧ i < k + u.size
  · rw [if_pos hi, if_pos (by omega), if_pos (by omega)]
    rfl
  · rw [if_neg hi]
    split
    · rw [if_neg (by omega), Nat.add_sub_cancel' (by omega)]
    · rfl

theorem overlay_take_overlay {s u : Span} {n : Nat} (h : u.size ≤ min n s.size) :
    s.overlay 0 ((s.take n).overlay 0 u) = s.overlay 0 u := by
  unfold overlay take
  congr 1
  funext i
  dsimp only
  by_cases hi : 0 ≤ i ∧ i < 0 + u.size
  · rw [if_pos hi, if_pos (by omega), if_pos (by omega)]
    rfl
  · rw [if_neg hi]
    split
    · rw [if_neg (by omega)]
      rfl
    · rfl

theorem overlay_congr {t t' : Span} (h : t.Agrees t') (s : Span) (k : Nat) :
    s.overlay k t = s.overlay k t' := by
  unfold overlay
  congr 1
  funext i
  rw [← h.size]
  split
  · next hi => exact h.byte _ (by omega)
  · rfl

theorem overlay_drop_self {s t : Span} {k : Nat} (h : t.Agrees (s.drop k)) : s.overlay k t = s := by
  obtain ⟨n, f⟩ := s
  unfold overlay
  congr 1
  funext i
  split
  · next hi =>
    rw [h.byte _ (by omega)]
    show f (k + (i - k)) = f i
    rw [Nat.add_sub_cancel' hi.1]
  · rfl

theorem overlay_append (s : Span) (k : Nat) (as bs : List UInt8) :
    (s.overlay k (ofList as)).overlay (k + as.length) (ofList bs) = s.overlay k (ofList (as ++ bs)) := by
  unfold overlay
  congr 1
  funext i
  dsimp only
  rw [size_ofList, size_ofList, size_ofList, List.length_append]
  by_cases hb : k + as.length ≤ i ∧ i < k + as.length + bs.length
  · rw [if_pos hb, if_pos (by omega), byte_ofList (by omega),
      byte_ofList (by rw [List.length_append]; omega), List.getElem_append_right (by omega)]
    congr 1
    omega
  · rw [if_neg hb]
    by_cases ha : k ≤ i ∧ i < k + as.length
    · rw [if_pos ha, if_pos (by omega), byte_ofList (by omega),
        byte_ofList (by rw [List.length_append]; omega), List.getElem_append_left (by omega)]
    · rw [if_neg ha, if_neg (by omega)]

theorem overlay_nil (s : Span) (k : Nat) : s.overlay k (ofList []) = s := by
  unfold overlay
  congr 1
  funext i
  rw [if_neg]
  rw [size_ofList, List.length_nil]
  omega

theorem toList_take_overlay_append {s : Span} (as bs : List UInt8)
    (h : as.length + bs.length ≤ s.size) :
    (((s.overlay 0 (ofList as)).overlay as.length (ofList bs)).take (as ++ bs).length).toList =
      as ++ bs := by
  apply List.ext_getElem?
  intro i
  rw [getElem?_toList, size_take, size_overlay, size_overlay, List.length_append,
    Nat.min_eq_left h]
  split
  · next hi =>
    show some (if as.length ≤ i ∧ i < as.length + (ofList bs).size
      then (ofList bs).byte (i - as.length)
      else if 0 ≤ i ∧ i < 0 + (ofList as).size then (ofList as).byte (i - 0) else s.byte i) = _
    rw [size_ofList, size_ofList]
    by_cases ha : i < as.length
    · rw [if_neg (by omega), if_pos (by omega), Nat.sub_zero, byte_ofList ha,
        List.getElem?_append_left ha, List.getElem?_eq_getElem ha]
    · have hb : i - as.length < bs.length := by omega
      rw [if_pos (by omega), byte_ofList hb, List.getElem?_append_right (by omega),
        List.getElem?_eq_getElem hb]
  · next hi =>
    rw [List.getElem?_eq_none]
    rw [List.length_append]
    omega

theorem toList_drop_overlay {s : Span} {bs : List UInt8} :
    ((s.overlay 0 (ofList bs)).drop bs.length).toList = (s.drop bs.length).toList := by
  apply List.ext_getElem?
  intro i
  rw [getElem?_toList, getElem?_toList]
  congr 2
  show (if 0 ≤ bs.length + i ∧ bs.length + i < 0 + (ofList bs).size then _ else _) = _
  rw [size_ofList, if_neg (by omega)]
  rfl

theorem toList_take_overlay {s : Span} {bs : List UInt8} (h : bs.length ≤ s.size) :
    ((s.overlay 0 (ofList bs)).take bs.length).toList = bs := by
  have ht := toList_take_overlay_append (s := s) bs [] (by simpa using h)
  rw [List.append_nil, overlay_nil] at ht
  exact ht

end FilePipeline.Span
