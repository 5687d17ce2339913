import FilePipeline.Proofs.Heap.Records

/-! # Memory that is served

The heap that is always there serves every request for a block that fits into the address space. So a
buffer of a sensible size can be had from it at any time (`Serves.newBuffer`), whatever buffers were
had and dropped before (`Serves.of_newBuffer`, `Serves.dropBuffer`). -/

namespace FilePipeline.Heaps

/-- The machine's memory serves requests. -/
def Serves (hs : Heaps) : Prop :=
  ∃ name source history holders, hs.get? systemHeap =
    some ⟨name, .source (Source.system source) history, holders⟩

theorem serves_initial : Serves .initial := ⟨_, _, _, _, rfl⟩

variable {hs hs' : Heaps}

/-! ### What it goes through -/

/-- A change of a heap after which the one that is always there is still a system heap. -/
theorem Serves.modify (h : Serves hs) (id : HeapId) {f : Heap → Heap}
    (hf : ∀ heap, hs.get? id = some heap → ∀ source history,
      heap.kind = .source (Source.system source) history →
        ∃ source' history', (f heap).kind = .source (Source.system source') history') :
    Serves (hs.modify id f) := by
  obtain ⟨name, source, history, holders, hg⟩ := h
  by_cases hid : id = systemHeap
  · subst hid
    obtain ⟨source', history', hkind⟩ := hf _ hg source history rfl
    refine ⟨(f ⟨name, .source (Source.system source) history, holders⟩).name, source', history',
      (f ⟨name, .source (Source.system source) history, holders⟩).holders, ?_⟩
    unfold get? Heaps.modify at *
    rw [List.getElem?_modify_eq, hg, ← hkind]
    rfl
  · refine ⟨name, source, history, holders, ?_⟩
    unfold get? Heaps.modify at *
    rw [← hg]
    exact List.getElem?_modify_ne _ _ hid

theorem Serves.modifyBooks (h : Serves hs) (id : HeapId) (f : Bool → Books → Books) :
    Serves (hs.modifyBooks id f) := by
  refine h.modify id fun heap _ source history hkind => ⟨source, history, ?_⟩
  obtain ⟨name, kind, holders⟩ := heap
  cases hkind
  rfl

theorem Serves.recordAll (h : Serves hs) (ts : List HeapId) (address : Nat) (l : Layout) :
    Serves (hs.recordAll ts address l) :=
  recordAll_preserves (fun _ t f h => h.modifyBooks t f) ts address l h

theorem Serves.unrecordAll {r : Heaps × List Notice} (h : Serves r.1) (ts : List HeapId)
    (address : Nat) : Serves (Heaps.unrecordAll r ts address).1 :=
  unrecordAll_preserves (fun _ t f h => h.modifyBooks t f) ts address h

theorem Serves.serve (h : Serves hs) {id : HeapId} {l : Layout} {zeroed : Bool}
    {r : Except AllocError Block} (hr : hs.serve id l zeroed = (r, hs')) : Serves hs' := by
  unfold Heaps.serve at hr
  split at hr
  · next name s history holders hg =>
    have note : ∀ served (next : Nat), Serves (({ hs with nextAddress := next } : Heaps).modify id
        fun h => { h with kind := .source s (⟨l, served⟩ :: history) }) := by
      intro served next
      have h' : Serves { hs with nextAddress := next } := h
      refine h'.modify id fun heap hheap source history' hkind => ?_
      obtain rfl : _ = heap := Option.some.inj (hg.symm.trans hheap)
      cases hkind
      exact ⟨_, _, rfl⟩
    dsimp only at hr
    split at hr <;> cases hr <;> exact note _ _
  · cases hr
    exact h

theorem Serves.of_newBuffer (h : Serves hs) {id : HeapId} {n align : Nat}
    {r : Except AllocError Buffer} (hr : hs.newBuffer id n align = (r, hs')) : Serves hs' := by
  unfold Heaps.newBuffer Heaps.allocate at hr
  dsimp only at hr
  split at hr
  · generalize hserve : hs.serve (hs.layers id).2 (Buffer.layoutOf n align) true = x at hr
    obtain ⟨r', hs₁⟩ := x
    cases r' with
    | error e =>
      cases hr
      exact h.serve hserve
    | ok block =>
      cases hr
      exact (Serves.recordAll (h.serve hserve) _ _ _).modify id
        fun heap _ source history hkind => ⟨source, history, hkind⟩
  · cases hr
    exact h

theorem Serves.release (h : Serves hs) (id : HeapId) : Serves (hs.release id).1 := by
  induction id using Nat.strongRecOn generalizing hs with
  | ind id ih =>
    unfold Heaps.release
    split
    · exact h
    · next heap hg =>
      have hfirst : Serves (hs.modify id fun h => { h with holders := h.holders - 1 }) :=
        h.modify id fun heap _ source history hkind => ⟨source, history, hkind⟩
      dsimp only
      split
      · split
        · exact hfirst
        · next inner hi => exact ih inner (inner?_lt hi) hfirst
      · exact hfirst

theorem Serves.dropBuffer (h : Serves hs) (b : Buffer) : Serves (hs.dropBuffer b).1 := by
  have hfree : Serves (hs.free b.heap b.address).1 := Serves.unrecordAll (r := (hs, [])) h _ _
  exact hfree.release b.heap

/-! ### What it serves -/

theorem Serves.layers (h : Serves hs) : hs.layers systemHeap = ([], systemHeap) := by
  obtain ⟨name, source, history, holders, hg⟩ := h
  have hi : hs.inner? systemHeap = none := by
    unfold Heaps.inner?
    rw [hg]
  unfold Heaps.layers
  split
  · rfl
  · next hn => rw [hi] at hn; cases hn

theorem Serves.served (h : Serves hs) {l : Layout} (hl : Source.servable l = true) (zeroed : Bool) :
    ∃ b hs', hs.serve systemHeap l zeroed = (.ok b, hs') := by
  obtain ⟨name, source, history, holders, hg⟩ := h
  have hd : (Source.system source).decide history l = .ok () := if_pos hl
  unfold Heaps.serve
  rw [hg]
  dsimp only
  rw [hd]
  exact ⟨_, _, rfl⟩

theorem Serves.allocate (h : Serves hs) {l : Layout} (hl : Source.servable l = true)
    (zeroed : Bool) : ∃ b hs', hs.allocate systemHeap l zeroed = (.ok b, hs') := by
  obtain ⟨b, hs', hserve⟩ := h.served hl zeroed
  unfold Heaps.allocate
  rw [h.layers]
  dsimp only
  rw [hserve]
  exact ⟨_, _, rfl⟩

theorem Serves.newBuffer (h : Serves hs) {n : Nat}
    (hv : (Buffer.layoutOf n defaultAlignment).isValid = true)
    (hl : Source.servable (Buffer.layoutOf n defaultAlignment) = true) :
    ∃ b hs', hs.newBuffer systemHeap n defaultAlignment = (.ok b, hs') ∧ b.storage.size = n ∧
      Serves hs' := by
  have hnew : ∃ b hs', hs.newBuffer systemHeap n defaultAlignment = (.ok b, hs') ∧
      b.storage.size = n := by
    obtain ⟨block, hs', ha⟩ := h.allocate hl true
    unfold Heaps.newBuffer
    rw [if_pos hv, ha]
    exact ⟨_, _, rfl, rfl⟩
  obtain ⟨b, hs', hnew, hsize⟩ := hnew
  exact ⟨b, hs', hnew, hsize, h.of_newBuffer hnew⟩

end FilePipeline.Heaps
