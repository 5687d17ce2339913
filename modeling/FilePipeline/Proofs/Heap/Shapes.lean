import FilePipeline.Proofs.Heap.Buffers
import FilePipeline.Proofs.Heap.Records

/-! # What requests leave of heaps

The shape of heaps is what is left of them without all that they remember: the names, the sources, and
which heap is inside which. No buffer that is allocated or dropped changes it (`shape_newBuffer`,
`shape_dropBuffer`). Heaps are steady if their sources decide on a request by its layout alone; then two
heaps of one shape refuse the same requests with the same errors, and serve the others with buffers
that nobody can tell apart by their contents (`newBuffer_like`). -/

namespace FilePipeline

/-! ### Buffers with the same contents -/

namespace Buffer

/-- Two buffers of one capacity and one length with the same contents. -/
structure Like (b b' : Buffer) : Prop where
  storage : b.storage.Agrees b'.storage
  length : b.length = b'.length

namespace Like

variable {b b' : Buffer}

theorem bytes (h : b.Like b') : b.bytes = b'.bytes := by
  unfold Buffer.bytes
  rw [← h.length]
  exact (h.storage.take _).toList

theorem terminated? (h : b.Like b') : b.terminated? = b'.terminated? := by
  unfold Buffer.terminated? Buffer.capacity
  rw [← h.length, ← h.storage.size, (h.storage.take _).toList]

theorem write (h : b.Like b') {t t' : Span} (ht : t.Agrees t') (hsize : t.size = b.storage.size) :
    (b.write t.byte).Like (b'.write t'.byte) :=
  ⟨⟨h.storage.size, fun i hi => ht.byte i (hsize ▸ hi)⟩, h.length⟩

theorem terminate (h : b.Like b') : b.terminate.2.Like b'.terminate.2 := by
  unfold Buffer.terminate Buffer.capacity
  rw [← h.length, ← h.storage.size]
  split
  · exact ⟨h.storage.set _ _, h.length⟩
  · exact h

theorem terminateIf (h : b.Like b') (terminated : Bool) :
    (if terminated then b.terminate.2 else b).Like (if terminated then b'.terminate.2 else b') := by
  cases terminated
  · exact h
  · exact h.terminate

theorem setLength (h : b.Like b') (n : Nat) :
    (∃ c, b.setLength n = .error c ∧ b'.setLength n = .error c) ∨
      ∃ a a', b.setLength n = .ok a ∧ b'.setLength n = .ok a' ∧ a.Like a' := by
  unfold Buffer.setLength Buffer.capacity
  rw [← h.storage.size]
  by_cases hn : n ≤ b.storage.size
  · rw [if_pos hn, if_pos hn]
    exact Or.inr ⟨_, _, rfl, rfl, h.storage, rfl⟩
  · rw [if_neg hn, if_neg hn]
    exact Or.inl ⟨_, rfl, rfl⟩

end Like

end Buffer

/-! ### The shape -/

/-- A heap without what it remembers: its name, and its source or the heap inside. -/
def Heap.form (h : Heap) : String × (Source ⊕ HeapId) :=
  match h.kind with
  | .source s _ => (h.name, .inl s)
  | .tracking inner _ _ => (h.name, .inr inner)

/-- A source that decides on a request by its layout, whatever was requested before. -/
def Source.Steady (s : Source) : Prop :=
  ∀ history history' l, s.decide history l = s.decide history' l

namespace Heaps

/-- Heaps without what they remember. -/
def shape (hs : Heaps) : List (String × (Source ⊕ HeapId)) := hs.heaps.map Heap.form

/-- All sources are steady. -/
def Steady (hs : Heaps) : Prop := ∀ f ∈ hs.shape, ∀ s, f.2 = .inl s → s.Steady

variable {hs hs' : Heaps} {id : HeapId}

theorem getElem?_shape (hs : Heaps) (id : HeapId) : hs.shape[id]? = (hs.get? id).map Heap.form :=
  List.getElem?_map

theorem shape_modify {f : Heap → Heap} (h : ∀ x, hs.get? id = some x → (f x).form = x.form) :
    (hs.modify id f).shape = hs.shape := by
  refine List.ext_getElem? fun t => ?_
  rw [getElem?_shape, getElem?_shape, get?_modify]
  cases ht : hs.get? t with
  | none => rfl
  | some x =>
    simp only [Option.map_some]
    split
    · next he => rw [h x (he ▸ ht)]
    · rfl

theorem shape_retain (hs : Heaps) (id : HeapId) : (hs.retain id).shape = hs.shape :=
  shape_modify fun _ _ => rfl

theorem shape_release (hs : Heaps) (id : HeapId) : (hs.release id).1.shape = hs.shape := by
  induction id using Nat.strongRecOn generalizing hs with
  | ind id ih =>
    unfold release
    split
    · rfl
    · have hfirst : (hs.modify id fun h => { h with holders := h.holders - 1 }).shape = hs.shape :=
        shape_modify fun _ _ => rfl
      dsimp only
      split
      · split
        · exact hfirst
        · next inner hi => exact (ih inner (inner?_lt hi) _).trans hfirst
      · exact hfirst

theorem shape_serve (hs : Heaps) (id : HeapId) (l : Layout) (zeroed : Bool) :
    (hs.serve id l zeroed).2.shape = hs.shape := by
  unfold serve
  split
  · next name s history holders hg =>
    have note : ∀ served (next : Nat), (({ hs with nextAddress := next } : Heaps).modify id
        fun h => { h with kind := .source s (⟨l, served⟩ :: history) }).shape = hs.shape := by
      intro served next
      have hnext : ({ hs with nextAddress := next } : Heaps).shape = hs.shape := rfl
      rw [← hnext]
      refine shape_modify fun x hx => ?_
      obtain rfl : _ = x := Option.some.inj (hg.symm.trans hx)
      rfl
    dsimp only
    split
    · exact note false _
    · exact note true _
  · rfl

theorem shape_modifyBooks (hs : Heaps) (id : HeapId) (f : Bool → Books → Books) :
    (hs.modifyBooks id f).shape = hs.shape := by
  refine shape_modify fun x _ => ?_
  obtain ⟨name, kind, holders⟩ := x
  cases kind <;> rfl

theorem shape_recordAll (hs : Heaps) (ts : List HeapId) (address : Nat) (l : Layout) :
    (hs.recordAll ts address l).shape = hs.shape :=
  recordAll_preserves (P := fun hs' => hs'.shape = hs.shape)
    (fun _ t f h => (shape_modifyBooks _ t f).trans h) ts address l rfl

theorem shape_free (hs : Heaps) (id : HeapId) (address : Nat) :
    (hs.free id address).1.shape = hs.shape :=
  unrecordAll_preserves (P := fun hs' => hs'.shape = hs.shape) (r := (hs, []))
    (fun _ t f h => (shape_modifyBooks _ t f).trans h) (hs.trackers id) address rfl

theorem shape_newBuffer (hs : Heaps) (id : HeapId) (n align : Nat) :
    (hs.newBuffer id n align).2.shape = hs.shape := by
  unfold newBuffer allocate
  dsimp only
  split
  · have hserve := shape_serve hs (hs.layers id).2 (Buffer.layoutOf n align) true
    generalize hs.serve (hs.layers id).2 (Buffer.layoutOf n align) true = r at hserve ⊢
    obtain ⟨e | b, hs₁⟩ := r
    · exact hserve
    · exact ((shape_retain _ id).trans (shape_recordAll hs₁ _ _ _)).trans hserve
  · rfl

theorem shape_dropBuffer (hs : Heaps) (b : Buffer) : (hs.dropBuffer b).1.shape = hs.shape :=
  (shape_release _ _).trans (shape_free hs _ _)

/-! ### Requests to heaps of one shape -/

theorem inner?_of_shape (h : hs.shape = hs'.shape) (id : HeapId) : hs.inner? id = hs'.inner? id := by
  have form : ∀ hs : Heaps, ((hs.get? id).bind fun h => innerOf h.kind) =
      hs.shape[id]?.bind fun f => f.2.getRight? := by
    intro hs
    rw [getElem?_shape]
    cases hs.get? id with
    | none => rfl
    | some x =>
      obtain ⟨name, kind, holders⟩ := x
      cases kind <;> rfl
  rw [inner?_eq, inner?_eq, form, form, h]

theorem name_of_shape (h : hs.shape = hs'.shape) (id : HeapId) : hs.name id = hs'.name id := by
  have form : ∀ hs : Heaps, hs.name id = (hs.shape[id]?.map Prod.fst).getD Source.systemName := by
    intro hs
    unfold name
    rw [getElem?_shape]
    cases hs.get? id with
    | none => rfl
    | some x =>
      obtain ⟨name, kind, holders⟩ := x
      cases kind <;> rfl
  rw [form, form, h]

theorem get?_of_shape (h : hs.shape = hs'.shape) {name : String} {s : Source}
    {history : List Request} {holders : Nat} (hg : hs.get? id = some ⟨name, .source s history, holders⟩) :
    ∃ history' holders', hs'.get? id = some ⟨name, .source s history', holders'⟩ := by
  have hform : hs'.shape[id]? = some (name, .inl s) := by
    rw [← h, getElem?_shape, hg]
    rfl
  rw [getElem?_shape] at hform
  obtain ⟨⟨name', kind, holders'⟩, hg', he⟩ := Option.map_eq_some_iff.mp hform
  cases kind with
  | source s' history' =>
    obtain ⟨rfl, hs⟩ := Prod.mk.inj he
    obtain rfl := Sum.inl.inj hs
    exact ⟨history', holders', hg'⟩
  | tracking => cases (Prod.mk.inj he).2

theorem Steady.source (h : hs.Steady) {name : String} {s : Source} {history : List Request}
    {holders : Nat} (hg : hs.get? id = some ⟨name, .source s history, holders⟩) : s.Steady := by
  refine h (name, .inl s) (List.mem_of_getElem? (i := id) ?_) s rfl
  rw [getElem?_shape, hg]
  rfl

/-- Steady heaps of one shape serve the same requests. -/
theorem serve_like (h : hs.shape = hs'.shape) (hsteady : hs.Steady) (id : HeapId) (l : Layout)
    (zeroed : Bool) :
    (∃ e, (hs.serve id l zeroed).1 = .error e ∧ (hs'.serve id l zeroed).1 = .error e) ∨
      ∃ b b', (hs.serve id l zeroed).1 = .ok b ∧ (hs'.serve id l zeroed).1 = .ok b' := by
  unfold serve
  split
  · next name s history holders hg =>
    obtain ⟨history', holders', hg'⟩ := get?_of_shape h hg
    rw [hg']
    dsimp only
    rw [hsteady.source hg history' history]
    cases s.decide history l with
    | error e => exact Or.inl ⟨e, rfl, rfl⟩
    | ok => exact Or.inr ⟨_, _, rfl, rfl⟩
  · next hno =>
    split
    · next name s history holders hg' =>
      obtain ⟨history', holders', hg⟩ := get?_of_shape h.symm hg'
      exact absurd hg (hno _ _ _ _)
    · rw [name_of_shape h]
      exact Or.inl ⟨_, rfl, rfl⟩

/-- Steady heaps of one shape refuse a buffer with the same error, or allocate buffers with the same
    contents. -/
theorem newBuffer_like (h : hs.shape = hs'.shape) (hsteady : hs.Steady) (id : HeapId)
    (n align : Nat) :
    (∃ e, (hs.newBuffer id n align).1 = .error e ∧ (hs'.newBuffer id n align).1 = .error e) ∨
      ∃ b b', (hs.newBuffer id n align).1 = .ok b ∧ (hs'.newBuffer id n align).1 = .ok b' ∧
        b.Like b' := by
  -- both buffers are all zeros
  have zeros : ∀ {b b'}, (hs.newBuffer id n align).1 = .ok b →
      (hs'.newBuffer id n align).1 = .ok b' → b.storage.Agrees b'.storage := fun hb hb' =>
    (newBuffer_ok (Prod.ext hb rfl)).1.trans (newBuffer_ok (Prod.ext hb' rfl)).1.symm
  have hlayers : hs'.layers id = hs.layers id := layers_congr (inner?_of_shape h.symm) id
  have hserve := serve_like h hsteady (hs.layers id).2 (Buffer.layoutOf n align) true
  unfold newBuffer allocate at zeros ⊢
  dsimp only at zeros ⊢
  rw [hlayers] at zeros ⊢
  split
  · next hv =>
    simp only [if_pos hv] at zeros
    generalize hs.serve (hs.layers id).2 (Buffer.layoutOf n align) true = r at hserve zeros ⊢
    generalize hs'.serve (hs.layers id).2 (Buffer.layoutOf n align) true = r' at hserve zeros ⊢
    obtain ⟨a, hs₁⟩ := r
    obtain ⟨a', hs₁'⟩ := r'
    rcases hserve with ⟨e, rfl, rfl⟩ | ⟨b, b', rfl, rfl⟩
    · exact Or.inl ⟨e, rfl, rfl⟩
    · exact Or.inr ⟨_, _, rfl, rfl, zeros rfl rfl, rfl⟩
  · rw [name_of_shape h]
    exact Or.inl ⟨_, rfl, rfl⟩

end Heaps

end FilePipeline
