import FilePipeline.Heap.Buffer

/-! # What requests do to the books

The books of a tracking heap have an entry for each live block, with its address and its size. A request
passes the tracking heaps from its heap to the source (`trackers`, each of them once), and if it is
served, each of their books gets the entry (`rewrites_record`); giving the block back removes it from the
same books (`rewrites_unrecord`). Everything else that happens to heaps leaves all books as they are
(`Alike`). -/

namespace FilePipeline

/-- The address and the size of each live block. -/
def Books.entries (b : Books) : List (Nat × Nat) := b.live.map fun a => (a.address, a.size)

namespace Books

theorem entries_record (b : Books) (a : Allocation) :
    (b.record a).entries = (a.address, a.size) :: b.entries.filter (·.1 ≠ a.address) := by
  unfold record entries
  rw [List.map_cons, List.filter_map]
  rfl

theorem entries_remove (b : Books) (address : Nat) :
    (b.remove address).entries = b.entries.filter (·.1 ≠ address) := by
  unfold remove entries
  rw [List.filter_map]
  rfl

theorem count_eq (b : Books) : b.count = b.entries.length := by
  unfold count entries
  rw [List.length_map]

theorem bytes_eq_zero {b : Books} (h : b.entries = []) : b.bytes = 0 := by
  have hl : b.live = [] := List.map_eq_nil_iff.mp h
  unfold bytes
  rw [hl]
  rfl

theorem has_iff (b : Books) (address : Nat) :
    b.has address = true ↔ ∃ e ∈ b.entries, e.1 = address := by
  unfold has entries
  rw [List.any_eq_true]
  constructor
  · rintro ⟨a, ha, he⟩
    exact ⟨_, List.mem_map_of_mem ha, by simpa using he⟩
  · rintro ⟨_, he, rfl⟩
    obtain ⟨a, ha, rfl⟩ := List.mem_map.mp he
    exact ⟨a, ha, by simp⟩

end Books

namespace Heaps

/-! ### What heaps are like -/

/-- The heap inside, if the heap is a tracking heap. -/
def innerOf : HeapKind → Option HeapId
  | .tracking inner _ _ => some inner
  | .source .. => none

/-- The books, if the heap is a tracking heap. -/
def booksOf : HeapKind → Option Books
  | .tracking _ _ books => some books
  | .source .. => none

variable {hs hs' : Heaps} {id t : HeapId}

theorem inner?_eq (hs : Heaps) (id : HeapId) :
    hs.inner? id = ((hs.get? id).bind fun h => innerOf h.kind).filter (· < id) := by
  unfold inner?
  cases hs.get? id with
  | none => rfl
  | some h =>
    obtain ⟨name, kind, holders⟩ := h
    cases kind with
    | source => rfl
    | tracking inner callstacks books =>
      show (if inner < id then some inner else none) = (some inner).filter fun i => decide (i < id)
      rw [Option.filter_some]
      simp only [decide_eq_true_eq]

theorem books?_eq (hs : Heaps) (id : HeapId) :
    hs.books? id = (hs.get? id).bind fun h => booksOf h.kind := by
  unfold books?
  cases hs.get? id with
  | none => rfl
  | some h =>
    obtain ⟨name, kind, holders⟩ := h
    cases kind <;> rfl

theorem get?_modify (hs : Heaps) (id t : HeapId) (f : Heap → Heap) :
    (hs.modify id f).get? t = (hs.get? t).map fun h => if t = id then f h else h := by
  unfold get? modify
  rw [List.getElem?_modify]
  cases hs.heaps[t]? with
  | none => rfl
  | some h => by_cases he : id = t <;> simp [he, eq_comm]

/-- The tracking heaps that have a block of a heap in their books. -/
def trackers (hs : Heaps) (id : HeapId) : List HeapId := (hs.layers id).1

theorem layers_of_none (h : hs.inner? id = none) : hs.layers id = ([], id) := by
  unfold layers
  split
  · rfl
  · next hn => rw [h] at hn; cases hn

theorem layers_of_some {inner : HeapId} (h : hs.inner? id = some inner) :
    hs.layers id = (id :: (hs.layers inner).1, (hs.layers inner).2) := by
  conv => lhs; unfold layers
  split
  · next hn => rw [h] at hn; cases hn
  · next hn =>
    rw [h] at hn
    cases hn
    rfl

theorem layers_congr (h : ∀ t, hs'.inner? t = hs.inner? t) (id : HeapId) :
    hs'.layers id = hs.layers id := by
  induction id using Nat.strongRecOn with
  | ind id ih =>
    cases hi : hs.inner? id with
    | none => rw [layers_of_none hi, layers_of_none ((h id).trans hi)]
    | some inner =>
      rw [layers_of_some hi, layers_of_some ((h id).trans hi), ih inner (inner?_lt hi)]

theorem trackers_congr (h : ∀ t, hs'.inner? t = hs.inner? t) (id : HeapId) :
    hs'.trackers id = hs.trackers id := congrArg Prod.fst (layers_congr h id)

theorem trackers_cases (hs : Heaps) (id : HeapId) : hs.trackers id = [] ∨
    ∃ inner, hs.inner? id = some inner ∧ hs.trackers id = id :: hs.trackers inner := by
  unfold trackers
  cases hi : hs.inner? id with
  | none => exact Or.inl (congrArg Prod.fst (layers_of_none hi))
  | some inner => exact Or.inr ⟨inner, rfl, congrArg Prod.fst (layers_of_some hi)⟩

theorem le_of_mem_trackers (h : t ∈ hs.trackers id) : t ≤ id := by
  induction id using Nat.strongRecOn with
  | ind id ih =>
    rcases hs.trackers_cases id with he | ⟨inner, hi, he⟩
    · rw [he] at h
      cases h
    · rw [he] at h
      have hlt := inner?_lt hi
      rcases List.mem_cons.mp h with rfl | h
      · exact Nat.le_refl _
      · exact Nat.le_of_lt (Nat.lt_of_le_of_lt (ih inner hlt h) hlt)

theorem nodup_trackers (hs : Heaps) (id : HeapId) : (hs.trackers id).Nodup := by
  induction id using Nat.strongRecOn with
  | ind id ih =>
    rcases hs.trackers_cases id with he | ⟨inner, hi, he⟩
    · rw [he]
      exact List.nodup_nil
    · rw [he]
      refine List.nodup_cons.mpr ⟨fun hmem => ?_, ih inner (inner?_lt hi)⟩
      exact absurd (le_of_mem_trackers hmem) (Nat.not_le_of_lt (inner?_lt hi))

/-! ### What leaves the books alone -/

/-- The heaps are the same, and so are their books. -/
structure Alike (hs hs' : Heaps) : Prop where
  inner : ∀ t, hs'.inner? t = hs.inner? t
  books : ∀ t, hs'.books? t = hs.books? t

theorem Alike.refl (hs : Heaps) : Alike hs hs := ⟨fun _ => rfl, fun _ => rfl⟩

theorem Alike.trans {hs'' : Heaps} (h : Alike hs hs') (h' : Alike hs' hs'') : Alike hs hs'' :=
  ⟨fun t => (h'.inner t).trans (h.inner t), fun t => (h'.books t).trans (h.books t)⟩

theorem alike_modify {f : Heap → Heap} (hf : ∀ h, hs.get? id = some h →
    innerOf (f h).kind = innerOf h.kind ∧ booksOf (f h).kind = booksOf h.kind) :
    Alike hs (hs.modify id f) := by
  constructor
  · intro t
    rw [inner?_eq, inner?_eq, get?_modify]
    cases hg : hs.get? t with
    | none => rfl
    | some h =>
      by_cases he : t = id
      · subst he
        simp [(hf h hg).1]
      · simp [he]
  · intro t
    rw [books?_eq, books?_eq, get?_modify]
    cases hg : hs.get? t with
    | none => rfl
    | some h =>
      by_cases he : t = id
      · subst he
        simp [(hf h hg).2]
      · simp [he]

theorem alike_retain (hs : Heaps) (id : HeapId) : Alike hs (hs.retain id) :=
  alike_modify fun _ _ => ⟨rfl, rfl⟩

theorem alike_release (hs : Heaps) (id : HeapId) :
    Alike hs (hs.release id).1 ∧ (hs.release id).1.nextAddress = hs.nextAddress := by
  induction id using Nat.strongRecOn generalizing hs with
  | ind id ih =>
    unfold release
    split
    · exact ⟨.refl hs, rfl⟩
    · next h hg =>
      have hfirst : Alike hs (hs.modify id fun h => { h with holders := h.holders - 1 }) :=
        alike_modify fun _ _ => ⟨rfl, rfl⟩
      dsimp only
      split
      · split
        · exact ⟨hfirst, rfl⟩
        · next inner hi =>
          obtain ⟨hrest, hnext⟩ := ih inner (inner?_lt hi)
            (hs.modify id fun h => { h with holders := h.holders - 1 })
          exact ⟨hfirst.trans hrest, hnext⟩
      · exact ⟨hfirst, rfl⟩

/-- What serving a request does to the heaps. -/
theorem alike_serve {layout : Layout} {zeroed : Bool} {r : Except AllocError Block}
    (h : hs.serve id layout zeroed = (r, hs')) : Alike hs hs' ∧
      ((∃ e, r = .error e ∧ hs'.nextAddress = hs.nextAddress) ∨
        ∃ b, r = .ok b ∧ b.address = hs.nextAddress ∧ hs'.nextAddress = hs.nextAddress + 1) := by
  unfold serve at h
  split at h
  · next name s history holders hg =>
    have note : ∀ served (next : Nat), Alike hs (({ hs with nextAddress := next } : Heaps).modify id
        fun h => { h with kind := .source s (⟨layout, served⟩ :: history) }) := by
      intro served next
      have hnext : Alike hs { hs with nextAddress := next } := ⟨fun _ => rfl, fun _ => rfl⟩
      refine hnext.trans (alike_modify fun h hh => ?_)
      obtain rfl : _ = h := Option.some.inj (hg.symm.trans hh)
      exact ⟨rfl, rfl⟩
    dsimp only at h
    split at h
    · cases h
      exact ⟨note false _, Or.inl ⟨_, rfl, rfl⟩⟩
    · cases h
      exact ⟨note true _, Or.inr ⟨_, rfl, rfl, rfl⟩⟩
  · cases h
    exact ⟨.refl hs, Or.inl ⟨_, rfl, rfl⟩⟩

/-! ### Records -/

theorem inner?_modifyBooks (hs : Heaps) (id t : HeapId) (f : Bool → Books → Books) :
    (hs.modifyBooks id f).inner? t = hs.inner? t := by
  unfold modifyBooks
  rw [inner?_eq, inner?_eq, get?_modify]
  cases hs.get? t with
  | none => rfl
  | some h =>
    obtain ⟨name, kind, holders⟩ := h
    by_cases he : t = id <;> cases kind <;> simp [he, innerOf]

theorem books?_modifyBooks {f : Bool → Books → Books} {books : Books}
    (h : (hs.modifyBooks id f).books? t = some books) :
    ∃ old, hs.books? t = some old ∧
      if t = id then ∃ callstacks, books = f callstacks old else books = old := by
  unfold modifyBooks at h
  rw [books?_eq, get?_modify] at h
  rw [books?_eq]
  cases hg : hs.get? t with
  | none =>
    rw [hg] at h
    cases h
  | some heap =>
    obtain ⟨name, kind, holders⟩ := heap
    rw [hg] at h
    by_cases he : t = id
    · cases kind with
      | source =>
        simp [he, booksOf] at h
      | tracking inner callstacks old =>
        simp only [he, Option.map_some, if_true, Option.bind_some, booksOf] at h
        refine ⟨old, rfl, ?_⟩
        rw [if_pos he]
        exact ⟨callstacks, (Option.some.inj h).symm⟩
    · simp only [he, Option.map_some, if_false, Option.bind_some] at h
      refine ⟨books, h, ?_⟩
      rw [if_neg he]

/-- Records a block in the books of tracking heaps, the last one first. -/
def recordAll (hs : Heaps) (ts : List HeapId) (address : Nat) (layout : Layout) : Heaps :=
  ts.foldr (fun t hs => hs.record t address layout) hs

/-- Removes a block from the books of tracking heaps, the first one first. -/
def unrecordAll (r : Heaps × List Notice) (ts : List HeapId) (address : Nat) : Heaps × List Notice :=
  ts.foldl (fun acc t => ((acc.1.unrecord t address).1, acc.2 ++ (acc.1.unrecord t address).2)) r

theorem free_eq (hs : Heaps) (id : HeapId) (address : Nat) :
    hs.free id address = unrecordAll (hs, []) (hs.trackers id) address := rfl

/-- The entries of a tracking heap after something was done to the books of the heaps `ts`. -/
def Rewrites (hs hs' : Heaps) (ts : List HeapId) (f : List (Nat × Nat) → List (Nat × Nat)) : Prop :=
  (∀ t, hs'.inner? t = hs.inner? t) ∧ ∀ t books, hs'.books? t = some books →
    ∃ old, hs.books? t = some old ∧
      books.entries = if t ∈ ts then f old.entries else old.entries

theorem rewrites_record (hs : Heaps) (ts : List HeapId) (address : Nat) (layout : Layout) :
    Rewrites hs (hs.recordAll ts address layout) ts
      fun es => (address, layout.size) :: es.filter (·.1 ≠ address) := by
  induction ts with
  | nil => exact ⟨fun _ => rfl, fun t books h => ⟨books, h, rfl⟩⟩
  | cons u ts ih =>
    refine ⟨fun t => (inner?_modifyBooks _ u t _).trans (ih.1 t), fun t books h => ?_⟩
    obtain ⟨mid, hmid, hbooks⟩ := books?_modifyBooks h
    obtain ⟨old, hold, hentries⟩ := ih.2 t mid hmid
    refine ⟨old, hold, ?_⟩
    by_cases he : t = u
    · rw [if_pos he] at hbooks
      obtain ⟨callstacks, rfl⟩ := hbooks
      rw [Books.entries_record, hentries, if_pos (List.mem_cons.mpr (Or.inl he))]
      split <;> simp
    · rw [if_neg he] at hbooks
      rw [hbooks, hentries]
      simp [he]

theorem unrecord_fst (hs : Heaps) (id : HeapId) (address : Nat) :
    (hs.unrecord id address).1 = hs.modifyBooks id fun _ b => b.remove address := by
  unfold unrecord
  cases hb : hs.books? id with
  | some books => rfl
  | none =>
    -- only a tracking heap has books to be changed
    suffices hheaps : (hs.modifyBooks id fun _ b => b.remove address).heaps = hs.heaps by
      obtain ⟨heaps, next⟩ := hs
      exact congrArg (Heaps.mk · next) hheaps.symm
    unfold modifyBooks modify
    refine List.ext_getElem? fun t => ?_
    dsimp only
    rw [List.getElem?_modify]
    by_cases he : id = t
    · subst he
      rw [books?_eq] at hb
      unfold get? at hb
      cases hg : hs.heaps[id]? with
      | none => rfl
      | some h =>
        obtain ⟨name, kind, holders⟩ := h
        rw [hg] at hb
        cases kind with
        | source => simp
        | tracking => cases hb
    · simp [he]

section Preserved
variable {P : Heaps → Prop} (step : ∀ hs t f, P hs → P (hs.modifyBooks t f))
include step

theorem recordAll_preserves (ts : List HeapId) (address : Nat) (layout : Layout) (h : P hs) :
    P (hs.recordAll ts address layout) := by
  induction ts with
  | nil => exact h
  | cons t ts ih => exact step _ t _ ih

theorem unrecordAll_preserves {r : Heaps × List Notice} (ts : List HeapId) (address : Nat)
    (h : P r.1) : P (unrecordAll r ts address).1 := by
  induction ts generalizing r with
  | nil => exact h
  | cons t ts ih =>
    refine ih (r := ((r.1.unrecord t address).1, _)) ?_
    rw [unrecord_fst]
    exact step r.1 t _ h

end Preserved

theorem nextAddress_recordAll (hs : Heaps) (ts : List HeapId) (address : Nat) (layout : Layout) :
    (hs.recordAll ts address layout).nextAddress = hs.nextAddress :=
  recordAll_preserves (P := fun hs' => hs'.nextAddress = hs.nextAddress) (fun _ _ _ h => h)
    ts address layout rfl

theorem nextAddress_unrecordAll (r : Heaps × List Notice) (ts : List HeapId) (address : Nat) :
    (unrecordAll r ts address).1.nextAddress = r.1.nextAddress :=
  unrecordAll_preserves (P := fun hs' => hs'.nextAddress = r.1.nextAddress) (fun _ _ _ h => h)
    ts address rfl

/-- What unrecording a block in the books of one heap after the other does. -/
theorem rewrites_unrecord (r : Heaps × List Notice) (ts : List HeapId) (address : Nat) :
    Rewrites r.1 (unrecordAll r ts address).1 ts fun es => es.filter (·.1 ≠ address) := by
  induction ts generalizing r with
  | nil => exact ⟨fun _ => rfl, fun t books h => ⟨books, h, rfl⟩⟩
  | cons u ts ih =>
    have ih := ih ((r.1.unrecord u address).1, r.2 ++ (r.1.unrecord u address).2)
    have hfst := unrecord_fst r.1 u address
    refine ⟨fun t => (ih.1 t).trans (by dsimp only; rw [hfst]; exact inner?_modifyBooks r.1 u t _),
      fun t books h => ?_⟩
    obtain ⟨mid, hmid, hentries⟩ := ih.2 t books h
    rw [hfst] at hmid
    obtain ⟨old, hold, hbooks⟩ := books?_modifyBooks hmid
    refine ⟨old, hold, ?_⟩
    rw [hentries]
    by_cases he : t = u
    · rw [if_pos he] at hbooks
      obtain ⟨-, rfl⟩ := hbooks
      rw [Books.entries_remove, if_pos (List.mem_cons.mpr (Or.inl he))]
      split <;> simp
    · rw [if_neg he] at hbooks
      rw [hbooks]
      simp [he]

/-- Unrecording a block that is in the books of all of the heaps is not noticed. -/
theorem unrecord_quiet {ts : List HeapId} {address : Nat} (ns : List Notice) (hd : ts.Nodup)
    (h : ∀ t ∈ ts, ∀ books, hs.books? t = some books → books.has address = true) :
    (unrecordAll (hs, ns) ts address).2 = ns := by
  induction ts generalizing hs ns with
  | nil => rfl
  | cons u ts ih =>
    obtain ⟨hu, hd⟩ := List.nodup_cons.mp hd
    have hquiet : (hs.unrecord u address).2 = [] := by
      unfold unrecord
      split
      · rfl
      · next books hb => exact if_pos (h u List.mem_cons_self books hb)
    refine (ih _ hd fun t ht books hb => ?_).trans ?_
    · -- the books of the heaps to come are as they were
      dsimp only at hb
      rw [unrecord_fst] at hb
      obtain ⟨old, hold, hbooks⟩ := books?_modifyBooks hb
      rw [if_neg (by rintro rfl; exact hu ht)] at hbooks
      rw [hbooks]
      exact h t (List.mem_cons_of_mem _ ht) old hold
    · dsimp only
      rw [hquiet, List.append_nil]

/-! ### Buffers -/

theorem Rewrites.of_alike {hs₁ hs₂ : Heaps} {ts : List HeapId}
    {f : List (Nat × Nat) → List (Nat × Nat)} (h : Alike hs hs₁) (hr : Rewrites hs₁ hs₂ ts f)
    (h' : Alike hs₂ hs') : Rewrites hs hs' ts f := by
  refine ⟨fun t => (h'.inner t).trans ((hr.1 t).trans (h.inner t)), fun t books hb => ?_⟩
  obtain ⟨old, hold, hentries⟩ := hr.2 t books ((h'.books t).symm.trans hb)
  exact ⟨old, (h.books t).symm.trans hold, hentries⟩

theorem newBuffer_cases {n align : Nat} {r : Except AllocError Buffer}
    (h : hs.newBuffer id n align = (r, hs')) :
    ((∃ e, r = .error e) ∧ Alike hs hs' ∧ hs'.nextAddress = hs.nextAddress) ∨
      ∃ b, r = .ok b ∧ b.heap = id ∧ b.address = hs.nextAddress ∧
        hs'.nextAddress = hs.nextAddress + 1 ∧ Rewrites hs hs' (hs.trackers id) fun es =>
          (b.address, b.layout.size) :: es.filter (·.1 ≠ b.address) := by
  unfold newBuffer allocate at h
  dsimp only at h
  split at h
  · generalize hserve : hs.serve (hs.layers id).2 (Buffer.layoutOf n align) true = x at h
    obtain ⟨r', hs₁⟩ := x
    obtain ⟨halike, ⟨e, rfl, hnext⟩ | ⟨block, rfl, haddress, hnext⟩⟩ := alike_serve hserve
    · cases h
      exact Or.inl ⟨⟨e, rfl⟩, halike, hnext⟩
    · cases h
      refine Or.inr ⟨_, rfl, rfl, haddress, (nextAddress_recordAll _ _ _ _).trans hnext, ?_⟩
      exact .of_alike halike (rewrites_record hs₁ _ _ _) (alike_retain _ id)
  · cases h
    exact Or.inl ⟨⟨_, rfl⟩, .refl hs, rfl⟩

theorem rewrites_dropBuffer (hs : Heaps) (b : Buffer) :
    (hs.dropBuffer b).1.nextAddress = hs.nextAddress ∧
      Rewrites hs (hs.dropBuffer b).1 (hs.trackers b.heap) fun es =>
        es.filter (·.1 ≠ b.address) := by
  obtain ⟨halike, hnext⟩ := alike_release (hs.free b.heap b.address).1 b.heap
  exact ⟨hnext.trans (nextAddress_unrecordAll (hs, []) _ b.address),
    .of_alike (.refl hs) (rewrites_unrecord (hs, []) _ b.address) halike⟩

end Heaps

end FilePipeline
