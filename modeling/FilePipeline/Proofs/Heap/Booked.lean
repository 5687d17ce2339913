import FilePipeline.Proofs.Heap.Traffic

/-! # What is in the books while blocks come and go

Each block that is out has its keepers, the tracking heaps that have recorded it and not removed it
(`Passage.keepers`). All books are right (`Booked`) if each tracking heap has in its books exactly the
blocks that it is a keeper of, and has counted the blocks that it has ever recorded. Whatever a step does
to the books, they stay right: a block is recorded (`Booked.record`) after its source has served it, and
removed (`Booked.remove`) before its source gets it back, so that no other block of the source is recorded
under its address meanwhile (`Placed.address_ne`). -/

namespace FilePipeline

/-- The record of a block. -/
def Lease.allocation (callstack : Bool) (l : Lease) : Allocation := ⟨l.address, l.layout.size, callstack⟩

namespace Heaps

/-! ### Tracking heaps -/

/-- The heap `t` is a tracking heap with these books. -/
def Tracks (hs : Heaps) (t : HeapId) (callstacks : Bool) (books : Books) : Prop :=
  ∃ name inner holders, hs.get? t = some ⟨name, .tracking inner callstacks books, holders⟩

variable {hs hs' : Heaps} {id t : HeapId} {callstacks : Bool} {books : Books}

theorem Tracks.books?_eq (h : hs.Tracks t callstacks books) : hs.books? t = some books := by
  obtain ⟨name, inner, holders, hg⟩ := h
  unfold books?
  rw [hg]

theorem exists_tracks_of_inner {inner : HeapId} (h : hs.inner? t = some inner) :
    ∃ callstacks books, hs.Tracks t callstacks books := by
  unfold inner? at h
  split at h
  · next hg => exact ⟨_, _, _, _, _, hg⟩
  · cases h

theorem exists_tracks_of_mem (h : t ∈ hs.trackers id) :
    ∃ callstacks books, hs.Tracks t callstacks books := by
  induction id using Nat.strongRecOn with
  | ind id ih =>
    obtain he | ⟨inner, hi, he⟩ := hs.trackers_cases id
    · rw [he] at h
      cases h
    · rw [he] at h
      rcases List.mem_cons.mp h with rfl | h
      · exact exists_tracks_of_inner hi
      · exact ih inner (inner?_lt hi) h

theorem base_of_mem_trackers (h : t ∈ hs.trackers id) : hs.base t = hs.base id := by
  induction id using Nat.strongRecOn with
  | ind id ih =>
    obtain he | ⟨inner, hi, he⟩ := hs.trackers_cases id
    · rw [he] at h
      cases h
    · rw [he] at h
      rcases List.mem_cons.mp h with rfl | h
      · rfl
      · rw [ih inner (inner?_lt hi) h]
        exact (congrArg Prod.snd (layers_of_some hi)).symm

/-- The books of a tracking heap are changed, and nothing else. -/
theorem tracks_modifyBooks {f : Bool → Books → Books}
    (h : (hs.modifyBooks id f).Tracks t callstacks books) :
    ∃ old, hs.Tracks t callstacks old ∧ books = if t = id then f callstacks old else old := by
  obtain ⟨name, inner, holders, hg⟩ := h
  unfold modifyBooks at hg
  rw [get?_modify] at hg
  cases ho : hs.get? t with
  | none =>
    rw [ho] at hg
    cases hg
  | some heap =>
    obtain ⟨name', kind, holders'⟩ := heap
    rw [ho] at hg
    have hg := Option.some.inj hg
    dsimp only at hg
    split at hg
    · next he =>
      cases kind with
      | source => cases hg
      | tracking =>
        cases hg
        exact ⟨_, ⟨_, _, _, ho⟩, (if_pos he).symm⟩
    · next he =>
      cases hg
      exact ⟨_, ⟨_, _, _, ho⟩, (if_neg he).symm⟩

/-- Each heap is as it was, or a source that has seen another request. -/
def SameButHistory (hs hs' : Heaps) : Prop :=
  ∀ t, hs'.get? t = hs.get? t ∨ ∃ name s history history' holders,
    hs.get? t = some ⟨name, .source s history, holders⟩ ∧
      hs'.get? t = some ⟨name, .source s history', holders⟩

theorem sameButHistory_modify {name : String} {s : Source} {history : List Request} {holders : Nat}
    (hg : hs.get? id = some ⟨name, .source s history, holders⟩) (history' : List Request) :
    SameButHistory hs (hs.modify id fun h => { h with kind := .source s history' }) := by
  intro t
  rw [get?_modify]
  by_cases he : t = id
  · subst he
    refine Or.inr ⟨name, s, history, history', holders, hg, ?_⟩
    rw [hg, Option.map_some, if_pos rfl]
  · left
    simp only [if_neg he]
    exact Option.map_id'

theorem sameButHistory_serve {layout : Layout} {zeroed : Bool} {r : Except AllocError Block}
    (h : hs.serve id layout zeroed = (r, hs')) : SameButHistory hs hs' := by
  unfold serve at h
  split at h
  · next hg =>
    dsimp only at h
    split at h
    · cases h
      exact sameButHistory_modify hg _
    · cases h
      have hg' : (hs.servingAt (hs.nextAddress + 1)).get? id = _ := hg
      exact sameButHistory_modify hg' _
  · cases h
    exact fun t => Or.inl rfl

theorem Tracks.of_sameButHistory (h : SameButHistory hs hs')
    (ht : hs'.Tracks t callstacks books) : hs.Tracks t callstacks books := by
  obtain ⟨name, inner, holders, hg⟩ := ht
  obtain he | ⟨_, _, _, _, _, -, hg'⟩ := h t
  · exact ⟨name, inner, holders, he ▸ hg⟩
  · rw [hg'] at hg
    cases hg

theorem SameButHistory.books? (h : SameButHistory hs hs') (t : HeapId) :
    hs'.books? t = hs.books? t := by
  rw [books?_eq, books?_eq]
  obtain he | ⟨_, _, _, _, _, hg, hg'⟩ := h t
  · rw [he]
  · rw [hg, hg']
    rfl

theorem SameButHistory.leaks (h : SameButHistory hs hs') (t : HeapId) : hs'.leaks t = hs.leaks t := by
  have hname : hs'.name t = hs.name t := by
    unfold name
    obtain he | ⟨_, _, _, _, _, hg, hg'⟩ := h t
    · rw [he]
    · rw [hg, hg']
  unfold Heaps.leaks
  rw [h.books?, hname]

theorem address_of_served {layout : Layout} {zeroed : Bool} {b : Block}
    (h : hs.serve id layout zeroed = (.ok b, hs')) : b.address = hs.nextAddress := by
  obtain ⟨-, ⟨e, he, -⟩ | ⟨b', hb, haddress, -⟩⟩ := alike_serve h
  · cases he
  · rw [Except.ok.inj hb]
    exact haddress

theorem inner?_record (hs : Heaps) (id : HeapId) (address : Nat) (layout : Layout) (t : HeapId) :
    (hs.record id address layout).inner? t = hs.inner? t := inner?_modifyBooks hs id t _

theorem inner?_unrecord (hs : Heaps) (id : HeapId) (address : Nat) (t : HeapId) :
    (hs.unrecord id address).1.inner? t = hs.inner? t := by
  rw [unrecord_fst]
  exact inner?_modifyBooks hs id t _

/-! ### What is in the books -/

/-- The blocks that a tracking heap has in its books. -/
def keptBy (t : HeapId) (m : Multiset Passage) : Multiset Lease :=
  (m.filter fun p => t ∈ p.keepers).map Passage.lease

theorem keptBy_cons (t : HeapId) (p : Passage) (m : Multiset Passage) :
    keptBy t (p ::ₘ m) = if t ∈ p.keepers then p.lease ::ₘ keptBy t m else keptBy t m := by
  unfold keptBy
  by_cases h : t ∈ p.keepers
  · rw [Multiset.filter_cons_of_pos m h, Multiset.map_cons, if_pos h]
  · rw [Multiset.filter_cons_of_neg m h, if_neg h]

theorem keptBy_cons_of_iff {l : Lease} {ks ks' : List HeapId} (h : t ∈ ks' ↔ t ∈ ks)
    (m : Multiset Passage) : keptBy t (⟨l, ks'⟩ ::ₘ m) = keptBy t (⟨l, ks⟩ ::ₘ m) := by
  rw [keptBy_cons, keptBy_cons]
  simp only [h]

theorem keptBy_kept (hs : Heaps) (t : HeapId) (m : Multiset Lease) :
    keptBy t (m.map (Lease.kept hs)) = m.filter fun l => t ∈ hs.trackers l.heap := by
  unfold keptBy
  rw [Multiset.filter_map, Multiset.map_map]
  exact Multiset.map_id' _

/-- No two blocks of a source are at one address, and a block gets into books from the inside to the
    outside and out of them again from the outside to the inside. -/
structure Placed (hs : Heaps) (out : Multiset Passage) : Prop where
  distinct : (out.map fun p => hs.place p.lease).Nodup
  keepers : ∀ p ∈ out, p.keepers <:+ hs.trackers p.lease.heap

/-- The books of all tracking heaps are right: the blocks `out` are out, and the blocks `made` have
    ever been. -/
structure Booked (hs : Heaps) (out made : Multiset Passage) : Prop extends Placed hs out where
  live : ∀ t callstacks books, hs.Tracks t callstacks books →
    (books.live : Multiset Allocation) = (keptBy t out).map (Lease.allocation callstacks)
  total : ∀ t callstacks books, hs.Tracks t callstacks books →
    books.total = Multiset.card (keptBy t made) % (Size.max + 1)

variable {out made : Multiset Passage} {l : Lease} {ks ks' : List HeapId}

theorem place_congr (h : ∀ t, hs'.inner? t = hs.inner? t) (l : Lease) : hs'.place l = hs.place l := by
  unfold place base
  rw [layers_congr h]

theorem Placed.congr (h : Placed hs out) (hinner : ∀ t, hs'.inner? t = hs.inner? t) :
    Placed hs' out where
  distinct := by
    simp only [place_congr hinner]
    exact h.distinct
  keepers p hp := by
    rw [trackers_congr hinner]
    exact h.keepers p hp

theorem Placed.cons (h : Placed hs out) (hnew : ∀ p ∈ out, hs.place p.lease ≠ hs.place l)
    (hks : ks <:+ hs.trackers l.heap) : Placed hs (⟨l, ks⟩ ::ₘ out) where
  distinct := by
    rw [Multiset.map_cons]
    refine Multiset.nodup_cons.mpr ⟨fun hmem => ?_, h.distinct⟩
    obtain ⟨p, hp, he⟩ := Multiset.mem_map.mp hmem
    exact hnew p hp he
  keepers p hp := by
    rcases Multiset.mem_cons.mp hp with rfl | hp
    · exact hks
    · exact h.keepers p hp

theorem Placed.place_ne (h : Placed hs (⟨l, ks⟩ ::ₘ out)) {p : Passage} (hp : p ∈ out) :
    hs.place p.lease ≠ hs.place l := by
  have hdistinct := h.distinct
  rw [Multiset.map_cons, Multiset.nodup_cons] at hdistinct
  exact fun he => hdistinct.1 (Multiset.mem_map.mpr ⟨p, hp, he⟩)

theorem Placed.tail (h : Placed hs (⟨l, ks⟩ ::ₘ out)) : Placed hs out where
  distinct := by
    have hdistinct := h.distinct
    rw [Multiset.map_cons] at hdistinct
    exact (Multiset.nodup_cons.mp hdistinct).2
  keepers p hp := h.keepers p (Multiset.mem_cons_of_mem hp)

theorem Placed.move (h : Placed hs (⟨l, ks⟩ ::ₘ out)) (hks : ks' <:+ hs.trackers l.heap) :
    Placed hs (⟨l, ks'⟩ ::ₘ out) :=
  h.tail.cons (fun _ => h.place_ne) hks

theorem Placed.address_ne (h : Placed hs (⟨l, ks⟩ ::ₘ out)) (ht : t ∈ hs.trackers l.heap)
    {l' : Lease} (hl' : l' ∈ keptBy t out) : l'.address ≠ l.address := by
  obtain ⟨p, hp, rfl⟩ := Multiset.mem_map.mp hl'
  obtain ⟨hp, hkept⟩ := Multiset.mem_filter.mp hp
  have hmem := (h.tail.keepers p hp).subset hkept
  intro he
  refine h.place_ne hp (Prod.ext ?_ he)
  exact (base_of_mem_trackers hmem).symm.trans (base_of_mem_trackers ht)

theorem filter_allocation {address : Nat} {m : Multiset Lease} (h : ∀ l ∈ m, l.address ≠ address) :
    (m.map (Lease.allocation callstacks)).filter (·.address ≠ address) =
      m.map (Lease.allocation callstacks) := by
  refine Multiset.filter_eq_self.mpr fun a ha => ?_
  obtain ⟨l, hl, rfl⟩ := Multiset.mem_map.mp ha
  exact h l hl

theorem Booked.sameButHistory (h : Booked hs out made) (hinner : ∀ t, hs'.inner? t = hs.inner? t)
    (hsame : SameButHistory hs hs') : Booked hs' out made where
  toPlaced := h.toPlaced.congr hinner
  live t callstacks books ht := h.live t callstacks books (ht.of_sameButHistory hsame)
  total t callstacks books ht := h.total t callstacks books (ht.of_sameButHistory hsame)

theorem Booked.served {layout : Layout} {zeroed : Bool} {address : Nat} {b : Block}
    (h : Booked hs out made) (unused : ∀ p ∈ out, hs.place p.lease ≠ (hs.base id, address))
    (hserve : (hs.servingAt address).serve (hs.base id) layout zeroed = (.ok b, hs')) :
    Booked hs' (⟨⟨id, b.address, layout⟩, []⟩ ::ₘ out) (⟨⟨id, b.address, layout⟩, []⟩ ::ₘ made) := by
  have hplace : hs.place ⟨id, b.address, layout⟩ = (hs.base id, address) :=
    congrArg _ (address_of_served hserve)
  have hsame : SameButHistory hs hs' := fun t => sameButHistory_serve hserve t
  have hnew : Booked hs (⟨⟨id, b.address, layout⟩, []⟩ ::ₘ out)
      (⟨⟨id, b.address, layout⟩, []⟩ ::ₘ made) := by
    refine ⟨h.toPlaced.cons (fun p hp => hplace ▸ unused p hp) List.nil_suffix,
      fun t callstacks books ht => ?_, fun t callstacks books ht => ?_⟩
    · rw [keptBy_cons, if_neg List.not_mem_nil]
      exact h.live t callstacks books ht
    · rw [keptBy_cons, if_neg List.not_mem_nil]
      exact h.total t callstacks books ht
  exact hnew.sameButHistory (alike_serve hserve).1.inner hsame

theorem Booked.free (h : Booked hs (⟨l, []⟩ ::ₘ out) made) : Booked hs out made where
  toPlaced := h.toPlaced.tail
  live t callstacks books ht := by
    rw [h.live t callstacks books ht, keptBy_cons, if_neg List.not_mem_nil]
  total := h.total

/-- The next tracking heap records a block. -/
theorem Booked.record {ahead : List HeapId} (h : Booked hs (⟨l, ks⟩ ::ₘ out) (⟨l, ks⟩ ::ₘ made))
    (next : hs.trackers l.heap = ahead ++ t :: ks) :
    Booked (hs.record t l.address l.layout) (⟨l, t :: ks⟩ ::ₘ out) (⟨l, t :: ks⟩ ::ₘ made) := by
  have hsuffix : t :: ks <:+ hs.trackers l.heap := ⟨ahead, next.symm⟩
  have hmem : t ∈ hs.trackers l.heap := hsuffix.subset List.mem_cons_self
  have hnot : t ∉ ks := (List.nodup_cons.mp ((nodup_trackers hs l.heap).sublist hsuffix.sublist)).1
  have hother : ∀ u, u ≠ t → (u ∈ t :: ks ↔ u ∈ ks) := fun u he =>
    List.mem_cons.trans (or_iff_right he)
  refine ⟨(h.toPlaced.move hsuffix).congr (inner?_record hs t _ _),
    fun u callstacks books hu => ?live, fun u callstacks books hu => ?total⟩
  case live =>
    obtain ⟨old, hold, rfl⟩ := tracks_modifyBooks hu
    have hlive := h.live u callstacks old hold
    by_cases he : u = t
    · subst he
      rw [keptBy_cons, if_neg hnot] at hlive
      rw [if_pos rfl, keptBy_cons, if_pos List.mem_cons_self, Multiset.map_cons]
      unfold Books.record
      rw [← Multiset.cons_coe, ← Multiset.filter_coe, hlive,
        filter_allocation fun l' hl' => h.toPlaced.address_ne hmem hl']
      rfl
    · rw [if_neg he, hlive, keptBy_cons_of_iff (hother u he)]
  case total =>
    obtain ⟨old, hold, rfl⟩ := tracks_modifyBooks hu
    have htotal := h.total u callstacks old hold
    by_cases he : u = t
    · subst he
      rw [keptBy_cons, if_neg hnot] at htotal
      rw [if_pos rfl, keptBy_cons, if_pos List.mem_cons_self, Multiset.card_cons, ← Nat.mod_add_mod,
        ← htotal]
      rfl
    · rw [if_neg he, htotal, keptBy_cons_of_iff (hother u he)]

theorem Booked.has (h : Booked hs out made) {p : Passage} (hp : p ∈ out) (ht : t ∈ p.keepers) :
    ∃ books, hs.books? t = some books ∧ books.has p.lease.address = true := by
  obtain ⟨callstacks, books, htracks⟩ := exists_tracks_of_mem ((h.keepers p hp).subset ht)
  have hlive : p.lease.allocation callstacks ∈ (books.live : Multiset Allocation) := by
    rw [h.live t callstacks books htracks]
    exact Multiset.mem_map_of_mem _ (Multiset.mem_map_of_mem _ (Multiset.mem_filter.mpr ⟨hp, ht⟩))
  exact ⟨books, htracks.books?_eq, List.any_eq_true.mpr ⟨_, hlive, beq_self_eq_true _⟩⟩

/-- The next tracking heap removes a block from its books. -/
theorem Booked.remove (h : Booked hs (⟨l, t :: ks⟩ ::ₘ out) made) :
    Booked (hs.unrecord t l.address).1 (⟨l, ks⟩ ::ₘ out) made := by
  have hsuffix : t :: ks <:+ hs.trackers l.heap := h.keepers _ (Multiset.mem_cons_self _ _)
  have hmem : t ∈ hs.trackers l.heap := hsuffix.subset List.mem_cons_self
  have hnot : t ∉ ks := (List.nodup_cons.mp ((nodup_trackers hs l.heap).sublist hsuffix.sublist)).1
  refine ⟨(h.toPlaced.move ((List.suffix_cons t ks).trans hsuffix)).congr (inner?_unrecord hs t _),
    fun u callstacks books hu => ?live, fun u callstacks books hu => ?total⟩
  case live =>
    rw [unrecord_fst] at hu
    obtain ⟨old, hold, rfl⟩ := tracks_modifyBooks hu
    have hlive := h.live u callstacks old hold
    by_cases he : u = t
    · subst he
      rw [keptBy_cons, if_pos List.mem_cons_self, Multiset.map_cons] at hlive
      rw [if_pos rfl, keptBy_cons, if_neg hnot]
      unfold Books.remove
      dsimp only
      rw [← Multiset.filter_coe, hlive, Multiset.filter_cons_of_neg _ fun hne => hne rfl,
        filter_allocation fun l' hl' => h.toPlaced.address_ne hmem hl']
    · rw [if_neg he, hlive, keptBy_cons_of_iff (List.mem_cons.trans (or_iff_right he))]
  case total =>
    rw [unrecord_fst] at hu
    obtain ⟨old, hold, rfl⟩ := tracks_modifyBooks hu
    rw [← h.total u callstacks old hold]
    split <;> rfl

theorem Booked.quiet (h : Booked hs (⟨l, t :: ks⟩ ::ₘ out) made) :
    (hs.unrecord t l.address).2 = [] := by
  obtain ⟨books, hbooks, hhas⟩ := h.has (Multiset.mem_cons_self _ _) List.mem_cons_self
  unfold unrecord
  rw [hbooks]
  exact if_pos hhas

end Heaps

end FilePipeline
