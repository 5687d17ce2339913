import FilePipeline.Proofs.Heap.Booked
import Mathlib.Algebra.BigOperators.Group.Multiset.Defs
import Mathlib.Algebra.GroupWithZero.Nat

/-! # Books that balance

Whatever steps clients make, and in whichever order, the books of all tracking heaps stay right
(`Traffic.Kept.step`), and a tracking heap finds every block that is given back to it. So while no client
is in the middle of an allocation or a free, the books of a tracking heap have exactly the blocks that
clients own through it, and their total is the number of blocks that they ever got, as far as that fits
(`Traffic.Run.accurate`). -/

namespace FilePipeline

theorem Books.bytes_eq_sum (b : Books) :
    b.bytes = ((b.live : Multiset Allocation).map Allocation.size).sum := by
  unfold bytes
  rw [Multiset.map_coe, Multiset.sum_coe, List.sum_eq_foldr, List.foldr_map]

namespace Traffic

open Heaps (lent returned Booked)

variable {s s' : Traffic}

/-! ### What steps keep -/

/-- The blocks that sources have served so far. -/
def made (s : Traffic) : Multiset Passage :=
  s.entering + (lent s.deals).map (Lease.kept s.heaps)

/-- What is true between any two steps. -/
structure Kept (s : Traffic) : Prop where
  booked : Booked s.heaps s.out s.made
  /-- What clients own is what they got and did not give back. -/
  owned : lent s.deals = s.owned + returned s.deals
  quiet : s.notices = []

theorem kept_congr {hs hs' : Heaps} (h : ∀ t, hs'.inner? t = hs.inner? t) :
    Lease.kept hs' = Lease.kept hs := by
  funext l
  unfold Lease.kept
  rw [Heaps.trackers_congr h]

theorem Kept.step (h : Kept s) (hs : Step s s') : Kept s' := by
  obtain ⟨hbooked, howned, hquiet⟩ := h
  cases hs with
  | @served id layout zeroed address b hs' unused hserve =>
    have hinner : ∀ t, hs'.inner? t = s.heaps.inner? t := (Heaps.alike_serve hserve).1.inner
    have hserved := hbooked.served unused hserve
    refine ⟨?_, howned, hquiet⟩
    unfold out made at hserved ⊢
    rw [kept_congr hinner, Multiset.cons_add, Multiset.cons_add, Multiset.cons_add]
    exact hserved
  | refused hserve =>
    have hinner := (Heaps.alike_serve hserve).1.inner
    refine ⟨?_, howned, hquiet⟩
    unfold out made at hbooked ⊢
    rw [kept_congr hinner]
    exact hbooked.sameButHistory hinner (Heaps.sameButHistory_serve hserve)
  | @recorded l ahead keepers t rest h next =>
    refine ⟨?_, howned, hquiet⟩
    unfold out made at hbooked ⊢
    rw [h, Multiset.cons_add, Multiset.cons_add, Multiset.cons_add] at hbooked
    rw [kept_congr (Heaps.inner?_record s.heaps t _ _), Multiset.cons_add, Multiset.cons_add, Multiset.cons_add]
    exact hbooked.record next
  | @lent l rest h =>
    refine ⟨?_, ?_, hquiet⟩
    · unfold out made at hbooked ⊢
      rw [h] at hbooked
      show Booked _ (rest + (l ::ₘ s.owned).map _ + _) (rest + (l ::ₘ lent s.deals).map _)
      rw [Multiset.map_cons, Multiset.map_cons, Multiset.add_cons, Multiset.add_cons,
        Multiset.cons_add]
      rw [Multiset.cons_add, Multiset.cons_add, Multiset.cons_add] at hbooked
      exact hbooked
    · show l ::ₘ lent s.deals = l ::ₘ s.owned + returned s.deals
      rw [howned, Multiset.cons_add]
  | @returned l rest h =>
    refine ⟨?_, ?_, hquiet⟩
    · unfold out made at hbooked ⊢
      rw [h, Multiset.map_cons, Multiset.add_cons, Multiset.cons_add] at hbooked
      rwa [Multiset.add_cons]
    · show lent s.deals = rest + (l ::ₘ returned s.deals)
      rw [howned, h, Multiset.cons_add, Multiset.add_cons]
  | @removed l t keepers rest h =>
    unfold out made at hbooked
    rw [h, Multiset.add_cons] at hbooked
    refine ⟨?_, howned, ?_⟩
    · unfold out made
      rw [kept_congr (Heaps.inner?_unrecord s.heaps t _), Multiset.add_cons]
      exact hbooked.remove
    · show s.notices ++ (s.heaps.unrecord t l.address).2 = []
      rw [hquiet, hbooked.quiet]
      rfl
  | freed h =>
    refine ⟨?_, howned, hquiet⟩
    unfold out made at hbooked ⊢
    rw [h, Multiset.add_cons] at hbooked
    exact hbooked.free

theorem Run.kept {hs : Heaps}
    (fresh : ∀ t callstacks books, hs.Tracks t callstacks books → books = {}) (h : Run hs s) :
    Kept s := by
  induction h with
  | refl =>
    refine ⟨⟨⟨Multiset.nodup_zero, fun p hp => absurd hp (Multiset.notMem_zero p)⟩, ?_, ?_⟩, rfl, rfl⟩
    · intro t callstacks books ht
      rw [fresh t callstacks books ht]
      rfl
    · intro t callstacks books ht
      rw [fresh t callstacks books ht]
      exact (Nat.zero_mod _).symm
  | tail _ hstep ih => exact ih.step hstep

/-! ### Between calls -/

/-- The blocks that clients own and that a tracking heap has handed out. -/
def through (s : Traffic) (t : HeapId) : Multiset Lease :=
  s.owned.filter fun l => t ∈ s.heaps.trackers l.heap

/-- The books of a tracking heap tell exactly which blocks clients own through it. -/
structure Balanced (s : Traffic) (t : HeapId) (callstacks : Bool) (books : Books) : Prop where
  live : (books.live : Multiset Allocation) = (s.through t).map (Lease.allocation callstacks)
  leaks : (s.heaps.leaks t : Multiset Notice) =
    (s.through t).map fun l => .leak (s.heaps.name t) l.layout.size callstacks
  count : books.count = Multiset.card (s.through t)
  bytes : books.bytes = ((s.through t).map fun l => l.layout.size).sum
  /-- Every block that clients ever got through it is counted, by a counter that wraps. -/
  total : books.total =
    Multiset.card ((lent s.deals).filter fun l => t ∈ s.heaps.trackers l.heap) % (Size.max + 1)

/-- What is true at any time. -/
structure Accurate (s : Traffic) : Prop where
  /-- What clients own is what they got and did not give back. -/
  owned : lent s.deals = s.owned + returned s.deals
  /-- While nobody is in the middle of a call, all books balance. -/
  balanced : s.entering = 0 → s.leaving = 0 → ∀ t callstacks books,
    s.heaps.Tracks t callstacks books → s.Balanced t callstacks books
  /-- An allocation that is refused changes nothing but that its source has seen it. -/
  refused : ∀ id layout zeroed e hs', s.heaps.allocate id layout zeroed = (.error e, hs') →
    Step s { s with heaps := hs' } ∧ s.heaps.SameButHistory hs' ∧
      ∀ t, hs'.books? t = s.heaps.books? t ∧ hs'.leaks t = s.heaps.leaks t
  /-- What has been given back is in the books wherever it has yet to be removed. -/
  known : ∀ p ∈ s.leaving, ∀ t ∈ p.keepers,
    ∃ books, s.heaps.books? t = some books ∧ books.has p.lease.address = true
  /-- No heap was ever given a block that it did not know. -/
  quiet : s.notices = []

theorem Kept.balanced (h : Kept s) (hentering : s.entering = 0) (hleaving : s.leaving = 0)
    {t : HeapId} {callstacks : Bool} {books : Books} (ht : s.heaps.Tracks t callstacks books) :
    s.Balanced t callstacks books := by
  have hlive : (books.live : Multiset Allocation) =
      (s.through t).map (Lease.allocation callstacks) := by
    rw [h.booked.live t callstacks books ht]
    unfold out through
    rw [hentering, hleaving, Multiset.zero_add, Multiset.add_zero, Heaps.keptBy_kept]
  have htotal := h.booked.total t callstacks books ht
  unfold made at htotal
  rw [hentering, Multiset.zero_add, Heaps.keptBy_kept] at htotal
  refine ⟨hlive, ?leaks, ?count, ?bytes, htotal⟩
  case leaks =>
    unfold Heaps.leaks
    rw [ht.books?_eq]
    dsimp only
    rw [← Multiset.map_coe, hlive, Multiset.map_map]
    rfl
  case count =>
    show Multiset.card (books.live : Multiset Allocation) = _
    rw [hlive, Multiset.card_map]
  case bytes =>
    rw [Books.bytes_eq_sum, hlive, Multiset.map_map]
    rfl

/-- Whatever clients do, and in whichever order their steps come, the books balance. -/
theorem Run.accurate {hs : Heaps}
    (fresh : ∀ t callstacks books, hs.Tracks t callstacks books → books = {}) (h : Run hs s) :
    Accurate s where
  owned := (h.kept fresh).owned
  balanced hentering hleaving _ _ _ := (h.kept fresh).balanced hentering hleaving
  refused id layout zeroed e hs' hrefused := by
    have hsame := Heaps.sameButHistory_serve (Heaps.serve_of_refused hrefused)
    exact ⟨step_refused hrefused, hsame, fun t => ⟨hsame.books? t, hsame.leaks t⟩⟩
  known p hp t ht := (h.kept fresh).booked.has (Multiset.mem_add.mpr (Or.inr hp)) ht
  quiet := (h.kept fresh).quiet

/-! ### An address that is used again -/

/-- The heap 1 is a tracking heap around the machine's memory, and 2 is one around 1. -/
structure Nested (hs : Heaps) : Prop where
  serves : hs.Serves
  inner : hs.layers 1 = ([1], Heaps.systemHeap)
  outer : hs.layers 2 = ([2, 1], Heaps.systemHeap)

section Nested
variable {hs hs' : Heaps}

theorem Nested.congr (h : Nested hs) (hserves : hs'.Serves) (hinner : ∀ t, hs'.inner? t = hs.inner? t) :
    Nested hs' :=
  ⟨hserves, (Heaps.layers_congr hinner 1).trans h.inner, (Heaps.layers_congr hinner 2).trans h.outer⟩

theorem Nested.recordAll (h : Nested hs) (ts : List HeapId) (address : Nat) (layout : Layout) :
    Nested (hs.recordAll ts address layout) :=
  h.congr (h.serves.recordAll ts address layout) (Heaps.rewrites_record hs ts address layout).1

theorem Nested.free (h : Nested hs) (id : HeapId) (address : Nat) : Nested (hs.free id address).1 :=
  h.congr (Heaps.Serves.unrecordAll (r := (hs, [])) h.serves _ address)
    (Heaps.rewrites_unrecord (hs, []) _ address).1

theorem Nested.serve (h : Nested s.heaps) (id : HeapId) (address : Nat) (layout : Layout)
    (hid : s.heaps.base id = Heaps.systemHeap) (hl : Source.servable layout = true)
    (unused : ∀ p ∈ s.out, p.lease.address ≠ address) :
    ∃ hs', Nested hs' ∧ Step s
      { s with heaps := hs', entering := ⟨⟨id, address, layout⟩, []⟩ ::ₘ s.entering } := by
  have hserves : (s.heaps.servingAt address).Serves := h.serves
  obtain ⟨b, hs', hserve⟩ := hserves.served hl true
  have hinner : ∀ t, hs'.inner? t = s.heaps.inner? t := (Heaps.alike_serve hserve).1.inner
  have hserved := Step.served (fun p hp he => unused p hp (congrArg Prod.snd he)) (hid ▸ hserve)
  rw [Heaps.address_of_served hserve] at hserved
  exact ⟨hs', h.congr (hserves.serve hserve) hinner, hserved⟩

theorem Nested.lend (h : Nested s.heaps) (address : Nat) (layout : Layout)
    (hl : Source.servable layout = true) (unused : ∀ p ∈ s.out, p.lease.address ≠ address) :
    ∃ hs', Nested hs' ∧ Relation.ReflTransGen Step s
      { s with heaps := hs', owned := ⟨1, address, layout⟩ ::ₘ s.owned,
               deals := .lent ⟨1, address, layout⟩ :: s.deals } := by
  obtain ⟨hs₁, h₁, hserved⟩ := h.serve 1 address layout (congrArg Prod.snd h.inner) hl unused
  have hlent : Relation.ReflTransGen Step
      { s with heaps := hs₁, entering := ⟨⟨1, address, layout⟩, []⟩ ::ₘ s.entering } _ :=
    steps_lend rfl
  exact ⟨_, h₁.recordAll _ address layout, hlent.head hserved⟩

end Nested

/-- A tracking heap with call stacks around the machine's memory, and another one around it. -/
def nestedHeaps : Heaps :=
  ((Heaps.initial.addTracking Heaps.systemHeap true).2.addTracking 1 false).2

theorem nested_nestedHeaps : Nested nestedHeaps := by
  have hserves : nestedHeaps.Serves := ⟨_, _, _, _, rfl⟩
  have hinner : nestedHeaps.layers 1 = ([1], Heaps.systemHeap) := by
    rw [Heaps.layers_of_some (rfl : nestedHeaps.inner? 1 = some Heaps.systemHeap), hserves.layers]
  refine ⟨hserves, hinner, ?_⟩
  rw [Heaps.layers_of_some (rfl : nestedHeaps.inner? 2 = some 1), hinner]

theorem fresh_nestedHeaps :
    ∀ t callstacks books, nestedHeaps.Tracks t callstacks books → books = {} := by
  rintro (_ | _ | _ | t) callstacks books ⟨name, inner, holders, hg⟩
  · cases hg
  · cases hg
    rfl
  · cases hg
    rfl
  · cases hg

/-- One client obtains and frees a block and gets another one at its address, all while the block of
    another client is on its way. -/
theorem exists_overtaking : ∃ s, Run nestedHeaps s ∧ Nested s.heaps ∧ s.entering = 0 ∧ s.leaving = 0 ∧
    s.owned = ⟨2, 5, ⟨16, 8⟩⟩ ::ₘ ⟨1, 9, ⟨4, 8⟩⟩ ::ₘ 0 ∧
      lent s.deals = ⟨2, 5, ⟨16, 8⟩⟩ ::ₘ ⟨1, 9, ⟨4, 8⟩⟩ ::ₘ ⟨1, 9, ⟨3, 8⟩⟩ ::ₘ 0 := by
  let a : Lease := ⟨2, 5, ⟨16, 8⟩⟩
  let b : Lease := ⟨1, 9, ⟨3, 8⟩⟩
  let c : Lease := ⟨1, 9, ⟨4, 8⟩⟩
  have h₀ : Nested nestedHeaps := nested_nestedHeaps
  obtain ⟨hs₁, h₁, hserved⟩ := Nested.serve (s := { heaps := nestedHeaps }) h₀ 2 5 ⟨16, 8⟩
    (congrArg Prod.snd h₀.outer) rfl (by simp [out])
  let s₁ : Traffic := { heaps := hs₁, entering := ⟨a, []⟩ ::ₘ 0 }
  obtain ⟨hs₂, h₂, hlent⟩ := Nested.lend (s := s₁) h₁ 9 ⟨3, 8⟩ rfl (by simp [s₁, a, out])
  have hfreed : Relation.ReflTransGen Step
      { s₁ with heaps := hs₂, owned := b ::ₘ 0, deals := [.lent b] } _ :=
    steps_free (show _ = b ::ₘ (0 : Multiset Lease) from rfl)
  have h₃ := h₂.free 1 9
  let s₃ : Traffic := { s₁ with heaps := (hs₂.free 1 9).1, deals := [.returned b, .lent b],
                                notices := (hs₂.free 1 9).2 }
  obtain ⟨hs₄, h₄, hlent'⟩ := Nested.lend (s := s₃) h₃ 9 ⟨4, 8⟩ rfl (by simp [s₃, s₁, a, out])
  have hlast : Relation.ReflTransGen Step
      { s₃ with heaps := hs₄, owned := c ::ₘ 0, deals := [.lent c, .returned b, .lent b] } _ :=
    steps_lend (show _ = ⟨a, []⟩ ::ₘ (0 : Multiset Passage) from rfl)
  have hrun := ((((Relation.ReflTransGen.single hserved).trans hlent).trans hfreed).trans hlent').trans
    hlast
  exact ⟨_, hrun, h₄.recordAll (hs₄.trackers 2) 5 ⟨16, 8⟩, rfl, rfl, rfl, rfl⟩

/-- The heap inside has two of the three blocks that it handed out in its books then. -/
theorem accurate_of_overtaking : ∃ s books, Run nestedHeaps s ∧ s.entering = 0 ∧ s.leaving = 0 ∧
    Accurate s ∧ s.heaps.books? 1 = some books ∧ books.count = 2 ∧ books.bytes = 20 ∧
      books.total = 3 := by
  obtain ⟨s, hrun, hnested, hentering, hleaving, howned, hlent⟩ := exists_overtaking
  have hinner : s.heaps.trackers 1 = [1] := congrArg Prod.fst hnested.inner
  have houter : s.heaps.trackers 2 = [2, 1] := congrArg Prod.fst hnested.outer
  have haccurate := Run.accurate fresh_nestedHeaps hrun
  obtain ⟨callstacks, books, ht⟩ := Heaps.exists_tracks_of_mem (hinner ▸ List.mem_singleton_self 1)
  obtain ⟨-, -, hcount, hbytes, htotal⟩ := haccurate.balanced hentering hleaving 1 callstacks books ht
  unfold through at hcount hbytes
  refine ⟨s, books, hrun, hentering, hleaving, haccurate, ht.books?_eq, ?_, ?_, ?_⟩
  · rw [hcount, howned]
    simp [hinner, houter, Multiset.filter_singleton]
  · rw [hbytes, howned]
    simp [hinner, houter, Multiset.filter_singleton]
  · have hfits : 3 < Size.max + 1 := by decide
    rw [htotal, hlent]
    simp [hinner, houter, Multiset.filter_singleton, hfits]

end Traffic

end FilePipeline
