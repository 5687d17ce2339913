import FilePipeline.Proofs.Heap.Ledger
import Mathlib.Logic.Relation

/-! # Heaps in common use

Any number of clients allocate from heaps and free what they own, all at the same time. An allocation is
one step at the source and then one for each tracking heap that the request has passed, innermost first,
in which the block gets into its books; a free is one step for each of them, outermost first, in which the
block is taken out of its books, and then one at the source. Between two steps of a client the others may
make any steps of theirs (`Traffic.Step`, `Traffic.Run`).

A source decides for itself what it serves. No two requests find it with the same history, so any decisions
in a row can be its own. The address of a block may be any at which no block of the source is out, so also
that of one that came back a moment ago. A client that nobody interrupts does what `allocate` or
`free` does (`steps_allocate`, `step_refused`, `steps_free`). -/

namespace FilePipeline

namespace Heaps

/-- The heap that the requests to a heap end at. -/
def base (hs : Heaps) (id : HeapId) : HeapId := (hs.layers id).2

/-- The heaps when the next block served is to be at this address. -/
def servingAt (hs : Heaps) (address : Nat) : Heaps := { hs with nextAddress := address }

/-- The source of a block, and its address there. -/
def place (hs : Heaps) (l : Lease) : HeapId × Nat := (hs.base l.heap, l.address)

/-- A request that is refused has got no further than the source. -/
theorem serve_of_refused {hs hs' : Heaps} {id : HeapId} {layout : Layout} {zeroed : Bool}
    {e : AllocError} (h : hs.allocate id layout zeroed = (.error e, hs')) :
    hs.serve (hs.base id) layout zeroed = (.error e, hs') := by
  unfold allocate at h
  dsimp only at h
  split at h
  · next hserve =>
    cases h
    exact hserve
  · cases h

end Heaps

/-- A block that a source has served, and the tracking heaps that have it in their books. -/
structure Passage where
  lease : Lease
  keepers : List HeapId

/-- A block as it is while a client owns it: in the books of all tracking heaps around it. -/
def Lease.kept (hs : Heaps) (l : Lease) : Passage := ⟨l, hs.trackers l.heap⟩

open Heaps (Deal)

/-- Heaps and the blocks that are out. -/
structure Traffic where
  heaps : Heaps
  /-- Blocks on their way to a client. -/
  entering : Multiset Passage := 0
  owned : Multiset Lease := 0
  /-- Blocks that a client has given back and that the source has not got yet. -/
  leaving : Multiset Passage := 0
  /-- What clients have obtained and given back so far, the last first. -/
  deals : List Deal := []
  /-- What was noticed when blocks were given back. -/
  notices : List Notice := []

namespace Traffic

/-- The blocks that sources have served and not got back. -/
def out (s : Traffic) : Multiset Passage := s.entering + s.owned.map (Lease.kept s.heaps) + s.leaving

/-- One step of some client. -/
inductive Step (s : Traffic) : Traffic → Prop
  /-- A source serves a block, from an address that is not taken. -/
  | served {id : HeapId} {layout : Layout} {zeroed : Bool} {address : Nat} {b : Block} {hs' : Heaps}
      (unused : ∀ p ∈ s.out, s.heaps.place p.lease ≠ (s.heaps.base id, address))
      (h : (s.heaps.servingAt address).serve (s.heaps.base id) layout zeroed = (.ok b, hs')) :
      Step s { s with heaps := hs', entering := ⟨⟨id, b.address, layout⟩, []⟩ ::ₘ s.entering }
  /-- A source refuses a request. That is all that the tracking heaps hear of it. -/
  | refused {id : HeapId} {layout : Layout} {zeroed : Bool} {e : AllocError} {hs' : Heaps}
      (h : s.heaps.serve (s.heaps.base id) layout zeroed = (.error e, hs')) :
      Step s { s with heaps := hs' }
  | recorded {l : Lease} {ahead keepers : List HeapId} {t : HeapId} {rest : Multiset Passage}
      (h : s.entering = ⟨l, keepers⟩ ::ₘ rest)
      (next : s.heaps.trackers l.heap = ahead ++ t :: keepers) :
      Step s { s with heaps := s.heaps.record t l.address l.layout,
                      entering := ⟨l, t :: keepers⟩ ::ₘ rest }
  | lent {l : Lease} {rest : Multiset Passage} (h : s.entering = l.kept s.heaps ::ₘ rest) :
      Step s { s with entering := rest, owned := l ::ₘ s.owned, deals := .lent l :: s.deals }
  | returned {l : Lease} {rest : Multiset Lease} (h : s.owned = l ::ₘ rest) :
      Step s { s with owned := rest, leaving := l.kept s.heaps ::ₘ s.leaving,
                      deals := .returned l :: s.deals }
  | removed {l : Lease} {t : HeapId} {keepers : List HeapId} {rest : Multiset Passage}
      (h : s.leaving = ⟨l, t :: keepers⟩ ::ₘ rest) :
      Step s { s with heaps := (s.heaps.unrecord t l.address).1, leaving := ⟨l, keepers⟩ ::ₘ rest,
                      notices := s.notices ++ (s.heaps.unrecord t l.address).2 }
  /-- A source gets its block. From now on the address may be used again. -/
  | freed {l : Lease} {rest : Multiset Passage} (h : s.leaving = ⟨l, []⟩ ::ₘ rest) :
      Step s { s with leaving := rest }

/-- The steps of any number of clients, in any order. Tracking heaps set up later are there from the
    start, and not used yet. -/
def Run (hs : Heaps) (s : Traffic) : Prop := Relation.ReflTransGen Step { heaps := hs } s

/-! ### Clients that are not interrupted -/

section Uninterrupted
variable {s : Traffic} {id : HeapId} {layout : Layout} {zeroed : Bool} {hs' : Heaps}

theorem steps_record {l : Lease} {rest : Multiset Passage} (ahead keepers : List HeapId)
    (htrackers : s.heaps.trackers l.heap = ahead ++ keepers) (h : s.entering = ⟨l, []⟩ ::ₘ rest) :
    Relation.ReflTransGen Step s
      { s with heaps := s.heaps.recordAll keepers l.address l.layout,
               entering := ⟨l, keepers⟩ ::ₘ rest } := by
  induction keepers generalizing ahead with
  | nil =>
    rw [← h]
    exact .refl
  | cons t keepers ih =>
    have hbefore := ih (ahead ++ [t]) (by rw [htrackers, List.append_assoc]; rfl)
    have hinner := (Heaps.rewrites_record s.heaps keepers l.address l.layout).1
    exact hbefore.tail (.recorded rfl ((Heaps.trackers_congr hinner l.heap).trans htrackers))

theorem steps_lend {l : Lease} {rest : Multiset Passage} (h : s.entering = ⟨l, []⟩ ::ₘ rest) :
    Relation.ReflTransGen Step s
      { s with heaps := s.heaps.recordAll (s.heaps.trackers l.heap) l.address l.layout,
               entering := rest, owned := l ::ₘ s.owned, deals := .lent l :: s.deals } := by
  have hinner := (Heaps.rewrites_record s.heaps (s.heaps.trackers l.heap) l.address l.layout).1
  have hkept := congrArg (Passage.mk l) (Heaps.trackers_congr hinner l.heap)
  exact (steps_record [] _ rfl h).tail (.lent (congrArg (· ::ₘ rest) hkept.symm))

theorem steps_allocate {address : Nat} {b : Block}
    (unused : ∀ p ∈ s.out, s.heaps.place p.lease ≠ (s.heaps.base id, address))
    (h : (s.heaps.servingAt address).allocate id layout zeroed = (.ok b, hs')) :
    Relation.ReflTransGen Step s
      { s with heaps := hs', owned := ⟨id, b.address, layout⟩ ::ₘ s.owned,
               deals := .lent ⟨id, b.address, layout⟩ :: s.deals } := by
  have hinner : ∀ t, (s.heaps.servingAt address).inner? t = s.heaps.inner? t := fun _ => rfl
  unfold Heaps.allocate at h
  dsimp only at h
  rw [Heaps.layers_congr hinner] at h
  split at h
  · cases h
  · next b hs₁ hserve =>
    cases h
    have htrackers : hs₁.trackers id = s.heaps.trackers id :=
      (Heaps.trackers_congr (Heaps.alike_serve hserve).1.inner id).trans
        (Heaps.trackers_congr hinner id)
    let s₁ : Traffic :=
      { s with heaps := hs₁, entering := ⟨⟨id, b.address, layout⟩, []⟩ ::ₘ s.entering }
    have hserved : Step s s₁ := .served unused hserve
    have hlent := steps_lend (s := s₁) rfl
    dsimp only [s₁] at hlent
    rw [htrackers] at hlent
    exact hlent.head hserved

theorem step_refused {e : AllocError} (h : s.heaps.allocate id layout zeroed = (.error e, hs')) :
    Step s { s with heaps := hs' } :=
  .refused (Heaps.serve_of_refused h)

theorem steps_remove {l : Lease} {rest : Multiset Passage} (keepers : List HeapId)
    (r : Heaps × List Notice) :
    Relation.ReflTransGen Step
      { s with heaps := r.1, leaving := ⟨l, keepers⟩ ::ₘ rest, notices := s.notices ++ r.2 }
      { s with heaps := (Heaps.unrecordAll r keepers l.address).1, leaving := ⟨l, []⟩ ::ₘ rest,
               notices := s.notices ++ (Heaps.unrecordAll r keepers l.address).2 } := by
  induction keepers generalizing r with
  | nil => exact .refl
  | cons t keepers ih =>
    have hremoved : Step
        { s with heaps := r.1, leaving := ⟨l, t :: keepers⟩ ::ₘ rest, notices := s.notices ++ r.2 } _ :=
      .removed rfl
    rw [List.append_assoc] at hremoved
    exact (ih ((r.1.unrecord t l.address).1, r.2 ++ (r.1.unrecord t l.address).2)).head hremoved

theorem steps_free {l : Lease} {rest : Multiset Lease} (h : s.owned = l ::ₘ rest) :
    Relation.ReflTransGen Step s
      { s with heaps := (s.heaps.free l.heap l.address).1, owned := rest,
               deals := .returned l :: s.deals,
               notices := s.notices ++ (s.heaps.free l.heap l.address).2 } := by
  let s₁ : Traffic := { s with owned := rest, deals := .returned l :: s.deals }
  have hreturned := Step.returned h
  have hremoved : Relation.ReflTransGen Step
      { s₁ with leaving := l.kept s.heaps ::ₘ s.leaving, notices := s.notices ++ [] } _ :=
    steps_remove (s.heaps.trackers l.heap) (s.heaps, [])
  rw [List.append_nil] at hremoved
  rw [Heaps.free_eq]
  exact (hremoved.head hreturned).tail (.freed rfl)

end Uninterrupted

end Traffic

end FilePipeline
