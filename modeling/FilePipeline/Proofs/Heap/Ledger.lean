import FilePipeline.Proofs.Heap.Records
import FilePipeline.Proofs.Heap.Serving
import Mathlib.Data.Multiset.AddSub
import Mathlib.Data.Multiset.Filter
import Mathlib.Data.Multiset.MapFold
import Mathlib.Data.Multiset.ZeroCons

/-! # Who owns which block

A `Lease` is a block as its owner knows it: the heap it came from, its address and its layout.
`Ledger hs m` says that the leases `m` are all that is out: no address is leased twice, and the
books of each tracking heap hold exactly the blocks that were asked for through it, each once. A
block that is handed out enters the ledger (`Ledger.lend`), and one that is given back leaves it
(`Ledger.giveBack`).

`Trades` is any number of such dealings in a row, with the list of them. Only what is owned can be
given back, so each block that was lent is either still owned or was returned, and no block was
returned twice (`Trades.balance`, `Trades.once`). -/

namespace FilePipeline

/-- A block as its owner knows it. -/
structure Lease where
  heap : HeapId
  address : Nat
  layout : Layout
  deriving DecidableEq, Repr

/-- The block under a buffer. -/
def Buffer.lease (b : Buffer) : Lease := ⟨b.heap, b.address, b.layout⟩

/-- The entry of a block in the books. -/
def Lease.entry (l : Lease) : Nat × Nat := (l.address, l.layout.size)

namespace Heaps

variable {hs hs' hs₁ hs₂ : Heaps} {id : HeapId} {n align : Nat} {b : Buffer} {e : AllocError}
  {m m' m₁ rest : Multiset Lease}

/-! ### The ledger -/

/-- The leases `m` are all that is out. -/
structure Ledger (hs : Heaps) (m : Multiset Lease) : Prop where
  distinct : (m.map Lease.address).Nodup
  old : ∀ l ∈ m, l.address < hs.nextAddress
  books : ∀ t books, hs.books? t = some books → (books.entries : Multiset (Nat × Nat)) =
    (m.filter fun l => t ∈ hs.trackers l.heap).map Lease.entry

theorem ledger_zero (h : ∀ t books, hs.books? t = some books → books.live = []) : Ledger hs 0 := by
  refine ⟨Multiset.nodup_zero, fun l hl => absurd hl (Multiset.notMem_zero l), fun t books hb => ?_⟩
  unfold Books.entries
  rw [h t books hb]
  rfl

theorem ledger_initial : Ledger .initial 0 :=
  ledger_zero fun t books h => by rcases t with _ | t <;> cases h

theorem Ledger.alike (h : Ledger hs m) (ha : Alike hs hs') (hn : hs'.nextAddress = hs.nextAddress) :
    Ledger hs' m := by
  refine ⟨h.distinct, fun l hl => by rw [hn]; exact h.old l hl, fun t books hb => ?_⟩
  rw [h.books t books ((ha.books t).symm.trans hb)]
  simp only [trackers_congr ha.inner]

theorem filter_entries {address : Nat} (h : ∀ l ∈ m, l.address ≠ address) :
    (m.map Lease.entry).filter (·.1 ≠ address) = m.map Lease.entry := by
  refine Multiset.filter_eq_self.mpr fun x hx => ?_
  obtain ⟨l, hl, rfl⟩ := Multiset.mem_map.mp hx
  exact h l hl

/-- A block that is handed out enters the ledger. -/
theorem Ledger.lend (h : Ledger hs m) (hn : hs.newBuffer id n align = (.ok b, hs')) :
    Ledger hs' (b.lease ::ₘ m) := by
  obtain ⟨⟨_, he⟩, -⟩ | ⟨b', hb, hheap, haddress, hnext, hinner, hbooks⟩ := newBuffer_cases hn
  · cases he
  obtain rfl : b = b' := Except.ok.inj hb
  have hnew : ∀ l ∈ m, l.address ≠ b.address := fun l hl =>
    Nat.ne_of_lt (haddress ▸ h.old l hl)
  refine ⟨?_, fun l hl => ?_, fun t books ht => ?_⟩
  · rw [Multiset.map_cons]
    refine Multiset.nodup_cons.mpr ⟨fun hmem => ?_, h.distinct⟩
    obtain ⟨l, hl, he⟩ := Multiset.mem_map.mp hmem
    exact hnew l hl he
  · rw [hnext]
    rcases Multiset.mem_cons.mp hl with rfl | hl
    · exact Nat.lt_succ_of_le (Nat.le_of_eq haddress)
    · exact Nat.lt_succ_of_lt (h.old l hl)
  · obtain ⟨old, hold, hentries⟩ := hbooks t books ht
    have hold := h.books t old hold
    simp only [trackers_congr hinner]
    rw [hentries]
    split
    · next hmem =>
      rw [Multiset.filter_cons_of_pos _ (by rw [← hheap] at hmem; exact hmem), Multiset.map_cons,
        ← Multiset.cons_coe, ← Multiset.filter_coe, hold,
        filter_entries fun l hl => hnew l (Multiset.mem_of_mem_filter hl)]
      rfl
    · next hmem =>
      rw [Multiset.filter_cons_of_neg _ (by rw [← hheap] at hmem; exact hmem), hold]

theorem Ledger.refuse (h : Ledger hs m) (hn : hs.newBuffer id n align = (.error e, hs')) :
    Ledger hs' m := by
  obtain ⟨-, halike, hnext⟩ | ⟨b, hb, -⟩ := newBuffer_cases hn
  · exact h.alike halike hnext
  · cases hb

/-- A block that is given back leaves the ledger. -/
theorem Ledger.giveBack (h : Ledger hs (b.lease ::ₘ m)) : Ledger (hs.dropBuffer b).1 m := by
  obtain ⟨hnext, hinner, hbooks⟩ := rewrites_dropBuffer hs b
  have hdistinct := h.distinct
  rw [Multiset.map_cons, Multiset.nodup_cons] at hdistinct
  have hother : ∀ l ∈ m, l.address ≠ b.address := fun l hl he =>
    hdistinct.1 (Multiset.mem_map.mpr ⟨l, hl, he⟩)
  refine ⟨hdistinct.2, fun l hl => ?_, fun t books ht => ?_⟩
  · rw [hnext]
    exact h.old l (Multiset.mem_cons_of_mem hl)
  · obtain ⟨old, hold, hentries⟩ := hbooks t books ht
    have hold := h.books t old hold
    simp only [trackers_congr hinner]
    rw [hentries]
    split
    · next hmem =>
      rw [Multiset.filter_cons_of_pos (p := fun l : Lease => t ∈ hs.trackers l.heap) _ hmem,
        Multiset.map_cons] at hold
      rw [← Multiset.filter_coe, hold, Multiset.filter_cons_of_neg
          (p := fun e : Nat × Nat => e.1 ≠ b.address) _ fun hne => hne rfl,
        filter_entries fun l hl => hother l (Multiset.mem_of_mem_filter hl)]
    · next hmem =>
      rw [Multiset.filter_cons_of_neg (p := fun l : Lease => t ∈ hs.trackers l.heap) _ hmem] at hold
      exact hold

theorem Ledger.quiet (h : Ledger hs (b.lease ::ₘ m)) : (hs.free b.heap b.address).2 = [] := by
  refine unrecord_quiet [] (nodup_trackers hs b.heap) fun t ht books hb => ?_
  refine (Books.has_iff books b.address).mpr ⟨b.lease.entry, ?_, rfl⟩
  have hmem : b.lease.entry ∈ (books.entries : Multiset (Nat × Nat)) := by
    rw [h.books t books hb]
    exact Multiset.mem_map_of_mem _ (Multiset.mem_filter.mpr ⟨Multiset.mem_cons_self _ _, ht⟩)
  exact hmem

/-! ### Dealings with the heaps -/

/-- What an owner of blocks does with the heaps. -/
inductive Deal where
  | lent (l : Lease)
  | returned (l : Lease)

/-- The blocks that were handed out. -/
def lent : List Deal → Multiset Lease
  | [] => 0
  | .lent l :: ds => l ::ₘ lent ds
  | .returned _ :: ds => lent ds

/-- The blocks that were given back. -/
def returned : List Deal → Multiset Lease
  | [] => 0
  | .lent _ :: ds => returned ds
  | .returned l :: ds => l ::ₘ returned ds

/-- `Trades hs m ds hs' m'`: from the heaps `hs` on, owners of the blocks `m` allocate and drop
    buffers, and own the blocks `m'` in the end. The list `ds` has what they did, the last first. A
    buffer is dropped by an owner only, and all books know its block then. -/
inductive Trades (hs : Heaps) (m : Multiset Lease) : List Deal → Heaps → Multiset Lease → Prop
  | start : Trades hs m [] hs m
  | lent {ds : List Deal} {hs₁ hs₂ : Heaps} {m₁ : Multiset Lease} {id : HeapId} {n align : Nat}
      {b : Buffer} (h : Trades hs m ds hs₁ m₁)
      (hn : hs₁.newBuffer id n align = (.ok b, hs₂)) :
      Trades hs m (.lent b.lease :: ds) hs₂ (b.lease ::ₘ m₁)
  | refused {ds : List Deal} {hs₁ hs₂ : Heaps} {m₁ : Multiset Lease} {id : HeapId} {n align : Nat}
      {e : AllocError} (h : Trades hs m ds hs₁ m₁)
      (hn : hs₁.newBuffer id n align = (.error e, hs₂)) : Trades hs m ds hs₂ m₁
  | returned {ds : List Deal} {hs₁ : Heaps} {m₁ : Multiset Lease} {b : Buffer}
      (h : Trades hs m ds hs₁ (b.lease ::ₘ m₁)) (known : (hs₁.free b.heap b.address).2 = []) :
      Trades hs m (.returned b.lease :: ds) (hs₁.dropBuffer b).1 m₁

variable {ds ds' : List Deal}

theorem Trades.trans (h : Trades hs m ds hs₁ m₁) (h' : Trades hs₁ m₁ ds' hs' m') :
    Trades hs m (ds' ++ ds) hs' m' := by
  induction h' with
  | start => exact h
  | lent _ hn ih => exact ih.lent hn
  | refused _ hn ih => exact ih.refused hn
  | returned _ known ih => exact ih.returned known

theorem Trades.ledger (h₀ : Ledger hs m) (h : Trades hs m ds hs' m') : Ledger hs' m' := by
  induction h with
  | start => exact h₀
  | lent _ hn ih => exact ih.lend hn
  | refused _ hn ih => exact ih.refuse hn
  | returned _ _ ih => exact ih.giveBack

theorem Trades.giveBack (h₀ : Ledger hs m) (h : Trades hs m ds hs₁ (b.lease ::ₘ m₁)) :
    Trades hs m (.returned b.lease :: ds) (hs₁.dropBuffer b).1 m₁ :=
  h.returned (h.ledger h₀).quiet

/-- What was owned or lent is owned or was returned. -/
theorem Trades.balance (h : Trades hs m ds hs' m') :
    m + Heaps.lent ds = m' + Heaps.returned ds := by
  induction h with
  | start => rfl
  | @lent ds _ _ m₁ _ _ _ b _ _ ih =>
    show m + (b.lease ::ₘ Heaps.lent ds) = b.lease ::ₘ m₁ + Heaps.returned ds
    rw [Multiset.add_cons, ih, Multiset.cons_add]
  | refused _ _ ih => exact ih
  | @returned ds _ m₁ b _ _ ih =>
    show m + Heaps.lent ds = m₁ + (b.lease ::ₘ Heaps.returned ds)
    rw [ih, Multiset.cons_add, Multiset.add_cons]

theorem Trades.serves (h₀ : Serves hs) (h : Trades hs m ds hs' m') : Serves hs' := by
  induction h with
  | start => exact h₀
  | lent _ hn ih => exact Serves.of_newBuffer ih hn
  | refused _ hn ih => exact Serves.of_newBuffer ih hn
  | returned _ _ ih => exact Serves.dropBuffer ih _

/-- No address is lent twice, and none that was owned before. -/
theorem Trades.once (h₀ : Ledger hs m) (h : Trades hs m ds hs' m') :
    ((m + Heaps.lent ds).map Lease.address).Nodup ∧
      ∀ l ∈ m + Heaps.lent ds, l.address < hs'.nextAddress := by
  induction h with
  | start =>
    rw [show m + Heaps.lent [] = m from Multiset.add_zero m]
    exact ⟨h₀.distinct, h₀.old⟩
  | @lent ds hs₁ hs₂ m₁ _ _ _ b _ hn ih =>
    obtain ⟨⟨_, he⟩, -⟩ | ⟨b', hb, -, haddress, hnext, -⟩ := newBuffer_cases hn
    · cases he
    obtain rfl : b = b' := Except.ok.inj hb
    obtain ⟨hnodup, hold⟩ := ih
    show ((m + (b.lease ::ₘ Heaps.lent ds)).map Lease.address).Nodup ∧
      ∀ l ∈ m + (b.lease ::ₘ Heaps.lent ds), _
    rw [Multiset.add_cons, Multiset.map_cons, Multiset.nodup_cons, hnext]
    refine ⟨⟨fun hmem => ?_, hnodup⟩, fun l hl => ?_⟩
    · obtain ⟨l, hl, he⟩ := Multiset.mem_map.mp hmem
      exact absurd (hold l hl) (by rw [he]; exact Nat.not_lt_of_le (Nat.le_of_eq haddress.symm))
    · rcases Multiset.mem_cons.mp hl with rfl | hl
      · exact Nat.lt_succ_of_le (Nat.le_of_eq haddress)
      · exact Nat.lt_succ_of_lt (hold l hl)
  | refused _ hn ih =>
    obtain ⟨-, -, hnext⟩ | ⟨b, hb, -⟩ := newBuffer_cases hn
    · rw [hnext]
      exact ih
    · cases hb
  | @returned _ hs₁ _ b _ _ ih =>
    rw [(rewrites_dropBuffer hs₁ b).1]
    exact ih

/-- Owners of the blocks `m` have done something with the heaps, and own `m'` in the end. -/
def Traded (hs : Heaps) (m : Multiset Lease) (hs' : Heaps) (m' : Multiset Lease) : Prop :=
  ∃ ds, Trades hs m ds hs' m'

theorem Traded.refl (hs : Heaps) (m : Multiset Lease) : Traded hs m hs m := ⟨[], .start⟩

theorem Traded.trans (h : Traded hs m hs₁ m₁) (h' : Traded hs₁ m₁ hs' m') : Traded hs m hs' m' := by
  obtain ⟨ds, h⟩ := h
  obtain ⟨ds', h'⟩ := h'
  exact ⟨ds' ++ ds, h.trans h'⟩

theorem Traded.ledger (h₀ : Ledger hs m) (h : Traded hs m hs' m') : Ledger hs' m' := by
  obtain ⟨ds, h⟩ := h
  exact h.ledger h₀

theorem traded_newBuffer (m : Multiset Lease) (hn : hs.newBuffer id n align = (.ok b, hs')) :
    Traded hs m hs' (b.lease ::ₘ m) :=
  ⟨_, .lent .start hn⟩

theorem traded_refused (m : Multiset Lease) (hn : hs.newBuffer id n align = (.error e, hs')) :
    Traded hs m hs' m :=
  ⟨_, .refused .start hn⟩

theorem traded_dropBuffer (h : Ledger hs (b.lease ::ₘ m)) :
    Traded hs (b.lease ::ₘ m) (hs.dropBuffer b).1 m :=
  ⟨_, .giveBack h .start⟩

end Heaps

end FilePipeline
