import FilePipeline.Proofs.Heap.Buffers
import FilePipeline.Proofs.Heap.Records
import FilePipeline.Work

/-! # Errands

All that the pipeline does to heaps is that it asks one for a buffer and that it gives a buffer back
(`Errand`). `Asked hs ms hs'` says that such errands lead from the heaps `hs` to `hs'`, and that `ms` are all
the requests made on them. Whether a buffer is granted depends on the source that the request ends at, which
keeps it in its history in any case; it sees no other requests (`Asked.seen`). -/

namespace FilePipeline

/-- A request for a block, by the heap it is made to. -/
structure Demand where
  heap : HeapId
  layout : Layout
  deriving DecidableEq, Repr

/-- The request by which a buffer was got. -/
def Buffer.demand (b : Buffer) : Demand := ⟨b.heap, b.layout⟩

namespace Heaps

/-- What is done to heaps. -/
inductive Errand where
  | ask (heap : HeapId) (capacity align : Nat)
  | giveBack (b : Buffer)

namespace Errand

/-- The heaps afterwards. -/
def run (hs : Heaps) : Errand → Heaps
  | .ask heap capacity align => (hs.newBuffer heap capacity align).2
  | .giveBack b => (hs.dropBuffer b).1

def demand? : Errand → Option Demand
  | .ask heap capacity align => some ⟨heap, Buffer.layoutOf capacity align⟩
  | .giveBack _ => none

end Errand

/-- The heaps after errands. -/
def errands (hs : Heaps) (es : List Errand) : Heaps := es.foldl Errand.run hs

/-- The requests that were made on errands. -/
def demands (es : List Errand) : List Demand := es.filterMap Errand.demand?

variable {hs hs' : Heaps} {id t : HeapId}

/-- Errands with the requests `ms`, and no others, lead from `hs` to `hs'`. -/
def Asked (hs : Heaps) (ms : List Demand) (hs' : Heaps) : Prop :=
  ∃ es, hs' = hs.errands es ∧ demands es = ms

namespace Asked

variable {ms ms' : List Demand} {hs'' : Heaps}

theorem refl (hs : Heaps) : Asked hs [] hs := ⟨[], rfl, rfl⟩

theorem trans (h : Asked hs ms hs') (h' : Asked hs' ms' hs'') : Asked hs (ms ++ ms') hs'' := by
  obtain ⟨es, rfl, rfl⟩ := h
  obtain ⟨es', rfl, rfl⟩ := h'
  exact ⟨es ++ es', List.foldl_append.symm, List.filterMap_append⟩

theorem ask {n align : Nat} {r : Except AllocError Buffer} (h : hs.newBuffer id n align = (r, hs')) :
    Asked hs [⟨id, Buffer.layoutOf n align⟩] hs' :=
  ⟨[.ask id n align], (congrArg Prod.snd h).symm, rfl⟩

theorem giveBack (h : Asked hs ms hs') (b : Buffer) : Asked hs ms (hs'.dropBuffer b).1 := by
  have hdrop : Asked hs' [] (hs'.dropBuffer b).1 := ⟨[.giveBack b], rfl, rfl⟩
  have hboth := h.trans hdrop
  rwa [List.append_nil] at hboth

theorem drop (h : Asked hs ms hs') (b : WorkBuffer) : Asked hs ms (b.drop hs').1 := by
  cases b with
  | owned b => exact h.giveBack b
  | none | caller => exact h

end Asked

theorem demand_newBuffer {n align : Nat} {b : Buffer} (h : hs.newBuffer id n align = (.ok b, hs')) :
    b.demand = ⟨id, Buffer.layoutOf n align⟩ := by
  obtain ⟨-, _, _, -, -, rfl⟩ := exists_block_of_newBuffer h
  rfl

/-! ### What sources see -/

/-- The requests that a source has seen, the last first. -/
def historyOf : HeapKind → List Request
  | .source _ history => history
  | .tracking .. => []

def history (hs : Heaps) (id : HeapId) : List Request :=
  ((hs.get? id).map fun h => historyOf h.kind).getD []

/-- A change of heaps that leaves all histories as they are, and each heap inside the same. -/
structure Unseen (hs hs' : Heaps) : Prop where
  inner : ∀ t, hs'.inner? t = hs.inner? t
  history : ∀ t, hs'.history t = hs.history t

theorem Unseen.refl (hs : Heaps) : Unseen hs hs := ⟨fun _ => rfl, fun _ => rfl⟩

theorem Unseen.trans {hs'' : Heaps} (h : Unseen hs hs') (h' : Unseen hs' hs'') : Unseen hs hs'' :=
  ⟨fun t => (h'.inner t).trans (h.inner t), fun t => (h'.history t).trans (h.history t)⟩

theorem unseen_modify {f : Heap → Heap} (hf : ∀ h, innerOf (f h).kind = innerOf h.kind ∧
    historyOf (f h).kind = historyOf h.kind) : Unseen hs (hs.modify id f) := by
  constructor
  · intro t
    rw [inner?_eq, inner?_eq, get?_modify]
    cases hs.get? t with
    | none => rfl
    | some h => by_cases he : t = id <;> simp [he, (hf h).1]
  · intro t
    unfold history
    rw [get?_modify]
    cases hs.get? t with
    | none => rfl
    | some h => by_cases he : t = id <;> simp [he, (hf h).2]

theorem unseen_modifyBooks (hs : Heaps) (id : HeapId) (f : Bool → Books → Books) :
    Unseen hs (hs.modifyBooks id f) := by
  refine unseen_modify fun h => ?_
  obtain ⟨name, kind, holders⟩ := h
  cases kind <;> exact ⟨rfl, rfl⟩

theorem unseen_retain (hs : Heaps) (id : HeapId) : Unseen hs (hs.retain id) :=
  unseen_modify fun _ => ⟨rfl, rfl⟩

theorem unseen_release (hs : Heaps) (id : HeapId) : Unseen hs (hs.release id).1 := by
  induction id using Nat.strongRecOn generalizing hs with
  | ind id ih =>
    unfold release
    split
    · exact .refl hs
    · have hfirst : Unseen hs (hs.modify id fun h => { h with holders := h.holders - 1 }) :=
        unseen_modify fun _ => ⟨rfl, rfl⟩
      dsimp only
      split
      · split
        · exact hfirst
        · next inner hi => exact hfirst.trans (ih inner (inner?_lt hi) _)
      · exact hfirst

theorem unseen_recordAll (hs : Heaps) (ts : List HeapId) (address : Nat) (l : Layout) :
    Unseen hs (hs.recordAll ts address l) :=
  recordAll_preserves (fun _ t f h => h.trans (unseen_modifyBooks _ t f)) ts address l (.refl hs)

theorem unseen_unrecordAll (r : Heaps × List Notice) (ts : List HeapId) (address : Nat) :
    Unseen r.1 (unrecordAll r ts address).1 :=
  unrecordAll_preserves (fun _ t f h => h.trans (unseen_modifyBooks _ t f)) ts address (.refl r.1)

theorem unseen_dropBuffer (hs : Heaps) (b : Buffer) : Unseen hs (hs.dropBuffer b).1 :=
  (unseen_unrecordAll (hs, []) _ b.address).trans (unseen_release _ b.heap)

/-- A source keeps what it is asked for in its history. -/
theorem history_serve {l : Layout} {zeroed : Bool} {r : Except AllocError Block}
    (h : hs.serve id l zeroed = (r, hs')) (t : HeapId) : hs'.history t = hs.history t ∨
      t = id ∧ ∃ served, hs'.history t = ⟨l, served⟩ :: hs.history t := by
  unfold serve at h
  split at h
  · next name s history holders hg =>
    have note : ∀ (hs₁ : Heaps) (served : Bool), hs₁.heaps = hs.heaps → ∀ hs₂, hs₂ = hs₁.modify id (fun h =>
        { h with kind := .source s (⟨l, served⟩ :: history) }) → hs₂.history t = hs.history t ∨
          t = id ∧ ∃ served, hs₂.history t = ⟨l, served⟩ :: hs.history t := by
      rintro hs₁ served hheaps _ rfl
      have hsame : hs₁.get? t = hs.get? t := congrArg (·[t]?) hheaps
      by_cases he : t = id
      · subst he
        refine Or.inr ⟨rfl, served, ?_⟩
        unfold Heaps.history
        rw [get?_modify, hsame, hg]
        simp [historyOf]
      · left
        unfold Heaps.history
        rw [get?_modify, hsame]
        simp [he]
    dsimp only at h
    split at h
    · cases h
      exact note _ false rfl _ rfl
    · cases h
      exact note { hs with nextAddress := hs.nextAddress + 1 } true rfl _ rfl
  · cases h
    exact Or.inl rfl

/-- What asking for a buffer does to histories. -/
theorem history_newBuffer (hs : Heaps) (id : HeapId) (n align : Nat) (t : HeapId) :
    (hs.newBuffer id n align).2.history t = hs.history t ∨
      t = (hs.layers id).2 ∧ ∃ served, (hs.newBuffer id n align).2.history t =
        ⟨Buffer.layoutOf n align, served⟩ :: hs.history t := by
  unfold newBuffer allocate
  dsimp only
  split
  · generalize hserve : hs.serve (hs.layers id).2 (Buffer.layoutOf n align) true = x
    obtain ⟨r, hs₁⟩ := x
    have hseen := history_serve hserve t
    cases r with
    | error e => exact hseen
    | ok block =>
      have hrest := ((unseen_recordAll hs₁ (hs.layers id).1 block.address
        (Buffer.layoutOf n align)).trans (unseen_retain _ id)).history t
      unfold recordAll at hrest
      dsimp only
      rw [hrest]
      exact hseen
  · exact Or.inl rfl

theorem inner?_newBuffer (hs : Heaps) (id : HeapId) (n align : Nat) (t : HeapId) :
    (hs.newBuffer id n align).2.inner? t = hs.inner? t := by
  obtain ⟨r, hs', hn⟩ : ∃ r hs', hs.newBuffer id n align = (r, hs') := ⟨_, _, rfl⟩
  rw [hn]
  rcases newBuffer_cases hn with ⟨-, halike, -⟩ | ⟨b, -, -, -, -, hrewrites⟩
  · exact halike.inner t
  · exact hrewrites.1 t

/-- The layouts that the requests at the source `t` ask for. -/
def endingAt (hs : Heaps) (t : HeapId) (ms : List Demand) : List Layout :=
  (ms.filter fun m => (hs.layers m.heap).2 == t).map Demand.layout

/-- What a source has seen during errands, the last first, was asked for on them. -/
theorem exists_seen (hs : Heaps) (es : List Errand) (t : HeapId) :
    ∃ seen, (hs.errands es).history t = seen ++ hs.history t ∧
      (seen.reverse.map Request.layout).Sublist (hs.endingAt t (demands es)) := by
  induction es generalizing hs with
  | nil => exact ⟨[], rfl, List.Sublist.refl _⟩
  | cons e es ih =>
    obtain ⟨seen, hhistory, hseen⟩ := ih (e.run hs)
    have hlater : (hs.errands (e :: es)).history t = seen ++ (e.run hs).history t := hhistory
    have hinner : ∀ t, (e.run hs).inner? t = hs.inner? t := by
      cases e with
      | ask heap n align => exact inner?_newBuffer hs heap n align
      | giveBack b => exact (unseen_dropBuffer hs b).inner
    have hend : (e.run hs).endingAt t (demands es) = hs.endingAt t (demands es) := by
      unfold endingAt
      simp only [layers_congr hinner]
    rw [hend] at hseen
    cases e with
    | giveBack b =>
      rw [hlater, show (Errand.run hs (.giveBack b)).history t = hs.history t from
        (unseen_dropBuffer hs b).history t]
      exact ⟨seen, rfl, hseen⟩
    | ask heap n align =>
      let m : Demand := ⟨heap, Buffer.layoutOf n align⟩
      have hdemands : demands (.ask heap n align :: es) = m :: demands es := rfl
      rw [hlater, hdemands]
      rcases history_newBuffer hs heap n align t with hsame | ⟨rfl, served, hnew⟩
      · refine ⟨seen, congrArg (seen ++ ·) hsame, hseen.trans ?_⟩
        exact ((List.sublist_cons_self m _).filter _).map _
      · refine ⟨seen ++ [⟨Buffer.layoutOf n align, served⟩], ?_, ?_⟩
        · rw [show (Errand.run hs (.ask heap n align)).history _ = _ from hnew, List.append_assoc]
          rfl
        · have hfirst : hs.endingAt (hs.layers heap).2 (m :: demands es) =
              m.layout :: hs.endingAt (hs.layers heap).2 (demands es) := by
            unfold endingAt
            rw [List.filter_cons, if_pos (beq_self_eq_true _), List.map_cons]
          rw [hfirst, List.reverse_append]
          exact hseen.cons_cons _

theorem Asked.seen {ms : List Demand} (h : Asked hs ms hs') (t : HeapId) :
    ∃ seen, hs'.history t = seen ++ hs.history t ∧
      (seen.reverse.map Request.layout).Sublist (hs.endingAt t ms) := by
  obtain ⟨es, rfl, rfl⟩ := h
  exact exists_seen hs es t

/-! ### Blocks that were given back -/

theorem has_dropBuffer {books : Books} (hs : Heaps) (b : Buffer)
    (ht : t ∈ (hs.dropBuffer b).1.trackers b.heap)
    (hb : (hs.dropBuffer b).1.books? t = some books) : books.has b.address = false := by
  obtain ⟨-, hinner, hrewrites⟩ := rewrites_dropBuffer hs b
  obtain ⟨old, -, hentries⟩ := hrewrites t books hb
  rw [trackers_congr hinner] at ht
  rw [if_pos ht] at hentries
  refine eq_false_of_ne_true fun hhas => ?_
  obtain ⟨e, he, haddress⟩ := (books.has_iff b.address).mp hhas
  rw [hentries] at he
  have hne := (List.mem_filter.mp he).2
  simp [haddress] at hne

end Heaps

end FilePipeline
