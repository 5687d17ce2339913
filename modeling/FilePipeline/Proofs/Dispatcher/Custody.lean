import FilePipeline.Proofs.Dispatcher.Balance
import FilePipeline.Proofs.Dispatcher.Placement
import FilePipeline.Proofs.Stage.Custody
import Mathlib.Data.Multiset.Bind

/-! # Blocks in custody

A dispatcher has in custody the blocks under the buffers of the work that it holds, and those under
the buffers that tickets refer to (`custody`). A step either leaves the heaps alone and passes
blocks on (`InBalance.passes`), or trades the blocks of the work at hand (`InBalance.trades`). -/

namespace FilePipeline

/-- The block that a piece of work owns. -/
def Work.leases (w : Work) : Multiset Lease := w.buffer.leases

namespace Ticket

/-- The block under the buffer that a ticket refers to. -/
def leases (t : Ticket) : Multiset Lease := t.holds.leases

/-- The block under a buffer that was taken over. -/
def takenLeases : Option Buffer → Multiset Lease
  | some b => {b.lease}
  | none => 0

variable {t : Ticket}

theorem holds_eq (t : Ticket) : t.holds = t.outcome.buffer := by
  unfold holds outcome look
  cases t.seen with
  | some o => rfl
  | none => cases t.slot <;> rfl

theorem leases_of_pending (h : t.Consistent) (hp : t.isDone = false) : t.leases = 0 := by
  unfold leases holds
  rw [h.seen_of_pending hp, h.slot_of_pending hp]
  rfl

theorem leases_publish (h : t.Consistent) (hp : t.isDone = false) (o : Outcome) :
    (t.publish o).leases = o.buffer.leases := by
  unfold leases
  rw [holds_eq, h.outcome_publish hp]

theorem leases_look (t : Ticket) : t.look.2.leases = t.leases := by
  unfold leases
  rw [holds_eq, outcome_look, holds_eq]

theorem leases_take (t : Ticket) : t.leases = takenLeases t.take.1 + t.take.2.leases := by
  unfold take
  split
  · exact (Multiset.zero_add _).symm
  · dsimp only
    split
    · next b hb =>
      unfold leases
      rw [holds_eq]
      unfold outcome
      rw [hb]
      rfl
    · rw [leases_look]
      exact (Multiset.zero_add _).symm

theorem leases_drop (t : Ticket) : t.drop.1.leases = t.leases ∧ t.drop.2.leases = 0 := by
  refine ⟨?_, rfl⟩
  unfold leases
  rw [holds_eq]
  rfl

end Ticket

namespace Dispatcher

variable {σ η κ : Type} {p : Setup σ η κ} {d d' d₁ : Dispatcher σ κ} {w w' : Work}
  {ws : Multiset Work} {ts : List Ticket} {m : Multiset Lease}

/-- The blocks of work and of tickets. -/
def claims (ws : Multiset Work) (ts : List Ticket) : Multiset Lease :=
  ws.bind Work.leases + (ts : Multiset Ticket).bind Ticket.leases

/-- The blocks that a dispatcher has in custody. -/
def custody (d : Dispatcher σ κ) : Multiset Lease := claims d.held d.tickets

theorem claims_cons (w : Work) (ws : Multiset Work) (ts : List Ticket) :
    claims (w ::ₘ ws) ts = w.leases + claims ws ts := by
  unfold claims
  rw [Multiset.cons_bind, add_assoc]

theorem claims_set {id : WorkId} {t : Ticket} (h : ts[id]? = some t) (ws : Multiset Work)
    (t' : Ticket) : ∃ rest, claims ws ts = t.leases + rest ∧
      claims ws (ts.set id t') = t'.leases + rest := by
  obtain ⟨hlt, hget⟩ := List.getElem?_eq_some_iff.mp h
  have hold : (ts : Multiset Ticket) = t ::ₘ ↑(ts.eraseIdx id) := by
    rw [Multiset.cons_coe, ← hget]
    exact Multiset.coe_eq_coe.mpr (List.getElem_cons_eraseIdx_perm hlt).symm
  have hnew : (ts.set id t' : Multiset Ticket) = t' ::ₘ ↑(ts.eraseIdx id) := by
    have hlt' : id < (ts.set id t').length := by rw [List.length_set]; exact hlt
    have hperm := List.getElem_cons_eraseIdx_perm hlt'
    rw [List.getElem_set_self, List.eraseIdx_set_eq] at hperm
    rw [Multiset.cons_coe]
    exact Multiset.coe_eq_coe.mpr hperm.symm
  refine ⟨ws.bind Work.leases + (↑(ts.eraseIdx id) : Multiset Ticket).bind Ticket.leases, ?_, ?_⟩
  · unfold claims
    rw [hold, Multiset.cons_bind, add_left_comm]
  · unfold claims
    rw [hnew, Multiset.cons_bind, add_left_comm]

/-! ### Ending work -/

theorem Balanced.claims_settle (h : Balanced (w ::ₘ ws) d.tickets d.stats)
    (r : Except WorkError Unit) : (d.settle w r).heaps = d.heaps ∧
      claims ws (d.settle w r).tickets = claims (w ::ₘ ws) d.tickets := by
  obtain ⟨t, ht, hp, -⟩ := h.pending_of_mem (Multiset.mem_cons_self w ws)
  have hc := h.consistent t (List.mem_of_getElem? ht)
  rw [settle_of_pending ht hp]
  refine ⟨rfl, ?_⟩
  obtain ⟨rest, hold, hnew⟩ := claims_set ht ws (t.publish (w.outcome r))
  rw [claims_cons, hold, Ticket.leases_of_pending hc hp, zero_add]
  show claims ws (d.tickets.set w.id _) = _
  rw [hnew, Ticket.leases_publish hc hp]
  rfl

theorem Balanced.claims_fail (h : Balanced (w ::ₘ ws) d.tickets d.stats) (e : WorkError) :
    (d.fail w e).heaps = d.heaps ∧
      claims ws (d.fail w e).tickets = claims (w ::ₘ ws) d.tickets :=
  Balanced.claims_settle (d := d.notice (.workFailed e)) h (.error e)

theorem Balanced.claims_foldl {f : Dispatcher σ κ → Work → Dispatcher σ κ}
    (hb : ∀ {d w ws}, Balanced (w ::ₘ ws) d.tickets d.stats →
      Balanced ws (f d w).tickets (f d w).stats)
    (hf : ∀ {d w ws}, Balanced (w ::ₘ ws) d.tickets d.stats → (f d w).heaps = d.heaps ∧
      claims ws (f d w).tickets = claims (w ::ₘ ws) d.tickets)
    {l : List Work} (h : Balanced ((l : Multiset Work) + ws) d.tickets d.stats) :
    (l.foldl f d).heaps = d.heaps ∧
      claims ws (l.foldl f d).tickets = claims ((l : Multiset Work) + ws) d.tickets := by
  induction l generalizing d with
  | nil =>
    refine ⟨rfl, ?_⟩
    rw [Multiset.coe_nil, zero_add]
    rfl
  | cons w l ih =>
    rw [← Multiset.cons_coe, Multiset.cons_add] at h ⊢
    obtain ⟨hheaps, hclaims⟩ := hf h
    obtain ⟨hheaps', hclaims'⟩ := ih (hb h)
    exact ⟨hheaps'.trans hheaps, hclaims'.trans hclaims⟩

theorem Balanced.claims_abandonAll {is : List (Item Work)}
    (h : Balanced ((Item.works is : Multiset Work) + ws) d.tickets d.stats) :
    (d.abandonAll is).heaps = d.heaps ∧ claims ws (d.abandonAll is).tickets =
      claims ((Item.works is : Multiset Work) + ws) d.tickets := by
  rw [abandonAll_eq]
  exact Balanced.claims_foldl (fun h => h.settle _) (fun h => h.claims_settle _) h

theorem Balanced.claims_failAll {is : List (Item Work)}
    (h : Balanced ((Item.works is : Multiset Work) + ws) d.tickets d.stats) :
    (d.failAll is).heaps = d.heaps ∧ claims ws (d.failAll is).tickets =
      claims ((Item.works is : Multiset Work) + ws) d.tickets := by
  rw [failAll_eq]
  exact Balanced.claims_foldl (fun h => h.fail _) (fun h => h.claims_fail _) h

/-! ### Steps that pass blocks on -/

/-- The heaps are left alone, and the blocks in custody are the same. -/
structure Passes (d d' : Dispatcher σ κ) : Prop where
  heaps : d'.heaps = d.heaps
  custody : d'.custody = d.custody

theorem passes_of_held (hheaps : d'.heaps = d.heaps) (hheld : d'.held = d.held)
    (htickets : d'.tickets = d.tickets) : d.Passes d' := by
  refine ⟨hheaps, ?_⟩
  unfold Dispatcher.custody
  rw [hheld, htickets]

theorem heaps_sendPill (d : Dispatcher σ κ) (s : Stage) : (d.sendPill s).heaps = d.heaps := by
  unfold sendPill
  split <;> rfl

theorem passes_leave {c : Dispatcher σ κ} {s : Stage} {items : List (Item Work)} {crashed : Bool}
    (h : Balanced ((Item.works items : Multiset Work) + c.held) c.tickets c.stats)
    (hheaps : c.heaps = d.heaps) (htickets : c.tickets = d.tickets)
    (hheld : d.held = (Item.works items : Multiset Work) + c.held)
    (ht : (c.tasks.get s).works = []) :
    d.Passes ((c.abandonAll items).setTask s (.gone crashed)) := by
  obtain ⟨hheaps', hclaims⟩ := h.claims_abandonAll
  have hend : ((c.abandonAll items).setTask s (.gone crashed)).held = c.held := by
    refine (held_setTask_of_works_eq ?_).trans (held_abandonAll items)
    rw [tasks_abandonAll, ht]
    rfl
  refine ⟨hheaps'.trans hheaps, ?_⟩
  unfold custody
  rw [hend, hheld, ← htickets]
  exact hclaims

theorem passes_close (h : d.InBalance) (s : Stage) :
    d.Passes ((d.setQueue s (d.queues.get s).close.2).failAll (d.queues.get s).items) := by
  unfold InBalance at h
  rw [held_close s] at h
  obtain ⟨hheaps, hclaims⟩ :=
    Balanced.claims_failAll (d := d.setQueue s (d.queues.get s).close.2) h
  refine ⟨hheaps, ?_⟩
  unfold custody
  rw [held_failAll, held_close (d := d) s]
  exact hclaims

/-- Where no work is processed, blocks are passed on at most. -/
theorem InBalance.passes {a : Action} (h : d.InBalance) (ht : Transition p d a d')
    (ha : ∀ s, a ≠ .process s) : d.Passes d' := by
  have hb := h
  unfold InBalance at h
  cases ht with
  | readied | ended | crashed => exact absurd rfl (ha _)
  | pushed hw hq => exact passes_of_held rfl (held_push hw hq) rfl
  | @turnedAway i s w hw hq =>
    rw [held_waiting hw] at h
    obtain ⟨hheaps, hclaims⟩ :=
      Balanced.claims_fail (d := { d with waiting := d.waiting.eraseIdx i }) h .abandoned
    refine ⟨hheaps, ?_⟩
    unfold custody
    rw [held_waiting hw]
    refine Eq.trans ?_ hclaims
    exact congrArg (claims · _)
      (held_fail (d := { d with waiting := d.waiting.eraseIdx i }) w .abandoned)
  | popped ht hq => exact passes_of_held rfl (held_pop ht hq) rfl
  | @poppedPill s q ht hq =>
    have hn : (d.afterPill s).works = ((d.setQueue s q).tasks.get s).works := by
      show _ = (d.tasks.get s).works
      rw [ht]
      unfold afterPill
      cases s
      · dsimp only; split <;> rfl
      · rfl
    refine passes_of_held rfl ?_ rfl
    rw [held_setTask_of_works_eq hn, held_setQueue_of_works_eq (Queue.works_pop_pill hq)]
  | handed ht hq => exact passes_of_held rfl (held_hand ht hq) rfl
  | @refused s w ht hq =>
    have hdrop := held_setTask_drop (t := .idle) (works_of_handing ht) rfl
    rw [hdrop] at h
    obtain ⟨hheaps, hclaims⟩ := Balanced.claims_settle h (.error .abandoned)
    refine ⟨hheaps, ?_⟩
    unfold custody abandon
    rw [hdrop, held_settle_setTask]
    exact hclaims
  | @relayedOn q ht hq =>
    obtain ⟨-, rfl⟩ := Queue.forward?_eq_some hq
    have hw := held_setQueue_of_works_eq (d := d) (s := .compression)
      (Queue.works_append_pill d.queues.compression false)
    refine passes_of_held rfl ((held_setTask_of_works_eq (s := .io) ?_).trans hw) rfl
    show _ = d.tasks.io.works
    rw [ht]; rfl
  | @relayedBack q ht hq =>
    obtain ⟨-, rfl⟩ := Queue.forward?_eq_some hq
    refine passes_of_held rfl ((held_setTask_of_works_eq (s := .compression) ?_).trans
      (held_setQueue_of_works_eq (Queue.works_append_pill _ false))) rfl
    show _ = d.tasks.compression.works
    rw [ht]; rfl
  | @relayRefused s ht hq =>
    exact passes_of_held rfl (held_setTask_of_works_eq (by rw [ht]; rfl)) rfl
  | @left s ht =>
    rw [held_close s] at h
    exact passes_leave (c := d.setQueue s (d.queues.get s).close.2) h rfl rfl (held_close s)
      (by show (d.tasks.get s).works = []; rw [ht]; rfl)
  | @leftCrashed s ht =>
    have hheld : d.held = (Item.works (d.queues.get s).items : Multiset Work) +
        ((d.setQueue s (d.queues.get s).close.2).sendPill s.peer).held := by
      rw [held_sendPill]
      exact held_close s
    rw [hheld] at h
    refine passes_leave (c := (d.setQueue s (d.queues.get s).close.2).sendPill s.peer) ?_
      (heaps_sendPill _ _) (tickets_sendPill _ _) hheld ?_
    · rw [tickets_sendPill, stats_sendPill]
      exact h
    · rw [tasks_sendPill]
      show (d.tasks.get s).works = []
      rw [ht]; rfl
  | @pillPushed q hh hq =>
    obtain ⟨-, -, rfl⟩ := Queue.offer_eq_accepted hq
    exact passes_of_held rfl (held_setQueue_of_works_eq (d := d) (s := .io)
      (Queue.works_append_pill d.queues.io true)) rfl
  | pillRejected | joined | joinedCrashed => exact ⟨rfl, rfl⟩
  | closedIo =>
    obtain ⟨hheaps, hcustody⟩ := passes_close hb .io
    exact ⟨hheaps, hcustody⟩
  | closedCompression =>
    obtain ⟨hheaps, hcustody⟩ := passes_close hb .compression
    exact ⟨hheaps, hcustody⟩

/-! ### Steps that trade blocks -/

/-- Processing trades the block of the work at hand; everything else in custody stays. -/
theorem traded_processing {s : Stage} {r : Attempt WorkError Unit} (ht : d.tasks.get s = .busy w)
    (hp : d.processing p s w = (d₁, w', r)) (hl : d.heaps.Ledger (d.custody + m)) :
    d.heaps.Traded (d.custody + m) d₁.heaps
      (claims (w' ::ₘ (d.setTask s .idle).held) d.tickets + m) := by
  have hcustody : d.custody + m =
      w.buffer.leases + (claims (d.setTask s .idle).held d.tickets + m) := by
    unfold custody
    rw [held_setTask_drop (t := .idle) (works_of_busy ht) rfl, claims_cons, add_assoc]
    rfl
  rw [claims_cons, add_assoc, hcustody]
  rw [hcustody] at hl
  cases s with
  | io =>
    cases hp
    exact Stage.traded_processIo p d.backend hl
  | compression =>
    cases hp
    exact Stage.traded_processCompression p d.codec hl

theorem held_setTask_processing {s : Stage} {t : Task} {r : Attempt WorkError Unit}
    (hp : d.processing p s w = (d₁, w', r)) (htw : t.works = []) :
    (d₁.setTask s t).held = (d.setTask s .idle).held := by
  have hu := untouched_of_processing hp
  have hheld : (d₁.setTask s .idle).held = (d.setTask s .idle).held :=
    held_congr hu.waiting hu.queues (congrArg (fun ts => PerStage.set ts Task.idle s) hu.tasks)
  rw [← hheld]
  have hi : ((d₁.setTask s .idle).tasks.get s).works = [] := by simp [setTask, Task.works]
  have he : (d₁.setTask s .idle).setTask s t = d₁.setTask s t := by cases s <;> rfl
  rw [← he]
  exact held_setTask_of_works_eq (htw.trans hi.symm)

theorem InBalance.custody_process (h : d.InBalance) {s : Stage} {t : Task}
    {r : Attempt WorkError Unit} {e : Except WorkError Unit} (ht : d.tasks.get s = .busy w)
    (htw : t.works = []) (hp : d.processing p s w = (d₁, w', r)) :
    ((d₁.settle w' e).setTask s t).heaps = d₁.heaps ∧
      ((d₁.settle w' e).setTask s t).custody =
        claims (w' ::ₘ (d.setTask s .idle).held) d.tickets := by
  have hu := untouched_of_processing hp
  have hb := h.processing ht htw hp
  obtain ⟨hheaps, hclaims⟩ := hb.claims_settle e
  rw [hu.tickets, held_setTask_processing hp htw] at hclaims
  refine ⟨hheaps, ?_⟩
  unfold custody
  rw [held_settle_setTask, held_setTask_processing hp htw]
  exact hclaims

/-- A step trades blocks in custody for blocks in custody. -/
theorem InBalance.trades {a : Action} (h : d.InBalance) (ht : Transition p d a d')
    (hl : d.heaps.Ledger (d.custody + m)) :
    d.heaps.Traded (d.custody + m) d'.heaps (d'.custody + m) := by
  by_cases ha : ∃ s, a = .process s
  · obtain ⟨s, rfl⟩ := ha
    cases ht with
    | @readied _ w w' d₁ ht hp hh =>
      have hcustody : (d₁.setTask s (.handing w')).custody =
          claims (w' ::ₘ (d.setTask s .idle).held) d.tickets := by
        have hi : ((d₁.setTask s .idle).tasks.get s).works = [] := by simp [setTask, Task.works]
        have he : (d₁.setTask s .idle).setTask s (.handing w') = d₁.setTask s (.handing w') := by
          cases s <;> rfl
        have hheld := held_setTask_take (t := .handing w') hi rfl
        rw [he, held_setTask_processing (t := .idle) hp rfl] at hheld
        unfold custody
        rw [hheld]
        exact congrArg _ (untouched_of_processing hp).tickets
      rw [hcustody]
      have htraded := traded_processing (m := m) ht hp hl
      exact htraded
    | ended ht hp =>
      obtain ⟨hheaps, hcustody⟩ := h.custody_process (t := .idle) ht rfl hp
      rw [hheaps, hcustody]
      exact traded_processing ht hp hl
    | crashed ht hp =>
      obtain ⟨hheaps, hcustody⟩ := h.custody_process (t := .leaving true) ht rfl hp
      unfold abandon
      rw [hheaps, hcustody]
      exact traded_processing ht hp hl
  · obtain ⟨hheaps, hcustody⟩ := h.passes ht fun s he => ha ⟨s, he⟩
    rw [hheaps, hcustody]
    exact .refl _ _

end Dispatcher

end FilePipeline
