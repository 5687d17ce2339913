import FilePipeline.Proofs.Dispatcher.Tickets
import FilePipeline.Proofs.Queue.Steps
import FilePipeline.Proofs.Stats.Ticks
import Mathlib.Data.Multiset.AddSub
import Mathlib.Data.Multiset.Filter
import Mathlib.Data.Multiset.OrderedMonoid
import Mathlib.Tactic.Abel

/-! # Where work is held

Work that has not ended is held by a submitter who waits, by one of the queues or by one of the
workers: `held` is all of it, with the count of each piece. A step either moves a piece of work from
one holder to another, or takes it from its holder and ends it.

`Balanced ws ts s` says that exactly the work `ws` is still to be ended: the pending tickets of `ts`
are those of `ws`, each once, and the counters `s` have counted each submission once and the end of
each piece of work that has ended once. Ending a piece of work that is held keeps the balance
(`Balanced.settle`), whichever way it ends. -/

namespace FilePipeline

/-- The work a task has at hand. -/
def Task.works : Task → List Work
  | .busy w => [w]
  | .handing w => [w]
  | _ => []

namespace Dispatcher

variable {σ η κ : Type}

/-- All work that has not ended. -/
def held (d : Dispatcher σ κ) : Multiset Work :=
  (d.waiting.map Prod.snd : Multiset Work) + (d.queues.io.works : Multiset Work) +
    (d.queues.compression.works : Multiset Work) + (d.tasks.io.works : Multiset Work) +
    (d.tasks.compression.works : Multiset Work)

theorem held_congr {d d' : Dispatcher σ κ} (hw : d'.waiting = d.waiting)
    (hq : d'.queues = d.queues) (ht : d'.tasks = d.tasks) : d'.held = d.held := by
  unfold held
  rw [hw, hq, ht]

theorem held_setQueue (d : Dispatcher σ κ) (s : Stage) (q : Queue Work) :
    (d.setQueue s q).held + ((d.queues.get s).works : Multiset Work) =
      d.held + (q.works : Multiset Work) := by
  unfold held setQueue
  cases s <;> simp only [PerStage.set, PerStage.get] <;> abel

theorem held_setTask (d : Dispatcher σ κ) (s : Stage) (t : Task) :
    (d.setTask s t).held + ((d.tasks.get s).works : Multiset Work) =
      d.held + (t.works : Multiset Work) := by
  unfold held setTask
  cases s <;> simp only [PerStage.set, PerStage.get] <;> abel

theorem held_waiting {d : Dispatcher σ κ} {i : Nat} {s : Stage} {w : Work}
    (h : d.waiting[i]? = some (s, w)) :
    d.held = w ::ₘ { d with waiting := d.waiting.eraseIdx i }.held := by
  obtain ⟨hlt, hi⟩ := List.getElem?_eq_some_iff.mp h
  have hp : (d.waiting.map Prod.snd : Multiset Work) =
      w ::ₘ ↑((d.waiting.eraseIdx i).map Prod.snd) := by
    have hp := (List.getElem_cons_eraseIdx_perm hlt).symm.map Prod.snd
    rw [hi, List.map_cons] at hp
    rw [Multiset.cons_coe]
    exact Multiset.coe_eq_coe.mpr hp
  unfold held
  rw [hp]
  simp only [Multiset.cons_add]

/-! ### The balance -/

def pending (ts : List Ticket) (id : WorkId) : Bool := ts[id]?.any fun t => !t.isDone

theorem pending_iff {ts : List Ticket} {id : WorkId} :
    pending ts id = true ↔ ∃ t, ts[id]? = some t ∧ t.isDone = false := by
  unfold pending
  rw [Option.any_eq_true]
  simp

theorem pending_set {ts : List Ticket} {id : WorkId} {t t' : Ticket} (h : ts[id]? = some t)
    (id' : WorkId) :
    pending (ts.set id t') id' = if id = id' then !t'.isDone else pending ts id' := by
  unfold pending
  split
  · next he =>
    subst he
    rw [List.getElem?_set_self (List.getElem?_eq_some_iff.mp h).1]
    rfl
  · next he => rw [List.getElem?_set_ne he]

/-- What was counted because of a ticket: the submission, and the end of the work if it has ended. -/
def ticks (t : Ticket) : List Tick :=
  Stats.submission t.op ::
    if t.isDone then Stats.completion t.op t.outcome.result t.outcome.size else []

/-- The counters after everything was counted once. -/
def tally (ts : List Ticket) : Stats := (ts.flatMap ticks).foldl Stats.tick {}

/-- The work `ws` is all that is still to be ended. -/
structure Balanced (ws : Multiset Work) (ts : List Ticket) (s : Stats) : Prop where
  once : ∀ id, ws.countP (fun w => w.id = id) = if pending ts id then 1 else 0
  op : ∀ w ∈ ws, ∃ t, ts[w.id]? = some t ∧ t.op = w.op
  consistent : ∀ t ∈ ts, t.Consistent
  counted : s = tally ts

theorem flatMap_set_perm {f : Ticket → List Tick} {ts : List Ticket} {i : Nat} {t t' : Ticket}
    {extra : List Tick} (ht : ts[i]? = some t) (hf : f t' = f t ++ extra) :
    ((ts.set i t').flatMap f).Perm (ts.flatMap f ++ extra) := by
  induction ts generalizing i with
  | nil => simp at ht
  | cons u us ih =>
    cases i with
    | zero =>
      obtain rfl : u = t := by simpa using ht
      simp only [List.set_cons_zero, List.flatMap_cons, hf, List.append_assoc]
      exact List.perm_append_comm.append_left _
    | succ i =>
      simp only [List.set_cons_succ, List.flatMap_cons, List.append_assoc]
      exact (ih (by simpa using ht)).append_left _

theorem tally_set {ts : List Ticket} {i : Nat} {t t' : Ticket} {extra : List Tick}
    (ht : ts[i]? = some t) (hf : ticks t' = ticks t ++ extra) :
    tally (ts.set i t') = extra.foldl Stats.tick (tally ts) := by
  unfold tally
  rw [Stats.foldl_tick_perm (flatMap_set_perm ht hf), List.foldl_append]

theorem ticks_publish {t : Ticket} (h : t.Consistent) (hp : t.isDone = false) (o : Outcome) :
    ticks (t.publish o) = ticks t ++ Stats.completion t.op o.result o.size := by
  have hd : (t.publish o).isDone = true := by rw [h.publish_of_pending hp]; rfl
  unfold ticks
  rw [h.outcome_publish hp, hd, hp]
  rfl

namespace Balanced

variable {ws : Multiset Work} {ts : List Ticket} {s : Stats}

theorem pending_of_mem (h : Balanced ws ts s) {w : Work} (hw : w ∈ ws) :
    ∃ t, ts[w.id]? = some t ∧ t.isDone = false ∧ t.op = w.op := by
  have hc : 0 < ws.countP (fun v => v.id = w.id) := Multiset.countP_pos.mpr ⟨w, hw, rfl⟩
  rw [h.once] at hc
  have hp : pending ts w.id = true := by
    by_contra hn
    rw [if_neg hn] at hc
    exact absurd hc (by omega)
  obtain ⟨t, ht, hd⟩ := pending_iff.mp hp
  obtain ⟨t', ht', ho⟩ := h.op w hw
  obtain rfl : t = t' := by rw [ht] at ht'; exact Option.some.inj ht'
  exact ⟨t, ht, hd, ho⟩

theorem congr {w w' : Work} (h : Balanced (w ::ₘ ws) ts s) (hs : w'.SameAs w) :
    Balanced (w' ::ₘ ws) ts s := by
  refine ⟨fun id => ?_, fun v hv => ?_, h.consistent, h.counted⟩
  · rw [← h.once id, Multiset.countP_cons, Multiset.countP_cons, hs.id]
  · rcases Multiset.mem_cons.mp hv with rfl | hv
    · rw [hs.id, hs.op]; exact h.op w (Multiset.mem_cons_self w ws)
    · exact h.op v (Multiset.mem_cons_of_mem hv)

end Balanced

theorem settle_of_pending {d : Dispatcher σ κ} {w : Work} {t : Ticket}
    (ht : d.tickets[w.id]? = some t) (hp : t.isDone = false) (r : Except WorkError Unit) :
    d.settle w r = { d with
      stats := d.stats.recordCompleted w.op r w.size
      tickets := d.tickets.set w.id (t.publish (w.outcome r)) } := by
  unfold settle
  rw [ht]
  dsimp only
  rw [if_neg (by simp [hp])]

/-- Ending a piece of work takes it out of what is to be ended. -/
theorem Balanced.settle {d : Dispatcher σ κ} {w : Work} {ws : Multiset Work}
    (h : Balanced (w ::ₘ ws) d.tickets d.stats) (r : Except WorkError Unit) :
    Balanced ws (d.settle w r).tickets (d.settle w r).stats := by
  obtain ⟨t, ht, hp, ho⟩ := h.pending_of_mem (Multiset.mem_cons_self w ws)
  have hc := h.consistent t (List.mem_of_getElem? ht)
  have hd : (t.publish (w.outcome r)).isDone = true := by rw [hc.publish_of_pending hp]; rfl
  rw [settle_of_pending ht hp]
  refine ⟨fun id => ?_, fun v hv => ?_, fun u hu => ?_, ?_⟩
  · have h1 := h.once id
    rw [Multiset.countP_cons] at h1
    rw [pending_set ht, hd]
    by_cases he : w.id = id
    · have hpd : pending d.tickets id = true := pending_iff.mpr ⟨t, by rw [← he]; exact ht, hp⟩
      rw [if_pos he, hpd] at h1
      rw [if_pos he]
      simpa using h1
    · rw [if_neg he] at h1 ⊢
      omega
  · obtain ⟨u, hu, huo⟩ := h.op v (Multiset.mem_cons_of_mem hv)
    by_cases he : w.id = v.id
    · rw [← he, List.getElem?_set_self (List.getElem?_eq_some_iff.mp ht).1]
      rw [← he, ht] at hu
      obtain rfl := Option.some.inj hu
      exact ⟨_, rfl, huo⟩
    · exact ⟨u, (List.getElem?_set_ne he).trans hu, huo⟩
  · rcases List.mem_or_eq_of_mem_set hu with hu | rfl
    · exact h.consistent u hu
    · exact hc.publish hp _
  · have ht' := tally_set ht (ticks_publish hc hp (w.outcome r))
    rw [ho] at ht'
    show d.stats.recordCompleted w.op r w.size = _
    rw [ht', ← h.counted]
    rfl

theorem Balanced.fail {d : Dispatcher σ κ} {w : Work} {ws : Multiset Work}
    (h : Balanced (w ::ₘ ws) d.tickets d.stats) (e : WorkError) :
    Balanced ws (d.fail w e).tickets (d.fail w e).stats :=
  Balanced.settle (d := d.notice (.workFailed e)) h (.error e)

theorem Balanced.foldl {f : Dispatcher σ κ → Work → Dispatcher σ κ}
    (hf : ∀ {d w ws}, Balanced (w ::ₘ ws) d.tickets d.stats →
      Balanced ws (f d w).tickets (f d w).stats)
    {d : Dispatcher σ κ} {l : List Work} {ws : Multiset Work}
    (h : Balanced ((l : Multiset Work) + ws) d.tickets d.stats) :
    Balanced ws (l.foldl f d).tickets (l.foldl f d).stats := by
  induction l generalizing d with
  | nil => simpa using h
  | cons w l ih =>
    refine ih (hf ?_)
    rw [← Multiset.cons_add]
    exact h

theorem Balanced.abandonAll {d : Dispatcher σ κ} {is : List (Item Work)} {ws : Multiset Work}
    (h : Balanced ((Item.works is : Multiset Work) + ws) d.tickets d.stats) :
    Balanced ws (d.abandonAll is).tickets (d.abandonAll is).stats := by
  rw [abandonAll_eq]
  exact Balanced.foldl (fun h => h.settle _) h

theorem Balanced.failAll {d : Dispatcher σ κ} {is : List (Item Work)} {ws : Multiset Work}
    (h : Balanced ((Item.works is : Multiset Work) + ws) d.tickets d.stats) :
    Balanced ws (d.failAll is).tickets (d.failAll is).stats := by
  rw [failAll_eq]
  exact Balanced.foldl (fun h => h.fail _) h

end Dispatcher

end FilePipeline
