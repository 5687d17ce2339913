import FilePipeline.Proofs.Dispatcher.Holdings

/-! # The balance is kept

Every step of a dispatcher, every call of a client and every submission keeps the balance between the
work that is held, the pending tickets and the counters (`Run.balanced`). The sections follow what
moves the work: from a submitter into a queue, from a queue to a worker, from a worker on, and out of
a queue that is closed. -/

namespace FilePipeline.Dispatcher

variable {σ η κ : Type} {p : Setup σ η κ} {d d' d₁ : Dispatcher σ κ}

/-- The balance of a dispatcher: the work it holds is all that is still to be ended. -/
def InBalance (d : Dispatcher σ κ) : Prop := Balanced d.held d.tickets d.stats

theorem Balanced.inBalance {ws : Multiset Work} (h : Balanced ws d.tickets d.stats)
    (hh : d.held = ws) : d.InBalance := by
  unfold InBalance
  rw [hh]
  exact h

/-! ### From one holder to the next -/

theorem held_setQueue_append {s : Stage} {q : Queue Work} {w : Work}
    (h : q.works = (d.queues.get s).works ++ [w]) : (d.setQueue s q).held = w ::ₘ d.held := by
  have h' := held_setQueue d s q
  rw [h, ← Multiset.coe_add, Multiset.coe_singleton, ← add_assoc, add_right_comm] at h'
  rw [add_right_cancel h', add_comm, Multiset.singleton_add]

theorem held_setQueue_tail {s : Stage} {q : Queue Work} {w : Work}
    (h : (d.queues.get s).works = w :: q.works) : d.held = w ::ₘ (d.setQueue s q).held := by
  have h' := held_setQueue d s q
  rw [h, ← Multiset.cons_coe, ← Multiset.singleton_add, ← add_assoc] at h'
  rw [← add_right_cancel h', add_comm, Multiset.singleton_add]

theorem held_setQueue_of_works_eq {s : Stage} {q : Queue Work}
    (h : q.works = (d.queues.get s).works) : (d.setQueue s q).held = d.held := by
  have h' := held_setQueue d s q
  rw [h] at h'
  exact add_right_cancel h'

theorem held_setTask_take {s : Stage} {t : Task} {w : Work} (h : (d.tasks.get s).works = [])
    (ht : t.works = [w]) : (d.setTask s t).held = w ::ₘ d.held := by
  have h' := held_setTask d s t
  rw [h, ht, Multiset.coe_nil, add_zero, Multiset.coe_singleton, add_comm] at h'
  rw [h', Multiset.singleton_add]

theorem held_setTask_drop {s : Stage} {t : Task} {w : Work} (h : (d.tasks.get s).works = [w])
    (ht : t.works = []) : d.held = w ::ₘ (d.setTask s t).held := by
  have h' := held_setTask d s t
  rw [h, ht, Multiset.coe_nil, add_zero, Multiset.coe_singleton, add_comm] at h'
  rw [← h', Multiset.singleton_add]

theorem held_setTask_of_works_eq {s : Stage} {t : Task} (h : t.works = (d.tasks.get s).works) :
    (d.setTask s t).held = d.held := by
  have h' := held_setTask d s t
  rw [h] at h'
  exact add_right_cancel h'

theorem held_push {i : Nat} {s : Stage} {w : Work} {q : Queue Work}
    (hw : d.waiting[i]? = some (s, w)) (hq : (d.queues.get s).offer (.work w) = .accepted q) :
    ({ d with waiting := d.waiting.eraseIdx i }.setQueue s q).held = d.held := by
  obtain ⟨-, -, rfl⟩ := Queue.offer_eq_accepted hq
  rw [held_waiting hw]
  exact held_setQueue_append (Queue.works_append_work _ w true)

theorem held_pop {s : Stage} {w : Work} {q : Queue Work} (ht : d.tasks.get s = .idle)
    (hq : (d.queues.get s).pop? = .item (.work w) q) :
    ((d.setQueue s q).setTask s (.busy w)).held = d.held := by
  have hn : ((d.setQueue s q).tasks.get s).works = [] := by
    show (d.tasks.get s).works = []
    rw [ht]; rfl
  rw [held_setTask_take hn rfl, held_setQueue_tail (Queue.works_pop_work hq)]

theorem held_hand {s : Stage} {w : Work} {q : Queue Work} (ht : d.tasks.get s = .handing w)
    (hq : (d.queues.get s.peer).forward? (.work w) = some q) :
    ((d.setQueue s.peer q).setTask s .idle).held = d.held := by
  obtain ⟨-, rfl⟩ := Queue.forward?_eq_some hq
  have hw : ((d.setQueue s.peer ((d.queues.get s.peer).append (.work w) false)).tasks.get s).works
      = [w] := by
    show (d.tasks.get s).works = [w]
    rw [ht]; rfl
  have h := held_setQueue_append (d := d) (Queue.works_append_work (d.queues.get s.peer) w false)
  rw [held_setTask_drop hw (t := .idle) rfl] at h
  exact (Multiset.cons_inj_right w).mp h

/-! ### Out of a queue that is closed -/

theorem held_close (s : Stage) :
    d.held = (Item.works (d.queues.get s).items : Multiset Work) +
      (d.setQueue s (d.queues.get s).close.2).held := by
  have h := held_setQueue d s (d.queues.get s).close.2
  rw [Queue.works_close, Multiset.coe_nil, add_zero] at h
  rw [← h, add_comm]
  rfl

theorem held_sendPill (s : Stage) : (d.sendPill s).held = d.held := by
  unfold sendPill
  split
  · next q hq =>
    obtain ⟨-, rfl⟩ := Queue.forward?_eq_some hq
    exact held_setQueue_of_works_eq (Queue.works_append_pill _ _)
  · rfl

theorem tasks_sendPill (d : Dispatcher σ κ) (s : Stage) : (d.sendPill s).tasks = d.tasks := by
  unfold sendPill
  split <;> rfl

theorem stats_sendPill (d : Dispatcher σ κ) (s : Stage) : (d.sendPill s).stats = d.stats := by
  unfold sendPill
  split <;> rfl

/-! ### Steps -/

theorem held_settle_setTask (w : Work) (r : Except WorkError Unit) (s : Stage) (t : Task) :
    ((d.settle w r).setTask s t).held = (d.setTask s t).held :=
  held_congr (waiting_settle d w r) (queues_settle d w r)
    (congrArg (fun ts => PerStage.set ts t s) (tasks_settle d w r))

theorem held_fail (w : Work) (e : WorkError) : (d.fail w e).held = d.held :=
  held_congr (waiting_fail d w e) (queues_fail d w e) (tasks_fail d w e)

theorem held_abandonAll (is : List (Item Work)) : (d.abandonAll is).held = d.held :=
  held_congr (waiting_abandonAll d is) (queues_abandonAll d is) (tasks_abandonAll d is)

theorem held_failAll (is : List (Item Work)) : (d.failAll is).held = d.held :=
  held_congr (waiting_failAll d is) (queues_failAll d is) (tasks_failAll d is)

theorem works_of_busy {s : Stage} {w : Work} (h : d.tasks.get s = .busy w) :
    (d.tasks.get s).works = [w] := by rw [h]; rfl

theorem works_of_handing {s : Stage} {w : Work} (h : d.tasks.get s = .handing w) :
    (d.tasks.get s).works = [w] := by rw [h]; rfl

theorem held_processing {s : Stage} {w w' : Work} {r : Attempt WorkError Unit}
    (hp : d.processing p s w = (d₁, w', r)) :
    d₁.held = d.held ∧ d₁.tasks = d.tasks ∧ d₁.tickets = d.tickets ∧ d₁.stats = d.stats ∧
      w'.SameAs w := by
  have hu := untouched_of_processing hp
  have hw := sameAs_of_processing hp
  exact ⟨held_congr hu.waiting hu.queues hu.tasks, hu.tasks, hu.tickets, hu.stats, hw⟩

/-- Before a worker ends the work it processed, the balance is that of the dispatcher with the work
    taken out of the worker's hands. -/
theorem InBalance.processing {s : Stage} {w w' : Work} {r : Attempt WorkError Unit} {t : Task}
    (h : d.InBalance) (ht : d.tasks.get s = .busy w) (htw : t.works = [])
    (hp : d.processing p s w = (d₁, w', r)) :
    Balanced (w' ::ₘ (d₁.setTask s t).held) d₁.tickets d₁.stats := by
  obtain ⟨hh, hts, htk, hst, hs⟩ := held_processing hp
  have hw : (d₁.tasks.get s).works = [w] := by rw [hts]; exact works_of_busy ht
  refine Balanced.congr ?_ hs
  rw [← held_setTask_drop hw htw, hh, htk, hst]
  exact h

theorem InBalance.transition {a : Action} (h : d.InBalance) (ht : Transition p d a d') :
    d'.InBalance := by
  unfold InBalance at h
  cases ht with
  | pushed hw hq => exact Balanced.inBalance h (held_push hw hq)
  | @turnedAway i s w hw hq =>
    rw [held_waiting hw] at h
    have hf := Balanced.fail (d := { d with waiting := d.waiting.eraseIdx i }) h .abandoned
    exact Balanced.inBalance hf (held_fail w .abandoned)
  | popped ht hq => exact Balanced.inBalance h (held_pop ht hq)
  | @poppedPill s q ht hq =>
    have hn : (d.afterPill s).works = ((d.setQueue s q).tasks.get s).works := by
      show _ = (d.tasks.get s).works
      rw [ht]
      unfold afterPill
      cases s
      · dsimp only; split <;> rfl
      · rfl
    refine Balanced.inBalance h ?_
    rw [held_setTask_of_works_eq hn, held_setQueue_of_works_eq (Queue.works_pop_pill hq)]
  | @readied s w w' d₁ ht hp =>
    have hb := InBalance.processing (t := .idle) h ht rfl hp
    have hi : ((d₁.setTask s .idle).tasks.get s).works = [] := by simp [setTask, Task.works]
    have he : (d₁.setTask s .idle).setTask s (.handing w') = d₁.setTask s (.handing w') := by
      cases s <;> rfl
    rw [← held_setTask_take (t := .handing w') hi rfl, he] at hb
    exact hb
  | @ended s w w' d₁ r ht hp =>
    have hb := InBalance.processing (t := .idle) h ht rfl hp
    exact Balanced.inBalance (hb.settle r) (held_settle_setTask w' r s .idle)
  | @crashed s w w' d₁ c ht hp =>
    have hb := InBalance.processing (t := .leaving true) h ht rfl hp
    exact Balanced.inBalance (hb.settle _) (held_settle_setTask w' _ s (.leaving true))
  | handed ht hq => exact Balanced.inBalance h (held_hand ht hq)
  | @refused s w ht hq =>
    rw [held_setTask_drop (t := .idle) (works_of_handing ht) rfl] at h
    exact Balanced.inBalance (Balanced.settle h _) (held_settle_setTask w _ s .idle)
  | @relayedOn q ht hq =>
    obtain ⟨-, rfl⟩ := Queue.forward?_eq_some hq
    have hw := held_setQueue_of_works_eq (d := d) (s := .compression)
      (Queue.works_append_pill d.queues.compression false)
    refine Balanced.inBalance h ((held_setTask_of_works_eq (s := .io) ?_).trans hw)
    show _ = d.tasks.io.works
    rw [ht]; rfl
  | @relayedBack q ht hq =>
    obtain ⟨-, rfl⟩ := Queue.forward?_eq_some hq
    refine Balanced.inBalance h ((held_setTask_of_works_eq (s := .compression) ?_).trans
      (held_setQueue_of_works_eq (Queue.works_append_pill _ false)))
    show _ = d.tasks.compression.works
    rw [ht]; rfl
  | @relayRefused s ht hq =>
    exact Balanced.inBalance h (held_setTask_of_works_eq (by rw [ht]; rfl))
  | @left s ht =>
    rw [held_close s] at h
    have hb := Balanced.abandonAll (d := d.setQueue s (d.queues.get s).close.2) h
    refine Balanced.inBalance hb ((held_setTask_of_works_eq ?_).trans (held_abandonAll _))
    rw [tasks_abandonAll]
    show _ = (d.tasks.get s).works
    rw [ht]; rfl
  | @leftCrashed s ht =>
    rw [held_close s, ← held_sendPill (d := d.setQueue s _) s.peer] at h
    generalize hd₁ : (d.setQueue s (d.queues.get s).close.2).sendPill s.peer = d₁ at h
    have hs : Balanced (((Item.works (d.queues.get s).items : List Work) : Multiset Work) +
        d₁.held) d₁.tickets d₁.stats := by
      rw [← hd₁, tickets_sendPill, stats_sendPill, hd₁]
      exact h
    have hb := Balanced.abandonAll hs
    refine Balanced.inBalance hb ((held_setTask_of_works_eq ?_).trans (held_abandonAll _))
    rw [tasks_abandonAll, ← hd₁, tasks_sendPill]
    show _ = (d.tasks.get s).works
    rw [ht]; rfl
  | @pillPushed q hh hq =>
    obtain ⟨-, -, rfl⟩ := Queue.offer_eq_accepted hq
    exact Balanced.inBalance h (held_setQueue_of_works_eq (d := d) (s := .io)
      (Queue.works_append_pill d.queues.io true))
  | pillRejected => exact h
  | joined => exact h
  | joinedCrashed => exact h
  | closedIo =>
    rw [held_close .io] at h
    have hb := Balanced.failAll (d := d.setQueue .io d.queues.io.close.2) h
    exact Balanced.inBalance hb (held_failAll d.queues.io.items)
  | closedCompression =>
    rw [held_close .compression] at h
    have hb := Balanced.failAll (d := d.setQueue .compression d.queues.compression.close.2) h
    exact Balanced.inBalance hb (held_failAll d.queues.compression.items)

/-! ### Clients -/

theorem ticks_of_change {t t' : Ticket} (c : t.Change (fun _ => False) t') :
    ticks t' = ticks t := by
  unfold ticks
  rw [c.isDone, c.op]
  cases h : t.isDone with
  | false => rfl
  | true =>
    have hk := Ticket.kept_of_change h c
    rw [hk.result, hk.size]

theorem InBalance.setTicket {id : WorkId} {t t' : Ticket} (h : d.InBalance)
    (ht : d.tickets[id]? = some t) (c : t.Change (fun _ => False) t') :
    (d.setTicket id t').InBalance := by
  have hlt := (List.getElem?_eq_some_iff.mp ht).1
  refine ⟨fun id' => ?_, fun w hw => ?_, fun u hu => ?_, ?_⟩
  · have h1 := h.once id'
    show d.held.countP _ = if pending (d.tickets.set id t') id' then 1 else 0
    rw [h1, pending_set ht, c.isDone]
    by_cases he : id = id'
    · subst he
      rw [if_pos rfl]
      unfold pending
      rw [ht]
      rfl
    · rw [if_neg he]
  · obtain ⟨u, hu, huo⟩ := h.op w hw
    by_cases he : id = w.id
    · subst he
      obtain rfl : t = u := by rw [ht] at hu; exact Option.some.inj hu
      exact ⟨t', List.getElem?_set_self hlt, c.op.trans huo⟩
    · exact ⟨u, (List.getElem?_set_ne he).trans hu, huo⟩
  · rcases List.mem_or_eq_of_mem_set hu with hu | rfl
    · exact h.consistent u hu
    · exact (h.consistent t (List.mem_of_getElem? ht)).change c
  · show d.stats = tally (d.tickets.set id t')
    have hno : ticks t' = ticks t ++ [] := by rw [ticks_of_change c, List.append_nil]
    rw [tally_set ht hno]
    exact h.counted

theorem InBalance.move (h : d.InBalance) (m : Move p d d') : d'.InBalance := by
  cases m with
  | act a hs => exact h.transition (transition_of_step hs)
  | beginHalt =>
    unfold Dispatcher.beginHalt
    split
    · split <;> exact h
    · exact h
  | look id =>
    unfold Dispatcher.look
    split
    · next t ht =>
      obtain ⟨ht, hd⟩ := done?_eq_some ht
      exact h.setTicket ht (.look hd)
    · exact h
  | poll id waker =>
    unfold Dispatcher.poll
    split
    · next t ht => exact h.setTicket ht (.poll waker)
    · exact h
  | take id =>
    unfold Dispatcher.take
    split
    · next t ht =>
      obtain ⟨ht, hd⟩ := done?_eq_some ht
      exact h.setTicket ht (.take hd)
    · exact h
  | dropHandle id =>
    unfold Dispatcher.dropHandle
    split
    · next t ht =>
      obtain ⟨ht, hd⟩ := done?_eq_some ht
      exact InBalance.setTicket (d := d.release t.drop.1) h ht (.drop hd)
    · exact h
  | dropTaken b => exact h

/-! ### Submissions and runs -/

/-- A submission is counted and adds a piece of work to what is to be ended. -/
theorem Balanced.register {ws : Multiset Work} {w : Work} {op : Op}
    (h : Balanced ws d.tickets d.stats) (hi : w.id = d.nextId) (ho : w.op = op) :
    Balanced (w ::ₘ ws) (d.register op).tickets (d.register op).stats := by
  have hnew : (d.tickets ++ [({ op } : Ticket)])[d.tickets.length]? = some { op } := by simp
  refine ⟨fun id => ?_, fun v hv => ?_, fun u hu => ?_, ?_⟩
  · show _ = if pending (d.tickets ++ [({ op } : Ticket)]) id then 1 else 0
    rw [Multiset.countP_cons, h.once id, hi]
    unfold nextId pending
    rcases Nat.lt_trichotomy id d.tickets.length with hlt | rfl | hgt
    · rw [List.getElem?_append_left hlt, if_neg (Nat.ne_of_gt hlt), Nat.add_zero]
    · rw [hnew, List.getElem?_eq_none (Nat.le_refl _)]
      simp [Ticket.isDone]
    · rw [List.getElem?_eq_none (Nat.le_of_lt hgt), if_neg (Nat.ne_of_lt hgt),
        List.getElem?_eq_none (by rw [List.length_append]; exact hgt)]
      rfl
  · rcases Multiset.mem_cons.mp hv with rfl | hv
    · exact ⟨{ op }, by rw [hi]; exact hnew, ho.symm⟩
    · obtain ⟨u, hu, huo⟩ := h.op v hv
      exact ⟨u, (List.getElem?_append_left (List.getElem?_eq_some_iff.mp hu).1).trans hu, huo⟩
  · rcases List.mem_append.mp hu with hu | hu
    · exact h.consistent u hu
    · obtain rfl := List.mem_singleton.mp hu
      exact Ticket.consistent_new op
  · show d.stats.recordSubmitted op = tally (d.tickets ++ [({ op } : Ticket)])
    unfold tally
    rw [List.flatMap_append, List.foldl_append, h.counted]
    rfl

theorem InBalance.submit (h : d.InBalance) (r : Submission) : (d.submit p r).InBalance := by
  have hid : (Work.ofSubmission d.nextId p.ownHeap r).id = d.nextId := by cases r <;> rfl
  have hop : (Work.ofSubmission d.nextId p.ownHeap r).op = r.op := by cases r <;> rfl
  rcases submit_eq p d r with ⟨e, -, hs⟩ | ⟨path, -, hs⟩
  · rw [hs]
    have hb := Balanced.register (w := Work.ofSubmission d.nextId p.ownHeap r) h hid hop
    exact Balanced.inBalance (hb.fail _) (held_fail _ _)
  · rw [hs]
    have hb := Balanced.register (w := { Work.ofSubmission d.nextId p.ownHeap r with path })
      h hid hop
    refine Balanced.inBalance hb ?_
    unfold held register
    simp only [List.map_append, List.map_cons, List.map_nil, ← Multiset.coe_add,
      Multiset.coe_singleton, ← Multiset.singleton_add]
    abel

theorem Unused.inBalance (h : Unused p d) : d.InBalance := by
  have hh : d.held = 0 := by
    unfold held
    rw [h.waiting, h.queues, h.tasks]
    rfl
  unfold InBalance
  rw [hh, h.tickets, h.stats]
  exact ⟨fun _ => rfl, fun w hw => by simp at hw, fun t ht => by simp at ht, rfl⟩

theorem Run.balanced {d₀ : Dispatcher σ κ} {rs : List Submission} (h₀ : d₀.InBalance)
    (h : Run p d₀ rs d) : d.InBalance := by
  induction h with
  | start => exact h₀
  | submit r _ _ ih => exact ih.submit r
  | move _ m ih => exact ih.move m

end FilePipeline.Dispatcher
