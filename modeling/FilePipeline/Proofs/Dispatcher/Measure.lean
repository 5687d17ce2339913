import FilePipeline.Dispatcher.Run
import FilePipeline.Proofs.Dispatcher.Halting
import FilePipeline.Proofs.Dispatcher.Placement

/-! # Every step brings a dispatcher closer to rest

`potential` prices each piece of work and each pill by what can still become of it, each worker by
what it has before it and the stopping by its steps to come. Each action takes at least one off
(`potential_lt`): what an item costs less in its new place pays for the step. The one call of a client
that brings something new is to begin stopping, and `remaining` has its price in advance. So a run
without submissions has at most `remaining` steps (`Steps.le`). -/

namespace FilePipeline.Dispatcher

variable {σ η κ : Type} {p : Setup σ η κ} {d d' d₀ : Dispatcher σ κ} {rs : List Submission}

/-! ### The price of a queue, a task and a submitter -/

theorem queueLoad_append (s : Stage) (q : Queue Work) (i : Item Work) (c : Bool) :
    queueLoad s (q.append i c) = queueLoad s q + itemLoad s i := by
  have sum : ∀ is : List (Item Work), (is ++ [i]).foldr (fun i n => itemLoad s i + n) 0 =
      is.foldr (fun i n => itemLoad s i + n) 0 + itemLoad s i := by
    intro is
    induction is with
    | nil => simp
    | cons x xs ih => simp only [List.cons_append, List.foldr_cons, ih, Nat.add_assoc]
  unfold queueLoad Queue.items Queue.append
  rw [List.map_append]
  exact sum _

theorem queueLoad_pop_work {s : Stage} {q q' : Queue Work} {w : Work}
    (h : q.pop? = .item (.work w) q') : queueLoad s q = workload s w + queueLoad s q' := by
  obtain ⟨c, rest, he, rfl⟩ := Queue.pop?_eq_work h
  unfold queueLoad Queue.items
  rw [he]
  rfl

/-- A closed queue without entries yields a pill and keeps its price. -/
theorem queueLoad_pop_le {s : Stage} {q q' : Queue Work} {i : Item Work}
    (h : q.pop? = .item i q') : queueLoad s q' ≤ queueLoad s q := by
  rcases Queue.pop?_eq_item h with ⟨c, rest, he, rfl⟩ | ⟨-, -, -, rfl⟩
  · unfold queueLoad Queue.items
    rw [he]
    exact Nat.le_add_left _ _
  · exact Nat.le_refl _

theorem two_le_workload (s : Stage) (w : Work) : 2 ≤ workload s w := by
  unfold workload
  split <;> decide

theorem workload_sameAs (s : Stage) {w w' : Work} (h : w'.SameAs w) :
    workload s w' = workload s w := by
  unfold workload handsOn
  rw [h.op, h.compressed]

theorem workload_peer {s : Stage} {w : Work} (h : handsOn s w = true) :
    workload s.peer w = 2 := by
  unfold workload
  rw [if_neg]
  cases s with
  | io =>
    simp only [handsOn, Bool.and_eq_true, beq_iff_eq] at h
    simp [handsOn, Stage.peer, h.1]
  | compression =>
    simp only [handsOn, beq_iff_eq] at h
    simp [handsOn, Stage.peer, h]

theorem four_le_workerLoad (draining : Bool) (s : Stage) : 4 ≤ workerLoad draining s := by
  cases draining <;> cases s <;> decide

theorem haltLoad_afterJoin (s : Stage) (e e' : Option JoinError) :
    haltLoad (afterJoin s e') + 0 < haltLoad (.joining s e) := by
  cases s <;> exact Nat.lt_succ_self _

/-! ### The price of a dispatcher -/

theorem apart_potential : Apart (potential : Dispatcher σ κ → _) := fun _ _ _ _ _ => rfl

theorem potential_setQueue (d : Dispatcher σ κ) (s : Stage) (q : Queue Work) :
    (d.setQueue s q).potential + queueLoad s (d.queues.get s) =
      d.potential + queueLoad s q := by
  unfold potential setQueue
  cases s <;> simp only [PerStage.set, PerStage.get] <;> omega

theorem potential_setTask (d : Dispatcher σ κ) (s : Stage) (t : Task) :
    (d.setTask s t).potential + taskLoad d.draining s (d.tasks.get s) =
      d.potential + taskLoad d.draining s t := by
  unfold potential setTask
  cases s <;> simp only [PerStage.set, PerStage.get] <;> omega

theorem potential_append (d : Dispatcher σ κ) (s : Stage) (i : Item Work) (c : Bool) :
    (d.setQueue s ((d.queues.get s).append i c)).potential = d.potential + itemLoad s i := by
  have h := potential_setQueue d s ((d.queues.get s).append i c)
  rw [queueLoad_append] at h
  omega

theorem potential_halt (d : Dispatcher σ κ) (h : Halt) :
    ({ d with halt := h } : Dispatcher σ κ).potential + haltLoad d.halt =
      d.potential + haltLoad h := by
  unfold potential
  dsimp only
  omega

theorem potential_waiting {i : Nat} {s : Stage} {w : Work} (h : d.waiting[i]? = some (s, w)) :
    { d with waiting := d.waiting.eraseIdx i }.potential + (workload s w + 1) = d.potential := by
  have sum : ∀ (xs : List (Stage × Work)) (i : Nat), xs[i]? = some (s, w) →
      (xs.eraseIdx i).foldr (fun x n => workload x.1 x.2 + 1 + n) 0 + (workload s w + 1) =
        xs.foldr (fun x n => workload x.1 x.2 + 1 + n) 0 := by
    intro xs
    induction xs with
    | nil => intro i hi; simp at hi
    | cons x xs ih =>
      intro i hi
      cases i with
      | zero =>
        obtain rfl : x = (s, w) := by simpa using hi
        simp only [List.eraseIdx_cons_zero, List.foldr_cons]
        omega
      | succ i =>
        have := ih i (by simpa using hi)
        simp only [List.eraseIdx_cons_succ, List.foldr_cons]
        omega
  have := sum d.waiting i h
  unfold potential
  dsimp only
  omega

theorem potential_close (d : Dispatcher σ κ) (s : Stage) :
    (d.setQueue s (d.queues.get s).close.2).potential ≤ d.potential := by
  have h := potential_setQueue d s (d.queues.get s).close.2
  have h₀ : queueLoad s (d.queues.get s).close.2 = 0 := rfl
  omega

theorem potential_sendPill (d : Dispatcher σ κ) (s : Stage) :
    (d.sendPill s).potential ≤ d.potential + 1 := by
  unfold sendPill
  split
  · next q hq =>
    obtain ⟨-, rfl⟩ := Queue.forward?_eq_some hq
    exact Nat.le_of_eq (potential_append d s .pill false)
  · exact Nat.le_succ _

theorem potential_drain (d : Dispatcher σ κ) :
    ({ d with draining := true } : Dispatcher σ κ).potential ≤ d.potential := by
  have worker : ∀ s, workerLoad true s ≤ workerLoad d.draining s := by
    intro s
    cases d.draining <;> cases s <;> decide
  have task : ∀ s t, taskLoad true s t ≤ taskLoad d.draining s t := by
    intro s t
    have := worker s
    cases t <;> simp only [taskLoad] <;> omega
  have h₁ := task .io d.tasks.io
  have h₂ := task .compression d.tasks.compression
  unfold potential
  dsimp only
  omega

/-! ### Each action costs something -/

/-- Work about to be handed on is of the kind its stage hands on. -/
def onItsWay : Placement where
  waiting := fun _ _ => True
  queued := fun _ _ _ => True
  busy := fun _ _ => True
  handing := fun s w => handsOn s w = true

theorem onItsWay_stable : onItsWay.Stable p :=
  ⟨fun _ _ _ => trivial, fun _ _ _ => trivial, fun _ _ _ _ => trivial,
    fun _ _ _ _ _ _ _ hh => hh, fun _ _ _ => trivial⟩

theorem potential_setTask_lt {d₁ : Dispatcher σ κ} {s : Stage} {t : Task} {n : Nat}
    (ht : d₁.tasks = d.tasks) (hp : d₁.potential ≤ d.potential + n)
    (hl : taskLoad d₁.draining s t + n < taskLoad d₁.draining s (d.tasks.get s)) :
    (d₁.setTask s t).potential < d.potential := by
  have h := potential_setTask d₁ s t
  rw [ht] at h
  omega

theorem potential_halt_lt {c : Dispatcher σ κ} {x : Halt} {n : Nat} (hh : c.halt = d.halt)
    (hp : c.potential ≤ d.potential + n) (hl : haltLoad x + n < haltLoad d.halt) :
    ({ c with halt := x } : Dispatcher σ κ).potential < d.potential := by
  have h := potential_halt c x
  rw [hh] at h
  omega

theorem potential_processing {d₁ : Dispatcher σ κ} {s : Stage} {w w' : Work}
    {r : Attempt WorkError Unit} (h : d.processing p s w = (d₁, w', r)) :
    d₁.potential = d.potential := by
  have hu := untouched_of_processing h
  unfold potential
  rw [hu.waiting, hu.queues, hu.tasks, hu.draining, hu.halt]

theorem potential_lt (hk : onItsWay.Holds d) {a : Action} (ht : Transition p d a d') :
    d'.potential < d.potential := by
  cases ht with
  | @pushed i s w q hw hq =>
    obtain ⟨-, -, rfl⟩ := Queue.offer_eq_accepted hq
    have h₁ := potential_waiting hw
    have h₂ := potential_append { d with waiting := d.waiting.eraseIdx i } s (.work w) true
    have h₃ : itemLoad s (.work w) = workload s w := rfl
    dsimp only at h₂
    omega
  | @turnedAway i s w hw hq =>
    have h₁ := potential_waiting hw
    rw [show potential (Dispatcher.notice _ _) = _ from
      apart_potential.fail { d with waiting := d.waiting.eraseIdx i } w .abandoned]
    omega
  | @popped s w q ht hq =>
    have h₁ := potential_setQueue d s q
    rw [queueLoad_pop_work hq] at h₁
    have h₂ := potential_setTask (d.setQueue s q) s (.busy w)
    rw [show (d.setQueue s q).tasks.get s = .idle from ht] at h₂
    have h₃ := two_le_workload s w
    simp only [taskLoad] at h₂
    omega
  | @poppedPill s q ht hq =>
    have h₁ := potential_setQueue d s q
    have h₂ := queueLoad_pop_le (s := s) hq
    refine potential_setTask_lt (n := 0) rfl (by omega) ?_
    rw [ht]
    show taskLoad d.draining s _ + 0 < taskLoad d.draining s .idle
    unfold afterPill
    cases s with
    | io => cases d.draining <;> decide
    | compression => cases d.draining <;> decide
  | @readied s w w' d₁ ht hp hh =>
    have hu := untouched_of_processing hp
    have hsame := sameAs_of_processing hp
    have hw : workload s w = 5 := (workload_sameAs s hsame).symm.trans (if_pos hh)
    refine potential_setTask_lt (n := 0) hu.tasks (Nat.le_of_eq (potential_processing hp)) ?_
    rw [ht]
    simp only [taskLoad, handingLoad, hw]
    omega
  | @ended s w w' d₁ r ht hp hh =>
    have hu := untouched_of_processing hp
    refine potential_setTask_lt (n := 0) ((tasks_settle _ _ _).trans hu.tasks)
      (Nat.le_of_eq ((apart_potential.settle _ _ _).trans (potential_processing hp))) ?_
    rw [ht]
    have h := two_le_workload s w
    simp only [taskLoad]
    omega
  | @crashed s w w' d₁ c ht hp =>
    have hu := untouched_of_processing hp
    refine potential_setTask_lt (n := 0) ((tasks_settle _ _ _).trans hu.tasks)
      (Nat.le_of_eq ((apart_potential.settle _ _ _).trans (potential_processing hp))) ?_
    rw [ht]
    have h := four_le_workerLoad (d₁.abandon w').draining s
    simp only [taskLoad]
    omega
  | @handed s w q ht hq =>
    -- the work costs less with the other stage, which will not hand it back
    obtain ⟨-, rfl⟩ := Queue.forward?_eq_some hq
    have hh : handsOn s w = true := by
      have := hk.task s
      rwa [ht] at this
    have h₁ := potential_append d s.peer (.work w) false
    have h₂ : itemLoad s.peer (.work w) = 2 := workload_peer hh
    refine potential_setTask_lt (n := 2) rfl (by omega) ?_
    rw [ht]
    simp only [taskLoad, handingLoad]
    omega
  | @refused s w ht hq =>
    refine potential_setTask_lt (n := 0) (tasks_settle _ _ _)
      (Nat.le_of_eq (apart_potential.settle _ _ _)) ?_
    rw [ht]
    simp only [taskLoad, handingLoad]
    omega
  | @relayedOn q ht hq =>
    obtain ⟨-, rfl⟩ := Queue.forward?_eq_some hq
    have h₁ := potential_append d .compression .pill false
    have h₂ := potential_drain (d.setQueue .compression (d.queues.compression.append .pill false))
    refine potential_setTask_lt (s := .io) (n := 1) rfl (Nat.le_trans h₂ (Nat.le_of_eq h₁)) ?_
    rw [show d.tasks.get .io = _ from ht]
    show 6 + 1 < 9
    decide
  | @relayedBack q ht hq =>
    obtain ⟨-, rfl⟩ := Queue.forward?_eq_some hq
    refine potential_setTask_lt (n := 1) rfl
      (Nat.le_of_eq (potential_append d .io .pill false)) ?_
    rw [show d.tasks.get .compression = _ from ht]
    show 3 + 1 < workerLoad false .compression - 1
    decide
  | @relayRefused s ht hq =>
    refine potential_setTask_lt (n := 0) rfl (Nat.le_refl _) ?_
    rw [ht]
    show 3 + 0 < workerLoad false s - 1
    cases s <;> decide
  | @left s ht =>
    refine potential_setTask_lt (n := 0) (tasks_abandonAll _ _)
      (Nat.le_trans (Nat.le_of_eq (apart_potential.abandonAll _ _)) (potential_close d s)) ?_
    rw [ht]
    exact Nat.zero_lt_succ _
  | @leftCrashed s ht =>
    have h₁ := potential_close d s
    have h₂ := potential_sendPill (d.setQueue s (d.queues.get s).close.2) s.peer
    refine potential_setTask_lt (n := 1) ((tasks_abandonAll _ _).trans (tasks_sendPill _ _))
      (Nat.le_trans (Nat.le_of_eq (apart_potential.abandonAll _ _)) (by omega)) ?_
    rw [ht]
    show 0 + 1 < 3
    decide
  | @pillPushed q hh hq =>
    obtain ⟨-, -, rfl⟩ := Queue.offer_eq_accepted hq
    refine potential_halt_lt (n := 1) rfl (Nat.le_of_eq (potential_append d .io .pill true)) ?_
    rw [hh]
    decide
  | pillRejected hh =>
    refine potential_halt_lt (n := 0) rfl (Nat.le_refl _) ?_
    rw [hh]
    decide
  | @joined s e hh =>
    refine potential_halt_lt (n := 0) rfl (Nat.le_refl _) ?_
    rw [hh]
    exact haltLoad_afterJoin s e e
  | @joinedCrashed s e hh =>
    refine potential_halt_lt (c := d.notice _) (n := 0) rfl (Nat.le_refl _) ?_
    rw [hh]
    exact haltLoad_afterJoin s e _
  | @closedIo e hh =>
    refine potential_halt_lt (n := 0) (apart_halt.failAll _ _)
      (Nat.le_trans (Nat.le_of_eq (apart_potential.failAll _ _)) (potential_close d .io)) ?_
    rw [hh]
    show 2 + 0 < 3
    decide
  | @closedCompression e hh =>
    refine potential_halt_lt (c := Dispatcher.notice _ _) (n := 0) (apart_halt.failAll _ _)
      (Nat.le_trans (Nat.le_of_eq (apart_potential.failAll _ _)) (potential_close d .compression)) ?_
    rw [hh]
    show 0 + 0 < 2
    decide

/-! ### Runs without submissions -/

/-- A bound on the steps to come, those of a stopping that has not begun yet included. -/
def remaining (d : Dispatcher σ κ) : Nat :=
  d.potential + if d.halt = .running then haltLoad .pushing + 1 else 0

theorem remaining_lt (hk : onItsWay.Holds d) {a : Action} (ht : Transition p d a d') :
    d'.remaining < d.remaining := by
  have h := potential_lt hk ht
  have hr := running_of_transition ht
  unfold remaining
  by_cases hh : d.halt = .running
  · rw [if_pos hh, if_pos (hr.mpr hh)]
    omega
  · rw [if_neg hh, if_neg (fun h => hh (hr.mp h))]
    omega

theorem remaining_le_of_called (h : d.Called d') : d'.remaining ≤ d.remaining := by
  have hp : d'.potential + haltLoad d.halt = d.potential + haltLoad d'.halt := by
    unfold potential
    rw [h.waiting, h.queues, h.tasks, h.draining]
    omega
  unfold remaining
  rcases h.halt with hh | ⟨hr, -, hh⟩
  · rw [hh] at hp ⊢
    omega
  · rw [hr, hh] at hp
    rw [hr, hh, if_pos rfl, if_neg (by simp)]
    have h₀ : haltLoad .running = 0 := rfl
    omega

theorem remaining_le (hk : onItsWay.Holds d) (m : Move p d d') : d'.remaining ≤ d.remaining := by
  rcases m.cases with ⟨a, h⟩ | hc
  · exact Nat.le_of_lt (remaining_lt hk (transition_of_step h))
  · exact remaining_le_of_called hc

/-- `Steps p d n d'`: a run from `d` to `d'` that submits nothing and has `n` steps of the dispatcher,
    with any calls of clients between them. -/
inductive Steps (p : Setup σ η κ) (d : Dispatcher σ κ) : Nat → Dispatcher σ κ → Prop
  | start : Steps p d 0 d
  | act {n : Nat} {d₁ d₂ : Dispatcher σ κ} (h : Steps p d n d₁) (a : Action)
      (hs : d₁.step p a = some d₂) : Steps p d (n + 1) d₂
  | call {n : Nat} {d₁ d₂ : Dispatcher σ κ} (h : Steps p d n d₁) (m : Move p d₁ d₂)
      (hc : ∀ a, d₁.step p a ≠ some d₂) : Steps p d n d₂

theorem Steps.holds {n : Nat} (hk : onItsWay.Holds d) (h : Steps p d n d') : onItsWay.Holds d' := by
  have move : ∀ {d₁ d₂ : Dispatcher σ κ}, onItsWay.Holds d₁ → Move p d₁ d₂ → onItsWay.Holds d₂ :=
    fun h₁ m => Run.holds onItsWay_stable h₁ (Run.start.move m)
  induction h with
  | start => exact hk
  | act _ a hs ih => exact move ih (.act a hs)
  | call _ m _ ih => exact move ih m

/-- Such a run has no more steps than the dispatcher has before it. -/
theorem Steps.le {n : Nat} (hk : onItsWay.Holds d) (h : Steps p d n d') :
    n + d'.remaining ≤ d.remaining := by
  induction h with
  | start => exact Nat.le_of_eq (Nat.zero_add _)
  | @act n d₁ d₂ h a hs ih =>
    have := remaining_lt (h.holds hk) (transition_of_step hs)
    omega
  | @call n d₁ d₂ h m _ ih =>
    have := remaining_le (h.holds hk) m
    omega

end FilePipeline.Dispatcher
