import FilePipeline.Proofs.Dispatcher.Balance
import FilePipeline.Proofs.Dispatcher.Outline
import FilePipeline.Proofs.Dispatcher.Tickets

/-! # The outline of a dispatcher

Every action of a dispatcher is a step of its outline (`outline_of_transition`), and so is every call
of a client. So every run is guided (`Run.guided`). -/

namespace FilePipeline

def Task.post : Task → Post
  | .idle | .busy _ | .handing _ => .serving
  | .relaying => .relaying
  | .leaving c => .leaving c
  | .gone c => .gone c

def Queue.pills {α : Type} (q : Queue α) : Nat := q.items.countP fun i => i.work?.isNone

namespace Dispatcher

variable {σ η κ : Type} {p : Setup σ η κ} {d d' d₀ : Dispatcher σ κ} {rs : List Submission}

def outline (d : Dispatcher σ κ) : Outline where
  posts := ⟨d.tasks.io.post, d.tasks.compression.post⟩
  pills := ⟨d.queues.io.pills, d.queues.compression.pills⟩
  closed := ⟨d.queues.io.closed, d.queues.compression.closed⟩
  draining := d.draining
  halt := d.halt

theorem posts_outline (d : Dispatcher σ κ) (s : Stage) :
    d.outline.posts.get s = (d.tasks.get s).post := by cases s <;> rfl

theorem pills_outline (d : Dispatcher σ κ) (s : Stage) :
    d.outline.pills.get s = (d.queues.get s).pills := by cases s <;> rfl

theorem closed_outline (d : Dispatcher σ κ) (s : Stage) :
    d.outline.closed.get s = (d.queues.get s).closed := by cases s <;> rfl

/-! ### What moves do to the outline -/

theorem apart_outline : Apart (outline : Dispatcher σ κ → _) := fun _ _ _ _ _ => rfl

theorem outline_setTask (d : Dispatcher σ κ) (s : Stage) (t : Task) :
    (d.setTask s t).outline = d.outline.setPost s t.post := by cases s <;> rfl

theorem outline_setQueue {s : Stage} {q : Queue Work} (h : q.closed = (d.queues.get s).closed) :
    (d.setQueue s q).outline = d.outline.setPills s q.pills := by
  unfold outline Outline.setPills
  cases s <;> simp only [setQueue, PerStage.set, PerStage.get] at h ⊢ <;> rw [h]

theorem outline_setQueue_of_pills {s : Stage} {q : Queue Work}
    (h : q.closed = (d.queues.get s).closed) (hp : q.pills = (d.queues.get s).pills) :
    (d.setQueue s q).outline = d.outline := by
  rw [outline_setQueue h, hp]
  cases s <;> rfl

theorem pills_append (q : Queue Work) (i : Item Work) (c : Bool) :
    (q.append i c).pills = q.pills + if i.work?.isNone then 1 else 0 := by
  unfold Queue.pills Queue.items Queue.append
  rw [List.map_append, List.countP_append, List.map_singleton, List.countP_singleton]

theorem pills_pop {q q' : Queue Work} {i : Item Work} (h : q.pop? = .item i q') :
    q'.closed = q.closed ∧
      ((∃ w, i = .work w) ∧ q'.pills = q.pills ∨
        i = .pill ∧ q'.pills = q.pills - 1 ∧ (0 < q.pills ∨ q.closed = true)) := by
  rcases Queue.pop?_eq_item h with ⟨c, rest, he, rfl⟩ | ⟨he, hc, rfl, rfl⟩
  · have hp : q.pills = (rest.map Entry.item).countP (fun i => i.work?.isNone) +
        if i.work?.isNone then 1 else 0 := by
      unfold Queue.pills Queue.items
      rw [he, List.map_cons, List.countP_cons]
    refine ⟨rfl, ?_⟩
    cases i with
    | work w => exact Or.inl ⟨⟨w, rfl⟩, hp.symm⟩
    | pill =>
      rw [hp]
      exact Or.inr ⟨rfl, rfl, Or.inl (Nat.succ_pos _)⟩
  · refine ⟨rfl, Or.inr ⟨rfl, ?_, Or.inr hc⟩⟩
    unfold Queue.pills Queue.items
    rw [he]
    rfl

theorem outline_close (d : Dispatcher σ κ) (s : Stage) :
    (d.setQueue s (d.queues.get s).close.2).outline = d.outline.close s := by cases s <;> rfl

theorem outline_append_pill {s : Stage} (h : (d.queues.get s).closed = false) (c : Bool) :
    (d.setQueue s ((d.queues.get s).append .pill c)).outline = d.outline.sendPill s := by
  have hq : ((d.queues.get s).append .pill c).closed = (d.queues.get s).closed := rfl
  rw [outline_setQueue hq, pills_append, ← pills_outline]
  unfold Outline.sendPill
  rw [closed_outline, h]
  rfl

theorem outline_append_work (d : Dispatcher σ κ) (s : Stage) (w : Work) (c : Bool) :
    (d.setQueue s ((d.queues.get s).append (.work w) c)).outline = d.outline :=
  outline_setQueue_of_pills rfl (pills_append _ _ _)

theorem outline_sendPill (d : Dispatcher σ κ) (s : Stage) :
    (d.sendPill s).outline = d.outline.sendPill s := by
  unfold sendPill
  split
  · next q hq =>
    obtain ⟨hc, rfl⟩ := Queue.forward?_eq_some hq
    exact outline_append_pill hc false
  · next hq =>
    unfold Queue.forward? at hq
    split at hq
    · next hc =>
      unfold Outline.sendPill
      rw [closed_outline, if_pos hc]
    · cases hq

theorem outline_processing {s : Stage} {w w' : Work} {r : Attempt WorkError Unit}
    (h : d.processing p s w = (d', w', r)) : d'.outline = d.outline := by
  have hu := untouched_of_processing h
  unfold outline
  rw [hu.tasks, hu.queues, hu.draining, hu.halt]

theorem closed_of_forward? {q : Queue Work} {i : Item Work} (h : q.forward? i = none) :
    q.closed = true := by
  unfold Queue.forward? at h
  split at h
  · assumption
  · cases h

theorem closed_of_offer {q : Queue Work} {i : Item Work} (h : q.offer i = .rejected) :
    q.closed = true := by
  unfold Queue.offer at h
  split at h
  · assumption
  · split at h <;> cases h

theorem post_afterPill (d : Dispatcher σ κ) (s : Stage) :
    (d.afterPill s).post = d.outline.afterPill s := by
  cases s with
  | io =>
    unfold Dispatcher.afterPill Outline.afterPill
    show Task.post (if d.draining then _ else _) = if d.draining then _ else _
    split <;> rfl
  | compression => rfl

/-- Every action is a step of the outline. -/
theorem outline_of_transition {a : Action} (ht : Transition p d a d') :
    d.outline.Step d'.outline := by
  -- a worker goes on serving, and nothing else happens to the outline
  have keep : ∀ {d₁ : Dispatcher σ κ} {s : Stage} {t : Task}, d₁.outline = d.outline →
      t.post = (d.tasks.get s).post → d.outline.Step (d₁.setTask s t).outline := by
    intro d₁ s t h hp
    rw [outline_setTask, h, hp, ← posts_outline]
    cases s <;> exact .same
  cases ht with
  | @pushed i s w q hw hq =>
    obtain ⟨-, -, rfl⟩ := Queue.offer_eq_accepted hq
    rw [outline_append_work { d with waiting := d.waiting.eraseIdx i } s w true]
    exact .same
  | @turnedAway i s w =>
    rw [show Dispatcher.outline (Dispatcher.notice _ _) = _ from apart_outline.fail _ w .abandoned]
    exact .same
  | @popped s w q ht hq =>
    obtain ⟨hc, ⟨-, hp⟩ | ⟨hi, -⟩⟩ := pills_pop hq
    · exact keep (outline_setQueue_of_pills hc hp) (by rw [ht]; rfl)
    · cases hi
  | @poppedPill s q ht hq =>
    obtain ⟨hc, ⟨⟨w, hi⟩, -⟩ | ⟨-, hp, hsome⟩⟩ := pills_pop hq
    · cases hi
    · rw [outline_setTask, outline_setQueue hc, hp, ← pills_outline, post_afterPill]
      refine .took (by rw [posts_outline, ht]; rfl) ?_
      rw [pills_outline, closed_outline]
      exact hsome
  | @readied s w w' d₁ ht hp => exact keep (outline_processing hp) (by rw [ht]; rfl)
  | @ended s w w' d₁ r ht hp =>
    exact keep ((apart_outline.settle _ _ _).trans (outline_processing hp)) (by rw [ht]; rfl)
  | @crashed s w w' d₁ c ht hp =>
    rw [outline_setTask, show Dispatcher.outline (d₁.abandon w') = _ from apart_outline.settle _ _ _,
      outline_processing hp]
    exact .crashed (by rw [posts_outline, ht]; rfl)
  | @handed s w q ht hq =>
    obtain ⟨-, rfl⟩ := Queue.forward?_eq_some hq
    exact keep (outline_append_work d s.peer w false) (by rw [ht]; rfl)
  | @refused s w ht => exact keep (apart_outline.settle _ _ _) (by rw [ht]; rfl)
  | @relayedOn q ht hq =>
    obtain ⟨hc, rfl⟩ := Queue.forward?_eq_some hq
    rw [outline_setTask]
    have h := outline_append_pill (d := d) (s := .compression) hc false
    have h' : ({ d.setQueue .compression (d.queues.compression.append .pill false) with
        draining := true } : Dispatcher σ κ).outline =
        { d.outline.sendPill .compression with draining := true } := by
      rw [← h]
      rfl
    rw [h']
    exact .relayedOn (congrArg Task.post ht) hc
  | @relayedBack q ht hq =>
    obtain ⟨hc, rfl⟩ := Queue.forward?_eq_some hq
    have h : (d.setQueue .io (d.queues.io.append .pill false)).outline = d.outline.sendPill .io :=
      outline_append_pill (s := .io) hc false
    rw [outline_setTask, h]
    exact .relayedBack (congrArg Task.post ht) hc
  | @relayRefused s ht hq =>
    rw [outline_setTask]
    exact .relayRefused (by rw [posts_outline, ht]; rfl)
      (by rw [closed_outline]; exact closed_of_forward? hq)
  | @left s ht =>
    rw [outline_setTask, apart_outline.abandonAll, outline_close]
    exact .left (by rw [posts_outline, ht]; rfl)
  | @leftCrashed s ht =>
    rw [outline_setTask, apart_outline.abandonAll, outline_sendPill, outline_close]
    exact .leftCrashed (by rw [posts_outline, ht]; rfl)
  | @pillPushed q hh hq =>
    obtain ⟨hc, -, rfl⟩ := Queue.offer_eq_accepted hq
    have h := outline_append_pill (d := d) (s := .io) hc true
    have h' : ({ d.setQueue .io (d.queues.io.append .pill true) with
        halt := .joining .io none } : Dispatcher σ κ).outline =
        { d.outline.sendPill .io with halt := .joining .io none } := by
      rw [← h]
      rfl
    rw [h']
    exact .pillPushed hh hc
  | pillRejected hh hq => exact .pillRejected hh (closed_of_offer hq)
  | @joined s e hh ht => exact .joined hh (by rw [posts_outline, ht]; rfl)
  | @joinedCrashed s e hh ht => exact .joinedCrashed _ hh (by rw [posts_outline, ht]; rfl)
  | @closedIo e hh =>
    have h := (apart_outline.failAll (d.setQueue .io d.queues.io.close.2) d.queues.io.items).trans
      (outline_close d .io)
    have h' : ({ (d.setQueue .io d.queues.io.close.2).failAll d.queues.io.items with
        halt := .closing .compression e } : Dispatcher σ κ).outline =
        { d.outline.close .io with halt := .closing .compression e } := by
      rw [← h]
      rfl
    rw [h']
    exact .closedIo hh
  | @closedCompression e hh =>
    have h := (apart_outline.failAll (d.setQueue .compression d.queues.compression.close.2)
      d.queues.compression.items).trans (outline_close d .compression)
    have h' : (((d.setQueue .compression d.queues.compression.close.2).failAll
        d.queues.compression.items).finish e).outline =
        { d.outline.close .compression with halt := .stopped e } := by
      rw [← h]
      rfl
    rw [h']
    exact .closedCompression hh

theorem outline_of_move (m : Move p d d') : d.outline.Step d'.outline := by
  rcases m.cases with ⟨a, h⟩ | hc
  · exact outline_of_transition (transition_of_step h)
  · have he : d'.outline = { d.outline with halt := d'.halt } := by
      unfold outline
      rw [hc.tasks, hc.queues, hc.draining]
    rw [he]
    rcases hc.halt with hh | ⟨hr, -, hh⟩
    · rw [hh]
      exact .same
    · rw [hh]
      exact .begun hr

theorem outline_submit (p : Setup σ η κ) (d : Dispatcher σ κ) (r : Submission) :
    (d.submit p r).outline = d.outline := by
  rcases submit_eq p d r with ⟨e, -, he⟩ | ⟨path, -, he⟩
  · rw [he]
    exact apart_outline.fail _ _ _
  · rw [he]
    rfl

/-! ### Who waits -/

/-- Besides pushing, nobody stops waiting. -/
theorem waiting_of_transition {a : Action} (ht : Transition p d a d') (ha : ∀ i, a ≠ .push i) :
    d'.waiting = d.waiting := by
  cases ht with
  | pushed | turnedAway => exact absurd rfl (ha _)
  | readied ht hp =>
    have hu := untouched_of_processing hp
    exact hu.waiting
  | ended ht hp | crashed ht hp =>
    have hu := untouched_of_processing hp
    exact (waiting_settle _ _ _).trans hu.waiting
  | refused => exact waiting_settle _ _ _
  | left => exact waiting_abandonAll _ _
  | leftCrashed =>
    refine (waiting_abandonAll _ _).trans ?_
    unfold sendPill
    split <;> rfl
  | closedIo => exact waiting_failAll _ _
  | closedCompression => exact waiting_failAll _ _
  | _ => rfl

theorem waiting_subset {a : Action} (ht : Transition p d a d') : d'.waiting ⊆ d.waiting := by
  by_cases hp : ∃ i, a = .push i
  · obtain ⟨i, rfl⟩ := hp
    cases ht with
    | pushed => exact fun x hx => List.mem_of_mem_eraseIdx hx
    | @turnedAway i s w =>
      have hrest := waiting_fail { d with waiting := d.waiting.eraseIdx i } w .abandoned
      rw [show Dispatcher.waiting (Dispatcher.notice _ _) = _ from hrest]
      exact fun x hx => List.mem_of_mem_eraseIdx hx
  · rw [waiting_of_transition ht fun i he => hp ⟨i, he⟩]
    exact List.Subset.refl _

/-! ### How far the stopping is -/

theorem apart_halt : Apart (halt : Dispatcher σ κ → _) := fun _ _ _ _ _ => rfl

theorem apart_draining : Apart (draining : Dispatcher σ κ → _) := fun _ _ _ _ _ => rfl

theorem halt_sendPill (d : Dispatcher σ κ) (s : Stage) : (d.sendPill s).halt = d.halt := by
  unfold sendPill
  split <;> rfl

/-- The stopping is where it was after every action of anybody else. -/
theorem halt_of_transition {a : Action} (ht : Transition p d a d') (ha : a ≠ .halt) :
    d'.halt = d.halt := by
  cases ht with
  | turnedAway => exact apart_halt.fail _ _ _
  | readied ht hp =>
    have hu := untouched_of_processing hp
    exact hu.halt
  | ended ht hp =>
    have hu := untouched_of_processing hp
    exact (apart_halt.settle _ _ _).trans hu.halt
  | crashed ht hp =>
    have hu := untouched_of_processing hp
    exact (apart_halt.settle _ _ _).trans hu.halt
  | refused => exact apart_halt.settle _ _ _
  | left => exact apart_halt.abandonAll _ _
  | leftCrashed => exact (apart_halt.abandonAll _ _).trans (halt_sendPill _ _)
  | pillPushed | pillRejected | joined | joinedCrashed | closedIo | closedCompression =>
    exact absurd rfl ha
  | _ => rfl

/-- Actions do not begin the stopping, nor take it back. -/
theorem running_of_transition {a : Action} (ht : Transition p d a d') :
    d'.halt = .running ↔ d.halt = .running := by
  by_cases ha : a = .halt
  · subst ha
    have after : ∀ s e, afterJoin s e ≠ .running := by
      intro s e
      cases s <;> simp [afterJoin]
    cases ht with
    | pillPushed hh => simp [hh]
    | pillRejected hh => simp [hh]
    | joined hh => simp [hh, after]
    | joinedCrashed hh => simp [hh, after]
    | closedIo hh => simp [hh]
    | closedCompression hh => simp [hh, finish]
  · rw [halt_of_transition ht ha]

/-! ### Runs -/

theorem Unused.guided (h : Unused p d) : d.outline.Guided := by
  refine .initial _ ?_ ?_ ?_ h.draining h.halt
  · show (⟨_, _⟩ : PerStage Post) = _
    rw [h.tasks]
    rfl
  · show (⟨_, _⟩ : PerStage Nat) = _
    rw [h.queues]
    rfl
  · show (⟨_, _⟩ : PerStage Bool) = _
    rw [h.queues]
    rfl

theorem Run.guided (h₀ : Unused p d₀) (h : Run p d₀ rs d) : d.outline.Guided := by
  induction h with
  | start => exact h₀.guided
  | submit r _ _ ih => rwa [outline_submit]
  | move _ m ih => exact ih.step (outline_of_move m)

theorem Run.closed_iff (h₀ : Unused p d₀) (h : Run p d₀ rs d) (s : Stage) :
    (d.queues.get s).closed = true ↔ ∃ c, d.tasks.get s = .gone c := by
  have hc := (h.guided h₀).closed s
  rw [closed_outline, posts_outline] at hc
  rw [hc]
  constructor
  · rintro ⟨c, hp⟩
    cases ht : d.tasks.get s with
    | gone c' => exact ⟨c', rfl⟩
    | _ => rw [ht] at hp; cases hp
  · rintro ⟨c, hp⟩
    exact ⟨c, by rw [hp]; rfl⟩

end Dispatcher

end FilePipeline
