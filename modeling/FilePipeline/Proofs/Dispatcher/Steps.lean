import FilePipeline.Dispatcher.Step
import FilePipeline.Proofs.Queue.Steps
import FilePipeline.Proofs.Stage.Identity

/-! # What a step can do

`Transition p d a d'` lists the ways in which the action `a` leads from `d` to `d'`, each with its
guard. `transition_of_step` says that there are no others, and `step_of_transition` that each of them
can be taken. Every fact about all steps is proved by cases over this list.

Ending work changes heaps, counters, tickets and the log, and nothing else (`Apart`): the lemmas of the
first section say so for the parts of a dispatcher that work is in. -/

namespace FilePipeline.Dispatcher

variable {σ η κ : Type}

/-! ### What ending work leaves alone -/

/-- A part of a dispatcher that is not among what ending work changes. -/
def Apart {β : Type} (part : Dispatcher σ κ → β) : Prop :=
  ∀ d hs ss ts ns,
    part { d with heaps := hs, stats := ss, tickets := ts, notices := ns } = part d

theorem Apart.settle {β : Type} {part : Dispatcher σ κ → β} (h : Apart part)
    (d : Dispatcher σ κ) (w : Work) (r : Except WorkError Unit) :
    part (d.settle w r) = part d := by
  unfold Dispatcher.settle
  split
  · exact h d _ _ _ _
  · split
    · exact h d _ _ _ _
    · exact h d _ _ _ _

theorem Apart.fail {β : Type} {part : Dispatcher σ κ → β} (h : Apart part)
    (d : Dispatcher σ κ) (w : Work) (e : WorkError) : part (d.fail w e) = part d :=
  (h.settle _ w _).trans (h d _ _ _ _)

theorem abandonAll_eq (d : Dispatcher σ κ) (is : List (Item Work)) :
    d.abandonAll is = (Item.works is).foldl Dispatcher.abandon d := by
  unfold Dispatcher.abandonAll
  induction is generalizing d with
  | nil => rfl
  | cons i is ih => cases i <;> exact ih _

theorem failAll_eq (d : Dispatcher σ κ) (is : List (Item Work)) :
    d.failAll is = (Item.works is).foldl (fun d w => d.fail w .abandoned) d := by
  unfold Dispatcher.failAll
  induction is generalizing d with
  | nil => rfl
  | cons i is ih => cases i <;> exact ih _

theorem Apart.foldl {β : Type} {part : Dispatcher σ κ → β}
    {f : Dispatcher σ κ → Work → Dispatcher σ κ} (hf : ∀ d w, part (f d w) = part d)
    (d : Dispatcher σ κ) (ws : List Work) : part (ws.foldl f d) = part d := by
  induction ws generalizing d with
  | nil => rfl
  | cons w ws ih => rw [List.foldl_cons, ih, hf]

theorem Apart.abandonAll {β : Type} {part : Dispatcher σ κ → β} (h : Apart part)
    (d : Dispatcher σ κ) (is : List (Item Work)) : part (d.abandonAll is) = part d := by
  rw [abandonAll_eq]
  exact Apart.foldl (fun d w => h.settle d w _) d _

theorem Apart.failAll {β : Type} {part : Dispatcher σ κ → β} (h : Apart part)
    (d : Dispatcher σ κ) (is : List (Item Work)) : part (d.failAll is) = part d := by
  rw [failAll_eq]
  exact Apart.foldl (fun d w => h.fail d w _) d _

theorem apart_queues : Apart (queues : Dispatcher σ κ → _) := fun _ _ _ _ _ => rfl

theorem apart_tasks : Apart (tasks : Dispatcher σ κ → _) := fun _ _ _ _ _ => rfl

theorem apart_waiting : Apart (waiting : Dispatcher σ κ → _) := fun _ _ _ _ _ => rfl

@[simp] theorem queues_settle (d : Dispatcher σ κ) (w : Work) (r : Except WorkError Unit) :
    (d.settle w r).queues = d.queues := apart_queues.settle d w r

@[simp] theorem queues_fail (d : Dispatcher σ κ) (w : Work) (e : WorkError) :
    (d.fail w e).queues = d.queues := apart_queues.fail d w e

@[simp] theorem queues_abandonAll (d : Dispatcher σ κ) (is : List (Item Work)) :
    (d.abandonAll is).queues = d.queues := apart_queues.abandonAll d is

@[simp] theorem queues_failAll (d : Dispatcher σ κ) (is : List (Item Work)) :
    (d.failAll is).queues = d.queues := apart_queues.failAll d is

@[simp] theorem tasks_settle (d : Dispatcher σ κ) (w : Work) (r : Except WorkError Unit) :
    (d.settle w r).tasks = d.tasks := apart_tasks.settle d w r

@[simp] theorem tasks_fail (d : Dispatcher σ κ) (w : Work) (e : WorkError) :
    (d.fail w e).tasks = d.tasks := apart_tasks.fail d w e

@[simp] theorem tasks_abandonAll (d : Dispatcher σ κ) (is : List (Item Work)) :
    (d.abandonAll is).tasks = d.tasks := apart_tasks.abandonAll d is

@[simp] theorem tasks_failAll (d : Dispatcher σ κ) (is : List (Item Work)) :
    (d.failAll is).tasks = d.tasks := apart_tasks.failAll d is

@[simp] theorem waiting_settle (d : Dispatcher σ κ) (w : Work) (r : Except WorkError Unit) :
    (d.settle w r).waiting = d.waiting := apart_waiting.settle d w r

@[simp] theorem waiting_fail (d : Dispatcher σ κ) (w : Work) (e : WorkError) :
    (d.fail w e).waiting = d.waiting := apart_waiting.fail d w e

@[simp] theorem waiting_abandonAll (d : Dispatcher σ κ) (is : List (Item Work)) :
    (d.abandonAll is).waiting = d.waiting := apart_waiting.abandonAll d is

@[simp] theorem waiting_failAll (d : Dispatcher σ κ) (is : List (Item Work)) :
    (d.failAll is).waiting = d.waiting := apart_waiting.failAll d is

/-! ### Processing -/

/-- What comes of processing `w` in a stage: the dispatcher with the heaps and the backend or codec as
    they are then, the work, and how it went. -/
def processing (p : Setup σ η κ) (d : Dispatcher σ κ) (s : Stage) (w : Work) :
    Dispatcher σ κ × Work × Attempt WorkError Unit :=
  match s with
  | .io =>
    let r := Stage.processIo p d.heaps d.backend w
    ({ d with heaps := r.heaps, backend := r.state }, r.work, r.result)
  | .compression =>
    let r := Stage.processCompression p d.heaps d.codec w
    ({ d with heaps := r.heaps, codec := r.state }, r.work, r.result)

theorem processing_of_io {p : Setup σ η κ} {d : Dispatcher σ κ} {w w' : Work} {hs : Heaps}
    {backend : σ} {r : Attempt WorkError Unit}
    (h : Stage.processIo p d.heaps d.backend w = ⟨r, w', hs, backend⟩) :
    d.processing p .io w = ({ d with heaps := hs, backend }, w', r) := by
  unfold processing
  dsimp only
  rw [h]

theorem processing_of_compression {p : Setup σ η κ} {d : Dispatcher σ κ} {w w' : Work} {hs : Heaps}
    {codec : κ} {r : Attempt WorkError Unit}
    (h : Stage.processCompression p d.heaps d.codec w = ⟨r, w', hs, codec⟩) :
    d.processing p .compression w = ({ d with heaps := hs, codec }, w', r) := by
  unfold processing
  dsimp only
  rw [h]

/-- The dispatcher that processing leaves, but for its heaps, its backend and its codec. -/
structure Untouched (d d₁ : Dispatcher σ κ) : Prop where
  queues : d₁.queues = d.queues
  tasks : d₁.tasks = d.tasks
  waiting : d₁.waiting = d.waiting
  draining : d₁.draining = d.draining
  halt : d₁.halt = d.halt
  workers : d₁.workers = d.workers
  tickets : d₁.tickets = d.tickets
  stats : d₁.stats = d.stats

theorem untouched_of_processing {p : Setup σ η κ} {d d₁ : Dispatcher σ κ} {s : Stage} {w w' : Work}
    {r : Attempt WorkError Unit} (h : d.processing p s w = (d₁, w', r)) : d.Untouched d₁ := by
  cases s <;> cases h <;> exact ⟨rfl, rfl, rfl, rfl, rfl, rfl, rfl, rfl⟩

theorem sameAs_of_processing {p : Setup σ η κ} {d d₁ : Dispatcher σ κ} {s : Stage} {w w' : Work}
    {r : Attempt WorkError Unit} (h : d.processing p s w = (d₁, w', r)) : w'.SameAs w := by
  cases s with
  | io => cases h; exact Stage.work_processIo p d.heaps d.backend w
  | compression => cases h; exact Stage.work_processCompression p d.heaps d.codec w

theorem process_busy {p : Setup σ η κ} {d : Dispatcher σ κ} {s : Stage} {w : Work}
    (h : d.tasks.get s = .busy w) :
    d.process p s = some ((d.processing p s w).1.conclude s (d.processing p s w).2.1
      (d.processing p s w).2.2) := by
  unfold process
  rw [h]
  cases s <;> rfl

/-- What a worker makes of what it has processed: it is to hand it on, or has ended it and turns to something
    else. -/
theorem conclude_cases (d : Dispatcher σ κ) (s : Stage) (w : Work) (r : Attempt WorkError Unit) :
    (r = .ok () ∧ handsOn s w = true ∧ d.conclude s w r = d.setTask s (.handing w)) ∨
      (r = .ok () → handsOn s w = false) ∧ ∃ e, d.conclude s w r =
        (d.settle w e).setTask s (if r.crashed then .leaving true else .idle) := by
  unfold conclude
  rcases r with (e | c) | ⟨⟩
  · exact Or.inr ⟨(fun h => by cases h), .error e, rfl⟩
  · exact Or.inr ⟨(fun h => by cases h), .error .abandoned, rfl⟩
  · cases handsOn s w with
    | true => exact Or.inl ⟨rfl, rfl, rfl⟩
    | false => exact Or.inr ⟨fun _ => rfl, .ok (), rfl⟩

/-! ### All transitions -/

/-- The ways in which an action can be taken. -/
inductive Transition (p : Setup σ η κ) (d : Dispatcher σ κ) : Action → Dispatcher σ κ → Prop
  | pushed {i : Nat} {s : Stage} {w : Work} {q : Queue Work} (hw : d.waiting[i]? = some (s, w))
      (hq : (d.queues.get s).offer (.work w) = .accepted q) :
      Transition p d (.push i) ({ d with waiting := d.waiting.eraseIdx i }.setQueue s q)
  | turnedAway {i : Nat} {s : Stage} {w : Work} (hw : d.waiting[i]? = some (s, w))
      (hq : (d.queues.get s).offer (.work w) = .rejected) :
      Transition p d (.push i)
        (({ d with waiting := d.waiting.eraseIdx i }.fail w .abandoned).notice .queueClosed)
  | popped {s : Stage} {w : Work} {q : Queue Work} (ht : d.tasks.get s = .idle)
      (hq : (d.queues.get s).pop? = .item (.work w) q) :
      Transition p d (.pop s) ((d.setQueue s q).setTask s (.busy w))
  | poppedPill {s : Stage} {q : Queue Work} (ht : d.tasks.get s = .idle)
      (hq : (d.queues.get s).pop? = .item .pill q) :
      Transition p d (.pop s) ((d.setQueue s q).setTask s (d.afterPill s))
  | readied {s : Stage} {w w' : Work} {d₁ : Dispatcher σ κ} (ht : d.tasks.get s = .busy w)
      (hp : d.processing p s w = (d₁, w', .ok ())) (hh : handsOn s w' = true) :
      Transition p d (.process s) (d₁.setTask s (.handing w'))
  | ended {s : Stage} {w w' : Work} {d₁ : Dispatcher σ κ} {r : Except WorkError Unit}
      (ht : d.tasks.get s = .busy w) (hp : d.processing p s w = (d₁, w', Attempt.ofExcept r))
      (hh : r = .ok () → handsOn s w' = false) :
      Transition p d (.process s) ((d₁.settle w' r).setTask s .idle)
  | crashed {s : Stage} {w w' : Work} {d₁ : Dispatcher σ κ} {c : Crash}
      (ht : d.tasks.get s = .busy w) (hp : d.processing p s w = (d₁, w', Attempt.crash c)) :
      Transition p d (.process s) ((d₁.abandon w').setTask s (.leaving true))
  | handed {s : Stage} {w : Work} {q : Queue Work} (ht : d.tasks.get s = .handing w)
      (hq : (d.queues.get s.peer).forward? (.work w) = some q) :
      Transition p d (.hand s) ((d.setQueue s.peer q).setTask s .idle)
  | refused {s : Stage} {w : Work} (ht : d.tasks.get s = .handing w)
      (hq : (d.queues.get s.peer).forward? (.work w) = none) :
      Transition p d (.hand s) ((d.abandon w).setTask s .idle)
  | relayedOn {q : Queue Work} (ht : d.tasks.io = .relaying)
      (hq : d.queues.compression.forward? .pill = some q) :
      Transition p d (.relay .io)
        ({ d.setQueue .compression q with draining := true }.setTask .io .idle)
  | relayedBack {q : Queue Work} (ht : d.tasks.compression = .relaying)
      (hq : d.queues.io.forward? .pill = some q) :
      Transition p d (.relay .compression)
        ((d.setQueue .io q).setTask .compression (.leaving false))
  | relayRefused {s : Stage} (ht : d.tasks.get s = .relaying)
      (hq : (d.queues.get s.peer).forward? .pill = none) :
      Transition p d (.relay s) (d.setTask s (.leaving false))
  | left {s : Stage} (ht : d.tasks.get s = .leaving false) :
      Transition p d (.leave s)
        (((d.setQueue s (d.queues.get s).close.2).abandonAll (d.queues.get s).items).setTask s
          (.gone false))
  | leftCrashed {s : Stage} (ht : d.tasks.get s = .leaving true) :
      Transition p d (.leave s)
        ((((d.setQueue s (d.queues.get s).close.2).sendPill s.peer).abandonAll
          (d.queues.get s).items).setTask s (.gone true))
  | pillPushed {q : Queue Work} (hh : d.halt = .pushing)
      (hq : d.queues.io.offer .pill = .accepted q) :
      Transition p d .halt { d.setQueue .io q with halt := .joining .io none }
  | pillRejected (hh : d.halt = .pushing) (hq : d.queues.io.offer .pill = .rejected) :
      Transition p d .halt { d with halt := .joining .io none }
  | joined {s : Stage} {e : Option JoinError} (hh : d.halt = .joining s e)
      (ht : d.tasks.get s = .gone false) : Transition p d .halt { d with halt := afterJoin s e }
  | joinedCrashed {s : Stage} {e : Option JoinError} (hh : d.halt = .joining s e)
      (ht : d.tasks.get s = .gone true) :
      Transition p d .halt
        { d.notice (.workerCrashed ⟨(d.workers.get s).name⟩) with
          halt := afterJoin s (e <|> some ⟨(d.workers.get s).name⟩) }
  | closedIo {e : Option JoinError} (hh : d.halt = .closing .io e) :
      Transition p d .halt
        { (d.setQueue .io d.queues.io.close.2).failAll d.queues.io.items with
          halt := .closing .compression e }
  | closedCompression {e : Option JoinError} (hh : d.halt = .closing .compression e) :
      Transition p d .halt
        (((d.setQueue .compression d.queues.compression.close.2).failAll
          d.queues.compression.items).finish e)

/-! ### There are no others -/

theorem transition_of_push {p : Setup σ η κ} {d d' : Dispatcher σ κ} {i : Nat}
    (h : d.push i = some d') : Transition p d (.push i) d' := by
  unfold push at h
  split at h
  · simp at h
  · next s w hw =>
    dsimp only at h
    split at h
    · next q hq => cases h; exact .pushed hw hq
    · simp at h
    · next hq => cases h; exact .turnedAway hw hq

theorem transition_of_pop {p : Setup σ η κ} {d d' : Dispatcher σ κ} {s : Stage}
    (h : d.pop s = some d') : Transition p d (.pop s) d' := by
  unfold pop at h
  split at h
  · next ht =>
    split at h
    · simp at h
    · next w q hq => cases h; exact .popped ht hq
    · next q hq => cases h; exact .poppedPill ht hq
  · simp at h

theorem transition_of_process {p : Setup σ η κ} {d d' : Dispatcher σ κ} {s : Stage}
    (h : d.process p s = some d') : Transition p d (.process s) d' := by
  have hb : ∃ w, d.tasks.get s = .busy w := by
    unfold process at h
    split at h
    · exact ⟨_, ‹_›⟩
    · simp at h
  obtain ⟨w, ht⟩ := hb
  rw [process_busy ht] at h
  rcases hp : d.processing p s w with ⟨d₁, w', r⟩
  rw [hp] at h
  cases h
  rcases r with (e | c) | ⟨⟩
  · exact .ended (r := .error e) ht hp (by simp)
  · exact .crashed ht hp
  · unfold conclude
    dsimp only
    split
    · next hh => exact .readied ht hp hh
    · next hh => exact .ended (r := .ok ()) ht hp fun _ => by simpa using hh

theorem transition_of_hand {p : Setup σ η κ} {d d' : Dispatcher σ κ} {s : Stage}
    (h : d.hand s = some d') : Transition p d (.hand s) d' := by
  unfold hand at h
  split at h
  · next w ht =>
    split at h
    · next q hq => cases h; exact .handed ht hq
    · next hq => cases h; exact .refused ht hq
  · simp at h

theorem transition_of_relay {p : Setup σ η κ} {d d' : Dispatcher σ κ} {s : Stage}
    (h : d.relay s = some d') : Transition p d (.relay s) d' := by
  unfold relay at h
  split at h
  · next ht =>
    split at h
    · next q hq => cases h; exact .relayedOn ht hq
    · next q hq => cases h; exact .relayedBack ht hq
    · next hq => cases h; exact .relayRefused ht hq
  · simp at h

theorem transition_of_leave {p : Setup σ η κ} {d d' : Dispatcher σ κ} {s : Stage}
    (h : d.leave s = some d') : Transition p d (.leave s) d' := by
  unfold leave at h
  split at h
  · next crashed ht =>
    cases h
    cases crashed with
    | false => exact .left ht
    | true => exact .leftCrashed ht
  · simp at h

theorem transition_of_haltStep {p : Setup σ η κ} {d d' : Dispatcher σ κ}
    (h : d.haltStep = some d') : Transition p d .halt d' := by
  unfold haltStep at h
  split at h
  · simp at h
  · simp at h
  · next hh =>
    split at h
    · next q hq => cases h; exact .pillPushed hh hq
    · simp at h
    · next hq => cases h; exact .pillRejected hh hq
  · next s e hh =>
    unfold join at h
    split at h
    · next crashed ht =>
      cases crashed with
      | false => cases h; exact .joined hh ht
      | true => cases h; exact .joinedCrashed hh ht
    · simp at h
  · next s e hh =>
    cases s with
    | io => cases h; exact .closedIo hh
    | compression => cases h; exact .closedCompression hh

theorem transition_of_step {p : Setup σ η κ} {d d' : Dispatcher σ κ} {a : Action}
    (h : d.step p a = some d') : Transition p d a d' := by
  cases a with
  | push i => exact transition_of_push h
  | pop s => exact transition_of_pop h
  | process s => exact transition_of_process h
  | hand s => exact transition_of_hand h
  | relay s => exact transition_of_relay h
  | leave s => exact transition_of_leave h
  | halt => exact transition_of_haltStep h

/-! ### Each can be taken -/

theorem step_of_transition {p : Setup σ η κ} {d d' : Dispatcher σ κ} {a : Action}
    (h : Transition p d a d') : d.step p a = some d' := by
  cases h with
  | pushed hw hq => simp only [step, push, hw, hq]
  | turnedAway hw hq => simp only [step, push, hw, hq]
  | popped ht hq => simp only [step, pop, ht, hq]
  | poppedPill ht hq => simp only [step, pop, ht, hq]
  | readied ht hp hh => simp only [step, process_busy ht, hp, conclude, hh, if_true]
  | @ended s w w' d₁ r ht hp hh =>
    rcases r with e | ⟨⟩
    · simp only [step, process_busy ht, hp, conclude, Attempt.ofExcept, Attempt.fail]
    · simp only [step, process_busy ht, hp, conclude, Attempt.ofExcept, hh rfl,
        Bool.false_eq_true, if_false]
  | crashed ht hp => simp only [step, process_busy ht, hp, conclude, Attempt.crash]
  | handed ht hq => simp only [step, hand, ht, hq]
  | refused ht hq => simp only [step, hand, ht, hq]
  | relayedOn ht hq => simp only [step, relay, PerStage.get, ht, Stage.peer, hq]
  | relayedBack ht hq => simp only [step, relay, PerStage.get, ht, Stage.peer, hq]
  | @relayRefused s ht hq =>
    cases s <;> simp only [step, relay, ht, hq]
  | left ht => simp only [step, leave, ht, Bool.false_eq_true, if_false]; rfl
  | leftCrashed ht => simp only [step, leave, ht, if_true]; rfl
  | pillPushed hh hq => simp only [step, haltStep, hh, hq]
  | pillRejected hh hq => simp only [step, haltStep, hh, hq]
  | joined hh ht => simp only [step, haltStep, hh, join, ht, Worker.join, Bool.false_eq_true, if_false]
  | joinedCrashed hh ht => simp only [step, haltStep, hh, join, ht, Worker.join, if_true]
  | closedIo hh => simp only [step, haltStep, hh]; rfl
  | closedCompression hh => simp only [step, haltStep, hh]; rfl

end FilePipeline.Dispatcher
