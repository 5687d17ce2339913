import FilePipeline.Proofs.Dispatcher.Steps
import FilePipeline.Proofs.Dispatcher.Tickets
import FilePipeline.Proofs.Queue.Steps

/-! # What is said about work by where it is

A `Placement` says something about each piece of work, depending on whether it waits, is queued, is
being processed or is about to be handed on, and in which stage. If what it says is carried along
when work is pushed, popped, processed and handed on (`Stable`), it holds along a run (`Run.holds`).
Work that ends has no place any more, so nothing has to be shown about that.

The last section does the same for the queues themselves: whatever happens to them keeps their slots
right (`Run.soundQueues`). -/

namespace FilePipeline.Dispatcher

variable {σ η κ : Type} {p : Setup σ η κ} {d d' d₀ : Dispatcher σ κ} {rs : List Submission}

/-- Something said about each piece of work by where it is. For queued work this may depend on
    whether it takes a slot. -/
structure Placement where
  waiting : Stage → Work → Prop
  queued : Stage → Bool → Work → Prop
  busy : Stage → Work → Prop
  handing : Stage → Work → Prop

namespace Placement

/-- What is said about the work a task has at hand. -/
def task (P : Placement) (s : Stage) : Task → Prop
  | .busy w => P.busy s w
  | .handing w => P.handing s w
  | _ => True

/-- What is said about an entry of a queue. -/
def entry (P : Placement) (s : Stage) (e : Entry Work) : Prop :=
  ∀ w, e.item = .work w → P.queued s e.counted w

/-- It is true of all work of a dispatcher. -/
structure Holds (P : Placement) (d : Dispatcher σ κ) : Prop where
  waiting : ∀ x ∈ d.waiting, P.waiting x.1 x.2
  queued : ∀ s, ∀ e ∈ (d.queues.get s).entries, P.entry s e
  task : ∀ s, P.task s (d.tasks.get s)

/-- It is carried along when work is pushed, popped and handed on. -/
structure Carried (P : Placement) : Prop where
  push : ∀ s w, P.waiting s w → P.queued s true w
  pop : ∀ s c w, P.queued s c w → P.busy s w
  hand : ∀ s w, P.handing s w → P.queued s.peer false w

/-- It is carried along when work moves on, and true of work that is submitted. -/
structure Stable (p : Setup σ η κ) (P : Placement) : Prop where
  submit : ∀ (id : WorkId) (r : Submission) (path : PathField),
    P.waiting (firstStage r) { Work.ofSubmission id p.ownHeap r with path }
  push : ∀ s w, P.waiting s w → P.queued s true w
  pop : ∀ s c w, P.queued s c w → P.busy s w
  ready : ∀ (d d' : Dispatcher σ κ) (s : Stage) (w w' : Work), P.busy s w →
    d.processing p s w = (d', w', .ok ()) → handsOn s w' = true → P.handing s w'
  hand : ∀ s w, P.handing s w → P.queued s.peer false w

variable {P : Placement}

/-! ### Exchanging parts of a dispatcher -/

theorem Holds.congr (h : P.Holds d) (hw : d'.waiting = d.waiting) (hq : d'.queues = d.queues)
    (ht : d'.tasks = d.tasks) : P.Holds d' := by
  refine ⟨?_, ?_, ?_⟩
  · rw [hw]; exact h.waiting
  · rw [hq]; exact h.queued
  · rw [ht]; exact h.task

theorem Holds.setQueue {s : Stage} {q : Queue Work} (h : P.Holds d)
    (hq : ∀ e ∈ q.entries, P.entry s e) : P.Holds (d.setQueue s q) := by
  refine ⟨h.waiting, fun s' => ?_, h.task⟩
  have := h.queued s'
  cases s <;> cases s' <;> first | exact hq | exact this

theorem Holds.setTask {s : Stage} {t : Task} (h : P.Holds d) (ht : P.task s t) :
    P.Holds (d.setTask s t) := by
  refine ⟨h.waiting, h.queued, fun s' => ?_⟩
  have := h.task s'
  cases s <;> cases s' <;> first | exact ht | exact this

theorem Holds.erase (h : P.Holds d) (i : Nat) :
    P.Holds { d with waiting := d.waiting.eraseIdx i } :=
  ⟨fun x hx => h.waiting x (List.mem_of_mem_eraseIdx hx), h.queued, h.task⟩

theorem Holds.close (h : P.Holds d) (s : Stage) :
    P.Holds (d.setQueue s (d.queues.get s).close.2) :=
  h.setQueue fun _ he => absurd he List.not_mem_nil

theorem entries_append {s : Stage} {q : Queue Work} {i : Item Work} {c : Bool}
    (hq : ∀ e ∈ q.entries, P.entry s e) (hi : P.entry s ⟨i, c⟩) :
    ∀ e ∈ (q.append i c).entries, P.entry s e := by
  intro e he
  rcases List.mem_append.mp he with he | he
  · exact hq e he
  · obtain rfl := List.mem_singleton.mp he
    exact hi

theorem entry_pill (s : Stage) (c : Bool) : P.entry s ⟨.pill, c⟩ := by
  intro w hw
  cases hw

theorem entry_work {s : Stage} {c : Bool} {w : Work} (h : P.queued s c w) :
    P.entry s ⟨.work w, c⟩ := by
  intro w' hw
  cases hw
  exact h

theorem Holds.pop {s : Stage} {q : Queue Work} {i : Item Work} (h : P.Holds d)
    (hq : (d.queues.get s).pop? = .item i q) : P.Holds (d.setQueue s q) := by
  refine h.setQueue fun e he => ?_
  rcases Queue.pop?_eq_item hq with ⟨c, rest, hr, rfl⟩ | ⟨-, -, -, rfl⟩
  · exact h.queued s e (by rw [hr]; exact List.mem_cons_of_mem _ he)
  · exact h.queued s e he

theorem Holds.popped {s : Stage} {q : Queue Work} {w : Work} (h : P.Holds d)
    (hq : (d.queues.get s).pop? = .item (.work w) q) : ∃ c, P.queued s c w := by
  obtain ⟨c, rest, hr, -⟩ := Queue.pop?_eq_work hq
  exact ⟨c, h.queued s ⟨.work w, c⟩ (by rw [hr]; exact List.mem_cons_self) w rfl⟩

theorem Holds.forward {s : Stage} {q : Queue Work} {i : Item Work} (h : P.Holds d)
    (hi : P.entry s ⟨i, false⟩) (hq : (d.queues.get s).forward? i = some q) :
    P.Holds (d.setQueue s q) := by
  obtain ⟨-, rfl⟩ := Queue.forward?_eq_some hq
  exact h.setQueue (entries_append (h.queued s) hi)

theorem Holds.offer {s : Stage} {q : Queue Work} {i : Item Work} (h : P.Holds d)
    (hi : P.entry s ⟨i, true⟩) (hq : (d.queues.get s).offer i = .accepted q) :
    P.Holds (d.setQueue s q) := by
  obtain ⟨-, -, rfl⟩ := Queue.offer_eq_accepted hq
  exact h.setQueue (entries_append (h.queued s) hi)

theorem Holds.sendPill (h : P.Holds d) (s : Stage) : P.Holds (d.sendPill s) := by
  unfold Dispatcher.sendPill
  split
  · next hq => exact h.forward (entry_pill s false) hq
  · exact h

theorem Holds.processing {s : Stage} {w w' : Work} {d₁ : Dispatcher σ κ}
    {r : Attempt WorkError Unit} (h : P.Holds d) (hp : d.processing p s w = (d₁, w', r)) :
    P.Holds d₁ := by
  have hu := untouched_of_processing hp
  exact h.congr hu.waiting hu.queues hu.tasks

/-! ### Steps -/

/-- A step, if what is said holds of work that the worker whose turn it is hands on. -/
theorem Holds.step (hs : P.Carried) (h : P.Holds d) {a : Action}
    (ready : ∀ {s w w' d₁}, a = .process s → d.tasks.get s = .busy w → P.busy s w →
      d.processing p s w = (d₁, w', .ok ()) → handsOn s w' = true → P.handing s w')
    (ht : Transition p d a d') : P.Holds d' := by
  cases ht with
  | @pushed i s w q hw hq =>
    exact (h.erase i).offer (entry_work (hs.push s w (h.waiting _ (List.mem_of_getElem? hw)))) hq
  | @turnedAway i s w =>
    exact (h.erase i).congr (waiting_fail _ _ _) (queues_fail _ _ _) (tasks_fail _ _ _)
  | @popped s w q ht hq =>
    obtain ⟨c, hc⟩ := h.popped hq
    exact (h.pop hq).setTask (hs.pop s c w hc)
  | @poppedPill s q ht hq =>
    refine (h.pop hq).setTask ?_
    cases s with
    | io => unfold afterPill; dsimp only; split <;> trivial
    | compression => trivial
  | @readied s w w' d₁ ht hp hh =>
    have hb := h.task s
    rw [ht] at hb
    exact (h.processing hp).setTask (ready rfl ht hb hp hh)
  | @ended s w w' d₁ r ht hp =>
    exact ((h.processing hp).congr (waiting_settle _ _ _) (queues_settle _ _ _)
      (tasks_settle _ _ _)).setTask trivial
  | @crashed s w w' d₁ c ht hp =>
    exact ((h.processing hp).congr (waiting_settle _ _ _) (queues_settle _ _ _)
      (tasks_settle _ _ _)).setTask trivial
  | @handed s w q ht hq =>
    have hh := h.task s
    rw [ht] at hh
    exact (h.forward (entry_work (hs.hand s w hh)) hq).setTask trivial
  | @refused s w =>
    exact (h.congr (waiting_settle _ _ _) (queues_settle _ _ _) (tasks_settle _ _ _)).setTask trivial
  | relayedOn ht hq =>
    have hf := h.forward (s := .compression) (entry_pill _ _) hq
    exact Holds.setTask (s := .io) (t := .idle) (hf.congr rfl rfl rfl) trivial
  | relayedBack ht hq => exact (h.forward (s := .io) (entry_pill _ _) hq).setTask trivial
  | relayRefused => exact h.setTask trivial
  | @left s =>
    exact ((h.close s).congr (waiting_abandonAll _ _) (queues_abandonAll _ _)
      (tasks_abandonAll _ _)).setTask trivial
  | @leftCrashed s =>
    exact (((h.close s).sendPill s.peer).congr (waiting_abandonAll _ _) (queues_abandonAll _ _)
      (tasks_abandonAll _ _)).setTask trivial
  | pillPushed hh hq => exact (h.offer (s := .io) (entry_pill _ _) hq).congr rfl rfl rfl
  | closedIo =>
    exact (h.close .io).congr (waiting_failAll _ _) (queues_failAll _ _) (tasks_failAll _ _)
  | closedCompression =>
    exact (h.close .compression).congr (waiting_failAll _ _) (queues_failAll _ _) (tasks_failAll _ _)
  | _ => exact h.congr rfl rfl rfl

theorem Holds.transition (hs : P.Stable p) (h : P.Holds d) {a : Action}
    (ht : Transition p d a d') : P.Holds d' :=
  h.step ⟨hs.push, hs.pop, hs.hand⟩
    (fun _ _ hb hp hh => hs.ready d _ _ _ _ hb hp hh) ht

theorem Holds.submitted (h : P.Holds d) {r : Submission}
    (hr : ∀ path, PathField.ofString? r.path = .ok path →
      P.waiting (firstStage r) { Work.ofSubmission d.nextId p.ownHeap r with path }) :
    P.Holds (d.submit p r) := by
  rcases submit_eq p d r with ⟨e, -, he⟩ | ⟨path, hpath, he⟩
  · rw [he]
    exact h.congr (waiting_fail _ _ _) (queues_fail _ _ _) (tasks_fail _ _ _)
  · rw [he]
    refine ⟨fun x hx => ?_, h.queued, h.task⟩
    rcases List.mem_append.mp hx with hx | hx
    · exact h.waiting x hx
    · obtain rfl := List.mem_singleton.mp hx
      exact hr path hpath

theorem Holds.submit (hs : P.Stable p) (h : P.Holds d) (r : Submission) :
    P.Holds (d.submit p r) :=
  h.submitted fun path _ => hs.submit _ r path

/-- A worker's turn, if what is said holds of all work but the one at hand before it, and of that one
    if it is to be handed on. -/
theorem Holds.turn {s : Stage} {w w' : Work} {d₁ : Dispatcher σ κ} {r : Attempt WorkError Unit}
    (h : P.Holds (d.setTask s .idle)) (hp : d.processing p s w = (d₁, w', r))
    (ready : r = .ok () → handsOn s w' = true → P.handing s w') :
    P.Holds (d₁.conclude s w' r) := by
  have hu := untouched_of_processing hp
  -- whatever the worker turns to, the rest is as it was
  have rest : ∀ {d₂ : Dispatcher σ κ} {t : Task}, d₂.waiting = d.waiting → d₂.queues = d.queues →
      d₂.tasks = d.tasks → P.task s t → P.Holds (d₂.setTask s t) := by
    intro d₂ t hw hq ht hP
    have h₂ : P.Holds (d.setTask s t) := by
      have he : (d.setTask s .idle).setTask s t = d.setTask s t := by cases s <;> rfl
      rw [← he]
      exact h.setTask hP
    exact h₂.congr hw hq (congrArg (fun ts => PerStage.set ts t s) ht)
  have settled : ∀ (e : Except WorkError Unit) {t : Task}, P.task s t →
      P.Holds ((d₁.settle w' e).setTask s t) := fun e _ hP =>
    rest ((waiting_settle _ _ _).trans hu.waiting) ((queues_settle _ _ _).trans hu.queues)
      ((tasks_settle _ _ _).trans hu.tasks) hP
  rcases d₁.conclude_cases s w' r with ⟨hr, hh, he⟩ | ⟨-, e, he⟩
  · rw [he]
    exact rest hu.waiting hu.queues hu.tasks (ready hr hh)
  · rw [he]
    exact settled e (by split <;> trivial)

/-- What is said of work by the stage that it is to go through next. -/
def ofStage (P : Stage → Work → Prop) : Placement where
  waiting s w := P s w
  queued s _ w := P s w
  busy s w := P s w
  handing s w := P s.peer w

theorem carried_ofStage (P : Stage → Work → Prop) : (ofStage P).Carried :=
  ⟨fun _ _ h => h, fun _ _ _ h => h, fun _ _ h => h⟩

end Placement

/-- A call of a client has nothing to do with what moves work. -/
theorem Move.parts (m : Move p d d') :
    (∃ a, Transition p d a d') ∨
      (d'.waiting = d.waiting ∧ d'.queues = d.queues ∧ d'.tasks = d.tasks) := by
  rcases m.cases with ⟨a, h⟩ | hc
  · exact Or.inl ⟨a, transition_of_step h⟩
  · exact Or.inr ⟨hc.waiting, hc.queues, hc.tasks⟩

theorem Unused.holds (h : Unused p d) (P : Placement) : P.Holds d := by
  refine ⟨?_, fun s => ?_, fun s => ?_⟩
  · rw [h.waiting]
    exact fun x hx => absurd hx List.not_mem_nil
  · rw [h.queues]
    cases s <;> exact fun e he => absurd he List.not_mem_nil
  · rw [h.tasks]
    cases s <;> trivial

/-- What is carried along with work holds in every run. -/
theorem Run.holds {P : Placement} (hs : P.Stable p) (h₀ : P.Holds d₀) (h : Run p d₀ rs d) :
    P.Holds d := by
  induction h with
  | start => exact h₀
  | submit r _ _ ih => exact ih.submit hs r
  | move _ m ih =>
    rcases m.parts with ⟨a, ht⟩ | ⟨hw, hq, ht⟩
    · exact ih.transition hs ht
    · exact ih.congr hw hq ht

/-! ### Slots -/

/-- The queues of a dispatcher have their slots right. -/
def SoundQueues (c : Nat) (d : Dispatcher σ κ) : Prop :=
  ∀ s, (d.queues.get s).Sound ∧ (d.queues.get s).capacity = c

namespace SoundQueues

variable {c : Nat}

theorem set {s : Stage} {q : Queue Work} (h : SoundQueues c d) (hq : q.Sound ∧ q.capacity = c)
    (hd : d'.queues = d.queues.set q s) : SoundQueues c d' := by
  intro s'
  have := h s'
  rw [hd]
  cases s <;> cases s' <;> first | exact hq | exact this

theorem congr (h : SoundQueues c d) (hd : d'.queues = d.queues) : SoundQueues c d' := by
  unfold SoundQueues
  rw [hd]
  exact h

theorem offer {s : Stage} {q : Queue Work} {i : Item Work} (h : SoundQueues c d)
    (hq : (d.queues.get s).offer i = .accepted q) (hd : d'.queues = d.queues.set q s) :
    SoundQueues c d' := by
  obtain ⟨hs, hc⟩ := (h s).1.offer hq
  exact h.set ⟨hs, hc.trans (h s).2⟩ hd

theorem forward {s : Stage} {q : Queue Work} {i : Item Work} (h : SoundQueues c d)
    (hq : (d.queues.get s).forward? i = some q) (hd : d'.queues = d.queues.set q s) :
    SoundQueues c d' := by
  obtain ⟨hs, hc⟩ := (h s).1.forward hq
  exact h.set ⟨hs, hc.trans (h s).2⟩ hd

theorem pop {s : Stage} {q : Queue Work} {i : Item Work} (h : SoundQueues c d)
    (hq : (d.queues.get s).pop? = .item i q) (hd : d'.queues = d.queues.set q s) :
    SoundQueues c d' := by
  obtain ⟨hs, hc⟩ := (h s).1.pop hq
  exact h.set ⟨hs, hc.trans (h s).2⟩ hd

theorem sendPill (h : SoundQueues c d) (s : Stage) : SoundQueues c (d.sendPill s) := by
  unfold Dispatcher.sendPill
  split
  · next hq => exact h.forward hq rfl
  · exact h

theorem close (h : SoundQueues c d) (s : Stage) :
    SoundQueues c (d.setQueue s (d.queues.get s).close.2) :=
  h.set ⟨Queue.sound_close _, (h s).2⟩ rfl

theorem transition (h : SoundQueues c d) {a : Action} (ht : Transition p d a d') :
    SoundQueues c d' := by
  cases ht with
  | pushed hw hq => exact h.offer hq rfl
  | turnedAway => exact h.congr (queues_fail _ _ _)
  | popped ht hq => exact h.pop hq rfl
  | poppedPill ht hq => exact h.pop hq rfl
  | @readied s w w' d₁ ht hp =>
    have hu := untouched_of_processing hp
    exact h.congr hu.queues
  | @ended s w w' d₁ r ht hp =>
    have hu := untouched_of_processing hp
    exact h.congr ((queues_settle _ _ _).trans hu.queues)
  | @crashed s w w' d₁ c' ht hp =>
    have hu := untouched_of_processing hp
    exact h.congr ((queues_settle _ _ _).trans hu.queues)
  | handed ht hq => exact h.forward hq rfl
  | refused => exact h.congr (queues_settle _ _ _)
  | relayedOn ht hq => exact h.forward (s := .compression) hq rfl
  | relayedBack ht hq => exact h.forward (s := .io) hq rfl
  | relayRefused => exact h
  | left => exact (h.close _).congr (queues_abandonAll _ _)
  | leftCrashed => exact ((h.close _).sendPill _).congr (queues_abandonAll _ _)
  | pillPushed hh hq => exact h.offer (s := .io) hq rfl
  | closedIo => exact (h.close .io).congr (queues_failAll _ _)
  | closedCompression => exact (h.close .compression).congr (queues_failAll _ _)
  | _ => exact h

end SoundQueues

theorem Unused.sound (h : Unused p d) : SoundQueues p.config.queueCapacity d := by
  intro s
  rw [h.queues]
  have hc := h.capacity
  cases s <;> exact ⟨Queue.sound_ofCapacity _, Nat.max_eq_left hc⟩

theorem Run.soundQueues {c : Nat} (h₀ : SoundQueues c d₀) (h : Run p d₀ rs d) :
    SoundQueues c d := by
  induction h with
  | start => exact h₀
  | @submit rs d r _ _ ih =>
    rcases submit_eq p d r with ⟨e, -, he⟩ | ⟨path, -, he⟩
    · rw [he]
      exact ih.congr (queues_fail _ _ _)
    · rw [he]
      exact ih.congr rfl
  | move _ m ih =>
    rcases m.parts with ⟨a, ht⟩ | ⟨-, hq, -⟩
    · exact ih.transition ht
    · exact ih.congr hq

end FilePipeline.Dispatcher
