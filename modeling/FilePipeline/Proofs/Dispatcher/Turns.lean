import FilePipeline.Proofs.Dispatcher.Completion
import FilePipeline.Proofs.Dispatcher.Placement

/-! # Turns

A worker's turn at a piece of work is the step in which it processes that work. `Recorded` is a run
with the list of its turns, oldest first, and every run can be recorded (`Run.recorded`). The list
tells what no single state tells any more: who crashed, what was read and written and in which order,
and why each piece of work ended as it did (`Recorded.ending`). Whatever is true of work when it ends and
is not spoiled later is true of each outcome that a ticket shows (`EndAccount.shows`). -/

namespace FilePipeline

namespace Dispatcher

variable {σ η κ : Type} {p : Setup σ η κ} {d d' d₀ : Dispatcher σ κ} {rs : List Submission}

/-- A worker's turn at a piece of work: the dispatcher as it was then, the stage and the work. -/
structure Turn (σ κ : Type) where
  before : Dispatcher σ κ
  stage : Stage
  work : Work

namespace Turn

/-- The work after the turn. -/
def after (p : Setup σ η κ) (t : Turn σ κ) : Work := (t.before.processing p t.stage t.work).2.1

/-- How the turn went. -/
def result (p : Setup σ η κ) (t : Turn σ κ) : Attempt WorkError Unit :=
  (t.before.processing p t.stage t.work).2.2

/-- Whether the worker crashed. -/
def crashed (p : Setup σ η κ) (t : Turn σ κ) : Bool := (t.result p).crashed

/-- Whether the work is to be handed on. -/
def readied (p : Setup σ η κ) (t : Turn σ κ) : Bool :=
  match t.result p with
  | .ok () => handsOn t.stage (t.after p)
  | .error _ => false

theorem readied_iff {t : Turn σ κ} :
    t.readied p = true ↔ t.result p = .ok () ∧ handsOn t.stage (t.after p) = true := by
  unfold readied
  cases h : t.result p with
  | error f => simp
  | ok u => cases u; simp

theorem after_eq {t : Turn σ κ} {d₁ : Dispatcher σ κ} {w' : Work} {r : Attempt WorkError Unit}
    (h : t.before.processing p t.stage t.work = (d₁, w', r)) : t.after p = w' := by
  unfold after
  rw [h]

theorem result_eq {t : Turn σ κ} {d₁ : Dispatcher σ κ} {w' : Work} {r : Attempt WorkError Unit}
    (h : t.before.processing p t.stage t.work = (d₁, w', r)) : t.result p = r := by
  unfold result
  rw [h]

end Turn

/-- `Recorded p d₀ rs ts d`: a run from `d₀` to `d` with the submissions `rs`, in which the workers had
    the turns `ts`. In all other moves a busy worker stays busy with its work. -/
inductive Recorded (p : Setup σ η κ) (d₀ : Dispatcher σ κ) :
    List Submission → List (Turn σ κ) → Dispatcher σ κ → Prop
  | start : Recorded p d₀ [] [] d₀
  | submit {rs : List Submission} {ts : List (Turn σ κ)} {d : Dispatcher σ κ} (r : Submission)
      (h : Recorded p d₀ rs ts d) (running : d.halt = .running) :
      Recorded p d₀ (rs ++ [r]) ts (d.submit p r)
  | turn {rs : List Submission} {ts : List (Turn σ κ)} {d d' : Dispatcher σ κ} {s : Stage}
      {w : Work} (h : Recorded p d₀ rs ts d) (hw : d.tasks.get s = .busy w)
      (hs : d.step p (.process s) = some d') : Recorded p d₀ rs (ts ++ [⟨d, s, w⟩]) d'
  | move {rs : List Submission} {ts : List (Turn σ κ)} {d d' : Dispatcher σ κ}
      (h : Recorded p d₀ rs ts d) (m : Move p d d')
      (stay : ∀ s w, d.tasks.get s = .busy w → d'.tasks.get s = .busy w) : Recorded p d₀ rs ts d'

/-! ### Every run can be recorded -/

theorem Recorded.run {ts : List (Turn σ κ)} (h : Recorded p d₀ rs ts d) : Run p d₀ rs d := by
  induction h with
  | start => exact .start
  | submit r _ running ih => exact ih.submit r running
  | turn _ _ hs ih => exact ih.act _ hs
  | move _ m _ ih => exact ih.move m

theorem Recorded.trans {d₁ d₂ : Dispatcher σ κ} {rs' : List Submission} {ts ts' : List (Turn σ κ)}
    (h : Recorded p d₀ rs ts d₁) (h' : Recorded p d₁ rs' ts' d₂) :
    Recorded p d₀ (rs ++ rs') (ts ++ ts') d₂ := by
  induction h' with
  | start => rwa [List.append_nil, List.append_nil]
  | submit r _ running ih => rw [← List.append_assoc]; exact ih.submit r running
  | turn _ hw hs ih => rw [← List.append_assoc]; exact ih.turn hw hs
  | move _ m stay ih => exact ih.move m stay

theorem get_setTask (d : Dispatcher σ κ) (s s' : Stage) (t : Task) :
    (d.setTask s t).tasks.get s' = if s = s' then t else d.tasks.get s' := by
  cases s <;> cases s' <;> rfl

/-- A worker that is busy with a piece of work stays so until its turn. -/
theorem busy_of_transition {a : Action} (ht : Transition p d a d') {s : Stage} {w : Work}
    (hb : d.tasks.get s = .busy w) (ha : a ≠ .process s) : d'.tasks.get s = .busy w := by
  -- a step that gives another worker something new to do
  have other : ∀ {d₁ : Dispatcher σ κ} {r : Stage} (t : Task), d₁.tasks = d.tasks → r ≠ s →
      (d₁.setTask r t).tasks.get s = .busy w := by
    intro d₁ r t h hne
    rw [get_setTask, if_neg hne, h]
    exact hb
  -- the worker at whose task the step looks is not the busy one
  have apart : ∀ {r : Stage} {t : Task}, d.tasks.get r = t → t ≠ .busy w → r ≠ s := by
    rintro r t h hne rfl
    exact hne (h.symm.trans hb)
  cases ht with
  | pushed => exact hb
  | turnedAway => rw [show Dispatcher.tasks (Dispatcher.notice _ _) = _ from tasks_fail _ _ _]; exact hb
  | popped ht => exact other _ rfl (apart ht (by simp))
  | poppedPill ht => exact other _ rfl (apart ht (by simp))
  | readied ht hp => exact other _ (untouched_of_processing hp).tasks fun he => ha (he ▸ rfl)
  | ended ht hp =>
    exact other _ ((tasks_settle _ _ _).trans (untouched_of_processing hp).tasks)
      fun he => ha (he ▸ rfl)
  | crashed ht hp =>
    exact other _ ((tasks_settle _ _ _).trans (untouched_of_processing hp).tasks)
      fun he => ha (he ▸ rfl)
  | handed ht => exact other _ rfl (apart ht (by simp))
  | refused ht => exact other _ (tasks_settle _ _ _) (apart ht (by simp))
  | relayedOn ht => exact other (r := .io) _ rfl (apart (r := .io) ht (by simp))
  | relayedBack ht => exact other _ rfl (apart (r := .compression) ht (by simp))
  | relayRefused ht => exact other _ rfl (apart ht (by simp))
  | left ht => exact other _ (tasks_abandonAll _ _) (apart ht (by simp))
  | leftCrashed ht =>
    exact other _ ((tasks_abandonAll _ _).trans (tasks_sendPill _ _)) (apart ht (by simp))
  | closedIo => rw [show Dispatcher.tasks _ = _ from tasks_failAll _ _]; exact hb
  | closedCompression =>
    rw [show Dispatcher.tasks (Dispatcher.finish _ _) = _ from tasks_failAll _ _]; exact hb
  | _ => exact hb

theorem Run.recorded (h : Run p d₀ rs d) : ∃ ts, Recorded p d₀ rs ts d := by
  induction h with
  | start => exact ⟨[], .start⟩
  | submit r _ running ih =>
    obtain ⟨ts, ih⟩ := ih
    exact ⟨ts, ih.submit r running⟩
  | @move rs d d' _ m ih =>
    obtain ⟨ts, ih⟩ := ih
    rcases m.cases with ⟨a, ha⟩ | hc
    · by_cases hp : ∃ s, a = .process s
      · obtain ⟨s, rfl⟩ := hp
        have hw : ∃ w, d.tasks.get s = .busy w := by
          cases transition_of_step ha with
          | readied ht | ended ht | crashed ht => exact ⟨_, ht⟩
        obtain ⟨w, hw⟩ := hw
        exact ⟨_, ih.turn hw ha⟩
      · exact ⟨ts, ih.move m fun s w hb =>
          busy_of_transition (transition_of_step ha) hb fun he => hp ⟨s, he⟩⟩
    · exact ⟨ts, ih.move m fun s w hb => by rw [hc.tasks]; exact hb⟩

/-- A computed run in which the stopping begins after the first list of cues. -/
theorem recorded_of_replay {cs cs' : List Cue}
    (h : ((replay p cs d).bind fun d => replay p cs' d.beginHalt) = some d') :
    ∃ ts, Recorded p d (submitted cs ++ submitted cs') ts d' := by
  obtain ⟨d₁, h₁, h₂⟩ := Option.bind_eq_some_iff.mp h
  exact (((run_of_replay h₁).move .beginHalt).trans (run_of_replay h₂)).recorded

/-- A computed run in which no worker has a turn. -/
theorem recorded_of_quiet {cs : List Cue} (hq : ∀ s, Cue.act (.process s) ∉ cs)
    (h : replay p cs d = some d') : Recorded p d (submitted cs) [] d' := by
  induction cs generalizing d with
  | nil =>
    obtain rfl : d = d' := Option.some.inj h
    exact .start
  | cons c cs ih =>
    have ih := fun {d₁ : Dispatcher σ κ} (h : replay p cs d₁ = some d') =>
      ih (fun s hs => hq s (List.mem_cons_of_mem _ hs)) h
    cases c with
    | submit r =>
      obtain ⟨hr, h⟩ := replay_submit h
      exact (Recorded.start.submit r hr).trans (ih h)
    | act a =>
      unfold replay at h
      split at h
      · next hs =>
        refine (Recorded.start.move (.act a hs) fun s w hb => ?_).trans (ih h)
        refine busy_of_transition (transition_of_step hs) hb ?_
        rintro rfl
        exact hq s List.mem_cons_self
      · cases h

theorem turn_cases {s : Stage} {w : Work} (hw : d.tasks.get s = .busy w)
    (hs : d.step p (.process s) = some d') :
    ∃ d₁ w' r, d.processing p s w = (d₁, w', r) ∧ d' = d₁.conclude s w' r := by
  have h : d.process p s = some d' := hs
  rw [process_busy hw] at h
  exact ⟨_, _, _, rfl, (Option.some.inj h).symm⟩

theorem ne_process_of_stay {a : Action} (ht : Transition p d a d')
    (stay : ∀ s w, d.tasks.get s = .busy w → d'.tasks.get s = .busy w) (s : Stage) :
    a ≠ .process s := by
  rintro rfl
  cases ht with
  | readied ht =>
    have := stay s _ ht
    rw [get_setTask, if_pos rfl] at this
    cases this
  | ended ht =>
    have := stay s _ ht
    rw [get_setTask, if_pos rfl] at this
    cases this
  | crashed ht =>
    have := stay s _ ht
    rw [get_setTask, if_pos rfl] at this
    cases this

theorem Move.cases_of_stay (m : Move p d d')
    (stay : ∀ s w, d.tasks.get s = .busy w → d'.tasks.get s = .busy w) :
    (∃ a, Transition p d a d' ∧ ∀ s, a ≠ .process s) ∨ d.Called d' := by
  rcases m.cases with ⟨a, ha⟩ | hc
  · have ht := transition_of_step ha
    exact Or.inl ⟨a, ht, ne_process_of_stay ht stay⟩
  · exact Or.inr hc

/-! ### How work ended -/

/-- The ways in which the work with a number ends in a run with an outcome. -/
inductive Ending (p : Setup σ η κ) (d₀ : Dispatcher σ κ) (rs : List Submission)
    (ts : List (Turn σ κ)) (id : WorkId) : Outcome → Prop
  | unfit {r : Submission} {e : PathError} (hr : rs[id]? = some r)
      (he : PathField.ofString? r.path = .error e) :
      Ending p d₀ rs ts id ((Work.ofSubmission id p.ownHeap r).outcome (.error (.path e)))
  | turn {t : Turn σ κ} {r : Except WorkError Unit} (ht : t ∈ ts) (hid : t.work.id = id)
      (hr : t.result p = Attempt.ofExcept r)
      (hh : r = .ok () → handsOn t.stage (t.after p) = false) :
      Ending p d₀ rs ts id ((t.after p).outcome r)
  | crashed {t : Turn σ κ} (ht : t ∈ ts) (hid : t.work.id = id) (hc : t.crashed p = true) :
      Ending p d₀ rs ts id ((t.after p).outcome (.error .abandoned))
  | dropped {rs₁ : List Submission} {ts₁ : List (Turn σ κ)} {d₁ : Dispatcher σ κ} {a : Action}
      {w : Work} (h : Recorded p d₀ rs₁ ts₁ d₁) (hts : ts₁ <+: ts) (hid : w.id = id)
      (ha : ∀ s, a ≠ .process s) (he : EndsIn p d₁ a w (.error .abandoned)) :
      Ending p d₀ rs ts id (w.outcome (.error .abandoned))

namespace Ending

variable {ts : List (Turn σ κ)} {id : WorkId} {o : Outcome}

theorem submit (h : Ending p d₀ rs ts id o) (r : Submission) : Ending p d₀ (rs ++ [r]) ts id o := by
  cases h with
  | unfit hr he =>
    exact .unfit ((List.getElem?_append_left (List.getElem?_eq_some_iff.mp hr).1).trans hr) he
  | turn ht hid hr hh => exact .turn ht hid hr hh
  | crashed ht hid hc => exact .crashed ht hid hc
  | dropped h hts hid ha he => exact .dropped h hts hid ha he

theorem append (h : Ending p d₀ rs ts id o) (t : Turn σ κ) : Ending p d₀ rs (ts ++ [t]) id o := by
  cases h with
  | unfit hr he => exact .unfit hr he
  | turn ht hid hr hh => exact .turn (List.mem_append_left _ ht) hid hr hh
  | crashed ht hid hc => exact .crashed (List.mem_append_left _ ht) hid hc
  | dropped h hts hid ha he => exact .dropped h (hts.trans (List.prefix_append _ _)) hid ha he

theorem of_endsIn {s : Stage} {w w' : Work} {r : Except WorkError Unit}
    (hw : d.tasks.get s = .busy w) (he : EndsIn p d (.process s) w' r) (hid : w'.id = id) :
    Ending p d₀ rs (ts ++ [⟨d, s, w⟩]) id (w'.outcome r) := by
  have hmem : (⟨d, s, w⟩ : Turn σ κ) ∈ ts ++ [⟨d, s, w⟩] := List.mem_append_right _ List.mem_cons_self
  have hat : ∀ {v : Work}, d.tasks.get s = .busy v → v = w := fun hv =>
    (Task.busy.inj (hw.symm.trans hv)).symm
  cases he with
  | processed ht hp hh =>
    obtain rfl := hat ht
    have ha := Turn.after_eq (t := ⟨d, s, _⟩) hp
    have hsame := sameAs_of_processing hp
    rw [← ha] at hh ⊢
    exact .turn hmem (hsame.id.symm.trans hid) (Turn.result_eq hp) hh
  | crashed ht hp =>
    obtain rfl := hat ht
    have ha := Turn.after_eq (t := ⟨d, s, _⟩) hp
    have hr := Turn.result_eq (t := ⟨d, s, _⟩) hp
    have hsame := sameAs_of_processing hp
    rw [← ha]
    exact .crashed hmem (hsame.id.symm.trans hid) (by unfold Turn.crashed; rw [hr]; rfl)

end Ending

/-- Something said about the work with a number that has ended, by its outcome and the run so far. -/
structure EndAccount (p : Setup σ η κ) (d₀ : Dispatcher σ κ)
    (Q : List Submission → List (Turn σ κ) → WorkId → Outcome → Prop) : Prop where
  /-- It is true of work whose path does not fit, -/
  unfit : ∀ {rs ts d r e}, Recorded p d₀ rs ts d → PathField.ofString? r.path = .error e →
    Q (rs ++ [r]) ts rs.length
      ((Work.ofSubmission rs.length p.ownHeap r).outcome (.error (.path e)))
  /-- of work that ends in a turn, -/
  turn : ∀ {rs ts d s w w' r}, Recorded p d₀ rs ts d → d.tasks.get s = .busy w →
    EndsIn p d (.process s) w' r → Q rs (ts ++ [⟨d, s, w⟩]) w'.id (w'.outcome r)
  /-- and of work that ends between two turns. -/
  dropped : ∀ {rs ts d a w r}, Recorded p d₀ rs ts d → (∀ s, a ≠ .process s) → EndsIn p d a w r →
    Q rs ts w.id (w.outcome r)
  /-- Other submissions and the turns of other work do not spoil it. -/
  later : ∀ {rs ts id o} (r : Submission), Q rs ts id o → Q (rs ++ [r]) ts id o
  others : ∀ {rs ts id o} (t : Turn σ κ), t.work.id ≠ id → Q rs ts id o → Q rs (ts ++ [t]) id o

/-- Then each ticket whose work has ended shows an outcome of which it is true. -/
theorem EndAccount.shows {Q : List Submission → List (Turn σ κ) → WorkId → Outcome → Prop}
    (hQ : EndAccount p d₀ Q) (h₀ : Unused p d₀) {ts : List (Turn σ κ)} (h : Recorded p d₀ rs ts d)
    {id : WorkId} {t : Ticket} (ht : d.tickets[id]? = some t) (hd : t.isDone = true) :
    ∃ o, t.Shows o ∧ Q rs ts id o := by
  induction h generalizing t with
  | start => rw [h₀.tickets] at ht; cases ht
  | @submit rs ts d r h _ ih =>
    have hb := h.run.balanced h₀.inBalance
    have hlen : d.nextId = rs.length := h.run.length h₀.tickets
    -- the ticket of the new submission is still waiting, the others were there before
    have old : ∀ u, (d.register r.op).tickets[id]? = some u → u.isDone = true →
        ∃ o, u.Shows o ∧ Q (rs ++ [r]) ts id o := by
      intro u hu hud
      by_cases hlt : id < d.tickets.length
      · have hu' : d.tickets[id]? = some u := (List.getElem?_append_left hlt).symm.trans hu
        obtain ⟨o, ho, he⟩ := ih hu' hud
        exact ⟨o, ho, hQ.later r he⟩
      · have hu' : [({ op := r.op } : Ticket)][id - d.tickets.length]? = some u :=
          (List.getElem?_append_right (Nat.not_lt.mp hlt)).symm.trans hu
        obtain rfl := List.mem_singleton.mp (List.mem_of_getElem? hu')
        cases hud
    rcases submit_eq p d r with ⟨e, he, hs⟩ | ⟨path, -, hs⟩
    · rw [hs] at ht
      have hc : ∀ u ∈ (d.register r.op).tickets, u.Consistent := by
        intro u hu
        rcases List.mem_append.mp hu with hu | hu
        · exact hb.consistent u hu
        · obtain rfl := List.mem_singleton.mp hu
          exact Ticket.consistent_new r.op
      rcases (publishes_fail _ _ _).shows hc ht with hu | ⟨w, r', ⟨rfl, rfl⟩, hid, hshow⟩
      · exact old t hu hd
      · have hid' : id = d.nextId := by rw [← hid]; cases r <;> rfl
        rw [hlen] at hid' hshow
        subst hid'
        exact ⟨_, hshow, hQ.unfit h he⟩
    · rw [hs] at ht
      exact old t ht hd
  | @turn rs ts d d' s w h hw hs ih =>
    have hb := h.run.balanced h₀.inBalance
    rcases (publishes_of_action (transition_of_step hs)).shows hb.consistent ht with
      hu | ⟨w', r, he, rfl, hshow⟩
    · obtain ⟨o, ho, he⟩ := ih hu hd
      refine ⟨o, ho, hQ.others ⟨d, s, w⟩ (fun hid => ?_) he⟩
      -- the work at hand has not ended
      obtain ⟨t', ht', hp, -⟩ :=
        hb.pending_of_mem (mem_held (mem_worksOf_worker hw List.mem_cons_self))
      obtain rfl := Option.some.inj (hu.symm.trans (hid ▸ ht'))
      rw [hd] at hp
      cases hp
    · exact ⟨_, hshow, hQ.turn h hw he⟩
  | @move rs ts d d' h m stay ih =>
    have hb := h.run.balanced h₀.inBalance
    rcases m.cases_of_stay stay with ⟨a, htr, ha⟩ | hc
    · rcases (publishes_of_action htr).shows hb.consistent ht with hu | ⟨w, r, he, rfl, hshow⟩
      · exact ih hu hd
      · exact ⟨_, hshow, hQ.dropped h ha he⟩
    · have hlt : id < d.tickets.length := by
        rw [← hc.length]
        exact (List.getElem?_eq_some_iff.mp ht).1
      obtain ⟨t', ht', hch⟩ := hc.ticket id _ (List.getElem?_eq_getElem hlt)
      obtain rfl : t = t' := by rw [ht] at ht'; exact Option.some.inj ht'
      have hd' : d.tickets[id].isDone = true := hch.isDone ▸ hd
      obtain ⟨o, ho, he⟩ := ih (List.getElem?_eq_getElem hlt) hd'
      exact ⟨o, ho.change hd' hch, he⟩

theorem endAccount_ending : EndAccount p d₀ (Ending p d₀) where
  unfit _ he := .unfit (by simp) he
  turn _ hw he := .of_endsIn hw he rfl
  dropped := by
    intro rs ts d a w r h ha he
    cases he with
    | processed | crashed => exact absurd rfl (ha _)
    | turnedAway hw hq => exact .dropped h (List.prefix_refl _) rfl ha (.turnedAway hw hq)
    | refused ht hq => exact .dropped h (List.prefix_refl _) rfl ha (.refused ht hq)
    | left ht hw => exact .dropped h (List.prefix_refl _) rfl ha (.left ht hw)
    | closed hh hw => exact .dropped h (List.prefix_refl _) rfl ha (.closed hh hw)
  later r h := h.submit r
  others t _ h := h.append t

theorem Recorded.ending {ts : List (Turn σ κ)} (h₀ : Unused p d₀) (h : Recorded p d₀ rs ts d)
    {id : WorkId} {t : Ticket} (ht : d.tickets[id]? = some t) (hd : t.isDone = true) :
    ∃ o, t.Shows o ∧ Ending p d₀ rs ts id o :=
  endAccount_ending.shows h₀ h ht hd

end Dispatcher

end FilePipeline
