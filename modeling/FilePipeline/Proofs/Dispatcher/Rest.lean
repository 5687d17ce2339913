import FilePipeline.Proofs.Dispatcher.Completion
import FilePipeline.Proofs.Dispatcher.Measure
import FilePipeline.Proofs.Dispatcher.Turns

/-! # Coming to rest

A dispatcher in which no action is possible is at rest. Its workers are idle over empty queues or gone
from closed ones, so nobody waits for a slot and no work is held; and a stopping that has begun is
over, since it stays guided (`Guided.at_rest`). It failed exactly if a worker crashed in the run
(`Recorded.crashed_iff`). Together with the bound on the steps this is `Recorded.progresses`: from
wherever a run is, it comes to rest and has then done everything that was asked for. -/

namespace FilePipeline

def Task.crashed : Task → Bool
  | .leaving c | .gone c => c
  | _ => false

namespace Dispatcher

variable {σ η κ : Type} {p : Setup σ η κ} {d d' d₀ : Dispatcher σ κ} {rs : List Submission}
  {ts : List (Turn σ κ)}

/-! ### Who crashed -/

/-- Only a turn brings a worker down. -/
theorem crashed_of_transition {a : Action} (ht : Transition p d a d') (ha : ∀ s, a ≠ .process s)
    (s : Stage) : (d'.tasks.get s).crashed = (d.tasks.get s).crashed := by
  -- a worker turned to something else without crashing
  have turned : ∀ {d₁ : Dispatcher σ κ} {x : Stage} {t : Task}, d₁.tasks = d.tasks →
      t.crashed = (d.tasks.get x).crashed →
      ((d₁.setTask x t).tasks.get s).crashed = (d.tasks.get s).crashed := by
    intro d₁ x t h hc
    rw [get_setTask, h]
    split
    · next he => rw [hc, he]
    · rfl
  cases ht with
  | turnedAway => rw [show Dispatcher.tasks (Dispatcher.notice _ _) = _ from tasks_fail _ _ _]
  | popped ht => exact turned rfl (by rw [ht]; rfl)
  | @poppedPill x q ht =>
    refine turned rfl ?_
    rw [ht]
    unfold afterPill
    cases x with
    | io => dsimp only; split <;> rfl
    | compression => rfl
  | readied | ended | crashed => exact absurd rfl (ha _)
  | handed ht => exact turned rfl (by rw [ht]; rfl)
  | refused ht => exact turned (tasks_settle _ _ _) (by rw [ht]; rfl)
  | relayedOn ht => exact turned (x := .io) rfl (congrArg Task.crashed ht).symm
  | relayedBack ht => exact turned (x := .compression) rfl (congrArg Task.crashed ht).symm
  | relayRefused ht => exact turned rfl (by rw [ht]; rfl)
  | left ht => exact turned (tasks_abandonAll _ _) (by rw [ht]; rfl)
  | leftCrashed ht =>
    exact turned ((tasks_abandonAll _ _).trans (tasks_sendPill _ _)) (by rw [ht]; rfl)
  | closedIo => rw [show Dispatcher.tasks _ = _ from tasks_failAll _ _]; rfl
  | closedCompression =>
    rw [show Dispatcher.tasks (Dispatcher.finish _ _) = _ from tasks_failAll _ _]
    rfl
  | _ => rfl

theorem crashed_conclude (d : Dispatcher σ κ) (s : Stage) (w : Work) (r : Attempt WorkError Unit)
    (x : Stage) : ((d.conclude s w r).tasks.get x).crashed =
      if s = x then r.crashed else (d.tasks.get x).crashed := by
  rcases d.conclude_cases s w r with ⟨hr, -, he⟩ | ⟨-, e, he⟩
  · rw [he, hr, get_setTask]
    split <;> rfl
  · rw [he, get_setTask, tasks_settle]
    split
    · cases r.crashed <;> rfl
    · rfl

/-- The workers that have crashed are those that crashed in a turn of the run. -/
theorem Recorded.crashed_iff (h₀ : Unused p d₀) (h : Recorded p d₀ rs ts d) (s : Stage) :
    (d.tasks.get s).crashed = true ↔ ∃ t ∈ ts, t.stage = s ∧ t.crashed p = true := by
  induction h with
  | start =>
    rw [h₀.tasks]
    cases s <;> simp [PerStage.get, Task.crashed]
  | @submit rs ts d r _ _ ih =>
    have ht : (d.submit p r).tasks = d.tasks := by
      rcases submit_eq p d r with ⟨e, -, he⟩ | ⟨path, -, he⟩
      · rw [he]
        exact tasks_fail _ _ _
      · rw [he]
        rfl
    rw [ht]
    exact ih
  | @turn rs ts d d' x w _ hw hs ih =>
    obtain ⟨d₁, w', r, hp, rfl⟩ := turn_cases hw hs
    have hu := untouched_of_processing hp
    have hr : (⟨d, x, w⟩ : Turn σ κ).result p = r := Turn.result_eq hp
    rw [crashed_conclude, hu.tasks]
    by_cases hx : x = s
    · subst hx
      rw [if_pos rfl]
      have hnot : ¬ ∃ t ∈ ts, t.stage = x ∧ t.crashed p = true := by
        rw [← ih, hw]
        simp [Task.crashed]
      constructor
      · intro hc
        refine ⟨⟨d, x, w⟩, List.mem_append_right _ List.mem_cons_self, rfl, ?_⟩
        unfold Turn.crashed
        rw [hr]
        exact hc
      · rintro ⟨t, ht, hst, hc⟩
        rcases List.mem_append.mp ht with ht | ht
        · exact absurd ⟨t, ht, hst, hc⟩ hnot
        · obtain rfl := List.mem_singleton.mp ht
          unfold Turn.crashed at hc
          rwa [hr] at hc
    · rw [if_neg hx, ih]
      constructor
      · rintro ⟨t, ht, h⟩
        exact ⟨t, List.mem_append_left _ ht, h⟩
      · rintro ⟨t, ht, hst, hc⟩
        rcases List.mem_append.mp ht with ht | ht
        · exact ⟨t, ht, hst, hc⟩
        · obtain rfl := List.mem_singleton.mp ht
          exact absurd hst hx
  | move _ m stay ih =>
    rcases m.cases_of_stay stay with ⟨a, htr, ha⟩ | hc
    · rw [crashed_of_transition htr ha]
      exact ih
    · rw [hc.tasks]
      exact ih

theorem Recorded.crash_free (h₀ : Unused p d₀) (h : Recorded p d₀ rs ts d)
    (hd : ∀ s, (d.tasks.get s).crashed = false) : ∀ t ∈ ts, t.crashed p = false := by
  intro t ht
  by_contra hc
  have := (h.crashed_iff h₀ t.stage).mpr ⟨t, ht, rfl, by simpa using hc⟩
  rw [hd] at this
  cases this

/-! ### What is possible -/

theorem exists_step_of_task {s : Stage} (hi : d.tasks.get s ≠ .idle)
    (hg : ∀ c, d.tasks.get s ≠ .gone c) : ∃ a d', Transition p d a d' := by
  cases ht : d.tasks.get s with
  | idle => exact absurd ht hi
  | gone c => exact absurd ht (hg c)
  | busy w => exact ⟨_, _, transition_of_process (process_busy ht)⟩
  | handing w =>
    cases hq : (d.queues.get s.peer).forward? (.work w) with
    | some q => exact ⟨_, _, .handed ht hq⟩
    | none => exact ⟨_, _, .refused ht hq⟩
  | relaying =>
    cases hq : (d.queues.get s.peer).forward? .pill with
    | none => exact ⟨_, _, .relayRefused ht hq⟩
    | some q =>
      cases s with
      | io => exact ⟨_, _, .relayedOn ht hq⟩
      | compression => exact ⟨_, _, .relayedBack ht hq⟩
  | leaving c =>
    cases c with
    | false => exact ⟨_, _, .left ht⟩
    | true => exact ⟨_, _, .leftCrashed ht⟩

theorem exists_pop_of_entries {s : Stage} (ht : d.tasks.get s = .idle)
    (he : (d.queues.get s).entries ≠ []) : ∃ d', Transition p d (.pop s) d' := by
  cases hq : (d.queues.get s).pop? with
  | item i q =>
    cases i with
    | work w => exact ⟨_, .popped ht hq⟩
    | pill => exact ⟨_, .poppedPill ht hq⟩
  | empty =>
    unfold Queue.pop? at hq
    split at hq
    · cases hq
    · next hn => exact absurd hn he

theorem offer_ne_full {q : Queue Work} (hs : q.Sound) (hc : 1 ≤ q.capacity) (he : q.entries = [])
    (i : Item Work) : q.offer i ≠ .full := by
  have ha : q.admitted = 0 := by
    rw [hs.admitted]
    unfold Queue.slotsTaken
    rw [he]
    rfl
  unfold Queue.offer
  split
  · simp
  · rw [if_neg (by omega)]
    simp

theorem exists_step_of_waiting {i : Nat} {s : Stage} {w : Work} (hw : d.waiting[i]? = some (s, w))
    (hf : (d.queues.get s).offer (.work w) ≠ .full) : ∃ a d', Transition p d a d' := by
  cases hq : (d.queues.get s).offer (.work w) with
  | accepted q => exact ⟨_, _, .pushed hw hq⟩
  | full => exact absurd hq hf
  | rejected => exact ⟨_, _, .turnedAway hw hq⟩

theorem exists_step_of_pushing (hh : d.halt = .pushing) (hf : d.queues.io.offer .pill ≠ .full) :
    ∃ a d', Transition p d a d' := by
  cases hq : d.queues.io.offer .pill with
  | accepted q => exact ⟨_, _, .pillPushed hh hq⟩
  | full => exact absurd hq hf
  | rejected => exact ⟨_, _, .pillRejected hh hq⟩

theorem exists_step_of_joining {s : Stage} {e : Option JoinError} {c : Bool}
    (hh : d.halt = .joining s e) (ht : d.tasks.get s = .gone c) : ∃ a d', Transition p d a d' := by
  cases c with
  | false => exact ⟨_, _, .joined hh ht⟩
  | true => exact ⟨_, _, .joinedCrashed hh ht⟩

theorem exists_step_of_closing {s : Stage} {e : Option JoinError} (hh : d.halt = .closing s e) :
    ∃ a d', Transition p d a d' := by
  cases s with
  | io => exact ⟨_, _, .closedIo hh⟩
  | compression => exact ⟨_, _, .closedCompression hh⟩

/-! ### At rest -/

/-- No action is possible. -/
def Resting (p : Setup σ η κ) (d : Dispatcher σ κ) : Prop := ∀ a, d.step p a = none

theorem Resting.elim (h : Resting p d) (ht : ∃ a d', Transition p d a d') : False := by
  obtain ⟨a, d', ht⟩ := ht
  have hs := step_of_transition ht
  rw [h a] at hs
  cases hs

theorem Resting.task (h : Resting p d) (s : Stage) :
    d.tasks.get s = .idle ∨ ∃ c, d.tasks.get s = .gone c := by
  by_contra hn
  rw [not_or, not_exists] at hn
  exact h.elim (exists_step_of_task hn.1 hn.2)

theorem Resting.entries (h : Resting p d) {c : Nat} (hs : SoundQueues c d)
    (hc : ∀ s, (d.queues.get s).closed = true ↔ ∃ k, d.tasks.get s = .gone k) (s : Stage) :
    (d.queues.get s).entries = [] := by
  rcases h.task s with hi | hg
  · by_contra hn
    exact h.elim ⟨_, exists_pop_of_entries hi hn⟩
  · exact (hs s).1.closed ((hc s).mpr hg)

/-- What a dispatcher at rest has done, after the submissions `rs` and the turns `ts`. -/
structure AtRest (p : Setup σ η κ) (rs : List Submission) (ts : List (Turn σ κ))
    (d : Dispatcher σ κ) : Prop where
  /-- No push is blocked. -/
  waiting : d.waiting = []
  /-- All work has ended. -/
  ended : ∀ id < rs.length, ∃ t, d.tickets[id]? = some t ∧ t.isDone = true
  /-- If stopping has begun, it is over: the workers are gone, the queues are closed and empty, and
      it failed exactly if a worker crashed in the run. -/
  stopped : d.halt ≠ .running → ∃ e, d.halt = .stopped e ∧
    (∀ s, (∃ c, d.tasks.get s = .gone c) ∧ (d.queues.get s).closed = true ∧
      (d.queues.get s).entries = []) ∧
    (e.isSome = true ↔ ∃ t ∈ ts, t.crashed p = true)

/-- Once the stopping is over, both workers are gone, and it failed exactly if one of them crashed. -/
theorem Recorded.stopped_iff (h₀ : Unused p d₀) (h : Recorded p d₀ rs ts d)
    {e : Option JoinError} (hh : d.halt = .stopped e) :
    (∀ s, ∃ c, d.tasks.get s = .gone c) ∧
      (e.isSome = true ↔ ∃ t ∈ ts, t.crashed p = true) := by
  have hg := (h.run.guided h₀).heard
  unfold Outline.Heard at hg
  rw [show d.outline.halt = _ from hh] at hg
  obtain ⟨c, c', hc, hc', he⟩ := hg
  -- the posts of the outline are those of the tasks
  have gone : ∀ {s : Stage} {k : Bool}, (d.tasks.get s).post = .gone k → d.tasks.get s = .gone k := by
    intro s k hk
    cases ht : d.tasks.get s <;> rw [ht] at hk <;> cases hk
    rfl
  have hio : d.tasks.get .io = .gone c := gone hc
  have hco : d.tasks.get .compression = .gone c' := gone hc'
  refine ⟨fun s => by cases s; exacts [⟨c, hio⟩, ⟨c', hco⟩], ?_⟩
  have h₁ := h.crashed_iff h₀ .io
  have h₂ := h.crashed_iff h₀ .compression
  rw [hio] at h₁
  rw [hco] at h₂
  rw [he, Bool.or_eq_true]
  constructor
  · rintro (hk | hk)
    · obtain ⟨t, ht, -, htc⟩ := h₁.mp hk
      exact ⟨t, ht, htc⟩
    · obtain ⟨t, ht, -, htc⟩ := h₂.mp hk
      exact ⟨t, ht, htc⟩
  · rintro ⟨t, ht, htc⟩
    cases hs : t.stage with
    | io => exact Or.inl (h₁.mpr ⟨t, ht, hs, htc⟩)
    | compression => exact Or.inr (h₂.mpr ⟨t, ht, hs, htc⟩)

theorem InBalance.ended (hb : d.InBalance) (hn : d.held = 0) {id : WorkId}
    (hid : id < d.tickets.length) : d.tickets[id].isDone = true := by
  by_contra hd
  have hp : pending d.tickets id = true :=
    pending_iff.mpr ⟨_, List.getElem?_eq_getElem hid, by simpa using hd⟩
  have h := hb.once id
  rw [hn, hp] at h
  simp at h

theorem Run.waiting_eq_nil (h₀ : Unused p d₀) (h : Run p d₀ rs d) (hh : d.halt ≠ .running) :
    d.waiting = [] := by
  induction h with
  | start => exact absurd h₀.halt hh
  | @submit rs d r _ running ih =>
    refine absurd ?_ hh
    rcases submit_eq p d r with ⟨e, -, he⟩ | ⟨path, -, he⟩
    · rw [he]
      exact (apart_halt.fail _ _ _).trans running
    · rw [he]
      exact running
  | @move rs d d' _ m ih =>
    rcases m.cases with ⟨a, hs⟩ | hc
    · have ht := transition_of_step hs
      have hn := ih fun hr => hh ((running_of_transition ht).mpr hr)
      have hsub := waiting_subset ht
      rw [hn] at hsub
      exact List.subset_nil.mp hsub
    · rw [hc.waiting]
      rcases hc.halt with he | ⟨-, hn, -⟩
      · exact ih (he ▸ hh)
      · exact hn

theorem halt_of_isStopped (h : d.isStopped = true) : ∃ e, d.halt = .stopped e := by
  unfold isStopped at h
  split at h
  · exact ⟨_, ‹_›⟩
  · cases h

theorem Run.held_of_stopped (h₀ : Unused p d₀) (h : Run p d₀ rs d) (hs : d.isStopped = true) :
    d.held = 0 := by
  obtain ⟨e, he⟩ := halt_of_isStopped hs
  obtain ⟨ts, hrec⟩ := h.recorded
  have hgone := (hrec.stopped_iff h₀ he).1
  refine held_eq_zero ?_
  rintro (_ | s | s)
  · show d.waiting.map Prod.snd = []
    rw [h.waiting_eq_nil h₀ (by rw [he]; simp)]
    rfl
  · have hempty := (h.soundQueues h₀.sound s).1.closed ((h.closed_iff h₀ s).mpr (hgone s))
    show (d.queues.get s).works = []
    unfold Queue.works Queue.items
    rw [hempty]
    rfl
  · obtain ⟨c, hc⟩ := hgone s
    show (d.tasks.get s).works = []
    rw [hc]
    rfl

theorem Recorded.at_rest (h₀ : Unused p d₀) (h : Recorded p d₀ rs ts d) (hr : Resting p d) :
    AtRest p rs ts d := by
  have hs := h.run.soundQueues h₀.sound
  have hclosed := h.run.closed_iff h₀
  have hentries := hr.entries hs hclosed
  have hfull : ∀ s i, (d.queues.get s).offer i ≠ .full := by
    intro s i
    refine offer_ne_full (hs s).1 ?_ (hentries s) i
    rw [(hs s).2]
    exact h₀.capacity
  have hwaiting : d.waiting = [] := by
    by_contra hn
    obtain ⟨⟨s, w⟩, hx⟩ := List.exists_mem_of_ne_nil _ hn
    obtain ⟨i, hi⟩ := List.mem_iff_getElem?.mp hx
    exact hr.elim (exists_step_of_waiting hi (hfull s _))
  have hheld : d.held = 0 := by
    refine held_eq_zero ?_
    rintro (_ | s | s)
    · show d.waiting.map Prod.snd = []
      rw [hwaiting]
      rfl
    · show (d.queues.get s).works = []
      unfold Queue.works Queue.items
      rw [hentries s]
      rfl
    · show (d.tasks.get s).works = []
      rcases hr.task s with ht | ⟨c, ht⟩ <;> rw [ht] <;> rfl
  have hb := h.run.balanced h₀.inBalance
  refine ⟨hwaiting, fun id hid => ?_, fun hh => ?_⟩
  · have hlt : id < d.tickets.length := by
      rw [h.run.length h₀.tickets]
      exact hid
    exact ⟨_, List.getElem?_eq_getElem hlt, hb.ended hheld hlt⟩
  · have hg := h.run.guided h₀
    have hposts : ∀ s, (d.outline.posts.get s = .serving ∧ d.outline.pills.get s = 0) ∨
        ∃ c, d.outline.posts.get s = .gone c := by
      intro s
      rw [posts_outline, pills_outline]
      rcases hr.task s with ht | ⟨c, ht⟩
      · refine Or.inl ⟨by rw [ht]; rfl, ?_⟩
        unfold Queue.pills Queue.items
        rw [hentries s]
        rfl
      · exact Or.inr ⟨c, by rw [ht]; rfl⟩
    have hjoin : ∀ s e c, d.outline.halt = .joining s e → d.outline.posts.get s ≠ .gone c := by
      intro s e c hj hp
      rw [posts_outline] at hp
      cases ht : d.tasks.get s <;> rw [ht] at hp <;> cases hp
      exact hr.elim (exists_step_of_joining hj ht)
    rcases hg.at_rest hposts (fun hp => hr.elim (exists_step_of_pushing hp (hfull .io _))) hjoin
      (fun s e hc => hr.elim (exists_step_of_closing hc)) with hrun | ⟨e, he⟩
    · exact absurd hrun hh
    · obtain ⟨hgone, hcrash⟩ := h.stopped_iff h₀ he
      exact ⟨e, he, fun s => ⟨hgone s, (hclosed s).mpr (hgone s), hentries s⟩, hcrash⟩

/-! ### Progress -/

/-- That a dispatcher in state `d`, after the submissions `rs` and the turns `ts`, comes to rest and
    has then done everything. -/
structure Progresses (p : Setup σ η κ) (rs : List Submission) (ts : List (Turn σ κ))
    (d : Dispatcher σ κ) : Prop where
  /-- Each step takes something off what remains to be done. -/
  falls : ∀ a d', d.step p a = some d' → d'.remaining < d.remaining
  /-- Without submissions nothing is added to it. -/
  stays : ∀ d', Move p d d' → d'.remaining ≤ d.remaining
  /-- So a run without submissions has only so many steps. -/
  finite : ∀ n d', Steps p d n d' → n + d'.remaining ≤ d.remaining
  /-- Where no step is possible, everything is done. -/
  rest : Resting p d → AtRest p rs ts d

/-- Whatever is submitted, in whatever order things happen and whoever crashes, a dispatcher comes to
    rest, and then nobody waits, all work has ended, and a stopping is over. -/
theorem Recorded.progresses (h₀ : Fresh p d₀) (h : Recorded p d₀ rs ts d) :
    Progresses p rs ts d := by
  have hk : onItsWay.Holds d := h.run.holds onItsWay_stable (h₀.unused.holds _)
  exact ⟨fun a d' hs => remaining_lt hk (transition_of_step hs), fun d' m => remaining_le hk m,
    fun n d' hs => hs.le hk, h.at_rest h₀.unused⟩

/-- From wherever a run is, there are steps that lead it to rest. -/
theorem Steps.exists_resting {n : Nat} (hk : onItsWay.Holds d) (h : Steps p d n d') :
    ∃ m d'', Steps p d m d'' ∧ Resting p d'' := by
  generalize hr : d'.remaining = r
  induction r using Nat.strong_induction_on generalizing n d' with
  | _ r ih =>
    by_cases hrest : Resting p d'
    · exact ⟨n, d', h, hrest⟩
    · unfold Resting at hrest
      rw [not_forall] at hrest
      obtain ⟨a, ha⟩ := hrest
      obtain ⟨d₁, hs⟩ := Option.ne_none_iff_exists'.mp ha
      exact ih _ (hr ▸ remaining_lt (h.holds hk) (transition_of_step hs)) (h.act a hs) rfl

/-- A run in which the codec crashes on a write, and stopping reports it. -/
theorem progresses_when_codec_crashes :
    ∃ d₀ d ts, Fresh (scriptedSetup 1 { compress := .crash }) d₀ ∧
      Recorded (scriptedSetup 1 { compress := .crash }) d₀ [.write "f" [1] true] ts d ∧
      d.halt = .stopped (some ⟨"lzfs-compress"⟩) ∧
      Progresses (scriptedSetup 1 { compress := .crash }) [.write "f" [1] true] ts d := by
  let cues : List Cue :=
    [.submit (.write "f" [1] true), .act (.push 0), .act (.pop .compression),
      .act (.process .compression), .act (.leave .compression)]
  let stop : List Cue :=
    [.act .halt, .act (.pop .io), .act (.relay .io), .act (.leave .io), .act .halt, .act .halt,
      .act .halt, .act .halt]
  have h : ((scripted? 1 { compress := .crash } {}).bind fun d =>
      (replay (scriptedSetup 1 { compress := .crash }) cues d).bind fun d =>
        replay (scriptedSetup 1 { compress := .crash }) stop d.beginHalt).any
      (fun d => d.halt = .stopped (some ⟨"lzfs-compress"⟩)) = true := by
    decide +kernel
  obtain ⟨d, hd, hhalt⟩ := Option.any_eq_true _ _ |>.mp h
  obtain ⟨d₀, h₀, hr⟩ := Option.bind_eq_some_iff.mp hd
  obtain ⟨ts, hts⟩ := recorded_of_replay hr
  exact ⟨d₀, d, ts, fresh_scripted h₀, hts, of_decide_eq_true hhalt,
    Recorded.progresses (fresh_scripted h₀) hts⟩

end Dispatcher

end FilePipeline
