import FilePipeline.Event
import Mathlib.Logic.Function.Basic
import Mathlib.Logic.Relation

/-! # Calls that share an event

Any number of calls on one event run at the same time, and each is in a phase of its own (`Phase`). A step
of one of them (`Step`) is a read of the open flag, a section under the lock, or what `signal` does after its
section. A section that leaves the open flag alone is one step, since nobody else can see what it does
before it ends. The section in which the event is raised is three: the flag under the lock is set, then the
open one, and then the wakers are taken out; between them a poll or a wait may read the open flag. A thread
that sleeps may wake up without having been told to. A call that nobody interrupts does what `raise` or
`poll` does (`steps_raise`, `steps_poll`).

A run (`Run`) is any interleaving of such steps, with all that has happened recorded. -/

namespace FilePipeline.Event

variable {ι ω : Type}

/-! ### Raising, step by step -/

/-- Sets the flag under the lock. -/
def latch (e : Event ω) : Event ω := { e with latched := true }

/-- Sets the flag that is read without the lock. -/
def lift (e : Event ω) : Event ω := { e with raised := true }

/-- Takes the wakers out. -/
def drain (e : Event ω) : List ω × Event ω := (e.wakers, { e with wakers := [] })

theorem raise_eq {e : Event ω} (h : e.latched = false) : e.raise = (true, e.latch.lift.drain) :=
  if_neg (ne_true_of_eq_false h)

theorem register_of_latched [BEq ω] {e : Event ω} (h : e.latched = true) (w : ω) :
    e.register w = (.ready, e) := if_pos h

/-! ### Calls -/

/-- What is called. A poll comes with its waker. -/
inductive Call (ω : Type) where
  | poll (w : ω)
  | signal
  | wait

/-- How far a call has come. -/
inductive Phase (ω : Type) where
  /-- A poll that has not read the open flag yet. -/
  | polling (w : ω)
  /-- A poll that found the open flag down and now wants the lock. -/
  | registering (w : ω)
  | polled (w : ω) (p : Poll)
  /-- A signal that wants the lock. -/
  | signalling
  /-- A signal that has set the flag under the lock. -/
  | latched
  /-- A signal that has set both flags. -/
  | lifted
  /-- A signal that has left the lock with these wakers. -/
  | notifying (ws : List ω)
  /-- A signal that has told the sleepers and still has these wakers to wake. -/
  | waking (ws : List ω)
  | signalled (b : Bool)
  /-- A wait that has not read the open flag yet. -/
  | waiting
  /-- A wait that wants the lock, to look under it. -/
  | looking
  | asleep
  | released

namespace Phase

def roused : Phase ω → Phase ω
  | .asleep => .looking
  | p => p

/-- The waker of a poll that has returned and was told to come again. -/
def pending? : Phase ω → Option ω
  | .polled w .pending => some w
  | _ => none

/-- The wakers that a signal has taken out and not woken yet. -/
def due : Phase ω → List ω
  | .notifying ws | .waking ws => ws
  | _ => []

/-- The phases of the signal that raises the event. -/
def wins : Phase ω → Bool
  | .latched | .lifted | .notifying _ | .waking _ | .signalled true => true
  | _ => false

/-- The phases of calls that have returned because they saw the event raised. -/
def answered : Phase ω → Bool
  | .polled _ .ready | .signalled false | .released => true
  | _ => false

theorem eq_of_pending? {p : Phase ω} {w : ω} (h : p.pending? = some w) : p = .polled w .pending := by
  unfold pending? at h
  split at h
  · rw [Option.some.inj h]
  · cases h

theorem pending?_roused (p : Phase ω) : p.roused.pending? = p.pending? := by cases p <;> rfl

theorem wins_roused (p : Phase ω) : p.roused.wins = p.wins := by cases p <;> rfl

theorem roused_ne_asleep (p : Phase ω) : p.roused ≠ .asleep := by
  intro h
  cases p <;> cases h

end Phase

/-- Where a call begins. -/
def Call.start : Call ω → Phase ω
  | .poll w => .polling w
  | .signal => .signalling
  | .wait => .waiting

/-! ### Scenes -/

/-- An event with all calls on it. -/
structure Scene (ι ω : Type) where
  event : Event ω := {}
  /-- The signal that holds the lock between two of its steps. -/
  lock : Option ι := none
  phases : ι → Phase ω
  /-- The wakers woken so far, each with the signal that woke it. -/
  woken : List (ι × ω) := []

namespace Scene

/-- A new event, on which these calls are about to be made. -/
def start (calls : ι → Call ω) : Scene ι ω := { phases := fun k => (calls k).start }

def rouse (s : Scene ι ω) : Scene ι ω := { s with phases := fun j => (s.phases j).roused }

variable [DecidableEq ι]

/-- The call `k` has come to the phase `p`. -/
def put (s : Scene ι ω) (k : ι) (p : Phase ω) : Scene ι ω :=
  { s with phases := Function.update s.phases k p }

@[simp] theorem put_event (s : Scene ι ω) (k : ι) (p : Phase ω) : (s.put k p).event = s.event := rfl

@[simp] theorem put_woken (s : Scene ι ω) (k : ι) (p : Phase ω) : (s.put k p).woken = s.woken := rfl

@[simp] theorem put_self (s : Scene ι ω) (k : ι) (p : Phase ω) : (s.put k p).phases k = p := by
  unfold put
  exact Function.update_self k p s.phases

theorem put_of_ne (s : Scene ι ω) {j k : ι} (h : j ≠ k) (p : Phase ω) :
    (s.put k p).phases j = s.phases j := by
  unfold put
  exact Function.update_of_ne h p s.phases

theorem forall_put {P : ι → Phase ω → Prop} {s : Scene ι ω} {k : ι} {p : Phase ω}
    (h : ∀ j, j ≠ k → P j (s.phases j)) (hp : P k p) (j : ι) : P j ((s.put k p).phases j) := by
  by_cases hj : j = k
  · rw [hj, put_self]
    exact hp
  · rw [put_of_ne s hj]
    exact h j hj

end Scene

/-! ### Steps and runs -/

/-- One step of the call `k`. -/
inductive Step [DecidableEq ι] [BEq ω] (s : Scene ι ω) (k : ι) : Scene ι ω → Prop
  | seen {w : ω} (hk : s.phases k = .polling w) (h : s.event.raised = true) :
      Step s k (s.put k (.polled w .ready))
  | unseen {w : ω} (hk : s.phases k = .polling w) (h : s.event.raised = false) :
      Step s k (s.put k (.registering w))
  | registered {w : ω} (hk : s.phases k = .registering w) (hlock : s.lock = none) :
      Step s k ({ s with event := (s.event.register w).2 }.put k (.polled w (s.event.register w).1))
  | beaten (hk : s.phases k = .signalling) (hlock : s.lock = none) (h : s.event.latched = true) :
      Step s k (s.put k (.signalled false))
  | latched (hk : s.phases k = .signalling) (hlock : s.lock = none) (h : s.event.latched = false) :
      Step s k ({ s with event := s.event.latch, lock := some k }.put k .latched)
  | lifted (hk : s.phases k = .latched) :
      Step s k ({ s with event := s.event.lift }.put k .lifted)
  | drained (hk : s.phases k = .lifted) :
      Step s k ({ s with event := s.event.drain.2, lock := none }.put k (.notifying s.event.drain.1))
  | notified {ws : List ω} (hk : s.phases k = .notifying ws) : Step s k (s.rouse.put k (.waking ws))
  | woke {w : ω} {ws : List ω} (hk : s.phases k = .waking (w :: ws)) :
      Step s k ({ s with woken := s.woken ++ [(k, w)] }.put k (.waking ws))
  | signalled (hk : s.phases k = .waking []) : Step s k (s.put k (.signalled true))
  | noticed (hk : s.phases k = .waiting) (h : s.event.raised = true) : Step s k (s.put k .released)
  | unnoticed (hk : s.phases k = .waiting) (h : s.event.raised = false) : Step s k (s.put k .looking)
  | released (hk : s.phases k = .looking) (hlock : s.lock = none) (h : s.event.latched = true) :
      Step s k (s.put k .released)
  | slept (hk : s.phases k = .looking) (hlock : s.lock = none) (h : s.event.latched = false) :
      Step s k (s.put k .asleep)
  | stirred (hk : s.phases k = .asleep) : Step s k (s.put k .looking)

/-- A step that was made. -/
structure Move (ι ω : Type) where
  before : Scene ι ω
  who : ι
  after : Scene ι ω

/-- The signal that gets the lock with this move, if one does. -/
def Move.entrant (m : Move ι ω) : List ι :=
  match m.before.phases m.who with
  | .signalling => [m.who]
  | _ => []

/-- The signals in the order in which they got the lock. -/
def entrants (ms : List (Move ι ω)) : List ι := ms.flatMap Move.entrant

theorem entrants_concat (ms : List (Move ι ω)) (m : Move ι ω) :
    entrants (ms ++ [m]) = entrants ms ++ m.entrant := by
  unfold entrants
  rw [List.flatMap_append, List.flatMap_singleton]

theorem Move.entrant_of_signalling {m : Move ι ω} (h : m.before.phases m.who = .signalling) :
    m.entrant = [m.who] := by
  unfold entrant
  rw [h]

theorem Move.entrant_of_ne {m : Move ι ω} (h : m.before.phases m.who ≠ .signalling) :
    m.entrant = [] := by
  unfold entrant
  split
  · exact absurd ‹_› h
  · rfl

section Uninterrupted
variable [DecidableEq ι] [BEq ω] {s : Scene ι ω} {k : ι}

theorem steps_raise (hk : s.phases k = .signalling) (hlock : s.lock = none)
    (h : s.event.latched = false) :
    ∃ s', Relation.TransGen (Step · k ·) s s' ∧ s'.phases k = .notifying s.event.raise.2.1 ∧
      s'.event = s.event.raise.2.2 ∧ s'.lock = none := by
  let s₁ : Scene ι ω := { s with event := s.event.latch, lock := some k }.put k .latched
  let s₂ : Scene ι ω := { s₁ with event := s₁.event.lift }.put k .lifted
  have hlatched : Step s k s₁ := .latched hk hlock h
  have hlifted : Step s₁ k s₂ := .lifted (Scene.put_self _ k .latched)
  have hdrained := Step.drained (s := s₂) (Scene.put_self _ k .lifted)
  refine ⟨_, ((Relation.TransGen.single hlatched).tail hlifted).tail hdrained, ?_⟩
  rw [Scene.put_self, raise_eq h]
  exact ⟨rfl, rfl, rfl⟩

theorem steps_poll {w : ω} (hk : s.phases k = .polling w) (hlock : s.lock = none) :
    ∃ s', Relation.TransGen (Step · k ·) s s' ∧ s'.phases k = .polled w (s.event.poll w).1 ∧
      s'.event = (s.event.poll w).2 ∧ s'.lock = none := by
  cases hr : s.event.raised with
  | true =>
    have hpoll : s.event.poll w = (.ready, s.event) := if_pos hr
    refine ⟨_, .single (.seen hk hr), ?_⟩
    rw [Scene.put_self, hpoll]
    exact ⟨rfl, rfl, hlock⟩
  | false =>
    have hpoll : s.event.poll w = s.event.register w := if_neg (ne_true_of_eq_false hr)
    have hregistered := Step.registered (Scene.put_self s k (.registering w)) hlock
    refine ⟨_, (Relation.TransGen.single (.unseen hk hr)).tail hregistered, ?_⟩
    rw [Scene.put_self, hpoll]
    exact ⟨rfl, rfl, hlock⟩

end Uninterrupted

variable [DecidableEq ι] [BEq ω] {calls : ι → Call ω} {ms ms₁ ms₂ : List (Move ι ω)} {m : Move ι ω}
  {s s' : Scene ι ω} {k : ι}

/-- The scene after the moves `ms`, of calls `calls` on a new event. -/
inductive Run (calls : ι → Call ω) : List (Move ι ω) → Scene ι ω → Prop
  | start : Run calls [] (Scene.start calls)
  | step {ms : List (Move ι ω)} {s s' : Scene ι ω} {k : ι} (h : Run calls ms s) (hs : Step s k s') :
      Run calls (ms ++ [⟨s, k, s'⟩]) s'

theorem Run.split (h : Run calls (ms₁ ++ m :: ms₂) s) :
    Run calls ms₁ m.before ∧ Step m.before m.who m.after := by
  generalize hms : ms₁ ++ m :: ms₂ = ms at h
  induction h generalizing ms₂ with
  | start => exact absurd hms (List.append_ne_nil_of_right_ne_nil _ (List.cons_ne_nil _ _))
  | @step ms s s' k h hs ih =>
    rcases List.eq_nil_or_concat ms₂ with rfl | ⟨l, m', rfl⟩
    · obtain ⟨rfl, hm⟩ := List.append_inj' hms rfl
      obtain ⟨rfl, -⟩ := List.cons.inj hm
      exact ⟨h, hs⟩
    · rw [List.concat_eq_append, ← List.cons_append, ← List.append_assoc] at hms
      exact ih (List.append_inj' hms rfl).1

end FilePipeline.Event
