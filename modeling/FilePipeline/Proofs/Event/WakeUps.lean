import FilePipeline.Proofs.Event.Calls

/-! # Wake-ups

However calls on one event are interleaved, each task that polled in vain is woken once. Until a signal gets
the lock, the wakers left at the event are those of the pending polls (`Down`). The first signal that gets it
raises the event, and from then on no poll leaves a waker any more (`Up`): what is still at the event, what
that signal has taken out, and what it has woken are together the wakers of the pending polls at any time
(`Up.covers`). So nothing is left behind between a poll's first look and its second one, and nothing is woken
twice (`Run.one_shot`). -/

namespace FilePipeline.Event

variable {ι ω : Type}

/-! ### Wakers of pending polls -/

section Covers
variable [BEq ω] {phases phases' : ι → Phase ω} {ws : List ω} {w w' : ω}

/-- `ws` holds the wakers of the pending polls, one for all those that wake the same task. -/
structure Covers (phases : ι → Phase ω) (ws : List ω) : Prop where
  distinct : ws.Pairwise fun a b => (a == b) = false
  pending : ∀ w ∈ ws, ∃ j, (phases j).pending? = some w
  complete : ∀ j w, (phases j).pending? = some w → ∃ w' ∈ ws, (w' == w) = true

theorem Covers.congr (h : Covers phases ws) (hp : ∀ j, (phases' j).pending? = (phases j).pending?) :
    Covers phases' ws where
  distinct := h.distinct
  pending w hw := by
    obtain ⟨j, hj⟩ := h.pending w hw
    exact ⟨j, (hp j).trans hj⟩
  complete j w hj := h.complete j w ((hp j).symm.trans hj)

theorem covers_nil (hp : ∀ j, (phases j).pending? = none) : Covers phases [] where
  distinct := List.Pairwise.nil
  pending _ hw := absurd hw List.not_mem_nil
  complete j w hj := by cases (hp j).symm.trans hj

/-- A waker that wakes the same task as one of several distinct ones wakes the same as exactly one. -/
theorem countP_eq_one [EquivBEq ω] (hd : ws.Pairwise fun a b => (a == b) = false) (hw : w' ∈ ws)
    (h : (w' == w) = true) : ws.countP (· == w) = 1 := by
  obtain ⟨as, bs, rfl⟩ := List.append_of_mem hw
  obtain ⟨-, hbs, has⟩ := List.pairwise_append.mp hd
  have has : as.countP (· == w) = 0 := List.countP_eq_zero.mpr fun a ha haw => by
    cases (has a ha w' List.mem_cons_self).symm.trans (BEq.trans haw (BEq.symm h))
  have hbs : bs.countP (· == w) = 0 := List.countP_eq_zero.mpr fun b hb hbw => by
    cases ((List.pairwise_cons.mp hbs).1 b hb).symm.trans (BEq.trans h (BEq.symm hbw))
  rw [List.countP_append, List.countP_cons_of_pos (p := (· == w)) h, has, hbs]

end Covers

/-! ### Before and after the event is raised -/

/-- The event has been raised, and the lock is free again. -/
structure Scene.Raised (s : Scene ι ω) : Prop where
  lock : s.lock = none
  raised : s.event.raised = true
  drained : s.event.wakers = []

/-- How it stands while the signal `k`, which is the one that raises the event, is in this phase. -/
inductive Winning (s : Scene ι ω) (k : ι) : Phase ω → Prop
  | latched (hlock : s.lock = some k) (hraised : s.event.raised = false)
      (hanswered : ∀ j, (s.phases j).answered = false) : Winning s k .latched
  | lifted (hlock : s.lock = some k) (hraised : s.event.raised = true) : Winning s k .lifted
  | notifying {ws : List ω} (h : s.Raised) : Winning s k (.notifying ws)
  | waking {ws : List ω} (h : s.Raised) (hawake : ∀ j, s.phases j ≠ .asleep) :
      Winning s k (.waking ws)
  | signalled (h : s.Raised) (hawake : ∀ j, s.phases j ≠ .asleep) : Winning s k (.signalled true)

/-- What the signal `k` has woken, what it has still to wake, and what is at the event. -/
def Scene.owed (s : Scene ι ω) (k : ι) : List ω :=
  s.woken.map Prod.snd ++ (s.phases k).due ++ s.event.wakers

theorem Winning.wins {s : Scene ι ω} {k : ι} {p : Phase ω} (h : Winning s k p) : p.wins = true := by
  cases h <;> rfl

variable [BEq ω]

/-- No signal has got the lock yet. -/
structure Down (s : Scene ι ω) : Prop where
  raised : s.event.raised = false
  latched : s.event.latched = false
  lock : s.lock = none
  woken : s.woken = []
  wins : ∀ j, (s.phases j).wins = false
  answered : ∀ j, (s.phases j).answered = false
  covers : Covers s.phases s.event.wakers

/-- The signal `k` has got the lock before any other. -/
structure Up (s : Scene ι ω) (k : ι) : Prop where
  latched : s.event.latched = true
  winner : Winning s k (s.phases k)
  others : ∀ j, j ≠ k → (s.phases j).wins = false
  woken : ∀ x ∈ s.woken, x.1 = k
  covers : Covers s.phases (s.owed k)

/-- How it stands when these signals have got the lock, in this order. -/
inductive Standing (s : Scene ι ω) : List ι → Prop
  | down (h : Down s) : Standing s []
  | up {k : ι} {ks : List ι} (h : Up s k) : Standing s (k :: ks)

section Standing
variable {s : Scene ι ω} {j k : ι} {ks : List ι}

/-- No call returns because it saw the event raised before it is. -/
theorem Standing.answered (h : Standing s ks) (hanswered : (s.phases j).answered = true) :
    s.event.raised = true ∧ ks ≠ [] := by
  cases h with
  | down h => cases (h.answered j).symm.trans hanswered
  | @up k ks h =>
    refine ⟨?_, List.cons_ne_nil k ks⟩
    have hwinner := h.winner
    generalize s.phases k = q at hwinner
    cases hwinner with
    | latched _ _ hall => cases (hall j).symm.trans hanswered
    | lifted _ hraised => exact hraised
    | notifying hr | waking hr | signalled hr => exact hr.raised

theorem Standing.first {b : Bool} (h : Standing s ks) (hj : s.phases j = .signalled b) :
    ∃ i, ks.head? = some i ∧ (b = true ↔ j = i) := by
  cases h with
  | down h =>
    have hwins := h.wins j
    have hanswered := h.answered j
    rw [hj] at hwins hanswered
    cases b
    · cases hanswered
    · cases hwins
  | @up k ks h =>
    refine ⟨k, rfl, fun hb => ?_, fun hjk => ?_⟩
    · by_contra hjk
      have hwins := h.others j hjk
      rw [hj, hb] at hwins
      cases hwins
    · have hwinner := h.winner
      rw [← hjk, hj] at hwinner
      cases hwinner
      rfl

theorem Standing.flags (h : Standing s ks) :
    (s.event.raised = true → s.event.latched = true) ∧
      (s.lock = none → s.event.raised = s.event.latched) ∧
      ∀ k, s.lock = some k → ks.head? = some k ∧ (s.phases k = .latched ∨ s.phases k = .lifted) := by
  cases h with
  | down h =>
    refine ⟨fun hr => ?_, fun _ => h.raised.trans h.latched.symm, fun k hk => ?_⟩
    · cases h.raised.symm.trans hr
    · cases h.lock.symm.trans hk
  | @up k ks h =>
    refine ⟨fun _ => h.latched, ?_⟩
    rw [h.latched]
    have hwinner := h.winner
    generalize hq : s.phases k = q at hwinner
    cases hwinner with
    | latched hlock =>
      refine ⟨fun hfree => ?_, fun j hj => ?_⟩
      · cases hlock.symm.trans hfree
      · obtain rfl := Option.some.inj (hlock.symm.trans hj)
        exact ⟨rfl, Or.inl hq⟩
    | lifted hlock hraised =>
      refine ⟨fun _ => hraised, fun j hj => ?_⟩
      obtain rfl := Option.some.inj (hlock.symm.trans hj)
      exact ⟨rfl, Or.inr hq⟩
    | notifying hr | waking hr | signalled hr =>
      refine ⟨fun _ => hr.raised, fun j hj => ?_⟩
      cases hr.lock.symm.trans hj

theorem Standing.wakers (h : Standing s ks) :
    (s.event.wakers.Pairwise fun a b => (a == b) = false) ∧
      (s.lock = none → s.event.raised = true → s.event.wakers = []) := by
  cases h with
  | down h =>
    refine ⟨h.covers.distinct, fun _ hr => ?_⟩
    cases h.raised.symm.trans hr
  | @up k ks h =>
    refine ⟨(List.pairwise_append.mp h.covers.distinct).2.1, fun hfree _ => ?_⟩
    have hwinner := h.winner
    generalize s.phases k = q at hwinner
    cases hwinner with
    | latched hlock | lifted hlock => cases hlock.symm.trans hfree
    | notifying hr | waking hr | signalled hr => exact hr.drained

theorem Standing.woken (h : Standing s ks) :
    (∀ x ∈ s.woken, ks.head? = some x.1 ∧ ∃ j, s.phases j = .polled x.2 .pending) ∧
      s.woken.Pairwise fun x y => (x.2 == y.2) = false := by
  cases h with
  | down h =>
    rw [h.woken]
    exact ⟨fun x hx => absurd hx List.not_mem_nil, List.Pairwise.nil⟩
  | @up k ks h =>
    refine ⟨fun x hx => ⟨by rw [h.woken x hx]; rfl, ?_⟩, ?_⟩
    · have howed : x.2 ∈ s.owed k := by
        unfold Scene.owed
        rw [List.append_assoc]
        exact List.mem_append_left _ (List.mem_map_of_mem hx)
      obtain ⟨j, hj⟩ := h.covers.pending x.2 howed
      exact ⟨j, Phase.eq_of_pending? hj⟩
    · have hdistinct := h.covers.distinct
      unfold Scene.owed at hdistinct
      rw [List.append_assoc] at hdistinct
      exact List.pairwise_map.mp (List.pairwise_append.mp hdistinct).1

/-- When the signal that raises the event returns, it has woken all that it owed. -/
theorem Standing.complete [EquivBEq ω] (h : Standing s ks) (hk : s.phases k = .signalled true) :
    (∀ j w, s.phases j = .polled w .pending → s.woken.countP (fun x => x.2 == w) = 1) ∧
      ∀ j, s.phases j ≠ .asleep := by
  obtain ⟨i, hi, hki⟩ := h.first hk
  have hi : ks.head? = some k := hki.mp rfl ▸ hi
  cases h with
  | down => cases hi
  | up h =>
    obtain rfl := (Option.some.inj hi).symm
    have hwinner := h.winner
    rw [hk] at hwinner
    cases hwinner with
    | signalled hr hawake =>
      refine ⟨fun j w hj => ?_, hawake⟩
      have howed : s.owed k = s.woken.map Prod.snd := by
        unfold Scene.owed
        rw [hk, hr.drained, List.append_nil]
        exact List.append_nil _
      have hcovers := h.covers
      rw [howed] at hcovers
      obtain ⟨w', hmem, hw'⟩ := hcovers.complete j w (by rw [hj]; rfl)
      have hone := countP_eq_one hcovers.distinct hmem hw'
      rw [List.countP_map] at hone
      exact hone

end Standing

/-! ### Phases of single calls -/

theorem down_start (calls : ι → Call ω) : Down (Scene.start calls) := by
  have hstart : ∀ c : Call ω, c.start.wins = false ∧ c.start.answered = false ∧ c.start.pending? = none := by
    intro c
    cases c <;> exact ⟨rfl, rfl, rfl⟩
  exact ⟨rfl, rfl, rfl, rfl, fun j => (hstart (calls j)).1, fun j => (hstart (calls j)).2.1,
    covers_nil fun j => (hstart (calls j)).2.2⟩

variable [DecidableEq ι] {s s' t : Scene ι ω} {j k : ι} {p : Phase ω}

omit [BEq ω] in
theorem pending?_put (hpending : ∀ j, (t.phases j).pending? = (s.phases j).pending?)
    (hp : p.pending? = (s.phases k).pending?) (j : ι) :
    ((t.put k p).phases j).pending? = (s.phases j).pending? :=
  Scene.forall_put (P := fun j q => q.pending? = (s.phases j).pending?) (fun j _ => hpending j) hp j

/-! ### Steps before the event is raised -/

theorem Down.put (h : Down s) (hwins : p.wins = false) (hanswered : p.answered = false)
    (hp : p.pending? = (s.phases k).pending?) : Down (s.put k p) where
  raised := h.raised
  latched := h.latched
  lock := h.lock
  woken := h.woken
  wins := Scene.forall_put (P := fun _ q => q.wins = false) (fun j _ => h.wins j) hwins
  answered := Scene.forall_put (P := fun _ q => q.answered = false) (fun j _ => h.answered j) hanswered
  covers := h.covers.congr (pending?_put (fun _ => rfl) hp)

theorem register_of_open [EquivBEq ω] {e : Event ω} (h : e.latched = false) (w : ω) :
    (e.register w).1 = .pending ∧ ∃ ws, (e.register w).2 = { e with wakers := e.wakers ++ ws } ∧
      ((ws = [] ∧ ∃ w' ∈ e.wakers, (w' == w) = true) ∨
        (ws = [w] ∧ ∀ w' ∈ e.wakers, (w' == w) = false)) := by
  unfold register
  rw [if_neg (ne_true_of_eq_false h)]
  by_cases hw : e.wakers.contains w = true
  · rw [if_pos hw]
    obtain ⟨w', hmem, hw'⟩ := List.contains_iff_exists_mem_beq.mp hw
    refine ⟨rfl, [], ?_, Or.inl ⟨rfl, w', hmem, BEq.symm hw'⟩⟩
    rw [List.append_nil]
  · rw [if_neg hw]
    refine ⟨rfl, [w], rfl, Or.inr ⟨rfl, fun w' hmem => eq_false_of_ne_true fun hw' => hw ?_⟩⟩
    exact List.contains_iff_exists_mem_beq.mpr ⟨w', hmem, BEq.symm hw'⟩

/-- What is left at the event when a poll has looked under the lock. -/
theorem Covers.register [EquivBEq ω] {w : ω} (h : Covers s.phases s.event.wakers)
    (hlatched : s.event.latched = false) (hk : (s.phases k).pending? = none) :
    Covers (s.put k (.polled w .pending)).phases (s.event.register w).2.wakers := by
  obtain ⟨-, ws, heq, hws⟩ := register_of_open hlatched w
  rw [heq]
  refine ⟨?_, fun v hv => ?_, ?_⟩
  · rcases hws with ⟨rfl, -⟩ | ⟨rfl, hnew⟩
    · rw [List.append_nil]
      exact h.distinct
    · refine List.pairwise_append.mpr ⟨h.distinct, List.pairwise_singleton _ _, fun v hv u hu => ?_⟩
      rw [List.mem_singleton.mp hu]
      exact hnew v hv
  · rcases List.mem_append.mp hv with hv | hv
    · obtain ⟨j, hj⟩ := h.pending v hv
      have hjk : j ≠ k := fun hjk => by cases hj.symm.trans (hjk ▸ hk)
      exact ⟨j, by rw [Scene.put_of_ne s hjk, hj]⟩
    · have hv : v = w := by
        rcases hws with ⟨rfl, -⟩ | ⟨rfl, -⟩
        · cases hv
        · exact List.mem_singleton.mp hv
      exact ⟨k, by rw [Scene.put_self, hv]; rfl⟩
  · refine Scene.forall_put
      (P := fun _ q => ∀ v, q.pending? = some v → ∃ w' ∈ s.event.wakers ++ ws, (w' == v) = true)
      (fun j _ v hv => ?_) fun v hv => ?_
    · obtain ⟨w', hmem, hw'⟩ := h.complete j v hv
      exact ⟨w', List.mem_append_left _ hmem, hw'⟩
    · obtain rfl : w = v := Option.some.inj hv
      rcases hws with ⟨-, w', hmem, hw'⟩ | ⟨rfl, -⟩
      · exact ⟨w', List.mem_append_left _ hmem, hw'⟩
      · exact ⟨w, List.mem_append_right _ (List.mem_singleton.mpr rfl), BEq.rfl⟩

theorem Down.register [EquivBEq ω] {w : ω} (h : Down s) (hk : s.phases k = .registering w) :
    Down ({ s with event := (s.event.register w).2 }.put k (.polled w (s.event.register w).1)) := by
  obtain ⟨hpending, ws, heq, -⟩ := register_of_open h.latched w
  have hcovers := h.covers.register (w := w) h.latched (by rw [hk]; rfl)
  rw [heq] at hcovers
  rw [hpending, heq]
  exact ⟨h.raised, h.latched, h.lock, h.woken,
    Scene.forall_put (P := fun _ q => q.wins = false) (fun j _ => h.wins j) rfl,
    Scene.forall_put (P := fun _ q => q.answered = false) (fun j _ => h.answered j) rfl, hcovers⟩

/-- The first signal that gets the lock. -/
theorem Down.latch (h : Down s) (hk : s.phases k = .signalling) :
    Up ({ s with event := s.event.latch, lock := some k }.put k .latched) k where
  latched := rfl
  winner := by
    rw [Scene.put_self]
    exact .latched rfl h.raised
      (Scene.forall_put (P := fun _ q => q.answered = false) (fun j _ => h.answered j) rfl)
  others j hj := by
    rw [Scene.put_of_ne _ hj]
    exact h.wins j
  woken x hx := by
    rw [Scene.put_woken, h.woken] at hx
    exact absurd hx List.not_mem_nil
  covers := by
    unfold Scene.owed
    rw [Scene.put_self, Scene.put_woken, h.woken]
    exact h.covers.congr (pending?_put (fun _ => rfl) (by rw [hk]; rfl))

theorem Down.step [EquivBEq ω] (h : Down s) (hs : Step s k s') :
    (s.phases k = .signalling ∧ Up s' k) ∨ (s.phases k ≠ .signalling ∧ Down s') := by
  cases hs with
  | seen _ hr | noticed _ hr => cases h.raised.symm.trans hr
  | beaten _ _ hl | released _ _ hl => cases h.latched.symm.trans hl
  | lifted hk | drained hk | notified hk | woke hk | signalled hk =>
    have hwins := h.wins k
    rw [hk] at hwins
    cases hwins
  | latched hk => exact Or.inl ⟨hk, h.latch hk⟩
  | registered hk =>
    refine Or.inr ⟨fun hk' => ?_, h.register hk⟩
    cases hk.symm.trans hk'
  | unseen hk | unnoticed hk | slept hk | stirred hk =>
    refine Or.inr ⟨fun hk' => ?_, h.put rfl rfl (by rw [hk]; rfl)⟩
    cases hk.symm.trans hk'

/-! ### Steps after it -/

omit [BEq ω] in
theorem Winning.put (h : Winning s k (s.phases k)) (hj : j ≠ k)
    (hanswered : p.answered = true → s.event.raised = true ∨ s.lock = none) (hasleep : p ≠ .asleep) :
    Winning (s.put j p) k ((s.put j p).phases k) := by
  rw [Scene.put_of_ne s hj.symm]
  have hawake (h : ∀ i, s.phases i ≠ .asleep) : ∀ i, (s.put j p).phases i ≠ .asleep :=
    Scene.forall_put (P := fun _ q => q ≠ .asleep) (fun i _ => h i) hasleep
  generalize s.phases k = q at h
  cases h with
  | latched hlock hraised hall =>
    refine .latched hlock hraised (Scene.forall_put (P := fun _ q => q.answered = false)
      (fun i _ => hall i) (eq_false_of_ne_true fun hp => ?_))
    rcases hanswered hp with hr | hl
    · cases hraised.symm.trans hr
    · cases hlock.symm.trans hl
  | lifted hlock hraised => exact .lifted hlock hraised
  | notifying hr => exact .notifying ⟨hr.lock, hr.raised, hr.drained⟩
  | waking hr h => exact .waking ⟨hr.lock, hr.raised, hr.drained⟩ (hawake h)
  | signalled hr h => exact .signalled ⟨hr.lock, hr.raised, hr.drained⟩ (hawake h)

theorem Up.put (h : Up s k) (hj : j ≠ k) (hwins : p.wins = false)
    (hp : p.pending? = (s.phases j).pending?)
    (hanswered : p.answered = true → s.event.raised = true ∨ s.lock = none) (hasleep : p ≠ .asleep) :
    Up (s.put j p) k where
  latched := h.latched
  winner := h.winner.put hj hanswered hasleep
  others := Scene.forall_put (P := fun i q => i ≠ k → q.wins = false) (fun i _ => h.others i)
    fun _ => hwins
  woken := h.woken
  covers := by
    unfold Scene.owed
    rw [Scene.put_of_ne s hj.symm]
    exact h.covers.congr (pending?_put (fun _ => rfl) hp)

/-- A step of the signal that raises the event. What is owed stays the same. -/
theorem Up.proceed (h : Up s k) (hlatched : t.event.latched = true)
    (hwins : ∀ j, (t.phases j).wins = (s.phases j).wins)
    (hpending : ∀ j, (t.phases j).pending? = (s.phases j).pending?)
    (hwoken : ∀ x ∈ t.woken, x.1 = k)
    (howed : t.woken.map Prod.snd ++ p.due ++ t.event.wakers = s.owed k)
    (hwinner : Winning (t.put k p) k p) : Up (t.put k p) k where
  latched := hlatched
  winner := by
    rw [Scene.put_self]
    exact hwinner
  others j hj := by
    rw [Scene.put_of_ne t hj, hwins j]
    exact h.others j hj
  woken := hwoken
  covers := by
    have hnone {q : Phase ω} (hq : q.wins = true) : q.pending? = none := by
      cases q <;> first | rfl | cases hq
    unfold Scene.owed
    rw [Scene.put_self, Scene.put_woken, Scene.put_event, howed]
    exact h.covers.congr (pending?_put hpending
      ((hnone hwinner.wins).trans (hnone h.winner.wins).symm))

theorem Up.step_other (h : Up s k) (hj : j ≠ k) (hs : Step s j s') : Up s' k := by
  cases hs with
  | seen hk hr | noticed hk hr =>
    exact h.put hj rfl (by rw [hk]; rfl) (fun _ => Or.inl hr) fun h => by cases h
  | unseen hk | unnoticed hk | stirred hk =>
    exact h.put hj rfl (by rw [hk]; rfl) (fun h => by cases h) fun h => by cases h
  | registered hk hlock =>
    rw [register_of_latched h.latched]
    exact h.put hj rfl (by rw [hk]; rfl) (fun _ => Or.inr hlock) fun h => by cases h
  | beaten hk hlock | released hk hlock =>
    exact h.put hj rfl (by rw [hk]; rfl) (fun _ => Or.inr hlock) fun h => by cases h
  | latched _ _ hl | slept _ _ hl => cases hl.symm.trans h.latched
  | lifted hk | drained hk | notified hk | woke hk | signalled hk =>
    have hwins := h.others j hj
    rw [hk] at hwins
    cases hwins

theorem Up.step_winner (h : Up s k) (hs : Step s k s') : Up s' k := by
  have hwinner := h.winner
  cases hs with
  | seen hk | unseen hk | registered hk | beaten hk | latched hk | noticed hk | unnoticed hk | released hk
  | slept hk | stirred hk =>
    rw [hk] at hwinner
    cases hwinner
  | lifted hk =>
    rw [hk] at hwinner
    cases hwinner with
    | latched hlock =>
      refine h.proceed h.latched (fun _ => rfl) (fun _ => rfl) h.woken ?_ (.lifted hlock rfl)
      unfold Scene.owed
      rw [hk]
      rfl
  | drained hk =>
    rw [hk] at hwinner
    cases hwinner with
    | lifted _ hraised =>
      refine h.proceed h.latched (fun _ => rfl) (fun _ => rfl) h.woken ?_ (.notifying ⟨rfl, hraised, rfl⟩)
      unfold Scene.owed drain Phase.due
      rw [hk, List.append_nil, List.append_nil]
  | notified hk =>
    rw [hk] at hwinner
    cases hwinner with
    | notifying hr =>
      refine h.proceed (t := s.rouse) h.latched (fun _ => Phase.wins_roused _)
        (fun _ => Phase.pending?_roused _) h.woken ?_ (.waking ⟨hr.lock, hr.raised, hr.drained⟩ ?_)
      · unfold Scene.owed
        rw [hk]
        rfl
      · exact Scene.forall_put (P := fun _ q => q ≠ .asleep) (fun _ _ => Phase.roused_ne_asleep _)
          fun h => by cases h
  | @woke w ws hk =>
    rw [hk] at hwinner
    cases hwinner with
    | waking hr hawake =>
      refine h.proceed h.latched (fun _ => rfl) (fun _ => rfl) (fun x hx => ?_) ?_
        (.waking ⟨hr.lock, hr.raised, hr.drained⟩ ?_)
      · rcases List.mem_append.mp hx with hx | hx
        · exact h.woken x hx
        · rw [List.mem_singleton.mp hx]
      · unfold Scene.owed
        rw [hk, List.map_append, List.append_assoc _ _ (Phase.due _)]
        rfl
      · exact Scene.forall_put (P := fun _ q => q ≠ .asleep) (fun j _ => hawake j) fun h => by cases h
  | signalled hk =>
    rw [hk] at hwinner
    cases hwinner with
    | waking hr hawake =>
      refine h.proceed h.latched (fun _ => rfl) (fun _ => rfl) h.woken ?_
        (.signalled ⟨hr.lock, hr.raised, hr.drained⟩ ?_)
      · unfold Scene.owed
        rw [hk]
        rfl
      · exact Scene.forall_put (P := fun _ q => q ≠ .asleep) (fun j _ => hawake j) fun h => by cases h

theorem Up.step (h : Up s k) (hs : Step s j s') : Up s' k := by
  by_cases hj : j = k
  · exact h.step_winner (hj ▸ hs)
  · exact h.step_other hj hs

/-! ### Runs -/

variable [EquivBEq ω] {calls : ι → Call ω} {ms : List (Move ι ω)} {ks : List ι}

theorem Standing.step (h : Standing s ks) (hs : Step s k s') :
    Standing s' (ks ++ (Move.mk s k s').entrant) := by
  cases h with
  | down h =>
    rcases h.step hs with ⟨hk, h'⟩ | ⟨hk, h'⟩
    · rw [Move.entrant_of_signalling hk]
      exact .up h'
    · rw [Move.entrant_of_ne hk]
      exact .down h'
  | up h => exact .up (h.step hs)

theorem Run.standing (h : Run calls ms s) : Standing s (entrants ms) := by
  induction h with
  | start => exact .down (down_start calls)
  | step _ hs ih =>
    rw [entrants_concat]
    exact ih.step hs

/-- What the calls on one event bring about, in any state of any run. -/
structure OneShot (ms : List (Move ι ω)) (s : Scene ι ω) : Prop where
  /-- The first signal that gets the lock, and no other, answers that it has raised the event. -/
  first : ∀ k b, s.phases k = .signalled b →
    ∃ i, (entrants ms).head? = some i ∧ (b = true ↔ k = i)
  /-- Nothing can keep that signal from going on until it has returned. -/
  proceeds : ∀ k, (entrants ms).head? = some k → s.phases k = .signalled true ∨ ∃ s', Step s k s'
  /-- Only that signal wakes, it wakes no two wakers for the same task, and only such as a poll has left
      that had to come again. -/
  woken : (∀ x ∈ s.woken, (entrants ms).head? = some x.1 ∧ ∃ j, s.phases j = .polled x.2 .pending) ∧
    s.woken.Pairwise fun x y => (x.2 == y.2) = false
  /-- Once it has returned, one waker has been woken for each poll that had to come again, and nobody
      sleeps. -/
  complete : ∀ k, s.phases k = .signalled true →
    (∀ j w, s.phases j = .polled w .pending → s.woken.countP (fun x => x.2 == w) = 1) ∧
      ∀ j, s.phases j ≠ .asleep
  /-- A poll that gets the lock after the first signal did sees the event raised and leaves nothing. -/
  late : ∀ ms₁ m ms₂ w, ms = ms₁ ++ m :: ms₂ → entrants ms₁ ≠ [] →
    m.before.phases m.who = .registering w →
      m.after.phases m.who = .polled w .ready ∧ m.after.event = m.before.event
  /-- The wakers at the event wake different tasks, and there are none once it is raised. -/
  wakers : (s.event.wakers.Pairwise fun a b => (a == b) = false) ∧
    (s.lock = none → s.event.raised = true → s.event.wakers = [])
  /-- The open flag is up only if the other one is, and they differ only while the first signal holds the
      lock. -/
  flags : (s.event.raised = true → s.event.latched = true) ∧
    (s.lock = none → s.event.raised = s.event.latched) ∧
    ∀ k, s.lock = some k →
      (entrants ms).head? = some k ∧ (s.phases k = .latched ∨ s.phases k = .lifted)
  /-- No wait returns, and no poll is done, before the event is raised. -/
  raised : ∀ k, (s.phases k = .released ∨ ∃ w, s.phases k = .polled w .ready) →
    s.event.raised = true ∧ entrants ms ≠ []

omit [EquivBEq ω] in
/-- The signal that raises the event never has to wait again. -/
theorem Standing.proceeds (h : Standing s ks) (hk : ks.head? = some k) :
    s.phases k = .signalled true ∨ ∃ s', Step s k s' := by
  cases h with
  | down => cases hk
  | up h =>
    obtain rfl := (Option.some.inj hk).symm
    have hwinner := h.winner
    generalize hq : s.phases k = q at hwinner
    cases hwinner with
    | latched => exact Or.inr ⟨_, .lifted hq⟩
    | lifted => exact Or.inr ⟨_, .drained hq⟩
    | notifying => exact Or.inr ⟨_, .notified hq⟩
    | @waking ws =>
      cases ws with
      | nil => exact Or.inr ⟨_, .signalled hq⟩
      | cons w ws => exact Or.inr ⟨_, .woke hq⟩
    | signalled => exact Or.inl rfl

/-- **Every task that polled in vain is woken, and woken once**, whatever the interleaving. -/
theorem Run.one_shot (h : Run calls ms s) : OneShot ms s where
  first _ _ := h.standing.first
  proceeds _ := h.standing.proceeds
  woken := h.standing.woken
  complete _ := h.standing.complete
  late ms₁ m ms₂ w hms hfirst hm := by
    obtain ⟨hrun, hs⟩ := (hms ▸ h).split
    have hstanding := hrun.standing
    generalize entrants ms₁ = ks at hstanding hfirst
    cases hstanding with
    | down => exact absurd rfl hfirst
    | up h =>
      generalize m.after = s' at hs
      cases hs with
      | registered hk =>
        obtain rfl := Phase.registering.inj (hk.symm.trans hm)
        rw [register_of_latched h.latched]
        exact ⟨Scene.put_self _ _ _, rfl⟩
      | _ hk => cases hk.symm.trans hm
  wakers := h.standing.wakers
  flags := h.standing.flags
  raised k hk := by
    refine h.standing.answered (j := k) ?_
    rcases hk with hk | ⟨w, hk⟩
    · rw [hk]
      rfl
    · rw [hk]
      rfl

/-- Two polls, a wait and two signals. -/
def sharedCalls : Nat → Call Nat
  | 0 => .poll 7
  | 1 => .signal
  | 2 => .wait
  | 3 => .poll 8
  | _ => .signal

/-- A poll leaves its waker and a wait goes to sleep before the event is raised, and another poll, which has
    seen the open flag down by then, gets the lock only afterwards. -/
theorem exists_one_shot : ∃ ms s, Run sharedCalls ms s ∧ s.phases 0 = .polled 7 .pending ∧
    s.phases 1 = .signalled true ∧ s.phases 2 = .released ∧ s.phases 3 = .polled 8 .ready ∧
    s.phases 4 = .signalled false ∧ s.woken = [(1, 7)] ∧ OneShot ms s := by
  have h : Run sharedCalls [] (Scene.start sharedCalls) := .start
  have h := h.step (k := 0) (.unseen (w := 7) rfl rfl)
  have h := h.step (k := 0) (.registered (w := 7) rfl rfl)
  have h := h.step (k := 3) (.unseen (w := 8) rfl rfl)
  have h := h.step (k := 2) (.unnoticed rfl rfl)
  have h := h.step (k := 2) (.slept rfl rfl rfl)
  have h := h.step (k := 1) (.latched rfl rfl rfl)
  have h := h.step (k := 1) (.lifted rfl)
  have h := h.step (k := 1) (.drained rfl)
  have h := h.step (k := 3) (.registered (w := 8) rfl rfl)
  have h := h.step (k := 1) (.notified rfl)
  have h := h.step (k := 1) (.woke rfl)
  have h := h.step (k := 1) (.signalled rfl)
  have h := h.step (k := 2) (.released rfl rfl rfl)
  have h := h.step (k := 4) (.beaten rfl rfl rfl)
  exact ⟨_, _, h, rfl, rfl, rfl, rfl, rfl, rfl, h.one_shot⟩

end FilePipeline.Event
