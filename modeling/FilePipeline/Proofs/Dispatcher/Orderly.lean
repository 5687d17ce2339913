import FilePipeline.Proofs.Dispatcher.Completion
import FilePipeline.Proofs.Dispatcher.Legs
import FilePipeline.Proofs.Dispatcher.Measure
import FilePipeline.Proofs.Dispatcher.Turns

/-! # Order without crashes

In a run without crashes the pill is on some leg of its round, and everything is as this requires
(`Recorded.orderly`). Submissions are over when the pill is pushed, since the stopping begins only once
nobody waits; from then on each action keeps the leg or takes the pill to the next one
(`Orderly.transition`). -/

namespace FilePipeline.Dispatcher

variable {σ η κ : Type} {p : Setup σ η κ} {d d' d₀ : Dispatcher σ κ} {rs : List Submission}
  {ts : List (Turn σ κ)}

/-- The pill is on the leg `l`, and workers and queues are as this requires. -/
structure Orderly (l : Leg) (d : Dispatcher σ κ) : Prop where
  begun : l = .before ↔ d.halt = .running ∨ d.halt = .pushing
  waiting : d.halt ≠ .running → d.waiting = []
  draining : d.draining = l.drains
  task : ∀ s, l.task s (d.tasks.get s)
  items : ∀ s, l.items s (d.queues.get s).items

namespace Orderly

variable {l : Leg} {s : Stage}

/-! ### Exchanging parts of a dispatcher -/

theorem congr (h : Orderly l d) (hw : d'.waiting = d.waiting) (hq : d'.queues = d.queues)
    (ht : d'.tasks = d.tasks) (hd : d'.draining = d.draining) (hh : d'.halt = d.halt) :
    Orderly l d' := by
  refine ⟨?_, ?_, hd.trans h.draining, ?_, ?_⟩
  · rw [hh]
    exact h.begun
  · rw [hh, hw]
    exact h.waiting
  · rw [ht]
    exact h.task
  · rw [hq]
    exact h.items

theorem noticed (h : Orderly l d) (n : Notice) : Orderly l (d.notice n) :=
  h.congr rfl rfl rfl rfl rfl

theorem setTask {t : Task} (h : Orderly l d) (ht : l.task s t) : Orderly l (d.setTask s t) := by
  refine ⟨h.begun, h.waiting, h.draining, fun s' => ?_, h.items⟩
  rw [get_setTask]
  split
  · next he => rw [← he]; exact ht
  · exact h.task s'

theorem setQueue {q : Queue Work} (h : Orderly l d) (hq : l.items s q.items) :
    Orderly l (d.setQueue s q) := by
  refine ⟨h.begun, h.waiting, h.draining, h.task, fun s' => ?_⟩
  have := h.items s'
  cases s <;> cases s' <;> first | exact hq | exact this

theorem settled {d₁ : Dispatcher σ κ} (h : Orderly l d) {w : Work} {r : Except WorkError Unit}
    (hd : d.Untouched d₁) : Orderly l (d₁.settle w r) :=
  h.congr ((waiting_settle _ _ _).trans hd.waiting) ((queues_settle _ _ _).trans hd.queues)
    ((tasks_settle _ _ _).trans hd.tasks) ((apart_draining.settle _ _ _).trans hd.draining)
    ((apart_halt.settle _ _ _).trans hd.halt)

theorem before_of_waiting (h : Orderly l d) {i : Nat} {x : Stage × Work}
    (hw : d.waiting[i]? = some x) : d.halt = .running ∧ l = .before := by
  have hr : d.halt = .running := by
    by_contra hn
    rw [h.waiting hn] at hw
    cases hw
  exact ⟨hr, h.begun.mpr (Or.inl hr)⟩

theorem past (h : Orderly l d) (hl : l ≠ .before) : ¬ (d.halt = .running ∨ d.halt = .pushing) :=
  fun hh => hl (h.begun.mpr hh)

theorem waiting_eq_nil (h : Orderly l d) (hl : l ≠ .before) : d.waiting = [] :=
  h.waiting fun hh => h.past hl (Or.inl hh)

/-- After the pill was pushed, the pill or the stopping comes to another place. -/
theorem advance {l' : Leg} (hl : l' ≠ .before) (hh : ¬ (d'.halt = .running ∨ d'.halt = .pushing))
    (hw : d'.waiting = []) (hd : d'.draining = l'.drains) (tio : l'.task .io d'.tasks.io)
    (tco : l'.task .compression d'.tasks.compression) (qio : l'.items .io d'.queues.io.items)
    (qco : l'.items .compression d'.queues.compression.items) : Orderly l' d' :=
  ⟨⟨fun he => absurd he hl, fun he => absurd he hh⟩, fun _ => hw, hd,
    fun s => by cases s; exacts [tio, tco], fun s => by cases s; exacts [qio, qco]⟩

/-! ### Steps -/

theorem leg_of_closed (h : Orderly l d) (hg : d.outline.Guided)
    (hc : (d.queues.get s).closed = true) : l = .home ∨ (l = .back ∧ s = .compression) := by
  rw [← closed_outline, hg.closed s] at hc
  obtain ⟨k, hk⟩ := hc
  rw [posts_outline] at hk
  have ht := h.task s
  cases hx : d.tasks.get s with
  | gone c =>
    rw [hx] at ht
    cases l <;> cases s
    case home.io | home.compression => exact Or.inl rfl
    case back.compression => exact Or.inr ⟨rfl, rfl⟩
    case toCompression.io | atCompression.io | back.io =>
      rcases ht with ht | ⟨v, ht, -⟩ <;> cases ht
    all_goals cases ht
  | _ => rw [hx] at hk; cases hk

theorem poppedPill (h : Orderly l d) (hg : d.outline.Guided) {q : Queue Work}
    (ht : d.tasks.get s = .idle) (hq : (d.queues.get s).pop? = .item .pill q) :
    ∃ l', Orderly l' ((d.setQueue s q).setTask s (d.afterPill s)) := by
  have hidle := h.task s
  rw [ht] at hidle
  rcases Queue.pop?_eq_item hq with ⟨c, rest, he, hq'⟩ | ⟨-, hclosed, -, -⟩
  · have hi : l.items s (.pill :: q.items) := by
      have hits : (d.queues.get s).items = .pill :: q.items := by
        unfold Queue.items
        rw [he, hq']
        rfl
      rw [← hits]
      exact h.items s
    rcases Leg.items_pill hi hidle with ⟨rfl, rfl, hw⟩ | ⟨rfl, rfl, hn⟩ | ⟨rfl, rfl, hn⟩
    · have hd : d.draining = false := h.draining
      have hp : d.afterPill .io = .relaying := by simp [afterPill, hd]
      rw [hp]
      exact ⟨.atIo, advance (by simp) (h.past (by simp)) (h.waiting_eq_nil (by simp)) hd rfl
        (h.task .compression) hw (h.items .compression)⟩
    · have hd : d.draining = true := h.draining
      have hp : d.afterPill .io = .leaving false := by simp [afterPill, hd]
      rw [hp]
      exact ⟨.home, advance (by simp) (h.past (by simp)) (h.waiting_eq_nil (by simp)) hd (Or.inl rfl)
        (h.task .compression) hn (h.items .compression)⟩
    · exact ⟨.atCompression, advance (by simp) (h.past (by simp)) (h.waiting_eq_nil (by simp))
        h.draining (h.task .io) rfl (h.items .io) hn⟩
  · -- an idle worker's queue is open
    rw [← closed_outline, hg.closed s, posts_outline, ht] at hclosed
    obtain ⟨k, hk⟩ := hclosed
    cases hk

theorem relayedOn (h : Orderly l d) (ht : d.tasks.io = .relaying) :
    Orderly .toCompression
      ({ d.setQueue .compression (d.queues.compression.append .pill false) with
        draining := true }.setTask .io .idle) := by
  have htask : l.task .io .relaying := ht ▸ h.task .io
  obtain rfl : l = .atIo := by
    cases l
    case atIo => rfl
    case toCompression | atCompression | back => rcases htask with h | ⟨v, h, -⟩ <;> cases h
    case home => rcases htask with h | h <;> cases h
    all_goals cases htask
  exact advance (by simp) (h.past (by simp)) (h.waiting_eq_nil (by simp)) rfl (Or.inl rfl)
    (h.task .compression) (h.items .io) ⟨_, Queue.items_append _ _ _, h.items .compression⟩

theorem relayedBack (h : Orderly l d) (ht : d.tasks.compression = .relaying) :
    Orderly .back
      ((d.setQueue .io (d.queues.io.append .pill false)).setTask .compression (.leaving false)) := by
  have htask : l.task .compression .relaying := ht ▸ h.task .compression
  obtain rfl : l = .atCompression := by
    cases l
    case atCompression => rfl
    case back | home => rcases htask with h | h <;> cases h
    all_goals cases htask
  exact advance (by simp) (h.past (by simp)) (h.waiting_eq_nil (by simp)) h.draining (h.task .io)
    (Or.inl rfl) ⟨_, Queue.items_append _ _ _, h.items .io⟩ (h.items .compression)

/-- A pill is never refused: the worker it is for is not gone. -/
theorem not_refused (h : Orderly l d) (hg : d.outline.Guided) (ht : d.tasks.get s = .relaying) :
    (d.queues.get s.peer).closed = false := by
  by_contra hc
  have htask := h.task s
  rw [ht] at htask
  rcases h.leg_of_closed hg (by simpa using hc) with rfl | ⟨rfl, hs⟩
  · cases s <;> rcases htask with h | h <;> cases h
  · cases s
    · rcases htask with h | ⟨v, h, -⟩ <;> cases h
    · cases hs

theorem left (h : Orderly l d) (ht : d.tasks.get s = .leaving false) (is : List (Item Work)) :
    Orderly l (((d.setQueue s (d.queues.get s).close.2).abandonAll is).setTask s (.gone false)) := by
  have htask := h.task s
  rw [ht] at htask
  have hl : l = .home ∨ (l = .back ∧ s = .compression) := by
    cases l <;> cases s
    case home.io | home.compression => exact Or.inl rfl
    case back.compression => exact Or.inr ⟨rfl, rfl⟩
    case toCompression.io | atCompression.io | back.io =>
      rcases htask with ht | ⟨v, ht, -⟩ <;> cases ht
    all_goals cases htask
  have hq : Orderly l (d.setQueue s (d.queues.get s).close.2) := by
    refine h.setQueue ?_
    rcases hl with rfl | ⟨rfl, rfl⟩
    · cases s <;> rfl
    · rfl
  have ha := hq.congr (waiting_abandonAll _ is) (queues_abandonAll _ is) (tasks_abandonAll _ is)
    (apart_draining.abandonAll _ is) (apart_halt.abandonAll _ is)
  refine ha.setTask ?_
  rcases hl with rfl | ⟨rfl, rfl⟩
  · cases s <;> exact Or.inr rfl
  · exact Or.inr rfl

theorem home_of_closing (h : Orderly l d) (hg : d.outline.Guided) {e : Option JoinError}
    (hh : d.halt = .closing s e) : l = .home := by
  have hheard := hg.heard
  unfold Outline.Heard at hheard
  rw [show d.outline.halt = _ from hh] at hheard
  obtain ⟨c, -, hc, -⟩ := hheard
  rcases h.leg_of_closed (s := .io) hg ((hg.closed .io).mpr ⟨c, hc⟩) with rfl | ⟨rfl, hs⟩
  · rfl
  · cases hs

theorem closed (h : Orderly .home d) (is : List (Item Work)) :
    Orderly .home ((d.setQueue s (d.queues.get s).close.2).failAll is) := by
  have hq : Orderly .home (d.setQueue s (d.queues.get s).close.2) :=
    h.setQueue (by cases s <;> rfl)
  exact hq.congr (waiting_failAll _ is) (queues_failAll _ is) (tasks_failAll _ is)
    (apart_draining.failAll _ is) (apart_halt.failAll _ is)

theorem halted (h : Orderly l d) (hl : l ≠ .before) {x : Halt}
    (hx : ¬ (x = .running ∨ x = .pushing)) : Orderly l { d with halt := x } :=
  ⟨⟨fun he => absurd he hl, fun he => absurd he hx⟩, fun _ => h.waiting_eq_nil hl, h.draining, h.task,
    h.items⟩

theorem joined (h : Orderly l d) {e e' : Option JoinError} (hh : d.halt = .joining s e) :
    Orderly l { d with halt := afterJoin s e' } := by
  have hl : l ≠ .before := by
    intro he
    have := h.begun.mp he
    rw [hh] at this
    rcases this with h | h <;> cases h
  refine h.halted hl ?_
  rintro (hx | hx) <;> cases s <;> cases hx

/-- As long as no worker crashes, every action leaves things in order. -/
theorem transition (h : Orderly l d) (hg : d.outline.Guided) (hk : onItsWay.Holds d) {a : Action}
    (hc : ∀ s w, a = .process s → d.tasks.get s = .busy w →
      (d.processing p s w).2.2.crashed = false)
    (ht : Transition p d a d') : ∃ l', Orderly l' d' := by
  -- a worker that turned to its queue after whatever it had served
  have served : ∀ {s w}, (d.tasks.get s = .busy w ∨ d.tasks.get s = .handing w) →
      l.task s .idle := by
    rintro s w (hb | hb) <;> exact Leg.task_idle (h.task s) (by rw [hb]; rfl)
  cases ht with
  | @pushed i s w q hw hq =>
    obtain ⟨-, -, rfl⟩ := Queue.offer_eq_accepted hq
    obtain ⟨hr, rfl⟩ := h.before_of_waiting hw
    refine ⟨.before, ⟨h.begun, fun hn => absurd hr hn, h.draining, h.task, fun s' => ?_⟩⟩
    have he : Orderly .before (d.setQueue s ((d.queues.get s).append (.work w) true)) := by
      refine h.setQueue ?_
      rw [Queue.items_append]
      exact Leg.pill_not_mem_append (h.items s)
    exact he.items s'
  | @turnedAway i s w hw hq =>
    obtain ⟨hr, rfl⟩ := h.before_of_waiting hw
    rcases h.leg_of_closed hg (closed_of_offer hq) with he | ⟨he, -⟩ <;> cases he
  | @popped s w q ht hq =>
    obtain ⟨c, rest, he, hq'⟩ := Queue.pop?_eq_work hq
    have hi : l.items s (.work w :: q.items) := by
      have hits : (d.queues.get s).items = .work w :: q.items := by
        unfold Queue.items
        rw [he, hq']
        rfl
      rw [← hits]
      exact h.items s
    have hidle := h.task s
    rw [ht] at hidle
    obtain ⟨hq, hb⟩ := Leg.items_tail hi hidle
    exact ⟨l, (h.setQueue hq).setTask hb⟩
  | poppedPill ht hq => exact h.poppedPill hg ht hq
  | @readied s w w' d₁ ht hp hh =>
    have hu := untouched_of_processing hp
    have hb := h.task s
    rw [ht] at hb
    exact ⟨l, (h.congr hu.waiting hu.queues hu.tasks hu.draining hu.halt).setTask
      (Leg.task_handing hb (sameAs_of_processing hp) hh)⟩
  | @ended s w w' d₁ r ht hp =>
    exact ⟨l, (h.settled (untouched_of_processing hp)).setTask (served (Or.inl ht))⟩
  | @crashed s w w' d₁ c ht hp =>
    have := hc s w rfl ht
    rw [hp] at this
    cases this
  | @handed s w q ht hq =>
    obtain ⟨-, rfl⟩ := Queue.forward?_eq_some hq
    have hb := h.task s
    have hh := hk.task s
    rw [ht] at hb hh
    refine ⟨l, (h.setQueue ?_).setTask (served (Or.inr ht))⟩
    rw [Queue.items_append]
    exact Leg.items_append (h.items s.peer) hb hh
  | @refused s w ht hq =>
    have hu : d.Untouched d := ⟨rfl, rfl, rfl, rfl, rfl, rfl, rfl, rfl⟩
    exact ⟨l, (h.settled hu).setTask (served (Or.inr ht))⟩
  | relayedOn ht hq =>
    obtain ⟨-, rfl⟩ := Queue.forward?_eq_some hq
    exact ⟨_, h.relayedOn ht⟩
  | relayedBack ht hq =>
    obtain ⟨-, rfl⟩ := Queue.forward?_eq_some hq
    exact ⟨_, h.relayedBack ht⟩
  | @relayRefused s ht hq =>
    have hopen := h.not_refused hg ht
    rw [closed_of_forward? hq] at hopen
    cases hopen
  | left ht => exact ⟨l, h.left ht _⟩
  | @leftCrashed s ht =>
    have htask := h.task s
    rw [ht] at htask
    cases l <;> cases s
    case toCompression.io | atCompression.io | back.io =>
      rcases htask with h | ⟨v, h, -⟩ <;> cases h
    case home.io | home.compression | back.compression => rcases htask with h | h <;> cases h
    all_goals cases htask
  | @pillPushed q hh hq =>
    obtain ⟨-, -, rfl⟩ := Queue.offer_eq_accepted hq
    obtain rfl := h.begun.mpr (Or.inr hh)
    refine ⟨.toIo, ⟨by simp, fun _ => h.waiting (by simp [hh]), h.draining, h.task, fun s => ?_⟩⟩
    cases s with
    | io => exact ⟨_, [], Queue.items_append _ _ _, h.items .io, fun i hi => absurd hi List.not_mem_nil⟩
    | compression => exact h.items .compression
  | pillRejected hh hq =>
    obtain rfl := h.begun.mpr (Or.inr hh)
    rcases h.leg_of_closed (s := .io) hg (closed_of_offer hq) with he | ⟨he, -⟩ <;> cases he
  | joined hh => exact ⟨l, h.joined hh⟩
  | joinedCrashed hh => exact ⟨l, (h.noticed _).joined hh⟩
  | closedIo hh =>
    obtain rfl := h.home_of_closing hg hh
    exact ⟨.home, (h.closed _).halted (by simp) (by simp)⟩
  | closedCompression hh =>
    obtain rfl := h.home_of_closing hg hh
    exact ⟨.home, ((h.closed (s := .compression) _).noticed _).halted (by simp) (by simp)⟩

/-- A client's call leaves things in order; it may begin the stopping, once nobody waits. -/
theorem called (h : Orderly l d) (hc : d.Called d') : Orderly l d' := by
  rcases hc.halt with hh | ⟨hr, hw, hh⟩
  · exact h.congr hc.waiting hc.queues hc.tasks hc.draining hh
  · obtain rfl := h.begun.mpr (Or.inl hr)
    refine ⟨by simp [hh], fun _ => hc.waiting.trans hw, hc.draining.trans h.draining, ?_, ?_⟩
    · rw [hc.tasks]
      exact h.task
    · rw [hc.queues]
      exact h.items

theorem submit (h : Orderly l d) (hr : d.halt = .running) (r : Submission) :
    Orderly l (d.submit p r) := by
  rcases submit_eq p d r with ⟨e, -, he⟩ | ⟨path, -, he⟩
  · rw [he]
    exact h.congr (waiting_fail _ _ _) (queues_fail _ _ _) (tasks_fail _ _ _)
      (apart_draining.fail _ _ _) (apart_halt.fail _ _ _)
  · rw [he]
    exact ⟨h.begun, fun hn => absurd hr hn, h.draining, h.task, h.items⟩

theorem initial (h : Unused p d) : Orderly .before d := by
  refine ⟨by simp [h.halt], fun hn => absurd h.halt hn, h.draining, fun s => ?_, fun s => ?_⟩
  · rw [h.tasks]
    cases s <;> rfl
  · rw [h.queues]
    cases s <;> exact List.not_mem_nil

/-! ### What is left when the pill is home -/

theorem leg_of_left (h : Orderly l d) (hl : (d.tasks.get s).post.hasLeft = true) :
    l = .home ∨ (l = .back ∧ s = .compression) := by
  have ht := h.task s
  generalize d.tasks.get s = t at ht hl
  cases l <;> cases s
  case home.io | home.compression => exact Or.inl rfl
  case back.compression => exact Or.inr ⟨rfl, rfl⟩
  case toCompression.io | atCompression.io | back.io =>
    rcases ht with rfl | ⟨v, rfl, -⟩ <;> cases hl
  case atIo.io | atCompression.compression =>
    rw [show t = .relaying from ht] at hl
    cases hl
  all_goals
    rw [show t.post = .serving from ht] at hl
    cases hl

theorem works_eq_nil (h : Orderly l d) (hl : (d.tasks.get s).post.hasLeft = true) :
    (d.queues.get s).works = [] := by
  have hi := h.items s
  unfold Queue.works
  rcases h.leg_of_left hl with rfl | ⟨rfl, rfl⟩
  · cases s <;> rw [show Queue.items _ = [] from hi] <;> rfl
  · rw [show Queue.items _ = [] from hi]
    rfl

/-- When the pill is home, nobody holds work. -/
theorem worksOf_eq_nil (h : Orderly .home d) (x : Holder) : d.worksOf x = [] := by
  rcases x with _ | s | s
  · show d.waiting.map Prod.snd = []
    rw [h.waiting_eq_nil (by simp)]
    rfl
  · show Item.works (d.queues.get s).items = []
    have hi : (d.queues.get s).items = [] := by
      have := h.items s
      cases s <;> exact this
    rw [hi]
    rfl
  · show (d.tasks.get s).works = []
    have ht : d.tasks.get s = .leaving false ∨ d.tasks.get s = .gone false := by
      have := h.task s
      cases s <;> exact this
    rcases ht with ht | ht <;> rw [ht] <;> rfl

theorem leg_of_taken (h : Orderly l d)
    (ht : d.tasks.compression = .relaying ∨ d.tasks.compression.post.hasLeft = true) :
    l = .atCompression ∨ l = .back ∨ l = .home := by
  rcases ht with ht | ht
  · have htask := h.task .compression
    rw [show d.tasks.get .compression = _ from ht] at htask
    cases l
    case atCompression => exact Or.inl rfl
    case back | home => rcases htask with htask | htask <;> cases htask
    all_goals cases htask
  · rcases h.leg_of_left (s := .compression) ht with hl | ⟨hl, -⟩
    · exact Or.inr (Or.inr hl)
    · exact Or.inr (Or.inl hl)

theorem write_of_mem_works {is : List (Item Work)} (h : OnlyWrites is) {w : Work}
    (hw : w ∈ Item.works is) : w.op = .write := by
  obtain ⟨v, hv, hop⟩ := h _ (Item.mem_works.mp hw)
  cases hv
  exact hop

/-- Once the compression worker has taken the pill, what is held are writes before the I/O stage. -/
theorem write_of_mem (h : Orderly l d)
    (ht : d.tasks.compression = .relaying ∨ d.tasks.compression.post.hasLeft = true) {x : Holder}
    {w : Work} (hw : w ∈ d.worksOf x) : w.op = .write ∧ (x = .queue .io ∨ x = .worker .io) := by
  have hworker : (d.tasks.get .compression).works = [] := by
    show d.tasks.compression.works = []
    rcases ht with ht | ht
    · rw [ht]
      rfl
    · cases hx : d.tasks.compression <;> rw [hx] at ht <;> first | rfl | cases ht
  have hqueue : l.items .compression d.queues.compression.items := h.items .compression
  have htask : l.task .io d.tasks.io := h.task .io
  have hitems : l.items .io d.queues.io.items := h.items .io
  have hl := h.leg_of_taken ht
  rcases x with _ | (_ | _) | (_ | _)
  · have hn : d.waiting = [] := h.waiting_eq_nil (by rcases hl with rfl | rfl | rfl <;> simp)
    rw [show d.worksOf .submitters = d.waiting.map Prod.snd from rfl, hn] at hw
    cases hw
  · refine ⟨?_, Or.inl rfl⟩
    change w ∈ Item.works d.queues.io.items at hw
    rcases hl with rfl | rfl | rfl
    · exact write_of_mem_works hitems hw
    · obtain ⟨is₁, he, hwrites⟩ := hitems
      rw [he] at hw
      refine write_of_mem_works hwrites (Item.mem_works.mpr ?_)
      rcases List.mem_append.mp (Item.mem_works.mp hw) with hm | hm
      · exact hm
      · cases List.mem_singleton.mp hm
    · rw [show d.queues.io.items = [] from hitems] at hw
      cases hw
  · have hn : d.queues.compression.items = [] := by rcases hl with rfl | rfl | rfl <;> exact hqueue
    change w ∈ Item.works d.queues.compression.items at hw
    rw [hn] at hw
    cases hw
  · refine ⟨?_, Or.inr rfl⟩
    change w ∈ d.tasks.io.works at hw
    rcases hl with rfl | rfl | rfl
    · rcases htask with hi | ⟨v, hb, hop⟩
      · rw [hi] at hw
        cases hw
      · rw [hb] at hw
        obtain rfl := List.mem_singleton.mp hw
        exact hop
    · rcases htask with hi | ⟨v, hb, hop⟩
      · rw [hi] at hw
        cases hw
      · rw [hb] at hw
        obtain rfl := List.mem_singleton.mp hw
        exact hop
    · rcases htask with hi | hi <;> rw [hi] at hw <;> cases hw
  · rw [show d.worksOf (.worker .compression) = _ from hworker] at hw
    cases hw

end Orderly

/-- As long as no worker crashes, things are in order. -/
theorem Recorded.orderly (h₀ : Unused p d₀) (h : Recorded p d₀ rs ts d)
    (hc : ∀ t ∈ ts, t.crashed p = false) : ∃ l, Orderly l d := by
  induction h with
  | start => exact ⟨_, .initial h₀⟩
  | submit r _ running ih =>
    obtain ⟨l, hl⟩ := ih hc
    exact ⟨l, hl.submit running r⟩
  | @turn rs ts d d' s w h hw hs ih =>
    obtain ⟨l, hl⟩ := ih fun t ht => hc t (List.mem_append_left _ ht)
    refine hl.transition (h.run.guided h₀) (h.run.holds onItsWay_stable (h₀.holds _)) ?_
      (transition_of_step hs)
    rintro s' w' he hw'
    cases he
    obtain rfl := Task.busy.inj (hw.symm.trans hw')
    exact hc ⟨d, s, w⟩ (List.mem_append_right _ List.mem_cons_self)
  | move h m stay ih =>
    obtain ⟨l, hl⟩ := ih hc
    rcases m.cases_of_stay stay with ⟨a, htr, ha⟩ | hcall
    · exact hl.transition (h.run.guided h₀) (h.run.holds onItsWay_stable (h₀.holds _))
        (fun s _ he => absurd he (ha s)) htr
    · exact ⟨l, hl.called hcall⟩

end FilePipeline.Dispatcher
