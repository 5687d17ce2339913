import FilePipeline.Proofs.Dispatcher.Runs
import FilePipeline.Proofs.Dispatcher.Steps
import FilePipeline.Proofs.Queue.Steps
import FilePipeline.Proofs.Ticket.Life

/-! # Tickets along a run

Each move changes each ticket in one of the ways of `Ticket.Change` (`Move.ticket`), so whatever holds
along the life of a ticket holds along a run. In particular the ticket of work that has ended is kept
by every continuation of the run (`Run.kept`). -/

namespace FilePipeline

namespace Dispatcher

variable {σ η κ : Type}

/-- The outcomes of work with a number that ends as in `S`. -/
def OutcomeOf (S : Work → Except WorkError Unit → Prop) (id : WorkId) (o : Outcome) : Prop :=
  ∃ w r, S w r ∧ w.id = id ∧ o = w.outcome r

/-- The tickets are the same ones, changed at most by ending work with a result; which work and with
    which result is one of `S`. -/
structure Publishes (S : Work → Except WorkError Unit → Prop) (ts ts' : List Ticket) : Prop where
  length : ts'.length = ts.length
  ticket : ∀ (id : WorkId) (t : Ticket), ts[id]? = some t →
    ts'[id]? = some t ∨
      (t.isDone = false ∧ ∃ w r, S w r ∧ w.id = id ∧ ts'[id]? = some (t.publish (w.outcome r)))

namespace Publishes

variable {S : Work → Except WorkError Unit → Prop} {ts ts' ts'' : List Ticket}

theorem refl (ts : List Ticket) : Publishes S ts ts := ⟨rfl, fun _ _ ht => Or.inl ht⟩

theorem trans (h : Publishes S ts ts') (h' : Publishes S ts' ts'') : Publishes S ts ts'' := by
  refine ⟨h'.length.trans h.length, fun id t ht => ?_⟩
  rcases h.ticket id t ht with ht' | ⟨hp, w, r, hs, hid, ht'⟩
  · exact h'.ticket id t ht'
  rcases h'.ticket id _ ht' with ht'' | ⟨hp', w', r', hs', hid', ht''⟩
  · exact Or.inr ⟨hp, w, r, hs, hid, ht''⟩
  -- the event is still down after it was raised only if it was latched, and then nothing is new
  refine Or.inr ⟨hp, w', r', hs', hid', ht''.trans ?_⟩
  unfold Ticket.isDone Ticket.publish at hp'
  unfold Ticket.publish
  cases hl : t.done.latched with
  | true => simp [Event.raise, hl]
  | false => simp [Event.raise, hl] at hp'

theorem mono {S' : Work → Except WorkError Unit → Prop} (h : Publishes S ts ts')
    (hS : ∀ w r, S w r → S' w r) : Publishes S' ts ts' := by
  refine ⟨h.length, fun id t ht => ?_⟩
  rcases h.ticket id t ht with ht' | ⟨hp, w, r, hs, hid, ht'⟩
  · exact Or.inl ht'
  · exact Or.inr ⟨hp, w, r, hS w r hs, hid, ht'⟩

theorem change (h : Publishes S ts ts') {id : WorkId} {t : Ticket} (ht : ts[id]? = some t) :
    ∃ t', ts'[id]? = some t' ∧ t.Change (OutcomeOf S id) t' := by
  rcases h.ticket id t ht with ht' | ⟨hp, w, r, hs, hid, ht'⟩
  · exact ⟨t, ht', .none⟩
  · exact ⟨_, ht', .publish _ ⟨w, r, hs, hid, rfl⟩ hp⟩

theorem shows (h : Publishes S ts ts') (hc : ∀ t ∈ ts, t.Consistent) {id : WorkId} {t' : Ticket}
    (ht' : ts'[id]? = some t') :
    ts[id]? = some t' ∨ ∃ w r, S w r ∧ w.id = id ∧ t'.Shows (w.outcome r) := by
  have hlt : id < ts.length := by
    rw [← h.length]
    exact (List.getElem?_eq_some_iff.mp ht').1
  rcases h.ticket id ts[id] (List.getElem?_eq_getElem hlt) with hk | ⟨hp, w, r, hs, hid, hk⟩
  · exact Or.inl (by rw [← ht', hk, List.getElem?_eq_getElem hlt])
  · have he : t' = ts[id].publish (w.outcome r) := Option.some.inj (ht'.symm.trans hk)
    rw [he]
    exact Or.inr ⟨w, r, hs, hid, (hc _ (List.getElem_mem hlt)).shows_publish hp _⟩

end Publishes

theorem publishes_settle (d : Dispatcher σ κ) (w : Work) (r : Except WorkError Unit) :
    Publishes (fun v s => v = w ∧ s = r) d.tickets (d.settle w r).tickets := by
  unfold settle
  split
  · exact .refl _
  · next tw hw =>
    split
    · exact .refl _
    · next hp =>
      refine ⟨List.length_set, fun id t ht => ?_⟩
      by_cases he : w.id = id
      · subst he
        obtain rfl : tw = t := by rw [hw] at ht; exact Option.some.inj ht
        have hlt := (List.getElem?_eq_some_iff.mp hw).1
        exact Or.inr ⟨by simpa using hp, w, r, ⟨rfl, rfl⟩, rfl, List.getElem?_set_self hlt⟩
      · exact Or.inl ((List.getElem?_set_ne he).trans ht)

theorem publishes_fail (d : Dispatcher σ κ) (w : Work) (e : WorkError) :
    Publishes (fun v s => v = w ∧ s = .error e) d.tickets (d.fail w e).tickets :=
  publishes_settle (d.notice (.workFailed e)) w (.error e)

theorem publishes_foldl {f : Dispatcher σ κ → Work → Dispatcher σ κ}
    (hf : ∀ d w, Publishes (fun v s => v = w ∧ s = .error .abandoned) d.tickets (f d w).tickets)
    (d : Dispatcher σ κ) (ws : List Work) :
    Publishes (fun v s => v ∈ ws ∧ s = .error .abandoned) d.tickets (ws.foldl f d).tickets := by
  induction ws generalizing d with
  | nil => exact .refl _
  | cons w ws ih =>
    refine Publishes.trans ((hf d w).mono ?_) ((ih (f d w)).mono ?_)
    · rintro v s ⟨rfl, rfl⟩
      exact ⟨List.mem_cons_self, rfl⟩
    · rintro v s ⟨hv, rfl⟩
      exact ⟨List.mem_cons_of_mem w hv, rfl⟩

theorem publishes_abandonAll (d : Dispatcher σ κ) (is : List (Item Work)) :
    Publishes (fun v s => v ∈ Item.works is ∧ s = .error .abandoned) d.tickets
      (d.abandonAll is).tickets := by
  rw [abandonAll_eq]
  exact publishes_foldl (fun d w => publishes_settle d w _) d _

theorem publishes_failAll (d : Dispatcher σ κ) (is : List (Item Work)) :
    Publishes (fun v s => v ∈ Item.works is ∧ s = .error .abandoned) d.tickets
      (d.failAll is).tickets := by
  rw [failAll_eq]
  exact publishes_foldl (fun d w => publishes_fail d w _) d _

theorem tickets_sendPill (d : Dispatcher σ κ) (s : Stage) :
    (d.sendPill s).tickets = d.tickets := by
  unfold sendPill
  split <;> rfl

/-- The work that can end in the next step, as it is then, and the results it can end with. -/
inductive Ends (p : Setup σ η κ) (d : Dispatcher σ κ) : Work → Except WorkError Unit → Prop
  | turnedAway {i : Nat} {s : Stage} {w : Work} (hw : d.waiting[i]? = some (s, w)) :
      Ends p d w (.error .abandoned)
  | processed {s : Stage} {w w' : Work} {d₁ : Dispatcher σ κ} {r : Except WorkError Unit}
      (ht : d.tasks.get s = .busy w) (hp : d.processing p s w = (d₁, w', Attempt.ofExcept r)) :
      Ends p d w' r
  | crashed {s : Stage} {w w' : Work} {d₁ : Dispatcher σ κ} {c : Crash}
      (ht : d.tasks.get s = .busy w) (hp : d.processing p s w = (d₁, w', Attempt.crash c)) :
      Ends p d w' (.error .abandoned)
  | refused {s : Stage} {w : Work} (ht : d.tasks.get s = .handing w) :
      Ends p d w (.error .abandoned)
  | drained {s : Stage} {w : Work} (hw : w ∈ (d.queues.get s).works) :
      Ends p d w (.error .abandoned)

/-- The work that ends in an action, as it is then, and the results it ends with. -/
inductive EndsIn (p : Setup σ η κ) (d : Dispatcher σ κ) :
    Action → Work → Except WorkError Unit → Prop
  | turnedAway {i : Nat} {s : Stage} {w : Work} (hw : d.waiting[i]? = some (s, w))
      (hq : (d.queues.get s).offer (.work w) = .rejected) :
      EndsIn p d (.push i) w (.error .abandoned)
  | processed {s : Stage} {w w' : Work} {d₁ : Dispatcher σ κ} {r : Except WorkError Unit}
      (ht : d.tasks.get s = .busy w) (hp : d.processing p s w = (d₁, w', Attempt.ofExcept r))
      (hh : r = .ok () → handsOn s w' = false) : EndsIn p d (.process s) w' r
  | crashed {s : Stage} {w w' : Work} {d₁ : Dispatcher σ κ} {c : Crash}
      (ht : d.tasks.get s = .busy w) (hp : d.processing p s w = (d₁, w', Attempt.crash c)) :
      EndsIn p d (.process s) w' (.error .abandoned)
  | refused {s : Stage} {w : Work} (ht : d.tasks.get s = .handing w)
      (hq : (d.queues.get s.peer).forward? (.work w) = none) :
      EndsIn p d (.hand s) w (.error .abandoned)
  | left {s : Stage} {crashed : Bool} {w : Work} (ht : d.tasks.get s = .leaving crashed)
      (hw : w ∈ (d.queues.get s).works) : EndsIn p d (.leave s) w (.error .abandoned)
  | closed {s : Stage} {e : Option JoinError} {w : Work} (hh : d.halt = .closing s e)
      (hw : w ∈ (d.queues.get s).works) : EndsIn p d .halt w (.error .abandoned)

theorem EndsIn.ends {p : Setup σ η κ} {d : Dispatcher σ κ} {a : Action} {w : Work}
    {r : Except WorkError Unit} (h : EndsIn p d a w r) : Ends p d w r := by
  cases h with
  | turnedAway hw => exact .turnedAway hw
  | processed ht hp => exact .processed ht hp
  | crashed ht hp => exact .crashed ht hp
  | refused ht => exact .refused ht
  | left _ hw => exact .drained hw
  | closed _ hw => exact .drained hw

/-- An action changes tickets only by ending work. -/
theorem publishes_of_action {p : Setup σ η κ} {d d' : Dispatcher σ κ} {a : Action}
    (h : Transition p d a d') : Publishes (EndsIn p d a) d.tickets d'.tickets := by
  cases h with
  | @turnedAway i s w hw hq =>
    refine (publishes_fail { d with waiting := d.waiting.eraseIdx i } w _).mono ?_
    rintro v r ⟨rfl, rfl⟩
    exact .turnedAway hw hq
  | @readied s w _ _ ht hp =>
    have hu := untouched_of_processing hp
    rw [← hu.tickets]
    exact .refl _
  | @ended s w w' d₁ r ht hp hh =>
    have hu := untouched_of_processing hp
    rw [← hu.tickets]
    refine (publishes_settle d₁ w' r).mono ?_
    rintro v r' ⟨rfl, rfl⟩
    exact .processed ht hp hh
  | @crashed s w w' d₁ c ht hp =>
    have hu := untouched_of_processing hp
    rw [← hu.tickets]
    refine (publishes_settle d₁ w' _).mono ?_
    rintro v r' ⟨rfl, rfl⟩
    exact .crashed ht hp
  | @refused s w ht hq =>
    refine (publishes_settle d w _).mono ?_
    rintro v r' ⟨rfl, rfl⟩
    exact .refused ht hq
  | @left s ht =>
    refine (publishes_abandonAll (d.setQueue _ _) _).mono ?_
    rintro v r ⟨hv, rfl⟩
    exact .left ht hv
  | @leftCrashed s ht =>
    have h := publishes_abandonAll ((d.setQueue s (d.queues.get s).close.2).sendPill s.peer)
      (d.queues.get s).items
    rw [tickets_sendPill] at h
    refine h.mono ?_
    rintro v r ⟨hv, rfl⟩
    exact .left ht hv
  | closedIo hh =>
    refine (publishes_failAll (d.setQueue _ _) _).mono ?_
    rintro v r ⟨hv, rfl⟩
    exact .closed hh hv
  | closedCompression hh =>
    refine (publishes_failAll (d.setQueue _ _) _).mono ?_
    rintro v r ⟨hv, rfl⟩
    exact .closed hh hv
  | _ => exact .refl _

theorem publishes_of_transition {p : Setup σ η κ} {d d' : Dispatcher σ κ} {a : Action}
    (h : Transition p d a d') : Publishes (Ends p d) d.tickets d'.tickets :=
  (publishes_of_action h).mono fun _ _ => EndsIn.ends

/-! ### Clients -/

theorem ticket_setTicket {d : Dispatcher σ κ} {id id' : WorkId} {t t' u : Ticket}
    {O : Outcome → Prop} (h : d.tickets[id]? = some t) (hc : t.Change O t')
    (hu : d.tickets[id']? = some u) :
    ∃ u', (d.setTicket id t').tickets[id']? = some u' ∧ u.Change O u' := by
  by_cases he : id = id'
  · subst he
    obtain rfl : t = u := by rw [h] at hu; exact Option.some.inj hu
    have hlt := (List.getElem?_eq_some_iff.mp h).1
    exact ⟨t', List.getElem?_set_self hlt, hc⟩
  · exact ⟨u, (List.getElem?_set_ne he).trans hu, .none⟩

theorem done?_eq_some {d : Dispatcher σ κ} {id : WorkId} {t : Ticket} (h : d.done? id = some t) :
    d.tickets[id]? = some t ∧ t.isDone = true := by
  unfold done? at h
  rw [Option.filter_eq_some_iff] at h
  exact h

/-- What a call of a client leaves: where the work is stays, stopping may have begun, and the tickets
    are changed without any work ending. -/
structure Called (d d' : Dispatcher σ κ) : Prop where
  waiting : d'.waiting = d.waiting
  queues : d'.queues = d.queues
  tasks : d'.tasks = d.tasks
  draining : d'.draining = d.draining
  backend : d'.backend = d.backend
  codec : d'.codec = d.codec
  halt : d'.halt = d.halt ∨ (d.halt = .running ∧ d.waiting = [] ∧ d'.halt = .pushing)
  length : d'.tickets.length = d.tickets.length
  ticket : ∀ (id : WorkId) (t : Ticket), d.tickets[id]? = some t →
    ∃ t', d'.tickets[id]? = some t' ∧ t.Change (fun _ => False) t'

theorem called_refl (d : Dispatcher σ κ) (hs : Heaps) : d.Called { d with heaps := hs } :=
  ⟨rfl, rfl, rfl, rfl, rfl, rfl, Or.inl rfl, rfl, fun _ t ht => ⟨t, ht, .none⟩⟩

theorem called_setTicket {d : Dispatcher σ κ} {id : WorkId} {t t' : Ticket}
    (h : d.tickets[id]? = some t) (hc : t.Change (fun _ => False) t') (hs : Heaps) :
    d.Called ({ d with heaps := hs }.setTicket id t') :=
  ⟨rfl, rfl, rfl, rfl, rfl, rfl, Or.inl rfl, List.length_set,
    fun _ _ hu => ticket_setTicket (d := { d with heaps := hs }) h hc hu⟩

/-- A move is a step of the dispatcher or a call of a client. -/
theorem Move.cases {p : Setup σ η κ} {d d' : Dispatcher σ κ} (m : Move p d d') :
    (∃ a, d.step p a = some d') ∨ d.Called d' := by
  cases m with
  | act a h => exact Or.inl ⟨a, h⟩
  | beginHalt =>
    refine Or.inr ?_
    unfold Dispatcher.beginHalt
    split
    · next hh =>
      split
      · next hw =>
        exact { called_refl d d.heaps with
          halt := Or.inr ⟨hh, List.isEmpty_iff.mp hw, rfl⟩ }
      · exact called_refl d d.heaps
    · exact called_refl d d.heaps
  | look id =>
    refine Or.inr ?_
    unfold Dispatcher.look
    split
    · next t ht =>
      obtain ⟨ht, hd⟩ := done?_eq_some ht
      exact called_setTicket ht (.look hd) d.heaps
    · exact called_refl d d.heaps
  | poll id waker =>
    refine Or.inr ?_
    unfold Dispatcher.poll
    split
    · next t ht => exact called_setTicket ht (.poll waker) d.heaps
    · exact called_refl d d.heaps
  | take id =>
    refine Or.inr ?_
    unfold Dispatcher.take
    split
    · next t ht =>
      obtain ⟨ht, hd⟩ := done?_eq_some ht
      exact called_setTicket ht (.take hd) d.heaps
    · exact called_refl d d.heaps
  | dropHandle id =>
    refine Or.inr ?_
    unfold Dispatcher.dropHandle
    split
    · next t ht =>
      obtain ⟨ht, hd⟩ := done?_eq_some ht
      exact called_setTicket ht (.drop hd) _
    · exact called_refl d d.heaps
  | dropTaken b => exact Or.inr (called_refl d _)

/-- A move changes each ticket in one of the ways of `Change`, and ends only work that can end. -/
theorem Move.ticket {p : Setup σ η κ} {d d' : Dispatcher σ κ} (m : Move p d d') {id : WorkId}
    {t : Ticket} (ht : d.tickets[id]? = some t) :
    ∃ t', d'.tickets[id]? = some t' ∧ t.Change (OutcomeOf (Ends p d) id) t' := by
  rcases m.cases with ⟨a, h⟩ | hc
  · exact (publishes_of_transition (transition_of_step h)).change ht
  · obtain ⟨t', ht', hc⟩ := hc.ticket id t ht
    exact ⟨t', ht', hc.mono fun _ => False.elim⟩

theorem Move.length {p : Setup σ η κ} {d d' : Dispatcher σ κ} (m : Move p d d') :
    d'.tickets.length = d.tickets.length := by
  rcases m.cases with ⟨a, h⟩ | hc
  · exact (publishes_of_transition (transition_of_step h)).length
  · exact hc.length

/-! ### Submissions -/

/-- The dispatcher after a submission was counted and its ticket was made. -/
def register (d : Dispatcher σ κ) (op : Op) : Dispatcher σ κ :=
  { d with stats := d.stats.recordSubmitted op, tickets := d.tickets ++ [{ op }] }

/-- A submission makes a ticket, and then its work either has failed or waits to be pushed. -/
theorem submit_eq (p : Setup σ η κ) (d : Dispatcher σ κ) (r : Submission) :
    (∃ e, PathField.ofString? r.path = .error e ∧
      d.submit p r =
        (d.register r.op).fail (Work.ofSubmission d.nextId p.ownHeap r) (.path e)) ∨
    (∃ path, PathField.ofString? r.path = .ok path ∧
      d.submit p r = { d.register r.op with
        waiting := d.waiting ++
          [(firstStage r, { Work.ofSubmission d.nextId p.ownHeap r with path })] }) := by
  cases h : PathField.ofString? r.path with
  | error e => exact Or.inl ⟨e, rfl, by unfold submit; rw [h]; rfl⟩
  | ok path => exact Or.inr ⟨path, rfl, by unfold submit; rw [h]; rfl⟩

theorem publishes_submit (p : Setup σ η κ) (d : Dispatcher σ κ) (r : Submission) :
    Publishes (fun w _ => w = Work.ofSubmission d.nextId p.ownHeap r) (d.register r.op).tickets
      (d.submit p r).tickets := by
  rcases submit_eq p d r with ⟨e, -, h⟩ | ⟨path, -, h⟩
  · rw [h]
    exact (publishes_fail _ _ _).mono fun _ _ h => h.1
  · rw [h]
    exact .refl _

/-! ### Runs -/

theorem map_op_eq {O : WorkId → Outcome → Prop} {ts ts' : List Ticket}
    (hl : ts'.length = ts.length)
    (h : ∀ (id : WorkId) (t : Ticket), ts[id]? = some t →
      ∃ t', ts'[id]? = some t' ∧ t.Change (O id) t') :
    ts'.map Ticket.op = ts.map Ticket.op := by
  refine List.ext_getElem? fun id => ?_
  rw [List.getElem?_map, List.getElem?_map]
  cases ht : ts[id]? with
  | none =>
    rw [List.getElem?_eq_none_iff, ← hl, ← List.getElem?_eq_none_iff] at ht
    rw [ht]
  | some t =>
    obtain ⟨t', ht', hc⟩ := h id t ht
    rw [ht', Option.map_some, Option.map_some, hc.op]

theorem Run.asked {p : Setup σ η κ} {d₀ d : Dispatcher σ κ} {rs : List Submission}
    (h₀ : d₀.tickets = []) (h : Run p d₀ rs d) :
    d.tickets.map Ticket.op = rs.map Submission.op := by
  induction h with
  | start => rw [h₀]; rfl
  | @submit rs d r _ _ ih =>
    have hp := publishes_submit p d r
    rw [map_op_eq hp.length fun _ _ ht => hp.change ht]
    unfold register
    rw [List.map_append, List.map_append, ih]
    rfl
  | move _ m ih => rw [map_op_eq m.length fun _ _ ht => m.ticket ht, ih]

theorem Run.length {p : Setup σ η κ} {d₀ d : Dispatcher σ κ} {rs : List Submission}
    (h₀ : d₀.tickets = []) (h : Run p d₀ rs d) : d.tickets.length = rs.length := by
  have := congrArg List.length (h.asked h₀)
  rwa [List.length_map, List.length_map] at this

theorem Run.ticket_op {p : Setup σ η κ} {d₀ d : Dispatcher σ κ} {rs : List Submission}
    (h₀ : d₀.tickets = []) (h : Run p d₀ rs d) {id : WorkId} {t : Ticket} {r : Submission}
    (ht : d.tickets[id]? = some t) (hr : rs[id]? = some r) : t.op = r.op := by
  have hasked := congrArg (fun l => l[id]?) (h.asked h₀)
  simp only [List.getElem?_map, ht, hr, Option.map_some] at hasked
  exact Option.some.inj hasked

/-- What no change of an ended ticket spoils is true of it in every continuation of a run. -/
theorem Run.lasts {p : Setup σ η κ} {d d' : Dispatcher σ κ} {rs : List Submission}
    {P : Ticket → Prop}
    (hP : ∀ (O : Outcome → Prop) (t t' : Ticket), t.isDone = true → P t → t.Change O t' → P t')
    (h : Run p d rs d') {id : WorkId} {t : Ticket} (ht : d.tickets[id]? = some t)
    (hd : t.isDone = true) (hp : P t) : ∃ t', d'.tickets[id]? = some t' ∧ t'.isDone = true ∧ P t' := by
  have step : ∀ {O : Outcome → Prop} {t t' : Ticket}, t.isDone = true → P t → t.Change O t' →
      t'.isDone = true ∧ P t' := fun hd hp hc =>
    ⟨(Ticket.kept_of_change hd hc).isDone hd, hP _ _ _ hd hp hc⟩
  induction h with
  | start => exact ⟨t, ht, hd, hp⟩
  | submit r _ _ ih =>
    obtain ⟨t', ht', hd', hp'⟩ := ih
    have hlt := (List.getElem?_eq_some_iff.mp ht').1
    obtain ⟨t'', ht'', hc⟩ :=
      (publishes_submit p _ r).change ((List.getElem?_append_left hlt).trans ht')
    exact ⟨t'', ht'', step hd' hp' hc⟩
  | move _ m ih =>
    obtain ⟨t', ht', hd', hp'⟩ := ih
    obtain ⟨t'', ht'', hc⟩ := m.ticket ht'
    exact ⟨t'', ht'', step hd' hp' hc⟩

theorem Run.kept {p : Setup σ η κ} {d d' : Dispatcher σ κ} {rs : List Submission}
    (h : Run p d rs d') {id : WorkId} {t : Ticket} (ht : d.tickets[id]? = some t)
    (hd : t.isDone = true) : ∃ t', d'.tickets[id]? = some t' ∧ t.Kept t' := by
  obtain ⟨t', ht', -, hk⟩ := h.lasts (P := t.Kept)
    (fun _ _ _ hd hk hc => hk.trans (Ticket.kept_of_change hd hc)) ht hd (.refl t)
  exact ⟨t', ht', hk⟩

end Dispatcher

end FilePipeline
