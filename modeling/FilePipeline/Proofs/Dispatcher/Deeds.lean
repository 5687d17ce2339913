import FilePipeline.Proofs.Dispatcher.Balance
import FilePipeline.Proofs.Ticket.Accessors

/-! # Runs with what clients are told

A `Deed` names what happens next: a submission, a step of the dispatcher, or a call of a client. `perform`
gives the answers to it and the state after it, or nothing if it cannot happen now: a call that waits has
to wait until the work has ended, and nobody has a handle any more that was dropped. `Played` puts deeds
in a row, with the answers that were given (`Played.run` makes a `Run` of it).

The ticket of a piece of work that has ended changes only by the calls on its own handle
(`perform_ticket`). So what its handle answers is what the ticket as it was then answers to these calls
(`Played.answers_of_done`). -/

namespace FilePipeline.Dispatcher

variable {σ η κ : Type} {p : Setup σ η κ} {d d' d₀ d₁ : Dispatcher σ κ}

/-- What happens next. -/
inductive Deed where
  | submit (r : Submission)
  | act (a : Action)
  | beginHalt
  | ask (id : WorkId) (a : Accessor)
  | dropHandle (id : WorkId)
  | giveBack (b : Buffer)

namespace Deed

def submission? : Deed → Option Submission
  | submit r => some r
  | _ => none

def asked? (id : WorkId) : Deed → Option Accessor
  | ask id' a => if id' = id then some a else none
  | _ => none

end Deed

abbrev submissions (es : List Deed) : List Submission := es.filterMap Deed.submission?

/-- What was asked of the handle with this number, in order. -/
abbrev askedOf (id : WorkId) (es : List Deed) : List Accessor := es.filterMap (Deed.asked? id)

/-- What clients were told, and by which handle. -/
abbrev Transcript : Type := List (WorkId × Response)

/-- What the handle with this number answered, in order. -/
def Transcript.by (log : Transcript) (id : WorkId) : List Response :=
  log.filterMap fun x => if x.1 = id then some x.2 else none

/-- The ticket of a submission whose handle is still there. -/
def held? (d : Dispatcher σ κ) (id : WorkId) : Option Ticket :=
  d.tickets[id]?.filter fun t => !t.dropped

/-- What clients are told and the state after a deed, if it can happen now. -/
def perform (p : Setup σ η κ) (d : Dispatcher σ κ) : Deed → Option (Transcript × Dispatcher σ κ)
  | .submit r => if d.halt = .running then some ([], d.submit p r) else none
  | .act a => (d.step p a).map ([], ·)
  | .beginHalt => some ([], d.beginHalt)
  | .ask id a =>
    (d.held? id).bind fun t =>
      if a.waits t.op && !t.isDone then none
      else some ([(id, t.answer a)], d.setTicket id (t.after a))
  | .dropHandle id =>
    (d.held? id).bind fun t => if t.isDone then some ([], d.dropHandle id) else none
  | .giveBack b => some ([], d.release (.owned b))

/-- `Played p d es log d'`: from `d` on, the deeds `es` can happen one after the other, tell clients what
is in `log`, and lead to `d'`. -/
inductive Played (p : Setup σ η κ) : Dispatcher σ κ → List Deed → Transcript → Dispatcher σ κ → Prop
  | nil (d : Dispatcher σ κ) : Played p d [] [] d
  | cons {d d₁ d' : Dispatcher σ κ} {e : Deed} {es : List Deed} {as log : Transcript}
      (h : d.perform p e = some (as, d₁)) (hs : Played p d₁ es log d') :
      Played p d (e :: es) (as ++ log) d'

theorem Played.silent {e : Deed} {es : List Deed} {log : Transcript} (h : d.perform p e = some ([], d₁))
    (hs : Played p d₁ es log d') : Played p d (e :: es) log d' := .cons h hs

theorem held?_eq_some {id : WorkId} {t : Ticket} (h : d.held? id = some t) :
    d.tickets[id]? = some t ∧ t.dropped = false := by
  unfold held? at h
  rw [Option.filter_eq_some_iff] at h
  simpa using h

theorem perform_submit {r : Submission} {as : Transcript}
    (h : d.perform p (.submit r) = some (as, d₁)) : d.halt = .running ∧ as = [] ∧ d₁ = d.submit p r := by
  simp only [perform] at h
  split at h
  · next hr =>
    cases h
    exact ⟨hr, rfl, rfl⟩
  · cases h

theorem perform_ask {id : WorkId} {a : Accessor} {as : Transcript}
    (h : d.perform p (.ask id a) = some (as, d₁)) : ∃ t, d.held? id = some t ∧
      (a.waits t.op = true → t.isDone = true) ∧ as = [(id, t.answer a)] ∧
      d₁ = d.setTicket id (t.after a) := by
  obtain ⟨t, ht, h⟩ := Option.bind_eq_some_iff.mp h
  split at h
  · cases h
  · next hw =>
    cases h
    exact ⟨t, ht, by simpa using hw, rfl, rfl⟩

theorem perform_dropHandle {id : WorkId} {as : Transcript}
    (h : d.perform p (.dropHandle id) = some (as, d₁)) : ∃ t, d.held? id = some t ∧
      t.isDone = true ∧ as = [] ∧ d₁ = d.dropHandle id := by
  obtain ⟨t, ht, h⟩ := Option.bind_eq_some_iff.mp h
  split at h
  · next hd =>
    cases h
    exact ⟨t, ht, hd, rfl, rfl⟩
  · cases h

theorem setTicket_self {id : WorkId} {t : Ticket} (h : d.tickets[id]? = some t) :
    d.setTicket id t = d := by
  obtain ⟨hlt, rfl⟩ := List.getElem?_eq_some_iff.mp h
  unfold setTicket
  rw [List.set_getElem_self]

theorem done?_of_done {id : WorkId} {t : Ticket} (h : d.tickets[id]? = some t) (hd : t.isDone = true) :
    d.done? id = some t := by
  unfold done?
  rw [h, Option.filter_some, if_pos hd]

/-! ### The run -/

/-- A call on a handle is a move that a run may make, or leaves everything as it is. -/
theorem run_of_ask {id : WorkId} {t : Ticket} (ht : d.tickets[id]? = some t) {a : Accessor}
    (hw : a.waits t.op = true → t.isDone = true) : Run p d [] (d.setTicket id (t.after a)) := by
  have hlook (hd : t.isDone = true) : Run p d [] (d.setTicket id t.look.2) := by
    have hm : Move p d (d.look id) := .look id
    unfold Dispatcher.look at hm
    rw [done?_of_done ht hd] at hm
    exact Run.start.move hm
  cases a with
  | isDone | wait =>
    show Run p d [] (d.setTicket id t)
    rw [setTicket_self ht]
    exact .start
  | poll waker =>
    have hm : Move p d (d.poll id waker).2 := .poll id waker
    unfold Dispatcher.poll at hm
    rw [ht] at hm
    exact Run.start.move hm
  | take =>
    cases hop : t.op with
    | write =>
      have hsame : t.take.2 = t := by
        unfold Ticket.take
        rw [hop]
      show Run p d [] (d.setTicket id t.take.2)
      rw [hsame, setTicket_self ht]
      exact .start
    | read =>
      have hm : Move p d (d.take id).2 := .take id
      unfold Dispatcher.take at hm
      rw [done?_of_done ht (hw (by rw [hop]; rfl))] at hm
      exact Run.start.move hm
  | _ => exact hlook (hw rfl)

/-- A deed is a submission, or a move that a run may make, or leaves everything as it is. -/
theorem run_of_perform {e : Deed} {as : Transcript} (h : d.perform p e = some (as, d₁)) :
    Run p d (submissions [e]) d₁ := by
  cases e with
  | submit r =>
    obtain ⟨hr, -, rfl⟩ := perform_submit h
    exact Run.start.submit r hr
  | act a =>
    obtain ⟨d', hs, he⟩ := Option.map_eq_some_iff.mp h
    cases he
    exact Run.start.act a hs
  | beginHalt =>
    cases h
    exact Run.start.move .beginHalt
  | giveBack b =>
    cases h
    exact Run.start.move (.dropTaken b)
  | dropHandle id =>
    obtain ⟨t, -, -, -, rfl⟩ := perform_dropHandle h
    exact Run.start.move (.dropHandle id)
  | ask id a =>
    obtain ⟨t, ht, hw, -, rfl⟩ := perform_ask h
    exact run_of_ask (held?_eq_some ht).1 hw

theorem Played.run {es : List Deed} {log : Transcript} (h : Played p d es log d') :
    Run p d (submissions es) d' := by
  induction h with
  | nil => exact .start
  | @cons d d₁ d' e es as log h _ ih =>
    have hrun := (run_of_perform h).trans ih
    rwa [← List.filterMap_append] at hrun

theorem Played.append {es es' : List Deed} {log log' : Transcript} (h : Played p d es log d₁)
    (h' : Played p d₁ es' log' d') : Played p d (es ++ es') (log ++ log') d' := by
  induction h with
  | nil => exact h'
  | cons h _ ih =>
    rw [List.append_assoc]
    exact .cons h (ih h')

/-! ### The ticket of one submission -/

section Ticket

variable {id : WorkId} {t : Ticket}

theorem by_append (log log' : Transcript) (id : WorkId) : (log ++ log').by id = log.by id ++ log'.by id :=
  List.filterMap_append ..

theorem ticket_setTicket_of_ne {id' : WorkId} (h : id' ≠ id) (t' : Ticket) :
    (d.setTicket id' t').tickets[id]? = d.tickets[id]? := List.getElem?_set_ne h

theorem ticket_setTicket_self (ht : d.tickets[id]? = some t) (t' : Ticket) :
    (d.setTicket id t').tickets[id]? = some t' :=
  List.getElem?_set_self (List.getElem?_eq_some_iff.mp ht).1

/-- What a deed can do to a ticket: its handle is asked something or dropped, or the work ends, or the
ticket stays as it is. -/
inductive Dealt (t : Ticket) (id : WorkId) (e : Deed) (as : Transcript) : Ticket → Prop
  | asked (a : Accessor) (he : e = .ask id a) (hn : t.dropped = false)
      (hw : a.waits t.op = true → t.isDone = true) (has : as = [(id, t.answer a)]) :
      Dealt t id e as (t.after a)
  | dropped (he : e.asked? id = none) (hd : t.isDone = true) (has : as.by id = []) :
      Dealt t id e as t.drop.2
  | ended (he : e.asked? id = none) (hp : t.isDone = false) (has : as.by id = []) (o : Outcome) :
      Dealt t id e as (t.publish o)
  | kept (he : e.asked? id = none) (has : as.by id = []) : Dealt t id e as t

theorem perform_ticket {e : Deed} {as : Transcript} (h : d.perform p e = some (as, d₁))
    (ht : d.tickets[id]? = some t) : ∃ t', d₁.tickets[id]? = some t' ∧ Dealt t id e as t' := by
  -- what ends in a step may be this work
  have hends {S : Work → Except WorkError Unit → Prop} {ts ts' : List Ticket} (hp : Publishes S ts ts')
      (ht : ts[id]? = some t) (he : e.asked? id = none) (has : as = []) :
      ∃ t', ts'[id]? = some t' ∧ Dealt t id e as t' := by
    subst has
    rcases hp.ticket id t ht with ht' | ⟨hp, w, r, -, -, ht'⟩
    · exact ⟨t, ht', .kept he rfl⟩
    · exact ⟨_, ht', .ended he hp rfl _⟩
  cases e with
  | submit r =>
    obtain ⟨-, has, rfl⟩ := perform_submit h
    have hlt := (List.getElem?_eq_some_iff.mp ht).1
    exact hends (publishes_submit p d r) ((List.getElem?_append_left hlt).trans ht) rfl has
  | act a =>
    obtain ⟨d', hs, he⟩ := Option.map_eq_some_iff.mp h
    cases he
    exact hends (publishes_of_action (transition_of_step hs)) ht rfl rfl
  | beginHalt =>
    cases h
    refine ⟨t, ?_, .kept rfl rfl⟩
    rw [← ht]
    unfold Dispatcher.beginHalt
    repeat' split
    all_goals rfl
  | giveBack b =>
    cases h
    exact ⟨t, ht, .kept rfl rfl⟩
  | ask id' a =>
    obtain ⟨t₁, ht₁, hw, rfl, rfl⟩ := perform_ask h
    obtain ⟨ht₁, hn⟩ := held?_eq_some ht₁
    by_cases he : id' = id
    · subst he
      obtain rfl := Option.some.inj (ht₁.symm.trans ht)
      exact ⟨_, ticket_setTicket_self ht _, .asked a rfl hn hw rfl⟩
    · exact ⟨t, (ticket_setTicket_of_ne he _).trans ht, .kept (if_neg he) (by simp [Transcript.by, he])⟩
  | dropHandle id' =>
    obtain ⟨t₁, ht₁, hd, rfl, rfl⟩ := perform_dropHandle h
    obtain ⟨ht₁, -⟩ := held?_eq_some ht₁
    unfold Dispatcher.dropHandle
    rw [done?_of_done ht₁ hd]
    by_cases he : id' = id
    · subst he
      obtain rfl := Option.some.inj (ht₁.symm.trans ht)
      exact ⟨_, ticket_setTicket_self (d := d.release _) ht _, .dropped rfl hd rfl⟩
    · exact ⟨t, (ticket_setTicket_of_ne (d := d.release _) he _).trans ht, .kept rfl rfl⟩

theorem dropped_of_dealt {t' : Ticket} {e : Deed} {as : Transcript} (h : Dealt t id e as t')
    (hd : t.isDone = true) (hn : t.dropped = true) :
    e.asked? id = none ∧ as.by id = [] ∧ t'.isDone = true ∧ t'.dropped = true := by
  cases h with
  | asked a _ hn' => rw [hn] at hn'; cases hn'
  | dropped he _ has =>
    have hk := Ticket.kept_of_change (O := fun _ => False) hd (.drop hd)
    exact ⟨he, has, hk.isDone hd, rfl⟩
  | ended _ hp => rw [hd] at hp; cases hp
  | kept he has => exact ⟨he, has, hd, hn⟩

theorem Played.answers_of_dropped {es : List Deed} {log : Transcript} (h : Played p d es log d')
    (ht : d.tickets[id]? = some t) (hd : t.isDone = true) (hn : t.dropped = true) :
    askedOf id es = [] ∧ log.by id = [] := by
  induction h generalizing t with
  | nil => exact ⟨rfl, rfl⟩
  | @cons d d₁ d' e es as log h _ ih =>
    obtain ⟨t', ht', hdealt⟩ := perform_ticket h ht
    obtain ⟨he, has, hd', hn'⟩ := dropped_of_dealt hdealt hd hn
    obtain ⟨hes, hlog⟩ := ih ht' hd' hn'
    exact ⟨(List.filterMap_cons_none he).trans hes, by rw [by_append, has, hlog]; rfl⟩

/-- What the handle of work that has ended answers: each call in turn is answered from the ticket. -/
theorem Played.answers_of_done {es : List Deed} {log : Transcript} (h : Played p d es log d')
    (ht : d.tickets[id]? = some t) (hd : t.isDone = true) : log.by id = t.answers (askedOf id es) := by
  induction h generalizing t with
  | nil => rfl
  | @cons d d₁ d' e es as log h hs ih =>
    obtain ⟨t', ht', hdealt⟩ := perform_ticket h ht
    rw [by_append]
    cases hdealt with
    | asked a he hn hw has =>
      subst he has
      have hasked : askedOf id (.ask id a :: es) = a :: askedOf id es :=
        List.filterMap_cons_some (if_pos rfl)
      have hby : Transcript.by [(id, t.answer a)] id = [t.answer a] := by simp [Transcript.by]
      rw [hasked, hby, ih ht' ((t.kept_after hd a).isDone hd)]
      rfl
    | dropped he _ has =>
      have hk := Ticket.kept_of_change (O := fun _ => False) hd (.drop hd)
      obtain ⟨hes, hlog⟩ := hs.answers_of_dropped ht' (hk.isDone hd) rfl
      rw [askedOf, List.filterMap_cons_none he, ← askedOf, hes, has, hlog]
      rfl
    | ended _ hp => rw [hd] at hp; cases hp
    | kept he has =>
      rw [askedOf, List.filterMap_cons_none he, ← askedOf, has]
      exact ih ht' hd

/-! ### The deed that ends the work -/

theorem Run.length_add {rs : List Submission} (h : Run p d rs d') :
    d'.tickets.length = d.tickets.length + rs.length := by
  induction h with
  | start => rfl
  | @submit rs d₁ r _ _ ih =>
    have hlen := (publishes_submit p d₁ r).length
    have hreg : (d₁.register r.op).tickets.length = d₁.tickets.length + 1 := List.length_append ..
    rw [hlen, hreg, ih, List.length_append]
    rfl
  | move _ m ih => rw [m.length, ih]

theorem by_of_none {e : Deed} {as : Transcript} (h : d.perform p e = some (as, d₁))
    (hnone : d.tickets[id]? = none) : as.by id = [] := by
  cases e with
  | submit r =>
    obtain ⟨-, rfl, -⟩ := perform_submit h
    rfl
  | act a =>
    obtain ⟨_, -, he⟩ := Option.map_eq_some_iff.mp h
    cases he
    rfl
  | dropHandle id' =>
    obtain ⟨_, -, -, rfl, -⟩ := perform_dropHandle h
    rfl
  | ask id' a =>
    obtain ⟨t, ht, -, rfl, -⟩ := perform_ask h
    have hne : id' ≠ id := by
      rintro rfl
      exact absurd (held?_eq_some ht).1 (by rw [hnone]; exact nofun)
    simp [Transcript.by, hne]
  | beginHalt | giveBack =>
    cases h
    rfl

/-- The ticket of a new submission has not been looked at yet, even if its work has failed already. -/
theorem new_of_perform {e : Deed} {as : Transcript} (h : d.perform p e = some (as, d₁))
    (hnone : d.tickets[id]? = none) (ht : d₁.tickets[id]? = some t) :
    t.seen = none ∧ t.dropped = false := by
  have hlen := (run_of_perform h).length_add
  have hge := List.getElem?_eq_none_iff.mp hnone
  have hlt := (List.getElem?_eq_some_iff.mp ht).1
  cases e with
  | submit r =>
    obtain ⟨-, -, rfl⟩ := perform_submit h
    have hlen : (d.submit p r).tickets.length = d.tickets.length + 1 := hlen
    have hnew : (d.register r.op).tickets[id]? = some { op := r.op } := by
      rw [show id = d.tickets.length from Nat.le_antisymm (by omega) hge]
      exact List.getElem?_concat_length
    rcases (publishes_submit p d r).ticket id _ hnew with ht' | ⟨-, w, r', -, -, ht'⟩ <;>
    · obtain rfl := Option.some.inj (ht'.symm.trans ht)
      exact ⟨rfl, rfl⟩
  | _ =>
    have hlen : d₁.tickets.length = d.tickets.length := hlen
    omega

/-- What a deed leaves of a ticket whose work had not ended: if it has ended now, the ticket has not been
looked at yet. Before that, the handle has little to say. -/
theorem ending_of_perform {e : Deed} {as : Transcript} (h : d.perform p e = some (as, d₁))
    (hb : d.InBalance) (hp : ∀ u, d.tickets[id]? = some u → u.isDone = false) (ht : d₁.tickets[id]? = some t) :
    (∀ a ∈ as.by id, a.Unsettled t.op) ∧ (t.isDone = true → t.seen = none) := by
  have silent (has : as.by id = []) : ∀ a ∈ as.by id, a.Unsettled t.op := fun a ha => by
    rw [has] at ha
    cases ha
  cases hu : d.tickets[id]? with
  | none => exact ⟨silent (by_of_none h hu), fun _ => (new_of_perform h hu ht).1⟩
  | some u =>
    have hpu := hp u hu
    have hc := hb.consistent u (List.mem_of_getElem? hu)
    have hseen := hc.seen_of_pending hpu
    obtain ⟨t', ht', hdealt⟩ := perform_ticket h hu
    obtain rfl := Option.some.inj (ht'.symm.trans ht)
    cases hdealt with
    | asked a _ _ hw has =>
      have hwait : a.waits u.op = false := by
        cases hwait : a.waits u.op with
        | false => rfl
        | true => exact absurd (hw hwait) (by rw [hpu]; decide)
      refine ⟨fun x hx => ?_, fun hd => by rw [Ticket.pending_after hpu hwait] at hd; cases hd⟩
      obtain rfl : x = u.answer a := by simpa [has, Transcript.by] using hx
      rw [u.op_after]
      exact Ticket.pending_answer hc hpu hwait
    | dropped _ hd => rw [hpu] at hd; cases hd
    | ended _ _ has o => exact ⟨silent has, fun _ => hseen⟩
    | kept _ has => exact ⟨silent has, fun _ => hseen⟩

theorem op_of_dealt {t' : Ticket} {e : Deed} {as : Transcript} (h : Dealt t id e as t') : t'.op = t.op := by
  cases h with
  | asked a => exact t.op_after a
  | dropped _ hd => exact (Ticket.kept_of_change (O := fun _ => False) hd (.drop hd)).op
  | ended => rfl
  | kept => rfl

theorem Played.op {es : List Deed} {log : Transcript} (h : Played p d es log d')
    (ht : d.tickets[id]? = some t) {t' : Ticket} (ht' : d'.tickets[id]? = some t') : t'.op = t.op := by
  induction h generalizing t with
  | nil => rw [Option.some.inj (ht.symm.trans ht')]
  | @cons d d₁ d' e es as log h _ ih =>
    obtain ⟨t₁, ht₁, hdealt⟩ := perform_ticket h ht
    exact (ih ht₁ ht').trans (op_of_dealt hdealt)

/-- If the work of a submission has ended, it did so at some moment. The handle has had little to say
before, and at that moment nobody has looked at the outcome yet. -/
theorem Played.split {es : List Deed} {log : Transcript} (h : Played p d es log d') (hb : d.InBalance)
    (hp : ∀ u, d.tickets[id]? = some u → u.isDone = false) {t' : Ticket}
    (ht' : d'.tickets[id]? = some t') (hd' : t'.isDone = true) :
    ∃ es₁ es₂ log₁ log₂ d₁ t, es = es₁ ++ es₂ ∧ log = log₁ ++ log₂ ∧ Played p d es₁ log₁ d₁ ∧
      Played p d₁ es₂ log₂ d' ∧ d₁.tickets[id]? = some t ∧ t.isDone = true ∧ t.seen = none ∧
      ∀ a ∈ log₁.by id, a.Unsettled t.op := by
  induction h with
  | nil d => exact absurd hd' (by rw [hp t' ht']; decide)
  | @cons d d₁ d' e es as log h hs ih =>
    by_cases hdone : ∃ t, d₁.tickets[id]? = some t ∧ t.isDone = true
    · obtain ⟨t, ht, hd⟩ := hdone
      obtain ⟨hsaid, hseen⟩ := ending_of_perform h hb hp ht
      refine ⟨[e], es, as, log, d₁, t, rfl, rfl, ?_, hs, ht, hd, hseen hd, hsaid⟩
      have hone := Played.cons h (.nil d₁)
      rwa [List.append_nil] at hone
    · have hp₁ : ∀ u, d₁.tickets[id]? = some u → u.isDone = false := fun u hu => by
        cases hd : u.isDone with
        | false => rfl
        | true => exact absurd ⟨u, hu, hd⟩ hdone
      obtain ⟨es₁, es₂, log₁, log₂, d₂, t, rfl, rfl, hs₁, hs₂, ht, hd, hseen, hsaid⟩ :=
        ih ((run_of_perform h).balanced hb) hp₁ ht'
      refine ⟨e :: es₁, es₂, as ++ log₁, log₂, d₂, t, rfl, (List.append_assoc ..).symm, .cons h hs₁, hs₂,
        ht, hd, hseen, ?_⟩
      rw [by_append]
      refine List.forall_mem_append.mpr ⟨?_, hsaid⟩
      cases hu : d.tickets[id]? with
      | none =>
        rw [by_of_none h hu]
        exact fun _ ha => absurd ha List.not_mem_nil
      | some u =>
        obtain ⟨u', hu', -⟩ := perform_ticket h hu
        rw [hs₁.op hu' ht]
        exact (ending_of_perform h hb hp hu').1

end Ticket

end FilePipeline.Dispatcher
