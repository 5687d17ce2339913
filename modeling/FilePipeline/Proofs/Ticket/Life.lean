import FilePipeline.Ticket
import Mathlib.Tactic.ByContra

/-! # The life of a ticket

A ticket waits for its work to end, is given the outcome once, and from then on only answers its
client. `Change` lists what can happen to a ticket in one move of its dispatcher. `Consistent` ties
the two flags of the event to the outcome being there, and `Kept` says how much of an ended ticket no
change can touch: everything but the buffer, which the client may take out or let go. -/

namespace FilePipeline.Ticket

/-- The outcome as the client sees it. -/
def outcome (t : Ticket) : Outcome := t.look.1

/-- The ticket after an outcome was put into its slot: the first half of `publish`. -/
def store (t : Ticket) (o : Outcome) : Ticket := { t with slot := some o }

/-- The ticket after its event was raised: the second half of `publish`. -/
def raise (t : Ticket) : Ticket := { t with done := t.done.raise.2.2 }

/-- What can happen to a ticket in one move, if the outcomes that may be published are those of
    `O`. -/
inductive Change (O : Outcome → Prop) (t : Ticket) : Ticket → Prop
  | none : Change O t t
  | publish (o : Outcome) (ho : O o) (h : t.isDone = false) : Change O t (t.publish o)
  | look (h : t.isDone = true) : Change O t t.look.2
  | poll (waker : Nat) : Change O t { t with done := (t.done.poll waker).2 }
  | take (h : t.isDone = true) : Change O t t.take.2
  | drop (h : t.isDone = true) : Change O t t.drop.2

variable {O : Outcome → Prop}

theorem Change.mono {O' : Outcome → Prop} {t t' : Ticket} (c : t.Change O t')
    (h : ∀ o, O o → O' o) : t.Change O' t' := by
  cases c with
  | none => exact .none
  | publish o ho hp => exact .publish o (h o ho) hp
  | look hd => exact .look hd
  | poll waker => exact .poll waker
  | take hd => exact .take hd
  | drop hd => exact .drop hd

theorem Change.op {t t' : Ticket} (c : t.Change O t') : t'.op = t.op := by
  have hl : t.look.2.op = t.op := by unfold Ticket.look; split <;> rfl
  cases c with
  | take =>
    unfold Ticket.take
    dsimp only
    split
    · rfl
    · split <;> exact hl
  | look => exact hl
  | drop => exact hl
  | _ => rfl

/-! ### The event and the outcome -/

/-- The work has ended exactly if an outcome is stored, in the slot or in the handle's copy and never
    in both, and the two flags of the event agree. -/
structure Consistent (t : Ticket) : Prop where
  stored : t.isDone = true ↔ t.slot.isSome = true ∨ t.seen.isSome = true
  single : t.slot = none ∨ t.seen = none
  latched : t.done.latched = t.done.raised

theorem consistent_new (op : Op) : Consistent { op } :=
  ⟨by simp [isDone], Or.inl rfl, rfl⟩

namespace Consistent

variable {t : Ticket}

theorem slot_of_pending (h : t.Consistent) (hp : t.isDone = false) : t.slot = none := by
  cases hs : t.slot with
  | none => rfl
  | some o =>
    have := h.stored.mpr (Or.inl (by rw [hs]; rfl))
    rw [hp] at this; cases this

theorem seen_of_pending (h : t.Consistent) (hp : t.isDone = false) : t.seen = none := by
  cases hs : t.seen with
  | none => rfl
  | some o =>
    have := h.stored.mpr (Or.inr (by rw [hs]; rfl))
    rw [hp] at this; cases this

theorem latched_of_pending (h : t.Consistent) (hp : t.isDone = false) :
    t.done.latched = false := by rw [h.latched]; exact hp

/-- Publishing the outcome of work that has not ended raises the event, and it is this call that does
    so. -/
theorem raise_of_pending (h : t.Consistent) (hp : t.isDone = false) :
    t.done.raise = (true, t.done.wakers, ⟨true, true, []⟩) := by
  unfold Event.raise
  rw [h.latched_of_pending hp]; rfl

theorem publish_of_pending (h : t.Consistent) (hp : t.isDone = false) (o : Outcome) :
    t.publish o = { t with slot := some o, done := ⟨true, true, []⟩ } := by
  unfold publish
  rw [h.raise_of_pending hp]

theorem outcome_publish (h : t.Consistent) (hp : t.isDone = false) (o : Outcome) :
    (t.publish o).outcome = o := by
  rw [h.publish_of_pending hp]
  unfold outcome look
  rw [h.seen_of_pending hp]
  rfl

theorem publish (h : t.Consistent) (hp : t.isDone = false) (o : Outcome) :
    (t.publish o).Consistent := by
  rw [h.publish_of_pending hp]
  exact ⟨by simp [isDone], Or.inr (h.seen_of_pending hp), rfl⟩

end Consistent

theorem raised_poll (e : Event Nat) (waker : Nat) :
    (e.poll waker).2.raised = e.raised ∧ (e.poll waker).2.latched = e.latched := by
  unfold Event.poll Event.register
  repeat' split
  all_goals exact ⟨rfl, rfl⟩

theorem poll_of_raised {e : Event Nat} (h : e.raised = true) (waker : Nat) :
    (e.poll waker).2 = e := by
  unfold Event.poll
  rw [if_pos h]

theorem Change.isDone {t t' : Ticket} (c : t.Change (fun _ => False) t') :
    t'.isDone = t.isDone := by
  have hl : t.look.2.isDone = t.isDone := by unfold Ticket.look; split <;> rfl
  cases c with
  | none => rfl
  | publish o ho => exact ho.elim
  | look => exact hl
  | poll waker => exact (raised_poll t.done waker).1
  | take =>
    unfold Ticket.take
    dsimp only
    split
    · rfl
    · split <;> exact hl
  | drop => exact hl

/-- What looking at the outcome leaves: the outcome in the handle's copy and nothing in the slot. -/
theorem look_snd (t : Ticket) (h : t.slot = none ∨ t.seen = none) :
    t.look.2 = { t with slot := none, seen := some t.outcome } := by
  unfold outcome look
  cases hs : t.seen with
  | some o =>
    have hn : t.slot = none := by
      rcases h with h | h
      · exact h
      · rw [hs] at h; cases h
    obtain ⟨op, done, slot, seen, dropped⟩ := t
    simp only at hs hn
    subst hs hn
    rfl
  | none => rfl

theorem Consistent.seen {t t' : Ticket} (h : t.Consistent) (hd : t.isDone = true)
    (he : t'.done = t.done) (hs : t'.slot = none) (ho : t'.seen.isSome = true) :
    t'.Consistent := by
  refine ⟨⟨fun _ => Or.inr ho, fun _ => ?_⟩, Or.inl hs, by rw [he]; exact h.latched⟩
  unfold isDone at hd ⊢
  rw [he]; exact hd

theorem Consistent.change {t t' : Ticket} (h : t.Consistent) (c : t.Change O t') :
    t'.Consistent := by
  have hl : t.isDone = true → t.look.2.Consistent := fun hd => by
    rw [look_snd t h.single]; exact h.seen hd rfl rfl rfl
  cases c with
  | none => exact h
  | publish o _ hp => exact h.publish hp o
  | look hd => exact hl hd
  | poll waker =>
    obtain ⟨hr, hl⟩ := raised_poll t.done waker
    refine ⟨?_, h.single, ?_⟩
    · simp only [isDone, hr]; exact h.stored
    · rw [hr, hl]; exact h.latched
  | take hd =>
    unfold take
    dsimp only
    split
    · exact h
    · split
      · rw [look_snd t h.single]; exact h.seen hd rfl rfl rfl
      · exact hl hd
  | drop hd =>
    unfold drop
    dsimp only
    rw [look_snd t h.single]; exact h.seen hd rfl rfl rfl

/-! ### What no change touches -/

/-- How a ticket whose work has ended goes on: the event is not raised again, and the outcome stays,
    but for its buffer, which may be gone. -/
structure Kept (t t' : Ticket) : Prop where
  op : t'.op = t.op
  event : t'.done = t.done
  result : t'.outcome.result = t.outcome.result
  size : t'.outcome.size = t.outcome.size
  buffer : t'.outcome.buffer = t.outcome.buffer ∨ t'.outcome.buffer = .none

namespace Kept

variable {t t' t'' : Ticket}

theorem refl (t : Ticket) : Kept t t := ⟨rfl, rfl, rfl, rfl, Or.inl rfl⟩

theorem trans (h : Kept t t') (h' : Kept t' t'') : Kept t t'' := by
  refine ⟨h'.op.trans h.op, h'.event.trans h.event, h'.result.trans h.result,
    h'.size.trans h.size, ?_⟩
  rcases h'.buffer with hb | hb
  · rcases h.buffer with hb' | hb'
    · exact Or.inl (hb.trans hb')
    · exact Or.inr (hb.trans hb')
  · exact Or.inr hb

theorem isDone (h : Kept t t') (hd : t.isDone = true) : t'.isDone = true := by
  unfold Ticket.isDone at hd ⊢
  rw [h.event]; exact hd

end Kept

theorem outcome_look (t : Ticket) : t.look.2.outcome = t.outcome := by
  unfold outcome look
  cases hs : t.seen with
  | some o => simp [hs]
  | none => rfl

theorem kept_of_change {t t' : Ticket} (hd : t.isDone = true) (c : t.Change O t') : Kept t t' := by
  have hl : Kept t t.look.2 := by
    have ho := outcome_look t
    refine ⟨?_, ?_, by rw [ho], by rw [ho], Or.inl (by rw [ho])⟩ <;>
    · unfold look; split <;> rfl
  cases c with
  | none => exact .refl t
  | publish o _ hp => rw [hd] at hp; cases hp
  | look => exact hl
  | poll waker =>
    rw [poll_of_raised (e := t.done) hd]
    exact .refl t
  | take =>
    unfold take
    split
    · exact .refl t
    · dsimp only
      split
      · exact ⟨hl.op, hl.event, rfl, rfl, Or.inr rfl⟩
      · exact hl
  | drop => exact ⟨hl.op, hl.event, rfl, rfl, Or.inr rfl⟩

/-- The client has taken the buffer over or dropped the handle. -/
def HandedOver (t : Ticket) : Prop := ∃ o, t.seen = some o ∧ o.buffer = .none

/-- The ticket shows the outcome `o`, and its buffer until the client takes it. -/
structure Shows (t : Ticket) (o : Outcome) : Prop where
  result : t.outcome.result = o.result
  size : t.outcome.size = o.size
  buffer : t.outcome.buffer = o.buffer ∨ t.HandedOver

theorem Shows.outcome_of_unseen {t : Ticket} {o : Outcome} (h : t.Shows o) (hs : t.seen = none) :
    t.outcome = o := by
  have hb : t.outcome.buffer = o.buffer := h.buffer.resolve_right fun ⟨o', hs', _⟩ => by
    rw [hs] at hs'
    cases hs'
  have hr := h.result
  have hn := h.size
  generalize t.outcome = o' at hr hn hb ⊢
  cases o
  cases o'
  cases hr
  cases hn
  cases hb
  rfl

/-- What has been handed over stays so. -/
theorem HandedOver.change {t t' : Ticket} (h : t.HandedOver) (hd : t.isDone = true)
    (c : t.Change O t') : t'.HandedOver := by
  obtain ⟨o, hs, hb⟩ := h
  have hl : t.look = (o, t) := by
    unfold look
    rw [hs]
  cases c with
  | none => exact ⟨o, hs, hb⟩
  | publish o' ho hp => rw [hd] at hp; cases hp
  | look => rw [hl]; exact ⟨o, hs, hb⟩
  | poll waker => exact ⟨o, hs, hb⟩
  | take =>
    unfold take
    split
    · exact ⟨o, hs, hb⟩
    · dsimp only
      rw [hl]
      dsimp only
      rw [hb]
      exact ⟨o, hs, hb⟩
  | drop => exact ⟨_, rfl, rfl⟩

/-- A change leaves the buffer that a ticket shows, or hands it over. -/
theorem Change.buffer {t t' : Ticket} (c : t.Change O t') (hd : t.isDone = true) :
    t'.outcome.buffer = t.outcome.buffer ∨ t'.HandedOver := by
  have hl : t.look.2.outcome.buffer = t.outcome.buffer := by rw [outcome_look]
  cases c with
  | none => exact Or.inl rfl
  | publish o ho hp => rw [hd] at hp; cases hp
  | look => exact Or.inl hl
  | poll waker =>
    rw [poll_of_raised (e := t.done) hd]
    exact Or.inl rfl
  | take =>
    unfold Ticket.take
    split
    · exact Or.inl rfl
    · dsimp only
      split
      · exact Or.inr ⟨_, rfl, rfl⟩
      · exact Or.inl hl
  | drop => exact Or.inr ⟨_, rfl, rfl⟩

theorem Shows.change {t t' : Ticket} {o : Outcome} (h : t.Shows o) (hd : t.isDone = true)
    (c : t.Change O t') : t'.Shows o := by
  have hk := kept_of_change hd c
  refine ⟨hk.result.trans h.result, hk.size.trans h.size, ?_⟩
  rcases h.buffer with hb | hb
  · rcases c.buffer hd with hb' | hb'
    · exact Or.inl (hb'.trans hb)
    · exact Or.inr hb'
  · exact Or.inr (hb.change hd c)

/-- The ticket of a write goes on showing its buffer until the handle is dropped. -/
def Retains (t : Ticket) (b : WorkBuffer) : Prop :=
  t.op = .write → t.dropped = true ∨ t.outcome.buffer = b

theorem Retains.change {t t' : Ticket} {b : WorkBuffer} (h : t.Retains b) (hd : t.isDone = true)
    (c : t.Change O t') : t'.Retains b := by
  intro hop
  have hwrite : t.op = .write := c.op.symm.trans hop
  have h := h hwrite
  have hl : t.look.2.dropped = t.dropped := by unfold look; split <;> rfl
  cases c with
  | none => exact h
  | publish o ho hp => rw [hd] at hp; cases hp
  | look => rw [hl, outcome_look]; exact h
  | poll waker =>
    rw [poll_of_raised (e := t.done) hd]
    exact h
  | take =>
    -- there is nothing to take of a write
    have hsame : t.take.2 = t := by
      unfold Ticket.take
      rw [hwrite]
    rw [hsame]
    exact h
  | drop => exact Or.inl rfl

theorem Consistent.shows_publish {t : Ticket} (h : t.Consistent) (hp : t.isDone = false)
    (o : Outcome) : (t.publish o).Shows o := by
  have ho := h.outcome_publish hp o
  exact ⟨by rw [ho], by rw [ho], Or.inl (by rw [ho])⟩

/-! ### Taking the buffer -/

theorem take_isSome {t : Ticket} :
    t.take.1.isSome = true ↔ t.op = .read ∧ ∃ b, t.outcome.buffer = .owned b := by
  unfold take outcome
  cases t.op with
  | write => simp
  | read =>
    dsimp only
    split
    · next b hb => simp [hb]
    · next hb =>
      refine ⟨fun h => absurd h (by simp), ?_⟩
      rintro ⟨-, b, h⟩
      exact absurd h (hb b)

theorem take_eq {t : Ticket} :
    t.take.1 = match t.op, t.outcome.buffer with
      | .read, .owned b => some b
      | _, _ => none := by
  unfold take outcome
  cases t.op with
  | write => rfl
  | read => dsimp only; split <;> simp_all

theorem Kept.take {t t' : Ticket} (h : Kept t t') : t'.take.1 = t.take.1 ∨ t'.take.1 = none := by
  rw [take_eq, take_eq, h.op]
  rcases h.buffer with hb | hb
  · rw [hb]
    exact Or.inl rfl
  · rw [hb]
    refine Or.inr ?_
    cases t.op <;> rfl

theorem take_take (t : Ticket) : t.take.2.take.1 = none := by
  by_contra hne
  obtain ⟨hop, b, hb⟩ := take_isSome.mp (Option.isSome_iff_ne_none.mpr hne)
  unfold take at hop hb
  cases ht : t.op with
  | write =>
    rw [ht] at hop
    exact absurd (ht.symm.trans hop) (by decide)
  | read =>
    rw [ht] at hb
    dsimp only at hb
    split at hb
    · cases hb
    · next hn =>
      rw [outcome_look] at hb
      exact hn b hb

theorem buffer_of_error {t : Ticket} {e : WorkError} (h : t.result = .error e) :
    t.buffer = none := by
  unfold result at h
  unfold buffer
  rw [h]

/-! ### The move that ends the work -/

/-- Work that ended in a move has its outcome stored first and its event raised then, and by nobody
    else. -/
theorem publish_of_change {t t' : Ticket} (h : t.Consistent) (hp : t.isDone = false)
    (hd : t'.isDone = true) (c : t.Change O t') :
    ∃ o, O o ∧ t.slot = none ∧ t.seen = none ∧ (t.store o).isDone = false ∧
      (t.store o).done.raise.1 = true ∧ t' = (t.store o).raise := by
  cases c with
  | none => rw [hp] at hd; cases hd
  | publish o ho =>
    refine ⟨o, ho, h.slot_of_pending hp, h.seen_of_pending hp, hp, ?_, rfl⟩
    show t.done.raise.1 = true
    rw [h.raise_of_pending hp]
  | look hd' => rw [hp] at hd'; cases hd'
  | poll waker =>
    have hr := (raised_poll t.done waker).1
    unfold isDone at hp hd
    rw [hr, hp] at hd; cases hd
  | take hd' => rw [hp] at hd'; cases hd'
  | drop hd' => rw [hp] at hd'; cases hd'

end FilePipeline.Ticket
