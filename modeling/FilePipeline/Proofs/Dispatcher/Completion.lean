import FilePipeline.Proofs.Dispatcher.Balance

/-! # Every submission ends exactly once

In whatever state a dispatcher can get into, each piece of work is in one place: with its submitter,
in one of the queues, with one of the workers, or ended. Once it has ended it stays ended, with the
outcome it got then and counted once. -/

namespace FilePipeline.Dispatcher

variable {σ η κ : Type} {p : Setup σ η κ} {d₀ d : Dispatcher σ κ} {rs : List Submission}

/-! ### Places -/

/-- Who may hold work that has not ended. -/
inductive Holder where
  | submitters
  | queue (s : Stage)
  | worker (s : Stage)
  deriving DecidableEq, Repr

/-- The work a holder has, in order. -/
def worksOf (d : Dispatcher σ κ) : Holder → List Work
  | .submitters => d.waiting.map Prod.snd
  | .queue s => (d.queues.get s).works
  | .worker s => (d.tasks.get s).works

/-- Where a piece of work can be: at a position with a holder, or at its end. -/
inductive Place where
  | held (h : Holder) (position : Nat)
  | ended
  deriving DecidableEq, Repr

theorem mem_held {h : Holder} {w : Work} (hw : w ∈ d.worksOf h) : w ∈ d.held := by
  unfold held
  simp only [Multiset.mem_add, Multiset.mem_coe]
  rcases h with _ | (_ | _) | (_ | _)
  · exact Or.inl (Or.inl (Or.inl (Or.inl hw)))
  · exact Or.inl (Or.inl (Or.inl (Or.inr hw)))
  · exact Or.inl (Or.inl (Or.inr hw))
  · exact Or.inl (Or.inr hw)
  · exact Or.inr hw

theorem mem_worksOf_worker {s : Stage} {t : Task} {w : Work} (h : d.tasks.get s = t)
    (hw : w ∈ t.works) : w ∈ d.worksOf (.worker s) := by
  show w ∈ (d.tasks.get s).works
  rw [h]
  exact hw

theorem exists_of_mem_held {w : Work} (hw : w ∈ d.held) : ∃ h, w ∈ d.worksOf h := by
  unfold held at hw
  simp only [Multiset.mem_add, Multiset.mem_coe] at hw
  rcases hw with (((hw | hw) | hw) | hw) | hw
  · exact ⟨.submitters, hw⟩
  · exact ⟨.queue .io, hw⟩
  · exact ⟨.queue .compression, hw⟩
  · exact ⟨.worker .io, hw⟩
  · exact ⟨.worker .compression, hw⟩

theorem held_eq_zero (hn : ∀ h, d.worksOf h = []) : d.held = 0 := by
  refine Multiset.eq_zero_of_forall_notMem fun w hw => ?_
  obtain ⟨h, hh⟩ := exists_of_mem_held hw
  rw [hn h] at hh
  exact List.not_mem_nil hh

/-- Whether the work with a number is in a place. -/
def At (d : Dispatcher σ κ) (id : WorkId) : Place → Prop
  | .held h i => ∃ w, (d.worksOf h)[i]? = some w ∧ w.id = id
  | .ended => ∃ t, d.tickets[id]? = some t ∧ t.isDone = true

/-- How many pieces of work with a number a holder has. -/
def copies (d : Dispatcher σ κ) (id : WorkId) (h : Holder) : Nat :=
  (d.worksOf h).countP fun w => w.id = id

theorem countP_held (d : Dispatcher σ κ) (id : WorkId) :
    d.held.countP (fun w => w.id = id) =
      d.copies id .submitters + d.copies id (.queue .io) + d.copies id (.queue .compression) +
        d.copies id (.worker .io) + d.copies id (.worker .compression) := by
  unfold held
  simp only [Multiset.countP_add, Multiset.coe_countP]
  rfl

theorem copies_add_le (d : Dispatcher σ κ) (id : WorkId) {h h' : Holder} (hne : h ≠ h') :
    d.copies id h + d.copies id h' ≤ d.held.countP fun w => w.id = id := by
  rw [countP_held]
  rcases h with _ | (_ | _) | (_ | _) <;> rcases h' with _ | (_ | _) | (_ | _) <;>
    first | exact absurd rfl hne | omega

theorem copies_le (d : Dispatcher σ κ) (id : WorkId) (h : Holder) :
    d.copies id h ≤ d.held.countP fun w => w.id = id := by
  rw [countP_held]
  rcases h with _ | (_ | _) | (_ | _) <;> omega

theorem copies_pos {id : WorkId} {h : Holder} {i : Nat} (ha : d.At id (.held h i)) :
    1 ≤ d.copies id h := by
  obtain ⟨w, hw, hid⟩ := ha
  exact List.countP_pos_iff.mpr ⟨w, List.mem_of_getElem? hw, decide_eq_true hid⟩

theorem position_unique {α : Type} {P : α → Bool} {l : List α} (h : l.countP P ≤ 1) {i j : Nat}
    {a b : α} (ha : l[i]? = some a) (hb : l[j]? = some b) (hPa : P a) (hPb : P b) : i = j := by
  induction l generalizing i j with
  | nil => simp at ha
  | cons x xs ih =>
    rw [List.countP_cons] at h
    have none_left : P x → ∀ k c, xs[k]? = some c → ¬ P c := fun hx k c hk hc => by
      have := List.countP_pos_iff.mpr ⟨c, List.mem_of_getElem? hk, hc⟩
      simp only [hx, if_true] at h
      omega
    rcases i with _ | i <;> rcases j with _ | j
    · rfl
    · obtain rfl : x = a := by simpa using ha
      exact absurd hPb (none_left hPa j b (by simpa using hb))
    · obtain rfl : x = b := by simpa using hb
      exact absurd hPa (none_left hPb i a (by simpa using ha))
    · have hij : i = j := ih (by omega) (by simpa using ha) (by simpa using hb)
      rw [hij]

theorem At.unique {id : WorkId} {x y : Place} (hb : d.InBalance) (hx : d.At id x)
    (hy : d.At id y) : x = y := by
  have hone := hb.once id
  -- what has ended is not held
  have apart : ∀ {h i}, d.At id (.held h i) → ¬ d.At id .ended := by
    rintro h i hh ⟨t, ht, hd⟩
    have hpos := copies_pos hh
    have hle := d.copies_le id h
    have hp : pending d.tickets id = false := by
      unfold pending
      rw [ht]
      simp [hd]
    rw [hone, hp, if_neg Bool.false_ne_true] at hle
    omega
  have hle : d.held.countP (fun w => w.id = id) ≤ 1 := by
    rw [hone]
    split <;> omega
  cases x with
  | ended =>
    cases y with
    | ended => rfl
    | held h j => exact absurd hx (apart hy)
  | held h i =>
    cases y with
    | ended => exact absurd hy (apart hx)
    | held h' j =>
      by_cases he : h = h'
      · subst he
        obtain ⟨v, hv, hvid⟩ := hx
        obtain ⟨w, hw, hwid⟩ := hy
        have hc : d.copies id h ≤ 1 := (d.copies_le id h).trans hle
        rw [position_unique hc hv hw (decide_eq_true hvid) (decide_eq_true hwid)]
      · have := copies_pos hx
        have := copies_pos hy
        have := d.copies_add_le id he
        omega

theorem InBalance.held_unique (hb : d.InBalance) {h h' : Holder} {w w' : Work}
    (hw : w ∈ d.worksOf h) (hw' : w' ∈ d.worksOf h') (hid : w.id = w'.id) : h = h' ∧ w = w' := by
  obtain ⟨i, hi⟩ := List.mem_iff_getElem?.mp hw
  obtain ⟨j, hj⟩ := List.mem_iff_getElem?.mp hw'
  have ha : d.At w'.id (.held h i) := ⟨w, hi, hid⟩
  have he : Place.held h i = .held h' j := At.unique hb ha ⟨w', hj, rfl⟩
  cases he
  rw [hi] at hj
  exact ⟨rfl, Option.some.inj hj⟩

theorem exists_at {id : WorkId} {h : Holder} (hc : 1 ≤ d.copies id h) :
    ∃ i, d.At id (.held h i) := by
  obtain ⟨w, hw, hid⟩ := List.countP_pos_iff.mp hc
  obtain ⟨i, hi, he⟩ := List.getElem_of_mem hw
  exact ⟨i, w, by rw [← he]; exact List.getElem?_eq_getElem hi, of_decide_eq_true hid⟩

theorem InBalance.exists_place (hb : d.InBalance) {id : WorkId} (hid : id < d.tickets.length) :
    ∃ x, d.At id x := by
  cases hd : d.tickets[id].isDone with
  | true => exact ⟨.ended, _, List.getElem?_eq_getElem hid, hd⟩
  | false =>
    have hp : pending d.tickets id = true :=
      pending_iff.mpr ⟨_, List.getElem?_eq_getElem hid, hd⟩
    have hone := hb.once id
    rw [hp, if_pos rfl, countP_held] at hone
    have hsome : ∃ h, 1 ≤ d.copies id h := by
      by_contra hno
      simp only [not_exists, Nat.not_le, Nat.lt_one_iff] at hno
      simp only [hno] at hone
      omega
    obtain ⟨h, hc⟩ := hsome
    obtain ⟨i, hi⟩ := exists_at hc
    exact ⟨_, hi⟩

/-! ### Completion -/

/-- That of the submissions `rs` none is lost and none ends twice, in a state `d` and from there on. -/
structure Completes (p : Setup σ η κ) (rs : List Submission) (d : Dispatcher σ κ) : Prop where
  /-- Each submission has its ticket. -/
  asked : d.tickets.map Ticket.op = rs.map Submission.op
  /-- Its work is in one place. -/
  located : ∀ id < rs.length, ∃! x, d.At id x
  /-- The event of a ticket is up exactly if an outcome is stored. -/
  stored : ∀ t ∈ d.tickets, t.Consistent
  /-- The counters have counted each submission once, and each end once. -/
  counted : d.stats = tally d.tickets
  /-- In the move that ends it the outcome of work is stored while the event is still down, and then
      the event is raised, for the first time. -/
  ending : ∀ d', Move p d d' → ∀ (id : WorkId) (t t' : Ticket), d.tickets[id]? = some t →
    d'.tickets[id]? = some t' → t.isDone = false → t'.isDone = true →
    ∃ o, t.slot = none ∧ t.seen = none ∧ (t.store o).isDone = false ∧
      (t.store o).done.raise.1 = true ∧ t' = (t.store o).raise
  /-- What has ended stays so, with the outcome it got. -/
  kept : ∀ (id : WorkId) (t : Ticket), d.tickets[id]? = some t → t.isDone = true →
    ∀ rs' d', Run p d rs' d' → ∃ t', d'.tickets[id]? = some t' ∧ t.Kept t'

/-- Whatever is submitted, in whatever order things happen and whatever crashes, each piece of work is
    in one place and ends once. -/
theorem Run.completes (h₀ : Fresh p d₀) (h : Run p d₀ rs d) : Completes p rs d := by
  have hb : d.InBalance := h.balanced h₀.unused.inBalance
  have hasked := h.asked h₀.unused.tickets
  have hlen : d.tickets.length = rs.length := by
    have := congrArg List.length hasked
    rwa [List.length_map, List.length_map] at this
  refine ⟨hasked, fun id hid => ?_, hb.consistent, hb.counted, ?_, ?_⟩
  · obtain ⟨x, hx⟩ := hb.exists_place (hlen ▸ hid)
    exact ⟨x, hx, fun y hy => At.unique hb hy hx⟩
  · intro d' m id t t' ht ht' hp hd
    obtain ⟨u, hu, hc⟩ := m.ticket ht
    obtain rfl : t' = u := by rw [ht'] at hu; exact Option.some.inj hu
    obtain ⟨o, -, h⟩ :=
      Ticket.publish_of_change (hb.consistent t (List.mem_of_getElem? ht)) hp hd hc
    exact ⟨o, h⟩
  · intro id t ht hd rs' d' hr
    exact hr.kept ht hd

/-- A run in which the codec crashes on one write and the closing of the queue ends another. -/
theorem completes_when_codec_crashes :
    ∃ d₀ d, Fresh (scriptedSetup 1 { compress := .crash }) d₀ ∧
      d.tickets.map Ticket.isDone = [true, false, true] ∧
      Completes (scriptedSetup 1 { compress := .crash })
        [.write "f" [1] true, .read "f" 0 false true, .write "g" [2, 3] true] d := by
  let cues : List Cue :=
    [.submit (.write "f" [1] true), .submit (.read "f" 0 false true),
      .submit (.write "g" [2, 3] true), .act (.push 0), .act (.pop .compression),
      .act (.push 0), .act (.push 0), .act (.process .compression), .act (.leave .compression)]
  have h : ((scripted? 1 { compress := .crash } {}).bind
      (replay (scriptedSetup 1 { compress := .crash }) cues)).any
      (fun d => d.tickets.map Ticket.isDone = [true, false, true]) = true := by
    decide +kernel
  obtain ⟨d, hd, hdone⟩ := Option.any_eq_true _ _ |>.mp h
  obtain ⟨d₀, h₀, hr⟩ := Option.bind_eq_some_iff.mp hd
  exact ⟨d₀, d, fresh_scripted h₀, of_decide_eq_true hdone,
    Run.completes (fresh_scripted h₀) (run_of_replay hr)⟩

end FilePipeline.Dispatcher
