import FilePipeline.Proofs.Ticket.Life

/-! # What a handle answers

`Accessor` lists what a submitter can ask of a handle. The answers follow the outcome that was published:
`Coherent` says which answer fits at each place of a list of them, and it matters only whether the buffer
was taken before. The handle of work that has ended gives coherent answers to any calls in any order
(`coherent_answers`). Until then it has little to say, since most calls wait (`pending_answer`). -/

namespace FilePipeline

/-- What can be asked of a handle. -/
inductive Accessor where
  | result
  | statusCode
  | size
  | buffer
  | terminated
  | take
  | isDone
  | wait
  /-- To poll the future that becomes ready when the work has ended. -/
  | poll (waker : Nat)
  deriving DecidableEq

/-- Whether a call waits for the work to end. There is nothing to wait for in taking the buffer of a
write. -/
def Accessor.waits (op : Op) : Accessor → Bool
  | .isDone | .poll _ => false
  | .take => op == .read
  | _ => true

/-- An answer of a handle. -/
inductive Response where
  | result (r : Except WorkError Unit)
  | statusCode (n : Int)
  | size (n : Nat)
  | buffer (bytes : Option (List UInt8))
  | terminated (bytes : Option (List UInt8))
  | take (b : Option Buffer)
  | isDone (done : Bool)
  | wait
  | polled (r : Poll)

/-- The bytes that an outcome shows: those of its buffer, if the work succeeded. -/
def Outcome.shown (o : Outcome) : Option (List UInt8) :=
  match o.result with
  | .ok () => o.buffer.bytes?
  | .error _ => none

/-- The bytes of a read and the one after them, if there is room for one. -/
def Outcome.terminated (op : Op) (o : Outcome) : Option (List UInt8) :=
  match o.buffer, op with
  | .owned b, .read => b.terminated?
  | _, _ => none

namespace Ticket

/-- What the handle answers. -/
def answer (t : Ticket) : Accessor → Response
  | .result => .result t.result
  | .statusCode => .statusCode t.statusCode
  | .size => .size t.size
  | .buffer => .buffer t.buffer
  | .terminated => .terminated t.terminated
  | .take => .take t.take.1
  | .isDone => .isDone t.isDone
  | .wait => .wait
  | .poll waker => .polled (t.done.poll waker).1

/-- The ticket after the call. -/
def after (t : Ticket) : Accessor → Ticket
  | .take => t.take.2
  | .isDone | .wait => t
  | .poll waker => { t with done := (t.done.poll waker).2 }
  | _ => t.look.2

/-- The answers to calls one after the other. -/
def answers (t : Ticket) : List Accessor → List Response
  | [] => []
  | a :: as => t.answer a :: (t.after a).answers as

variable {t : Ticket} {op : Op} {o : Outcome}

theorem buffer_eq (t : Ticket) : t.buffer = t.outcome.shown := rfl

theorem terminated_eq (t : Ticket) : t.terminated = t.outcome.terminated t.op := rfl

end Ticket

/-- Someone was given the buffer. -/
def Taken (as : List Response) : Prop := ∃ b, .take (some b) ∈ as

/-- The answer is what the outcome `o` says, if the buffer was taken or not. -/
def Response.Fits (op : Op) (o : Outcome) (taken : Prop) : Response → Prop
  | .result r => r = o.result
  | .statusCode n => n = FilePipeline.statusCode o.result
  | .size n => n = o.size
  | .buffer bytes => (taken → bytes = none) ∧ (¬taken → bytes = o.shown)
  | .terminated bytes => (taken → bytes = none) ∧ (¬taken → bytes = o.terminated op)
  | .take none => op = .write ∨ taken ∨ ∀ b, o.buffer ≠ .owned b
  | .take (some b) => op = .read ∧ ¬taken ∧ o.buffer = .owned b
  | .isDone done => done = true
  | .wait => True
  | .polled r => r = .ready

/-- What a handle can say before the work has ended. -/
def Response.Unsettled (op : Op) (a : Response) : Prop :=
  a = .isDone false ∨ a = .polled .pending ∨ (op = .write ∧ a = .take none)

/-- Answers that all say what the outcome `o` says, up to the buffer, which can be taken once. -/
def Coherent (op : Op) (o : Outcome) (as : List Response) : Prop :=
  ∀ (i : Nat) (a : Response), as[i]? = some a → a.Fits op o (Taken (as.take i))

namespace Ticket

variable {t : Ticket}

theorem kept_after (hd : t.isDone = true) (a : Accessor) : t.Kept (t.after a) := by
  cases a with
  | isDone | wait => exact .refl t
  | take => exact kept_of_change (O := fun _ => False) hd (.take hd)
  | poll waker => exact kept_of_change (O := fun _ => False) hd (.poll waker)
  | _ => exact kept_of_change (O := fun _ => False) hd (.look hd)

theorem fixed_after (t : Ticket) (a : Accessor) :
    (t.after a).op = t.op ∧ (t.after a).dropped = t.dropped := by
  have hl : t.look.2.op = t.op ∧ t.look.2.dropped = t.dropped := by
    unfold look
    split <;> exact ⟨rfl, rfl⟩
  cases a with
  | isDone | wait | poll => exact ⟨rfl, rfl⟩
  | take =>
    show t.take.2.op = t.op ∧ t.take.2.dropped = t.dropped
    unfold take
    split
    · exact ⟨rfl, rfl⟩
    · dsimp only
      split <;> exact hl
  | _ => exact hl

theorem op_after (t : Ticket) (a : Accessor) : (t.after a).op = t.op := (t.fixed_after a).1

theorem dropped_after (t : Ticket) (a : Accessor) : (t.after a).dropped = t.dropped := (t.fixed_after a).2

theorem outcome_take (t : Ticket) :
    (∃ b, t.op = .read ∧ t.outcome.buffer = .owned b ∧ t.take.1 = some b ∧
        t.take.2.outcome = { t.outcome with buffer := .none }) ∨
      ((t.op = .write ∨ ∀ b, t.outcome.buffer ≠ .owned b) ∧ t.take.1 = none ∧
        t.take.2.outcome = t.outcome) := by
  unfold take
  cases hop : t.op with
  | write => exact Or.inr ⟨Or.inl rfl, rfl, rfl⟩
  | read =>
    dsimp only
    split
    · next b hb => exact Or.inl ⟨b, rfl, hb, rfl, rfl⟩
    · next hb => exact Or.inr ⟨Or.inr hb, rfl, outcome_look t⟩

theorem answers_two_takes {t : Ticket} {b : Buffer} (hop : t.op = .read)
    (hb : t.outcome.buffer = .owned b) : t.answers [.take, .take] = [.take (some b), .take none] := by
  rcases t.outcome_take with ⟨b', -, hb', htake, ho⟩ | ⟨hnone, -⟩
  · obtain rfl : b' = b := WorkBuffer.owned.inj (hb'.symm.trans hb)
    rcases t.take.2.outcome_take with ⟨b', -, hb', -⟩ | ⟨-, hagain, -⟩
    · rw [ho] at hb'
      cases hb'
    · show [Response.take t.take.1, .take t.take.2.take.1] = _
      rw [htake, hagain]
  · rcases hnone with hw | hn
    · cases hop.symm.trans hw
    · exact absurd hb (hn b)

theorem outcome_after (hd : t.isDone = true) {a : Accessor} (ha : a ≠ .take) :
    (t.after a).outcome = t.outcome := by
  cases a with
  | take => exact absurd rfl ha
  | isDone | wait => rfl
  | poll waker =>
    unfold after
    dsimp only
    rw [poll_of_raised (e := t.done) hd]
  | _ => exact outcome_look t

end Ticket

namespace Response

variable {op : Op} {o : Outcome} {P Q : Prop} {a : Response}

theorem Fits.congr (h : a.Fits op o P) (hiff : P ↔ Q) : a.Fits op o Q := by
  rwa [← propext hiff]

/-- Where there is no buffer, it does not matter whether it was taken. -/
theorem Fits.taken (h : a.Fits op { o with buffer := .none } P) : a.Fits op o True := by
  have hshown : { o with buffer := .none }.shown = none := by
    unfold Outcome.shown
    cases o.result <;> rfl
  have hterminated : { o with buffer := .none }.terminated op = none := rfl
  cases a with
  | buffer bytes =>
    refine ⟨fun _ => ?_, fun hn => absurd trivial hn⟩
    by_cases hp : P
    · exact h.1 hp
    · exact (h.2 hp).trans hshown
  | terminated bytes =>
    refine ⟨fun _ => ?_, fun hn => absurd trivial hn⟩
    by_cases hp : P
    · exact h.1 hp
    · exact (h.2 hp).trans hterminated
  | take b =>
    cases b with
    | none => exact Or.inr (Or.inl trivial)
    | some b => cases h.2.2
  | _ => exact h

end Response

theorem Taken.cons_iff {a : Response} {as : List Response} (ha : ∀ b, a ≠ .take (some b)) :
    Taken (a :: as) ↔ Taken as := by
  constructor
  · rintro ⟨b, hb⟩
    rcases List.mem_cons.mp hb with rfl | hb
    · exact absurd rfl (ha b)
    · exact ⟨b, hb⟩
  · rintro ⟨b, hb⟩
    exact ⟨b, List.mem_cons_of_mem _ hb⟩

namespace Coherent

variable {op : Op} {o : Outcome} {a : Response} {as : List Response}

theorem nil (op : Op) (o : Outcome) : Coherent op o [] := fun _ _ h => by cases h

theorem cons (h : Coherent op o as) (ha : a.Fits op o False) (hn : ∀ b, a ≠ .take (some b)) :
    Coherent op o (a :: as) := by
  intro i x hx
  cases i with
  | zero =>
    obtain rfl : a = x := Option.some.inj hx
    exact ha.congr ⟨False.elim, fun ⟨_, hb⟩ => absurd hb List.not_mem_nil⟩
  | succ i => exact (h i x hx).congr (Taken.cons_iff hn).symm

theorem take {b : Buffer} (h : Coherent op { o with buffer := .none } as) (hop : op = .read)
    (hb : o.buffer = .owned b) : Coherent op o (.take (some b) :: as) := by
  intro i x hx
  cases i with
  | zero =>
    obtain rfl : Response.take (some b) = x := Option.some.inj hx
    exact ⟨hop, fun ⟨_, hb⟩ => absurd hb List.not_mem_nil, hb⟩
  | succ i =>
    exact (h i x hx).taken.congr ⟨fun _ => ⟨b, List.mem_cons_self ..⟩, fun _ => trivial⟩

theorem once (h : Coherent op o as) {i j : Nat} {b b' : Buffer} (hi : as[i]? = some (.take (some b)))
    (hj : as[j]? = some (.take (some b'))) : i = j := by
  have hle : ∀ {i j : Nat} {b b' : Buffer}, as[i]? = some (.take (some b)) →
      as[j]? = some (.take (some b')) → ¬ i < j := by
    intro i j b b' hi hj hlt
    refine (h j _ hj).2.1 ⟨b, List.mem_of_getElem? (i := i) ?_⟩
    rw [List.getElem?_take_of_lt hlt, hi]
  have := hle hi hj
  have := hle hj hi
  omega

theorem not_taken (h : Coherent .write o as) : ¬ Taken as := by
  rintro ⟨b, hb⟩
  obtain ⟨i, hi⟩ := List.getElem?_of_mem hb
  cases (h i _ hi).1

end Coherent

namespace Ticket

theorem fits_answer {t : Ticket} (hd : t.isDone = true) {a : Accessor} (ha : a ≠ .take) :
    (t.answer a).Fits t.op t.outcome False := by
  cases a with
  | take => exact absurd rfl ha
  | result | statusCode | size => rfl
  | buffer => exact ⟨False.elim, fun _ => t.buffer_eq⟩
  | terminated => exact ⟨False.elim, fun _ => t.terminated_eq⟩
  | isDone => exact hd
  | wait => trivial
  | poll waker =>
    have hr : t.done.raised = true := hd
    show (t.done.poll waker).1 = .ready
    unfold Event.poll
    rw [if_pos hr]

/-- Whatever is asked of the handle of work that has ended, in whatever order, its answers are coherent. -/
theorem coherent_answers {t : Ticket} (hd : t.isDone = true) (as : List Accessor) :
    Coherent t.op t.outcome (t.answers as) := by
  induction as generalizing t with
  | nil => exact .nil _ _
  | cons a as ih =>
    have hk := t.kept_after hd a
    have hrest := ih (hk.isDone hd)
    rw [hk.op] at hrest
    by_cases ha : a = .take
    · subst ha
      show Coherent t.op t.outcome (.take t.take.1 :: t.take.2.answers as)
      rcases t.outcome_take with ⟨b, hop, hb, htake, ho⟩ | ⟨hnone, htake, ho⟩
      · rw [htake]
        exact (ho ▸ hrest).take hop hb
      · rw [htake]
        exact (ho ▸ hrest).cons (hnone.imp_right Or.inr) (by simp)
    · rw [outcome_after hd ha] at hrest
      refine hrest.cons (fits_answer hd ha) fun b hb => ?_
      cases a <;> first | exact ha rfl | cases hb

/-- Before the work has ended, a call that does not wait for that has little to answer. -/
theorem pending_answer {t : Ticket} (hc : t.Consistent) (hp : t.isDone = false) {a : Accessor}
    (ha : a.waits t.op = false) : (t.answer a).Unsettled t.op := by
  cases a with
  | isDone => exact Or.inl (congrArg Response.isDone hp)
  | poll waker =>
    refine Or.inr (Or.inl (congrArg Response.polled ?_))
    have hr : t.done.raised = false := hp
    unfold Event.poll Event.register
    rw [hr, hc.latched_of_pending hp]
    simp only [Bool.false_eq_true, if_false]
    split <;> rfl
  | take =>
    have hop : t.op = .write := by
      cases hop : t.op with
      | write => rfl
      | read => rw [hop] at ha; cases ha
    refine Or.inr (Or.inr ⟨hop, congrArg Response.take ?_⟩)
    unfold take
    rw [hop]
  | _ => cases ha

theorem pending_after {t : Ticket} (hp : t.isDone = false) {a : Accessor} (ha : a.waits t.op = false) :
    (t.after a).isDone = false := by
  cases a with
  | isDone => exact hp
  | poll waker => exact (raised_poll t.done waker).1.trans hp
  | take =>
    have hsame : t.take.2 = t := by
      unfold take
      cases hop : t.op with
      | write => rfl
      | read => rw [hop] at ha; cases ha
    exact (congrArg isDone hsame).trans hp
  | _ => cases ha

end Ticket

end FilePipeline
