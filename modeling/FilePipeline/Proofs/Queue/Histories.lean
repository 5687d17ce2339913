import FilePipeline.Proofs.Queue.Steps
import FilePipeline.Queue.Clients

/-! # Histories of a queue

Any number of clients call a queue, and each attempt of a call is one step under the queue's lock
(`attempt`). So a history is a list of attempts, in the order in which they got the lock: a call that has
to wait stands there once for each time that it was tried in vain, and once more where it is served. What
an attempt can come to is `Attempted`; `visits` keeps with each attempt the queue that it found.

As long as a queue is open, what was in it and what it has accepted since then is what pops have taken out
and what is in it now, in this order (`exists_conserved`). Once it is closed nothing goes in or comes out
any more (`visits_of_shut`). So a queue is a line in which nothing is lost (`lossless`). -/

namespace FilePipeline.Queue

variable {α : Type}

/-- What a client asks of a queue. -/
inductive Call (α : Type) where
  | push (i : Item α)
  | forward (i : Item α)
  | pop
  | close

namespace Call

/-- The entry that is to be put in: what is pushed takes a slot, what is forwarded does not. -/
def entry? : Call α → Option (Entry α)
  | .push i => some ⟨i, true⟩
  | .forward i => some ⟨i, false⟩
  | .pop | .close => none

/-- What a closed queue answers. -/
def refusal : Call α → Answer α
  | .push i | .forward i => .pushed (.rejected i)
  | .pop => .popped .pill
  | .close => .closed []

end Call

/-- One attempt of a call: the answer, and the queue afterwards. A client who is told to wait makes
    another attempt later. -/
def attempt (q : Queue α) : Call α → Answer α × Queue α
  | .push i =>
    match q.offer i with
    | .accepted q' => (.pushed .accepted, q')
    | .full => (.waits, q)
    | .rejected => (.pushed (.rejected i), q)
  | .forward i =>
    match q.forward? i with
    | some q' => (.pushed .accepted, q')
    | none => (.pushed (.rejected i), q)
  | .pop =>
    match q.pop? with
    | .item i q' => (.popped i, q')
    | .empty => (.waits, q)
  | .close => (.closed q.close.1, q.close.2)

/-- The queue after its oldest entry, `e`, was taken and `rest` was left. -/
def without (q : Queue α) (e : Entry α) (rest : List (Entry α)) : Queue α :=
  { q with entries := rest, admitted := if e.counted then q.admitted - 1 else q.admitted }

/-- All that an attempt can come to. -/
inductive Attempted (q : Queue α) : Call α → Answer α → Queue α → Prop
  | accepted {c : Call α} {e : Entry α} (hc : c.entry? = some e) (hopen : q.closed = false)
      (hroom : e.counted = true → q.admitted < q.capacity) :
      Attempted q c (.pushed .accepted) (q.append e.item e.counted)
  | full {i : Item α} (hopen : q.closed = false) (hfull : q.capacity ≤ q.admitted) :
      Attempted q (.push i) .waits q
  | rejected {c : Call α} {e : Entry α} (hc : c.entry? = some e) (hclosed : q.closed = true) :
      Attempted q c (.pushed (.rejected e.item)) q
  | taken {e : Entry α} {rest : List (Entry α)} (he : q.entries = e :: rest) :
      Attempted q .pop (.popped e.item) (q.without e rest)
  | empty (he : q.entries = []) (hopen : q.closed = false) : Attempted q .pop .waits q
  /-- The pill that nobody has put in. -/
  | shutdown (he : q.entries = []) (hclosed : q.closed = true) : Attempted q .pop (.popped .pill) q
  | closed : Attempted q .close (.closed q.items) q.close.2

theorem attempted (q : Queue α) (c : Call α) :
    ∃ a q', q.attempt c = (a, q') ∧ Attempted q c a q' := by
  cases c with
  | push i =>
    unfold attempt offer
    dsimp only
    by_cases hclosed : q.closed = true
    · rw [if_pos hclosed]
      exact ⟨_, _, rfl, .rejected (e := ⟨i, true⟩) rfl hclosed⟩
    · have hopen : q.closed = false := eq_false_of_ne_true hclosed
      rw [if_neg hclosed]
      by_cases hfull : q.capacity ≤ q.admitted
      · rw [if_pos hfull]
        exact ⟨_, _, rfl, .full hopen hfull⟩
      · rw [if_neg hfull]
        exact ⟨_, _, rfl, .accepted (e := ⟨i, true⟩) rfl hopen fun _ => Nat.not_le.mp hfull⟩
  | forward i =>
    unfold attempt forward?
    dsimp only
    by_cases hclosed : q.closed = true
    · rw [if_pos hclosed]
      exact ⟨_, _, rfl, .rejected (e := ⟨i, false⟩) rfl hclosed⟩
    · rw [if_neg hclosed]
      exact ⟨_, _, rfl,
        .accepted (e := ⟨i, false⟩) rfl (eq_false_of_ne_true hclosed) fun h => by cases h⟩
  | pop =>
    unfold attempt pop?
    dsimp only
    cases he : q.entries with
    | cons e rest => exact ⟨_, _, rfl, .taken he⟩
    | nil =>
      dsimp only
      by_cases hclosed : q.closed = true
      · rw [if_pos hclosed]
        exact ⟨_, _, rfl, .shutdown he hclosed⟩
      · rw [if_neg hclosed]
        exact ⟨_, _, rfl, .empty he (eq_false_of_ne_true hclosed)⟩
  | close => exact ⟨_, _, rfl, .closed⟩

/-! ### Histories -/

/-- An attempt in a history, with the queue that it found. -/
structure Visit (α : Type) where
  found : Queue α
  call : Call α

namespace Visit

def answer (v : Visit α) : Answer α := (v.found.attempt v.call).1

/-- The queue that it left. -/
def left (v : Visit α) : Queue α := (v.found.attempt v.call).2

/-- The entry that was accepted, if one was. -/
def accepted (v : Visit α) : List (Entry α) :=
  match v.answer with
  | .pushed .accepted => v.call.entry?.toList
  | _ => []

/-- The item that a pop has returned, if it found an entry. -/
def returned (v : Visit α) : List (Item α) :=
  match v.answer, v.found.entries with
  | .popped i, _ :: _ => [i]
  | _, _ => []

/-- All items that a close has drained, as one list. -/
def drained (v : Visit α) : List (List (Item α)) :=
  match v.answer with
  | .closed is => [is]
  | _ => []

end Visit

/-- The attempts that are made when the clients of `q` make these calls. -/
def visits (q : Queue α) : List (Call α) → List (Visit α)
  | [] => []
  | c :: cs => ⟨q, c⟩ :: visits (q.attempt c).2 cs

/-- The queue after these attempts. -/
def after (q : Queue α) : List (Call α) → Queue α
  | [] => q
  | c :: cs => after (q.attempt c).2 cs

/-- The entries that were accepted, in order of acceptance. -/
def accepted (vs : List (Visit α)) : List (Entry α) := vs.flatMap Visit.accepted

/-- What pops that found an entry have returned. -/
def returned (vs : List (Visit α)) : List (Item α) := vs.flatMap Visit.returned

/-- What each close has drained. -/
def drains (vs : List (Visit α)) : List (List (Item α)) := vs.flatMap Visit.drained

variable {q : Queue α} {c : Call α} {cs : List (Call α)} {v : Visit α} {vs vs₁ vs₂ : List (Visit α)}

theorem accepted_cons (v : Visit α) (vs : List (Visit α)) :
    accepted (v :: vs) = v.accepted ++ accepted vs := List.flatMap_cons

theorem returned_cons (v : Visit α) (vs : List (Visit α)) :
    returned (v :: vs) = v.returned ++ returned vs := List.flatMap_cons

theorem drains_cons (v : Visit α) (vs : List (Visit α)) :
    drains (v :: vs) = v.drained ++ drains vs := List.flatMap_cons

theorem Visit.attempted (v : Visit α) : Attempted v.found v.call v.answer v.left := by
  obtain ⟨a, q', heq, h⟩ := Queue.attempted v.found v.call
  unfold answer left
  rw [heq]
  exact h

theorem visits_after (h : visits q cs = vs₁ ++ v :: vs₂) : ∃ cs', vs₂ = visits v.left cs' := by
  induction cs generalizing q vs₁ with
  | nil => exact absurd h.symm (List.append_ne_nil_of_right_ne_nil _ (List.cons_ne_nil _ _))
  | cons c cs ih =>
    cases vs₁ with
    | nil =>
      obtain ⟨rfl, rfl⟩ := List.cons.inj h
      exact ⟨cs, rfl⟩
    | cons u vs₁ => exact ih (List.cons.inj h).2

/-! ### Closed queues -/

/-- The queue is closed, and so it is empty. -/
structure Shut (q : Queue α) : Prop where
  closed : q.closed = true
  empty : q.entries = []

theorem shut_close (q : Queue α) : q.close.2.Shut := ⟨rfl, rfl⟩

theorem attempt_of_shut (h : q.Shut) (c : Call α) :
    (q.attempt c).1 = c.refusal ∧ (q.attempt c).2.Shut := by
  have closed : q.closed ≠ false := fun hopen => Bool.false_ne_true (hopen.symm.trans h.closed)
  obtain ⟨a, q', heq, hattempt⟩ := attempted q c
  rw [heq]
  cases hattempt with
  | accepted _ hopen => exact absurd hopen closed
  | full hopen => exact absurd hopen closed
  | rejected hc =>
    refine ⟨?_, h⟩
    cases c <;> cases hc <;> rfl
  | taken he => cases h.empty.symm.trans he
  | empty _ hopen => exact absurd hopen closed
  | shutdown => exact ⟨rfl, h⟩
  | closed =>
    refine ⟨?_, shut_close q⟩
    unfold items
    rw [h.empty]
    rfl

theorem visits_of_shut (h : q.Shut) (cs : List (Call α)) :
    ∀ v ∈ visits q cs, v.found.Shut ∧ v.answer = v.call.refusal := by
  induction cs generalizing q with
  | nil => exact fun v hv => absurd hv List.not_mem_nil
  | cons c cs ih =>
    obtain ⟨hanswer, hshut⟩ := attempt_of_shut h c
    intro v hv
    rcases List.mem_cons.mp hv with rfl | hv
    · exact ⟨h, hanswer⟩
    · exact ih hshut v hv

theorem after_of_shut (h : q.Shut) (cs : List (Call α)) : (after q cs).Shut := by
  induction cs generalizing q with
  | nil => exact h
  | cons c cs ih => exact ih (attempt_of_shut h c).2

theorem nothing_of_shut (h : q.Shut) (cs : List (Call α)) :
    accepted (visits q cs) = [] ∧ returned (visits q cs) = [] := by
  have hshut := visits_of_shut h cs
  refine ⟨List.flatMap_eq_nil_iff.mpr fun v hv => ?_, List.flatMap_eq_nil_iff.mpr fun v hv => ?_⟩
  · unfold Visit.accepted
    rw [(hshut v hv).2]
    cases v.call <;> rfl
  · unfold Visit.returned
    rw [(hshut v hv).1.empty]
    cases v.answer <;> rfl

/-! ### Open queues -/

/-- What one attempt at an open queue does to its entries: it lets them be but for what it accepts and what
    it returns, or it is a close and drains them. -/
theorem Visit.conserves (v : Visit α) (hopen : v.found.closed = false) :
    (v.left.closed = false ∧ v.drained = [] ∧ ∃ taken, taken.map Entry.item = v.returned ∧
      v.found.entries ++ v.accepted = taken ++ v.left.entries) ∨
    (v.left.Shut ∧ v.drained = [v.found.items] ∧ v.accepted = [] ∧ v.returned = []) := by
  have open' : v.found.closed ≠ true := fun hclosed => Bool.false_ne_true (hopen.symm.trans hclosed)
  have hattempt := v.attempted
  unfold Visit.accepted Visit.returned Visit.drained
  generalize v.answer = a at hattempt ⊢
  generalize v.left = q' at hattempt ⊢
  generalize v.call = c at hattempt ⊢
  cases hattempt with
  | accepted hc => exact Or.inl ⟨hopen, rfl, [], rfl, by rw [hc]; rfl⟩
  | full | empty => exact Or.inl ⟨hopen, rfl, [], rfl, List.append_nil _⟩
  | rejected _ hclosed => exact absurd hclosed open'
  | shutdown _ hclosed => exact absurd hclosed open'
  | @taken e rest he =>
    refine Or.inl ⟨hopen, rfl, [e], ?_, ?_⟩
    · rw [he]
      rfl
    · rw [he, List.append_nil]
      rfl
  | closed => exact Or.inr ⟨shut_close _, rfl, rfl, rfl⟩

/-- What became of the entries of a queue and of those that it accepted: `taken` was returned by pops, and
    `rest` was drained by the first close or is still there. -/
structure Conserved (q : Queue α) (cs : List (Call α)) (taken rest : List (Entry α)) : Prop where
  entries : q.entries ++ accepted (visits q cs) = taken ++ rest
  returned : taken.map Entry.item = returned (visits q cs)
  left : rest.map Entry.item = (drains (visits q cs)).head?.getD (after q cs).items
  still : (after q cs).closed = false → rest = (after q cs).entries

theorem exists_conserved (hopen : q.closed = false) (cs : List (Call α)) :
    ∃ taken rest, Conserved q cs taken rest := by
  induction cs generalizing q with
  | nil => exact ⟨[], q.entries, List.append_nil _, rfl, rfl, fun _ => rfl⟩
  | cons c cs ih =>
    let v : Visit α := ⟨q, c⟩
    have hvisits : visits q (c :: cs) = v :: visits v.left cs := rfl
    have hafter : after q (c :: cs) = after v.left cs := rfl
    rcases v.conserves hopen with ⟨hleft, hdrained, out, hout, hentries⟩ |
      ⟨hshut, hdrained, haccepted, hreturned⟩
    · obtain ⟨taken, rest, h⟩ := ih hleft
      refine ⟨out ++ taken, rest, ?_, ?_, ?_, h.still⟩
      · rw [hvisits, accepted_cons, ← List.append_assoc, hentries, List.append_assoc, h.entries,
          List.append_assoc]
      · rw [hvisits, returned_cons, List.map_append, hout, h.returned]
      · rw [hvisits, drains_cons, hdrained, List.nil_append, hafter]
        exact h.left
    · -- from the close on nothing happens any more
      obtain ⟨hnone, hnothing⟩ := nothing_of_shut hshut cs
      refine ⟨[], q.entries, ?_, ?_, ?_, fun hopen => ?_⟩
      · rw [hvisits, accepted_cons, haccepted, hnone]
        exact List.append_nil _
      · rw [hvisits, returned_cons, hreturned, hnothing]
        rfl
      · rw [hvisits, drains_cons, hdrained]
        rfl
      · rw [hafter, (after_of_shut hshut cs).closed] at hopen
        cases hopen

/-! ### Nothing is lost -/

/-- What the clients of a new queue find that make the calls `cs`. -/
structure Lossless (n : Nat) (cs : List (Call α)) : Prop where
  /-- What pops that found an entry have returned, and then what the first close has drained or what is
      still queued, is what was accepted, in order of acceptance. -/
  line : returned (visits (ofCapacity n) cs) ++ (drains (visits (ofCapacity n) cs)).head?.getD
      (after (ofCapacity n) cs).items = (accepted (visits (ofCapacity n) cs)).map Entry.item
  /-- What is to be put in is rejected exactly by a closed queue, and is handed back then as it was. -/
  rejected : ∀ v ∈ visits (ofCapacity n) cs, ∀ e, v.call.entry? = some e →
    (v.found.closed = true → v.answer = .pushed (.rejected e.item)) ∧
      ∀ i, v.answer = .pushed (.rejected i) → v.found.closed = true ∧ i = e.item
  /-- A pop returns the oldest entry. Without any, it waits, or it returns a pill that nobody has put in,
      if the queue is closed. -/
  popped : ∀ v ∈ visits (ofCapacity n) cs, v.call = .pop →
    (∀ e rest, v.found.entries = e :: rest → v.answer = .popped e.item) ∧
      (v.found.entries = [] → v.found.closed = false → v.answer = .waits) ∧
      (v.found.entries = [] → v.found.closed = true → v.answer = .popped .pill)
  /-- From the first close on, every push and forward is rejected, every pop returns a pill, and no close
      drains anything. -/
  closed : ∀ vs₁ v vs₂, visits (ofCapacity n) cs = vs₁ ++ v :: vs₂ → v.call = .close →
    ∀ u ∈ vs₂, u.answer = u.call.refusal

/-- A queue of any capacity, with any number of clients whose attempts come in any order, is a line in
    which nothing is lost, repeated or overtaken. -/
theorem lossless (n : Nat) (cs : List (Call α)) : Lossless n cs where
  line := by
    obtain ⟨taken, rest, h⟩ := exists_conserved (q := ofCapacity n) rfl cs
    rw [← h.returned, ← h.left, ← List.map_append, ← h.entries]
    rfl
  rejected := by
    intro v _ e he
    have hattempt := v.attempted
    generalize v.answer = a at hattempt ⊢
    generalize v.left = q' at hattempt
    generalize v.call = c at hattempt he
    refine ⟨fun hclosed => ?_, fun i hi => ?_⟩
    · have closed : v.found.closed ≠ false := fun hopen => Bool.false_ne_true (hopen.symm.trans hclosed)
      cases hattempt with
      | accepted _ hopen => exact absurd hopen closed
      | full hopen => exact absurd hopen closed
      | rejected hc =>
        obtain rfl := Option.some.inj (hc.symm.trans he)
        rfl
      | taken | empty | shutdown | closed => cases he
    · subst hi
      cases hattempt with
      | rejected hc hclosed => exact ⟨hclosed, congrArg Entry.item (Option.some.inj (hc.symm.trans he))⟩
  popped := by
    intro v _ hpop
    unfold Visit.answer attempt
    rw [hpop]
    dsimp only
    unfold pop?
    refine ⟨fun e rest he => ?_, fun he hopen => ?_, fun he hclosed => ?_⟩
    · rw [he]
    · rw [he, hopen]
      rfl
    · rw [he, hclosed]
      rfl
  closed := by
    intro vs₁ v vs₂ hvs hclose u hu
    obtain ⟨cs', rfl⟩ := visits_after hvs
    have hshut : v.left.Shut := by
      unfold Visit.left
      rw [hclose]
      exact shut_close v.found
    exact (visits_of_shut hshut cs' u hu).2

end FilePipeline.Queue
