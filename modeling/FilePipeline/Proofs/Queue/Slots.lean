import FilePipeline.Proofs.Queue.Histories

/-! # The slots of a queue

What is pushed takes a slot until it is popped or the queue is closed, and what is forwarded takes none.
Every attempt keeps the count of taken slots right (`Sound.attempt`). So it is right at any time
(`sound_after`), and since the entries of an open queue are the accepted ones that no pop has taken yet
(`entries_after`), the slots taken are those of the pushes among them. Whether a push is admitted at once
depends on nothing else (`slots_exact`). -/

namespace FilePipeline.Queue

variable {α : Type} {q : Queue α}

/-! ### Single attempts -/

theorem attempt_pop_of_cons {e : Entry α} {rest : List (Entry α)} (he : q.entries = e :: rest) :
    q.attempt .pop = (.popped e.item, q.without e rest) := by
  unfold attempt pop?
  rw [he]
  rfl

theorem attempt_forward_of_open (hopen : q.closed = false) (i : Item α) :
    q.attempt (.forward i) = (.pushed .accepted, q.append i false) := by
  unfold attempt
  dsimp only
  rw [forward?_of_open i hopen]

/-- An open queue accepts a push at once exactly if a slot is free. -/
theorem accepts_push_iff (hopen : q.closed = false) (i : Item α) :
    (q.attempt (.push i)).1 = .pushed .accepted ↔ q.admitted < q.capacity := by
  by_cases hroom : q.admitted < q.capacity
  · unfold attempt
    dsimp only
    rw [offer_of_lt i hopen hroom]
    exact ⟨fun _ => hroom, fun _ => rfl⟩
  · have hfull : q.offer i = .full := by
      unfold offer
      rw [if_neg (ne_true_of_eq_false hopen), if_pos (Nat.not_lt.mp hroom)]
    unfold attempt
    dsimp only
    rw [hfull]
    exact ⟨(fun h => by cases h), fun h => absurd h hroom⟩

/-- No attempt spoils the count of slots or changes their number. -/
theorem Sound.attempt (h : q.Sound) (c : Call α) :
    (q.attempt c).2.Sound ∧ (q.attempt c).2.capacity = q.capacity := by
  obtain ⟨a, q', heq, hattempt⟩ := attempted q c
  rw [heq]
  cases hattempt with
  | @accepted _ e _ hopen hroom =>
    cases hcounted : e.counted with
    | true => exact h.offer (offer_of_lt e.item hopen (hroom hcounted))
    | false => exact h.forward (forward?_of_open e.item hopen)
  | full | rejected | empty | shutdown => exact ⟨h, rfl⟩
  | @taken e rest he =>
    refine h.pop (i := e.item) ?_
    unfold pop?
    rw [he]
    rfl
  | closed => exact ⟨sound_close q, rfl⟩

/-! ### Whole histories -/

theorem Sound.after (h : q.Sound) (cs : List (Call α)) :
    (q.after cs).Sound ∧ (q.after cs).capacity = q.capacity := by
  induction cs generalizing q with
  | nil => exact ⟨h, rfl⟩
  | cons c cs ih =>
    obtain ⟨hsound, hcapacity⟩ := h.attempt c
    obtain ⟨hsound', hcapacity'⟩ := ih hsound
    exact ⟨hsound', hcapacity'.trans hcapacity⟩

theorem sound_after (n : Nat) (cs : List (Call α)) :
    ((ofCapacity n).after cs).Sound ∧ ((ofCapacity n).after cs).capacity = max n 1 :=
  (sound_ofCapacity n).after cs

/-- The accepted entries that no pop has taken. -/
def untaken (vs : List (Visit α)) : List (Entry α) := (accepted vs).drop (returned vs).length

theorem entries_after (n : Nat) (cs : List (Call α)) (hopen : ((ofCapacity n).after cs).closed = false) :
    ((ofCapacity n).after cs).entries = untaken (visits (ofCapacity n) cs) := by
  obtain ⟨taken, rest, h⟩ := exists_conserved (q := ofCapacity n) rfl cs
  have haccepted : accepted (visits (ofCapacity n) cs) = taken ++ rest := h.entries
  unfold untaken
  rw [haccepted, ← h.returned, List.length_map, List.drop_left, h.still hopen]

/-- What the clients of a new queue have made of its slots after the calls `cs`. -/
structure SlotsExact (n : Nat) (cs : List (Call α)) (q : Queue α) : Prop where
  /-- In an open queue there are the accepted entries that were not popped yet, and those of them that
      were pushed take a slot each. -/
  entries : q.closed = false → q.entries = untaken (visits (ofCapacity n) cs)
  admitted : q.admitted = q.entries.countP Entry.counted
  bound : q.admitted ≤ max n 1
  /-- Popping an entry that was pushed frees its slot, and there is one to be freed. -/
  pushed : ∀ e rest, q.entries = e :: rest → e.counted = true →
    0 < q.admitted ∧ (q.attempt .pop).2.admitted + 1 = q.admitted
  /-- Popping an entry that was forwarded frees none. -/
  forwarded : ∀ e rest, q.entries = e :: rest → e.counted = false →
    (q.attempt .pop).2.admitted = q.admitted
  /-- A push is accepted at the first attempt exactly if fewer pushed entries are queued than there are
      slots, whatever else is queued. -/
  push : q.closed = false → ∀ i, ((q.attempt (.push i)).1 = .pushed .accepted ↔
    q.entries.countP Entry.counted < max n 1)
  /-- What is forwarded never waits and takes no slot. -/
  forward : q.closed = false → ∀ i, (q.attempt (.forward i)).1 = .pushed .accepted ∧
    (q.attempt (.forward i)).2.admitted = q.admitted
  /-- A closed queue is empty, and nobody has to wait for a slot there. -/
  closed : q.closed = true → q.entries = [] ∧ q.admitted = 0 ∧
    ∀ i, (q.attempt (.push i)).1 = .pushed (.rejected i)

/-- In every state that the clients of a queue can reach, the slots are those of the pushes that are
    queued. -/
theorem slots_exact (n : Nat) (cs : List (Call α)) : SlotsExact n cs ((ofCapacity n).after cs) := by
  obtain ⟨hsound, hcapacity⟩ := sound_after n cs
  have hentries := entries_after n cs
  generalize (ofCapacity n).after cs = q at hsound hcapacity hentries ⊢
  refine ⟨hentries, hsound.admitted, hcapacity ▸ hsound.bound, fun e rest he hcounted => ?_,
    fun e rest he hcounted => ?_, fun hopen i => ?_, fun hopen i => ?_, fun hclosed => ?_⟩
  · have hpos : 0 < q.admitted := by
      rw [hsound.admitted]
      unfold slotsTaken
      rw [he, List.countP_cons_of_pos hcounted]
      exact Nat.succ_pos _
    have hleft : (q.without e rest).admitted = q.admitted - 1 := if_pos hcounted
    rw [attempt_pop_of_cons he, hleft]
    exact ⟨hpos, Nat.sub_add_cancel hpos⟩
  · rw [attempt_pop_of_cons he]
    exact if_neg (ne_true_of_eq_false hcounted)
  · have hcount : q.entries.countP Entry.counted = q.admitted := hsound.admitted.symm
    rw [hcount, ← hcapacity]
    exact accepts_push_iff hopen i
  · rw [attempt_forward_of_open hopen]
    exact ⟨rfl, rfl⟩
  · have hempty := hsound.closed hclosed
    refine ⟨hempty, ?_, fun i => ?_⟩
    · rw [hsound.admitted]
      unfold slotsTaken
      rw [hempty]
      rfl
    · exact (attempt_of_shut ⟨hclosed, hempty⟩ (.push i)).1

end FilePipeline.Queue
