import FilePipeline.Queue

/-! # What each step does to a queue

A push is accepted exactly while the queue is open and has a free slot; forwarding needs no slot, only
that the queue is open. Popping takes the oldest entry, and closing takes all of them.
`works` is the queue without its pills: what the steps do to it is all that the whereabouts of work
depend on. `Sound` is what the queue keeps about its slots. -/

namespace FilePipeline

variable {α : Type}

/-- The piece of work an item carries. -/
def Item.work? : Item α → Option α
  | .work w => some w
  | .pill => none

def Item.works (is : List (Item α)) : List α := is.filterMap Item.work?

theorem Item.mem_works {is : List (Item α)} {w : α} : w ∈ Item.works is ↔ .work w ∈ is := by
  unfold Item.works
  rw [List.mem_filterMap]
  constructor
  · rintro ⟨i, hi, hw⟩
    cases i with
    | work v => rw [← Option.some.inj hw]; exact hi
    | pill => cases hw
  · exact fun h => ⟨_, h, rfl⟩

namespace Queue

def works (q : Queue α) : List α := Item.works q.items

/-! ### When a step can be made -/

theorem offer_eq_accepted {q q' : Queue α} {i : Item α} (h : q.offer i = .accepted q') :
    q.closed = false ∧ q.admitted < q.capacity ∧ q' = q.append i true := by
  unfold offer at h
  split at h
  · simp at h
  · next hc =>
    split at h
    · simp at h
    · next ha =>
      cases h
      exact ⟨by simpa using hc, by omega, rfl⟩

theorem offer_of_lt {q : Queue α} (i : Item α) (hc : q.closed = false)
    (ha : q.admitted < q.capacity) : q.offer i = .accepted (q.append i true) := by
  unfold offer
  rw [if_neg (by simp [hc]), if_neg (by omega)]

theorem forward?_eq_some {q q' : Queue α} {i : Item α} (h : q.forward? i = some q') :
    q.closed = false ∧ q' = q.append i false := by
  unfold forward? at h
  split at h
  · simp at h
  · next hc => cases h; exact ⟨by simpa using hc, rfl⟩

theorem forward?_of_open {q : Queue α} (i : Item α) (hc : q.closed = false) :
    q.forward? i = some (q.append i false) := by
  unfold forward?
  rw [if_neg (by simp [hc])]

theorem forward?_of_closed {q : Queue α} (i : Item α) (hc : q.closed = true) :
    q.forward? i = none := by
  unfold forward?
  rw [if_pos hc]

/-- A popped item is the oldest entry, or the pill that a closed queue without entries yields. -/
theorem pop?_eq_item {q q' : Queue α} {i : Item α} (h : q.pop? = .item i q') :
    (∃ c rest, q.entries = ⟨i, c⟩ :: rest ∧
      q' = { q with entries := rest, admitted := if c then q.admitted - 1 else q.admitted }) ∨
    (q.entries = [] ∧ q.closed = true ∧ i = .pill ∧ q' = q) := by
  unfold pop? at h
  split at h
  · next e rest he => cases h; exact Or.inl ⟨e.counted, rest, he, rfl⟩
  · next he =>
    split at h
    · next hc => cases h; exact Or.inr ⟨he, hc, rfl, rfl⟩
    · simp at h

theorem pop?_eq_work {q q' : Queue α} {w : α} (h : q.pop? = .item (.work w) q') :
    ∃ c rest, q.entries = ⟨.work w, c⟩ :: rest ∧
      q' = { q with entries := rest, admitted := if c then q.admitted - 1 else q.admitted } := by
  rcases pop?_eq_item h with h | ⟨-, -, h, -⟩
  · exact h
  · simp at h

/-! ### What it does to the work in the queue -/

theorem items_append (q : Queue α) (i : Item α) (c : Bool) :
    (q.append i c).items = q.items ++ [i] := by
  simp [items, append]

@[simp] theorem works_append_work (q : Queue α) (w : α) (c : Bool) :
    (q.append (.work w) c).works = q.works ++ [w] := by
  simp [works, Item.works, items, append, Item.work?]

@[simp] theorem works_append_pill (q : Queue α) (c : Bool) :
    (q.append .pill c).works = q.works := by
  simp [works, Item.works, items, append, Item.work?]

@[simp] theorem works_close (q : Queue α) : q.close.2.works = [] := rfl

theorem works_pop_work {q q' : Queue α} {w : α} (h : q.pop? = .item (.work w) q') :
    q.works = w :: q'.works := by
  obtain ⟨c, rest, he, rfl⟩ := pop?_eq_work h
  simp [works, Item.works, items, he, Item.work?]

theorem works_pop_pill {q q' : Queue α} (h : q.pop? = .item .pill q') : q'.works = q.works := by
  rcases pop?_eq_item h with ⟨c, rest, he, rfl⟩ | ⟨-, -, -, rfl⟩
  · simp only [works, items, he, List.map_cons]
    rfl
  · rfl

/-! ### Slots -/

/-- The entries that take a slot. -/
def slotsTaken (q : Queue α) : Nat := q.entries.countP Entry.counted

/-- The slots are counted right, there are never more taken than there are, and a closed queue is
    empty. -/
structure Sound (q : Queue α) : Prop where
  admitted : q.admitted = q.slotsTaken
  bound : q.admitted ≤ q.capacity
  closed : q.closed = true → q.entries = []

theorem sound_ofCapacity (n : Nat) : (ofCapacity n : Queue α).Sound :=
  ⟨rfl, Nat.zero_le _, fun _ => rfl⟩

theorem Sound.offer {q q' : Queue α} {i : Item α} (h : q.Sound) (ho : q.offer i = .accepted q') :
    q'.Sound ∧ q'.capacity = q.capacity := by
  obtain ⟨hc, ha, rfl⟩ := offer_eq_accepted ho
  refine ⟨⟨?_, ?_, ?_⟩, rfl⟩
  · have := h.admitted
    simpa [append, slotsTaken] using this
  · exact ha
  · intro hc'
    rw [show (q.append i true).closed = q.closed from rfl, hc] at hc'
    cases hc'

theorem Sound.forward {q q' : Queue α} {i : Item α} (h : q.Sound)
    (hf : q.forward? i = some q') : q'.Sound ∧ q'.capacity = q.capacity := by
  obtain ⟨hc, rfl⟩ := forward?_eq_some hf
  refine ⟨⟨?_, ?_, ?_⟩, rfl⟩
  · have := h.admitted
    simpa [append, slotsTaken] using this
  · simpa [append] using h.bound
  · intro hc'
    rw [show (q.append i false).closed = q.closed from rfl, hc] at hc'
    cases hc'

theorem Sound.pop {q q' : Queue α} {i : Item α} (h : q.Sound) (hp : q.pop? = .item i q') :
    q'.Sound ∧ q'.capacity = q.capacity := by
  rcases pop?_eq_item hp with ⟨c, rest, he, rfl⟩ | ⟨-, -, -, rfl⟩
  · have ha := h.admitted
    have hb := h.bound
    have hc := h.closed
    rw [he] at hc
    refine ⟨⟨?_, ?_, fun h => by simp at hc; simp [hc] at h⟩, rfl⟩
    · cases c
      · simpa [slotsTaken, he] using ha
      · simp only [slotsTaken, he, List.countP_cons, if_true] at ha ⊢
        omega
    · cases c
      · simpa using hb
      · simp only [if_true]
        omega
  · exact ⟨h, rfl⟩

theorem sound_close (q : Queue α) : q.close.2.Sound := ⟨rfl, Nat.zero_le _, fun _ => rfl⟩

end Queue

end FilePipeline
