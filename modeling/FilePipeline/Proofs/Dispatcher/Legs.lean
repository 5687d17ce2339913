import FilePipeline.Proofs.Dispatcher.Halting
import FilePipeline.Proofs.Queue.Steps
import FilePipeline.Proofs.Stage.Identity

/-! # The round of the pill

As long as no worker crashes there is one pill, and it makes one round: from the stopping to the I/O
worker, on to the compression worker, and back. `Leg` says how far it is, and `Leg.task` and `Leg.items`
what each worker may then be about to do and what its queue may hold: behind the pill the I/O queue
has only writes, which come back from the compression stage; an I/O worker that serves only writes
hands nothing over; and so the compression queue gets nothing behind the pill.

The lemmas say what popping, processing and handing over keep of that. -/

namespace FilePipeline.Dispatcher

/-- Where the pill is. -/
inductive Leg where
  /-- Not pushed yet. -/
  | before
  /-- On its way to the I/O worker for the first time. -/
  | toIo
  | atIo
  | toCompression
  | atCompression
  /-- On its way to the I/O worker for the second time. -/
  | back
  /-- Taken by the I/O worker for the second time. -/
  | home
  deriving DecidableEq

def OnlyWrites (is : List (Item Work)) : Prop := ∀ i ∈ is, ∃ w, i = .work w ∧ w.op = .write

namespace Leg

/-- Whether the I/O worker has passed the pill on. -/
def drains : Leg → Bool
  | .before | .toIo | .atIo => false
  | .toCompression | .atCompression | .back | .home => true

/-- What a worker may be about to do. -/
def task : Leg → Stage → Task → Prop
  | .before, _, t | .toIo, _, t => t.post = .serving
  | .atIo, .io, t => t = .relaying
  | .toCompression, .io, t | .atCompression, .io, t | .back, .io, t =>
    t = .idle ∨ ∃ w, t = .busy w ∧ w.op = .write
  | .home, .io, t => t = .leaving false ∨ t = .gone false
  | .atIo, .compression, t | .toCompression, .compression, t => t.post = .serving
  | .atCompression, .compression, t => t = .relaying
  | .back, .compression, t | .home, .compression, t => t = .leaving false ∨ t = .gone false

/-- What a queue may hold. -/
def items : Leg → Stage → List (Item Work) → Prop
  | .before, _, is => .pill ∉ is
  | .toIo, .io, is => ∃ is₁ is₂, is = is₁ ++ .pill :: is₂ ∧ .pill ∉ is₁ ∧ OnlyWrites is₂
  | .atIo, .io, is | .toCompression, .io, is | .atCompression, .io, is => OnlyWrites is
  | .back, .io, is => ∃ is₁, is = is₁ ++ [.pill] ∧ OnlyWrites is₁
  | .home, .io, is => is = []
  | .toIo, .compression, is | .atIo, .compression, is => .pill ∉ is
  | .toCompression, .compression, is => ∃ is₁, is = is₁ ++ [.pill] ∧ .pill ∉ is₁
  | .atCompression, .compression, is | .back, .compression, is | .home, .compression, is => is = []

variable {l : Leg} {s : Stage}

theorem onlyWrites_append {is : List (Item Work)} {w : Work} (h : OnlyWrites is)
    (hw : w.op = .write) : OnlyWrites (is ++ [.work w]) := by
  intro i hi
  rcases List.mem_append.mp hi with hi | hi
  · exact h i hi
  · obtain rfl := List.mem_singleton.mp hi
    exact ⟨w, rfl, hw⟩

theorem onlyWrites_tail {is : List (Item Work)} {w : Work} (h : OnlyWrites (.work w :: is)) :
    OnlyWrites is ∧ w.op = .write := by
  obtain ⟨v, hv, hop⟩ := h _ List.mem_cons_self
  cases hv
  exact ⟨fun i hi => h i (List.mem_cons_of_mem _ hi), hop⟩

theorem not_onlyWrites_pill {is : List (Item Work)} : ¬ OnlyWrites (.pill :: is) := by
  intro h
  obtain ⟨w, hw, -⟩ := h _ List.mem_cons_self
  cases hw

theorem pill_not_mem_append {is : List (Item Work)} {w : Work} (h : .pill ∉ is) :
    .pill ∉ is ++ [.work w] := by
  intro hi
  rcases List.mem_append.mp hi with hi | hi
  · exact h hi
  · cases List.mem_singleton.mp hi

theorem cons_work_eq {is is₁ is₂ : List (Item Work)} {w : Work}
    (h : .work w :: is = is₁ ++ .pill :: is₂) :
    ∃ is₁', is₁ = .work w :: is₁' ∧ is = is₁' ++ .pill :: is₂ := by
  cases is₁ with
  | nil => cases h
  | cons i is₁ =>
    rw [List.cons_append] at h
    cases h
    exact ⟨is₁, rfl, rfl⟩

theorem cons_pill_eq {is is₁ is₂ : List (Item Work)} (h : .pill :: is = is₁ ++ .pill :: is₂)
    (hn : .pill ∉ is₁) : is = is₂ := by
  cases is₁ with
  | nil => cases h; rfl
  | cons i is₁ =>
    rw [List.cons_append] at h
    cases h
    exact absurd List.mem_cons_self hn

theorem task_idle {t : Task} (h : l.task s t) (ht : t.post = .serving) : l.task s .idle := by
  cases l <;> cases s <;> first | exact rfl | exact Or.inl rfl | skip
  · rw [show t = .relaying from h] at ht
    cases ht
  · rw [show t = .relaying from h] at ht
    cases ht
  · rcases (show t = .leaving false ∨ t = .gone false from h) with rfl | rfl <;> cases ht
  · rcases (show t = .leaving false ∨ t = .gone false from h) with rfl | rfl <;> cases ht
  · rcases (show t = .leaving false ∨ t = .gone false from h) with rfl | rfl <;> cases ht

theorem items_tail {is : List (Item Work)} {w : Work} (h : l.items s (.work w :: is))
    (ht : l.task s .idle) : l.items s is ∧ l.task s (.busy w) := by
  cases l <;> cases s
  case before.io | before.compression => exact ⟨fun hp => h (List.mem_cons_of_mem _ hp), rfl⟩
  case toIo.io =>
    obtain ⟨is₁, is₂, he, hp, hw⟩ := h
    obtain ⟨is₁', rfl, rfl⟩ := cons_work_eq he
    exact ⟨⟨is₁', is₂, rfl, fun hn => hp (List.mem_cons_of_mem _ hn), hw⟩, rfl⟩
  case toIo.compression | atIo.compression =>
    exact ⟨fun hp => h (List.mem_cons_of_mem _ hp), rfl⟩
  case toCompression.io | atCompression.io =>
    obtain ⟨hw, hop⟩ := onlyWrites_tail h
    exact ⟨hw, Or.inr ⟨w, rfl, hop⟩⟩
  case toCompression.compression =>
    obtain ⟨is₁, he, hp⟩ := h
    obtain ⟨is₁', rfl, rfl⟩ := cons_work_eq he
    exact ⟨⟨is₁', rfl, fun hn => hp (List.mem_cons_of_mem _ hn)⟩, rfl⟩
  case back.io =>
    obtain ⟨is₁, he, hw⟩ := h
    obtain ⟨is₁', rfl, rfl⟩ := cons_work_eq he
    obtain ⟨hw', hop⟩ := onlyWrites_tail hw
    exact ⟨⟨is₁', rfl, hw'⟩, Or.inr ⟨w, rfl, hop⟩⟩
  case atIo.io => cases ht
  all_goals cases h

theorem items_append {is : List (Item Work)} {w : Work} (h : l.items s.peer is)
    (ht : l.task s (.handing w)) (hh : handsOn s w = true) : l.items s.peer (is ++ [.work w]) := by
  have hop : s = .compression → w.op = .write := by
    rintro rfl
    exact beq_iff_eq.mp hh
  cases l <;> cases s
  case before.io | before.compression | toIo.io => exact pill_not_mem_append h
  case toIo.compression =>
    obtain ⟨is₁, is₂, rfl, hp, hw⟩ := h
    exact ⟨is₁, is₂ ++ [.work w], by simp, hp, onlyWrites_append hw (hop rfl)⟩
  case atIo.compression | toCompression.compression => exact onlyWrites_append h (hop rfl)
  case toCompression.io | atCompression.io | back.io => rcases ht with ht | ⟨v, ht, -⟩ <;> cases ht
  case home.io | back.compression | home.compression => rcases ht with ht | ht <;> cases ht
  all_goals cases ht

/-- A pill that is popped: the leg it was on, and what was behind it. -/
theorem items_pill {is : List (Item Work)} (h : l.items s (.pill :: is)) (ht : l.task s .idle) :
    (l = .toIo ∧ s = .io ∧ OnlyWrites is) ∨ (l = .back ∧ s = .io ∧ is = []) ∨
      (l = .toCompression ∧ s = .compression ∧ is = []) := by
  cases l <;> cases s
  case toIo.io =>
    obtain ⟨is₁, is₂, he, hp, hw⟩ := h
    rw [cons_pill_eq he hp]
    exact Or.inl ⟨rfl, rfl, hw⟩
  case back.io =>
    obtain ⟨is₁, he, hw⟩ := h
    have hp : Item.pill ∉ is₁ := by
      intro hp
      obtain ⟨w, hpw, -⟩ := hw _ hp
      cases hpw
    exact Or.inr (Or.inl ⟨rfl, rfl, cons_pill_eq he hp⟩)
  case toCompression.compression =>
    obtain ⟨is₁, he, hp⟩ := h
    exact Or.inr (Or.inr ⟨rfl, rfl, cons_pill_eq he hp⟩)
  case before.io | before.compression | toIo.compression | atIo.compression =>
    exact absurd List.mem_cons_self h
  case atIo.io => cases ht
  case toCompression.io | atCompression.io => exact absurd h not_onlyWrites_pill
  all_goals cases h

theorem task_handing {w w' : Work} (h : l.task s (.busy w)) (hw : w'.SameAs w)
    (hh : handsOn s w' = true) : l.task s (.handing w') := by
  cases l <;> cases s
  case toCompression.io | atCompression.io | back.io =>
    rcases h with h | ⟨v, h, hop⟩
    · cases h
    · -- the I/O worker hands no write over
      cases h
      simp [handsOn, hw.op, hop] at hh
  case atIo.io | atCompression.compression => cases h
  case home.io | back.compression | home.compression => rcases h with h | h <;> cases h
  all_goals rfl

end Leg

end FilePipeline.Dispatcher
