import FilePipeline.Stats
import Mathlib.Algebra.GroupWithZero.Nat
import Mathlib.Data.List.Perm.Basic

/-! # Counting in any order

Additions to the counters commute, so the counters after many of them depend on which additions were
made and not on their order (`foldl_tick_perm`): each counter holds the sum of what was added to it, as
far as that fits (`get_foldl_tick`). -/

namespace FilePipeline.Stats

theorem ext_get {s s' : Stats} (h : ∀ c, s.get c = s'.get c) : s = s' := by
  have h1 := h .readsSubmitted
  have h2 := h .writesSubmitted
  have h3 := h .completed
  have h4 := h .failed
  have h5 := h .bytesRead
  have h6 := h .bytesWritten
  cases s
  cases s'
  simp only [get] at h1 h2 h3 h4 h5 h6
  rw [h1, h2, h3, h4, h5, h6]

@[simp] theorem get_set_self (s : Stats) (v : Nat) (c : Counter) : (s.set v c).get c = v := by
  cases c <;> rfl

theorem get_set_of_ne (s : Stats) (v : Nat) {c c' : Counter} (h : c ≠ c') :
    (s.set v c).get c' = s.get c' := by
  cases c <;> cases c' <;> first | rfl | exact absurd rfl h

theorem get_tick (s : Stats) (t : Tick) (c : Counter) :
    (s.tick t).get c =
      if t.counter = c then (s.get c + t.amount) % (Size.max + 1) else s.get c := by
  unfold tick
  split
  · next h => subst h; exact get_set_self _ _ _
  · next h => exact get_set_of_ne _ _ h

theorem tick_comm (s : Stats) (a b : Tick) : (s.tick a).tick b = (s.tick b).tick a := by
  apply ext_get
  intro c
  simp only [get_tick]
  by_cases ha : a.counter = c <;> by_cases hb : b.counter = c <;> simp only [ha, hb, if_true,
    if_false]
  rw [Nat.mod_add_mod, Nat.mod_add_mod, Nat.add_right_comm]

instance : RightCommutative tick := ⟨tick_comm⟩

theorem foldl_tick_perm {l l' : List Tick} (h : l.Perm l') (s : Stats) :
    l.foldl tick s = l'.foldl tick s := h.foldl_eq s

/-- What additions add to a counter, all together. -/
def added (c : Counter) (l : List Tick) : Nat :=
  (l.map fun t => if t.counter = c then t.amount else 0).sum

@[simp] theorem added_nil (c : Counter) : added c [] = 0 := rfl

@[simp] theorem added_cons (c : Counter) (t : Tick) (l : List Tick) :
    added c (t :: l) = (if t.counter = c then t.amount else 0) + added c l := rfl

theorem added_append (c : Counter) (l l' : List Tick) : added c (l ++ l') = added c l + added c l' := by
  simp [added]

theorem added_flatMap {α : Type} (c : Counter) (f : α → List Tick) (l : List α) :
    added c (l.flatMap f) = (l.map fun a => added c (f a)).sum := by
  induction l with
  | nil => rfl
  | cons a l ih =>
    rw [List.flatMap_cons, List.map_cons, List.sum_cons, ← ih]
    simp [added]

/-- A counter wraps, and nothing else is lost. -/
theorem get_foldl_tick (c : Counter) (l : List Tick) {s : Stats} (h : s.get c ≤ Size.max) :
    (l.foldl tick s).get c = (s.get c + added c l) % (Size.max + 1) := by
  induction l generalizing s with
  | nil =>
    have hlt : s.get c < Size.max + 1 := by omega
    simp [Nat.mod_eq_of_lt hlt]
  | cons t l ih =>
    have hle : (s.tick t).get c ≤ Size.max := by
      rw [get_tick]
      split
      · exact Nat.le_of_lt_succ (Nat.mod_lt _ (Nat.succ_pos _))
      · exact h
    rw [List.foldl_cons, ih hle, get_tick, added_cons]
    split
    · rw [Nat.mod_add_mod, Nat.add_assoc]
    · rw [Nat.zero_add]

end FilePipeline.Stats
