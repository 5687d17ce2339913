import FilePipeline.Proofs.Stats.Ticks
import Mathlib.Algebra.Order.BigOperators.Group.List
import Mathlib.Algebra.Order.Group.Nat
import Mathlib.Logic.Relation

/-! # Snapshots in the middle of counting

Any number of threads count submissions and completions while others take snapshots. Every addition to a
counter and every load of one is a step of its own, and between two steps of one thread the others may
make any steps of theirs (`Counting.Step`, `Counting.Run`). What holds of every snapshot all the same is
`Reader.Untorn`, and `Run.untorn` proves it. It rests on two orders: a completion adds to `completed`
last, and a snapshot loads `completed` first. So whatever the later loads find, it includes all that the
works in `completed` have added.

A submission is one addition and so one step, `Stats.recordSubmitted`. A completion that nobody interrupts
is `Stats.recordCompleted` (`Run.complete`), and such a snapshot is the counters as they are
(`Run.snapshot`). -/

namespace FilePipeline.Counting

open Stats

/-- What a piece of work ended with, and its size then. -/
abbrev Ending : Type := Except WorkError Unit × Nat

/-- What an ended piece of work contributes to a counter. -/
def Ending.contribution (op : Op) (e : Ending) : Counter → Nat
  | .completed => 1
  | .failed => if e.1 = .ok () then 0 else 1
  | .bytesRead => if e.1 = .ok () ∧ op = .read then e.2 else 0
  | .bytesWritten => if e.1 = .ok () ∧ op = .write then e.2 else 0
  | _ => 0

theorem added_completion (op : Op) (e : Ending) (c : Counter) :
    added c (completion op e.1 e.2) = e.contribution op c := by
  obtain ⟨r, n⟩ := e
  rcases r with _ | ⟨⟨⟩⟩ <;> cases op <;> cases c <;> rfl

/-- A completion adds to `completed` last. -/
theorem completion_eq (op : Op) (r : Except WorkError Unit) (n : Nat) :
    ∃ t, completion op r n = [t, ⟨.completed, 1⟩] ∧ t.counter ≠ .completed := by
  rcases r with _ | ⟨⟨⟩⟩ <;> cases op <;> exact ⟨_, rfl, Counter.noConfusion⟩

/-- A piece of work as far as it is counted. -/
structure Job where
  op : Op
  /-- What it ended with, from when its completion begins to be counted. -/
  ended : Option Ending := none
  /-- The additions made for it so far. -/
  made : List Tick
  /-- The additions that its completion still has to make, in order. -/
  left : List Tick := []

namespace Job

/-- A piece of work that has just been submitted. -/
def submitted (op : Op) : Job := { op, made := [submission op] }

/-- The work when its completion begins to be counted. -/
def close (j : Job) (e : Ending) : Job :=
  { j with ended := some e, left := completion j.op e.1 e.2 }

/-- The work when the next addition of its completion has been made. -/
def count (j : Job) (t : Tick) (ts : List Tick) : Job := { j with made := j.made ++ [t], left := ts }

/-- The work when its completion has been counted. -/
def finish (j : Job) (e : Ending) : Job :=
  { j with ended := some e, made := j.made ++ completion j.op e.1 e.2, left := [] }

/-- What the work has completed with, all additions made. -/
def completedWith (j : Job) : Option Ending := if j.left = [] then j.ended else none

/-- What a completed piece of work contributes to a counter. -/
def contribution (c : Counter) (j : Job) : Nat := j.completedWith.elim 0 (·.contribution j.op c)

/-- All additions that the work asks for, those still to be made included. -/
def account (j : Job) : List Tick :=
  submission j.op :: j.ended.elim [] fun e => completion j.op e.1 e.2

/-- The additions are made in order, and the first of them with the submission itself. -/
structure Orderly (j : Job) : Prop where
  account : j.made ++ j.left = j.account
  counted : j.made ≠ []

theorem Orderly.submitted (op : Op) : (Job.submitted op).Orderly := ⟨rfl, List.cons_ne_nil _ _⟩

theorem Orderly.made_of_open {j : Job} (h : j.Orderly) (ho : j.ended = none) :
    j.made = [submission j.op] := by
  have hall := h.account
  rw [Job.account, ho, Option.elim_none] at hall
  rcases List.append_eq_singleton_iff.mp hall with ⟨hm, _⟩ | ⟨hm, _⟩
  · exact absurd hm h.counted
  · exact hm

theorem Orderly.close {j : Job} (h : j.Orderly) (ho : j.ended = none) (e : Ending) :
    (j.close e).Orderly :=
  ⟨by rw [Job.close, h.made_of_open ho]; rfl, h.counted⟩

theorem Orderly.count {j : Job} (h : j.Orderly) {t : Tick} {ts : List Tick} (hl : j.left = t :: ts) :
    (j.count t ts).Orderly where
  account := by
    rw [← show j.made ++ j.left = (j.count t ts).account from h.account, hl]
    exact List.append_assoc _ _ _
  counted := List.append_ne_nil_of_left_ne_nil h.counted _

theorem Orderly.exists_made {j : Job} (h : j.Orderly) : ∃ ts,
    j.made = submission j.op :: ts ∧ ts ++ j.left = j.ended.elim [] fun e => completion j.op e.1 e.2 := by
  have hall := h.account
  cases hm : j.made with
  | nil => exact absurd hm h.counted
  | cons t ts =>
    rw [hm, Job.account, List.cons_append, List.cons.injEq] at hall
    exact ⟨ts, by rw [hall.1], hall.2⟩

/-- Every submission counts once, as a read or as a write. -/
theorem Orderly.added_submitted {j : Job} (h : j.Orderly) :
    added .readsSubmitted j.made + added .writesSubmitted j.made = 1 := by
  obtain ⟨ts, hm, hts⟩ := h.exists_made
  have hnone : ∀ c, c = .readsSubmitted ∨ c = .writesSubmitted → added c ts = 0 := by
    intro c hc
    have hall : added c (ts ++ j.left) = 0 := by
      rw [hts]
      cases j.ended with
      | none => rfl
      | some e =>
        rw [Option.elim_some, added_completion]
        rcases hc with rfl | rfl <;> rfl
    rw [added_append] at hall
    omega
  rw [hm, added_cons, added_cons, hnone _ (.inl rfl), hnone _ (.inr rfl)]
  cases j.op <;> rfl

/-- The addition to `completed` is the last one: it is made when all the others are. -/
theorem Orderly.added_completed {j : Job} (h : j.Orderly) :
    added .completed j.made = j.contribution .completed := by
  obtain ⟨ts, hm, hts⟩ := h.exists_made
  have hsub : added .completed j.made = added .completed ts := by
    rw [hm, added_cons]
    cases j.op <;> exact Nat.zero_add _
  rw [hsub, Job.contribution, completedWith]
  cases hj : j.ended with
  | none =>
    rw [hj, Option.elim_none] at hts
    rw [(List.append_eq_nil_iff.mp hts).1, ite_self]
    rfl
  | some e =>
    rw [hj, Option.elim_some] at hts
    split
    · next hl =>
      rw [hl, List.append_nil] at hts
      rw [hts, added_completion]
      rfl
    · next hl =>
      obtain ⟨t, hct, ht⟩ := completion_eq j.op e.1 e.2
      rw [hct] at hts
      rcases ts with _ | ⟨t', _ | ⟨t'', us⟩⟩
      · rfl
      · obtain ⟨rfl, _⟩ := List.cons.inj hts
        rw [added_cons, if_neg ht]
        rfl
      · simp only [List.cons_append, List.cons.injEq, List.append_eq_nil_iff] at hts
        exact absurd hts.2.2.2 hl

theorem Orderly.added_failed_le {j : Job} (h : j.Orderly) : added .failed j.made ≤ 1 := by
  obtain ⟨ts, hm, hts⟩ := h.exists_made
  have hsub : added .failed j.made = added .failed ts := by
    rw [hm, added_cons]
    cases j.op <;> exact Nat.zero_add _
  have hall : added .failed (ts ++ j.left) ≤ 1 := by
    rw [hts]
    cases j.ended with
    | none => exact Nat.zero_le _
    | some e =>
      rw [Option.elim_some, added_completion, Ending.contribution]
      split <;> omega
  rw [added_append] at hall
  omega

theorem Orderly.contribution_le {j : Job} (h : j.Orderly) (c : Counter) :
    j.contribution c ≤ added c j.made := by
  obtain ⟨ts, hm, hts⟩ := h.exists_made
  rw [Job.contribution, completedWith]
  split
  · next hl =>
    cases hj : j.ended with
    | none => exact Nat.zero_le _
    | some e =>
      rw [hj, hl, List.append_nil, Option.elim_some] at hts
      rw [hm, hts, added_cons, Option.elim_some, added_completion]
      exact Nat.le_add_left _ _
  · exact Nat.zero_le _

end Job

/-- What has been added to a counter for all of these pieces of work. -/
def total (c : Counter) (js : List Job) : Nat := (js.map fun j => added c j.made).sum

/-- What those of these pieces of work contribute to a counter that are complete. -/
def contributed (c : Counter) (js : List Job) : Nat := (js.map (Job.contribution c)).sum

section Totals

variable {js : List Job}

theorem total_append (c : Counter) (js js' : List Job) :
    total c (js ++ js') = total c js + total c js' := by
  simp [total]

theorem total_cons (c : Counter) (j : Job) (js : List Job) :
    total c (j :: js) = added c j.made + total c js := rfl

theorem total_submitted (h : ∀ j ∈ js, j.Orderly) :
    total .readsSubmitted js + total .writesSubmitted js = js.length := by
  induction js with
  | nil => rfl
  | cons j js ih =>
    have hj := (h j (List.mem_cons_self ..)).added_submitted
    have hjs := ih fun j hj => h j (List.mem_cons_of_mem _ hj)
    rw [total_cons, total_cons, List.length_cons]
    omega

theorem total_completed (h : ∀ j ∈ js, j.Orderly) :
    total .completed js = contributed .completed js :=
  congrArg List.sum (List.map_congr_left fun j hj => (h j hj).added_completed)

theorem contributed_le_total (h : ∀ j ∈ js, j.Orderly) (c : Counter) :
    contributed c js ≤ total c js :=
  List.sum_le_sum fun j hj => (h j hj).contribution_le c

theorem total_failed_le (h : ∀ j ∈ js, j.Orderly) : total .failed js ≤ js.length := by
  induction js with
  | nil => exact Nat.le_refl _
  | cons j js ih =>
    have hj := (h j (List.mem_cons_self ..)).added_failed_le
    have hjs := ih fun j hj => h j (List.mem_cons_of_mem _ hj)
    rw [total_cons, List.length_cons]
    omega

theorem contributed_completed (js : List Job) :
    contributed .completed js = (js.filterMap Job.completedWith).length := by
  induction js with
  | nil => rfl
  | cons j js ih =>
    rw [contributed, List.map_cons, List.sum_cons, ← contributed, ih, Job.contribution]
    cases hj : j.completedWith with
    | none => rw [List.filterMap_cons_none hj]; exact Nat.zero_add _
    | some e => rw [List.filterMap_cons_some hj]; exact Nat.add_comm _ _

end Totals

/-- A snapshot that is being taken. -/
structure Reader where
  left : List Counter := loadOrder
  values : Stats := {}
  /-- All work as it was when `completed` was loaded. No step depends on it. -/
  since : List Job := []

/-- The snapshot after a load. -/
def Reader.load (r : Reader) (s : Stats) (js : List Job) (c : Counter) (cs : List Counter) : Reader where
  left := cs
  values := r.values.set (s.get c) c
  since := if c = .completed then js else r.since

end FilePipeline.Counting

namespace FilePipeline

open Stats Counting

/-- The counters, the work that is counted in them and the snapshots that are taken of them. -/
structure Counting where
  stats : Stats := {}
  jobs : List Job := []
  readers : List Reader := []

namespace Counting

/-- One step of some thread. -/
inductive Step (s : Counting) : Counting → Prop
  | submitted (op : Op) :
      Step s { s with stats := s.stats.recordSubmitted op, jobs := s.jobs ++ [Job.submitted op] }
  /-- A piece of work ends. It is not counted yet. -/
  | closed {before after : List Job} {j : Job} (hj : s.jobs = before ++ j :: after)
      (ho : j.ended = none) (e : Ending) :
      Step s { s with jobs := before ++ j.close e :: after }
  | counted {before after : List Job} {j : Job} {t : Tick} {ts : List Tick}
      (hj : s.jobs = before ++ j :: after) (hl : j.left = t :: ts) :
      Step s { s with stats := s.stats.tick t, jobs := before ++ j.count t ts :: after }
  | began : Step s { s with readers := s.readers ++ [{}] }
  | loaded {before after : List Reader} {r : Reader} {c : Counter} {cs : List Counter}
      (hr : s.readers = before ++ r :: after) (hl : r.left = c :: cs) :
      Step s { s with readers := before ++ r.load s.stats s.jobs c cs :: after }

/-- Any number of steps of any threads. -/
abbrev Run : Counting → Counting → Prop := Relation.ReflTransGen Step

/-- What a snapshot has loaded, as long as it goes on. -/
structure Reader.Fair (js : List Job) (r : Reader) : Prop where
  orderly : ∀ j ∈ r.since, j.Orderly
  grown : ∀ c, total c r.since ≤ total c js
  /-- Every value is what was counted at some moment, and `completed` was loaded before the others. -/
  loaded : ∃ cs, cs ++ r.left = loadOrder ∧ ∀ c ∈ cs, ∃ v, r.values.get c = v % (Size.max + 1) ∧
    total c r.since ≤ v ∧ v ≤ total c js ∧ (c = .completed → v = total c r.since)

/-- The work is counted as far as it says, and the snapshots have loaded what was counted. -/
structure Fair (s : Counting) : Prop where
  orderly : ∀ j ∈ s.jobs, j.Orderly
  stats : ∀ c, s.stats.get c = total c s.jobs % (Size.max + 1)
  readers : ∀ r ∈ s.readers, r.Fair s.jobs

theorem Reader.Fair.mono {js js' : List Job} {r : Reader} (h : r.Fair js)
    (hle : ∀ c, total c js ≤ total c js') : r.Fair js' where
  orderly := h.orderly
  grown := fun c => (h.grown c).trans (hle c)
  loaded := by
    obtain ⟨cs, hcs, hv⟩ := h.loaded
    refine ⟨cs, hcs, fun c hc => ?_⟩
    obtain ⟨v, hget, hge, hlt, hfirst⟩ := hv c hc
    exact ⟨v, hget, hge, Nat.le_trans hlt (hle c), hfirst⟩

theorem Reader.Fair.load {s : Counting} {r : Reader} {c : Counter} {cs : List Counter}
    (hs : s.Fair) (h : r.Fair s.jobs) (hl : r.left = c :: cs) :
    (r.load s.stats s.jobs c cs).Fair s.jobs := by
  obtain ⟨done, hdone, hv⟩ := h.loaded
  rw [hl] at hdone
  have hnew : ∃ v, (r.load s.stats s.jobs c cs).values.get c = v % (Size.max + 1) ∧
      v = total c s.jobs := ⟨_, (get_set_self ..).trans (hs.stats c), rfl⟩
  cases done with
  | nil =>
    -- the first load is that of `completed`
    obtain ⟨rfl, _⟩ := List.cons.inj hdone
    obtain ⟨v, hget, rfl⟩ := hnew
    refine ⟨hs.orderly, fun _ => Nat.le_refl _, [.completed], hdone, fun c' hc' => ?_⟩
    obtain rfl := List.mem_singleton.mp hc'
    exact ⟨_, hget, Nat.le_refl _, Nat.le_refl _, fun _ => rfl⟩
  | cons c₁ done =>
    have hnodup : ((c₁ :: done) ++ c :: cs).Nodup := hdone ▸ (by decide : loadOrder.Nodup)
    have hc : ∀ c' ∈ c₁ :: done, c' ≠ c := fun c' hc' =>
      (List.nodup_append.mp hnodup).2.2 c' hc' c (List.mem_cons_self ..)
    obtain ⟨rfl, _⟩ := List.cons.inj hdone
    have hne : c ≠ .completed := (hc _ (List.mem_cons_self ..)).symm
    have hsince : (r.load s.stats s.jobs c cs).since = r.since := if_neg hne
    refine ⟨hsince ▸ h.orderly, hsince ▸ h.grown, .completed :: done ++ [c], ?_, fun c' hc' => ?_⟩
    · exact (List.append_assoc ..).trans hdone
    · rw [hsince]
      rcases List.mem_append.mp hc' with hc' | hc'
      · rw [show (r.load s.stats s.jobs c cs).values.get c' = r.values.get c' from
          get_set_of_ne _ _ (hc c' hc').symm]
        exact hv c' hc'
      · obtain rfl := List.mem_singleton.mp hc'
        obtain ⟨v, hget, rfl⟩ := hnew
        exact ⟨_, hget, h.grown _, Nat.le_refl _, fun he => absurd he hne⟩

theorem Fair.init : Fair {} where
  orderly := fun _ h => absurd h List.not_mem_nil
  stats := fun c => by cases c <;> rfl
  readers := fun _ h => absurd h List.not_mem_nil

theorem total_replace (c : Counter) (before after : List Job) (j : Job) :
    total c (before ++ j :: after) = added c j.made + total c (before ++ after) := by
  rw [total_append, total_append, total_cons]
  omega

theorem Fair.get_tick {s : Counting} (h : s.Fair) (t : Tick) (c : Counter) :
    (s.stats.tick t).get c = (total c s.jobs + added c [t]) % (Size.max + 1) := by
  have hle : s.stats.get c ≤ Size.max := by
    rw [h.stats c]
    exact Nat.le_of_lt_succ (Nat.mod_lt _ (Nat.succ_pos _))
  have hget := get_foldl_tick c [t] hle
  rwa [h.stats c, Nat.mod_add_mod] at hget

/-- Every step leaves the account right. An addition is entered where it belongs, so the sums only grow. -/
theorem Fair.step {s s' : Counting} (h : s.Fair) (hs : Step s s') : s'.Fair := by
  cases hs with
  | submitted op =>
    have htotal (c : Counter) : total c (s.jobs ++ [Job.submitted op]) =
        total c s.jobs + added c [submission op] := by rw [total_append]; rfl
    refine ⟨List.forall_mem_append.mpr ⟨h.orderly, ?_⟩, fun c => ?_, fun r hr => ?_⟩
    · exact List.forall_mem_singleton.mpr (Job.Orderly.submitted op)
    · rw [htotal]
      exact h.get_tick _ c
    · exact (h.readers r hr).mono fun c => htotal c ▸ Nat.le_add_right _ _
  | @closed before after j hj ho e =>
    have hjob := List.forall_mem_append.mp (hj ▸ h.orderly)
    have hrest := List.forall_mem_cons.mp hjob.2
    have htotal (c : Counter) : total c (before ++ j.close e :: after) = total c s.jobs := by
      rw [hj, total_replace, total_replace]
      rfl
    refine ⟨List.forall_mem_append.mpr ⟨hjob.1, List.forall_mem_cons.mpr ⟨?_, hrest.2⟩⟩,
      fun c => ?_, fun r hr => ?_⟩
    · exact hrest.1.close ho e
    · rw [htotal]
      exact h.stats c
    · exact (h.readers r hr).mono fun c => (htotal c).ge
  | @counted before after j t ts hj hl =>
    have hjob := List.forall_mem_append.mp (hj ▸ h.orderly)
    have hrest := List.forall_mem_cons.mp hjob.2
    have htotal (c : Counter) : total c (before ++ j.count t ts :: after) =
        total c s.jobs + added c [t] := by
      rw [hj, total_replace, total_replace, Job.count, added_append]
      omega
    refine ⟨List.forall_mem_append.mpr ⟨hjob.1, List.forall_mem_cons.mpr ⟨?_, hrest.2⟩⟩,
      fun c => ?_, fun r hr => ?_⟩
    · exact hrest.1.count hl
    · rw [htotal]
      exact h.get_tick _ c
    · exact (h.readers r hr).mono fun c => htotal c ▸ Nat.le_add_right _ _
  | began =>
    refine ⟨h.orderly, h.stats, List.forall_mem_append.mpr ⟨h.readers, ?_⟩⟩
    refine List.forall_mem_singleton.mpr ⟨fun _ hj => absurd hj List.not_mem_nil, fun c => ?_, [], rfl, ?_⟩
    · exact Nat.zero_le _
    · exact fun _ hc => absurd hc List.not_mem_nil
  | @loaded before after r c cs hr hl =>
    have hread := List.forall_mem_append.mp (hr ▸ h.readers)
    have hrest := List.forall_mem_cons.mp hread.2
    have hload := hrest.1.load h hl
    exact ⟨h.orderly, h.stats, List.forall_mem_append.mpr
      ⟨hread.1, List.forall_mem_cons.mpr ⟨hload, hrest.2⟩⟩⟩

theorem Run.fair {s : Counting} (h : Run {} s) : s.Fair := by
  induction h with
  | refl => exact Fair.init
  | tail _ hs ih => exact ih.step hs

section Uninterrupted

/-- The rest of a completion, when nobody interrupts it. -/
theorem Run.count_all {ts : List Tick} {s : Counting} {before after : List Job} {j : Job}
    (hj : s.jobs = before ++ j :: after) (hl : j.left = ts) :
    Run s { s with
      stats := ts.foldl tick s.stats
      jobs := before ++ { j with made := j.made ++ ts, left := [] } :: after } := by
  induction ts generalizing s j with
  | nil =>
    have hsame : { j with made := j.made ++ [], left := [] } = j := by rw [List.append_nil, ← hl]
    rw [hsame, List.foldl_nil, ← hj]
  | cons t ts ih =>
    have hrest := ih (s := { s with stats := s.stats.tick t, jobs := before ++ j.count t ts :: after })
      (j := j.count t ts) rfl rfl
    have hmade : (j.count t ts).made ++ ts = j.made ++ t :: ts := List.append_assoc _ [t] ts
    rw [hmade] at hrest
    exact .head (.counted hj hl) hrest

theorem Run.complete {s : Counting} {before after : List Job} {j : Job}
    (hj : s.jobs = before ++ j :: after) (ho : j.ended = none) (e : Ending) :
    Run s { s with
      stats := s.stats.recordCompleted j.op e.1 e.2, jobs := before ++ j.finish e :: after } :=
  have hrest : Run { s with jobs := before ++ j.close e :: after } _ := .count_all rfl rfl
  .head (.closed hj ho e) hrest

theorem Run.snapshot (s : Counting) :
    Run s { s with readers := s.readers ++ [⟨[], s.stats, s.jobs⟩] } := by
  have hload (r : Reader) {c : Counter} {cs : List Counter} (hl : r.left = c :: cs) :
      Run { s with readers := s.readers ++ [r] }
        { s with readers := s.readers ++ [r.load s.stats s.jobs c cs] } :=
    .single (.loaded rfl hl)
  have hloads := (hload {} rfl).trans <| (hload _ rfl).trans <| (hload _ rfl).trans <|
    (hload _ rfl).trans <| (hload _ rfl).trans <| hload _ rfl
  exact .head .began hloads

end Uninterrupted

/-- What a snapshot shows, taken while others count: `since` is the work as it was when `completed` was
loaded, and `js` is the work as it is now. -/
structure Reader.Untorn (js : List Job) (r : Reader) : Prop where
  /-- `completed` is the number of the works that were complete when it was loaded. -/
  completed : r.values.completed = (r.since.filterMap Job.completedWith).length
  submitted : r.values.completed ≤ r.values.readsSubmitted + r.values.writesSubmitted
  /-- The number of works in flight is a true difference. -/
  inFlight : r.values.inFlight =
    .ok (r.values.readsSubmitted + r.values.writesSubmitted - r.values.completed)
  /-- Every counter includes what the works in `completed` contribute, up to its wrapping. -/
  included : ∀ c, ∃ v, r.values.get c = v % (Size.max + 1) ∧ contributed c r.since ≤ v ∧ v ≤ total c js
  /-- A counter that has not wrapped yet shows no less than that. -/
  least : ∀ c, total c js ≤ Size.max → contributed c r.since ≤ r.values.get c
  failed : contributed .failed r.since ≤ r.values.failed

/-- No snapshot is torn in a way that shows work complete of which the rest is missing, however the
threads interleave. -/
theorem Run.untorn {s : Counting} (h : Run {} s) (hfew : s.jobs.length ≤ Size.max) {r : Reader}
    (hr : r ∈ s.readers) (hdone : r.left = []) : r.Untorn s.jobs := by
  have hs := h.fair
  obtain ⟨horder, hgrown, cs, hcs, hv⟩ := hs.readers r hr
  obtain rfl : cs = loadOrder := by rwa [hdone, List.append_nil] at hcs
  have hget (c : Counter) : ∃ v, r.values.get c = v % (Size.max + 1) ∧
      total c r.since ≤ v ∧ v ≤ total c s.jobs ∧ (c = .completed → v = total c r.since) :=
    hv c (by cases c <;> decide)
  have hfits {c : Counter} (hc : total c s.jobs ≤ Size.max) :
      total c r.since ≤ r.values.get c ∧ r.values.get c ≤ total c s.jobs := by
    obtain ⟨v, hval, hge, hle, _⟩ := hget c
    rw [hval, Nat.mod_eq_of_lt (by omega)]
    exact ⟨hge, hle⟩
  have hnow := total_submitted hs.orderly
  have hthen := total_submitted horder
  have hreads := hfits (c := .readsSubmitted) (by omega)
  have hwrites := hfits (c := .writesSubmitted) (by omega)
  have hleast (c : Counter) (hc : total c s.jobs ≤ Size.max) :
      contributed c r.since ≤ r.values.get c :=
    (contributed_le_total horder c).trans (hfits hc).1
  have hlength : contributed .completed r.since ≤ r.since.length := by
    rw [contributed_completed]
    exact List.length_filterMap_le _ _
  have hold : r.since.length ≤ s.jobs.length := by
    have := hgrown .readsSubmitted
    have := hgrown .writesSubmitted
    omega
  have hcompleted : r.values.completed = contributed .completed r.since := by
    obtain ⟨v, hval, _, _, hfirst⟩ := hget .completed
    rw [hfirst rfl, total_completed horder, Nat.mod_eq_of_lt (by omega)] at hval
    exact hval
  have hsum : r.values.readsSubmitted + r.values.writesSubmitted ≤ Size.max :=
    (Nat.add_le_add hreads.2 hwrites.2).trans (hnow.trans_le hfew)
  have hsubmitted : r.values.completed ≤ r.values.readsSubmitted + r.values.writesSubmitted := by
    have hge := Nat.add_le_add hreads.1 hwrites.1
    rw [hthen] at hge
    exact hcompleted ▸ hlength.trans hge
  exact {
    completed := hcompleted.trans (contributed_completed _)
    submitted := hsubmitted
    inFlight := by rw [Stats.inFlight, Size.add_of_le hsum]; rfl
    included := fun c => by
      obtain ⟨v, hval, hge, hle, _⟩ := hget c
      exact ⟨v, hval, (contributed_le_total horder c).trans hge, hle⟩
    least := hleast
    failed := hleast .failed ((total_failed_le hs.orderly).trans hfew) }

/-- A snapshot that shows more failures than it has completions to go with them: a read is complete when it
loads `completed`, and only then a write counts its failure and another read is submitted. -/
theorem untorn_of_overtaken : ∃ (s : Counting) (r : Reader), Run {} s ∧ s.jobs.length ≤ Size.max ∧
    r ∈ s.readers ∧ r.left = [] ∧
    r.values = { readsSubmitted := 2, writesSubmitted := 1, completed := 1, failed := 1, bytesRead := 3 } ∧
    r.Untorn s.jobs := by
  have hread : Run {} _ := (Relation.ReflTransGen.head (.submitted .read)
    (.single (.submitted .write))).trans (Run.complete (j := .submitted .read)
      (@rfl _ ([] ++ Job.submitted .read :: [Job.submitted .write])) rfl (.ok (), 3))
  have hload {s : Counting} {r : Reader} {c : Counter} {cs : List Counter} (hr : s.readers = [r])
      (hl : r.left = c :: cs) : Step s { s with readers := [r.load s.stats s.jobs c cs] } :=
    @Step.loaded s [] [] r c cs hr hl
  have hfirst := (hread.tail .began).tail (hload rfl rfl)
  have hclosed := hfirst.tail (@Step.closed _ [_] [] (.submitted .write) rfl rfl (.error .abandoned, 0))
  have hfailed := hclosed.tail (@Step.counted _ [_] [] _ _ _ rfl rfl)
  have hothers := (((((hfailed.tail (.submitted .read)).tail (hload rfl rfl)).tail (hload rfl rfl)).tail
    (hload rfl rfl)).tail (hload rfl rfl)).tail (hload rfl rfl)
  refine ⟨_, _, hothers, by decide, List.mem_singleton_self _, rfl, ?_,
    Run.untorn hothers (by decide) (List.mem_singleton_self _) rfl⟩
  rfl

end Counting

end FilePipeline
