import FilePipeline.Proofs.Dispatcher.Rest
import Mathlib.Data.Multiset.Filter

/-! # What the counters say

The counters of a dispatcher are the tally of its tickets, so each of them is a sum over the tickets
(`get_tally`): a ticket adds its share when its work is submitted and when it ends, whichever way that
happens. What is in flight is the work that is still held by somebody (`InBalance.card_held`), and
nobody holds any once the stopping is over. -/

namespace FilePipeline

namespace Ticket

def hasFailed (t : Ticket) : Bool := t.isDone && !t.result.isOk

/-- Whether the work is of a kind and has ended well. -/
def hasServed (op : Op) (t : Ticket) : Bool := t.isDone && t.op == op && t.result.isOk

/-- What a ticket adds to a counter. -/
def share (t : Ticket) : Counter → Nat
  | .readsSubmitted => if t.op == .read then 1 else 0
  | .writesSubmitted => if t.op == .write then 1 else 0
  | .completed => if t.isDone then 1 else 0
  | .failed => if t.hasFailed then 1 else 0
  | .bytesRead => if t.hasServed .read then t.size else 0
  | .bytesWritten => if t.hasServed .write then t.size else 0

end Ticket

namespace Dispatcher

variable {σ η κ : Type} {p : Setup σ η κ} {d d₀ : Dispatcher σ κ} {rs : List Submission}

/-! ### Tallies -/

theorem added_ticks (c : Counter) (t : Ticket) : Stats.added c (ticks t) = t.share c := by
  have hresult : t.outcome.result = t.result := rfl
  have hsize : t.outcome.size = t.size := rfl
  unfold ticks Ticket.share Ticket.hasFailed Ticket.hasServed
  rw [hresult, hsize]
  unfold Stats.submission Stats.completion
  cases hop : t.op <;> cases hd : t.isDone <;> rcases t.result with e | ⟨⟩ <;> cases c <;>
    simp [Except.isOk, Except.toBool]

/-- A counter holds the shares of all tickets, as far as they fit. -/
theorem get_tally (c : Counter) (ts : List Ticket) :
    (tally ts).get c = (ts.map fun t => t.share c).sum % (Size.max + 1) := by
  have hzero : ({} : Stats).get c = 0 := by cases c <;> rfl
  have h := Stats.get_foldl_tick c (ts.flatMap ticks) (s := {}) (by rw [hzero]; exact Nat.zero_le _)
  rw [hzero, Nat.zero_add, Stats.added_flatMap] at h
  unfold tally
  rw [h]
  simp only [added_ticks]

theorem sum_ite_one {α : Type} (P : α → Bool) (l : List α) :
    (l.map fun a => if P a then 1 else 0).sum = l.countP P := by
  induction l with
  | nil => rfl
  | cons a l ih =>
    rw [List.map_cons, List.sum_cons, ih, List.countP_cons]
    omega

theorem sum_ite {α : Type} (P : α → Bool) (f : α → Nat) (l : List α) :
    (l.map fun a => if P a then f a else 0).sum = ((l.filter P).map f).sum := by
  induction l with
  | nil => rfl
  | cons a l ih =>
    rw [List.map_cons, List.sum_cons, ih, List.filter_cons]
    split <;> simp

theorem get_tally_count {c : Counter} {P : Ticket → Bool} {ts : List Ticket}
    (hc : ∀ t : Ticket, t.share c = if P t then 1 else 0) (hts : ts.length ≤ Size.max) :
    (tally ts).get c = ts.countP P := by
  have hle : ts.countP P ≤ ts.length := List.countP_le_length
  rw [get_tally]
  simp only [hc]
  rw [sum_ite_one]
  exact Nat.mod_eq_of_lt (by omega)

theorem get_tally_bytes {c : Counter} {op : Op} {ts : List Ticket}
    (hc : ∀ t : Ticket, t.share c = if t.hasServed op then t.size else 0) :
    (tally ts).get c = ((ts.filter (Ticket.hasServed op)).map Ticket.size).sum % (Size.max + 1) := by
  rw [get_tally]
  simp only [hc]
  rw [sum_ite]

/-! ### What is in flight -/

/-- The pieces of work that are held are as many as the tickets that wait for them. -/
theorem InBalance.card_held (hb : d.InBalance) :
    d.held.card = d.tickets.countP fun t => !t.isDone := by
  let ids : List WorkId := (List.range d.tickets.length).filter (pending d.tickets)
  -- both sides count the numbers of the pending tickets
  have hheld : d.held.map Work.id = (ids : Multiset WorkId) := by
    ext id
    have hcount : (d.held.map Work.id).count id = d.held.countP fun w => w.id = id := by
      rw [Multiset.count_map, Multiset.countP_eq_card_filter]
      simp only [eq_comm]
    rw [hcount, hb.once id, Multiset.coe_count]
    by_cases hp : pending d.tickets id = true
    · obtain ⟨t, ht, -⟩ := pending_iff.mp hp
      have hmem : id ∈ ids := by
        simp only [ids, List.mem_filter, List.mem_range]
        exact ⟨(List.getElem?_eq_some_iff.mp ht).1, hp⟩
      have hnodup : ids.Nodup := List.nodup_range.filter _
      rw [if_pos hp, List.count_eq_one_of_mem hnodup hmem]
    · have hmem : id ∉ ids := by simp [ids, hp]
      rw [if_neg hp, List.count_eq_zero_of_not_mem hmem]
  have hids : ids.length = d.tickets.countP fun t => !t.isDone := by
    have hmap : d.tickets = (List.range d.tickets.length).map fun i => d.tickets[i]?.getD default := by
      apply List.ext_getElem (by simp)
      intro i h₁ h₂
      simp [h₁]
    have hpend : ∀ i ∈ List.range d.tickets.length,
        pending d.tickets i = !(d.tickets[i]?.getD default).isDone := by
      intro i hi
      have hlt := List.mem_range.mp hi
      simp [pending, List.getElem?_eq_getElem hlt]
    rw [← List.countP_eq_length_filter, List.countP_congr fun i hi => by rw [hpend i hi]]
    conv_rhs => rw [hmap, List.countP_map]
    rfl
  have hcard := congrArg Multiset.card hheld
  rw [Multiset.card_map, Multiset.coe_card, hids] at hcard
  exact hcard

/-! ### Conservation -/

/-- That the counters of `d` have counted the submissions `rs`, and what has become of them. -/
structure Counts (d : Dispatcher σ κ) (rs : List Submission) : Prop where
  /-- There is one ticket for each submission, -/
  tickets : d.tickets.map Ticket.op = rs.map Submission.op
  reads : d.stats.readsSubmitted = rs.countP fun r => r.op == .read
  writes : d.stats.writesSubmitted = rs.countP fun r => r.op == .write
  /-- each is counted once when its work has ended, -/
  completed : d.stats.completed = d.tickets.countP Ticket.isDone
  failed : d.stats.failed = d.tickets.countP Ticket.hasFailed
  /-- with the size that its handle tells if it has ended well. -/
  bytesRead : d.stats.bytesRead =
    ((d.tickets.filter (Ticket.hasServed .read)).map Ticket.size).sum % Nat.pow 2 64
  bytesWritten : d.stats.bytesWritten =
    ((d.tickets.filter (Ticket.hasServed .write)).map Ticket.size).sum % Nat.pow 2 64
  /-- What is in flight are the tickets that wait, and for each of them some work is held. -/
  inFlight : d.stats.inFlight = .ok (d.tickets.countP fun t => !t.isDone)
  held : d.held.card = d.tickets.countP fun t => !t.isDone
  /-- Once the stopping is over, nothing is. -/
  stopped : d.isStopped = true → d.stats.inFlight = .ok 0

theorem countP_op {ts : List Ticket} (h : ts.map Ticket.op = rs.map Submission.op) (op : Op) :
    ts.countP (fun t => t.op == op) = rs.countP fun r => r.op == op := by
  have hc := congrArg (List.countP (· == op)) h
  rwa [List.countP_map, List.countP_map] at hc

theorem countP_read_add_countP_write (rs : List Submission) :
    (rs.countP fun r => r.op == .read) + (rs.countP fun r => r.op == .write) = rs.length := by
  rw [List.length_eq_countP_add_countP fun r : Submission => r.op == .read]
  congr 1
  refine List.countP_congr fun r _ => ?_
  cases r <;> simp [Submission.op]

/-- Whatever is submitted, in whatever order things happen and whatever fails, is refused, dropped or
    crashes, each counter holds what it is meant to hold. -/
theorem Run.counts (h₀ : Fresh p d₀) (h : Run p d₀ rs d) (hrs : rs.length < Nat.pow 2 64) :
    Counts d rs := by
  have hu := h₀.unused
  have hb := h.balanced hu.inBalance
  have hasked := h.asked hu.tickets
  have hlen := h.length hu.tickets
  have hmax : d.tickets.length ≤ Size.max := by
    rw [hlen]
    exact Nat.le_sub_one_of_lt hrs
  have hcount : ∀ {c : Counter} {P : Ticket → Bool},
      (∀ t : Ticket, t.share c = if P t then 1 else 0) → d.stats.get c = d.tickets.countP P := by
    intro c P hc
    rw [hb.counted]
    exact get_tally_count hc hmax
  have hbytes : ∀ {c : Counter} {op : Op},
      (∀ t : Ticket, t.share c = if t.hasServed op then t.size else 0) → d.stats.get c =
        ((d.tickets.filter (Ticket.hasServed op)).map Ticket.size).sum % Nat.pow 2 64 := by
    intro c op hc
    rw [hb.counted]
    exact get_tally_bytes hc
  have hreads : d.stats.readsSubmitted = rs.countP fun r => r.op == .read := by
    rw [← countP_op hasked]
    exact hcount (c := .readsSubmitted) fun _ => rfl
  have hwrites : d.stats.writesSubmitted = rs.countP fun r => r.op == .write := by
    rw [← countP_op hasked]
    exact hcount (c := .writesSubmitted) fun _ => rfl
  have hcompleted : d.stats.completed = d.tickets.countP Ticket.isDone :=
    hcount (c := .completed) fun _ => rfl
  have hflight : d.stats.inFlight = .ok (d.tickets.countP fun t => !t.isDone) := by
    have hsum := countP_read_add_countP_write rs
    have hsplit := List.length_eq_countP_add_countP Ticket.isDone (l := d.tickets)
    unfold Stats.inFlight
    rw [hreads, hwrites, hcompleted, Size.add_of_le (by omega), hsum]
    simp only [Bool.not_eq_true, Bool.decide_eq_false] at hsplit
    simp only [Except.map, Except.ok.injEq]
    omega
  exact {
    tickets := hasked
    reads := hreads
    writes := hwrites
    completed := hcompleted
    failed := hcount (c := .failed) fun _ => rfl
    bytesRead := hbytes (c := .bytesRead) fun _ => rfl
    bytesWritten := hbytes (c := .bytesWritten) fun _ => rfl
    inFlight := hflight
    held := hb.card_held
    stopped := by
      intro hs
      rw [hflight, ← hb.card_held, h.held_of_stopped hu hs, Multiset.card_zero] }

/-- A write whose path is too long, a write that the codec crashes on and a read of no file, up to the
    end of the stopping. -/
theorem counts_when_codec_crashes :
    ∃ d₀ d, Fresh (scriptedSetup 1 { compress := .crash }) d₀ ∧
      [Submission.write ("".pushn 'x' 1024) [7] false, .write "f" [1] true,
        .read "g" 0 false false].length < Nat.pow 2 64 ∧
      (d.isStopped = true ∧
        d.stats = { readsSubmitted := 1, writesSubmitted := 2, completed := 3, failed := 3 }) ∧
      Counts (d : Dispatcher Backend.Scripted.Store Unit) [.write ("".pushn 'x' 1024) [7] false,
        .write "f" [1] true, .read "g" 0 false false] := by
  let cues : List Cue :=
    [.submit (.write ("".pushn 'x' 1024) [7] false), .submit (.write "f" [1] true),
      .submit (.read "g" 0 false false), .act (.push 0), .act (.push 0), .act (.pop .compression),
      .act (.process .compression), .act (.leave .compression)]
  let stop : List Cue :=
    [.act (.pop .io), .act (.process .io), .act (.pop .io), .act (.relay .io), .act (.leave .io),
      .act .halt, .act .halt, .act .halt, .act .halt, .act .halt]
  have h : ((scripted? 1 { compress := .crash } {}).bind fun d =>
      (replay (scriptedSetup 1 { compress := .crash }) cues d).bind fun d =>
        replay (scriptedSetup 1 { compress := .crash }) stop d.beginHalt).any
      (fun d => d.isStopped = true ∧
        d.stats = { readsSubmitted := 1, writesSubmitted := 2, completed := 3, failed := 3 }) =
          true := by
    decide +kernel
  obtain ⟨d, hd, hstopped⟩ := Option.any_eq_true _ _ |>.mp h
  obtain ⟨d₀, h₀, hr⟩ := Option.bind_eq_some_iff.mp hd
  obtain ⟨ts, hts⟩ := recorded_of_replay hr
  exact ⟨d₀, d, fresh_scripted h₀, by decide, of_decide_eq_true hstopped,
    Run.counts (fresh_scripted h₀) hts.run (by decide)⟩

end Dispatcher

end FilePipeline
