import FilePipeline.Proofs.Dispatcher.LastTurns
import FilePipeline.Proofs.Dispatcher.Order
import FilePipeline.Proofs.Dispatcher.Rest
import FilePipeline.Proofs.Stage.Brackets

/-! # The calls of a run

In a run whose backend is listened to (`Setup.observed`), the calls come in segments, one for each turn of
the I/O worker and in the order of these turns (`Recorded.segments`). `Logged.brackets` adds which work
has such a turn: each piece of work at most one, and none whose path does not fit, whose push was not
accepted, or whose bytes were not framed.

What the client sees of a turn is what it would see if nobody listened and if files were closed in any
other way. -/

namespace FilePipeline.Dispatcher

open Backend (Call Observed)
open Stage (Segment)

variable {σ η κ : Type} {p : Setup σ η κ} {d₀ d : Dispatcher (Observed σ η) κ} {rs : List Submission}
  {as : List (Stage × WorkId)} {ts : List (Turn (Observed σ η) κ)}

/-- The calls that a turn of the I/O worker may make. -/
def Turn.Makes (p : Setup σ η κ) (u : Turn (Observed σ η) κ) (cs : List (Call η)) : Prop :=
  Segment p u.before.backend.state u.before.heaps u.work cs

/-- What a turn of the I/O worker calls. -/
theorem calls_of_turn (p : Setup σ η κ) {u : Turn (Observed σ η) κ} (hio : u.stage = .io) :
    ∃ cs, (u.effect p.observed u.before.backend).calls = u.before.backend.calls ++ cs ∧
      Stage.Begins p u.before.backend.state u.work cs ∧
      (u.crashed p.observed = false → u.Makes p cs) := by
  obtain ⟨d, s, w⟩ := u
  obtain rfl : s = .io := hio
  obtain ⟨cs, heard, hbegins, hseg⟩ :=
    Stage.processIo_observed p d.heaps d.backend.state w d.backend.calls
  have heard : Stage.processIo p.observed d.heaps d.backend w = _ := heard
  refine ⟨cs, ?_, hbegins, fun hcalm => hseg ?_⟩
  · unfold Turn.effect
    dsimp only
    rw [heard]
    rfl
  · have hcalm : (Stage.processIo p.observed d.heaps d.backend w).result.crashed = false := hcalm
    rw [heard] at hcalm
    exact hcalm

/-- The calls of a run are those of the turns of the I/O worker, one after the other. -/
theorem Recorded.calls_eq {Q : Turn (Observed σ η) κ → List (Call η) → Prop}
    (h : Recorded p.observed d₀ rs ts d) (hQ : ∀ u ∈ ioTurns ts, ∃ cs,
      (u.effect p.observed u.before.backend).calls = u.before.backend.calls ++ cs ∧ Q u cs) :
    ∃ segs : List (List (Call η)), d.backend.calls = d₀.backend.calls ++ segs.flatten ∧
      List.Forall₂ Q (ioTurns ts) segs := by
  induction h with
  | start => exact ⟨[], by simp, .nil⟩
  | submit r _ _ ih => rw [backend_submit]; exact ih hQ
  | @turn rs ts d d' s w h hw hs ih =>
    have hold : ∀ u ∈ ioTurns ts, u ∈ ioTurns (ts ++ [⟨d, s, w⟩]) := fun u hu =>
      mem_ioTurns.mpr ⟨List.mem_append_left _ (mem_ioTurns.mp hu).1, (mem_ioTurns.mp hu).2⟩
    obtain ⟨segs, hcalls, hsegs⟩ := ih fun u hu => hQ u (hold u hu)
    cases s with
    | io =>
      obtain ⟨cs, hcs, hseg⟩ := hQ ⟨d, .io, w⟩ (mem_ioTurns.mpr ⟨by simp, rfl⟩)
      have hturns : ioTurns (ts ++ [⟨d, .io, w⟩]) = ioTurns ts ++ [⟨d, .io, w⟩] := by
        unfold ioTurns
        rw [List.filter_append]
        rfl
      refine ⟨segs ++ [cs], ?_, ?_⟩
      · rw [backend_of_turn hw hs, hcs, hcalls, List.flatten_append, List.flatten_singleton,
          List.append_assoc]
      · rw [hturns]
        exact List.rel_append hsegs (.cons hseg .nil)
    | compression =>
      have hturns : ioTurns (ts ++ [⟨d, .compression, w⟩]) = ioTurns ts := by
        unfold ioTurns
        rw [List.filter_append]
        exact List.append_nil _
      rw [hturns]
      refine ⟨segs, ?_, hsegs⟩
      rw [backend_of_turn hw hs]
      exact hcalls
  | move _ m stay ih =>
    rcases m.cases_of_stay stay with ⟨a, ht, ha⟩ | hc
    · rw [backend_of_transition ht ha]
      exact ih hQ
    · rw [hc.backend]
      exact ih hQ

theorem Recorded.segments (h : Recorded p.observed d₀ rs ts d)
    (hcalm : ∀ u ∈ ioTurns ts, u.crashed p.observed = false) :
    ∃ segs : List (List (Call η)), d.backend.calls = d₀.backend.calls ++ segs.flatten ∧
      List.Forall₂ (Turn.Makes p) (ioTurns ts) segs := by
  refine h.calls_eq fun u hu => ?_
  obtain ⟨cs, hcalls, -, hmakes⟩ := calls_of_turn p (mem_ioTurns.mp hu).2
  exact ⟨cs, hcalls, hmakes (hcalm u hu)⟩

theorem Recorded.framed (h₀ : Unused p.observed d₀) (h : Recorded p.observed d₀ rs ts d)
    {c u : Turn (Observed σ η) κ} (hc : c ∈ ts) (hs : c.stage = .compression)
    (hop : c.work.op = .write) (hu : u ∈ ioTurns ts) (hid : c.work.id = u.work.id) :
    c.result p.observed = .ok () := by
  obtain ⟨hu, hio⟩ := mem_ioTurns.mp hu
  rcases h.same_work h₀ hc hu hid with rfl | hon | hon
  · rw [hs] at hio
    cases hio
  · exact (Turn.readied_iff.mp hon.readied).1
  · -- the I/O stage hands on reads only
    cases hio.symm.trans (Turn.compression_of_readied hon.readied (hon.sameAs.op.symm.trans hop))

/-- The calls that the backend has had in a run with the submissions `rs`, in which the pushes `as` were
    accepted and the workers had the turns `ts`. -/
structure Brackets (p : Setup σ η κ) (d₀ d : Dispatcher (Observed σ η) κ) (rs : List Submission)
    (as : List (Stage × WorkId)) (ts : List (Turn (Observed σ η) κ)) : Prop where
  /-- There is one segment for each turn of the I/O worker, in the order of these turns, and no other
      call before, between or after them. -/
  segments : ∃ segs : List (List (Call η)),
    d.backend.calls = d₀.backend.calls ++ segs.flatten ∧
      List.Forall₂ (Turn.Makes p) (ioTurns ts) segs
  /-- No piece of work has two of these turns. -/
  once : ((ioTurns ts).map fun u => u.work.id).Nodup
  /-- Work that has one was asked for with a path that fits, and its push was accepted. -/
  admitted : ∀ u ∈ ioTurns ts, ∃ r, rs[u.work.id]? = some r ∧
    PathField.ofString? r.path = .ok u.work.path ∧ (firstStage r, u.work.id) ∈ as
  /-- A write that fails in the compression stage has none. -/
  framed : ∀ c ∈ ts, c.stage = .compression → c.work.op = .write → c.result p.observed ≠ .ok () →
    ∀ u ∈ ioTurns ts, u.work.id ≠ c.work.id
  /-- If nobody listens and files are closed in another way, which does not crash, such a turn has the
      same result and leaves the same buffer and size. -/
  closing : ∀ u ∈ ioTurns ts, ∀ close : σ → η → IoReply σ Unit,
    let r := Stage.processIo (p.closedBy close) u.before.heaps u.before.backend.state u.work
    r.result.crashed = false → r.result = u.result p.observed ∧ r.work = u.after p.observed

/-- In every run in which the I/O worker does not crash the calls of the backend are bracketed. -/
theorem Logged.brackets (h₀ : Fresh p.observed d₀) (h : Logged p.observed d₀ rs as ts d)
    (hcalm : ∀ u ∈ ioTurns ts, u.crashed p.observed = false) : Brackets p d₀ d rs as ts where
  segments := h.recorded.segments hcalm
  once := h.recorded.io_once h₀.unused
  admitted := by
    intro u hu
    obtain ⟨r, hr, ha⟩ := (h.recorded.origin h₀.unused (mem_ioTurns.mp hu).1).asked
    have hpush := h.accepted_of_turn h₀.unused hu
    rw [ha.route] at hpush
    obtain ⟨path, hpath, hsame⟩ := ha
    refine ⟨r, hr, ?_, hpush⟩
    rw [hsame.path]
    exact hpath
  framed := by
    intro c hc hs hop hfails u hu hid
    exact hfails (h.recorded.framed h₀.unused hc hs hop hu hid.symm)
  closing := by
    intro u hu close r hr
    obtain ⟨-, hio⟩ := mem_ioTurns.mp hu
    obtain ⟨cs, heard, -⟩ := Stage.processIo_observed p u.before.heaps u.before.backend.state u.work
      u.before.backend.calls
    have hcalm := hcalm u hu
    obtain ⟨d₁, s, w⟩ := u
    obtain rfl : s = .io := hio
    have heard : Stage.processIo p.observed d₁.heaps d₁.backend w = _ := heard
    have hresult : (⟨d₁, .io, w⟩ : Turn (Observed σ η) κ).result p.observed =
        (Stage.processIo p d₁.heaps d₁.backend.state w).result := congrArg Processed.result heard
    have hwork : (⟨d₁, .io, w⟩ : Turn (Observed σ η) κ).after p.observed =
        (Stage.processIo p d₁.heaps d₁.backend.state w).work := congrArg Processed.work heard
    unfold Turn.crashed at hcalm
    rw [hresult] at hcalm
    have hsame := Stage.processIo_closedBy hcalm hr
    exact ⟨hsame.result.trans hresult.symm, hsame.work.trans hwork.symm⟩

/-! ### A read whose size is not told -/

open Backend.Scripted (Store)

/-- A file that tells no size, and whose closing fails. -/
def mumblingStore : Store :=
  (({} : Store).put "f" [7]).setFaults "f" { size := some (.error (.os 5)), close := some (.os 6) }

/-- The calls of a read of this file: it is closed all the same. -/
def mumblingCalls : List (Call Backend.Scripted.Handle) :=
  [.opens "f" .sharedRead (.ok ⟨"f", 0⟩),
    .uses .size ⟨"f", 0⟩ (Attempt.fail (.os 5)) ⟨"f", 0⟩,
    .closes ⟨"f", 0⟩ (Attempt.fail (.os 6))]

/-- A dispatcher that was just started over scripted files that are listened to, if it can be. -/
def observed? (capacity : Nat) (codec : Codec.Script) (files : Store) :
    Option (Dispatcher (Observed Store Backend.Scripted.Handle) Unit) :=
  (start (scriptedSetup capacity codec).observed ⟨⟨[], 1⟩, fun _ => none⟩ .initial
    ⟨files, []⟩ ()).answer.toOption

theorem brackets_of_mumbling : ∃ d₀ d as ts, Fresh (scriptedSetup 1 {}).observed d₀ ∧
    Logged (scriptedSetup 1 {}).observed d₀ [.read "f" 0 true false] as ts d ∧
    (∀ u ∈ ioTurns ts, u.crashed (scriptedSetup 1 {}).observed = false) ∧
    Brackets (scriptedSetup 1 {}) d₀ d [.read "f" 0 true false] as ts ∧
    d.backend.calls = mumblingCalls := by
  let cues : List Cue :=
    [.submit (.read "f" 0 true false), .act (.push 0), .act (.pop .io), .act (.process .io)]
  have h : ((observed? 1 {} mumblingStore).bind (replay (scriptedSetup 1 {}).observed cues)).any
      (fun d => d.tasks.io.crashed = false ∧ d.tasks.compression.crashed = false ∧
        d.backend.calls = mumblingCalls) = true := by
    decide +kernel
  obtain ⟨d₀, h₀⟩ : ∃ d₀, observed? 1 {} mumblingStore = some d₀ := ⟨_, rfl⟩
  obtain ⟨d, hr, hend⟩ := Option.any_eq_true _ _ |>.mp h
  rw [h₀] at hr
  have hr : replay (scriptedSetup 1 {}).observed cues d₀ = some d := hr
  obtain ⟨hio, hcompression, hcalls⟩ := of_decide_eq_true hend
  have hfresh : Fresh (scriptedSetup 1 {}).observed d₀ := fresh_of_start h₀
  obtain ⟨ts, hrec⟩ := (run_of_replay hr).recorded
  obtain ⟨as, hlog⟩ := hrec.logged
  have hfree := hrec.crash_free hfresh.unused fun s => by
    cases s
    · exact hio
    · exact hcompression
  have hcalm : ∀ u ∈ ioTurns ts, u.crashed (scriptedSetup 1 {}).observed = false := fun u hu =>
    hfree u (mem_ioTurns.mp hu).1
  exact ⟨d₀, d, as, ts, hfresh, hlog, hcalm, hlog.brackets hfresh hcalm, hcalls⟩

end FilePipeline.Dispatcher
