import FilePipeline.Proofs.Dispatcher.Runs

/-! # What starting comes to

Validation does not see everything that a dispatcher cannot start with: it accepts queues that no machine
has the memory for, and names that no thread can bear. `start_of_validate` says what starting comes to
with each valid configuration. With a `Workable` one a dispatcher runs, or the platform refuses a worker
and none is left behind. With any other one starting crashes, and what it leaves behind is the I/O worker,
if it had come that far. -/

namespace FilePipeline

def ZeroFree (name : String) : Prop := ∀ b ∈ name.toUTF8.data.toList, (b == 0) = false

instance (name : String) : Decidable (ZeroFree name) := inferInstanceAs (Decidable (∀ b ∈ _, _))

namespace Worker

variable (cores : Cores) (pin : Bool) (n : Nat) {name : String}

theorem start_of_zeroFree (h : ZeroFree name) : ∃ w, start cores pin n name = .ok w ∧ w.name = name := by
  have hnone : name.toUTF8.data.toList.findIdx? (· == 0) = none := List.findIdx?_eq_none_iff.mpr h
  refine ⟨⟨name, if pin then some (cores.forWorker n) else none⟩, ?_, rfl⟩
  rw [start, checkName, hnone]

theorem start_of_not_zeroFree (h : ¬ZeroFree name) : ∃ c, start cores pin n name = .error c := by
  cases hfind : name.toUTF8.data.toList.findIdx? (· == 0) with
  | none => exact absurd (List.findIdx?_eq_none_iff.mp hfind) h
  | some offset => exact ⟨_, by rw [start, checkName, hfind]⟩

end Worker

namespace Queue

/-- The memory for the entries of a queue is there exactly for capacities below `2 ^ 59`. -/
theorem ofReferences_eq {α : Type} {n : Nat} (h : 1 ≤ n) : (ofReferences n : Except Crash (Queue α)) =
    if n < Nat.pow 2 59 then .ok (ofCapacity n) else .error .capacityOverflow := by
  have hbytes : max n 1 * entryBytes 1 ≤ maxBytes ↔ n < Nat.pow 2 59 := by
    rw [Nat.max_eq_left h, show entryBytes 1 = 16 from rfl,
      show maxBytes = 9223372036854775800 from rfl, show Nat.pow 2 59 = 576460752303423488 from rfl]
    omega
  simp only [ofReferences, create, hbytes]

end Queue

/-- What a valid configuration needs besides, so that starting does not crash. The name of the compression
worker does not matter if the platform refuses the other one. -/
structure Workable (platform : Platform) (c : Config) : Prop where
  capacity : c.queueCapacity < Nat.pow 2 59
  io : ZeroFree c.ioThreadName
  compression : platform.refusal 0 = none → ZeroFree c.compressionThreadName

/-- The first worker that the platform refuses. -/
def Platform.refused (platform : Platform) : Option (Stage × IoError) :=
  match platform.refusal 0 with
  | some e => some (.io, e)
  | none => (platform.refusal 1).map (.compression, ·)

namespace Dispatcher

variable {σ η κ : Type} {p : Setup σ η κ} {platform : Platform} {heaps : Heaps} {backend : σ} {codec : κ}

/-- The number of a stage's worker, in the order in which they are started. -/
def workerNumber : Stage → Nat
  | .io => 0
  | .compression => 1

section Workers

variable {c : Config} {s : Stage}

theorem startWorker_crashes (platform : Platform) (h : ¬ZeroFree (workerName c s)) :
    ∃ crash, startWorker platform c s = Attempt.crash crash := by
  obtain ⟨crash, hcrash⟩ := Worker.start_of_not_zeroFree platform.cores c.pinThreads (workerNumber s) h
  refine ⟨crash, ?_⟩
  cases s <;> simp only [startWorker, workerNumber] at hcrash ⊢ <;> rw [hcrash]

theorem startWorker_refused (h : ZeroFree (workerName c s)) {e : IoError}
    (hr : platform.refusal (workerNumber s) = some e) :
    startWorker platform c s = Attempt.fail (.worker s (workerName c s) e) := by
  obtain ⟨w, hw, hname⟩ := Worker.start_of_zeroFree platform.cores c.pinThreads (workerNumber s) h
  cases s <;> simp only [startWorker, workerNumber] at hw hr ⊢ <;> simp only [hw, hr, hname]

theorem startWorker_starts (h : ZeroFree (workerName c s))
    (hr : platform.refusal (workerNumber s) = none) :
    ∃ w, startWorker platform c s = .ok w ∧ w.name = workerName c s := by
  obtain ⟨w, hw, hname⟩ := Worker.start_of_zeroFree platform.cores c.pinThreads (workerNumber s) h
  refine ⟨w, ?_, hname⟩
  cases s <;> simp only [startWorker, workerNumber] at hw hr ⊢ <;> simp only [hw, hr]

end Workers

theorem leavesAlone_of_idle (n : Nat) (workers : PerStage Worker) :
    leavesAlone p { heaps, backend, codec, workers, queues := ⟨.ofCapacity n, .ofCapacity n⟩ } = true :=
  rfl

/-- The I/O worker is already there when the name of the other one brings starting down. -/
structure Stranding (platform : Platform) (c : Config) : Prop where
  capacity : c.queueCapacity < Nat.pow 2 59
  io : ZeroFree c.ioThreadName
  accepted : platform.refusal 0 = none
  compression : ¬ZeroFree c.compressionThreadName

theorem Stranding.not_workable {c : Config} (h : Stranding platform c) : ¬Workable platform c :=
  fun hw => h.compression (hw.compression h.accepted)

/-- What starting comes to. -/
inductive Starting (p : Setup σ η κ) (platform : Platform) (heaps : Heaps) (backend : σ) (codec : κ) :
    Started σ κ → Prop
  /-- A dispatcher runs, with nothing done yet and workers of the names asked for. -/
  | runs {d : Dispatcher σ κ} (h : Workable platform p.config) (hr : platform.refused = none)
      (unused : Unused p d) (given : d.heaps = heaps ∧ d.backend = backend ∧ d.codec = codec)
      (names : ∀ s, (d.workers.get s).name = workerName p.config s) :
      Starting p platform heaps backend codec ⟨.ok d, []⟩
  /-- The error names the worker that the platform refused first. No worker is left behind. -/
  | refused {s : Stage} {e : IoError} (h : Workable platform p.config)
      (hr : platform.refused = some (s, e)) :
      Starting p platform heaps backend codec
        ⟨Attempt.fail (.worker s (workerName p.config s) e), []⟩
  | crashes {c : Crash} (h : ¬Workable platform p.config) (hs : ¬Stranding platform p.config) :
      Starting p platform heaps backend codec ⟨Attempt.crash c, []⟩
  | strands {c : Crash} {w : Worker} (h : Stranding platform p.config)
      (hw : w.name = p.config.ioThreadName) :
      Starting p platform heaps backend codec ⟨Attempt.crash c, [w]⟩

/-- What starting comes to with a configuration that validation accepts. -/
theorem start_of_validate (h : p.config.validate = .ok ()) :
    Starting p platform heaps backend codec (start p platform heaps backend codec) := by
  have hqueue := Queue.ofReferences_eq (α := Work) (one_le_of_validate h)
  by_cases hcap : p.config.queueCapacity < Nat.pow 2 59
  case neg =>
    rw [if_neg hcap] at hqueue
    simp only [start, h, hqueue]
    exact .crashes (fun hw => hcap hw.capacity) fun hs => hcap hs.capacity
  rw [if_pos hcap] at hqueue
  by_cases hio : ZeroFree p.config.ioThreadName
  case neg =>
    obtain ⟨c, hc⟩ := startWorker_crashes (s := .io) platform hio
    simp only [start, h, hqueue, hc]
    exact .crashes (fun hw => hio hw.io) fun hs => hio hs.io
  cases hr : platform.refusal 0 with
  | some e =>
    have hfail := startWorker_refused (s := .io) hio hr
    simp only [start, h, hqueue, hfail]
    refine .refused ⟨hcap, hio, fun hn => ?_⟩ (by rw [Platform.refused, hr])
    rw [hr] at hn
    cases hn
  | none =>
    obtain ⟨io, hok, hname⟩ := startWorker_starts (s := .io) hio hr
    by_cases hcomp : ZeroFree p.config.compressionThreadName
    case neg =>
      obtain ⟨c, hc⟩ := startWorker_crashes (s := .compression) platform hcomp
      simp only [start, h, hqueue, hok, hc]
      exact .strands ⟨hcap, hio, hr, hcomp⟩ hname
    have hw : Workable platform p.config := ⟨hcap, hio, fun _ => hcomp⟩
    cases hr' : platform.refusal 1 with
    | some e =>
      have hfail := startWorker_refused (s := .compression) hcomp hr'
      simp only [start, h, hqueue, hok, hfail, leavesAlone_of_idle, if_true]
      exact .refused hw (by simp only [Platform.refused, hr, hr', Option.map_some])
    | none =>
      obtain ⟨compression, hok', hname'⟩ := startWorker_starts (s := .compression) hcomp hr'
      simp only [start, h, hqueue, hok, hok']
      have hrefused : platform.refused = none := by simp only [Platform.refused, hr, hr', Option.map_none]
      exact .runs hw hrefused ⟨rfl, one_le_of_validate h, rfl, rfl, rfl, rfl, rfl, rfl⟩ ⟨rfl, rfl, rfl⟩
        (Stage.rec hname hname')

/-- A valid name with a zero byte, for the worker that is started last. -/
def zeroNamed : Setup Backend.Scripted.Store Backend.Scripted.Handle Unit :=
  { lz4Setup 8 with config := { compressionThreadName := "a\x00b" } }

theorem start_of_validate_zeroNamed : zeroNamed.config.validate = .ok () ∧
    Stranding ⟨⟨[], 1⟩, fun _ => none⟩ zeroNamed.config ∧
    Starting zeroNamed ⟨⟨[], 1⟩, fun _ => none⟩ .initial {} ()
      (start zeroNamed ⟨⟨[], 1⟩, fun _ => none⟩ .initial {} ()) ∧
    (start zeroNamed ⟨⟨[], 1⟩, fun _ => none⟩ .initial {} ()).stranded.length = 1 :=
  ⟨rfl, ⟨by decide, by decide +kernel, rfl, by decide +kernel⟩, start_of_validate rfl, rfl⟩

/-- Validation accepts any capacity but zero, and starting with the largest one crashes. -/
theorem crashes_on_endless_queues : (lz4Setup Size.max).config.validate = .ok () ∧
    (start (lz4Setup Size.max) ⟨⟨[], 1⟩, fun _ => none⟩ .initial {} ()).answer =
      Attempt.crash .capacityOverflow :=
  ⟨rfl, rfl⟩

end Dispatcher

end FilePipeline
