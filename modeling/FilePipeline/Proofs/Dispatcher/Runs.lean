import FilePipeline.Backend.Scripted
import FilePipeline.Codec.Lz4
import FilePipeline.Codec.Scripted
import FilePipeline.Dispatcher.Client
import FilePipeline.Dispatcher.Start

/-! # Runs of a dispatcher with its clients

A `Move` is a step of the dispatcher or a call of a client that submits nothing. A `Run` makes moves
and submissions in any order and keeps the list of what was submitted, so that the work with number
`id` is the one asked for by entry `id` of that list. Nothing is submitted once stopping has begun:
the dispatcher is given up by whoever stops it.

What a dispatcher is like right after its start is `Fresh`. `replay` makes a run out of a list of what
happens, so that single runs can be computed. -/

namespace FilePipeline.Dispatcher

variable {σ η κ : Type}

/-- One move of a dispatcher or of a client, submissions left out. A client that drops a buffer it
    took over may drop any buffer here; who owns which is not kept. -/
inductive Move (p : Setup σ η κ) (d : Dispatcher σ κ) : Dispatcher σ κ → Prop
  | act {d' : Dispatcher σ κ} (a : Action) (h : d.step p a = some d') : Move p d d'
  | beginHalt : Move p d d.beginHalt
  | look (id : WorkId) : Move p d (d.look id)
  | poll (id : WorkId) (waker : Nat) : Move p d (d.poll id waker).2
  | take (id : WorkId) : Move p d (d.take id).2
  | dropHandle (id : WorkId) : Move p d (d.dropHandle id)
  | dropTaken (b : Buffer) : Move p d (d.release (.owned b))

/-- `Run p d₀ rs d`: from `d₀` on, the submissions `rs` and any moves between them lead to `d`. -/
inductive Run (p : Setup σ η κ) (d₀ : Dispatcher σ κ) : List Submission → Dispatcher σ κ → Prop
  | start : Run p d₀ [] d₀
  | submit {rs : List Submission} {d : Dispatcher σ κ} (r : Submission) (h : Run p d₀ rs d)
      (running : d.halt = .running) : Run p d₀ (rs ++ [r]) (d.submit p r)
  | move {rs : List Submission} {d d' : Dispatcher σ κ} (h : Run p d₀ rs d) (m : Move p d d') :
      Run p d₀ rs d'

theorem Run.act {p : Setup σ η κ} {d₀ d d' : Dispatcher σ κ} {rs : List Submission}
    (h : Run p d₀ rs d) (a : Action) (hs : d.step p a = some d') : Run p d₀ rs d' :=
  h.move (.act a hs)

theorem Run.trans {p : Setup σ η κ} {d₀ d₁ d₂ : Dispatcher σ κ} {rs rs' : List Submission}
    (h : Run p d₀ rs d₁) (h' : Run p d₁ rs' d₂) : Run p d₀ (rs ++ rs') d₂ := by
  induction h' with
  | start => rwa [List.append_nil]
  | submit r _ running ih => rw [← List.append_assoc]; exact ih.submit r running
  | move _ m ih => exact ih.move m

/-! ### The start -/

/-- `d` is a dispatcher that was just started with the setup `p`, on whatever platform and over
    whatever heaps, backend and codec. -/
def Fresh (p : Setup σ η κ) (d : Dispatcher σ κ) : Prop :=
  ∃ platform heaps backend codec, (start p platform heaps backend codec).answer = .ok d

/-- What a fresh dispatcher looks like. -/
structure Unused (p : Setup σ η κ) (d : Dispatcher σ κ) : Prop where
  queues : d.queues = ⟨.ofCapacity p.config.queueCapacity, .ofCapacity p.config.queueCapacity⟩
  capacity : 1 ≤ p.config.queueCapacity
  tasks : d.tasks = ⟨.idle, .idle⟩
  draining : d.draining = false
  waiting : d.waiting = []
  tickets : d.tickets = []
  stats : d.stats = {}
  halt : d.halt = .running

theorem eq_ofCapacity {α : Type} {n : Nat} {q : Queue α} (h : Queue.ofReferences n = .ok q) :
    q = .ofCapacity n := by
  unfold Queue.ofReferences Queue.create at h
  split at h
  · simpa using h.symm
  · simp at h

theorem one_le_of_validate {c : Config} (h : c.validate = .ok ()) : 1 ≤ c.queueCapacity := by
  unfold Config.validate at h
  split at h
  · simp at h
  · omega

theorem Fresh.unused {p : Setup σ η κ} {d : Dispatcher σ κ} (h : Fresh p d) : Unused p d := by
  obtain ⟨platform, heaps, backend, codec, h⟩ := h
  unfold start at h
  split at h
  · simp [Attempt.fail] at h
  · next hv =>
    split at h
    · simp [Attempt.crash] at h
    · next q hq =>
      split at h
      · simp at h
      · dsimp only at h
        split at h
        · obtain rfl := eq_ofCapacity hq
          simp only [Except.ok.injEq] at h
          subst h
          exact ⟨rfl, one_le_of_validate hv, rfl, rfl, rfl, rfl, rfl, rfl⟩
        · simp [Attempt.fail] at h
        · simp [Attempt.crash] at h

/-! ### Runs that are computed -/

/-- What happens next in a run that is given as a list. -/
inductive Cue where
  | submit (r : Submission)
  | act (a : Action)

/-- What a list of cues submits. -/
def submitted : List Cue → List Submission
  | [] => []
  | .submit r :: cs => r :: submitted cs
  | .act _ :: cs => submitted cs

/-- Follows a list of cues, if all of it can happen. -/
def replay (p : Setup σ η κ) : List Cue → Dispatcher σ κ → Option (Dispatcher σ κ)
  | [], d => some d
  | .submit r :: cs, d => if d.halt = .running then replay p cs (d.submit p r) else none
  | .act a :: cs, d =>
    match d.step p a with
    | some d => replay p cs d
    | none => none

theorem replay_submit {p : Setup σ η κ} {r : Submission} {cs : List Cue} {d d' : Dispatcher σ κ}
    (h : replay p (.submit r :: cs) d = some d') :
    d.halt = .running ∧ replay p cs (d.submit p r) = some d' := by
  unfold replay at h
  split at h
  · next hr => exact ⟨hr, h⟩
  · cases h

theorem run_of_replay {p : Setup σ η κ} {cs : List Cue} {d d' : Dispatcher σ κ}
    (h : replay p cs d = some d') : Run p d (submitted cs) d' := by
  induction cs generalizing d with
  | nil =>
    obtain rfl : d = d' := Option.some.inj h
    exact .start
  | cons c cs ih =>
    cases c with
    | submit r =>
      obtain ⟨hr, h⟩ := replay_submit h
      exact (Run.start.submit r hr).trans (ih h)
    | act a =>
      unfold replay at h
      split at h
      · next hs => exact (Run.start.act a hs).trans (ih h)
      · cases h

/-- A setup over scripted files with a scripted codec. -/
def scriptedSetup (capacity : Nat) (codec : Codec.Script) :
    Setup Backend.Scripted.Store Backend.Scripted.Handle Unit :=
  ⟨.withCapacity capacity, Heaps.systemHeap, Backend.Scripted.backend, Codec.scripted codec⟩

/-- A dispatcher that was just started over scripted files, if it can be. -/
def scripted? (capacity : Nat) (codec : Codec.Script) (files : Backend.Scripted.Store) :
    Option (Dispatcher Backend.Scripted.Store Unit) :=
  (start (scriptedSetup capacity codec) ⟨⟨[], 1⟩, fun _ => none⟩ .initial files ()).answer.toOption

theorem fresh_of_start {p : Setup σ η κ} {platform : Platform} {heaps : Heaps} {backend : σ}
    {codec : κ} {d : Dispatcher σ κ}
    (h : (start p platform heaps backend codec).answer.toOption = some d) : Fresh p d := by
  cases hs : (start p platform heaps backend codec).answer with
  | error e => rw [hs] at h; cases h
  | ok d' =>
    rw [hs] at h
    obtain rfl : d' = d := Option.some.inj h
    exact ⟨_, _, _, _, hs⟩

theorem fresh_scripted {capacity : Nat} {codec : Codec.Script} {files : Backend.Scripted.Store}
    {d : Dispatcher Backend.Scripted.Store Unit} (h : scripted? capacity codec files = some d) :
    Fresh (scriptedSetup capacity codec) d :=
  fresh_of_start h

/-- A setup over scripted files with the LZ4 codec. -/
def lz4Setup (capacity : Nat) : Setup Backend.Scripted.Store Backend.Scripted.Handle Unit :=
  ⟨.withCapacity capacity, Heaps.systemHeap, Backend.Scripted.backend, Codec.lz4⟩

/-- A dispatcher that was just started with the LZ4 codec and no files, if it can be. -/
def lz4? (capacity : Nat) : Option (Dispatcher Backend.Scripted.Store Unit) :=
  (start (lz4Setup capacity) ⟨⟨[], 1⟩, fun _ => none⟩ .initial {} ()).answer.toOption

end FilePipeline.Dispatcher
