import FilePipeline.Proofs.Backend.Chunks
import FilePipeline.Proofs.Stage.Transfers

/-! # What a write does to its file

In the I/O stage the file of a write is opened (`Opened`), or it is not. If not, the write fails and the
file is as it was (`kept_of_not_opened`). If it is, the file holds what the calls of the write loop have
taken, and the write goes well exactly if these are all bytes of the work (`effect_of_opened`). What
closing the file answers has no part in this, as long as it does not crash. -/

namespace FilePipeline.Stage

open Backend (Honest KeepsUnopened Moved)

variable {σ η κ ν α : Type} {p : Setup σ η κ} {v : View σ η ν} {hs : Heaps} {w : Work} {s s' : σ}
  {h : η}

/-- The file of a write is opened in the state `s`: then the state is `s'` and the handle `h`. -/
def Opened (p : Setup σ η κ) (s : σ) (w : Work) (s' : σ) (h : η) : Prop :=
  ∃ native, p.backend.translate s w.path.text = .ok native ∧
    (p.backend.openFile s native .createTruncate).result = .ok h ∧
    (p.backend.openFile s native .createTruncate).state = s'

/-- Whether the file of a write is opened in a state. -/
def Opens (p : Setup σ η κ) (s : σ) (w : Work) : Prop := ∃ s' h, Opened p s w s' h

theorem withFile_of_opened {body : σ → η → Processed (σ × η) α} (ho : Opened p s w s' h) :
    withFile p hs s w .createTruncate body = closing p.backend (body s' h) := by
  obtain ⟨native, ht, hh, rfl⟩ := ho
  unfold withFile
  rw [ht]
  dsimp only
  rw [hh]

theorem result_closing {b : Backend σ η} {r : Processed (σ × η) α}
    (hcalm : (closing b r).result.crashed = false) : (closing b r).result = r.result := by
  unfold closing at hcalm ⊢
  split
  · next c hc => exact hc.symm
  · dsimp only at hcalm ⊢
    split
    · next c hc =>
      rw [hc] at hcalm
      split at hcalm <;> cases hcalm
    · rfl

theorem processIo_write_eq (p : Setup σ η κ) (hs : Heaps) (s : σ) (hop : w.op = .write) :
    let r := withFile p hs s w .createTruncate (writeContents p hs w)
    (processIo p hs s w).state = r.state ∧ (processIo p hs s w).result = r.result.map fun _ => () := by
  unfold processIo
  rw [hop]
  dsimp only
  unfold write
  dsimp only
  split
  · next n hn => exact ⟨rfl, by rw [hn]; rfl⟩
  · next f hf => exact ⟨rfl, by rw [hf]; rfl⟩

theorem crashed_map {ε β : Type} (f : α → β) (r : Attempt ε α) : Attempt.crashed (r.map f) = r.crashed := by
  rcases r with (e | c) | a <;> rfl

/-- What the opened file of a write is in the end, if `n` bytes were taken of those to be written, and
    how the write ends then, if `transfer` is how writing to the file has ended. -/
structure Effect (v : View σ η ν) (w : Work) (n : Nat) (transfer : Attempt IoError Nat)
    (r : Processed σ Unit) : Prop where
  contents : v.contents r.state (fileOf v w) = some (w.buffer.bytes.take n)
  le : n ≤ w.buffer.bytes.length
  whole : r.result = .ok () ↔ n = w.buffer.bytes.length
  /-- The transfer decides how the write ends. -/
  result : r.result = (Attempt.mapError .io transfer).map fun _ => ()

/-- A file that is opened holds what the calls have taken. -/
theorem effect_of_opened (hs : Heaps) (hb : p.backend.Honest v) (hs' : v.sound s)
    (hop : w.op = .write) (ho : Opened p s w s' h)
    (hcalm : (processIo p hs s w).result.crashed = false) :
    Effect v w (p.backend.chunks s' h w.buffer.bytes).sum
      (p.backend.writeFull s' h w.buffer.bytes).result (processIo p hs s w) := by
  obtain ⟨hstate, hresult⟩ := processIo_write_eq p hs s hop
  rw [withFile_of_opened ho] at hstate hresult
  have hcalm' : (closing p.backend (writeContents p hs w s' h)).result.crashed = false := by
    rw [← crashed_map fun _ => (), ← hresult]
    exact hcalm
  rw [result_closing hcalm'] at hresult hcalm'
  obtain ⟨native, ht, hh, rfl⟩ := ho
  obtain ⟨hst, hempty⟩ := (hb.openWrite hs' ht).stands h hh
  have hstands := (Backend.writeFull_spec hb w.buffer.bytes hst hempty).stands
  obtain ⟨-, hclosed, -⟩ := closing_spec (r := writeContents p hs w _ h) hb hstands
  have hmoved := Backend.contents_writeFull hb w.buffer.bytes hst hempty
  refine ⟨?_, hmoved.le, ?_, hresult⟩
  · rw [hstate, hclosed]
    exact hmoved.contents
  · rw [hresult]
    unfold writeContents at hcalm' ⊢
    dsimp only at hcalm' ⊢
    rcases hr : (p.backend.writeFull (p.backend.openFile s native .createTruncate).state h
      w.buffer.bytes).result with (e | c) | m
    · refine ⟨(fun hok => by cases hok), fun hall => ?_⟩
      exact absurd hall (Nat.ne_of_lt (hmoved.short e hr))
    · rw [hr] at hcalm'
      cases hcalm'
    · exact ⟨fun _ => hmoved.full m hr, fun _ => rfl⟩

/-- A file that is not opened is as it was, and the write has failed. -/
theorem kept_of_not_opened (hs : Heaps) (hk : p.backend.KeepsUnopened v) (hs' : v.sound s)
    (hop : w.op = .write) (hno : ¬ Opens p s w)
    (hcalm : (processIo p hs s w).result.crashed = false) :
    v.contents (processIo p hs s w).state (fileOf v w) = v.contents s (fileOf v w) ∧
      (processIo p hs s w).result ≠ .ok () := by
  obtain ⟨hstate, hresult⟩ := processIo_write_eq p hs s hop
  rw [hstate]
  rw [hresult] at hcalm ⊢
  rw [crashed_map] at hcalm
  unfold withFile at hcalm ⊢
  split
  · next f _ =>
    refine ⟨rfl, fun hok => ?_⟩
    rcases f with e | c <;> cases hok
  · next native ht =>
    rw [ht] at hcalm
    dsimp only at hcalm ⊢
    split
    · next f hf =>
      rw [hf] at hcalm
      rcases f with e | c
      · exact ⟨hk s _ native e hs' ht hf, fun hok => by cases hok⟩
      · cases hcalm
    · next h hh => exact absurd ⟨_, h, native, ht, hh, rfl⟩ hno

end FilePipeline.Stage
