import FilePipeline.Proofs.Stage.Crashes
import FilePipeline.Proofs.Stage.Effects

/-! # The size of a piece of work

A piece of work is measured if its size is the length of its buffer (`Work.Measured`). It is so when it
is submitted, and a stage leaves it so, except for a read that fails in the compression stage, which
loses its buffer and keeps its size (`measured_processIo`, `measured_processCompression`).

The size of a write is thus how many bytes it is to write. The backend takes no more of them
(`accepted`), but may well take fewer: all of them if the write goes well, and not all if it fails,
unless there are none (`accepted_spec`). -/

namespace FilePipeline

/-- The size of the work is the length of its buffer. -/
def Work.Measured (w : Work) : Prop := w.size = w.buffer.bytes.length

theorem Work.measured_ofSubmission (id : WorkId) (ownHeap : HeapId) (r : Submission) :
    (Work.ofSubmission id ownHeap r).Measured := by
  cases r <;> rfl

theorem Buffer.Filled.measured {b₀ b : Buffer} {n : Nat} {terminated : Bool}
    (h : b₀.Filled n terminated b) (w : Work) :
    ({ w with buffer := .owned b, size := b.length } : Work).Measured :=
  h.length.trans h.length_bytes.symm

namespace Stage

open Backend (Honest)

variable {σ η κ ν : Type} {p : Setup σ η κ} {v : View σ η ν} {hs : Heaps} {w : Work} {s s' : σ} {h : η}
  {k : κ}

/-! ### The I/O stage -/

theorem HasLoaded.measured {w' : Work} {size n : Nat} (h : HasLoaded p s w w' size n) :
    w'.Measured := by
  obtain ⟨_, _, b, -, -, hloads, rfl⟩ := h
  obtain ⟨b₀, -, hfilled⟩ := hloads.filled
  exact hfilled.measured w

/-- Writing changes nothing of the work but its size, and not even that if it fails. -/
theorem processIo_write_cases (p : Setup σ η κ) (hs : Heaps) (s : σ) (hop : w.op = .write) :
    ((processIo p hs s w).result = .ok () ∧
        ∃ n, (processIo p hs s w).work = { w with size := n }) ∨
      ((∃ f, (processIo p hs s w).result = .error f) ∧ (processIo p hs s w).work = w) := by
  have hfile : (withFile p hs s w .createTruncate (writeContents p hs w)).work = w := by
    unfold withFile
    split
    · rfl
    · dsimp only
      split
      · rfl
      · exact work_closing _ _
  have hstage : processIo p hs s w = write p hs s w := by
    unfold processIo
    rw [hop]
  rw [hstage]
  unfold write
  dsimp only
  split
  · next n _ => exact Or.inl ⟨rfl, n, by rw [hfile]⟩
  · exact Or.inr ⟨⟨_, rfl⟩, hfile⟩

theorem buffer_processIo_write (p : Setup σ η κ) (hs : Heaps) (s : σ) (hop : w.op = .write) :
    (processIo p hs s w).work.buffer = w.buffer := by
  rcases processIo_write_cases p hs s hop with ⟨-, n, hw⟩ | ⟨-, hw⟩ <;> rw [hw]

theorem measured_processIo (hs : Heaps) (hb : p.backend.Honest v) (hs' : v.sound s) (hw : w.Measured) :
    (processIo p hs s w).work.Measured := by
  cases hop : w.op with
  | read =>
    rcases processIo_read_cases p hs s hop with ⟨-, _, _, hl⟩ | ⟨-, -, _, _, hl⟩ | ⟨-, -, hkept⟩
    · exact hl.measured
    · exact hl.measured
    · rw [hkept]
      exact hw
  | write =>
    rcases processIo_write_cases p hs s hop with ⟨hok, -⟩ | ⟨-, hkept⟩
    · rw [((processIo_write_spec hs hb hs' hop).full hok).2]
      rfl
    · rw [hkept]
      exact hw

/-! ### The compression stage -/

theorem measured_decompressed (hop : w.op = .read)
    (hok : (processCompression p hs k w).result = .ok ()) :
    (processCompression p hs k w).work.Measured := by
  rw [processCompression_read p hs k hop] at hok ⊢
  rcases unpack_cases p hs k { w with buffer := .none } w.buffer.bytes with
    ⟨-, b₀, n, b, -, -, hfilled, hwork⟩ | ⟨⟨f, hf⟩, -⟩
  · show (unpack p hs k { w with buffer := .none } w.buffer.bytes).work.Measured
    rw [hwork]
    exact hfilled.measured _
  · cases hok.symm.trans hf

theorem measured_processCompression (p : Setup σ η κ) (hs : Heaps) (k : κ) (hw : w.Measured)
    (hok : w.op = .read → (processCompression p hs k w).result = .ok ()) :
    (processCompression p hs k w).work.Measured := by
  cases hop : w.op with
  | read => exact measured_decompressed hop (hok hop)
  | write =>
    rw [processCompression_write p hs k hop]
    rcases compress_cases p hs k w with ⟨-, b₀, n, b, -, hfilled, hwork⟩ | ⟨-, hwork⟩
    · rw [hwork]
      exact hfilled.measured w
    · rw [hwork]
      exact hw

/-! ### What the backend takes of a write -/

/-- How many bytes the backend takes of a write in its I/O turn; none if the file is not opened. -/
def accepted (p : Setup σ η κ) (s : σ) (w : Work) : Nat :=
  match p.backend.translate s w.path.text with
  | .error _ => 0
  | .ok native =>
    let opened := p.backend.openFile s native .createTruncate
    match opened.result with
    | .error _ => 0
    | .ok h => (p.backend.chunks opened.state h w.buffer.bytes).sum

theorem accepted_of_opened (ho : Opened p s w s' h) :
    accepted p s w = (p.backend.chunks s' h w.buffer.bytes).sum := by
  obtain ⟨native, ht, hh, rfl⟩ := ho
  unfold accepted
  rw [ht]
  dsimp only
  rw [hh]

theorem accepted_of_not_opened (hno : ¬ Opens p s w) : accepted p s w = 0 := by
  unfold accepted
  split
  · rfl
  · next native ht =>
    dsimp only
    split
    · rfl
    · next h hh => exact absurd ⟨_, h, native, ht, hh, rfl⟩ hno

theorem failed_of_not_opened (hs : Heaps) (hop : w.op = .write) (hno : ¬ Opens p s w) :
    (processIo p hs s w).result ≠ .ok () := by
  rw [(processIo_write_eq p hs s hop).2]
  unfold withFile
  split
  · next f _ => rcases f with e | c <;> exact fun hok => by cases hok
  · next native ht =>
    dsimp only
    split
    · next f hf => rcases f with e | c <;> exact fun hok => by cases hok
    · next h hh => exact absurd ⟨_, h, native, ht, hh, rfl⟩ hno

/-- What the backend has taken of a write that ends so, if these are `n` bytes. -/
structure Accepts (w : Work) (n : Nat) (r : Processed σ Unit) : Prop where
  le : n ≤ w.buffer.bytes.length
  full : r.result = .ok () → n = w.buffer.bytes.length
  /-- Of a write that fails without a crash at least one byte was not taken, if there is any. -/
  short : ∀ e, r.result = .error (.error e) → n = 0 ∨ n < w.buffer.bytes.length

theorem accepted_spec (hs : Heaps) (hb : p.backend.Honest v) (hs' : v.sound s) (hop : w.op = .write) :
    Accepts w (accepted p s w) (processIo p hs s w) := by
  by_cases hopen : Opens p s w
  · obtain ⟨s', h, ho⟩ := hopen
    have hresult := (processIo_write_eq p hs s hop).2
    rw [withFile_of_opened ho] at hresult
    rw [accepted_of_opened ho]
    obtain ⟨native, ht, hh, rfl⟩ := ho
    obtain ⟨hst, hempty⟩ := (hb.openWrite hs' ht).stands h hh
    have hmoved := Backend.contents_writeFull hb w.buffer.bytes hst hempty
    have hstands := (Backend.writeFull_spec hb w.buffer.bytes hst hempty).stands
    obtain ⟨-, -, hok, -⟩ := closing_spec (r := writeContents p hs w _ h) hb hstands
    refine ⟨hmoved.le, fun hr => ?_, fun e hr => Or.inr ?_⟩
    · rw [hresult] at hr
      cases hc : (closing p.backend (writeContents p hs w _ h)).result with
      | error f =>
        rw [hc] at hr
        cases hr
      | ok n => exact hmoved.full n (Attempt.mapError_eq_ok.mp (hok n hc))
    · -- without a crash the write ends as the transfer has ended
      have hcalm : (closing p.backend (writeContents p hs w
          (p.backend.openFile s native .createTruncate).state h)).result.crashed = false := by
        rw [← crashed_map fun _ => (), ← hresult, hr]
        rfl
      rw [hresult, result_closing hcalm] at hr
      cases hw : (writeContents p hs w (p.backend.openFile s native .createTruncate).state h).result with
      | error f =>
        rw [hw] at hr
        obtain rfl : f = .error e := Except.error.inj hr
        obtain ⟨e', he', -⟩ := Attempt.mapError_eq_error.mp hw
        exact hmoved.short e' he'
      | ok n =>
        rw [hw] at hr
        cases hr
  · rw [accepted_of_not_opened hopen]
    exact ⟨Nat.zero_le _, fun hok => absurd hok (failed_of_not_opened hs hop hopen),
      fun _ _ => Or.inl rfl⟩

end Stage

end FilePipeline
