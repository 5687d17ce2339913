import FilePipeline.Proofs.Backend.Failures
import FilePipeline.Stage.Compression
import FilePipeline.Stage.Io

/-! # The errors of a stage

The I/O stage fails because of the path, the platform or the memory, the compression stage because of
the frame or the memory. No stage abandons work. A platform error is one that a call of the backend has
answered with, or that of a write which took nothing (`source_of_processIo`). -/

namespace FilePipeline.Stage

variable {σ η κ α : Type} {p : Setup σ η κ} {hs : Heaps} {w : Work} {e : WorkError}

/-- The errors with which a stage fails. -/
def Raises : Stage → WorkError → Prop
  | .io, .path _ | .io, .io _ | .io, .memory _ => True
  | .compression, .codec _ | .compression, .memory _ => True
  | _, _ => False

theorem Raises.ne_abandoned {s : Stage} (h : s.Raises e) : e ≠ .abandoned := by
  rintro rfl
  cases s <;> exact h

theorem raises_mapError_io {r : Attempt IoError α} (h : Attempt.mapError .io r = .error (.error e)) :
    Raises .io e := by
  rcases r with (e' | c) | a
  · cases h
    trivial
  · cases h
  · cases h

theorem raises_mapError_path {r : Attempt PathError α}
    (h : Attempt.mapError .path r = .error (.error e)) : Raises .io e := by
  rcases r with (e' | c) | a
  · cases h
    trivial
  · cases h
  · cases h

theorem raises_mapError_codec {r : Attempt CodecError α}
    (h : Attempt.mapError .codec r = .error (.error e)) : Raises .compression e := by
  rcases r with (e' | c) | a
  · cases h
    trivial
  · cases h
  · cases h

/-! ### The I/O stage -/

theorem result_of_closing {b : Backend σ η} {r : Processed (σ × η) α}
    (h : (closing b r).result = .error (.error e)) : r.result = .error (.error e) := by
  unfold closing at h
  split at h
  · cases h
  · dsimp only at h
    split at h
    · cases h
    · exact h

theorem raises_withFile {s : σ} {mode : OpenMode} {body : σ → η → Processed (σ × η) α}
    (hb : ∀ s h e, (body s h).result = .error (.error e) → Raises .io e)
    (h : (withFile p hs s w mode body).result = .error (.error e)) : Raises .io e := by
  unfold withFile at h
  split at h
  · exact raises_mapError_path h
  · dsimp only at h
    split at h
    · exact raises_mapError_io h
    · exact hb _ _ _ (result_of_closing h)

theorem raises_readContents (s : σ) (h : η) (e : WorkError)
    (hr : (readContents p hs w s h).result = .error (.error e)) : Raises .io e := by
  unfold readContents at hr
  dsimp only at hr
  split at hr
  · exact raises_mapError_io hr
  · split at hr
    · cases hr
      trivial
    · split at hr
      · exact raises_mapError_io hr
      · split at hr <;> cases hr

theorem raises_processIo {s : σ} (h : (processIo p hs s w).result = .error (.error e)) :
    Raises .io e := by
  unfold processIo at h
  split at h
  · exact raises_withFile raises_readContents h
  · unfold write at h
    dsimp only at h
    split at h
    · cases h
    · next hr =>
      cases h
      exact raises_withFile (fun _ _ _ => raises_mapError_io) hr

theorem fault_of_mapError {f : Fault IoError} {c : IoError}
    (h : Attempt.mapError WorkError.io (.error f : Attempt IoError α) = .error (.error (.io c))) :
    f = .error c := by
  rcases f with e' | c'
  · cases h
    rfl
  · cases h

theorem source_of_withFile {s : σ} {mode : OpenMode} {body : σ → η → Processed (σ × η) α} {c : IoError}
    (hb : ∀ s h, (body s h).result = .error (.error (.io c)) →
      c = .acceptedNothing ∨ p.backend.Fails c)
    (h : (withFile p hs s w mode body).result = .error (.error (.io c))) :
    c = .acceptedNothing ∨ p.backend.Fails c := by
  unfold withFile at h
  split at h
  · next f _ => rcases f with e | c <;> cases h
  · dsimp only at h
    split at h
    · next hf => exact Or.inr (.openFile (hf.trans (congrArg _ (fault_of_mapError h))))
    · exact hb _ _ (result_of_closing h)

theorem source_of_readContents {c : IoError} (s : σ) (h : η)
    (hr : (readContents p hs w s h).result = .error (.error (.io c))) :
    c = .acceptedNothing ∨ p.backend.Fails c := by
  unfold readContents at hr
  dsimp only at hr
  split at hr
  · next hf => exact Or.inr (.querySize (hf.trans (congrArg _ (fault_of_mapError hr))))
  · split at hr
    · cases hr
    · split at hr
      · next hf =>
        exact Or.inr (Backend.readFull_fails (hf.trans (congrArg _ (fault_of_mapError hr))))
      · split at hr <;> cases hr

theorem source_of_writeContents {c : IoError} (s : σ) (h : η)
    (hr : (writeContents p hs w s h).result = .error (.error (.io c))) :
    c = .acceptedNothing ∨ p.backend.Fails c := by
  unfold writeContents at hr
  dsimp only at hr
  rcases hw : (p.backend.writeFull s h w.buffer.bytes).result with f | n
  · rw [hw] at hr
    exact Backend.writeFull_fails (hw.trans (congrArg _ (fault_of_mapError hr)))
  · rw [hw] at hr
    cases hr

theorem source_of_processIo {s : σ} {c : IoError}
    (h : (processIo p hs s w).result = .error (.error (.io c))) :
    c = .acceptedNothing ∨ p.backend.Fails c := by
  unfold processIo at h
  split at h
  · exact source_of_withFile source_of_readContents h
  · unfold write at h
    dsimp only at h
    split at h
    · cases h
    · next hr =>
      cases h
      exact source_of_withFile source_of_writeContents hr

/-! ### The compression stage -/

theorem raises_processCompression {s : κ}
    (h : (processCompression p hs s w).result = .error (.error e)) : Raises .compression e := by
  unfold processCompression at h
  split at h
  · unfold decompress unpack at h
    dsimp only at h
    split at h
    · exact raises_mapError_codec h
    · split at h
      · cases h
        trivial
      · split at h
        · exact raises_mapError_codec h
        · split at h <;> cases h
  · unfold compress at h
    dsimp only at h
    split at h
    · cases h
    · split at h
      · cases h
        trivial
      · split at h
        · exact raises_mapError_codec h
        · split at h <;> cases h

/-- For want of memory a read fails in the compression stage only where the buffer for the payload is
    refused. -/
theorem refused_of_decompress {s : κ} {e : AllocError} (hop : w.op = .read)
    (h : (processCompression p hs s w).result = Attempt.fail (.memory e)) :
    ∃ size hs', Frame.examine p.codec s w.buffer.bytes = .ok size ∧
      hs.newBuffer w.heap (Size.saturatingAdd size w.extra) p.config.bufferAlignment =
        (.error e, hs') := by
  unfold processCompression decompress unpack at h
  rw [hop] at h
  dsimp only at h
  split at h
  · next f _ => rcases f with e' | c <;> cases h
  · next size hsize =>
    split at h
    · next hn =>
      cases h
      exact ⟨size, _, hsize, hn⟩
    · split at h
      · next f _ => rcases f with e' | c <;> cases h
      · split at h <;> cases h

/-- For want of memory a write fails in the compression stage only where the buffer for the frame is
    refused. -/
theorem refused_of_compress {s : κ} {e : AllocError} (hop : w.op = .write)
    (h : (processCompression p hs s w).result = Attempt.fail (.memory e)) :
    ∃ room hs', Frame.bound p.codec s w.buffer.bytes.length = .ok room ∧
      hs.newBuffer p.ownHeap room p.config.bufferAlignment = (.error e, hs') := by
  unfold processCompression compress at h
  rw [hop] at h
  dsimp only at h
  split at h
  · cases h
  · next room hroom =>
    split at h
    · next hn =>
      cases h
      exact ⟨room, _, hroom, hn⟩
    · split at h
      · next f _ => rcases f with e' | c <;> cases h
      · split at h <;> cases h

end FilePipeline.Stage
