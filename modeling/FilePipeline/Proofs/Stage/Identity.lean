import FilePipeline.Stage.Compression
import FilePipeline.Stage.Io

/-! # Stages keep the identity of work

A stage may change the buffer and the size of a piece of work. Its number, the operation, the path,
the flags and the heap stay what they were at submission. -/

namespace FilePipeline

/-- `w'` is `w` with perhaps another buffer and another size. -/
def Work.SameAs (w' w : Work) : Prop := ∃ b n, w' = { w with buffer := b, size := n }

namespace Work.SameAs

variable {w w' w'' : Work}

theorem refl (w : Work) : w.SameAs w := ⟨w.buffer, w.size, rfl⟩

theorem trans (h : w''.SameAs w') (h' : w'.SameAs w) : w''.SameAs w := by
  obtain ⟨b, n, rfl⟩ := h
  obtain ⟨b', n', rfl⟩ := h'
  exact ⟨b, n, rfl⟩

theorem id (h : w'.SameAs w) : w'.id = w.id := by obtain ⟨b, n, rfl⟩ := h; rfl

theorem op (h : w'.SameAs w) : w'.op = w.op := by obtain ⟨b, n, rfl⟩ := h; rfl

theorem path (h : w'.SameAs w) : w'.path = w.path := by obtain ⟨b, n, rfl⟩ := h; rfl

theorem compressed (h : w'.SameAs w) : w'.compressed = w.compressed := by
  obtain ⟨b, n, rfl⟩ := h; rfl

end Work.SameAs

namespace Stage

variable {σ η κ α : Type}

/-! ### The I/O stage -/

@[simp] theorem work_closing (b : Backend σ η) (r : Processed (σ × η) α) :
    (closing b r).work = r.work := by
  unfold closing
  split
  · rfl
  · dsimp only; split <;> rfl

@[simp] theorem heaps_closing (b : Backend σ η) (r : Processed (σ × η) α) :
    (closing b r).heaps = r.heaps := by
  unfold closing
  split
  · rfl
  · dsimp only; split <;> rfl

theorem work_withFile {p : Setup σ η κ} {hs : Heaps} {s : σ} {w : Work} {mode : OpenMode}
    {body : σ → η → Processed (σ × η) α} (h : ∀ s h, (body s h).work.SameAs w) :
    (withFile p hs s w mode body).work.SameAs w := by
  unfold withFile
  split
  · exact .refl w
  · dsimp only
    split
    · exact .refl w
    · rw [work_closing]; exact h _ _

theorem work_readContents (p : Setup σ η κ) (hs : Heaps) (w : Work) (s : σ) (h : η) :
    (readContents p hs w s h).work.SameAs w := by
  unfold readContents
  dsimp only
  split
  · exact .refl w
  · split
    · exact .refl w
    · split
      · exact .refl w
      · split
        · exact .refl w
        · exact ⟨_, _, rfl⟩

theorem work_processIo (p : Setup σ η κ) (hs : Heaps) (s : σ) (w : Work) :
    (processIo p hs s w).work.SameAs w := by
  unfold processIo
  split
  · exact work_withFile fun s h => work_readContents p hs w s h
  · have h : (withFile p hs s w .createTruncate (writeContents p hs w)).work.SameAs w :=
      work_withFile fun _ _ => .refl w
    unfold write
    dsimp only
    split
    · exact .trans ⟨_, _, rfl⟩ h
    · exact h

/-! ### The compression stage -/

theorem work_compress (p : Setup σ η κ) (hs : Heaps) (s : κ) (w : Work) :
    (compress p hs s w).work.SameAs w := by
  unfold compress
  dsimp only
  split
  · exact .refl w
  · split
    · exact .refl w
    · split
      · exact .refl w
      · split
        · exact .refl w
        · exact ⟨_, _, rfl⟩

theorem work_unpack (p : Setup σ η κ) (hs : Heaps) (s : κ) (w : Work) (frame : List UInt8) :
    (unpack p hs s w frame).work.SameAs w := by
  unfold unpack
  split
  · exact .refl w
  · split
    · exact .refl w
    · dsimp only
      split
      · exact .refl w
      · split
        · exact .refl w
        · exact ⟨_, _, rfl⟩

theorem work_processCompression (p : Setup σ η κ) (hs : Heaps) (s : κ) (w : Work) :
    (processCompression p hs s w).work.SameAs w := by
  unfold processCompression
  split
  · exact (work_unpack p hs s _ _).trans ⟨_, _, rfl⟩
  · exact work_compress p hs s w

end Stage

end FilePipeline
