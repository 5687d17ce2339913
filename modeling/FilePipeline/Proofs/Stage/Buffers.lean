import FilePipeline.Proofs.Codec.Pure
import FilePipeline.Proofs.Heap.Buffers
import FilePipeline.Proofs.Stage.Identity

/-! # What a read holds after a stage

A read gets its buffer in the I/O stage, once its file was read (`Loads`), and keeps it even if the
backend crashes when it closes the file (`ClosingCrashes`). In every other case of failure it holds what
it held before. The compression stage takes the buffer out first, so a read that fails there holds
none, and puts one in that is as long as the header of the frame says (`unpack_cases`). -/

namespace FilePipeline.Stage

variable {σ η κ : Type} {p : Setup σ η κ} {hs : Heaps} {w : Work}

/-- The backend crashes when it closes the file of a read whose contents were read. -/
def ClosingCrashes (p : Setup σ η κ) (hs : Heaps) (s : σ) (w : Work) : Prop :=
  ∃ path h c, p.backend.translate s w.path.text = .ok path ∧
    (p.backend.openFile s path .sharedRead).result = .ok h ∧
    (readContents p hs w (p.backend.openFile s path .sharedRead).state h).result = .ok () ∧
    (p.backend.close
      (readContents p hs w (p.backend.openFile s path .sharedRead).state h).state.1
      (readContents p hs w (p.backend.openFile s path .sharedRead).state h).state.2).result =
        .error (.crash c)

/-- How the buffer `b` of a read was filled: with `n` bytes of an open file that has `size` of them, as
    the backend says. There is room for one more byte if a plain read is to be terminated. -/
structure Loads (p : Setup σ η κ) (w : Work) (s : σ) (h : η) (size n : Nat) (b : Buffer) : Prop where
  told : (p.backend.querySize s h).result = .ok size
  read : ∃ buf : Span, buf.size = size ∧
    (p.backend.readFull (p.backend.querySize s h).state.1 (p.backend.querySize s h).state.2 buf).result =
      .ok n
  filled : ∃ b₀ : Buffer, b₀.capacity = size + (if w.nullTerminate && !w.compressed then 1 else 0) ∧
    b₀.Filled n (w.nullTerminate && !w.compressed) b

theorem capacity_of_readTarget {size align : Nat} {hs' : Heaps} {b : Buffer}
    (h : hs.newBuffer (readTarget p w size).1 (readTarget p w size).2 align = (.ok b, hs')) :
    b.capacity = size + (if w.nullTerminate && !w.compressed then 1 else 0) := by
  show b.storage.size = _
  unfold readTarget at h
  cases hc : w.compressed with
  | true =>
    rw [hc, if_pos rfl] at h
    have hsize := (Heaps.newBuffer_ok h).1.size
    simpa using hsize
  | false =>
    rw [hc, if_neg (by decide)] at h
    have hsize := (Heaps.newBuffer_saturating h).1
    simpa [Work.extra] using hsize

/-- Reading the contents either succeeds and leaves a buffer, or leaves the work as it was. -/
theorem readContents_cases (p : Setup σ η κ) (hs : Heaps) (w : Work) (s : σ) (h : η) :
    ((readContents p hs w s h).result = .ok () ∧ ∃ size n b, Loads p w s h size n b ∧
        (readContents p hs w s h).work = { w with buffer := .owned b, size := b.length }) ∨
      ((∃ f, (readContents p hs w s h).result = .error f) ∧
        (readContents p hs w s h).work = w) := by
  unfold readContents
  dsimp only
  split
  · next f _ => exact Or.inr ⟨Attempt.exists_mapError_error .., rfl⟩
  · next size hsize =>
    split
    · exact Or.inr ⟨⟨_, rfl⟩, rfl⟩
    · next b₀ _ hnew =>
      have hcap := capacity_of_readTarget hnew
      split
      · next f _ => exact Or.inr ⟨Attempt.exists_mapError_error .., rfl⟩
      · next n hn =>
        split
        · exact Or.inr ⟨⟨_, rfl⟩, rfl⟩
        · next b hb =>
          have hbuf : (b₀.storage.take size).size = size := by
            rw [Span.size_take, show b₀.storage.size = _ from hcap]
            exact Nat.min_eq_left (Nat.le_add_right _ _)
          have hfilled := Buffer.filled_of_setLength (b := b₀.write _) hb
          exact Or.inl ⟨rfl, size, n, b, ⟨hsize, ⟨_, hbuf, hn⟩, _, by exact hcap, hfilled⟩, rfl⟩

/-- The work `w'` is the read `w` with a buffer that the contents of its file were loaded into. -/
def HasLoaded (p : Setup σ η κ) (s : σ) (w w' : Work) (size n : Nat) : Prop :=
  ∃ path h b, p.backend.translate s w.path.text = .ok path ∧
    (p.backend.openFile s path .sharedRead).result = .ok h ∧
    Loads p w (p.backend.openFile s path .sharedRead).state h size n b ∧
    w' = { w with buffer := .owned b, size := b.length }

theorem HasLoaded.buffer {s : σ} {w' : Work} {size n : Nat} (h : HasLoaded p s w w' size n) :
    ∃ b, w'.buffer = .owned b := by
  obtain ⟨path, h, b, -, -, -, rfl⟩ := h
  exact ⟨b, rfl⟩

theorem closing_of_ok {α : Type} {b : Backend σ η} {r : Processed (σ × η) α} {a : α}
    (h : r.result = .ok a) :
    (∃ c, (b.close r.state.1 r.state.2).result = .error (.crash c) ∧
        (closing b r).result = .error (.crash c)) ∨
      ((∀ c, (b.close r.state.1 r.state.2).result ≠ .error (.crash c)) ∧
        (closing b r).result = .ok a) := by
  unfold closing
  rw [h]
  dsimp only
  split
  · next c hc => exact Or.inl ⟨c, hc, rfl⟩
  · next hc => exact Or.inr ⟨hc, rfl⟩

theorem closing_of_error {α : Type} {b : Backend σ η} {r : Processed (σ × η) α}
    {f : Fault WorkError} (h : r.result = .error f) : ∃ f', (closing b r).result = .error f' := by
  unfold closing
  rw [h]
  rcases f with e | c
  · dsimp only
    split <;> exact ⟨_, rfl⟩
  · exact ⟨_, rfl⟩

/-- How the I/O stage leaves a read. -/
theorem processIo_read_cases (p : Setup σ η κ) (hs : Heaps) (s : σ) (hop : w.op = .read) :
    ((processIo p hs s w).result = .ok () ∧
        ∃ size n, HasLoaded p s w (processIo p hs s w).work size n) ∨
      (ClosingCrashes p hs s w ∧ (∃ c, (processIo p hs s w).result = .error (.crash c)) ∧
        ∃ size n, HasLoaded p s w (processIo p hs s w).work size n) ∨
      (¬ ClosingCrashes p hs s w ∧ (∃ f, (processIo p hs s w).result = .error f) ∧
        (processIo p hs s w).work = w) := by
  unfold processIo
  rw [hop]
  dsimp only
  unfold read withFile
  cases ht : p.backend.translate s w.path.text with
  | error f =>
    refine Or.inr (Or.inr ⟨?_, ?_, rfl⟩)
    · rintro ⟨path, h, c, hpath, -⟩
      rw [ht] at hpath
      cases hpath
    · exact Attempt.exists_mapError_error ..
  | ok path =>
    dsimp only
    cases ho : (p.backend.openFile s path .sharedRead).result with
    | error f =>
      refine Or.inr (Or.inr ⟨?_, ?_, rfl⟩)
      · rintro ⟨path', h, c, hpath, hh, -⟩
        obtain rfl := Except.ok.inj (ht.symm.trans hpath)
        rw [ho] at hh
        cases hh
      · exact Attempt.exists_mapError_error ..
    | ok h =>
      dsimp only
      have hiff : ClosingCrashes p hs s w ↔
          (readContents p hs w (p.backend.openFile s path .sharedRead).state h).result = .ok () ∧
          ∃ c, (p.backend.close
            (readContents p hs w (p.backend.openFile s path .sharedRead).state h).state.1
            (readContents p hs w (p.backend.openFile s path .sharedRead).state h).state.2).result =
              .error (.crash c) := by
        constructor
        · rintro ⟨path', h', c, hpath, hh, hr, hc⟩
          obtain rfl := Except.ok.inj (ht.symm.trans hpath)
          obtain rfl := Except.ok.inj (ho.symm.trans hh)
          exact ⟨hr, c, hc⟩
        · rintro ⟨hr, c, hc⟩
          exact ⟨path, h, c, ht, ho, hr, hc⟩
      rw [hiff, work_closing]
      rcases readContents_cases p hs w (p.backend.openFile s path .sharedRead).state h with
        ⟨hr, size, n, b, hloads, hw⟩ | ⟨⟨f, hr⟩, hw⟩
      · have hloaded : HasLoaded p s w
            (readContents p hs w (p.backend.openFile s path .sharedRead).state h).work size n :=
          ⟨path, h, b, ht, ho, hloads, hw⟩
        rcases closing_of_ok (b := p.backend) hr with ⟨c, hc, hres⟩ | ⟨-, hres⟩
        · exact Or.inr (Or.inl ⟨⟨hr, c, hc⟩, ⟨c, hres⟩, size, n, hloaded⟩)
        · exact Or.inl ⟨hres, size, n, hloaded⟩
      · refine Or.inr (Or.inr ⟨?_, closing_of_error hr, hw⟩)
        rintro ⟨hok, -⟩
        rw [hr] at hok
        cases hok

/-- Unpacking either succeeds and leaves a buffer, which is as long as the header says and has room for a
    terminator, or leaves the work as it was. -/
theorem unpack_cases (p : Setup σ η κ) (hs : Heaps) (s : κ) (w : Work) (frame : List UInt8) :
    ((unpack p hs s w frame).result = .ok () ∧ ∃ (b₀ : Buffer) (n : Nat) (b : Buffer),
        Frame.examine p.codec s frame = .ok n ∧ b₀.capacity = n + w.extra ∧
        b₀.Filled n w.nullTerminate b ∧
        (unpack p hs s w frame).work = { w with buffer := .owned b, size := b.length }) ∨
      ((∃ f, (unpack p hs s w frame).result = .error f) ∧ (unpack p hs s w frame).work = w) := by
  unfold unpack
  split
  · next f _ => exact Or.inr ⟨Attempt.exists_mapError_error .., rfl⟩
  · next size hsize =>
    split
    · exact Or.inr ⟨⟨_, rfl⟩, rfl⟩
    · next b₀ _ hnew =>
      dsimp only
      split
      · next f _ => exact Or.inr ⟨Attempt.exists_mapError_error .., rfl⟩
      · next n hn =>
        split
        · exact Or.inr ⟨⟨_, rfl⟩, rfl⟩
        · next b hb =>
          obtain rfl := Except.ok.inj ((Frame.examine_of_decode hn).symm.trans hsize)
          have hcap : b₀.capacity = n + w.extra := (Heaps.newBuffer_saturating hnew).1
          have hfilled := Buffer.filled_of_setLength (b := b₀.write _) hb
          exact Or.inl ⟨rfl, _, n, b, hsize, by exact hcap, hfilled, rfl⟩

theorem processCompression_read (p : Setup σ η κ) (hs : Heaps) (s : κ) (hop : w.op = .read) :
    processCompression p hs s w = decompress p hs s w := by
  unfold processCompression
  rw [hop]

theorem work_of_failed_decompress {s : κ} (hop : w.op = .read)
    (hf : (processCompression p hs s w).result ≠ .ok ()) :
    (processCompression p hs s w).work = { w with buffer := .none } := by
  rw [processCompression_read p hs s hop] at hf ⊢
  rcases unpack_cases p hs s { w with buffer := .none } w.buffer.bytes with ⟨hok, -⟩ | ⟨-, hw⟩
  · exact absurd hok hf
  · exact hw

end FilePipeline.Stage
