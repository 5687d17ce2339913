import FilePipeline.Proofs.Backend.Tame
import FilePipeline.Proofs.Codec.Tame
import FilePipeline.Proofs.Stage.Frames
import FilePipeline.Proofs.Stage.Transfers

/-! # Where a stage crashes

Over a tame backend the I/O stage does not crash (`calm_processIo`): a buffer is as large as the
backend says that the file is, which may be anything, but it is refused if no machine has it. With a
tame codec the compression stage does not crash at a write (`crashed_compress`), and at a read only
where the codec does, for which the header has to be plausible and the memory to be served
(`crashed_decompress_iff`). -/

namespace FilePipeline.Stage

open Backend (Tame Calm)

variable {σ η κ α : Type} {p : Setup σ η κ} {fine : σ → Prop} {hs : Heaps} {w : Work} {s : σ}
  {h : η} {k : κ}

/-! ### The I/O stage -/

theorem calm_closing {b : Backend σ η} (ht : b.Tame fine) {r : Processed (σ × η) α}
    (hr : Calm fine r.state.1 r.result) : Calm fine (closing b r).state (closing b r).result := by
  have hclosed := ht.close r.state.2 hr.fine
  unfold closing
  split
  · next c hc =>
    have hcalm := hr.calm
    rw [hc] at hcalm
    cases hcalm
  · dsimp only
    split
    · next c hc =>
      have hcalm := hclosed.calm
      rw [hc] at hcalm
      cases hcalm
    · exact ⟨hclosed.fine, hr.calm⟩

theorem calm_withFile (hs : Heaps) (mode : OpenMode) (ht : p.backend.Tame fine) (hf : fine s)
    {body : σ → η → Processed (σ × η) α}
    (hbody : ∀ s h, fine s → Calm fine (body s h).state.1 (body s h).result) :
    Calm fine (withFile p hs s w mode body).state (withFile p hs s w mode body).result := by
  unfold withFile
  split
  · next f he => exact ⟨hf, (Attempt.crashed_renamed he _).trans (ht.translate w.path.text hf)⟩
  · next path _ =>
    have hopened := ht.openFile path mode hf
    dsimp only
    split
    · next f he =>
      refine ⟨hopened.fine, ?_⟩
      exact (Attempt.crashed_renamed he _).trans hopened.calm
    · exact calm_closing ht (hbody _ _ hopened.fine)

theorem room_of_readTarget {size : Nat} {hs' : Heaps} {b : Buffer}
    (hb : hs.newBuffer (readTarget p w size).1 (readTarget p w size).2 p.config.bufferAlignment =
      (.ok b, hs')) : size ≤ b.capacity ∧ b.capacity ≤ Size.max := by
  obtain ⟨hstorage, hmax⟩ := Heaps.newBuffer_ok hb
  have hlt : Layout.maxSize < Size.max := by decide
  have hcap : b.capacity = (readTarget p w size).2 := hstorage.size
  have hroom := (readTarget_room hmax).1
  omega

theorem received_ok {b : Buffer} {n : Nat} (hn : n ≤ b.capacity) :
    ∃ b', received w b n = .ok b' := by
  unfold received Buffer.setLength
  rw [if_pos hn]
  exact ⟨_, rfl⟩

theorem calm_readContents (ht : p.backend.Tame fine) (hf : fine s) :
    Calm fine (readContents p hs w s h).state.1 (readContents p hs w s h).result := by
  have hsized := ht.querySize h hf
  unfold readContents
  dsimp only
  split
  · next f he =>
    refine ⟨hsized.fine, ?_⟩
    exact (Attempt.crashed_renamed he _).trans hsized.calm
  · next size _ =>
    split
    · exact ⟨hsized.fine, rfl⟩
    · next b hs' hnew =>
      obtain ⟨hroom, hmax⟩ := room_of_readTarget hnew
      have hbuf : (b.storage.take size).size = size := Nat.min_eq_left hroom
      have hlast : (b.storage.take size).size ≤ Size.max := by omega
      obtain ⟨hread, hle⟩ := Backend.readFull_tame ht hsized.fine
        (h := (p.backend.querySize s h).state.2) hlast
      split
      · next f he =>
        refine ⟨hread.fine, ?_⟩
        exact (Attempt.crashed_renamed he _).trans hread.calm
      · next n hn =>
        have hn := hle n hn
        obtain ⟨b', hb'⟩ := received_ok (w := w)
          (b := b.write (b.storage.overlay 0 ⟨size, _⟩).byte) (n := n)
          (show n ≤ b.capacity by omega)
        rw [hb']
        exact ⟨hread.fine, rfl⟩

theorem calm_processIo (ht : p.backend.Tame fine) (hf : fine s)
    (hmax : w.op = .write → w.buffer.bytes.length ≤ Size.max) :
    Calm fine (processIo p hs s w).state (processIo p hs s w).result := by
  unfold processIo
  cases hop : w.op with
  | read => exact calm_withFile _ _ ht hf fun s h hs' => calm_readContents ht hs'
  | write =>
    have hbody : ∀ s h, fine s →
        Calm fine (writeContents p hs w s h).state.1 (writeContents p hs w s h).result := by
      intro s h hs'
      have hwrite := Backend.writeFull_tame ht hs' (h := h) (hmax hop)
      exact ⟨hwrite.fine, (Attempt.crashed_mapError _ _).trans hwrite.calm⟩
    have hfile := calm_withFile (w := w) (s := s) hs .createTruncate ht hf hbody
    dsimp only
    unfold write
    dsimp only
    split
    · exact ⟨hfile.fine, rfl⟩
    · next f he =>
      exact ⟨hfile.fine, (Attempt.crashed_error he).symm.trans hfile.calm⟩

/-! ### The compression stage -/

/-- The codec crashes when it is to decompress the frame of a read into the buffer for the
    payload. -/
def Chokes (p : Setup σ η κ) (hs : Heaps) (k : κ) (w : Work) : Prop :=
  ∃ size b hs', Frame.examine p.codec k w.buffer.bytes = .ok size ∧
    hs.newBuffer w.heap (Size.saturatingAdd size w.extra) p.config.bufferAlignment = (.ok b, hs') ∧
    (p.codec.decompress k (w.buffer.bytes.drop Frame.headerSize)
      (b.storage.take size)).answer.crashed = true

theorem Chokes.frail_block {frail : List UInt8 → Prop} (hc : p.codec.Tame frail)
    (h : Chokes p hs k w) : frail (w.buffer.bytes.drop Frame.headerSize) := by
  obtain ⟨size, b, hs', -, -, hcrash⟩ := h
  exact hc.decompress _ _ _ hcrash

/-- Into a buffer with room for the payload the frame is decoded without a crash, unless the codec
    crashes. -/
theorem crashed_unpack_iff {frame : List UInt8} {size : Nat} {b : Buffer} {hs' : Heaps}
    (hcheck : Frame.examine p.codec k frame = .ok size)
    (hnew : hs.newBuffer w.heap (Size.saturatingAdd size w.extra) p.config.bufferAlignment =
      (.ok b, hs')) : (unpack p hs k w frame).result.crashed = true ↔
        (p.codec.decompress k (frame.drop Frame.headerSize)
          (b.storage.take size)).answer.crashed = true := by
  obtain ⟨hcap, -⟩ := Heaps.newBuffer_saturating hnew
  rw [← Frame.crashed_decode_iff hcheck (show size ≤ b.storage.size by omega)]
  unfold unpack
  rw [hcheck]
  dsimp only
  rw [hnew]
  dsimp only
  cases hn : (Frame.decode p.codec k frame b.storage).answer with
  | error f =>
    exact iff_of_eq (congrArg (· = true) (Attempt.crashed_renamed rfl _))
  | ok n =>
    obtain rfl : size = n := by
      have hsize := Frame.examine_of_decode hn
      rw [hcheck] at hsize
      exact Except.ok.inj hsize
    obtain ⟨b', hb', -⟩ := unpacked_spec w (Frame.size_decode p.codec k frame b.storage)
      (Nat.le_of_eq hcap.symm)
    dsimp only
    rw [hb']
    exact Iff.rfl

theorem crashed_decompress_iff {frail : List UInt8 → Prop} (hc : p.codec.Tame frail)
    (hop : w.op = .read) :
    (processCompression p hs k w).result.crashed = true ↔ Chokes p hs k w := by
  have hunpack : (processCompression p hs k w).result =
      (unpack p hs k { w with buffer := .none } w.buffer.bytes).result := by
    unfold processCompression decompress
    rw [hop]
  rw [hunpack]
  constructor
  · intro h
    cases hcheck : Frame.examine p.codec k w.buffer.bytes with
    | error f =>
      unfold unpack at h
      rw [hcheck] at h
      have hcalm := (Attempt.crashed_renamed hcheck _).symm.trans h
      rw [Frame.examine_tame hc] at hcalm
      cases hcalm
    | ok size =>
      cases hnew : hs.newBuffer w.heap (Size.saturatingAdd size w.extra)
          p.config.bufferAlignment with
      | mk answer hs' =>
        cases answer with
        | error e =>
          unfold unpack at h
          rw [hcheck] at h
          dsimp only at h
          rw [show hs.newBuffer w.heap (Size.saturatingAdd size
            (Work.extra { w with buffer := .none })) p.config.bufferAlignment = _ from hnew] at h
          cases h
        | ok b =>
          exact ⟨size, b, hs', hcheck, hnew,
            (crashed_unpack_iff (w := { w with buffer := .none }) hcheck hnew).mp h⟩
  · rintro ⟨size, b, hs', hcheck, hnew, hcrash⟩
    exact (crashed_unpack_iff (w := { w with buffer := .none }) hcheck hnew).mpr hcrash

theorem crashed_compress {frail : List UInt8 → Prop} (hc : p.codec.Tame frail)
    (hop : w.op = .write) (hn : Modest w.buffer.bytes.length) :
    (processCompression p hs k w).result.crashed = false := by
  obtain ⟨room, hroom⟩ := Frame.bound_tame hc k hn
  unfold processCompression compress
  rw [hop]
  dsimp only
  rw [hroom]
  dsimp only
  split
  · rfl
  · next b hs' hnew =>
    obtain ⟨hstorage, hmax⟩ := Heaps.newBuffer_ok hnew
    have hlt : Layout.maxSize < Size.max := by decide
    have hcap : b.storage.size = room := hstorage.size
    obtain ⟨hcalm, hle⟩ := Frame.encode_tame hc k hn
      (show b.storage.size ≤ Size.max by omega)
    split
    · next f he =>
      exact (Attempt.crashed_renamed he _).trans hcalm
    · next n hn =>
      have hn := hle n hn
      have hset : ∀ byte, (b.write byte).setLength n = .ok { b.write byte with length := n } :=
        fun _ => if_pos hn
      rw [hset]
      rfl

/-- Compressing either succeeds and leaves a buffer that a heap could serve, or leaves the work as it
    was. -/
theorem compress_cases (p : Setup σ η κ) (hs : Heaps) (k : κ) (w : Work) :
    ((compress p hs k w).result = .ok () ∧ ∃ (b₀ : Buffer) (n : Nat) (b : Buffer),
        b₀.capacity ≤ Layout.maxSize ∧ b₀.Filled n false b ∧
        (compress p hs k w).work = { w with buffer := .owned b, size := b.length }) ∨
      ((∃ f, (compress p hs k w).result = .error f) ∧ (compress p hs k w).work = w) := by
  unfold compress
  dsimp only
  split
  · exact Or.inr ⟨⟨_, rfl⟩, rfl⟩
  · split
    · exact Or.inr ⟨⟨_, rfl⟩, rfl⟩
    · next b₀ _ hnew =>
      obtain ⟨hstorage, hmax⟩ := Heaps.newBuffer_ok hnew
      have hcap : b₀.capacity ≤ Layout.maxSize := Nat.le_trans (Nat.le_of_eq hstorage.size) hmax
      split
      · next f _ => exact Or.inr ⟨Attempt.exists_mapError_error .., rfl⟩
      · next n _ =>
        split
        · exact Or.inr ⟨⟨_, rfl⟩, rfl⟩
        · next b hset =>
          have hfilled : (b₀.write _).Filled n false b :=
            Buffer.filled_of_setLength (by rw [hset]; rfl)
          exact Or.inl ⟨rfl, _, n, b, by exact hcap, hfilled, rfl⟩

theorem processCompression_write (p : Setup σ η κ) (hs : Heaps) (k : κ) (hop : w.op = .write) :
    processCompression p hs k w = compress p hs k w := by
  unfold processCompression
  rw [hop]

theorem length_of_compress (hop : w.op = .write)
    (h : (processCompression p hs k w).result = .ok ()) :
    (processCompression p hs k w).work.buffer.bytes.length ≤ Size.max := by
  rw [processCompression_write p hs k hop] at h ⊢
  rcases compress_cases p hs k w with ⟨-, b₀, n, b, hmax, hfilled, hw⟩ | ⟨⟨f, hf⟩, -⟩
  · have hlt : Layout.maxSize < Size.max := by decide
    have hfits := hfilled.fits
    rw [hw]
    show b.bytes.length ≤ _
    rw [hfilled.length_bytes]
    omega
  · rw [hf] at h
    cases h

end FilePipeline.Stage
