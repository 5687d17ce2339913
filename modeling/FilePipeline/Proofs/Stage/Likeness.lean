import FilePipeline.Proofs.Backend.PerPath
import FilePipeline.Proofs.Heap.Shapes
import FilePipeline.Proofs.Stage.Frames

/-! # What stages make of work that is alike

Two pieces of work are alike if they differ in nothing but their numbers and in where their buffers lie.
A stage cannot tell them apart: over a backend that keeps its files apart, with a codec without a state
and with steady heaps of one shape, it does the same with both and leaves them alike
(`processIo_like`, `processCompression_like`). All that it needs to be the same for that is the part that
the backend has for the path of the work, and all that it changes is that part. -/

namespace FilePipeline

/-! ### Work that is alike -/

/-- Buffers that differ at most in where they lie. -/
inductive WorkBuffer.Like : WorkBuffer → WorkBuffer → Prop
  | none : Like .none .none
  | caller (data : List UInt8) : Like (.caller data) (.caller data)
  | owned {b b' : Buffer} (h : b.Like b') : Like (.owned b) (.owned b')

theorem WorkBuffer.Like.bytes? {b b' : WorkBuffer} (h : b.Like b') : b.bytes? = b'.bytes? := by
  cases h with
  | none => rfl
  | caller => rfl
  | owned h => exact congrArg some h.bytes

theorem WorkBuffer.Like.bytes {b b' : WorkBuffer} (h : b.Like b') : b.bytes = b'.bytes :=
  congrArg (·.getD []) h.bytes?

theorem WorkBuffer.Like.refl (b : WorkBuffer) : b.Like b := by
  cases b with
  | none => exact .none
  | caller data => exact .caller data
  | owned b => exact .owned ⟨.refl b.storage, rfl⟩

/-- Outcomes that differ at most in where their buffers lie. -/
structure Outcome.Like (o o' : Outcome) : Prop where
  result : o.result = o'.result
  size : o.size = o'.size
  buffer : o.buffer.Like o'.buffer

namespace Work

/-- Work that differs at most in its number and in where its buffer lies. -/
def Like (w w' : Work) : Prop := ∃ id b, w' = { w with id, buffer := b } ∧ w.buffer.Like b

namespace Like

variable {w w' : Work}

theorem refl (w : Work) : w.Like w := ⟨w.id, w.buffer, rfl, .refl w.buffer⟩

theorem buffer (h : w.Like w') : w.buffer.Like w'.buffer := by
  obtain ⟨id, b, rfl, hb⟩ := h
  exact hb

theorem outcome (h : w.Like w') (r : Except WorkError Unit) : (w.outcome r).Like (w'.outcome r) := by
  obtain ⟨id, b, rfl, hb⟩ := h
  exact ⟨rfl, rfl, hb⟩

theorem sized (h : w.Like w') (n : Nat) :
    ({ w with size := n } : Work).Like { w' with size := n } := by
  obtain ⟨id, b, rfl, hb⟩ := h
  exact ⟨id, b, rfl, hb⟩

theorem carry (h : w.Like w') {b b' : Buffer} (hb : b.Like b') (hs hs' : Heaps) :
    (w.carry hs b).1.Like (w'.carry hs' b').1 := by
  obtain ⟨id, c, rfl, -⟩ := h
  refine ⟨id, .owned b', ?_, .owned hb⟩
  unfold Work.carry
  rw [← hb.length]

end Like

end Work

namespace Stage

variable {σ η κ τ α β : Type} {p : Setup σ η κ} {v : Parts σ η τ} {hs hs' : Heaps} {w w' : Work}
  {s s' : σ} {h h' : η} {f : String}

/-- A stage did the same twice, with states after it that are related by `R`. -/
structure Same (R : α → α → Prop) (r r' : Processed α β) : Prop where
  result : r.result = r'.result
  work : r.work.Like r'.work
  state : R r.state r'.state

/-! ### The I/O stage -/

section

variable (hb : p.backend.PerPath v) (hshape : hs.shape = hs'.shape) (hsteady : hs.Steady)
  (hw : w.Like w')

include hb hshape hsteady hw

theorem readContents_like (hx : v.alike f (s, h) (s', h')) :
    Same (v.During f s) (readContents p hs w s h) (readContents p hs' w' s' h') := by
  have hsized := hb.querySize hx
  obtain ⟨id, c, rfl, hc⟩ := hw
  have hw : w.Like { w with id, buffer := c } := ⟨id, c, rfl, hc⟩
  unfold readContents
  dsimp only
  rw [← hsized.result]
  rcases (p.backend.querySize s h).result with e | size
  · exact ⟨rfl, hw, hsized.alike, hsized.others⟩
  · have htarget : readTarget p { w with id, buffer := c } size = readTarget p w size := rfl
    have hnew := Heaps.newBuffer_like hshape hsteady (readTarget p w size).1
      (readTarget p w size).2 p.config.bufferAlignment
    dsimp only
    rw [htarget]
    generalize hs.newBuffer _ _ _ = r at hnew ⊢
    generalize hs'.newBuffer _ _ _ = r' at hnew ⊢
    obtain ⟨a, hs₁⟩ := r
    obtain ⟨a', hs₁'⟩ := r'
    rcases hnew with ⟨e, rfl, rfl⟩ | ⟨b, b', rfl, rfl, hlike⟩
    · exact ⟨rfl, hw, hsized.alike, hsized.others⟩
    · have hread := Backend.readFull_alike hb (hlike.storage.take size) hsized.alike
      have hstate := hsized.others.trans hread.others
      dsimp only
      rw [← hread.result]
      rcases (p.backend.readFull _ _ (b.storage.take size)).result with e | n
      · exact ⟨rfl, hw, hread.alike, hstate⟩
      · have hfilled := hlike.write (hlike.storage.overlay_front hread.written) rfl
        dsimp only
        unfold received
        rcases hfilled.setLength n with ⟨c, hset, hset'⟩ | ⟨a, a', hset, hset', ha⟩
        · rw [hset, hset']
          exact ⟨rfl, hw, hread.alike, hstate⟩
        · rw [hset, hset']
          exact ⟨rfl, hw.carry (ha.terminateIf _) hs₁ hs₁', hread.alike, hstate⟩

end

theorem closing_like {b : Backend σ η} (hb : b.PerPath v) {r r' : Processed (σ × η) β}
    (h : Same (v.During f s) r r') : Same (v.After f s) (closing b r) (closing b r') := by
  obtain ⟨halike, hothers⟩ := h.state
  obtain ⟨hresult, hpart, hclosed⟩ := hb.close halike
  have hstate := hothers.trans hclosed
  unfold closing
  rw [← h.result]
  rcases r.result with (e | c) | a
  · dsimp only
    rw [← hresult]
    rcases (b.close r.state.1 r.state.2).result with (e | c) | u <;>
      exact ⟨rfl, h.work, hpart, hstate⟩
  · exact ⟨rfl, h.work, hb.part halike, hothers⟩
  · dsimp only
    rw [← hresult]
    rcases (b.close r.state.1 r.state.2).result with (e | c) | u <;>
      exact ⟨rfl, h.work, hpart, hstate⟩

theorem withFile_like (hs hs' : Heaps) (hb : p.backend.PerPath v) (hw : w.Like w')
    (mode : OpenMode) {body body' : σ → η → Processed (σ × η) β}
    (hpart : v.part s w.path.text = v.part s' w.path.text)
    (hbody : ∀ {t t' : σ} {h h' : η}, v.alike w.path.text (t, h) (t', h') →
      Same (v.During w.path.text t) (body t h) (body' t' h')) :
    Same (v.After w.path.text s) (withFile p hs s w mode body)
      (withFile p hs' s' w' mode body') := by
  have hpath : w'.path = w.path := by
    obtain ⟨id, b, rfl, -⟩ := hw
    rfl
  unfold withFile
  rw [hpath, ← hb.translate hpart]
  cases ht : p.backend.translate s w.path.text with
  | error e => exact ⟨rfl, hw, hpart, fun _ _ => rfl⟩
  | ok native =>
    have hopen := hb.openFile mode ht hpart
    dsimp only
    cases ho : (p.backend.openFile s native mode).result with
    | error e =>
      obtain ⟨ho', hstate⟩ := hopen.fails e ho
      rw [ho']
      exact ⟨rfl, hw, hstate, hopen.others⟩
    | ok h =>
      obtain ⟨h', ho', hx⟩ := hopen.opens h ho
      rw [ho']
      have hclosed := closing_like hb (hbody hx)
      exact ⟨hclosed.result, hclosed.work, hclosed.state.1, hopen.others.trans hclosed.state.2⟩

theorem writeContents_like (hs hs' : Heaps) (hb : p.backend.PerPath v) (hw : w.Like w')
    (hx : v.alike f (s, h) (s', h')) :
    Same (v.During f s) (writeContents p hs w s h) (writeContents p hs' w' s' h') := by
  have hwrite := Backend.writeFull_alike hb w.buffer.bytes hx
  unfold writeContents
  rw [← hw.buffer.bytes]
  exact ⟨congrArg (Attempt.mapError WorkError.io) hwrite.result, hw, hwrite.alike, hwrite.others⟩

/-- The I/O stage does the same with work that is alike, if it finds the same at its path. -/
theorem processIo_like (hb : p.backend.PerPath v) (hshape : hs.shape = hs'.shape)
    (hsteady : hs.Steady) (hw : w.Like w')
    (hpart : v.part s w.path.text = v.part s' w.path.text) :
    Same (v.After w.path.text s) (processIo p hs s w) (processIo p hs' s' w') := by
  have hop : w'.op = w.op := by
    obtain ⟨id, b, rfl, -⟩ := hw
    rfl
  unfold processIo
  rw [hop]
  cases w.op with
  | read =>
    exact withFile_like hs hs' hb hw .sharedRead hpart (readContents_like hb hshape hsteady hw)
  | write =>
    have hwritten := withFile_like hs hs' hb hw .createTruncate hpart
      (writeContents_like hs hs' hb hw)
    dsimp only
    unfold write
    dsimp only
    rw [← hwritten.result]
    rcases (withFile p hs s w .createTruncate (writeContents p hs w)).result with e | n
    · exact ⟨rfl, hwritten.work, hwritten.state⟩
    · exact ⟨rfl, hwritten.work.sized n, hwritten.state⟩

/-! ### The compression stage -/

section

variable (hc : p.codec.Pure) (hshape : hs.shape = hs'.shape) (hsteady : hs.Steady)
  (hw : w.Like w') (k k' : κ)

include hc hshape hsteady hw

theorem compress_like : Same (fun _ _ => True) (compress p hs k w) (compress p hs' k' w') := by
  unfold compress
  dsimp only
  rw [← hw.buffer.bytes, Frame.bound_congr hc k' k]
  rcases Frame.bound p.codec k w.buffer.bytes.length with c | room
  · exact ⟨rfl, hw, trivial⟩
  · have hnew := Heaps.newBuffer_like hshape hsteady p.ownHeap room p.config.bufferAlignment
    dsimp only
    generalize hs.newBuffer _ _ _ = r at hnew ⊢
    generalize hs'.newBuffer _ _ _ = r' at hnew ⊢
    obtain ⟨a, hs₁⟩ := r
    obtain ⟨a', hs₁'⟩ := r'
    rcases hnew with ⟨e, rfl, rfl⟩ | ⟨b, b', rfl, rfl, hlike⟩
    · exact ⟨rfl, hw, trivial⟩
    · obtain ⟨hanswer, hspan⟩ := Frame.encode_congr hc k k' w.buffer.bytes hlike.storage
      have hfilled := hlike.write hspan (Frame.size_encode _ _ _ _)
      dsimp only
      rw [← hanswer]
      rcases (Frame.encode p.codec k w.buffer.bytes b.storage).answer with e | n
      · exact ⟨rfl, hw, trivial⟩
      · dsimp only
        rcases hfilled.setLength n with ⟨c, hset, hset'⟩ | ⟨a, a', hset, hset', ha⟩
        · rw [hset, hset']
          exact ⟨rfl, hw, trivial⟩
        · rw [hset, hset']
          exact ⟨rfl, hw.carry ha hs₁ hs₁', trivial⟩

theorem unpack_like (frame : List UInt8) :
    Same (fun _ _ => True) (unpack p hs k w frame) (unpack p hs' k' w' frame) := by
  obtain ⟨id, c, rfl, hbuf⟩ := hw
  have hw : w.Like { w with id, buffer := c } := ⟨id, c, rfl, hbuf⟩
  unfold unpack
  rw [Frame.examine_congr hc k' k]
  rcases Frame.examine p.codec k frame with f | size
  · exact ⟨rfl, hw, trivial⟩
  · have hextra : ({ w with id, buffer := c } : Work).extra = w.extra := rfl
    have hnew := Heaps.newBuffer_like hshape hsteady w.heap (Size.saturatingAdd size w.extra)
      p.config.bufferAlignment
    dsimp only
    rw [hextra]
    generalize hs.newBuffer _ _ _ = r at hnew ⊢
    generalize hs'.newBuffer _ _ _ = r' at hnew ⊢
    obtain ⟨a, hs₁⟩ := r
    obtain ⟨a', hs₁'⟩ := r'
    rcases hnew with ⟨e, rfl, rfl⟩ | ⟨b, b', rfl, rfl, hlike⟩
    · exact ⟨rfl, hw, trivial⟩
    · obtain ⟨hanswer, hspan⟩ := Frame.decode_agrees hc k k' frame hlike.storage
      have hfilled := hlike.write hspan (Frame.size_decode _ _ _ _)
      dsimp only
      rw [← hanswer]
      rcases (Frame.decode p.codec k frame b.storage).answer with e | n
      · exact ⟨rfl, hw, trivial⟩
      · dsimp only
        unfold unpacked
        rcases hfilled.setLength n with ⟨c, hset, hset'⟩ | ⟨a, a', hset, hset', ha⟩
        · rw [hset, hset']
          exact ⟨rfl, hw, trivial⟩
        · rw [hset, hset']
          exact ⟨rfl, hw.carry (ha.terminateIf _) hs₁ hs₁', trivial⟩

theorem decompress_like : Same (fun _ _ => True) (decompress p hs k w) (decompress p hs' k' w') := by
  have hempty : ({ w with buffer := .none } : Work).Like { w' with buffer := .none } := by
    obtain ⟨id, b, rfl, -⟩ := hw
    exact ⟨id, .none, rfl, .none⟩
  have h := unpack_like hc hshape hsteady hempty k k' w.buffer.bytes
  unfold decompress
  rw [← hw.buffer.bytes]
  exact ⟨h.result, h.work, trivial⟩

theorem processCompression_like :
    Same (fun _ _ => True) (processCompression p hs k w) (processCompression p hs' k' w') := by
  have hop : w'.op = w.op := by
    obtain ⟨id, b, rfl, -⟩ := hw
    rfl
  unfold processCompression
  rw [hop]
  cases w.op with
  | read => exact decompress_like hc hshape hsteady hw k k'
  | write => exact compress_like hc hshape hsteady hw k k'

end

/-! ### What is left of the heaps -/

theorem shape_drop (b : WorkBuffer) (hs : Heaps) : (b.drop hs).1.shape = hs.shape := by
  cases b with
  | owned b => exact Heaps.shape_dropBuffer hs b
  | none | caller => rfl

theorem shape_readContents (p : Setup σ η κ) (hs : Heaps) (w : Work) (s : σ) (h : η) :
    (readContents p hs w s h).heaps.shape = hs.shape := by
  unfold readContents
  dsimp only
  split
  · rfl
  · next size _ =>
    have hnew := Heaps.shape_newBuffer hs (readTarget p w size).1 (readTarget p w size).2
      p.config.bufferAlignment
    generalize hs.newBuffer _ _ _ = r at hnew ⊢
    obtain ⟨e | b, hs₁⟩ := r
    · exact hnew
    · have hdrop := (Heaps.shape_dropBuffer hs₁ b).trans hnew
      dsimp only
      split
      · exact hdrop
      · split
        · exact hdrop
        · exact (shape_drop w.buffer hs₁).trans hnew

theorem shape_withFile {hs : Heaps} {mode : OpenMode} {body : σ → η → Processed (σ × η) β}
    (hbody : ∀ s h, (body s h).heaps.shape = hs.shape) :
    (withFile p hs s w mode body).heaps.shape = hs.shape := by
  have hclose : ∀ r : Processed (σ × η) β, (closing p.backend r).heaps = r.heaps := by
    intro r
    unfold closing
    split
    · rfl
    · dsimp only
      split <;> rfl
  unfold withFile
  split
  · rfl
  · dsimp only
    split
    · rfl
    · rw [hclose]
      exact hbody _ _

theorem shape_processIo (p : Setup σ η κ) (hs : Heaps) (s : σ) (w : Work) :
    (processIo p hs s w).heaps.shape = hs.shape := by
  unfold processIo
  split
  · exact shape_withFile fun s h => shape_readContents p hs w s h
  · have hwritten : (withFile p hs s w .createTruncate (writeContents p hs w)).heaps.shape =
        hs.shape := shape_withFile fun _ _ => rfl
    unfold write
    dsimp only
    split <;> exact hwritten

theorem shape_compress (p : Setup σ η κ) (hs : Heaps) (k : κ) (w : Work) :
    (compress p hs k w).heaps.shape = hs.shape := by
  unfold compress
  dsimp only
  split
  · rfl
  · next room _ =>
    have hnew := Heaps.shape_newBuffer hs p.ownHeap room p.config.bufferAlignment
    generalize hs.newBuffer _ _ _ = r at hnew ⊢
    obtain ⟨e | b, hs₁⟩ := r
    · exact hnew
    · have hdrop := (Heaps.shape_dropBuffer hs₁ b).trans hnew
      dsimp only
      split
      · exact hdrop
      · split
        · exact hdrop
        · exact (shape_drop w.buffer hs₁).trans hnew

theorem shape_unpack (p : Setup σ η κ) (hs : Heaps) (k : κ) (w : Work) (frame : List UInt8) :
    (unpack p hs k w frame).heaps.shape = hs.shape := by
  unfold unpack
  split
  · rfl
  · next size _ =>
    have hnew := Heaps.shape_newBuffer hs w.heap (Size.saturatingAdd size w.extra)
      p.config.bufferAlignment
    generalize hs.newBuffer _ _ _ = r at hnew ⊢
    obtain ⟨e | b, hs₁⟩ := r
    · exact hnew
    · have hdrop := (Heaps.shape_dropBuffer hs₁ b).trans hnew
      dsimp only
      split
      · exact hdrop
      · split
        · exact hdrop
        · exact (shape_drop w.buffer hs₁).trans hnew

theorem shape_processCompression (p : Setup σ η κ) (hs : Heaps) (k : κ) (w : Work) :
    (processCompression p hs k w).heaps.shape = hs.shape := by
  unfold processCompression
  split
  · have hunpacked := shape_unpack p hs k { w with buffer := .none } w.buffer.bytes
    exact (shape_drop w.buffer _).trans hunpacked
  · exact shape_compress p hs k w

end Stage

end FilePipeline
