import FilePipeline.Proofs.Backend.Lockstep
import FilePipeline.Proofs.Codec.Spans
import FilePipeline.Proofs.Heap.Garbage
import FilePipeline.Proofs.Stage.Frames

/-! # What stages make of garbage

Nothing. A stage that works twice on the same, but for the garbage of the heaps, does the same twice
(`processIo_of_clean`, `processCompression_of_clean`), whatever counts its backend or its codec tells, as
long as they keep to the spans they are given. -/

namespace FilePipeline

/-! ### Work -/

/-- The buffer without what is behind its capacity. -/
def WorkBuffer.clean : WorkBuffer → WorkBuffer
  | .owned b => .owned b.clean
  | b => b

theorem WorkBuffer.bytes?_clean (b : WorkBuffer) : b.clean.bytes? = b.bytes? := by
  cases b with
  | owned b => exact congrArg some b.bytes_clean
  | none | caller => rfl

theorem WorkBuffer.drop_clean (hs : Heaps) (b : WorkBuffer) :
    (b.clean.drop hs.clean).1 = (b.drop hs).1.clean := by
  cases b with
  | owned b => exact hs.dropBuffer_clean b
  | none | caller => rfl

namespace Work

variable {w w' : Work}

def clean (w : Work) : Work := { w with buffer := w.buffer.clean }

theorem eq_of_clean (h : w.clean = w'.clean) :
    ∃ b, w' = { w with buffer := b } ∧ w.buffer.clean = b.clean := by
  obtain ⟨id, op, path, nullTerminate, compressed, buffer, size, heap⟩ := w
  obtain ⟨id', op', path', nullTerminate', compressed', buffer', size', heap'⟩ := w'
  simp only [clean, Work.mk.injEq] at h
  obtain ⟨rfl, rfl, rfl, rfl, rfl, hb, rfl, rfl⟩ := h
  exact ⟨buffer', rfl, hb⟩

theorem bytes_of_clean (h : w.clean = w'.clean) : w.buffer.bytes = w'.buffer.bytes := by
  have hb : w.buffer.clean = w'.buffer.clean := congrArg buffer h
  unfold WorkBuffer.bytes
  rw [← w.buffer.bytes?_clean, hb, w'.buffer.bytes?_clean]

theorem carry_clean (w : Work) (hs : Heaps) (b : Buffer) :
    w.clean.carry hs.clean b.clean = ((w.carry hs b).1.clean, (w.carry hs b).2.clean) :=
  congrArg (Prod.mk _) (w.buffer.drop_clean hs)

end Work

namespace Stage

variable {σ η κ τ α β : Type} {p : Setup σ η κ} {hs hs' : Heaps} {w w' : Work}

/-- A stage did the same twice, but for garbage. -/
structure SameClean (r r' : Processed τ α) : Prop where
  result : r.result = r'.result
  work : r.work.clean = r'.work.clean
  heaps : r.heaps.clean = r'.heaps.clean
  state : r.state = r'.state

theorem dropBuffer_of_clean (hh : hs.clean = hs'.clean) {b b' : Buffer} (hb : b.clean = b'.clean) :
    (hs.dropBuffer b).1.clean = (hs'.dropBuffer b').1.clean := by
  rw [← Heaps.dropBuffer_clean, ← Heaps.dropBuffer_clean, hh, hb]

theorem carry_of_clean (hh : hs.clean = hs'.clean) (hw : w.clean = w'.clean) {b b' : Buffer}
    (hb : b.clean = b'.clean) : (w.carry hs b).1.clean = (w'.carry hs' b').1.clean ∧
      (w.carry hs b).2.clean = (w'.carry hs' b').2.clean := by
  have hcarry := w.carry_clean hs b
  rw [hh, hw, hb, w'.carry_clean] at hcarry
  exact Prod.mk.inj hcarry.symm

section Io

variable (hb : p.backend.KeepsToSpans) (hh : hs.clean = hs'.clean) (hw : w.clean = w'.clean)

include hb hh hw

theorem readContents_of_clean (s : σ) (h : η) :
    SameClean (readContents p hs w s h) (readContents p hs' w' s h) := by
  obtain ⟨c, rfl, -⟩ := Work.eq_of_clean hw
  unfold readContents
  dsimp only
  cases (p.backend.querySize s h).result with
  | error e => exact ⟨rfl, hw, hh, rfl⟩
  | ok size =>
    have htarget : readTarget p { w with buffer := c } size = readTarget p w size := rfl
    obtain ⟨hnew, hheaps⟩ := Heaps.newBuffer_of_clean hh (readTarget p w size).1
      (readTarget p w size).2 p.config.bufferAlignment
    dsimp only
    rw [htarget]
    generalize hs.newBuffer _ _ _ = r at hnew hheaps ⊢
    generalize hs'.newBuffer _ _ _ = r' at hnew hheaps ⊢
    obtain ⟨a, hs₁⟩ := r
    obtain ⟨a', hs₁'⟩ := r'
    rcases cases_of_map_eq hnew with ⟨e, rfl, rfl⟩ | ⟨b, b', rfl, rfl, hbuf⟩
    · exact ⟨rfl, hw, hheaps, rfl⟩
    · have hdrop := dropBuffer_of_clean hheaps hbuf
      have hlike := (Buffer.clean_eq_clean.mp hbuf).2
      have hread := hb.readFull (p.backend.querySize s h).state.1 (p.backend.querySize s h).state.2
        (hlike.storage.take size)
      dsimp only
      rw [← hread.result, ← hread.state]
      cases (p.backend.readFull _ _ (b.storage.take size)).result with
      | error e => exact ⟨rfl, hw, hdrop, rfl⟩
      | ok n =>
        have hfilled := Buffer.write_of_clean hbuf (hlike.storage.overlay_front hread.written) rfl
        dsimp only
        unfold received
        rcases cases_of_map_eq (Buffer.setLength_of_clean hfilled n) with
          ⟨c, hset, hset'⟩ | ⟨a, a', hset, hset', ha⟩
        · rw [hset, hset']
          exact ⟨rfl, hw, hdrop, rfl⟩
        · rw [hset, hset']
          obtain ⟨hwork, hheaps⟩ := carry_of_clean hheaps hw (Buffer.terminateIf_of_clean ha _)
          exact ⟨rfl, hwork, hheaps, rfl⟩

omit hb hh hw in
theorem closing_of_clean {b : Backend σ η} {r r' : Processed (σ × η) β} (h : SameClean r r') :
    SameClean (closing b r) (closing b r') := by
  obtain ⟨result, work, heaps, state⟩ := r
  obtain ⟨result', work', heaps', state'⟩ := r'
  obtain ⟨rfl, hwork, hheaps, rfl⟩ := h
  unfold closing
  rcases result with (e | c) | a
  · dsimp only
    rcases (b.close state.1 state.2).result with (e | c) | u <;> exact ⟨rfl, hwork, hheaps, rfl⟩
  · exact ⟨rfl, hwork, hheaps, rfl⟩
  · dsimp only
    rcases (b.close state.1 state.2).result with (e | c) | u <;> exact ⟨rfl, hwork, hheaps, rfl⟩

omit hb in
theorem withFile_of_clean (s : σ) (mode : OpenMode) {body body' : σ → η → Processed (σ × η) β}
    (hbody : ∀ s h, SameClean (body s h) (body' s h)) :
    SameClean (withFile p hs s w mode body) (withFile p hs' s w' mode body') := by
  obtain ⟨c, rfl, -⟩ := Work.eq_of_clean hw
  unfold withFile
  dsimp only
  cases p.backend.translate s w.path.text with
  | error e => exact ⟨rfl, hw, hh, rfl⟩
  | ok native =>
    dsimp only
    cases (p.backend.openFile s native mode).result with
    | error e => exact ⟨rfl, hw, hh, rfl⟩
    | ok h => exact closing_of_clean (hbody _ h)

/-- The I/O stage does the same with what is the same but for garbage. -/
theorem processIo_of_clean (s : σ) : SameClean (processIo p hs s w) (processIo p hs' s w') := by
  have hop : w.clean.op = w'.clean.op := congrArg Work.op hw
  have hop : w.op = w'.op := hop
  have hbytes := Work.bytes_of_clean hw
  unfold processIo
  rw [← hop]
  cases w.op with
  | read => exact withFile_of_clean hh hw s .sharedRead (readContents_of_clean hb hh hw)
  | write =>
    have hbody : ∀ s h, SameClean (writeContents p hs w s h) (writeContents p hs' w' s h) := fun s h => by
      unfold writeContents
      rw [hbytes]
      exact ⟨rfl, hw, hh, rfl⟩
    have hwritten := withFile_of_clean hh hw (p := p) s .createTruncate hbody
    dsimp only
    unfold write
    dsimp only
    rw [← hwritten.result]
    cases (withFile p hs s w .createTruncate (writeContents p hs w)).result with
    | error e => exact ⟨rfl, hwritten.work, hwritten.heaps, hwritten.state⟩
    | ok n =>
      exact ⟨rfl, congrArg (fun w => { w with size := n }) hwritten.work, hwritten.heaps, hwritten.state⟩

end Io

section Compression

variable (hc : p.codec.KeepsToSpans) (hh : hs.clean = hs'.clean) (hw : w.clean = w'.clean) (k : κ)

include hc hh hw

theorem compress_of_clean : SameClean (compress p hs k w) (compress p hs' k w') := by
  unfold compress
  dsimp only
  rw [← Work.bytes_of_clean hw]
  cases Frame.bound p.codec k w.buffer.bytes.length with
  | error c => exact ⟨rfl, hw, hh, rfl⟩
  | ok room =>
    obtain ⟨hnew, hheaps⟩ := Heaps.newBuffer_of_clean hh p.ownHeap room p.config.bufferAlignment
    dsimp only
    generalize hs.newBuffer _ _ _ = r at hnew hheaps ⊢
    generalize hs'.newBuffer _ _ _ = r' at hnew hheaps ⊢
    obtain ⟨a, hs₁⟩ := r
    obtain ⟨a', hs₁'⟩ := r'
    rcases cases_of_map_eq hnew with ⟨e, rfl, rfl⟩ | ⟨b, b', rfl, rfl, hbuf⟩
    · exact ⟨rfl, hw, hheaps, rfl⟩
    · have hdrop := dropBuffer_of_clean hheaps hbuf
      have hframe := hc.encode k w.buffer.bytes (Buffer.clean_eq_clean.mp hbuf).2.storage
      have hfilled := Buffer.write_of_clean hbuf hframe.span (Frame.size_encode _ _ _ _)
      dsimp only
      rw [← hframe.answer, ← hframe.state]
      cases (Frame.encode p.codec k w.buffer.bytes b.storage).answer with
      | error e => exact ⟨rfl, hw, hdrop, rfl⟩
      | ok n =>
        dsimp only
        rcases cases_of_map_eq (Buffer.setLength_of_clean hfilled n) with
          ⟨c, hset, hset'⟩ | ⟨a, a', hset, hset', ha⟩
        · rw [hset, hset']
          exact ⟨rfl, hw, hdrop, rfl⟩
        · rw [hset, hset']
          obtain ⟨hwork, hheaps⟩ := carry_of_clean hheaps hw ha
          exact ⟨rfl, hwork, hheaps, rfl⟩

theorem unpack_of_clean (frame : List UInt8) :
    SameClean (unpack p hs k w frame) (unpack p hs' k w' frame) := by
  obtain ⟨c, rfl, -⟩ := Work.eq_of_clean hw
  unfold unpack
  cases Frame.examine p.codec k frame with
  | error e => exact ⟨rfl, hw, hh, rfl⟩
  | ok size =>
    have hextra : ({ w with buffer := c } : Work).extra = w.extra := rfl
    obtain ⟨hnew, hheaps⟩ := Heaps.newBuffer_of_clean hh w.heap (Size.saturatingAdd size w.extra)
      p.config.bufferAlignment
    dsimp only
    rw [hextra]
    generalize hs.newBuffer _ _ _ = r at hnew hheaps ⊢
    generalize hs'.newBuffer _ _ _ = r' at hnew hheaps ⊢
    obtain ⟨a, hs₁⟩ := r
    obtain ⟨a', hs₁'⟩ := r'
    rcases cases_of_map_eq hnew with ⟨e, rfl, rfl⟩ | ⟨b, b', rfl, rfl, hbuf⟩
    · exact ⟨rfl, hw, hheaps, rfl⟩
    · have hdrop := dropBuffer_of_clean hheaps hbuf
      have hpayload := hc.decode k frame (Buffer.clean_eq_clean.mp hbuf).2.storage
      have hfilled := Buffer.write_of_clean hbuf hpayload.span (Frame.size_decode _ _ _ _)
      dsimp only
      rw [← hpayload.answer, ← hpayload.state]
      cases (Frame.decode p.codec k frame b.storage).answer with
      | error e => exact ⟨rfl, hw, hdrop, rfl⟩
      | ok n =>
        dsimp only
        unfold unpacked
        rcases cases_of_map_eq (Buffer.setLength_of_clean hfilled n) with
          ⟨c, hset, hset'⟩ | ⟨a, a', hset, hset', ha⟩
        · rw [hset, hset']
          exact ⟨rfl, hw, hdrop, rfl⟩
        · rw [hset, hset']
          obtain ⟨hwork, hheaps⟩ := carry_of_clean hheaps hw (Buffer.terminateIf_of_clean ha _)
          exact ⟨rfl, hwork, hheaps, rfl⟩

/-- The compression stage does the same with what is the same but for garbage. -/
theorem processCompression_of_clean :
    SameClean (processCompression p hs k w) (processCompression p hs' k w') := by
  have hop : w.clean.op = w'.clean.op := congrArg Work.op hw
  have hop : w.op = w'.op := hop
  unfold processCompression
  rw [← hop]
  cases w.op with
  | write => exact compress_of_clean hc hh hw k
  | read =>
    have hempty : ({ w with buffer := .none } : Work).clean = ({ w' with buffer := .none } : Work).clean :=
      congrArg (fun w : Work => { w with buffer := .none }) hw
    have hunpacked := unpack_of_clean hc hh hempty k w.buffer.bytes
    have hbuffer : w.buffer.clean = w'.buffer.clean := congrArg Work.buffer hw
    dsimp only
    unfold decompress
    rw [← Work.bytes_of_clean hw]
    refine ⟨hunpacked.result, hunpacked.work, ?_, hunpacked.state⟩
    dsimp only
    rw [← WorkBuffer.drop_clean, ← WorkBuffer.drop_clean, hunpacked.heaps, hbuffer]

end Compression

end Stage

end FilePipeline
