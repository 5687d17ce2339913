import FilePipeline.Proofs.Frame.Accepted
import FilePipeline.Proofs.Heap.Errands
import FilePipeline.Proofs.Stage.Custody
import FilePipeline.Proofs.Stage.Frames
import FilePipeline.Proofs.Stage.Transfers

/-! # What the stages ask of heaps

In the I/O stage a read asks for one buffer, once the backend has told the size of the file
(`ioDemands`). In the compression stage a read asks for one once the header of the frame was checked, and
a write asks for room for its frame (`compressionDemands`). That is all (`asked_processIo`,
`asked_processCompression`), and the buffer that a read brings to the compression stage is given back after
it (`heaps_decompressed`).

A header that passes the check announces no more than 255 times as many bytes as follow it
(`le_of_checkHeader`), so the buffer for the payload is bounded by what was read (`layout_payloadDemand`). -/

namespace FilePipeline

theorem Frame.le_of_checkHeader {frame : List UInt8} {n : Nat}
    (h : Frame.checkHeader Codec.lz4 () frame = .ok n) : headerSize ≤ frame.length ∧
      n ≤ min (255 * (frame.length - 4)) 4294967295 := by
  obtain ⟨hlen, hn⟩ := readHeader_iff.mp (readHeader_of_checkHeader h)
  have hheader := readHeader_of_checkHeader h
  have hlt := LittleEndian.decode_lt (frame.take headerSize)
  rw [List.length_take, Nat.min_eq_left hlen, ← hn] at hlt
  have hlt : n < 4294967296 := hlt
  have hle : n ≤ min ((frame.length - 4) * 255) 18446744073709551615 := by
    unfold Frame.checkHeader at h
    rw [hheader] at h
    dsimp only at h
    split at h
    · cases h
    · next hbound => exact Nat.not_lt.mp hbound
  refine ⟨hlen, ?_⟩
  omega

namespace Stage

variable {σ η κ : Type} {p : Setup σ η κ} {hs : Heaps} {w w' : Work} {s : σ} {h : η} {k : κ}

/-! ### The I/O stage -/

/-- The size that the backend tells for the file of a read, if it comes to that. -/
def toldSize? (p : Setup σ η κ) (s : σ) (w : Work) : Option Nat :=
  match p.backend.translate s w.path.text with
  | .error _ => none
  | .ok path =>
    let opened := p.backend.openFile s path .sharedRead
    match opened.result with
    | .error _ => none
    | .ok h => (p.backend.querySize opened.state h).result.toOption

/-- The request of a read whose file is said to have this size. -/
def readDemand (p : Setup σ η κ) (w : Work) (size : Nat) : Demand :=
  ⟨(readTarget p w size).1, Buffer.layoutOf (readTarget p w size).2 p.config.bufferAlignment⟩

/-- A request to the pipeline's own heap. -/
def ownDemand (p : Setup σ η κ) (capacity : Nat) : Demand :=
  ⟨p.ownHeap, Buffer.layoutOf capacity p.config.bufferAlignment⟩

theorem readDemand_of_compressed (h : w.compressed = true) (size : Nat) :
    readDemand p w size = ownDemand p size := by
  unfold readDemand readTarget
  rw [if_pos h]
  rfl

/-- What the I/O stage asks for. -/
def ioDemands (p : Setup σ η κ) (s : σ) (w : Work) : List Demand :=
  match w.op with
  | .read => ((toldSize? p s w).map (readDemand p w)).toList
  | .write => []

theorem asked_readContents (p : Setup σ η κ) (hs : Heaps) (w : Work) (s : σ) (h : η) :
    hs.Asked (((p.backend.querySize s h).result.toOption.map (readDemand p w)).toList)
      (readContents p hs w s h).heaps := by
  unfold readContents
  dsimp only
  cases hsized : (p.backend.querySize s h).result with
  | error f => exact .refl hs
  | ok size =>
    dsimp only
    split
    · next hnew => exact .ask hnew
    · next b hs' hnew =>
      have hasked : hs.Asked [readDemand p w size] hs' := .ask hnew
      split
      · exact hasked.giveBack b
      · split
        · exact hasked.giveBack b
        · exact hasked.drop w.buffer

theorem asked_processIo (p : Setup σ η κ) (hs : Heaps) (s : σ) (w : Work) :
    hs.Asked (ioDemands p s w) (processIo p hs s w).heaps := by
  cases hop : w.op with
  | read =>
    unfold processIo ioDemands
    rw [hop]
    dsimp only
    unfold read withFile toldSize?
    cases p.backend.translate s w.path.text with
    | error e => exact .refl hs
    | ok path =>
      dsimp only
      cases (p.backend.openFile s path .sharedRead).result with
      | error f => exact .refl hs
      | ok h =>
        dsimp only
        rw [heaps_closing]
        exact asked_readContents p hs w _ h
  | write =>
    unfold ioDemands
    rw [heaps_processIo_write p hs s hop, hop]
    exact .refl hs

theorem demand_of_lease {b b' : Buffer} (h : b'.lease = b.lease) : b'.demand = b.demand :=
  congrArg (fun l : Lease => (⟨l.heap, l.layout⟩ : Demand)) h

/-- The buffer of a read that has loaded its file is the one it has asked for. -/
theorem demand_readContents {b : Buffer} (hnone : w.buffer = .none)
    (hb : (readContents p hs w s h).work.buffer = .owned b) :
    ∃ size, (p.backend.querySize s h).result = .ok size ∧ b.demand = readDemand p w size := by
  have hempty : w.buffer ≠ .owned b := by
    rw [hnone]
    exact fun he => by cases he
  unfold readContents at hb
  dsimp only at hb
  split at hb
  · exact absurd hb hempty
  · next size hsize =>
    split at hb
    · exact absurd hb hempty
    · next b₀ hs' hnew =>
      split at hb
      · exact absurd hb hempty
      · split at hb
        · exact absurd hb hempty
        · next b' hfilled =>
          obtain rfl : b' = b := WorkBuffer.owned.inj hb
          have hsame : b₀.demand = readDemand p w size := Heaps.demand_newBuffer hnew
          exact ⟨size, hsize, (demand_of_lease (lease_received hfilled)).trans hsame⟩

theorem demand_processIo {b : Buffer} (hop : w.op = .read) (hnone : w.buffer = .none)
    (hb : (processIo p hs s w).work.buffer = .owned b) :
    ∃ size, toldSize? p s w = some size ∧ b.demand = readDemand p w size := by
  have hempty : w.buffer ≠ .owned b := by
    rw [hnone]
    exact fun he => by cases he
  unfold processIo at hb
  rw [hop] at hb
  dsimp only at hb
  unfold read withFile at hb
  unfold toldSize?
  cases ht : p.backend.translate s w.path.text with
  | error e =>
    rw [ht] at hb
    exact absurd hb hempty
  | ok path =>
    rw [ht] at hb
    dsimp only at hb ⊢
    cases ho : (p.backend.openFile s path .sharedRead).result with
    | error f =>
      rw [ho] at hb
      exact absurd hb hempty
    | ok h =>
      rw [ho] at hb
      dsimp only at hb ⊢
      rw [work_closing] at hb
      obtain ⟨size, hsize, hdemand⟩ := demand_readContents hnone hb
      exact ⟨size, congrArg Except.toOption hsize, hdemand⟩

theorem HasLoaded.told {size n : Nat} (hl : HasLoaded p s w w' size n) :
    toldSize? p s w = some size := by
  obtain ⟨path, h, b, ht, ho, hloads, -⟩ := hl
  unfold toldSize?
  rw [ht]
  dsimp only
  rw [ho]
  dsimp only
  rw [hloads.told]
  rfl

theorem HasLoaded.demand {size n : Nat} (hop : w.op = .read) (hnone : w.buffer = .none)
    (hl : HasLoaded p s w (processIo p hs s w).work size n) :
    ∃ b, (processIo p hs s w).work.buffer = .owned b ∧ b.demand = readDemand p w size ∧
      b.bytes.length = n := by
  obtain ⟨path, h, b, -, -, hloads, hwork⟩ := id hl
  obtain ⟨b₀, -, hfilled⟩ := hloads.filled
  have hbuffer : (processIo p hs s w).work.buffer = .owned b := by rw [hwork]
  obtain ⟨size', htold, hdemand⟩ := demand_processIo hop hnone hbuffer
  obtain rfl := Option.some.inj (hl.told.symm.trans htold)
  exact ⟨b, hbuffer, hdemand, hfilled.length_bytes⟩

/-! ### The compression stage -/

/-- The request for the payload of a frame that announces `n` bytes. -/
def payloadDemand (p : Setup σ η κ) (w : Work) (n : Nat) : Demand :=
  ⟨w.heap, Buffer.layoutOf (Size.saturatingAdd n w.extra) p.config.bufferAlignment⟩

/-- What the compression stage asks for. -/
def compressionDemands (p : Setup σ η κ) (k : κ) (w : Work) : List Demand :=
  match w.op with
  | .read => ((Frame.examine p.codec k w.buffer.bytes).toOption.map (payloadDemand p w)).toList
  | .write => ((Frame.bound p.codec k w.buffer.bytes.length).toOption.map (ownDemand p)).toList

theorem compressionDemands_read (p : Setup σ η κ) (k : κ) (hop : w.op = .read) :
    compressionDemands p k w =
      ((Frame.examine p.codec k w.buffer.bytes).toOption.map (payloadDemand p w)).toList := by
  unfold compressionDemands
  rw [hop]

theorem asked_unpack (p : Setup σ η κ) (hs : Heaps) (k : κ) (w : Work) (frame : List UInt8) :
    hs.Asked (((Frame.examine p.codec k frame).toOption.map (payloadDemand p w)).toList)
      (unpack p hs k w frame).heaps := by
  unfold unpack
  cases Frame.examine p.codec k frame with
  | error e => exact .refl hs
  | ok n =>
    dsimp only
    split
    · next hnew => exact .ask hnew
    · next b hs' hnew =>
      have hasked : hs.Asked [payloadDemand p w n] hs' := .ask hnew
      split
      · exact hasked.giveBack b
      · split
        · exact hasked.giveBack b
        · exact hasked.drop w.buffer

theorem asked_compress (p : Setup σ η κ) (hs : Heaps) (k : κ) (w : Work) :
    hs.Asked (((Frame.bound p.codec k w.buffer.bytes.length).toOption.map (ownDemand p)).toList)
      (compress p hs k w).heaps := by
  unfold compress
  dsimp only
  cases Frame.bound p.codec k w.buffer.bytes.length with
  | error c => exact .refl hs
  | ok room =>
    dsimp only
    split
    · next hnew => exact .ask hnew
    · next b hs' hnew =>
      have hasked : hs.Asked [ownDemand p room] hs' := .ask hnew
      split
      · exact hasked.giveBack b
      · split
        · exact hasked.giveBack b
        · exact hasked.drop w.buffer

/-- The heaps after the compression stage has done with a read, but for the buffer that the read has
    brought along: that is what is given back last. -/
theorem heaps_decompressed (p : Setup σ η κ) (hs : Heaps) (k : κ) (hop : w.op = .read) :
    ∃ hs', hs.Asked (compressionDemands p k w) hs' ∧
      (processCompression p hs k w).heaps = (w.buffer.drop hs').1 := by
  refine ⟨(unpack p hs k { w with buffer := .none } w.buffer.bytes).heaps, ?_, ?_⟩
  · rw [compressionDemands_read p k hop]
    exact asked_unpack p hs k { w with buffer := .none } w.buffer.bytes
  · rw [processCompression_read p hs k hop]
    rfl

theorem asked_processCompression (p : Setup σ η κ) (hs : Heaps) (k : κ) (w : Work) :
    hs.Asked (compressionDemands p k w) (processCompression p hs k w).heaps := by
  cases hop : w.op with
  | read =>
    obtain ⟨hs', hasked, hheaps⟩ := heaps_decompressed p hs k hop
    rw [hheaps]
    exact hasked.drop w.buffer
  | write =>
    unfold compressionDemands processCompression
    rw [hop]
    exact asked_compress p hs k w

/-- How large a block a read asks for in the compression stage. -/
theorem layout_payloadDemand {frame : List UInt8} {n : Nat}
    (h : Frame.checkHeader Codec.lz4 () frame = .ok n) :
    (payloadDemand p w n).layout = Buffer.layoutOf (n + w.extra) p.config.bufferAlignment ∧
      (payloadDemand p w n).layout.size ≤
        max 1 (min (255 * (frame.length - 4)) 4294967295 + w.extra) := by
  obtain ⟨-, hn⟩ := Frame.le_of_checkHeader h
  have hextra : w.extra ≤ 1 := by
    unfold Work.extra
    split <;> omega
  have hroom : Size.saturatingAdd n w.extra = n + w.extra := by
    show min (n + w.extra) 18446744073709551615 = n + w.extra
    omega
  have hlayout : (payloadDemand p w n).layout = Buffer.layoutOf (n + w.extra) p.config.bufferAlignment := by
    unfold payloadDemand
    rw [hroom]
  refine ⟨hlayout, ?_⟩
  rw [hlayout]
  show max (n + w.extra) 1 ≤ _
  omega

end Stage

end FilePipeline
