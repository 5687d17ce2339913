import FilePipeline.Proofs.Heap.Layouts
import FilePipeline.Proofs.Memory.Overlay

/-! # What is written to a buffer

Whoever owns a buffer can set its length, store bytes anywhere in its storage or only within its length,
and terminate it (`Buffer.Call`). A call writes at most one piece of bytes (`written`). A buffer is `Intact`
when it still is what its record tells: the block it was allocated with is around its capacity, its capacity
around its length and around every piece, and its storage holds at each index the byte that was written
there last (`lastWritten`). Every call keeps that up (`Intact.perform`); no call but a write moves a byte, so
a length that shrinks and grows again shows what was there before. `Intact.sound` says what an intact
buffer shows, and what comes of the next call. -/

namespace FilePipeline

theorem Span.byte_overlay_ofList (s : Span) (offset : Nat) (data : List UInt8) (i : Nat) :
    (s.overlay offset (ofList data)).byte i =
      if offset ≤ i then data[i - offset]?.getD (s.byte i) else s.byte i := by
  show (if offset ≤ i ∧ i < offset + (ofList data).size then _ else _) = _
  rw [size_ofList]
  by_cases ho : offset ≤ i
  · rw [if_pos ho]
    by_cases hi : i < offset + data.length
    · rw [if_pos ⟨ho, hi⟩, byte_ofList (by omega), List.getElem?_eq_getElem (by omega)]
      rfl
    · rw [if_neg fun h => hi h.2, List.getElem?_eq_none (by omega)]
      rfl
  · rw [if_neg ho, if_neg fun h => ho h.1]

namespace Buffer

/-! ### Pieces -/

/-- Bytes, and the offset in the storage at which they were written. -/
structure Piece where
  offset : Nat
  data : List UInt8

/-- The byte that was written last at an index, the pieces being listed last first. A new buffer is all
zeros. -/
def lastWritten : List Piece → Nat → UInt8
  | [], _ => 0
  | p :: ps, i =>
    if p.offset ≤ i then p.data[i - p.offset]?.getD (lastWritten ps i) else lastWritten ps i

/-- The buffer after a piece was written. -/
def put (b : Buffer) (p : Piece) : Buffer :=
  b.write (b.storage.overlay p.offset (Span.ofList p.data)).byte

/-- The buffer after bytes were stored within its length, from an offset on; none if they reach past it. -/
def edit? (b : Buffer) (offset : Nat) (data : List UInt8) : Option Buffer :=
  if offset + data.length ≤ b.length then some (b.put ⟨offset, data⟩) else none

variable {b : Buffer}

theorem fill_eq (b : Buffer) (byte : UInt8) : b.fill byte = b.put ⟨0, List.replicate b.length byte⟩ := by
  unfold fill put
  congr 2
  refine Span.overlay_congr ⟨?_, fun i hi => ?_⟩ _ _
  · rw [Span.size_ofList, List.length_replicate]
    rfl
  · have hlt : i < (List.replicate b.length byte).length := by rwa [List.length_replicate]
    rw [Span.byte_ofList hlt, List.getElem_replicate]
    rfl

theorem terminate_eq (b : Buffer) :
    b.terminate = if b.length < b.capacity then (true, b.put ⟨b.length, [0]⟩) else (false, b) := by
  have hset : b.storage.set b.length 0 = b.storage.overlay b.length (Span.ofList [0]) := by
    unfold Span.set Span.overlay
    congr 1
    funext i
    show (if i = b.length then 0 else b.storage.byte i) =
      if b.length ≤ i ∧ i < b.length + 1 then (Span.ofList [0]).byte (i - b.length) else b.storage.byte i
    by_cases hi : i = b.length
    · subst hi
      rw [if_pos rfl, if_pos ⟨Nat.le_refl _, Nat.lt_succ_self _⟩, Nat.sub_self]
      rfl
    · rw [if_neg hi, if_neg (by omega)]
  unfold terminate put
  rw [hset]

/-! ### Calls -/

/-- What can be done to a buffer. -/
inductive Call where
  | setLength (n : Nat)
  | store (offset : Nat) (data : List UInt8)
  | edit (offset : Nat) (data : List UInt8)
  | fill (byte : UInt8)
  | terminate

/-- What comes of a call. -/
inductive Reply where
  | done
  | outOfRange
  | crashed (c : Crash)
  | terminated (room : Bool)
  deriving DecidableEq

/-- A call, with what comes of it and the buffer afterwards. A call that crashes or is out of range leaves
the buffer to its owner. -/
def perform (b : Buffer) : Call → Reply × Buffer
  | .setLength n =>
    match b.setLength n with
    | .ok b' => (.done, b')
    | .error c => (.crashed c, b)
  | .store offset data =>
    match b.store? offset data with
    | some b' => (.done, b')
    | none => (.outOfRange, b)
  | .edit offset data =>
    match b.edit? offset data with
    | some b' => (.done, b')
    | none => (.outOfRange, b)
  | .fill byte => (.done, b.fill byte)
  | .terminate => (.terminated b.terminate.1, b.terminate.2)

/-- The piece that a call writes. -/
def written (b : Buffer) : Call → Option Piece
  | .setLength _ => none
  | .store offset data => if offset + data.length ≤ b.capacity then some ⟨offset, data⟩ else none
  | .edit offset data => if offset + data.length ≤ b.length then some ⟨offset, data⟩ else none
  | .fill byte => some ⟨0, List.replicate b.length byte⟩
  | .terminate => if b.length < b.capacity then some ⟨b.length, [0]⟩ else none

theorem perform_setLength (b : Buffer) (n : Nat) : b.perform (.setLength n) =
    if n ≤ b.capacity then (.done, { b with length := n }) else (.crashed .lengthPastCapacity, b) := by
  unfold perform setLength
  dsimp only
  by_cases hn : n ≤ b.capacity
  · rw [if_pos hn, if_pos hn]
  · rw [if_neg hn, if_neg hn]

/-- A call sets the length, or writes its piece, or leaves the buffer as it was. -/
theorem perform_cases (b : Buffer) (c : Call) :
    (∃ p, b.written c = some p ∧ (b.perform c).2 = b.put p) ∨
      b.written c = none ∧ ((b.perform c).2 = b ∨
        ∃ n ≤ b.capacity, (b.perform c).2 = { b with length := n }) := by
  cases c with
  | setLength n =>
    rw [perform_setLength]
    by_cases hn : n ≤ b.capacity
    · rw [if_pos hn]
      exact Or.inr ⟨rfl, Or.inr ⟨n, hn, rfl⟩⟩
    · rw [if_neg hn]
      exact Or.inr ⟨rfl, Or.inl rfl⟩
  | store offset data =>
    unfold perform written store?
    dsimp only
    by_cases hfits : offset + data.length ≤ b.capacity
    · rw [if_pos hfits, if_pos hfits]
      exact Or.inl ⟨_, rfl, rfl⟩
    · rw [if_neg hfits, if_neg hfits]
      exact Or.inr ⟨rfl, Or.inl rfl⟩
  | edit offset data =>
    unfold perform written edit?
    dsimp only
    by_cases hfits : offset + data.length ≤ b.length
    · rw [if_pos hfits, if_pos hfits]
      exact Or.inl ⟨_, rfl, rfl⟩
    · rw [if_neg hfits, if_neg hfits]
      exact Or.inr ⟨rfl, Or.inl rfl⟩
  | fill byte => exact Or.inl ⟨_, rfl, b.fill_eq byte⟩
  | terminate =>
    unfold perform written
    dsimp only
    rw [terminate_eq]
    by_cases hroom : b.length < b.capacity
    · rw [if_pos hroom, if_pos hroom]
      exact Or.inl ⟨_, rfl, rfl⟩
    · rw [if_neg hroom, if_neg hroom]
      exact Or.inr ⟨rfl, Or.inl rfl⟩

theorem written_le (hfits : b.length ≤ b.capacity) {c : Call} {p : Piece} (h : b.written c = some p) :
    p.offset + p.data.length ≤ b.capacity := by
  cases c with
  | setLength => cases h
  | store =>
    obtain ⟨hle, hp⟩ := Option.ite_none_right_eq_some.mp h
    obtain rfl := Option.some.inj hp
    exact hle
  | edit =>
    obtain ⟨hle, hp⟩ := Option.ite_none_right_eq_some.mp h
    obtain rfl := Option.some.inj hp
    exact Nat.le_trans hle hfits
  | fill =>
    obtain rfl := Option.some.inj h
    rwa [List.length_replicate, Nat.zero_add]
  | terminate =>
    obtain ⟨hlt, hp⟩ := Option.ite_none_right_eq_some.mp h
    obtain rfl := Option.some.inj hp
    exact hlt

/-! ### Intact buffers -/

/-- How a buffer was allocated, and what was written to it, the last piece first. -/
structure Record where
  capacity : Nat
  align : Nat
  pieces : List Piece := []

/-- The record after a call that has written a piece or nothing. -/
def Record.add (r : Record) (p : Option Piece) : Record := { r with pieces := p.toList ++ r.pieces }

/-- The buffer still is what its record tells. -/
structure Intact (b : Buffer) (r : Record) : Prop where
  capacity : b.capacity = r.capacity
  layout : b.layout = layoutOf r.capacity r.align
  valid : ¬b.layout.Rejected
  fits : b.length ≤ b.capacity
  inside : ∀ p ∈ r.pieces, p.offset + p.data.length ≤ b.capacity
  byte : ∀ i < b.capacity, b.storage.byte i = lastWritten r.pieces i

variable {r : Record}

theorem Intact.put (h : b.Intact r) {p : Piece} (hp : p.offset + p.data.length ≤ b.capacity) :
    (b.put p).Intact (r.add (some p)) where
  capacity := h.capacity
  layout := h.layout
  valid := h.valid
  fits := h.fits
  inside q hq := by
    rcases List.mem_cons.mp hq with rfl | hq
    · exact hp
    · exact h.inside q hq
  byte i hi := by
    show (b.storage.overlay p.offset (Span.ofList p.data)).byte i = lastWritten (p :: r.pieces) i
    rw [Span.byte_overlay_ofList, h.byte i hi]
    rfl

theorem Intact.resize (h : b.Intact r) {n : Nat} (hn : n ≤ b.capacity) :
    { b with length := n }.Intact r :=
  ⟨h.capacity, h.layout, h.valid, hn, h.inside, h.byte⟩

theorem intact_newBuffer {hs hs' : Heaps} {id : HeapId} {capacity align : Nat}
    (h : hs.newBuffer id capacity align = (.ok b, hs')) : b.Intact { capacity, align } := by
  have hasking := hs.asking id capacity align
  rw [h] at hasking
  cases hasking with
  | granted hvalid _ _ hcapacity hlayout hfresh =>
    have hb := hfresh.layout.trans hlayout
    refine ⟨hcapacity, hb, hb ▸ hvalid, ?_, nofun, hfresh.zeros⟩
    rw [hfresh.length]
    exact Nat.zero_le _

theorem intact_bufferOf {hs hs' : Heaps} {id : HeapId} {data : List UInt8}
    (h : hs.bufferOf id data = (.ok b, hs')) :
    b.Intact { capacity := data.length, align := defaultAlignment, pieces := [⟨0, data⟩] } := by
  unfold Heaps.bufferOf at h
  split at h
  · cases h
  · next b₀ _ hnew =>
    cases h
    have hnew := intact_newBuffer hnew
    have hfits : data.length ≤ b₀.capacity := Nat.le_of_eq hnew.capacity.symm
    have hput := hnew.put (p := ⟨0, data⟩) (by rwa [Nat.zero_add])
    exact hput.resize hfits

theorem Intact.perform (h : b.Intact r) (c : Call) :
    (b.perform c).2.Intact (r.add (b.written c)) := by
  rcases b.perform_cases c with ⟨p, hp, hb⟩ | ⟨hnone, hb | ⟨n, hn, hb⟩⟩
  · rw [hb, hp]
    exact h.put (written_le h.fits hp)
  · rw [hb, hnone]
    exact h
  · rw [hb, hnone]
    exact h.resize hn

/-! ### What an intact buffer shows -/

theorem Intact.toList_storage (h : b.Intact r) :
    b.storage.toList = (List.range b.capacity).map (lastWritten r.pieces) :=
  List.map_congr_left fun i hi => h.byte i (List.mem_range.mp hi)

theorem Intact.bytes_eq (h : b.Intact r) :
    b.bytes = (List.range b.length).map (lastWritten r.pieces) := by
  rw [bytes_eq_take, h.toList_storage, ← List.map_take, List.take_range, Nat.min_eq_left h.fits]

/-- What a buffer with the record `r` shows, and what comes of the next call. -/
structure Sound (b : Buffer) (r : Record) : Prop where
  capacity : b.capacity = r.capacity
  layout : b.layout = layoutOf r.capacity r.align
  valid : ¬b.layout.Rejected
  /-- Neither the length nor anything that was written leaves the block. -/
  block : b.length ≤ b.capacity ∧ b.capacity ≤ b.layout.size ∧ b.layout.size = max b.capacity 1
  inside : ∀ p ∈ r.pieces, p.offset + p.data.length ≤ b.capacity
  storage : b.storage.toList = (List.range b.capacity).map (lastWritten r.pieces)
  bytes : b.bytes = b.storage.toList.take b.length
  terminated_iff : b.terminated?.isSome = true ↔ b.length < b.capacity
  terminated : b.terminated? = b.storage.toList[b.length]?.map (b.bytes ++ [·])
  terminate : b.Terminates b.terminate.1 b.terminate.2
  /-- Any length within the capacity shows the bytes that were written last. -/
  resized : ∀ n ≤ b.capacity, b.perform (.setLength n) = (.done, { b with length := n }) ∧
    { b with length := n }.bytes = (List.range n).map (lastWritten r.pieces)
  refused : ∀ n, b.capacity < n → b.perform (.setLength n) = (.crashed .lengthPastCapacity, b)

theorem Intact.sound (h : b.Intact r) : b.Sound r where
  capacity := h.capacity
  layout := h.layout
  valid := h.valid
  block := by
    rw [h.layout, h.capacity]
    exact ⟨h.capacity ▸ h.fits, Nat.le_max_left _ _, rfl⟩
  inside := h.inside
  storage := h.toList_storage
  bytes := b.bytes_eq_take
  terminated_iff := b.isSome_terminated?_iff
  terminated := b.terminated?_eq
  terminate := b.terminates
  resized n hn := ⟨(b.perform_setLength n).trans (if_pos hn), (h.resize hn).bytes_eq⟩
  refused n hn := (b.perform_setLength n).trans (if_neg (Nat.not_le_of_lt hn))

end Buffer

end FilePipeline
