import FilePipeline.Heap.Buffer
import FilePipeline.Proofs.Memory.Prefix
import FilePipeline.Size
import Mathlib.Tactic.Common

/-! # Buffers that are filled and handed over

A new buffer is all zeros whatever its heap is like (`newBuffer_ok`). A buffer shows the bytes in front of
its length, and the one right after them is all that a terminator can change (`Terminates`).
`Buffer.Delivers b data` says that a buffer shows `data` to whoever gets it, and `data` with a zero byte
behind it if a terminator was asked for; that is so once its storage starts with `data` and its length was
set. -/

namespace FilePipeline

theorem Source.contents_zeroed (s : Source) (address : Nat) (l : Layout) {i : Nat}
    (hi : i < l.size) : (s.contents address l true).byte i = 0 := by
  unfold Source.contents
  rw [if_pos rfl]
  split
  · rfl
  · exact if_pos ⟨Nat.zero_le _, by rw [Span.size_zeros]; omega⟩

@[simp] theorem Source.size_contents (s : Source) (address : Nat) (l : Layout) (zeroed : Bool) :
    (s.contents address l zeroed).size = l.size := by
  unfold Source.contents
  split
  · split <;> rfl
  · rfl

theorem Layout.size_le_rounded {l : Layout} (h : 0 < l.align) : l.size ≤ l.rounded := by
  have hdiv := Nat.div_add_mod (l.size + (l.align - 1)) l.align
  have hmod := Nat.mod_lt (l.size + (l.align - 1)) h
  unfold rounded
  rw [Nat.mul_comm]
  omega

theorem Layout.size_le_of_isValid {l : Layout} (h : l.isValid = true) : l.size ≤ maxSize := by
  unfold isValid isPowerOfTwo at h
  simp only [Bool.and_eq_true, bne_iff_ne, ne_eq, decide_eq_true_eq] at h
  obtain ⟨⟨hne, -⟩, hle⟩ := h
  exact Nat.le_trans (size_le_rounded (Nat.pos_of_ne_zero hne)) hle

namespace Heaps

theorem block_of_allocate {hs hs' : Heaps} {id : HeapId} {l : Layout} {zeroed : Bool} {block : Block}
    (h : hs.allocate id l zeroed = (.ok block, hs')) :
    ∃ s : Source, block = ⟨block.address, l, s.contents block.address l zeroed⟩ := by
  unfold allocate serve at h
  dsimp only at h
  split at h
  · cases h
  · next hserve =>
    split at hserve
    · split at hserve
      · cases hserve
      · cases hserve
        cases h
        exact ⟨_, rfl⟩
    · cases hserve

theorem allocate_zeroed {hs hs' : Heaps} {id : HeapId} {l : Layout} {block : Block}
    (h : hs.allocate id l true = (.ok block, hs')) {i : Nat} (hi : i < l.size) :
    block.contents.byte i = 0 := by
  obtain ⟨s, hblock⟩ := block_of_allocate h
  rw [hblock]
  exact s.contents_zeroed _ _ hi

theorem exists_block_of_newBuffer {hs hs' : Heaps} {id : HeapId} {capacity align : Nat} {b : Buffer}
    (h : hs.newBuffer id capacity align = (.ok b, hs')) :
    (Buffer.layoutOf capacity align).isValid = true ∧ ∃ block hs₁,
      hs.allocate id (Buffer.layoutOf capacity align) true = (.ok block, hs₁) ∧ hs' = hs₁.retain id ∧
        b = { heap := id, address := block.address, layout := Buffer.layoutOf capacity align,
              storage := ⟨capacity, block.contents.byte⟩ } := by
  unfold newBuffer at h
  dsimp only at h
  split at h
  · next hv =>
    split at h
    · cases h
    · next block hs₁ ha =>
      cases h
      exact ⟨hv, block, hs₁, ha, rfl, rfl⟩
  · cases h

theorem newBuffer_ok {hs hs' : Heaps} {id : HeapId} {capacity align : Nat} {b : Buffer}
    (h : hs.newBuffer id capacity align = (.ok b, hs')) :
    b.storage.Agrees (.zeros capacity) ∧ capacity ≤ Layout.maxSize := by
  obtain ⟨hv, block, _, ha, -, rfl⟩ := exists_block_of_newBuffer h
  have hle : capacity ≤ (Buffer.layoutOf capacity align).size := Nat.le_max_left _ _
  refine ⟨⟨rfl, fun i hi => allocate_zeroed ha (Nat.lt_of_lt_of_le hi hle)⟩, ?_⟩
  exact Nat.le_trans hle (Layout.size_le_of_isValid hv)

/-- A request that reaches the largest size is refused, so what is served was added up exactly. -/
theorem newBuffer_saturating {hs hs' : Heaps} {id : HeapId} {n m align : Nat} {b : Buffer}
    (h : hs.newBuffer id (Size.saturatingAdd n m) align = (.ok b, hs')) :
    b.storage.size = n + m ∧ n + m ≤ Layout.maxSize := by
  obtain ⟨hstorage, hmax⟩ := newBuffer_ok h
  have hlt : Layout.maxSize < Size.max := by decide
  have hsize := hstorage.size
  rw [Span.size_zeros] at hsize
  unfold Size.saturatingAdd at hsize hmax
  omega

end Heaps

namespace Buffer

/-! ### What a buffer shows -/

theorem bytes_eq_take (b : Buffer) : b.bytes = b.storage.toList.take b.length :=
  b.storage.toList_take b.length

theorem terminated?_eq (b : Buffer) :
    b.terminated? = b.storage.toList[b.length]?.map (b.bytes ++ [·]) := by
  unfold terminated?
  rw [bytes_eq_take, Span.toList_take, List.take_add_one, Span.getElem?_toList]
  by_cases hroom : b.length < b.capacity
  · rw [if_pos hroom, if_pos (show b.length < b.storage.size from hroom)]
    rfl
  · rw [if_neg hroom, if_neg (show ¬b.length < b.storage.size from hroom)]
    rfl

theorem isSome_terminated?_iff (b : Buffer) : b.terminated?.isSome = true ↔ b.length < b.capacity := by
  unfold terminated?
  split
  · next hlt => exact iff_of_true rfl hlt
  · next hge => exact iff_of_false nofun hge

/-- What terminating does: at most the byte right after the length changes, to zero. -/
structure Terminates (b : Buffer) (room : Bool) (b' : Buffer) : Prop where
  room_iff : room = true ↔ b.length < b.capacity
  full : room = false → b' = b
  length : b'.length = b.length
  bytes : b'.bytes = b.bytes
  storage : b'.storage.toList = b.storage.toList.set b.length 0

theorem terminates (b : Buffer) : b.Terminates b.terminate.1 b.terminate.2 := by
  have hsize : b.storage.toList.length = b.capacity := Span.length_toList _
  unfold terminate
  by_cases hroom : b.length < b.capacity
  · rw [if_pos hroom]
    refine ⟨iff_of_true rfl hroom, nofun, rfl, ?_, Span.toList_set _ _ _⟩
    rw [bytes_eq_take, bytes_eq_take]
    show (b.storage.set b.length 0).toList.take b.length = _
    rw [Span.toList_set, List.take_set_of_le (Nat.le_refl _)]
  · rw [if_neg hroom]
    refine ⟨iff_of_false nofun hroom, fun _ => rfl, rfl, rfl, ?_⟩
    rw [List.set_eq_of_length_le (by omega)]

theorem terminated?_terminate {b : Buffer} (h : b.length < b.capacity) :
    b.terminate.2.terminated? = some (b.terminate.2.bytes ++ [0]) := by
  have ht := b.terminates
  rw [terminated?_eq, ht.length, ht.storage, List.getElem?_set_self (by rwa [Span.length_toList])]
  rfl

theorem capacity_terminate (b : Buffer) : b.terminate.2.capacity = b.capacity := by
  unfold terminate
  split <;> rfl

/-! ### Buffers that are handed over -/

/-- The buffer shows `data`, with a zero byte behind it if it is terminated. -/
structure Delivers (b : Buffer) (data : List UInt8) (terminated : Bool) : Prop where
  length : b.length = data.length
  bytes : b.bytes = data
  terminator : terminated = true → b.terminated? = some (data ++ [0])

variable {b : Buffer} {data : List UInt8}

theorem delivers_of_starts (h : b.storage.Starts data) :
    { b with length := data.length }.Delivers data false :=
  ⟨rfl, h.toList_take rfl, fun ht => by cases ht⟩

theorem delivers_terminate (h : b.storage.Starts data) (hroom : data.length < b.storage.size) :
    ({ b with length := data.length }.terminate.2).Delivers data true := by
  have ht := ({ b with length := data.length } : Buffer).terminates
  have hbytes := ht.bytes.trans (delivers_of_starts h).bytes
  have hterminated := terminated?_terminate (b := { b with length := data.length }) hroom
  rw [hbytes] at hterminated
  exact ⟨ht.length, hbytes, fun _ => hterminated⟩

theorem delivers_of_setLength (h : b.storage.Starts data) {n : Nat} (hn : n = data.length)
    (terminated : Bool) (hroom : terminated = true → data.length < b.storage.size) :
    ∃ b', (b.setLength n).map (fun b => if terminated then b.terminate.2 else b) = .ok b' ∧
      b'.Delivers data terminated := by
  subst hn
  have hset : b.setLength data.length = .ok { b with length := data.length } := if_pos h.fits
  rw [hset]
  refine ⟨_, rfl, ?_⟩
  cases terminated with
  | false => exact delivers_of_starts h
  | true => exact delivers_terminate h (hroom rfl)

/-! ### What any buffer is after it was filled -/

/-- `b'` is `b` with `n` bytes in it, and terminated if that was asked for. -/
structure Filled (b : Buffer) (n : Nat) (terminated : Bool) (b' : Buffer) : Prop where
  fits : n ≤ b.capacity
  length : b'.length = n
  capacity : b'.capacity = b.capacity
  terminator : terminated = true → n < b.capacity → b'.terminated? = some (b'.bytes ++ [0])

variable {b' : Buffer} {n : Nat} {terminated : Bool}

theorem filled_of_setLength
    (h : (b.setLength n).map (fun b => if terminated then b.terminate.2 else b) = .ok b') :
    b.Filled n terminated b' := by
  by_cases hn : n ≤ b.capacity
  · rw [show b.setLength n = .ok { b with length := n } from if_pos hn] at h
    obtain rfl := Except.ok.inj h
    cases terminated with
    | false => exact ⟨hn, rfl, rfl, fun ht => by cases ht⟩
    | true => exact ⟨hn, (terminates _).length, capacity_terminate _, fun _ hlt => terminated?_terminate hlt⟩
  · rw [show b.setLength n = .error .lengthPastCapacity from if_neg hn] at h
    cases h

theorem Filled.length_bytes (h : b.Filled n terminated b') : b'.bytes.length = n := by
  have hfits := h.fits
  rw [← h.capacity] at hfits
  unfold bytes
  rw [Span.length_toList, Span.size_take, h.length]
  exact Nat.min_eq_left hfits

theorem Filled.isSome_terminated? (h : b.Filled n terminated b') :
    b'.terminated?.isSome = true ↔ n < b.capacity := by
  rw [isSome_terminated?_iff, h.length, h.capacity]

end Buffer

end FilePipeline
