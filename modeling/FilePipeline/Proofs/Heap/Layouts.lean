import FilePipeline.Proofs.Heap.Buffers

/-! # Layouts there is no memory for

A layout is rejected (`Layout.Rejected`) if its alignment is no power of two, or if no multiple of the
alignment that can be addressed is as large as its size; the others are the valid ones
(`isValid_iff`). `Heaps.Asking` says what asking a heap for a buffer comes to. With a rejected layout the
heap is not even asked. With any other one it decides, and a buffer that is granted lies in the block that
the heap has served. -/

namespace FilePipeline

theorem isPowerOfTwo_iff {n : Nat} : isPowerOfTwo n = true ↔ ∃ k, n = Nat.pow 2 k := by
  unfold isPowerOfTwo
  rw [Bool.and_eq_true, bne_iff_ne, beq_iff_eq]
  constructor
  · rintro ⟨-, h⟩
    exact ⟨_, h.symm⟩
  · rintro ⟨k, rfl⟩
    exact ⟨Nat.ne_of_gt (Nat.two_pow_pos k), congrArg (Nat.pow 2) Nat.log2_two_pow⟩

namespace Layout

variable {l : Layout}

theorem dvd_rounded (l : Layout) : l.align ∣ l.rounded := Nat.dvd_mul_left _ _

/-- Rounding up goes no further than it has to. -/
theorem rounded_le (h : 0 < l.align) {n : Nat} (hd : l.align ∣ n) (hn : l.size ≤ n) : l.rounded ≤ n := by
  obtain ⟨q, rfl⟩ := hd
  have hq : (l.size + (l.align - 1)) / l.align ≤ q := by
    rw [Nat.div_le_iff_le_mul_add_pred h]
    omega
  unfold rounded
  rw [Nat.mul_comm l.align]
  exact Nat.mul_le_mul_right _ hq

/-- There is no memory of this layout. -/
def Rejected (l : Layout) : Prop :=
  (¬∃ k, l.align = Nat.pow 2 k) ∨ ∀ n, l.align ∣ n → l.size ≤ n → maxSize < n

theorem isValid_iff : l.isValid = true ↔ ¬l.Rejected := by
  unfold isValid Rejected
  rw [Bool.and_eq_true, isPowerOfTwo_iff, decide_eq_true_eq, not_or, not_not]
  refine and_congr_right ?_
  rintro ⟨k, hk⟩
  have hpos : 0 < l.align := hk ▸ Nat.two_pow_pos k
  -- the rounded size is the least multiple in question, so all of them are too large if it is
  constructor
  · intro hle hall
    exact absurd (hall l.rounded l.dvd_rounded (size_le_rounded hpos)) (Nat.not_lt_of_le hle)
  · intro hsome
    by_contra hlt
    exact hsome fun n hd hn => Nat.lt_of_lt_of_le (Nat.lt_of_not_le hlt) (rounded_le hpos hd hn)

end Layout

/-- The buffer lies in the block, from its start on, and is empty and all zeros. -/
structure Buffer.Fresh (b : Buffer) (block : Block) : Prop where
  address : b.address = block.address
  layout : b.layout = block.layout
  size : block.contents.size = block.layout.size
  room : b.capacity ≤ block.contents.size
  length : b.length = 0
  zeros : ∀ i < b.capacity, b.storage.byte i = 0

namespace Heaps

variable {hs : Heaps} {id : HeapId} {capacity align : Nat}

/-- What asking a heap for a buffer comes to. -/
inductive Asking (hs : Heaps) (id : HeapId) (capacity align : Nat) :
    Except AllocError Buffer × Heaps → Prop
  /-- The error tells the capacity and the alignment. The heaps are as they were: none was asked. -/
  | rejected (h : (Buffer.layoutOf capacity align).Rejected) :
      Asking hs id capacity align (.error ⟨hs.name id, capacity, align⟩, hs)
  | refused {e : AllocError} {hs' : Heaps} (h : ¬(Buffer.layoutOf capacity align).Rejected)
      (hask : hs.allocate id (Buffer.layoutOf capacity align) true = (.error e, hs')) :
      Asking hs id capacity align (.error e, hs')
  | granted {block : Block} {b : Buffer} {hs' : Heaps}
      (h : ¬(Buffer.layoutOf capacity align).Rejected)
      (hask : hs.allocate id (Buffer.layoutOf capacity align) true = (.ok block, hs'))
      (heap : b.heap = id) (capacity_eq : b.capacity = capacity)
      (layout : block.layout = Buffer.layoutOf capacity align) (fresh : b.Fresh block) :
      Asking hs id capacity align (.ok b, hs'.retain id)

theorem asking (hs : Heaps) (id : HeapId) (capacity align : Nat) :
    hs.Asking id capacity align (hs.newBuffer id capacity align) := by
  unfold newBuffer
  dsimp only
  by_cases hv : (Buffer.layoutOf capacity align).isValid = true
  · rw [if_pos hv]
    have hlayout := Layout.isValid_iff.mp hv
    split
    · next ha => exact .refused hlayout ha
    · next block _ ha =>
      obtain ⟨s, hblock⟩ := block_of_allocate ha
      have hl : block.layout = Buffer.layoutOf capacity align := congrArg Block.layout hblock
      have hsize : block.contents.size = (Buffer.layoutOf capacity align).size := by
        rw [hblock, Source.size_contents]
      have hle : capacity ≤ (Buffer.layoutOf capacity align).size := Nat.le_max_left _ _
      refine .granted hlayout ha rfl rfl hl ⟨rfl, hl.symm, hsize.trans (congrArg _ hl.symm), ?_, rfl, ?_⟩
      · rw [hsize]
        exact hle
      · exact fun i hi => allocate_zeroed ha (Nat.lt_of_lt_of_le hi hle)
  · rw [if_neg hv]
    exact .rejected (not_not.mp fun h => hv (Layout.isValid_iff.mpr h))

end Heaps

end FilePipeline
