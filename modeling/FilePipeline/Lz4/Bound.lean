import FilePipeline.Size

/-! # Size bounds of LZ4 blocks

A block is at most a tenth and twenty bytes longer than its payload; `encodedBound` is the room an
encoder asks for. A byte of a block stands for at most 255 bytes of payload. -/

namespace FilePipeline.Lz4

/-- The room an encoder asks for a payload of `n` bytes. -/
def encodedBound (n : Nat) : Except Crash Nat :=
  (Size.mul n 110).map fun m => 16 + 4 + m / 100

/-- The largest ratio of a payload's length to its block's. -/
def maxRatio : Nat := 255

/-- The largest payload that a block of `n` bytes can stand for. -/
def decodedBound (n : Nat) : Nat := Size.saturatingMul n maxRatio

end FilePipeline.Lz4
