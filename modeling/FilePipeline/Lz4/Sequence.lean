import FilePipeline.Memory.LittleEndian

/-! # LZ4 blocks as sequences

A block is a list of sequences and a last run of literals. A sequence is a run of literal bytes and a
match: a distance back into the output and a number of bytes to copy from there. `Block.expand` is
what a block means, `Block.encode` is its written form: a token with two four-bit lengths, lengths
past 14 continued in bytes of up to 255, the literals, the distance in two bytes. -/

namespace FilePipeline.Lz4

/-- The shortest match that is written. -/
def minMatch : Nat := 4

/-- The largest distance of a match. -/
def maxDistance : Nat := 65535

/-- Literal bytes, then `length` bytes copied from `distance` bytes back. -/
structure Sequence where
  literals : List UInt8
  distance : Nat
  length : Nat
  deriving DecidableEq, Repr

/-- Sequences, then the literals that end the block. -/
structure Block where
  sequences : List Sequence
  last : List UInt8
  deriving DecidableEq, Repr

/-! ### Meaning -/

/-- Copies `n` bytes, one at a time, each from `distance` bytes back: a match may overlap itself. -/
def copyBack (out : Array UInt8) (distance : Nat) : Nat → Array UInt8
  | 0 => out
  | n + 1 => copyBack (out.push (out.getD (out.size - distance) 0)) distance n

/-- What a sequence appends to the output before it. -/
def Sequence.expand (out : Array UInt8) (s : Sequence) : Array UInt8 :=
  copyBack (out ++ s.literals) s.distance s.length

/-- The bytes a block stands for. -/
def Block.expand (b : Block) : Array UInt8 :=
  b.sequences.foldl Sequence.expand #[] ++ b.last

/-! ### Written form -/

/-- The continuation of a length: a byte 255 for each 255 of it, then the rest. -/
def extension (k : Nat) : List UInt8 :=
  List.replicate (k / 255) 255 ++ [UInt8.ofNat (k % 255)]

/-- The four bits a length has in the token. -/
def nibble (n : Nat) : Nat := min n 15

/-- The bytes a length needs besides its four bits. -/
def overflow (n : Nat) : List UInt8 := if 15 ≤ n then extension (n - 15) else []

def Sequence.encode (s : Sequence) : List UInt8 :=
  let extra := s.length - minMatch
  UInt8.ofNat (nibble s.literals.length * 16 + nibble extra) ::
    (overflow s.literals.length ++ s.literals ++ LittleEndian.encode 2 s.distance ++
      overflow extra)

/-- The written form of the last literals. -/
def encodeLast (literals : List UInt8) : List UInt8 :=
  UInt8.ofNat (nibble literals.length * 16) :: (overflow literals.length ++ literals)

def Block.encode (b : Block) : List UInt8 :=
  b.sequences.flatMap Sequence.encode ++ encodeLast b.last

end FilePipeline.Lz4
