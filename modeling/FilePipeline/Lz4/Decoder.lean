import FilePipeline.Crash
import FilePipeline.Lz4.Sequence

/-! # Decoding LZ4 blocks

`decode cap bytes` reads a block into at most `cap` bytes of output. Each way in which a block can be
broken is a value of `DecodeError`. A block ends exactly after a run of literals, where the input
ends too. The bytes that continue a length are summed up in 32 bits, and a block in which such a sum
does not fit crashes the decoder. -/

namespace FilePipeline.Lz4

/-- Why a block could not be decoded. -/
inductive DecodeError where
  | inputEnded
  | literalsPastInput
  /-- The output has room for `capacity` bytes, and `needed` were to be written. -/
  | outputTooSmall (capacity needed : Nat)
  | zeroDistance
  | distancePastOutput
  deriving DecidableEq, Repr

def DecodeError.message : DecodeError → String
  | .inputEnded => "expected another byte, found none"
  | .literalsPastInput => "literal is out of bounds of the input"
  | .outputTooSmall capacity needed =>
    s!"provided output is too small for the decompressed data, actual {capacity}, expected {needed}"
  | .zeroDistance => "0 is not a valid match offset"
  | .distancePastOutput => "the offset to copy is not contained in the decompressed buffer"

/-- The largest sum of the bytes that continue a length. -/
def maxExtension : Nat := Nat.pow 2 32 - 1

/-- Reads the continuation of a length, which is `n` so far: adds the bytes up to and including the
    first that is not 255. -/
def readExtension (n : Nat) : List UInt8 → Attempt DecodeError (Nat × List UInt8)
  | [] => Attempt.fail .inputEnded
  | b :: rest =>
    if maxExtension < n + b.toNat then Attempt.crash .addOverflow
    else if b = 255 then readExtension (n + b.toNat) rest
    else .ok (n + b.toNat, rest)

/-- Reads a length whose four bits are given. -/
def readLength (bits : Nat) (input : List UInt8) : Attempt DecodeError (Nat × List UInt8) :=
  if bits = 15 then
    match readExtension 0 input with
    | .error f => .error f
    | .ok (extension, rest) => .ok (15 + extension, rest)
  else .ok (bits, input)

/-- Reads a run of literals whose four bits are given. -/
def readLiterals (cap bits : Nat) (out : Array UInt8) (input : List UInt8) :
    Attempt DecodeError (Array UInt8 × List UInt8) :=
  match readLength bits input with
  | .error f => .error f
  | .ok (length, rest) =>
    let literals := rest.take length
    if literals.length < length then Attempt.fail .literalsPastInput
    else if cap < out.size + length then Attempt.fail (.outputTooSmall cap (out.size + length))
    else .ok (out ++ literals, rest.drop length)

/-- Reads a match whose four bits are given, and copies it. -/
def readMatch (cap bits : Nat) (out : Array UInt8) :
    List UInt8 → Attempt DecodeError (Array UInt8 × List UInt8)
  | lo :: hi :: input =>
    let distance := LittleEndian.decode [lo, hi]
    if distance = 0 then Attempt.fail .zeroDistance
    else
      match readLength bits input with
      | .error f => .error f
      | .ok (extra, rest) =>
        let length := minMatch + extra
        if cap < out.size + length then Attempt.fail (.outputTooSmall cap (out.size + length))
        else if out.size < distance then Attempt.fail .distancePastOutput
        else .ok (copyBack out distance length, rest)
  | _ => Attempt.fail .inputEnded

/-! ### What is left of the input -/

theorem length_of_readExtension {n : Nat} {input : List UInt8} {p : Nat × List UInt8}
    (h : readExtension n input = .ok p) : p.2.length < input.length := by
  fun_induction readExtension n input with
  | case1 => simp [Attempt.fail] at h
  | case2 => simp [Attempt.crash] at h
  | case3 n rest _ ih => have := ih h; simp; omega
  | case4 n b rest _ hb => simp only [Except.ok.injEq] at h; subst h; simp

theorem length_of_readLength {bits : Nat} {input : List UInt8} {p : Nat × List UInt8}
    (h : readLength bits input = .ok p) : p.2.length ≤ input.length := by
  unfold readLength at h
  split at h
  · split at h
    · simp at h
    · next hr =>
      simp only [Except.ok.injEq] at h; subst h
      have := length_of_readExtension hr
      exact Nat.le_of_lt this
  · simp only [Except.ok.injEq] at h; subst h; exact Nat.le_refl _

theorem length_of_readLiterals {cap bits : Nat} {out : Array UInt8} {input : List UInt8}
    {p : Array UInt8 × List UInt8} (h : readLiterals cap bits out input = .ok p) :
    p.2.length ≤ input.length := by
  unfold readLiterals at h
  split at h
  · simp at h
  · next length rest hr =>
    have := length_of_readLength hr
    dsimp only at h
    split at h
    · simp [Attempt.fail] at h
    · split at h
      · simp [Attempt.fail] at h
      · simp only [Except.ok.injEq] at h; subst h; simp at this ⊢; omega

theorem length_of_readMatch {cap bits : Nat} {out : Array UInt8} {input : List UInt8}
    {p : Array UInt8 × List UInt8} (h : readMatch cap bits out input = .ok p) :
    p.2.length < input.length := by
  unfold readMatch at h
  split at h
  · next lo hi input =>
    dsimp only at h
    split at h
    · simp [Attempt.fail] at h
    · split at h
      · simp at h
      · next extra rest hr =>
        have := length_of_readLength hr
        split at h
        · simp [Attempt.fail] at h
        · split at h
          · simp [Attempt.fail] at h
          · simp only [Except.ok.injEq] at h; subst h; simp at this ⊢; omega
  · simp [Attempt.fail] at h

/-! ### Blocks -/

/-- Decodes the rest of a block after the output so far. -/
def decodeFrom (cap : Nat) (out : Array UInt8) : List UInt8 → Attempt DecodeError (Array UInt8)
  | [] => Attempt.fail .inputEnded
  | token :: input =>
    match _hl : readLiterals cap (token.toNat / 16) out input with
    | .error f => .error f
    | .ok (out, rest) =>
      if rest.isEmpty then .ok out
      else
        match _hm : readMatch cap (token.toNat % 16) out rest with
        | .error f => .error f
        | .ok (out, rest) => decodeFrom cap out rest
termination_by input => input.length
decreasing_by
  have h1 := length_of_readLiterals _hl
  have h2 := length_of_readMatch _hm
  simp at h1 h2 ⊢
  omega

/-- Decodes a block into at most `cap` bytes. -/
def decode (cap : Nat) (input : List UInt8) : Attempt DecodeError (Array UInt8) :=
  decodeFrom cap #[] input

end FilePipeline.Lz4
