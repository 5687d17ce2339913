/-! # Little-endian numbers

`encode w n` writes a number as `w` bytes, lowest byte first, and `decode` reads such bytes back.
`decode_encode` says that nothing is lost when the number fits. -/

namespace FilePipeline.LittleEndian

/-- The lowest `w` bytes of `n`, lowest first. -/
def encode : Nat → Nat → List UInt8
  | 0, _ => []
  | w + 1, n => UInt8.ofNat n :: encode w (n / 256)

/-- The number whose bytes, lowest first, are given. -/
def decode : List UInt8 → Nat
  | [] => 0
  | b :: bs => b.toNat + 256 * decode bs

@[simp] theorem length_encode (w n : Nat) : (encode w n).length = w := by
  induction w generalizing n with
  | zero => rfl
  | succ w ih => simp [encode, ih]

theorem decode_encode (w n : Nat) (h : n < Nat.pow 256 w) : decode (encode w n) = n := by
  induction w generalizing n with
  | zero => simp at h; simp [encode, decode, h]
  | succ w ih =>
    have hd : n / 256 < Nat.pow 256 w := by
      change n < Nat.pow 256 w * 256 at h
      omega
    simp only [encode, decode, ih _ hd, UInt8.toNat_ofNat']
    omega

end FilePipeline.LittleEndian
