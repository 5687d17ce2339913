import FilePipeline.Lz4.Decoder

/-! # Written lengths are read back

A length takes four bits in a token and perhaps more bytes after it. The decoder reads the length that
was written and leaves what follows (`readLength_overflow`), as long as the bytes do not sum up past
32 bits. How many bytes a length takes is `length_overflow`. -/

namespace FilePipeline.Lz4

theorem toNat_ofNat_of_lt {n : Nat} (h : n < 256) : (UInt8.ofNat n).toNat = n := by
  rw [UInt8.toNat_ofNat']
  exact Nat.mod_eq_of_lt h

/-! ### Continuations -/

theorem readExtension_replicate {n q r : Nat} (hr : r < 255) {rest : List UInt8}
    (h : n + 255 * q + r ≤ maxExtension) :
    readExtension n (List.replicate q 255 ++ UInt8.ofNat r :: rest) =
      .ok (n + 255 * q + r, rest) := by
  induction q generalizing n with
  | zero =>
    have hb : (UInt8.ofNat r).toNat = r := toNat_ofNat_of_lt (by omega)
    have hne : UInt8.ofNat r ≠ 255 := by
      intro he
      rw [he] at hb
      have : (255 : UInt8).toNat = 255 := rfl
      omega
    rw [List.replicate_zero, List.nil_append]
    unfold readExtension
    rw [hb, if_neg (by omega), if_neg hne]
    rfl
  | succ q ih =>
    have hb : (255 : UInt8).toNat = 255 := rfl
    rw [List.replicate_succ, List.cons_append]
    unfold readExtension
    rw [hb, if_neg (by omega), if_pos rfl, ih (by omega)]
    congr 2
    omega

theorem readExtension_extension {k : Nat} (h : k ≤ maxExtension) (rest : List UInt8) :
    readExtension 0 (extension k ++ rest) = .ok (k, rest) := by
  have hk : 255 * (k / 255) + k % 255 = k := Nat.div_add_mod k 255
  unfold extension
  rw [List.append_assoc, List.singleton_append,
    readExtension_replicate (Nat.mod_lt k (by omega)) (by omega), Nat.zero_add, hk]

/-! ### Lengths -/

theorem nibble_lt (n : Nat) : nibble n < 16 := by
  unfold nibble
  omega

theorem readLength_overflow {n : Nat} (h : n ≤ maxExtension) (rest : List UInt8) :
    readLength (nibble n) (overflow n ++ rest) = .ok (n, rest) := by
  unfold readLength overflow
  by_cases hn : 15 ≤ n
  · have hb : nibble n = 15 := Nat.min_eq_right hn
    rw [if_pos hb, if_pos hn, readExtension_extension (by omega)]
    show Except.ok (15 + (n - 15), rest) = _
    rw [Nat.add_sub_cancel' hn]
  · have hb : nibble n = n := Nat.min_eq_left (by omega)
    rw [hb, if_neg (by omega), if_neg hn]
    rfl

theorem length_overflow (n : Nat) :
    (overflow n).length = if 15 ≤ n then (n - 15) / 255 + 1 else 0 := by
  unfold overflow extension
  split
  · rw [List.length_append, List.length_replicate]
    rfl
  · rfl

/-! ### Tokens -/

/-- Two lengths share a token, four bits each. -/
def token (a b : Nat) : UInt8 := UInt8.ofNat (nibble a * 16 + nibble b)

theorem toNat_token (a b : Nat) : (token a b).toNat = nibble a * 16 + nibble b := by
  have := nibble_lt a
  have := nibble_lt b
  exact toNat_ofNat_of_lt (by omega)

theorem high_token (a b : Nat) : (token a b).toNat / 16 = nibble a := by
  have := nibble_lt b
  rw [toNat_token]
  omega

theorem low_token (a b : Nat) : (token a b).toNat % 16 = nibble b := by
  have := nibble_lt b
  rw [toNat_token]
  omega

end FilePipeline.Lz4
