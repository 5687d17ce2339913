import FilePipeline.Crash

/-! # Machine sizes

Sizes, lengths and counts are natural numbers that have to stay below `2 ^ 64`. An operation that
would leave this range either crashes (`add`, `mul`) or stops at the largest size (`saturatingAdd`,
`saturatingMul`); which of the two is part of each rule that uses one. -/

namespace FilePipeline.Size

/-- The largest size a 64-bit machine can name. -/
def max : Nat := Nat.pow 2 64 - 1

/-- Addition that crashes past the largest size. -/
def add (a b : Nat) : Except Crash Nat :=
  if a + b ≤ max then .ok (a + b) else .error .addOverflow

/-- Multiplication that crashes past the largest size. -/
def mul (a b : Nat) : Except Crash Nat :=
  if a * b ≤ max then .ok (a * b) else .error .mulOverflow

/-- Addition that stops at the largest size. -/
def saturatingAdd (a b : Nat) : Nat := min (a + b) max

/-- Multiplication that stops at the largest size. -/
def saturatingMul (a b : Nat) : Nat := min (a * b) max

theorem add_of_le {a b : Nat} (h : a + b ≤ max) : add a b = .ok (a + b) := if_pos h

theorem mul_of_le {a b : Nat} (h : a * b ≤ max) : mul a b = .ok (a * b) := if_pos h

end FilePipeline.Size
