import Mathlib

/-!
# Go values

A Go `uint32` is a natural number below `2^32`; each operation that can wrap goes
through `u32`.
-/

namespace Mp2bs

abbrev Bytes := List UInt8

/- Conversion to `uint32`, and subtraction of `uint32` values. -/
def u32 (n : ℕ) : ℕ := n % 2 ^ 32
def u32Sub (a b : ℕ) : ℕ := (a + 2 ^ 32 - b) % 2 ^ 32

theorem u32_of_lt {n : ℕ} (h : n < 2 ^ 32) : u32 n = n := Nat.mod_eq_of_lt h

theorem u32_lt (n : ℕ) : u32 n < 2 ^ 32 := Nat.mod_lt _ (by norm_num)

theorem u32Sub_of_le {a b : ℕ} (hb : b ≤ a) (ha : a < 2 ^ 32) : u32Sub a b = a - b := by
  have h : a + 2 ^ 32 - b = a - b + 2 ^ 32 := by omega
  rw [u32Sub, h, Nat.add_mod_right, Nat.mod_eq_of_lt (by omega)]

/-- Why a goroutine does not get past an operation: the operation panics, or it
waits for another goroutine. -/
inductive Stop where
  | panic
  | blocked
  deriving Repr, DecidableEq

end Mp2bs
