import Mathlib

/-! # Fixed-width arithmetic on numbers

Machine words are numbers with an explicit wrap. Sums and differences are taken
modulo the width; a cast to a signed word takes the two's complement value. The
wraps are irreducible: unification must not compute with the width.
-/

namespace Dtnme.Library

/-- Wrap to an unsigned 64-bit word. -/
@[irreducible] def u64 (n : ℕ) : ℕ := n % 2 ^ 64

/-- Unsigned 64-bit difference. -/
@[irreducible] def u64Sub (a b : ℕ) : ℕ := u64 (a + (2 ^ 64 - u64 b))

/-- Wrap to an unsigned 32-bit word. -/
@[irreducible] def u32 (n : ℕ) : ℕ := n % 2 ^ 32

/-- Cast to a signed 32-bit word. -/
def i32 (n : ℕ) : ℤ := if u32 n < 2 ^ 31 then (u32 n : ℤ) else (u32 n : ℤ) - 2 ^ 32

/-- Cast to a signed 64-bit word. -/
def i64 (n : ℕ) : ℤ := if u64 n < 2 ^ 63 then (u64 n : ℤ) else (u64 n : ℤ) - 2 ^ 64

/-- Conversion of a signed value to an unsigned 64-bit word. -/
def u64OfInt (z : ℤ) : ℕ := (z % 2 ^ 64).toNat

/-- Conversion of a signed value to an unsigned 32-bit word. -/
def u32OfInt (z : ℤ) : ℕ := (z % 2 ^ 32).toNat

theorem u64_of_lt {n : ℕ} (h : n < 2 ^ 64) : u64 n = n := by
  unfold u64
  exact Nat.mod_eq_of_lt h

theorem u64_lt (n : ℕ) : u64 n < 2 ^ 64 := by
  unfold u64
  exact Nat.mod_lt _ (by decide)

theorem u64Sub_of_le {a b : ℕ} (ha : a < 2 ^ 64) (h : b ≤ a) : u64Sub a b = a - b := by
  unfold u64Sub
  rw [u64_of_lt (lt_of_le_of_lt h ha)]
  unfold u64
  omega

theorem u32_of_lt {n : ℕ} (h : n < 2 ^ 32) : u32 n = n := by
  unfold u32
  exact Nat.mod_eq_of_lt h

theorem u32_u32_add (a b : ℕ) : u32 (u32 a + b) = u32 (a + b) := by
  unfold u32
  rw [Nat.mod_add_mod]

theorem i32_of_lt {n : ℕ} (h : n < 2 ^ 31) : i32 n = n := by
  unfold i32
  rw [u32_of_lt (lt_trans h (by decide)), if_pos h]

theorem i64_of_lt {n : ℕ} (h : n < 2 ^ 63) : i64 n = n := by
  unfold i64
  rw [u64_of_lt (lt_trans h (by decide)), if_pos h]

/-- A difference of two halves of the range has the right sign. -/
theorem i64_u64Sub {a b : ℕ} (ha : a < 2 ^ 63) (hb : b < 2 ^ 63) : i64 (u64Sub a b) = a - b := by
  unfold i64 u64Sub u64
  split_ifs <;> omega

theorem i32_lt (n : ℕ) : i32 n < 2 ^ 31 := by
  unfold i32 u32
  split_ifs with h
  · exact_mod_cast h
  · omega

theorem u64OfInt_lt (z : ℤ) : u64OfInt z < 2 ^ 64 := by
  unfold u64OfInt
  omega

@[simp] theorem i32_u64OfInt_i32 (n : ℕ) : i32 (u64OfInt (i32 n)) = i32 n := by
  unfold u64OfInt i32 u32
  split_ifs <;> omega

theorem u64OfInt_i32 {n : ℕ} (h : n < 2 ^ 31) : u64OfInt (i32 n) = n := by
  rw [i32_of_lt h, u64OfInt]
  omega

end Dtnme.Library
