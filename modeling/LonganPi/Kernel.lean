import Mathlib.Algebra.Group.Int.Defs
import Mathlib.Algebra.Group.Nat.Defs

/-!
# Kernel constants and C integers

Error numbers, the page size and the integer conversions that the drivers rely on. A C `int`
is an `ℤ` in range, a `u32` an `ℕ` below `2 ^ 32`; arithmetic that can leave the range goes
through `toInt32` or `toU32`. An `unsigned long` has 64 bits, and only a difference of two can leave
its range.
-/

namespace LonganPi

/-- Error numbers; a call returns the negated one. -/
def ENOMEM : ℤ := 12
@[inherit_doc ENOMEM] def EFAULT : ℤ := 14
@[inherit_doc ENOMEM] def ENODEV : ℤ := 19
@[inherit_doc ENOMEM] def EINVAL : ℤ := 22
@[inherit_doc ENOMEM] def EOVERFLOW : ℤ := 75
@[inherit_doc ENOMEM] def ETIMEDOUT : ℤ := 110
@[inherit_doc ENOMEM] def ERESTARTSYS : ℤ := 512

/-- `PAGE_SIZE` of a 4 KiB kernel. -/
def PAGE_SIZE : ℕ := 4096

/-- Conversion to `u32`. -/
def toU32 (n : ℕ) : ℕ := n % 2 ^ 32

/-- Conversion to `int`, two's complement. -/
def toInt32 (n : ℤ) : ℤ := Int.bmod n (2 ^ 32)

/-- Conversion of an `int` to `u32`. -/
def intToU32 (n : ℤ) : ℕ := (n % 2 ^ 32).toNat

/-- The difference of two `unsigned long`. -/
def subU64 (a b : ℕ) : ℕ := (a + 2 ^ 64 - b) % 2 ^ 64

theorem toU32_lt (n : ℕ) : toU32 n < 2 ^ 32 := Nat.mod_lt _ (by decide)

theorem toU32_of_lt {n : ℕ} (h : n < 2 ^ 32) : toU32 n = n := Nat.mod_eq_of_lt h

theorem intToU32_natCast {n : ℕ} (h : n < 2 ^ 32) : intToU32 n = n := by
  unfold intToU32
  omega

/-- An `int` that is in range survives the conversion. -/
theorem toInt32_of_range {n : ℤ} (hlo : -2 ^ 31 ≤ n) (hhi : n < 2 ^ 31) : toInt32 n = n := by
  unfold toInt32
  rw [Int.bmod_def]
  split <;> omega

end LonganPi
