import Mathlib.Data.Nat.Bitwise

/-!
# Packed words and word memory

Drivers pack addresses and flags into one word with masks and shifts. On values whose fields do not
overlap each of these operations is arithmetic: a mask of low bits is a remainder, a mask of high
bits rounds down, an `or` of disjoint fields is a sum. The lemmas below say so, and leave a goal
that division and remainder by literals decide.

Word memory is a function from byte addresses to words. `storeWords` is a C loop that stores a
sequence of words through an incremented pointer; `storeWords_of_lt` and `storeWords_of_forall_ne`
say what it leaves.
-/

namespace DriverLib

/-! ### Masks and shifts -/

/-- `x & ~((1 << k) - 1)`. -/
def clearLow (k x : ℕ) : ℕ := (x >>> k) <<< k

theorem clearLow_eq (k x : ℕ) : clearLow k x = x / 2 ^ k * 2 ^ k := by
  rw [clearLow, Nat.shiftLeft_eq, Nat.shiftRight_eq_div_pow]

theorem clearLow_of_dvd {k x : ℕ} (h : 2 ^ k ∣ x) : clearLow k x = x := by
  rw [clearLow_eq, Nat.div_mul_cancel h]

/-- `x & ((1 << k) - 1)`. -/
theorem and_mask (k x : ℕ) : x &&& (2 ^ k - 1) = x % 2 ^ k := Nat.and_two_pow_sub_one_eq_mod x k

/-- An `or` with a field below the lowest bit of `x` is a sum. -/
theorem or_eq_add {k x y : ℕ} (hx : 2 ^ k ∣ x) (hy : y < 2 ^ k) : x ||| y = x + y := by
  obtain ⟨a, rfl⟩ := hx
  exact (Nat.two_pow_add_eq_or_of_lt hy a).symm

theorem or_eq_add' {k x y : ℕ} (hx : x < 2 ^ k) (hy : 2 ^ k ∣ y) : x ||| y = x + y := by
  rw [Nat.or_comm, or_eq_add hy hx, Nat.add_comm]

/-- `(x << k) & (m << k)` keeps the bits of `x` that `m` selects. -/
theorem shiftLeft_and_shiftLeft (x m k : ℕ) : (x <<< k) &&& (m <<< k) = (x &&& m) <<< k :=
  Nat.shiftLeft_and_distrib.symm

/-- A field of two bits, read through its mask. -/
theorem and_shiftRight (x m k : ℕ) : (x &&& (m <<< k)) >>> k = x >>> k &&& m := by
  rw [Nat.shiftRight_and_distrib, Nat.shiftLeft_shiftRight]

/-- The test of one bit. -/
theorem and_two_pow_ne_zero (x k : ℕ) : x &&& 2 ^ k ≠ 0 ↔ x / 2 ^ k % 2 = 1 := by
  rw [Nat.and_two_pow, Nat.testBit_eq_decide_div_mod_eq]
  by_cases h : x / 2 ^ k % 2 = 1 <;> simp [h]

/-! ### Word memory -/

/-- `n` words are stored from address `a` on: `*p++ = f 0; *p++ = f 1; …`. -/
def storeWords (mem : ℕ → ℕ) (a : ℕ) (f : ℕ → ℕ) : ℕ → ℕ → ℕ
  | 0 => mem
  | n + 1 => Function.update (storeWords mem a f n) (a + 4 * n) (f n)

theorem storeWords_of_lt {mem : ℕ → ℕ} {a : ℕ} {f : ℕ → ℕ} {n i : ℕ} (hi : i < n) :
    storeWords mem a f n (a + 4 * i) = f i := by
  induction n with
  | zero => omega
  | succ n ih =>
    rw [storeWords, Function.update_apply]
    split
    · next heq => rw [show i = n by omega]
    · next hne => exact ih (by omega)

/-- Words that are not stored to are kept. -/
theorem storeWords_of_forall_ne {mem : ℕ → ℕ} {a : ℕ} {f : ℕ → ℕ} {n b : ℕ}
    (h : ∀ i < n, b ≠ a + 4 * i) : storeWords mem a f n b = mem b := by
  induction n with
  | zero => rfl
  | succ n ih =>
    rw [storeWords, Function.update_of_ne (h n (Nat.lt_succ_self n))]
    exact ih fun i hi => h i (Nat.lt_succ_of_lt hi)

end DriverLib
