import Mathlib.Data.Int.ModEq
import Mathlib.Tactic.Ring

/-!
# Numbers that wrap around

Numbers counted modulo `2 * h` are compared by the sign of their difference: `Serial.Less h a b`
says that `a` lies in the half of the circle before `b`. Integers that are less than `h` apart are
compared correctly by their remainders (`Serial.less_emod_iff`).

`Serial.unwrap h n a` is the integer nearest to `n` that has the remainder of `a`. It is the one
that a receiver which waits for `n` means by `a` (`Serial.unwrap_eq`).
-/

namespace DriverLib

namespace Serial

variable {h : ℤ}

/-- The difference of `a` and `b` is negative, as a number of one bit more than `h`. -/
def Less (h a b : ℤ) : Prop := h ≤ (a - b) % (2 * h)

instance (h a b : ℤ) : Decidable (Less h a b) := inferInstanceAs (Decidable (_ ≤ _))

/-- The integer within `h` of `n` that has the remainder of `a`. -/
def unwrap (h n a : ℤ) : ℤ := n - h + (a - n + h) % (2 * h)

theorem less_congr {a a' b b' : ℤ} (ha : a % (2 * h) = a' % (2 * h))
    (hb : b % (2 * h) = b' % (2 * h)) : Less h a b ↔ Less h a' b' := by
  rw [Less, Less, Int.sub_emod, ha, hb, ← Int.sub_emod]

/-- Integers that are close are compared by their remainders. -/
theorem less_iff {a b : ℤ} (hab : a - b < h) (hba : b - a ≤ h) : Less h a b ↔ a < b := by
  rw [Less]
  by_cases hlt : a < b
  · have hmod : (a - b) % (2 * h) = a - b + 2 * h := by
      rw [← Int.add_emod_right, Int.emod_eq_of_lt (by omega) (by omega)]
    rw [hmod]
    exact iff_of_true (by omega) hlt
  · have hmod : (a - b) % (2 * h) = a - b := Int.emod_eq_of_lt (by omega) (by omega)
    rw [hmod]
    exact iff_of_false (by omega) hlt

theorem less_emod_iff {a b : ℤ} (hab : a - b < h) (hba : b - a ≤ h) :
    Less h (a % (2 * h)) (b % (2 * h)) ↔ a < b := by
  rw [less_congr (Int.emod_emod_of_dvd _ dvd_rfl) (Int.emod_emod_of_dvd _ dvd_rfl),
    less_iff hab hba]

theorem unwrap_emod (n a : ℤ) : unwrap h n a % (2 * h) = a % (2 * h) := by
  rw [unwrap, Int.add_emod_emod]
  congr 1
  ring

theorem unwrap_bounds (hh : 0 < h) (n a : ℤ) : n - h ≤ unwrap h n a ∧ unwrap h n a < n + h := by
  have h₀ := Int.emod_nonneg (a - n + h) (show 2 * h ≠ 0 by omega)
  have h₁ := Int.emod_lt_of_pos (a - n + h) (show 0 < 2 * h by omega)
  rw [unwrap]
  omega

/-- A number is read back from its remainder where it is near. -/
theorem unwrap_eq {n a m : ℤ} (ham : a % (2 * h) = m % (2 * h)) (hlo : n - h ≤ m)
    (hhi : m < n + h) : unwrap h n a = m := by
  have hmod : (a - n + h) % (2 * h) = (m - n + h) % (2 * h) := by
    rw [sub_add, sub_add, Int.sub_emod, ham, ← Int.sub_emod]
  rw [unwrap, hmod, Int.emod_eq_of_lt (by omega) (by omega)]
  ring

end Serial

end DriverLib
