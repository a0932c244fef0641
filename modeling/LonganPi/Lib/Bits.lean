import Mathlib.Data.Nat.Bitwise

/-!
# Flag words

A flag word keeps a set of flags as bits of a machine word, one bit per flag, and the code tests,
sets and clears them with a mask. For a mask of one bit the three operations are membership,
insertion and removal, which is what the lemmas below say; `HasFlag` is the test.
-/

namespace DriverLib

variable {w : ℕ}

/-- The test `flags & mask` of a C condition. -/
def HasFlag (flags mask : BitVec w) : Prop := flags &&& mask ≠ 0

instance (flags mask : BitVec w) : Decidable (HasFlag flags mask) :=
  inferInstanceAs (Decidable (_ ≠ _))

@[simp] theorem not_hasFlag_zero (mask : BitVec w) : ¬ HasFlag 0#w mask := by
  simp [HasFlag]

/-- A test passes when some bit of the mask is set. -/
theorem hasFlag_iff {flags mask : BitVec w} :
    HasFlag flags mask ↔ ∃ i, flags.getLsbD i = true ∧ mask.getLsbD i = true := by
  constructor
  · intro h
    by_contra hno
    push Not at hno
    refine h (BitVec.eq_of_getLsbD_eq fun i _ => ?_)
    rw [BitVec.getLsbD_and]
    cases hf : flags.getLsbD i with
    | false => simp
    | true => simpa using hno i hf
  · rintro ⟨i, hf, hm⟩ hzero
    have hbit : (flags &&& mask).getLsbD i = true := by
      rw [BitVec.getLsbD_and, hf, hm, Bool.and_self]
    rw [hzero] at hbit
    simp at hbit

/-- The test of a one-bit mask reads that bit. -/
theorem hasFlag_twoPow {flags : BitVec w} {i : ℕ} (hi : i < w) :
    HasFlag flags (BitVec.twoPow w i) ↔ flags.getLsbD i = true := by
  rw [hasFlag_iff]
  constructor
  · rintro ⟨j, hf, hm⟩
    rw [BitVec.getLsbD_twoPow] at hm
    have hij : i = j := by simpa [hi] using hm
    exact hij ▸ hf
  · intro hf
    exact ⟨i, hf, by simp [hi]⟩

/-- Setting the bits of `arg` sets a flag that was set or that `arg` names. -/
theorem hasFlag_or {flags arg mask : BitVec w} :
    HasFlag (flags ||| arg) mask ↔ HasFlag flags mask ∨ HasFlag arg mask := by
  simp only [hasFlag_iff, BitVec.getLsbD_or, Bool.or_eq_true, or_and_right, exists_or]

/-- Clearing the bits of `arg` keeps a one-bit flag that was set and that `arg` does not name. -/
theorem hasFlag_and_not {flags arg : BitVec w} {i : ℕ} (hi : i < w) :
    HasFlag (flags &&& ~~~arg) (BitVec.twoPow w i) ↔
      HasFlag flags (BitVec.twoPow w i) ∧ ¬ HasFlag arg (BitVec.twoPow w i) := by
  simp [hasFlag_twoPow hi, hi]

/-- One-bit masks are tested independently. -/
theorem hasFlag_twoPow_twoPow {i j : ℕ} (hj : j < w) :
    HasFlag (BitVec.twoPow w i) (BitVec.twoPow w j) ↔ i = j := by
  rw [hasFlag_twoPow hj, BitVec.getLsbD_twoPow]
  simp only [Bool.and_eq_true, decide_eq_true_eq]
  omega

end DriverLib
