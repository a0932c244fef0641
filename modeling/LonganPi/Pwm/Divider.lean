import LonganPi.Pwm.Chip

/-!
# The divider of a period

The search for a divider and a prescaler starts above 65536 cycles and tries the divisors in order,
each with prescalers up to 257. A divisor is therefore taken when 257 times the divisor brings the
cycles down to 65536 (`scaleStep_fits`). An `int` period has at most 51539607 cycles, so the third
divisor is the last that is needed, and the divider depends on the range of the period only
(`timing_divM`). The prescaler is the quotient by 65537 of what the divisor leaves (`scaleOf`).
-/

namespace LonganPi.Pwm

/-! ### The loops -/

/-- Cycles after a division by `p + 1` fit exactly from the quotient by 65537 on. -/
theorem div_succ_le_iff (x p : ℕ) : x / (p + 1) ≤ 65536 ↔ x / 65537 ≤ p := by
  rw [← Nat.lt_succ_iff, ← Nat.lt_succ_iff, Nat.div_lt_iff_lt_mul (Nat.succ_pos p),
    Nat.div_lt_iff_lt_mul (by decide), Nat.mul_comm]

/-- The search with `n` prescalers left succeeds if the last of them fits. -/
theorem prescaleLoop_fits (c : ℕ) (p : ℕ × ℕ) {n : ℕ} (hn : 0 < n) (v : Scale) :
    (prescaleLoop c p n v).entire ≤ 65536 ↔ c / p.2 / (v.prescale + n) ≤ 65536 := by
  induction n generalizing v with
  | zero => exact absurd hn (lt_irrefl 0)
  | succ n ih =>
    unfold prescaleLoop
    by_cases hfit : c / p.2 / (v.prescale + 1) ≤ 65536
    · have hlast : c / p.2 / (v.prescale + (n + 1)) ≤ 65536 :=
        (Nat.div_le_div_left (by omega) (by omega)).trans hfit
      rw [if_pos hfit]
      exact iff_of_true hfit hlast
    · rw [if_neg hfit]
      rcases Nat.eq_zero_or_pos n with rfl | hpos
      · exact iff_of_false hfit hfit
      · have hnext := ih hpos
          { v with entire := c / p.2 / (v.prescale + 1), prescale := v.prescale + 1 }
        rw [show v.prescale + (n + 1) = v.prescale + 1 + n by omega]
        exact hnext

/-- The prescaler that the loop ends with. -/
theorem prescaleLoop_eq {c : ℕ} {p : ℕ × ℕ} {n : ℕ} {v : Scale}
    (hlo : v.prescale ≤ c / p.2 / 65537) (hhi : c / p.2 / 65537 < v.prescale + n) :
    prescaleLoop c p n v = ⟨c / p.2 / (c / p.2 / 65537 + 1), p.1, c / p.2 / 65537⟩ := by
  induction n generalizing v with
  | zero => omega
  | succ n ih =>
    unfold prescaleLoop
    dsimp only
    by_cases hfit : c / p.2 / (v.prescale + 1) ≤ 65536
    · have hlast : v.prescale = c / p.2 / 65537 :=
        le_antisymm hlo ((div_succ_le_iff _ _).mp hfit)
      rw [if_pos hfit, hlast]
    · rw [if_neg hfit]
      have hlt : v.prescale < c / p.2 / 65537 :=
        Nat.lt_of_not_le fun h => hfit ((div_succ_le_iff _ _).mpr h)
      apply ih
      · exact hlt
      · show _ < v.prescale + 1 + n
        omega

/-- One turn of the search. -/
def scaleStep (c : ℕ) (v : Scale) (p : ℕ × ℕ) : Scale :=
  if v.entire ≤ 65536 then v
  else prescaleLoop c p (PRESCALE_MAX + 1) { v with prescale := 0 }

theorem foldl_scaleStep_of_le {c : ℕ} {v : Scale} (h : v.entire ≤ 65536) (l : List (ℕ × ℕ)) :
    l.foldl (scaleStep c) v = v := by
  induction l with
  | nil => rfl
  | cons p l ih => rw [List.foldl_cons, scaleStep, if_pos h, ih]

/-- A turn for the divisor `p.2` ends the search if 257 times the divisor is enough. -/
theorem scaleStep_fits {c : ℕ} {v : Scale} (p : ℕ × ℕ) (hv : 65536 < v.entire) :
    (scaleStep c v p).entire ≤ 65536 ↔ c / p.2 / 257 ≤ 65536 := by
  rw [scaleStep, if_neg (Nat.not_le.mpr hv)]
  exact prescaleLoop_fits c p (by decide) { v with prescale := 0 }

/-- What the search ends with for the divider `d`, whose divisor is `2 ^ d`. -/
def scaleOf (c d : ℕ) : Scale :=
  ⟨c / 2 ^ d / (c / 2 ^ d / 65537 + 1), d, c / 2 ^ d / 65537⟩

/-- A turn for a divisor that is enough. -/
theorem scaleStep_eq {c : ℕ} {v : Scale} (p : ℕ × ℕ) (hv : 65536 < v.entire)
    (hfit : c / p.2 / 257 ≤ 65536) :
    scaleStep c v p = ⟨c / p.2 / (c / p.2 / 65537 + 1), p.1, c / p.2 / 65537⟩ := by
  rw [scaleStep, if_neg (Nat.not_le.mpr hv)]
  apply prescaleLoop_eq
  · exact Nat.zero_le _
  · exact Nat.lt_succ_of_le ((div_succ_le_iff _ 256).mp hfit)

/-- The cycles that are left fit in the period field, which holds one less. -/
theorem scaleOf_le (c d : ℕ) : (scaleOf c d).entire ≤ 65536 :=
  (div_succ_le_iff _ _).mpr (le_refl _)

/-- At least one cycle is left. -/
theorem scaleOf_pos {c d : ℕ} (h : 2 ^ d ≤ c) : 0 < (scaleOf c d).entire := by
  have hpos : 0 < c / 2 ^ d := Nat.div_pos h (Nat.two_pow_pos d)
  show 0 < c / 2 ^ d / (c / 2 ^ d / 65537 + 1)
  apply Nat.div_pos
  · omega
  · exact Nat.succ_pos _

/-- The search for up to 67372035 cycles. -/
theorem scaleSearch_eq {c : ℕ} (hc : c < 67372036) :
    scaleSearch c = scaleOf c (if c < 16843009 then 0 else if c < 33686018 then 1 else 2) := by
  show preScal.foldl (scaleStep c) ⟨c, 0, 0⟩ = _
  unfold preScal
  by_cases h₀ : c ≤ 65536
  · rw [foldl_scaleStep_of_le h₀, if_pos (by omega)]
    have hzero : c / 65537 = 0 := Nat.div_eq_of_lt (by omega)
    simp [scaleOf, hzero]
  have hend₁ :=
    scaleStep_fits (v := ⟨c, 0, 0⟩) (c := c) (0, 1) (Nat.lt_of_not_le h₀)
  rw [List.foldl_cons]
  by_cases h₁ : c / 1 / 257 ≤ 65536
  · rw [foldl_scaleStep_of_le (hend₁.mpr h₁), if_pos (by omega)]
    exact scaleStep_eq (0, 1) (Nat.lt_of_not_le h₀) h₁
  have hend₂ :=
    scaleStep_fits (c := c) (1, 2) (Nat.lt_of_not_le fun h => h₁ (hend₁.mp h))
  rw [List.foldl_cons, if_neg (by omega)]
  by_cases h₂ : c / 2 / 257 ≤ 65536
  · rw [foldl_scaleStep_of_le (hend₂.mpr h₂), if_pos (by omega)]
    exact scaleStep_eq (1, 2) (Nat.lt_of_not_le fun h => h₁ (hend₁.mp h)) h₂
  have hend₃ :=
    scaleStep_fits (c := c) (2, 4) (Nat.lt_of_not_le fun h => h₂ (hend₂.mp h))
  have h₃ : c / 4 / 257 ≤ 65536 := by omega
  rw [List.foldl_cons, foldl_scaleStep_of_le (hend₃.mpr h₃), if_neg (by omega)]
  exact scaleStep_eq (2, 4) (Nat.lt_of_not_le fun h => h₂ (hend₂.mp h)) h₃

/-! ### Periods -/

theorem toInt32_lt (n : ℤ) : toInt32 n < 2 ^ 31 := by
  unfold toInt32
  have h := Int.bmod_lt (x := n) (m := 2 ^ 32) (by decide)
  omega

theorem intToU64_of_nonneg {n : ℤ} (hlo : 0 ≤ n) (hhi : n < 2 ^ 31) : (intToU64 n : ℤ) = n := by
  have hmod : n % 2 ^ 64 = n := Int.emod_eq_of_lt hlo (by omega)
  rw [intToU64, hmod, Int.toNat_of_nonneg hlo]

/-- The divider that a period selects. -/
def dividerOf (periodNs : ℤ) : ℕ :=
  if periodNs ≤ 701792041 then 0 else if periodNs ≤ 1403584083 then 1 else 2

/-- Nanoseconds of a period against cycles of the 24 MHz clock. -/
theorem dividerOf_natCast (n : ℕ) : dividerOf n =
    if 24000000 * n / 1000000000 < 16843009 then 0
    else if 24000000 * n / 1000000000 < 33686018 then 1 else 2 := by
  unfold dividerOf
  refine if_congr (by omega) rfl (if_congr (by omega) rfl rfl)

/-- The cycles of the clock that fit in a period of `n` nanoseconds. -/
def cyclesOf (n : ℕ) : ℕ := clkFreq n * n / 1000000000

theorem cyclesOf_of_fast {n : ℕ} (hlo : 10 < n) (hhi : n ≤ 334) : cyclesOf n = n / 10 := by
  unfold cyclesOf clkFreq
  rw [if_pos (by omega)]
  omega

theorem cyclesOf_of_slow {n : ℕ} (hlo : 334 < n) : cyclesOf n = 24 * n / 1000 := by
  unfold cyclesOf clkFreq
  rw [if_neg (by omega), if_pos (by omega)]
  omega

/-- The search for an `int` period that is not bypassed. -/
theorem scaleSearch_cyclesOf {n : ℕ} (hlo : 10 < n) (hhi : n < 2 ^ 31) :
    scaleSearch (cyclesOf n) = scaleOf (cyclesOf n) (dividerOf n) := by
  rw [dividerOf_natCast]
  by_cases hfast : n ≤ 334
  · rw [cyclesOf_of_fast hlo hfast, scaleSearch_eq (by omega), if_pos (by omega),
      if_pos (by omega)]
  · rw [cyclesOf_of_slow (Nat.lt_of_not_le hfast), scaleSearch_eq (by omega)]
    congr 1
    refine if_congr (by omega) rfl (if_congr (by omega) rfl rfl)

theorem two_pow_dividerOf_le {n : ℕ} (hlo : 10 < n) : 2 ^ dividerOf n ≤ cyclesOf n := by
  by_cases hfast : n ≤ 334
  · rw [cyclesOf_of_fast hlo hfast, dividerOf, if_pos (by omega)]
    omega
  · rw [cyclesOf_of_slow (Nat.lt_of_not_le hfast), dividerOf]
    split
    · omega
    · split <;> omega

/-- The cycles do not overflow the `u64`. -/
theorem cycles_u64 {n : ℕ} (hlo : 10 < n) (hhi : n < 2 ^ 31) :
    clkFreq n * intToU64 n % 2 ^ 64 / 1000000000 = cyclesOf n := by
  have hcast : intToU64 n = n := Int.ofNat_inj.mp (intToU64_of_nonneg (by omega) (by omega))
  have hclk : clkFreq n ≤ 100000000 := by
    unfold clkFreq
    split
    · exact le_refl _
    · split <;> omega
  have hprod : clkFreq n * n ≤ 100000000 * n := Nat.mul_le_mul_right n hclk
  rw [hcast, Nat.mod_eq_of_lt (by omega)]
  rfl

/-- The timing without the duty cycle. -/
theorem timing_scale {n : ℕ} (duty : ℤ) (hlo : 10 < n) (hhi : n < 2 ^ 31) : timing duty n =
    ⟨dividerOf n, (scaleOf (cyclesOf n) (dividerOf n)).prescale,
      (scaleOf (cyclesOf n) (dividerOf n)).entire * intToU64 duty % 2 ^ 64 / n,
      (scaleOf (cyclesOf n) (dividerOf n)).entire - 1⟩ := by
  have hpos := scaleOf_pos (two_pow_dividerOf_le hlo)
  simp only [timing]
  rw [cycles_u64 hlo hhi, scaleSearch_cyclesOf hlo hhi, intToU32_natCast (by omega),
    if_neg (by omega)]
  rfl

/-- **The timing** of an `int` period that is not bypassed, in closed form. -/
theorem timing_eq {m n : ℕ} (hlo : 10 < n) (hhi : n < 2 ^ 31) (hm : m ≤ n) :
    timing m n = ⟨dividerOf n, (scaleOf (cyclesOf n) (dividerOf n)).prescale,
      (scaleOf (cyclesOf n) (dividerOf n)).entire * m / n,
      (scaleOf (cyclesOf n) (dividerOf n)).entire - 1⟩ := by
  have hle := scaleOf_le (cyclesOf n) (dividerOf n)
  have hcast : intToU64 m = m := Int.ofNat_inj.mp (intToU64_of_nonneg (by omega) (by omega))
  have hprod : (scaleOf (cyclesOf n) (dividerOf n)).entire * m ≤ 65536 * n :=
    Nat.mul_le_mul hle hm
  rw [timing_scale _ hlo hhi, hcast, Nat.mod_eq_of_lt (by omega)]

theorem clkFreq_of_le {period : ℤ} (h : period ≤ 10) : clkFreq period = 0 := by
  unfold clkFreq
  rw [if_neg (by omega), if_neg (by omega)]

theorem timing_divM (duty n : ℤ) : (timing duty (toInt32 n)).divM = dividerOf (toInt32 n) := by
  have hmax := toInt32_lt n
  generalize toInt32 n = period at hmax ⊢
  simp only [timing]
  by_cases hpos : 10 < period
  · obtain ⟨m, rfl⟩ : ∃ m : ℕ, period = m := ⟨period.toNat, by omega⟩
    rw [cycles_u64 (by omega) (by omega), scaleSearch_cyclesOf (by omega) (by omega)]
    rfl
  · rw [clkFreq_of_le (by omega), Nat.zero_mul, scaleSearch_eq (by decide), if_pos (by decide)]
    exact (if_pos (by omega)).symm

end LonganPi.Pwm
