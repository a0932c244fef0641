import LonganPi.Pwm.Effect
import Mathlib.Algebra.Order.Field.Rat
import Mathlib.Tactic.Ring

/-!
# The waveform of a channel

A request in nanoseconds against what the registers of the channel make of it. A clock, divided by
the divider and the prescaler, counts `entire` cycles in a period, and the output is active for the
first `active` of them. The search rounds down at every step, so the waveform approximates the
request from below by less than one count (`approximates_of_eq`).

The values that are computed are right for every `int` period above 10 ns, but two of them do not
always fit. The search takes up to 257 prescalers and the field holds 256 of them, and a full duty
cycle of 65536 counts needs 17 bits. `config_single_iff` says for which requests that happens.
-/

open DriverLib

namespace LonganPi.Pwm

/-! ### Waveforms -/

/-- What a channel does. -/
structure Waveform where
  -- the frequency of the clock
  clk : ℕ
  -- what it is divided by
  div : ℕ
  active : ℕ
  entire : ℕ
  deriving DecidableEq, Repr

/-- What the registers make channel `i` do. -/
def programmed (regs : Regs) (i : ℕ) : Waveform where
  clk := if view regs i .clkSrc = 0 then 24000000 else 100000000
  div := 2 ^ view regs i .divM * (view regs i .prescal + 1)
  active := view regs i .actCycles
  entire := view regs i .periodCycles + 1

/-- What `sunxi_pwm_config_single` computes. -/
def computed (dutyNs periodNs : ℤ) : Waveform where
  clk := clkFreq periodNs
  div := 2 ^ (timing dutyNs periodNs).divM * ((timing dutyNs periodNs).prescale + 1)
  active := (timing dutyNs periodNs).active
  entire := (timing dutyNs periodNs).entirePred + 1

/-- The request is approximated from below by less than one count. -/
structure Waveform.Approximates (w : Waveform) (duty period : ℚ) : Prop where
  period_le : 0 ≤ period / 10 ^ 9 - w.entire * w.div / w.clk
  period_lt : period / 10 ^ 9 - w.entire * w.div / w.clk < w.div / w.clk
  duty_le : 0 ≤ duty / period - w.active / w.entire
  duty_lt : duty / period - w.active / w.entire < 1 / w.entire

/-- Rounding down, in fractions. -/
theorem floor_bounds {a b p q c : ℕ} (hq : 0 < q) (hc : 0 < c) (hlo : a * b * q ≤ p * c)
    (hhi : p * c < (a + 1) * b * q) :
    (0 : ℚ) ≤ p / q - a * b / c ∧ (p : ℚ) / q - a * b / c < b / c := by
  have hq' : (0 : ℚ) < q := Nat.cast_pos.mpr hq
  have hc' : (0 : ℚ) < c := Nat.cast_pos.mpr hc
  constructor
  · rw [sub_nonneg, div_le_div_iff₀ hc' hq']
    exact_mod_cast hlo
  · rw [sub_lt_iff_lt_add, ← add_div, div_lt_div_iff₀ hq' hc']
    calc (p : ℚ) * c < (a + 1) * b * q := by exact_mod_cast hhi
      _ = (b + a * b) * q := by ring

/-- Whole counts of the period, and whole counts of the duty cycle. -/
theorem approximates_of_eq {w : Waveform} {duty period : ℕ} (hclk : 0 < w.clk) (hdiv : 0 < w.div)
    (hperiod : 0 < period) (hpos : 0 < w.entire)
    (hentire : w.entire = w.clk * period / 1000000000 / w.div)
    (hactive : w.active = w.entire * duty / period) : w.Approximates duty period := by
  rw [Nat.div_div_eq_div_mul] at hentire
  have hcount : 0 < 1000000000 * w.div := Nat.mul_pos (by decide) hdiv
  have hwhole : w.entire * w.div * 1000000000 ≤ period * w.clk := by
    calc w.entire * w.div * 1000000000 = w.entire * (1000000000 * w.div) := by ring
      _ ≤ w.clk * period := by
        rw [hentire]
        exact Nat.div_mul_le_self _ _
      _ = period * w.clk := Nat.mul_comm _ _
  have hnext : period * w.clk < (w.entire + 1) * w.div * 1000000000 := by
    calc period * w.clk = w.clk * period := Nat.mul_comm _ _
      _ < (w.entire + 1) * (1000000000 * w.div) := by
        rw [← Nat.div_lt_iff_lt_mul hcount, ← hentire]
        exact Nat.lt_succ_self _
      _ = (w.entire + 1) * w.div * 1000000000 := by ring
  have hon : w.active * 1 * period ≤ duty * w.entire := by
    rw [Nat.mul_one, hactive, Nat.mul_comm duty]
    exact Nat.div_mul_le_self _ _
  have hoff : duty * w.entire < (w.active + 1) * 1 * period := by
    rw [Nat.mul_one, Nat.mul_comm duty, ← Nat.div_lt_iff_lt_mul hperiod, ← hactive]
    exact Nat.lt_succ_self _
  obtain ⟨hple, hplt⟩ := floor_bounds (by decide) hclk hwhole hnext
  obtain ⟨hdle, hdlt⟩ := floor_bounds hperiod hpos hon hoff
  rw [Nat.cast_one, mul_one] at hdle hdlt
  exact ⟨by exact_mod_cast hple, by exact_mod_cast hplt, hdle, hdlt⟩

/-! ### What is computed -/

section Computed

variable {m n : ℕ}

theorem clkFreq_pos (hlo : 10 < n) : 0 < clkFreq n := by
  unfold clkFreq
  split
  · decide
  · rw [if_pos (by omega)]
    decide

theorem computed_eq (hlo : 10 < n) (hhi : n < 2 ^ 31) (hm : m ≤ n) : computed m n =
    ⟨clkFreq n, 2 ^ dividerOf n * ((scaleOf (cyclesOf n) (dividerOf n)).prescale + 1),
      (scaleOf (cyclesOf n) (dividerOf n)).entire * m / n,
      (scaleOf (cyclesOf n) (dividerOf n)).entire⟩ := by
  have hpos := scaleOf_pos (two_pow_dividerOf_le hlo)
  unfold computed
  rw [timing_eq hlo hhi hm]
  dsimp only
  rw [Nat.sub_add_cancel hpos]

/-- **The computation is right** for every `int` period that is not bypassed. -/
theorem computed_approximates (hlo : 10 < n) (hhi : n < 2 ^ 31) (hm : m ≤ n) :
    (computed m n).Approximates m n := by
  rw [computed_eq hlo hhi hm]
  apply approximates_of_eq
  · exact clkFreq_pos hlo
  · exact Nat.mul_pos (Nat.two_pow_pos _) (Nat.succ_pos _)
  · omega
  · exact scaleOf_pos (two_pow_dividerOf_le hlo)
  · exact Nat.div_div_eq_div_mul _ _ _
  · rfl

end Computed

/-! ### What fits -/

/-- The search ends with a prescaler that the field can hold. -/
def PrescalerFits (periodNs : ℤ) : Prop :=
  ¬(699061334 ≤ periodNs ∧ periodNs ≤ 701792041) ∧
    ¬(1398122667 ≤ periodNs ∧ periodNs ≤ 1403584083)

/-- The period takes all 65536 counts: for a multiple `k` of the divisor, it is between 65536 and
65537 counts of the divided 24 MHz clock. -/
def FullScale (periodNs : ℤ) : Prop :=
  ∃ k : ℕ, 8192000 * (k * 2 ^ dividerOf periodNs : ℕ) ≤ 3 * periodNs ∧
    3 * periodNs < 8192125 * (k * 2 ^ dividerOf periodNs : ℕ)

section Fits

variable {m n : ℕ}

theorem prescale_lt_iff (hlo : 10 < n) (hhi : n < 2 ^ 31) :
    (scaleOf (cyclesOf n) (dividerOf n)).prescale < 256 ↔ PrescalerFits n := by
  show cyclesOf n / 2 ^ dividerOf n / 65537 < 256 ↔ _
  unfold PrescalerFits
  by_cases hfast : n ≤ 334
  · rw [cyclesOf_of_fast hlo hfast, dividerOf, if_pos (by omega)]
    omega
  · rw [cyclesOf_of_slow (Nat.lt_of_not_le hfast), dividerOf]
    split
    · omega
    · split <;> omega

/-- All counts are taken exactly between two multiples. -/
theorem entire_eq_iff (x : ℕ) :
    x / (x / 65537 + 1) = 65536 ↔ ∃ k, 65536 * k ≤ x ∧ x < 65537 * k := by
  have hle := (div_succ_le_iff x (x / 65537)).mpr (le_refl _)
  constructor
  · intro h
    refine ⟨x / 65537 + 1, ?_, by omega⟩
    rw [← h]
    exact Nat.div_mul_le_self _ _
  · rintro ⟨k, hk, hlt⟩
    apply le_antisymm hle
    rw [Nat.le_div_iff_mul_le (Nat.succ_pos _)]
    have hquot : x / 65537 < k := Nat.div_lt_of_lt_mul hlt
    calc 65536 * (x / 65537 + 1) ≤ 65536 * k := Nat.mul_le_mul_left _ hquot
      _ ≤ x := hk

theorem entire_eq_iff_fullScale (hlo : 10 < n) :
    (scaleOf (cyclesOf n) (dividerOf n)).entire = 65536 ↔ FullScale n := by
  show cyclesOf n / 2 ^ dividerOf n / (cyclesOf n / 2 ^ dividerOf n / 65537 + 1) = 65536 ↔ _
  rw [entire_eq_iff]
  unfold FullScale
  refine exists_congr fun k => ?_
  by_cases hfast : n ≤ 334
  · rw [cyclesOf_of_fast hlo hfast, dividerOf, if_pos (by omega)]
    omega
  · rw [cyclesOf_of_slow (Nat.lt_of_not_le hfast), dividerOf]
    split
    · omega
    · split <;> omega

/-- A quotient of counts takes all of them exactly when the divisor is all there is. -/
theorem active_lt_iff {e : ℕ} (hn : 0 < n) (he : e ≤ 65536) (hm : m ≤ n) :
    e * m / n < 65536 ↔ ¬(m = n ∧ e = 65536) := by
  rw [Nat.div_lt_iff_lt_mul hn]
  constructor
  · rintro hlt ⟨rfl, rfl⟩
    exact lt_irrefl _ hlt
  · intro hnot
    by_cases hfull : e = 65536
    · have hlt : m < n := lt_of_le_of_ne hm fun heq => hnot ⟨heq, hfull⟩
      rw [hfull]
      exact Nat.mul_lt_mul_of_pos_left hlt (by decide)
    · calc e * m ≤ e * n := Nat.mul_le_mul_left _ hm
        _ < 65536 * n := Nat.mul_lt_mul_of_pos_right (by omega) hn

end Fits

/-! ### The configuration of a channel -/

section Config

variable {byp i junk m n : ℕ} {regs regs' : Regs}

/-- The `SET_BITS` of `sunxi_pwm_config_single`, in order. -/
def setBits (clkBypassOutput sel junk : ℕ) (dutyNs periodNs : ℤ) : List (Field × ℕ) :=
  let regOffset := getPccrRegOffset sel junk
  let t := timing dutyNs periodNs
  if 0 < periodNs ∧ periodNs ≤ 10 then [(bypass sel regOffset, 1), (clkSrc regOffset, 1)]
  else
    (if 10 < periodNs ∧ clkBypassOutput = 1 then [(bypass sel regOffset, 1)] else []) ++
      (if 10 < periodNs then [(clkSrc regOffset, if periodNs ≤ 334 then 1 else 0)] else []) ++
      [(divM regOffset, t.divM), (prescal sel, t.prescale), (actCycles sel, t.active),
        (periodCycles sel, t.entirePred)]

/-- The function consists of them. -/
theorem config_eq_setBits {dutyNs periodNs : ℤ} (hne : intToU32 periodNs ≠ 0) :
    sunxiPwmConfigSingle byp regs i dutyNs periodNs junk =
      some (Field.writeAll (setBits byp i junk dutyNs periodNs) regs) := by
  unfold sunxiPwmConfigSingle setBits
  generalize timing dutyNs periodNs = t
  dsimp only
  rw [if_neg hne]
  by_cases hshort : 0 < periodNs ∧ periodNs ≤ 10
  · rw [if_pos hshort, if_pos hshort]
    rfl
  rw [if_neg hshort, if_neg hshort]
  by_cases hfast : 10 < periodNs ∧ periodNs ≤ 334
  · rw [if_pos hfast, if_pos hfast.1, if_pos hfast.2]
    by_cases hbyp : byp = 1
    · rw [if_pos hbyp, if_pos ⟨hfast.1, hbyp⟩]
      rfl
    · rw [if_neg hbyp, if_neg fun h => hbyp h.2]
      rfl
  rw [if_neg hfast]
  by_cases hslow : 334 < periodNs
  · rw [if_pos hslow, if_pos (show 10 < periodNs by omega),
      if_neg (show ¬periodNs ≤ 334 by omega)]
    by_cases hbyp : byp = 1
    · rw [if_pos hbyp, if_pos ⟨by omega, hbyp⟩]
      rfl
    · rw [if_neg hbyp, if_neg fun h => hbyp h.2]
      rfl
  · have hneg : ¬10 < periodNs := by omega
    rw [if_neg hslow, if_neg fun h => hneg h.1, if_neg hneg]
    rfl

/-- The request is in the registers: every value fits in its field, no `SET_BITS` reaches beyond
its field, and the waveform that is programmed approximates the request. -/
structure Faithful (clkBypassOutput sel junk : ℕ) (regs : Regs) (dutyNs periodNs : ℤ) : Prop where
  prescale : (timing dutyNs periodNs).prescale < 2 ^ PWM_PRESCAL_WIDTH
  divM : (timing dutyNs periodNs).divM < 2 ^ PWM_DIV_M_WIDTH
  active : (timing dutyNs periodNs).active < 2 ^ PWM_ACT_CYCLES_WIDTH
  entire : (timing dutyNs periodNs).entirePred < 2 ^ PWM_PERIOD_CYCLES_WIDTH
  contained : ∀ w ∈ setBits clkBypassOutput sel junk dutyNs periodNs, w.1.Contained 32 w.2
  approximates : (computed dutyNs periodNs).Approximates dutyNs periodNs
  programmed : ∃ regs', sunxiPwmConfigSingle clkBypassOutput regs sel dutyNs periodNs junk =
    some regs' ∧ Pwm.programmed regs' sel = computed dutyNs periodNs

theorem contained_setBits {sel : ℕ} {dutyNs periodNs : ℤ}
    (hp : (timing dutyNs periodNs).prescale < 2 ^ 8) (hd : (timing dutyNs periodNs).divM < 2 ^ 4)
    (ha : (timing dutyNs periodNs).active < 2 ^ 16)
    (he : (timing dutyNs periodNs).entirePred < 2 ^ 16) :
    ∀ w ∈ setBits byp sel junk dutyNs periodNs, w.1.Contained 32 w.2 := by
  have hbit : ∀ off, (bypass sel off).Contained 32 1 :=
    fun _ => Field.contained_of_lt (show 1 ≤ 32 by decide) (show 1 < 2 ^ 1 by decide)
  have hsrc : ∀ off v, v < 2 ^ 2 → (clkSrc off).Contained 32 v :=
    fun _ _ hv => Field.contained_of_lt (show 2 ≤ 32 by decide) hv
  intro w hw
  unfold setBits at hw
  generalize timing dutyNs periodNs = t at hp hd ha he hw
  dsimp only at hw
  split at hw
  · simp only [List.mem_cons, List.not_mem_nil, or_false] at hw
    rcases hw with rfl | rfl
    · exact hbit _
    · exact hsrc _ _ (show 1 < 2 ^ 2 by decide)
  · rcases List.mem_append.mp hw with hw | hw
    · rcases List.mem_append.mp hw with hw | hw
      · split at hw
        · rw [List.mem_singleton.mp hw]
          exact hbit _
        · cases hw
      · split at hw
        · rw [List.mem_singleton.mp hw]
          apply hsrc
          dsimp only
          split <;> decide
        · cases hw
    · simp only [List.mem_cons, List.not_mem_nil, or_false] at hw
      rcases hw with rfl | rfl | rfl | rfl
      · exact Field.contained_of_lt (show 4 ≤ 32 by decide) hd
      · exact Field.contained_of_lt (show 8 ≤ 32 by decide) hp
      · exact Field.contained_of_lt (show 16 ≤ 32 by decide) ha
      · exact Field.contained_of_lt (show 16 ≤ 32 by decide) he

theorem divM_lt (hlo : 10 < n) (hhi : n < 2 ^ 31) (hm : m ≤ n) : (timing m n).divM < 2 ^ 4 := by
  rw [timing_eq hlo hhi hm]
  show dividerOf n < 2 ^ 4
  unfold dividerOf
  split
  · decide
  · split <;> decide

/-- A counted period writes the divider, the prescaler and the cycles. -/
theorem configWrite_counted (byp : ℕ) (duty : ℤ) {period : ℤ} (h : ¬(0 < period ∧ period ≤ 10)) :
    configWrite byp duty period .divM = some (timing duty period).divM ∧
      configWrite byp duty period .prescal = some ((timing duty period).prescale % 2 ^ 8) ∧
      configWrite byp duty period .actCycles = some ((timing duty period).active % 2 ^ 16) ∧
      configWrite byp duty period .periodCycles =
        some ((timing duty period).entirePred % 2 ^ 16) := by
  unfold configWrite
  generalize timing duty period = t
  simp only [if_neg h, and_self]

/-- The clock that the source stands for. -/
theorem clk_of_source (hlo : 10 < n)
    (h : view regs' i .clkSrc = if (n : ℤ) ≤ 334 then 1 else 0) :
    (if view regs' i .clkSrc = 0 then 24000000 else 100000000) = clkFreq n := by
  rw [h]
  unfold clkFreq
  by_cases hfast : (n : ℤ) ≤ 334
  · rw [if_pos hfast, if_neg (by decide), if_pos ⟨by omega, hfast⟩]
  · rw [if_neg hfast, if_pos rfl, if_neg fun h => hfast h.2, if_pos (by omega)]

/-- What fits is read back. -/
theorem programmed_eq_computed (byp : ℕ) (hlo : 10 < n) (hp : (timing m n).prescale < 2 ^ 8)
    (ha : (timing m n).active < 2 ^ 16) (he : (timing m n).entirePred < 2 ^ 16)
    (hview : ∀ k v, k ≠ .actSta → configWrite byp m n k = some v → view regs' i k = v) :
    programmed regs' i = computed m n := by
  have hlong : ¬((0 : ℤ) < n ∧ (n : ℤ) ≤ 10) := by omega
  have hsrc : view regs' i .clkSrc = if (n : ℤ) ≤ 334 then 1 else 0 :=
    hview .clkSrc _ (by decide) (by rw [configWrite_clkSrc, if_pos (by omega)])
  obtain ⟨hdiv, hpre, hact, hent⟩ := configWrite_counted byp (m : ℤ) hlong
  replace hdiv := hview .divM _ (by decide) hdiv
  replace hpre := hview .prescal _ (by decide) hpre
  replace hact := hview .actCycles _ (by decide) hact
  replace hent := hview .periodCycles _ (by decide) hent
  unfold programmed computed
  rw [clk_of_source hlo hsrc, hdiv, hpre, hact, hent, Nat.mod_eq_of_lt hp, Nat.mod_eq_of_lt ha,
    Nat.mod_eq_of_lt he]

theorem programmed_config (hi : i < 9) (hlo : 10 < n) (hhi : n < 2 ^ 31)
    (hp : (timing m n).prescale < 2 ^ 8) (ha : (timing m n).active < 2 ^ 16)
    (he : (timing m n).entirePred < 2 ^ 16)
    (h : sunxiPwmConfigSingle byp regs i m n junk = some regs') :
    programmed regs' i = computed m n := by
  have hint : toInt32 n = n := toInt32_of_range (by omega) (by omega)
  rw [← hint] at h
  refine programmed_eq_computed byp hlo hp ha he fun k v hk hw => ?_
  rw [(writes_config hi h).view_eq i hi k (Or.inl hk), if_pos (Shared.refl k i), hint, hw,
    Option.getD_some]

/-- **The configuration.** A request above 10 ns is put into the registers faithfully exactly when
the prescaler fits and the period is not at full scale with a full duty cycle. -/
theorem config_single_iff (clkBypassOutput : ℕ) {sel : ℕ} (hsel : sel < 9) (junk : ℕ) (regs : Regs)
    {dutyNs periodNs : ℤ} (hperiod : 10 < periodNs) (hmax : periodNs < 2 ^ 31) (hduty : 0 ≤ dutyNs)
    (hle : dutyNs ≤ periodNs) : Faithful clkBypassOutput sel junk regs dutyNs periodNs ↔
      PrescalerFits periodNs ∧ ¬(dutyNs = periodNs ∧ FullScale periodNs) := by
  obtain ⟨n, rfl⟩ : ∃ n : ℕ, periodNs = n := ⟨periodNs.toNat, by omega⟩
  obtain ⟨m, rfl⟩ : ∃ m : ℕ, dutyNs = m := ⟨dutyNs.toNat, by omega⟩
  have hlo : 10 < n := by omega
  have hhi : n < 2 ^ 31 := by omega
  have hm : m ≤ n := by omega
  have hfits : (timing m n).prescale < 2 ^ 8 ↔ PrescalerFits n := by
    rw [timing_eq hlo hhi hm]
    exact prescale_lt_iff hlo hhi
  have hfull : (timing m n).active < 2 ^ 16 ↔ ¬((m : ℤ) = n ∧ FullScale n) := by
    rw [timing_eq hlo hhi hm, ← entire_eq_iff_fullScale hlo, Nat.cast_inj]
    exact active_lt_iff (by omega) (scaleOf_le _ _) hm
  constructor
  · intro h
    exact ⟨hfits.mp h.prescale, hfull.mp h.active⟩
  · rintro ⟨hp, ha⟩
    have hpre := hfits.mpr hp
    have hact := hfull.mpr ha
    have hdiv := divM_lt hlo hhi hm
    have hent : (timing m n).entirePred < 2 ^ 16 := by
      rw [timing_eq hlo hhi hm]
      have hle := scaleOf_le (cyclesOf n) (dividerOf n)
      show (scaleOf (cyclesOf n) (dividerOf n)).entire - 1 < 2 ^ 16
      omega
    have hne : intToU32 n ≠ 0 := by
      rw [intToU32_natCast (by omega)]
      omega
    refine ⟨hpre, hdiv, hact, hent, ?_, computed_approximates hlo hhi hm,
      _, config_eq_setBits hne, programmed_config hsel hlo hhi hpre hact hent
        (config_eq_setBits hne)⟩
    exact contained_setBits hpre hdiv hact hent

/-- Half a second, with a duty cycle of a quarter. -/
theorem config_single_iff_half_second :
    Faithful 0 3 0 (fun _ => 0) 125000000 500000000 ↔
      PrescalerFits 500000000 ∧ ¬((125000000 : ℤ) = 500000000 ∧ FullScale 500000000) :=
  config_single_iff 0 (by decide) 0 _ (by decide) (by decide) (by decide) (by decide)

/-- A period of 700 ms needs the prescaler 256. -/
theorem prescaler_does_not_fit : ¬∀ (sel : ℕ) (regs : Regs) (dutyNs periodNs : ℤ), sel < 9 →
    10 < periodNs → periodNs < 2 ^ 31 → 0 ≤ dutyNs → dutyNs ≤ periodNs →
      Faithful 0 sel 0 regs dutyNs periodNs := by
  intro hall
  have h := hall 0 (fun _ => 0) 350000000 700000000 (by decide) (by decide) (by decide) (by decide)
    (by decide)
  have hpre : (timing (350000000 : ℕ) (700000000 : ℕ)).prescale < 2 ^ 8 := h.prescale
  rw [timing_eq (by decide) (by decide) (by decide)] at hpre
  exact absurd hpre (by decide)

end Config

end LonganPi.Pwm
