import LonganPi.Pwm.Dual
import LonganPi.Pwm.Waveform

/-!
# Requests for two bound channels

A divider and a prescaler are a choice for a request if the counts of the period and of the dead
zone fit in their fields (`Choice`). A request for two bound channels should succeed exactly when
there is a choice, and then both channels should hold one.

The search does not go beyond the first divider: an exit for the error is inside the loop over the
dividers. The dispatcher drops that error, so the channels are turned on with the timing they had
before. When the search ends, the divider is written with the width of its shift, which is 0, so the
old divider stays. And as for a single channel, the prescaler 256, a dead zone of 256 counts and a
full duty cycle of 65536 counts pass the search but not the fields. `bound_request_iff` says when
the outcome is right all the same.
-/

open DriverLib

namespace LonganPi.Pwm

/-! ### Choices -/

/-- The counts of a period with the divider `k` and the prescaler `p`. -/
def entireOf (period k p : ℕ) : ℕ := cyclesOf period / 2 ^ k / (p + 1)

/-- The counts of the dead zone. -/
def zoneOf (period deadTime k p : ℕ) : ℕ :=
  clkFreq period / (2 ^ k * (p + 1)) * deadTime / 1000000000

/-- The divider and the prescaler give counts that fit in the register fields. -/
structure Choice (period deadTime k p : ℕ) : Prop where
  divM : k ≤ 8
  prescale : p < 2 ^ PWM_PRESCAL_WIDTH
  pos : 0 < entireOf period k p
  entire : entireOf period k p ≤ 65536
  zone : zoneOf period deadTime k p < 2 ^ PWM_PDZINTV_WIDTH

/-- What the search accepts for the divider 0. -/
def Fits (period deadTime p : ℕ) : Prop :=
  entireOf period 0 p ≤ 65536 ∧ zoneOf period deadTime 0 p ≤ 256

instance (period deadTime p : ℕ) : Decidable (Fits period deadTime p) :=
  inferInstanceAs (Decidable (_ ∧ _))

/-- The prescaler at which the search ends. -/
structure FirstFit (period deadTime p : ℕ) : Prop where
  le : p ≤ 256
  fits : Fits period deadTime p
  first : ∀ q < p, ¬Fits period deadTime q

/-- The search ends at one place only. -/
theorem FirstFit.unique {n dead p q : ℕ} (hp : FirstFit n dead p) (hq : FirstFit n dead q) :
    p = q := by
  -- each of two ends would be before the other
  rcases lt_trichotomy p q with h | h | h
  · exact absurd hp.fits (hq.first p h)
  · exact h
  · exact absurd hq.fits (hp.first q h)

/-- The search ends for some prescaler, or for none. -/
theorem firstFit_or_none (n dead : ℕ) :
    (∃ p, FirstFit n dead p) ∨ ∀ p ≤ 256, ¬Fits n dead p := by
  classical
  by_cases h : ∃ p, p ≤ 256 ∧ Fits n dead p
  · -- the least of those that fit
    left
    refine ⟨Nat.find h, (Nat.find_spec h).1, (Nat.find_spec h).2, fun q hq hfit => ?_⟩
    exact Nat.find_min h hq ⟨hq.le.trans (Nat.find_spec h).1, hfit⟩
  · exact Or.inr fun p hp hfit => h ⟨p, hp, hfit⟩

/-- A larger divider gives fewer counts. -/
theorem entireOf_lt {n k p : ℕ} (hk : k ≠ 0) (hpos : 0 < entireOf n 0 p) :
    entireOf n k p < entireOf n 0 p := by
  unfold entireOf at hpos ⊢
  rw [Nat.pow_zero, Nat.div_one] at hpos ⊢
  rw [Nat.div_div_eq_div_mul, Nat.mul_comm, ← Nat.div_div_eq_div_mul]
  exact Nat.div_lt_self hpos (Nat.one_lt_two_pow hk)

/-- The search does not go so far that no count is left. -/
theorem FirstFit.entire_pos {n dead p : ℕ} (hlo : 10 < n) (hdead : dead ≤ n)
    (h : FirstFit n dead p) : 0 < entireOf n 0 p := by
  -- the clock is fast enough for one count in the period
  have hone : 1 ≤ cyclesOf n := (Nat.one_le_two_pow).trans (two_pow_dividerOf_le hlo)
  -- it is enough that the prescaler is less than the counts of the source
  have hgoal : p + 1 ≤ cyclesOf n → 0 < entireOf n 0 p := by
    intro hle
    unfold entireOf
    rw [Nat.pow_zero, Nat.div_one]
    exact Nat.div_pos hle (Nat.succ_pos _)
  apply hgoal
  cases p with
  | zero => exact hone
  | succ q =>
    -- the prescaler before it left too many counts of one kind
    have hnot := h.first q (Nat.lt_succ_self q)
    unfold Fits entireOf zoneOf at hnot
    rw [Nat.pow_zero, Nat.div_one, Nat.one_mul, not_and_or, Nat.not_le, Nat.not_le] at hnot
    rcases hnot with hentire | hzone
    · -- too many counts of the period
      have hmul : 65537 * (q + 1) ≤ cyclesOf n :=
        (Nat.le_div_iff_mul_le (Nat.succ_pos q)).mp hentire
      omega
    · -- too many counts of the dead zone, which is not longer than the period
      have hmul : 257 * 1000000000 ≤ clkFreq n / (q + 1) * dead :=
        (Nat.le_div_iff_mul_le (by decide)).mp hzone
      have hcycles : 257 * (q + 1) ≤ cyclesOf n := by
        unfold cyclesOf
        rw [Nat.le_div_iff_mul_le (by decide)]
        calc 257 * (q + 1) * 1000000000 = 257 * 1000000000 * (q + 1) := by ring
          _ ≤ clkFreq n / (q + 1) * dead * (q + 1) := Nat.mul_le_mul_right _ hmul
          _ = clkFreq n / (q + 1) * (q + 1) * dead := by ring
          _ ≤ clkFreq n * n := Nat.mul_le_mul (Nat.div_mul_le_self _ _) hdead
      omega

/-! ### The search -/

/-- The state of the search at the prescaler `p` of the divider 0. -/
def scaleAt (n dead p : ℕ) : DualScale := ⟨entireOf n 0 p, zoneOf n dead 0 p, 0, p⟩

/-- The counts of the dead zone do not overflow. -/
theorem zone_u64 {n dead k p : ℕ} (hdead : dead < 2 ^ 31) :
    clkFreq n / (2 ^ k * (p + 1)) * dead % 2 ^ 64 / 1000000000 = zoneOf n dead k p := by
  -- the sources have at most 100 MHz
  have hclk : clkFreq n / (2 ^ k * (p + 1)) ≤ 100000000 := by
    refine (Nat.div_le_self _ _).trans ?_
    unfold clkFreq
    split
    · exact le_refl _
    · split <;> omega
  have hprod : clkFreq n / (2 ^ k * (p + 1)) * dead ≤ 100000000 * 2 ^ 31 :=
    Nat.mul_le_mul hclk hdead.le
  rw [Nat.mod_eq_of_lt (by omega)]
  rfl

section Search

variable {n dead : ℕ}

/-- One turn of the inner loop for the divider 0. -/
theorem dualLoop_succ (hdead : dead < 2 ^ 31) (t : ℕ) (v : DualScale) :
    dualLoop (cyclesOf n) (clkFreq n) dead (0, 1) (t + 1) v =
      if Fits n dead v.prescale then scaleAt n dead v.prescale
      else dualLoop (cyclesOf n) (clkFreq n) dead (0, 1) t
        { v with entire := entireOf n 0 v.prescale, zone := zoneOf n dead 0 v.prescale,
                 prescale := v.prescale + 1 } := by
  rw [dualLoop]
  dsimp only
  rw [show 1 * (v.prescale + 1) = 2 ^ 0 * (v.prescale + 1) by rw [Nat.pow_zero], zone_u64 hdead]
  rfl

/-- The inner loop ends with the first prescaler that fits. -/
theorem dualLoop_of_first (hdead : dead < 2 ^ 31) {q t : ℕ} (hq : FirstFit n dead q)
    {v : DualScale} (hlo : v.prescale ≤ q) (hhi : q < v.prescale + t) :
    dualLoop (cyclesOf n) (clkFreq n) dead (0, 1) t v = scaleAt n dead q := by
  induction t generalizing v with
  | zero => omega
  | succ t ih =>
    rw [dualLoop_succ hdead]
    by_cases hfit : Fits n dead v.prescale
    · -- this is the prescaler that was looked for
      have hsame : v.prescale = q := by
        by_contra hne
        exact hq.first _ (lt_of_le_of_ne hlo hne) hfit
      rw [if_pos hfit, hsame]
    · -- the next turn has the next prescaler
      rw [if_neg hfit]
      have hne : v.prescale ≠ q := fun h => hfit (h ▸ hq.fits)
      apply ih
      · show v.prescale + 1 ≤ q
        omega
      · show q < v.prescale + 1 + t
        omega

/-- Without one, the counts at the end do not fit. -/
theorem dualLoop_of_none (hdead : dead < 2 ^ 31) {t : ℕ} {v : DualScale}
    (hnone : ∀ q, v.prescale ≤ q → q < v.prescale + (t + 1) → ¬Fits n dead q) :
    ¬((dualLoop (cyclesOf n) (clkFreq n) dead (0, 1) (t + 1) v).entire ≤ 65536 ∧
      (dualLoop (cyclesOf n) (clkFreq n) dead (0, 1) (t + 1) v).zone ≤ 256) := by
  -- by induction on the turns that are left
  induction t generalizing v with
  | zero =>
    rw [dualLoop_succ hdead, if_neg (hnone _ (le_refl _) (by omega))]
    exact hnone _ (le_refl _) (by omega)
  | succ t ih =>
    rw [dualLoop_succ hdead, if_neg (hnone _ (le_refl _) (by omega))]
    apply ih
    intro q hq hlt
    change v.prescale + 1 ≤ q at hq
    change q < v.prescale + 1 + (t + 1) at hlt
    exact hnone q (by omega) (by omega)

/-- The search ends with the first prescaler that fits, and the divider 0. -/
theorem dualSearch_of_first (hdead : dead < 2 ^ 31) {q : ℕ} (hq : FirstFit n dead q)
    (v : DualScale) : dualSearch (cyclesOf n) (clkFreq n) dead preScal v =
      some (scaleAt n dead q) := by
  have hle := hq.le
  unfold preScal dualSearch
  dsimp only
  rw [dualLoop_of_first hdead hq (Nat.zero_le _) (by show q < 0 + 257; omega)]
  exact if_pos hq.fits

/-- The search gives up when no prescaler fits with the divider 0: the other dividers are never
tried. -/
theorem dualSearch_of_none (hdead : dead < 2 ^ 31) (hnone : ∀ p ≤ 256, ¬Fits n dead p)
    (v : DualScale) : dualSearch (cyclesOf n) (clkFreq n) dead preScal v = none := by
  unfold preScal dualSearch
  dsimp only
  apply if_neg
  apply dualLoop_of_none hdead
  intro q _ hq
  change q < 0 + 257 at hq
  exact hnone q (by omega)

end Search

/-! ### The dead zone and the other fields -/

section Frame

variable {regs regs' : Regs} {i j x v : ℕ} {k : FieldName}

/-- Each pair of channels has one register for the dead zone. -/
theorem getPdzcrRegOffset_eq (hi : i < 8) (junk : ℕ) :
    getPdzcrRegOffset i junk = 0x30 + 4 * (i / 2) := by
  match i with
  | 0 | 1 | 2 | 3 | 4 | 5 | 6 | 7 => rfl
  | n + 8 => omega

/-- The dead zone is not in a register of the channels. -/
theorem field_offset_ne (hi : i < 8) (hx : x < 9) (junk : ℕ) :
    (k.field x).offset ≠ getPdzcrRegOffset i junk := by
  rw [field_offset, getPdzcrRegOffset_eq hi]
  have hp := getPccrRegOffset_eq hx
  cases k.reg <;>
    simp only [RegName.offset, PWM_PER, PWM_PCR_BASE, PWM_PPR_BASE, hp]
  · split <;> omega
  all_goals omega

/-- The register of the dead zone holds no field of a channel. -/
theorem view_dz {f : Field} (hi : i < 8) (hx : x < 9) {junk : ℕ}
    (hf : f.offset = getPdzcrRegOffset i junk) : view (f.write regs v) x k = view regs x k := by
  unfold view Field.read Field.write
  rw [hf, Function.update_of_ne (field_offset_ne hi hx junk)]

/-- The counts of the dead zone. -/
def interval (regs : Regs) (i : ℕ) : ℕ := (pdzIntv (getPdzcrRegOffset i 0)).read regs

theorem getPdzcrRegOffset_of_lt (hi : i < 8) (junk : ℕ) :
    getPdzcrRegOffset i junk = getPdzcrRegOffset i 0 := by
  rw [getPdzcrRegOffset_eq hi, getPdzcrRegOffset_eq hi]

/-- The fields of the channels do not overlap the counts of the dead zone. -/
theorem interval_field (hi : i < 8) (hx : x < 9) :
    interval ((k.field x).write regs v) i = interval regs i :=
  Field.read_write_of_below (field_width_le k hx)
    (show PWM_PDZINTV_SHIFT + PWM_PDZINTV_WIDTH ≤ 32 by decide) (Or.inl (field_offset_ne hi hx 0))

/-- The fields that hold the timing of a channel. -/
def IsCount (k : FieldName) : Prop :=
  k = .clkSrc ∨ k = .divM ∨ k = .prescal ∨ k = .actCycles ∨ k = .periodCycles

instance (k : FieldName) : Decidable (IsCount k) := inferInstanceAs (Decidable (_ ∨ _))

/-- The timing of the two channels is the same. -/
structure SameTiming (i j : ℕ) (regs regs' : Regs) : Prop where
  view : ∀ x, x = i ∨ x = j → ∀ k, IsCount k → view regs' x k = view regs x k
  interval : interval regs' i = interval regs i

namespace SameTiming

theorem refl (regs : Regs) : SameTiming i j regs regs := ⟨fun _ _ _ _ => rfl, rfl⟩

theorem trans {regs'' : Regs} (h : SameTiming i j regs regs') (h' : SameTiming i j regs' regs'') :
    SameTiming i j regs regs'' := by
  refine ⟨fun x hx k hk => ?_, ?_⟩
  · rw [h'.view x hx k hk, h.view x hx k hk]
  · rw [h'.interval, h.interval]

variable (hi : i < 8) (hj : j < 9)
include hi hj

/-- Both channels of a request are channels of the controller. -/
theorem of_or (hx : x = i ∨ x = j) : x < 9 := by
  -- the first of the pair is less than 8
  rcases hx with rfl | rfl
  · omega
  · exact hj

/-- Another field of a channel is written. -/
theorem write (hx : x < 9) (hk : ¬IsCount k) (hv : v < 2 ^ k.width) :
    SameTiming i j regs ((k.field x).write regs v) := by
  refine ⟨fun y hy k' hk' => ?_, interval_field hi hx⟩
  rw [view_write hx (of_or hi hj hy) hv, if_neg]
  rintro ⟨rfl, -⟩
  exact hk hk'

/-- The dead zone is turned on or off. -/
theorem dzEn {junk : ℕ} (hv : v < 2) :
    SameTiming i j regs ((Pwm.dzEn (getPdzcrRegOffset i junk)).write regs v) := by
  refine ⟨fun y hy k _ => view_dz hi (of_or hi hj hy) rfl, ?_⟩
  exact Field.read_write_of_apart (show 1 ≤ 32 by decide) (show 8 + 8 ≤ 32 by decide)
    (Or.inr (Or.inr (show 0 + 1 ≤ 8 by decide))) hv

/-- The polarity of the two channels is set with opposite bits, which are no part of the timing. -/
theorem setPolarity (p : PwmPolarity) :
    SameTiming i j regs (sunxiPwmSetPolarityDual regs i j p) := by
  -- one bit of one channel
  have hbit : ∀ (y : ℕ) (r : Regs) (b : ℕ), y < 9 → b < 2 → SameTiming i j r
      ((FieldName.actSta.field y).write r b) := fun y r b hy hb => write hi hj hy (by decide) hb
  unfold sunxiPwmSetPolarityDual
  split
  · exact (hbit i _ 1 (by omega) (by decide)).trans (hbit j _ 0 hj (by decide))
  · exact (hbit i _ 0 (by omega) (by decide)).trans (hbit j _ 1 hj (by decide))

/-- Turning the channels off leaves the timing alone. -/
theorem disable (env : DualEnv) : SameTiming i j regs (sunxiPwmDisableDual regs i j env) := by
  have hi9 : i < 9 := by omega
  unfold sunxiPwmDisableDual
  split
  · exact refl regs
  · rw [getPccrRegOffset_of_lt hi9, getPccrRegOffset_of_lt hj]
    exact ((((write (k := .per) hi hj hi9 (by decide) (by decide)).trans
      (write (k := .per) hi hj hj (by decide) (by decide))).trans
      (write (k := .clkGating) hi hj hi9 (by decide) (by decide))).trans
      (write (k := .clkGating) hi hj hj (by decide) (by decide))).trans
      (dzEn hi hj (by decide))

/-- Turning the channels on leaves the timing alone. -/
theorem enable (env : DualEnv) : SameTiming i j regs (sunxiPwmEnableDual regs i j env).2 := by
  have hi9 : i < 9 := by omega
  unfold sunxiPwmEnableDual
  split
  · exact refl regs
  split
  · exact refl regs
  split
  · exact refl regs
  · dsimp only
    rw [getPccrRegOffset_of_lt hi9, getPccrRegOffset_of_lt hj]
    exact (((write (k := .clkGating) hi hj hi9 (by decide) (by decide)).trans
      (write (k := .clkGating) hi hj hj (by decide) (by decide))).trans
      (write (k := .per) hi hj hi9 (by decide) (by decide))).trans
      (write (k := .per) hi hj hj (by decide) (by decide))

end SameTiming

/-- The devices are found and their pins are set. -/
def DualEnv.Ready (env : DualEnv) : Prop :=
  env.enableNodes = true ∧ env.pinState = 0 ∧ env.bindPinState = 0

instance (env : DualEnv) : Decidable env.Ready := inferInstanceAs (Decidable (_ ∧ _ ∧ _))

/-- Turning the channels on succeeds exactly when the devices are ready. -/
theorem enableDual_ret (regs : Regs) (i j : ℕ) (env : DualEnv) :
    (sunxiPwmEnableDual regs i j env).1 = 0 ↔ env.Ready := by
  unfold sunxiPwmEnableDual DualEnv.Ready
  -- the devices, the pins of the first channel, the pins of the second
  cases hnode : env.enableNodes with
  | false => exact iff_of_false (show -ENODEV ≠ 0 by decide) (fun h => Bool.noConfusion h.1)
  | true =>
    by_cases hpin : env.pinState = 0
    · by_cases hbind : env.bindPinState = 0
      · exact iff_of_true (by simp [hpin, hbind]) ⟨rfl, hpin, hbind⟩
      · exact iff_of_false (by simp [hpin, hbind]) (fun h => hbind h.2.2)
    · exact iff_of_false (by simp [hpin]) (fun h => hpin h.2.1)

/-- Otherwise nothing is written. -/
theorem enableDual_of_not_ready {env : DualEnv} (h : ¬env.Ready) :
    (sunxiPwmEnableDual regs i j env).2 = regs := by
  unfold sunxiPwmEnableDual
  split
  · rfl
  rename_i hnode
  split
  · rfl
  rename_i hpin
  rw [if_pos]
  intro hbind
  exact h ⟨by simpa using hnode, not_not.mp hpin, hbind⟩

/-- A value that fits is written to a field of both channels. -/
theorem view_both (hi : i < 9) (hj : j < 9) (hx : x = i ∨ x = j) {k' : FieldName}
    (hv : v < 2 ^ k.width) :
    view ((k.field j).write ((k.field i).write regs v) v) x k' =
      if k' = k then v else view regs x k' := by
  have hx9 : x < 9 := by
    rcases hx with rfl | rfl
    · exact hi
    · exact hj
  rw [view_write hj hx9 hv, view_write hi hx9 hv]
  -- the two channels may share the register of a field
  by_cases hk : k' = k
  · subst hk
    rw [if_pos rfl]
    rcases hx with rfl | rfl
    · rw [if_pos (show k' = k' ∧ Shared k' x x from ⟨rfl, Shared.refl _ _⟩), ite_self]
    · rw [if_pos ⟨rfl, Shared.refl _ _⟩]
  · rw [if_neg fun h => hk h.1, if_neg fun h => hk h.1, if_neg hk]

end Frame

/-! ### The configuration -/

/-- The `SET_BITS` of `sunxi_pwm_config_dual` for a period that is not bypassed, in order. -/
def dualSetBits (sel bind deadTime junk : ℕ) (dutyNs periodNs : ℤ) : List (Field × ℕ) :=
  let dzOffset := getPdzcrRegOffset sel junk
  let regOffset₀ := getPccrRegOffset sel junk
  let regOffset₁ := getPccrRegOffset bind junk
  let srcClkSel := if 10 < periodNs ∧ periodNs ≤ 334 then 1 else 0
  let c := clkFreq periodNs * intToU64 periodNs % 2 ^ 64 / 1000000000
  [(dzEn dzOffset, 1), (clkSrc regOffset₀, srcClkSel), (clkSrc regOffset₁, srcClkSel)] ++
    match dualSearch c (clkFreq periodNs) deadTime preScal ⟨c, 0, 0, 0⟩ with
    | none => []
    | some v =>
      let active := v.entire * intToU64 dutyNs % 2 ^ 64 / intToU32 periodNs
      let entire := if v.entire = 0 then 1 else v.entire
      [(dualDivM regOffset₀, v.divM), (dualDivM regOffset₁, v.divM), (prescal sel, v.prescale),
        (prescal bind, v.prescale), (actCycles sel, active), (actCycles bind, active),
        (periodCycles sel, entire - 1), (periodCycles bind, entire - 1),
        (pdzIntv dzOffset, v.zone)]

section Config

variable {regs : Regs} {i j dead junk m n : ℕ}

/-- The function consists of them. -/
theorem configDual_eq {dutyNs periodNs : ℤ} (hdead : dead ≤ intToU32 dutyNs)
    (hlong : ¬(0 < periodNs ∧ periodNs ≤ 10)) (hne : intToU32 periodNs ≠ 0) :
    (sunxiPwmConfigDual regs i j dead dutyNs periodNs junk).map Prod.snd =
      some (Field.writeAll (dualSetBits i j dead junk dutyNs periodNs) regs) := by
  -- the dead zone was turned on just before, so the code takes its branch
  have hread : (dzEn (getPdzcrRegOffset i junk)).read
      ((dzEn (getPdzcrRegOffset i junk)).write regs 1) = 1 :=
    Field.read_write_self (show 0 + 1 ≤ 32 by decide)
  unfold sunxiPwmConfigDual dualSetBits
  dsimp only
  rw [hread, if_neg (by omega), if_neg hlong]
  generalize dualSearch _ _ _ _ _ = found
  cases found with
  | none => rfl
  | some v =>
    dsimp only
    rw [if_neg hne]
    rfl

/-- The clock source of both channels. -/
def sourceOf (period : ℕ) : ℕ := if period ≤ 334 then 1 else 0

/-- Without a prescaler that fits, three fields are written. -/
theorem dualSetBits_none (hi : i < 8) (hj : j < 9) (hlo : 10 < n) (hhi : n < 2 ^ 31)
    (hdead : dead < 2 ^ 31) (hnone : ∀ p ≤ 256, ¬Fits n dead p) : dualSetBits i j dead junk m n =
      [(dzEn (getPdzcrRegOffset i 0), 1), (FieldName.clkSrc.field i, sourceOf n),
        (FieldName.clkSrc.field j, sourceOf n)] := by
  have hsrc : (if 10 < (n : ℤ) ∧ (n : ℤ) ≤ 334 then 1 else 0) = sourceOf n :=
    if_congr (by omega) rfl rfl
  unfold dualSetBits
  dsimp only
  rw [cycles_u64 hlo hhi, dualSearch_of_none hdead hnone, getPdzcrRegOffset_of_lt hi,
    getPccrRegOffset_of_lt (by omega : i < 9), getPccrRegOffset_of_lt hj, hsrc]
  rfl

/-- With one, the timing is written too, the divider with a width of 0. -/
theorem dualSetBits_first (hi : i < 8) (hj : j < 9) (hlo : 10 < n) (hhi : n < 2 ^ 31)
    (hdead : dead ≤ m) (hm : m ≤ n) {q : ℕ} (hq : FirstFit n dead q) :
    dualSetBits i j dead junk m n =
      [(dzEn (getPdzcrRegOffset i 0), 1), (FieldName.clkSrc.field i, sourceOf n),
        (FieldName.clkSrc.field j, sourceOf n), (dualDivM (getPccrRegOffset i 0), 0),
        (dualDivM (getPccrRegOffset j 0), 0), (FieldName.prescal.field i, q),
        (FieldName.prescal.field j, q), (FieldName.actCycles.field i, entireOf n 0 q * m / n),
        (FieldName.actCycles.field j, entireOf n 0 q * m / n),
        (FieldName.periodCycles.field i, entireOf n 0 q - 1),
        (FieldName.periodCycles.field j, entireOf n 0 q - 1),
        (pdzIntv (getPdzcrRegOffset i 0), zoneOf n dead 0 q)] := by
  have hsrc : (if 10 < (n : ℤ) ∧ (n : ℤ) ≤ 334 then 1 else 0) = sourceOf n :=
    if_congr (by omega) rfl rfl
  -- the counts are not 0, so they are written as they are
  have hpos := hq.entire_pos hlo (hdead.trans hm)
  have hcast : intToU64 m = m := Int.ofNat_inj.mp (intToU64_of_nonneg (by omega) (by omega))
  have hprod : entireOf n 0 q * m ≤ 65536 * n := Nat.mul_le_mul hq.fits.1 hm
  unfold dualSetBits
  dsimp only
  rw [cycles_u64 hlo hhi, dualSearch_of_first (by omega) hq, getPdzcrRegOffset_of_lt hi,
    getPccrRegOffset_of_lt (by omega : i < 9), getPccrRegOffset_of_lt hj, hsrc, hcast,
    intToU32_natCast (by omega)]
  unfold scaleAt
  dsimp only
  rw [Nat.mod_eq_of_lt (by omega), if_neg (by omega)]
  rfl

/-- The configuration does not turn a channel on, whatever is written. -/
theorem per_dualSetBits (hi : i < 8) (hj : j < 9) {x : ℕ} (dutyNs periodNs : ℤ) :
    view (Field.writeAll (dualSetBits i j dead junk dutyNs periodNs) regs) x .per =
      view regs x .per := by
  -- no `SET_BITS` of the list is on `PWM_PER`
  have hkeep : Field.writeAll (dualSetBits i j dead junk dutyNs periodNs) regs PWM_PER =
      regs PWM_PER := by
    apply Field.writeAll_of_ne
    have hoff : ∀ y < 9, ∀ k : FieldName, k.reg ≠ .per → (k.field y).offset ≠ PWM_PER := by
      intro y hy k hk
      rw [field_offset]
      exact fun (h : k.reg.offset y = RegName.per.offset y) => hk (RegName.offset_inj hy hy h).1
    have hi9 : i < 9 := by omega
    have hdz : getPdzcrRegOffset i junk ≠ PWM_PER := by
      rw [getPdzcrRegOffset_eq hi]
      show _ ≠ 0x40
      omega
    have hpi : getPccrRegOffset i junk ≠ PWM_PER := by
      rw [getPccrRegOffset_of_lt hi9]
      exact hoff i hi9 .clkSrc (by decide)
    have hpj : getPccrRegOffset j junk ≠ PWM_PER := by
      rw [getPccrRegOffset_of_lt hj]
      exact hoff j hj .clkSrc (by decide)
    unfold dualSetBits
    dsimp only
    generalize dualSearch _ _ _ _ _ = found
    intro w hw
    rcases List.mem_append.mp hw with hw | hw
    · simp only [List.mem_cons, List.not_mem_nil, or_false] at hw
      rcases hw with rfl | rfl | rfl
      · exact hdz
      · exact hpi
      · exact hpj
    · cases found with
      | none => cases hw
      | some v =>
        simp only [List.mem_cons, List.not_mem_nil, or_false] at hw
        rcases hw with rfl | rfl | rfl | rfl | rfl | rfl | rfl | rfl | rfl
        · exact hpi
        · exact hpj
        · exact hoff i hi9 .prescal (by decide)
        · exact hoff j hj .prescal (by decide)
        · exact hoff i hi9 .actCycles (by decide)
        · exact hoff j hj .actCycles (by decide)
        · exact hoff i hi9 .periodCycles (by decide)
        · exact hoff j hj .periodCycles (by decide)
        · exact hdz
  unfold view Field.read
  rw [show (FieldName.per.field x).offset = PWM_PER from rfl, hkeep]

/-- The dead zone is turned on and the source selected. -/
def sourcesSet (regs : Regs) (i j n : ℕ) : Regs :=
  (FieldName.clkSrc.field j).write ((FieldName.clkSrc.field i).write
    ((dzEn (getPdzcrRegOffset i 0)).write regs 1) (sourceOf n)) (sourceOf n)

theorem sourceOf_lt (n : ℕ) : sourceOf n < 2 ^ 2 := by
  unfold sourceOf
  split <;> decide

/-- The source is the only field of the channels that changes. -/
theorem view_sourcesSet (hi : i < 8) (hj : j < 9) {x : ℕ} (hx : x = i ∨ x = j) (k : FieldName) :
    view (sourcesSet regs i j n) x k = if k = .clkSrc then sourceOf n else view regs x k := by
  unfold sourcesSet
  rw [view_both (by omega) hj hx (sourceOf_lt n), view_dz hi (SameTiming.of_or hi hj hx) rfl]

theorem interval_sourcesSet (hi : i < 8) (hj : j < 9) :
    interval (sourcesSet regs i j n) i = interval regs i := by
  unfold sourcesSet
  rw [interval_field hi hj, interval_field hi (by omega)]
  exact (SameTiming.dzEn hi hj (by decide)).interval

/-- The timing after a search that ended at the prescaler `q`. -/
structure Written (regs regs' : Regs) (i j dead m n q : ℕ) : Prop where
  fields : ∀ x, x = i ∨ x = j → view regs' x .clkSrc = sourceOf n ∧
    view regs' x .divM = view regs x .divM ∧ view regs' x .prescal = q ∧
    view regs' x .actCycles = entireOf n 0 q * m / n ∧
    view regs' x .periodCycles = entireOf n 0 q - 1
  zone : interval regs' i = zoneOf n dead 0 q

/-- The fields hold what the search ended with when it fits, and the divider they had. -/
theorem written_of_first (hi : i < 8) (hj : j < 9) (hlo : 10 < n) (hhi : n < 2 ^ 31)
    (hdead : dead ≤ m) (hm : m ≤ n) {q : ℕ} (hq : FirstFit n dead q) (hpre : q < 2 ^ 8)
    (hact : entireOf n 0 q * m / n < 2 ^ 16) (hzone : zoneOf n dead 0 q < 2 ^ 8) :
    Written regs (Field.writeAll (dualSetBits i j dead junk m n) regs) i j dead m n q := by
  have hent : entireOf n 0 q - 1 < 2 ^ 16 := by
    have hle := hq.fits.1
    omega
  rw [dualSetBits_first hi hj hlo hhi hdead hm hq]
  -- a field of width 0 is not written
  have hdiv : ∀ (off : ℕ) (r : Regs), (dualDivM off).write r 0 = r :=
    fun _ _ => Field.write_of_width_zero rfl
  -- one stage for each field of both channels
  show Written regs ((pdzIntv (getPdzcrRegOffset i 0)).write
    ((FieldName.periodCycles.field j).write ((FieldName.periodCycles.field i).write
      ((FieldName.actCycles.field j).write ((FieldName.actCycles.field i).write
        ((FieldName.prescal.field j).write ((FieldName.prescal.field i).write
          ((dualDivM _).write ((dualDivM _).write (sourcesSet regs i j n) 0) 0) q) q)
        _) _) _) _) _) i j dead m n q
  rw [hdiv, hdiv]
  constructor
  · intro x hx
    have hx9 := SameTiming.of_or hi hj hx
    have hi9 : i < 9 := by omega
    refine ⟨?_, ?_, ?_, ?_, ?_⟩
    all_goals
      rw [view_dz hi hx9 rfl, view_both hi9 hj hx hent, view_both hi9 hj hx hact,
        view_both hi9 hj hx hpre, view_sourcesSet hi hj hx]
      rfl
  · unfold interval
    rw [Field.read_write_self (show 8 + 8 ≤ 32 by decide)]
    exact Nat.mod_eq_of_lt hzone

end Config

/-! ### The request -/

section Request

variable {regs regs' : Regs} {d : Dispatch} {i j dead : ℕ} {old r : PwmState} {env : DualEnv}

/-- The registers after the polarity was dealt with. -/
def turnedVia (d : Dispatch) (regs : Regs) (old r : PwmState) : Regs :=
  if r.polarity ≠ old.polarity then
    d.setPolarity (if old.enabled then d.disable regs else regs) r.polarity
  else regs

/-- A request that turns the channel on configures it, and enables it unless it is running. -/
theorem applyVia_of_enabled (hen : r.enabled = true) : applyVia d regs old r =
    (d.config (turnedVia d regs old r) (toInt32 r.dutyCycle) (toInt32 r.period)).map fun conf =>
      if Running old r then (0, conf)
      else ((d.enable conf).1, d.setPolarity (d.enable conf).2 .normal) := by
  -- the code takes a channel as running when it was on and keeps its polarity
  have hrunning : (old.enabled && !decide (r.polarity ≠ old.polarity)) = true ↔ Running old r := by
    unfold Running
    simp
  unfold applyVia turnedVia
  dsimp only
  rw [hen, if_neg (by decide)]
  congr 1
  ext1 conf
  exact if_congr hrunning rfl rfl

/-- The polarity is dealt with before the timing, and leaves it alone. -/
theorem sameTiming_turned (hi : i < 8) (hj : j < 9) :
    SameTiming i j regs (turnedVia (dual dead i j env) regs old r) := by
  unfold turnedVia
  split
  · split
    · exact (SameTiming.disable hi hj env).trans (SameTiming.setPolarity hi hj _)
    · exact SameTiming.setPolarity hi hj _
  · exact SameTiming.refl regs

/-- Dealing with the polarity turns no channel on. -/
theorem per_setPolarityDual (hi : i < 9) (hj : j < 9) {x : ℕ} (hx : x < 9) (p : PwmPolarity) :
    view (sunxiPwmSetPolarityDual regs i j p) x .per = view regs x .per := by
  have hbit : ∀ (y : ℕ) (s : Regs) (b : ℕ), y < 9 →
      view ((FieldName.actSta.field y).write s b) x .per = view s x .per := fun y s b hy =>
    view_write_of_reg hy hx (Or.inl (by decide))
  unfold sunxiPwmSetPolarityDual
  split
  · exact (hbit j _ 0 hj).trans (hbit i _ 1 hi)
  · exact (hbit j _ 1 hj).trans (hbit i _ 0 hi)

/-- Turning the channels off turns none on. -/
theorem per_disableDual (hi : i < 8) (hj : j < 9) {x : ℕ} (hx : x < 9)
    (h : view (sunxiPwmDisableDual regs i j env) x .per = 1) : view regs x .per = 1 := by
  have hi9 : i < 9 := by omega
  have hgate : ∀ (y : ℕ) (s : Regs), y < 9 →
      view ((FieldName.clkGating.field y).write s 0) x .per = view s x .per := fun y s hy =>
    view_write_of_reg hy hx (Or.inl (by decide))
  -- a bit that is cleared was not set by this
  have hclear : ∀ (y : ℕ) (s : Regs), y < 9 →
      view ((FieldName.per.field y).write s 0) x .per = 1 → view s x .per = 1 := by
    intro y s hy hone
    rw [view_write hy hx (by decide)] at hone
    split at hone
    · exact absurd hone (by decide)
    · exact hone
  unfold sunxiPwmDisableDual at h
  split at h
  · exact h
  · dsimp only at h
    rw [getPccrRegOffset_of_lt hi9, getPccrRegOffset_of_lt hj, view_dz hi hx rfl] at h
    exact hclear i _ hi9 (hclear j _ hj (((hgate i _ hi9).symm.trans (hgate j _ hj).symm).trans h))

/-- Neither does what is done for the polarity. -/
theorem per_turned (hi : i < 8) (hj : j < 9) {x : ℕ} (hx : x < 9)
    (h : view (turnedVia (dual dead i j env) regs old r) x .per = 1) : view regs x .per = 1 := by
  unfold turnedVia at h
  split at h
  · change view (sunxiPwmSetPolarityDual _ i j _) x .per = 1 at h
    rw [per_setPolarityDual (by omega) hj hx] at h
    split at h
    · exact per_disableDual hi hj hx h
    · exact h
  · exact h

/-- What the request does after the configuration. -/
theorem bound_request (hi : i < 8) (hj : j < 9) (hen : r.enabled = true) (hlo : 10 < r.period)
    (hhi : r.period < 2 ^ 31) (hdead : dead ≤ r.dutyCycle) (hduty : r.dutyCycle ≤ r.period)
    (regs : Regs) (old : PwmState) (env : DualEnv) :
    ∃ ret regs' conf, applyVia (dual dead i j env) regs old r = some (ret, regs') ∧
      conf = Field.writeAll (dualSetBits i j dead env.junk r.dutyCycle r.period)
        (turnedVia (dual dead i j env) regs old r) ∧
      (ret = 0 ↔ Running old r ∨ env.Ready) ∧ SameTiming i j conf regs' ∧
      (¬(Running old r ∨ env.Ready) → ∀ x < 9, view regs' x .per = view conf x .per) := by
  -- the request fits into the types of the driver
  have hm : toInt32 r.dutyCycle = r.dutyCycle := toInt32_of_range (by omega) (by omega)
  have hn : toInt32 r.period = r.period := toInt32_of_range (by omega) (by omega)
  have hconf : (dual dead i j env).config (turnedVia (dual dead i j env) regs old r)
      (toInt32 r.dutyCycle) (toInt32 r.period) =
        some (Field.writeAll (dualSetBits i j dead env.junk r.dutyCycle r.period)
          (turnedVia (dual dead i j env) regs old r)) := by
    rw [hm, hn]
    apply configDual_eq
    · rwa [intToU32_natCast (by omega)]
    · omega
    · rw [intToU32_natCast (by omega)]
      omega
  rw [applyVia_of_enabled hen, hconf, Option.map_some]
  generalize Field.writeAll _ _ = conf
  -- a running channel is not turned on again
  by_cases hrun : Running old r
  · rw [if_pos hrun]
    exact ⟨_, _, conf, rfl, rfl, iff_of_true rfl (Or.inl hrun), SameTiming.refl conf,
      fun h => absurd (Or.inl hrun) h⟩
  · rw [if_neg hrun]
    refine ⟨_, _, conf, rfl, rfl, ?_, (SameTiming.enable hi hj env).trans
      (SameTiming.setPolarity hi hj .normal), fun h x hx => ?_⟩
    · exact (enableDual_ret conf i j env).trans (or_iff_right hrun).symm
    · show view (sunxiPwmSetPolarityDual _ i j .normal) x .per = _
      rw [per_setPolarityDual (by omega) hj hx]
      have hkeep : (sunxiPwmEnableDual conf i j env).2 = conf :=
        enableDual_of_not_ready fun hready => h (Or.inr hready)
      exact congrArg (view · x .per) hkeep

end Request

/-! ### The result -/

section Outcome

variable (regs : Regs) (i j dead : ℕ)

/-- Both channels and the dead zone hold one choice. -/
def HoldsChoice (m n : ℕ) : Prop :=
  ∃ k p, Choice n dead k p ∧
    (∀ x, x = i ∨ x = j → view regs x .divM = k ∧ view regs x .prescal = p ∧
      view regs x .actCycles = entireOf n k p * m / n ∧
      view regs x .periodCycles + 1 = entireOf n k p) ∧
    interval regs i = zoneOf n dead k p

/-- What a request should come to: from `regs` to `regs'`, returning `ret`. -/
structure BoundOutcome (junk : ℕ) (r : PwmState) (ret : ℤ) (regs' : Regs) : Prop where
  success : ret = 0 ↔ ∃ k p, Choice r.period dead k p
  source : ret = 0 → ∀ x, x = i ∨ x = j → view regs' x .clkSrc = sourceOf r.period
  choice : ret = 0 → HoldsChoice regs' i j dead r.dutyCycle r.period
  contained : ret = 0 → ∀ w ∈ dualSetBits i j dead junk r.dutyCycle r.period, w.1.Contained 32 w.2
  off : (¬∃ k p, Choice r.period dead k p) → ret ≠ 0 ∧
    ∀ x, x = i ∨ x = j → view regs' x .per = 1 → view regs x .per = 1

/-- The request returns, with the outcome it should have. -/
def BoundHonours (old r : PwmState) (env : DualEnv) : Prop :=
  ∃ ret regs', applyVia (dual dead i j env) regs old r = some (ret, regs') ∧
    BoundOutcome regs i j dead env.junk r ret regs'

/-- The search ends, what it ends with fits, and the divider of both channels is 0 already. -/
def Searched (r : PwmState) : Prop :=
  ∃ p, FirstFit r.period dead p ∧ p ≤ 255 ∧ zoneOf r.period dead 0 p ≤ 255 ∧
    entireOf r.period 0 p * r.dutyCycle / r.period ≤ 65535 ∧
    view regs i .divM = 0 ∧ view regs j .divM = 0

/-- The search does not end, and both channels hold a choice already. -/
def Untouched (r : PwmState) : Prop :=
  (∀ p ≤ 256, ¬Fits r.period dead p) ∧ HoldsChoice regs i j dead r.dutyCycle r.period

end Outcome

section Result

variable {regs regs' : Regs} {i j dead junk m n : ℕ}

/-- A choice is held by registers with the same timing, whatever the clock source. -/
theorem HoldsChoice.congr (h : HoldsChoice regs i j dead m n)
    (hview : ∀ x, x = i ∨ x = j → ∀ k, IsCount k → k ≠ .clkSrc →
      view regs' x k = view regs x k)
    (hzone : interval regs' i = interval regs i) : HoldsChoice regs' i j dead m n := by
  obtain ⟨k, p, hc, hfields, hint⟩ := h
  refine ⟨k, p, hc, fun x hx => ?_, hzone.trans hint⟩
  rw [hview x hx .divM (by decide) (by decide), hview x hx .prescal (by decide) (by decide),
    hview x hx .actCycles (by decide) (by decide),
    hview x hx .periodCycles (by decide) (by decide)]
  exact hfields x hx

/-- A choice is held as long as the timing is the same. -/
theorem SameTiming.holdsChoice (h : SameTiming i j regs regs')
    (hc : HoldsChoice regs i j dead m n) : HoldsChoice regs' i j dead m n :=
  hc.congr (fun x hx k hk _ => h.view x hx k hk) h.interval

theorem SameTiming.symm (h : SameTiming i j regs regs') : SameTiming i j regs' regs :=
  ⟨fun x hx k hk => (h.view x hx k hk).symm, h.interval.symm⟩

/-- A search that does not end changes the source only. -/
theorem holdsChoice_sourcesSet (hi : i < 8) (hj : j < 9) :
    HoldsChoice (sourcesSet regs i j n) i j dead m n ↔ HoldsChoice regs i j dead m n := by
  -- the source is no part of a choice
  have hview : ∀ x, x = i ∨ x = j → ∀ k, IsCount k → k ≠ .clkSrc →
      view (sourcesSet regs i j n) x k = view regs x k := by
    intro x hx k _ hne
    rw [view_sourcesSet hi hj hx, if_neg hne]
  have hzone : interval (sourcesSet regs i j n) i = interval regs i := interval_sourcesSet hi hj
  exact ⟨fun h => h.congr (fun x hx k hk hne => (hview x hx k hk hne).symm) hzone.symm,
    fun h => h.congr hview hzone⟩

/-- What is written is a choice exactly when the divider is 0. -/
theorem Written.holdsChoice_iff {q : ℕ} (h : Written regs regs' i j dead m n q)
    (hpos : 0 < entireOf n 0 q) (hc : Choice n dead 0 q) :
    HoldsChoice regs' i j dead m n ↔ view regs i .divM = 0 ∧ view regs j .divM = 0 := by
  constructor
  · -- a choice with this prescaler and these counts has the divider 0, since another gives fewer
    -- counts
    rintro ⟨k, p, -, hfields, -⟩
    have hk : ∀ x, x = i ∨ x = j → view regs x .divM = k ∧ k = 0 := by
      intro x hx
      obtain ⟨-, hdiv, hpre, -, hent⟩ := h.fields x hx
      obtain ⟨hdivk, hprep, -, hentk⟩ := hfields x hx
      have hp : p = q := hprep.symm.trans hpre
      rw [hent, Nat.sub_add_cancel hpos, hp] at hentk
      refine ⟨hdiv.symm.trans hdivk, ?_⟩
      by_contra hne
      exact absurd hentk (entireOf_lt hne hpos).ne'
    obtain ⟨hki, hzero⟩ := hk i (Or.inl rfl)
    obtain ⟨hkj, -⟩ := hk j (Or.inr rfl)
    exact ⟨hki.trans hzero, hkj.trans hzero⟩
  · -- with the divider 0 in the registers, what is written is the choice
    rintro ⟨hdi, hdj⟩
    refine ⟨0, q, hc, fun x hx => ?_, h.zone⟩
    obtain ⟨-, hdiv, hpre, hact, hent⟩ := h.fields x hx
    refine ⟨?_, hpre, hact, ?_⟩
    · rw [hdiv]
      rcases hx with rfl | rfl
      · exact hdi
      · exact hdj
    · rw [hent, Nat.sub_add_cancel hpos]

/-- A value of at most `2 ^ b` that has not the bit `b` is less. -/
theorem lt_of_testBit {v b : ℕ} (hle : v ≤ 2 ^ b) (h : v.testBit b = false) : v < 2 ^ b := by
  refine lt_of_le_of_ne hle ?_
  rintro rfl
  rw [Nat.testBit_two_pow_self] at h
  exact Bool.noConfusion h

/-- The values that are written fit exactly when no `SET_BITS` reaches beyond its field. -/
theorem contained_iff (junk : ℕ) (hi : i < 8) (hj : j < 9) (hlo : 10 < n) (hhi : n < 2 ^ 31)
    (hdead : dead ≤ m) (hm : m ≤ n) {q : ℕ} (hq : FirstFit n dead q) :
    (∀ w ∈ dualSetBits i j dead junk m n, w.1.Contained 32 w.2) ↔
      q ≤ 255 ∧ zoneOf n dead 0 q ≤ 255 ∧ entireOf n 0 q * m / n ≤ 65535 := by
  have hentire : entireOf n 0 q ≤ 65536 := hq.fits.1
  have hactive : entireOf n 0 q * m / n ≤ 65536 := by
    apply Nat.div_le_of_le_mul
    rw [Nat.mul_comm n]
    exact Nat.mul_le_mul hentire hm
  rw [dualSetBits_first hi hj hlo hhi hdead hm hq]
  constructor
  · -- the prescaler, the dead zone and the duty are at most one too large for their fields
    intro hall
    have hpre : q.testBit 8 = false :=
      (hall (FieldName.prescal.field i, q) (by simp)).testBit (show 8 ≤ 32 by decide) (le_refl 8)
        (show 0 + 8 < 32 by decide)
    have hzone : (zoneOf n dead 0 q).testBit 8 = false :=
      (hall (pdzIntv (getPdzcrRegOffset i 0), zoneOf n dead 0 q) (by simp)).testBit
        (show 8 ≤ 32 by decide) (le_refl 8) (show 8 + 8 < 32 by decide)
    have hact : (entireOf n 0 q * m / n).testBit 16 = false :=
      (hall (FieldName.actCycles.field i, entireOf n 0 q * m / n) (by simp)).testBit
        (show 16 ≤ 32 by decide) (le_refl 16) (show 0 + 16 < 32 by decide)
    have hq8 := lt_of_testBit hq.le hpre
    have hz8 := lt_of_testBit hq.fits.2 hzone
    have ha16 := lt_of_testBit hactive hact
    omega
  · -- the other fields always fit
    rintro ⟨hq8, hz8, ha16⟩
    have hfit : ∀ {f : Field} {v : ℕ}, f.width ≤ 32 → v < 2 ^ f.width → f.Contained 32 v :=
      fun hw hv => Field.contained_of_lt hw hv
    have hpre : ∀ y, (FieldName.prescal.field y).Contained 32 q :=
      fun y => hfit (show 8 ≤ 32 by decide) (show q < 256 by omega)
    have hact : ∀ y, (FieldName.actCycles.field y).Contained 32 (entireOf n 0 q * m / n) :=
      fun y => hfit (show 16 ≤ 32 by decide) (show _ < 65536 by omega)
    have hent : ∀ y, (FieldName.periodCycles.field y).Contained 32 (entireOf n 0 q - 1) :=
      fun y => hfit (show 16 ≤ 32 by decide) (show _ < 65536 by omega)
    have hsrc : ∀ y, (FieldName.clkSrc.field y).Contained 32 (sourceOf n) :=
      fun y => hfit (show 2 ≤ 32 by decide) (sourceOf_lt n)
    have hdiv : ∀ off, (dualDivM off).Contained 32 0 :=
      fun off => hfit (show 0 ≤ 32 by decide) (show 0 < 1 by decide)
    intro w hw
    simp only [List.mem_cons, List.not_mem_nil, or_false] at hw
    rcases hw with rfl | rfl | rfl | rfl | rfl | rfl | rfl | rfl | rfl | rfl | rfl | rfl
    · exact hfit (show 1 ≤ 32 by decide) (show 1 < 2 by decide)
    · exact hsrc i
    · exact hsrc j
    · exact hdiv _
    · exact hdiv _
    · exact hpre i
    · exact hpre j
    · exact hact i
    · exact hact j
    · exact hent i
    · exact hent j
    · exact hfit (show 8 ≤ 32 by decide) (show _ < 256 by omega)

/-- A search that does not end writes the source only. -/
theorem contained_of_none (hi : i < 8) (hj : j < 9) (hlo : 10 < n) (hhi : n < 2 ^ 31)
    (hdead : dead < 2 ^ 31) (hnone : ∀ p ≤ 256, ¬Fits n dead p) :
    ∀ w ∈ dualSetBits i j dead junk m n, w.1.Contained 32 w.2 := by
  rw [dualSetBits_none hi hj hlo hhi hdead hnone]
  intro w hw
  simp only [List.mem_cons, List.not_mem_nil, or_false] at hw
  rcases hw with rfl | rfl | rfl
  · exact Field.contained_of_lt (show 1 ≤ 32 by decide) (show 1 < 2 by decide)
  · exact Field.contained_of_lt (show 2 ≤ 32 by decide) (sourceOf_lt n)
  · exact Field.contained_of_lt (show 2 ≤ 32 by decide) (sourceOf_lt n)

/-- What the search ends with is a choice when the prescaler and the dead zone fit in their fields.
-/
theorem choice_of_first (hlo : 10 < n) (hdead : dead ≤ n) {q : ℕ} (hq : FirstFit n dead q)
    (hpre : q ≤ 255) (hzone : zoneOf n dead 0 q ≤ 255) : Choice n dead 0 q where
  divM := Nat.zero_le 8
  prescale := Nat.lt_succ_of_le hpre
  pos := hq.entire_pos hlo hdead
  entire := hq.fits.1
  zone := Nat.lt_succ_of_le hzone

end Result

section Bound

variable {regs : Regs} {i j dead : ℕ} {old r : PwmState} {env : DualEnv}

/-- The request has one outcome. -/
theorem boundHonours_iff {ret : ℤ} {regs' : Regs}
    (happly : applyVia (dual dead i j env) regs old r = some (ret, regs')) :
    BoundHonours regs i j dead old r env ↔ BoundOutcome regs i j dead env.junk r ret regs' := by
  constructor
  · rintro ⟨ret', regs'', h, hout⟩
    obtain ⟨rfl, rfl⟩ := Prod.mk.inj (Option.some.inj (happly.symm.trans h))
    exact hout
  · exact fun hout => ⟨ret, regs', happly, hout⟩

section Domain

variable (hi : i < 8) (hj : j < 9) (hen : r.enabled = true) (hlo : 10 < r.period)
  (hhi : r.period < 2 ^ 31) (hdead : dead ≤ r.dutyCycle) (hduty : r.dutyCycle ≤ r.period)
include hi hj hen hlo hhi hdead hduty

/-- A request that can succeed, when the search ends. -/
theorem bound_of_first (hok : Running old r ∨ env.Ready) {q : ℕ} (hq : FirstFit r.period dead q) :
    BoundHonours regs i j dead old r env ↔ Searched regs i j dead r := by
  obtain ⟨ret, regs', conf, happly, hconf, hret, hsame, -⟩ :=
    bound_request hi hj hen hlo hhi hdead hduty regs old env
  have hzero : ret = 0 := hret.mpr hok
  have hdn : dead ≤ r.period := hdead.trans hduty
  have hpos := hq.entire_pos hlo hdn
  have hturned : SameTiming i j regs (turnedVia (dual dead i j env) regs old r) :=
    sameTiming_turned hi hj
  have hcontained := contained_iff (j := j) env.junk hi hj hlo hhi hdead hduty hq
  generalize turnedVia (dual dead i j env) regs old r = turned at *
  have hwritten : q ≤ 255 → zoneOf r.period dead 0 q ≤ 255 →
      entireOf r.period 0 q * r.dutyCycle / r.period ≤ 65535 →
        Written turned conf i j dead r.dutyCycle r.period q := by
    intro hpre hzone hact
    rw [hconf]
    exact written_of_first hi hj hlo hhi hdead hduty hq (by omega) (by omega) (by omega)
  rw [boundHonours_iff happly]
  constructor
  · -- a right outcome needs values that fit, and the divider 0 in both channels
    intro hout
    obtain ⟨hpre, hzone, hact⟩ := hcontained.mp (hout.contained hzero)
    have hholds := hsame.symm.holdsChoice (hout.choice hzero)
    have hc := choice_of_first hlo hdn hq hpre hzone
    obtain ⟨hdi, hdj⟩ := ((hwritten hpre hzone hact).holdsChoice_iff hpos hc).mp hholds
    rw [hturned.view i (Or.inl rfl) .divM (by decide)] at hdi
    rw [hturned.view j (Or.inr rfl) .divM (by decide)] at hdj
    exact ⟨q, hq, hpre, hzone, hact, hdi, hdj⟩
  · -- and these are enough
    rintro ⟨p, hp, hpre, hzone, hact, hdi, hdj⟩
    obtain rfl := hp.unique hq
    have hc := choice_of_first hlo hdn hq hpre hzone
    have hw := hwritten hpre hzone hact
    rw [← hturned.view i (Or.inl rfl) .divM (by decide)] at hdi
    rw [← hturned.view j (Or.inr rfl) .divM (by decide)] at hdj
    refine ⟨iff_of_true hzero ⟨0, p, hc⟩, fun _ x hx => ?_, fun _ => ?_,
      fun _ => hcontained.mpr ⟨hpre, hzone, hact⟩, fun hno => absurd ⟨0, p, hc⟩ hno⟩
    · rw [hsame.view x hx .clkSrc (by decide)]
      exact (hw.fields x hx).1
    · exact hsame.holdsChoice ((hw.holdsChoice_iff hpos hc).mpr ⟨hdi, hdj⟩)

/-- A request that can succeed, when the search does not end. -/
theorem bound_of_none (hok : Running old r ∨ env.Ready)
    (hnone : ∀ p ≤ 256, ¬Fits r.period dead p) : BoundHonours regs i j dead old r env ↔
      HoldsChoice regs i j dead r.dutyCycle r.period := by
  obtain ⟨ret, regs', conf, happly, hconf, hret, hsame, -⟩ :=
    bound_request hi hj hen hlo hhi hdead hduty regs old env
  have hzero : ret = 0 := hret.mpr hok
  have hturned : SameTiming i j regs (turnedVia (dual dead i j env) regs old r) :=
    sameTiming_turned hi hj
  generalize turnedVia (dual dead i j env) regs old r = turned at *
  rw [dualSetBits_none hi hj hlo hhi (by omega) hnone] at hconf
  change conf = sourcesSet turned i j r.period at hconf
  rw [boundHonours_iff happly]
  constructor
  · -- the timing is that of before the request
    intro hout
    have hholds := hsame.symm.holdsChoice (hout.choice hzero)
    rw [hconf, holdsChoice_sourcesSet hi hj] at hholds
    exact hturned.symm.holdsChoice hholds
  · -- a choice that the channels hold already is a choice for the request
    intro hholds
    have hex : ∃ k p, Choice r.period dead k p := by
      obtain ⟨k, p, hc, -⟩ := hholds
      exact ⟨k, p, hc⟩
    refine ⟨iff_of_true hzero hex, fun _ x hx => ?_, fun _ => hsame.holdsChoice ?_,
      fun _ => contained_of_none hi hj hlo hhi (by omega) hnone, fun hno => absurd hex hno⟩
    · rw [hsame.view x hx .clkSrc (by decide), hconf, view_sourcesSet hi hj hx, if_pos rfl]
    · rw [hconf, holdsChoice_sourcesSet hi hj]
      exact hturned.holdsChoice hholds

/-- A request that fails. -/
theorem bound_of_failure (hfail : ¬(Running old r ∨ env.Ready)) :
    BoundHonours regs i j dead old r env ↔ ¬∃ k p, Choice r.period dead k p := by
  obtain ⟨ret, regs', conf, happly, hconf, hret, -, hper⟩ :=
    bound_request hi hj hen hlo hhi hdead hduty regs old env
  have hne : ret ≠ 0 := mt hret.mp hfail
  rw [boundHonours_iff happly]
  constructor
  · intro hout hex
    exact hne (hout.success.mpr hex)
  · intro hno
    refine ⟨iff_of_false hne hno, fun h => absurd h hne, fun h => absurd h hne,
      fun h => absurd h hne, fun _ => ⟨hne, fun x hx hon => ?_⟩⟩
    have hx9 := SameTiming.of_or hi hj hx
    rw [hper hfail x hx9, hconf, per_dualSetBits hi hj] at hon
    exact per_turned hi hj hx9 hon

end Domain

end Bound

/-- **Requests for two bound channels.** One that can succeed comes out right exactly when the
search ends, what it ends with fits and the divider is 0, or when the search does not end and the
channels hold a choice already. One that fails comes out right exactly when there is no choice. -/
theorem bound_request_iff {i j dead : ℕ} (hi : i < 8) (hj : j < 9) (regs : Regs) (old : PwmState)
    {r : PwmState} (env : DualEnv) (hen : r.enabled = true) (hlo : 10 < r.period)
    (hhi : r.period < 2 ^ 31) (hdead : dead ≤ r.dutyCycle) (hduty : r.dutyCycle ≤ r.period) :
    BoundHonours regs i j dead old r env ↔
      if Running old r ∨ env.Ready then Searched regs i j dead r ∨ Untouched regs i j dead r
      else ¬∃ k p, Choice r.period dead k p := by
  by_cases hok : Running old r ∨ env.Ready
  · rw [if_pos hok]
    rcases firstFit_or_none r.period dead with ⟨q, hq⟩ | hnone
    · rw [bound_of_first hi hj hen hlo hhi hdead hduty hok hq]
      exact (or_iff_left fun h => h.1 q hq.le hq.fits).symm
    · rw [bound_of_none hi hj hen hlo hhi hdead hduty hok hnone]
      constructor
      · exact fun hholds => Or.inr ⟨hnone, hholds⟩
      · rintro (⟨p, hp, -⟩ | ⟨-, hholds⟩)
        · exact absurd hp.fits (hnone p hp.le)
        · exact hholds
  · rw [if_neg hok]
    exact bound_of_failure hi hj hen hlo hhi hdead hduty hok

/-- An environment in which both devices are found. -/
def DualEnv.found : DualEnv := ⟨true, true, 0, 0, 0⟩

/-- A period of 1 ms with a dead zone of 10 us. -/
theorem bound_request_iff_millisecond :
    BoundHonours (fun _ => 0) 0 1 10000 ⟨0, 0, .normal, false⟩ ⟨1000000, 500000, .normal, true⟩
        .found ↔
      if Running ⟨0, 0, .normal, false⟩ ⟨1000000, 500000, .normal, true⟩ ∨
          DualEnv.found.Ready then
        Searched (fun _ => 0) 0 1 10000 ⟨1000000, 500000, .normal, true⟩ ∨
          Untouched (fun _ => 0) 0 1 10000 ⟨1000000, 500000, .normal, true⟩
      else ¬∃ k p, Choice 1000000 10000 k p :=
  bound_request_iff (by decide) (by decide) _ _ _ rfl (by decide) (by decide) (by decide)
    (by decide)

/-- A period of one second needs the divider 1, which is not tried. -/
theorem second_divider_is_not_tried : ¬∀ (regs : Regs) (old r : PwmState) (dead : ℕ),
    r.enabled = true → 10 < r.period → r.period < 2 ^ 31 → dead ≤ r.dutyCycle →
      r.dutyCycle ≤ r.period → BoundHonours regs 0 1 dead old r .found := by
  intro hall
  have h := hall (fun _ => 0) ⟨0, 0, .normal, false⟩ ⟨1000000000, 500000000, .normal, true⟩ 1000
    rfl (by decide) (by decide) (by decide) (by decide)
  have hcycles : cyclesOf 1000000000 = 24000000 := by decide
  have hnone : ∀ p ≤ 256, ¬Fits 1000000000 1000 p := by
    intro p hp hfit
    have hentire := hfit.1
    unfold entireOf at hentire
    rw [hcycles, Nat.pow_zero, Nat.div_one] at hentire
    have hle : 24000000 / 257 ≤ 24000000 / (p + 1) := Nat.div_le_div_left (by omega) (by omega)
    omega
  obtain ⟨k, p, -, hfields, -⟩ := (bound_of_none (by decide) (by decide) rfl (by decide) (by decide)
    (by decide) (by decide) (Or.inr (by decide)) hnone).mp h
  obtain ⟨hk, hp, -, hentire⟩ := hfields 0 (Or.inl rfl)
  obtain rfl : k = 0 := hk.symm.trans (by decide)
  obtain rfl : p = 0 := hp.symm.trans (by decide)
  exact absurd hentire (by decide)

end LonganPi.Pwm
