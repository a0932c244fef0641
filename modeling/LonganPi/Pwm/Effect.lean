import LonganPi.Pwm.Divider
import LonganPi.Pwm.Views

/-!
# What a request does to the fields

The effect of the calls of `Pwm.Chip` in terms of `view`, for the channel that is configured and for
the others. `configWrite` says which fields the configuration for a period writes, and with which
values.

A request touches three fields besides: the polarity and the enable bit of the channel and the gate
of the pair. All other fields of all channels follow `view_apply`. The gate of a pair is closed only
when no channel of the pair is enabled, so for an enabled channel it follows `view_apply_gate`. What
the three fields of the channel itself are after a request is in `view_apply_switch`.
-/

open DriverLib

namespace LonganPi.Pwm

/-! ### Single calls -/

section Calls

variable {regs : Regs} {i j : ℕ} {k : FieldName} {env : ApplyEnv}

/-- `PWM_ACT_STA` for a polarity. -/
def polarityBit (p : PwmPolarity) : ℕ := if p = .normal then 1 else 0

/-- Setting the polarity writes the bit of the channel and nothing else. -/
theorem view_setPolarity (hi : i < 9) (hj : j < 9) (p : PwmPolarity) :
    view (sunxiPwmSetPolaritySingle regs i p) j k =
      if k = .actSta ∧ Shared .actSta i j then polarityBit p else view regs j k := by
  unfold sunxiPwmSetPolaritySingle polarityBit
  split
  · exact view_write (k := .actSta) hi hj (by decide)
  · exact view_write (k := .actSta) hi hj (by decide)

/-- Disabling a channel touches its enable bit and the gate of its pair. -/
theorem view_disable (hi : i < 9) (hj : j < 9) (hper : ¬(k = .per ∧ Shared .per i j))
    (hgate : k ≠ .clkGating) : view (sunxiPwmDisableSingle regs i env) j k = view regs j k := by
  -- only the enable bit is cleared first
  have hoff : view ((per i).write regs 0) j k = view regs j k := by
    rw [show per i = FieldName.per.field i from rfl, view_write hi hj (by decide), if_neg hper]
  unfold sunxiPwmDisableSingle
  split
  · rfl
  · dsimp only
    split
    · rw [getPccrRegOffset_of_lt hi]
      rw [show clkGating (getPccrRegOffset i 0) = FieldName.clkGating.field i from rfl,
        view_write hi hj (by decide), if_neg (fun h => hgate h.1), hoff]
    · exact hoff

/-- The enable bit of a channel in the two bits of its pair. -/
theorem getField_pair_ne_zero (hij : j / 2 = i / 2) (hj : j < 9) (hen : view regs j .per = 1) :
    getField (i - i % 2) 2 (regs PWM_PER) ≠ 0 := by
  intro hzero
  have hbit : (view regs j .per).testBit 0 = true := by
    rw [hen]
    rfl
  have hread : (view regs j .per).testBit 0 =
      ((regs PWM_PER).getLsbD (j + 0) && decide (0 < 1)) :=
    Field.testBit_read (field_width_le .per hj) 0
  -- the channel is one of the two of its pair
  have hpair : (getField (i - i % 2) 2 (regs PWM_PER)).getLsbD (j % 2) =
      ((regs PWM_PER).getLsbD (i - i % 2 + j % 2) && decide (j % 2 < 2)) :=
    getLsbD_getField (by decide) _ _
  rw [hzero, show i - i % 2 + j % 2 = j + 0 by omega] at hpair
  rw [hbit] at hread
  have hlsb : (regs PWM_PER).getLsbD (j + 0) = true := by
    simpa using hread.symm
  rw [hlsb, decide_eq_true (Nat.mod_lt _ (by decide))] at hpair
  simp at hpair

/-- Disabling a channel keeps the gate of another one that is enabled. -/
theorem view_disable_gate (hi : i < 9) (hj : j < 9) (hne : j ≠ i) (hen : view regs j .per = 1) :
    view (sunxiPwmDisableSingle regs i env) j .clkGating = view regs j .clkGating := by
  have hgate : view ((per i).write regs 0) j .clkGating = view regs j .clkGating := by
    rw [show per i = FieldName.per.field i from rfl, view_write hi hj (by decide),
      if_neg (fun h => FieldName.noConfusion h.1)]
  have hper : view ((per i).write regs 0) j .per = 1 := by
    rw [show per i = FieldName.per.field i from rfl, view_write hi hj (by decide),
      if_neg (fun h => hne h.2), hen]
  unfold sunxiPwmDisableSingle
  split
  · rfl
  · dsimp only
    split
    · rename_i hoff
      -- the gate is closed only when both bits of the pair are 0
      have hpair : ¬Shared .clkGating i j := fun h => getField_pair_ne_zero h hj hper hoff
      rw [getPccrRegOffset_of_lt hi]
      rw [show clkGating (getPccrRegOffset i 0) = FieldName.clkGating.field i from rfl,
        view_write hi hj (by decide), if_neg (fun h => hpair h.2), hgate]
    · exact hgate

/-- The device is found and its pins are set. -/
def ApplyEnv.Ready (env : ApplyEnv) : Prop := env.enableNode = true ∧ env.pinState = 0

instance (env : ApplyEnv) : Decidable env.Ready := inferInstanceAs (Decidable (_ ∧ _))

/-- Enabling fails when the device is not found or its pins are not set. -/
theorem enable_ret (regs : Regs) (i : ℕ) (env : ApplyEnv) :
    (sunxiPwmEnable regs i env).1 = 0 ↔ env.Ready := by
  unfold sunxiPwmEnable sunxiPwmEnableSingle ApplyEnv.Ready
  cases hnode : env.enableNode with
  | false => exact iff_of_false (show -ENODEV ≠ 0 by decide) (fun h => Bool.noConfusion h.1)
  | true =>
    by_cases hpin : env.pinState = 0
    · exact iff_of_true (by simp [hpin]) ⟨rfl, hpin⟩
    · exact iff_of_false (by simp [hpin]) (fun h => hpin h.2)

/-- In that case nothing is turned on. -/
theorem enableSingle_of_not_ready (h : ¬env.Ready) :
    (sunxiPwmEnableSingle regs i env).2 = regs := by
  unfold sunxiPwmEnableSingle
  split
  · rfl
  · rename_i hnode
    have hpin : env.pinState ≠ 0 := fun hpin => h ⟨by simpa using hnode, hpin⟩
    rw [if_pos hpin]

/-- Enabling a channel turns the channel and the gate on if it succeeds. The polarity is set to the
normal one in any case. -/
theorem view_enable (hi : i < 9) (hj : j < 9) : view (sunxiPwmEnable regs i env).2 j k =
    if k = .actSta ∧ Shared .actSta i j then 1
    else if env.Ready ∧ (k = .per ∨ k = .clkGating) ∧ Shared k i j then 1
    else view regs j k := by
  unfold sunxiPwmEnable
  rw [view_setPolarity hi hj]
  refine if_congr Iff.rfl rfl ?_
  -- `PWM_ACT_STA` is written after either outcome
  by_cases hready : env.Ready
  · unfold sunxiPwmEnableSingle
    rw [if_neg (by simp [hready.1]), if_neg (by simp [hready.2])]
    dsimp only
    rw [getPccrRegOffset_of_lt hi, show per i = FieldName.per.field i from rfl,
      show clkGating (getPccrRegOffset i 0) = FieldName.clkGating.field i from rfl,
      view_write hi hj (by decide), view_write hi hj (by decide)]
    cases k <;> simp [hready]
  · rw [if_neg (fun h => hready h.1), enableSingle_of_not_ready hready]

end Calls

/-! ### The configuration -/

/-- The fields of channel `i` that a series of writes sets, for all channels that share them. The
polarity bit of the channel may be set by what spills from other fields, but is not cleared. -/
structure Writes (i : ℕ) (w : FieldName → Option ℕ) (regs regs' : Regs) : Prop where
  view_eq : ∀ j < 9, ∀ k, (k ≠ .actSta ∨ j ≠ i) →
    view regs' j k = if Shared k i j then (w k).getD (view regs j k) else view regs j k
  actSta : view regs i .actSta = 1 → view regs' i .actSta = 1

namespace Writes

variable {i v : ℕ} {regs regs₁ regs₂ : Regs} {w w₁ w₂ : FieldName → Option ℕ}

/-- Nothing is written. -/
theorem refl (regs : Regs) : Writes i (fun _ => none) regs regs := by
  refine ⟨fun j hj k hk => ?_, id⟩
  rw [Option.getD_none, ite_self]

/-- Later writes win. -/
theorem trans (h₁ : Writes i w₁ regs regs₁) (h₂ : Writes i w₂ regs₁ regs₂) :
    Writes i (fun k => (w₂ k).or (w₁ k)) regs regs₂ := by
  refine ⟨fun j hj k hk => ?_, fun hone => h₂.actSta (h₁.actSta hone)⟩
  rw [h₂.view_eq j hj k hk, h₁.view_eq j hj k hk]
  by_cases hshared : Shared k i j
  · simp only [if_pos hshared]
    cases w₂ k with
    | none => rfl
    | some v => rfl
  · simp only [if_neg hshared]

/-- The same fields with the same values. -/
theorem congr (h : Writes i w regs regs₁) (heq : ∀ k, w k = w₁ k) : Writes i w₁ regs regs₁ := by
  rwa [← funext heq]

/-- One field, with a value that fits. -/
theorem single (k : FieldName) (hi : i < 9) (hk : k ≠ .actSta) (hv : v < 2 ^ k.width) :
    Writes i (fun k' => if k' = k then some v else none) regs ((k.field i).write regs v) := by
  refine ⟨fun j hj k' _ => ?_, view_write_actSta hi hk⟩
  rw [view_write hi hj hv]
  by_cases hname : k' = k
  · subst hname
    simp
  · simp [hname]

/-- The prescaler; what does not fit reaches the polarity bit of the channel only. -/
theorem prescal (hi : i < 9) : Writes i (fun k => if k = .prescal then some (v % 2 ^ 8) else none)
    regs ((FieldName.prescal.field i).write regs v) := by
  refine ⟨fun j hj k hk => ?_, view_write_actSta hi (by decide)⟩
  -- in the register of the channel only its own two fields are at stake
  by_cases hown : k.reg = .pcr ∧ j = i
  · obtain ⟨hreg, rfl⟩ := hown
    have hname : k = .prescal := by
      cases k with
      | prescal => rfl
      | actSta => exact absurd rfl (hk.resolve_right fun h => h rfl)
      | _ => exact RegName.noConfusion hreg
    subst hname
    rw [if_pos (Shared.refl _ _)]
    exact view_write_self hi
  · have hkeep : view ((FieldName.prescal.field i).write regs v) j k = view regs j k := by
      refine view_write_of_reg hi hj ?_
      by_cases hreg : k.reg = .pcr
      · right
        rw [hreg]
        exact fun hunit => hown ⟨hreg, hunit⟩
      · exact Or.inl hreg
    rw [hkeep]
    by_cases hname : k = .prescal
    · subst hname
      exact (if_neg (fun hshared => hown ⟨rfl, hshared⟩)).symm
    · rw [if_neg hname, Option.getD_none, ite_self]

/-- Active and period cycles; what does not fit in the active cycles is overwritten by the period
cycles. -/
theorem cycles {a e : ℕ} (hi : i < 9) : Writes i
    (fun k => if k = .actCycles then some (a % 2 ^ 16)
      else if k = .periodCycles then some (e % 2 ^ 16) else none)
    regs
    ((FieldName.periodCycles.field i).write ((FieldName.actCycles.field i).write regs a) e) := by
  refine ⟨fun j hj k _ => ?_, fun hone =>
    view_write_actSta hi (by decide) (view_write_actSta hi (by decide) hone)⟩
  -- both fields are in one register, and the period cycles are above the active ones
  by_cases hown : k.reg = .ppr ∧ j = i
  · obtain ⟨hreg, rfl⟩ := hown
    rw [if_pos (Shared.refl _ _)]
    cases k with
    | actCycles =>
      have hbelow : view ((FieldName.periodCycles.field j).write
          ((FieldName.actCycles.field j).write regs a) e) j .actCycles =
          view ((FieldName.actCycles.field j).write regs a) j .actCycles :=
        Field.read_write_of_below (field_width_le .periodCycles hi) (field_fits .actCycles hj)
          (Or.inr (Nat.le_of_ble_eq_true rfl))
      rw [hbelow]
      exact view_write_self hi
    | periodCycles => exact view_write_self hi
    | _ => exact RegName.noConfusion hreg
  · have hkeep : view ((FieldName.periodCycles.field i).write
        ((FieldName.actCycles.field i).write regs a) e) j k = view regs j k := by
      have hother : k.reg ≠ .ppr ∨ k.reg.unit j ≠ RegName.ppr.unit i := by
        by_cases hreg : k.reg = .ppr
        · right
          rw [hreg]
          exact fun hunit => hown ⟨hreg, hunit⟩
        · exact Or.inl hreg
      rw [view_write_of_reg hi hj hother, view_write_of_reg hi hj hother]
    rw [hkeep]
    cases k with
    | actCycles | periodCycles => exact (if_neg (fun hshared => hown ⟨rfl, hshared⟩)).symm
    | _ => simp

end Writes

/-- What `sunxi_pwm_config_single` writes. -/
def configWrite (clkBypassOutput : ℕ) (dutyNs periodNs : ℤ) : FieldName → Option ℕ
  | .bypass => if 0 < periodNs ∧ (periodNs ≤ 10 ∨ clkBypassOutput = 1) then some 1 else none
  | .clkSrc => if 0 < periodNs then some (if periodNs ≤ 334 then 1 else 0) else none
  | .divM => if 0 < periodNs ∧ periodNs ≤ 10 then none else some (timing dutyNs periodNs).divM
  | .prescal =>
    if 0 < periodNs ∧ periodNs ≤ 10 then none
    else some ((timing dutyNs periodNs).prescale % 2 ^ 8)
  | .actCycles =>
    if 0 < periodNs ∧ periodNs ≤ 10 then none
    else some ((timing dutyNs periodNs).active % 2 ^ 16)
  | .periodCycles =>
    if 0 < periodNs ∧ periodNs ≤ 10 then none
    else some ((timing dutyNs periodNs).entirePred % 2 ^ 16)
  | .actSta | .clkGating | .per => none

/-- Up to 334 ns the source is the fast one. -/
theorem configWrite_clkSrc (byp : ℕ) (duty period : ℤ) : configWrite byp duty period .clkSrc =
    if 0 < period then some (if period ≤ 334 then 1 else 0) else none := rfl

/-- The divider, for the period as the code converts it. -/
theorem configWrite_divM (byp : ℕ) (duty n : ℤ) : configWrite byp duty (toInt32 n) .divM =
    if 0 < toInt32 n ∧ toInt32 n ≤ 10 then none else some (dividerOf (toInt32 n)) := by
  rw [← timing_divM duty n]
  rfl

/-- The bypass bit and the clock source of a period above 10 ns. -/
theorem Writes.source (byp : ℕ) {i src : ℕ} {regs : Regs} (hi : i < 9) (hsrc : src < 2 ^ 2) :
    Writes i (fun k => if k = .clkSrc then some src
        else if k = .bypass ∧ byp = 1 then some 1 else none) regs
      ((FieldName.clkSrc.field i).write
        (if byp = 1 then (FieldName.bypass.field i).write regs 1 else regs) src) := by
  have hclk : ∀ r, Writes i _ r ((FieldName.clkSrc.field i).write r src) :=
    fun r => Writes.single .clkSrc hi (by decide) hsrc
  by_cases hbyp : byp = 1
  · rw [if_pos hbyp]
    refine ((Writes.single .bypass hi (by decide) (by decide)).trans (hclk _)).congr fun k => ?_
    cases k <;> simp [hbyp]
  · rw [if_neg hbyp]
    refine (hclk regs).congr fun k => ?_
    simp [hbyp]

/-- The part of the configuration that is not there for a bypassed period. -/
theorem Writes.timing {i : ℕ} {regs : Regs} (t : Timing) (hi : i < 9) (hdiv : t.divM < 2 ^ 4) :
    Writes i (fun k => match k with
      | .divM => some t.divM
      | .prescal => some (t.prescale % 2 ^ 8)
      | .actCycles => some (t.active % 2 ^ 16)
      | .periodCycles => some (t.entirePred % 2 ^ 16)
      | _ => none) regs
      ((FieldName.periodCycles.field i).write ((FieldName.actCycles.field i).write
        ((FieldName.prescal.field i).write ((FieldName.divM.field i).write regs t.divM)
          t.prescale) t.active) t.entirePred) := by
  refine (((Writes.single .divM hi (by decide) hdiv).trans (Writes.prescal hi)).trans
    (Writes.cycles hi)).congr fun k => ?_
  cases k <;> rfl

/-- **The configuration of a channel** writes the fields of `configWrite`, for a period that is an
`int`. -/
theorem writes_config {byp i junk : ℕ} {duty n : ℤ} {regs regs' : Regs} (hi : i < 9)
    (h : sunxiPwmConfigSingle byp regs i duty (toInt32 n) junk = some regs') :
    Writes i (configWrite byp duty (toInt32 n)) regs regs' := by
  have hdiv : (timing duty (toInt32 n)).divM < 2 ^ 4 := by
    rw [timing_divM]
    unfold dividerOf
    split
    · decide
    · split <;> decide
  generalize toInt32 n = period at h hdiv ⊢
  unfold sunxiPwmConfigSingle at h
  rw [getPccrRegOffset_of_lt hi] at h
  by_cases hbypassed : 0 < period ∧ period ≤ 10
  · rw [if_pos hbypassed, Option.some.injEq] at h
    subst h
    refine ((Writes.single .bypass hi (by decide) (by decide)).trans
      (Writes.single .clkSrc hi (by decide) (by decide))).congr fun k => ?_
    cases k <;> simp [configWrite, hbypassed]
    omega
  rw [if_neg hbypassed] at h
  dsimp only at h
  split at h
  · cases h
  rw [Option.some.injEq] at h
  subst h
  -- the branches for the clock source differ in what they write before the divider
  by_cases hfast : 10 < period ∧ period ≤ 334
  · rw [if_pos hfast]
    refine ((Writes.source byp hi (by decide)).trans
      (Writes.timing (timing duty period) hi hdiv)).congr fun k => ?_
    cases k with
    | bypass => simpa [configWrite] using if_congr (by omega) rfl rfl
    | clkSrc => simp [configWrite, show 0 < period by omega, hfast.2]
    | _ => simp [configWrite, hbypassed]
  rw [if_neg hfast]
  by_cases hslow : 334 < period
  · rw [if_pos hslow]
    refine ((Writes.source byp hi (by decide)).trans
      (Writes.timing (timing duty period) hi hdiv)).congr fun k => ?_
    cases k with
    | bypass => simpa [configWrite] using if_congr (by omega) rfl rfl
    | clkSrc => simp [configWrite, show 0 < period by omega, hslow]
    | _ => simp [configWrite, hbypassed]
  · rw [if_neg hslow]
    refine (Writes.timing (timing duty period) hi hdiv).congr fun k => ?_
    have hneg : ¬0 < period := by omega
    cases k <;> simp [configWrite, hneg]

/-- Whether the configuration divides by zero depends on the period only. -/
theorem config_isSome_iff {byp i junk : ℕ} {duty period : ℤ} {regs : Regs} :
    (sunxiPwmConfigSingle byp regs i duty period junk).isSome = true ↔
      0 < period ∧ period ≤ 10 ∨ intToU32 period ≠ 0 := by
  unfold sunxiPwmConfigSingle
  by_cases hbypassed : 0 < period ∧ period ≤ 10
  · rw [if_pos hbypassed]
    exact iff_of_true rfl (Or.inl hbypassed)
  · rw [if_neg hbypassed]
    by_cases hzero : intToU32 period = 0
    · simp only [hzero, if_true]
      exact iff_of_false (by decide) (fun h => h.elim hbypassed fun hne => hne rfl)
    · simp only [hzero, if_false]
      exact iff_of_true rfl (Or.inr hzero)

/-! ### The request -/

section Apply

variable {byp i j : ℕ} {regs regs' : Regs} {old r : PwmState} {env : ApplyEnv} {ret : ℤ}
  {k : FieldName}

/-- The registers after the polarity was dealt with. -/
def turned (regs : Regs) (i : ℕ) (old r : PwmState) (env : ApplyEnv) : Regs :=
  if r.polarity ≠ old.polarity then
    sunxiPwmSetPolaritySingle (if old.enabled then sunxiPwmDisableSingle regs i env else regs) i
      r.polarity
  else regs

/-- The channel runs and goes on running, so it is not enabled again. -/
def Running (old r : PwmState) : Prop := old.enabled = true ∧ r.polarity = old.polarity

instance (old r : PwmState) : Decidable (Running old r) := inferInstanceAs (Decidable (_ ∧ _))

/-- What a request does: it turns the channel off, or it configures it and turns it on unless it
is running. -/
theorem apply_cases (h : sunxiPwmApply byp regs i old r env = some (ret, regs')) :
    (r.enabled = false ∧ ret = 0 ∧ (regs' = turned regs i old r env ∨
      regs' = sunxiPwmDisableSingle (turned regs i old r env) i env)) ∨
    (r.enabled = true ∧ ∃ conf,
      sunxiPwmConfigSingle byp (turned regs i old r env) i (toInt32 r.dutyCycle)
        (toInt32 r.period) env.junk = some conf ∧
      (Running old r ∧ ret = 0 ∧ regs' = conf ∨
        ¬Running old r ∧ ret = (sunxiPwmEnable conf i env).1 ∧
          regs' = (sunxiPwmEnable conf i env).2)) := by
  unfold sunxiPwmApply at h
  dsimp only at h
  rw [show (if r.polarity ≠ old.polarity then
    sunxiPwmSetPolaritySingle (if old.enabled then sunxiPwmDisableSingle regs i env else regs) i
      r.polarity else regs) = turned regs i old r env from rfl] at h
  have hrunning : (old.enabled && !decide (r.polarity ≠ old.polarity)) = true ↔ Running old r := by
    unfold Running
    simp
  cases hen : r.enabled with
  | false =>
    rw [hen, if_pos (by decide), Option.some.injEq, Prod.mk.injEq] at h
    refine Or.inl ⟨rfl, h.1.symm, ?_⟩
    rw [← h.2]
    split
    · exact Or.inr rfl
    · exact Or.inl rfl
  | true =>
    rw [hen, if_neg (by decide), Option.map_eq_some_iff] at h
    obtain ⟨conf, hconf, hend⟩ := h
    refine Or.inr ⟨rfl, conf, hconf, ?_⟩
    by_cases hrun : Running old r
    · rw [if_pos (hrunning.mpr hrun), Prod.mk.injEq] at hend
      exact Or.inl ⟨hrun, hend.1.symm, hend.2.symm⟩
    · rw [if_neg fun h => hrun (hrunning.mp h)] at hend
      exact Or.inr ⟨hrun, (congrArg Prod.fst hend).symm, (congrArg Prod.snd hend).symm⟩

/-- A request that turns the channel on has a result if its period is not zero as an `int`. -/
theorem apply_isSome_iff (hen : r.enabled = true) :
    (sunxiPwmApply byp regs i old r env).isSome = true ↔
      0 < toInt32 r.period ∧ toInt32 r.period ≤ 10 ∨ intToU32 (toInt32 r.period) ≠ 0 := by
  unfold sunxiPwmApply
  dsimp only
  rw [hen, if_neg (by decide), Option.isSome_map]
  exact config_isSome_iff

/-- Turning the polarity touches the same fields as disabling, and the polarity bit. -/
theorem view_turned (hi : i < 9) (hj : j < 9) (hgate : k ≠ .clkGating)
    (hown : j = i → k ≠ .actSta ∧ k ≠ .per) :
    view (turned regs i old r env) j k = view regs j k := by
  unfold turned
  split
  · rw [view_setPolarity hi hj, if_neg fun h => (hown h.2).1 h.1]
    split
    · exact view_disable hi hj (fun h => (hown h.2).2 h.1) hgate
    · rfl
  · rfl

/-- It keeps the gate of another channel that is enabled. -/
theorem view_turned_gate (hi : i < 9) (hj : j < 9) (hne : j ≠ i) (hen : view regs j .per = 1) :
    view (turned regs i old r env) j .clkGating = view regs j .clkGating := by
  unfold turned
  split
  · rw [view_setPolarity hi hj, if_neg fun h => FieldName.noConfusion h.1]
    split
    · exact view_disable_gate hi hj hne hen
    · rfl
  · rfl

/-- **The fields that hold the timing**, and all fields of other channels but the gate: they follow
the configuration. -/
theorem view_apply (hi : i < 9) (hj : j < 9) (hgate : k ≠ .clkGating)
    (hown : j = i → k ≠ .actSta ∧ k ≠ .per)
    (h : sunxiPwmApply byp regs i old r env = some (ret, regs')) :
    view regs' j k = if r.enabled = true ∧ Shared k i j then
      (configWrite byp (toInt32 r.dutyCycle) (toInt32 r.period) k).getD (view regs j k)
    else view regs j k := by
  have hturned : view (turned regs i old r env) j k = view regs j k :=
    view_turned hi hj hgate hown
  rcases apply_cases h with ⟨hoff, -, rfl | rfl⟩ | ⟨hen, conf, hconf, hend⟩
  · -- the request turns the channel off, and it was off, or is off by now
    rw [if_neg fun h => Bool.false_ne_true (hoff.symm.trans h.1), hturned]
  · rw [if_neg fun h => Bool.false_ne_true (hoff.symm.trans h.1),
      view_disable hi hj (fun h => (hown h.2).2 h.1) hgate, hturned]
  · -- the request turns it on: the configuration writes, and enabling adds the switches
    have hsta : k ≠ .actSta ∨ j ≠ i := by
      by_cases hij : j = i
      · exact Or.inl (hown hij).1
      · exact Or.inr hij
    have hview := (writes_config hi hconf).view_eq j hj k hsta
    rw [hturned] at hview
    have hiff : (r.enabled = true ∧ Shared k i j) ↔ Shared k i j := and_iff_right hen
    rw [if_congr hiff rfl rfl, ← hview]
    rcases hend with ⟨-, -, rfl⟩ | ⟨-, -, rfl⟩
    · rfl
    · rw [view_enable hi hj, if_neg fun h => (hown h.2).1 h.1, if_neg]
      rintro ⟨-, rfl | rfl, hshared⟩
      · exact (hown hshared).2 rfl
      · exact hgate rfl

/-- **The gate of another channel** that is enabled is never closed. It is opened when the request
turns its channel on. -/
theorem view_apply_gate (hi : i < 9) (hj : j < 9) (hne : j ≠ i) (hper : view regs j .per = 1)
    (h : sunxiPwmApply byp regs i old r env = some (ret, regs')) :
    view regs' j .clkGating =
      if r.enabled = true ∧ ¬Running old r ∧ env.Ready ∧ Shared .clkGating i j then 1
      else view regs j .clkGating := by
  have hturned : view (turned regs i old r env) j .clkGating = view regs j .clkGating :=
    view_turned_gate hi hj hne hper
  rcases apply_cases h with ⟨hoff, -, rfl | rfl⟩ | ⟨hen, conf, hconf, hend⟩
  · rw [if_neg fun h => Bool.false_ne_true (hoff.symm.trans h.1), hturned]
  · have hper' : view (turned regs i old r env) j .per = 1 := by
      rw [view_turned hi hj (by decide) fun hij => absurd hij hne, hper]
    rw [if_neg fun h => Bool.false_ne_true (hoff.symm.trans h.1),
      view_disable_gate hi hj hne hper', hturned]
  · -- the configuration writes no gate, and enabling opens that of the pair
    have hview := (writes_config hi hconf).view_eq j hj .clkGating (Or.inr hne)
    rw [show configWrite byp (toInt32 r.dutyCycle) (toInt32 r.period) .clkGating = none from rfl,
      Option.getD_none, ite_self, hturned] at hview
    rcases hend with ⟨hrun, -, rfl⟩ | ⟨hrun, -, rfl⟩
    · rw [if_neg fun h => h.2.1 hrun, hview]
    · rw [view_enable hi hj, if_neg fun h => FieldName.noConfusion h.1, hview]
      refine if_congr ?_ rfl rfl
      exact ⟨fun h => ⟨hen, hrun, h.1, h.2.2⟩, fun h => ⟨h.2.2.1, Or.inr rfl, h.2.2.2⟩⟩

/-- **The polarity bit** after a request that turns the channel on, or tries to: it is set,
whatever polarity is asked for. -/
theorem view_apply_actSta (hi : i < 9) (hen : r.enabled = true)
    (hold : old.enabled = true → view regs i .actSta = 1)
    (h : sunxiPwmApply byp regs i old r env = some (ret, regs')) :
    view regs' i .actSta = 1 := by
  rcases apply_cases h with ⟨hoff, -⟩ | ⟨-, conf, hconf, ⟨hrun, -, rfl⟩ | ⟨-, -, rfl⟩⟩
  · exact absurd (hoff.symm.trans hen) Bool.false_ne_true
  · -- the channel goes on running, so the bit is as it was
    have hsame : turned regs i old r env = regs := if_neg (not_not.mpr hrun.2)
    rw [hsame] at hconf
    exact (writes_config hi hconf).actSta (hold hrun.1)
  · rw [view_enable hi hi, if_pos ⟨rfl, Shared.refl _ _⟩]

/-- **The enable bit and the gate** of the channel after a request that turns it on with success:
both are set, unless the channel is said to be running. -/
theorem view_apply_switch (hi : i < 9) (hen : r.enabled = true) (hk : k = .per ∨ k = .clkGating)
    (h : sunxiPwmApply byp regs i old r env = some (0, regs')) :
    view regs' i k = if Running old r then view regs i k else 1 := by
  have hsta : k ≠ .actSta := by
    rintro rfl
    exact hk.elim FieldName.noConfusion FieldName.noConfusion
  rcases apply_cases h with ⟨hoff, -⟩ | ⟨-, conf, hconf, ⟨hrun, -, rfl⟩ | ⟨hrun, hret, rfl⟩⟩
  · exact absurd (hoff.symm.trans hen) Bool.false_ne_true
  · have hsame : turned regs i old r env = regs := if_neg (not_not.mpr hrun.2)
    rw [hsame] at hconf
    have hview := (writes_config hi hconf).view_eq i hi k (Or.inl hsta)
    have hnone : configWrite byp (toInt32 r.dutyCycle) (toInt32 r.period) k = none := by
      rcases hk with rfl | rfl <;> rfl
    rw [hnone, Option.getD_none, ite_self] at hview
    rw [hview, if_pos hrun]
  · -- the request has succeeded, so enabling has
    have hready : env.Ready := (enable_ret conf i env).mp hret.symm
    rw [if_neg hrun, view_enable hi hi, if_neg fun h => hsta h.1,
      if_pos ⟨hready, hk, Shared.refl _ _⟩]

end Apply

end LonganPi.Pwm
