import LonganPi.Pwm.Chip

/-!
# Two channels bound to each other

`pwm-sunxi-enhance.c` for a channel that is bound to another one (`bind_pwm` is not 255). The two
channels put out the same signal with opposite polarities, and a dead zone between them keeps both
from being active at a time. The dead zone has a register of its own, which four pairs of channels
have; the interval is counted with the clock of the channels.

The dispatchers choose between these functions and those for a single channel, and `sunxi_pwm_apply`
is the same for both (`applyVia`). The dispatcher for the configuration does not pass on the error
that the configuration returns.
-/

open DriverLib

namespace LonganPi.Pwm

/-! ### Registers -/

def PWM_PDZCR01 : ℕ := 0x0030
def PWM_PDZCR23 : ℕ := 0x0034
def PWM_PDZCR45 : ℕ := 0x0038
def PWM_PDZCR67 : ℕ := 0x003c

def PWM_DZ_EN_SHIFT : ℕ := 0x0
def PWM_DZ_EN_WIDTH : ℕ := 0x1
def PWM_PDZINTV_SHIFT : ℕ := 0x8
def PWM_PDZINTV_WIDTH : ℕ := 0x8
def PWM_BYPASS_WIDTH : ℕ := 0x1

/-- `get_pdzcr_reg_offset`; a channel that is not supported leaves `regOffset` as it is. -/
def getPdzcrRegOffset (sel regOffset : ℕ) : ℕ :=
  match sel with
  | 0 | 1 => PWM_PDZCR01
  | 2 | 3 => PWM_PDZCR23
  | 4 | 5 => PWM_PDZCR45
  | 6 | 7 => PWM_PDZCR67
  | _ => regOffset

section Fields

variable (regOffset : ℕ)

/-- The bit that turns the dead zone on. -/
def dzEn : Field := ⟨regOffset, PWM_DZ_EN_SHIFT, PWM_DZ_EN_WIDTH⟩

def pdzIntv : Field := ⟨regOffset, PWM_PDZINTV_SHIFT, PWM_PDZINTV_WIDTH⟩

/-- The field that is written for the divider: its width is `PWM_DIV_M_SHIFT`, which is 0. -/
def dualDivM : Field := ⟨regOffset, PWM_DIV_M_SHIFT, PWM_DIV_M_SHIFT⟩

/-- The bypass bit of the first (`n = 0`) or the second channel of the two. -/
def dualBypass (n : ℕ) : Field := ⟨regOffset, if n % 2 = 0 then 0x5 else 0x6, PWM_BYPASS_WIDTH⟩

end Fields

/-- What a call for two channels finds around it. -/
structure DualEnv where
  -- the devices of both channels are found when they are disabled
  disableNodes : Bool
  -- and when they are enabled
  enableNodes : Bool
  -- the results of `sunxi_pwm_pin_set_state` for the channel and the bound one
  pinState : ℤ
  bindPinState : ℤ
  -- what is in an uninitialised offset
  junk : ℕ

/-! ### The search -/

/-- The variables of the search, with `clk_temp`, the counts of the dead zone. -/
structure DualScale where
  entire : ℕ
  zone : ℕ
  divM : ℕ
  prescale : ℕ
  deriving DecidableEq, Repr

/-- The inner loop with `n` turns left: it ends with the first prescaler that fits. -/
def dualLoop (c clk deadTime : ℕ) (p : ℕ × ℕ) : ℕ → DualScale → DualScale
  | 0, v => v
  | n + 1, v =>
    let entire := c / p.2 / (v.prescale + 1)
    let zone := clk / (p.2 * (v.prescale + 1)) * deadTime % 2 ^ 64 / 1000000000
    if entire ≤ 65536 ∧ zone ≤ 256 then { v with entire := entire, zone := zone, divM := p.1 }
    else dualLoop c clk deadTime p n
      { v with entire := entire, zone := zone, prescale := v.prescale + 1 }

/-- The outer loop; a divider without a prescaler that fits is an error. -/
def dualSearch (c clk deadTime : ℕ) : List (ℕ × ℕ) → DualScale → Option DualScale
  | [], v => some v
  | p :: _, v =>
    let v := dualLoop c clk deadTime p (PRESCALE_MAX + 1) { v with prescale := 0 }
    if v.entire ≤ 65536 ∧ v.zone ≤ 256 then some v else none

/-! ### The calls -/

section Calls

variable (regs : Regs) (sel bind : ℕ)

/-- `sunxi_pwm_set_polarity_dual` -/
def sunxiPwmSetPolarityDual (polarity : PwmPolarity) : Regs :=
  if polarity = .normal then
    (actSta bind).write ((actSta sel).write regs 1) 0
  else (actSta bind).write ((actSta sel).write regs 0) 1

/-- What a found scale makes `sunxi_pwm_config_dual` write, for the registers of the pairs at
`regOffset₀` and `regOffset₁` and the dead zone at `dzOffset`. -/
def writeDual (regOffset₀ regOffset₁ dzOffset : ℕ) (divM prescale active entirePred zone : ℕ) :
    Regs :=
  let regs := (dualDivM regOffset₀).write regs divM
  let regs := (dualDivM regOffset₁).write regs divM
  let regs := (prescal sel).write regs prescale
  let regs := (prescal bind).write regs prescale
  let regs := (actCycles sel).write regs active
  let regs := (actCycles bind).write regs active
  let regs := (periodCycles sel).write regs entirePred
  let regs := (periodCycles bind).write regs entirePred
  (pdzIntv dzOffset).write regs zone

/-- `sunxi_pwm_config_dual`; no result when it divides by zero. -/
def sunxiPwmConfigDual (deadTime : ℕ) (dutyNs periodNs : ℤ) (junk : ℕ) : Option (ℤ × Regs) :=
  let dzOffset := getPdzcrRegOffset sel junk
  let regs := (dzEn dzOffset).write regs 1
  if intToU32 dutyNs < deadTime ∨ (dzEn dzOffset).read regs = 0 then some (-EINVAL, regs)
  else
    let regOffset₀ := getPccrRegOffset sel junk
    let regOffset₁ := getPccrRegOffset bind junk
    if 0 < periodNs ∧ periodNs ≤ 10 then
      let regs := (dualBypass regOffset₀ 0).write regs 1
      let regs := (clkSrc regOffset₀).write regs 1
      let regs := (dualBypass regOffset₁ 1).write regs 1
      some (0, (clkSrc regOffset₁).write regs 1)
    else
      let clk := clkFreq periodNs
      let srcClkSel := if 10 < periodNs ∧ periodNs ≤ 334 then 1 else 0
      let regs := (clkSrc regOffset₀).write regs srcClkSel
      let regs := (clkSrc regOffset₁).write regs srcClkSel
      let c := clk * intToU64 periodNs % 2 ^ 64 / 1000000000
      match dualSearch c clk deadTime preScal ⟨c, 0, 0, 0⟩ with
      | none => some (-EINVAL, regs)
      | some v =>
        if intToU32 periodNs = 0 then none
        else
          let active := v.entire * intToU64 dutyNs % 2 ^ 64 / intToU32 periodNs
          let entire := if v.entire = 0 then 1 else v.entire
          some (0, writeDual regs sel bind regOffset₀ regOffset₁ dzOffset v.divM v.prescale active
            (entire - 1) v.zone)

variable (env : DualEnv)

/-- `sunxi_pwm_enable_dual` -/
def sunxiPwmEnableDual : ℤ × Regs :=
  if !env.enableNodes then (-ENODEV, regs)
  else if env.pinState ≠ 0 then (env.pinState, regs)
  else if env.bindPinState ≠ 0 then (env.bindPinState, regs)
  else
    let regs := (clkGating (getPccrRegOffset sel env.junk)).write regs 1
    let regs := (clkGating (getPccrRegOffset bind env.junk)).write regs 1
    let regs := (per sel).write regs 1
    (0, (per bind).write regs 1)

/-- `sunxi_pwm_disable_dual` -/
def sunxiPwmDisableDual : Regs :=
  if !env.disableNodes then regs
  else
    let regs := (per sel).write regs 0
    let regs := (per bind).write regs 0
    let regs := (clkGating (getPccrRegOffset sel env.junk)).write regs 0
    let regs := (clkGating (getPccrRegOffset bind env.junk)).write regs 0
    (dzEn (getPdzcrRegOffset sel env.junk)).write regs 0

end Calls

/-! ### The dispatchers -/

/-- What the dispatchers call for a channel. -/
structure Dispatch where
  setPolarity : Regs → PwmPolarity → Regs
  config : Regs → ℤ → ℤ → Option Regs
  enable : Regs → ℤ × Regs
  disable : Regs → Regs

/-- `sunxi_pwm_apply` through the dispatchers. -/
def applyVia (d : Dispatch) (regs : Regs) (pwmState state : PwmState) : Option (ℤ × Regs) :=
  let turn := state.polarity ≠ pwmState.polarity
  let regs :=
    if turn then
      let regs := if pwmState.enabled then d.disable regs else regs
      d.setPolarity regs state.polarity
    else regs
  let enabled := pwmState.enabled && !decide turn
  if !state.enabled then some (0, if enabled then d.disable regs else regs)
  else
    (d.config regs (toInt32 state.dutyCycle) (toInt32 state.period)).map fun regs =>
      if enabled then (0, regs)
      else
        let r := d.enable regs
        (r.1, d.setPolarity r.2 .normal)

/-- For channel `sel` bound to `bind`, with the dead time of `sel`. The result of the configuration
is dropped. -/
def dual (deadTime sel bind : ℕ) (env : DualEnv) : Dispatch where
  setPolarity regs := sunxiPwmSetPolarityDual regs sel bind
  config regs dutyNs periodNs :=
    (sunxiPwmConfigDual regs sel bind deadTime dutyNs periodNs env.junk).map Prod.snd
  enable regs := sunxiPwmEnableDual regs sel bind env
  disable regs := sunxiPwmDisableDual regs sel bind env

end LonganPi.Pwm
