import LonganPi.Kernel
import LonganPi.Lib.Fields

/-!
# The PWM controller and one channel of it

`pwm-sunxi-enhance.c` for a channel that is not bound to another one (`bind_pwm = 255`), where
every dispatcher calls the function for a single channel. The controller has nine channels.
Polarity, prescaler and cycles are in registers of the channel, the enable bits of all channels are
in one register, and a pair of channels shares a register with the clock source, the divider, the
gate and one bypass bit for each of the two.

The registers are a function of the offset. Every access of the driver is a read-modify-write of a
field (`SET_BITS` does not mask the value). A request goes through `int`, so its period and duty
cycle are taken modulo `2 ^ 32`; a period that is 0 after that makes the driver divide by zero, and
the call has no result.
-/

open DriverLib

namespace LonganPi.Pwm

/-! ### Registers -/

def PWM_PCCR01 : ℕ := 0x0020
def PWM_PCCR23 : ℕ := 0x0024
def PWM_PCCR45 : ℕ := 0x0028
def PWM_PCCR67 : ℕ := 0x002c
def PWM_PER : ℕ := 0x0040
def PWM_PCR_BASE : ℕ := 0x0060 + 0x0000
def PWM_PPR_BASE : ℕ := 0x0060 + 0x0004
def PWM_PCCR8 : ℕ := 0x0300

def PWM_ACT_STA_SHIFT : ℕ := 0x8
def PWM_CLK_SRC_SHIFT : ℕ := 0x7
def PWM_CLK_SRC_WIDTH : ℕ := 0x2
def PWM_DIV_M_SHIFT : ℕ := 0x0
def PWM_DIV_M_WIDTH : ℕ := 0x4
def PWM_PRESCAL_SHIFT : ℕ := 0x0
def PWM_PRESCAL_WIDTH : ℕ := 0x8
def PWM_ACT_CYCLES_SHIFT : ℕ := 0x0
def PWM_ACT_CYCLES_WIDTH : ℕ := 0x10
def PWM_PERIOD_CYCLES_SHIFT : ℕ := 0x10
def PWM_PERIOD_CYCLES_WIDTH : ℕ := 0x10
def PWM_CLK_GATING_SHIFT : ℕ := 0x4

/-- The registers of the controller, by offset. -/
abbrev Regs := ℕ → BitVec 32

/-- `get_pccr_reg_offset`; a channel that is not supported leaves `regOffset` as it is. -/
def getPccrRegOffset (sel regOffset : ℕ) : ℕ :=
  match sel with
  | 0 | 1 => PWM_PCCR01
  | 2 | 3 => PWM_PCCR23
  | 4 | 5 => PWM_PCCR45
  | 6 | 7 => PWM_PCCR67
  | 8 => PWM_PCCR8
  | _ => regOffset

section Fields

variable (sel : ℕ)

/-- The polarity bit, `PWM_ACT_STA`: 1 stands for the normal polarity. -/
def actSta : Field := ⟨PWM_PCR_BASE + sel * 0x20, PWM_ACT_STA_SHIFT, 1⟩

def prescal : Field := ⟨PWM_PCR_BASE + 0x20 * sel, PWM_PRESCAL_SHIFT, PWM_PRESCAL_WIDTH⟩

def actCycles : Field := ⟨PWM_PPR_BASE + 0x20 * sel, PWM_ACT_CYCLES_SHIFT, PWM_ACT_CYCLES_WIDTH⟩

def periodCycles : Field :=
  ⟨PWM_PPR_BASE + 0x20 * sel, PWM_PERIOD_CYCLES_SHIFT, PWM_PERIOD_CYCLES_WIDTH⟩

/-- The enable bit. -/
def per : Field := ⟨PWM_PER, sel, 1⟩

variable (regOffset : ℕ)

/-- The bypass bit in the register of the pair at `regOffset`. -/
def bypass : Field := ⟨regOffset, if sel % 2 = 0 then 0x5 else 0x6, 1⟩

def clkSrc : Field := ⟨regOffset, PWM_CLK_SRC_SHIFT, PWM_CLK_SRC_WIDTH⟩

def divM : Field := ⟨regOffset, PWM_DIV_M_SHIFT, PWM_DIV_M_WIDTH⟩

def clkGating : Field := ⟨regOffset, PWM_CLK_GATING_SHIFT, 1⟩

end Fields

/-! ### Requests -/

/-- `enum pwm_polarity` -/
inductive PwmPolarity
  | normal
  | inversed
  deriving DecidableEq, Repr

/-- `struct pwm_state`; period and duty cycle are `u64`. -/
structure PwmState where
  period : ℕ
  dutyCycle : ℕ
  polarity : PwmPolarity
  enabled : Bool
  deriving DecidableEq, Repr

/-- What a call finds around it. -/
structure ApplyEnv where
  -- the device of the channel is found when it is disabled
  disableNode : Bool
  -- and when it is enabled
  enableNode : Bool
  -- the result of `sunxi_pwm_pin_set_state`
  pinState : ℤ
  -- what is in an uninitialised `reg_offset`
  junk : ℕ

/-- Conversion of an `int` to `u64`. -/
def intToU64 (n : ℤ) : ℕ := (n % 2 ^ 64).toNat

/-! ### The divider and the cycles -/

/-- `pre_scal`: register value and divisor. -/
def preScal : List (ℕ × ℕ) :=
  [(0, 1), (1, 2), (2, 4), (3, 8), (4, 16), (5, 32), (6, 64), (7, 128), (8, 256)]

def PRESCALE_MAX : ℕ := 256

/-- The variables of the search: `entire_cycles`, `div_m` and `prescale`. -/
structure Scale where
  entire : ℕ
  divM : ℕ
  prescale : ℕ
  deriving DecidableEq, Repr

/-- The inner loop with `n` turns left: it ends with the first prescaler that fits. -/
def prescaleLoop (c : ℕ) (p : ℕ × ℕ) : ℕ → Scale → Scale
  | 0, v => v
  | n + 1, v =>
    let entire := c / p.2 / (v.prescale + 1)
    if entire ≤ 65536 then { v with entire := entire, divM := p.1 }
    else prescaleLoop c p n { v with entire := entire, prescale := v.prescale + 1 }

/-- The search for a divider and a prescaler. -/
def scaleSearch (c : ℕ) : Scale :=
  preScal.foldl (fun v p =>
    if v.entire ≤ 65536 then v
    else prescaleLoop c p (PRESCALE_MAX + 1) { v with prescale := 0 }) ⟨c, 0, 0⟩

/-- What `sunxi_pwm_config_single` writes for an `int` period that is not bypassed. -/
structure Timing where
  divM : ℕ
  prescale : ℕ
  active : ℕ
  -- `entire_cycles - 1`
  entirePred : ℕ
  deriving DecidableEq, Repr

/-- The frequency that the period selects; 0 when no branch does. -/
def clkFreq (periodNs : ℤ) : ℕ :=
  if 10 < periodNs ∧ periodNs ≤ 334 then 100000000
  else if 334 < periodNs then 24000000
  else 0

/-- The computation of `sunxi_pwm_config_single` between the clock source and the divider. -/
def timing (dutyNs periodNs : ℤ) : Timing :=
  let c := clkFreq periodNs * intToU64 periodNs % 2 ^ 64 / 1000000000
  let v := scaleSearch c
  let active := v.entire * intToU64 dutyNs % 2 ^ 64 / intToU32 periodNs
  let entire := if v.entire = 0 then 1 else v.entire
  ⟨v.divM, v.prescale, active, entire - 1⟩

/-! ### The calls -/

section Calls

/-- `sunxi_pwm_set_polarity_single` -/
def sunxiPwmSetPolaritySingle (regs : Regs) (sel : ℕ) (polarity : PwmPolarity) : Regs :=
  if polarity = .normal then (actSta sel).write regs 1 else (actSta sel).write regs 0

/-- `sunxi_pwm_config_single`; no result when it divides by zero. -/
def sunxiPwmConfigSingle (clkBypassOutput : ℕ) (regs : Regs) (sel : ℕ) (dutyNs periodNs : ℤ)
    (junk : ℕ) : Option Regs :=
  let regOffset := getPccrRegOffset sel junk
  if 0 < periodNs ∧ periodNs ≤ 10 then
    let regs := (bypass sel regOffset).write regs 1
    some ((clkSrc regOffset).write regs 1)
  else
    let regs :=
      if 10 < periodNs ∧ periodNs ≤ 334 then
        let regs := if clkBypassOutput = 1 then (bypass sel regOffset).write regs 1 else regs
        (clkSrc regOffset).write regs 1
      else if 334 < periodNs then
        let regs := if clkBypassOutput = 1 then (bypass sel regOffset).write regs 1 else regs
        (clkSrc regOffset).write regs 0
      else regs
    if intToU32 periodNs = 0 then none
    else
      let t := timing dutyNs periodNs
      let regs := (divM regOffset).write regs t.divM
      let regs := (prescal sel).write regs t.prescale
      let regs := (actCycles sel).write regs t.active
      some ((periodCycles sel).write regs t.entirePred)

/-- `sunxi_pwm_enable_single` -/
def sunxiPwmEnableSingle (regs : Regs) (sel : ℕ) (env : ApplyEnv) : ℤ × Regs :=
  if !env.enableNode then (-ENODEV, regs)
  else if env.pinState ≠ 0 then (env.pinState, regs)
  else
    let regs := (clkGating (getPccrRegOffset sel env.junk)).write regs 1
    (0, (per sel).write regs 1)

/-- `sunxi_pwm_enable` -/
def sunxiPwmEnable (regs : Regs) (sel : ℕ) (env : ApplyEnv) : ℤ × Regs :=
  let r := sunxiPwmEnableSingle regs sel env
  (r.1, sunxiPwmSetPolaritySingle r.2 sel .normal)

/-- `sunxi_pwm_disable_single` -/
def sunxiPwmDisableSingle (regs : Regs) (sel : ℕ) (env : ApplyEnv) : Regs :=
  if !env.disableNode then regs
  else
    let regs := (per sel).write regs 0
    if getField (sel - sel % 2) 2 (regs PWM_PER) = 0 then
      (clkGating (getPccrRegOffset sel env.junk)).write regs 0
    else regs

/-- `sunxi_pwm_apply` for channel `sel` whose `pwm->state` is `pwmState`. -/
def sunxiPwmApply (clkBypassOutput : ℕ) (regs : Regs) (sel : ℕ) (pwmState state : PwmState)
    (env : ApplyEnv) : Option (ℤ × Regs) :=
  let turn := state.polarity ≠ pwmState.polarity
  let regs :=
    if turn then
      let regs := if pwmState.enabled then sunxiPwmDisableSingle regs sel env else regs
      sunxiPwmSetPolaritySingle regs sel state.polarity
    else regs
  -- a change of the polarity has disabled the channel
  let enabled := pwmState.enabled && !decide turn
  if !state.enabled then
    some (0, if enabled then sunxiPwmDisableSingle regs sel env else regs)
  else
    (sunxiPwmConfigSingle clkBypassOutput regs sel (toInt32 state.dutyCycle)
      (toInt32 state.period) env.junk).map fun regs =>
        if enabled then (0, regs) else sunxiPwmEnable regs sel env

end Calls

end LonganPi.Pwm
