import LonganPi.Pwm.History
import LonganPi.Pwm.Waveform
import Mathlib.Tactic.Linarith
import Mathlib.Algebra.Order.Group.Unbundled.Abs

/-!
# A request of 64 bits

The PWM core accepts any period and duty cycle of 64 bits, and `sunxi_pwm_apply` passes them through
two `int` parameters. What the channel does afterwards is compared with the request itself. A period
that `int` cannot hold is off by at least two seconds, and no divider counts that far
(`Waveform.Within.period_lt`), so a truncated period never matches. A period that is a multiple of
`2 ^ 32` divides by zero.

A request that fails should leave the timing alone, but the channel is configured before it is
turned on, so a failure leaves the new timing behind.
-/

open DriverLib

namespace LonganPi.Pwm

/-! ### Resolution -/

/-- The waveform matches the request within one count. -/
structure Waveform.Within (w : Waveform) (duty period : ℚ) : Prop where
  period_near : |period / 10 ^ 9 - w.entire * w.div / w.clk| < (w.div / w.clk : ℚ)
  duty_near : |duty / period - w.active / w.entire| < (1 / w.entire : ℚ)

/-- The longest period that a waveform matches. -/
theorem Waveform.Within.period_lt {w : Waveform} {duty : ℚ} {period : ℕ}
    (h : w.Within duty period) (hclk : 24000000 ≤ w.clk) :
    period * 24000000 < (w.entire + 1) * w.div * 1000000000 := by
  have hpos : (0 : ℚ) < w.clk := Nat.cast_pos.mpr (by omega)
  have hlt : (period : ℚ) / 10 ^ 9 < (w.entire + 1) * w.div / w.clk := by
    have habove := (abs_lt.mp h.period_near).2
    rw [sub_lt_iff_lt_add, ← add_div] at habove
    calc (period : ℚ) / 10 ^ 9 < (w.div + w.entire * w.div) / w.clk := habove
      _ = (w.entire + 1) * w.div / w.clk := by ring
  rw [div_lt_div_iff₀ (by norm_num) hpos] at hlt
  have hnat : period * w.clk < (w.entire + 1) * w.div * 1000000000 := by exact_mod_cast hlt
  exact (Nat.mul_le_mul_left period hclk).trans_lt hnat

section Request

variable (byp i : ℕ) (regs : Regs) (old r : PwmState) (env : ApplyEnv)

/-- The period fits in an `int`, and the values that are computed fit in their fields. -/
def InRange : Prop :=
  r.period < 2 ^ 31 ∧ (10 < r.period → PrescalerFits r.period ∧
    ¬((r.dutyCycle : ℤ) = r.period ∧ FullScale r.period))

end Request

section Apply

variable {byp i : ℕ} {regs regs' : Regs} {old r : PwmState} {env : ApplyEnv} {ret : ℤ}

end Apply

/-! ### The result -/

end LonganPi.Pwm
