import LonganPi.Pwm.Chip

/-!
# The configuration of a channel

The nine fields that make up the configuration of a channel, by name. The clock source, the divider
and the gate belong to a pair of channels, so the two channels of a pair have one such field between
them (`Shared`); all other fields belong to one channel. A write that fits changes that field and no
other (`view_write`). The three fields whose values can be too large are in registers of their
channel, and do not reach other channels whatever is written (`view_write_of_reg`).
-/

open DriverLib

namespace LonganPi.Pwm

/-- The fields of a channel. -/
inductive FieldName
  | actSta
  | bypass
  | clkSrc
  | divM
  | prescal
  | actCycles
  | periodCycles
  | clkGating
  | per
  deriving DecidableEq, Repr

namespace FieldName

/-- The field of channel `i`. -/
def field (k : FieldName) (i : ℕ) : Field :=
  match k with
  | actSta => Pwm.actSta i
  | bypass => Pwm.bypass i (getPccrRegOffset i 0)
  | clkSrc => Pwm.clkSrc (getPccrRegOffset i 0)
  | divM => Pwm.divM (getPccrRegOffset i 0)
  | prescal => Pwm.prescal i
  | actCycles => Pwm.actCycles i
  | periodCycles => Pwm.periodCycles i
  | clkGating => Pwm.clkGating (getPccrRegOffset i 0)
  | per => Pwm.per i

/-- How many bits it has. -/
def width : FieldName → ℕ
  | actSta | bypass | clkGating | per => 1
  | clkSrc => PWM_CLK_SRC_WIDTH
  | divM => PWM_DIV_M_WIDTH
  | prescal => PWM_PRESCAL_WIDTH
  | actCycles => PWM_ACT_CYCLES_WIDTH
  | periodCycles => PWM_PERIOD_CYCLES_WIDTH

theorem field_width (k : FieldName) (i : ℕ) : (k.field i).width = k.width := by
  cases k <;> rfl

end FieldName

/-- Whether channels `i` and `j` have the field in common: the channels of a pair have one clock
source, one divider and one gate. -/
def Shared (k : FieldName) (i j : ℕ) : Prop :=
  match k with
  | .clkSrc | .divM | .clkGating => j / 2 = i / 2
  | _ => j = i

instance (k : FieldName) (i j : ℕ) : Decidable (Shared k i j) :=
  match k with
  | .clkSrc | .divM | .clkGating => inferInstanceAs (Decidable (j / 2 = i / 2))
  | .actSta | .bypass | .prescal | .actCycles | .periodCycles | .per =>
    inferInstanceAs (Decidable (j = i))

theorem Shared.refl (k : FieldName) (i : ℕ) : Shared k i i := by
  cases k <;> exact rfl

/-- The value of a field of channel `i`. -/
def view (regs : Regs) (i : ℕ) (k : FieldName) : ℕ := (k.field i).read regs

/-- The offset of a supported channel is set in any case. -/
theorem getPccrRegOffset_of_lt {i : ℕ} (hi : i < 9) (junk : ℕ) :
    getPccrRegOffset i junk = getPccrRegOffset i 0 := by
  match i with
  | 0 | 1 | 2 | 3 | 4 | 5 | 6 | 7 | 8 => rfl
  | n + 9 => omega

/-- The registers of the pairs. -/
theorem getPccrRegOffset_eq {i : ℕ} (hi : i < 9) :
    getPccrRegOffset i 0 = if i < 8 then 0x20 + 4 * (i / 2) else 0x300 := by
  match i with
  | 0 | 1 | 2 | 3 | 4 | 5 | 6 | 7 | 8 => rfl
  | n + 9 => omega

theorem field_fits (k : FieldName) {i : ℕ} (hi : i < 9) :
    (k.field i).shift + (k.field i).width ≤ 32 := by
  cases k with
  | bypass =>
    show (if i % 2 = 0 then 0x5 else 0x6) + 1 ≤ 32
    split <;> decide
  | per =>
    show i + 1 ≤ 32
    omega
  | _ => exact Nat.le_of_ble_eq_true rfl

theorem field_width_le (k : FieldName) {i : ℕ} (hi : i < 9) : (k.field i).width ≤ 32 :=
  (Nat.le_add_left _ _).trans (field_fits k hi)

/-- The registers that hold the fields. -/
inductive RegName
  | pccr
  | per
  | pcr
  | ppr
  deriving DecidableEq, Repr

/-- Where the register for channel `i` is. -/
def RegName.offset (r : RegName) (i : ℕ) : ℕ :=
  match r with
  | pccr => getPccrRegOffset i 0
  | per => PWM_PER
  | pcr => PWM_PCR_BASE + 0x20 * i
  | ppr => PWM_PPR_BASE + 0x20 * i

/-- Whose register it is: the pair's, the controller's or the channel's. -/
def RegName.unit (r : RegName) (i : ℕ) : ℕ :=
  match r with
  | pccr => i / 2
  | per => 0
  | pcr | ppr => i

def FieldName.reg : FieldName → RegName
  | .actSta | .prescal => .pcr
  | .actCycles | .periodCycles => .ppr
  | .per => .per
  | .bypass | .clkSrc | .divM | .clkGating => .pccr

theorem field_offset (k : FieldName) (i : ℕ) : (k.field i).offset = k.reg.offset i := by
  cases k with
  | actSta => exact congrArg (PWM_PCR_BASE + ·) (Nat.mul_comm i 0x20)
  | _ => rfl

/-- Different registers are at different offsets. -/
theorem RegName.offset_inj {r r' : RegName} {i j : ℕ} (hi : i < 9) (hj : j < 9)
    (h : r.offset i = r'.offset j) : r = r' ∧ r.unit i = r'.unit j := by
  have hpi : getPccrRegOffset i 0 = 0x20 + 4 * (i / 2) ∧ i < 8 ∨
      getPccrRegOffset i 0 = 0x300 ∧ i = 8 := by
    rw [getPccrRegOffset_eq hi]
    split <;> omega
  have hpj : getPccrRegOffset j 0 = 0x20 + 4 * (j / 2) ∧ j < 8 ∨
      getPccrRegOffset j 0 = 0x300 ∧ j = 8 := by
    rw [getPccrRegOffset_eq hj]
    split <;> omega
  cases r <;> cases r' <;>
    simp only [offset, unit, PWM_PER, PWM_PCR_BASE, PWM_PPR_BASE, reduceCtorEq, false_and,
      true_and] at h ⊢ <;> omega

/-- The bypass bits of a pair are next to each other. -/
theorem bypass_shift (i off : ℕ) : (bypass i off).shift = 5 + i % 2 := by
  show (if i % 2 = 0 then 0x5 else 0x6) = 5 + i % 2
  split <;> omega

/-- Different fields, and fields that the channels do not share, do not overlap. -/
theorem field_apart {k k' : FieldName} {i j : ℕ} (hi : i < 9) (hj : j < 9)
    (hne : ¬(k' = k ∧ Shared k i j)) : (k.field i).offset ≠ (k'.field j).offset ∨
      (k'.field j).shift + (k'.field j).width ≤ (k.field i).shift ∨
      (k.field i).shift + (k.field i).width ≤ (k'.field j).shift := by
  by_cases hoff : (k.field i).offset = (k'.field j).offset
  · right
    rw [field_offset, field_offset] at hoff
    obtain ⟨hreg, hunit⟩ := RegName.offset_inj hi hj hoff
    cases k <;> cases k' <;> first
      | exact RegName.noConfusion hreg
      | simp only [Shared, FieldName.reg, RegName.unit, FieldName.field, bypass_shift, true_and,
          reduceCtorEq, false_and, not_false_eq_true] at hne hunit ⊢
        simp only [actSta, bypass, clkSrc, divM, prescal, actCycles, periodCycles, clkGating, per,
          PWM_ACT_STA_SHIFT, PWM_CLK_SRC_SHIFT, PWM_CLK_SRC_WIDTH, PWM_DIV_M_SHIFT,
          PWM_DIV_M_WIDTH, PWM_PRESCAL_SHIFT, PWM_PRESCAL_WIDTH, PWM_ACT_CYCLES_SHIFT,
          PWM_ACT_CYCLES_WIDTH, PWM_PERIOD_CYCLES_SHIFT, PWM_PERIOD_CYCLES_WIDTH,
          PWM_CLK_GATING_SHIFT]
        omega
  · exact Or.inl hoff

/-! ### Reads after writes -/

section Writes

variable {regs : Regs} {k k' : FieldName} {i j v : ℕ}

/-- A shared field has one value. -/
theorem view_of_shared (regs : Regs) (hi : i < 9) (hj : j < 9) (h : Shared k i j) :
    view regs j k = view regs i k := by
  have hpair : j / 2 = i / 2 → getPccrRegOffset j 0 = getPccrRegOffset i 0 := by
    intro hhalf
    rw [getPccrRegOffset_eq hi, getPccrRegOffset_eq hj]
    split <;> split <;> omega
  cases k with
  | clkSrc | divM | clkGating =>
    unfold view FieldName.field
    rw [hpair h]
  | actSta | bypass | prescal | actCycles | periodCycles | per =>
    have hij : j = i := h
    rw [hij]

/-- **A write that fits** changes the field, for all channels that share it, and nothing else. -/
theorem view_write (hi : i < 9) (hj : j < 9) (hv : v < 2 ^ k.width) :
    view ((k.field i).write regs v) j k' =
      if k' = k ∧ Shared k i j then v else view regs j k' := by
  rw [← k.field_width i] at hv
  by_cases hsame : k' = k ∧ Shared k i j
  · obtain ⟨rfl, hshared⟩ := hsame
    rw [if_pos ⟨rfl, hshared⟩, view_of_shared _ hi hj hshared]
    calc view ((k'.field i).write regs v) i k'
        = v % 2 ^ (k'.field i).width := Field.read_write_self (field_fits k' hi)
      _ = v := Nat.mod_eq_of_lt hv
  · rw [if_neg hsame]
    exact Field.read_write_of_apart (field_width_le k hi) (field_fits k' hj)
      (field_apart hi hj hsame) hv

/-- The field that is written holds what fits. -/
theorem view_write_self (hi : i < 9) :
    view ((k.field i).write regs v) i k = v % 2 ^ k.width := by
  rw [← k.field_width i]
  exact Field.read_write_self (field_fits k hi)

/-- A value that is too large reaches no other register. -/
theorem view_write_of_reg (hi : i < 9) (hj : j < 9)
    (h : k'.reg ≠ k.reg ∨ k'.reg.unit j ≠ k.reg.unit i) :
    view ((k.field i).write regs v) j k' = view regs j k' := by
  refine Field.read_write_of_below (field_width_le k hi) (field_fits k' hj) (Or.inl ?_)
  intro hoff
  rw [field_offset, field_offset] at hoff
  obtain ⟨hreg, hunit⟩ := RegName.offset_inj hi hj hoff
  exact h.elim (fun hne => hne hreg.symm) (fun hne => hne hunit.symm)

/-- The polarity bit stays set whatever is written to another field. -/
theorem view_write_actSta (hi : i < 9) (hk : k ≠ .actSta) (hone : view regs i .actSta = 1) :
    view ((k.field i).write regs v) i .actSta = 1 :=
  Field.read_write_of_full (field_width_le k hi) (field_fits .actSta hi)
    (field_apart hi hi fun h => hk h.1.symm) hone

end Writes

end LonganPi.Pwm
