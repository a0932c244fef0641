import LonganPi.Lib.Run
import LonganPi.Pwm.Effect

/-!
# Runs of the controller

The PWM core calls `sunxi_pwm_apply` for one channel at a time, under a lock of its own, and keeps
the last state that was applied with success in `pwm->state`. A run is a list of such calls for the
nine channels that the driver supports. A call for another channel, or one that divides by zero, has
no result and ends the run.

A second channel of the same pair is not asked about when a channel is configured, so a call can
change the clock source and the divider of the other one (`NonInterfering` fails). The exact
condition is `Separate`: the other channel of the pair has the clock source and the divider that the
call selects, and, if it is enabled, the gate that the call opens is open.
-/

open DriverLib

namespace LonganPi.Pwm

/-- The registers, and `pwm->state` of the channels. -/
structure State where
  regs : Regs
  states : ℕ → PwmState

/-- A call of `sunxi_pwm_apply`. -/
structure Op where
  chan : ℕ
  request : PwmState
  env : ApplyEnv

/-- A channel that was not used yet. -/
def PwmState.idle : PwmState := ⟨0, 0, .normal, false⟩

/-- After reset. -/
def State.init (regs : Regs) : State := ⟨regs, fun _ => .idle⟩

/-- The controller with the `clk_bypass_output` of its channels. -/
def controller (clkBypassOutput : ℕ → ℕ) : Machine State Op ℤ where
  step s op :=
    if op.chan < 9 then
      (sunxiPwmApply (clkBypassOutput op.chan) s.regs op.chan (s.states op.chan) op.request
        op.env).map fun r =>
          (r.1, ⟨r.2, if r.1 = 0 then Function.update s.states op.chan op.request else s.states⟩)
    else none

variable {byp : ℕ → ℕ}

/-- What a step is. -/
theorem step_cases {s s' : State} {op : Op} {ret : ℤ}
    (h : (controller byp).step s op = some (ret, s')) : op.chan < 9 ∧
      sunxiPwmApply (byp op.chan) s.regs op.chan (s.states op.chan) op.request op.env =
        some (ret, s'.regs) ∧
      s'.states = if ret = 0 then Function.update s.states op.chan op.request else s.states := by
  change (if _ then _ else _) = _ at h
  split at h
  · rename_i hchan
    rw [Option.map_eq_some_iff] at h
    obtain ⟨⟨ret', regs'⟩, happly, hpair⟩ := h
    obtain ⟨rfl, rfl⟩ := Prod.mk.inj hpair
    exact ⟨hchan, happly, rfl⟩
  · cases h

/-! ### Non-interference -/

/-- The output of channel `j` is the same: its fields, and its gate if it is enabled. -/
structure Undisturbed (j : ℕ) (regs regs' : Regs) : Prop where
  fields : ∀ k, k ≠ .clkGating → view regs' j k = view regs j k
  gate : view regs j .per = 1 → view regs' j .clkGating = view regs j .clkGating

/-- A step disturbs no other channel. -/
def NonInterfering (s : State) (op : Op) (_ : ℤ) (s' : State) : Prop :=
  ∀ j < 9, j ≠ op.chan → Undisturbed j s.regs s'.regs

/-- What a request selects for the pair is what channel `j` has. -/
structure Agrees (s : State) (op : Op) (j : ℕ) : Prop where
  source : 0 < toInt32 op.request.period →
    view s.regs j .clkSrc = if toInt32 op.request.period ≤ 334 then 1 else 0
  divider : ¬(0 < toInt32 op.request.period ∧ toInt32 op.request.period ≤ 10) →
    view s.regs j .divM = dividerOf (toInt32 op.request.period)
  gate : view s.regs j .per = 1 → ¬Running (s.states op.chan) op.request → op.env.Ready →
    view s.regs j .clkGating = 1

/-- The request turns its channel off, or it agrees with the other channel of the pair. -/
def Separate (s : State) (op : Op) : Prop :=
  op.request.enabled = true → ∀ j < 9, j ≠ op.chan → j / 2 = op.chan / 2 → Agrees s op j

/-- Another channel follows the configuration of its pair. -/
theorem view_step {s s' : State} {op : Op} {ret : ℤ} {j : ℕ} {k : FieldName} (hj : j < 9)
    (hne : j ≠ op.chan) (hgate : k ≠ .clkGating)
    (h : (controller byp).step s op = some (ret, s')) : view s'.regs j k =
      if op.request.enabled = true ∧ Shared k op.chan j then
        (configWrite (byp op.chan) (toInt32 op.request.dutyCycle)
          (toInt32 op.request.period) k).getD (view s.regs j k)
      else view s.regs j k := by
  obtain ⟨hchan, happly, -⟩ := step_cases h
  exact view_apply hchan hj hgate (fun hij => absurd hij hne) happly

theorem undisturbed_of_separate {s s' : State} {op : Op} {ret : ℤ} (hsep : Separate s op)
    (h : (controller byp).step s op = some (ret, s')) : NonInterfering s op ret s' := by
  obtain ⟨hchan, happly, -⟩ := step_cases h
  intro j hj hne
  constructor
  · intro k hgate
    rw [view_step hj hne hgate h]
    by_cases hconf : op.request.enabled = true ∧ Shared k op.chan j
    · obtain ⟨hen, hshared⟩ := hconf
      rw [if_pos ⟨hen, hshared⟩]
      cases k with
      | clkSrc =>
        rw [configWrite_clkSrc]
        by_cases hpos : 0 < toInt32 op.request.period
        · rw [if_pos hpos, Option.getD_some, (hsep hen j hj hne hshared).source hpos]
        · rw [if_neg hpos, Option.getD_none]
      | divM =>
        rw [configWrite_divM]
        by_cases hshort : 0 < toInt32 op.request.period ∧ toInt32 op.request.period ≤ 10
        · rw [if_pos hshort, Option.getD_none]
        · rw [if_neg hshort, Option.getD_some, (hsep hen j hj hne hshared).divider hshort]
      | clkGating => exact absurd rfl hgate
      | actSta | bypass | prescal | actCycles | periodCycles | per => exact absurd hshared hne
    · rw [if_neg hconf]
  · intro hper
    rw [view_apply_gate hchan hj hne hper happly]
    split
    · rename_i hopen
      obtain ⟨hen, hrun, hready, hshared⟩ := hopen
      exact ((hsep hen j hj hne hshared).gate hper hrun hready).symm
    · rfl

theorem separate_of_undisturbed {s s' : State} {op : Op} {ret : ℤ}
    (hframe : NonInterfering s op ret s') (h : (controller byp).step s op = some (ret, s')) :
    Separate s op := by
  obtain ⟨hchan, happly, -⟩ := step_cases h
  intro hen j hj hne hpair
  obtain ⟨hfields, hgate⟩ := hframe j hj hne
  constructor
  · intro hpos
    have hsrc := hfields .clkSrc (by decide)
    rw [view_step hj hne (by decide) h, if_pos ⟨hen, hpair⟩, configWrite_clkSrc, if_pos hpos,
      Option.getD_some] at hsrc
    exact hsrc.symm
  · intro hlong
    have hdiv := hfields .divM (by decide)
    rw [view_step hj hne (by decide) h, if_pos ⟨hen, hpair⟩, configWrite_divM, if_neg hlong,
      Option.getD_some] at hdiv
    exact hdiv.symm
  · intro hper hrun hready
    have hopen := hgate hper
    rw [view_apply_gate hchan hj hne hper happly, if_pos ⟨hen, hrun, hready, hpair⟩] at hopen
    exact hopen.symm

/-- **Non-interference.** Along a run, no step disturbs another channel exactly when every step
agrees with the other channel of its pair. -/
theorem apply_noninterfering_iff (byp : ℕ → ℕ) (s : State) (ops : List Op) :
    (controller byp).Along NonInterfering s ops ↔
      (controller byp).Along (fun s op _ _ => Separate s op) s ops := by
  refine Machine.along_congr (fun _ _ _ _ (_ : True) _ => trivial) ?_ trivial ops
  intro s op ret s' _ hop
  exact ⟨fun hframe => separate_of_undisturbed hframe hop,
    fun hsep => undisturbed_of_separate hsep hop⟩

/-- An environment in which every device is found. -/
def ApplyEnv.found : ApplyEnv := ⟨true, true, 0, 0⟩

/-- Channel 1 runs from the 24 MHz clock, then channel 0 is given a period of 100 ns and switches
the pair to the 100 MHz clock. -/
theorem clock_source_of_the_pair_is_switched :
    ¬∀ ops, (controller fun _ => 0).Along NonInterfering (.init fun _ => 0) ops := by
  intro hall
  have hstep := (hall ([⟨1, ⟨1000, 500, .normal, true⟩, .found⟩] ++
    [⟨0, ⟨100, 50, .normal, true⟩, .found⟩])).at rfl rfl
  have hsrc := (hstep 1 (by decide) (by decide)).fields .clkSrc (by decide)
  exact absurd hsrc (by decide)

end LonganPi.Pwm
