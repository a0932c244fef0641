import LonganPi.Kernel
import LonganPi.Lib.Run

/-!
# The engine reference count and the clocks

Three records say whether the engine runs: `ref_count` counts the requests, the static
`clk_status` says whether the driver has switched the clocks on, and the clock framework counts
the enables of each clock. `IOCTL_ENGINE_REQ` and `IOCTL_ENGINE_REL` switch the clocks on the edges
of `ref_count`, `sunxi_cedar_suspend` and `sunxi_cedar_resume` switch them around a sleep without
touching it.

The clock framework, runtime PM and the reset line are counters and a flag of the state. Their
answers are arguments: `ClkResults` says which `clk_prepare_enable` succeeds, `interrupted` whether
`down_interruptible` was. The spinlock and the semaphore make each call atomic, which it is here
anyway. The build is one without `USE_CEDAR_ENGINE` (the source undefines it) and without the
second bus clock of one chip.
-/

open DriverLib

namespace LonganPi.Ve

/-- What the engine calls read and write. -/
structure EngineState where
  -- `ref_count`, an `int`
  refCount : ℤ
  -- `last_min_freq`
  lastMinFreq : ℤ
  -- the static `clk_status`
  clkStatus : ℤ
  -- `bInitEndFlag`
  bInitEndFlag : ℤ
  -- enable count of `bus_clk`
  busClk : ℕ
  -- enable count of `mbus_clk`
  mbusClk : ℕ
  -- enable count of `ve_clk`
  veClk : ℕ
  -- usage count of runtime PM
  pmUsage : ℕ
  -- the reset line is asserted
  resetAsserted : Bool
  deriving DecidableEq, Repr

/-- The answers of the three calls of `clk_prepare_enable`; `true` is success. -/
structure ClkResults where
  -- for `bus_clk`
  bus : Bool
  -- for `mbus_clk`
  mbus : Bool
  -- for `ve_clk`
  ve : Bool

/-- Every clock can be enabled. -/
def ClkResults.ok : ClkResults := ⟨true, true, true⟩

/-- `enable_cedar_hw_clk`. A failure leaves what was done before it. -/
def enableCedarHwClk (s : EngineState) (clk : ClkResults) : ℤ × EngineState :=
  if s.bInitEndFlag ≠ 1 then (-EINVAL, s)
  else if s.clkStatus = 1 then (0, s)
  else
    let s := { s with clkStatus := 1 }
    let s := { s with pmUsage := s.pmUsage + 1 }
    let s := { s with resetAsserted := false }
    if !clk.bus then (-EINVAL, s)
    else
      let s := { s with busClk := s.busClk + 1 }
      if !clk.mbus then (-EINVAL, s)
      else
        let s := { s with mbusClk := s.mbusClk + 1 }
        if !clk.ve then (-EINVAL, s)
        else (0, { s with veClk := s.veClk + 1 })

/-- `disable_cedar_hw_clk`. The framework ignores a disable of a clock that is off. -/
def disableCedarHwClk (s : EngineState) : ℤ × EngineState :=
  if s.clkStatus = 0 then (0, s)
  else
    (0, { s with
      clkStatus := 0
      veClk := s.veClk - 1
      mbusClk := s.mbusClk - 1
      busClk := s.busClk - 1
      resetAsserted := true
      pmUsage := s.pmUsage - 1 })

/-- `IOCTL_ENGINE_REQ` -/
def ioctlEngineReq (s : EngineState) (interrupted : Bool) (clk : ClkResults) : ℤ × EngineState :=
  if interrupted then (-ERESTARTSYS, s)
  else if s.refCount < 0 then (-EFAULT, s)
  else
    let s := { s with refCount := toInt32 (s.refCount + 1) }
    if s.refCount = 1 then
      let r := enableCedarHwClk { s with lastMinFreq := 0 } clk
      if r.1 < 0 then (-EFAULT, { r.2 with refCount := toInt32 (r.2.refCount - 1) })
      else r
    else (0, s)

/-- `IOCTL_ENGINE_REL`. The count is decremented before it is looked at. -/
def ioctlEngineRel (s : EngineState) (interrupted : Bool) : ℤ × EngineState :=
  if interrupted then (-ERESTARTSYS, s)
  else
    let s := { s with refCount := toInt32 (s.refCount - 1) }
    if s.refCount < 0 then (-EFAULT, s)
    else if s.refCount = 0 then
      let r := disableCedarHwClk s
      if r.1 < 0 then (-EFAULT, r.2) else r
    else (0, s)

/-- `sunxi_cedar_suspend` -/
def sunxiCedarSuspend (s : EngineState) : ℤ × EngineState :=
  let r := disableCedarHwClk s
  if r.1 < 0 then (-EFAULT, r.2) else (0, r.2)

/-- `sunxi_cedar_resume` -/
def sunxiCedarResume (s : EngineState) (clk : ClkResults) : ℤ × EngineState :=
  if s.refCount = 0 then (0, s)
  else
    let r := enableCedarHwClk s clk
    if r.1 < 0 then (-EFAULT, r.2) else (0, r.2)

/-! ### Clocks that cannot fail -/

namespace EngineState

/-- The clocks are switched on: each count goes up. -/
def clksOn (s : EngineState) : EngineState :=
  { s with
    clkStatus := 1
    busClk := s.busClk + 1
    mbusClk := s.mbusClk + 1
    veClk := s.veClk + 1
    pmUsage := s.pmUsage + 1
    resetAsserted := false }

/-- The clocks are switched off: each count goes down. -/
def clksOff (s : EngineState) : EngineState :=
  { s with
    clkStatus := 0
    busClk := s.busClk - 1
    mbusClk := s.mbusClk - 1
    veClk := s.veClk - 1
    pmUsage := s.pmUsage - 1
    resetAsserted := true }

end EngineState

/-- With working clocks `enable_cedar_hw_clk` switches them on unless they are. -/
theorem enableCedarHwClk_ok {s : EngineState} (hinit : s.bInitEndFlag = 1) :
    enableCedarHwClk s .ok = (0, if s.clkStatus = 1 then s else s.clksOn) := by
  unfold enableCedarHwClk
  rw [if_neg (not_not_intro hinit)]
  split <;> rfl

theorem disableCedarHwClk_eq (s : EngineState) :
    disableCedarHwClk s = (0, if s.clkStatus = 0 then s else s.clksOff) := by
  unfold disableCedarHwClk
  split <;> rfl

theorem sunxiCedarSuspend_eq (s : EngineState) :
    sunxiCedarSuspend s = (0, if s.clkStatus = 0 then s else s.clksOff) := by
  rw [sunxiCedarSuspend, disableCedarHwClk_eq]
  rfl

theorem sunxiCedarResume_ok {s : EngineState} (hinit : s.bInitEndFlag = 1) :
    sunxiCedarResume s .ok =
      (0, if s.refCount = 0 ∨ s.clkStatus = 1 then s else s.clksOn) := by
  unfold sunxiCedarResume
  by_cases hzero : s.refCount = 0
  · rw [if_pos hzero, if_pos (Or.inl hzero)]
  · rw [if_neg hzero, enableCedarHwClk_ok hinit]
    simp [hzero]

/-- A request that is let through counts, and the first one switches the clocks on. -/
theorem ioctlEngineReq_ok {s : EngineState} (hinit : s.bInitEndFlag = 1) (hpos : 0 ≤ s.refCount) :
    ioctlEngineReq s false .ok =
      (0, if toInt32 (s.refCount + 1) = 1 then
          { (if s.clkStatus = 1 then s else s.clksOn) with
            refCount := toInt32 (s.refCount + 1), lastMinFreq := 0 }
        else { s with refCount := toInt32 (s.refCount + 1) }) := by
  unfold ioctlEngineReq
  rw [if_neg Bool.false_ne_true, if_neg (Int.not_lt.mpr hpos)]
  by_cases hone : toInt32 (s.refCount + 1) = 1
  · have henable := enableCedarHwClk_ok (s := { s with refCount := 1, lastMinFreq := 0 }) hinit
    simp only [hone, if_true, henable, Int.lt_irrefl, if_false]
    split <;> rfl
  · simp only [hone, if_false]

/-- A release that is let through uncounts, and the last one switches the clocks off. -/
theorem ioctlEngineRel_eq (s : EngineState) :
    ioctlEngineRel s false =
      if toInt32 (s.refCount - 1) < 0 then
        (-EFAULT, { s with refCount := toInt32 (s.refCount - 1) })
      else if toInt32 (s.refCount - 1) = 0 then
        (0, { (if s.clkStatus = 0 then s else s.clksOff) with refCount := 0 })
      else (0, { s with refCount := toInt32 (s.refCount - 1) }) := by
  unfold ioctlEngineRel
  rw [if_neg Bool.false_ne_true]
  by_cases hneg : toInt32 (s.refCount - 1) < 0
  · simp only [hneg, if_true]
  · by_cases hzero : toInt32 (s.refCount - 1) = 0
    · simp only [hzero, Int.lt_irrefl, if_false, if_true]
      simp only [disableCedarHwClk_eq, Int.lt_irrefl, if_false]
      split <;> rfl
    · simp only [hneg, hzero, if_false]

theorem ioctlEngineReq_refCount {s : EngineState} (hinit : s.bInitEndFlag = 1)
    (hpos : 0 ≤ s.refCount) :
    (ioctlEngineReq s false .ok).2.refCount = toInt32 (s.refCount + 1) := by
  rw [ioctlEngineReq_ok hinit hpos]
  dsimp only
  split <;> rfl

theorem ioctlEngineRel_refCount (s : EngineState) :
    (ioctlEngineRel s false).2.refCount = toInt32 (s.refCount - 1) := by
  rw [ioctlEngineRel_eq]
  split
  · rfl
  · split
    · next hzero => exact hzero.symm
    · rfl

end LonganPi.Ve
