import LonganPi.Ve.Clock

/-!
# The reference count over runs

Runs of requests and releases from any handles and of suspend and resume, after the probe and with
clocks that can be enabled. The handle of an ioctl does not matter: the calls read nothing of it.
`reqs` and `rels` are ghosts that count the calls that returned 0.

`EngineInv` ties the three records together by one Boolean, `running`: the count is positive and
the device awake. A release finds out that it is not matched only after it has decremented
`ref_count`, and returns its error without restoring it; the count is then negative for good,
since a request refuses to run on a negative count. A request at `INT_MAX` wraps. `EngineGuard`
excludes these two, and `engine_count_iff` says that they are all that goes wrong.
-/

open DriverLib

namespace LonganPi.Ve

/-- The engine in its environment. -/
structure EngineRun where
  -- the driver and the clocks
  dev : EngineState
  -- between a suspend and its resume
  suspended : Bool
  -- ghost: requests that returned 0
  reqs : ℕ
  -- ghost: releases that returned 0
  rels : ℕ

/-- The calls of the engine. -/
inductive EngineOp
  -- `IOCTL_ENGINE_REQ`; `down_interruptible` may be interrupted
  | req (interrupted : Bool)
  -- `IOCTL_ENGINE_REL`; `down_interruptible` may be interrupted
  | rel (interrupted : Bool)
  -- `sunxi_cedar_suspend`
  | suspend
  -- `sunxi_cedar_resume`
  | resume

/-- The engine as a machine: no ioctl and no second suspend before the resume, no resume without
a suspend, and every clock can be enabled. -/
def engineMachine : Machine EngineRun EngineOp ℤ where
  step s
    | .req i =>
      if s.suspended then none
      else
        let r := ioctlEngineReq s.dev i .ok
        some (r.1, { s with dev := r.2, reqs := s.reqs + if r.1 = 0 then 1 else 0 })
    | .rel i =>
      if s.suspended then none
      else
        let r := ioctlEngineRel s.dev i
        some (r.1, { s with dev := r.2, rels := s.rels + if r.1 = 0 then 1 else 0 })
    | .suspend =>
      if s.suspended then none
      else
        let r := sunxiCedarSuspend s.dev
        some (r.1, { s with dev := r.2, suspended := true })
    | .resume =>
      if s.suspended then
        let r := sunxiCedarResume s.dev .ok
        some (r.1, { s with dev := r.2, suspended := false })
      else none

/-- The state after the probe: nothing is requested and no clock is on. -/
def EngineRun.init : EngineRun :=
  { dev :=
      { refCount := 0, lastMinFreq := 0, clkStatus := 0, bInitEndFlag := 1, busClk := 0,
        mbusClk := 0, veClk := 0, pmUsage := 0, resetAsserted := true }
    suspended := false
    reqs := 0
    rels := 0 }

/-- The enable counts of the bus, mbus and ve clocks. -/
def EngineState.clocks (s : EngineState) : ℕ × ℕ × ℕ := (s.busClk, s.mbusClk, s.veClk)

/-- The engine is requested and the device awake. -/
def EngineRun.Running (s : EngineRun) : Prop := 0 < s.dev.refCount ∧ s.suspended = false

instance (s : EngineRun) : Decidable s.Running := inferInstanceAs (Decidable (_ ∧ _))

/-- The specification of a step. -/
structure CountStep (s : EngineRun) (o : ℤ) (s' : EngineRun) : Prop where
  -- `ref_count` is the number of successful requests less that of successful releases
  counted : s'.dev.refCount = s'.reqs - s'.rels
  -- it is never negative
  nonneg : 0 ≤ s'.dev.refCount
  -- an error changes neither the count nor a clock
  onError : o ≠ 0 → s'.dev.refCount = s.dev.refCount ∧ s'.dev.clocks = s.dev.clocks
  -- each clock is enabled once while the engine runs and not at all otherwise
  clocks : s'.dev.clocks = if s'.Running then (1, 1, 1) else (0, 0, 0)

/-- A release that goes through finds a positive count, a request one below `INT_MAX`. -/
def EngineGuard (s : EngineRun) : EngineOp → Prop
  | .req i => i = true ∨ s.dev.refCount < 2 ^ 31 - 1
  | .rel i => i = true ∨ 0 < s.dev.refCount
  | _ => True

/-- The invariant of the engine. -/
structure EngineInv (s : EngineRun) : Prop where
  -- the probe is over
  initEnd : s.dev.bInitEndFlag = 1
  -- the count counts
  counted : s.dev.refCount = s.reqs - s.rels
  -- it is not negative
  nonneg : 0 ≤ s.dev.refCount
  -- it is an `int`
  lt : s.dev.refCount < 2 ^ 31
  -- `clk_status` says whether the engine runs
  status : s.dev.clkStatus = if s.Running then 1 else 0
  -- so do the clocks
  clocks : s.dev.clocks = if s.Running then (1, 1, 1) else (0, 0, 0)

theorem engineInv_init : EngineInv EngineRun.init := by
  constructor <;> decide

/-- A step that returns 0 or changes nothing meets the specification as soon as it keeps the
invariant. -/
theorem EngineInv.step {s s' : EngineRun} {o : ℤ} (hs' : EngineInv s')
    (herr : o ≠ 0 → s'.dev = s.dev) : EngineInv s' ∧ CountStep s o s' := by
  refine ⟨hs', hs'.counted, hs'.nonneg, fun ho => ?_, hs'.clocks⟩
  rw [herr ho]
  exact ⟨rfl, rfl⟩

namespace EngineInv

variable {s : EngineRun} (hs : EngineInv s)
include hs

/-- Switching the clocks on while the engine is off. -/
theorem clksOn (hoff : ¬ s.Running) :
    s.dev.clksOn.clkStatus = 1 ∧ s.dev.clksOn.clocks = (1, 1, 1) := by
  have hclk := hs.clocks
  rw [if_neg hoff] at hclk
  obtain ⟨hb, hm, hv⟩ : s.dev.busClk = 0 ∧ s.dev.mbusClk = 0 ∧ s.dev.veClk = 0 := by
    simpa [EngineState.clocks] using hclk
  refine ⟨rfl, ?_⟩
  simp [EngineState.clocks, EngineState.clksOn, hb, hm, hv]

/-- Switching the clocks off while the engine is on. -/
theorem clksOff (hon : s.Running) :
    s.dev.clksOff.clkStatus = 0 ∧ s.dev.clksOff.clocks = (0, 0, 0) := by
  have hclk := hs.clocks
  rw [if_pos hon] at hclk
  obtain ⟨hb, hm, hv⟩ : s.dev.busClk = 1 ∧ s.dev.mbusClk = 1 ∧ s.dev.veClk = 1 := by
    simpa [EngineState.clocks] using hclk
  refine ⟨rfl, ?_⟩
  simp [EngineState.clocks, EngineState.clksOff, hb, hm, hv]

/-- `clk_status` is 1 exactly while the engine runs, and 0 otherwise. -/
theorem status_cases :
    (s.Running ∧ s.dev.clkStatus = 1) ∨ (¬ s.Running ∧ s.dev.clkStatus = 0) := by
  have hst := hs.status
  by_cases hrun : s.Running
  · rw [if_pos hrun] at hst
    exact Or.inl ⟨hrun, hst⟩
  · rw [if_neg hrun] at hst
    exact Or.inr ⟨hrun, hst⟩

/-- A request on a count below `INT_MAX`. -/
theorem req (hawake : s.suspended = false) (hmax : s.dev.refCount < 2 ^ 31 - 1) :
    (ioctlEngineReq s.dev false .ok).1 = 0 ∧
      EngineInv { s with
        dev := (ioctlEngineReq s.dev false .ok).2, reqs := s.reqs + 1 } := by
  have hnn := hs.nonneg
  have hcount := hs.counted
  have hwrap : toInt32 (s.dev.refCount + 1) = s.dev.refCount + 1 :=
    toInt32_of_range (by omega) (by omega)
  rw [ioctlEngineReq_ok hs.initEnd hnn, hwrap]
  refine ⟨rfl, ?_⟩
  by_cases hone : s.dev.refCount + 1 = 1
  · -- the first request: the engine was off and is on afterwards
    have hoff : ¬ s.Running := fun hrun => by have := hrun.1; omega
    have hstat : s.dev.clkStatus ≠ 1 := by
      have := hs.status
      rw [if_neg hoff] at this
      omega
    obtain ⟨hst, hclk⟩ := hs.clksOn hoff
    simp only [if_pos hone, if_neg hstat]
    have hrun : 0 < s.dev.refCount + 1 ∧ s.suspended = false := ⟨by omega, hawake⟩
    refine ⟨hs.initEnd, ?_, ?_, ?_, ?_, ?_⟩
    · show s.dev.refCount + 1 = ((s.reqs + 1 : ℕ) : ℤ) - s.rels
      omega
    · show 0 ≤ s.dev.refCount + 1
      omega
    · show s.dev.refCount + 1 < 2 ^ 31
      omega
    · exact hst.trans (if_pos hrun).symm
    · exact hclk.trans (if_pos hrun).symm
  · -- a further request: nothing but the count changes
    have hrun : s.Running := ⟨by omega, hawake⟩
    have hrun' : 0 < s.dev.refCount + 1 ∧ s.suspended = false := ⟨by omega, hawake⟩
    have hst := hs.status
    have hclk := hs.clocks
    rw [if_pos hrun] at hst hclk
    rw [if_neg hone]
    refine ⟨hs.initEnd, ?_, ?_, ?_, ?_, ?_⟩
    · show s.dev.refCount + 1 = ((s.reqs + 1 : ℕ) : ℤ) - s.rels
      omega
    · show 0 ≤ s.dev.refCount + 1
      omega
    · show s.dev.refCount + 1 < 2 ^ 31
      omega
    · exact hst.trans (if_pos hrun').symm
    · exact hclk.trans (if_pos hrun').symm

/-- A release on a positive count. -/
theorem rel (hawake : s.suspended = false) (hpos : 0 < s.dev.refCount) :
    (ioctlEngineRel s.dev false).1 = 0 ∧
      EngineInv { s with dev := (ioctlEngineRel s.dev false).2, rels := s.rels + 1 } := by
  have hlt := hs.lt
  have hcount := hs.counted
  have hwrap : toInt32 (s.dev.refCount - 1) = s.dev.refCount - 1 :=
    toInt32_of_range (by omega) (by omega)
  have hrun : s.Running := ⟨hpos, hawake⟩
  have hst := hs.status
  have hclk := hs.clocks
  rw [if_pos hrun] at hst hclk
  rw [ioctlEngineRel_eq, hwrap, if_neg (by omega : ¬ s.dev.refCount - 1 < 0)]
  by_cases hlast : s.dev.refCount - 1 = 0
  · -- the last release: the engine was on and is off afterwards
    rw [if_pos hlast]
    refine ⟨rfl, ?_⟩
    obtain ⟨hst', hclk'⟩ := hs.clksOff hrun
    simp only [if_neg (by omega : s.dev.clkStatus ≠ 0)]
    have hoff : ¬ ((0 : ℤ) < 0 ∧ s.suspended = false) := fun h => Int.lt_irrefl 0 h.1
    refine ⟨hs.initEnd, ?_, Int.le_refl 0, ?_, ?_, ?_⟩
    · show (0 : ℤ) = s.reqs - ((s.rels + 1 : ℕ) : ℤ)
      omega
    · show (0 : ℤ) < 2 ^ 31
      decide
    · exact hst'.trans (if_neg hoff).symm
    · exact hclk'.trans (if_neg hoff).symm
  · -- others remain: nothing but the count changes
    rw [if_neg hlast]
    refine ⟨rfl, ?_⟩
    have hrun' : 0 < s.dev.refCount - 1 ∧ s.suspended = false := ⟨by omega, hawake⟩
    refine ⟨hs.initEnd, ?_, ?_, ?_, ?_, ?_⟩
    · show s.dev.refCount - 1 = s.reqs - ((s.rels + 1 : ℕ) : ℤ)
      omega
    · show 0 ≤ s.dev.refCount - 1
      omega
    · show s.dev.refCount - 1 < 2 ^ 31
      omega
    · exact hst.trans (if_pos hrun').symm
    · exact hclk.trans (if_pos hrun').symm

/-- A suspend leaves the count and switches off what is on. -/
theorem suspend :
    EngineInv { s with dev := (sunxiCedarSuspend s.dev).2, suspended := true } := by
  rw [sunxiCedarSuspend_eq]
  have hoff : ∀ n : ℤ, ¬ (0 < n ∧ true = false) := fun _ h => Bool.noConfusion h.2
  rcases hs.status_cases with ⟨hrun, hst⟩ | ⟨hrun, hst⟩
  · obtain ⟨hst', hclk'⟩ := hs.clksOff hrun
    simp only [if_neg (by omega : s.dev.clkStatus ≠ 0)]
    exact ⟨hs.initEnd, hs.counted, hs.nonneg, hs.lt, hst'.trans (if_neg (hoff _)).symm,
      hclk'.trans (if_neg (hoff _)).symm⟩
  · have hclk := hs.clocks
    rw [if_neg hrun] at hclk
    simp only [if_pos hst]
    exact ⟨hs.initEnd, hs.counted, hs.nonneg, hs.lt, hst.trans (if_neg (hoff _)).symm,
      hclk.trans (if_neg (hoff _)).symm⟩

/-- A resume leaves the count and switches the clocks on if the engine is requested. -/
theorem resume (hasleep : s.suspended = true) :
    (sunxiCedarResume s.dev .ok).1 = 0 ∧
      EngineInv { s with dev := (sunxiCedarResume s.dev .ok).2, suspended := false } := by
  rw [sunxiCedarResume_ok hs.initEnd]
  refine ⟨rfl, ?_⟩
  have hrun : ¬ s.Running := fun h => by rw [h.2] at hasleep; cases hasleep
  have hnn := hs.nonneg
  have hst := hs.status
  have hclk := hs.clocks
  rw [if_neg hrun] at hst hclk
  by_cases hzero : s.dev.refCount = 0
  · have hoff : ¬ (0 < s.dev.refCount ∧ false = false) := fun h => by have := h.1; omega
    simp only [if_pos (Or.inl hzero : s.dev.refCount = 0 ∨ s.dev.clkStatus = 1)]
    exact ⟨hs.initEnd, hs.counted, hs.nonneg, hs.lt, hst.trans (if_neg hoff).symm,
      hclk.trans (if_neg hoff).symm⟩
  · have hon : 0 < s.dev.refCount ∧ false = false := ⟨by omega, rfl⟩
    obtain ⟨hst', hclk'⟩ := hs.clksOn hrun
    simp only [if_neg (by omega : ¬ (s.dev.refCount = 0 ∨ s.dev.clkStatus = 1))]
    exact ⟨hs.initEnd, hs.counted, hs.nonneg, hs.lt, hst'.trans (if_pos hon).symm,
      hclk'.trans (if_pos hon).symm⟩

end EngineInv

/-- A guarded call keeps the invariant and meets the specification. -/
theorem countStep_of_guard (s : EngineRun) (op : EngineOp) (o : ℤ) (s' : EngineRun)
    (hs : EngineInv s) (hop : engineMachine.step s op = some (o, s')) (hg : EngineGuard s op) :
    EngineInv s' ∧ CountStep s o s' := by
  cases op with
  | req i =>
    obtain ⟨hawake, heq⟩ : s.suspended = false ∧ _ := by
      simpa [engineMachine] using hop
    cases i with
    | true =>
      obtain ⟨rfl, rfl⟩ := heq
      exact hs.step fun _ => rfl
    | false =>
      obtain ⟨hret, hs'⟩ := hs.req hawake (hg.resolve_left Bool.false_ne_true)
      obtain ⟨rfl, rfl⟩ := heq
      rw [hret] at *
      exact hs'.step fun h => absurd rfl h
  | rel i =>
    obtain ⟨hawake, heq⟩ : s.suspended = false ∧ _ := by
      simpa [engineMachine] using hop
    cases i with
    | true =>
      obtain ⟨rfl, rfl⟩ := heq
      exact hs.step fun _ => rfl
    | false =>
      obtain ⟨hret, hs'⟩ := hs.rel hawake (hg.resolve_left Bool.false_ne_true)
      obtain ⟨rfl, rfl⟩ := heq
      rw [hret] at *
      exact hs'.step fun h => absurd rfl h
  | suspend =>
    obtain ⟨hawake, rfl, rfl⟩ : s.suspended = false ∧ _ := by
      simpa [engineMachine] using hop
    rw [sunxiCedarSuspend_eq]
    exact (sunxiCedarSuspend_eq s.dev ▸ hs.suspend).step fun h => absurd rfl h
  | resume =>
    obtain ⟨hasleep, heq⟩ : s.suspended = true ∧ _ := by
      simpa [engineMachine] using hop
    obtain ⟨hret, hs'⟩ := hs.resume hasleep
    obtain ⟨rfl, rfl⟩ := heq
    rw [hret]
    exact hs'.step fun h => absurd rfl h

/-- A call that met the specification was guarded. -/
theorem guard_of_countStep (s : EngineRun) (op : EngineOp) (o : ℤ) (s' : EngineRun)
    (hs : EngineInv s) (hop : engineMachine.step s op = some (o, s')) (hstep : CountStep s o s') :
    EngineGuard s op := by
  have hnn := hs.nonneg
  have hlt := hs.lt
  have hnn' := hstep.nonneg
  cases op with
  | suspend => trivial
  | resume => trivial
  | req i =>
    obtain ⟨-, rfl, rfl⟩ : s.suspended = false ∧ _ := by
      simpa [engineMachine] using hop
    cases i with
    | true => exact Or.inl rfl
    | false =>
      refine Or.inr ?_
      by_contra hmax
      -- at `INT_MAX` the count wraps to `INT_MIN`
      have hwrap : toInt32 (s.dev.refCount + 1) = -2 ^ 31 := by
        rw [show s.dev.refCount + 1 = 2 ^ 31 by omega]
        decide
      change 0 ≤ (ioctlEngineReq s.dev false .ok).2.refCount at hnn'
      rw [ioctlEngineReq_refCount hs.initEnd hnn, hwrap] at hnn'
      exact absurd hnn' (by decide)
  | rel i =>
    obtain ⟨-, rfl, rfl⟩ : s.suspended = false ∧ _ := by
      simpa [engineMachine] using hop
    cases i with
    | true => exact Or.inl rfl
    | false =>
      refine Or.inr ?_
      by_contra hpos
      -- at 0 the count is decremented before the error is returned
      have hwrap : toInt32 (s.dev.refCount - 1) = -1 := by
        rw [show s.dev.refCount - 1 = -1 by omega]
        decide
      change 0 ≤ (ioctlEngineRel s.dev false).2.refCount at hnn'
      rw [ioctlEngineRel_refCount, hwrap] at hnn'
      exact absurd hnn' (by decide)

/-- **The engine count.** Along every run the count is the number of successful requests less that
of successful releases, errors change nothing and the clocks follow the count, exactly when no
release goes through at count 0 and no request at `INT_MAX`. -/
theorem engine_count_iff (ops : List EngineOp) :
    engineMachine.Along (fun s _ o s' => CountStep s o s') EngineRun.init ops ↔
      engineMachine.Along (fun s op _ _ => EngineGuard s op) EngineRun.init ops :=
  Machine.along_iff_guard countStep_of_guard guard_of_countStep engineInv_init ops

/-- A release without a request leaves the count at −1. -/
theorem unmatched_release_breaks_count :
    ¬ ∀ ops : List EngineOp,
      engineMachine.Along (fun s _ o s' => CountStep s o s') EngineRun.init ops := by
  intro hall
  have hrel : CountStep _ _ _ := (hall ([] ++ [.rel false])).at rfl rfl
  exact absurd hrel.nonneg (by decide)

end LonganPi.Ve
