import LonganPi.Ve.Clock

/-!
# Clocks that fail to come up

`enable_cedar_hw_clk` sets `clk_status` first, and an error on the way leaves what was done before
it. `atomic_enable_iff` says that it is atomic only where no clock is asked, or no clock fails. The
two callers, `IOCTL_ENGINE_REQ` and `sunxi_cedar_resume`, undo the reference count and nothing else.

Afterwards `clk_status` says that the clocks run when they do not, and the next request finds
nothing to do. `ClockInv` says that the flag and the clocks agree. It is lost with the first failure
only, so along a run every error is atomic and every granted request has its clocks exactly when
every enable that a call asks for succeeds (`clock_failure_iff`).
-/

open DriverLib

namespace LonganPi.Ve

/-! ### One call -/

/-- What an error should leave alone. -/
structure Kept (s s' : EngineState) : Prop where
  clkStatus : s'.clkStatus = s.clkStatus
  refCount : s'.refCount = s.refCount
  pmUsage : s'.pmUsage = s.pmUsage
  resetAsserted : s'.resetAsserted = s.resetAsserted
  busClk : s'.busClk = s.busClk
  mbusClk : s'.mbusClk = s.mbusClk
  veClk : s'.veClk = s.veClk

theorem Kept.refl (s : EngineState) : Kept s s := ⟨rfl, rfl, rfl, rfl, rfl, rfl, rfl⟩

/-- An error of the call leaves everything as it was in `s`. -/
def Atomic (s : EngineState) (r : ℤ × EngineState) : Prop := r.1 ≠ 0 → Kept s r.2

section Call

variable {s : EngineState} {clk : ClkResults} {i : Bool}

/-- A clock that fails leaves the flag set behind. -/
theorem enableCedarHwClk_failed (hinit : s.bInitEndFlag = 1) (hoff : s.clkStatus ≠ 1)
    (hfail : clk ≠ .ok) :
    (enableCedarHwClk s clk).1 = -EINVAL ∧ (enableCedarHwClk s clk).2.clkStatus = 1 := by
  obtain ⟨bus, mbus, ve⟩ := clk
  unfold enableCedarHwClk
  rw [if_neg (not_not_intro hinit), if_neg hoff]
  cases bus with
  | false => exact ⟨rfl, rfl⟩
  | true =>
    cases mbus with
    | false => exact ⟨rfl, rfl⟩
    | true =>
      cases ve with
      | false => exact ⟨rfl, rfl⟩
      | true => exact absurd rfl hfail

theorem enableCedarHwClk_running (hinit : s.bInitEndFlag = 1) (hon : s.clkStatus = 1) :
    enableCedarHwClk s clk = (0, s) := by
  unfold enableCedarHwClk
  rw [if_neg (not_not_intro hinit), if_pos hon]

/-- The call succeeds exactly when the clocks are on already or none of them fails. -/
theorem enableCedarHwClk_eq_zero_iff (hinit : s.bInitEndFlag = 1) :
    (enableCedarHwClk s clk).1 = 0 ↔ s.clkStatus = 1 ∨ clk = .ok := by
  by_cases hon : s.clkStatus = 1
  · rw [enableCedarHwClk_running hinit hon]
    exact iff_of_true rfl (Or.inl hon)
  · by_cases hok : clk = .ok
    · rw [hok, enableCedarHwClk_ok hinit]
      exact iff_of_true rfl (Or.inr rfl)
    · rw [(enableCedarHwClk_failed hinit hon hok).1]
      exact iff_of_false (by decide) fun h => h.elim hon hok

/-- A failure is not atomic: the flag was not set before. -/
theorem atomic_iff_zero {r : ℤ × EngineState} (h : r.1 ≠ 0 → r.2.clkStatus ≠ s.clkStatus) :
    Atomic s r ↔ r.1 = 0 := by
  constructor
  · intro hatomic
    by_contra hne
    exact h hne (hatomic hne).clkStatus
  · exact fun hzero hne => absurd hzero hne

/-- **Enabling the clocks** is atomic exactly when they are on already or none of them fails. -/
theorem atomic_enable_iff (hinit : s.bInitEndFlag = 1) :
    Atomic s (enableCedarHwClk s clk) ↔ s.clkStatus = 1 ∨ clk = .ok := by
  rw [← enableCedarHwClk_eq_zero_iff hinit]
  apply atomic_iff_zero
  intro hne
  have hboth := not_or.mp (mt (enableCedarHwClk_eq_zero_iff hinit).mpr hne)
  rw [(enableCedarHwClk_failed hinit hboth.1 hboth.2).2]
  exact Ne.symm hboth.1

/-- Whether a request gets as far as the clocks. -/
def AsksForClocks (s : EngineState) (interrupted : Bool) : Prop :=
  interrupted = false ∧ 0 ≤ s.refCount ∧ toInt32 (s.refCount + 1) = 1

/-- A request that asks for clocks that fail. -/
theorem ioctlEngineReq_failed (hinit : s.bInitEndFlag = 1) (hasks : AsksForClocks s i)
    (hoff : s.clkStatus ≠ 1) (hfail : clk ≠ .ok) :
    (ioctlEngineReq s i clk).1 = -EFAULT ∧ (ioctlEngineReq s i clk).2.clkStatus = 1 := by
  obtain ⟨rfl, hpos, hone⟩ := hasks
  obtain ⟨herr, hst⟩ := enableCedarHwClk_failed
    (s := { s with refCount := toInt32 (s.refCount + 1), lastMinFreq := 0 }) hinit hoff hfail
  unfold ioctlEngineReq
  rw [if_neg Bool.false_ne_true, if_neg (Int.not_lt.mpr hpos)]
  dsimp only
  rw [if_pos hone, herr, if_pos (by decide)]
  exact ⟨rfl, hst⟩

/-- A request that is refused changes nothing. -/
theorem ioctlEngineReq_refused (clk : ClkResults) (h : i = true ∨ s.refCount < 0) :
    (ioctlEngineReq s i clk).1 ≠ 0 ∧ (ioctlEngineReq s i clk).2 = s := by
  unfold ioctlEngineReq
  by_cases hi : i = true
  · rw [if_pos hi]
    exact ⟨show -ERESTARTSYS ≠ 0 by decide, rfl⟩
  · rw [if_neg hi, if_pos (h.resolve_left hi)]
    exact ⟨show -EFAULT ≠ 0 by decide, rfl⟩

/-- A request that is granted goes as it does with working clocks. -/
theorem ioctlEngineReq_granted (hinit : s.bInitEndFlag = 1) (h : ¬(i = true ∨ s.refCount < 0))
    (hclk : AsksForClocks s i → s.clkStatus = 1 ∨ clk = .ok) :
    ioctlEngineReq s i clk = ioctlEngineReq s false .ok := by
  obtain ⟨hi, hpos⟩ := not_or.mp h
  rw [Bool.not_eq_true] at hi
  subst hi
  unfold ioctlEngineReq
  rw [if_neg Bool.false_ne_true, if_neg Bool.false_ne_true, if_neg hpos, if_neg hpos]
  by_cases hone : toInt32 (s.refCount + 1) = 1
  · rcases hclk ⟨rfl, Int.not_lt.mp hpos, hone⟩ with hon | rfl
    · have hsame : ∀ c, enableCedarHwClk
          { s with refCount := toInt32 (s.refCount + 1), lastMinFreq := 0 } c =
            (0, { s with refCount := toInt32 (s.refCount + 1), lastMinFreq := 0 }) :=
        fun c => enableCedarHwClk_running hinit hon
      simp only [hone, if_true] at hsame ⊢
      rw [hsame clk, hsame .ok]
    · rfl
  · simp only [hone, if_false]

/-- **A request** is atomic exactly when the clocks it asks for are on already or none of them
fails. -/
theorem atomic_req_iff (hinit : s.bInitEndFlag = 1) : Atomic s (ioctlEngineReq s i clk) ↔
    (AsksForClocks s i → s.clkStatus = 1 ∨ clk = .ok) := by
  constructor
  · intro hatomic hasks
    by_contra hboth
    obtain ⟨hoff, hfail⟩ := not_or.mp hboth
    obtain ⟨herr, hst⟩ := ioctlEngineReq_failed hinit hasks hoff hfail
    have hne : (ioctlEngineReq s i clk).1 ≠ 0 := by
      rw [herr]
      decide
    exact hoff ((hatomic hne).clkStatus.symm.trans hst)
  · intro hclk hne
    by_cases hrefused : i = true ∨ s.refCount < 0
    · rw [(ioctlEngineReq_refused clk hrefused).2]
      exact Kept.refl s
    · rw [ioctlEngineReq_granted hinit hrefused hclk,
        ioctlEngineReq_ok hinit (Int.not_lt.mp (not_or.mp hrefused).2)] at hne
      exact absurd rfl hne

/-- **A resume** is atomic exactly when nothing is requested, the clocks are on already or none of
them fails. -/
theorem atomic_resume_iff (hinit : s.bInitEndFlag = 1) : Atomic s (sunxiCedarResume s clk) ↔
    s.refCount = 0 ∨ s.clkStatus = 1 ∨ clk = .ok := by
  unfold sunxiCedarResume
  by_cases hzero : s.refCount = 0
  · rw [if_pos hzero]
    exact iff_of_true (fun hne => absurd rfl hne) (Or.inl hzero)
  · rw [if_neg hzero, or_iff_right hzero, ← enableCedarHwClk_eq_zero_iff hinit]
    dsimp only
    by_cases hret : (enableCedarHwClk s clk).1 = 0
    · rw [hret, if_neg (by decide)]
      exact iff_of_true (fun hne => absurd rfl hne) rfl
    · obtain ⟨hoff, hfail⟩ := not_or.mp (mt (enableCedarHwClk_eq_zero_iff hinit).mpr hret)
      obtain ⟨herr, hst⟩ := enableCedarHwClk_failed hinit hoff hfail
      rw [herr, if_pos (by decide)]
      refine iff_of_false (fun hatomic => ?_) (by decide)
      exact hoff ((hatomic (show -EFAULT ≠ 0 by decide)).clkStatus.symm.trans hst)

end Call

/-! ### Runs -/

/-- The engine, and whether it is between a suspend and its resume. -/
structure ClockRun where
  dev : EngineState
  suspended : Bool

/-- The calls, with the answers of the clock framework. -/
inductive ClockOp
  | req (interrupted : Bool) (clk : ClkResults)
  | rel (interrupted : Bool)
  | suspend
  | resume (clk : ClkResults)

/-- The engine as a machine: no ioctl and no second suspend before the resume, no resume without a
suspend. -/
def clockMachine : Machine ClockRun ClockOp ℤ where
  step s
    | .req i clk =>
      if s.suspended then none
      else some ((ioctlEngineReq s.dev i clk).1, { s with dev := (ioctlEngineReq s.dev i clk).2 })
    | .rel i =>
      if s.suspended then none
      else some ((ioctlEngineRel s.dev i).1, { s with dev := (ioctlEngineRel s.dev i).2 })
    | .suspend =>
      if s.suspended then none
      else some ((sunxiCedarSuspend s.dev).1, ⟨(sunxiCedarSuspend s.dev).2, true⟩)
    | .resume clk =>
      if s.suspended then
        some ((sunxiCedarResume s.dev clk).1, ⟨(sunxiCedarResume s.dev clk).2, false⟩)
      else none

/-- After the probe. -/
def ClockRun.init : ClockRun :=
  { dev :=
      { refCount := 0, lastMinFreq := 0, clkStatus := 0, bInitEndFlag := 1, busClk := 0,
        mbusClk := 0, veClk := 0, pmUsage := 0, resetAsserted := true }
    suspended := false }

/-- All three clocks are enabled. -/
def EngineState.ClocksOn (s : EngineState) : Prop := 0 < s.busClk ∧ 0 < s.mbusClk ∧ 0 < s.veClk

/-- The specification of a step: an error of a request or a resume leaves everything as it was,
and a request that is granted has its clocks. -/
def ClockStep (s : ClockRun) (op : ClockOp) (o : ℤ) (s' : ClockRun) : Prop :=
  match op with
  | .req _ _ => (o ≠ 0 → Kept s.dev s'.dev) ∧ (o = 0 → s'.dev.ClocksOn)
  | .resume _ => o ≠ 0 → Kept s.dev s'.dev
  | _ => True

/-- No clock that a call asks for fails, and a request that asks for none finds them on. -/
def ClockGuard (s : ClockRun) : ClockOp → Prop
  | .req i clk => i = true ∨ s.dev.refCount < 0 ∨ s.dev.clkStatus = 1 ∨
      toInt32 (s.dev.refCount + 1) = 1 ∧ clk = .ok
  | .resume clk => s.dev.refCount = 0 ∨ s.dev.clkStatus = 1 ∨ clk = .ok
  | _ => True

/-- The flag says what the clocks do. -/
structure ClockInv (s : ClockRun) : Prop where
  initEnd : s.dev.bInitEndFlag = 1
  clocks : s.dev.clkStatus = 1 ∧ s.dev.busClk = 1 ∧ s.dev.mbusClk = 1 ∧ s.dev.veClk = 1 ∨
    s.dev.clkStatus = 0 ∧ s.dev.busClk = 0 ∧ s.dev.mbusClk = 0 ∧ s.dev.veClk = 0

theorem clockInv_init : ClockInv ClockRun.init := by
  constructor
  · rfl
  · exact Or.inr (by decide)

namespace ClockInv

variable {s : ClockRun} (hs : ClockInv s)
include hs

/-- Switching the clocks on when they are off. -/
theorem clksOn (hoff : s.dev.clkStatus ≠ 1) : s.dev.clksOn.clkStatus = 1 ∧
    s.dev.clksOn.busClk = 1 ∧ s.dev.clksOn.mbusClk = 1 ∧ s.dev.clksOn.veClk = 1 := by
  obtain ⟨-, hb, hm, hv⟩ := hs.clocks.resolve_left fun h => hoff h.1
  refine ⟨rfl, ?_, ?_, ?_⟩
  · exact congrArg (· + 1) hb
  · exact congrArg (· + 1) hm
  · exact congrArg (· + 1) hv

/-- Switching them off when they are on. -/
theorem clksOff (hon : s.dev.clkStatus ≠ 0) : s.dev.clksOff.clkStatus = 0 ∧
    s.dev.clksOff.busClk = 0 ∧ s.dev.clksOff.mbusClk = 0 ∧ s.dev.clksOff.veClk = 0 := by
  obtain ⟨-, hb, hm, hv⟩ := hs.clocks.resolve_right fun h => hon h.1
  refine ⟨rfl, ?_, ?_, ?_⟩
  · exact congrArg (· - 1) hb
  · exact congrArg (· - 1) hm
  · exact congrArg (· - 1) hv

/-- A granted request with its clocks. -/
theorem req {i : Bool} {clk : ClkResults} (hgrant : ¬(i = true ∨ s.dev.refCount < 0))
    (hclk : s.dev.clkStatus = 1 ∨ toInt32 (s.dev.refCount + 1) = 1 ∧ clk = .ok) :
    (ioctlEngineReq s.dev i clk).1 = 0 ∧ (ioctlEngineReq s.dev i clk).2.ClocksOn ∧
      ClockInv { s with dev := (ioctlEngineReq s.dev i clk).2 } := by
  have hpos : 0 ≤ s.dev.refCount := Int.not_lt.mp (not_or.mp hgrant).2
  rw [ioctlEngineReq_granted hs.initEnd hgrant fun _ => hclk.imp id And.right,
    ioctlEngineReq_ok hs.initEnd hpos]
  refine ⟨rfl, ?_⟩
  by_cases hon : s.dev.clkStatus = 1
  · -- the clocks are on, and only the count changes
    obtain ⟨hst, hb, hm, hv⟩ := hs.clocks.resolve_right fun h => by
      rw [h.1] at hon
      exact absurd hon (by decide)
    have hpos' : s.dev.ClocksOn := by
      unfold EngineState.ClocksOn
      omega
    split
    · exact ⟨hpos', hs.initEnd, Or.inl ⟨hst, hb, hm, hv⟩⟩
    · exact ⟨hpos', hs.initEnd, Or.inl ⟨hst, hb, hm, hv⟩⟩
  · obtain ⟨hone, -⟩ := hclk.resolve_left hon
    obtain ⟨hst, hb, hm, hv⟩ := hs.clksOn hon
    dsimp only
    rw [if_pos hone, if_neg hon]
    refine ⟨?_, hs.initEnd, Or.inl ⟨hst, hb, hm, hv⟩⟩
    exact ⟨hb.symm ▸ Nat.one_pos, hm.symm ▸ Nat.one_pos, hv.symm ▸ Nat.one_pos⟩

theorem rel (i : Bool) : ClockInv { s with dev := (ioctlEngineRel s.dev i).2 } := by
  cases i with
  | true => exact hs
  | false =>
    rw [ioctlEngineRel_eq]
    split
    · exact ⟨hs.initEnd, hs.clocks⟩
    · split
      · by_cases hoff : s.dev.clkStatus = 0
        · rw [if_pos hoff]
          exact ⟨hs.initEnd, hs.clocks⟩
        · rw [if_neg hoff]
          exact ⟨hs.initEnd, Or.inr (hs.clksOff hoff)⟩
      · exact ⟨hs.initEnd, hs.clocks⟩

theorem suspend : ClockInv ⟨(sunxiCedarSuspend s.dev).2, true⟩ := by
  rw [sunxiCedarSuspend_eq]
  dsimp only
  split
  · exact ⟨hs.initEnd, hs.clocks⟩
  · rename_i hoff
    exact ⟨hs.initEnd, Or.inr (hs.clksOff hoff)⟩

theorem resume {clk : ClkResults}
    (hclk : s.dev.refCount = 0 ∨ s.dev.clkStatus = 1 ∨ clk = .ok) :
    (sunxiCedarResume s.dev clk).1 = 0 ∧ ClockInv ⟨(sunxiCedarResume s.dev clk).2, false⟩ := by
  by_cases hquiet : s.dev.refCount = 0 ∨ s.dev.clkStatus = 1
  · have hsame : sunxiCedarResume s.dev clk = (0, s.dev) := by
      unfold sunxiCedarResume
      by_cases hzero : s.dev.refCount = 0
      · rw [if_pos hzero]
      · rw [if_neg hzero, enableCedarHwClk_running hs.initEnd (hquiet.resolve_left hzero)]
        rfl
    rw [hsame]
    exact ⟨rfl, hs.initEnd, hs.clocks⟩
  · obtain ⟨hne, hoff⟩ := not_or.mp hquiet
    obtain rfl := (hclk.resolve_left hne).resolve_left hoff
    rw [sunxiCedarResume_ok hs.initEnd, if_neg hquiet]
    exact ⟨rfl, hs.initEnd, Or.inl (hs.clksOn hoff)⟩

end ClockInv

/-- A guarded call keeps the invariant and meets the specification. -/
theorem clockStep_of_guard (s : ClockRun) (op : ClockOp) (o : ℤ) (s' : ClockRun) (hs : ClockInv s)
    (hop : clockMachine.step s op = some (o, s')) (hg : ClockGuard s op) :
    ClockInv s' ∧ ClockStep s op o s' := by
  cases op with
  | req i clk =>
    change (if _ then _ else _) = _ at hop
    split at hop
    · cases hop
    obtain ⟨rfl, rfl⟩ := Prod.mk.inj (Option.some.inj hop)
    by_cases hrefused : i = true ∨ s.dev.refCount < 0
    · obtain ⟨hne, hsame⟩ := ioctlEngineReq_refused clk hrefused
      rw [hsame]
      exact ⟨hs, fun _ => Kept.refl _, fun hzero => absurd hzero hne⟩
    · obtain ⟨hzero, hon, hs'⟩ := hs.req hrefused
        ((hg.resolve_left (not_or.mp hrefused).1).resolve_left (not_or.mp hrefused).2)
      exact ⟨hs', fun hne => absurd hzero hne, fun _ => hon⟩
  | rel i =>
    change (if _ then _ else _) = _ at hop
    split at hop
    · cases hop
    obtain ⟨-, rfl⟩ := Prod.mk.inj (Option.some.inj hop)
    exact ⟨hs.rel i, trivial⟩
  | suspend =>
    change (if _ then _ else _) = _ at hop
    split at hop
    · cases hop
    obtain ⟨-, rfl⟩ := Prod.mk.inj (Option.some.inj hop)
    exact ⟨hs.suspend, trivial⟩
  | resume clk =>
    change (if _ then _ else _) = _ at hop
    split at hop
    · obtain ⟨rfl, rfl⟩ := Prod.mk.inj (Option.some.inj hop)
      obtain ⟨hzero, hs'⟩ := hs.resume hg
      exact ⟨hs', fun hne => absurd hzero hne⟩
    · cases hop

/-- A call that met the specification was guarded. -/
theorem guard_of_clockStep (s : ClockRun) (op : ClockOp) (o : ℤ) (s' : ClockRun) (hs : ClockInv s)
    (hop : clockMachine.step s op = some (o, s')) (hstep : ClockStep s op o s') :
    ClockGuard s op := by
  cases op with
  | req i clk =>
    change (if _ then _ else _) = _ at hop
    split at hop
    · cases hop
    obtain ⟨rfl, rfl⟩ := Prod.mk.inj (Option.some.inj hop)
    obtain ⟨herror, hgranted⟩ := hstep
    by_contra hnot
    obtain ⟨hi, hneg, hoff, hclk⟩ : ¬i = true ∧ ¬s.dev.refCount < 0 ∧ ¬s.dev.clkStatus = 1 ∧
        ¬(toInt32 (s.dev.refCount + 1) = 1 ∧ clk = .ok) := by
      simpa [ClockGuard, not_or] using hnot
    by_cases hone : toInt32 (s.dev.refCount + 1) = 1
    · have hatomic := (atomic_req_iff hs.initEnd).mp herror
        ⟨eq_false_of_ne_true hi, Int.not_lt.mp hneg, hone⟩
      exact hclk ⟨hone, hatomic.resolve_left hoff⟩
    · -- granted without a look at the clocks, which are off
      have hzero : ioctlEngineReq s.dev i clk = _ :=
        (ioctlEngineReq_granted hs.initEnd (fun h => h.elim hi hneg) fun h =>
          absurd h.2.2 hone).trans (ioctlEngineReq_ok hs.initEnd (Int.not_lt.mp hneg))
      rw [if_neg hone] at hzero
      have hon := hgranted (by rw [hzero])
      obtain ⟨-, hb, -⟩ := hs.clocks.resolve_left fun h => hoff h.1
      have hbus := hon.1
      rw [hzero] at hbus
      exact absurd hbus (by rw [show _ = s.dev.busClk from rfl, hb]; decide)
  | rel i => trivial
  | suspend => trivial
  | resume clk =>
    change (if _ then _ else _) = _ at hop
    split at hop
    · obtain ⟨rfl, rfl⟩ := Prod.mk.inj (Option.some.inj hop)
      exact (atomic_resume_iff hs.initEnd).mp hstep
    · cases hop

/-- **Failing clocks.** In every initialised state the three calls are atomic exactly when the
clocks they ask for are on already or none of them fails; and along every run errors are atomic and
granted requests have their clocks exactly when no clock fails that a call asks for, and no request
that asks for none finds the clocks off. -/
theorem clock_failure_iff (s : EngineState) (clk : ClkResults) (i : Bool)
    (hinit : s.bInitEndFlag = 1) (ops : List ClockOp) :
    ((Atomic s (enableCedarHwClk s clk) ↔ s.clkStatus = 1 ∨ clk = .ok) ∧
      (Atomic s (ioctlEngineReq s i clk) ↔
        (AsksForClocks s i → s.clkStatus = 1 ∨ clk = .ok)) ∧
      (Atomic s (sunxiCedarResume s clk) ↔ s.refCount = 0 ∨ s.clkStatus = 1 ∨ clk = .ok)) ∧
    (clockMachine.Along ClockStep .init ops ↔
      clockMachine.Along (fun s op _ _ => ClockGuard s op) .init ops) := by
  constructor
  · exact ⟨atomic_enable_iff hinit, atomic_req_iff hinit, atomic_resume_iff hinit⟩
  · exact Machine.along_iff_guard clockStep_of_guard guard_of_clockStep clockInv_init ops

/-- After the probe, with an mbus clock that fails. -/
theorem clock_failure_iff_probed :
    Atomic ClockRun.init.dev (enableCedarHwClk ClockRun.init.dev ⟨true, false, true⟩) ↔
      ClockRun.init.dev.clkStatus = 1 ∨ (⟨true, false, true⟩ : ClkResults) = .ok :=
  (clock_failure_iff _ _ false rfl []).1.1

/-- The ve clock fails once; the next request succeeds with the ve clock off. -/
theorem failed_clock_stays_off :
    ¬((∀ (s : EngineState) (clk : ClkResults), s.bInitEndFlag = 1 →
      Atomic s (enableCedarHwClk s clk)) ∧ ∀ ops, clockMachine.Along ClockStep .init ops) := by
  rintro ⟨-, hall⟩
  have hstep := (hall ([.req false ⟨true, true, false⟩] ++ [.req false .ok])).at rfl rfl
  exact absurd (hstep.2 rfl).2.2 (by decide)

end LonganPi.Ve
