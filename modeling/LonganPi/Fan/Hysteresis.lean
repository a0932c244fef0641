import LonganPi.Kernel
import LonganPi.Lib.Run
import LonganPi.Lib.Staircase
import Mathlib.Data.Int.Order.Basic
import Mathlib.Order.MinMax

/-!
# The duty of the fan

Two programs drive the same fan: a sketch of a kernel driver and a script. Both walk a curve of
trip temperatures and duties, and both have a `duty_for_temp` with a hysteresis on the way down, so
that the duty does not chatter at a trip point.

The hysteresis looks at the points whose duty is *below* the one in force, each with its trip point
shifted down. The point whose duty is in force is not among them. Where the temperature falls below
its trip point, the duty drops at once, however wide the hysteresis is; what the shifted trip points
delay is the drop to the levels below. The law that is meant (`Law`) holds along a run exactly when
the temperature is never in the band of the point in force (`hysteresis_iff`).

Duties and temperatures are integers; the difference of a trip point and the hysteresis is the
only arithmetic, and an `int` holds it wherever C gives it a meaning.
-/

open DriverLib

namespace LonganPi.Fan

/-- A point of the curve. -/
structure FanCurvePoint where
  tempMc : ℤ
  dutyPct : ℤ
  deriving DecidableEq

/-- What the two programs are written for: a curve that climbs, and a hysteresis. -/
structure FanTable where
  fanCurve : List FanCurvePoint
  hysteresisMc : ℤ
  climbs : Climbs FanCurvePoint.tempMc FanCurvePoint.dutyPct fanCurve
  hysteresis_nonneg : 0 ≤ hysteresisMc

/-! ### The sketch of the driver -/

/-- `fan_curve` and `FAN_HYSTERESIS_MC` of the sketch. -/
def fanCurve : FanTable where
  fanCurve := [⟨45000, 0⟩, ⟨50000, 25⟩, ⟨60000, 45⟩, ⟨70000, 65⟩, ⟨80000, 100⟩]
  hysteresisMc := 3000
  climbs := by decide
  hysteresis_nonneg := by decide

namespace Sketch

def dutyForTemp (F : FanTable) (tempMc lastDutyPct : ℤ) : ℤ :=
  let target := F.fanCurve.foldl (fun target p => if tempMc ≥ p.tempMc then p.dutyPct else target) 0
  if target < lastDutyPct then
    F.fanCurve.foldl (fun target p =>
      if lastDutyPct > p.dutyPct ∧ tempMc ≥ p.tempMc - F.hysteresisMc then max target p.dutyPct
      else target) target
  else target

def FAN_STARTUP_KICK_PCT : ℤ := 100

def FAN_PWM_PERIOD_NS : ℕ := 40000

/-- `struct pwm_state`, as far as it is set. -/
structure PwmState where
  period : ℕ
  dutyCycle : ℕ
  enabled : Bool

structure Lpi3hFan where
  pwm : PwmState
  currentDutyPct : ℤ

/-- `lpi3h_fan_set_duty`; `ret` is what `pwm_apply_state` returns. -/
def setDuty (ret : ℤ) (fan : Lpi3hFan) (dutyPct : ℤ) : ℤ × Lpi3hFan :=
  let state : PwmState :=
    { period := FAN_PWM_PERIOD_NS
      dutyCycle := (FAN_PWM_PERIOD_NS * dutyPct % 2 ^ 64).toNat / 100
      enabled := decide (dutyPct > 0) }
  if ret ≠ 0 then (ret, fan)
  else (0, { pwm := state, currentDutyPct := dutyPct })

/-- `lpi3h_fan_set_target`; `kick` and `apply` are what `pwm_apply_state` returns for the startup
kick and for the duty. -/
def setTarget (F : FanTable) (kick apply : ℤ) (fan : Lpi3hFan) (tempMc : ℤ) : ℤ × Lpi3hFan :=
  let target := dutyForTemp F tempMc fan.currentDutyPct
  let started := if fan.currentDutyPct = 0 ∧ target > 0 then setDuty kick fan FAN_STARTUP_KICK_PCT
    else (0, fan)
  if started.1 ≠ 0 then started
  else if target ≠ started.2.currentDutyPct then setDuty apply started.2 target
  else (0, started.2)

end Sketch

/-! ### The script -/

namespace Userspace

def dutyForTemp (F : FanTable) (MIN_SPIN_DUTY tempC : ℤ) (lastDutyPct : Option ℤ) : ℤ :=
  let target := F.fanCurve.foldl (fun target p => if tempC ≥ p.tempMc then p.dutyPct else target) 0
  let target := match lastDutyPct with
    | none => target
    | some last =>
      if target < last then
        F.fanCurve.foldl (fun target p =>
          if last > p.dutyPct ∧ tempC ≥ p.tempMc - F.hysteresisMc then max target p.dutyPct
          else target) target
      else target
  max target MIN_SPIN_DUTY

end Userspace

/-! ### The law -/

/-- What a duty `d` at the temperature `t` has to meet after the duty `last`: it is no lower than
that of a point that is reached, and not negative where none is; and a duty in force is kept as long
as its trip point, less the hysteresis, is reached. -/
structure Law (F : FanTable) (last : Option ℤ) (t d : ℤ) : Prop where
  required : ∀ p ∈ F.fanCurve, p.tempMc ≤ t → p.dutyPct ≤ d
  off : (∀ p ∈ F.fanCurve, t < p.tempMc) → 0 ≤ d
  held : ∀ p ∈ F.fanCurve, ∀ l ∈ last, p.dutyPct ≤ l → p.tempMc - F.hysteresisMc ≤ t → p.dutyPct ≤ d

/-- The temperature is in the band of no point whose duty is in force, except where the duty is no
higher than `floor`, or one that the fan has below the curve. -/
def OutOfBand (F : FanTable) (floor : Option ℤ) (last : Option ℤ) (t : ℤ) : Prop :=
  ∀ p ∈ F.fanCurve, last = some p.dutyPct → p.tempMc - F.hysteresisMc ≤ t → t < p.tempMc →
    (∃ m ∈ floor, p.dutyPct ≤ m) ∨ p.dutyPct ≤ 0 ∧ ∀ q ∈ F.fanCurve, t < q.tempMc

/-- `d` is the highest of the floor, the level reached, and the levels below `last` whose shifted
trip points are reached. -/
def IsDuty (F : FanTable) (floor last : Option ℤ) (t d : ℤ) : Prop :=
  ∀ x, x ≤ d ↔ (∃ m ∈ floor, x ≤ m) ∨
    x ≤ reached FanCurvePoint.tempMc FanCurvePoint.dutyPct F.fanCurve 0 t ∨
      ∃ l ∈ last, ∃ q ∈ F.fanCurve, (q.dutyPct < l ∧ q.tempMc - F.hysteresisMc ≤ t) ∧ x ≤ q.dutyPct

section

variable {F : FanTable} {floor last : Option ℤ} {t d : ℤ}

/-- A duty of this kind meets the law exactly out of the band of the point in force. -/
theorem IsDuty.law_iff (hd : IsDuty F floor last t d) :
    Law F last t d ↔ OutOfBand F floor last t := by
  constructor
  · intro h p hp hlast hband hbelow
    have hle : p.dutyPct ≤ d := h.held p hp _ hlast le_rfl hband
    rcases (hd _).mp hle with hfloor | hreached | ⟨l, hl, q, -, ⟨hql, -⟩, hpq⟩
    · exact Or.inl hfloor
    · rcases (level_le_reached_iff F.climbs hp).mp hreached with hpt | hnone
      · exact absurd hpt hbelow.not_ge
      · exact Or.inr hnone
    · -- the levels below the one in force are lower
      rw [hlast, Option.mem_some_iff] at hl
      omega
  · intro h
    have hreached : ∀ p ∈ F.fanCurve, p.tempMc ≤ t → p.dutyPct ≤ d := fun p hp hpt =>
      (hd _).mpr (Or.inr (Or.inl ((level_le_reached_iff F.climbs hp).mpr (Or.inl hpt))))
    refine ⟨hreached, fun hnone => ?_, fun p hp l hl hle hband => ?_⟩
    · exact (hd 0).mpr (Or.inr (Or.inl (reached_eq_ground hnone).ge))
    · by_cases hpt : p.tempMc ≤ t
      · exact hreached p hp hpt
      by_cases hlt : p.dutyPct < l
      · exact (hd _).mpr (Or.inr (Or.inr ⟨l, hl, p, hp, ⟨hlt, hband⟩, le_rfl⟩))
      · have hforce : last = some p.dutyPct := by
          rw [Option.mem_def.mp hl, le_antisymm hle (not_lt.mp hlt)]
        rcases h p hp hforce hband (not_le.mp hpt) with hfloor | hnone
        · exact (hd _).mpr (Or.inl hfloor)
        · have hground := (level_le_reached_iff F.climbs hp).mpr (Or.inr hnone)
          exact (hd _).mpr (Or.inr (Or.inl hground))

end

theorem Sketch.isDuty (F : FanTable) (t l : ℤ) :
    IsDuty F none (some l) t (Sketch.dutyForTemp F t l) := by
  intro x
  set target := reached FanCurvePoint.tempMc FanCurvePoint.dutyPct F.fanCurve 0 t
  have hdef : Sketch.dutyForTemp F t l = if target < l then
      raised FanCurvePoint.dutyPct (fun q => q.dutyPct < l ∧ q.tempMc - F.hysteresisMc ≤ t)
        F.fanCurve target else target := rfl
  have hiff : x ≤ Sketch.dutyForTemp F t l ↔ x ≤ target ∨
      ∃ q ∈ F.fanCurve, (q.dutyPct < l ∧ q.tempMc - F.hysteresisMc ≤ t) ∧ x ≤ q.dutyPct := by
    rw [hdef]
    split
    · exact le_raised_iff
    · -- the levels below `l` are reached already
      rename_i hl
      refine ⟨Or.inl, ?_⟩
      rintro (h | ⟨q, -, hq, hx⟩)
      · exact h
      · omega
  simp [hiff]

theorem Userspace.isDuty (F : FanTable) (floor t : ℤ) (last : Option ℤ) :
    IsDuty F (some floor) last t (Userspace.dutyForTemp F floor t last) := by
  intro x
  cases last with
  | none =>
    have hdef : Userspace.dutyForTemp F floor t none
        = max (reached FanCurvePoint.tempMc FanCurvePoint.dutyPct F.fanCurve 0 t) floor := rfl
    rw [hdef, le_max_iff]
    simp [or_comm]
  | some l =>
    have hdef : Userspace.dutyForTemp F floor t (some l)
        = max (Sketch.dutyForTemp F t l) floor := rfl
    rw [hdef, le_max_iff, Sketch.isDuty F t l x, or_comm]
    simp

/-! ### Runs -/

/-- The duties of the sketch for a sequence of temperatures. -/
def sketch (F : FanTable) : Machine ℤ ℤ ℤ where
  step last t := some (Sketch.dutyForTemp F t last, Sketch.dutyForTemp F t last)

/-- The duties of the script. -/
def script (F : FanTable) (MIN_SPIN_DUTY : ℤ) : Machine (Option ℤ) ℤ ℤ where
  step last t := some (Userspace.dutyForTemp F MIN_SPIN_DUTY t last,
    some (Userspace.dutyForTemp F MIN_SPIN_DUTY t last))

section

variable {F : FanTable}

/-- With the floor 0 the script computes the duty of the sketch, raised to the floor. -/
theorem Userspace.dutyForTemp_zero (F : FanTable) (t l : ℤ) :
    Userspace.dutyForTemp F 0 t (some (max l 0)) = max (Sketch.dutyForTemp F t l) 0 := by
  refine eq_of_forall_le_iff fun x => ?_
  rw [Userspace.isDuty F 0 t _ x, le_max_iff, Sketch.isDuty F t l x]
  simp only [Option.mem_some_iff, exists_eq_left', Option.not_mem_none, false_and, exists_false,
    false_or]
  constructor
  · rintro (h | h | ⟨q, hq, ⟨hlt, hband⟩, hx⟩)
    · exact Or.inr h
    · exact Or.inl (Or.inl h)
    · rcases lt_max_iff.mp hlt with hlt | hlt
      · exact Or.inl (Or.inr ⟨q, hq, ⟨hlt, hband⟩, hx⟩)
      · exact Or.inr (hx.trans hlt.le)
  · rintro ((h | ⟨q, hq, ⟨hlt, hband⟩, hx⟩) | h)
    · exact Or.inr (Or.inl h)
    · exact Or.inr (Or.inr ⟨q, hq, ⟨lt_max_of_lt_left hlt, hband⟩, hx⟩)
    · exact Or.inl h

theorem script_zero_exec (F : FanTable) (l : ℤ) (temps : List ℤ) :
    (script F 0).exec (some (max l 0)) temps
      = ((sketch F).exec l temps).map fun d => some (max d 0) := by
  refine Machine.exec_map (f := fun d => some (max d 0)) (fun d t => ?_) l temps
  have h := Userspace.dutyForTemp_zero F t d
  simp only [script, sketch, Option.map_some, h]

/-- **The fan control meets its law along a run exactly when the temperature is out of the band of
the point in force at every step.** With the floor 0 the script computes the duties of the sketch,
raised to the floor. -/
theorem hysteresis_iff (F : FanTable) (MIN_SPIN_DUTY : ℤ) (temps : List ℤ) :
    ((sketch F).Along (fun last t d _ => Law F (some last) t d) 0 temps ↔
      (sketch F).Along (fun last t _ _ => OutOfBand F none (some last) t) 0 temps) ∧
    (∀ last, (script F MIN_SPIN_DUTY).Along (fun last t d _ => MIN_SPIN_DUTY ≤ d ∧ Law F last t d)
        last temps ↔
      (script F MIN_SPIN_DUTY).Along (fun last t _ _ => OutOfBand F (some MIN_SPIN_DUTY) last t)
        last temps) ∧
    (script F 0).exec (some 0) temps
      = ((sketch F).exec 0 temps).map fun d => some (max d 0) := by
  refine ⟨?_, fun last => ?_, script_zero_exec F 0 temps⟩
  · refine Machine.along_congr (fun _ _ _ _ (h : True) _ => h) ?_ trivial temps
    intro l t d l' _ hstep
    obtain ⟨rfl, rfl⟩ : Sketch.dutyForTemp F t l = d ∧ Sketch.dutyForTemp F t l = l' := by
      simpa [sketch] using hstep
    exact (Sketch.isDuty F t l).law_iff
  · refine Machine.along_congr (fun _ _ _ _ (h : True) _ => h) ?_ trivial temps
    intro l t d l' _ hstep
    obtain ⟨rfl, rfl⟩ : Userspace.dutyForTemp F MIN_SPIN_DUTY t l = d ∧
        some (Userspace.dutyForTemp F MIN_SPIN_DUTY t l) = l' := by
      simpa [script] using hstep
    have hd := Userspace.isDuty F MIN_SPIN_DUTY t l
    have hfloor : MIN_SPIN_DUTY ≤ Userspace.dutyForTemp F MIN_SPIN_DUTY t l :=
      (hd _).mpr (Or.inl ⟨_, rfl, le_rfl⟩)
    rw [hd.law_iff]
    exact and_iff_right hfloor

/-- 60 degrees, then 59: the duty of the point at 60 degrees is in force, and the fan slows down
although the hysteresis is 3 degrees. -/
theorem drops_inside_band :
    ¬ (sketch fanCurve).Along (fun last t d _ => Law fanCurve (some last) t d) 0
      [60000, 59000] := by
  intro h
  have hlaw := (h _ _ rfl).2 _ _ rfl |>.1
  have hheld := hlaw.held ⟨60000, 45⟩ (by decide) _ rfl (by decide) (by decide)
  exact absurd hheld (by decide)

/-- Below its trip point a duty is given up at once, whatever the hysteresis. -/
theorem Sketch.dutyForTemp_lt {p : FanCurvePoint} {t : ℤ} (hp : p ∈ F.fanCurve)
    (hpos : 0 < p.dutyPct) (hbelow : t < p.tempMc) :
    Sketch.dutyForTemp F t p.dutyPct < p.dutyPct := by
  by_contra hge
  rcases (Sketch.isDuty F t p.dutyPct _).mp (not_lt.mp hge) with ⟨m, hm, -⟩ | hreached | hlower
  · simp at hm
  · rcases (level_le_reached_iff F.climbs hp).mp hreached with hpt | ⟨hle, -⟩
    · omega
    · omega
  · obtain ⟨l, hl, q, -, ⟨hlt, -⟩, hle⟩ := hlower
    rw [Option.mem_some_iff] at hl
    omega

/-- Without a hysteresis there is no band, so the law holds along every run. -/
theorem law_of_no_hysteresis (h : F.hysteresisMc = 0) (temps : List ℤ) :
    (sketch F).Along (fun last t d _ => Law F (some last) t d) 0 temps := by
  refine Machine.along_inv (fun l t d l' (hany : True) hstep => ⟨hany, ?_⟩) trivial temps
  obtain ⟨rfl, -⟩ : Sketch.dutyForTemp F t l = d ∧ Sketch.dutyForTemp F t l = l' := by
    simpa [sketch] using hstep
  refine (Sketch.isDuty F t l).law_iff.mpr fun p _ _ hband hbelow => ?_
  omega

/-- What the law says of a whole run: a duty that is in force stays as long as the temperature does
not fall below its shifted trip point. -/
theorem Law.held_along {p : FanCurvePoint} (hp : p ∈ F.fanCurve) {l d : ℤ} {temps : List ℤ}
    (h : (sketch F).Along (fun last t d _ => Law F (some last) t d) l temps) (hl : p.dutyPct ≤ l)
    (ht : ∀ t ∈ temps, p.tempMc - F.hysteresisMc ≤ t) (hd : (sketch F).exec l temps = some d) :
    p.dutyPct ≤ d := by
  induction temps generalizing l with
  | nil =>
    rw [Machine.exec_nil, Option.some.injEq] at hd
    exact hd ▸ hl
  | cons t temps ih =>
    obtain ⟨o, l', hstep, hrest⟩ := Machine.exec_cons_some hd
    obtain ⟨hlaw, hrun⟩ := h o l' hstep
    obtain ⟨rfl, rfl⟩ : Sketch.dutyForTemp F t l = o ∧ Sketch.dutyForTemp F t l = l' := by
      simpa [sketch] using hstep
    exact ih hrun (hlaw.held p hp l rfl hl (ht t List.mem_cons_self))
      (fun u hu => ht u (List.mem_cons_of_mem t hu)) hrest

/-! ### The driver around the sketch -/

/-- Calls of `lpi3h_fan_set_target`: the temperature, and what `pwm_apply_state` returns. -/
def driver (F : FanTable) : Machine Sketch.Lpi3hFan (ℤ × ℤ × ℤ) ℤ where
  step fan op := some (Sketch.setTarget F op.2.1 op.2.2 fan op.1)

/-- A call that succeeds has set the duty for the temperature, with a kick before it or not. -/
theorem Sketch.setTarget_ok {kick apply t : ℤ} {fan : Lpi3hFan}
    (h : (setTarget F kick apply fan t).1 = 0) :
    (setTarget F kick apply fan t).2.currentDutyPct = dutyForTemp F t fan.currentDutyPct := by
  simp only [setTarget, setDuty] at h ⊢
  split_ifs at h ⊢ <;> simp_all

/-- After a call that fails the fan has the duty from before, or that of the kick. -/
theorem Sketch.setTarget_failed {kick apply t : ℤ} {fan : Lpi3hFan}
    (h : (setTarget F kick apply fan t).1 ≠ 0) :
    (setTarget F kick apply fan t).2 = fan ∨
      (setTarget F kick apply fan t).2.currentDutyPct = FAN_STARTUP_KICK_PCT := by
  simp only [setTarget, setDuty] at h ⊢
  split_ifs at h ⊢ <;> simp_all

/-- While its calls succeed, the driver feeds `duty_for_temp` with the previous result. -/
theorem driver_exec {fan fan' : Sketch.Lpi3hFan} {ops : List (ℤ × ℤ × ℤ)}
    (hok : (driver F).Along (fun _ _ ret _ => ret = 0) fan ops)
    (h : (driver F).exec fan ops = some fan') :
    (sketch F).exec fan.currentDutyPct (ops.map Prod.fst) = some fan'.currentDutyPct := by
  induction ops generalizing fan with
  | nil =>
    rw [Machine.exec_nil, Option.some.injEq] at h
    exact congrArg (fun f => some f.currentDutyPct) h
  | cons op ops ih =>
    obtain ⟨ret, fan₁, hstep, hrest⟩ := Machine.exec_cons_some h
    obtain ⟨hret, hrun⟩ := hok ret fan₁ hstep
    have hset : Sketch.setTarget F op.2.1 op.2.2 fan op.1 = (ret, fan₁) := Option.some.inj hstep
    have hduty : (Sketch.setTarget F op.2.1 op.2.2 fan op.1).2.currentDutyPct
        = Sketch.dutyForTemp F op.1 fan.currentDutyPct := Sketch.setTarget_ok (by rw [hset, hret])
    rw [hset] at hduty
    rw [List.map_cons, Machine.exec_cons, ← ih hrun hrest, hduty]
    rfl

end

end LonganPi.Fan
