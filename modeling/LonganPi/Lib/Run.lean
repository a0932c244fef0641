import Mathlib.Data.List.Basic
import Mathlib.Logic.Basic

/-!
# Runs of a machine whose calls take effect one at a time

A `Machine` is a partial step function: `step s op` is the result of the call `op` in the state
`s` and the state after it, or `none` when the call is not enabled there (it blocks, or the
environment may not issue it). A run is a list of calls.

* `Machine.exec` is the state a run ends in, `none` when one of its calls is not enabled.
* `Machine.Along P` says that `P` holds of every step a run takes; the step relation `P` sees the
  state before the call, the call, what it returned and the state after it. A state property is
  the special case that reads the last argument only.

Six rules are used throughout. `exec_inv` carries an invariant to the end of a run, `exec_map` a map
of the states that commutes with the steps of two machines. `along_inv` reads a step property off an
invariant at every step, and `along_congr` exchanges two step properties that agree under an
invariant. `along_of_guard` does the work of the invariant rules for an invariant that only guarded
steps keep. `along_iff_guard` characterises the runs along which a step property holds: if a guarded
step keeps the invariant and has the property, and an unguarded one lacks it, then the property
holds along a run exactly when every step of the run is guarded. Only the *first* unguarded step
matters, so nothing has to be known about the states behind it.
-/

namespace DriverLib

/-- A machine with states `State`, calls `Op` and results `Out`. -/
structure Machine (State Op Out : Type*) where
  /-- The result and the next state, `none` when the call is not enabled. -/
  step : State → Op → Option (Out × State)

namespace Machine

variable {State Op Out : Type*} (M : Machine State Op Out)

/-- The state in which a run ends. -/
def exec : State → List Op → Option State
  | s, [] => some s
  | s, op :: ops => (M.step s op).bind fun r => exec r.2 ops

/-- `P` holds of every step that the run takes. A call that is not enabled ends the run. -/
def Along (P : State → Op → Out → State → Prop) : State → List Op → Prop
  | _, [] => True
  | s, op :: ops => ∀ o s', M.step s op = some (o, s') → P s op o s' ∧ Along P s' ops

variable {M}

@[simp] theorem exec_nil (s : State) : M.exec s [] = some s := rfl

theorem exec_cons (s : State) (op : Op) (ops : List Op) :
    M.exec s (op :: ops) = (M.step s op).bind fun r => M.exec r.2 ops := rfl

theorem exec_append (s : State) (xs ys : List Op) :
    M.exec s (xs ++ ys) = (M.exec s xs).bind fun t => M.exec t ys := by
  induction xs generalizing s with
  | nil => rfl
  | cons op xs ih =>
    rw [List.cons_append, exec_cons, exec_cons]
    cases M.step s op with
    | none => rfl
    | some r => exact ih r.2

/-- A run that ends in a state takes its first call somewhere. -/
theorem exec_cons_some {s t : State} {op : Op} {ops : List Op}
    (h : M.exec s (op :: ops) = some t) :
    ∃ o u, M.step s op = some (o, u) ∧ M.exec u ops = some t := by
  rw [exec_cons, Option.bind_eq_some_iff] at h
  obtain ⟨⟨o, u⟩, hstep, hrest⟩ := h
  exact ⟨o, u, hstep, hrest⟩

/-- **The invariant rule.** What a step preserves, a run preserves. -/
theorem exec_inv {Inv : State → Prop}
    (hstep : ∀ s op o s', Inv s → M.step s op = some (o, s') → Inv s')
    {s t : State} {ops : List Op} (h₀ : Inv s) (h : M.exec s ops = some t) : Inv t := by
  induction ops generalizing s with
  | nil =>
    rw [exec_nil, Option.some.injEq] at h
    exact h ▸ h₀
  | cons op ops ih =>
    obtain ⟨o, u, hop, hrest⟩ := exec_cons_some h
    exact ih (hstep s op o u h₀ hop) hrest

/-- **The simulation rule.** When each step of a machine is a step of another one on the images of
the states, so is each run. -/
theorem exec_map {State' Out' : Type*} {N : Machine State' Op Out'} {f : State → State'}
    (hstep : ∀ s op, (N.step (f s) op).map Prod.snd = (M.step s op).map fun r => f r.2)
    (s : State) (ops : List Op) : N.exec (f s) ops = (M.exec s ops).map f := by
  induction ops generalizing s with
  | nil => rfl
  | cons op ops ih =>
    rw [exec_cons, exec_cons]
    have h := hstep s op
    cases hM : M.step s op with
    | none =>
      rw [hM, Option.map_none, Option.map_eq_none_iff] at h
      rw [h]
      rfl
    | some r =>
      rw [hM, Option.map_some, Option.map_eq_some_iff] at h
      obtain ⟨r', hN, hr'⟩ := h
      rw [hN, Option.bind_some, Option.bind_some, hr', ih]

/-- What holds along a run holds of each step in it. -/
theorem Along.at {P : State → Op → Out → State → Prop} {s t u : State} {op : Op} {o : Out}
    {pre post : List Op} (h : M.Along P s (pre ++ op :: post)) (hpre : M.exec s pre = some t)
    (hop : M.step t op = some (o, u)) : P t op o u := by
  induction pre generalizing s with
  | nil =>
    rw [exec_nil, Option.some.injEq] at hpre
    subst hpre
    exact (h o u hop).1
  | cons a pre ih =>
    obtain ⟨o', v, ha, hrest⟩ := exec_cons_some hpre
    exact ih (h o' v ha).2 hrest

/-- A step property that the invariant yields holds along every run. -/
theorem along_inv {Inv : State → Prop} {P : State → Op → Out → State → Prop}
    (hstep : ∀ s op o s', Inv s → M.step s op = some (o, s') → Inv s' ∧ P s op o s')
    {s : State} (h₀ : Inv s) (ops : List Op) : M.Along P s ops := by
  induction ops generalizing s with
  | nil => trivial
  | cons op ops ih =>
    intro o s' hop
    obtain ⟨hI, hP⟩ := hstep s op o s' h₀ hop
    exact ⟨hP, ih hI⟩

/-- Two step properties that agree in the states of an invariant agree along runs. -/
theorem along_congr {Inv : State → Prop} {P Q : State → Op → Out → State → Prop}
    (hinv : ∀ s op o s', Inv s → M.step s op = some (o, s') → Inv s')
    (hiff : ∀ s op o s', Inv s → M.step s op = some (o, s') → (P s op o s' ↔ Q s op o s'))
    {s : State} (h₀ : Inv s) (ops : List Op) : M.Along P s ops ↔ M.Along Q s ops := by
  induction ops generalizing s with
  | nil => exact Iff.rfl
  | cons op ops ih =>
    refine forall_congr' fun o => forall_congr' fun s' => forall_congr' fun hop => ?_
    exact and_congr (hiff s op o s' h₀ hop) (ih (hinv s op o s' h₀ hop))

/-- **The guard rule.** A guarded step keeps the invariant and has the property `P`; then a guarded
run has `P` at every step, and the invariant at its end. -/
theorem along_of_guard {Inv : State → Prop} {G : State → Op → Prop}
    {P : State → Op → Out → State → Prop}
    (hkeep : ∀ s op o s', Inv s → M.step s op = some (o, s') → G s op → Inv s' ∧ P s op o s')
    {s : State} (h₀ : Inv s) {ops : List Op} (hg : M.Along (fun s op _ _ => G s op) s ops) :
    M.Along P s ops ∧ ∀ t, M.exec s ops = some t → Inv t := by
  induction ops generalizing s with
  | nil =>
    refine ⟨trivial, fun t ht => ?_⟩
    rw [exec_nil, Option.some.injEq] at ht
    exact ht ▸ h₀
  | cons op ops ih =>
    constructor
    · intro o s' hop
      obtain ⟨hG, hrest⟩ := hg o s' hop
      obtain ⟨hI, hP⟩ := hkeep s op o s' h₀ hop hG
      exact ⟨hP, (ih hI hrest).1⟩
    · intro t ht
      obtain ⟨o, u, hop, hrun⟩ := exec_cons_some ht
      obtain ⟨hG, hrest⟩ := hg o u hop
      exact (ih (hkeep s op o u h₀ hop hG).1 hrest).2 t hrun

/-- **The exactness rule.** A guarded step keeps the invariant and has the property `P`, an
unguarded step lacks `P`. Then `P` holds along a run exactly when every step of it is guarded. -/
theorem along_iff_guard {Inv : State → Prop} {G : State → Op → Prop}
    {P : State → Op → Out → State → Prop}
    (hkeep : ∀ s op o s', Inv s → M.step s op = some (o, s') → G s op → Inv s' ∧ P s op o s')
    (hexact : ∀ s op o s', Inv s → M.step s op = some (o, s') → P s op o s' → G s op)
    {s : State} (h₀ : Inv s) (ops : List Op) :
    M.Along P s ops ↔ M.Along (fun s op _ _ => G s op) s ops := by
  refine ⟨fun h => ?_, fun hg => (along_of_guard hkeep h₀ hg).1⟩
  induction ops generalizing s with
  | nil => trivial
  | cons op ops ih =>
    intro o s' hop
    obtain ⟨hP, hrest⟩ := h o s' hop
    have hG : G s op := hexact s op o s' h₀ hop hP
    exact ⟨hG, ih (hkeep s op o s' h₀ hop hG).1 hrest⟩

end Machine

end DriverLib
