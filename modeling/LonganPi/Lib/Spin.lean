import LonganPi.Lib.Run

/-!
# Code under a lock that does not nest

`Code σ α` is what one context runs: it reads and changes a state `σ`, takes and gives back one
lock, and returns an `α`. A context that takes the lock while it holds it waits for itself and
never comes back; nobody can give back a lock that is not held.

* `Code.exec` is what the code leaves: its result, `none` when it does not come back, whether the
  lock is held, and the state.
* `Code.trace` is what it does with the lock, up to and including what it does not come back from.
* `Bracketed` traces are those in which every acquisition is followed by its release.

`bracketed_trace_iff` makes the two views one: from a free lock the trace is bracketed exactly when
the code comes back and leaves the lock free. `exec_bind` lets code that calls other code be
followed call by call. `along_bracketed_iff` carries a condition for single calls to runs of them.
-/

namespace DriverLib

/-- What a context does with the lock. -/
inductive SpinOp
  | acquire
  | release
  deriving DecidableEq

/-- Every acquisition is followed by its release. -/
inductive Bracketed : List SpinOp → Prop
  | nil : Bracketed []
  | pair {l : List SpinOp} (h : Bracketed l) : Bracketed (.acquire :: .release :: l)

/-- What a context runs. -/
inductive Code (σ α : Type) : Type
  | ret (a : α)
  | acquire (k : Code σ α)
  | release (k : Code σ α)
  | read (k : σ → Code σ α)
  | write (f : σ → σ) (k : Code σ α)

namespace Code

variable {σ α β : Type}

/-- One after the other. -/
def bind : Code σ α → (α → Code σ β) → Code σ β
  | .ret a, f => f a
  | .acquire k, f => .acquire (k.bind f)
  | .release k, f => .release (k.bind f)
  | .read k, f => .read fun s => (k s).bind f
  | .write g k, f => .write g (k.bind f)

instance : Monad (Code σ) where
  pure := .ret
  bind := .bind

/-- The lock is taken. -/
def spinLock : Code σ Unit := .acquire (.ret ())

/-- The lock is given back. -/
def spinUnlock : Code σ Unit := .release (.ret ())

/-- The state is read. -/
def get : Code σ σ := .read .ret

/-- The state is changed. -/
def modify (f : σ → σ) : Code σ Unit := .write f (.ret ())

/-- What the code returns, `none` when it does not come back, whether the lock is held then, and
the state. -/
def exec : Code σ α → Bool → σ → Option α × Bool × σ
  | .ret a, held, s => (some a, held, s)
  | .acquire k, held, s => if held then (none, held, s) else k.exec true s
  | .release k, held, s => if held then k.exec false s else (none, held, s)
  | .read k, held, s => (k s).exec held s
  | .write f k, held, s => k.exec held (f s)

/-- What the code does with the lock. -/
def trace : Code σ α → Bool → σ → List SpinOp
  | .ret _, _, _ => []
  | .acquire k, held, s => .acquire :: if held then [] else k.trace true s
  | .release k, held, s => .release :: if held then k.trace false s else []
  | .read k, held, s => (k s).trace held s
  | .write f k, held, s => k.trace held (f s)

/-! ### Execution -/

@[simp] theorem exec_pure (a : α) (held : Bool) (s : σ) :
    (pure a : Code σ α).exec held s = (some a, held, s) := rfl

/-- What is called comes back, or its caller does not either. -/
@[simp] theorem exec_bind (c : Code σ α) (f : α → Code σ β) (held : Bool) (s : σ) :
    (c >>= f).exec held s =
      match c.exec held s with
      | (some a, held', s') => (f a).exec held' s'
      | (none, held', s') => (none, held', s') := by
  change (c.bind f).exec held s = _
  induction c generalizing held s with
  | ret a => rfl
  | acquire k ih =>
    cases held with
    | false => exact ih true s
    | true => rfl
  | release k ih =>
    cases held with
    | false => rfl
    | true => exact ih false s
  | read k ih => exact ih s held s
  | write g k ih => exact ih held (g s)

/-- What is called comes back. -/
theorem exec_bind_of_some {c : Code σ α} {held held' : Bool} {s s' : σ} {a : α}
    (h : c.exec held s = (some a, held', s')) (f : α → Code σ β) :
    (c >>= f).exec held s = (f a).exec held' s' := by
  rw [exec_bind, h]

/-- What is called does not come back. -/
theorem exec_bind_of_none {c : Code σ α} {held held' : Bool} {s s' : σ}
    (h : c.exec held s = (none, held', s')) (f : α → Code σ β) :
    (c >>= f).exec held s = (none, held', s') := by
  rw [exec_bind, h]

@[simp] theorem exec_spinLock (s : σ) :
    (spinLock : Code σ Unit).exec false s = (some (), true, s) := rfl

@[simp] theorem exec_spinLock_held (s : σ) :
    (spinLock : Code σ Unit).exec true s = (none, true, s) := rfl

@[simp] theorem exec_spinUnlock (s : σ) :
    (spinUnlock : Code σ Unit).exec true s = (some (), false, s) := rfl

@[simp] theorem exec_get (held : Bool) (s : σ) :
    (get : Code σ σ).exec held s = (some s, held, s) := rfl

@[simp] theorem exec_modify (f : σ → σ) (held : Bool) (s : σ) :
    (modify f).exec held s = (some (), held, f s) := rfl

/-! ### Traces -/

theorem bracketed_pair_iff {l : List SpinOp} :
    Bracketed (.acquire :: .release :: l) ↔ Bracketed l :=
  ⟨fun h => by cases h; assumption, .pair⟩

/-- The context that holds the lock is in the middle of a pair. -/
theorem bracketed_trace (c : Code σ α) (s : σ) :
    (Bracketed (c.trace false s) ↔ ∃ a t, c.exec false s = (some a, false, t)) ∧
      (Bracketed (.acquire :: c.trace true s) ↔ ∃ a t, c.exec true s = (some a, false, t)) := by
  induction c generalizing s with
  | ret a =>
    refine ⟨iff_of_true .nil ⟨a, s, rfl⟩, iff_of_false ?_ ?_⟩
    · intro h
      cases h
    · rintro ⟨b, t, h⟩
      cases h
  | acquire k ih =>
    refine ⟨(ih s).2, iff_of_false ?_ ?_⟩
    · intro h
      cases h
    · rintro ⟨b, t, h⟩
      cases h
  | release k ih =>
    refine ⟨iff_of_false ?_ ?_, bracketed_pair_iff.trans (ih s).1⟩
    · intro h
      cases h
    · rintro ⟨b, t, h⟩
      cases h
  | read k ih => exact ih s s
  | write f k ih => exact ih (f s)

/-- From a free lock the trace is bracketed exactly when the code comes back and leaves the lock
free. -/
theorem bracketed_trace_iff (c : Code σ α) (s : σ) :
    Bracketed (c.trace false s) ↔ ∃ a t, c.exec false s = (some a, false, t) :=
  (bracketed_trace c s).1

/-! ### Runs of calls -/

variable {Op : Type}

/-- Calls, one after the other. Nothing goes on while the lock is held for good. -/
def machine (code : Op → Code σ α) : Machine (σ × Bool) Op (List SpinOp) where
  step s op :=
    if s.2 then none
    else
      let r := (code op).exec false s.1
      some ((code op).trace false s.1, (r.2.2, r.2.1))

/-- If single calls are bracketed under a condition, so are runs of them. -/
theorem along_bracketed_iff {code : Op → Code σ α} {G : σ → Op → Prop}
    (h : ∀ op s, Bracketed ((code op).trace false s) ↔ G s op) (s : σ) (ops : List Op) :
    (machine code).Along (fun _ _ o _ => Bracketed o) (s, false) ops ↔
      (machine code).Along (fun s op _ _ => G s.1 op) (s, false) ops := by
  have hkeep : ∀ (u : σ × Bool) op o v, u.2 = false → (machine code).step u op = some (o, v) →
      G u.1 op → v.2 = false ∧ Bracketed o := by
    rintro ⟨t, held⟩ op o v rfl hstep hG
    cases hstep
    obtain ⟨a, w, hexec⟩ := (bracketed_trace_iff _ t).mp ((h op t).mpr hG)
    exact ⟨congrArg (fun r => r.2.1) hexec, (h op t).mpr hG⟩
  have hexact : ∀ (u : σ × Bool) op o v, u.2 = false → (machine code).step u op = some (o, v) →
      Bracketed o → G u.1 op := by
    rintro ⟨t, held⟩ op o v rfl hstep hP
    cases hstep
    exact (h op t).mp hP
  exact Machine.along_iff_guard hkeep hexact rfl ops

end Code

end DriverLib
