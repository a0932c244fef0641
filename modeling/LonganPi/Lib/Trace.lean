import LonganPi.Lib.Run

/-!
# What a run puts out

The machines of `Machine` whose calls return a list of outputs. `trace` collects the outputs of a
run, in order, and the state the run ends in.

The rules are these. `trace_inv_guarded` is the invariant rule with the history in the invariant:
the calls made, the outputs so far and the state; `trace_inv` is the rule for runs without a guard,
and `guarded_of_inv` shows the guard from an invariant.
`trace_sim` is refinement: when each step of a machine is matched by a step of another one, with
outputs that are the images of the other's, then so is each run. `trace_progress` is for machines on
which a call that is not enabled is a failure: when a guarded call is enabled and keeps the
invariant, a run whose calls are all guarded gets to its end. `trace_reaches` finds a run that ends
where it should.
-/

namespace DriverLib

namespace Machine

variable {State State' Op Op' Out Out' : Type*}

/-- The outputs of a run and the state it ends in. -/
def trace (M : Machine State Op (List Out)) : State → List Op → Option (List Out × State)
  | s, [] => some ([], s)
  | s, op :: ops =>
    (M.step s op).bind fun r => (trace M r.2 ops).map fun t => (r.1 ++ t.1, t.2)

variable {M : Machine State Op (List Out)}

theorem trace_cons (s : State) (op : Op) (ops : List Op) :
    M.trace s (op :: ops) =
      (M.step s op).bind fun r => (M.trace r.2 ops).map fun t => (r.1 ++ t.1, t.2) := rfl

/-- A run takes its first call, and then the rest. -/
theorem trace_cons_some {s t : State} {op : Op} {ops : List Op} {outs : List Out}
    (h : M.trace s (op :: ops) = some (outs, t)) :
    ∃ o u outs', M.step s op = some (o, u) ∧ M.trace u ops = some (outs', t) ∧
      outs = o ++ outs' := by
  rw [trace_cons, Option.bind_eq_some_iff] at h
  obtain ⟨⟨o, u⟩, hstep, hrest⟩ := h
  obtain ⟨⟨outs', t'⟩, hrun, heq⟩ := Option.map_eq_some_iff.mp hrest
  obtain ⟨rfl, rfl⟩ := Prod.mk.inj heq
  exact ⟨o, u, outs', hstep, hrun, rfl⟩

theorem trace_cons_of {s u t : State} {op : Op} {ops : List Op} {o outs : List Out}
    (hstep : M.step s op = some (o, u)) (hrun : M.trace u ops = some (outs, t)) :
    M.trace s (op :: ops) = some (o ++ outs, t) := by
  rw [trace_cons, hstep, Option.bind_some, hrun, Option.map_some]

theorem trace_append {s u t : State} {xs ys : List Op} {o outs : List Out}
    (h₁ : M.trace s xs = some (o, u)) (h₂ : M.trace u ys = some (outs, t)) :
    M.trace s (xs ++ ys) = some (o ++ outs, t) := by
  induction xs generalizing s o with
  | nil =>
    obtain ⟨rfl, rfl⟩ := Prod.mk.inj (Option.some.inj h₁)
    exact h₂
  | cons op xs ih =>
    obtain ⟨o', v, o'', hstep, hrest, rfl⟩ := trace_cons_some h₁
    rw [List.cons_append, List.append_assoc]
    exact trace_cons_of hstep (ih hrest)

/-- Every call of the run meets the guard in the state it is made in. -/
def Guarded (M : Machine State Op Out) (G : State → Op → Prop) : State → List Op → Prop
  | _, [] => True
  | s, op :: ops => G s op ∧ ∀ o t, M.step s op = some (o, t) → Guarded M G t ops

theorem guarded_cons {G : State → Op → Prop} {s : State} {op : Op} {ops : List Op} :
    M.Guarded G s (op :: ops) ↔ G s op ∧ ∀ r ∈ M.step s op, M.Guarded G r.2 ops :=
  and_congr_right' ⟨fun h r hr => h r.1 r.2 hr, fun h o t hr => h (o, t) hr⟩

/-- The guards of a run can be checked by running it. -/
instance Guarded.decidable {G : State → Op → Prop} [∀ s op, Decidable (G s op)] :
    ∀ s ops, Decidable (M.Guarded G s ops)
  | _, [] => isTrue trivial
  | _, _ :: ops =>
    have : ∀ t, Decidable (M.Guarded G t ops) := fun t => Guarded.decidable t ops
    decidable_of_iff' _ guarded_cons

theorem guarded_true (s : State) (ops : List Op) : M.Guarded (fun _ _ => True) s ops := by
  induction ops generalizing s with
  | nil => trivial
  | cons op ops ih => exact ⟨trivial, fun _ t _ => ih t⟩

/-- The calls of a run meet a guard that follows from an invariant and a condition on each call. -/
theorem guarded_of_inv {G : State → Op → Prop} {Inv : State → Prop} {P : Op → Prop}
    (hG : ∀ s op, Inv s → P op → G s op)
    (hstep : ∀ s op o t, Inv s → P op → M.step s op = some (o, t) → Inv t) {s : State}
    {ops : List Op} (hs : Inv s) (hops : ∀ op ∈ ops, P op) : M.Guarded G s ops := by
  induction ops generalizing s with
  | nil => trivial
  | cons op ops ih =>
    obtain ⟨hop, hops⟩ := List.forall_mem_cons.mp hops
    exact ⟨hG s op hs hop, fun o t hrun => ih (hstep s op o t hs hop hrun) hops⟩

/-- **The history rule.** An invariant of the calls made, the outputs so far and the state that
holds at the start and that each guarded step extends holds at the end of each guarded run. -/
theorem trace_inv_guarded {G : State → Op → Prop} {P : List Op → List Out → State → Prop}
    (hstep : ∀ ops outs s op o s', P ops outs s → G s op → M.step s op = some (o, s') →
      P (ops ++ [op]) (outs ++ o) s')
    {s t : State} {ops : List Op} {outs : List Out} (h₀ : P [] [] s) (hg : M.Guarded G s ops)
    (h : M.trace s ops = some (outs, t)) : P ops outs t := by
  -- the history before the run is generalised
  suffices H : ∀ pre preOuts, P pre preOuts s → P (pre ++ ops) (preOuts ++ outs) t from H [] [] h₀
  clear h₀
  induction ops generalizing s outs with
  | nil =>
    obtain ⟨rfl, rfl⟩ := Prod.mk.inj (Option.some.inj h)
    intro pre preOuts hpre
    rwa [List.append_nil, List.append_nil]
  | cons op ops ih =>
    obtain ⟨hG, hguard⟩ := hg
    obtain ⟨o, u, outs', hop, hrest, rfl⟩ := trace_cons_some h
    intro pre preOuts hpre
    have := ih (hguard o u hop) hrest (pre ++ [op]) (preOuts ++ o)
      (hstep pre preOuts s op o u hpre hG hop)
    rwa [List.append_assoc, List.append_assoc] at this

/-- The history rule for all runs. -/
theorem trace_inv {P : List Op → List Out → State → Prop}
    (hstep : ∀ ops outs s op o s', P ops outs s → M.step s op = some (o, s') →
      P (ops ++ [op]) (outs ++ o) s')
    {s t : State} {ops : List Op} {outs : List Out} (h₀ : P [] [] s)
    (h : M.trace s ops = some (outs, t)) : P ops outs t :=
  trace_inv_guarded (fun ops outs s op o s' hP _ => hstep ops outs s op o s' hP) h₀
    (guarded_true s ops) h

/-- **The refinement rule.** Steps that are matched, with outputs that are the images of the other
machine's, make runs that are. -/
theorem trace_sim {N : Machine State' Op' (List Out')} {R : State → State' → Prop} {g : Op → Op'}
    {f : Out' → Out}
    (hstep : ∀ s a op o s', R s a → M.step s op = some (o, s') →
      ∃ o' a', N.step a (g op) = some (o', a') ∧ o'.map f = o ∧ R s' a')
    {s t : State} {a : State'} {ops : List Op} {outs : List Out} (hR : R s a)
    (h : M.trace s ops = some (outs, t)) :
    ∃ outs' b, N.trace a (ops.map g) = some (outs', b) ∧ outs'.map f = outs ∧ R t b := by
  induction ops generalizing s a outs with
  | nil =>
    obtain ⟨rfl, rfl⟩ := Prod.mk.inj (Option.some.inj h)
    exact ⟨[], a, rfl, rfl, hR⟩
  | cons op ops ih =>
    obtain ⟨o, u, rest, hop, hrest, rfl⟩ := trace_cons_some h
    obtain ⟨o', a', hN, rfl, hR'⟩ := hstep s a op o u hR hop
    obtain ⟨outs', b, hrun, rfl, hRt⟩ := ih hR' hrest
    exact ⟨o' ++ outs', b, trace_cons_of hN hrun, List.map_append, hRt⟩

/-- **The progress rule.** -/
theorem trace_progress {G : State → Op → Prop} {P : List Op → List Out → State → Prop}
    (hstep : ∀ ops outs s op, P ops outs s → G s op →
      ∃ o t, M.step s op = some (o, t) ∧ P (ops ++ [op]) (outs ++ o) t)
    {s : State} {ops : List Op} (h₀ : P [] [] s) (hg : M.Guarded G s ops) :
    ∃ outs t, M.trace s ops = some (outs, t) ∧ P ops outs t := by
  -- the history before the run is generalised
  suffices H : ∀ pre preOuts, P pre preOuts s →
      ∃ outs t, M.trace s ops = some (outs, t) ∧ P (pre ++ ops) (preOuts ++ outs) t from H [] [] h₀
  clear h₀
  induction ops generalizing s with
  | nil =>
    intro pre preOuts hpre
    exact ⟨[], s, rfl, by rwa [List.append_nil, List.append_nil]⟩
  | cons op ops ih =>
    intro pre preOuts hpre
    obtain ⟨hG, hrest⟩ := hg
    obtain ⟨o, u, hop, hP⟩ := hstep pre preOuts s op hpre hG
    obtain ⟨outs, t, hrun, hend⟩ := ih (hrest o u hop) (pre ++ [op]) (preOuts ++ o) hP
    refine ⟨o ++ outs, t, trace_cons_of hop hrun, ?_⟩
    rwa [List.append_assoc, List.append_assoc] at hend

/-- **The drain rule.** When each state that is not done has a call that lowers a measure, some run
gets to a state that is. -/
theorem trace_reaches {Inv Done : State → Prop} {μ : State → ℕ} {P : Op → Prop}
    (hstep : ∀ s, Inv s → ¬Done s →
      ∃ op o t, P op ∧ M.step s op = some (o, t) ∧ Inv t ∧ μ t < μ s)
    {s : State} (hs : Inv s) :
    ∃ ops outs t, (∀ op ∈ ops, P op) ∧ M.trace s ops = some (outs, t) ∧ Inv t ∧ Done t := by
  induction hn : μ s using Nat.strongRecOn generalizing s with
  | ind n ih =>
    by_cases hd : Done s
    · exact ⟨[], [], s, fun _ h => absurd h List.not_mem_nil, rfl, hs, hd⟩
    · obtain ⟨op, o, t, hop, hrun, ht, hlt⟩ := hstep s hs hd
      obtain ⟨ops, outs, u, hops, hrest, hu⟩ := ih (μ t) (hn ▸ hlt) ht rfl
      exact ⟨op :: ops, o ++ outs, u, List.forall_mem_cons.mpr ⟨hop, hops⟩,
        trace_cons_of hrun hrest, hu⟩

end Machine

end DriverLib
