import LonganPi.Pwm.Controller

/-!
# What a request leaves of the requests before it

A run on one channel, with `clk_bypass_output = 0`. The request that was applied last should decide
about the fields of the channel. The run that consists of this request alone is one of the runs, so
if the fields are a function of the last request, they are what `alone` says.

They are not in three cases. A field that the request does not write keeps what was written before:
a bypassed period sets the bypass bit and the clock source only, and no other period clears the
bypass bit (`held` is what a run leaves in such a field). A channel that is said to be running is
not turned on again, although an attempt to turn its polarity may have turned it off and failed. And
the polarity bit is always set when a channel is turned on, so an inverse polarity never reaches the
hardware. `apply_history_iff` says that there is no other case.
-/

open DriverLib

namespace LonganPi.Pwm

/-! ### The polarity bit along a run -/

/-- A channel that runs has the normal polarity. -/
def NormalWhenEnabled (s : State) : Prop :=
  ∀ i < 9, (s.states i).enabled = true → view s.regs i .actSta = 1

variable {byp : ℕ → ℕ}

theorem normalWhenEnabled_step {s s' : State} {op : Op} {ret : ℤ} (hs : NormalWhenEnabled s)
    (h : (controller byp).step s op = some (ret, s')) : NormalWhenEnabled s' := by
  obtain ⟨hchan, happly, hstates⟩ := step_cases h
  intro i hi hen
  by_cases hown : i = op.chan
  · subst hown
    by_cases hreq : op.request.enabled = true
    · exact view_apply_actSta hi hreq (hs _ hi) happly
    · -- a request that turns the channel off succeeds
      have hoff : (s'.states op.chan).enabled = op.request.enabled := by
        rcases apply_cases happly with ⟨-, rfl, -⟩ | ⟨hon, -⟩
        · rw [hstates, if_pos rfl, Function.update_self]
        · exact absurd hon hreq
      exact absurd (hoff.symm.trans hen) hreq
  · have hkeep : s'.states i = s.states i := by
      rw [hstates]
      split
      · exact Function.update_of_ne hown _ _
      · rfl
    rw [hkeep] at hen
    rw [view_apply hchan hi (by decide) (fun h => absurd h hown) happly, if_neg fun h => hown h.2]
    exact hs i hi hen

/-! ### The other fields along a run -/

/-- The fields of the timing. -/
def IsTiming (k : FieldName) : Prop := k ≠ .actSta ∧ k ≠ .per ∧ k ≠ .clkGating

instance (k : FieldName) : Decidable (IsTiming k) := inferInstanceAs (Decidable (_ ∧ _))

/-- What a request writes to them. -/
def requestWrite (r : PwmState) (k : FieldName) : Option ℕ :=
  if r.enabled then configWrite 0 (toInt32 r.dutyCycle) (toInt32 r.period) k else none

/-- What a run leaves in a field that held `v`. -/
def held (ops : List Op) (k : FieldName) (v : ℕ) : ℕ :=
  ops.foldl (fun v op => (requestWrite op.request k).getD v) v

theorem view_apply_timing {regs regs' : Regs} {i : ℕ} {old r : PwmState} {env : ApplyEnv} {ret : ℤ}
    {k : FieldName} (hi : i < 9) (hk : IsTiming k)
    (h : sunxiPwmApply 0 regs i old r env = some (ret, regs')) :
    view regs' i k = (requestWrite r k).getD (view regs i k) := by
  rw [view_apply hi hi hk.2.2 (fun _ => ⟨hk.1, hk.2.1⟩) h]
  unfold requestWrite
  by_cases hen : r.enabled = true
  · rw [if_pos ⟨hen, Shared.refl _ _⟩, if_pos hen]
  · rw [if_neg fun h => hen h.1, if_neg hen, Option.getD_none]

/-- The run lemma: what the requests write, and what was there where they write nothing. -/
theorem view_exec {i : ℕ} {k : FieldName} (hk : IsTiming k) {s t : State} {ops : List Op}
    (hchan : ∀ op ∈ ops, op.chan = i) (h : (controller fun _ => 0).exec s ops = some t) :
    view t.regs i k = held ops k (view s.regs i k) := by
  induction ops generalizing s with
  | nil =>
    obtain rfl := Option.some.inj h
    rfl
  | cons op ops ih =>
    obtain ⟨ret, u, hop, hrest⟩ := Machine.exec_cons_some h
    obtain ⟨hlt, happly, -⟩ := step_cases hop
    obtain rfl := hchan op List.mem_cons_self
    rw [ih (fun o ho => hchan o (List.mem_cons_of_mem _ ho)) hrest,
      view_apply_timing hlt hk happly]
    rfl

/-! ### The last request -/

/-- The fields when the request is the only one. -/
def alone (regs : Regs) (i : ℕ) (r : PwmState) : Option (FieldName → ℕ) :=
  (sunxiPwmApply 0 regs i .idle r .found).map fun a => view a.2 i

/-- The last request decides about the fields, and the polarity is the one it asks for. -/
structure DependsOnLast (regs₀ : Regs) (i : ℕ) (r : PwmState) (regs : Regs) : Prop where
  alone : alone regs₀ i r = some (view regs i)
  polarity : view regs i .actSta = polarityBit r.polarity

/-- When it does: the state `s` is reached from the registers `regs₀` by the requests `ops`. -/
structure Unaffected (regs₀ : Regs) (ops : List Op) (s : State) (op : Op) : Prop where
  -- the request asks for the normal polarity
  normal : op.request.polarity = .normal
  -- a field that it does not write was left as it was before the run
  kept : ∀ k, IsTiming k → requestWrite op.request k = none →
    held ops k (view regs₀ op.chan k) = view regs₀ op.chan k
  -- a channel that is said to be running is turned on
  running : Running (s.states op.chan) op.request →
    view s.regs op.chan .per = 1 ∧ view s.regs op.chan .clkGating = 1

/-- The request alone succeeds if it has a result anywhere. -/
theorem exists_alone {regs regs' : Regs} {i : ℕ} {old r : PwmState} {env : ApplyEnv} {ret : ℤ}
    (regs₀ : Regs) (hen : r.enabled = true)
    (h : sunxiPwmApply 0 regs i old r env = some (ret, regs')) :
    ∃ regs₁, sunxiPwmApply 0 regs₀ i .idle r .found = some (0, regs₁) := by
  have hsome : (sunxiPwmApply 0 regs i old r env).isSome = true := by
    rw [h]
    rfl
  have hthere : (sunxiPwmApply 0 regs₀ i .idle r .found).isSome = true :=
    (apply_isSome_iff hen).mpr ((apply_isSome_iff hen).mp hsome)
  obtain ⟨⟨ret₁, regs₁⟩, halone⟩ := Option.isSome_iff_exists.mp hthere
  have hret : ret₁ = 0 := by
    rcases apply_cases halone with ⟨hoff, -⟩ | ⟨-, conf, -, ⟨hrun, -⟩ | ⟨-, hret, -⟩⟩
    · exact absurd (hoff.symm.trans hen) Bool.false_ne_true
    · exact absurd hrun.1 Bool.false_ne_true
    · exact hret.trans ((enable_ret conf i .found).mpr ⟨rfl, rfl⟩)
  subst hret
  exact ⟨regs₁, halone⟩

section Last

variable {regs₀ : Regs} {ops : List Op} {s s' : State} {op : Op}

theorem normalWhenEnabled_exec (hrun : (controller byp).exec (.init regs₀) ops = some s) :
    NormalWhenEnabled s :=
  Machine.exec_inv (fun _ _ _ _ => normalWhenEnabled_step)
    (fun _ _ hen => absurd hen Bool.false_ne_true) hrun

theorem unaffected_of_dependsOnLast (hchan : ∀ o ∈ ops, o.chan = op.chan)
    (hrun : (controller fun _ => 0).exec (.init regs₀) ops = some s)
    (hop : (controller fun _ => 0).step s op = some (0, s')) (hen : op.request.enabled = true)
    (h : DependsOnLast regs₀ op.chan op.request s'.regs) : Unaffected regs₀ ops s op := by
  obtain ⟨hlt, happly, -⟩ := step_cases hop
  obtain ⟨regs₁, halone⟩ := exists_alone regs₀ hen happly
  have hviews : view regs₁ op.chan = view s'.regs op.chan := by
    have hsome := h.alone
    rw [alone, halone] at hsome
    exact Option.some.inj hsome
  have hset : view s'.regs op.chan .actSta = 1 :=
    view_apply_actSta hlt hen (normalWhenEnabled_exec hrun _ hlt) happly
  constructor
  · by_contra hinv
    have hpol := h.polarity
    rw [hset, polarityBit, if_neg hinv] at hpol
    exact absurd hpol (by decide)
  · intro k hk hnone
    have hlast := view_apply_timing hlt hk happly
    have hfirst := view_apply_timing hlt hk halone
    rw [hnone, Option.getD_none] at hlast hfirst
    calc held ops k (view regs₀ op.chan k)
        = view s.regs op.chan k := (view_exec hk hchan hrun).symm
      _ = view s'.regs op.chan k := hlast.symm
      _ = view regs₁ op.chan k := (congrFun hviews k).symm
      _ = view regs₀ op.chan k := hfirst
  · intro hrunning
    have hon : ∀ k, k = .per ∨ k = .clkGating → view s.regs op.chan k = 1 := by
      intro k hk
      have hlast := view_apply_switch hlt hen hk happly
      have hfirst := view_apply_switch hlt hen hk halone
      rw [if_pos hrunning] at hlast
      rw [if_neg fun h => Bool.false_ne_true h.1] at hfirst
      rw [← hlast, ← congrFun hviews k, hfirst]
    exact ⟨hon .per (Or.inl rfl), hon .clkGating (Or.inr rfl)⟩

theorem dependsOnLast_of_unaffected (hchan : ∀ o ∈ ops, o.chan = op.chan)
    (hrun : (controller fun _ => 0).exec (.init regs₀) ops = some s)
    (hop : (controller fun _ => 0).step s op = some (0, s')) (hen : op.request.enabled = true)
    (h : Unaffected regs₀ ops s op) : DependsOnLast regs₀ op.chan op.request s'.regs := by
  obtain ⟨hlt, happly, -⟩ := step_cases hop
  obtain ⟨regs₁, halone⟩ := exists_alone regs₀ hen happly
  have hset : view s'.regs op.chan .actSta = 1 :=
    view_apply_actSta hlt hen (normalWhenEnabled_exec hrun _ hlt) happly
  have hswitch : ∀ k, k = .per ∨ k = .clkGating →
      (Running (s.states op.chan) op.request → view s.regs op.chan k = 1) →
      view regs₁ op.chan k = view s'.regs op.chan k := by
    intro k hk hon
    rw [view_apply_switch hlt hen hk happly, view_apply_switch hlt hen hk halone,
      if_neg fun h => Bool.false_ne_true h.1]
    split
    · rename_i hrunning
      exact (hon hrunning).symm
    · rfl
  have hviews : view regs₁ op.chan = view s'.regs op.chan := by
    funext k
    by_cases hk : IsTiming k
    · rw [view_apply_timing hlt hk happly, view_apply_timing hlt hk halone]
      cases hwrite : requestWrite op.request k with
      | none =>
        calc view regs₀ op.chan k
            = held ops k (view regs₀ op.chan k) := (h.kept k hk hwrite).symm
          _ = view s.regs op.chan k := (view_exec hk hchan hrun).symm
      | some v => rfl
    · cases k with
      | actSta =>
        rw [hset]
        exact view_apply_actSta hlt hen (fun hidle => absurd hidle Bool.false_ne_true) halone
      | per => exact hswitch .per (Or.inl rfl) fun hrunning => (h.running hrunning).1
      | clkGating => exact hswitch .clkGating (Or.inr rfl) fun hrunning => (h.running hrunning).2
      | _ => exact absurd (by decide) hk
  constructor
  · rw [alone, halone, ← hviews]
    rfl
  · rw [hset, h.normal]
    rfl

/-- **History.** After a run on one channel that ends with a request that turns the channel on and
succeeds, the fields depend on this request alone, and the polarity is the one it asks for, exactly
when it is unaffected by the requests before it. -/
theorem apply_history_iff (hchan : ∀ o ∈ ops, o.chan = op.chan)
    (hrun : (controller fun _ => 0).exec (.init regs₀) ops = some s)
    (hop : (controller fun _ => 0).step s op = some (0, s')) (hen : op.request.enabled = true) :
    DependsOnLast regs₀ op.chan op.request s'.regs ↔ Unaffected regs₀ ops s op :=
  ⟨unaffected_of_dependsOnLast hchan hrun hop hen, dependsOnLast_of_unaffected hchan hrun hop hen⟩

end Last

/-- A request for channel 0 in an environment in which every device is found. -/
def request (period dutyCycle : ℕ) : Op := ⟨0, ⟨period, dutyCycle, .normal, true⟩, .found⟩

/-- Two periods of the 24 MHz clock one after the other. -/
theorem apply_history_iff_slow_slow : ∃ s s',
    (controller fun _ => 0).exec (.init fun _ => 0) [request 1000 500] = some s ∧
    (controller fun _ => 0).step s (request 2000 500) = some (0, s') ∧
    (DependsOnLast (fun _ => 0) (request 2000 500).chan (request 2000 500).request s'.regs ↔
      Unaffected (fun _ => 0) [request 1000 500] s (request 2000 500)) :=
  ⟨_, _, rfl, rfl, apply_history_iff (fun _ ho => by rw [List.mem_singleton.mp ho]; rfl) rfl rfl
    rfl⟩

/-- What the PWM core asks for. -/
def Op.Valid (op : Op) : Prop :=
  0 < op.request.period ∧ op.request.dutyCycle ≤ op.request.period

instance (op : Op) : Decidable op.Valid := inferInstanceAs (Decidable (_ ∧ _))

/-- A period of 10 ns sets the bypass bit, and a period of 1000 ns after it leaves the bit set. -/
theorem bypass_bit_is_kept : ¬∀ (regs₀ : Regs) (ops : List Op) (op : Op) (s s' : State),
    (∀ o ∈ op :: ops, o.chan = op.chan ∧ o.Valid) →
    (controller fun _ => 0).exec (.init regs₀) ops = some s →
    (controller fun _ => 0).step s op = some (0, s') → op.request.enabled = true →
    DependsOnLast regs₀ op.chan op.request s'.regs := by
  intro hall
  have hlast := hall (fun _ => 0) [request 10 5] (request 1000 500) _ _
    (fun o ho => by
      rcases List.mem_cons.mp ho with rfl | hfirst
      · decide
      · rw [List.mem_singleton.mp hfirst]
        decide) rfl rfl rfl
  have hbypass := congrArg (Option.map fun fields => fields .bypass) hlast.alone
  exact absurd hbypass (by decide)

end LonganPi.Pwm
