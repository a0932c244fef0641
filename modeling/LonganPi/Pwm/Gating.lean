import LonganPi.Lib.Run
import LonganPi.Pwm.Effect

/-!
# The gates of the pairs

Runs of the functions for a single channel, below the dispatchers and the PWM core: configure, turn
on and turn off, in any order and on any channel, with every device found. The enable bits of all
channels are in one register, and the two channels of a pair share one gate. It is opened when a
channel of the pair is turned on. It is closed when a channel is turned off and the two bits of the
pair are both zero after that.

`Gated on regs` says that the register holds exactly the set `on` of channels, and that a gate is
open exactly when a channel of its pair is in the set. Channel 8 has no partner, but the test reads
bit 9 all the same, so the invariant also says that no bit above the channels is ever set.
-/

open DriverLib

namespace LonganPi.Pwm

/-! ### The machine -/

/-- A call for a channel. The `junk` is what is in an uninitialised `reg_offset`. -/
inductive Call
  | config (chan : ℕ) (dutyNs periodNs : ℤ) (junk : ℕ)
  | enable (chan junk : ℕ)
  | disable (chan junk : ℕ)

def Call.chan : Call → ℕ
  | config i _ _ _ | enable i _ | disable i _ => i

/-- A chip with `npwm` channels. A configuration that divides by zero has no result. -/
def singleCalls (clkBypassOutput : ℕ → ℕ) (npwm : ℕ) : Machine Regs Call ℤ where
  step regs c :=
    if c.chan < npwm then
      match c with
      | .config i dutyNs periodNs junk =>
        (sunxiPwmConfigSingle (clkBypassOutput i) regs i (toInt32 dutyNs) (toInt32 periodNs)
          junk).map fun regs' => (0, regs')
      | .enable i junk => some (sunxiPwmEnableSingle regs i ⟨true, true, 0, junk⟩)
      | .disable i junk => some (0, sunxiPwmDisableSingle regs i ⟨true, true, 0, junk⟩)
    else none

/-- Whether a call turns channel `i` on or off. -/
def Call.switch (i : ℕ) : Call → Option Bool
  | config .. => none
  | enable j _ => if j = i then some true else none
  | disable j _ => if j = i then some false else none

/-- The channels that are on: the last call that turned one on or off decides, and `on` where there
is none. -/
def onAfter (on : ℕ → Bool) (calls : List Call) (i : ℕ) : Bool :=
  (calls.filterMap (Call.switch i)).getLast?.getD (on i)

theorem onAfter_cons (on : ℕ → Bool) (c : Call) (calls : List Call) :
    onAfter on (c :: calls) = onAfter (onAfter on [c]) calls := by
  ext i
  unfold onAfter
  rw [List.filterMap_cons, List.filterMap_cons, List.filterMap_nil]
  cases c.switch i with
  | none => rfl
  | some b => rw [List.getLast?_cons, Option.getD_some]; rfl

/-! ### The enable register -/

section Register

variable {regs : Regs} {i : ℕ}

/-- A field of another register keeps the enable register. -/
theorem write_per_of_ne {k : FieldName} {v : ℕ} (hi : i < 9) (hk : k.reg ≠ .per) :
    (k.field i).write regs v PWM_PER = regs PWM_PER := by
  have hoff : (k.field i).offset ≠ PWM_PER := by
    rw [field_offset]
    intro h
    exact hk (RegName.offset_inj hi hi (h : k.reg.offset i = RegName.per.offset i)).1
  exact Function.update_of_ne hoff.symm _ _

/-- A write to an enable bit changes that bit of the register. -/
theorem getLsbD_write_per {v : ℕ} (hi : i < 9) (hv : v < 2) (k : ℕ) :
    ((FieldName.per.field i).write regs v PWM_PER).getLsbD k =
      if k = i then decide (v = 1) else (regs PWM_PER).getLsbD k := by
  have hwrite : (FieldName.per.field i).write regs v PWM_PER =
      setField i 1 (regs PWM_PER) v := Function.update_self _ _ _
  have hone : v.testBit 0 = decide (v = 1) := by
    obtain rfl | rfl : v = 0 ∨ v = 1 := by omega
    · rfl
    · rfl
  rw [hwrite]
  by_cases hsame : k = i
  · rw [if_pos hsame, hsame, getLsbD_setField (by decide) _ _ (by omega), if_pos (by omega),
      Nat.sub_self, hone]
  · rw [if_neg hsame]
    apply getLsbD_setField_of_lt (by decide) _ hv
    omega

/-- The two bits that are tested when channel `i` is turned off. -/
theorem getField_pair_eq_zero_iff (reg : BitVec 32) (i : ℕ) :
    getField (i - i % 2) 2 reg = 0#32 ↔
      reg.getLsbD (i - i % 2) = false ∧ reg.getLsbD (i - i % 2 + 1) = false := by
  have hbit : ∀ m, (getField (i - i % 2) 2 reg).getLsbD m =
      (reg.getLsbD (i - i % 2 + m) && decide (m < 2)) := getLsbD_getField (by decide) reg
  constructor
  · intro hzero
    have h₀ := hbit 0
    have h₁ := hbit 1
    rw [hzero, BitVec.getLsbD_zero] at h₀ h₁
    exact ⟨by simpa using h₀.symm, by simpa using h₁.symm⟩
  · rintro ⟨h₀, h₁⟩
    apply BitVec.eq_of_getLsbD_eq
    intro m _
    rw [hbit, BitVec.getLsbD_zero]
    match m with
    | 0 => rw [Nat.add_zero, h₀, Bool.false_and]
    | 1 => rw [h₁, Bool.false_and]
    | m + 2 => rw [decide_eq_false (by omega), Bool.and_false]

end Register

/-! ### The invariant -/

/-- A channel of the pair of channel `i` is on. -/
def pairOn (on : ℕ → Bool) (i : ℕ) : Bool := on (i - i % 2) || on (i - i % 2 + 1)

/-- The enable register and the gates of a chip with `n` channels say that the channels in `on` are
on. -/
structure Gated (n : ℕ) (on : ℕ → Bool) (regs : Regs) : Prop where
  per : ∀ k, (regs PWM_PER).getLsbD k = on k
  bound : ∀ k, n ≤ k → on k = false
  gate : ∀ i < 9, view regs i .clkGating = (pairOn on i).toNat

/-- A set of channels with channel `i` turned on or off. -/
def switched (on : ℕ → Bool) (i : ℕ) (b : Bool) : ℕ → Bool := Function.update on i b

/-- A call that turns channel `i` on or off. -/
theorem onAfter_single {on : ℕ → Bool} {c : Call} {i : ℕ} {b : Bool}
    (h : ∀ k, c.switch k = if i = k then some b else none) :
    onAfter on [c] = switched on i b := by
  ext k
  unfold onAfter switched
  rw [Function.update_apply, List.filterMap_cons, List.filterMap_nil, h]
  by_cases hk : i = k
  · rw [if_pos hk, if_pos hk.symm]
    rfl
  · rw [if_neg hk, if_neg (Ne.symm hk)]
    rfl

theorem pairOn_switched_of_ne {on : ℕ → Bool} {i j : ℕ} {b : Bool} (h : j / 2 ≠ i / 2) :
    pairOn (switched on i b) j = pairOn on j := by
  unfold pairOn switched
  rw [Function.update_of_ne (by omega), Function.update_of_ne (by omega)]

theorem pairOn_congr {on : ℕ → Bool} {i j : ℕ} (h : j / 2 = i / 2) : pairOn on j = pairOn on i := by
  unfold pairOn
  rw [show j - j % 2 = i - i % 2 by omega]

/-- A channel that is on is one of its pair. -/
theorem pairOn_iff {n : ℕ} {on : ℕ → Bool} (hbound : ∀ k, n ≤ k → on k = false) (i : ℕ) :
    pairOn on i = true ↔ ∃ j < n, j / 2 = i / 2 ∧ on j = true := by
  unfold pairOn
  rw [Bool.or_eq_true]
  have hlt : ∀ {k}, on k = true → k < n := by
    intro k hk
    by_contra hge
    rw [hbound k (Nat.not_lt.mp hge)] at hk
    exact Bool.false_ne_true hk
  constructor
  · rintro (h | h)
    · exact ⟨_, hlt h, by omega, h⟩
    · exact ⟨_, hlt h, by omega, h⟩
  · rintro ⟨j, -, hpair, hon⟩
    rcases Nat.mod_two_eq_zero_or_one j with hmod | hmod
    · left
      rwa [show i - i % 2 = j by omega]
    · right
      rwa [show i - i % 2 + 1 = j by omega]

section Steps

variable {regs regs' : Regs} {n : ℕ} {on : ℕ → Bool} {i junk byp : ℕ}

/-- A configuration does not touch the enable register. -/
theorem config_per {dutyNs periodNs : ℤ} (hi : i < 9)
    (h : sunxiPwmConfigSingle byp regs i dutyNs periodNs junk = some regs') :
    regs' PWM_PER = regs PWM_PER := by
  have hkeep : ∀ (k : FieldName) (r : Regs) (v : ℕ), k.reg ≠ .per →
      (k.field i).write r v PWM_PER = r PWM_PER := fun _ _ _ hk => write_per_of_ne hi hk
  -- the bypass bit and the clock source
  have hsource : ∀ (c : Prop) [Decidable c] (src : ℕ), (FieldName.clkSrc.field i).write
      (if c then (FieldName.bypass.field i).write regs 1 else regs) src PWM_PER = regs PWM_PER := by
    intro c _ src
    rw [hkeep .clkSrc _ _ (by decide)]
    split
    · exact hkeep .bypass _ _ (by decide)
    · rfl
  unfold sunxiPwmConfigSingle at h
  rw [getPccrRegOffset_of_lt hi] at h
  dsimp only at h
  split at h
  · rw [Option.some.injEq] at h
    rw [← h]
    exact (hkeep .clkSrc _ _ (by decide)).trans (hkeep .bypass _ _ (by decide))
  · split at h
    · cases h
    rw [Option.some.injEq] at h
    rw [← h]
    refine (hkeep .periodCycles _ _ (by decide)).trans ((hkeep .actCycles _ _ (by decide)).trans
      ((hkeep .prescal _ _ (by decide)).trans ((hkeep .divM _ _ (by decide)).trans ?_)))
    split
    · exact hsource (byp = 1) 1
    · split
      · exact hsource (byp = 1) 0
      · rfl

/-- A configuration writes to no enable bit and to no gate. -/
theorem gated_config {dutyNs periodNs : ℤ} (hi : i < 9) (hg : Gated n on regs)
    (h : sunxiPwmConfigSingle byp regs i dutyNs (toInt32 periodNs) junk = some regs') :
    Gated n on regs' := by
  refine ⟨fun k => ?_, hg.bound, fun j hj => ?_⟩
  · rw [config_per hi h, hg.per k]
  · have hview := (writes_config hi h).view_eq j hj .clkGating (Or.inl FieldName.noConfusion)
    rw [show configWrite byp dutyNs (toInt32 periodNs) .clkGating = none from rfl,
      Option.getD_none, ite_self] at hview
    rw [hview, hg.gate j hj]

/-- What a write to the enable bit and one to the gate do to the enable register. -/
theorem per_switched {v : ℕ} (hi : i < 9) (hv : v < 2) (hper : ∀ k, (regs PWM_PER).getLsbD k = on k)
    (k : ℕ) : ((FieldName.per.field i).write regs v PWM_PER).getLsbD k =
      switched on i (decide (v = 1)) k := by
  rw [getLsbD_write_per hi hv, hper k]
  unfold switched
  exact (Function.update_apply on i _ k).symm

theorem switched_bound {b : Bool} (hi : i < n) (hbound : ∀ k, n ≤ k → on k = false) :
    ∀ k, n ≤ k → switched on i b k = false := by
  intro k hk
  unfold switched
  rw [Function.update_of_ne (by omega)]
  exact hbound k hk

/-- Turning a channel on opens the gate of its pair. -/
theorem gated_enable (hn : n ≤ 9) (hin : i < n) (hg : Gated n on regs) :
    Gated n (switched on i true) (sunxiPwmEnableSingle regs i ⟨true, true, 0, junk⟩).2 := by
  have hi : i < 9 := by omega
  have hregs : (sunxiPwmEnableSingle regs i ⟨true, true, 0, junk⟩).2 =
      (FieldName.per.field i).write ((FieldName.clkGating.field i).write regs 1) 1 := by
    show (per i).write ((clkGating (getPccrRegOffset i junk)).write regs 1) 1 = _
    rw [getPccrRegOffset_of_lt hi]
    rfl
  rw [hregs]
  have hbound := switched_bound (b := true) hin hg.bound
  refine ⟨per_switched hi (by decide) fun k => ?_, hbound, fun j hj => ?_⟩
  · rw [write_per_of_ne hi (by decide), hg.per k]
  · rw [view_write hi hj (by decide), if_neg fun h => FieldName.noConfusion h.1,
      view_write hi hj (by decide)]
    by_cases hpair : j / 2 = i / 2
    · have hon : pairOn (switched on i true) j = true :=
        (pairOn_iff hbound j).mpr ⟨i, hin, hpair.symm, Function.update_self _ _ _⟩
      rw [if_pos ⟨rfl, hpair⟩, hon]
      rfl
    · rw [if_neg fun h => hpair h.2, pairOn_switched_of_ne hpair, hg.gate j hj]

/-- A pair in which a channel is still on when one was turned off was on. -/
theorem pairOn_of_switched_off (hin : i < n) (hbound : ∀ k, n ≤ k → on k = false)
    (h : pairOn (switched on i false) i = true) : pairOn on i = true := by
  obtain ⟨m, hm, hmi, hset⟩ := (pairOn_iff (switched_bound hin hbound) i).mp h
  have hother : m ≠ i := by
    rintro rfl
    unfold switched at hset
    rw [Function.update_self] at hset
    exact Bool.false_ne_true hset
  unfold switched at hset
  rw [Function.update_of_ne hother] at hset
  exact (pairOn_iff hbound i).mpr ⟨m, hm, hmi, hset⟩

/-- A disable clears the enable bit, and closes the gate when both bits of the pair are clear. -/
theorem sunxiPwmDisableSingle_eq (hi : i < 9) :
    sunxiPwmDisableSingle regs i ⟨true, true, 0, junk⟩ =
      if getField (i - i % 2) 2 ((FieldName.per.field i).write regs 0 PWM_PER) = 0#32 then
        (FieldName.clkGating.field i).write ((FieldName.per.field i).write regs 0) 0
      else (FieldName.per.field i).write regs 0 := by
  show (if _ then (clkGating (getPccrRegOffset i junk)).write _ 0 else _) = _
  rw [getPccrRegOffset_of_lt hi]
  rfl

/-- Turning a channel off closes the gate of its pair if the other channel is off. -/
theorem gated_disable (hn : n ≤ 9) (hin : i < n) (hg : Gated n on regs) :
    Gated n (switched on i false) (sunxiPwmDisableSingle regs i ⟨true, true, 0, junk⟩) := by
  have hi : i < 9 := by omega
  have hbound := switched_bound (b := false) hin hg.bound
  have hper : ∀ k, ((FieldName.per.field i).write regs 0 PWM_PER).getLsbD k =
      switched on i false k := per_switched hi (by decide) hg.per
  have hview : ∀ j < 9, view ((FieldName.per.field i).write regs 0) j .clkGating =
      (pairOn on j).toNat := by
    intro j hj
    rw [view_write hi hj (by decide), if_neg fun h => FieldName.noConfusion h.1, hg.gate j hj]
  -- the test of the two bits of the pair
  have htest : getField (i - i % 2) 2 ((FieldName.per.field i).write regs 0 PWM_PER) = 0#32 ↔
      pairOn (switched on i false) i = false := by
    rw [getField_pair_eq_zero_iff, hper, hper, ← Bool.or_eq_false_iff]
    rfl
  rw [sunxiPwmDisableSingle_eq hi]
  split
  · rename_i hzero
    refine ⟨fun k => ?_, hbound, fun j hj => ?_⟩
    · rw [write_per_of_ne hi (by decide), hper k]
    · rw [view_write hi hj (by decide)]
      by_cases hpair : j / 2 = i / 2
      · rw [if_pos ⟨rfl, hpair⟩, pairOn_congr hpair, htest.mp hzero]
        rfl
      · rw [if_neg fun h => hpair h.2, pairOn_switched_of_ne hpair, hview j hj]
  · rename_i hne
    refine ⟨hper, hbound, fun j hj => ?_⟩
    rw [hview j hj]
    by_cases hpair : j / 2 = i / 2
    · -- a channel of the pair is on, before and after
      have hon : pairOn (switched on i false) i = true := by
        simpa using fun h => hne (htest.mpr h)
      rw [pairOn_congr hpair, pairOn_congr hpair, hon, pairOn_of_switched_off hin hg.bound hon]
    · rw [pairOn_switched_of_ne hpair]

theorem gated_step {byp : ℕ → ℕ} (hn : n ≤ 9) {c : Call} {ret : ℤ}
    (hg : Gated n on regs) (h : (singleCalls byp n).step regs c = some (ret, regs')) :
    Gated n (onAfter on [c]) regs' := by
  change (if _ then _ else _) = _ at h
  split at h
  · rename_i hchan
    cases c with
    | config i dutyNs periodNs junk =>
      obtain ⟨conf, hconf, hpair⟩ := Option.map_eq_some_iff.mp h
      obtain ⟨-, rfl⟩ := Prod.mk.inj hpair
      exact gated_config (hchan.trans_le hn) hg hconf
    | enable i junk =>
      obtain hpair := Option.some.inj h
      rw [onAfter_single fun _ => rfl,
        ← show _ = regs' from congrArg Prod.snd hpair]
      exact gated_enable hn hchan hg
    | disable i junk =>
      obtain ⟨-, rfl⟩ := Prod.mk.inj (Option.some.inj h)
      rw [onAfter_single fun _ => rfl]
      exact gated_disable hn hchan hg
  · cases h

/-- The run lemma. -/
theorem gated_exec {byp : ℕ → ℕ} (hn : n ≤ 9) {calls : List Call}
    (hg : Gated n on regs) (h : (singleCalls byp n).exec regs calls = some regs') :
    Gated n (onAfter on calls) regs' := by
  induction calls generalizing on regs with
  | nil =>
    obtain rfl := Option.some.inj h
    exact hg
  | cons c calls ih =>
    obtain ⟨ret, u, hstep, hrest⟩ := Machine.exec_cons_some h
    rw [onAfter_cons]
    exact ih (gated_step hn hg hstep) hrest

end Steps

/-! ### The result -/

/-- No channel is enabled and no gate is open. -/
structure AtReset (regs : Regs) : Prop where
  per : regs PWM_PER = 0#32
  gate : ∀ i < 9, view regs i .clkGating = 0

/-- **The gates.** After every run from reset, an enable bit is set exactly when the last call that
turned its channel on or off turned it on, and a gate is open exactly when a channel of its pair is
on. -/
theorem gating_iff (clkBypassOutput : ℕ → ℕ) {npwm : ℕ} (hn : npwm ≤ 9) {regs regs' : Regs}
    (hreset : AtReset regs) {calls : List Call}
    (h : (singleCalls clkBypassOutput npwm).exec regs calls = some regs') {i : ℕ} (hi : i < npwm) :
    ((regs' PWM_PER).getLsbD i = true ↔ onAfter (fun _ => false) calls i = true) ∧
      (view regs' i .clkGating = 1 ↔
        ∃ j < npwm, j / 2 = i / 2 ∧ (regs' PWM_PER).getLsbD j = true) := by
  have hstart : Gated npwm (fun _ => false) regs := by
    refine ⟨fun k => ?_, fun _ _ => rfl, hreset.gate⟩
    rw [hreset.per, BitVec.getLsbD_zero]
  have hend := gated_exec hn hstart h
  constructor
  · rw [hend.per i]
  · rw [hend.gate i (by omega)]
    simp only [hend.per]
    rw [← pairOn_iff hend.bound i]
    cases pairOn (onAfter (fun _ => false) calls) i <;> decide

/-- Channels 8 and 1 are turned on, channel 1 is configured and channel 8 turned off. -/
theorem gating_iff_one_left : ∃ regs', (singleCalls (fun _ => 0) 9).exec (fun _ => 0#32)
    [.enable 8 0, .enable 1 0, .config 1 500 1000 0, .disable 8 0] = some regs' ∧
      ((regs' PWM_PER).getLsbD 1 = true ↔
        onAfter (fun _ => false)
          [.enable 8 0, .enable 1 0, .config 1 500 1000 0, .disable 8 0] 1 = true) := by
  have hreset : AtReset fun _ => 0#32 := by
    constructor
    · rfl
    · decide
  have hsome : ((singleCalls (fun _ => 0) 9).exec (fun _ => 0#32)
    [.enable 8 0, .enable 1 0, .config 1 500 1000 0, .disable 8 0]).isSome = true := by
    decide
  obtain ⟨regs', h⟩ := Option.isSome_iff_exists.mp hsome
  exact ⟨regs', h, (gating_iff _ (le_refl 9) hreset h (by decide)).1⟩

end LonganPi.Pwm
