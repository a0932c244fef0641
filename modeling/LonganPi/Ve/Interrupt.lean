import LonganPi.Lib.Run

/-!
# The interrupt hand-off

`VideoEngineInterupt` sets `de_irq_value`, then `de_irq_flag`; `IOCTL_WAIT_VE_DE` clears the value,
sets it again under the lock if the flag is set, waits for the flag, clears the flag and returns
the value. The handler does not take the lock, so all of these steps interleave. The encoder and
the jpeg decoder have variables and ioctls of the same kind, so the device is one `IrqState` for
each `Irq`, and its runs interleave all three.

What a WAIT should report is counted by ghost variables. An interrupt is `unreported` from its
first step until the return of 1 by the WAIT that takes its flag; a return of 1 by a WAIT that
takes no flag reports all interrupts before it.

Two windows lose or double a report:

* the test falls between the two steps of a handler whose value the WAIT has just cleared. The
  flag then ends the wait, but nothing sets the value again, and the WAIT returns 0;
* a WAIT that timed out clears the flag before a handler sets it, but returns after the handler has
  set the value. It returns 1, and so does the next WAIT, for the same interrupt.

`IrqGuard` names the three steps that enter these windows. Along a run without them the hand-off
meets its specification (`hand_off_in_order`); and each of them is the beginning of a run that
does not.
-/

open DriverLib

namespace LonganPi.Ve

/-! ### One interrupt -/

/-- Where the waiter stands in the ioctl. -/
inductive WaitPc
  -- outside
  | idle
  -- after `irq_value = 0`
  | cleared
  -- after the locked test
  | tested
  -- after `wait_event_timeout`, and whether the flag ended it
  | woken (byFlag : Bool)
  -- after `irq_flag = 0`, and whether there was a flag to clear
  | taken (byFlag took : Bool)
  deriving DecidableEq

/-- The variables of one interrupt, the threads that use them, and the ghost counters. -/
structure IrqState where
  irqValue : ℕ
  irqFlag : ℕ
  -- the handler is between its two steps
  inHandler : Bool
  waiter : WaitPc
  -- interrupts, and WAITs that returned 1
  raised : ℕ
  reported : ℕ
  -- interrupts that no WAIT has reported
  unreported : ℕ
  -- those of them whose flag comes after the last `irq_flag = 0`
  late : ℕ
  deriving DecidableEq

/-- The atomic steps of the handler and of the ioctl. -/
inductive IrqOp
  | setValue
  | setFlag
  | clearValue
  | testFlag
  | endWait (timeout : Bool)
  | clearFlag
  | returnValue
  deriving DecidableEq

namespace IrqState

/-- `irq_value = 1` in the handler. -/
def setValue (v : IrqState) : IrqState :=
  { v with
    irqValue := 1
    inHandler := true
    raised := v.raised + 1
    unreported := v.unreported + 1
    late := v.late + 1 }

/-- `irq_flag = 1` in the handler. -/
def setFlag (v : IrqState) : IrqState := { v with irqFlag := 1, inHandler := false }

/-- `irq_value = 0` in the ioctl. -/
def clearValue (v : IrqState) : IrqState := { v with irqValue := 0, waiter := .cleared }

/-- `if (irq_flag) irq_value = 1` in the ioctl. -/
def testFlag (v : IrqState) : IrqState :=
  { v with irqValue := if v.irqFlag ≠ 0 then 1 else v.irqValue, waiter := .tested }

/-- `irq_flag = 0` in the ioctl. -/
def clearFlag (v : IrqState) (byFlag : Bool) : IrqState :=
  { v with
    irqFlag := 0
    waiter := .taken byFlag (decide (v.irqFlag ≠ 0))
    late := if v.inHandler then 1 else 0 }

/-- `return irq_value` in the ioctl. -/
def returnValue (v : IrqState) (took : Bool) : IrqState :=
  { v with
    waiter := .idle
    reported := if v.irqValue = 1 then v.reported + 1 else v.reported
    unreported := if v.irqValue = 1 then if took then v.late else 0 else v.unreported }

/-- A step, and what the ioctl returns if it is the last of one. -/
def step (v : IrqState) : IrqOp → Option (Option ℕ × IrqState)
  | .setValue => if v.inHandler then none else some (none, v.setValue)
  | .setFlag => if v.inHandler then some (none, v.setFlag) else none
  | .clearValue => if v.waiter = .idle then some (none, v.clearValue) else none
  | .testFlag => if v.waiter = .cleared then some (none, v.testFlag) else none
  | .endWait timeout =>
    if v.waiter = .tested then
      -- the condition is read again when the time is over
      if v.irqFlag ≠ 0 then some (none, { v with waiter := .woken true })
      else if timeout then some (none, { v with waiter := .woken false })
      else none
    else none
  | .clearFlag =>
    match v.waiter with
    | .woken byFlag => some (none, v.clearFlag byFlag)
    | _ => none
  | .returnValue =>
    match v.waiter with
    | .taken _ took => some (some v.irqValue, v.returnValue took)
    | _ => none

/-- What a step can do, and what enables it. -/
inductive Enabled (v : IrqState) : IrqOp → Option ℕ → IrqState → Prop
  | setValue (hin : v.inHandler = false) : Enabled v .setValue none v.setValue
  | setFlag (hin : v.inHandler = true) : Enabled v .setFlag none v.setFlag
  | clearValue (hpc : v.waiter = .idle) : Enabled v .clearValue none v.clearValue
  | testFlag (hpc : v.waiter = .cleared) : Enabled v .testFlag none v.testFlag
  | woken {timeout : Bool} (hpc : v.waiter = .tested) (hflag : v.irqFlag ≠ 0) :
      Enabled v (.endWait timeout) none { v with waiter := .woken true }
  | timedOut (hpc : v.waiter = .tested) (hflag : v.irqFlag = 0) :
      Enabled v (.endWait true) none { v with waiter := .woken false }
  | clearFlag {byFlag : Bool} (hpc : v.waiter = .woken byFlag) :
      Enabled v .clearFlag none (v.clearFlag byFlag)
  | returnValue {byFlag took : Bool} (hpc : v.waiter = .taken byFlag took) :
      Enabled v .returnValue (some v.irqValue) (v.returnValue took)

theorem enabled_of_step {v v' : IrqState} {op : IrqOp} {o : Option ℕ}
    (hop : v.step op = some (o, v')) : Enabled v op o v' := by
  cases op with
  | setValue =>
    obtain ⟨hin, hr⟩ := Option.ite_none_left_eq_some.mp hop
    obtain ⟨rfl, rfl⟩ := Prod.mk.inj (Option.some.inj hr)
    exact .setValue (eq_false_of_ne_true hin)
  | setFlag =>
    obtain ⟨hin, hr⟩ := Option.ite_none_right_eq_some.mp hop
    obtain ⟨rfl, rfl⟩ := Prod.mk.inj (Option.some.inj hr)
    exact .setFlag hin
  | clearValue =>
    obtain ⟨hpc, hr⟩ := Option.ite_none_right_eq_some.mp hop
    obtain ⟨rfl, rfl⟩ := Prod.mk.inj (Option.some.inj hr)
    exact .clearValue hpc
  | testFlag =>
    obtain ⟨hpc, hr⟩ := Option.ite_none_right_eq_some.mp hop
    obtain ⟨rfl, rfl⟩ := Prod.mk.inj (Option.some.inj hr)
    exact .testFlag hpc
  | endWait timeout =>
    obtain ⟨hpc, hr⟩ := Option.ite_none_right_eq_some.mp hop
    by_cases hflag : v.irqFlag ≠ 0
    · rw [if_pos hflag] at hr
      obtain ⟨rfl, rfl⟩ := Prod.mk.inj (Option.some.inj hr)
      exact .woken hpc hflag
    · rw [if_neg hflag] at hr
      obtain ⟨rfl, hr⟩ := Option.ite_none_right_eq_some.mp hr
      obtain ⟨rfl, rfl⟩ := Prod.mk.inj (Option.some.inj hr)
      exact .timedOut hpc (not_not.mp hflag)
  | clearFlag =>
    change (match v.waiter with | .woken byFlag => _ | _ => _) = _ at hop
    split at hop
    · rename_i hpc
      obtain ⟨rfl, rfl⟩ := Prod.mk.inj (Option.some.inj hop)
      exact .clearFlag hpc
    · cases hop
  | returnValue =>
    change (match v.waiter with | .taken _ took => _ | _ => _) = _ at hop
    split at hop
    · rename_i hpc
      obtain ⟨rfl, rfl⟩ := Prod.mk.inj (Option.some.inj hop)
      exact .returnValue hpc
    · cases hop

end IrqState

/-- The specification of a step: a WAIT whose wait the flag ended returns 1, a WAIT with nothing to
report returns 0, and no more is reported than was raised. -/
structure HandOff (v : IrqState) (o : Option ℕ) (v' : IrqState) : Prop where
  ended : ∀ x took, o = some x → v.waiter = .taken true took → x = 1
  quiet : ∀ x, o = some x → v.unreported = 0 → x = 0
  counted : v'.reported ≤ v'.raised

/-- The steps that stay out of the two windows. -/
def IrqGuard (v : IrqState) : IrqOp → Prop
  -- no test between the steps of a handler whose value is cleared and whose flag is not yet set
  | .testFlag => v.inHandler = true → v.irqValue = 1 ∨ v.irqFlag ≠ 0
  -- no handler under way when a WAIT without a flag clears it
  | .clearFlag => v.irqFlag = 0 → v.inHandler = false
  -- and none that begins before this WAIT returns
  | .setValue => ∀ byFlag, v.waiter ≠ .taken byFlag false
  | _ => True

/-! ### The invariant -/

namespace IrqState

/-- A flag that is set or about to be. -/
def Due (v : IrqState) : Prop := v.irqFlag ≠ 0 ∨ v.inHandler = true

instance (v : IrqState) : Decidable v.Due := by unfold Due; infer_instance

/-- The WAIT has taken a flag, and is about to report it. -/
def took (v : IrqState) : Bool :=
  match v.waiter with
  | .taken _ took => took
  | _ => false

/-- The reports to come: of a flag taken, of the flag, and of the handler under way. -/
def toCome (v : IrqState) : ℕ :=
  v.took.toNat + (if v.irqFlag ≠ 0 then 1 else 0) + v.inHandler.toNat

/-- From the test on, the value is 1 exactly when a flag is due; once the flag is cleared, exactly
when it was taken. -/
def WaiterOk (v : IrqState) : WaitPc → Prop
  | .idle => True
  | .cleared => v.irqValue = 1 → v.Due
  | .tested => v.irqValue = 1 ↔ v.Due
  | .woken byFlag => (v.irqValue = 1 ↔ v.Due) ∧ (byFlag = true → v.irqFlag ≠ 0)
  | .taken byFlag took =>
    (v.irqValue = 1 ↔ took = true) ∧ (byFlag = true → took = true) ∧ (v.Due → 0 < v.late)

end IrqState

/-- Each report to come has an interrupt of its own, which is not reported yet. -/
structure HandOffInv (v : IrqState) : Prop where
  value : v.irqValue = 0 ∨ v.irqValue = 1
  counted : v.reported + v.toCome ≤ v.raised
  unreported : 0 < v.toCome → 0 < v.unreported
  waiter : v.WaiterOk v.waiter

namespace HandOffInv

variable {v : IrqState} (hv : HandOffInv v)
include hv

theorem reported_le : v.reported ≤ v.raised :=
  Nat.le_trans (Nat.le_add_right _ _) hv.counted

/-- A step in the middle of the ioctl has nothing more to meet. -/
theorem handOff_none {u : IrqState} : HandOff u none v := by
  constructor
  · intro x took hx
    cases hx
  · intro x hx
    cases hx
  · exact hv.reported_le

theorem setValue (hidle : v.inHandler = false) (hg : IrqGuard v .setValue) :
    HandOffInv v.setValue := by
  have hcount : v.setValue.toCome = v.toCome + 1 := by
    simp only [IrqState.toCome, IrqState.took, IrqState.setValue, hidle]
    rfl
  have hdue : v.setValue.Due := Or.inr rfl
  refine ⟨Or.inr rfl, ?_, fun _ => Nat.succ_pos _, ?_⟩
  · rw [hcount]
    exact Nat.succ_le_succ hv.counted
  · have hw := hv.waiter
    change v.setValue.WaiterOk v.waiter
    cases hpc : v.waiter with
    | idle => trivial
    | cleared => exact fun _ => hdue
    | tested => exact iff_of_true rfl hdue
    | woken byFlag =>
      rw [hpc] at hw
      exact ⟨iff_of_true rfl hdue, hw.2⟩
    | taken byFlag took =>
      cases took with
      | false => exact absurd hpc (hg byFlag)
      | true => exact ⟨iff_of_true rfl rfl, fun _ => rfl, fun _ => Nat.succ_pos _⟩

theorem setFlag (hin : v.inHandler = true) : HandOffInv v.setFlag := by
  have hcount : v.setFlag.toCome ≤ v.toCome := by
    change v.took.toNat + 1 + 0 ≤ v.took.toNat + (if _ then 1 else 0) + v.inHandler.toNat
    rw [hin]
    exact Nat.add_le_add_right (Nat.le_add_right _ _) 1
  have hcome : 0 < v.toCome := by
    unfold IrqState.toCome
    rw [hin]
    exact Nat.succ_pos _
  have hdue : v.Due := Or.inr hin
  have hdue' : v.setFlag.Due := Or.inl Nat.one_ne_zero
  refine ⟨hv.value, ?_, fun _ => hv.unreported hcome, ?_⟩
  · exact Nat.le_trans (Nat.add_le_add_left hcount _) hv.counted
  · have hw := hv.waiter
    change v.setFlag.WaiterOk v.waiter
    cases hpc : v.waiter with
    | idle => trivial
    | cleared => exact fun _ => hdue'
    | tested =>
      rw [hpc] at hw
      exact iff_of_true (hw.mpr hdue) hdue'
    | woken byFlag =>
      rw [hpc] at hw
      exact ⟨iff_of_true (hw.1.mpr hdue) hdue', fun _ => Nat.one_ne_zero⟩
    | taken byFlag took =>
      rw [hpc] at hw
      exact ⟨hw.1, hw.2.1, fun _ => hw.2.2 hdue⟩

/-- A step of the waiter up to the end of the wait takes no flag and changes no counter. -/
theorem wait {pc : WaitPc} {value : ℕ} (htook : v.took = false)
    (htook' : ∀ byFlag took, pc ≠ .taken byFlag took) (hvalue : value = 0 ∨ value = 1)
    (hw : { v with irqValue := value, waiter := pc }.WaiterOk pc) :
    HandOffInv { v with irqValue := value, waiter := pc } := by
  have hcount : { v with irqValue := value, waiter := pc }.toCome = v.toCome := by
    have hnot : { v with irqValue := value, waiter := pc }.took = false := by
      unfold IrqState.took
      cases pc with
      | taken byFlag took => exact absurd rfl (htook' byFlag took)
      | idle => rfl
      | cleared => rfl
      | tested => rfl
      | woken byFlag => rfl
    unfold IrqState.toCome
    rw [hnot, htook]
  refine ⟨hvalue, ?_, ?_, hw⟩
  · rw [hcount]
    exact hv.counted
  · rw [hcount]
    exact hv.unreported

theorem clearValue (hpc : v.waiter = .idle) : HandOffInv v.clearValue := by
  apply hv.wait
  · unfold IrqState.took
    rw [hpc]
  · exact fun _ _ h => nomatch h
  · exact Or.inl rfl
  · exact fun h => absurd h Nat.zero_ne_one

theorem testFlag (hpc : v.waiter = .cleared) (hg : IrqGuard v .testFlag) :
    HandOffInv v.testFlag := by
  have hw := hv.waiter
  rw [hpc] at hw
  apply hv.wait
  · unfold IrqState.took
    rw [hpc]
  · exact fun _ _ h => nomatch h
  · split
    · exact Or.inr rfl
    · exact hv.value
  · change (if v.irqFlag ≠ 0 then 1 else v.irqValue) = 1 ↔ v.Due
    split
    · rename_i hflag
      exact iff_of_true rfl (Or.inl hflag)
    · rename_i hflag
      refine ⟨hw, fun hdue => ?_⟩
      exact (hg (hdue.resolve_left hflag)).resolve_right hflag

theorem endWait (hpc : v.waiter = .tested) (byFlag : Bool)
    (hflag : byFlag = true → v.irqFlag ≠ 0) : HandOffInv { v with waiter := .woken byFlag } := by
  have hw := hv.waiter
  rw [hpc] at hw
  apply hv.wait
  · unfold IrqState.took
    rw [hpc]
  · exact fun _ _ h => nomatch h
  · exact hv.value
  · exact ⟨hw, hflag⟩

theorem clearFlag {byFlag : Bool} (hpc : v.waiter = .woken byFlag) (hg : IrqGuard v .clearFlag) :
    HandOffInv (v.clearFlag byFlag) := by
  have hw := hv.waiter
  rw [hpc] at hw
  obtain ⟨hval, hby⟩ := hw
  have hcount : (v.clearFlag byFlag).toCome = v.toCome := by
    simp only [IrqState.toCome, IrqState.took, IrqState.clearFlag, hpc]
    by_cases hflag : v.irqFlag = 0
    · simp [hflag]
    · simp [hflag]
  refine ⟨hv.value, ?_, ?_, ?_⟩
  · rw [hcount]
    exact hv.counted
  · rw [hcount]
    exact hv.unreported
  · refine ⟨hval.trans ?_, fun h => decide_eq_true (hby h), fun hdue => ?_⟩
    · rw [decide_eq_true_eq]
      refine ⟨fun hdue hflag => ?_, Or.inl⟩
      exact absurd (hdue.resolve_left (not_not_intro hflag)) (by rw [hg hflag]; decide)
    · have hin : v.inHandler = true := hdue.resolve_left fun h => h rfl
      change 0 < if v.inHandler = true then 1 else 0
      rw [if_pos hin]
      exact Nat.one_pos

/-- **The return** reports what was taken, and nothing else. -/
theorem returnValue {byFlag took : Bool} (hpc : v.waiter = .taken byFlag took) :
    HandOffInv (v.returnValue took) ∧ (byFlag = true → v.irqValue = 1) ∧
      (v.unreported = 0 → v.irqValue = 0) := by
  have hw := hv.waiter
  rw [hpc] at hw
  obtain ⟨hval, hby, hlate⟩ := hw
  have htook : v.took = took := by
    unfold IrqState.took
    rw [hpc]
  have hcount : v.toCome = took.toNat + (v.returnValue took).toCome := by
    unfold IrqState.toCome
    rw [htook]
    change _ = took.toNat + (0 + (if v.irqFlag ≠ 0 then 1 else 0) + v.inHandler.toNat)
    omega
  have hdue : 0 < (v.returnValue took).toCome → v.Due := by
    intro hpos
    by_contra hnot
    obtain ⟨hflag, hin⟩ := not_or.mp hnot
    have hzero : (v.returnValue took).toCome = 0 := by
      change 0 + (if v.irqFlag ≠ 0 then 1 else 0) + v.inHandler.toNat = 0
      rw [if_neg hflag, eq_false_of_ne_true hin]
      rfl
    omega
  have hcounted := hv.counted
  cases took with
  | true =>
    have hone : v.irqValue = 1 := hval.mpr rfl
    refine ⟨⟨hv.value, ?_, ?_, trivial⟩, fun _ => hone, fun hzero => ?_⟩
    · change (if v.irqValue = 1 then v.reported + 1 else v.reported) + _ ≤ v.raised
      rw [if_pos hone]
      rw [hcount] at hcounted
      change _ + (1 + _) ≤ _ at hcounted
      omega
    · intro hpos
      change 0 < if v.irqValue = 1 then v.late else v.unreported
      rw [if_pos hone]
      exact hlate (hdue hpos)
    · have hpos := hv.unreported (by rw [hcount]; change 0 < 1 + _; omega)
      omega
  | false =>
    have hzero : v.irqValue = 0 := hv.value.resolve_right fun h => Bool.false_ne_true (hval.mp h)
    have hnot : ¬v.irqValue = 1 := fun h => Bool.false_ne_true (hval.mp h)
    refine ⟨⟨hv.value, ?_, ?_, trivial⟩, fun h => absurd (hby h) (by decide), fun _ => hzero⟩
    · change (if v.irqValue = 1 then v.reported + 1 else v.reported) + _ ≤ v.raised
      rw [if_neg hnot]
      rw [hcount] at hcounted
      change _ + (0 + _) ≤ _ at hcounted
      omega
    · intro hpos
      change 0 < if v.irqValue = 1 then 0 else v.unreported
      rw [if_neg hnot]
      apply hv.unreported
      rw [hcount]
      omega

end HandOffInv

/-- A guarded step keeps the invariant and meets the specification. -/
theorem handOff_of_guard {v v' : IrqState} {op : IrqOp} {o : Option ℕ} (hv : HandOffInv v)
    (hop : v.step op = some (o, v')) (hg : IrqGuard v op) : HandOffInv v' ∧ HandOff v o v' := by
  cases IrqState.enabled_of_step hop with
  | setValue hin =>
    have hv' := hv.setValue hin hg
    exact ⟨hv', hv'.handOff_none⟩
  | setFlag hin =>
    have hv' := hv.setFlag hin
    exact ⟨hv', hv'.handOff_none⟩
  | clearValue hpc =>
    have hv' := hv.clearValue hpc
    exact ⟨hv', hv'.handOff_none⟩
  | testFlag hpc =>
    have hv' := hv.testFlag hpc hg
    exact ⟨hv', hv'.handOff_none⟩
  | woken hpc hflag =>
    have hv' := hv.endWait hpc true fun _ => hflag
    exact ⟨hv', hv'.handOff_none⟩
  | timedOut hpc hflag =>
    have hv' := hv.endWait hpc false fun h => absurd h Bool.false_ne_true
    exact ⟨hv', hv'.handOff_none⟩
  | clearFlag hpc =>
    have hv' := hv.clearFlag hpc hg
    exact ⟨hv', hv'.handOff_none⟩
  | returnValue hpc =>
    obtain ⟨hv', hended, hquiet⟩ := hv.returnValue hpc
    refine ⟨hv', ?_, ?_, hv'.reported_le⟩
    · intro x took hx hpc'
      rw [hpc] at hpc'
      rw [← Option.some.inj hx]
      exact hended (WaitPc.taken.inj hpc').1
    · intro x hx hzero
      rw [← Option.some.inj hx]
      exact hquiet hzero

/-! ### The three interrupts -/

/-- The three pairs of variables. -/
inductive Irq
  | de
  | en
  | jpeg
  deriving DecidableEq

/-- The device: the steps of the handler and of the three ioctls in any order. -/
def irqMachine : Machine (Irq → IrqState) (Irq × IrqOp) (Option ℕ) where
  step s op := ((s op.1).step op.2).map fun r => (r.1, Function.update s op.1 r.2)

/-- After the first open. -/
def IrqState.init : IrqState :=
  { irqValue := 0, irqFlag := 0, inHandler := false, waiter := .idle, raised := 0, reported := 0,
    unreported := 0, late := 0 }

theorem handOffInv_init : HandOffInv IrqState.init := by
  refine ⟨Or.inl rfl, Nat.le_refl 0, fun h => absurd h (by decide), trivial⟩

/-- The specification and the guard of a step of the device are those of its interrupt. -/
def HandOffStep (s : Irq → IrqState) (op : Irq × IrqOp) (o : Option ℕ) (s' : Irq → IrqState) :
    Prop := HandOff (s op.1) o (s' op.1)

def InOrder (s : Irq → IrqState) (op : Irq × IrqOp) : Prop := IrqGuard (s op.1) op.2

theorem handOffStep_of_inOrder (s : Irq → IrqState) (op : Irq × IrqOp) (o : Option ℕ)
    (s' : Irq → IrqState) (hs : ∀ i, HandOffInv (s i)) (hop : irqMachine.step s op = some (o, s'))
    (hg : InOrder s op) : (∀ i, HandOffInv (s' i)) ∧ HandOffStep s op o s' := by
  obtain ⟨⟨o', v⟩, hstep, hr⟩ := Option.map_eq_some_iff.mp hop
  obtain ⟨rfl, rfl⟩ := Prod.mk.inj hr
  obtain ⟨hv, hhand⟩ := handOff_of_guard (hs op.1) hstep hg
  constructor
  · intro i
    by_cases hi : i = op.1
    · subst hi
      rw [Function.update_self]
      exact hv
    · rw [Function.update_of_ne hi]
      exact hs i
  · unfold HandOffStep
    rw [Function.update_self]
    exact hhand

/-! ### The windows -/

/-- One interrupt on its own. -/
def oneIrq : Machine IrqState IrqOp (Option ℕ) where
  step := IrqState.step

/-- The device can take the steps of one interrupt while the others stand still. -/
theorem exec_of_oneIrq {s : Irq → IrqState} {i : Irq} {ops : List IrqOp} {v : IrqState}
    (h : oneIrq.exec (s i) ops = some v) :
    irqMachine.exec s (ops.map (Prod.mk i)) = some (Function.update s i v) := by
  induction ops generalizing s with
  | nil =>
    rw [Machine.exec_nil, Option.some.injEq] at h
    rw [← h, Function.update_eq_self]
    rfl
  | cons op ops ih =>
    obtain ⟨o, u, hop, hrest⟩ := Machine.exec_cons_some h
    have hstep : irqMachine.step s (i, op) = some (o, Function.update s i u) := by
      change Option.map _ ((s i).step op) = _
      rw [show (s i).step op = some (o, u) from hop]
      rfl
    rw [List.map_cons, Machine.exec_cons, hstep]
    change irqMachine.exec (Function.update s i u) _ = _
    rw [ih (by rw [Function.update_self]; exact hrest), Function.update_idem]

/-- A run that goes on with a WAIT that breaks the specification. -/
theorem not_along_of_exec {s t : Irq → IrqState} {ops : List (Irq × IrqOp)} {i : Irq}
    (ht : irqMachine.exec s ops = some t) {more : List IrqOp} {v v' : IrqState} {x : ℕ}
    (hv : oneIrq.exec (t i) more = some v) (hret : v.step .returnValue = some (some x, v'))
    (hbad : ¬HandOff v (some x) v') :
    ¬irqMachine.Along HandOffStep s (ops ++ (more ++ [IrqOp.returnValue]).map (Prod.mk i)) := by
  intro hall
  rw [List.map_append, ← List.append_assoc] at hall
  have hpre : irqMachine.exec s (ops ++ more.map (Prod.mk i)) = some (Function.update t i v) := by
    rw [Machine.exec_append, ht]
    exact exec_of_oneIrq hv
  have hstep : irqMachine.step (Function.update t i v) (i, .returnValue) =
      some (some x, Function.update (Function.update t i v) i v') := by
    change Option.map _ ((Function.update t i v i).step .returnValue) = _
    rw [Function.update_self, hret]
    rfl
  have hhand : HandOffStep _ _ _ _ := hall.at hpre hstep
  unfold HandOffStep at hhand
  rw [Function.update_self, Function.update_self] at hhand
  exact hbad hhand

/-- What follows a step into a window: the handler sets the flag, and the WAIT or the next one
reports it wrongly. -/
def IrqOp.fault : IrqOp → List IrqOp
  | .testFlag => [.setFlag, .endWait false, .clearFlag]
  | _ => [.setFlag, .returnValue, .clearValue, .testFlag, .endWait false, .clearFlag]

/-- **Each unguarded step leads to a WAIT that breaks the specification.** -/
theorem fault_of_not_guard {v v' : IrqState} {op : IrqOp} {o : Option ℕ} (hv : HandOffInv v)
    (hop : v.step op = some (o, v')) (hg : ¬IrqGuard v op) :
    ∃ u u' x, oneIrq.exec v (op :: op.fault) = some u ∧
      u.step .returnValue = some (some x, u') ∧ ¬HandOff u (some x) u' := by
  obtain ⟨value, flag, inHandler, waiter, raised, reported, unreported, late⟩ := v
  have hvalue := hv.value
  have hwaiter := hv.waiter
  cases op with
  | setValue =>
    change ¬∀ byFlag, waiter ≠ .taken byFlag false at hg
    push Not at hg
    obtain ⟨byFlag, rfl⟩ := hg
    cases inHandler with
    | true => cases hop
    | false =>
      refine ⟨_, _, _, rfl, rfl, fun hhand => ?_⟩
      exact absurd (hhand.quiet 1 rfl rfl) Nat.one_ne_zero
  | clearFlag =>
    change ¬(flag = 0 → inHandler = false) at hg
    push Not at hg
    obtain ⟨rfl, hin⟩ := hg
    rw [Bool.ne_false_iff] at hin
    subst hin
    cases IrqState.enabled_of_step hop with
    | clearFlag hpc =>
      change waiter = _ at hpc
      subst hpc
      obtain rfl : value = 1 := hwaiter.1.mpr (Or.inr rfl)
      refine ⟨_, _, _, rfl, rfl, fun hhand => ?_⟩
      exact absurd (hhand.quiet 1 rfl rfl) Nat.one_ne_zero
  | testFlag =>
    change ¬(inHandler = true → value = 1 ∨ flag ≠ 0) at hg
    push Not at hg
    obtain ⟨rfl, hne, rfl⟩ := hg
    obtain rfl : value = 0 := hvalue.resolve_right hne
    cases IrqState.enabled_of_step hop with
    | testFlag hpc =>
      change waiter = _ at hpc
      subst hpc
      refine ⟨_, _, _, rfl, rfl, fun hhand => ?_⟩
      exact absurd (hhand.ended 0 _ rfl rfl) Nat.zero_ne_one
  | setFlag => exact absurd trivial hg
  | clearValue => exact absurd trivial hg
  | endWait timeout => exact absurd trivial hg
  | returnValue => exact absurd trivial hg

/-- **The hand-off.** Along every run whose steps stay out of the windows, a WAIT that the flag
ended returns 1, a WAIT with nothing to report returns 0, and no more is reported than was raised.
The windows are exact: a run that has stayed out of them and enters one has a continuation along
which the specification fails. -/
theorem hand_off_in_order (ops : List (Irq × IrqOp))
    (hg : irqMachine.Along (fun s op _ _ => InOrder s op) (fun _ => IrqState.init) ops) :
    irqMachine.Along HandOffStep (fun _ => IrqState.init) ops ∧
      ∀ i op o t t', irqMachine.exec (fun _ => IrqState.init) ops = some t →
        irqMachine.step t (i, op) = some (o, t') → ¬InOrder t (i, op) →
        ∃ more, ¬irqMachine.Along HandOffStep (fun _ => IrqState.init)
          (ops ++ (i, op) :: more) := by
  have hguard : irqMachine.Along HandOffStep (fun _ => IrqState.init) ops ∧
      ∀ t, irqMachine.exec (fun _ => IrqState.init) ops = some t → ∀ i, HandOffInv (t i) :=
    Machine.along_of_guard handOffStep_of_inOrder (fun _ => handOffInv_init) hg
  constructor
  · exact hguard.1
  · intro i op o t t' ht hop hnot
    obtain ⟨⟨o', v⟩, hstep, -⟩ := Option.map_eq_some_iff.mp hop
    obtain ⟨u, u', x, hexec, hret, hbad⟩ := fault_of_not_guard (hguard.2 t ht i) hstep hnot
    refine ⟨(op.fault ++ [IrqOp.returnValue]).map (Prod.mk i), ?_⟩
    exact not_along_of_exec ht hexec hret hbad

/-- An interrupt and the WAIT that reports it. -/
theorem hand_off_in_order_one :
    irqMachine.Along HandOffStep (fun _ => IrqState.init)
      [(.de, .setValue), (.de, .setFlag), (.de, .clearValue), (.de, .testFlag),
        (.de, .endWait false), (.de, .clearFlag), (.de, .returnValue)] := by
  refine (hand_off_in_order _ ?_).1
  intro o s hop
  cases hop
  refine ⟨fun _ => WaitPc.noConfusion, ?_⟩
  intro o s hop
  cases hop
  refine ⟨trivial, ?_⟩
  intro o s hop
  cases hop
  refine ⟨trivial, ?_⟩
  intro o s hop
  cases hop
  refine ⟨fun h => absurd h (by decide), ?_⟩
  intro o s hop
  cases hop
  refine ⟨trivial, ?_⟩
  intro o s hop
  cases hop
  refine ⟨fun h => absurd h (by decide), ?_⟩
  intro o s hop
  cases hop
  exact ⟨trivial, trivial⟩

/-- A decoder interrupt begins; the WAIT clears its value and tests before the flag is set. The flag
then ends the wait, and the WAIT returns 0. -/
theorem completion_is_lost :
    ¬∀ ops, irqMachine.Along HandOffStep (fun _ => IrqState.init) ops := by
  intro hall
  have hstep := (hall ([(.de, .setValue), (.de, .clearValue), (.de, .testFlag), (.de, .setFlag),
    (.de, .endWait false), (.de, .clearFlag)] ++ [(.de, .returnValue)])).at rfl rfl
  exact absurd (hstep.ended 0 true rfl rfl) Nat.zero_ne_one

end LonganPi.Ve
