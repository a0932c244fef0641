import LonganPi.Wifi.CmdProtocol

/-!
# Who wakes the work

A command that was deferred is sent by the work, and the work has to be woken. Who queues a command
on an empty list wakes it, and so does each sender whose command is confirmed. As long as the bus is
up, and no command is queued between a deferral on an empty list and the test of `queue_sz` that
follows it, a deferred command that is first has somebody who will wake the work
(`CmdRunning.step`).
-/

open DriverLib

namespace LonganPi.Wifi

variable {β : Type*} {s t : CmdMgr β} {op : CmdOp β} {o acts : List (CmdAct β)} {i j : ℕ}

/-! ### Who wakes the work -/

namespace CmdMgr

/-- The work runs, or is scheduled, or a wake-up or a test is to come that schedules it. -/
def Roused (s : CmdMgr β) : Prop :=
  s.cmdWork ∨ s.worker ≠ .idle ∨ s.wakes ≠ 0 ∨ s.listTests ≠ 0 ∨
    (s.queueTests ≠ 0 ∧ s.queueSz = 1)

/-- The sender has its confirmation, and will test the list. -/
def Rouses (s : CmdMgr β) (i : ℕ) : Prop :=
  s.sender i = .freeing true ∨ s.sender i = .waiting ∧ (s.cmdArray i).complete

instance : Decidable s.Roused :=
  inferInstanceAs (Decidable (_ ∨ _ ∨ _ ∨ _ ∨ _ ∧ _))

instance : Decidable (s.Rouses i) :=
  inferInstanceAs (Decidable (_ ∨ _ ∧ _))

/-- The work runs, or somebody will wake it. -/
def Waker (s : CmdMgr β) : Prop := s.Roused ∨ ∃ i, s.Rouses i

/-- Who has no confirmation and waits for none does not wake the work. -/
theorem not_rouses {p : CmdSender} (hp : s.sender i = p) (hfree : p ≠ .freeing true)
    (hwait : p ≠ .waiting) : ¬s.Rouses i := by
  rintro (h | ⟨h, -⟩)
  · exact hfree (hp.symm.trans h)
  · exact hwait (hp.symm.trans h)

theorem Same.rouses (h : s.Same t j) : t.Rouses j ↔ s.Rouses j := by
  rw [Rouses, Rouses, h.sender, h.cmd]

/-- A step on a command whose sender does not wake the work leaves the others. -/
theorem Waker.touch (h : s.Waker) (hsame : ∀ j ≠ i, s.Same t j) (hi : ¬s.Rouses i)
    (hroused : s.Roused → t.Roused) : t.Waker := by
  rcases h with h | ⟨j, hj⟩
  · exact .inl (hroused h)
  · exact .inr ⟨j, (hsame j fun hji => hi (hji ▸ hj)).rouses.mpr hj⟩

end CmdMgr

/-- Somebody goes on with every command: the firmware has the request of a command that is waited
for, and when the first command is deferred, somebody wakes the work. -/
structure CmdRunning (s : CmdMgr β) : Prop where
  up : s.state = .up
  running : s.crashed = false
  bound : ∀ i, (s.cmdArray i).used → i < rwnxCmdArraySize
  asked : ∀ i, s.Pushed i → s.Awaited i → s.firmware ≠ []
  waker : ∀ i, s.cmds.head? = some i → (s.cmdArray i).flags.waitPush → s.Waker

/-- The only command of the list is deferred, and perhaps its sender has yet to test `queue_sz`. -/
def CmdMgr.untested (s : CmdMgr β) : Bool :=
  s.queueTests != 0 && s.queueSz == 1 && s.cmds.any fun i => (s.cmdArray i).flags.waitPush

/-- The bus stays up and transfers succeed, no wait is given up, and nobody queues a command between
the deferral of the only command and the test of its sender. -/
def CmdOp.prompt (s : CmdMgr β) : CmdOp β → Bool
  | .sender i sent =>
    sent && match s.sender i with
      | .queueing _ => !s.untested
      | _ => true
  | .work sent => sent
  | .usb state => state = .up
  | op => op.orderly s

/-- Such a step gives up no wait. -/
theorem CmdOp.prompt.orderly (h : op.prompt s) : op.orderly s := by
  cases op <;> first | rfl | exact h

/-- A step that touches one command, which is not in the list. -/
theorem CmdRunning.touch (hr : CmdRunning s) (hsame : ∀ j ≠ i, s.Same t j)
    (hup : t.state = s.state) (hrunning : t.crashed = s.crashed)
    (hbound : (t.cmdArray i).used → i < rwnxCmdArraySize) (hnot : i ∉ s.cmds)
    (hcmds : t.cmds = s.cmds) (hfw : t.firmware = s.firmware) (hwaker : s.Waker → t.Waker) :
    CmdRunning t where
  up := hup.trans hr.up
  running := hrunning.trans hr.running
  bound := fun j hj => by
    by_cases hji : j = i
    · subst hji
      exact hbound hj
    · rw [(hsame j hji).cmd] at hj
      exact hr.bound j hj
  asked := fun j hp ha => by
    have hji : j ≠ i := fun hji => hnot (hji ▸ hcmds ▸ hp.1)
    rw [hfw]
    exact hr.asked j ((hsame j hji).pushed.mp hp) ((hsame j hji).awaited.mp ha)
  waker := fun j hj hpush => by
    rw [hcmds] at hj
    have hji : j ≠ i := fun hji => hnot (hji ▸ List.mem_of_head? hj)
    rw [(hsame j hji).cmd] at hpush
    exact hwaker (hr.waker j hj hpush)

/-- A command is taken, which is nowhere yet. -/
theorem CmdRunning.begin {msg : LmacMsg β} {reqid : ℕ} {reqcfm cfm : Bool} {p : CmdSender}
    (hs : CmdSafe s) (hr : CmdRunning s)
    (h : rwnxSendMsgBegin s msg reqid reqcfm cfm p = some (o, t)) : CmdRunning t := by
  -- the bus is up, so the message is not dropped
  rw [rwnxSendMsgBegin, if_neg (by rw [hr.up]; decide)] at h
  obtain ⟨i, hi, heq⟩ := Option.map_eq_some_iff.mp h
  obtain ⟨-, rfl⟩ := Prod.mk.inj heq
  have hlt : i < rwnxCmdArraySize := List.mem_range.mp (List.mem_of_find?_eq_some hi)
  obtain ⟨hidle, hlist, -⟩ := hs.unused_idle (rwnxCmdMalloc_used hi)
  have hsame : ∀ j ≠ i, s.Same
      ((s.setCmd i fun c => c.fill msg reqid reqcfm cfm).setSender i p) j := fun j hj =>
    ⟨CmdMgr.setCmd_of_ne hj fun c => c.fill msg reqid reqcfm cfm, CmdMgr.setSender_of_ne hj p,
      Iff.rfl, id, .inl rfl⟩
  exact hr.touch hsame rfl rfl (fun _ => hlt) hlist rfl rfl fun hw =>
    hw.touch hsame (CmdMgr.not_rouses hidle CmdSender.noConfusion CmdSender.noConfusion) id

/-- A sender moves that has no command in the list. -/
theorem CmdRunning.move {p : CmdSender} (hr : CmdRunning s) (hout : s.Outside i)
    (hne : ¬s.Rouses i) : CmdRunning (s.setSender i p) := by
  have hsame : ∀ j ≠ i, s.Same (s.setSender i p) j := fun j hj => .setSender hj p
  exact hr.touch hsame rfl rfl (fun _ => hr.bound i hout.1) hout.2 rfl rfl fun hw =>
    hw.touch hsame hne id

/-- A command is appended. Its sender wakes the work when nobody else does. -/
theorem CmdRunning.append {defer : Bool} {p : CmdSender} (hs : CmdSafe s) (hr : CmdRunning s)
    (hold : s.sender i = .queueing defer) (hu : s.untested = false) (deferPush : Bool)
    (hp : p ≠ .waiting) {n m : ℕ} (hm : s.wakes ≤ m)
    (hwake : deferPush → s.queueTests < n ∨ s.wakes < m) :
    CmdRunning { (s.setCmd i fun c => c.queue deferPush).setSender i p with
      cmds := s.cmds ++ [i]
      queueSz := s.queueSz + 1
      queueTests := n
      wakes := m } := by
  obtain ⟨⟨hused, hlist⟩, -⟩ := hs.senderAt hold
  have hnrouses : ¬s.Rouses i :=
    CmdMgr.not_rouses hold CmdSender.noConfusion CmdSender.noConfusion
  have hpush : ((s.setCmd i fun c => c.queue deferPush).cmdArray i).flags.waitPush =
      deferPush := by
    rw [CmdMgr.setCmd_self, RwnxCmd.queue, (hs.unlisted i hlist).1, Bool.false_or]
  have hsame : ∀ j ≠ i, s.Same { (s.setCmd i fun c => c.queue deferPush).setSender i p with
      cmds := s.cmds ++ [i]
      queueSz := s.queueSz + 1
      queueTests := n
      wakes := m } j := fun j hj => by
    refine ⟨CmdMgr.setCmd_of_ne hj fun c => c.queue deferPush, CmdMgr.setSender_of_ne hj p, ?_,
      fun hhead => ?_, .inl rfl⟩
    · rw [List.mem_append, List.mem_singleton, or_iff_left hj]
    · change (s.cmds ++ [i]).head? = some j
      rw [List.head?_append, hhead]
      rfl
  refine ⟨hr.up, hr.running, fun j hj => ?_, fun j hj ha => ?_, fun j hj hw => ?_⟩
  · -- the slot is one of the array
    by_cases hji : j = i
    · rw [hji]
      exact hr.bound i hused
    · rw [(hsame j hji).cmd] at hj
      exact hr.bound j hj
  · by_cases hji : j = i
    · -- nobody waits for the new command
      subst hji
      rcases ha with ha | ha
      · exact absurd ((CmdMgr.setSender_self p).symm.trans ha) hp
      · have hidle := hs.apart j (congrArg CmdWorker.cmd? ha)
        rw [hold] at hidle
        cases hidle
    · exact hr.asked j ((hsame j hji).pushed.mp hj) ((hsame j hji).awaited.mp ha)
  · change (s.cmds ++ [i]).head? = some j at hj
    rw [List.head?_append] at hj
    cases hhead : s.cmds.head? with
    | none =>
      -- the new command is the first, and its sender wakes the work
      rw [hhead] at hj
      obtain rfl := Option.some.inj hj
      have hzero : s.queueSz = 0 := by
        rw [hs.size, List.head?_eq_none_iff.mp hhead, List.length_nil]
      rcases hwake (hpush.symm.trans hw) with hlt | hlt
      · exact .inl (.inr (.inr (.inr (.inr ⟨Nat.ne_zero_of_lt hlt, by rw [hzero]⟩))))
      · exact .inl (.inr (.inr (.inl (Nat.ne_zero_of_lt hlt))))
    | some k =>
      -- the first command is the one it was; no test finds it alone, by the guard
      rw [hhead] at hj
      obtain rfl := Option.some.inj hj
      have hmem := List.mem_of_head? hhead
      rw [(hsame k fun hki => hlist (hki ▸ hmem)).cmd] at hw
      refine (hr.waker k hhead hw).touch hsame hnrouses ?_
      rintro (h | h | h | h | ⟨htests, hone⟩)
      · exact .inl h
      · exact .inr (.inl h)
      · exact .inr (.inr (.inl fun hz => h (Nat.le_zero.mp (hz ▸ hm))))
      · exact .inr (.inr (.inr (.inl h)))
      · have hnone : ∀ l ∈ s.cmds, (s.cmdArray l).flags.waitPush = false := by
          simpa [CmdMgr.untested, htests, hone] using hu
        rw [hnone k hmem] at hw
        cases hw

/-- The first command is sent, by its sender or by the work, and its request is at the firmware. -/
theorem CmdRunning.sent (hs : CmdSafe s) (hr : CmdRunning s) (hold : s.Sending i)
    (p : ℕ → CmdSender) (w : CmdWorker) :
    CmdRunning { aicwfSetCmdTx s i true with sender := p, worker := w } := by
  have hpushed := hs.sending i hold
  have hhead := hs.pushed_head hpushed
  rw [aicwfSetCmdTx, if_pos ⟨hr.up, rfl⟩]
  obtain ⟨hup, hrunning, hbound, hasked, hwaker⟩ := hr
  constructor
  case up => exact hup
  case running => exact hrunning
  case bound => exact hbound
  -- the request is the last that the firmware has
  case asked => exact fun _ _ _ => List.append_ne_nil_of_right_ne_nil _ (List.cons_ne_nil _ _)
  case waker =>
    -- the first command is not deferred
    intro j hj hpush
    rw [show s.cmds.head? = some j from hj] at hhead
    cases hhead
    exact absurd hpush (by rw [hpushed.2]; decide)

/-- A step of a sender keeps somebody at work. -/
theorem CmdRunning.senderStep {sent : Bool} (hs : CmdSafe s) (hr : CmdRunning s)
    (hop : (CmdOp.sender i sent : CmdOp β).prompt s) (h : cmdSenderStep s i sent = some (o, t)) :
    CmdRunning t := by
  rw [cmdSenderStep] at h
  rw [CmdOp.prompt, Bool.and_eq_true] at hop
  obtain ⟨rfl, hop⟩ := hop
  cases hold : s.sender i with
  | idle => simp [hold] at h
  | emptying reqcfm =>
    -- the command is outside the list, before and after
    simp only [hold] at h
    split at h
    · cases h
      exact hr.move (hs.senderAt hold).1
        (CmdMgr.not_rouses hold CmdSender.noConfusion CmdSender.noConfusion)
    · cases h
  | queueing defer =>
    have hu : s.untested = false := by simpa [hold] using hop
    have hrefuse : CmdRunning (s.setSender i (.freeing false)) :=
      hr.move (hs.senderAt hold).1
        (CmdMgr.not_rouses hold CmdSender.noConfusion CmdSender.noConfusion)
    simp only [hold, Option.some.injEq] at h
    cases defer with
    | false =>
      obtain rfl : (cmdMgrQueue s i).2 = t := (Prod.ext_iff.mp h).2
      rw [cmdMgrQueue]
      split
      · exact hrefuse
      dsimp only
      split
      · -- a deferred command is followed by the test of `queue_sz`
        exact hr.append hs hold hu _ (by simp) (Nat.le_refl s.wakes)
          fun _ => .inl (Nat.lt_succ_self _)
      · -- a command that is sent at once needs nobody
        next hd =>
        exact hr.append hs hold hu _ (by simp) (Nat.le_refl s.wakes)
          fun hd' => absurd hd' hd
    | true =>
      obtain rfl : (cmdMgrQueueForceDefer s i).2 = t := (Prod.ext_iff.mp h).2
      rw [cmdMgrQueueForceDefer]
      split
      · exact hrefuse
      · -- the work is woken without a test
        exact hr.append hs hold hu true (by simp) (Nat.le_succ s.wakes)
          fun _ => .inr (Nat.lt_succ_self _)
  | sending reqcfm =>
    cases reqcfm with
    | false =>
      simp only [hold] at h
      cases h
      exact hr.move (hs.senderAt hold)
        (CmdMgr.not_rouses hold CmdSender.noConfusion CmdSender.noConfusion)
    | true =>
      simp only [hold, (hs.plain i).1] at h
      cases h
      have := hr.sent hs (.inl hold) (Function.update (aicwfSetCmdTx s i true).sender i .waiting)
        s.worker
      rwa [← aicwfSetCmdTx_worker s i true] at this
  | waiting =>
    simp only [hold] at h
    split at h
    · next hc =>
      cases h
      -- the sender has its confirmation, and will test the list
      have hconfirmed := hs.confirmed_of_complete (hs.senderAt hold) hc
      exact hr.touch (fun j hj => .setSender hj (.freeing true)) rfl rfl
        (fun _ => hr.bound i hconfirmed.2.1) hconfirmed.1 rfl rfl
        fun _ => .inr ⟨i, .inl (CmdMgr.setSender_self _)⟩
    · cases h
  | timedOut => exact absurd hold (hs.timely.1 i)
  | freeing test =>
    have hlist := (hs.senderAt hold).2
    have hsame : ∀ j ≠ i, s.Same ((rwnxCmdFree s i).setSender i .idle) j := fun j hj =>
      ⟨CmdMgr.setCmd_of_ne hj fun c => { c with used := false }, CmdMgr.setSender_of_ne hj _,
        Iff.rfl, id, .inl rfl⟩
    have hfree : ((rwnxCmdFree s i).cmdArray i).used → i < rwnxCmdArraySize := fun hused => by
      rw [rwnxCmdFree, CmdMgr.setCmd_self] at hused
      cases hused
    simp only [hold] at h
    cases h
    cases test with
    | false =>
      exact hr.touch hsame rfl rfl hfree hlist rfl rfl fun hw =>
        hw.touch hsame (CmdMgr.not_rouses hold (fun h => by cases h) CmdSender.noConfusion) id
    | true =>
      -- the test that is still to come takes the place of its sender
      exact hr.touch (fun j hj => ⟨(hsame j hj).cmd, (hsame j hj).sender, Iff.rfl, id, .inl rfl⟩)
        rfl rfl hfree hlist rfl rfl fun _ =>
          .inl (.inr (.inr (.inr (.inl (Nat.succ_ne_zero s.listTests)))))

/-- So does a step of the work, which looks at the list again before it sleeps. -/
theorem CmdRunning.taskProcess (hs : CmdSafe s) (hr : CmdRunning s)
    (h : cmdMgrTaskProcess s true = some (o, t)) : CmdRunning t := by
  rw [cmdMgrTaskProcess] at h
  -- the work goes on, and waits for no command of the list
  have hgo : ∀ (w : CmdWorker) (cmdWork : Bool), (∀ i, w ≠ .waiting i) →
      (w = .idle → ∀ i, s.cmds.head? = some i → (s.cmdArray i).flags.waitPush = false) →
      CmdRunning { s with worker := w, cmdWork := cmdWork } := by
    intro w cmdWork hw hidle
    obtain ⟨hup, hrunning, hbound, hasked, hwaker⟩ := hr
    refine ⟨hup, hrunning, hbound, fun i hp ha => ?_, fun i hi hpush => ?_⟩
    · exact hasked i hp (.inl (ha.resolve_right (hw i)))
    · exact .inl (.inr (.inl fun heq => Bool.false_ne_true ((hidle heq i hi).symm.trans hpush)))
  cases hold : s.worker with
  | idle =>
    simp only [hold] at h
    split at h
    · cases h
      exact hgo _ _ (by simp) (by simp)
    · cases h
  | looking =>
    simp only [hold] at h
    split at h
    · next hl =>
      cases h
      -- the list is empty, so the work may sleep
      exact hgo _ _ (by simp) (by simp [hl])
    · next i rest hl =>
      cases h
      -- it sleeps only when the first command is not deferred
      refine hgo _ _ (fun j => ?_) fun hw j hj => ?_
      · split <;> simp
      · rw [hl, List.head?_cons, Option.some.injEq] at hj
        rw [← hj]
        simpa using hw
  | pushing i =>
    simp only [hold] at h
    cases h
    obtain ⟨hhead, hpush⟩ := hs.pushing i hold
    have hmem := List.mem_of_head? hhead
    have hcmd : ∀ j ≠ i, (s.setCmd i fun c =>
        { c with flags := { c.flags with waitPush := false } }).cmdArray j = s.cmdArray j :=
      fun j hji => CmdMgr.setCmd_of_ne hji _
    refine ⟨hr.up, hr.running, fun j hj => ?_, fun j hj ha => ?_, fun j hj hw => ?_⟩
    · by_cases hji : j = i
      · rw [hji]
        exact hr.bound i (hs.listed i hmem).1
      · exact hr.bound j (by rwa [hcmd j hji] at hj)
    · by_cases hji : j = i
      · -- the command has no sender, and the work has yet to send it
        rcases ha with ha | ha
        · rw [hji] at ha
          exact absurd ((hs.deferred_idle hmem hpush).symm.trans ha) CmdSender.noConfusion
        · cases ha
      · have hpushed : s.Pushed j := ⟨hj.1, by rw [← hcmd j hji]; exact hj.2⟩
        exact absurd (Option.some.inj ((hs.pushed_head hpushed).symm.trans hhead)) hji
    · rw [show s.cmds.head? = some j from hj, Option.some.injEq] at hhead
      subst hhead
      rw [CmdMgr.setCmd_self] at hw
      cases hw
  | sending i =>
    simp only [hold] at h
    cases h
    exact hr.sent hs (.inr hold) _ (.waiting i)
  | waiting i =>
    simp only [hold] at h
    split at h
    · cases h
      exact hgo _ _ (by simp) (by simp)
    · cases h
  | timedOut i => exact absurd hold (hs.timely.2 i)
  | freeing i =>
    have hsame : ∀ j ≠ i, s.Same { rwnxCmdFree s i with worker := .looking } j := fun j hj =>
      ⟨CmdMgr.setCmd_of_ne hj fun c => { c with used := false }, rfl, Iff.rfl, id,
        .inr ⟨(Option.some_ne_none j).symm, by
          rw [hold]
          exact fun h => hj (Option.some.inj h).symm⟩⟩
    simp only [hold] at h
    cases h
    -- the work goes on with the list
    refine hr.touch hsame rfl rfl (fun hused => ?_) (hs.freeing i hold).2 rfl rfl fun _ =>
      .inl (.inr (.inl CmdWorker.noConfusion))
    rw [rwnxCmdFree, CmdMgr.setCmd_self] at hused
    cases hused

/-- The next command is deferred, and the one who has waited wakes the work. -/
theorem CmdRunning.confirm {n : ℕ} (hs : CmdSafe s) (hr : CmdRunning s)
    (h : firmwareConfirm s n = some (o, t)) : CmdRunning t := by
  obtain ⟨i, rest, hl, hpushed, hawaited, rfl, -⟩ := hs.confirm h
  have hcfm := cmdComplete_cfm (hs.plain i)
  have hold : ∀ j ≠ i, (cmdComplete (s.setCmd i fun c =>
      { c with flags := { c.flags with waitCfm := false } }) i).cmdArray j = s.cmdArray j :=
    fun j hj => (cmdComplete_of_ne hj).trans (CmdMgr.setCmd_of_ne hj _)
  have hmem : ∀ j ∈ s.cmds.erase i, j ≠ i ∧ (s.cmdArray j).flags.waitPush := fun j hj => by
    have hbehind := hs.behind j
    obtain ⟨hji, -⟩ := hs.nodup.mem_erase_iff.mp hj
    rw [hl, List.erase_cons_head] at hj
    rw [hl] at hbehind
    exact ⟨hji, hbehind hj⟩
  refine ⟨hr.up, hr.running, fun j hj => ?_, fun j hj _ => ?_, fun j _ _ => ?_⟩
  · by_cases hji : j = i
    · rw [hji]
      exact hr.bound i (hs.listed i hpushed.1).1
    · rw [hold j hji] at hj
      exact hr.bound j hj
  · -- the commands that are left are deferred
    obtain ⟨hji, hpush⟩ := hmem j hj.1
    have hnow := hj.2
    rw [hold j hji, hpush] at hnow
    cases hnow
  · -- who has waited for this one is there to wake the work
    rcases hawaited with hwait | hwait
    · exact .inr ⟨i, .inr ⟨hwait, congrArg (·.complete) hcfm⟩⟩
    · refine .inl (.inr (.inl fun hidle => ?_))
      exact CmdWorker.noConfusion (hwait.symm.trans hidle)

/-- **Somebody goes on** after every step, as long as no command is queued before a test that is
due. -/
theorem CmdRunning.step (hs : CmdSafe s) (hr : CmdRunning s) (hop : op.prompt s)
    (h : (cmdMachine β).step s op = some (o, t)) : CmdRunning t := by
  cases op with
  | send msg reqid reqcfm cfm => exact hr.begin hs h
  | send1 msg reqid reqcfm cfm defer => exact hr.begin hs h
  | sender i sent => exact hr.senderStep hs hop h
  | timeout i => cases hop
  | kill i => cases hop
  | queueTest =>
    simp only [cmdMachine, cmdQueueTest] at h
    split at h <;> cases h
    refine ⟨hr.up, hr.running, hr.bound, hr.asked, fun i hi hpush => ?_⟩
    refine (hr.waker i hi hpush).imp_left ?_
    rintro (hw | hw | hw | hw | ⟨-, hone⟩)
    · exact .inl (by rw [hw, Bool.true_or])
    · exact .inr (.inl hw)
    · exact .inr (.inr (.inl hw))
    · exact .inr (.inr (.inr (.inl hw)))
    · -- this is the test, or as good as the one to come
      exact .inl (by rw [hone]; exact Bool.or_true _)
  | wake =>
    simp only [cmdMachine, cmdWake] at h
    split at h <;> cases h
    exact ⟨hr.up, hr.running, hr.bound, hr.asked, fun _ _ _ => .inl (.inl rfl)⟩
  | listTest =>
    simp only [cmdMachine, cmdListTest] at h
    split at h <;> cases h
    refine ⟨hr.up, hr.running, hr.bound, hr.asked, fun i hi _ => .inl (.inl ?_)⟩
    -- the bus is up, so the test succeeds
    have hne : s.cmds ≠ [] := List.ne_nil_of_mem (List.mem_of_head? hi)
    simp [hr.up, hne]
  | work sent =>
    obtain rfl : sent = true := hop
    exact hr.taskProcess hs h
  | workTimeout => cases hop
  | confirm n => exact hr.confirm hs h
  | indicate id cb =>
    have hnone : cb = false ∨ ∀ i ∈ s.cmds, (s.cmdArray i).reqid ≠ id := by
      simpa [CmdOp.orderly] using CmdOp.prompt.orderly hop
    cases (msgind_none hnone).symm.trans (Option.some.inj h)
    exact hr
  | usb state =>
    obtain rfl : state = .up := of_decide_eq_true hop
    cases h
    exact ⟨rfl, hr.running, hr.bound, hr.asked, hr.waker⟩

end LonganPi.Wifi
