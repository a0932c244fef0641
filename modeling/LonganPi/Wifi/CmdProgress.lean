import LonganPi.Lib.Accounts
import LonganPi.Wifi.CmdWaker

/-!
# Nothing gets stuck

From every state in which the work is woken when it has to be, the senders, the work and the
firmware can finish (`cmd_drains`): a measure of the work that is left goes down with each of their
steps.
-/

open DriverLib

namespace LonganPi.Wifi

variable {β : Type*} {s t : CmdMgr β} {op : CmdOp β} {o acts : List (CmdAct β)} {i j : ℕ}

/-! ### The work that is left -/

/-- The steps that a sender may still cause. Who queues a command may leave it to the work, with a
test, and both count for it. -/
def CmdSender.work : CmdSender → ℕ
  | .idle => 0
  | .emptying _ => 12
  | .queueing _ => 11
  | .sending _ => 7
  | .waiting | .timedOut => 5
  | .freeing _ => 4

/-- The steps of the round that the work is in. -/
def CmdWorker.work : CmdWorker → ℕ
  | .sending _ => 5
  | .waiting _ => 3
  | .freeing _ => 2
  | .looking => 1
  | _ => 0

namespace CmdMgr

/-- The commands that the work has to send. -/
def deferred (s : CmdMgr β) : ℕ := s.cmds.countP fun i => (s.cmdArray i).flags.waitPush

/-- The work that is left to the senders. -/
def senderWork (s : CmdMgr β) : ℕ := ∑ i ∈ Finset.range rwnxCmdArraySize, (s.sender i).work

/-- The work that is left. A deferred command costs the work a round. -/
def work (s : CmdMgr β) : ℕ :=
  s.senderWork + 6 * s.deferred + s.firmware.length +
    3 * (s.queueTests + s.wakes + s.listTests) + 2 * s.cmdWork.toNat + s.worker.work

/-- Only one sender moves. -/
theorem senderWork_update {p : CmdSender} (hi : i < rwnxCmdArraySize)
    (h : t.sender = Function.update s.sender i p) :
    t.senderWork + (s.sender i).work = s.senderWork + p.work := by
  rw [senderWork, h]
  exact sum_update_add_of_mem CmdSender.work s.sender (Finset.mem_range.mpr hi) p

/-- The deferred commands are those they were. -/
theorem deferred_congr (hcmds : t.cmds = s.cmds) (h : ∀ j ∈ s.cmds,
    (t.cmdArray j).flags.waitPush = (s.cmdArray j).flags.waitPush) : t.deferred = s.deferred := by
  rw [deferred, deferred, hcmds]
  exact List.countP_congr fun j hj => by rw [h j hj]

/-- The command that is appended counts if it is deferred. -/
theorem deferred_append {f : RwnxCmd β → RwnxCmd β} (hi : i ∉ s.cmds)
    (hcmds : t.cmds = s.cmds ++ [i]) (harray : t.cmdArray = (s.setCmd i f).cmdArray) :
    t.deferred = s.deferred + (f (s.cmdArray i)).flags.waitPush.toNat := by
  rw [deferred, deferred, hcmds, harray, List.countP_append]
  congr 1
  · refine List.countP_congr fun j hj => ?_
    have hne := ne_of_mem_of_not_mem hj hi
    simp [setCmd, hne]
  · simp only [setCmd, List.countP_cons, List.countP_nil, Function.update_self, Nat.zero_add]
    cases (f (s.cmdArray i)).flags.waitPush <;> rfl

end CmdMgr

/-- The steps that bring no new command. -/
def CmdOp.works : CmdOp β → Bool
  | .sender _ sent | .work sent => sent
  | .queueTest | .wake | .listTest | .confirm _ => true
  | _ => false

/-- Nobody is at work on a command. -/
structure CmdDone (s : CmdMgr β) : Prop where
  cmds : s.cmds = []
  sender : ∀ i, s.sender i = .idle
  worker : s.worker = .idle
  cmdWork : s.cmdWork = false
  tests : s.queueTests = 0 ∧ s.wakes = 0 ∧ s.listTests = 0

/-- Such a step gives up no wait. -/
theorem CmdOp.works.orderly (h : op.works) : op.orderly s := by
  cases op <;> first | rfl | cases h

/-- Such a step waits for a test, if one is due. -/
theorem CmdOp.works.prompt (h : op.works) (hu : s.untested = false) : op.prompt s := by
  cases op with
  | sender i sent =>
    obtain rfl : sent = true := h
    simp only [CmdOp.prompt, hu]
    cases s.sender i <;> rfl
  | work sent => exact h
  | queueTest => rfl
  | wake => rfl
  | listTest => rfl
  | confirm n => rfl
  | _ => cases h

/-- A test of `queue_sz` wakes the work at most, which costs less than the test. -/
theorem queueTest_works (h : s.queueTests ≠ 0) :
    ∃ o t, cmdQueueTest s = some (o, t) ∧ t.work < s.work := by
  rw [cmdQueueTest, if_neg h]
  refine ⟨_, _, rfl, ?_⟩
  have := Bool.toNat_le (s.cmdWork || decide (s.queueSz ≤ 1))
  simp only [CmdMgr.work, CmdMgr.senderWork, CmdMgr.deferred]
  omega

/-- So does a wake-up. -/
theorem wake_works (h : s.wakes ≠ 0) : ∃ o t, cmdWake s = some (o, t) ∧ t.work < s.work := by
  rw [cmdWake, if_neg h]
  refine ⟨_, _, rfl, ?_⟩
  simp only [CmdMgr.work, CmdMgr.senderWork, CmdMgr.deferred, Bool.toNat_true]
  omega

/-- So does a test of the list. -/
theorem listTest_works (h : s.listTests ≠ 0) :
    ∃ o t, cmdListTest s = some (o, t) ∧ t.work < s.work := by
  rw [cmdListTest, if_neg h]
  refine ⟨_, _, rfl, ?_⟩
  have := Bool.toNat_le (s.cmdWork || (!s.cmds.isEmpty && decide (s.state = .up)))
  simp only [CmdMgr.work, CmdMgr.senderWork, CmdMgr.deferred]
  omega

/-- The firmware has one request less. -/
theorem CmdSafe.confirm_works (hs : CmdSafe s) (h : s.firmware ≠ []) :
    ∃ o t, firmwareConfirm s 0 = some (o, t) ∧ t.work < s.work := by
  obtain ⟨r, rest, hfw⟩ := List.exists_cons_of_ne_nil h
  obtain ⟨⟨o, t⟩, hrun⟩ : ∃ x, firmwareConfirm s 0 = some x := by
    rw [firmwareConfirm, hfw]
    exact ⟨_, rfl⟩
  refine ⟨o, t, hrun, ?_⟩
  obtain ⟨i, list, hl, hpushed, -, rfl, -⟩ := hs.confirm hrun
  -- the command that leaves the list was sent, so the deferred ones are those they were
  have hdeferred : (cmdComplete (s.setCmd i fun c =>
      { c with flags := { c.flags with waitCfm := false } }) i).deferred = s.deferred := by
    have hnot : i ∉ list := by
      have := hs.nodup
      rw [hl] at this
      exact (List.nodup_cons.mp this).1
    simp only [CmdMgr.deferred, cmdComplete, CmdMgr.setCmd, hl, List.erase_cons_head,
      List.countP_cons, hpushed.2, Bool.false_eq_true, if_false, Nat.add_zero]
    refine List.countP_congr fun j hj => ?_
    have hne := ne_of_mem_of_not_mem hj hnot
    simp [hne]
  have hlen : 0 < s.firmware.length := List.length_pos_iff.mpr h
  simp only [CmdMgr.deferred] at hdeferred
  simp only [CmdMgr.work, CmdMgr.senderWork, CmdMgr.deferred, hdeferred, List.length_nil]
  simp only [cmdComplete, CmdMgr.setCmd]
  omega

/-- The work goes on when it waits for nothing. -/
theorem CmdRunning.taskProcess_works (hs : CmdSafe s) (hr : CmdRunning s) (hfw : s.firmware = [])
    (h : s.worker ≠ .idle ∨ s.cmdWork) :
    ∃ o t, cmdMgrTaskProcess s true = some (o, t) ∧ t.work < s.work := by
  rw [cmdMgrTaskProcess]
  cases hold : s.worker with
  | idle =>
    -- the round that begins costs less than the wake-up did
    have hwork : s.cmdWork = true := h.resolve_left (not_not_intro hold)
    simp only [hwork, if_true]
    refine ⟨_, _, rfl, ?_⟩
    simp only [CmdMgr.work, CmdMgr.senderWork, CmdMgr.deferred, hold, hwork, CmdWorker.work,
      Bool.toNat_true, Bool.toNat_false]
    omega
  | looking =>
    -- the work has found a deferred command, which pays for what comes, or it sleeps
    cases hl : s.cmds with
    | nil =>
      refine ⟨_, _, rfl, ?_⟩
      simp only [CmdMgr.work, CmdMgr.senderWork, CmdMgr.deferred, hold, hl, CmdWorker.work]
      omega
    | cons i rest =>
      refine ⟨_, _, rfl, ?_⟩
      have hzero : (if (s.cmdArray i).flags.waitPush then CmdWorker.pushing i else .idle).work =
          0 := by
        split <;> rfl
      have hone : CmdWorker.looking.work = 1 := rfl
      simp only [CmdMgr.work, CmdMgr.senderWork, CmdMgr.deferred, hold, hl, hzero, hone]
      omega
  | pushing i =>
    -- one command less is deferred
    refine ⟨_, _, rfl, ?_⟩
    obtain ⟨hhead, hpush⟩ := hs.pushing i hold
    obtain ⟨rest, hl⟩ := List.head?_eq_some_iff.mp hhead
    have hnot : i ∉ rest := by
      have := hs.nodup
      rw [hl] at this
      exact (List.nodup_cons.mp this).1
    have hrest : rest.countP (fun j => (Function.update s.cmdArray i { s.cmdArray i with
        flags := { (s.cmdArray i).flags with waitPush := false } } j).flags.waitPush) =
        rest.countP fun j => (s.cmdArray j).flags.waitPush := by
      refine List.countP_congr fun j hj => ?_
      have hne := ne_of_mem_of_not_mem hj hnot
      simp [hne]
    simp only [CmdMgr.work, CmdMgr.senderWork, CmdMgr.deferred, CmdMgr.setCmd, hold, hl,
      List.countP_cons, hrest, Function.update_self, hpush, CmdWorker.work, if_true,
      Bool.false_eq_true, if_false]
    omega
  | sending i =>
    -- the request is at the firmware now
    refine ⟨_, _, rfl, ?_⟩
    rw [aicwfSetCmdTx, if_pos ⟨hr.up, rfl⟩]
    simp only [CmdMgr.work, CmdMgr.senderWork, CmdMgr.deferred, hold, CmdWorker.work,
      List.length_append, List.length_singleton]
    omega
  | waiting i =>
    -- the firmware has no request, so it has answered this one
    have hc : (s.cmdArray i).complete := by
      rcases hs.awaited i (.inr hold) with hpushed | hconfirmed
      · exact absurd hfw (hr.asked i hpushed (.inr hold))
      · exact hconfirmed.2.2
    simp only [hc, if_true]
    refine ⟨_, _, rfl, ?_⟩
    simp only [CmdMgr.work, CmdMgr.senderWork, CmdMgr.deferred, hold, CmdWorker.work]
    omega
  | timedOut i => exact absurd hold (hs.timely.2 i)
  | freeing i =>
    -- the command is off the list
    refine ⟨_, _, rfl, ?_⟩
    have hdeferred : (rwnxCmdFree s i).deferred = s.deferred := by
      refine CmdMgr.deferred_congr rfl fun j hj => ?_
      have hne := ne_of_mem_of_not_mem hj (hs.freeing i hold).2
      simp [rwnxCmdFree, CmdMgr.setCmd, hne]
    simp only [CmdMgr.deferred] at hdeferred
    simp only [CmdMgr.work, CmdMgr.senderWork, CmdMgr.deferred, hold, hdeferred, CmdWorker.work]
    simp only [rwnxCmdFree, CmdMgr.setCmd]
    omega

/-- Who has not returned has a command. -/
theorem CmdSafe.used_of_ne (hs : CmdSafe s) (h : s.sender i ≠ .idle) : (s.cmdArray i).used :=
  Bool.of_not_eq_false fun hu => h (hs.unused_idle hu).1

/-- The sender goes on, unless it waits for the list to be empty. -/
theorem CmdRunning.senderStep_works (hs : CmdSafe s) (hr : CmdRunning s) (hfw : s.firmware = [])
    (hne : s.sender i ≠ .idle) (he : ∀ reqcfm, s.sender i = .emptying reqcfm → s.cmds = []) :
    ∃ o t, cmdSenderStep s i true = some (o, t) ∧ t.work < s.work := by
  have hi := hr.bound i (hs.used_of_ne hne)
  rw [cmdSenderStep]
  cases hold : s.sender i with
  | idle => exact absurd hold hne
  | emptying reqcfm =>
    -- the list is empty, so the sender goes on
    simp only [he reqcfm hold, List.isEmpty_nil, Bool.or_true, if_true]
    refine ⟨_, _, rfl, ?_⟩
    have hsum := CmdMgr.senderWork_update (t := s.setSender i
      (if reqcfm then .queueing false else .sending false)) hi rfl
    have hle : (if reqcfm then CmdSender.queueing false else .sending false).work ≤ 11 := by
      split <;> decide
    rw [hold, CmdSender.work] at hsum
    simp only [CmdMgr.work, CmdMgr.deferred]
    simp only [CmdMgr.setSender] at hsum ⊢
    omega
  | queueing defer =>
    -- the list takes the command or refuses it
    have hlist := (hs.outside i (by rw [hold]; rfl)).2
    have hclear := (hs.unlisted i hlist).1
    have hrefuse : (s.setSender i (.freeing false)).work < s.work := by
      have hsum := CmdMgr.senderWork_update (t := s.setSender i (.freeing false)) hi rfl
      rw [hold, CmdSender.work, CmdSender.work] at hsum
      simp only [CmdMgr.work, CmdMgr.deferred]
      simp only [CmdMgr.setSender] at hsum ⊢
      omega
    -- a deferred command costs less than its sender did, and so does the next step of a sender
    have happend : ∀ (deferPush : Bool) (p : CmdSender) (n m : ℕ),
        p.work + 6 * deferPush.toNat + 3 * (n + m) < 11 + 3 * (s.queueTests + s.wakes) →
        CmdMgr.work { (s.setCmd i fun c => c.queue deferPush).setSender i p with
          cmds := s.cmds ++ [i]
          queueSz := s.queueSz + 1
          queueTests := n
          wakes := m } < s.work := by
      intro deferPush p n m hlt
      have hsum := CmdMgr.senderWork_update (t := s.setSender i p) hi rfl
      have hdeferred := CmdMgr.deferred_append (f := fun c => c.queue deferPush)
        (t := { s.setCmd i fun c => c.queue deferPush with cmds := s.cmds ++ [i] }) hlist rfl rfl
      simp only [RwnxCmd.queue, hclear, Bool.false_or] at hdeferred
      rw [hold, CmdSender.work] at hsum
      simp only [CmdMgr.work]
      simp only [CmdMgr.senderWork, CmdMgr.deferred, CmdMgr.setSender, CmdMgr.setCmd,
        RwnxCmd.queue] at hsum hdeferred ⊢
      omega
    refine ⟨_, _, rfl, ?_⟩
    cases defer with
    | false =>
      simp only [cmdMgrQueue]
      split
      · exact hrefuse
      split
      · next hd =>
        rw [hd]
        exact happend true .idle (s.queueTests + 1) s.wakes (by simp [CmdSender.work]; omega)
      · next hd =>
        rw [Bool.not_eq_true] at hd
        rw [hd]
        exact happend false (.sending true) s.queueTests s.wakes (by simp [CmdSender.work])
    | true =>
      simp only [cmdMgrQueueForceDefer]
      split
      · exact hrefuse
      · exact happend true .idle s.queueTests (s.wakes + 1) (by simp [CmdSender.work]; omega)
  | sending reqcfm =>
    cases reqcfm with
    | false =>
      refine ⟨_, _, rfl, ?_⟩
      have hsum := CmdMgr.senderWork_update (t := s.setSender i (.freeing false)) hi rfl
      rw [hold, CmdSender.work, CmdSender.work] at hsum
      simp only [CmdMgr.work, CmdMgr.deferred]
      simp only [CmdMgr.setSender] at hsum ⊢
      omega
    | true =>
      refine ⟨_, _, rfl, ?_⟩
      have hsum := CmdMgr.senderWork_update (t := s.setSender i .waiting) hi rfl
      rw [hold, CmdSender.work, CmdSender.work] at hsum
      rw [aicwfSetCmdTx, if_pos ⟨hr.up, rfl⟩, (hs.plain i).1]
      simp only [CmdMgr.work, CmdMgr.deferred]
      simp only [CmdMgr.senderWork, CmdMgr.setSender, List.length_append, List.length_singleton,
        Bool.false_eq_true, if_false] at hsum ⊢
      omega
  | waiting =>
    -- the firmware has no request, so it has answered this one
    have hc : (s.cmdArray i).complete := by
      rcases hs.awaited i (.inl hold) with hpushed | hconfirmed
      · exact absurd hfw (hr.asked i hpushed (.inl hold))
      · exact hconfirmed.2.2
    simp only [hc, if_true]
    refine ⟨_, _, rfl, ?_⟩
    have hsum := CmdMgr.senderWork_update (t := s.setSender i (.freeing true)) hi rfl
    rw [hold, CmdSender.work, CmdSender.work] at hsum
    simp only [CmdMgr.work, CmdMgr.deferred]
    simp only [CmdMgr.setSender] at hsum ⊢
    omega
  | timedOut => exact absurd hold (hs.timely.1 i)
  | freeing test =>
    -- the command is off the list, and a test costs less than the sender did
    have hlist := (hs.outside i (by rw [hold]; rfl)).2
    have hsum := CmdMgr.senderWork_update (s := s) (t := (rwnxCmdFree s i).setSender i .idle) hi rfl
    have hdeferred : ((rwnxCmdFree s i).setSender i .idle).deferred = s.deferred := by
      refine CmdMgr.deferred_congr rfl fun j hj => ?_
      have hne := ne_of_mem_of_not_mem hj hlist
      simp [rwnxCmdFree, CmdMgr.setSender, CmdMgr.setCmd, hne]
    rw [hold, CmdSender.work, CmdSender.work] at hsum
    refine ⟨_, _, rfl, ?_⟩
    simp only [CmdMgr.work]
    simp only [CmdMgr.senderWork, CmdMgr.deferred] at hsum hdeferred ⊢
    cases test <;> simp only [Bool.false_eq_true, if_true, if_false] <;>
      simp only [rwnxCmdFree, CmdMgr.setSender, CmdMgr.setCmd] at hsum hdeferred ⊢ <;> omega

/-- Someone can go on, unless nobody has work left. -/
theorem CmdRunning.progress (hs : CmdSafe s) (hr : CmdRunning s) (hd : ¬CmdDone s) :
    ∃ op o t, op.works ∧ op.prompt s ∧ (cmdMachine β).step s op = some (o, t) ∧
      t.work < s.work := by
  -- first the tests, so that none is due when a command is queued
  by_cases hq : s.queueTests = 0
  swap
  · obtain ⟨o, t, hrun, hlt⟩ := queueTest_works hq
    exact ⟨.queueTest, o, t, rfl, rfl, hrun, hlt⟩
  have hu : s.untested = false := by simp [CmdMgr.untested, hq]
  suffices ∃ op o t, op.works ∧ (cmdMachine β).step s op = some (o, t) ∧ t.work < s.work by
    obtain ⟨op, o, t, hop, hrun, hlt⟩ := this
    exact ⟨op, o, t, hop, CmdOp.works.prompt hop hu, hrun, hlt⟩
  by_cases hw : s.wakes = 0
  swap
  · obtain ⟨o, t, hrun, hlt⟩ := wake_works hw
    exact ⟨.wake, o, t, rfl, hrun, hlt⟩
  by_cases ht : s.listTests = 0
  swap
  · obtain ⟨o, t, hrun, hlt⟩ := listTest_works ht
    exact ⟨.listTest, o, t, rfl, hrun, hlt⟩
  -- then the firmware, so that who waits has its answer
  by_cases hfw : s.firmware = []
  swap
  · obtain ⟨o, t, hrun, hlt⟩ := hs.confirm_works hfw
    exact ⟨.confirm 0, o, t, rfl, hrun, hlt⟩
  by_cases hwork : s.worker ≠ .idle ∨ s.cmdWork
  · obtain ⟨o, t, hrun, hlt⟩ := hr.taskProcess_works hs hfw hwork
    exact ⟨.work true, o, t, rfl, hrun, hlt⟩
  rw [not_or, not_not, Bool.not_eq_true] at hwork
  obtain ⟨hidle, hcmdWork⟩ := hwork
  -- what is left is a sender
  suffices ∃ i, s.sender i ≠ .idle ∧ ∀ reqcfm, s.sender i = .emptying reqcfm → s.cmds = [] by
    obtain ⟨i, hne, he⟩ := this
    obtain ⟨o, t, hrun, hlt⟩ := hr.senderStep_works hs hfw hne he
    exact ⟨.sender i true, o, t, rfl, hrun, hlt⟩
  cases hl : s.cmds with
  | nil =>
    -- a sender that waits for an empty list can go on
    by_contra hnone
    refine hd ⟨hl, fun i => ?_, hidle, hcmdWork, hq, hw, ht⟩
    by_contra hne
    exact hnone ⟨i, hne, fun _ _ => rfl⟩
  | cons i rest =>
    have hhead : s.cmds.head? = some i := by rw [hl]; rfl
    cases hpush : (s.cmdArray i).flags.waitPush with
    | false =>
      -- the first command was sent or is about to be, and not by the work
      rcases hs.owner i ⟨List.mem_of_head? hhead, hpush⟩ with (hsend | hsend) | (hwait | hwait)
      · exact ⟨i, by simp [hsend], by simp [hsend]⟩
      · exact absurd hsend (by simp [hidle])
      · exact ⟨i, by simp [hwait], by simp [hwait]⟩
      · exact absurd hwait (by simp [hidle])
    | true =>
      -- of those who could wake the work, only a sender is left
      have hwaker := hr.waker i hhead hpush
      simp only [CmdMgr.Waker, CmdMgr.Roused, CmdMgr.Rouses, hcmdWork, hidle, hw, ht, hq, ne_eq,
        not_true_eq_false, Bool.false_eq_true, false_and, false_or] at hwaker
      obtain ⟨j, hj | hj⟩ := hwaker
      · exact ⟨j, by simp [hj], by simp [hj]⟩
      · exact ⟨j, by simp [hj.1], by simp [hj.1]⟩

end LonganPi.Wifi
