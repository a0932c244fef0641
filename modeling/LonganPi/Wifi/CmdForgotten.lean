import LonganPi.Wifi.CmdWaker

/-!
# Commands that are forgotten

When `cmd_mgr_queue` defers a command on an empty list, the sender wakes the work after a test of
`queue_sz`, which is not made under the lock. When a second command is queued before the test, both
senders find two commands, and nobody wakes the work. Then nothing is sent any more
(`cmd_forgotten`).

`RWNX_CMD_FLAG_DONE` is never cleared, and a killed wait looks like one that was not. So a command
whose wait is given up is freed, and may be in the list still (`cmd_given_up`).
-/

open DriverLib

namespace LonganPi.Wifi

variable {β : Type*} {s t : CmdMgr β} {op : CmdOp β} {o acts : List (CmdAct β)} {i j : ℕ}

/-- The first command is deferred, nobody will wake the work, and nobody is about to wake it without
a test. -/
structure CmdStuck (s : CmdMgr β) : Prop where
  deferred : ∃ i, s.cmds.head? = some i ∧ (s.cmdArray i).flags.waitPush
  asleep : ¬s.Waker
  unforced : ∀ i, s.sender i ≠ .queueing true

/-- No command is queued by `cmd_mgr_queue_force_defer`. -/
def CmdOp.unforced : CmdOp β → Bool
  | .send1 _ _ reqcfm _ defer => !(reqcfm && defer)
  | _ => true

/-- No command is sent or waits for a confirmation. -/
theorem CmdStuck.unpushed (hs : CmdSafe s) (hk : CmdStuck s) : ¬s.Pushed j := fun hp => by
  obtain ⟨i, hhead, hpush⟩ := hk.deferred
  obtain rfl : i = j := Option.some.inj (hhead.symm.trans (hs.pushed_head hp))
  exact Bool.false_ne_true (hp.2.symm.trans hpush)

/-- A test of `queue_sz` counts the first command. -/
theorem CmdSafe.queueSz_ne (hs : CmdSafe s) (h : s.cmds.head? = some i) : s.queueSz ≠ 0 := by
  obtain ⟨rest, hl⟩ := List.head?_eq_some_iff.mp h
  rw [hs.size, hl]
  exact Nat.succ_ne_zero _

/-- A step that touches one command, which is not in the list, and whose sender does not wake the
work. -/
theorem CmdStuck.touch (hk : CmdStuck s) (hsame : ∀ j ≠ i, s.Same t j) (hnot : i ∉ s.cmds)
    (hforced : t.sender i ≠ .queueing true) (hi : ¬t.Rouses i) (hroused : t.Roused → s.Roused) :
    CmdStuck t where
  deferred := by
    -- the first command is another one, which the step leaves alone
    obtain ⟨k, hhead, hpush⟩ := hk.deferred
    have hstill := hsame k fun hki => hnot (hki ▸ List.mem_of_head? hhead)
    exact ⟨k, hstill.head hhead, by rw [hstill.cmd]; exact hpush⟩
  asleep := by
    rintro (hw | ⟨j, hj⟩)
    · exact hk.asleep (.inl (hroused hw))
    · exact hk.asleep (.inr ⟨j, (hsame j fun hji => hi (hji ▸ hj)).rouses.mp hj⟩)
  unforced := fun j => by
    by_cases hji : j = i
    · rw [hji]
      exact hforced
    · rw [(hsame j hji).sender]
      exact hk.unforced j

/-- A command is taken, but not queued yet. -/
theorem CmdStuck.begin {msg : LmacMsg β} {reqid : ℕ} {reqcfm cfm : Bool} {p : CmdSender}
    (hs : CmdSafe s) (hk : CmdStuck s) (hp : p ≠ .queueing true ∧ p ≠ .freeing true ∧ p ≠ .waiting)
    (h : rwnxSendMsgBegin s msg reqid reqcfm cfm p = some (o, t)) :
    CmdStuck t ∧ cmdSends o = [] := by
  rw [rwnxSendMsgBegin] at h
  split at h
  · cases h
    exact ⟨hk, rfl⟩
  obtain ⟨i, hi, heq⟩ := Option.map_eq_some_iff.mp h
  obtain ⟨rfl, rfl⟩ := Prod.mk.inj heq
  have hplace : ((s.setCmd i fun c => c.fill msg reqid reqcfm cfm).setSender i p).sender i = p :=
    CmdMgr.setSender_self p
  refine ⟨hk.touch (fun j hj => ⟨CmdMgr.setCmd_of_ne hj fun c => c.fill msg reqid reqcfm cfm,
    CmdMgr.setSender_of_ne hj p, Iff.rfl, id, .inl rfl⟩)
    (hs.unused_idle (rwnxCmdMalloc_used hi)).2.1 ?_ (CmdMgr.not_rouses hplace hp.2.1 hp.2.2) id,
    rfl⟩
  rw [hplace]
  exact hp.1

/-- A sender moves that has no command in the list, and will not wake the work. -/
theorem CmdStuck.move {p : CmdSender} (hk : CmdStuck s) (hnot : i ∉ s.cmds)
    (hp : p ≠ .queueing true ∧ p ≠ .freeing true ∧ p ≠ .waiting) : CmdStuck (s.setSender i p) := by
  refine hk.touch (fun j hj => .setSender hj p) hnot ?_
    (CmdMgr.not_rouses (CmdMgr.setSender_self p) hp.2.1 hp.2.2) id
  rw [CmdMgr.setSender_self]
  exact hp.1

/-- A command that is queued behind a deferred one is deferred, and `queue_sz` is too large for the
tests. -/
theorem CmdStuck.queue (hs : CmdSafe s) (hk : CmdStuck s) (hold : s.sender i = .queueing false)
    (hroom : s.crashed = false ∧ s.full = false) : CmdStuck (cmdMgrQueue s i).2 := by
  obtain ⟨k, hhead, hpush⟩ := hk.deferred
  have hlist := (hs.outside i (by rw [hold]; rfl)).2
  -- a list that is not empty defers what comes
  have hbusy : s.busy = true := by
    rw [hs.busy_eq]
    simp [List.ne_nil_of_mem (List.mem_of_head? hhead)]
  have hsize := hs.queueSz_ne hhead
  simp only [cmdMgrQueue, hroom.1, hroom.2, hbusy, Bool.or_self, Bool.true_or, Bool.false_eq_true,
    if_true, if_false]
  refine hk.touch (fun j hj => ⟨CmdMgr.setCmd_of_ne hj fun c => c.queue true,
    CmdMgr.setSender_of_ne hj .idle, ?_, fun hj => ?_, .inl rfl⟩) hlist ?_
    (CmdMgr.not_rouses (CmdMgr.setSender_self .idle) CmdSender.noConfusion CmdSender.noConfusion) ?_
  · simp [CmdMgr.setSender, hj]
  · simp [CmdMgr.setSender, List.head?_append, hj]
  · rw [CmdMgr.setSender_self]
    exact CmdSender.noConfusion
  · rintro (h | h | h | h | ⟨-, hone⟩)
    · exact .inl h
    · exact .inr (.inl h)
    · exact .inr (.inr (.inl h))
    · exact .inr (.inr (.inr (.inl h)))
    · -- two commands are too many for a test
      exact absurd (Nat.succ.inj hone) hsize

/-- Everybody who could wake the work is away. -/
theorem CmdStuck.quiet (hs : CmdSafe s) (hk : CmdStuck s) :
    s.cmdWork = false ∧ s.worker = .idle ∧ s.wakes = 0 ∧ s.listTests = 0 ∧
      ∀ j, s.sender j ≠ .freeing true ∧ s.sender j ≠ .waiting := by
  obtain ⟨hroused, hrouses⟩ := not_or.mp hk.asleep
  obtain ⟨hwork, hworker, hwakes, hlist, -⟩ : s.cmdWork = false ∧ s.worker = .idle ∧ s.wakes = 0 ∧
      s.listTests = 0 ∧ ¬(s.queueTests ≠ 0 ∧ s.queueSz = 1) := by
    simpa only [CmdMgr.Roused, not_or, Bool.not_eq_true, not_not] using hroused
  refine ⟨hwork, hworker, hwakes, hlist, fun j => ⟨fun hj => ?_, fun hj => ?_⟩⟩
  · exact hrouses ⟨j, .inl hj⟩
  · -- who waits has the confirmation already, since no command is under way
    have hconfirmed := (hs.awaited j (.inl hj)).resolve_left (hk.unpushed hs)
    exact hrouses ⟨j, .inr ⟨hj, hconfirmed.2.2⟩⟩

/-- No step of a sender wakes the work. -/
theorem CmdStuck.senderStep {sent : Bool} (hs : CmdSafe s) (hk : CmdStuck s)
    (h : cmdSenderStep s i sent = some (o, t)) : CmdStuck t ∧ cmdSends o = [] := by
  obtain ⟨hwork, hworker, hwakes, hlist, hquiet⟩ := hk.quiet hs
  rw [cmdSenderStep] at h
  cases hold : s.sender i with
  | idle => simp [hold] at h
  | emptying reqcfm =>
    simp only [hold] at h
    split at h
    · cases h
      refine ⟨hk.move (hs.senderAt hold).1.2 ?_, rfl⟩
      split <;> simp
    · cases h
  | queueing defer =>
    obtain rfl : defer = false := by
      cases defer with
      | false => rfl
      | true => exact absurd hold (hk.unforced i)
    simp only [hold, Option.some.injEq] at h
    obtain ⟨rfl, rfl⟩ := Prod.ext_iff.mp h
    by_cases hroom : s.crashed || s.full
    · -- the command is refused, and its sender frees it without a test of the list
      rw [cmdMgrQueue, if_pos hroom]
      exact ⟨hk.move (hs.senderAt hold).1.2 (by simp), rfl⟩
    · have hstuck := hk.queue hs hold (by simpa using hroom)
      rw [cmdMgrQueue, if_neg hroom] at hstuck ⊢
      exact ⟨hstuck, rfl⟩
  | sending reqcfm =>
    cases reqcfm with
    | false =>
      simp only [hold] at h
      cases h
      exact ⟨hk.move (hs.senderAt hold).2 (by simp), rfl⟩
    | true => exact absurd (hs.sending i (.inl hold)) (hk.unpushed hs)
  -- nobody waits, and nobody has a confirmation
  | waiting => exact absurd hold (hquiet i).2
  | timedOut => exact absurd hold (hs.timely.1 i)
  | freeing test =>
    cases test with
    | false =>
      -- the sender was refused, or had a request without a confirmation
      simp only [hold] at h
      cases h
      have hplace : ((rwnxCmdFree s i).setSender i .idle).sender i = .idle :=
        CmdMgr.setSender_self .idle
      refine ⟨hk.touch (fun j hj => ⟨CmdMgr.setCmd_of_ne hj fun c => { c with used := false },
        CmdMgr.setSender_of_ne hj .idle, Iff.rfl, id, .inl rfl⟩) (hs.senderAt hold).2 ?_
        (CmdMgr.not_rouses hplace CmdSender.noConfusion CmdSender.noConfusion) id, rfl⟩
      exact fun hforced => CmdSender.noConfusion (hplace.symm.trans hforced)
    | true => exact absurd hold (hquiet i).1

/-- **Nobody wakes the work**, and nothing is sent, whatever the others do. -/
theorem CmdStuck.step (hs : CmdSafe s) (hk : CmdStuck s) (hop : op.orderly s) (hu : op.unforced)
    (h : (cmdMachine β).step s op = some (o, t)) : CmdStuck t ∧ cmdSends o = [] := by
  obtain ⟨hwork, hworker, hwakes, hlist, hquiet⟩ := hk.quiet hs
  cases op with
  | send msg reqid reqcfm cfm =>
    refine hk.begin hs ?_ h
    cases cfm <;> cases reqcfm <;> simp
  | send1 msg reqid reqcfm cfm defer =>
    refine hk.begin hs ?_ h
    cases defer <;> cases reqcfm <;> simp_all [CmdOp.unforced]
  | sender i sent => exact hk.senderStep hs h
  | timeout i => cases hop
  | kill i => cases hop
  | queueTest =>
    simp only [cmdMachine, cmdQueueTest] at h
    split at h
    · cases h
    next htests =>
    cases h
    refine ⟨⟨hk.deferred, ?_, hk.unforced⟩, rfl⟩
    -- a test that is still to come finds at least two commands
    obtain ⟨k, hhead, -⟩ := hk.deferred
    have hone : s.queueSz ≠ 1 := fun hone =>
      hk.asleep (.inl (.inr (.inr (.inr (.inr ⟨htests, hone⟩)))))
    have hmany : ¬s.queueSz ≤ 1 := fun hle =>
      (Nat.le_one_iff_eq_zero_or_eq_one.mp hle).elim (hs.queueSz_ne hhead) hone
    rintro ((h | h | h | h | ⟨-, h⟩) | h)
    · rw [hwork, decide_eq_false hmany] at h
      cases h
    · exact h hworker
    · exact h hwakes
    · exact h hlist
    · exact hone h
    · exact hk.asleep (.inr h)
  | wake =>
    simp only [cmdMachine, cmdWake, hwakes, if_true] at h
    cases h
  | listTest =>
    simp only [cmdMachine, cmdListTest, hlist, if_true] at h
    cases h
  | work sent =>
    simp only [cmdMachine, cmdMgrTaskProcess, hworker, hwork, Bool.false_eq_true, if_false] at h
    cases h
  | workTimeout => cases hop
  | confirm n =>
    -- the firmware has no request left to answer
    obtain ⟨i, rest, hl, hpushed, -⟩ := hs.confirm h
    exact absurd hpushed (hk.unpushed hs)
  | indicate id cb =>
    have hnone : cb = false ∨ ∀ i ∈ s.cmds, (s.cmdArray i).reqid ≠ id := by
      simpa [CmdOp.orderly] using hop
    cases (msgind_none hnone).symm.trans (Option.some.inj h)
    exact ⟨hk, rfl⟩
  | usb state =>
    cases h
    exact ⟨⟨hk.deferred, hk.asleep, hk.unforced⟩, rfl⟩

/-- Once the work is not woken for a deferred command, no command is ever sent again, until
one is queued by `cmd_mgr_queue_force_defer`. -/
theorem cmd_forgotten [Inhabited β] {ops ops' : List (CmdOp β)} {acts' : List (CmdAct β)}
    (hg : (cmdMachine β).Guarded (fun s op => op.orderly s = true) CmdMgr.init ops)
    (h : (cmdMachine β).trace CmdMgr.init ops = some (acts, s)) (hk : CmdStuck s)
    (hg' : (cmdMachine β).Guarded (fun s op => (op.orderly s && op.unforced) = true) s ops')
    (h' : (cmdMachine β).trace s ops' = some (acts', t)) :
    CmdStuck t ∧ cmdSends acts' = [] ∧ t.msgs = s.msgs ++ cmdAccepts acts' := by
  have hs := (cmd_flow hg h).1
  have hstuck : CmdSafe t ∧ CmdStuck t ∧ CmdFlow s acts' t ∧ cmdSends acts' = [] := by
    refine Machine.trace_inv_guarded (P := fun _ acts t =>
      CmdSafe t ∧ CmdStuck t ∧ CmdFlow s acts t ∧ cmdSends acts = [])
      (fun ops acts u op o t hP hop hstep => ?_)
      ⟨hs, hk, .still rfl (fun _ _ => rfl) fun _ _ => .rfl, rfl⟩ hg' h'
    obtain ⟨hs, hk, hflow, hsends⟩ := hP
    obtain ⟨horderly, hunforced⟩ := Bool.and_eq_true_iff.mp hop
    obtain ⟨hk', hnone⟩ := hk.step hs horderly hunforced hstep
    refine ⟨hs.step horderly hstep, hk', hflow.trans (hs.flow horderly hstep), ?_⟩
    rw [cmdSends_append, hsends, hnone, List.append_nil]
  obtain ⟨ht, hk', hflow, hsends⟩ := hstuck
  -- no command was under way at the start, and none is sent, so none is completed
  have hcompletes : cmdCompletes acts' = [] := by
    have := hflow.sends
    have hzero : s.unconfirmed = [] := by
      obtain ⟨i, hhead, -⟩ := hk.deferred
      obtain ⟨rest, hl⟩ := List.head?_eq_some_iff.mp hhead
      have hquiet := hk.quiet hs
      simp [CmdMgr.unconfirmed, hl, hquiet.2.1, (hquiet.2.2.2.2 i).2]
    rw [hzero, hsends] at this
    exact (List.append_eq_nil_iff.mp this.symm).1
  have haccepts := hflow.accepts
  rw [hcompletes, List.nil_append] at haccepts
  exact ⟨hk', hsends, haccepts.symm⟩

/-- A command is deferred on an empty list, and a second one is queued before the first test. -/
def cmdRacedRun : List (CmdOp ℕ) :=
  [.send1 ⟨.meTrafficIndReq, 1⟩ 8 true false false, .sender 0 true,
    .send ⟨.other 9, 2⟩ 10 true false, .sender 1 true]

/-- Both tests find two commands, and a third one is queued. -/
def cmdRacedRest : List (CmdOp ℕ) :=
  [.queueTest, .queueTest, .send ⟨.other 11, 3⟩ 12 true false, .sender 2 true, .queueTest]

/-- The two tests of the race find two commands each, and the third command is not sent either. -/
theorem cmd_forgotten_raced :
    ∃ acts s acts' t, (cmdMachine ℕ).trace CmdMgr.init cmdRacedRun = some (acts, s) ∧
      (cmdMachine ℕ).trace s cmdRacedRest = some (acts', t) ∧
      CmdStuck t ∧ cmdSends acts' = [] ∧ t.msgs = s.msgs ++ cmdAccepts acts' := by
  have hg : (cmdMachine ℕ).Guarded (fun s op => op.orderly s = true) CmdMgr.init cmdRacedRun := by
    decide
  refine ⟨_, _, _, _, rfl, rfl, cmd_forgotten hg rfl ⟨⟨0, rfl, rfl⟩, ?_, ?_⟩
    (?_ : (cmdMachine ℕ).Guarded _ _ cmdRacedRest) rfl⟩
  · rintro (h | ⟨_ | _ | j, h⟩)
    iterate 3 exact absurd h (by decide)
    exact CmdMgr.not_rouses rfl CmdSender.noConfusion CmdSender.noConfusion h
  · rintro (_ | _ | i)
    · decide
    · decide
    · exact show CmdSender.idle ≠ _ by decide
  · decide

/-! ### A wait that is given up -/

end LonganPi.Wifi
