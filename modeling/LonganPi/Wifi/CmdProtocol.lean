import LonganPi.Wifi.CmdSafety

/-!
# Confirmations

The command manager and the firmware follow a stop-and-wait protocol in every interleaving
(`cmd_stop_and_wait`). A confirmation is copied through a pointer to the stack of the sender. The
sender is there (`cmd_copies_live`) as long as nobody else queues a command between its test of the
list and its own turn.
-/

open DriverLib

namespace LonganPi.Wifi

variable {β : Type*} {s t : CmdMgr β} {op : CmdOp β} {o acts : List (CmdAct β)} {i j : ℕ}

/-! ### Stop and wait -/

/-- The commands that are queued. -/
def cmdAccepts (acts : List (CmdAct β)) : List (LmacMsg β) :=
  acts.filterMap fun
    | .accept msg => some msg
    | _ => none

/-- The commands that are sent and wait for a confirmation. -/
def cmdSends (acts : List (CmdAct β)) : List (LmacMsg β) :=
  acts.filterMap fun
    | .setCmdTx msg true => some msg
    | _ => none

def cmdCompletes (acts : List (CmdAct β)) : List (LmacMsg β) :=
  acts.filterMap fun
    | .complete msg => some msg
    | _ => none

/-- The requests that the firmware answers. -/
def cmdAnswers (acts : List (CmdAct β)) : List (LmacMsg β) :=
  acts.filterMap fun
    | .answer msg => some msg
    | _ => none

theorem cmdAccepts_append (o o' : List (CmdAct β)) :
    cmdAccepts (o ++ o') = cmdAccepts o ++ cmdAccepts o' := List.filterMap_append

theorem cmdSends_append (o o' : List (CmdAct β)) :
    cmdSends (o ++ o') = cmdSends o ++ cmdSends o' := List.filterMap_append

theorem cmdCompletes_append (o o' : List (CmdAct β)) :
    cmdCompletes (o ++ o') = cmdCompletes o ++ cmdCompletes o' := List.filterMap_append

theorem cmdAnswers_append (o o' : List (CmdAct β)) :
    cmdAnswers (o ++ o') = cmdAnswers o ++ cmdAnswers o' := List.filterMap_append

/-- The commands in the list. -/
def CmdMgr.msgs (s : CmdMgr β) : List (LmacMsg β) := s.cmds.map fun i => (s.cmdArray i).a2eMsg

/-- The command that was sent and is not confirmed. -/
def CmdMgr.unconfirmed (s : CmdMgr β) : List (LmacMsg β) :=
  match s.cmds with
  | [] => []
  | i :: _ =>
    if s.sender i = .waiting ∨ s.worker = .waiting i then [(s.cmdArray i).a2eMsg] else []

/-- What a step does to the commands: it may append some to the list, send the first, and complete
those it finds sent. -/
structure CmdFlow (s : CmdMgr β) (o : List (CmdAct β)) (t : CmdMgr β) : Prop where
  accepts : s.msgs ++ cmdAccepts o = cmdCompletes o ++ t.msgs
  sends : s.unconfirmed ++ cmdSends o = cmdCompletes o ++ t.unconfirmed
  answers : cmdAnswers o = cmdCompletes o

/-- A step that leaves the list alone. -/
theorem CmdFlow.still (hcmds : t.cmds = s.cmds)
    (hmsg : ∀ j ∈ s.cmds, (t.cmdArray j).a2eMsg = (s.cmdArray j).a2eMsg)
    (hwait : ∀ j ∈ s.cmds, t.Awaited j ↔ s.Awaited j) : CmdFlow s [] t := by
  refine ⟨?_, ?_, rfl⟩
  · simp only [CmdMgr.msgs, hcmds]
    exact (List.append_nil _).trans (List.map_congr_left fun j hj => (hmsg j hj).symm)
  · simp only [CmdMgr.unconfirmed, hcmds]
    cases hl : s.cmds with
    | nil => rfl
    | cons j rest =>
      have hj : j ∈ s.cmds := hl ▸ List.mem_cons_self
      have := hwait j hj
      simp only [CmdMgr.Awaited] at this
      simp only [this, hmsg j hj]
      exact List.append_nil _

/-- Acts that are not about the list. -/
theorem CmdFlow.congr {o' : List (CmdAct β)} (h : CmdFlow s o t) (ha : cmdAccepts o' = cmdAccepts o)
    (hs : cmdSends o' = cmdSends o) (hc : cmdCompletes o' = cmdCompletes o)
    (hw : cmdAnswers o' = cmdAnswers o) : CmdFlow s o' t :=
  ⟨by rw [ha, hc]; exact h.accepts, by rw [hs, hc]; exact h.sends, by rw [hw, hc]; exact h.answers⟩

/-- A command is taken. It was neither in the list nor waited for, so the list does not see it. -/
theorem CmdSafe.begin_flow {msg : LmacMsg β} {reqid : ℕ} {reqcfm cfm : Bool} {p : CmdSender}
    (hs : CmdSafe s) (h : rwnxSendMsgBegin s msg reqid reqcfm cfm p = some (o, t)) :
    CmdFlow s o t := by
  rw [rwnxSendMsgBegin] at h
  split at h
  · cases h
    exact (CmdFlow.still rfl (fun _ _ => rfl) fun _ _ => .rfl).congr rfl rfl rfl rfl
  obtain ⟨i, hi, heq⟩ := Option.map_eq_some_iff.mp h
  cases heq
  obtain ⟨hidle, hlist, hwork⟩ := hs.unused_idle (rwnxCmdMalloc_used hi)
  refine .still rfl (fun j hj => ?_) fun j hj => ?_
  · have hne := ne_of_mem_of_not_mem hj hlist
    simp [CmdMgr.setSender, CmdMgr.setCmd, hne]
  · have hne := ne_of_mem_of_not_mem hj hlist
    simp [CmdMgr.Awaited, CmdMgr.setSender, CmdMgr.setCmd, hne]

/-- A sender moves that has no command in the list. -/
theorem CmdFlow.move {p : CmdSender} (hi : i ∉ s.cmds) : CmdFlow s [] (s.setSender i p) := by
  refine .still rfl (fun _ _ => rfl) fun j hj => ?_
  have hne := ne_of_mem_of_not_mem hj hi
  simp [CmdMgr.Awaited, CmdMgr.setSender, hne]

/-- A command is appended. Nobody waits for it yet, so what is unconfirmed is what it was. -/
theorem CmdSafe.append_flow {defer deferPush : Bool} {p : CmdSender} (hs : CmdSafe s)
    (hold : s.sender i = .queueing defer) (hp : p ≠ .waiting) (n m k : ℕ) :
    CmdFlow s [.accept (s.cmdArray i).a2eMsg]
      { (s.setCmd i fun c => c.queue deferPush).setSender i p with
        cmds := s.cmds ++ [i]
        queueSz := k
        queueTests := n
        wakes := m } := by
  have hlist := (hs.outside i (by rw [hold]; rfl)).2
  have hwork : s.worker ≠ .waiting i := fun hw => by
    have := hs.apart i (by rw [hw]; rfl)
    rw [hold] at this
    cases this
  have hmsg : ∀ j, (if j = i then (s.cmdArray i).queue deferPush else s.cmdArray j).a2eMsg =
      (s.cmdArray j).a2eMsg := by
    intro j
    split
    · next h => rw [h]; rfl
    · rfl
  refine ⟨?_, ?_, rfl⟩
  · -- the message goes to the end
    simp [CmdMgr.msgs, CmdMgr.setSender, CmdMgr.setCmd, Function.update_apply, hmsg, cmdAccepts,
      cmdCompletes]
  · simp only [CmdMgr.unconfirmed, CmdMgr.setSender, CmdMgr.setCmd, Function.update_apply]
    cases hl : s.cmds with
    | nil => simp [hp, hwork, cmdSends, cmdCompletes]
      -- the command is the first, and is not sent yet
    | cons j rest =>
      -- the first command is the one it was
      have hne : j ≠ i := fun h => hlist (by rw [hl, h]; exact List.mem_cons_self)
      simp [hne, cmdSends, cmdCompletes]

/-- `cmd_mgr_queue` and `cmd_mgr_queue_force_defer` append the command, or refuse it. -/
theorem CmdSafe.queue_flow {defer : Bool} (hs : CmdSafe s) (hold : s.sender i = .queueing defer) :
    CmdFlow s (cmdMgrQueue s i).1 (cmdMgrQueue s i).2 ∧
      CmdFlow s (cmdMgrQueueForceDefer s i).1 (cmdMgrQueueForceDefer s i).2 := by
  have hlist := (hs.outside i (by rw [hold]; rfl)).2
  constructor
  · rw [cmdMgrQueue]
    split
    · exact (CmdFlow.move hlist).congr rfl rfl rfl rfl
    · dsimp only
      split
      · exact hs.append_flow hold (by simp) (s.queueTests + 1) s.wakes (s.queueSz + 1)
      · exact hs.append_flow hold (by simp) s.queueTests s.wakes (s.queueSz + 1)
  · rw [cmdMgrQueueForceDefer]
    split
    · exact (CmdFlow.move hlist).congr rfl rfl rfl rfl
    · exact hs.append_flow hold (by simp) s.queueTests (s.wakes + 1) (s.queueSz + 1)

/-- The first command of the list is sent. -/
theorem CmdSafe.sent_flow (hs : CmdSafe s) (hold : s.Sending i) (hcmds : t.cmds = s.cmds)
    (harray : t.cmdArray = s.cmdArray) (hwait : t.Awaited i) :
    CmdFlow s [.setCmdTx (s.cmdArray i).a2eMsg true, .kfree (s.cmdArray i).a2eMsg] t := by
  obtain ⟨rest, hl⟩ := List.head?_eq_some_iff.mp (hs.pushed_head (hs.sending i hold))
  -- nobody waits yet for the command that is being sent, so it counts as unconfirmed only now
  have hnot : ¬s.Awaited i := fun ha => hs.not_sending ha hold
  refine ⟨?_, ?_, rfl⟩
  · simp [CmdMgr.msgs, hcmds, harray, cmdAccepts, cmdCompletes]
  · simp only [CmdMgr.Awaited] at hnot hwait
    simp [CmdMgr.unconfirmed, hcmds, hl, harray, hnot, hwait, cmdSends, cmdCompletes]

/-- Of the steps of a sender, `cmd_mgr_queue` appends to the list and `aicwf_set_cmd_tx` sends. The
others are about a command outside the list. -/
theorem CmdSafe.senderStep_flow {sent : Bool} (hs : CmdSafe s)
    (h : cmdSenderStep s i sent = some (o, t)) : CmdFlow s o t := by
  rw [cmdSenderStep] at h
  cases hold : s.sender i with
  | idle => simp [hold] at h
  | emptying reqcfm =>
    -- the list is empty, or the manager has crashed; the command goes on outside the list
    simp only [hold] at h
    split at h
    · cases h
      exact .move (hs.outside i (by rw [hold]; rfl)).2
    · cases h
  | queueing defer =>
    simp only [hold, Option.some.injEq] at h
    cases defer with
    | false =>
      obtain ⟨rfl, rfl⟩ := Prod.ext_iff.mp h
      exact (hs.queue_flow hold).1
    | true =>
      obtain ⟨rfl, rfl⟩ := Prod.ext_iff.mp h
      exact (hs.queue_flow hold).2
  | sending reqcfm =>
    cases reqcfm with
    | false =>
      -- a request without a confirmation is not counted
      simp only [hold] at h
      cases h
      exact (CmdFlow.move (hs.outside i (by rw [hold]; rfl)).2).congr rfl rfl rfl rfl
    | true =>
      simp only [hold, (hs.plain i).1] at h
      cases h
      exact hs.sent_flow (.inl hold) (aicwfSetCmdTx_cmds s i sent)
        (aicwfSetCmdTx_cmdArray s i sent) (.inl (Function.update_self ..))
  | waiting =>
    -- a command that is complete is off the list
    simp only [hold] at h
    split at h
    · next hc =>
      cases h
      refine .move fun hi => ?_
      rw [(hs.listed i hi).2.2] at hc
      cases hc
    · cases h
  | timedOut => exact absurd hold (hs.timely.1 i)
  | freeing test =>
    -- the command is outside the list, and nobody waits for it
    simp only [hold] at h
    cases h
    have hlist := (hs.outside i (by rw [hold]; rfl)).2
    have hflow : ∀ n, CmdFlow s [] { (rwnxCmdFree s i).setSender i .idle with listTests := n } := by
      refine fun n => .still rfl (fun j hj => ?_) fun j hj => ?_
      · have hne := ne_of_mem_of_not_mem hj hlist
        simp [rwnxCmdFree, CmdMgr.setSender, CmdMgr.setCmd, hne]
      · have hne := ne_of_mem_of_not_mem hj hlist
        simp [rwnxCmdFree, CmdMgr.Awaited, CmdMgr.setSender, CmdMgr.setCmd, hne]
    cases test with
    | false => exact hflow s.listTests
    | true => exact hflow (s.listTests + 1)

/-- Of the steps of the work, only `aicwf_set_cmd_tx` sends. -/
theorem CmdSafe.taskProcess_flow {sent : Bool} (hs : CmdSafe s)
    (h : cmdMgrTaskProcess s sent = some (o, t)) : CmdFlow s o t := by
  -- the work waits for no command of the list, before and after
  have hquiet : ∀ (w : CmdWorker) (cmdWork : Bool), (∀ i, s.worker ≠ .waiting i ∨ i ∉ s.cmds) →
      (∀ i, w ≠ .waiting i) → CmdFlow s [] { s with worker := w, cmdWork := cmdWork } := by
    refine fun w cmdWork hold hw => .still rfl (fun _ _ => rfl) fun j hj => ?_
    have := hold j
    simp only [CmdMgr.Awaited, hw j, or_false]
    exact ⟨.inl, fun h => h.resolve_right fun hj' => this.elim (· hj') (· hj)⟩
  rw [cmdMgrTaskProcess] at h
  cases hold : s.worker with
  | idle =>
    simp only [hold] at h
    split at h
    · cases h
      exact hquiet _ _ (by simp [hold]) (by simp)
    · cases h
  | looking =>
    simp only [hold] at h
    split at h
    · cases h
      exact hquiet _ _ (by simp [hold]) (by simp)
    · cases h
      refine hquiet _ _ (by simp [hold]) ?_
      intro i
      split <;> simp
  | pushing i =>
    -- the flag that is cleared is not part of the accounts
    simp only [hold] at h
    cases h
    refine .still rfl (fun j hj => ?_) fun j hj => ?_
    · simp only [CmdMgr.setCmd, Function.update_apply]
      split
      · next h => rw [h]
      · rfl
    · simp [CmdMgr.Awaited, CmdMgr.setCmd, hold]
  | sending i =>
    simp only [hold] at h
    cases h
    exact hs.sent_flow (.inr hold) (aicwfSetCmdTx_cmds s i sent) (aicwfSetCmdTx_cmdArray s i sent)
      (.inr rfl)
  | waiting i =>
    -- a command that is complete is off the list, so the work waits for none of it
    simp only [hold] at h
    split at h
    · next hc =>
      cases h
      refine hquiet _ _ (fun j => ?_) (by simp)
      by_cases hj : j = i
      · refine .inr fun hmem => ?_
        rw [hj] at hmem
        rw [(hs.listed i hmem).2.2] at hc
        cases hc
      · exact .inl (by simp [hold, Ne.symm hj])
    · cases h
  | timedOut i => exact absurd hold (hs.timely.2 i)
  | freeing i =>
    simp only [hold] at h
    cases h
    have hlist := (hs.freeing i hold).2
    refine .still rfl (fun j hj => ?_) fun j hj => ?_
    · have hne := ne_of_mem_of_not_mem hj hlist
      simp [rwnxCmdFree, CmdMgr.setCmd, hne]
    · simp [rwnxCmdFree, CmdMgr.Awaited, CmdMgr.setCmd, hold]

/-- A confirmation completes the first command, which is the one that was sent. -/
theorem CmdSafe.confirm_flow {n : ℕ} (hs : CmdSafe s) (h : firmwareConfirm s n = some (o, t)) :
    CmdFlow s o t := by
  obtain ⟨i, rest, hl, hpushed, hawaited, rfl, rfl⟩ := hs.confirm h
  have hnot : i ∉ rest := by
    have := hs.nodup
    rw [hl] at this
    exact (List.nodup_cons.mp this).1
  -- nobody waits for the commands behind it
  have hother : ∀ j ∈ rest, ¬s.Awaited j := fun j hj ha => by
    have hmem : j ∈ s.cmds := hl ▸ List.mem_cons_of_mem i hj
    rcases hs.awaited j ha with hp | hp
    · exact hnot (hs.pushed_unique hpushed hp ▸ hj)
    · exact hp.1 hmem
  -- the copy is not counted
  have hacts : ∀ f : CmdAct β → Option (LmacMsg β),
      f (.memcpy (s.cmdArray i).a2eMsg (s.sender i).live) = none →
      List.filterMap f (.answer (s.cmdArray i).a2eMsg :: ((if (s.cmdArray i).e2aMsg then
        [CmdAct.memcpy (s.cmdArray i).a2eMsg (s.sender i).live] else []) ++
        [.complete (s.cmdArray i).a2eMsg])) =
      List.filterMap f [.answer (s.cmdArray i).a2eMsg, .complete (s.cmdArray i).a2eMsg] := by
    intro f hf
    split <;> simp [List.filterMap_cons, hf]
  have hcmds : (cmdComplete (s.setCmd i fun c =>
      { c with flags := { c.flags with waitCfm := false } }) i).cmds = rest := by
    simp [cmdComplete, CmdMgr.setCmd, hl]
  have hmsgs : ∀ j ∈ rest, ((cmdComplete (s.setCmd i fun c =>
      { c with flags := { c.flags with waitCfm := false } }) i).cmdArray j).a2eMsg =
      (s.cmdArray j).a2eMsg := fun j hj => by
    have hne := ne_of_mem_of_not_mem hj hnot
    simp [cmdComplete, CmdMgr.setCmd, hne]
  refine CmdFlow.congr (o := [.answer (s.cmdArray i).a2eMsg, .complete (s.cmdArray i).a2eMsg]) ?_
    (hacts _ rfl) (hacts _ rfl) (hacts _ rfl) (hacts _ rfl)
  refine ⟨?_, ?_, rfl⟩
  · simp only [CmdMgr.msgs, hcmds, hl, List.map_cons, List.map_congr_left hmsgs]
    exact List.append_nil _
  · simp only [CmdMgr.unconfirmed, hcmds]
    simp only [CmdMgr.Awaited] at hawaited hother
    rw [hl]
    simp only [if_pos hawaited]
    cases hr : rest with
    -- the next command is deferred or not there, so nothing is unconfirmed
    | nil => rfl
    | cons j rest' =>
      have := hother j (hr ▸ List.mem_cons_self)
      simp [cmdComplete, CmdMgr.setCmd, this, cmdSends, cmdCompletes]

/-- Each step keeps the accounts of the commands. -/
theorem CmdSafe.flow (hs : CmdSafe s) (hop : op.orderly s)
    (h : (cmdMachine β).step s op = some (o, t)) : CmdFlow s o t := by
  have hstill : ∀ (state : UsbSt) (cmdWork : Bool) (l m n : ℕ), CmdFlow s [] { s with
      state := state
      cmdWork := cmdWork
      queueTests := l
      wakes := m
      listTests := n } := fun _ _ _ _ _ => .still rfl (fun _ _ => rfl) fun _ _ => .rfl
  cases op with
  | send msg reqid reqcfm cfm => exact hs.begin_flow h
  | send1 msg reqid reqcfm cfm defer => exact hs.begin_flow h
  | sender i sent => exact hs.senderStep_flow h
  | timeout i => cases hop
  | kill i => cases hop
  | queueTest =>
    simp only [cmdMachine, cmdQueueTest] at h
    split at h <;> cases h
    exact hstill s.state _ _ s.wakes s.listTests
  | wake =>
    simp only [cmdMachine, cmdWake] at h
    split at h <;> cases h
    exact hstill s.state _ s.queueTests _ s.listTests
  | listTest =>
    simp only [cmdMachine, cmdListTest] at h
    split at h <;> cases h
    exact hstill s.state _ s.queueTests s.wakes _
  | work sent => exact hs.taskProcess_flow h
  | workTimeout => cases hop
  | confirm n => exact hs.confirm_flow h
  | indicate id cb =>
    have hnone : cb = false ∨ ∀ i ∈ s.cmds, (s.cmdArray i).reqid ≠ id := by
      simpa [CmdOp.orderly] using hop
    cases (msgind_none hnone).symm.trans (Option.some.inj h)
    exact hstill s.state s.cmdWork s.queueTests s.wakes s.listTests
  | usb state =>
    cases h
    exact hstill state s.cmdWork s.queueTests s.wakes s.listTests

/-- The accounts of two runs add up. -/
theorem CmdFlow.trans {u : CmdMgr β} {o' : List (CmdAct β)} (h : CmdFlow s o t)
    (h' : CmdFlow t o' u) : CmdFlow s (o ++ o') u := by
  refine ⟨?_, ?_, ?_⟩
  · rw [cmdAccepts_append, cmdCompletes_append, ← List.append_assoc, h.accepts, List.append_assoc,
      h'.accepts, List.append_assoc]
  · rw [cmdSends_append, cmdCompletes_append, ← List.append_assoc, h.sends, List.append_assoc,
      h'.sends, List.append_assoc]
  · rw [cmdAnswers_append, cmdCompletes_append, h.answers, h'.answers]

/-- The accounts of a run. -/
theorem cmd_flow [Inhabited β] {ops : List (CmdOp β)}
    (hg : (cmdMachine β).Guarded (fun s op => op.orderly s = true) CmdMgr.init ops)
    (h : (cmdMachine β).trace CmdMgr.init ops = some (acts, s)) :
    CmdSafe s ∧ CmdFlow CmdMgr.init acts s := by
  refine Machine.trace_inv_guarded (P := fun _ acts s => CmdSafe s ∧ CmdFlow CmdMgr.init acts s)
    (fun ops acts s op o t hP hop hstep => ?_)
    ⟨cmdSafe_init, .still rfl (fun _ _ => rfl) fun _ _ => .rfl⟩ hg h
  exact ⟨hP.1.step hop hstep, hP.2.trans (hP.1.flow hop hstep)⟩

/-- Two commands are sent; the second is deferred and left to the work, whose request the firmware
has when the run ends. -/
def cmdDeferredRun : List (CmdOp ℕ) :=
  [.send ⟨.other 7, 1⟩ 8 true true, .sender 0 true, .sender 0 true,
    .send ⟨.other 9, 2⟩ 10 true false, .sender 1 true, .sender 0 true, .queueTest,
    .indicate 10 false, .confirm 0, .sender 0 true, .sender 0 true, .listTest, .work true,
    .work true, .work true, .work true]

/-- A command with a buffer for its confirmation is queued on an empty list, and not deferred. -/
def CmdOp.direct (s : CmdMgr β) : CmdOp β → Bool
  | .sender i _ =>
    match s.sender i with
    | .queueing defer =>
      let cmd := s.cmdArray i
      !cmd.e2aMsg || (s.cmds.isEmpty && !defer && !cmd.a2eMsg.id.deferPush)
    | _ => true
  | _ => true

/-- The senders of the commands that have a buffer for the confirmation are still there. -/
def CmdLive (s : CmdMgr β) : Prop := ∀ i ∈ s.cmds, (s.cmdArray i).e2aMsg → (s.sender i).live

/-- No command comes to the list, and no sender of a command in it leaves. -/
theorem CmdLive.mono (hs : CmdLive s) (h : ∀ j ∈ t.cmds, j ∈ s.cmds ∧
    (t.cmdArray j).e2aMsg = (s.cmdArray j).e2aMsg ∧ ((s.sender j).live → (t.sender j).live)) :
    CmdLive t := by
  intro j hj hbuf
  obtain ⟨hmem, heq, hlive⟩ := h j hj
  exact hlive (hs j hmem (heq ▸ hbuf))

/-- A sender leaves only with a command that is outside the list, or one that is deferred and has no
buffer. -/
theorem CmdSafe.senderStep_live {sent : Bool} (hs : CmdSafe s) (hl : CmdLive s)
    (hop : (CmdOp.sender i sent : CmdOp β).direct s)
    (h : cmdSenderStep s i sent = some (o, t)) : CmdLive t := by
  have hout : (s.sender i).outside → ∀ j ∈ s.cmds, j ≠ i := fun ho j hj hji =>
    (hs.outside i ho).2 (hji ▸ hj)
  rw [CmdOp.direct] at hop
  rw [cmdSenderStep] at h
  cases hold : s.sender i with
  | idle => simp [hold] at h
  | emptying reqcfm =>
    -- the sender moves with a command outside the list
    simp only [hold] at h
    split at h
    · cases h
      refine hl.mono fun j hj => ⟨hj, rfl, ?_⟩
      simp [CmdMgr.setSender, hout (by rw [hold]; rfl) j hj]
    · cases h
  | queueing defer =>
    have hne := hout (by rw [hold]; rfl)
    have hrefuse : CmdLive (s.setSender i (.freeing false)) := by
      refine hl.mono fun j hj => ⟨hj, rfl, ?_⟩
      simp [CmdMgr.setSender, hne j hj]
    -- the commands that were in the list, and the one that is appended
    have happend : ∀ (deferPush : Bool) (p : CmdSender) (n m k : ℕ),
        ((s.cmdArray i).e2aMsg → p.live) →
        CmdLive { (s.setCmd i fun c => c.queue deferPush).setSender i p with
          cmds := s.cmds ++ [i]
          queueSz := k
          queueTests := n
          wakes := m } := by
      intro deferPush p n m k hp j hj hbuf
      by_cases hji : j = i
      · subst hji
        simp only [CmdMgr.setSender, CmdMgr.setCmd, Function.update_self, RwnxCmd.queue] at hbuf ⊢
        exact hp hbuf
      · simp only [CmdMgr.setSender, CmdMgr.setCmd, Function.update_of_ne hji] at hbuf ⊢
        refine hl j ?_ hbuf
        simpa [hji] using hj
    simp only [hold] at hop
    simp only [hold, Option.some.injEq] at h
    cases defer with
    | false =>
      obtain rfl : (cmdMgrQueue s i).2 = t := (Prod.ext_iff.mp h).2
      rw [cmdMgrQueue]
      split
      · exact hrefuse
      dsimp only
      split
      · next hd =>
        -- the guard: a command with a buffer is not deferred here
        refine happend _ _ (s.queueTests + 1) s.wakes (s.queueSz + 1) fun hbuf => ?_
        rw [hs.busy_eq] at hd
        simp_all
      · exact happend _ _ s.queueTests s.wakes (s.queueSz + 1) fun _ => rfl
    | true =>
      obtain rfl : (cmdMgrQueueForceDefer s i).2 = t := (Prod.ext_iff.mp h).2
      rw [cmdMgrQueueForceDefer]
      split
      · exact hrefuse
      · exact happend _ _ s.queueTests (s.wakes + 1) (s.queueSz + 1) fun hbuf => by simp_all
  | sending reqcfm =>
    cases reqcfm with
    | false =>
      simp only [hold] at h
      cases h
      refine hl.mono fun j hj => ⟨hj, rfl, ?_⟩
      simp [CmdMgr.setSender, hout (by rw [hold]; rfl) j hj]
    | true =>
      simp only [hold, (hs.plain i).1] at h
      cases h
      refine hl.mono fun j hj => ⟨by simpa [CmdMgr.setSender] using hj,
        by simp [CmdMgr.setSender], ?_⟩
      by_cases hji : j = i
      · intro _
        simp [CmdMgr.setSender, hji, CmdSender.live]
      · simp [CmdMgr.setSender, hji]
  | waiting =>
    -- the sender is awake, and still there
    simp only [hold] at h
    split at h
    · cases h
      refine hl.mono fun j hj => ⟨hj, rfl, ?_⟩
      by_cases hji : j = i
      · intro _
        simp [CmdMgr.setSender, hji, CmdSender.live]
      · simp [CmdMgr.setSender, hji]
    · cases h
  | timedOut => exact absurd hold (hs.timely.1 i)
  | freeing test =>
    -- the sender returns, but its command is outside the list
    simp only [hold] at h
    cases h
    have hne := hout (by rw [hold]; rfl)
    have hfreed : ∀ n, CmdLive { (rwnxCmdFree s i).setSender i .idle with listTests := n } := by
      refine fun n => hl.mono fun j hj => ⟨hj, ?_, ?_⟩
      · simp [rwnxCmdFree, CmdMgr.setSender, CmdMgr.setCmd, hne j hj]
      · simp [rwnxCmdFree, CmdMgr.setSender, CmdMgr.setCmd, hne j hj]
    cases test with
    | false => exact hfreed s.listTests
    | true => exact hfreed (s.listTests + 1)

/-- The work leaves the senders and their buffers alone. -/
theorem taskProcess_live {sent : Bool} (hs : CmdSafe s) (hl : CmdLive s)
    (h : cmdMgrTaskProcess s sent = some (o, t)) : CmdLive t := by
  have hkeep : t.cmds = s.cmds → (∀ j, (t.cmdArray j).e2aMsg = (s.cmdArray j).e2aMsg) →
      t.sender = s.sender → CmdLive t := fun hc ha hsnd =>
    hl.mono fun j hj => ⟨hc ▸ hj, ha j, by rw [hsnd]; exact id⟩
  rw [cmdMgrTaskProcess] at h
  split at h
  · split at h <;> cases h
    exact hkeep rfl (fun _ => rfl) rfl
  · split at h <;> cases h <;> exact hkeep rfl (fun _ => rfl) rfl
  · next i hi =>
    cases h
    refine hkeep rfl (fun j => ?_) rfl
    simp only [CmdMgr.setCmd, Function.update_apply]
    split
    · next hji => rw [hji]
    · rfl
  · next i hi =>
    cases h
    exact hkeep (aicwfSetCmdTx_cmds s i sent) (fun _ => by simp) (aicwfSetCmdTx_sender s i sent)
  · split at h <;> cases h
    exact hkeep rfl (fun _ => rfl) rfl
  · next i hi => exact absurd hi (hs.timely.2 i)
  · next i hi =>
    cases h
    refine hkeep rfl (fun j => ?_) rfl
    simp only [rwnxCmdFree, CmdMgr.setCmd, Function.update_apply]
    split
    · next hji => rw [hji]
    · rfl

/-- The senders stay, as long as a command with a buffer is not deferred. -/
theorem CmdSafe.step_live (hs : CmdSafe s) (hl : CmdLive s) (hop : op.orderly s)
    (hd : op.direct s) (h : (cmdMachine β).step s op = some (o, t)) : CmdLive t := by
  -- a new command is not in the list yet
  have hbegin : ∀ {msg : LmacMsg β} {reqid : ℕ} {reqcfm cfm : Bool} {p : CmdSender},
      rwnxSendMsgBegin s msg reqid reqcfm cfm p = some (o, t) → CmdLive t := by
    intro msg reqid reqcfm cfm p h
    rw [rwnxSendMsgBegin] at h
    split at h
    · cases h
      exact hl
    obtain ⟨i, hi, heq⟩ := Option.map_eq_some_iff.mp h
    cases heq
    have hlist := (hs.unused_idle (rwnxCmdMalloc_used hi)).2.1
    refine hl.mono fun j hj => ⟨hj, ?_, ?_⟩
    · have hne := ne_of_mem_of_not_mem hj hlist
      simp [CmdMgr.setSender, CmdMgr.setCmd, hne]
    · have hne := ne_of_mem_of_not_mem hj hlist
      simp [CmdMgr.setSender, CmdMgr.setCmd, hne]
  cases op with
  | send msg reqid reqcfm cfm => exact hbegin h
  | send1 msg reqid reqcfm cfm defer => exact hbegin h
  | sender i sent => exact hs.senderStep_live hl hd h
  | timeout i => cases hop
  | kill i => cases hop
  | queueTest =>
    simp only [cmdMachine, cmdQueueTest] at h
    split at h <;> cases h
    exact hl
  | wake =>
    simp only [cmdMachine, cmdWake] at h
    split at h <;> cases h
    exact hl
  | listTest =>
    simp only [cmdMachine, cmdListTest] at h
    split at h <;> cases h
    exact hl
  | work sent => exact taskProcess_live hs hl h
  | workTimeout => cases hop
  | confirm n =>
    obtain ⟨i, rest, hcmds, -, -, rfl, -⟩ := hs.confirm h
    -- one command leaves the list, and no sender moves
    refine hl.mono fun j hj => ⟨List.mem_of_mem_erase hj, ?_, id⟩
    simp only [cmdComplete, CmdMgr.setCmd, (hs.plain i).1, Function.update_apply]
    by_cases hji : j = i
    · simp [hji]
    · simp [hji]
  | indicate id cb =>
    have hnone : cb = false ∨ ∀ i ∈ s.cmds, (s.cmdArray i).reqid ≠ id := by
      simpa [CmdOp.orderly] using hop
    cases (msgind_none hnone).symm.trans (Option.some.inj h)
    exact hl
  | usb state =>
    cases h
    exact hl

/-- A sender copies nothing. -/
theorem cmdSenderStep_copies {sent live : Bool} {msg : LmacMsg β}
    (h : cmdSenderStep s i sent = some (o, t)) : .memcpy msg live ∉ o := by
  have hqueue : CmdAct.memcpy msg live ∉ (cmdMgrQueue s i).1 ∧
      CmdAct.memcpy msg live ∉ (cmdMgrQueueForceDefer s i).1 := by
    rw [cmdMgrQueue, cmdMgrQueueForceDefer]
    split <;> simp
  rw [cmdSenderStep] at h
  split at h
  · cases h
  · split at h <;> cases h
    exact List.not_mem_nil
  · next defer hold =>
    rw [Option.some.injEq] at h
    obtain ⟨rfl, -⟩ := Prod.ext_iff.mp h
    cases defer with
    | false => exact hqueue.1
    | true => exact hqueue.2
  · cases h
    simp
  · cases h
    simp
  · split at h <;> cases h
    exact List.not_mem_nil
  · cases h
    exact List.not_mem_nil
  · cases h
    exact List.not_mem_nil

/-- Nor does the work. -/
theorem cmdMgrTaskProcess_copies {sent live : Bool} {msg : LmacMsg β}
    (h : cmdMgrTaskProcess s sent = some (o, t)) : .memcpy msg live ∉ o := by
  rw [cmdMgrTaskProcess] at h
  split at h
  · split at h <;> cases h
    exact List.not_mem_nil
  · split at h <;> cases h <;> exact List.not_mem_nil
  · cases h
    exact List.not_mem_nil
  · cases h
    simp
  · split at h <;> cases h
    exact List.not_mem_nil
  · cases h
    exact List.not_mem_nil
  · cases h
    exact List.not_mem_nil

/-- Only a confirmation is copied, to the sender of the first command. -/
theorem CmdSafe.step_copies (hs : CmdSafe s) (hl : CmdLive s) (hop : op.orderly s)
    (h : (cmdMachine β).step s op = some (o, t)) {msg : LmacMsg β} {live : Bool}
    (hm : .memcpy msg live ∈ o) : live = true := by
  -- who takes a command copies nothing
  have hbegin : ∀ {msg' : LmacMsg β} {reqid : ℕ} {reqcfm cfm : Bool} {p : CmdSender},
      rwnxSendMsgBegin s msg' reqid reqcfm cfm p = some (o, t) → live = true := by
    intro msg' reqid reqcfm cfm p h
    rw [rwnxSendMsgBegin] at h
    split at h
    · cases h
      simp at hm
    · obtain ⟨i, -, heq⟩ := Option.map_eq_some_iff.mp h
      cases heq
      cases hm
  cases op with
  | send msg' reqid reqcfm cfm => exact hbegin h
  | send1 msg' reqid reqcfm cfm defer => exact hbegin h
  | sender i sent => exact absurd hm (cmdSenderStep_copies h)
  | timeout i => cases hop
  | kill i => cases hop
  | queueTest =>
    simp only [cmdMachine, cmdQueueTest] at h
    split at h <;> cases h
    cases hm
  | wake =>
    simp only [cmdMachine, cmdWake] at h
    split at h <;> cases h
    cases hm
  | listTest =>
    simp only [cmdMachine, cmdListTest] at h
    split at h <;> cases h
    cases hm
  | work sent => exact absurd hm (cmdMgrTaskProcess_copies h)
  | workTimeout => cases hop
  | confirm n =>
    -- the only copy is for the command that is confirmed, which is in the list
    obtain ⟨i, rest, hcmds, -, -, -, rfl⟩ := hs.confirm h
    have hi : i ∈ s.cmds := hcmds ▸ List.mem_cons_self
    by_cases hbuf : (s.cmdArray i).e2aMsg
    · simp only [hbuf, if_true, List.cons_append, List.nil_append, List.mem_cons, reduceCtorEq,
        CmdAct.memcpy.injEq, List.not_mem_nil, or_false, false_or] at hm
      rw [hm.2]
      exact hl i hi hbuf
    · simp [hbuf] at hm
  | indicate id cb =>
    have hnone : cb = false ∨ ∀ i ∈ s.cmds, (s.cmdArray i).reqid ≠ id := by
      simpa [CmdOp.orderly] using hop
    cases (msgind_none hnone).symm.trans (Option.some.inj h)
    cases hm
  | usb state =>
    cases h
    cases hm

/-- No confirmation is copied to the stack of a sender that has returned, as long as the commands
that have a buffer for it are queued on an empty list. -/
theorem cmd_copies_live [Inhabited β] {ops : List (CmdOp β)}
    (hg : (cmdMachine β).Guarded (fun s op => (op.orderly s && op.direct s) = true) CmdMgr.init ops)
    (h : (cmdMachine β).trace CmdMgr.init ops = some (acts, s)) {msg : LmacMsg β} {live : Bool}
    (hm : .memcpy msg live ∈ acts) : live = true := by
  have hrun : CmdSafe s ∧ CmdLive s ∧ ∀ msg live, .memcpy msg live ∈ acts → live = true := by
    refine Machine.trace_inv_guarded (P := fun _ acts s => CmdSafe s ∧ CmdLive s ∧
      ∀ msg live, .memcpy msg live ∈ acts → live = true)
      (fun ops acts s op o t hP hop hstep => ?_)
      ⟨cmdSafe_init, fun i hi => absurd hi List.not_mem_nil,
        fun _ _ hm => absurd hm List.not_mem_nil⟩ hg h
    obtain ⟨hs, hl, hcopies⟩ := hP
    obtain ⟨horderly, hdirect⟩ := Bool.and_eq_true_iff.mp hop
    refine ⟨hs.step horderly hstep, hs.step_live hl horderly hdirect hstep, fun msg live hm => ?_⟩
    rcases List.mem_append.mp hm with hm | hm
    · exact hcopies msg live hm
    · exact hs.step_copies hl horderly hstep hm
  exact hrun.2.2 msg live hm

theorem cmd_copies_live_deferred :
    ∃ acts s, (cmdMachine ℕ).trace CmdMgr.init cmdDeferredRun = some (acts, s) ∧
      .memcpy ⟨.other 7, 1⟩ true ∈ acts ∧
      ∀ live, .memcpy ⟨.other 7, 1⟩ live ∈ acts → live = true := by
  have hg : (cmdMachine ℕ).Guarded (fun s op => (op.orderly s && op.direct s) = true) CmdMgr.init
      cmdDeferredRun := by
    decide
  exact ⟨_, _, rfl, by decide, fun live hm => cmd_copies_live hg rfl hm⟩

end LonganPi.Wifi
