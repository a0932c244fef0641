import LonganPi.Wifi.UsbTx

/-!
# The command manager

Commands go to the firmware one at a time. `rwnx_send_msg` takes a command from `cmd_array` and
queues it. A command that is queued on an empty list is sent by its sender, who waits for the
confirmation; others are deferred, and the work `cmd_mgr_task_process` sends them from the head of
the list and waits in the place of their senders. `cmd_mgr_msgind` gives a confirmation to the first
command that waits for its id, and takes that command off the list.

Any number of senders, the work, and the messages of the firmware interleave; what runs under the
lock of the manager or reads a shared variable without it is one step. The firmware is a party of
the system: it holds the requests that reached it, and answers them.
-/

open DriverLib

namespace LonganPi.Wifi

/-- `RWNX_CMD_ARRAY_SIZE`. -/
def rwnxCmdArraySize : ℕ := 20

/-- `RWNX_CMD_MAX_QUEUED`. -/
def rwnxCmdMaxQueued : ℕ := 16

variable {β : Type*}

/-! ### State -/

/-- `lmac_msg_id_t`, with the two ids that `cmd_mgr_queue` knows. -/
inductive LmacMsgId
  | meTrafficIndReq
  | mmSetArpoffloadReq
  | other (id : ℕ)
  deriving DecidableEq

/-- `struct lmac_msg`. -/
structure LmacMsg (β : Type*) where
  id : LmacMsgId
  param : β
  deriving DecidableEq

/-- The flags `RWNX_CMD_FLAG_*`. -/
structure CmdFlags where
  nonblock : Bool
  reqCfm : Bool
  waitPush : Bool
  waitAck : Bool
  waitCfm : Bool
  done : Bool
  deriving DecidableEq

/-- `RWNX_CMD_WAIT_COMPLETE`. -/
def CmdFlags.waitComplete (flags : CmdFlags) : Bool := !(flags.waitAck || flags.waitCfm)

/-- `struct rwnx_cmd`; `e2aMsg` says whether there is a buffer for the confirmation, which is on the
stack of the sender. -/
structure RwnxCmd (β : Type*) where
  used : Bool
  flags : CmdFlags
  reqid : ℕ
  a2eMsg : LmacMsg β
  e2aMsg : Bool
  complete : Bool

/-- Where the sender of a command is. -/
inductive CmdSender
  | idle
  /-- It waits for the list to be empty. -/
  | emptying (reqcfm : Bool)
  /-- Before `cmd_mgr_queue`, or `cmd_mgr_queue_force_defer`. -/
  | queueing (defer : Bool)
  /-- Before `aicwf_set_cmd_tx`. -/
  | sending (reqcfm : Bool)
  /-- Before `wait_for_completion_killable_timeout`. -/
  | waiting
  | timedOut
  /-- Before `rwnx_cmd_free`, and perhaps the test of the list. -/
  | freeing (test : Bool)
  deriving DecidableEq

/-- Where `cmd_mgr_task_process` is. -/
inductive CmdWorker
  | idle
  | looking
  /-- It has found a command, before it clears `RWNX_CMD_FLAG_WAIT_PUSH`. -/
  | pushing (i : ℕ)
  | sending (i : ℕ)
  | waiting (i : ℕ)
  | timedOut (i : ℕ)
  | freeing (i : ℕ)
  deriving DecidableEq

/-- `struct rwnx_cmd_mgr`, with `cmd_array`, the state of the bus and the requests at the firmware,
each with the id of its confirmation. -/
structure CmdMgr (β : Type*) where
  state : UsbSt
  crashed : Bool
  cmdArray : ℕ → RwnxCmd β
  cmds : List ℕ
  queueSz : ℕ
  cmdWork : Bool
  worker : CmdWorker
  sender : ℕ → CmdSender
  /-- Senders that have deferred a command, before they test `queue_sz`. -/
  queueTests : ℕ
  /-- Senders before `WAKE_CMD_WORK`. -/
  wakes : ℕ
  /-- Senders with a confirmed command, before they test the list. -/
  listTests : ℕ
  firmware : List (ℕ × LmacMsg β)

/-- After `rwnx_init_cmd_array` and `rwnx_cmd_mgr_init`. -/
def CmdMgr.init [Inhabited β] : CmdMgr β :=
  { state := .up
    crashed := false
    cmdArray := fun _ =>
      { used := false
        flags := ⟨false, false, false, false, false, false⟩
        reqid := 0
        a2eMsg := ⟨.other 0, default⟩
        e2aMsg := false
        complete := false }
    cmds := []
    queueSz := 0
    cmdWork := false
    worker := .idle
    sender := fun _ => .idle
    queueTests := 0
    wakes := 0
    listTests := 0
    firmware := [] }

inductive CmdAct (β : Type*)
  /-- The command is in the list. -/
  | accept (msg : LmacMsg β)
  /-- `-EPIPE` or `-ENOMEM`. -/
  | refuse (msg : LmacMsg β)
  | setCmdTx (msg : LmacMsg β) (reqcfm : Bool)
  | kfree (msg : LmacMsg β)
  /-- The firmware answers. -/
  | answer (msg : LmacMsg β)
  /-- The confirmation is copied to the stack of the sender, who is there or not. -/
  | memcpy (msg : LmacMsg β) (live : Bool)
  /-- The command is confirmed. -/
  | complete (msg : LmacMsg β)
  deriving DecidableEq

namespace CmdMgr

def setCmd (s : CmdMgr β) (i : ℕ) (f : RwnxCmd β → RwnxCmd β) : CmdMgr β :=
  { s with cmdArray := Function.update s.cmdArray i (f (s.cmdArray i)) }

def setSender (s : CmdMgr β) (i : ℕ) (p : CmdSender) : CmdMgr β :=
  { s with sender := Function.update s.sender i p }

variable {s : CmdMgr β} {i j : ℕ}

theorem setCmd_self (f : RwnxCmd β → RwnxCmd β) : (s.setCmd i f).cmdArray i = f (s.cmdArray i) :=
  Function.update_self ..

theorem setCmd_of_ne (h : j ≠ i) (f : RwnxCmd β → RwnxCmd β) :
    (s.setCmd i f).cmdArray j = s.cmdArray j :=
  Function.update_of_ne h ..

theorem setSender_self (p : CmdSender) : (s.setSender i p).sender i = p :=
  Function.update_self ..

theorem setSender_of_ne (h : j ≠ i) (p : CmdSender) : (s.setSender i p).sender j = s.sender j :=
  Function.update_of_ne h ..

end CmdMgr

/-! ### Commands -/

/-- `rwnx_cmd_malloc`. -/
def rwnxCmdMalloc (s : CmdMgr β) : Option ℕ :=
  (List.range rwnxCmdArraySize).find? fun i => !(s.cmdArray i).used

/-- `rwnx_cmd_free`. -/
def rwnxCmdFree (s : CmdMgr β) (i : ℕ) : CmdMgr β := s.setCmd i fun c => { c with used := false }

/-- The command is filled. Its flags are those of its last use. -/
def RwnxCmd.fill (c : RwnxCmd β) (msg : LmacMsg β) (reqid : ℕ) (reqcfm cfm : Bool) : RwnxCmd β :=
  { c with
    used := true
    reqid := reqid
    a2eMsg := msg
    e2aMsg := cfm
    flags :=
      { c.flags with
        reqCfm := c.flags.reqCfm || reqcfm
        waitAck := c.flags.waitAck && !reqcfm } }

/-- The beginning of `rwnx_send_msg` and `rwnx_send_msg1`, after which the sender is at `p`. Without
a command left, the code goes through a null pointer. -/
def rwnxSendMsgBegin (s : CmdMgr β) (msg : LmacMsg β) (reqid : ℕ) (reqcfm cfm : Bool)
    (p : CmdSender) : Option (List (CmdAct β) × CmdMgr β) :=
  if s.state = .down then some ([.kfree msg], s)
  else
    (rwnxCmdMalloc s).map fun i =>
      ([], (s.setCmd i fun c => c.fill msg reqid reqcfm cfm).setSender i p)

/-- `rwnx_send_msg` up to the wait for an empty list. -/
def rwnxSendMsg (s : CmdMgr β) (msg : LmacMsg β) (reqid : ℕ) (reqcfm cfm : Bool) :
    Option (List (CmdAct β) × CmdMgr β) :=
  rwnxSendMsgBegin s msg reqid reqcfm cfm
    (if cfm then .emptying reqcfm else if reqcfm then .queueing false else .sending false)

/-- `rwnx_send_msg1` up to where it queues. -/
def rwnxSendMsg1 (s : CmdMgr β) (msg : LmacMsg β) (reqid : ℕ) (reqcfm cfm defer : Bool) :
    Option (List (CmdAct β) × CmdMgr β) :=
  rwnxSendMsgBegin s msg reqid reqcfm cfm (if reqcfm then .queueing defer else .freeing false)

/-! ### The list -/

/-- The command is queued. -/
def RwnxCmd.queue (c : RwnxCmd β) (deferPush : Bool) : RwnxCmd β :=
  { c with
    flags :=
      { c.flags with
        waitPush := c.flags.waitPush || deferPush
        waitCfm := c.flags.waitCfm || c.flags.reqCfm }
    complete := c.flags.nonblock && c.complete }

/-- The list takes no further command. -/
def CmdMgr.full (s : CmdMgr β) : Bool := !s.cmds.isEmpty && s.queueSz == rwnxCmdMaxQueued

/-- The last command waits for something. -/
def CmdMgr.busy (s : CmdMgr β) : Bool :=
  match s.cmds.getLast? with
  | none => false
  | some j =>
    let flags := (s.cmdArray j).flags
    flags.waitAck || flags.waitPush || flags.waitCfm

/-- The commands that `cmd_mgr_queue` never sends itself. -/
def LmacMsgId.deferPush : LmacMsgId → Bool
  | .meTrafficIndReq | .mmSetArpoffloadReq => true
  | .other _ => false

/-- `cmd_mgr_queue` under the lock. -/
def cmdMgrQueue (s : CmdMgr β) (i : ℕ) : List (CmdAct β) × CmdMgr β :=
  let msg := (s.cmdArray i).a2eMsg
  if s.crashed || s.full then ([.refuse msg], s.setSender i (.freeing false))
  else
    let deferPush := s.busy || msg.id.deferPush
    let t := { s.setCmd i fun c => c.queue deferPush with
      cmds := s.cmds ++ [i]
      queueSz := s.queueSz + 1 }
    ([.accept msg],
      if deferPush then { t.setSender i .idle with queueTests := s.queueTests + 1 }
      else t.setSender i (.sending true))

/-- `cmd_mgr_queue_force_defer` under the lock. -/
def cmdMgrQueueForceDefer (s : CmdMgr β) (i : ℕ) : List (CmdAct β) × CmdMgr β :=
  let msg := (s.cmdArray i).a2eMsg
  if s.crashed || s.full then ([.refuse msg], s.setSender i (.freeing false))
  else
    ([.accept msg], { (s.setCmd i fun c => c.queue true).setSender i .idle with
      cmds := s.cmds ++ [i]
      queueSz := s.queueSz + 1
      wakes := s.wakes + 1 })

/-- `cmd_complete`. -/
def cmdComplete (s : CmdMgr β) (i : ℕ) : CmdMgr β :=
  { s.setCmd i fun c =>
      if c.flags.nonblock then { c with used := false, flags := { c.flags with done := true } }
      else
        { c with
          flags := { c.flags with done := true }
          complete := c.complete || c.flags.waitComplete } with
    cmds := s.cmds.erase i
    queueSz := s.queueSz - 1 }

theorem cmdComplete_of_ne {s : CmdMgr β} {i j : ℕ} (h : j ≠ i) :
    (cmdComplete s i).cmdArray j = s.cmdArray j :=
  Function.update_of_ne h ..

/-- `aicwf_set_cmd_tx` of a command; `sent` is whether the transfer succeeds. -/
def aicwfSetCmdTx (s : CmdMgr β) (i : ℕ) (sent : Bool) : CmdMgr β :=
  let cmd := s.cmdArray i
  if s.state = .up ∧ sent then { s with firmware := s.firmware ++ [(cmd.reqid, cmd.a2eMsg)] } else s

section

variable (s : CmdMgr β) (i : ℕ) (sent : Bool)

@[simp] theorem aicwfSetCmdTx_cmds : (aicwfSetCmdTx s i sent).cmds = s.cmds := by
  rw [aicwfSetCmdTx]
  split <;> rfl

@[simp] theorem aicwfSetCmdTx_cmdArray : (aicwfSetCmdTx s i sent).cmdArray = s.cmdArray := by
  rw [aicwfSetCmdTx]
  split <;> rfl

@[simp] theorem aicwfSetCmdTx_sender : (aicwfSetCmdTx s i sent).sender = s.sender := by
  rw [aicwfSetCmdTx]
  split <;> rfl

@[simp] theorem aicwfSetCmdTx_worker : (aicwfSetCmdTx s i sent).worker = s.worker := by
  rw [aicwfSetCmdTx]
  split <;> rfl

/-- Only the firmware sees it. -/
theorem aicwfSetCmdTx_eq : ∃ fw, aicwfSetCmdTx s i sent = { s with firmware := fw } := by
  rw [aicwfSetCmdTx]
  split <;> exact ⟨_, rfl⟩

end

/-- The sender is still in `rwnx_send_msg`, or `rwnx_send_msg1`. -/
def CmdSender.live : CmdSender → Bool
  | .idle => false
  | _ => true

/-- `cmd_mgr_msgind`; `cb` is whether the callback takes the message. -/
def cmdMgrMsgind (s : CmdMgr β) (id : ℕ) (cb : Bool) : List (CmdAct β) × CmdMgr β :=
  match s.cmds.find? fun i => (s.cmdArray i).reqid == id && (s.cmdArray i).flags.waitCfm && cb with
  | none => ([], s)
  | some i =>
    let cmd := s.cmdArray i
    let t := s.setCmd i fun c => { c with flags := { c.flags with waitCfm := false } }
    (if cmd.e2aMsg then [.memcpy cmd.a2eMsg (s.sender i).live, .complete cmd.a2eMsg]
      else [.complete cmd.a2eMsg],
      if (t.cmdArray i).flags.waitComplete then cmdComplete t i else t)

/-! ### The senders -/

/-- The next step of the sender of a command. -/
def cmdSenderStep (s : CmdMgr β) (i : ℕ) (sent : Bool) : Option (List (CmdAct β) × CmdMgr β) :=
  let msg := (s.cmdArray i).a2eMsg
  match s.sender i with
  | .idle => none
  | .emptying reqcfm =>
    if s.crashed || s.cmds.isEmpty then
      some ([], s.setSender i (if reqcfm then .queueing false else .sending false))
    else none
  | .queueing defer => some (if defer then cmdMgrQueueForceDefer s i else cmdMgrQueue s i)
  | .sending false => some ([.setCmdTx msg false], s.setSender i (.freeing false))
  | .sending true =>
    some ([.setCmdTx msg true, .kfree msg], (aicwfSetCmdTx s i sent).setSender i
      (if (s.cmdArray i).flags.nonblock then .idle else .waiting))
  | .waiting =>
    if (s.cmdArray i).complete then some ([], s.setSender i (.freeing true)) else none
  | .timedOut =>
    let t := { s.setSender i (.freeing false) with crashed := true }
    some ([], if (s.cmdArray i).flags.done then t else cmdComplete t i)
  | .freeing test =>
    let t := (rwnxCmdFree s i).setSender i .idle
    some ([], if test then { t with listTests := s.listTests + 1 } else t)

/-- The wait of a sender times out. -/
def cmdTimeout (s : CmdMgr β) (i : ℕ) : Option (List (CmdAct β) × CmdMgr β) :=
  if s.sender i = .waiting ∧ (s.cmdArray i).complete = false then
    some ([], s.setSender i .timedOut)
  else none

/-- The wait of a sender is killed, which the code takes for a confirmation. -/
def cmdKill (s : CmdMgr β) (i : ℕ) : Option (List (CmdAct β) × CmdMgr β) :=
  if s.sender i = .waiting ∧ (s.cmdArray i).complete = false then
    some ([], s.setSender i (.freeing true))
  else none

/-- The test of `queue_sz` after a command was deferred. -/
def cmdQueueTest (s : CmdMgr β) : Option (List (CmdAct β) × CmdMgr β) :=
  if s.queueTests = 0 then none
  else
    some ([], { s with
      queueTests := s.queueTests - 1
      cmdWork := s.cmdWork || decide (s.queueSz ≤ 1) })

/-- `WAKE_CMD_WORK` of `cmd_mgr_queue_force_defer`. -/
def cmdWake (s : CmdMgr β) : Option (List (CmdAct β) × CmdMgr β) :=
  if s.wakes = 0 then none else some ([], { s with wakes := s.wakes - 1, cmdWork := true })

/-- The test of the list after a command was confirmed. -/
def cmdListTest (s : CmdMgr β) : Option (List (CmdAct β) × CmdMgr β) :=
  if s.listTests = 0 then none
  else
    some ([], { s with
      listTests := s.listTests - 1
      cmdWork := s.cmdWork || (!s.cmds.isEmpty && decide (s.state = .up)) })

/-! ### The work -/

/-- The next step of `cmd_mgr_task_process`. -/
def cmdMgrTaskProcess (s : CmdMgr β) (sent : Bool) : Option (List (CmdAct β) × CmdMgr β) :=
  match s.worker with
  | .idle => if s.cmdWork then some ([], { s with cmdWork := false, worker := .looking }) else none
  | .looking =>
    match s.cmds with
    | [] => some ([], { s with worker := .idle })
    | i :: _ =>
      some ([], { s with
        worker := if (s.cmdArray i).flags.waitPush then .pushing i else .idle })
  | .pushing i =>
    some ([], { s.setCmd i fun c => { c with flags := { c.flags with waitPush := false } } with
      worker := .sending i })
  | .sending i =>
    let msg := (s.cmdArray i).a2eMsg
    some ([.setCmdTx msg true, .kfree msg], { aicwfSetCmdTx s i sent with worker := .waiting i })
  | .waiting i =>
    if (s.cmdArray i).complete then some ([], { s with worker := .freeing i }) else none
  | .timedOut i =>
    let t := { s with crashed := true, worker := .looking }
    some ([], if (s.cmdArray i).flags.done then t else cmdComplete t i)
  | .freeing i => some ([], { rwnxCmdFree s i with worker := .looking })

/-- The wait of the work times out. -/
def cmdWorkTimeout (s : CmdMgr β) : Option (List (CmdAct β) × CmdMgr β) :=
  match s.worker with
  | .waiting i =>
    if (s.cmdArray i).complete then none else some ([], { s with worker := .timedOut i })
  | _ => none

/-! ### Runs -/

/-- The firmware answers the `n`-th request that it has. -/
def firmwareConfirm (s : CmdMgr β) (n : ℕ) : Option (List (CmdAct β) × CmdMgr β) :=
  s.firmware[n]?.map fun r =>
    let (acts, t) := cmdMgrMsgind { s with firmware := s.firmware.eraseIdx n } r.1 true
    (.answer r.2 :: acts, t)

inductive CmdOp (β : Type*)
  | send (msg : LmacMsg β) (reqid : ℕ) (reqcfm cfm : Bool)
  | send1 (msg : LmacMsg β) (reqid : ℕ) (reqcfm cfm defer : Bool)
  | sender (i : ℕ) (sent : Bool)
  | timeout (i : ℕ)
  | kill (i : ℕ)
  | queueTest
  | wake
  | listTest
  | work (sent : Bool)
  | workTimeout
  /-- The firmware confirms a request. -/
  | confirm (n : ℕ)
  /-- The firmware sends another message. -/
  | indicate (id : ℕ) (cb : Bool)
  /-- The bus comes up, goes down or sleeps. -/
  | usb (state : UsbSt)

def cmdMachine (β : Type*) : Machine (CmdMgr β) (CmdOp β) (List (CmdAct β)) where
  step s
    | .send msg reqid reqcfm cfm => rwnxSendMsg s msg reqid reqcfm cfm
    | .send1 msg reqid reqcfm cfm defer => rwnxSendMsg1 s msg reqid reqcfm cfm defer
    | .sender i sent => cmdSenderStep s i sent
    | .timeout i => cmdTimeout s i
    | .kill i => cmdKill s i
    | .queueTest => cmdQueueTest s
    | .wake => cmdWake s
    | .listTest => cmdListTest s
    | .work sent => cmdMgrTaskProcess s sent
    | .workTimeout => cmdWorkTimeout s
    | .confirm n => firmwareConfirm s n
    | .indicate id cb => some (cmdMgrMsgind s id cb)
    | .usb state => some ([], { s with state := state })

end LonganPi.Wifi
