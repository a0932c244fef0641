import LonganPi.Lib.Cursor
import LonganPi.Lib.Trace
import Mathlib.Data.Fin.VecNotation
import Mathlib.Data.Finset.Basic
import Mathlib.Algebra.BigOperators.Group.List.Basic
import Mathlib.Algebra.GroupWithZero.Nat

/-!
# The transmit queues

Every frame waits in a TX queue (`struct rwnx_txq`): each station has one for each of its eight TIDs
and one for management frames, each interface one for multicast frames and one for stations it does
not know, and there is one for frames off the channel. A queue that has frames and may send is in
the list of a HW queue; `rwnx_hwq_process` walks that list and pushes frames to the bus.

A queue may be stopped for several reasons. A station in power save stops all of its queues, and
gets frames only in service periods that it asks for (`rwnx_ps_bh_traffic_req`), as many as
`push_limit` says.

What runs under `tx_lock` is one step. `rwnx_txq_deinit` frees the frames after it has dropped the
lock, so it is two steps; frames may still be queued in between. The asserts of `rwnx_hwq_process`
end the run.

`rwnx_txdatacfm` is one step too, as its comment asks for. The confirmations of the USB bus come
through `aicwf_usb_host_tx_cfm_handler`, which does not take the lock, so this is an assumption:
what two of them do to a list at the same time is not followed.

The queues of the array `rwnx_hw->txq` are named by what they are for.
-/

open DriverLib

namespace LonganPi.Wifi

variable {β : Type*}

/-! ### Stations and queues -/

/-- The HW queues `RWNX_HWQ_BK` to `RWNX_HWQ_BCMC`. -/
inductive HwqId
  | bk
  | be
  | vi
  | vo
  | bcmc
  deriving DecidableEq

/-- `nx_txdesc_cnt`. -/
def HwqId.size : HwqId → ℕ
  | bk => 8
  | be => 64
  | vi => 64
  | vo => 32
  | bcmc => 8

/-- The index of a power save mode, `LEGACY_PS_ID` or `UAPSD_ID`. -/
inductive PsId
  | legacy
  | uapsd
  deriving DecidableEq

/-- An entry of `sta_table`: a remote station, or the multicast station of an interface. -/
inductive StaId
  | remote (i : ℕ)
  | bcmc (v : ℕ)
  deriving DecidableEq

/-- A TX queue. TID 8 is that of management frames. -/
inductive TxqId
  | sta (i : ℕ) (tid : Fin 9)
  | bcmc (v : ℕ)
  | unk (v : ℕ)
  | offchan
  deriving DecidableEq

/-- `txq->sta`. -/
def TxqId.sta? : TxqId → Option StaId
  | sta i _ => some (.remote i)
  | bcmc v => some (.bcmc v)
  | unk _ | offchan => none

/-- `rwnx_tid2hwq`, as far as stations use it. -/
def rwnxTid2hwq : Fin 9 → HwqId :=
  ![.be, .bk, .bk, .be, .vi, .vi, .vo, .vo, .vo]

/-- `txq->hwq`: all that write it write this. -/
def TxqId.hwq : TxqId → HwqId
  | sta _ tid => rwnxTid2hwq tid
  | bcmc _ => .be
  | unk _ | offchan => .vo

/-- `txq->ndev_idx` is not `NDEV_NO_TXQ`. -/
def TxqId.hasNdev : TxqId → Bool
  | sta _ tid => tid ≠ 8
  | bcmc _ => true
  | unk _ | offchan => false

/-- The queues of a station, as `foreach_sta_txq` visits them. -/
def StaId.txqs : StaId → List TxqId
  | remote i => (List.finRange 9).map (TxqId.sta i)
  | bcmc v => [.bcmc v]

/-- `nx_tid_prio`. -/
def nxTidPrio : List (Fin 9) := [7, 6, 5, 4, 3, 0, 2, 1]

/-! ### State -/

/-- `enum rwnx_txq_flags`. -/
inductive TxqFlag
  | inHwqList
  | stopFull
  | stopCsa
  | stopStaPs
  | stopVifPs
  | stopChan
  | ndevFlowCtrl
  deriving DecidableEq

/-- `RWNX_TXQ_STOP`. -/
def rwnxTxqStop : Finset TxqFlag :=
  {.stopFull, .stopCsa, .stopStaPs, .stopVifPs, .stopChan}

/-- `struct rwnx_txq`. -/
structure Txq (β : Type*) where
  /-- `idx` is not `TXQ_INACTIVE`. -/
  active : Bool
  status : Finset TxqFlag
  credits : ℤ
  pktSent : ℕ
  skList : List β
  lastRetrySkb : Option β
  nbRetry : ℕ
  pushLimit : ℕ
  psId : PsId

/-- `struct rwnx_hwq`. -/
structure Hwq where
  list : List TxqId
  needProcessing : Bool

/-- `struct rwnx_sta_ps`, and whether the last frame of each service period is marked: on a mesh
interface, and for a TDLS peer. -/
structure StaPs where
  active : Bool
  pktReady : PsId → ℕ
  spCnt : PsId → ℕ
  marksEosp : Bool

/-- `struct rwnx_hw`, with `tbusy` of the bus, and whether its state is `USB_DOWN_ST`. -/
structure RwnxHw (β : Type*) where
  txq : TxqId → Txq β
  hwq : HwqId → Hwq
  ps : StaId → StaPs
  tbusy : Bool
  usbDown : Bool

/-- Before the first station: every queue is inactive. -/
def RwnxHw.init : RwnxHw β :=
  { txq := fun _ => ⟨false, ∅, 0, 0, [], none, 0, 0, .legacy⟩
    hwq := fun _ => ⟨[], false⟩
    ps := fun _ => ⟨false, fun _ => 0, fun _ => 0, false⟩
    tbusy := false
    usbDown := false }

/-- What is done with frames and queues, as seen from outside. -/
inductive TxAct (β : Type*)
  /-- `rwnx_tx_push` passes a frame to the bus. -/
  | push (q : TxqId) (skb : β) (retry moreData eosp : Bool)
  | kfreeSkb (q : TxqId) (skb : β)
  /-- A confirmed frame is released. -/
  | consumeSkb (q : TxqId) (skb : β)
  /-- `rwnx_set_traffic_status`. -/
  | trafficStatus (sta : StaId) (available : Bool) (psId : PsId)
  | stopSubqueue (q : TxqId)
  | wakeSubqueue (q : TxqId)
  /-- "last retry buffer is not the expected one". -/
  | warnRetry (q : TxqId)
  deriving DecidableEq

namespace RwnxHw

def setTxq (s : RwnxHw β) (q : TxqId) (t : Txq β) : RwnxHw β :=
  { s with txq := Function.update s.txq q t }

def setHwq (s : RwnxHw β) (h : HwqId) (w : Hwq) : RwnxHw β :=
  { s with hwq := Function.update s.hwq h w }

def setPs (s : RwnxHw β) (i : StaId) (p : StaPs) : RwnxHw β :=
  { s with ps := Function.update s.ps i p }

variable (s : RwnxHw β) (q : TxqId) (t : Txq β) (h : HwqId) (w : Hwq) (i : StaId) (p : StaPs)

@[simp] theorem setTxq_txq : (s.setTxq q t).txq = Function.update s.txq q t := rfl
@[simp] theorem setTxq_hwq : (s.setTxq q t).hwq = s.hwq := rfl
@[simp] theorem setTxq_ps : (s.setTxq q t).ps = s.ps := rfl
@[simp] theorem setTxq_tbusy : (s.setTxq q t).tbusy = s.tbusy := rfl
@[simp] theorem setHwq_txq : (s.setHwq h w).txq = s.txq := rfl
@[simp] theorem setHwq_hwq : (s.setHwq h w).hwq = Function.update s.hwq h w := rfl
@[simp] theorem setHwq_ps : (s.setHwq h w).ps = s.ps := rfl
@[simp] theorem setPs_txq : (s.setPs i p).txq = s.txq := rfl
@[simp] theorem setPs_hwq : (s.setPs i p).hwq = s.hwq := rfl
@[simp] theorem setPs_ps : (s.setPs i p).ps = Function.update s.ps i p := rfl

end RwnxHw

/-! ### The lists of the HW queues -/

/-- `rwnx_txq_is_stopped`. -/
def Txq.isStopped (t : Txq β) : Bool := (t.status ∩ rwnxTxqStop).Nonempty

/-- `rwnx_txq_is_scheduled`. -/
def Txq.isScheduled (t : Txq β) : Bool := .inHwqList ∈ t.status

/-- `rwnx_txq_skb_ready`. -/
def Txq.skbReady (t : Txq β) : Bool := !t.skList.isEmpty

/-- `rwnx_txq_add_to_hw_list`. -/
def txqAddToHwList (s : RwnxHw β) (q : TxqId) : RwnxHw β :=
  if (s.txq q).isScheduled then s
  else
    (s.setTxq q { s.txq q with status := insert .inHwqList (s.txq q).status }).setHwq q.hwq
      { list := (s.hwq q.hwq).list ++ [q], needProcessing := true }

/-- `rwnx_txq_del_from_hw_list`. -/
def txqDelFromHwList (s : RwnxHw β) (q : TxqId) : RwnxHw β :=
  if (s.txq q).isScheduled then
    (s.setTxq q { s.txq q with status := (s.txq q).status.erase .inHwqList }).setHwq q.hwq
      { s.hwq q.hwq with list := (s.hwq q.hwq).list.erase q }
  else s

/-- `rwnx_txq_start`. -/
def txqStart (s : RwnxHw β) (q : TxqId) (reason : TxqFlag) : RwnxHw β :=
  if (s.txq q).active ∧ reason ∈ (s.txq q).status then
    let s := s.setTxq q { s.txq q with status := (s.txq q).status.erase reason }
    if !(s.txq q).isStopped ∧ (s.txq q).skbReady then txqAddToHwList s q else s
  else s

/-- `rwnx_txq_stop`. -/
def txqStop (s : RwnxHw β) (q : TxqId) (reason : TxqFlag) : RwnxHw β :=
  if (s.txq q).active then
    txqDelFromHwList (s.setTxq q { s.txq q with status := insert reason (s.txq q).status }) q
  else s

/-- `rwnx_txq_init`. -/
def txqInit (s : RwnxHw β) (q : TxqId) (status : Finset TxqFlag) (psId : PsId) : RwnxHw β :=
  s.setTxq q ⟨true, status, 64, 0, [], none, 0, 0, psId⟩

/-- `rwnx_txq_deinit`, up to where it drops the lock. -/
def txqDeinit (s : RwnxHw β) (q : TxqId) : RwnxHw β :=
  if (s.txq q).active then
    let s := txqDelFromHwList s q
    s.setTxq q { s.txq q with active := false }
  else s

/-- `rwnx_txq_flush`. -/
def txqFlush (s : RwnxHw β) (q : TxqId) : List (TxAct β) × RwnxHw β :=
  ((s.txq q).skList.map (.kfreeSkb q), s.setTxq q { s.txq q with skList := [] })

/-! ### Queueing a frame -/

/-- `skb_append`: a frame goes behind another one. -/
def skbAppend [DecidableEq β] (old newsk : β) : List β → List β
  | [] => []
  | x :: l => if x = old then x :: newsk :: l else x :: skbAppend old newsk l

/-- A station in power save has one more frame ready; its TIM is told of the first one. -/
def psQueue (s : RwnxHw β) (q : TxqId) : List (TxAct β) × RwnxHw β :=
  match q.sta? with
  | none => ([], s)
  | some i =>
    if (s.ps i).active then
      let psId := (s.txq q).psId
      let n := ((s.ps i).pktReady psId + 1) % 2 ^ 16
      (if n = 1 then [.trafficStatus i true psId] else [],
        s.setPs i { s.ps i with pktReady := Function.update (s.ps i).pktReady psId n })
    else ([], s)

/-- The frame enters the list: at its end, or, to be sent again, behind the last such frame. -/
def Txq.enqueue [DecidableEq β] (t : Txq β) (skb : β) (retry : Bool) : Txq β :=
  if retry then
    { t with
      skList := match t.lastRetrySkb with
        | some last => skbAppend last skb t.skList
        | none => skb :: t.skList
      lastRetrySkb := some skb
      nbRetry := t.nbRetry + 1 }
  else { t with skList := t.skList ++ [skb] }

/-- The netdev queue is stopped when more than `RWNX_NDEV_FLOW_CTRL_STOP` frames wait. -/
def flowCtrlStop (s : RwnxHw β) (q : TxqId) : List (TxAct β) × RwnxHw β :=
  if q.hasNdev ∧ s.tbusy = false ∧ 64 < (s.txq q).skList.length then
    ([.stopSubqueue q],
      s.setTxq q { s.txq q with status := insert .ndevFlowCtrl (s.txq q).status })
  else ([], s)

/-- `rwnx_txq_queue_skb`. It tells whether the queue is in its HW queue's list. -/
def txqQueueSkb [DecidableEq β] (s : RwnxHw β) (q : TxqId) (skb : β) (retry : Bool) :
    List (TxAct β) × RwnxHw β × Bool :=
  let r₁ := psQueue s q
  let r₂ := flowCtrlStop (r₁.2.setTxq q ((r₁.2.txq q).enqueue skb retry)) q
  if (r₂.2.txq q).isStopped then (r₁.1 ++ r₂.1, r₂.2, false)
  else (r₁.1 ++ r₂.1, txqAddToHwList r₂.2 q, true)

/-! ### Processing a HW queue -/

/-- `rwnx_txq_get_credits`. -/
def Txq.getCredits (t : Txq β) : ℤ :=
  if t.pushLimit ≠ 0 ∧ t.credits > t.pushLimit then t.pushLimit else t.credits

/-- `rwnx_txq_get_skb_to_push`: the frames to push, those that stay, and whether the queue is done
with. -/
def Txq.getSkbToPush (t : Txq β) : List β × List β × Bool :=
  if t.getCredits ≥ t.skList.length then (t.skList, [], true)
  else
    (t.skList.take t.getCredits.toNat, t.skList.drop t.getCredits.toNat,
      t.pushLimit ≠ 0 ∧ t.getCredits = t.pushLimit)

/-- A station in power save has one frame less ready, and one less to get. -/
def StaPs.push (p : StaPs) (psId : PsId) : StaPs :=
  { p with
    pktReady := Function.update p.pktReady psId ((p.pktReady psId + (2 ^ 16 - 1)) % 2 ^ 16)
    spCnt := Function.update p.spCnt psId ((p.spCnt psId + (2 ^ 16 - 1)) % 2 ^ 16) }

/-- `rwnx_set_more_data_flag`: the flags `MORE_DATA` and `EOSP`, and the message to the TIM. -/
def setMoreDataFlag (s : RwnxHw β) (q : TxqId) : (Bool × Bool) × List (TxAct β) × RwnxHw β :=
  match q.sta? with
  | none => ((false, false), [], s)
  | some i =>
    if (s.ps i).active then
      let psId := (s.txq q).psId
      let p := (s.ps i).push psId
      ((p.pktReady psId ≠ 0, (psId = .uapsd ∨ p.marksEosp) ∧ p.spCnt psId = 0),
        if p.pktReady psId ≠ 0 then [] else [.trafficStatus i false psId], s.setPs i p)
    else ((false, false), [], s)

/-- The counters of a queue that pushes a frame. -/
def Txq.push (t : Txq β) : Txq β :=
  if t.nbRetry ≠ 0 then
    { t with
      nbRetry := t.nbRetry - 1
      lastRetrySkb := if t.nbRetry = 1 then none else t.lastRetrySkb
      pushLimit := t.pushLimit - 1 }
  else { t with pktSent := (t.pktSent + 1) % 2 ^ 8, pushLimit := t.pushLimit - 1 }

/-- `rwnx_tx_push`: a frame that has left the list goes to the bus. -/
def txPush [DecidableEq β] (s : RwnxHw β) (q : TxqId) (skb : β) : List (TxAct β) × RwnxHw β :=
  let t := s.txq q
  let warn := t.nbRetry = 1 ∧ t.lastRetrySkb ≠ some skb
  let r := setMoreDataFlag s q
  ((if warn then [.warnRetry q] else []) ++ r.2.1 ++
      [.push q skb (t.nbRetry ≠ 0) r.1.1 r.1.2],
    r.2.2.setTxq q t.push)

/-- Frames are pushed one after another. -/
def txPushAll [DecidableEq β] (s : RwnxHw β) (q : TxqId) : List β → List (TxAct β) × RwnxHw β
  | [] => ([], s)
  | skb :: l =>
    let r := txPush s q skb
    let r' := txPushAll r.2 q l
    (r.1 ++ r'.1, r'.2)

/-- What becomes of the queue's place in the list. -/
def hwqRelist (s : RwnxHw β) (h : HwqId) (q : TxqId) (txqEmpty : Bool) : RwnxHw β :=
  if txqEmpty then
    let s := txqDelFromHwList s q
    s.setTxq q { s.txq q with pktSent := 0 }
  else if (s.txq q).isScheduled ∧ h.size < (s.txq q).pktSent then
    (s.setTxq q { s.txq q with pktSent := 0 }).setHwq h
      { s.hwq h with list := (s.hwq h).list.rotate 1 }
  else s

/-- "for legacy PS abort SP and wait next ps-poll". -/
def abortSp (s : RwnxHw β) (q : TxqId) : RwnxHw β :=
  match q.sta? with
  | none => s
  | some i =>
    let t := s.txq q
    if t.pushLimit ≠ 0 ∧ t.psId = .legacy then
      (s.setPs i { s.ps i with
          spCnt := Function.update (s.ps i).spCnt .legacy
            (((s.ps i).spCnt .legacy + (2 ^ 16 - t.pushLimit)) % 2 ^ 16) }).setTxq q
        { t with pushLimit := 0 }
    else s

/-- The netdev queue starts again below `RWNX_NDEV_FLOW_CTRL_RESTART` frames. -/
def flowCtrlRestart (s : RwnxHw β) (q : TxqId) : List (TxAct β) × RwnxHw β :=
  if .ndevFlowCtrl ∈ (s.txq q).status ∧ (s.txq q).skList.length < 64 then
    (if s.tbusy then [] else [.wakeSubqueue q],
      s.setTxq q { s.txq q with status := (s.txq q).status.erase .ndevFlowCtrl })
  else ([], s)

/-- One round of the loop of `rwnx_hwq_process`; none when a `BUG_ON` of it holds. -/
def hwqVisit [DecidableEq β] (h : HwqId) (s : RwnxHw β) (q : TxqId) :
    Option (List (TxAct β) × RwnxHw β) :=
  let t := s.txq q
  if !t.isScheduled then none
  else if !t.active then some (txqFlush (txqDelFromHwList s q) q)
  else if t.credits ≤ 0 then none
  else if !t.skbReady then none
  else
    let p := t.getSkbToPush
    let r := txPushAll (s.setTxq q { t with skList := p.2.1 }) q p.1
    let r' := flowCtrlRestart (abortSp (hwqRelist r.2 h q p.2.2) q) q
    some (r.1 ++ r'.1, r'.2)

/-- A bound on the rounds of the loop: each pushes a frame or takes a queue off the list. -/
def backlog (h : HwqId) (s : RwnxHw β) : ℕ :=
  ((s.hwq h).list.map fun q => (s.txq q).skList.length + 1).sum

/-- `rwnx_hwq_process`. -/
def hwqProcess [DecidableEq β] (s : RwnxHw β) (h : HwqId) : Option (List (TxAct β) × RwnxHw β) :=
  let s := s.setHwq h { s.hwq h with needProcessing := false }
  Cursor.walk (fun s => (s.hwq h).list) (hwqVisit h) (backlog h s) s (s.hwq h).list.head?

/-- `rwnx_hwq_process_all`, from the HW queues in `hs` on. -/
def hwqProcessAll [DecidableEq β] : List HwqId → RwnxHw β → Option (List (TxAct β) × RwnxHw β)
  | [], s => some ([], s)
  | h :: hs, s =>
    if (s.hwq h).needProcessing then
      (hwqProcess s h).bind fun r =>
        (hwqProcessAll hs r.2).map fun r' => (r.1 ++ r'.1, r'.2)
    else hwqProcessAll hs s

/-! ### Power save -/

/-- `rwnx_ps_bh_enable` with `enable` set. -/
def psEnable (s : RwnxHw β) (i : StaId) : RwnxHw β :=
  let s := i.txqs.foldl (fun s q => txqStop s q .stopStaPs) s
  let ready : PsId → ℕ := match i with
    | .bcmc v => fun
      | .legacy => (s.txq (.bcmc v)).skList.length % 2 ^ 16
      | .uapsd => 0
    | .remote _ => fun psId =>
      i.txqs.foldl (fun n q =>
        if (s.txq q).psId = psId then (n + (s.txq q).skList.length) % 2 ^ 16 else n) 0
  s.setPs i { s.ps i with active := true, spCnt := fun _ => 0, pktReady := ready }

/-- The queues of a station have no service period. -/
def clearPushLimit (s : RwnxHw β) (qs : List TxqId) : RwnxHw β :=
  qs.foldl (fun s q => s.setTxq q { s.txq q with pushLimit := 0 }) s

/-- `rwnx_ps_bh_enable` with `enable` clear. -/
def psDisable (s : RwnxHw β) (i : StaId) : RwnxHw β :=
  let s := s.setPs i { s.ps i with active := false }
  i.txqs.foldl (fun s q => txqStart s q .stopStaPs) (clearPushLimit s i.txqs)

/-- A queue may push `n` frames although its station is in power save. -/
def grant (s : RwnxHw β) (i : StaId) (psId : PsId) (q : TxqId) (n : ℕ) : RwnxHw β :=
  let s := s.setTxq q { s.txq q with pushLimit := n % 2 ^ 8 }
  let s := s.setPs i { s.ps i with
    spCnt := Function.update (s.ps i).spCnt psId (((s.ps i).spCnt psId + n) % 2 ^ 16) }
  txqAddToHwList s q

/-- A 16-bit value. -/
def u16 (n : ℤ) : ℕ := (n % 2 ^ 16).toNat

/-- The request is dispatched over the queues of a station, in the order of their priority. -/
def dispatch (i : StaId) (psId : PsId) : List TxqId → ℕ → RwnxHw β → RwnxHw β
  | [], _, s => s
  | q :: qs, pktReq, s =>
    let t := s.txq q
    let len : ℕ := t.skList.length % 2 ^ 16
    let txqLen := if t.credits < len then u16 t.credits else len
    if t.psId ≠ psId then dispatch i psId qs pktReq s
    else if txqLen = 0 then dispatch i psId qs pktReq s
    else if txqLen < pktReq then dispatch i psId qs (pktReq - txqLen) (grant s i psId q txqLen)
    else grant s i psId q pktReq

/-- `rwnx_ps_bh_traffic_req`. -/
def psTrafficReq (s : RwnxHw β) (i : StaId) (pktReq : ℕ) (psId : PsId) : RwnxHw β :=
  let p := s.ps i
  if p.active = false then s
  else if pktReq = 255 ∧ psId = .uapsd then
    -- `PS_SP_INTERRUPTED`
    clearPushLimit (s.setPs i { p with spCnt := Function.update p.spCnt psId 0 }) i.txqs
  else if p.spCnt psId ≠ 0 ∨ p.pktReady psId ≤ p.spCnt psId then s
  else
    let ready := p.pktReady psId - p.spCnt psId
    let pktReq := if pktReq = 0 ∨ ready < pktReq then ready else pktReq
    match i with
    | .bcmc v =>
      let t := s.txq (.bcmc v)
      let pktReq := if t.credits < pktReq then u16 t.credits else pktReq
      grant s i psId (.bcmc v) pktReq
    | .remote n => dispatch i psId (nxTidPrio.map (TxqId.sta n)) pktReq s

/-! ### Confirmations -/

/-- An 8-bit signed value. -/
def s8 (n : ℤ) : ℤ := (n + 2 ^ 7) % 2 ^ 8 - 2 ^ 7

/-- `rwnx_tx_retry`. -/
def txRetry [DecidableEq β] (s : RwnxHw β) (q : TxqId) (skb : β) : List (TxAct β) × RwnxHw β :=
  let s := s.setTxq q { s.txq q with credits := s8 ((s.txq q).credits + 1) }
  let s := if (s.txq q).credits > 0 then txqStart s q .stopFull else s
  let r := txqQueueSkb s q skb true
  (r.1, r.2.1)

/-- `rwnx_txdatacfm` with the bus up. -/
def txdatacfmUp [DecidableEq β] (s : RwnxHw β) (q : TxqId) (skb : β) (mgmt retry : Bool) :
    List (TxAct β) × RwnxHw β :=
  let s := s.setHwq q.hwq { s.hwq q.hwq with needProcessing := true }
  if mgmt = false ∧ (s.txq q).active ∧ retry then txRetry s q skb
  else
    -- continue service period
    let s :=
      if (s.txq q).active ∧ (s.txq q).pushLimit ≠ 0 ∧ .stopFull ∉ (s.txq q).status then
        txqAddToHwList s q
      else s
    ([.consumeSkb q skb], s)

/-- `rwnx_txdatacfm` with a status that is set, without which it does nothing; `mgmt` is
`TXU_CNTRL_MGMT`, `retry` that the status asks for a retry. -/
def txdatacfm [DecidableEq β] (s : RwnxHw β) (q : TxqId) (skb : β) (mgmt retry : Bool) :
    List (TxAct β) × RwnxHw β :=
  if s.usbDown then ([.consumeSkb q skb], s) else txdatacfmUp s q skb mgmt retry

/-- `rwnx_txq_credit_update`; the credits are not updated. -/
def txqCreditUpdate (s : RwnxHw β) (q : TxqId) : RwnxHw β :=
  if (s.txq q).active then
    if (s.txq q).credits ≤ 0 then txqStop s q .stopFull else txqStart s q .stopFull
  else s

/-! ### Runs -/

/-- Why the queues of an interface stop and start. -/
inductive VifReason
  | csa
  | vifPs
  | chan

def VifReason.flag : VifReason → TxqFlag
  | csa => .stopCsa
  | vifPs => .stopVifPs
  | chan => .stopChan

/-- The steps of the transmit path. -/
inductive TxOp (β : Type*)
  /-- The end of `rwnx_start_xmit` and `rwnx_start_mgmt_xmit`: the frame is queued, and the HW queue
  processed. -/
  | xmit (q : TxqId) (skb : β)
  /-- `rwnx_txq_vif_start`, `rwnx_txq_tdls_sta_start` and `rwnx_txq_offchan_start`. -/
  | start (qs : List TxqId) (reason : VifReason)
  /-- `rwnx_txq_vif_stop` and `rwnx_txq_tdls_sta_stop`. -/
  | stop (qs : List TxqId) (reason : VifReason)
  /-- A station is added to an access point on interface `v`: `rwnx_txq_sta_init`, then
  `rwnx_ps_bh_enable`. -/
  | addSta (i v : ℕ) (uapsd : Fin 9 → Bool) (pmState : Bool)
  /-- The interface is connected to a station: `rwnx_txq_sta_init`. -/
  | connect (i : ℕ) (chan : Bool) (uapsd : Fin 9 → Bool)
  /-- An access point starts: `rwnx_txq_vif_init`. -/
  | startAp (v : ℕ) (chan : Bool)
  /-- `rwnx_txq_unk_vif_init`. -/
  | unkInit (v : ℕ)
  /-- `rwnx_txq_offchan_init`. -/
  | offchanInit
  /-- A station is about to be deleted. -/
  | delSta (i : StaId)
  | deinit (q : TxqId)
  /-- The rest of `rwnx_txq_deinit`. -/
  | flush (q : TxqId)
  /-- `rwnx_rx_ps_change_ind`. -/
  | psChange (i : StaId) (psState : Bool)
  /-- `rwnx_rx_traffic_req_ind`. -/
  | trafficReq (i : StaId) (pktCnt : ℕ) (psId : PsId)
  /-- `rwnx_task`. -/
  | task
  | cfm (q : TxqId) (skb : β) (mgmt retry : Bool)
  | creditUpdate (q : TxqId)
  | busy (tbusy : Bool)
  /-- The bus goes down or comes back. -/
  | usbState (down : Bool)

/-- `rwnx_txq_vif_get_status`. -/
def txqVifGetStatus (s : RwnxHw β) (v : ℕ) : Finset TxqFlag :=
  (s.txq (.bcmc v)).status ∩ {.stopChan, .stopVifPs}

/-- The flags of a queue whose channel may not be the current one. -/
def chanStatus (chan : Bool) : Finset TxqFlag := if chan then {.stopChan} else ∅

/-- `rwnx_txq_sta_init`. -/
def txqStaInit (s : RwnxHw β) (i : ℕ) (status : Finset TxqFlag) (uapsd : Fin 9 → Bool) :
    RwnxHw β :=
  (List.finRange 9).foldl
    (fun s tid => txqInit s (.sta i tid) status (if uapsd tid then .uapsd else .legacy)) s

/-- The transmit path. -/
def txMachine (β : Type*) [DecidableEq β] : Machine (RwnxHw β) (TxOp β) (List (TxAct β)) where
  step s
    | .xmit q skb =>
      let r := txqQueueSkb s q skb false
      if r.2.2 then (hwqProcess r.2.1 q.hwq).map fun r' => (r.1 ++ r'.1, r'.2)
      else some (r.1, r.2.1)
    | .start qs reason => some ([], qs.foldl (fun s q => txqStart s q reason.flag) s)
    | .stop qs reason => some ([], qs.foldl (fun s q => txqStop s q reason.flag) s)
    | .addSta i v uapsd pmState =>
      let s' := txqStaInit s i (txqVifGetStatus s v) uapsd
      some ([], if (s.ps (.remote i)).active || pmState then psEnable s' (.remote i)
        else psDisable s' (.remote i))
    | .connect i chan uapsd =>
      some ([], txqStaInit (s.setPs (.remote i) { s.ps (.remote i) with active := false }) i
        (chanStatus chan) uapsd)
    | .startAp v chan =>
      let s := s.setPs (.bcmc v) { s.ps (.bcmc v) with active := false }
      some ([], txqInit (txqInit s (.bcmc v) (chanStatus chan) .legacy) (.unk v)
        (chanStatus chan) .legacy)
    | .unkInit v => some ([], txqInit s (.unk v) ∅ .legacy)
    | .offchanInit => some ([], txqInit s .offchan (chanStatus true) .legacy)
    | .delSta i => some ([], s.setPs i { s.ps i with active := false })
    | .deinit q => some ([], txqDeinit s q)
    | .flush q => some (txqFlush s q)
    | .psChange i psState => some ([], if psState then psEnable s i else psDisable s i)
    | .trafficReq i pktCnt psId => some ([], psTrafficReq s i pktCnt psId)
    | .task => hwqProcessAll [.bcmc, .vo, .vi, .be, .bk] s
    | .cfm q skb mgmt retry => some (txdatacfm s q skb mgmt retry)
    | .creditUpdate q => some ([], txqCreditUpdate s q)
    | .busy tbusy => some ([], { s with tbusy })
    | .usbState down => some ([], { s with usbDown := down })

end LonganPi.Wifi
