import LonganPi.Wifi.RxOrder
import LonganPi.Wifi.RxFrame

/-!
# The receive path around the reordering

`rwnx_rxdataind_aicwf` gives a frame for the monitor interface to it, frees a management frame, and
looks for the interface of a data frame. There it hands the frame to `reord_process_unit`, or
flushes the frame's TID and passes the frame on. The frames that wait sit in descriptors from a free
queue of `MAX_REORD_RXFRAME`, in the control blocks of the stations.

Four parties act on a control block: the receive thread, the timer interrupt, the work queue that
runs `reord_timeout_worker`, and whoever removes a station. What each does under a lock is one step.
`reord_flush_tid` stops the timer and the worker after it has dropped the lock, so it is two steps;
the receive thread does nothing else in between. A timer that expires starts its handler, and a
work that is taken up starts the worker, before they run; both may be in flight while others act.

`reord_deinit_sta` is one step, which no frame of the station interrupts. It waits for a handler
only if the timer is pending, and for nothing on a block that a flush has disabled, so it may free a
block for which something is still under way. What then runs on the freed block is not followed.

Two things are kept as ghosts: `lost` are the descriptors that `reord_process_unit` takes and
forgets, and `dangling` the stations that were freed in this way.
-/

open DriverLib

namespace LonganPi.Wifi

variable {β : Type*}

/-! ### State -/

/-- A control block, and what is in flight for it. -/
structure CtrlSlot (β : Type*) where
  ctrl : ReordCtrl (SkBuff β)
  /-- The timer has expired, and `reord_timeout_handler` is about to run. -/
  handler : Bool
  /-- The work has been taken up, and `reord_timeout_worker` is about to run. -/
  worker : Bool

/-- `struct reord_ctrl_info`. -/
structure ReordCtrlInfo (β : Type*) where
  macAddr : BitVec 48
  preorderCtrl : Fin 8 → CtrlSlot β

/-- What is done with a buffer. -/
inductive RxAct (β : Type*)
  /-- `reord_single_frame_ind` hands it to the network stack. -/
  | netifRx (skb : SkBuff β)
  /-- It goes to `rwnx_rx_data_skb` or `rwnx_rx_data_skb_forward`. -/
  | dataSkb (skb : SkBuff β)
  /-- `rwnx_rx_monitor` hands it to the network stack. -/
  | monitorRx (skb : SkBuff β)
  | kfreeSkb (skb : SkBuff β)
  deriving DecidableEq

def RxAct.skb : RxAct β → SkBuff β
  | netifRx skb => skb
  | monitorRx skb => skb
  | dataSkb skb => skb
  | kfreeSkb skb => skb

/-- The receive thread in `reord_flush_tid`, past the lock, and what its caller does next. -/
structure Flushing (β : Type*) where
  macAddr : BitVec 48
  tid : Fin 8
  next : RxAct β

/-- `struct aicwf_rx_priv`, with the state of the bus. -/
structure RxPriv (β : Type*) where
  rwnxVif : Option Iftype
  rxframesFreequeue : List ℕ
  stasReordList : List (ReordCtrlInfo β)
  busUp : Bool
  flushing : Option (Flushing β)
  -- ghosts
  lost : List ℕ
  dangling : List (BitVec 48)

/-- `MAX_REORD_RXFRAME`. -/
def maxReordRxframe : ℕ := 250

/-- `aicwf_rx_init`: each descriptor is added at the head of the free queue. -/
def RxPriv.init : RxPriv β :=
  { rwnxVif := none
    rxframesFreequeue := (List.range maxReordRxframe).reverse
    stasReordList := []
    busUp := true
    flushing := none
    lost := []
    dangling := [] }

/-! ### Frames that leave a control block -/

/-- `reord_single_frame_ind`, and the failure path of `reord_process_unit`. -/
def singleFrameInd : Output (RecvMsdu (SkBuff β)) → RxAct β
  | .late f | .inOrder f => if f.forward then .netifRx f.pkt else .kfreeSkb f.pkt
  | .duplicate f => .kfreeSkb f.pkt

/-- Each frame that leaves gives its descriptor back, at the head of the free queue. -/
def RxPriv.giveBack (s : RxPriv β) (outs : List (Output (RecvMsdu (SkBuff β)))) : RxPriv β :=
  { s with rxframesFreequeue := (outs.map fun o => o.val.id).reverse ++ s.rxframesFreequeue }

/-! ### Control blocks of stations -/

/-- The control block of an address and a TID is found, and is replaced by what `g` makes of it. -/
def onCtrl {γ : Type*} (mac : BitVec 48) (tid : Fin 8) (g : CtrlSlot β → Option (γ × CtrlSlot β)) :
    List (ReordCtrlInfo β) → Option (γ × List (ReordCtrlInfo β))
  | [] => none
  | i :: l =>
    if i.macAddr = mac then
      (g (i.preorderCtrl tid)).map fun r =>
        (r.1, { i with preorderCtrl := Function.update i.preorderCtrl tid r.2 } :: l)
    else (onCtrl mac tid g l).map fun r => (r.1, i :: r.2)

/-- `reord_init_sta`; it fails on a bus that is down, or without memory. -/
def reordInitSta (busUp kmalloc : Bool) (mac : BitVec 48) : Option (ReordCtrlInfo β) :=
  if busUp = false ∨ kmalloc = false then none
  else some { macAddr := mac, preorderCtrl := fun _ => ⟨ReordCtrl.init, false, false⟩ }

/-- The address by which the control blocks are found. -/
def macOf (iftype : Iftype) (skb : SkBuff β) : Option (BitVec 48) :=
  match iftype with
  | .station | .p2pClient => some skb.hDest
  | .ap | .p2pGo => some skb.hSource
  | .monitor | .other => none

/-- A block that a flush has disabled starts again. -/
def ReordCtrl.reenable {α : Type*} (c : ReordCtrl α) : ReordCtrl α :=
  if c.enable = false then { c with enable := true, indSn := 0xffff, wsizeB := reorderWinsize }
  else c

/-- `reord_process_unit` on the control block of a frame. -/
def CtrlSlot.processUnit (x : CtrlSlot β) (f : RecvMsdu (SkBuff β)) :
    List (Output (RecvMsdu (SkBuff β))) × CtrlSlot β :=
  let c := x.ctrl.reenable
  if c.enable = false then
    ([.late f], { x with ctrl := { c with indSn := (f.seqNum.val + 1) % 4096 } })
  else
    let r := reordUnit c f
    (r.1, { x with ctrl := r.2 })

/-- `reord_process_unit`; `kmalloc` is whether there is memory for a new station. -/
def reordProcessUnit (s : RxPriv β) (skb : SkBuff β) (seqNum : SeqNum) (tid : Fin 8)
    (forward kmalloc : Bool) : ℤ × List (RxAct β) × RxPriv β :=
  match s.rwnxVif with
  | none => (-1, [.kfreeSkb skb], s)
  | some iftype =>
    if skb.len ≤ 14 then (-1, [.kfreeSkb skb], s)
    else
      match s.rxframesFreequeue with
      | [] => (-1, [.kfreeSkb skb], s)
      | id :: freequeue =>
        let s := { s with rxframesFreequeue := freequeue }
        let f : RecvMsdu (SkBuff β) := ⟨id, skb, seqNum, forward⟩
        let failed := (-1, [.kfreeSkb skb], { s with lost := id :: s.lost })
        match macOf iftype skb with
        | none => failed
        | some mac =>
          let known := s.stasReordList.any fun i => i.macAddr = mac
          match (if known then some [] else (reordInitSta s.busUp kmalloc mac).map ([·])) with
          | none => failed
          | some new =>
            match onCtrl mac tid (fun x => some (x.processUnit f)) (s.stasReordList ++ new) with
            | none => failed
            | some (outs, stas) =>
              (0, outs.map singleFrameInd, { s with stasReordList := stas }.giveBack outs)

/-- The list of a control block is emptied, and the block is disabled. -/
def CtrlSlot.flushList (x : CtrlSlot β) :
    Option (List (Output (RecvMsdu (SkBuff β))) × CtrlSlot β) :=
  if x.ctrl.enable = false then none
  else
    some (x.ctrl.reordList.map .inOrder,
      { x with ctrl := { x.ctrl with reordList := [], enable := false } })

/-- `reord_flush_tid` up to the unlock, and then `next` of its caller. Without a block to flush it
returns at once. -/
def reordFlushTid (s : RxPriv β) (skb : SkBuff β) (tid : Fin 8) (next : RxAct β) :
    List (RxAct β) × RxPriv β :=
  match s.rwnxVif.bind fun iftype => macOf iftype skb with
  | none => ([.kfreeSkb skb], s)
  | some mac =>
    match onCtrl mac tid CtrlSlot.flushList s.stasReordList with
    | none => ([next], s)
    | some (outs, stas) =>
      (outs.map singleFrameInd,
        { s with stasReordList := stas, flushing := some ⟨mac, tid, next⟩ }.giveBack outs)

/-- `is_multicast_ether_addr`. -/
def isMulticast (a : BitVec 48) : Bool := a.getLsbD 40

/-- The three ways of a data frame: reorder it; flush its TID, then `next`; or `plain` at once. -/
def rxBranch (s : RxPriv β) (r : DataFrame β) (forward kmalloc : Bool) (next : RxAct β)
    (plain : List (RxAct β)) : List (RxAct β) × RxPriv β :=
  if r.isQos && r.needReord then (reordProcessUnit s r.skb r.seqNum r.tid forward kmalloc).2
  else if r.isQos then reordFlushTid s r.skb r.tid next
  else (plain, s)

/-- The frame at an access point: for the stack, for a station of its own, or for both. -/
def rxApBranch (s : RxPriv β) (r : DataFrame β) (kmalloc : Bool) : List (RxAct β) × RxPriv β :=
  let multicast := isMulticast r.skb.hDest
  let resend := multicast || r.inBss
  let forward := multicast || !r.inBss
  if forward then rxBranch s r true kmalloc (.dataSkb r.skb) [.dataSkb r.skb]
  -- the buffer has been sent again, as a copy
  else if resend then rxBranch s r false kmalloc (.kfreeSkb r.skb) []
  else ([.kfreeSkb r.skb], s)

/-- A data frame on an interface. -/
def rxOnVif (s : RxPriv β) (iftype : Iftype) (r : DataFrame β) (kmalloc : Bool) :
    List (RxAct β) × RxPriv β :=
  let s := { s with rwnxVif := some iftype }
  match iftype with
  | .station | .p2pClient => rxBranch s r true kmalloc (.dataSkb r.skb) [.dataSkb r.skb]
  | .ap | .p2pGo => rxApBranch s r kmalloc
  | .monitor | .other => ([], s)

/-- A frame that the monitor interface is to get; without one that is up, nothing is done with it.
The code goes on with a null pointer when the frame is for the stack as well, as nothing has copied
it, and when there is no memory for the copy that has room for the radiotap header. -/
def rxMonitor (hw : RxTables) (r : RxFrame β) (kmalloc : Bool) : Option (List (RxAct β)) :=
  match rwnxRxGetVif hw hw.monitorVif with
  | none => some []
  | some v =>
    if r.hdr.flagsUpload then none
    else if r.rtapLen < r.headroom then
      some [if v.iftype = .monitor then .monitorRx r.skb else .kfreeSkb r.skb]
    -- the monitor interface gets a copy
    else if kmalloc then some [.kfreeSkb r.skb]
    else none

/-- A frame for the stack: `rwnx_rx_mgmt_any` frees a management frame when it has been reported,
and a data frame needs an interface. -/
def rxForward (s : RxPriv β) (hw : RxTables) (r : RxFrame β) (kmalloc : Bool) :
    List (RxAct β) × RxPriv β :=
  if r.hdr.flagsIs80211Mpdu then ([.kfreeSkb r.skb], s)
  else
    match r.vif hw with
    | none => ([.kfreeSkb r.skb], s)
    | some v => rxOnVif s v.iftype (r.onVif hw v) kmalloc

/-- `rwnx_rxdataind_aicwf`; `none` is a null pointer. -/
def rxdataind (s : RxPriv β) (hw : RxTables) (r : RxFrame β) (kmalloc : Bool) :
    Option (List (RxAct β) × RxPriv β) :=
  (if r.hdr.isMonitorVif then rxMonitor hw r kmalloc else some []).map fun acts =>
    if r.hdr.flagsUpload then
      let f := rxForward s hw r kmalloc
      (acts ++ f.1, f.2)
    else (acts, s)

/-! ### The timer and the worker -/

/-- The timer expires. -/
def CtrlSlot.expire (x : CtrlSlot β) : Option (Unit × CtrlSlot β) :=
  if x.ctrl.reordTimer = true ∧ x.handler = false then
    some ((), { x with ctrl := { x.ctrl with reordTimer := false }, handler := true })
  else none

/-- `reord_timeout_handler`: it schedules the work, unless the bus is down. -/
def CtrlSlot.timeoutHandler (busUp : Bool) (x : CtrlSlot β) : Option (Unit × CtrlSlot β) :=
  if x.handler = true then
    let work := busUp || x.ctrl.reordTimerWork
    some ((), { x with ctrl := { x.ctrl with reordTimerWork := work }, handler := false })
  else none

/-- The work queue takes the work up. -/
def CtrlSlot.startWork (x : CtrlSlot β) : Option (Unit × CtrlSlot β) :=
  if x.ctrl.reordTimerWork = true ∧ x.worker = false then
    some ((), { x with ctrl := { x.ctrl with reordTimerWork := false }, worker := true })
  else none

/-- `reord_timeout_worker`. -/
def CtrlSlot.timeoutWorker (x : CtrlSlot β) :
    Option (List (Output (RecvMsdu (SkBuff β))) × CtrlSlot β) :=
  if x.worker = true then
    let r := reordTimeoutWorker x.ctrl
    some (r.1, { x with ctrl := r.2, worker := false })
  else none

/-- Something is under way that ends in `reord_timeout_worker`. -/
def CtrlSlot.Watched (x : CtrlSlot β) : Prop :=
  x.ctrl.reordTimer = true ∨ x.handler = true ∨ x.ctrl.reordTimerWork = true ∨ x.worker = true

instance (x : CtrlSlot β) : Decidable x.Watched := inferInstanceAs (Decidable (_ ∨ _))

/-- `del_timer_sync`, if the timer is pending, waits for the handler, and `cancel_work_sync` waits
for the worker; neither has to. -/
def CtrlSlot.Stoppable (x : CtrlSlot β) : Prop :=
  (x.ctrl.reordTimer = true → x.handler = false) ∧ x.worker = false

instance (x : CtrlSlot β) : Decidable x.Stoppable := inferInstanceAs (Decidable (_ ∧ _))

/-- The timer and the work are stopped. -/
def CtrlSlot.stop (x : CtrlSlot β) : CtrlSlot β :=
  { x with ctrl := { x.ctrl with reordTimer := false, reordTimerWork := false } }

/-- The end of `reord_flush_tid`. -/
def CtrlSlot.flushDone (x : CtrlSlot β) : Option (Unit × CtrlSlot β) :=
  if x.Stoppable then some ((), x.stop) else none

/-! ### The removal of a station -/

/-- `reord_deinit_sta` on one block: the timer and the work of a block that is enabled are
stopped. -/
def CtrlSlot.deinit (x : CtrlSlot β) : CtrlSlot β :=
  if x.ctrl.enable = true then { x.stop with ctrl := { x.stop.ctrl with enable := false } } else x

/-- All frames that a station's blocks hold, one TID after the other. -/
def ReordCtrlInfo.frames (i : ReordCtrlInfo β) : List (RecvMsdu (SkBuff β)) :=
  (List.finRange 8).flatMap fun t => (i.preorderCtrl t).ctrl.reordList

/-- The station of an address is taken out of the list. -/
def takeSta (mac : BitVec 48) :
    List (ReordCtrlInfo β) → Option (ReordCtrlInfo β × List (ReordCtrlInfo β))
  | [] => none
  | i :: l =>
    if i.macAddr = mac then some (i, l)
    else (takeSta mac l).map fun r => (r.1, i :: r.2)

/-- A block of the station is still in use: something is under way for it, or a flush has not
ended. -/
def RxPriv.InUse (s : RxPriv β) (i : ReordCtrlInfo β) : Prop :=
  (∃ t, (i.preorderCtrl t).deinit.Watched) ∨ s.flushing.any (·.macAddr = i.macAddr) = true

instance (s : RxPriv β) (i : ReordCtrlInfo β) : Decidable (s.InUse i) :=
  inferInstanceAs (Decidable (_ ∨ _))

/-- `reord_deinit_sta`, when it has not to wait: the frames of the station are freed, and then the
station. -/
def reordDeinitSta (s : RxPriv β) (mac : BitVec 48) : Option (List (RxAct β) × RxPriv β) :=
  (takeSta mac s.stasReordList).bind fun r =>
    if ∀ t, (r.1.preorderCtrl t).ctrl.enable = true → (r.1.preorderCtrl t).Stoppable then
      some (r.1.frames.map fun f => .kfreeSkb f.pkt,
        { s with
          stasReordList := r.2
          dangling := if s.InUse r.1 then mac :: s.dangling else s.dangling }.giveBack
            (r.1.frames.map .inOrder))
    else none

/-! ### The machine -/

/-- What happens in the receive path. -/
inductive RxOp (β : Type*)
  | data (hw : RxTables) (r : RxFrame β) (kmalloc : Bool)
  | flushDone
  | deinitSta (mac : BitVec 48)
  | busChange (up : Bool)
  | expire (mac : BitVec 48) (tid : Fin 8)
  | timeoutHandler (mac : BitVec 48) (tid : Fin 8)
  | startWork (mac : BitVec 48) (tid : Fin 8)
  | timeoutWorker (mac : BitVec 48) (tid : Fin 8)

/-- A step that changes what is pending for a control block. -/
def RxPriv.signal (s : RxPriv β) (mac : BitVec 48) (tid : Fin 8)
    (g : CtrlSlot β → Option (Unit × CtrlSlot β)) : Option (List (RxAct β) × RxPriv β) :=
  (onCtrl mac tid g s.stasReordList).map fun r => ([], { s with stasReordList := r.2 })

/-- The receive thread, the timers, the work queue and the removal of stations. -/
def rxMachine (β : Type*) : Machine (RxPriv β) (RxOp β) (List (RxAct β)) where
  step
    | s, .data hw r kmalloc => if s.flushing.isSome then none else rxdataind s hw r kmalloc
    | s, .flushDone =>
      s.flushing.bind fun p =>
        (onCtrl p.macAddr p.tid CtrlSlot.flushDone s.stasReordList).map fun r =>
          ([p.next], { s with stasReordList := r.2, flushing := none })
    | s, .deinitSta mac => reordDeinitSta s mac
    | s, .busChange up => some ([], { s with busUp := up })
    | s, .expire mac tid => s.signal mac tid CtrlSlot.expire
    | s, .timeoutHandler mac tid => s.signal mac tid (CtrlSlot.timeoutHandler s.busUp)
    | s, .startWork mac tid => s.signal mac tid CtrlSlot.startWork
    | s, .timeoutWorker mac tid =>
      (onCtrl mac tid CtrlSlot.timeoutWorker s.stasReordList).map fun r =>
        (r.1.map singleFrameInd, { s with stasReordList := r.2 }.giveBack r.1)

end LonganPi.Wifi
