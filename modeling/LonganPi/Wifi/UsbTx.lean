import LonganPi.Lib.Trace

/-!
# The transmit path of the USB bus

Frames go to the USB core in buffers, of which there are `AICWF_USB_TX_URBS`. A buffer is free, it
is in the hands of `aicwf_usb_bus_txdata`, it is posted for the thread `usb_bustx_thread`, which
submits it, or it has been submitted and its completion gives it back.

The callers of `aicwf_usb_bus_txdata` hold `tx_lock`, so there is one of them at a time. The thread,
the completions and the callers interleave; what runs under one of the locks of the bus, or reads
one variable without it, is one step. Memory is traced by what is done with it: a frame that is
given to the bus, a copy of it for a frame that is to be confirmed, and the aligned copy.

Frames come through `aicwf_frame_tx`, which does not call the bus while it is down. It then stops
the network queues if they run, and leaves `tbusy` as it is.
-/

open DriverLib

namespace LonganPi.Wifi

/-- `AICWF_USB_TX_URBS`. -/
def aicwfUsbTxUrbs : ℕ := 200

/-- `AICWF_USB_TX_LOW_WATER`. -/
def aicwfUsbTxLowWater : ℕ := aicwfUsbTxUrbs / 4

/-- `AICWF_USB_TX_HIGH_WATER`. -/
def aicwfUsbTxHighWater : ℕ := aicwfUsbTxLowWater * 3

variable {β : Type*}

/-! ### State -/

/-- `struct aicwf_usb_buf` with a frame: its index in `usb_tx_buf`, the frame and whether it is to
be confirmed. -/
structure UsbBuf (β : Type*) where
  id : ℕ
  frame : β
  cfm : Bool
  deriving DecidableEq

/-- A piece of memory: a frame, the copy of a frame that is to be confirmed, and the aligned copy
that the device reads. -/
inductive UsbMem (β : Type*)
  | skb (frame : β)
  | buf (frame : β)
  | usbAlignData (frame : β)
  deriving DecidableEq

/-- `usb_buf->skb`. -/
def UsbBuf.skb (u : UsbBuf β) : UsbMem β := if u.cfm then .buf u.frame else .skb u.frame

/-- The memory that comes with a buffer. -/
def UsbBuf.mem (u : UsbBuf β) : List (UsbMem β) := [u.skb, .usbAlignData u.frame]

inductive UsbSt
  | down
  | up
  | sleep
  deriving DecidableEq

/-- Where `aicwf_usb_bus_txdata` is. -/
inductive TxData (β : Type*)
  | idle
  /-- It has taken a buffer, and filled it. -/
  | filled (u : UsbBuf β)
  /-- The buffer is posted. -/
  | posted
  /-- At `flow_ctrl`. -/
  | flowCtrl
  deriving DecidableEq

/-- Where `usb_bustx_thread` is. -/
inductive BusTx (β : Type*)
  | waiting
  /-- Before the test of `tx_post_count`. -/
  | testing
  /-- At the head of the loop of `aicwf_usb_tx_process`. -/
  | looping
  /-- Before the test of the state. -/
  | stateTest
  | fetching
  | submitting (u : UsbBuf β)
  /-- At `fail`. -/
  | failed (u : UsbBuf β)
  | stopped
  deriving DecidableEq

/-- Where `aicwf_usb_tx_prepare` is. -/
inductive TxPrepare
  | idle
  | looping
  | fetching
  | freed (id : ℕ)
  deriving DecidableEq

/-- `struct aic_usb_dev`, with `bustx_trgg` and the state of the bus. -/
structure UsbDev (β : Type*) where
  state : UsbSt
  busUp : Bool
  txFreeList : List ℕ
  txFreeCount : ℕ
  txPostList : List (UsbBuf β)
  txPostCount : ℕ
  tbusy : Bool
  bustxTrgg : ℕ
  txData : TxData β
  busTx : BusTx β
  txPrepare : TxPrepare
  /-- Submitted to the USB core. -/
  inFlight : List (UsbBuf β)
  /-- Completions that have freed the frame. -/
  completed : List ℕ
  /-- Completions that are about to test `tx_free_count`. -/
  checking : ℕ

/-- After `aicwf_usb_alloc_tx_urb`, with the bus up. -/
def UsbDev.init : UsbDev β :=
  { state := .up
    busUp := true
    txFreeList := List.range aicwfUsbTxUrbs
    txFreeCount := aicwfUsbTxUrbs
    txPostList := []
    txPostCount := 0
    tbusy := false
    bustxTrgg := 0
    txData := .idle
    busTx := .waiting
    txPrepare := .idle
    inFlight := []
    completed := []
    checking := 0 }

inductive UsbAct (β : Type*)
  /-- The bus has a piece of memory: it was passed to it, or it allocated it. -/
  | own (m : UsbMem β)
  | devKfreeSkb (m : UsbMem β)
  | kfree (m : UsbMem β)
  | submitUrb (u : UsbBuf β)
  /-- `aicwf_usb_tx_flowctrl`. -/
  | flowctrl (state : Bool)
  deriving DecidableEq

/-! ### The caller -/

/-- `aicwf_usb_bus_txdata` up to where the buffer is filled. -/
def usbBusTxdata (s : UsbDev β) (frame : β) (cfm : Bool) : List (UsbAct β) × UsbDev β :=
  if s.state ≠ .up then ([.own (.skb frame), .devKfreeSkb (.skb frame)], s)
  else
    match s.txFreeList with
    | [] => ([.own (.skb frame), .devKfreeSkb (.skb frame)], { s with txData := .flowCtrl })
    | id :: rest =>
      let u : UsbBuf β := ⟨id, frame, cfm⟩
      (u.mem.map .own,
        { s with txFreeList := rest, txFreeCount := s.txFreeCount - 1, txData := .filled u })

/-- `aicwf_frame_tx`; with the bus up it goes on as `usbBusTxdata`. -/
def aicwfFrameTx (s : UsbDev β) (frame : β) (cfm : Bool) : List (UsbAct β) × UsbDev β :=
  if s.state = .down then
    ((if s.tbusy then [] else [.flowctrl true]) ++ [.own (.skb frame), .devKfreeSkb (.skb frame)],
      s)
  else usbBusTxdata s frame cfm

/-- The next step of `aicwf_usb_bus_txdata`. -/
def usbTxdataStep (s : UsbDev β) : Option (List (UsbAct β) × UsbDev β) :=
  match s.txData with
  | .idle => none
  | .filled u =>
    some ([], { s with
      txPostList := s.txPostList ++ [u], txPostCount := s.txPostCount + 1, txData := .posted })
  | .posted => some ([], { s with bustxTrgg := s.bustxTrgg + 1, txData := .flowCtrl })
  | .flowCtrl =>
    if s.txFreeCount < aicwfUsbTxLowWater then
      some ([.flowctrl true], { s with tbusy := true, txData := .idle })
    else some ([], { s with txData := .idle })

/-! ### The thread -/

/-- A buffer goes back to the free list. -/
def usbTxQueueFree (s : UsbDev β) (id : ℕ) : UsbDev β :=
  { s with txFreeList := s.txFreeList ++ [id], txFreeCount := s.txFreeCount + 1 }

/-- The next step of `usb_bustx_thread`; `submitted` is what `usb_submit_urb` says. -/
def usbBustxStep (s : UsbDev β) (submitted : Bool) : Option (List (UsbAct β) × UsbDev β) :=
  match s.busTx with
  | .waiting =>
    if s.bustxTrgg = 0 then none
    else
      some ([], { s with
        bustxTrgg := s.bustxTrgg - 1, busTx := if s.busUp then .testing else .stopped })
  | .testing => some ([], { s with busTx := if 0 < s.txPostCount then .looping else .waiting })
  | .looping =>
    some ([], { s with busTx := if s.txPostList.isEmpty then .waiting else .stateTest })
  | .stateTest => some ([], { s with busTx := if s.state ≠ .up then .waiting else .fetching })
  | .fetching =>
    match s.txPostList with
    | [] => some ([], { s with busTx := .waiting })
    | u :: rest =>
      some ([], { s with
        txPostList := rest, txPostCount := s.txPostCount - 1, busTx := .submitting u })
  | .submitting u =>
    if submitted then
      some ([.submitUrb u], { s with inFlight := s.inFlight ++ [u], busTx := .looping })
    else some ([.devKfreeSkb u.skb], { s with busTx := .failed u })
  | .failed u => some ([], { usbTxQueueFree s u.id with busTx := .looping })
  | .stopped => none

/-! ### The completions -/

/-- `aicwf_usb_tx_complete` of the `n`-th buffer in flight, up to where the frame is freed. -/
def usbTxComplete (s : UsbDev β) (n : ℕ) : Option (List (UsbAct β) × UsbDev β) :=
  s.inFlight[n]?.map fun u =>
    ([.kfree (.usbAlignData u.frame), if u.cfm then .kfree u.skb else .devKfreeSkb u.skb],
      { s with inFlight := s.inFlight.eraseIdx n, completed := s.completed ++ [u.id] })

/-- The `n`-th of these completions gives the buffer back. -/
def usbTxGiveBack (s : UsbDev β) (n : ℕ) : Option (List (UsbAct β) × UsbDev β) :=
  s.completed[n]?.map fun id =>
    ([], { usbTxQueueFree s id with
      completed := s.completed.eraseIdx n, checking := s.checking + 1 })

/-- The end of a completion. -/
def usbTxCheck (s : UsbDev β) : Option (List (UsbAct β) × UsbDev β) :=
  if s.checking = 0 then none
  else if aicwfUsbTxHighWater < s.txFreeCount ∧ s.tbusy then
    some ([.flowctrl false], { s with checking := s.checking - 1, tbusy := false })
  else some ([], { s with checking := s.checking - 1 })

/-! ### Suspend and resume -/

/-- `aicwf_usb_state_change`. -/
def usbStateChange (s : UsbDev β) (state : UsbSt) : UsbDev β :=
  if s.state = state then s
  else
    { s with
      state := state
      busUp := match state with
        | .down => false
        | .up => true
        | .sleep => s.busUp }

/-- `aicwf_usb_bus_start` up to `aicwf_usb_tx_prepare`. -/
def usbBusStart (s : UsbDev β) : UsbDev β :=
  if s.state = .up then s else { usbStateChange s .up with txPrepare := .looping }

/-- The next step of `aicwf_usb_tx_prepare`. -/
def usbTxPrepareStep (s : UsbDev β) : Option (List (UsbAct β) × UsbDev β) :=
  match s.txPrepare with
  | .idle => none
  | .looping =>
    some ([], { s with txPrepare := if s.txPostList.isEmpty then .idle else .fetching })
  | .fetching =>
    match s.txPostList with
    -- the thread was faster, and the code goes through a null pointer
    | [] => none
    | u :: rest =>
      some ([.devKfreeSkb u.skb], { s with
        txPostList := rest, txPostCount := s.txPostCount - 1, txPrepare := .freed u.id })
  | .freed id => some ([], { usbTxQueueFree s id with txPrepare := .looping })

/-! ### Runs -/

inductive UsbOp (β : Type*)
  /-- `aicwf_frame_tx` is called. -/
  | frameTx (frame : β) (cfm : Bool)
  | txdataStep
  | bustx (submitted : Bool)
  | complete (n : ℕ)
  | giveBack (n : ℕ)
  | check
  /-- `aicwf_usb_suspend` up to `aicwf_bus_stop`. -/
  | suspend
  /-- `aicwf_usb_bus_stop`. -/
  | busStop
  | busStart
  | prepareStep

def usbTxMachine (β : Type*) : Machine (UsbDev β) (UsbOp β) (List (UsbAct β)) where
  step s
    | .frameTx frame cfm =>
      match s.txData with
      | .idle => some (aicwfFrameTx s frame cfm)
      | _ => none
    | .txdataStep => usbTxdataStep s
    | .bustx submitted => usbBustxStep s submitted
    | .complete n => usbTxComplete s n
    | .giveBack n => usbTxGiveBack s n
    | .check => usbTxCheck s
    | .suspend => some ([], usbStateChange s .sleep)
    | .busStop => some ([], usbStateChange s .down)
    | .busStart =>
      match s.txPrepare with
      | .idle => some ([], usbBusStart s)
      | _ => none
    | .prepareStep => usbTxPrepareStep s

end LonganPi.Wifi
