import LonganPi.Lib.Accounts
import LonganPi.Wifi.UsbTx

/-!
# The buffers of the USB bus and its flow control

Each buffer is in one place in every interleaving, and the counters are the lengths of the lists
(`usb_tx_accounted`). The value of a state is the sum over its buffers, for one value of a buffer
that carries a frame and one of a buffer that does not. A step fills some buffers and empties some
(`value_step`); nothing else changes the value.

`tbusy` stops the network queues when few buffers are free, and a completion starts them again when
many are. Between the two tests the other side may run, so the invariant counts who is still to make
its test (`FlowOk`). A buffer that comes back without a completion is not followed by a test: after
a failed submission that is harmless only as long as the queues run or few buffers are free. And
`aicwf_frame_tx` stops the queues of a bus that is down without setting `tbusy`, so that nothing
starts them again (`stopped_for_good`).
-/

open DriverLib

namespace LonganPi.Wifi

variable {β M : Type*} [AddCommMonoid M] {s t : UsbDev β} {op : UsbOp β} {o : List (UsbAct β)}

/-! ### The value of the buffers -/

/-- The value of the buffer that the caller has. -/
def TxData.value (loaded : UsbBuf β → M) : TxData β → M
  | .filled u => loaded u
  | _ => 0

/-- The value of the buffer that the thread has. After a failure its frame is gone. -/
def BusTx.value (empty : ℕ → M) (loaded : UsbBuf β → M) : BusTx β → M
  | .submitting u => loaded u
  | .failed u => empty u.id
  | _ => 0

/-- The value of the buffer that `aicwf_usb_tx_prepare` has emptied. -/
def TxPrepare.value (empty : ℕ → M) : TxPrepare → M
  | .freed id => empty id
  | _ => 0

/-- The value of all buffers. -/
def UsbDev.value (empty : ℕ → M) (loaded : UsbBuf β → M) (s : UsbDev β) : M :=
  (s.txFreeList.map empty).sum + s.txData.value loaded + (s.txPostList.map loaded).sum +
    s.busTx.value empty loaded + s.txPrepare.value empty + (s.inFlight.map loaded).sum +
    (s.completed.map empty).sum

/-- The buffers that a step fills. -/
def UsbOp.fills (s : UsbDev β) : UsbOp β → List (UsbBuf β)
  | .frameTx frame cfm =>
    if s.state ≠ .up then [] else (s.txFreeList.take 1).map fun id => ⟨id, frame, cfm⟩
  | _ => []

/-- The buffers whose frames a step frees. -/
def UsbOp.empties (s : UsbDev β) : UsbOp β → List (UsbBuf β)
  | .bustx false =>
    match s.busTx with
    | .submitting u => [u]
    | _ => []
  | .complete n => s.inFlight[n]?.toList
  | .prepareStep =>
    match s.txPrepare with
    | .fetching => s.txPostList.take 1
    | _ => []
  | _ => []

section Value

variable (empty : ℕ → M) (loaded : UsbBuf β → M)

/-- A buffer that comes last adds its value. -/
theorem sum_concat {γ : Type*} (v : γ → M) (l : List γ) (x : γ) :
    ((l ++ [x]).map v).sum = (l.map v).sum + v x := by
  rw [List.map_append, List.sum_append, List.map_singleton, List.sum_singleton]

/-- The caller fills the first free buffer, if the bus is up and there is one. -/
theorem value_busTxdata {frame : β} {cfm : Bool} (hidle : s.txData = .idle)
    (h : usbBusTxdata s frame cfm = (o, t)) :
    t.value empty loaded + (((UsbOp.frameTx frame cfm).fills s).map fun u => empty u.id).sum =
      s.value empty loaded + (((UsbOp.frameTx frame cfm).fills s).map loaded).sum := by
  rw [usbBusTxdata] at h
  rw [UsbOp.fills]
  split at h
  · -- the bus is not up, and the frame is dropped
    next hst =>
    cases h
    rw [if_pos hst]
    rfl
  · next hst =>
    rw [if_neg hst]
    split at h
    · -- no buffer is free
      next hnil =>
      cases h
      simp only [UsbDev.value, hnil, hidle, TxData.value, List.take_nil, List.map_nil, List.sum_nil]
    · -- the first free buffer now carries the frame
      next id rest hcons =>
      cases h
      simp only [UsbDev.value, hcons, hidle, TxData.value, List.take_succ_cons, List.take_zero,
        List.map_cons, List.map_nil, List.sum_cons, List.sum_nil]
      abel

/-- With the bus down no buffer is filled. -/
theorem value_frameTx {frame : β} {cfm : Bool} (hidle : s.txData = .idle)
    (h : aicwfFrameTx s frame cfm = (o, t)) :
    t.value empty loaded + (((UsbOp.frameTx frame cfm).fills s).map fun u => empty u.id).sum =
      s.value empty loaded + (((UsbOp.frameTx frame cfm).fills s).map loaded).sum := by
  rw [aicwfFrameTx] at h
  split at h
  · next hdown =>
    have hst : s.state ≠ .up := fun hup => UsbSt.noConfusion (hdown.symm.trans hup)
    cases h
    rw [UsbOp.fills, if_pos hst]
    rfl
  · exact value_busTxdata empty loaded hidle h

/-- The other steps of the caller move its buffer. -/
theorem value_txdataStep (h : usbTxdataStep s = some (o, t)) :
    t.value empty loaded = s.value empty loaded := by
  rw [usbTxdataStep] at h
  split at h
  · cases h
  · next u hu =>
    cases h
    simp only [UsbDev.value, hu, TxData.value, sum_concat]
    abel
  · next hu =>
    cases h
    simp only [UsbDev.value, hu, TxData.value]
  · next hu =>
    split at h <;> cases h <;> simp only [UsbDev.value, hu, TxData.value]

/-- The thread moves buffers, and empties one when the submission fails. -/
theorem value_bustx {submitted : Bool} (h : usbBustxStep s submitted = some (o, t)) :
    t.value empty loaded + (((UsbOp.bustx submitted).empties s).map loaded).sum =
      s.value empty loaded + (((UsbOp.bustx submitted).empties s).map fun u => empty u.id).sum := by
  -- a step that does not submit empties no buffer
  have hquiet : ∀ {b}, s.busTx = b → (∀ u, b ≠ .submitting u) →
      t.value empty loaded = s.value empty loaded →
      t.value empty loaded + (((UsbOp.bustx submitted).empties s).map loaded).sum =
        s.value empty loaded +
          (((UsbOp.bustx submitted).empties s).map fun u => empty u.id).sum := by
    intro b hb hne hv
    have hnil : (UsbOp.bustx submitted).empties s = [] := by
      cases submitted with
      | true => rfl
      | false =>
        rw [UsbOp.empties]
        split
        · next u hu => exact absurd (hb.symm.trans hu) (hne u)
        · rfl
    rw [hnil, List.map_nil, List.map_nil, hv]
  rw [usbBustxStep] at h
  split at h
  · next hb =>
    split at h
    · cases h
    · cases h
      refine hquiet hb (fun _ => nofun) ?_
      simp only [UsbDev.value, hb]
      split <;> rfl
  · next hb =>
    cases h
    refine hquiet hb (fun _ => nofun) ?_
    simp only [UsbDev.value, hb]
    split <;> rfl
  · next hb =>
    cases h
    refine hquiet hb (fun _ => nofun) ?_
    simp only [UsbDev.value, hb]
    split <;> rfl
  · next hb =>
    cases h
    refine hquiet hb (fun _ => nofun) ?_
    simp only [UsbDev.value, hb]
    split <;> rfl
  · next hb =>
    split at h
    · cases h
      refine hquiet hb (fun _ => nofun) ?_
      simp only [UsbDev.value, hb, BusTx.value]
    · -- the first posted buffer is with the thread now
      next u rest hpost =>
      cases h
      refine hquiet hb (fun _ => nofun) ?_
      simp only [UsbDev.value, hb, hpost, BusTx.value, List.map_cons, List.sum_cons]
      abel
  · next u hb =>
    cases submitted with
    | true =>
      -- it is in flight
      cases h
      simp only [UsbDev.value, hb, BusTx.value, UsbOp.empties, sum_concat, List.map_nil,
        List.sum_nil]
      abel
    | false =>
      -- its frame is freed
      cases h
      simp only [UsbDev.value, hb, BusTx.value, UsbOp.empties, List.map_cons, List.map_nil,
        List.sum_cons, List.sum_nil]
      abel
  · next u hb =>
    cases h
    refine hquiet hb (fun _ => nofun) ?_
    simp only [UsbDev.value, usbTxQueueFree, hb, BusTx.value, sum_concat]
    abel
  · cases h

/-- A completion empties its buffer. -/
theorem value_complete {n : ℕ} (h : usbTxComplete s n = some (o, t)) :
    t.value empty loaded + (((UsbOp.complete n : UsbOp β).empties s).map loaded).sum =
      s.value empty loaded +
        (((UsbOp.complete n : UsbOp β).empties s).map fun u => empty u.id).sum := by
  obtain ⟨u, hu, heq⟩ := Option.map_eq_some_iff.mp h
  cases heq
  have hsum := sum_eraseIdx_add loaded hu
  simp only [UsbOp.empties, hu, Option.toList_some, List.map_singleton, List.sum_singleton,
    UsbDev.value, sum_concat, ← hsum]
  abel

/-- It then gives the buffer back. -/
theorem value_giveBack {n : ℕ} (h : usbTxGiveBack s n = some (o, t)) :
    t.value empty loaded = s.value empty loaded := by
  obtain ⟨id, hid, heq⟩ := Option.map_eq_some_iff.mp h
  cases heq
  have hsum := sum_eraseIdx_add empty hid
  simp only [UsbDev.value, usbTxQueueFree, sum_concat, ← hsum]
  abel

/-- `aicwf_usb_tx_prepare` empties a posted buffer, and gives it back. -/
theorem value_prepare (h : usbTxPrepareStep s = some (o, t)) :
    t.value empty loaded + (((UsbOp.prepareStep : UsbOp β).empties s).map loaded).sum =
      s.value empty loaded +
        (((UsbOp.prepareStep : UsbOp β).empties s).map fun u => empty u.id).sum := by
  rw [usbTxPrepareStep] at h
  split at h
  · cases h
  · next hp =>
    cases h
    simp only [UsbOp.empties, hp, UsbDev.value, List.map_nil, List.sum_nil, add_zero]
    split <;> rfl
  · next hp =>
    split at h
    · cases h
    · -- the frame is freed
      next u rest hpost =>
      cases h
      simp only [UsbOp.empties, hp, hpost, UsbDev.value, TxPrepare.value, List.take_succ_cons,
        List.take_zero, List.map_cons, List.map_nil, List.sum_cons, List.sum_nil]
      abel
  · next id hp =>
    cases h
    simp only [UsbOp.empties, hp, UsbDev.value, usbTxQueueFree, TxPrepare.value, sum_concat,
      List.map_nil, List.sum_nil]
    abel

/-- A step fills some buffers and empties some. -/
theorem value_step (h : (usbTxMachine β).step s op = some (o, t)) :
    t.value empty loaded + ((op.empties s).map loaded).sum +
        ((op.fills s).map fun u => empty u.id).sum =
      s.value empty loaded + ((op.empties s).map fun u => empty u.id).sum +
        ((op.fills s).map loaded).sum := by
  -- a step that neither fills nor empties
  have hkeep : op.fills s = [] → op.empties s = [] →
      t.value empty loaded = s.value empty loaded → t.value empty loaded +
        ((op.empties s).map loaded).sum + ((op.fills s).map fun u => empty u.id).sum =
      s.value empty loaded + ((op.empties s).map fun u => empty u.id).sum +
        ((op.fills s).map loaded).sum := by
    intro hf he hv
    rw [hf, he, hv]
    rfl
  -- a step that fills nothing
  have hempty : op.fills s = [] → t.value empty loaded + ((op.empties s).map loaded).sum =
      s.value empty loaded + ((op.empties s).map fun u => empty u.id).sum →
      t.value empty loaded +
        ((op.empties s).map loaded).sum + ((op.fills s).map fun u => empty u.id).sum =
      s.value empty loaded + ((op.empties s).map fun u => empty u.id).sum +
        ((op.fills s).map loaded).sum := by
    intro hf hv
    rw [hf, hv]
    rfl
  cases op with
  | frameTx frame cfm =>
    simp only [usbTxMachine] at h
    split at h
    · next hidle =>
      have := value_frameTx empty loaded hidle (Option.some.inj h)
      simpa only [UsbOp.empties, List.map_nil, List.sum_nil, add_zero] using this
    · cases h
  | txdataStep => exact hkeep rfl rfl (value_txdataStep empty loaded h)
  | bustx submitted => exact hempty rfl (value_bustx empty loaded h)
  | complete n => exact hempty rfl (value_complete empty loaded h)
  | giveBack n => exact hkeep rfl rfl (value_giveBack empty loaded h)
  | check =>
    refine hkeep rfl rfl ?_
    simp only [usbTxMachine, usbTxCheck] at h
    split at h
    · cases h
    · split at h <;> cases h <;> rfl
  | suspend | busStop =>
    cases h
    refine hkeep rfl rfl ?_
    rw [usbStateChange]
    split <;> rfl
  | busStart =>
    refine hkeep rfl rfl ?_
    simp only [usbTxMachine] at h
    split at h
    · next hidle =>
      cases h
      rw [usbBusStart]
      split
      · rfl
      · rw [usbStateChange]
        split <;> simp only [UsbDev.value, hidle, TxPrepare.value]
    · cases h
  | prepareStep => exact hempty rfl (value_prepare empty loaded h)

end Value

/-! ### Every buffer is in one place -/

/-- The buffers of all places are those of `usb_tx_buf`, and the counters are right. -/
structure Counted (s : UsbDev β) : Prop where
  buffers : s.value (fun id => {id}) (fun u => {u.id}) = Multiset.range aicwfUsbTxUrbs
  free : s.txFreeCount = s.txFreeList.length
  post : s.txPostCount = s.txPostList.length

/-- All buffers are free at the start. -/
theorem counted_init : Counted (UsbDev.init : UsbDev β) where
  buffers := by
    have hrange : ∀ n, ((List.range n).map fun id => ({id} : Multiset ℕ)).sum =
        Multiset.range n := fun n => Multiset.sum_map_singleton (Multiset.range n)
    simp only [UsbDev.value, UsbDev.init, hrange, TxData.value, BusTx.value, TxPrepare.value,
      List.map_nil, List.sum_nil, add_zero]
  free := List.length_range.symm
  post := rfl

/-- A change of the state is seen in `state` and `busUp` only. -/
theorem usbStateChange_eq (s : UsbDev β) (state : UsbSt) :
    ∃ b, usbStateChange s state = { s with state := state, busUp := b } := by
  unfold usbStateChange
  split
  · next heq => exact ⟨s.busUp, by rw [← heq]⟩
  · exact ⟨_, rfl⟩

/-- The counters follow the lists. -/
theorem counts_step (hfree : s.txFreeCount = s.txFreeList.length)
    (hpost : s.txPostCount = s.txPostList.length) (h : (usbTxMachine β).step s op = some (o, t)) :
    t.txFreeCount = t.txFreeList.length ∧ t.txPostCount = t.txPostList.length := by
  -- a buffer that comes back is counted
  have hback : ∀ id, (usbTxQueueFree s id).txFreeCount = (usbTxQueueFree s id).txFreeList.length :=
    fun id => by rw [usbTxQueueFree, List.length_append, List.length_singleton, hfree]
  cases op with
  | frameTx frame cfm =>
    simp only [usbTxMachine] at h
    split at h
    swap
    · cases h
    rw [aicwfFrameTx] at h
    split at h
    · cases h
      exact ⟨hfree, hpost⟩
    rw [usbBusTxdata] at h
    split at h
    · cases h
      exact ⟨hfree, hpost⟩
    split at h
    · cases h
      exact ⟨hfree, hpost⟩
    · next id rest hcons =>
      cases h
      refine ⟨?_, hpost⟩
      change s.txFreeCount - 1 = rest.length
      rw [hfree, hcons, List.length_cons, Nat.add_sub_cancel]
  | txdataStep =>
    simp only [usbTxMachine, usbTxdataStep] at h
    split at h
    · cases h
    · cases h
      exact ⟨hfree, by rw [List.length_append, List.length_singleton, hpost]⟩
    · cases h
      exact ⟨hfree, hpost⟩
    · split at h <;> cases h <;> exact ⟨hfree, hpost⟩
  | bustx submitted =>
    simp only [usbTxMachine, usbBustxStep] at h
    split at h
    · split at h <;> cases h
      exact ⟨hfree, hpost⟩
    · cases h
      exact ⟨hfree, hpost⟩
    · cases h
      exact ⟨hfree, hpost⟩
    · cases h
      exact ⟨hfree, hpost⟩
    · split at h
      · cases h
        exact ⟨hfree, hpost⟩
      · next u rest hcons =>
        cases h
        refine ⟨hfree, ?_⟩
        change s.txPostCount - 1 = rest.length
        rw [hpost, hcons, List.length_cons, Nat.add_sub_cancel]
    · split at h <;> cases h <;> exact ⟨hfree, hpost⟩
    · next u hu =>
      cases h
      exact ⟨hback u.id, hpost⟩
    · cases h
  | complete n =>
    obtain ⟨u, hu, heq⟩ := Option.map_eq_some_iff.mp h
    cases heq
    exact ⟨hfree, hpost⟩
  | giveBack n =>
    obtain ⟨id, hid, heq⟩ := Option.map_eq_some_iff.mp h
    cases heq
    exact ⟨hback id, hpost⟩
  | check =>
    simp only [usbTxMachine, usbTxCheck] at h
    split at h
    · cases h
    · split at h <;> cases h <;> exact ⟨hfree, hpost⟩
  | suspend | busStop =>
    cases h
    obtain ⟨b, heq⟩ := usbStateChange_eq s _
    rw [heq]
    exact ⟨hfree, hpost⟩
  | busStart =>
    simp only [usbTxMachine] at h
    split at h
    · cases h
      obtain ⟨b, heq⟩ := usbStateChange_eq s .up
      rw [usbBusStart, heq]
      split <;> exact ⟨hfree, hpost⟩
    · cases h
  | prepareStep =>
    simp only [usbTxMachine, usbTxPrepareStep] at h
    split at h
    · cases h
    · cases h
      exact ⟨hfree, hpost⟩
    · split at h
      · cases h
      · next u rest hcons =>
        cases h
        refine ⟨hfree, ?_⟩
        change s.txPostCount - 1 = rest.length
        rw [hpost, hcons, List.length_cons, Nat.add_sub_cancel]
    · next id hp =>
      cases h
      exact ⟨hback id, hpost⟩

theorem Counted.step (hs : Counted s) (h : (usbTxMachine β).step s op = some (o, t)) :
    Counted t := by
  -- a buffer counts for its number, whether it carries a frame or not
  have hvalue := value_step (fun id => ({id} : Multiset ℕ)) (fun u : UsbBuf β => {u.id}) h
  obtain ⟨hfree, hpost⟩ := counts_step hs.free hs.post h
  exact ⟨(add_right_cancel (add_right_cancel hvalue)).trans hs.buffers, hfree, hpost⟩

/-- So it is in every state of every run. -/
theorem Counted.run {ops : List (UsbOp β)} {acts : List (UsbAct β)}
    (h : (usbTxMachine β).trace UsbDev.init ops = some (acts, s)) : Counted s :=
  Machine.trace_inv (P := fun _ (_ : List (UsbAct β)) s => Counted s)
    (fun _ _ _ _ _ _ => Counted.step) counted_init h

/-- Whatever interleaves, each of the buffers is in exactly one place: free, in the hands of a
caller, posted, in the hands of the thread or of `aicwf_usb_tx_prepare`, in flight or completed. The
counters are the lengths of the lists. -/
theorem usb_tx_accounted {ops : List (UsbOp β)} {acts : List (UsbAct β)}
    (h : (usbTxMachine β).trace UsbDev.init ops = some (acts, s)) :
    s.value (fun id => {id}) (fun u => {u.id}) = Multiset.range aicwfUsbTxUrbs ∧
      s.txFreeCount = s.txFreeList.length ∧ s.txPostCount = s.txPostList.length := by
  have hs := Counted.run h
  exact ⟨hs.buffers, hs.free, hs.post⟩

/-- The submission of one frame fails, and another one is sent. -/
def usbFailedRun : List (UsbOp ℕ) :=
  [.frameTx 7 false, .txdataStep, .txdataStep, .txdataStep, .bustx true, .bustx true, .bustx true,
    .bustx true, .bustx true, .bustx false, .bustx true, .frameTx 8 true, .txdataStep, .bustx true,
    .bustx true, .bustx true, .bustx true, .complete 0, .giveBack 0]

/-- The buffer of the failed submission is free again, and so is the one that was sent. -/
theorem usb_tx_accounted_failed :
    ∃ acts s, (usbTxMachine ℕ).trace UsbDev.init usbFailedRun = some (acts, s) ∧
      s.value (fun id => {id}) (fun u => {u.id}) = Multiset.range aicwfUsbTxUrbs ∧
      s.txFreeCount = s.txFreeList.length ∧ s.txPostCount = s.txPostList.length := by
  obtain ⟨r, hr⟩ : ∃ r, (usbTxMachine ℕ).trace UsbDev.init usbFailedRun = some r := ⟨_, rfl⟩
  exact ⟨r.1, r.2, hr, usb_tx_accounted hr⟩

/-! ### Flow control -/

/-- When the network queues are stopped, few buffers are free or a completion is about to test how
many are; when very few are free, they are stopped or the caller is about to test. -/
structure FlowOk (s : UsbDev β) : Prop where
  busy : s.tbusy → s.txFreeCount ≤ aicwfUsbTxHighWater ∨ 0 < s.checking
  low : s.txFreeCount < aicwfUsbTxLowWater → s.tbusy ∨ s.txData ≠ .idle

/-- A buffer that comes back without a completion does so while the network queues run, or while
few buffers are free; and no frame finds the bus down with the network queues running. -/
def UsbOp.checked (s : UsbDev β) : UsbOp β → Bool
  | .frameTx _ _ => s.state ≠ .down || s.tbusy
  | .bustx _ =>
    match s.busTx with
    | .failed _ => !s.tbusy || s.txFreeCount < aicwfUsbTxHighWater
    | _ => true
  | .prepareStep =>
    match s.txPrepare with
    | .freed _ => !s.tbusy || s.txFreeCount < aicwfUsbTxHighWater
    | _ => true
  | _ => true

/-- A step that neither stops nor starts the queues, and moves no buffer to or from the free
list. -/
theorem FlowOk.keep (hs : FlowOk s) (hbusy : t.tbusy = s.tbusy)
    (hcount : t.txFreeCount = s.txFreeCount) (hcheck : t.checking = s.checking)
    (hdata : s.txData ≠ .idle → t.txData ≠ .idle) : FlowOk t where
  busy h := by
    rw [hcount, hcheck]
    exact hs.busy (hbusy ▸ h)
  low h := by
    rw [hbusy]
    exact (hs.low (hcount ▸ h)).imp_right hdata

/-- A buffer that comes back without a completion. -/
theorem FlowOk.back (hs : FlowOk s) (hc : (!s.tbusy || s.txFreeCount < aicwfUsbTxHighWater) = true)
    (hbusy : t.tbusy = s.tbusy) (hcount : t.txFreeCount = s.txFreeCount + 1)
    (hdata : t.txData = s.txData) : FlowOk t where
  busy h := by
    rw [hbusy] at h
    rw [h, Bool.not_true, Bool.false_or, decide_eq_true_eq] at hc
    exact .inl (hcount ▸ hc)
  low h := by
    rw [hcount] at h
    rw [hbusy, hdata]
    exact hs.low (Nat.lt_of_succ_lt h)

/-- **The flow control is right after every step** that gives a buffer back harmlessly. -/
theorem FlowOk.step (hs : FlowOk s) (hc : op.checked s)
    (h : (usbTxMachine β).step s op = some (o, t)) : FlowOk t := by
  cases op with
  | frameTx frame cfm =>
    simp only [usbTxMachine] at h
    split at h
    swap
    · cases h
    rw [aicwfFrameTx] at h
    split at h
    · cases h
      exact hs
    rw [usbBusTxdata] at h
    split at h
    · cases h
      exact hs
    split at h
    · cases h
      exact ⟨hs.busy, fun _ => .inr nofun⟩
    · -- a buffer less is free, and the caller is still to test
      cases h
      exact ⟨fun hb => (hs.busy hb).imp_left (Nat.sub_le_of_le_add <| Nat.le_succ_of_le ·),
        fun _ => .inr nofun⟩
  | txdataStep =>
    simp only [usbTxMachine, usbTxdataStep] at h
    split at h
    · cases h
    · cases h
      exact hs.keep rfl rfl rfl fun _ => nofun
    · cases h
      exact hs.keep rfl rfl rfl fun _ => nofun
    · -- the test of the caller
      split at h
      · next hlow =>
        cases h
        exact ⟨fun _ => .inl (hlow.le.trans (by decide)), fun _ => .inl rfl⟩
      · next hmany =>
        cases h
        exact ⟨hs.busy, fun hlow => absurd hlow hmany⟩
  | bustx submitted =>
    simp only [usbTxMachine, usbBustxStep] at h
    split at h
    · split at h <;> cases h
      exact hs.keep rfl rfl rfl id
    · cases h
      exact hs.keep rfl rfl rfl id
    · cases h
      exact hs.keep rfl rfl rfl id
    · cases h
      exact hs.keep rfl rfl rfl id
    · split at h <;> cases h <;> exact hs.keep rfl rfl rfl id
    · split at h <;> cases h <;> exact hs.keep rfl rfl rfl id
    · next u hu =>
      cases h
      rw [UsbOp.checked, hu] at hc
      exact hs.back hc rfl rfl rfl
    · cases h
  | complete n =>
    obtain ⟨u, hu, heq⟩ := Option.map_eq_some_iff.mp h
    cases heq
    exact hs.keep rfl rfl rfl id
  | giveBack n =>
    obtain ⟨id', hid, heq⟩ := Option.map_eq_some_iff.mp h
    cases heq
    -- a buffer more is free, and the completion is still to test
    exact ⟨fun _ => .inr (Nat.succ_pos _), fun hlow => hs.low (Nat.lt_of_succ_lt hlow)⟩
  | check =>
    simp only [usbTxMachine, usbTxCheck] at h
    split at h
    · cases h
    · split at h
      · next hwake =>
        -- the queues start, and many buffers are free
        cases h
        exact ⟨nofun, fun hlow => absurd (hlow.trans (by decide)) hwake.1.not_gt⟩
      · next hstay =>
        -- the queues stay stopped only when few are
        cases h
        exact ⟨fun hb => .inl (Nat.le_of_not_lt fun hlt => hstay ⟨hlt, hb⟩), hs.low⟩
  | suspend | busStop =>
    cases h
    obtain ⟨b, heq⟩ := usbStateChange_eq s _
    rw [heq]
    exact hs.keep rfl rfl rfl id
  | busStart =>
    simp only [usbTxMachine] at h
    split at h
    · cases h
      obtain ⟨b, heq⟩ := usbStateChange_eq s .up
      rw [usbBusStart, heq]
      split
      · exact hs
      · exact hs.keep rfl rfl rfl id
    · cases h
  | prepareStep =>
    simp only [usbTxMachine, usbTxPrepareStep] at h
    split at h
    · cases h
    · cases h
      exact hs.keep rfl rfl rfl id
    · split at h <;> cases h
      exact hs.keep rfl rfl rfl id
    · next id' hp =>
      cases h
      rw [UsbOp.checked, hp] at hc
      exact hs.back hc rfl rfl rfl

/-- What `aicwf_usb_tx_flowctrl` leaves the network queues in. -/
def flowState (stopped : Bool) : UsbAct β → Bool
  | .flowctrl state => state
  | _ => stopped

/-- Whether the network queues are stopped. -/
def netStopped (acts : List (UsbAct β)) : Bool := acts.foldl flowState false

/-- Memory that is taken does not concern the network queues. -/
theorem foldl_own (b : Bool) (l : List (UsbMem β)) :
    (l.map UsbAct.own).foldl flowState b = b := by
  induction l generalizing b with
  | nil => rfl
  | cons m l ih => exact ih b

/-- A step that brings no frame. -/
def UsbOp.frameless : UsbOp β → Bool
  | .frameTx _ _ => false
  | _ => true

/-- A step that leaves the network queues alone. -/
structure FlowKept (s : UsbDev β) (op : UsbOp β) (o : List (UsbAct β)) (t : UsbDev β) : Prop where
  tbusy : t.tbusy = s.tbusy
  acts : ∀ b, o.foldl flowState b = b
  idle : op.frameless → s.txData = .idle → t.txData = .idle

/-- What a step does to the network queues: a frame that finds the bus down stops them, the caller
stops them and says so, a completion starts them and says so, and nothing else does anything. -/
theorem flow_cases (h : (usbTxMachine β).step s op = some (o, t)) :
    (op.frameless = false ∧ s.state = .down ∧ s.tbusy = false ∧ t.tbusy = false ∧
      ∀ b, o.foldl flowState b = true) ∨
    (s.txData = .flowCtrl ∧ t.tbusy = true ∧ ∀ b, o.foldl flowState b = true) ∨
    (s.tbusy = true ∧ t.tbusy = false ∧ ∀ b, o.foldl flowState b = false) ∨
    FlowKept s op o t := by
  cases op with
  | frameTx frame cfm =>
    simp only [usbTxMachine] at h
    split at h
    swap
    · cases h
    rw [aicwfFrameTx] at h
    split at h
    · -- the bus is down: the queues are stopped unless `tbusy` is set
      next hdown =>
      cases hbusy : s.tbusy with
      | false =>
        rw [hbusy] at h
        cases h
        exact .inl ⟨rfl, hdown, rfl, hbusy, fun _ => rfl⟩
      | true =>
        rw [hbusy] at h
        cases h
        exact .inr (.inr (.inr ⟨rfl, fun _ => rfl, nofun⟩))
    · refine .inr (.inr (.inr ?_))
      rw [usbBusTxdata] at h
      split at h
      · cases h
        exact ⟨rfl, fun _ => rfl, nofun⟩
      · split at h
        · cases h
          exact ⟨rfl, fun _ => rfl, nofun⟩
        · cases h
          exact ⟨rfl, fun b => foldl_own b _, nofun⟩
  | txdataStep =>
    simp only [usbTxMachine, usbTxdataStep] at h
    split at h
    · cases h
    · next hdata =>
      cases h
      exact .inr (.inr (.inr ⟨rfl, fun _ => rfl, fun _ hidle => nomatch hdata.symm.trans hidle⟩))
    · next hdata =>
      cases h
      exact .inr (.inr (.inr ⟨rfl, fun _ => rfl, fun _ hidle => nomatch hdata.symm.trans hidle⟩))
    · next hdata =>
      split at h <;> cases h
      · exact .inr (.inl ⟨hdata, rfl, fun _ => rfl⟩)
      · exact .inr (.inr (.inr ⟨rfl, fun _ => rfl, fun _ _ => rfl⟩))
  | bustx submitted =>
    refine .inr (.inr (.inr ?_))
    simp only [usbTxMachine, usbBustxStep] at h
    split at h
    · split at h <;> cases h
      exact ⟨rfl, fun _ => rfl, fun _ => id⟩
    · cases h
      exact ⟨rfl, fun _ => rfl, fun _ => id⟩
    · cases h
      exact ⟨rfl, fun _ => rfl, fun _ => id⟩
    · cases h
      exact ⟨rfl, fun _ => rfl, fun _ => id⟩
    · split at h <;> cases h <;> exact ⟨rfl, fun _ => rfl, fun _ => id⟩
    · split at h <;> cases h <;> exact ⟨rfl, fun _ => rfl, fun _ => id⟩
    · cases h
      exact ⟨rfl, fun _ => rfl, fun _ => id⟩
    · cases h
  | complete n =>
    obtain ⟨u, hu, heq⟩ := Option.map_eq_some_iff.mp h
    cases heq
    refine .inr (.inr (.inr ⟨rfl, fun b => ?_, fun _ => id⟩))
    rw [List.foldl_cons, List.foldl_cons]
    cases u.cfm <;> rfl
  | giveBack n =>
    obtain ⟨id', hid, heq⟩ := Option.map_eq_some_iff.mp h
    cases heq
    exact .inr (.inr (.inr ⟨rfl, fun _ => rfl, fun _ => id⟩))
  | check =>
    simp only [usbTxMachine, usbTxCheck] at h
    split at h
    · cases h
    · split at h
      · -- many buffers are free, and the queues start again
        next hwake =>
        cases h
        exact .inr (.inr (.inl ⟨hwake.2, rfl, fun _ => rfl⟩))
      · cases h
        exact .inr (.inr (.inr ⟨rfl, fun _ => rfl, fun _ => id⟩))
  | suspend | busStop =>
    cases h
    refine .inr (.inr (.inr ?_))
    rw [usbStateChange]
    split <;> exact ⟨rfl, fun _ => rfl, fun _ => id⟩
  | busStart =>
    refine .inr (.inr (.inr ?_))
    simp only [usbTxMachine] at h
    split at h
    · cases h
      rw [usbBusStart, usbStateChange]
      split_ifs <;> exact ⟨rfl, fun _ => rfl, fun _ => id⟩
    · cases h
  | prepareStep =>
    refine .inr (.inr (.inr ?_))
    simp only [usbTxMachine, usbTxPrepareStep] at h
    split at h
    · cases h
    · cases h
      exact ⟨rfl, fun _ => rfl, fun _ => id⟩
    · split at h <;> cases h
      exact ⟨rfl, fun _ => rfl, fun _ => id⟩
    · cases h
      exact ⟨rfl, fun _ => rfl, fun _ => id⟩

/-- `tbusy` says what the network queues are in. -/
theorem flowState_step (hc : op.checked s) (h : (usbTxMachine β).step s op = some (o, t)) :
    o.foldl flowState s.tbusy = t.tbusy := by
  rcases flow_cases h with ⟨hframe, hdown, hbusy, -⟩ | ⟨-, hbusy, ho⟩ | ⟨-, hbusy, ho⟩ | hkept
  · -- such a frame is not checked
    cases op with
    | frameTx frame cfm =>
      rw [UsbOp.checked, hdown, hbusy] at hc
      exact absurd hc Bool.false_ne_true
    | _ => cases hframe
  · exact (ho _).trans hbusy.symm
  · exact (ho _).trans hbusy.symm
  · exact (hkept.acts _).trans hkept.tbusy.symm

/-- The network queues are stopped when `tbusy` says so. -/
theorem netStopped_eq {ops : List (UsbOp β)} {acts : List (UsbAct β)}
    (hg : (usbTxMachine β).Guarded (fun s op => op.checked s = true) UsbDev.init ops)
    (h : (usbTxMachine β).trace UsbDev.init ops = some (acts, s)) :
    netStopped acts = s.tbusy := by
  refine Machine.trace_inv_guarded (P := fun _ acts (s : UsbDev β) => netStopped acts = s.tbusy)
    (fun _ acts s op o t hs hc hstep => ?_) rfl hg h
  rw [netStopped, List.foldl_append]
  exact (congrArg (o.foldl flowState) hs).trans (flowState_step hc hstep)

/-- The network queues are not stopped for good, and are not left running without buffers. As long
as buffers that come back without a completion do so harmlessly, and no frame is dropped on a bus
that is down while the queues run, stopped queues mean that at least `AICWF_USB_TX_LOW_WATER`
buffers are still to come back or that a completion is about to test, and less than that many free
ones mean that the queues are stopped or that a caller is about to test. -/
theorem usb_tx_flow {ops : List (UsbOp β)} {acts : List (UsbAct β)}
    (hg : (usbTxMachine β).Guarded (fun s op => op.checked s = true) UsbDev.init ops)
    (h : (usbTxMachine β).trace UsbDev.init ops = some (acts, s)) :
    (netStopped acts →
      s.txFreeList.length + aicwfUsbTxLowWater ≤ aicwfUsbTxUrbs ∨ 0 < s.checking) ∧
      (s.txFreeList.length < aicwfUsbTxLowWater → netStopped acts ∨ s.txData ≠ .idle) := by
  -- at the start the queues run, and all buffers are free
  have hinit : FlowOk (UsbDev.init : UsbDev β) :=
    ⟨nofun, fun h => absurd h (show ¬aicwfUsbTxUrbs < aicwfUsbTxLowWater by decide)⟩
  have hs : FlowOk s := Machine.trace_inv_guarded (P := fun _ (_ : List (UsbAct β)) s => FlowOk s)
    (fun _ _ _ _ _ _ hs hc => hs.step hc) hinit hg h
  have hcount := (Counted.run h).free
  rw [netStopped_eq hg h]
  refine ⟨fun hb => (hs.busy hb).imp_left fun hle => ?_, fun hlt => hs.low (hcount ▸ hlt)⟩
  rw [hcount] at hle
  exact (Nat.add_le_add_right hle _).trans (by decide)

theorem usb_tx_flow_failed :
    ∃ acts s, (usbTxMachine ℕ).trace UsbDev.init usbFailedRun = some (acts, s) ∧
      (netStopped acts →
        s.txFreeList.length + aicwfUsbTxLowWater ≤ aicwfUsbTxUrbs ∨ 0 < s.checking) ∧
      (s.txFreeList.length < aicwfUsbTxLowWater → netStopped acts ∨ s.txData ≠ .idle) := by
  have hg : (usbTxMachine ℕ).Guarded (fun s op => op.checked s = true) UsbDev.init
      usbFailedRun := by
    decide
  exact ⟨_, _, rfl, usb_tx_flow hg rfl⟩

/-! ### A frame while the bus is down -/

/-- Stopped queues of which `tbusy` does not know stay stopped, whatever is confirmed, for as long
as no frame comes; and a stopped queue gets none. -/
theorem stopped_for_good {ops : List (UsbOp β)} {acts : List (UsbAct β)} (hbusy : s.tbusy = false)
    (hidle : s.txData = .idle) (hops : ∀ op ∈ ops, op.frameless)
    (h : (usbTxMachine β).trace s ops = some (acts, t)) (b : Bool) :
    acts.foldl flowState b = b := by
  -- neither a caller nor a completion has anything to tell
  have hend := Machine.trace_inv (P := fun ops acts (t : UsbDev β) =>
      (∀ op ∈ ops, UsbOp.frameless op) → t.tbusy = false ∧ t.txData = .idle ∧
        acts.foldl flowState b = b)
    (fun ops acts s op o t hs hstep hops => ?_) (fun _ => ⟨hbusy, hidle, rfl⟩) h hops
  · exact hend.2.2
  obtain ⟨hops, hop⟩ := List.forall_mem_append.mp hops
  obtain ⟨hbusy, hidle, hacts⟩ := hs hops
  have hframe := hop op (List.mem_singleton_self op)
  rw [List.foldl_append, hacts]
  rcases flow_cases hstep with ⟨hno, -⟩ | ⟨hdata, -⟩ | ⟨hset, -⟩ | hkept
  · exact absurd (hno.symm.trans hframe) Bool.false_ne_true
  · exact nomatch hidle.symm.trans hdata
  · exact absurd (hbusy.symm.trans hset) Bool.false_ne_true
  · exact ⟨hkept.tbusy.trans hbusy, hkept.idle hframe hidle, hkept.acts b⟩

/-- A frame while the bus is down: the bus starts again, all buffers are free, and the queues are
stopped. -/
example : ∃ acts s, (usbTxMachine ℕ).trace UsbDev.init
    [.busStop, .frameTx 7 false, .busStart, .prepareStep] = some (acts, s) ∧
      netStopped acts = true ∧ s.txFreeList.length = aicwfUsbTxUrbs ∧ s.tbusy = false :=
  ⟨_, _, rfl, rfl, rfl, rfl⟩

end LonganPi.Wifi
