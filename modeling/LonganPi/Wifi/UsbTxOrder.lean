import LonganPi.Wifi.UsbTxFlow

/-!
# What becomes of the frames on the USB bus

Frames are submitted in the order they were accepted in (`usb_tx_in_order`). As long as submissions
succeed and nothing is posted when the bus starts, each piece of memory is freed once, by the
function for its kind, when the completion of its buffer runs (`usb_tx_memory`). While the bus is
up, no posted frame is left waiting without a trigger: the callers, the thread and the completions
can always finish, and then all frames are submitted and freed, all buffers are free and the network
queues run (`usb_tx_drains`).
-/

open DriverLib

namespace LonganPi.Wifi

variable {β : Type*} {s t : UsbDev β} {op : UsbOp β} {o acts : List (UsbAct β)}

/-! ### Order -/

/-- The frames that are submitted. -/
def submits (acts : List (UsbAct β)) : List β :=
  acts.filterMap fun
    | .submitUrb u => some u.frame
    | _ => none

/-- The frames that are accepted; an aligned copy is made of each. -/
def accepts (acts : List (UsbAct β)) : List β :=
  acts.filterMap fun
    | .own (.usbAlignData frame) => some frame
    | _ => none

/-- The frame that the caller has. -/
def TxData.frames : TxData β → List β
  | .filled u => [u.frame]
  | _ => []

/-- The frame that the thread has. -/
def BusTx.frames : BusTx β → List β
  | .submitting u => [u.frame]
  | _ => []

/-- The frames that are still to be submitted. -/
def UsbDev.pending (s : UsbDev β) : List β :=
  s.busTx.frames ++ s.txPostList.map UsbBuf.frame ++ s.txData.frames

/-- No frame is dropped after it was accepted: the submission does not fail, and the bus does not
find the frame posted when it starts. -/
def UsbOp.keeps (s : UsbDev β) : UsbOp β → Bool
  | .bustx submitted =>
    match s.busTx with
    | .submitting _ => submitted
    | _ => true
  | .prepareStep => s.txPrepare ≠ .fetching
  | _ => true

theorem submits_append (o o' : List (UsbAct β)) : submits (o ++ o') = submits o ++ submits o' :=
  List.filterMap_append

theorem accepts_append (o o' : List (UsbAct β)) : accepts (o ++ o') = accepts o ++ accepts o' :=
  List.filterMap_append

/-- A buffer that is filled accepts its frame once, with or without a copy. -/
theorem accepts_mem (u : UsbBuf β) : accepts (u.mem.map .own) = [u.frame] := by
  rw [UsbBuf.mem, UsbBuf.skb]
  split <;> rfl

theorem submits_mem (u : UsbBuf β) : submits (u.mem.map .own) = [] := rfl

/-- A frame is accepted when it finds a buffer, and is the last to be submitted. -/
theorem busTxdata_pending {frame : β} {cfm : Bool} (hidle : s.txData = .idle)
    (h : usbBusTxdata s frame cfm = (o, t)) :
    submits o ++ t.pending = s.pending ++ accepts o := by
  rw [usbBusTxdata] at h
  split at h
  · cases h
    exact (List.append_nil _).symm
  split at h
  · cases h
    simp only [UsbDev.pending, hidle]
    exact (List.append_nil _).symm
  · cases h
    rw [accepts_mem, submits_mem]
    simp only [UsbDev.pending, hidle, TxData.frames, List.append_nil, List.nil_append]

/-- A frame that is dropped is not accepted. -/
theorem frameTx_pending {frame : β} {cfm : Bool} (hidle : s.txData = .idle)
    (h : aicwfFrameTx s frame cfm = (o, t)) :
    submits o ++ t.pending = s.pending ++ accepts o := by
  rw [aicwfFrameTx] at h
  split at h
  · cases h
    split <;> exact (List.append_nil _).symm
  · exact busTxdata_pending hidle h

/-- The caller posts its buffer behind the others. -/
theorem txdataStep_pending (h : usbTxdataStep s = some (o, t)) :
    submits o ++ t.pending = s.pending ++ accepts o := by
  rw [usbTxdataStep] at h
  split at h
  · cases h
  · next u hu =>
    cases h
    simp [UsbDev.pending, hu, TxData.frames, submits, accepts]
  · next hu =>
    cases h
    simp [UsbDev.pending, hu, TxData.frames, submits, accepts]
  · next hu =>
    split at h <;> cases h <;> simp [UsbDev.pending, hu, TxData.frames, submits, accepts]

/-- The thread submits the first posted frame, or drops it. -/
theorem bustx_pending {submitted : Bool} (h : usbBustxStep s submitted = some (o, t)) :
    (submits o ++ t.pending).Sublist (s.pending ++ accepts o) ∧
      ((UsbOp.bustx submitted).keeps s → submits o ++ t.pending = s.pending ++ accepts o) := by
  -- nothing moves, but for the two steps that fetch and submit
  have hstay : submits o ++ t.pending = s.pending ++ accepts o →
      (submits o ++ t.pending).Sublist (s.pending ++ accepts o) ∧
      ((UsbOp.bustx submitted).keeps s → submits o ++ t.pending = s.pending ++ accepts o) :=
    fun heq => ⟨heq ▸ List.Sublist.refl _, fun _ => heq⟩
  rw [usbBustxStep] at h
  split at h
  · next hb =>
    split at h
    · cases h
    · cases h
      refine hstay ?_
      simp only [UsbDev.pending, hb, submits, accepts, List.filterMap_nil, List.append_nil]
      split <;> rfl
  · next hb =>
    cases h
    refine hstay ?_
    simp only [UsbDev.pending, hb, submits, accepts, List.filterMap_nil, List.append_nil]
    split <;> rfl
  · next hb =>
    cases h
    refine hstay ?_
    simp only [UsbDev.pending, hb, submits, accepts, List.filterMap_nil, List.append_nil]
    split <;> rfl
  · next hb =>
    cases h
    refine hstay ?_
    simp only [UsbDev.pending, hb, submits, accepts, List.filterMap_nil, List.append_nil]
    split <;> rfl
  · next hb =>
    split at h <;> cases h <;> refine hstay ?_ <;>
      simp [UsbDev.pending, *, BusTx.frames, submits, accepts]
  · next u hb =>
    split at h
    · cases h
      refine hstay ?_
      simp [UsbDev.pending, hb, BusTx.frames, submits, accepts]
    · next hno =>
      cases h
      -- the frame is dropped
      refine ⟨?_, fun hyes => absurd ?_ hno⟩
      · simp [UsbDev.pending, hb, BusTx.frames, submits, accepts]
      · rwa [UsbOp.keeps, hb] at hyes
  · next u hb =>
    cases h
    refine hstay ?_
    simp [UsbDev.pending, usbTxQueueFree, hb, BusTx.frames, submits, accepts]
  · cases h

/-- `aicwf_usb_tx_prepare` drops the first posted frame. -/
theorem prepare_pending (h : usbTxPrepareStep s = some (o, t)) :
    (submits o ++ t.pending).Sublist (s.pending ++ accepts o) ∧
      ((UsbOp.prepareStep : UsbOp β).keeps s →
        submits o ++ t.pending = s.pending ++ accepts o) := by
  rw [usbTxPrepareStep] at h
  split at h
  · cases h
  · cases h
    simp [UsbDev.pending, submits, accepts]
  · next hp =>
    split at h
    · cases h
    · next u rest hpost =>
      cases h
      -- the frame is dropped
      refine ⟨?_, fun hyes => absurd hp (of_decide_eq_true hyes)⟩
      simp [UsbDev.pending, hpost, submits, accepts]
  · cases h
    simp [UsbDev.pending, usbTxQueueFree, submits, accepts]

/-- What is submitted, and what is still to be, is what was to be and what is accepted; all of it
unless a frame is dropped. -/
theorem pending_step (h : (usbTxMachine β).step s op = some (o, t)) :
    (submits o ++ t.pending).Sublist (s.pending ++ accepts o) ∧
      (op.keeps s → submits o ++ t.pending = s.pending ++ accepts o) := by
  have hstay : submits o ++ t.pending = s.pending ++ accepts o →
      (submits o ++ t.pending).Sublist (s.pending ++ accepts o) ∧
      (op.keeps s → submits o ++ t.pending = s.pending ++ accepts o) := fun heq =>
    ⟨heq ▸ List.Sublist.refl _, fun _ => heq⟩
  cases op with
  | frameTx frame cfm =>
    simp only [usbTxMachine] at h
    split at h
    · next hidle => exact hstay (frameTx_pending hidle (Option.some.inj h))
    · cases h
  | txdataStep => exact hstay (txdataStep_pending h)
  | bustx submitted => exact bustx_pending h
  | complete n =>
    obtain ⟨u, hu, heq⟩ := Option.map_eq_some_iff.mp h
    cases heq
    refine hstay ?_
    simp only [UsbDev.pending, submits, accepts]
    split <;> simp
  | giveBack n =>
    obtain ⟨id, hid, heq⟩ := Option.map_eq_some_iff.mp h
    cases heq
    exact hstay (List.append_nil _).symm
  | check =>
    simp only [usbTxMachine, usbTxCheck] at h
    split at h
    · cases h
    · split at h <;> cases h <;> exact hstay (List.append_nil _).symm
  | suspend | busStop =>
    cases h
    refine hstay ?_
    rw [usbStateChange]
    split <;> exact (List.append_nil _).symm
  | busStart =>
    simp only [usbTxMachine] at h
    split at h
    · cases h
      refine hstay ?_
      rw [usbBusStart, usbStateChange]
      split_ifs <;> exact (List.append_nil _).symm
    · cases h
  | prepareStep => exact prepare_pending h

/-- No frame that was accepted is missing, as long as none is dropped. -/
theorem submits_pending {ops : List (UsbOp β)}
    (hk : (usbTxMachine β).Guarded (fun s op => op.keeps s = true) UsbDev.init ops)
    (h : (usbTxMachine β).trace UsbDev.init ops = some (acts, s)) :
    submits acts ++ s.pending = accepts acts := by
  refine Machine.trace_inv_guarded
    (P := fun _ acts (s : UsbDev β) => submits acts ++ s.pending = accepts acts)
    (fun _ acts s op o t hs hk hstep => ?_) rfl hk h
  rw [submits_append, accepts_append, List.append_assoc, (pending_step hstep).2 hk,
    ← List.append_assoc, hs]

/-- Frames are submitted in the order they were accepted in, and the others follow. -/
theorem usb_tx_in_order {ops : List (UsbOp β)}
    (h : (usbTxMachine β).trace UsbDev.init ops = some (acts, s)) :
    (submits acts ++ s.pending).Sublist (accepts acts) := by
  refine Machine.trace_inv (P := fun _ acts s => (submits acts ++ s.pending).Sublist (accepts acts))
    (fun ops acts s op o t hs hstep => ?_) (List.nil_sublist _) h
  rw [submits_append, accepts_append, List.append_assoc]
  refine ((pending_step hstep).1.append_left _).trans ?_
  rw [← List.append_assoc]
  exact hs.append (.refl _)

theorem usb_tx_in_order_failed :
    ∃ acts s, (usbTxMachine ℕ).trace UsbDev.init usbFailedRun = some (acts, s) ∧
      (submits acts ++ s.pending).Sublist (accepts acts) := by
  obtain ⟨r, hr⟩ : ∃ r, (usbTxMachine ℕ).trace UsbDev.init usbFailedRun = some r := ⟨_, rfl⟩
  exact ⟨r.1, r.2, hr, usb_tx_in_order hr⟩

/-! ### Memory -/

/-- The memory that the bus gets. -/
def owned (acts : List (UsbAct β)) : List (UsbMem β) :=
  acts.filterMap fun
    | .own m => some m
    | _ => none

/-- The memory that is freed. -/
def freed (acts : List (UsbAct β)) : List (UsbMem β) :=
  acts.filterMap fun
    | .devKfreeSkb m | .kfree m => some m
    | _ => none

/-- The memory of the buffers that carry a frame. -/
def UsbDev.memory (s : UsbDev β) : Multiset (UsbMem β) := s.value (fun _ => 0) (fun u => u.mem)

/-- A frame is freed as a frame, and a copy as a copy. -/
def UsbAct.Proper : UsbAct β → Prop
  | .devKfreeSkb m => ∃ frame, m = .skb frame
  | .kfree m => ∀ frame, m ≠ .skb frame
  | _ => True

theorem owned_append (o o' : List (UsbAct β)) : owned (o ++ o') = owned o ++ owned o' :=
  List.filterMap_append

theorem freed_append (o o' : List (UsbAct β)) : freed (o ++ o') = freed o ++ freed o' :=
  List.filterMap_append

/-- What a step gets and frees, besides frames that it does not accept, is what it fills and
empties. -/
theorem memory_step (hk : op.keeps s) (h : (usbTxMachine β).step s op = some (o, t)) :
    (∀ a ∈ o, a.Proper) ∧ ∃ rejected : Multiset (UsbMem β),
      (owned o : Multiset (UsbMem β)) =
        rejected + ((op.fills s).map fun u => (u.mem : Multiset (UsbMem β))).sum ∧
      (freed o : Multiset (UsbMem β)) =
        rejected + ((op.empties s).map fun u => (u.mem : Multiset (UsbMem β))).sum := by
  -- a step that only moves buffers
  have hnone : o = [] ∨ (∃ u, o = [.submitUrb u]) ∨ (∃ state, o = [.flowctrl state]) →
      op.fills s = [] → op.empties s = [] →
      (∀ a ∈ o, a.Proper) ∧ ∃ rejected : Multiset (UsbMem β),
        (owned o : Multiset (UsbMem β)) =
          rejected + ((op.fills s).map fun u => (u.mem : Multiset (UsbMem β))).sum ∧
        (freed o : Multiset (UsbMem β)) =
          rejected + ((op.empties s).map fun u => (u.mem : Multiset (UsbMem β))).sum := by
    intro ho hf he
    rw [hf, he]
    rcases ho with rfl | ⟨u, rfl⟩ | ⟨state, rfl⟩
    · exact ⟨fun _ h => absurd h List.not_mem_nil, 0, rfl, rfl⟩
    · exact ⟨List.forall_mem_singleton.mpr trivial, 0, rfl, rfl⟩
    · exact ⟨List.forall_mem_singleton.mpr trivial, 0, rfl, rfl⟩
  cases op with
  | frameTx frame cfm =>
    simp only [usbTxMachine] at h
    split at h
    swap
    · cases h
    -- a frame that is dropped is freed as it came
    have hreject : (∀ a ∈ [UsbAct.own (.skb frame), .devKfreeSkb (.skb frame)], a.Proper) := by
      refine List.forall_mem_cons.mpr ⟨trivial, List.forall_mem_singleton.mpr ⟨frame, rfl⟩⟩
    rw [aicwfFrameTx] at h
    rw [UsbOp.fills]
    split at h
    · next hdown =>
      have hst : s.state ≠ .up := fun hup => UsbSt.noConfusion (hdown.symm.trans hup)
      cases h
      rw [if_pos hst]
      split
      · exact ⟨hreject, {.skb frame}, rfl, rfl⟩
      · exact ⟨List.forall_mem_cons.mpr ⟨trivial, hreject⟩, {.skb frame}, rfl, rfl⟩
    rw [usbBusTxdata] at h
    split at h
    · next hst =>
      cases h
      rw [if_pos hst]
      exact ⟨hreject, {.skb frame}, rfl, rfl⟩
    next hst =>
    rw [if_neg hst]
    split at h
    · next hnil =>
      cases h
      rw [hnil]
      exact ⟨hreject, {.skb frame}, rfl, rfl⟩
    · -- the frame, its copy if it is to be confirmed, and the aligned copy
      next id rest hcons =>
      cases h
      rw [hcons]
      refine ⟨List.forall_mem_map.mpr fun _ _ => trivial, 0, ?_, rfl⟩
      have : owned ((UsbBuf.mk id frame cfm).mem.map .own) = (UsbBuf.mk id frame cfm).mem := rfl
      rw [this, zero_add]
      exact (add_zero _).symm
  | txdataStep =>
    simp only [usbTxMachine, usbTxdataStep] at h
    refine hnone ?_ rfl rfl
    split at h
    · cases h
    · cases h
      exact .inl rfl
    · cases h
      exact .inl rfl
    · split at h <;> cases h
      · exact .inr (.inr ⟨_, rfl⟩)
      · exact .inl rfl
  | bustx submitted =>
    rw [UsbOp.keeps] at hk
    -- the submission succeeds, so nothing is emptied
    have hempties : (UsbOp.bustx submitted).empties s = [] := by
      cases submitted with
      | true => rfl
      | false =>
        rw [UsbOp.empties]
        split
        · next u hu =>
          rw [hu] at hk
          cases hk
        · rfl
    simp only [usbTxMachine, usbBustxStep] at h
    refine hnone ?_ rfl hempties
    split at h
    · split at h <;> cases h
      exact .inl rfl
    · cases h
      exact .inl rfl
    · cases h
      exact .inl rfl
    · cases h
      exact .inl rfl
    · split at h <;> cases h <;> exact .inl rfl
    · next u hu =>
      rw [hu] at hk
      rw [if_pos hk] at h
      cases h
      exact .inr (.inl ⟨_, rfl⟩)
    · cases h
      exact .inl rfl
    · cases h
  | complete n =>
    -- the completion frees the aligned copy, and the frame or its copy
    obtain ⟨u, hu, heq⟩ := Option.map_eq_some_iff.mp h
    cases heq
    rw [UsbOp.empties, hu, UsbBuf.skb]
    cases hc : u.cfm with
    | false =>
      refine ⟨?_, 0, rfl, ?_⟩
      · simp [UsbAct.Proper]
      · simp only [Option.toList_some, List.map_singleton, List.sum_singleton, zero_add,
          UsbBuf.mem, UsbBuf.skb, hc, if_false, Bool.false_eq_true]
        exact Multiset.coe_eq_coe.mpr (List.Perm.swap _ _ _)
    | true =>
      refine ⟨?_, 0, rfl, ?_⟩
      · simp [UsbAct.Proper]
      · simp only [Option.toList_some, List.map_singleton, List.sum_singleton, zero_add,
          UsbBuf.mem, UsbBuf.skb, hc, if_true]
        exact Multiset.coe_eq_coe.mpr (List.Perm.swap _ _ _)
  | giveBack n =>
    obtain ⟨id, hid, heq⟩ := Option.map_eq_some_iff.mp h
    cases heq
    exact hnone (.inl rfl) rfl rfl
  | check =>
    simp only [usbTxMachine, usbTxCheck] at h
    refine hnone ?_ rfl rfl
    split at h
    · cases h
    · split at h <;> cases h
      · exact .inr (.inr ⟨_, rfl⟩)
      · exact .inl rfl
  | suspend | busStop =>
    cases h
    exact hnone (.inl rfl) rfl rfl
  | busStart =>
    simp only [usbTxMachine] at h
    split at h
    · cases h
      exact hnone (.inl rfl) rfl rfl
    · cases h
  | prepareStep =>
    -- the list is empty, or the loop is at its end
    have hfetch : s.txPrepare ≠ .fetching := of_decide_eq_true hk
    have hempties : (UsbOp.prepareStep : UsbOp β).empties s = [] := by
      rw [UsbOp.empties]
      split
      · next hp => exact absurd hp hfetch
      · rfl
    simp only [usbTxMachine, usbTxPrepareStep] at h
    refine hnone ?_ rfl hempties
    split at h
    · cases h
    · cases h
      exact .inl rfl
    · next hp => exact absurd hp hfetch
    · cases h
      exact .inl rfl

/-- What the bus got is what it freed and what its buffers hold, and everything is freed as what it
is. -/
def MemoryOk (acts : List (UsbAct β)) (s : UsbDev β) : Prop :=
  (owned acts : Multiset (UsbMem β)) = freed acts + s.memory ∧ ∀ a ∈ acts, a.Proper

/-- What was taken or allocated is what was freed and what the loaded buffers hold. -/
theorem memory_balance {ops : List (UsbOp β)}
    (hk : (usbTxMachine β).Guarded (fun s op => op.keeps s = true) UsbDev.init ops)
    (h : (usbTxMachine β).trace UsbDev.init ops = some (acts, s)) :
    (owned acts : Multiset (UsbMem β)) = freed acts + s.memory := by
  have hinit : (UsbDev.init : UsbDev β).memory = 0 := by
    have hrange : ∀ n, ((List.range n).map fun _ => (0 : Multiset (UsbMem β))).sum = 0 := by simp
    simp only [UsbDev.memory, UsbDev.value, UsbDev.init, hrange, TxData.value, BusTx.value,
      TxPrepare.value, List.map_nil, List.sum_nil, add_zero]
  refine Machine.trace_inv_guarded (P := fun _ acts (s : UsbDev β) =>
      (owned acts : Multiset (UsbMem β)) = (freed acts : Multiset (UsbMem β)) + s.memory)
    (fun _ acts s op o t hs hk hstep => ?_) (by rw [hinit]; rfl) hk h
  obtain ⟨-, rejected, hown, hfree⟩ := memory_step hk hstep
  have hvalue := value_step (fun _ => (0 : Multiset (UsbMem β))) (fun u => u.mem) hstep
  have hzero : ∀ l : List (UsbBuf β), (l.map fun _ => (0 : Multiset (UsbMem β))).sum = 0 := by
    simp
  rw [hzero, hzero, add_zero, add_zero] at hvalue
  rw [owned_append, freed_append, ← Multiset.coe_add, ← Multiset.coe_add, hs, hown, hfree]
  calc _ = ↑(freed acts) + rejected + (s.memory +
        ((op.fills s).map fun u => (u.mem : Multiset (UsbMem β))).sum) := by abel
    _ = ↑(freed acts) + rejected + (t.memory +
        ((op.empties s).map fun u => (u.mem : Multiset (UsbMem β))).sum) := by
      rw [UsbDev.memory, UsbDev.memory, hvalue]
    _ = _ := by abel

/-- No memory leaks, is freed twice or is freed by the wrong function, as long as submissions
succeed and nothing is posted when the bus starts. -/
theorem usb_tx_memory {ops : List (UsbOp β)}
    (hk : (usbTxMachine β).Guarded (fun s op => op.keeps s = true) UsbDev.init ops)
    (h : (usbTxMachine β).trace UsbDev.init ops = some (acts, s)) : MemoryOk acts s := by
  refine ⟨memory_balance hk h, ?_⟩
  refine Machine.trace_inv_guarded
    (P := fun _ acts (_ : UsbDev β) => ∀ a ∈ acts, UsbAct.Proper a)
    (fun _ acts s op o t hs hk hstep => ?_) (fun _ h => absurd h List.not_mem_nil) hk h
  exact List.forall_mem_append.mpr ⟨hs, (memory_step hk hstep).1⟩

/-- A frame that is to be confirmed and one that is not are sent; the bus goes down, a third frame
is dropped, and the bus starts again. -/
def usbSentRun : List (UsbOp ℕ) :=
  [.frameTx 7 true, .txdataStep, .txdataStep, .txdataStep, .bustx true, .frameTx 8 false,
    .txdataStep, .bustx true, .bustx true, .bustx true, .bustx true, .bustx true, .bustx true,
    .bustx true, .bustx true, .bustx true, .complete 1, .giveBack 0, .check, .complete 0,
    .txdataStep, .txdataStep, .busStop, .frameTx 9 false, .busStart, .prepareStep]

theorem usb_tx_memory_down :
    ∃ acts s, (usbTxMachine ℕ).trace UsbDev.init usbSentRun = some (acts, s) ∧ MemoryOk acts s := by
  have hk : (usbTxMachine ℕ).Guarded (fun s op => op.keeps s = true) UsbDev.init usbSentRun := by
    decide
  exact ⟨_, _, rfl, usb_tx_memory hk rfl⟩

/-! ### Nothing is left waiting -/

/-- The bus is up, and a frame that is posted has a trigger, or the thread is at work, or the caller
is about to trigger it. -/
structure Running (s : UsbDev β) : Prop where
  flow : FlowOk s
  free : s.txFreeCount = s.txFreeList.length
  post : s.txPostCount = s.txPostList.length
  up : s.state = .up ∧ s.busUp
  prepare : s.txPrepare = .idle
  thread : s.busTx ≠ .stopped ∧ ∀ u, s.busTx ≠ .failed u
  wake : s.txPostList ≠ [] → 0 < s.bustxTrgg ∨ s.busTx ≠ .waiting ∨ s.txData = .posted

/-- Submissions succeed, and the bus stays up. -/
def UsbOp.fine : UsbOp β → Bool
  | .suspend | .busStop => false
  | .bustx submitted => submitted
  | _ => true

/-- No frame is dropped. -/
theorem Running.keeps (hs : Running s) (hop : op.fine) : op.keeps s := by
  cases op with
  | bustx submitted =>
    rw [UsbOp.keeps]
    split
    · exact hop
    · rfl
  | prepareStep =>
    refine decide_eq_true ?_
    rw [hs.prepare]
    exact nofun
  | _ => rfl

/-- No buffer comes back without a completion, and no frame finds the bus down. -/
theorem Running.checked (hs : Running s) : op.checked s := by
  cases op with
  | frameTx frame cfm =>
    rw [UsbOp.checked, hs.up.1]
    rfl
  | bustx submitted =>
    rw [UsbOp.checked]
    split
    · next u hu => exact absurd hu (hs.thread.2 u)
    · rfl
  | prepareStep =>
    rw [UsbOp.checked, hs.prepare]
  | _ => rfl

/-- Nothing gets stuck in a step: who posts a buffer is about to trigger the thread, and the thread
waits again only when it has seen that nothing is posted. -/
theorem Running.step (hs : Running s) (hop : op.fine)
    (h : (usbTxMachine β).step s op = some (o, t)) : Running t := by
  obtain ⟨hfree, hpost⟩ := counts_step hs.free hs.post h
  have hflow := hs.flow.step hs.checked h
  cases op with
  | frameTx frame cfm =>
    simp only [usbTxMachine] at h
    split at h
    swap
    · cases h
    next hidle =>
    have hwake : s.txPostList ≠ [] → 0 < s.bustxTrgg ∨ s.busTx ≠ .waiting := fun hne =>
      (hs.wake hne).imp_right (Or.resolve_right · (by simp [hidle]))
    rw [aicwfFrameTx, if_neg (by rw [hs.up.1]; decide), usbBusTxdata,
      if_neg (not_not_intro hs.up.1)] at h
    split at h
    · cases h
      exact ⟨hflow, hfree, hpost, hs.up, hs.prepare, hs.thread, fun hne =>
        (hwake hne).imp_right .inl⟩
    · cases h
      exact ⟨hflow, hfree, hpost, hs.up, hs.prepare, hs.thread, fun hne =>
        (hwake hne).imp_right .inl⟩
  | txdataStep =>
    simp only [usbTxMachine, usbTxdataStep] at h
    split at h
    · cases h
    · cases h
      exact ⟨hflow, hfree, hpost, hs.up, hs.prepare, hs.thread, fun _ => .inr (.inr rfl)⟩
    · cases h
      exact ⟨hflow, hfree, hpost, hs.up, hs.prepare, hs.thread, fun _ => .inl (Nat.succ_pos _)⟩
    · next hdata =>
      have hwake : s.txPostList ≠ [] → 0 < s.bustxTrgg ∨ s.busTx ≠ .waiting := fun hne =>
        (hs.wake hne).imp_right (Or.resolve_right · (by simp [hdata]))
      split at h <;> cases h <;>
        exact ⟨hflow, hfree, hpost, hs.up, hs.prepare, hs.thread, fun hne =>
          (hwake hne).imp_right .inl⟩
  | bustx submitted =>
    obtain rfl : submitted = true := hop
    simp only [usbTxMachine, usbBustxStep] at h
    -- the thread is at work after the step, or has seen that nothing is posted
    have hgo : t.state = s.state → t.busUp = s.busUp → t.txPrepare = s.txPrepare →
        t.busTx ≠ .stopped → (∀ u, t.busTx ≠ .failed u) →
        (t.busTx = .waiting → t.txPostList = []) → Running t :=
      fun hstate hbus hprepare hstopped hfailed hempty =>
        ⟨hflow, hfree, hpost, ⟨hstate.trans hs.up.1, hbus ▸ hs.up.2⟩, hprepare.trans hs.prepare,
          ⟨hstopped, hfailed⟩, fun hne => .inr (.inl fun hwait => hne (hempty hwait))⟩
    split at h
    · split at h
      · cases h
      · cases h
        refine hgo rfl rfl rfl ?_ (fun u => ?_) ?_ <;> simp [hs.up.2]
    · cases h
      refine hgo rfl rfl rfl ?_ (fun u => ?_) fun hwait => ?_
      · split <;> simp
      · split <;> simp
      · have hzero : ¬0 < s.txPostCount := fun hlt => by
          rw [if_pos hlt] at hwait
          cases hwait
        exact List.length_eq_zero_iff.mp (hs.post ▸ Nat.eq_zero_of_not_pos hzero)
    · cases h
      refine hgo rfl rfl rfl ?_ (fun u => ?_) fun hwait => ?_
      · split <;> simp
      · split <;> simp
      · refine List.isEmpty_iff.mp (Bool.of_not_eq_false fun hsome => ?_)
        rw [hsome] at hwait
        cases hwait
    · cases h
      refine hgo rfl rfl rfl ?_ (fun u => ?_) ?_ <;> simp [hs.up.1]
    · split at h
      · next hnil =>
        cases h
        exact hgo rfl rfl rfl (by simp) (by simp) fun _ => hnil
      · cases h
        exact hgo rfl rfl rfl (by simp) (by simp) (by simp)
    · cases h
      exact hgo rfl rfl rfl (by simp) (by simp) (by simp)
    · next u hu => exact absurd hu (hs.thread.2 u)
    · cases h
  | complete n =>
    obtain ⟨u, hu, heq⟩ := Option.map_eq_some_iff.mp h
    cases heq
    exact ⟨hflow, hfree, hpost, hs.up, hs.prepare, hs.thread, hs.wake⟩
  | giveBack n =>
    obtain ⟨id, hid, heq⟩ := Option.map_eq_some_iff.mp h
    cases heq
    exact ⟨hflow, hfree, hpost, hs.up, hs.prepare, hs.thread, hs.wake⟩
  | check =>
    simp only [usbTxMachine, usbTxCheck] at h
    split at h
    · cases h
    · split at h <;> cases h <;>
        exact ⟨hflow, hfree, hpost, hs.up, hs.prepare, hs.thread, hs.wake⟩
  | suspend | busStop => cases hop
  | busStart =>
    -- the bus is up already
    simp only [usbTxMachine, hs.prepare, usbBusStart, if_pos hs.up.1] at h
    cases h
    exact hs
  | prepareStep =>
    simp only [usbTxMachine, usbTxPrepareStep, hs.prepare] at h
    cases h

/-- The work that is left to a caller. What it posts costs the thread a round and a trigger. -/
def TxData.work : TxData β → ℕ
  | .idle => 0
  | .filled _ => 16
  | .posted => 8
  | .flowCtrl => 1

/-- The steps of the round that the thread is in. -/
def BusTx.work : BusTx β → ℕ
  | .submitting _ => 8
  | .testing => 5
  | .looping => 4
  | .stateTest => 3
  | .fetching => 2
  | _ => 0

/-- The work that is left. A posted buffer costs the thread a round; each trigger may cost it one
for nothing. -/
def UsbDev.work (s : UsbDev β) : ℕ :=
  s.txData.work + s.busTx.work + 6 * s.bustxTrgg + 7 * s.txPostList.length +
    3 * s.inFlight.length + 2 * s.completed.length + s.checking

/-- Nobody is at work on a frame. -/
structure Done (s : UsbDev β) : Prop where
  txData : s.txData = .idle
  busTx : s.busTx = .waiting
  trgg : s.bustxTrgg = 0
  post : s.txPostList = []
  inFlight : s.inFlight = []
  completed : s.completed = []
  checking : s.checking = 0

/-- Nothing is left to be submitted. -/
theorem Done.pending (hd : Done s) : s.pending = [] := by
  rw [UsbDev.pending, hd.busTx, hd.post, hd.txData]
  rfl

/-- All buffers are free. -/
theorem Done.value {M : Type*} [AddCommMonoid M] (hd : Done s) (hp : s.txPrepare = .idle)
    (empty : ℕ → M) (loaded : UsbBuf β → M) :
    s.value empty loaded = (s.txFreeList.map empty).sum := by
  simp only [UsbDev.value, hd.txData, hd.busTx, hp, hd.post, hd.inFlight, hd.completed,
    TxData.value, BusTx.value, TxPrepare.value, List.map_nil, List.sum_nil, add_zero]

/-- The calls that do not bring a frame. -/
def UsbOp.works : UsbOp β → Bool
  | .frameTx _ _ => false
  | op => op.fine

/-- Such a call lets submissions succeed. -/
theorem UsbOp.works.fine (h : op.works) : op.fine := by cases op <;> first | exact h | cases h

/-- Each step of the caller leaves less work. -/
theorem txdataStep_works (h : s.txData ≠ .idle) :
    ∃ o t, usbTxdataStep s = some (o, t) ∧ t.work < s.work := by
  rw [usbTxdataStep]
  cases hdata : s.txData with
  | idle => exact absurd hdata h
  | filled u =>
    refine ⟨_, _, rfl, ?_⟩
    simp only [UsbDev.work, hdata, TxData.work, List.length_append, List.length_singleton]
    omega
  | posted =>
    refine ⟨_, _, rfl, ?_⟩
    simp only [UsbDev.work, hdata, TxData.work]
    omega
  | flowCtrl =>
    simp only
    split <;> refine ⟨_, _, rfl, ?_⟩ <;> simp only [UsbDev.work, hdata, TxData.work] <;> omega

/-- The thread has less to do after each step, and with a trigger it has one. -/
theorem bustx_works (hs : Running s) (h : s.busTx = .waiting → s.bustxTrgg ≠ 0) :
    ∃ o t, usbBustxStep s true = some (o, t) ∧ t.work < s.work := by
  rw [usbBustxStep]
  cases hb : s.busTx with
  | waiting =>
    -- it was triggered
    have htrgg := h hb
    simp only [if_neg htrgg]
    refine ⟨_, _, rfl, ?_⟩
    simp only [UsbDev.work, hb, hs.up.2, if_true, BusTx.work]
    omega
  | testing =>
    -- it goes on when something is posted
    refine ⟨_, _, rfl, ?_⟩
    by_cases hpost : 0 < s.txPostCount
    · simp only [UsbDev.work, hb, if_pos hpost, BusTx.work]
      omega
    · simp only [UsbDev.work, hb, if_neg hpost, BusTx.work]
      omega
  | looping =>
    refine ⟨_, _, rfl, ?_⟩
    by_cases hpost : s.txPostList.isEmpty
    · simp only [UsbDev.work, hb, if_pos hpost, BusTx.work]
      omega
    · simp only [UsbDev.work, hb, if_neg hpost, BusTx.work]
      omega
  | stateTest =>
    -- the bus is up
    refine ⟨_, _, rfl, ?_⟩
    simp only [UsbDev.work, hb, hs.up.1, ne_eq, not_true_eq_false, if_false, BusTx.work]
    omega
  | fetching =>
    cases hpost : s.txPostList with
    | nil =>
      refine ⟨_, _, rfl, ?_⟩
      simp only [UsbDev.work, hb, hpost, BusTx.work]
      omega
    | cons u rest =>
      refine ⟨_, _, rfl, ?_⟩
      simp only [UsbDev.work, hb, hpost, BusTx.work, List.length_cons]
      omega
  | submitting u =>
    -- the submission succeeds
    refine ⟨_, _, rfl, ?_⟩
    simp only [UsbDev.work, hb, BusTx.work, List.length_append, List.length_singleton]
    omega
  | failed u => exact absurd hb (hs.thread.2 u)
  | stopped => exact absurd hb hs.thread.1

/-- A completion frees the frame, and is still to give the buffer back. -/
theorem complete_works (h : s.inFlight ≠ []) :
    ∃ o t, usbTxComplete s 0 = some (o, t) ∧ t.work < s.work := by
  obtain ⟨u, rest, hflight⟩ := List.exists_cons_of_ne_nil h
  rw [usbTxComplete, hflight]
  refine ⟨_, _, rfl, ?_⟩
  simp only [UsbDev.work, hflight, List.eraseIdx_zero, List.tail_cons, List.length_append,
    List.length_cons, List.length_nil]
  omega

/-- It gives the buffer back, and is still to test how many are free. -/
theorem giveBack_works (h : s.completed ≠ []) :
    ∃ o t, usbTxGiveBack s 0 = some (o, t) ∧ t.work < s.work := by
  obtain ⟨id, rest, hcompleted⟩ := List.exists_cons_of_ne_nil h
  rw [usbTxGiveBack, hcompleted]
  refine ⟨_, _, rfl, ?_⟩
  simp only [UsbDev.work, usbTxQueueFree, hcompleted, List.eraseIdx_zero, List.tail_cons,
    List.length_cons]
  omega

/-- It tests, and is done. -/
theorem check_works (h : s.checking ≠ 0) :
    ∃ o t, usbTxCheck s = some (o, t) ∧ t.work < s.work := by
  rw [usbTxCheck, if_neg h]
  split <;> refine ⟨_, _, rfl, ?_⟩ <;> simp only [UsbDev.work] <;> omega

/-- Someone can go on, unless nobody has work left. -/
theorem Running.progress (hs : Running s) (hd : ¬Done s) :
    ∃ op o t, op.works ∧ (usbTxMachine β).step s op = some (o, t) ∧ t.work < s.work := by
  -- the caller first, then the thread, then the completions
  by_cases hdata : s.txData = .idle
  swap
  · obtain ⟨o, t, hrun, hlt⟩ := txdataStep_works hdata
    exact ⟨.txdataStep, o, t, rfl, hrun, hlt⟩
  by_cases hthread : s.busTx = .waiting → s.bustxTrgg ≠ 0
  · obtain ⟨o, t, hrun, hlt⟩ := bustx_works hs hthread
    exact ⟨.bustx true, o, t, rfl, hrun, hlt⟩
  by_cases hflight : s.inFlight = []
  swap
  · obtain ⟨o, t, hrun, hlt⟩ := complete_works hflight
    exact ⟨.complete 0, o, t, rfl, hrun, hlt⟩
  by_cases hcompleted : s.completed = []
  swap
  · obtain ⟨o, t, hrun, hlt⟩ := giveBack_works hcompleted
    exact ⟨.giveBack 0, o, t, rfl, hrun, hlt⟩
  by_cases hcheck : s.checking = 0
  swap
  · obtain ⟨o, t, hrun, hlt⟩ := check_works hcheck
    exact ⟨.check, o, t, rfl, hrun, hlt⟩
  -- the thread waits without a trigger, so nothing is posted
  rw [Classical.not_imp, not_not] at hthread
  obtain ⟨hwaiting, htrgg⟩ := hthread
  refine absurd ⟨hdata, hwaiting, htrgg, ?_, hflight, hcompleted, hcheck⟩ hd
  by_contra hne
  have := hs.wake hne
  simp [htrgg, hwaiting, hdata] at this

/-- The calls that bring no frame accept none. -/
theorem accepts_works (hop : op.works) (h : (usbTxMachine β).step s op = some (o, t)) :
    accepts o = [] := by
  cases op with
  | frameTx frame cfm => cases hop
  | txdataStep =>
    simp only [usbTxMachine, usbTxdataStep] at h
    split at h
    · cases h
    · cases h
      rfl
    · cases h
      rfl
    · split at h <;> cases h <;> rfl
  | bustx submitted =>
    simp only [usbTxMachine, usbBustxStep] at h
    split at h
    · split at h <;> cases h
      rfl
    · cases h
      rfl
    · cases h
      rfl
    · cases h
      rfl
    · split at h <;> cases h <;> rfl
    · split at h <;> cases h <;> rfl
    · cases h
      rfl
    · cases h
  | complete n =>
    obtain ⟨u, hu, heq⟩ := Option.map_eq_some_iff.mp h
    cases heq
    rw [accepts]
    cases u.cfm <;> rfl
  | giveBack n =>
    obtain ⟨id, hid, heq⟩ := Option.map_eq_some_iff.mp h
    cases heq
    rfl
  | check =>
    simp only [usbTxMachine, usbTxCheck] at h
    split at h
    · cases h
    · split at h <;> cases h <;> rfl
  | suspend | busStop => cases hop
  | busStart =>
    simp only [usbTxMachine] at h
    split at h <;> cases h
    rfl
  | prepareStep =>
    simp only [usbTxMachine, usbTxPrepareStep] at h
    split at h
    · cases h
    · cases h
      rfl
    · split at h <;> cases h
      rfl
    · cases h
      rfl

/-- The bus is up, and nothing is posted. -/
theorem running_init : Running (UsbDev.init : UsbDev β) where
  flow := ⟨nofun, fun h => absurd h (show ¬aicwfUsbTxUrbs < aicwfUsbTxLowWater by decide)⟩
  free := List.length_range.symm
  post := rfl
  up := ⟨rfl, rfl⟩
  prepare := rfl
  thread := ⟨nofun, fun _ => nofun⟩
  wake h := absurd rfl h

/-- While submissions succeed and the bus stays up, nothing can get stuck: whatever has interleaved
so far, the caller, the thread and the completions can finish, and then every frame that was
accepted has been submitted, in order, all memory is freed, all buffers are free and the network
queues run. -/
theorem usb_tx_drains {ops : List (UsbOp β)} (hops : ∀ op ∈ ops, op.fine)
    (h : (usbTxMachine β).trace UsbDev.init ops = some (acts, s)) :
    ∃ ops' acts' t, (∀ op ∈ ops', op.works) ∧
      (usbTxMachine β).trace s ops' = some (acts', t) ∧
      submits (acts ++ acts') = accepts acts ∧
      (freed (acts ++ acts')).Perm (owned (acts ++ acts')) ∧
      t.txFreeList.Perm (List.range aicwfUsbTxUrbs) ∧ t.tbusy = false ∧
      netStopped (acts ++ acts') = false := by
  -- nothing is stuck so far
  have hs : (∀ op ∈ ops, op.fine) → Running s := by
    refine Machine.trace_inv
      (P := fun ops (_ : List (UsbAct β)) s => (∀ op ∈ ops, op.fine) → Running s)
      (fun ops _ s op o t hs hstep hops => ?_) (fun _ => running_init) h
    obtain ⟨hops, hop⟩ := List.forall_mem_append.mp hops
    exact (hs hops).step (hop op (List.mem_singleton_self op)) hstep
  obtain ⟨ops', acts', t, hworks, hrun, ht, hd⟩ := Machine.trace_reaches (μ := UsbDev.work)
    (P := fun op : UsbOp β => op.works = true) (fun s hs hd => by
      obtain ⟨op, o, t, hop, hstep, hlt⟩ := Running.progress hs hd
      exact ⟨op, o, t, hop, hstep, hs.step (UsbOp.works.fine hop) hstep, hlt⟩) (hs hops)
  have hall := Machine.trace_append h hrun
  have hfine : ∀ op ∈ ops ++ ops', op.fine := List.forall_mem_append.mpr
    ⟨hops, fun op hop => UsbOp.works.fine (hworks op hop)⟩
  have hkeeps : (usbTxMachine β).Guarded (fun s op => op.keeps s = true) UsbDev.init
      (ops ++ ops') :=
    Machine.guarded_of_inv (fun _ _ => Running.keeps) (fun _ _ _ _ => Running.step) running_init
      hfine
  have hchecked : (usbTxMachine β).Guarded (fun s op => op.checked s = true) UsbDev.init
      (ops ++ ops') :=
    Machine.guarded_of_inv (fun _ _ hs _ => hs.checked) (fun _ _ _ _ => Running.step) running_init
      hfine
  -- what is accepted was accepted before
  have hquiet : accepts acts' = [] := by
    refine Machine.trace_inv (P := fun ops acts (_ : UsbDev β) =>
      (∀ op ∈ ops, UsbOp.works op) → accepts acts = []) (fun ops acts s op o t hs hstep hk => ?_)
      (fun _ => rfl) hrun hworks
    obtain ⟨hk, hop⟩ := List.forall_mem_append.mp hk
    rw [accepts_append, hs hk, accepts_works (hop op (List.mem_singleton_self op)) hstep]
    rfl
  -- no buffer is in use, so all are free
  have hfree : t.txFreeList.Perm (List.range aicwfUsbTxUrbs) := by
    have hbuffers := (Counted.run hall).buffers
    rw [hd.value ht.prepare] at hbuffers
    exact Multiset.coe_eq_coe.mp
      ((Multiset.sum_map_singleton (t.txFreeList : Multiset ℕ)).symm.trans hbuffers)
  -- with all buffers free and nobody about to test, the queues cannot be stopped
  have hbusy : t.tbusy = false := by
    have hcount : t.txFreeCount = aicwfUsbTxUrbs := by
      rw [ht.free, hfree.length_eq, List.length_range]
    refine Bool.eq_false_iff.mpr fun hbusy => ?_
    rcases ht.flow.busy hbusy with hle | hcheck
    · exact absurd (hcount ▸ hle) (by decide)
    · exact absurd hd.checking hcheck.ne'
  refine ⟨ops', acts', t, hworks, hrun, ?_, ?_, hfree, hbusy,
    (netStopped_eq hchecked hall).trans hbusy⟩
  · have hsubmits := submits_pending hkeeps hall
    rwa [accepts_append, hquiet, List.append_nil, hd.pending, List.append_nil] at hsubmits
  · have hmem := memory_balance hkeeps hall
    rw [UsbDev.memory, hd.value ht.prepare, List.map_const', List.sum_replicate, nsmul_zero,
      add_zero] at hmem
    exact (Multiset.coe_eq_coe.mp hmem).symm

/-- The thread has gone to sleep again, and a second frame is posted. -/
def usbPostedRun : List (UsbOp ℕ) :=
  [.frameTx 7 false, .txdataStep, .txdataStep, .txdataStep, .bustx true, .bustx true, .bustx true,
    .bustx true, .bustx true, .bustx true, .bustx true, .frameTx 8 true, .txdataStep]

/-- The thread sleeps, and the caller is about to trigger it. -/
theorem usb_tx_drains_posted :
    ∃ acts s, (usbTxMachine ℕ).trace UsbDev.init usbPostedRun = some (acts, s) ∧
      ∃ ops' acts' t, (∀ op ∈ ops', op.works) ∧
        (usbTxMachine ℕ).trace s ops' = some (acts', t) ∧
        submits (acts ++ acts') = accepts acts ∧
        (freed (acts ++ acts')).Perm (owned (acts ++ acts')) ∧
        t.txFreeList.Perm (List.range aicwfUsbTxUrbs) ∧ t.tbusy = false ∧
        netStopped (acts ++ acts') = false := by
  have hops : ∀ op ∈ usbPostedRun, op.fine := by decide
  exact ⟨_, _, rfl, usb_tx_drains hops rfl⟩

end LonganPi.Wifi
