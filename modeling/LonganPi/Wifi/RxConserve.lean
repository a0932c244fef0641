import LonganPi.Lib.Accounts
import LonganPi.Wifi.RxSystem

/-!
# What becomes of a received frame

Every buffer that comes in is handed on once, freed once or held, and every descriptor is in the
free queue, in one list or lost (`rx_conserved`). The ways out that the code misses are named:
`RxFrame.stray` are the buffers that `rwnx_rxdataind_aicwf` drops without freeing them, and a
descriptor is lost when `reord_init_sta` fails.

The accounts are multisets. A control block exchanges a frame for outputs and a new list
(`reordUnit_perm`), and what holds of a block holds of the sum over all of them (`held_onCtrl`).
-/

open DriverLib

namespace LonganPi.Wifi

variable {α β : Type*}

/-! ### One control block -/

/-- An insertion adds the frame and loses none. -/
theorem enqueue_perm {f : RecvMsdu α} {l l' : List (RecvMsdu α)}
    (h : reordRxframeEnqueue f l = some l') : l'.Perm (f :: l) := by
  induction l generalizing l' with
  | nil =>
    rw [← Option.some.inj h]
  | cons g l ih =>
    rw [reordRxframeEnqueue] at h
    split at h
    · obtain ⟨l'', hl, rfl⟩ := Option.map_eq_some_iff.mp h
      exact ((ih hl).cons g).trans (List.Perm.swap f g l)
    · split at h
      · cases h
      · rw [← Option.some.inj h]

/-- `reord_need_check` writes `ind_sn` only. -/
theorem needCheck_snd (c : ReordCtrl α) (x : BitVec 16) :
    ∃ i, (reordNeedCheck c x).2 = { c with indSn := i } := by
  unfold reordNeedCheck
  simp only
  repeat' split
  all_goals exact ⟨_, rfl⟩

/-- So does the walk. -/
theorem process_snd (c : ReordCtrl α) (b : Bool) :
    ∃ t i, reordRxframesProcess c b = (t, { c with indSn := i }) := by
  unfold reordRxframesProcess
  split
  · exact ⟨false, c.indSn, rfl⟩
  · cases b <;> exact ⟨_, _, rfl⟩

/-- What leaves and what stays are the list. -/
theorem ind_perm (c : ReordCtrl α) :
    ((reordRxframesInd c).1 ++ (reordRxframesInd c).2.reordList) = c.reordList :=
  List.takeWhile_append_dropWhile

theorem map_val_inOrder (l : List α) : (l.map Output.inOrder).map Output.val = l := by
  rw [List.map_map]
  exact List.map_id l

/-- A frame comes in; what goes out and what stays are the frame and what was there. -/
theorem reordUnit_perm (c : ReordCtrl α) (f : RecvMsdu α) :
    ((reordUnit c f).1.map Output.val ++ (reordUnit c f).2.reordList).Perm (f :: c.reordList) := by
  obtain ⟨i, hi⟩ := needCheck_snd c f.seqNum.val
  have hcheck : reordNeedCheck c f.seqNum.val =
      ((reordNeedCheck c f.seqNum.val).1, { c with indSn := i }) := by rw [← hi]
  cases hlate : (reordNeedCheck c f.seqNum.val).1 with
  | true =>
    rw [hlate] at hcheck
    rw [reordUnit_late hcheck]
    exact List.Perm.refl _
  | false =>
    rw [hlate] at hcheck
    cases henq : reordRxframeEnqueue f c.reordList with
    | none =>
      rw [reordUnit_duplicate hcheck henq]
      exact List.Perm.refl _
    | some l =>
      obtain ⟨b, j, hj⟩ := process_snd { c with indSn := i, reordList := l } false
      rw [reordUnit_placed hcheck henq hj, map_val_inOrder, ind_perm]
      exact enqueue_perm henq

/-- The worker only releases: what goes out and what stays were there. -/
theorem reordTimeoutWorker_perm (c : ReordCtrl α) :
    (reordTimeoutWorker c).1.map Output.val ++ (reordTimeoutWorker c).2.reordList =
      c.reordList := by
  obtain ⟨b, j, hj⟩ := process_snd c true
  rw [reordTimeoutWorker_cons hj, map_val_inOrder, ind_perm]

/-! ### All control blocks -/

/-- The frames that a control block, a station or a list of stations holds. -/
def CtrlSlot.held (x : CtrlSlot β) : Multiset (RecvMsdu (SkBuff β)) := x.ctrl.reordList

def ReordCtrlInfo.held (i : ReordCtrlInfo β) : Multiset (RecvMsdu (SkBuff β)) :=
  ∑ t, (i.preorderCtrl t).held

def heldBy (l : List (ReordCtrlInfo β)) : Multiset (RecvMsdu (SkBuff β)) :=
  (l.map ReordCtrlInfo.held).sum

/-- The frames that a removal frees, TID after TID, are all that the station holds. -/
theorem frames_eq_held (i : ReordCtrlInfo β) : (i.frames : Multiset _) = i.held := by
  rw [ReordCtrlInfo.held, ReordCtrlInfo.frames, ← Multiset.coe_bind]
  rfl

section OnCtrl

variable {γ : Type*} {mac : BitVec 48} {tid : Fin 8} {g : CtrlSlot β → Option (γ × CtrlSlot β)}
  {l l' : List (ReordCtrlInfo β)} {r : γ}

/-- Where the control block stands in the list of the stations. -/
theorem onCtrl_spec (h : onCtrl mac tid g l = some (r, l')) :
    ∃ l₁ i l₂ x, l = l₁ ++ i :: l₂ ∧ i.macAddr = mac ∧ g (i.preorderCtrl tid) = some (r, x) ∧
      l' = l₁ ++ { i with preorderCtrl := Function.update i.preorderCtrl tid x } :: l₂ := by
  induction l generalizing l' with
  | nil => exact nomatch h
  | cons i l ih =>
    rw [onCtrl] at h
    split at h
    · next hmac =>
      -- the station that is looked for, with its one block replaced
      obtain ⟨⟨r', x⟩, hg, heq⟩ := Option.map_eq_some_iff.mp h
      obtain ⟨rfl, rfl⟩ := Prod.mk.inj heq
      exact ⟨[], i, l, x, rfl, hmac, hg, rfl⟩
    · obtain ⟨⟨r', l''⟩, hl, heq⟩ := Option.map_eq_some_iff.mp h
      obtain ⟨rfl, rfl⟩ := Prod.mk.inj heq
      obtain ⟨l₁, j, l₂, x, rfl, hmac, hg, rfl⟩ := ih hl
      exact ⟨i :: l₁, j, l₂, x, rfl, hmac, hg, rfl⟩

/-- The frames of two lists of stations. -/
theorem heldBy_append (l₁ l₂ : List (ReordCtrlInfo β)) :
    heldBy (l₁ ++ l₂) = heldBy l₁ + heldBy l₂ := by
  rw [heldBy, List.map_append, List.sum_append]
  rfl

/-- What a step on one block takes from `A` and its list, and puts into `o` and its list, it does
for all blocks together. -/
theorem held_onCtrl {o : γ → Multiset (RecvMsdu (SkBuff β))}
    {A : Multiset (RecvMsdu (SkBuff β))}
    (hg : ∀ x r x', g x = some (r, x') → o r + x'.held = A + x.held)
    (h : onCtrl mac tid g l = some (r, l')) : o r + heldBy l' = A + heldBy l := by
  obtain ⟨l₁, i, l₂, x, rfl, -, hx, rfl⟩ := onCtrl_spec h
  have hupd := sum_update_add CtrlSlot.held i.preorderCtrl tid x
  exact add_right_cancel (sum_replace_add l₁ l₂ hupd (hg _ _ _ hx))

end OnCtrl

/-! ### Accounts of the receive path -/

/-- The buffers of the frames that are held. -/
def RxPriv.pkts (s : RxPriv β) : Multiset (SkBuff β) :=
  (heldBy s.stasReordList).map RecvMsdu.pkt

/-- The buffer in the hands of the receive thread. -/
def RxPriv.inHand (s : RxPriv β) : Multiset (SkBuff β) :=
  (s.flushing.map fun p => p.next.skb).toList

/-- All descriptors. -/
def RxPriv.descriptors (s : RxPriv β) : Multiset ℕ :=
  (s.rxframesFreequeue : Multiset ℕ) + (heldBy s.stasReordList).map RecvMsdu.id +
    (s.lost : Multiset ℕ)

/-- A step takes in `A`, and every buffer and descriptor is still somewhere. -/
structure Moves (s : RxPriv β) (A : Multiset (SkBuff β)) (acts : List (RxAct β)) (s' : RxPriv β) :
    Prop where
  skbs : ((acts.map RxAct.skb : List (SkBuff β)) : Multiset (SkBuff β)) + s'.pkts + s'.inHand =
    A + s.pkts + s.inHand
  descs : s'.descriptors = s.descriptors

/-- Whatever becomes of an output, it is done with the buffer of its frame. -/
theorem singleFrameInd_skb (o : Output (RecvMsdu (SkBuff β))) :
    (singleFrameInd o).skb = o.val.pkt := by
  cases o with
  | late f =>
    cases hf : f.forward <;> simp only [singleFrameInd, hf] <;> rfl
  | inOrder f =>
    cases hf : f.forward <;> simp only [singleFrameInd, hf] <;> rfl
  | duplicate f => rfl

/-- The frames of outputs. -/
def framesOf (outs : List (Output (RecvMsdu (SkBuff β)))) : Multiset (RecvMsdu (SkBuff β)) :=
  (outs.map Output.val : List (RecvMsdu (SkBuff β)))

/-- The buffers that go out are those of the frames. -/
theorem acts_skb (outs : List (Output (RecvMsdu (SkBuff β)))) :
    (((outs.map singleFrameInd).map RxAct.skb : List (SkBuff β)) : Multiset (SkBuff β)) =
      (framesOf outs).map RecvMsdu.pkt := by
  rw [framesOf, Multiset.map_coe, List.map_map, List.map_map]
  congr 1
  exact List.map_congr_left fun o _ => singleFrameInd_skb o

section GiveBack

variable {s : RxPriv β} {outs : List (Output (RecvMsdu (SkBuff β)))}
  {stas : List (ReordCtrlInfo β)} {F : Multiset (RecvMsdu (SkBuff β))}

/-- The buffers of the outputs of control blocks go out. -/
theorem giveBack_skbs (h : framesOf outs + heldBy stas = F + heldBy s.stasReordList) :
    (((outs.map singleFrameInd).map RxAct.skb : List (SkBuff β)) : Multiset (SkBuff β)) +
      ({ s with stasReordList := stas }.giveBack outs).pkts = F.map RecvMsdu.pkt + s.pkts := by
  rw [acts_skb]
  change (framesOf outs).map _ + (heldBy stas).map _ = _
  rw [← Multiset.map_add, h, Multiset.map_add]
  rfl

/-- Their descriptors go back. -/
theorem giveBack_descs (h : framesOf outs + heldBy stas = F + heldBy s.stasReordList) :
    ({ s with stasReordList := stas }.giveBack outs).descriptors =
      F.map RecvMsdu.id + s.descriptors := by
  have hfree : (((outs.map fun o => o.val.id).reverse ++ s.rxframesFreequeue : List ℕ) :
      Multiset ℕ) = (framesOf outs).map RecvMsdu.id + (s.rxframesFreequeue : Multiset ℕ) := by
    rw [← Multiset.coe_add, Multiset.coe_reverse, framesOf, Multiset.map_coe, List.map_map]
    rfl
  change (((outs.map fun o => o.val.id).reverse ++ s.rxframesFreequeue : List ℕ) :
      Multiset ℕ) + (heldBy stas).map _ + (s.lost : Multiset ℕ) = _
  rw [hfree, RxPriv.descriptors]
  calc (framesOf outs).map RecvMsdu.id + (s.rxframesFreequeue : Multiset ℕ) +
        (heldBy stas).map RecvMsdu.id + (s.lost : Multiset ℕ)
      = (framesOf outs + heldBy stas).map RecvMsdu.id +
          ((s.rxframesFreequeue : Multiset ℕ) + (s.lost : Multiset ℕ)) := by
        rw [Multiset.map_add]
        abel
    _ = _ := by
        rw [h, Multiset.map_add]
        abel

end GiveBack

/-- A buffer that comes in and goes out at once. -/
theorem moves_one (s : RxPriv β) (a : RxAct β) : Moves s {a.skb} [a] s := ⟨rfl, rfl⟩

/-! ### The functions -/

/-- A frame that comes to a block goes out or stays, and with it what is released. -/
theorem processUnit_held (x : CtrlSlot β) (f : RecvMsdu (SkBuff β)) :
    framesOf (x.processUnit f).1 + (x.processUnit f).2.held = {f} + x.held := by
  -- starting a block again leaves its list
  have hlist : x.ctrl.reenable.reordList = x.ctrl.reordList := by
    unfold ReordCtrl.reenable
    split <;> rfl
  rw [CtrlSlot.processUnit]
  split
  · -- a block that is not enabled hands the frame on
    change _ + (x.ctrl.reenable.reordList : Multiset (RecvMsdu (SkBuff β))) = _
    rw [hlist]
    rfl
  · have hperm := Multiset.coe_eq_coe.mpr (reordUnit_perm x.ctrl.reenable f)
    rw [← Multiset.coe_add, hlist] at hperm
    exact hperm

/-- `reord_init_sta` sets up a station that holds nothing. -/
theorem heldBy_init {busUp kmalloc : Bool} {mac : BitVec 48} {i : ReordCtrlInfo β}
    (h : reordInitSta busUp kmalloc mac = some i) : heldBy [i] = 0 := by
  rw [reordInitSta] at h
  split at h
  · cases h
  · rw [← Option.some.inj h]
    rfl

/-- `reord_process_unit` frees the buffer when it cannot be queued; otherwise its block accounts for
it. -/
theorem reordProcessUnit_moves (s : RxPriv β) (skb : SkBuff β) (seqNum : SeqNum) (tid : Fin 8)
    (forward kmalloc : Bool) :
    Moves s {skb} (reordProcessUnit s skb seqNum tid forward kmalloc).2.1
      (reordProcessUnit s skb seqNum tid forward kmalloc).2.2 := by
  unfold reordProcessUnit
  split
  · exact moves_one s (.kfreeSkb skb)
  · split
    · exact moves_one s (.kfreeSkb skb)
    · split
      · exact moves_one s (.kfreeSkb skb)
      · next id freequeue hfree =>
        -- the descriptor is lost
        have hfailed : Moves s {skb} [.kfreeSkb skb]
            { s with rxframesFreequeue := freequeue, lost := id :: s.lost } := by
          refine ⟨rfl, ?_⟩
          rw [RxPriv.descriptors, RxPriv.descriptors, hfree, ← Multiset.cons_coe,
            ← Multiset.cons_coe, Multiset.add_cons, Multiset.cons_add, Multiset.cons_add]
        simp only
        split
        · exact hfailed
        · split
          · exact hfailed
          · next new hnew =>
            split
            · exact hfailed
            · next outs stas hctrl =>
              -- the block is found: it exchanges the frame for what it releases
              have hzero : heldBy new = 0 := by
                split at hnew
                · rw [← Option.some.inj hnew]
                  rfl
                · obtain ⟨i, hi, rfl⟩ := Option.map_eq_some_iff.mp hnew
                  exact heldBy_init hi
              have hheld := held_onCtrl (o := framesOf) (A := {_}) (fun x r x' h => by
                obtain ⟨rfl, rfl⟩ := Prod.mk.inj (Option.some.inj h)
                exact processUnit_held x _) hctrl
              rw [heldBy_append, hzero, add_zero] at hheld
              have hskbs := giveBack_skbs (s := { s with rxframesFreequeue := freequeue }) hheld
              have hdescs := giveBack_descs (s := { s with rxframesFreequeue := freequeue }) hheld
              refine ⟨congrArg (· + s.inHand) hskbs, hdescs.trans ?_⟩
              rw [RxPriv.descriptors, RxPriv.descriptors, hfree, ← Multiset.cons_coe,
                Multiset.map_singleton, ← Multiset.singleton_add]
              abel

/-- A flush releases the whole list. -/
theorem flushList_held {x x' : CtrlSlot β} {outs : List (Output (RecvMsdu (SkBuff β)))}
    (h : x.flushList = some (outs, x')) : framesOf outs + x'.held = 0 + x.held := by
  rw [CtrlSlot.flushList] at h
  split at h
  · cases h
  · obtain ⟨rfl, rfl⟩ := Prod.mk.inj (Option.some.inj h)
    rw [framesOf, map_val_inOrder, zero_add]
    exact add_zero _

/-- A flush empties one list; `next` is done at once, or is in the hands of the thread. -/
theorem reordFlushTid_moves {s : RxPriv β} {skb : SkBuff β} {tid : Fin 8} {next : RxAct β}
    (hidle : s.flushing = none) (hnext : next.skb = skb) :
    Moves s {skb} (reordFlushTid s skb tid next).1 (reordFlushTid s skb tid next).2 := by
  unfold reordFlushTid
  split
  · exact moves_one s (.kfreeSkb skb)
  · split
    · rw [← hnext]
      exact moves_one s next
    · next outs stas hctrl =>
      have hheld := held_onCtrl (o := framesOf) (A := 0) (fun x r x' h => flushList_held h) hctrl
      constructor
      · have hskbs := giveBack_skbs hheld
        rw [Multiset.map_zero, zero_add] at hskbs
        -- the thread had nothing in hand before
        have hhand : s.inHand = 0 := by
          rw [RxPriv.inHand, hidle]
          rfl
        rw [hhand, ← hnext]
        exact (congrArg (· + ({next.skb} : Multiset (SkBuff β))) hskbs).trans
          ((add_comm _ _).trans (add_zero _).symm)
      · refine (giveBack_descs hheld).trans ?_
        rw [Multiset.map_zero, zero_add]

/-- The data frames on an interface that are neither handed on nor freed: a frame on an interface
that is not served, and one from a station to a station of the same access point outside a QoS
session. -/
def DataFrame.stray (iftype : Iftype) (r : DataFrame β) : Bool :=
  match iftype with
  | .station | .p2pClient => false
  | .ap | .p2pGo => !isMulticast r.skb.hDest && r.inBss && !r.isQos
  | .monitor | .other => true

/-- The buffers that `rwnx_rxdataind_aicwf` neither hands on nor frees: besides those on an
interface, a frame that is not for the stack and that no monitor interface gets. -/
def RxFrame.stray (hw : RxTables) (r : RxFrame β) : Bool :=
  if r.hdr.flagsUpload then
    !r.hdr.flagsIs80211Mpdu && (r.vif hw).any fun v => (r.onVif hw v).stray v.iftype
  else !(r.hdr.isMonitorVif && (rwnxRxGetVif hw hw.monitorVif).isSome)

/-- The branch of a data frame. A QoS frame is queued, or flushes its TID and then goes the way of
`n`; the others go the way of `p`. -/
theorem rxBranch_moves {s : RxPriv β} (hidle : s.flushing = none) (r : DataFrame β)
    (forward kmalloc : Bool) {n : RxAct β} {p : List (RxAct β)} (hnext : n.skb = r.skb)
    {A : Multiset (SkBuff β)} (hqos : r.isQos = true → A = {r.skb})
    (hplain : r.isQos = false → A = (p.map RxAct.skb : List (SkBuff β))) :
    Moves s A (rxBranch s r forward kmalloc n p).1
      (rxBranch s r forward kmalloc n p).2 := by
  unfold rxBranch
  split
  · next h =>
    rw [hqos (Bool.and_eq_true_iff.mp h).1]
    exact reordProcessUnit_moves s r.skb r.seqNum r.tid forward kmalloc
  · split
    · next h =>
      rw [hqos h]
      exact reordFlushTid_moves hidle hnext
    · next h =>
      rw [hplain (Bool.eq_false_iff.mpr h)]
      exact ⟨rfl, rfl⟩

/-- The branch of a frame that goes to the stack. -/
theorem rxBranch_up_moves {s : RxPriv β} (hidle : s.flushing = none) (r : DataFrame β)
    (kmalloc : Bool) :
    Moves s {r.skb} (rxBranch s r true kmalloc (.dataSkb r.skb) [.dataSkb r.skb]).1
      (rxBranch s r true kmalloc (.dataSkb r.skb) [.dataSkb r.skb]).2 :=
  rxBranch_moves hidle r true kmalloc rfl (fun _ => rfl) fun _ => rfl

/-- On an access point, what is not for another of its stations goes to the stack. -/
theorem rxApBranch_moves {s : RxPriv β} (hidle : s.flushing = none) (r : DataFrame β)
    (kmalloc : Bool) :
    Moves s (if r.stray .ap then 0 else {r.skb}) (rxApBranch s r kmalloc).1
      (rxApBranch s r kmalloc).2 := by
  have hstray : r.stray .ap = (!isMulticast r.skb.hDest && r.inBss && !r.isQos) := rfl
  rw [rxApBranch, hstray]
  cases hm : isMulticast r.skb.hDest with
  | true => exact rxBranch_up_moves hidle r kmalloc
  | false =>
    cases hb : r.inBss with
    | false => exact rxBranch_up_moves hidle r kmalloc
    | true =>
      -- between stations of the access point: without QoS, nobody frees the buffer
      have hdown := rxBranch_moves (s := s) (A := if !r.isQos then 0 else {r.skb}) hidle r false
        kmalloc (n := .kfreeSkb r.skb) (p := []) rfl
      refine hdown (fun hq => ?_) fun hq => ?_
      · rw [hq]
        rfl
      · rw [hq]
        rfl

/-- On each kind of interface a frame is accounted for, unless it strays. -/
theorem rxOnVif_moves {s : RxPriv β} (hidle : s.flushing = none) (iftype : Iftype)
    (r : DataFrame β) (kmalloc : Bool) :
    Moves s (if r.stray iftype then 0 else {r.skb}) (rxOnVif s iftype r kmalloc).1
      (rxOnVif s iftype r kmalloc).2 := by
  -- the interface that is noted on the way is in no account
  suffices H : Moves { s with rwnxVif := some iftype } (if r.stray iftype then 0 else {r.skb})
      (rxOnVif s iftype r kmalloc).1 (rxOnVif s iftype r kmalloc).2 from ⟨H.skbs, H.descs⟩
  have hup := rxBranch_up_moves (s := { s with rwnxVif := some iftype }) hidle r kmalloc
  have hap := rxApBranch_moves (s := { s with rwnxVif := some iftype }) hidle r kmalloc
  cases iftype with
  | station => exact hup
  | p2pClient => exact hup
  | ap => exact hap
  | p2pGo => exact hap
  | monitor => exact ⟨rfl, rfl⟩
  | other => exact ⟨rfl, rfl⟩

section Dataind

variable {s s' : RxPriv β} {hw : RxTables} {r : RxFrame β} {kmalloc : Bool} {acts : List (RxAct β)}

/-- A frame for the stack that is raw or comes for no interface is freed. -/
theorem rxForward_moves (hidle : s.flushing = none) (hup : r.hdr.flagsUpload = true) :
    Moves s (if r.stray hw then 0 else {r.skb}) (rxForward s hw r kmalloc).1
      (rxForward s hw r kmalloc).2 := by
  rw [RxFrame.stray, if_pos hup, rxForward]
  cases hmpdu : r.hdr.flagsIs80211Mpdu with
  | true => exact moves_one s (.kfreeSkb r.skb)
  | false =>
    cases hvif : r.vif hw with
    | none => exact moves_one s (.kfreeSkb r.skb)
    | some v => exact rxOnVif_moves hidle v.iftype (r.onVif hw v) kmalloc

/-- A frame for the stack as well goes on only when there is no monitor interface. -/
theorem rxMonitor_of_upload (hup : r.hdr.flagsUpload = true)
    (h : rxMonitor hw r kmalloc = some acts) : acts = [] := by
  rw [rxMonitor] at h
  split at h
  · exact (Option.some.inj h).symm
  · rw [if_pos hup] at h
    cases h

/-- The monitor interface gets the buffer, or a copy, and then the buffer is freed. -/
theorem rxMonitor_skbs (hup : r.hdr.flagsUpload = false)
    (h : rxMonitor hw r kmalloc = some acts) :
    acts.map RxAct.skb = if (rwnxRxGetVif hw hw.monitorVif).isSome then [r.skb] else [] := by
  rw [rxMonitor] at h
  cases hvif : rwnxRxGetVif hw hw.monitorVif with
  | none =>
    rw [hvif] at h
    rw [← Option.some.inj h]
    rfl
  | some v =>
    rw [hvif] at h
    simp only [hup, Bool.false_eq_true, if_false] at h
    rw [Option.isSome_some, if_pos rfl]
    split at h
    · rw [← Option.some.inj h]
      split <;> rfl
    · split at h
      · rw [← Option.some.inj h]
        rfl
      · cases h

/-- A frame is in the accounts afterwards, unless it strays. -/
theorem rxdataind_moves (hidle : s.flushing = none)
    (h : rxdataind s hw r kmalloc = some (acts, s')) :
    Moves s (if r.stray hw then 0 else {r.skb}) acts s' := by
  obtain ⟨mon, hmon, heq⟩ := Option.map_eq_some_iff.mp h
  cases hup : r.hdr.flagsUpload with
  | true =>
    -- a frame for the stack: no monitor interface took it before
    obtain rfl : mon = [] := by
      split at hmon
      · exact rxMonitor_of_upload hup hmon
      · exact (Option.some.inj hmon).symm
    rw [if_pos hup] at heq
    obtain ⟨rfl, rfl⟩ := Prod.mk.inj heq
    exact rxForward_moves hidle hup
  | false =>
    rw [if_neg (by rw [hup]; exact Bool.false_ne_true)] at heq
    obtain ⟨rfl, rfl⟩ := Prod.mk.inj heq
    -- only the monitor interface can take it; without one, it strays
    refine ⟨congrArg (· + s.pkts + s.inHand) ?_, rfl⟩
    rw [RxFrame.stray, hup, if_neg Bool.false_ne_true]
    cases hm : r.hdr.isMonitorVif with
    | false =>
      rw [hm, if_neg Bool.false_ne_true] at hmon
      rw [← Option.some.inj hmon]
      rfl
    | true =>
      rw [hm, if_pos rfl] at hmon
      rw [rxMonitor_skbs hup hmon, Bool.true_and]
      cases (rwnxRxGetVif hw hw.monitorVif).isSome <;> rfl

end Dataind

/-- The worker takes nothing in. -/
theorem timeoutWorker_held {x x' : CtrlSlot β} {outs : List (Output (RecvMsdu (SkBuff β)))}
    (h : x.timeoutWorker = some (outs, x')) : framesOf outs + x'.held = 0 + x.held := by
  rw [CtrlSlot.timeoutWorker] at h
  split at h
  · obtain ⟨rfl, rfl⟩ := Prod.mk.inj (Option.some.inj h)
    have hperm := congrArg (fun l : List _ => (l : Multiset (RecvMsdu (SkBuff β))))
      (reordTimeoutWorker_perm x.ctrl)
    rw [zero_add]
    exact (Multiset.coe_add _ _).trans hperm
  · cases h

/-- A change of what is pending or in flight for a control block. -/
inductive CtrlSlot.Signals (x x' : CtrlSlot β) : Prop
  | expire (h : x.expire = some ((), x'))
  | timeoutHandler (busUp : Bool) (h : x.timeoutHandler busUp = some ((), x'))
  | startWork (h : x.startWork = some ((), x'))
  | flushDone (h : x.flushDone = some ((), x'))

/-- It leaves the list. -/
theorem CtrlSlot.Signals.held {x x' : CtrlSlot β} (h : x.Signals x') : x'.held = x.held := by
  cases h
  case expire h =>
    rw [CtrlSlot.expire] at h
    split at h
    · obtain ⟨-, rfl⟩ := Prod.mk.inj (Option.some.inj h)
      rfl
    · cases h
  case timeoutHandler h =>
    rw [CtrlSlot.timeoutHandler] at h
    split at h
    · obtain ⟨-, rfl⟩ := Prod.mk.inj (Option.some.inj h)
      rfl
    · cases h
  case startWork h =>
    rw [CtrlSlot.startWork] at h
    split at h
    · obtain ⟨-, rfl⟩ := Prod.mk.inj (Option.some.inj h)
      rfl
    · cases h
  case flushDone h =>
    rw [CtrlSlot.flushDone] at h
    split at h
    · obtain ⟨-, rfl⟩ := Prod.mk.inj (Option.some.inj h)
      rfl
    · cases h

/-- A signal to one block moves no frame of any block. -/
theorem signal_heldBy {mac : BitVec 48} {tid : Fin 8} {g : CtrlSlot β → Option (Unit × CtrlSlot β)}
    {l : List (ReordCtrlInfo β)} {r : Unit × List (ReordCtrlInfo β)}
    (hg : ∀ x x', g x = some ((), x') → x.Signals x') (h : onCtrl mac tid g l = some r) :
    heldBy r.2 = heldBy l := by
  have hheld := held_onCtrl (o := fun _ => 0) (A := 0) (fun x _ x' hx => by
    rw [(hg x x' hx).held]) h
  rwa [zero_add, zero_add] at hheld

/-- Nor any buffer or descriptor. -/
theorem signal_moves {s s' : RxPriv β} {mac : BitVec 48} {tid : Fin 8}
    {g : CtrlSlot β → Option (Unit × CtrlSlot β)} {acts : List (RxAct β)}
    (hg : ∀ x x', g x = some ((), x') → x.Signals x')
    (h : s.signal mac tid g = some (acts, s')) : Moves s 0 acts s' := by
  obtain ⟨r, hctrl, heq⟩ := Option.map_eq_some_iff.mp h
  obtain ⟨rfl, rfl⟩ := Prod.mk.inj heq
  have hheld := signal_heldBy hg hctrl
  constructor
  · change 0 + (heldBy r.2).map _ + s.inHand = _
    rw [hheld]
    rfl
  · change _ + (heldBy r.2).map _ + _ = _
    rw [hheld]
    rfl

/-- Where the station stands that is removed. -/
theorem takeSta_spec {mac : BitVec 48} {l l' : List (ReordCtrlInfo β)} {i : ReordCtrlInfo β}
    (h : takeSta mac l = some (i, l')) :
    ∃ l₁ l₂, l = l₁ ++ i :: l₂ ∧ i.macAddr = mac ∧ l' = l₁ ++ l₂ := by
  induction l generalizing l' with
  | nil => exact nomatch h
  | cons j l ih =>
    rw [takeSta] at h
    split at h
    · next hmac =>
      obtain ⟨rfl, rfl⟩ := Prod.mk.inj (Option.some.inj h)
      exact ⟨[], l, rfl, hmac, rfl⟩
    · obtain ⟨⟨i', l''⟩, hl, heq⟩ := Option.map_eq_some_iff.mp h
      obtain ⟨rfl, rfl⟩ := Prod.mk.inj heq
      obtain ⟨l₁, l₂, rfl, hmac, rfl⟩ := ih hl
      exact ⟨j :: l₁, l₂, rfl, hmac, rfl⟩

/-- A station that is removed leaves its frames to be freed. -/
theorem deinitSta_moves {s s' : RxPriv β} {mac : BitVec 48} {acts : List (RxAct β)}
    (h : reordDeinitSta s mac = some (acts, s')) : Moves s 0 acts s' := by
  obtain ⟨⟨i, l⟩, htake, h⟩ := Option.bind_eq_some_iff.mp h
  split at h
  · obtain ⟨rfl, rfl⟩ := Prod.mk.inj (Option.some.inj h)
    obtain ⟨l₁, l₂, hl, -, hl'⟩ := takeSta_spec htake
    have hheld : framesOf (i.frames.map .inOrder) + heldBy l = 0 + heldBy s.stasReordList := by
      rw [framesOf, map_val_inOrder, frames_eq_held, hl, show l = l₁ ++ l₂ from hl',
        heldBy_append, heldBy_append, heldBy, heldBy, heldBy, List.map_cons, List.sum_cons]
      abel
    constructor
    · have hskbs := giveBack_skbs hheld
      -- the frames are freed whether they are for the stack or not
      have hacts : ((((i.frames.map Output.inOrder).map singleFrameInd).map RxAct.skb :
          List (SkBuff β)) : Multiset (SkBuff β)) =
          ((i.frames.map fun f => RxAct.kfreeSkb f.pkt).map RxAct.skb : List (SkBuff β)) := by
        rw [List.map_map, List.map_map, List.map_map]
        congr 1
        exact List.map_congr_left fun f _ => singleFrameInd_skb (.inOrder f)
      rw [hacts, Multiset.map_zero, zero_add] at hskbs
      rw [zero_add]
      exact congrArg (· + s.inHand) hskbs
    · refine (giveBack_descs hheld).trans ?_
      rw [Multiset.map_zero, zero_add]
  · cases h

/-! ### Runs -/

/-- The buffer that comes with an event. -/
def RxOp.arrival : RxOp β → Multiset (SkBuff β)
  | .data _ r _ => {r.skb}
  | _ => 0

/-- The buffer that is neither handed on nor freed. -/
def RxOp.stray : RxOp β → Multiset (SkBuff β)
  | .data hw r _ => if r.stray hw then {r.skb} else 0
  | _ => 0

/-- Every step keeps the accounts, up to the buffer that strays. -/
theorem rxMachine_moves {s s' : RxPriv β} {op : RxOp β} {acts : List (RxAct β)}
    (h : (rxMachine β).step s op = some (acts, s')) :
    ∃ A, A + op.stray = op.arrival ∧ Moves s A acts s' := by
  cases op with
  | data hw r kmalloc =>
    -- the thread takes a frame only when it has none in hand
    change (if s.flushing.isSome then none else _) = _ at h
    split at h
    · cases h
    · next hidle =>
      refine ⟨_, ?_, rxdataind_moves (Option.not_isSome_iff_eq_none.mp hidle) h⟩
      rw [RxOp.stray, RxOp.arrival]
      split
      · exact zero_add _
      · exact add_zero _
  | flushDone =>
    obtain ⟨p, hp, h⟩ := Option.bind_eq_some_iff.mp h
    obtain ⟨r, hctrl, heq⟩ := Option.map_eq_some_iff.mp h
    obtain ⟨rfl, rfl⟩ := Prod.mk.inj heq
    have hheld := signal_heldBy (fun _ _ => .flushDone) hctrl
    -- what was in hand goes out
    have hhand : s.inHand = {p.next.skb} := by
      rw [RxPriv.inHand, hp]
      rfl
    refine ⟨0, rfl, ?_, ?_⟩
    · change ({p.next.skb} : Multiset (SkBuff β)) + (heldBy r.2).map _ + 0 = _
      rw [hheld, hhand, add_zero, zero_add]
      exact add_comm _ _
    · change _ + (heldBy r.2).map _ + _ = _
      rw [hheld]
      rfl
  | deinitSta mac => exact ⟨0, rfl, deinitSta_moves h⟩
  | busChange up =>
    obtain ⟨rfl, rfl⟩ := Prod.mk.inj (Option.some.inj h)
    refine ⟨0, rfl, ?_, rfl⟩
    exact congrArg (· + s.inHand) rfl
  | expire mac tid => exact ⟨0, rfl, signal_moves (fun _ _ => .expire) h⟩
  | timeoutHandler mac tid => exact ⟨0, rfl, signal_moves (fun _ _ => .timeoutHandler _) h⟩
  | startWork mac tid => exact ⟨0, rfl, signal_moves (fun _ _ => .startWork) h⟩
  | timeoutWorker mac tid =>
    obtain ⟨⟨outs, stas⟩, hctrl, heq⟩ := Option.map_eq_some_iff.mp h
    obtain ⟨rfl, rfl⟩ := Prod.mk.inj heq
    have hheld := held_onCtrl (o := framesOf) (A := 0) (fun x r x' => timeoutWorker_held) hctrl
    refine ⟨0, rfl, ?_, ?_⟩
    · have hskbs := giveBack_skbs hheld
      rw [Multiset.map_zero, zero_add] at hskbs
      rw [zero_add]
      exact congrArg (· + s.inHand) hskbs
    · refine (giveBack_descs hheld).trans ?_
      rw [Multiset.map_zero, zero_add]

/-- The accounts of a run. -/
structure Conserved (ops : List (RxOp β)) (acts : List (RxAct β)) (s : RxPriv β) : Prop where
  skbs : (ops.map RxOp.arrival).sum =
    ((acts.map RxAct.skb : List (SkBuff β)) : Multiset (SkBuff β)) + s.pkts + s.inHand +
      (ops.map RxOp.stray).sum
  descs : s.descriptors = (List.range maxReordRxframe : Multiset ℕ)

/-- One step carries the accounts on. -/
theorem Conserved.step {ops : List (RxOp β)} {acts o : List (RxAct β)} {s s' : RxPriv β}
    {op : RxOp β} (hI : Conserved ops acts s) (h : (rxMachine β).step s op = some (o, s')) :
    Conserved (ops ++ [op]) (acts ++ o) s' := by
  obtain ⟨A, hA, hm⟩ := rxMachine_moves h
  refine ⟨?_, hm.descs.trans hI.descs⟩
  simp only [List.map_append, List.sum_append, List.map_singleton, List.sum_singleton, hI.skbs,
    ← hA, ← Multiset.coe_add]
  have hskbs := hm.skbs
  generalize ((acts.map RxAct.skb : List (SkBuff β)) : Multiset (SkBuff β)) = B
  generalize ((o.map RxAct.skb : List (SkBuff β)) : Multiset (SkBuff β)) = O at hskbs ⊢
  -- what came in before is out, held or in hand, and so is what this step took in
  calc B + s.pkts + s.inHand + (ops.map RxOp.stray).sum + (A + op.stray)
      = B + (A + s.pkts + s.inHand) + ((ops.map RxOp.stray).sum + op.stray) := by abel
    _ = B + O + s'.pkts + s'.inHand + ((ops.map RxOp.stray).sum + op.stray) := by
        rw [← hskbs]
        abel

/-- At the start all descriptors are free and no buffer has come. -/
theorem conserved_init : Conserved ([] : List (RxOp β)) [] RxPriv.init where
  skbs := rfl
  descs := by
    simp only [RxPriv.descriptors, RxPriv.init, heldBy, List.map_nil, List.sum_nil,
      Multiset.map_zero, Multiset.coe_nil, add_zero, Multiset.coe_reverse]

/-! ### What a frame leaves alone -/

/-- Neither the bus nor what was freed before. -/
structure SameBus (s s' : RxPriv β) : Prop where
  busUp : s'.busUp = s.busUp
  dangling : s'.dangling = s.dangling

/-- Queueing a frame. -/
theorem reordProcessUnit_frame (s : RxPriv β) (skb : SkBuff β) (seqNum : SeqNum) (tid : Fin 8)
    (forward kmalloc : Bool) :
    SameBus s (reordProcessUnit s skb seqNum tid forward kmalloc).2.2 := by
  unfold reordProcessUnit
  simp only
  repeat' split
  all_goals exact ⟨rfl, rfl⟩

/-- Flushing a TID. -/
theorem reordFlushTid_frame (s : RxPriv β) (skb : SkBuff β) (tid : Fin 8) (next : RxAct β) :
    SameBus s (reordFlushTid s skb tid next).2 := by
  unfold reordFlushTid
  repeat' split
  all_goals exact ⟨rfl, rfl⟩

theorem rxBranch_frame (s : RxPriv β) (r : DataFrame β) (forward kmalloc : Bool) (n : RxAct β)
    (p : List (RxAct β)) : SameBus s (rxBranch s r forward kmalloc n p).2 := by
  unfold rxBranch
  split
  · exact reordProcessUnit_frame s r.skb r.seqNum r.tid forward kmalloc
  · split
    · exact reordFlushTid_frame s r.skb r.tid n
    · exact ⟨rfl, rfl⟩

theorem rxOnVif_frame (s : RxPriv β) (iftype : Iftype) (r : DataFrame β) (kmalloc : Bool) :
    SameBus s (rxOnVif s iftype r kmalloc).2 := by
  have hbranch : ∀ forward n p,
      SameBus s (rxBranch { s with rwnxVif := some iftype } r forward kmalloc n p).2 :=
    fun forward n p =>
      have h := rxBranch_frame { s with rwnxVif := some iftype } r forward kmalloc n p
      ⟨h.busUp, h.dangling⟩
  have hap : SameBus s (rxApBranch { s with rwnxVif := some iftype } r kmalloc).2 := by
    simp only [rxApBranch]
    split
    · exact hbranch _ _ _
    · split
      · exact hbranch _ _ _
      · exact ⟨rfl, rfl⟩
  cases iftype with
  | station => exact hbranch _ _ _
  | p2pClient => exact hbranch _ _ _
  | ap => exact hap
  | p2pGo => exact hap
  | monitor => exact ⟨rfl, rfl⟩
  | other => exact ⟨rfl, rfl⟩

theorem rxdataind_frame {s s' : RxPriv β} {hw : RxTables} {r : RxFrame β} {kmalloc : Bool}
    {acts : List (RxAct β)} (h : rxdataind s hw r kmalloc = some (acts, s')) : SameBus s s' := by
  obtain ⟨mon, -, heq⟩ := Option.map_eq_some_iff.mp h
  split at heq
  · obtain ⟨-, rfl⟩ := Prod.mk.inj heq
    simp only [rxForward]
    split
    · exact ⟨rfl, rfl⟩
    · split
      · exact ⟨rfl, rfl⟩
      · next v hvif => exact rxOnVif_frame s v.iftype (r.onVif hw v) kmalloc
  · obtain ⟨-, rfl⟩ := Prod.mk.inj heq
    exact ⟨rfl, rfl⟩

/-! ### Lost descriptors -/

/-- A step that a block always takes is taken when its station is known. -/
theorem onCtrl_isSome {γ : Type*} {mac : BitVec 48} {t : Fin 8}
    {g : CtrlSlot β → Option (γ × CtrlSlot β)} (hg : ∀ x, (g x).isSome)
    {l : List (ReordCtrlInfo β)} (hl : ∃ i ∈ l, i.macAddr = mac) : (onCtrl mac t g l).isSome := by
  induction l with
  | nil =>
    obtain ⟨i, hi, -⟩ := hl
    exact nomatch hi
  | cons j l ih =>
    rw [onCtrl]
    split
    · rw [Option.isSome_map]
      exact hg _
    · next hne =>
      obtain ⟨i, hi, rfl⟩ := hl
      rw [Option.isSome_map]
      rcases List.mem_cons.mp hi with rfl | hi
      · exact absurd rfl hne
      · exact ih ⟨i, hi, rfl⟩

/-- A descriptor is lost only when a station cannot be set up. -/
theorem reordProcessUnit_lost {s : RxPriv β} {iftype : Iftype} (hvif : s.rwnxVif = some iftype)
    {skb : SkBuff β} (hserved : (macOf iftype skb).isSome = true) (hbus : s.busUp = true)
    (seqNum : SeqNum) (tid : Fin 8) (forward : Bool) :
    (reordProcessUnit s skb seqNum tid forward true).2.2.lost = s.lost := by
  unfold reordProcessUnit
  rw [hvif]
  simp only
  split
  · rfl
  · split
    · rfl
    · next id freequeue hfree =>
      split
      · next hmac =>
        rw [hmac] at hserved
        cases hserved
      · next mac hmac =>
        split
        · next hnew =>
          -- with memory, and the bus up, `reord_init_sta` succeeds
          split at hnew
          · cases hnew
          · rw [reordInitSta, hbus] at hnew
            cases hnew
        · next new hnew =>
          split
          · next hctrl =>
            -- the station is known, or it is the new one
            have hmem : ∃ i ∈ s.stasReordList ++ new, i.macAddr = mac := by
              split at hnew
              · next hknown =>
                obtain ⟨i, hi, him⟩ := List.any_eq_true.mp hknown
                exact ⟨i, List.mem_append_left _ hi, of_decide_eq_true him⟩
              · rw [reordInitSta, hbus] at hnew
                cases hnew
                exact ⟨_, List.mem_append_right _ List.mem_cons_self, rfl⟩
            have hsome := onCtrl_isSome (t := tid)
              (g := fun x => some (x.processUnit ⟨id, skb, seqNum, forward⟩)) (fun _ => rfl) hmem
            rw [hctrl] at hsome
            cases hsome
          · rfl

/-- A flush takes no descriptor. -/
theorem reordFlushTid_lost (s : RxPriv β) (skb : SkBuff β) (tid : Fin 8) (next : RxAct β) :
    (reordFlushTid s skb tid next).2.lost = s.lost := by
  unfold reordFlushTid
  split
  · rfl
  · split <;> rfl

/-- The branch of a frame on an interface that is served. -/
theorem rxBranch_lost {s : RxPriv β} {iftype : Iftype} (hvif : s.rwnxVif = some iftype)
    (hbus : s.busUp = true) {r : DataFrame β} (hserved : (macOf iftype r.skb).isSome = true)
    (forward : Bool) (n : RxAct β) (p : List (RxAct β)) :
    (rxBranch s r forward true n p).2.lost = s.lost := by
  unfold rxBranch
  split
  · exact reordProcessUnit_lost hvif hserved hbus r.seqNum r.tid forward
  · split
    · exact reordFlushTid_lost s r.skb r.tid n
    · rfl

/-- On the other interfaces nothing is queued. -/
theorem rxOnVif_lost {s : RxPriv β} (hbus : s.busUp = true) (iftype : Iftype) (r : DataFrame β) :
    (rxOnVif s iftype r true).2.lost = s.lost := by
  have hbranch : (macOf iftype r.skb).isSome = true → ∀ forward n p,
      (rxBranch { s with rwnxVif := some iftype } r forward true n p).2.lost = s.lost :=
    fun hserved forward n p => rxBranch_lost (s := { s with rwnxVif := some iftype }) rfl hbus
      hserved forward n p
  have hap : (macOf iftype r.skb).isSome = true →
      (rxApBranch { s with rwnxVif := some iftype } r true).2.lost = s.lost := by
    intro hserved
    simp only [rxApBranch]
    split
    · exact hbranch hserved _ _ _
    · split
      · exact hbranch hserved _ _ _
      · rfl
  cases iftype with
  | station => exact hbranch rfl _ _ _
  | p2pClient => exact hbranch rfl _ _ _
  | ap => exact hap rfl
  | p2pGo => exact hap rfl
  -- no branch queues a frame here
  | monitor => rfl
  | other => rfl

theorem rxdataind_lost {s s' : RxPriv β} (hbus : s.busUp = true) {hw : RxTables} {r : RxFrame β}
    {acts : List (RxAct β)} (h : rxdataind s hw r true = some (acts, s')) : s'.lost = s.lost := by
  obtain ⟨mon, -, heq⟩ := Option.map_eq_some_iff.mp h
  split at heq
  · obtain ⟨-, rfl⟩ := Prod.mk.inj heq
    simp only [rxForward]
    split
    · rfl
    · split
      · rfl
      · next v hvif => exact rxOnVif_lost hbus v.iftype (r.onVif hw v)
  · obtain ⟨-, rfl⟩ := Prod.mk.inj heq
    rfl

/-- Nothing keeps a new station from being set up. -/
def RxOp.Sound : RxOp β → Prop
  | .data _ _ kmalloc => kmalloc = true
  | .busChange up => up = true
  | _ => True

/-- The bus has stayed up, and no descriptor is lost. -/
def NothingLost (s : RxPriv β) : Prop := s.busUp = true ∧ s.lost = []

theorem NothingLost.step {s s' : RxPriv β} {op : RxOp β} {acts : List (RxAct β)}
    (hI : NothingLost s) (hop : op.Sound) (h : (rxMachine β).step s op = some (acts, s')) :
    NothingLost s' := by
  obtain ⟨hbus, hlost⟩ := hI
  cases op with
  | data hw r kmalloc =>
    obtain rfl : kmalloc = true := hop
    change (if s.flushing.isSome then none else _) = _ at h
    split at h
    · cases h
    · exact ⟨(rxdataind_frame h).busUp.trans hbus, (rxdataind_lost hbus h).trans hlost⟩
  | flushDone =>
    obtain ⟨p, hp, h⟩ := Option.bind_eq_some_iff.mp h
    obtain ⟨r, hctrl, heq⟩ := Option.map_eq_some_iff.mp h
    obtain ⟨rfl, rfl⟩ := Prod.mk.inj heq
    exact ⟨hbus, hlost⟩
  | deinitSta mac =>
    obtain ⟨⟨i, l⟩, htake, h⟩ := Option.bind_eq_some_iff.mp h
    split at h
    · obtain ⟨rfl, rfl⟩ := Prod.mk.inj (Option.some.inj h)
      exact ⟨hbus, hlost⟩
    · cases h
  | busChange up =>
    obtain rfl : up = true := hop
    obtain ⟨rfl, rfl⟩ := Prod.mk.inj (Option.some.inj h)
    exact ⟨rfl, hlost⟩
  | expire mac tid | timeoutHandler mac tid | startWork mac tid | timeoutWorker mac tid =>
    obtain ⟨r, hctrl, heq⟩ := Option.map_eq_some_iff.mp h
    obtain ⟨rfl, rfl⟩ := Prod.mk.inj heq
    exact ⟨hbus, hlost⟩

/-- **Conservation.** Over any run, with frames, flushes, timers, workers and removed stations in
any order: each buffer that came in has been handed on once, freed once, is held or in hand, or is
one of those that stray; and each of the 250 descriptors is in the free queue, in one list or lost.
None is lost while stations can be set up. -/
theorem rx_conserved {ops : List (RxOp β)} {acts : List (RxAct β)} {s : RxPriv β}
    (hrun : (rxMachine β).trace RxPriv.init ops = some (acts, s)) :
    Conserved ops acts s ∧ ((∀ op ∈ ops, op.Sound) → s.lost = []) := by
  constructor
  · exact Machine.trace_inv (fun _ _ _ _ _ _ => Conserved.step) conserved_init hrun
  · have hend := Machine.trace_inv (P := fun ops _ s => (∀ op ∈ ops, op.Sound) → NothingLost s)
      (fun ops outs s op o s' hI hstep hops => ?_) (fun _ => ⟨rfl, rfl⟩) hrun
    · exact fun hops => (hend hops).2
    · rw [List.forall_mem_append] at hops
      exact (hI hops.1).step (hops.2 op List.mem_cons_self) hstep

/-- Interface 0 is a station, and there is no monitor interface. -/
def sampleTables : RxTables where
  vifTable n := if n = 0 then some { vifIndex := 0, up := true, iftype := .station } else none
  staTable _ := { valid := true, vlanIdx := 0 }
  monitorVif := 0xff

/-- Best effort. -/
def sampleTid : Fin 8 := ⟨0, by decide⟩

/-- A QoS frame from the access point to this station; `reorder` is `flags_need_reord`. -/
def sampleFrame (seqNum : SeqNum) (reorder : Bool) : RxOp Unit :=
  .data sampleTables
    (.ofMacHeader
      { toDs := false
        qos := true
        htc := false
        destination := 1
        source := 2
        bssid := 3
        fragment := ⟨0, by decide⟩
        seqNum := seqNum
        tid := sampleTid } (fun _ => 0) 86
      { decrStatus := 3
        flagsIs80211Mpdu := false
        flagsNeedReord := reorder
        flagsUpload := true
        isMonitorVif := false
        flagsVifIdx := 0
        flagsStaIdx := 0
        flagsDstIdx := 0xff } () 0 0) true

/-- A frame, one that is early, the timeout, one more, and a flush by a frame outside the session;
then the station goes. -/
def sampleRun : List (RxOp Unit) :=
  [sampleFrame ⟨5, by decide⟩ true, sampleFrame ⟨7, by decide⟩ true, .expire 1 sampleTid,
    .timeoutHandler 1 sampleTid, .startWork 1 sampleTid, .timeoutWorker 1 sampleTid,
    sampleFrame ⟨10, by decide⟩ true, sampleFrame ⟨11, by decide⟩ false, .flushDone,
    sampleFrame ⟨20, by decide⟩ true, .deinitSta 1]

theorem sampleRun_isSome : ((rxMachine Unit).trace RxPriv.init sampleRun).isSome = true := by
  decide +kernel

theorem rx_conserved_sample : ∃ acts s,
    (rxMachine Unit).trace RxPriv.init sampleRun = some (acts, s) ∧ Conserved sampleRun acts s ∧
      ((∀ op ∈ sampleRun, op.Sound) → s.lost = []) := by
  obtain ⟨⟨acts, s⟩, hrun⟩ := Option.isSome_iff_exists.mp sampleRun_isSome
  exact ⟨acts, s, hrun, rx_conserved hrun⟩

end LonganPi.Wifi
