import LonganPi.Wifi.RxConserve

/-!
# No frame is stranded

A frame that came early waits until the gap before it is filled or given up. It is given up by a
chain of four parties: the timer expires, its handler schedules a work, the work queue starts the
worker, and the worker walks the list. Each step of the chain is separate, and the receive thread
may stop or start the timer between any two of them.

`CtrlSlot.Watched` says that some link of the chain is there. `rx_no_frame_stranded` is the
invariant that a control block with frames in its list is always watched, in every interleaving, as
long as no handler runs while the bus is down. It rests on what a frame does to the timer (`Arms`),
on the fact that `reord_flush_tid` stops timer and work only of a block that is disabled and empty,
and on the receive thread being alone in filling lists.
-/

open DriverLib

namespace LonganPi.Wifi

variable {β : Type*}

/-- The invariant of a control block. -/
structure SlotOk (x : CtrlSlot β) : Prop where
  enabled : x.ctrl.enable = true → ∃ w, Implements x.ctrl w
  disabled : x.ctrl.enable = false → x.ctrl.reordList = []
  watched : x.ctrl.reordList ≠ [] → x.Watched

/-! ### The steps of a control block -/

/-- A frame changes the number, the list and the timer. -/
theorem reordUnit_frame {α : Type*} (c : ReordCtrl α) (f : RecvMsdu α) :
    ∃ i l t, (reordUnit c f).2 = { c with indSn := i, reordList := l, reordTimer := t } := by
  obtain ⟨i, hi⟩ := needCheck_snd c f.seqNum.val
  have hcheck : reordNeedCheck c f.seqNum.val =
      ((reordNeedCheck c f.seqNum.val).1, { c with indSn := i }) := by rw [← hi]
  cases hlate : (reordNeedCheck c f.seqNum.val).1 with
  | true =>
    rw [hlate] at hcheck
    rw [reordUnit_late hcheck]
    exact ⟨i, _, _, rfl⟩
  | false =>
    rw [hlate] at hcheck
    cases henq : reordRxframeEnqueue f c.reordList with
    | none =>
      rw [reordUnit_duplicate hcheck henq]
      exact ⟨i, _, _, rfl⟩
    | some l =>
      obtain ⟨b, j, hj⟩ := process_snd { c with indSn := i, reordList := l } false
      rw [reordUnit_placed hcheck henq hj]
      exact ⟨j, _, b, rfl⟩

/-- A new block is empty and has seen no frame. -/
theorem slotOk_init : SlotOk (⟨ReordCtrl.init, false, false⟩ : CtrlSlot β) where
  enabled := fun _ => ⟨none, implements_init⟩
  disabled := fun h => nomatch h
  watched := fun h => absurd rfl h

/-- A block that starts again is a fresh one. -/
theorem SlotOk.reenable {x : CtrlSlot β} (hx : SlotOk x) :
    x.ctrl.reenable.enable = true ∧ (∃ w, Implements x.ctrl.reenable w) ∧
      x.ctrl.reenable.reordList = x.ctrl.reordList ∧
      x.ctrl.reenable.reordTimer = x.ctrl.reordTimer ∧
      x.ctrl.reenable.reordTimerWork = x.ctrl.reordTimerWork := by
  rw [ReordCtrl.reenable]
  split
  · next h =>
    refine ⟨rfl, ⟨none, rfl, hx.disabled h, fun _ hp => (nomatch hp), fun _ => rfl,
      fun _ hW => (nomatch hW)⟩, rfl, rfl, rfl⟩
  · next h =>
    have hon : x.ctrl.enable = true := Bool.not_eq_false _ ▸ h
    exact ⟨hon, hx.enabled hon, rfl, rfl, rfl⟩

/-- A frame arms the timer when frames stay, and otherwise leaves the timer and the list as they
were, so that the link that watched the block still does. -/
theorem SlotOk.processUnit {x : CtrlSlot β} (hx : SlotOk x) (f : RecvMsdu (SkBuff β)) :
    SlotOk (x.processUnit f).2 := by
  obtain ⟨hon, ⟨w, hw⟩, hlist, htimer, hwork⟩ := hx.reenable
  obtain ⟨-, himp, harm⟩ := reordUnit_refines (f := f) hw rfl rfl
  obtain ⟨i, l, t, hframe⟩ := reordUnit_frame x.ctrl.reenable f
  rw [CtrlSlot.processUnit, if_neg (by rw [hon]; exact Bool.false_ne_true.symm)]
  refine ⟨fun _ => ⟨_, himp⟩, fun hoff => ?_, fun hne => ?_⟩
  · change (reordUnit x.ctrl.reenable f).2.enable = false at hoff
    rw [hframe] at hoff
    exact absurd (hon.symm.trans hoff) Bool.false_ne_true.symm
  · rcases harm with harm | ⟨htimer', hlist'⟩
    · exact Or.inl (harm.mpr hne)
    · -- nothing has changed for the frames that were held before
      have hold : x.ctrl.reordList ≠ [] := by
        rw [← hlist, ← hlist']
        exact hne
      rcases hx.watched hold with h | h | h | h
      · exact Or.inl (htimer'.trans (htimer.trans h))
      · exact Or.inr (Or.inl h)
      · refine Or.inr (Or.inr (Or.inl ?_))
        change (reordUnit x.ctrl.reenable f).2.reordTimerWork = true
        rw [hframe]
        exact hwork.trans h
      · exact Or.inr (Or.inr (Or.inr h))

/-- A flush leaves the block disabled and empty. -/
theorem SlotOk.flushList {x x' : CtrlSlot β} {outs : List (Output (RecvMsdu (SkBuff β)))}
    (h : x.flushList = some (outs, x')) : SlotOk x' ∧ x'.ctrl.enable = false := by
  rw [CtrlSlot.flushList] at h
  split at h
  · cases h
  · obtain ⟨-, rfl⟩ := Prod.mk.inj (Option.some.inj h)
    exact ⟨⟨fun h => absurd h Bool.false_ne_true, fun _ => rfl, fun h => absurd rfl h⟩, rfl⟩

/-- The number and the list are those of another block. -/
theorem Implements.congr {α : Type*} {c c' : ReordCtrl α} {w : Option (Window 64 (RecvMsdu α))}
    (h : Implements c w) (hsn : c'.indSn = c.indSn) (hw : c'.wsizeB = c.wsizeB)
    (hl : c'.reordList = c.reordList) : Implements c' w where
  wsize := hw.trans h.wsize
  list := hl.trans h.list
  numbers := h.numbers
  first := fun hn => hsn.trans (h.first hn)
  indSn := fun W hW => by
    rw [hsn]
    exact h.indSn W hW

/-- A change of what is pending or in flight keeps the invariant if it keeps the block watched. -/
theorem SlotOk.congr {x x' : CtrlSlot β} (hx : SlotOk x) (hon : x'.ctrl.enable = x.ctrl.enable)
    (hsn : x'.ctrl.indSn = x.ctrl.indSn) (hws : x'.ctrl.wsizeB = x.ctrl.wsizeB)
    (hl : x'.ctrl.reordList = x.ctrl.reordList)
    (hw : x.ctrl.reordList ≠ [] → x.Watched → x'.Watched) : SlotOk x' where
  enabled := fun h => by
    obtain ⟨w, h⟩ := hx.enabled (hon ▸ h)
    exact ⟨w, h.congr hsn hws hl⟩
  disabled := fun h => hl.trans (hx.disabled (hon ▸ h))
  watched := fun h => hw (hl ▸ h) (hx.watched (hl ▸ h))

/-- The links of the chain: the timer hands over to the handler. -/
theorem SlotOk.expire {x x' : CtrlSlot β} {u : Unit} (hx : SlotOk x)
    (h : x.expire = some (u, x')) : SlotOk x' ∧ x'.ctrl.enable = x.ctrl.enable := by
  rw [CtrlSlot.expire] at h
  split at h
  · obtain ⟨-, rfl⟩ := Prod.mk.inj (Option.some.inj h)
    exact ⟨hx.congr rfl rfl rfl rfl fun _ _ => Or.inr (Or.inl rfl), rfl⟩
  · cases h

/-- The handler hands over to the work, while the bus is up. -/
theorem SlotOk.timeoutHandler {x x' : CtrlSlot β} {u : Unit} (hx : SlotOk x)
    (h : x.timeoutHandler true = some (u, x')) : SlotOk x' ∧ x'.ctrl.enable = x.ctrl.enable := by
  rw [CtrlSlot.timeoutHandler] at h
  split at h
  · obtain ⟨-, rfl⟩ := Prod.mk.inj (Option.some.inj h)
    exact ⟨hx.congr rfl rfl rfl rfl fun _ _ => Or.inr (Or.inr (Or.inl rfl)), rfl⟩
  · cases h

/-- The work hands over to the worker. -/
theorem SlotOk.startWork {x x' : CtrlSlot β} {u : Unit} (hx : SlotOk x)
    (h : x.startWork = some (u, x')) : SlotOk x' ∧ x'.ctrl.enable = x.ctrl.enable := by
  rw [CtrlSlot.startWork] at h
  split at h
  · obtain ⟨-, rfl⟩ := Prod.mk.inj (Option.some.inj h)
    exact ⟨hx.congr rfl rfl rfl rfl fun _ _ => Or.inr (Or.inr (Or.inr rfl)), rfl⟩
  · cases h

/-- The worker empties the list, or starts the timer again. -/
theorem SlotOk.timeoutWorker {x x' : CtrlSlot β} {outs : List (Output (RecvMsdu (SkBuff β)))}
    (hx : SlotOk x) (h : x.timeoutWorker = some (outs, x')) :
    SlotOk x' ∧ x'.ctrl.enable = x.ctrl.enable := by
  rw [CtrlSlot.timeoutWorker] at h
  split at h
  · obtain ⟨-, rfl⟩ := Prod.mk.inj (Option.some.inj h)
    cases hon : x.ctrl.enable with
    | false =>
      -- a block that a flush has emptied
      have hnil := hx.disabled hon
      simp only [reordTimeoutWorker_nil hnil]
      exact ⟨⟨fun h => absurd (hon.symm.trans h) Bool.false_ne_true, fun _ => hnil,
        fun h => absurd hnil h⟩, hon⟩
    | true =>
      obtain ⟨w, hw⟩ := hx.enabled hon
      obtain ⟨-, w', -, -, himp, htimer⟩ := reordTimeoutWorker_refines hw
      have hon' : (reordTimeoutWorker x.ctrl).2.enable = true := by
        obtain ⟨b, j, hj⟩ := process_snd x.ctrl true
        rw [reordTimeoutWorker_cons hj]
        exact hon
      exact ⟨⟨fun _ => ⟨w', himp⟩, fun h => absurd (hon'.symm.trans h) Bool.false_ne_true.symm,
        fun h => Or.inl (htimer h)⟩, hon'⟩
  · cases h

/-- The end of a flush finds a block that is disabled, and so empty. -/
theorem SlotOk.flushDone {x x' : CtrlSlot β} {u : Unit} (hx : SlotOk x)
    (hoff : x.ctrl.enable = false) (h : x.flushDone = some (u, x')) : SlotOk x' := by
  rw [CtrlSlot.flushDone] at h
  split at h
  · obtain ⟨-, rfl⟩ := Prod.mk.inj (Option.some.inj h)
    exact hx.congr rfl rfl rfl rfl fun hne _ => absurd (hx.disabled hoff) hne
  · cases h

/-! ### All control blocks -/

/-- What a flush in progress relies on: its block stays disabled. -/
def FlushedOff (p : Option (Flushing β)) (mac : BitVec 48) (tid : Fin 8) (x : CtrlSlot β) : Prop :=
  ∀ q, p = some q → mac = q.macAddr → tid = q.tid → x.ctrl.enable = false

/-- The invariant of the receive path. -/
structure RxInv (s : RxPriv β) : Prop where
  nodup : (s.stasReordList.map ReordCtrlInfo.macAddr).Nodup
  slots : ∀ i ∈ s.stasReordList, ∀ t, SlotOk (i.preorderCtrl t) ∧
    FlushedOff s.flushing i.macAddr t (i.preorderCtrl t)

section OnCtrl

variable {γ : Type*} {mac : BitVec 48} {tid : Fin 8} {g : CtrlSlot β → Option (γ × CtrlSlot β)}
  {l l' : List (ReordCtrlInfo β)} {r : γ}

/-- A step on a block leaves the addresses of the stations. -/
theorem onCtrl_macs (h : onCtrl mac tid g l = some (r, l')) :
    l'.map ReordCtrlInfo.macAddr = l.map ReordCtrlInfo.macAddr := by
  obtain ⟨l₁, i, l₂, x, rfl, -, -, rfl⟩ := onCtrl_spec h
  rw [List.map_append, List.map_append]
  rfl

/-- A property of the control blocks that the step keeps on its own block. -/
theorem onCtrl_forall {P : BitVec 48 → Fin 8 → CtrlSlot β → Prop}
    (hg : ∀ x r x', P mac tid x → g x = some (r, x') → P mac tid x')
    (h : onCtrl mac tid g l = some (r, l'))
    (hl : ∀ i ∈ l, ∀ t, P i.macAddr t (i.preorderCtrl t)) :
    ∀ i ∈ l', ∀ t, P i.macAddr t (i.preorderCtrl t) := by
  obtain ⟨l₁, i, l₂, x, rfl, rfl, hx, rfl⟩ := onCtrl_spec h
  have hi := hl i (List.mem_append_right _ List.mem_cons_self)
  intro j hj t
  -- only the block of the step has changed
  rcases List.mem_append.mp hj with hj | hj
  · exact hl j (List.mem_append_left _ hj) t
  · rcases List.mem_cons.mp hj with rfl | hj
    · change P i.macAddr t (Function.update i.preorderCtrl tid x t)
      by_cases ht : t = tid
      · subst ht
        rw [Function.update_self]
        exact hg _ _ _ (hi t) hx
      · rw [Function.update_of_ne ht]
        exact hi t
    · exact hl j (List.mem_append_right _ (List.mem_cons_of_mem i hj)) t

/-- The one block of an address and a TID after the step. -/
theorem onCtrl_at (hnd : (l.map ReordCtrlInfo.macAddr).Nodup)
    (h : onCtrl mac tid g l = some (r, l')) {j : ReordCtrlInfo β} (hj : j ∈ l')
    (hmac : j.macAddr = mac) : ∃ x, g x = some (r, j.preorderCtrl tid) := by
  obtain ⟨l₁, i, l₂, x, rfl, rfl, hx, rfl⟩ := onCtrl_spec h
  -- addresses differ, so no other station has this one
  have hnotMem : i.macAddr ∉ (l₁ ++ l₂).map ReordCtrlInfo.macAddr := by
    rw [List.map_append, List.map_cons, List.nodup_middle] at hnd
    rw [List.map_append]
    exact (List.nodup_cons.mp hnd).1
  rcases List.mem_append.mp hj with hj | hj
  · exact absurd (List.mem_map.mpr ⟨j, List.mem_append_left _ hj, hmac⟩) hnotMem
  · rcases List.mem_cons.mp hj with rfl | hj
    · have hself := Function.update_self tid x i.preorderCtrl
      exact ⟨_, hx.trans (congrArg (fun y => some (r, y)) hself.symm)⟩
    · exact absurd (List.mem_map.mpr ⟨j, List.mem_append_right _ hj, hmac⟩) hnotMem

end OnCtrl

/-! ### The functions -/

/-- Without a flush nothing is relied on. -/
theorem flushedOff_none {mac : BitVec 48} {tid : Fin 8} {x : CtrlSlot β} :
    FlushedOff none mac tid x := fun _ h => nomatch h

/-- Queueing a frame, on a block of a station that is known or new. -/
theorem RxInv.processUnit {s : RxPriv β} (hI : RxInv s) (hidle : s.flushing = none)
    (skb : SkBuff β) (seqNum : SeqNum) (tid : Fin 8) (forward kmalloc : Bool) :
    RxInv (reordProcessUnit s skb seqNum tid forward kmalloc).2.2 := by
  unfold reordProcessUnit
  split
  · exact hI
  · split
    · exact hI
    · split
      · exact hI
      · next id freequeue hfree =>
        -- the descriptor is lost, and no block has changed
        have hfailed : RxInv { s with rxframesFreequeue := freequeue, lost := id :: s.lost } :=
          ⟨hI.nodup, hI.slots⟩
        simp only
        split
        · exact hfailed
        · next mac hmac =>
          split
          · exact hfailed
          · next new hnew =>
            -- the station is known, or it is the new one
            have hadd : ((s.stasReordList ++ new).map ReordCtrlInfo.macAddr).Nodup ∧
                ∀ i ∈ s.stasReordList ++ new, ∀ t, SlotOk (i.preorderCtrl t) := by
              split at hnew
              · obtain rfl := Option.some.inj hnew
                rw [List.append_nil]
                exact ⟨hI.nodup, fun i hi t => (hI.slots i hi t).1⟩
              · next hunknown =>
                obtain ⟨j, hj, rfl⟩ := Option.map_eq_some_iff.mp hnew
                rw [reordInitSta] at hj
                split at hj
                · cases hj
                · obtain rfl := Option.some.inj hj
                  rw [List.map_append, List.map_singleton]
                  refine ⟨hI.nodup.append (List.nodup_singleton _) ?_, fun i hi t => ?_⟩
                  · intro m hm hm'
                    obtain ⟨i, hi, rfl⟩ := List.mem_map.mp hm
                    refine hunknown (List.any_eq_true.mpr ⟨i, hi, ?_⟩)
                    exact decide_eq_true (List.mem_singleton.mp hm')
                  · rcases List.mem_append.mp hi with hi | hi
                    · exact (hI.slots i hi t).1
                    · obtain rfl := List.mem_singleton.mp hi
                      exact slotOk_init
            split
            · exact hfailed
            · next outs stas hctrl =>
              constructor
              · change (stas.map ReordCtrlInfo.macAddr).Nodup
                rw [onCtrl_macs hctrl]
                exact hadd.1
              · intro i hi t
                refine ⟨onCtrl_forall (P := fun _ _ x => SlotOk x) (fun x r x' hx h => ?_) hctrl
                  hadd.2 i hi t, ?_⟩
                · obtain ⟨-, rfl⟩ := Prod.mk.inj (Option.some.inj h)
                  exact hx.processUnit _
                · change FlushedOff s.flushing _ _ _
                  rw [hidle]
                  exact flushedOff_none

/-- A flush empties its block and disables it, which it relies on while it waits for the worker. -/
theorem RxInv.flushTid {s : RxPriv β} (hI : RxInv s) (skb : SkBuff β) (tid : Fin 8)
    (next : RxAct β) : RxInv (reordFlushTid s skb tid next).2 := by
  unfold reordFlushTid
  split
  · exact hI
  · split
    · exact hI
    · next outs stas hctrl =>
      constructor
      · change (stas.map ReordCtrlInfo.macAddr).Nodup
        rw [onCtrl_macs hctrl]
        exact hI.nodup
      · intro i hi t
        refine ⟨onCtrl_forall (P := fun _ _ x => SlotOk x)
          (fun x r x' _ h => (SlotOk.flushList h).1) hctrl (fun i hi t => (hI.slots i hi t).1)
          i hi t, ?_⟩
        rintro _ ⟨⟩ hmac rfl
        obtain ⟨x, hx⟩ := onCtrl_at hI.nodup hctrl hi hmac
        exact (SlotOk.flushList hx).2

/-- The interface that is noted is in no block. -/
theorem RxInv.vif {s : RxPriv β} (hI : RxInv s) (iftype : Iftype) :
    RxInv { s with rwnxVif := some iftype } := ⟨hI.nodup, hI.slots⟩

/-- The branch of a data frame. -/
theorem RxInv.branch {s : RxPriv β} (hI : RxInv s) (hidle : s.flushing = none) (r : DataFrame β)
    (forward kmalloc : Bool) (n : RxAct β) (p : List (RxAct β)) :
    RxInv (rxBranch s r forward kmalloc n p).2 := by
  unfold rxBranch
  split
  · exact hI.processUnit hidle r.skb r.seqNum r.tid forward kmalloc
  · split
    · exact hI.flushTid r.skb r.tid n
    · exact hI

/-- A data frame on an interface. -/
theorem RxInv.rxOnVif {s : RxPriv β} (hI : RxInv s) (hidle : s.flushing = none) (iftype : Iftype)
    (r : DataFrame β) (kmalloc : Bool) : RxInv (LonganPi.Wifi.rxOnVif s iftype r kmalloc).2 := by
  have hbranch := fun forward n p =>
    (hI.vif iftype).branch (s := { s with rwnxVif := some iftype }) hidle r forward kmalloc n p
  have hap : RxInv (rxApBranch { s with rwnxVif := some iftype } r kmalloc).2 := by
    simp only [rxApBranch]
    split
    · exact hbranch _ _ _
    · split
      · exact hbranch _ _ _
      · exact hI.vif iftype
  cases iftype with
  | station => exact hbranch _ _ _
  | p2pClient => exact hbranch _ _ _
  | ap => exact hap
  | p2pGo => exact hap
  | monitor => exact hI.vif .monitor
  | other => exact hI.vif .other

/-- A frame that comes in. -/
theorem RxInv.dataind {s s' : RxPriv β} (hI : RxInv s) (hidle : s.flushing = none) {hw : RxTables}
    {r : RxFrame β} {kmalloc : Bool} {acts : List (RxAct β)}
    (h : rxdataind s hw r kmalloc = some (acts, s')) : RxInv s' := by
  obtain ⟨mon, -, heq⟩ := Option.map_eq_some_iff.mp h
  split at heq
  · obtain ⟨-, rfl⟩ := Prod.mk.inj heq
    rw [rxForward]
    split
    · exact hI
    · split
      · exact hI
      · next v hvif => exact hI.rxOnVif hidle v.iftype (r.onVif hw v) kmalloc
  · obtain ⟨-, rfl⟩ := Prod.mk.inj heq
    exact hI

/-- A step on one block that keeps its invariant, and leaves it enabled or disabled. -/
theorem RxInv.onCtrl {γ : Type*} {s : RxPriv β} (hI : RxInv s) {mac : BitVec 48} {tid : Fin 8}
    {g : CtrlSlot β → Option (γ × CtrlSlot β)} {r : γ} {stas : List (ReordCtrlInfo β)}
    (hg : ∀ x r x', SlotOk x → g x = some (r, x') → SlotOk x' ∧ x'.ctrl.enable = x.ctrl.enable)
    (h : LonganPi.Wifi.onCtrl mac tid g s.stasReordList = some (r, stas)) :
    RxInv { s with stasReordList := stas } where
  nodup := by
    change (stas.map ReordCtrlInfo.macAddr).Nodup
    rw [onCtrl_macs h]
    exact hI.nodup
  slots := onCtrl_forall
    (P := fun m t x => SlotOk x ∧ FlushedOff s.flushing m t x) (fun x r x' hx hgx =>
      have hk := hg x r x' hx.1 hgx
      ⟨hk.1, fun q hq hm ht => hk.2.trans (hx.2 q hq hm ht)⟩) h hI.slots

/-! ### Runs -/

/-- No handler runs while the bus is down. -/
def HandledUp (s : RxPriv β) (op : RxOp β) : Prop :=
  ∀ mac tid, op = .timeoutHandler mac tid → s.busUp = true

/-- Every step keeps the invariant, one case for each party. -/
theorem RxInv.step {s s' : RxPriv β} {op : RxOp β} {acts : List (RxAct β)} (hI : RxInv s)
    (h : (rxMachine β).step s op = some (acts, s')) (hup : HandledUp s op) : RxInv s' := by
  cases op with
  | data hw r kmalloc =>
    change (if s.flushing.isSome then none else _) = _ at h
    split at h
    · cases h
    · next hidle => exact hI.dataind (Option.not_isSome_iff_eq_none.mp hidle) h
  | flushDone =>
    -- the flush is over: it stops timer and work of a block that is disabled
    obtain ⟨p, hp, h⟩ := Option.bind_eq_some_iff.mp h
    obtain ⟨r, hctrl, heq⟩ := Option.map_eq_some_iff.mp h
    obtain ⟨rfl, rfl⟩ := Prod.mk.inj heq
    constructor
    · change (r.2.map ReordCtrlInfo.macAddr).Nodup
      rw [onCtrl_macs hctrl]
      exact hI.nodup
    · intro i hi t
      refine ⟨(onCtrl_forall (P := fun m t x => SlotOk x ∧ (m = p.macAddr → t = p.tid →
        x.ctrl.enable = false)) (fun x u x' hx hflush => ?_) hctrl (fun i hi t => ?_) i hi t).1,
        flushedOff_none⟩
      · have hoff := hx.2 rfl rfl
        have hok := hx.1.flushDone hoff hflush
        refine ⟨hok, fun _ _ => ?_⟩
        rw [CtrlSlot.flushDone] at hflush
        split at hflush
        · obtain ⟨-, rfl⟩ := Prod.mk.inj (Option.some.inj hflush)
          exact hoff
        · cases hflush
      · exact ⟨(hI.slots i hi t).1, (hI.slots i hi t).2 p hp⟩
  | deinitSta mac =>
    -- the other stations stay as they are
    obtain ⟨⟨i, l⟩, htake, h⟩ := Option.bind_eq_some_iff.mp h
    split at h
    · obtain ⟨rfl, rfl⟩ := Prod.mk.inj (Option.some.inj h)
      obtain ⟨l₁, l₂, hl, -, rfl⟩ := takeSta_spec htake
      have hsub : (l₁ ++ l₂).Sublist s.stasReordList := by
        rw [hl]
        exact (List.sublist_cons_self i l₂).append_left l₁
      exact ⟨hI.nodup.sublist (hsub.map _), fun j hj t => hI.slots j (hsub.subset hj) t⟩
    · cases h
  | busChange up =>
    obtain ⟨rfl, rfl⟩ := Prod.mk.inj (Option.some.inj h)
    exact ⟨hI.nodup, hI.slots⟩
  | expire mac tid =>
    obtain ⟨r, hctrl, heq⟩ := Option.map_eq_some_iff.mp h
    obtain ⟨rfl, rfl⟩ := Prod.mk.inj heq
    exact hI.onCtrl (fun x u x' hx => hx.expire) hctrl
  | timeoutHandler mac tid =>
    -- with the bus down the handler would not schedule the work
    obtain ⟨r, hctrl, heq⟩ := Option.map_eq_some_iff.mp h
    obtain ⟨rfl, rfl⟩ := Prod.mk.inj heq
    rw [hup mac tid rfl] at hctrl
    exact hI.onCtrl (fun x u x' hx => hx.timeoutHandler) hctrl
  | startWork mac tid =>
    obtain ⟨r, hctrl, heq⟩ := Option.map_eq_some_iff.mp h
    obtain ⟨rfl, rfl⟩ := Prod.mk.inj heq
    exact hI.onCtrl (fun x u x' hx => hx.startWork) hctrl
  | timeoutWorker mac tid =>
    obtain ⟨⟨outs, stas⟩, hctrl, heq⟩ := Option.map_eq_some_iff.mp h
    obtain ⟨rfl, rfl⟩ := Prod.mk.inj heq
    have hkeep := hI.onCtrl (fun x u x' hx => hx.timeoutWorker) hctrl
    exact ⟨hkeep.nodup, hkeep.slots⟩

/-- There are no stations at the start. -/
theorem rxInv_init : RxInv (RxPriv.init : RxPriv β) where
  nodup := List.nodup_nil
  slots := fun _ hi => nomatch hi

/-- **No frame is stranded.** In every interleaving of the receive thread, the timers, their
handlers, the work queue and the removal of stations, as long as no handler runs while the bus is
down: a control block holds at most 63 frames, and if it holds any, then its timer is pending, or
the handler is about to run, or the work is pending, or the worker is about to run. -/
theorem rx_no_frame_stranded {ops : List (RxOp β)} {s : RxPriv β}
    (hup : (rxMachine β).Along (fun s op _ _ => HandledUp s op) RxPriv.init ops)
    (hrun : (rxMachine β).exec RxPriv.init ops = some s) :
    ∀ i ∈ s.stasReordList, ∀ t, (i.preorderCtrl t).ctrl.reordList.length ≤ 63 ∧
      ((i.preorderCtrl t).ctrl.reordList ≠ [] → (i.preorderCtrl t).Watched) := by
  have hI := (Machine.along_of_guard (P := fun _ _ _ _ => True)
    (fun s op o s' hI hstep hG => ⟨RxInv.step hI hstep hG, trivial⟩) rxInv_init hup).2 s hrun
  intro i hi t
  have hok := (hI.slots i hi t).1
  refine ⟨?_, hok.watched⟩
  -- a disabled block is empty, and an enabled one implements a window of 64 places
  cases hon : (i.preorderCtrl t).ctrl.enable with
  | false =>
    rw [hok.disabled hon]
    exact Nat.zero_le 63
  | true =>
    obtain ⟨w, hw⟩ := hok.enabled hon
    rw [hw.list, List.length_map]
    cases w with
    | none => exact Nat.zero_le 63
    | some W =>
      have hlen := W.length_held_lt (by decide)
      change W.held.length ≤ 63
      omega

/-- An early frame is held, and its timer has just expired. -/
theorem rx_no_frame_stranded_sample : ∃ s,
    (rxMachine Unit).exec RxPriv.init (sampleRun.take 3) = some s ∧
      ∀ i ∈ s.stasReordList, ∀ t, (i.preorderCtrl t).ctrl.reordList.length ≤ 63 ∧
        ((i.preorderCtrl t).ctrl.reordList ≠ [] → (i.preorderCtrl t).Watched) := by
  have hsome : ((rxMachine Unit).exec RxPriv.init (sampleRun.take 3)).isSome = true := by
    decide +kernel
  obtain ⟨s, hrun⟩ := Option.isSome_iff_exists.mp hsome
  refine ⟨s, hrun, rx_no_frame_stranded ?_ hrun⟩
  -- no handler runs in it
  intro _ _ _
  refine ⟨fun _ _ h => (nomatch h), fun _ _ _ => ⟨fun _ _ h => (nomatch h), fun _ _ _ => ?_⟩⟩
  exact ⟨fun _ _ h => (nomatch h), trivial⟩

/-! ### What a removal leaves behind -/

/-- `reord_deinit_sta` does not wait for a handler that has left the timer, nor for anything that is
under way for a block that a flush has disabled. -/
theorem deinit_watched_iff {x : CtrlSlot β} (hstop : x.ctrl.enable = true → x.Stoppable) :
    x.deinit.Watched ↔ x.handler = true ∨ x.ctrl.enable = false ∧ x.Watched := by
  rw [CtrlSlot.deinit]
  cases hon : x.ctrl.enable with
  | true =>
    -- the timer, the work and the worker are stopped, but not the handler
    have hworker := (hstop hon).2
    rw [if_pos rfl]
    simp [CtrlSlot.Watched, CtrlSlot.stop, hworker]
  | false =>
    -- nothing is stopped
    rw [if_neg Bool.false_ne_true]
    refine ⟨fun h => Or.inr ⟨rfl, h⟩, fun h => ?_⟩
    rcases h with h | h
    · exact Or.inr (Or.inl h)
    · exact h.2

/-- A removal comes when no flush of the station is under way, no handler is about to run, and
nothing is left for a block that is disabled. -/
def RemovedIdle (s : RxPriv β) (op : RxOp β) : Prop :=
  ∀ mac, op = .deinitSta mac → (∀ p, s.flushing = some p → p.macAddr ≠ mac) ∧
    ∀ i ∈ s.stasReordList, i.macAddr = mac → ∀ t, (i.preorderCtrl t).handler = false ∧
      ((i.preorderCtrl t).ctrl.enable = false → ¬(i.preorderCtrl t).Watched)

/-- A removal frees a block in use only when something is under way for it. -/
theorem dangling_step {s s' : RxPriv β} {op : RxOp β} {acts : List (RxAct β)}
    (hI : s.dangling = []) (h : (rxMachine β).step s op = some (acts, s'))
    (hidle : RemovedIdle s op) : s'.dangling = [] := by
  cases op with
  | data hw r kmalloc =>
    change (if s.flushing.isSome then none else _) = _ at h
    split at h
    · cases h
    · exact (rxdataind_frame h).dangling.trans hI
  | flushDone =>
    obtain ⟨p, hp, h⟩ := Option.bind_eq_some_iff.mp h
    obtain ⟨r, hctrl, heq⟩ := Option.map_eq_some_iff.mp h
    obtain ⟨rfl, rfl⟩ := Prod.mk.inj heq
    exact hI
  | deinitSta mac =>
    obtain ⟨hflush, hblocks⟩ := hidle mac rfl
    obtain ⟨⟨i, l⟩, htake, h⟩ := Option.bind_eq_some_iff.mp h
    obtain ⟨l₁, l₂, hl, hmac, -⟩ := takeSta_spec htake
    have hi : i ∈ s.stasReordList := by
      rw [hl]
      exact List.mem_append_right _ List.mem_cons_self
    split at h
    · next hstop =>
      -- what could still use the station is what the guard excludes
      have hfree : ¬s.InUse i := by
        rintro (⟨t, ht⟩ | hany)
        · rcases (deinit_watched_iff (hstop t)).mp ht with hrun | ⟨hoff, hwatch⟩
          · rw [(hblocks i hi hmac t).1] at hrun
            cases hrun
          · exact (hblocks i hi hmac t).2 hoff hwatch
        · obtain ⟨p, hp, heq⟩ := (Option.any_eq_true _ _).mp hany
          exact hflush p hp ((of_decide_eq_true heq).trans hmac)
      obtain ⟨rfl, rfl⟩ := Prod.mk.inj (Option.some.inj h)
      exact (if_neg hfree).trans hI
    · cases h
  | busChange up =>
    obtain ⟨rfl, rfl⟩ := Prod.mk.inj (Option.some.inj h)
    exact hI
  | expire mac tid | timeoutHandler mac tid | startWork mac tid | timeoutWorker mac tid =>
    obtain ⟨r, hctrl, heq⟩ := Option.map_eq_some_iff.mp h
    obtain ⟨rfl, rfl⟩ := Prod.mk.inj heq
    exact hI

/-- No block is freed while it is in use, in every run whose removals all come when nothing is under
way for the station. -/
theorem rx_nothing_dangling {ops : List (RxOp β)} {s : RxPriv β}
    (hidle : (rxMachine β).Along (fun s op _ _ => RemovedIdle s op) RxPriv.init ops)
    (hrun : (rxMachine β).exec RxPriv.init ops = some s) : s.dangling = [] :=
  (Machine.along_of_guard (P := fun _ _ _ _ => True)
    (fun s _ _ _ (hI : s.dangling = []) hstep hG => ⟨dangling_step hI hstep hG, trivial⟩) rfl
    hidle).2 s hrun

/-- The station goes when its timer has just expired: the timer is not pending, so nothing waits for
the handler. -/
example : ((rxMachine Unit).exec RxPriv.init (sampleRun.take 3 ++ [.deinitSta 1])).map
    RxPriv.dangling = some [1] := by
  decide +kernel

end LonganPi.Wifi
