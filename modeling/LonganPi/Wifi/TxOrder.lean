import LonganPi.Wifi.TxProgress
import Mathlib.Algebra.Order.Group.Multiset
import Mathlib.Tactic.Abel

/-!
# Frames leave a queue in order, and none is lost

A queue holds two kinds of frames: in front those that are to be sent again, and behind them those
that were never sent. Each kind leaves the queue in the order it came in (`tx_in_order`), and each
frame that is queued or confirmed is pushed, released or still in the queue, as often as it came in
(`tx_conserves`).

`Flow` is what a step does with the frames of one queue. Most steps leave them alone (`Still`); the
loop of `rwnx_hwq_process` moves frames from the queue to the bus.
-/

open DriverLib

namespace LonganPi.Wifi

variable {β : Type*} {q q' : TxqId}

/-! ### What is seen of a queue -/

/-- The frame that `q` pushes, when it is one that is sent again, or one that is not. -/
def TxAct.pushed? (q : TxqId) (again : Bool) : TxAct β → Option β
  | .push q' skb retry _ _ => if q' = q ∧ retry = again then some skb else none
  | _ => none

/-- The frame of `q` that is released. -/
def TxAct.released? (q : TxqId) : TxAct β → Option β
  | .kfreeSkb q' skb | .consumeSkb q' skb => if q' = q then some skb else none
  | _ => none

/-- The frames that `q` pushes, in order. -/
def pushes (q : TxqId) (again : Bool) (acts : List (TxAct β)) : List β :=
  acts.filterMap (TxAct.pushed? q again)

/-- The frames of `q` that are released, in order. -/
def releases (q : TxqId) (acts : List (TxAct β)) : List β := acts.filterMap (TxAct.released? q)

@[simp] theorem pushes_nil (again : Bool) : pushes q again ([] : List (TxAct β)) = [] := rfl

@[simp] theorem releases_nil : releases q ([] : List (TxAct β)) = [] := rfl

@[simp] theorem pushes_append (again : Bool) (o o' : List (TxAct β)) :
    pushes q again (o ++ o') = pushes q again o ++ pushes q again o' := List.filterMap_append

@[simp] theorem releases_append (o o' : List (TxAct β)) :
    releases q (o ++ o') = releases q o ++ releases q o' := List.filterMap_append

/-- The queue whose frames the act is about. -/
def TxAct.queue? : TxAct β → Option TxqId
  | .push q _ _ _ _ | .kfreeSkb q _ | .consumeSkb q _ | .warnRetry q => some q
  | _ => none

/-- Nothing is heard of the frames of `q`. -/
def Silent (q : TxqId) (o : List (TxAct β)) : Prop := ∀ a ∈ o, a.queue? ≠ some q

/-- What is only told to others is about no frame. -/
theorem TxAct.Quiet.queue? {a : TxAct β} (h : a.Quiet) : a.queue? = none := by
  cases a <;> first | rfl | exact h.elim

namespace Silent

variable {o o' : List (TxAct β)}

/-- Nothing is heard of the frames while others are told of something. -/
theorem of_quiet (h : ∀ a ∈ o, a.Quiet) : Silent q o := fun a ha => by
  rw [(h a ha).queue?]
  exact nofun

theorem append (h : Silent q o) (h' : Silent q o') : Silent q (o ++ o') :=
  List.forall_mem_append.mpr ⟨h, h'⟩

theorem pushes (h : Silent q o) (again : Bool) : pushes q again o = [] := by
  refine List.filterMap_eq_nil_iff.mpr fun a ha => ?_
  cases a with
  | push q' skb retry moreData eosp => exact if_neg fun hq => h _ ha (congrArg some hq.1)
  | _ => rfl

theorem releases (h : Silent q o) : releases q o = [] := by
  refine List.filterMap_eq_nil_iff.mpr fun a ha => ?_
  cases a with
  | kfreeSkb q' skb | consumeSkb q' skb => exact if_neg fun hq => h _ ha (congrArg some hq)
  | _ => rfl

theorem warned (h : Silent q o) : .warnRetry q ∉ o := fun hin => h _ hin rfl

end Silent

namespace Txq

/-- The frames of an active queue that were never sent. -/
def fresh (t : Txq β) : List β := if t.active then t.skList.drop t.nbRetry else []

/-- The frames of an active queue that are to be sent again. -/
def again (t : Txq β) : List β := if t.active then t.skList.take t.nbRetry else []

/-- What of a queue says which frames it has. -/
def frames (t : Txq β) : Bool × List β × ℕ × Option β :=
  (t.active, t.skList, t.nbRetry, t.lastRetrySkb)

/-- What is read of a queue depends on its frames only. -/
theorem skList_of_frames {t t' : Txq β} (h : t'.frames = t.frames) : t'.skList = t.skList :=
  congrArg (fun f => f.2.1) h

theorem fresh_of_frames {t t' : Txq β} (h : t'.frames = t.frames) : t'.fresh = t.fresh :=
  congrArg (fun f : Bool × List β × ℕ × Option β => if f.1 then f.2.1.drop f.2.2.1 else []) h

theorem again_of_frames {t t' : Txq β} (h : t'.frames = t.frames) : t'.again = t.again :=
  congrArg (fun f : Bool × List β × ℕ × Option β => if f.1 then f.2.1.take f.2.2.1 else []) h

/-- Two queues with the same frames queue alike. -/
theorem enqueue_frames [DecidableEq β] {t t' : Txq β} (h : t'.frames = t.frames) (skb : β)
    (retry : Bool) : (t'.enqueue skb retry).frames = (t.enqueue skb retry).frames := by
  obtain ⟨hact, hlist, hretry, hlast⟩ : t'.active = t.active ∧ t'.skList = t.skList ∧
      t'.nbRetry = t.nbRetry ∧ t'.lastRetrySkb = t.lastRetrySkb := by
    simpa only [frames, Prod.mk.injEq] using h
  cases retry <;> simp only [enqueue, frames, hact, hlist, hretry, hlast, if_true,
    Bool.false_eq_true, if_false]

end Txq

/-- What a step does with the frames of `q`: `xs` are queued on it, `rs` of the frames to send again
may be, `cs` are confirmed, and `lost` are forgotten. -/
structure Flow (q : TxqId) (xs rs cs lost : List β) (t : Txq β) (o : List (TxAct β)) (t' : Txq β) :
    Prop where
  fresh : (pushes q false o ++ t'.fresh).Sublist (t.fresh ++ xs)
  again : (pushes q true o ++ t'.again).Sublist (t.again ++ rs)
  held : (pushes q false o + pushes q true o + releases q o + t'.skList + lost : Multiset β) =
    t.skList + xs + cs
  warned : .warnRetry q ∉ o

/-- Frames leave the queue, and none enters it. -/
abbrev Drains (q : TxqId) (t : Txq β) (o : List (TxAct β)) (t' : Txq β) : Prop :=
  Flow q [] [] [] [] t o t'

namespace Flow

variable {xs rs cs lost : List β} {t t' t'' : Txq β} {o o' : List (TxAct β)}

/-- The flows of two steps add up, when no frame comes in the second. -/
theorem trans (h : Flow q xs rs cs lost t o t') (h' : Drains q t' o' t'') :
    Flow q xs rs cs lost t (o ++ o') t'' where
  fresh := by
    have := h'.fresh
    rw [List.append_nil] at this
    rw [pushes_append, List.append_assoc]
    exact (this.append_left _).trans h.fresh
  again := by
    have := h'.again
    rw [List.append_nil] at this
    rw [pushes_append, List.append_assoc]
    exact (this.append_left _).trans h.again
  held := by
    have := h'.held
    simp only [Multiset.coe_nil, add_zero] at this
    rw [← h.held, ← this]
    simp only [pushes_append, releases_append, ← Multiset.coe_add]
    abel
  warned hin := (List.mem_append.mp hin).elim h.warned h'.warned

/-- A flow depends on the frames only. -/
theorem congr {t₁ t₁' : Txq β} (h : Flow q xs rs cs lost t o t') (ht : t₁.frames = t.frames)
    (ht' : t₁'.frames = t'.frames) : Flow q xs rs cs lost t₁ o t₁' where
  fresh := by rw [Txq.fresh_of_frames ht, Txq.fresh_of_frames ht']; exact h.fresh
  again := by rw [Txq.again_of_frames ht, Txq.again_of_frames ht']; exact h.again
  held := by rw [Txq.skList_of_frames ht, Txq.skList_of_frames ht']; exact h.held
  warned := h.warned

/-- The frames stay. -/
theorem still (h : t'.frames = t.frames) (ho : Silent q o) : Drains q t o t' := by
  have hsame : Drains q t o t := ?_
  · exact hsame.congr rfl h
  refine ⟨?_, ?_, ?_, ho.warned⟩
  · rw [ho.pushes, List.append_nil]
    exact .refl _
  · rw [ho.pushes, List.append_nil]
    exact .refl _
  · simp only [ho.pushes, ho.releases, Multiset.coe_nil, zero_add, add_zero]

/-- What the frames of an inactive queue do is of no account for the order. -/
theorem off (ht' : t'.active = false) (hp : ∀ again, pushes q again o = [])
    (hw : .warnRetry q ∉ o)
    (held : (releases q o + t'.skList + lost : Multiset β) = t.skList + xs + cs) :
    Flow q xs rs cs lost t o t' := by
  -- an inactive queue has no frames of either kind
  have hf : t'.fresh = [] := if_neg (by simp [ht'])
  have ha : t'.again = [] := if_neg (by simp [ht'])
  refine ⟨?_, ?_, ?_, hw⟩
  · rw [hp, hf]
    exact List.nil_sublist _
  · rw [hp, ha]
    exact List.nil_sublist _
  · simpa only [hp, Multiset.coe_nil, zero_add] using held

/-- The frames of an inactive queue are released, and none of them counts for the order. -/
theorem flush (ht : t.active = false) :
    Drains q t (t.skList.map (.kfreeSkb q)) { t with skList := [] } := by
  refine off ht (fun again => ?_) (fun hin => ?_) ?_
  · rw [pushes, List.filterMap_map]
    exact List.filterMap_eq_nil_iff.mpr fun _ _ => rfl
  · obtain ⟨skb, -, heq⟩ := List.mem_map.mp hin
    cases heq
  · have : releases q (t.skList.map (.kfreeSkb q)) = t.skList := by
      rw [releases, List.filterMap_map]
      exact (List.filterMap_congr fun _ _ => if_pos rfl).trans List.filterMap_some
    simp only [this, Multiset.coe_nil, add_zero]

end Flow

/-! ### Steps that leave the frames alone -/

/-- No queue gets or loses a frame. -/
def Still (s u : RwnxHw β) : Prop := ∀ q, (u.txq q).frames = (s.txq q).frames

namespace Still

variable {s t u : RwnxHw β}

theorem refl (s : RwnxHw β) : Still s s := fun _ => rfl

theorem trans (h : Still s t) (h' : Still t u) : Still s u := fun q => (h' q).trans (h q)

/-- One queue changes, and keeps its frames. -/
theorem update {x : Txq β} (htxq : u.txq = Function.update s.txq q x)
    (hx : x.frames = (s.txq q).frames) : Still s u := fun q' => by
  rw [htxq, Function.update_apply]
  split
  · next h => rw [hx, h]
  · rfl

/-- A loop over queues leaves the frames alone when each round does. -/
theorem foldl {ι : Type*} {f : RwnxHw β → ι → RwnxHw β} (hf : ∀ s i, Still s (f s i))
    (l : List ι) (s : RwnxHw β) : Still s (l.foldl f s) :=
  List.foldlRecOn (motive := Still s) l f (refl s) fun _ hu i _ => hu.trans (hf _ i)

theorem start (s : RwnxHw β) (q : TxqId) (reason : TxqFlag) : Still s (txqStart s q reason) := by
  obtain ⟨status, heq, -⟩ := (s.txq q).start_eq reason
  exact update (txqStart_txq s q reason) (by rw [heq]; rfl)

theorem stop (s : RwnxHw β) (q : TxqId) {reason : TxqFlag} (hr : reason ≠ .inHwqList) :
    Still s (txqStop s q reason) := by
  obtain ⟨status, heq, -⟩ := (s.txq q).stop_eq hr
  exact update (txqStop_txq s q reason) (by rw [heq]; rfl)

theorem add (s : RwnxHw β) (q : TxqId) : Still s (txqAddToHwList s q) :=
  update (txqAddToHwList_txq s q) rfl

theorem psEnable (s : RwnxHw β) (i : StaId) : Still s (psEnable s i) := by
  have h : Still s (i.txqs.foldl (fun s q => txqStop s q .stopStaPs) s) :=
    foldl (fun s q => stop s q (by decide)) i.txqs s
  exact fun q => h q

theorem clearPushLimit (s : RwnxHw β) (qs : List TxqId) : Still s (clearPushLimit s qs) :=
  foldl (fun s q => update (x := { s.txq q with pushLimit := 0 }) rfl rfl) qs s

theorem psDisable (s : RwnxHw β) (i : StaId) : Still s (psDisable s i) :=
  trans (clearPushLimit (s.setPs i { s.ps i with active := false }) i.txqs)
    (foldl (fun s q => start s q .stopStaPs) i.txqs _)

theorem grant (s : RwnxHw β) (i : StaId) (psId : PsId) (q : TxqId) (n : ℕ) :
    Still s (grant s i psId q n) :=
  trans (t := s.setTxq q { s.txq q with pushLimit := n % 2 ^ 8 }) (update rfl rfl)
    (fun q' => add _ q q')

/-- Granting frames moves none, by induction on the queues that are left. -/
theorem dispatch (i : StaId) (psId : PsId) (qs : List TxqId) (pktReq : ℕ) (s : RwnxHw β) :
    Still s (dispatch i psId qs pktReq s) := by
  induction qs generalizing pktReq s with
  | nil => exact refl s
  | cons q qs ih =>
    simp only [LonganPi.Wifi.dispatch]
    generalize (if (s.txq q).credits < ((s.txq q).skList.length % 2 ^ 16 : ℕ)
      then u16 (s.txq q).credits else (s.txq q).skList.length % 2 ^ 16) = txqLen
    split
    · exact ih pktReq s
    split
    · exact ih pktReq s
    split
    · exact (grant s i psId q _).trans (ih _ _)
    · exact grant s i psId q pktReq

theorem psTrafficReq (s : RwnxHw β) (i : StaId) (pktReq : ℕ) (psId : PsId) :
    Still s (psTrafficReq s i pktReq psId) := by
  simp only [LonganPi.Wifi.psTrafficReq]
  split
  · exact refl s
  split
  · exact fun q => clearPushLimit _ i.txqs q
  split
  · exact refl s
  cases i with
  | remote n => exact dispatch _ _ _ _ s
  | bcmc v => exact grant s _ _ _ _

theorem creditUpdate (s : RwnxHw β) (q : TxqId) : Still s (txqCreditUpdate s q) := by
  simp only [txqCreditUpdate]
  split
  · split
    · exact stop s q (by decide)
    · exact start s q .stopFull
  · exact refl s

/-- A step that moves no frame and tells nothing. -/
theorem drains (h : Still s u) (q : TxqId) : Drains q (s.txq q) [] (u.txq q) :=
  Flow.still (h q) fun _ ha => absurd ha List.not_mem_nil

end Still

/-! ### Pushing frames -/

section Pushing

variable [DecidableEq β] {s : RwnxHw β}

omit [DecidableEq β] in
/-- A push may tell the firmware that nothing is left for a station. -/
theorem setMoreDataFlag_quiet (s : RwnxHw β) (q : TxqId) :
    ∀ a ∈ (setMoreDataFlag s q).2.1, a.Quiet := by
  have hnil : ∀ a ∈ ([] : List (TxAct β)), a.Quiet := fun _ h => absurd h List.not_mem_nil
  rw [setMoreDataFlag]
  split
  · exact hnil
  split
  · simp only
    split
    · exact hnil
    · exact List.forall_mem_singleton.mpr trivial
  · exact hnil

/-- A frame is pushed, with messages and a warning before it. -/
theorem txPush_eq (s : RwnxHw β) (q : TxqId) (skb : β) : ∃ tell moreData eosp,
    (txPush s q skb).1 = (if (s.txq q).nbRetry = 1 ∧ (s.txq q).lastRetrySkb ≠ some skb
      then [.warnRetry q] else []) ++ tell ++ [.push q skb ((s.txq q).nbRetry ≠ 0) moreData eosp] ∧
    (∀ a ∈ tell, a.Quiet) ∧ (txPush s q skb).2.txq q = (s.txq q).push := by
  refine ⟨_, _, _, rfl, setMoreDataFlag_quiet s q, ?_⟩
  rw [txPush, RwnxHw.setTxq_txq, Function.update_self]

/-- A push is about the frames of one queue. -/
theorem txPush_silent (h : q' ≠ q) (s : RwnxHw β) (skb : β) : Silent q' (txPush s q skb).1 := by
  obtain ⟨tell, moreData, eosp, heq, htell, -⟩ := txPush_eq s q skb
  have hne : some q ≠ some q' := fun heq => h (Option.some.inj heq).symm
  rw [heq]
  refine Silent.append (.append ?_ (.of_quiet htell)) (List.forall_mem_singleton.mpr hne)
  split
  · exact List.forall_mem_singleton.mpr hne
  · exact fun _ ha => absurd ha List.not_mem_nil

/-- So are the pushes of a round. -/
theorem txPushAll_silent (h : q' ≠ q) (s : RwnxHw β) (l : List β) :
    Silent q' (txPushAll s q l).1 := by
  induction l generalizing s with
  | nil => exact fun _ ha => absurd ha List.not_mem_nil
  | cons skb l ih => exact (txPush_silent h s skb).append (ih _)

/-- A push is of a frame to be sent again exactly while some are left. -/
theorem txPush_pushes (s : RwnxHw β) (q : TxqId) (skb : β) (again : Bool) :
    pushes q again (txPush s q skb).1 =
      if decide ((s.txq q).nbRetry ≠ 0) = again then [skb] else [] := by
  obtain ⟨tell, moreData, eosp, heq, htell, -⟩ := txPush_eq s q skb
  -- a warning is no push
  have hwarn : ∀ p : Prop, ∀ [Decidable p],
      pushes q again (if p then [(.warnRetry q : TxAct β)] else []) = [] := by
    intro p _
    split <;> rfl
  rw [heq, pushes_append, pushes_append, hwarn, (Silent.of_quiet htell).pushes, List.nil_append,
    List.nil_append]
  by_cases hb : decide ((s.txq q).nbRetry ≠ 0) = again
  · rw [if_pos hb]
    exact List.filterMap_cons_some (if_pos ⟨rfl, hb⟩)
  · rw [if_neg hb]
    exact List.filterMap_cons_none (if_neg fun h => hb h.2)

/-- The frames to be sent again are pushed first. -/
theorem txPushAll_pushes (s : RwnxHw β) (q : TxqId) (l : List β) :
    pushes q false (txPushAll s q l).1 = l.drop (s.txq q).nbRetry ∧
      pushes q true (txPushAll s q l).1 = l.take (s.txq q).nbRetry := by
  induction l generalizing s with
  | nil => exact ⟨List.drop_nil.symm, List.take_nil.symm⟩
  | cons skb l ih =>
    -- the count of frames to be sent again goes down with each push, until it is 0
    obtain ⟨-, -, -, -, -, hself⟩ := txPush_eq s q skb
    obtain ⟨m, hm⟩ := (s.txq q).push_eq
    obtain ⟨hfresh, hagain⟩ := ih (txPush s q skb).2
    rw [hself, hm] at hfresh hagain
    simp only [txPushAll, pushes_append, txPush_pushes, hfresh, hagain]
    cases (s.txq q).nbRetry <;> simp

/-- A push releases nothing. -/
theorem txPushAll_releases (s : RwnxHw β) (q : TxqId) (l : List β) :
    releases q (txPushAll s q l).1 = [] := by
  induction l generalizing s with
  | nil => rfl
  | cons skb l ih =>
    obtain ⟨tell, moreData, eosp, heq, htell, -⟩ := txPush_eq s q skb
    rw [txPushAll, releases_append, ih, heq, releases_append, releases_append,
      (Silent.of_quiet htell).releases]
    split <;> rfl

/-- The last frame to be sent again is the expected one. -/
theorem txPushAll_warned (l rest : List β)
    (hn : (s.txq q).nbRetry ≤ (l ++ rest).length)
    (h : (s.txq q).lastRetrySkb = ((l ++ rest).take (s.txq q).nbRetry).getLast?) :
    .warnRetry q ∉ (txPushAll s q l).1 := by
  induction l generalizing s with
  | nil => exact List.not_mem_nil
  | cons skb l ih =>
    obtain ⟨tell, moreData, eosp, heq, htell, hself⟩ := txPush_eq s q skb
    have hlast := Txq.lastRetry_push hn h
    obtain ⟨m, hm⟩ := (s.txq q).push_eq
    have hrest : .warnRetry q ∉ (txPushAll (txPush s q skb).2 q l).1 :=
      ih (by rw [hself, hm]; exact Nat.sub_le_of_le_add hn) (by rw [hself, hlast]; rfl)
    -- the last of them is the frame that is pushed
    have hfine : ¬((s.txq q).nbRetry = 1 ∧ (s.txq q).lastRetrySkb ≠ some skb) := by
      rintro ⟨hone, hne⟩
      rw [h, hone] at hne
      exact hne rfl
    rw [txPushAll, heq, if_neg hfine, List.nil_append]
    simp only [List.mem_append, List.mem_singleton, reduceCtorEq, or_false]
    exact fun hin => hin.elim (fun hin => (htell _ hin).elim) hrest

variable {u : RwnxHw β} {o : List (TxAct β)}

/-- A round is about the frames of one queue. -/
theorem Visit.silent (hv : Visit s q o u) (h : q' ≠ q) : Silent q' o := by
  have hne : some q ≠ some q' := fun heq => h (Option.some.inj heq).symm
  cases hv with
  | push _ _ _ hwake =>
    refine (txPushAll_silent h _ _).append (.of_quiet ?_)
    rcases hwake with rfl | rfl
    · exact fun _ ha => absurd ha List.not_mem_nil
    · exact List.forall_mem_singleton.mpr trivial
  | flush => exact List.forall_mem_map.mpr fun _ _ => hne

/-- A round of the loop moves the first frames of a queue to the bus, or frees those of an inactive
one. -/
theorem Visit.drains (hs : Sched s) (hv : Visit s q o u) (q' : TxqId) :
    Drains q' (s.txq q') o (u.txq q') := by
  by_cases hq : q' = q
  swap
  · -- another queue is left alone
    exact Flow.still (by rw [hv.txq_of_ne hq]) (hv.silent hq)
  subst hq
  cases hv with
  | @push k wake t _ hact hpos hlen hwake htxq hv hlists hps =>
    have hok := (hs.queues q').ok hact
    have hquiet : ∀ a ∈ wake, a.Quiet := by
      rcases hwake with rfl | rfl
      · exact fun _ ha => absurd ha List.not_mem_nil
      · exact List.forall_mem_singleton.mpr trivial
    have hsilent : Silent q' wake := .of_quiet hquiet
    -- the frames are taken off first, and pushed then
    set s₀ := s.setTxq q' { s.txq q' with skList := (s.txq q').skList.drop k } with hs₀
    have hself : s₀.txq q' = { s.txq q' with skList := (s.txq q').skList.drop k } := by
      rw [hs₀, RwnxHw.setTxq_txq, Function.update_self]
    obtain ⟨hfresh, hagain⟩ := txPushAll_pushes s₀ q' ((s.txq q').skList.take k)
    have hlist := List.take_append_drop k (s.txq q').skList
    have htake : ((s.txq q').skList.take k).length = k := List.length_take_of_le hlen
    rw [hself] at hfresh hagain
    rw [htxq, Function.update_self]
    refine ⟨?_, ?_, ?_, fun hin => ?_⟩
    · -- those that were never sent: what was pushed of them, and the rest
      have hsplit : (s.txq q').fresh =
          ((s.txq q').skList.take k).drop (s.txq q').nbRetry ++ t.fresh := by
        rw [Txq.fresh, if_pos hact, Txq.fresh, if_pos (hv.active.trans hact), hv.skList, hv.nbRetry]
        conv_lhs => rw [← hlist, List.drop_append, htake]
      rw [pushes_append, hfresh, hsilent.pushes, List.append_nil, List.append_nil, hsplit]
    · -- those to be sent again: likewise
      have hsplit : (s.txq q').again =
          ((s.txq q').skList.take k).take (s.txq q').nbRetry ++ t.again := by
        rw [Txq.again, if_pos hact, Txq.again, if_pos (hv.active.trans hact), hv.skList, hv.nbRetry]
        conv_lhs => rw [← hlist, List.take_append, htake]
      rw [pushes_append, hagain, hsilent.pushes, List.append_nil, List.append_nil, hsplit]
    · -- no frame is lost between the two kinds
      have hsplit := List.take_append_drop (s.txq q').nbRetry ((s.txq q').skList.take k)
      rw [pushes_append, hfresh, pushes_append, hagain, releases_append, txPushAll_releases,
        hsilent.pushes, hsilent.pushes, hsilent.releases, hv.skList]
      simp only [List.append_nil, Multiset.coe_nil, add_zero]
      conv_rhs => rw [← hlist, ← hsplit]
      simp only [← Multiset.coe_add]
      abel
    · -- the last frame to be sent again was known
      refine (List.mem_append.mp hin).elim
        (txPushAll_warned _ ((s.txq q').skList.drop k) ?_ ?_) hsilent.warned <;> rw [hself, hlist]
      · exact hok.nbRetry
      · exact hok.lastRetry
  | flush hact htxq =>
    -- the queue is inactive, and is emptied
    rw [htxq, Function.update_self]
    exact (Flow.flush hact).congr rfl rfl

/-- The loop drains the queues. -/
theorem drains_compositional :
    Compositional fun (s : RwnxHw β) o u => ∀ q, Drains q (s.txq q) o (u.txq q) where
  refl s q := (Still.refl s).drains q
  trans _ _ _ _ _ h h' q := (h q).trans (h' q)
  setHwq _ _ _ q := Still.drains (fun _ => rfl) q
  visit _ _ _ _ hs hv := hv.drains hs

end Pushing

/-! ### Queueing frames -/

section Queueing

variable [DecidableEq β] {s : RwnxHw β} {t : Txq β} {skb : β} {o : List (TxAct β)}

/-- A frame comes to the end of those that were never sent. -/
theorem Flow.enqueue (hlen : t.active → t.nbRetry ≤ t.skList.length) (ho : ∀ a ∈ o, a.Quiet) :
    Flow q [skb] [] [] [] t o (t.enqueue skb false) := by
  have hsilent : Silent q o := .of_quiet ho
  refine ⟨?_, ?_, ?_, hsilent.warned⟩
  · -- the new frame is the last that was never sent
    rw [hsilent.pushes, List.nil_append, Txq.fresh, Txq.fresh]
    change (if t.active then (t.skList ++ [skb]).drop t.nbRetry else []).Sublist _
    split
    · next h => rw [List.drop_append_of_le_length (hlen h)]
    · exact List.nil_sublist _
  · -- the frames to be sent again are those that were
    rw [hsilent.pushes, List.nil_append, List.append_nil, Txq.again, Txq.again]
    change (if t.active then (t.skList ++ [skb]).take t.nbRetry else []).Sublist _
    split
    · next h => rw [List.take_append_of_le_length (hlen h)]
    · exact List.Sublist.refl _
  · rw [hsilent.pushes, hsilent.pushes, hsilent.releases]
    change ((0 + 0 + 0 + (t.skList ++ [skb] : List β) + 0 : Multiset β)) = _
    simp only [← Multiset.coe_add, zero_add, add_zero, Multiset.coe_nil]

/-- A frame that is sent again comes to the end of those of its kind. -/
theorem Flow.enqueue_retry (ht : t.Ok) (hact : t.active) (ho : ∀ a ∈ o, a.Quiet) :
    Flow q [] [skb] [skb] [] t o (t.enqueue skb true) := by
  have hsilent : Silent q o := .of_quiet ho
  have hlist := ht.enqueue_retry skb
  have htake : (t.skList.take t.nbRetry).length = t.nbRetry := List.length_take_of_le ht.nbRetry
  -- the frames that were never sent stay behind the new one
  have hfresh : (t.enqueue skb true).fresh = t.fresh := by
    rw [Txq.fresh, hlist, Txq.fresh]
    change (if t.active then List.drop (t.nbRetry + 1) _ else []) = _
    rw [List.append_cons, List.drop_left' (by rw [List.length_append, htake]; rfl)]
  have hagain : (t.enqueue skb true).again = t.again ++ [skb] := by
    rw [Txq.again, hlist, Txq.again, if_pos hact]
    change (if t.active then List.take (t.nbRetry + 1) _ else []) = _
    rw [if_pos hact, List.append_cons, List.take_left' (by rw [List.length_append, htake]; rfl)]
  refine ⟨?_, ?_, ?_, hsilent.warned⟩
  · rw [hsilent.pushes, List.nil_append, List.append_nil, hfresh]
  · rw [hsilent.pushes, List.nil_append, hagain]
  · have hsplit := List.take_append_drop t.nbRetry t.skList
    rw [hsilent.pushes, hsilent.pushes, hsilent.releases, hlist]
    conv_rhs => rw [← hsplit]
    rw [List.append_cons]
    simp only [← Multiset.coe_add, zero_add, add_zero, Multiset.coe_nil]
    abel

/-- Only the queue that gets the frame changes. -/
theorem txqQueueSkb_frames (hs : Lists s) (q : TxqId) (skb : β) (retry : Bool) :
    (∀ a ∈ (txqQueueSkb s q skb retry).1, a.Quiet) ∧
      ((txqQueueSkb s q skb retry).2.1.txq q).frames = ((s.txq q).enqueue skb retry).frames ∧
      ∀ q', q' ≠ q → (txqQueueSkb s q skb retry).2.1.txq q' = s.txq q' := by
  obtain ⟨full, o, u, listed, hrun, hquiet, -, -, htxq⟩ := txqQueueSkb_spec hs q skb retry
  obtain ⟨status, hqueued, -⟩ := (s.txq q).queued_eq skb retry full
  rw [hrun]
  refine ⟨hquiet, ?_, fun q' hne => ?_⟩
  · change (u.txq q).frames = _
    rw [htxq, Function.update_self, hqueued]
    rfl
  · change u.txq q' = _
    rw [htxq, Function.update_of_ne hne]

end Queueing

/-! ### What a call brings -/

/-- The frame that is queued on `q`. -/
def TxOp.queued? (q : TxqId) : TxOp β → Option β
  | .xmit q' skb => if q' = q then some skb else none
  | _ => none

/-- The frame of `q` that the firmware has done with. -/
def TxOp.confirmed? (q : TxqId) : TxOp β → Option β
  | .cfm q' skb _ _ => if q' = q then some skb else none
  | _ => none

/-- The frame of `q` that the firmware gives back to be sent again. -/
def TxOp.resent? (q : TxqId) : TxOp β → Option β
  | .cfm q' skb mgmt retry => if q' = q ∧ mgmt = false ∧ retry = true then some skb else none
  | _ => none

/-- The frames that are queued on `q`. -/
def xmits (q : TxqId) (ops : List (TxOp β)) : List β := ops.filterMap (TxOp.queued? q)

/-- The frames of `q` that are confirmed. -/
def confirms (q : TxqId) (ops : List (TxOp β)) : List β := ops.filterMap (TxOp.confirmed? q)

/-- The frames of `q` that are given back. -/
def resends (q : TxqId) (ops : List (TxOp β)) : List β := ops.filterMap (TxOp.resent? q)

/-- The queues that are set up, and forget what they had. -/
def TxOp.setUp : TxOp β → List TxqId
  | .addSta n _ _ _ | .connect n _ _ => (StaId.remote n).txqs
  | .startAp v _ => [.bcmc v, .unk v]
  | .unkInit v => [.unk v]
  | .offchanInit => [.offchan]
  | _ => []

/-- The frames that the call makes the driver forget. -/
def TxOp.lost (op : TxOp β) (q : TxqId) (s : RwnxHw β) : List β :=
  if q ∈ op.setUp then (s.txq q).skList else []

/-- The queues of a station are emptied, and the others are not. -/
theorem txqStaInit_frames (s : RwnxHw β) (n : ℕ) (status : Finset TxqFlag) (uapsd : Fin 9 → Bool)
    (q : TxqId) : ((txqStaInit s n status uapsd).txq q).frames =
      if q ∈ (StaId.remote n).txqs then (true, [], 0, none) else (s.txq q).frames := by
  -- by induction on the queues that are still to be set up
  have hfold : ∀ (tids : List (Fin 9)) (s : RwnxHw β), ((tids.foldl (fun s tid =>
      txqInit s (.sta n tid) status (if uapsd tid then .uapsd else .legacy)) s).txq q).frames =
      if ∃ tid ∈ tids, q = .sta n tid then (true, [], 0, none) else (s.txq q).frames := by
    intro tids
    induction tids with
    | nil =>
      intro s
      refine (if_neg ?_).symm
      rintro ⟨_, h, _⟩
      exact absurd h List.not_mem_nil
    | cons tid tids ih =>
      intro s
      rw [List.foldl_cons, ih, txqInit, RwnxHw.setTxq_txq, Function.update_apply]
      by_cases hq : q = .sta n tid
      · rw [if_pos hq]
        exact ite_self _ |>.trans (if_pos ⟨tid, List.mem_cons_self, hq⟩).symm
      · rw [if_neg hq]
        refine if_congr ⟨?_, ?_⟩ rfl rfl
        · rintro ⟨x, hx, rfl⟩
          exact ⟨x, List.mem_cons_of_mem _ hx, rfl⟩
        · rintro ⟨x, hx, rfl⟩
          exact ⟨x, (List.mem_cons.mp hx).resolve_left fun h => hq (congrArg _ h), rfl⟩
  refine (hfold _ s).trans (if_congr ⟨?_, fun h => ?_⟩ rfl rfl)
  · rintro ⟨tid, -, rfl⟩
    exact StaId.mem_txqs.mpr rfl
  · obtain ⟨tid, htid, rfl⟩ := List.mem_map.mp h
    exact ⟨tid, htid, rfl⟩

/-- A queue that is set up is empty. -/
theorem Flow.init {t t' : Txq β} {p : Prop} [Decidable p]
    (h : t'.frames = if p then (true, [], 0, none) else t.frames) :
    Flow q [] [] [] (if p then t.skList else []) t [] t' := by
  by_cases hp : p
  · rw [if_pos hp] at h ⊢
    have hnew : Flow q [] [] [] t.skList t [] ⟨true, ∅, 0, 0, [], none, 0, 0, .legacy⟩ := ?_
    · exact hnew.congr rfl h
    refine ⟨List.nil_sublist _, List.nil_sublist _, ?_, List.not_mem_nil⟩
    simp only [pushes_nil, releases_nil, Multiset.coe_nil, zero_add, add_zero]
  · rw [if_neg hp] at h ⊢
    exact Flow.still h fun _ ha => absurd ha List.not_mem_nil

/-! ### Steps -/

section Steps

variable [DecidableEq β] {s u : RwnxHw β} {o : List (TxAct β)}

/-- `rwnx_txq_queue_skb` brings one frame to one queue. -/
theorem xmit_flow (hs : Lists s) {q₀ : TxqId} (skb : β)
    (hlen : (s.txq q₀).active → (s.txq q₀).nbRetry ≤ (s.txq q₀).skList.length) (q : TxqId) :
    Flow q (xmits q [.xmit q₀ skb]) [] [] [] (s.txq q) (txqQueueSkb s q₀ skb false).1
      ((txqQueueSkb s q₀ skb false).2.1.txq q) := by
  obtain ⟨hquiet, hself, hother⟩ := txqQueueSkb_frames hs q₀ skb false
  by_cases hq : q = q₀
  · -- the queue gets the frame
    subst hq
    have hx : xmits q [.xmit q skb] = [skb] := List.filterMap_cons_some (if_pos rfl)
    rw [hx]
    exact (Flow.enqueue hlen hquiet).congr rfl hself
  · -- another queue is left alone
    have hx : xmits q [.xmit q₀ skb] = [] := List.filterMap_cons_none (if_neg (Ne.symm hq))
    rw [hx]
    exact Flow.still (by rw [hother q hq]) (.of_quiet hquiet)

/-- The credit of a frame to be sent again, and the start of the queue, change no frames. -/
theorem txRetry_eq (hs : Lists s) (q : TxqId) (skb : β) : ∃ t, Still s t ∧ Lists t ∧
    txRetry s q skb = ((txqQueueSkb t q skb true).1, (txqQueueSkb t q skb true).2.1) := by
  set t₁ := s.setTxq q { s.txq q with credits := s8 ((s.txq q).credits + 1) } with ht₁
  have hstill : Still s t₁ := .update rfl rfl
  have hlists : Lists t₁ := hs.setTxq rfl
  refine ⟨_, ?_, ?_, rfl⟩
  · split
    · exact hstill.trans (.start t₁ q .stopFull)
    · exact hstill
  · split
    · exact hlists.start q (by decide)
    · exact hlists

/-- A confirmation releases its frame, or queues it to be sent again. -/
theorem cfm_flow (hs : Sched s) (q₀ : TxqId) (skb : β) (mgmt retry : Bool) (q : TxqId) :
    Flow q [] (resends q [.cfm q₀ skb mgmt retry]) (confirms q [.cfm q₀ skb mgmt retry]) []
      (s.txq q) (txdatacfm s q₀ skb mgmt retry).1 ((txdatacfm s q₀ skb mgmt retry).2.txq q) := by
  by_cases hq : q = q₀
  · subst hq
    have hc : confirms q [.cfm q skb mgmt retry] = [skb] := List.filterMap_cons_some (if_pos rfl)
    have hrel : releases q [.consumeSkb q skb] = [skb] := List.filterMap_cons_some (if_pos rfl)
    -- the frame is released, whether the bus is up or down
    have hsame : Flow q [] (resends q [.cfm q skb mgmt retry]) [skb] [] (s.txq q)
        [.consumeSkb q skb] (s.txq q) := by
      refine ⟨?_, List.sublist_append_left _ _, ?_, List.mem_singleton.not.mpr (by simp)⟩
      · rw [List.append_nil]
        exact .refl _
      · rw [hrel]
        simp only [pushes, List.filterMap_cons, TxAct.pushed?, List.filterMap_nil,
          Multiset.coe_nil, zero_add, add_zero]
        exact add_comm _ _
    rw [hc, txdatacfm]
    split
    · exact hsame
    simp only [txdatacfmUp]
    split
    · -- the frame is to be sent again, and is not released
      next h =>
      have hr : resends q [.cfm q skb mgmt retry] = [skb] :=
        List.filterMap_cons_some (if_pos ⟨rfl, h.1, h.2.2⟩)
      obtain ⟨t, hstill, hlists, heq⟩ := txRetry_eq (hs.setHwq true).lists q skb
      obtain ⟨hquiet, hself, -⟩ := txqQueueSkb_frames hlists q skb true
      rw [hr, heq]
      exact (Flow.enqueue_retry ((hs.queues q).ok h.2.1) h.2.1 hquiet).congr rfl
        (hself.trans (Txq.enqueue_frames (hstill q) skb true))
    · -- the frame is released; the queue may enter its list
      refine hsame.congr rfl ?_
      change Txq.frames (RwnxHw.txq (if _ then _ else _) q) = _
      split
      · exact Still.add _ q q
      · rfl
  · -- another queue is left alone
    have hc : confirms q [.cfm q₀ skb mgmt retry] = [] :=
      List.filterMap_cons_none (if_neg (Ne.symm hq))
    have hr : resends q [.cfm q₀ skb mgmt retry] = [] :=
      List.filterMap_cons_none (if_neg fun h => hq h.1.symm)
    have hsilent : Silent q [TxAct.consumeSkb q₀ skb] :=
      List.forall_mem_singleton.mpr fun h => hq (Option.some.inj h).symm
    rw [hc, hr, txdatacfm]
    split
    · exact Flow.still rfl hsilent
    simp only [txdatacfmUp]
    split
    · obtain ⟨t, hstill, hlists, heq⟩ := txRetry_eq (hs.setHwq true).lists q₀ skb
      obtain ⟨hquiet, -, hother⟩ := txqQueueSkb_frames hlists q₀ skb true
      rw [heq]
      exact Flow.still (by rw [hother q hq]; exact hstill q) (.of_quiet hquiet)
    · refine Flow.still ?_ hsilent
      change Txq.frames (RwnxHw.txq (if _ then _ else _) q) = _
      split
      · exact Still.add _ q₀ q
      · rfl

/-- What each step does with the frames of each queue. -/
theorem step_flow (hs : Sched s) {op : TxOp β} (h : op.Sound s)
    (hstep : (txMachine β).step s op = some (o, u)) (q : TxqId) :
    Flow q (xmits q [op]) (resends q [op]) (confirms q [op]) (op.lost q s) (s.txq q) o
      (u.txq q) := by
  cases op with
  | xmit q₀ skb =>
    have hlen : (s.txq q₀).active → (s.txq q₀).nbRetry ≤ (s.txq q₀).skList.length := fun hact =>
      ((hs.queues q₀).ok hact).nbRetry
    have hqueue : Sched (txqQueueSkb s q₀ skb false).2.1 := hs.queueSkb false fun _ => h
    have hflow := xmit_flow hs.lists skb hlen q
    simp only [txMachine] at hstep
    split at hstep
    · -- the frame is queued, and the list is processed at once
      obtain ⟨o', t, hrun, -, hdrain⟩ := hwqProcess_spec drains_compositional hqueue q₀.hwq
      rw [hrun, Option.map_some, Option.some.injEq, Prod.mk.injEq] at hstep
      obtain ⟨rfl, rfl⟩ := hstep
      exact hflow.trans (hdrain q)
    · cases hstep
      exact hflow
  | start qs reason =>
    cases hstep
    exact (Still.foldl (fun s q => .start s q reason.flag) qs s).drains q
  | stop qs reason =>
    cases hstep
    exact (Still.foldl (fun s q => .stop s q reason.flag_ne) qs s).drains q
  | addSta n v uapsd pmState =>
    -- the queues of the station are emptied, and what is done for power save moves no frame
    cases hstep
    refine Flow.init ?_
    refine Eq.trans ?_ (txqStaInit_frames s n (txqVifGetStatus s v) uapsd q)
    split
    · exact Still.psEnable _ _ q
    · exact Still.psDisable _ _ q
  | connect n chan uapsd =>
    cases hstep
    exact Flow.init (txqStaInit_frames _ n _ uapsd q)
  | startAp v chan =>
    cases hstep
    refine Flow.init ?_
    simp only [txqInit, RwnxHw.setTxq_txq, Function.update_apply]
    by_cases hb : q = .bcmc v
    · simp [TxOp.setUp, hb, Txq.frames]
    · by_cases hu : q = .unk v <;> simp [TxOp.setUp, hb, hu, Txq.frames]
  | unkInit v =>
    cases hstep
    refine Flow.init ?_
    simp only [txqInit, RwnxHw.setTxq_txq, Function.update_apply]
    by_cases hu : q = .unk v <;> simp [TxOp.setUp, hu, Txq.frames]
  | offchanInit =>
    cases hstep
    refine Flow.init ?_
    simp only [txqInit, RwnxHw.setTxq_txq, Function.update_apply]
    by_cases hu : q = .offchan <;> simp [TxOp.setUp, hu, Txq.frames]
  | delSta i =>
    cases hstep
    exact (Still.refl s).drains q
  | deinit q₀ =>
    -- the frames of the queue stay until it is flushed, and do not count for the order any more
    cases hstep
    rw [txqDeinit]
    split
    swap
    · exact (Still.refl s).drains q
    rw [RwnxHw.setTxq_txq, txqDelFromHwList_txq, Function.update_self, Function.update_idem]
    by_cases hq : q = q₀
    · subst hq
      rw [Function.update_self]
      refine Flow.off rfl (fun _ => rfl) List.not_mem_nil ?_
      rw [releases_nil, Multiset.coe_nil, zero_add]
      exact (add_zero _).symm
    · rw [Function.update_of_ne hq]
      exact (Still.refl s).drains q
  | flush q₀ =>
    -- the queue is inactive, so its frames are released
    cases hstep
    rw [RwnxHw.setTxq_txq]
    by_cases hq : q = q₀
    · subst hq
      rw [Function.update_self]
      exact Flow.flush h
    · rw [Function.update_of_ne hq]
      exact Flow.still rfl (List.forall_mem_map.mpr fun _ _ h => hq (Option.some.inj h).symm)
  | psChange i psState =>
    -- queues are stopped or started, and no frame moves
    cases hstep
    refine Still.drains ?_ q
    split
    · exact .psEnable s i
    · exact .psDisable s i
  | trafficReq i pktCnt psId =>
    cases hstep
    exact (Still.psTrafficReq s i pktCnt psId).drains q
  | task =>
    -- the lists are processed, which only drains
    obtain ⟨o', t, hrun, -, hdrain⟩ :=
      hwqProcessAll_spec drains_compositional hs [.bcmc, .vo, .vi, .be, .bk]
    cases hrun.symm.trans hstep
    exact hdrain q
  | cfm q₀ skb mgmt retry =>
    have hflow := cfm_flow hs q₀ skb mgmt retry q
    have hrun : txdatacfm s q₀ skb mgmt retry = (o, u) := Option.some.inj hstep
    rw [hrun] at hflow
    exact hflow
  | creditUpdate q₀ =>
    cases hstep
    exact (Still.creditUpdate s q₀).drains q
  | busy _ | usbState _ =>
    cases hstep
    exact (Still.refl s).drains q

end Steps

/-! ### Runs -/

variable [DecidableEq β]

/-- What is promised when frames leave a queue in the order they came in. -/
def InOrder (ops : List (TxOp β)) (acts : List (TxAct β)) (s : RwnxHw β) (q : TxqId) : Prop :=
  (pushes q false acts ++ (s.txq q).fresh).Sublist (xmits q ops) ∧
    (pushes q true acts ++ (s.txq q).again).Sublist (resends q ops) ∧ .warnRetry q ∉ acts

omit [DecidableEq β] in
theorem InOrder.step {ops : List (TxOp β)} {acts o : List (TxAct β)} {s u : RwnxHw β} {op : TxOp β}
    (h : InOrder ops acts s q) (hflow : Flow q (xmits q [op]) (resends q [op]) (confirms q [op])
      (op.lost q s) (s.txq q) o (u.txq q)) : InOrder (ops ++ [op]) (acts ++ o) u q := by
  obtain ⟨hfresh, hagain, hwarn⟩ := h
  refine ⟨?_, ?_, fun hin => (List.mem_append.mp hin).elim hwarn hflow.warned⟩
  · rw [pushes_append, List.append_assoc, xmits, List.filterMap_append]
    refine (hflow.fresh.append_left _).trans ?_
    rw [← List.append_assoc]
    exact hfresh.append (.refl _)
  · rw [pushes_append, List.append_assoc, resends, List.filterMap_append]
    refine (hflow.again.append_left _).trans ?_
    rw [← List.append_assoc]
    exact hagain.append (.refl _)

/-- Frames leave each queue in the order they came in: those that were never sent, and those that
are sent again, with the frames still in the queue at the end of either. The last frame to be sent
again is always the expected one. -/
theorem tx_in_order {ops : List (TxOp β)}
    (h : (txMachine β).Guarded (fun s op => TxOp.Sound s op) RwnxHw.init ops) :
    ∃ acts s, (txMachine β).trace RwnxHw.init ops = some (acts, s) ∧ ∀ q, InOrder ops acts s q := by
  have hstep : ∀ ops acts (s : RwnxHw β) op, (Sched s ∧ ∀ q, InOrder ops acts s q) →
      TxOp.Sound s op → ∃ o t, (txMachine β).step s op = some (o, t) ∧
        Sched t ∧ ∀ q, InOrder (ops ++ [op]) (acts ++ o) t q := by
    rintro ops acts s op ⟨hs, horder⟩ hsound
    obtain ⟨o, t, hstep, ht⟩ := hs.step hsound
    exact ⟨o, t, hstep, ht, fun q => (horder q).step (step_flow hs hsound hstep q)⟩
  have hinit : ∀ q, InOrder [] [] (RwnxHw.init : RwnxHw β) q := fun q =>
    ⟨List.nil_sublist _, List.nil_sublist _, List.not_mem_nil⟩
  obtain ⟨acts, s, hrun, -, horder⟩ := Machine.trace_progress hstep ⟨sched_init, hinit⟩ h
  exact ⟨acts, s, hrun, horder⟩

/-- Two frames for a station that falls asleep; the first one is sent again. -/
theorem tx_in_order_resent :
    ∃ acts s, (txMachine ℕ).trace RwnxHw.init
        [.startAp 0 false, .addSta 0 0 (fun _ => false) false, .xmit (.sta 0 0) 7,
          .psChange (.remote 0) true, .xmit (.sta 0 0) 8, .cfm (.sta 0 0) 7 false true,
          .psChange (.remote 0) false, .task] = some (acts, s) ∧
      ∀ q, InOrder [.startAp 0 false, .addSta 0 0 (fun _ => false) false, .xmit (.sta 0 0) 7,
        .psChange (.remote 0) true, .xmit (.sta 0 0) 8, .cfm (.sta 0 0) 7 false true,
        .psChange (.remote 0) false, .task] acts s q :=
  tx_in_order (by decide)

omit [DecidableEq β] in
/-- A queue is empty when it is set up. -/
def TxOp.Clean (s : RwnxHw β) (op : TxOp β) : Prop := ∀ q ∈ op.setUp, (s.txq q).skbReady = false

omit [DecidableEq β] in
instance (s : RwnxHw β) (op : TxOp β) : Decidable (op.Clean s) :=
  inferInstanceAs (Decidable (∀ q ∈ op.setUp, (s.txq q).skbReady = false))

omit [DecidableEq β] in
theorem TxOp.Clean.lost {s : RwnxHw β} {op : TxOp β} (h : op.Clean s) (q : TxqId) :
    op.lost q s = [] := by
  refine ite_eq_right_iff.mpr fun hin => not_not.mp (mt Txq.skbReady_iff.mpr ?_)
  rw [h q hin]
  exact Bool.false_ne_true

/-- What came in is what went out and what is left. -/
def Accounted (ops : List (TxOp β)) (acts : List (TxAct β)) (s : RwnxHw β) (q : TxqId) : Prop :=
  (pushes q false acts ++ pushes q true acts ++ releases q acts ++ (s.txq q).skList).Perm
    (xmits q ops ++ confirms q ops)

omit [DecidableEq β] in
theorem Accounted.step {ops : List (TxOp β)} {acts o : List (TxAct β)} {s u : RwnxHw β}
    {op : TxOp β} (h : Accounted ops acts s q) (hlost : op.lost q s = [])
    (hflow : Flow q (xmits q [op]) (resends q [op]) (confirms q [op]) (op.lost q s) (s.txq q) o
      (u.txq q)) : Accounted (ops ++ [op]) (acts ++ o) u q := by
  have hold := Multiset.coe_eq_coe.mpr h
  have hnew := hflow.held
  rw [hlost, Multiset.coe_nil, add_zero] at hnew
  have hx : xmits q (ops ++ [op]) = xmits q ops ++ xmits q [op] := List.filterMap_append
  have hc : confirms q (ops ++ [op]) = confirms q ops ++ confirms q [op] := List.filterMap_append
  refine Multiset.coe_eq_coe.mp ?_
  rw [hx, hc]
  simp only [pushes_append, releases_append, ← Multiset.coe_add] at hold ⊢
  calc (_ : Multiset β)
      = ↑(pushes q false acts) + ↑(pushes q true acts) + ↑(releases q acts) +
          (↑(pushes q false o) + ↑(pushes q true o) + ↑(releases q o) + ↑(u.txq q).skList) := by
        abel
    _ = ↑(pushes q false acts) + ↑(pushes q true acts) + ↑(releases q acts) + ↑(s.txq q).skList +
          (↑(xmits q [op]) + ↑(confirms q [op])) := by
        rw [hnew]
        abel
    _ = _ := by
        rw [hold]
        abel

/-- No frame is lost, and none is duplicated. Each frame that was queued, and each that was
confirmed, has been pushed, has been released or is in the queue, as often as it came in. -/
theorem tx_conserves {ops : List (TxOp β)}
    (h : (txMachine β).Guarded (fun s op => TxOp.Sound s op ∧ TxOp.Clean s op) RwnxHw.init ops) :
    ∃ acts s, (txMachine β).trace RwnxHw.init ops = some (acts, s) ∧
      ∀ q, Accounted ops acts s q := by
  have hstep : ∀ ops acts (s : RwnxHw β) op, (Sched s ∧ ∀ q, Accounted ops acts s q) →
      TxOp.Sound s op ∧ TxOp.Clean s op → ∃ o t, (txMachine β).step s op = some (o, t) ∧
        Sched t ∧ ∀ q, Accounted (ops ++ [op]) (acts ++ o) t q := by
    rintro ops acts s op ⟨hs, hacc⟩ ⟨hsound, hclean⟩
    obtain ⟨o, t, hstep, ht⟩ := hs.step hsound
    exact ⟨o, t, hstep, ht, fun q =>
      (hacc q).step (hclean.lost q) (step_flow hs hsound hstep q)⟩
  have hinit : ∀ q, Accounted [] [] (RwnxHw.init : RwnxHw β) q := fun q => .refl _
  obtain ⟨acts, s, hrun, -, hacc⟩ := Machine.trace_progress hstep ⟨sched_init, hinit⟩ h
  exact ⟨acts, s, hrun, hacc⟩

/-- The bus goes down, and then an interface, while a frame is queued for it. -/
theorem tx_conserves_down :
    ∃ acts s, (txMachine ℕ).trace RwnxHw.init
        [.unkInit 0, .xmit (.unk 0) 7, .stop [.unk 0] .chan, .xmit (.unk 0) 8, .usbState true,
          .cfm (.unk 0) 7 false true, .deinit (.unk 0), .flush (.unk 0), .unkInit 0] =
          some (acts, s) ∧
      ∀ q, Accounted [.unkInit 0, .xmit (.unk 0) 7, .stop [.unk 0] .chan, .xmit (.unk 0) 8,
        .usbState true, .cfm (.unk 0) 7 false true, .deinit (.unk 0), .flush (.unk 0), .unkInit 0]
        acts s q :=
  tx_conserves (by decide)

end LonganPi.Wifi
