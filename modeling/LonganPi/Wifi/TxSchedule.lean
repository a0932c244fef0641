import LonganPi.Wifi.TxQueues
import Mathlib.Data.List.Rotate
import Mathlib.Algebra.Order.BigOperators.Group.List

/-!
# The schedule of the transmit queues

Two things must fit together in every interleaving: a queue carries `RWNX_TXQ_IN_HWQ_LIST` exactly
when it is in the list of its HW queue, once; and an active queue is in a list when it has frames
and may send. `Lists` is the first of the two. `Txq.Ok` is what one queue keeps: the second one,
with what the asserts of `rwnx_hwq_process` need. A round of the loop of `rwnx_hwq_process` keeps
both (`hwqVisit_spec`).
-/

open DriverLib

namespace LonganPi.Wifi

variable {β : Type*}

/-! ### What the functions do to one queue -/

namespace Txq

/-- `rwnx_txq_add_to_hw_list` on the queue itself. -/
def schedule (t : Txq β) : Txq β := { t with status := insert .inHwqList t.status }

/-- `rwnx_txq_del_from_hw_list` on the queue itself. -/
def unschedule (t : Txq β) : Txq β := { t with status := t.status.erase .inHwqList }

/-- `rwnx_txq_start` on the queue itself. -/
def start (t : Txq β) (reason : TxqFlag) : Txq β :=
  if t.active ∧ reason ∈ t.status then
    let t := { t with status := t.status.erase reason }
    if !t.isStopped ∧ t.skbReady then t.schedule else t
  else t

/-- `rwnx_txq_stop` on the queue itself. -/
def stop (t : Txq β) (reason : TxqFlag) : Txq β :=
  if t.active then unschedule { t with status := insert reason t.status } else t

theorem schedule_eq_self {t : Txq β} (h : t.isScheduled) : t.schedule = t := by
  rw [isScheduled, decide_eq_true_eq] at h
  rw [schedule, Finset.insert_eq_of_mem h]

theorem unschedule_eq_self {t : Txq β} (h : t.isScheduled = false) : t.unschedule = t := by
  rw [isScheduled, decide_eq_false_iff_not] at h
  rw [unschedule, Finset.erase_eq_of_notMem h]

@[simp] theorem isScheduled_schedule (t : Txq β) : t.schedule.isScheduled :=
  decide_eq_true (Finset.mem_insert_self _ _)

@[simp] theorem isScheduled_unschedule (t : Txq β) : t.unschedule.isScheduled = false :=
  decide_eq_false (Finset.notMem_erase _ _)

end Txq

/-- The model of the whole state does to the queue what `schedule` does, also when it is in the list
already. -/
theorem txqAddToHwList_txq (s : RwnxHw β) (q : TxqId) :
    (txqAddToHwList s q).txq = Function.update s.txq q (s.txq q).schedule := by
  rw [txqAddToHwList]
  split
  · next h => rw [Txq.schedule_eq_self h, Function.update_eq_self]
  · rfl

theorem txqDelFromHwList_txq (s : RwnxHw β) (q : TxqId) :
    (txqDelFromHwList s q).txq = Function.update s.txq q (s.txq q).unschedule := by
  rw [txqDelFromHwList]
  split
  · rfl
  · next h => rw [Txq.unschedule_eq_self (Bool.not_eq_true _ ▸ h), Function.update_eq_self]

@[simp] theorem txqAddToHwList_ps (s : RwnxHw β) (q : TxqId) : (txqAddToHwList s q).ps = s.ps := by
  rw [txqAddToHwList]
  split <;> rfl

@[simp] theorem txqDelFromHwList_ps (s : RwnxHw β) (q : TxqId) :
    (txqDelFromHwList s q).ps = s.ps := by
  rw [txqDelFromHwList]
  split <;> rfl

/-- `rwnx_txq_start` leaves the other queues alone. -/
theorem txqStart_txq (s : RwnxHw β) (q : TxqId) (reason : TxqFlag) :
    (txqStart s q reason).txq = Function.update s.txq q ((s.txq q).start reason) := by
  simp only [txqStart, Txq.start]
  split
  · simp only [RwnxHw.setTxq_txq, Function.update_self]
    split
    · rw [txqAddToHwList_txq]
      simp
    · rfl
  · rw [Function.update_eq_self]

/-- So does `rwnx_txq_stop`. -/
theorem txqStop_txq (s : RwnxHw β) (q : TxqId) (reason : TxqFlag) :
    (txqStop s q reason).txq = Function.update s.txq q ((s.txq q).stop reason) := by
  simp only [txqStop, Txq.stop]
  split
  · rw [txqDelFromHwList_txq]
    simp
  · rw [Function.update_eq_self]

@[simp] theorem txqStart_ps (s : RwnxHw β) (q : TxqId) (reason : TxqFlag) :
    (txqStart s q reason).ps = s.ps := by
  simp only [txqStart]
  split
  · split
    · rw [txqAddToHwList_ps, RwnxHw.setTxq_ps]
    · rfl
  · rfl

@[simp] theorem txqStop_ps (s : RwnxHw β) (q : TxqId) (reason : TxqFlag) :
    (txqStop s q reason).ps = s.ps := by
  simp only [txqStop]
  split
  · rw [txqDelFromHwList_ps, RwnxHw.setTxq_ps]
  · rfl

/-! ### The lists -/

/-- The lists of the HW queues hold the scheduled queues, each once. -/
structure Lists (s : RwnxHw β) : Prop where
  nodup : ∀ h, (s.hwq h).list.Nodup
  mem : ∀ q h, q ∈ (s.hwq h).list ↔ (s.txq q).isScheduled ∧ q.hwq = h

namespace Lists

variable {s : RwnxHw β}

/-- Only the flags and the lists matter, and not the order in a list. -/
theorem congr {t : RwnxHw β} (hs : Lists s)
    (hflag : ∀ q, (t.txq q).isScheduled = (s.txq q).isScheduled)
    (hlist : ∀ h, (t.hwq h).list.Perm (s.hwq h).list) : Lists t where
  nodup h := (hlist h).nodup_iff.mpr (hs.nodup h)
  mem q h := by rw [(hlist h).mem_iff, hs.mem, hflag]

/-- A queue changes, and stays in its list or outside. -/
theorem setTxq (hs : Lists s) {q : TxqId} {t : Txq β}
    (hflag : t.isScheduled = (s.txq q).isScheduled) : Lists (s.setTxq q t) := by
  refine hs.congr (fun q' => ?_) fun _ => .refl _
  rw [RwnxHw.setTxq_txq, Function.update_apply]
  split
  · next h => rw [h, hflag]
  · rfl

theorem setPs (hs : Lists s) (i : StaId) (p : StaPs) : Lists (s.setPs i p) :=
  hs.congr (fun _ => rfl) fun _ => .refl _

/-- A queue that enters the list of its HW queue was in no list. -/
theorem add (hs : Lists s) (q : TxqId) : Lists (txqAddToHwList s q) := by
  by_cases hq : (s.txq q).isScheduled
  · rwa [txqAddToHwList, if_pos hq]
  -- the queue is in no list, since its flag is clear
  have hno : ∀ h, q ∉ (s.hwq h).list := fun h hm => hq ((hs.mem q h).mp hm).1
  have hlist : ∀ h, ((txqAddToHwList s q).hwq h).list =
      if h = q.hwq then (s.hwq h).list ++ [q] else (s.hwq h).list := by
    intro h
    rw [txqAddToHwList, if_neg hq, RwnxHw.setHwq_hwq, Function.update_apply]
    split
    · next heq => rw [heq]
    · rfl
  constructor
  · -- the queue comes to its list once
    intro h
    rw [hlist]
    split
    · simpa only [List.concat_eq_append] using (hs.nodup h).concat (hno h)
    · exact hs.nodup h
  · -- the list has it, and its flag is set
    intro q' h
    rw [hlist, txqAddToHwList_txq, Function.update_apply]
    by_cases hqq : q' = q
    · subst hqq
      rw [if_pos rfl]
      split
      · next heq => simp [heq]
      · next hne => simp [hno h, Ne.symm hne]
    · -- the other queues are where they were
      rw [if_neg hqq, ← hs.mem]
      split
      · simp [hqq]
      · rfl

/-- A queue that leaves its list is in no list any more, since it was there once. -/
theorem del (hs : Lists s) (q : TxqId) : Lists (txqDelFromHwList s q) := by
  by_cases hq : (s.txq q).isScheduled
  swap
  · rwa [txqDelFromHwList, if_neg hq]
  have hlist : ∀ h, ((txqDelFromHwList s q).hwq h).list =
      if h = q.hwq then (s.hwq h).list.erase q else (s.hwq h).list := by
    intro h
    rw [txqDelFromHwList, if_pos hq, RwnxHw.setHwq_hwq, Function.update_apply]
    split
    · next heq => rw [heq]
    · rfl
  constructor
  · -- the lists lose an element at most
    intro h
    rw [hlist]
    split
    · exact (hs.nodup h).erase q
    · exact hs.nodup h
  · -- the queue was in its list once, so it is out
    intro q' h
    rw [hlist, txqDelFromHwList_txq, Function.update_apply]
    by_cases hqq : q' = q
    · subst hqq
      rw [if_pos rfl, Txq.isScheduled_unschedule]
      split
      · simp [(hs.nodup h).mem_erase_iff]
      · next hne => simp [hs.mem, Ne.symm hne]
    · -- the other queues are where they were
      rw [if_neg hqq, ← hs.mem]
      split
      · rw [List.mem_erase_of_ne hqq]
      · rfl

/-- The flag that is cleared is not the one of the lists. -/
theorem start (hs : Lists s) (q : TxqId) {reason : TxqFlag} (hr : reason ≠ .inHwqList) :
    Lists (txqStart s q reason) := by
  simp only [txqStart]
  split
  · have h : Lists (s.setTxq q { s.txq q with status := (s.txq q).status.erase reason }) :=
      hs.setTxq (by simp [Txq.isScheduled, Ne.symm hr])
    split
    · exact h.add q
    · exact h
  · exact hs

/-- Nor is the flag that is set. -/
theorem stop (hs : Lists s) (q : TxqId) {reason : TxqFlag} (hr : reason ≠ .inHwqList) :
    Lists (txqStop s q reason) := by
  simp only [txqStop]
  split
  · refine Lists.del (hs.setTxq ?_) q
    simp [Txq.isScheduled, Ne.symm hr]
  · exact hs

end Lists

/-! ### A queue in order -/

namespace Txq

/-- A queue may send when it has none of the flags `RWNX_TXQ_STOP`. -/
theorem isStopped_eq_false {t : Txq β} :
    t.isStopped = false ↔ ∀ f ∈ rwnxTxqStop, f ∉ t.status := by
  rw [isStopped, decide_eq_false_iff_not, Finset.not_nonempty_iff_eq_empty,
    Finset.eq_empty_iff_forall_notMem]
  exact ⟨fun h f hf ht => h f (Finset.mem_inter.mpr ⟨ht, hf⟩),
    fun h f hf => h f (Finset.mem_inter.mp hf).2 (Finset.mem_inter.mp hf).1⟩

theorem skbReady_iff {t : Txq β} : t.skbReady ↔ t.skList ≠ [] := by
  rw [skbReady, Bool.not_eq_true', List.isEmpty_eq_false_iff]

/-- What an active queue keeps. The frames to retry are the first ones; in a service period there
are frames and credits for what is still to be pushed; a queue in a list has frames, and one that
has frames and may send is in a list. -/
structure Ok (t : Txq β) : Prop where
  creditsPos : 0 < t.credits
  creditsLe : t.credits ≤ 127
  nodup : t.skList.Nodup
  nbRetry : t.nbRetry ≤ t.skList.length
  lastRetry : t.lastRetrySkb = (t.skList.take t.nbRetry).getLast?
  limitLen : t.pushLimit ≤ t.skList.length
  limitCredits : (t.pushLimit : ℤ) ≤ t.credits
  limitPs : t.pushLimit ≠ 0 → .stopStaPs ∈ t.status
  ready : .inHwqList ∈ t.status → t.skList ≠ []
  awake : t.isStopped = false → t.skList ≠ [] → .inHwqList ∈ t.status

namespace Ok

variable {t : Txq β}

/-- Only three clauses read the flags. -/
theorem withStatus (ht : t.Ok) {status : Finset TxqFlag}
    (limitPs : t.pushLimit ≠ 0 → .stopStaPs ∈ status)
    (ready : .inHwqList ∈ status → t.skList ≠ [])
    (awake : (∀ f ∈ rwnxTxqStop, f ∉ status) → t.skList ≠ [] → .inHwqList ∈ status) :
    Ok { t with status := status } :=
  { ht with
    limitPs := limitPs
    ready := ready
    awake := fun h => awake (isStopped_eq_false.mp h) }

/-- A queue with frames enters its list. -/
theorem schedule (ht : t.Ok) (hne : t.skList ≠ []) : t.schedule.Ok :=
  ht.withStatus (fun h => Finset.mem_insert_of_mem (ht.limitPs h)) (fun _ => hne)
    fun _ _ => Finset.mem_insert_self _ _

/-- A queue that may send again enters its list if it has frames. Only the end of power save clears
`RWNX_TXQ_STOP_STA_PS`, and no service period is open then. -/
theorem start (ht : t.Ok) {reason : TxqFlag} (hps : reason = .stopStaPs → t.pushLimit = 0) :
    (t.start reason).Ok := by
  simp only [Txq.start]
  split
  swap
  · exact ht
  have hlimit : t.pushLimit ≠ 0 → .stopStaPs ∈ t.status.erase reason := fun h =>
    Finset.mem_erase.mpr ⟨fun heq => h (hps heq.symm), ht.limitPs h⟩
  split
  · -- it may send and has frames, so it enters its list
    next hgo =>
    have hne := skbReady_iff.mp hgo.2
    exact ht.withStatus (fun h => Finset.mem_insert_of_mem (hlimit h)) (fun _ => hne)
      fun _ _ => Finset.mem_insert_self _ _
  · -- it has no frames, or another reason to stop is left
    next hgo =>
    refine ht.withStatus hlimit (fun h => ht.ready (Finset.mem_of_mem_erase h)) fun hstop hne => ?_
    refine absurd ⟨?_, ?_⟩ hgo
    · rw [isStopped_eq_false.mpr hstop]
      rfl
    · exact skbReady_iff.mpr hne

/-- A queue that is stopped leaves its list, and a service period that is open keeps its flag. -/
theorem stop (ht : t.Ok) {reason : TxqFlag} (hr : reason ∈ rwnxTxqStop) : (t.stop reason).Ok := by
  simp only [Txq.stop]
  split
  swap
  · exact ht
  -- the flag of the lists is no reason to stop
  have hmem : ∀ f ∈ rwnxTxqStop, f ∈ insert reason t.status →
      f ∈ (insert reason t.status).erase .inHwqList := fun f hf h =>
    Finset.mem_erase.mpr ⟨fun heq => absurd (heq ▸ hf) (by decide), h⟩
  refine ht.withStatus (fun h => hmem _ (by decide) (Finset.mem_insert_of_mem (ht.limitPs h)))
    (fun h => absurd h (Finset.notMem_erase _ _)) fun hstop _ => ?_
  exact absurd (hmem _ hr (Finset.mem_insert_self _ _)) (hstop _ hr)

end Ok

end Txq

/-! ### Queueing and pushing -/

/-- `skb_append` finds the frame where it is. -/
theorem skbAppend_append [DecidableEq β] {old newsk : β} {l r : List β} (h : old ∉ l) :
    skbAppend old newsk (l ++ old :: r) = l ++ old :: newsk :: r := by
  induction l with
  | nil => rw [List.nil_append, skbAppend, if_pos rfl, List.nil_append]
  | cons x l ih =>
    obtain ⟨hx, hl⟩ := not_or.mp (List.mem_cons.not.mp h)
    rw [List.cons_append, skbAppend, if_neg (Ne.symm hx), ih hl, List.cons_append]

namespace Txq

variable {t : Txq β}

/-- A frame to be sent again goes behind the others of its kind. -/
theorem Ok.enqueue_retry [DecidableEq β] (ht : t.Ok) (skb : β) :
    (t.enqueue skb true).skList = t.skList.take t.nbRetry ++ skb :: t.skList.drop t.nbRetry := by
  have hsplit := List.take_append_drop t.nbRetry t.skList
  have hlast := ht.lastRetry
  rw [enqueue, if_pos rfl]
  cases hl : t.lastRetrySkb with
  | none =>
    -- there is no frame to be sent again, so the new one is the first of all
    rw [hl, eq_comm, List.getLast?_eq_none_iff] at hlast
    rw [hlast, List.nil_append] at hsplit ⊢
    rw [hsplit]
  | some last =>
    -- the new frame goes behind the last of them
    rw [hl, eq_comm, List.getLast?_eq_some_iff] at hlast
    obtain ⟨front, hfront⟩ := hlast
    have hnodup : (front ++ [last]).Nodup := hfront ▸ ht.nodup.sublist (List.take_sublist _ _)
    have hmem : last ∉ front := fun h => (List.nodup_append.mp hnodup).2.2 last h last (by simp) rfl
    have hsk : t.skList = front ++ last :: t.skList.drop t.nbRetry := by
      conv_lhs => rw [← hsplit, hfront, List.append_assoc, List.singleton_append]
    calc skbAppend last skb t.skList
        = skbAppend last skb (front ++ last :: t.skList.drop t.nbRetry) := by rw [← hsk]
      _ = front ++ last :: skb :: t.skList.drop t.nbRetry := skbAppend_append hmem
      _ = _ := by rw [hfront, List.append_assoc, List.singleton_append]

/-- `rwnx_txq_queue_skb` on the queue itself; `full` is whether the netdev queue is stopped. -/
def queued [DecidableEq β] (t : Txq β) (skb : β) (retry full : Bool) : Txq β :=
  let t := t.enqueue skb retry
  let t := if full then { t with status := insert .ndevFlowCtrl t.status } else t
  if t.isStopped then t else t.schedule

/-- A frame comes to the end, or behind the last one that is sent again. In both cases the count of
the frames to be sent again fits, and the queue is not empty. -/
theorem Ok.enqueue [DecidableEq β] (ht : t.Ok) {skb : β} (hnew : skb ∉ t.skList) (retry : Bool)
    {status : Finset TxqFlag} (limitPs : t.pushLimit ≠ 0 → .stopStaPs ∈ status)
    (awake : (∀ f ∈ rwnxTxqStop, f ∉ status) → .inHwqList ∈ status) :
    Ok { t.enqueue skb retry with status := status } := by
  cases retry with
  | false =>
    -- the frames to be sent again are still the first
    have hlen : (t.skList ++ [skb]).length = t.skList.length + 1 := List.length_append
    exact
      { creditsPos := ht.creditsPos
        creditsLe := ht.creditsLe
        nodup := ht.nodup.append (List.nodup_singleton skb) (by simpa using hnew)
        nbRetry := hlen ▸ Nat.le_succ_of_le ht.nbRetry
        lastRetry := ht.lastRetry.trans (by
          rw [show (t.enqueue skb false).skList = t.skList ++ [skb] from rfl]
          exact congrArg _ (List.take_append_of_le_length ht.nbRetry).symm)
        limitLen := hlen ▸ Nat.le_succ_of_le ht.limitLen
        limitCredits := ht.limitCredits
        limitPs := limitPs
        ready := fun _ => List.append_ne_nil_of_right_ne_nil _ (List.cons_ne_nil _ _)
        awake := fun h _ => awake (isStopped_eq_false.mp h) }
  | true =>
    -- the new frame becomes the last of those to be sent again
    have hlist := ht.enqueue_retry skb
    have hperm : (t.enqueue skb true).skList.Perm (skb :: t.skList) := by
      rw [hlist]
      refine List.perm_middle.trans ?_
      rw [List.take_append_drop]
    have hlen : (t.enqueue skb true).skList.length = t.skList.length + 1 := hperm.length_eq
    have htake : (t.skList.take t.nbRetry).length = t.nbRetry := List.length_take_of_le ht.nbRetry
    exact
      { creditsPos := ht.creditsPos
        creditsLe := ht.creditsLe
        nodup := hperm.nodup_iff.mpr (List.nodup_cons.mpr ⟨hnew, ht.nodup⟩)
        nbRetry := by
          change t.nbRetry + 1 ≤ (t.enqueue skb true).skList.length
          rw [hlen]
          exact Nat.succ_le_succ ht.nbRetry
        lastRetry := by
          change some skb = ((t.enqueue skb true).skList.take (t.nbRetry + 1)).getLast?
          rw [hlist, List.append_cons, List.take_left' (by rw [List.length_append, htake]; rfl),
            List.getLast?_concat]
        limitLen := by
          change t.pushLimit ≤ (t.enqueue skb true).skList.length
          rw [hlen]
          exact Nat.le_succ_of_le ht.limitLen
        limitCredits := ht.limitCredits
        limitPs := limitPs
        ready := fun _ h => by
          have := congrArg List.length h
          rw [hlen] at this
          cases this
        awake := fun h _ => awake (isStopped_eq_false.mp h) }

/-- Queueing a frame sets flags only, besides what `enqueue` does. -/
theorem queued_eq [DecidableEq β] (t : Txq β) (skb : β) (retry full : Bool) : ∃ status,
    t.queued skb retry full = { t.enqueue skb retry with status := status } ∧
      (∀ f, f ≠ .inHwqList → f ≠ .ndevFlowCtrl → (f ∈ status ↔ f ∈ t.status)) ∧
      ((∀ f ∈ rwnxTxqStop, f ∉ status) → .inHwqList ∈ status) := by
  have hsame : (t.enqueue skb retry).status = t.status := by cases retry <;> rfl
  -- the flags before the queue enters its list
  obtain ⟨status, hstatus, hflags⟩ : ∃ status,
      (if full then { t.enqueue skb retry with
          status := insert .ndevFlowCtrl (t.enqueue skb retry).status }
        else t.enqueue skb retry) = { t.enqueue skb retry with status := status } ∧
      ∀ f, f ≠ .ndevFlowCtrl → (f ∈ status ↔ f ∈ t.status) := by
    cases full with
    | false => exact ⟨t.status, by rw [← hsame]; rfl, fun _ _ => Iff.rfl⟩
    | true =>
      refine ⟨insert .ndevFlowCtrl t.status, by rw [hsame]; rfl, fun f hf => ?_⟩
      rw [Finset.mem_insert, or_iff_right hf]
  simp only [Txq.queued, hstatus]
  split
  · -- a queue that is stopped stays outside
    next hstop =>
    refine ⟨status, rfl, fun f _ hf => hflags f hf, fun h => ?_⟩
    have := isStopped_eq_false (t := { t.enqueue skb retry with status := status }).mpr h
    rw [hstop] at this
    cases this
  · refine ⟨insert .inHwqList status, rfl, fun f hf hf' => ?_, fun _ => Finset.mem_insert_self _ _⟩
    rw [Finset.mem_insert, or_iff_right hf, hflags f hf']

/-- A queue that gets a frame is in its list, or stopped. -/
theorem Ok.queued [DecidableEq β] (ht : t.Ok) {skb : β} (hnew : skb ∉ t.skList)
    (retry full : Bool) : (t.queued skb retry full).Ok := by
  obtain ⟨status, heq, hflags, hawake⟩ := queued_eq t skb retry full
  rw [heq]
  exact ht.enqueue hnew retry
    (fun h => (hflags _ (by decide) (by decide)).mpr (ht.limitPs h)) hawake

/-! The counters of a queue after it has pushed `n` frames. -/

/-- A push counts, and forgets the last frame to be sent again when it was that one. -/
theorem push_eq (t : Txq β) : ∃ n, t.push =
    { t with
      pktSent := n
      nbRetry := t.nbRetry - 1
      lastRetrySkb := if t.nbRetry = 1 then none else t.lastRetrySkb
      pushLimit := t.pushLimit - 1 } := by
  rw [push]
  split
  · exact ⟨t.pktSent, rfl⟩
  · next h =>
    rw [not_not] at h
    exact ⟨_, by rw [h]; rfl⟩

/-- What `n` pushes leave of a queue from which the frames were taken before. -/
structure Pushed (t t' : Txq β) (n : ℕ) : Prop where
  active : t'.active = t.active
  status : t'.status = t.status
  credits : t'.credits = t.credits
  skList : t'.skList = t.skList
  psId : t'.psId = t.psId
  nbRetry : t'.nbRetry = t.nbRetry - n
  pushLimit : t'.pushLimit = t.pushLimit - n

/-- The counters after `n` pushes, by induction on the number of pushes. -/
theorem pushed_iterate (t : Txq β) (n : ℕ) : Pushed t (push^[n] t) n := by
  induction n generalizing t with
  | zero => exact ⟨rfl, rfl, rfl, rfl, rfl, rfl, rfl⟩
  | succ n ih =>
    obtain ⟨m, hm⟩ := push_eq t
    have h := ih t.push
    rw [hm] at h
    rw [Function.iterate_succ_apply, hm]
    exact
      { active := h.active
        status := h.status
        credits := h.credits
        skList := h.skList
        psId := h.psId
        nbRetry := h.nbRetry.trans (by rw [Nat.sub_sub, Nat.add_comm])
        pushLimit := h.pushLimit.trans (by rw [Nat.sub_sub, Nat.add_comm]) }

/-- The last frame to retry is forgotten when it is pushed, and not before. -/
theorem lastRetry_push {t : Txq β} {skb : β} {l : List β} (hn : t.nbRetry ≤ (skb :: l).length)
    (h : t.lastRetrySkb = ((skb :: l).take t.nbRetry).getLast?) :
    t.push.lastRetrySkb = (l.take t.push.nbRetry).getLast? := by
  obtain ⟨m, hm⟩ := push_eq t
  rw [hm]
  change (if t.nbRetry = 1 then none else t.lastRetrySkb) = (l.take (t.nbRetry - 1)).getLast?
  rw [h]
  -- the cases are none, the last one, and several frames to be sent again
  rcases hnb : t.nbRetry with _ | _ | n
  · rfl
  · rfl
  · rw [if_neg (by omega), List.take_succ_cons, Nat.add_sub_cancel]
    have hpos : l.take (n + 1) ≠ [] := by
      rw [ne_eq, List.take_eq_nil_iff, not_or]
      refine ⟨Nat.succ_ne_zero n, fun hnil => ?_⟩
      rw [hnil, hnb] at hn
      exact absurd hn (by simp)
    rw [List.getLast?_cons, List.getLast?_eq_some_getLast hpos, Option.getD_some]

/-- The same after a run of pushes, by induction on the frames that are pushed. -/
theorem lastRetry_iterate (l : List β) {t : Txq β} (hn : t.nbRetry ≤ (l ++ t.skList).length)
    (h : t.lastRetrySkb = ((l ++ t.skList).take t.nbRetry).getLast?) :
    (push^[l.length] t).lastRetrySkb = (t.skList.take (t.nbRetry - l.length)).getLast? := by
  induction l generalizing t with
  | nil => exact h
  | cons skb l ih =>
    have hlast := lastRetry_push hn h
    obtain ⟨m, hm⟩ := push_eq t
    have key := ih (t := t.push) (by rw [hm]; exact Nat.sub_le_of_le_add hn)
      (by rw [hlast, hm]; rfl)
    rw [List.length_cons, Function.iterate_succ_apply, key, hm, Nat.sub_sub, Nat.add_comm 1]

/-- What the loop of `rwnx_hwq_process` leaves of a queue that pushes its first `k` frames. -/
structure Visited (t t' : Txq β) (k : ℕ) : Prop where
  active : t'.active = t.active
  credits : t'.credits = t.credits
  skList : t'.skList = t.skList.drop k
  psId : t'.psId = t.psId
  nbRetry : t'.nbRetry = t.nbRetry - k
  lastRetry : t'.lastRetrySkb = (t'.skList.take t'.nbRetry).getLast?
  pushLimit : t'.pushLimit = 0
  flags : ∀ f, f ≠ .inHwqList → f ≠ .ndevFlowCtrl → (f ∈ t'.status ↔ f ∈ t.status)
  listed : .inHwqList ∈ t'.status → k < t.skList.length
  unlisted : .inHwqList ∉ t'.status → k = t.skList.length ∨ t.pushLimit ≠ 0

/-- A round leaves the queue in order: what it has not pushed is listed, unless a service period is
over. -/
theorem Visited.ok {t' : Txq β} {k : ℕ} (hv : Visited t t' k) (ht : t.Ok) : t'.Ok where
  creditsPos := hv.credits ▸ ht.creditsPos
  creditsLe := hv.credits ▸ ht.creditsLe
  nodup := hv.skList ▸ ht.nodup.sublist (List.drop_sublist _ _)
  nbRetry := by
    rw [hv.nbRetry, hv.skList, List.length_drop]
    exact Nat.sub_le_sub_right ht.nbRetry k
  lastRetry := hv.lastRetry
  limitLen := hv.pushLimit ▸ Nat.zero_le _
  limitCredits := by
    rw [hv.pushLimit, hv.credits]
    exact ht.creditsPos.le
  limitPs h := absurd hv.pushLimit h
  ready h := by
    rw [hv.skList, ne_eq, List.drop_eq_nil_iff, not_le]
    exact hv.listed h
  awake hstop hne := by
    by_contra hno
    rw [hv.skList, ne_eq, List.drop_eq_nil_iff, not_le] at hne
    rcases hv.unlisted hno with hk | hlimit
    · exact absurd hk hne.ne
    · -- the station is in power save, so the queue is stopped
      exact isStopped_eq_false.mp hstop _ (by decide)
        ((hv.flags _ (by decide) (by decide)).mpr (ht.limitPs hlimit))

/-- `rwnx_txq_get_skb_to_push` takes at least one frame, and all that a service period has left. -/
theorem Ok.getSkbToPush (ht : t.Ok) (hne : t.skList ≠ []) : ∃ k done,
    t.getSkbToPush = (t.skList.take k, t.skList.drop k, done) ∧
      0 < k ∧ k ≤ t.skList.length ∧ t.pushLimit ≤ k ∧
      (done = true → k = t.skList.length ∨ t.pushLimit ≠ 0) ∧
      (done = false → k < t.skList.length) := by
  have hlen := List.length_pos_iff.mpr hne
  -- the credits of a round are those of the service period if one is open
  have hcredits : t.getCredits = if t.pushLimit ≠ 0 then (t.pushLimit : ℤ) else t.credits := by
    have := ht.limitCredits
    rw [getCredits]
    by_cases h₀ : t.pushLimit = 0
    · simp [h₀]
    · rw [if_pos h₀]
      split <;> omega
  have hpos := ht.creditsPos
  have hlimit := ht.limitLen
  rw [Txq.getSkbToPush]
  -- all frames go when the credits suffice; else the first ones
  by_cases hall : t.getCredits ≥ t.skList.length
  · refine ⟨t.skList.length, true, ?_, hlen, le_rfl, hlimit, fun _ => .inl rfl,
      fun h => nomatch h⟩
    rw [if_pos hall, List.take_length, List.drop_length]
  · rw [if_neg hall]
    refine ⟨t.getCredits.toNat, _, rfl, ?_⟩
    simp only [decide_eq_true_eq, decide_eq_false_iff_not]
    rw [hcredits] at hall ⊢
    by_cases h₀ : t.pushLimit = 0
    · rw [if_neg (not_not_intro h₀)] at hall ⊢
      exact ⟨by omega, by omega, by omega, fun h => absurd h₀ h.1, fun _ => by omega⟩
    · rw [if_pos h₀] at hall ⊢
      exact ⟨by omega, by omega, by omega, fun _ => .inr h₀, fun _ => by omega⟩

end Txq

@[simp] theorem setMoreDataFlag_txq (s : RwnxHw β) (q : TxqId) :
    (setMoreDataFlag s q).2.2.txq = s.txq := by
  rw [setMoreDataFlag]
  split
  · rfl
  · split <;> rfl

@[simp] theorem setMoreDataFlag_hwq (s : RwnxHw β) (q : TxqId) :
    (setMoreDataFlag s q).2.2.hwq = s.hwq := by
  rw [setMoreDataFlag]
  split
  · rfl
  · split <;> rfl

section Visit

variable [DecidableEq β]

/-- The pushes of a round change one queue, whose frames were taken before. -/
theorem txPushAll_txq (s : RwnxHw β) (q : TxqId) (l : List β) :
    (txPushAll s q l).2.txq = Function.update s.txq q (Txq.push^[l.length] (s.txq q)) := by
  induction l generalizing s with
  | nil => exact (Function.update_eq_self q s.txq).symm
  | cons skb l ih =>
    rw [txPushAll, ih, txPush, RwnxHw.setTxq_txq, setMoreDataFlag_txq, Function.update_idem,
      Function.update_self, List.length_cons, Function.iterate_succ_apply]

/-- The pushes leave the lists alone. -/
theorem txPushAll_hwq (s : RwnxHw β) (q : TxqId) (l : List β) :
    (txPushAll s q l).2.hwq = s.hwq := by
  induction l generalizing s with
  | nil => rfl
  | cons skb l ih => rw [txPushAll, ih, txPush, RwnxHw.setTxq_hwq, setMoreDataFlag_hwq]

/-- The power save counters of a station that `n` frames of a kind are pushed to. -/
def psPushes (ps : StaId → StaPs) (q : TxqId) (psId : PsId) (n : ℕ) : StaId → StaPs :=
  match q.sta? with
  | none => ps
  | some i =>
    if (ps i).active then Function.update ps i ((fun p => p.push psId)^[n] (ps i)) else ps

theorem psPushes_of_none {ps : StaId → StaPs} {q : TxqId} (h : q.sta? = none) (psId : PsId)
    (n : ℕ) : psPushes ps q psId n = ps := by
  rw [psPushes, h]

theorem psPushes_of_some {ps : StaId → StaPs} {q : TxqId} {i : StaId} (h : q.sta? = some i)
    (psId : PsId) (n : ℕ) : psPushes ps q psId n =
      if (ps i).active then Function.update ps i ((fun p => p.push psId)^[n] (ps i)) else ps := by
  rw [psPushes, h]

/-- The pushes of a round count for the station of the queue, if it is in power save. -/
theorem txPushAll_ps (s : RwnxHw β) (q : TxqId) (l : List β) :
    (txPushAll s q l).2.ps = psPushes s.ps q (s.txq q).psId l.length := by
  -- one push
  have hone : ∀ (s : RwnxHw β) (skb : β),
      (txPush s q skb).2.ps = psPushes s.ps q (s.txq q).psId 1 := by
    intro s skb
    rw [txPush, RwnxHw.setTxq_ps, setMoreDataFlag]
    cases h : q.sta? with
    | none => rw [psPushes_of_none h]
    | some i =>
      simp only [psPushes_of_some h]
      split <;> rfl
  induction l generalizing s with
  | nil =>
    cases h : q.sta? with
    | none => rw [psPushes_of_none h]; rfl
    | some i =>
      rw [psPushes_of_some h]
      split
      · exact (Function.update_eq_self i s.ps).symm
      · rfl
  | cons skb l ih =>
    -- a push leaves the kind of the frames alone
    have hkind : ((txPush s q skb).2.txq q).psId = (s.txq q).psId := by
      rw [txPush, RwnxHw.setTxq_txq, Function.update_self]
      exact (Txq.pushed_iterate (s.txq q) 1).psId
    rw [txPushAll, ih, hkind, hone]
    cases h : q.sta? with
    | none => simp only [psPushes_of_none h]
    | some i =>
      simp only [psPushes_of_some h]
      by_cases hact : (s.ps i).active
      · -- the station stays in power save
        have hstill : ((s.ps i).push (s.txq q).psId).active := hact
        simp only [hact, if_true, Function.iterate_zero_apply, Function.update_self, hstill,
          Function.update_idem, List.length_cons, Function.iterate_succ_apply]
      · simp only [hact, if_false, Bool.false_eq_true]

omit [DecidableEq β] in
/-- A queue that is done with leaves the list; another one may go to its end. -/
theorem hwqRelist_spec {s : RwnxHw β} (hs : Lists s) {h : HwqId} {q : TxqId}
    (hq : (s.txq q).isScheduled) (txqEmpty : Bool) : ∃ n status,
      (hwqRelist s h q txqEmpty).txq =
        Function.update s.txq q { s.txq q with pktSent := n, status := status } ∧
      (∀ f, f ≠ .inHwqList → (f ∈ status ↔ f ∈ (s.txq q).status)) ∧
      (.inHwqList ∈ status ↔ txqEmpty = false) ∧
      Lists (hwqRelist s h q txqEmpty) ∧ (hwqRelist s h q txqEmpty).ps = s.ps := by
  have hflag := of_decide_eq_true hq
  rw [hwqRelist]
  split
  · -- the round is over for this queue
    next hdone =>
    refine ⟨0, (s.txq q).status.erase .inHwqList, ?_, fun f hf => ?_, ?_, (hs.del q).setTxq rfl, ?_⟩
    · rw [RwnxHw.setTxq_txq, txqDelFromHwList_txq, Function.update_self, Function.update_idem]
      rfl
    · rw [Finset.mem_erase, and_iff_right hf]
    · exact iff_of_false (Finset.notMem_erase _ _) (by simp [hdone])
    · rw [RwnxHw.setTxq_ps, txqDelFromHwList_ps]
  · -- the queue stays, and goes to the end of the list after its share
    next hmore =>
    rw [Bool.not_eq_true] at hmore
    split
    · refine ⟨0, (s.txq q).status, rfl, fun _ _ => Iff.rfl, iff_of_true hflag hmore, ?_, rfl⟩
      refine hs.congr (fun q' => ?_) fun h' => ?_
      · rw [RwnxHw.setHwq_txq, RwnxHw.setTxq_txq, Function.update_apply]
        split
        · next heq => rw [heq]; rfl
        · rfl
      · rw [RwnxHw.setHwq_hwq, RwnxHw.setTxq_hwq, Function.update_apply]
        split
        · next heq => rw [heq]; exact List.rotate_perm _ 1
        · exact .refl _
    · exact ⟨(s.txq q).pktSent, (s.txq q).status, (Function.update_eq_self q s.txq).symm,
        fun _ _ => Iff.rfl, iff_of_true hflag hmore, hs, rfl⟩

omit [DecidableEq β] in
/-- With credits for the whole of a service period there is nothing to abort. -/
theorem abortSp_eq_self {s : RwnxHw β} {q : TxqId} (h : (s.txq q).pushLimit = 0) :
    abortSp s q = s := by
  rw [abortSp]
  split
  · rfl
  · exact if_neg fun h' => h'.1 h

omit [DecidableEq β] in
/-- The flow control wakes a netdev queue at most, and the flag it clears is its own. -/
theorem flowCtrlRestart_spec {s : RwnxHw β} (hs : Lists s) (q : TxqId) : ∃ wake status u,
    flowCtrlRestart s q = (wake, u) ∧ (wake = [] ∨ wake = [.wakeSubqueue q]) ∧
      u.txq = Function.update s.txq q { s.txq q with status := status } ∧
      (∀ f, f ≠ .ndevFlowCtrl → (f ∈ status ↔ f ∈ (s.txq q).status)) ∧ Lists u ∧ u.ps = s.ps := by
  rw [flowCtrlRestart]
  split
  · refine ⟨_, _, _, rfl, ?_, rfl, fun f hf => ?_, hs.setTxq ?_, rfl⟩
    · split
      · exact .inl rfl
      · exact .inr rfl
    · rw [Finset.mem_erase, and_iff_right hf]
    · simp [Txq.isScheduled]
  · exact ⟨[], (s.txq q).status, s, rfl, .inl rfl, (Function.update_eq_self q s.txq).symm,
      fun _ _ => Iff.rfl, hs, rfl⟩

/-- One round of the loop on an active queue: it pushes its first frames. -/
theorem hwqVisit_spec {s : RwnxHw β} (hs : Lists s) {h : HwqId} {q : TxqId}
    (hq : q ∈ (s.hwq h).list) (hact : (s.txq q).active) (hok : (s.txq q).Ok) : ∃ k wake t u,
      hwqVisit h s q = some ((txPushAll (s.setTxq q { s.txq q with
        skList := (s.txq q).skList.drop k }) q ((s.txq q).skList.take k)).1 ++ wake, u) ∧
      0 < k ∧ k ≤ (s.txq q).skList.length ∧ (wake = [] ∨ wake = [.wakeSubqueue q]) ∧
      u.txq = Function.update s.txq q t ∧ Txq.Visited (s.txq q) t k ∧ Lists u ∧
      u.ps = psPushes s.ps q (s.txq q).psId k := by
  obtain ⟨hsched, -⟩ := (hs.mem q h).mp hq
  have hne := hok.ready (of_decide_eq_true hsched)
  obtain ⟨k, done, hget, hpos, hlen, hlimit, hdone, hmore⟩ := hok.getSkbToPush hne
  have htake : ((s.txq q).skList.take k).length = k := List.length_take_of_le hlen
  -- the queue after the pushes
  set s₀ := s.setTxq q { s.txq q with skList := (s.txq q).skList.drop k } with hs₀
  set s₁ := (txPushAll s₀ q ((s.txq q).skList.take k)).2 with hs₁
  have htxq₁ : s₁.txq = Function.update s.txq q (Txq.push^[k] (s₀.txq q)) := by
    rw [hs₁, txPushAll_txq, htake, hs₀, RwnxHw.setTxq_txq, Function.update_idem]
  have hself₀ : s₀.txq q = { s.txq q with skList := (s.txq q).skList.drop k } := by
    rw [hs₀, RwnxHw.setTxq_txq, Function.update_self]
  have hself₁ : s₁.txq q = Txq.push^[k] (s₀.txq q) := by rw [htxq₁, Function.update_self]
  have hpushed := Txq.pushed_iterate (s₀.txq q) k
  rw [← hself₁] at hpushed
  -- the pushes keep the last frame to be sent again
  have hlast : (s₁.txq q).lastRetrySkb =
      ((s.txq q).skList.drop k |>.take ((s.txq q).nbRetry - k)).getLast? := by
    have := Txq.lastRetry_iterate ((s.txq q).skList.take k) (t := s₀.txq q)
      (by rw [hself₀, List.take_append_drop]; exact hok.nbRetry)
      (by rw [hself₀, List.take_append_drop]; exact hok.lastRetry)
    rw [htake, ← hself₁, hself₀] at this
    exact this
  rw [hself₀] at hpushed
  have hflag₁ : (s₁.txq q).isScheduled = (s.txq q).isScheduled := by
    rw [Txq.isScheduled, hpushed.status]
    rfl
  -- the pushes leave the lists alone
  have hlists₁ : Lists s₁ := by
    refine hs.congr (fun q' => ?_) fun h' => ?_
    · by_cases hqq : q' = q
      · rw [hqq, hflag₁]
      · rw [htxq₁, Function.update_of_ne hqq]
    · rw [hs₁, txPushAll_hwq]
      exact .refl _
  obtain ⟨n, status, htxq₂, hflags₂, hin₂, hlists₂, hps₂⟩ :=
    hwqRelist_spec (h := h) hlists₁ (hflag₁.trans hsched) done
  set s₂ := hwqRelist s₁ h q done with hs₂
  have hself₂ : s₂.txq q = { s₁.txq q with pktSent := n, status := status } := by
    rw [htxq₂, Function.update_self]
  -- the service period has no credits left, so there is nothing to abort
  have hzero : (s₂.txq q).pushLimit = 0 := by
    rw [hself₂]
    exact hpushed.pushLimit.trans (Nat.sub_eq_zero_of_le hlimit)
  obtain ⟨wake, status', u, hflow, hwake, htxq₃, hflags₃, hlists₃, hps₃⟩ :=
    flowCtrlRestart_spec hlists₂ q
  refine ⟨k, wake, { s₂.txq q with status := status' }, u, ?_, hpos, hlen, hwake, ?_, ?_,
    hlists₃, ?_⟩
  · -- the asserts of the loop hold, by what the queue keeps
    simp only [hwqVisit]
    rw [if_neg (by simp [hsched]), if_neg (by simp [hact]), if_neg (not_le.mpr hok.creditsPos),
      if_neg (by simp [Txq.skbReady_iff.mpr hne]), hget, ← hs₀, ← hs₁, ← hs₂,
      abortSp_eq_self hzero, hflow]
  · rw [htxq₃, htxq₂, Function.update_idem, htxq₁, Function.update_idem]
  · exact
      { active := by rw [hself₂]; exact hpushed.active
        credits := by rw [hself₂]; exact hpushed.credits
        skList := by rw [hself₂]; exact hpushed.skList
        psId := by rw [hself₂]; exact hpushed.psId
        nbRetry := by rw [hself₂]; exact hpushed.nbRetry
        lastRetry := by
          rw [hself₂]
          change (s₁.txq q).lastRetrySkb = ((s₁.txq q).skList.take (s₁.txq q).nbRetry).getLast?
          rw [hlast, hpushed.skList, hpushed.nbRetry]
        pushLimit := hzero
        flags := fun f hf hf' => by
          rw [hflags₃ f hf', hself₂, hflags₂ f hf, hpushed.status]
        listed := fun hin => by
          rw [hflags₃ _ (by decide), hself₂, hin₂] at hin
          exact hmore hin
        unlisted := fun hout => by
          rw [hflags₃ _ (by decide), hself₂, hin₂, Bool.not_eq_false] at hout
          exact hdone hout }
  · rw [hps₃, hps₂, hs₁, txPushAll_ps, htake, hself₀]
    rfl

end Visit

end LonganPi.Wifi
