import LonganPi.Wifi.TxSchedule

/-!
# No interleaving trips the asserts of the transmit path

`Sched` is the invariant of the transmit path: the lists hold the scheduled queues, and each queue
is in order (`QueueOk`). A station that is in power save has stopped its active queues, and for a
multicast station `pkt_ready` counts the frames of its queue.

A round of the loop of `rwnx_hwq_process` is one of two things (`Visit`): an active queue pushes its
first frames, or an inactive one is flushed. Both keep `Sched` and lower `backlog`, so the loop
comes to its end (`hwqProcess_spec`). The other steps keep `Sched` one by one, and `tx_never_bugs`
is the induction over the run.
-/

open DriverLib

namespace LonganPi.Wifi

variable {β : Type*}

/-! ### The invariant -/

/-- What a queue keeps, given the power save state of the stations. -/
structure QueueOk (ps : StaId → StaPs) (q : TxqId) (t : Txq β) : Prop where
  ok : t.active → t.Ok
  asleep : ∀ i, q.sta? = some i → (ps i).active → t.active → .stopStaPs ∈ t.status
  kind : ∀ v, q = .bcmc v → t.psId = .legacy
  ready : ∀ v, q = .bcmc v → (ps (.bcmc v)).active → t.active →
    (ps (.bcmc v)).pktReady .legacy = t.skList.length % 2 ^ 16 ∧
      (ps (.bcmc v)).pktReady .uapsd = 0

/-- **The invariant of the transmit path.** -/
structure Sched (s : RwnxHw β) : Prop where
  lists : Lists s
  queues : ∀ q, QueueOk s.ps q (s.txq q)

/-- A queue stays in order when no station of its falls asleep, and what is ready for it stays. -/
theorem QueueOk.congr {ps ps' : StaId → StaPs} {q : TxqId} {t : Txq β} (h : QueueOk ps q t)
    (hact : ∀ i, q.sta? = some i → (ps' i).active → (ps i).active)
    (hready : ∀ v, q = .bcmc v → (ps' (.bcmc v)).active →
      (ps' (.bcmc v)).pktReady = (ps (.bcmc v)).pktReady) : QueueOk ps' q t where
  ok := h.ok
  asleep i hi h' := h.asleep i hi (hact i hi h')
  kind := h.kind
  ready v hv h' := by
    rw [hready v hv h']
    exact h.ready v hv (hact _ (by rw [hv]; rfl) h')

/-- One queue changes, and the other queues do not see what changes in the stations. -/
theorem Sched.update {s u : RwnxHw β} (hs : Sched s) (hlists : Lists u) {q : TxqId} {t : Txq β}
    (htxq : u.txq = Function.update s.txq q t) (hq : QueueOk u.ps q t)
    (hact : ∀ i, (u.ps i).active → (s.ps i).active)
    (hready : ∀ v, q ≠ .bcmc v → (u.ps (.bcmc v)).pktReady = (s.ps (.bcmc v)).pktReady) :
    Sched u where
  lists := hlists
  queues q' := by
    rw [htxq, Function.update_apply]
    split
    · next heq => rwa [heq]
    · next hne =>
      exact (hs.queues q').congr (fun i _ => hact i) fun v hv _ =>
        hready v fun h => hne (hv.trans h.symm)

/-- `Sched.update` for a step that leaves the stations alone. -/
theorem Sched.updateTxq {s u : RwnxHw β} (hs : Sched s) (hlists : Lists u) {q : TxqId} {t : Txq β}
    (htxq : u.txq = Function.update s.txq q t) (hps : u.ps = s.ps) (hq : QueueOk s.ps q t) :
    Sched u :=
  hs.update hlists htxq (hps ▸ hq) (fun i h => hps ▸ h) fun _ _ => by rw [hps]

theorem sched_init : Sched (RwnxHw.init : RwnxHw β) where
  -- no queue is active, and the lists are empty
  lists := ⟨fun _ => List.nodup_nil, fun _ _ => iff_of_false List.not_mem_nil fun h => nomatch h.1⟩
  queues _ := ⟨nofun, fun _ _ => nofun, fun _ _ => rfl, fun _ _ => nofun⟩

/-! ### The queues of a station -/

/-- The queue of a multicast station is the one of its interface. -/
theorem TxqId.sta?_eq_bcmc {q : TxqId} {v : ℕ} (h : q.sta? = some (.bcmc v)) : q = .bcmc v := by
  cases q <;> cases h
  rfl

/-- The queues of a station are those that name it. -/
theorem StaId.mem_txqs {q : TxqId} {i : StaId} : q ∈ i.txqs ↔ q.sta? = some i := by
  cases i <;> cases q <;> simp [txqs, TxqId.sta?, eq_comm]

/-! ### Power save counters -/

/-- A 16-bit counter that goes down by one. -/
def dec16 (n : ℕ) : ℕ := (n + (2 ^ 16 - 1)) % 2 ^ 16

/-- A counter of what a queue holds stays one when frames leave. -/
theorem dec16_iterate {m k : ℕ} (hk : k ≤ m) : dec16^[k] (m % 2 ^ 16) = (m - k) % 2 ^ 16 := by
  induction k with
  | zero => rfl
  | succ k ih =>
    rw [Function.iterate_succ_apply', ih (by omega), dec16]
    omega

theorem StaPs.push_iterate_active (p : StaPs) (psId : PsId) (n : ℕ) :
    ((fun p => p.push psId)^[n] p).active = p.active := by
  induction n generalizing p with
  | zero => rfl
  | succ n ih => exact (ih (p.push psId)).trans rfl

theorem StaPs.push_iterate_pktReady (p : StaPs) (psId : PsId) (n : ℕ) :
    ((fun p => p.push psId)^[n] p).pktReady =
      Function.update p.pktReady psId (dec16^[n] (p.pktReady psId)) := by
  induction n generalizing p with
  | zero => exact (Function.update_eq_self psId p.pktReady).symm
  | succ n ih =>
    have hone : (p.push psId).pktReady =
        Function.update p.pktReady psId (dec16 (p.pktReady psId)) := rfl
    rw [Function.iterate_succ_apply, ih, hone, Function.update_idem, Function.update_self,
      Function.iterate_succ_apply]

/-- No push wakes a station or lets it sleep. -/
theorem psPushes_active (ps : StaId → StaPs) (q : TxqId) (psId : PsId) (n : ℕ) (i : StaId) :
    (psPushes ps q psId n i).active = (ps i).active := by
  cases h : q.sta? with
  | none => rw [psPushes_of_none h]
  | some j =>
    rw [psPushes_of_some h]
    split
    · rw [Function.update_apply]
      split
      · next heq => rw [StaPs.push_iterate_active, heq]
      · rfl
    · rfl

/-- The pushes of another queue do not concern a multicast station. -/
theorem psPushes_bcmc {q : TxqId} {v : ℕ} (hq : q ≠ .bcmc v) (ps : StaId → StaPs) (psId : PsId)
    (n : ℕ) : psPushes ps q psId n (.bcmc v) = ps (.bcmc v) := by
  cases h : q.sta? with
  | none => rw [psPushes_of_none h]
  | some j =>
    rw [psPushes_of_some h]
    split
    · refine Function.update_of_ne (fun heq => hq ?_) _ _
      exact TxqId.sta?_eq_bcmc (h.trans (congrArg some heq.symm))
    · rfl

/-! ### The loop of `rwnx_hwq_process` -/

section Process

variable [DecidableEq β] {s u : RwnxHw β} {q : TxqId} {h : HwqId} {o : List (TxAct β)}

/-- What a round of the loop can do. -/
inductive Visit (s : RwnxHw β) (q : TxqId) : List (TxAct β) → RwnxHw β → Prop
  /-- An active queue pushes its first `k` frames. -/
  | push {k : ℕ} {wake : List (TxAct β)} {t : Txq β} {u : RwnxHw β}
      (hact : (s.txq q).active) (hpos : 0 < k) (hlen : k ≤ (s.txq q).skList.length)
      (hwake : wake = [] ∨ wake = [.wakeSubqueue q]) (htxq : u.txq = Function.update s.txq q t)
      (hv : Txq.Visited (s.txq q) t k) (hlists : Lists u)
      (hps : u.ps = psPushes s.ps q (s.txq q).psId k) :
      Visit s q ((txPushAll (s.setTxq q { s.txq q with
        skList := (s.txq q).skList.drop k }) q ((s.txq q).skList.take k)).1 ++ wake) u
  /-- An inactive queue is flushed. -/
  | flush {u : RwnxHw β} (hact : (s.txq q).active = false)
      (htxq : u.txq = Function.update s.txq q { (s.txq q).unschedule with skList := [] })
      (hlists : Lists u) (hps : u.ps = s.ps) :
      Visit s q ((s.txq q).skList.map (.kfreeSkb q)) u

/-- Every round of the loop is one of the two. -/
theorem hwqVisit_visit (hs : Sched s) (hq : q ∈ (s.hwq h).list) :
    ∃ o u, hwqVisit h s q = some (o, u) ∧ Visit s q o u := by
  cases hact : (s.txq q).active with
  | true =>
    obtain ⟨k, wake, t, u, hvisit, hpos, hlen, hwake, htxq, hv, hlists, hps⟩ :=
      hwqVisit_spec hs.lists hq hact ((hs.queues q).ok hact)
    exact ⟨_, u, hvisit, .push hact hpos hlen hwake htxq hv hlists hps⟩
  | false =>
    obtain ⟨hsched, -⟩ := (hs.lists.mem q h).mp hq
    -- an inactive queue leaves its list, and its frames are freed
    have hself : (txqDelFromHwList s q).txq q = (s.txq q).unschedule := by
      rw [txqDelFromHwList_txq, Function.update_self]
    have hvisit : hwqVisit h s q = some (txqFlush (txqDelFromHwList s q) q) := by
      simp only [hwqVisit]
      rw [if_neg (by simp [hsched]), if_pos (by simp [hact])]
    rw [txqFlush, hself] at hvisit
    refine ⟨_, _, hvisit, .flush hact ?_ ?_ ?_⟩
    · rw [RwnxHw.setTxq_txq, txqDelFromHwList_txq, Function.update_idem]
    · refine (hs.lists.del q).setTxq ?_
      rw [hself]
      rfl
    · rw [RwnxHw.setTxq_ps, txqDelFromHwList_ps]

/-- **A round keeps the invariant.** -/
theorem Visit.sched (hs : Sched s) (hv : Visit s q o u) : Sched u := by
  cases hv with
  | @push k wake t _ hact hpos hlen hwake htxq hv hlists hps =>
    -- what the queue keeps, what its station sees, its kind, and what is ready for it
    have hq := hs.queues q
    refine hs.update hlists htxq ?_ (fun i h => ?_) fun v hne => ?_
    · rw [hps]
      refine ⟨fun _ => hv.ok (hq.ok hact), fun i hi h _ => ?_, fun v hv' => ?_, fun v hv' h _ => ?_⟩
      · rw [psPushes_active] at h
        exact (hv.flags _ (by decide) (by decide)).mpr (hq.asleep i hi h hact)
      · exact hv.psId.trans (hq.kind v hv')
      · rw [psPushes_active] at h
        obtain ⟨hlegacy, huapsd⟩ := hq.ready v hv' h hact
        have hsta : q.sta? = some (.bcmc v) := by rw [hv']; rfl
        rw [psPushes_of_some hsta, if_pos h, Function.update_self, StaPs.push_iterate_pktReady,
          hq.kind v hv', Function.update_self, Function.update_of_ne (by decide), hlegacy,
          dec16_iterate hlen, hv.skList, List.length_drop]
        exact ⟨rfl, huapsd⟩
    · rwa [hps, psPushes_active] at h
    · rw [hps, psPushes_bcmc hne]
  | flush hact htxq hlists hps =>
    refine hs.updateTxq hlists htxq hps ?_
    have hq := hs.queues q
    -- nothing is asked of an inactive queue
    have hoff : ∀ {p : Prop}, (s.txq q).active → p := fun h =>
      absurd h (by rw [hact]; exact Bool.false_ne_true)
    exact ⟨hoff, fun _ _ _ => hoff, hq.kind, fun _ _ _ => hoff⟩

/-- A round is about one queue. -/
theorem Visit.txq_of_ne (hv : Visit s q o u) {q' : TxqId} (hne : q' ≠ q) : u.txq q' = s.txq q' := by
  cases hv with
  | push _ _ _ _ htxq => rw [htxq, Function.update_of_ne hne]
  | flush _ htxq => rw [htxq, Function.update_of_ne hne]

theorem Visit.lists (hv : Visit s q o u) : Lists u := by
  cases hv with
  | push _ _ _ _ _ _ hlists => exact hlists
  | flush _ _ hlists => exact hlists

/-- The other queues stay where they are. -/
theorem Visit.mem_iff (hs : Lists s) (hv : Visit s q o u) {q' : TxqId} (hne : q' ≠ q) :
    q' ∈ (u.hwq h).list ↔ q' ∈ (s.hwq h).list := by
  rw [hv.lists.mem, hs.mem, hv.txq_of_ne hne]

/-- Each round is one of the rounds that `backlog` counts. -/
theorem Visit.backlog_lt (hs : Lists s) (hv : Visit s q o u) (hq : q ∈ (s.hwq h).list) :
    backlog h u < backlog h s := by
  refine Cursor.weight_lt (hs.nodup h) (hv.lists.nodup h) (fun x hx => ?_) hq (fun x hne => ?_) ?_
  · -- who is in the list was in it before
    by_cases hxq : x = q
    · exact hxq ▸ hq
    · exact (hv.mem_iff hs hxq).mp hx
  · rw [hv.txq_of_ne hne]
  · cases hv with
    | push _ hpos hlen _ htxq hv =>
      -- the queue has pushed at least one frame
      refine .inr ?_
      rw [htxq, Function.update_self, hv.skList, List.length_drop]
      omega
    | flush _ htxq hlists =>
      -- the queue has left the list
      refine .inl ⟨fun hin => ?_, Nat.succ_pos _⟩
      have hsched := ((hlists.mem q h).mp hin).1
      rw [htxq, Function.update_self] at hsched
      exact absurd hsched (by simp [Txq.isScheduled, Txq.unschedule])

/-- A property of a step that a sequence of rounds of the loop has when each round has it. -/
structure Compositional (P : RwnxHw β → List (TxAct β) → RwnxHw β → Prop) : Prop where
  refl : ∀ s, P s [] s
  trans : ∀ s o t o' u, P s o t → P t o' u → P s (o ++ o') u
  setHwq : ∀ s h w, P s [] (s.setHwq h w)
  visit : ∀ s q o u, Sched s → Visit s q o u → P s o u

variable {P : RwnxHw β → List (TxAct β) → RwnxHw β → Prop}

omit [DecidableEq β] in
theorem Sched.setHwq (hs : Sched s) (needProcessing : Bool) :
    Sched (s.setHwq h { s.hwq h with needProcessing }) where
  lists := hs.lists.congr (fun _ => rfl) fun h' => by
    rw [RwnxHw.setHwq_hwq, Function.update_apply]
    split
    · next heq => rw [heq]
    · exact .refl _
  queues := hs.queues

/-- `rwnx_hwq_process` comes to its end, and no assert of it trips. -/
theorem hwqProcess_spec (hP : Compositional P) (hs : Sched s) (h : HwqId) :
    ∃ o u, hwqProcess s h = some (o, u) ∧ Sched u ∧ P s o u := by
  -- the loop walks the list with a safe cursor, and `backlog` goes down
  have hwalk : ∃ o u, hwqProcess s h = some (o, u) ∧ Sched u ∧
      P (s.setHwq h { s.hwq h with needProcessing := false }) o u :=
    Cursor.walk_spec (μ := backlog h) hP.refl hP.trans
      (fun s hs => hs.lists.nodup h)
      (fun s q hs hq => by
        obtain ⟨o, t, hrun, hv⟩ := hwqVisit_visit hs hq
        exact ⟨o, t, hrun, hv.sched hs, hP.visit s q o t hs hv, hv.backlog_lt hs.lists hq,
          fun x hx hne => (hv.mem_iff hs.lists hne).mpr hx⟩)
      (hs.setHwq false) le_rfl (fun q hq => List.mem_of_mem_head? hq)
  obtain ⟨o, u, hrun, hu, hPu⟩ := hwalk
  exact ⟨o, u, hrun, hu, hP.trans s [] _ o u (hP.setHwq s h _) hPu⟩

/-- The lists are processed one after the other, by induction on those that are left. -/
theorem hwqProcessAll_spec (hP : Compositional P) (hs : Sched s) (ids : List HwqId) :
    ∃ o u, hwqProcessAll ids s = some (o, u) ∧ Sched u ∧ P s o u := by
  induction ids generalizing s with
  | nil => exact ⟨[], s, rfl, hs, hP.refl s⟩
  | cons h ids ih =>
    rw [hwqProcessAll]
    split
    · obtain ⟨o, t, hrun, ht, hPt⟩ := hwqProcess_spec hP hs h
      obtain ⟨o', u, hrest, hu, hPu⟩ := ih ht
      refine ⟨o ++ o', u, ?_, hu, hP.trans s o t o' u hPt hPu⟩
      rw [hrun, Option.bind_some, hrest, Option.map_some]
    · exact ih hs

end Process

/-! ### Queueing a frame -/

section Queueing

variable {s : RwnxHw β} {q : TxqId}

/-- A frame for a station in power save is counted; nothing else happens. -/
theorem psQueue_cases (s : RwnxHw β) (q : TxqId) :
    (∃ i, q.sta? = some i ∧ (s.ps i).active ∧ (psQueue s q).2 = s.setPs i { s.ps i with
      pktReady := Function.update (s.ps i).pktReady (s.txq q).psId
        (((s.ps i).pktReady (s.txq q).psId + 1) % 2 ^ 16) }) ∨
    (∀ i, q.sta? = some i → (s.ps i).active = false) ∧ (psQueue s q).2 = s := by
  rw [psQueue]
  cases h : q.sta? with
  | none => exact .inr ⟨fun i hi => absurd hi (Option.some_ne_none i).symm, rfl⟩
  | some i =>
    by_cases hact : (s.ps i).active
    · exact .inl ⟨i, rfl, hact, by simp only [hact, if_true]⟩
    · refine .inr ⟨fun j hj => ?_, by simp only [hact, if_false, Bool.false_eq_true]⟩
      obtain rfl := Option.some.inj hj
      rwa [Bool.not_eq_true] at hact

/-- What is only told to others. -/
def TxAct.Quiet : TxAct β → Prop
  | .trafficStatus _ _ _ | .stopSubqueue _ | .wakeSubqueue _ => True
  | _ => False

theorem psQueue_quiet (s : RwnxHw β) (q : TxqId) : ∀ a ∈ (psQueue s q).1, a.Quiet := by
  rw [psQueue]
  split
  · exact fun _ h => absurd h List.not_mem_nil
  · split
    · simp only
      split
      · exact List.forall_mem_singleton.mpr trivial
      · exact fun _ h => absurd h List.not_mem_nil
    · exact fun _ h => absurd h List.not_mem_nil

/-- The flow control stops a netdev queue at most. -/
theorem flowCtrlStop_spec (hs : Lists s) (q : TxqId) :
    ∃ (full : Bool) (o : List (TxAct β)) (u : RwnxHw β), flowCtrlStop s q = (o, u) ∧
      (∀ a ∈ o, a.Quiet) ∧ Lists u ∧ u.ps = s.ps ∧ u.txq = Function.update s.txq q
        (if full then { s.txq q with status := insert .ndevFlowCtrl (s.txq q).status }
          else s.txq q) := by
  rw [flowCtrlStop]
  split
  · refine ⟨true, _, _, rfl, List.forall_mem_singleton.mpr trivial, hs.setTxq ?_, rfl, rfl⟩
    simp [Txq.isScheduled]
  · exact ⟨false, [], s, rfl, fun _ h => absurd h List.not_mem_nil, hs, rfl,
      (Function.update_eq_self q s.txq).symm⟩

/-- `rwnx_txq_queue_skb` changes one queue, and the counters of its station. -/
theorem txqQueueSkb_spec [DecidableEq β] (hs : Lists s) (q : TxqId) (skb : β) (retry : Bool) :
    ∃ full o u listed, txqQueueSkb s q skb retry = (o, u, listed) ∧ (∀ a ∈ o, a.Quiet) ∧ Lists u ∧
      u.ps = (psQueue s q).2.ps ∧
      u.txq = Function.update s.txq q ((s.txq q).queued skb retry full) := by
  -- the counters of the station are not part of the queues
  have htxq : (psQueue s q).2.txq = s.txq := by
    rcases psQueue_cases s q with ⟨i, -, -, h⟩ | ⟨-, h⟩ <;> rw [h]
    rfl
  have hlists : Lists ((psQueue s q).2.setTxq q (((psQueue s q).2.txq q).enqueue skb retry)) := by
    have h₀ : Lists (psQueue s q).2 := by
      rcases psQueue_cases s q with ⟨i, -, -, h⟩ | ⟨-, h⟩ <;> rw [h]
      · exact hs.setPs i _
      · exact hs
    refine h₀.setTxq ?_
    cases retry <;> rfl
  obtain ⟨full, o, u, hflow, hquiet, hu, hps, hutxq⟩ := flowCtrlStop_spec hlists q
  rw [RwnxHw.setTxq_txq, Function.update_self, htxq, Function.update_idem] at hutxq
  -- the frame is queued, and the netdev queue may have been stopped
  have hqueued : (s.txq q).queued skb retry full =
      if (u.txq q).isStopped then u.txq q else (u.txq q).schedule := by
    rw [hutxq, Function.update_self]
    rfl
  have hboth : ∀ a ∈ (psQueue s q).1 ++ o, a.Quiet :=
    List.forall_mem_append.mpr ⟨psQueue_quiet s q, hquiet⟩
  simp only [txqQueueSkb, hflow]
  split
  · -- the queue is stopped, and stays out of its list
    next hstop =>
    refine ⟨full, _, u, false, rfl, hboth, hu, hps, ?_⟩
    rw [hqueued, if_pos hstop, hutxq, Function.update_self]
  · -- the queue may send, and enters its list
    next hgo =>
    refine ⟨full, _, _, true, rfl, hboth, hu.add q, (txqAddToHwList_ps u q).trans hps, ?_⟩
    rw [hqueued, if_neg hgo, txqAddToHwList_txq, hutxq, Function.update_self,
      Function.update_idem]

/-- Queueing a frame keeps the schedule, and what is ready for a multicast station is still counted.
-/
theorem Sched.queueSkb [DecidableEq β] (hs : Sched s) {skb : β} (retry : Bool)
    (hnew : (s.txq q).active → skb ∉ (s.txq q).skList) :
    Sched (txqQueueSkb s q skb retry).2.1 := by
  obtain ⟨full, o, u, listed, hrun, -, hlists, hps, htxq⟩ := txqQueueSkb_spec hs.lists q skb retry
  rw [hrun]
  change Sched u
  have hq := hs.queues q
  obtain ⟨status, hqueued, hflags, -⟩ := (s.txq q).queued_eq skb retry full
  have hactive : ((s.txq q).queued skb retry full).active = (s.txq q).active := by
    rw [hqueued]
    cases retry <;> rfl
  have hkind : ((s.txq q).queued skb retry full).psId = (s.txq q).psId := by
    rw [hqueued]
    cases retry <;> rfl
  -- the station sleeps only if it did before
  have hact : ∀ i, (u.ps i).active → (s.ps i).active := by
    intro i h
    rcases psQueue_cases s q with ⟨j, -, hj, heq⟩ | ⟨-, heq⟩ <;> rw [hps, heq] at h
    · rw [RwnxHw.setPs_ps, Function.update_apply] at h
      split at h
      · next hij => rw [hij]; exact hj
      · exact h
    · exact h
  refine hs.update hlists htxq ⟨fun h => ?_, fun i hi h h' => ?_, fun v hv => ?_,
    fun v hv h h' => ?_⟩ hact fun v hne => ?_
  · rw [hactive] at h
    exact (hq.ok h).queued (hnew h) retry full
  · rw [hactive] at h'
    rw [hqueued]
    exact (hflags _ (by decide) (by decide)).mpr (hq.asleep i hi (hact i h) h')
  · rw [hkind]
    exact hq.kind v hv
  · rw [hactive] at h'
    have hsta : q.sta? = some (.bcmc v) := by rw [hv]; rfl
    obtain ⟨hlegacy, huapsd⟩ := hq.ready v hv (hact _ h) h'
    -- one frame more, which is counted
    have hlen : ((s.txq q).queued skb retry full).skList.length = (s.txq q).skList.length + 1 := by
      rw [hqueued]
      cases retry with
      | false => exact List.length_append
      | true =>
        change ((s.txq q).enqueue skb true).skList.length = _
        rw [(hq.ok h').enqueue_retry skb, List.length_append, List.length_cons, ← Nat.add_assoc,
          ← List.length_append, List.take_append_drop]
    rcases psQueue_cases s q with ⟨j, hj, -, heq⟩ | ⟨hoff, -⟩
    · obtain rfl := Option.some.inj (hsta.symm.trans hj)
      rw [hps, heq, RwnxHw.setPs_ps, Function.update_self, hlen, hq.kind v hv]
      dsimp only
      rw [Function.update_self, Function.update_of_ne (by decide), hlegacy]
      exact ⟨by omega, huapsd⟩
    · exact absurd (hact _ h) (by rw [hoff _ hsta]; exact Bool.false_ne_true)
  · rw [hps]
    rcases psQueue_cases s q with ⟨j, hj, -, heq⟩ | ⟨-, heq⟩ <;> rw [heq]
    rw [RwnxHw.setPs_ps, Function.update_of_ne]
    exact fun h => hne (TxqId.sta?_eq_bcmc (hj.trans (congrArg some h.symm)))

end Queueing

end LonganPi.Wifi
