import LonganPi.Wifi.TxSafety

/-!
# Every step of the transmit path keeps the schedule

`TxOp.Sound` is what the driver is promised by its callers and by the firmware. `Sched.step` has one
case for each step, and `tx_never_bugs` is the induction over the run.
-/

open DriverLib

namespace LonganPi.Wifi

variable {β : Type*} {s : RwnxHw β} {q : TxqId} {i : StaId}

/-! ### Stopping and starting -/

namespace Txq

variable {t : Txq β}

/-- Starting a queue changes its flags only. -/
theorem start_eq (t : Txq β) (reason : TxqFlag) : ∃ status,
    t.start reason = { t with status := status } ∧
      ∀ f, f ≠ reason → f ≠ .inHwqList → (f ∈ status ↔ f ∈ t.status) := by
  simp only [start]
  split
  · split
    · refine ⟨_, rfl, fun f hf hf' => ?_⟩
      rw [Finset.mem_insert, or_iff_right hf', Finset.mem_erase, and_iff_right hf]
    · refine ⟨_, rfl, fun f hf _ => ?_⟩
      rw [Finset.mem_erase, and_iff_right hf]
  · exact ⟨t.status, rfl, fun _ _ _ => Iff.rfl⟩

/-- Stopping a queue changes its flags only; an active queue is stopped after it. -/
theorem stop_eq (t : Txq β) {reason : TxqFlag} (hr : reason ≠ .inHwqList) : ∃ status,
    t.stop reason = { t with status := status } ∧
      (∀ f, f ≠ .inHwqList → f ∈ t.status → f ∈ status) ∧ (t.active → reason ∈ status) := by
  simp only [stop]
  split
  · exact ⟨_, rfl, fun f hf h => Finset.mem_erase.mpr ⟨hf, Finset.mem_insert_of_mem h⟩,
      fun _ => Finset.mem_erase.mpr ⟨hr, Finset.mem_insert_self _ _⟩⟩
  · exact ⟨t.status, rfl, fun _ _ h => h, fun h => absurd h ‹_›⟩

end Txq

/-- The flags of a queue change, and a queue of a sleeping station keeps the flag of power save. -/
theorem QueueOk.withStatus {ps : StaId → StaPs} {t : Txq β} (h : QueueOk ps q t)
    {status : Finset TxqFlag} (hok : t.active → Txq.Ok { t with status := status })
    (hps : (∀ i, q.sta? = some i → (ps i).active = false) ∨
      (.stopStaPs ∈ t.status → .stopStaPs ∈ status)) :
    QueueOk ps q { t with status := status } where
  ok := hok
  asleep i hi hact h' := by
    -- either the station is awake, or the flag of power save stays
    rcases hps with hoff | hkeep
    · exact absurd hact (by rw [hoff i hi]; exact Bool.false_ne_true)
    · exact hkeep (h.asleep i hi hact h')
  kind := h.kind
  ready := h.ready

/-- `rwnx_txq_start` keeps the schedule. `RWNX_TXQ_STOP_STA_PS` is cleared only when the station is
awake. -/
theorem Sched.start (hs : Sched s) {reason : TxqFlag} (hr : reason ≠ .inHwqList)
    (hps : reason ≠ .stopStaPs ∨
      (s.txq q).pushLimit = 0 ∧ ∀ i, q.sta? = some i → (s.ps i).active = false) :
    Sched (txqStart s q reason) := by
  obtain ⟨status, heq, hflags⟩ := (s.txq q).start_eq reason
  refine hs.updateTxq (hs.lists.start q hr) (txqStart_txq s q reason) (txqStart_ps s q reason) ?_
  -- no service period is open when the flag of power save is cleared
  have hlimit : reason = .stopStaPs → (s.txq q).pushLimit = 0 := fun h =>
    hps.elim (absurd h) And.left
  have hok := fun h => ((hs.queues q).ok h).start hlimit
  rw [heq] at hok ⊢
  refine (hs.queues q).withStatus hok ?_
  rcases hps with hne | ⟨-, hoff⟩
  · exact .inr (hflags _ (Ne.symm hne) (by decide)).mpr
  · exact .inl hoff

/-- `rwnx_txq_stop` keeps it for every reason to stop. -/
theorem Sched.stop (hs : Sched s) (q : TxqId) {reason : TxqFlag} (hr : reason ∈ rwnxTxqStop) :
    Sched (txqStop s q reason) := by
  have hne : reason ≠ .inHwqList := fun h => absurd (h ▸ hr) (by decide)
  obtain ⟨status, heq, hkeep, -⟩ := (s.txq q).stop_eq hne
  refine hs.updateTxq (hs.lists.stop q hne) (txqStop_txq s q reason) (txqStop_ps s q reason) ?_
  have hok := fun h => ((hs.queues q).ok h).stop hr
  rw [heq] at hok ⊢
  exact (hs.queues q).withStatus hok (.inr (hkeep _ (by decide)))

/-- A queue with frames may be put in its list at any time, as `rwnx_txdatacfm` does. -/
theorem Sched.add (hs : Sched s) (hne : (s.txq q).active → (s.txq q).skList ≠ []) :
    Sched (txqAddToHwList s q) := by
  refine hs.updateTxq (hs.lists.add q) (txqAddToHwList_txq s q) (txqAddToHwList_ps s q) ?_
  exact (hs.queues q).withStatus (fun h => ((hs.queues q).ok h).schedule (hne h))
    (.inr Finset.mem_insert_of_mem)

/-- An interface or a channel never stops a queue for power save. -/
theorem VifReason.flag_mem (r : VifReason) : r.flag ∈ rwnxTxqStop ∧ r.flag ≠ .stopStaPs := by
  cases r <;> decide

theorem VifReason.flag_ne (r : VifReason) : r.flag ≠ .inHwqList := by cases r <;> decide

/-! ### Power save -/

/-- The power save state of one station changes. -/
theorem Sched.setPs (hs : Sched s) {p : StaPs}
    (h : ∀ q, q.sta? = some i → QueueOk (Function.update s.ps i p) q (s.txq q)) :
    Sched (s.setPs i p) where
  lists := hs.lists.setPs i p
  queues q := by
    -- only the queues of the station look at it
    by_cases hq : q.sta? = some i
    · exact h q hq
    · refine (hs.queues q).congr (fun j hj hact => ?_) fun v hv _ => ?_
      · have hne : j ≠ i := fun h => hq (hj.trans (congrArg some h))
        rwa [RwnxHw.setPs_ps, Function.update_of_ne hne] at hact
      · rw [RwnxHw.setPs_ps, Function.update_of_ne]
        rintro rfl
        exact hq (by rw [hv]; rfl)

/-- A station leaves power save without notice. -/
theorem Sched.wake (hs : Sched s) (i : StaId) :
    Sched (s.setPs i { s.ps i with active := false }) := by
  refine hs.setPs fun q hq => ⟨(hs.queues q).ok, fun j hj hact => ?_, (hs.queues q).kind,
    fun v hv hact => ?_⟩
  · -- an awake station asks nothing of its queues
    obtain rfl := Option.some.inj (hq.symm.trans hj)
    rw [Function.update_self] at hact
    exact absurd hact Bool.false_ne_true
  · obtain rfl : i = .bcmc v := by
      rw [hv] at hq
      exact (Option.some.inj hq).symm
    rw [Function.update_self] at hact
    exact absurd hact Bool.false_ne_true

theorem foldl_stop_ps (s : RwnxHw β) (qs : List TxqId) (reason : TxqFlag) :
    (qs.foldl (fun s q => txqStop s q reason) s).ps = s.ps := by
  induction qs generalizing s with
  | nil => rfl
  | cons q qs ih => rw [List.foldl_cons, ih, txqStop_ps]

/-- `rwnx_txq_sta_stop` and its like, by induction on the queues. -/
theorem foldl_stop_sched (hs : Sched s) (qs : List TxqId) {reason : TxqFlag}
    (hr : reason ∈ rwnxTxqStop) : Sched (qs.foldl (fun s q => txqStop s q reason) s) :=
  List.foldlRecOn qs _ hs fun _ hu q _ => hu.stop q hr

/-- The queues that were stopped, and those that were before, are stopped. -/
theorem foldl_stop_mem {reason : TxqFlag} (hr : reason ≠ .inHwqList) (qs : List TxqId)
    (s : RwnxHw β) (h : q ∈ qs ∨ ((s.txq q).active → reason ∈ (s.txq q).status)) :
    ((qs.foldl (fun s q => txqStop s q reason) s).txq q).active →
      reason ∈ ((qs.foldl (fun s q => txqStop s q reason) s).txq q).status := by
  induction qs generalizing s with
  | nil => exact h.resolve_left List.not_mem_nil
  | cons q' qs ih =>
    refine ih _ ?_
    obtain ⟨status, heq, hkeep, hstop⟩ := (s.txq q').stop_eq hr
    rw [txqStop_txq, Function.update_apply]
    -- the queue is the one that is stopped now, or stays as it is
    by_cases hq : q = q'
    · subst hq
      rw [if_pos rfl, heq]
      exact .inr hstop
    · rw [if_neg hq]
      exact h.imp_left fun hm => (List.mem_cons.mp hm).resolve_left hq

/-- A station falls asleep: its queues are stopped, and nothing is ready for it yet. -/
theorem psEnable_sched (hs : Sched s) (i : StaId) : Sched (psEnable s i) := by
  simp only [psEnable]
  set s₁ := i.txqs.foldl (fun s q => txqStop s q .stopStaPs) s with hs₁
  have hsched : Sched s₁ := foldl_stop_sched hs i.txqs (by decide)
  refine hsched.setPs fun q hq => ⟨(hsched.queues q).ok, fun j hj _ => ?_,
    (hsched.queues q).kind, fun v hv _ _ => ?_⟩
  · exact foldl_stop_mem (by decide) i.txqs s (.inl (StaId.mem_txqs.mpr hq))
  · -- the frames that are ready are counted from none
    obtain rfl : i = .bcmc v := by
      rw [hv] at hq
      exact (Option.some.inj hq).symm
    rw [Function.update_self, hv]
    exact ⟨rfl, rfl⟩

theorem txqDelFromHwList_setPs (s : RwnxHw β) (p : StaPs) (q : TxqId) :
    txqDelFromHwList (s.setPs i p) q = (txqDelFromHwList s q).setPs i p := by
  rw [txqDelFromHwList, RwnxHw.setPs_txq, txqDelFromHwList]
  split <;> rfl

/-- Stopping does not look at the stations. -/
theorem txqStop_setPs (s : RwnxHw β) (p : StaPs) (q : TxqId) (reason : TxqFlag) :
    txqStop (s.setPs i p) q reason = (txqStop s q reason).setPs i p := by
  have hcomm : ∀ t, (s.setPs i p).setTxq q t = (s.setTxq q t).setPs i p := fun _ => rfl
  rw [txqStop, RwnxHw.setPs_txq, txqStop, hcomm, txqDelFromHwList_setPs]
  split <;> rfl

/-- A station that enters power save may have been in it before. -/
theorem psEnable_of_wake (h : Sched (s.setPs i { s.ps i with active := false })) :
    Sched (psEnable s i) := by
  have heq : psEnable (s.setPs i { s.ps i with active := false }) i = psEnable s i := by
    have hfold : ∀ u : RwnxHw β, i.txqs.foldl (fun s q => txqStop s q .stopStaPs)
        (u.setPs i { s.ps i with active := false }) =
        (i.txqs.foldl (fun s q => txqStop s q .stopStaPs) u).setPs i
          { s.ps i with active := false } := fun u =>
      List.foldl_hom (RwnxHw.setPs · i { s.ps i with active := false })
        fun s q => txqStop_setPs s _ q _
    simp only [psEnable, hfold]
    simp only [RwnxHw.setPs, Function.update_idem, Function.update_self, foldl_stop_ps]
  rw [← heq]
  exact psEnable_sched h i

/-- A queue without a service period. -/
theorem Sched.clear (hs : Sched s) (q : TxqId) :
    Sched (s.setTxq q { s.txq q with pushLimit := 0 }) := by
  refine hs.updateTxq (hs.lists.setTxq rfl) rfl rfl ?_
  have hq := hs.queues q
  exact
    { hq with
      ok := fun h =>
        { hq.ok h with
          limitLen := Nat.zero_le _
          limitCredits := (hq.ok h).creditsPos.le
          limitPs := fun h => absurd rfl h } }

theorem clearPushLimit_sched (hs : Sched s) (qs : List TxqId) : Sched (clearPushLimit s qs) :=
  List.foldlRecOn qs _ hs fun _ hu q _ => hu.clear q

theorem clearPushLimit_ps (s : RwnxHw β) (qs : List TxqId) : (clearPushLimit s qs).ps = s.ps := by
  rw [clearPushLimit]
  induction qs generalizing s with
  | nil => rfl
  | cons q qs ih => rw [List.foldl_cons, ih, RwnxHw.setTxq_ps]

/-- The queues whose service period was ended have none, and so have those that had none before. -/
theorem clearPushLimit_eq_zero (qs : List TxqId) (s : RwnxHw β)
    (h : q ∈ qs ∨ (s.txq q).pushLimit = 0) : ((clearPushLimit s qs).txq q).pushLimit = 0 := by
  rw [clearPushLimit]
  induction qs generalizing s with
  | nil => exact h.resolve_left List.not_mem_nil
  | cons q' qs ih =>
    refine ih _ ?_
    rw [RwnxHw.setTxq_txq, Function.update_apply]
    -- the queue is the one that is cleared now, or stays as it is
    by_cases hq : q = q'
    · rw [if_pos hq]
      exact .inr rfl
    · rw [if_neg hq]
      exact h.imp_left fun hm => (List.mem_cons.mp hm).resolve_left hq

/-- A station wakes up: its service periods end before its queues start again. -/
theorem psDisable_sched (hs : Sched s) (i : StaId) : Sched (psDisable s i) := by
  set s₁ := clearPushLimit (s.setPs i { s.ps i with active := false }) i.txqs with hs₁
  have hoff : (s₁.ps i).active = false := by
    rw [hs₁, clearPushLimit_ps, RwnxHw.setPs_ps, Function.update_self]
  have hzero : ∀ q ∈ i.txqs, (s₁.txq q).pushLimit = 0 := fun q hq =>
    clearPushLimit_eq_zero i.txqs _ (.inl hq)
  have hstart : Sched s₁ ∧ (s₁.ps i).active = false ∧
      ∀ q ∈ i.txqs, (s₁.txq q).pushLimit = 0 :=
    ⟨clearPushLimit_sched (hs.wake i) i.txqs, hoff, hzero⟩
  -- none of the queues that are still to be started has a service period
  refine (List.foldlRecOn (motive := fun u => Sched u ∧ (u.ps i).active = false ∧
    ∀ q ∈ i.txqs, (u.txq q).pushLimit = 0) i.txqs _ hstart ?_).1
  rintro u ⟨hu, hactive, hlimit⟩ q hq
  refine ⟨hu.start (by decide) (.inr ⟨hlimit q hq, fun j hj => ?_⟩), ?_, fun q' hq' => ?_⟩
  · obtain rfl := Option.some.inj ((StaId.mem_txqs.mp hq).symm.trans hj)
    exact hactive
  · rwa [txqStart_ps]
  · -- starting a queue changes flags only
    obtain ⟨status, heq, -⟩ := (u.txq q).start_eq .stopStaPs
    rw [txqStart_txq, Function.update_apply, heq]
    split
    · exact hlimit q hq
    · exact hlimit q' hq'

/-- A grant keeps the schedule when the queue has the frames and the credits for it. -/
theorem Sched.grant (hs : Sched s) (psId : PsId) {n : ℕ} (hq : q.sta? = some i)
    (hact : (s.ps i).active)
    (hn : (s.txq q).active → 0 < n ∧ n ≤ (s.txq q).skList.length ∧ (n : ℤ) ≤ (s.txq q).credits) :
    Sched (grant s i psId q n) ∧ ((grant s i psId q n).ps i).active := by
  have hps : (LonganPi.Wifi.grant s i psId q n).ps = Function.update s.ps i { s.ps i with
      spCnt := Function.update (s.ps i).spCnt psId (((s.ps i).spCnt psId + n) % 2 ^ 16) } := by
    rw [LonganPi.Wifi.grant, txqAddToHwList_ps]
    rfl
  have hsame : ∀ j, ((LonganPi.Wifi.grant s i psId q n).ps j).active = (s.ps j).active ∧
      ((LonganPi.Wifi.grant s i psId q n).ps j).pktReady = (s.ps j).pktReady := by
    intro j
    rw [hps, Function.update_apply]
    split
    · next h => rw [h]; exact ⟨rfl, rfl⟩
    · exact ⟨rfl, rfl⟩
  have htxq : (LonganPi.Wifi.grant s i psId q n).txq =
      Function.update s.txq q (Txq.schedule { s.txq q with pushLimit := n % 2 ^ 8 }) := by
    rw [LonganPi.Wifi.grant, txqAddToHwList_txq, RwnxHw.setPs_txq, RwnxHw.setTxq_txq,
      Function.update_idem, Function.update_self]
  -- the queue enters its list if it is not there
  have hlists : Lists (LonganPi.Wifi.grant s i psId q n) := by
    rw [LonganPi.Wifi.grant]
    exact ((hs.lists.setTxq (t := { s.txq q with pushLimit := n % 2 ^ 8 }) rfl).setPs i _).add q
  have hold := hs.queues q
  refine ⟨hs.update hlists htxq ?_ (fun j h => (hsame j).1 ▸ h) fun v _ => (hsame _).2,
    (hsame i).1.trans hact⟩
  · refine ⟨fun h => ?_, fun j hj h h' => ?_, hold.kind, fun v hv h h' => ?_⟩
    · obtain ⟨hpos, hlen, hcredits⟩ := hn h
      have hok := hold.ok h
      have hbyte : n % 2 ^ 8 = n := Nat.mod_eq_of_lt (by have := hok.creditsLe; omega)
      refine Txq.Ok.schedule (t := { s.txq q with pushLimit := n % 2 ^ 8 }) ?_
        (List.length_pos_iff.mp (hpos.trans_le hlen))
      exact
        { hok with
          limitLen := by
            change n % 2 ^ 8 ≤ _
            rwa [hbyte]
          limitCredits := by
            change ((n % 2 ^ 8 : ℕ) : ℤ) ≤ _
            rwa [hbyte]
          limitPs := fun _ => hold.asleep i hq hact h }
    · rw [(hsame j).1] at h
      exact Finset.mem_insert_of_mem (hold.asleep j hj h h')
    · rw [(hsame _).1] at h
      rw [(hsame _).2]
      exact hold.ready v hv h h'

/-- The frames asked for are granted queue by queue, by induction on the queues that are left. -/
theorem dispatch_sched (psId : PsId) (qs : List TxqId) (hqs : ∀ q ∈ qs, q.sta? = some i)
    {pktReq : ℕ} (hreq : 0 < pktReq) (hs : Sched s) (hact : (s.ps i).active) :
    Sched (dispatch i psId qs pktReq s) := by
  induction qs generalizing s pktReq with
  | nil => exact hs
  | cons q qs ih =>
    obtain ⟨hq, hqs⟩ := List.forall_mem_cons.mp hqs
    have hcredits := fun h => ((hs.queues q).ok h).creditsPos
    simp only [dispatch]
    set len := (s.txq q).skList.length % 2 ^ 16 with hlen
    have hle : len ≤ (s.txq q).skList.length := Nat.mod_le _ _
    set txqLen := if (s.txq q).credits < len then u16 (s.txq q).credits else len with htxqLen
    -- on an active queue there are frames and credits for so many
    have hbound : (s.txq q).active → txqLen ≤ (s.txq q).skList.length ∧
        (txqLen : ℤ) ≤ (s.txq q).credits := by
      intro h
      have := hcredits h
      have := ((hs.queues q).ok h).creditsLe
      rw [htxqLen, u16]
      split <;> omega
    -- a queue without frames to give is passed over
    split
    · exact ih hqs hreq hs hact
    split
    · exact ih hqs hreq hs hact
    split
    · -- the queue gives all it can, and the rest is asked of the others
      obtain ⟨hs', hact'⟩ := hs.grant psId hq hact fun h =>
        ⟨Nat.pos_of_ne_zero ‹_›, hbound h⟩
      exact ih hqs (by omega) hs' hact'
    · -- the queue gives all that is asked for
      refine (hs.grant psId hq hact fun h => ?_).1
      obtain ⟨h₁, h₂⟩ := hbound h
      exact ⟨hreq, by omega, by omega⟩

/-- A request for traffic ends the service period, or grants frames that are ready. -/
theorem psTrafficReq_sched (hs : Sched s) (i : StaId) (pktReq : ℕ) (psId : PsId) :
    Sched (psTrafficReq s i pktReq psId) := by
  simp only [psTrafficReq]
  -- the station is awake: there is nothing to grant
  split
  · exact hs
  next hact =>
  rw [Bool.not_eq_false] at hact
  split
  · refine clearPushLimit_sched (hs.setPs fun q hq => (hs.queues q).congr (fun j _ h => ?_)
      fun v _ _ => ?_) _
    · rw [Function.update_apply] at h
      split at h
      · next hj => rwa [hj]
      · exact h
    · rw [Function.update_apply]
      split
      · next hv => rw [hv]
      · rfl
  split
  · exact hs
  next hready =>
  rw [not_or, not_not, not_le] at hready
  obtain ⟨hsp, hlt⟩ := hready
  cases i with
  | remote n =>
    -- the queues of the station are asked one after the other
    refine dispatch_sched psId _ (fun q hq => ?_) ?_ hs hact
    · obtain ⟨tid, -, rfl⟩ := List.mem_map.mp hq
      rfl
    · split <;> omega
  | bcmc v =>
    -- the frames that are ready wait in the one queue of the interface
    refine (hs.grant psId rfl hact fun h => ?_).1
    have hok := (hs.queues (.bcmc v)).ok h
    obtain ⟨hlegacy, huapsd⟩ := (hs.queues (.bcmc v)).ready v rfl hact h
    have hpos := hok.creditsPos
    have hmax := hok.creditsLe
    cases psId with
    | uapsd => omega
    | legacy =>
      have hle : (s.ps (.bcmc v)).pktReady .legacy ≤ (s.txq (.bcmc v)).skList.length :=
        hlegacy.trans_le (Nat.mod_le _ _)
      rw [u16]
      split <;> split at * <;> omega

/-! ### Setting queues up and down -/

/-- A queue that no list has is set up, while its station is awake. -/
theorem Sched.init (hs : Sched s) {status : Finset TxqFlag} (psId : PsId)
    (hout : (s.txq q).isScheduled = false) (hstatus : .inHwqList ∉ status)
    (hkind : ∀ v, q = .bcmc v → psId = .legacy)
    (hoff : ∀ i, q.sta? = some i → (s.ps i).active = false) :
    Sched (txqInit s q status psId) := by
  have hasleep : ∀ {p : Prop} i, q.sta? = some i → (s.ps i).active → p := fun i hi hact =>
    absurd hact (by rw [hoff i hi]; exact Bool.false_ne_true)
  refine hs.updateTxq (hs.lists.setTxq ?_) rfl rfl ⟨fun _ => ?_, fun i hi hact _ =>
    hasleep i hi hact, hkind, fun v hv hact _ => hasleep (.bcmc v) (by rw [hv]; rfl) hact⟩
  · rw [hout]
    exact decide_eq_false hstatus
  · -- the queue starts empty, with 64 credits
    exact
      { creditsPos := show (0 : ℤ) < 64 by decide
        creditsLe := show (64 : ℤ) ≤ 127 by decide
        nodup := List.nodup_nil
        nbRetry := le_rfl
        lastRetry := rfl
        limitLen := le_rfl
        limitCredits := show (0 : ℤ) ≤ 64 by decide
        limitPs := fun h => absurd rfl h
        ready := fun h => absurd h hstatus
        awake := fun _ h => absurd rfl h }

/-- The queues of a station are set up, while it is awake. -/
theorem txqStaInit_sched (hs : Sched s) {n : ℕ} {status : Finset TxqFlag} (uapsd : Fin 9 → Bool)
    (hout : ∀ tid, (s.txq (.sta n tid)).isScheduled = false) (hstatus : .inHwqList ∉ status)
    (hoff : (s.ps (.remote n)).active = false) : Sched (txqStaInit s n status uapsd) := by
  -- the queues that are still to be set up are in no list
  refine (List.foldlRecOn (motive := fun u => Sched u ∧ (u.ps (.remote n)).active = false ∧
    ∀ tid, (u.txq (.sta n tid)).isScheduled = false) (List.finRange 9) _ ⟨hs, hoff, hout⟩ ?_).1
  rintro u ⟨hu, huoff, huout⟩ tid -
  refine ⟨hu.init _ (huout tid) hstatus (fun v hv => by cases hv) (fun i hi => ?_), huoff,
    fun tid' => ?_⟩
  · obtain rfl := Option.some.inj hi
    exact huoff
  · rw [txqInit, RwnxHw.setTxq_txq, Function.update_apply]
    split
    · exact decide_eq_false hstatus
    · exact huout tid'

/-- Setting the queues up does not look at the stations. -/
theorem txqStaInit_setPs (s : RwnxHw β) (p : StaPs) (n : ℕ) (status : Finset TxqFlag)
    (uapsd : Fin 9 → Bool) :
    txqStaInit (s.setPs i p) n status uapsd = (txqStaInit s n status uapsd).setPs i p :=
  List.foldl_hom (RwnxHw.setPs · i p) fun _ _ => rfl

theorem txqStaInit_ps (s : RwnxHw β) (n : ℕ) (status : Finset TxqFlag) (uapsd : Fin 9 → Bool) :
    (txqStaInit s n status uapsd).ps = s.ps :=
  List.foldlRecOn (motive := fun u : RwnxHw β => u.ps = s.ps) (List.finRange 9) _ rfl
    fun _ hu _ _ => hu

/-- A queue that is torn down leaves its list, and is not active any more. -/
theorem Sched.deinit (hs : Sched s) (q : TxqId) : Sched (txqDeinit s q) := by
  simp only [txqDeinit]
  split
  swap
  · exact hs
  refine hs.updateTxq (t := { (s.txq q).unschedule with active := false })
    ((hs.lists.del q).setTxq rfl) ?_ (txqDelFromHwList_ps s q)
    ⟨nofun, fun _ _ _ => nofun, (hs.queues q).kind, fun _ _ _ => nofun⟩
  rw [RwnxHw.setTxq_txq, txqDelFromHwList_txq, Function.update_idem, Function.update_self]

/-- The frames of an inactive queue are of no account. -/
theorem Sched.flush (hs : Sched s) (hact : (s.txq q).active = false) : Sched (txqFlush s q).2 := by
  have hoff : ∀ {p : Prop}, (s.txq q).active → p := fun h =>
    absurd h (by rw [hact]; exact Bool.false_ne_true)
  exact hs.updateTxq (hs.lists.setTxq rfl) rfl rfl
    ⟨hoff, fun _ _ _ => hoff, (hs.queues q).kind, fun _ _ _ => hoff⟩

/-! ### Confirmations -/

/-- A frame to be sent again brings a credit, starts the queue, and is queued. -/
theorem Sched.retry [DecidableEq β] (hs : Sched s) {skb : β} (hact : (s.txq q).active)
    (hcredits : (s.txq q).credits < 127) (hnew : skb ∉ (s.txq q).skList) :
    Sched (txRetry s q skb).2 := by
  have hq := hs.queues q
  have hok := hq.ok hact
  have hpos := hok.creditsPos
  have hbyte : s8 ((s.txq q).credits + 1) = (s.txq q).credits + 1 := by
    rw [s8]
    omega
  -- the credit, which still fits into 8 bits
  have h₁ : Sched (s.setTxq q { s.txq q with credits := s8 ((s.txq q).credits + 1) }) := by
    refine hs.updateTxq (hs.lists.setTxq rfl) rfl rfl
      { hq with
        ok := fun _ =>
          { hok with
            creditsPos := ?_
            creditsLe := ?_
            limitCredits := ?_ } } <;> rw [hbyte]
    · exact hpos.trans (Int.lt_succ _)
    · exact hcredits
    · exact hok.limitCredits.trans (Int.le_add_one le_rfl)
  have h₂ : Sched (txqStart _ q .stopFull) := h₁.start (by decide) (.inl (by decide))
  simp only [txRetry]
  refine Sched.queueSkb ?_ true fun _ => ?_
  · -- the queue is started when it has credits
    split
    · exact h₂
    · exact h₁
  · -- the frame is in no queue before
    split
    · obtain ⟨status, heq, -⟩ := ((s.setTxq q { s.txq q with
        credits := s8 ((s.txq q).credits + 1) }).txq q).start_eq .stopFull
      rw [txqStart_txq, Function.update_self, heq, RwnxHw.setTxq_txq, Function.update_self]
      exact hnew
    · rw [RwnxHw.setTxq_txq, Function.update_self]
      exact hnew

/-- A confirmation keeps the schedule, also when the bus is down and it only releases the frame. -/
theorem Sched.cfm [DecidableEq β] (hs : Sched s) {skb : β} {mgmt retry : Bool}
    (hretry : s.usbDown = false → mgmt = false → (s.txq q).active → retry →
      (s.txq q).credits < 127 ∧ skb ∉ (s.txq q).skList) :
    Sched (txdatacfm s q skb mgmt retry).2 := by
  have h₁ := hs.setHwq (h := q.hwq) true
  rw [txdatacfm]
  split
  · exact hs
  next hup =>
  simp only [txdatacfmUp]
  split
  · -- the frame is to be sent again
    next h =>
    obtain ⟨hcredits, hnew⟩ := hretry (Bool.eq_false_iff.mpr hup) h.1 h.2.1 h.2.2
    exact h₁.retry h.2.1 hcredits hnew
  · change Sched (if _ then _ else _)
    split
    · -- a service period is open, so the queue has frames
      next h =>
      refine h₁.add fun hact => List.length_pos_iff.mp ?_
      exact (Nat.pos_of_ne_zero h.2.1).trans_le ((hs.queues q).ok hact).limitLen
    · exact h₁

/-- The 64th frame to retry since its queue was set up takes the credits of the queue from 127 to
-128. The queue enters its list all the same, and the `BUG_ON` of the next round that comes to it
trips. -/
theorem retry_overflow [DecidableEq β] (hs : Sched s) {skb : β} (hup : s.usbDown = false)
    (hact : (s.txq q).active) (hgo : (s.txq q).isStopped = false)
    (hcredits : (s.txq q).credits = 127) :
    q ∈ ((txdatacfm s q skb false true).2.hwq q.hwq).list ∧
      hwqVisit q.hwq (txdatacfm s q skb false true).2 q = none := by
  set t := (s.setHwq q.hwq { s.hwq q.hwq with needProcessing := true }).setTxq q
    { s.txq q with credits := s8 ((s.txq q).credits + 1) } with ht
  have hself : t.txq q = { s.txq q with credits := -128 } := by
    rw [ht, RwnxHw.setTxq_txq, Function.update_self, hcredits]
    rfl
  -- the flag and the list of the queue are what they were
  have hlists : Lists t := (hs.setHwq true).lists.setTxq rfl
  have hrun : txdatacfm s q skb false true =
      ((txqQueueSkb t q skb true).1, (txqQueueSkb t q skb true).2.1) := by
    -- with the credits below 0 the queue is not started
    have hneg : ¬(t.txq q).credits > 0 := by
      rw [hself]
      exact show ¬(-128 : ℤ) > 0 by decide
    have hstart : (if (t.txq q).credits > 0 then txqStart t q .stopFull else t) = t := if_neg hneg
    rw [txdatacfm, hup, if_neg Bool.false_ne_true, txdatacfmUp]
    refine (if_pos ⟨rfl, hact, rfl⟩).trans ?_
    exact congrArg (fun u => ((txqQueueSkb u q skb true).1, (txqQueueSkb u q skb true).2.1)) hstart
  obtain ⟨full, o, u, listed, hqueue, -, hu, -, hutxq⟩ := txqQueueSkb_spec hlists q skb true
  obtain ⟨status, hqueued, hflags, hawake⟩ := (t.txq q).queued_eq skb true full
  have hend : u.txq q = { (t.txq q).enqueue skb true with status := status } := by
    rw [hutxq, Function.update_self, hqueued]
  -- the queue may send, as it could before
  have hlisted : .inHwqList ∈ status := hawake fun f hf => by
    have hstop : f ≠ .inHwqList ∧ f ≠ .ndevFlowCtrl := by
      constructor <;> rintro rfl <;> exact absurd hf (by decide)
    rw [hflags f hstop.1 hstop.2, hself]
    exact Txq.isStopped_eq_false.mp hgo f hf
  rw [hrun, hqueue]
  refine ⟨(hu.mem q q.hwq).mpr ⟨?_, rfl⟩, ?_⟩
  · rw [Txq.isScheduled, hend]
    exact decide_eq_true hlisted
  · have hcredits' : (u.txq q).credits = -128 ∧ (u.txq q).active := by
      rw [hend, hself]
      exact ⟨rfl, hact⟩
    -- the `BUG_ON` of the credits
    simp only [hwqVisit]
    rw [if_neg (by simp [Txq.isScheduled, hend, hlisted]), if_neg (by simp [hcredits'.2]),
      if_pos (by rw [hcredits'.1]; decide)]

/-- An update of the credits stops the queue or starts it. -/
theorem Sched.creditUpdate (hs : Sched s) (q : TxqId) : Sched (txqCreditUpdate s q) := by
  simp only [txqCreditUpdate]
  split
  · split
    · exact hs.stop q (by decide)
    · exact hs.start (by decide) (.inl (by decide))
  · exact hs

/-! ### Runs -/

/-- What the callers and the firmware keep to. A queue is set up when no list has it, and
`rwnx_txq_deinit` has made it inactive before it drops the lock; nobody makes it active before it is
flushed. A frame is not queued on a queue that has it. The credits of a queue are an 8-bit signed
value, 64 when it is set up, and each frame to retry adds one; there is room for one more. -/
def TxOp.Sound (s : RwnxHw β) : TxOp β → Prop
  | .xmit q skb => skb ∉ (s.txq q).skList
  | .addSta n _ _ _ | .connect n _ _ => ∀ tid, (s.txq (.sta n tid)).isScheduled = false
  | .startAp v _ => (s.txq (.bcmc v)).isScheduled = false ∧ (s.txq (.unk v)).isScheduled = false
  | .unkInit v => (s.txq (.unk v)).isScheduled = false
  | .offchanInit => (s.txq .offchan).isScheduled = false
  | .flush q => (s.txq q).active = false
  | .cfm q skb mgmt retry => s.usbDown = false → mgmt = false → (s.txq q).active → retry →
      (s.txq q).credits < 127 ∧ skb ∉ (s.txq q).skList
  | _ => True

instance [DecidableEq β] (s : RwnxHw β) (op : TxOp β) : Decidable (op.Sound s) := by
  cases op <;> unfold TxOp.Sound <;> infer_instance

theorem inHwqList_notMem_vifStatus (s : RwnxHw β) (v : ℕ) : .inHwqList ∉ txqVifGetStatus s v :=
  fun h => absurd (Finset.mem_inter.mp h).2 (by decide)

theorem inHwqList_notMem_chanStatus (chan : Bool) : .inHwqList ∉ chanStatus chan := by
  cases chan <;> decide

/-- A station is added, asleep or awake. -/
theorem Sched.addSta (hs : Sched s) {n : ℕ} (v : ℕ) (uapsd : Fin 9 → Bool) (pmState : Bool)
    (hout : ∀ tid, (s.txq (.sta n tid)).isScheduled = false) :
    Sched (if (s.ps (.remote n)).active || pmState
      then psEnable (txqStaInit s n (txqVifGetStatus s v) uapsd) (.remote n)
      else psDisable (txqStaInit s n (txqVifGetStatus s v) uapsd) (.remote n)) := by
  have hstatus := inHwqList_notMem_vifStatus s v
  split
  · -- the queues are set up as if the station were awake
    refine psEnable_of_wake ?_
    rw [txqStaInit_ps, ← txqStaInit_setPs]
    exact txqStaInit_sched (hs.wake (.remote n)) uapsd hout hstatus
      (by rw [RwnxHw.setPs_ps, Function.update_self])
  · next h =>
    rw [Bool.or_eq_true, not_or, Bool.not_eq_true] at h
    exact psDisable_sched (txqStaInit_sched hs uapsd hout hstatus h.1) _

/-- A step that keeps to what is promised does not trip an assert, and keeps the schedule. -/
theorem Sched.step [DecidableEq β] (hs : Sched s) {op : TxOp β} (h : op.Sound s) :
    ∃ o t, (txMachine β).step s op = some (o, t) ∧ Sched t := by
  have hall : Compositional fun (_ : RwnxHw β) (_ : List (TxAct β)) (_ : RwnxHw β) => True :=
    ⟨fun _ => trivial, fun _ _ _ _ _ _ _ => trivial, fun _ _ _ => trivial,
      fun _ _ _ _ _ _ => trivial⟩
  cases op with
  | xmit q skb =>
    -- the frame is queued, and the list may be processed at once
    have hqueue : Sched (txqQueueSkb s q skb false).2.1 := hs.queueSkb false fun _ => h
    simp only [txMachine]
    split
    · obtain ⟨o, t, hrun, ht, -⟩ := hwqProcess_spec hall hqueue q.hwq
      exact ⟨_, t, by rw [hrun]; rfl, ht⟩
    · exact ⟨_, _, rfl, hqueue⟩
  | start qs reason =>
    -- an interface, a channel or a link starts its queues
    exact ⟨_, _, rfl, List.foldlRecOn qs _ hs fun _ hu _ _ =>
      hu.start reason.flag_ne (.inl reason.flag_mem.2)⟩
  | stop qs reason => exact ⟨_, _, rfl, foldl_stop_sched hs qs reason.flag_mem.1⟩
  | addSta n v uapsd pmState => exact ⟨_, _, rfl, hs.addSta v uapsd pmState h⟩
  | connect n chan uapsd =>
    exact ⟨_, _, rfl, txqStaInit_sched (hs.wake (.remote n)) uapsd h
      (inHwqList_notMem_chanStatus chan) (by rw [RwnxHw.setPs_ps, Function.update_self])⟩
  | startAp v chan =>
    -- two queues are set up; the first does not touch the second
    have hstatus := inHwqList_notMem_chanStatus chan
    have h₁ := (hs.wake (.bcmc v)).init (q := .bcmc v) .legacy h.1 hstatus (fun _ _ => rfl)
      fun i hi => by
        obtain rfl := Option.some.inj hi
        rw [RwnxHw.setPs_ps, Function.update_self]
    refine ⟨_, _, rfl, h₁.init (q := .unk v) .legacy ?_ hstatus (fun _ _ => rfl)
      fun i hi => absurd hi (Option.some_ne_none i).symm⟩
    rw [txqInit, RwnxHw.setTxq_txq, Function.update_of_ne (by simp)]
    exact h.2
  | unkInit v =>
    exact ⟨_, _, rfl, hs.init .legacy h (Finset.notMem_empty _) (fun _ _ => rfl)
      fun i hi => absurd hi (Option.some_ne_none i).symm⟩
  | offchanInit =>
    exact ⟨_, _, rfl, hs.init .legacy h (inHwqList_notMem_chanStatus true) (fun _ _ => rfl)
      fun i hi => absurd hi (Option.some_ne_none i).symm⟩
  | delSta i => exact ⟨_, _, rfl, hs.wake i⟩
  | deinit q => exact ⟨_, _, rfl, hs.deinit q⟩
  | flush q => exact ⟨_, _, rfl, hs.flush h⟩
  | psChange i psState =>
    -- the station falls asleep or wakes up
    refine ⟨_, _, rfl, ?_⟩
    split
    · exact psEnable_sched hs i
    · exact psDisable_sched hs i
  | trafficReq i pktCnt psId => exact ⟨_, _, rfl, psTrafficReq_sched hs i pktCnt psId⟩
  | task =>
    -- the five lists are processed one after the other
    obtain ⟨o, t, hrun, ht, -⟩ := hwqProcessAll_spec hall hs [.bcmc, .vo, .vi, .be, .bk]
    exact ⟨o, t, hrun, ht⟩
  | cfm q skb mgmt retry => exact ⟨_, _, rfl, hs.cfm h⟩
  | creditUpdate q => exact ⟨_, _, rfl, hs.creditUpdate q⟩
  | busy _ | usbState _ =>
    exact ⟨_, _, rfl, hs.lists.congr (fun _ => rfl) fun _ => .refl _, hs.queues⟩

/-- No interleaving trips an assert of `rwnx_hwq_process`. At each moment the lists of the HW queues
hold exactly the queues that are marked so, each once and each in its own HW queue's list, and no
active queue that has frames and may send is left out. -/
theorem tx_never_bugs [DecidableEq β] {ops : List (TxOp β)}
    (h : (txMachine β).Guarded (fun s op => TxOp.Sound s op) RwnxHw.init ops) :
    ∃ acts s, (txMachine β).trace RwnxHw.init ops = some (acts, s) ∧
      (∀ q h, (s.hwq h).list.count q = if (s.txq q).isScheduled ∧ q.hwq = h then 1 else 0) ∧
      ∀ q, (s.txq q).active → (s.txq q).isStopped = false → (s.txq q).skList ≠ [] →
        q ∈ (s.hwq q.hwq).list := by
  obtain ⟨acts, s, hrun, hs⟩ := Machine.trace_progress
    (P := fun _ (_ : List (TxAct β)) s => Sched s)
    (fun _ _ _ _ hs hG => hs.step hG) sched_init h
  refine ⟨acts, s, hrun, fun q h => ?_, fun q hact hgo hne => ?_⟩
  · -- a list without duplicates counts a queue once
    rw [← if_congr (hs.lists.mem q h) rfl rfl, (hs.lists.nodup h).count]
  · exact (hs.lists.mem q q.hwq).mpr
      ⟨decide_eq_true (((hs.queues q).ok hact).awake hgo hne), rfl⟩

/-- A station falls asleep, asks for a frame, and the frame is sent again. -/
theorem tx_never_bugs_asleep :
    ∃ acts s, (txMachine ℕ).trace RwnxHw.init
        [.startAp 0 false, .addSta 0 0 (fun _ => false) false, .psChange (.remote 0) true,
          .xmit (.sta 0 0) 7, .trafficReq (.remote 0) 1 .legacy, .task,
          .cfm (.sta 0 0) 7 false true, .psChange (.remote 0) false, .task] = some (acts, s) ∧
      (∀ q h, (s.hwq h).list.count q = if (s.txq q).isScheduled ∧ q.hwq = h then 1 else 0) ∧
      ∀ q, (s.txq q).active → (s.txq q).isStopped = false → (s.txq q).skList ≠ [] →
        q ∈ (s.hwq q.hwq).list :=
  tx_never_bugs (by decide)

end LonganPi.Wifi
