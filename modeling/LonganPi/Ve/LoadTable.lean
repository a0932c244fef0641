import LonganPi.Ve.CaseLoad
import LonganPi.Ve.Locks

/-!
# The load table over its life

`cedardev_open` numbers the processes, an `IOCTL_UPDATE_CASE_LOAD_PARAM` writes or clears the entry
of one of their channels, and `cedardev_release` clears the entry of a process. The entries keep
different keys in every run, but a process with two channels has two entries, and
`remove_case_load_param_by_process_id_sun55iw3` stops at the first: the table is left without the
process exactly when there was no more than one entry (`load_table_iff`). An interrupted release
does not come to the table at all, and a number is given twice when the counter has gone round.

`owner` is a ghost: the file through which a used entry was written last. It says whose entries are
to stay when a file is closed.
-/

open DriverLib

namespace LonganPi.Ve

/-! ### The machine -/

/-- The open files and the table. -/
structure LoadState (H : Type*) where
  -- the open files
  lk : LockState H
  processChannelIdCnt : ℕ
  -- of the private data of a file
  processChannelId : H → ℕ
  loadInfos : LoadTable
  userSettingVeFreq : ℤ
  -- the clock in MHz
  rate : ℤ
  -- ghost
  owner : LoadSlot → Option H

variable {H : Type*}

/-- After the probe: no file is open and no entry used. -/
def LoadState.init (userSettingVeFreq rate : ℤ) : LoadState H :=
  ⟨LockState.init, 0, fun _ => 0, fun _ => VeCaseLoadInfo.zero, userSettingVeFreq, rate,
    fun _ => none⟩

/-- The number of the next process. -/
def nextProcessChannelId (cnt : ℕ) : ℕ :=
  let cnt := toU32 (cnt + 1)
  if cnt > 0xefffffff then 0 else cnt

/-- The calls that the table sees. -/
inductive LoadOp (H : Type*)
  -- `cedardev_open` with its three outcomes
  | openFile (h : H) (initEnd kmallocOk interrupted : Bool)
  -- `IOCTL_UPDATE_CASE_LOAD_PARAM`, with what `copy_from_user` delivers
  | update (h : H) (user : Option VeCaseLoadParam) (clkSetRate : Bool)
  -- `cedardev_release`
  | closeFile (h : H) (interrupted : Bool)

variable [DecidableEq H]

/-- `cedardev_open`. The counter moves before the call can be interrupted. -/
def LoadState.openFile (s : LoadState H) (h : H) (initEnd kmallocOk interrupted : Bool) :
    Option (ℤ × LoadState H) :=
  (cedardevOpen s.lk h initEnd kmallocOk interrupted).map fun r =>
    if initEnd && kmallocOk then
      let id := nextProcessChannelId s.processChannelIdCnt
      (r.1, { s with
        lk := r.2
        processChannelIdCnt := id
        processChannelId := Function.update s.processChannelId h id })
    else (r.1, { s with lk := r.2 })

/-- `IOCTL_UPDATE_CASE_LOAD_PARAM`. The result of the update is not looked at. -/
def LoadState.update (s : LoadState H) (h : H) (user : Option VeCaseLoadParam) (clkSetRate : Bool) :
    ℤ × LoadState H :=
  match user with
  | none => (-EFAULT, s)
  | some p =>
    let id := s.processChannelId h
    let T := (updateCaseLoadParam s.loadInfos p id).2
    let r := adjustVeFreqByCaseLoad T s.userSettingVeFreq s.rate clkSetRate
    (0, { s with
      loadInfos := r.1
      rate := r.2
      owner := fun i =>
        if s.loadInfos.targetSlot p.threadChannelId id = some i then some h else s.owner i })

/-- `cedardev_release` -/
def LoadState.closeFile (s : LoadState H) (h : H) (interrupted : Bool) :
    Option (ℤ × LoadState H) :=
  (cedardevRelease s.lk h interrupted).map fun r =>
    (r.1, { s with
      lk := r.2
      loadInfos := if interrupted then s.loadInfos
        else removeCaseLoadParamByProcessId s.loadInfos (s.processChannelId h) })

/-- The table as a machine. An ioctl needs an open file. -/
def loadMachine (H : Type*) [DecidableEq H] : Machine (LoadState H) (LoadOp H) ℤ where
  step s
    | .openFile h a b c => s.openFile h a b c
    | .update h user ok => if (s.lk.files h).isSome then some (s.update h user ok) else none
    | .closeFile h i => s.closeFile h i

/-! ### What the table should be -/

/-- At most one used entry for a channel. -/
def LoadTable.Distinct (T : LoadTable) : Prop :=
  ∀ i j, (T i).isUsed = 1 → (T j).isUsed = 1 →
    (T i).loadParam.threadChannelId = (T j).loadParam.threadChannelId →
    (T i).processChannelId = (T j).processChannelId → i = j

/-- An update that removes leaves no entry of its channel, and one that fails changes nothing. -/
structure UpdateOk (T : LoadTable) (user : Option VeCaseLoadParam) (processChannelId : ℕ)
    (T' : LoadTable) : Prop where
  removed : ∀ p, user = some p → p.isRemoveCurParam = 1 →
    ∀ i, ¬ (T' i).Matches p.threadChannelId processChannelId
  failed : (∀ p, user = some p → (updateCaseLoadParam T p processChannelId).1 ≠ 0) → T' = T

/-- A release leaves no entry of its process, and the entries of other files as they were. -/
structure ReleaseOk (s : LoadState H) (h : H) (T' : LoadTable) : Prop where
  removed : ∀ i, ¬ (T' i).OfProcess (s.processChannelId h)
  others : ∀ i, (s.loadInfos i).isUsed = 1 → s.owner i ≠ some h → T' i = s.loadInfos i

/-- What the table should be after a call. -/
def LoadOk (s : LoadState H) (op : LoadOp H) (s' : LoadState H) : Prop :=
  s'.loadInfos.Distinct ∧
    match op with
    | .openFile .. => True
    | .update h user _ => UpdateOk s.loadInfos user (s.processChannelId h) s'.loadInfos
    | .closeFile h _ => ReleaseOk s h s'.loadInfos

/-- A release finds at most one entry of its process. That entry was written through the file, and
the release is not interrupted. -/
def LoadGuard (s : LoadState H) : LoadOp H → Prop
  | .closeFile h interrupted => ∀ i, (s.loadInfos i).OfProcess (s.processChannelId h) →
      interrupted = false ∧ s.owner i = some h ∧
        ∀ j, (s.loadInfos j).OfProcess (s.processChannelId h) → j = i
  | _ => True

/-- Between two calls the keys differ and every frame rate is positive. -/
structure LoadInv (T : LoadTable) : Prop where
  distinct : T.Distinct
  rates : ∀ i, (T i).isUsed = 1 → 0 < (T i).loadParam.frameRate

/-- The table is as it should be between two calls. -/
def LoadState.Inv (s : LoadState H) : Prop := LoadInv s.loadInfos

/-! ### The functions of the table -/

section Table

variable {T : LoadTable} {i : LoadSlot} {t : ℤ} {id : ℕ} {p : VeCaseLoadParam}

theorem not_used_zero : VeCaseLoadInfo.zero.isUsed ≠ 1 := by decide

/-- The entry that an update is for. -/
theorem targetSlot_some (h : T.targetSlot t id = some i) :
    (T i).Matches t id ∨ (T i).isUsed = 0 ∧ ∀ j, ¬ (T j).Matches t id := by
  unfold LoadTable.targetSlot at h
  cases hmatch : (List.finRange MAX_VE_LOAD_PARAM_CHANNEL).find? fun i => (T i).Matches t id with
  | some k =>
    rw [hmatch, Option.some_or] at h
    obtain rfl := Option.some.inj h
    have hk := List.find?_some hmatch
    exact Or.inl (of_decide_eq_true hk)
  | none =>
    rw [hmatch, Option.none_or] at h
    have hempty := List.find?_some h
    refine Or.inr ⟨of_decide_eq_true hempty, fun j hj => ?_⟩
    exact List.find?_eq_none.mp hmatch j (List.mem_finRange j) (decide_eq_true hj)

/-- Without an entry for an update there is none of its channel. -/
theorem targetSlot_none (h : T.targetSlot t id = none) (j : LoadSlot) :
    ¬ (T j).Matches t id := fun hj => by
  obtain ⟨hmatch, -⟩ := Option.or_eq_none_iff.mp h
  exact List.find?_eq_none.mp hmatch j (List.mem_finRange j) (decide_eq_true hj)

/-- Another entry than the one of an update is not one of its channel. -/
theorem LoadTable.Distinct.not_matches (hT : T.Distinct) (h : T.targetSlot t id = some i)
    {j : LoadSlot} (hji : j ≠ i) : ¬ (T j).Matches t id := fun hj => by
  rcases targetSlot_some h with hi | ⟨-, hnone⟩
  · exact hji (hT j i hj.1 hi.1 (hj.2.1.symm.trans hi.2.1) (hj.2.2.symm.trans hi.2.2))
  · exact hnone j hj

/-- An update that has an entry. -/
theorem updateCaseLoadParam_of_some (h : T.targetSlot p.threadChannelId id = some i) :
    updateCaseLoadParam T p id = (0, Function.update T i
      (if p.isRemoveCurParam = 1 then VeCaseLoadInfo.zero else ⟨p, 1, id⟩)) := by
  unfold updateCaseLoadParam
  rw [h]

theorem updateCaseLoadParam_of_none (h : T.targetSlot p.threadChannelId id = none) :
    updateCaseLoadParam T p id = (-1, T) := by
  unfold updateCaseLoadParam
  rw [h]

/-- An entry that is cleared is not missed by the others. -/
theorem LoadTable.Distinct.clear (hT : T.Distinct) (i : LoadSlot) :
    LoadTable.Distinct (Function.update T i VeCaseLoadInfo.zero) := by
  intro j k hj hk
  have hji : j ≠ i := by
    rintro rfl
    rw [Function.update_self] at hj
    exact not_used_zero hj
  have hki : k ≠ i := by
    rintro rfl
    rw [Function.update_self] at hk
    exact not_used_zero hk
  rw [Function.update_of_ne hji, Function.update_of_ne hki] at *
  exact hT j k hj hk

/-- An update keeps the keys apart. -/
theorem LoadTable.Distinct.update (hT : T.Distinct) (p : VeCaseLoadParam) (id : ℕ) :
    (updateCaseLoadParam T p id).2.Distinct := by
  cases htarget : T.targetSlot p.threadChannelId id with
  | none =>
    rw [updateCaseLoadParam_of_none htarget]
    exact hT
  | some i =>
    rw [updateCaseLoadParam_of_some htarget]
    by_cases hremove : p.isRemoveCurParam = 1
    · rw [if_pos hremove]
      exact hT.clear i
    rw [if_neg hremove]
    intro j k hj hk hthread hprocess
    dsimp only at hj hk hthread hprocess
    by_cases hji : j = i <;> by_cases hki : k = i
    · exact hji.trans hki.symm
    · subst hji
      rw [Function.update_self, Function.update_of_ne hki] at *
      exact absurd ⟨hk, hthread, hprocess⟩ (hT.not_matches htarget hki)
    · subst hki
      rw [Function.update_self, Function.update_of_ne hji] at *
      exact absurd ⟨hj, hthread.symm, hprocess.symm⟩ (hT.not_matches htarget hji)
    · rw [Function.update_of_ne hji, Function.update_of_ne hki] at *
      exact hT j k hj hk hthread hprocess

/-- An update that removes leaves no entry of its channel. -/
theorem LoadTable.Distinct.not_matches_update (hT : T.Distinct) (hremove : p.isRemoveCurParam = 1)
    (id : ℕ) (j : LoadSlot) :
    ¬ ((updateCaseLoadParam T p id).2 j).Matches p.threadChannelId id := by
  cases htarget : T.targetSlot p.threadChannelId id with
  | none =>
    rw [updateCaseLoadParam_of_none htarget]
    exact targetSlot_none htarget j
  | some i =>
    rw [updateCaseLoadParam_of_some htarget, if_pos hremove]
    dsimp only
    by_cases hji : j = i
    · subst hji
      rw [Function.update_self]
      exact fun h => not_used_zero h.1
    · rw [Function.update_of_ne hji]
      exact hT.not_matches htarget hji

/-- What a removal by process does: it clears one entry of the process, if there is one. -/
theorem removeCaseLoadParamByProcessId_cases (T : LoadTable) (id : ℕ) :
    (removeCaseLoadParamByProcessId T id = T ∧ ∀ j, ¬ (T j).OfProcess id) ∨
      ∃ i, (T i).OfProcess id ∧
        removeCaseLoadParamByProcessId T id = Function.update T i VeCaseLoadInfo.zero := by
  unfold removeCaseLoadParamByProcessId
  cases hfind : (List.finRange MAX_VE_LOAD_PARAM_CHANNEL).find? fun i => (T i).OfProcess id with
  | none =>
    exact Or.inl ⟨rfl, fun j hj =>
      List.find?_eq_none.mp hfind j (List.mem_finRange j) (decide_eq_true hj)⟩
  | some i =>
    have hi := List.find?_some hfind
    exact Or.inr ⟨i, of_decide_eq_true hi, rfl⟩

/-! ### The frame rates -/

theorem frameRate_fixRate (p : VeCaseLoadParam) : 0 < p.fixRate.frameRate := by
  unfold VeCaseLoadParam.fixRate
  split
  · have hrate : (0 : ℤ) < 60 := by decide
    exact hrate
  · next hpos => exact not_le.mp hpos

theorem fixRate_of_pos (h : 0 < p.frameRate) : p.fixRate = p := if_neg (not_le.mpr h)

theorem threadChannelId_fixRate (p : VeCaseLoadParam) :
    p.fixRate.threadChannelId = p.threadChannelId := by
  unfold VeCaseLoadParam.fixRate
  split <;> rfl

/-- The fields that do not change with the frame rates. -/
theorem fixRates_fields (T : LoadTable) (i : LoadSlot) :
    (T.fixRates i).isUsed = (T i).isUsed ∧
      (T.fixRates i).loadParam.threadChannelId = (T i).loadParam.threadChannelId ∧
      (T.fixRates i).processChannelId = (T i).processChannelId := by
  unfold LoadTable.fixRates
  split
  · exact ⟨rfl, threadChannelId_fixRate _, rfl⟩
  · exact ⟨rfl, rfl, rfl⟩

theorem matches_fixRates : (T.fixRates i).Matches t id ↔ (T i).Matches t id := by
  obtain ⟨hused, hthread, hprocess⟩ := fixRates_fields T i
  unfold VeCaseLoadInfo.Matches
  rw [hused, hthread, hprocess]

/-- With keys apart, fixing the frame rates makes a table as it should be between two calls. -/
theorem LoadTable.Distinct.fixRates (hT : T.Distinct) : LoadInv T.fixRates where
  distinct i j hi hj hthread hprocess := by
    obtain ⟨hiused, hithread, hiprocess⟩ := fixRates_fields T i
    obtain ⟨hjused, hjthread, hjprocess⟩ := fixRates_fields T j
    rw [hithread, hjthread] at hthread
    rw [hiprocess, hjprocess] at hprocess
    exact hT i j (hiused ▸ hi) (hjused ▸ hj) hthread hprocess
  rates i hi := by
    have hused : (T i).isUsed = 1 := (fixRates_fields T i).1.symm.trans hi
    unfold LoadTable.fixRates
    rw [if_pos hused]
    exact frameRate_fixRate _

/-- Frame rates that are positive stay. -/
theorem LoadInv.fixRates_eq (h : LoadInv T) : T.fixRates = T := by
  funext i
  unfold LoadTable.fixRates
  split
  · next hused => rw [fixRate_of_pos (h.rates i hused)]
  · rfl

/-- A cleared entry has no frame rate to keep positive. -/
theorem LoadInv.clear (h : LoadInv T) (i : LoadSlot) :
    LoadInv (Function.update T i VeCaseLoadInfo.zero) where
  distinct := h.distinct.clear i
  rates j hj := by
    by_cases hji : j = i
    · subst hji
      rw [Function.update_self] at hj
      exact absurd hj not_used_zero
    · rw [Function.update_of_ne hji] at *
      exact h.rates j hj

end Table

/-! ### The calls -/

variable {s s' : LoadState H} {h : H} {o : ℤ}

omit [DecidableEq H] in
/-- An update keeps the table as it should be. -/
theorem LoadInv.update (hinv : LoadInv s.loadInfos) (h : H) (user : Option VeCaseLoadParam)
    (ok : Bool) :
    LoadInv (s.update h user ok).2.loadInfos ∧
      UpdateOk s.loadInfos user (s.processChannelId h) (s.update h user ok).2.loadInfos := by
  cases user with
  | none => exact ⟨hinv, nofun, fun _ => rfl⟩
  | some p =>
    have hupdate := hinv.distinct.update p (s.processChannelId h)
    refine ⟨hupdate.fixRates, fun q hq hremove i => ?_, fun hfail => ?_⟩
    · obtain rfl := Option.some.inj hq
      exact mt matches_fixRates.mp (hinv.distinct.not_matches_update hremove _ i)
    · have hne := hfail p rfl
      cases htarget : s.loadInfos.targetSlot p.threadChannelId (s.processChannelId h) with
      | some i =>
        rw [updateCaseLoadParam_of_some htarget] at hne
        exact absurd rfl hne
      | none =>
        show (updateCaseLoadParam s.loadInfos p (s.processChannelId h)).2.fixRates = s.loadInfos
        rw [updateCaseLoadParam_of_none htarget]
        exact hinv.fixRates_eq

/-- A guarded release keeps the table as it should be, and an unguarded one does not. -/
theorem LoadInv.closeFile (hinv : LoadInv s.loadInfos) {interrupted : Bool}
    (hop : s.closeFile h interrupted = some (o, s')) :
    (LoadGuard s (.closeFile h interrupted) → LoadInv s'.loadInfos ∧ ReleaseOk s h s'.loadInfos) ∧
      (ReleaseOk s h s'.loadInfos → LoadGuard s (.closeFile h interrupted)) := by
  obtain ⟨r, -, heq⟩ := Option.map_eq_some_iff.mp hop
  have hT : s'.loadInfos = if interrupted then s.loadInfos
      else removeCaseLoadParamByProcessId s.loadInfos (s.processChannelId h) :=
    (congrArg LoadState.loadInfos (Prod.mk.inj heq).2).symm
  rw [hT]
  cases interrupted with
  | true =>
    rw [if_pos rfl]
    refine ⟨fun hguard => ⟨hinv, fun i hi => ?_, fun _ _ _ => rfl⟩, fun hok i hi => ?_⟩
    · exact absurd (hguard i hi).1 nofun
    · exact absurd hi (hok.removed i)
  | false =>
    rw [if_neg Bool.false_ne_true]
    rcases removeCaseLoadParamByProcessId_cases s.loadInfos (s.processChannelId h) with
      ⟨hsame, hnone⟩ | ⟨i, hi, hclear⟩
    · rw [hsame]
      exact ⟨fun _ => ⟨hinv, hnone, fun _ _ _ => rfl⟩, fun _ i hi => absurd hi (hnone i)⟩
    rw [hclear]
    refine ⟨fun hguard => ⟨hinv.clear i, fun j hj => ?_, fun j hj howner => ?_⟩, fun hok j hj => ?_⟩
    · obtain ⟨-, -, honly⟩ := hguard i hi
      by_cases hji : j = i
      · subst hji
        rw [Function.update_self] at hj
        exact not_used_zero hj.1
      · rw [Function.update_of_ne hji] at hj
        exact hji (honly j hj)
    · have hji : j ≠ i := fun heq => howner (heq ▸ (hguard i hi).2.1)
      exact Function.update_of_ne hji ..
    · have honly : ∀ k, (s.loadInfos k).OfProcess (s.processChannelId h) → k = i := fun k hk => by
        by_contra hki
        have hremoved := hok.removed k
        rw [Function.update_of_ne hki] at hremoved
        exact hremoved hk
      obtain rfl := honly j hj
      refine ⟨rfl, by_contra fun howner => ?_, honly⟩
      have hsame := hok.others j hj.1 howner
      rw [Function.update_self] at hsame
      exact not_used_zero (hsame ▸ hj.1)

/-- An open does not touch the table. -/
theorem LoadState.openFile_loadInfos {a b c : Bool} (hop : s.openFile h a b c = some (o, s')) :
    s'.loadInfos = s.loadInfos := by
  obtain ⟨r, -, heq⟩ := Option.map_eq_some_iff.mp hop
  split at heq
  · exact (congrArg LoadState.loadInfos (Prod.mk.inj heq).2).symm
  · exact (congrArg LoadState.loadInfos (Prod.mk.inj heq).2).symm

/-- A guarded call keeps the table as it should be, and an unguarded one does not. -/
theorem LoadState.Inv.step {op : LoadOp H} (hinv : s.Inv)
    (hstep : (loadMachine H).step s op = some (o, s')) :
    (LoadGuard s op → s'.Inv ∧ LoadOk s op s') ∧ (LoadOk s op s' → LoadGuard s op) := by
  have hinv : LoadInv s.loadInfos := hinv
  cases op with
  | openFile h a b c =>
    rw [← LoadState.openFile_loadInfos hstep] at hinv
    exact ⟨fun _ => ⟨hinv, hinv.distinct, trivial⟩, fun _ => trivial⟩
  | update h user ok =>
    unfold loadMachine at hstep
    dsimp only at hstep
    split at hstep
    · obtain ⟨-, rfl⟩ := Prod.mk.inj (Option.some.inj hstep)
      obtain ⟨hinv', hupdate⟩ := hinv.update h user ok
      exact ⟨fun _ => ⟨hinv', hinv'.distinct, hupdate⟩, fun _ => trivial⟩
    · exact nomatch hstep
  | closeFile h interrupted =>
    obtain ⟨hkeep, hexact⟩ := hinv.closeFile hstep
    refine ⟨fun hguard => ?_, fun hok => hexact hok.2⟩
    obtain ⟨hinv', hrelease⟩ := hkeep hguard
    exact ⟨hinv', hinv'.distinct, hrelease⟩

theorem loadInv_init : LoadInv fun _ => VeCaseLoadInfo.zero where
  distinct _ _ hi := absurd hi not_used_zero
  rates _ hi := absurd hi not_used_zero

/-- **The load table.** Along every run the keys differ, an update does what it says, and a release
leaves no entry of its process and all other entries, exactly when every release finds at most one
entry of its process. -/
theorem load_table_iff (userSettingVeFreq rate : ℤ) (ops : List (LoadOp H)) :
    (loadMachine H).Along (fun s op _ s' => LoadOk s op s')
        (LoadState.init userSettingVeFreq rate) ops ↔
      (loadMachine H).Along (fun s op _ _ => LoadGuard s op)
        (LoadState.init userSettingVeFreq rate) ops := by
  have hinit : (LoadState.init userSettingVeFreq rate : LoadState H).Inv := loadInv_init
  refine Machine.along_iff_guard (fun s op o s' hinv hstep hguard => ?_)
    (fun s op o s' hinv hstep hok => ?_) hinit ops
  · exact (LoadState.Inv.step hinv hstep).1 hguard
  · exact (LoadState.Inv.step hinv hstep).2 hok

/-- A process with two channels. -/
def twoChannels : List (LoadOp Unit) :=
  [.openFile () true true false,
    .update () (some ⟨1280, 720, 30, VE_DECODER_FORMAT_H264, 0, 1⟩) true,
    .update () (some ⟨1280, 720, 30, VE_DECODER_FORMAT_H264, 0, 2⟩) true]

/-- The release of a process with two channels leaves the entry of the second. -/
theorem second_channel_stays :
    ¬ ∀ ops : List (LoadOp Unit), (loadMachine Unit).Along (fun s op _ s' => LoadOk s op s')
      (LoadState.init 600 600) ops := by
  intro hall
  have hclose : LoadOk _ (.closeFile () false) _ :=
    (hall (twoChannels ++ [.closeFile () false])).at rfl rfl
  exact absurd (hclose.2.removed ⟨1, by decide⟩) (by decide)

end LonganPi.Ve
