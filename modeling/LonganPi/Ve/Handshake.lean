import LonganPi.Ve.ProcInfo

/-!
# The handshake keeps to its specification exactly under its guard

`HandshakeInv` is preserved by every guarded call, one lemma a call. The lock part of it is the
same statement three times, about the mutex, the ghost and the flag in `lock_flags`: a `SET`
establishes all three for its handle, a guarded `COPY` and a close take all three back.

The converse needs no invariant of the state behind the call. An unguarded `COPY` of a handle that
does not hold `lock_proc` unlocks it for a stranger; one with a long text or an emptied slot has
an access out of bounds; an unguarded `STOP` has an index out of range and an unguarded open
copies more than its buffer holds.
-/

open DriverLib

namespace LonganPi.Ve

variable {H : Type*} [DecidableEq H]

omit [DecidableEq H] in
/-- At probe time nothing is open, held or selected. -/
theorem handshakeInv_init (data : ℕ → UInt8) :
    HandshakeInv (ProcState.init data : ProcState H) where
  root := rfl
  clean := rfl
  held h := by simp [ProcState.init, ProcState.lockProc, LockState.init, Mutex.unlocked]
  flag h := by simp [ProcState.init, ProcState.lockProc, LockState.init, Mutex.unlocked,
    LockState.Flagged]
  current h ch len hp := by simp [ProcState.init] at hp
  channel := Nat.zero_lt_succ 15
  slot ch dst hb := by simp [ProcState.init, DebugfsBuffer.init] at hb

namespace HandshakeInv

variable {s : ProcState H} (hs : HandshakeInv s) {h : H}
include hs

omit [DecidableEq H] in
/-- The flag of the handle itself, read off its private data. -/
theorem flag_iff {vi : VeInfo} (hvi : s.lk.files h = some vi) :
    HasFlag vi.lockFlags VeLock.procInfo.flag ↔ s.lockProc.holder = some h := by
  rw [hs.flag]
  simp [LockState.Flagged, hvi]

/-- A handle that is not open awaits nothing. -/
theorem openFile (hopen : s.lk.files h = none) :
    HandshakeInv { s with lk := s.lk.setInfo h (some ⟨0⟩) } where
  root := hs.root
  clean := hs.clean
  held := hs.held
  flag h' := by
    -- a new handle has no flag, and held nothing before
    change s.lockProc.holder = some h' ↔ _
    rw [LockState.flagged_setInfo, hs.flag]
    split
    · next heq => subst heq; simp [LockState.Flagged, hopen]
    · exact Iff.rfl
  current := hs.current
  channel := hs.channel
  slot := hs.slot

/-- A successful `SET`: the mutex, the ghost and the flag all pass to its handle. -/
theorem setProcInfo {u : LockState H} {ch : ℕ} (vi : VeInfo) (len : ℕ)
    (hlock : s.lk.lock .procInfo h = some u) (hch : ch < VE_DEBUGFS_MAX_CHANNEL) :
    HandshakeInv { s with
      lk := u.setInfo h (some ⟨vi.lockFlags ||| VeLock.procInfo.flag⟩)
      info := { s.info with
        curChannelId := ch
        procLen := Function.update s.info.procLen ch len
        procBuf := Function.update s.info.procBuf ch (some (ch * VE_DEBUGFS_BUF_SIZE)) }
      pending := Function.update s.pending h (some (ch, len)) } := by
  obtain ⟨hfree, hfiles, hlocks⟩ := LockState.lock_eq_some hlock
  -- nobody held the mutex, so nobody awaits a `COPY` and no flag is set
  have hnone : ∀ h', s.pending h' = none := fun h' => by
    have hno : ¬ (s.pending h').isSome := by
      rw [← hs.held h']
      show ¬ (s.lk.locks .procInfo).holder = some h'
      rw [hfree]
      exact (Option.some_ne_none h').symm
    simpa using hno
  have hholder : ∀ h', (u.locks .procInfo).holder = some h' ↔ h' = h := fun h' => by
    rw [hlocks, if_pos rfl]
    show some h = some h' ↔ h' = h
    rw [Option.some.injEq, eq_comm]
  refine ⟨hs.root, ?_, fun h' => ?_, fun h' => ?_, fun h' c n hp => ?_, hch, fun c dst hb => ?_⟩
  · -- the mutex was taken, not released, so nobody misused it
    show (u.locks .procInfo).fault = false
    rw [hlocks, if_pos rfl]
    exact hs.clean
  · show (u.locks .procInfo).holder = some h' ↔ (Function.update s.pending h _ h').isSome
    -- the ghost: only the handle of the `SET` awaits a `COPY`
    rw [hholder, Function.update_apply]
    split
    · next heq => simp [heq]
    · next hne => simp [hne, hnone h']
  · show (u.locks .procInfo).holder = some h' ↔ _
    -- the flag: set for the handle, and not for the others
    rw [hholder, LockState.flagged_setInfo, hasFlag_or]
    split
    · next heq => simp [heq]
    · next hne =>
      rw [LockState.flagged_of_files h' _ (congrFun hfiles h'), ← hs.flag, ← hholder h']
      show _ ↔ (s.lk.locks .procInfo).holder = some h'
      rw [hholder, hfree]
      simp [hne]
  · change Function.update s.pending h (some (ch, len)) h' = some (c, n) at hp
    -- what is awaited is what was just selected
    rw [Function.update_apply] at hp
    split at hp
    · obtain ⟨rfl, rfl⟩ := Prod.mk.inj (Option.some.inj hp)
      refine ⟨rfl, ?_⟩
      show len = Function.update s.info.procLen ch len ch
      rw [Function.update_self]
    · rw [hnone h'] at hp
      cases hp
  · change Function.update s.info.procBuf ch _ c = some dst at hb
    rw [Function.update_apply] at hb
    split at hb
    · next heq => rw [heq]; exact (Option.some.inj hb).symm
    · exact hs.slot c dst hb

/-- A `COPY` of the holder: the mutex, the ghost and the flag are all taken back. -/
theorem copyProcInfo {s' : ProcState H} {vi : VeInfo} (hheld : s.lockProc.holder = some h)
    (hlk : s'.lk = (s.lk.setInfo h (some ⟨vi.lockFlags &&& ~~~VeLock.procInfo.flag⟩)).unlock
      .procInfo h)
    (hroot : s'.debugRoot = true) (hpend : s'.pending = Function.update s.pending h none)
    (hinfo : ∃ data, s'.info = { s.info with data := data }) : HandshakeInv s' := by
  have hproc : s'.lockProc = s.lockProc.unlock h := by
    rw [ProcState.lockProc, hlk, LockState.unlock_locks, if_pos rfl]
    rfl
  have hgone : ∀ h', s'.lockProc.holder ≠ some h' := fun h' => by
    rw [hproc, Mutex.unlock_holder]
    exact (Option.some_ne_none h').symm
  -- only the holder awaits a `COPY`, and only its flag is set
  have hothers : ∀ h', h' ≠ h → s.lockProc.holder ≠ some h' := fun h' hne heq =>
    hne (Option.some.inj (heq.symm.trans hheld))
  have hpnone : ∀ h', s'.pending h' = none := fun h' => by
    rw [hpend, Function.update_apply]
    split
    · rfl
    · next hne => simpa [hs.held] using hothers h' hne
  obtain ⟨data, hinfo⟩ := hinfo
  refine ⟨hroot, ?_, fun h' => ?_, fun h' => ?_, fun h' c n hp => ?_, ?_, fun c dst hb => ?_⟩
  · rw [hproc, Mutex.unlock_fault]
    exact ⟨hs.clean, hheld⟩
  · simp [hgone h', hpnone h']
  · -- the flag of the handle is cleared, the others had none
    refine iff_of_false (hgone h') ?_
    rw [hlk, LockState.flagged_of_files h' _ (congrFun (LockState.unlock_files _ _ h) h'),
      LockState.flagged_setInfo, hasFlag_and_not_flag]
    split
    · simp
    · next hne => rw [← hs.flag]; exact hothers h' hne
  · rw [hpnone h'] at hp
    cases hp
  · rw [hinfo]
    exact hs.channel
  · rw [hinfo] at hb
    exact hs.slot c dst hb

omit [DecidableEq H] in
/-- Emptying a slot touches neither the lock nor the selection. -/
theorem stopProcInfo (ch : ℕ) :
    HandshakeInv { s with
      info := { s.info with procBuf := Function.update s.info.procBuf ch none } } where
  root := hs.root
  clean := hs.clean
  held := hs.held
  flag := hs.flag
  current := hs.current
  channel := hs.channel
  slot c dst hb := by
    change Function.update s.info.procBuf ch none c = some dst at hb
    rw [Function.update_apply] at hb
    split at hb
    · cases hb
    · exact hs.slot c dst hb

/-- A close ends the handshake of its handle, if there is one. -/
theorem closeFile {vi : VeInfo} (hvi : s.lk.files h = some vi) :
    HandshakeInv { s with
      lk := (releaseLostLocks s.lk h vi.lockFlags).setInfo h none
      pending := Function.update s.pending h none } := by
  have hproc : (releaseLostLocks s.lk h vi.lockFlags).locks .procInfo =
      if s.lockProc.holder = some h then s.lockProc.unlock h else s.lockProc := by
    rw [releaseLostLocks_locks]
    simp only [hs.flag_iff hvi]
    rfl
  have hholder : ∀ h', ((releaseLostLocks s.lk h vi.lockFlags).locks .procInfo).holder = some h' ↔
      h' ≠ h ∧ s.lockProc.holder = some h' := fun h' => by
    rw [hproc]
    by_cases hheld : s.lockProc.holder = some h
    · rw [if_pos hheld, Mutex.unlock_holder, hheld]
      simp [eq_comm]
    · rw [if_neg hheld]
      exact ⟨fun heq => ⟨fun hh => hheld (hh ▸ heq), heq⟩, And.right⟩
  refine ⟨hs.root, ?_, fun h' => ?_, fun h' => ?_, fun h' c n hp => ?_, hs.channel, hs.slot⟩
  · show ((releaseLostLocks s.lk h vi.lockFlags).locks .procInfo).fault = false
    -- a close unlocks only what the flag says is the handle's own
    rw [hproc]
    split
    · next hheld => exact (Mutex.unlock_fault _ _).mpr ⟨hs.clean, hheld⟩
    · exact hs.clean
  · show _ ↔ (Function.update s.pending h none h').isSome
    rw [Function.update_apply]
    refine (hholder h').trans ?_
    split
    · next heq => simp [heq]
    · next hne => rw [hs.held]; exact and_iff_right hne
  · refine (hholder h').trans ?_
    -- the closed handle has no private data left to carry a flag
    by_cases hh : h' = h
    · subst hh
      exact iff_of_false (fun hc => hc.1 rfl) (not_flagged_setInfo_none _ h' _)
    · rw [LockState.flagged_of_files h' _ ((LockState.setInfo_files_of_ne _ hh none).trans
        (congrFun (releaseLostLocks_files s.lk h vi.lockFlags) h')), ← hs.flag]
      exact and_iff_right hh
  · change Function.update s.pending h none h' = some (c, n) at hp
    rw [Function.update_apply] at hp
    split at hp
    · cases hp
    · exact hs.current h' c n hp

omit [DecidableEq H] in
/-- After a call that accesses nothing, the specification of the step is the invariant. -/
theorem step_of_noAccess {s₀ : ProcState H} {op : ProcOp H} {o : ProcOut} (hacc : o.acc = []) :
    HandshakeStep s₀ op o s where
  held := hs.held
  unlockedByHolder := hs.clean
  access a ha := by rw [hacc] at ha; cases ha
  opened := by rw [hacc]; exact Nat.zero_le _

omit [DecidableEq H] in
/-- After a call that only looks up a channel, it is that the channel exists. -/
theorem step_of_index {s₀ : ProcState H} {op : ProcOp H} {o : ProcOut} {ch : ℕ}
    (hacc : o.acc = [.index ch]) (hch : ch < VE_DEBUGFS_MAX_CHANNEL) :
    HandshakeStep s₀ op o s where
  held := hs.held
  unlockedByHolder := hs.clean
  access a ha := by
    rw [hacc] at ha
    rw [List.mem_singleton.mp ha]
    exact hch
  opened := by rw [hacc]; exact Nat.zero_le _

end HandshakeInv

/-- A guarded call keeps the invariant and meets the specification. -/
theorem handshakeStep_of_guard (s : ProcState H) (op : ProcOp H) (o : ProcOut) (s' : ProcState H)
    (hs : HandshakeInv s) (hop : (procMachine H).step s op = some (o, s'))
    (hg : HandshakeGuard s op) : HandshakeInv s' ∧ HandshakeStep s op o s' := by
  cases op with
  | openFile h a b c =>
    -- an open that fails changes nothing
    obtain ⟨⟨r, lk⟩, hlk, heq⟩ := Option.map_eq_some_iff.mp hop
    obtain ⟨rfl, rfl⟩ := Prod.mk.inj heq
    obtain ⟨hopen, rfl | rfl⟩ := cedardevOpen_some hlk
    · exact ⟨hs, hs.step_of_noAccess rfl⟩
    · exact ⟨hs.openFile hopen, (hs.openFile hopen).step_of_noAccess rfl⟩
  | setProcInfo h user =>
    -- a `SET` that fails after it took the lock gives it back, so the state is as before
    obtain ⟨hacc, rfl⟩ | ⟨vi, u, ch, len, hvi, hu, hch, hacc, rfl⟩ :=
      ioctlSetProcInfo_some hs.root hop
    · exact ⟨hs, hs.step_of_noAccess hacc⟩
    · have hs' := hs.setProcInfo vi len hu hch
      exact ⟨hs', hs'.step_of_index hacc hch⟩
  | copyProcInfo h user uncopied =>
    obtain ⟨hheld, hlen, hbuf⟩ := hg
    obtain ⟨vi, hvi, hlk, hroot, hpend, hinfo, hacc⟩ := ioctlCopyProcInfo_some hs.root hop
    have hs' := hs.copyProcInfo hheld hlk hroot hpend hinfo
    obtain ⟨⟨ch, len⟩, hp⟩ := Option.isSome_iff_exists.mp ((hs.held h).mp hheld)
    obtain ⟨rfl, rfl⟩ := hs.current h ch len hp
    refine ⟨hs', hs'.held, hs'.clean, ?_, ?_⟩
    · rw [hacc]
      intro a ha
      rcases List.mem_cons.mp ha with rfl | ha
      · exact hs.channel
      -- an empty text is not copied, so only a text with a slot is an access
      split at ha
      · cases ha
      · next hne =>
        obtain ⟨dst, hdst⟩ := Option.ne_none_iff_exists'.mp (hbuf hne)
        rw [hdst] at ha
        rw [List.mem_singleton.mp ha]
        exact ⟨h, user, uncopied, _, rfl, hp, hs.slot _ _ hdst, hlen⟩
    · rw [hacc]
      split
      · exact Nat.zero_le _
      · split <;> exact Nat.zero_le _
  | stopProcInfo h arg =>
    obtain ⟨hacc, rfl⟩ := ioctlStopProcInfo_some hs.root hop
    have hs' := hs.stopProcInfo (arg % 2 ^ 8)
    exact ⟨hs', hs'.step_of_index hacc hg⟩
  | closeFile h i =>
    obtain ⟨⟨r, lk⟩, hlk, heq⟩ := Option.map_eq_some_iff.mp hop
    obtain ⟨rfl, rfl⟩ := Prod.mk.inj heq
    obtain ⟨vi, hvi, rfl⟩ := cedardevRelease_some hlk
    exact ⟨hs.closeFile hvi, (hs.closeFile hvi).step_of_noAccess rfl⟩
  | debugfsOpen ok =>
    -- an open of the file that gets no memory copies nothing
    obtain ⟨rfl, ⟨-, hacc⟩ | ⟨hok, hacc⟩⟩ := veDebugfsOpen_some hop
    · exact ⟨hs, hs.step_of_noAccess hacc⟩
    · refine ⟨hs, hs.held, hs.clean, ?_, ?_⟩
      · rw [hacc]
        exact debugfsCopies_access _ _ _ _ _ _ (by decide)
      · rw [hacc, debugfsCopies_opened_eq]
        exact hg hok

/-- A call that met the specification was guarded. -/
theorem guard_of_handshakeStep (s : ProcState H) (op : ProcOp H) (o : ProcOut) (s' : ProcState H)
    (hs : HandshakeInv s) (hop : (procMachine H).step s op = some (o, s'))
    (hstep : HandshakeStep s op o s') : HandshakeGuard s op := by
  cases op with
  | openFile h a b c => trivial
  | setProcInfo h user => trivial
  | closeFile h i => trivial
  | copyProcInfo h user uncopied =>
    obtain ⟨vi, hvi, hlk, -, -, -, hacc⟩ := ioctlCopyProcInfo_some hs.root hop
    -- the mutex is unlocked without fault, so the caller held it
    have hproc : s'.lockProc = s.lockProc.unlock h := by
      rw [ProcState.lockProc, hlk, LockState.unlock_locks, if_pos rfl]
      rfl
    have hheld : s.lockProc.holder = some h :=
      ((Mutex.unlock_fault _ _).mp (hproc ▸ hstep.unlockedByHolder)).2
    by_cases hlen : s.info.procLen s.info.curChannelId = 0
    · exact ⟨hheld, by rw [hlen]; exact Nat.zero_le _, fun hne => absurd hlen hne⟩
    · -- something is written, so the access is judged
      rw [if_neg hlen] at hacc
      cases hbuf : s.info.procBuf s.info.curChannelId with
      | none =>
        have hbad : AccessOk s (.copyProcInfo h user uncopied) (.nullWrite _) :=
          hstep.access _ (by
            rw [hacc, hbuf]
            exact List.mem_cons_of_mem _ (List.mem_singleton_self _))
        exact hbad.elim
      | some dst =>
        obtain ⟨-, -, -, -, -, -, -, hle⟩ : AccessOk s (.copyProcInfo h user uncopied)
            (.slotWrite dst _) :=
          hstep.access _ (by
            rw [hacc, hbuf]
            exact List.mem_cons_of_mem _ (List.mem_singleton_self _))
        exact ⟨hheld, hle, fun _ => Option.some_ne_none dst ∘ (hbuf ▸ ·)⟩
  | stopProcInfo h arg =>
    obtain ⟨hacc, -⟩ := ioctlStopProcInfo_some hs.root hop
    exact hstep.access (.index (arg % 2 ^ 8)) (by rw [hacc]; exact List.mem_singleton_self _)
  | debugfsOpen ok =>
    -- what the open copied is the sum that the guard bounds
    intro hok
    obtain ⟨-, ⟨hno, -⟩ | ⟨-, hacc⟩⟩ := veDebugfsOpen_some hop
    · rw [hok] at hno
      cases hno
    · rw [← debugfsCopies_opened_eq, ← hacc]
      exact hstep.opened

/-- **The handshake.** Along every run each call meets its specification exactly when each is
guarded: a `COPY` comes from the holder of `lock_proc` while the selected slot is not `NULL` and
the recorded length fits it, a `STOP` names a channel, and the debugfs file is opened while the
recorded lengths fit its buffer. -/
theorem handshake_iff (data : ℕ → UInt8) (ops : List (ProcOp H)) :
    (procMachine H).Along HandshakeStep (ProcState.init data) ops ↔
      (procMachine H).Along (fun s op _ _ => HandshakeGuard s op) (ProcState.init data) ops :=
  Machine.along_iff_guard handshakeStep_of_guard guard_of_handshakeStep (handshakeInv_init data) ops

/-- Two handles are opened and handle 0 makes its `SET`, for 16 bytes of channel 0. -/
def strangerCopyRun : List (ProcOp ℕ) :=
  [.openFile 0 true true false, .openFile 1 true true false, .setProcInfo 0 (some ⟨0, 16⟩)]

/-- The `COPY` of handle 1 unlocks `lock_proc` while handle 0 holds it. -/
theorem stranger_copy_breaks_handshake :
    ¬ ∀ ops : List (ProcOp ℕ),
      (procMachine ℕ).Along HandshakeStep (ProcState.init fun _ => 0) ops := by
  intro hall
  have hcopy : HandshakeStep _ _ _ _ :=
    (hall (strangerCopyRun ++ [.copyProcInfo 1 (fun _ => 0) 0])).at rfl rfl
  have hclean := hcopy.unlockedByHolder
  exact absurd hclean (by decide)

end LonganPi.Ve
