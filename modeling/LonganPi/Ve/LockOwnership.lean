import LonganPi.Ve.Locks

/-!
# Who owns the engine mutexes

Runs of open, `IOCTL_GET_LOCK`, `IOCTL_RELEASE_LOCK` and close from any number of handles. The two
records of ownership agree in `LocksOwned`: for each engine mutex, the handles with the flag set
are exactly its holder, and nobody has unlocked it for somebody else.

The argument word is not checked. A word that is none of the five types takes no mutex, yet
`IOCTL_GET_LOCK` sets all of its bits and `IOCTL_RELEASE_LOCK` clears all of them, so a word that
*contains* an engine bit pulls the records apart: a `GET` of `0x03` claims `lock_vdec` and
`lock_venc` without taking either, and the close that follows unlocks both, whoever holds them. A
`RELEASE` of `0x03` drops the flags and leaves the mutexes locked for good. `LockGuard` excludes
exactly these calls, and `engine_locks_owned_iff` says that nothing else goes wrong: the records
agree along a run if and only if every call in it is guarded.
-/

open DriverLib

namespace LonganPi.Ve

variable {H : Type*} [DecidableEq H]

/-- The calls on a device file that touch the lock table. -/
inductive LockOp (H : Type*)
  -- `cedardev_open` with its three outcomes
  | openFile (h : H) (initEnd kmallocOk interrupted : Bool)
  -- `IOCTL_GET_LOCK` with its argument
  | getLock (h : H) (lockType : BitVec 32)
  -- `IOCTL_RELEASE_LOCK` with its argument
  | releaseLock (h : H) (lockType : BitVec 32)
  -- `cedardev_release`
  | closeFile (h : H) (interrupted : Bool)

/-- The lock ioctls as a machine; a `GET` of a held mutex is not enabled. -/
def lockMachine (H : Type*) [DecidableEq H] : Machine (LockState H) (LockOp H) ℤ where
  step s
    | .openFile h a b c => cedardevOpen s h a b c
    | .getLock h t => ioctlGetLock s h t
    | .releaseLock h t => ioctlReleaseLock s h t
    | .closeFile h i => cedardevRelease s h i

/-- The flags and the mutexes tell the same story about the engine locks. -/
structure LocksOwned (s : LockState H) : Prop where
  -- no engine mutex was ever unlocked for a handle that did not hold it
  unlockedByHolder : ∀ l : VeLock, l.Engine → (s.locks l).fault = false
  -- the flags of a handle are exactly the engine mutexes it holds
  flags : ∀ l : VeLock, l.Engine → ∀ h, (s.locks l).holder = some h ↔ s.Flagged h l

/-- What is required of a step: ownership afterwards, and a close leaves nothing held. -/
structure OwnedStep (op : LockOp H) (s' : LockState H) : Prop where
  -- ownership afterwards
  owned : LocksOwned s'
  -- no engine mutex is held by the handle that was closed
  closed : ∀ h i, op = .closeFile h i → ∀ l : VeLock, l.Engine → (s'.locks l).holder ≠ some h

/-- The argument is one of the five lock types, or it does not change an engine bit of the flags:
a `GET` finds the engine bits of the word set already, a `RELEASE` finds them clear. -/
def LockGuard (s : LockState H) : LockOp H → Prop
  | .getLock h t => (lockOfType t).isSome ∨
      ∀ l : VeLock, l.Engine → HasFlag t l.flag → s.Flagged h l
  | .releaseLock h t => (lockOfType t).isSome ∨
      ∀ l : VeLock, l.Engine → HasFlag t l.flag → ¬ s.Flagged h l
  | _ => True

omit [DecidableEq H] in
theorem locksOwned_init : LocksOwned (LockState.init : LockState H) := by
  refine ⟨fun _ _ => rfl, fun l _ h => ?_⟩
  simp [LockState.init, LockState.Flagged, Mutex.unlocked]

namespace LocksOwned

variable {s : LockState H} (hs : LocksOwned s) {h : H}
include hs

/-- A change of the flags that no engine lock sees keeps ownership. -/
theorem setInfo {vi : VeInfo}
    (hflag : ∀ l : VeLock, l.Engine → (HasFlag vi.lockFlags l.flag ↔ s.Flagged h l)) :
    LocksOwned (s.setInfo h (some vi)) := by
  refine ⟨hs.unlockedByHolder, fun l hl h' => ?_⟩
  rw [LockState.flagged_setInfo, LockState.setInfo_locks, hs.flags l hl]
  split
  · next heq => rw [heq, hflag l hl]
  · exact Iff.rfl

/-- Opening a file starts with no flag and no lock. -/
theorem openFile (hopen : s.files h = none) : LocksOwned (s.setInfo h (some ⟨0⟩)) := by
  refine hs.setInfo fun l _ => ?_
  simp [LockState.Flagged, hopen]

/-- Locking `l` and setting its flag go together. -/
theorem getLock {vi : VeInfo} {l : VeLock} {u : LockState H} (hvi : s.files h = some vi)
    (hlock : s.lock l h = some u) : LocksOwned (u.setInfo h (some ⟨vi.lockFlags ||| l.flag⟩)) := by
  obtain ⟨hfree, hfiles, hlocks⟩ := LockState.lock_eq_some hlock
  refine ⟨fun k hk => ?_, fun k hk h' => ?_⟩
  · rw [LockState.setInfo_locks, hlocks]
    split
    · next heq => exact hs.unlockedByHolder l (heq ▸ hk)
    · exact hs.unlockedByHolder k hk
  · have hold : ∀ h', u.Flagged h' k ↔ (s.locks k).holder = some h' := fun h' => by
      rw [hs.flags k hk, LockState.flagged_of_files h' k (congrFun hfiles h')]
    have hflag : HasFlag vi.lockFlags k.flag ↔ (s.locks k).holder = some h := by
      rw [hs.flags k hk]
      simp [LockState.Flagged, hvi]
    rw [LockState.flagged_setInfo, LockState.setInfo_locks, hlocks, hasFlag_or, hasFlag_flag_flag,
      hflag, hold]
    by_cases hkl : k = l
    · subst hkl
      simp [hfree, eq_comm]
    · simp only [if_neg hkl, Ne.symm hkl, or_false]
      split
      · next heq => rw [heq]
      · exact Iff.rfl

/-- Clearing the flag of `l` and unlocking it go together. -/
theorem releaseLock {vi : VeInfo} {l : VeLock} (hl : l.Engine) (hvi : s.files h = some vi)
    (hf : HasFlag vi.lockFlags l.flag) :
    LocksOwned ((s.setInfo h (some ⟨vi.lockFlags &&& ~~~l.flag⟩)).unlock l h) := by
  have hheld : (s.locks l).holder = some h := (hs.flags l hl h).mpr ⟨vi, hvi, hf⟩
  refine ⟨fun k hk => ?_, fun k hk h' => ?_⟩
  · rw [LockState.unlock_locks]
    split
    · exact (Mutex.unlock_fault _ _).mpr ⟨hs.unlockedByHolder l hl, hheld⟩
    · exact hs.unlockedByHolder k hk
  · have hflag : HasFlag vi.lockFlags k.flag ↔ (s.locks k).holder = some h := by
      rw [hs.flags k hk]
      simp [LockState.Flagged, hvi]
    rw [LockState.flagged_of_files h' k (congrFun (LockState.unlock_files _ l h) h'),
      LockState.flagged_setInfo, LockState.unlock_locks, hasFlag_and_not_flag, hasFlag_flag_flag,
      hflag, ← hs.flags k hk]
    by_cases hkl : k = l
    · subst hkl
      by_cases hh : h' = h
      · simp [hh]
      · simp [hh, hheld, Ne.symm hh]
    · simp only [if_neg hkl, Ne.symm hkl, not_false_eq_true, and_true]
      split
      · next heq => rw [heq]; exact Iff.rfl
      · exact Iff.rfl

/-- A close gives back what the handle held, and nothing else. -/
theorem closeFile {vi : VeInfo} (hvi : s.files h = some vi) :
    LocksOwned ((releaseLostLocks s h vi.lockFlags).setInfo h none) := by
  have hflag : ∀ k : VeLock, k.Engine → (HasFlag vi.lockFlags k.flag ↔
      (s.locks k).holder = some h) := fun k hk => by
    rw [hs.flags k hk]
    simp [LockState.Flagged, hvi]
  refine ⟨fun k hk => ?_, fun k hk h' => ?_⟩
  · rw [LockState.setInfo_locks, releaseLostLocks_locks]
    split
    · next hf =>
      exact (Mutex.unlock_fault _ _).mpr ⟨hs.unlockedByHolder k hk, (hflag k hk).mp hf⟩
    · exact hs.unlockedByHolder k hk
  · rw [LockState.setInfo_locks, releaseLostLocks_locks]
    by_cases hh : h' = h
    · subst hh
      refine iff_of_false ?_ (not_flagged_setInfo_none _ h' k)
      split
      · simp
      · next hf => rwa [hflag k hk] at hf
    · rw [LockState.flagged_of_files h' k ((LockState.setInfo_files_of_ne _ hh none).trans
        (congrFun (releaseLostLocks_files s h vi.lockFlags) h')), ← hs.flags k hk]
      split
      · next hf => simp [(hflag k hk).mp hf, Ne.symm hh]
      · exact Iff.rfl

end LocksOwned

/-- A guarded step keeps ownership. -/
theorem ownedStep_of_guard (s : LockState H) (op : LockOp H) (o : ℤ) (s' : LockState H)
    (hs : LocksOwned s) (hop : (lockMachine H).step s op = some (o, s')) (hg : LockGuard s op) :
    LocksOwned s' ∧ OwnedStep op s' := by
  suffices hown : LocksOwned s' by
    refine ⟨hown, hown, fun h i hcl l hl => ?_⟩
    subst hcl
    obtain ⟨vi, -, rfl⟩ := cedardevRelease_some hop
    rw [Ne, hown.flags l hl]
    exact not_flagged_setInfo_none _ h l
  cases op with
  | openFile h a b c =>
    obtain ⟨hopen, rfl | rfl⟩ := cedardevOpen_some hop
    · exact hs
    · exact hs.openFile hopen
  | getLock h t =>
    obtain ⟨vi, hvi, -, ⟨l, u, ht, hlock, rfl⟩ | ⟨ht, rfl⟩⟩ := ioctlGetLock_some hop
    · obtain ⟨-, rfl⟩ := lockOfType_some ht
      exact hs.getLock hvi hlock
    · refine hs.setInfo fun l hl => ?_
      have hkept : HasFlag t l.flag → s.Flagged h l :=
        (hg.resolve_left (by simp [ht])) l hl
      rw [hasFlag_or]
      simp only [LockState.Flagged, hvi, Option.some.injEq, exists_eq_left'] at hkept ⊢
      exact or_iff_left_of_imp hkept
  | releaseLock h t =>
    obtain ⟨vi, hvi, ⟨-, -, rfl⟩ | ⟨hf, -, ⟨l, ht, rfl⟩ | ⟨ht, rfl⟩⟩⟩ := ioctlReleaseLock_some hop
    · exact hs
    · obtain ⟨hl, rfl⟩ := lockOfType_some ht
      exact hs.releaseLock hl hvi hf
    · refine hs.setInfo fun l hl => ?_
      have hkept : HasFlag t l.flag → ¬ s.Flagged h l :=
        (hg.resolve_left (by simp [ht])) l hl
      rw [hasFlag_and_not_flag]
      simp only [LockState.Flagged, hvi, Option.some.injEq, exists_eq_left'] at hkept ⊢
      exact and_iff_left_of_imp fun hf harg => hkept harg hf
  | closeFile h i =>
    obtain ⟨vi, hvi, rfl⟩ := cedardevRelease_some hop
    exact hs.closeFile hvi

/-- A step after which ownership still holds was guarded. -/
theorem guard_of_ownedStep (s : LockState H) (op : LockOp H) (o : ℤ) (s' : LockState H)
    (hs : LocksOwned s) (hop : (lockMachine H).step s op = some (o, s')) (hstep : OwnedStep op s') :
    LockGuard s op := by
  cases op with
  | openFile h a b c => trivial
  | closeFile h i => trivial
  | getLock h t =>
    obtain ⟨vi, hvi, -, ⟨l, u, ht, -, -⟩ | ⟨ht, rfl⟩⟩ := ioctlGetLock_some hop
    · exact Or.inl (by simp [ht])
    · -- the flag is set afterwards, so the mutex is held, and it was held before
      refine Or.inr fun l hl harg => (hs.flags l hl h).mp ?_
      refine (hstep.owned.flags l hl h).mpr ?_
      rw [LockState.flagged_setInfo, if_pos rfl, hasFlag_or]
      exact Or.inr harg
  | releaseLock h t =>
    obtain ⟨vi, hvi, ⟨hf, -, rfl⟩ | ⟨-, -, ⟨l, ht, -⟩ | ⟨ht, rfl⟩⟩⟩ := ioctlReleaseLock_some hop
    · refine Or.inr fun l hl harg ⟨vi', hvi', hfl⟩ => hf ?_
      obtain rfl : vi = vi' := Option.some.inj (hvi.symm.trans hvi')
      rw [l.flag_eq, hasFlag_twoPow l.bit_lt] at harg hfl
      exact hasFlag_iff.mpr ⟨l.bit, hfl, harg⟩
    · exact Or.inl (by simp [ht])
    · -- the mutex is still held but its flag is gone
      refine Or.inr fun l hl harg hflagged => ?_
      have hheld := (hs.flags l hl h).mpr hflagged
      have hafter := (hstep.owned.flags l hl h).mp hheld
      rw [LockState.flagged_setInfo, if_pos rfl, hasFlag_and_not_flag] at hafter
      exact hafter.2 harg

/-- **Ownership of the engine locks.** Along every run the engine mutexes are unlocked by their
holders only, the flags of each handle are the mutexes it holds and a close leaves none held,
exactly when every lock word in the run is one of the five types or changes no engine bit. -/
theorem engine_locks_owned_iff (ops : List (LockOp H)) :
    (lockMachine H).Along (fun _ op _ s' => OwnedStep op s') LockState.init ops ↔
      (lockMachine H).Along (fun s op _ _ => LockGuard s op) LockState.init ops :=
  Machine.along_iff_guard ownedStep_of_guard guard_of_ownedStep locksOwned_init ops

/-- Handle 0 takes `lock_vdec`, handle 1 asks for type `0x03`. -/
def compositeGetRun : List (LockOp ℕ) :=
  [.openFile 0 true true false, .openFile 1 true true false, .getLock 0 0x01#32,
    .getLock 1 0x03#32]

/-- When handle 1 is closed, `lock_vdec` is unlocked for it although handle 0 holds it. -/
theorem composite_get_breaks_ownership :
    ¬ ∀ ops : List (LockOp ℕ),
      (lockMachine ℕ).Along (fun _ op _ s' => OwnedStep op s') LockState.init ops := by
  intro hall
  have hclose : OwnedStep _ _ := (hall (compositeGetRun ++ [.closeFile 1 false])).at rfl rfl
  have hclean := hclose.owned.unlockedByHolder .vdec (by decide)
  exact absurd hclean (by decide)

end LonganPi.Ve
