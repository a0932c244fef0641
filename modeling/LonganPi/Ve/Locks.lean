import LonganPi.Kernel
import LonganPi.Lib.Arena
import LonganPi.Lib.Bits
import LonganPi.Lib.Run

/-!
# The lock ioctls of the video-engine driver

`IOCTL_GET_LOCK` and `IOCTL_RELEASE_LOCK` hand the five engine mutexes to user space. The driver
keeps two records of who holds what. The mutex itself is one, the word `lock_flags` of the file's
`ve_info` is the other, and it is the second that `cedardev_release` trusts when a process dies
with locks held. The two are updated by different rules: the mutex is picked by *equality* of the
argument with one of the five lock types, the flags are combined with the argument as a *bit set*.

A file handle stands for its owner: the mutex is locked and unlocked on behalf of a handle, and
`Mutex.fault` records an unlock on behalf of somebody else. `lock_flag_io` only makes the update of
the flags atomic, which an ioctl is here anyway.

`lock_proc` is the sixth mutex. The lock ioctls never touch it, the `PROC_INFO` ioctls take it and
`cedardev_release` gives it back, so it is part of the table.
-/

open DriverLib

namespace LonganPi.Ve

/-! ### Mutexes and lock types -/

/-- The mutexes with a flag in `lock_flags`. -/
inductive VeLock
  -- `lock_vdec`
  | vdec
  -- `lock_venc`
  | venc
  -- `lock_jdec`
  | jdec
  -- `lock_00_reg`
  | reg00
  -- `lock_04_reg`
  | reg04
  -- `lock_proc` of `ve_debug_proc_info`
  | procInfo
  deriving DecidableEq, Repr

namespace VeLock

/-- The `VE_LOCK_*` word of a mutex. -/
def flag : VeLock → BitVec 32
  | vdec => 0x01#32
  | venc => 0x02#32
  | jdec => 0x04#32
  | reg00 => 0x08#32
  | reg04 => 0x10#32
  | procInfo => 0x1000#32

/-- The bit that `flag` sets. -/
def bit : VeLock → ℕ
  | vdec => 0
  | venc => 1
  | jdec => 2
  | reg00 => 3
  | reg04 => 4
  | procInfo => 12

/-- The five engine mutexes, all but `lock_proc`. -/
def Engine (l : VeLock) : Prop := l ≠ procInfo

instance (l : VeLock) : Decidable l.Engine := inferInstanceAs (Decidable (_ ≠ _))

theorem flag_eq (l : VeLock) : l.flag = BitVec.twoPow 32 l.bit := by cases l <;> rfl

theorem bit_lt (l : VeLock) : l.bit < 32 := by cases l <;> decide

theorem bit_inj {l l' : VeLock} : l.bit = l'.bit ↔ l = l' := by
  cases l <;> cases l' <;> decide

end VeLock

@[simp] theorem hasFlag_flag_flag {l l' : VeLock} : HasFlag l.flag l'.flag ↔ l = l' := by
  rw [l.flag_eq, l'.flag_eq, hasFlag_twoPow_twoPow l'.bit_lt, VeLock.bit_inj]

theorem hasFlag_and_not_flag {flags arg : BitVec 32} {l : VeLock} :
    HasFlag (flags &&& ~~~arg) l.flag ↔ HasFlag flags l.flag ∧ ¬ HasFlag arg l.flag := by
  rw [l.flag_eq, hasFlag_and_not l.bit_lt]

/-- The mutex that a lock type selects, `none` for the "invalid lock type" branch. -/
def lockOfType (lockType : BitVec 32) : Option VeLock :=
  if lockType = VeLock.vdec.flag then some .vdec
  else if lockType = VeLock.venc.flag then some .venc
  else if lockType = VeLock.jdec.flag then some .jdec
  else if lockType = VeLock.reg00.flag then some .reg00
  else if lockType = VeLock.reg04.flag then some .reg04
  else none

theorem lockOfType_some {t : BitVec 32} {l : VeLock} (h : lockOfType t = some l) :
    l.Engine ∧ t = l.flag := by
  unfold lockOfType at h
  split_ifs at h with h₁ h₂ h₃ h₄ h₅ <;> cases h
  all_goals exact ⟨by decide, by assumption⟩

/-! ### The state -/

/-- `struct ve_info`, one for every open file. -/
structure VeInfo where
  -- `lock_flags`
  lockFlags : BitVec 32
  deriving DecidableEq, Repr

/-- The open files and the mutexes. -/
structure LockState (H : Type*) where
  -- `filp->private_data`, `none` for a handle that is not open
  files : H → Option VeInfo
  -- the mutex table
  locks : VeLock → Mutex H

variable {H : Type*} [DecidableEq H]

namespace LockState

omit [DecidableEq H] in
/-- No file is open and every mutex is free. -/
def init : LockState H := ⟨fun _ => none, fun _ => Mutex.unlocked⟩

omit [DecidableEq H] in
/-- The flag of `l` is set in the `lock_flags` of `h`. -/
def Flagged (s : LockState H) (h : H) (l : VeLock) : Prop :=
  ∃ vi, s.files h = some vi ∧ HasFlag vi.lockFlags l.flag

/-- The private data of `h` is replaced. -/
def setInfo (s : LockState H) (h : H) (vi : Option VeInfo) : LockState H :=
  { s with files := Function.update s.files h vi }

/-- `mutex_unlock(l)` on behalf of `h`. -/
def unlock (s : LockState H) (l : VeLock) (h : H) : LockState H :=
  { s with locks := Function.update s.locks l ((s.locks l).unlock h) }

/-- `mutex_lock(l)` on behalf of `h`, `none` while it blocks. -/
def lock (s : LockState H) (l : VeLock) (h : H) : Option (LockState H) :=
  ((s.locks l).lock h).map fun m => { s with locks := Function.update s.locks l m }

@[simp] theorem setInfo_locks (s : LockState H) (h : H) (vi : Option VeInfo) :
    (s.setInfo h vi).locks = s.locks := rfl

@[simp] theorem setInfo_files_self (s : LockState H) (h : H) (vi : Option VeInfo) :
    (s.setInfo h vi).files h = vi := Function.update_self _ _ _

theorem setInfo_files_of_ne (s : LockState H) {h h' : H} (hne : h' ≠ h) (vi : Option VeInfo) :
    (s.setInfo h vi).files h' = s.files h' := Function.update_of_ne hne _ _

@[simp] theorem unlock_files (s : LockState H) (l : VeLock) (h : H) :
    (s.unlock l h).files = s.files := rfl

theorem unlock_locks (s : LockState H) (l k : VeLock) (h : H) :
    (s.unlock l h).locks k = if k = l then (s.locks l).unlock h else s.locks k := by
  simp only [unlock, Function.update_apply]

omit [DecidableEq H] in
/-- A successful `mutex_lock` found the mutex free. -/
theorem lock_eq_some {s s' : LockState H} {l : VeLock} {h : H} (hlock : s.lock l h = some s') :
    (s.locks l).holder = none ∧ s'.files = s.files ∧
      ∀ k, s'.locks k = if k = l then { s.locks l with holder := some h } else s.locks k := by
  unfold lock at hlock
  obtain ⟨m, hm, rfl⟩ := Option.map_eq_some_iff.mp hlock
  obtain ⟨hfree, rfl⟩ := Mutex.lock_eq_some.mp hm
  refine ⟨hfree, rfl, fun k => ?_⟩
  simp only [Function.update_apply]

/-- Unlocking what was just locked restores the table. -/
theorem unlock_of_lock {s s' : LockState H} {l : VeLock} {h : H} (hlock : s.lock l h = some s') :
    s'.unlock l h = s := by
  obtain ⟨m, hm, rfl⟩ := Option.map_eq_some_iff.mp hlock
  simp only [unlock, Function.update_self, Mutex.unlock_of_lock hm, Function.update_idem,
    Function.update_eq_self]

omit [DecidableEq H] in
theorem flagged_of_files {s s' : LockState H} (h : H) (l : VeLock)
    (hfiles : s'.files h = s.files h) : s'.Flagged h l ↔ s.Flagged h l := by
  unfold Flagged
  rw [hfiles]

theorem flagged_setInfo (s : LockState H) (h h' : H) (vi : VeInfo) (l : VeLock) :
    (s.setInfo h (some vi)).Flagged h' l ↔
      if h' = h then HasFlag vi.lockFlags l.flag else s.Flagged h' l := by
  split
  · next heq => subst heq; simp [Flagged]
  · next hne => exact flagged_of_files h' l (s.setInfo_files_of_ne hne _)

end LockState

/-! ### The calls -/

/-- `cedardev_open`. The Booleans are `bInitEndFlag == 1`, the outcome of `kmalloc` and that of
`down_interruptible`. Not enabled for a handle that is open. -/
def cedardevOpen (s : LockState H) (h : H) (initEnd kmallocOk interrupted : Bool) :
    Option (ℤ × LockState H) :=
  if (s.files h).isSome then none
  else if !initEnd then some (-1, s)
  else if !kmallocOk then some (-ENOMEM, s)
  else if interrupted then some (-ERESTARTSYS, s)
  else some (0, s.setInfo h (some ⟨0⟩))

/-- `IOCTL_GET_LOCK`. An unknown type is logged and then or-ed into the flags like any other. -/
def ioctlGetLock (s : LockState H) (h : H) (lockType : BitVec 32) : Option (ℤ × LockState H) :=
  (s.files h).bind fun vi =>
    let locked :=
      match lockOfType lockType with
      | some l => s.lock l h
      | none => some s
    locked.map fun s => (0, s.setInfo h (some { vi with lockFlags := vi.lockFlags ||| lockType }))

/-- `IOCTL_RELEASE_LOCK`. The flags are cleared before the type is compared. -/
def ioctlReleaseLock (s : LockState H) (h : H) (lockType : BitVec 32) :
    Option (ℤ × LockState H) :=
  (s.files h).map fun vi =>
    if ¬ HasFlag vi.lockFlags lockType then (-1, s)
    else
      let s := s.setInfo h (some { vi with lockFlags := vi.lockFlags &&& ~~~lockType })
      match lockOfType lockType with
      | some l => (0, s.unlock l h)
      | none => (0, s)

/-- The order in which `cedardev_release` looks at the flags. -/
def releaseOrder : List VeLock := [.vdec, .venc, .jdec, .reg00, .reg04, .procInfo]

/-- The "release lost-lock" block of `cedardev_release`: every mutex with its flag set is
unlocked. -/
def releaseLostLocks (s : LockState H) (h : H) (flags : BitVec 32) : LockState H :=
  releaseOrder.foldl (fun s l => if HasFlag flags l.flag then s.unlock l h else s) s

/-- `cedardev_release`. The file is gone whatever it returns. -/
def cedardevRelease (s : LockState H) (h : H) (interrupted : Bool) : Option (ℤ × LockState H) :=
  (s.files h).map fun vi =>
    (if interrupted then -ERESTARTSYS else 0, (releaseLostLocks s h vi.lockFlags).setInfo h none)

/-! ### What each call does -/

theorem cedardevOpen_some {s s' : LockState H} {h : H} {a b c : Bool} {o : ℤ}
    (hop : cedardevOpen s h a b c = some (o, s')) :
    s.files h = none ∧ (s' = s ∨ s' = s.setInfo h (some ⟨0⟩)) := by
  unfold cedardevOpen at hop
  split_ifs at hop with hopen <;> cases hop
  all_goals
    refine ⟨by simpa using hopen, ?_⟩
    first | exact Or.inl rfl | exact Or.inr rfl

/-- A known type takes its mutex, any other type takes none; both are or-ed into the flags. -/
theorem ioctlGetLock_some {s s' : LockState H} {h : H} {t : BitVec 32} {o : ℤ}
    (hop : ioctlGetLock s h t = some (o, s')) :
    ∃ vi, s.files h = some vi ∧ o = 0 ∧
      ((∃ l u, lockOfType t = some l ∧ s.lock l h = some u ∧
          s' = u.setInfo h (some ⟨vi.lockFlags ||| t⟩)) ∨
        (lockOfType t = none ∧ s' = s.setInfo h (some ⟨vi.lockFlags ||| t⟩))) := by
  obtain ⟨vi, hvi, hop⟩ := Option.bind_eq_some_iff.mp hop
  obtain ⟨u, hu, heq⟩ := Option.map_eq_some_iff.mp hop
  obtain ⟨rfl, rfl⟩ := Prod.mk.injEq .. ▸ heq
  refine ⟨vi, hvi, rfl, ?_⟩
  cases ht : lockOfType t with
  | some l => exact Or.inl ⟨l, u, rfl, by simpa [ht] using hu, rfl⟩
  | none =>
    have hsu : s = u := by simpa [ht] using hu
    exact Or.inr ⟨rfl, hsu ▸ rfl⟩

theorem ioctlReleaseLock_some {s s' : LockState H} {h : H} {t : BitVec 32} {o : ℤ}
    (hop : ioctlReleaseLock s h t = some (o, s')) :
    ∃ vi, s.files h = some vi ∧
      ((¬ HasFlag vi.lockFlags t ∧ o = -1 ∧ s' = s) ∨
        (HasFlag vi.lockFlags t ∧ o = 0 ∧
          ((∃ l, lockOfType t = some l ∧
              s' = (s.setInfo h (some ⟨vi.lockFlags &&& ~~~t⟩)).unlock l h) ∨
            (lockOfType t = none ∧ s' = s.setInfo h (some ⟨vi.lockFlags &&& ~~~t⟩))))) := by
  obtain ⟨vi, hvi, heq⟩ := Option.map_eq_some_iff.mp hop
  refine ⟨vi, hvi, ?_⟩
  by_cases hf : HasFlag vi.lockFlags t
  · rw [if_neg (not_not_intro hf)] at heq
    cases ht : lockOfType t with
    | some l =>
      simp only [ht, Prod.mk.injEq] at heq
      exact Or.inr ⟨hf, heq.1.symm, Or.inl ⟨l, rfl, heq.2.symm⟩⟩
    | none =>
      simp only [ht, Prod.mk.injEq] at heq
      exact Or.inr ⟨hf, heq.1.symm, Or.inr ⟨rfl, heq.2.symm⟩⟩
  · rw [if_pos hf, Prod.mk.injEq] at heq
    exact Or.inl ⟨hf, heq.1.symm, heq.2.symm⟩

private theorem foldl_unlock (flags : BitVec 32) (h : H) (L : List VeLock) (hL : L.Nodup)
    (s : LockState H) :
    let s' := L.foldl (fun s l => if HasFlag flags l.flag then s.unlock l h else s) s
    s'.files = s.files ∧
      ∀ k, s'.locks k =
        if k ∈ L ∧ HasFlag flags k.flag then (s.locks k).unlock h else s.locks k := by
  induction L generalizing s with
  | nil => simp
  | cons l L ih =>
    obtain ⟨hl, hL⟩ := List.nodup_cons.mp hL
    rw [List.foldl_cons]
    obtain ⟨hfiles, hlocks⟩ := ih hL (if HasFlag flags l.flag then s.unlock l h else s)
    refine ⟨hfiles.trans (by split <;> rfl), fun k => (hlocks k).trans ?_⟩
    by_cases hk : k = l
    · subst hk
      by_cases hf : HasFlag flags k.flag <;> simp [hl, hf, LockState.unlock_locks]
    · have hsame : (if HasFlag flags l.flag then s.unlock l h else s).locks k = s.locks k := by
        split
        · rw [LockState.unlock_locks, if_neg hk]
        · rfl
      rw [hsame]
      simp [hk]

/-- Closing unlocks exactly the mutexes whose flag is set. -/
theorem releaseLostLocks_locks (s : LockState H) (h : H) (flags : BitVec 32) (k : VeLock) :
    (releaseLostLocks s h flags).locks k =
      if HasFlag flags k.flag then (s.locks k).unlock h else s.locks k := by
  have hk : k ∈ releaseOrder := by cases k <;> decide
  refine ((foldl_unlock flags h releaseOrder (by decide) s).2 k).trans ?_
  simp only [hk, true_and]

theorem releaseLostLocks_files (s : LockState H) (h : H) (flags : BitVec 32) :
    (releaseLostLocks s h flags).files = s.files :=
  (foldl_unlock flags h releaseOrder (by decide) s).1

theorem cedardevRelease_some {s s' : LockState H} {h : H} {i : Bool} {o : ℤ}
    (hop : cedardevRelease s h i = some (o, s')) :
    ∃ vi, s.files h = some vi ∧ s' = (releaseLostLocks s h vi.lockFlags).setInfo h none := by
  obtain ⟨vi, hvi, heq⟩ := Option.map_eq_some_iff.mp hop
  exact ⟨vi, hvi, (Prod.mk.inj heq).2.symm⟩

/-- A closed handle has no flag set. -/
theorem not_flagged_setInfo_none (s : LockState H) (h : H) (l : VeLock) :
    ¬ (s.setInfo h none).Flagged h l := by
  rintro ⟨vi, hvi, -⟩
  simp at hvi

end LonganPi.Ve
