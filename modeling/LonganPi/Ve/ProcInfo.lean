import LonganPi.Ve.Locks

/-!
# The `PROC_INFO` handshake

User space publishes a text for debugfs in two ioctls. `IOCTL_SET_PROC_INFO` takes `lock_proc`,
selects a channel and records a length; `IOCTL_COPY_PROC_INFO` copies that many bytes into the
channel's slot and gives `lock_proc` back. `IOCTL_STOP_PROC_INFO` empties a slot, and opening the
debugfs file concatenates all slots. Between the two ioctls the critical section lives in three
places: the mutex, the flag `VE_LOCK_PROC_INFO` of the file (so that a close can release it) and
the globals of `ve_debug_proc_info`.

A call returns the memory accesses it makes beside its result, so that bounds are statements about
the calls. `pending` is a ghost: for each handle, the channel and the length of a `SET` that was
not yet followed by its `COPY` or close. `HandshakeStep` is the specification of a step over it.

`COPY` checks nothing. It clears the flag of its own file, writes through the slot that *any*
handle selected last and unlocks `lock_proc`, whoever holds it. The length that `SET` stores is the
user's word, `STOP` uses an unchecked byte as an index, and it does not take the lock.
`HandshakeGuard` is the condition under which these do no harm, and `handshake_iff` shows it to be
exact.
-/

open DriverLib

namespace LonganPi.Ve

/-- Channels of `ve_debug_proc_info`. -/
def VE_DEBUGFS_MAX_CHANNEL : ℕ := 16

/-- Bytes of a channel's slot. -/
def VE_DEBUGFS_BUF_SIZE : ℕ := 1024

/-- `struct VE_PROC_INFO`, the argument of `IOCTL_SET_PROC_INFO`. -/
structure VeProcInfo where
  -- `channel_id`
  channelId : UInt8
  -- `proc_info_len`
  procInfoLen : UInt32

/-- `struct ve_debugfs_buffer` without its mutex. The arrays are memory from their first element
on: only the indices below `VE_DEBUGFS_MAX_CHANNEL` belong to them. -/
structure DebugfsBuffer where
  -- `cur_channel_id`
  curChannelId : ℕ
  -- `proc_len`
  procLen : ℕ → ℕ
  -- `proc_buf` as offsets into `data`, `none` for `NULL`
  procBuf : ℕ → Option ℕ
  -- `data`
  data : ℕ → UInt8

/-- `ve_debug_proc_info` after the probe. The contents of `data` are what `kmalloc` returned. -/
def DebugfsBuffer.init (data : ℕ → UInt8) : DebugfsBuffer := ⟨0, fun _ => 0, fun _ => none, data⟩

/-- The state of the handshake. -/
structure ProcState (H : Type*) where
  -- open files and mutexes
  lk : LockState H
  -- `debug_root` is not `NULL`
  debugRoot : Bool
  -- `ve_debug_proc_info`
  info : DebugfsBuffer
  -- ghost: channel and length of the handle's `SET` that awaits its `COPY` or close
  pending : H → Option (ℕ × ℕ)

/-- A memory access of a call. -/
inductive Access
  -- the element `ch` of `proc_len` or `proc_buf`
  | index (ch : ℕ)
  -- `len` bytes of `data` from `dst` on are written
  | slotWrite (dst len : ℕ)
  -- `len` bytes are written through a `NULL` slot pointer
  | nullWrite (len : ℕ)
  -- `len` bytes of `data` from `src` on are copied to offset `dst` of an open file's buffer
  | openCopy (dst src len : ℕ)

/-- The bytes that an access copies into the buffer of an open debugfs file. -/
def Access.opened : Access → ℕ
  | openCopy _ _ len => len
  | _ => 0

/-- What a call returns, and what it accesses. -/
structure ProcOut where
  -- the value of the call
  ret : ℤ
  -- its accesses in order
  acc : List Access

variable {H : Type*} [DecidableEq H]

/-! ### The calls -/

/-- `IOCTL_SET_PROC_INFO`. `user` is the copied structure, `none` when `copy_from_user` fails. Not
enabled while `lock_proc` is held. -/
def ioctlSetProcInfo (s : ProcState H) (h : H) (user : Option VeProcInfo) :
    Option (ProcOut × ProcState H) :=
  (s.lk.files h).bind fun vi =>
    if !s.debugRoot then some (⟨0, []⟩, s)
    else (s.lk.lock .procInfo h).map fun lk =>
      match user with
      | none => (⟨-EFAULT, []⟩, { s with lk := lk.unlock .procInfo h })
      | some veInfo =>
        let ch := veInfo.channelId.toNat
        if ch ≥ VE_DEBUGFS_MAX_CHANNEL then
          (⟨-EFAULT, []⟩, { s with lk := lk.unlock .procInfo h })
        else
          (⟨0, [.index ch]⟩,
            { s with
              lk := lk.setInfo h (some { vi with
                lockFlags := vi.lockFlags ||| VeLock.procInfo.flag })
              info := { s.info with
                curChannelId := ch
                procLen := Function.update s.info.procLen ch veInfo.procInfoLen.toNat
                procBuf := Function.update s.info.procBuf ch (some (ch * VE_DEBUGFS_BUF_SIZE)) }
              pending := Function.update s.pending h (some (ch, veInfo.procInfoLen.toNat)) })

/-- `copy_from_user(data + dst, …, len)`: of the `len` bytes all but the last `uncopied` come from
user space, the rest is zeroed. -/
def copyFromUser (data : ℕ → UInt8) (dst len : ℕ) (user : ℕ → UInt8) (uncopied : ℕ) : ℕ → UInt8 :=
  fun i =>
    if dst ≤ i ∧ i < dst + len then
      if i - dst < len - uncopied then user (i - dst) else 0
    else data i

/-- `IOCTL_COPY_PROC_INFO`. -/
def ioctlCopyProcInfo (s : ProcState H) (h : H) (user : ℕ → UInt8) (uncopied : ℕ) :
    Option (ProcOut × ProcState H) :=
  (s.lk.files h).map fun vi =>
    if !s.debugRoot then (⟨0, []⟩, s)
    else
      let lk := s.lk.setInfo h (some { vi with
        lockFlags := vi.lockFlags &&& ~~~VeLock.procInfo.flag })
      let ch := s.info.curChannelId
      let len := s.info.procLen ch
      let uncopied := min uncopied len
      (⟨if uncopied ≠ 0 then -EFAULT else 0,
          .index ch ::
            if len = 0 then []
            else match s.info.procBuf ch with
              | some dst => [.slotWrite dst len]
              | none => [.nullWrite len]⟩,
        { s with
          lk := lk.unlock .procInfo h
          info := match s.info.procBuf ch with
            | some dst =>
              { s.info with data := copyFromUser s.info.data dst len user uncopied }
            | none => s.info
          pending := Function.update s.pending h none })

/-- `IOCTL_STOP_PROC_INFO`. The argument is truncated to an `unsigned char` and used as it is. -/
def ioctlStopProcInfo (s : ProcState H) (h : H) (arg : ℕ) : Option (ProcOut × ProcState H) :=
  (s.lk.files h).map fun _ =>
    if !s.debugRoot then (⟨0, []⟩, s)
    else
      let ch := arg % 2 ^ 8
      (⟨0, [.index ch]⟩,
        { s with info := { s.info with procBuf := Function.update s.info.procBuf ch none } })

/-- The copies that `ve_debugfs_open` makes from channel `i` on, `dst` bytes after the start of
its buffer. -/
def debugfsCopies (info : DebugfsBuffer) : (n i dst : ℕ) → List Access
  | 0, _, _ => []
  | n + 1, i, dst =>
    match info.procBuf i with
    | some src =>
      .index i :: .openCopy dst src (info.procLen i) ::
        debugfsCopies info n (i + 1) (dst + info.procLen i)
    | none => .index i :: debugfsCopies info n (i + 1) dst

/-- `ve_debugfs_open`. It holds `lock_proc` over the copies, so it is not enabled while some handle
does. -/
def veDebugfsOpen (s : ProcState H) (kmallocOk : Bool) : Option (ProcOut × ProcState H) :=
  if !kmallocOk then some (⟨-ENOMEM, []⟩, s)
  else if (s.lk.locks .procInfo).holder.isSome then none
  else some (⟨0, debugfsCopies s.info VE_DEBUGFS_MAX_CHANNEL 0 0⟩, s)

/-- `cedardev_release`; the ghost forgets the handle. -/
def procClose (s : ProcState H) (h : H) (interrupted : Bool) : Option (ProcOut × ProcState H) :=
  (cedardevRelease s.lk h interrupted).map fun r =>
    (⟨r.1, []⟩, { s with lk := r.2, pending := Function.update s.pending h none })

/-- `cedardev_open` -/
def procOpen (s : ProcState H) (h : H) (initEnd kmallocOk interrupted : Bool) :
    Option (ProcOut × ProcState H) :=
  (cedardevOpen s.lk h initEnd kmallocOk interrupted).map fun r => (⟨r.1, []⟩, { s with lk := r.2 })

/-- The calls of the handshake. -/
inductive ProcOp (H : Type*)
  -- `cedardev_open` with its three outcomes
  | openFile (h : H) (initEnd kmallocOk interrupted : Bool)
  -- `IOCTL_SET_PROC_INFO`
  | setProcInfo (h : H) (user : Option VeProcInfo)
  -- `IOCTL_COPY_PROC_INFO`
  | copyProcInfo (h : H) (user : ℕ → UInt8) (uncopied : ℕ)
  -- `IOCTL_STOP_PROC_INFO`
  | stopProcInfo (h : H) (arg : ℕ)
  -- `cedardev_release`
  | closeFile (h : H) (interrupted : Bool)
  -- `ve_debugfs_open`
  | debugfsOpen (kmallocOk : Bool)

/-- The handshake as a machine. -/
def procMachine (H : Type*) [DecidableEq H] : Machine (ProcState H) (ProcOp H) ProcOut where
  step s
    | .openFile h a b c => procOpen s h a b c
    | .setProcInfo h user => ioctlSetProcInfo s h user
    | .copyProcInfo h user uncopied => ioctlCopyProcInfo s h user uncopied
    | .stopProcInfo h arg => ioctlStopProcInfo s h arg
    | .closeFile h i => procClose s h i
    | .debugfsOpen ok => veDebugfsOpen s ok

omit [DecidableEq H] in
/-- The state after the probe. -/
def ProcState.init (data : ℕ → UInt8) : ProcState H :=
  ⟨LockState.init, true, DebugfsBuffer.init data, fun _ => none⟩

/-! ### The specification of a step -/

/-- The mutex of the handshake. -/
def ProcState.lockProc (s : ProcState H) : Mutex H := s.lk.locks .procInfo

/-- A `COPY` of `h` writes the slot of the channel that its own `SET` selected, with the length of
that `SET`, and stays inside the slot; no other call writes to a slot, no index is out of range and
nothing is written through `NULL`. -/
def AccessOk (s : ProcState H) (op : ProcOp H) : Access → Prop
  | .index ch => ch < VE_DEBUGFS_MAX_CHANNEL
  | .slotWrite dst len => ∃ h user uncopied ch, op = .copyProcInfo h user uncopied ∧
      s.pending h = some (ch, len) ∧ dst = ch * VE_DEBUGFS_BUF_SIZE ∧ len ≤ VE_DEBUGFS_BUF_SIZE
  | .nullWrite _ => False
  | .openCopy _ _ _ => True

/-- The specification of a step. -/
structure HandshakeStep (s : ProcState H) (op : ProcOp H) (o : ProcOut) (s' : ProcState H) :
    Prop where
  -- `lock_proc` is held from a successful `SET` to the `COPY` or close of the same handle
  held : ∀ h, s'.lockProc.holder = some h ↔ (s'.pending h).isSome
  -- it was never unlocked by a handle that did not hold it
  unlockedByHolder : s'.lockProc.fault = false
  -- every access is in bounds
  access : ∀ a ∈ o.acc, AccessOk s op a
  -- opening the debugfs file stays inside its buffer
  opened : (o.acc.map Access.opened).sum ≤ VE_DEBUGFS_BUF_SIZE * VE_DEBUGFS_MAX_CHANNEL

/-- The bytes that `ve_debugfs_open` is going to copy. -/
def openLength (info : DebugfsBuffer) : ℕ :=
  ((List.range VE_DEBUGFS_MAX_CHANNEL).map fun i =>
    if (info.procBuf i).isSome then info.procLen i else 0).sum

/-- The condition under which a call keeps to the specification. -/
def HandshakeGuard (s : ProcState H) : ProcOp H → Prop
  | .copyProcInfo h _ _ =>
    s.lockProc.holder = some h ∧
      s.info.procLen s.info.curChannelId ≤ VE_DEBUGFS_BUF_SIZE ∧
      (s.info.procLen s.info.curChannelId ≠ 0 → s.info.procBuf s.info.curChannelId ≠ none)
  | .stopProcInfo _ arg => arg % 2 ^ 8 < VE_DEBUGFS_MAX_CHANNEL
  | .debugfsOpen kmallocOk =>
    kmallocOk = true → openLength s.info ≤ VE_DEBUGFS_BUF_SIZE * VE_DEBUGFS_MAX_CHANNEL
  | _ => True

/-- The invariant of the handshake. -/
structure HandshakeInv (s : ProcState H) : Prop where
  -- debugfs is there
  root : s.debugRoot = true
  -- the mutex was unlocked by its holders only
  clean : s.lockProc.fault = false
  -- the holder is the handle whose `SET` is pending
  held : ∀ h, s.lockProc.holder = some h ↔ (s.pending h).isSome
  -- the flag in `lock_flags` says the same
  flag : ∀ h, s.lockProc.holder = some h ↔ s.lk.Flagged h .procInfo
  -- the pending `SET` is the last one, so the globals are its own
  current : ∀ h ch len, s.pending h = some (ch, len) →
    ch = s.info.curChannelId ∧ len = s.info.procLen ch
  -- the selected channel is one
  channel : s.info.curChannelId < VE_DEBUGFS_MAX_CHANNEL
  -- a slot pointer is `NULL` or the start of its own slot
  slot : ∀ ch dst, s.info.procBuf ch = some dst → dst = ch * VE_DEBUGFS_BUF_SIZE

/-! ### What each call does -/

section Calls

variable {s s' : ProcState H} {h : H} {o : ProcOut}

/-- A `SET` that gets the mutex either fails and gives it back, or keeps it and selects. -/
theorem ioctlSetProcInfo_some {user : Option VeProcInfo} (hroot : s.debugRoot = true)
    (hop : ioctlSetProcInfo s h user = some (o, s')) :
    (o.acc = [] ∧ s' = s) ∨
      ∃ vi u ch len, s.lk.files h = some vi ∧ s.lk.lock .procInfo h = some u ∧
        ch < VE_DEBUGFS_MAX_CHANNEL ∧ o.acc = [.index ch] ∧
        s' = { s with
          lk := u.setInfo h (some ⟨vi.lockFlags ||| VeLock.procInfo.flag⟩)
          info := { s.info with
            curChannelId := ch
            procLen := Function.update s.info.procLen ch len
            procBuf := Function.update s.info.procBuf ch (some (ch * VE_DEBUGFS_BUF_SIZE)) }
          pending := Function.update s.pending h (some (ch, len)) } := by
  obtain ⟨vi, hvi, hop⟩ := Option.bind_eq_some_iff.mp hop
  rw [if_neg (by simp [hroot])] at hop
  obtain ⟨u, hu, heq⟩ := Option.map_eq_some_iff.mp hop
  have hback : ({ s with lk := u.unlock .procInfo h } : ProcState H) = s := by
    rw [LockState.unlock_of_lock hu]
  cases user with
  | none =>
    obtain ⟨rfl, rfl⟩ := Prod.mk.inj heq
    exact Or.inl ⟨rfl, hback⟩
  | some veInfo =>
    by_cases hch : veInfo.channelId.toNat ≥ VE_DEBUGFS_MAX_CHANNEL
    · simp only [hch, if_true] at heq
      obtain ⟨rfl, rfl⟩ := Prod.mk.inj heq
      exact Or.inl ⟨rfl, hback⟩
    · simp only [hch, if_false] at heq
      obtain ⟨rfl, rfl⟩ := Prod.mk.inj heq
      exact Or.inr ⟨vi, u, _, _, hvi, hu, Nat.lt_of_not_ge hch, rfl, rfl⟩

/-- The state behind a `COPY`, as far as the invariant reads it. -/
theorem ioctlCopyProcInfo_some {user : ℕ → UInt8} {uncopied : ℕ} (hroot : s.debugRoot = true)
    (hop : ioctlCopyProcInfo s h user uncopied = some (o, s')) :
    ∃ vi, s.lk.files h = some vi ∧
      s'.lk = (s.lk.setInfo h (some ⟨vi.lockFlags &&& ~~~VeLock.procInfo.flag⟩)).unlock
        .procInfo h ∧
      s'.debugRoot = true ∧ s'.pending = Function.update s.pending h none ∧
      (∃ data, s'.info = { s.info with data := data }) ∧
      o.acc = .index s.info.curChannelId ::
        if s.info.procLen s.info.curChannelId = 0 then []
        else match s.info.procBuf s.info.curChannelId with
          | some dst => [.slotWrite dst (s.info.procLen s.info.curChannelId)]
          | none => [.nullWrite (s.info.procLen s.info.curChannelId)] := by
  obtain ⟨vi, hvi, heq⟩ := Option.map_eq_some_iff.mp hop
  rw [if_neg (by simp [hroot])] at heq
  obtain ⟨rfl, rfl⟩ := Prod.mk.inj heq
  refine ⟨vi, hvi, rfl, hroot, rfl, ?_, rfl⟩
  cases s.info.procBuf s.info.curChannelId with
  | none => exact ⟨_, rfl⟩
  | some dst => exact ⟨_, rfl⟩

omit [DecidableEq H] in
theorem ioctlStopProcInfo_some {arg : ℕ} (hroot : s.debugRoot = true)
    (hop : ioctlStopProcInfo s h arg = some (o, s')) :
    o.acc = [.index (arg % 2 ^ 8)] ∧
      s' = { s with
        info := { s.info with procBuf := Function.update s.info.procBuf (arg % 2 ^ 8) none } } := by
  obtain ⟨vi, hvi, heq⟩ := Option.map_eq_some_iff.mp hop
  rw [if_neg (by simp [hroot])] at heq
  obtain ⟨rfl, rfl⟩ := Prod.mk.inj heq
  exact ⟨rfl, rfl⟩

omit [DecidableEq H] in
theorem veDebugfsOpen_some {ok : Bool} (hop : veDebugfsOpen s ok = some (o, s')) :
    s' = s ∧ ((ok = false ∧ o.acc = []) ∨
      (ok = true ∧ o.acc = debugfsCopies s.info VE_DEBUGFS_MAX_CHANNEL 0 0)) := by
  unfold veDebugfsOpen at hop
  cases ok with
  | false =>
    obtain ⟨rfl, rfl⟩ := Prod.mk.inj (Option.some.inj hop)
    exact ⟨rfl, Or.inl ⟨rfl, rfl⟩⟩
  | true =>
    simp only [Bool.not_true, Bool.false_eq_true, if_false] at hop
    split_ifs at hop
    obtain ⟨rfl, rfl⟩ := Prod.mk.inj (Option.some.inj hop)
    exact ⟨rfl, Or.inr ⟨rfl, rfl⟩⟩

end Calls

/-- The loop of `ve_debugfs_open` copies the lengths of the occupied slots. -/
theorem debugfsCopies_opened (info : DebugfsBuffer) (n i dst : ℕ) :
    ((debugfsCopies info n i dst).map Access.opened).sum =
      ((List.range' i n).map fun k =>
        if (info.procBuf k).isSome then info.procLen k else 0).sum := by
  induction n generalizing i dst with
  | zero => rfl
  | succ n ih =>
    rw [debugfsCopies, List.range'_succ, List.map_cons, List.sum_cons]
    cases hbuf : info.procBuf i with
    | none =>
      show 0 + ((debugfsCopies info n (i + 1) dst).map Access.opened).sum = _
      rw [ih]
      rfl
    | some src =>
      show 0 + (info.procLen i +
        ((debugfsCopies info n (i + 1) (dst + info.procLen i)).map Access.opened).sum) = _
      rw [ih, Nat.zero_add]
      rfl

theorem debugfsCopies_opened_eq (info : DebugfsBuffer) :
    ((debugfsCopies info VE_DEBUGFS_MAX_CHANNEL 0 0).map Access.opened).sum = openLength info := by
  rw [debugfsCopies_opened, openLength, List.range_eq_range']

omit [DecidableEq H] in
/-- The loop of `ve_debugfs_open` reads the channels it runs over and copies. -/
theorem debugfsCopies_access (info : DebugfsBuffer) (s : ProcState H) (op : ProcOp H)
    (n i dst : ℕ) (hn : i + n ≤ VE_DEBUGFS_MAX_CHANNEL) :
    ∀ a ∈ debugfsCopies info n i dst, AccessOk s op a := by
  induction n generalizing i dst with
  | zero => intro a ha; cases ha
  | succ n ih =>
    intro a ha
    have hi : AccessOk s op (.index i) := by
      show i < VE_DEBUGFS_MAX_CHANNEL
      omega
    rw [debugfsCopies] at ha
    cases hbuf : info.procBuf i with
    | none =>
      rw [hbuf] at ha
      rcases List.mem_cons.mp ha with rfl | ha
      · exact hi
      · exact ih (i + 1) dst (by omega) a ha
    | some src =>
      rw [hbuf] at ha
      rcases List.mem_cons.mp ha with rfl | ha
      · exact hi
      rcases List.mem_cons.mp ha with rfl | ha
      · trivial
      · exact ih (i + 1) _ (by omega) a ha

end LonganPi.Ve
