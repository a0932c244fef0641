import Mathlib.Data.List.FinRange
import LonganPi.Kernel
import LonganPi.Lib.Arena
import LonganPi.Lib.Run

/-!
# The `debug_info` table

Sixteen slots, each with the head `(pid, tid, length)` that user space sent and a pointer to a
`vmalloc` buffer of `length` bytes. A slot is free when its pid and tid are both 0.
`IOCTL_PROC_INFO_COPY` finds the slot of the process or a free one, replaces its buffer and fills
the new one from user space; `IOCTL_PROC_INFO_STOP` frees the slot; reading the sysfs file walks
the occupied slots; module exit frees every buffer that is not `NULL`.

The buffers live in an `Arena` whose payload is their content, so a second `vfree`, a read after a
`vfree` and a read through `NULL` are faults of the arena, and a leak is a block that is live when
the module is gone. The results of `copy_from_user` and of `vmalloc` are arguments of a call; the
one thing assumed of the allocator is that it returns no address that is live. `lock_debug_info`
makes each call atomic, which it is here anyway.
-/

open DriverLib

namespace LonganPi.Ve

/-- Slots of the table. -/
def MAX_VE_DEBUG_INFO_NUM : ℕ := 16

/-- The index of a slot. -/
abbrev Slot := Fin MAX_VE_DEBUG_INFO_NUM

/-- `struct debug_head_info` -/
structure DebugHeadInfo where
  pid : UInt32
  tid : UInt32
  length : UInt32
  deriving DecidableEq, Repr

/-- `struct ve_debug_info` -/
structure VeDebugInfo where
  headInfo : DebugHeadInfo
  -- `none` is `NULL`
  data : Option ℕ
  deriving DecidableEq, Repr

/-- A slot as `memset` leaves it. -/
def VeDebugInfo.empty : VeDebugInfo := ⟨⟨0, 0, 0⟩, none⟩

/-- The table, its buffers and whether the module is loaded. -/
structure DebugState where
  debugInfo : Slot → VeDebugInfo
  -- `debug_info_cur_index`
  curIndex : ℤ
  -- what `vmalloc` has handed out
  heap : Arena (List UInt8)
  loaded : Bool

/-- The slots have the same pid and tid. -/
def DebugHeadInfo.SameKey (a b : DebugHeadInfo) : Prop := a.pid = b.pid ∧ a.tid = b.tid

instance (a b : DebugHeadInfo) : Decidable (a.SameKey b) := inferInstanceAs (Decidable (_ ∧ _))

/-- The test for a free slot. -/
def DebugHeadInfo.Free (a : DebugHeadInfo) : Prop := a.pid = 0 ∧ a.tid = 0

instance (a : DebugHeadInfo) : Decidable a.Free := inferInstanceAs (Decidable (_ ∧ _))

namespace DebugState

/-- The first slot with the key of `head`. -/
def matchSlot (s : DebugState) (head : DebugHeadInfo) : Option Slot :=
  (List.finRange MAX_VE_DEBUG_INFO_NUM).find? fun i => (s.debugInfo i).headInfo.SameKey head

/-- The first free slot. -/
def freeSlot (s : DebugState) : Option Slot :=
  (List.finRange MAX_VE_DEBUG_INFO_NUM).find? fun i => (s.debugInfo i).headInfo.Free

/-- The slot that a `COPY` fills and the head it writes there: the length only where the key was
found, the whole head in a free slot. -/
def targetSlot (s : DebugState) (head : DebugHeadInfo) : Option (Slot × DebugHeadInfo) :=
  match s.matchSlot head with
  | some i => some (i, { (s.debugInfo i).headInfo with length := head.length })
  | none => s.freeSlot.map fun i => (i, head)

/-- The slot `i` is replaced. -/
def setSlot (s : DebugState) (i : Slot) (v : VeDebugInfo) : DebugState :=
  { s with debugInfo := Function.update s.debugInfo i v }

end DebugState

/-! ### The calls -/

/-- `IOCTL_PROC_INFO_COPY`. `head` and `user` are what the two `copy_from_user` deliver, `vmalloc`
the address that `vmalloc` returns for a request of at least one byte. -/
def ioctlProcInfoCopy (s : DebugState) (head : Option DebugHeadInfo) (vmalloc : Option ℕ)
    (user : Option (ℕ → UInt8)) : Option (ℤ × DebugState) :=
  let s := { s with curIndex := -1 }
  match head with
  | none => some (-EFAULT, s)
  | some head =>
    match s.targetSlot head with
    | none => some (-EFAULT, s)
    | some (i, headInfo) =>
      let old := (s.debugInfo i).data
      let s := { s with curIndex := i.val, heap := s.heap.freePtr old }
      -- a request of no bytes fails
      match if headInfo.length = 0 then none else vmalloc with
      | none => some (-EFAULT, s.setSlot i ⟨headInfo, none⟩)
      | some p =>
        if s.heap.Live p then none
        else
          let s := s.setSlot i ⟨headInfo, some p⟩
          match user with
          | none => some (-EFAULT, { s with heap := (s.heap.alloc p []).free p })
          | some bytes =>
            let content := (List.range headInfo.length.toNat).map bytes
            some (0, { s with heap := s.heap.alloc p content })

/-- `IOCTL_PROC_INFO_STOP` -/
def ioctlProcInfoStop (s : DebugState) (head : Option DebugHeadInfo) : ℤ × DebugState :=
  match head with
  | none => (-EFAULT, s)
  | some head =>
    match s.matchSlot head with
    | none => (0, s)
    | some i =>
      (0, { s with heap := s.heap.freePtr (s.debugInfo i).data }.setSlot i VeDebugInfo.empty)

/-- The line that `ve_info_show` prints first. -/
def showHeader : List UInt8 :=
  "********* ve proc info **********\n".toList.map fun c => UInt8.ofNat c.toNat

/-- The loop of `ve_info_show` over the slots that are left, with `nTotalSize` and the bytes
written so far. The total is an `int`, compared with `PAGE_SIZE` as an `unsigned long`. -/
def showLoop (heap : Arena (List UInt8)) :
    List VeDebugInfo → ℤ → List UInt8 → List UInt8 × Arena (List UInt8)
  | [], _, text => (text, heap)
  | d :: ds, nTotalSize, text =>
    if d.headInfo.pid ≠ 0 ∧ d.headInfo.tid ≠ 0 then
      let nTotalSize := toInt32 (nTotalSize + d.headInfo.length.toNat)
      if nTotalSize % 2 ^ 64 > PAGE_SIZE then (text, heap)
      else
        let block := ((d.data.bind heap.block).getD []).take d.headInfo.length.toNat
        let heap := if d.headInfo.length = 0 then heap else heap.accessPtr d.data
        showLoop heap ds nTotalSize (text ++ block)
    else showLoop heap ds nTotalSize text

/-- `ve_info_show` with the bytes it writes to its page. -/
def veInfoShow (s : DebugState) : List UInt8 × DebugState :=
  let slots := (List.finRange MAX_VE_DEBUG_INFO_NUM).map s.debugInfo
  let r := showLoop s.heap slots 0 showHeader
  (r.1, { s with heap := r.2 })

/-- The part of `cedardev_exit` that frees the buffers. -/
def cedardevExit (s : DebugState) : DebugState :=
  let ps := (List.finRange MAX_VE_DEBUG_INFO_NUM).filterMap fun i => (s.debugInfo i).data
  { s with heap := s.heap.freeAll ps, loaded := false }

/-- The calls that touch the table. -/
inductive DebugOp
  -- `IOCTL_PROC_INFO_COPY`
  | copy (head : Option DebugHeadInfo) (vmalloc : Option ℕ) (user : Option (ℕ → UInt8))
  -- `IOCTL_PROC_INFO_STOP`
  | stop (head : Option DebugHeadInfo)
  -- reading the sysfs file
  | infoShow
  -- module exit
  | exit

/-- A head that names a process: pid and tid are not 0. -/
def NamesProcess (head : Option DebugHeadInfo) : Prop := ∀ h, head = some h → h.pid ≠ 0 ∧ h.tid ≠ 0

instance (head : Option DebugHeadInfo) : Decidable (NamesProcess head) :=
  match head with
  | none => isTrue fun _ h => nomatch h
  | some h => decidable_of_iff (h.pid ≠ 0 ∧ h.tid ≠ 0)
      ⟨fun hh _ heq => Option.some.inj heq ▸ hh, fun hh => hh h rfl⟩

/-- The table as a machine: no call after exit, and user space names a process. -/
def debugMachine : Machine DebugState DebugOp ℤ where
  step s op :=
    if !s.loaded then none
    else match op with
      | .copy head vmalloc user =>
        if NamesProcess head then ioctlProcInfoCopy s head vmalloc user else none
      | .stop head => if NamesProcess head then some (ioctlProcInfoStop s head) else none
      | .infoShow => some ((veInfoShow s).1.length, (veInfoShow s).2)
      | .exit => some (0, cedardevExit s)

/-- The state after the probe: the table is zeroed and nothing is allocated. -/
def DebugState.init : DebugState := ⟨fun _ => VeDebugInfo.empty, 0, Arena.empty, true⟩

/-! ### What each call does -/

namespace DebugState

variable {s : DebugState} {head : DebugHeadInfo} {i : Slot}

theorem sameKey_of_matchSlot (h : s.matchSlot head = some i) :
    (s.debugInfo i).headInfo.SameKey head := by
  have := List.find?_some h
  exact of_decide_eq_true this

theorem not_sameKey_of_matchSlot (h : s.matchSlot head = none) (j : Slot) :
    ¬ (s.debugInfo j).headInfo.SameKey head := by
  have := List.find?_eq_none.mp h j (List.mem_finRange j)
  simpa using this

theorem free_of_freeSlot (h : s.freeSlot = some i) : (s.debugInfo i).headInfo.Free := by
  have := List.find?_some h
  exact of_decide_eq_true this

/-- The slot that a `COPY` fills has the key of its head afterwards, and no other slot has it
unless the table had the key twice. -/
theorem targetSlot_some {headInfo : DebugHeadInfo} (h : s.targetSlot head = some (i, headInfo)) :
    headInfo.SameKey head ∧ headInfo.length = head.length ∧
      ((s.debugInfo i).headInfo.SameKey head ∨
        ((s.debugInfo i).headInfo.Free ∧ ∀ j, ¬ (s.debugInfo j).headInfo.SameKey head)) := by
  unfold targetSlot at h
  cases hm : s.matchSlot head with
  | some k =>
    rw [hm] at h
    obtain ⟨rfl, rfl⟩ := Prod.mk.inj (Option.some.inj h)
    have hkey := sameKey_of_matchSlot hm
    exact ⟨hkey, rfl, Or.inl hkey⟩
  | none =>
    rw [hm] at h
    obtain ⟨k, hk, heq⟩ := Option.map_eq_some_iff.mp h
    obtain ⟨rfl, rfl⟩ := Prod.mk.inj heq
    exact ⟨⟨rfl, rfl⟩, rfl, Or.inr ⟨free_of_freeSlot hk, not_sameKey_of_matchSlot hm⟩⟩

end DebugState

end LonganPi.Ve
