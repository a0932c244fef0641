import LonganPi.Lib.Links
import LonganPi.Ve.Locks

/-!
# The list of mapped dma-bufs

`IOCTL_MAP_DMA_BUF` takes a file descriptor of a dma-buf, gets the dma-buf, attaches the device,
maps the attachment and puts what it got on `cedar_devp->list`; `IOCTL_UNMAP_DMA_BUF` looks for the
first entry of the same descriptor, process and file and gives it all back. `IOCTL_GET_IOMMU_ADDR`
and `IOCTL_FREE_IOMMU_ADDR` are the same for older user space. `cedardev_release` does nothing about
the list, its call of `unmap_dma_buf_addr` is a comment.

What the dma-buf framework and the allocator answer are arguments of a call. `DmaBufCore` is the
other side of the framework, a ledger of references, attachments and mappings; giving back what is
not there is a fault of it. Of the answers it is assumed only that a new block or attachment is not
live. The list is touched under `lock_mem`, once in each ioctl, so an ioctl is one step.
-/

open DriverLib

namespace LonganPi.Ve

/-! ### The framework -/

/-- A `struct dma_buf_attachment`. -/
structure Attachment where
  dmaBuf : ℕ
  -- the mapping, `none` when it is not mapped
  sgt : Option ℕ
  deriving DecidableEq, Repr

/-- What the driver holds of the dma-buf framework. -/
structure DmaBufCore where
  -- references, by dma-buf
  refs : ℕ → ℕ
  attachments : Arena Attachment
  -- something was given back that was not held
  fault : Bool

namespace DmaBufCore

/-- Nothing is held. -/
def empty : DmaBufCore := ⟨fun _ => 0, Arena.empty, false⟩

/-- `dma_buf_get` -/
def get (c : DmaBufCore) (d : ℕ) : DmaBufCore :=
  { c with refs := Function.update c.refs d (c.refs d + 1) }

/-- `dma_buf_put` -/
def put (c : DmaBufCore) (d : ℕ) : DmaBufCore :=
  { c with
    refs := Function.update c.refs d (c.refs d - 1)
    fault := c.fault || decide (c.refs d = 0) }

/-- `dma_buf_attach` -/
def attach (c : DmaBufCore) (d a : ℕ) : DmaBufCore :=
  { c with attachments := c.attachments.alloc a ⟨d, none⟩ }

/-- `dma_buf_map_attachment` -/
def mapAttachment (c : DmaBufCore) (a t : ℕ) : DmaBufCore :=
  match c.attachments.block a with
  | some b => { c with attachments := c.attachments.write a { b with sgt := some t } }
  | none => { c with fault := true }

/-- `dma_buf_unmap_attachment` -/
def unmapAttachment (c : DmaBufCore) (a t : ℕ) : DmaBufCore :=
  match c.attachments.block a with
  | some b =>
    { c with
      attachments := c.attachments.write a { b with sgt := none }
      fault := c.fault || decide (b.sgt ≠ some t) }
  | none => { c with fault := true }

/-- `dma_buf_detach` -/
def detach (c : DmaBufCore) (d a : ℕ) : DmaBufCore :=
  { c with
    attachments := c.attachments.free a
    fault := c.fault || decide (c.attachments.block a ≠ some ⟨d, none⟩) }

variable {c : DmaBufCore} {d a t : ℕ}

theorem put_get : (c.get d).put d = c := by
  obtain ⟨refs, attachments, fault⟩ := c
  have hrefs : Function.update (Function.update refs d (refs d + 1)) d (refs d) = refs := by
    rw [Function.update_idem, Function.update_eq_self]
  simp only [get, put, Function.update_self, Nat.add_sub_cancel, hrefs, Nat.succ_ne_zero,
    decide_false, Bool.or_false]

theorem detach_attach (ha : ¬c.attachments.Live a) : (c.attach d a).detach d a = c := by
  obtain ⟨refs, attachments, fault⟩ := c
  simp only [attach, detach, Arena.free_alloc _ ha, Arena.alloc_block_self, ne_eq,
    not_true_eq_false, decide_false, Bool.or_false]

/-- A mapped attachment, and what the framework holds of it. -/
theorem mapAttachment_attach :
    (c.attach d a).mapAttachment a t =
      { c with attachments := c.attachments.alloc a ⟨d, some t⟩ } := by
  have hblock : (c.attach d a).attachments.block a = some ⟨d, none⟩ := Arena.alloc_block_self ..
  unfold mapAttachment
  rw [hblock]
  unfold attach
  dsimp only
  rw [Arena.write_alloc]

/-- Unmapping and detaching what was mapped. -/
theorem detach_unmapAttachment (ha : c.attachments.block a = some ⟨d, some t⟩) :
    (c.unmapAttachment a t).detach d a = { c with attachments := c.attachments.free a } := by
  have hblock : (c.attachments.write a ⟨d, none⟩).block a = some ⟨d, none⟩ :=
    (Arena.write_block_of_live _ _ (Arena.Live.of_eq ha)).trans (if_pos rfl)
  unfold unmapAttachment
  rw [ha]
  simp only [detach, Arena.free_write _ ha, hblock, ne_eq, not_true_eq_false, decide_false,
    Bool.or_false]

end DmaBufCore

/-! ### The state -/

def AW_LIST_LOCATION1 : ℕ := 0x00100100

def AW_LIST_LOCATION2 : ℕ := 0x00200200

/-- `aw_mem_list_add_tail` -/
def awMemListAddTail (M : Links ℕ) (newList head : ℕ) : Links ℕ := M.addTail newList head

/-- `aw_mem_list_del` -/
def awMemListDel (M : Links ℕ) (entry : ℕ) : Links ℕ :=
  M.del entry AW_LIST_LOCATION1 AW_LIST_LOCATION2

/-- `struct dma_buf_info` without its links. -/
structure DmaBufInfo (H : Type*) where
  fd : ℤ
  addr : ℕ
  -- `none` is `NULL`
  dmaBuf : Option ℕ
  attachment : Option ℕ
  sgt : Option ℕ
  pId : ℤ
  filp : Option H
  deriving DecidableEq, Repr

/-- A `dma_buf_info` as `memset` leaves it. -/
def DmaBufInfo.zero {H : Type*} : DmaBufInfo H := ⟨0, 0, none, none, none, 0, none⟩

/-- The list and what is on it. -/
structure DmaBufState (H : Type*) where
  -- the open files
  lk : LockState H
  -- the address of `cedar_devp->list`
  list : ℕ
  -- the links of every `aw_mem_list_head`; `i_list` is the first member of its `dma_buf_info`
  links : Links ℕ
  bMemDevAttachFlag : Bool
  -- what `kmalloc` has handed out
  bufs : Arena (DmaBufInfo H)
  dma : DmaBufCore
  -- ghost: the maps that went through, which bounds the loop of an unmap
  mapped : ℕ
  -- ghost: a loop did not end within its bound
  hung : Bool

variable {H : Type*}

namespace DmaBufState

/-- After the probe: no file is open and the list is empty. -/
def init (list : ℕ) (M : Links ℕ) : DmaBufState H :=
  ⟨LockState.init, list, M.init list, false, Arena.empty, DmaBufCore.empty, 0, false⟩

/-- A node is read; the list head is always there. -/
def touch (s : DmaBufState H) (pos : ℕ) : DmaBufState H :=
  if pos = s.list then s else { s with bufs := s.bufs.access pos }

end DmaBufState

/-! ### Mapping -/

/-- What `kmalloc` and the framework answer to one map, `none` for an error. -/
structure MapResults where
  kmalloc : Option ℕ
  dmaBufGet : Option ℕ
  dmaBufAttach : Option ℕ
  -- the `sg_table` and its first `sg_dma_address`
  dmaBufMapAttachment : Option (ℕ × ℕ)

/-- What is new is not in use. -/
structure MapResults.Fresh (r : MapResults) (s : DmaBufState H) : Prop where
  kmalloc : ∀ p ∈ r.kmalloc, p ≠ s.list ∧ ¬s.bufs.Live p
  dmaBufAttach : ∀ a ∈ r.dmaBufAttach, ¬s.dma.attachments.Live a

instance (r : MapResults) (s : DmaBufState H) : Decidable (r.Fresh s) :=
  decidable_of_iff ((∀ p ∈ r.kmalloc, p ≠ s.list ∧ ¬s.bufs.Live p) ∧
    ∀ a ∈ r.dmaBufAttach, ¬s.dma.attachments.Live a)
    ⟨fun h => ⟨h.1, h.2⟩, fun h => ⟨h.kmalloc, h.dmaBufAttach⟩⟩

namespace DmaBufState

/-- The label `BUF_FREE`. -/
def bufFree (s : DmaBufState H) (p : ℕ) : DmaBufState H := { s with bufs := s.bufs.free p }

/-- The label `BUF_PUT`. -/
def bufPut (s : DmaBufState H) (p d : ℕ) : DmaBufState H :=
  { s with dma := s.dma.put d }.bufFree p

/-- The label `BUF_DETATCH`. -/
def bufDetatch (s : DmaBufState H) (p d a : ℕ) : DmaBufState H :=
  { s with dma := s.dma.detach d a }.bufPut p d

end DmaBufState

/-- `map_dma_buf_addr` for a process `tgid`: the result, what `*addr` is then, and the state. -/
def mapDmaBufAddr (s : DmaBufState H) (tgid fd : ℤ) (addr : ℕ) (filp : H) (r : MapResults) :
    ℤ × ℕ × DmaBufState H :=
  match r.kmalloc with
  | none => (-1, addr, s)
  | some p =>
    let s := { s with bufs := s.bufs.alloc p DmaBufInfo.zero }
    match r.dmaBufGet with
    | none => (-1, addr, s.bufFree p)
    | some d =>
      let s := { s with dma := s.dma.get d }
      match r.dmaBufAttach with
      | none => (-1, addr, s.bufPut p d)
      | some a =>
        let s := { s with dma := s.dma.attach d a }
        match r.dmaBufMapAttachment with
        | none => (-1, addr, s.bufDetatch p d a)
        | some (t, dmaAddr) =>
          (0, toU32 dmaAddr,
            { s with
              dma := s.dma.mapAttachment a t
              bufs := s.bufs.write p ⟨fd, dmaAddr, some d, some a, some t, tgid, some filp⟩
              links := awMemListAddTail s.links p s.list
              mapped := s.mapped + 1 })

/-- `struct dma_buf_param`. -/
structure DmaBufParam where
  fd : ℤ
  phyAddr : ℕ
  deriving DecidableEq, Repr

/-- `struct user_iommu_param` has the same two members. -/
abbrev UserIommuParam := DmaBufParam

/-- The common code of the two map ioctls. `user` is what `copy_from_user` delivers, `copyOut` says
that `copy_to_user` succeeds; the result goes with what it copies. -/
def mapIoctl (s : DmaBufState H) (filp : H) (tgid : ℤ) (user : Option DmaBufParam) (r : MapResults)
    (copyOut : Bool) : (ℤ × Option DmaBufParam) × DmaBufState H :=
  let s := { s with bMemDevAttachFlag := true }
  match user with
  | none => ((-EFAULT, none), s)
  | some parm =>
    let m := mapDmaBufAddr s tgid parm.fd parm.phyAddr filp r
    if m.1 ≠ 0 then ((-EFAULT, none), m.2.2)
    else if copyOut = false then ((-EFAULT, none), m.2.2)
    else ((0, some { parm with phyAddr := m.2.1 }), m.2.2)

/-- `IOCTL_GET_IOMMU_ADDR` -/
def ioctlGetIommuAddr (s : DmaBufState H) (filp : H) (tgid : ℤ) (user : Option UserIommuParam)
    (r : MapResults) (copyOut : Bool) : (ℤ × Option UserIommuParam) × DmaBufState H :=
  mapIoctl s filp tgid user r copyOut

/-- `IOCTL_MAP_DMA_BUF` -/
def ioctlMapDmaBuf (s : DmaBufState H) (filp : H) (tgid : ℤ) (user : Option DmaBufParam)
    (r : MapResults) (copyOut : Bool) : (ℤ × Option DmaBufParam) × DmaBufState H :=
  mapIoctl s filp tgid user r copyOut

/-! ### Unmapping -/

/-- What the entry holds of the framework is given back. -/
def DmaBufInfo.release (i : DmaBufInfo H) (c : DmaBufCore) : DmaBufCore :=
  match i.dmaBuf with
  | none => c
  | some d =>
    let c :=
      match i.attachment with
      | none => c
      | some a =>
        let c :=
          match i.sgt with
          | none => c
          | some t => c.unmapAttachment a t
        c.detach d a
    c.put d

/-- The body of `unmap_dma_buf_addr` at an entry that matches. -/
def DmaBufState.unmapEntry (s : DmaBufState H) (pos : ℕ) (i : DmaBufInfo H) : DmaBufState H :=
  { s with
    dma := i.release s.dma
    links := awMemListDel s.links pos
    bufs := s.bufs.free pos }

variable [DecidableEq H]

/-- The test of `unmap_dma_buf_addr`. -/
def DmaBufInfo.matches (i : DmaBufInfo H) (unmapAll : Bool) (fd : ℤ) (filp : H) (tgid : ℤ) : Bool :=
  let tmpFd := if unmapAll then i.fd else fd
  decide (i.fd = tmpFd ∧ i.pId = tgid ∧ some filp = i.filp)

/-- The loop `aw_mem_list_for_each_safe` of `unmap_dma_buf_addr`, from `pos` with `next` behind it.
-/
def unmapLoop (unmapAll : Bool) (fd : ℤ) (filp : H) (tgid : ℤ) :
    ℕ → ℕ → ℕ → DmaBufState H → DmaBufState H
  | 0, _, _, s => { s with hung := true }
  | fuel + 1, pos, next, s =>
    if pos = s.list then s
    else
      let s := s.touch pos
      match (s.bufs.block pos).filter fun i => i.matches unmapAll fd filp tgid with
      | some i =>
        let s := s.unmapEntry pos i
        if unmapAll = false then s
        else unmapLoop unmapAll fd filp tgid fuel next (s.links.next next) (s.touch next)
      | none => unmapLoop unmapAll fd filp tgid fuel next (s.links.next next) (s.touch next)

/-- `unmap_dma_buf_addr` for a process `tgid`. -/
def unmapDmaBufAddr (s : DmaBufState H) (unmapAll : Bool) (fd : ℤ) (filp : H) (tgid : ℤ) :
    DmaBufState H :=
  if s.bMemDevAttachFlag then
    let pos := s.links.next s.list
    unmapLoop unmapAll fd filp tgid (s.mapped + 1) pos (s.links.next pos) (s.touch pos)
  else s

/-- The common code of the two unmap ioctls. -/
def unmapIoctl (s : DmaBufState H) (filp : H) (tgid : ℤ) (user : Option DmaBufParam) :
    (ℤ × Option DmaBufParam) × DmaBufState H :=
  match user with
  | none => ((-EFAULT, none), s)
  | some parm => ((0, none), unmapDmaBufAddr s false parm.fd filp tgid)

/-- `IOCTL_FREE_IOMMU_ADDR` -/
def ioctlFreeIommuAddr (s : DmaBufState H) (filp : H) (tgid : ℤ) (user : Option UserIommuParam) :
    (ℤ × Option UserIommuParam) × DmaBufState H :=
  unmapIoctl s filp tgid user

/-- `IOCTL_UNMAP_DMA_BUF` -/
def ioctlUnmapDmaBuf (s : DmaBufState H) (filp : H) (tgid : ℤ) (user : Option DmaBufParam) :
    (ℤ × Option DmaBufParam) × DmaBufState H :=
  unmapIoctl s filp tgid user

/-! ### The machine -/

/-- The calls that the list sees. -/
inductive DmaBufOp (H : Type*)
  -- `cedardev_open` with its three outcomes
  | openFile (h : H) (initEnd kmallocOk interrupted : Bool)
  -- `IOCTL_MAP_DMA_BUF` of a process, or `IOCTL_GET_IOMMU_ADDR` when `compat`
  | map (compat : Bool) (h : H) (tgid : ℤ) (user : Option DmaBufParam) (r : MapResults)
    (copyOut : Bool)
  -- `IOCTL_UNMAP_DMA_BUF`, or `IOCTL_FREE_IOMMU_ADDR` when `compat`
  | unmap (compat : Bool) (h : H) (tgid : ℤ) (user : Option DmaBufParam)
  -- `cedardev_release`
  | closeFile (h : H) (interrupted : Bool)

/-- The list as a machine. An ioctl needs an open file, and an answer that is new is not in use. -/
def dmaBufMachine (H : Type*) [DecidableEq H] :
    Machine (DmaBufState H) (DmaBufOp H) (ℤ × Option DmaBufParam) where
  step s
    | .openFile h a b c =>
      (cedardevOpen s.lk h a b c).map fun r => ((r.1, none), { s with lk := r.2 })
    | .map compat h tgid user r copyOut =>
      if (s.lk.files h).isSome ∧ r.Fresh s then
        some (if compat then ioctlGetIommuAddr s h tgid user r copyOut
          else ioctlMapDmaBuf s h tgid user r copyOut)
      else none
    | .unmap compat h tgid user =>
      if (s.lk.files h).isSome then
        some (if compat then ioctlFreeIommuAddr s h tgid user else ioctlUnmapDmaBuf s h tgid user)
      else none
    | .closeFile h i =>
      (cedardevRelease s.lk h i).map fun r => ((r.1, none), { s with lk := r.2 })

end LonganPi.Ve
