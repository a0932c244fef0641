import LonganPi.Kernel
import LonganPi.Lib.Arena
import LonganPi.Lib.Words

/-!
# The two-level IO page table

`sunxi-iommu-pgtable.c`, with `sunxi_iommu_map` and `sunxi_iommu_unmap` of the driver above it. The
source is compiled for one of two layouts; here the layout is a parameter `g : Geometry`, and a
line that stands under `AW_IOMMU_PGTABLE_V2` is a branch on it. `sunxi-iommu-v1.c` is built with the
first layout and `sunxi-iommu-v2.c` with the second, so the parameter also tells the two drivers
apart, where they differ.

The page directory is an array of `u32`, indexed here. The second-level tables lie in physical
memory, a function from byte addresses to words; `__va` and `virt_to_phys` are the identity on
physical addresses and the dma syncs have no effect of their own. `tables` is the ledger of the
slab cache: which addresses it has handed out, and whether one was freed twice or accessed when it
was not live.

The slab cache's answers are an argument of `sunxi_iommu_map`, one for each table it may ask for.
`sunxi_iommu_unmap` also returns the stores and register writes it makes, in program order.
-/

open DriverLib

namespace LonganPi.Iommu

/-! ### Layouts -/

/-- `AW_IOMMU_PGTABLE_V1` or `AW_IOMMU_PGTABLE_V2`. -/
inductive Geometry
  | v1
  | v2
  deriving DecidableEq, Repr

def SUNXI_PHYS_OFFSET : ℕ := 0x40000000

def IOMMU_PT_SHIFT : ℕ := 12

def SPAGE_SIZE : ℕ := 4096

/-- `(u32)IOMMU_PT_MASK` -/
def IOMMU_PT_MASK : ℕ := 0xfffff000

def IOMMU_READ : ℕ := 1

def IOMMU_WRITE : ℕ := 2

namespace Geometry

variable (g : Geometry)

/-- `IOMMU_VA_BITS` -/
def vaBits : ℕ := match g with | v1 => 32 | v2 => 34

/-- `IOMMU_PD_SHIFT` -/
def pdShift : ℕ := match g with | v1 => 20 | v2 => 22

/-- `SPD_SIZE`, what one directory entry maps. -/
def spdSize : ℕ := 2 ^ g.pdShift

/-- `NUM_ENTRIES_PDE` -/
def numEntriesPde : ℕ := 2 ^ (g.vaBits - g.pdShift)

/-- `NUM_ENTRIES_PTE` -/
def numEntriesPte : ℕ := 2 ^ (g.pdShift - IOMMU_PT_SHIFT)

/-- `PT_SIZE` -/
def ptSize : ℕ := g.numEntriesPte * 4

/-- The number of address bits below the table alignment, `PT_SIZE = 1 << ptBits`. -/
def ptBits : ℕ := g.pdShift - IOMMU_PT_SHIFT + 2

/-- `iommu_phy_to_cpu_phy` -/
def iommuPhyToCpuPhy (iommuPhy : ℕ) : ℕ :=
  if iommuPhy < SUNXI_PHYS_OFFSET then iommuPhy + 2 ^ g.vaBits else iommuPhy

/-- `cpu_phy_to_iommu_phy` -/
def cpuPhyToIommuPhy (cpuPhy : ℕ) : ℕ :=
  if cpuPhy > 2 ^ g.vaBits then cpuPhy - 2 ^ g.vaBits else cpuPhy

/-- `IOPDE_INDEX` -/
def iopdeIndex (va : ℕ) : ℕ := (va >>> g.pdShift) &&& (g.numEntriesPde - 1)

/-- `IOPTE_INDEX` -/
def iopteIndex (va : ℕ) : ℕ := (va >>> IOMMU_PT_SHIFT) &&& (g.numEntriesPte - 1)

end Geometry

/-- `SPAGE_ALIGN` -/
def spageAlign (x : ℕ) : ℕ := clearLow IOMMU_PT_SHIFT (x + (SPAGE_SIZE - 1))

/-! ### Entries -/

/-- `IS_VALID` -/
def IsValid (dent : ℕ) : Prop := dent &&& 0x03 = 0x01

instance (dent : ℕ) : Decidable (IsValid dent) := inferInstanceAs (Decidable (_ = _))

section Entries

variable (g : Geometry)

/-- The table a directory entry points to: `iopte_offset` without the index. -/
def iopteBase (ent : ℕ) : ℕ :=
  let base := clearLow g.ptBits ent
  let base := match g with
    | .v1 => base
    | .v2 => base ||| ((ent &&& (0x3 <<< 8)) >>> 8) <<< 32
  g.iommuPhyToCpuPhy base

/-- `iopte_offset` -/
def iopteOffset (ent iova : ℕ) : ℕ := iopteBase g ent + 4 * g.iopteIndex iova

/-- The directory entry that `sunxi_alloc_iopte` stores for a table at `pent`. -/
def mkDent (pent : ℕ) : ℕ :=
  let sent := toU32 (g.cpuPhyToIommuPhy pent ||| 0x01)
  match g with
  | .v1 => sent
  | .v2 => toU32 (sent ||| (((pent >>> 32) <<< 8) &&& (0x3 <<< 8)))

/-- `sunxi_mk_pte` -/
def sunxiMkPte (page prot : ℕ) : ℕ :=
  let flags := (if prot &&& IOMMU_READ ≠ 0 then 0x4 else 0) |||
    (if prot &&& IOMMU_WRITE ≠ 0 then 0x8 else 0)
  let page := clearLow IOMMU_PT_SHIFT page
  let highAddr := match g with
    | .v1 => 0
    | .v2 => ((page >>> 32) <<< 8) &&& (0x3 <<< 8)
  toU32 (page ||| highAddr ||| flags ||| 0x2)

/-- `IOPTE_TO_PFN` -/
def iopteToPfn (pent : ℕ) : ℕ :=
  let low := clearLow IOMMU_PT_SHIFT pent
  match g with
  | .v1 => low
  | .v2 => low ||| ((pent &&& (0x3 <<< 8)) >>> 8) <<< 32

end Entries

/-! ### The table -/

/-- The page directory, the memory behind it and the slab cache. -/
structure PgState where
  -- the page directory, by index
  pd : ℕ → ℕ
  -- physical memory, by the byte address of a word
  mem : ℕ → ℕ
  -- the tables that are allocated, by physical address
  tables : Arena Unit

/-- An empty domain. -/
def PgState.init (mem : ℕ → ℕ) : PgState := ⟨fun _ => 0, mem, Arena.empty⟩

/-- What an unmap does to the table and to the hardware, one store or register write at a time. -/
inductive DrvStep
  -- the entry of the page at `va` is zeroed
  | clearPte (va : ℕ)
  -- directory entry `idx` is zeroed
  | clearPde (idx : ℕ)
  -- `sunxi_tlb_invalid` with the two register values of the range interface
  | tlbRange (start stop : ℕ)
  -- `sunxi_tlb_invalid` with the two register values of the address interface
  | tlbAddr (addr mask : ℕ)
  -- `sunxi_ptw_cache_invalid` with the two register values of the range interface
  | ptwRange (start stop : ℕ)
  -- `sunxi_ptw_cache_invalid` with the register value of the address interface
  | ptwAddr (addr : ℕ)
  deriving DecidableEq, Repr

section Table

variable (g : Geometry)

/-- `sunxi_alloc_iopte` for a table that the cache hands out zeroed at `pent`. -/
def sunxiAllocIopte (s : PgState) (idx pent : ℕ) : PgState :=
  { pd := Function.update s.pd idx (mkDent g pent)
    mem := storeWords s.mem pent (fun _ => 0) g.numEntriesPte
    tables := s.tables.alloc pent () }

theorem Geometry.spdSize_pos : 0 < g.spdSize := Nat.two_pow_pos _

/-- `sunxi_pgtable_prepare_l1_tables`; the list holds the answers of `kmem_cache_zalloc`. -/
def sunxiPgtablePrepareL1Tables (s : PgState) (iovaStart iovaEnd : ℕ)
    (allocs : List (Option ℕ)) : ℤ × PgState :=
  if iovaStart ≤ iovaEnd then
    let idx := g.iopdeIndex iovaStart
    if IsValid (s.pd idx) then
      sunxiPgtablePrepareL1Tables s (iovaStart + g.spdSize) iovaEnd allocs
    else match allocs with
      | some pent :: allocs =>
        sunxiPgtablePrepareL1Tables (sunxiAllocIopte g s idx pent) (iovaStart + g.spdSize)
          iovaEnd allocs
      | _ => (-ENOMEM, s)
  else (0, s)
termination_by iovaEnd + 1 - iovaStart
decreasing_by all_goals have := g.spdSize_pos; omega

/-- The part of `[iova_start, iova_end)` that lies under the first directory entry: the number of
its pages and its size. -/
def iovaTail (iovaStart iovaEnd : ℕ) : ℕ × ℕ :=
  let count := g.numEntriesPte - g.iopteIndex iovaStart
  let size := count * SPAGE_SIZE
  if iovaStart + size > iovaEnd then
    let size := toU32 (iovaEnd - iovaStart)
    (size / SPAGE_SIZE, size)
  else (count, size)

theorem Geometry.iopteIndex_eq (va : ℕ) : g.iopteIndex va = va / 4096 % g.numEntriesPte := by
  rw [Geometry.iopteIndex, Geometry.numEntriesPte, and_mask, Nat.shiftRight_eq_div_pow]
  rfl

/-- A part is not empty. -/
theorem iovaTail_pos {iovaStart iovaEnd : ℕ} (h : iovaStart < iovaEnd) :
    0 < (iovaTail g iovaStart iovaEnd).2 := by
  have hidx : g.iopteIndex iovaStart < g.numEntriesPte := by
    rw [g.iopteIndex_eq]
    exact Nat.mod_lt _ (Nat.two_pow_pos _)
  have hle : g.numEntriesPte ≤ 2 ^ 10 := by cases g <;> decide
  unfold iovaTail SPAGE_SIZE
  dsimp only
  split
  · next hgt =>
    rw [toU32_of_lt (by omega)]
    show 0 < iovaEnd - iovaStart
    omega
  · show 0 < (g.numEntriesPte - g.iopteIndex iovaStart) * 4096
    omega

theorem iovaTail_lt (iovaStart iovaEnd : ℕ) : (iovaTail g iovaStart iovaEnd).2 < 2 ^ 32 := by
  have hle : g.numEntriesPte ≤ 2 ^ 10 := by cases g <;> decide
  unfold iovaTail SPAGE_SIZE
  dsimp only
  split
  · exact toU32_lt _
  · show (g.numEntriesPte - g.iopteIndex iovaStart) * 4096 < 2 ^ 32
    omega

/-- The loop of `sunxi_pgtable_prepare_l2_tables`. -/
def prepareL2Loop (s : PgState) (iovaStart iovaEnd paddrStart prot : ℕ) : PgState :=
  if iovaStart < iovaEnd then
    let tail := iovaTail g iovaStart iovaEnd
    let dent := s.pd (g.iopdeIndex iovaStart)
    let pent := iopteOffset g dent iovaStart
    let pentVal := sunxiMkPte g paddrStart prot
    let s := { s with
      mem := storeWords s.mem pent (fun i => toU32 (pentVal + SPAGE_SIZE * i)) tail.1
      tables := s.tables.access (iopteBase g dent) }
    prepareL2Loop s (iovaStart + tail.2) iovaEnd (paddrStart + tail.2) prot
  else s
termination_by iovaEnd - iovaStart
decreasing_by have := iovaTail_pos g ‹iovaStart < iovaEnd›; omega

/-- `sunxi_pgtable_prepare_l2_tables` -/
def sunxiPgtablePrepareL2Tables (s : PgState) (iovaStart iovaEnd paddr prot : ℕ) : PgState :=
  let paddr := g.cpuPhyToIommuPhy paddr
  let paddrStart := clearLow IOMMU_PT_SHIFT paddr
  prepareL2Loop g s iovaStart iovaEnd paddrStart prot

/-- `sunxi_pgtable_delete_l2_tables`, with the stores it makes. -/
def sunxiPgtableDeleteL2Tables (s : PgState) (iovaStart iovaEnd : ℕ) :
    ℤ × PgState × List DrvStep :=
  let tail := iovaTail g iovaStart iovaEnd
  let idx := g.iopdeIndex iovaStart
  let dent := s.pd idx
  if ¬ IsValid dent then (-EINVAL, s, [])
  else
    let pent := iopteOffset g dent iovaStart
    let s := { s with
      mem := storeWords s.mem pent (fun _ => 0) tail.1
      tables := s.tables.access (iopteBase g dent) }
    let steps := (List.range tail.1).map fun i => .clearPte (iovaStart + SPAGE_SIZE * i)
    if tail.2 = g.spdSize then
      (tail.2,
        { s with pd := Function.update s.pd idx 0, tables := s.tables.free pent },
        steps ++ [.clearPde idx])
    else (tail.2, s, steps)

/-- `sunxi_pgtable_iova_to_phys` -/
def sunxiPgtableIovaToPhys (s : PgState) (iova : ℕ) : ℕ :=
  let dent := s.pd (g.iopdeIndex iova)
  if IsValid dent then
    let pent := s.mem (iopteOffset g dent iova)
    if pent ≠ 0 then g.iommuPhyToCpuPhy (iopteToPfn g pent + (iova &&& (SPAGE_SIZE - 1)))
    else 0
  else 0

/-- One turn of the loop of `sunxi_pgtable_clear`. -/
def clearEntry (s : PgState) (i : ℕ) : PgState :=
  let dent := s.pd i
  if IsValid dent then
    let pent := iopteOffset g dent (i <<< g.pdShift)
    { pd := Function.update s.pd i 0
      mem := storeWords s.mem pent (fun _ => 0) g.numEntriesPte
      tables := (s.tables.access (iopteBase g dent)).free pent }
  else s

/-- `sunxi_pgtable_clear` -/
def sunxiPgtableClear (s : PgState) : PgState :=
  (List.range g.numEntriesPde).foldl (clearEntry g) s

end Table

/-! ### The driver above it -/

/-- The hardware versions. -/
def IOMMU_VERSION_V10 : ℕ := 0x10
@[inherit_doc IOMMU_VERSION_V10] def IOMMU_VERSION_V11 : ℕ := 0x11
@[inherit_doc IOMMU_VERSION_V10] def IOMMU_VERSION_V12 : ℕ := 0x12
@[inherit_doc IOMMU_VERSION_V10] def IOMMU_VERSION_V13 : ℕ := 0x13
@[inherit_doc IOMMU_VERSION_V10] def IOMMU_VERSION_V14 : ℕ := 0x14

/-- `struct iommu_iotlb_gather`, as far as the driver uses it. -/
structure IotlbGather where
  start : ℕ
  stop : ℕ

section Driver

variable (g : Geometry)

/-- What is written for `iova` to the registers of a TLB range: the address, or its page number
(`IOMMU_TLB_IVLD_ADDR_ALIGN_SHIFT`). -/
def tlbRangeReg (iova : ℕ) : ℕ := match g with | .v1 => toU32 iova | .v2 => toU32 (iova >>> 12)

/-- What is written for `iova` to the registers of a page-walk range: the address, or the number of
its directory entry (`IOMMU_PC_IVLD_ADDR_ALIGN_SHIFT`). -/
def ptwRangeReg (iova : ℕ) : ℕ := match g with | .v1 => toU32 iova | .v2 => toU32 (iova >>> 22)

/-- `sunxi_tlb_invalid`: the register values it writes. -/
def sunxiTlbInvalid (version iova iovaMask : ℕ) : List DrvStep :=
  if version ≥ IOMMU_VERSION_V12 then [.tlbRange (tlbRangeReg g iova) (tlbRangeReg g iovaMask)]
  else [.tlbAddr (toU32 iova) (toU32 iovaMask)]

/-- `sunxi_ptw_cache_invalid`: the register values it writes. -/
def sunxiPtwCacheInvalid (version iovaStart iovaEnd : ℕ) : List DrvStep :=
  if version ≥ IOMMU_VERSION_V14 then
    [.ptwRange (ptwRangeReg g iovaStart) (ptwRangeReg g iovaEnd)]
  else [.ptwAddr (toU32 iovaStart)]

/-- `sunxi_iommu_map` -/
def sunxiIommuMap (s : PgState) (iova paddr size prot : ℕ) (allocs : List (Option ℕ)) :
    ℤ × PgState :=
  let iovaStart := clearLow IOMMU_PT_SHIFT iova
  let iovaEnd := spageAlign (iova + size)
  let r := sunxiPgtablePrepareL1Tables g s iovaStart iovaEnd allocs
  if r.1 ≠ 0 then (-ENOMEM, r.2)
  else (0, sunxiPgtablePrepareL2Tables g r.2 iovaStart iovaEnd paddr prot)

/-- A call of `sunxi_pgtable_delete_l2_tables` makes progress, also when it fails. -/
theorem deleteL2_ret_pos {iovaStart iovaEnd : ℕ} (h : iovaStart < iovaEnd) (s : PgState) :
    0 < intToU32 (sunxiPgtableDeleteL2Tables g s iovaStart iovaEnd).1 := by
  have hpos := iovaTail_pos g h
  have hlt := iovaTail_lt g iovaStart iovaEnd
  unfold sunxiPgtableDeleteL2Tables
  dsimp only
  have hsize : 0 < intToU32 ((iovaTail g iovaStart iovaEnd).2 : ℤ) := by
    rw [intToU32_natCast hlt]
    exact hpos
  by_cases hv : IsValid (s.pd (g.iopdeIndex iovaStart))
  · rw [if_neg (not_not_intro hv)]
    split
    · exact hsize
    · exact hsize
  · -- `-EINVAL` as an unsigned number
    rw [if_pos hv]
    show 0 < intToU32 (-EINVAL)
    decide

/-- The loop of `sunxi_iommu_unmap`. -/
def unmapLoop (version : ℕ) (s : PgState) (iovaStart iovaEnd : ℕ) : PgState × List DrvStep :=
  if iovaStart < iovaEnd then
    let r := sunxiPgtableDeleteL2Tables g s iovaStart iovaEnd
    let iovaTailSize := intToU32 r.1
    let ptw :=
      if version < IOMMU_VERSION_V14 then sunxiPtwCacheInvalid g version iovaStart 0 else []
    let rest := unmapLoop version r.2.1 (iovaStart + iovaTailSize) iovaEnd
    (rest.1, r.2.2 ++ ptw ++ rest.2)
  else (s, [])
termination_by iovaEnd - iovaStart
decreasing_by have := deleteL2_ret_pos g ‹iovaStart < iovaEnd› s; omega

/-- What `sunxi_iommu_unmap` returns and does. -/
structure UnmapResult where
  ret : ℕ
  state : PgState
  gather : IotlbGather
  steps : List DrvStep

/-- `sunxi_iommu_unmap` -/
def sunxiIommuUnmap (version : ℕ) (s : PgState) (gather : IotlbGather) (iova size : ℕ) :
    UnmapResult :=
  let iovaStart := clearLow IOMMU_PT_SHIFT iova
  let iovaEnd := spageAlign (iova + size)
  let gather : IotlbGather :=
    ⟨if gather.start > iovaStart then iovaStart else gather.start,
      if gather.stop < iovaEnd then iovaEnd else gather.stop⟩
  let tlb := if version ≥ IOMMU_VERSION_V12 then sunxiTlbInvalid g version iovaStart iovaEnd else []
  let ptw :=
    if version ≥ IOMMU_VERSION_V14 then sunxiPtwCacheInvalid g version iovaStart iovaEnd else []
  let r := unmapLoop g version s iovaStart iovaEnd
  ⟨size, r.1, gather, tlb ++ ptw ++ r.2⟩

end Driver

end LonganPi.Iommu
