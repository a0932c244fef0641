import LonganPi.Iommu.Tables
import Mathlib.Data.Nat.Bitwise

/-!
# The fault interrupt

`sunxi_iommu_irq` reads the interrupt status and the two registers of the page-table interrupts. It
prints the error of the first source in the status, and when bit 31 of the three registers together
is clear it reports the fault: `__ffs` of the low 16 bits is the master that the fault is put down
to, whose name is printed and whose callback is called. After that the caches are invalidated around
the address, and the interrupt is acknowledged.

The 16 bits are no test that there is a master. The status of a page-table interrupt is above them,
so nothing may be left for `__ffs`; and a bit may stand for more masters than there are entries in
`sunxi_iommu_fault_notify_cbs`. The report is in order exactly when one of the lowest bits of the
three registers is set, as many as there are entries (`fault_index_iff`).

`sunxi-iommu-v1.c` has one instance of the hardware, `sunxi-iommu-v2.c` has two, whose masters are
in one table. The handlers are one definition on an `Instance`. Registers are read once, and the
loops that wait for an invalidation are left out.
-/

open DriverLib

namespace LonganPi.Iommu

/-! ### The registers -/

/-- An instance of the hardware, and what the handler of its driver uses. -/
structure Instance where
  geometry : Geometry
  -- of its registers
  offset : ℕ
  -- the index of its first master in the tables
  base : ℕ
  -- the sizes of `plat_data->master` and of `sunxi_iommu_fault_notify_cbs`
  masters : ℕ
  callbacks : ℕ

def IOMMU_MIC_MAX_MASTER : ℕ := 6

def IOMMU_HW_SET_COUNT : ℕ := 2

def IOMMU_PER_SET_ADDR_SIZE : ℕ := 0x10000

def IOMMU_MIC_BASE_OFFSET : ℕ := 0x400

/-- The hardware of `sunxi-iommu-v1.c`. -/
def instanceV1 : Instance := ⟨.v1, 0, 0, 8, 7⟩

/-- The hardware of `sunxi-iommu-v2.c`. -/
def instanceV2 (index : ℕ) : Instance :=
  ⟨.v2, index * IOMMU_PER_SET_ADDR_SIZE, index * IOMMU_MIC_MAX_MASTER,
    IOMMU_MIC_MAX_MASTER * IOMMU_HW_SET_COUNT, IOMMU_HW_SET_COUNT * IOMMU_MIC_MAX_MASTER⟩

def IOMMU_RESET_REG : ℕ := 0x0010

def IOMMU_INT_CLR_REG : Geometry → ℕ | .v1 => 0x0104 | .v2 => 0x0084

def IOMMU_INT_STA_REG : Geometry → ℕ | .v1 => 0x0108 | .v2 => 0x0088

def IOMMU_L1PG_INT_REG : Geometry → ℕ | .v1 => 0x0180 | .v2 => 0x00b0

def IOMMU_L2PG_INT_REG : Geometry → ℕ | .v1 => 0x0184 | .v2 => 0x00b4

/-- The registers of the error address of a source: the masters, and 7 and 8 for the page tables.
The first driver has no high word. -/
def INT_ERR_ADDR_REG : Geometry → ℕ → ℕ × Option ℕ
  | .v1, 7 => (0x0130, none)
  | .v1, 8 => (0x0134, none)
  | .v1, n => (0x0110 + 4 * n, none)
  | .v2, 7 => (0x008C, some 0x0090)
  | .v2, 8 => (0x0094, some 0x0098)
  | .v2, n => (0x200 * n + 0x003c + IOMMU_MIC_BASE_OFFSET,
      some (0x200 * n + 0x0040 + IOMMU_MIC_BASE_OFFSET))

/-- The register of the error data of a source. -/
def INT_ERR_DATA_REG : Geometry → ℕ → ℕ
  | .v1, 7 => 0x0170
  | .v1, 8 => 0x0174
  | .v1, n => 0x0150 + 4 * n
  | .v2, 7 => 0x009C
  | .v2, 8 => 0x00a0
  | .v2, n => 0x200 * n + 0x0044 + IOMMU_MIC_BASE_OFFSET

/-! ### The handler -/

/-- `__ffs`, which is undefined for 0. -/
def ffs (undef word : ℕ) : ℕ := ((List.range 64).find? word.testBit).getD undef

/-- `sunxi_pgtable_invalid_helper` -/
def sunxiPgtableInvalidHelper (g : Geometry) (s : PgState) (iova : ℕ) : ℕ :=
  let dent := s.pd (g.iopdeIndex iova)
  if dent &&& 0x3 ≠ 0x1 then 1
  else if s.mem (iopteOffset g dent iova) &&& 0x2 = 0 then 1
  else 0

/-- What the handler prints. -/
inductive FaultMessage where
  -- "%s Invalid Authority", with the index of the name
  | invalidAuthority (master : ℕ)
  | l1PageTableInvalid
  | l2PageTableInvalid
  | intError
  -- "0x%pad is mapped!" or "0x%pad is not mapped!"
  | mapped (addr : ℕ) (isMapped : Bool)
  -- "Bug is in %s module, invalid address: 0x%x, data:0x%x, id:0x%x"
  | bugIn (master addr data id : ℕ)
  deriving DecidableEq, Repr

/-- What the fault-reporting branch computes. -/
structure FaultReport where
  -- the argument of `__ffs`
  ffsArg : ℕ
  masterId : ℕ
  -- of both tables
  index : ℕ
  deriving DecidableEq, Repr

/-- What the handler does. -/
structure IrqResult where
  printed : List FaultMessage
  -- `none` when the branch is not taken
  report : Option FaultReport
  -- the invalidations
  steps : List DrvStep
  -- the other writes, by register
  writes : List (ℕ × ℕ)

section Handler

variable (d : Instance) (version : ℕ) (s : PgState) (regs : ℕ → ℕ) (undef : ℕ)

/-- `int_masterid_bitmap` before it is cut to 16 bits -/
def intMasteridBitmap : ℕ :=
  regs (d.offset + IOMMU_INT_STA_REG d.geometry) &&& 0x3ffff |||
    regs (d.offset + IOMMU_L1PG_INT_REG d.geometry) |||
    regs (d.offset + IOMMU_L2PG_INT_REG d.geometry)

/-- The first source in the status: the seven masters, then the two page tables. -/
def errSource (status : ℕ) : Option ℕ :=
  ((List.range 7).find? status.testBit).or
    (if status.testBit 16 then some 7 else if status.testBit 17 then some 8 else none)

/-- `addr_reg` -/
def errAddr (n : ℕ) : ℕ :=
  let r := INT_ERR_ADDR_REG d.geometry n
  match r.2 with
  | none => regs (d.offset + r.1)
  | some high => regs (d.offset + r.1) ||| regs (d.offset + high) <<< 32

/-- What is printed about a source. It is OK to prefetch an invalid page. -/
def errMessage (prefetch : Bool) : Option ℕ → List FaultMessage
  | none => [.intError]
  | some 7 => if prefetch then [] else [.l1PageTableInvalid]
  | some 8 => if prefetch then [] else [.l2PageTableInvalid]
  | some n => [.invalidAuthority (d.base + n)]

/-- The fault-reporting branch. -/
def faultReport : Option FaultReport :=
  let bitmap := intMasteridBitmap d regs
  if ¬ bitmap.testBit 31 then
    let ffsArg := bitmap &&& 0xffff
    let masterId := ffs undef ffsArg
    some ⟨ffsArg, masterId, d.base + masterId⟩
  else none

/-- The invalidations around the address; `addr_reg` of the first driver has 32 bits. -/
def faultInvalidate (addr : ℕ) : List DrvStep :=
  let g := d.geometry
  (if version ≤ IOMMU_VERSION_V11 then
    [.tlbAddr (toU32 addr) IOMMU_PT_MASK, .tlbAddr (toU32 (addr + 0x2000)) IOMMU_PT_MASK]
  else [.tlbRange (tlbRangeReg g addr) (tlbRangeReg g (addr + 4 * SPAGE_SIZE))]) ++
  (if version ≤ IOMMU_VERSION_V13 then
    [.ptwAddr (toU32 addr), .ptwAddr (toU32 (addr + 0x200000))]
  else [.ptwRange (ptwRangeReg g addr) (ptwRangeReg g (addr + 2 * g.spdSize))])

/-- The handler of an instance. `undef` is what `__ffs` gives for 0. -/
def handleFault : IrqResult :=
  let status := regs (d.offset + IOMMU_INT_STA_REG d.geometry) &&& 0x3ffff
  let bitmap := intMasteridBitmap d regs
  let source := errSource status
  let addr := (source.map (errAddr d regs)).getD 0
  let data := (source.map fun n => regs (d.offset + INT_ERR_DATA_REG d.geometry n)).getD 0
  let report := faultReport d regs undef
  let reported := match report with
    | none => []
    | some r => [.mapped addr (sunxiPgtableInvalidHelper d.geometry s addr = 0),
        .bugIn r.index addr data r.ffsArg]
  { printed := errMessage d (bitmap.testBit 31) source ++ reported
    report := report
    steps := faultInvalidate d version addr
    writes := [(d.offset + IOMMU_INT_CLR_REG d.geometry, status),
      (d.offset + IOMMU_RESET_REG, 0xffffffff - (bitmap &&& 0xffff)),
      (d.offset + IOMMU_RESET_REG, 0xffffffff)] }

/-- `sunxi_iommu_irq` of `sunxi-iommu-v1.c` -/
def sunxiIommuIrqV1 : IrqResult := handleFault instanceV1 version s regs undef

/-- `__dump_int_from_one_instance` -/
def dumpIntFromOneInstance (index : ℕ) : IrqResult :=
  handleFault (instanceV2 index) version s regs undef

/-- `sunxi_iommu_irq` of `sunxi-iommu-v2.c`, with `iommu->irq[1]`. -/
def sunxiIommuIrqV2 (irq1 irq : ℤ) : IrqResult :=
  dumpIntFromOneInstance version s regs undef (if irq = irq1 then 1 else 0)

end Handler

/-! ### What a report should be -/

/-- There is something for `__ffs`, and both tables have an entry for the master. -/
structure FaultReport.InTables (r : FaultReport) (d : Instance) : Prop where
  ffs : r.ffsArg ≠ 0
  master : r.index < d.masters
  callback : r.index < d.callbacks

/-- One of the `n` lowest bits is set in one of the three registers. -/
def SourceBelow (n : ℕ) (d : Instance) (regs : ℕ → ℕ) : Prop :=
  ∃ i < n, (regs (d.offset + IOMMU_INT_STA_REG d.geometry)).testBit i ∨
    (regs (d.offset + IOMMU_L1PG_INT_REG d.geometry)).testBit i ∨
    (regs (d.offset + IOMMU_L2PG_INT_REG d.geometry)).testBit i

/-- A page-table interrupt says that a prefetch has caused it. The bit of the status is masked. -/
def Prefetched (d : Instance) (regs : ℕ → ℕ) : Prop :=
  (regs (d.offset + IOMMU_L1PG_INT_REG d.geometry)).testBit 31 ∨
    (regs (d.offset + IOMMU_L2PG_INT_REG d.geometry)).testBit 31

/-- "is mapped!" is printed about the addresses with a valid entry. -/
theorem sunxiPgtableInvalidHelper_eq_zero_iff (g : Geometry) (s : PgState) (iova : ℕ) :
    sunxiPgtableInvalidHelper g s iova = 0 ↔ pteAt g s iova &&& SUNXI_PTE_PAGE_VALID ≠ 0 := by
  unfold sunxiPgtableInvalidHelper pteAt
  dsimp only
  by_cases hv : IsValid (s.pd (g.iopdeIndex iova))
  · have hbits : ¬ s.pd (g.iopdeIndex iova) &&& 0x3 ≠ 0x1 := not_not_intro hv
    rw [slot_of_isValid hv, if_neg hbits]
    dsimp only
    split
    · next hzero => exact ⟨nofun, fun hne => absurd hzero hne⟩
    · next hne => exact ⟨fun _ => hne, fun _ => rfl⟩
  · have hbits : s.pd (g.iopdeIndex iova) &&& 0x3 ≠ 0x1 := hv
    rw [slot_eq_none.mpr hv, if_pos hbits]
    exact ⟨nofun, fun hne => absurd (Nat.zero_and _) hne⟩

/-- `__ffs` finds a bit below `n` when there is one. -/
theorem ffs_lt_iff (undef : ℕ) {word n : ℕ} (hword : word ≠ 0) (hlt : word < 2 ^ 64) :
    ffs undef word < n ↔ ∃ i < n, word.testBit i := by
  obtain ⟨k, hk⟩ := Nat.exists_testBit_of_ne_zero hword
  have hk64 : k < 64 := by
    by_contra hge
    have hpow : 2 ^ 64 ≤ 2 ^ k := Nat.pow_le_pow_right (by decide) (not_lt.mp hge)
    rw [Nat.testBit_lt_two_pow (hlt.trans_le hpow)] at hk
    exact nomatch hk
  obtain ⟨j, hj⟩ : ∃ j, (List.range 64).find? word.testBit = some j := by
    refine Option.isSome_iff_exists.mp (List.find?_isSome.mpr ?_)
    exact ⟨k, List.mem_range.mpr hk64, hk⟩
  obtain ⟨hbit, -, hfirst⟩ := List.find?_range_eq_some.mp hj
  have hffs : ffs undef word = j := congrArg (Option.getD · undef) hj
  rw [hffs]
  refine ⟨fun h => ⟨j, h, hbit⟩, fun ⟨i, hi, hibit⟩ => ?_⟩
  by_contra hle
  have hno := hfirst i (hi.trans_le (not_lt.mp hle))
  rw [hibit] at hno
  exact nomatch hno

/-- A bit of the bitmap is a bit of one of the registers. -/
theorem testBit_intMasteridBitmap (d : Instance) (regs : ℕ → ℕ) {i : ℕ} (hi : i < 18) :
    (intMasteridBitmap d regs).testBit i ↔
      (regs (d.offset + IOMMU_INT_STA_REG d.geometry)).testBit i ∨
      (regs (d.offset + IOMMU_L1PG_INT_REG d.geometry)).testBit i ∨
      (regs (d.offset + IOMMU_L2PG_INT_REG d.geometry)).testBit i := by
  have hmask : (0x3ffff : ℕ) = 2 ^ 18 - 1 := rfl
  unfold intMasteridBitmap
  rw [Nat.testBit_or, Nat.testBit_or, Nat.testBit_and, hmask, Nat.testBit_two_pow_sub_one,
    decide_eq_true hi, Bool.and_true, Bool.or_eq_true, Bool.or_eq_true, or_assoc]

/-- The branch is taken unless a prefetch has caused the interrupt. -/
theorem testBit_intMasteridBitmap_31 (d : Instance) (regs : ℕ → ℕ) :
    (intMasteridBitmap d regs).testBit 31 ↔ Prefetched d regs := by
  have hmask : (0x3ffff : ℕ) = 2 ^ 18 - 1 := rfl
  unfold intMasteridBitmap Prefetched
  rw [Nat.testBit_or, Nat.testBit_or, Nat.testBit_and, hmask, Nat.testBit_two_pow_sub_one,
    decide_eq_false (by decide), Bool.and_false, Bool.false_or, Bool.or_eq_true]

/-- The bits that `__ffs` looks at. -/
theorem testBit_and_ffff (bitmap i : ℕ) :
    (bitmap &&& 0xffff).testBit i ↔ i < 16 ∧ bitmap.testBit i := by
  have hmask : (0xffff : ℕ) = 2 ^ 16 - 1 := rfl
  rw [hmask, Nat.testBit_and, Nat.testBit_two_pow_sub_one, Bool.and_eq_true, decide_eq_true_iff,
    and_comm]

/-- The report of an instance whose tables have `n` entries from its first master on. -/
theorem report_inTables_iff {d : Instance} {n : ℕ} (hn : n ≤ 16)
    (hentries : ∀ m, d.base + m < d.masters ∧ d.base + m < d.callbacks ↔ m < n)
    (regs : ℕ → ℕ) (undef : ℕ) :
    (∀ r ∈ faultReport d regs undef, r.InTables d) ↔ Prefetched d regs ∨ SourceBelow n d regs := by
  unfold faultReport
  dsimp only
  by_cases hbit : (intMasteridBitmap d regs).testBit 31
  · rw [if_neg (not_not_intro hbit)]
    exact ⟨fun _ => Or.inl ((testBit_intMasteridBitmap_31 d regs).mp hbit), nofun⟩
  rw [if_pos hbit]
  have hprefetch : ¬ Prefetched d regs := fun h =>
    hbit ((testBit_intMasteridBitmap_31 d regs).mpr h)
  have hbelow : SourceBelow n d regs ↔
      ∃ i < n, (intMasteridBitmap d regs &&& 0xffff).testBit i := by
    refine exists_congr fun i => and_congr_right fun hi => ?_
    rw [testBit_and_ffff, testBit_intMasteridBitmap d regs (by omega)]
    exact (and_iff_right (hi.trans_le hn)).symm
  have hlt : intMasteridBitmap d regs &&& 0xffff < 2 ^ 64 :=
    Nat.and_le_right.trans_lt (by decide)
  rw [or_iff_right hprefetch, hbelow]
  constructor
  · intro h
    obtain ⟨hne, hmaster, hcallback⟩ := h _ rfl
    exact (ffs_lt_iff undef hne hlt).mp ((hentries _).mp ⟨hmaster, hcallback⟩)
  · intro hex r hr
    obtain rfl := Option.some.inj hr
    obtain ⟨i, -, hi⟩ := id hex
    have hne : intMasteridBitmap d regs &&& 0xffff ≠ 0 := by
      intro hzero
      rw [hzero, Nat.zero_testBit] at hi
      exact nomatch hi
    obtain ⟨hmaster, hcallback⟩ := (hentries _).mpr ((ffs_lt_iff undef hne hlt).mpr hex)
    exact ⟨hne, hmaster, hcallback⟩

/-- The entries of the first driver: the table of the callbacks is the shorter one. -/
theorem entries_v1 (m : ℕ) : instanceV1.base + m < instanceV1.masters ∧
    instanceV1.base + m < instanceV1.callbacks ↔ m < 7 := by
  show 0 + m < 8 ∧ 0 + m < 7 ↔ m < 7
  omega

/-- Behind the six masters of the first instance are those of the second. -/
theorem entries_v2_first (m : ℕ) : (instanceV2 0).base + m < (instanceV2 0).masters ∧
    (instanceV2 0).base + m < (instanceV2 0).callbacks ↔ m < 12 := by
  show 0 * 6 + m < 6 * 2 ∧ 0 * 6 + m < 2 * 6 ↔ m < 12
  omega

theorem entries_v2_second (m : ℕ) : (instanceV2 1).base + m < (instanceV2 1).masters ∧
    (instanceV2 1).base + m < (instanceV2 1).callbacks ↔ m < 6 := by
  show 1 * 6 + m < 6 * 2 ∧ 1 * 6 + m < 2 * 6 ↔ m < 6
  omega

/-- **The index of a fault.** The first driver reports a fault in order exactly when one of the
seven lowest bits of its registers is set or the interrupt is one of a prefetch. In the second
driver it is the twelve lowest bits for the first instance, and the six lowest for the second. -/
theorem fault_index_iff (version : ℕ) (s : PgState) (regs : ℕ → ℕ) (undef : ℕ) :
    ((∀ r ∈ (sunxiIommuIrqV1 version s regs undef).report, r.InTables instanceV1) ↔
      Prefetched instanceV1 regs ∨ SourceBelow 7 instanceV1 regs) ∧
    ∀ irq1 irq, let index := if irq = irq1 then 1 else 0
      ((∀ r ∈ (sunxiIommuIrqV2 version s regs undef irq1 irq).report,
        r.InTables (instanceV2 index)) ↔
      Prefetched (instanceV2 index) regs ∨
        SourceBelow (if irq = irq1 then 6 else 12) (instanceV2 index) regs) := by
  refine ⟨report_inTables_iff (by decide) entries_v1 regs undef, fun irq1 irq => ?_⟩
  dsimp only
  unfold sunxiIommuIrqV2
  by_cases h : irq = irq1
  · rw [if_pos h, if_pos h]
    exact report_inTables_iff (by decide) entries_v2_second regs undef
  · rw [if_neg h, if_neg h]
    exact report_inTables_iff (by decide) entries_v2_first regs undef

/-- The registers after a page-table fault of the master with bit 7, `DEBUG_MODE`. -/
def debugModeFault : ℕ → ℕ := fun r =>
  if r = IOMMU_INT_STA_REG .v1 then 0x10000 else if r = IOMMU_L1PG_INT_REG .v1 then 0x80 else 0

/-- There is a name for the eighth master, and no callback. -/
theorem debug_mode_has_no_callback :
    ¬ ∀ version s regs undef, ∀ r ∈ (sunxiIommuIrqV1 version s regs undef).report,
      r.InTables instanceV1 := by
  intro hall
  have hreport : faultReport instanceV1 debugModeFault 0 = some ⟨0x80, 7, 7⟩ := by decide
  have hin := hall IOMMU_VERSION_V14 (PgState.init fun _ => 0) debugModeFault 0 _ hreport
  exact absurd hin.callback (by decide)

end LonganPi.Iommu
