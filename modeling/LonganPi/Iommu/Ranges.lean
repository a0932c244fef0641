import LonganPi.Iommu.Tlb

/-!
# The ranges that are invalidated

`sunxi_iommu_unmap` and `sunxi_zap_tlb` write addresses at and around the range to registers. Those
of `sunxi-iommu-v1.c` hold 32 bits of an address, and so do the address registers of
`sunxi-iommu-v2.c`; its range registers hold the number of a page or of a directory entry. From
version 12 on the TLB is invalidated by ranges, from version 14 on the page-walk cache as well.

`sunxi_zap_tlb` reaches beyond the range: by eight pages, and by one or two directory entries. It
also goes back by one directory entry from the end. So the registers get what was meant only if the
range keeps a distance from the top, which depends on the version, and, from version 14 on, from the
bottom. The second driver rounds both ends of a page-walk range down, so that the last directory
entry of a range is missed unless the range ends where that entry does (`ranges_iff`).

`zapCalls` has the operands of `sunxi_zap_tlb` as integers, before they wrap and before they go to a
register; `sunxiZapTlb_eq` says that they are those of the code.
-/

open DriverLib

namespace LonganPi.Iommu

/-! ### Operands -/

/-- A call in `sunxi_zap_tlb`, with its operands as integers. -/
inductive ZapCall
  | tlb (iova iovaMask : ℤ)
  | ptw (iovaStart iovaEnd : ℤ)

/-- The calls of `sunxi_zap_tlb`. -/
def zapCalls (g : Geometry) (version : ℕ) (iova size : ℤ) : List ZapCall :=
  if version ≤ IOMMU_VERSION_V11 then
    [.tlb iova IOMMU_PT_MASK, .tlb (iova + SPAGE_SIZE) IOMMU_PT_MASK,
      .tlb (iova + size) IOMMU_PT_MASK, .tlb (iova + size + SPAGE_SIZE) IOMMU_PT_MASK,
      .ptw iova 0, .ptw (iova + g.spdSize) 0, .ptw (iova + size) 0,
      .ptw (iova + size + g.spdSize) 0]
  else if version ≤ IOMMU_VERSION_V13 then
    [.tlb iova (iova + 2 * SPAGE_SIZE),
      .tlb (iova + size - SPAGE_SIZE) (iova + size + 8 * SPAGE_SIZE),
      .ptw iova 0, .ptw (iova + size) 0, .ptw (iova + g.spdSize) 0,
      .ptw (iova + size + g.spdSize) 0, .ptw (iova + size + 2 * g.spdSize) 0]
  else
    [.tlb iova (iova + 2 * SPAGE_SIZE),
      .tlb (iova + size - SPAGE_SIZE) (iova + size + 8 * SPAGE_SIZE),
      .ptw iova (iova + g.spdSize), .ptw (iova + size - g.spdSize) (iova + size)]

/-- Conversion to `unsigned long`. -/
def toU64 (x : ℤ) : ℕ := (x % 2 ^ 64).toNat

/-- What a call writes. -/
def ZapCall.steps (g : Geometry) (version : ℕ) : ZapCall → List DrvStep
  | .tlb iova iovaMask => sunxiTlbInvalid g version (toU64 iova) (toU64 iovaMask)
  | .ptw iovaStart iovaEnd => sunxiPtwCacheInvalid g version (toU64 iovaStart) (toU64 iovaEnd)

/-- An address in a register of 32 bits. -/
def AddrFits (x : ℤ) : Prop := 0 ≤ x ∧ x < 2 ^ 32

/-- An end of a range, in a register of 32 bits or as a number of the second layout. -/
def EndFits (g : Geometry) (x : ℤ) : Prop :=
  0 ≤ x ∧ match g with
    | .v1 => x < 2 ^ 32
    | .v2 => x ≤ 2 ^ 34

/-- The operands of the call that are written do not wrap. -/
def ZapCall.Fits (g : Geometry) (version : ℕ) : ZapCall → Prop
  | .tlb iova iovaMask =>
    if version ≥ IOMMU_VERSION_V12 then EndFits g iova ∧ EndFits g iovaMask else AddrFits iova
  | .ptw iovaStart iovaEnd =>
    if version ≥ IOMMU_VERSION_V14 then EndFits g iovaStart ∧ EndFits g iovaEnd
    else AddrFits iovaStart

/-- An operand in the range of `unsigned long` is as it is. -/
theorem toU64_of_eq {x : ℤ} {n : ℕ} (hx : x = n) (hn : n < 2 ^ 64) : toU64 x = n := by
  unfold toU64
  omega

/-- Going back from the end is the subtraction of the code, with its wrap. -/
theorem toU64_sub {a b : ℕ} (ha : a < 2 ^ 64) (hb : b ≤ 2 ^ 64) :
    toU64 ((a : ℤ) - b) = subU64 a b := by
  unfold toU64 subU64
  omega

/-- The operands are those of the code. -/
theorem sunxiZapTlb_eq {g : Geometry} {version iova size : ℕ}
    (h : iova + size ≤ 2 ^ g.vaBits) : sunxiZapTlb g version iova size =
      (zapCalls g version iova size).flatMap (ZapCall.steps g version) := by
  have hva : 2 ^ g.vaBits ≤ 2 ^ 34 := Nat.pow_le_pow_right Nat.two_pos (by cases g <;> decide)
  have hspd : g.spdSize ≤ 2 ^ 22 := Nat.pow_le_pow_right Nat.two_pos (by cases g <;> decide)
  have hpage : SPAGE_SIZE = 4096 := rfl
  have hstart : toU64 iova = iova := toU64_of_eq rfl (by omega)
  have hend : toU64 (iova + size) = iova + size := toU64_of_eq rfl (by omega)
  have hpde : toU64 (iova + g.spdSize) = iova + g.spdSize := toU64_of_eq rfl (by omega)
  unfold sunxiZapTlb zapCalls
  -- up to version 11: the range and what follows it, by single addresses
  split
  · have hmask : toU64 IOMMU_PT_MASK = IOMMU_PT_MASK := toU64_of_eq rfl (by decide)
    have hzero : toU64 0 = 0 := rfl
    have hone : toU64 (iova + SPAGE_SIZE) = iova + SPAGE_SIZE := toU64_of_eq rfl (by omega)
    have hendOne : toU64 (iova + size + SPAGE_SIZE) = iova + size + SPAGE_SIZE :=
      toU64_of_eq rfl (by omega)
    have hendPde : toU64 (iova + size + g.spdSize) = iova + size + g.spdSize :=
      toU64_of_eq rfl (by omega)
    simp only [List.flatMap_cons, List.flatMap_nil, ZapCall.steps, List.append_assoc,
      List.append_nil, hmask, hzero, hstart, hend, hpde, hone, hendOne, hendPde]
  · have htwo : toU64 (iova + 2 * SPAGE_SIZE) = iova + 2 * SPAGE_SIZE :=
      toU64_of_eq rfl (by omega)
    have hback : toU64 (iova + size - SPAGE_SIZE) = subU64 (iova + size) SPAGE_SIZE :=
      toU64_sub (a := iova + size) (by omega) (by decide)
    have height : toU64 (iova + size + 8 * SPAGE_SIZE) = iova + size + 8 * SPAGE_SIZE :=
      toU64_of_eq rfl (by omega)
    -- versions 12 and 13: TLB ranges, and page-walk entries by single addresses
    split
    · have hzero : toU64 0 = 0 := rfl
      have hendPde : toU64 (iova + size + g.spdSize) = iova + size + g.spdSize :=
        toU64_of_eq rfl (by omega)
      have hendTwo : toU64 (iova + size + 2 * g.spdSize) = iova + size + 2 * g.spdSize :=
        toU64_of_eq rfl (by omega)
      simp only [List.flatMap_cons, List.flatMap_nil, ZapCall.steps, List.append_assoc,
        List.append_nil, hzero, hstart, hend, hpde, htwo, hback, height, hendPde, hendTwo]
    · -- from version 14 on, ranges for both
      have hbackPde : toU64 (iova + size - g.spdSize) = subU64 (iova + size) g.spdSize :=
        toU64_sub (a := iova + size) (by omega) (by omega)
      simp only [List.flatMap_cons, List.flatMap_nil, ZapCall.steps, List.append_assoc,
        List.append_nil, hstart, hend, hpde, htwo, hback, height, hbackPde]

/-! ### The specification -/

/-- A range starts before it ends. -/
def DrvStep.Ordered : DrvStep → Prop
  | .tlbRange start stop => start < stop
  | .ptwRange start stop => start < stop
  | _ => True

/-- The step removes the TLB entry of page number `q`. -/
def DrvStep.CoversPage (g : Geometry) (st : DrvStep) (q : ℕ) : Prop :=
  match g, st with
  | .v1, st => st.CoversTlb q
  | .v2, .tlbRange start stop => start ≤ q ∧ q < stop
  | .v2, _ => False

/-- The step removes the page-walk entry of directory entry `d`. -/
def DrvStep.CoversPde (g : Geometry) (st : DrvStep) (d : ℕ) : Prop :=
  match g, st with
  | .v1, st => st.CoversPtw d
  | .v2, .ptwRange start stop => start ≤ d ∧ d < stop
  | .v2, _ => False

/-- What is asked of the invalidations for `[iova, iova + size)`. -/
structure RangesOk (g : Geometry) (version iova size : ℕ) : Prop where
  unmapOrdered : ∀ s gather, ∀ st ∈ (sunxiIommuUnmap g version s gather iova size).steps, st.Ordered
  zapOrdered : ∀ st ∈ sunxiZapTlb g version iova size, st.Ordered
  pages : version ≥ IOMMU_VERSION_V12 → ∀ s gather va, iova ≤ va → va < iova + size →
    ∃ st ∈ (sunxiIommuUnmap g version s gather iova size).steps, st.CoversPage g (va / 4096)
  pdes : version ≥ IOMMU_VERSION_V14 → ∀ s gather va, iova ≤ va → va < iova + size →
    ∃ st ∈ (sunxiIommuUnmap g version s gather iova size).steps, st.CoversPde g (va / g.spdSize)
  zapFits : ∀ c ∈ zapCalls g version iova size, c.Fits g version

/-- Where the range has to lie. -/
def RangesFit (g : Geometry) (version iova size : ℕ) : Prop :=
  if version ≤ IOMMU_VERSION_V11 then iova + size + g.spdSize < 2 ^ 32
  else if version ≤ IOMMU_VERSION_V13 then iova + size + 2 * g.spdSize < 2 ^ 32
  else match g with
    | .v1 => iova + size + 8 * SPAGE_SIZE < 2 ^ 32 ∧ iova + g.spdSize < 2 ^ 32 ∧
        g.spdSize ≤ iova + size
    | .v2 => iova + size + 8 * SPAGE_SIZE ≤ 2 ^ 34 ∧ g.spdSize ∣ iova + size

instance (g : Geometry) (version iova size : ℕ) : Decidable (RangesFit g version iova size) := by
  unfold RangesFit
  cases g <;> infer_instance

/-! ### The registers -/

section Registers

variable {g : Geometry} {x y : ℕ}

/-- An end that fits is in the TLB range register as it is, or as its page number. -/
theorem EndFits.tlbRangeReg_eq (hx : EndFits g x) :
    tlbRangeReg g x = match g with | .v1 => x | .v2 => x / 4096 := by
  obtain ⟨-, hx⟩ := hx
  cases g with
  | v1 => exact toU32_of_lt (Int.ofNat_lt.mp hx)
  | v2 =>
    change (x : ℤ) ≤ 2 ^ 34 at hx
    show toU32 (x >>> 12) = x / 4096
    rw [Nat.shiftRight_eq_div_pow]
    exact toU32_of_lt (by omega)

/-- In the page-walk range register, it is there as the number of its directory entry. -/
theorem EndFits.ptwRangeReg_eq (hx : EndFits g x) :
    ptwRangeReg g x = match g with | .v1 => x | .v2 => x / 4194304 := by
  obtain ⟨-, hx⟩ := hx
  cases g with
  | v1 => exact toU32_of_lt (Int.ofNat_lt.mp hx)
  | v2 =>
    change (x : ℤ) ≤ 2 ^ 34 at hx
    show toU32 (x >>> 22) = x / 4194304
    rw [Nat.shiftRight_eq_div_pow]
    exact toU32_of_lt (by omega)

/-- Two addresses that fit and do not share a page. -/
theorem tlbRangeReg_lt (hx : EndFits g x) (hy : EndFits g y) (h : x / 4096 < y / 4096) :
    tlbRangeReg g x < tlbRangeReg g y := by
  rw [hx.tlbRangeReg_eq, hy.tlbRangeReg_eq]
  cases g with
  | v1 =>
    show x < y
    omega
  | v2 => exact h

/-- Two addresses that fit, one above the other and with the second layout under a later directory
entry. -/
theorem ptwRangeReg_lt (hx : EndFits g x) (hy : EndFits g y) (hlt : x < y)
    (h : g = .v2 → x / 4194304 < y / 4194304) : ptwRangeReg g x < ptwRangeReg g y := by
  rw [hx.ptwRangeReg_eq, hy.ptwRangeReg_eq]
  cases g with
  | v1 => exact hlt
  | v2 => exact h rfl

end Registers

/-! ### The steps -/

section Steps

variable {g : Geometry} {version a b x y : ℕ}

/-- Only from version 12 on is there a TLB range whose ends could be out of order. -/
theorem ordered_tlb (h : version ≥ IOMMU_VERSION_V12 → tlbRangeReg g x < tlbRangeReg g y) :
    ∀ st ∈ sunxiTlbInvalid g version x y, st.Ordered := by
  intro st hst
  unfold sunxiTlbInvalid at hst
  split at hst
  · next hv =>
    rw [List.mem_singleton.mp hst]
    exact h hv
  · rw [List.mem_singleton.mp hst]
    trivial

/-- A page-walk range there is from version 14 on. -/
theorem ordered_ptw (h : version ≥ IOMMU_VERSION_V14 → ptwRangeReg g x < ptwRangeReg g y) :
    ∀ st ∈ sunxiPtwCacheInvalid g version x y, st.Ordered := by
  intro st hst
  unfold sunxiPtwCacheInvalid at hst
  split at hst
  · next hv =>
    rw [List.mem_singleton.mp hst]
    exact h hv
  · rw [List.mem_singleton.mp hst]
    trivial

/-- The steps of the loop program no range. -/
def DrvStep.InLoop (version : ℕ) (st : DrvStep) : Prop :=
  (∃ va, st = .clearPte va) ∨ (∃ d, st = .clearPde d) ∨
    version < IOMMU_VERSION_V14 ∧ ∃ addr, st = .ptwAddr addr

/-- Clearing the tables of a stretch clears entries, and at most its directory entry. -/
theorem inLoop_deleteL2 {s : PgState} {st : DrvStep}
    (h : st ∈ (sunxiPgtableDeleteL2Tables g s a b).2.2) : st.InLoop version := by
  unfold sunxiPgtableDeleteL2Tables at h
  dsimp only at h
  have hpte : ∀ n, st ∈ (List.range n).map (fun i => DrvStep.clearPte (a + SPAGE_SIZE * i)) →
      st.InLoop version := by
    intro n hmem
    obtain ⟨i, -, rfl⟩ := List.mem_map.mp hmem
    exact Or.inl ⟨_, rfl⟩
  split at h
  · cases h
  · split at h
    · rcases List.mem_append.mp h with h | h
      · exact hpte _ h
      · exact Or.inr (Or.inl ⟨_, List.mem_singleton.mp h⟩)
    · exact hpte _ h

/-- So does each turn of the loop, which before version 14 also invalidates one page-walk entry. -/
theorem inLoop_unmapLoop {s : PgState} {st : DrvStep}
    (h : st ∈ (unmapLoop g version s a b).2) : st.InLoop version := by
  fun_induction unmapLoop g version s a b with
  | case1 s a hlt r tailSize ptw rest ih =>
    rcases List.mem_append.mp h with h | h
    · rcases List.mem_append.mp h with h | h
      · exact inLoop_deleteL2 h
      · change st ∈ if version < IOMMU_VERSION_V14 then _ else _ at h
        split at h
        · next hv =>
          rw [sunxiPtwCacheInvalid, if_neg (Nat.not_le.mpr hv)] at h
          exact Or.inr (Or.inr ⟨hv, _, List.mem_singleton.mp h⟩)
        · cases h
    · exact ih h
  | case2 s a hge => cases h

/-- None of these is a range. -/
theorem DrvStep.InLoop.ordered {st : DrvStep} (h : st.InLoop version) : st.Ordered := by
  rcases h with ⟨va, rfl⟩ | ⟨d, rfl⟩ | ⟨-, addr, rfl⟩
  · trivial
  · trivial
  · trivial

/-- The steps of an unmap: the invalidations up front, and the loop. -/
theorem unmap_steps {iova size : ℕ} (ha : 4096 ∣ iova) (hb : 4096 ∣ iova + size) (s : PgState)
    (gather : IotlbGather) : (sunxiIommuUnmap g version s gather iova size).steps =
      (if version ≥ IOMMU_VERSION_V12 then sunxiTlbInvalid g version iova (iova + size) else []) ++
      (if version ≥ IOMMU_VERSION_V14 then sunxiPtwCacheInvalid g version iova (iova + size)
        else []) ++
      (unmapLoop g version s iova (iova + size)).2 := by
  unfold sunxiIommuUnmap
  dsimp only
  rw [clearLow_of_dvd (k := IOMMU_PT_SHIFT) ha, spageAlign_of_dvd hb]

end Steps

/-! ### Ranges that fit -/

section Fit

variable {g : Geometry} {version iova size : ℕ}

theorem not_le_v11 (hv : version ≥ IOMMU_VERSION_V12) : ¬version ≤ IOMMU_VERSION_V11 :=
  Nat.not_le.mpr hv

theorem not_le_v13 (hv : version ≥ IOMMU_VERSION_V14) : ¬version ≤ IOMMU_VERSION_V13 :=
  Nat.not_le.mpr hv

theorem v12_of_v14 (hv : version ≥ IOMMU_VERSION_V14) : version ≥ IOMMU_VERSION_V12 :=
  (by decide : IOMMU_VERSION_V12 ≤ IOMMU_VERSION_V14).trans hv

/-- Where a range has to lie from version 14 on. -/
theorem rangesFit_of_ge (hv : version ≥ IOMMU_VERSION_V14) : RangesFit g version iova size ↔
    match g with
    | .v1 => iova + size + 8 * SPAGE_SIZE < 2 ^ 32 ∧ iova + g.spdSize < 2 ^ 32 ∧
        g.spdSize ≤ iova + size
    | .v2 => iova + size + 8 * SPAGE_SIZE ≤ 2 ^ 34 ∧ g.spdSize ∣ iova + size := by
  unfold RangesFit
  rw [if_neg (not_le_v11 (v12_of_v14 hv)), if_neg (not_le_v13 hv)]

theorem endFits_v1 {x : ℕ} (h : x < 2 ^ 32) : EndFits .v1 x :=
  ⟨Int.natCast_nonneg x, by exact_mod_cast h⟩

theorem endFits_v2 {x : ℕ} (h : x ≤ 2 ^ 34) : EndFits .v2 x :=
  ⟨Int.natCast_nonneg x, by exact_mod_cast h⟩

/-- The ends of a range that fits. -/
theorem RangesFit.ends (h : RangesFit g version iova size) (hv : version ≥ IOMMU_VERSION_V12) :
    EndFits g iova ∧ EndFits g ((iova + size : ℕ) : ℤ) := by
  unfold RangesFit at h
  rw [if_neg (not_le_v11 hv)] at h
  cases g with
  | v1 =>
    have hlt : iova + size < 2 ^ 32 := by
      split at h
      · exact (Nat.le_add_right _ _).trans_lt h
      · exact (Nat.le_add_right _ _).trans_lt h.1
    exact ⟨endFits_v1 ((Nat.le_add_right _ _).trans_lt hlt), endFits_v1 hlt⟩
  | v2 =>
    have hle : iova + size ≤ 2 ^ 34 := by
      split at h
      · omega
      · exact (Nat.le_add_right _ _).trans h.1
    exact ⟨endFits_v2 ((Nat.le_add_right _ _).trans hle), endFits_v2 hle⟩

theorem endFits_v1_iff {x : ℤ} : EndFits .v1 x ↔ 0 ≤ x ∧ x < 2 ^ 32 := Iff.rfl

theorem endFits_v2_iff {x : ℤ} : EndFits .v2 x ↔ 0 ≤ x ∧ x ≤ 2 ^ 34 := Iff.rfl

/-- The operands up to version 11. -/
theorem zapFits_iff_of_le (hv : version ≤ IOMMU_VERSION_V11) (hpos : 0 < size) :
    (∀ c ∈ zapCalls g version iova size, c.Fits g version) ↔
      iova + size + g.spdSize < 2 ^ 32 := by
  have h12 : ¬version ≥ IOMMU_VERSION_V12 := Nat.not_le.mpr (Nat.lt_succ_of_le hv)
  have h14 : ¬version ≥ IOMMU_VERSION_V14 := fun h14 => h12 (v12_of_v14 h14)
  have hspd : SPAGE_SIZE ≤ g.spdSize := by cases g <;> decide
  unfold zapCalls
  rw [if_pos hv]
  simp only [List.forall_mem_cons, List.not_mem_nil, false_imp_iff, implies_true, and_true,
    ZapCall.Fits, if_neg h12, if_neg h14, AddrFits]
  omega

/-- The operands of versions 12 and 13. -/
theorem zapFits_iff_of_le_of_ge (h12 : version ≥ IOMMU_VERSION_V12)
    (hv : version ≤ IOMMU_VERSION_V13) (hsize : SPAGE_SIZE ≤ size) :
    (∀ c ∈ zapCalls g version iova size, c.Fits g version) ↔
      iova + size + 2 * g.spdSize < 2 ^ 32 := by
  have h14 : ¬version ≥ IOMMU_VERSION_V14 := Nat.not_le.mpr (Nat.lt_succ_of_le hv)
  unfold zapCalls
  rw [if_neg (not_le_v11 h12), if_pos hv]
  simp only [List.forall_mem_cons, List.not_mem_nil, false_imp_iff, implies_true, and_true,
    ZapCall.Fits, if_pos h12, if_neg h14, AddrFits]
  cases g with
  | v1 =>
    simp only [endFits_v1_iff, Geometry.spdSize_v1, SPAGE_SIZE] at hsize ⊢
    omega
  | v2 =>
    simp only [endFits_v2_iff, Geometry.spdSize_v2, SPAGE_SIZE] at hsize ⊢
    omega

/-- The operands from version 14 on. -/
theorem zapFits_iff_of_ge (h14 : version ≥ IOMMU_VERSION_V14) :
    (∀ c ∈ zapCalls g version iova size, c.Fits g version) ↔
      g.spdSize ≤ iova + size ∧ match g with
        | .v1 => iova + size + 8 * SPAGE_SIZE < 2 ^ 32 ∧ iova + g.spdSize < 2 ^ 32
        | .v2 => iova + size + 8 * SPAGE_SIZE ≤ 2 ^ 34 ∧ iova + g.spdSize ≤ 2 ^ 34 := by
  unfold zapCalls
  rw [if_neg (not_le_v11 (v12_of_v14 h14)), if_neg (not_le_v13 h14)]
  simp only [List.forall_mem_cons, List.not_mem_nil, false_imp_iff, implies_true, and_true,
    ZapCall.Fits, if_pos (v12_of_v14 h14), if_pos h14]
  cases g with
  | v1 =>
    simp only [endFits_v1_iff, Geometry.spdSize_v1, SPAGE_SIZE]
    omega
  | v2 =>
    simp only [endFits_v2_iff, Geometry.spdSize_v2, SPAGE_SIZE]
    omega

/-- **The operands of `sunxi_zap_tlb` fit** when the range does. -/
theorem RangesFit.zapFits (h : RangesFit g version iova size) (hsize : SPAGE_SIZE ≤ size) :
    ∀ c ∈ zapCalls g version iova size, c.Fits g version := by
  by_cases h11 : version ≤ IOMMU_VERSION_V11
  · rw [zapFits_iff_of_le h11 (Nat.zero_lt_of_lt hsize)]
    unfold RangesFit at h
    rwa [if_pos h11] at h
  · have h12 : version ≥ IOMMU_VERSION_V12 := Nat.not_le.mp h11
    by_cases h13 : version ≤ IOMMU_VERSION_V13
    · rw [zapFits_iff_of_le_of_ge h12 h13 hsize]
      unfold RangesFit at h
      rwa [if_neg h11, if_pos h13] at h
    · have h14 : version ≥ IOMMU_VERSION_V14 := Nat.not_le.mp h13
      rw [zapFits_iff_of_ge h14]
      rw [rangesFit_of_ge h14] at h
      cases g with
      | v1 => exact ⟨h.2.2, h.1, h.2.1⟩
      | v2 =>
        -- an end that is a multiple of a directory entry, and not 0, is at least one entry up
        obtain ⟨htop, n, hn⟩ := h
        simp only [Geometry.spdSize_v2, SPAGE_SIZE] at *
        omega

/-- The range of the call is at least a page or a directory entry wide. -/
def ZapCall.Wide (g : Geometry) (version : ℕ) : ZapCall → Prop
  | .tlb iova iovaMask => version ≥ IOMMU_VERSION_V12 → iova + SPAGE_SIZE ≤ iovaMask
  | .ptw iovaStart iovaEnd => version ≥ IOMMU_VERSION_V14 → iovaStart + g.spdSize ≤ iovaEnd

/-- The calls of `sunxi_zap_tlb` are wide enough: two pages from the start, nine pages around the
end, and a directory entry at either side. -/
theorem wide_zapCalls (g : Geometry) (version iova size : ℕ) :
    ∀ c ∈ zapCalls g version iova size, c.Wide g version := by
  unfold zapCalls
  split
  · next h11 =>
    have h12 : ¬version ≥ IOMMU_VERSION_V12 := Nat.not_le.mpr (Nat.lt_succ_of_le h11)
    have h14 : ¬version ≥ IOMMU_VERSION_V14 := fun hv => h12 (v12_of_v14 hv)
    simp only [List.forall_mem_cons, List.not_mem_nil, false_imp_iff, implies_true, and_true,
      ZapCall.Wide, h12, h14]
  · split
    · next h13 =>
      have h14 : ¬version ≥ IOMMU_VERSION_V14 := Nat.not_le.mpr (Nat.lt_succ_of_le h13)
      simp only [List.forall_mem_cons, List.not_mem_nil, false_imp_iff, implies_true, and_true,
        ZapCall.Wide, h14]
      omega
    · simp only [List.forall_mem_cons, List.not_mem_nil, false_imp_iff, implies_true, and_true,
        ZapCall.Wide]
      omega

/-- An end that fits is a natural number, and the same one as `unsigned long`. -/
theorem EndFits.exists_nat {x : ℤ} (h : EndFits g x) : ∃ n : ℕ, x = n ∧ toU64 x = n := by
  obtain ⟨n, rfl⟩ := Int.eq_ofNat_of_zero_le h.1
  refine ⟨n, rfl, toU64_of_eq rfl ?_⟩
  cases g with
  | v1 =>
    rw [endFits_v1_iff] at h
    omega
  | v2 =>
    rw [endFits_v2_iff] at h
    omega

/-- A wide range that fits starts before it ends, also in the registers. -/
theorem ZapCall.ordered {c : ZapCall} (hfits : c.Fits g version) (hwide : c.Wide g version) :
    ∀ st ∈ c.steps g version, st.Ordered := by
  cases c with
  | tlb x y =>
    refine ordered_tlb fun hv => ?_
    rw [ZapCall.Fits, if_pos hv] at hfits
    obtain ⟨hx, hy⟩ := hfits
    have hlt := hwide hv
    obtain ⟨n, rfl, hn⟩ := hx.exists_nat
    obtain ⟨m, rfl, hm⟩ := hy.exists_nat
    rw [hn, hm]
    unfold SPAGE_SIZE at hlt
    exact tlbRangeReg_lt hx hy (by omega)
  | ptw x y =>
    refine ordered_ptw fun hv => ?_
    rw [ZapCall.Fits, if_pos hv] at hfits
    obtain ⟨hx, hy⟩ := hfits
    have hlt := hwide hv
    obtain ⟨n, rfl, hn⟩ := hx.exists_nat
    obtain ⟨m, rfl, hm⟩ := hy.exists_nat
    rw [hn, hm]
    have hspd := g.spdSize_pos
    -- ends a directory entry apart are under different directory entries
    refine ptwRangeReg_lt hx hy (by omega) ?_
    rintro rfl
    rw [Geometry.spdSize_v2] at hlt
    omega

/-- The ranges of `sunxi_zap_tlb` start before they end. -/
theorem RangesFit.zapOrdered (h : RangesFit g version iova size) (hsize : SPAGE_SIZE ≤ size)
    (hin : iova + size ≤ 2 ^ g.vaBits) : ∀ st ∈ sunxiZapTlb g version iova size, st.Ordered := by
  intro st hst
  rw [sunxiZapTlb_eq hin] at hst
  obtain ⟨c, hc, hst⟩ := List.mem_flatMap.mp hst
  exact ZapCall.ordered (h.zapFits hsize c hc) (wide_zapCalls g version iova size c hc) st hst

/-! ### The unmap -/

/-- From version 14 on the second layout asks for a range that ends with a directory entry. -/
theorem RangesFit.dvd (h : RangesFit .v2 version iova size) (hv : version ≥ IOMMU_VERSION_V14) :
    4194304 ∣ iova + size := ((rangesFit_of_ge hv).mp h).2

/-- The ranges of `sunxi_iommu_unmap` start before they end. -/
theorem RangesFit.unmapOrdered (h : RangesFit g version iova size) (hiova : 4096 ∣ iova)
    (hsize : 4096 ∣ size) (hpos : 0 < size) (s : PgState) (gather : IotlbGather) :
    ∀ st ∈ (sunxiIommuUnmap g version s gather iova size).steps, st.Ordered := by
  intro st hst
  rw [unmap_steps hiova (Nat.dvd_add hiova hsize)] at hst
  rcases List.mem_append.mp hst with hst | hst
  · rcases List.mem_append.mp hst with hst | hst
    · split at hst
      · next hv =>
        obtain ⟨hx, hy⟩ := h.ends hv
        exact ordered_tlb (fun _ => tlbRangeReg_lt hx hy (by omega)) st hst
      · cases hst
    · split at hst
      · next hv =>
        obtain ⟨hx, hy⟩ := h.ends (v12_of_v14 hv)
        refine ordered_ptw (fun _ => ptwRangeReg_lt hx hy (by omega) ?_) st hst
        -- the end is a multiple of a directory entry, so the start is under an earlier one
        rintro rfl
        have := h.dvd hv
        omega
      · cases hst
  · exact (inLoop_unmapLoop hst).ordered

/-- They cover every page. -/
theorem RangesFit.pages (h : RangesFit g version iova size) (hiova : 4096 ∣ iova)
    (hsize : 4096 ∣ size) (hv : version ≥ IOMMU_VERSION_V12) (s : PgState) (gather : IotlbGather)
    {va : ℕ} (hlo : iova ≤ va) (hhi : va < iova + size) :
    ∃ st ∈ (sunxiIommuUnmap g version s gather iova size).steps, st.CoversPage g (va / 4096) := by
  obtain ⟨hx, hy⟩ := h.ends hv
  rw [unmap_steps hiova (Nat.dvd_add hiova hsize), if_pos hv]
  refine ⟨.tlbRange (tlbRangeReg g iova) (tlbRangeReg g (iova + size)), ?_, ?_⟩
  · refine List.mem_append_left _ (List.mem_append_left _ ?_)
    rw [sunxiTlbInvalid, if_pos hv]
    exact List.mem_singleton_self _
  · rw [hx.tlbRangeReg_eq, hy.tlbRangeReg_eq]
    cases g with
    | v1 =>
      show iova ≤ va / 4096 * 4096 ∧ va / 4096 * 4096 < iova + size
      omega
    | v2 =>
      show iova / 4096 ≤ va / 4096 ∧ va / 4096 < (iova + size) / 4096
      omega

/-- They cover every directory entry. -/
theorem RangesFit.pdes (h : RangesFit g version iova size) (hiova : 4096 ∣ iova)
    (hsize : 4096 ∣ size) (hv : version ≥ IOMMU_VERSION_V14) (s : PgState) (gather : IotlbGather)
    {va : ℕ} (hlo : iova ≤ va) (hhi : va < iova + size) :
    ∃ st ∈ (sunxiIommuUnmap g version s gather iova size).steps,
      st.CoversPde g (va / g.spdSize) := by
  obtain ⟨hx, hy⟩ := h.ends (v12_of_v14 hv)
  rw [unmap_steps hiova (Nat.dvd_add hiova hsize), if_pos (v12_of_v14 hv), if_pos hv]
  refine ⟨.ptwRange (ptwRangeReg g iova) (ptwRangeReg g (iova + size)), ?_, ?_⟩
  · refine List.mem_append_left _ (List.mem_append_right _ ?_)
    rw [sunxiPtwCacheInvalid, if_pos hv]
    exact List.mem_singleton_self _
  · rw [hx.ptwRangeReg_eq, hy.ptwRangeReg_eq]
    cases g with
    | v1 =>
      show iova < iova + size ∧ iova < (va / 1048576 + 1) * 1048576 ∧
        va / 1048576 * 1048576 < iova + size
      omega
    | v2 =>
      have := h.dvd hv
      show iova / 4194304 ≤ va / 4194304 ∧ va / 4194304 < (iova + size) / 4194304
      omega

/-- With the second layout the last directory entry is covered only if the range ends with it. -/
theorem dvd_of_pdes {s : PgState} {gather : IotlbGather} (hiova : 4096 ∣ iova)
    (hsize : 4096 ∣ size) (hpos : 0 < size) (hin : iova + size ≤ 2 ^ 34)
    (h : ∃ st ∈ (sunxiIommuUnmap .v2 version s gather iova size).steps,
      st.CoversPde .v2 ((iova + size - 1) / 4194304)) : 4194304 ∣ iova + size := by
  obtain ⟨st, hst, hcov⟩ := h
  rw [unmap_steps hiova (Nat.dvd_add hiova hsize)] at hst
  rcases List.mem_append.mp hst with hst | hst
  · rcases List.mem_append.mp hst with hst | hst
    · split at hst
      · next hv =>
        -- a TLB range covers no directory entry
        rw [sunxiTlbInvalid, if_pos hv] at hst
        rw [List.mem_singleton.mp hst] at hcov
        exact hcov.elim
      · cases hst
    · split at hst
      · next hv =>
        rw [sunxiPtwCacheInvalid, if_pos hv] at hst
        rw [List.mem_singleton.mp hst, (endFits_v2 hin).ptwRangeReg_eq] at hcov
        -- the range stops before the directory entry that the end is rounded down to
        have hlast : (iova + size - 1) / 4194304 < (iova + size) / 4194304 := hcov.2
        omega
      · cases hst
  · -- nor does the loop
    have hloop : st.InLoop version := inLoop_unmapLoop hst
    rcases hloop with ⟨va, rfl⟩ | ⟨d, rfl⟩ | ⟨-, addr, rfl⟩
    · exact hcov.elim
    · exact hcov.elim
    · exact hcov.elim

end Fit

/-- **The invalidations of a range** are well formed exactly when it lies where `RangesFit` says. -/
theorem ranges_iff (g : Geometry) (version iova size : ℕ) (hiova : 4096 ∣ iova)
    (hsize : 4096 ∣ size) (hpos : 0 < size) (hin : iova + size ≤ 2 ^ g.vaBits) :
    RangesOk g version iova size ↔ RangesFit g version iova size := by
  have hpage : SPAGE_SIZE ≤ size := Nat.le_of_dvd hpos hsize
  constructor
  · intro h
    -- the operands of `sunxi_zap_tlb` give the distance from the top, and from the bottom
    have hfits := h.zapFits
    unfold RangesFit
    split
    · next h11 => exact (zapFits_iff_of_le h11 hpos).mp hfits
    · next h11 =>
      have h12 : version ≥ IOMMU_VERSION_V12 := Nat.not_le.mp h11
      split
      · next h13 => exact (zapFits_iff_of_le_of_ge h12 h13 hpage).mp hfits
      · next h13 =>
        have h14 : version ≥ IOMMU_VERSION_V14 := Nat.not_le.mp h13
        have hops := (zapFits_iff_of_ge h14).mp hfits
        cases g with
        | v1 => exact ⟨hops.2.1, hops.2.2, hops.1⟩
        | v2 =>
          -- the last page of the range asks for the last directory entry
          have hlast := h.pdes h14 (PgState.init fun _ => 0) ⟨0, 0⟩ (iova + size - 1) (by omega)
            (by omega)
          exact ⟨hops.2.1, dvd_of_pdes hiova hsize hpos hin hlast⟩
  · intro h
    exact
      { unmapOrdered := h.unmapOrdered hiova hsize hpos
        zapOrdered := h.zapOrdered hpage hin
        pages := fun hv s gather va => h.pages hiova hsize hv s gather
        pdes := fun hv s gather va => h.pdes hiova hsize hv s gather
        zapFits := h.zapFits hpage }

/-- A page in the middle, at version 14 of the first driver. -/
theorem ranges_iff_page :
    RangesOk .v1 IOMMU_VERSION_V14 0x10000000 4096 ↔
      RangesFit .v1 IOMMU_VERSION_V14 0x10000000 4096 :=
  ranges_iff _ _ _ _ (by decide) (by decide) (by decide) (by decide)

/-- The last page below 4 GiB: its range ends at 0 in the register. -/
theorem range_ends_at_zero :
    ¬∀ (g : Geometry) (version iova size : ℕ), 4096 ∣ iova → 4096 ∣ size → 0 < size →
      iova + size ≤ 2 ^ g.vaBits → RangesOk g version iova size := by
  intro hall
  have hok := hall .v1 IOMMU_VERSION_V14 0xfffff000 4096 (by decide) (by decide) (by decide)
    (by decide)
  have hmem : DrvStep.tlbRange 0xfffff000 0 ∈
      (sunxiIommuUnmap .v1 IOMMU_VERSION_V14 (PgState.init fun _ => 0) ⟨0, 0⟩ 0xfffff000
        4096).steps := by
    rw [unmap_steps (by decide) (by decide)]
    exact List.mem_append_left _ (List.mem_append_left _ (List.mem_singleton_self _))
  exact Nat.not_lt_zero _ (hok.unmapOrdered _ _ _ hmem)

end LonganPi.Iommu
