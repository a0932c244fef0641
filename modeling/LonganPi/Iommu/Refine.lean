import LonganPi.Iommu.MapUnmap
import LonganPi.Iommu.Ownership

/-!
# The page table refines a partial map

What a domain is for is a partial map from pages to frames with permissions, `PageMap`. A run of
`refineMachine` carries such a map next to the page table: the driver's calls act on the table, and
a call that succeeds updates the map page by page.

`Encodes` says what entry stands for what value of the map. The entries are kept in step by
`refines_step`; that the driver's walk through the two levels reads the map back
(`Encoded.refines`) is then the round trip of one entry.
-/

open DriverLib

namespace LonganPi.Iommu

/-! ### The specification -/

/-- A partial map from page numbers to the address of a frame and the permissions. -/
abbrev PageMap := ℕ → Option (ℕ × ℕ)

namespace PageMap

def empty : PageMap := fun _ => none

/-- The pages of `[iova, iova + size)` map to consecutive frames from `paddr` on. -/
def map (m : PageMap) (iova paddr size prot : ℕ) : PageMap := fun page =>
  if iova / 4096 ≤ page ∧ page < (iova + size) / 4096 then
    some (paddr + (page * 4096 - iova), prot)
  else m page

/-- The pages of `[iova, iova + size)` are unmapped. -/
def unmap (m : PageMap) (iova size : ℕ) : PageMap := fun page =>
  if iova / 4096 ≤ page ∧ page < (iova + size) / 4096 then none else m page

/-- The physical address of `va`, 0 where nothing is mapped. -/
def translate (m : PageMap) (va : ℕ) : ℕ :=
  match m (va / 4096) with
  | some (pa, _) => pa + va % 4096
  | none => 0

end PageMap

variable (g : Geometry)

/-- The frames of a map call: aligned to the page size and in RAM. -/
structure FrameRange (paddr size : ℕ) : Prop where
  aligned : size ∣ paddr
  low : SUNXI_PHYS_OFFSET ≤ paddr
  high : paddr + size ≤ 2 ^ g.vaBits + SUNXI_PHYS_OFFSET

instance (paddr size : ℕ) : Decidable (FrameRange g paddr size) :=
  decidable_of_iff (size ∣ paddr ∧ SUNXI_PHYS_OFFSET ≤ paddr ∧
    paddr + size ≤ 2 ^ g.vaBits + SUNXI_PHYS_OFFSET)
    ⟨fun h => ⟨h.1, h.2.1, h.2.2⟩, fun h => ⟨h.aligned, h.low, h.high⟩⟩

/-- A domain, and the map that the successful calls make up. -/
structure RefineState where
  table : PgState
  map : PageMap

/-- The driver's calls with the map beside them. An unmap is enabled for mapped pages only. -/
def refineMachine (version : ℕ) : Machine RefineState PgOp ℤ where
  step s
    | .map iova paddr size prot allocs =>
      if PageRange g iova size ∧ FrameRange g paddr size ∧ AllocsOk g s.table allocs ∧
          ∀ i < size / 4096, s.map (iova / 4096 + i) = none then
        let r := sunxiIommuMap g s.table iova paddr size prot allocs
        some (r.1, ⟨r.2, if r.1 = 0 then s.map.map iova paddr size prot else s.map⟩)
      else none
    | .unmap gather iova size =>
      if PageRange g iova size ∧ ∀ i < size / 4096, s.map (iova / 4096 + i) ≠ none then
        let r := sunxiIommuUnmap g version s.table gather iova size
        some (r.ret, ⟨r.state, s.map.unmap iova size⟩)
      else none
    | .clear => some (0, ⟨sunxiPgtableClear g s.table, PageMap.empty⟩)

/-- An empty domain. -/
def RefineState.init (mem : ℕ → ℕ) : RefineState := ⟨PgState.init mem, PageMap.empty⟩

/-- The table stands for the map. -/
structure Refines (s : PgState) (m : PageMap) : Prop where
  -- the driver's translation is the map's
  translate : ∀ va < 2 ^ g.vaBits, sunxiPgtableIovaToPhys g s va = m.translate va
  -- the permission bits of a page are those of the map that installed it
  readable : ∀ va < 2 ^ g.vaBits, ∀ pa prot, m (va / 4096) = some (pa, prot) →
    (pteAt g s va &&& SUNXI_PTE_PAGE_READABLE ≠ 0 ↔ prot &&& IOMMU_READ ≠ 0)
  writable : ∀ va < 2 ^ g.vaBits, ∀ pa prot, m (va / 4096) = some (pa, prot) →
    (pteAt g s va &&& SUNXI_PTE_PAGE_WRITABLE ≠ 0 ↔ prot &&& IOMMU_WRITE ≠ 0)

/-! ### What an entry stands for -/

/-- The entry `pte` stands for the value of the map. -/
def Encodes (pte : ℕ) : Option (ℕ × ℕ) → Prop
  | none => pte = 0
  | some (pa, prot) => 4096 ∣ pa ∧ SUNXI_PHYS_OFFSET ≤ pa ∧
      pa + 4096 ≤ 2 ^ g.vaBits + SUNXI_PHYS_OFFSET ∧
      -- the frame that the driver computes with is a bus address
      ∃ page, 4096 ∣ page ∧ page % 2 ^ g.vaBits = pa % 2 ^ g.vaBits ∧ pte = sunxiMkPte g page prot

/-- Every page of the aperture has the entry of its value. -/
structure Encoded (s : PgState) (m : PageMap) : Prop where
  owned : Owned g s
  entry : ∀ va < 2 ^ g.vaBits, Encodes g (pteAt g s va) (m (va / 4096))

variable {g}

/-- The offset in the page is added on the bus, and the sum is folded back. -/
theorem iommuPhyToCpuPhy_add {pa off : ℕ} (hdvd : 4096 ∣ pa) (hlo : SUNXI_PHYS_OFFSET ≤ pa)
    (hhi : pa + 4096 ≤ 2 ^ g.vaBits + SUNXI_PHYS_OFFSET) (hoff : off < 4096) :
    g.iommuPhyToCpuPhy (pa % 2 ^ g.vaBits + off) = pa + off := by
  have hva : 4096 ∣ 2 ^ g.vaBits := ⟨g.spdSize, g.vaSize_eq⟩
  have hmod : (pa + off) % 2 ^ g.vaBits = pa % 2 ^ g.vaBits + off := by
    have hlt : pa % 2 ^ g.vaBits < 2 ^ g.vaBits := Nat.mod_lt _ (Nat.two_pow_pos _)
    have hpage : 4096 ∣ pa % 2 ^ g.vaBits := (Nat.dvd_mod_iff hva).mpr hdvd
    calc (pa + off) % 2 ^ g.vaBits = (pa % 2 ^ g.vaBits + off) % 2 ^ g.vaBits :=
          (Nat.mod_add_mod ..).symm
      _ = pa % 2 ^ g.vaBits + off := Nat.mod_eq_of_lt (by omega)
  rw [← hmod]
  exact g.iommuPhyToCpuPhy_mod (by omega) (by omega)

/-- The driver's walk reads back what the entry stands for. -/
theorem Encodes.translate {s : PgState} {va pa prot : ℕ}
    (h : Encodes g (pteAt g s va) (some (pa, prot))) :
    sunxiPgtableIovaToPhys g s va = pa + va % 4096 := by
  obtain ⟨hpa, hlo, hhi, page, hpage, hmod, hpte⟩ := h
  rw [sunxiPgtableIovaToPhys_eq, hpte, if_pos (sunxiMkPte_ne_zero g hpage prot),
    iopteToPfn_sunxiMkPte g hpage, hmod]
  have hoff : va &&& (SPAGE_SIZE - 1) = va % 4096 := and_mask 12 va
  rw [hoff]
  exact iommuPhyToCpuPhy_add hpa hlo hhi (Nat.mod_lt _ (by decide))

/-- The permission bits are those of the value. -/
theorem Encodes.access {pte pa prot : ℕ} (h : Encodes g pte (some (pa, prot))) :
    (pte &&& SUNXI_PTE_PAGE_READABLE ≠ 0 ↔ prot &&& IOMMU_READ ≠ 0) ∧
      (pte &&& SUNXI_PTE_PAGE_WRITABLE ≠ 0 ↔ prot &&& IOMMU_WRITE ≠ 0) := by
  obtain ⟨-, -, -, page, hpage, -, rfl⟩ := h
  exact ⟨readable_sunxiMkPte g hpage prot, writable_sunxiMkPte g hpage prot⟩

/-- **Reading back.** -/
theorem Encoded.refines {s : PgState} {m : PageMap} (h : Encoded g s m) : Refines g s m where
  translate va hva := by
    have hentry := h.entry va hva
    unfold PageMap.translate
    cases hm : m (va / 4096) with
    | none =>
      rw [hm] at hentry
      rw [sunxiPgtableIovaToPhys_eq]
      exact if_neg (not_not_intro hentry)
    | some v =>
      rw [hm] at hentry
      exact hentry.translate
  readable va hva pa prot hm := by
    have hentry := h.entry va hva
    rw [hm] at hentry
    exact hentry.access.1
  writable va hva pa prot hm := by
    have hentry := h.entry va hva
    rw [hm] at hentry
    exact hentry.access.2

/-! ### Steps -/

theorem encoded_init (mem : ℕ → ℕ) : Encoded g (PgState.init mem) PageMap.empty where
  owned := owned_init mem
  entry va _ := by
    have hnone : (PgState.init mem).slot g (g.iopdeIndex va) = none := toTable_zero
    show pteAt g (PgState.init mem) va = 0
    unfold pteAt
    rw [hnone]

/-- The frame that the loop starts from is the frame of the call on the bus. -/
theorem startFrame_spec {paddr size : ℕ} (hsize : size ∈ pgsizeBitmap) (hp : size ∣ paddr) :
    size ∣ startFrame g paddr ∧ startFrame g paddr % 2 ^ g.vaBits = paddr % 2 ^ g.vaBits := by
  have hdvd := g.dvd_cpuPhyToIommuPhy (dvd_4GiB_of_mem hsize) hp
  have hframe : startFrame g paddr = g.cpuPhyToIommuPhy paddr :=
    clearLow_of_dvd ((page_dvd_of_mem hsize).trans hdvd)
  rw [hframe]
  exact ⟨hdvd, g.cpuPhyToIommuPhy_mod paddr⟩

/-- The entry that a map call stores stands for the value that the specification gives. -/
theorem encodes_preparedPte {iova paddr size prot va : ℕ} (hr : PageRange g iova size)
    (hf : FrameRange g paddr size) (hlo : iova ≤ va) (hhi : va < iova + size) :
    Encodes g (preparedPte g (startFrame g paddr) prot iova va)
      (some (paddr + (va / 4096 * 4096 - iova), prot)) := by
  obtain ⟨hdvd, hmod⟩ := startFrame_spec (g := g) hr.size_mem hf.aligned
  have hiova := hr.start_dvd
  have hend := hr.end_dvd
  have hpa : 4096 ∣ paddr := (page_dvd_of_mem hr.size_mem).trans hf.aligned
  have hpage : 4096 ∣ startFrame g paddr := (page_dvd_of_mem hr.size_mem).trans hdvd
  have hlow := hf.low
  have hhigh := hf.high
  have hoff : (va - iova) / 4096 * 4096 = va / 4096 * 4096 - iova := by omega
  refine ⟨by omega, by omega, by omega, startFrame g paddr + (va - iova) / 4096 * 4096, by omega,
    ?_, hr.preparedPte_eq hdvd prot hlo hhi⟩
  rw [hoff, Nat.add_mod, hmod, ← Nat.add_mod]

/-- The pages of a range, by number. -/
theorem PageRange.mem_iff {iova size va : ℕ} (hr : PageRange g iova size) :
    iova / 4096 ≤ va / 4096 ∧ va / 4096 < (iova + size) / 4096 ↔ iova ≤ va ∧ va < iova + size := by
  have hiova := hr.start_dvd
  have hend := hr.end_dvd
  omega

theorem Encoded.map {s s' : PgState} {m : PageMap} {iova paddr size prot : ℕ}
    (h : Encoded g s m) (hr : PageRange g iova size) (hf : FrameRange g paddr size)
    (howned : Owned g s')
    (hpte : ∀ va < 2 ^ g.vaBits, pteAt g s' va =
      if iova ≤ va ∧ va < iova + size then preparedPte g (startFrame g paddr) prot iova va
      else pteAt g s va) :
    Encoded g s' (m.map iova paddr size prot) where
  owned := howned
  entry va hva := by
    rw [hpte va hva]
    unfold PageMap.map
    by_cases hin : iova ≤ va ∧ va < iova + size
    · rw [if_pos hin, if_pos (hr.mem_iff.mpr hin)]
      exact encodes_preparedPte hr hf hin.1 hin.2
    · rw [if_neg hin, if_neg fun hpage => hin (hr.mem_iff.mp hpage)]
      exact h.entry va hva

theorem Encoded.unmap {s s' : PgState} {m : PageMap} {iova size : ℕ} (h : Encoded g s m)
    (hr : PageRange g iova size) (howned : Owned g s')
    (hpte : ∀ va < 2 ^ g.vaBits, pteAt g s' va =
      if iova ≤ va ∧ va < iova + size then 0 else pteAt g s va) :
    Encoded g s' (m.unmap iova size) where
  owned := howned
  entry va hva := by
    rw [hpte va hva]
    unfold PageMap.unmap
    by_cases hin : iova ≤ va ∧ va < iova + size
    · rw [if_pos hin, if_pos (hr.mem_iff.mpr hin)]
      exact rfl
    · rw [if_neg hin, if_neg fun hpage => hin (hr.mem_iff.mp hpage)]
      exact h.entry va hva

theorem Encoded.clear {s : PgState} {m : PageMap} (h : Encoded g s m) :
    Encoded g (sunxiPgtableClear g s) PageMap.empty where
  owned := (sunxiPgtableClear_spec h.owned).1
  entry va _ := by
    show pteAt g (sunxiPgtableClear g s) va = 0
    unfold pteAt
    rw [(sunxiPgtableClear_spec h.owned).2]

/-- A page that the map has a value for has a table. -/
theorem Encoded.table {s : PgState} {m : PageMap} (h : Encoded g s m) {va : ℕ}
    (hva : va < 2 ^ g.vaBits) (hm : m (va / 4096) ≠ none) :
    ∃ t, s.slot g (g.iopdeIndex va) = some t := by
  have hentry := h.entry va hva
  obtain ⟨⟨pa, prot⟩, hv⟩ := Option.ne_none_iff_exists'.mp hm
  rw [hv] at hentry
  obtain ⟨-, -, -, page, hpage, -, hpte⟩ := hentry
  exact slot_of_pteAt (hpte ▸ sunxiMkPte_ne_zero g hpage prot)

/-- The specification of a step. -/
structure RefineStep (g : Geometry) (s : RefineState) (op : PgOp) (o : ℤ) (s' : RefineState) :
    Prop where
  refines : Refines g s'.table s'.map
  -- a map fails for want of a table, and then it changes no translation
  failed : ∀ iova paddr size prot allocs, op = .map iova paddr size prot allocs → o ≠ 0 →
    o = -ENOMEM ∧ (none ∈ allocs ∨ allocs.length ≤ size / g.spdSize) ∧ s'.map = s.map ∧
      ∀ va, sunxiPgtableIovaToPhys g s'.table va = sunxiPgtableIovaToPhys g s.table va

/-- The table and the map are in step. -/
def InStep (g : Geometry) (s : RefineState) : Prop := Encoded g s.table s.map

section

variable {version : ℕ} {s s' : RefineState} {o : ℤ}

theorem inStep_mk {t : PgState} {m : PageMap} (h : Encoded g t m) : InStep g ⟨t, m⟩ := h

theorem InStep.refines (h : InStep g s) : Refines g s.table s.map := Encoded.refines h

/-- A call of `sunxi_iommu_map` that fails has asked for a table in vain. -/
theorem allocs_of_failed {t : PgState} {iova paddr size prot : ℕ} {allocs : List (Option ℕ)}
    (hr : PageRange g iova size) (h : (sunxiIommuMap g t iova paddr size prot allocs).1 ≠ 0) :
    none ∈ allocs ∨ allocs.length ≤ size / g.spdSize := by
  rw [sunxiIommuMap_of_dvd hr.start_dvd hr.end_dvd] at h
  split at h
  · next hfailed =>
    refine (alloc_failed hfailed).imp_right fun hlast => ?_
    exact (Nat.le_div_iff_mul_le g.spdSize_pos).mpr (Nat.le_of_add_le_add_left hlast)
  · exact absurd rfl h


theorem refines_step_map {iova paddr size prot : ℕ} {allocs : List (Option ℕ)} (h : InStep g s)
    (hop : (refineMachine g version).step s (.map iova paddr size prot allocs) = some (o, s')) :
    InStep g s' ∧ RefineStep g s (.map iova paddr size prot allocs) o s' := by
  change (if _ then _ else _) = _ at hop
  split at hop
  · next hlegal =>
    obtain ⟨hr, hf, hallocs, -⟩ := hlegal
    obtain ⟨rfl, rfl⟩ := Prod.mk.inj (Option.some.inj hop)
    obtain ⟨howned, ⟨hret, hpte⟩ | ⟨hret, hpte⟩⟩ :=
      sunxiIommuMap_spec h.owned hr paddr prot hallocs
    · -- the allocation of a table failed
      have hne : (sunxiIommuMap g s.table iova paddr size prot allocs).1 ≠ 0 := by
        rw [hret]
        decide
      have hkept : InStep g ⟨(sunxiIommuMap g s.table iova paddr size prot allocs).2, s.map⟩ :=
        inStep_mk ⟨howned, fun va hva => hpte va ▸ h.entry va hva⟩
      rw [if_neg hne]
      refine ⟨hkept, hkept.refines, fun _ _ _ _ _ heq _ => ?_⟩
      obtain ⟨rfl, rfl, rfl, rfl, rfl⟩ := PgOp.map.inj heq
      refine ⟨hret, allocs_of_failed hr hne, rfl, fun va => ?_⟩
      rw [sunxiPgtableIovaToPhys_eq, sunxiPgtableIovaToPhys_eq, hpte]
    · rw [if_pos hret]
      have hmap := inStep_mk (h.map hr hf howned hpte)
      exact ⟨hmap, hmap.refines, fun _ _ _ _ _ _ hne => absurd hret hne⟩
  · cases hop

theorem refines_step_unmap {gather : IotlbGather} {iova size : ℕ} (h : InStep g s)
    (hop : (refineMachine g version).step s (.unmap gather iova size) = some (o, s')) :
    InStep g s' ∧ RefineStep g s (.unmap gather iova size) o s' := by
  change (if _ then _ else _) = _ at hop
  split at hop
  · next hlegal =>
    obtain ⟨hr, hmapped⟩ := hlegal
    obtain ⟨rfl, rfl⟩ := Prod.mk.inj (Option.some.inj hop)
    have htables : ∀ va, iova ≤ va → va < iova + size →
        ∃ t, s.table.slot g (g.iopdeIndex va) = some t := by
      intro va hlo hhi
      have hiova := hr.start_dvd
      have hend := hr.end_dvd
      have hpage := hmapped (va / 4096 - iova / 4096) (by omega)
      rw [show iova / 4096 + (va / 4096 - iova / 4096) = va / 4096 by omega] at hpage
      exact h.table (hhi.trans_le hr.inside) hpage
    obtain ⟨howned, -, hpte⟩ := sunxiIommuUnmap_spec version gather h.owned hr htables
    have hunmap := inStep_mk (h.unmap hr howned hpte)
    exact ⟨hunmap, hunmap.refines, fun _ _ _ _ _ heq => nomatch heq⟩
  · cases hop

theorem refines_step_clear (h : InStep g s)
    (hop : (refineMachine g version).step s .clear = some (o, s')) :
    InStep g s' ∧ RefineStep g s .clear o s' := by
  obtain ⟨rfl, rfl⟩ := Prod.mk.inj (Option.some.inj hop)
  exact ⟨h.clear, h.clear.refines, fun _ _ _ _ _ heq => nomatch heq⟩

end

/-- Every call keeps the table and the map in step. -/
theorem refines_step (version : ℕ) (s : RefineState) (op : PgOp) (o : ℤ) (s' : RefineState)
    (h : InStep g s) (hop : (refineMachine g version).step s op = some (o, s')) :
    InStep g s' ∧ RefineStep g s op o s' := by
  cases op with
  | map iova paddr size prot allocs => exact refines_step_map h hop
  | unmap gather iova size => exact refines_step_unmap h hop
  | clear => exact refines_step_clear h hop

/-- **The page table refines the partial map.** After every step of every run the driver translates
each address of the aperture as the map does, the permission bits are those of the map call that
installed the page, and a map fails only for want of a table, with `-ENOMEM`, and changes
nothing. -/
theorem pgtable_refines_map (g : Geometry) (version : ℕ) (mem : ℕ → ℕ) (ops : List PgOp) :
    Refines g (PgState.init mem) PageMap.empty ∧
      (refineMachine g version).Along (RefineStep g) (RefineState.init mem) ops :=
  have hinit : InStep g (RefineState.init mem) := encoded_init mem
  ⟨hinit.refines, Machine.along_inv (refines_step version) hinit ops⟩

end LonganPi.Iommu
