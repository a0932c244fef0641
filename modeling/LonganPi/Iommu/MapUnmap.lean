import LonganPi.Iommu.Tables

/-!
# One call of the driver

The IOMMU core hands the driver one page at a time: its size is in `pgsize_bitmap`, and `iova` and
`paddr` are multiples of it (`PageRange`). Such a page lies under one directory entry or is made of
whole ones, and that is why the two loops of `sunxi_iommu_map` fit together: the first allocates
the tables at steps of `SPD_SIZE` from `iova_start`, the second writes to the tables of all pages.
It is also why adding to the entry of the first page is harmless, since no page crosses a 4 GiB
boundary under one directory entry.

`sunxiIommuMap_spec` and `sunxiIommuUnmap_spec` say what a call does to the pages.
-/

open DriverLib

namespace LonganPi.Iommu

/-! ### Pages of the bitmap -/

/-- `pgsize_bitmap` -/
def pgsizeBitmap : List ℕ :=
  [0x1000, 0x4000, 0x10000, 0x40000, 0x100000, 0x400000, 0x1000000]

/-- What the core passes for `iova` and `size`: one page of the bitmap inside the aperture. -/
structure PageRange (g : Geometry) (iova size : ℕ) : Prop where
  size_mem : size ∈ pgsizeBitmap
  aligned : size ∣ iova
  inside : iova + size ≤ 2 ^ g.vaBits

instance (g : Geometry) (iova size : ℕ) : Decidable (PageRange g iova size) :=
  decidable_of_iff (size ∈ pgsizeBitmap ∧ size ∣ iova ∧ iova + size ≤ 2 ^ g.vaBits)
    ⟨fun h => ⟨h.1, h.2.1, h.2.2⟩, fun h => ⟨h.size_mem, h.aligned, h.inside⟩⟩

theorem pgsizeBitmap_pos {size : ℕ} (h : size ∈ pgsizeBitmap) : 0 < size := by
  revert size
  decide

theorem page_dvd_of_mem {size : ℕ} (h : size ∈ pgsizeBitmap) : 4096 ∣ size := by
  revert size
  decide

theorem dvd_4GiB_of_mem {size : ℕ} (h : size ∈ pgsizeBitmap) : size ∣ 2 ^ 32 := by
  revert size
  decide

/-- A page is a part of what one directory entry maps, or is made of such parts. -/
theorem dvd_spdSize_or {g : Geometry} {size : ℕ} (h : size ∈ pgsizeBitmap) :
    size ∣ g.spdSize ∨ g.spdSize ∣ size := by
  revert size
  cases g <;> decide

/-- An offset below `n` does not leave a block of a multiple of `n`. -/
theorem add_div_of_dvd {n m a x : ℕ} (ha : n ∣ a) (hm : n ∣ m) (hx : x < n) :
    (a + x) / m = a / m := by
  obtain ⟨k, rfl⟩ := ha
  obtain ⟨c, rfl⟩ := hm
  have hn : 0 < n := Nat.zero_lt_of_lt hx
  calc (n * k + x) / (n * c) = (n * k + x) / n / c := (Nat.div_div_eq_div_mul ..).symm
    _ = k / c := by rw [Nat.mul_add_div hn, Nat.div_eq_of_lt hx, Nat.add_zero]
    _ = n * k / (n * c) := (Nat.mul_div_mul_left k c hn).symm

/-- Where the part of `va` starts. -/
theorem partStart_le {g : Geometry} {a va : ℕ} (hlo : a ≤ va) : partStart g a va ≤ va :=
  Nat.max_le.mpr ⟨hlo, Nat.div_mul_le_self ..⟩

theorem dvd_partStart {g : Geometry} {a : ℕ} (ha : 4096 ∣ a) (va : ℕ) :
    4096 ∣ partStart g a va := by
  unfold partStart
  rcases Nat.le_total a (va / g.spdSize * g.spdSize) with h | h
  · rw [Nat.max_eq_right h]
    exact Dvd.dvd.mul_left g.page_dvd_spdSize _
  · rwa [Nat.max_eq_left h]

/-- Within a 4 GiB block adding to the entry of the first frame is right. -/
theorem preparedPte_eq_of_block {g : Geometry} {a page va : ℕ} (ha : 4096 ∣ a)
    (hpage : 4096 ∣ page) (prot : ℕ) (hlo : a ≤ va)
    (hblock : (page + (partStart g a va - a) + 4096 * ((va - partStart g a va) / 4096)) / 2 ^ 32 =
      (page + (partStart g a va - a)) / 2 ^ 32 ∨ g = .v1) :
    preparedPte g page prot a va = sunxiMkPte g (page + (va - a) / 4096 * 4096) prot := by
  have hge : a ≤ partStart g a va := Nat.le_max_left ..
  have hle : partStart g a va ≤ va := partStart_le hlo
  have hdvd : 4096 ∣ partStart g a va := dvd_partStart ha va
  unfold preparedPte
  rw [sunxiMkPte_add g (by omega) hblock]
  congr 1
  omega

section Page

variable {g : Geometry} {s : PgState} {iova size : ℕ} (hr : PageRange g iova size)

include hr

theorem PageRange.start_dvd : 4096 ∣ iova := (page_dvd_of_mem hr.size_mem).trans hr.aligned

theorem PageRange.end_dvd : 4096 ∣ iova + size :=
  Nat.dvd_add hr.start_dvd (page_dvd_of_mem hr.size_mem)

theorem PageRange.lt : iova < iova + size := Nat.lt_add_of_pos_right (pgsizeBitmap_pos hr.size_mem)

/-- The steps of the loop of `sunxi_pgtable_prepare_l1_tables` meet every directory entry of the
page. -/
theorem PageRange.step {va : ℕ} (hlo : iova ≤ va) (hhi : va < iova + size) :
    ∃ k, iova + k * g.spdSize ≤ iova + size ∧
      g.iopdeIndex (iova + k * g.spdSize) = g.iopdeIndex va := by
  have hva : va < 2 ^ g.vaBits := hhi.trans_le hr.inside
  rcases dvd_spdSize_or (g := g) hr.size_mem with hdvd | hdvd
  · -- the page is under one entry
    refine ⟨0, by omega, ?_⟩
    rw [Nat.zero_mul, Nat.add_zero, g.iopdeIndex_inj (hlo.trans_lt hva) hva]
    have hsame := add_div_of_dvd (x := va - iova) hr.aligned hdvd (by omega)
    rwa [Nat.add_sub_cancel' hlo, eq_comm] at hsame
  · -- the page is made of whole entries
    have hle : (va - iova) / g.spdSize * g.spdSize ≤ va - iova := Nat.div_mul_le_self ..
    refine ⟨(va - iova) / g.spdSize, by omega, ?_⟩
    rw [g.iopdeIndex_inj (by omega) hva]
    obtain ⟨q, hq⟩ := hdvd.trans hr.aligned
    have hvaq : va = g.spdSize * q + (va - iova) := by omega
    calc (iova + (va - iova) / g.spdSize * g.spdSize) / g.spdSize
        = q + (va - iova) / g.spdSize := by
          rw [Nat.add_mul_div_right _ _ g.spdSize_pos, hq, Nat.mul_div_cancel_left _ g.spdSize_pos]
      _ = (g.spdSize * q + (va - iova)) / g.spdSize := (Nat.mul_add_div g.spdSize_pos ..).symm
      _ = va / g.spdSize := by rw [← hvaq]

/-- The part of the page in which `va` lies starts at a frame from which on the next frames up to
that of `va` are in one 4 GiB block. -/
theorem PageRange.block_eq {page : ℕ} (hpage : size ∣ page) {va : ℕ} (hlo : iova ≤ va)
    (hhi : va < iova + size) :
    let c := partStart g iova va
    (page + (c - iova) + 4096 * ((va - c) / 4096)) / 2 ^ 32 = (page + (c - iova)) / 2 ^ 32 := by
  intro c
  rcases dvd_spdSize_or (g := g) hr.size_mem with hdvd | hdvd
  · -- one part, which is the page
    have hc : c = iova := by
      have hsame := add_div_of_dvd (x := va - iova) hr.aligned hdvd (by omega)
      rw [Nat.add_sub_cancel' hlo] at hsame
      show max iova (va / g.spdSize * g.spdSize) = iova
      rw [hsame]
      exact Nat.max_eq_left (Nat.div_mul_le_self ..)
    rw [hc, Nat.sub_self, Nat.add_zero]
    exact add_div_of_dvd hpage (dvd_4GiB_of_mem hr.size_mem) (by omega)
  · -- every part is what one entry maps
    have hspd : g.spdSize ∣ iova := hdvd.trans hr.aligned
    have hc : c = va / g.spdSize * g.spdSize := by
      refine Nat.max_eq_right ?_
      calc iova = iova / g.spdSize * g.spdSize := (Nat.div_mul_cancel hspd).symm
        _ ≤ va / g.spdSize * g.spdSize := Nat.mul_le_mul_right _ (Nat.div_le_div_right hlo)
    have hstart : g.spdSize ∣ page + (c - iova) :=
      Nat.dvd_add (hdvd.trans hpage) (Nat.dvd_sub (hc ▸ Nat.dvd_mul_left ..) hspd)
    have hrem : va - c < g.spdSize := by
      have := Nat.div_add_mod' va g.spdSize
      have := Nat.mod_lt va g.spdSize_pos
      omega
    exact add_div_of_dvd hstart (Nat.pow_dvd_pow 2 (by cases g <;> decide)) (by omega)

/-- On a page that starts at a multiple of its size, adding to the first entry is right. -/
theorem PageRange.preparedPte_eq {page : ℕ} (hpage : size ∣ page) (prot : ℕ) {va : ℕ}
    (hlo : iova ≤ va) (hhi : va < iova + size) :
    preparedPte g page prot iova va = sunxiMkPte g (page + (va - iova) / 4096 * 4096) prot :=
  preparedPte_eq_of_block hr.start_dvd ((page_dvd_of_mem hr.size_mem).trans hpage) prot hlo
    (Or.inl (hr.block_eq hpage hlo hhi))

end Page

/-! ### The calls -/

section Calls

variable {g : Geometry} {s : PgState} {iova size : ℕ}

/-- The frame that `sunxi_pgtable_prepare_l2_tables` starts from. -/
def startFrame (g : Geometry) (paddr : ℕ) : ℕ := clearLow IOMMU_PT_SHIFT (g.cpuPhyToIommuPhy paddr)

/-- A call with aligned ends is its two loops. -/
theorem sunxiIommuMap_of_dvd (hiova : 4096 ∣ iova) (hend : 4096 ∣ iova + size) (paddr prot : ℕ)
    (allocs : List (Option ℕ)) :
    sunxiIommuMap g s iova paddr size prot allocs =
      if (sunxiPgtablePrepareL1Tables g s iova (iova + size) allocs).1 ≠ 0 then
        (-ENOMEM, (sunxiPgtablePrepareL1Tables g s iova (iova + size) allocs).2)
      else
        (0, sunxiPgtablePrepareL2Tables g
          (sunxiPgtablePrepareL1Tables g s iova (iova + size) allocs).2 iova (iova + size) paddr
          prot) := by
  unfold sunxiIommuMap
  rw [clearLow_of_dvd (k := IOMMU_PT_SHIFT) hiova, spageAlign_of_dvd hend]

/-- **One call of `sunxi_iommu_map`.** It maps the page, or fails with `-ENOMEM` and changes
none. -/
theorem sunxiIommuMap_spec (h : Owned g s) (hr : PageRange g iova size) (paddr prot : ℕ)
    {allocs : List (Option ℕ)} (hallocs : AllocsOk g s allocs) :
    let r := sunxiIommuMap g s iova paddr size prot allocs
    Owned g r.2 ∧
      (r.1 = -ENOMEM ∧ (∀ va, pteAt g r.2 va = pteAt g s va) ∨
        r.1 = 0 ∧ ∀ va < 2 ^ g.vaBits, pteAt g r.2 va =
          if iova ≤ va ∧ va < iova + size then preparedPte g (startFrame g paddr) prot iova va
          else pteAt g s va) := by
  intro r
  have hl1 := l1Prepared (g := g) iova (iova + size) allocs h hallocs
  generalize hprep : sunxiPgtablePrepareL1Tables g s iova (iova + size) allocs = r₁ at hl1
  have hres : r = if r₁.1 ≠ 0 then (-ENOMEM, r₁.2) else
      (0, sunxiPgtablePrepareL2Tables g r₁.2 iova (iova + size) paddr prot) := by
    rw [← hprep]
    exact sunxiIommuMap_of_dvd hr.start_dvd hr.end_dvd paddr prot allocs
  by_cases hret : r₁.1 = 0
  · rw [hres, if_neg (not_not_intro hret)]
    have hl2 := l2Prepared iova (iova + size) (startFrame g paddr) prot hl1.owned hr.start_dvd
      hr.end_dvd hr.inside fun va hlo hhi => by
        obtain ⟨k, hk, hidx⟩ := hr.step hlo hhi
        exact hidx ▸ hl1.done hret k hk
    refine ⟨hl2.owned, Or.inr ⟨rfl, fun va hva => ?_⟩⟩
    rw [← hl1.pteAt_eq va]
    exact hl2.pteAt_eq va hva
  · rw [hres, if_pos hret]
    exact ⟨hl1.owned, Or.inl ⟨rfl, hl1.pteAt_eq⟩⟩

/-- A call with aligned ends leaves the state of its loop. -/
theorem sunxiIommuUnmap_state_of_dvd (hiova : 4096 ∣ iova) (hend : 4096 ∣ iova + size)
    (version : ℕ) (gather : IotlbGather) :
    (sunxiIommuUnmap g version s gather iova size).state =
      (unmapLoop g version s iova (iova + size)).1 := by
  -- the record first, so that the loop is not evaluated
  have hresult : ∃ gather' steps, sunxiIommuUnmap g version s gather iova size =
      ⟨size, (unmapLoop g version s (clearLow IOMMU_PT_SHIFT iova) (spageAlign (iova + size))).1,
        gather', steps⟩ := ⟨_, _, rfl⟩
  obtain ⟨gather', steps, hresult⟩ := hresult
  rw [hresult, clearLow_of_dvd (k := IOMMU_PT_SHIFT) hiova, spageAlign_of_dvd hend]

/-- **One call of `sunxi_iommu_unmap`** for a page that has its tables. It removes the page. -/
theorem sunxiIommuUnmap_spec (version : ℕ) (gather : IotlbGather) (h : Owned g s)
    (hr : PageRange g iova size)
    (htables : ∀ va, iova ≤ va → va < iova + size → ∃ t, s.slot g (g.iopdeIndex va) = some t) :
    let r := sunxiIommuUnmap g version s gather iova size
    Owned g r.state ∧ r.ret = size ∧ ∀ va < 2 ^ g.vaBits, pteAt g r.state va =
      if iova ≤ va ∧ va < iova + size then 0 else pteAt g s va := by
  intro r
  have hun := rangeUnmapped version iova (iova + size) h hr.start_dvd hr.end_dvd hr.inside htables
  have hstate : r.state = (unmapLoop g version s iova (iova + size)).1 :=
    sunxiIommuUnmap_state_of_dvd hr.start_dvd hr.end_dvd version gather
  rw [hstate]
  exact ⟨hun.owned, rfl, hun.pteAt_eq⟩

end Calls

end LonganPi.Iommu
