import LonganPi.Iommu.Refine

/-!
# Mapping any range of pages

`sunxi_iommu_map` does not ask that a range is one page of the bitmap. For an arbitrary range of
pages two things go wrong.

* `sunxi_pgtable_prepare_l1_tables` goes from `iova_start` in steps of `SPD_SIZE`, not from the
  start of the first directory entry. When the range begins high in its first entry and ends low in
  its last one, the last step jumps over the end, and the last entry gets no table
  (`step_of_reached`, `prepareL1_pd_eq`). The second loop then follows it all the same.
* `sunxi_pgtable_prepare_l2_tables` adds multiples of the page size to the entry of the first page
  under each directory entry. In the second layout the address bits above 32 bits are not where the
  carry goes, so that behind a 4 GiB boundary the frames are 4 GiB too low (`translate_of_crosses`).

`MapFits` excludes the two, and `map_range_iff` says that nothing else has to be excluded.
-/

open DriverLib

namespace LonganPi.Iommu

variable (g : Geometry)

/-- The arguments of a call: pages of the aperture and frames in RAM, of any number. -/
structure PagesToFrames (iova paddr size : ℕ) : Prop where
  iovaAligned : 4096 ∣ iova
  sizeAligned : 4096 ∣ size
  inside : iova + size ≤ 2 ^ g.vaBits
  paddrAligned : 4096 ∣ paddr
  low : SUNXI_PHYS_OFFSET ≤ paddr
  high : paddr + size ≤ 2 ^ g.vaBits + SUNXI_PHYS_OFFSET

instance (iova paddr size : ℕ) : Decidable (PagesToFrames g iova paddr size) :=
  decidable_of_iff (4096 ∣ iova ∧ 4096 ∣ size ∧ iova + size ≤ 2 ^ g.vaBits ∧ 4096 ∣ paddr ∧
    SUNXI_PHYS_OFFSET ≤ paddr ∧ paddr + size ≤ 2 ^ g.vaBits + SUNXI_PHYS_OFFSET)
    ⟨fun h => ⟨h.1, h.2.1, h.2.2.1, h.2.2.2.1, h.2.2.2.2.1, h.2.2.2.2.2⟩,
      fun h => ⟨h.iovaAligned, h.sizeAligned, h.inside, h.paddrAligned, h.low, h.high⟩⟩

/-- What a map of `[iova, iova + size)` to the frames from `paddr` on is to do, when the tables are
prepared. -/
structure RangeMappedTo (s : PgState) (iova paddr size prot : ℕ) (allocs : List (Option ℕ)) :
    Prop where
  -- the directory entries that the second loop follows
  followed : ∀ va, iova ≤ va → va < iova + size →
    IsValid ((sunxiPgtablePrepareL1Tables g s iova (iova + size) allocs).2.pd (g.iopdeIndex va))
  pages : ∀ k < size / 4096,
    let s' := (sunxiIommuMap g s iova paddr size prot allocs).2
    sunxiPgtableIovaToPhys g s' (iova + k * 4096) = paddr + k * 4096 ∧
      (pteAt g s' (iova + k * 4096) &&& SUNXI_PTE_PAGE_READABLE ≠ 0 ↔ prot &&& IOMMU_READ ≠ 0) ∧
      (pteAt g s' (iova + k * 4096) &&& SUNXI_PTE_PAGE_WRITABLE ≠ 0 ↔ prot &&& IOMMU_WRITE ≠ 0)
  others : ∀ va < 2 ^ g.vaBits, ¬(iova ≤ va ∧ va < iova + size) →
    let s' := (sunxiIommuMap g s iova paddr size prot allocs).2
    sunxiPgtableIovaToPhys g s' va = sunxiPgtableIovaToPhys g s va ∧ pteAt g s' va = pteAt g s va

/-- There is a 4 GiB boundary among the frames. -/
def Crosses (paddr size : ℕ) : Prop := ∃ m, paddr < m * 2 ^ 32 ∧ m * 2 ^ 32 < paddr + size

/-- The steps of the first loop reach the last directory entry, or it has a table already; and in
the second layout the frames stay below a 4 GiB boundary or meet it where a directory entry ends. -/
structure MapFits (s : PgState) (iova paddr size : ℕ) : Prop where
  tables : (iova + size - 1) / g.spdSize ≤ iova / g.spdSize + size / g.spdSize ∨
    IsValid (s.pd (g.iopdeIndex (iova + size - 1)))
  frames : g = .v2 → Crosses paddr size → iova % g.spdSize = paddr % g.spdSize

variable {g} {s : PgState} {iova paddr size prot : ℕ} {allocs : List (Option ℕ)}

/-! ### The first loop -/

/-- The loop stores at its steps only. -/
theorem prepareL1_pd_eq {iovaStart iovaEnd i : ℕ}
    (h : ∀ k, iovaStart + k * g.spdSize ≤ iovaEnd → g.iopdeIndex (iovaStart + k * g.spdSize) ≠ i) :
    (sunxiPgtablePrepareL1Tables g s iovaStart iovaEnd allocs).2.pd i = s.pd i := by
  have hnext : ∀ {a : ℕ},
      (∀ k, a + k * g.spdSize ≤ iovaEnd → g.iopdeIndex (a + k * g.spdSize) ≠ i) →
      ∀ k, a + g.spdSize + k * g.spdSize ≤ iovaEnd →
        g.iopdeIndex (a + g.spdSize + k * g.spdSize) ≠ i := by
    intro a ha k hk
    have hshift : a + g.spdSize + k * g.spdSize = a + (k + 1) * g.spdSize := by
      rw [Nat.succ_mul]
      omega
    rw [hshift] at hk ⊢
    exact ha (k + 1) hk
  fun_induction sunxiPgtablePrepareL1Tables g s iovaStart iovaEnd allocs with
  | case1 s iovaStart allocs hle idx hv ih => exact ih (hnext h)
  | case2 s iovaStart hle idx hv pent allocs ih =>
    rw [ih (hnext h)]
    have hne : i ≠ idx := by
      have := h 0 (by rwa [Nat.zero_mul, Nat.add_zero])
      rw [Nat.zero_mul, Nat.add_zero] at this
      exact Ne.symm this
    exact Function.update_of_ne hne ..
  | case3 s iovaStart allocs hle idx hv hnone => rfl
  | case4 s iovaStart allocs hgt => rfl

theorem add_mul_spdSize_div (a k : ℕ) : (a + k * g.spdSize) / g.spdSize = a / g.spdSize + k :=
  Nat.add_mul_div_right a k g.spdSize_pos

/-- An entry up to the last step is at a step. -/
theorem step_of_reached {va : ℕ} (hlo : iova ≤ va)
    (h : va / g.spdSize ≤ iova / g.spdSize + size / g.spdSize) :
    ∃ k, iova + k * g.spdSize ≤ iova + size ∧
      g.iopdeIndex (iova + k * g.spdSize) = g.iopdeIndex va := by
  have hle : iova / g.spdSize ≤ va / g.spdSize := Nat.div_le_div_right hlo
  refine ⟨va / g.spdSize - iova / g.spdSize, ?_, ?_⟩
  · apply Nat.add_le_add_left
    calc (va / g.spdSize - iova / g.spdSize) * g.spdSize ≤ size / g.spdSize * g.spdSize :=
          Nat.mul_le_mul_right _ (by omega)
      _ ≤ size := Nat.div_mul_le_self ..
  · rw [g.iopdeIndex_eq, g.iopdeIndex_eq, add_mul_spdSize_div, Nat.add_sub_cancel' hle]

/-- At most the last entry of the range is behind the last step. -/
theorem div_le_or_eq {va : ℕ} (hlo : iova ≤ va) (hhi : va < iova + size) :
    va / g.spdSize ≤ iova / g.spdSize + size / g.spdSize ∨
      va / g.spdSize = (iova + size - 1) / g.spdSize := by
  have hle : va / g.spdSize ≤ (iova + size - 1) / g.spdSize := Nat.div_le_div_right (by omega)
  have hlast : (iova + size - 1) / g.spdSize ≤ iova / g.spdSize + size / g.spdSize + 1 := by
    have hpos := g.spdSize_pos
    have h1 := Nat.div_add_mod' iova g.spdSize
    have h2 := Nat.div_add_mod' size g.spdSize
    have h3 := Nat.mod_lt iova hpos
    have h4 := Nat.mod_lt size hpos
    apply Nat.le_of_lt_succ
    rw [Nat.div_lt_iff_lt_mul hpos, Nat.succ_mul, Nat.succ_mul, Nat.add_mul]
    omega
  omega

/-- **Every entry has its table** exactly when the last one was reached or had it before. -/
theorem followed_iff (h : Owned g s) (hallocs : AllocsOk g s allocs)
    (hin : iova + size ≤ 2 ^ g.vaBits)
    (hret : (sunxiPgtablePrepareL1Tables g s iova (iova + size) allocs).1 = 0) :
    (∀ va, iova ≤ va → va < iova + size →
      IsValid ((sunxiPgtablePrepareL1Tables g s iova (iova + size) allocs).2.pd
        (g.iopdeIndex va))) ↔
    (iova + size - 1) / g.spdSize ≤ iova / g.spdSize + size / g.spdSize ∨
      IsValid (s.pd (g.iopdeIndex (iova + size - 1))) := by
  have hl1 := l1Prepared (g := g) iova (iova + size) allocs h hallocs
  constructor
  · intro hall
    by_contra hnot
    obtain ⟨hfar, hinvalid⟩ := not_or.mp hnot
    have hpos : 0 < size := by
      by_contra hzero
      obtain rfl : size = 0 := by omega
      exact hfar (Nat.div_le_div_right (Nat.sub_le _ _) |>.trans (Nat.le_add_right _ _))
    have hlast := hall (iova + size - 1) (by omega) (by omega)
    have hsame : (sunxiPgtablePrepareL1Tables g s iova (iova + size) allocs).2.pd
        (g.iopdeIndex (iova + size - 1)) = s.pd (g.iopdeIndex (iova + size - 1)) := by
      apply prepareL1_pd_eq
      intro k hk heq
      have hlt : (iova + size - 1) / g.spdSize < 4096 := by
        rw [Nat.div_lt_iff_lt_mul g.spdSize_pos, ← g.vaSize_eq]
        omega
      have hk' : k ≤ size / g.spdSize := (Nat.le_div_iff_mul_le g.spdSize_pos).mpr (by omega)
      rw [g.iopdeIndex_eq, g.iopdeIndex_eq, add_mul_spdSize_div, Nat.mod_eq_of_lt hlt,
        Nat.mod_eq_of_lt (by omega)] at heq
      omega
    exact hinvalid (hsame ▸ hlast)
  · intro hcond va hlo hhi
    have hreached : va / g.spdSize ≤ iova / g.spdSize + size / g.spdSize →
        IsValid ((sunxiPgtablePrepareL1Tables g s iova (iova + size) allocs).2.pd
          (g.iopdeIndex va)) := by
      intro hle
      obtain ⟨k, hk, hidx⟩ := step_of_reached hlo hle
      obtain ⟨t, ht⟩ := hl1.done hret k hk
      exact hidx ▸ (isValid_of_slot ht).1
    rcases div_le_or_eq hlo hhi with hle | heq
    · exact hreached hle
    · rcases hcond with hle | hvalid
      · exact hreached (heq ▸ hle)
      · have hidx : g.iopdeIndex va = g.iopdeIndex (iova + size - 1) := by
          rw [g.iopdeIndex_eq, g.iopdeIndex_eq, heq]
        rw [hidx]
        exact (isValid_of_slot (hl1.kept _ _ (slot_of_isValid (g := g) hvalid))).1

/-! ### The second loop -/

/-- The entries after the call. -/
theorem pteAt_mapped (prot : ℕ) (h : Owned g s) (hallocs : AllocsOk g s allocs)
    (hr : PagesToFrames g iova paddr size)
    (hret : (sunxiPgtablePrepareL1Tables g s iova (iova + size) allocs).1 = 0)
    (hvalid : ∀ va, iova ≤ va → va < iova + size →
      IsValid ((sunxiPgtablePrepareL1Tables g s iova (iova + size) allocs).2.pd (g.iopdeIndex va)))
    {va : ℕ} (hva : va < 2 ^ g.vaBits) :
    pteAt g (sunxiIommuMap g s iova paddr size prot allocs).2 va =
      if iova ≤ va ∧ va < iova + size then preparedPte g (startFrame g paddr) prot iova va
      else pteAt g s va := by
  have hend : 4096 ∣ iova + size := Nat.dvd_add hr.iovaAligned hr.sizeAligned
  have hl1 := l1Prepared (g := g) iova (iova + size) allocs h hallocs
  have hstate : (sunxiIommuMap g s iova paddr size prot allocs).2 =
      prepareL2Loop g (sunxiPgtablePrepareL1Tables g s iova (iova + size) allocs).2 iova
        (iova + size) (startFrame g paddr) prot := by
    rw [sunxiIommuMap_of_dvd hr.iovaAligned hend, if_neg (not_not_intro hret)]
    rfl
  have hl2 := l2Prepared iova (iova + size) (startFrame g paddr) prot hl1.owned hr.iovaAligned
    hend hr.inside fun va hlo hhi => ⟨_, slot_of_isValid (hvalid va hlo hhi)⟩
  rw [hstate, hl2.pteAt_eq va hva, hl1.pteAt_eq]

/-- The frames of the second loop, on the bus. -/
theorem startFrame_eq (hr : PagesToFrames g iova paddr size) :
    startFrame g paddr = g.cpuPhyToIommuPhy paddr ∧ 4096 ∣ startFrame g paddr ∧
      startFrame g paddr % 2 ^ g.vaBits = paddr % 2 ^ g.vaBits := by
  have hpage : 4096 ∈ pgsizeBitmap := by decide
  have hspec : 4096 ∣ startFrame g paddr ∧
      startFrame g paddr % 2 ^ g.vaBits = paddr % 2 ^ g.vaBits :=
    startFrame_spec hpage hr.paddrAligned
  exact ⟨clearLow_of_dvd (g.dvd_cpuPhyToIommuPhy (by decide) hr.paddrAligned), hspec⟩

/-- The fold moves an address by 16 GiB, which is whole 4 GiB blocks. -/
theorem startFrame_cases (hr : PagesToFrames .v2 iova paddr size) :
    startFrame .v2 paddr = paddr ∨ startFrame .v2 paddr + 2 ^ 34 = paddr := by
  have hfold : startFrame .v2 paddr = if paddr > 2 ^ 34 then paddr - 2 ^ 34 else paddr :=
    (startFrame_eq hr).1
  split at hfold
  · right
    omega
  · left
    exact hfold

/-- Frames that do not cross a boundary under a directory entry are in one block. -/
theorem block_of_fits (hr : PagesToFrames .v2 iova paddr size)
    (hframes : Crosses paddr size →
      iova % Geometry.spdSize .v2 = paddr % Geometry.spdSize .v2) {va : ℕ}
    (hlo : iova ≤ va) (hhi : va < iova + size) :
    let c := partStart .v2 iova va
    (startFrame .v2 paddr + (c - iova) + 4096 * ((va - c) / 4096)) / 2 ^ 32 =
      (startFrame .v2 paddr + (c - iova)) / 2 ^ 32 := by
  intro c
  have hc : c = max iova (va / 4194304 * 4194304) := rfl
  have hle : c ≤ va := partStart_le hlo
  have hstart := startFrame_cases hr
  by_contra hne
  have hbelow : paddr + (c - iova) < ((paddr + (c - iova)) / 2 ^ 32 + 1) * 2 ^ 32 := by omega
  have habove : ((paddr + (c - iova)) / 2 ^ 32 + 1) * 2 ^ 32 ≤
      paddr + (c - iova) + 4096 * ((va - c) / 4096) := by omega
  have hsame := hframes ⟨(paddr + (c - iova)) / 2 ^ 32 + 1, by omega, by omega⟩
  rw [Geometry.spdSize_v2] at hsame
  -- the boundary is where a directory entry ends, behind the start of the part
  omega

/-- Frames that do not cross a boundary are stored right. -/
theorem encodes_of_fits (prot : ℕ) (hr : PagesToFrames g iova paddr size)
    (hframes : g = .v2 → Crosses paddr size → iova % g.spdSize = paddr % g.spdSize) {va : ℕ}
    (hlo : iova ≤ va) (hhi : va < iova + size) :
    Encodes g (preparedPte g (startFrame g paddr) prot iova va)
      (some (paddr + (va / 4096 * 4096 - iova), prot)) := by
  obtain ⟨-, hpage, hmod⟩ := startFrame_eq hr
  have hiova := hr.iovaAligned
  have hsize := hr.sizeAligned
  have hpaddr := hr.paddrAligned
  have hlow := hr.low
  have hhigh := hr.high
  have hoff : (va - iova) / 4096 * 4096 = va / 4096 * 4096 - iova := by omega
  refine ⟨by omega, by omega, by omega, startFrame g paddr + (va - iova) / 4096 * 4096, by omega,
    ?_, preparedPte_eq_of_block hiova hpage prot hlo ?_⟩
  · rw [hoff, Nat.add_mod, hmod, ← Nat.add_mod]
  · cases g with
    | v1 => exact Or.inr rfl
    | v2 => exact Or.inl (block_of_fits hr (hframes rfl) hlo hhi)

/-- The entry behind a boundary: the carry out of the low 32 bits is lost. -/
theorem preparedPte_of_boundary {page prot iova va : ℕ} (hiova : 4096 ∣ iova) (hpage : 4096 ∣ page)
    (hva : 4096 ∣ va) (hlo : iova ≤ va) (hpart : partStart .v2 iova va < va)
    (hbound : 2 ^ 32 ∣ page + (va - iova)) :
    preparedPte .v2 page prot iova va =
      ((page + (va - iova)) / 2 ^ 32 + 3) % 4 * 256 + pteFlags prot := by
  have hc : partStart .v2 iova va = max iova (va / 4194304 * 4194304) := rfl
  have hdvd : 4096 ∣ partStart .v2 iova va := dvd_partStart hiova va
  have hflags := pteFlags_lt prot
  obtain ⟨n, hn⟩ := hbound
  unfold preparedPte
  generalize partStart .v2 iova va = c at *
  obtain ⟨i, hi⟩ : ∃ i, va - c = 4096 * i := ⟨(va - c) / 4096, by omega⟩
  -- the frame that the driver adds to lies below the boundary
  have hframe : page + (c - iova) = 2 ^ 32 * (n - 1) + (2 ^ 32 - 4096 * i) := by omega
  have hlow : (page + (c - iova)) % 2 ^ 32 = 2 ^ 32 - 4096 * i := by omega
  have hhigh : (page + (c - iova)) / 2 ^ 32 = n - 1 := by omega
  rw [sunxiMkPte_eq .v2 (by omega), Geometry.high_v2, hlow, hhigh, hi, hn,
    Nat.mul_div_cancel_left _ (by decide), Nat.mul_div_cancel_left _ (by decide)]
  unfold toU32 SPAGE_SIZE
  omega

/-- The address in an entry without low address bits. -/
theorem iopteToPfn_high {high flags : ℕ} (hhigh : high < 4) (hflags : flags < 256) :
    iopteToPfn .v2 (high * 256 + flags) = high * 2 ^ 32 := by
  have hclear : clearLow IOMMU_PT_SHIFT (high * 256 + flags) = 0 := by
    have := clearLow_fields (k := 12) (a := 0) (h := high) (f := flags) ⟨0, rfl⟩ (by omega)
    rwa [Nat.zero_add] at this
  have hbits : ((high * 256 + flags) &&& (0x3 <<< 8)) >>> 8 = high := by
    have := highBits_fields (a := 0) (h := high) (f := flags) ⟨0, rfl⟩ hhigh hflags
    rwa [Nat.zero_add] at this
  rw [iopteToPfn_v2, hclear, hbits, Nat.zero_or, Nat.shiftLeft_eq]

/-- **Behind a boundary** the frame is 4 GiB too low. -/
theorem translate_of_crosses (prot : ℕ) (hr : PagesToFrames .v2 iova paddr size)
    (hcross : Crosses paddr size)
    (hne : iova % Geometry.spdSize .v2 ≠ paddr % Geometry.spdSize .v2) :
    ∃ k < size / 4096, ∀ s' : PgState,
      pteAt .v2 s' (iova + k * 4096) =
        preparedPte .v2 (startFrame .v2 paddr) prot iova (iova + k * 4096) →
      sunxiPgtableIovaToPhys .v2 s' (iova + k * 4096) ≠ paddr + k * 4096 := by
  obtain ⟨m, hbelow, habove⟩ := hcross
  obtain ⟨-, hpage, -⟩ := startFrame_eq hr
  have hstart := startFrame_cases hr
  have hiova := hr.iovaAligned
  have hsize := hr.sizeAligned
  have hpaddr := hr.paddrAligned
  rw [Geometry.spdSize_v2] at hne
  obtain ⟨k, hk⟩ : ∃ k, m * 2 ^ 32 = paddr + k * 4096 := ⟨(m * 2 ^ 32 - paddr) / 4096, by omega⟩
  refine ⟨k, by omega, fun s' hpte htrans => ?_⟩
  have hpart : partStart .v2 iova (iova + k * 4096) < iova + k * 4096 := by
    show max iova ((iova + k * 4096) / 4194304 * 4194304) < iova + k * 4096
    omega
  rw [preparedPte_of_boundary hiova hpage (by omega) (by omega) hpart (by omega)] at hpte
  have hoff : (iova + k * 4096) &&& (SPAGE_SIZE - 1) = 0 := by
    rw [show SPAGE_SIZE - 1 = 2 ^ 12 - 1 from rfl, and_mask]
    omega
  have hflags := pteFlags_lt prot
  have hpos := pteFlags_pos prot
  rw [sunxiPgtableIovaToPhys_eq, hpte, if_pos (by omega), iopteToPfn_high (Nat.mod_lt _ (by decide))
    (by omega), hoff] at htrans
  have hfold : ∀ x, Geometry.iommuPhyToCpuPhy .v2 x =
      if x < 0x40000000 then x + 2 ^ 34 else x := fun _ => rfl
  obtain ⟨n, hn, hnm⟩ :
      ∃ n, startFrame .v2 paddr + k * 4096 = n * 2 ^ 32 ∧ (n = m ∨ n + 4 = m) := by
    rcases hstart with hstart | hstart
    · exact ⟨m, by omega, Or.inl rfl⟩
    · exact ⟨m - 4, by omega, Or.inr (by omega)⟩
  rw [Nat.add_sub_cancel_left, hn, Nat.mul_div_cancel _ (by decide), ← hk, hfold] at htrans
  split at htrans
  · omega
  · omega

/-! ### The call -/

/-- **Mapping a range.** When the first loop succeeds, every entry that the second one follows is
valid, every page of the range translates to its frame with the access bits of `prot` and the others
are kept exactly when the steps of the first loop reach the last entry or it had a table, and, in
the second layout, no 4 GiB boundary lies among the frames of one entry. -/
theorem map_range_iff (g : Geometry) (s : PgState) (iova paddr size prot : ℕ)
    (allocs : List (Option ℕ)) (h : Owned g s) (hallocs : AllocsOk g s allocs)
    (hr : PagesToFrames g iova paddr size)
    (hret : (sunxiPgtablePrepareL1Tables g s iova (iova + size) allocs).1 = 0) :
    RangeMappedTo g s iova paddr size prot allocs ↔ MapFits g s iova paddr size := by
  have hiff := followed_iff h hallocs hr.inside hret
  constructor
  · intro hok
    refine ⟨hiff.mp hok.followed, ?_⟩
    rintro rfl hcross
    by_contra hne
    obtain ⟨k, hk, hbad⟩ := translate_of_crosses prot hr hcross hne
    have hsize := hr.sizeAligned
    have hin : iova + k * 4096 < iova + size := by omega
    have hpte := pteAt_mapped prot h hallocs hr hret hok.followed
      (hin.trans_le hr.inside)
    rw [if_pos ⟨Nat.le_add_right _ _, hin⟩] at hpte
    exact hbad _ hpte (hok.pages k hk).1
  · intro hfits
    have hvalid := hiff.mpr hfits.tables
    refine ⟨hvalid, fun k hk => ?_, fun va hva hout => ?_⟩
    · intro s'
      have hsize := hr.sizeAligned
      have hiova := hr.iovaAligned
      have hin : iova + k * 4096 < iova + size := by omega
      have hpte := pteAt_mapped prot h hallocs hr hret hvalid (hin.trans_le hr.inside)
      rw [if_pos ⟨Nat.le_add_right _ _, hin⟩] at hpte
      have hentry : Encodes g (pteAt g s' (iova + k * 4096)) (some (paddr + k * 4096, prot)) := by
        have hfit := encodes_of_fits prot hr hfits.frames (Nat.le_add_right iova _) hin
        rwa [← hpte, show (iova + k * 4096) / 4096 * 4096 - iova = k * 4096 by omega] at hfit
      have htrans := hentry.translate
      rw [show (iova + k * 4096) % 4096 = 0 by omega] at htrans
      exact ⟨htrans, hentry.access⟩
    · intro s'
      have hpte := pteAt_mapped prot h hallocs hr hret hvalid hva
      rw [if_neg hout] at hpte
      refine ⟨?_, hpte⟩
      rw [sunxiPgtableIovaToPhys_eq, sunxiPgtableIovaToPhys_eq, hpte]

/-- A range that the first loop leaves after one step, which allocates a table. -/
theorem prepareL1_of_one_step {a b p : ℕ} (hle : a ≤ b) (hlt : b < a + g.spdSize)
    (hv : ¬IsValid (s.pd (g.iopdeIndex a))) :
    sunxiPgtablePrepareL1Tables g s a b (some p :: allocs) =
      (0, sunxiAllocIopte g s (g.iopdeIndex a) p) := by
  rw [sunxiPgtablePrepareL1Tables, if_pos hle]
  dsimp only
  rw [if_neg hv, sunxiPgtablePrepareL1Tables, if_neg (Nat.not_le.mpr hlt)]

/-- Two pages under one entry. -/
theorem map_range_iff_two :
    RangeMappedTo .v1 (PgState.init fun _ => 0) 0x1000 0x50000000 0x2000 3 [some 0x40000000] ↔
      MapFits .v1 (PgState.init fun _ => 0) 0x1000 0x50000000 0x2000 := by
  apply map_range_iff
  · exact owned_init _
  · decide
  · decide
  · rw [prepareL1_of_one_step (by decide) (by decide) (by decide)]

/-- Two pages on both sides of a 1 MiB boundary: one step, and no table for the second page. -/
theorem last_table_is_missed :
    ¬∀ (g : Geometry) (s : PgState) (iova paddr size prot : ℕ) (allocs : List (Option ℕ)),
      Owned g s → AllocsOk g s allocs → PagesToFrames g iova paddr size →
      (sunxiPgtablePrepareL1Tables g s iova (iova + size) allocs).1 = 0 →
      RangeMappedTo g s iova paddr size prot allocs := by
  intro hall
  have hstep : sunxiPgtablePrepareL1Tables .v1 (PgState.init fun _ => 0) 0xff000
      (0xff000 + 0x2000) [some 0x40000000] = (0, _) :=
    prepareL1_of_one_step (by decide) (by decide) (by decide)
  have hok := hall .v1 (PgState.init fun _ => 0) 0xff000 0x50000000 0x2000 3 [some 0x40000000]
    (owned_init _) (by decide) (by decide) (by rw [hstep])
  have hlast := hok.followed 0x100000 (by decide) (by decide)
  rw [hstep] at hlast
  exact absurd hlast (by decide)

end LonganPi.Iommu
