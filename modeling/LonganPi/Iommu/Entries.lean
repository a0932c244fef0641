import LonganPi.Iommu.Pgtable

/-!
# What the packed entries mean

Directory entries hold the address of a table, page entries the address of a page and its
permissions, both in one `u32`. The addresses are bus addresses, where the first gigabyte of the
address space stands for the gigabyte above `2 ^ IOMMU_VA_BITS`; in the second layout they have 34
bits, of which the two high ones are packed into bits 8 and 9.

Every entry is brought into the form `address + high * 256 + flags` first (`mkDent_eq`,
`sunxiMkPte_eq`), with `high` 0 in the first layout. Decoding such a sum is then division and
remainder, and the round trips are `iopteBase_mkDent` and `iopteToPfn_sunxiMkPte`.
-/

open DriverLib

namespace LonganPi.Iommu

namespace Geometry

variable (g : Geometry)

theorem numEntriesPde_eq : g.numEntriesPde = 4096 := by cases g <;> rfl

theorem ptSize_eq : g.ptSize = 2 ^ g.ptBits := by cases g <;> rfl

theorem spdSize_eq : g.spdSize = g.numEntriesPte * 4096 := by cases g <;> rfl

theorem vaSize_eq : 2 ^ g.vaBits = 4096 * g.spdSize := by cases g <;> rfl

theorem numEntriesPte_pos : 0 < g.numEntriesPte := Nat.two_pow_pos _

theorem iopdeIndex_eq (va : ℕ) : g.iopdeIndex va = va / g.spdSize % 4096 := by
  rw [iopdeIndex, numEntriesPde, and_mask, Nat.shiftRight_eq_div_pow, ← numEntriesPde,
    numEntriesPde_eq]
  rfl

theorem iopteIndex_lt (va : ℕ) : g.iopteIndex va < g.numEntriesPte := by
  rw [iopteIndex_eq]
  exact Nat.mod_lt _ g.numEntriesPte_pos

theorem iopdeIndex_lt (va : ℕ) : g.iopdeIndex va < g.numEntriesPde := by
  rw [iopdeIndex_eq, numEntriesPde_eq]
  exact Nat.mod_lt _ (by decide)

/-- The high address bits of an entry, none in the first layout. -/
def high (x : ℕ) : ℕ := match g with | v1 => 0 | v2 => x / 2 ^ 32 % 4

@[simp] theorem high_v1 (x : ℕ) : high v1 x = 0 := rfl

@[simp] theorem high_v2 (x : ℕ) : high v2 x = x / 2 ^ 32 % 4 := rfl

theorem high_lt (x : ℕ) : g.high x < 4 := by
  cases g
  · exact Nat.zero_lt_succ 3
  · exact Nat.mod_lt _ (by decide)

/-- The low 32 bits and the high bits are the bus address. -/
theorem low_add_high (x : ℕ) : x % 2 ^ 32 + g.high x * 2 ^ 32 = x % 2 ^ g.vaBits := by
  cases g
  · show x % 2 ^ 32 + 0 * 2 ^ 32 = x % 2 ^ 32
    omega
  · show x % 2 ^ 32 + x / 2 ^ 32 % 4 * 2 ^ 32 = x % 2 ^ 34
    omega

/-- Addresses in RAM survive the fold of the bus addresses. -/
theorem iommuPhyToCpuPhy_mod {pa : ℕ} (hlo : SUNXI_PHYS_OFFSET ≤ pa)
    (hhi : pa < 2 ^ g.vaBits + SUNXI_PHYS_OFFSET) :
    g.iommuPhyToCpuPhy (pa % 2 ^ g.vaBits) = pa := by
  unfold iommuPhyToCpuPhy SUNXI_PHYS_OFFSET at *
  cases g
  · change pa < 2 ^ 32 + 0x40000000 at hhi
    show (if pa % 2 ^ 32 < 0x40000000 then pa % 2 ^ 32 + 2 ^ 32 else pa % 2 ^ 32) = pa
    split <;> omega
  · change pa < 2 ^ 34 + 0x40000000 at hhi
    show (if pa % 2 ^ 34 < 0x40000000 then pa % 2 ^ 34 + 2 ^ 34 else pa % 2 ^ 34) = pa
    split <;> omega

/-- The fold does not change an address modulo the bus. -/
theorem cpuPhyToIommuPhy_mod (pa : ℕ) :
    g.cpuPhyToIommuPhy pa % 2 ^ g.vaBits = pa % 2 ^ g.vaBits := by
  unfold cpuPhyToIommuPhy
  split
  · next h => rw [← Nat.mod_eq_sub_mod (Nat.le_of_lt h)]
  · rfl

theorem dvd_cpuPhyToIommuPhy {n pa : ℕ} (hn : n ∣ 2 ^ 32) (h : n ∣ pa) :
    n ∣ g.cpuPhyToIommuPhy pa := by
  unfold cpuPhyToIommuPhy
  split
  · refine Nat.dvd_sub h (hn.trans (Nat.pow_dvd_pow 2 ?_))
    cases g <;> decide
  · exact h

end Geometry

variable (g : Geometry)

/-! ### Splitting a word -/

/-- The two bits of the second layout that hold the high address bits. -/
theorem highBits_eq (x : ℕ) : ((x >>> 32) <<< 8) &&& (0x3 <<< 8) = x / 2 ^ 32 % 4 * 2 ^ 8 := by
  rw [shiftLeft_and_shiftLeft, Nat.shiftLeft_eq, Nat.shiftRight_eq_div_pow]
  exact congrArg (· * 2 ^ 8) (and_mask 2 _)

/-- An entry is the sum of its fields: the address, the high bits at bit 8 and the flags. -/
theorem clearLow_fields {k a h f : ℕ} (ha : 2 ^ k ∣ a) (hlt : h * 256 + f < 2 ^ k) :
    clearLow k (a + h * 256 + f) = a := by
  obtain ⟨b, rfl⟩ := ha
  rw [clearLow_eq, Nat.add_assoc, Nat.mul_add_div (Nat.two_pow_pos k), Nat.div_eq_of_lt hlt,
    Nat.add_zero, Nat.mul_comm]

theorem highBits_fields {a h f : ℕ} (ha : 2 ^ 10 ∣ a) (hh : h < 4) (hf : f < 256) :
    ((a + h * 256 + f) &&& (0x3 <<< 8)) >>> 8 = h := by
  rw [and_shiftRight, Nat.shiftRight_eq_div_pow]
  refine (and_mask 2 _).trans ?_
  obtain ⟨b, rfl⟩ := ha
  omega

/-! ### Directory entries -/

theorem isValid_iff (dent : ℕ) : IsValid dent ↔ dent % 4 = 1 := by
  unfold IsValid
  rw [show (0x03 : ℕ) = 2 ^ 2 - 1 from rfl, and_mask]
  rfl

theorem not_isValid_zero : ¬ IsValid 0 := by decide

theorem mkDent_v1 (pent : ℕ) :
    mkDent .v1 pent = toU32 (Geometry.cpuPhyToIommuPhy .v1 pent ||| 0x01) := rfl

theorem mkDent_v2 (pent : ℕ) :
    mkDent .v2 pent = toU32 (toU32 (Geometry.cpuPhyToIommuPhy .v2 pent ||| 0x01) |||
      (((pent >>> 32) <<< 8) &&& (0x3 <<< 8))) := rfl

theorem iopteBase_v1 (ent : ℕ) :
    iopteBase .v1 ent = Geometry.iommuPhyToCpuPhy .v1 (clearLow (Geometry.ptBits .v1) ent) := rfl

theorem iopteBase_v2 (ent : ℕ) :
    iopteBase .v2 ent = Geometry.iommuPhyToCpuPhy .v2 (clearLow (Geometry.ptBits .v2) ent |||
      ((ent &&& (0x3 <<< 8)) >>> 8) <<< 32) := rfl

/-- A directory entry is the bus address of its table, its high bits and the valid bit. -/
theorem mkDent_eq {pent : ℕ} (h : g.ptSize ∣ pent) :
    mkDent g pent = pent % 2 ^ 32 + g.high pent * 256 + 1 := by
  rw [g.ptSize_eq] at h
  have hbits : g.ptBits ≤ 32 := by cases g <;> decide
  have hiommu := g.dvd_cpuPhyToIommuPhy (Nat.pow_dvd_pow 2 hbits) h
  have hone : g.cpuPhyToIommuPhy pent ||| 0x01 = g.cpuPhyToIommuPhy pent + 1 :=
    or_eq_add hiommu (Nat.one_lt_two_pow (by cases g <;> decide))
  have hmod : g.cpuPhyToIommuPhy pent % 2 ^ 32 = pent % 2 ^ 32 := by
    have hva : (2 : ℕ) ^ 32 ∣ 2 ^ g.vaBits := Nat.pow_dvd_pow 2 (by cases g <;> decide)
    rw [← Nat.mod_mod_of_dvd _ hva, g.cpuPhyToIommuPhy_mod, Nat.mod_mod_of_dvd _ hva]
  have hsent : toU32 (g.cpuPhyToIommuPhy pent ||| 0x01) = pent % 2 ^ 32 + 1 := by
    rw [hone, ← hmod]
    unfold toU32
    have heven : 2 ∣ g.cpuPhyToIommuPhy pent :=
      (Nat.pow_dvd_pow 2 (by cases g <;> decide : 1 ≤ g.ptBits)).trans hiommu
    omega
  cases g
  · rw [mkDent_v1, hsent, Geometry.high_v1]
  · rw [mkDent_v2, Geometry.high_v2]
    have hlow : 2 ^ 12 ∣ pent % 2 ^ 32 := (Nat.dvd_mod_iff (by decide)).mpr h
    rw [hsent, highBits_eq]
    generalize hA : pent % 2 ^ 32 = A at hlow
    generalize hH : pent / 2 ^ 32 % 4 = H
    have hA' : A < 2 ^ 32 := hA ▸ Nat.mod_lt _ (by decide)
    have hH' : H < 4 := hH ▸ Nat.mod_lt _ (by decide)
    -- the valid bit is below the high bits, and both are below the address
    have hor : (A + 1) ||| H * 2 ^ 8 = A + (H * 2 ^ 8 + 1) := by
      rw [← or_eq_add hlow (by decide : 1 < 2 ^ 12), Nat.or_assoc, Nat.or_comm 1,
        or_eq_add (Nat.dvd_mul_left (2 ^ 8) H) (by decide : 1 < 2 ^ 8), or_eq_add hlow (by omega)]
    rw [hor]
    unfold toU32
    omega

theorem isValid_mkDent {pent : ℕ} (h : g.ptSize ∣ pent) : IsValid (mkDent g pent) := by
  rw [isValid_iff, mkDent_eq g h]
  have h4 : 4 ∣ pent := (Dvd.intro_left _ rfl : 4 ∣ g.ptSize).trans h
  omega

/-- **A table's address survives its directory entry.** -/
theorem iopteBase_mkDent {pent : ℕ} (hdvd : g.ptSize ∣ pent) (hlo : SUNXI_PHYS_OFFSET ≤ pent)
    (hhi : pent < 2 ^ g.vaBits + SUNXI_PHYS_OFFSET) : iopteBase g (mkDent g pent) = pent := by
  have hbits : 10 ≤ g.ptBits := by cases g <;> decide
  have hbits' : g.ptBits ≤ 32 := by cases g <;> decide
  have hlow : 2 ^ g.ptBits ∣ pent % 2 ^ 32 :=
    (Nat.dvd_mod_iff (Nat.pow_dvd_pow 2 hbits')).mpr (g.ptSize_eq ▸ hdvd)
  have hhigh := g.high_lt pent
  have hclear : clearLow g.ptBits (mkDent g pent) = pent % 2 ^ 32 := by
    rw [mkDent_eq g hdvd]
    refine clearLow_fields hlow ?_
    cases g
    · show 0 * 256 + 1 < 2 ^ 10
      decide
    · show Geometry.high .v2 pent * 256 + 1 < 2 ^ 12
      omega
  have hbase : iopteBase g (mkDent g pent) = g.iommuPhyToCpuPhy (pent % 2 ^ g.vaBits) := by
    rw [← g.low_add_high]
    cases g
    · rw [iopteBase_v1, hclear, Geometry.high_v1, Nat.zero_mul, Nat.add_zero]
    · have hbits : ((mkDent .v2 pent &&& (0x3 <<< 8)) >>> 8) = Geometry.high .v2 pent := by
        rw [mkDent_eq .v2 hdvd]
        exact highBits_fields ((Nat.pow_dvd_pow 2 hbits).trans hlow) hhigh (by decide)
      rw [iopteBase_v2, hclear, hbits, Nat.shiftLeft_eq,
        or_eq_add' (Nat.mod_lt _ (Nat.two_pow_pos 32)) (Nat.dvd_mul_left (2 ^ 32) _)]
  rw [hbase, g.iommuPhyToCpuPhy_mod hlo hhi]

/-! ### Page entries -/

/-- The permission and valid bits of a page entry. -/
def pteFlags (prot : ℕ) : ℕ :=
  (if prot &&& IOMMU_READ ≠ 0 then 0x4 else 0) + (if prot &&& IOMMU_WRITE ≠ 0 then 0x8 else 0) + 2

theorem pteFlags_lt (prot : ℕ) : pteFlags prot < 16 := by
  unfold pteFlags
  split <;> split <;> decide

theorem pteFlags_pos (prot : ℕ) : 2 ≤ pteFlags prot := Nat.le_add_left _ _

theorem sunxiMkPte_v1 (page prot : ℕ) :
    sunxiMkPte .v1 page prot = toU32 (clearLow IOMMU_PT_SHIFT page ||| 0 |||
      ((if prot &&& IOMMU_READ ≠ 0 then 0x4 else 0) |||
        (if prot &&& IOMMU_WRITE ≠ 0 then 0x8 else 0)) ||| 0x2) := rfl

theorem sunxiMkPte_v2 (page prot : ℕ) :
    sunxiMkPte .v2 page prot = toU32 (clearLow IOMMU_PT_SHIFT page |||
      (((clearLow IOMMU_PT_SHIFT page >>> 32) <<< 8) &&& (0x3 <<< 8)) |||
      ((if prot &&& IOMMU_READ ≠ 0 then 0x4 else 0) |||
        (if prot &&& IOMMU_WRITE ≠ 0 then 0x8 else 0)) ||| 0x2) := rfl

/-- A page entry is the bus address of its page, its high bits and its flags. -/
theorem sunxiMkPte_eq {page : ℕ} (h : 4096 ∣ page) (prot : ℕ) :
    sunxiMkPte g page prot = page % 2 ^ 32 + g.high page * 256 + pteFlags prot := by
  have hclear : clearLow IOMMU_PT_SHIFT page = page := clearLow_of_dvd h
  have hf : ∃ b, ((if prot &&& IOMMU_READ ≠ 0 then 0x4 else 0) |||
      (if prot &&& IOMMU_WRITE ≠ 0 then 0x8 else 0)) = 4 * b ∧ 4 * b + 2 = pteFlags prot := by
    unfold pteFlags
    split <;> split
    exacts [⟨3, rfl, rfl⟩, ⟨1, rfl, rfl⟩, ⟨2, rfl, rfl⟩, ⟨0, rfl, rfl⟩]
  obtain ⟨b, hb, hflags⟩ := hf
  have hlt : 4 * b + 2 < 16 := hflags ▸ pteFlags_lt prot
  -- address, high bits, permissions and the valid bit, each below the one before it
  have hor : ∀ hi < 4, page ||| hi * 2 ^ 8 ||| 4 * b ||| 0x2 = page + hi * 256 + (4 * b + 2) := by
    intro hi hhi
    have h8 : 2 ^ 8 ∣ page + hi * 2 ^ 8 := by omega
    have h2 : 2 ^ 2 ∣ page + hi * 2 ^ 8 + 4 * b := by omega
    rw [or_eq_add (k := 12) h (by omega), or_eq_add h8 (by omega), or_eq_add h2 (by decide)]
    omega
  rw [← hflags]
  cases g
  · have := hor 0 (by decide)
    rw [Nat.zero_mul] at this
    rw [sunxiMkPte_v1, hclear, hb, this, Geometry.high_v1]
    unfold toU32
    omega
  · have := hor (page / 2 ^ 32 % 4) (Nat.mod_lt _ (by decide))
    rw [sunxiMkPte_v2, hclear, highBits_eq, hb, this, Geometry.high_v2]
    unfold toU32
    omega

theorem sunxiMkPte_ne_zero {page : ℕ} (h : 4096 ∣ page) (prot : ℕ) :
    sunxiMkPte g page prot ≠ 0 := by
  have := pteFlags_pos prot
  rw [sunxiMkPte_eq g h]
  omega

theorem iopteToPfn_v1 (pent : ℕ) : iopteToPfn .v1 pent = clearLow IOMMU_PT_SHIFT pent := rfl

theorem iopteToPfn_v2 (pent : ℕ) : iopteToPfn .v2 pent =
    clearLow IOMMU_PT_SHIFT pent ||| ((pent &&& (0x3 <<< 8)) >>> 8) <<< 32 := rfl

/-- **A page's address survives its page entry, modulo the bus.** -/
theorem iopteToPfn_sunxiMkPte {page : ℕ} (h : 4096 ∣ page) (prot : ℕ) :
    iopteToPfn g (sunxiMkPte g page prot) = page % 2 ^ g.vaBits := by
  have hflags := pteFlags_lt prot
  have hhigh := g.high_lt page
  have hlow : 2 ^ 12 ∣ page % 2 ^ 32 := (Nat.dvd_mod_iff (by decide)).mpr h
  have hclear : clearLow IOMMU_PT_SHIFT (sunxiMkPte g page prot) = page % 2 ^ 32 := by
    rw [sunxiMkPte_eq g h]
    refine clearLow_fields hlow ?_
    show g.high page * 256 + pteFlags prot < 2 ^ 12
    omega
  rw [← g.low_add_high]
  cases g
  · rw [iopteToPfn_v1, hclear, Geometry.high_v1]
    rfl
  · have hbits : ((sunxiMkPte .v2 page prot &&& (0x3 <<< 8)) >>> 8) = Geometry.high .v2 page := by
      rw [sunxiMkPte_eq .v2 h]
      exact highBits_fields ((Nat.pow_dvd_pow 2 (by decide)).trans hlow) hhigh (by omega)
    rw [iopteToPfn_v2, hclear, hbits, Nat.shiftLeft_eq,
      or_eq_add' (Nat.mod_lt _ (Nat.two_pow_pos 32)) (Nat.dvd_mul_left (2 ^ 32) _)]

/-- The driver's way to write the entry of the `i`-th page of a block, by adding to the entry of
the first one, is right while the block does not cross a 4 GiB boundary of the second layout. -/
theorem sunxiMkPte_add {page i : ℕ} (h : 4096 ∣ page)
    (hblock : (page + 4096 * i) / 2 ^ 32 = page / 2 ^ 32 ∨ g = .v1) (prot : ℕ) :
    toU32 (sunxiMkPte g page prot + SPAGE_SIZE * i) = sunxiMkPte g (page + 4096 * i) prot := by
  have hflags := pteFlags_lt prot
  have hnext : 4096 ∣ page + 4096 * i := Nat.dvd_add h (Nat.dvd_mul_right 4096 i)
  rw [sunxiMkPte_eq g h, sunxiMkPte_eq g hnext]
  unfold toU32 SPAGE_SIZE
  cases g
  · rw [Geometry.high_v1, Geometry.high_v1]
    omega
  · have hsame := hblock.resolve_right (fun h => nomatch h)
    rw [Geometry.high_v2, Geometry.high_v2, hsame]
    omega

/-! ### Permissions -/

/-- The valid bit of a page entry. -/
def SUNXI_PTE_PAGE_VALID : ℕ := 0x2

/-- The readable bit of a page entry. -/
def SUNXI_PTE_PAGE_READABLE : ℕ := 0x4

/-- The writable bit of a page entry. -/
def SUNXI_PTE_PAGE_WRITABLE : ℕ := 0x8

theorem readable_sunxiMkPte {page : ℕ} (h : 4096 ∣ page) (prot : ℕ) :
    sunxiMkPte g page prot &&& SUNXI_PTE_PAGE_READABLE ≠ 0 ↔ prot &&& IOMMU_READ ≠ 0 := by
  rw [show SUNXI_PTE_PAGE_READABLE = 2 ^ 2 from rfl, and_two_pow_ne_zero, sunxiMkPte_eq g h]
  unfold pteFlags
  by_cases hr : prot &&& IOMMU_READ ≠ 0
  · rw [if_pos hr]
    split <;> omega
  · rw [if_neg hr]
    split <;> omega

theorem writable_sunxiMkPte {page : ℕ} (h : 4096 ∣ page) (prot : ℕ) :
    sunxiMkPte g page prot &&& SUNXI_PTE_PAGE_WRITABLE ≠ 0 ↔ prot &&& IOMMU_WRITE ≠ 0 := by
  rw [show SUNXI_PTE_PAGE_WRITABLE = 2 ^ 3 from rfl, and_two_pow_ne_zero, sunxiMkPte_eq g h]
  unfold pteFlags
  by_cases hw : prot &&& IOMMU_WRITE ≠ 0
  · rw [if_pos hw]
    split <;> omega
  · rw [if_neg hw]
    split <;> omega

end LonganPi.Iommu
