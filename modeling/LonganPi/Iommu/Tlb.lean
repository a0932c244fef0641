import LonganPi.Iommu.Tables
import LonganPi.Lib.Cache
import LonganPi.Lib.Run

/-!
# Invalidating the caches of the IOMMU

The hardware caches page entries in a TLB and directory entries in a page-walk cache. An unmap is a
program of single stores and register writes: what `sunxi_iommu_unmap` does, and after it what
`sunxi_iommu_iotlb_sync` does on the gathered range (`unmapProgram`). Between any two steps of it a
device may load the entry of a page or of a directory entry that is valid at that moment.

The runs are those of `sunxi-iommu-v1.c`, with the first layout. Its registers have 32 bits, so that
an end of `2 ^ 32` is written as 0. A range invalidation removes the pages that start in `[start,
stop)` and the directory entries that map some address of it; an address invalidation removes the
page, or the directory entry, of the address.
-/

open DriverLib

namespace LonganPi.Iommu

/-! ### The rest of the program -/

/-- `SPD_SIZE` of the first layout -/
def SPD_SIZE : ℕ := Geometry.spdSize .v1

/-- `sunxi_zap_tlb` -/
def sunxiZapTlb (g : Geometry) (version iova size : ℕ) : List DrvStep :=
  if version ≤ IOMMU_VERSION_V11 then
    sunxiTlbInvalid g version iova IOMMU_PT_MASK ++
    sunxiTlbInvalid g version (iova + SPAGE_SIZE) IOMMU_PT_MASK ++
    sunxiTlbInvalid g version (iova + size) IOMMU_PT_MASK ++
    sunxiTlbInvalid g version (iova + size + SPAGE_SIZE) IOMMU_PT_MASK ++
    sunxiPtwCacheInvalid g version iova 0 ++
    sunxiPtwCacheInvalid g version (iova + g.spdSize) 0 ++
    sunxiPtwCacheInvalid g version (iova + size) 0 ++
    sunxiPtwCacheInvalid g version (iova + size + g.spdSize) 0
  else if version ≤ IOMMU_VERSION_V13 then
    sunxiTlbInvalid g version iova (iova + 2 * SPAGE_SIZE) ++
    sunxiTlbInvalid g version (subU64 (iova + size) SPAGE_SIZE)
      (iova + size + 8 * SPAGE_SIZE) ++
    sunxiPtwCacheInvalid g version iova 0 ++
    sunxiPtwCacheInvalid g version (iova + size) 0 ++
    sunxiPtwCacheInvalid g version (iova + g.spdSize) 0 ++
    sunxiPtwCacheInvalid g version (iova + size + g.spdSize) 0 ++
    sunxiPtwCacheInvalid g version (iova + size + 2 * g.spdSize) 0
  else
    sunxiTlbInvalid g version iova (iova + 2 * SPAGE_SIZE) ++
    sunxiTlbInvalid g version (subU64 (iova + size) SPAGE_SIZE)
      (iova + size + 8 * SPAGE_SIZE) ++
    sunxiPtwCacheInvalid g version iova (iova + g.spdSize) ++
    sunxiPtwCacheInvalid g version (subU64 (iova + size) g.spdSize) (iova + size)

/-- The step removes the TLB entry of page number `q`. -/
def DrvStep.CoversTlb : DrvStep → ℕ → Prop
  | .tlbRange start stop, q => start ≤ q * 4096 ∧ q * 4096 < stop
  | .tlbAddr addr _, q => addr / 4096 = q
  | _, _ => False

/-- The step removes the page-walk entry of directory entry `d`. -/
def DrvStep.CoversPtw : DrvStep → ℕ → Prop
  | .ptwRange start stop, d => start < stop ∧ start < (d + 1) * SPD_SIZE ∧ d * SPD_SIZE < stop
  | .ptwAddr addr, d => addr / SPD_SIZE = d
  | _, _ => False

instance (st : DrvStep) : DecidablePred st.CoversTlb := fun q => by
  cases st <;> unfold DrvStep.CoversTlb <;> infer_instance

instance (st : DrvStep) : DecidablePred st.CoversPtw := fun d => by
  cases st <;> unfold DrvStep.CoversPtw <;> infer_instance

/-- The tables as the hardware sees them, its caches, and how far the driver is. -/
structure TlbState where
  -- the number of steps that the driver has made
  pc : ℕ
  -- by page number
  pteValid : ℕ → Bool
  -- by index
  pdeValid : ℕ → Bool
  -- the TLB, by page number
  tlb : ℕ → Bool
  -- the page-walk cache, by index
  ptw : ℕ → Bool

/-- What happens: the driver makes its next step, or a device access loads an entry. -/
inductive TlbOp
  | drv
  | loadTlb (q : ℕ)
  | loadPtw (d : ℕ)

/-- The hardware in front of a page table, with anything in its caches. -/
def TlbState.init (s : PgState) (tlb ptw : ℕ → Bool) : TlbState where
  pc := 0
  pteValid q := pteAt .v1 s (q * 4096) &&& SUNXI_PTE_PAGE_VALID ≠ 0
  pdeValid d := IsValid (s.pd d)
  tlb := tlb
  ptw := ptw

/-! ### Runs -/

section Runs

variable {prog : List DrvStep}

end Runs

end LonganPi.Iommu
