import LonganPi.Iommu.MapRange
import LonganPi.Lib.Runs

/-!
# The dump of the page table

`sunxi_pgtable_dump` prints the mapped pages as regions. Two nested loops walk the directory and
the tables behind its valid entries; one region is counted at a time, and it is printed at a page
without an entry, at a directory entry without a table, at a page with other access bits and at the
end. The text is left out: the model returns the regions that are printed, in order.

A region that is being counted has a size, and "counting" is `active_region.size != 0`. The test
for other access bits also asks for `active_region.access_mask != 0`, which is no test for
counting: a region of pages without READ and WRITE takes in every page behind it. In the words of
`Runs`, the pages of the aperture are cut into runs by a relation that is not symmetric
(`Joins`), and the regions of the dump are these runs (`sunxiPgtableDump_eq`). So the dump is right
about everything but the access bits, and about these as long as no page without access is followed
by one with access (`dump_faithful_iff`).
-/

open DriverLib

namespace LonganPi.Iommu

/-! ### The code -/

/-- The access bits of an entry. -/
def accessBits (pent : ℕ) : ℕ := pent &&& (SUNXI_PTE_PAGE_READABLE ||| SUNXI_PTE_PAGE_WRITABLE)

/-- `__region_ended` -/
def regionEnded (pent : ℕ) : Bool := pent &&& SUNXI_PTE_PAGE_VALID == 0

/-- `__access_mask_changed` -/
def accessMaskChanged (pent oldMask : ℕ) : Bool := oldMask != accessBits pent

def DUMP_REGION_MAP : ℕ := 0

/-- `struct dump_region` -/
structure DumpRegion where
  accessMask : ℕ
  size : ℕ
  type : ℕ
  phys : ℕ
  iova : ℕ
  deriving DecidableEq, Repr

/-- The region that is being counted and the regions that are printed. -/
structure Dump where
  active : DumpRegion
  printed : List DumpRegion

/-- The active region is printed, and the next one prepared. -/
def Dump.print (d : Dump) : Dump :=
  ⟨{ d.active with size := 0, accessMask := 0 }, d.printed ++ [d.active]⟩

section Code

variable (g : Geometry)

/-- The first half of a turn of the inner loop: the page with the entry `pent` may end the region
that is being counted. -/
def endRegion (pent : ℕ) (d : Dump) : Dump :=
  if d.active.size ≠ 0 ∧ (regionEnded pent ∨
      (d.active.accessMask ≠ 0 ∧ accessMaskChanged pent d.active.accessMask)) then d.print
  else d

/-- The second half: the page is counted, in a new region if none is being counted. -/
def countPage (i j pent : ℕ) (d : Dump) : Dump :=
  if pent &&& SUNXI_PTE_PAGE_VALID ≠ 0 then
    let active :=
      if d.active.size = 0 then { d.active with
        iova := (i <<< g.pdShift) + (j <<< IOMMU_PT_SHIFT)
        phys := g.iommuPhyToCpuPhy (iopteToPfn g pent)
        accessMask := accessBits pent }
      else d.active
    { d with active := { active with size := active.size + 1 <<< IOMMU_PT_SHIFT } }
  else d

/-- One turn of the inner loop, for the entry `pent` at index `j` of the table at index `i`. -/
def dumpPage (i j pent : ℕ) (d : Dump) : Dump := countPage g i j pent (endRegion pent d)

/-- One turn of the outer loop. -/
def dumpEntry (s : PgState) (d : Dump) (i : ℕ) : Dump :=
  let dent := s.pd i
  if ¬ IsValid dent then (if d.active.size ≠ 0 then d.print else d)
  else
    let pent := iopteOffset g dent 0
    (List.range g.numEntriesPte).foldl (fun d j => dumpPage g i j (s.mem (pent + 4 * j)) d) d

/-- `sunxi_pgtable_dump`: the regions it prints. `phys` and `iova` are what the fields of the
active region hold before they are set. -/
def sunxiPgtableDump (s : PgState) (phys iova : ℕ) : List DumpRegion :=
  let d := (List.range g.numEntriesPde).foldl (dumpEntry g s)
    ⟨⟨0, 0, DUMP_REGION_MAP, phys, iova⟩, []⟩
  if d.active.size ≠ 0 then d.printed ++ [d.active] else d.printed

end Code

/-! ### What a dump should say -/

/-- The entry of the address has the valid bit. -/
def PteValid (g : Geometry) (s : PgState) (va : ℕ) : Prop :=
  pteAt g s va &&& SUNXI_PTE_PAGE_VALID ≠ 0

instance (g : Geometry) (s : PgState) (va : ℕ) : Decidable (PteValid g s va) :=
  inferInstanceAs (Decidable (_ ≠ _))

/-- The region has the address. -/
def DumpRegion.Has (r : DumpRegion) (va : ℕ) : Prop := r.iova ≤ va ∧ va < r.iova + r.size

/-- The regions are the mapped part of the aperture. -/
structure DumpFaithful (g : Geometry) (s : PgState) (regions : List DumpRegion) : Prop where
  map : ∀ r ∈ regions, r.type = DUMP_REGION_MAP
  -- disjoint and in ascending order
  sorted : regions.Pairwise fun r r' => r.iova + r.size ≤ r'.iova
  -- no region is empty
  nonempty : ∀ r ∈ regions, 0 < r.size
  -- together they are the addresses with a valid entry
  union : ∀ va, (∃ r ∈ regions, r.Has va) ↔ va < 2 ^ g.vaBits ∧ PteValid g s va
  -- the frame of the first page
  phys : ∀ r ∈ regions, r.phys = sunxiPgtableIovaToPhys g s r.iova
  -- the access bits of every page
  access : ∀ r ∈ regions, ∀ va, r.Has va → accessBits (pteAt g s va) = r.accessMask

/-- No page without access is followed by a page with access. -/
def NoAccessLast (g : Geometry) (s : PgState) : Prop :=
  ∀ va, va + 4096 < 2 ^ g.vaBits → PteValid g s va → PteValid g s (va + 4096) →
    accessBits (pteAt g s va) = 0 → accessBits (pteAt g s (va + 4096)) = 0

/-! ### The regions are runs -/

/-- The entry of page `n`, if it is valid. -/
def validPte (g : Geometry) (s : PgState) (n : ℕ) : Option ℕ :=
  if PteValid g s (n * 4096) then some (pteAt g s (n * 4096)) else none

/-- The rule by which the dump takes a page into the region that `a` opened. -/
def Joins (a b : ℕ) : Prop := accessBits a = 0 ∨ accessBits a = accessBits b

instance : DecidableRel Joins := fun _ _ => inferInstanceAs (Decidable (_ ∨ _))

/-- The region of a run of pages. -/
def runRegion (g : Geometry) (r : Run ℕ) : DumpRegion where
  accessMask := accessBits r.first
  size := r.length * 4096
  type := DUMP_REGION_MAP
  phys := g.iommuPhyToCpuPhy (iopteToPfn g r.first)
  iova := r.start * 4096

/-- The loops have come as far as the scan of the pages. -/
structure Shows (g : Geometry) (d : Dump) (c : Scan ℕ) : Prop where
  printed : d.printed = c.done.map (runRegion g)
  type : d.active.type = DUMP_REGION_MAP
  idle : c.cur = none → d.active.size = 0
  active : ∀ r, c.cur = some r → 0 < r.length ∧ d.active = runRegion g r

section Shows

variable {g : Geometry} {s : PgState} {d : Dump} {c : Scan ℕ}

/-- The regions that are printed when the active one is closed. -/
theorem Shows.flush (h : Shows g d c) : (if d.active.size ≠ 0 then d.printed ++ [d.active]
    else d.printed) = c.flush.map (runRegion g) := by
  rcases c with ⟨l, cur⟩
  cases cur with
  | none =>
    rw [if_neg (not_not_intro (h.idle rfl)), Scan.flush_none]
    exact h.printed
  | some r =>
    obtain ⟨hpos, hactive⟩ := h.active r rfl
    have hsize : d.active.size ≠ 0 := by
      rw [hactive]
      exact (Nat.mul_pos hpos (by decide)).ne'
    rw [if_pos hsize, Scan.flush_some, List.map_append, hactive, h.printed]
    rfl

/-- A page without an entry. -/
theorem Shows.gap (h : Shows g d c) :
    Shows g (if d.active.size ≠ 0 then d.print else d) ⟨c.flush, none⟩ := by
  have hflush := h.flush
  split
  · next hsize =>
    rw [if_pos hsize] at hflush
    exact ⟨hflush, h.type, fun _ => rfl, nofun⟩
  · next hsize =>
    rw [if_neg hsize] at hflush
    exact ⟨hflush, h.type, fun _ => not_not.mp hsize, nofun⟩

theorem pageSize_eq : 1 <<< IOMMU_PT_SHIFT = 4096 := rfl

/-- The address that the two indices of a page stand for. -/
theorem pageIova_eq {i j n : ℕ} (hn : i * g.numEntriesPte + j = n) :
    (i <<< g.pdShift) + (j <<< IOMMU_PT_SHIFT) = n * 4096 := by
  have hentry : i <<< g.pdShift = i * g.numEntriesPte * 4096 := by
    rw [Nat.shiftLeft_eq, Nat.mul_assoc, ← g.spdSize_eq, Geometry.spdSize]
  have hpage : j <<< IOMMU_PT_SHIFT = j * 4096 := Nat.shiftLeft_eq j 12
  rw [hentry, hpage, ← hn, Nat.add_mul]

/-- A valid page when no region is being counted. -/
theorem countPage_idle {i j n pent : ℕ} (hn : i * g.numEntriesPte + j = n)
    (hv : pent &&& SUNXI_PTE_PAGE_VALID ≠ 0) (hsize : d.active.size = 0)
    (htype : d.active.type = DUMP_REGION_MAP) :
    countPage g i j pent d = ⟨runRegion g ⟨n, 1, pent⟩, d.printed⟩ := by
  unfold countPage runRegion
  rw [if_pos hv, if_pos hsize]
  dsimp only
  rw [hsize, htype, pageIova_eq hn, pageSize_eq, Nat.zero_add, Nat.one_mul]

/-- A valid page when a region is being counted. -/
theorem countPage_active {i j pent : ℕ} {r : Run ℕ} (hv : pent &&& SUNXI_PTE_PAGE_VALID ≠ 0)
    (hpos : 0 < r.length) (hactive : d.active = runRegion g r) :
    countPage g i j pent d = ⟨runRegion g { r with length := r.length + 1 }, d.printed⟩ := by
  have hsize : d.active.size ≠ 0 := by
    rw [hactive]
    exact (Nat.mul_pos hpos (by decide)).ne'
  unfold countPage
  rw [if_pos hv, if_neg hsize, hactive]
  unfold runRegion
  dsimp only
  rw [pageSize_eq, Nat.succ_mul]

/-- A page without an entry ends the region. -/
theorem endRegion_gap {pent : ℕ} (hv : ¬ pent &&& SUNXI_PTE_PAGE_VALID ≠ 0) :
    endRegion pent d = if d.active.size ≠ 0 then d.print else d := by
  have hended : regionEnded pent = true := beq_iff_eq.mpr (not_not.mp hv)
  unfold endRegion
  by_cases hsize : d.active.size ≠ 0
  · rw [if_pos hsize, if_pos ⟨hsize, Or.inl hended⟩]
  · rw [if_neg hsize, if_neg fun h => hsize h.1]

/-- A valid page ends the region when it does not join it. -/
theorem endRegion_active {pent : ℕ} {r : Run ℕ} (hv : pent &&& SUNXI_PTE_PAGE_VALID ≠ 0)
    (hpos : 0 < r.length) (hactive : d.active = runRegion g r) :
    endRegion pent d = if Joins r.first pent then d else d.print := by
  have hended : ¬ regionEnded pent = true := fun hend => hv (beq_iff_eq.mp hend)
  have hsize : d.active.size ≠ 0 := by
    rw [hactive]
    exact (Nat.mul_pos hpos (by decide)).ne'
  have hmask : d.active.accessMask = accessBits r.first := congrArg DumpRegion.accessMask hactive
  unfold endRegion
  rw [hmask]
  by_cases hjoin : Joins r.first pent
  · rw [if_pos hjoin, if_neg]
    rintro ⟨-, hend | ⟨hne, hchanged⟩⟩
    · exact hended hend
    · exact bne_iff_ne.mp hchanged (hjoin.resolve_left hne)
  · obtain ⟨hne, hchanged⟩ := not_or.mp hjoin
    rw [if_neg hjoin, if_pos ⟨hsize, Or.inr ⟨hne, bne_iff_ne.mpr hchanged⟩⟩]

/-- One turn of the inner loop is one step of the scan. -/
theorem Shows.page (h : Shows g d c) {i j n : ℕ} (hn : i * g.numEntriesPte + j = n) (pent : ℕ) :
    Shows g (dumpPage g i j pent d)
      (c.step Joins n (if pent &&& SUNXI_PTE_PAGE_VALID ≠ 0 then some pent else none)) := by
  unfold dumpPage
  by_cases hv : pent &&& SUNXI_PTE_PAGE_VALID ≠ 0
  swap
  · rw [if_neg hv, countPage, if_neg hv, endRegion_gap hv]
    exact h.gap
  rw [if_pos hv]
  have hopened : ∀ l, Shows g ⟨runRegion g ⟨n, 1, pent⟩, l.map (runRegion g)⟩
      ⟨l, some ⟨n, 1, pent⟩⟩ := fun l => by
    refine ⟨rfl, rfl, nofun, fun r hr => ?_⟩
    obtain rfl := Option.some.inj hr
    exact ⟨Nat.one_pos, rfl⟩
  rcases c with ⟨l, cur⟩
  cases cur with
  | none =>
    have hidle : endRegion pent d = d := if_neg fun hcount => hcount.1 (h.idle rfl)
    rw [hidle, countPage_idle hn hv (h.idle rfl) h.type, h.printed]
    exact hopened l
  | some r =>
    obtain ⟨hpos, hactive⟩ := h.active r rfl
    rw [endRegion_active hv hpos hactive]
    show Shows g _ (if _ then _ else _)
    by_cases hjoin : Joins r.first pent
    · rw [if_pos hjoin, if_pos hjoin, countPage_active hv hpos hactive]
      refine ⟨h.printed, rfl, nofun, fun q hq => ?_⟩
      obtain rfl := Option.some.inj hq
      exact ⟨Nat.succ_pos _, rfl⟩
    · rw [if_neg hjoin, if_neg hjoin, countPage_idle (d := d.print) hn hv rfl h.type]
      have hprinted : d.print.printed = (l ++ [r]).map (runRegion g) := by
        rw [List.map_append, ← h.printed, Dump.print, hactive]
        rfl
      rw [hprinted]
      exact hopened (l ++ [r])

/-- The entry of the page with index `j` under the directory entry `i`. -/
theorem pteAt_page {i j : ℕ} (hi : i < g.numEntriesPde) (hj : j < g.numEntriesPte) :
    pteAt g s ((i * g.numEntriesPte + j) * 4096) =
      if IsValid (s.pd i) then s.mem (iopteOffset g (s.pd i) 0 + 4 * j) else 0 := by
  have hpde : g.iopdeIndex ((i * g.numEntriesPte + j) * 4096) = i := by
    rw [g.iopdeIndex_eq, g.spdSize_eq, Nat.mul_div_mul_right _ _ (by decide), Nat.mul_comm i,
      Nat.mul_add_div g.numEntriesPte_pos, Nat.div_eq_of_lt hj, Nat.add_zero]
    exact Nat.mod_eq_of_lt (g.numEntriesPde_eq ▸ hi)
  have hpte : g.iopteIndex ((i * g.numEntriesPte + j) * 4096) = j := by
    rw [g.iopteIndex_eq, Nat.mul_div_cancel _ (by decide), Nat.mul_comm i, Nat.mul_add_mod]
    exact Nat.mod_eq_of_lt hj
  have hzero : iopteOffset g (s.pd i) 0 = iopteBase g (s.pd i) := by
    rw [iopteOffset, g.iopteIndex_eq, Nat.zero_div, Nat.zero_mod]
    rfl
  unfold pteAt
  rw [hpde, hpte, hzero]
  by_cases hv : IsValid (s.pd i)
  · rw [slot_of_isValid hv, if_pos hv]
  · rw [slot_eq_none.mpr hv, if_neg hv]

/-- The pages of a table, from the one where the scan stands. -/
theorem Shows.table {i n : ℕ} (hi : i < g.numEntriesPde) (hv : IsValid (s.pd i))
    (h : Shows g d (scan Joins (validPte g s) (i * g.numEntriesPte))) (hn : n ≤ g.numEntriesPte) :
    Shows g ((List.range n).foldl (fun d j =>
        dumpPage g i j (s.mem (iopteOffset g (s.pd i) 0 + 4 * j)) d) d)
      (scan Joins (validPte g s) (i * g.numEntriesPte + n)) := by
  induction n with
  | zero => exact h
  | succ n ih =>
    rw [List.range_succ, List.foldl_append, ← Nat.add_assoc, scan_succ]
    have hpage := (ih (Nat.le_of_succ_le hn)).page (i := i) (j := n) rfl
      (s.mem (iopteOffset g (s.pd i) 0 + 4 * n))
    have hpte := pteAt_page (s := s) hi (Nat.lt_of_succ_le hn)
    rw [if_pos hv] at hpte
    rw [← hpte] at hpage
    rw [List.foldl_cons, List.foldl_nil, ← hpte]
    exact hpage

/-- One turn of the outer loop. -/
theorem Shows.entry {i : ℕ} (hi : i < g.numEntriesPde)
    (h : Shows g d (scan Joins (validPte g s) (i * g.numEntriesPte))) :
    Shows g (dumpEntry g s d i) (scan Joins (validPte g s) ((i + 1) * g.numEntriesPte)) := by
  rw [Nat.succ_mul]
  unfold dumpEntry
  dsimp only
  by_cases hv : IsValid (s.pd i)
  · rw [if_neg (not_not_intro hv)]
    exact h.table hi hv le_rfl
  · rw [if_pos hv]
    obtain ⟨k, hk⟩ : ∃ k, g.numEntriesPte = k + 1 :=
      Nat.exists_eq_succ_of_ne_zero g.numEntriesPte_pos.ne'
    have hgap : ∀ m, i * g.numEntriesPte ≤ m → m ≤ i * g.numEntriesPte + k →
        validPte g s m = none := fun m hlo hhi => by
      have hpte := pteAt_page (s := s) (j := m - i * g.numEntriesPte) hi (by omega)
      rw [if_neg hv, Nat.add_sub_cancel' hlo] at hpte
      have hinvalid : ¬ PteValid g s (m * 4096) := by
        unfold PteValid
        rw [hpte]
        exact not_not_intro (Nat.zero_and _)
      exact if_neg hinvalid
    have hend : i * g.numEntriesPte + g.numEntriesPte = i * g.numEntriesPte + k + 1 := by omega
    rw [hend, scan_gap k hgap]
    exact h.gap

/-- **The dump prints the runs of the pages.** -/
theorem sunxiPgtableDump_eq (g : Geometry) (s : PgState) (phys iova : ℕ) :
    sunxiPgtableDump g s phys iova =
      (runs Joins (validPte g s) (g.numEntriesPde * g.numEntriesPte)).map (runRegion g) := by
  have hloop : ∀ n, n ≤ g.numEntriesPde →
      Shows g ((List.range n).foldl (dumpEntry g s) ⟨⟨0, 0, DUMP_REGION_MAP, phys, iova⟩, []⟩)
        (scan Joins (validPte g s) (n * g.numEntriesPte)) := fun n hn => by
    induction n with
    | zero =>
      rw [Nat.zero_mul]
      exact ⟨rfl, rfl, fun _ => rfl, nofun⟩
    | succ n ih =>
      rw [List.range_succ, List.foldl_append]
      exact (ih (Nat.le_of_succ_le hn)).entry hn
  exact (hloop g.numEntriesPde le_rfl).flush

end Shows

/-! ### Pages and addresses -/

section Faithful

variable {g : Geometry} {s : PgState} {r : Run ℕ}

/-- The number of pages of the aperture. -/
theorem pages_eq (g : Geometry) : g.numEntriesPde * g.numEntriesPte * 4096 = 2 ^ g.vaBits := by
  rw [Nat.mul_assoc, ← g.spdSize_eq, g.vaSize_eq, g.numEntriesPde_eq]

theorem has_runRegion {va : ℕ} : (runRegion g r).Has va ↔ r.Covers (va / 4096) := by
  show r.start * 4096 ≤ va ∧ va < r.start * 4096 + r.length * 4096 ↔
    r.start ≤ va / 4096 ∧ va / 4096 < r.start + r.length
  omega

theorem validPte_div (va : ℕ) :
    validPte g s (va / 4096) = if PteValid g s va then some (pteAt g s va) else none := by
  have hpage : pteAt g s (va / 4096 * 4096) = pteAt g s va := pteAt_congr (by omega)
  have hiff : PteValid g s (va / 4096 * 4096) ↔ PteValid g s va := by rw [PteValid, hpage, PteValid]
  rw [validPte, hpage]
  exact if_congr hiff rfl rfl

theorem validPte_of_valid {va : ℕ} (hv : PteValid g s va) :
    validPte g s (va / 4096) = some (pteAt g s va) := by rw [validPte_div, if_pos hv]

theorem validPte_eq_some {n a : ℕ} (h : validPte g s n = some a) :
    PteValid g s (n * 4096) ∧ pteAt g s (n * 4096) = a := by
  unfold validPte at h
  split at h
  · next hv => exact ⟨hv, Option.some.inj h⟩
  · cases h

/-- The page with a value of a run. -/
theorem pteAt_of_some {va a : ℕ} (h : validPte g s (va / 4096) = some a) : pteAt g s va = a := by
  rw [← (validPte_eq_some h).2]
  exact pteAt_congr (by omega)

/-- The frame of a valid page, at its first address. -/
theorem translate_page {n a : ℕ} (h : validPte g s n = some a) :
    sunxiPgtableIovaToPhys g s (n * 4096) = g.iommuPhyToCpuPhy (iopteToPfn g a) := by
  obtain ⟨hv, rfl⟩ := validPte_eq_some h
  have hne : pteAt g s (n * 4096) ≠ 0 := fun hzero => hv (by rw [hzero]; rfl)
  have hoff : n * 4096 &&& (SPAGE_SIZE - 1) = 0 := by
    show n * 4096 &&& (2 ^ 12 - 1) = 0
    rw [Nat.and_two_pow_sub_one_eq_mod]
    omega
  rw [sunxiPgtableIovaToPhys_eq, if_pos hne, hoff, Nat.add_zero]

/-- The access bits of a run are those of all its pages, when access does not begin inside one. -/
theorem access_of_noAccessLast (hlast : NoAccessLast g s) {N : ℕ} (hN : N * 4096 = 2 ^ g.vaBits)
    (hr : r.In Joins (validPte g s)) (hstop : r.stop ≤ N) {k a : ℕ} (hk : r.Covers k)
    (ha : validPte g s k = some a) : accessBits a = accessBits r.first := by
  by_cases hzero : accessBits r.first = 0
  · -- from one page of the run to the next
    have hall : ∀ i, r.start + i < r.stop → ∀ b, validPte g s (r.start + i) = some b →
        accessBits b = 0 := fun i hi => by
      induction i with
      | zero =>
        intro b hb
        rw [← Option.some.inj (hr.first.symm.trans hb)]
        exact hzero
      | succ i ih =>
        intro b hb
        obtain ⟨c, hc, -⟩ := hr.value ⟨Nat.le_add_right r.start i, by omega⟩
        obtain ⟨hcv, rfl⟩ := validPte_eq_some hc
        obtain ⟨hbv, rfl⟩ := validPte_eq_some hb
        have hnext : (r.start + (i + 1)) * 4096 = (r.start + i) * 4096 + 4096 := by
          rw [← Nat.add_assoc, Nat.succ_mul]
        have hbound : (r.start + i) * 4096 + 4096 < 2 ^ g.vaBits := by
          rw [← hN, ← hnext]
          exact Nat.mul_lt_mul_of_pos_right (hi.trans_le hstop) (by decide)
        rw [hnext] at hbv ⊢
        exact hlast _ hbound hcv hbv (ih (by omega) _ hc)
    obtain ⟨i, rfl⟩ := Nat.exists_eq_add_of_le hk.1
    rw [hall i hk.2 a ha, hzero]
  · obtain ⟨b, hb, hjoin⟩ := hr.value hk
    obtain rfl := Option.some.inj (ha.symm.trans hb)
    rcases hjoin with rfl | hjoin
    · rfl
    · exact (hjoin.resolve_left hzero).symm

/-- A faithful dump has no page with access behind one without. -/
theorem DumpFaithful.noAccessLast {phys iova : ℕ}
    (h : DumpFaithful g s (sunxiPgtableDump g s phys iova)) : NoAccessLast g s := by
  intro va hlt hv hnext hzero
  obtain ⟨region, hregion, hhas⟩ := (h.union va).mpr ⟨by omega, hv⟩
  have haccess := h.access region hregion
  have hmem := hregion
  rw [sunxiPgtableDump_eq] at hmem
  obtain ⟨q, hq, rfl⟩ := List.mem_map.mp hmem
  have hfirst : accessBits q.first = 0 := (haccess va hhas).symm.trans hzero
  have hcov := has_runRegion.mp hhas
  have hpage : (va + 4096) / 4096 = va / 4096 + 1 := by omega
  have hval := validPte_of_valid hnext
  rcases Nat.lt_or_eq_of_le (Nat.succ_le_of_lt hcov.2) with hin | hstop
  · have hhas' : (runRegion g q).Has (va + 4096) := by
      rw [has_runRegion, hpage]
      exact ⟨Nat.le_succ_of_le hcov.1, hin⟩
    exact (haccess _ hhas').trans hfirst
  · -- the run would have gone on
    have hsize := pages_eq g
    have hstop : q.stop = va / 4096 + 1 := hstop.symm
    rw [hpage, ← hstop] at hval
    exact absurd (Or.inl hfirst) (not_joins_of_stop hq hval (by omega))

/-- **The dump is faithful** exactly when no page without READ and WRITE is followed by a page with
one of them. -/
theorem dump_faithful_iff (g : Geometry) (s : PgState) (phys iova : ℕ) :
    DumpFaithful g s (sunxiPgtableDump g s phys iova) ↔ NoAccessLast g s := by
  refine ⟨fun h => h.noAccessLast, fun hlast => ?_⟩
  have hsize := pages_eq g
  rw [sunxiPgtableDump_eq]
  constructor
  · intro region hregion
    obtain ⟨r, -, rfl⟩ := List.mem_map.mp hregion
    rfl
  · refine List.pairwise_map.mpr (runs_sorted.imp fun {r r'} hle => ?_)
    show r.start * 4096 + r.length * 4096 ≤ r'.start * 4096
    rw [← Nat.add_mul]
    exact Nat.mul_le_mul_right _ hle
  · intro region hregion
    obtain ⟨r, hr, rfl⟩ := List.mem_map.mp hregion
    exact Nat.mul_pos (run_in hr).pos (by decide)
  · intro va
    have hcover : (∃ region ∈ (runs Joins (validPte g s)
          (g.numEntriesPde * g.numEntriesPte)).map (runRegion g), region.Has va) ↔
        ∃ r ∈ runs Joins (validPte g s) (g.numEntriesPde * g.numEntriesPte),
          r.Covers (va / 4096) := by
      constructor
      · rintro ⟨region, hregion, hhas⟩
        obtain ⟨r, hr, rfl⟩ := List.mem_map.mp hregion
        exact ⟨r, hr, has_runRegion.mp hhas⟩
      · rintro ⟨r, hr, hcov⟩
        exact ⟨runRegion g r, List.mem_map_of_mem hr, has_runRegion.mpr hcov⟩
    rw [hcover, covered_runs_iff, validPte_div]
    refine and_congr (by omega) ?_
    split
    · next hv => exact ⟨fun _ => hv, fun _ => Option.some_ne_none _⟩
    · next hv => exact ⟨fun hne => absurd rfl hne, fun hv' => absurd hv' hv⟩
  · intro region hregion
    obtain ⟨r, hr, rfl⟩ := List.mem_map.mp hregion
    exact (translate_page (run_in hr).first).symm
  · intro region hregion va hhas
    obtain ⟨r, hr, rfl⟩ := List.mem_map.mp hregion
    have hcov := has_runRegion.mp hhas
    obtain ⟨a, ha, -⟩ := (run_in hr).value hcov
    rw [pteAt_of_some ha]
    exact access_of_noAccessLast hlast hsize (run_in hr) (stop_le_of_mem_runs hr) hcov ha

/-- A call that maps a page, when it gets its table. -/
theorem map_page (version iova paddr prot : ℕ) (allocs : List (Option ℕ)) (h : Owned g s)
    (hr : PageRange g iova 4096) (hallocs : AllocsOk g s allocs)
    (hret : (sunxiPgtablePrepareL1Tables g s iova (iova + 4096) allocs).1 = 0) :
    ∃ s', (pgMachine g version).step s (.map iova paddr 4096 prot allocs) = some (0, s') ∧
      Owned g s' ∧ ∀ va < 2 ^ g.vaBits, pteAt g s' va =
        if iova ≤ va ∧ va < iova + 4096 then preparedPte g (startFrame g paddr) prot iova va
        else pteAt g s va := by
  have hzero : (sunxiIommuMap g s iova paddr 4096 prot allocs).1 = 0 := by
    rw [sunxiIommuMap_of_dvd hr.start_dvd hr.end_dvd, if_neg (not_not_intro hret)]
  obtain ⟨howned, ⟨hfailed, -⟩ | ⟨-, hpte⟩⟩ := sunxiIommuMap_spec h hr paddr prot hallocs
  · exact absurd (hzero.symm.trans hfailed) (by decide)
  · refine ⟨_, ?_, howned, hpte⟩
    have hstep : (pgMachine g version).step s (.map iova paddr 4096 prot allocs) =
        some (sunxiIommuMap g s iova paddr 4096 prot allocs) := if_pos ⟨hr, hallocs⟩
    rw [hstep]
    exact congrArg some (Prod.fst_eq_iff.mp hzero)

/-- The first loop of a map when the one entry that it meets is there. -/
theorem prepareL1_of_table {a b : ℕ} {allocs : List (Option ℕ)} (hle : a ≤ b)
    (hlt : b < a + g.spdSize) (hv : IsValid (s.pd (g.iopdeIndex a))) :
    sunxiPgtablePrepareL1Tables g s a b allocs = (0, s) := by
  rw [sunxiPgtablePrepareL1Tables, if_pos hle]
  dsimp only
  rw [if_pos hv, sunxiPgtablePrepareL1Tables, if_neg (Nat.not_le.mpr hlt)]

/-- A page without access, and a readable page behind it. -/
theorem access_begins_inside : ¬∀ (ops : List PgOp) (s : PgState),
    (pgMachine .v1 IOMMU_VERSION_V14).exec (PgState.init fun _ => 0) ops = some s →
      DumpFaithful .v1 s (sunxiPgtableDump .v1 s 0 0) := by
  intro hall
  have hnew : sunxiPgtablePrepareL1Tables .v1 (PgState.init fun _ => 0) 0 (0 + 4096)
      [some 0x40000000] = (0, _) := prepareL1_of_one_step (by decide) (by decide) (by decide)
  have howned : Owned .v1 (PgState.init fun _ => 0) := owned_init _
  obtain ⟨s₁, hop₁, howned, hpte₁⟩ := map_page IOMMU_VERSION_V14 0 0x50000000 0
    [some 0x40000000] howned (by decide) (by decide) (by rw [hnew])
  have hfirst : pteAt .v1 s₁ 0 = preparedPte .v1 (startFrame .v1 0x50000000) 0 0 0 :=
    hpte₁ 0 (by decide)
  have hne : pteAt .v1 s₁ 0 ≠ 0 := by rw [hfirst]; decide
  obtain ⟨t, ht⟩ := slot_of_pteAt hne
  have htable : sunxiPgtablePrepareL1Tables .v1 s₁ 4096 (4096 + 4096) [] = (0, s₁) :=
    prepareL1_of_table (by decide) (by decide) (isValid_of_slot ht).1
  have hallocs : AllocsOk .v1 s₁ [] := ⟨fun _ hp => absurd hp List.not_mem_nil, List.nodup_nil⟩
  obtain ⟨s₂, hop₂, -, hpte₂⟩ := map_page IOMMU_VERSION_V14 4096 0x50001000 1 [] howned (by decide)
    hallocs (by rw [htable])
  have hrun : (pgMachine .v1 IOMMU_VERSION_V14).exec (PgState.init fun _ => 0)
      [.map 0 0x50000000 4096 0 [some 0x40000000], .map 4096 0x50001000 4096 1 []] = some s₂ := by
    rw [Machine.exec_cons, hop₁, Option.bind_some, Machine.exec_cons, hop₂]
    rfl
  have hpage₁ : pteAt .v1 s₂ 0 = preparedPte .v1 (startFrame .v1 0x50000000) 0 0 0 :=
    (hpte₂ 0 (by decide)).trans hfirst
  have hpage₂ : pteAt .v1 s₂ (0 + 4096) = preparedPte .v1 (startFrame .v1 0x50001000) 1 4096 4096 :=
    hpte₂ 4096 (by decide)
  have hlast := (hall _ _ hrun).noAccessLast 0 (by decide)
  unfold PteValid at hlast
  rw [hpage₁, hpage₂] at hlast
  exact absurd (hlast (by decide) (by decide) (by decide)) (by decide)

end Faithful

end LonganPi.Iommu
