import LonganPi.Iommu.MapUnmap
import LonganPi.Lib.Run

/-!
# Who owns the tables

Runs of `sunxi_iommu_map`, `sunxi_iommu_unmap` and `sunxi_pgtable_clear` on one page directory. A
call is enabled for a page of the bitmap, an unmap for pages that are mapped; any allocation may
fail, and one that succeeds returns an aligned address in RAM that is not in use.

`Owned` is an invariant of the machine (`owned_step`), and `pgtable_tables_owned` reads it back in
the terms of the packed directory entries.
-/

open DriverLib

namespace LonganPi.Iommu

/-- The calls on a page directory. The list has the answers of `kmem_cache_zalloc`. -/
inductive PgOp
  | map (iova paddr size prot : ℕ) (allocs : List (Option ℕ))
  | unmap (gather : IotlbGather) (iova size : ℕ)
  | clear

variable (g : Geometry)

instance (p : ℕ) : Decidable (TableAddr g p) :=
  decidable_of_iff (g.ptSize ∣ p ∧ SUNXI_PHYS_OFFSET ≤ p ∧ p < 2 ^ g.vaBits + SUNXI_PHYS_OFFSET)
    ⟨fun h => ⟨h.1, h.2.1, h.2.2⟩, fun h => ⟨h.aligned, h.low, h.high⟩⟩

instance (s : PgState) (allocs : List (Option ℕ)) : Decidable (AllocsOk g s allocs) :=
  decidable_of_iff ((∀ p ∈ allocs.reduceOption, TableAddr g p ∧ ¬ s.tables.Live p) ∧
    allocs.reduceOption.Nodup) ⟨fun h => ⟨h.1, h.2⟩, fun h => ⟨h.fresh, h.nodup⟩⟩

/-- Every page of the range is mapped. -/
def RangeMapped (s : PgState) (iova size : ℕ) : Prop :=
  ∀ i < size / 4096, pteAt g s (iova + 4096 * i) ≠ 0

instance (s : PgState) (iova size : ℕ) : Decidable (RangeMapped g s iova size) :=
  inferInstanceAs (Decidable (∀ i < size / 4096, _))

/-- The calls that the IOMMU core makes, with any allocation allowed to fail. -/
def pgMachine (version : ℕ) : Machine PgState PgOp ℤ where
  step s
    | .map iova paddr size prot allocs =>
      if PageRange g iova size ∧ AllocsOk g s allocs then
        some (sunxiIommuMap g s iova paddr size prot allocs)
      else none
    | .unmap gather iova size =>
      if PageRange g iova size ∧ RangeMapped g s iova size then
        let r := sunxiIommuUnmap g version s gather iova size
        some (r.ret, r.state)
      else none
    | .clear => some (0, sunxiPgtableClear g s)

/-- The directory and the live tables, in the terms of the packed entries. -/
structure TablesOwned (s : PgState) : Prop where
  -- a valid entry decodes to a live table
  live : ∀ i < g.numEntriesPde, IsValid (s.pd i) → s.tables.Live (iopteBase g (s.pd i))
  -- two valid entries decode to two tables
  distinct : ∀ i < g.numEntriesPde, ∀ j < g.numEntriesPde, IsValid (s.pd i) → IsValid (s.pd j) →
    iopteBase g (s.pd i) = iopteBase g (s.pd j) → i = j
  -- a live table is referenced by exactly one entry
  owner : ∀ t, s.tables.Live t →
    ∃! i, i < g.numEntriesPde ∧ IsValid (s.pd i) ∧ iopteBase g (s.pd i) = t
  -- no table was freed twice, or referenced after it was freed
  clean : s.tables.fault = false

variable {g}

theorem slot_eq_some {s : PgState} {i t : ℕ} :
    s.slot g i = some t ↔ IsValid (s.pd i) ∧ iopteBase g (s.pd i) = t :=
  ⟨isValid_of_slot, fun ⟨hv, ht⟩ => ht ▸ slot_of_isValid hv⟩

theorem Owned.tablesOwned {s : PgState} (h : Owned g s) : TablesOwned g s where
  live i _ hv := h.owned.live i _ (slot_of_isValid hv)
  distinct i _ j _ hi hj heq :=
    h.owned.inj i j _ (slot_of_isValid hi) (heq ▸ slot_of_isValid hj)
  owner t ht := by
    obtain ⟨i, hi, huniq⟩ := h.owned.existsUnique ht
    refine ⟨i, ⟨h.bound i t hi, slot_eq_some.mp hi⟩, fun j hj => huniq j ?_⟩
    exact slot_eq_some.mpr hj.2
  clean := h.owned.clean

/-- A mapped page has a table. -/
theorem RangeMapped.table {s : PgState} {iova size : ℕ} (h : RangeMapped g s iova size)
    (hr : PageRange g iova size) {va : ℕ} (hlo : iova ≤ va) (hhi : va < iova + size) :
    ∃ t, s.slot g (g.iopdeIndex va) = some t := by
  have hstart := hr.start_dvd
  have hpage := page_dvd_of_mem hr.size_mem
  have hpte := h ((va - iova) / 4096) (by omega)
  have hsame : (iova + 4096 * ((va - iova) / 4096)) / 4096 = va / 4096 := by omega
  rw [pteAt_congr hsame] at hpte
  exact slot_of_pteAt hpte

/-- Every call keeps the tables owned. -/
theorem owned_step (version : ℕ) (s : PgState) (op : PgOp) (o : ℤ) (s' : PgState) (h : Owned g s)
    (hop : (pgMachine g version).step s op = some (o, s')) : Owned g s' := by
  cases op with
  | map iova paddr size prot allocs =>
    change (if _ then _ else _) = _ at hop
    split at hop
    · next hlegal =>
      obtain ⟨hr, hallocs⟩ := hlegal
      have hspec := (sunxiIommuMap_spec h hr paddr prot hallocs).1
      rw [Option.some.inj hop] at hspec
      exact hspec
    · cases hop
  | unmap gather iova size =>
    change (if _ then _ else _) = _ at hop
    split at hop
    · next hlegal =>
      obtain ⟨hr, hmapped⟩ := hlegal
      obtain ⟨-, rfl⟩ := Prod.mk.inj (Option.some.inj hop)
      exact (sunxiIommuUnmap_spec version gather h hr fun va => hmapped.table hr).1
    · cases hop
  | clear =>
    obtain ⟨-, rfl⟩ := Prod.mk.inj (Option.some.inj hop)
    exact (sunxiPgtableClear_spec h).1

/-- **The directory owns the tables.** In every state of every run each valid directory entry
decodes to a live table of its own, each live table has exactly one entry, and none was freed twice
or used after its release; a clear leaves no valid entry and no live table. -/
theorem pgtable_tables_owned (g : Geometry) (version : ℕ) (mem : ℕ → ℕ) (ops : List PgOp) :
    TablesOwned g (PgState.init mem) ∧
      (pgMachine g version).Along (fun _ op _ s' => TablesOwned g s' ∧
        (op = .clear → (∀ i < g.numEntriesPde, ¬ IsValid (s'.pd i)) ∧ ∀ t, ¬ s'.tables.Live t))
        (PgState.init mem) ops := by
  refine ⟨(owned_init mem).tablesOwned, ?_⟩
  refine Machine.along_inv (fun s op o s' h hop => ?_) (owned_init (g := g) mem) ops
  have h' := owned_step version s op o s' h hop
  refine ⟨h', h'.tablesOwned, fun hclear => ?_⟩
  subst hclear
  obtain ⟨-, rfl⟩ := Prod.mk.inj (Option.some.inj hop)
  obtain ⟨-, hempty⟩ := sunxiPgtableClear_spec h
  exact ⟨fun i _ => slot_eq_none.mp (hempty i), fun t => h'.owned.not_live hempty⟩

end LonganPi.Iommu
