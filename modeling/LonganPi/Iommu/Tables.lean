import LonganPi.Iommu.Entries
import Mathlib.Data.List.ReduceOption

/-!
# Tables, pages and the parts of a range

What the operations of the page table do, told without entries and loops. `PgState.slot` reads the
directory as a family of slots that own tables (`Owned`), and `pteAt` is the entry of an address,
0 where there is no table. Every store of the driver is one of three moves: a fresh table goes to
an empty slot, words of an owned table are written, a slot frees its table. Each move has a lemma
that says that ownership is kept, and one that says what it does to `pteAt`.

A range is worked off in parts, one for each directory entry it meets. `partEnd` is where the first
part ends.
-/

open DriverLib

namespace LonganPi.Iommu

/-! ### Addresses -/

namespace Geometry

theorem spdSize_v1 : spdSize .v1 = 1048576 := rfl

theorem spdSize_v2 : spdSize .v2 = 4194304 := rfl

theorem numEntriesPte_v1 : numEntriesPte .v1 = 256 := rfl

theorem numEntriesPte_v2 : numEntriesPte .v2 = 1024 := rfl

theorem ptSize_v1 : ptSize .v1 = 1024 := rfl

theorem ptSize_v2 : ptSize .v2 = 4096 := rfl

variable (g : Geometry)

theorem iopdeIndex_of_lt {va : ℕ} (h : va < 2 ^ g.vaBits) : g.iopdeIndex va = va / g.spdSize := by
  rw [iopdeIndex_eq]
  apply Nat.mod_eq_of_lt
  rw [vaSize_eq, Nat.mul_comm] at h
  exact Nat.div_lt_of_lt_mul h

/-- Two addresses of the aperture share a table. -/
theorem iopdeIndex_inj {va vb : ℕ} (ha : va < 2 ^ g.vaBits) (hb : vb < 2 ^ g.vaBits) :
    g.iopdeIndex va = g.iopdeIndex vb ↔ va / g.spdSize = vb / g.spdSize := by
  rw [g.iopdeIndex_of_lt ha, g.iopdeIndex_of_lt hb]

/-- The addresses of one page have one entry. -/
theorem iopdeIndex_congr {va vb : ℕ} (h : va / 4096 = vb / 4096) :
    g.iopdeIndex va = g.iopdeIndex vb := by
  rw [iopdeIndex_eq, iopdeIndex_eq, spdSize_eq, Nat.mul_comm, ← Nat.div_div_eq_div_mul, h,
    Nat.div_div_eq_div_mul]

theorem page_dvd_spdSize : 4096 ∣ g.spdSize := ⟨g.numEntriesPte, by rw [spdSize_eq, Nat.mul_comm]⟩

/-- The index of an address counts the pages from the start of what its directory entry maps. -/
theorem iopteIndex_page (va : ℕ) :
    va / 4096 = va / g.spdSize * g.numEntriesPte + g.iopteIndex va := by
  rw [iopteIndex_eq, spdSize_eq, Nat.mul_comm g.numEntriesPte, ← Nat.div_div_eq_div_mul,
    Nat.mul_comm, Nat.div_add_mod]

end Geometry

theorem spageAlign_of_dvd {x : ℕ} (h : 4096 ∣ x) : spageAlign x = x := by
  obtain ⟨n, rfl⟩ := h
  rw [spageAlign, clearLow_eq]
  show (4096 * n + 4095) / 4096 * 4096 = 4096 * n
  omega

variable (g : Geometry)

/-! ### The parts of a range -/

/-- The end of the part of `[a, b)` that lies under the directory entry of `a`. -/
def partEnd (a b : ℕ) : ℕ := min b ((a / g.spdSize + 1) * g.spdSize)

section Part

variable {g} {a b : ℕ}

theorem lt_partEnd (h : a < b) : a < partEnd g a b :=
  Nat.lt_min.mpr ⟨h, Nat.lt_mul_of_div_lt (Nat.lt_succ_self _) g.spdSize_pos⟩

theorem partEnd_le : partEnd g a b ≤ b := Nat.min_le_left ..

theorem dvd_partEnd (hb : 4096 ∣ b) : 4096 ∣ partEnd g a b := by
  unfold partEnd
  rcases Nat.le_total b ((a / g.spdSize + 1) * g.spdSize) with h | h
  · rwa [Nat.min_eq_left h]
  · rw [Nat.min_eq_right h]
    exact Dvd.dvd.mul_left g.page_dvd_spdSize _

/-- A part lies under one directory entry. -/
theorem div_of_mem_part {va : ℕ} (hlo : a ≤ va) (hhi : va < partEnd g a b) :
    va / g.spdSize = a / g.spdSize := by
  apply Nat.le_antisymm
  · have hlt : va < (a / g.spdSize + 1) * g.spdSize := hhi.trans_le (Nat.min_le_right ..)
    exact Nat.le_of_lt_succ (Nat.div_lt_of_lt_mul (Nat.mul_comm .. ▸ hlt))
  · exact Nat.div_le_div_right hlo

/-- What is left of the range lies under later entries. -/
theorem div_lt_of_partEnd_le {va : ℕ} (hlo : partEnd g a b ≤ va) (hhi : va < b) :
    a / g.spdSize < va / g.spdSize := by
  have hle : (a / g.spdSize + 1) * g.spdSize ≤ va := by
    unfold partEnd at hlo
    omega
  exact (Nat.le_div_iff_mul_le g.spdSize_pos).mpr hle

/-- Where the entry of `a` ends, counted in pages from `a`. -/
theorem entryEnd_eq (ha : 4096 ∣ a) :
    (a / g.spdSize + 1) * g.spdSize = a + (g.numEntriesPte - g.iopteIndex a) * 4096 := by
  have hpage := g.iopteIndex_page a
  have hidx := g.iopteIndex_lt a
  have hsize : (a / g.spdSize + 1) * g.spdSize =
      (a / g.spdSize * g.numEntriesPte + g.numEntriesPte) * 4096 := by
    calc (a / g.spdSize + 1) * g.spdSize
        = (a / g.spdSize + 1) * (g.numEntriesPte * 4096) := by rw [← g.spdSize_eq]
      _ = _ := by rw [← Nat.mul_assoc, Nat.succ_mul]
  rw [hsize]
  omega

/-- The driver's count and size of the first part: up to the end of the entry or of the range. -/
theorem iovaTail_cases (h : a < b) :
    iovaTail g a b =
        (g.numEntriesPte - g.iopteIndex a, (g.numEntriesPte - g.iopteIndex a) * 4096) ∧
      a + (g.numEntriesPte - g.iopteIndex a) * 4096 ≤ b ∨
    iovaTail g a b = ((b - a) / 4096, b - a) ∧
      b < a + (g.numEntriesPte - g.iopteIndex a) * 4096 := by
  have hle : g.numEntriesPte ≤ 2 ^ 10 := by cases g <;> decide
  unfold iovaTail SPAGE_SIZE
  dsimp only
  split
  · next hgt =>
    rw [toU32_of_lt (by omega)]
    exact Or.inr ⟨rfl, hgt⟩
  · next hle => exact Or.inl ⟨rfl, Nat.not_lt.mp hle⟩

/-- The first part of a range of pages. -/
theorem iovaTail_eq (ha : 4096 ∣ a) (h : a < b) :
    iovaTail g a b = ((partEnd g a b - a) / 4096, partEnd g a b - a) := by
  unfold partEnd
  rw [entryEnd_eq ha]
  rcases iovaTail_cases (g := g) h with ⟨htail, hle⟩ | ⟨htail, hgt⟩
  · rw [htail, Nat.min_eq_right hle, Nat.add_sub_cancel_left, Nat.mul_div_cancel _ (by decide)]
  · rw [htail, Nat.min_eq_left (Nat.le_of_lt hgt)]

/-- A part ends within its table. -/
theorem iopteIndex_add_le (h : a < b) :
    g.iopteIndex a + (iovaTail g a b).1 ≤ g.numEntriesPte := by
  have hidx := g.iopteIndex_lt a
  rcases iovaTail_cases (g := g) h with ⟨htail, -⟩ | ⟨htail, hgt⟩
  · rw [htail]
    dsimp only
    omega
  · rw [htail]
    dsimp only
    omega

/-- A part that is as large as what an entry maps is all of it. -/
theorem iovaTail_full (h : a < b) (hfull : (iovaTail g a b).2 = g.spdSize) :
    g.iopteIndex a = 0 ∧ (iovaTail g a b).1 = g.numEntriesPte := by
  have hidx := g.iopteIndex_lt a
  rw [g.spdSize_eq] at hfull
  rcases iovaTail_cases (g := g) h with ⟨htail, -⟩ | ⟨htail, hgt⟩
  · rw [htail] at hfull ⊢
    dsimp only at hfull ⊢
    omega
  · rw [htail] at hfull ⊢
    dsimp only at hfull ⊢
    omega

/-- Consecutive entries of a table are consecutive pages. -/
theorem mem_entries_iff {va n : ℕ} (hn : g.iopteIndex a + n ≤ g.numEntriesPte)
    (hava : a < 2 ^ g.vaBits) (hva : va < 2 ^ g.vaBits) :
    (g.iopdeIndex va = g.iopdeIndex a ∧ g.iopteIndex a ≤ g.iopteIndex va ∧
      g.iopteIndex va < g.iopteIndex a + n) ↔ a / 4096 ≤ va / 4096 ∧ va / 4096 < a / 4096 + n := by
  have hpva := g.iopteIndex_page va
  have hpa := g.iopteIndex_page a
  have hidx := g.iopteIndex_lt va
  rw [g.iopdeIndex_inj hva hava]
  constructor
  · rintro ⟨hsame, hlo, hhi⟩
    rw [hsame] at hpva
    omega
  · rintro ⟨hlo, hhi⟩
    have hsame : va / g.spdSize = a / g.spdSize := by
      have hdiv : ∀ x, x / g.spdSize = x / 4096 / g.numEntriesPte := by
        intro x
        rw [Nat.div_div_eq_div_mul, Nat.mul_comm, g.spdSize_eq]
      rw [hdiv va, hdiv a, Nat.div_eq_iff g.numEntriesPte_pos, ← hdiv a]
      omega
    rw [hsame] at hpva
    omega

/-- The pages of the first part of a range of pages. -/
theorem mem_tail_iff {va : ℕ} (ha : 4096 ∣ a) (hb : 4096 ∣ b) (h : a < b) :
    a / 4096 ≤ va / 4096 ∧ va / 4096 < a / 4096 + (iovaTail g a b).1 ↔
      a ≤ va ∧ va < partEnd g a b := by
  have hend := dvd_partEnd (g := g) (a := a) hb
  have hlt := lt_partEnd (g := g) h
  rw [iovaTail_eq ha h]
  dsimp only
  omega

end Part

/-! ### Slots and tables -/

/-- The table that a directory entry points to, none when the entry is not valid. -/
def toTable (dent : ℕ) : Option ℕ := if IsValid dent then some (iopteBase g dent) else none

/-- The table of each directory entry. -/
def PgState.slot (s : PgState) (i : ℕ) : Option ℕ := toTable g (s.pd i)

/-- The entry of the page at `va`, 0 where there is no table. -/
def pteAt (s : PgState) (va : ℕ) : ℕ :=
  match s.slot g (g.iopdeIndex va) with
  | some t => s.mem (t + 4 * g.iopteIndex va)
  | none => 0

/-- What the slab cache may return: an aligned address in RAM. -/
structure TableAddr (p : ℕ) : Prop where
  aligned : g.ptSize ∣ p
  low : SUNXI_PHYS_OFFSET ≤ p
  high : p < 2 ^ g.vaBits + SUNXI_PHYS_OFFSET

/-- The directory owns the live tables. -/
structure Owned (s : PgState) : Prop where
  owned : s.tables.OwnedBy (s.slot g)
  -- entries beyond the directory stay empty
  bound : ∀ i t, s.slot g i = some t → i < g.numEntriesPde
  addr : ∀ p, s.tables.Live p → TableAddr g p

variable {g} {s : PgState}

theorem isValid_of_slot {i t : ℕ} (h : s.slot g i = some t) :
    IsValid (s.pd i) ∧ iopteBase g (s.pd i) = t := by
  unfold PgState.slot toTable at h
  split at h
  · next hv => exact ⟨hv, Option.some.inj h⟩
  · cases h

theorem slot_of_isValid {i : ℕ} (h : IsValid (s.pd i)) :
    s.slot g i = some (iopteBase g (s.pd i)) := if_pos h

theorem slot_eq_none {i : ℕ} : s.slot g i = none ↔ ¬ IsValid (s.pd i) := by
  unfold PgState.slot toTable
  split
  · next h => simp [h]
  · next h => simp [h]

theorem toTable_zero : toTable g 0 = none := if_neg not_isValid_zero

theorem TableAddr.toTable_mkDent {p : ℕ} (h : TableAddr g p) : toTable g (mkDent g p) = some p := by
  unfold toTable
  rw [if_pos (isValid_mkDent g h.aligned), iopteBase_mkDent g h.aligned h.low h.high]

/-- Storing one directory entry changes one slot. -/
theorem slot_update (i dent : ℕ) (mem : ℕ → ℕ) (tables : Arena Unit) :
    (⟨Function.update s.pd i dent, mem, tables⟩ : PgState).slot g =
      Function.update (s.slot g) i (toTable g dent) := by
  funext j
  show toTable g (Function.update s.pd i dent j) = _
  rw [Function.update_apply, Function.update_apply]
  split <;> rfl

/-- The slots after a table was attached. -/
theorem slot_attach {p : ℕ} (hp : TableAddr g p) (i : ℕ) :
    (sunxiAllocIopte g s i p).slot g = Function.update (s.slot g) i (some p) := by
  rw [← hp.toTable_mkDent]
  exact slot_update ..

/-- The slots after a table was detached. -/
theorem slot_detach (i : ℕ) (mem : ℕ → ℕ) (tables : Arena Unit) :
    (⟨Function.update s.pd i 0, mem, tables⟩ : PgState).slot g =
      Function.update (s.slot g) i none := by
  rw [← toTable_zero (g := g)]
  exact slot_update ..

theorem owned_init (mem : ℕ → ℕ) : Owned g (PgState.init mem) where
  owned := by
    have hnone : (PgState.init mem).slot g = fun _ => none := funext fun _ => toTable_zero
    rw [hnone]
    exact Arena.OwnedBy.empty
  bound i t h := by
    have hzero : (PgState.init mem).slot g i = none := toTable_zero
    rw [hzero] at h
    cases h
  addr p h := absurd h (Arena.not_live_empty p)

theorem pteAt_congr {va vb : ℕ} (h : va / 4096 = vb / 4096) : pteAt g s va = pteAt g s vb := by
  unfold pteAt
  rw [g.iopdeIndex_congr h, g.iopteIndex_eq, g.iopteIndex_eq, h]

/-- A page with an entry has a table. -/
theorem slot_of_pteAt {va : ℕ} (h : pteAt g s va ≠ 0) :
    ∃ t, s.slot g (g.iopdeIndex va) = some t := by
  unfold pteAt at h
  cases ht : s.slot g (g.iopdeIndex va) with
  | none =>
    rw [ht] at h
    exact absurd rfl h
  | some t => exact ⟨t, rfl⟩

/-- The answer of the translation is read off the entry of the address. -/
theorem sunxiPgtableIovaToPhys_eq (iova : ℕ) :
    sunxiPgtableIovaToPhys g s iova =
      if pteAt g s iova ≠ 0 then
        g.iommuPhyToCpuPhy (iopteToPfn g (pteAt g s iova) + (iova &&& (SPAGE_SIZE - 1)))
      else 0 := by
  unfold sunxiPgtableIovaToPhys pteAt PgState.slot toTable
  dsimp only
  by_cases hv : IsValid (s.pd (g.iopdeIndex iova))
  · rw [if_pos hv, if_pos hv]
    rfl
  · rw [if_neg hv, if_neg hv]
    exact (if_neg (not_not_intro rfl)).symm

/-! ### The three moves -/

/-- Words of different tables do not collide. -/
theorem word_ne {p q i j : ℕ} (hp : TableAddr g p) (hq : TableAddr g q) (hne : p ≠ q)
    (hi : i < g.numEntriesPte) (hj : j < g.numEntriesPte) : p + 4 * i ≠ q + 4 * j := by
  have hpa := hp.aligned
  have hqa := hq.aligned
  cases g
  · rw [Geometry.ptSize_v1] at hpa hqa
    rw [Geometry.numEntriesPte_v1] at hi hj
    omega
  · rw [Geometry.ptSize_v2] at hpa hqa
    rw [Geometry.numEntriesPte_v2] at hi hj
    omega

/-- A fresh table goes to an empty slot. -/
theorem Owned.attach (h : Owned g s) {i p : ℕ} (hi : i < g.numEntriesPde)
    (hnone : s.slot g i = none) (hp : TableAddr g p) (hfresh : ¬ s.tables.Live p) :
    Owned g (sunxiAllocIopte g s i p) := by
  have hslot := slot_attach (s := s) hp i
  refine ⟨hslot ▸ h.owned.alloc hnone hfresh (), fun j t hj => ?_, fun q hq => ?_⟩
  · rw [hslot, Function.update_apply] at hj
    split at hj
    · next hji => exact hji ▸ hi
    · exact h.bound j t hj
  · rcases (s.tables.live_alloc p q ()).mp hq with rfl | hq
    · exact hp
    · exact h.addr q hq

/-- The fresh table is zeroed and apart from the others, so no page changes. -/
theorem Owned.pteAt_attach (h : Owned g s) {i p : ℕ} (hnone : s.slot g i = none)
    (hp : TableAddr g p) (hfresh : ¬ s.tables.Live p) (va : ℕ) :
    pteAt g (sunxiAllocIopte g s i p) va = pteAt g s va := by
  have hslot := slot_attach (s := s) hp i
  unfold pteAt
  rw [hslot, Function.update_apply]
  by_cases hi : g.iopdeIndex va = i
  · rw [if_pos hi, hi, hnone]
    exact storeWords_of_lt (g.iopteIndex_lt va)
  · rw [if_neg hi]
    cases hold : s.slot g (g.iopdeIndex va) with
    | none => rfl
    | some t =>
      have ht := h.owned.live _ t hold
      refine storeWords_of_forall_ne fun j hj => ?_
      refine word_ne (h.addr t ht) hp (fun heq => hfresh (heq ▸ ht)) (g.iopteIndex_lt va) hj

/-- Words of an owned table are written. -/
theorem Owned.store (h : Owned g s) {i t : ℕ} (hslot : s.slot g i = some t) (mem : ℕ → ℕ) :
    Owned g { s with mem := mem, tables := s.tables.access t } := by
  have hlive := h.owned.live i t hslot
  rw [Arena.access_of_live hlive]
  exact ⟨h.owned, h.bound, h.addr⟩

/-- The words that are written are entries of one table, the others are kept. -/
theorem Owned.pteAt_store (h : Owned g s) {i t k n : ℕ} (hslot : s.slot g i = some t)
    (hn : k + n ≤ g.numEntriesPte) (f : ℕ → ℕ) (tables : Arena Unit) (va : ℕ) :
    pteAt g { s with mem := storeWords s.mem (t + 4 * k) f n, tables := tables } va =
      if g.iopdeIndex va = i ∧ k ≤ g.iopteIndex va ∧ g.iopteIndex va < k + n then
        f (g.iopteIndex va - k)
      else pteAt g s va := by
  have hidx := g.iopteIndex_lt va
  unfold pteAt
  show (match s.slot g (g.iopdeIndex va) with
    | some t' => storeWords s.mem (t + 4 * k) f n (t' + 4 * g.iopteIndex va)
    | none => 0) = _
  by_cases hi : g.iopdeIndex va = i
  · rw [hi, hslot]
    by_cases hk : k ≤ g.iopteIndex va ∧ g.iopteIndex va < k + n
    · rw [if_pos ⟨rfl, hk⟩]
      have haddr : t + 4 * g.iopteIndex va = t + 4 * k + 4 * (g.iopteIndex va - k) := by omega
      show storeWords s.mem (t + 4 * k) f n (t + 4 * g.iopteIndex va) = _
      rw [haddr]
      exact storeWords_of_lt (by omega)
    · rw [if_neg fun hall => hk hall.2]
      exact storeWords_of_forall_ne fun j hj => by omega
  · rw [if_neg fun hall => hi hall.1]
    cases hold : s.slot g (g.iopdeIndex va) with
    | none => rfl
    | some t' =>
      have hne : t' ≠ t := fun heq => hi (h.owned.inj _ i t' hold (heq ▸ hslot))
      have ht' := h.addr t' (h.owned.live _ t' hold)
      have ht := h.addr t (h.owned.live i t hslot)
      refine storeWords_of_forall_ne fun j hj => ?_
      rw [Nat.add_assoc, ← Nat.mul_add]
      exact word_ne ht' ht hne hidx (by omega)

/-- A slot frees its table. -/
theorem Owned.detach (h : Owned g s) {i t : ℕ} (hslot : s.slot g i = some t) :
    Owned g { s with pd := Function.update s.pd i 0, tables := s.tables.free t } := by
  have hslot' := slot_detach (g := g) (s := s) i s.mem (s.tables.free t)
  refine ⟨hslot' ▸ h.owned.free hslot, fun j t' hj => ?_, fun q hq => ?_⟩
  · rw [hslot', Function.update_apply] at hj
    split at hj
    · cases hj
    · exact h.bound j t' hj
  · exact h.addr q ((s.tables.live_free t q).mp hq).2

theorem pteAt_detach (i : ℕ) (tables : Arena Unit) (va : ℕ) :
    pteAt g { s with pd := Function.update s.pd i 0, tables := tables } va =
      if g.iopdeIndex va = i then 0 else pteAt g s va := by
  unfold pteAt
  rw [slot_detach, Function.update_apply]
  by_cases hi : g.iopdeIndex va = i
  · rw [if_pos hi, if_pos hi]
  · rw [if_neg hi, if_neg hi]

/-- The words of a part are written: its pages get the values in turn, the others are kept. -/
theorem Owned.pteAt_storePart (h : Owned g s) {a b t : ℕ} (hab : a < b) (hbva : b ≤ 2 ^ g.vaBits)
    (hslot : s.slot g (g.iopdeIndex a) = some t) (f : ℕ → ℕ) (tables : Arena Unit) {va : ℕ}
    (hva : va < 2 ^ g.vaBits) :
    pteAt g { s with
        mem := storeWords s.mem (iopteOffset g (s.pd (g.iopdeIndex a)) a) f (iovaTail g a b).1
        tables := tables } va =
      if a / 4096 ≤ va / 4096 ∧ va / 4096 < a / 4096 + (iovaTail g a b).1 then
        f (va / 4096 - a / 4096)
      else pteAt g s va := by
  have hbase : iopteOffset g (s.pd (g.iopdeIndex a)) a = t + 4 * g.iopteIndex a :=
    congrArg (· + 4 * g.iopteIndex a) (isValid_of_slot hslot).2
  have hle := iopteIndex_add_le (g := g) hab
  rw [hbase, h.pteAt_store hslot hle]
  have hiff := mem_entries_iff hle (hab.trans_le hbva) hva
  by_cases hmem : a / 4096 ≤ va / 4096 ∧ va / 4096 < a / 4096 + (iovaTail g a b).1
  · have hpva := g.iopteIndex_page va
    have hpa := g.iopteIndex_page a
    have hsame := (g.iopdeIndex_inj hva (hab.trans_le hbva)).mp (hiff.mpr hmem).1
    rw [if_pos hmem, if_pos (hiff.mpr hmem), hpva, hpa, hsame]
    congr 1
    omega
  · rw [if_neg hmem, if_neg fun hall => hmem (hiff.mp hall)]

/-! ### Preparing the tables -/

/-- The tables that the slab cache hands out during a call are fresh and distinct. -/
structure AllocsOk (g : Geometry) (s : PgState) (allocs : List (Option ℕ)) : Prop where
  fresh : ∀ p ∈ allocs.reduceOption, TableAddr g p ∧ ¬ s.tables.Live p
  nodup : allocs.reduceOption.Nodup

/-- The first answer is used up, and the others are fresh also after it. -/
theorem AllocsOk.cons {i p : ℕ} {allocs : List (Option ℕ)}
    (h : AllocsOk g s (some p :: allocs)) :
    (TableAddr g p ∧ ¬ s.tables.Live p) ∧ AllocsOk g (sunxiAllocIopte g s i p) allocs := by
  have hfresh := h.fresh
  have hnodup := h.nodup
  rw [List.reduceOption_cons_of_some] at hfresh hnodup
  obtain ⟨hnot, hnodup⟩ := List.nodup_cons.mp hnodup
  refine ⟨hfresh p List.mem_cons_self, fun q hq => ?_, hnodup⟩
  obtain ⟨haddr, hdead⟩ := hfresh q (List.mem_cons_of_mem p hq)
  refine ⟨haddr, fun hlive => ?_⟩
  rcases (s.tables.live_alloc p q ()).mp hlive with rfl | hlive
  · exact hnot hq
  · exact hdead hlive

/-- What `sunxi_pgtable_prepare_l1_tables` leaves behind, also when it fails halfway: tables are
added, and no page changes. -/
structure L1Prepared (g : Geometry) (s : PgState) (iovaStart iovaEnd : ℕ) (r : ℤ × PgState) :
    Prop where
  owned : Owned g r.2
  pteAt_eq : ∀ va, pteAt g r.2 va = pteAt g s va
  kept : ∀ i t, s.slot g i = some t → r.2.slot g i = some t
  ret : r.1 = 0 ∨ r.1 = -ENOMEM
  -- on success there is a table at every step of the loop
  done : r.1 = 0 → ∀ k, iovaStart + k * g.spdSize ≤ iovaEnd →
    ∃ t, r.2.slot g (g.iopdeIndex (iovaStart + k * g.spdSize)) = some t

/-- One turn of the loop: the entry of `iovaStart` has a table, and the rest of the loop runs. -/
theorem L1Prepared.turn {u : PgState} {iovaStart iovaEnd : ℕ} {r : ℤ × PgState}
    (hpte : ∀ va, pteAt g u va = pteAt g s va)
    (hkept : ∀ i t, s.slot g i = some t → u.slot g i = some t)
    (hhere : ∃ t, u.slot g (g.iopdeIndex iovaStart) = some t)
    (h : L1Prepared g u (iovaStart + g.spdSize) iovaEnd r) :
    L1Prepared g s iovaStart iovaEnd r where
  owned := h.owned
  pteAt_eq va := (h.pteAt_eq va).trans (hpte va)
  kept i t hi := h.kept i t (hkept i t hi)
  ret := h.ret
  done hret k hk := by
    cases k with
    | zero =>
      obtain ⟨t, ht⟩ := hhere
      rw [Nat.zero_mul]
      exact ⟨t, h.kept _ t ht⟩
    | succ k =>
      have hshift : iovaStart + (k + 1) * g.spdSize = iovaStart + g.spdSize + k * g.spdSize := by
        rw [Nat.succ_mul]
        omega
      rw [hshift] at hk ⊢
      exact h.done hret k hk

theorem l1Prepared (iovaStart iovaEnd : ℕ) (allocs : List (Option ℕ)) (h : Owned g s)
    (hallocs : AllocsOk g s allocs) :
    L1Prepared g s iovaStart iovaEnd
      (sunxiPgtablePrepareL1Tables g s iovaStart iovaEnd allocs) := by
  fun_induction sunxiPgtablePrepareL1Tables g s iovaStart iovaEnd allocs with
  | case1 s iovaStart allocs hle idx hv ih =>
    -- the entry is valid already
    exact (ih h hallocs).turn (fun _ => rfl) (fun _ _ ht => ht) ⟨_, slot_of_isValid hv⟩
  | case2 s iovaStart hle idx hv pent allocs ih =>
    -- a table is allocated
    have hnone : s.slot g idx = none := slot_eq_none.mpr hv
    obtain ⟨⟨haddr, hdead⟩, hrest⟩ := hallocs.cons (i := idx)
    have hslot : (sunxiAllocIopte g s idx pent).slot g =
        Function.update (s.slot g) idx (some pent) := slot_attach haddr idx
    refine (ih (h.attach (g.iopdeIndex_lt _) hnone haddr hdead) hrest).turn
      (h.pteAt_attach hnone haddr hdead) (fun j t ht => ?_) ⟨pent, ?_⟩
    · rw [hslot, Function.update_of_ne fun hji => ?_]
      · exact ht
      · rw [hji, hnone] at ht
        cases ht
    · rw [hslot]
      exact Function.update_self ..
  | case3 s iovaStart allocs hle idx hv hnone =>
    -- the allocation fails
    exact ⟨h, fun _ => rfl, fun _ _ ht => ht, Or.inr rfl, fun hret =>
      absurd (show -ENOMEM = 0 from hret) (by decide)⟩
  | case4 s iovaStart allocs hgt =>
    refine ⟨h, fun _ => rfl, fun _ _ ht => ht, Or.inl rfl, fun _ k hk => ?_⟩
    exact absurd ((Nat.le_add_right _ _).trans hk) hgt

/-- The loop fails only when an allocation fails, or when the answers do not last to its end. -/
theorem alloc_failed {iovaStart iovaEnd : ℕ} {allocs : List (Option ℕ)}
    (h : (sunxiPgtablePrepareL1Tables g s iovaStart iovaEnd allocs).1 ≠ 0) :
    none ∈ allocs ∨ iovaStart + allocs.length * g.spdSize ≤ iovaEnd := by
  fun_induction sunxiPgtablePrepareL1Tables g s iovaStart iovaEnd allocs with
  | case1 s iovaStart allocs hle idx hv ih =>
    exact (ih h).imp_right fun hlast => by omega
  | case2 s iovaStart hle idx hv pent allocs ih =>
    refine (ih h).imp (List.mem_cons_of_mem _) fun hlast => ?_
    rw [List.length_cons, Nat.succ_mul]
    omega
  | case3 s iovaStart allocs hle idx hv hnone =>
    match allocs, hnone with
    | [], _ => exact Or.inr (by rw [List.length_nil, Nat.zero_mul]; exact hle)
    | none :: _, _ => exact Or.inl List.mem_cons_self
    | some pent :: allocs, hnone => exact absurd rfl (hnone pent allocs)
  | case4 s iovaStart allocs hgt => exact absurd rfl h

/-! ### Writing the pages -/

/-- The start of the part of a range from `a` on in which `va` lies. -/
def partStart (g : Geometry) (a va : ℕ) : ℕ := max a (va / g.spdSize * g.spdSize)

/-- In the first part of a range. -/
theorem partStart_of_mem_part {a b va : ℕ} (hlo : a ≤ va) (hhi : va < partEnd g a b) :
    partStart g a va = a := by
  unfold partStart
  rw [div_of_mem_part hlo hhi]
  exact Nat.max_eq_left (Nat.div_mul_le_self a _)

/-- Behind the first part of a range. -/
theorem partStart_of_partEnd_le {a b va : ℕ} (hlo : partEnd g a b ≤ va) (hhi : va < b) :
    partStart g (partEnd g a b) va = partStart g a va ∧ partEnd g a b ≤ partStart g a va := by
  have hnext : (a / g.spdSize + 1) * g.spdSize ≤ va / g.spdSize * g.spdSize :=
    Nat.mul_le_mul_right _ (div_lt_of_partEnd_le hlo hhi)
  have ha : a < (a / g.spdSize + 1) * g.spdSize :=
    Nat.lt_mul_of_div_lt (Nat.lt_succ_self _) g.spdSize_pos
  have hend : partEnd g a b ≤ (a / g.spdSize + 1) * g.spdSize := Nat.min_le_right ..
  unfold partStart
  omega

/-- The entry that `sunxi_pgtable_prepare_l2_tables` stores for `va`: within a part it adds to the
entry of the first page. -/
def preparedPte (g : Geometry) (page prot a va : ℕ) : ℕ :=
  toU32 (sunxiMkPte g (page + (partStart g a va - a)) prot +
    SPAGE_SIZE * ((va - partStart g a va) / 4096))

/-- What the loop of `sunxi_pgtable_prepare_l2_tables` leaves behind: the pages of the range get
their entries, and neither the tables nor the other pages change. -/
structure L2Prepared (g : Geometry) (s : PgState) (iovaStart iovaEnd page prot : ℕ)
    (s' : PgState) : Prop where
  owned : Owned g s'
  slot_eq : s'.slot g = s.slot g
  pteAt_eq : ∀ va < 2 ^ g.vaBits, pteAt g s' va =
    if iovaStart ≤ va ∧ va < iovaEnd then preparedPte g page prot iovaStart va
    else pteAt g s va

theorem l2Prepared (iovaStart iovaEnd page prot : ℕ) (h : Owned g s) (ha : 4096 ∣ iovaStart)
    (hb : 4096 ∣ iovaEnd) (hbva : iovaEnd ≤ 2 ^ g.vaBits)
    (htables : ∀ va, iovaStart ≤ va → va < iovaEnd → ∃ t, s.slot g (g.iopdeIndex va) = some t) :
    L2Prepared g s iovaStart iovaEnd page prot
      (prepareL2Loop g s iovaStart iovaEnd page prot) := by
  fun_induction prepareL2Loop g s iovaStart iovaEnd page prot with
  | case1 s iovaStart page hlt tail dent pent pentVal u ih =>
    obtain ⟨t, ht⟩ := htables iovaStart (Nat.le_refl _) hlt
    have hstop := lt_partEnd (g := g) hlt
    have hle := partEnd_le (g := g) (a := iovaStart) (b := iovaEnd)
    have htail : tail.2 = partEnd g iovaStart iovaEnd - iovaStart :=
      congrArg Prod.snd (iovaTail_eq ha hlt)
    rw [htail] at ih ⊢
    have hnext : iovaStart + (partEnd g iovaStart iovaEnd - iovaStart) =
        partEnd g iovaStart iovaEnd := by omega
    rw [hnext] at ih ⊢
    have hu : Owned g u := by
      have hdent : iopteBase g dent = t := (isValid_of_slot ht).2
      show Owned g { s with mem := _, tables := s.tables.access (iopteBase g dent) }
      rw [hdent]
      exact h.store ht _
    have hpart : ∀ va < 2 ^ g.vaBits, pteAt g u va =
        if iovaStart ≤ va ∧ va < partEnd g iovaStart iovaEnd then
          toU32 (pentVal + SPAGE_SIZE * ((va - iovaStart) / 4096)) else pteAt g s va := by
      intro va hva
      have hindex : va / 4096 - iovaStart / 4096 = (va - iovaStart) / 4096 := by omega
      refine (h.pteAt_storePart hlt hbva ht _ _ hva).trans ?_
      rw [hindex]
      exact if_congr (mem_tail_iff ha hb hlt) rfl rfl
    have hrest := ih hu (dvd_partEnd hb) fun va hlo hhi => htables va (hstop.le.trans hlo) hhi
    refine ⟨hrest.owned, hrest.slot_eq, fun va hva => ?_⟩
    rw [hrest.pteAt_eq va hva]
    by_cases hlater : partEnd g iovaStart iovaEnd ≤ va ∧ va < iovaEnd
    · obtain ⟨hsame, hge⟩ := partStart_of_partEnd_le hlater.1 hlater.2
      rw [if_pos hlater, if_pos ⟨hstop.le.trans hlater.1, hlater.2⟩]
      unfold preparedPte
      rw [hsame]
      congr 3
      omega
    rw [if_neg hlater, hpart va hva]
    by_cases hhere : iovaStart ≤ va ∧ va < partEnd g iovaStart iovaEnd
    · rw [if_pos hhere, if_pos ⟨hhere.1, hhere.2.trans_le hle⟩]
      unfold preparedPte
      rw [partStart_of_mem_part hhere.1 hhere.2, Nat.sub_self, Nat.add_zero]
    · rw [if_neg hhere, if_neg (by omega)]
  | case2 s iovaStart page hge =>
    refine ⟨h, rfl, fun va _ => ?_⟩
    rw [if_neg fun hmem => hge (hmem.1.trans_lt hmem.2)]

/-! ### Removing pages -/

/-- The state after the `memset` of `sunxi_pgtable_delete_l2_tables`. -/
def zeroPart (g : Geometry) (s : PgState) (a b : ℕ) : PgState := { s with
  mem := storeWords s.mem (iopteOffset g (s.pd (g.iopdeIndex a)) a) (fun _ => 0) (iovaTail g a b).1
  tables := s.tables.access (iopteBase g (s.pd (g.iopdeIndex a))) }

/-- `sunxi_pgtable_delete_l2_tables` under a valid entry. -/
theorem sunxiPgtableDeleteL2Tables_of_valid {a b : ℕ} (hv : IsValid (s.pd (g.iopdeIndex a))) :
    sunxiPgtableDeleteL2Tables g s a b = (((iovaTail g a b).2 : ℤ),
      if (iovaTail g a b).2 = g.spdSize then
        { zeroPart g s a b with
          pd := Function.update s.pd (g.iopdeIndex a) 0
          tables := (zeroPart g s a b).tables.free (iopteOffset g (s.pd (g.iopdeIndex a)) a) }
      else zeroPart g s a b,
      (List.range (iovaTail g a b).1).map (fun i => DrvStep.clearPte (a + SPAGE_SIZE * i)) ++
        if (iovaTail g a b).2 = g.spdSize then [.clearPde (g.iopdeIndex a)] else []) := by
  unfold sunxiPgtableDeleteL2Tables zeroPart
  dsimp only
  rw [if_neg (not_not_intro hv)]
  by_cases hfull : (iovaTail g a b).2 = g.spdSize
  · rw [if_pos hfull, if_pos hfull, if_pos hfull]
  · rw [if_neg hfull, if_neg hfull, if_neg hfull, List.append_nil]

/-- The other directory entries are kept. -/
theorem deleteL2_pd_eq {a b i : ℕ} (hi : i ≠ g.iopdeIndex a) :
    (sunxiPgtableDeleteL2Tables g s a b).2.1.pd i = s.pd i := by
  unfold sunxiPgtableDeleteL2Tables
  dsimp only
  split
  · rfl
  · split
    · exact Function.update_of_ne hi ..
    · rfl

/-- What `sunxi_pgtable_delete_l2_tables` does to the part of `[a, b)` at `a` when its table is `t`:
the pages are gone, with the table when the part was all of it, and other tables stay. -/
structure PartDeleted (g : Geometry) (s : PgState) (a b t : ℕ) (r : ℤ × PgState × List DrvStep) :
    Prop where
  ret : r.1 = ((iovaTail g a b).2 : ℤ)
  owned : Owned g r.2.1
  pteAt_eq : ∀ va < 2 ^ g.vaBits, pteAt g r.2.1 va =
    if a / 4096 ≤ va / 4096 ∧ va / 4096 < a / 4096 + (iovaTail g a b).1 then 0 else pteAt g s va
  live : ∀ p, r.2.1.tables.Live p → s.tables.Live p
  freed : (iovaTail g a b).2 = g.spdSize →
    r.2.1.pd (g.iopdeIndex a) = 0 ∧ ¬ r.2.1.tables.Live t

theorem partDeleted {a b t : ℕ} (h : Owned g s) (hab : a < b) (hbva : b ≤ 2 ^ g.vaBits)
    (ht : s.slot g (g.iopdeIndex a) = some t) :
    PartDeleted g s a b t (sunxiPgtableDeleteL2Tables g s a b) := by
  obtain ⟨hv, hbase⟩ := isValid_of_slot ht
  have hu : Owned g (zeroPart g s a b) := by
    unfold zeroPart
    rw [hbase]
    exact h.store ht _
  have htables : (zeroPart g s a b).tables = s.tables := by
    show s.tables.access (iopteBase g (s.pd (g.iopdeIndex a))) = s.tables
    rw [hbase, Arena.access_of_live (h.owned.live _ t ht)]
  have hpte : ∀ va < 2 ^ g.vaBits, pteAt g (zeroPart g s a b) va =
      if a / 4096 ≤ va / 4096 ∧ va / 4096 < a / 4096 + (iovaTail g a b).1 then 0
      else pteAt g s va :=
    fun va hva => h.pteAt_storePart hab hbva ht _ _ hva
  rw [sunxiPgtableDeleteL2Tables_of_valid hv]
  by_cases hfull : (iovaTail g a b).2 = g.spdSize
  · -- the whole entry: its table is freed
    obtain ⟨hfirst, hall⟩ := iovaTail_full hab hfull
    have hpent : iopteOffset g (s.pd (g.iopdeIndex a)) a = t := by
      unfold iopteOffset
      rw [hbase, hfirst]
      rfl
    rw [if_pos hfull, hpent]
    have hslot : (zeroPart g s a b).slot g (g.iopdeIndex a) = some t := ht
    refine ⟨rfl, hu.detach hslot, fun va hva => ?_, fun p hp => ?_,
      fun _ => ⟨Function.update_self .., fun hp => ?_⟩⟩
    · refine (pteAt_detach (s := zeroPart g s a b) _ _ va).trans ?_
      rw [hpte va hva]
      by_cases hidx : g.iopdeIndex va = g.iopdeIndex a
      · rw [if_pos hidx, if_pos]
        have hle := iopteIndex_add_le (g := g) hab
        refine (mem_entries_iff hle (hab.trans_le hbva) hva).mp ⟨hidx, ?_, ?_⟩
        · rw [hfirst]
          exact Nat.zero_le _
        · rw [hfirst, hall, Nat.zero_add]
          exact g.iopteIndex_lt va
      · rw [if_neg hidx]
    · exact htables ▸ (((zeroPart g s a b).tables.live_free t p).mp hp).2
    · exact (((zeroPart g s a b).tables.live_free t t).mp hp).1 rfl
  · rw [if_neg hfull]
    exact ⟨rfl, hu, hpte, fun p hp => htables ▸ hp, fun h => absurd h hfull⟩

/-- The loop of `sunxi_iommu_unmap` goes on behind the part that it has deleted. -/
theorem deleteL2_ret {a b : ℕ} (hv : IsValid (s.pd (g.iopdeIndex a))) :
    intToU32 (sunxiPgtableDeleteL2Tables g s a b).1 = (iovaTail g a b).2 := by
  rw [sunxiPgtableDeleteL2Tables_of_valid hv]
  exact intToU32_natCast (iovaTail_lt g a b)

theorem add_deleteL2_ret {a b : ℕ} (ha : 4096 ∣ a) (hab : a < b)
    (hv : IsValid (s.pd (g.iopdeIndex a))) :
    a + intToU32 (sunxiPgtableDeleteL2Tables g s a b).1 = partEnd g a b := by
  have hstop := lt_partEnd (g := g) hab
  rw [deleteL2_ret hv, iovaTail_eq ha hab]
  dsimp only
  omega

/-- Later parts of a range lie under other entries. -/
theorem iopdeIndex_ne_of_partEnd_le {a b va : ℕ} (hab : a < b) (hbva : b ≤ 2 ^ g.vaBits)
    (hlo : partEnd g a b ≤ va) (hhi : va < b) : g.iopdeIndex va ≠ g.iopdeIndex a := by
  have hlater := div_lt_of_partEnd_le hlo hhi
  intro heq
  rw [g.iopdeIndex_inj (hhi.trans_le hbva) (hab.trans_le hbva)] at heq
  omega

/-- What the loop of `sunxi_iommu_unmap` does to a range with tables. -/
structure RangeUnmapped (g : Geometry) (s : PgState) (a b : ℕ) (s' : PgState) : Prop where
  owned : Owned g s'
  pteAt_eq : ∀ va < 2 ^ g.vaBits, pteAt g s' va = if a ≤ va ∧ va < b then 0 else pteAt g s va

theorem rangeUnmapped (version a b : ℕ) (h : Owned g s) (ha : 4096 ∣ a) (hb : 4096 ∣ b)
    (hbva : b ≤ 2 ^ g.vaBits)
    (htables : ∀ va, a ≤ va → va < b → ∃ t, s.slot g (g.iopdeIndex va) = some t) :
    RangeUnmapped g s a b (unmapLoop g version s a b).1 := by
  fun_induction unmapLoop g version s a b with
  | case1 s a hlt r tailSize ptw rest ih =>
    obtain ⟨t, ht⟩ := htables a (Nat.le_refl _) hlt
    have hstop := lt_partEnd (g := g) hlt
    have hle := partEnd_le (g := g) (a := a) (b := b)
    have hpart : PartDeleted g s a b t r := partDeleted h hlt hbva ht
    have htail : a + tailSize = partEnd g a b := add_deleteL2_ret ha hlt (isValid_of_slot ht).1
    have hslot : ∀ i, i ≠ g.iopdeIndex a → r.2.1.slot g i = s.slot g i :=
      fun i hi => congrArg (toTable g) (deleteL2_pd_eq hi)
    have hrest : RangeUnmapped g r.2.1 (a + tailSize) b rest.1 := by
      refine ih hpart.owned (htail ▸ dvd_partEnd hb) fun va hlo hhi => ?_
      rw [htail] at hlo
      rw [hslot _ (iopdeIndex_ne_of_partEnd_le hlt hbva hlo hhi)]
      exact htables va (hstop.le.trans hlo) hhi
    refine ⟨hrest.owned, fun va hva => ?_⟩
    show pteAt g rest.1 va = _
    rw [hrest.pteAt_eq va hva, hpart.pteAt_eq va hva, if_congr (mem_tail_iff ha hb hlt) rfl rfl,
      htail]
    by_cases hin : a ≤ va ∧ va < b
    · rw [if_pos hin]
      split
      · rfl
      · rw [if_pos (by omega)]
    · rw [if_neg hin, if_neg (by omega), if_neg (by omega)]
  | case2 s a hge =>
    refine ⟨h, fun va _ => ?_⟩
    rw [if_neg fun hmem => hge (hmem.1.trans_lt hmem.2)]

/-- One turn of `sunxi_pgtable_clear` empties one slot. -/
theorem clearEntry_spec (h : Owned g s) (i : ℕ) :
    Owned g (clearEntry g s i) ∧ (clearEntry g s i).slot g = Function.update (s.slot g) i none := by
  unfold clearEntry
  dsimp only
  by_cases hv : IsValid (s.pd i)
  · rw [if_pos hv]
    have ht := slot_of_isValid (g := g) hv
    have hidx : g.iopteIndex (i <<< g.pdShift) = 0 := by
      rw [g.iopteIndex_eq, Nat.shiftLeft_eq, show 2 ^ g.pdShift = _ from g.spdSize_eq,
        ← Nat.mul_assoc, Nat.mul_div_cancel _ (by decide), Nat.mul_mod_left]
    have hpent : iopteOffset g (s.pd i) (i <<< g.pdShift) = iopteBase g (s.pd i) := by
      unfold iopteOffset
      rw [hidx]
      rfl
    rw [hpent]
    refine ⟨?_, slot_detach ..⟩
    exact (h.store ht _).detach ht
  · rw [if_neg hv]
    refine ⟨h, (Function.update_eq_self_iff.mpr ?_).symm⟩
    exact (slot_eq_none.mpr hv).symm

/-- **A cleared directory owns no table.** -/
theorem sunxiPgtableClear_spec (h : Owned g s) :
    Owned g (sunxiPgtableClear g s) ∧ ∀ i, (sunxiPgtableClear g s).slot g i = none := by
  -- the turns so far have emptied the slots below `n`
  have hloop : ∀ n, Owned g ((List.range n).foldl (clearEntry g) s) ∧
      ∀ i, ((List.range n).foldl (clearEntry g) s).slot g i =
        if i < n then none else s.slot g i := by
    intro n
    induction n with
    | zero => exact ⟨h, fun i => rfl⟩
    | succ n ih =>
      rw [List.range_succ, List.foldl_append]
      obtain ⟨howned, hslot⟩ := clearEntry_spec ih.1 n
      refine ⟨howned, fun i => ?_⟩
      show (clearEntry g ((List.range n).foldl (clearEntry g) s) n).slot g i = _
      rw [hslot, Function.update_apply, ih.2 i]
      by_cases hi : i = n
      · rw [if_pos hi, if_pos (by omega)]
      · rw [if_neg hi]
        by_cases hlt : i < n
        · rw [if_pos hlt, if_pos (by omega)]
        · rw [if_neg hlt, if_neg (by omega)]
  obtain ⟨howned, hslot⟩ := hloop g.numEntriesPde
  refine ⟨howned, fun i => ?_⟩
  refine (hslot i).trans ?_
  by_cases hi : i < g.numEntriesPde
  · rw [if_pos hi]
  · rw [if_neg hi]
    cases ht : s.slot g i with
    | none => rfl
    | some t => exact absurd (h.bound i t ht) hi

end LonganPi.Iommu
