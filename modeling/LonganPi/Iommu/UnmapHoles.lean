import LonganPi.Iommu.MapUnmap

/-!
# Unmapping a range with holes

The loop of `sunxi_iommu_unmap` adds what `sunxi_pgtable_delete_l2_tables` returns to its cursor.
Where the directory entry of the cursor has no table that is `-EINVAL`, and as a `u32` it is `2 ^ 32
- 22`. So the loop goes on, and ends, but not behind the hole: it jumps over almost 4 GiB. In the
first layout that is the rest of the range; in the second layout the loop may come back to a later
part of the range, where its cursor is no longer at the start of a page, and where it leaves out the
last page of the range if it gets there.

`cursors` is the way of the cursor. What the loop does is told by it: the pages of the parts at the
cursors are unmapped, and no others (`walkUnmapped`). `Met` says which pages these are, by the
directory alone (`walked_iff_met`). An unmap is complete exactly when every mapped page of the range
is met (`unmap_holes_iff`), and for a range of at most 4 GiB this says that no mapped page lies
behind a hole.
-/

open DriverLib

namespace LonganPi.Iommu

variable (g : Geometry)

/-! ### The walk -/

/-- How far the loop goes on from `c`: by the size of the part, or by `-EINVAL` as a `u32`. -/
def stride (s : PgState) (b c : ℕ) : ℕ :=
  if IsValid (s.pd (g.iopdeIndex c)) then (iovaTail g c b).2 else intToU32 (-EINVAL)

theorem stride_pos {s : PgState} {b c : ℕ} (h : c < b) : 0 < stride g s b c := by
  unfold stride
  split
  · exact iovaTail_pos g h
  · decide

/-- The cursors of the loop, in order. -/
def cursors (s : PgState) (a b : ℕ) : List ℕ :=
  if a < b then a :: cursors s (a + stride g s b a) b else []
termination_by b - a
decreasing_by
  have := stride_pos g (s := s) ‹a < b›
  omega

/-- The page of `va` is in the part at `c`, and the part has a table. -/
def InPart (s : PgState) (b c va : ℕ) : Prop :=
  IsValid (s.pd (g.iopdeIndex c)) ∧ c / 4096 ≤ va / 4096 ∧
    va / 4096 < c / 4096 + (iovaTail g c b).1

/-- The loop meets the page of `va`. -/
def Walked (s : PgState) (a b va : ℕ) : Prop := ∃ c ∈ cursors g s a b, InPart g s b c va

variable {g} {s s' : PgState} {a b c va : ℕ}

theorem cursors_of_lt (h : a < b) : cursors g s a b = a :: cursors g s (a + stride g s b a) b := by
  rw [cursors, if_pos h]

theorem walked_of_lt (h : a < b) :
    Walked g s a b va ↔ InPart g s b a va ∨ Walked g s (a + stride g s b a) b va := by
  unfold Walked
  rw [cursors_of_lt h, List.exists_mem_cons_iff]

theorem not_walked (h : ¬a < b) : ¬Walked g s a b va := by
  unfold Walked
  rw [cursors, if_neg h]
  rintro ⟨c, hc, -⟩
  cases hc

/-- The cursors stay in the range. -/
theorem mem_cursors (h : c ∈ cursors g s a b) : a ≤ c ∧ c < b := by
  fun_induction cursors g s a b with
  | case1 a hlt ih =>
    rcases List.mem_cons.mp h with rfl | h
    · exact ⟨Nat.le_refl _, hlt⟩
    · exact ⟨(Nat.le_add_right _ _).trans (ih h).1, (ih h).2⟩
  | case2 a hge => cases h

/-- The way depends on the directory entries of the range only. -/
theorem cursors_congr
    (h : ∀ va, a ≤ va → va < b → s'.pd (g.iopdeIndex va) = s.pd (g.iopdeIndex va)) :
    cursors g s' a b = cursors g s a b := by
  fun_induction cursors g s a b with
  | case1 a hlt ih =>
    have hstride : stride g s' b a = stride g s b a := by
      unfold stride
      rw [h a (Nat.le_refl _) hlt]
    rw [cursors_of_lt hlt, hstride]
    exact congrArg (a :: ·) (ih fun va hlo hhi => h va ((Nat.le_add_right _ _).trans hlo) hhi)
  | case2 a hge => rw [cursors, if_neg hge]

theorem walked_congr
    (h : ∀ va, a ≤ va → va < b → s'.pd (g.iopdeIndex va) = s.pd (g.iopdeIndex va)) :
    Walked g s' a b va ↔ Walked g s a b va := by
  unfold Walked InPart
  rw [cursors_congr h]
  refine exists_congr fun c => and_congr_right fun hc => ?_
  obtain ⟨hlo, hhi⟩ := mem_cursors hc
  rw [h c hlo hhi]

/-- A part lies in the range. -/
theorem InPart.range (hb : 4096 ∣ b) (hcb : c < b) (h : InPart g s b c va) :
    c / 4096 ≤ va / 4096 ∧ va < b := by
  obtain ⟨-, hlo, hhi⟩ := h
  refine ⟨hlo, ?_⟩
  rcases iovaTail_cases (g := g) hcb with ⟨htail, hle⟩ | ⟨htail, -⟩
  · rw [htail] at hhi
    dsimp only at hhi
    omega
  · rw [htail] at hhi
    dsimp only at hhi
    omega

theorem Walked.range (ha : 4096 ∣ a) (hb : 4096 ∣ b) (h : Walked g s a b va) : a ≤ va ∧ va < b := by
  obtain ⟨c, hc, hpart⟩ := h
  obtain ⟨hlo, hhi⟩ := mem_cursors hc
  obtain ⟨hpage, hlt⟩ := hpart.range hb hhi
  exact ⟨by omega, hlt⟩

/-- Behind a part the directory entries are others. -/
theorem iopdeIndex_ne_of_tail_le (hab : a < b) (hbva : b ≤ 2 ^ g.vaBits)
    (hlo : a + (iovaTail g a b).2 ≤ va) (hhi : va < b) : g.iopdeIndex va ≠ g.iopdeIndex a := by
  intro heq
  rw [g.iopdeIndex_inj (hhi.trans_le hbva) (hab.trans_le hbva)] at heq
  have hpva := g.iopteIndex_page va
  have hpa := g.iopteIndex_page a
  have hidx := g.iopteIndex_lt va
  rw [heq] at hpva
  rcases iovaTail_cases (g := g) hab with ⟨htail, -⟩ | ⟨htail, -⟩
  · rw [htail] at hlo
    dsimp only at hlo
    omega
  · rw [htail] at hlo
    dsimp only at hlo
    omega

/-! ### What the loop does -/

/-- What the loop of `sunxi_iommu_unmap` leaves behind. -/
structure WalkUnmapped (g : Geometry) (s : PgState) (a b : ℕ) (s' : PgState) : Prop where
  owned : Owned g s'
  unmapped : ∀ va < 2 ^ g.vaBits, Walked g s a b va → pteAt g s' va = 0
  kept : ∀ va < 2 ^ g.vaBits, ¬Walked g s a b va → pteAt g s' va = pteAt g s va
  pd_eq : ∀ i, (∀ c ∈ cursors g s a b, g.iopdeIndex c ≠ i) → s'.pd i = s.pd i
  live : ∀ p, s'.tables.Live p → s.tables.Live p
  -- a part that is all of its table
  freed : ∀ c ∈ cursors g s a b, (iovaTail g c b).2 = g.spdSize →
    ∀ t, s.slot g (g.iopdeIndex c) = some t → s'.pd (g.iopdeIndex c) = 0 ∧ ¬s'.tables.Live t

/-- Without a table nothing happens. -/
theorem deleteL2_of_hole (hv : ¬IsValid (s.pd (g.iopdeIndex a))) :
    sunxiPgtableDeleteL2Tables g s a b = (-EINVAL, s, []) := by
  unfold sunxiPgtableDeleteL2Tables
  dsimp only
  rw [if_pos hv]

theorem deleteL2_stride : intToU32 (sunxiPgtableDeleteL2Tables g s a b).1 = stride g s b a := by
  unfold stride
  split
  · next hv => exact deleteL2_ret hv
  · next hv => rw [deleteL2_of_hole hv]

/-- At a hole nothing is done. -/
theorem WalkUnmapped.cons_hole (hab : a < b) (hv : ¬IsValid (s.pd (g.iopdeIndex a)))
    (hrest : WalkUnmapped g s (a + stride g s b a) b s') : WalkUnmapped g s a b s' := by
  have hwalked : ∀ {va}, Walked g s a b va ↔ Walked g s (a + stride g s b a) b va :=
    (walked_of_lt hab).trans (or_iff_right fun hin => hv hin.1)
  refine ⟨hrest.owned, ?_, ?_, ?_, hrest.live, ?_⟩
  · exact fun va hva hw => hrest.unmapped va hva (hwalked.mp hw)
  · exact fun va hva hw => hrest.kept va hva (mt hwalked.mpr hw)
  · intro i hi
    rw [cursors_of_lt hab, List.forall_mem_cons] at hi
    exact hrest.pd_eq i hi.2
  · intro c hc hfull t hslot
    rw [cursors_of_lt hab] at hc
    rcases List.mem_cons.mp hc with rfl | hc
    · exact absurd (isValid_of_slot hslot).1 hv
    · exact hrest.freed c hc hfull t hslot

/-- One part: what the rest of the loop does is added to what is done at `a`. The later cursors are
under other entries, so that the way is the same after the part is gone. -/
theorem WalkUnmapped.cons_part {u : PgState} {t : ℕ} (hab : a < b) (hbva : b ≤ 2 ^ g.vaBits)
    (ht : s.slot g (g.iopdeIndex a) = some t)
    (hpart : PartDeleted g s a b t (sunxiPgtableDeleteL2Tables g s a b))
    (hu : u = (sunxiPgtableDeleteL2Tables g s a b).2.1)
    (hrest : WalkUnmapped g u (a + stride g s b a) b s') : WalkUnmapped g s a b s' := by
  obtain ⟨-, -, hpte, hlive, hfreed⟩ := hpart
  obtain ⟨hv, -⟩ := isValid_of_slot ht
  rw [← hu] at hpte hlive hfreed
  have hother : ∀ i, i ≠ g.iopdeIndex a → u.pd i = s.pd i := fun i hi => hu ▸ deleteL2_pd_eq hi
  have hlater : ∀ va, a + stride g s b a ≤ va → va < b → g.iopdeIndex va ≠ g.iopdeIndex a := by
    intro va hlo hhi
    rw [stride, if_pos hv] at hlo
    exact iopdeIndex_ne_of_tail_le hab hbva hlo hhi
  have hsame : ∀ va, a + stride g s b a ≤ va → va < b →
      u.pd (g.iopdeIndex va) = s.pd (g.iopdeIndex va) :=
    fun va hlo hhi => hother _ (hlater va hlo hhi)
  have hcursors := cursors_congr hsame
  refine ⟨hrest.owned, ?_, ?_, ?_, fun p hp => hlive p (hrest.live p hp), ?_⟩
  · intro va hva hw
    by_cases hw' : Walked g u (a + stride g s b a) b va
    · exact hrest.unmapped va hva hw'
    · have hin := ((walked_of_lt hab).mp hw).resolve_right (mt (walked_congr hsame).mpr hw')
      rw [hrest.kept va hva hw', hpte va hva, if_pos hin.2]
  · intro va hva hw
    obtain ⟨hout, hw'⟩ := not_or.mp (mt (walked_of_lt hab).mpr hw)
    rw [hrest.kept va hva (mt (walked_congr hsame).mp hw'), hpte va hva,
      if_neg fun hin => hout ⟨hv, hin⟩]
  · intro i hi
    rw [cursors_of_lt hab, List.forall_mem_cons] at hi
    rw [hrest.pd_eq i (hcursors ▸ hi.2), hother i (Ne.symm hi.1)]
  · intro c hc hfull t' hslot
    rw [cursors_of_lt hab] at hc
    rcases List.mem_cons.mp hc with rfl | hc
    · obtain rfl : t = t' := Option.some.inj (ht.symm.trans hslot)
      obtain ⟨hzero, hdead⟩ := hfreed hfull
      refine ⟨?_, fun hp => hdead (hrest.live _ hp)⟩
      rw [hrest.pd_eq _ fun c' hc' => ?_]
      · exact hzero
      · obtain ⟨hlo, hhi⟩ := mem_cursors hc'
        exact hlater c' hlo hhi
    · obtain ⟨hlo, hhi⟩ := mem_cursors hc
      refine hrest.freed c (hcursors ▸ hc) hfull t' ?_
      rw [← hslot]
      exact congrArg (toTable g) (hsame c hlo hhi)

/-- **The loop** unmaps what it meets, and nothing else. -/
theorem walkUnmapped (version a b : ℕ) (h : Owned g s) (hbva : b ≤ 2 ^ g.vaBits) :
    WalkUnmapped g s a b (unmapLoop g version s a b).1 := by
  fun_induction unmapLoop g version s a b with
  | case1 s a hlt r tailSize ptw rest ih =>
    have hstride : tailSize = stride g s b a := deleteL2_stride
    by_cases hv : IsValid (s.pd (g.iopdeIndex a))
    · have ht := slot_of_isValid (g := g) hv
      have hpart := partDeleted h hlt hbva ht
      have hrest : WalkUnmapped g r.2.1 (a + stride g s b a) b rest.1 := by
        rw [← hstride]
        exact ih hpart.owned
      exact hrest.cons_part hlt hbva ht hpart rfl
    · have hstay : r.2.1 = s := by
        show (sunxiPgtableDeleteL2Tables g s a b).2.1 = s
        rw [deleteL2_of_hole hv]
      have hrest : WalkUnmapped g r.2.1 (a + stride g s b a) b rest.1 := by
        rw [← hstride]
        exact ih (hstay ▸ h)
      rw [hstay] at hrest
      exact hrest.cons_hole hlt hv
  | case2 s a hge =>
    have hnone : cursors g s a b = [] := by rw [cursors, if_neg hge]
    refine ⟨h, fun va _ hw => absurd hw (not_walked hge), fun _ _ _ => rfl, fun _ _ => rfl,
      fun _ hp => hp, fun c hc => ?_⟩
    rw [hnone] at hc
    cases hc

/-! ### What the walk meets, told by the directory -/

/-- From the cursor `p` the loop meets the page of `va`: no directory entry up to `va` is without a
table, or the cursor jumps at the first one and the loop meets the page after that. A cursor that is
`p % 4096` behind the start of its page stays so until it jumps, and leaves out the last page. -/
inductive Met (g : Geometry) (s : PgState) (b va : ℕ) : ℕ → Prop
  | here {p : ℕ} (hlo : p / 4096 ≤ va / 4096) (hhi : va / 4096 < (b - p % 4096) / 4096)
      (hvalid : ∀ i, p / g.spdSize ≤ i → i ≤ va / g.spdSize → IsValid (s.pd i)) : Met g s b va p
  | jump {p i : ℕ} (hlo : p / g.spdSize ≤ i)
      (hvalid : ∀ j, p / g.spdSize ≤ j → j < i → IsValid (s.pd j)) (hhole : ¬IsValid (s.pd i))
      (hmet : Met g s b va (max p (i * g.spdSize + p % 4096) + intToU32 (-EINVAL))) :
      Met g s b va p

theorem Met.lt {p : ℕ} (h : Met g s b va p) : p + 4096 ≤ b := by
  induction h with
  | here hlo hhi hvalid => omega
  | jump hlo hvalid hhole hmet ih => omega

/-- The loop does not go back. -/
theorem Met.page_le {p : ℕ} (h : Met g s b va p) : p / 4096 ≤ va / 4096 := by
  induction h with
  | here hlo hhi hvalid => exact hlo
  | jump hlo hvalid hhole hmet ih =>
    exact (Nat.div_le_div_right (Nat.le_add_right_of_le (Nat.le_max_left ..))).trans ih

theorem intToU32_EINVAL : intToU32 (-EINVAL) = 4294967274 := rfl

/-- At an entry without a table the cursor jumps. -/
theorem met_of_hole {p : ℕ} (hv : ¬IsValid (s.pd (p / g.spdSize))) :
    Met g s b va p ↔ Met g s b va (p + intToU32 (-EINVAL)) := by
  have hcursor : max p (p / g.spdSize * g.spdSize + p % 4096) = p := by
    apply Nat.max_eq_left
    calc p / g.spdSize * g.spdSize + p % 4096
        = p / g.spdSize * g.spdSize + p % g.spdSize % 4096 := by
          rw [Nat.mod_mod_of_dvd _ g.page_dvd_spdSize]
      _ ≤ p / g.spdSize * g.spdSize + p % g.spdSize := Nat.add_le_add_left (Nat.mod_le ..) _
      _ = p := Nat.div_add_mod' ..
  constructor
  · intro h
    cases h with
    | here hlo hhi hvalid =>
      have hle : p / g.spdSize ≤ va / g.spdSize := by
        obtain ⟨n, hn⟩ := g.page_dvd_spdSize
        rw [hn, ← Nat.div_div_eq_div_mul, ← Nat.div_div_eq_div_mul]
        exact Nat.div_le_div_right hlo
      exact absurd (hvalid _ (Nat.le_refl _) hle) hv
    | @jump _ i hlo hvalid hhole hmet =>
      obtain rfl : i = p / g.spdSize := by
        by_contra hne
        exact hv (hvalid _ (Nat.le_refl _) (by omega))
      rwa [hcursor] at hmet
  · intro h
    refine .jump (Nat.le_refl _) (fun j hlo hhi => absurd hhi (Nat.not_lt.mpr hlo)) hv ?_
    rwa [hcursor]

/-- Where the entry of `a` ends, as the cursor sees it. -/
theorem entryEnd_cursor (a : ℕ) :
    a + (g.numEntriesPte - g.iopteIndex a) * 4096 = (a / g.spdSize + 1) * g.spdSize + a % 4096 := by
  have hfloor := entryEnd_eq (g := g) (a := a / 4096 * 4096) (Nat.dvd_mul_left ..)
  have hpage : a / 4096 * 4096 / 4096 = a / 4096 := Nat.mul_div_cancel _ (by decide)
  have hdiv : a / 4096 * 4096 / g.spdSize = a / g.spdSize := by
    obtain ⟨n, hn⟩ := g.page_dvd_spdSize
    rw [hn, ← Nat.div_div_eq_div_mul, ← Nat.div_div_eq_div_mul, hpage]
  rw [hdiv, g.iopteIndex_eq, hpage, ← g.iopteIndex_eq] at hfloor
  omega

/-- The entries of the pages before the end of an entry. -/
theorem div_le_of_page_lt {x i : ℕ} (h : x / 4096 < (i + 1) * g.spdSize / 4096) :
    x / g.spdSize ≤ i := by
  have hdvd : 4096 ∣ (i + 1) * g.spdSize := Dvd.dvd.mul_left g.page_dvd_spdSize _
  have hlt : x < (i + 1) * g.spdSize := by omega
  exact Nat.le_of_lt_succ ((Nat.div_lt_iff_lt_mul g.spdSize_pos).mpr hlt)

/-- An entry with a table is met like this: behind the end of the entry the cursor, which is `o`
behind the start of a page, meets what it meets from here. -/
theorem met_next (hv : IsValid (s.pd (a / g.spdSize)))
    (hout : (a / g.spdSize + 1) * g.spdSize / 4096 ≤ va / 4096) :
    Met g s b va a ↔ Met g s b va ((a / g.spdSize + 1) * g.spdSize + a % 4096) := by
  have hdvd : 4096 ∣ (a / g.spdSize + 1) * g.spdSize := Dvd.dvd.mul_left g.page_dvd_spdSize _
  have hsmall : a % 4096 < g.spdSize :=
    (Nat.mod_lt _ (by decide)).trans_le (Nat.le_of_dvd g.spdSize_pos g.page_dvd_spdSize)
  have hmod : ((a / g.spdSize + 1) * g.spdSize + a % 4096) % 4096 = a % 4096 := by omega
  have hdiv : ((a / g.spdSize + 1) * g.spdSize + a % 4096) / g.spdSize = a / g.spdSize + 1 := by
    rw [Nat.add_comm, Nat.add_mul_div_right _ _ g.spdSize_pos, Nat.div_eq_of_lt hsmall,
      Nat.zero_add]
  have hpage : a / 4096 ≤ (a / g.spdSize + 1) * g.spdSize / 4096 :=
    Nat.div_le_div_right (Nat.lt_mul_of_div_lt (Nat.lt_succ_self _) g.spdSize_pos).le
  -- the cursor at a later entry
  have hcursor : ∀ i, a / g.spdSize + 1 ≤ i →
      max ((a / g.spdSize + 1) * g.spdSize + a % 4096) (i * g.spdSize + a % 4096) =
        max a (i * g.spdSize + a % 4096) := by
    intro i hi
    have hmul := Nat.mul_le_mul_right g.spdSize hi
    have hlt : a < (a / g.spdSize + 1) * g.spdSize :=
      Nat.lt_mul_of_div_lt (Nat.lt_succ_self _) g.spdSize_pos
    omega
  constructor
  · intro h
    cases h with
    | here hlo hhi hvalid =>
      refine .here (by omega) (by rwa [hmod]) fun i hi => hvalid i ?_
      rw [hdiv] at hi
      exact (Nat.le_succ _).trans hi
    | @jump _ i hlo hvalid hhole hmet =>
      have hi : a / g.spdSize + 1 ≤ i := Nat.lt_of_le_of_ne hlo fun heq => hhole (heq ▸ hv)
      refine .jump (hdiv.trans_le hi) (fun j hj => hvalid j ?_) hhole ?_
      · rw [hdiv] at hj
        exact (Nat.le_succ _).trans hj
      · rwa [hmod, hcursor i hi]
  · intro h
    -- the entry itself is valid
    have hextend : ∀ {q : ℕ → Prop}, (∀ i, a / g.spdSize + 1 ≤ i → q i → IsValid (s.pd i)) →
        ∀ i, a / g.spdSize ≤ i → q i → IsValid (s.pd i) := by
      intro q hq i hi hqi
      rcases Nat.lt_or_eq_of_le hi with hi | rfl
      · exact hq i hi hqi
      · exact hv
    cases h with
    | here hlo hhi hvalid =>
      rw [hmod] at hhi
      rw [hdiv] at hvalid
      exact .here (hpage.trans hout) hhi (hextend hvalid)
    | @jump _ i hlo hvalid hhole hmet =>
      rw [hdiv] at hlo hvalid
      rw [hmod, hcursor i hlo] at hmet
      exact .jump ((Nat.le_succ _).trans hlo) (hextend hvalid) hhole hmet

/-- A page of the entry of the cursor is met in place. -/
theorem met_here (hv : IsValid (s.pd (a / g.spdSize)))
    (hin : va / 4096 < (a / g.spdSize + 1) * g.spdSize / 4096) :
    Met g s b va a ↔ a / 4096 ≤ va / 4096 ∧ va / 4096 < (b - a % 4096) / 4096 := by
  constructor
  · intro h
    refine ⟨h.page_le, ?_⟩
    cases h with
    | here hlo hhi hvalid => exact hhi
    | @jump _ i hlo hvalid hhole hmet =>
      have hi : a / g.spdSize + 1 ≤ i := Nat.lt_of_le_of_ne hlo fun heq => hhole (heq ▸ hv)
      have hmul := Nat.mul_le_mul_right g.spdSize hi
      have hpage := hmet.page_le
      omega
  · rintro ⟨hlo, hhi⟩
    refine .here hlo hhi fun i hi hle => ?_
    obtain rfl : i = a / g.spdSize := Nat.le_antisymm (hle.trans (div_le_of_page_lt hin)) hi
    exact hv

/-- At an entry with a table the part is met, and the cursor goes on. -/
theorem met_of_valid (hab : a < b) (hb : 4096 ∣ b) (hv : IsValid (s.pd (a / g.spdSize))) :
    Met g s b va a ↔
      (a / 4096 ≤ va / 4096 ∧ va / 4096 < a / 4096 + (iovaTail g a b).1) ∨
        Met g s b va (a + (iovaTail g a b).2) := by
  have hend := entryEnd_cursor (g := g) a
  have hdvd : 4096 ∣ (a / g.spdSize + 1) * g.spdSize := Dvd.dvd.mul_left g.page_dvd_spdSize _
  rcases Nat.lt_or_ge (va / 4096) ((a / g.spdSize + 1) * g.spdSize / 4096) with hin | hout
  · rw [met_here hv hin]
    rcases iovaTail_cases (g := g) hab with ⟨htail, hle⟩ | ⟨htail, hgt⟩
    · rw [htail]
      dsimp only
      rw [hend] at hle ⊢
      constructor
      · rintro ⟨hlo, -⟩
        exact Or.inl ⟨hlo, by omega⟩
      · rintro (⟨hlo, -⟩ | h)
        · exact ⟨hlo, by omega⟩
        · have hpage := h.page_le
          omega
    · rw [htail]
      dsimp only
      constructor
      · rintro ⟨hlo, hhi⟩
        exact Or.inl ⟨hlo, by omega⟩
      · rintro (⟨hlo, hhi⟩ | h)
        · exact ⟨hlo, by omega⟩
        · have hlt := h.lt
          omega
  · rw [met_next hv hout]
    rcases iovaTail_cases (g := g) hab with ⟨htail, hle⟩ | ⟨htail, hgt⟩
    · rw [htail]
      dsimp only
      rw [hend]
      exact (or_iff_right fun hin => by omega).symm
    · rw [htail]
      dsimp only
      constructor
      · intro h
        have hlt := h.lt
        omega
      · rintro (⟨hlo, hhi⟩ | h)
        · omega
        · have hlt := h.lt
          omega

/-- The loop meets what the directory says. -/
theorem walked_iff_met (hb : 4096 ∣ b) (hbva : b ≤ 2 ^ g.vaBits) :
    Walked g s a b va ↔ Met g s b va a := by
  fun_induction cursors g s a b with
  | case1 a hlt ih =>
    rw [walked_of_lt hlt, ih]
    unfold stride InPart
    rw [g.iopdeIndex_of_lt (hlt.trans_le hbva)]
    by_cases hv : IsValid (s.pd (a / g.spdSize))
    · rw [if_pos hv, met_of_valid hlt hb hv]
      exact or_congr_left (and_iff_right hv)
    · rw [if_neg hv, met_of_hole hv]
      exact or_iff_right fun hin => hv hin.1
  | case2 a hge =>
    refine iff_of_false (not_walked hge) fun h => ?_
    have hlt := h.lt
    omega

/-- A range of at most 4 GiB is met up to the first entry without a table. -/
theorem met_iff_of_le (ha : 4096 ∣ a) (hb : 4096 ∣ b) (hsize : b ≤ a + 2 ^ 32) (hlo : a ≤ va)
    (hhi : va < b) :
    Met g s b va a ↔ ∀ i, a / g.spdSize ≤ i → i ≤ va / g.spdSize → IsValid (s.pd i) := by
  constructor
  · intro h
    cases h with
    | here hlo hhi hvalid => exact hvalid
    | jump hlo hvalid hhole hmet =>
      -- the jump leads to the last page or behind it
      have hlt := hmet.lt
      rw [intToU32_EINVAL] at hlt
      omega
  · intro h
    exact .here (Nat.div_le_div_right hlo) (by omega) h

/-! ### The call -/

/-- The arguments of a call: pages of the aperture, of any number. -/
structure Pages (g : Geometry) (iova size : ℕ) : Prop where
  iovaAligned : 4096 ∣ iova
  sizeAligned : 4096 ∣ size
  inside : iova + size ≤ 2 ^ g.vaBits

instance (g : Geometry) (iova size : ℕ) : Decidable (Pages g iova size) :=
  decidable_of_iff (4096 ∣ iova ∧ 4096 ∣ size ∧ iova + size ≤ 2 ^ g.vaBits)
    ⟨fun h => ⟨h.1, h.2.1, h.2.2⟩, fun h => ⟨h.iovaAligned, h.sizeAligned, h.inside⟩⟩

/-- What an unmap of `[iova, iova + size)` is to do. -/
structure UnmappedWithHoles (g : Geometry) (version : ℕ) (s : PgState) (gather : IotlbGather)
    (iova size : ℕ) : Prop where
  pages : ∀ va, iova ≤ va → va < iova + size →
    let s' := (sunxiIommuUnmap g version s gather iova size).state
    pteAt g s' va = 0 ∧ sunxiPgtableIovaToPhys g s' va = 0
  others : ∀ va < 2 ^ g.vaBits, ¬(iova ≤ va ∧ va < iova + size) →
    let s' := (sunxiIommuUnmap g version s gather iova size).state
    pteAt g s' va = pteAt g s va ∧ sunxiPgtableIovaToPhys g s' va = sunxiPgtableIovaToPhys g s va
  -- the tables that one step of the loop goes over
  whole : ∀ c ∈ cursors g s iova (iova + size), (iovaTail g c (iova + size)).2 = g.spdSize →
    ∀ t, s.slot g (g.iopdeIndex c) = some t →
      let s' := (sunxiIommuUnmap g version s gather iova size).state
      s'.pd (g.iopdeIndex c) = 0 ∧ ¬s'.tables.Live t

/-- The loop meets every mapped page of the range. -/
def HolesHarmless (g : Geometry) (s : PgState) (iova size : ℕ) : Prop :=
  ∀ va, iova ≤ va → va < iova + size → pteAt g s va ≠ 0 → Met g s (iova + size) va iova

/-- No mapped page of the range lies behind a directory entry of the range without a table. -/
def NoneBehindHole (g : Geometry) (s : PgState) (iova size : ℕ) : Prop :=
  ∀ va, iova ≤ va → va < iova + size → pteAt g s va ≠ 0 →
    ∀ i, iova / g.spdSize ≤ i → i ≤ va / g.spdSize → IsValid (s.pd i)

theorem holesHarmless_iff {iova size : ℕ} (hr : Pages g iova size) (hsize : size ≤ 2 ^ 32) :
    HolesHarmless g s iova size ↔ NoneBehindHole g s iova size := by
  have hend : 4096 ∣ iova + size := Nat.dvd_add hr.iovaAligned hr.sizeAligned
  refine forall_congr' fun va => forall_congr' fun hlo => forall_congr' fun hhi => ?_
  rw [met_iff_of_le hr.iovaAligned hend (Nat.add_le_add_left hsize _) hlo hhi]

theorem iovaToPhys_of_pteAt_eq_zero (h : pteAt g s va = 0) : sunxiPgtableIovaToPhys g s va = 0 := by
  rw [sunxiPgtableIovaToPhys_eq, if_neg (not_not_intro h)]

/-- **Unmapping a range with holes.** The loop ends. Every page of the range is unmapped, every
other page keeps its translation, and every table that one step goes over is freed with its
directory entry cleared, exactly when the loop meets every mapped page of the range; for a range of
at most 4 GiB, which every range of the first layout is, exactly when none of them lies behind a
hole. -/
theorem unmap_holes_iff (g : Geometry) (version : ℕ) (s : PgState) (gather : IotlbGather)
    (iova size : ℕ) (h : Owned g s) (hr : Pages g iova size) :
    (UnmappedWithHoles g version s gather iova size ↔ HolesHarmless g s iova size) ∧
      (size ≤ 2 ^ 32 →
        (UnmappedWithHoles g version s gather iova size ↔ NoneBehindHole g s iova size)) := by
  have hend : 4096 ∣ iova + size := Nat.dvd_add hr.iovaAligned hr.sizeAligned
  have hwalk := walkUnmapped version iova (iova + size) h hr.inside
  rw [← sunxiIommuUnmap_state_of_dvd hr.iovaAligned hend version gather] at hwalk
  have hmet : ∀ {va}, Walked g s iova (iova + size) va ↔ Met g s (iova + size) va iova :=
    walked_iff_met hend hr.inside
  have hiff : UnmappedWithHoles g version s gather iova size ↔ HolesHarmless g s iova size := by
    constructor
    · intro hok va hlo hhi hpte
      by_contra hnot
      have hva := hhi.trans_le hr.inside
      exact hpte ((hwalk.kept va hva (mt hmet.mp hnot)).symm.trans (hok.pages va hlo hhi).1)
    · intro hharm
      refine ⟨fun va hlo hhi => ?_, fun va hva hout => ?_, hwalk.freed⟩
      · intro s'
        have hva := hhi.trans_le hr.inside
        have hzero : pteAt g s' va = 0 := by
          by_cases hw : Walked g s iova (iova + size) va
          · exact hwalk.unmapped va hva hw
          · rw [hwalk.kept va hva hw]
            by_contra hpte
            exact hw (hmet.mpr (hharm va hlo hhi hpte))
        exact ⟨hzero, iovaToPhys_of_pteAt_eq_zero hzero⟩
      · intro s'
        have hkept : pteAt g s' va = pteAt g s va :=
          hwalk.kept va hva fun hw => hout (hw.range hr.iovaAligned hend)
        refine ⟨hkept, ?_⟩
        rw [sunxiPgtableIovaToPhys_eq, sunxiPgtableIovaToPhys_eq, hkept]
  exact ⟨hiff, fun hsize => hiff.trans (holesHarmless_iff hr hsize)⟩

theorem unmapLoop_of_lt {version : ℕ} (h : a < b) :
    (unmapLoop g version s a b).1 =
      (unmapLoop g version (sunxiPgtableDeleteL2Tables g s a b).2.1 (a + stride g s b a) b).1 := by
  rw [← deleteL2_stride, unmapLoop, if_pos h]

/-- A hole from which the cursor jumps behind the range. -/
theorem unmapLoop_of_hole {version : ℕ} (hv : ¬IsValid (s.pd (g.iopdeIndex a)))
    (hb : b ≤ a + stride g s b a) : (unmapLoop g version s a b).1 = s := by
  by_cases h : a < b
  · rw [unmapLoop_of_lt h, unmapLoop, if_neg (Nat.not_lt.mpr hb), deleteL2_of_hole hv]
  · rw [unmapLoop, if_neg h]

/-- A directory with one table, under its second entry, and with one page at the start of it. -/
def behindHole : PgState :=
  let s := sunxiAllocIopte .v1 (PgState.init fun _ => 0) 1 0x40000000
  { s with
    mem := storeWords s.mem 0x40000000 (fun _ => sunxiMkPte .v1 0x50000000 3) 1
    tables := s.tables.access 0x40000000 }

theorem owned_behindHole : Owned .v1 behindHole := by
  have htable : TableAddr .v1 0x40000000 := ⟨by decide, by decide, by decide⟩
  have hattached : Owned .v1 (sunxiAllocIopte .v1 (PgState.init fun _ => 0) 1 0x40000000) :=
    (owned_init _).attach (by decide) toTable_zero htable (Arena.not_live_empty _)
  have hslot : (sunxiAllocIopte .v1 (PgState.init fun _ => 0) 1 0x40000000).slot .v1 1 =
      some 0x40000000 := by rw [slot_attach htable, Function.update_self]
  exact hattached.store hslot _

/-- Behind the page there is no table, and so no page. -/
theorem noneBehindHole_page : NoneBehindHole .v1 behindHole 0x100000 0x200000 := by
  intro va hlo hhi hpte i hi hi'
  have hsize : Geometry.v1.spdSize = 0x100000 := rfl
  rw [hsize] at hi hi'
  have hentry : va / 0x100000 = 1 ∨ va / 0x100000 = 2 := by omega
  rcases hentry with hentry | hentry
  · obtain rfl : i = 1 := by omega
    decide
  · have hidx : Geometry.v1.iopdeIndex va = 2 := by
      rw [Geometry.v1.iopdeIndex_of_lt (show va < 2 ^ 32 by omega), hsize, hentry]
    obtain ⟨t, ht⟩ := slot_of_pteAt hpte
    have hnone : behindHole.slot .v1 2 = none := by decide
    rw [hidx, hnone] at ht
    cases ht

/-- The page is unmapped from its own entry on, though there is a hole behind it, and it stays when
the range begins at the hole before it. -/
theorem unmap_holes_iff_behindHole :
    UnmappedWithHoles .v1 IOMMU_VERSION_V14 behindHole ⟨0, 0⟩ 0x100000 0x200000 ∧
      ¬UnmappedWithHoles .v1 IOMMU_VERSION_V14 behindHole ⟨0, 0⟩ 0 0x200000 := by
  have hafter := unmap_holes_iff .v1 IOMMU_VERSION_V14 behindHole ⟨0, 0⟩ 0x100000 0x200000
    owned_behindHole (by decide)
  have hbefore := unmap_holes_iff .v1 IOMMU_VERSION_V14 behindHole ⟨0, 0⟩ 0 0x200000
    owned_behindHole (by decide)
  refine ⟨(hafter.2 (by decide)).mpr noneBehindHole_page, fun hok => ?_⟩
  have hnone := (hbefore.2 (by decide)).mp hok
  exact absurd (hnone 0x100000 (by decide) (by decide) (by decide) 0 (by decide) (by decide))
    (by decide)

/-- The unmap of the first 2 MiB jumps over the page. -/
theorem page_behind_hole_stays :
    ¬∀ (g : Geometry) (version : ℕ) (s : PgState) (gather : IotlbGather) (iova size : ℕ),
      Owned g s → Pages g iova size → UnmappedWithHoles g version s gather iova size := by
  intro hall
  have hr : Pages .v1 0 0x200000 := by decide
  have hok := hall .v1 IOMMU_VERSION_V14 behindHole ⟨0, 0⟩ 0 0x200000 owned_behindHole hr
  have hpage := (hok.pages 0x100000 (by decide) (by decide)).1
  rw [sunxiIommuUnmap_state_of_dvd hr.iovaAligned (by decide),
    unmapLoop_of_hole (by decide) (by decide)] at hpage
  exact absurd hpage (by decide)

end LonganPi.Iommu
