import LonganPi.Ve.DebugInfo
import Mathlib.Algebra.BigOperators.Group.List.Basic
import Mathlib.Algebra.GroupWithZero.Nat

/-!
# The page of `ve_info_show`

A sysfs file is shown in one page. `ve_info_show` writes a header line and behind it the blocks of
the occupied slots, and it stops at the slot with which the sum of the lengths exceeds the page. The
sum is `nTotalSize`, an `int`, and it counts the blocks only: the header is in the write cursor
`count` but not in the sum, and the sum of lengths that user space chose can wrap.

`showAt` is the loop of `veInfoShow` with the cursor, so that every write has its place on the page;
the bytes are the same (`veInfoShow_eq`). The blocks are those of the first occupied slots and the
count is right in any case. All of them lie in the page exactly when the sum never exceeds what the
header leaves of the page without exceeding the page, and never by 4 GiB (`info_show_iff`).
-/

open DriverLib

namespace LonganPi.Ve

/-! ### The code -/

/-- The test of `ve_info_show` for an occupied slot. -/
def VeDebugInfo.Shown (d : VeDebugInfo) : Prop := d.headInfo.pid ≠ 0 ∧ d.headInfo.tid ≠ 0

instance (d : VeDebugInfo) : Decidable d.Shown := inferInstanceAs (Decidable (_ ∧ _))

/-- What the buffer of a slot holds. -/
def VeDebugInfo.content (d : VeDebugInfo) (heap : Arena (List UInt8)) : List UInt8 :=
  (d.data.bind heap.block).getD []

/-- A write to the page: the offset and the bytes. -/
abbrev PageWrite := ℕ × List UInt8

/-- The loop of `ve_info_show` over the slots that are left: the count it returns and what it
writes. -/
def showAt (heap : Arena (List UInt8)) : List VeDebugInfo → ℤ → ℕ → ℕ × List PageWrite
  | [], _, count => (count, [])
  | d :: ds, nTotalSize, count =>
    if d.Shown then
      let nTotalSize := toInt32 (nTotalSize + d.headInfo.length.toNat)
      -- compared as `unsigned long`
      if nTotalSize % 2 ^ 64 > PAGE_SIZE then (count, [])
      else
        let r := showAt heap ds nTotalSize (count + d.headInfo.length.toNat)
        (r.1, (count, (d.content heap).take d.headInfo.length.toNat) :: r.2)
    else showAt heap ds nTotalSize count

/-- The slots of the table, in order. -/
def DebugState.slots (s : DebugState) : List VeDebugInfo :=
  (List.finRange MAX_VE_DEBUG_INFO_NUM).map s.debugInfo

/-- `ve_info_show`: the count it returns and what it writes to the page. -/
def veInfoShowPage (s : DebugState) : ℕ × List PageWrite :=
  let r := showAt s.heap s.slots 0 showHeader.length
  (r.1, (0, showHeader) :: r.2)

/-! ### What a page should be -/

/-- The buffers of the occupied slots exist. -/
def DebugState.Intact (s : DebugState) : Prop :=
  ∀ d ∈ s.slots, d.Shown → (d.content s.heap).length = d.headInfo.length.toNat

/-- The data of the occupied slots, in order. -/
def DebugState.shownData (s : DebugState) : List (List UInt8) :=
  (s.slots.filter fun d => d.Shown).map fun d => d.content s.heap

/-- The lengths of the occupied slots, in order. -/
def DebugState.shownLengths (s : DebugState) : List ℕ :=
  (s.slots.filter fun d => d.Shown).map fun d => d.headInfo.length.toNat

/-- The page, of which `count` bytes are returned. -/
structure PageFaithful (s : DebugState) (count : ℕ) (writes : List PageWrite) : Prop where
  -- no write exceeds the page
  inside : ∀ w ∈ writes, w.1 + w.2.length ≤ PAGE_SIZE
  -- the bytes written
  count : count = (writes.map fun w => w.2.length).sum
  -- behind the header a prefix of the data
  blocks : ∃ n, writes.map Prod.snd = showHeader :: s.shownData.take n

/-- With lengths behind a sum of `t`, the sum exceeds the rest of the page only together with the
page, and by less than 4 GiB. -/
def TotalsFit (t : ℕ) (lengths : List ℕ) : Prop :=
  ∀ k < lengths.length, t + (lengths.take k).sum + showHeader.length ≤ PAGE_SIZE →
    t + (lengths.take (k + 1)).sum + showHeader.length ≤ PAGE_SIZE ∨
      PAGE_SIZE < t + (lengths.take (k + 1)).sum ∧ t + (lengths.take (k + 1)).sum < 2 ^ 32

/-! ### The loop -/

section Loop

variable {heap : Arena (List UInt8)} {d : VeDebugInfo} {ds : List VeDebugInfo} {t n count : ℕ}

/-- The loop of `veInfoShow` writes the same bytes. -/
theorem showLoop_eq (ds : List VeDebugInfo) (nTotalSize : ℤ) (count : ℕ) (text : List UInt8)
    (heap' : Arena (List UInt8)) (hblock : heap'.block = heap.block) :
    (showLoop heap' ds nTotalSize text).1 =
      text ++ ((showAt heap ds nTotalSize count).2.map Prod.snd).flatten := by
  induction ds generalizing nTotalSize count text heap' with
  | nil => exact (List.append_nil text).symm
  | cons d ds ih =>
    unfold showLoop showAt
    by_cases hshown : d.Shown
    · have htest : d.headInfo.pid ≠ 0 ∧ d.headInfo.tid ≠ 0 := hshown
      rw [if_pos htest, if_pos hshown]
      dsimp only
      split
      · exact (List.append_nil text).symm
      · have hheap : (if d.headInfo.length = 0 then heap' else heap'.accessPtr d.data).block =
            heap.block := by
          split
          · exact hblock
          · rw [← hblock]
            cases d.data <;> rfl
        rw [ih _ _ _ _ hheap, hblock, List.map_cons, List.flatten_cons, List.append_assoc]
        rfl
    · have htest : ¬ (d.headInfo.pid ≠ 0 ∧ d.headInfo.tid ≠ 0) := hshown
      rw [if_neg htest, if_neg hshown]
      exact ih _ _ _ _ hblock

/-- The lengths of the occupied slots among `ds`. -/
theorem filter_shown_cons_of_pos (h : d.Shown) :
    (d :: ds).filter (fun d => d.Shown) = d :: ds.filter fun d => d.Shown :=
  List.filter_cons_of_pos (decide_eq_true h)

theorem filter_shown_cons_of_neg (h : ¬ d.Shown) :
    (d :: ds).filter (fun d => d.Shown) = ds.filter fun d => d.Shown :=
  List.filter_cons_of_neg fun hd => h (of_decide_eq_true hd)

/-- The loop stops when the sum is over the page, but not by 4 GiB. -/
theorem total_stops_iff (ht : t ≤ PAGE_SIZE) (hn : n < 2 ^ 32) :
    toInt32 (t + n) % 2 ^ 64 > PAGE_SIZE ↔ PAGE_SIZE < t + n ∧ t + n < 2 ^ 32 := by
  unfold toInt32 PAGE_SIZE at *
  rw [Int.bmod_def]
  split <;> omega

/-- A sum within the page is exact. -/
theorem total_of_le (h : t + n ≤ PAGE_SIZE) : toInt32 (t + n) = ((t + n : ℕ) : ℤ) := by
  unfold PAGE_SIZE at h
  exact toInt32_of_range (by omega) (by omega)

/-- The blocks are those of the first occupied slots. -/
theorem showAt_blocks (hintact : ∀ d ∈ ds, d.Shown → (d.content heap).length =
    d.headInfo.length.toNat) (nTotalSize : ℤ) (count : ℕ) :
    ∃ n, (showAt heap ds nTotalSize count).2.map Prod.snd =
      ((ds.filter fun d => d.Shown).map fun d => d.content heap).take n := by
  induction ds generalizing nTotalSize count with
  | nil => exact ⟨0, rfl⟩
  | cons d ds ih =>
    have hrest := ih fun d hd => hintact d (List.mem_cons_of_mem _ hd)
    unfold showAt
    by_cases hshown : d.Shown
    · rw [if_pos hshown, filter_shown_cons_of_pos hshown]
      dsimp only
      split
      · exact ⟨0, rfl⟩
      · obtain ⟨k, hk⟩ := hrest (toInt32 (nTotalSize + d.headInfo.length.toNat))
          (count + d.headInfo.length.toNat)
        have hblock : (d.content heap).take d.headInfo.length.toNat = d.content heap :=
          List.take_of_length_le (hintact d List.mem_cons_self hshown).le
        refine ⟨k + 1, ?_⟩
        rw [List.map_cons, List.map_cons, List.take_succ_cons, hk, hblock]
    · rw [if_neg hshown, filter_shown_cons_of_neg hshown]
      exact hrest _ _

/-- The count is the cursor behind the last block. -/
theorem showAt_count (hintact : ∀ d ∈ ds, d.Shown → (d.content heap).length =
    d.headInfo.length.toNat) (nTotalSize : ℤ) (count : ℕ) :
    (showAt heap ds nTotalSize count).1 =
      count + ((showAt heap ds nTotalSize count).2.map fun w => w.2.length).sum := by
  induction ds generalizing nTotalSize count with
  | nil => rfl
  | cons d ds ih =>
    have hrest := ih fun d hd => hintact d (List.mem_cons_of_mem _ hd)
    unfold showAt
    by_cases hshown : d.Shown
    · rw [if_pos hshown]
      dsimp only
      split
      · rfl
      · rw [hrest, List.map_cons, List.sum_cons, List.length_take,
          hintact d List.mem_cons_self hshown, Nat.min_self, Nat.add_assoc]
    · rw [if_neg hshown]
      exact hrest _ _

/-- One more length behind a sum that leaves room for the header. -/
theorem totalsFit_cons {lengths : List ℕ} (ht : t + showHeader.length ≤ PAGE_SIZE) :
    TotalsFit t (n :: lengths) ↔
      t + n + showHeader.length ≤ PAGE_SIZE ∧ TotalsFit (t + n) lengths ∨
        PAGE_SIZE < t + n ∧ t + n < 2 ^ 32 := by
  constructor
  · intro h
    have hfirst := h 0 (Nat.succ_pos _) ht
    rw [List.take_succ_cons, List.take_zero, List.sum_cons, List.sum_nil, Nat.add_zero] at hfirst
    refine hfirst.imp_left fun hfit => ⟨hfit, fun k hk hbefore => ?_⟩
    have hnext := h (k + 1) (Nat.succ_lt_succ hk)
    rw [List.take_succ_cons, List.take_succ_cons, List.sum_cons, List.sum_cons, ← Nat.add_assoc,
      ← Nat.add_assoc] at hnext
    exact hnext hbefore
  · rintro h (_ | k) hk hbefore
    · rw [List.take_succ_cons, List.take_zero, List.sum_cons, List.sum_nil, Nat.add_zero]
      exact h.imp_left And.left
    · rw [List.take_succ_cons, List.sum_cons, ← Nat.add_assoc] at hbefore ⊢
      rcases h with ⟨-, hrest⟩ | ⟨hover, -⟩
      · exact hrest k (Nat.lt_of_succ_lt_succ hk) hbefore
      · omega

/-- The sum is over the page. -/
theorem showAt_stop (hshown : d.Shown) (ht : t ≤ PAGE_SIZE)
    (hover : PAGE_SIZE < t + d.headInfo.length.toNat ∧ t + d.headInfo.length.toNat < 2 ^ 32) :
    showAt heap (d :: ds) t count = (count, []) := by
  have hstop := (total_stops_iff ht d.headInfo.length.toNat_lt).mpr hover
  unfold showAt
  rw [if_pos hshown]
  exact if_pos hstop

/-- The block is written, and the loop goes on. -/
theorem showAt_write (hshown : d.Shown) (ht : t ≤ PAGE_SIZE)
    (hover : ¬ (PAGE_SIZE < t + d.headInfo.length.toNat ∧ t + d.headInfo.length.toNat < 2 ^ 32)) :
    showAt heap (d :: ds) t count =
      let r := showAt heap ds (toInt32 (t + d.headInfo.length.toNat))
        (count + d.headInfo.length.toNat)
      (r.1, (count, (d.content heap).take d.headInfo.length.toNat) :: r.2) := by
  have hgo := mt (total_stops_iff ht d.headInfo.length.toNat_lt).mp hover
  conv_lhs => unfold showAt
  rw [if_pos hshown]
  exact if_neg hgo

/-- The blocks behind a sum `t` lie in the page exactly when the lengths fit. -/
theorem showAt_inside_iff (hintact : ∀ d ∈ ds, d.Shown → (d.content heap).length =
    d.headInfo.length.toNat) (ht : t + showHeader.length ≤ PAGE_SIZE) :
    (∀ w ∈ (showAt heap ds t (t + showHeader.length)).2, w.1 + w.2.length ≤ PAGE_SIZE) ↔
      TotalsFit t ((ds.filter fun d => d.Shown).map fun d => d.headInfo.length.toNat) := by
  induction ds generalizing t with
  | nil => exact ⟨fun _ k hk => absurd hk (Nat.not_lt_zero k), fun _ w hw => nomatch hw⟩
  | cons d ds ih =>
    have hrest := fun (u : ℕ) (hu : u + showHeader.length ≤ PAGE_SIZE) =>
      ih (fun d hd => hintact d (List.mem_cons_of_mem _ hd)) hu
    have hpage : t ≤ PAGE_SIZE := Nat.le_of_add_right_le ht
    by_cases hshown : d.Shown
    swap
    · unfold showAt
      rw [if_neg hshown, filter_shown_cons_of_neg hshown]
      exact hrest t ht
    rw [filter_shown_cons_of_pos hshown, List.map_cons, totalsFit_cons ht]
    by_cases hover :
        PAGE_SIZE < t + d.headInfo.length.toNat ∧ t + d.headInfo.length.toNat < 2 ^ 32
    · rw [showAt_stop hshown hpage hover]
      exact ⟨fun _ => Or.inr hover, fun _ w hw => nomatch hw⟩
    have hblock : ((d.content heap).take d.headInfo.length.toNat).length =
        d.headInfo.length.toNat := by
      rw [List.length_take, hintact d List.mem_cons_self hshown, Nat.min_self]
    rw [showAt_write hshown hpage hover, or_iff_left hover, List.forall_mem_cons]
    dsimp only
    rw [hblock, Nat.add_right_comm]
    refine and_congr_right fun hfit => ?_
    rw [total_of_le (Nat.le_of_add_right_le hfit)]
    exact hrest _ hfit

end Loop

/-! ### The page -/

/-- The bytes of the page are the ones that `veInfoShow` returns. -/
theorem veInfoShow_eq (s : DebugState) :
    (veInfoShow s).1 = ((veInfoShowPage s).2.map Prod.snd).flatten :=
  showLoop_eq s.slots 0 showHeader.length showHeader s.heap rfl

/-- **The page of `ve_info_show`.** The blocks are a prefix of the data and the count is right. They
lie in the page exactly when the lengths fit. -/
theorem info_show_iff (s : DebugState) (hintact : s.Intact) :
    PageFaithful s (veInfoShowPage s).1 (veInfoShowPage s).2 ↔ TotalsFit 0 s.shownLengths := by
  have hroom : 0 + showHeader.length ≤ PAGE_SIZE := by decide
  have hinside := showAt_inside_iff hintact hroom
  rw [Nat.zero_add] at hinside
  refine ⟨fun h => hinside.mp fun w hw => h.inside w (List.mem_cons_of_mem _ hw), fun h => ?_⟩
  obtain ⟨n, hblocks⟩ := showAt_blocks hintact 0 showHeader.length
  refine ⟨fun w hw => ?_, showAt_count hintact 0 showHeader.length, n, ?_⟩
  · rcases List.mem_cons.mp hw with rfl | hw
    · exact hroom
    · exact hinside.mpr h w hw
  · exact congrArg (showHeader :: ·) hblocks

/-- The table after one `COPY` of `length` bytes of zeroes. -/
def oneBlock (length : UInt32) : DebugState :=
  { DebugState.init.setSlot ⟨0, by decide⟩ ⟨⟨1, 1, length⟩, some 1⟩ with
    curIndex := 0
    heap := Arena.empty.alloc 1 ((List.range length.toNat).map fun _ => 0) }

theorem oneBlock_intact (length : UInt32) : (oneBlock length).Intact := by
  intro d hd hshown
  obtain ⟨i, -, rfl⟩ := List.mem_map.mp hd
  by_cases hi : i = ⟨0, by decide⟩
  · subst hi
    show ((List.range length.toNat).map fun _ => (0 : UInt8)).length = length.toNat
    rw [List.length_map, List.length_range]
  · have hempty : (oneBlock length).debugInfo i = VeDebugInfo.empty := Function.update_of_ne hi ..
    rw [hempty] at hshown
    exact absurd hshown (by decide)

/-- The table after two `COPY`s, of `first` bytes of zeroes and of `second` bytes of ones. -/
def twoBlocks (first second : UInt32) : DebugState :=
  { (oneBlock first).setSlot ⟨1, by decide⟩ ⟨⟨2, 1, second⟩, some 2⟩ with
    curIndex := 1
    heap := (oneBlock first).heap.alloc 2 ((List.range second.toNat).map fun _ => 1) }

theorem twoBlocks_intact (first second : UInt32) : (twoBlocks first second).Intact := by
  intro d hd hshown
  obtain ⟨i, -, rfl⟩ := List.mem_map.mp hd
  by_cases hi : i = ⟨1, by decide⟩
  · subst hi
    show ((List.range second.toNat).map fun _ => (1 : UInt8)).length = second.toNat
    rw [List.length_map, List.length_range]
  · have hold : (twoBlocks first second).debugInfo i = (oneBlock first).debugInfo i :=
      Function.update_of_ne hi ..
    by_cases hi' : i = ⟨0, by decide⟩
    · subst hi'
      show ((List.range first.toNat).map fun _ => (0 : UInt8)).length = first.toNat
      rw [List.length_map, List.length_range]
    · have hempty : (oneBlock first).debugInfo i = VeDebugInfo.empty :=
        Function.update_of_ne hi' ..
      rw [hold, hempty] at hshown
      exact absurd hshown (by decide)

/-- The first block fits behind the header, and the sum of both is over the page by less than
4 GiB, so the second is left out. -/
theorem info_show_iff_twoBlocks :
    PageFaithful (twoBlocks 4000 100) (veInfoShowPage (twoBlocks 4000 100)).1
      (veInfoShowPage (twoBlocks 4000 100)).2 := by
  refine (info_show_iff (twoBlocks 4000 100) (twoBlocks_intact 4000 100)).mpr ?_
  have hlengths : (twoBlocks 4000 100).shownLengths = [4000, 100] := by decide
  rw [hlengths]
  rintro (_ | _ | k) hk -
  · decide
  · decide
  · exact absurd (show k + 2 < 2 from hk) (Nat.not_lt.mpr (Nat.le_add_left 2 k))

/-- A block of 4080 bytes is within the page, and behind the header it is not. -/
theorem header_is_not_counted :
    ¬ ∀ ops s, debugMachine.exec DebugState.init ops = some s → s.Intact →
      PageFaithful s (veInfoShowPage s).1 (veInfoShowPage s).2 := by
  intro hall
  have hrun : debugMachine.exec DebugState.init
      [.copy (some ⟨1, 1, 4080⟩) (some 1) (some fun _ => 0)] = some (oneBlock 4080) := rfl
  have hpage := hall _ _ hrun (oneBlock_intact 4080)
  have hlengths : (oneBlock 4080).shownLengths = [4080] := by decide
  have hroom : 0 + showHeader.length ≤ PAGE_SIZE := by decide
  have hfit : TotalsFit 0 (oneBlock 4080).shownLengths :=
    (showAt_inside_iff (oneBlock_intact 4080) hroom).mp fun w hw =>
      hpage.inside w (List.mem_cons_of_mem _ hw)
  rw [hlengths] at hfit
  exact absurd (hfit 0 (by decide) (by decide)) (by decide)

end LonganPi.Ve
