import LonganPi.Wifi.RxReorder

/-!
# The order in which received frames are released

A control block with its 12-bit numbers does what the reorder buffer of 64 places does with
integers, each number read as the integer nearest to `ind_sn` (`reordMachine_refines`). So the
results about `Window` are results about the driver.

* `rx_released_in_order`: however frames arrive and whenever the timeouts come, every frame handed
  to the stack before a frame that leaves the list has a smaller number. Out of order are only the
  frames that `reord_need_check` finds late.
* `rx_burst_complete`: consecutive frames of which none overtakes another by 64 are released
  completely and in order, across any number of wraps of the sequence number, and no frame waits
  for the timer.
-/

open DriverLib

namespace LonganPi.Wifi

variable {α : Type*}

/-! ### Numbers on the wire -/

/-- The 12 bits are those of an integer. -/
def Reads (a : BitVec 16) (x : ℤ) : Prop := (a.toNat : ℤ) = x % 4096

/-- The mask of the source keeps the low 12 bits. -/
theorem and_fff_toNat (a : BitVec 16) : (a &&& 0xfff).toNat = a.toNat % 4096 := by
  rw [BitVec.toNat_and]
  exact and_mask 12 a.toNat

/-- The comparison of the source is serial-number comparison with half the 12 bits. -/
theorem SN_LESS_iff (a b : BitVec 16) : SN_LESS a b ↔ Serial.Less 2048 a.toNat b.toNat := by
  have hbit : SN_LESS a b ↔ (a - b).toNat / 2 ^ 11 % 2 = 1 := by
    rw [← and_two_pow_ne_zero, SN_LESS, ne_eq, ← BitVec.toNat_inj, BitVec.toNat_and]
    rfl
  have ha := a.isLt
  have hb := b.isLt
  rw [hbit, BitVec.toNat_sub, Serial.Less]
  omega

section Reads

variable {a b : BitVec 16} {x y : ℤ}

/-- Of two integers that are close, the comparison of the source finds the smaller one. -/
theorem Reads.lt_iff (ha : Reads a x) (hb : Reads b y) (hxy : x - y < 2048) (hyx : y - x ≤ 2048) :
    SN_LESS a b ↔ x < y := by
  rw [SN_LESS_iff, ha, hb]
  exact Serial.less_emod_iff hxy hyx

/-- Close integers with the same 12 bits are the same. -/
theorem Reads.eq_iff (ha : Reads a x) (hb : Reads b y) (hxy : x - y < 4096) (hyx : y - x < 4096) :
    a = b ↔ x = y := by
  rw [Reads] at ha hb
  rw [← BitVec.toNat_inj]
  omega

/-- Counting on wraps with the 12 bits. -/
theorem Reads.succ (ha : Reads a x) : Reads ((a + 1) &&& 0xfff) (x + 1) := by
  rw [Reads] at ha ⊢
  rw [and_fff_toNat, BitVec.toNat_add]
  change (((a.toNat + 1) % 65536 % 4096 : ℕ) : ℤ) = _
  omega

/-- The last number of the window. -/
theorem Reads.wend (ha : Reads a x) : Reads ((a + 64 - 1) &&& 0xfff) (x + 63) := by
  rw [Reads] at ha ⊢
  rw [and_fff_toNat, show a + 64 - 1 = a + 63#16 by bv_omega, BitVec.toNat_add]
  change (((a.toNat + 63) % 65536 % 4096 : ℕ) : ℤ) = _
  omega

/-- The window that ends at a number, in the two cases of the source. -/
theorem Reads.wstart (ha : Reads a x) :
    Reads (if (64 : BitVec 16) - 1 ≤ a then a - (64 - 1) else 0xfff - (64 - (a + 1)) + 1)
      (x - 63) := by
  have hlt : a.toNat < 4096 := by
    rw [Reads] at ha
    omega
  have hle : (64 : BitVec 16) - 1 ≤ a ↔ 63 ≤ a.toNat := BitVec.le_def
  rw [Reads] at ha ⊢
  split
  · next h =>
    have hsub : (a - (64 - 1)).toNat = a.toNat - 63 := by
      rw [hle] at h
      rw [BitVec.toNat_sub]
      change (65536 - 63 + a.toNat) % 65536 = _
      omega
    rw [hle] at h
    rw [hsub]
    omega
  · next h =>
    have hsub : (0xfff - (64 - (a + 1)) + 1 : BitVec 16).toNat = a.toNat + 4033 := by
      rw [hle] at h
      bv_omega
    rw [hle] at h
    rw [hsub]
    omega

/-- A number on the wire is read as an integer that it stands for. -/
theorem reads_seqNum (s : SeqNum) (h : ℤ) : Reads s.val (Serial.unwrap 2048 h s.val.toNat) := by
  have hlt := s.lt
  have hmod := Serial.unwrap_emod (h := 2048) h s.val.toNat
  rw [Reads]
  omega

end Reads

/-! ### The loops -/

/-- The frames of a list carry the numbers beside them. -/
def ReadsAll (l : List (ℤ × RecvMsdu α)) : Prop := ∀ p ∈ l, Reads p.2.seqNum.val p.1

/-- The insertion of the source compares 12-bit numbers from the head of the list. Where the list is
sorted and its numbers are close to that of the frame, it puts the frame in its place, and refuses
it exactly when its number is there already. -/
theorem enqueue_reads {l : List (ℤ × RecvMsdu α)} {f : RecvMsdu α} {n : ℤ} (hl : NumSorted l)
    (hreads : ReadsAll l) (hf : Reads f.seqNum.val n)
    (hb : ∀ p ∈ l, p.1 - n < 2048 ∧ n - p.1 ≤ 2048) :
    reordRxframeEnqueue f (l.map Prod.snd) =
      if ∀ p ∈ l, p.1 ≠ n then some ((Window.place (n, f) l).map Prod.snd) else none := by
  induction l with
  | nil => rfl
  | cons q l ih =>
    obtain ⟨hq, hl'⟩ := List.pairwise_cons.mp hl
    have hqb := hb q List.mem_cons_self
    have hless := (hreads q List.mem_cons_self).lt_iff hf hqb.1 hqb.2
    have heq := (hreads q List.mem_cons_self).eq_iff hf (by omega) (by omega)
    rw [List.map_cons, reordRxframeEnqueue, Window.place, List.orderedInsert_cons]
    by_cases hlt : q.1 < n
    · -- `q` is smaller: the frame goes behind it, or is a duplicate of one behind it
      rw [if_pos (hless.mpr hlt), ih hl' (fun p hp => hreads p (List.mem_cons_of_mem q hp))
        (fun p hp => hb p (List.mem_cons_of_mem q hp)), if_neg (not_le.mpr hlt)]
      have hall : (∀ p ∈ q :: l, p.1 ≠ n) ↔ ∀ p ∈ l, p.1 ≠ n := by
        rw [List.forall_mem_cons]
        exact and_iff_right (ne_of_lt hlt)
      by_cases hne : ∀ p ∈ l, p.1 ≠ n
      · rw [if_pos hne, if_pos (hall.mpr hne)]
        rfl
      · rw [if_neg hne, if_neg (mt hall.mp hne)]
        rfl
    · rw [if_neg (mt hless.mp hlt)]
      -- the walk stops at `q`, which is the frame or is beyond it
      by_cases hqn : q.1 = n
      · rw [if_pos (heq.mpr hqn), if_neg]
        exact fun h => h q List.mem_cons_self hqn
      · -- the rest of the list is beyond its first number, so `n` is new
        have hnew : ∀ p ∈ q :: l, p.1 ≠ n := by
          intro p hp
          rcases List.mem_cons.mp hp with rfl | hp
          · exact hqn
          · have := hq p hp
            omega
        rw [if_neg (mt heq.mp hqn), if_pos hnew, if_pos (by omega)]
        rfl

/-- The walk of `reord_rxframes_process` counts `ind_sn` on along the list as `advance` does, and
reports whether a frame is left beyond where it stops. -/
theorem processLoop_reads {l : List (ℤ × RecvMsdu α)} {m : ℤ} {ind : BitVec 16}
    (hl : NumSorted l) (hreads : ReadsAll l) (hind : Reads ind m)
    (hb : ∀ p ∈ l, m - 2048 < p.1 ∧ p.1 < m + 2048) :
    Reads (processLoop ind (l.map Prod.snd)).2 (advance m l) ∧
      ((processLoop ind (l.map Prod.snd)).1 = true ↔ ∃ p ∈ l, advance m l < p.1) := by
  induction l generalizing m ind with
  | nil =>
    refine ⟨hind, iff_of_false Bool.false_ne_true ?_⟩
    rintro ⟨p, hp, -⟩
    cases hp
  | cons q l ih =>
    obtain ⟨hq, hl'⟩ := List.pairwise_cons.mp hl
    have hqb := hb q List.mem_cons_self
    have hqr := hreads q List.mem_cons_self
    have hless := hind.lt_iff hqr (by omega) (by omega)
    have heq := hind.eq_iff hqr (by omega) (by omega)
    have hreads' : ReadsAll l := fun p hp => hreads p (List.mem_cons_of_mem q hp)
    rw [List.map_cons, processLoop, advance]
    -- the walk stops at the first number that is ahead of it
    by_cases hlt : m < q.1
    · rw [if_neg (not_not.mpr (hless.mpr hlt)), if_pos hlt]
      exact ⟨hind, iff_of_true rfl ⟨q, List.mem_cons_self, hlt⟩⟩
    · rw [if_pos (mt hless.mp hlt), if_neg hlt]
      -- `q` is passed; it is not ahead of where the walk ends
      have hrest : ∀ {m' : ℤ}, m ≤ m' →
          ((∃ p ∈ l, advance m' l < p.1) ↔ ∃ p ∈ q :: l, advance m' l < p.1) := by
        intro m' hm'
        have hle := le_advance m' l
        constructor
        · rintro ⟨p, hp, h⟩
          exact ⟨p, List.mem_cons_of_mem q hp, h⟩
        · rintro ⟨p, hp, h⟩
          rcases List.mem_cons.mp hp with rfl | hp
          · omega
          · exact ⟨p, hp, h⟩
      -- only the number that is awaited moves it
      by_cases hqm : q.1 = m
      · have hb' : ∀ p ∈ l, m + 1 - 2048 < p.1 ∧ p.1 < m + 1 + 2048 := by
          intro p hp
          have h₁ := hq p hp
          have h₂ := hb p (List.mem_cons_of_mem q hp)
          omega
        rw [if_pos (heq.mpr hqm.symm), if_pos hqm, ← hrest (by omega)]
        exact ih hl' hreads' hind.succ hb'
      · have hb' : ∀ p ∈ l, m - 2048 < p.1 ∧ p.1 < m + 2048 :=
          fun p hp => hb p (List.mem_cons_of_mem q hp)
        rw [if_neg (fun h => hqm (heq.mp h).symm), if_neg hqm, ← hrest (le_refl m)]
        exact ih hl' hreads' hind hb'

/-! ### Refinement -/

/-- A control block and the reorder buffer it implements. -/
structure Implements (c : ReordCtrl α) (s : Option (Window 64 (RecvMsdu α))) : Prop where
  wsize : c.wsizeB = 64
  list : c.reordList = (Window.contents s).map Prod.snd
  numbers : ReadsAll (Window.contents s)
  /-- Before the first frame. -/
  first : s = none → c.indSn = 0xffff
  indSn : ∀ W, s = some W → Reads c.indSn W.next

/-- An idle block implements the buffer that has seen no frame. -/
theorem implements_init : Implements (ReordCtrl.init : ReordCtrl α) none where
  wsize := rfl
  list := rfl
  numbers := fun _ hp => nomatch hp
  first := fun _ => rfl
  indSn := fun _ h => nomatch h

/-- The number of a frame, and the window it comes to. -/
theorem number_bounds (s : Option (Window 64 (RecvMsdu α))) (a : ℤ) :
    (Window.opened s (Window.number 2048 s a)).next - 2048 ≤ Window.number 2048 s a ∧
      Window.number 2048 s a < (Window.opened s (Window.number 2048 s a)).next + 2048 := by
  cases s with
  | none =>
    change a - 2048 ≤ a ∧ a < a + 2048
    omega
  | some W => exact Serial.unwrap_bounds (by decide) W.next a

/-- The integer a frame is given is one its 12 bits stand for. -/
theorem reads_number (s : Option (Window 64 (RecvMsdu α))) (x : SeqNum) :
    Reads x.val (Window.number 2048 s x.val.toNat) := by
  cases s with
  | none =>
    have hlt := x.lt
    change ((x.val.toNat : ℤ)) = (x.val.toNat : ℤ) % 4096
    omega
  | some W => exact reads_seqNum x W.next

/-- Opening the window holds nothing new. -/
theorem contents_opened (s : Option (Window 64 (RecvMsdu α))) (n : ℤ) :
    (Window.opened s n).held = Window.contents s := by
  cases s <;> rfl

/-- Where `reord_need_check` leaves `ind_sn`. -/
def checked (W : Window 64 (RecvMsdu α)) (n : ℤ) : ℤ :=
  if n < W.next then W.next else if n = W.next then n + 1 else W.reach n

/-- `reord_need_check` finds the late frames, and moves `ind_sn` past an expected frame and up to
the window of one that is ahead of it. -/
theorem needCheck_reads {c : ReordCtrl α} {s : Option (Window 64 (RecvMsdu α))}
    {W : Window 64 (RecvMsdu α)} {n : ℤ} (hR : Implements c s) (x : SeqNum)
    (hn : n = Window.number 2048 s x.val.toNat) (hW : W = Window.opened s n) :
    ∃ i, reordNeedCheck c x.val = (decide (n < W.next), { c with indSn := i }) ∧
      Reads i (checked W n) := by
  have hx : Reads x.val n := hn ▸ reads_number s x
  have hbounds := number_bounds s x.val.toNat
  rw [← hn, ← hW] at hbounds
  -- the first frame opens the window
  have hfirst : ∃ i, Reads i W.next ∧
      (if c.indSn = 0xffff then { c with indSn := x.val } else c) = { c with indSn := i } ∧
      (n ≠ W.next → i = c.indSn) := by
    cases s with
    | none =>
      subst hW
      exact ⟨x.val, hx, if_pos (hR.first rfl), fun h => absurd rfl h⟩
    | some V =>
      subst hW
      have hV := hR.indSn W rfl
      refine ⟨c.indSn, hV, if_neg fun h => ?_, fun _ => rfl⟩
      rw [h, Reads] at hV
      change (65535 : ℤ) = _ at hV
      omega
  obtain ⟨i, hi, heq, hkeep⟩ := hfirst
  have hless := hx.lt_iff hi (by omega) (by omega)
  have heqn := hx.eq_iff hi (by omega) (by omega)
  simp only [reordNeedCheck, heq, checked]
  by_cases hlt : n < W.next
  · exact ⟨i, by rw [if_pos (hless.mpr hlt), decide_eq_true hlt], by rwa [if_pos hlt]⟩
  · rw [if_neg (mt hless.mp hlt), decide_eq_false hlt, if_neg hlt]
    -- the frame that is expected
    by_cases hn : n = W.next
    · refine ⟨(i + 1) &&& 0xfff, by rw [if_pos (heqn.mpr hn)], ?_⟩
      rw [if_pos hn, hn]
      exact hi.succ
    · -- a frame ahead: does it lie beyond the end of the window?
      have hwsize : c.wsizeB.setWidth 16 = (64 : BitVec 16) := by
        rw [hR.wsize]
        rfl
      rw [if_neg (mt heqn.mp hn), if_neg hn, hwsize, ← hkeep hn]
      have hwend := hi.wend.lt_iff hx (by omega) (by omega)
      by_cases hfar : W.next + 63 < n
      · have hreach : W.reach n = n - 63 := by
          rw [Window.reach, max_eq_right (by omega)]
          omega
        have hstart := hx.wstart
        rw [if_pos (hwend.mpr hfar), hreach]
        split at hstart
        · next h => exact ⟨_, if_pos h, hstart⟩
        · next h => exact ⟨_, if_neg h, hstart⟩
      · have hreach : W.reach n = W.next := max_eq_left (by omega)
        exact ⟨i, by rw [if_neg (mt hwend.mp hfar)], by rwa [hreach]⟩

section Settle

variable {c : ReordCtrl α} {m : ℤ} {l : List (ℤ × RecvMsdu α)}

/-- The walk after an arrival starts at `ind_sn`. -/
theorem process_reads (hl : NumSorted l) (hreads : ReadsAll l)
    (hlist : c.reordList = l.map Prod.snd) (hind : Reads c.indSn m)
    (hb : ∀ p ∈ l, p.1 < m + 64 ∧ m - 1984 < p.1) :
    ∃ b i, reordRxframesProcess c false = (b, { c with indSn := i }) ∧ Reads i (advance m l) ∧
      (b = true ↔ ∃ p ∈ l, advance m l < p.1) := by
  cases l with
  | nil =>
    refine ⟨false, c.indSn, process_nil hlist false, hind, iff_of_false Bool.false_ne_true ?_⟩
    rintro ⟨p, hp, -⟩
    cases hp
  | cons q l =>
    obtain ⟨hi, hb⟩ := processLoop_reads hl hreads hind fun p hp => by
      have := hb p hp
      omega
    exact ⟨_, _, process_cons hlist false, hi, hb⟩

/-- The walk of a timeout starts at the first number of the list. -/
theorem process_forced_reads {q : ℤ × RecvMsdu α} (hl : NumSorted (q :: l))
    (hreads : ReadsAll (q :: l)) (hlist : c.reordList = (q :: l).map Prod.snd)
    (hb : ∀ p ∈ q :: l, p.1 < q.1 + 64) :
    ∃ b i, reordRxframesProcess c true = (b, { c with indSn := i }) ∧
      Reads i (advance q.1 (q :: l)) ∧ (b = true ↔ ∃ p ∈ q :: l, advance q.1 (q :: l) < p.1) := by
  obtain ⟨hi, hb⟩ := processLoop_reads hl hreads (hreads q List.mem_cons_self) fun p hp => by
    have hlt := hb p hp
    rcases List.mem_cons.mp hp with rfl | hp
    · omega
    · have := (List.pairwise_cons.mp hl).1 p hp
      omega
  exact ⟨_, _, process_cons hlist true, hi, hb⟩

/-- What leaves the list lies below the end of the walk, and what stays lies beyond it. -/
theorem ind_reads (hl : NumSorted l) (hreads : ReadsAll l) (hlist : c.reordList = l.map Prod.snd)
    (hind : Reads c.indSn (advance m l)) (hb : ∀ p ∈ l, p.1 < m + 64 ∧ m - 1984 < p.1) :
    reordRxframesInd c = ((l.filter fun p => p.1 < advance m l).map Prod.snd,
      { c with reordList := (l.filter fun p => advance m l < p.1).map Prod.snd }) := by
  have hle := advance_le (show m ≤ m + 64 by omega) fun p hp => (hb p hp).1
  have hge := le_advance m l
  have hcut : ∀ p ∈ l, decide (¬SN_LESS c.indSn p.2.seqNum.val) =
      decide (p.1 < advance m l) := by
    intro p hp
    have hp' := hb p hp
    have hne := advance_ne hl m p hp
    rw [decide_eq_decide, hind.lt_iff (hreads p hp) (by omega) (by omega)]
    omega
  obtain ⟨htake, hdrop⟩ := hl.span_eq (advance_ne hl m)
    (P := fun f => decide (¬SN_LESS c.indSn f.seqNum.val)) hcut
  rw [reordRxframesInd, hlist, htake, hdrop]

end Settle

/-- The numbers in the list after an arrival is placed. -/
theorem placed_bounds {W : Window 64 (RecvMsdu α)} {n : ℤ} {f : RecvMsdu α} (hn : W.next ≤ n)
    (hhi : n < W.next + 2048) :
    ∀ p ∈ Window.place (n, f) W.held, p.1 < checked W n + 64 ∧ checked W n - 1984 < p.1 := by
  intro p hp
  rw [checked, if_neg (not_lt.mpr hn), Window.reach]
  rcases Window.mem_place.mp hp with rfl | hp
  · split <;> omega
  · have := W.ahead p hp
    split <;> omega

/-- The walk from where `reord_need_check` leaves `ind_sn` ends where the buffer's does. -/
theorem advance_checked {W : Window 64 (RecvMsdu α)} {n : ℤ} {f : RecvMsdu α} (hn : W.next ≤ n)
    (hnew : ∀ p ∈ W.held, p.1 ≠ n) :
    advance (checked W n) (Window.place (n, f) W.held) =
      advance (W.reach n) (Window.place (n, f) W.held) := by
  rw [checked, if_neg (not_lt.mpr hn)]
  split
  · next heq =>
    have hreach : W.reach n = n := by
      rw [Window.reach]
      omega
    rw [hreach]
    refine advance_succ (Window.numSorted_place W.sorted hnew) (fun p hp => ?_)
      ⟨(n, f), Window.mem_place.mpr (Or.inl rfl), rfl⟩
    rcases Window.mem_place.mp hp with rfl | hp
    · exact le_refl n
    · have := W.ahead p hp
      omega
  · rfl

/-- What the abstract buffer sees of a step. -/
def ReordOp.call : ReordOp α → Window.Op (RecvMsdu α)
  | .frame f => .receive f.seqNum.val.toNat f
  | .timeout => .skip

/-- A step leaves the timer running exactly when it leaves frames, or it leaves both as they are. -/
def Arms (c c' : ReordCtrl α) : Prop :=
  (c'.reordTimer = true ↔ c'.reordList ≠ []) ∨
    (c'.reordTimer = c.reordTimer ∧ c'.reordList = c.reordList)

/-- Frames stay exactly when one has a number beyond the bound. -/
theorem filter_ne_nil_iff {l : List (ℤ × RecvMsdu α)} {k : ℤ} :
    (l.filter fun p => k < p.1).map Prod.snd ≠ [] ↔ ∃ p ∈ l, k < p.1 := by
  rw [ne_eq, List.map_eq_nil_iff, List.filter_eq_nil_iff]
  simp only [decide_eq_true_eq, not_forall, not_not, exists_prop]

/-- A frame. -/
theorem reordUnit_refines {c : ReordCtrl α} {s : Option (Window 64 (RecvMsdu α))}
    {W : Window 64 (RecvMsdu α)} {n : ℤ} {f : RecvMsdu α} (hR : Implements c s)
    (hn : n = Window.number 2048 s f.seqNum.val.toNat) (hW : W = Window.opened s n) :
    (W.receive (n, f)).1.map (Output.map Prod.snd) = (reordUnit c f).1 ∧
      Implements (reordUnit c f).2 (some (W.receive (n, f)).2) ∧ Arms c (reordUnit c f).2 := by
  obtain ⟨i, hcheck, hi⟩ := needCheck_reads hR f.seqNum hn hW
  have hf : Reads f.seqNum.val n := hn ▸ reads_number s f.seqNum
  have hbounds := number_bounds s f.seqNum.val.toNat
  rw [← hn, ← hW] at hbounds
  have hheld : W.held = Window.contents s := hW ▸ contents_opened s n
  have hlist : c.reordList = W.held.map Prod.snd := by rw [hheld, hR.list]
  have hreads : ReadsAll W.held := by
    rw [hheld]
    exact hR.numbers
  by_cases hlt : n < W.next
  · -- late: handed on at once, out of order
    rw [decide_eq_true hlt] at hcheck
    rw [checked, if_pos hlt] at hi
    rw [reordUnit_late hcheck, Window.receive, if_pos hlt]
    refine ⟨rfl, ⟨hR.wsize, hlist, hreads, fun h => absurd h (Option.some_ne_none _), ?_⟩,
      Or.inr ⟨rfl, rfl⟩⟩
    rintro _ ⟨⟩
    exact hi
  · -- the frame belongs into the list
    have hge : W.next ≤ n := not_lt.mp hlt
    rw [decide_eq_false hlt] at hcheck
    have henq := enqueue_reads W.sorted hreads hf fun p hp => by
      have := W.ahead p hp
      omega
    rw [← hlist] at henq
    rw [Window.receive, if_neg hlt]
    by_cases hnew : ∀ p ∈ W.held, p.1 ≠ n
    · rw [if_pos hnew] at henq
      -- placed: the walk runs over the new list, and what it passes leaves
      have hsorted : NumSorted (Window.place (n, f) W.held) := Window.numSorted_place W.sorted hnew
      have hall : ReadsAll (Window.place (n, f) W.held) := by
        intro p hp
        rcases Window.mem_place.mp hp with rfl | hp
        · exact hf
        · exact hreads p hp
      have hb := placed_bounds (f := f) hge hbounds.2
      have hadv := advance_checked (f := f) hge hnew
      obtain ⟨b, j, hp, hj, hahead⟩ := process_reads (c := { c with
        indSn := i, reordList := (Window.place (n, f) W.held).map Prod.snd }) hsorted hall rfl hi hb
      rw [reordUnit_placed hcheck henq hp, dif_pos hnew,
        ind_reads (m := checked W n) hsorted hall rfl hj hb, hadv]
      rw [hadv] at hj hahead
      refine ⟨?_, ⟨hR.wsize, rfl, ?_, fun h => absurd h (Option.some_ne_none _), ?_⟩,
        Or.inl (hahead.trans filter_ne_nil_iff.symm)⟩
      · rw [Window.settle, List.map_map, List.map_map]
        rfl
      · exact fun p hp => hall p (List.mem_filter.mp hp).1
      · rintro _ ⟨⟩
        exact hj
    · -- a duplicate is freed, and nothing else happens
      rw [if_neg hnew] at henq
      rw [reordUnit_duplicate hcheck henq, dif_neg hnew]
      -- a number that is held lies in the window, so `ind_sn` has not moved
      have hsame : checked W n = W.next := by
        simp only [not_forall, not_not] at hnew
        obtain ⟨p, hp, hpn⟩ := hnew
        have := W.ahead p hp
        rw [checked, Window.reach, if_neg hlt, if_neg (by omega), max_eq_left (by omega)]
      refine ⟨rfl, ⟨hR.wsize, hlist, hreads, fun h => absurd h (Option.some_ne_none _), ?_⟩,
        Or.inr ⟨rfl, rfl⟩⟩
      rintro _ ⟨⟩
      rwa [hsame] at hi

/-- The worker of the timer. -/
theorem reordTimeoutWorker_refines {c : ReordCtrl α} {s : Option (Window 64 (RecvMsdu α))}
    (hR : Implements c s) :
    ∃ o t, (Window.machine 2048 64 (RecvMsdu α)).step s .skip = some (o, t) ∧
      o.map (Output.map Prod.snd) = (reordTimeoutWorker c).1 ∧
      Implements (reordTimeoutWorker c).2 t ∧
      ((reordTimeoutWorker c).2.reordList ≠ [] → (reordTimeoutWorker c).2.reordTimer = true) := by
  have hlist := hR.list
  cases s with
  | none =>
    -- no frame has come yet, so the list is empty
    rw [reordTimeoutWorker_nil hlist]
    exact ⟨[], none, rfl, rfl, hR, fun h => absurd hlist h⟩
  | some W =>
    refine ⟨W.skip.1, some W.skip.2, rfl, ?_⟩
    have hsorted := W.sorted
    have hahead := W.ahead
    have hreads := hR.numbers
    change c.reordList = W.held.map Prod.snd at hlist
    change ReadsAll W.held at hreads
    cases hheld : W.held with
    | nil =>
      -- nothing is held, and the worker returns at once
      have hskip : W.skip = ([], W) := by
        rw [Window.skip]
        split
        · rfl
        · next heq =>
          rw [hheld] at heq
          cases heq
      rw [hheld] at hlist
      rw [reordTimeoutWorker_nil hlist, hskip]
      exact ⟨rfl, hR, fun h => absurd hlist h⟩
    | cons q l =>
      -- the walk is forced to start at the first number held
      have hbelow : ∀ p ∈ W.held, p.1 < q.1 + 64 := by
        intro p hp
        have hp' := hahead p hp
        have hq := hahead q (by rw [hheld]; exact List.mem_cons_self)
        omega
      have hskip : W.skip = Window.settle q.1 W.held W.sorted hbelow := by
        rw [Window.skip]
        split
        · next heq =>
          rw [hheld] at heq
          cases heq
        · next heq =>
          rw [hheld] at heq
          obtain ⟨rfl, rfl⟩ := List.cons.inj heq
          rfl
      have hb : ∀ p ∈ W.held, p.1 < q.1 + 64 ∧ q.1 - 1984 < p.1 := by
        intro p hp
        have hp' := hahead p hp
        have hq := hahead q (by rw [hheld]; exact List.mem_cons_self)
        exact ⟨hbelow p hp, by omega⟩
      obtain ⟨b, i, hp, hi, hleft⟩ := process_forced_reads (c := c) (q := q) (l := l)
        (hheld ▸ hsorted) (hheld ▸ hreads) (hheld ▸ hlist) (hheld ▸ hbelow)
      rw [← hheld] at hi hleft
      rw [reordTimeoutWorker_cons hp, hskip]
      simp only
      rw [ind_reads (c := { c with indSn := i, reordTimer := b || c.reordTimer }) (m := q.1)
        hsorted hreads hlist hi hb]
      refine ⟨?_, ⟨hR.wsize, rfl, ?_, fun h => absurd h (Option.some_ne_none _), ?_⟩,
        fun hne => ?_⟩
      · rw [Window.settle, List.map_map, List.map_map]
        rfl
      · exact fun p hp => hreads p (List.mem_filter.mp hp).1
      · rintro _ ⟨⟩
        exact hi
      · -- frames are left, and the worker arms the timer for them
        rw [hleft.mpr (filter_ne_nil_iff.mp hne), Bool.true_or]

/-- One call of the driver is one call of the buffer, with the same frames out. -/
theorem reordMachine_step {c c' : ReordCtrl α} {s : Option (Window 64 (RecvMsdu α))}
    {op : ReordOp α} {o : List (Output (RecvMsdu α))} (hR : Implements c s)
    (hstep : (reordMachine α).step c op = some (o, c')) :
    ∃ o' t, (Window.machine 2048 64 (RecvMsdu α)).step s op.call = some (o', t) ∧
      o'.map (Output.map Prod.snd) = o ∧ Implements c' t := by
  cases op with
  | frame f =>
    obtain ⟨rfl, rfl⟩ := Prod.mk.inj (Option.some.inj hstep)
    obtain ⟨hout, hR', -⟩ := reordUnit_refines (f := f) hR rfl rfl
    exact ⟨_, _, rfl, hout, hR'⟩
  | timeout =>
    obtain ⟨rfl, rfl⟩ := Prod.mk.inj (Option.some.inj hstep)
    obtain ⟨o, t, hstep, hout, hR', -⟩ := reordTimeoutWorker_refines hR
    exact ⟨o, t, hstep, hout, hR'⟩

/-- The control block accepts every call. -/
theorem reordMachine_total (c : ReordCtrl α) (ops : List (ReordOp α)) :
    ∃ outs c', (reordMachine α).trace c ops = some (outs, c') := by
  induction ops generalizing c with
  | nil => exact ⟨[], c, rfl⟩
  | cons op ops ih =>
    cases op with
    | frame f =>
      obtain ⟨outs, c', h⟩ := ih (reordUnit c f).2
      exact ⟨_, c', Machine.trace_cons_of rfl h⟩
    | timeout =>
      obtain ⟨outs, c', h⟩ := ih (reordTimeoutWorker c).2
      exact ⟨_, c', Machine.trace_cons_of rfl h⟩

/-- A control block does what the reorder buffer of 64 places does with the integers nearest to the
numbers of the frames, over any run of frames and timeouts. -/
theorem reordMachine_refines {c : ReordCtrl α} {ops : List (ReordOp α)}
    {outs : List (Output (RecvMsdu α))}
    (hrun : (reordMachine α).trace ReordCtrl.init ops = some (outs, c)) :
    ∃ outs' s, (Window.machine 2048 64 (RecvMsdu α)).trace none (ops.map ReordOp.call) =
        some (outs', s) ∧ outs'.map (Output.map Prod.snd) = outs ∧ Implements c s :=
  Machine.trace_sim (fun _ _ _ _ _ => reordMachine_step) implements_init hrun

/-! ### Order and completeness -/

/-- **Order.** However frames arrive and whenever the timeouts come: with the numbers that the
reorder buffer of 64 places reads, every frame that is handed on before a frame leaves the list has
a smaller number than that one. -/
theorem rx_released_in_order (ops : List (ReordOp α)) :
    ∃ outs c outs' s, (reordMachine α).trace ReordCtrl.init ops = some (outs, c) ∧
      (Window.machine 2048 64 (RecvMsdu α)).trace none (ops.map ReordOp.call) = some (outs', s) ∧
      outs'.map (Output.map Prod.snd) = outs ∧ c.reordList = (Window.contents s).map Prod.snd ∧
      Window.Ordered outs' := by
  obtain ⟨outs, c, hrun⟩ := reordMachine_total ReordCtrl.init ops
  obtain ⟨outs', s, habs, hmap, hR⟩ := reordMachine_refines hrun
  exact ⟨outs, c, outs', s, hrun, habs, hmap, hR.list, Window.machine_ordered habs⟩

/-- Frames alone keep the timer running exactly while frames are held. -/
theorem timer_of_frames {c : ReordCtrl α} {l : List (RecvMsdu α)}
    {outs : List (Output (RecvMsdu α))}
    (hrun : (reordMachine α).trace ReordCtrl.init (l.map .frame) = some (outs, c)) :
    c.reordTimer = true ↔ c.reordList ≠ [] := by
  -- by induction on the frames, for any state of the block in which it holds
  suffices H : ∀ (c₀ : ReordCtrl α) (s : Option (Window 64 (RecvMsdu α))) (outs), Implements c₀ s →
      (c₀.reordTimer = true ↔ c₀.reordList ≠ []) →
      (reordMachine α).trace c₀ (l.map .frame) = some (outs, c) →
      (c.reordTimer = true ↔ c.reordList ≠ []) from
    H _ none _ implements_init (iff_of_false Bool.false_ne_true fun h => h rfl) hrun
  clear hrun
  induction l with
  | nil =>
    intro c₀ s outs _ htimer hrun
    obtain ⟨-, rfl⟩ := Prod.mk.inj (Option.some.inj hrun)
    exact htimer
  | cons f l ih =>
    intro c₀ s outs hR htimer hrun
    obtain ⟨o, u, rest, hstep, hrest, -⟩ := Machine.trace_cons_some hrun
    obtain ⟨rfl, rfl⟩ := Prod.mk.inj (Option.some.inj hstep)
    obtain ⟨-, hR', harm⟩ := reordUnit_refines (f := f) hR rfl rfl
    refine ih _ _ rest hR' ?_ hrest
    obtain harm | ⟨htimer', hlist'⟩ := harm
    · exact harm
    · rw [htimer', hlist']
      exact htimer

/-- **Completeness.** Frames with consecutive numbers of which none overtakes another by 64 places
are released completely and in order, however often the 12 bits wrap; at the end no frame is held
and no timer runs. -/
theorem rx_burst_complete {n₀ : ℤ} {xs : List (ℤ × RecvMsdu α)} (hB : Window.Burst 64 n₀ xs)
    (h₀ : 0 ≤ n₀) (h₁ : n₀ < 4096) (hreads : ReadsAll xs) :
    ∃ ys c, (reordMachine α).trace ReordCtrl.init (xs.map fun x => .frame x.2) =
        some (ys.map fun y => .inOrder y.2, c) ∧
      NumSorted ys ∧ ys.Perm xs ∧ c.reordList = [] ∧ c.reordTimer = false := by
  obtain ⟨ys, t, habs, hsorted, hperm, hnil⟩ :=
    Window.machine_complete (h := 2048) (by decide) (by decide) hB h₀ h₁
  obtain ⟨outs, c, hrun⟩ := reordMachine_total ReordCtrl.init (xs.map fun x => .frame x.2)
  obtain ⟨outs', s, habs', rfl, hR⟩ := reordMachine_refines hrun
  -- both machines see the same calls
  have hcalls : (xs.map fun x => ReordOp.frame x.2).map ReordOp.call =
      xs.map (Window.Op.wire 2048) := by
    rw [List.map_map]
    refine List.map_congr_left fun x hx => ?_
    change Window.Op.receive _ _ = Window.Op.receive _ _
    rw [hreads x hx]
    rfl
  rw [hcalls, habs] at habs'
  obtain ⟨rfl, rfl⟩ := Prod.mk.inj (Option.some.inj habs')
  have hlist : c.reordList = [] := by rw [hR.list, hnil, List.map_nil]
  refine ⟨ys, c, ?_, hsorted, hperm, hlist, ?_⟩
  · rw [hrun, List.map_map]
    rfl
  · have htimer := timer_of_frames (l := xs.map Prod.snd) (by rw [List.map_map]; exact hrun)
    rw [hlist] at htimer
    exact Bool.eq_false_iff.mpr fun h => htimer.mp h rfl

/-- A frame with an integer as its number. -/
def frameOf (n : ℕ) : ℤ × RecvMsdu Unit :=
  (n,
    { id := n
      pkt := ()
      seqNum := ⟨BitVec.ofNat 16 (n % 4096), by rw [BitVec.toNat_ofNat]; omega⟩
      forward := true })

theorem readsAll_frameOf (l : List ℕ) : ReadsAll (l.map frameOf) := by
  intro p hp
  obtain ⟨n, -, rfl⟩ := List.mem_map.mp hp
  change (((BitVec.ofNat 16 (n % 4096)).toNat : ℕ) : ℤ) = (n : ℤ) % 4096
  rw [BitVec.toNat_ofNat]
  omega

/-- Four frames around the wrap, one of them early. -/
theorem rx_burst_complete_wrap :
    ∃ ys c, (reordMachine Unit).trace ReordCtrl.init
        (([4095, 4098, 4096, 4097].map frameOf).map fun x => .frame x.2) =
        some (ys.map fun y => .inOrder y.2, c) ∧
      NumSorted ys ∧ ys.Perm ([4095, 4098, 4096, 4097].map frameOf) ∧ c.reordList = [] ∧
      c.reordTimer = false := by
  have hburst : Window.Burst 64 4095 ([4095, 4098, 4096, 4097].map frameOf) := by
    refine ⟨by decide, fun m => ?_, by decide, fun x hx => ?_⟩
    · simp only [List.map_cons, List.map_nil, frameOf, List.mem_cons, List.not_mem_nil, or_false,
        List.length_cons, List.length_nil]
      omega
    · cases hx
      rfl
  exact rx_burst_complete hburst (by decide) (by decide) (readsAll_frameOf _)

end LonganPi.Wifi
