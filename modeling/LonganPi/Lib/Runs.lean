import Mathlib.Data.List.Basic
import Mathlib.Data.Nat.Basic
import Mathlib.Order.Basic

/-!
# Runs of a sequence

A sequence of optional values is cut into runs. A value opens a run, and the values behind it go to
the same run as long as each of them joins the value that opened it; a value that does not join
opens the next run, and a gap closes the run. `scan` reads the sequence from left to right with one
run open at a time, as a program that prints runs does, and `runs` closes the last one.

The relation `joins` is not assumed to be an equivalence. What a run says of its values is only
that they join its first one, and what is not in a run did not join.
-/

namespace DriverLib

/-- A run of a sequence: where it starts, how long it is and the value that opened it. -/
structure Run (α : Type*) where
  start : ℕ
  length : ℕ
  first : α

namespace Run

variable {α : Type*}

/-- The position behind the run. -/
def stop (r : Run α) : ℕ := r.start + r.length

/-- The run has the position `k`. -/
def Covers (r : Run α) (k : ℕ) : Prop := r.start ≤ k ∧ k < r.stop

end Run

/-- The runs that are closed, and the one that is open. -/
structure Scan (α : Type*) where
  done : List (Run α)
  cur : Option (Run α)

section Runs

variable {α : Type*}

/-- All runs so far. -/
def Scan.flush (c : Scan α) : List (Run α) := c.done ++ c.cur.toList

variable (joins : α → α → Prop) [DecidableRel joins]

/-- The value at position `n` is read. -/
def Scan.step (c : Scan α) (n : ℕ) : Option α → Scan α
  | none => ⟨c.flush, none⟩
  | some a => match c.cur with
    | none => ⟨c.done, some ⟨n, 1, a⟩⟩
    | some r =>
      if joins r.first a then ⟨c.done, some { r with length := r.length + 1 }⟩
      else ⟨c.flush, some ⟨n, 1, a⟩⟩

/-- The first `n` values are read. -/
def scan (f : ℕ → Option α) : ℕ → Scan α
  | 0 => ⟨[], none⟩
  | n + 1 => (scan f n).step joins n (f n)

/-- The runs of the first `n` values. -/
def runs (f : ℕ → Option α) (n : ℕ) : List (Run α) := (scan joins f n).flush

variable {joins} {f : ℕ → Option α}

theorem scan_succ (n : ℕ) : scan joins f (n + 1) = (scan joins f n).step joins n (f n) := rfl

/-- A gap closes the run that is open and opens none. -/
theorem scan_gap {n : ℕ} (k : ℕ) (hgap : ∀ i, n ≤ i → i ≤ n + k → f i = none) :
    scan joins f (n + k + 1) = ⟨runs joins f n, none⟩ := by
  induction k with
  | zero =>
    rw [Nat.add_zero, scan_succ, hgap n le_rfl (Nat.le_add_right n 0)]
    rfl
  | succ k ih =>
    rw [← Nat.add_assoc, scan_succ, hgap (n + k + 1) (by omega) le_rfl,
      ih fun i hlo hhi => hgap i hlo (by omega)]
    show Scan.mk (runs joins f n ++ []) none = _
    rw [List.append_nil]

end Runs

/-! ### What the runs say -/

section Scanned

variable {α : Type*} {joins : α → α → Prop} {f : ℕ → Option α}

/-- A run of the sequence: its first value is where it starts, and the others join it. -/
structure Run.In (joins : α → α → Prop) (f : ℕ → Option α) (r : Run α) : Prop where
  pos : 0 < r.length
  first : f r.start = some r.first
  joined : ∀ k, r.start < k → k < r.stop → ∃ a, f k = some a ∧ joins r.first a

/-- What holds when `n` values have been read. -/
structure Scanned (joins : α → α → Prop) (f : ℕ → Option α) (n : ℕ) (c : Scan α) : Prop where
  runs : ∀ r ∈ c.flush, r.In joins f
  -- one run after the other
  sorted : c.flush.Pairwise fun r r' => r.stop ≤ r'.start
  covered : ∀ k < n, f k ≠ none → ∃ r ∈ c.flush, r.Covers k
  -- the open run reaches up to here
  cur : ∀ r, c.cur = some r → r.stop = n
  -- a closed run ended where it had to
  done : ∀ r ∈ c.done, r.stop < n ∧ ∀ a, f r.stop = some a → ¬ joins r.first a

theorem Scan.mem_flush {c : Scan α} {r : Run α} : r ∈ c.flush ↔ r ∈ c.done ∨ c.cur = some r := by
  rw [Scan.flush, List.mem_append, Option.mem_toList]

theorem Scan.flush_none (l : List (Run α)) : (Scan.mk l none).flush = l := List.append_nil l

theorem Scan.flush_some (l : List (Run α)) (r : Run α) :
    (Scan.mk l (some r)).flush = l ++ [r] := rfl

/-- A value that the run has. -/
theorem Run.In.value {r : Run α} (h : r.In joins f) {k : ℕ} (hk : r.Covers k) :
    ∃ a, f k = some a ∧ (a = r.first ∨ joins r.first a) := by
  rcases Nat.lt_or_eq_of_le hk.1 with hlt | heq
  · obtain ⟨a, ha, hjoin⟩ := h.joined k hlt hk.2
    exact ⟨a, ha, Or.inr hjoin⟩
  · exact ⟨r.first, heq ▸ h.first, Or.inl rfl⟩

namespace Scanned

variable {n : ℕ} {c : Scan α}

/-- Every run ends before what is still to be read. -/
theorem stop_le (h : Scanned joins f n c) {r : Run α} (hr : r ∈ c.flush) : r.stop ≤ n := by
  rcases Scan.mem_flush.mp hr with hdone | hcur
  · exact (h.done r hdone).1.le
  · exact (h.cur r hcur).le

/-- The open run is closed by what comes next. -/
theorem close (h : Scanned joins f n c) (hend : ∀ r a, c.cur = some r → f n = some a →
    ¬ joins r.first a) {r : Run α} (hr : r ∈ c.flush) :
    r.stop < n + 1 ∧ ∀ a, f r.stop = some a → ¬ joins r.first a := by
  rcases Scan.mem_flush.mp hr with hdone | hcur
  · exact ⟨Nat.lt_succ_of_lt (h.done r hdone).1, (h.done r hdone).2⟩
  · have hstop := h.cur r hcur
    refine ⟨Nat.lt_succ_of_le hstop.le, fun a ha => ?_⟩
    rw [hstop] at ha
    exact hend r a hcur ha

/-- A run of one value goes behind the others. -/
theorem open_run (h : Scanned joins f n c) {a : α} (ha : f n = some a)
    (hend : ∀ r a, c.cur = some r → f n = some a → ¬ joins r.first a) :
    Scanned joins f (n + 1) ⟨c.flush, some ⟨n, 1, a⟩⟩ where
  runs r hr := by
    rw [Scan.flush_some, List.mem_append, List.mem_singleton] at hr
    rcases hr with hr | rfl
    · exact h.runs r hr
    · exact ⟨Nat.one_pos, ha, fun k hlo hhi => absurd hhi (Nat.not_lt.mpr hlo)⟩
  sorted := by
    rw [Scan.flush_some, List.pairwise_append]
    refine ⟨h.sorted, List.pairwise_singleton _ _, fun r hr r' hr' => ?_⟩
    rw [List.mem_singleton] at hr'
    subst hr'
    exact h.stop_le hr
  covered k hk hne := by
    rw [Scan.flush_some]
    rcases Nat.lt_succ_iff_lt_or_eq.mp hk with hlt | rfl
    · obtain ⟨r, hr, hcov⟩ := h.covered k hlt hne
      exact ⟨r, List.mem_append_left _ hr, hcov⟩
    · exact ⟨_, List.mem_append_right _ (List.mem_singleton_self _), le_rfl, Nat.lt_succ_self _⟩
  cur r hr := by
    obtain rfl := Option.some.inj hr
    rfl
  done r hr := h.close hend hr

/-- A gap closes the open run. -/
theorem gap (h : Scanned joins f n c) (hnone : f n = none) :
    Scanned joins f (n + 1) ⟨c.flush, none⟩ where
  runs r hr := h.runs r (Scan.flush_none c.flush ▸ hr)
  sorted := (Scan.flush_none c.flush).symm ▸ h.sorted
  covered k hk hne := by
    rw [Scan.flush_none]
    rcases Nat.lt_succ_iff_lt_or_eq.mp hk with hlt | rfl
    · exact h.covered k hlt hne
    · exact absurd hnone hne
  cur r hr := nomatch hr
  done r hr := by
    refine h.close (fun r a _ ha => ?_) hr
    rw [hnone] at ha
    cases ha

/-- The open run grows by a value that joins it. -/
theorem grow {l : List (Run α)} {r : Run α} (h : Scanned joins f n ⟨l, some r⟩) {a : α}
    (ha : f n = some a) (hjoin : joins r.first a) :
    Scanned joins f (n + 1) ⟨l, some { r with length := r.length + 1 }⟩ := by
  have hmem : r ∈ (Scan.mk l (some r)).flush := Scan.mem_flush.mpr (Or.inr rfl)
  have hr := h.runs r hmem
  have hstop : r.stop = n := h.cur r rfl
  have hsorted := h.sorted
  rw [Scan.flush_some, List.pairwise_append] at hsorted
  have hgrown : (Run.mk r.start (r.length + 1) r.first).stop = n + 1 := by
    rw [← hstop]
    rfl
  constructor
  · intro q hq
    rcases Scan.mem_flush.mp hq with hq | hq
    · exact h.runs q (Scan.mem_flush.mpr (Or.inl hq))
    · obtain rfl := Option.some.inj hq
      refine ⟨Nat.succ_pos _, hr.first, fun k hlo hhi => ?_⟩
      rw [hgrown] at hhi
      rcases Nat.lt_succ_iff_lt_or_eq.mp hhi with hlt | rfl
      · exact hr.joined k hlo (hstop ▸ hlt)
      · exact ⟨a, ha, hjoin⟩
  · rw [Scan.flush_some, List.pairwise_append]
    refine ⟨hsorted.1, List.pairwise_singleton _ _, fun q hq q' hq' => ?_⟩
    rw [List.mem_singleton] at hq'
    subst hq'
    exact hsorted.2.2 q hq r (List.mem_singleton_self r)
  · intro k hk hne
    rcases Nat.lt_succ_iff_lt_or_eq.mp hk with hlt | rfl
    · obtain ⟨q, hq, hcov⟩ := h.covered k hlt hne
      rcases Scan.mem_flush.mp hq with hq | hq
      · exact ⟨q, Scan.mem_flush.mpr (Or.inl hq), hcov⟩
      · obtain rfl := Option.some.inj hq
        refine ⟨_, Scan.mem_flush.mpr (Or.inr rfl), hcov.1, ?_⟩
        rw [hgrown]
        exact hk
    · refine ⟨_, Scan.mem_flush.mpr (Or.inr rfl), ?_, ?_⟩
      · rw [← hstop]
        exact Nat.le_add_right _ _
      · rw [hgrown]
        exact hk
  · intro q hq
    obtain rfl := Option.some.inj hq
    exact hgrown
  · intro q hq
    obtain ⟨hlt, hend⟩ := h.done q hq
    exact ⟨Nat.lt_succ_of_lt hlt, hend⟩

end Scanned

variable [DecidableRel joins]

theorem scanned (n : ℕ) : Scanned joins f n (scan joins f n) := by
  induction n with
  | zero =>
    exact ⟨nofun, List.Pairwise.nil, nofun, nofun, nofun⟩
  | succ n ih =>
    rw [scan_succ]
    cases hf : f n with
    | none => exact ih.gap hf
    | some a =>
      rcases hc : scan joins f n with ⟨l, cur⟩
      rw [hc] at ih
      cases cur with
      | none =>
        have hopen := ih.open_run hf nofun
        rw [Scan.flush_none] at hopen
        exact hopen
      | some r =>
        by_cases hjoin : joins r.first a
        · show Scanned joins f (n + 1) (if _ then _ else _)
          rw [if_pos hjoin]
          exact ih.grow hf hjoin
        · show Scanned joins f (n + 1) (if _ then _ else _)
          rw [if_neg hjoin]
          refine ih.open_run hf fun q b hq hb => ?_
          obtain rfl := Option.some.inj hq
          obtain rfl := Option.some.inj (hf.symm.trans hb)
          exact hjoin

/-! ### The rules -/

variable {n : ℕ} {r : Run α}

theorem runs_sorted : (runs joins f n).Pairwise fun r r' => r.stop ≤ r'.start := (scanned n).sorted

theorem run_in (hr : r ∈ runs joins f n) : r.In joins f := (scanned n).runs r hr

theorem stop_le_of_mem_runs (hr : r ∈ runs joins f n) : r.stop ≤ n := (scanned n).stop_le hr

/-- **The runs have exactly the values.** -/
theorem covered_runs_iff {k : ℕ} :
    (∃ r ∈ runs joins f n, r.Covers k) ↔ k < n ∧ f k ≠ none := by
  constructor
  · rintro ⟨r, hr, hcov⟩
    obtain ⟨a, ha, -⟩ := (run_in hr).value hcov
    exact ⟨hcov.2.trans_le (stop_le_of_mem_runs hr), ha ▸ Option.some_ne_none a⟩
  · rintro ⟨hk, hne⟩
    exact (scanned n).covered k hk hne

/-- **A run ends where it has to**: at a gap, at the end or at a value that does not join. -/
theorem not_joins_of_stop (hr : r ∈ runs joins f n) {a : α} (ha : f r.stop = some a)
    (hlt : r.stop < n) : ¬ joins r.first a := by
  rcases Scan.mem_flush.mp hr with hdone | hcur
  · exact ((scanned n).done r hdone).2 a ha
  · exact absurd ((scanned n).cur r hcur) hlt.ne

end Scanned

end DriverLib
