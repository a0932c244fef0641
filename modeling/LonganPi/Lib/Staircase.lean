import Mathlib.Data.List.Basic
import Mathlib.Order.Lattice

/-!
# Staircases

A list of points, each with a place and a level, both strictly increasing along the list
(`Climbs`). `reached` walks the list and keeps the level of the last point that is not above a
place; `raised` walks it and takes the maximum with the level of every point of a kind. Both are
folds; what they compute is said by the lower bounds they have: `level_le_reached_iff` and
`le_raised_iff`.
-/

namespace DriverLib

variable {P T L : Type*} [LinearOrder T] [LinearOrder L] {place : P → T} {level : P → L}

/-- The places and the levels of the points increase. -/
def Climbs (place : P → T) (level : P → L) (l : List P) : Prop :=
  l.Pairwise fun p q => place p < place q ∧ level p < level q

instance (l : List P) : Decidable (Climbs place level l) :=
  inferInstanceAs (Decidable (l.Pairwise _))

/-- The level of the last point at or below `t`, `ground` where there is none. -/
def reached (place : P → T) (level : P → L) (l : List P) (ground : L) (t : T) : L :=
  l.foldl (fun h p => if place p ≤ t then level p else h) ground

/-- The maximum of `h` and the levels of the points that satisfy `r`. -/
def raised (level : P → L) (r : P → Prop) [DecidablePred r] (l : List P) (h : L) : L :=
  l.foldl (fun h p => if r p then max h (level p) else h) h

theorem le_raised_iff {r : P → Prop} [DecidablePred r] {l : List P} {h x : L} :
    x ≤ raised level r l h ↔ x ≤ h ∨ ∃ p ∈ l, r p ∧ x ≤ level p := by
  induction l generalizing h with
  | nil => simp [raised]
  | cons a l ih =>
    have hstep : raised level r (a :: l) h
        = raised level r l (if r a then max h (level a) else h) := rfl
    rw [hstep, ih]
    by_cases ha : r a
    · simp [ha, or_assoc]
    · simp [ha]

theorem Climbs.tail {a : P} {l : List P} (h : Climbs place level (a :: l)) :
    Climbs place level l := (List.pairwise_cons.mp h).2

/-- A higher place has the higher level. -/
theorem Climbs.level_lt {l : List P} (hl : Climbs place level l) {p q : P} (hp : p ∈ l) (hq : q ∈ l)
    (h : place p < place q) : level p < level q := by
  induction l with
  | nil => simp at hp
  | cons a l ih =>
    have hmore := (List.pairwise_cons.mp hl).1
    rcases List.mem_cons.mp hp with rfl | hpl
    · rcases List.mem_cons.mp hq with rfl | hql
      · exact absurd h (lt_irrefl _)
      · exact (hmore q hql).2
    · rcases List.mem_cons.mp hq with rfl | hql
      · exact absurd h (hmore p hpl).1.not_gt
      · exact ih hl.tail hpl hql

omit [LinearOrder L] in
/-- Where no point is reached, `reached` is the ground. -/
theorem reached_eq_ground {l : List P} {ground : L} {t : T} (h : ∀ q ∈ l, t < place q) :
    reached place level l ground t = ground := by
  induction l with
  | nil => rfl
  | cons a l ih =>
    have ha : ¬ place a ≤ t := (h a List.mem_cons_self).not_ge
    have hstep : reached place level (a :: l) ground t
        = reached place level l (if place a ≤ t then level a else ground) t := rfl
    rw [hstep, if_neg ha]
    exact ih fun q hq => h q (List.mem_cons_of_mem a hq)

/-- Otherwise it is the highest level of the reached points. -/
theorem exists_reached_eq {l : List P} (hl : Climbs place level l) {ground : L} {t : T}
    (h : ∃ q ∈ l, place q ≤ t) :
    ∃ p ∈ l, place p ≤ t ∧ reached place level l ground t = level p ∧
      ∀ q ∈ l, place q ≤ t → level q ≤ level p := by
  induction l generalizing ground with
  | nil => simp at h
  | cons a l ih =>
    have hstep : reached place level (a :: l) ground t
        = reached place level l (if place a ≤ t then level a else ground) t := rfl
    rw [hstep]
    have hmore := (List.pairwise_cons.mp hl).1
    by_cases hlater : ∃ q ∈ l, place q ≤ t
    · obtain ⟨p, hp, hpt, heq, hmax⟩ := ih hl.tail hlater
      refine ⟨p, List.mem_cons_of_mem a hp, hpt, heq, fun q hq hqt => ?_⟩
      rcases List.mem_cons.mp hq with rfl | hq
      · exact (hmore p hp).2.le
      · exact hmax q hq hqt
    · push Not at hlater
      -- then `a` is the last reached point
      have ha : place a ≤ t := by
        obtain ⟨q, hq, hqt⟩ := h
        rcases List.mem_cons.mp hq with rfl | hq
        · exact hqt
        · exact absurd hqt (hlater q hq).not_ge
      rw [if_pos ha]
      refine ⟨a, List.mem_cons_self, ha, reached_eq_ground hlater, fun q hq hqt => ?_⟩
      rcases List.mem_cons.mp hq with rfl | hq
      · exact le_rfl
      · exact absurd hqt (hlater q hq).not_ge

/-- The level of a point is reached at its place, or below all points when it is no higher than the
ground. -/
theorem level_le_reached_iff {l : List P} (hl : Climbs place level l) {ground : L} {t : T} {p : P}
    (hp : p ∈ l) :
    level p ≤ reached place level l ground t ↔
      place p ≤ t ∨ level p ≤ ground ∧ ∀ q ∈ l, t < place q := by
  by_cases h : ∃ q ∈ l, place q ≤ t
  · obtain ⟨a, ha, hat, heq, hmax⟩ := exists_reached_eq hl h
    rw [heq]
    constructor
    · intro hle
      refine Or.inl (le_of_not_gt fun hlt => ?_)
      exact hle.not_gt (hl.level_lt ha hp (hat.trans_lt hlt))
    · rintro (hpt | ⟨-, hnone⟩)
      · exact hmax p hp hpt
      · exact absurd hat (hnone a ha).not_ge
  · push Not at h
    rw [reached_eq_ground h]
    constructor
    · exact fun hle => Or.inr ⟨hle, h⟩
    · rintro (hpt | ⟨hle, -⟩)
      · exact absurd hpt (h p hp).not_ge
      · exact hle

end DriverLib
