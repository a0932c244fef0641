import Mathlib.Data.List.Nodup
import Mathlib.Logic.Function.Basic

/-!
# Circular doubly linked lists

Lists whose links lie in the nodes. `Links` is the memory of all links, by the address of a node. A
list has a head, which is a node and no entry, and `IsList h l` says that the links lead from `h`
through the entries `l` back to `h`, forward and backward.

`Path` is the open form: the links from one node to another. A path is cut at any node on it
(`path_append`), and it is bent to another end by the links at its old end only (`Path.redirect`).
These two give the lemmas about `addTail` and `del`.
-/

namespace DriverLib

/-- The links of every node. -/
structure Links (α : Type*) where
  /-- The node behind. -/
  next : α → α
  /-- The node before. -/
  prev : α → α

namespace Links

variable {α : Type*}

/-- `y` is the node behind `x`, and `x` the node before `y`. -/
def Linked (M : Links α) (x y : α) : Prop := M.next x = y ∧ M.prev y = x

/-- The links lead from `x` through `l` to `y`. -/
def Path (M : Links α) : α → List α → α → Prop
  | x, [], y => M.Linked x y
  | x, a :: l, y => M.Linked x a ∧ Path M a l y

/-- The links lead from the head `h` through the entries `l` back to `h`. -/
structure IsList (M : Links α) (h : α) (l : List α) : Prop where
  path : M.Path h l h
  nodup : (h :: l).Nodup

/-! ### The operations -/

variable [DecidableEq α]

/-- A head without entries. -/
def init (M : Links α) (h : α) : Links α :=
  ⟨Function.update M.next h h, Function.update M.prev h h⟩

/-- The node `e` goes between `x` and `y`. -/
def insert (M : Links α) (e x y : α) : Links α where
  next := Function.update (Function.update M.next e y) x e
  prev := Function.update (Function.update M.prev y e) e x

/-- The node `e` goes before the head. -/
def addTail (M : Links α) (e h : α) : Links α := M.insert e (M.prev h) h

/-- What lies between `x` and `y` is left out. -/
def join (M : Links α) (x y : α) : Links α where
  next := Function.update M.next x y
  prev := Function.update M.prev y x

/-- The node `e` is left out, and its own links are overwritten. -/
def del (M : Links α) (e poison₁ poison₂ : α) : Links α :=
  let M := M.join (M.prev e) (M.next e)
  ⟨Function.update M.next e poison₁, Function.update M.prev e poison₂⟩

/-! ### Paths -/

variable {M M' : Links α} {x y e h : α} {l l₁ l₂ : List α}

omit [DecidableEq α] in
theorem path_append : M.Path x (l₁ ++ e :: l₂) y ↔ M.Path x l₁ e ∧ M.Path e l₂ y := by
  induction l₁ generalizing x with
  | nil => exact Iff.rfl
  | cons a l₁ ih =>
    show M.Linked x a ∧ M.Path a (l₁ ++ e :: l₂) y ↔ (M.Linked x a ∧ M.Path a l₁ e) ∧ _
    rw [ih, and_assoc]

omit [DecidableEq α] in
/-- The links that a path reads. -/
theorem Path.congr (hp : M.Path x l y) (hnext : ∀ p ∈ x :: l, M'.next p = M.next p)
    (hprev : ∀ p ∈ y :: l, M'.prev p = M.prev p) : M'.Path x l y := by
  induction l generalizing x with
  | nil =>
    exact ⟨(hnext x List.mem_cons_self).trans hp.1, (hprev y List.mem_cons_self).trans hp.2⟩
  | cons a l ih =>
    obtain ⟨⟨hxa, hax⟩, hrest⟩ := hp
    refine ⟨⟨(hnext x List.mem_cons_self).trans hxa, (hprev a ?_).trans hax⟩, ih hrest ?_ ?_⟩
    · exact List.mem_cons_of_mem _ List.mem_cons_self
    · exact fun p hp => hnext p (List.mem_cons_of_mem _ hp)
    · intro p hp
      apply hprev p
      rcases List.mem_cons.mp hp with rfl | hp
      · exact List.mem_cons_self
      · exact List.mem_cons_of_mem _ (List.mem_cons_of_mem _ hp)

omit [DecidableEq α] in
theorem Path.next_eq (hp : M.Path x l y) : M.next x = l.headD y := by
  cases l with
  | nil => exact hp.1
  | cons a l => exact hp.1.1

omit [DecidableEq α] in
theorem Path.prev_mem (hp : M.Path x l y) : M.prev y ∈ x :: l := by
  induction l generalizing x with
  | nil => exact hp.2 ▸ List.mem_cons_self
  | cons a l ih => exact List.mem_cons_of_mem _ (ih hp.2)

omit [DecidableEq α] in
/-- **A path is bent to another end** by the links of the node before its old end. -/
theorem Path.redirect (hp : M.Path x l e) (hnodup : (x :: l).Nodup)
    (hnext : ∀ p ∈ x :: l, p ≠ M.prev e → M'.next p = M.next p)
    (hprev : ∀ p ∈ l, M'.prev p = M.prev p) (hend : M'.Linked (M.prev e) y) : M'.Path x l y := by
  induction l generalizing x with
  | nil => exact hp.2 ▸ hend
  | cons a l ih =>
    obtain ⟨⟨hxa, hax⟩, hrest⟩ := hp
    obtain ⟨hx, hnodup⟩ := List.nodup_cons.mp hnodup
    have hne : x ≠ M.prev e := fun heq => hx (heq ▸ hrest.prev_mem)
    refine ⟨⟨(hnext x List.mem_cons_self hne).trans hxa, (hprev a List.mem_cons_self).trans hax⟩,
      ih hrest hnodup ?_ ?_⟩
    · exact fun p hp => hnext p (List.mem_cons_of_mem _ hp)
    · exact fun p hp => hprev p (List.mem_cons_of_mem _ hp)

omit [DecidableEq α] in
/-- The links tell what is on a path, up to its end. -/
theorem Path.unique (h₁ : M.Path x l₁ y) (h₂ : M.Path x l₂ y) (hy₁ : y ∉ l₁) (hy₂ : y ∉ l₂) :
    l₁ = l₂ := by
  induction l₁ generalizing x l₂ with
  | nil =>
    cases l₂ with
    | nil => rfl
    | cons b l₂ =>
      have hyb : y = b := h₁.1.symm.trans h₂.1.1
      exact absurd (hyb ▸ List.mem_cons_self) hy₂
  | cons a l₁ ih =>
    cases l₂ with
    | nil =>
      have hya : y = a := h₂.1.symm.trans h₁.1.1
      exact absurd (hya ▸ List.mem_cons_self) hy₁
    | cons b l₂ =>
      obtain rfl : a = b := h₁.1.1.symm.trans h₂.1.1
      rw [ih h₁.2 h₂.2 (fun hm => hy₁ (List.mem_cons_of_mem _ hm))
        fun hm => hy₂ (List.mem_cons_of_mem _ hm)]

/-! ### The nodes around one that is taken out -/

section

variable (poison₁ poison₂ : α) {p : α}

theorem del_next_of_ne (hpe : p ≠ e) (hp : p ≠ M.prev e) :
    (M.del e poison₁ poison₂).next p = M.next p :=
  (Function.update_of_ne hpe ..).trans (Function.update_of_ne hp ..)

theorem del_prev_of_ne (hpe : p ≠ e) (hp : p ≠ M.next e) :
    (M.del e poison₁ poison₂).prev p = M.prev p :=
  (Function.update_of_ne hpe ..).trans (Function.update_of_ne hp ..)

theorem del_linked (hprev : M.prev e ≠ e) (hnext : M.next e ≠ e) :
    (M.del e poison₁ poison₂).Linked (M.prev e) (M.next e) :=
  ⟨(Function.update_of_ne hprev ..).trans (Function.update_self ..),
    (Function.update_of_ne hnext ..).trans (Function.update_self ..)⟩

end

/-! ### Lists -/

namespace IsList

omit [DecidableEq α] in
theorem unique (h₁ : M.IsList h l₁) (h₂ : M.IsList h l₂) : l₁ = l₂ :=
  h₁.path.unique h₂.path (List.nodup_cons.mp h₁.nodup).1 (List.nodup_cons.mp h₂.nodup).1

theorem init (M : Links α) (h : α) : (M.init h).IsList h [] :=
  ⟨⟨Function.update_self .., Function.update_self ..⟩, List.nodup_singleton h⟩

/-- A new node at the end. -/
theorem addTail (hl : M.IsList h l) (he : e ∉ h :: l) : (M.addTail e h).IsList h (l ++ [e]) := by
  obtain ⟨hh, hnodup⟩ := List.nodup_cons.mp hl.nodup
  have heh : e ≠ h := fun heq => he (heq ▸ List.mem_cons_self)
  have hel : e ∉ l := fun hm => he (List.mem_cons_of_mem _ hm)
  have hprev : M.prev h ∈ h :: l := hl.path.prev_mem
  have hne : e ≠ M.prev h := fun heq => he (heq ▸ hprev)
  constructor
  · rw [path_append]
    constructor
    · refine hl.path.redirect hl.nodup (fun p hp hpne => ?_) (fun p hp => ?_) ⟨?_, ?_⟩
      · have hpe : p ≠ e := fun heq => he (heq ▸ hp)
        exact (Function.update_of_ne hpne ..).trans (Function.update_of_ne hpe ..)
      · have hpe : p ≠ e := fun heq => hel (heq ▸ hp)
        have hph : p ≠ h := fun heq => hh (heq ▸ hp)
        exact (Function.update_of_ne hpe ..).trans (Function.update_of_ne hph ..)
      · exact Function.update_self ..
      · exact Function.update_self ..
    · constructor
      · exact (Function.update_of_ne hne ..).trans (Function.update_self ..)
      · exact (Function.update_of_ne (Ne.symm heh) ..).trans (Function.update_self ..)
  · rw [← List.cons_append]
    exact List.nodup_append.mpr ⟨hl.nodup, List.nodup_singleton e,
      fun p hp q hq heq => he (List.mem_singleton.mp hq ▸ heq ▸ hp)⟩

/-- An entry is taken out. -/
theorem del (poison₁ poison₂ : α) (hl : M.IsList h (l₁ ++ e :: l₂)) :
    (M.del e poison₁ poison₂).IsList h (l₁ ++ l₂) := by
  obtain ⟨hpath₁, hpath₂⟩ := path_append.mp hl.path
  obtain ⟨hnodup₁, hnodup₂, hdisj⟩ := List.nodup_append.mp (List.cons_append ▸ hl.nodup)
  have hprev : M.prev e ∈ h :: l₁ := hpath₁.prev_mem
  have he₁ : ∀ p ∈ h :: l₁, p ≠ e := fun p hp => hdisj p hp e List.mem_cons_self
  have he₂ : ∀ p ∈ h :: l₂, p ≠ e := by
    intro p hp
    rcases List.mem_cons.mp hp with rfl | hp
    · exact he₁ p List.mem_cons_self
    · exact fun heq => (List.nodup_cons.mp hnodup₂).1 (heq ▸ hp)
  have hnext : M.next e ≠ e := by
    rw [hpath₂.next_eq]
    cases l₂ with
    | nil => exact he₂ h List.mem_cons_self
    | cons y l₂ => exact he₂ y (List.mem_cons_of_mem _ List.mem_cons_self)
  have hhead : M.next e ∉ l₁ := by
    rw [hpath₂.next_eq]
    cases l₂ with
    | nil => exact (List.nodup_cons.mp hnodup₁).1
    | cons y l₂ =>
      exact fun hy => hdisj y (List.mem_cons_of_mem _ hy) y
        (List.mem_cons_of_mem _ List.mem_cons_self) rfl
  have hbent : (M.del e poison₁ poison₂).Path h l₁ (M.next e) :=
    hpath₁.redirect hnodup₁ (fun p hp hpne => del_next_of_ne _ _ (he₁ p hp) hpne)
      (fun p hp => del_prev_of_ne _ _ (he₁ p (List.mem_cons_of_mem _ hp))
        fun heq => hhead (heq ▸ hp))
      (del_linked _ _ (he₁ _ hprev) hnext)
  constructor
  · cases l₂ with
    | nil =>
      rw [hpath₂.next_eq] at hbent
      rw [List.append_nil]
      exact hbent
    | cons y l₂ =>
      rw [hpath₂.next_eq] at hbent
      refine path_append.mpr ⟨hbent, hpath₂.2.congr (fun p hp => ?_) fun p hp => ?_⟩
      · apply del_next_of_ne _ _ (he₂ p (List.mem_cons_of_mem _ hp))
        exact fun heq => hdisj _ hprev p (List.mem_cons_of_mem _ hp) heq.symm
      · rcases List.mem_cons.mp hp with rfl | hp
        · refine del_prev_of_ne _ _ (he₂ p List.mem_cons_self) ?_
          rw [hpath₂.next_eq]
          exact hdisj p List.mem_cons_self y (List.mem_cons_of_mem _ List.mem_cons_self)
        · refine del_prev_of_ne _ _ (he₂ p (List.mem_cons_of_mem _ (List.mem_cons_of_mem _ hp))) ?_
          rw [hpath₂.next_eq]
          have hy := (List.nodup_cons.mp (List.nodup_cons.mp hnodup₂).2).1
          exact fun (heq : p = y) => hy (heq ▸ hp)
  · rw [← List.cons_append]
    refine List.nodup_append.mpr ⟨hnodup₁, (List.nodup_cons.mp hnodup₂).2, fun p hp q hq => ?_⟩
    exact hdisj p hp q (List.mem_cons_of_mem _ hq)

end IsList

end Links

end DriverLib
