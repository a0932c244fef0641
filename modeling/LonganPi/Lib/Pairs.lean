import Mathlib.Data.List.Basic

/-!
# Pairs of a list

`earlierPairs e l` lists the pairs of an entry of `l` and an entry before it, where the entries of
`e` are before all of `l`: what a loop visits that compares each new entry of a list with all that
is there. A loop that reports the pairs that pass a test reports the same as with another test only
when the tests agree on these pairs (`map_filter_eq_iff`).
-/

namespace DriverLib

variable {α β : Type*}

/-- The pairs of an earlier entry and an entry of the list, in the order of the entries. -/
def earlierPairs : List α → List α → List (α × α)
  | _, [] => []
  | e, x :: l => e.map (·, x) ++ earlierPairs (e ++ [x]) l

@[simp] theorem earlierPairs_nil (e : List α) : earlierPairs e [] = [] := rfl

theorem earlierPairs_cons (e : List α) (x : α) (l : List α) :
    earlierPairs e (x :: l) = e.map (·, x) ++ earlierPairs (e ++ [x]) l := rfl

theorem earlierPairs_append (e l m : List α) :
    earlierPairs e (l ++ m) = earlierPairs e l ++ earlierPairs (e ++ l) m := by
  induction l generalizing e with
  | nil => simp
  | cons x l ih =>
    rw [List.cons_append, earlierPairs_cons, earlierPairs_cons, ih, List.append_assoc,
      List.append_assoc, List.singleton_append]

theorem mem_earlierPairs {e l : List α} {w x : α} :
    (w, x) ∈ earlierPairs e l ↔ ∃ l₁ l₂, l = l₁ ++ x :: l₂ ∧ w ∈ e ++ l₁ := by
  induction l generalizing e with
  | nil => simp
  | cons a l ih =>
    rw [earlierPairs_cons, List.mem_append, ih]
    constructor
    · rintro (h | ⟨l₁, l₂, rfl, hw⟩)
      · obtain ⟨y, hy, heq⟩ := List.mem_map.mp h
        obtain ⟨rfl, rfl⟩ := Prod.mk.inj heq
        exact ⟨[], l, rfl, by simpa using hy⟩
      · exact ⟨a :: l₁, l₂, rfl, by simpa using hw⟩
    · rintro ⟨_ | ⟨b, l₁⟩, l₂, heq, hw⟩
      · obtain ⟨rfl, rfl⟩ := List.cons.inj heq
        exact Or.inl (List.mem_map.mpr ⟨w, by simpa using hw, rfl⟩)
      · obtain ⟨rfl, rfl⟩ := List.cons.inj heq
        exact Or.inr ⟨l₁, l₂, rfl, by simpa using hw⟩

/-- Reports that tell the outcome of two tests are the same only when the tests agree. -/
theorem map_filter_eq_iff {l : List α} {f : α → β} {p q : α → Bool}
    (hp : ∀ x y, f x = f y → p x = p y) (hq : ∀ x y, f x = f y → q x = q y) :
    (l.filter p).map f = (l.filter q).map f ↔ ∀ x ∈ l, p x = q x := by
  constructor
  · intro h x hx
    have key : ∀ {p q : α → Bool}, (∀ x y, f x = f y → q x = q y) →
        (l.filter p).map f = (l.filter q).map f → p x = true → q x = true := by
      intro p q hq h hpx
      have hmem : f x ∈ (l.filter q).map f :=
        h ▸ List.mem_map_of_mem (List.mem_filter.mpr ⟨hx, hpx⟩)
      obtain ⟨y, hy, hyx⟩ := List.mem_map.mp hmem
      rw [← hq y x hyx]
      exact (List.mem_filter.mp hy).2
    exact Bool.eq_iff_iff.mpr ⟨key hq h, key hp h.symm⟩
  · intro h
    rw [List.filter_congr h]

end DriverLib
