import Mathlib.Algebra.BigOperators.Fin
import Mathlib.Algebra.Order.Group.Multiset
import Mathlib.Tactic.Abel

/-!
# Accounts

Resources that are moved between places are accounted for by sums over the places. An account is
kept when one place is replaced and the difference is booked elsewhere: `sum_update_add` for an
array of places, `sum_replace_add` for a list of them. A place that is a list gives up one of its
resources by `sum_eraseIdx_add`.
-/

namespace DriverLib

variable {ι γ M : Type*} [AddCommMonoid M]

/-- One entry of a family is replaced. -/
theorem sum_update_add_of_mem [DecidableEq ι] {S : Finset ι} (v : γ → M) (f : ι → γ) {i : ι}
    (hi : i ∈ S) (x : γ) :
    (∑ j ∈ S, v (Function.update f i x j)) + v (f i) = (∑ j ∈ S, v (f j)) + v x := by
  have hne : ∀ j ∈ S.erase i, v (Function.update f i x j) = v (f j) := fun j hj => by
    rw [Function.update_of_ne (Finset.ne_of_mem_erase hj)]
  rw [← Finset.add_sum_erase S (fun j => v (Function.update f i x j)) hi,
    ← Finset.add_sum_erase S (fun j => v (f j)) hi, Finset.sum_congr rfl hne, Function.update_self]
  abel

/-- One entry of an array is replaced. -/
theorem sum_update_add [Fintype ι] [DecidableEq ι] (v : γ → M) (f : ι → γ) (i : ι) (x : γ) :
    (∑ j, v (Function.update f i x j)) + v (f i) = (∑ j, v (f j)) + v x :=
  sum_update_add_of_mem v f (Finset.mem_univ i) x

/-- One entry of a list is replaced, and what it gives or takes is booked. -/
theorem sum_replace_add {v : γ → M} {x x' a b : M} {y y' : γ} (l₁ l₂ : List γ)
    (hy : v y' + x = v y + x') (hx : a + x' = b + x) :
    a + ((l₁ ++ y' :: l₂).map v).sum + (x + x') = b + ((l₁ ++ y :: l₂).map v).sum + (x + x') := by
  rw [List.map_append, List.map_append, List.sum_append, List.sum_append, List.map_cons,
    List.map_cons, List.sum_cons, List.sum_cons]
  calc a + ((l₁.map v).sum + (v y' + (l₂.map v).sum)) + (x + x')
      = (v y' + x) + (a + x') + ((l₁.map v).sum + (l₂.map v).sum) := by abel
    _ = (v y + x') + (b + x) + ((l₁.map v).sum + (l₂.map v).sum) := by rw [hy, hx]
    _ = b + ((l₁.map v).sum + (v y + (l₂.map v).sum)) + (x + x') := by abel

/-- One entry of a list is taken out. -/
theorem sum_eraseIdx_add (v : γ → M) {l : List γ} {n : ℕ} {x : γ} (h : l[n]? = some x) :
    ((l.eraseIdx n).map v).sum + v x = (l.map v).sum := by
  obtain ⟨hn, rfl⟩ := List.getElem?_eq_some_iff.mp h
  rw [← ((List.getElem_cons_eraseIdx_perm hn).map v).sum_eq, List.map_cons, List.sum_cons, add_comm]

end DriverLib
