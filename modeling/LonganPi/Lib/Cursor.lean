import Mathlib.Algebra.BigOperators.Group.Finset.Basic
import Mathlib.Algebra.GroupWithZero.Nat
import Mathlib.Algebra.Order.BigOperators.Group.Finset
import Mathlib.Data.List.Nodup

/-!
# A walk over a list that its visits change

A loop over a linked list that may unlink the element it stands on, or move elements to the end.
Before each visit the loop notes the element that comes next, and goes on there, wherever that
element is by then. `walk` is that loop over a state that holds the list.

The loop can visit an element twice, so a bound on the visits is an argument. `walk_spec` says when
it is not reached: each visit of a listed element lowers a measure, and the other elements stay
listed. The walk then keeps what the visits keep, and does what they do one after another.
-/

namespace DriverLib

namespace Cursor

variable {κ State Out : Type*} [DecidableEq κ]

/-- The element after `k`. -/
def nextOf (k : κ) : List κ → Option κ
  | [] => none
  | x :: l => if x = k then l.head? else nextOf k l

/-- Visit the element at the cursor, and then what came next before the visit. -/
def walk (list : State → List κ) (visit : State → κ → Option (List Out × State)) :
    ℕ → State → Option κ → Option (List Out × State)
  | _, s, none => some ([], s)
  | 0, _, some _ => none
  | fuel + 1, s, some k =>
    (visit s k).bind fun r =>
      (walk list visit fuel r.2 (nextOf k (list s))).map fun t => (r.1 ++ t.1, t.2)

theorem nextOf_mem {k x : κ} {l : List κ} (h : nextOf k l = some x) : x ∈ l := by
  induction l with
  | nil => cases h
  | cons y l ih =>
    rw [nextOf] at h
    split at h
    · exact List.mem_cons_of_mem y (List.mem_of_mem_head? h)
    · exact List.mem_cons_of_mem y (ih h)

theorem nextOf_ne {k x : κ} {l : List κ} (hl : l.Nodup) (h : nextOf k l = some x) : x ≠ k := by
  induction l with
  | nil => cases h
  | cons y l ih =>
    obtain ⟨hy, hl⟩ := List.nodup_cons.mp hl
    rw [nextOf] at h
    split at h
    · next hyk =>
      rintro rfl
      exact hy (hyk ▸ List.mem_of_mem_head? h)
    · exact ih hl h

variable {list : State → List κ} {visit : State → κ → Option (List Out × State)}
  {Inv : State → Prop} {P : State → List Out → State → Prop} {μ : State → ℕ}

omit [DecidableEq κ] in
/-- The weights of a list go down when one element leaves it or becomes lighter, and no other
becomes heavier. -/
theorem weight_lt {l l' : List κ} {f f' : κ → ℕ} (hl : l.Nodup) (hl' : l'.Nodup)
    (hsub : ∀ x ∈ l', x ∈ l) {k : κ} (hk : k ∈ l) (hf : ∀ x, x ≠ k → f' x ≤ f x)
    (hlt : k ∉ l' ∧ 0 < f k ∨ f' k < f k) : (l'.map f').sum < (l.map f).sum := by
  classical
  have hincl : l'.toFinset.erase k ⊆ l.toFinset.erase k := Finset.erase_subset_erase k fun x hx =>
    List.mem_toFinset.mpr (hsub x (List.mem_toFinset.mp hx))
  have hrest : ∑ x ∈ l'.toFinset.erase k, f' x ≤ ∑ x ∈ l.toFinset.erase k, f x :=
    (Finset.sum_le_sum fun x hx => hf x (Finset.ne_of_mem_erase hx)).trans
      (Finset.sum_le_sum_of_subset hincl)
  rw [← List.sum_toFinset f' hl', ← List.sum_toFinset f hl,
    ← Finset.add_sum_erase _ f (List.mem_toFinset.mpr hk)]
  by_cases hk' : k ∈ l'
  · rw [← Finset.add_sum_erase _ f' (List.mem_toFinset.mpr hk')]
    exact Nat.add_lt_add_of_lt_of_le (hlt.resolve_left fun h => h.1 hk') hrest
  · rw [← Finset.erase_eq_of_notMem (mt List.mem_toFinset.mp hk')]
    have hpos : 0 < f k := hlt.elim And.right (Nat.zero_le _).trans_lt
    exact hrest.trans_lt (Nat.lt_add_of_pos_left hpos)

/-- **The walk rule.** -/
theorem walk_spec (hrefl : ∀ s, P s [] s)
    (htrans : ∀ s o t o' u, P s o t → P t o' u → P s (o ++ o') u)
    (hnodup : ∀ s, Inv s → (list s).Nodup)
    (hvisit : ∀ s k, Inv s → k ∈ list s → ∃ o t, visit s k = some (o, t) ∧ Inv t ∧ P s o t ∧
      μ t < μ s ∧ ∀ x ∈ list s, x ≠ k → x ∈ list t)
    {s : State} (hs : Inv s) {fuel : ℕ} (hfuel : μ s ≤ fuel) {c : Option κ}
    (hc : ∀ k, c = some k → k ∈ list s) :
    ∃ o t, walk list visit fuel s c = some (o, t) ∧ Inv t ∧ P s o t := by
  induction fuel generalizing s c with
  | zero =>
    cases c with
    | none => exact ⟨[], s, rfl, hs, hrefl s⟩
    | some k =>
      -- a visit would lower the measure, which is zero
      obtain ⟨o, t, -, -, -, hlt, -⟩ := hvisit s k hs (hc k rfl)
      omega
  | succ fuel ih =>
    cases c with
    | none => exact ⟨[], s, rfl, hs, hrefl s⟩
    | some k =>
      obtain ⟨o, t, hv, ht, hP, hlt, hstay⟩ := hvisit s k hs (hc k rfl)
      obtain ⟨o', u, hw, hu, hP'⟩ := ih ht (by omega) fun x hx =>
        hstay x (nextOf_mem hx) (nextOf_ne (hnodup s hs) hx)
      refine ⟨o ++ o', u, ?_, hu, htrans s o t o' u hP hP'⟩
      rw [walk, hv, Option.bind_some, hw, Option.map_some]

end Cursor

end DriverLib
