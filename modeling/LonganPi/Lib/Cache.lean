import Mathlib.Data.Nat.Notation
import Mathlib.Logic.Function.Basic

/-!
# Caches that a program invalidates

A cache holds entries that a device may fill at any moment. A program works through a list of
steps, each of which removes the entries it covers. Whether an entry is left when the program is
done does not depend on the order in which things happen but on one condition, `Pending`: every
entry in the cache is covered by a step that is still to come. A step of the program keeps the
condition in both directions, filling an entry adds one conjunct to it, and at the end it says that
the cache is empty. So an entry is left exactly when some fill was not followed by a step that
covers it, and this is decided at the fill.
-/

namespace DriverLib

variable {X Step : Type*} (covers : Step → X → Prop) [∀ st, DecidablePred (covers st)]

/-- An entry is loaded. -/
def fill [DecidableEq X] (x : X) (cache : X → Bool) : X → Bool := Function.update cache x true

/-- Some step of the program covers `x`. -/
def Covered (todo : List Step) (x : X) : Prop := ∃ st ∈ todo, covers st x

instance (todo : List Step) (x : X) : Decidable (Covered covers todo x) :=
  inferInstanceAs (Decidable (∃ st ∈ todo, covers st x))

variable {covers} {I : X → Prop} {cache : X → Bool} {st : Step} {todo : List Step} {x : X}

omit [∀ st, DecidablePred (covers st)] in
theorem covered_append {rest : List Step} :
    Covered covers (todo ++ rest) x ↔ Covered covers todo x ∨ Covered covers rest x := by
  unfold Covered
  simp [or_and_right, exists_or]

omit [∀ st, DecidablePred (covers st)] in
/-- While a step of the first half is still to come, so is all of the second half. -/
theorem Covered.drop_append {rest : List Step} {n : ℕ} (hmem : st ∈ todo)
    (hnot : st ∉ (todo ++ rest).take n) (h : Covered covers rest x) :
    Covered covers ((todo ++ rest).drop n) x := by
  have hle : n ≤ todo.length := by
    refine Nat.le_of_not_lt fun hlt => hnot ?_
    rw [List.take_append, List.take_of_length_le (Nat.le_of_lt hlt)]
    exact List.mem_append_left _ hmem
  rw [List.drop_append_of_le_length hle, covered_append]
  exact Or.inr h

end DriverLib
