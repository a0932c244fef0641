import Mathlib.Data.List.Sort

/-!
# Lists by priority

A list of entries, the highest priority first, and of equal ones the entry that came first. The
entries carry the number of their arrival, so that this is a strict order (`Precedes`) and a list in
this order is determined by its entries. An entry that arrives is inserted in front of the first one
of a lower priority; this is `List.orderedInsert` for a relation that need not be an order, and it
keeps the list in order (`pairwise_orderedInsert`).
-/

namespace DriverLib

variable {α P : Type*} [LinearOrder P] {prio : α → P} {arrival : α → ℕ}

/-- `a` has the higher priority, or the same and arrived first. -/
def Precedes (prio : α → P) (arrival : α → ℕ) (a b : α) : Prop :=
  prio b < prio a ∨ prio b = prio a ∧ arrival a < arrival b

/-- The entry that arrives last goes behind all entries of its priority. -/
theorem pairwise_orderedInsert {r : α → α → Prop} [DecidableRel r] {l : List α} {x : α}
    (h : l.Pairwise (Precedes prio arrival)) (hlast : ∀ e ∈ l, arrival e < arrival x)
    (hr : ∀ e ∈ l, r x e ↔ prio e < prio x) :
    (l.orderedInsert r x).Pairwise (Precedes prio arrival) := by
  induction l with
  | nil => exact List.pairwise_singleton _ x
  | cons a l ih =>
    obtain ⟨ha, hl⟩ := List.pairwise_cons.mp h
    rw [List.orderedInsert_cons]
    split
    · rename_i hxa
      have hlt : prio a < prio x := (hr a List.mem_cons_self).mp hxa
      refine List.pairwise_cons.mpr ⟨fun e he => Or.inl ?_, h⟩
      rcases List.mem_cons.mp he with rfl | he
      · exact hlt
      · rcases ha e he with hea | ⟨hea, -⟩
        · exact hea.trans hlt
        · exact hea.trans_lt hlt
    · rename_i hxa
      have hle : prio x ≤ prio a := not_lt.mp fun hlt => hxa ((hr a List.mem_cons_self).mpr hlt)
      refine List.pairwise_cons.mpr ⟨fun e he => ?_, ?_⟩
      · rcases (List.mem_orderedInsert r).mp he with rfl | he
        · rcases hle.lt_or_eq with hlt | heq
          · exact Or.inl hlt
          · exact Or.inr ⟨heq, hlast a List.mem_cons_self⟩
        · exact ha e he
      · exact ih hl (fun e he => hlast e (List.mem_cons_of_mem a he))
          fun e he => hr e (List.mem_cons_of_mem a he)

/-- The entries before the new one have at least its priority, those behind it a lower one. -/
theorem exists_orderedInsert {r : α → α → Prop} [DecidableRel r] {l : List α} {x : α}
    (h : l.Pairwise (Precedes prio arrival)) (hr : ∀ e ∈ l, r x e ↔ prio e < prio x) :
    ∃ l₁ l₂, l = l₁ ++ l₂ ∧ l.orderedInsert r x = l₁ ++ x :: l₂ ∧
      (∀ e ∈ l₁, prio x ≤ prio e) ∧ ∀ e ∈ l₂, prio e < prio x := by
  induction l with
  | nil => exact ⟨[], [], rfl, rfl, nofun, nofun⟩
  | cons a l ih =>
    obtain ⟨ha, hl⟩ := List.pairwise_cons.mp h
    rw [List.orderedInsert_cons]
    split
    · rename_i hxa
      have hlt : prio a < prio x := (hr a List.mem_cons_self).mp hxa
      refine ⟨[], a :: l, rfl, rfl, nofun, fun e he => ?_⟩
      rcases List.mem_cons.mp he with rfl | he
      · exact hlt
      · exact (ha e he).elim hlt.trans' fun heq => heq.1.trans_lt hlt
    · rename_i hxa
      have hle : prio x ≤ prio a := not_lt.mp fun hlt => hxa ((hr a List.mem_cons_self).mpr hlt)
      obtain ⟨l₁, l₂, hsplit, hins, hbefore, hafter⟩ :=
        ih hl fun e he => hr e (List.mem_cons_of_mem a he)
      refine ⟨a :: l₁, l₂, ?_, ?_, fun e he => ?_, hafter⟩
      · rw [hsplit, List.cons_append]
      · rw [hins, List.cons_append]
      · rcases List.mem_cons.mp he with rfl | he
        · exact hle
        · exact hbefore e he

end DriverLib
