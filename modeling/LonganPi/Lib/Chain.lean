import LonganPi.Lib.Arena
import Mathlib.Data.List.Nodup
import Mathlib.Data.Nat.Basic
import Mathlib.Order.Basic

/-!
# Singly linked lists

Lists whose nodes are blocks of memory with a pointer to the next node. `Seg M r l q` says that the
pointer `r` leads through the nodes `l` to the pointer `q`; an element of `l` is the address of a
node and what it holds. A list that ends is a segment to the null pointer, and it has only one way
to be one (`Seg.unique`), so that no node is on it twice (`Seg.nodup`).

A segment is cut at any place (`seg_append`) and depends on its own nodes only (`Seg.congr`). With
these two, an operation on a list is a statement about its last node: `Seg.redirect` gives that
node another pointer.
-/

namespace DriverLib

/-- A node of a list: what it holds, and the pointer to the next node. -/
structure Node (α : Type*) where
  val : α
  next : Option ℕ
  deriving DecidableEq, Repr

variable {α : Type*}

/-- The pointer `r` leads through the nodes `l` to the pointer `q`. -/
def Seg (M : ℕ → Option (Node α)) : Option ℕ → List (ℕ × α) → Option ℕ → Prop
  | r, [], q => r = q
  | r, x :: l, q => r = some x.1 ∧ ∃ n, M x.1 = some ⟨x.2, n⟩ ∧ Seg M n l q

variable {M M' : ℕ → Option (Node α)} {r q : Option ℕ} {l l' l₁ l₂ : List (ℕ × α)} {x : ℕ × α}

theorem seg_nil : Seg M r [] q ↔ r = q := Iff.rfl

theorem seg_cons :
    Seg M r (x :: l) q ↔ r = some x.1 ∧ ∃ n, M x.1 = some ⟨x.2, n⟩ ∧ Seg M n l q := Iff.rfl

/-- A segment is cut at any place. -/
theorem seg_append : Seg M r (l₁ ++ l₂) q ↔ ∃ n, Seg M r l₁ n ∧ Seg M n l₂ q := by
  induction l₁ generalizing r with
  | nil => exact ⟨fun h => ⟨r, rfl, h⟩, fun ⟨n, hr, h⟩ => hr ▸ h⟩
  | cons y l₁ ih =>
    simp only [List.cons_append, seg_cons, ih]
    constructor
    · rintro ⟨hr, n, hy, m, h₁, h₂⟩
      exact ⟨m, ⟨hr, n, hy, h₁⟩, h₂⟩
    · rintro ⟨m, ⟨hr, n, hy, h₁⟩, h₂⟩
      exact ⟨hr, n, hy, m, h₁, h₂⟩

/-- The last node of a segment. -/
theorem seg_concat : Seg M r (l ++ [x]) q ↔ Seg M r l (some x.1) ∧ M x.1 = some ⟨x.2, q⟩ := by
  rw [seg_append]
  constructor
  · rintro ⟨n, hl, rfl, m, hx, rfl⟩
    exact ⟨hl, hx⟩
  · exact fun ⟨hl, hx⟩ => ⟨some x.1, hl, rfl, q, hx, rfl⟩

namespace Seg

/-- A segment depends on its own nodes. -/
theorem congr (h : Seg M r l q) (heq : ∀ x ∈ l, M' x.1 = M x.1) : Seg M' r l q := by
  induction l generalizing r with
  | nil => exact h
  | cons y l ih =>
    obtain ⟨hr, n, hy, hrest⟩ := h
    refine ⟨hr, n, (heq y List.mem_cons_self).trans hy, ih hrest fun x hx => ?_⟩
    exact heq x (List.mem_cons_of_mem y hx)

/-- The nodes of a segment are in memory. -/
theorem isSome (h : Seg M r l q) (hx : x ∈ l) : ∃ n, M x.1 = some ⟨x.2, n⟩ := by
  obtain ⟨l₁, l₂, rfl⟩ := List.append_of_mem hx
  obtain ⟨n, -, -, m, hm, -⟩ := seg_append.mp h
  exact ⟨m, hm⟩

/-- A segment with nodes starts at one of them. -/
theorem head_mem (h : Seg M r l q) (hl : l ≠ []) : ∃ x ∈ l, r = some x.1 := by
  cases l with
  | nil => exact absurd rfl hl
  | cons x l => exact ⟨x, List.mem_cons_self, h.1⟩

/-- Of two segments from one pointer, one continues the other. -/
theorem of_length_le (h : Seg M r l q) {q' : Option ℕ} (h' : Seg M r l' q')
    (hle : l.length ≤ l'.length) : ∃ l₂, l' = l ++ l₂ ∧ Seg M q l₂ q' := by
  induction l generalizing r l' with
  | nil =>
    obtain rfl := seg_nil.mp h
    exact ⟨l', rfl, h'⟩
  | cons x l ih =>
    cases l' with
    | nil => exact absurd hle (Nat.not_succ_le_zero _)
    | cons y l' =>
      obtain ⟨hr, n, hx, hrest⟩ := h
      obtain ⟨hr', n', hy, hrest'⟩ := h'
      have hfst : x.1 = y.1 := Option.some.inj (hr.symm.trans hr')
      rw [hfst, hy, Option.some.injEq, Node.mk.injEq] at hx
      obtain ⟨hsnd, rfl⟩ := hx
      obtain ⟨l₂, rfl, h₂⟩ := ih hrest hrest' (Nat.le_of_succ_le_succ hle)
      exact ⟨l₂, by rw [Prod.ext hfst hsnd.symm]; rfl, h₂⟩

/-- Two segments of one length from one pointer have the same nodes and the same end. -/
theorem eq_of_length (h : Seg M r l q) {q' : Option ℕ} (h' : Seg M r l' q')
    (hlen : l.length = l'.length) : l' = l ∧ q' = q := by
  obtain ⟨l₂, rfl, h₂⟩ := h.of_length_le h' hlen.le
  have hnil : l₂ = [] := List.eq_nil_of_length_eq_zero (by
    rw [List.length_append] at hlen
    exact Nat.add_eq_left.mp hlen.symm)
  subst hnil
  exact ⟨List.append_nil l, (seg_nil.mp h₂).symm⟩

/-- A list that ends has one way to do so. -/
theorem unique (h : Seg M r l none) (h' : Seg M r l' none) : l = l' := by
  have heq : ∀ {l l' : List (ℕ × α)}, Seg M r l none → Seg M r l' none →
      l.length ≤ l'.length → l = l' := fun {l l'} h h' hle => by
    obtain ⟨l₂, rfl, h₂⟩ := h.of_length_le h' hle
    cases l₂ with
    | nil => exact (List.append_nil l).symm
    | cons y l₂ => exact nomatch h₂.1
  rcases Nat.le_total l.length l'.length with hle | hle
  · exact heq h h' hle
  · exact (heq h' h hle).symm

/-- On a list that ends no node is twice. -/
theorem nodup (h : Seg M r l none) : (l.map Prod.fst).Nodup := by
  induction l generalizing r with
  | nil => exact List.nodup_nil
  | cons x l ih =>
    obtain ⟨hr, n, hx, hrest⟩ := h
    refine List.nodup_cons.mpr ⟨fun hmem => ?_, ih hrest⟩
    obtain ⟨y, hy, hyx⟩ := List.mem_map.mp hmem
    obtain ⟨l₁, l₂, rfl⟩ := List.append_of_mem hy
    obtain ⟨m, -, h₂⟩ := seg_append.mp hrest
    -- from the node `x` the list would end in two ways
    have hy₂ : Seg M (some x.1) (y :: l₂) none := ⟨congrArg some hyx.symm, h₂.2⟩
    have hx₂ : Seg M (some x.1) (x :: (l₁ ++ y :: l₂)) none := ⟨rfl, n, hx, hrest⟩
    have hlen := congrArg List.length (hy₂.unique hx₂)
    simp only [List.length_cons, List.length_append] at hlen
    omega

/-- The node behind the last one is exchanged. -/
theorem redirect (h : Seg M r (l ++ [x]) q) (heq : ∀ y ∈ l, M' y.1 = M y.1) {q' : Option ℕ}
    (hx : M' x.1 = some ⟨x.2, q'⟩) : Seg M' r (l ++ [x]) q' :=
  seg_concat.mpr ⟨(seg_concat.mp h).1.congr heq, hx⟩

end Seg

end DriverLib
