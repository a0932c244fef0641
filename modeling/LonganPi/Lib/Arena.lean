import Mathlib.Data.Nat.Notation
import Mathlib.Logic.Function.Basic

/-!
# Allocation ledgers and mutexes

Two ghost-instrumented resources that a driver model embeds in its state.

* An `Arena` records which addresses an allocator has handed out and not yet taken back, with a
  payload for each. Freeing or accessing an address that is not live sets `fault`, and nothing ever
  clears it, so `fault = false` at the end of a run says that no step of it freed a block twice,
  freed a block it did not own or used one after its release.
* A `Mutex` records its holder. Releasing it for somebody else than the holder sets `fault` in the
  same way; locking is only enabled when it is free.

Neither carries any policy: a model decides when to call them, and its invariant says why `fault`
stays `false`.
-/

namespace DriverLib

/-! ### Arenas -/

/-- The live blocks of an allocator, and whether a dead block was ever freed or accessed. -/
structure Arena (α : Type*) where
  /-- The payload of a live block, `none` at an address that is not live. -/
  block : ℕ → Option α
  /-- A block that was not live has been freed or accessed. -/
  fault : Bool

namespace Arena

variable {α : Type*}

/-- Nothing is allocated. -/
def empty : Arena α := ⟨fun _ => none, false⟩

/-- `p` is a live block. -/
def Live (A : Arena α) (p : ℕ) : Prop := (A.block p).isSome

instance (A : Arena α) (p : ℕ) : Decidable (A.Live p) := inferInstanceAs (Decidable (_ = true))

/-- The allocator hands out `p`. -/
def alloc (A : Arena α) (p : ℕ) (v : α) : Arena α :=
  { A with block := Function.update A.block p (some v) }

/-- The allocator takes `p` back. -/
def free (A : Arena α) (p : ℕ) : Arena α :=
  ⟨Function.update A.block p none, A.fault || !(A.block p).isSome⟩

/-- The block at `p` is read or written. -/
def access (A : Arena α) (p : ℕ) : Arena α :=
  { A with fault := A.fault || !(A.block p).isSome }

/-- The payload of the block at `p` is replaced. -/
def write (A : Arena α) (p : ℕ) (v : α) : Arena α :=
  ⟨if (A.block p).isSome then Function.update A.block p (some v) else A.block,
    A.fault || !(A.block p).isSome⟩

/-- The block at `p` is changed in place. -/
def modify (A : Arena α) (p : ℕ) (f : α → α) : Arena α :=
  match A.block p with
  | some v => A.write p (f v)
  | none => { A with fault := true }

variable (A : Arena α) (p q : ℕ) (v w : α)

theorem live_iff : A.Live p ↔ ∃ v, A.block p = some v := Option.isSome_iff_exists

theorem not_live_iff : ¬ A.Live p ↔ A.block p = none := by
  unfold Live; cases A.block p <;> simp

variable {A p v} in
theorem Live.of_eq (h : A.block p = some v) : A.Live p := (A.live_iff p).mpr ⟨v, h⟩

@[simp] theorem empty_block : (empty : Arena α).block p = none := rfl

@[simp] theorem empty_fault : (empty : Arena α).fault = false := rfl

@[simp] theorem not_live_empty : ¬ (empty : Arena α).Live p := by simp [Live]

@[simp] theorem alloc_block_self : (A.alloc p v).block p = some v := by simp [alloc]

theorem alloc_block : (A.alloc p v).block q = if q = p then some v else A.block q := by
  simp only [alloc, Function.update_apply]

variable {p q} in
theorem alloc_block_of_ne (h : q ≠ p) : (A.alloc p v).block q = A.block q := by
  rw [alloc_block, if_neg h]

theorem live_alloc : (A.alloc p v).Live q ↔ q = p ∨ A.Live q := by
  unfold Live
  rw [alloc_block]
  split <;> simp [*]

theorem free_block : (A.free p).block q = if q = p then none else A.block q := by
  simp only [free, Function.update_apply]

variable {p q} in
theorem free_block_of_ne (h : q ≠ p) : (A.free p).block q = A.block q := by
  rw [free_block, if_neg h]

theorem live_free : (A.free p).Live q ↔ q ≠ p ∧ A.Live q := by
  unfold Live
  rw [free_block]
  split <;> simp [*]

/-- Freeing is clean exactly when the ledger was clean and the block live. -/
theorem free_fault : (A.free p).fault = false ↔ A.fault = false ∧ A.Live p := by
  simp [free, Live]

variable {A p} in
/-- Freeing what was just allocated restores the ledger. -/
theorem free_alloc (h : ¬ A.Live p) : (A.alloc p v).free p = A := by
  have hnone : A.block p = none := (A.not_live_iff p).mp h
  cases A with
  | mk block fault =>
    change block p = none at hnone
    simp [alloc, free, Function.update_idem, Function.update_eq_self_iff, hnone]

theorem access_fault : (A.access p).fault = false ↔ A.fault = false ∧ A.Live p := by
  simp [access, Live]

variable {A p} in
/-- Accessing a live block changes nothing. -/
theorem access_of_live (h : A.Live p) : A.access p = A := by
  unfold access Live at *
  simp [h]

variable {A p} in
/-- Writing to a live block is no fault. -/
theorem write_fault_of_live (h : A.Live p) : (A.write p v).fault = A.fault := by
  unfold Live at h
  simp [write, h]

variable {A p} in
theorem write_block_of_live (h : A.Live p) :
    (A.write p v).block q = if q = p then some v else A.block q := by
  unfold Live at h
  simp [write, h, Function.update_apply]

/-- Writing to what was just allocated. -/
theorem write_alloc : (A.alloc p v).write p w = A.alloc p w := by
  simp only [alloc, write, Function.update_self, Option.isSome_some, if_true, Function.update_idem,
    Bool.not_true, Bool.or_false]

variable {A p v} in
/-- Freeing a block, whatever is written to it before. -/
theorem free_write (h : A.block p = some v) : (A.write p w).free p = A.free p := by
  simp only [free, write, h, Option.isSome_some, if_true, Function.update_idem,
    Function.update_self, Bool.not_true, Bool.or_false]

section Modify

variable {A p v} {f : α → α}

theorem modify_fault (h : A.block p = some v) : (A.modify p f).fault = A.fault := by
  unfold modify
  rw [h]
  exact write_fault_of_live _ (Live.of_eq h)

theorem modify_block (h : A.block p = some v) :
    (A.modify p f).block q = if q = p then some (f v) else A.block q := by
  unfold modify
  rw [h]
  exact write_block_of_live _ _ (Live.of_eq h)

theorem modify_block_self (h : A.block p = some v) : (A.modify p f).block p = some (f v) :=
  (modify_block p h).trans (if_pos rfl)

/-- A fault stays. -/
theorem fault_modify (h : A.fault = true) : (A.modify p f).fault = true := by
  cases hp : A.block p with
  | none =>
    unfold modify
    rw [hp]
  | some v => exact (modify_fault hp).trans h

variable {q} in
/-- A change in place changes no other block, also where there is nothing to change. -/
theorem modify_block_of_ne (hne : q ≠ p) : (A.modify p f).block q = A.block q := by
  cases h : A.block p with
  | none =>
    unfold modify
    rw [h]
  | some v => exact (modify_block q h).trans (if_neg hne)

end Modify

/-! #### Pointers that may be null -/

/-- The block behind a pointer is read or written; nothing is behind a null pointer. -/
def accessPtr (A : Arena α) : Option ℕ → Arena α
  | some p => A.access p
  | none => { A with fault := true }

/-- The block behind a pointer is changed in place; nothing is behind a null pointer. -/
def modifyPtr (A : Arena α) (r : Option ℕ) (f : α → α) : Arena α :=
  match r with
  | some p => A.modify p f
  | none => { A with fault := true }

/-- `if (p) free(p)`. -/
def freePtr (A : Arena α) : Option ℕ → Arena α
  | some p => A.free p
  | none => A

variable {A} in
theorem accessPtr_of_live {p : ℕ} (h : A.Live p) : A.accessPtr (some p) = A := access_of_live h

theorem accessPtr_fault (r : Option ℕ) :
    (A.accessPtr r).fault = false ↔ A.fault = false ∧ ∃ p, r = some p ∧ A.Live p := by
  cases r with
  | none => simp [accessPtr]
  | some p => simp [accessPtr, access_fault]

theorem live_freePtr (r : Option ℕ) : (A.freePtr r).Live q ↔ r ≠ some q ∧ A.Live q := by
  cases r with
  | none => simp [freePtr]
  | some p => simp [freePtr, live_free, eq_comm]

theorem freePtr_fault (r : Option ℕ) :
    (A.freePtr r).fault = false ↔ A.fault = false ∧ ∀ p, r = some p → A.Live p := by
  cases r with
  | none => simp [freePtr]
  | some p => simp [freePtr, free_fault]

theorem freePtr_block_of_ne (r : Option ℕ) (h : r ≠ some q) :
    (A.freePtr r).block q = A.block q := by
  cases r with
  | none => rfl
  | some p => exact free_block_of_ne (A := A) fun heq => h (heq ▸ rfl)

/-! #### Freeing a list of blocks -/

/-- The blocks of a list are freed one after the other. -/
def freeAll (A : Arena α) (ps : List ℕ) : Arena α := ps.foldl free A

@[simp] theorem freeAll_nil : A.freeAll [] = A := rfl

@[simp] theorem freeAll_cons (ps : List ℕ) : A.freeAll (p :: ps) = (A.free p).freeAll ps := rfl

theorem live_freeAll (ps : List ℕ) : (A.freeAll ps).Live q ↔ A.Live q ∧ q ∉ ps := by
  induction ps generalizing A with
  | nil => simp
  | cons p ps ih =>
    rw [freeAll_cons, ih, live_free, List.mem_cons, not_or]
    exact ⟨fun ⟨⟨hne, hl⟩, hn⟩ => ⟨hl, hne, hn⟩, fun ⟨hl, hne, hn⟩ => ⟨⟨hne, hl⟩, hn⟩⟩

/-- Freeing a list is clean exactly when its blocks are live and no block is in it twice. -/
theorem freeAll_fault (ps : List ℕ) :
    (A.freeAll ps).fault = false ↔ A.fault = false ∧ ps.Nodup ∧ ∀ p ∈ ps, A.Live p := by
  induction ps generalizing A with
  | nil => simp
  | cons p ps ih =>
    rw [freeAll_cons, ih, free_fault, List.nodup_cons]
    constructor
    · rintro ⟨⟨hclean, hp⟩, hnodup, hlive⟩
      refine ⟨hclean, ⟨fun hmem => ?_, hnodup⟩, ?_⟩
      · exact ((A.live_free p p).mp (hlive p hmem)).1 rfl
      · intro q hq
        rcases List.mem_cons.mp hq with rfl | hq
        · exact hp
        · exact ((A.live_free p q).mp (hlive q hq)).2
    · rintro ⟨hclean, ⟨hnotin, hnodup⟩, hlive⟩
      refine ⟨⟨hclean, hlive p List.mem_cons_self⟩, hnodup, fun q hq => ?_⟩
      refine (A.live_free p q).mpr ⟨fun heq => hnotin (heq ▸ hq), ?_⟩
      exact hlive q (List.mem_cons_of_mem p hq)

/-! #### Blocks owned by slots -/

/-- The live blocks are the ones that a family of slots points to, each slot to a block of its own,
and no dead block was ever freed or accessed. -/
structure OwnedBy {ι : Type*} (A : Arena α) (slot : ι → Option ℕ) : Prop where
  clean : A.fault = false
  live : ∀ i p, slot i = some p → A.Live p
  inj : ∀ i j p, slot i = some p → slot j = some p → i = j
  owner : ∀ p, A.Live p → ∃ i, slot i = some p

namespace OwnedBy

variable {ι : Type*} {A : Arena α} {slot : ι → Option ℕ} {i : ι} {p : ℕ}

theorem empty : (Arena.empty : Arena α).OwnedBy fun _ : ι => none where
  clean := rfl
  live _ _ h := nomatch h
  inj _ _ _ h := nomatch h
  owner p h := absurd h (not_live_empty p)

/-- A live block has exactly one owner. -/
theorem existsUnique (h : A.OwnedBy slot) (hp : A.Live p) : ∃! i, slot i = some p := by
  obtain ⟨i, hi⟩ := h.owner p hp
  exact ⟨i, hi, fun j hj => h.inj j i p hj hi⟩

/-- Without owners nothing is live. -/
theorem not_live (h : A.OwnedBy slot) (hnone : ∀ i, slot i = none) : ¬ A.Live p := by
  intro hp
  obtain ⟨i, hi⟩ := h.owner p hp
  rw [hnone i] at hi
  cases hi

variable [DecidableEq ι]

/-- A fresh block goes to a slot that points nowhere. -/
theorem alloc (h : A.OwnedBy slot) (hi : slot i = none) (hp : ¬ A.Live p) (v : α) :
    (A.alloc p v).OwnedBy (Function.update slot i (some p)) where
  clean := h.clean
  live j q hj := by
    rw [Function.update_apply] at hj
    rw [live_alloc]
    split at hj
    · exact Or.inl (Option.some.inj hj).symm
    · exact Or.inr (h.live j q hj)
  inj j k q hj hk := by
    rw [Function.update_apply] at hj hk
    split at hj <;> split at hk
    · next hji hki => exact hji.trans hki.symm
    · obtain rfl := Option.some.inj hj
      exact absurd (h.live k p hk) hp
    · obtain rfl := Option.some.inj hk
      exact absurd (h.live j p hj) hp
    · exact h.inj j k q hj hk
  owner q hq := by
    rcases (A.live_alloc p q v).mp hq with rfl | hq
    · exact ⟨i, Function.update_self ..⟩
    · obtain ⟨j, hj⟩ := h.owner q hq
      refine ⟨j, ?_⟩
      rw [Function.update_of_ne fun hji => ?_]
      · exact hj
      · rw [hji, hi] at hj
        cases hj

/-- The owner of a block frees it and forgets it. -/
theorem free (h : A.OwnedBy slot) (hi : slot i = some p) :
    (A.free p).OwnedBy (Function.update slot i none) where
  clean := (A.free_fault p).mpr ⟨h.clean, h.live i p hi⟩
  live j q hj := by
    rw [Function.update_apply] at hj
    split at hj
    · cases hj
    · next hne =>
      refine (A.live_free p q).mpr ⟨fun hqp => hne ?_, h.live j q hj⟩
      exact h.inj j i p (hqp ▸ hj) hi
  inj j k q hj hk := by
    rw [Function.update_apply] at hj hk
    split at hj
    · cases hj
    split at hk
    · cases hk
    exact h.inj j k q hj hk
  owner q hq := by
    obtain ⟨hqp, hq⟩ := (A.live_free p q).mp hq
    obtain ⟨j, hj⟩ := h.owner q hq
    refine ⟨j, ?_⟩
    rw [Function.update_of_ne fun hji => ?_]
    · exact hj
    · rw [hji, hi] at hj
      exact hqp (Option.some.inj hj).symm

end OwnedBy

end Arena

/-! ### Mutexes -/

/-- A mutex with its holder, and whether it was ever released for a non-holder. -/
structure Mutex (Owner : Type*) where
  /-- Who holds the mutex. -/
  holder : Option Owner
  /-- It was released on behalf of somebody who did not hold it. -/
  fault : Bool
  deriving DecidableEq, Repr

namespace Mutex

variable {Owner : Type*} [DecidableEq Owner]

omit [DecidableEq Owner] in
/-- The mutex after `mutex_init`. -/
def unlocked : Mutex Owner := ⟨none, false⟩

omit [DecidableEq Owner] in
/-- `t` takes the mutex; not enabled while it is held. -/
def lock (m : Mutex Owner) (t : Owner) : Option (Mutex Owner) :=
  match m.holder with
  | none => some { m with holder := some t }
  | some _ => none

/-- The mutex is released on behalf of `t`. -/
def unlock (m : Mutex Owner) (t : Owner) : Mutex Owner :=
  ⟨none, m.fault || !decide (m.holder = some t)⟩

@[simp] theorem unlock_holder (m : Mutex Owner) (t : Owner) : (m.unlock t).holder = none := rfl

/-- Releasing is clean exactly when the mutex was clean and `t` its holder. -/
theorem unlock_fault (m : Mutex Owner) (t : Owner) :
    (m.unlock t).fault = false ↔ m.fault = false ∧ m.holder = some t := by
  simp [unlock]

omit [DecidableEq Owner] in
theorem lock_eq_some {m m' : Mutex Owner} {t : Owner} :
    m.lock t = some m' ↔ m.holder = none ∧ m' = { m with holder := some t } := by
  unfold lock
  cases h : m.holder with
  | none => simp [eq_comm]
  | some u => simp

/-- Unlocking what was just locked restores the mutex. -/
theorem unlock_of_lock {m m' : Mutex Owner} {t : Owner} (h : m.lock t = some m') :
    m'.unlock t = m := by
  obtain ⟨hfree, rfl⟩ := lock_eq_some.mp h
  cases m with
  | mk holder fault =>
    change holder = none at hfree
    subst hfree
    simp [unlock]

end Mutex

end DriverLib
