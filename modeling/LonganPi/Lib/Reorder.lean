import LonganPi.Lib.Serial
import LonganPi.Lib.Trace
import Mathlib.Data.List.Sort
import Mathlib.Data.List.Perm.Basic

/-!
# Reorder buffers

A receiver numbers what arrives and hands it on in the order of the numbers. What arrives ahead of
the number that is awaited is held back, at most `w - 1` places; what arrives behind it is handed on
at once, as *late*; what is held already is a *duplicate*. A number too far ahead moves the window,
and a timeout gives up the gap before the first number held. `Window w α` carries the invariant of
such a buffer: what is held is sorted and lies strictly inside the window.

The numbers are integers here. `Window.machine h w` reads the numbers of its calls modulo `2 * h`,
as the integers nearest to the one it awaits, and starts at the first number it sees.

* `Window.machine_ordered`: whatever is handed on before something that is released in order has a
  smaller number.
* `Window.machine_complete`: arrivals of which none overtakes another by `w` places are released
  completely and in order, with no timeout.
-/

namespace DriverLib

/-- What becomes of an arrival. -/
inductive Output (β : Type*)
  | late (x : β)
  | inOrder (x : β)
  | duplicate (x : β)
  deriving DecidableEq

namespace Output

variable {β γ : Type*}

def val : Output β → β
  | late x => x
  | inOrder x => x
  | duplicate x => x

def map (f : β → γ) : Output β → Output γ
  | late x => late (f x)
  | inOrder x => inOrder (f x)
  | duplicate x => duplicate (f x)

/-- What is handed on. -/
def passed : Output β → Option β
  | late x => some x
  | inOrder x => some x
  | duplicate _ => none

/-- What is released in its turn. -/
def released : Output β → Option β
  | inOrder x => some x
  | _ => none

@[simp] theorem val_map (f : β → γ) (x : Output β) : (x.map f).val = f x.val := by cases x <;> rfl

@[simp] theorem map_comp_inOrder (f : β → γ) : Output.map f ∘ inOrder = inOrder ∘ f := rfl

end Output

variable {α : Type*} {w h : ℤ}

/-! ### The walk over what is held -/

/-- The awaited number passes what has come. -/
def advance : ℤ → List (ℤ × α) → ℤ
  | n, [] => n
  | n, p :: ps => if n < p.1 then n else advance (if p.1 = n then n + 1 else n) ps

/-- What is held is in the order of its numbers, each number once. -/
def NumSorted (l : List (ℤ × α)) : Prop := l.Pairwise fun p q => p.1 < q.1

theorem le_advance (n : ℤ) (l : List (ℤ × α)) : n ≤ advance n l := by
  induction l generalizing n with
  | nil => exact le_refl n
  | cons p ps ih =>
    rw [advance]
    split
    · exact le_refl n
    · exact le_trans (by split <;> omega) (ih _)

/-- The awaited number is not held after the walk. -/
theorem advance_ne {l : List (ℤ × α)} (hl : NumSorted l) (n : ℤ) :
    ∀ p ∈ l, p.1 ≠ advance n l := by
  induction l generalizing n with
  | nil => exact fun p hp => nomatch hp
  | cons p ps ih =>
    rw [NumSorted, List.pairwise_cons] at hl
    obtain ⟨hp, hps⟩ := hl
    rw [advance]
    split
    · next hn =>
      -- everything held lies behind its first number, and that one is ahead
      intro q hq
      rcases List.mem_cons.mp hq with rfl | hq
      · omega
      · have := hp q hq
        omega
    · next hn =>
      intro q hq
      rcases List.mem_cons.mp hq with rfl | hq
      · have := le_advance (if q.1 = n then n + 1 else n) ps
        split at this <;> split <;> omega
      · exact ih hps _ q hq

/-- The walk passes only what is held. -/
theorem mem_of_lt_advance {l : List (ℤ × α)} {n m : ℤ} (hlo : n ≤ m) (hhi : m < advance n l) :
    ∃ p ∈ l, p.1 = m := by
  induction l generalizing n with
  | nil =>
    rw [advance] at hhi
    omega
  | cons p ps ih =>
    rw [advance] at hhi
    split at hhi
    · omega
    · by_cases hpm : p.1 = m
      · exact ⟨p, List.mem_cons_self, hpm⟩
      · have hle : (if p.1 = n then n + 1 else n) ≤ m := by split <;> omega
        obtain ⟨q, hq, hqm⟩ := ih hle hhi
        exact ⟨q, List.mem_cons_of_mem p hq, hqm⟩

/-- The walk stays below what bounds the list. -/
theorem advance_le {l : List (ℤ × α)} {n b : ℤ} (hn : n ≤ b) (hl : ∀ p ∈ l, p.1 < b) :
    advance n l ≤ b := by
  by_contra hlt
  obtain ⟨p, hp, hpb⟩ := mem_of_lt_advance hn (not_le.mp hlt)
  exact absurd (hl p hp) (not_lt.mpr (le_of_eq hpb.symm))

/-- A walk that has passed its first number already. -/
theorem advance_succ {l : List (ℤ × α)} (hl : NumSorted l) {n : ℤ} (hge : ∀ p ∈ l, n ≤ p.1)
    (hmem : ∃ p ∈ l, p.1 = n) : advance (n + 1) l = advance n l := by
  cases l with
  | nil =>
    obtain ⟨p, hp, -⟩ := hmem
    exact nomatch hp
  | cons q l =>
    have hq : q.1 = n := by
      obtain ⟨p, hp, rfl⟩ := hmem
      rcases List.mem_cons.mp hp with rfl | hp
      · rfl
      · have hlt := (List.pairwise_cons.mp hl).1 p hp
        have hle := hge q List.mem_cons_self
        omega
    rw [advance, advance, if_neg (by omega), if_neg (by omega), if_neg (by omega), if_pos hq]

/-- A sorted list is cut at a number that is not in it. -/
theorem NumSorted.span_eq {l : List (ℤ × α)} (hl : NumSorted l) {k : ℤ} (hk : ∀ p ∈ l, p.1 ≠ k)
    {P : α → Bool} (hP : ∀ p ∈ l, P p.2 = decide (p.1 < k)) :
    (l.map Prod.snd).takeWhile P = (l.filter fun p => p.1 < k).map Prod.snd ∧
      (l.map Prod.snd).dropWhile P = (l.filter fun p => k < p.1).map Prod.snd := by
  induction l with
  | nil => exact ⟨rfl, rfl⟩
  | cons q l ih =>
    obtain ⟨hq, hl'⟩ := List.pairwise_cons.mp hl
    have hPq := hP q List.mem_cons_self
    have hkq := hk q List.mem_cons_self
    rw [List.map_cons, List.takeWhile_cons, List.dropWhile_cons, List.filter_cons, List.filter_cons,
      hPq]
    by_cases hlt : q.1 < k
    · obtain ⟨ih₁, ih₂⟩ := ih hl' (fun p hp => hk p (List.mem_cons_of_mem q hp))
        fun p hp => hP p (List.mem_cons_of_mem q hp)
      simp only [hlt, decide_true, if_true, not_lt_of_gt hlt, decide_false, Bool.false_eq_true,
        if_false, List.map_cons, ih₁, ih₂, and_self]
    · -- everything behind `q` is beyond `k` as well
      have hgt : k < q.1 := by omega
      have hbelow : l.filter (fun p => p.1 < k) = [] := by
        refine List.filter_eq_nil_iff.mpr fun p hp => ?_
        have := hq p hp
        simp only [decide_eq_true_eq, not_lt]
        omega
      have habove : l.filter (fun p => k < p.1) = l := by
        refine List.filter_eq_self.mpr fun p hp => ?_
        have := hq p hp
        simp only [decide_eq_true_eq]
        omega
      simp only [hlt, decide_false, Bool.false_eq_true, if_false, hgt, decide_true, if_true, hbelow,
        habove, List.map_nil, List.map_cons, and_self]

/-! ### The window -/

/-- A buffer of `w` places. -/
structure Window (w : ℤ) (α : Type*) where
  /-- The number that is awaited. -/
  next : ℤ
  held : List (ℤ × α)
  sorted : NumSorted held
  ahead : ∀ p ∈ held, next < p.1 ∧ p.1 < next + w

namespace Window

/-- Nothing is held, and `n` is awaited. -/
def start (n : ℤ) : Window w α := ⟨n, [], List.Pairwise.nil, fun _ hp => nomatch hp⟩

/-- The window moves to `n` and on over what has come. -/
def settle (n : ℤ) (l : List (ℤ × α)) (hl : NumSorted l) (hw : ∀ p ∈ l, p.1 < n + w) :
    List (Output (ℤ × α)) × Window w α :=
  ((l.filter fun p => p.1 < advance n l).map .inOrder,
    { next := advance n l
      held := l.filter fun p => advance n l < p.1
      sorted := hl.filter _
      ahead := fun p hp => by
        have hmem := List.mem_filter.mp hp
        have hn := le_advance n l
        exact ⟨of_decide_eq_true hmem.2, lt_of_lt_of_le (hw p hmem.1) (by omega)⟩ })

/-- A new number in its place. -/
def place (x : ℤ × α) (l : List (ℤ × α)) : List (ℤ × α) :=
  l.orderedInsert (fun p q => p.1 ≤ q.1) x

theorem mem_place {x p : ℤ × α} {l : List (ℤ × α)} : p ∈ place x l ↔ p = x ∨ p ∈ l :=
  List.mem_orderedInsert _

theorem numSorted_place {x : ℤ × α} {l : List (ℤ × α)} (hl : NumSorted l)
    (hx : ∀ p ∈ l, p.1 ≠ x.1) : NumSorted (place x l) := by
  induction l with
  | nil => exact List.pairwise_singleton _ _
  | cons p ps ih =>
    have hne := hx p List.mem_cons_self
    obtain ⟨hp, hps⟩ := List.pairwise_cons.mp hl
    rw [place, List.orderedInsert_cons]
    split
    · next hle =>
      refine List.pairwise_cons.mpr ⟨fun q hq => ?_, hl⟩
      rcases List.mem_cons.mp hq with rfl | hq
      · omega
      · have := hp q hq
        omega
    · next hle =>
      have hrest := ih hps fun q hq => hx q (List.mem_cons_of_mem p hq)
      refine List.pairwise_cons.mpr ⟨fun q hq => ?_, hrest⟩
      rcases mem_place.mp hq with rfl | hq
      · omega
      · exact hp q hq

/-- Where an arrival `n` moves the window to. -/
def reach (W : Window w α) (n : ℤ) : ℤ := max W.next (n - w + 1)

theorem held_lt (W : Window w α) {n : ℤ} {p : ℤ × α} (hn : W.next ≤ n) (hp : p ∈ W.held) :
    p.1 < n + w := by
  have := (W.ahead p hp).2
  omega

theorem place_lt (W : Window w α) (x : ℤ × α) : ∀ p ∈ place x W.held, p.1 < W.reach x.1 + w := by
  intro p hp
  rcases mem_place.mp hp with rfl | hp
  · have := le_max_right W.next (p.1 - w + 1)
    rw [reach]
    omega
  · exact W.held_lt (le_max_left _ _) hp

/-- An arrival. -/
def receive (W : Window w α) (x : ℤ × α) : List (Output (ℤ × α)) × Window w α :=
  if x.1 < W.next then ([.late x], W)
  else if hx : ∀ p ∈ W.held, p.1 ≠ x.1 then
    settle (W.reach x.1) (place x W.held) (numSorted_place W.sorted hx) (W.place_lt x)
  else ([.duplicate x], W)

/-- A timeout: the gap before the first number held is given up. -/
def skip (W : Window w α) : List (Output (ℤ × α)) × Window w α :=
  match hW : W.held with
  | [] => ([], W)
  | p :: _ => settle p.1 W.held W.sorted fun _ hq =>
      W.held_lt (le_of_lt (W.ahead p (by rw [hW]; exact List.mem_cons_self)).1) hq

/-- A sorted list of numbers between two bounds is short. -/
theorem numSorted_length_lt {l : List (ℤ × α)} (hl : NumSorted l) {a b : ℤ} (hab : a < b)
    (hb : ∀ p ∈ l, a < p.1 ∧ p.1 < b) : (l.length : ℤ) < b - a := by
  induction l generalizing a with
  | nil =>
    rw [List.length_nil]
    omega
  | cons p l ih =>
    obtain ⟨hp, hl'⟩ := List.pairwise_cons.mp hl
    have hpb := hb p List.mem_cons_self
    have hlen := ih hl' hpb.2 fun q hq => ⟨hp q hq, (hb q (List.mem_cons_of_mem p hq)).2⟩
    rw [List.length_cons]
    omega

/-- Fewer than `w` are held. -/
theorem length_held_lt (W : Window w α) (hw : 0 < w) : (W.held.length : ℤ) < w := by
  have hlen := numSorted_length_lt W.sorted (show W.next < W.next + w by omega) W.ahead
  omega

/-! ### What a step does -/

/-- Whatever is handed on before something that is released in its turn has a smaller number. -/
def Ordered (o : List (Output (ℤ × α))) : Prop :=
  o.Pairwise fun x y => ∀ p ∈ x.passed, ∀ q ∈ y.released, p.1 < q.1

/-- What is put out while the awaited number goes from `n` to `n'`. -/
structure Passes (o : List (Output (ℤ × α))) (n n' : ℤ) : Prop where
  ordered : Ordered o
  above : ∀ x ∈ o, ∀ q ∈ x.released, n ≤ q.1
  below : ∀ x ∈ o, ∀ p ∈ x.passed, p.1 < n'
  mono : n ≤ n'

theorem mem_settle {n : ℤ} {l : List (ℤ × α)} {hl : NumSorted l} {hw : ∀ p ∈ l, p.1 < n + w}
    {x : Output (ℤ × α)} (hx : x ∈ (settle n l hl hw).1) :
    ∃ p ∈ l, x = .inOrder p ∧ p.1 < advance n l := by
  obtain ⟨p, hp, rfl⟩ := List.mem_map.mp hx
  obtain ⟨hmem, hlt⟩ := List.mem_filter.mp hp
  exact ⟨p, hmem, rfl, of_decide_eq_true hlt⟩

theorem settle_passes {n m : ℤ} {l : List (ℤ × α)} (hl : NumSorted l)
    (hw : ∀ p ∈ l, p.1 < n + w) (hmn : m ≤ n) (hm : ∀ p ∈ l, m ≤ p.1) :
    Passes (settle n l hl hw).1 m (settle n l hl hw).2.next where
  ordered := by
    refine List.pairwise_map.mpr ((hl.filter _).imp fun {p q} hpq => ?_)
    rintro _ ⟨⟩ _ ⟨⟩
    exact hpq
  above := fun x hx q hq => by
    obtain ⟨p, hp, rfl, -⟩ := mem_settle hx
    cases hq
    exact hm q hp
  below := fun x hx q hq => by
    obtain ⟨p, -, rfl, hlt⟩ := mem_settle hx
    cases hq
    exact hlt
  mono := le_trans hmn (le_advance n l)

/-- A move of the window loses nothing. -/
theorem settle_perm {n : ℤ} {l : List (ℤ × α)} (hl : NumSorted l) (hw : ∀ p ∈ l, p.1 < n + w) :
    ((settle n l hl hw).1.map Output.val ++ (settle n l hl hw).2.held).Perm l := by
  have hkept : l.filter (fun p => advance n l < p.1) =
      l.filter fun p => !decide (p.1 < advance n l) := by
    refine List.filter_congr fun p hp => ?_
    have := advance_ne hl n p hp
    rw [← decide_not, decide_eq_decide]
    omega
  change ((List.map _ (List.map _ _)) ++ _).Perm l
  rw [List.map_map, show Output.val ∘ Output.inOrder = (id : ℤ × α → ℤ × α) from rfl, List.map_id]
  change (_ ++ l.filter _).Perm l
  rw [hkept]
  exact List.filter_append_perm _ l

theorem passes_one {x : Output (ℤ × α)} {n : ℤ} (hr : x.released = none)
    (hp : ∀ p ∈ x.passed, p.1 < n) : Passes [x] n n where
  ordered := List.pairwise_singleton _ _
  above := fun y hy q hq => by
    rw [List.mem_singleton.mp hy, hr] at hq
    cases hq
  below := fun y hy => by
    rw [List.mem_singleton.mp hy]
    exact hp
  mono := le_refl n

theorem passes_nil (n : ℤ) : Passes ([] : List (Output (ℤ × α))) n n :=
  ⟨List.Pairwise.nil, fun _ hx => (nomatch hx), fun _ hx => (nomatch hx), le_refl n⟩

theorem receive_passes (W : Window w α) (x : ℤ × α) :
    Passes (W.receive x).1 W.next (W.receive x).2.next := by
  rw [receive]
  split
  · next hlt =>
    refine passes_one rfl ?_
    rintro _ ⟨⟩
    exact hlt
  · next hge =>
    split
    · refine settle_passes _ _ (le_max_left _ _) fun p hp => ?_
      rcases mem_place.mp hp with rfl | hp
      · exact not_lt.mp hge
      · exact le_of_lt (W.ahead p hp).1
    · exact passes_one rfl fun _ hp => nomatch hp

theorem receive_perm (W : Window w α) (x : ℤ × α) :
    ((W.receive x).1.map Output.val ++ (W.receive x).2.held).Perm (x :: W.held) := by
  rw [receive]
  split
  · exact List.Perm.refl _
  · split
    · exact (settle_perm _ _).trans (List.perm_orderedInsert _ _ _)
    · exact List.Perm.refl _

/-- A timeout passes to the first number held. -/
theorem skip_eq (W : Window w α) : W.skip = ([], W) ∨
    ∃ p ∈ W.held, ∃ hw, W.skip = settle p.1 W.held W.sorted hw := by
  rw [skip]
  split
  · exact Or.inl rfl
  · next p ps heq =>
    have hp : p ∈ W.held := by
      rw [heq]
      exact List.mem_cons_self
    exact Or.inr ⟨p, hp, fun q hq => W.held_lt (le_of_lt (W.ahead p hp).1) hq, rfl⟩

theorem skip_passes (W : Window w α) : Passes W.skip.1 W.next W.skip.2.next := by
  obtain heq | ⟨p, hp, hw, heq⟩ := W.skip_eq
  · rw [heq]
    exact passes_nil _
  · rw [heq]
    exact settle_passes _ _ (le_of_lt (W.ahead p hp).1) fun q hq => le_of_lt (W.ahead q hq).1

/-! ### Runs -/

/-- The calls of a buffer: an arrival with its number on the wire, or a timeout. -/
inductive Op (α : Type*)
  | receive (s : ℤ) (a : α)
  | skip

/-- The number that is meant; the first one is taken as it is. -/
def number (h : ℤ) : Option (Window w α) → ℤ → ℤ
  | none, s => s
  | some W, s => Serial.unwrap h W.next s

/-- The window that sees an arrival; the first one opens it. -/
def opened : Option (Window w α) → ℤ → Window w α
  | none, n => start n
  | some W, _ => W

/-- A buffer of `w` places with numbers modulo `2 * h`. -/
def machine (h w : ℤ) (α : Type*) :
    Machine (Option (Window w α)) (Op α) (List (Output (ℤ × α))) where
  step
    | s, .receive a x =>
      let r := (opened s (number h s a)).receive (number h s a, x)
      some (r.1, some r.2)
    | none, .skip => some ([], none)
    | some W, .skip => some (W.skip.1, some W.skip.2)

/-- What is held. -/
def contents : Option (Window w α) → List (ℤ × α)
  | none => []
  | some W => W.held

/-- A step puts out what fits behind everything handed on before. -/
theorem step_passes {s s' : Option (Window w α)} {op : Op α} {o : List (Output (ℤ × α))}
    (hstep : (machine h w α).step s op = some (o, s')) :
    (s = none ∧ s' = none ∧ o = []) ∨
      ∃ n W', s' = some W' ∧ (∀ W, s = some W → n = W.next) ∧ Passes o n W'.next := by
  cases op with
  | receive a x =>
    obtain ⟨rfl, rfl⟩ := Prod.mk.inj (Option.some.inj hstep)
    refine Or.inr ⟨(opened s (number h s a)).next, _, rfl, ?_, receive_passes _ _⟩
    rintro W rfl
    rfl
  | skip =>
    cases s with
    | none =>
      obtain ⟨rfl, rfl⟩ := Prod.mk.inj (Option.some.inj hstep)
      exact Or.inl ⟨rfl, rfl, rfl⟩
    | some W =>
      obtain ⟨rfl, rfl⟩ := Prod.mk.inj (Option.some.inj hstep)
      refine Or.inr ⟨W.next, _, rfl, ?_, W.skip_passes⟩
      rintro _ ⟨⟩
      rfl

/-- The history of the order: what was handed on lies below the number that is awaited. -/
structure HandedOn (outs : List (Output (ℤ × α))) (s : Option (Window w α)) : Prop where
  ordered : Ordered outs
  first : s = none → outs = []
  below : ∀ W, s = some W → ∀ x ∈ outs, ∀ p ∈ x.passed, p.1 < W.next

theorem HandedOn.step {outs o : List (Output (ℤ × α))} {s s' : Option (Window w α)} {op : Op α}
    (hI : HandedOn outs s) (hstep : (machine h w α).step s op = some (o, s')) :
    HandedOn (outs ++ o) s' := by
  obtain ⟨rfl, rfl, rfl⟩ | ⟨n, W', rfl, hn, hP⟩ := step_passes hstep
  · rwa [List.append_nil]
  · have hlt : ∀ x ∈ outs, ∀ p ∈ x.passed, p.1 < n := by
      cases s with
      | none =>
        rw [hI.first rfl]
        exact fun _ hx => nomatch hx
      | some W =>
        rw [hn W rfl]
        exact hI.below W rfl
    refine ⟨List.pairwise_append.mpr ⟨hI.ordered, hP.ordered, fun x hx y hy p hp q hq => ?_⟩,
      fun h => (nomatch h), ?_⟩
    · exact lt_of_lt_of_le (hlt x hx p hp) (hP.above y hy q hq)
    · rintro _ ⟨⟩ x hx p hp
      rcases List.mem_append.mp hx with hx | hx
      · exact lt_of_lt_of_le (hlt x hx p hp) hP.mono
      · exact hP.below x hx p hp

/-- Whatever is handed on before something that is released in its turn has a smaller number, over
any run. -/
theorem machine_ordered {s : Option (Window w α)} {ops : List (Op α)}
    {outs : List (Output (ℤ × α))} (hrun : (machine h w α).trace none ops = some (outs, s)) :
    Ordered outs := by
  have hinit : HandedOn [] (none : Option (Window w α)) :=
    ⟨List.Pairwise.nil, fun _ => rfl, fun _ _ _ hx => (nomatch hx)⟩
  have hend : HandedOn outs s := Machine.trace_inv (P := fun _ => HandedOn)
    (fun _ _ _ _ _ _ => HandedOn.step) hinit hrun
  exact hend.ordered

/-! ### Bursts -/

/-- Consecutive numbers from `n₀` on, in an order of arrival in which none overtakes another by `w`
places. -/
structure Burst (w n₀ : ℤ) (xs : List (ℤ × α)) : Prop where
  nodup : (xs.map Prod.fst).Nodup
  mem_iff : ∀ m, m ∈ xs.map Prod.fst ↔ n₀ ≤ m ∧ m < n₀ + xs.length
  overtake : xs.Pairwise fun x y => x.1 < y.1 + w
  /-- The first arrival has the first number. -/
  first : ∀ x ∈ xs.head?, x.1 = n₀

/-- After a part of a burst: all numbers below the awaited one have come and are released. -/
structure Caught (n₀ : ℤ) (pre : List (ℤ × α)) (outs : List (Output (ℤ × α))) (W : Window w α) :
    Prop where
  le : n₀ ≤ W.next
  below : ∀ m, n₀ ≤ m → m < W.next → m ∈ pre.map Prod.fst
  released : ∀ x ∈ outs, ∃ p, x = .inOrder p ∧ p.1 < W.next
  ordered : Ordered outs
  perm : (outs.map Output.val ++ W.held).Perm pre

variable {n₀ : ℤ} {pre post : List (ℤ × α)} {outs : List (Output (ℤ × α))} {W : Window w α}
  {x : ℤ × α}

/-- The awaited number has not come. -/
theorem Caught.next_notMem (hC : Caught n₀ pre outs W) : W.next ∉ pre.map Prod.fst := by
  intro hmem
  obtain ⟨p, hp, hpn⟩ := List.mem_map.mp hmem
  rcases List.mem_append.mp (hC.perm.mem_iff.mpr hp) with hp | hp
  · obtain ⟨y, hy, rfl⟩ := List.mem_map.mp hp
    obtain ⟨q, rfl, hq⟩ := hC.released y hy
    exact absurd hpn (ne_of_lt hq)
  · exact absurd hpn.symm (ne_of_lt (W.ahead p hp).1)

/-- The next arrival of a burst lies in the window. -/
theorem Caught.next_le (hC : Caught n₀ pre outs W) (hw : 0 < w)
    (hB : Burst w n₀ (pre ++ x :: post)) : W.next ≤ x.1 ∧ x.1 < W.next + w := by
  have hnew : x.1 ∉ pre.map Prod.fst := by
    have hnd := hB.nodup
    rw [List.map_append, List.nodup_append] at hnd
    exact fun hmem => hnd.2.2 _ hmem _ (List.mem_map_of_mem List.mem_cons_self) rfl
  have hx : x ∈ pre ++ x :: post := List.mem_append_right _ List.mem_cons_self
  obtain ⟨hlo, hhi⟩ := (hB.mem_iff x.1).mp (List.mem_map_of_mem hx)
  have hge : W.next ≤ x.1 := not_lt.mp fun hlt => hnew (hC.below x.1 hlo hlt)
  refine ⟨hge, ?_⟩
  rcases eq_or_lt_of_le hge with heq | hlt
  · omega
  · -- the awaited number is part of the burst and comes later
    have hmem := (hB.mem_iff W.next).mpr ⟨hC.le, by omega⟩
    rw [List.map_append, List.map_cons] at hmem
    rcases List.mem_append.mp hmem with hmem | hmem
    · exact absurd hmem hC.next_notMem
    · rcases List.mem_cons.mp hmem with heq | hmem
      · omega
      · obtain ⟨y, hy, hyn⟩ := List.mem_map.mp hmem
        have hover := (List.pairwise_cons.mp (List.pairwise_append.mp hB.overtake).2.1).1 y hy
        omega

/-- The next arrival of a burst is placed, and what has come is released. -/
theorem Caught.receive (hC : Caught n₀ pre outs W) (hw : 0 < w)
    (hB : Burst w n₀ (pre ++ x :: post)) :
    Caught n₀ (pre ++ [x]) (outs ++ (W.receive x).1) (W.receive x).2 := by
  obtain ⟨hge, hlt⟩ := hC.next_le hw hB
  have hP := receive_passes W x
  have hperm := receive_perm W x
  have hnew : ∀ p ∈ W.held, p.1 ≠ x.1 := by
    intro p hp heq
    have hmem : x.1 ∈ pre.map Prod.fst :=
      List.mem_map.mpr ⟨p, hC.perm.mem_iff.mp (List.mem_append_right _ hp), heq⟩
    have hnd := hB.nodup
    rw [List.map_append, List.nodup_append] at hnd
    exact hnd.2.2 _ hmem _ (List.mem_map_of_mem List.mem_cons_self) rfl
  have hreach : W.reach x.1 = W.next := max_eq_left (by omega)
  have heq : W.receive x = settle (W.reach x.1) (place x W.held)
      (numSorted_place W.sorted hnew) (W.place_lt x) := by
    rw [Window.receive, if_neg (not_lt.mpr hge), dif_pos hnew]
  refine ⟨le_trans hC.le hP.mono, fun m hlo hhi => ?_, fun y hy => ?_, ?_, ?_⟩
  · rw [List.map_append]
    by_cases hm : m < W.next
    · exact List.mem_append_left _ (hC.below m hlo hm)
    · rw [heq] at hhi
      have hlo' : W.reach x.1 ≤ m := by omega
      obtain ⟨p, hp, rfl⟩ := mem_of_lt_advance hlo' hhi
      rcases mem_place.mp hp with rfl | hp
      · exact List.mem_append_right _ List.mem_cons_self
      · exact List.mem_append_left _ (List.mem_map_of_mem
          (hC.perm.mem_iff.mp (List.mem_append_right _ hp)))
  · rcases List.mem_append.mp hy with hy | hy
    · obtain ⟨p, rfl, hp⟩ := hC.released y hy
      exact ⟨p, rfl, lt_of_lt_of_le hp hP.mono⟩
    · rw [heq] at hy ⊢
      obtain ⟨p, -, rfl, hp⟩ := mem_settle hy
      exact ⟨p, rfl, hp⟩
  · refine List.pairwise_append.mpr ⟨hC.ordered, hP.ordered, fun y hy z hz p hp q hq => ?_⟩
    obtain ⟨p', rfl, hlt'⟩ := hC.released y hy
    cases hp
    exact lt_of_lt_of_le hlt' (hP.above z hz q hq)
  · rw [List.map_append, List.append_assoc]
    refine (List.Perm.append_left _ hperm).trans ?_
    refine List.perm_middle.trans ((List.Perm.cons x hC.perm).trans ?_)
    exact (List.perm_append_singleton x pre).symm

/-- The call by which an arrival is seen: its number on the wire. -/
def Op.wire (h : ℤ) (x : ℤ × α) : Op α := .receive (x.1 % (2 * h)) x.2

/-- The rest of a burst is released as it comes. -/
theorem Caught.run (hC : Caught n₀ pre outs W) (hw : 0 < w) (hwh : w ≤ h)
    (hB : Burst w n₀ (pre ++ post)) :
    ∃ outs' W', (machine h w α).trace (some W) (post.map (Op.wire h)) = some (outs', some W') ∧
      Caught n₀ (pre ++ post) (outs ++ outs') W' := by
  induction post generalizing pre outs W with
  | nil =>
    refine ⟨[], W, rfl, ?_⟩
    rwa [List.append_nil, List.append_nil]
  | cons x post ih =>
    obtain ⟨hge, hlt⟩ := hC.next_le hw hB
    have hnum : number h (some W) (x.1 % (2 * h)) = x.1 :=
      Serial.unwrap_eq (Int.emod_emod_of_dvd _ dvd_rfl) (by omega) (by omega)
    have hstep : (machine h w α).step (some W) (Op.wire h x) =
        some ((W.receive x).1, some (W.receive x).2) := by
      change some (((opened (some W) (number h (some W) (x.1 % (2 * h)))).receive
        (number h (some W) (x.1 % (2 * h)), x.2)).1, _) = _
      rw [hnum]
      rfl
    obtain ⟨outs', W', hrun, hC'⟩ := ih (hC.receive hw hB) (by rwa [List.append_assoc])
    refine ⟨(W.receive x).1 ++ outs', W', Machine.trace_cons_of hstep hrun, ?_⟩
    rwa [List.append_assoc, List.append_assoc] at hC'

/-- A whole burst is released, and nothing is held. -/
theorem Caught.done {xs : List (ℤ × α)} (hC : Caught n₀ xs outs W) (hB : Burst w n₀ xs) :
    W.held = [] ∧ ∃ ys : List (ℤ × α), outs = ys.map .inOrder ∧ NumSorted ys ∧ ys.Perm xs := by
  have hheld : W.held = [] := by
    by_contra hne
    obtain ⟨p, hp⟩ := List.exists_mem_of_ne_nil _ hne
    -- the awaited number is below one that is held, so it has come
    have hmem := List.mem_map_of_mem (f := Prod.fst)
      (hC.perm.mem_iff.mp (List.mem_append_right (outs.map Output.val) hp))
    have hlast := ((hB.mem_iff p.1).mp hmem).2
    have hahead := (W.ahead p hp).1
    exact hC.next_notMem ((hB.mem_iff W.next).mpr ⟨hC.le, by omega⟩)
  have houts : outs = (outs.map Output.val).map .inOrder := by
    rw [List.map_map]
    refine (List.map_id outs).symm.trans (List.map_congr_left fun x hx => ?_)
    obtain ⟨p, rfl, -⟩ := hC.released x hx
    rfl
  have hperm := hC.perm
  rw [hheld, List.append_nil] at hperm
  refine ⟨hheld, outs.map Output.val, houts, ?_, hperm⟩
  refine List.pairwise_map.mpr (hC.ordered.imp_of_mem fun {x y} hx hy hxy => ?_)
  obtain ⟨p, rfl, -⟩ := hC.released x hx
  obtain ⟨q, rfl, -⟩ := hC.released y hy
  exact hxy p rfl q rfl

/-- Arrivals of which none overtakes another by `w` places are released completely and in order,
and nothing is held back. -/
theorem machine_complete (hw : 0 < w) (hwh : w ≤ h) {xs : List (ℤ × α)} (hB : Burst w n₀ xs)
    (h₀ : 0 ≤ n₀) (h₁ : n₀ < 2 * h) :
    ∃ ys s, (machine h w α).trace none (xs.map (Op.wire h)) = some (ys.map .inOrder, s) ∧
      NumSorted ys ∧ ys.Perm xs ∧ contents s = [] := by
  cases xs with
  | nil => exact ⟨[], none, rfl, List.Pairwise.nil, List.Perm.refl _, rfl⟩
  | cons x xs =>
    have hstart : Caught n₀ [] [] (start n₀ : Window w α) :=
      ⟨le_refl n₀, fun m hlo hhi => absurd hlo (not_le.mpr hhi), fun _ hx => (nomatch hx),
        List.Pairwise.nil, List.Perm.refl _⟩
    obtain ⟨outs, W, hrun, hC⟩ := hstart.run hw hwh hB
    obtain ⟨hheld, ys, rfl, hsorted, hperm⟩ := hC.done hB
    refine ⟨ys, some W, ?_, hsorted, hperm, hheld⟩
    -- the first number opens the window at itself
    have hraw : x.1 % (2 * h) = n₀ := by
      rw [hB.first x rfl, Int.emod_eq_of_lt h₀ h₁]
    have hnum : number h (some (start n₀ : Window w α)) (x.1 % (2 * h)) = n₀ := by
      have hself : Serial.unwrap h n₀ n₀ = n₀ := Serial.unwrap_eq rfl (by omega) (by omega)
      rw [hraw]
      exact hself
    have hstep : (machine h w α).step none (Op.wire h x) =
        (machine h w α).step (some (start n₀)) (Op.wire h x) := by
      change some (((opened none _).receive (number h none (x.1 % (2 * h)), x.2)).1, _) =
        some (((opened (some (start n₀)) _).receive
          (number h (some (start n₀)) (x.1 % (2 * h)), x.2)).1, _)
      rw [hnum, hraw]
      rfl
    rw [List.map_cons, Machine.trace_cons, hstep]
    exact hrun

end Window

end DriverLib
