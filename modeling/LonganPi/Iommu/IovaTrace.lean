import LonganPi.Lib.Chain
import LonganPi.Lib.Run
import Mathlib.Data.Nat.Basic

/-!
# The trace of the IOVA allocations

With `CONFIG_AW_IOMMU_IOVA_TRACE` two hooks keep lists of what the IOVA allocator does:
`sunxi_iommu_alloc_iova` appends a record to the list from `info_head`, `sunxi_iommu_free_iova`
looks the first record of the range up, appends a copy of it to the list from `info_head_free` and
unlinks it. The hooks of `sunxi-iommu-v1.c` and `sunxi-iommu-v3.c` are the same code.

Neither hook sets the `next` field of the record it appends: it stays what it was when `kmalloc`
handed the memory out. And a free that finds no record has appended to the freed list already when
it reads the record it has not found. `Traced` says what the lists should hold, and the lists hold
it as long as every record comes with a null pointer in its `next` field and every free finds its
record (`iova_trace_iff`).

What `kmalloc` answers, the address and what the memory holds, is an argument of a call, and it
succeeds. An access to what is not a record is a fault, and nothing follows it.
-/

open DriverLib

namespace LonganPi.Iommu

/-! ### The code -/

/-- `sizeof(info_p->dev_name)` -/
def DEV_NAME_SIZE : ℕ := 32

/-- `struct sunxi_iommu_iova_info` without its link. -/
structure IovaInfo where
  devName : List UInt8
  iova : ℕ
  size : ℕ
  timestamp : ℕ
  deriving DecidableEq, Repr

/-- The memory that `kmalloc` hands out and what it holds. -/
structure Kmalloc where
  addr : ℕ
  content : Node IovaInfo

/-- The lists of the hooks. -/
structure IovaTrace where
  infoHead : Option ℕ
  infoTail : Option ℕ
  infoHeadFree : Option ℕ
  infoTailFree : Option ℕ
  mem : Arena (Node IovaInfo)
  -- ghost: the calls of `kmalloc`, which bounds the loop of a free
  allocated : ℕ
  -- ghost: a loop did not end within its bound
  hung : Bool

/-- The record is the one of the range. -/
def Matches (iova size : ℕ) (info : IovaInfo) : Prop := info.iova = iova ∧ info.size = size

instance (iova size : ℕ) : DecidablePred (Matches iova size) :=
  fun _ => inferInstanceAs (Decidable (_ ∧ _))

/-- `r->next = q` -/
def setNext (M : Arena (Node IovaInfo)) (r q : Option ℕ) : Arena (Node IovaInfo) :=
  M.modifyPtr r fun n => { n with next := q }

/-- The fields of the record at `p` are set. -/
def setInfo (M : Arena (Node IovaInfo)) (p : ℕ) (info : IovaInfo) : Arena (Node IovaInfo) :=
  M.modify p fun n => { n with val := info }

/-- The record at `p` goes behind the last record of a list, if there is one. -/
def linkTail (M : Arena (Node IovaInfo)) (head tail : Option ℕ) (p : ℕ) : Arena (Node IovaInfo) :=
  if head = none then M else setNext M tail (some p)

/-- How the search of a free ends. -/
inductive Search where
  -- `info_p` and `info_prev` behind the loop
  | stopped (infoP infoPrev : Option ℕ)
  | oops
  | hung

/-- The loop of a free. -/
def search (M : Arena (Node IovaInfo)) (iova size : ℕ) : ℕ → Option ℕ → Option ℕ → Search
  | _, none, infoPrev => .stopped none infoPrev
  | 0, some _, _ => .hung
  | fuel + 1, some p, infoPrev =>
    match M.block p with
    | none => .oops
    | some n =>
      if Matches iova size n.val then .stopped (some p) infoPrev
      else search M iova size fuel n.next (some p)

namespace IovaTrace

/-- Both lists are empty. -/
def init : IovaTrace := ⟨none, none, none, none, Arena.empty, 0, false⟩

/-- `kmalloc` -/
def kmalloc (s : IovaTrace) (k : Kmalloc) : IovaTrace :=
  { s with mem := s.mem.alloc k.addr k.content, allocated := s.allocated + 1 }

/-- An access to memory that is not there. -/
def oops (s : IovaTrace) : IovaTrace := { s with mem := { s.mem with fault := true } }

/-- `strcpy` to the name of a record, which has to end inside of its array. -/
def strcpyName (s : IovaTrace) (name : List UInt8) : IovaTrace :=
  if name.length < DEV_NAME_SIZE then s else s.oops

/-- `sunxi_iommu_alloc_iova`, with the name of the device and the time. -/
def sunxiIommuAllocIova (s : IovaTrace) (devName : List UInt8) (iova size now : ℕ)
    (k : Kmalloc) : IovaTrace :=
  let s := s.kmalloc k
  let s := { s with
    mem := linkTail s.mem s.infoHead s.infoTail k.addr
    infoHead := if s.infoHead = none then some k.addr else s.infoHead
    infoTail := some k.addr }
  let s := s.strcpyName devName
  { s with mem := setInfo s.mem k.addr ⟨devName, iova, size, now⟩ }

/-- A new record goes to the end of the freed list. -/
def appendFree (s : IovaTrace) (k : Kmalloc) : IovaTrace :=
  let s := s.kmalloc k
  { s with
    mem := linkTail s.mem s.infoHeadFree s.infoTailFree k.addr
    infoHeadFree := if s.infoHeadFree = none then some k.addr else s.infoHeadFree
    infoTailFree := some k.addr }

/-- The record at `p` is taken off the list, and freed. -/
def unlink (s : IovaTrace) (p : ℕ) (infoPrev : Option ℕ) : IovaTrace :=
  let next := (s.mem.block p).bind Node.next
  let s :=
    if some p = s.infoHead then { s with infoHead := next }
    else if some p = s.infoTail then
      { s with infoTail := infoPrev, mem := setNext s.mem infoPrev none }
    else { s with mem := setNext s.mem infoPrev next }
  { s with mem := s.mem.free p }

/-- The part of a free behind its loop. -/
def moveToFree (s : IovaTrace) (infoP infoPrev : Option ℕ) (k : Kmalloc) : IovaTrace :=
  let s := s.appendFree k
  match infoP with
  -- the name of no record is read
  | none => s.oops
  | some p =>
    match s.mem.block p with
    | none => s.oops
    | some n => { s with mem := setInfo s.mem k.addr n.val }.unlink p infoPrev

/-- `sunxi_iommu_free_iova` -/
def sunxiIommuFreeIova (s : IovaTrace) (iova size : ℕ) (k : Kmalloc) : IovaTrace :=
  if s.infoHead = none then s
  else match search s.mem iova size s.allocated s.infoHead s.infoHead with
  | .stopped infoP infoPrev => s.moveToFree infoP infoPrev k
  | .oops => s.oops
  | .hung => { s with hung := true }

end IovaTrace

/-- The calls of the hooks. -/
inductive IovaOp where
  | alloc (devName : List UInt8) (iova size now : ℕ) (k : Kmalloc)
  | free (iova size : ℕ) (k : Kmalloc)

/-- What `kmalloc` answers. -/
def IovaOp.kmalloc : IovaOp → Kmalloc
  | alloc _ _ _ _ k => k
  | free _ _ k => k

def IovaTrace.call (s : IovaTrace) : IovaOp → IovaTrace
  | .alloc devName iova size now k => s.sunxiIommuAllocIova devName iova size now k
  | .free iova size k => s.sunxiIommuFreeIova iova size k

/-! ### What the lists should hold -/

/-- The ranges in use and the ranges that are freed, in order. -/
structure Traced where
  live : List IovaInfo
  freed : List IovaInfo

namespace Traced

def init : Traced := ⟨[], []⟩

/-- A free takes the first record of its range; of a range without a record nothing is known. -/
def call (t : Traced) : IovaOp → Traced
  | .alloc devName iova size now _ =>
    { t with live := t.live ++ [⟨devName, iova, size, now⟩] }
  | .free iova size _ =>
    match t.live.find? (Matches iova size) with
    | some info =>
      ⟨t.live.eraseP fun i => Matches iova size i, t.freed ++ [info]⟩
    | none => t

end Traced

/-- The lists are what they should be. -/
structure Represents (s : IovaTrace) (t : Traced) : Prop where
  -- the list from `info_head` ends, and `info_tail` is its last record
  live : ∃ l, Seg s.mem.block s.infoHead l none ∧ l.map Prod.snd = t.live ∧
    ∀ x ∈ l.getLast?, s.infoTail = some x.1
  freed : ∃ l, Seg s.mem.block s.infoHeadFree l none ∧ l.map Prod.snd = t.freed
  -- no record was accessed that is not there, and every loop ended
  clean : s.mem.fault = false
  ended : s.hung = false

/-- The hooks, beside what the lists should hold. -/
def iovaMachine : Machine (IovaTrace × Traced) IovaOp Unit where
  step s op :=
    if s.1.mem.fault ∨ s.1.hung ∨ s.1.mem.Live op.kmalloc.addr then none
    else some ((), s.1.call op, s.2.call op)

/-- The name of a device fits, a new record comes with a null pointer, and what is freed is
recorded. A free does nothing while there is no record. -/
def IovaOp.Guard (t : Traced) : IovaOp → Prop
  | alloc devName _ _ _ k => devName.length < DEV_NAME_SIZE ∧ k.content.next = none
  | free iova size k =>
    t.live = [] ∨ (∃ info ∈ t.live, Matches iova size info) ∧ k.content.next = none

/-! ### The lists in memory -/

/-- The lists in memory, with the addresses of the records. They end in the pointers `r` and `q`. -/
structure Kept (s : IovaTrace) (l : List (ℕ × IovaInfo)) (r : Option ℕ)
    (m : List (ℕ × IovaInfo)) (q : Option ℕ) : Prop where
  live : Seg s.mem.block s.infoHead l r
  tail : ∀ x ∈ l.getLast?, s.infoTail = some x.1
  freed : Seg s.mem.block s.infoHeadFree m q
  tailFree : ∀ x ∈ m.getLast?, s.infoTailFree = some x.1
  apart : ∀ x ∈ l, ∀ y ∈ m, x.1 ≠ y.1
  bound : l.length ≤ s.allocated
  clean : s.mem.fault = false
  ended : s.hung = false

section Memory

variable {M : Arena (Node IovaInfo)} {head tail q : Option ℕ} {l l₁ l₂ : List (ℕ × IovaInfo)}
  {p : ℕ} {a : IovaInfo}

/-- `r->next = q` for a record that is there. -/
theorem setNext_of_block {n : Option ℕ} (h : M.block p = some ⟨a, n⟩) :
    (setNext M (some p) q).fault = M.fault ∧
      (setNext M (some p) q).block p = some ⟨a, q⟩ ∧
      ∀ o, o ≠ p → (setNext M (some p) q).block o = M.block o :=
  ⟨Arena.modify_fault h, Arena.modify_block_self h, fun _ ho => Arena.modify_block_of_ne ho⟩

/-- A new record behind the last record of a list. -/
theorem linkTail_spec {n : Node IovaInfo} (h : Seg M.block head l none)
    (htail : ∀ x ∈ l.getLast?, tail = some x.1) (hp : M.block p = some n)
    (hnew : ∀ x ∈ l, x.1 ≠ p) :
    (linkTail M head tail p).fault = M.fault ∧ (linkTail M head tail p).block p = some n ∧
      Seg (linkTail M head tail p).block (if head = none then some p else head) l (some p) ∧
      ∀ o, (∀ x ∈ l, x.1 ≠ o) → (linkTail M head tail p).block o = M.block o := by
  rcases List.eq_nil_or_concat l with rfl | ⟨l, x, rfl⟩
  · obtain rfl := seg_nil.mp h
    exact ⟨rfl, hp, rfl, fun _ _ => rfl⟩
  · rw [List.concat_eq_append] at *
    have hmem : x ∈ l ++ [x] := List.mem_append_right l List.mem_cons_self
    have hhead : head ≠ none := by
      rintro rfl
      cases l with
      | nil => exact nomatch h.1
      | cons y l => exact nomatch h.1
    obtain ⟨m, hx⟩ := h.isSome hmem
    obtain ⟨hfault, hself, hother⟩ := setNext_of_block (q := some p) hx
    have hnodup := h.nodup
    rw [List.map_append, List.nodup_append] at hnodup
    unfold linkTail
    rw [if_neg hhead, if_neg hhead, htail x List.getLast?_concat]
    refine ⟨hfault, (hother p (hnew x hmem).symm).trans hp, ?_, fun o ho =>
      hother o (ho x hmem).symm⟩
    refine h.redirect (fun y hy => hother y.1 ?_) hself
    exact hnodup.2.2 y.1 (List.mem_map_of_mem hy) x.1 List.mem_cons_self

/-- **Appending.** The new record ends the list, with the pointer that it came with. -/
theorem append_spec {v : IovaInfo} (h : Seg M.block head l none)
    (htail : ∀ x ∈ l.getLast?, tail = some x.1) (hp : M.block p = some ⟨v, q⟩)
    (hnew : ∀ x ∈ l, x.1 ≠ p) :
    (setInfo (linkTail M head tail p) p a).fault = M.fault ∧
      Seg (setInfo (linkTail M head tail p) p a).block (if head = none then some p else head)
        (l ++ [(p, a)]) q ∧
      ∀ o, o ≠ p → (∀ x ∈ l, x.1 ≠ o) →
        (setInfo (linkTail M head tail p) p a).block o = M.block o := by
  obtain ⟨hfault, hblock, hseg, hframe⟩ := linkTail_spec h htail hp hnew
  refine ⟨(Arena.modify_fault hblock).trans hfault, ?_, fun o hne ho => ?_⟩
  · refine seg_concat.mpr ⟨hseg.congr fun x hx => ?_, Arena.modify_block_self hblock⟩
    exact Arena.modify_block_of_ne (hnew x hx)
  · exact (Arena.modify_block_of_ne hne).trans (hframe o ho)

/-- The search stops at the first record of the range. -/
theorem search_found {iova size n : ℕ} {r : Option ℕ} (h : Seg M.block r (l₁ ++ (p, a) :: l₂) q)
    (hmiss : ∀ x ∈ l₁, ¬ Matches iova size x.2) (hit : Matches iova size a) (hn : l₁.length < n)
    (o : ℕ) : search M iova size n r (some o) =
      .stopped (some p) (some ((l₁.map Prod.fst).getLastD o)) := by
  obtain ⟨n, rfl⟩ := Nat.exists_eq_add_one_of_ne_zero (Nat.ne_zero_of_lt hn)
  induction l₁ generalizing r n o with
  | nil =>
    obtain ⟨rfl, m, hp, -⟩ := h
    unfold search
    dsimp only
    rw [hp]
    exact if_pos hit
  | cons x l₁ ih =>
    obtain ⟨rfl, m, hx, hrest⟩ := h
    rw [List.length_cons, Nat.succ_lt_succ_iff] at hn
    obtain ⟨n, rfl⟩ := Nat.exists_eq_add_one_of_ne_zero (Nat.ne_zero_of_lt hn)
    unfold search
    rw [hx]
    dsimp only
    rw [if_neg (hmiss x List.mem_cons_self), List.map_cons, List.getLastD_cons]
    exact ih hrest (fun y hy => hmiss y (List.mem_cons_of_mem x hy)) x.1 n hn

/-- The search runs off the end of a list without a record of the range. -/
theorem search_missed {iova size n : ℕ} {r : Option ℕ} (h : Seg M.block r l none)
    (hmiss : ∀ x ∈ l, ¬ Matches iova size x.2) (hn : l.length ≤ n) (o : Option ℕ) :
    ∃ o', search M iova size n r o = .stopped none o' := by
  induction l generalizing r n o with
  | nil =>
    obtain rfl := seg_nil.mp h
    exact ⟨o, by cases n <;> rfl⟩
  | cons x l ih =>
    obtain ⟨rfl, m, hx, hrest⟩ := h
    obtain ⟨n, rfl⟩ := Nat.exists_eq_add_one_of_ne_zero (Nat.ne_zero_of_lt hn)
    unfold search
    rw [hx]
    dsimp only
    rw [if_neg (hmiss x List.mem_cons_self)]
    exact ih hrest (fun y hy => hmiss y (List.mem_cons_of_mem x hy)) (Nat.le_of_succ_le_succ hn) _

/-- The record behind `x` is left out. -/
theorem bypass_spec {x : ℕ × IovaInfo} {r n : Option ℕ}
    (h : Seg M.block r ((l ++ [x]) ++ (p, a) :: l₂) none) (hp : M.block p = some ⟨a, n⟩) :
    ((setNext M (some x.1) n).free p).fault = M.fault ∧
      Seg ((setNext M (some x.1) n).free p).block r ((l ++ [x]) ++ l₂) none ∧
      ∀ o, o ≠ p → o ≠ x.1 → ((setNext M (some x.1) n).free p).block o = M.block o := by
  have hnodup := h.nodup
  obtain ⟨m, hfront, rfl, n', hp', hback⟩ := seg_append.mp h
  rw [hp, Option.some.injEq, Node.mk.injEq] at hp'
  obtain ⟨-, rfl⟩ := hp'
  obtain ⟨-, hx⟩ := seg_concat.mp hfront
  obtain ⟨hfault, hself, hother⟩ := setNext_of_block (q := n) hx
  simp only [List.map_append, List.map_cons, List.map_nil, List.nodup_append, List.nodup_cons,
    List.mem_append, List.mem_cons, List.not_mem_nil, or_false] at hnodup
  obtain ⟨⟨-, -, hlx⟩, ⟨hpl₂, -⟩, hcross⟩ := hnodup
  have hpx : p ≠ x.1 := fun heq => hcross x.1 (Or.inr rfl) p (Or.inl rfl) heq.symm
  have hframe : ∀ o, o ≠ p → o ≠ x.1 →
      ((setNext M (some x.1) n).free p).block o = M.block o := fun o hop hox =>
    (Arena.free_block_of_ne _ hop).trans (hother o hox)
  refine ⟨?_, seg_append.mpr ⟨n, hfront.redirect (fun y hy => ?_) ?_, hback.congr fun y hy => ?_⟩,
    hframe⟩
  · have hlive : (setNext M (some x.1) n).Live p := Arena.Live.of_eq ((hother p hpx).trans hp)
    cases hclean : M.fault with
    | false => exact (Arena.free_fault _ p).mpr ⟨hfault.trans hclean, hlive⟩
    | true =>
      unfold Arena.free
      dsimp only
      rw [hfault, hclean]
      rfl
  · have hmem : y.1 ∈ l.map Prod.fst := List.mem_map_of_mem hy
    refine hframe y.1 (fun heq => ?_) fun heq => ?_
    · exact hcross y.1 (Or.inl hmem) p (Or.inl rfl) heq
    · exact hlx y.1 hmem x.1 rfl heq
  · exact (Arena.free_block_of_ne _ hpx.symm).trans hself
  · have hmem : y.1 ∈ l₂.map Prod.fst := List.mem_map_of_mem hy
    refine hframe y.1 (fun heq => hpl₂ (heq ▸ hmem)) fun heq => ?_
    exact hcross x.1 (Or.inr rfl) y.1 (Or.inr hmem) heq.symm

end Memory

namespace Kept

variable {s : IovaTrace} {t : Traced} {l l₁ l₂ m : List (ℕ × IovaInfo)} {r q : Option ℕ} {p : ℕ}
  {a : IovaInfo} {k : Kmalloc}

theorem init : Kept IovaTrace.init [] none [] none where
  live := rfl
  tail := nofun
  freed := rfl
  tailFree := nofun
  apart := nofun
  bound := le_rfl
  clean := rfl
  ended := rfl

/-- Lists that end are what they should be. -/
theorem represents (h : Kept s l none m none) (hl : l.map Prod.snd = t.live)
    (hm : m.map Prod.snd = t.freed) : Represents s t :=
  ⟨⟨l, h.live, hl, h.tail⟩, ⟨m, h.freed, hm⟩, h.clean, h.ended⟩

/-- Lists that are what they should be end. -/
theorem ends (h : Kept s l r m q) (hl : l.map Prod.snd = t.live) (hm : m.map Prod.snd = t.freed)
    (hrep : Represents s t) : r = none ∧ q = none := by
  obtain ⟨⟨l', hseg, hl', -⟩, ⟨m', hsegFree, hm'⟩, -, -⟩ := hrep
  have hlen := congrArg List.length (hl.trans hl'.symm)
  have hlenFree := congrArg List.length (hm.trans hm'.symm)
  rw [List.length_map, List.length_map] at hlen hlenFree
  exact ⟨(h.live.eq_of_length hseg hlen).2.symm, (h.freed.eq_of_length hsegFree hlenFree).2.symm⟩

/-- Memory that is not in use is on no list. -/
theorem ne_of_not_live (h : Kept s l r m q) (hk : ¬ s.mem.Live p) :
    (∀ x ∈ l, x.1 ≠ p) ∧ ∀ x ∈ m, x.1 ≠ p := by
  constructor
  · intro x hx heq
    obtain ⟨n, hn⟩ := h.live.isSome hx
    exact hk (heq ▸ Arena.Live.of_eq hn)
  · intro x hx heq
    obtain ⟨n, hn⟩ := h.freed.isSome hx
    exact hk (heq ▸ Arena.Live.of_eq hn)

theorem kmalloc (h : Kept s l r m q) (hk : ¬ s.mem.Live k.addr) :
    Kept (s.kmalloc k) l r m q where
  live := h.live.congr fun x hx =>
    Arena.alloc_block_of_ne _ _ ((h.ne_of_not_live hk).1 x hx)
  tail := h.tail
  freed := h.freed.congr fun x hx =>
    Arena.alloc_block_of_ne _ _ ((h.ne_of_not_live hk).2 x hx)
  tailFree := h.tailFree
  apart := h.apart
  bound := Nat.le_succ_of_le h.bound
  clean := h.clean
  ended := h.ended

/-- A call of `sunxi_iommu_alloc_iova`. -/
theorem alloc (h : Kept s l none m none) (hk : ¬ s.mem.Live k.addr) {devName : List UInt8}
    (hname : devName.length < DEV_NAME_SIZE) (iova size now : ℕ) :
    Kept (s.sunxiIommuAllocIova devName iova size now k)
      (l ++ [(k.addr, ⟨devName, iova, size, now⟩)]) k.content.next m none := by
  obtain ⟨hnew, hnewFree⟩ := h.ne_of_not_live hk
  have hkept := h.kmalloc hk
  have hblock : (s.kmalloc k).mem.block k.addr = some ⟨k.content.val, k.content.next⟩ :=
    Arena.alloc_block_self ..
  obtain ⟨hfault, hseg, hframe⟩ :=
    append_spec (a := ⟨devName, iova, size, now⟩) hkept.live hkept.tail hblock hnew
  unfold IovaTrace.sunxiIommuAllocIova IovaTrace.strcpyName
  simp only [if_pos hname]
  refine ⟨hseg, fun x hx => ?_, hkept.freed.congr fun y hy => ?_, h.tailFree, fun x hx y hy => ?_,
    ?_, hfault.trans h.clean, h.ended⟩
  · rw [List.getLast?_concat] at hx
    obtain rfl := Option.some.inj hx
    rfl
  · exact hframe y.1 (hnewFree y hy) fun x hx => h.apart x hx y hy
  · rcases List.mem_append.mp hx with hx | hx
    · exact h.apart x hx y hy
    · obtain rfl := List.mem_singleton.mp hx
      exact (hnewFree y hy).symm
  · rw [List.length_append]
    exact Nat.succ_le_succ h.bound

/-- The new record of a free. -/
theorem appendFree (h : Kept s l none m none) (hk : ¬ s.mem.Live k.addr) (a : IovaInfo) :
    Kept { s.appendFree k with mem := setInfo (s.appendFree k).mem k.addr a } l none
      (m ++ [(k.addr, a)]) k.content.next := by
  obtain ⟨hnew, hnewFree⟩ := h.ne_of_not_live hk
  have hkept := h.kmalloc hk
  have hblock : (s.kmalloc k).mem.block k.addr = some ⟨k.content.val, k.content.next⟩ :=
    Arena.alloc_block_self ..
  obtain ⟨hfault, hseg, hframe⟩ :=
    append_spec (a := a) hkept.freed hkept.tailFree hblock hnewFree
  refine ⟨hkept.live.congr fun x hx => ?_, h.tail, hseg, fun x hx => ?_, fun x hx y hy => ?_,
    hkept.bound, hfault.trans h.clean, h.ended⟩
  · exact hframe x.1 (hnew x hx) fun y hy => (h.apart x hx y hy).symm
  · rw [List.getLast?_concat] at hx
    obtain rfl := Option.some.inj hx
    rfl
  · rcases List.mem_append.mp hy with hy | hy
    · exact h.apart x hx y hy
    · obtain rfl := List.mem_singleton.mp hy
      exact hnew x hx

/-- No other record has the address of a record on the list. -/
theorem ne_of_rest (h : Kept s (l₁ ++ (p, a) :: l₂) none m q) : ∀ x ∈ l₁ ++ l₂, x.1 ≠ p := by
  intro x hx heq
  have hnodup := h.live.nodup
  rw [List.map_append, List.map_cons, List.nodup_middle, ← List.map_append] at hnodup
  exact (List.nodup_cons.mp hnodup).1 (List.mem_map.mpr ⟨x, hx, heq⟩)

/-- What is left of the list is apart from the freed list. -/
theorem rest_apart (h : Kept s (l₁ ++ (p, a) :: l₂) r m q) :
    ∀ x ∈ l₁ ++ l₂, ∀ y ∈ m, x.1 ≠ y.1 := fun x hx =>
  h.apart x (List.mem_append.mpr ((List.mem_append.mp hx).imp_right (List.mem_cons_of_mem _)))

theorem rest_bound (h : Kept s (l₁ ++ (p, a) :: l₂) r m q) : (l₁ ++ l₂).length ≤ s.allocated := by
  have hlen := h.bound
  rw [List.length_append, List.length_cons] at hlen
  rw [List.length_append]
  exact Nat.le_of_succ_le hlen

/-- The first record is taken off the list. -/
theorem unlink_head (h : Kept s ((p, a) :: l₂) none m q) (infoPrev : Option ℕ) :
    Kept (s.unlink p infoPrev) l₂ none m q := by
  have hrest : Kept s ([] ++ (p, a) :: l₂) none m q := h
  have hne := hrest.ne_of_rest
  obtain ⟨hhead, n, hp, hback⟩ := h.live
  have hnext : (s.mem.block p).bind Node.next = n := congrArg (Option.bind · Node.next) hp
  unfold IovaTrace.unlink
  dsimp only
  rw [hnext, if_pos hhead.symm]
  refine ⟨hback.congr fun y hy => Arena.free_block_of_ne _ (hne y hy), fun y hy => h.tail y ?_,
    h.freed.congr fun y hy => Arena.free_block_of_ne _ ?_, h.tailFree, hrest.rest_apart,
    hrest.rest_bound, (Arena.free_fault ..).mpr ⟨h.clean, Arena.Live.of_eq hp⟩, h.ended⟩
  · rw [List.getLast?_cons]
    exact congrArg (fun o => some (o.getD (p, a))) hy
  · exact (h.apart _ List.mem_cons_self y hy).symm

/-- The record behind `x` is taken off the list. -/
theorem unlink_behind {x : ℕ × IovaInfo} (h : Kept s ((l₁ ++ [x]) ++ (p, a) :: l₂) none m q) :
    Kept (s.unlink p (some x.1)) ((l₁ ++ [x]) ++ l₂) none m q := by
  have hne := h.ne_of_rest
  obtain ⟨-, hfront, rfl, n, hp, hback⟩ := seg_append.mp h.live
  have hnext : (s.mem.block p).bind Node.next = n := congrArg (Option.bind · Node.next) hp
  obtain ⟨hfault, hseg, hframe⟩ := bypass_spec h.live hp
  have hmem : (p, a) ∈ (l₁ ++ [x]) ++ (p, a) :: l₂ := List.mem_append_right _ List.mem_cons_self
  have hx : x ∈ (l₁ ++ [x]) ++ l₂ :=
    List.mem_append_left _ (List.mem_append_right _ List.mem_cons_self)
  have hfreed : Seg ((setNext s.mem (some x.1) n).free p).block s.infoHeadFree m q :=
    h.freed.congr fun y hy => hframe y.1 (h.apart _ hmem y hy).symm (h.rest_apart x hx y hy).symm
  have hhead : some p ≠ s.infoHead := fun heq => by
    obtain ⟨z, hz, hzhead⟩ := hfront.head_mem (List.append_ne_nil_of_right_ne_nil _ nofun)
    exact hne z (List.mem_append_left _ hz) (Option.some.inj (heq.trans hzhead)).symm
  unfold IovaTrace.unlink
  dsimp only
  rw [hnext, if_neg hhead]
  rcases List.eq_nil_or_concat l₂ with rfl | ⟨l₃, z, rfl⟩
  · -- the record is the last one
    obtain rfl := seg_nil.mp hback
    rw [if_pos (h.tail (p, a) List.getLast?_concat).symm]
    refine ⟨hseg, fun y hy => ?_, hfreed, h.tailFree, h.rest_apart, h.rest_bound,
      hfault.trans h.clean, h.ended⟩
    rw [List.append_nil, List.getLast?_concat] at hy
    obtain rfl := Option.some.inj hy
    rfl
  · rw [List.concat_eq_append] at *
    have hlast : ∀ l, (l ++ (l₃ ++ [z])).getLast? = some z := fun l => by
      rw [← List.append_assoc, List.getLast?_concat]
    have htail : s.infoTail = some z.1 := h.tail z (by
      rw [List.append_cons]
      exact hlast _)
    have hz : z ∈ (l₁ ++ [x]) ++ (l₃ ++ [z]) :=
      List.mem_append_right _ (List.mem_append_right _ List.mem_cons_self)
    rw [if_neg fun heq => hne z hz (Option.some.inj (heq.trans htail)).symm]
    refine ⟨hseg, fun y hy => ?_, hfreed, h.tailFree, h.rest_apart, h.rest_bound,
      hfault.trans h.clean, h.ended⟩
    rw [hlast] at hy
    obtain rfl := Option.some.inj hy
    exact htail

/-- A record is taken off its list. `infoPrev` is the record before it, if there is one. -/
theorem unlink (h : Kept s (l₁ ++ (p, a) :: l₂) none m q) {infoPrev : Option ℕ}
    (hprev : ∀ x ∈ l₁.getLast?, infoPrev = some x.1) :
    Kept (s.unlink p infoPrev) (l₁ ++ l₂) none m q := by
  rcases List.eq_nil_or_concat l₁ with rfl | ⟨l₀, x, rfl⟩
  · exact h.unlink_head infoPrev
  · rw [List.concat_eq_append] at *
    rw [hprev x List.getLast?_concat]
    exact h.unlink_behind

/-- A free of a range that is recorded. -/
theorem free_found (h : Kept s (l₁ ++ (p, a) :: l₂) none m none) (hk : ¬ s.mem.Live k.addr)
    {iova size : ℕ} (hmiss : ∀ x ∈ l₁, ¬ Matches iova size x.2) (hit : Matches iova size a) :
    Kept (s.sunxiIommuFreeIova iova size k) (l₁ ++ l₂) none (m ++ [(k.addr, a)])
      k.content.next := by
  have hmem : (p, a) ∈ l₁ ++ (p, a) :: l₂ := List.mem_append_right _ List.mem_cons_self
  obtain ⟨z, -, hhead⟩ := h.live.head_mem (List.ne_nil_of_mem hmem)
  have hfuel : l₁.length < s.allocated := by
    have hlen := h.bound
    rw [List.length_append, List.length_cons] at hlen
    omega
  have hsearch := search_found h.live hmiss hit hfuel z.1
  rw [← hhead] at hsearch
  have hkept := h.appendFree hk a
  obtain ⟨n, hset⟩ := hkept.live.isSome hmem
  have hp : (s.appendFree k).mem.block p = some ⟨a, n⟩ :=
    (Arena.modify_block_of_ne ((h.ne_of_not_live hk).1 _ hmem)).symm.trans hset
  have hfree : s.sunxiIommuFreeIova iova size k = IovaTrace.unlink
      { s.appendFree k with mem := setInfo (s.appendFree k).mem k.addr a } p
      (some ((l₁.map Prod.fst).getLastD z.1)) := by
    unfold IovaTrace.sunxiIommuFreeIova IovaTrace.moveToFree
    rw [if_neg (hhead ▸ nofun), hsearch]
    dsimp only
    rw [hp]
  rw [hfree]
  refine hkept.unlink fun x hx => ?_
  obtain ⟨l₀, rfl⟩ := List.getLast?_eq_some_iff.mp hx
  rw [List.map_append, List.map_cons, List.map_nil, List.getLastD_concat]

/-- A free of a range that is not recorded, while others are. -/
theorem free_missed (h : Kept s l none m none) {iova size : ℕ} (hl : l ≠ [])
    (hmiss : ∀ x ∈ l, ¬ Matches iova size x.2) :
    (s.sunxiIommuFreeIova iova size k).mem.fault = true := by
  obtain ⟨z, -, hhead⟩ := h.live.head_mem hl
  obtain ⟨o, hsearch⟩ := search_missed h.live hmiss h.bound s.infoHead
  unfold IovaTrace.sunxiIommuFreeIova
  rw [if_neg (hhead ▸ nofun), hsearch]
  rfl

end Kept

/-! ### The calls -/

namespace Traced

variable {t : Traced} {iova size : ℕ} {i₁ i₂ : List IovaInfo} {a : IovaInfo}

theorem call_free_found (ht : t.live = i₁ ++ a :: i₂) (hmiss : ∀ i ∈ i₁, ¬ Matches iova size i)
    (hit : Matches iova size a) (k : Kmalloc) :
    t.call (.free iova size k) = ⟨i₁ ++ i₂, t.freed ++ [a]⟩ := by
  have hfind : t.live.find? (Matches iova size) = some a := by
    refine List.find?_eq_some_iff_append.mpr ⟨decide_eq_true hit, i₁, i₂, ht, fun i hi => ?_⟩
    rw [decide_eq_false (hmiss i hi)]
    rfl
  unfold call
  dsimp only
  rw [hfind, ht, List.eraseP_append_right _ fun i hi => ?_, List.eraseP_cons_of_pos]
  · exact decide_eq_true hit
  · exact fun h => hmiss i hi (of_decide_eq_true h)

theorem call_free_missed (hmiss : ∀ i ∈ t.live, ¬ Matches iova size i) (k : Kmalloc) :
    t.call (.free iova size k) = t := by
  have hfind : t.live.find? (Matches iova size) = none :=
    List.find?_eq_none.mpr fun i hi h => hmiss i hi (of_decide_eq_true h)
  unfold call
  dsimp only
  rw [hfind]

end Traced

/-- The lists in memory are the ones that should be. -/
def IovaInv (s : IovaTrace × Traced) : Prop :=
  ∃ l m, Kept s.1 l none m none ∧ l.map Prod.snd = s.2.live ∧ m.map Prod.snd = s.2.freed

section Calls

variable {s : IovaTrace} {t : Traced} {l m : List (ℕ × IovaInfo)} {k : Kmalloc}

/-- A name that does not fit. -/
theorem alloc_overflow (s : IovaTrace) {devName : List UInt8}
    (hname : ¬ devName.length < DEV_NAME_SIZE) (iova size now : ℕ) (k : Kmalloc) :
    (s.sunxiIommuAllocIova devName iova size now k).mem.fault = true := by
  unfold IovaTrace.sunxiIommuAllocIova IovaTrace.strcpyName
  simp only [if_neg hname]
  exact Arena.fault_modify rfl

/-- A call of `sunxi_iommu_alloc_iova` keeps the lists exactly when it is guarded. -/
theorem Kept.alloc_call (h : Kept s l none m none) (hl : l.map Prod.snd = t.live)
    (hm : m.map Prod.snd = t.freed) (hk : ¬ s.mem.Live k.addr) (devName : List UInt8)
    (iova size now : ℕ) :
    let op := IovaOp.alloc devName iova size now k
    (op.Guard t → IovaInv (s.call op, t.call op)) ∧
      (Represents (s.call op) (t.call op) → op.Guard t) := by
  dsimp only
  by_cases hname : devName.length < DEV_NAME_SIZE
  · have hkept := h.alloc hk hname iova size now
    have hlive : (l ++ [(k.addr, IovaInfo.mk devName iova size now)]).map Prod.snd =
        (t.call (.alloc devName iova size now k)).live := by
      rw [List.map_append, hl]
      rfl
    refine ⟨fun hguard => ?_, fun hrep => ⟨hname, (hkept.ends hlive hm hrep).1⟩⟩
    rw [hguard.2] at hkept
    exact ⟨_, m, hkept, hlive, hm⟩
  · refine ⟨fun hguard => absurd hguard.1 hname, fun hrep => ?_⟩
    exact absurd (hrep.clean.symm.trans (alloc_overflow s hname iova size now k)) nofun

/-- A call of `sunxi_iommu_free_iova` keeps the lists exactly when it is guarded. -/
theorem Kept.free_call (h : Kept s l none m none) (hl : l.map Prod.snd = t.live)
    (hm : m.map Prod.snd = t.freed) (hk : ¬ s.mem.Live k.addr) (iova size : ℕ) :
    let op := IovaOp.free iova size k
    (op.Guard t → IovaInv (s.call op, t.call op)) ∧
      (Represents (s.call op) (t.call op) → op.Guard t) := by
  dsimp only
  by_cases hnil : l = []
  · -- there is no record, and nothing is done
    subst hnil
    have hlive : t.live = [] := hl.symm
    have hs : s.call (.free iova size k) = s := if_pos (seg_nil.mp h.live)
    have ht : t.call (.free iova size k) = t :=
      Traced.call_free_missed (by rw [hlive]; exact nofun) k
    rw [hs, ht]
    exact ⟨fun _ => ⟨[], m, h, hl, hm⟩, fun _ => Or.inl hlive⟩
  have hne : t.live ≠ [] := hl ▸ fun heq => hnil (List.map_eq_nil_iff.mp heq)
  cases hfind : l.find? (fun x => decide (Matches iova size x.2)) with
  | none =>
    have hmiss : ∀ x ∈ l, ¬ Matches iova size x.2 := fun x hx hmatch =>
      List.find?_eq_none.mp hfind x hx (decide_eq_true hmatch)
    refine ⟨fun hguard => ?_, fun hrep => ?_⟩
    · obtain ⟨⟨i, hi, hmatch⟩, -⟩ := hguard.resolve_left hne
      obtain ⟨x, hx, rfl⟩ := List.mem_map.mp (hl ▸ hi)
      exact absurd hmatch (hmiss x hx)
    · exact absurd (hrep.clean.symm.trans (h.free_missed hnil hmiss)) nofun
  | some x =>
    obtain ⟨hit, l₁, l₂, rfl, hmiss⟩ := List.find?_eq_some_iff_append.mp hfind
    have hit : Matches iova size x.2 := of_decide_eq_true hit
    have hmiss : ∀ y ∈ l₁, ¬ Matches iova size y.2 := fun y hy hmatch => by
      have hno := hmiss y hy
      rw [decide_eq_true hmatch] at hno
      exact nomatch hno
    have hkept := h.free_found hk hmiss hit
    rw [List.map_append, List.map_cons] at hl
    have ht : t.call (.free iova size k) = ⟨(l₁ ++ l₂).map Prod.snd, t.freed ++ [x.2]⟩ := by
      rw [List.map_append]
      refine Traced.call_free_found hl.symm (fun i hi => ?_) hit k
      obtain ⟨y, hy, rfl⟩ := List.mem_map.mp hi
      exact hmiss y hy
    have hfreed : (m ++ [(k.addr, x.2)]).map Prod.snd = t.freed ++ [x.2] := by
      rw [List.map_append, hm]
      rfl
    have hrecorded : ∃ info ∈ t.live, Matches iova size info :=
      ⟨x.2, hl ▸ List.mem_append_right _ List.mem_cons_self, hit⟩
    rw [ht]
    refine ⟨fun hguard => ?_, fun hrep => Or.inr ⟨hrecorded, (hkept.ends rfl hfreed hrep).2⟩⟩
    rw [(hguard.resolve_left hne).2] at hkept
    exact ⟨_, _, hkept, rfl, hfreed⟩

end Calls

variable {s : IovaTrace × Traced} {op : IovaOp} {o : Unit} {s' : IovaTrace × Traced}

/-- A guarded call keeps the lists, and an unguarded one does not. -/
theorem IovaInv.step (h : IovaInv s) (hstep : iovaMachine.step s op = some (o, s')) :
    (op.Guard s.2 → IovaInv s') ∧ (Represents s'.1 s'.2 → op.Guard s.2) := by
  obtain ⟨l, m, hkept, hl, hm⟩ := h
  unfold iovaMachine at hstep
  dsimp only at hstep
  split at hstep
  · exact nomatch hstep
  · next henabled =>
    obtain ⟨-, rfl⟩ := Prod.mk.inj (Option.some.inj hstep)
    rw [not_or, not_or] at henabled
    cases op with
    | alloc devName iova size now k =>
      exact hkept.alloc_call hl hm henabled.2.2 devName iova size now
    | free iova size k => exact hkept.free_call hl hm henabled.2.2 iova size

/-- **The lists of the trace.** In a run of the hooks the lists are what they should be after every
call, exactly when every record comes with a null pointer and every free finds its record. -/
theorem iova_trace_iff (ops : List IovaOp) :
    iovaMachine.Along (fun _ _ _ s => Represents s.1 s.2) (IovaTrace.init, Traced.init) ops ↔
      iovaMachine.Along (fun s op _ _ => op.Guard s.2) (IovaTrace.init, Traced.init) ops := by
  have h₀ : IovaInv (IovaTrace.init, Traced.init) := ⟨[], [], Kept.init, rfl, rfl⟩
  refine Machine.along_iff_guard (fun s op o s' hinv hstep hguard => ?_)
    (fun s op o s' hinv hstep hrep => (IovaInv.step hinv hstep).2 hrep) h₀ ops
  obtain ⟨l, m, hkept, hl, hm⟩ := (IovaInv.step hinv hstep).1 hguard
  exact ⟨⟨l, m, hkept, hl, hm⟩, hkept.represents hl hm⟩

/-- The memory of a record with a null pointer in its `next` field. -/
def cleared (addr : ℕ) : Kmalloc := ⟨addr, ⟨⟨[], 0, 0, 0⟩, none⟩⟩

/-- One range is recorded, and another one is freed. -/
def strayFree : List IovaOp :=
  [.alloc [118] 0x1000 0x1000 0 (cleared 1), .free 0x2000 0x1000 (cleared 2)]

/-- The free of a range that is not recorded appends to the freed list, and then it reads the
record that it has not found. -/
theorem stray_free_is_listed :
    ¬ iovaMachine.Along (fun _ _ _ s => Represents s.1 s.2) (IovaTrace.init, Traced.init)
      strayFree := by
  intro h
  obtain ⟨l, hseg, hl⟩ := ((h () _ rfl).2 () _ rfl).1.freed
  obtain rfl := List.map_eq_nil_iff.mp hl
  exact nomatch hseg

end LonganPi.Iommu
