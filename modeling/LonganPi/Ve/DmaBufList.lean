import LonganPi.Ve.DmaBuf

/-!
# What is mapped is on the list

`Listed` is what the list is for: its links agree, its entries are the records that are allocated,
each entry holds a dma-buf with an attachment and a mapping of it, and nothing else is held. Every
call keeps it, from any handle and process and with any error on the way. A map adds one entry at
the end or changes nothing, the loop of an unmap ends and takes out the first entry that matches.

Two things are not as they should be, and neither breaks `Listed`. A map whose result cannot be
copied to user space returns an error and leaves its entry on the list; a close leaves the entries
of its file. `DmaBufGuard` excludes the two, and `dma_buf_iff` says that nothing else goes wrong.
-/

open DriverLib

namespace LonganPi.Ve

variable {H : Type*}

/-- The attachment of the entry at `p`. -/
def DmaBufState.attachmentOf (s : DmaBufState H) (p : ℕ) : Option ℕ :=
  (s.bufs.block p).bind fun i => i.attachment

/-- The dma-buf of the entry at `p`. -/
def DmaBufState.dmaBufOf (s : DmaBufState H) (p : ℕ) : Option ℕ :=
  (s.bufs.block p).bind fun i => i.dmaBuf

/-- The list has the entries `l`, and they hold all that is held. -/
structure Listed (s : DmaBufState H) (l : List ℕ) : Prop where
  -- forward and backward links agree, and no entry is on the list twice
  links : s.links.IsList s.list l
  -- the entries are the live records
  live : ∀ p, s.bufs.Live p ↔ p ∈ l
  -- each entry has a dma-buf, an attachment of it and the mapping of that
  held : ∀ p i, s.bufs.block p = some i → ∃ d a t, i.dmaBuf = some d ∧ i.attachment = some a ∧
    i.sgt = some t ∧ s.dma.attachments.block a = some ⟨d, some t⟩
  -- the live attachments are those of the entries, one each, and none was detached twice
  attachments : s.dma.attachments.OwnedBy s.attachmentOf
  -- there is one reference for each entry
  refs : ∀ d, s.dma.refs d = l.countP fun p => s.dmaBufOf p = some d
  -- nothing else was given back that was not held, and no dead record was read or freed
  core : s.dma.fault = false
  bufs : s.bufs.fault = false
  -- every loop came to its end
  returned : s.hung = false

/-- The invariant of the list. -/
structure DmaBufInv (s : DmaBufState H) (l : List ℕ) : Prop extends Listed s l where
  -- an unmap looks at the list
  flag : l ≠ [] → s.bMemDevAttachFlag = true
  -- the bound of the loop
  mapped : l.length ≤ s.mapped

theorem dmaBufInv_init (list : ℕ) (M : Links ℕ) :
    DmaBufInv (DmaBufState.init list M : DmaBufState H) [] where
  links := Links.IsList.init M list
  live p := iff_of_false (Arena.not_live_empty p) List.not_mem_nil
  held _ _ h := nomatch h
  attachments := Arena.OwnedBy.empty
  refs _ := rfl
  core := rfl
  bufs := rfl
  returned := rfl
  flag h := absurd rfl h
  mapped := Nat.le_refl 0

namespace DmaBufInv

variable {s : DmaBufState H} {l l₁ l₂ : List ℕ} {p : ℕ} {i : DmaBufInfo H}

theorem ne_list (hs : DmaBufInv s l) (hp : p ∈ l) : p ≠ s.list := by
  rintro rfl
  exact (List.nodup_cons.mp hs.links.nodup).1 hp

theorem nodup (hs : DmaBufInv s l) : l.Nodup := (List.nodup_cons.mp hs.links.nodup).2

/-- The flag may be set at any time, and the open files do not matter. -/
theorem setFlag (hs : DmaBufInv s l) : DmaBufInv { s with bMemDevAttachFlag := true } l where
  toListed := { hs.toListed with }
  flag _ := rfl
  mapped := hs.mapped

theorem setLk (hs : DmaBufInv s l) (lk : LockState H) : DmaBufInv { s with lk := lk } l where
  toListed := { hs.toListed with }
  flag := hs.flag
  mapped := hs.mapped

/-- Looking at a node that is on the list is no fault. -/
theorem touch (hs : DmaBufInv s (l₁ ++ l₂)) : s.touch (l₂.headD s.list) = s := by
  unfold DmaBufState.touch
  cases l₂ with
  | nil => exact if_pos rfl
  | cons q l₂ =>
    have hq : q ∈ l₁ ++ q :: l₂ := List.mem_append_right _ List.mem_cons_self
    show (if q = s.list then s else { s with bufs := s.bufs.access q }) = s
    rw [if_neg (hs.ne_list hq), Arena.access_of_live ((hs.live q).mpr hq)]

/-- The node behind an entry. -/
theorem next_eq (hs : DmaBufInv s (l₁ ++ p :: l₂)) : s.links.next p = l₂.headD s.list :=
  (Links.path_append.mp hs.links.path).2.next_eq

end DmaBufInv

/-! ### Counting references -/

/-- The references of entries that are kept. -/
theorem countP_dmaBufOf_congr {s s' : DmaBufState H} {l : List ℕ}
    (h : ∀ q ∈ l, s'.bufs.block q = s.bufs.block q) (e : ℕ) :
    (l.countP fun q => s'.dmaBufOf q = some e) = l.countP fun q => s.dmaBufOf q = some e := by
  apply List.countP_congr
  intro q hq
  unfold DmaBufState.dmaBufOf
  rw [h q hq]

/-- A count that goes up by one at `d`. -/
theorem update_succ (f : ℕ → ℕ) (d e : ℕ) :
    Function.update f d (f d + 1) e = f e + if d = e then 1 else 0 := by
  rw [Function.update_apply]
  by_cases he : d = e
  · rw [if_pos he.symm, if_pos he, he]
  · rw [if_neg (Ne.symm he), if_neg he, Nat.add_zero]

/-- A count that goes down by one at `d`. -/
theorem update_pred {f n : ℕ → ℕ} {d : ℕ} (h : ∀ e, f e = n e + if d = e then 1 else 0) (e : ℕ) :
    Function.update f d (f d - 1) e = n e := by
  rw [Function.update_apply, h d, h e, if_pos rfl, Nat.add_sub_cancel]
  by_cases he : d = e
  · rw [if_pos he.symm, he]
  · rw [if_neg (Ne.symm he), if_neg he, Nat.add_zero]

/-! ### Mapping -/

/-- Every answer to a map is good. -/
def MapResults.Granted (r : MapResults) : Prop :=
  r.kmalloc ≠ none ∧ r.dmaBufGet ≠ none ∧ r.dmaBufAttach ≠ none ∧ r.dmaBufMapAttachment ≠ none

section Map

variable {s : DmaBufState H} {l : List ℕ} {r : MapResults}

/-- What the label `BUF_FREE` leaves of a fresh record. -/
theorem bufFree_alloc {p : ℕ} (hp : ¬s.bufs.Live p) (i : DmaBufInfo H) :
    { s with bufs := s.bufs.alloc p i }.bufFree p = s := by
  unfold DmaBufState.bufFree
  dsimp only
  rw [Arena.free_alloc i hp]

/-- **One map** gives everything back or puts a new entry at the end of the list. -/
theorem mapDmaBufAddr_cases (tgid fd : ℤ) (addr : ℕ) (filp : H) (hr : r.Fresh s) :
    (¬r.Granted ∧ (mapDmaBufAddr s tgid fd addr filp r).1 = -1 ∧
      (mapDmaBufAddr s tgid fd addr filp r).2.2 = s) ∨
    ∃ p d a t dmaAddr, r = ⟨some p, some d, some a, some (t, dmaAddr)⟩ ∧
      mapDmaBufAddr s tgid fd addr filp r = (0, toU32 dmaAddr,
        { s with
          dma := { s.dma.get d with attachments := s.dma.attachments.alloc a ⟨d, some t⟩ }
          bufs := s.bufs.alloc p ⟨fd, dmaAddr, some d, some a, some t, tgid, some filp⟩
          links := awMemListAddTail s.links p s.list
          mapped := s.mapped + 1 }) := by
  obtain ⟨kmalloc, dmaBufGet, dmaBufAttach, dmaBufMapAttachment⟩ := r
  unfold mapDmaBufAddr
  cases kmalloc with
  | none => exact Or.inl ⟨fun h => h.1 rfl, rfl, rfl⟩
  | some p =>
    obtain ⟨-, hp⟩ := hr.kmalloc p rfl
    cases dmaBufGet with
    | none => exact Or.inl ⟨fun h => h.2.1 rfl, rfl, bufFree_alloc hp _⟩
    | some d =>
      cases dmaBufAttach with
      | none =>
        refine Or.inl ⟨fun h => h.2.2.1 rfl, rfl, ?_⟩
        unfold DmaBufState.bufPut
        dsimp only
        rw [DmaBufCore.put_get]
        exact bufFree_alloc hp _
      | some a =>
        have ha : ¬(s.dma.get d).attachments.Live a := hr.dmaBufAttach a rfl
        cases dmaBufMapAttachment with
        | none =>
          refine Or.inl ⟨fun h => h.2.2.2 rfl, rfl, ?_⟩
          unfold DmaBufState.bufDetatch DmaBufState.bufPut
          dsimp only
          rw [DmaBufCore.detach_attach ha, DmaBufCore.put_get]
          exact bufFree_alloc hp _
        | some ta =>
          obtain ⟨t, dmaAddr⟩ := ta
          refine Or.inr ⟨p, d, a, t, dmaAddr, rfl, ?_⟩
          dsimp only
          rw [DmaBufCore.mapAttachment_attach, Arena.write_alloc]
          rfl

/-- A map that goes through. -/
theorem DmaBufInv.map (hs : DmaBufInv s l) {p d a t : ℕ} {i : DmaBufInfo H} (hpl : p ≠ s.list)
    (hp : ¬s.bufs.Live p) (ha : ¬s.dma.attachments.Live a) (hflag : s.bMemDevAttachFlag = true)
    (hd : i.dmaBuf = some d) (hia : i.attachment = some a) (ht : i.sgt = some t) :
    DmaBufInv { s with
      dma := { s.dma.get d with attachments := s.dma.attachments.alloc a ⟨d, some t⟩ }
      bufs := s.bufs.alloc p i
      links := awMemListAddTail s.links p s.list
      mapped := s.mapped + 1 } (l ++ [p]) := by
  have hpnot : p ∉ l := mt (hs.live p).mpr hp
  have hother : ∀ q ∈ l, (s.bufs.alloc p i).block q = s.bufs.block q :=
    fun q hq => Arena.alloc_block_of_ne _ _ fun heq => hpnot (heq ▸ hq)
  refine ⟨⟨?_, ?_, ?_, ?_, ?_, hs.core, hs.bufs, hs.returned⟩, fun _ => hflag, ?_⟩
  · apply hs.links.addTail
    rw [List.mem_cons, not_or]
    exact ⟨hpl, hpnot⟩
  · intro q
    rw [List.mem_append, List.mem_singleton, ← hs.live q, or_comm]
    exact Arena.live_alloc ..
  · intro q j hq
    change (s.bufs.alloc p i).block q = some j at hq
    rw [Arena.alloc_block] at hq
    split at hq
    · obtain rfl := Option.some.inj hq
      exact ⟨d, a, t, hd, hia, ht, Arena.alloc_block_self ..⟩
    · obtain ⟨d', a', t', hd', ha', ht', hblock⟩ := hs.held q j hq
      refine ⟨d', a', t', hd', ha', ht', ?_⟩
      have hne : a' ≠ a := fun heq => ha (heq ▸ Arena.Live.of_eq hblock)
      exact (Arena.alloc_block_of_ne _ _ hne).trans hblock
  · have hslot : s.attachmentOf p = none := by
      unfold DmaBufState.attachmentOf
      rw [(Arena.not_live_iff ..).mp hp]
      rfl
    have hslots := hs.attachments.alloc hslot ha ⟨d, some t⟩
    rw [← hia] at hslots
    convert hslots using 1
    exact Function.comp_update (fun b => b.bind fun i => i.attachment) s.bufs.block p (some i)
  · intro e
    have hself : ((s.bufs.alloc p i).block p).bind (fun i => i.dmaBuf) = some d := by
      rw [Arena.alloc_block_self]
      exact hd
    rw [List.countP_append, countP_dmaBufOf_congr hother, ← hs.refs e, List.countP_singleton]
    show Function.update s.dma.refs d (s.dma.refs d + 1) e = s.dma.refs e +
      if decide (((s.bufs.alloc p i).block p).bind (fun i => i.dmaBuf) = some e) then 1 else 0
    simp only [hself, update_succ, decide_eq_true_eq, Option.some.injEq]
  · rw [List.length_append]
    exact Nat.succ_le_succ hs.mapped

end Map

/-! ### Unmapping -/

section Unmap

variable {s : DmaBufState H} {l₁ l₂ : List ℕ} {p : ℕ} {i : DmaBufInfo H}

/-- What giving back an entry comes to. -/
theorem DmaBufInfo.release_eq {c : DmaBufCore} {d a t : ℕ} (hd : i.dmaBuf = some d)
    (ha : i.attachment = some a) (ht : i.sgt = some t)
    (hblock : c.attachments.block a = some ⟨d, some t⟩) :
    i.release c = { c with attachments := c.attachments.free a }.put d := by
  unfold DmaBufInfo.release
  rw [hd, ha, ht]
  dsimp only
  rw [DmaBufCore.detach_unmapAttachment hblock]

namespace DmaBufInv

theorem not_mem_rest (hs : DmaBufInv s (l₁ ++ p :: l₂)) : p ∉ l₁ ++ l₂ :=
  (List.nodup_cons.mp (List.nodup_middle.mp hs.nodup)).1

/-- The other records stay when one is freed. -/
theorem block_rest (hs : DmaBufInv s (l₁ ++ p :: l₂)) {q : ℕ} (hq : q ∈ l₁ ++ l₂) :
    (s.bufs.free p).block q = s.bufs.block q :=
  Arena.free_block_of_ne _ fun heq => hs.not_mem_rest (heq ▸ hq)

theorem live_rest (hs : DmaBufInv s (l₁ ++ p :: l₂)) (q : ℕ) :
    (s.bufs.free p).Live q ↔ q ∈ l₁ ++ l₂ := by
  have hmem : q ∈ l₁ ++ p :: l₂ ↔ q = p ∨ q ∈ l₁ ++ l₂ := by
    rw [List.mem_append, List.mem_cons, List.mem_append]
    exact or_left_comm
  rw [Arena.live_free, hs.live q, hmem]
  constructor
  · rintro ⟨hne, heq | hq⟩
    · exact absurd heq hne
    · exact hq
  · intro hq
    exact ⟨fun heq => hs.not_mem_rest (heq ▸ hq), Or.inr hq⟩

/-- The entry at `p` has one reference of its own. -/
theorem refs_rest (hs : DmaBufInv s (l₁ ++ p :: l₂)) {d : ℕ} (hd : s.dmaBufOf p = some d) (e : ℕ) :
    s.dma.refs e = ((l₁ ++ l₂).countP fun q => s.dmaBufOf q = some e) + if d = e then 1 else 0 := by
  rw [hs.refs e, List.countP_append, List.countP_cons, ← Nat.add_assoc, ← List.countP_append]
  simp only [hd, decide_eq_true_eq, Option.some.injEq]

/-- Two entries have two attachments. -/
theorem attachment_ne (hs : DmaBufInv s (l₁ ++ p :: l₂)) {q a a' : ℕ} (hne : q ≠ p)
    (ha : s.attachmentOf p = some a) (ha' : s.attachmentOf q = some a') : a' ≠ a :=
  fun heq => hne (hs.attachments.inj q p a (heq ▸ ha') ha)

/-- **One entry** is given back. -/
theorem unmapEntry (hs : DmaBufInv s (l₁ ++ p :: l₂)) (hi : s.bufs.block p = some i) :
    DmaBufInv (s.unmapEntry p i) (l₁ ++ l₂) := by
  obtain ⟨d, a, t, hd, hia, ht, hblock⟩ := hs.held p i hi
  have hdma : (s.unmapEntry p i).dma =
      { s.dma with attachments := s.dma.attachments.free a }.put d :=
    DmaBufInfo.release_eq hd hia ht hblock
  have hslot : s.attachmentOf p = some a := (congrArg (Option.bind · _) hi).trans hia
  have hrefs := hs.refs_rest ((congrArg (Option.bind · _) hi).trans hd)
  refine ⟨⟨hs.links.del _ _, hs.live_rest, ?_, ?_, ?_, ?_, ?_, hs.returned⟩, ?_, ?_⟩
  · intro q j hq
    change (s.bufs.free p).block q = some j at hq
    rw [Arena.free_block] at hq
    split at hq
    · cases hq
    · next hne =>
      obtain ⟨d', a', t', hd', ha', ht', hblock'⟩ := hs.held q j hq
      refine ⟨d', a', t', hd', ha', ht', ?_⟩
      have hother : a' ≠ a :=
        hs.attachment_ne hne hslot ((congrArg (Option.bind · _) hq).trans ha')
      rw [hdma]
      exact (Arena.free_block_of_ne _ hother).trans hblock'
  · have hslots : (s.unmapEntry p i).attachmentOf = Function.update s.attachmentOf p none :=
      Function.comp_update (fun b : Option (DmaBufInfo H) => b.bind fun i => i.attachment)
        s.bufs.block p none
    rw [hslots, hdma]
    exact hs.attachments.free hslot
  · intro e
    have hkept : ∀ q ∈ l₁ ++ l₂, (s.unmapEntry p i).bufs.block q = s.bufs.block q :=
      fun q hq => hs.block_rest hq
    rw [hdma, countP_dmaBufOf_congr hkept]
    exact update_pred hrefs e
  · rw [hdma]
    show (s.dma.fault || decide (s.dma.refs d = 0)) = false
    rw [hs.core, hrefs d, if_pos rfl]
    rfl
  · exact (Arena.free_fault ..).mpr ⟨hs.bufs, Arena.Live.of_eq hi⟩
  · intro hne
    apply hs.flag
    intro hnil
    rw [List.append_eq_nil_iff] at hnil
    cases hnil.2
  · have hle := hs.mapped
    show (l₁ ++ l₂).length ≤ s.mapped
    rw [List.length_append, List.length_cons] at hle
    rw [List.length_append]
    omega

end DmaBufInv

/-- What an unmap leaves of the list: all entries that do not match, or all but the first match. -/
def remaining (unmapAll : Bool) (m : ℕ → Bool) (l : List ℕ) : List ℕ :=
  if unmapAll then l.filter fun q => !m q else l.eraseP m

theorem remaining_nil {unmapAll : Bool} {m : ℕ → Bool} : remaining unmapAll m [] = [] := by
  unfold remaining
  split <;> rfl

theorem remaining_cons_of_neg {unmapAll : Bool} {m : ℕ → Bool} {l : List ℕ} (h : m p = false) :
    remaining unmapAll m (p :: l) = p :: remaining unmapAll m l := by
  unfold remaining
  split
  · exact List.filter_cons_of_pos (congrArg not h)
  · exact List.eraseP_cons_of_neg (h.trans_ne Bool.false_ne_true)

theorem remaining_cons_of_pos {unmapAll : Bool} {m : ℕ → Bool} {l : List ℕ} (h : m p = true) :
    remaining unmapAll m (p :: l) = if unmapAll then remaining unmapAll m l else l := by
  unfold remaining
  cases unmapAll with
  | true =>
    have hno : ¬(!m p) = true := (congrArg not h).trans_ne Bool.false_ne_true
    exact List.filter_cons_of_neg (p := fun q => !m q) hno
  | false => exact List.eraseP_cons_of_pos h

/-- What an unmap does to a list. -/
structure Unmapped (s s' : DmaBufState H) (l' : List ℕ) : Prop where
  inv : DmaBufInv s' l'
  list : s'.list = s.list
  kept : ∀ q ∈ l', s'.bufs.block q = s.bufs.block q

variable [DecidableEq H]

/-- The entry at `p` is one that the unmap looks for. -/
def DmaBufState.matchesAt (s : DmaBufState H) (unmapAll : Bool) (fd : ℤ) (filp : H) (tgid : ℤ)
    (p : ℕ) : Bool :=
  (s.bufs.block p).any fun i => i.matches unmapAll fd filp tgid

section Loop

variable {unmapAll : Bool} {fd : ℤ} {filp : H} {tgid : ℤ} {fuel : ℕ}

/-- The loop goes on behind an entry that does not match. -/
theorem unmapLoop_skip (hs : DmaBufInv s (l₁ ++ p :: l₂)) (hi : s.bufs.block p = some i)
    (hno : i.matches unmapAll fd filp tgid = false) :
    unmapLoop unmapAll fd filp tgid (fuel + 1) p (s.links.next p) s =
      unmapLoop unmapAll fd filp tgid fuel (l₂.headD s.list)
        (s.links.next (l₂.headD s.list)) s := by
  have hp : p ∈ l₁ ++ p :: l₂ := List.mem_append_right _ List.mem_cons_self
  have htouch : s.touch p = s := hs.touch
  have hs' : DmaBufInv s ((l₁ ++ [p]) ++ l₂) := by
    rw [List.append_assoc]
    exact hs
  have hnone : (some i).filter (fun i => i.matches unmapAll fd filp tgid) = none := by
    rw [Option.filter_some, hno]
    rfl
  rw [hs.next_eq, unmapLoop, if_neg (hs.ne_list hp), htouch]
  dsimp only
  rw [hi, hnone, hs'.touch]

/-- At an entry that matches the loop gives it back, and goes on only for `unmap_all`. -/
theorem unmapLoop_match (hs : DmaBufInv s (l₁ ++ p :: l₂)) (hi : s.bufs.block p = some i)
    (hyes : i.matches unmapAll fd filp tgid = true) :
    unmapLoop unmapAll fd filp tgid (fuel + 1) p (s.links.next p) s =
      if unmapAll = false then s.unmapEntry p i
      else unmapLoop unmapAll fd filp tgid fuel (l₂.headD s.list)
        ((s.unmapEntry p i).links.next (l₂.headD s.list)) (s.unmapEntry p i) := by
  have hp : p ∈ l₁ ++ p :: l₂ := List.mem_append_right _ List.mem_cons_self
  have htouch : s.touch p = s := hs.touch
  have hafter : (s.unmapEntry p i).touch (l₂.headD s.list) = s.unmapEntry p i :=
    (hs.unmapEntry hi).touch
  have hsome : (some i).filter (fun i => i.matches unmapAll fd filp tgid) = some i := by
    rw [Option.filter_some, hyes]
    rfl
  rw [hs.next_eq, unmapLoop, if_neg (hs.ne_list hp), htouch]
  dsimp only
  rw [hi, hsome]
  dsimp only
  rw [hafter]

/-- **The loop** ends, and takes out what matches of the entries in front of it. The induction is on
these, `l₁` are the entries behind it. -/
theorem unmapLoop_spec {m : ℕ → Bool} (hs : DmaBufInv s (l₁ ++ l₂))
    (hm : ∀ q ∈ l₂, s.matchesAt unmapAll fd filp tgid q = m q) (hfuel : l₂.length < fuel) :
    Unmapped s (unmapLoop unmapAll fd filp tgid fuel (l₂.headD s.list)
      (s.links.next (l₂.headD s.list)) s) (l₁ ++ remaining unmapAll m l₂) := by
  induction l₂ generalizing s l₁ fuel with
  | nil =>
    obtain ⟨fuel, rfl⟩ : ∃ n, fuel = n + 1 := ⟨fuel - 1, by omega⟩
    rw [remaining_nil, unmapLoop, if_pos List.headD_nil]
    exact ⟨hs, rfl, fun _ _ => rfl⟩
  | cons p l₂ ih =>
    obtain ⟨fuel, rfl⟩ : ∃ n, fuel = n + 1 := ⟨fuel - 1, by omega⟩
    have hfuel' : l₂.length < fuel := Nat.lt_of_succ_lt_succ hfuel
    have hp : p ∈ l₁ ++ p :: l₂ := List.mem_append_right _ List.mem_cons_self
    obtain ⟨i, hi⟩ := (Arena.live_iff ..).mp ((hs.live p).mpr hp)
    have hmp : i.matches unmapAll fd filp tgid = m p := by
      rw [← hm p List.mem_cons_self]
      unfold DmaBufState.matchesAt
      rw [hi]
      rfl
    rw [List.headD_cons]
    cases hcase : m p with
    | false =>
      have hs' : DmaBufInv s ((l₁ ++ [p]) ++ l₂) := by
        rw [List.append_assoc]
        exact hs
      have hrest := ih hs' (fun q hq => hm q (List.mem_cons_of_mem _ hq)) hfuel'
      rw [remaining_cons_of_neg hcase, unmapLoop_skip hs hi (hmp.trans hcase)]
      rw [List.append_assoc] at hrest
      exact hrest
    | true =>
      have hs' := hs.unmapEntry hi
      have hkept : ∀ q ∈ l₁ ++ l₂, (s.unmapEntry p i).bufs.block q = s.bufs.block q :=
        fun q hq => hs.block_rest hq
      rw [remaining_cons_of_pos hcase, unmapLoop_match hs hi (hmp.trans hcase)]
      cases unmapAll with
      | false => exact ⟨hs', rfl, hkept⟩
      | true =>
        -- the entries in front of the loop are as they were
        have hm' : ∀ q ∈ l₂, (s.unmapEntry p i).matchesAt true fd filp tgid q = m q := by
          intro q hq
          rw [← hm q (List.mem_cons_of_mem _ hq)]
          unfold DmaBufState.matchesAt
          rw [hkept q (List.mem_append_right _ hq)]
        have hrest := ih hs' hm' hfuel'
        refine ⟨hrest.inv, hrest.list, fun q hq => (hrest.kept q hq).trans (hkept q ?_)⟩
        rcases List.mem_append.mp hq with hq | hq
        · exact List.mem_append_left _ hq
        · exact List.mem_append_right _ (List.mem_of_mem_filter hq)

/-- **One unmap** takes out the first entry that matches. -/
theorem unmapDmaBufAddr_spec {l : List ℕ} (unmapAll : Bool) (fd : ℤ) (filp : H) (tgid : ℤ)
    (hs : DmaBufInv s l) :
    Unmapped s (unmapDmaBufAddr s unmapAll fd filp tgid)
      (remaining unmapAll (s.matchesAt unmapAll fd filp tgid) l) := by
  unfold unmapDmaBufAddr
  split
  · have hhead : s.links.next s.list = l.headD s.list := hs.links.path.next_eq
    have hs' : DmaBufInv s ([] ++ l) := hs
    dsimp only
    rw [hhead, hs'.touch]
    exact unmapLoop_spec hs' (fun _ _ => rfl) (Nat.lt_succ_of_le hs.mapped)
  · next hoff =>
    have hnil : l = [] := by
      by_contra hne
      exact hoff (hs.flag hne)
    subst hnil
    rw [remaining_nil]
    exact ⟨hs, rfl, fun _ _ => rfl⟩

end Loop

end Unmap

/-! ### Steps -/

section Ioctl

variable {s : DmaBufState H} {l : List ℕ} {h : H} {tgid : ℤ} {user : Option DmaBufParam}
  {r : MapResults} {copyOut : Bool}

/-- A map ioctl changes nothing but the flag, or adds an entry whatever it returns. -/
theorem mapIoctl_cases (h : H) (tgid : ℤ) (user : Option DmaBufParam) (copyOut : Bool)
    (hr : r.Fresh s) :
    ((user = none ∨ ¬r.Granted) ∧ (mapIoctl s h tgid user r copyOut).1.1 = -EFAULT ∧
      (mapIoctl s h tgid user r copyOut).2 = { s with bMemDevAttachFlag := true }) ∨
    ∃ parm p d a t dmaAddr, user = some parm ∧
      r = ⟨some p, some d, some a, some (t, dmaAddr)⟩ ∧
      (mapIoctl s h tgid user r copyOut).1.1 = (if copyOut then 0 else -EFAULT) ∧
      (mapIoctl s h tgid user r copyOut).2 =
        { s with
          bMemDevAttachFlag := true
          dma := { s.dma.get d with attachments := s.dma.attachments.alloc a ⟨d, some t⟩ }
          bufs := s.bufs.alloc p ⟨parm.fd, dmaAddr, some d, some a, some t, tgid, some h⟩
          links := awMemListAddTail s.links p s.list
          mapped := s.mapped + 1 } := by
  cases user with
  | none => exact Or.inl ⟨Or.inl rfl, rfl, rfl⟩
  | some parm =>
    have hr' : r.Fresh { s with bMemDevAttachFlag := true } := ⟨hr.kmalloc, hr.dmaBufAttach⟩
    unfold mapIoctl
    dsimp only
    rcases mapDmaBufAddr_cases tgid parm.fd parm.phyAddr h hr' with
      ⟨hno, hret, hst⟩ | ⟨p, d, a, t, dmaAddr, hall, hres⟩
    · rw [hret, if_pos (by decide), hst]
      exact Or.inl ⟨Or.inr hno, rfl, rfl⟩
    · refine Or.inr ⟨parm, p, d, a, t, dmaAddr, rfl, hall, ?_⟩
      rw [hres, if_neg (not_not_intro rfl)]
      cases copyOut with
      | false => exact ⟨rfl, rfl⟩
      | true => exact ⟨rfl, rfl⟩

theorem mapIoctl_inv (hs : DmaBufInv s l) (hr : r.Fresh s) :
    ∃ l', DmaBufInv (mapIoctl s h tgid user r copyOut).2 l' := by
  rcases mapIoctl_cases h tgid user copyOut hr with
    ⟨-, -, hst⟩ | ⟨parm, p, d, a, t, dmaAddr, -, rfl, -, hst⟩
  · rw [hst]
    exact ⟨l, hs.setFlag⟩
  · rw [hst]
    obtain ⟨hpl, hp⟩ := hr.kmalloc p rfl
    exact ⟨_, hs.setFlag.map hpl hp (hr.dmaBufAttach a rfl) rfl rfl rfl rfl⟩

variable [DecidableEq H]

theorem unmapIoctl_inv (hs : DmaBufInv s l) : ∃ l', DmaBufInv (unmapIoctl s h tgid user).2 l' := by
  cases user with
  | none => exact ⟨l, hs⟩
  | some parm => exact ⟨_, (unmapDmaBufAddr_spec false parm.fd h tgid hs).inv⟩

end Ioctl

variable [DecidableEq H]

/-- What is required of a step. -/
structure DmaBufStep (s : DmaBufState H) (op : DmaBufOp H) (o : ℤ × Option DmaBufParam)
    (s' : DmaBufState H) : Prop where
  -- the list is well formed, and nothing is held but by its entries
  listed : ∃ l, Listed s' l
  -- an unmap takes out the first entry that matches, or none when no entry does
  unmapped : ∀ compat h tgid parm, op = .unmap compat h tgid (some parm) →
    ∀ l, s.links.IsList s.list l →
      let l' := l.eraseP (s.matchesAt false parm.fd h tgid)
      s'.links.IsList s'.list l' ∧ ∀ p ∈ l', s'.bufs.block p = s.bufs.block p
  -- a map with an error leaves the list and what is held
  failed : ∀ compat h tgid user r copyOut, op = .map compat h tgid user r copyOut → o.1 ≠ 0 →
    s'.links = s.links ∧ s'.bufs = s.bufs ∧ s'.dma = s.dma
  -- a close leaves no entry of its file
  closed : ∀ h i, op = .closeFile h i → ∀ l, s'.links.IsList s'.list l → ∀ p ∈ l, ∀ info,
    s'.bufs.block p = some info → info.filp ≠ some h

/-- The result of a map that goes through can be copied out, and a file that is closed has no
entry. -/
def DmaBufGuard (s : DmaBufState H) : DmaBufOp H → Prop
  | .map _ _ _ user r copyOut => user ≠ none → r.Granted → copyOut = true
  | .closeFile h _ => ∀ p info, s.bufs.block p = some info → info.filp ≠ some h
  | _ => True

section Step

variable {s s' : DmaBufState H} {l : List ℕ} {o : ℤ × Option DmaBufParam} {op : DmaBufOp H}

/-- What a step is, once for all. -/
theorem dmaBufMachine_cases (hop : (dmaBufMachine H).step s op = some (o, s')) :
    ((∃ h a b c, op = .openFile h a b c) ∨ ∃ h i, op = .closeFile h i) ∧
        (∃ lk, s' = { s with lk := lk }) ∨
    (∃ compat h tgid user r copyOut, op = .map compat h tgid user r copyOut ∧ r.Fresh s ∧
      (o, s') = mapIoctl s h tgid user r copyOut) ∨
    ∃ compat h tgid user, op = .unmap compat h tgid user ∧ (o, s') = unmapIoctl s h tgid user := by
  cases op with
  | openFile h a b c =>
    obtain ⟨q, -, heq⟩ := Option.map_eq_some_iff.mp hop
    exact Or.inl ⟨Or.inl ⟨h, a, b, c, rfl⟩, q.2, (Prod.mk.inj heq).2.symm⟩
  | closeFile h i =>
    obtain ⟨q, -, heq⟩ := Option.map_eq_some_iff.mp hop
    exact Or.inl ⟨Or.inr ⟨h, i, rfl⟩, q.2, (Prod.mk.inj heq).2.symm⟩
  | map compat h tgid user r copyOut =>
    change (if _ then some _ else none) = _ at hop
    split at hop
    · next henabled =>
      refine Or.inr (Or.inl ⟨compat, h, tgid, user, r, copyOut, rfl, henabled.2, ?_⟩)
      rw [← Option.some.inj hop]
      cases compat <;> rfl
    · cases hop
  | unmap compat h tgid user =>
    change (if _ then some _ else none) = _ at hop
    split at hop
    · refine Or.inr (Or.inr ⟨compat, h, tgid, user, rfl, ?_⟩)
      rw [← Option.some.inj hop]
      cases compat <;> rfl
    · cases hop

/-- Every step keeps the invariant. -/
theorem DmaBufInv.step (hs : DmaBufInv s l) (hop : (dmaBufMachine H).step s op = some (o, s')) :
    ∃ l', DmaBufInv s' l' := by
  rcases dmaBufMachine_cases hop with ⟨-, lk, rfl⟩ |
    ⟨compat, h, tgid, user, r, copyOut, -, hr, heq⟩ | ⟨compat, h, tgid, user, -, heq⟩
  · exact ⟨l, hs.setLk lk⟩
  · obtain rfl : s' = (mapIoctl s h tgid user r copyOut).2 := congrArg Prod.snd heq
    exact mapIoctl_inv hs hr
  · obtain rfl : s' = (unmapIoctl s h tgid user).2 := congrArg Prod.snd heq
    exact unmapIoctl_inv hs

/-- A guarded step is as it should be. -/
theorem DmaBufInv.dmaBufStep (hs : DmaBufInv s l)
    (hop : (dmaBufMachine H).step s op = some (o, s')) (hg : DmaBufGuard s op) :
    DmaBufStep s op o s' := by
  obtain ⟨l', hs'⟩ := hs.step hop
  refine ⟨⟨l', hs'.toListed⟩, ?_, ?_, ?_⟩
  · rintro compat h tgid parm rfl k hk
    obtain rfl := hs.links.unique hk
    rcases dmaBufMachine_cases hop with ⟨⟨h', a, b, c, hbad⟩ | ⟨h', i, hbad⟩, -⟩ |
      ⟨c', h', t', u', r', q', hbad, -⟩ | ⟨c', h', t', u', hsame, heq⟩
    · cases hbad
    · cases hbad
    · cases hbad
    · cases hsame
      obtain rfl : s' = unmapDmaBufAddr s false parm.fd h tgid := congrArg Prod.snd heq
      have hun := unmapDmaBufAddr_spec false parm.fd h tgid hs
      exact ⟨hun.inv.links, hun.kept⟩
  · rintro compat h tgid user r copyOut rfl herr
    rcases dmaBufMachine_cases hop with ⟨⟨h', a, b, c, hbad⟩ | ⟨h', i, hbad⟩, -⟩ |
      ⟨c', h', t', u', r', q', hsame, hr, heq⟩ | ⟨c', h', t', u', hbad, -⟩
    · cases hbad
    · cases hbad
    · cases hsame
      obtain rfl : s' = (mapIoctl s h tgid user r copyOut).2 := congrArg Prod.snd heq
      obtain rfl : o = (mapIoctl s h tgid user r copyOut).1 := congrArg Prod.fst heq
      rcases mapIoctl_cases h tgid user copyOut hr with
        ⟨-, -, hst⟩ | ⟨parm, p, d, a, t, dmaAddr, rfl, rfl, hret, -⟩
      · rw [hst]
        exact ⟨rfl, rfl, rfl⟩
      · have hout : copyOut = true := hg (Option.some_ne_none _)
          ⟨Option.some_ne_none _, Option.some_ne_none _, Option.some_ne_none _,
            Option.some_ne_none _⟩
        rw [hret, hout] at herr
        exact absurd rfl herr
    · cases hbad
  · rintro h i rfl k - p - info hinfo
    rcases dmaBufMachine_cases hop with ⟨-, lk, rfl⟩ | ⟨c', h', t', u', r', q', hbad, -⟩ |
      ⟨c', h', t', u', hbad, -⟩
    · exact hg p info hinfo
    · cases hbad
    · cases hbad

/-- A step that is as it should be is guarded. -/
theorem DmaBufInv.guard (hs : DmaBufInv s l) (hop : (dmaBufMachine H).step s op = some (o, s'))
    (hok : DmaBufStep s op o s') : DmaBufGuard s op := by
  rcases dmaBufMachine_cases hop with ⟨⟨h, a, b, c, rfl⟩ | ⟨h, i, rfl⟩, lk, rfl⟩ |
    ⟨compat, h, tgid, user, r, copyOut, rfl, hr, heq⟩ | ⟨compat, h, tgid, user, rfl, -⟩
  · exact trivial
  · intro p info hinfo
    have hmem : p ∈ l := (hs.live p).mp (Arena.Live.of_eq hinfo)
    exact hok.closed h i rfl l hs.links p hmem info hinfo
  · intro huser hgranted
    by_contra hout
    obtain rfl : s' = (mapIoctl s h tgid user r copyOut).2 := congrArg Prod.snd heq
    obtain rfl : o = (mapIoctl s h tgid user r copyOut).1 := congrArg Prod.fst heq
    rcases mapIoctl_cases h tgid user copyOut hr with
      ⟨hno, -⟩ | ⟨parm, p, d, a, t, dmaAddr, -, rfl, hret, hst⟩
    · exact hno.elim huser fun hno => hno hgranted
    · -- the new record is there, though the map returns an error
      rw [if_neg hout] at hret
      have herr : (mapIoctl s h tgid user ⟨some p, some d, some a, some (t, dmaAddr)⟩
          copyOut).1.1 ≠ 0 := by
        rw [hret]
        decide
      have hbufs := (hok.failed compat h tgid user _ copyOut rfl herr).2.1
      rw [hst] at hbufs
      have hnone := (Arena.not_live_iff ..).mp (hr.kmalloc p rfl).2
      rw [← hbufs, Arena.alloc_block_self] at hnone
      cases hnone
  · exact trivial

end Step

/-- **The list of mapped dma-bufs.** Along every run, from any handles and processes and with any
failures, the list is well formed, its entries and what is held belong together one to one, and
nothing is given back twice. An unmap takes out the one entry that it should, a map with an error
leaves no trace and a close leaves no entry, exactly when every map that goes through can copy its
result out and every file that is closed has no entry left. -/
theorem dma_buf_iff (list : ℕ) (M : Links ℕ) (ops : List (DmaBufOp H)) :
    (dmaBufMachine H).Along (fun _ _ _ s' => ∃ l, Listed s' l) (DmaBufState.init list M) ops ∧
      ((dmaBufMachine H).Along DmaBufStep (DmaBufState.init list M) ops ↔
        (dmaBufMachine H).Along (fun s op _ _ => DmaBufGuard s op) (DmaBufState.init list M)
          ops) := by
  have h₀ : ∃ l, DmaBufInv (DmaBufState.init list M : DmaBufState H) l :=
    ⟨[], dmaBufInv_init list M⟩
  have hstep : ∀ s op o s', (∃ l, DmaBufInv s l) → (dmaBufMachine H).step s op = some (o, s') →
      (∃ l, DmaBufInv s' l) ∧ ∃ l, Listed s' l := by
    rintro s op o s' ⟨l, hs⟩ hop
    obtain ⟨l', hs'⟩ := hs.step hop
    exact ⟨⟨l', hs'⟩, l', hs'.toListed⟩
  have hkeep : ∀ s op o s', (∃ l, DmaBufInv s l) → (dmaBufMachine H).step s op = some (o, s') →
      DmaBufGuard s op → (∃ l, DmaBufInv s' l) ∧ DmaBufStep s op o s' := by
    rintro s op o s' ⟨l, hs⟩ hop hg
    exact ⟨hs.step hop, hs.dmaBufStep hop hg⟩
  have hexact : ∀ s op o s', (∃ l, DmaBufInv s l) → (dmaBufMachine H).step s op = some (o, s') →
      DmaBufStep s op o s' → DmaBufGuard s op := by
    rintro s op o s' ⟨l, hs⟩ hop hok
    exact hs.guard hop hok
  exact ⟨Machine.along_inv hstep h₀ ops, Machine.along_iff_guard hkeep hexact h₀ ops⟩

/-- A map whose result cannot be copied out. -/
theorem failed_map_stays_listed :
    ¬∀ ops : List (DmaBufOp ℕ),
      (dmaBufMachine ℕ).Along DmaBufStep (DmaBufState.init 0x1000 ⟨id, id⟩) ops := by
  intro hall
  have hstep := (hall ([.openFile 0 true true false] ++
    [.map false 0 100 (some ⟨5, 0⟩) ⟨some 0x2000, some 0x3000, some 0x4000, some (0x5000, 0x6000)⟩
      false])).at rfl rfl
  have hbufs := (hstep.failed false 0 100 _ _ false rfl (by decide)).2.1
  exact absurd (congrArg (fun A => (A.block 0x2000).isSome) hbufs) (by decide)

end LonganPi.Ve
