import LonganPi.Ve.DebugInfo

/-!
# Ownership of the debug buffers

`TableOwned` is what the four calls on the table rely on: an occupied slot points to a live buffer
that is long enough, a free slot points to nothing, no two slots share a buffer or a key, and every
live buffer belongs to a slot. Replacing, stopping, showing and exit keep it, and with it no buffer
is freed twice, read after its release or leaked.

`IOCTL_PROC_INFO_COPY` breaks it on its two failure exits. It has already written the key and the
length into the slot when `vmalloc` fails, so an occupied slot is left with `NULL`; and when the
second `copy_from_user` fails it frees the new buffer and leaves the pointer in the slot, where the
next call frees or reads it again. `DebugGuard` excludes these failures, and `debug_table_iff`
says that the table is owned along a run exactly when they do not happen.
-/

open DriverLib

namespace LonganPi.Ve

/-- The table as the claims of its users have it. -/
structure TableOk (s : DebugState) : Prop where
  -- at most one occupied slot carries a key
  unique : ∀ i j, ¬ (s.debugInfo i).headInfo.Free →
    (s.debugInfo i).headInfo.SameKey (s.debugInfo j).headInfo → i = j
  -- an occupied slot has a live buffer of at least its length
  live : ∀ i, ¬ (s.debugInfo i).headInfo.Free → ∃ p content, (s.debugInfo i).data = some p ∧
    s.heap.block p = some content ∧ (s.debugInfo i).headInfo.length.toNat ≤ content.length
  -- a free slot has no buffer
  free : ∀ i, (s.debugInfo i).headInfo.Free → (s.debugInfo i).data = none

/-- What is required of every state. -/
structure DebugOk (s : DebugState) : Prop where
  -- nothing was freed twice, and nothing was read that was not live
  clean : s.heap.fault = false
  -- the table is as its users expect
  table : s.loaded = true → TableOk s
  -- nothing is leaked past exit
  noLeak : s.loaded = false → ∀ p, ¬ s.heap.Live p

/-- The buffers and the slots are matched one to one. -/
structure TableOwned (s : DebugState) : Prop extends TableOk s where
  -- no buffer belongs to two slots
  distinct : ∀ i j p, (s.debugInfo i).data = some p → (s.debugInfo j).data = some p → i = j
  -- every buffer belongs to a slot
  owned : ∀ p, s.heap.Live p → ∃ i, (s.debugInfo i).data = some p

/-- The invariant of the module. -/
structure DebugInv (s : DebugState) : Prop where
  clean : s.heap.fault = false
  table : s.loaded = true → TableOwned s
  noLeak : s.loaded = false → ∀ p, ¬ s.heap.Live p

theorem DebugInv.ok {s : DebugState} (hs : DebugInv s) : DebugOk s :=
  ⟨hs.clean, fun h => (hs.table h).toTableOk, hs.noLeak⟩

namespace TableOwned

variable {s : DebugState} (hs : TableOwned s)
include hs

/-- A slot with a pointer points to a live buffer. -/
theorem live_of_data {i : Slot} {p : ℕ} (h : (s.debugInfo i).data = some p) : s.heap.Live p := by
  by_cases hfree : (s.debugInfo i).headInfo.Free
  · rw [hs.free i hfree] at h
    cases h
  · obtain ⟨q, content, hq, hblock, -⟩ := hs.live i hfree
    obtain rfl : q = p := Option.some.inj (hq.symm.trans h)
    exact Arena.Live.of_eq hblock

/-- Freeing the buffer of one slot leaves that of another alone. -/
theorem freePtr_other {i j : Slot} (hne : j ≠ i) {p : ℕ} (hp : (s.debugInfo j).data = some p) :
    (s.heap.freePtr (s.debugInfo i).data).block p = s.heap.block p :=
  Arena.freePtr_block_of_ne _ _ _ fun heq => hne (hs.distinct j i p hp heq)

/-- What is live after the buffer of a slot is freed belongs to another slot. -/
theorem owned_freePtr {i : Slot} {p : ℕ} (hp : (s.heap.freePtr (s.debugInfo i).data).Live p) :
    ∃ j, j ≠ i ∧ (s.debugInfo j).data = some p := by
  obtain ⟨hne, hlive⟩ := (Arena.live_freePtr _ _ _).mp hp
  obtain ⟨j, hj⟩ := hs.owned p hlive
  exact ⟨j, fun heq => hne (heq ▸ hj), hj⟩

/-- The key that a `COPY` writes is that of its slot, or of none. -/
theorem not_sameKey_of_target {head headInfo : DebugHeadInfo} {i j : Slot} (hhead : head.pid ≠ 0)
    (htarget : s.targetSlot head = some (i, headInfo)) (hj : j ≠ i) :
    ¬ (s.debugInfo j).headInfo.SameKey headInfo := by
  intro hsame
  obtain ⟨hkey, -, hslot⟩ := DebugState.targetSlot_some htarget
  have hjhead : (s.debugInfo j).headInfo.SameKey head :=
    ⟨hsame.1.trans hkey.1, hsame.2.trans hkey.2⟩
  rcases hslot with hi | ⟨-, hnone⟩
  · refine hj (hs.unique j i (fun h => hhead (hjhead.1.symm.trans h.1)) ?_)
    exact ⟨hjhead.1.trans hi.1.symm, hjhead.2.trans hi.2.symm⟩
  · exact hnone j hjhead

/-- A buffer of another slot is still there after a slot gets a fresh one, and is not that. -/
theorem block_of_fresh {i j : Slot} {p q : ℕ}
    (hfresh : ¬ (s.heap.freePtr (s.debugInfo i).data).Live p) (content : List UInt8) (hj : j ≠ i)
    (hq : (s.debugInfo j).data = some q) :
    ((s.heap.freePtr (s.debugInfo i).data).alloc p content).block q = s.heap.block q ∧ q ≠ p := by
  have hfreed := hs.freePtr_other hj hq
  have hqp : q ≠ p := fun heq => hfresh (heq ▸ by
    rw [Arena.Live, hfreed]
    exact hs.live_of_data hq)
  rw [Arena.alloc_block_of_ne _ _ hqp]
  exact ⟨hfreed, hqp⟩

/-- A `COPY` that goes through: the slot gets its key, its length and a fresh buffer. -/
theorem copy {s' : DebugState} {head headInfo : DebugHeadInfo} {i : Slot} {p : ℕ}
    {content : List UInt8} (hhead : head.pid ≠ 0)
    (htarget : s.targetSlot head = some (i, headInfo))
    (hfresh : ¬ (s.heap.freePtr (s.debugInfo i).data).Live p)
    (hlen : head.length.toNat ≤ content.length)
    (hinfo : ∀ j, s'.debugInfo j = if j = i then ⟨headInfo, some p⟩ else s.debugInfo j)
    (hheap : s'.heap = (s.heap.freePtr (s.debugInfo i).data).alloc p content) :
    TableOwned s' := by
  obtain ⟨hkey, hlength, -⟩ := DebugState.targetSlot_some htarget
  have hself : s'.debugInfo i = ⟨headInfo, some p⟩ := by rw [hinfo, if_pos rfl]
  have hother : ∀ j, j ≠ i → s'.debugInfo j = s.debugInfo j := fun j hj => by
    rw [hinfo, if_neg hj]
  have hocc : ¬ headInfo.Free := fun h => hhead (hkey.1.symm.trans h.1)
  have hnokey : ∀ j, j ≠ i → ¬ (s.debugInfo j).headInfo.SameKey headInfo := fun _ hj =>
    hs.not_sameKey_of_target hhead htarget hj
  have hkept : ∀ j, j ≠ i → ∀ q, (s.debugInfo j).data = some q →
      s'.heap.block q = s.heap.block q ∧ q ≠ p := fun _ hj _ hq =>
    hheap ▸ hs.block_of_fresh hfresh content hj hq
  refine ⟨⟨fun j k hj hjk => ?_, fun j hj => ?_, fun j hj => ?_⟩, fun j k q hj hk => ?_,
    fun q hq => ?_⟩
  · by_cases hji : j = i <;> by_cases hki : k = i
    · rw [hji, hki]
    · subst hji
      rw [hself, hother k hki] at hjk
      exact absurd ⟨hjk.1.symm, hjk.2.symm⟩ (hnokey k hki)
    · subst hki
      rw [hself, hother j hji] at hjk
      exact absurd hjk (hnokey j hji)
    · rw [hother j hji] at hj hjk
      rw [hother k hki] at hjk
      exact hs.unique j k hj hjk
  · by_cases hji : j = i
    · subst hji
      rw [hself]
      refine ⟨p, content, rfl, ?_, ?_⟩
      · rw [hheap, Arena.alloc_block_self]
      · rw [hlength]
        exact hlen
    · rw [hother j hji] at hj ⊢
      obtain ⟨q, c, hq, hblock, hle⟩ := hs.live j hj
      exact ⟨q, c, hq, (hkept j hji q hq).1.trans hblock, hle⟩
  · by_cases hji : j = i
    · subst hji
      rw [hself] at hj
      exact absurd hj hocc
    · rw [hother j hji] at hj ⊢
      exact hs.free j hj
  · by_cases hji : j = i <;> by_cases hki : k = i
    · rw [hji, hki]
    · subst hji
      rw [hself] at hj
      rw [hother k hki] at hk
      exact absurd (Option.some.inj hj).symm (hkept k hki q hk).2
    · subst hki
      rw [hself] at hk
      rw [hother j hji] at hj
      exact absurd (Option.some.inj hk).symm (hkept j hji q hj).2
    · rw [hother j hji] at hj
      rw [hother k hki] at hk
      exact hs.distinct j k q hj hk
  · rw [hheap, Arena.live_alloc] at hq
    rcases hq with rfl | hq
    · exact ⟨i, by rw [hself]⟩
    · obtain ⟨j, hji, hj⟩ := hs.owned_freePtr hq
      exact ⟨j, by rw [hother j hji]; exact hj⟩

/-- A `STOP` that finds its slot: the slot is free and its buffer is gone. -/
theorem stop {s' : DebugState} {i : Slot}
    (hinfo : ∀ j, s'.debugInfo j = if j = i then VeDebugInfo.empty else s.debugInfo j)
    (hheap : s'.heap = s.heap.freePtr (s.debugInfo i).data) : TableOwned s' := by
  have hself : s'.debugInfo i = VeDebugInfo.empty := by rw [hinfo, if_pos rfl]
  have hother : ∀ j, j ≠ i → s'.debugInfo j = s.debugInfo j := fun j hj => by
    rw [hinfo, if_neg hj]
  have hsome : ∀ j p, (s'.debugInfo j).data = some p → j ≠ i ∧ (s.debugInfo j).data = some p :=
    fun j p hj => by
      have hji : j ≠ i := fun heq => by
        rw [heq, hself] at hj
        cases hj
      rw [hother j hji] at hj
      exact ⟨hji, hj⟩
  have hne : ∀ j, ¬ (s'.debugInfo j).headInfo.Free → j ≠ i := fun j hj heq => by
    rw [heq, hself] at hj
    exact hj ⟨rfl, rfl⟩
  refine ⟨⟨fun j k hj hjk => ?_, fun j hj => ?_, fun j hj => ?_⟩, fun j k q hj hk => ?_,
    fun q hq => ?_⟩
  · have hki : k ≠ i := by
      refine hne k fun hk => hj ?_
      exact ⟨hjk.1.trans hk.1, hjk.2.trans hk.2⟩
    have hji := hne j hj
    rw [hother j hji] at hj hjk
    rw [hother k hki] at hjk
    exact hs.unique j k hj hjk
  · have hji := hne j hj
    rw [hother j hji] at hj ⊢
    obtain ⟨q, c, hq, hblock, hle⟩ := hs.live j hj
    exact ⟨q, c, hq, by rw [hheap, hs.freePtr_other hji hq, hblock], hle⟩
  · by_cases hji : j = i
    · rw [hji, hself]
      rfl
    · rw [hother j hji] at hj ⊢
      exact hs.free j hj
  · exact hs.distinct j k q (hsome j q hj).2 (hsome k q hk).2
  · rw [hheap] at hq
    obtain ⟨j, hji, hj⟩ := hs.owned_freePtr hq
    exact ⟨j, by rw [hother j hji]; exact hj⟩

/-- Exit frees each buffer once, and every buffer. -/
theorem exit (hclean : s.heap.fault = false) :
    (cedardevExit s).heap.fault = false ∧ ∀ p, ¬ (cedardevExit s).heap.Live p := by
  constructor
  · refine (Arena.freeAll_fault _ _).mpr ⟨hclean, ?_, fun p hp => ?_⟩
    · refine (List.nodup_finRange _).filterMap fun i j p hi hj => ?_
      exact hs.distinct i j p hi hj
    · obtain ⟨i, -, hi⟩ := List.mem_filterMap.mp hp
      exact hs.live_of_data hi
  · intro p hp
    obtain ⟨hlive, hnot⟩ := (Arena.live_freeAll _ _ _).mp hp
    obtain ⟨i, hi⟩ := hs.owned p hlive
    exact hnot (List.mem_filterMap.mpr ⟨i, List.mem_finRange i, hi⟩)

end TableOwned

end LonganPi.Ve
