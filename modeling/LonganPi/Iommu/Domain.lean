import LonganPi.Iommu.Pgtable
import LonganPi.Lib.Run

/-!
# Allocation and release of the IOMMU domain

The driver has one domain. `sunxi_iommu_domain_alloc` allocates it on the first call, with a page
directory and a scatter buffer, records it in two globals and initialises the hardware; every
later call returns the recorded pointer. `sunxi_iommu_domain_free` releases the three objects.

All objects live in one `Arena`, whose payload is the domain structure for a domain and `pages` for
page memory. The results of the allocators, of the dma cookie and of the hardware are arguments of
a call; the one thing assumed of the allocators is that they return no address that is live. A
domain and its embedded `iommu_domain` have one address here, since `container_of` maps between
them.

`refs` is a ghost: the pointers that successful allocations have returned and that have not been
freed. Two allocations that return one pointer put it there twice.
-/

open DriverLib

namespace LonganPi.Iommu

/-! ### The hardware -/

def IOMMU_ENABLE_REG : ℕ := 0x0020
def IOMMU_BYPASS_REG : ℕ := 0x0030
def IOMMU_AUTO_GATING_REG : ℕ := 0x0040
def IOMMU_TTB_REG : ℕ := 0x0050
def IOMMU_TLB_PREFETCH_REG : ℕ := 0x0070
def IOMMU_TLB_FLUSH_ENABLE_REG : ℕ := 0x0080
def IOMMU_TLB_IVLD_MODE_SEL_REG : ℕ := 0x0084
def IOMMU_PC_IVLD_MODE_SEL_REG : ℕ := 0x009C
def IOMMU_INT_ENABLE_REG : ℕ := 0x0100

/-- `struct sunxi_iommu_plat_data`, as far as the initialisation reads it. -/
structure PlatData where
  version : ℕ
  tlbPrefetch : ℕ
  tlbInvalidMode : ℕ
  ptwInvalidMode : ℕ

/-- What does not change while the driver runs. -/
structure IommuConfig where
  plat : PlatData
  -- `iommu->bypass`
  bypass : ℕ
  -- `__pa`
  pa : ℕ → ℕ
  -- `COOKIE_HANDLE_BY_CORE` is defined, as it is for the kernels the repository builds
  cookieByCore : Bool

/-- What the hardware answers during its initialisation. -/
structure HwAnswers where
  -- the flush of all TLBs completes in time
  flushOk : Bool
  -- the two reads of `IOMMU_ENABLE_REG`
  enable₁ : ℕ
  enable₂ : ℕ

/-! ### The state -/

def IOMMU_DOMAIN_UNMANAGED : ℕ := 1
def IOMMU_DOMAIN_DMA : ℕ := 3

/-- `struct sunxi_iommu_domain` with the geometry of its `iommu_domain`. -/
structure SunxiIommuDomain where
  -- `none` is `NULL`
  pgtable : Option ℕ
  sgBuffer : Option ℕ
  apertureStart : ℕ
  apertureEnd : ℕ
  forceAperture : Bool
  deriving DecidableEq, Repr

/-- What an allocator has handed out. -/
inductive Obj
  | domain (d : SunxiIommuDomain)
  | pages
  deriving DecidableEq, Repr

/-- The globals of the driver, the memory and the registers. -/
structure DomainState where
  heap : Arena Obj
  globalSunxiIommuDomain : Option ℕ
  globalIommuDomain : Option ℕ
  -- `sunxi_pgtable_params.pgtable`
  pgtableParam : Option ℕ
  hwInitFlag : Bool
  -- the last value written to each register
  regs : ℕ → ℕ
  -- ghost: returned pointers that are not freed
  refs : List ℕ

/-- The domain structure at an address, zeroes where there is none. -/
def DomainState.domainAt (s : DomainState) (p : ℕ) : SunxiIommuDomain :=
  match s.heap.block p with
  | some (.domain d) => d
  | _ => ⟨none, none, 0, 0, false⟩

/-! ### The calls -/

/-- `sunxi_iommu_write`; a register has 32 bits. -/
def sunxiIommuWrite (regs : ℕ → ℕ) (offset value : ℕ) : ℕ → ℕ :=
  Function.update regs offset (toU32 value)

/-- `sunxi_tlb_flush` -/
def sunxiTlbFlush (regs : ℕ → ℕ) (flushOk : Bool) : ℤ × (ℕ → ℕ) :=
  (if flushOk then 0 else -ETIMEDOUT,
    sunxiIommuWrite regs IOMMU_TLB_FLUSH_ENABLE_REG 0x0003007f)

/-- `sunxi_iommu_hw_init` for a domain with the page directory `pgtable`. -/
def sunxiIommuHwInit (c : IommuConfig) (s : DomainState) (pgtable : ℕ) (hw : HwAnswers) :
    ℤ × DomainState :=
  let regs := sunxiIommuWrite s.regs IOMMU_TTB_REG (c.pa pgtable)
  let regs := sunxiIommuWrite regs IOMMU_TLB_PREFETCH_REG c.plat.tlbPrefetch
  let regs := if c.plat.version ≥ IOMMU_VERSION_V12 then
    sunxiIommuWrite regs IOMMU_TLB_IVLD_MODE_SEL_REG c.plat.tlbInvalidMode else regs
  let regs := if c.plat.version ≥ IOMMU_VERSION_V14 then
    sunxiIommuWrite regs IOMMU_PC_IVLD_MODE_SEL_REG c.plat.ptwInvalidMode else regs
  let regs := sunxiIommuWrite regs IOMMU_INT_ENABLE_REG 0x3003f
  let regs := sunxiIommuWrite regs IOMMU_BYPASS_REG c.bypass
  let r := sunxiTlbFlush regs hw.flushOk
  if r.1 ≠ 0 then (r.1, { s with regs := r.2 })
  else
    let regs := sunxiIommuWrite r.2 IOMMU_AUTO_GATING_REG 0x1
    let regs := sunxiIommuWrite regs IOMMU_ENABLE_REG 0x1
    if hw.enable₁ ≠ 0x1 ∧ hw.enable₂ ≠ 0x1 then (-ENODEV, { s with regs := regs })
    else (0, { s with regs := regs, hwInitFlag := true })

/-- What the environment answers to an allocation of the domain. -/
structure AllocEnv where
  -- `kzalloc` for the domain
  kzalloc : Option ℕ
  -- `__get_free_pages` for the page directory
  pgtablePages : Option ℕ
  -- `__get_free_pages` for the scatter buffer
  sgPages : Option ℕ
  -- `iommu_get_dma_cookie` succeeds
  cookieOk : Bool
  hw : HwAnswers

/-- An allocator returns `r`: nothing that is live. -/
def Fresh (s : DomainState) (r : Option ℕ) : Prop := ∀ p, r = some p → ¬ s.heap.Live p

instance (s : DomainState) (r : Option ℕ) : Decidable (Fresh s r) :=
  match r with
  | none => isTrue fun _ h => nomatch h
  | some p => decidable_of_iff (¬ s.heap.Live p) ⟨fun h _ heq => Option.some.inj heq ▸ h,
      fun h => h p rfl⟩

/-- `sunxi_pgtable_free` -/
def sunxiPgtableFree (s : DomainState) (pgtable : Option ℕ) : DomainState :=
  { s with heap := s.heap.freePtr pgtable, pgtableParam := none }

/-- `sunxi_iommu_domain_alloc`; the result is the pointer, `none` for `NULL`. -/
def sunxiIommuDomainAlloc (c : IommuConfig) (s : DomainState) (type : ℕ) (env : AllocEnv) :
    Option (Option ℕ × DomainState) :=
  if type ≠ IOMMU_DOMAIN_DMA ∧ type ≠ IOMMU_DOMAIN_UNMANAGED then some (none, s)
  else match s.globalSunxiIommuDomain with
  | some p => some (some p, s)
  | none =>
    if ¬ Fresh s env.kzalloc then none
    else match env.kzalloc with
    | none => some (none, s)
    | some p =>
      let s := { s with heap := s.heap.alloc p (.domain ⟨none, none, 0, 0, false⟩) }
      if ¬ Fresh s env.pgtablePages then none
      else
        -- `sunxi_pgtable_alloc` records its result, `NULL` included
        let s := { s with pgtableParam := env.pgtablePages }
        match env.pgtablePages with
        | none => some (none, { s with heap := s.heap.free p })
        | some t =>
          let s := { s with heap := s.heap.alloc t .pages }
          if ¬ Fresh s env.sgPages then none
          else match env.sgPages with
          | none =>
            let s := sunxiPgtableFree s (some t)
            some (none, { s with heap := s.heap.free p })
          | some g =>
            let s := { s with heap := s.heap.alloc g .pages }
            if !c.cookieByCore && type == IOMMU_DOMAIN_DMA && !env.cookieOk then
              -- `err_dma_cookie` falls through to `err_sg_buffer`: the buffer is not freed
              let s := sunxiPgtableFree s (some t)
              some (none, { s with heap := s.heap.free p })
            else
              let d : SunxiIommuDomain := ⟨some t, some g, 0, 2 ^ 32 - 1, true⟩
              let s := { s with
                heap := s.heap.write p (.domain d)
                globalSunxiIommuDomain := some p
                globalIommuDomain := some p }
              let s := if s.hwInitFlag then s else (sunxiIommuHwInit c s t env.hw).2
              some (some p, s)

/-- `sunxi_iommu_domain_free`. The domain is read and written until it is freed itself. -/
def sunxiIommuDomainFree (s : DomainState) (p : ℕ) (flushOk : Bool) : DomainState :=
  let d := s.domainAt p
  let s := { s with heap := s.heap.access p }
  -- `sunxi_pgtable_clear` walks the page directory
  let s := { s with heap := s.heap.accessPtr d.pgtable }
  let s := { s with regs := (sunxiTlbFlush s.regs flushOk).2 }
  let s := sunxiPgtableFree s d.pgtable
  let s := { s with heap := s.heap.freePtr d.sgBuffer }
  { s with heap := s.heap.free p }

/-- The calls of the IOMMU core. -/
inductive DomainOp
  | alloc (type : ℕ) (env : AllocEnv)
  | free (p : ℕ) (flushOk : Bool)

/-- The domain as a machine: a pointer is freed once for each time it was returned. -/
def domainMachine (c : IommuConfig) : Machine DomainState DomainOp (Option ℕ) where
  step s
    | .alloc type env =>
      (sunxiIommuDomainAlloc c s type env).map fun r =>
        (r.1, { r.2 with refs := r.1.toList ++ r.2.refs })
    | .free p flushOk =>
      if p ∈ s.refs then
        some (none, { sunxiIommuDomainFree s p flushOk with refs := s.refs.erase p })
      else none

/-- The state after the probe. -/
def DomainState.init (regs : ℕ → ℕ) : DomainState :=
  { heap := Arena.empty, globalSunxiIommuDomain := none, globalIommuDomain := none,
    pgtableParam := none, hwInitFlag := false, regs := regs, refs := [] }

/-! ### What each call does -/

/-- The initialisation changes registers and the flag only, and leaves the address of the page
directory in its register. -/
theorem sunxiIommuHwInit_spec (c : IommuConfig) (s : DomainState) (pgtable : ℕ) (hw : HwAnswers) :
    ∃ regs flag, (sunxiIommuHwInit c s pgtable hw).2 = { s with regs := regs, hwInitFlag := flag } ∧
      regs IOMMU_TTB_REG = toU32 (c.pa pgtable) := by
  unfold sunxiIommuHwInit sunxiTlbFlush
  dsimp only
  split_ifs
  -- the later writes go to other registers, whichever of them are made
  all_goals
    refine ⟨_, _, rfl, ?_⟩
    simp [sunxiIommuWrite, IOMMU_TLB_PREFETCH_REG,
      IOMMU_TLB_IVLD_MODE_SEL_REG, IOMMU_PC_IVLD_MODE_SEL_REG, IOMMU_INT_ENABLE_REG,
      IOMMU_BYPASS_REG, IOMMU_TLB_FLUSH_ENABLE_REG, IOMMU_AUTO_GATING_REG, IOMMU_ENABLE_REG,
      IOMMU_TTB_REG]

/-- The type is one the driver allocates a domain for. -/
def ValidType (type : ℕ) : Prop := type = IOMMU_DOMAIN_DMA ∨ type = IOMMU_DOMAIN_UNMANAGED

instance (type : ℕ) : Decidable (ValidType type) := inferInstanceAs (Decidable (_ ∨ _))

/-- The error exit that forgets the scatter buffer is taken. -/
def CookieFails (c : IommuConfig) (type : ℕ) (env : AllocEnv) : Prop :=
  c.cookieByCore = false ∧ type = IOMMU_DOMAIN_DMA ∧ env.cookieOk = false ∧
    env.kzalloc ≠ none ∧ env.pgtablePages ≠ none ∧ env.sgPages ≠ none

/-- A domain is built: three distinct fresh blocks, the globals, and the hardware if it was not
initialised before. -/
structure Built (c : IommuConfig) (s s' : DomainState) (p t g : ℕ) : Prop where
  fault : s'.heap.fault = s.heap.fault
  block : ∀ q, s'.heap.block q =
    if q = p then some (.domain ⟨some t, some g, 0, 2 ^ 32 - 1, true⟩)
    else if q = t ∨ q = g then some .pages else s.heap.block q
  distinct : t ≠ p ∧ g ≠ p ∧ g ≠ t
  global : s'.globalSunxiIommuDomain = some p
  refs : s'.refs = s.refs
  ttb : s.hwInitFlag = false → s'.regs IOMMU_TTB_REG = toU32 (c.pa t)

section Alloc

variable {c : IommuConfig} {s s' : DomainState} {type : ℕ} {env : AllocEnv} {o : Option ℕ}

theorem sunxiIommuDomainAlloc_invalid (hty : ¬ ValidType type)
    (hop : sunxiIommuDomainAlloc c s type env = some (o, s')) : o = none ∧ s' = s := by
  unfold sunxiIommuDomainAlloc at hop
  rw [if_pos (not_or.mp hty)] at hop
  obtain ⟨rfl, rfl⟩ := Prod.mk.inj (Option.some.inj hop)
  exact ⟨rfl, rfl⟩

/-- The second and every later call returns the recorded pointer. -/
theorem sunxiIommuDomainAlloc_again {p : ℕ} (hty : ValidType type)
    (hglobal : s.globalSunxiIommuDomain = some p)
    (hop : sunxiIommuDomainAlloc c s type env = some (o, s')) : o = some p ∧ s' = s := by
  unfold sunxiIommuDomainAlloc at hop
  rw [if_neg (fun h => hty.elim h.1 h.2), hglobal] at hop
  obtain ⟨rfl, rfl⟩ := Prod.mk.inj (Option.some.inj hop)
  exact ⟨rfl, rfl⟩

omit c s' type env o in
/-- The state is as it was when the heap is, since a failed call finds and leaves no domain and no
page directory. -/
private theorem restored {heap : Arena Obj} (hheap : heap = s.heap)
    (hglobal : s.globalSunxiIommuDomain = none) (hparam : s.pgtableParam = none) :
    ({ s with heap := heap, globalSunxiIommuDomain := none, pgtableParam := none } :
      DomainState) = s := by
  subst hheap
  cases s
  cases hglobal
  cases hparam
  rfl

omit c s s' type env o in
/-- The three blocks once the record is filled in: it holds the addresses of the other two. -/
private theorem filled (heap : Arena Obj) (p t g : ℕ) :
    let heap' := (((heap.alloc p (.domain ⟨none, none, 0, 0, false⟩)).alloc t .pages).alloc g
      .pages).write p (.domain ⟨some t, some g, 0, 2 ^ 32 - 1, true⟩)
    heap'.fault = heap.fault ∧ ∀ q, heap'.block q =
      if q = p then some (.domain ⟨some t, some g, 0, 2 ^ 32 - 1, true⟩)
      else if q = t ∨ q = g then some .pages else heap.block q := by
  have hlive : (((heap.alloc p (.domain ⟨none, none, 0, 0, false⟩)).alloc t .pages).alloc g
      .pages).Live p := by simp [Arena.live_alloc]
  refine ⟨Arena.write_fault_of_live _ hlive, fun q => ?_⟩
  rw [Arena.write_block_of_live _ _ hlive]
  simp only [Arena.alloc_block]
  by_cases hqp : q = p
  · rw [if_pos hqp, if_pos hqp]
  · by_cases hqg : q = g <;> by_cases hqt : q = t <;> simp [hqp, hqg, hqt]

omit c s s' type env o in
/-- Blocks that were fresh when they were handed out, one after the other, are distinct. -/
private theorem distinct_of_fresh {heap : Arena Obj} {p t g : ℕ} {d : Obj}
    (ht : ¬ (heap.alloc p d).Live t) (hg : ¬ ((heap.alloc p d).alloc t .pages).Live g) :
    t ≠ p ∧ g ≠ p ∧ g ≠ t := by
  simp only [Arena.live_alloc, not_or] at ht hg
  exact ⟨ht.1, hg.2.1, hg.1⟩

omit c s s' type env o in
/-- The error exit behind the cookie takes back the record and the page directory only. -/
private theorem live_of_cookie_error {heap : Arena Obj} {p t g : ℕ} (hgp : g ≠ p) (hgt : g ≠ t) :
    (((heap.alloc g .pages).freePtr (some t)).free p).Live g := by
  refine (Arena.live_free _ _ _).mpr ⟨hgp, ?_⟩
  refine (Arena.live_freePtr _ _ _).mpr ⟨fun h => hgt (Option.some.inj h).symm, ?_⟩
  exact (Arena.live_alloc _ _ _ _).mpr (Or.inl rfl)

omit s' type o in
/-- The end of a call that succeeds. -/
private theorem built {p t g : ℕ} (hdistinct : t ≠ p ∧ g ≠ p ∧ g ≠ t) :
    let s₁ : DomainState := { s with
      heap := (((s.heap.alloc p (.domain ⟨none, none, 0, 0, false⟩)).alloc t .pages).alloc g
        .pages).write p (.domain ⟨some t, some g, 0, 2 ^ 32 - 1, true⟩)
      globalSunxiIommuDomain := some p
      globalIommuDomain := some p
      pgtableParam := some t }
    Built c s (if s₁.hwInitFlag then s₁ else (sunxiIommuHwInit c s₁ t env.hw).2) p t g := by
  intro s₁
  obtain ⟨hfault, hblock⟩ := filled s.heap p t g
  by_cases hflag : s₁.hwInitFlag = true
  · rw [if_pos hflag]
    exact ⟨hfault, hblock, hdistinct, rfl, rfl, fun h => absurd (h.symm.trans hflag) (by decide)⟩
  · rw [if_neg hflag]
    obtain ⟨regs, flag, hs', hregs⟩ := sunxiIommuHwInit_spec c s₁ t env.hw
    rw [hs']
    exact ⟨hfault, hblock, hdistinct, rfl, rfl, fun _ => hregs⟩

/-- The first call builds the domain, or fails and takes everything back, or fails for want of a
cookie and loses the scatter buffer. -/
theorem sunxiIommuDomainAlloc_first (hty : ValidType type)
    (hglobal : s.globalSunxiIommuDomain = none) (hparam : s.pgtableParam = none)
    (hop : sunxiIommuDomainAlloc c s type env = some (o, s')) :
    (∃ p t g, o = some p ∧ Built c s s' p t g ∧ ¬ CookieFails c type env) ∨
      (o = none ∧ s' = s ∧ ¬ CookieFails c type env) ∨
      (o = none ∧ CookieFails c type env ∧ ∃ g, ¬ s.heap.Live g ∧ s'.heap.Live g) := by
  unfold sunxiIommuDomainAlloc at hop
  rw [if_neg (fun h => hty.elim h.1 h.2), hglobal] at hop
  by_cases hfp : Fresh s env.kzalloc
  swap
  · rw [if_pos hfp] at hop
    cases hop
  rw [if_neg (not_not_intro hfp)] at hop
  cases hp : env.kzalloc with
  | none =>
    rw [hp] at hop
    obtain ⟨rfl, rfl⟩ := Prod.mk.inj (Option.some.inj hop)
    exact Or.inr (Or.inl ⟨rfl, rfl, fun h => h.2.2.2.1 hp⟩)
  | some p =>
    have hpfresh : ¬ s.heap.Live p := hfp p hp
    rw [hp] at hop
    dsimp only at hop
    split at hop
    · cases hop
    next hft =>
    have hft := not_not.mp hft
    cases ht : env.pgtablePages with
    | none =>
      rw [ht] at hop
      obtain ⟨rfl, rfl⟩ := Prod.mk.inj (Option.some.inj hop)
      refine Or.inr (Or.inl ⟨rfl, ?_, fun h => h.2.2.2.2.1 ht⟩)
      exact restored (Arena.free_alloc _ hpfresh) hglobal hparam
    | some t =>
      have htfresh := hft t ht
      rw [ht] at hop
      dsimp only at hop
      split at hop
      · cases hop
      next hfg =>
      have hfg := not_not.mp hfg
      cases hg : env.sgPages with
      | none =>
        rw [hg] at hop
        obtain ⟨rfl, rfl⟩ := Prod.mk.inj (Option.some.inj hop)
        refine Or.inr (Or.inl ⟨rfl, ?_, fun h => h.2.2.2.2.2 hg⟩)
        refine restored ?_ hglobal hparam
        show (((s.heap.alloc p _).alloc t .pages).free t).free p = s.heap
        rw [Arena.free_alloc _ htfresh, Arena.free_alloc _ hpfresh]
      | some g =>
        have hgfresh := hfg g hg
        rw [hg] at hop
        dsimp only at hop
        have hdistinct := distinct_of_fresh htfresh hgfresh
        split at hop
        · next hcookie =>
          obtain ⟨rfl, rfl⟩ := Prod.mk.inj (Option.some.inj hop)
          simp only [Bool.and_eq_true, Bool.not_eq_true', beq_iff_eq] at hcookie
          obtain ⟨⟨hcore, hdma⟩, hck⟩ := hcookie
          refine Or.inr (Or.inr ⟨rfl, ⟨hcore, hdma, hck, ?_, ?_, ?_⟩, g, ?_, ?_⟩)
          · rw [hp]; exact Option.some_ne_none p
          · rw [ht]; exact Option.some_ne_none t
          · rw [hg]; exact Option.some_ne_none g
          · exact fun h => hgfresh ((Arena.live_alloc _ _ _ _).mpr
              (Or.inr ((Arena.live_alloc _ _ _ _).mpr (Or.inr h))))
          · exact live_of_cookie_error hdistinct.2.1 hdistinct.2.2
        · next hcookie =>
          obtain ⟨rfl, rfl⟩ := Prod.mk.inj (Option.some.inj hop)
          refine Or.inl ⟨p, t, g, rfl, built hdistinct, fun h => hcookie ?_⟩
          simp [h.1, h.2.1, h.2.2.1]

end Alloc

end LonganPi.Iommu
