import LonganPi.Iommu.Domain

/-!
# The life of the domain

Runs of `sunxi_iommu_domain_alloc` and `sunxi_iommu_domain_free` in which every returned pointer
is freed at most once. A state without a fault is in one of three phases (`DomainInv`): no domain
was built yet, the one domain is live with its page directory and its scatter buffer, or it was
freed and its address is still in the globals.

The third phase is a trap. `sunxi_iommu_domain_free` resets neither `global_sunxi_iommu_domain` nor
`global_iommu_domain`, so the next allocation returns the freed domain. And since every allocation
returns the same pointer, a caller that holds two references to what it believes are two domains
frees one domain twice. `DomainGuard` excludes these two, and a third slip of older kernels, where
the error exit for the dma cookie forgets the scatter buffer; `domain_lifecycle_iff` says that
nothing else goes wrong.
-/

open DriverLib

namespace LonganPi.Iommu

variable (c : IommuConfig)

/-- The specification of a step. -/
structure DomainStep (s : DomainState) (op : DomainOp) (o : Option ℕ) (s' : DomainState) :
    Prop where
  -- nothing is freed twice, and nothing is used after it was freed
  clean : s'.heap.fault = false
  -- a returned domain is live, and so are its page directory and its scatter buffer
  returned : ∀ type env p, op = .alloc type env → o = some p → ∃ d t g,
    s'.heap.block p = some (.domain d) ∧ d.pgtable = some t ∧ s'.heap.Live t ∧
      d.sgBuffer = some g ∧ s'.heap.Live g
  -- a failed allocation leaves nothing behind
  failed : ∀ type env, op = .alloc type env → o = none → s' = s
  -- while a domain is live, an initialised hardware walks the page directory of a live domain
  ttb : s'.hwInitFlag = true → (∃ p d, s'.heap.block p = some (.domain d)) → ∃ p d t,
    s'.heap.block p = some (.domain d) ∧ d.pgtable = some t ∧ s'.heap.Live t ∧
      s'.regs IOMMU_TTB_REG = toU32 (c.pa t)

/-- An allocation finds no domain or a live one, and does not run into the cookie exit; a free
finds its domain live. -/
def DomainGuard (s : DomainState) : DomainOp → Prop
  | .alloc type env => ValidType type →
      (∀ p, s.globalSunxiIommuDomain = some p → s.heap.Live p) ∧
        (s.globalSunxiIommuDomain = none → ¬ CookieFails c type env)
  | .free p _ => s.heap.Live p

/-- The three phases of the driver. -/
inductive DomainInv (s : DomainState) : Prop
  -- no domain was built yet
  | fresh (clean : s.heap.fault = false) (empty : ∀ q, s.heap.block q = none)
      (global : s.globalSunxiIommuDomain = none) (param : s.pgtableParam = none)
      (flag : s.hwInitFlag = false) (refs : s.refs = [])
  -- the domain `p` is live with its page directory `t` and its scatter buffer `g`
  | live (p t g : ℕ) (clean : s.heap.fault = false)
      (block : ∀ q, s.heap.block q =
        if q = p then some (.domain ⟨some t, some g, 0, 2 ^ 32 - 1, true⟩)
        else if q = t ∨ q = g then some .pages else none)
      (distinct : t ≠ p ∧ g ≠ p ∧ g ≠ t) (global : s.globalSunxiIommuDomain = some p)
      (refs : ∀ q ∈ s.refs, q = p)
      (ttb : s.hwInitFlag = true → s.regs IOMMU_TTB_REG = toU32 (c.pa t))
  -- the domain was freed, and the globals still point to it
  | dead (p : ℕ) (clean : s.heap.fault = false) (empty : ∀ q, s.heap.block q = none)
      (global : s.globalSunxiIommuDomain = some p)

variable {c}

theorem domainInv_init (regs : ℕ → ℕ) : DomainInv c (DomainState.init regs) :=
  .fresh rfl (fun _ => rfl) rfl rfl rfl rfl

/-- Without a fault the specification of a step that allocates nothing is about the hardware. -/
theorem DomainInv.clean {s : DomainState} (hs : DomainInv c s) : s.heap.fault = false := by
  cases hs with
  | fresh clean => exact clean
  | live p t g clean => exact clean
  | dead p clean => exact clean

/-- In every phase an initialised hardware walks the page directory of the live domain. -/
theorem DomainInv.ttb {s : DomainState} (hs : DomainInv c s) (hflag : s.hwInitFlag = true)
    (hlive : ∃ p d, s.heap.block p = some (.domain d)) : ∃ p d t,
      s.heap.block p = some (.domain d) ∧ d.pgtable = some t ∧ s.heap.Live t ∧
        s.regs IOMMU_TTB_REG = toU32 (c.pa t) := by
  obtain ⟨q, d, hq⟩ := hlive
  cases hs with
  | fresh clean empty => rw [empty] at hq; cases hq
  | dead p clean empty => rw [empty] at hq; cases hq
  | live p t g clean block distinct global refs ttb =>
    refine ⟨p, ⟨some t, some g, 0, 2 ^ 32 - 1, true⟩, t, ?_, rfl, ?_, ttb hflag⟩
    · rw [block, if_pos rfl]
    · rw [Arena.Live, block, if_neg distinct.1, if_pos (Or.inl rfl)]
      rfl

/-- What an allocation returns while the domain is live. -/
theorem returned_live {s : DomainState} {p t g : ℕ}
    (block : ∀ q, s.heap.block q =
      if q = p then some (.domain ⟨some t, some g, 0, 2 ^ 32 - 1, true⟩)
      else if q = t ∨ q = g then some .pages else none)
    (distinct : t ≠ p ∧ g ≠ p ∧ g ≠ t) : ∃ d t g,
      s.heap.block p = some (.domain d) ∧ d.pgtable = some t ∧ s.heap.Live t ∧
        d.sgBuffer = some g ∧ s.heap.Live g := by
  refine ⟨⟨some t, some g, 0, 2 ^ 32 - 1, true⟩, t, g, by rw [block, if_pos rfl], rfl, ?_, rfl,
    ?_⟩
  · rw [Arena.Live, block, if_neg distinct.1, if_pos (Or.inl rfl)]
    rfl
  · rw [Arena.Live, block, if_neg distinct.2.1, if_pos (Or.inr rfl)]
    rfl

/-- Freeing the live domain releases its three blocks, each once. -/
theorem sunxiIommuDomainFree_live {s : DomainState} {p t g : ℕ} (flushOk : Bool)
    (clean : s.heap.fault = false)
    (block : ∀ q, s.heap.block q =
      if q = p then some (.domain ⟨some t, some g, 0, 2 ^ 32 - 1, true⟩)
      else if q = t ∨ q = g then some .pages else none)
    (distinct : t ≠ p ∧ g ≠ p ∧ g ≠ t) :
    let s' := sunxiIommuDomainFree s p flushOk
    s'.heap.fault = false ∧ ∀ q, s'.heap.block q = none := by
  obtain ⟨htp, hgp, hgt⟩ := distinct
  have hp : s.heap.Live p := by rw [Arena.Live, block, if_pos rfl]; rfl
  have ht : s.heap.Live t := by rw [Arena.Live, block, if_neg htp, if_pos (Or.inl rfl)]; rfl
  have hg : s.heap.Live g := by rw [Arena.Live, block, if_neg hgp, if_pos (Or.inr rfl)]; rfl
  have hat : s.domainAt p = ⟨some t, some g, 0, 2 ^ 32 - 1, true⟩ := by
    unfold DomainState.domainAt
    rw [block, if_pos rfl]
  have hheap : (sunxiIommuDomainFree s p flushOk).heap = ((s.heap.free t).free g).free p := by
    unfold sunxiIommuDomainFree
    rw [hat, Arena.access_of_live hp]
    show ((((s.heap.accessPtr (some t)).freePtr (some t)).freePtr (some g)).free p) = _
    rw [Arena.accessPtr_of_live ht]
    rfl
  show (sunxiIommuDomainFree s p flushOk).heap.fault = false ∧
    ∀ q, (sunxiIommuDomainFree s p flushOk).heap.block q = none
  rw [hheap]
  constructor
  · simp only [Arena.free_fault, Arena.live_free]
    exact ⟨⟨⟨clean, ht⟩, hgt, hg⟩, Ne.symm hgp, Ne.symm htp, hp⟩
  · intro q
    simp only [Arena.free_block, block]
    by_cases hqp : q = p
    · rw [if_pos hqp]
    · by_cases hqg : q = g <;> by_cases hqt : q = t <;> simp [hqp, hqg, hqt]

/-- A free that leaves no fault found its domain live. -/
theorem live_of_sunxiIommuDomainFree {s : DomainState} {p : ℕ} {flushOk : Bool}
    (h : (sunxiIommuDomainFree s p flushOk).heap.fault = false) : s.heap.Live p := by
  have hfree := ((Arena.free_fault _ _).mp h).1
  have hsg := ((Arena.freePtr_fault _ _).mp hfree).1
  have hpg := ((Arena.freePtr_fault _ _).mp hsg).1
  have hclear := ((Arena.accessPtr_fault _ _).mp hpg).1
  exact ((Arena.access_fault _ _).mp hclear).2

section

variable {s u : DomainState} {op : DomainOp} {o : Option ℕ}

/-- A state without a returned pointer owes the phase only. -/
private theorem domainStep_of_inv (hu : DomainInv c u)
    (hret : ∀ type env p, op = .alloc type env → o = some p → ∃ d t g,
      u.heap.block p = some (.domain d) ∧ d.pgtable = some t ∧ u.heap.Live t ∧
        d.sgBuffer = some g ∧ u.heap.Live g)
    (hfail : ∀ type env, op = .alloc type env → o = none → u = s) :
    DomainInv c u ∧ DomainStep c s op o u :=
  ⟨hu, hu.clean, hret, hfail, hu.ttb⟩

/-- A guarded allocation. -/
private theorem domainStep_alloc {type : ℕ} {env : AllocEnv} (hs : DomainInv c s)
    (hop : (domainMachine c).step s (.alloc type env) = some (o, u))
    (hg : DomainGuard c s (.alloc type env)) :
    DomainInv c u ∧ DomainStep c s (.alloc type env) o u := by
  obtain ⟨⟨r, u⟩, halloc, heq⟩ := Option.map_eq_some_iff.mp hop
  obtain ⟨rfl, rfl⟩ := Prod.mk.inj heq
  by_cases hty : ValidType type
  swap
  · obtain ⟨rfl, rfl⟩ := sunxiIommuDomainAlloc_invalid hty halloc
    exact domainStep_of_inv hs (fun _ _ _ _ h => by cases h) (fun _ _ _ _ => rfl)
  obtain ⟨hgl, hcookie⟩ := hg hty
  cases hs with
  | dead p clean empty global =>
    have hlive := hgl p global
    rw [Arena.Live, empty] at hlive
    cases hlive
  | live p t g clean block distinct global refs ttb =>
    obtain ⟨rfl, rfl⟩ := sunxiIommuDomainAlloc_again hty global halloc
    have hrefs : ∀ q ∈ (some p).toList ++ u.refs, q = p := fun q hq => by
      rcases List.mem_append.mp hq with h | h
      · simpa using h
      · exact refs q h
    refine domainStep_of_inv (.live p t g clean block distinct global hrefs ttb) ?_
      (fun _ _ _ h => by cases h)
    intro _ _ q _ hq
    obtain rfl := Option.some.inj hq
    exact returned_live block distinct
  | fresh clean empty global param flag refs =>
    rcases sunxiIommuDomainAlloc_first hty global param halloc with
      ⟨p, t, g, rfl, hb, -⟩ | ⟨rfl, rfl, -⟩ | ⟨-, hcf, -⟩
    · have block : ∀ q, u.heap.block q =
          if q = p then some (.domain ⟨some t, some g, 0, 2 ^ 32 - 1, true⟩)
          else if q = t ∨ q = g then some .pages else none := fun q => by
        rw [hb.block, empty]
      have hrefs : ∀ q ∈ (some p).toList ++ u.refs, q = p := fun q hq => by
        rw [hb.refs, refs] at hq
        simpa using hq
      refine domainStep_of_inv (.live p t g (hb.fault.trans clean) block hb.distinct hb.global hrefs
        fun _ => hb.ttb flag) ?_ (fun _ _ _ h => by cases h)
      intro _ _ q _ hq
      obtain rfl := Option.some.inj hq
      exact returned_live block hb.distinct
    · exact domainStep_of_inv (.fresh clean empty global param flag refs)
        (fun _ _ _ _ h => by cases h) (fun _ _ _ _ => rfl)
    · exact absurd hcf (hcookie global)

/-- A guarded free. -/
private theorem domainStep_free {p : ℕ} {flushOk : Bool} (hs : DomainInv c s)
    (hop : (domainMachine c).step s (.free p flushOk) = some (o, u))
    (hg : DomainGuard c s (.free p flushOk)) :
    DomainInv c u ∧ DomainStep c s (.free p flushOk) o u := by
  simp only [domainMachine] at hop
  split_ifs at hop with hmem
  obtain ⟨rfl, rfl⟩ := Prod.mk.inj (Option.some.inj hop)
  cases hs with
  | fresh clean empty global param flag refs => rw [refs] at hmem; cases hmem
  | dead q clean empty global =>
    change s.heap.Live p at hg
    rw [Arena.Live, empty] at hg
    cases hg
  | live q t g clean block distinct global refs ttb =>
    obtain rfl := refs p hmem
    obtain ⟨hclean, hempty⟩ := sunxiIommuDomainFree_live flushOk clean block distinct
    exact domainStep_of_inv (.dead p hclean hempty global) (fun _ _ _ h => by cases h)
      (fun _ _ h => by cases h)

end

/-- A guarded call keeps the driver in its three phases and meets the specification. -/
theorem domainStep_of_guard (s : DomainState) (op : DomainOp) (o : Option ℕ) (s' : DomainState)
    (hs : DomainInv c s) (hop : (domainMachine c).step s op = some (o, s'))
    (hg : DomainGuard c s op) : DomainInv c s' ∧ DomainStep c s op o s' := by
  cases op with
  | alloc type env => exact domainStep_alloc hs hop hg
  | free p flushOk => exact domainStep_free hs hop hg

/-- A call that met the specification was guarded. -/
theorem guard_of_domainStep (s : DomainState) (op : DomainOp) (o : Option ℕ) (s' : DomainState)
    (hs : DomainInv c s) (hop : (domainMachine c).step s op = some (o, s'))
    (hstep : DomainStep c s op o s') : DomainGuard c s op := by
  cases op with
  | alloc type env =>
    obtain ⟨⟨r, u⟩, halloc, heq⟩ := Option.map_eq_some_iff.mp hop
    obtain ⟨rfl, rfl⟩ := Prod.mk.inj heq
    intro hty
    constructor
    · -- a recorded pointer is returned as it is
      intro p hglobal
      obtain ⟨rfl, rfl⟩ := sunxiIommuDomainAlloc_again hty hglobal halloc
      obtain ⟨d, -, -, hblock, -⟩ := hstep.returned type env p rfl rfl
      exact Arena.Live.of_eq hblock
    · intro hglobal hcf
      have hparam : s.pgtableParam = none := by
        cases hs with
        | fresh clean empty global param => exact param
        | live p t g clean block distinct global => rw [global] at hglobal; cases hglobal
        | dead p clean empty global => rw [global] at hglobal; cases hglobal
      rcases sunxiIommuDomainAlloc_first hty hglobal hparam halloc with
        ⟨p, t, g, -, -, hno⟩ | ⟨-, -, hno⟩ | ⟨rfl, -, g, hdead, hlive⟩
      · exact hno hcf
      · exact hno hcf
      · -- the scatter buffer is still there
        have hsame := congrArg DomainState.heap (hstep.failed type env rfl rfl)
        exact hdead (hsame ▸ hlive)
  | free p flushOk =>
    simp only [domainMachine] at hop
    split_ifs at hop with hmem
    obtain ⟨rfl, rfl⟩ := Prod.mk.inj (Option.some.inj hop)
    exact live_of_sunxiIommuDomainFree hstep.clean

/-- **The life of the domain.** Along every run every step meets the specification exactly when
no allocation finds a freed domain in the globals or loses its scatter buffer, and no domain is
freed that is not live. -/
theorem domain_lifecycle_iff (c : IommuConfig) (regs : ℕ → ℕ) (ops : List DomainOp) :
    (domainMachine c).Along (DomainStep c) (DomainState.init regs) ops ↔
      (domainMachine c).Along (fun s op _ _ => DomainGuard c s op) (DomainState.init regs) ops :=
  Machine.along_iff_guard domainStep_of_guard guard_of_domainStep (domainInv_init regs) ops

/-- A version 14 device of a kernel that keeps the cookie in the core. -/
def exampleConfig : IommuConfig := ⟨⟨0x14, 0x7f, 1, 1⟩, 0, id, true⟩

/-- An allocation for which everything succeeds. -/
def exampleAlloc : DomainOp := .alloc 3 ⟨some 0x1000, some 0x4000, some 0x8000, true, ⟨true, 1, 1⟩⟩

/-- A domain is allocated and freed, and the next allocation returns it again. -/
theorem realloc_returns_freed_domain :
    ¬ ∀ ops : List DomainOp, (domainMachine exampleConfig).Along (DomainStep exampleConfig)
      (DomainState.init fun _ => 0) ops := by
  intro hall
  have hrealloc : DomainStep _ _ _ _ _ :=
    (hall ([exampleAlloc, .free 0x1000 true] ++ [exampleAlloc])).at rfl rfl
  obtain ⟨d, t, g, hblock, -⟩ := hrealloc.returned _ _ 0x1000 rfl rfl
  exact absurd (Arena.Live.of_eq hblock) (by decide)

end LonganPi.Iommu
