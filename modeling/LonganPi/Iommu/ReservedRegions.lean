import LonganPi.Iommu.Pgtable
import LonganPi.Kernel
import LonganPi.Lib.Pairs
import Mathlib.Order.Interval.Set.Basic

/-!
# The reserved regions of the device tree

`sunxi_iommu_check_cmd` reads two properties of a device node, each a list of regions, a region two
`u64`: its start and its length. Every region is appended to a list that the regions of all devices
share, after a warning for each region on the list that it overlaps.

The buffer has room for `REGION_CNT_MAX` regions, but the property is read with `REGION_CNT_MAX` as
the number of values: a property with more than four regions does not fit. The test for an overlap
is made with the ends of the regions, and counts regions that only touch as overlapping; an end at
`2 ^ 64` is 0 to it. A node is read as it is meant exactly when none of this is met
(`reserved_regions_iff`).
-/

open DriverLib

namespace LonganPi.Iommu

/-! ### Regions -/

/-- `enum iommu_resv_type`, the two that are used. -/
inductive IommuResvType
  | IOMMU_RESV_DIRECT
  | IOMMU_RESV_RESERVED
  deriving DecidableEq

/-- `struct iommu_resv_region`. -/
structure IommuResvRegion where
  start : BitVec 64
  length : BitVec 64
  prot : ℕ
  type : IommuResvType
  deriving DecidableEq

namespace IommuResvRegion

/-- The end of the region, as a number. -/
def stop (r : IommuResvRegion) : ℕ := r.start.toNat + r.length.toNat

/-- A region of addresses: it is not empty and does not wrap. -/
def Wf (r : IommuResvRegion) : Prop := 0 < r.length.toNat ∧ r.stop ≤ 2 ^ 64

/-- The test of the loop. -/
def Overlaps (walk region : IommuResvRegion) : Prop :=
  ¬ (walk.start > region.start + region.length ∨ walk.start + walk.length < region.start)

instance (walk region : IommuResvRegion) : Decidable (walk.Overlaps region) :=
  inferInstanceAs (Decidable (¬ _))

/-- What it is meant to test. -/
def Intersects (walk region : IommuResvRegion) : Prop :=
  walk.start.toNat < region.stop ∧ region.start.toNat < walk.stop

instance (walk region : IommuResvRegion) : Decidable (walk.Intersects region) :=
  inferInstanceAs (Decidable (_ ∧ _))

/-- The addresses of a region. -/
def addresses (r : IommuResvRegion) : Set ℕ := Set.Ico r.start.toNat r.stop

theorem intersects_iff {walk region : IommuResvRegion} (hw : walk.Wf) (hr : region.Wf) :
    walk.Intersects region ↔ (walk.addresses ∩ region.addresses).Nonempty := by
  unfold Wf stop at hw hr
  unfold Intersects addresses stop
  constructor
  · intro h
    refine ⟨max walk.start.toNat region.start.toNat, ?_, ?_⟩
    · rw [Set.mem_Ico]
      omega
    · rw [Set.mem_Ico]
      omega
  · rintro ⟨x, hx, hx'⟩
    rw [Set.mem_Ico] at hx hx'
    omega

/-- The region `b` ends at `2 ^ 64`, and the test is right about it and `a`. -/
def RightAtTop (a b : IommuResvRegion) : Prop :=
  b.stop = 2 ^ 64 ∧ a.stop < 2 ^ 64 ∧
    (a.start.toNat = 0 → b.start.toNat ≠ a.stop) ∧ (0 < a.start.toNat → a.stop ≤ b.start.toNat)

/-- Two regions below `2 ^ 64` do not touch. Where one of them ends at `2 ^ 64`, the other one
starts at 0 and does not touch it, or is below it. -/
def Told (a b : IommuResvRegion) : Prop :=
  (a.stop < 2 ^ 64 ∧ b.stop < 2 ^ 64 ∧ a.start.toNat ≠ b.stop ∧ b.start.toNat ≠ a.stop) ∨
    RightAtTop a b ∨ RightAtTop b a

theorem overlaps_iff {walk region : IommuResvRegion} :
    walk.Overlaps region ↔
      walk.start.toNat ≤ region.stop % 2 ^ 64 ∧ region.start.toNat ≤ walk.stop % 2 ^ 64 := by
  unfold Overlaps stop
  rw [gt_iff_lt, BitVec.lt_def, BitVec.lt_def, BitVec.toNat_add, BitVec.toNat_add]
  omega

/-- The test is right about two regions exactly when they are `Told`. -/
theorem told_iff {walk region : IommuResvRegion} (hw : walk.Wf) (hr : region.Wf) :
    (walk.Overlaps region ↔ walk.Intersects region) ↔ walk.Told region := by
  have hws := walk.start.isLt
  have hrs := region.start.isLt
  rw [overlaps_iff]
  unfold Wf stop at hw hr
  unfold Intersects Told RightAtTop stop
  by_cases htop : walk.start.toNat + walk.length.toNat = 2 ^ 64
  · by_cases htop' : region.start.toNat + region.length.toNat = 2 ^ 64
    · rw [htop, htop']
      omega
    · rw [htop]
      omega
  · omega

end IommuResvRegion

/-! ### `sunxi_iommu_check_cmd` -/

/-- The properties of a device node, each a list of `u64`. -/
abbrev DeviceNode := String → Option (List (BitVec 64))

/-- `of_property_read_variable_u64_array` of the kernel, from 0 to `max` values: an error, or the
values it has written. A property that fits is written as it is. -/
structure PropertyReader where
  read : List (BitVec 64) → ℕ → Except ℤ (List (BitVec 64))
  read_fits : ∀ {values max}, values ≠ [] → values.length ≤ max → read values max = .ok values
  read_initial : ∀ {values max out}, read values max = .ok out → out <+: values ∧ out.length ≤ max

/-- Which allocations succeed: the buffer, and the regions in the order in which they are made. -/
structure Memory where
  kzalloc : Bool
  region : ℕ → Bool

def Memory.plenty : Memory := ⟨true, fun _ => true⟩

/-- What is printed for the device. -/
inductive Message
  -- "size %d of array %s should be even\n"
  | oddSize (count : ℕ) (name : String)
  -- "no memory for iova rsv region"
  | noMemory
  -- "overlap on iova-reserve %pap~%pap with %pap~%pap"
  | overlap (walkStart walkEnd regionStart regionEnd : BitVec 64)
  deriving DecidableEq

/-- The warning for a pair of an earlier region and a new one. -/
def overlapMessage (p : IommuResvRegion × IommuResvRegion) : Message :=
  .overlap p.1.start (p.1.start + p.1.length) p.2.start (p.2.start + p.2.length)

/-- The list of regions, the messages, and how many regions have been allocated. -/
structure Reserve where
  rsvList : List IommuResvRegion
  log : List Message
  allocs : ℕ

def supportedRegion : List (String × IommuResvType) :=
  [("sunxi-iova-reserve", .IOMMU_RESV_RESERVED), ("sunxi-iova-premap", .IOMMU_RESV_DIRECT)]

def REGION_CNT_MAX : ℕ := 8

/-- Two `u64` describe one region. -/
def pairs : List (BitVec 64) → List (BitVec 64 × BitVec 64)
  | start :: length :: values => (start, length) :: pairs values
  | _ => []

/-- `iommu_alloc_resv_region`, when it succeeds. -/
def newRegion (type : IommuResvType) (p : BitVec 64 × BitVec 64) : IommuResvRegion :=
  { start := p.1, length := p.2, prot := IOMMU_WRITE ||| IOMMU_READ, type := type }

/-- The body of the inner loop. -/
def addRegion (memory : Memory) (type : IommuResvType) (st : Reserve)
    (p : BitVec 64 × BitVec 64) : Reserve :=
  if memory.region st.allocs then
    let region := newRegion type p
    let warnings := (st.rsvList.filter fun walk => walk.Overlaps region).map fun walk =>
      overlapMessage (walk, region)
    { rsvList := st.rsvList ++ [region], log := st.log ++ warnings, allocs := st.allocs + 1 }
  else { st with log := st.log ++ [.noMemory], allocs := st.allocs + 1 }

/-- The body of the outer loop. -/
def readProperty (memory : Memory) (reader : PropertyReader) (node : DeviceNode) (st : Reserve)
    (supported : String × IommuResvType) : Reserve :=
  match node supported.1 with
  | none => st
  | some values =>
    match reader.read values REGION_CNT_MAX with
    | .error _ => st
    | .ok array =>
      if array.length = 0 then st
      else if array.length % 2 ≠ 0 then
        { st with log := st.log ++ [.oddSize array.length supported.1] }
      else (pairs array).foldl (addRegion memory supported.2) st

def checkCmd (memory : Memory) (reader : PropertyReader) (node : DeviceNode)
    (rsvList : List IommuResvRegion) : ℤ × Reserve :=
  if ¬ memory.kzalloc then (-ENOMEM, ⟨rsvList, [], 0⟩)
  else (0, supportedRegion.foldl (readProperty memory reader node) ⟨rsvList, [], 0⟩)

/-! ### What a node lists -/

namespace DeviceNode

/-- The regions that a property of the node lists. -/
def property (node : DeviceNode) (supported : String × IommuResvType) : List IommuResvRegion :=
  (pairs ((node supported.1).getD [])).map (newRegion supported.2)

/-- The regions that the node lists. -/
def regions (node : DeviceNode) : List IommuResvRegion := supportedRegion.flatMap node.property

/-- Each property is a list of pairs. -/
def Paired (node : DeviceNode) : Prop :=
  ∀ supported ∈ supportedRegion, ∀ values ∈ node supported.1, values.length % 2 = 0

end DeviceNode

/-- A call for a node, with all allocations succeeding, appends the regions that the node lists, and
warns of the regions that a new one intersects. -/
def ReadRight (reader : PropertyReader) (node : DeviceNode) (rsvList : List IommuResvRegion) :
    Prop :=
  let out := checkCmd .plenty reader node rsvList
  out.1 = 0 ∧ out.2.rsvList = rsvList ++ node.regions ∧
    out.2.log = ((earlierPairs rsvList node.regions).filter fun p => p.1.Intersects p.2).map
      overlapMessage

/-! ### What the call does -/

/-- The state after regions have been added, all allocations succeeding. -/
def Reserve.add (st : Reserve) (rs : List IommuResvRegion) : Reserve where
  rsvList := st.rsvList ++ rs
  log := st.log ++
    ((earlierPairs st.rsvList rs).filter fun p => p.1.Overlaps p.2).map overlapMessage
  allocs := st.allocs + rs.length

theorem Reserve.add_nil (st : Reserve) : st.add [] = st := by
  simp [Reserve.add]

theorem Reserve.add_add (st : Reserve) (rs ts : List IommuResvRegion) :
    (st.add rs).add ts = st.add (rs ++ ts) := by
  simp only [Reserve.add, earlierPairs_append, List.filter_append, List.map_append,
    List.append_assoc, List.length_append, Nat.add_assoc]

theorem length_pairs (values : List (BitVec 64)) : (pairs values).length = values.length / 2 := by
  fun_induction pairs values with
  | case1 start length values ih =>
    simp only [List.length_cons, ih]
    omega
  | case2 values h =>
    match values, h with
    | [], _ => rfl
    | [_], _ => simp
    | a :: b :: l, h => exact absurd rfl (h a b l)

/-- A warning tells the start and the length of both regions. -/
theorem of_overlapMessage_eq {x y : IommuResvRegion × IommuResvRegion}
    (h : overlapMessage x = overlapMessage y) :
    (x.1.start = y.1.start ∧ x.1.length = y.1.length) ∧
      x.2.start = y.2.start ∧ x.2.length = y.2.length := by
  obtain ⟨hw, hwe, hr, hre⟩ := Message.overlap.inj h
  rw [hw] at hwe
  rw [hr] at hre
  exact ⟨⟨hw, (BitVec.add_right_inj _).mp hwe⟩, hr, (BitVec.add_right_inj _).mp hre⟩

theorem overlaps_congr (x y : IommuResvRegion × IommuResvRegion)
    (h : overlapMessage x = overlapMessage y) :
    decide (x.1.Overlaps x.2) = decide (y.1.Overlaps y.2) := by
  obtain ⟨⟨h₁, h₂⟩, h₃, h₄⟩ := of_overlapMessage_eq h
  refine decide_eq_decide.mpr ?_
  simp only [IommuResvRegion.Overlaps, h₁, h₂, h₃, h₄]

theorem intersects_congr (x y : IommuResvRegion × IommuResvRegion)
    (h : overlapMessage x = overlapMessage y) :
    decide (x.1.Intersects x.2) = decide (y.1.Intersects y.2) := by
  obtain ⟨⟨h₁, h₂⟩, h₃, h₄⟩ := of_overlapMessage_eq h
  refine decide_eq_decide.mpr ?_
  simp only [IommuResvRegion.Intersects, IommuResvRegion.stop, h₁, h₂, h₃, h₄]

section

variable {reader : PropertyReader} {node : DeviceNode} {st : Reserve}

theorem addRegion_plenty (type : IommuResvType) (st : Reserve) (p : BitVec 64 × BitVec 64) :
    addRegion .plenty type st p = st.add [newRegion type p] := by
  have hpairs : earlierPairs st.rsvList [newRegion type p]
      = st.rsvList.map (·, newRegion type p) := by
    rw [earlierPairs_cons, earlierPairs_nil, List.append_nil]
  simp only [addRegion, Memory.plenty, if_true, Reserve.add, hpairs, List.filter_map, List.map_map,
    List.length_singleton]
  rfl

theorem foldl_addRegion (type : IommuResvType) (st : Reserve) (ps : List (BitVec 64 × BitVec 64)) :
    ps.foldl (addRegion .plenty type) st = st.add (ps.map (newRegion type)) := by
  induction ps generalizing st with
  | nil => exact st.add_nil.symm
  | cons p ps ih => rw [List.foldl_cons, addRegion_plenty, ih, Reserve.add_add, List.map_cons,
      List.singleton_append]

/-- A property of at most four regions is read as it is. -/
theorem readProperty_fits {s : String × IommuResvType}
    (hpaired : ∀ values ∈ node s.1, values.length % 2 = 0) (hle : (node.property s).length ≤ 4) :
    readProperty .plenty reader node st s = st.add (node.property s) := by
  unfold readProperty
  unfold DeviceNode.property at hle ⊢
  cases hnode : node s.1 with
  | none => exact st.add_nil.symm
  | some values =>
    rw [hnode, Option.getD_some, List.length_map, length_pairs] at hle
    have heven := hpaired values hnode
    dsimp only
    rw [Option.getD_some]
    by_cases hempty : values = []
    · subst hempty
      cases hread : reader.read [] REGION_CNT_MAX with
      | error e => exact st.add_nil.symm
      | ok out =>
        rw [List.prefix_nil.mp (reader.read_initial hread).1]
        exact st.add_nil.symm
    · have hpos : values.length ≠ 0 := fun h => hempty (List.length_eq_zero_iff.mp h)
      have hfits : values.length ≤ REGION_CNT_MAX := by
        unfold REGION_CNT_MAX
        omega
      rw [reader.read_fits hempty hfits]
      dsimp only
      rw [if_neg hpos, if_neg (not_not.mpr heven), foldl_addRegion]

/-- No property adds more regions than it lists, nor more than four. -/
theorem readProperty_le (reader : PropertyReader) (node : DeviceNode) (st : Reserve)
    (s : String × IommuResvType) :
    ∃ rs, (readProperty .plenty reader node st s).rsvList = st.rsvList ++ rs ∧
      rs.length ≤ 4 ∧ rs.length ≤ (node.property s).length := by
  have hnone : ∃ rs, st.rsvList = st.rsvList ++ rs ∧ rs.length ≤ 4 ∧
      rs.length ≤ (node.property s).length :=
    ⟨[], (List.append_nil _).symm, Nat.zero_le _, Nat.zero_le _⟩
  unfold readProperty
  cases hnode : node s.1 with
  | none => exact hnone
  | some values =>
    dsimp only
    cases hread : reader.read values REGION_CNT_MAX with
    | error e => exact hnone
    | ok out =>
      dsimp only
      split_ifs
      · exact hnone
      · exact hnone
      · obtain ⟨hinitial, hlen⟩ := reader.read_initial hread
        have hshort : out.length ≤ values.length := hinitial.length_le
        rw [foldl_addRegion]
        refine ⟨_, rfl, ?_, ?_⟩
        · rw [List.length_map, length_pairs]
          unfold REGION_CNT_MAX at hlen
          omega
        · rw [DeviceNode.property, hnode, Option.getD_some, List.length_map, List.length_map,
            length_pairs, length_pairs]
          omega

theorem checkCmd_plenty (reader : PropertyReader) (node : DeviceNode)
    (rsvList : List IommuResvRegion) :
    checkCmd .plenty reader node rsvList =
      (0, supportedRegion.foldl (readProperty .plenty reader node) ⟨rsvList, [], 0⟩) := rfl

/-- A node whose properties have at most four regions each is read completely. -/
theorem checkCmd_fits (hpaired : node.Paired)
    (hle : ∀ s ∈ supportedRegion, (node.property s).length ≤ 4) (rsvList : List IommuResvRegion) :
    checkCmd .plenty reader node rsvList = (0, Reserve.add ⟨rsvList, [], 0⟩ node.regions) := by
  have hfold : ∀ (l : List (String × IommuResvType)) (st : Reserve),
      (∀ s ∈ l, s ∈ supportedRegion) →
        l.foldl (readProperty .plenty reader node) st = st.add (l.flatMap node.property) := by
    intro l
    induction l with
    | nil => exact fun st _ => st.add_nil.symm
    | cons s l ih =>
      intro st hl
      have hs := hl s List.mem_cons_self
      rw [List.foldl_cons, readProperty_fits (hpaired s hs) (hle s hs),
        ih _ fun u hu => hl u (List.mem_cons_of_mem s hu), Reserve.add_add, List.flatMap_cons]
  rw [checkCmd_plenty, hfold _ _ fun s hs => hs]
  rfl

/-- A call that leaves what the node lists has read properties of at most four regions. -/
theorem length_le_of_checkCmd {rsvList : List IommuResvRegion}
    (h : (checkCmd .plenty reader node rsvList).2.rsvList = rsvList ++ node.regions) :
    ∀ s ∈ supportedRegion, (node.property s).length ≤ 4 := by
  set s₁ : String × IommuResvType := ("sunxi-iova-reserve", .IOMMU_RESV_RESERVED) with hs₁
  set s₂ : String × IommuResvType := ("sunxi-iova-premap", .IOMMU_RESV_DIRECT) with hs₂
  obtain ⟨rs, hrs, hrs4, hrsle⟩ := readProperty_le reader node ⟨rsvList, [], 0⟩ s₁
  obtain ⟨ts, hts, hts4, htsle⟩ := readProperty_le reader node
    (readProperty .plenty reader node ⟨rsvList, [], 0⟩ s₁) s₂
  have hlists : rsvList ++ rs ++ ts
      = rsvList ++ (node.property s₁ ++ (node.property s₂ ++ [])) := by
    rw [← hrs, ← hts]
    exact h
  have hlen := congrArg List.length hlists
  simp only [List.length_append, List.length_nil] at hlen
  intro s hs
  rcases List.mem_cons.mp hs with hs | hs
  · rw [hs, ← hs₁]
    omega
  · rw [List.mem_singleton.mp hs, ← hs₂]
    omega

/-! ### The call is right -/

/-- **A node is read as it is meant exactly when no property lists more than four regions and the
test for an overlap is right about every new region and every earlier one on the list.** -/
theorem reserved_regions_iff (reader : PropertyReader) (node : DeviceNode)
    (rsvList : List IommuResvRegion) (hpaired : node.Paired)
    (hwf : ∀ r ∈ rsvList ++ node.regions, r.Wf) :
    ReadRight reader node rsvList ↔
      (∀ s ∈ supportedRegion, (node.property s).length ≤ 4) ∧
        ∀ l₁ region l₂, node.regions = l₁ ++ region :: l₂ → ∀ walk ∈ rsvList ++ l₁,
          walk.Told region := by
  -- the regions of a pair are among those of the hypothesis
  have hright : ∀ l₁ region l₂, node.regions = l₁ ++ region :: l₂ → ∀ walk ∈ rsvList ++ l₁,
      ((walk.Overlaps region ↔ walk.Intersects region) ↔ walk.Told region) := by
    intro l₁ region l₂ hsplit walk hwalk
    refine IommuResvRegion.told_iff (hwf walk ?_) (hwf region ?_)
    · rw [hsplit, ← List.append_assoc]
      exact List.mem_append_left _ hwalk
    · simp [hsplit]
  have hwarn : (((earlierPairs rsvList node.regions).filter fun p => p.1.Overlaps p.2).map
        overlapMessage
      = ((earlierPairs rsvList node.regions).filter fun p => p.1.Intersects p.2).map
        overlapMessage) ↔ ∀ l₁ region l₂, node.regions = l₁ ++ region :: l₂ →
          ∀ walk ∈ rsvList ++ l₁, walk.Told region := by
    rw [map_filter_eq_iff overlaps_congr intersects_congr]
    constructor
    · intro h l₁ region l₂ hsplit walk hwalk
      have hp := h (walk, region) (mem_earlierPairs.mpr ⟨l₁, l₂, hsplit, hwalk⟩)
      exact (hright l₁ region l₂ hsplit walk hwalk).mp (decide_eq_decide.mp hp)
    · rintro h ⟨walk, region⟩ hp
      obtain ⟨l₁, l₂, hsplit, hwalk⟩ := mem_earlierPairs.mp hp
      have htold := h l₁ region l₂ hsplit walk hwalk
      exact decide_eq_decide.mpr ((hright l₁ region l₂ hsplit walk hwalk).mpr htold)
  constructor
  · rintro ⟨-, hlist, hlog⟩
    have hle := length_le_of_checkCmd hlist
    rw [checkCmd_fits hpaired hle] at hlog
    exact ⟨hle, hwarn.mp (by simpa only [Reserve.add, List.nil_append] using hlog)⟩
  · rintro ⟨hle, htold⟩
    unfold ReadRight
    rw [checkCmd_fits hpaired hle]
    refine ⟨rfl, rfl, ?_⟩
    simpa only [Reserve.add, List.nil_append] using hwarn.mpr htold

/-- A reader that refuses a property that is too long. -/
def strictReader : PropertyReader where
  read values max := if values.length ≤ max then .ok values else .error (-EOVERFLOW)
  read_fits _ h := if_pos h
  read_initial {values max out} h := by
    split at h
    · rename_i hle
      obtain rfl := Except.ok.inj h
      exact ⟨List.prefix_rfl, hle⟩
    · exact nomatch h

/-- A node with the property "sunxi-iova-reserve" only. -/
def reserveNode (values : List (BitVec 64)) : DeviceNode := fun name =>
  if name = "sunxi-iova-reserve" then some values else none

/-- Two regions that are apart. -/
def twoRegions : DeviceNode := reserveNode [0x1000, 0x1000, 0x3000, 0x1000]

theorem reserved_regions_iff_two :
    ReadRight strictReader twoRegions [] ↔
      (∀ s ∈ supportedRegion, (twoRegions.property s).length ≤ 4) ∧
        ∀ l₁ region l₂, twoRegions.regions = l₁ ++ region :: l₂ →
          ∀ walk ∈ ([] : List IommuResvRegion) ++ l₁, walk.Told region :=
  reserved_regions_iff strictReader twoRegions [] (by unfold DeviceNode.Paired; decide)
    (by unfold IommuResvRegion.Wf; decide)

/-- Five regions that are apart from each other. -/
def fiveRegions : DeviceNode :=
  reserveNode [0x1000, 0x800, 0x2000, 0x800, 0x3000, 0x800, 0x4000, 0x800, 0x5000, 0x800]

/-- None of them is reserved. -/
theorem five_regions_are_lost :
    fiveRegions.Paired ∧ (∀ r ∈ fiveRegions.regions, r.Wf) ∧
      (∀ s ∈ supportedRegion, (fiveRegions.property s).length ≤ REGION_CNT_MAX) ∧
      ¬ ReadRight strictReader fiveRegions [] := by
  refine ⟨?_, ?_, by decide, fun h => absurd h.2.1 (by decide)⟩
  · unfold DeviceNode.Paired
    decide
  · unfold IommuResvRegion.Wf
    decide

/-! ### Failing allocations -/

theorem foldl_keeps {α : Type*} {f : Reserve → α → Reserve}
    (h : ∀ st a, st.rsvList <+: (f st a).rsvList) (l : List α) (st : Reserve) :
    st.rsvList <+: (l.foldl f st).rsvList := by
  induction l generalizing st with
  | nil => exact List.prefix_rfl
  | cons a l ih => exact (h st a).trans (ih _)

theorem addRegion_keeps (memory : Memory) (type : IommuResvType) (st : Reserve)
    (p : BitVec 64 × BitVec 64) : st.rsvList <+: (addRegion memory type st p).rsvList := by
  unfold addRegion
  split
  · exact List.prefix_append _ _
  · exact List.prefix_rfl

theorem readProperty_keeps (memory : Memory) (reader : PropertyReader) (node : DeviceNode)
    (st : Reserve) (s : String × IommuResvType) :
    st.rsvList <+: (readProperty memory reader node st s).rsvList := by
  unfold readProperty
  split
  · exact List.prefix_rfl
  · split
    · exact List.prefix_rfl
    · split_ifs
      · exact List.prefix_rfl
      · exact List.prefix_rfl
      · exact foldl_keeps (addRegion_keeps memory s.2) _ st

/-- Whatever the allocations and the reader do, a call only adds to the list; without its buffer it
fails and adds nothing. -/
theorem checkCmd_keeps (memory : Memory) (reader : PropertyReader) (node : DeviceNode)
    (rsvList : List IommuResvRegion) :
    rsvList <+: (checkCmd memory reader node rsvList).2.rsvList ∧
      (memory.kzalloc = false →
        checkCmd memory reader node rsvList = (-ENOMEM, ⟨rsvList, [], 0⟩)) := by
  unfold checkCmd
  split
  · exact ⟨List.prefix_rfl, fun _ => rfl⟩
  · rename_i hk
    refine ⟨?_, fun h => absurd (by rw [h]; decide) hk⟩
    exact foldl_keeps (readProperty_keeps memory reader node) supportedRegion ⟨rsvList, [], 0⟩

/-! ### All devices -/

/-- `__init_reserve_mem`: the call is made for every device, until one fails. -/
def initReserveMem (memory : Memory) (reader : PropertyReader) :
    List DeviceNode → List IommuResvRegion → ℤ × List IommuResvRegion
  | [], rsvList => (0, rsvList)
  | node :: nodes, rsvList =>
    let out := checkCmd memory reader node rsvList
    if out.1 ≠ 0 then (out.1, out.2.rsvList)
    else initReserveMem memory reader nodes out.2.rsvList

/-- The list ends up with the regions of all devices when no property is too long. -/
theorem initReserveMem_fits {nodes : List DeviceNode} (hpaired : ∀ node ∈ nodes, node.Paired)
    (hle : ∀ node ∈ nodes, ∀ s ∈ supportedRegion, (node.property s).length ≤ 4)
    (rsvList : List IommuResvRegion) :
    initReserveMem .plenty reader nodes rsvList
      = (0, rsvList ++ nodes.flatMap DeviceNode.regions) := by
  induction nodes generalizing rsvList with
  | nil => simp [initReserveMem]
  | cons node nodes ih =>
    have hnode : checkCmd .plenty reader node rsvList
        = (0, Reserve.add ⟨rsvList, [], 0⟩ node.regions) :=
      checkCmd_fits (hpaired node List.mem_cons_self) (hle node List.mem_cons_self) rsvList
    simp only [initReserveMem, hnode, ne_eq, not_true_eq_false, if_false, Reserve.add]
    rw [ih (fun n hn => hpaired n (List.mem_cons_of_mem node hn))
      (fun n hn => hle n (List.mem_cons_of_mem node hn)), List.flatMap_cons, List.append_assoc]

end

end LonganPi.Iommu
