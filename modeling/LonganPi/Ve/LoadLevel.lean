import LonganPi.Ve.LoadTable
import Mathlib.Algebra.BigOperators.Group.List.Basic
import Mathlib.Algebra.Ring.Int.Defs

/-!
# The level of a load

`adjust_ve_freq_by_case_load_sun55iw3` compares the load with the ranges of
`decoder_perform_sun55iw3`. The ranges of a codec are a ladder from 0 to `LEVELE_MAX_END_PIXELS`, so
that every load up to there has one level, and a larger one no lower frequency. What is compared is
the sum of products of `int`s in a `u32`: the load modulo `2 ^ 32`. For one or two decoders of one
codec the level is right, and the clock stays where there is none, exactly when a load that is small
modulo `2 ^ 32` is the load itself (`load_level_iff`).
-/

open DriverLib

namespace LonganPi.Ve

/-! ### The load -/

/-- The pixels per second of a channel, as an exact number. -/
def VeCaseLoadParam.pixels (p : VeCaseLoadParam) : ℤ :=
  p.width * p.height * (if p.frameRate ≤ 0 then 60 else p.frameRate)

/-- The load of the used entries. -/
def LoadTable.load (T : LoadTable) : ℤ := (T.usedParams.map VeCaseLoadParam.pixels).sum

/-- What `adjust_ve_freq_by_case_load_sun55iw3` sums up. -/
def LoadTable.summed (T : LoadTable) : LoadSum :=
  T.fixRates.usedParams.foldl LoadSum.add LoadSum.init

/-- The level that `adjust_ve_freq_by_case_load_sun55iw3` picks. -/
def LoadTable.pickedLevel (T : LoadTable) : Option PerformatInfo := pickLevel T.summed

/-- One or two decoder channels of one codec, and no other channel. -/
structure LoadTable.OneCodec (T : LoadTable) (codecFormat : ℤ) : Prop where
  codec : ∀ p ∈ T.usedParams, p.codecFormat = codecFormat
  decoder : codecFormat < VE_DECODER_FORMAT_MAX
  used : T.usedParams ≠ []
  few : T.usedParams.length ≤ 2

/-- The load is in the range of the level. -/
def PerformatInfo.Has (l : PerformatInfo) (load : ℤ) : Prop :=
  l.startPixels ≤ load ∧ load ≤ l.endPixels

/-- The levels of a codec. -/
def levelsOf (codecFormat : ℤ) : List PerformatInfo :=
  decoderPerform.filter fun l => intToU32 codecFormat = l.codecFormmat

/-- A level that is picked has the load, and without a level for the load the clock stays. -/
structure LevelOk (T : LoadTable) (codecFormat : ℤ) : Prop where
  picked : ∀ l, T.pickedLevel = some l → l.Has T.load
  unchanged : (∀ l ∈ levelsOf codecFormat, ¬ l.Has T.load) →
    ∀ userSettingVeFreq rate ok, (adjustVeFreqByCaseLoad T userSettingVeFreq rate ok).2 = rate

/-- A load that is small modulo `2 ^ 32` is small. -/
def LoadFits (load : ℤ) : Prop :=
  load % 2 ^ 32 ≤ LEVELE_MAX_END_PIXELS → 0 ≤ load ∧ load < 2 ^ 32

/-! ### The ladder -/

/-- Ranges behind each other, from `lo` to the last pixel, with ascending frequencies. -/
def Ladder : ℕ → List PerformatInfo → Prop
  | lo, [] => lo = LEVELE_MAX_END_PIXELS + 1
  | lo, l :: ls => l.startPixels = lo ∧ lo ≤ l.endPixels ∧
      (∀ l' ∈ ls, l.veFreq < l'.veFreq) ∧ Ladder (l.endPixels + 1) ls

instance decidableLadder : ∀ lo ls, Decidable (Ladder lo ls)
  | _, [] => inferInstanceAs (Decidable (_ = _))
  | _, l :: ls =>
    have := decidableLadder (l.endPixels + 1) ls
    inferInstanceAs (Decidable (_ ∧ _ ∧ _ ∧ _))

section Ladder

variable {lo : ℕ} {ls : List PerformatInfo} {l l' : PerformatInfo} {n k : ℕ}

/-- A ladder ends with the last pixel. -/
theorem Ladder.le (h : Ladder lo ls) : lo ≤ LEVELE_MAX_END_PIXELS + 1 := by
  induction ls generalizing lo with
  | nil => exact Nat.le_of_eq h
  | cons m ls ih =>
    obtain ⟨-, hle, -, hrest⟩ := h
    exact hle.trans (Nat.le_of_succ_le (ih hrest))

/-- The ranges of a ladder are from `lo` to the last pixel. -/
theorem Ladder.bounds (h : Ladder lo ls) (hl : l ∈ ls) :
    lo ≤ l.startPixels ∧ l.endPixels ≤ LEVELE_MAX_END_PIXELS := by
  induction ls generalizing lo with
  | nil => exact nomatch hl
  | cons m ls ih =>
    obtain ⟨hstart, hle, -, hrest⟩ := h
    rcases List.mem_cons.mp hl with rfl | hmem
    · exact ⟨hstart.ge, Nat.le_of_succ_le_succ hrest.le⟩
    · obtain ⟨hlo, hhi⟩ := ih hrest hmem
      exact ⟨hle.trans (Nat.le_of_succ_le hlo), hhi⟩

/-- Every number of a ladder is in a range. -/
theorem Ladder.exists_mem (h : Ladder lo ls) (hlo : lo ≤ n) (hhi : n ≤ LEVELE_MAX_END_PIXELS) :
    ∃ l ∈ ls, l.startPixels ≤ n ∧ n ≤ l.endPixels := by
  induction ls generalizing lo with
  | nil =>
    have hlast : lo = LEVELE_MAX_END_PIXELS + 1 := h
    omega
  | cons m ls ih =>
    obtain ⟨hstart, -, -, hrest⟩ := h
    by_cases hn : n ≤ m.endPixels
    · exact ⟨m, List.mem_cons_self, hstart ▸ hlo, hn⟩
    · obtain ⟨l, hl, hin⟩ := ih hrest (not_le.mp hn)
      exact ⟨l, List.mem_cons_of_mem m hl, hin⟩

/-- A larger number is in no range of a lower frequency. -/
theorem Ladder.veFreq_le (h : Ladder lo ls) (hl : l ∈ ls) (hl' : l' ∈ ls)
    (hin : l.startPixels ≤ n) (hin' : k ≤ l'.endPixels) (hle : n ≤ k) :
    l.veFreq ≤ l'.veFreq := by
  induction ls generalizing lo with
  | nil => exact nomatch hl
  | cons m ls ih =>
    obtain ⟨-, -, hfreqs, hrest⟩ := h
    rcases List.mem_cons.mp hl with rfl | hmem <;> rcases List.mem_cons.mp hl' with rfl | hmem'
    · exact le_rfl
    · exact (hfreqs l' hmem').le
    · have hlow := (hrest.bounds hmem).1
      omega
    · exact ih hrest hmem hmem'

end Ladder

/-- The levels of a codec are a ladder, or there are none. -/
theorem ladder_levelsOf (codecFormat : ℤ) :
    levelsOf codecFormat = [] ∨ Ladder 0 (levelsOf codecFormat) := by
  have hall : ∀ f ∈ decoderPerform.map PerformatInfo.codecFormmat,
      Ladder 0 (decoderPerform.filter fun l => f = l.codecFormmat) := by decide
  by_cases hmem : intToU32 codecFormat ∈ decoderPerform.map PerformatInfo.codecFormmat
  · exact Or.inr (hall _ hmem)
  · refine Or.inl (List.filter_eq_nil_iff.mpr fun l hl hcodec => hmem ?_)
    exact List.mem_map.mpr ⟨l, hl, (of_decide_eq_true hcodec).symm⟩

/-! ### What the code sums up -/

section Sum

variable {T : LoadTable} {c : ℤ} {a : LoadSum} {ps : List VeCaseLoadParam}

/-- A product of two `int`s and a third one, in a `u32`. -/
theorem intToU32_product (w h f : ℤ) :
    intToU32 (toInt32 (toInt32 (w * h) * f)) = ((w * h * f) % 2 ^ 32).toNat := by
  have hmod : ∀ n, toInt32 n % 2 ^ 32 = n % 2 ^ 32 := fun n => Int.bmod_emod
  unfold intToU32
  rw [hmod, Int.mul_emod, hmod, ← Int.mul_emod]

/-- The sum is exact modulo `2 ^ 32`. -/
theorem totalLoadPixels_foldl (ha : a.totalLoadPixels < 2 ^ 32) :
    (ps.foldl LoadSum.add a).totalLoadPixels =
      ((a.totalLoadPixels + (ps.map fun p : VeCaseLoadParam =>
        p.width * p.height * p.frameRate).sum) %
        2 ^ 32).toNat := by
  induction ps generalizing a with
  | nil =>
    rw [List.foldl_nil, List.map_nil, List.sum_nil]
    omega
  | cons p ps ih =>
    have hadd : (a.add p).totalLoadPixels = (a.totalLoadPixels +
        ((p.width * p.height * p.frameRate) % 2 ^ 32).toNat) % 2 ^ 32 := by
      rw [← intToU32_product]
      rfl
    have hlt : (a.add p).totalLoadPixels < 2 ^ 32 := hadd ▸ Nat.mod_lt _ (by decide)
    rw [List.foldl_cons, ih hlt, hadd, List.map_cons, List.sum_cons]
    omega

/-- The counters of a sum over channels of one codec. -/
theorem foldl_oneCodec (hc : c < VE_DECODER_FORMAT_MAX) (hcodec : ∀ p ∈ ps, p.codecFormat = c)
    (hprevious : a.previousCodecFormat = -1 ∨ a.previousCodecFormat = c) :
    (ps.foldl LoadSum.add a).decoderChannelNum = a.decoderChannelNum + ps.length ∧
      (ps.foldl LoadSum.add a).encoderChannelNum = a.encoderChannelNum ∧
      (ps.foldl LoadSum.add a).hadDifferentCodecChannel = a.hadDifferentCodecChannel ∧
      (ps ≠ [] → (ps.foldl LoadSum.add a).curCodecFormat = c) := by
  induction ps generalizing a with
  | nil => exact ⟨rfl, rfl, rfl, fun h => absurd rfl h⟩
  | cons p ps ih =>
    obtain rfl := hcodec p List.mem_cons_self
    have hprev : (if a.previousCodecFormat = -1 then p.codecFormat else a.previousCodecFormat) =
        p.codecFormat := by
      rcases hprevious with h | h
      · rw [if_pos h]
      · rw [h, ite_self]
    obtain ⟨hdec, henc, hdiff, hcur⟩ := ih (a := a.add p)
      (fun q hq => hcodec q (List.mem_cons_of_mem p hq)) (Or.inr hprev)
    rw [List.foldl_cons]
    refine ⟨?_, ?_, ?_, fun _ => ?_⟩
    · rw [hdec, List.length_cons, Nat.add_comm ps.length, ← Nat.add_assoc]
      exact congrArg (· + ps.length) (if_pos hc)
    · exact henc.trans (if_pos hc)
    · rw [hdiff]
      unfold LoadSum.add
      dsimp only
      rw [hprev, decide_eq_false (not_not_intro rfl), Bool.or_false]
    · cases ps with
      | nil => rfl
      | cons q ps => exact hcur (List.cons_ne_nil q ps)

/-- Fixing the frame rates of a table. -/
theorem usedParams_fixRates (T : LoadTable) :
    T.fixRates.usedParams = T.usedParams.map VeCaseLoadParam.fixRate := by
  unfold LoadTable.usedParams
  induction List.finRange MAX_VE_LOAD_PARAM_CHANNEL with
  | nil => rfl
  | cons i L ih =>
    obtain ⟨hused, -, -⟩ := fixRates_fields T i
    rw [List.map_cons, List.map_cons, List.filter_cons, List.filter_cons, hused]
    by_cases h : (T i).isUsed = 1
    · have hinfo : (T.fixRates i).loadParam = (T i).loadParam.fixRate :=
        congrArg VeCaseLoadInfo.loadParam (if_pos h)
      rw [if_pos (decide_eq_true h), if_pos (decide_eq_true h), List.map_cons, List.map_cons,
        List.map_cons, ih, hinfo]
    · rw [if_neg (mt of_decide_eq_true h), if_neg (mt of_decide_eq_true h), ih]

theorem pixels_eq (p : VeCaseLoadParam) :
    p.pixels = p.fixRate.width * p.fixRate.height * p.fixRate.frameRate := by
  unfold VeCaseLoadParam.pixels VeCaseLoadParam.fixRate
  split <;> rfl

theorem codecFormat_fixRate (p : VeCaseLoadParam) : p.fixRate.codecFormat = p.codecFormat := by
  unfold VeCaseLoadParam.fixRate
  split <;> rfl

/-- What is summed up for one or two channels of one codec. -/
theorem LoadTable.OneCodec.summed (h : T.OneCodec c) :
    T.summed.decoderChannelNum = T.usedParams.length ∧ T.summed.encoderChannelNum = 0 ∧
      T.summed.hadDifferentCodecChannel = false ∧ T.summed.curCodecFormat = c ∧
      T.summed.totalLoadPixels = (T.load % 2 ^ 32).toNat := by
  have hcodec : ∀ p ∈ T.usedParams.map VeCaseLoadParam.fixRate, p.codecFormat = c := fun p hp => by
    obtain ⟨q, hq, rfl⟩ := List.mem_map.mp hp
    exact (codecFormat_fixRate q).trans (h.codec q hq)
  obtain ⟨hdec, henc, hdiff, hcur⟩ := foldl_oneCodec (a := LoadSum.init) h.decoder hcodec
    (Or.inl rfl)
  rw [List.length_map] at hdec
  unfold LoadTable.summed LoadTable.load
  rw [usedParams_fixRates]
  refine ⟨hdec.trans (Nat.zero_add _), henc, hdiff, ?_, ?_⟩
  · exact hcur fun hnil => h.used (List.map_eq_nil_iff.mp hnil)
  · rw [totalLoadPixels_foldl (by decide), List.map_map, funext pixels_eq]
    exact congrArg (fun n : ℤ => (n % 2 ^ 32).toNat) (zero_add _)

/-- The clock is chosen by a level. -/
theorem LoadTable.OneCodec.byLevel (h : T.OneCodec c) :
    ¬ T.summed.decoderChannelNum + T.summed.encoderChannelNum = 0 ∧
      ¬ (T.summed.encoderChannelNum > 0 ∨ T.summed.decoderChannelNum > 2 ∨
        T.summed.hadDifferentCodecChannel = true) := by
  obtain ⟨hdec, henc, hdiff, -, -⟩ := h.summed
  have hpos : 0 < T.usedParams.length := List.length_pos_iff.mpr h.used
  rw [hdec, henc, hdiff]
  refine ⟨hpos.ne', ?_⟩
  rintro (hencoder | hmany | hdifferent)
  · exact Nat.lt_irrefl 0 hencoder
  · exact Nat.not_lt.mpr h.few hmany
  · exact nomatch hdifferent

/-- The level is the one of the load modulo `2 ^ 32`. -/
theorem LoadTable.OneCodec.pickedLevel_eq (h : T.OneCodec c) :
    T.pickedLevel = matchPerform c (T.load % 2 ^ 32).toNat := by
  obtain ⟨-, -, -, hcur, htotal⟩ := h.summed
  unfold LoadTable.pickedLevel pickLevel
  rw [if_neg h.byLevel.1, if_neg h.byLevel.2, hcur, htotal]

/-- Without a level the clock stays. -/
theorem LoadTable.OneCodec.rate_eq (h : T.OneCodec c) (hnone : T.pickedLevel = none)
    (userSettingVeFreq rate : ℤ) (ok : Bool) :
    (adjustVeFreqByCaseLoad T userSettingVeFreq rate ok).2 = rate := by
  have hpick : pickLevel (T.fixRates.usedParams.foldl LoadSum.add LoadSum.init) = none := hnone
  have hsome := h.byLevel.1
  have hone := h.byLevel.2
  unfold LoadTable.summed at hsome hone
  unfold adjustVeFreqByCaseLoad
  dsimp only
  rw [if_neg hsome, if_neg hone, hpick]

/-- The level of a number is one of the codec that has it. -/
theorem matchPerform_some {n : ℕ} {l : PerformatInfo} (h : matchPerform c n = some l) :
    l ∈ levelsOf c ∧ l.startPixels ≤ n ∧ n ≤ l.endPixels := by
  have hfound := List.find?_some h
  obtain ⟨hcodec, hin⟩ := of_decide_eq_true hfound
  exact ⟨List.mem_filter.mpr ⟨List.mem_of_find?_eq_some h, decide_eq_true hcodec⟩, hin⟩

/-- Without a level of a number, none of the codec has it. -/
theorem matchPerform_none {n : ℕ} (h : matchPerform c n = none) {l : PerformatInfo}
    (hl : l ∈ levelsOf c) : ¬ (l.startPixels ≤ n ∧ n ≤ l.endPixels) := fun hin => by
  obtain ⟨hmem, hcodec⟩ := List.mem_filter.mp hl
  exact List.find?_eq_none.mp h l hmem (decide_eq_true ⟨of_decide_eq_true hcodec, hin⟩)

/-- Every number up to the last pixel has a level, and no larger one has. -/
theorem matchPerform_isSome_iff (hlevels : levelsOf c ≠ []) (n : ℕ) :
    (matchPerform c n).isSome ↔ n ≤ LEVELE_MAX_END_PIXELS := by
  have hladder := (ladder_levelsOf c).resolve_left hlevels
  constructor
  · intro hsome
    obtain ⟨l, hl⟩ := Option.isSome_iff_exists.mp hsome
    obtain ⟨hmem, -, hhi⟩ := matchPerform_some hl
    exact hhi.trans (hladder.bounds hmem).2
  · intro hle
    rw [Option.isSome_iff_ne_none]
    intro hnone
    obtain ⟨l, hl, hin⟩ := hladder.exists_mem (Nat.zero_le n) hle
    exact matchPerform_none hnone hl hin

end Sum

/-! ### The level -/

section Level

variable {T T' : LoadTable} {c : ℤ}

/-- A level that is picked has the load exactly when a small load is what it seems. -/
theorem LoadTable.OneCodec.levelOk_iff (h : T.OneCodec c) (hlevels : levelsOf c ≠ []) :
    LevelOk T c ↔ LoadFits T.load := by
  have hladder := (ladder_levelsOf c).resolve_left hlevels
  have hpicked := h.pickedLevel_eq
  have hnonneg : 0 ≤ T.load % 2 ^ 32 := Int.emod_nonneg _ (by decide)
  have hlast : (LEVELE_MAX_END_PIXELS : ℤ) < 2 ^ 32 := by decide
  constructor
  · intro hok hsmall
    obtain ⟨l, hl⟩ := Option.isSome_iff_exists.mp
      ((matchPerform_isSome_iff hlevels (T.load % 2 ^ 32).toNat).mpr (by omega))
    obtain ⟨hlo, hhi⟩ := hok.picked l (hpicked.trans hl)
    have hend := (hladder.bounds (matchPerform_some hl).1).2
    omega
  · intro hfits
    refine ⟨fun l hl => ?_, fun hnone => h.rate_eq ?_⟩
    · rw [hpicked] at hl
      obtain ⟨hmem, hlo, hhi⟩ := matchPerform_some hl
      have hend := (hladder.bounds hmem).2
      have hexact := hfits (by omega)
      rw [Int.emod_eq_of_lt hexact.1 hexact.2] at hlo hhi
      unfold PerformatInfo.Has
      omega
    · rw [hpicked]
      by_contra hsome
      obtain ⟨l, hl⟩ := Option.ne_none_iff_exists'.mp hsome
      obtain ⟨hmem, hlo, hhi⟩ := matchPerform_some hl
      have hend := (hladder.bounds hmem).2
      have hexact := hfits (by omega)
      rw [Int.emod_eq_of_lt hexact.1 hexact.2] at hlo hhi
      refine hnone l hmem ?_
      unfold PerformatInfo.Has
      omega

/-- For a codec without levels there is nothing to pick. -/
theorem LoadTable.OneCodec.levelOk_of_nil (h : T.OneCodec c) (hlevels : levelsOf c = []) :
    LevelOk T c := by
  have hnone : T.pickedLevel = none := by
    rw [h.pickedLevel_eq]
    by_contra hsome
    obtain ⟨l, hl⟩ := Option.ne_none_iff_exists'.mp hsome
    have hmem := (matchPerform_some hl).1
    rw [hlevels] at hmem
    exact nomatch hmem
  refine ⟨fun l hl => ?_, fun _ => h.rate_eq hnone⟩
  rw [hnone] at hl
  exact nomatch hl

/-- **The level of a load.** For one or two decoders of one codec the level has the load, and the
clock stays where no level has it, exactly when the codec has no levels or a load that is small
modulo `2 ^ 32` is small. Of two such loads the larger one has no lower frequency. -/
theorem load_level_iff (h : T.OneCodec c) :
    (LevelOk T c ↔ levelsOf c = [] ∨ LoadFits T.load) ∧
      (LoadFits T.load → ∀ T' : LoadTable, T'.OneCodec c → LoadFits T'.load → T.load ≤ T'.load →
        ∀ l l', T.pickedLevel = some l → T'.pickedLevel = some l' →
          l.veFreq ≤ l'.veFreq) := by
  constructor
  · by_cases hlevels : levelsOf c = []
    · exact ⟨fun _ => Or.inl hlevels, fun _ => h.levelOk_of_nil hlevels⟩
    · rw [or_iff_right hlevels]
      exact h.levelOk_iff hlevels
  · intro hfits T' h' hfits' hle l l' hl hl'
    have hmem : l ∈ levelsOf c := (matchPerform_some (h.pickedLevel_eq.symm.trans hl)).1
    have hmem' : l' ∈ levelsOf c := (matchPerform_some (h'.pickedLevel_eq.symm.trans hl')).1
    have hlevels := List.ne_nil_of_mem hmem
    obtain ⟨hlo, -⟩ := ((h.levelOk_iff hlevels).mpr hfits).picked l hl
    obtain ⟨hlo', hhi'⟩ := ((h'.levelOk_iff hlevels).mpr hfits').picked l' hl'
    have hladder := (ladder_levelsOf c).resolve_left hlevels
    exact hladder.veFreq_le (n := T.load.toNat) (k := T'.load.toNat) hmem hmem' (by omega)
      (by omega) (by omega)

end Level

/-- One used entry. -/
def oneChannel (width height frameRate : ℤ) : LoadTable :=
  Function.update (fun _ => VeCaseLoadInfo.zero) ⟨0, by decide⟩
    ⟨⟨width, height, frameRate, VE_DECODER_FORMAT_H264, 0, 1⟩, 1, 1⟩

theorem oneChannel_oneCodec (width height frameRate : ℤ) :
    (oneChannel width height frameRate).OneCodec VE_DECODER_FORMAT_H264 where
  codec p hp := by
    obtain rfl := List.mem_singleton.mp hp
    rfl
  decoder := by decide
  used := List.cons_ne_nil _ _
  few := Nat.le_succ 1

theorem load_level_iff_hd :
    (LevelOk (oneChannel 1280 720 30) VE_DECODER_FORMAT_H264 ↔
      levelsOf VE_DECODER_FORMAT_H264 = [] ∨ LoadFits (oneChannel 1280 720 30).load) ∧
    (LoadFits (oneChannel 1280 720 30).load → ∀ T' : LoadTable,
      T'.OneCodec VE_DECODER_FORMAT_H264 → LoadFits T'.load →
        (oneChannel 1280 720 30).load ≤ T'.load → ∀ l l',
          (oneChannel 1280 720 30).pickedLevel = some l → T'.pickedLevel = some l' →
            l.veFreq ≤ l'.veFreq) :=
  load_level_iff (oneChannel_oneCodec 1280 720 30)

/-- A load of `2 ^ 32` is 0 in a `u32`, and it gets the lowest level. -/
theorem heaviest_load_wraps :
    ¬ ∀ (ops : List (LoadOp Unit)) s c,
      (loadMachine Unit).exec (LoadState.init 600 600) ops = some s →
        s.loadInfos.OneCodec c → LevelOk s.loadInfos c := by
  intro hall
  have hrun : ∃ s, (loadMachine Unit).exec (LoadState.init 600 600)
      [.openFile () true true false,
        .update () (some ⟨65536, 65536, 1, VE_DECODER_FORMAT_H264, 0, 1⟩) true] = some s ∧
      s.loadInfos = oneChannel 65536 65536 1 := ⟨_, rfl, funext (by decide)⟩
  obtain ⟨s, hexec, htable⟩ := hrun
  have hok := hall _ s VE_DECODER_FORMAT_H264 hexec (htable ▸ oneChannel_oneCodec 65536 65536 1)
  rw [htable] at hok
  have hlevel := hok.picked ⟨2, 0, 0, 56524800, 100⟩ (by decide)
  exact absurd hlevel.2 (by decide)

end LonganPi.Ve
