import LonganPi.Kernel
import Mathlib.Data.List.FinRange
import Mathlib.Logic.Function.Basic

/-!
# The load of the decoders

With `VE_SUPPORT_DVFS` every channel of a process tells the driver what it decodes, with
`IOCTL_UPDATE_CASE_LOAD_PARAM`. The table `load_infos` has an entry for each, by the process and
thread channel, and after every update the clock is chosen by the sum of the pixels per second.

Widths, heights and frame rates are `int`s of user space, and their product is one; the sum is a
`u32`. `setup_ve_freq` leaves the clock alone outside of 50 to 900 MHz, and the outcome of
`clk_set_rate` is an argument.
-/

namespace LonganPi.Ve

/-! ### The table -/

/-- Entries of the table. -/
def MAX_VE_LOAD_PARAM_CHANNEL : ℕ := 16

/-- The index of an entry. -/
abbrev LoadSlot := Fin MAX_VE_LOAD_PARAM_CHANNEL

/-- `struct ve_case_load_param` -/
structure VeCaseLoadParam where
  width : ℤ
  height : ℤ
  frameRate : ℤ
  codecFormat : ℤ
  isRemoveCurParam : ℤ
  threadChannelId : ℤ
  deriving DecidableEq, Repr

/-- `struct ve_case_load_info` -/
structure VeCaseLoadInfo where
  loadParam : VeCaseLoadParam
  isUsed : ℤ
  processChannelId : ℕ
  deriving DecidableEq, Repr

/-- An entry as `memset` leaves it. -/
def VeCaseLoadInfo.zero : VeCaseLoadInfo := ⟨⟨0, 0, 0, 0, 0, 0⟩, 0, 0⟩

/-- `cedar_devp->load_infos` -/
abbrev LoadTable := LoadSlot → VeCaseLoadInfo

/-- The entry is the one of a channel. -/
def VeCaseLoadInfo.Matches (d : VeCaseLoadInfo) (threadChannelId : ℤ) (processChannelId : ℕ) :
    Prop :=
  d.isUsed = 1 ∧ threadChannelId = d.loadParam.threadChannelId ∧
    processChannelId = d.processChannelId

instance (d : VeCaseLoadInfo) (t : ℤ) (p : ℕ) : Decidable (d.Matches t p) :=
  inferInstanceAs (Decidable (_ ∧ _))

/-- The entry is one of a process. -/
def VeCaseLoadInfo.OfProcess (d : VeCaseLoadInfo) (processChannelId : ℕ) : Prop :=
  d.isUsed = 1 ∧ processChannelId = d.processChannelId

instance (d : VeCaseLoadInfo) (p : ℕ) : Decidable (d.OfProcess p) :=
  inferInstanceAs (Decidable (_ ∧ _))

/-- The entry that an update is for: the one of its channel, or else an empty one. -/
def LoadTable.targetSlot (T : LoadTable) (threadChannelId : ℤ) (processChannelId : ℕ) :
    Option LoadSlot :=
  ((List.finRange _).find? fun i => (T i).Matches threadChannelId processChannelId).or
    ((List.finRange _).find? fun i => (T i).isUsed = 0)

/-- `update_case_load_param_sun55iw3` -/
def updateCaseLoadParam (T : LoadTable) (p : VeCaseLoadParam) (processChannelId : ℕ) :
    ℤ × LoadTable :=
  match T.targetSlot p.threadChannelId processChannelId with
  | none => (-1, T)
  | some i =>
    (0, Function.update T i
      (if p.isRemoveCurParam = 1 then VeCaseLoadInfo.zero else ⟨p, 1, processChannelId⟩))

/-- `remove_case_load_param_by_process_id_sun55iw3` -/
def removeCaseLoadParamByProcessId (T : LoadTable) (processChannelId : ℕ) : LoadTable :=
  match (List.finRange _).find? fun i => (T i).OfProcess processChannelId with
  | none => T
  | some i => Function.update T i VeCaseLoadInfo.zero

/-! ### The levels -/

def VE_DECODER_FORMAT_H264 : ℕ := 2
def VE_DECODER_FORMAT_H265 : ℕ := 3
def VE_DECODER_FORMAT_VP9 : ℕ := 4
def VE_DECODER_FORMAT_OTHER : ℕ := 5
def VE_DECODER_FORMAT_MAX : ℤ := 0x100

def LEVELE_1_START_PIXELS : ℕ := 0
def LEVELE_1_END_PIXELS : ℕ := 1280 * 736 * 60
def LEVELE_2_START_PIXELS : ℕ := 1280 * 736 * 60 + 1
def LEVELE_2_END_PIXELS : ℕ := 1920 * 1088 * 30
def LEVELE_3_START_PIXELS : ℕ := 1920 * 1088 * 30 + 1
def LEVELE_3_END_PIXELS : ℕ := 1920 * 1088 * 60
def LEVELE_4_START_PIXELS : ℕ := 1920 * 1088 * 60 + 1
def LEVELE_MAX_END_PIXELS : ℕ := 7680 * 4320 * 60

def VE_PERFORMANCE_MAX_FREQ : ℕ := 900

/-- `struct performat_info` -/
structure PerformatInfo where
  codecFormmat : ℕ
  levelPerformance : ℕ
  startPixels : ℕ
  endPixels : ℕ
  veFreq : ℕ
  deriving DecidableEq, Repr

/-- `decoder_perform_sun55iw3` -/
def decoderPerform : List PerformatInfo :=
  [⟨VE_DECODER_FORMAT_H264, 0, LEVELE_1_START_PIXELS, LEVELE_1_END_PIXELS, 100⟩,
    ⟨VE_DECODER_FORMAT_H264, 1, LEVELE_2_START_PIXELS, LEVELE_2_END_PIXELS, 200⟩,
    ⟨VE_DECODER_FORMAT_H264, 2, LEVELE_3_START_PIXELS, LEVELE_3_END_PIXELS, 350⟩,
    ⟨VE_DECODER_FORMAT_H264, 3, LEVELE_4_START_PIXELS, LEVELE_MAX_END_PIXELS,
      VE_PERFORMANCE_MAX_FREQ⟩,
    ⟨VE_DECODER_FORMAT_H265, 0, LEVELE_1_START_PIXELS, LEVELE_1_END_PIXELS, 100⟩,
    ⟨VE_DECODER_FORMAT_H265, 1, LEVELE_2_START_PIXELS, LEVELE_2_END_PIXELS, 150⟩,
    ⟨VE_DECODER_FORMAT_H265, 2, LEVELE_3_START_PIXELS, LEVELE_3_END_PIXELS, 350⟩,
    ⟨VE_DECODER_FORMAT_H265, 3, LEVELE_4_START_PIXELS, LEVELE_MAX_END_PIXELS,
      VE_PERFORMANCE_MAX_FREQ⟩,
    ⟨VE_DECODER_FORMAT_VP9, 0, LEVELE_1_START_PIXELS, LEVELE_1_END_PIXELS, 150⟩,
    ⟨VE_DECODER_FORMAT_VP9, 1, LEVELE_2_START_PIXELS, LEVELE_2_END_PIXELS, 200⟩,
    ⟨VE_DECODER_FORMAT_VP9, 2, LEVELE_3_START_PIXELS, LEVELE_3_END_PIXELS, 350⟩,
    ⟨VE_DECODER_FORMAT_VP9, 3, LEVELE_4_START_PIXELS, LEVELE_MAX_END_PIXELS,
      VE_PERFORMANCE_MAX_FREQ⟩,
    ⟨VE_DECODER_FORMAT_OTHER, 0, LEVELE_1_START_PIXELS, LEVELE_MAX_END_PIXELS,
      VE_PERFORMANCE_MAX_FREQ⟩]

/-! ### The choice of the clock -/

def VE_CLK_LOW_WATER : ℤ := 50
def VE_CLK_HIGH_WATER : ℤ := 900

/-- `setup_ve_freq`: the clock in MHz, which was `rate`. -/
def setupVeFreq (veFreq rate : ℤ) (clkSetRate : Bool) : ℤ :=
  if veFreq ≥ VE_CLK_LOW_WATER ∧ veFreq ≤ VE_CLK_HIGH_WATER ∧ clkSetRate then veFreq else rate

/-- A frame rate that is not positive is counted as 60. -/
def VeCaseLoadParam.fixRate (p : VeCaseLoadParam) : VeCaseLoadParam :=
  if p.frameRate ≤ 0 then { p with frameRate := 60 } else p

/-- The frame rates of the used entries. -/
def LoadTable.fixRates (T : LoadTable) : LoadTable := fun i =>
  if (T i).isUsed = 1 then { T i with loadParam := (T i).loadParam.fixRate } else T i

/-- The parameters of the used entries, in order. -/
def LoadTable.usedParams (T : LoadTable) : List VeCaseLoadParam :=
  (((List.finRange _).map T).filter fun d => d.isUsed = 1).map VeCaseLoadInfo.loadParam

/-- The locals of the loop over the entries. -/
structure LoadSum where
  totalLoadPixels : ℕ
  decoderChannelNum : ℕ
  encoderChannelNum : ℕ
  hadDifferentCodecChannel : Bool
  previousCodecFormat : ℤ
  curCodecFormat : ℤ
  deriving DecidableEq, Repr

def LoadSum.init : LoadSum := ⟨0, 0, 0, false, -1, -1⟩

/-- The body of the loop at a used entry. -/
def LoadSum.add (a : LoadSum) (p : VeCaseLoadParam) : LoadSum :=
  let previous := if a.previousCodecFormat = -1 then p.codecFormat else a.previousCodecFormat
  let decoder := p.codecFormat < VE_DECODER_FORMAT_MAX
  { totalLoadPixels := toU32 (a.totalLoadPixels +
      intToU32 (toInt32 (toInt32 (p.width * p.height) * p.frameRate)))
    decoderChannelNum := if decoder then a.decoderChannelNum + 1 else a.decoderChannelNum
    encoderChannelNum := if decoder then a.encoderChannelNum else a.encoderChannelNum + 1
    hadDifferentCodecChannel := a.hadDifferentCodecChannel || decide (previous ≠ p.codecFormat)
    previousCodecFormat := previous
    curCodecFormat := p.codecFormat }

/-- The first level of the codec that has the sum. -/
def matchPerform (curCodecFormat : ℤ) (totalLoadPixels : ℕ) : Option PerformatInfo :=
  decoderPerform.find? fun l => intToU32 curCodecFormat = l.codecFormmat ∧
    totalLoadPixels ≥ l.startPixels ∧ totalLoadPixels ≤ l.endPixels

/-- The level that is picked for a table whose frame rates are fixed, `none` when the clock is not
chosen by a level. -/
def pickLevel (a : LoadSum) : Option PerformatInfo :=
  if a.decoderChannelNum + a.encoderChannelNum = 0 then none
  else if a.encoderChannelNum > 0 ∨ a.decoderChannelNum > 2 ∨ a.hadDifferentCodecChannel then none
  else matchPerform a.curCodecFormat a.totalLoadPixels

/-- `adjust_ve_freq_by_case_load_sun55iw3`: the table and the clock. -/
def adjustVeFreqByCaseLoad (T : LoadTable) (userSettingVeFreq rate : ℤ) (clkSetRate : Bool) :
    LoadTable × ℤ :=
  let T := T.fixRates
  let a := T.usedParams.foldl LoadSum.add LoadSum.init
  (T,
    if a.decoderChannelNum + a.encoderChannelNum = 0 then rate
    else if a.encoderChannelNum > 0 ∨ a.decoderChannelNum > 2 ∨ a.hadDifferentCodecChannel then
      setupVeFreq userSettingVeFreq rate clkSetRate
    else
      match pickLevel a with
      | none => rate
      | some l =>
        setupVeFreq (if l.veFreq = VE_PERFORMANCE_MAX_FREQ then userSettingVeFreq else l.veFreq)
          rate clkSetRate)

end LonganPi.Ve
