import LonganPi.Kernel
import LonganPi.Lib.Bytes
import Mathlib.Data.Int.Order.Basic

/-!
# The size of a disc image

The patch for large images takes the limit away that `fsg_lun_open` had for a cdrom. An image that
is too large for the minutes, seconds and frames of a CD is handled as a DVD. The number of sectors
is reported in three places: the lead-out address of READ TOC, a byte each for the minute, the
second and the frame; 32 bits of READ TRACK INFORMATION; and the end sector of READ DISC STRUCTURE,
24 bits that count from `0x030000`.

A CD never overflows its minutes. Nothing stops an image from being too large for the 24 bits, so
the number of sectors survives exactly where it is less than `2 ^ 24 - 0x030000`
(`geometry_survives_iff`).

`store_cdrom_address` is not part of the patch. It is a parameter, of which only the MSF form is
assumed.
-/

open DriverLib

namespace LonganPi.Cdrom

/-! ### The logical unit -/

/-- Maximum number of sectors of a CD with MSF addressing. -/
def CD_MAX_MSF_SECTORS : ℕ := 255 * 59 * 74 - 2 * 75

/-- `struct fsg_lun`, the fields that the replies read. -/
structure FsgLun where
  cdrom : Bool
  cdAsDvd : Bool
  numSectors : ℕ

/-- `fsg_lun_open` for a file of `size` bytes, `none` for `-ETOOSMALL`. -/
def fsgLunOpen (cdrom : Bool) (size blkbits : ℕ) : Option FsgLun :=
  let numSectors := size >>> blkbits
  -- the smallest track is 300 frames
  let minSectors := if cdrom then 300 else 1
  if numSectors < minSectors then none
  else some
    { cdrom := cdrom
      cdAsDvd := cdrom && decide (numSectors ≥ CD_MAX_MSF_SECTORS)
      numSectors := numSectors }

/-! ### The replies -/

/-- The sense data of a command that is refused. -/
inductive Sense
  | SS_INVALID_FIELD_IN_CDB
  deriving DecidableEq

/-- `store_cdrom_address`. In the MSF form it adds the two seconds of the lead-in and stores the
minute, the second and the frame in a byte each. -/
structure CdromAddress where
  store : Bool → ℕ → List (BitVec 8)
  store_msf : ∀ addr, store true addr =
    [0, BitVec.ofNat 8 (toU32 (addr + 2 * 75) / 75 / 60),
      BitVec.ofNat 8 (toU32 (addr + 2 * 75) / 75 % 60), BitVec.ofNat 8 (toU32 (addr + 2 * 75) % 75)]

/-- The formats of READ TOC: 0 and 1, and 2 with the place of its A2 descriptor. -/
inductive TocFormat
  | toc
  | raw (a2 : ℕ)

/-- Where the lead-out address is. -/
def TocFormat.leadOut : TocFormat → ℕ
  | .toc => 16
  | .raw a2 => a2 + 7

/-- `do_read_toc`, from the lead-out track on. -/
def doReadToc (A : CdromAddress) (lun : FsgLun) (msf : Bool) (format : TocFormat) (buf : Buffer) :
    Buffer :=
  let buf := match format with
    | .toc => (buf.put 13 [0x16]).put 14 [0xAA]
    | .raw _ => buf
  -- a fabricated address for a DVD
  if lun.cdAsDvd then buf.put format.leadOut (A.store msf 157350)
  else buf.put format.leadOut (A.store msf (toU32 lun.numSectors))

/-- `do_read_track_information`: the length of the reply and its bytes. -/
def doReadTrackInformation (lun : FsgLun) (cmnd buf : Buffer) : Except Sense (ℕ × Buffer) :=
  let track := ofBytes (cmnd.get 2 4)
  if cmnd 1 &&& 0x03 ≠ 1 ∨ track ≠ 1 then .error .SS_INVALID_FIELD_IN_CDB
  else
    let buf := buf.put 0 (List.replicate 36 0)
    let buf := buf.put 0 (toBytes 2 34)
    -- track 1, session 1
    let buf := (buf.put 2 [1]).put 3 [1]
    -- a data track that may be copied, data mode 1
    let buf := (buf.put 5 [0x06]).put 6 [0x01]
    let buf := buf.put 24 (toBytes 4 (toU32 lun.numSectors))
    .ok (36, buf)

/-- `do_read_disc_structure`. -/
def doReadDiscStructure (lun : FsgLun) (cmnd buf : Buffer) : Except Sense (ℕ × Buffer) :=
  if cmnd 7 ≠ 0x00 then .error .SS_INVALID_FIELD_IN_CDB
  else
    let buf := buf.put 0 (List.replicate 2052 0)
    let buf := buf.put 0 (toBytes 2 2050)
    -- DVD-ROM, 120mm disc, one layer
    let buf := ((buf.put 4 [0x01]).put 5 [0x0F]).put 6 [0x01]
    let buf := buf.put (4 + 5) (toBytes 3 0x030000)
    let buf := buf.put (4 + 9) (toBytes 3 (toU32 (0x030000 + lun.numSectors)))
    .ok (2052, buf)

/-! ### What the replies say -/

/-- The sector that minutes, seconds and frames stand for. -/
def sectorOfMsf (bytes : List (BitVec 8)) : ℤ :=
  let minute := (bytes.getD 1 0).toNat
  let second := (bytes.getD 2 0).toNat
  let frame := (bytes.getD 3 0).toNat
  ((minute * 60 + second) * 75 + frame : ℕ) - 2 * 75

/-- Every reply that reports the number of sectors reports it as it is. -/
structure Survives (A : CdromAddress) (lun : FsgLun) : Prop where
  leadOut : lun.cdAsDvd = false → ∀ format buf,
    sectorOfMsf ((doReadToc A lun true format buf).get format.leadOut 4) = lun.numSectors
  track : ∀ cmnd buf len reply, doReadTrackInformation lun cmnd buf = .ok (len, reply) →
    ofBytes (reply.get 24 4) = lun.numSectors
  disc : lun.cdAsDvd = true → ∀ cmnd buf len reply,
    doReadDiscStructure lun cmnd buf = .ok (len, reply) →
      (ofBytes (reply.get (4 + 9) 3) : ℤ) - 0x030000 = lun.numSectors

section

variable {lun : FsgLun} {size blkbits : ℕ}

theorem fsgLunOpen_some (h : fsgLunOpen true size blkbits = some lun) :
    lun.numSectors = size >>> blkbits ∧
      lun.cdAsDvd = decide (CD_MAX_MSF_SECTORS ≤ size >>> blkbits) := by
  simp only [fsgLunOpen, if_true] at h
  split at h
  · exact nomatch h
  · obtain rfl := Option.some.inj h
    exact ⟨rfl, Bool.true_and _⟩

/-- Below the limit neither the minute nor the number of sectors is cut off. -/
theorem sectorOfMsf_store (A : CdromAddress) {n : ℕ} (hn : n < CD_MAX_MSF_SECTORS) :
    sectorOfMsf (A.store true n) = n := by
  have hn' : n < 1113180 := hn
  have haddr : toU32 (n + 2 * 75) = n + 150 := toU32_of_lt (by omega)
  rw [A.store_msf, haddr]
  have hmin : (n + 150) / 75 / 60 < 256 := by omega
  simp only [sectorOfMsf, List.getD_cons_succ, List.getD_cons_zero, BitVec.toNat_ofNat]
  omega

theorem get_doReadToc (A : CdromAddress) (hcd : lun.cdAsDvd = false) (format : TocFormat)
    (buf : Buffer) :
    (doReadToc A lun true format buf).get format.leadOut 4
      = A.store true (toU32 lun.numSectors) := by
  have hlen : (A.store true (toU32 lun.numSectors)).length = 4 := by rw [A.store_msf]; rfl
  unfold doReadToc
  rw [hcd]
  have h := Buffer.get_put (match format with
    | .toc => (buf.put 13 [0x16]).put 14 [0xAA]
    | .raw _ => buf) format.leadOut (A.store true (toU32 lun.numSectors))
  rw [hlen] at h
  exact h

theorem get_doReadTrackInformation {cmnd buf reply : Buffer} {len : ℕ}
    (h : doReadTrackInformation lun cmnd buf = .ok (len, reply)) :
    reply.get 24 4 = toBytes 4 (toU32 lun.numSectors) := by
  unfold doReadTrackInformation at h
  dsimp only at h
  split at h
  · exact nomatch h
  · obtain ⟨-, rfl⟩ := Prod.mk.inj (Except.ok.inj h)
    exact Buffer.get_put _ 24 (toBytes 4 (toU32 lun.numSectors))

theorem get_doReadDiscStructure {cmnd buf reply : Buffer} {len : ℕ}
    (h : doReadDiscStructure lun cmnd buf = .ok (len, reply)) :
    reply.get (4 + 9) 3 = toBytes 3 (toU32 (0x030000 + lun.numSectors)) := by
  unfold doReadDiscStructure at h
  dsimp only at h
  split at h
  · exact nomatch h
  · obtain ⟨-, rfl⟩ := Prod.mk.inj (Except.ok.inj h)
    exact Buffer.get_put _ (4 + 9) (toBytes 3 (toU32 (0x030000 + lun.numSectors)))

/-- **The number of sectors of an image survives exactly where it fits into the end sector of a
DVD.** -/
theorem geometry_survives_iff (A : CdromAddress) (h : fsgLunOpen true size blkbits = some lun) :
    Survives A lun ↔ size >>> blkbits < 2 ^ 24 - 0x030000 := by
  obtain ⟨hn, hdvd⟩ := fsgLunOpen_some h
  rw [← hn] at hdvd ⊢
  constructor
  · intro hsurvives
    by_cases hlarge : CD_MAX_MSF_SECTORS ≤ lun.numSectors
    · obtain ⟨reply, hreply⟩ : ∃ reply,
          doReadDiscStructure lun (fun _ => 0) (fun _ => 0) = .ok (2052, reply) := ⟨_, rfl⟩
      have hdisc := hsurvives.disc (by rw [hdvd, decide_eq_true hlarge]) _ _ _ _ hreply
      rw [get_doReadDiscStructure hreply, ofBytes_toBytes] at hdisc
      omega
    · unfold CD_MAX_MSF_SECTORS at hlarge
      omega
  · intro hfits
    have hn32 : toU32 lun.numSectors = lun.numSectors := toU32_of_lt (by omega)
    refine ⟨fun hcd format buf => ?_, fun cmnd buf len reply hr => ?_,
      fun _ cmnd buf len reply hr => ?_⟩
    · have hsmall : lun.numSectors < CD_MAX_MSF_SECTORS := by
        rw [hdvd] at hcd
        exact not_le.mp (of_decide_eq_false hcd)
      rw [get_doReadToc A hcd, hn32, sectorOfMsf_store A hsmall]
    · rw [get_doReadTrackInformation hr, hn32]
      exact ofBytes_toBytes_eq_iff.mpr (by omega)
    · have hend : toU32 (0x030000 + lun.numSectors) = 0x030000 + lun.numSectors :=
        toU32_of_lt (by omega)
      rw [get_doReadDiscStructure hr, hend, ofBytes_toBytes_eq_iff.mpr (by omega)]
      omega

/-- The function with the other form as well: the sector in 32 bits. -/
def cdromAddress : CdromAddress where
  store msf addr :=
    if msf then [0, BitVec.ofNat 8 (toU32 (addr + 2 * 75) / 75 / 60),
      BitVec.ofNat 8 (toU32 (addr + 2 * 75) / 75 % 60), BitVec.ofNat 8 (toU32 (addr + 2 * 75) % 75)]
    else toBytes 4 (toU32 addr)
  store_msf _ := rfl

theorem geometry_survives_iff_cd :
    Survives cdromAddress ⟨true, false, 360000⟩ ↔ 737280000 >>> 11 < 2 ^ 24 - 0x030000 :=
  geometry_survives_iff cdromAddress (show fsgLunOpen true 737280000 11 = _ from rfl)

/-- An image of 32 GiB is accepted, and its end sector is reported as its first one. -/
theorem end_sector_wraps :
    fsgLunOpen true 34359738368 11 = some ⟨true, true, 16777216⟩ ∧
      ¬ Survives cdromAddress ⟨true, true, 16777216⟩ := by
  refine ⟨rfl, fun h => ?_⟩
  obtain ⟨reply, hreply⟩ : ∃ reply,
      doReadDiscStructure ⟨true, true, 16777216⟩ (fun _ => 0) (fun _ => 0) = .ok (2052, reply) :=
    ⟨_, rfl⟩
  have hdisc := h.disc rfl _ _ _ _ hreply
  rw [get_doReadDiscStructure hreply] at hdisc
  exact absurd hdisc (by decide)

end

end LonganPi.Cdrom
