import LonganPi.Wifi.RxReorder
import LonganPi.Lib.Words

/-!
# A received frame

`rwnx_rxdataind_aicwf` gets a buffer in which the firmware has put a description of the frame,
`struct hw_rxhdr`, before the frame itself. From the 802.11 header of a data frame it reads the
sequence number, the TID and two addresses, and it puts an 802.3 header in place of the headers.
Then it looks for the interface.

`RxFrame` is the buffer as it comes in. It has two fields for what the driver leaves to the firmware
without a check, of the frames that it parses: a data frame is not shorter than its headers, or the
802.3 header would be written over `hw_rxhdr`; and the TID is one of the 8 that have a control
block, where the header has room for 16.

`MacHeader` is a header as a sender writes it, and `RxFrame.ofMacHeader_onVif` says that all of it
is read back.
-/

open DriverLib

namespace LonganPi.Wifi

variable {β : Type*}

/-! ### Interfaces and stations -/

/-- The interface types that the receive path tells apart. -/
inductive Iftype
  | station
  | p2pClient
  | ap
  | p2pGo
  | monitor
  | other
  deriving DecidableEq

/-- `struct rwnx_vif`. -/
structure RwnxVif where
  vifIndex : BitVec 8
  up : Bool
  iftype : Iftype
  deriving DecidableEq

/-- `struct rwnx_sta`; `vlanIdx` is the interface of the station. -/
structure RwnxSta where
  valid : Bool
  vlanIdx : BitVec 8
  deriving DecidableEq

/-- The tables of `struct rwnx_hw`, by the numbers that the firmware gives. -/
structure RxTables where
  vifTable : BitVec 8 → Option RwnxVif
  staTable : BitVec 8 → RwnxSta
  monitorVif : BitVec 8

/-- `NX_VIRT_DEV_MAX`. -/
def nxVirtDevMax : ℕ := 4

/-- `RWNX_INVALID_STA`. -/
def rwnxInvalidSta : BitVec 8 := 0xff

/-- `rwnx_rx_get_vif`. -/
def rwnxRxGetVif (hw : RxTables) (vifIdx : BitVec 8) : Option RwnxVif :=
  if vifIdx.toNat < nxVirtDevMax then (hw.vifTable vifIdx).filter RwnxVif.up else none

/-! ### Buffers -/

/-- `struct hw_rxhdr`: the outcome of the decryption, and the flags. -/
structure HwRxhdr where
  decrStatus : BitVec 3
  flagsIs80211Mpdu : Bool
  flagsNeedReord : Bool
  flagsUpload : Bool
  isMonitorVif : Bool
  flagsVifIdx : BitVec 8
  flagsStaIdx : BitVec 8
  flagsDstIdx : BitVec 8
  deriving DecidableEq

/-- `struct sk_buff` with an 802.3 header; the first octet of an address is its highest. -/
structure SkBuff (β : Type*) where
  hDest : BitVec 48
  hSource : BitVec 48
  len : ℕ
  data : β
  deriving DecidableEq

/-! ### The 802.11 header -/

section Header

variable (octet : ℕ → BitVec 8)

/-- `(skb->data[0] & 0x0f) == 0x08`. -/
def isData : Bool := octet 0 &&& 0x0f#8 = 0x08#8

/-- `is_qos`. -/
def isQosData : Bool := isData octet && octet 0 &&& 0x80#8 = 0x80#8

/-- `hdr_len`: four octets more with an HT control field, and two with a QoS control field. -/
def hdrLen : ℕ :=
  24 + (if octet 1 &&& 0x80#8 = 0 then 0 else 4) + (if isQosData octet then 2 else 0)

/-- What the cipher puts between the headers, by `decr_status`. -/
def cipherLen (decrStatus : BitVec 3) : ℕ :=
  if decrStatus = 3 then 8       -- RWNX_RX_HD_DECR_CCMP128
  else if decrStatus = 2 then 8  -- RWNX_RX_HD_DECR_TKIP
  else if decrStatus = 1 then 4  -- RWNX_RX_HD_DECR_WEP
  else if decrStatus = 7 then 18 -- RWNX_RX_HD_DECR_WAPI
  else 0

/-- `pull_len`: the MAC header, the header of the cipher, and eight octets of LLC and SNAP. -/
def pullLen (decrStatus : BitVec 3) : ℕ := hdrLen octet + 8 + cipherLen decrStatus

/-- `tid`. -/
def tidOf : BitVec 8 := if isQosData octet then octet 24 &&& 0x0f#8 else 0

/-- The address at an offset. -/
def macAt (i : ℕ) : BitVec 48 :=
  octet i ++ octet (i + 1) ++ octet (i + 2) ++ octet (i + 3) ++ octet (i + 4) ++ octet (i + 5)

/-- `ra` and `ta`, by the bits "to DS" and "from DS". -/
def addresses : BitVec 48 × BitVec 48 :=
  if octet 1 &&& 0x3#8 = 0x1#8 then (macAt octet 16, macAt octet 10)
  else if octet 1 &&& 0x3#8 = 0x2#8 then (macAt octet 4, macAt octet 16)
  else (0, 0)

end Header

/-- `((skb->data[22]&0xf0)>>4) | (skb->data[23]<<4)` of the MAC header. -/
def seqNumOf (data22 data23 : BitVec 8) : BitVec 16 :=
  (data22 &&& 0xf0#8).setWidth 16 >>> 4 ||| data23.setWidth 16 <<< 4

theorem seqNumOf_toNat (data22 data23 : BitVec 8) :
    (seqNumOf data22 data23).toNat = data22.toNat / 16 + 16 * data23.toNat := by
  have h22 := data22.isLt
  have h23 := data23.isLt
  have hlow : (data22 &&& 0xf0#8).toNat / 2 ^ 4 = data22.toNat / 16 := by
    rw [BitVec.toNat_and, ← Nat.shiftRight_eq_div_pow, Nat.shiftRight_and_distrib,
      show (0xf0#8).toNat >>> 4 = 2 ^ 4 - 1 from rfl, and_mask, Nat.shiftRight_eq_div_pow]
    omega
  have hle : (data22 &&& 0xf0#8).toNat < 2 ^ 16 :=
    lt_of_lt_of_le (data22 &&& 0xf0#8).isLt (by decide)
  rw [seqNumOf, BitVec.toNat_or, BitVec.toNat_ushiftRight, BitVec.toNat_shiftLeft,
    BitVec.toNat_setWidth, BitVec.toNat_setWidth, Nat.mod_eq_of_lt hle,
    Nat.shiftRight_eq_div_pow, hlow, Nat.shiftLeft_eq, Nat.mod_eq_of_lt (by omega : _ < 2 ^ 16),
    Nat.mod_eq_of_lt (by omega), or_eq_add' (k := 4) (by omega) (Nat.dvd_mul_left _ _)]
  omega

/-- The number in a header. -/
def SeqNum.ofHeader (data22 data23 : BitVec 8) : SeqNum :=
  ⟨seqNumOf data22 data23, by
    have h22 := data22.isLt
    have h23 := data23.isLt
    rw [seqNumOf_toNat]
    omega⟩

/-- Two sequence numbers are the same if they are the same number. -/
theorem SeqNum.eq_of_toNat {a b : SeqNum} (h : a.val.toNat = b.val.toNat) : a = b := by
  obtain ⟨a, ha⟩ := a
  obtain ⟨b, hb⟩ := b
  obtain rfl : a = b := BitVec.eq_of_toNat_eq h
  rfl

/-- `seq_num`. -/
def seqNumAt (octet : ℕ → BitVec 8) : SeqNum :=
  if isData octet then .ofHeader (octet 22) (octet 23) else ⟨0, by decide⟩

/-! ### The frame -/

/-- A buffer as it comes in. `octet` and `len` are `skb->data` and `skb->len` past the hardware
header, `headroom` is the room before the frame, and `rtapLen` the length of a radiotap header for
it. -/
structure RxFrame (β : Type*) where
  hdr : HwRxhdr
  octet : ℕ → BitVec 8
  len : ℕ
  data : β
  headroom : ℕ
  rtapLen : ℕ
  pull_le : hdr.flagsUpload = true → isData octet = true → pullLen octet hdr.decrStatus ≤ len
  tid_lt : hdr.flagsUpload = true → hdr.flagsIs80211Mpdu = false → (tidOf octet).toNat < 8

namespace RxFrame

/-- The buffer when it is handed on: a data frame for the stack has got an 802.3 header. -/
def skb (r : RxFrame β) : SkBuff β :=
  if r.hdr.flagsUpload && isData r.octet then
    { hDest := (addresses r.octet).1
      hSource := (addresses r.octet).2
      len := r.len - pullLen r.octet r.hdr.decrStatus + 14
      data := r.data }
  else
    { hDest := macAt r.octet 0
      hSource := macAt r.octet 6
      len := r.len
      data := r.data }

/-- The interface of a frame: the one that the firmware names, or that of its station. -/
def vif (hw : RxTables) (r : RxFrame β) : Option RwnxVif :=
  (rwnxRxGetVif hw r.hdr.flagsVifIdx).bind fun v =>
    if r.hdr.flagsStaIdx = rwnxInvalidSta then some v
    else
      let sta := hw.staTable r.hdr.flagsStaIdx
      if sta.vlanIdx ≠ v.vifIndex then hw.vifTable sta.vlanIdx else some v

/-- The destination is a station of the interface. -/
def inBss (hw : RxTables) (v : RwnxVif) (r : RxFrame β) : Bool :=
  r.hdr.flagsDstIdx ≠ rwnxInvalidSta && (hw.staTable r.hdr.flagsDstIdx).valid &&
    (hw.staTable r.hdr.flagsDstIdx).vlanIdx = v.vifIndex

end RxFrame

/-- What the receive path goes by, once the interface is known. -/
structure DataFrame (β : Type*) where
  skb : SkBuff β
  seqNum : SeqNum
  tid : Fin 8
  isQos : Bool
  /-- `flags_need_reord`. -/
  needReord : Bool
  /-- The destination is a station of this access point. -/
  inBss : Bool
  deriving DecidableEq

def RxFrame.onVif (hw : RxTables) (v : RwnxVif) (r : RxFrame β) : DataFrame β :=
  { skb := r.skb
    seqNum := seqNumAt r.octet
    tid := Fin.ofNat 8 (tidOf r.octet).toNat
    isQos := isQosData r.octet
    needReord := r.hdr.flagsNeedReord
    inBss := r.inBss hw v }

/-- The number of the control block is the TID. -/
theorem RxFrame.onVif_tid {r : RxFrame β} (hup : r.hdr.flagsUpload = true)
    (hmpdu : r.hdr.flagsIs80211Mpdu = false) (hw : RxTables) (v : RwnxVif) :
    ((r.onVif hw v).tid : ℕ) = (tidOf r.octet).toNat :=
  Nat.mod_eq_of_lt (r.tid_lt hup hmpdu)

/-- The length is that of the payload and the new header. -/
theorem RxFrame.skb_len {r : RxFrame β} (hup : r.hdr.flagsUpload = true)
    (hdata : isData r.octet = true) :
    r.skb.len + pullLen r.octet r.hdr.decrStatus = r.len + 14 := by
  have hle := r.pull_le hup hdata
  rw [skb, hup, hdata, Bool.and_self, if_pos rfl]
  change r.len - _ + 14 + _ = _
  omega

/-! ### A header as it is sent -/

/-- The header of a data frame between a station and an access point. -/
structure MacHeader where
  /-- The frame is for the access point; else it comes from there. -/
  toDs : Bool
  qos : Bool
  htc : Bool
  destination : BitVec 48
  source : BitVec 48
  bssid : BitVec 48
  fragment : Fin 16
  seqNum : SeqNum
  tid : Fin 8
  deriving DecidableEq

namespace MacHeader

/-- The octet of an address, counted from its first. -/
def macOctet (a : BitVec 48) (i : ℕ) : BitVec 8 := (a >>> (8 * (5 - i))).setWidth 8

/-- The three addresses in the order of the header. -/
def addr1 (h : MacHeader) : BitVec 48 := if h.toDs then h.bssid else h.destination

def addr2 (h : MacHeader) : BitVec 48 := if h.toDs then h.source else h.bssid

def addr3 (h : MacHeader) : BitVec 48 := if h.toDs then h.destination else h.source

/-- The octets of the header; `payload` are those after it. -/
def octet (h : MacHeader) (payload : ℕ → BitVec 8) (i : ℕ) : BitVec 8 :=
  if i = 0 then (if h.qos then 0x88 else 0x08)
  else if i = 1 then (if h.toDs then 0x1#8 else 0x2#8) ||| (if h.htc then 0x80#8 else 0)
  else if i < 4 then 0
  else if i < 10 then macOctet h.addr1 (i - 4)
  else if i < 16 then macOctet h.addr2 (i - 10)
  else if i < 22 then macOctet h.addr3 (i - 16)
  else if i = 22 then BitVec.ofNat 8 (h.fragment.val + 16 * (h.seqNum.val.toNat % 16))
  else if i = 23 then BitVec.ofNat 8 (h.seqNum.val.toNat / 16)
  else if i = 24 && h.qos then BitVec.ofNat 8 h.tid.val
  else if i = 25 && h.qos then 0
  else payload (i - 26)

variable (h : MacHeader) (payload : ℕ → BitVec 8)

/-- Six octets of an address make the address. -/
theorem macAt_of_octets {f : ℕ → BitVec 8} {i : ℕ} {a : BitVec 48}
    (hf : ∀ j < 6, f (i + j) = macOctet a j) : macAt f i = a := by
  rw [macAt, hf 1 (by decide), hf 2 (by decide), hf 3 (by decide), hf 4 (by decide),
    hf 5 (by decide), show f i = macOctet a 0 from hf 0 (by decide)]
  apply BitVec.eq_of_getLsbD_eq
  intro k hk
  simp only [macOctet, BitVec.getLsbD_append, BitVec.getLsbD_setWidth, BitVec.getLsbD_ushiftRight]
  repeat' split
  all_goals
    rw [decide_eq_true (by omega), Bool.true_and]
    congr 1
    omega

theorem isData_octet : isData (h.octet payload) = true := by
  cases hq : h.qos <;> simp [isData, octet, hq]

theorem isQosData_octet : isQosData (h.octet payload) = h.qos := by
  rw [isQosData, isData_octet, Bool.true_and]
  cases hq : h.qos <;> simp [octet, hq]

theorem macAt_addr1 : macAt (h.octet payload) 4 = h.addr1 :=
  macAt_of_octets fun j hj => by
    rw [octet, if_neg (by omega), if_neg (by omega), if_neg (by omega), if_pos (by omega),
      Nat.add_sub_cancel_left]

theorem macAt_addr2 : macAt (h.octet payload) 10 = h.addr2 :=
  macAt_of_octets fun j hj => by
    rw [octet, if_neg (by omega), if_neg (by omega), if_neg (by omega), if_neg (by omega),
      if_pos (by omega), Nat.add_sub_cancel_left]

theorem macAt_addr3 : macAt (h.octet payload) 16 = h.addr3 :=
  macAt_of_octets fun j hj => by
    rw [octet, if_neg (by omega), if_neg (by omega), if_neg (by omega), if_neg (by omega),
      if_neg (by omega), if_pos (by omega), Nat.add_sub_cancel_left]

theorem addresses_octet :
    addresses (h.octet payload) = (h.destination, h.source) := by
  rw [addresses, macAt_addr1, macAt_addr2, macAt_addr3]
  cases hd : h.toDs <;> cases ht : h.htc <;> simp [octet, addr1, addr2, addr3, hd, ht]

theorem tidOf_octet : (tidOf (h.octet payload)).toNat = if h.qos then h.tid.val else 0 := by
  rw [tidOf, isQosData_octet]
  cases hq : h.qos with
  | false => rfl
  | true =>
    have hlt := h.tid.isLt
    have hoctet : h.octet payload 24 = BitVec.ofNat 8 h.tid.val := by
      simp only [octet, hq]
      rfl
    rw [if_pos rfl, if_pos rfl, hoctet, BitVec.toNat_and, BitVec.toNat_ofNat,
      Nat.mod_eq_of_lt (by omega), show (0x0f#8).toNat = 2 ^ 4 - 1 from rfl, and_mask,
      Nat.mod_eq_of_lt (by omega)]

theorem seqNumAt_octet : seqNumAt (h.octet payload) = h.seqNum := by
  have hsn := h.seqNum.lt
  have hfrag := h.fragment.isLt
  have hlow : h.octet payload 22 =
      BitVec.ofNat 8 (h.fragment.val + 16 * (h.seqNum.val.toNat % 16)) := rfl
  have hhigh : h.octet payload 23 = BitVec.ofNat 8 (h.seqNum.val.toNat / 16) := rfl
  rw [seqNumAt, isData_octet, if_pos rfl, hlow, hhigh]
  apply SeqNum.eq_of_toNat
  have hsum : h.fragment.val + 16 * (h.seqNum.val.toNat % 16) < 2 ^ 8 := by omega
  have hdiv : h.seqNum.val.toNat / 16 < 2 ^ 8 := by omega
  rw [SeqNum.ofHeader, seqNumOf_toNat, BitVec.toNat_ofNat, BitVec.toNat_ofNat,
    Nat.mod_eq_of_lt hsum, Nat.mod_eq_of_lt hdiv]
  omega

end MacHeader

/-- The frame of a header and `n` octets after the headers. -/
def RxFrame.ofMacHeader (h : MacHeader) (payload : ℕ → BitVec 8) (n : ℕ) (hdr : HwRxhdr) (data : β)
    (headroom rtapLen : ℕ) : RxFrame β where
  hdr := hdr
  octet := h.octet payload
  len := pullLen (h.octet payload) hdr.decrStatus + n
  data := data
  headroom := headroom
  rtapLen := rtapLen
  pull_le := fun _ _ => Nat.le_add_right _ _
  tid_lt := fun _ _ => by
    rw [h.tidOf_octet]
    split
    · exact h.tid.isLt
    · decide

/-- **What is sent is read back.** Whatever the header, the payload and the cipher, a data frame
that goes to the stack has its addresses, its sequence number and its TID, and 14 octets of header
before its payload. -/
theorem RxFrame.ofMacHeader_onVif (h : MacHeader) (payload : ℕ → BitVec 8) (n : ℕ) {hdr : HwRxhdr}
    (hup : hdr.flagsUpload = true) (data : β) (headroom rtapLen : ℕ) (hw : RxTables)
    (v : RwnxVif) :
    (ofMacHeader h payload n hdr data headroom rtapLen).onVif hw v =
      { skb := { hDest := h.destination, hSource := h.source, len := n + 14, data := data }
        seqNum := h.seqNum
        tid := if h.qos then h.tid else 0
        isQos := h.qos
        needReord := hdr.flagsNeedReord
        inBss := (ofMacHeader h payload n hdr data headroom rtapLen).inBss hw v } := by
  rw [onVif, DataFrame.mk.injEq]
  refine ⟨?_, h.seqNumAt_octet payload, ?_, h.isQosData_octet payload, rfl, rfl⟩
  · have hdata : (hdr.flagsUpload && isData (h.octet payload)) = true := by
      rw [hup, h.isData_octet, Bool.and_self]
    rw [skb]
    simp only [ofMacHeader, hdata, if_true, h.addresses_octet, Nat.add_sub_cancel_left]
  · apply Fin.ext
    change (tidOf (h.octet payload)).toNat % 8 = _
    rw [h.tidOf_octet]
    cases h.qos with
    | false => rfl
    | true => exact Nat.mod_eq_of_lt h.tid.isLt

end LonganPi.Wifi
