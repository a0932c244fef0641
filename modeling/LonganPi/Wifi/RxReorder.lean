import LonganPi.Lib.Reorder
import LonganPi.Lib.Words

/-!
# The receive reordering of the WiFi driver

A station's data frames may arrive out of order within a block-ack session. For each station and
each TID the driver keeps a `reord_ctrl`: the sequence number that is awaited, `ind_sn`, and the
list of the frames that came ahead of it. Sequence numbers have 12 bits, and are compared with
`SN_LESS`, by a bit of their difference. A timer gives up a gap that stays open.

This module follows the source function by function, for one `reord_ctrl` under its
`reord_list_lock`. What becomes of a frame is an output: `late` is the frame that
`reord_need_check` finds no need to reorder, `inOrder` one that leaves the list, `duplicate` one
that the list has already.

`reordMachine` is what may happen to a control block: frames come, and the worker of the timer runs,
at any time.
-/

open DriverLib

namespace LonganPi.Wifi

/-! ### Frames -/

/-- A sequence number: 12 bits of the sequence control field. -/
structure SeqNum where
  val : BitVec 16
  lt : val.toNat < 4096
  deriving DecidableEq

/-- `struct recv_msdu`, in use: which of the `recv_frames` it is, and the frame. -/
structure RecvMsdu (α : Type*) where
  id : ℕ
  pkt : α
  seqNum : SeqNum
  /-- Whether the frame is for the network stack, or only kept in its place. -/
  forward : Bool
  deriving DecidableEq

/-- `SN_LESS(a, b)`: `((a - b) & 0x800) != 0`. -/
def SN_LESS (a b : BitVec 16) : Prop := (a - b) &&& 0x800#16 ≠ 0#16

instance (a b : BitVec 16) : Decidable (SN_LESS a b) := inferInstanceAs (Decidable (_ ≠ _))

/-! ### `struct reord_ctrl` -/

/-- `AICWF_REORDER_WINSIZE`. -/
def reorderWinsize : BitVec 8 := 64

/-- `struct reord_ctrl`. -/
structure ReordCtrl (α : Type*) where
  enable : Bool
  indSn : BitVec 16
  wsizeB : BitVec 8
  reordList : List (RecvMsdu α)
  /-- Whether `reord_timer` is pending. -/
  reordTimer : Bool
  /-- Whether `reord_timer_work` is pending. -/
  reordTimerWork : Bool
  deriving DecidableEq

variable {α : Type*}

/-- One of the eight control blocks that `reord_init_sta` sets up. -/
def ReordCtrl.init : ReordCtrl α :=
  { enable := true
    indSn := 0xffff
    wsizeB := reorderWinsize
    reordList := []
    reordTimer := false
    reordTimerWork := false }

/-- `reord_need_check`; the result is whether it is nonzero. -/
def reordNeedCheck (c : ReordCtrl α) (seqNum : BitVec 16) : Bool × ReordCtrl α :=
  let wsize := c.wsizeB.setWidth 16
  let wend := (c.indSn + wsize - 1) &&& 0xfff
  let c := if c.indSn = 0xffff then { c with indSn := seqNum } else c
  if SN_LESS seqNum c.indSn then (true, c)
  else if seqNum = c.indSn then (false, { c with indSn := (c.indSn + 1) &&& 0xfff })
  else if SN_LESS wend seqNum then
    if wsize - 1 ≤ seqNum then (false, { c with indSn := seqNum - (wsize - 1) })
    else (false, { c with indSn := 0xfff - (wsize - (seqNum + 1)) + 1 })
  else (false, c)

/-- `reord_rxframe_enqueue`; `none` is its failure on a number that the list has. -/
def reordRxframeEnqueue (f : RecvMsdu α) : List (RecvMsdu α) → Option (List (RecvMsdu α))
  | [] => some [f]
  | g :: l =>
    if SN_LESS g.seqNum.val f.seqNum.val then (reordRxframeEnqueue f l).map (g :: ·)
    else if g.seqNum.val = f.seqNum.val then none
    else some (f :: g :: l)

/-- The loop of `reord_rxframes_process`: `bPktInBuf` and `ind_sn`. -/
def processLoop : BitVec 16 → List (RecvMsdu α) → Bool × BitVec 16
  | indSn, [] => (false, indSn)
  | indSn, f :: l =>
    if ¬SN_LESS indSn f.seqNum.val then
      if indSn = f.seqNum.val then processLoop ((indSn + 1) &&& 0xfff) l
      else processLoop indSn l
    else (true, indSn)

/-- `reord_rxframes_process`. -/
def reordRxframesProcess (c : ReordCtrl α) (bforced : Bool) : Bool × ReordCtrl α :=
  match c.reordList with
  | [] => (false, c)
  | f :: _ =>
    let c := if bforced then { c with indSn := f.seqNum.val } else c
    let r := processLoop c.indSn c.reordList
    (r.1, { c with indSn := r.2 })

theorem process_nil {c : ReordCtrl α} (hc : c.reordList = []) (bforced : Bool) :
    reordRxframesProcess c bforced = (false, c) := by
  unfold reordRxframesProcess
  split
  · rfl
  · next heq =>
    rw [hc] at heq
    cases heq

theorem process_cons {c : ReordCtrl α} {f : RecvMsdu α} {l : List (RecvMsdu α)}
    (hc : c.reordList = f :: l) (bforced : Bool) :
    reordRxframesProcess c bforced =
      let r := processLoop (if bforced then f.seqNum.val else c.indSn) (f :: l)
      (r.1, { c with indSn := r.2 }) := by
  unfold reordRxframesProcess
  split
  · next heq =>
    rw [hc] at heq
    cases heq
  · next heq =>
    rw [hc] at heq
    obtain ⟨rfl, rfl⟩ := List.cons.inj heq
    cases bforced
    · simp only [hc, Bool.false_eq_true, if_false]
    · simp only [hc, if_true]

/-- `reord_rxframes_ind`: what leaves the list. -/
def reordRxframesInd (c : ReordCtrl α) : List (RecvMsdu α) × ReordCtrl α :=
  (c.reordList.takeWhile fun f => ¬SN_LESS c.indSn f.seqNum.val,
    { c with reordList := c.reordList.dropWhile fun f => ¬SN_LESS c.indSn f.seqNum.val })

/-- The part of `reord_process_unit` under `reord_list_lock`, for a block that is enabled. -/
def reordUnit (c : ReordCtrl α) (f : RecvMsdu α) : List (Output (RecvMsdu α)) × ReordCtrl α :=
  let (late, c) := reordNeedCheck c f.seqNum.val
  if late then ([.late f], c)
  else
    match reordRxframeEnqueue f c.reordList with
    | none => ([.duplicate f], c)
    | some l =>
      let (pktInBuf, c) := reordRxframesProcess { c with reordList := l } false
      -- a running timer goes on; it is stopped when the list is about to be empty
      let c := { c with reordTimer := pktInBuf }
      let (out, c) := reordRxframesInd c
      (out.map .inOrder, c)

section Unit

variable {c c' c'' : ReordCtrl α} {f : RecvMsdu α}

theorem reordUnit_late (hc : reordNeedCheck c f.seqNum.val = (true, c')) :
    reordUnit c f = ([.late f], c') := by
  rw [reordUnit, hc]
  rfl

theorem reordUnit_duplicate (hc : reordNeedCheck c f.seqNum.val = (false, c'))
    (he : reordRxframeEnqueue f c'.reordList = none) : reordUnit c f = ([.duplicate f], c') := by
  rw [reordUnit, hc]
  simp only [Bool.false_eq_true, if_false, he]

theorem reordUnit_placed {l : List (RecvMsdu α)} {b : Bool}
    (hc : reordNeedCheck c f.seqNum.val = (false, c'))
    (he : reordRxframeEnqueue f c'.reordList = some l)
    (hp : reordRxframesProcess { c' with reordList := l } false = (b, c'')) :
    reordUnit c f = ((reordRxframesInd { c'' with reordTimer := b }).1.map .inOrder,
      (reordRxframesInd { c'' with reordTimer := b }).2) := by
  rw [reordUnit, hc]
  simp only [Bool.false_eq_true, if_false, he, hp]

end Unit

/-- `reord_timeout_worker`. -/
def reordTimeoutWorker (c : ReordCtrl α) : List (Output (RecvMsdu α)) × ReordCtrl α :=
  let (pktInBuf, c) := reordRxframesProcess c true
  let c := if pktInBuf then { c with reordTimer := true } else c
  let (out, c) := reordRxframesInd c
  (out.map .inOrder, c)

theorem reordTimeoutWorker_nil {c : ReordCtrl α} (hc : c.reordList = []) :
    reordTimeoutWorker c = ([], c) := by
  cases c
  subst hc
  rfl

theorem reordTimeoutWorker_cons {c c' : ReordCtrl α} {b : Bool}
    (hp : reordRxframesProcess c true = (b, c')) :
    reordTimeoutWorker c =
      let t := { c' with reordTimer := b || c'.reordTimer }
      ((reordRxframesInd t).1.map .inOrder, (reordRxframesInd t).2) := by
  rw [reordTimeoutWorker, hp]
  cases b <;> rfl

/-- What happens to an enabled control block. -/
inductive ReordOp (α : Type*)
  | frame (f : RecvMsdu α)
  | timeout

/-- The frames come on one thread, and the worker takes the lock. -/
def reordMachine (α : Type*) : Machine (ReordCtrl α) (ReordOp α) (List (Output (RecvMsdu α))) where
  step
    | c, .frame f => some (reordUnit c f)
    | c, .timeout => some (reordTimeoutWorker c)

end LonganPi.Wifi
