import LonganPi.Wifi.CmdMgr

/-!
# Where the commands are

The invariant of the command manager (`CmdSafe`) places every command: it is free, with its sender,
in the list, or with the work. Only the first command of the list is sent, by its sender or by the
work, and then one of them waits for its confirmation; the others are deferred, and have no sender.
The firmware holds no other request than that of the first command. This is kept by each step, as
long as no wait times out or is killed and the firmware sends no message that looks like a
confirmation and is none (`CmdSafe.step`).
-/

open DriverLib

namespace LonganPi.Wifi

variable {β : Type*} {s t : CmdMgr β} {op : CmdOp β} {o acts : List (CmdAct β)} {i j : ℕ}

/-! ### Where a command is -/

namespace CmdMgr

/-- The command is in the list, and was sent or is about to be. -/
def Pushed (s : CmdMgr β) (i : ℕ) : Prop :=
  i ∈ s.cmds ∧ (s.cmdArray i).flags.waitPush = false

/-- The command is confirmed, and not yet free. -/
def Confirmed (s : CmdMgr β) (i : ℕ) : Prop :=
  i ∉ s.cmds ∧ (s.cmdArray i).used ∧ (s.cmdArray i).complete

/-- The command is in use, and not in the list. -/
def Outside (s : CmdMgr β) (i : ℕ) : Prop := (s.cmdArray i).used ∧ i ∉ s.cmds

end CmdMgr

/-- The sender has a command that is not in the list. -/
def CmdSender.outside : CmdSender → Bool
  | .emptying _ | .queueing _ | .sending false | .freeing _ => true
  | _ => false

/-- The sender is about to ask for a confirmation. -/
def CmdSender.requests : CmdSender → Bool
  | .emptying reqcfm => reqcfm
  | .queueing _ => true
  | _ => false

/-- Who has a command has not returned. -/
theorem CmdSender.ne_idle_of_outside {p : CmdSender} (h : p.outside) : p ≠ .idle := by
  rintro rfl
  cases h

/-- The command of the work. -/
def CmdWorker.cmd? : CmdWorker → Option ℕ
  | .idle | .looking => none
  | .pushing i | .sending i | .waiting i | .timedOut i | .freeing i => some i

namespace CmdMgr

/-- Somebody waits for the confirmation of the command. -/
def Awaited (s : CmdMgr β) (i : ℕ) : Prop := s.sender i = .waiting ∨ s.worker = .waiting i

/-- Somebody sends the command. -/
def Sending (s : CmdMgr β) (i : ℕ) : Prop := s.sender i = .sending true ∨ s.worker = .sending i

/-- Where the command is when its sender is at a place. -/
def SenderAt (s : CmdMgr β) (i : ℕ) : CmdSender → Prop
  | .idle => True
  | .emptying reqcfm => s.Outside i ∧ (reqcfm → (s.cmdArray i).flags.reqCfm)
  | .queueing _ => s.Outside i ∧ (s.cmdArray i).flags.reqCfm
  | .sending false => s.Outside i
  | .sending true => s.Pushed i
  | .waiting => s.Pushed i ∨ s.Confirmed i
  | .timedOut => False
  | .freeing _ => s.Outside i

/-- Where the command is when the work is at a place with it. -/
def WorkerAt (s : CmdMgr β) (i : ℕ) : CmdWorker → Prop
  | .idle | .looking => True
  | .pushing _ => s.cmds.head? = some i ∧ (s.cmdArray i).flags.waitPush
  | .sending _ => s.Pushed i
  | .waiting _ => s.Pushed i ∨ s.Confirmed i
  | .timedOut _ => False
  | .freeing _ => s.Outside i

/-- A command that is outside may be at any place of a sender that has it there. -/
theorem senderAt_of_outside {p : CmdSender} (h : s.Outside i) (hp : p.outside)
    (hreq : p.requests → (s.cmdArray i).flags.reqCfm) : s.SenderAt i p := by
  cases p with
  | idle => trivial
  | emptying reqcfm => exact ⟨h, hreq⟩
  | queueing defer => exact ⟨h, hreq rfl⟩
  | sending reqcfm =>
    cases reqcfm with
    | false => exact h
    | true => cases hp
  | waiting => cases hp
  | timedOut => cases hp
  | freeing test => exact h

/-- A sender has a command that is outside, pushed or confirmed. -/
theorem SenderAt.placed {p : CmdSender} (h : s.SenderAt i p) (hp : p ≠ .idle) :
    s.Outside i ∨ s.Pushed i ∨ s.Confirmed i := by
  cases p with
  | idle => exact absurd rfl hp
  | emptying reqcfm => exact .inl h.1
  | queueing defer => exact .inl h.1
  | sending reqcfm =>
    -- with a confirmation to wait for, the command is in the list
    cases reqcfm with
    | false => exact .inl h
    | true => exact .inr (.inl h)
  | waiting => exact .inr h
  | timedOut => exact h.elim
  | freeing test => exact .inl h

/-- So has the work, or it has found a command of the list. -/
theorem WorkerAt.placed {w : CmdWorker} (h : s.WorkerAt i w) (hw : w.cmd? = some i) :
    s.Outside i ∨ s.Pushed i ∨ s.Confirmed i ∨ i ∈ s.cmds := by
  cases w with
  | idle => cases hw
  | looking => cases hw
  | pushing k => exact .inr (.inr (.inr (List.mem_of_head? h.1)))
  | sending k => exact .inr (.inl h)
  | waiting k => exact .inr (h.imp_right .inl)
  | timedOut k => exact h.elim
  | freeing k => exact .inl h

end CmdMgr

/-! ### The invariant -/

/-- A command is free, with its sender, in the list or with the work. -/
structure CmdOk (s : CmdMgr β) (i : ℕ) : Prop where
  plain : (s.cmdArray i).flags.nonblock = false ∧ (s.cmdArray i).flags.waitAck = false
  listed : i ∈ s.cmds → (s.cmdArray i).used ∧ (s.cmdArray i).flags.waitCfm ∧
    (s.cmdArray i).complete = false
  unlisted : i ∉ s.cmds → (s.cmdArray i).flags.waitPush = false ∧
    (s.cmdArray i).flags.waitCfm = false
  sender : s.SenderAt i (s.sender i)
  work : s.worker.cmd? = some i → s.sender i = .idle ∧ s.WorkerAt i s.worker
  used : (s.cmdArray i).used → s.sender i ≠ .idle ∨ i ∈ s.cmds ∨ s.worker.cmd? = some i
  owner : s.Pushed i → s.Sending i ∨ s.Awaited i

/-- The place of a command, from what it is after a step and where its sender is. -/
theorem CmdOk.of {c : RwnxCmd β} {p : CmdSender} (hc : t.cmdArray i = c) (hp : t.sender i = p)
    (hplain : c.flags.nonblock = false ∧ c.flags.waitAck = false)
    (hlisted : i ∈ t.cmds → c.used ∧ c.flags.waitCfm ∧ c.complete = false)
    (hunlisted : i ∉ t.cmds → c.flags.waitPush = false ∧ c.flags.waitCfm = false)
    (hsender : t.SenderAt i p)
    (hwork : t.worker.cmd? = some i → p = .idle ∧ t.WorkerAt i t.worker)
    (hused : c.used → p ≠ .idle ∨ i ∈ t.cmds ∨ t.worker.cmd? = some i)
    (howner : t.Pushed i → t.Sending i ∨ t.Awaited i) : CmdOk t i := by
  -- the equations put the command and its sender into the fields
  subst hc hp
  exact ⟨hplain, hlisted, hunlisted, hsender, hwork, hused, howner⟩

/-- Of the commands in the list, only the first may be under way. -/
structure CmdList (s : CmdMgr β) : Prop where
  nodup : s.cmds.Nodup
  size : s.queueSz = s.cmds.length
  behind : ∀ i ∈ s.cmds.tail, (s.cmdArray i).flags.waitPush

/-- The firmware has no other request than that of a command that is waited for. -/
structure CmdAsked (s : CmdMgr β) : Prop where
  firmware : ∀ r ∈ s.firmware, ∃ i, s.Pushed i ∧ s.Awaited i ∧
    r = ((s.cmdArray i).reqid, (s.cmdArray i).a2eMsg)
  single : s.firmware.length ≤ 1

/-- Every command has its place, and one at most is under way. -/
structure CmdSafe (s : CmdMgr β) : Prop extends CmdList s, CmdAsked s where
  cmd : ∀ i, CmdOk s i

namespace CmdSafe

theorem plain (hs : CmdSafe s) (i : ℕ) :
    (s.cmdArray i).flags.nonblock = false ∧ (s.cmdArray i).flags.waitAck = false :=
  (hs.cmd i).plain

theorem listed (hs : CmdSafe s) (i : ℕ) (hi : i ∈ s.cmds) :
    (s.cmdArray i).used ∧ (s.cmdArray i).flags.waitCfm ∧ (s.cmdArray i).complete = false :=
  (hs.cmd i).listed hi

theorem unlisted (hs : CmdSafe s) (i : ℕ) (hi : i ∉ s.cmds) :
    (s.cmdArray i).flags.waitPush = false ∧ (s.cmdArray i).flags.waitCfm = false :=
  (hs.cmd i).unlisted hi

theorem used (hs : CmdSafe s) (i : ℕ) (hi : (s.cmdArray i).used) :
    s.sender i ≠ .idle ∨ i ∈ s.cmds ∨ s.worker.cmd? = some i :=
  (hs.cmd i).used hi

theorem owner (hs : CmdSafe s) (i : ℕ) (hi : s.Pushed i) : s.Sending i ∨ s.Awaited i :=
  (hs.cmd i).owner hi

theorem senderAt (hs : CmdSafe s) {p : CmdSender} (h : s.sender i = p) : s.SenderAt i p :=
  h ▸ (hs.cmd i).sender

theorem workerAt (hs : CmdSafe s) {w : CmdWorker} (h : s.worker = w) (hw : w.cmd? = some i) :
    s.WorkerAt i w := by
  subst h
  exact ((hs.cmd i).work hw).2

/-- The work and a sender never have the same command. -/
theorem apart (hs : CmdSafe s) (i : ℕ) (hi : s.worker.cmd? = some i) : s.sender i = .idle :=
  ((hs.cmd i).work hi).1

theorem outside (hs : CmdSafe s) (i : ℕ) (h : (s.sender i).outside) : s.Outside i := by
  cases hp : s.sender i with
  | emptying reqcfm => exact (hs.senderAt hp).1
  | queueing defer => exact (hs.senderAt hp).1
  | sending reqcfm =>
    cases reqcfm with
    | false => exact hs.senderAt hp
    | true =>
      rw [hp] at h
      cases h
  | freeing test => exact hs.senderAt hp
  | _ =>
    rw [hp] at h
    cases h

theorem sending (hs : CmdSafe s) (i : ℕ) (h : s.Sending i) : s.Pushed i := by
  rcases h with h | h
  · exact hs.senderAt h
  · exact hs.workerAt h rfl

theorem awaited (hs : CmdSafe s) (i : ℕ) (h : s.Awaited i) : s.Pushed i ∨ s.Confirmed i := by
  rcases h with h | h
  · exact hs.senderAt h
  · exact hs.workerAt h rfl

theorem pushing (hs : CmdSafe s) (i : ℕ) (h : s.worker = .pushing i) :
    s.cmds.head? = some i ∧ (s.cmdArray i).flags.waitPush :=
  hs.workerAt h rfl

theorem freeing (hs : CmdSafe s) (i : ℕ) (h : s.worker = .freeing i) : s.Outside i :=
  hs.workerAt h rfl

theorem timely (hs : CmdSafe s) :
    (∀ i, s.sender i ≠ .timedOut) ∧ ∀ i, s.worker ≠ .timedOut i :=
  ⟨fun _ h => hs.senderAt h, fun _ h => hs.workerAt h rfl⟩

/-- A command that is completed and awaited is confirmed. -/
theorem confirmed_of_complete (hs : CmdSafe s) (h : s.Pushed i ∨ s.Confirmed i)
    (hc : (s.cmdArray i).complete) : s.Confirmed i := by
  refine h.resolve_left fun hp => ?_
  rw [(hs.listed i hp.1).2.2] at hc
  cases hc

/-- Nobody has a command that is not used. -/
theorem unused_idle (hs : CmdSafe s) (h : (s.cmdArray i).used = false) :
    s.sender i = .idle ∧ i ∉ s.cmds ∧ s.worker.cmd? ≠ some i := by
  have hlist : i ∉ s.cmds := fun hi => by
    rw [(hs.listed i hi).1] at h
    cases h
  -- every place but `idle` needs a command that is used, be it for the list
  have hnot : ¬(s.Outside i ∨ s.Pushed i ∨ s.Confirmed i) := by
    rintro (ho | hp | hc)
    · rw [ho.1] at h
      cases h
    · exact hlist hp.1
    · rw [hc.2.1] at h
      cases h
  refine ⟨?_, hlist, fun hw => ?_⟩
  · by_contra hp
    exact hnot ((hs.cmd i).sender.placed hp)
  · rcases ((hs.cmd i).work hw).2.placed hw with h | h | h | h
    · exact hnot (.inl h)
    · exact hnot (.inr (.inl h))
    · exact hnot (.inr (.inr h))
    · exact hlist h

/-- A command that is deferred has no sender. -/
theorem deferred_idle (hs : CmdSafe s) (hi : i ∈ s.cmds) (hw : (s.cmdArray i).flags.waitPush) :
    s.sender i = .idle := by
  by_contra hp
  rcases (hs.cmd i).sender.placed hp with ho | hpush | hc
  · exact ho.2 hi
  · rw [hpush.2] at hw
    cases hw
  · exact hc.1 hi

/-- The command that is sent is the first of the list. -/
theorem pushed_head (hs : CmdSafe s) (h : s.Pushed i) : s.cmds.head? = some i := by
  obtain ⟨hmem, hpush⟩ := h
  have hbehind := hs.behind i
  cases hl : s.cmds with
  | nil =>
    rw [hl] at hmem
    exact absurd hmem List.not_mem_nil
  | cons j rest =>
    rw [hl] at hmem hbehind
    rcases List.mem_cons.mp hmem with rfl | hmem
    · rfl
    · rw [hbehind hmem] at hpush
      cases hpush

theorem pushed_unique (hs : CmdSafe s) (hi : s.Pushed i) (hj : s.Pushed j) : i = j :=
  Option.some.inj ((hs.pushed_head hi).symm.trans (hs.pushed_head hj))

/-- Who waits for a command has sent it. -/
theorem not_sending (hs : CmdSafe s) (ha : s.Awaited i) : ¬s.Sending i := by
  rintro (hsend | hsend)
  · rcases ha with hwait | hwait
    · rw [hwait] at hsend
      cases hsend
    · rw [hs.apart i (by rw [hwait]; rfl)] at hsend
      cases hsend
  · rcases ha with hwait | hwait
    · rw [hs.apart i (by rw [hsend]; rfl)] at hwait
      cases hwait
    · rw [hwait] at hsend
      cases hsend

/-- No request is at the firmware while a command is being sent. -/
theorem firmware_nil (hs : CmdSafe s) (h : s.Sending i) : s.firmware = [] := by
  refine List.eq_nil_iff_forall_not_mem.mpr fun r hr => ?_
  obtain ⟨j, hpushed, hawaited, -⟩ := hs.firmware r hr
  -- the request is of the command that is being sent, for which nobody waits yet
  obtain rfl : j = i := hs.pushed_unique hpushed (hs.sending i h)
  exact hs.not_sending hawaited h

end CmdSafe

/-! ### Commands that a step leaves alone -/

/-- A command is where it was. -/
structure CmdMgr.Same (s t : CmdMgr β) (j : ℕ) : Prop where
  cmd : t.cmdArray j = s.cmdArray j
  sender : t.sender j = s.sender j
  mem : j ∈ t.cmds ↔ j ∈ s.cmds
  head : s.cmds.head? = some j → t.cmds.head? = some j
  worker : t.worker = s.worker ∨ t.worker.cmd? ≠ some j ∧ s.worker.cmd? ≠ some j

namespace CmdMgr.Same

theorem setCmd (h : j ≠ i) (f : RwnxCmd β → RwnxCmd β) : s.Same (s.setCmd i f) j :=
  ⟨setCmd_of_ne h f, rfl, Iff.rfl, id, .inl rfl⟩

theorem setSender (h : j ≠ i) (p : CmdSender) : s.Same (s.setSender i p) j :=
  ⟨rfl, setSender_of_ne h p, Iff.rfl, id, .inl rfl⟩

variable (h : s.Same t j)
include h

theorem outside : t.Outside j ↔ s.Outside j := by
  rw [CmdMgr.Outside, CmdMgr.Outside, h.cmd, h.mem]

theorem pushed : t.Pushed j ↔ s.Pushed j := by
  rw [CmdMgr.Pushed, CmdMgr.Pushed, h.cmd, h.mem]

theorem confirmed : t.Confirmed j ↔ s.Confirmed j := by
  rw [CmdMgr.Confirmed, CmdMgr.Confirmed, h.cmd, h.mem]

/-- The work is at a place with the command if it was. -/
theorem worker_iff {w : CmdWorker} (hw : w.cmd? = some j) : t.worker = w ↔ s.worker = w := by
  rcases h.worker with heq | ⟨ht, hs⟩
  · rw [heq]
  · exact ⟨fun h => absurd hw (h ▸ ht), fun h => absurd hw (h ▸ hs)⟩

theorem sending : t.Sending j ↔ s.Sending j := by
  rw [CmdMgr.Sending, CmdMgr.Sending, h.sender, h.worker_iff rfl]

theorem awaited : t.Awaited j ↔ s.Awaited j := by
  rw [CmdMgr.Awaited, CmdMgr.Awaited, h.sender, h.worker_iff rfl]

theorem senderAt (p : CmdSender) (hp : s.SenderAt j p) : t.SenderAt j p := by
  cases p with
  | idle => trivial
  | emptying reqcfm => exact ⟨h.outside.mpr hp.1, by rw [h.cmd]; exact hp.2⟩
  | queueing defer => exact ⟨h.outside.mpr hp.1, by rw [h.cmd]; exact hp.2⟩
  | sending reqcfm =>
    cases reqcfm with
    | false => exact h.outside.mpr hp
    | true => exact h.pushed.mpr hp
  | waiting => exact hp.imp h.pushed.mpr h.confirmed.mpr
  | timedOut => exact hp
  | freeing test => exact h.outside.mpr hp

theorem workerAt (w : CmdWorker) (hw : s.WorkerAt j w) : t.WorkerAt j w := by
  cases w with
  | idle => trivial
  | looking => trivial
  | pushing k => exact ⟨h.head hw.1, by rw [h.cmd]; exact hw.2⟩
  | sending k => exact h.pushed.mpr hw
  | waiting k => exact hw.imp h.pushed.mpr h.confirmed.mpr
  | timedOut k => exact hw
  | freeing k => exact h.outside.mpr hw

theorem cmdOk (hok : CmdOk s j) : CmdOk t j where
  plain := by
    rw [h.cmd]
    exact hok.plain
  listed := fun hmem => by
    rw [h.cmd]
    exact hok.listed (h.mem.mp hmem)
  unlisted := fun hmem => by
    rw [h.cmd]
    exact hok.unlisted fun hj => hmem (h.mem.mpr hj)
  sender := by
    rw [h.sender]
    exact h.senderAt _ hok.sender
  work := fun hw => by
    rcases h.worker with heq | ⟨hne, -⟩
    · rw [heq] at hw ⊢
      rw [h.sender]
      exact ⟨(hok.work hw).1, h.workerAt _ (hok.work hw).2⟩
    · exact absurd hw hne
  used := fun hu => by
    rw [h.cmd] at hu
    rw [h.sender, h.mem]
    rcases hok.used hu with hu | hu | hu
    · exact .inl hu
    · exact .inr (.inl hu)
    · rcases h.worker with heq | ⟨-, hne⟩
      · exact .inr (.inr (heq ▸ hu))
      · exact absurd hu hne
  owner := fun hp => (hok.owner (h.pushed.mp hp)).imp h.sending.mpr h.awaited.mpr

end CmdMgr.Same

/-- **One command at a time.** A step that touches one command keeps the invariant if it finds a
place for the command, and keeps what holds of the list and of the firmware. -/
theorem CmdSafe.touch (hs : CmdSafe s) (hsame : ∀ j ≠ i, s.Same t j) (hok : CmdOk t i)
    (hlist : CmdList t) (hasked : CmdAsked t) : CmdSafe t where
  toCmdList := hlist
  toCmdAsked := hasked
  cmd := fun j => by
    by_cases hj : j = i
    · rw [hj]
      exact hok
    · exact (hsame j hj).cmdOk (hs.cmd j)

/-- The list is the same, and the command is deferred if it was. -/
theorem CmdList.touch (hs : CmdList s) (hsame : ∀ j ≠ i, s.Same t j) (hcmds : t.cmds = s.cmds)
    (hsize : t.queueSz = s.queueSz)
    (hpush : (t.cmdArray i).flags.waitPush = (s.cmdArray i).flags.waitPush) : CmdList t where
  nodup := hcmds ▸ hs.nodup
  size := by rw [hsize, hcmds, hs.size]
  behind := fun j hj => by
    rw [hcmds] at hj
    by_cases hji : j = i
    · rw [hji, hpush, ← hji]
      exact hs.behind j hj
    · rw [(hsame j hji).cmd]
      exact hs.behind j hj

/-- The commands that are under way are where they were. -/
theorem CmdAsked.congr (hs : CmdAsked s) (hsame : ∀ j, s.Pushed j → s.Same t j)
    (hfw : t.firmware = s.firmware) : CmdAsked t where
  firmware := fun r hr => by
    rw [hfw] at hr
    obtain ⟨j, hpushed, hawaited, heq⟩ := hs.firmware r hr
    have hj := hsame j hpushed
    refine ⟨j, hj.pushed.mpr hpushed, hj.awaited.mpr hawaited, ?_⟩
    rw [hj.cmd]
    exact heq
  single := by
    rw [hfw]
    exact hs.single

/-- The request at the firmware is not of the command. -/
theorem CmdAsked.touch (hs : CmdAsked s) (hsame : ∀ j ≠ i, s.Same t j)
    (hfw : t.firmware = s.firmware) (hi : ¬s.Pushed i) : CmdAsked t :=
  hs.congr (fun j hj => hsame j fun hji => hi (hji ▸ hj)) hfw

/-- No wait times out or is killed, and the firmware sends no other message with the id of a
confirmation that is waited for. -/
def CmdOp.orderly (s : CmdMgr β) : CmdOp β → Bool
  | .timeout _ | .kill _ | .workTimeout => false
  | .indicate id cb => !cb || s.cmds.all fun i => (s.cmdArray i).reqid != id
  | _ => true

theorem rwnxCmdMalloc_used (h : rwnxCmdMalloc s = some i) : (s.cmdArray i).used = false := by
  simpa using List.find?_some h

/-! ### Senders -/

/-- A command is taken and filled. -/
theorem CmdSafe.begin {msg : LmacMsg β} {reqid : ℕ} {reqcfm cfm : Bool} {p : CmdSender}
    (hs : CmdSafe s) (hp : p.outside) (hreq : p.requests → reqcfm)
    (h : rwnxSendMsgBegin s msg reqid reqcfm cfm p = some (o, t)) : CmdSafe t := by
  rw [rwnxSendMsgBegin] at h
  split at h
  · cases h
    exact hs
  -- the command that is taken was free, so it is nowhere
  obtain ⟨i, hi, heq⟩ := Option.map_eq_some_iff.mp h
  obtain ⟨-, rfl⟩ := Prod.mk.inj heq
  obtain ⟨-, hlist, hwork⟩ := hs.unused_idle (rwnxCmdMalloc_used hi)
  have hcmd := CmdMgr.setCmd_self (s := s) (i := i) fun c => c.fill msg reqid reqcfm cfm
  have hsame : ∀ j ≠ i, s.Same
      ((s.setCmd i fun c => c.fill msg reqid reqcfm cfm).setSender i p) j := fun j hj =>
    ⟨CmdMgr.setCmd_of_ne hj fun c => c.fill msg reqid reqcfm cfm, CmdMgr.setSender_of_ne hj p,
      Iff.rfl, id, .inl rfl⟩
  refine hs.touch hsame (.of hcmd (CmdMgr.setSender_self p) ?_ (fun hmem => absurd hmem hlist)
    (fun _ => hs.unlisted i hlist) ?_ (fun hw => absurd hw hwork)
    (fun _ => .inl (CmdSender.ne_idle_of_outside hp)) fun hpushed => absurd hpushed.1 hlist)
    (hs.toCmdList.touch hsame rfl rfl (congrArg (fun c => c.flags.waitPush) hcmd))
    (hs.toCmdAsked.touch hsame rfl fun hpushed => hlist hpushed.1)
  · -- `RWNX_CMD_FLAG_WAIT_ACK` is not set by the new flags
    exact ⟨(hs.plain i).1, by rw [RwnxCmd.fill, (hs.plain i).2, Bool.false_and]⟩
  · -- the sender has it, and knows whether it asks for a confirmation
    refine CmdMgr.senderAt_of_outside ⟨congrArg (fun c => c.used) hcmd, hlist⟩ hp fun h => ?_
    refine (congrArg (fun c => c.flags.reqCfm) hcmd).trans ?_
    rw [RwnxCmd.fill, hreq h, Bool.or_true]

/-- The steps of a sender that change nothing but where it is. -/
theorem CmdSafe.move {p : CmdSender} (hs : CmdSafe s) (hout : s.Outside i)
    (hold : s.sender i ≠ .idle) (hnew : p.outside)
    (hreq : p.requests → (s.cmdArray i).flags.reqCfm) : CmdSafe (s.setSender i p) := by
  have hsame : ∀ j ≠ i, s.Same (s.setSender i p) j := fun j hj => .setSender hj p
  exact hs.touch hsame (.of rfl (CmdMgr.setSender_self p) (hs.plain i) (hs.listed i)
    (hs.unlisted i) (CmdMgr.senderAt_of_outside hout hnew hreq)
    (fun hw => absurd (hs.apart i hw) hold) (fun _ => .inl (CmdSender.ne_idle_of_outside hnew))
    fun hpushed => absurd hpushed.1 hout.2)
    (hs.toCmdList.touch hsame rfl rfl rfl)
    (hs.toCmdAsked.touch hsame rfl fun hpushed => hout.2 hpushed.1)

/-- A list that is not empty is busy. -/
theorem CmdSafe.busy_eq (hs : CmdSafe s) : s.busy = !s.cmds.isEmpty := by
  rw [CmdMgr.busy]
  cases hl : s.cmds.getLast? with
  | none => simp [List.getLast?_eq_none_iff.mp hl]
  | some j =>
    have hmem := List.mem_of_getLast? hl
    simp [(hs.listed j hmem).2.1, List.ne_nil_of_mem hmem]

/-- The list with a new command at its end, which is deferred unless it is alone. -/
theorem CmdList.append (hs : CmdList s) (hlist : i ∉ s.cmds) (hcmds : t.cmds = s.cmds ++ [i])
    (hsize : t.queueSz = s.queueSz + 1) (hold : ∀ j ≠ i, t.cmdArray j = s.cmdArray j)
    (hnew : s.cmds ≠ [] → (t.cmdArray i).flags.waitPush) : CmdList t where
  nodup := by
    rw [hcmds]
    refine List.nodup_append.mpr ⟨hs.nodup, List.pairwise_singleton _ i, fun j hj k hk hjk => ?_⟩
    rw [List.mem_singleton] at hk
    exact hlist (hk ▸ hjk ▸ hj)
  size := by rw [hsize, hcmds, List.length_append, List.length_singleton, hs.size]
  behind := fun j hj => by
    rw [hcmds] at hj
    cases hl : s.cmds with
    | nil =>
      rw [hl] at hj
      cases hj
    | cons k rest =>
      -- the others were deferred, and so is the new one
      rw [hl, List.cons_append, List.tail_cons, List.mem_append, List.mem_singleton] at hj
      rcases hj with hj | rfl
      · have hmem : j ∈ s.cmds.tail := by
          rw [hl]
          exact hj
        rw [hold j fun hji => hlist (hji ▸ List.mem_of_mem_tail hmem)]
        exact hs.behind j hmem
      · exact hnew (hl ▸ List.cons_ne_nil k rest)

/-- A command is appended, and deferred unless the list was empty. -/
theorem CmdSafe.append {defer : Bool} {p : CmdSender} (hs : CmdSafe s)
    (hold : s.sender i = .queueing defer) (deferPush : Bool) (hdefer : s.cmds ≠ [] → deferPush)
    (hp : p = if deferPush then .idle else .sending true) (n m : ℕ) :
    CmdSafe { (s.setCmd i fun c => c.queue deferPush).setSender i p with
      cmds := s.cmds ++ [i]
      queueSz := s.queueSz + 1
      queueTests := n
      wakes := m } := by
  obtain ⟨⟨hused, hlist⟩, hreq⟩ := hs.senderAt hold
  obtain ⟨hnonblock, hack⟩ := hs.plain i
  have hcmd := CmdMgr.setCmd_self (s := s) (i := i) fun c => c.queue deferPush
  -- the flag was clear, since the command was outside the list
  have hpush : ((s.setCmd i fun c => c.queue deferPush).cmdArray i).flags.waitPush =
      deferPush := by
    rw [hcmd, RwnxCmd.queue, (hs.unlisted i hlist).1, Bool.false_or]
  have hmem : i ∈ s.cmds ++ [i] := List.mem_append_right _ List.mem_cons_self
  have hsame : ∀ j ≠ i, s.Same { (s.setCmd i fun c => c.queue deferPush).setSender i p with
      cmds := s.cmds ++ [i]
      queueSz := s.queueSz + 1
      queueTests := n
      wakes := m } j := fun j hj => by
    refine ⟨CmdMgr.setCmd_of_ne hj fun c => c.queue deferPush, CmdMgr.setSender_of_ne hj p, ?_,
      fun hhead => ?_, .inl rfl⟩
    · rw [List.mem_append, List.mem_singleton, or_iff_left hj]
    · change (s.cmds ++ [i]).head? = some j
      rw [List.head?_append, hhead]
      rfl
  refine hs.touch hsame (.of hcmd (CmdMgr.setSender_self p) ⟨hnonblock, hack⟩
    (fun _ => ⟨hused, ?_, ?_⟩) (fun hnot => absurd hmem hnot) ?_ (fun hw => ?_)
    (fun _ => .inr (.inl hmem)) fun hpushed => .inl (.inl ?_))
    (hs.toCmdList.append hlist rfl rfl (fun j hj => (hsame j hj).cmd)
      fun hne => hpush.trans (hdefer hne))
    (hs.toCmdAsked.touch hsame rfl fun hpushed => hlist hpushed.1)
  · -- it waits for a confirmation, which is not there yet
    rw [RwnxCmd.queue, hreq, Bool.or_true]
  · rw [RwnxCmd.queue, hnonblock, Bool.false_and]
  · -- the sender goes on with it, or has left it to the work
    rw [hp]
    cases deferPush with
    | true => trivial
    | false => exact ⟨hmem, hpush⟩
  · -- the work has no command of a sender
    have hidle := hs.apart i hw
    rw [hold] at hidle
    cases hidle
  · -- it is sent at once if it is not deferred
    have hnow : deferPush = false := hpush.symm.trans hpushed.2
    refine (CmdMgr.setSender_self p).trans ?_
    rw [hp, hnow]
    rfl

/-- What the invariant does not read. -/
theorem CmdSafe.frame (hs : CmdSafe s) (state : UsbSt) (crashed cmdWork : Bool) (l m n : ℕ) :
    CmdSafe { s with
      state := state
      crashed := crashed
      cmdWork := cmdWork
      queueTests := l
      wakes := m
      listTests := n } where
  nodup := hs.nodup
  size := hs.size
  behind := hs.behind
  firmware := hs.firmware
  single := hs.single
  cmd := fun i => CmdMgr.Same.cmdOk (s := s) ⟨rfl, rfl, Iff.rfl, id, .inl rfl⟩ (hs.cmd i)

/-- The command is sent. Its request reaches the firmware or not, and somebody waits for it. -/
theorem CmdSafe.send (hs : CmdSafe s) (hold : s.Sending i) (sent : Bool)
    (hsame : ∀ j ≠ i, s.Same t j) (hok : CmdOk t i) (hcmds : t.cmds = s.cmds)
    (hsize : t.queueSz = s.queueSz) (hcmd : t.cmdArray i = s.cmdArray i)
    (hfw : t.firmware = (aicwfSetCmdTx s i sent).firmware) (ha : t.Awaited i) : CmdSafe t := by
  obtain ⟨hmem, hpush⟩ := hs.sending i hold
  refine hs.touch hsame hok (hs.toCmdList.touch hsame hcmds hsize (by rw [hcmd])) ?_
  rw [aicwfSetCmdTx] at hfw
  -- the request reaches the firmware, which had none
  split at hfw
  · rw [hs.firmware_nil hold, List.nil_append] at hfw
    refine ⟨fun r hr => ?_, by rw [hfw]; exact Nat.le_refl 1⟩
    rw [hfw, List.mem_singleton] at hr
    exact ⟨i, ⟨hcmds ▸ hmem, by rw [hcmd]; exact hpush⟩, ha, by rw [hr, hcmd]⟩
  · -- the bus is down, or the transfer fails
    rw [hs.firmware_nil hold] at hfw
    refine ⟨fun r hr => ?_, by rw [hfw]; exact Nat.zero_le 1⟩
    rw [hfw] at hr
    cases hr

/-- The sender has sent the command. -/
theorem CmdSafe.sent (hs : CmdSafe s) (hold : s.sender i = .sending true) (sent : Bool) :
    CmdSafe ((aicwfSetCmdTx s i sent).setSender i .waiting) := by
  have hpushed : s.Pushed i := hs.senderAt hold
  -- the work has no command of a sender
  have hwork : s.worker.cmd? ≠ some i := fun hw => by
    have hidle := hs.apart i hw
    rw [hold] at hidle
    cases hidle
  obtain ⟨fw, heq⟩ := aicwfSetCmdTx_eq s i sent
  have hsame : ∀ j ≠ i, s.Same ({ s with firmware := fw }.setSender i .waiting) j := fun j hj =>
    ⟨rfl, CmdMgr.setSender_of_ne hj _, Iff.rfl, id, .inl rfl⟩
  have hwait : ({ s with firmware := fw }.setSender i .waiting).Awaited i :=
    .inl (CmdMgr.setSender_self _)
  have hfw : fw = (aicwfSetCmdTx s i sent).firmware := by rw [heq]
  rw [heq]
  exact hs.send (.inl hold) sent hsame (.of rfl (CmdMgr.setSender_self _) (hs.plain i)
    (hs.listed i) (hs.unlisted i) (.inl hpushed) (fun hw => absurd hw hwork)
    (fun _ => .inr (.inl hpushed.1)) fun _ => .inr hwait) rfl rfl rfl hfw hwait

/-- The sender has the confirmation. -/
theorem CmdSafe.woken (hs : CmdSafe s) (hold : s.sender i = .waiting)
    (hc : (s.cmdArray i).complete) : CmdSafe (s.setSender i (.freeing true)) := by
  have hconfirmed := hs.confirmed_of_complete (hs.senderAt hold) hc
  -- the command is off the list, and still in use
  refine hs.move ⟨hconfirmed.2.1, hconfirmed.1⟩ (fun hidle => ?_) rfl (fun h => by cases h)
  rw [hold] at hidle
  cases hidle

/-- The sender gives the command back. -/
theorem CmdSafe.freed {test : Bool} (hs : CmdSafe s) (hold : s.sender i = .freeing test) :
    CmdSafe ((rwnxCmdFree s i).setSender i .idle) := by
  have hlist := (hs.senderAt hold).2
  -- the work has no command of a sender
  have hwork : s.worker.cmd? ≠ some i := fun hw => by
    have hidle := hs.apart i hw
    rw [hold] at hidle
    cases hidle
  have hcmd := CmdMgr.setCmd_self (s := s) (i := i) fun c => { c with used := false }
  have hsame : ∀ j ≠ i, s.Same ((rwnxCmdFree s i).setSender i .idle) j := fun j hj =>
    ⟨CmdMgr.setCmd_of_ne hj fun c => { c with used := false }, CmdMgr.setSender_of_ne hj _,
      Iff.rfl, id, .inl rfl⟩
  exact hs.touch hsame (.of hcmd (CmdMgr.setSender_self _) (hs.plain i)
    (fun hmem => absurd hmem hlist) (fun _ => hs.unlisted i hlist) trivial
    (fun hw => absurd hw hwork) (fun hused => by cases hused)
    fun hpushed => absurd hpushed.1 hlist)
    (hs.toCmdList.touch hsame rfl rfl (congrArg (fun c => c.flags.waitPush) hcmd))
    (hs.toCmdAsked.touch hsame rfl fun hpushed => hlist hpushed.1)

/-! ### The work -/

/-- The work has no command, before and after. -/
theorem CmdSafe.workIdle {w : CmdWorker} (hs : CmdSafe s) (hold : s.worker.cmd? = none)
    (hnew : w.cmd? = none) : CmdSafe { s with worker := w } := by
  have hsame : ∀ j, s.Same { s with worker := w } j := fun j =>
    ⟨rfl, rfl, Iff.rfl, id, .inr ⟨by
      rw [hnew]
      exact (Option.some_ne_none j).symm, by
      rw [hold]
      exact (Option.some_ne_none j).symm⟩⟩
  -- no command was with the work or is, so all are where they were
  exact { hs.toCmdList.touch (i := 0) (fun j _ => hsame j) rfl rfl rfl,
    hs.toCmdAsked.congr (fun j _ => hsame j) rfl with cmd := fun j => (hsame j).cmdOk (hs.cmd j) }

/-- The work has found a command that is deferred. -/
theorem CmdSafe.workFound (hs : CmdSafe s) (hold : s.worker.cmd? = none)
    (hhead : s.cmds.head? = some i) (hpush : (s.cmdArray i).flags.waitPush) :
    CmdSafe { s with worker := .pushing i } := by
  have hmem := List.mem_of_head? hhead
  have hidle := hs.deferred_idle hmem hpush
  have hnot : ¬s.Pushed i := fun hpushed => by
    rw [hpushed.2] at hpush
    cases hpush
  have hsame : ∀ j ≠ i, s.Same { s with worker := .pushing i } j := fun j hj =>
    ⟨rfl, rfl, Iff.rfl, id, .inr ⟨fun h => hj (Option.some.inj h).symm, by
      rw [hold]
      exact (Option.some_ne_none j).symm⟩⟩
  exact hs.touch hsame (.of rfl hidle (hs.plain i) (hs.listed i) (hs.unlisted i) trivial
    (fun _ => ⟨rfl, hhead, hpush⟩) (fun _ => .inr (.inl hmem)) fun hpushed => absurd hpushed hnot)
    (hs.toCmdList.touch hsame rfl rfl rfl) (hs.toCmdAsked.touch hsame rfl hnot)

/-- The work is about to send the command that it has found. The command has no sender, so from
here on the work is the one who sends it. -/
theorem CmdSafe.workPush (hs : CmdSafe s) (hold : s.worker = .pushing i) :
    CmdSafe { s.setCmd i fun c => { c with flags := { c.flags with waitPush := false } } with
      worker := .sending i } := by
  obtain ⟨hhead, hpush⟩ := hs.pushing i hold
  have hmem := List.mem_of_head? hhead
  have hidle := hs.deferred_idle hmem hpush
  have hcmd := CmdMgr.setCmd_self (s := s) (i := i) fun c =>
    { c with flags := { c.flags with waitPush := false } }
  have hsame : ∀ j ≠ i, s.Same
      { s.setCmd i fun c => { c with flags := { c.flags with waitPush := false } } with
        worker := .sending i } j := fun j hj =>
    ⟨CmdMgr.setCmd_of_ne hj fun c => { c with flags := { c.flags with waitPush := false } }, rfl,
      Iff.rfl, id, .inr ⟨fun h => hj (Option.some.inj h).symm, by
        rw [hold]
        exact fun h => hj (Option.some.inj h).symm⟩⟩
  refine hs.touch hsame (.of hcmd hidle (hs.plain i) (fun _ => hs.listed i hmem)
    (fun hnot => absurd hmem hnot) trivial
    (fun _ => ⟨rfl, hmem, congrArg (fun c => c.flags.waitPush) hcmd⟩)
    (fun _ => .inr (.inl hmem)) fun _ => .inl (.inr rfl)) ⟨hs.nodup, hs.size, fun j hj => ?_⟩
    (hs.toCmdAsked.touch hsame rfl fun hpushed => ?_)
  · -- the first command is not among the others
    obtain ⟨rest, hl⟩ := List.head?_eq_some_iff.mp hhead
    have hnodup := hs.nodup
    rw [hl] at hnodup
    have hji : j ≠ i := fun hji => by
      change j ∈ s.cmds.tail at hj
      rw [hl, hji] at hj
      exact (List.nodup_cons.mp hnodup).1 hj
    rw [(hsame j hji).cmd]
    exact hs.behind j hj
  · rw [hpushed.2] at hpush
    cases hpush

/-- The work has sent the command. -/
theorem CmdSafe.workSent (hs : CmdSafe s) (hold : s.worker = .sending i) (sent : Bool) :
    CmdSafe { aicwfSetCmdTx s i sent with worker := .waiting i } := by
  have hpushed : s.Pushed i := hs.workerAt hold rfl
  have hidle := hs.apart i (by rw [hold]; rfl)
  obtain ⟨fw, heq⟩ := aicwfSetCmdTx_eq s i sent
  have hsame : ∀ j ≠ i, s.Same { s with firmware := fw, worker := .waiting i } j := fun j hj =>
    ⟨rfl, rfl, Iff.rfl, id, .inr ⟨fun h => hj (Option.some.inj h).symm, by
      rw [hold]
      exact fun h => hj (Option.some.inj h).symm⟩⟩
  have hfw : fw = (aicwfSetCmdTx s i sent).firmware := by rw [heq]
  rw [heq]
  exact hs.send (.inr hold) sent hsame (.of rfl hidle (hs.plain i) (hs.listed i) (hs.unlisted i)
    trivial (fun _ => ⟨rfl, .inl hpushed⟩) (fun _ => .inr (.inl hpushed.1))
    fun _ => .inr (.inr rfl)) rfl rfl rfl hfw (.inr rfl)

/-- The work has the confirmation. -/
theorem CmdSafe.workWoken (hs : CmdSafe s) (hold : s.worker = .waiting i)
    (hc : (s.cmdArray i).complete) : CmdSafe { s with worker := .freeing i } := by
  have hconfirmed := hs.confirmed_of_complete (hs.workerAt hold rfl) hc
  have hidle := hs.apart i (by rw [hold]; rfl)
  have hsame : ∀ j ≠ i, s.Same { s with worker := .freeing i } j := fun j hj =>
    ⟨rfl, rfl, Iff.rfl, id, .inr ⟨fun h => hj (Option.some.inj h).symm, by
      rw [hold]
      exact fun h => hj (Option.some.inj h).symm⟩⟩
  -- the command is off the list, and still in use
  exact hs.touch hsame (.of rfl hidle (hs.plain i) (hs.listed i) (hs.unlisted i) trivial
    (fun _ => ⟨rfl, hconfirmed.2.1, hconfirmed.1⟩) (fun _ => .inr (.inr rfl))
    fun hpushed => absurd hpushed.1 hconfirmed.1)
    (hs.toCmdList.touch hsame rfl rfl rfl)
    (hs.toCmdAsked.touch hsame rfl fun hpushed => hconfirmed.1 hpushed.1)

/-- The work gives the command back. -/
theorem CmdSafe.workFreed (hs : CmdSafe s) (hold : s.worker = .freeing i) :
    CmdSafe { rwnxCmdFree s i with worker := .looking } := by
  have hlist := (hs.freeing i hold).2
  have hidle := hs.apart i (by rw [hold]; rfl)
  have hcmd := CmdMgr.setCmd_self (s := s) (i := i) fun c => { c with used := false }
  have hsame : ∀ j ≠ i, s.Same { rwnxCmdFree s i with worker := .looking } j := fun j hj =>
    ⟨CmdMgr.setCmd_of_ne hj fun c => { c with used := false }, rfl, Iff.rfl, id,
      .inr ⟨(Option.some_ne_none j).symm, by
        rw [hold]
        exact fun h => hj (Option.some.inj h).symm⟩⟩
  exact hs.touch hsame (.of hcmd hidle (hs.plain i) (fun hmem => absurd hmem hlist)
    (fun _ => hs.unlisted i hlist) trivial (fun hw => by cases hw) (fun hused => by cases hused)
    fun hpushed => absurd hpushed.1 hlist)
    (hs.toCmdList.touch hsame rfl rfl (congrArg (fun c => c.flags.waitPush) hcmd))
    (hs.toCmdAsked.touch hsame rfl fun hpushed => hlist hpushed.1)

/-! ### The firmware -/

/-- The command that the first request at the firmware is of. -/
theorem CmdSafe.request (hs : CmdSafe s) {n : ℕ} {r : ℕ × LmacMsg β} (h : s.firmware[n]? = some r) :
    ∃ i rest, s.cmds = i :: rest ∧ s.Pushed i ∧ s.Awaited i ∧
      r = ((s.cmdArray i).reqid, (s.cmdArray i).a2eMsg) ∧ s.firmware.eraseIdx n = [] := by
  have hmem := List.mem_of_getElem? h
  obtain ⟨i, hpushed, hawaited, heq⟩ := hs.firmware r hmem
  obtain ⟨rest, hcmds⟩ := List.head?_eq_some_iff.mp (hs.pushed_head hpushed)
  have hlen := hs.single
  obtain ⟨hlt, -⟩ := List.getElem?_eq_some_iff.mp h
  -- there is no second request
  refine ⟨i, rest, hcmds, hpushed, hawaited, heq, List.length_eq_zero_iff.mp ?_⟩
  rw [List.length_eraseIdx_of_lt hlt]
  omega

/-- The message of the firmware is for the first command, and completes it. -/
theorem CmdSafe.msgind_head (hs : CmdSafe s) {rest : List ℕ} (hl : s.cmds = i :: rest)
    (h : s.Pushed i) :
    ∃ o, cmdMgrMsgind s (s.cmdArray i).reqid true = (o, cmdComplete (s.setCmd i fun c =>
        { c with flags := { c.flags with waitCfm := false } }) i) ∧
      o = (if (s.cmdArray i).e2aMsg then
          [CmdAct.memcpy (s.cmdArray i).a2eMsg (s.sender i).live] else []) ++
        [.complete (s.cmdArray i).a2eMsg] := by
  have hcfm := (hs.listed i h.1).2.1
  have hack := (hs.plain i).2
  -- the first command waits for this confirmation, so the search stops there
  have hfind : (s.cmds.find? fun j => (s.cmdArray j).reqid == (s.cmdArray i).reqid &&
      (s.cmdArray j).flags.waitCfm && true) = some i := by
    rw [hl, List.find?_cons_of_pos]
    simp [hcfm]
  rw [cmdMgrMsgind, hfind]
  simp only [CmdMgr.setCmd, Function.update_self, CmdFlags.waitComplete, hack, Bool.or_self,
    Bool.not_false, if_true]
  refine ⟨_, rfl, ?_⟩
  split <;> rfl

/-- The first command is taken off the list. -/
theorem CmdList.erase (hs : CmdList s) {rest : List ℕ} (hl : s.cmds = i :: rest)
    (hcmds : t.cmds = s.cmds.erase i) (hsize : t.queueSz = s.queueSz - 1)
    (hold : ∀ j ≠ i, t.cmdArray j = s.cmdArray j) : CmdList t := by
  have hnodup := hs.nodup
  have hbehind := hs.behind
  rw [hl, List.erase_cons_head] at hcmds
  rw [hl] at hnodup hbehind
  refine ⟨hcmds ▸ (List.nodup_cons.mp hnodup).2, ?_, fun j hj => ?_⟩
  · rw [hsize, hs.size, hl, hcmds, List.length_cons, Nat.add_sub_cancel]
  · -- those that are left were behind it
    rw [hcmds] at hj
    have hmem := List.mem_of_mem_tail hj
    rw [hold j fun hji => (List.nodup_cons.mp hnodup).1 (hji ▸ hmem)]
    exact hbehind j hmem

/-- The command that is confirmed. -/
theorem cmdComplete_cfm
    (h : (s.cmdArray i).flags.nonblock = false ∧ (s.cmdArray i).flags.waitAck = false) :
    (cmdComplete (s.setCmd i fun c =>
      { c with flags := { c.flags with waitCfm := false } }) i).cmdArray i =
      { s.cmdArray i with
        flags := { (s.cmdArray i).flags with waitCfm := false, done := true }
        complete := true } := by
  simp only [cmdComplete, CmdMgr.setCmd, Function.update_self, h.1, h.2, CmdFlags.waitComplete,
    Bool.false_eq_true, if_false, Bool.or_self, Bool.not_false, Bool.or_true]

/-- Who has waited for the command will free it. -/
theorem CmdSafe.confirmed (hs : CmdSafe s) {rest : List ℕ} (hl : s.cmds = i :: rest)
    (h : s.Pushed i) (ha : s.Awaited i) :
    CmdSafe { cmdComplete (s.setCmd i fun c =>
      { c with flags := { c.flags with waitCfm := false } }) i with firmware := [] } := by
  have hcmd := cmdComplete_cfm (hs.plain i)
  have hold : ∀ j ≠ i, (cmdComplete (s.setCmd i fun c =>
      { c with flags := { c.flags with waitCfm := false } }) i).cmdArray j = s.cmdArray j :=
    fun j hj => (cmdComplete_of_ne hj).trans (CmdMgr.setCmd_of_ne hj _)
  have hnot : i ∉ s.cmds.erase i := fun hmem => (hs.nodup.mem_erase_iff.mp hmem).1 rfl
  have hconfirmed : { cmdComplete (s.setCmd i fun c =>
      { c with flags := { c.flags with waitCfm := false } }) i with
      firmware := [] }.Confirmed i := by
    refine ⟨hnot, ?_, congrArg (fun c => c.complete) hcmd⟩
    exact (congrArg (fun c => c.used) hcmd).trans (hs.listed i h.1).1
  refine hs.touch (fun j hj => ⟨hold j hj, rfl, List.mem_erase_of_ne hj, fun hhead => ?_, .inl rfl⟩)
    (.of hcmd rfl (hs.plain i) (fun hmem => absurd hmem hnot) (fun _ => ⟨h.2, rfl⟩) ?_
      (fun hw => ⟨hs.apart i hw, ?_⟩) (fun _ => ?_) fun hpushed => absurd hpushed.1 hnot)
    (hs.toCmdList.erase hl rfl rfl hold) ⟨fun r hr => absurd hr List.not_mem_nil, Nat.zero_le 1⟩
  · -- the command that becomes the first was not the first before
    rw [hl, List.head?_cons, Option.some.injEq] at hhead
    exact absurd hhead.symm hj
  · -- whose sender waits has the confirmation
    change CmdMgr.SenderAt _ i (s.sender i)
    rcases ha with hwait | hwait
    · rw [hwait]
      exact .inr hconfirmed
    · rw [hs.apart i (by rw [hwait]; rfl)]
      trivial
  · -- the work with a command of a sender would be at two places
    rcases ha with hwait | hwait
    · have hidle := hs.apart i hw
      rw [hwait] at hidle
      cases hidle
    · change CmdMgr.WorkerAt _ i s.worker
      rw [hwait]
      exact .inr hconfirmed
  · rcases ha with hwait | hwait
    · refine .inl fun hidle => ?_
      have hidle : s.sender i = .idle := hidle
      rw [hwait] at hidle
      cases hidle
    · exact .inr (.inr (congrArg CmdWorker.cmd? hwait))

/-! ### Runs -/

/-- A command is queued, or refused when the list is full or the manager has crashed. -/
theorem CmdSafe.queue {defer : Bool} (hs : CmdSafe s) (hold : s.sender i = .queueing defer) :
    CmdSafe (cmdMgrQueue s i).2 ∧ CmdSafe (cmdMgrQueueForceDefer s i).2 := by
  have hne : s.sender i ≠ .idle := by
    rw [hold]
    exact CmdSender.ne_idle_of_outside rfl
  have hrefuse : CmdSafe (s.setSender i (.freeing false)) :=
    hs.move (hs.senderAt hold).1 hne rfl (fun h => by cases h)
  constructor
  · rw [cmdMgrQueue]
    split
    · exact hrefuse
    · have happend := hs.append hold (s.busy || (s.cmdArray i).a2eMsg.id.deferPush)
        (fun h => by simp [hs.busy_eq, h]) rfl
      dsimp only
      cases hd : s.busy || (s.cmdArray i).a2eMsg.id.deferPush with
      | true =>
        rw [hd] at happend
        exact happend (s.queueTests + 1) s.wakes
      | false =>
        rw [hd] at happend
        exact happend s.queueTests s.wakes
  · rw [cmdMgrQueueForceDefer]
    split
    · exact hrefuse
    · exact hs.append hold true (fun _ => rfl) rfl s.queueTests (s.wakes + 1)

/-- Every step of a sender keeps the invariant. -/
theorem CmdSafe.senderStep {sent : Bool} (hs : CmdSafe s)
    (h : cmdSenderStep s i sent = some (o, t)) : CmdSafe t := by
  rw [cmdSenderStep] at h
  cases hold : s.sender i with
  | idle => simp [hold] at h
  | emptying reqcfm =>
    -- the list is empty, or the manager has crashed
    obtain ⟨hout, hreq⟩ := hs.senderAt hold
    have hne : s.sender i ≠ .idle := by
      rw [hold]
      exact CmdSender.ne_idle_of_outside rfl
    simp only [hold] at h
    split at h
    · cases h
      cases reqcfm with
      | false => exact hs.move hout hne rfl (fun h => by cases h)
      | true => exact hs.move hout hne rfl hreq
    · cases h
  | queueing defer =>
    simp only [hold, Option.some.injEq] at h
    cases defer with
    | false =>
      obtain rfl : (cmdMgrQueue s i).2 = t := (Prod.ext_iff.mp h).2
      exact (hs.queue hold).1
    | true =>
      obtain rfl : (cmdMgrQueueForceDefer s i).2 = t := (Prod.ext_iff.mp h).2
      exact (hs.queue hold).2
  | sending reqcfm =>
    cases reqcfm with
    | false =>
      -- the request without a confirmation goes past the list
      have hne : s.sender i ≠ .idle := by
        rw [hold]
        exact CmdSender.ne_idle_of_outside rfl
      simp only [hold] at h
      cases h
      exact hs.move (hs.senderAt hold) hne rfl (fun h => by cases h)
    | true =>
      simp only [hold, (hs.plain i).1] at h
      cases h
      exact hs.sent hold sent
  | waiting =>
    simp only [hold] at h
    split at h
    · next hc =>
      cases h
      exact hs.woken hold hc
    · cases h
  -- no wait has timed out so far
  | timedOut => exact absurd hold (hs.timely.1 i)
  | freeing test =>
    simp only [hold] at h
    cases h
    have := hs.freed hold
    cases test with
    | false => exact this
    | true => exact this.frame s.state s.crashed s.cmdWork s.queueTests s.wakes (s.listTests + 1)

/-- Every step of the work keeps it. -/
theorem CmdSafe.taskProcess {sent : Bool} (hs : CmdSafe s)
    (h : cmdMgrTaskProcess s sent = some (o, t)) : CmdSafe t := by
  rw [cmdMgrTaskProcess] at h
  cases hold : s.worker with
  | idle =>
    simp only [hold] at h
    split at h
    · cases h
      exact (hs.workIdle (w := .looking) (by rw [hold]; rfl) rfl).frame s.state s.crashed false
        s.queueTests s.wakes s.listTests
    · cases h
  | looking =>
    simp only [hold] at h
    split at h
    · cases h
      exact hs.workIdle (by rw [hold]; rfl) rfl
    · -- the first command is deferred, or somebody else sends it
      next i rest hl =>
      cases h
      split
      · next hpush => exact hs.workFound (by rw [hold]; rfl) (by rw [hl]; rfl) hpush
      · exact hs.workIdle (by rw [hold]; rfl) rfl
  | pushing i =>
    simp only [hold] at h
    cases h
    exact hs.workPush hold
  | sending i =>
    simp only [hold] at h
    cases h
    exact hs.workSent hold sent
  | waiting i =>
    simp only [hold] at h
    split at h
    · next hc =>
      cases h
      exact hs.workWoken hold hc
    · cases h
  -- no wait has timed out so far
  | timedOut i => exact absurd hold (hs.timely.2 i)
  | freeing i =>
    simp only [hold] at h
    cases h
    exact hs.workFreed hold

/-- Other messages of the firmware find no command. -/
theorem msgind_none {id : ℕ} {cb : Bool}
    (h : cb = false ∨ ∀ i ∈ s.cmds, (s.cmdArray i).reqid ≠ id) :
    cmdMgrMsgind s id cb = ([], s) := by
  have hnone : (s.cmds.find? fun i =>
      (s.cmdArray i).reqid == id && (s.cmdArray i).flags.waitCfm && cb) = none := by
    refine List.find?_eq_none.mpr fun i hi => ?_
    rcases h with rfl | h
    · simp
    · simp [h i hi]
  rw [cmdMgrMsgind, hnone]

/-- The confirmation of a request completes the command that was sent. -/
theorem CmdSafe.confirm {n : ℕ} (hs : CmdSafe s) (h : firmwareConfirm s n = some (o, t)) :
    ∃ i rest, s.cmds = i :: rest ∧ s.Pushed i ∧ s.Awaited i ∧
      t = { cmdComplete (s.setCmd i fun c =>
        { c with flags := { c.flags with waitCfm := false } }) i with firmware := [] } ∧
      o = .answer (s.cmdArray i).a2eMsg ::
        ((if (s.cmdArray i).e2aMsg then
          [CmdAct.memcpy (s.cmdArray i).a2eMsg (s.sender i).live] else []) ++
        [.complete (s.cmdArray i).a2eMsg]) := by
  obtain ⟨r, hr, heq⟩ := Option.map_eq_some_iff.mp h
  obtain ⟨i, rest, hl, hpushed, hawaited, rfl, herase⟩ := hs.request hr
  rw [herase] at heq
  have hs' : CmdSafe { s with firmware := [] } :=
    ⟨⟨hs.nodup, hs.size, hs.behind⟩, ⟨fun r hr => absurd hr List.not_mem_nil, Nat.zero_le 1⟩,
      fun j => CmdMgr.Same.cmdOk (s := s) ⟨rfl, rfl, Iff.rfl, id, .inl rfl⟩ (hs.cmd j)⟩
  obtain ⟨o', hmsg, ho⟩ := hs'.msgind_head hl hpushed
  simp only [hmsg] at heq
  obtain ⟨rfl, rfl⟩ := Prod.mk.inj heq
  exact ⟨i, rest, hl, hpushed, hawaited, rfl, by rw [ho]⟩

/-- **The invariant is kept** by every step of the senders, the work, the firmware and the bus. -/
theorem CmdSafe.step (hs : CmdSafe s) (hop : op.orderly s)
    (h : (cmdMachine β).step s op = some (o, t)) : CmdSafe t := by
  cases op with
  | send msg reqid reqcfm cfm =>
    refine hs.begin ?_ (fun hreq => ?_) h
    · cases cfm <;> cases reqcfm <;> rfl
    · cases cfm <;> cases reqcfm <;> first | rfl | cases hreq
  | send1 msg reqid reqcfm cfm defer =>
    refine hs.begin ?_ (fun hreq => ?_) h
    · cases reqcfm <;> rfl
    · cases reqcfm <;> first | rfl | cases hreq
  | sender i sent => exact hs.senderStep h
  -- the guard excludes waits that are given up
  | timeout i => cases hop
  | kill i => cases hop
  | queueTest =>
    simp only [cmdMachine, cmdQueueTest] at h
    split at h
    · cases h
    · cases h
      exact hs.frame s.state s.crashed _ _ s.wakes s.listTests
  | wake =>
    simp only [cmdMachine, cmdWake] at h
    split at h
    · cases h
    · cases h
      exact hs.frame s.state s.crashed _ s.queueTests _ s.listTests
  | listTest =>
    simp only [cmdMachine, cmdListTest] at h
    split at h
    · cases h
    · cases h
      exact hs.frame s.state s.crashed _ s.queueTests s.wakes _
  | work sent => exact hs.taskProcess h
  | workTimeout => cases hop
  | confirm n =>
    obtain ⟨i, rest, hl, hpushed, hawaited, rfl, -⟩ := hs.confirm h
    exact hs.confirmed hl hpushed hawaited
  | indicate id cb =>
    have hnone : cb = false ∨ ∀ i ∈ s.cmds, (s.cmdArray i).reqid ≠ id := by
      simpa [CmdOp.orderly] using hop
    cases (msgind_none hnone).symm.trans (Option.some.inj h)
    exact hs
  | usb state =>
    cases h
    exact hs.frame state s.crashed s.cmdWork s.queueTests s.wakes s.listTests

theorem cmdSafe_init [Inhabited β] : CmdSafe (CmdMgr.init : CmdMgr β) where
  nodup := List.nodup_nil
  size := rfl
  behind := fun i hi => by cases hi
  firmware := fun r hr => by cases hr
  single := Nat.zero_le 1
  cmd := fun i => .of rfl rfl ⟨rfl, rfl⟩ (fun hi => by cases hi) (fun _ => ⟨rfl, rfl⟩) trivial
    (fun hw => by cases hw) (fun hu => by cases hu) fun hp => by cases hp.1

end LonganPi.Wifi
