import LonganPi.Ve.TaskQueue

/-!
# The order of the task queue

Between the steps the head of `run_task_list` is held by one of two flags and nothing behind it is,
the rest is sorted by priority and arrival, every task that was inserted is in the list or finished,
and what a task has been told agrees with what has happened to it (`Engine.Ok`). Each of the three
steps keeps this; what a step does besides is said by `QueueStep`, for an insert by `Inserted`. Both
hold along every run, and the tasks that are accounted for are counted on the run itself, so that no
insert can lose one (`task_queue`).
-/

open DriverLib

namespace LonganPi.Ve

/-- The tasks that have been told that they are removed. -/
def Engine.finished (s : Engine) : List ℕ :=
  (s.signals.filter fun g => g.siErrno ≠ .TASK_INIT).map CedarSignal.seq

/-- How often a task has been told that it runs. -/
def Engine.starts (s : Engine) (n : ℕ) : ℕ :=
  s.signals.countP fun g => g.siErrno = .TASK_INIT ∧ g.seq = n

/-- What holds of the queue between the steps. -/
structure Engine.Ok (s : Engine) : Prop where
  -- the head is held by a flag, and nothing else is
  held : ∀ h ∈ s.runTaskList.head?, h.isFirstTask = true ∨ h.running = true
  rest : ∀ e ∈ s.runTaskList.tail, e.isFirstTask = false ∧ e.running = false
  sorted : s.runTaskList.tail.Pairwise (Precedes (fun e => e.t.taskPrio) EngineTask.seq)
  -- every task that was inserted is in the list or finished, and that once
  accounted : (s.runTaskList.map EngineTask.seq ++ s.finished).Perm (List.range s.inserted)
  status : ∀ e ∈ s.runTaskList, e.status = .TASK_RELEASE ∧ e.seq ∈ s.released ∨
    e.status = .TASK_INIT ∧ e.seq ∉ s.released
  reason : ∀ g ∈ s.signals, (g.siErrno = .TASK_RELEASE → g.seq ∈ s.released) ∧
    (g.siErrno = .TASK_TIMEOUT → g.seq ∉ s.released)
  started : ∀ e ∈ s.runTaskList, s.starts e.seq = if e.running then 1 else 0
  started_le : ∀ n, s.starts n ≤ 1 ∧ (s.inserted ≤ n → s.starts n = 0)
  moved : s.delTaskList = []
  armed : s.runTaskList ≠ [] → s.timer = true
  released_lt : ∀ n ∈ s.released, n < s.inserted

/-- The task with the number `n` is released. -/
def release (n : ℕ) (e : EngineTask) : EngineTask :=
  if e.seq = n then { e with status := .TASK_RELEASE } else e

/-- What an insert does: the list is the old one with the new task at its place, behind the head,
behind every task of its priority and before every one of a lower one. -/
structure Inserted (s : Engine) (t : CedarvTask) (taskHandle : ℕ) (s' : Engine) : Prop where
  place : ∃ l r new, s.runTaskList = l ++ r ∧ s'.runTaskList = l ++ new :: r ∧
    new = { newTask t taskHandle s.inserted with isFirstTask := s.runTaskList.isEmpty } ∧
    -- the head is never displaced
    (l = [] → r = []) ∧
    (∀ e ∈ l.tail, t.taskPrio ≤ e.t.taskPrio) ∧ ∀ e ∈ r, e.t.taskPrio < t.taskPrio
  head : ∀ h ∈ s.runTaskList.head?, s'.runTaskList.head? = some h
  kept : s'.signals = s.signals ∧ s'.released = s.released
  armed : s'.timer = true

/-- What a step does: an insert adds one task, a release marks no more than one, and the handler
removes what is released or has timed out, says why, and leaves a head that runs. -/
def QueueStep (s : Engine) (op : QueueOp) (out : ℤ) (s' : Engine) : Prop :=
  match op with
  | .insert t taskHandle => Inserted s t taskHandle s'
  | .del taskId =>
    out = -1 ∧ s' = s ∧ (∀ e ∈ s.runTaskList, e.t.id = taskId → e.status = .TASK_RELEASE) ∨
    out = 0 ∧ s'.timer = true ∧ s'.signals = s.signals ∧
      ∃ e ∈ s.runTaskList, e.t.id = taskId ∧ e.status ≠ .TASK_RELEASE ∧
        s'.released = e.seq :: s.released ∧ s'.runTaskList = s.runTaskList.map (release e.seq)
  | .events jiffies =>
    s'.released = s.released ∧ s.signals <+: s'.signals ∧
    (∀ h ∈ s'.runTaskList.head?, h.running = true ∧ s'.starts h.seq = 1) ∧
    ∀ i e, s.runTaskList[i]? = some e →
      if e.status = .TASK_RELEASE then
        ⟨e.taskHandle, e.t.id, .TASK_RELEASE, e.seq⟩ ∈ s'.signals
      else if timeAfter (jiffies i) e.t.timeout then
        ⟨e.taskHandle, e.t.id, .TASK_TIMEOUT, e.seq⟩ ∈ s'.signals
      else e.seq ∈ s'.runTaskList.map EngineTask.seq

section

variable {s : Engine}

/-- No task is in the list twice. -/
theorem Engine.Ok.nodup (h : s.Ok) : (s.runTaskList.map EngineTask.seq).Nodup :=
  (List.nodup_append.mp (h.accounted.nodup_iff.mpr List.nodup_range)).1

/-- The numbers in the list are those of tasks that were inserted. -/
theorem Engine.Ok.seq_lt (h : s.Ok) {e : EngineTask} (he : e ∈ s.runTaskList) :
    e.seq < s.inserted := by
  have hmem : e.seq ∈ List.range s.inserted :=
    h.accounted.mem_iff.mp (List.mem_append_left _ (List.mem_map_of_mem he))
  exact List.mem_range.mp hmem

/-- What is on `del_task_list` after the loop has a reason to be there. -/
theorem Engine.Ok.swept (h : s.Ok) {jiffies : ℕ → BitVec 64} {x : EngineTask}
    (hx : x ∈ (sweep jiffies s.runTaskList []).2) :
    x.status = .TASK_RELEASE ∧ x.seq ∈ s.released ∨
      x.status = .TASK_TIMEOUT ∧ x.seq ∉ s.released := by
  rcases of_mem_sweep hx with hnil | ⟨e, he, rfl⟩
  · simp at hnil
  · unfold timedOut
    -- a task that was released is not marked as timed out
    rcases h.status e he with ⟨hs, hrel⟩ | ⟨hs, hrel⟩
    · rw [hs]
      exact Or.inl ⟨hs, hrel⟩
    · rw [hs]
      exact Or.inr ⟨rfl, hrel⟩

/-- So the handler never sends an end without a reason. -/
theorem Engine.Ok.swept_ne (h : s.Ok) {jiffies : ℕ → BitVec 64} {x : EngineTask}
    (hx : x ∈ (sweep jiffies s.runTaskList []).2) : x.status ≠ .TASK_INIT := by
  rcases h.swept hx with ⟨hs, -⟩ | ⟨hs, -⟩
  · exact fun hinit => absurd (hs.symm.trans hinit) (by decide)
  · exact fun hinit => absurd (hs.symm.trans hinit) (by decide)

/-- The list after the handler. Nothing is left on `del_task_list` from before. -/
theorem Engine.Ok.runTaskList_forEvents (h : s.Ok) (jiffies : ℕ → BitVec 64) :
    (s.forEvents jiffies).runTaskList = (startHead (sweep jiffies s.runTaskList []).1).1 := by
  unfold Engine.forEvents
  rw [h.moved]

/-- The signals of the handler. -/
theorem Engine.Ok.signals_forEvents (h : s.Ok) (jiffies : ℕ → BitVec 64) :
    (s.forEvents jiffies).signals = s.signals ++
      ((sweep jiffies s.runTaskList []).2.map fun e =>
        ⟨e.taskHandle, e.t.id, e.status, e.seq⟩) ++
      (startHead (sweep jiffies s.runTaskList []).1).2 := by
  unfold Engine.forEvents
  rw [h.moved, ← filterMap_lastSignal fun x hx => h.swept_ne hx]

/-- Exactly the tasks that are removed are finished by a call. -/
theorem Engine.Ok.finished_forEvents (h : s.Ok) (jiffies : ℕ → BitVec 64) :
    (s.forEvents jiffies).finished
      = s.finished ++ (sweep jiffies s.runTaskList []).2.map EngineTask.seq := by
  -- the signals of the tasks that are removed say an end
  have hlast : ((sweep jiffies s.runTaskList []).2.map fun e =>
      (⟨e.taskHandle, e.t.id, e.status, e.seq⟩ : CedarSignal)).filter
        (fun g => g.siErrno ≠ .TASK_INIT) =
      (sweep jiffies s.runTaskList []).2.map fun e =>
        ⟨e.taskHandle, e.t.id, e.status, e.seq⟩ := by
    refine List.filter_eq_self.mpr fun g hg => ?_
    obtain ⟨x, hx, rfl⟩ := List.mem_map.mp hg
    simp [h.swept_ne hx]
  -- the signal of the head does not
  have hstart : (startHead (sweep jiffies s.runTaskList []).1).2.filter
      (fun g => g.siErrno ≠ .TASK_INIT) = [] :=
    List.filter_eq_nil_iff.mpr fun g hg => by simp [siErrno_of_mem_startHead hg]
  unfold Engine.finished
  rw [h.signals_forEvents, List.filter_append, List.filter_append, hlast, hstart,
    List.append_nil, List.map_append, List.map_map]
  rfl

/-- The handler tells at most the head that it runs. -/
theorem Engine.Ok.starts_forEvents (h : s.Ok) (jiffies : ℕ → BitVec 64) (n : ℕ) :
    (s.forEvents jiffies).starts n = s.starts n +
      (startHead (sweep jiffies s.runTaskList []).1).2.countP
        fun g => g.siErrno = .TASK_INIT ∧ g.seq = n := by
  -- the signals of the tasks that are removed say no start
  have hlast : ((sweep jiffies s.runTaskList []).2.map fun e =>
      (⟨e.taskHandle, e.t.id, e.status, e.seq⟩ : CedarSignal)).countP
        (fun g => g.siErrno = .TASK_INIT ∧ g.seq = n) = 0 := by
    refine List.countP_eq_zero.mpr fun g hg => ?_
    obtain ⟨x, hx, rfl⟩ := List.mem_map.mp hg
    simp [h.swept_ne hx]
  unfold Engine.starts
  rw [h.signals_forEvents, List.countP_append, List.countP_append, hlast, Nat.add_zero]

/-- What is left after the handler is told once that it runs when it is the head, and otherwise
not at all. -/
theorem Engine.Ok.started_forEvents (h : s.Ok) (jiffies : ℕ → BitVec 64) :
    ∀ e ∈ (s.forEvents jiffies).runTaskList,
      (s.forEvents jiffies).starts e.seq = if e.running then 1 else 0 := by
  have hsub := sweep_sublist jiffies s.runTaskList []
  have hnodup : ((sweep jiffies s.runTaskList []).1.map EngineTask.seq).Nodup :=
    h.nodup.sublist (hsub.map EngineTask.seq)
  have hrun := h.runTaskList_forEvents jiffies
  rw [hrun]
  intro e he
  rw [h.starts_forEvents]
  cases hr : (sweep jiffies s.runTaskList []).1 with
  | nil =>
    -- nothing is left
    rw [hr] at he
    simp [startHead] at he
  | cons a l =>
    rw [hr] at he hsub hnodup
    have hold : ∀ x ∈ a :: l, s.starts x.seq = if x.running then 1 else 0 := fun x hx =>
      h.started x (hsub.subset hx)
    rw [countP_startHead]
    rw [startHead_cons] at he
    rcases List.mem_cons.mp he with rfl | he
    · -- the head runs now, and was told so once, now or before
      dsimp only
      rw [hold a List.mem_cons_self]
      cases a.running <;> simp
    · -- the rest does not run, and has other numbers
      have hne : a.seq ≠ e.seq := by
        intro heq
        rw [List.map_cons, List.nodup_cons] at hnodup
        exact hnodup.1 (heq ▸ List.mem_map_of_mem he)
      have hzero : (if a.running = false ∧ a.seq = e.seq then 1 else 0) = 0 :=
        if_neg fun hc => hne hc.2
      rw [hold e (List.mem_cons_of_mem a he), hzero, Nat.add_zero]

/-- What is removed is finished, and nothing else changes sides. -/
theorem Engine.Ok.accounted_forEvents (h : s.Ok) (jiffies : ℕ → BitVec 64) :
    ((s.forEvents jiffies).runTaskList.map EngineTask.seq ++
      (s.forEvents jiffies).finished).Perm (List.range s.inserted) := by
  rw [h.runTaskList_forEvents, startHead_seq, h.finished_forEvents]
  refine List.Perm.trans ?_ h.accounted
  -- a task stays in the list or is removed
  have hperm : ((sweep jiffies s.runTaskList []).1.map EngineTask.seq ++
      (sweep jiffies s.runTaskList []).2.map EngineTask.seq).Perm
      (s.runTaskList.map EngineTask.seq) := by
    simpa using sweep_perm jiffies s.runTaskList []
  refine (List.Perm.append_left _ List.perm_append_comm).trans ?_
  rw [← List.append_assoc]
  exact hperm.append_right _

/-- What is sent about an end has its reason. -/
theorem Engine.Ok.reason_forEvents (h : s.Ok) (jiffies : ℕ → BitVec 64) {g : CedarSignal}
    (hg : g ∈ (s.forEvents jiffies).signals) :
    (g.siErrno = .TASK_RELEASE → g.seq ∈ s.released) ∧
      (g.siErrno = .TASK_TIMEOUT → g.seq ∉ s.released) := by
  rw [h.signals_forEvents] at hg
  rcases List.mem_append.mp hg with hg | hg
  · rcases List.mem_append.mp hg with hg | hg
    · -- a signal from before
      exact h.reason g hg
    · -- a task that is removed now
      obtain ⟨x, hx, rfl⟩ := List.mem_map.mp hg
      dsimp only
      rcases h.swept hx with ⟨hs, hrel⟩ | ⟨hs, hrel⟩
      · exact ⟨fun _ => hrel, fun ht => absurd (hs.symm.trans ht) (by decide)⟩
      · exact ⟨fun ht => absurd (hs.symm.trans ht) (by decide), fun _ => hrel⟩
  · -- the head that starts
    have hinit := siErrno_of_mem_startHead hg
    exact ⟨fun ht => absurd (hinit.symm.trans ht) (by decide),
      fun ht => absurd (hinit.symm.trans ht) (by decide)⟩

/-- A task is started once, and not before it is inserted. -/
theorem Engine.Ok.started_le_forEvents (h : s.Ok) (jiffies : ℕ → BitVec 64) (n : ℕ) :
    (s.forEvents jiffies).starts n ≤ 1 ∧
      (s.inserted ≤ n → (s.forEvents jiffies).starts n = 0) := by
  rw [h.starts_forEvents]
  obtain ⟨hle, hlate⟩ := h.started_le n
  cases hr : (sweep jiffies s.runTaskList []).1 with
  | nil => exact ⟨hle, hlate⟩
  | cons a l =>
    have ha : a ∈ s.runTaskList :=
      (sweep_sublist jiffies s.runTaskList []).subset (hr ▸ List.mem_cons_self)
    rw [countP_startHead]
    split
    · -- the head did not run before, so this is its first start
      rename_i hc
      obtain ⟨hrunning, rfl⟩ := hc
      have hzero : s.starts a.seq = 0 := by rw [h.started a ha, hrunning]; rfl
      rw [hzero]
      exact ⟨le_rfl, fun hn => absurd (h.seq_lt ha) hn.not_gt⟩
    · exact ⟨hle, hlate⟩

/-- **The handler keeps the queue in order.** -/
theorem Engine.Ok.forEvents (h : s.Ok) (jiffies : ℕ → BitVec 64) : (s.forEvents jiffies).Ok := by
  have hsub := sweep_sublist jiffies s.runTaskList []
  have hrun := h.runTaskList_forEvents jiffies
  refine
    { held := fun x hx => Or.inr ?_
      rest := fun x hx => ?_
      sorted := ?_
      accounted := h.accounted_forEvents jiffies
      status := fun x hx => ?_
      reason := fun g hg => h.reason_forEvents jiffies hg
      started := h.started_forEvents jiffies
      started_le := h.started_le_forEvents jiffies
      moved := rfl
      armed := fun hne => ?_
      released_lt := h.released_lt }
  · -- the head runs
    rw [hrun] at hx
    exact running_of_head_startHead hx
  · -- the rest is part of the rest before
    rw [hrun, startHead_tail] at hx
    exact h.rest x (hsub.tail.subset hx)
  · -- and in the order it was in
    rw [hrun, startHead_tail]
    exact h.sorted.sublist hsub.tail
  · rw [hrun] at hx
    obtain ⟨e, he, hseq, hstatus⟩ := mem_startHead hx
    rw [hseq, hstatus]
    exact h.status e (hsub.subset he)
  · -- the timer is started again unless the list is empty
    have htimer : (s.forEvents jiffies).timer = !(s.forEvents jiffies).runTaskList.isEmpty := rfl
    rw [htimer, Bool.not_eq_true', List.isEmpty_eq_false_iff]
    exact hne

/-- What the handler does to an entry, and what it leaves at the head. -/
theorem Engine.Ok.step_forEvents (h : s.Ok) (jiffies : ℕ → BitVec 64) (out : ℤ) :
    QueueStep s (.events jiffies) out (s.forEvents jiffies) := by
  have hok := h.forEvents jiffies
  have hrun := h.runTaskList_forEvents jiffies
  -- each task that is removed is told why
  have hsent : ∀ x ∈ (sweep jiffies s.runTaskList []).2,
      ⟨x.taskHandle, x.t.id, x.status, x.seq⟩ ∈ (s.forEvents jiffies).signals := by
    intro x hx
    rw [h.signals_forEvents]
    exact List.mem_append_left _ (List.mem_append_right _ (List.mem_map.mpr ⟨x, hx, rfl⟩))
  refine ⟨rfl, ?_, fun x hx => ?_, fun i e he => ?_⟩
  · rw [h.signals_forEvents, List.append_assoc]
    exact List.prefix_append _ _
  · -- the head runs, and has been told so once
    have hrunning : x.running = true := by
      rw [hrun] at hx
      exact running_of_head_startHead hx
    refine ⟨hrunning, ?_⟩
    rw [hok.started x (List.mem_of_mem_head? hx), hrunning]
    rfl
  · obtain ⟨hleave, hstay⟩ := sweep_getElem jiffies [] he
    split
    · -- the task was released
      rename_i hs
      have hx := hsent _ (hleave (Or.inl hs))
      have hto : timedOut e = e := if_neg (by rw [hs]; decide)
      rwa [hto, hs] at hx
    · rename_i hs
      have hinit : e.status = .TASK_INIT := by
        rcases h.status e (List.mem_of_getElem? he) with ⟨hrel, -⟩ | ⟨hinit, -⟩
        · exact absurd hrel hs
        · exact hinit
      split
      · -- it has timed out
        rename_i htime
        have hx := hsent _ (hleave (Or.inr htime))
        have hto : timedOut e = { e with status := .TASK_TIMEOUT } := if_pos hinit
        rwa [hto] at hx
      · -- it has time left, and stays
        rename_i htime
        rw [hrun, startHead_seq]
        exact List.mem_map_of_mem (hstay fun hl => hl.elim hs htime)

/-! ### The insert -/

/-- The scan passes the head, which one of the flags holds. -/
theorem Engine.Ok.orderedInsert_cases (h : s.Ok) (new : EngineTask) :
    s.runTaskList = [] ∧ s.runTaskList.orderedInsert StopsAt new = [new] ∨
      ∃ a l, s.runTaskList = a :: l ∧
        s.runTaskList.orderedInsert StopsAt new = a :: l.orderedInsert StopsAt new := by
  cases hl : s.runTaskList with
  | nil => exact Or.inl ⟨rfl, rfl⟩
  | cons a l =>
    -- the scan does not stop at a task that is held
    have hpass : ¬ StopsAt new a := by
      rintro ⟨hf, hr, -⟩
      rcases h.held a (by rw [hl]; rfl) with hheld | hheld
      · exact absurd (hheld.symm.trans hf) (by decide)
      · exact absurd (hheld.symm.trans hr) (by decide)
    exact Or.inr ⟨a, l, rfl, by rw [List.orderedInsert_cons, if_neg hpass]⟩

/-- Behind the head the task goes to its place in the order. -/
theorem Engine.Ok.sorted_add (h : s.Ok) {new : EngineTask} (hseq : new.seq = s.inserted)
    {a : EngineTask} {l : List EngineTask} (hl : s.runTaskList = a :: l) :
    (l.orderedInsert StopsAt new).Pairwise (Precedes (fun e => e.t.taskPrio) EngineTask.seq) := by
  have hsorted := h.sorted
  have hrest := h.rest
  rw [hl] at hsorted hrest
  -- the new task is the last to arrive, and the scan stops behind its equals
  refine pairwise_orderedInsert hsorted (fun e he => ?_) fun e he => ?_
  · rw [hseq]
    exact h.seq_lt (by rw [hl]; exact List.mem_cons_of_mem a he)
  · obtain ⟨hf, hr⟩ := hrest e he
    exact ⟨fun hstop => hstop.2.2, fun hlt => ⟨hf, hr, hlt⟩⟩

/-- One task more is in the list, with the next number. -/
theorem Engine.Ok.accounted_add (h : s.Ok) {new : EngineTask} (hseq : new.seq = s.inserted) :
    ((s.runTaskList.orderedInsert StopsAt new).map EngineTask.seq ++ s.finished).Perm
      (List.range (s.inserted + 1)) := by
  have hperm := (List.perm_orderedInsert StopsAt new s.runTaskList).map EngineTask.seq
  refine (hperm.append_right _).trans ?_
  rw [List.map_cons, hseq, List.cons_append, List.range_succ]
  exact (h.accounted.cons _).trans (List.perm_append_singleton _ _).symm

/-- The task goes to its place. -/
theorem Engine.Ok.place_add (h : s.Ok) (new : EngineTask) :
    ∃ l r, s.runTaskList = l ++ r ∧ s.runTaskList.orderedInsert StopsAt new = l ++ new :: r ∧
      (l = [] → r = []) ∧
      (∀ e ∈ l.tail, new.t.taskPrio ≤ e.t.taskPrio) ∧ ∀ e ∈ r, e.t.taskPrio < new.t.taskPrio := by
  rcases h.orderedInsert_cases new with ⟨hempty, hl⟩ | ⟨a, l, hl, hl'⟩
  · exact ⟨[], [], hempty, hl, fun _ => rfl, nofun, nofun⟩
  have hsorted := h.sorted
  have hrest := h.rest
  rw [hl, List.tail_cons] at hsorted hrest
  -- behind the head the scan stops for the priority alone
  have hstops : ∀ e ∈ l, StopsAt new e ↔ e.t.taskPrio < new.t.taskPrio := fun e he =>
    ⟨fun hstop => hstop.2.2, fun hlt => ⟨(hrest e he).1, (hrest e he).2, hlt⟩⟩
  obtain ⟨l₁, l₂, hsplit, hins, hbefore, hafter⟩ := exists_orderedInsert hsorted hstops
  refine ⟨a :: l₁, l₂, ?_, ?_, fun hnil => absurd hnil (List.cons_ne_nil a l₁), hbefore, hafter⟩
  · rw [hl, hsplit, List.cons_append]
  · rw [hl', hins, List.cons_append]

/-- **A task that comes last goes behind the head and keeps the queue in order.** -/
theorem Engine.Ok.add (h : s.Ok) {new : EngineTask} (hseq : new.seq = s.inserted)
    (hstatus : new.status = .TASK_INIT) (hrunning : new.running = false)
    (hfirst : new.isFirstTask = s.runTaskList.isEmpty) :
    Engine.Ok { s with
      runTaskList := s.runTaskList.orderedInsert StopsAt new
      timer := true
      inserted := s.inserted + 1 } := by
  have hmem : ∀ x, x ∈ s.runTaskList.orderedInsert StopsAt new ↔ x = new ∨ x ∈ s.runTaskList :=
    fun x => List.mem_orderedInsert StopsAt
  have hlist := h.orderedInsert_cases new
  refine
    { held := fun x hx => ?_
      rest := fun x hx => ?_
      sorted := ?_
      accounted := h.accounted_add hseq
      status := fun x hx => ?_
      reason := h.reason
      started := fun x hx => ?_
      started_le := fun n => ⟨(h.started_le n).1, fun hn => (h.started_le n).2 (Nat.le_of_lt hn)⟩
      moved := h.moved
      armed := fun _ => rfl
      released_lt := fun n hn => Nat.lt_succ_of_lt (h.released_lt n hn) }
  · -- the head: the new task, which is the first, or the old head
    rcases hlist with ⟨hempty, hl⟩ | ⟨a, l, hl, hl'⟩
    · rw [hl] at hx
      obtain rfl := Option.some.inj hx
      exact Or.inl (by rw [hfirst, hempty]; rfl)
    · rw [hl'] at hx
      exact h.held x (by rw [hl]; exact hx)
  · -- the rest holds no flag
    rcases hlist with ⟨-, hl⟩ | ⟨a, l, hl, hl'⟩
    · rw [hl] at hx
      simp at hx
    · rw [hl'] at hx
      rcases (List.mem_orderedInsert StopsAt).mp hx with rfl | hx
      · exact ⟨by rw [hfirst, hl]; rfl, hrunning⟩
      · exact h.rest x (by rw [hl]; exact hx)
  · -- and is sorted
    rcases hlist with ⟨-, hl⟩ | ⟨a, l, hl, hl'⟩
    · rw [hl]
      exact List.Pairwise.nil
    · rw [hl']
      exact h.sorted_add hseq hl
  · rcases (hmem x).mp hx with rfl | hx
    · -- its number is new, so it was never released
      refine Or.inr ⟨hstatus, fun hrel => ?_⟩
      have hlt := h.released_lt _ hrel
      rw [hseq] at hlt
      exact lt_irrefl _ hlt
    · exact h.status x hx
  · rcases (hmem x).mp hx with rfl | hx
    · -- nobody has been told yet that it runs
      rw [hrunning, hseq]
      exact (h.started_le s.inserted).2 le_rfl
    · exact h.started x hx

/-- The task of a call, marked when the list is empty. -/
theorem Engine.insertTask_eq (s : Engine) (t : CedarvTask) (taskHandle : ℕ) :
    s.insertTask (newTask t taskHandle s.inserted) = { s with
      runTaskList := s.runTaskList.orderedInsert StopsAt
        { newTask t taskHandle s.inserted with isFirstTask := s.runTaskList.isEmpty }
      timer := true
      inserted := s.inserted + 1 } := by
  unfold Engine.insertTask
  cases s.runTaskList.isEmpty <;> rfl

/-- **An insert adds one task and keeps the queue in order.** -/
theorem Engine.Ok.insertTask (h : s.Ok) (t : CedarvTask) (taskHandle : ℕ) :
    (s.insertTask (newTask t taskHandle s.inserted)).Ok ∧
      Inserted s t taskHandle (s.insertTask (newTask t taskHandle s.inserted)) := by
  rw [Engine.insertTask_eq]
  refine ⟨h.add rfl rfl rfl rfl, ?_, fun x hx => ?_, ⟨rfl, rfl⟩, rfl⟩
  · obtain ⟨l, r, hl, hl', hhead, hbefore, hafter⟩ := h.place_add
      { newTask t taskHandle s.inserted with isFirstTask := s.runTaskList.isEmpty }
    exact ⟨l, r, _, hl, hl', rfl, hhead, hbefore, hafter⟩
  · rcases h.orderedInsert_cases
      { newTask t taskHandle s.inserted with isFirstTask := s.runTaskList.isEmpty }
      with ⟨hempty, -⟩ | ⟨a, l, hl, hl'⟩
    · rw [hempty] at hx
      cases hx
    · dsimp only
      rw [hl']
      rwa [hl] at hx

/-! ### The release -/

section

variable {n : ℕ} {e : EngineTask}

/-- Only the status changes. -/
@[simp] theorem release_seq : (release n e).seq = e.seq := by
  unfold release
  split <;> rfl

@[simp] theorem release_t : (release n e).t = e.t := by
  unfold release
  split <;> rfl

@[simp] theorem release_running : (release n e).running = e.running := by
  unfold release
  split <;> rfl

@[simp] theorem release_isFirstTask : (release n e).isFirstTask = e.isFirstTask := by
  unfold release
  split <;> rfl

end

/-- The scan ends without an entry when all tasks with the id are released already. -/
theorem releaseFirst_none {taskId : ℤ} {l : List EngineTask} (h : releaseFirst taskId l = none) :
    ∀ e ∈ l, e.t.id = taskId → e.status = .TASK_RELEASE := by
  induction l with
  | nil => simp
  | cons a l ih =>
    unfold releaseFirst at h
    split at h
    · exact nomatch h
    · -- this entry is not the one, or is released already
      rename_i hc
      intro e he hid
      rcases List.mem_cons.mp he with rfl | he
      · exact not_not.mp fun hs => hc ⟨hid, hs⟩
      · exact ih (Option.map_eq_none_iff.mp h) e he hid

/-- The entry that is found is the one that is released. -/
theorem releaseFirst_some {taskId : ℤ} {l l' : List EngineTask} {n : ℕ}
    (hnodup : (l.map EngineTask.seq).Nodup) (h : releaseFirst taskId l = some (n, l')) :
    ∃ e ∈ l, e.t.id = taskId ∧ e.status ≠ .TASK_RELEASE ∧ n = e.seq ∧
      l' = l.map (release e.seq) := by
  induction l generalizing l' with
  | nil => exact nomatch h
  | cons a l ih =>
    rw [List.map_cons, List.nodup_cons] at hnodup
    unfold releaseFirst at h
    split at h
    · -- this entry is the one, and no other has its number
      rename_i hc
      obtain ⟨rfl, rfl⟩ := Prod.mk.inj (Option.some.inj h)
      refine ⟨a, List.mem_cons_self, hc.1, hc.2, rfl, ?_⟩
      have hrest : l.map (release a.seq) = l := by
        refine (List.map_congr_left fun x hx => ?_).trans (List.map_id l)
        have hne : x.seq ≠ a.seq := fun heq => hnodup.1 (heq ▸ List.mem_map_of_mem hx)
        exact if_neg hne
      rw [List.map_cons, hrest]
      simp [release]
    · -- it is one of the rest
      obtain ⟨⟨m, k⟩, hrec, heq⟩ := Option.map_eq_some_iff.mp h
      obtain ⟨rfl, rfl⟩ := Prod.mk.inj heq
      obtain ⟨e, he, hid, hs, rfl, rfl⟩ := ih hnodup.2 hrec
      refine ⟨e, List.mem_cons_of_mem a he, hid, hs, rfl, ?_⟩
      have hne : a.seq ≠ e.seq := fun heq => hnodup.1 (heq ▸ List.mem_map_of_mem he)
      rw [List.map_cons, release, if_neg hne]

/-- A task that is in the list is not finished. -/
theorem Engine.Ok.not_finished (h : s.Ok) {e : EngineTask} (he : e ∈ s.runTaskList) :
    e.seq ∉ s.finished := by
  have hnodup := h.accounted.nodup_iff.mpr List.nodup_range
  exact fun hf => (List.nodup_append.mp hnodup).2.2 _ (List.mem_map_of_mem he) _ hf rfl

/-- The task that is released is recorded, with every one before. -/
theorem Engine.Ok.status_release (h : s.Ok) (n : ℕ) {y : EngineTask} (hy : y ∈ s.runTaskList) :
    (release n y).status = .TASK_RELEASE ∧ y.seq ∈ n :: s.released ∨
      (release n y).status = .TASK_INIT ∧ y.seq ∉ n :: s.released := by
  -- the task is the one that is released, or stays as it was
  by_cases hyn : y.seq = n
  · rw [release, if_pos hyn, hyn]
    exact Or.inl ⟨rfl, List.mem_cons_self⟩
  · rw [release, if_neg hyn]
    rcases h.status y hy with ⟨hst, hrel⟩ | ⟨hst, hrel⟩
    · exact Or.inl ⟨hst, List.mem_cons_of_mem _ hrel⟩
    · exact Or.inr ⟨hst, List.not_mem_cons_of_ne_of_not_mem hyn hrel⟩

/-- A task that has timed out is not in the list any more, so it is not the one released. -/
theorem Engine.Ok.reason_release (h : s.Ok) {e : EngineTask} (he : e ∈ s.runTaskList)
    {g : CedarSignal} (hg : g ∈ s.signals) :
    (g.siErrno = .TASK_RELEASE → g.seq ∈ e.seq :: s.released) ∧
      (g.siErrno = .TASK_TIMEOUT → g.seq ∉ e.seq :: s.released) := by
  refine ⟨fun hr => List.mem_cons_of_mem _ ((h.reason g hg).1 hr), fun ht => ?_⟩
  have hfin : g.seq ∈ s.finished :=
    List.mem_map.mpr ⟨g, List.mem_filter.mpr ⟨hg, by simp [ht]⟩, rfl⟩
  have hne : g.seq ≠ e.seq := fun heq => h.not_finished he (heq ▸ hfin)
  exact List.not_mem_cons_of_ne_of_not_mem hne ((h.reason g hg).2 ht)

/-- **A release changes the status of one task.** -/
theorem Engine.Ok.delTask (h : s.Ok) (taskId : ℤ) :
    (s.delTask taskId).2.Ok ∧
      QueueStep s (.del taskId) (s.delTask taskId).1 (s.delTask taskId).2 := by
  unfold Engine.delTask
  cases hfind : releaseFirst taskId s.runTaskList with
  | none => exact ⟨h, Or.inl ⟨rfl, rfl, releaseFirst_none hfind⟩⟩
  | some r =>
    obtain ⟨n, l⟩ := r
    obtain ⟨e, he, hid, hs, rfl, rfl⟩ := releaseFirst_some h.nodup hfind
    refine ⟨
      { held := fun x hx => ?_
        rest := fun x hx => ?_
        sorted := ?_
        accounted := ?_
        status := fun x hx => ?_
        reason := fun g hg => h.reason_release he hg
        started := fun x hx => ?_
        started_le := h.started_le
        moved := h.moved
        armed := fun _ => rfl
        released_lt := fun m hm => ?_ }, Or.inr ⟨rfl, rfl, rfl, e, he, hid, hs, rfl, rfl⟩⟩
    · dsimp only at hx
      rw [List.head?_map, Option.mem_map] at hx
      obtain ⟨y, hy, rfl⟩ := hx
      rw [release_isFirstTask, release_running]
      exact h.held y hy
    · dsimp only at hx
      rw [← List.map_tail] at hx
      obtain ⟨y, hy, rfl⟩ := List.mem_map.mp hx
      rw [release_isFirstTask, release_running]
      exact h.rest y hy
    · dsimp only
      rw [← List.map_tail, List.pairwise_map]
      refine h.sorted.imp fun {a b} hab => ?_
      simpa only [Precedes, release_t, release_seq] using hab
    · -- no task comes or goes
      have hseq : (s.runTaskList.map (release e.seq)).map EngineTask.seq
          = s.runTaskList.map EngineTask.seq := by
        rw [List.map_map]
        exact List.map_congr_left fun x _ => release_seq
      dsimp only
      rw [hseq]
      exact h.accounted
    · obtain ⟨y, hy, rfl⟩ := List.mem_map.mp hx
      rw [release_seq]
      exact h.status_release e.seq hy
    · obtain ⟨y, hy, rfl⟩ := List.mem_map.mp hx
      rw [release_seq, release_running]
      exact h.started y hy
    · rcases List.mem_cons.mp hm with rfl | hm
      · exact h.seq_lt he
      · exact h.released_lt m hm

/-! ### Runs -/

/-- The queue is empty at the start. -/
theorem Engine.ok_init : Engine.init.Ok where
  held := nofun
  rest := nofun
  sorted := List.Pairwise.nil
  accounted := List.Perm.refl _
  status := nofun
  reason := nofun
  started := nofun
  started_le _ := ⟨Nat.zero_le 1, fun _ => rfl⟩
  moved := rfl
  armed h := absurd rfl h
  released_lt := nofun

/-- Each of the three steps keeps the queue in order and does what it should. -/
theorem Engine.Ok.step (h : s.Ok) {op : QueueOp} {out : ℤ} {s' : Engine}
    (hstep : engine.step s op = some (out, s')) : s'.Ok ∧ QueueStep s op out s' := by
  cases op with
  | insert t taskHandle =>
    obtain ⟨rfl, rfl⟩ := Prod.mk.inj (Option.some.inj hstep)
    exact h.insertTask t taskHandle
  | del taskId =>
    obtain rfl : s' = (s.delTask taskId).2 := by rw [Option.some.inj hstep]
    obtain rfl : out = (s.delTask taskId).1 := by rw [Option.some.inj hstep]
    exact h.delTask taskId
  | events jiffies =>
    obtain ⟨rfl, rfl⟩ := Prod.mk.inj (Option.some.inj hstep)
    exact ⟨h.forEvents jiffies, h.step_forEvents jiffies 0⟩

/-- Whether a call inserts a task. -/
def QueueOp.inserts : QueueOp → Bool
  | .insert _ _ => true
  | _ => false

/-- Every run goes through, and every call that inserts a task is counted. -/
theorem engine_exec (s : Engine) (ops : List QueueOp) :
    ∃ t, engine.exec s ops = some t ∧ t.inserted = s.inserted + ops.countP QueueOp.inserts := by
  induction ops generalizing s with
  | nil => exact ⟨s, rfl, rfl⟩
  | cons op ops ih =>
    -- each step is possible, and an insert counts one task
    obtain ⟨o, u, hstep, hcount⟩ : ∃ o u, engine.step s op = some (o, u) ∧
        u.inserted = s.inserted + (QueueOp.inserts op).toNat := by
      cases op with
      | insert t taskHandle => exact ⟨_, _, rfl, rfl⟩
      | del taskId =>
        refine ⟨(s.delTask taskId).1, (s.delTask taskId).2, rfl, ?_⟩
        unfold Engine.delTask
        split <;> rfl
      | events jiffies => exact ⟨_, _, rfl, rfl⟩
    obtain ⟨t, hrun, ht⟩ := ih u
    refine ⟨t, by rw [Machine.exec_cons, hstep, Option.bind_some, hrun], ?_⟩
    rw [ht, hcount, List.countP_cons]
    cases QueueOp.inserts op
    · rfl
    · exact Nat.add_right_comm ..

/-- **The task queue is in order in every state of every run, and every step does what it should.**
Every run goes through, and the tasks that are accounted for are those of its inserts. -/
theorem task_queue (ops : List QueueOp) :
    engine.Along QueueStep Engine.init ops ∧
      ∃ s, engine.exec Engine.init ops = some s ∧ s.Ok ∧
        s.inserted = ops.countP QueueOp.inserts := by
  refine ⟨Machine.along_inv (fun s op out s' h hstep => h.step hstep) Engine.ok_init ops, ?_⟩
  obtain ⟨s, hs, hcount⟩ := engine_exec Engine.init ops
  rw [show Engine.init.inserted = 0 from rfl, Nat.zero_add] at hcount
  exact ⟨s, hs, Machine.exec_inv (fun _ _ _ _ h hstep => (h.step hstep).1) Engine.ok_init hs,
    hcount⟩

end

end LonganPi.Ve
