import LonganPi.Lib.PriorityList
import LonganPi.Lib.Run
import Mathlib.Data.List.Range

/-!
# The task queue of the engine

With `USE_CEDAR_ENGINE` the tasks that want the engine wait in `run_task_list`. A request inserts
one by its priority, a release marks it, and the handler of `cedar_engine_timer` removes what is
marked or has timed out, sends a signal for each and starts the task at the head. All three hold the
spinlock, so they are the steps of a machine.

The scan of an insert passes the head by two flags: a task that comes to an empty list is marked as
the first one, and a task that comes to the head later is started by the handler that has removed
the one before. So the head is always marked or running and nothing behind it is, and from this
follow the order of the rest and what the tasks are told (`task_queue`).

`seq` is a ghost, the number of tasks inserted before; it tells tasks with one `ID` apart and says
who came first. So are the count of the inserts, the list of released tasks and the log of the
signals. The clock is read once for every entry, and may read anything.
-/

open DriverLib

namespace LonganPi.Ve

/-! ### Tasks -/

/-- `TASK_INIT`, `TASK_TIMEOUT` and `TASK_RELEASE`: the status of a task, and what it is told. -/
inductive TaskStatus
  | TASK_INIT
  | TASK_TIMEOUT
  | TASK_RELEASE
  deriving DecidableEq

/-- `struct __cedarv_task`. -/
structure CedarvTask where
  taskPrio : ℤ
  id : ℤ
  timeout : BitVec 64

/-- `struct cedarv_engine_task`. -/
structure EngineTask where
  t : CedarvTask
  taskHandle : ℕ
  status : TaskStatus
  running : Bool
  isFirstTask : Bool
  -- ghost
  seq : ℕ

/-- A `SIG_CEDAR`. -/
structure CedarSignal where
  taskHandle : ℕ
  siCode : ℤ
  siErrno : TaskStatus
  -- ghost
  seq : ℕ
  deriving DecidableEq

/-- The lists, the timer, and what has happened. -/
structure Engine where
  runTaskList : List EngineTask
  delTaskList : List EngineTask
  -- whether `cedar_engine_timer` is pending
  timer : Bool
  -- ghosts
  signals : List CedarSignal
  inserted : ℕ
  released : List ℕ

/-- After the probe. -/
def Engine.init : Engine := ⟨[], [], false, [], 0, []⟩

/-- The task of `IOCTL_ENGINE_REQ`. -/
def newTask (t : CedarvTask) (taskHandle seq : ℕ) : EngineTask :=
  { t := t, taskHandle := taskHandle, status := .TASK_INIT, running := false, isFirstTask := false,
    seq := seq }

/-! ### `cedardev_insert_task` -/

/-- The scan stops at an entry that is not held at the head and has a lower priority. -/
def StopsAt (new entry : EngineTask) : Prop :=
  entry.isFirstTask = false ∧ entry.running = false ∧ entry.t.taskPrio < new.t.taskPrio

instance : DecidableRel StopsAt := fun _ _ => inferInstanceAs (Decidable (_ ∧ _))

def Engine.insertTask (s : Engine) (new : EngineTask) : Engine :=
  let new := if s.runTaskList.isEmpty then { new with isFirstTask := true } else new
  { s with
    runTaskList := s.runTaskList.orderedInsert StopsAt new
    timer := true
    inserted := s.inserted + 1 }

/-! ### `cedardev_del_task` -/

/-- The first entry with the id that is not released is released; its number and the list. -/
def releaseFirst (taskId : ℤ) : List EngineTask → Option (ℕ × List EngineTask)
  | [] => none
  | e :: es =>
    if e.t.id = taskId ∧ e.status ≠ .TASK_RELEASE then
      some (e.seq, { e with status := .TASK_RELEASE } :: es)
    else (releaseFirst taskId es).map fun r => (r.1, e :: r.2)

def Engine.delTask (s : Engine) (taskId : ℤ) : ℤ × Engine :=
  match releaseFirst taskId s.runTaskList with
  | none => (-1, s)
  | some (n, l) => (0, { s with runTaskList := l, timer := true, released := n :: s.released })

/-! ### `cedar_engine_for_events` -/

/-- `time_after`. -/
def timeAfter (a b : BitVec 64) : Prop := (b - a).toInt < 0

instance (a b : BitVec 64) : Decidable (timeAfter a b) := inferInstanceAs (Decidable (_ < _))

/-- Whether the handler removes an entry. -/
def Leaves (jiffies : BitVec 64) (e : EngineTask) : Prop :=
  e.status = .TASK_RELEASE ∨ timeAfter jiffies e.t.timeout

instance (jiffies : BitVec 64) (e : EngineTask) : Decidable (Leaves jiffies e) :=
  inferInstanceAs (Decidable (_ ∨ _))

/-- A task that is not released has timed out. -/
def timedOut (e : EngineTask) : EngineTask :=
  if e.status = .TASK_INIT then { e with status := .TASK_TIMEOUT } else e

/-- The first loop: what stays, and `del_task_list`. The clock is read for each entry. -/
def sweep : (ℕ → BitVec 64) → List EngineTask → List EngineTask → List EngineTask × List EngineTask
  | _, [], del => ([], del)
  | jiffies, e :: es, del =>
    let later := fun i => jiffies (i + 1)
    if Leaves (jiffies 0) e then sweep later es (timedOut e :: del)
    else
      let r := sweep later es del
      (e :: r.1, r.2)

/-- What is sent to a task on `del_task_list`. -/
def lastSignal (e : EngineTask) : Option CedarSignal :=
  match e.status with
  | .TASK_TIMEOUT => some ⟨e.taskHandle, e.t.id, .TASK_TIMEOUT, e.seq⟩
  | .TASK_RELEASE => some ⟨e.taskHandle, e.t.id, .TASK_RELEASE, e.seq⟩
  | .TASK_INIT => none

/-- The head is started, unless it runs. -/
def startHead : List EngineTask → List EngineTask × List CedarSignal
  | [] => ([], [])
  | e :: es =>
    if e.running = false then
      ({ e with running := true } :: es, [⟨e.taskHandle, e.t.id, .TASK_INIT, e.seq⟩])
    else (e :: es, [])

def Engine.forEvents (s : Engine) (jiffies : ℕ → BitVec 64) : Engine :=
  let r := sweep jiffies s.runTaskList s.delTaskList
  let h := startHead r.1
  { s with
    runTaskList := h.1
    delTaskList := []
    timer := !h.1.isEmpty
    signals := s.signals ++ r.2.filterMap lastSignal ++ h.2 }

/-! ### The machine -/

/-- The steps. -/
inductive QueueOp
  | insert (t : CedarvTask) (taskHandle : ℕ)
  | del (taskId : ℤ)
  | events (jiffies : ℕ → BitVec 64)

def engine : Machine Engine QueueOp ℤ where
  step s
    | .insert t taskHandle => some (0, s.insertTask (newTask t taskHandle s.inserted))
    | .del taskId => some (s.delTask taskId)
    | .events jiffies => some (0, s.forEvents jiffies)

/-! ### The handler -/

section

variable {l del : List EngineTask} {jiffies : ℕ → BitVec 64}

@[simp] theorem timedOut_seq (e : EngineTask) : (timedOut e).seq = e.seq := by
  unfold timedOut
  split <;> rfl

theorem sweep_cons (jiffies : ℕ → BitVec 64) (e : EngineTask) (l del : List EngineTask) :
    sweep jiffies (e :: l) del =
      if Leaves (jiffies 0) e then sweep (fun i => jiffies (i + 1)) l (timedOut e :: del)
      else (e :: (sweep (fun i => jiffies (i + 1)) l del).1,
        (sweep (fun i => jiffies (i + 1)) l del).2) := rfl

theorem sweep_sublist (jiffies : ℕ → BitVec 64) (l del : List EngineTask) :
    (sweep jiffies l del).1.Sublist l := by
  induction l generalizing jiffies del with
  | nil => exact List.Sublist.slnil
  | cons e l ih =>
    rw [sweep_cons]
    split
    · exact (ih _ _).cons e
    · exact (ih _ _).cons_cons e

/-- No entry is lost or doubled by the moves. -/
theorem sweep_perm (jiffies : ℕ → BitVec 64) (l del : List EngineTask) :
    ((sweep jiffies l del).1.map EngineTask.seq ++ (sweep jiffies l del).2.map EngineTask.seq).Perm
      (l.map EngineTask.seq ++ del.map EngineTask.seq) := by
  induction l generalizing jiffies del with
  | nil => exact List.Perm.refl _
  | cons e l ih =>
    rw [sweep_cons]
    split
    · refine (ih _ _).trans ?_
      rw [List.map_cons, timedOut_seq, List.map_cons, List.cons_append]
      exact List.perm_middle
    · simp only [List.map_cons, List.cons_append]
      exact (ih _ _).cons e.seq

theorem mem_sweep_of_mem {x : EngineTask} (h : x ∈ del) : x ∈ (sweep jiffies l del).2 := by
  induction l generalizing jiffies del with
  | nil => exact h
  | cons e l ih =>
    rw [sweep_cons]
    split
    · exact ih (List.mem_cons_of_mem _ h)
    · exact ih h

/-- Where an entry goes depends on what the clock says when it is looked at. -/
theorem sweep_getElem (jiffies : ℕ → BitVec 64) {l : List EngineTask} (del : List EngineTask)
    {i : ℕ} {e : EngineTask} (h : l[i]? = some e) :
    (Leaves (jiffies i) e → timedOut e ∈ (sweep jiffies l del).2) ∧
      (¬ Leaves (jiffies i) e → e ∈ (sweep jiffies l del).1) := by
  induction l generalizing jiffies del i with
  | nil => simp at h
  | cons a l ih =>
    rw [sweep_cons]
    cases i with
    | zero =>
      rw [List.getElem?_cons_zero, Option.some.injEq] at h
      subst h
      split
      · rename_i hleave
        exact ⟨fun _ => mem_sweep_of_mem List.mem_cons_self, fun hn => absurd hleave hn⟩
      · rename_i hstay
        exact ⟨fun hl => absurd hl hstay, fun _ => List.mem_cons_self⟩
    | succ i =>
      rw [List.getElem?_cons_succ] at h
      split
      · exact ih (fun j => jiffies (j + 1)) (timedOut a :: del) h
      · obtain ⟨hleave, hstay⟩ := ih (fun j => jiffies (j + 1)) del h
        exact ⟨hleave, fun hn => List.mem_cons_of_mem a (hstay hn)⟩

/-- Every entry that is moved comes from the list. -/
theorem of_mem_sweep {x : EngineTask} (h : x ∈ (sweep jiffies l del).2) :
    x ∈ del ∨ ∃ e ∈ l, x = timedOut e := by
  induction l generalizing jiffies del with
  | nil => exact Or.inl h
  | cons a l ih =>
    rw [sweep_cons] at h
    have hlater : (∃ e ∈ l, x = timedOut e) → ∃ e ∈ a :: l, x = timedOut e := by
      rintro ⟨e, he, hx⟩
      exact ⟨e, List.mem_cons_of_mem a he, hx⟩
    split at h
    · rcases ih h with hdel | hl
      · rcases List.mem_cons.mp hdel with rfl | hdel
        · exact Or.inr ⟨a, List.mem_cons_self, rfl⟩
        · exact Or.inl hdel
      · exact Or.inr (hlater hl)
    · exact (ih h).imp_right hlater

/-- A task is told its status when it is removed. -/
theorem lastSignal_of_ne {e : EngineTask} (h : e.status ≠ .TASK_INIT) :
    lastSignal e = some ⟨e.taskHandle, e.t.id, e.status, e.seq⟩ := by
  unfold lastSignal
  cases hs : e.status with
  | TASK_INIT => exact absurd hs h
  | TASK_TIMEOUT => rfl
  | TASK_RELEASE => rfl

theorem filterMap_lastSignal (h : ∀ e ∈ del, e.status ≠ .TASK_INIT) :
    del.filterMap lastSignal = del.map fun e => ⟨e.taskHandle, e.t.id, e.status, e.seq⟩ := by
  induction del with
  | nil => rfl
  | cons e del ih =>
    rw [List.filterMap_cons_some (lastSignal_of_ne (h e List.mem_cons_self)), List.map_cons,
      ih fun x hx => h x (List.mem_cons_of_mem e hx)]

/-- The head runs, and it is told so when it did not. -/
theorem startHead_cons (e : EngineTask) (l : List EngineTask) :
    startHead (e :: l) = ({ e with running := true } :: l,
      if e.running = false then [⟨e.taskHandle, e.t.id, .TASK_INIT, e.seq⟩] else []) := by
  obtain ⟨t, taskHandle, status, running, isFirstTask, seq⟩ := e
  cases running with
  | false => rfl
  | true => rfl

@[simp] theorem startHead_tail : (startHead l).1.tail = l.tail := by
  cases l with
  | nil => rfl
  | cons e l => rw [startHead_cons]; rfl

@[simp] theorem startHead_seq : (startHead l).1.map EngineTask.seq = l.map EngineTask.seq := by
  cases l with
  | nil => rfl
  | cons e l => rw [startHead_cons]; rfl

end

theorem siErrno_of_mem_startHead {l : List EngineTask} {g : CedarSignal}
    (hg : g ∈ (startHead l).2) : g.siErrno = .TASK_INIT := by
  cases l with
  | nil => simp [startHead] at hg
  | cons a l =>
    rw [startHead_cons] at hg
    dsimp only at hg
    split at hg
    · rw [List.mem_singleton.mp hg]
    · simp at hg

/-- A head that is told so did not run. -/
theorem countP_startHead (a : EngineTask) (l : List EngineTask) (n : ℕ) :
    (startHead (a :: l)).2.countP (fun g => g.siErrno = .TASK_INIT ∧ g.seq = n)
      = if a.running = false ∧ a.seq = n then 1 else 0 := by
  rw [startHead_cons]
  dsimp only
  by_cases hr : a.running = false
  · by_cases hn : a.seq = n <;> simp [hr, hn]
  · simp [hr]

theorem running_of_head_startHead {l : List EngineTask} {x : EngineTask}
    (hx : x ∈ (startHead l).1.head?) : x.running = true := by
  cases l with
  | nil => simp [startHead] at hx
  | cons a l =>
    rw [startHead_cons] at hx
    obtain rfl := Option.some.inj hx
    rfl

theorem mem_startHead {l : List EngineTask} {x : EngineTask} (hx : x ∈ (startHead l).1) :
    ∃ e ∈ l, x.seq = e.seq ∧ x.status = e.status := by
  cases l with
  | nil => simp [startHead] at hx
  | cons a l =>
    rw [startHead_cons] at hx
    rcases List.mem_cons.mp hx with rfl | hx
    · exact ⟨a, List.mem_cons_self, rfl, rfl⟩
    · exact ⟨x, List.mem_cons_of_mem a hx, rfl, rfl⟩

end LonganPi.Ve
