import LonganPi.Lib.Spin
import LonganPi.Ve.Clock
import LonganPi.Ve.TaskQueue

/-!
# The spinlock of the engine

`cedar_devp->lock` guards `run_task_list` and `clk_status`. It is taken by the functions of the task
queue, by the two that switch the clocks, and by the handlers of the two timers. Some of them give
it back early, on a path of their own.

Here the functions are translated with their lock operations, as `Code`. Each has a spec lemma that
says what it does from a free lock; for the queue and the clocks that is what the functions of
`TaskQueue` and `Clock` do in one step, so `engine`, whose steps these are, is what the locked code
amounts to (`engine_exec`).

Only `cedar_engine_for_timer_rel` calls another of these functions under the lock:
`disable_cedar_hw_clk`, when no task is left. This one takes the lock first thing, whatever
`clk_status` says, and the handler waits for itself (`exec_timerRel_of_nil`). All other paths
release what they acquire (`lock_discipline`).
-/

open DriverLib

namespace LonganPi.Ve.EngineLock

/-- What is used under the lock. -/
structure CedarDev where
  -- `run_task_list`, `del_task_list` and `cedar_engine_timer`
  tasks : Engine
  -- `clk_status` and the clocks
  clks : EngineState
  -- whether `cedar_engine_timer_rel` is pending
  timerRel : Bool
  -- `t.frametime` of the tasks, by their number
  frametime : ℕ → BitVec 32

namespace CedarDev

/-- After the probe. -/
def init : CedarDev :=
  { tasks := .init
    clks :=
      { refCount := 0, lastMinFreq := 0, clkStatus := 0, bInitEndFlag := 1, busClk := 0,
        mbusClk := 0, veClk := 0, pmUsage := 0, resetAsserted := true }
    timerRel := false
    frametime := fun _ => 0 }

def setClks (s : CedarDev) (f : EngineState → EngineState) : CedarDev := { s with clks := f s.clks }

def setTasks (s : CedarDev) (f : Engine → Engine) : CedarDev := { s with tasks := f s.tasks }

end CedarDev

open Code

/-! ### The functions -/

/-- A change of the clocks. -/
def onClks (f : EngineState → EngineState) : Code CedarDev Unit := modify fun s => s.setClks f

/-- A change of the queue. -/
def onTasks (f : Engine → Engine) : Code CedarDev Unit := modify fun s => s.setTasks f

/-- `mod_timer` of `cedar_engine_timer`. -/
def modTimer : Code CedarDev Unit := onTasks fun q => { q with timer := true }

/-- `enable_cedar_hw_clk`. The clocks are switched after the lock is released. -/
def enableCedarHwClk (clk : ClkResults) : Code CedarDev ℤ := do
  if (← get).clks.bInitEndFlag ≠ 1 then return -EINVAL
  spinLock
  if (← get).clks.clkStatus = 1 then
    spinUnlock
    return 0
  onClks fun c => { c with clkStatus := 1 }
  spinUnlock
  onClks fun c => { c with pmUsage := c.pmUsage + 1 }
  onClks fun c => { c with resetAsserted := false }
  if !clk.bus then return -EINVAL
  onClks fun c => { c with busClk := c.busClk + 1 }
  if !clk.mbus then return -EINVAL
  onClks fun c => { c with mbusClk := c.mbusClk + 1 }
  if !clk.ve then return -EINVAL
  onClks fun c => { c with veClk := c.veClk + 1 }
  return 0

/-- `disable_cedar_hw_clk` -/
def disableCedarHwClk : Code CedarDev ℤ := do
  spinLock
  if (← get).clks.clkStatus = 0 then
    spinUnlock
    return 0
  onClks fun c => { c with clkStatus := 0 }
  spinUnlock
  onClks fun c => { c with veClk := c.veClk - 1 }
  onClks fun c => { c with mbusClk := c.mbusClk - 1 }
  onClks fun c => { c with busClk := c.busClk - 1 }
  onClks fun c => { c with resetAsserted := true }
  onClks fun c => { c with pmUsage := c.pmUsage - 1 }
  return 0

/-- `cedardev_insert_task`. The timer is armed under the lock. -/
def cedardevInsertTask (newTask : EngineTask) : Code CedarDev Unit := do
  spinLock
  onTasks fun q => q.insertTask newTask
  spinUnlock

/-- `cedardev_del_task`. On a match it returns from inside the loop, and arms the timer after the
lock is released. -/
def cedardevDelTask (taskId : ℤ) : Code CedarDev ℤ := do
  spinLock
  match releaseFirst taskId (← get).tasks.runTaskList with
  | some (n, l) =>
    onTasks fun q => { q with runTaskList := l, released := n :: q.released }
    spinUnlock
    modTimer
    return 0
  | none =>
    spinUnlock
    return -1

/-- The loop of `cedardev_check_delay`; an `int` and an `unsigned int` are added as the latter. -/
def timeoutTotal (s : CedarDev) (checkPrio : ℤ) : BitVec 32 :=
  s.tasks.runTaskList.foldl
    (fun total e =>
      if e.t.taskPrio ≥ checkPrio ∨ e.running = true ∨ e.isFirstTask = true then
        total + s.frametime e.seq
      else total) 0

/-- `cedardev_check_delay` -/
def cedardevCheckDelay (checkPrio : ℤ) : Code CedarDev ℤ := do
  spinLock
  let total := timeoutTotal (← get) checkPrio
  spinUnlock
  return total.toInt

/-- `cedar_engine_for_timer_rel`, the handler of `cedar_engine_timer_rel`, which is not pending any
more when the handler runs. -/
def cedarEngineForTimerRel : Code CedarDev Unit := do
  modify fun s => { s with timerRel := false }
  spinLock
  if (← get).tasks.runTaskList.isEmpty then
    let _ret ← disableCedarHwClk
  else
    modTimer
  spinUnlock

/-- `cedar_engine_for_events`, the handler of `cedar_engine_timer`. The first loop arms the other
timer once for every entry. -/
def cedarEngineForEvents (jiffies : ℕ → BitVec 64) : Code CedarDev Unit := do
  spinLock
  modify fun s => { s with timerRel := s.timerRel || !s.tasks.runTaskList.isEmpty }
  onTasks fun q => q.forEvents jiffies
  spinUnlock

/-- The calls of functions that take the lock, and what the clocks answer. -/
inductive CedarCall
  | enableClk (clk : ClkResults)
  | disableClk
  | insertTask (newTask : EngineTask)
  | delTask (taskId : ℤ)
  | checkDelay (checkPrio : ℤ)
  | timerRel
  | events (jiffies : ℕ → BitVec 64)

/-- What a call runs; `0` for the functions that return nothing. -/
def CedarCall.code : CedarCall → Code CedarDev ℤ
  | .enableClk clk => enableCedarHwClk clk
  | .disableClk => disableCedarHwClk
  | .insertTask newTask => do cedardevInsertTask newTask; return 0
  | .delTask taskId => cedardevDelTask taskId
  | .checkDelay checkPrio => cedardevCheckDelay checkPrio
  | .timerRel => do cedarEngineForTimerRel; return 0
  | .events jiffies => do cedarEngineForEvents jiffies; return 0

/-- Calls one after the other, in any order. -/
def cedarCalls : Machine (CedarDev × Bool) CedarCall (List SpinOp) := machine CedarCall.code

/-! ### What each function does -/

section

variable (s : CedarDev)

@[simp] theorem exec_onClks (f : EngineState → EngineState) (held : Bool) :
    (onClks f).exec held s = (some (), held, s.setClks f) := rfl

@[simp] theorem exec_onTasks (f : Engine → Engine) (held : Bool) :
    (onTasks f).exec held s = (some (), held, s.setTasks f) := rfl

theorem exec_enableCedarHwClk (clk : ClkResults) :
    (enableCedarHwClk clk).exec false s =
      (some (Ve.enableCedarHwClk s.clks clk).1, false,
        s.setClks fun c => (Ve.enableCedarHwClk c clk).2) := by
  unfold enableCedarHwClk Ve.enableCedarHwClk CedarDev.setClks
  rcases ne_or_eq s.clks.bInitEndFlag 1 with hinit | hinit
  · simp [hinit]
  by_cases hon : s.clks.clkStatus = 1
  · simp [hinit, hon]
  -- the lock is free again before the first clock is asked for
  obtain ⟨bus, mbus, ve⟩ := clk
  cases bus with
  | false => simp [hinit, hon, CedarDev.setClks]
  | true =>
    cases mbus with
    | false => simp [hinit, hon, CedarDev.setClks]
    | true =>
      cases ve with
      | false => simp [hinit, hon, CedarDev.setClks]
      | true => simp [hinit, hon, CedarDev.setClks]

theorem exec_disableCedarHwClk :
    disableCedarHwClk.exec false s =
      (some (Ve.disableCedarHwClk s.clks).1, false,
        s.setClks fun c => (Ve.disableCedarHwClk c).2) := by
  unfold disableCedarHwClk Ve.disableCedarHwClk
  by_cases hoff : s.clks.clkStatus = 0
  · simp [hoff, CedarDev.setClks]
  · simp [hoff, CedarDev.setClks]

/-- Called under the lock, it does not get past its first line. -/
theorem exec_disableCedarHwClk_held : disableCedarHwClk.exec true s = (none, true, s) := rfl

theorem exec_cedardevInsertTask (newTask : EngineTask) :
    (cedardevInsertTask newTask).exec false s =
      (some (), false, s.setTasks fun q => q.insertTask newTask) := rfl

theorem exec_cedardevDelTask (taskId : ℤ) :
    (cedardevDelTask taskId).exec false s =
      (some (s.tasks.delTask taskId).1, false, s.setTasks fun q => (q.delTask taskId).2) := by
  unfold cedardevDelTask Engine.delTask
  cases h : releaseFirst taskId s.tasks.runTaskList with
  | none => simp [h, CedarDev.setTasks]
  | some r => simp [h, CedarDev.setTasks, modTimer]

theorem exec_cedardevCheckDelay (checkPrio : ℤ) :
    (cedardevCheckDelay checkPrio).exec false s =
      (some (timeoutTotal s checkPrio).toInt, false, s) := rfl

theorem exec_cedarEngineForEvents (jiffies : ℕ → BitVec 64) :
    (cedarEngineForEvents jiffies).exec false s =
      (some (), false,
        { s with
          tasks := s.tasks.forEvents jiffies
          timerRel := s.timerRel || !s.tasks.runTaskList.isEmpty }) := rfl

/-- With a task left the handler arms the other timer. -/
theorem exec_timerRel_of_ne (h : s.tasks.runTaskList ≠ []) :
    cedarEngineForTimerRel.exec false s =
      (some (), false, { s with tasks := { s.tasks with timer := true }, timerRel := false }) := by
  simp [cedarEngineForTimerRel, h, modTimer, CedarDev.setTasks]

/-- With no task left it waits for itself, and holds the lock for good. -/
theorem exec_timerRel_of_nil (h : s.tasks.runTaskList = []) :
    cedarEngineForTimerRel.exec false s = (none, true, { s with timerRel := false }) := by
  simp [cedarEngineForTimerRel, h, exec_disableCedarHwClk_held]

end

/-! ### The discipline -/

/-- The call that goes wrong. -/
def WaitsForItself (s : CedarDev) (call : CedarCall) : Prop :=
  call = .timerRel ∧ s.tasks.runTaskList = []

/-- Every other call comes back and leaves the lock free. -/
theorem exec_code {s : CedarDev} {call : CedarCall} (h : ¬ WaitsForItself s call) :
    ∃ a t, call.code.exec false s = (some a, false, t) := by
  cases call with
  | enableClk clk => exact ⟨_, _, exec_enableCedarHwClk s clk⟩
  | disableClk => exact ⟨_, _, exec_disableCedarHwClk s⟩
  | insertTask newTask => exact ⟨_, _, exec_bind_of_some (exec_cedardevInsertTask s newTask) _⟩
  | delTask taskId => exact ⟨_, _, exec_cedardevDelTask s taskId⟩
  | checkDelay checkPrio => exact ⟨_, _, exec_cedardevCheckDelay s checkPrio⟩
  | timerRel =>
    have hne : s.tasks.runTaskList ≠ [] := fun hnil => h ⟨rfl, hnil⟩
    exact ⟨_, _, exec_bind_of_some (exec_timerRel_of_ne s hne) _⟩
  | events jiffies => exact ⟨_, _, exec_bind_of_some (exec_cedarEngineForEvents s jiffies) _⟩

theorem bracketed_code_iff (call : CedarCall) (s : CedarDev) :
    Bracketed (call.code.trace false s) ↔ ¬ WaitsForItself s call := by
  rw [bracketed_trace_iff]
  constructor
  · rintro ⟨a, t, hexec⟩ ⟨rfl, hnil⟩
    have hnone := exec_bind_of_none (exec_timerRel_of_nil s hnil) fun _ => (pure 0 : Code _ ℤ)
    exact absurd (hexec.symm.trans hnone) (by simp)
  · exact exec_code

/-- **The lock discipline.** Whatever the state, a call acquires the lock only when it does not hold
it and releases it once for each time, unless it is the handler of `cedar_engine_timer_rel` and no
task is left; and so it is along every run of calls. -/
theorem lock_discipline (s : CedarDev) :
    (∀ call : CedarCall, Bracketed (call.code.trace false s) ↔
      ¬ (call = .timerRel ∧ s.tasks.runTaskList = [])) ∧
    ∀ calls : List CedarCall,
      cedarCalls.Along (fun _ _ o _ => Bracketed o) (s, false) calls ↔
        cedarCalls.Along (fun s call _ _ => ¬ (call = .timerRel ∧ s.1.tasks.runTaskList = []))
          (s, false) calls :=
  ⟨fun call => bracketed_code_iff call s,
    along_bracketed_iff (fun call s => bracketed_code_iff call s) s⟩

/-- A task is inserted and released, and its engine timer fires twice; then the other timer is
pending and no task is left. Its handler waits for itself. -/
theorem timer_rel_waits_for_itself :
    ∃ s, cedarCalls.exec (.init, false)
        [.insertTask (newTask ⟨0, 7, 100⟩ 1 0), .enableClk .ok, .events fun _ => 0, .delTask 7,
          .events fun _ => 0] = some (s, false) ∧
      s.timerRel = true ∧ s.tasks.runTaskList = [] ∧ s.clks.clkStatus = 1 ∧
      ¬ Bracketed (CedarCall.timerRel.code.trace false s) := by
  refine ⟨_, rfl, rfl, rfl, rfl, ?_⟩
  intro h
  cases h

/-! ### The queue as it was -/

/-- What the functions of the queue run. -/
def queueCode : QueueOp → Code CedarDev ℤ
  | .insert t taskHandle => do
    cedardevInsertTask (newTask t taskHandle (← get).tasks.inserted)
    return 0
  | .del taskId => cedardevDelTask taskId
  | .events jiffies => do cedarEngineForEvents jiffies; return 0

/-- They run from a free lock to a free lock. -/
def lockedQueue : Machine CedarDev QueueOp ℤ where
  step s op :=
    match (queueCode op).exec false s with
    | (some a, false, t) => some (a, t)
    | _ => none

theorem lockedQueue_step (s : CedarDev) (op : QueueOp) :
    (engine.step s.tasks op).map Prod.snd = (lockedQueue.step s op).map fun r => r.2.tasks := by
  have hstep : ∀ {a : ℤ} {t : CedarDev}, (queueCode op).exec false s = (some a, false, t) →
      (lockedQueue.step s op).map (fun r => r.2.tasks) = some t.tasks := by
    intro a t h
    simp only [lockedQueue, h, Option.map_some]
  cases op with
  | insert t taskHandle =>
    exact (hstep (exec_bind_of_some (exec_cedardevInsertTask s _) _)).symm
  | del taskId => exact (hstep (exec_cedardevDelTask s taskId)).symm
  | events jiffies =>
    exact (hstep (exec_bind_of_some (exec_cedarEngineForEvents s jiffies) _)).symm

/-- **The machine of the queue is what the locked functions amount to.** -/
theorem engine_exec (s : CedarDev) (ops : List QueueOp) :
    engine.exec s.tasks ops = (lockedQueue.exec s ops).map CedarDev.tasks :=
  Machine.exec_map lockedQueue_step s ops

end LonganPi.Ve.EngineLock
