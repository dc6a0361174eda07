import Echadron.Lib.JsMap
import Echadron.Task.ManagedTask

namespace Echadron.Task
open Lib

/-! The registry of an agent's tasks. -/

structure AgentTask where
  timeoutMs : Option Nat := none
  hasForceStop : Bool := false

/-- The signal is absent, open or aborted. -/
structure RegisterAgentTaskOptions where
  detached : Option Bool := none
  timeoutMs : Option Nat := none
  detachTimeoutMs : Option Nat := none
  autoBackgroundOnTimeout : Bool := false
  signal : Option Bool := none

structure AgentTaskTrackOptions where
  detached : Option Bool := none
  timeoutMs : Option Nat := none
  detachTimeoutMs : Option Nat := none
  signal : Option Bool := none
  hasForceStop : Bool := false

namespace ManagedTask

def begin (entry : ManagedTask) (signal : Option Bool) : Effect :=
  let (installed, records) := entry.installForegroundSignal (if entry.detached then none else signal)
  (installed, records ++ if installed.isDetached then [.started installed.toInfo] else [])

def registered (taskId : String) (task : AgentTask) (options : RegisterAgentTaskOptions) : ManagedTask :=
  let detached := options.detached.getD true
  let timeoutMs := options.timeoutMs.or task.timeoutMs
  let entry : ManagedTask :=
    { taskId := taskId
      hasForceStop := task.hasForceStop
      detached := detached
      timeoutMs := timeoutMs
      detachTimeoutMs := options.detachTimeoutMs
      autoBackgroundOnTimeout := options.autoBackgroundOnTimeout
      foregroundRelease := !detached
      outputPersistStarted := detached }
  entry.armManagerTimeout timeoutMs

def tracked (taskId : String) (handle : TaskHandle) (options : AgentTaskTrackOptions) : ManagedTask :=
  let detached := options.detached.getD true
  let entry : ManagedTask :=
    { taskId := taskId
      handle := some handle
      hasForceStop := options.hasForceStop
      detached := detached
      timeoutMs := options.timeoutMs
      detachTimeoutMs := options.detachTimeoutMs
      foregroundRelease := !detached
      handleSubscription := true
      outputPersistStarted := detached }
  entry.armManagerTimeout options.timeoutMs

end ManagedTask

/-- What can happen to one task: it settles itself, its `start` ends, its handle ends or is cancelled,
its output or its settlement is written, it is detached, timed out, aborted, stopped or waited for, and a
stop goes on. -/
inductive TaskEvent where
  | settle (settlement : AgentTaskSettlement)
  | startResolved
  | startRejected (message : String)
  | caught
  | handleFinished (failed : Bool)
  | handleCancelled
  | persistOutput
  | persisted
  | detach (onDetach : OnDetach)
  | timeout (onDetach : OnDetach)
  | foregroundAbort
  | stop (reason : Option String)
  | stopByUser
  | graceExpired (k : Nat)
  | graceWon (k : Nat)
  | resume (k : Nat)
  | wait (waiter : Nat)
  | withdraw (waiter : Nat)
deriving DecidableEq

/-- The entry after an event, with the records written; absent where the event cannot happen. -/
def ManagedTask.step (entry : ManagedTask) : TaskEvent → Option Effect
  | .settle settlement =>
    if entry.handle.isSome then none
    else some ({ entry with reported := true }.settleTask (entry.coerceTimeoutSettlement settlement))
  | .startResolved =>
    if entry.handle.isSome ∨ entry.start ≠ .pending then none else some ({ entry with start := .settled }, [])
  | .startRejected message =>
    if entry.handle.isSome ∨ entry.start ≠ .pending then none
    else some ({ entry with start := .rejected }.settleTask (entry.rejection message))
  | .caught =>
    if entry.handle.isSome ∨ entry.start ≠ .rejected ∨ entry.settling then none
    else some ({ entry with start := .settled }, [])
  | .handleFinished failed => entry.handle.map fun handle => entry.changeHandle handle (handle.finish failed)
  | .handleCancelled => entry.handle.map fun handle => entry.changeHandle handle handle.cancel
  | .persistOutput => some (entry.startOutputPersist, [])
  | .persisted => if entry.settling then some entry.finishSettlement else none
  | .detach onDetach => some (entry.detachEntry false onDetach)
  | .timeout onDetach => if entry.timeoutHandle then some (entry.onTimeout onDetach) else none
  | .foregroundAbort =>
    if entry.foregroundSignal then some { entry with foregroundSignal := false }.abortFromSignal else none
  | .stop reason => some (entry.stop reason)
  | .stopByUser => some entry.stopByUser
  | .graceExpired k =>
    entry.stops[k]?.bind fun stop =>
      if stop.phase = .racing ∧ entry.lifecycleSettled = false then some (entry.graceExpired k stop) else none
  | .graceWon k =>
    entry.stops[k]?.bind fun stop =>
      if stop.phase = .racing ∧ entry.lifecycleSettled = true then some (entry.settleStop k stop) else none
  | .resume k => entry.stops[k]?.bind fun stop => entry.resume k stop
  | .wait waiter =>
    if entry.isTerminal then none
    else some ({ entry with
      waiters := entry.waiters ++ [waiter]
      joined := entry.joined ++ [waiter] }, [])
  | .withdraw waiter =>
    some ({ entry with
      waiters := entry.waiters.filter (· ≠ waiter)
      withdrawn := entry.withdrawn ++ [waiter] }, [])

structure AgentTaskService where
  maxRunningTasks : Option Nat := none
  tasks : JsMap String ManagedTask := .empty
  records : List TaskRecord := []

namespace AgentTaskService

def activeTaskCount (s : AgentTaskService) : Nat :=
  s.tasks.entries.countP fun e => !e.2.isTerminal && e.2.detached

def canRegister (s : AgentTaskService) (detached : Bool) : Bool :=
  match s.maxRunningTasks with
  | none => true
  | some maxRunningTasks => !detached || decide (s.activeTaskCount < maxRunningTasks)

def put (s : AgentTaskService) (effect : Effect) : AgentTaskService :=
  { s with
    tasks := s.tasks.set effect.1.taskId effect.1
    records := s.records ++ effect.2 }

/-- Tasks are registered, handles are tracked, and things happen to tasks. -/
inductive Event where
  | registerTask (taskId : String) (task : AgentTask) (options : RegisterAgentTaskOptions)
  | track (taskId : String) (handle : TaskHandle) (options : AgentTaskTrackOptions)
  | task (taskId : String) (event : TaskEvent)

/-- The registry after an event. A generated id is a new one, and a registration over the limit
throws. -/
def step (s : AgentTaskService) : Event → Option AgentTaskService
  | .registerTask taskId task options =>
    if s.tasks.has taskId ∨ s.canRegister (options.detached.getD true) = false then none
    else some (s.put ((ManagedTask.registered taskId task options).begin options.signal))
  | .track taskId handle options =>
    if s.tasks.has taskId ∨ s.canRegister (options.detached.getD true) = false then none
    else some (s.put ((ManagedTask.tracked taskId handle options).begin options.signal))
  | .task taskId event => (s.tasks.get taskId).bind fun entry => (entry.step event).map s.put

def run (s : AgentTaskService) (events : List Event) : Option AgentTaskService := events.foldlM step s

def recordsOf (s : AgentTaskService) (taskId : String) : List TaskRecord :=
  s.records.filter fun r => r.info.taskId = taskId

end AgentTaskService

def starts (records : List TaskRecord) : List AgentTaskInfo :=
  records.filterMap fun
    | .started info => some info
    | .terminated _ => none

def terminations (records : List TaskRecord) : List AgentTaskInfo :=
  records.filterMap fun
    | .started _ => none
    | .terminated info => some info

@[simp] theorem starts_append (a b : List TaskRecord) : starts (a ++ b) = starts a ++ starts b :=
  List.filterMap_append

@[simp] theorem terminations_append (a b : List TaskRecord) :
    terminations (a ++ b) = terminations a ++ terminations b :=
  List.filterMap_append

end Echadron.Task
