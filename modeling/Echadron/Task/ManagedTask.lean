import Echadron.Lib.JsString

namespace Echadron.Task

/-! Handles of concurrent work. -/

inductive TaskState where
  | pending
  | running
  | completed
  | failed
  | cancelled
deriving DecidableEq

def TERMINAL_TASK_STATES : List TaskState := [.completed, .failed, .cancelled]

/-- A handle that runs a function, with whether its signal is aborted and whether the function has come
to its end; or one that its owner settles, whose result is settled with its state. -/
inductive TaskHandle where
  | run (state : TaskState) (aborted ended : Bool)
  | defer (state : TaskState)
deriving DecidableEq

namespace TaskHandle

def state : TaskHandle → TaskState
  | .run state _ _ => state
  | .defer state => state

def isTerminal (handle : TaskHandle) : Bool := decide (handle.state ∈ TERMINAL_TASK_STATES)

/-- Whether the promise of the result is settled. -/
def settled : TaskHandle → Bool
  | .run _ _ ended => ended
  | .defer state => (TaskHandle.defer state).isTerminal

def isRun : TaskHandle → Bool
  | .run .. => true
  | .defer _ => false

def transition (handle : TaskHandle) (next : TaskState) : TaskHandle :=
  if handle.isTerminal then handle
  else
    match handle with
    | .run _ aborted ended => .run next aborted ended
    | .defer _ => .defer next

def cancel (handle : TaskHandle) : TaskHandle :=
  if handle.isTerminal then handle
  else
    match handle with
    | .run state _ ended => (TaskHandle.run state true ended).transition .cancelled
    | .defer state => (TaskHandle.defer state).transition .cancelled

/-- The function of a handle comes to its end, or the owner of a handle settles it. -/
def finish (handle : TaskHandle) (failed : Bool) : TaskHandle :=
  let outcome := if failed then TaskState.failed else .completed
  match handle with
  | .run state aborted ended =>
    if ended then handle
    else (TaskHandle.run state aborted true).transition (if aborted then .cancelled else outcome)
  | .defer _ => handle.transition outcome

@[simp] theorem isRun_run (state : TaskState) (aborted ended : Bool) :
    (run state aborted ended).isRun = true := rfl

@[simp] theorem isRun_defer (state : TaskState) : (TaskHandle.defer state).isRun = false := rfl

@[simp] theorem isRun_transition (handle : TaskHandle) (next : TaskState) :
    (handle.transition next).isRun = handle.isRun := by
  unfold transition
  split
  · rfl
  · cases handle <;> rfl

@[simp] theorem isRun_cancel (handle : TaskHandle) : handle.cancel.isRun = handle.isRun := by
  unfold cancel
  split
  · rfl
  · cases handle <;> simp

@[simp] theorem isRun_finish (handle : TaskHandle) (failed : Bool) : (handle.finish failed).isRun = handle.isRun := by
  cases handle with
  | run state aborted ended =>
    unfold finish
    dsimp only
    split
    · rfl
    · simp
  | defer state => simp [finish]

theorem settled_of_isTerminal {handle : TaskHandle} (hrun : handle.isRun = false)
    (h : handle.isTerminal = true) : handle.settled = true := by
  cases handle with
  | run state aborted ended => cases hrun
  | defer state => exact h

theorem settled_transition (handle : TaskHandle) (next : TaskState) (h : handle.settled = true) :
    (handle.transition next).settled = true := by
  unfold transition
  split
  · exact h
  · rename_i hterminal
    cases handle with
    | run state aborted ended => exact h
    | defer state => exact absurd h hterminal

theorem settled_cancel {handle : TaskHandle} (h : handle.settled = true) : handle.cancel.settled = true := by
  unfold cancel
  split
  · exact h
  · cases handle with
    | run state aborted ended => exact settled_transition _ _ h
    | defer state => exact settled_transition _ _ h

theorem settled_finish {handle : TaskHandle} (failed : Bool) (h : handle.settled = true) :
    (handle.finish failed).settled = true := by
  cases handle with
  | run state aborted ended =>
    unfold finish
    dsimp only
    split
    · exact h
    · exact settled_transition _ _ rfl
  | defer state => exact settled_transition _ _ h

end TaskHandle

end Echadron.Task

namespace Echadron.Task
open Lib

/-! The entries of an agent's tasks, each with what its own calls and timers do to it. -/

inductive AgentTaskStatus where
  | running
  | completed
  | failed
  | timedOut
  | killed
  | lost
deriving DecidableEq

def TERMINAL_STATUSES : List AgentTaskStatus := [.completed, .failed, .timedOut, .killed, .lost]

def isAgentTaskTerminal (status : AgentTaskStatus) : Bool := decide (status ∈ TERMINAL_STATUSES)

inductive AgentTaskSettlementStatus where
  | completed
  | failed
  | timedOut
  | killed
deriving DecidableEq

def AgentTaskSettlementStatus.toStatus : AgentTaskSettlementStatus → AgentTaskStatus
  | .completed => .completed
  | .failed => .failed
  | .timedOut => .timedOut
  | .killed => .killed

theorem isAgentTaskTerminal_toStatus (status : AgentTaskSettlementStatus) :
    isAgentTaskTerminal status.toStatus = true := by
  cases status <;> rfl

structure AgentTaskSettlement where
  status : AgentTaskSettlementStatus
  stopReason : Option String := none
deriving DecidableEq

inductive ForegroundTaskReleaseReason where
  | detached
  | timeoutDetached
  | terminal
deriving DecidableEq

structure AgentTaskInfo where
  taskId : String
  status : AgentTaskStatus
  detached : Bool
  stopReason : Option String
  timeoutMs : Option Nat
deriving DecidableEq

inductive TaskRecord where
  | started (info : AgentTaskInfo)
  | terminated (info : AgentTaskInfo)
deriving DecidableEq

def TaskRecord.info : TaskRecord → AgentTaskInfo
  | .started info => info
  | .terminated info => info

structure StopOptions where
  stopReason : Option String := none
  finalStatus : AgentTaskSettlementStatus
deriving DecidableEq

/-- Where a call of `terminateWithGrace` is: in its race with the grace period, at the force-stop
function, at the settlement, or done. -/
inductive StopPhase where
  | racing
  | forcing
  | settling
  | resolved
deriving DecidableEq

structure Stop where
  options : StopOptions
  phase : StopPhase := .racing
  /-- Whether the grace period was over before the work of the task was. -/
  late : Bool := false
deriving DecidableEq

/-- How far the promise of `start` is: pending, rejected with its handler at work, or settled. -/
inductive StartPromise where
  | pending
  | rejected
  | settled
deriving DecidableEq

/-- An entry with a handle tracks it, and else its own task was started. Promises are known by what they
are resolved with; the calls that stop the task and those of its force-stop function are counted. -/
structure ManagedTask where
  taskId : String
  handle : Option TaskHandle := none
  hasForceStop : Bool
  /-- The option that the entry was made with. -/
  detached : Bool
  timeoutMs : Option Nat := none
  detachTimeoutMs : Option Nat := none
  autoBackgroundOnTimeout : Bool := false
  status : AgentTaskStatus := .running
  foregroundRelease : Bool
  released : Option ForegroundTaskReleaseReason := none
  stopReason : Option String := none
  terminalFired : Bool := false
  /-- Whether the entry's own abort controller is aborted. -/
  aborted : Bool := false
  foregroundSignal : Bool := false
  handleSubscription : Bool := false
  start : StartPromise := .pending
  /-- Whether the task has settled itself. -/
  reported : Bool := false
  outputPersistStarted : Bool
  /-- Whether `settleTask` waits for the entry to be written. -/
  settling : Bool := false
  timeoutHandle : Bool := false
  timedOut : Bool := false
  waiters : List Nat := []
  /-- The calls of `wait` that have waited, those resolved by the end of the task, and those that gave up. -/
  joined : List Nat := []
  resolvedWaiters : List Nat := []
  withdrawn : List Nat := []
  stops : List Stop := []
  forceStops : Nat := 0
deriving DecidableEq

/-- What the `onDetach` function of a task does to it while it runs. -/
inductive OnDetach where
  | quiet
  | settle (settlement : AgentTaskSettlement)
  | finish (failed : Bool)
  | cancel
deriving DecidableEq

/-- An entry after a call, with the records that the call has written. -/
abbrev Effect := ManagedTask × List TaskRecord

def userCancellationMessage : String := "Aborted by the user"

def normalizeReason (reason : Option String) : Option String :=
  match reason with
  | none => none
  | some text => if isBlank text then none else some (trim text)

namespace ManagedTask

section

variable (entry : ManagedTask)

def isDetached : Bool := !entry.foregroundRelease

def isTerminal : Bool := isAgentTaskTerminal entry.status

def lifecycleSettled : Bool :=
  match entry.handle with
  | some handle => handle.settled
  | none => decide (entry.start = .settled)

/-- The work of the task is done: its handle has a result, or it has settled itself, or its `start` is
over. -/
def finished : Bool :=
  match entry.handle with
  | some handle => handle.settled
  | none => entry.reported || decide (entry.start ≠ .pending)

def tracksRun : Bool := entry.handle.any TaskHandle.isRun

def toInfo : AgentTaskInfo :=
  { taskId := entry.taskId
    status := entry.status
    detached := entry.isDetached
    stopReason := entry.stopReason
    timeoutMs := entry.timeoutMs }

def release (reason : ForegroundTaskReleaseReason) : ManagedTask :=
  { entry with released := entry.released.or (some reason) }

def resolveWaiters : ManagedTask :=
  { entry with
    waiters := []
    resolvedWaiters := entry.resolvedWaiters ++ entry.waiters }

def fireTerminalEffects : Effect :=
  if entry.terminalFired then (entry, [])
  else if !entry.isDetached then (entry, [])
  else ({ entry with terminalFired := true }, [.terminated entry.toInfo])

/-- What `settleTask` does after the entry is written. -/
def finishSettlement : Effect :=
  let (fired, records) := entry.fireTerminalEffects
  let released := if entry.foregroundRelease then fired.release .terminal else fired
  ({ released.resolveWaiters with settling := false }, records)

/-- What `settleTask` does at once. -/
def settledBy (settlement : AgentTaskSettlement) : ManagedTask :=
  { entry with
    status := settlement.status.toStatus
    stopReason := settlement.stopReason.or
      (if settlement.status = .killed then entry.stopReason else none)
    foregroundSignal := false
    handleSubscription := false
    timeoutHandle := false }

def settleTask (settlement : AgentTaskSettlement) : Effect :=
  if entry.isTerminal then (entry, [])
  else if entry.outputPersistStarted then ({ entry.settledBy settlement with settling := true }, [])
  else (entry.settledBy settlement).finishSettlement

def coerceTimeoutSettlement (settlement : AgentTaskSettlement) : AgentTaskSettlement :=
  if entry.timedOut && decide (settlement.status = .killed) then { settlement with status := .timedOut }
  else settlement

/-- What the rejection of `start` settles the task with. -/
def rejection (message : String) : AgentTaskSettlement :=
  let status : AgentTaskSettlementStatus :=
    if entry.timedOut then .timedOut else if entry.aborted then .killed else .failed
  { status := status, stopReason := if status = .failed then some message else none }

def changeHandle (before after : TaskHandle) : Effect :=
  let changed := { entry with handle := some after }
  if entry.handleSubscription && !before.isTerminal && after.isTerminal then
    let status : AgentTaskSettlementStatus :=
      if entry.timedOut then .timedOut
      else if after.state = .cancelled then .killed
      else if after.state = .failed then .failed
      else .completed
    changed.settleTask { status := status, stopReason := entry.stopReason }
  else (changed, [])

def pushStop (stop : Stop) : ManagedTask := { entry with stops := entry.stops ++ [stop] }

/-- What a stop does before it cancels the work. -/
def stopping (options : StopOptions) : ManagedTask :=
  { entry with
    timeoutHandle := false
    timedOut := entry.timedOut || decide (options.finalStatus = .timedOut)
    stopReason := options.stopReason }

def cancelWork : Effect :=
  match entry.handle with
  | some handle => entry.changeHandle handle handle.cancel
  | none => ({ entry with aborted := true }, [])

def terminateWithGrace (options : StopOptions) : Effect :=
  if entry.isTerminal then (entry.pushStop { options := options, phase := .resolved }, [])
  else
    let (stopped, records) := (entry.stopping options).cancelWork
    (stopped.pushStop { options := options }, records)

section

variable (k : Nat) (stop : Stop)

def setStop : ManagedTask := { entry with stops := entry.stops.set k stop }

def settleStop : Effect :=
  if entry.isTerminal then (entry.setStop k { stop with phase := .resolved }, [])
  else
    (entry.setStop k { stop with phase := .settling }).settleTask
      { status := stop.options.finalStatus, stopReason := stop.options.stopReason }

def graceExpired : Effect :=
  let late := { stop with late := !entry.finished }
  if entry.isTerminal then (entry.setStop k { late with phase := .resolved }, [])
  else
    ({ entry.setStop k { late with phase := .forcing } with
      forceStops := entry.forceStops + if entry.hasForceStop then 1 else 0 }, [])

/-- A stop that waits for the force-stop function or for the settlement goes on. -/
def resume : Option Effect :=
  match stop.phase with
  | .forcing => some (entry.settleStop k stop)
  | .settling => if entry.settling then none else some (entry.setStop k { stop with phase := .resolved }, [])
  | _ => none

end

def armManagerTimeout (timeoutMs : Option Nat) : ManagedTask :=
  { entry with timeoutHandle := decide (0 < timeoutMs.getD 0) }

def applyDetachTimeout : ManagedTask :=
  match entry.detachTimeoutMs with
  | none => entry
  | some timeoutMs => { entry with timeoutMs := some timeoutMs }.armManagerTimeout (some timeoutMs)

def callback : OnDetach → Effect
  | .quiet => (entry, [])
  | .settle settlement =>
    if entry.handle.isSome then (entry, [])
    else { entry with reported := true }.settleTask (entry.coerceTimeoutSettlement settlement)
  | .finish failed =>
    match entry.handle with
    | none => (entry, [])
    | some handle => entry.changeHandle handle (handle.finish failed)
  | .cancel =>
    match entry.handle with
    | none => (entry, [])
    | some handle => entry.changeHandle handle handle.cancel

def leaveForeground : ManagedTask :=
  { entry with
    foregroundRelease := false
    foregroundSignal := false }

def startOutputPersist : ManagedTask := { entry with outputPersistStarted := true }

def detachEntry (viaTimeout : Bool) (onDetach : OnDetach) : Effect :=
  if entry.isTerminal then (entry, [])
  else if !entry.foregroundRelease then (entry, [])
  else
    let (called, records) := entry.leaveForeground.applyDetachTimeout.callback onDetach
    let persisted := called.startOutputPersist
    (persisted.release (if viaTimeout then .timeoutDetached else .detached),
      records ++ [.started persisted.toInfo])

def onTimeout (onDetach : OnDetach) : Effect :=
  let fired := { entry with timeoutHandle := false }
  if entry.autoBackgroundOnTimeout && !entry.isDetached then fired.detachEntry true onDetach
  else fired.terminateWithGrace { finalStatus := .timedOut }

def abortFromSignal : Effect :=
  if entry.isDetached then (entry, [])
  else entry.terminateWithGrace { stopReason := some userCancellationMessage, finalStatus := .killed }

def installForegroundSignal (signal : Option Bool) : Effect :=
  match signal with
  | none => (entry, [])
  | some true => entry.abortFromSignal
  | some false => ({ entry with foregroundSignal := true }, [])

def stop (reason : Option String) : Effect :=
  entry.terminateWithGrace { stopReason := normalizeReason reason, finalStatus := .killed }

def stopByUser : Effect :=
  entry.terminateWithGrace { stopReason := some userCancellationMessage, finalStatus := .killed }

end

end ManagedTask

end Echadron.Task
