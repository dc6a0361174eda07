import Mathlib.Algebra.Ring.Nat
import Mathlib.Data.List.Basic

namespace Echadron.Session

/-! A batch of agent runs. An attempt is known by its number, a task by its place in the list. -/

def INITIAL_LAUNCH_LIMIT : Nat := 5

def RATE_LIMIT_RETRY_BASE_MS : Nat := 3000

def RATE_LIMIT_RETRY_FACTOR : Nat := 2

def RATE_LIMIT_CAPACITY_SHRINK_INTERVAL_MS : Nat := 2000

def RATE_LIMIT_CAPACITY_RECOVERY_INTERVAL_MS : Nat := 3 * 60 * 1000

inductive RunStatus where
  | completed
  | failed
  | aborted
deriving DecidableEq

structure AgentRunResult where
  task : Nat
  agentId : Option String := none
  status : RunStatus
  /-- Whether a run that has not completed was started. -/
  state : Option Bool := none
  /-- The result of a run that has completed, and else its error. -/
  text : String
deriving DecidableEq

/-- How an attempt ends: with a result, limited by the provider, or with an error of its own. -/
inductive AttemptOutcome where
  | ended (status : RunStatus) (agentId : Option String) (state : Option Bool) (text : String)
  | rateLimited (agentId : String) (error : String)
  | error (message : String)
deriving DecidableEq

structure TaskState where
  agentId : Option String := none
  retryAgentId : Option String := none
  retryCount : Nat := 0
  retryReadyAt : Nat := 0
  started : Bool := false
deriving DecidableEq

structure ActiveAttempt where
  number : Nat
  task : Nat
  ready : Bool := false
deriving DecidableEq

/-- How the promise of a batch is settled. -/
inductive Settlement where
  | resolved (results : List AgentRunResult)
  | rejected
deriving DecidableEq

structure AgentRunBatch where
  maxConcurrency : Option Nat
  states : List TaskState
  pending : List Nat
  results : List (Option AgentRunResult)
  active : List ActiveAttempt := []
  /-- The next attempt's number. -/
  attempts : Nat := 0
  normalLaunchCount : Nat := 0
  normalLaunchTimer : Bool := false
  /-- When the timer of the rate limit is to fire, where it is armed. -/
  rateLimitLaunchTimer : Option Nat := none
  settlements : List Settlement := []
  finished : Bool := false
  started : Bool := false
  aborted : Bool := false
  rateLimitMode : Bool := false
  startedSuccessCount : Nat := 0
  rateLimitCapacity : Nat := 1
  lastRateLimitAt : Option Nat := none
  lastCapacityShrinkAt : Option Nat := none
  lastCapacityRecoveryAt : Option Nat := none
  globalRetryIntervalMs : Nat := RATE_LIMIT_RETRY_BASE_MS
  nextRateLimitLaunchAt : Nat := 0
deriving DecidableEq

namespace AgentRunBatch

def create (tasks : Nat) (maxConcurrency : Option Nat) : AgentRunBatch where
  maxConcurrency := maxConcurrency
  states := List.replicate tasks {}
  pending := List.range tasks
  results := List.replicate tasks none

variable (batch : AgentRunBatch)

def stateOf (task : Nat) : TaskState := batch.states.getD task {}

def isAtConcurrencyLimit : Bool := batch.maxConcurrency.any fun limit => limit ≤ batch.active.length

def isComplete : Bool := batch.results.all Option.isSome

def isOnlyUnfinishedTask (task : Nat) : Bool :=
  batch.results.zipIdx.all fun entry => entry.2 = task ∨ entry.1.isSome

/-- The promise is settled, the first time. -/
def settle (settlement : Settlement) : AgentRunBatch :=
  if batch.finished then batch
  else
    { batch with
      finished := true
      normalLaunchTimer := false
      rateLimitLaunchTimer := none
      active := []
      settlements := batch.settlements ++ [settlement] }

def finish (results : List AgentRunResult) : AgentRunBatch := batch.settle (.resolved results)

/-- What a task comes to that the user interrupts. -/
def cancelled (task : Nat) : AgentRunResult :=
  let state := batch.stateOf task
  if state.started ∨ state.agentId.isSome then
    { task := task, agentId := state.agentId, status := .aborted, state := some true
      text := "The user manually interrupted this subagent batch before this subagent finished." }
  else
    { task := task, status := .aborted, state := some false
      text := "The user manually interrupted this subagent batch before this subagent was started." }

def finishWithUserCancellation : AgentRunBatch :=
  batch.finish (batch.results.zipIdx.map fun entry => entry.1.getD (batch.cancelled entry.2))

/-- The listener to the signal of the batch. -/
def abort (byUser : Bool) : AgentRunBatch :=
  let batch := { batch with aborted := true }
  if byUser then batch.finishWithUserCancellation else batch.settle .rejected

def startAttempt (task : Nat) : AgentRunBatch :=
  if batch.finished ∨ batch.aborted then batch
  else
    { batch with
      active := batch.active ++ [{ number := batch.attempts, task := task }]
      attempts := batch.attempts + 1 }

def launchNormal : AgentRunBatch :=
  match batch.pending with
  | [] => batch
  | task :: pending =>
    let launched := { batch with pending := pending }.startAttempt task
    { launched with normalLaunchCount := launched.normalLaunchCount + 1 }

/-- The loop of `scheduleNormalLaunch`, with the launches left before the limit. -/
def launchBurst : Nat → AgentRunBatch → AgentRunBatch
  | 0, batch => batch
  | left + 1, batch =>
    if batch.pending ≠ [] ∧ batch.rateLimitMode = false ∧ batch.isAtConcurrencyLimit = false then
      launchBurst left batch.launchNormal
    else batch

def scheduleNormalLaunch : AgentRunBatch :=
  let batch := launchBurst (INITIAL_LAUNCH_LIMIT - batch.normalLaunchCount) batch
  if batch.pending = [] ∨ batch.rateLimitMode ∨ batch.normalLaunchTimer ∨ batch.isAtConcurrencyLimit then batch
  else { batch with normalLaunchTimer := true }

/-- None stands for infinity. -/
def nextRateLimitCapacityRecoveryAt : Option Nat :=
  if batch.pending = [] then none
  else batch.lastRateLimitAt.map fun limited =>
    max limited (batch.lastCapacityRecoveryAt.getD 0) + RATE_LIMIT_CAPACITY_RECOVERY_INTERVAL_MS

def recoverRateLimitCapacity (now : Nat) : AgentRunBatch :=
  match batch.nextRateLimitCapacityRecoveryAt with
  | some at' =>
    if at' ≤ now then
      { batch with
        rateLimitCapacity := batch.rateLimitCapacity + 1
        lastCapacityRecoveryAt := some now
        nextRateLimitLaunchAt := min batch.nextRateLimitLaunchAt now }
    else batch
  | none => batch

def scheduleRateLimitWakeup (wakeupAt : Option Nat) (now : Nat) : AgentRunBatch :=
  match wakeupAt with
  | some at' => if at' ≤ now then batch else { batch with rateLimitLaunchTimer := some at' }
  | none => batch

def nextPendingReadyAt : Option Nat := (batch.pending.map fun task => (batch.stateOf task).retryReadyAt).min?

/-- The earlier of two times. -/
def earlier (a b : Option Nat) : Option Nat :=
  match a, b with
  | some a, some b => some (min a b)
  | some a, none => some a
  | none, b => b

def nextAllowedAt : Option Nat := batch.nextPendingReadyAt.map fun ready => max batch.nextRateLimitLaunchAt ready

def scheduleNextRateLimitWakeup (now : Nat) : AgentRunBatch :=
  if batch.pending = [] then batch
  else
    let nextWakeupAt :=
      if batch.rateLimitCapacity ≤ batch.active.length then batch.nextRateLimitCapacityRecoveryAt
      else earlier batch.nextAllowedAt batch.nextRateLimitCapacityRecoveryAt
    batch.scheduleRateLimitWakeup nextWakeupAt now

def launchRateLimited (now : Nat) : AgentRunBatch :=
  match batch.pending.find? fun task => (batch.stateOf task).retryReadyAt ≤ now with
  | none => batch
  | some task =>
    let launched := { batch with pending := batch.pending.erase task }.startAttempt task
    { launched with nextRateLimitLaunchAt := now + launched.globalRetryIntervalMs }.scheduleNextRateLimitWakeup now

def scheduleRateLimitLaunch (now : Nat) : AgentRunBatch :=
  let batch := { batch with rateLimitLaunchTimer := none }
  if batch.pending = [] then batch
  else
    let batch := batch.recoverRateLimitCapacity now
    if batch.rateLimitCapacity ≤ batch.active.length then
      batch.scheduleRateLimitWakeup batch.nextRateLimitCapacityRecoveryAt now
    else
      let nextWakeupAt := earlier batch.nextAllowedAt batch.nextRateLimitCapacityRecoveryAt
      if nextWakeupAt.all fun at' => now < at' then batch.scheduleRateLimitWakeup nextWakeupAt now
      else batch.launchRateLimited now

def schedule (now : Nat) : AgentRunBatch :=
  if batch.finished then batch
  else if batch.isComplete then batch.finish batch.results.reduceOption
  else if batch.aborted then batch
  else if batch.rateLimitMode then batch.scheduleRateLimitLaunch now
  else batch.scheduleNormalLaunch

/-- `retry.createTimeout` without an upper bound and without jitter. -/
def createTimeout (attempt : Nat) : Nat := RATE_LIMIT_RETRY_BASE_MS * RATE_LIMIT_RETRY_FACTOR ^ attempt

def setTask (task : Nat) (state : TaskState) : AgentRunBatch :=
  { batch with states := batch.states.set task state }

def setResult (task : Nat) (result : AgentRunResult) : AgentRunBatch :=
  { batch with results := batch.results.set task (some result) }

def releaseAttempt (attempt : ActiveAttempt) : AgentRunBatch :=
  { batch with active := batch.active.erase attempt }

def shrinkRateLimitCapacity (now : Nat) (force : Bool) : AgentRunBatch :=
  if force = false ∧
      batch.lastCapacityShrinkAt.any fun shrunk => now < shrunk + RATE_LIMIT_CAPACITY_SHRINK_INTERVAL_MS then
    batch
  else
    { batch with
      rateLimitCapacity := max 1 (batch.rateLimitCapacity - 1)
      lastCapacityShrinkAt := some now }

def enterRateLimitMode (now : Nat) : AgentRunBatch :=
  if batch.rateLimitMode then batch.shrinkRateLimitCapacity now false
  else
    { batch with
      rateLimitMode := true
      normalLaunchTimer := false
      rateLimitCapacity := max 1 batch.startedSuccessCount
      nextRateLimitLaunchAt := max batch.nextRateLimitLaunchAt (now + RATE_LIMIT_RETRY_BASE_MS)
      }.shrinkRateLimitCapacity now true

/-- The next launch is put off, further where the attempt was limited before it was ready. -/
def delayRateLimitLaunch (ready : Bool) (retryDelay now : Nat) : AgentRunBatch :=
  if ready then
    { batch with
      nextRateLimitLaunchAt := max batch.nextRateLimitLaunchAt (now + RATE_LIMIT_RETRY_BASE_MS) }
  else
    let interval := max (batch.globalRetryIntervalMs * 2) retryDelay
    { batch with
      globalRetryIntervalMs := interval
      nextRateLimitLaunchAt := max batch.nextRateLimitLaunchAt (now + interval) }

section

variable (attempt : ActiveAttempt)

def requeueRateLimited (agentId : String) (now : Nat) : AgentRunBatch :=
  let state := batch.stateOf attempt.task
  let retryDelay := createTimeout state.retryCount
  let limited :=
    { batch.setTask attempt.task
        { state with
          agentId := some agentId
          retryAgentId := some agentId
          retryCount := state.retryCount + 1
          retryReadyAt := now + retryDelay } with
      lastRateLimitAt := some now
      pending := attempt.task :: batch.pending }
  (limited.enterRateLimitMode now).delayRateLimitLaunch attempt.ready retryDelay now

def settleAttempt (outcome : AttemptOutcome) (now : Nat) : AgentRunBatch :=
  let task := attempt.task
  match outcome with
  | .ended status agentId state text =>
    batch.setResult task { task := task, agentId := agentId, status := status, state := state, text := text }
  | .rateLimited agentId error =>
    if batch.isOnlyUnfinishedTask task then
      batch.setResult task
        { task := task, agentId := some agentId, status := .failed, state := some true, text := error }
    else batch.requeueRateLimited attempt agentId now
  | .error message =>
    batch.setResult task
      { task := task, agentId := (batch.stateOf task).agentId, status := .failed, text := message }

def handleAttemptOutcome (outcome : AttemptOutcome) (now : Nat) : AgentRunBatch :=
  if attempt ∈ batch.active then
    let batch := batch.releaseAttempt attempt
    if batch.finished then batch else (batch.settleAttempt attempt outcome now).schedule now
  else batch

def handleLaunched (agentId : String) : AgentRunBatch :=
  batch.setTask attempt.task { batch.stateOf attempt.task with agentId := some agentId }

def markReady : AgentRunBatch :=
  { batch.setTask attempt.task { batch.stateOf attempt.task with started := true } with
    active := batch.active.map fun other => if other = attempt then { attempt with ready := true } else other }

end

/-- The delay between the launches of a limited batch is as at first. -/
def restartRetryInterval (now : Nat) : AgentRunBatch :=
  { batch with
    globalRetryIntervalMs := RATE_LIMIT_RETRY_BASE_MS
    nextRateLimitLaunchAt := now + RATE_LIMIT_RETRY_BASE_MS }

def markAttemptReady (attempt : ActiveAttempt) (now : Nat) : AgentRunBatch :=
  if batch.finished ∨ attempt.ready ∨ attempt ∉ batch.active then batch
  else if batch.rateLimitMode then ((batch.markReady attempt).restartRetryInterval now).schedule now
  else { batch.markReady attempt with startedSuccessCount := batch.startedSuccessCount + 1 }

/-- What the timer of `scheduleNormalLaunch` calls. -/
def fireNormalLaunchTimer (now : Nat) : AgentRunBatch :=
  let batch := { batch with normalLaunchTimer := false }
  if batch.finished ∨ batch.rateLimitMode ∨ batch.pending = [] ∨ batch.isAtConcurrencyLimit then batch
  else batch.launchNormal.schedule now

/-- What the timer of `scheduleRateLimitWakeup` calls. -/
def fireRateLimitLaunchTimer (now : Nat) : AgentRunBatch :=
  { batch with rateLimitLaunchTimer := none }.schedule now

def run (abortedByUser : Option Bool) (now : Nat) : AgentRunBatch :=
  let batch := { batch with started := true }
  if batch.states = [] then batch.finish []
  else
    match abortedByUser with
    | some byUser => batch.abort byUser
    | none => batch.schedule now

end AgentRunBatch

/-- An attempt is named by its number, and each event comes at a time of its own. -/
inductive BatchEvent where
  | run (abortedByUser : Option Bool) (now : Nat)
  | launched (attempt : Nat) (agentId : String)
  | ready (attempt now : Nat)
  | outcome (attempt : Nat) (outcome : AttemptOutcome) (now : Nat)
  | normalLaunchTimer (now : Nat)
  | rateLimitLaunchTimer (now : Nat)
  | aborted (byUser : Bool)
deriving DecidableEq

namespace AgentRunBatch
variable (batch : AgentRunBatch)

def attemptOf (number : Nat) : Option ActiveAttempt := batch.active.find? fun attempt => attempt.number = number

/-- One callback. A timer fires only while it is armed, a batch runs once, and the listener to its
signal is there from then on until it has finished. -/
def step : BatchEvent → Option AgentRunBatch
  | .run abortedByUser now => if batch.started then none else some (batch.run abortedByUser now)
  | .launched number agentId =>
    match batch.attemptOf number with
    | some attempt => some (batch.handleLaunched attempt agentId)
    | none => some batch
  | .ready number now =>
    match batch.attemptOf number with
    | some attempt => some (batch.markAttemptReady attempt now)
    | none => some batch
  | .outcome number outcome now =>
    match batch.attemptOf number with
    | some attempt => some (batch.handleAttemptOutcome attempt outcome now)
    | none => some batch
  | .normalLaunchTimer now => if batch.normalLaunchTimer then some (batch.fireNormalLaunchTimer now) else none
  | .rateLimitLaunchTimer now =>
    if batch.rateLimitLaunchTimer.isSome then some (batch.fireRateLimitLaunchTimer now) else none
  | .aborted byUser => if batch.started ∧ batch.finished = false then some (batch.abort byUser) else none

end AgentRunBatch

end Echadron.Session
