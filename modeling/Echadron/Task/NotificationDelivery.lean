import Echadron.Agent.ConversationTime
import Echadron.Task.ManagedTask
import Mathlib.Data.Finset.Basic

namespace Echadron.Task
open Lib Agent

/-! How the notifications of finished tasks come into the conversation. -/

def AgentTaskStatus.text : AgentTaskStatus → String
  | .running => "running"
  | .completed => "completed"
  | .failed => "failed"
  | .timedOut => "timed_out"
  | .killed => "killed"
  | .lost => "lost"

/-- The parts that the text of a key is made of. -/
structure NotificationKey where
  taskId : String
  status : String
  notificationId : String
deriving DecidableEq

def taskKey (message : ContextMessage) : Option NotificationKey :=
  match message.origin with
  | some (.task taskId status notificationId) => some ⟨taskId, status, notificationId⟩
  | _ => none

/-- What a notification is built from. -/
structure NotifiableTask where
  taskId : String
  status : AgentTaskStatus := .running
  detached : Bool
  terminalNotificationSuppressed : Bool := false
deriving DecidableEq

def NotifiableTask.notificationId (info : NotifiableTask) : String :=
  "task:" ++ info.taskId ++ ":" ++ info.status.text

def NotifiableTask.key (info : NotifiableTask) : NotificationKey :=
  ⟨info.taskId, info.status.text, info.notificationId⟩

def notificationMessage (info : NotifiableTask) (text : String) : ContextMessage :=
  { role := .user
    content := [.text text]
    origin := some (.task info.taskId info.status.text info.notificationId) }

/-- The reducer of the checkpointed delivery model. -/
def onAppendMessage (current : List NotificationKey) (message : ContextMessage) : List NotificationKey :=
  match taskKey message with
  | none => current
  | some key => if key ∈ current then current else current ++ [key]

/-- A message that another part of the agent appends. -/
structure OtherMessage where
  message : ContextMessage
  taskKey : taskKey message = none
  ordinary : Ordinary message
  summary : isCompactionSummaryMessage message = false

/-- A task of the registry, or one that was restored; the effects of its end are fired once. -/
structure TaskEntry where
  info : NotifiableTask
  fired : Bool := false
  ghost : Bool := false
deriving DecidableEq

inductive BuildKind where
  | notify
  | restore
deriving DecidableEq

/-- A notification is built while its output is read, and then waits for its caller to go on. -/
inductive BuildPhase where
  | reading
  | built (text : String)
  | gone
deriving DecidableEq

structure Build where
  info : NotifiableTask
  kind : BuildKind
  phase : BuildPhase := .reading
deriving DecidableEq

inductive StepRequestState where
  | pending
  | materialized
  | aborted
deriving DecidableEq

structure TaskNotificationStepRequest where
  info : NotifiableTask
  text : String
  state : StepRequestState := .pending
deriving DecidableEq

/-- A pass over the finished tasks waits for its turn, or has tasks left. -/
inductive RestorePass where
  | waiting
  | running (remaining : List NotifiableTask)
deriving DecidableEq

/-- An undo has cut the history, or has reconciled the deliveries and waits for its pass. -/
inductive UndoPhase where
  | cut
  | restoring
deriving DecidableEq

/-- Requests and builds are known by their places in the lists. -/
structure NotificationService where
  conversation : Conversation (List NotificationKey) := { model := { current := [] } }
  tasks : List TaskEntry := []
  builds : List Build := []
  requests : List TaskNotificationStepRequest := []
  scheduledNotificationKeys : Finset NotificationKey := ∅
  deliveredNotificationKeys : Finset NotificationKey := ∅
  pendingNotificationRequests : JsMap NotificationKey Nat := .empty
  notificationRestoreQueue : List RestorePass := []
  undoing : Option UndoPhase := none
  /-- The keys whose last request was aborted or refused. -/
  dropped : Finset NotificationKey := ∅

namespace NotificationService

section

variable (s : NotificationService)

/-- The history, with what waits behind an open exchange. -/
def recorded : List ContextMessage := s.conversation.context.recorded

def buildingNotificationKeys : List NotificationKey :=
  (s.builds.filter fun b => b.phase = .reading).map fun b => b.info.key

def hasDeliveredNotification (key : NotificationKey) : Bool :=
  s.conversation.context.messages.any fun message => taskKey message = some key

def isTerminalNotificationSuppressed (taskId : String) : Bool :=
  s.tasks.any fun t => t.info.taskId = taskId ∧ t.info.terminalNotificationSuppressed = true

def markDeliveredNotification (key : NotificationKey) : NotificationService :=
  { s with
    scheduledNotificationKeys := s.scheduledNotificationKeys.erase key
    pendingNotificationRequests := s.pendingNotificationRequests.delete key
    deliveredNotificationKeys := insert key s.deliveredNotificationKeys }

def clearPendingNotification (key : NotificationKey) (request : Nat) : NotificationService :=
  if s.pendingNotificationRequests.get key ≠ some request then s
  else
    { s with
      pendingNotificationRequests := s.pendingNotificationRequests.delete key
      scheduledNotificationKeys :=
        if key ∉ s.deliveredNotificationKeys ∧ s.hasDeliveredNotification key = false then
          s.scheduledNotificationKeys.erase key
        else s.scheduledNotificationKeys }

/-- `context.append`, and what the splice it publishes does. -/
def append (message : ContextMessage) : NotificationService :=
  let appended :=
    { s with
      conversation :=
        { context := foldAppendMessage s.conversation.context message
          model := s.conversation.model.reduce (some onAppendMessage) (.appendMessage message) } }
  match taskKey message with
  | none => appended
  | some key => appended.markDeliveredNotification key

/-- What `buildAgentTaskNotificationContext` does before it reads the output. -/
def startBuild (info : NotifiableTask) (kind : BuildKind) : NotificationService :=
  if info.detached = false ∨ info.terminalNotificationSuppressed = true ∨
      info.key ∈ s.buildingNotificationKeys ∨ info.key ∈ s.scheduledNotificationKeys ∨
      info.key ∈ s.deliveredNotificationKeys ∨ s.hasDeliveredNotification info.key = true then s
  else { s with builds := s.builds ++ [({ info := info, kind := kind } : Build)] }

def setBuild (n : Nat) (b : Build) : NotificationService := { s with builds := s.builds.set n b }

def setRequest (n : Nat) (r : TaskNotificationStepRequest) : NotificationService :=
  { s with requests := s.requests.set n r }

section

variable (n : Nat) (b : Build) (text : String)

/-- What it does with the output. -/
def finishBuild : NotificationService :=
  if s.isTerminalNotificationSuppressed b.info.taskId = true ∨ b.info.key ∈ s.scheduledNotificationKeys ∨
      b.info.key ∈ s.deliveredNotificationKeys ∨ s.hasDeliveredNotification b.info.key = true then
    s.setBuild n { b with phase := .gone }
  else
    { s.setBuild n { b with phase := .built text } with
      scheduledNotificationKeys := insert b.info.key s.scheduledNotificationKeys }

/-- The end of `notifyAgentTask` and of `restoreAgentTaskNotification`. -/
def deliver : NotificationService :=
  match b.kind with
  | .notify =>
    { s.setBuild n { b with phase := .gone } with
      requests := s.requests ++ [({ info := b.info, text := text } : TaskNotificationStepRequest)]
      pendingNotificationRequests := s.pendingNotificationRequests.set b.info.key s.requests.length
      dropped := s.dropped.erase b.info.key }
  | .restore =>
    { (s.setBuild n { b with phase := .gone }).append (notificationMessage b.info text) with
      dropped := s.dropped.erase b.info.key }

/-- The loop throws on the request of `notifyAgentTask`. -/
def refuse : NotificationService :=
  let pending :=
    { s.setBuild n { b with phase := .gone } with
      requests := s.requests ++
        [({ info := b.info, text := text, state := .aborted } : TaskNotificationStepRequest)]
      pendingNotificationRequests := s.pendingNotificationRequests.set b.info.key s.requests.length
      dropped := insert b.info.key s.dropped }
  pending.clearPendingNotification b.info.key s.requests.length

end

def clearAborted : NotificationService :=
  s.pendingNotificationRequests.entries.foldl (fun s e =>
    if (s.requests[e.2]?.any fun r => r.state = .aborted) then s.clearPendingNotification e.1 e.2 else s) s

/-- `reconcileNotificationDeliveryAfterUndo`, up to the pass that it waits for. -/
def reconcile : NotificationService :=
  let restoredKeys := s.conversation.model.current
  let cleared := s.clearAborted
  { cleared with
    deliveredNotificationKeys := restoredKeys.toFinset
    scheduledNotificationKeys := cleared.scheduledNotificationKeys.filter fun key =>
      ¬(key ∈ restoredKeys ∨ cleared.pendingNotificationRequests.has key = false)
    notificationRestoreQueue := s.notificationRestoreQueue ++ [.waiting] }

/-- The tasks that a pass goes through: those of the registry, then the restored ones. -/
def finished : List NotifiableTask :=
  ((s.tasks.filter (fun t => !t.ghost) ++ s.tasks.filter TaskEntry.ghost).map TaskEntry.info).filter fun info =>
    isAgentTaskTerminal info.status ∧ info.detached = true

end

/-- Tasks are registered, detached, suppressed, settled and their effects fired; the output of a
notification is read, and it is handed on or refused; the loop materializes or aborts a request, and
answers; others append; the conversation is undone in steps; passes go on; and the agent restarts. -/
inductive Event where
  | registered (taskId : String) (detached : Bool)
  | detached (taskId : String)
  | suppressed (taskId : String)
  | settled (taskId : String) (status : AgentTaskSettlementStatus)
  | fired (taskId : String)
  | output (n : Nat) (text : String)
  | delivered (n : Nat)
  | refused (n : Nat)
  | materialized (n : Nat)
  | aborted (n : Nat)
  | answered (n : Nat) (rejected : Bool)
  | appended (message : OtherMessage)
  | loopEvent (event : LoopRecordedEvent)
  | undo (count : Nat)
  | flushFailed
  | reconciled
  | undone
  | passStarted
  | passNext
  | passEnded
  | restart (ghosts : List NotifiableTask)

section

variable (s : NotificationService)

def updateTask (taskId : String) (f : TaskEntry → TaskEntry) : NotificationService :=
  { s with tasks := s.tasks.map fun t => if t.info.taskId = taskId then f t else t }

/-- Whether a notification of a pass is being built. -/
def restoring : Bool := s.builds.any fun b => b.kind = .restore ∧ b.phase ≠ .gone

/-- What waits behind an open exchange. -/
def deferred : List ContextMessage := s.conversation.context.ctx.deferred

def step : Event → Option NotificationService
  | .registered taskId detached =>
    if taskId ∈ s.tasks.map (fun t => t.info.taskId) then none
    else some { s with tasks := s.tasks ++ [({ info := { taskId := taskId, detached := detached } } : TaskEntry)] }
  | .detached taskId =>
    some (s.updateTask taskId fun t =>
      if isAgentTaskTerminal t.info.status then t else { t with info := { t.info with detached := true } })
  | .suppressed taskId =>
    some (s.updateTask taskId fun t =>
      if t.ghost then t else { t with info := { t.info with terminalNotificationSuppressed := true } })
  | .settled taskId status =>
    some (s.updateTask taskId fun t =>
      if isAgentTaskTerminal t.info.status then t
      else { t with info := { t.info with status := status.toStatus } })
  | .fired taskId =>
    (s.tasks.find? fun t => t.info.taskId = taskId).bind fun t =>
      if isAgentTaskTerminal t.info.status = false ∨ t.fired = true then none
      else some ((s.updateTask taskId fun t => { t with fired := true }).startBuild t.info .notify)
  | .output n text =>
    s.builds[n]?.bind fun b => if b.phase = .reading then some (s.finishBuild n b text) else none
  | .delivered n =>
    s.builds[n]?.bind fun b =>
      match b.phase with
      | .built text => some (s.deliver n b text)
      | _ => none
  | .refused n =>
    s.builds[n]?.bind fun b =>
      match b.phase with
      | .built text => if b.kind = .notify then some (s.refuse n b text) else none
      | _ => none
  | .materialized n =>
    s.requests[n]?.bind fun r =>
      if r.state = .pending ∧ s.undoing = none then
        some ((s.setRequest n { r with state := .materialized }).append (notificationMessage r.info r.text))
      else none
  | .aborted n =>
    s.requests[n]?.bind fun r =>
      if r.state = .pending then
        some { s.setRequest n { r with state := .aborted } with dropped := insert r.info.key s.dropped }
      else none
  | .answered n rejected =>
    s.requests[n]?.bind fun r =>
      if r.state = .pending then none
      else if rejected = true ∨ r.state = .aborted then some (s.clearPendingNotification r.info.key n)
      else some s
  | .appended message => some (s.append message.message)
  | .loopEvent event =>
    if s.undoing = none then
      some { s with
        conversation :=
          { context := foldLoopEvent s.conversation.context event
            model := s.conversation.model.reduce (some onAppendMessage) (.appendLoopEvent event) } }
    else none
  | .undo count =>
    if s.undoing = none ∧ (∀ r ∈ s.requests, r.state ≠ .pending) ∧ isValidUndoCount count = true ∧
        isFullyUndoable (computeUndoCut s.conversation.context.messages count) count = true ∧
        count ≤ s.conversation.model.checkpoints.length then
      some { s with
        conversation :=
          { context := contextUndo s.conversation.context count
            model := s.conversation.model.reduce (some onAppendMessage) (.undo count) }
        undoing := some .cut }
    else none
  | .flushFailed => if s.undoing = some .cut then some { s with undoing := none } else none
  | .reconciled => if s.undoing = some .cut then some { s.reconcile with undoing := some .restoring } else none
  | .undone =>
    if s.undoing = some .restoring ∧ s.notificationRestoreQueue = [] then some { s with undoing := none }
    else none
  | .passStarted =>
    match s.notificationRestoreQueue with
    | .waiting :: passes => some { s with notificationRestoreQueue := .running s.finished :: passes }
    | _ => none
  | .passNext =>
    match s.notificationRestoreQueue with
    | .running (info :: remaining) :: passes =>
      if s.restoring then none
      else some ({ s with
        notificationRestoreQueue := .running remaining :: passes }.startBuild info .restore)
    | _ => none
  | .passEnded =>
    match s.notificationRestoreQueue with
    | .running [] :: passes => if s.restoring then none else some { s with notificationRestoreQueue := passes }
    | _ => none
  | .restart ghosts =>
    if (ghosts.map NotifiableTask.taskId).Nodup ∧ ∀ info ∈ ghosts, isAgentTaskTerminal info.status = true then
      some {
        conversation := s.conversation
        tasks := ghosts.map fun info => { info := info, fired := true, ghost := true }
        deliveredNotificationKeys := s.conversation.model.current.toFinset
        notificationRestoreQueue := [.waiting] }
    else none

def run (events : List Event) : Option NotificationService := events.foldlM step s

end

end NotificationService

end Echadron.Task
