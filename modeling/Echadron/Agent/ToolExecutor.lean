import Echadron.Agent.ToolResult
import Echadron.Agent.Message
import Echadron.Agent.ToolAccesses
import Echadron.Lib.Runs

namespace Echadron.Agent
open Lib

/-! `execute`: the calls of a step are prepared one after another, then their tasks run together, and each result
is finalized and yielded. -/

structure ExecutableTool where
  validate : JsValue → Option String

/-- What preflight asks: the JSON reader, the registry, and what others have registered with the executor. -/
structure Preflight where
  parse : String → Option JsValue
  resolve : String → Option ExecutableTool
  source : String → Option String
  toolCallGuard : Option (String → String → Option String) := none
  unavailableToolDescriber : Option (String → Option String) := none
  missingToolDescriber : Option (String → Option String) := none

structure RunnableToolCall where
  toolCall : ToolCall
  args : JsValue

inductive PreflightedToolCall where
  | runnable (call : RunnableToolCall)
  | rejected (toolCall : ToolCall) (args : JsValue) (output : String)

def PreflightedToolCall.toolCall : PreflightedToolCall → ToolCall
  | .runnable call => call.toolCall
  | .rejected toolCall _ _ => toolCall

def PreflightedToolCall.id (call : PreflightedToolCall) : String := call.toolCall.id

def parseToolCallArguments (parse : String → Option JsValue) : Option String → JsValue
  | none => .obj []
  | some raw => if raw = "" then .obj [] else (parse raw).getD (.obj [])

def preflightToolCall (pre : Preflight) (toolCall : ToolCall) : PreflightedToolCall :=
  let toolName := toolCall.name
  let args := parseToolCallArguments pre.parse toolCall.arguments
  match pre.resolve toolName with
  | none =>
    let described := pre.missingToolDescriber.bind fun describe => describe toolName
    .rejected toolCall args (described.getD s!"Tool \"{toolName}\" not found")
  | some tool =>
    match pre.toolCallGuard.bind fun guard => guard toolName ((pre.source toolName).getD "builtin") with
    | some denied => .rejected toolCall args denied
    | none =>
      match pre.unavailableToolDescriber.bind fun describe => describe toolName with
      | some unavailable => .rejected toolCall args unavailable
      | none =>
        match tool.validate args with
        | some error => .rejected toolCall args s!"Invalid args for tool \"{toolName}\": {error}"
        | none => .runnable { toolCall, args }

structure RunnableToolExecution where
  accesses : Option ToolAccesses := none
  stopBatchAfterThis : Option Bool := none

inductive ToolTask where
  | resolved (result : ToolResult)
  | run (execution : RunnableToolExecution)

def ToolTask.isRun : ToolTask → Bool
  | .resolved _ => false
  | .run _ => true

def ToolTask.accesses : ToolTask → ToolAccesses
  | .resolved _ => ToolAccesses.none
  | .run execution => execution.accesses.getD ToolAccesses.all

/-- How far a task has come. -/
inductive TaskProgress where
  | queued
  | running
  | settled (result : ToolResult)
  | finalized (result : ToolResult)
  | yielded

def TaskProgress.isQueued : TaskProgress → Bool
  | .queued => true
  | _ => false

def TaskProgress.isRunning : TaskProgress → Bool
  | .running => true
  | _ => false

structure PreparedCall where
  call : PreflightedToolCall
  task : ToolTask
  stopBatchAfterThis : Bool
  progress : TaskProgress := .queued

def PreparedCall.id (p : PreparedCall) : String := p.call.id

def PreparedCall.toolName (p : PreparedCall) : String := p.call.toolCall.name

def PreparedCall.moveTo (p : PreparedCall) (toolCallId : String) (progress : TaskProgress) : PreparedCall :=
  if p.id = toolCallId then { p with progress } else p

/-- What the preparation of a call waits for. -/
inductive PrepareStage where
  | idle
  | resolving (call : RunnableToolCall)
  | adjudicating (call : RunnableToolCall) (execution : RunnableToolExecution)
  | readying (call : RunnableToolCall) (execution : RunnableToolExecution)

def PrepareStage.calls : PrepareStage → List PreflightedToolCall
  | .idle => []
  | .resolving call | .adjudicating call _ | .readying call _ => [.runnable call]

inductive ExecutorRecord where
  | announced (toolCallId : String)
  | vetoed (toolCallId : String)
  | aborted
  | executed (toolCallId : String)
  | yielded (toolCallId : String) (result : ToolResult)

/-- A run of `execute` with the history of what it did. `failed` is that it has thrown. -/
structure ToolExecutor where
  waiting : List PreflightedToolCall
  stage : PrepareStage := .idle
  stopBatch : Bool := false
  aborted : Option Bool := none
  prepared : List PreparedCall := []
  failed : Bool := false
  trace : List ExecutorRecord := []

inductive ExecutorEvent where
  | abort (byUser : Bool)
  | prepare
  | resolverThrows (error : Thrown)
  | resolvesError (result : JsValue)
  | resolves (execution : RunnableToolExecution)
  | vetoes (result : JsValue)
  | allows
  | ready
  | start (toolCallId : String)
  | returns (toolCallId : String) (value : JsValue)
  | throws (toolCallId : String) (error : Thrown)
  | grace (toolCallId : String)
  | hookPasses (toolCallId : String) (replaced : Option JsValue) (stopTurn : Bool)
  | hookThrows (toolCallId : String) (error : Thrown)
  | yields (toolCallId : String)

/-- The parts of the world that a run leaves as they are. -/
structure ExecutorWorld where
  rt : Runtime
  toLowerCase : String → String
  truncateForModel : (toolName toolCallId : String) → ToolResult → ToolResult

def normalizeAndMergeResult (rt : Runtime) (value : JsValue) (toolName : String) : Option ToolResult :=
  normalizeToolResult rt (coerceToolResult rt value toolName)

/-- The error text of an attempt that threw, or nothing where making the text throws again. -/
def failureOutput (error : Thrown) (aborted : Option Bool) (ifAborted : Bool → String) (ifFailed : String → String) :
    Option String :=
  if error.isAbort || aborted.isSome then some (ifAborted (aborted.getD false)) else error.message.map ifFailed

variable (w : ExecutorWorld)

namespace ToolExecutor

def start (pre : Preflight) (calls : List ToolCall) : ToolExecutor := { waiting := calls.map (preflightToolCall pre) }

section

variable (s : ToolExecutor)

def fail : ToolExecutor := { s with failed := true }

def record (r : ExecutorRecord) : ToolExecutor := { s with trace := s.trace ++ [r] }

section

variable (call : PreflightedToolCall)

def settle (task : ToolTask) (stopBatchAfterThis : Bool) : ToolExecutor :=
  { s with
    stage := .idle
    stopBatch := s.stopBatch || stopBatchAfterThis
    prepared := s.prepared ++ [{ call, task, stopBatchAfterThis }]
    trace := s.trace ++ [.announced call.id] }

def settleError (output : String) : ToolExecutor := s.settle call (.resolved (makeErrorToolResult output)) false

def settleSynthetic (value : JsValue) : ToolExecutor :=
  match normalizeAndMergeResult w.rt value call.toolCall.name with
  | none => s.fail
  | some result => s.settle call (.resolved result) result.stopTurn

def prepare (rest : List PreflightedToolCall) : ToolExecutor :=
  if s.stopBatch then
    { s with waiting := rest }.settleError call "Tool skipped because a previous tool call stopped the turn."
  else
    match call with
    | .rejected _ _ output => { s with waiting := rest }.settleError call output
    | .runnable runnable => { s with waiting := rest, stage := .resolving runnable }

end

def resolverThrows (call : RunnableToolCall) (error : Thrown) : ToolExecutor :=
  match error.message with
  | none => s.fail
  | some message =>
    let output :=
      if error.isPathSecurity then message
      else s!"Tool \"{call.toolCall.name}\" failed to resolve execution: {message}"
    s.settleError (.runnable call) output

/-- After the abort, what the resolver gives is not looked at. -/
def resolvesError (call : RunnableToolCall) (value : JsValue) : ToolExecutor :=
  match s.aborted with
  | some byUser => s.settleError (.runnable call) (abortedToolOutput call.toolCall.name byUser)
  | none => s.settleSynthetic w (.runnable call) value

def resolves (call : RunnableToolCall) (execution : RunnableToolExecution) : ToolExecutor :=
  match s.aborted with
  | some byUser => s.settleError (.runnable call) (abortedToolOutput call.toolCall.name byUser)
  | none => { s with stage := .adjudicating call execution }

def setProgress (toolCallId : String) (progress : TaskProgress) : ToolExecutor :=
  { s with prepared := s.prepared.map fun p => p.moveTo toolCallId progress }

end

def conflicts (p q : PreparedCall) : Bool := ToolAccesses.conflict w.toLowerCase p.task.accesses q.task.accesses

section

variable (s : ToolExecutor) (p : PreparedCall)

/-- A task waits for the running tasks and for the earlier queued tasks that it conflicts with. -/
def isBlocked : Bool :=
  (s.prepared.any fun q => q.progress.isRunning && conflicts w p q) ||
    (s.prepared.takeWhile fun q => q.id ≠ p.id).any fun q => q.progress.isQueued && conflicts w p q

/-- `runSingleExecution` up to the call of the tool; a task that is settled already has its result at once. -/
def startTask : ToolExecutor :=
  match p.task with
  | .resolved result => s.setProgress p.id (.settled result)
  | .run _ =>
    match s.aborted with
    | some byUser => s.setProgress p.id (.settled (makeErrorToolResult (abortedToolOutput p.toolName byUser)))
    | none => (s.setProgress p.id .running).record (.executed p.id)

def settleTask : Option ToolResult → ToolExecutor
  | none => s.fail
  | some result => s.setProgress p.id (.settled result)

def toolThrows (error : Thrown) : ToolExecutor :=
  let output := failureOutput error s.aborted (abortedToolOutput p.toolName) fun message =>
    s!"Tool \"{p.toolName}\" failed: {message}"
  s.settleTask p (output.map makeErrorToolResult)

def finalizeTask : Option ToolResult → ToolExecutor
  | none => s.fail
  | some result => if trackToolCall w.rt result then s.setProgress p.id (.finalized result) else s.fail

end

/-- The result as the hooks leave it. -/
def handedResult (rt : Runtime) (replaced : Option JsValue) (result : ToolResult) (toolName : String) : ToolResult :=
  match replaced with
  | none => result
  | some value => coerceToolResult rt value toolName

section

variable (s : ToolExecutor)

def hookPasses (p : PreparedCall) (result : ToolResult) (replaced : Option JsValue)
    (stopTurn : Bool) : ToolExecutor :=
  let effective := normalizeToolResult w.rt (handedResult w.rt replaced result p.toolName)
  let final := effective.map fun effective =>
    { effective with stopTurn := result.stopTurn || stopTurn || effective.stopTurn }
  s.finalizeTask w p (final.map (w.truncateForModel p.toolName p.id))

def hookThrows (p : PreparedCall) (error : Thrown) : ToolExecutor :=
  let output := failureOutput error s.aborted
    (fun _ => s!"Tool \"{p.toolName}\" aborted during onDidExecuteTool hook.")
    (fun message => s!"onDidExecuteTool hook failed for \"{p.toolName}\": {message}")
  s.finalizeTask w p (output.map makeErrorToolResult)

def yieldResult (p : PreparedCall) (result : ToolResult) : ToolExecutor :=
  (s.setProgress p.id .yielded).record (.yielded p.id result)

def find (toolCallId : String) : Option PreparedCall := s.prepared.find? fun p => p.id = toolCallId

/-- Every call has its task. -/
def batched : Bool := s.waiting.isEmpty && s.stage.calls.isEmpty

def taskStep (p : PreparedCall) : ExecutorEvent → Option ToolExecutor
  | .start _ => if s.batched && p.progress.isQueued && !s.isBlocked w p then some (s.startTask p) else none
  | .returns _ value =>
    if p.progress.isRunning then some (s.settleTask p (normalizeAndMergeResult w.rt value p.toolName)) else none
  | .throws _ error => if p.progress.isRunning then some (s.toolThrows p error) else none
  | .grace _ =>
    if p.progress.isRunning then
      s.aborted.map fun byUser =>
        s.settleTask p (normalizeToolResult w.rt (makeErrorToolResult (abortedToolOutput p.toolName byUser)))
    else none
  | .hookPasses _ replaced stopTurn =>
    match p.progress with
    | .settled result => some (s.hookPasses w p result replaced stopTurn)
    | _ => none
  | .hookThrows _ error =>
    match p.progress with
    | .settled _ => some (s.hookThrows w p error)
    | _ => none
  | .yields _ =>
    match p.progress with
    | .finalized result => some (s.yieldResult p result)
    | _ => none
  | _ => none

/-- What an event does to the preparation of the calls. -/
def prepareStep : ExecutorEvent → Option ToolExecutor
  | .abort byUser => if s.aborted.isNone then some ({ s with aborted := some byUser }.record .aborted) else none
  | .prepare =>
    match s.stage, s.waiting with
    | .idle, call :: rest => some (s.prepare call rest)
    | _, _ => none
  | .resolverThrows error =>
    match s.stage with
    | .resolving call => some (s.resolverThrows call error)
    | _ => none
  | .resolvesError value =>
    match s.stage with
    | .resolving call => some (s.resolvesError w call value)
    | _ => none
  | .resolves execution =>
    match s.stage with
    | .resolving call => some (s.resolves call execution)
    | _ => none
  | .vetoes value =>
    match s.stage with
    | .adjudicating call _ => some ((s.settleSynthetic w (.runnable call) value).record (.vetoed call.toolCall.id))
    | _ => none
  | .allows =>
    match s.stage with
    | .adjudicating call execution => some { s with stage := .readying call execution }
    | _ => none
  | .ready =>
    match s.stage with
    | .readying call execution =>
      some (s.settle (.runnable call) (.run execution) (execution.stopBatchAfterThis == some true))
    | _ => none
  | _ => none

end

def eventCallId : ExecutorEvent → Option String
  | .start id | .returns id _ | .throws id _ | .grace id | .hookPasses id _ _ | .hookThrows id _ | .yields id => some id
  | _ => none

/-- One step; absent where the event cannot happen. What goes on after a throw is left out. -/
def step (s : ToolExecutor) (e : ExecutorEvent) : Option ToolExecutor :=
  if s.failed then none
  else
    match eventCallId e with
    | none => s.prepareStep w e
    | some id => (s.find id).bind fun p => s.taskStep w p e

def run (pre : Preflight) (calls : List ToolCall) (events : List ExecutorEvent) : Option ToolExecutor :=
  events.foldlM (step w) (start pre calls)

end ToolExecutor

end Echadron.Agent
