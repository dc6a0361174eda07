import Echadron.Agent.ContextOps

namespace Echadron.Agent
open Lib

/-- An entry of the transcript. The code keeps the entries of open steps by reference; `stepRef`
tells such an entry from all others. -/
structure MutableEntry where
  stepRef : Option Nat := none
  message : ContextMessage
  time : Option Nat

structure ContextTranscriptReducer where
  transcript : List MutableEntry := []
  foldedLength : Nat := 0
  clearFloor : Nat := 0
  openSteps : JsMap String Nat := .empty
  pendingToolResultIds : JsSet String := .empty
  deferred : List MutableEntry := []
  lastOpenStepUuid : Option String := none
  nextRef : Nat := 0

def toMutableMessage (message : ContextMessage) : ContextMessage :=
  { id := message.id
    role := message.role
    content := message.content
    toolCalls := message.toolCalls
    toolCallId := message.toolCallId
    isError := message.isError
    origin := message.origin }

def toMutableEntry (message : ContextMessage) (time : Option Nat) : MutableEntry :=
  { message := toMutableMessage message, time := time }

def interruptedEntry (time : Option Nat) (toolCallId : String) : MutableEntry :=
  { message :=
      { role := .tool
        content := [.text toolInterruptedOnResumeOutput]
        toolCallId := some toolCallId
        isError := some true }
    time := time }

def toolResultEntry (toolCallId : String) (result : LoopToolResult) (time : Option Nat) : MutableEntry :=
  { message :=
      { role := .tool
        content := outputParts result.output
        toolCallId := some toolCallId
        isError := result.isError }
    time := time }

def readCompactionSummaryText (payload : CompactionPayload) : String :=
  match payload.summary, payload.contextSummary with
  | some (.inl summary), _ => summary
  | _, some contextSummary => contextSummary
  | some (.inr message), none => extractText message.content
  | none, none => ""

/-- The length of the history that a compaction leaves, told from its record. -/
def recoverFoldedLength (payload : CompactionPayload) (transcript : List MutableEntry)
    (clearFloor foldedLength : Nat) : Nat :=
  let selectKept : Nat :=
    (selectRecentUserMessages
      (collectCompactableUserMessages ((transcript.drop clearFloor).map MutableEntry.message))
      compactUserMessageMaxTokens).length + 1
  match payload.keptUserMessageCount with
  | some kept => kept + if payload.keptHeadUserMessageCount.isNone then 1 else 2
  | none =>
    match payload.compactedCount with
    | some compacted => if compacted < foldedLength then 1 + (foldedLength - compacted) else selectKept
    | none => selectKept

namespace ContextTranscriptReducer

section

variable (t : ContextTranscriptReducer)

def push (entries : List MutableEntry) : ContextTranscriptReducer :=
  { t with
    transcript := t.transcript ++ entries
    foldedLength := t.foldedLength + entries.length }

def flushDeferredIfToolExchangeClosed : ContextTranscriptReducer :=
  if t.pendingToolResultIds.size > 0 ∨ t.deferred.length = 0 then t
  else { t.push t.deferred with deferred := [] }

def closePendingToolResults (time : Option Nat) : ContextTranscriptReducer :=
  if t.pendingToolResultIds.size = 0 then t
  else
    flushDeferredIfToolExchangeClosed
      { t.push (t.pendingToolResultIds.keys.map (interruptedEntry time)) with
        pendingToolResultIds := .empty }

def resetOpenState : ContextTranscriptReducer :=
  { t with
    openSteps := .empty
    pendingToolResultIds := .empty
    deferred := []
    lastOpenStepUuid := none }

end

def isStepEntry (ref : Nat) (entry : MutableEntry) : Bool := decide (entry.stepRef = some ref)

section

variable (t : ContextTranscriptReducer)

def settleStep (uuid : String) : ContextTranscriptReducer :=
  match t.openSteps.get uuid with
  | none => t
  | some ref =>
    let t := { t with openSteps := t.openSteps.delete uuid }
    match t.transcript.find? (isStepEntry ref) with
    | none => t
    | some entry =>
      if isVacuousStep entry.message then
        { t with
          transcript := t.transcript.eraseP (isStepEntry ref)
          foldedLength := t.foldedLength - 1 }
      else t

def updateStep (ref : Nat) (update : ContextMessage → ContextMessage) : ContextTranscriptReducer :=
  { t with
    transcript := t.transcript.map fun entry =>
      if isStepEntry ref entry then { entry with message := update entry.message } else entry }

def settleLast : ContextTranscriptReducer :=
  match t.lastOpenStepUuid with
  | none => t
  | some uuid => t.settleStep uuid

def beginStep (uuid : String) (time : Option Nat) : ContextTranscriptReducer :=
  { t.push [{ stepRef := some t.nextRef, message := { role := .assistant, content := [] },
              time := time }] with
    openSteps := t.openSteps.set uuid t.nextRef
    lastOpenStepUuid := some uuid
    nextRef := t.nextRef + 1 }

def endStep (uuid : String) : ContextTranscriptReducer :=
  if t.lastOpenStepUuid = some uuid then { t with lastOpenStepUuid := none } else t

def applyLoopEvent (time : Option Nat) : LoopRecordedEvent → ContextTranscriptReducer
  | .stepBegin uuid => (t.closePendingToolResults time).settleLast.beginStep uuid time
  | .stepEnd uuid => ((t.settleStep uuid).endStep uuid).flushDeferredIfToolExchangeClosed
  | .contentPart stepUuid part =>
    match t.openSteps.get stepUuid with
    | none => t
    | some ref => t.updateStep ref (pushContent part)
  | .toolCall stepUuid toolCallId name args extras =>
    match t.openSteps.get stepUuid with
    | none => t
    | some ref =>
      { t.updateStep ref (pushCall (recordedToolCall toolCallId name args extras)) with
        pendingToolResultIds := t.pendingToolResultIds.set toolCallId () }
  | .toolResult toolCallId result =>
    if t.pendingToolResultIds.has toolCallId then
      flushDeferredIfToolExchangeClosed
        { t.push [toolResultEntry toolCallId result time] with
          pendingToolResultIds := t.pendingToolResultIds.delete toolCallId }
    else t

end

/-- The loop of `applyUndo` from the end of the entries above the floor, given in reverse; `after`
holds the entries already passed over. -/
def undoEntries (count removedUserCount : Nat) (after : List MutableEntry) : List MutableEntry → List MutableEntry
  | [] => after
  | entry :: before =>
    if isInjection entry.message then undoEntries count removedUserCount (entry :: after) before
    else if isCompactionSummaryMessage entry.message then (entry :: before).reverse ++ after
    else if isUndoAnchor entry.message then
      if removedUserCount + 1 ≥ count then
        (before.dropWhile fun e => isPromptOwnedInjection e.message entry.message).reverse ++ after
      else undoEntries count (removedUserCount + 1) after before
    else undoEntries count removedUserCount after before

section

variable (t : ContextTranscriptReducer)

def applyUndo (count : Nat) : ContextTranscriptReducer :=
  if count = 0 then t
  else
    let kept := undoEntries count 0 [] (t.transcript.drop t.clearFloor).reverse
    let removed := (t.transcript.drop t.clearFloor).length - kept.length
    resetOpenState
      { t with
        transcript := t.transcript.take t.clearFloor ++ kept
        foldedLength := t.foldedLength - removed }

def applyCompaction (payload : CompactionPayload) (time : Option Nat) : ContextTranscriptReducer :=
  let transcript := t.transcript ++
    [{ message := createCompactionSummaryMessage (readCompactionSummaryText payload), time := time }]
  resetOpenState
    { t with
      transcript := transcript
      foldedLength := recoverFoldedLength payload transcript t.clearFloor t.foldedLength }

def appendMessage (message : ContextMessage) (time : Option Nat) : ContextTranscriptReducer :=
  if t.pendingToolResultIds.size > 0 then
    { t with deferred := t.deferred ++ [toMutableEntry message time] }
  else t.push [toMutableEntry message time]

def add (time : Option Nat) : ContextRecord → ContextTranscriptReducer
  | .appendMessage message => t.appendMessage message time
  | .appendLoopEvent event => t.applyLoopEvent time event
  | .applyCompaction payload => t.applyCompaction payload time
  | .undo count => t.applyUndo count
  | .clear => resetOpenState { t with clearFloor := t.transcript.length, foldedLength := 0 }
  | .swarmModeExit => t

end

end ContextTranscriptReducer

end Echadron.Agent
