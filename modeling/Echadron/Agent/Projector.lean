import Echadron.Lib.JsMap
import Echadron.Agent.Message

namespace Echadron.Agent
open Lib

inductive ProjectionAnomaly where
  | toolResultReordered (toolCallId : String)
  | toolResultSynthesized (toolCallId : String) (trailing : Bool)
  | orphanToolResultDropped (toolCallId : String)
  | duplicateToolCallDropped (toolCallId : String)
  | duplicateToolResultDropped (toolCallId : String)
  | leadingNonUserDropped (role : Role)
  | consecutiveAssistantsMerged
  | whitespaceTextDropped (role : Role)
  | vacuousMessageDropped (role : Role)
deriving DecidableEq

/-- The `REQUEST_INVALID` error that the projection can throw. -/
structure RequestInvalid where
  message : String
  toolCallId : Option String
deriving DecidableEq

def toolInterruptedText : String :=
  "Tool result is not available in the current context. " ++ "Do not assume the tool completed successfully."

def createInterruptedToolResult (toolCallId : String) : Message :=
  { role := .tool, content := [.text toolInterruptedText], toolCallId := some toolCallId }

def toolResultSlot : Message := createInterruptedToolResult ""

def isInterruptedToolResult (message : Option Message) : Bool :=
  match message with
  | some { role := .tool, content := .text text :: _, .. } => decide (text = toolInterruptedText)
  | _ => false

def canMergeUserMessage (message : ContextMessage) : Bool :=
  decide (message.role = .user ∧ message.origin = some .user)

def hasDeclaredTools (message : ContextMessage) : Bool :=
  match message.tools with
  | some tools => decide (tools.length > 0)
  | none => false

def toWireMessage (message : ContextMessage) (content : List ContentPart) : Message :=
  { message.toMessage with content := content }

def outputFromToolContent : List ContentPart → String ⊕ List ContentPart
  | [.text text] => .inl text
  | content => .inr content

def reportBlankText (role : Role) : ContentPart → List ProjectionAnomaly
  | .text text => if text.length > 0 then [.whitespaceTextDropped role] else []
  | _ => []

def cleanContent (source : ContextMessage) (rawContent : List ContentPart) :
    Except RequestInvalid (List ContentPart × List ProjectionAnomaly) :=
  let content := rawContent.filter fun part => !isBlankText part
  let anomalies := (rawContent.filter isBlankText).flatMap (reportBlankText source.role)
  if source.role = .tool ∧ content.length = 0 then
    .error ⟨"Tool result message content cannot be empty after removing empty text blocks.", source.toolCallId⟩
  else .ok (content, anomalies)

def projectedContent (source : ContextMessage) : Except RequestInvalid (List ContentPart × List ProjectionAnomaly) :=
  let content :=
    if source.role = .tool then
      renderToolResultForModel
        { output := outputFromToolContent source.content
          isError := source.isError
          note := source.note }
    else source.content
  cleanContent source content

structure OpenSlot where
  index : Nat
  ownerIndex : Nat
  foreignBetween : Bool
deriving DecidableEq

structure MergeGroup where
  index : Nat
  singleContent : Option (List ContentPart)
  texts : List String
  parts : List ContentPart
deriving DecidableEq

def partText : ContentPart → String
  | .text text => text
  | _ => ""

def isTextPart : ContentPart → Bool
  | .text _ => true
  | _ => false

def appendMergeContent (group : MergeGroup) (content : List ContentPart) : MergeGroup :=
  let text := String.join (content.map partText)
  { group with
    parts := group.parts ++ content.filter fun part => !isTextPart part
    texts := if text.length > 0 then group.texts ++ [text] else group.texts }

/-- The variables that the projection loop mutates. -/
structure Projection where
  out : List Message := []
  openSlots : JsMap String OpenSlot := .empty
  merge : Option MergeGroup := none
  anomalies : List ProjectionAnomaly := []

namespace Projection

section

variable (st : Projection)

def report (anomalies : List ProjectionAnomaly) : Projection := { st with anomalies := st.anomalies ++ anomalies }

def push (message : Message) : Projection := { st with out := st.out ++ [message] }

def flushMerge : Projection :=
  match st.merge with
  | none => st
  | some group =>
    match group.singleContent with
    | some _ => { st with merge := none }
    | none =>
      let text := "\n\n".intercalate group.texts
      let content := (if text = "" then [] else [ContentPart.text text]) ++ group.parts
      { st with
        out := st.out.set group.index { role := .user, content := content }
        merge := none }

def markForeignBetween : Projection :=
  { st with openSlots := st.openSlots.mapValues fun slot => { slot with foreignBetween := true } }

/-- Start a group of user messages, or extend the open one. -/
def mergeUser (source : ContextMessage) (content : List ContentPart) : Projection :=
  match st.merge with
  | none =>
    { st.push (toWireMessage source content) with
      merge := some ⟨st.out.length, some content, [], []⟩ }
  | some group =>
    let group := match group.singleContent with
      | some single => { appendMergeContent group single with singleContent := none }
      | none => group
    { st with merge := some (appendMergeContent group content) }

def emit (source : ContextMessage) : Except RequestInvalid Projection := do
  let (content, anomalies) ← projectedContent source
  let st := st.report anomalies
  let droppable := source.toolCalls.length = 0 ∧ hasDeclaredTools source = false
  if droppable ∧ content.length = 0 then return st
  if droppable ∧ content.all isVacuousContentPart = true then
    return st.report [.vacuousMessageDropped source.role]
  let st := if st.openSlots.size > 0 then st.markForeignBetween else st
  if canMergeUserMessage source then return st.mergeUser source content
  return st.flushMerge.push (toWireMessage source content)

end

/-- Reserve the slot of one tool call, closing an open slot of the same id. -/
def openCall (ownerIndex : Nat) (lastNonToolIndex : Int) (st : Projection) (call : ToolCall) : Projection :=
  let st := match st.openSlots.get call.id with
    | some reopened =>
      { st with out := st.out.set reopened.index (createInterruptedToolResult call.id) }.report
        [.toolResultSynthesized call.id (decide (lastNonToolIndex ≤ reopened.ownerIndex))]
    | none => st
  { st with
    openSlots := st.openSlots.set call.id ⟨st.out.length, ownerIndex, false⟩
    out := st.out ++ [toolResultSlot] }

/-- Move a result into the slot of its call, or drop it as an orphan. -/
def placeResult (st : Projection) (message : ContextMessage) (toolCallId : String) :
    Except RequestInvalid Projection :=
  match st.openSlots.get toolCallId with
  | none =>
    let st := if st.openSlots.size > 0 then st.markForeignBetween else st
    return st.report [.orphanToolResultDropped toolCallId]
  | some slot => do
    let st := { st with openSlots := st.openSlots.delete toolCallId }
    let st := if slot.foreignBetween then st.report [.toolResultReordered toolCallId] else st
    let (content, anomalies) ← projectedContent message
    return { st with out := st.out.set slot.index (toWireMessage message content) }.report anomalies

def step (hasAssistant : Bool) (lastNonToolIndex : Int) (st : Projection)
    (entry : ContextMessage × Nat) : Except RequestInvalid Projection :=
  let (message, index) := entry
  if message.isPartial = some true then return st
  else if message.role = .tool then
    if !hasAssistant then st.emit message
    else match message.toolCallId with
      | none => return st
      | some toolCallId => st.placeResult message toolCallId
  else do
    let st ← st.emit message
    return message.toolCalls.foldl (openCall index lastNonToolIndex) st

/-- A call that never got its result is answered by the interruption notice. -/
def closeSlot (lastNonToolIndex : Int) (st : Projection) (entry : String × OpenSlot) : Projection :=
  { st with out := st.out.set entry.2.index (createInterruptedToolResult entry.1) }.report
    [.toolResultSynthesized entry.1 (decide (lastNonToolIndex ≤ entry.2.ownerIndex))]

def finish (lastNonToolIndex : Int) (st : Projection) : Projection :=
  (st.openSlots.entries.foldl (closeSlot lastNonToolIndex) st).flushMerge

end Projection

/-- The index of the last message that is neither a tool result nor partial, or `-1`. -/
def lastNonToolIndex (history : List ContextMessage) : Int :=
  (history.rdropWhile fun message => decide (message.role = .tool ∨ message.isPartial = some true)).length - 1

def hasAssistant (history : List ContextMessage) : Bool :=
  history.any fun message => decide (message.isPartial ≠ some true ∧ message.role = .assistant)

def project (history : List ContextMessage) : Except RequestInvalid (List Message × List ProjectionAnomaly) := do
  let last := lastNonToolIndex history
  let st ← history.zipIdx.foldlM (Projection.step (hasAssistant history) last) {}
  let st := st.finish last
  return (st.out, st.anomalies)

structure Dedupe where
  seenToolCallIds : JsSet String := .empty
  keptToolResultIndexes : JsMap String Nat := .empty
  out : List Message := []
  anomalies : List ProjectionAnomaly := []

namespace Dedupe

/-- The calls of one message whose ids were not declared before. -/
def freshCalls (st : Dedupe) : List ToolCall → List ToolCall × Dedupe
  | [] => ([], st)
  | call :: calls =>
    if st.seenToolCallIds.has call.id then
      freshCalls { st with anomalies := st.anomalies ++ [.duplicateToolCallDropped call.id] } calls
    else
      let (kept, st) := freshCalls { st with seenToolCallIds := st.seenToolCallIds.set call.id () } calls
      (call :: kept, st)

def push (st : Dedupe) (message : Message) : Dedupe := { st with out := st.out ++ [message] }

def report (st : Dedupe) (anomaly : ProjectionAnomaly) : Dedupe :=
  { st with anomalies := st.anomalies ++ [anomaly] }

def assistant (st : Dedupe) (message : Message) : Dedupe :=
  let (kept, st) := st.freshCalls message.toolCalls
  if kept.length = message.toolCalls.length then st.push message
  else if kept.length > 0 ∨ message.content.all isVacuousContentPart = false then
    st.push { message with toolCalls := kept }
  else if message.content.length > 0 then st.report (.vacuousMessageDropped message.role)
  else st

def result (st : Dedupe) (message : Message) (toolCallId : String) : Dedupe :=
  match st.keptToolResultIndexes.get toolCallId with
  | some previousIndex =>
    if isInterruptedToolResult st.out[previousIndex]? && !isInterruptedToolResult (some message)
    then { st with out := st.out.set previousIndex message }
    else st.report (.duplicateToolResultDropped toolCallId)
  | none =>
    { st.push message with
      keptToolResultIndexes := st.keptToolResultIndexes.set toolCallId st.out.length }

def step (st : Dedupe) (message : Message) : Dedupe :=
  if message.role = .assistant ∧ message.toolCalls.length > 0 then st.assistant message
  else match message.role, message.toolCallId with
    | .tool, some toolCallId => st.result message toolCallId
    | _, _ => st.push message

end Dedupe

def dedupeDuplicateToolCalls (messages : List Message) : List Message × List ProjectionAnomaly :=
  let st := messages.foldl Dedupe.step {}
  (st.out, st.anomalies)

def mergeAssistants (previous message : Message) : Message :=
  { previous with
    content := previous.content ++ message.content
    toolCalls := previous.toolCalls ++ message.toolCalls }

def mergeStep (acc : List Message × List ProjectionAnomaly) (message : Message) :
    List Message × List ProjectionAnomaly :=
  match acc.1.getLast? with
  | some previous =>
    if previous.role = .assistant ∧ message.role = .assistant then
      (acc.1.dropLast ++ [mergeAssistants previous message], acc.2 ++ [.consecutiveAssistantsMerged])
    else (acc.1 ++ [message], acc.2)
  | none => (acc.1 ++ [message], acc.2)

def mergeConsecutiveAssistantMessages (messages : List Message) : List Message × List ProjectionAnomaly :=
  messages.foldl mergeStep ([], [])

def dropLeadingNonUserMessages : List Message → List Message × List ProjectionAnomaly
  | [] => ([], [])
  | message :: messages =>
    if message.role ≠ .user then
      let (kept, anomalies) := dropLeadingNonUserMessages messages
      (kept, .leadingNonUserDropped message.role :: anomalies)
    else (message :: messages, [])

def projectStrict (history : List ContextMessage) :
    Except RequestInvalid (List Message × List ProjectionAnomaly) := do
  let (projected, anomalies) ← project history
  let (deduped, dedupeAnomalies) := dedupeDuplicateToolCalls projected
  let (merged, mergeAnomalies) := mergeConsecutiveAssistantMessages deduped
  let (trimmed, trimAnomalies) := dropLeadingNonUserMessages merged
  return (trimmed, anomalies ++ dedupeAnomalies ++ mergeAnomalies ++ trimAnomalies)

end Echadron.Agent
