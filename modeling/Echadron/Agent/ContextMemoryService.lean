import Echadron.Agent.ContextOps

namespace Echadron.Agent
open Lib

/-! The journal record of an operation. -/

inductive WireValue where
  | num (n : Nat)
  | str (s : String)
  | bool (b : Bool)
  | message (message : ContextMessage)
  | messages (messages : List ContextMessage)
  | event (event : LoopRecordedEvent)

/-- The flat object that carries an operation; an absent key is not listed. -/
abbrev WireFields := List (String × WireValue)

structure WireRecord where
  type : String
  time : Nat
  fields : WireFields

def appendMessageType : String := "context.append_message"
def appendLoopEventType : String := "context.append_loop_event"
def clearType : String := "context.clear"
def applyCompactionType : String := "context.apply_compaction"
def undoType : String := "context.undo"
def swarmModeExitType : String := "swarm_mode.exit"

def opType : ContextRecord → String
  | .appendMessage _ => appendMessageType
  | .appendLoopEvent _ => appendLoopEventType
  | .clear => clearType
  | .applyCompaction _ => applyCompactionType
  | .undo _ => undoType
  | .swarmModeExit => swarmModeExitType

def field (key : String) (wrap : α → WireValue) (value : Option α) : WireFields :=
  match value with
  | none => []
  | some v => [(key, wrap v)]

def summaryValue : String ⊕ ContextMessage → WireValue
  | .inl summary => .str summary
  | .inr message => .message message

def compactionFields (p : CompactionPayload) : WireFields :=
  field "summary" summaryValue p.summary ++ field "replacementMessages" .messages p.replacementMessages ++
    field "contextSummary" .str p.contextSummary ++
    field "compactedCount" .num p.compactedCount ++
    field "count" .num p.count ++
    field "tokensBefore" .num p.tokensBefore ++
    field "tokensAfter" .num p.tokensAfter ++
    field "keptUserMessageCount" .num p.keptUserMessageCount ++
    field "keptHeadUserMessageCount" .num p.keptHeadUserMessageCount ++
    field "droppedCount" .num p.droppedCount ++
    field "legacyTail" .bool p.legacyTail

def opFields : ContextRecord → WireFields
  | .appendMessage message => [("message", .message message)]
  | .appendLoopEvent event => [("event", .event event)]
  | .clear => []
  | .applyCompaction payload => compactionFields payload
  | .undo count => [("count", .num count)]
  | .swarmModeExit => []

def opToWireRecord (op : ContextRecord) (now : Nat) : WireRecord :=
  { type := opType op, time := now, fields := opFields op }

/-! The schemas that a record is checked against before it is replayed. -/

section

variable (unwrap : WireValue → Option α) (fields : WireFields) (key : String)

/-- An optional field of one type: a value of another type fails the check. -/
def optionalField : Option (Option α) :=
  match fields.lookup key with
  | none => some none
  | some value => (unwrap value).map some

def requiredField : Option α := (fields.lookup key).bind unwrap

end

def WireValue.num? : WireValue → Option Nat
  | .num n => some n
  | _ => none

def WireValue.str? : WireValue → Option String
  | .str s => some s
  | _ => none

def WireValue.bool? : WireValue → Option Bool
  | .bool b => some b
  | _ => none

def WireValue.message? : WireValue → Option ContextMessage
  | .message m => some m
  | _ => none

def WireValue.messages? : WireValue → Option (List ContextMessage)
  | .messages ms => some ms
  | _ => none

def WireValue.event? : WireValue → Option LoopRecordedEvent
  | .event e => some e
  | _ => none

def parseCompactionBase (fields : WireFields) : Option CompactionPayload := do
  let tokensBefore ← optionalField WireValue.num? fields "tokensBefore"
  let tokensAfter ← optionalField WireValue.num? fields "tokensAfter"
  let keptUserMessageCount ← optionalField WireValue.num? fields "keptUserMessageCount"
  let keptHeadUserMessageCount ← optionalField WireValue.num? fields "keptHeadUserMessageCount"
  let droppedCount ← optionalField WireValue.num? fields "droppedCount"
  let legacyTail ← optionalField WireValue.bool? fields "legacyTail"
  let replacementMessages ← optionalField WireValue.messages? fields "replacementMessages"
  return {
    tokensBefore := tokensBefore
    tokensAfter := tokensAfter
    keptUserMessageCount := keptUserMessageCount
    keptHeadUserMessageCount := keptHeadUserMessageCount
    droppedCount := droppedCount
    legacyTail := legacyTail
    replacementMessages := replacementMessages }

section

variable (base : CompactionPayload) (fields : WireFields)

def parseSummaryShape : Option CompactionPayload := do
  let summary ← requiredField WireValue.str? fields "summary"
  let compactedCount ← requiredField WireValue.num? fields "compactedCount"
  let contextSummary ← optionalField WireValue.str? fields "contextSummary"
  return { base with
    summary := some (.inl summary)
    compactedCount := some compactedCount
    contextSummary := contextSummary }

def parseContextSummaryShape : Option CompactionPayload := do
  let contextSummary ← requiredField WireValue.str? fields "contextSummary"
  let compactedCount ← requiredField WireValue.num? fields "compactedCount"
  let summary ← optionalField WireValue.str? fields "summary"
  return { base with
    summary := summary.map .inl
    compactedCount := some compactedCount
    contextSummary := some contextSummary }

def parseLegacyShape : Option CompactionPayload := do
  let summary ← requiredField WireValue.message? fields "summary"
  let count ← requiredField WireValue.num? fields "count"
  let compactedCount ← optionalField WireValue.num? fields "compactedCount"
  return { base with
    summary := some (.inr summary)
    count := some count
    compactedCount := compactedCount }

end

/-- The union of the three shapes, tried in this order. -/
def parseCompaction (fields : WireFields) : Option CompactionPayload := do
  let base ← parseCompactionBase fields
  parseSummaryShape base fields <|> parseContextSummaryShape base fields <|>
    parseLegacyShape base fields

def parseUndo (fields : WireFields) : Option ContextRecord :=
  match requiredField WireValue.num? fields "count" with
  | some count => if isValidUndoCount count then some (.undo count) else none
  | none => none

/-- The operation that a record stands for, absent where replay skips the record. -/
def parseRecord (record : WireRecord) : Option ContextRecord :=
  if record.type = appendMessageType then
    (requiredField WireValue.message? record.fields "message").map .appendMessage
  else if record.type = appendLoopEventType then
    (requiredField WireValue.event? record.fields "event").map .appendLoopEvent
  else if record.type = clearType then some .clear
  else if record.type = applyCompactionType then
    (parseCompaction record.fields).map .applyCompaction
  else if record.type = undoType then parseUndo record.fields
  else if record.type = swarmModeExitType then some .swarmModeExit
  else none

def replayRecord (s : Folded) (record : WireRecord) : Option Folded :=
  match parseRecord record with
  | none => some s
  | some op => applyRecord s op

def replay (journal : List WireRecord) : Option Folded := journal.foldlM replayRecord .empty

structure ContextCompactionInput where
  summary : String
  replacementMessages : Option (List ContextMessage) := none
  contextSummary : Option String := none
  compactedCount : Nat
  tokensBefore : Nat
  summaryOutputTokens : Option Nat := none
  requestOverheadTokens : Option Nat := none
  tokensAfter : Option Nat := none
  keptUserMessageCount : Option Nat := none
  keptHeadUserMessageCount : Option Nat := none
  droppedCount : Option Nat := none

def ContextCompactionInput.toShapeInput (input : ContextCompactionInput) : ContextCompactionShapeInput :=
  { summary := input.summary
    replacementMessages := input.replacementMessages
    contextSummary := input.contextSummary
    compactedCount := input.compactedCount
    tokensBefore := input.tokensBefore
    summaryOutputTokens := input.summaryOutputTokens
    requestOverheadTokens := input.requestOverheadTokens
    tokensAfter := input.tokensAfter
    keptUserMessageCount := input.keptUserMessageCount
    keptHeadUserMessageCount := input.keptHeadUserMessageCount
    droppedCount := input.droppedCount }

def compactionPayload (input : ContextCompactionInput) (result : ContextCompactionShape) : CompactionPayload :=
  { summary := some (.inl result.summary)
    replacementMessages := input.replacementMessages
    contextSummary := some result.contextSummary
    compactedCount := some result.compactedCount
    tokensBefore := some result.tokensBefore
    tokensAfter := some result.tokensAfter
    keptUserMessageCount := some result.keptUserMessageCount
    keptHeadUserMessageCount := result.keptHeadUserMessageCount
    droppedCount := result.droppedCount }

/-- The event that tells subscribers how the history changed. -/
structure ContextSpliced where
  start : Nat
  deleteCount : Nat
  messages : List ContextMessage
  tokens : Option Nat := none

structure AgentContextMemoryService where
  model : Folded := .empty
  journal : List WireRecord := []
  published : List ContextSpliced := []

inductive ServiceCall where
  | append (messages : List ContextMessage)
  | appendLoopEvent (event : LoopRecordedEvent)
  | clear
  | undo (count : Nat)
  | applyCompaction (input : ContextCompactionInput)

namespace AgentContextMemoryService

/-- Apply an operation to the model, then persist its record. -/
def dispatch (now : Nat) (svc : AgentContextMemoryService) (op : ContextRecord) : Option AgentContextMemoryService :=
  (applyRecord svc.model op).map fun model =>
    { svc with model := model, journal := svc.journal ++ [opToWireRecord op now] }

section

variable (svc : AgentContextMemoryService)

def publishSplice (event : ContextSpliced) : AgentContextMemoryService :=
  { svc with published := svc.published ++ [event] }

def append (now : Nat) (messages : List ContextMessage) : Option AgentContextMemoryService :=
  if messages.length = 0 then some svc
  else
    ((messages.map .appendMessage).foldlM (dispatch now) svc).map fun svc' =>
      svc'.publishSplice ⟨svc.model.messages.length, 0, messages, none⟩

def clear (now : Nat) : Option AgentContextMemoryService :=
  let deleteCount := svc.model.messages.length
  if deleteCount = 0 then some svc
  else (svc.dispatch now .clear).map fun svc' => svc'.publishSplice ⟨0, deleteCount, [], none⟩

def undo (now : Nat) (count : Nat) : Option AgentContextMemoryService :=
  let cut := computeUndoCut svc.model.messages count
  if isFullyUndoable cut count then
    let cutIndex := cut.cutIndex.getD 0
    (svc.dispatch now (.undo count)).map fun svc' =>
      svc'.publishSplice ⟨cutIndex, svc.model.messages.length - cutIndex, [], none⟩
  else some svc

def applyCompaction (now : Nat) (input : ContextCompactionInput) : Option AgentContextMemoryService :=
  let result := buildContextCompactionShape svc.model.messages input.toShapeInput
  (svc.dispatch now (.applyCompaction (compactionPayload input result))).map fun svc' => svc'.publishSplice
      ⟨0, svc.model.messages.length, result.messages, some result.tokensAfter⟩

def call (now : Nat) : ServiceCall → Option AgentContextMemoryService
  | .append messages => svc.append now messages
  | .appendLoopEvent event => svc.dispatch now (.appendLoopEvent event)
  | .clear => svc.clear now
  | .undo count => svc.undo now count
  | .applyCompaction input => svc.applyCompaction now input

end

def run (calls : List (Nat × ServiceCall)) : Option AgentContextMemoryService :=
  calls.foldlM (fun svc c => svc.call c.1 c.2) {}

end AgentContextMemoryService

end Echadron.Agent
