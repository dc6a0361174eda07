import Echadron.Server.InFlightTurnTracker
import Mathlib.Data.Int.Order.Basic

namespace Echadron.Web.MessageFeed
open Lib Server

/-! The messages of a session as the web client has them twice: the projector keeps a log of them and emits events, and
the reducer keeps what it is shown. -/

/-- Ids that the client draws are numbered; all other ids are different from them. -/
inductive MessageId where
  | drawn (n : Nat)
  | given (id : String)
deriving DecidableEq

inductive MessageRole where
  | user
  | assistant
  | tool
deriving DecidableEq

/-- `U` is the type of the units of text and `V` of other values. -/
inductive MessageContent (U V : Type) where
  | text (text : List U)
  | thinking (thinking : List U) (signature : Option String)
  | toolUse (toolCallId toolName : String) (input : V) (outputLines : List (List U))
  | toolResult (toolCallId : String) (output : V) (isError : Bool)
  | other (raw : V)
deriving DecidableEq

/-- `optimistic` marks the client's own copy of a prompt, and `cron` what a scheduled reminder has put in. -/
structure FeedMessage (U V : Type) where
  id : MessageId
  role : MessageRole
  content : List (MessageContent U V)
  promptId : Option MessageId := none
  durationMs : Option Nat := none
  optimistic : Bool := false
  cron : Bool := false
deriving DecidableEq

inductive FeedEvent (U V : Type) where
  | messageCreated (message : FeedMessage U V)
  | messageUpdated (messageId : MessageId) (content : List (MessageContent U V)) (durationMs : Option Nat)
  | assistantDelta (messageId : MessageId) (contentIndex : Nat) (kind : DeltaKind) (delta : List U)
  | toolOutput (toolCallId : String) (outputChunk : List U)
  | compactionCompleted (summary : Option (List U))
  | historyCompacted
deriving DecidableEq

structure RunningTool (U V : Type) where
  toolCallId : String
  name : String
  args : V
  lastProgress : Option (List U) := none
deriving DecidableEq

structure SnapshotTurn (U V : Type) where
  turnId : Nat
  promptId : Option String := none
  assistantText : List U
  thinkingText : List U
  runningTools : List (RunningTool U V)
deriving DecidableEq

/-- The main agent's frames; `unrelated` are those that have nothing to do with messages. -/
inductive RawFrame (U V : Type) where
  | promptSubmitted (promptId userMessageId : String) (content : List (MessageContent U V))
  | turnStarted (turnId : Option Nat)
  | stepStarted (turnId : Option Nat)
  | delta (kind : DeltaKind) (delta : List U) (offset : Option Int)
  | toolCallStarted (turnId : Option Nat) (toolCallId toolName : String) (args : V)
  | toolProgress (toolCallId : String) (chunk : List U)
  | toolResult (turnId : Option Nat) (toolCallId : String) (output : V) (isError : Bool)
  | stepCompleted
  | stepRetrying
  | stepInterrupted
  | turnEnded (durationMs : Option Nat)
  | cronFired (prompt : List U)
  | compactionCompleted (summary : Option (List U))
  | unrelated
deriving DecidableEq

variable {U V : Type}

structure ProjectorState (U V : Type) where
  turnPromptId : JsMap Nat MessageId := .empty
  currentPromptId : Option MessageId := none
  currentAssistantMsgId : Option MessageId := none
  turnTextLen : Nat := 0
  turnThinkLen : Nat := 0
  messages : List (FeedMessage U V) := []
  retryReuseMsgId : Option MessageId := none
  drawn : Nat := 0

def updateMessage (id : MessageId) (f : List (MessageContent U V) → List (MessageContent U V)) :
    List (FeedMessage U V) → List (FeedMessage U V)
  | [] => []
  | msg :: messages =>
    if msg.id = id then { msg with content := f msg.content } :: messages else msg :: updateMessage id f messages

section

variable (kind : DeltaKind) (delta : List U)

def partOf : MessageContent U V :=
  match kind with
  | .assistant => .text delta
  | .thinking => .thinking delta none

def continuePart (part : MessageContent U V) : Option (MessageContent U V) :=
  match kind, part with
  | .assistant, .text text => some (.text (text ++ delta))
  | .thinking, .thinking thinking signature => some (.thinking (thinking ++ delta) signature)
  | _, _ => none

/-- The content after `appendAssistantDelta`, and the index that it has written. -/
def appendAssistantDelta (content : List (MessageContent U V)) : List (MessageContent U V) × Nat :=
  match content.getLast?.bind (continuePart kind delta) with
  | some part => (content.dropLast ++ [part], content.length - 1)
  | none => (content ++ [partOf kind delta], content.length)

end

/-- What `turn.step.retrying` leaves in a message. -/
def keptOnRetry : MessageContent U V → Bool
  | .text _ | .thinking _ _ | .toolUse _ _ _ _ => false
  | .toolResult _ _ _ | .other _ => true

inductive Alignment where
  | append
  | skip
  | gap
deriving DecidableEq

def alignDelta (localLen : Nat) (offset : Option Int) : Alignment :=
  match offset with
  | none => .append
  | some offset => if offset < localLen then .skip else if localLen < offset then .gap else .append

namespace ProjectorState

section

variable (s : ProjectorState U V)

def getMsgById (id : MessageId) : Option (FeedMessage U V) := s.messages.find? fun msg => msg.id = id

def streamLen : DeltaKind → Nat
  | .assistant => s.turnTextLen
  | .thinking => s.turnThinkLen

def setStreamLen (kind : DeltaKind) (n : Nat) : ProjectorState U V :=
  match kind with
  | .assistant => { s with turnTextLen := n }
  | .thinking => { s with turnThinkLen := n }

def clearLens : ProjectorState U V := { s with turnTextLen := 0, turnThinkLen := 0 }

def startMessage (role : MessageRole) (promptId : Option MessageId)
    (content : List (MessageContent U V)) (cron : Bool) : ProjectorState U V × List (FeedEvent U V) :=
  let msg : FeedMessage U V := { id := .drawn s.drawn, role, content, promptId, cron }
  ({ s with messages := s.messages ++ [msg], drawn := s.drawn + 1 }, [.messageCreated msg])

def startAssistantMessage (promptId : MessageId) (content : List (MessageContent U V)) :
    ProjectorState U V × List (FeedEvent U V) :=
  let started := s.startMessage .assistant (some promptId) content false
  ({ started.1 with currentAssistantMsgId := some (.drawn s.drawn) }, started.2)

def startUserMessage (promptId : MessageId) (userMessageId : String)
    (content : List (MessageContent U V)) : ProjectorState U V × List (FeedEvent U V) :=
  let msg : FeedMessage U V := { id := .given userMessageId, role := .user, content, promptId := some promptId }
  ({ s with messages := s.messages ++ [msg] }, [.messageCreated msg])

def knownPrompt (turnId : Option Nat) : Option MessageId :=
  ((turnId.bind s.turnPromptId.get).or s.currentPromptId).filter fun promptId => promptId ≠ .given ""

def promptOf (turnId : Option Nat) : MessageId × ProjectorState U V :=
  match s.knownPrompt turnId with
  | some promptId => (promptId, s)
  | none =>
    let promptId := .drawn s.drawn
    (promptId,
      { s with
        currentPromptId := some promptId
        turnPromptId := turnId.elim s.turnPromptId fun turn => s.turnPromptId.set turn promptId
        drawn := s.drawn + 1 })

def bindNextPromptId (promptId : String) : ProjectorState U V :=
  { s with currentPromptId := some (.given promptId) }

/-- Ids go on being drawn. -/
def reset : ProjectorState U V := { drawn := s.drawn }

end

def toolPart (tool : RunningTool U V) : MessageContent U V :=
  .toolUse tool.toolCallId tool.name tool.args
    (match tool.lastProgress with
      | some text => if text.isEmpty then [] else [text]
      | none => [])

def seededContent (turn : SnapshotTurn U V) : List (MessageContent U V) :=
  (if 0 < turn.thinkingText.length then [.thinking turn.thinkingText none] else []) ++
    (if 0 < turn.assistantText.length then [.text turn.assistantText] else []) ++ turn.runningTools.map toolPart

section

variable (s : ProjectorState U V)

def seedInFlight (turn : SnapshotTurn U V) : ProjectorState U V × List (FeedEvent U V) :=
  let promptId := turn.promptId.elim (MessageId.drawn s.drawn) MessageId.given
  let fresh : ProjectorState U V :=
    { drawn := s.drawn + 1, currentPromptId := some promptId, turnPromptId := JsMap.empty.set turn.turnId promptId }
  let started := fresh.startAssistantMessage promptId (seededContent turn)
  ({ started.1 with turnTextLen := turn.assistantText.length, turnThinkLen := turn.thinkingText.length }, started.2)

/-- The whole content of a message as it stands. -/
def updated (id : MessageId) (durationMs : Option Nat) : List (FeedEvent U V) :=
  match s.getMsgById id with
  | some msg => [.messageUpdated id msg.content durationMs]
  | none => []

def projectDelta (kind : DeltaKind) (delta : List U) (offset : Option Int) :
    ProjectorState U V × List (FeedEvent U V) :=
  match s.currentAssistantMsgId with
  | none => (s, [])
  | some msgId =>
    if delta.isEmpty then (s, [])
    else
      let s := if offset = some 0 ∧ 0 < s.streamLen kind then s.setStreamLen kind 0 else s
      match alignDelta (s.streamLen kind) offset with
      | .skip => (s, [])
      | .gap => (s, [.historyCompacted])
      | .append =>
        match s.getMsgById msgId with
        | none => (s, [])
        | some msg =>
          let messages := updateMessage msgId (fun content => (appendAssistantDelta kind delta content).1) s.messages
          ({ s with messages }.setStreamLen kind (s.streamLen kind + delta.length),
            [.assistantDelta msgId (appendAssistantDelta kind delta msg.content).2 kind delta])

def startStep (promptId : MessageId) : ProjectorState U V × List (FeedEvent U V) :=
  match s.retryReuseMsgId with
  | none => s.startAssistantMessage promptId []
  | some reuseId =>
    match s.getMsgById reuseId with
    | some _ => ({ s with retryReuseMsgId := none, currentAssistantMsgId := some reuseId }, [])
    | none => { s with retryReuseMsgId := none }.startAssistantMessage promptId []

/-- The streamed parts of the message go, and the message is kept for the step that is retried. -/
def retryStep : ProjectorState U V × List (FeedEvent U V) :=
  match s.currentAssistantMsgId with
  | none => (s, [])
  | some msgId =>
    match s.getMsgById msgId with
    | none => (s, [])
    | some _ =>
      let stripped :=
        { s with
          messages := updateMessage msgId (fun content => content.filter keptOnRetry) s.messages
          retryReuseMsgId := some msgId }
      (stripped, stripped.updated msgId none)

def project : RawFrame U V → ProjectorState U V × List (FeedEvent U V)
  | .promptSubmitted promptId userMessageId content =>
    if promptId = "" ∨ userMessageId = "" ∨ content.isEmpty then (s, [])
    else { s with currentPromptId := some (.given promptId) }.startUserMessage (.given promptId) userMessageId content
  | .turnStarted turnId =>
    let promptId := s.currentPromptId.getD (.drawn s.drawn)
    (clearLens
      { s with
        currentPromptId := some promptId
        turnPromptId := turnId.elim s.turnPromptId fun turn => s.turnPromptId.set turn promptId
        drawn := if s.currentPromptId.isSome then s.drawn else s.drawn + 1 }, [])
  | .stepStarted turnId => (s.promptOf turnId).2.clearLens.startStep (s.promptOf turnId).1
  | .delta kind delta offset => s.projectDelta kind delta offset
  | .toolCallStarted turnId toolCallId toolName args =>
    match s.currentAssistantMsgId, s.knownPrompt turnId with
    | some msgId, some _ =>
      let used :=
        { s with
          messages := updateMessage msgId (fun content => content ++ [.toolUse toolCallId toolName args []]) s.messages }
      (used, used.updated msgId none)
    | _, _ => (s, [])
  | .toolProgress toolCallId chunk =>
    if toolCallId = "" ∨ chunk.isEmpty then (s, []) else (s, [.toolOutput toolCallId chunk])
  | .toolResult turnId toolCallId output isError =>
    let prompt := s.promptOf turnId
    let started := prompt.2.startMessage .tool (some prompt.1) [.toolResult toolCallId output isError] false
    ({ started.1 with currentAssistantMsgId := none }, started.2)
  | .stepCompleted => (s, s.currentAssistantMsgId.elim [] fun msgId => s.updated msgId none)
  | .stepRetrying => ((s.retryStep).1.clearLens, (s.retryStep).2)
  | .stepInterrupted => ({ s with currentAssistantMsgId := none, retryReuseMsgId := none }, [])
  | .turnEnded durationMs =>
    (clearLens { s with currentAssistantMsgId := none, currentPromptId := none, retryReuseMsgId := none },
      s.currentAssistantMsgId.elim [] fun msgId => s.updated msgId durationMs)
  | .cronFired prompt => if prompt.isEmpty then (s, []) else s.startMessage .user none [.text prompt] true
  | .compactionCompleted summary => (s, [.compactionCompleted summary, .historyCompacted])
  | .unrelated => (s, [])

end

end ProjectorState

/-- Two comparisons of user messages, which decide what is taken for an echo. -/
structure ReducerOptions (U V : Type) where
  sessionId : String
  sameMessageContent : FeedMessage U V → FeedMessage U V → Bool
  sameUserMessageLoosely : FeedMessage U V → FeedMessage U V → Bool

def isOptimisticUserMessage (message : FeedMessage U V) : Bool := message.role = .user && message.optimistic

def findLastIndex (p : FeedMessage U V → Bool) (messages : List (FeedMessage U V)) : Option Nat :=
  (messages.reverse.findIdx? p).map fun i => messages.length - 1 - i

def findOptimisticUserEchoIndex (o : ReducerOptions U V) (messages : List (FeedMessage U V))
    (message : FeedMessage U V) : Option Nat :=
  ((if message.promptId.isSome then
    findLastIndex (fun m => isOptimisticUserMessage m && m.promptId = message.promptId) messages
  else none).or
    (findLastIndex (fun m => isOptimisticUserMessage m && o.sameMessageContent m message) messages)).or
      (findLastIndex (fun m => isOptimisticUserMessage m && o.sameUserMessageLoosely m message) messages)

/-- The optimistic message takes over what its echo says. -/
def reconcile (optimistic message : FeedMessage U V) : FeedMessage U V :=
  { message with
    id := optimistic.id
    promptId := message.promptId.or optimistic.promptId
    optimistic := optimistic.optimistic || message.optimistic
    cron := optimistic.cron || message.cron }

def addMessage (o : ReducerOptions U V) (messages : List (FeedMessage U V)) (message : FeedMessage U V) :
    List (FeedMessage U V) :=
  if messages.any fun m => m.id = message.id then messages
  else
    match (if message.role = .user ∧ !message.cron then findOptimisticUserEchoIndex o messages message else none) with
    | some index => messages.modify index fun optimistic => reconcile optimistic message
    | none => messages ++ [message]

/-- A slot that is not there is made, and one of another kind is replaced. -/
def patchContent (contentIndex : Nat) (kind : DeltaKind) (delta : List U) (content : List (MessageContent U V)) :
    List (MessageContent U V) :=
  (content ++ List.replicate (contentIndex + 1 - content.length) (MessageContent.text [])).modify contentIndex fun part =>
    (continuePart kind delta part).getD (partOf kind delta)

def addOutputLine (toolCallId : String) (outputChunk : List U) : MessageContent U V → MessageContent U V
  | .toolUse id toolName input outputLines =>
    if id = toolCallId then .toolUse id toolName input (outputLines ++ [outputChunk])
    else .toolUse id toolName input outputLines
  | part => part

def reduceAppEvent (o : ReducerOptions U V) (seq : Nat) (messages : Option (List (FeedMessage U V))) :
    FeedEvent U V → Option (List (FeedMessage U V))
  | .messageCreated message => some (addMessage o (messages.getD []) message)
  | .messageUpdated messageId content durationMs =>
    some ((messages.getD []).map fun m =>
      if m.id = messageId then { m with content, durationMs := durationMs.or m.durationMs } else m)
  | .assistantDelta messageId contentIndex kind delta =>
    some ((messages.getD []).map fun m =>
      if m.id = messageId then { m with content := patchContent contentIndex kind delta m.content } else m)
  | .toolOutput toolCallId outputChunk =>
    some ((messages.getD []).map fun m => { m with content := m.content.map (addOutputLine toolCallId outputChunk) })
  | .compactionCompleted summary =>
    messages.map fun messages =>
      let markerId := MessageId.given ("compaction_" ++ o.sessionId ++ "_" ++ toString seq)
      if messages.any fun m => m.id = markerId then messages
      else
        let content :=
          match summary with
          | some text => if text.isEmpty then [] else [MessageContent.text text]
          | none => []
        messages ++ [{ id := markerId, role := .assistant, content }]
  | .historyCompacted => messages

inductive ClientEvent (U V : Type) where
  | frame (raw : RawFrame U V) (seq : Nat)
  | seed (turn : SnapshotTurn U V) (seq : Nat)
  | bindNextPromptId (promptId : String)
  | reset
deriving DecidableEq

structure WebClient (U V : Type) where
  projector : ProjectorState U V := {}
  messages : Option (List (FeedMessage U V)) := none

namespace WebClient

def feed (o : ReducerOptions U V) (seq : Nat) (s : WebClient U V)
    (projected : ProjectorState U V × List (FeedEvent U V)) : WebClient U V :=
  { projector := projected.1, messages := projected.2.foldl (reduceAppEvent o seq) s.messages }

def step (o : ReducerOptions U V) (s : WebClient U V) : ClientEvent U V → WebClient U V
  | .frame raw seq => s.feed o seq (s.projector.project raw)
  | .seed turn seq => s.feed o seq (s.projector.seedInFlight turn)
  | .bindNextPromptId promptId => { s with projector := s.projector.bindNextPromptId promptId }
  | .reset => { s with projector := s.projector.reset }

end WebClient

def withoutOutput : MessageContent U V → MessageContent U V
  | .toolUse toolCallId toolName input _ => .toolUse toolCallId toolName input []
  | part => part

end Echadron.Web.MessageFeed
