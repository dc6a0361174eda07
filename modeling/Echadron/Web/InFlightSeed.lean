import Echadron.Server.InFlightTurnTracker
import Mathlib.Data.List.ModifyLast

namespace Echadron.Web
open Lib Server

/-! The web client's view of a session's main agent, projected from the frames that it is sent. -/

inductive AppRole where
  | assistant
  | tool
deriving DecidableEq

inductive AppMessageContent (U : Type) where
  | text (text : List U)
  | thinking (thinking : List U)
  | toolUse (toolCallId toolName : String) (outputLines : Option (List U))
  | toolResult (toolCallId : String)
deriving DecidableEq

/-- Ids are numbered as they are drawn. -/
structure AppMessage (U : Type) where
  id : Nat
  role : AppRole
  content : List (AppMessageContent U)
  promptId : Nat
deriving DecidableEq

/-- `drawn` counts the ids drawn. -/
structure SessionState (U : Type) where
  turnPromptId : JsMap Nat Nat := .empty
  currentPromptId : Option Nat := none
  currentAssistantMsgId : Option Nat := none
  turnTextLen : Nat := 0
  turnThinkLen : Nat := 0
  messages : List (AppMessage U) := []
  retryReuseMsgId : Option Nat := none
  drawn : Nat := 0

variable {U : Type}

section

variable (kind : DeltaKind) (delta : List U)

def ofKind : AppMessageContent U :=
  match kind with
  | .assistant => .text delta
  | .thinking => .thinking delta

def extendPart (part : AppMessageContent U) : Option (AppMessageContent U) :=
  match kind, part with
  | .assistant, .text text => some (.text (text ++ delta))
  | .thinking, .thinking thinking => some (.thinking (thinking ++ delta))
  | _, _ => none

/-- The content of a message after a delta, which continues the last part or opens a new one. -/
def appendDelta (content : List (AppMessageContent U)) : List (AppMessageContent U) :=
  match content.getLast?.bind (extendPart kind delta) with
  | some part => content.dropLast ++ [part]
  | none => content ++ [ofKind kind delta]

end

/-- What `turn.step.retrying` strips from a message. -/
def isStreamed : AppMessageContent U → Bool
  | .toolResult _ => false
  | _ => true

def updateMessage (id : Nat) (f : List (AppMessageContent U) → List (AppMessageContent U)) :
    List (AppMessage U) → List (AppMessage U)
  | [] => []
  | msg :: messages =>
    if msg.id = id then { msg with content := f msg.content } :: messages else msg :: updateMessage id f messages

inductive Align where
  | append
  | skip
  | gap
deriving DecidableEq

def alignDelta (localLen : Nat) (offset : Option Nat) : Align :=
  match offset with
  | none => .append
  | some offset => if offset < localLen then .skip else if localLen < offset then .gap else .append

namespace SessionState

section

variable (s : SessionState U)

def getMsgById (id : Nat) : Option (AppMessage U) := s.messages.find? fun msg => msg.id = id

def len : DeltaKind → Nat
  | .assistant => s.turnTextLen
  | .thinking => s.turnThinkLen

def setLen (kind : DeltaKind) (n : Nat) : SessionState U :=
  match kind with
  | .assistant => { s with turnTextLen := n }
  | .thinking => { s with turnThinkLen := n }

def startMessage (role : AppRole) (promptId : Nat) (content : List (AppMessageContent U)) : SessionState U :=
  { s with messages := s.messages ++ [{ id := s.drawn, role, content, promptId }], drawn := s.drawn + 1 }

def startAssistantMessage (promptId : Nat) (content : List (AppMessageContent U)) : SessionState U :=
  { s.startMessage .assistant promptId content with currentAssistantMsgId := some s.drawn }

def promptOf (turnId : Nat) : Nat × SessionState U :=
  match s.turnPromptId.get turnId, s.currentPromptId with
  | some promptId, _ => (promptId, s)
  | none, some promptId => (promptId, s)
  | none, none =>
    (s.drawn, { s with
      currentPromptId := some s.drawn, turnPromptId := s.turnPromptId.set turnId s.drawn, drawn := s.drawn + 1 })

end

def toolPart (tool : ToolAccum U) : AppMessageContent U :=
  .toolUse tool.toolCallId tool.name (tool.lastProgress.filter fun text => !text.isEmpty)

def seedContent (turn : InFlightTurn U) : List (AppMessageContent U) :=
  (if turn.thinkingText.length > 0 then [.thinking turn.thinkingText] else []) ++
    (if turn.assistantText.length > 0 then [.text turn.assistantText] else []) ++ turn.runningTools.map toolPart

section

variable (s : SessionState U)

/-- `seedInFlight`, on a fresh state that goes on drawing ids. -/
def seedInFlight (turn : InFlightTurn U) : SessionState U :=
  let fresh : SessionState U :=
    { drawn := s.drawn + 1, currentPromptId := some s.drawn
      turnPromptId := JsMap.empty.set turn.turnId s.drawn }
  { fresh.startAssistantMessage s.drawn (seedContent turn) with
    turnTextLen := turn.assistantText.length, turnThinkLen := turn.thinkingText.length }

/-- `reset`, where no turn is in flight. -/
def reset : SessionState U := { drawn := s.drawn }

def projectDelta (kind : DeltaKind) (delta : List U) (offset : Option Nat) : SessionState U × Bool :=
  match s.currentAssistantMsgId with
  | none => (s, false)
  | some msgId =>
    if delta.isEmpty then (s, false)
    else
      -- an offset of 0 in the middle of a stream is taken for a step whose start was missed
      let s := if offset = some 0 ∧ 0 < s.len kind then s.setLen kind 0 else s
      match alignDelta (s.len kind) offset with
      | .skip => (s, false)
      | .gap => (s, true)
      | .append =>
        match s.getMsgById msgId with
        | none => (s, false)
        | some _ =>
          ({ s with messages := updateMessage msgId (appendDelta kind delta) s.messages }.setLen kind
            (s.len kind + delta.length), false)

/-- A retry refills the message that was cleared for it. Otherwise a step has a message of its own. -/
def startStep (promptId : Nat) : SessionState U :=
  match s.retryReuseMsgId with
  | none => s.startAssistantMessage promptId []
  | some reuseId =>
    match s.getMsgById reuseId with
    | none => { s with retryReuseMsgId := none }.startAssistantMessage promptId []
    | some _ => { s with retryReuseMsgId := none, currentAssistantMsgId := some reuseId }

/-- What a retry does to the message of the attempt before. -/
def clearStep : SessionState U :=
  match s.currentAssistantMsgId with
  | none => s
  | some msgId =>
    match s.getMsgById msgId with
    | none => s
    | some _ =>
      { s with
        messages := updateMessage msgId (fun content => content.filter fun part => !isStreamed part) s.messages
        retryReuseMsgId := some msgId }

def project (frame : Frame U) : SessionState U × Bool :=
  match frame.event with
  | .turnStarted turnId =>
    let promptId := s.currentPromptId.getD s.drawn
    ({ s with
      drawn := if s.currentPromptId.isSome then s.drawn else s.drawn + 1
      currentPromptId := some promptId, turnPromptId := s.turnPromptId.set turnId promptId
      turnTextLen := 0, turnThinkLen := 0 }, false)
  | .stepStarted turnId =>
    let prompt := s.promptOf turnId
    ({ prompt.2 with turnTextLen := 0, turnThinkLen := 0 }.startStep prompt.1, false)
  | .delta kind _ delta => s.projectDelta kind delta frame.offset
  | .toolCallStarted turnId toolCallId name =>
    match s.currentAssistantMsgId, (s.turnPromptId.get turnId).or s.currentPromptId with
    | some msgId, some _ =>
      ({ s with
        messages := updateMessage msgId (fun content => content ++ [.toolUse toolCallId name none]) s.messages },
        false)
    | _, _ => (s, false)
  | .toolProgress _ _ => (s, false)
  | .toolResult turnId toolCallId =>
    let prompt := s.promptOf turnId
    ({ prompt.2.startMessage .tool prompt.1 [.toolResult toolCallId] with currentAssistantMsgId := none }, false)
  | .stepCompleted _ => (s, false)
  | .stepRetrying _ => ({ s.clearStep with turnTextLen := 0, turnThinkLen := 0 }, false)
  | .stepInterrupted _ => ({ s with currentAssistantMsgId := none, retryReuseMsgId := none }, false)
  | .turnEnded _ =>
    ({ s with
      currentAssistantMsgId := none, currentPromptId := none, turnTextLen := 0, turnThinkLen := 0
      retryReuseMsgId := none }, false)

end

end SessionState

def partText (kind : DeltaKind) : AppMessageContent U → List U
  | .text text => if kind = .assistant then text else []
  | .thinking thinking => if kind = .thinking then thinking else []
  | _ => []

def AppMessage.shown (msg : AppMessage U) (kind : DeltaKind) : List U := msg.content.flatMap (partText kind)

def SessionState.bubbles (s : SessionState U) : List (List U × List U) :=
  (s.messages.filter fun msg => msg.role = .assistant).map fun msg => (msg.shown .assistant, msg.shown .thinking)

/-! A client that is seeded from a snapshot and follows the frames of a session. -/

/-- Where the main agent's loop stands. `abandoned` is between two steps after a retry that was given up. -/
inductive Phase where
  | idle
  | between (turnId : Nat)
  | streaming (turnId : Nat)
  | retrying (turnId : Nat)
  | abandoned (turnId : Nat)
deriving DecidableEq

def Phase.turnId : Phase → Option Nat
  | .idle => none
  | .between turnId => some turnId
  | .streaming turnId => some turnId
  | .retrying turnId => some turnId
  | .abandoned turnId => some turnId

/-- The turn that an event is part of. Progress may come at any time. -/
def eventTurn : AgentEvent U → Option Nat
  | .turnStarted turnId => some turnId
  | .stepStarted turnId => some turnId
  | .delta _ turnId _ => some turnId
  | .toolCallStarted turnId _ _ => some turnId
  | .toolProgress _ _ => none
  | .toolResult turnId _ => some turnId
  | .stepCompleted turnId => some turnId
  | .stepRetrying turnId => some turnId
  | .stepInterrupted turnId => some turnId
  | .turnEnded turnId => some turnId

/-- The order in which the loop publishes: a step streams its deltas before its tools have results, only a
step that streams is retried, and the retry begins with a step of its own. -/
def Phase.next : Phase → AgentEvent U → Option Phase
  | phase, .toolProgress _ _ => some phase
  | .idle, .turnStarted turnId => some (.between turnId)
  | .between turnId, .stepStarted _ => some (.streaming turnId)
  | .between turnId, .toolCallStarted _ _ _ => some (.between turnId)
  | .between turnId, .toolResult _ _ => some (.between turnId)
  | .between turnId, .stepCompleted _ => some (.between turnId)
  | .between turnId, .stepInterrupted _ => some (.between turnId)
  | .between _, .turnEnded _ => some .idle
  | .streaming turnId, .delta _ _ _ => some (.streaming turnId)
  | .streaming turnId, .toolCallStarted _ _ _ => some (.streaming turnId)
  | .streaming turnId, .toolResult _ _ => some (.between turnId)
  | .streaming turnId, .stepCompleted _ => some (.between turnId)
  | .streaming turnId, .stepRetrying _ => some (.retrying turnId)
  | .streaming turnId, .stepInterrupted _ => some (.between turnId)
  | .streaming _, .turnEnded _ => some .idle
  | .retrying turnId, .stepStarted _ => some (.streaming turnId)
  | .retrying turnId, .stepInterrupted _ => some (.abandoned turnId)
  | .retrying _, .turnEnded _ => some .idle
  | .abandoned turnId, .stepStarted _ => some (.streaming turnId)
  | .abandoned turnId, .stepInterrupted _ => some (.abandoned turnId)
  | .abandoned _, .turnEnded _ => some .idle
  | _, _ => none

/-- The clients have cleared what the tracker still has of the step. -/
def Phase.cleared : Phase → Bool
  | .retrying _ => true
  | .abandoned _ => true
  | _ => false

/-- Where the session stands in its stream. -/
structure Point (U : Type) where
  phase : Phase := .idle
  tracker : InFlightTurnTracker U := none

def Point.publish (p : Point U) (event : AgentEvent U) : Option (Point U × Frame U) :=
  if eventTurn event = none ∨ p.phase.turnId = none ∨ eventTurn event = p.phase.turnId then
    (p.phase.next event).map fun phase =>
      ({ phase, tracker := (p.tracker.apply event).1 }, { event, offset := (p.tracker.apply event).2 })
  else none

/-- The text and the thinking of the steps that a client has been told of. A step that is retried is told
again. -/
structure Told (U : Type) where
  steps : List (List U × List U) := []
  again : Bool := false

def withDelta (kind : DeltaKind) (delta : List U) (step : List U × List U) : List U × List U :=
  match kind with
  | .assistant => (step.1 ++ delta, step.2)
  | .thinking => (step.1, step.2 ++ delta)

def Told.tell (told : Told U) : AgentEvent U → Told U
  | .stepStarted _ =>
    if told.again then { told with again := false } else { told with steps := told.steps ++ [([], [])] }
  | .delta kind _ delta => { told with steps := told.steps.modifyLast (withDelta kind delta) }
  | .stepRetrying _ => { steps := told.steps.modifyLast fun _ => ([], []), again := true }
  | .stepInterrupted _ => { told with again := false }
  | .turnEnded _ => { told with again := false }
  | _ => told

/-- A client's projector, whether it has asked for a resync, and what it has been told. -/
structure View (U : Type) where
  session : SessionState U
  asked : Bool := false
  told : Told U := {}

/-- A client at a snapshot. It goes on drawing ids. -/
def Point.seed (p : Point U) (drawn : Nat) : View U :=
  match p.tracker.get with
  | none => { session := SessionState.reset { drawn } }
  | some turn =>
    { session := SessionState.seedInFlight { drawn } turn
      told := { steps := [if p.phase.cleared then ([], []) else (turn.assistantText, turn.thinkingText)] } }

/-- A client takes a frame. `told` are the events in it that were published after its snapshot. -/
def View.take (v : View U) (frame : Frame U) (told : List (AgentEvent U)) : View U :=
  { session := (v.session.project frame).1, asked := v.asked || (v.session.project frame).2
    told := told.foldl Told.tell v.told }

/-- A session and one of its clients. The first `stale` of the frames that are not delivered yet were
dispatched before the client's snapshot. -/
structure Following (U : Type) where
  point : Point U := {}
  outbound : List (Frame U) := []
  stale : Nat := 0
  view : Option (View U) := none

inductive FollowingEvent (U : Type) where
  | publish (event : AgentEvent U)
  | deliver (n : Nat)
  | snapshot
deriving DecidableEq

/-- Any number of frames that coalesce to one may be delivered as one. -/
def Following.step (s : Following U) : FollowingEvent U → Option (Following U)
  | .publish event =>
    (s.point.publish event).map fun next => { s with point := next.1, outbound := s.outbound ++ [next.2] }
  | .deliver n =>
    match coalesceFrames (s.outbound.take n) with
    | [frame] =>
      some { s with
        outbound := s.outbound.drop n
        stale := s.stale - n
        view := s.view.map fun v => v.take frame (((s.outbound.take n).drop s.stale).map Frame.event) }
    | _ => none
  | .snapshot =>
    some { s with
      stale := s.outbound.length
      view := some (s.point.seed ((s.view.map fun v => v.session.drawn).getD 0)) }

/-- A frame that a client takes for the start of a stream: of a step, or of a step's text. -/
def Restarts (frame : Frame U) : Prop :=
  match frame.event with
  | .stepStarted _ => True
  | .stepRetrying _ => True
  | .delta _ _ delta => delta ≠ [] ∧ frame.offset = some 0
  | _ => False

/-- A delta without text. -/
def Silent (frame : Frame U) : Prop :=
  match frame.event with
  | .delta _ _ delta => delta = []
  | _ => False

/-- No text that is merged into one frame is from before and from after the snapshot. At a snapshot no frame that
starts a stream is under way, and the tracker has no text that the clients have cleared. -/
def Following.Apart (s : Following U) : FollowingEvent U → Prop
  | .publish _ => True
  | .deliver n =>
    (∀ frame ∈ (s.outbound.take n).take s.stale, Silent frame) ∨
      ∀ frame ∈ (s.outbound.take n).drop s.stale, Silent frame
  | .snapshot =>
    (∀ frame ∈ s.outbound, ¬ Restarts frame) ∧ (s.point.phase.cleared = true →
        ∀ turn ∈ s.point.tracker, turn.assistantText = [] ∧ turn.thinkingText = [])

section Decidable

variable [DecidableEq U]

instance Restarts.decidable : (frame : Frame U) → Decidable (Restarts frame)
  | ⟨.stepStarted _, _⟩ => isTrue trivial
  | ⟨.stepRetrying _, _⟩ => isTrue trivial
  | ⟨.delta _ _ delta, offset⟩ => inferInstanceAs (Decidable (delta ≠ [] ∧ offset = some 0))
  | ⟨.turnStarted _, _⟩ => isFalse id
  | ⟨.toolCallStarted _ _ _, _⟩ => isFalse id
  | ⟨.toolProgress _ _, _⟩ => isFalse id
  | ⟨.toolResult _ _, _⟩ => isFalse id
  | ⟨.stepCompleted _, _⟩ => isFalse id
  | ⟨.stepInterrupted _, _⟩ => isFalse id
  | ⟨.turnEnded _, _⟩ => isFalse id

instance Silent.decidable : (frame : Frame U) → Decidable (Silent frame)
  | ⟨.delta _ _ delta, _⟩ => inferInstanceAs (Decidable (delta = []))
  | ⟨.turnStarted _, _⟩ => isFalse id
  | ⟨.stepStarted _, _⟩ => isFalse id
  | ⟨.stepRetrying _, _⟩ => isFalse id
  | ⟨.toolCallStarted _ _ _, _⟩ => isFalse id
  | ⟨.toolProgress _ _, _⟩ => isFalse id
  | ⟨.toolResult _ _, _⟩ => isFalse id
  | ⟨.stepCompleted _, _⟩ => isFalse id
  | ⟨.stepInterrupted _, _⟩ => isFalse id
  | ⟨.turnEnded _, _⟩ => isFalse id

instance Following.Apart.decidable (s : Following U) : (event : FollowingEvent U) → Decidable (s.Apart event)
  | .publish _ => isTrue trivial
  | .deliver n =>
    inferInstanceAs (Decidable ((∀ frame ∈ (s.outbound.take n).take s.stale, Silent frame) ∨
      ∀ frame ∈ (s.outbound.take n).drop s.stale, Silent frame))
  | .snapshot =>
    inferInstanceAs (Decidable ((∀ frame ∈ s.outbound, ¬ Restarts frame) ∧ (s.point.phase.cleared = true →
        ∀ turn ∈ s.point.tracker, turn.assistantText = [] ∧ turn.thinkingText = [])))

end Decidable

end Echadron.Web
