import Echadron.Lib.JsMap
import Mathlib.Algebra.Order.Ring.Unbundled.Rat

namespace Echadron.Transcript
open Lib

/-- Text as its UTF-16 code units. -/
abbrev Text := List UInt16

instance instLawfulBEqText : LawfulBEq Text := inferInstance

/-- How finite numbers are written into text, and what `Number` reads from text where it reads a
finite one. -/
structure NumberText where
  text : ℚ → Text
  number : Text → Option ℚ
  number_text : ∀ q, number (text q) = some q

/-! Ids. -/

section

variable (nt : NumberText)

/-- `t` and the ordinal. -/
def turnId (ordinal : ℚ) : Text := 116 :: nt.text ordinal

def stepId (turn : Text) (ordinal : ℚ) : Text := turn ++ 46 :: nt.text ordinal

def turnOrdinal (id : Text) : ℚ := (nt.number (id.drop 1)).getD 0

def stepOrdinal (stepId turnId : Text) : ℚ := (nt.number (stepId.drop (turnId.length + 1))).getD 0

theorem turnOrdinal_turnId (ordinal : ℚ) : turnOrdinal nt (turnId nt ordinal) = ordinal := by
  rw [turnOrdinal, turnId, List.drop_succ_cons, List.drop_zero, nt.number_text]
  rfl

theorem stepOrdinal_stepId (turn : Text) (ordinal : ℚ) : stepOrdinal nt (stepId nt turn ordinal) turn = ordinal := by
  have hdrop : (stepId nt turn ordinal).drop (turn.length + 1) = nt.text ordinal := by
    rw [stepId]
    simp
  rw [stepOrdinal, hdrop, nt.number_text]
  rfl

theorem turnId_injective : Function.Injective (turnId nt) := by
  intro a b h
  have hordinal := congrArg (turnOrdinal nt) h
  rwa [turnOrdinal_turnId, turnOrdinal_turnId] at hordinal

theorem stepId_injective (turn : Text) : Function.Injective (stepId nt turn) := by
  intro a b h
  have hordinal := congrArg (fun id => stepOrdinal nt id turn) h
  rwa [stepOrdinal_stepId, stepOrdinal_stepId] at hordinal

end

/-! The timeline. `C` is what is passed through unread: two contents are equal where `===` says so. -/

inductive OriginKind where
  | user
  | cron
  | task
  | hook
  | compaction
  | side
  | other
deriving DecidableEq

structure TurnOrigin (C : Type) where
  kind : OriginKind
  taskId : Option Text := none
  payload : Option C := none
deriving DecidableEq

inductive TurnState where
  | queued
  | running
  | completed
  | failed
  | cancelled
deriving DecidableEq

inductive StepState where
  | running
  | completed
  | interrupted
  | failed
deriving DecidableEq

structure TurnHeader (C : Type) where
  turnId : Text
  ordinal : ℚ
  state : TurnState
  origin : TurnOrigin C
  prompt : Option String := none
  attachmentIds : Option C := none
  startedAt : Option String := none
  endedAt : Option String := none
  usage : Option C := none
  durationMs : Option ℚ := none
  error : Option String := none
deriving DecidableEq

structure StepHeader (C : Type) where
  stepId : Text
  turnId : Text
  ordinal : ℚ
  state : StepState
  startedAt : Option String := none
  endedAt : Option String := none
  usage : Option C := none
  finishReason : Option String := none
  timing : Option C := none
  retry : Option C := none
  endReason : Option String := none
  endMessage : Option String := none
deriving DecidableEq

inductive FrameRole where
  | assistant
  | user
deriving DecidableEq

structure TextFrame (C : Type) where
  frameId : Text
  role : FrameRole
  text : Text
  attachmentIds : Option C := none
  taskId : Option Text := none
deriving DecidableEq

structure ThinkingFrame where
  frameId : Text
  text : Text
deriving DecidableEq

inductive ToolFrameState where
  | running
  | done
  | error
deriving DecidableEq

structure ToolCallFrame (C : Type) where
  frameId : Text
  toolCallId : Text
  name : String
  view : Option String := none
  state : ToolFrameState
  input : Option C := none
  output : Option C := none
  display : Option C := none
  error : Option String := none
  inputText : Option String := none
  progress : Option C := none
  taskId : Option Text := none
  approvalId : Option Text := none
  todoId : Option Text := none
  agentRefs : Option C := none
deriving DecidableEq

inductive NoticeLevel where
  | error
  | warning
  | info
deriving DecidableEq

structure NoticeFrame (C : Type) where
  frameId : Text
  level : NoticeLevel
  source : Option String := none
  message : String
  detail : Option C := none
deriving DecidableEq

inductive TranscriptFrame (C : Type) where
  | text (frame : TextFrame C)
  | thinking (frame : ThinkingFrame)
  | tool (frame : ToolCallFrame C)
  | notice (frame : NoticeFrame C)
deriving DecidableEq

def TranscriptFrame.frameId {C : Type} : TranscriptFrame C → Text
  | text frame => frame.frameId
  | thinking frame => frame.frameId
  | tool frame => frame.frameId
  | notice frame => frame.frameId

structure TranscriptStep (C : Type) extends StepHeader C where
  frames : List (TranscriptFrame C)
deriving DecidableEq

structure TranscriptTurn (C : Type) extends TurnHeader C where
  steps : List (TranscriptStep C)
deriving DecidableEq

structure TranscriptMarker (C : Type) where
  markerId : Text
  marker : String
  payload : Option C := none
  time : Option String := none
deriving DecidableEq

structure TranscriptTaskRef where
  refId : Text
  taskId : Text
  time : Option String := none
deriving DecidableEq

inductive TranscriptItem (C : Type) where
  | turn (turn : TranscriptTurn C)
  | marker (marker : TranscriptMarker C)
  | taskref (ref : TranscriptTaskRef)
deriving DecidableEq

def itemIdOf {C : Type} : TranscriptItem C → Text
  | .turn turn => turn.turnId
  | .marker marker => marker.markerId
  | .taskref ref => ref.refId

def TranscriptItem.asTurn {C : Type} : TranscriptItem C → Option (TranscriptTurn C)
  | .turn t => some t
  | _ => none

inductive TaskKind where
  | shell
  | subagent
  | tool
  | other
deriving DecidableEq

inductive TaskState where
  | running
  | completed
  | failed
  | timedOut
  | killed
  | lost
deriving DecidableEq

structure TranscriptTask (C : Type) where
  taskId : Text
  kind : TaskKind
  state : TaskState
  detached : Bool
  description : Option String := none
  agentId : Option Text := none
  outputTail : Text
  startedAt : Option String := none
  endedAt : Option String := none
  resultSummary : Option String := none
  error : Option String := none
  stateReason : Option String := none
  usage : Option C := none
deriving DecidableEq

inductive InteractionKind where
  | approval
  | question
deriving DecidableEq

inductive InteractionState where
  | pending
  | approved
  | rejected
  | cancelled
  | answered
  | dismissed
deriving DecidableEq

structure TranscriptInteraction (C : Type) where
  interactionId : Text
  interactionKind : InteractionKind
  toolCallId : Option Text := none
  state : InteractionState
  request : Option C := none
  response : Option C := none
deriving DecidableEq

structure TranscriptAttachment (C : Type) where
  attachmentId : Text
  mediaType : String
  name : Option String := none
  size : Option ℚ := none
  source : Option C := none
  placeholder : Option String := none
deriving DecidableEq

structure TranscriptTodo (C : Type) where
  todoId : Text
  items : C
  updatedAt : Option String := none
deriving DecidableEq

inductive PromptStatus where
  | running
  | queued
  | blocked
  | completed
  | failed
  | aborted
deriving DecidableEq

structure TranscriptPrompt (C : Type) where
  promptId : Text
  status : PromptStatus
  userMessageId : Option Text := none
  content : Option C := none
  createdAt : String
  finishedAt : Option String := none
  steeredAt : Option String := none
deriving DecidableEq

structure ModesMeta (C : Type) where
  plan : Option C := none
  swarm : Option C := none
deriving DecidableEq

inductive ActivityMeta where
  | idle
  | turn
  | disposing
  | unknown
deriving DecidableEq

structure AgentStatusMeta (C : Type) where
  model : Option String := none
  thinkingEffort : Option String := none
  usage : Option C := none
  contextTokens : Option ℚ := none
  maxContextTokens : Option ℚ := none
  contextUsage : Option ℚ := none
  permission : Option String := none
  phase : Option C := none
deriving DecidableEq

structure TranscriptMeta (C : Type) where
  goal : Option C := none
  modes : Option (ModesMeta C) := none
  activity : Option ActivityMeta := none
  agent : Option (AgentStatusMeta C) := none
deriving DecidableEq

/-- A key of a merged mode: absent, `null` to clear the mode, or the mode. -/
inductive ModeMerge (C : Type) where
  | keep
  | clear
  | put (mode : C)
deriving DecidableEq

structure ModesMetaMerge (C : Type) where
  plan : ModeMerge C := .keep
  swarm : ModeMerge C := .keep
deriving DecidableEq

structure TranscriptMetaMerge (C : Type) where
  goal : Option C := none
  modes : Option (ModesMetaMerge C) := none
  activity : Option ActivityMeta := none
  agent : Option (AgentStatusMeta C) := none
deriving DecidableEq

end Echadron.Transcript
