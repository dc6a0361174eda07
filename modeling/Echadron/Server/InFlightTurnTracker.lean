import Echadron.Lib.JsMap

namespace Echadron.Server
open Lib

/-! The stream state of a main agent's turn, which no journal has, and the frames that carry it. -/

/-- `U` is the type of the units of text. -/
inductive DeltaKind where
  | assistant
  | thinking
deriving DecidableEq

/-- The events of a session's main agent that its stream consists of. -/
inductive AgentEvent (U : Type) where
  | turnStarted (turnId : Nat)
  | stepStarted (turnId : Nat)
  | delta (kind : DeltaKind) (turnId : Nat) (delta : List U)
  | toolCallStarted (turnId : Nat) (toolCallId name : String)
  | toolProgress (toolCallId : String) (text : List U)
  | toolResult (turnId : Nat) (toolCallId : String)
  | stepCompleted (turnId : Nat)
  | stepRetrying (turnId : Nat)
  | stepInterrupted (turnId : Nat)
  | turnEnded (turnId : Nat)
deriving DecidableEq

structure ToolAccum (U : Type) where
  toolCallId : String
  name : String
  lastProgress : Option (List U) := none
deriving DecidableEq

structure TurnAccum (U : Type) where
  turnId : Nat
  assistantText : List U := []
  thinkingText : List U := []
  tools : JsMap String (ToolAccum U) := .empty

structure InFlightTurn (U : Type) where
  turnId : Nat
  assistantText : List U
  thinkingText : List U
  runningTools : List (ToolAccum U)
deriving DecidableEq

/-- An event on its way to the clients. Only deltas have an offset. -/
structure Frame (U : Type) where
  event : AgentEvent U
  offset : Option Nat := none
deriving DecidableEq

variable {U : Type}

namespace TurnAccum

def text (turn : TurnAccum U) : DeltaKind → List U
  | .assistant => turn.assistantText
  | .thinking => turn.thinkingText

def append (turn : TurnAccum U) (kind : DeltaKind) (delta : List U) : TurnAccum U :=
  match kind with
  | .assistant => { turn with assistantText := turn.assistantText ++ delta }
  | .thinking => { turn with thinkingText := turn.thinkingText ++ delta }

end TurnAccum

abbrev InFlightTurnTracker (U : Type) := Option (TurnAccum U)

namespace InFlightTurnTracker

def inTurn (tracker : InFlightTurnTracker U) (turnId : Nat) (f : TurnAccum U → TurnAccum U) : InFlightTurnTracker U :=
  tracker.map fun turn => if turn.turnId = turnId then f turn else turn

def apply (tracker : InFlightTurnTracker U) : AgentEvent U → InFlightTurnTracker U × Option Nat
  | .turnStarted turnId => (some { turnId }, none)
  | .turnEnded _ => (none, none)
  | .stepStarted turnId =>
    (tracker.inTurn turnId fun turn => { turn with assistantText := [], thinkingText := [] }, none)
  | .delta kind turnId delta =>
    match tracker with
    | none => (none, none)
    | some turn =>
      if turn.turnId = turnId then (some (turn.append kind delta), some (turn.text kind).length)
      else (some turn, none)
  | .toolCallStarted turnId toolCallId name =>
    (tracker.inTurn turnId fun turn => { turn with tools := turn.tools.set toolCallId { toolCallId, name } }, none)
  | .toolProgress toolCallId text =>
    (tracker.map fun turn =>
      match turn.tools.get toolCallId with
      | none => turn
      | some tool => { turn with tools := turn.tools.set toolCallId { tool with lastProgress := some text } },
      none)
  | .toolResult _ toolCallId =>
    (tracker.map fun turn => { turn with tools := turn.tools.delete toolCallId }, none)
  | .stepCompleted _ => (tracker, none)
  | .stepRetrying _ => (tracker, none)
  | .stepInterrupted _ => (tracker, none)

def get (tracker : InFlightTurnTracker U) : Option (InFlightTurn U) :=
  tracker.map fun turn =>
    { turnId := turn.turnId, assistantText := turn.assistantText, thinkingText := turn.thinkingText
      runningTools := turn.tools.entries.map Prod.snd }

end InFlightTurnTracker

/-- Two adjacent deltas of one kind and turn in one frame, which keeps the first one's offset. -/
def mergeFrames (last frame : Frame U) : Option (Frame U) :=
  match last.event, frame.event with
  | .delta kind turnId delta, .delta kind' turnId' more =>
    if kind = kind' ∧ turnId = turnId' then some { last with event := .delta kind turnId (delta ++ more) } else none
  | _, _ => none

/-- The body of the loop of `coalesceFrames`. -/
def coalesceStep (out : List (Frame U)) (frame : Frame U) : List (Frame U) :=
  match out.getLast? with
  | none => out ++ [frame]
  | some last =>
    match mergeFrames last frame with
    | some merged => out.dropLast ++ [merged]
    | none => out ++ [frame]

def coalesceFrames (frames : List (Frame U)) : List (Frame U) := frames.foldl coalesceStep []

end Echadron.Server
