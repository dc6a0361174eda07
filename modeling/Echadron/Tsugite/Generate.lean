import Echadron.Agent.Message
import Echadron.Lib.JsMap

namespace Echadron.Tsugite
open Lib Agent

/-! The parts of a streamed response, and the message that is assembled from them. -/

/-- `I` is the type of the indices that a stream gives to its tool calls. -/
inductive StreamedMessagePart (I : Type) where
  | content (part : ContentPart)
  | function (call : ToolCall) (streamIndex : Option I)
  | toolCallPart (argumentsPart : Option String) (index : Option I)

variable {I : Type}

/-- The arguments of a call after one more part, where `null` counts as nothing. -/
def addArguments (arguments : Option String) (argumentsPart : Option String) : Option String :=
  match arguments, argumentsPart with
  | arguments, none => arguments
  | none, some part => some part
  | some arguments, some part => some (arguments ++ part)

def mergeContent : ContentPart → ContentPart → Option ContentPart
  | .text target, .text source => some (.text (target ++ source))
  | .think target none, .think source encrypted => some (.think (target ++ source) encrypted)
  | _, _ => none

/-- The target with the source merged into it, absent where the code returns `false`. -/
def mergeInPlace : StreamedMessagePart I → StreamedMessagePart I → Option (StreamedMessagePart I)
  | .content target, .content source => (mergeContent target source).map .content
  | .function call streamIndex, .toolCallPart argumentsPart _ =>
    some (.function { call with arguments := addArguments call.arguments argumentsPart } streamIndex)
  | _, _ => none

/-- The message while it is assembled. -/
structure Assembly (I : Type) [DecidableEq I] where
  content : List ContentPart := []
  toolCalls : List ToolCall := []
  toolCallIndexMap : JsMap I Nat := .empty
  pendingPart : Option (StreamedMessagePart I) := none

inductive GenerateError where
  | emptyResponse
  | thinkingOnly
deriving DecidableEq

namespace Assembly

variable [DecidableEq I]

def flushPart (s : Assembly I) : StreamedMessagePart I → Assembly I
  | .content part => { s with content := s.content ++ [part] }
  | .function call none => { s with toolCalls := s.toolCalls ++ [call] }
  | .function call (some streamIndex) =>
    { s with
      toolCalls := s.toolCalls ++ [call]
      toolCallIndexMap := s.toolCallIndexMap.set streamIndex s.toolCalls.length }
  | .toolCallPart _ _ => s

def isPendingToolCallAtIndex (pending : Option (StreamedMessagePart I)) (index : I) : Bool :=
  match pending with
  | some (.function _ streamIndex) => decide (streamIndex = some index)
  | _ => false

def place (s : Assembly I) (part : StreamedMessagePart I) : Assembly I :=
  match s.pendingPart with
  | none => { s with pendingPart := some part }
  | some pending =>
    match mergeInPlace pending part with
    | some merged => { s with pendingPart := some merged }
    | none => { s.flushPart pending with pendingPart := some part }

def extend (s : Assembly I) (arrayIdx : Nat) (argumentsPart : Option String) : Assembly I :=
  match s.toolCalls[arrayIdx]? with
  | none => s
  | some target =>
    { s with
      toolCalls := s.toolCalls.set arrayIdx
        { target with arguments := addArguments target.arguments argumentsPart } }

/-- The body of the loop over the stream. -/
def take (s : Assembly I) (part : StreamedMessagePart I) : Assembly I :=
  match part with
  | .toolCallPart argumentsPart (some index) =>
    if isPendingToolCallAtIndex s.pendingPart index then s.place part
    else
      match s.toolCallIndexMap.get index with
      | some arrayIdx => s.extend arrayIdx argumentsPart
      | none => s.place part
  | _ => s.place part

def finish (s : Assembly I) : Assembly I :=
  match s.pendingPart with
  | none => s
  | some pending => { s.flushPart pending with pendingPart := none }

def isThink : ContentPart → Bool
  | .think _ _ => true
  | _ => false

def hasText : ContentPart → Bool
  | .text text => !isBlank text
  | _ => false

def toMessage (s : Assembly I) : Except GenerateError Message :=
  if s.content.length = 0 ∧ s.toolCalls.length = 0 then .error .emptyResponse
  else if s.content.any isThink = true ∧ s.content.any hasText = false ∧ s.toolCalls.length = 0 then
    .error .thinkingOnly
  else .ok { role := .assistant, content := s.content, toolCalls := s.toolCalls }

end Assembly

def generate [DecidableEq I] (parts : List (StreamedMessagePart I)) : Except GenerateError Message :=
  (parts.foldl Assembly.take ({} : Assembly I)).finish.toMessage

theorem addArguments_getD (arguments argumentsPart : Option String) :
    (addArguments arguments argumentsPart).getD "" = arguments.getD "" ++ argumentsPart.getD "" := by
  cases arguments with
  | none => cases argumentsPart <;> simp [addArguments]
  | some text => cases argumentsPart <;> simp [addArguments]

/-- What `generate` returns is what was assembled. -/
theorem generate_ok [DecidableEq I] (h : generate parts = .ok message) :
    message = { role := .assistant
                content := (parts.foldl Assembly.take ({} : Assembly I)).finish.content
                toolCalls := (parts.foldl Assembly.take ({} : Assembly I)).finish.toolCalls } := by
  unfold generate Assembly.toMessage at h
  split_ifs at h
  exact (Except.ok.inj h).symm

section

variable [DecidableEq I]

theorem finish_of_none {s : Assembly I} (h : s.pendingPart = none) : s.finish = s := by
  rw [Assembly.finish, h]

theorem finish_of_some {s : Assembly I} (h : s.pendingPart = some part) :
    s.finish = { s.flushPart part with pendingPart := none } := by
  rw [Assembly.finish, h]

theorem place_of_unmerged {s : Assembly I}
    (h : ∀ pending, s.pendingPart = some pending → mergeInPlace pending part = none) :
    s.place part = { s.finish with pendingPart := some part } := by
  cases hpending : s.pendingPart with
  | none => rw [Assembly.place, hpending, finish_of_none hpending]
  | some pending =>
    rw [Assembly.place, hpending, finish_of_some hpending]
    dsimp only
    rw [h pending hpending]

end

end Echadron.Tsugite
