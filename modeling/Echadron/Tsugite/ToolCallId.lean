import Echadron.Agent.Message
import Echadron.Lib.JsMap
import Mathlib.Data.Finset.Card

namespace Echadron.Tsugite
open Lib Agent

/-! Tool-call ids in the form that a provider takes. -/

/-- The form that a provider wants its tool-call ids in. -/
structure ToolCallIdPolicy where
  normalize : String → String
  maxLength : Option Nat := none

def emptyToolCallId : String := "tool_call"

def isSafe (c : Char) : Bool := c.isAlphanum || c == '_' || c == '-'

/-- Each UTF-16 unit outside of the safe ones becomes an underscore. -/
def sanitizeChar (c : Char) : List Char :=
  if isSafe c then [c] else List.replicate (if c.toNat ≤ 0xFFFF then 1 else 2) '_'

def sanitizeToolCallId (id : String) (maxLength : Option Nat) : String :=
  let sanitized := id.toList.flatMap sanitizeChar
  match maxLength with
  | none => String.ofList sanitized
  | some maxLength => String.ofList (sanitized.take maxLength)

def sanitizeOpenAIResponsesCallId (id : String) (maxLength : Option Nat) : String :=
  sanitizeToolCallId (String.ofList (id.toList.takeWhile fun c => c != '|')) maxLength

/-- Errors are their messages. -/
def truncateToolCallId (base : String) (maxLength : Option Nat) (suffix : String) : Except String String :=
  match maxLength with
  | none => .ok (base ++ suffix)
  | some maxLength =>
    if maxLength ≤ suffix.length then
      .error ("Tool call id maxLength " ++ maxLength.repr ++ " is too small for suffix " ++ suffix ++ ".")
    else .ok (String.ofList (base.toList.take (maxLength - suffix.length)) ++ suffix)

def suffixOf (i : Nat) : String := "_" ++ i.repr

/-- The loop over the suffixes from `i` on. The count of the ids in use bounds it, see
`uniqueFrom_fresh`. -/
def uniqueFrom (base : String) (usedIds : List String) (maxLength : Option Nat) : Nat → Nat → Except String String
  | i, 0 => truncateToolCallId base maxLength (suffixOf i)
  | i, bound + 1 =>
    match truncateToolCallId base maxLength (suffixOf i) with
    | .error e => .error e
    | .ok suffixed => if suffixed ∈ usedIds then uniqueFrom base usedIds maxLength (i + 1) bound else .ok suffixed

def makeUniqueToolCallId (normalized : String) (usedIds : List String) (maxLength : Option Nat) :
    Except String String :=
  let base := if normalized.length > 0 then normalized else emptyToolCallId
  match truncateToolCallId base maxLength "" with
  | .error e => .error e
  | .ok candidate =>
    if candidate ∈ usedIds then uniqueFrom base usedIds maxLength 2 usedIds.length else .ok candidate

def appendId (ids : List String) (id : String) : List String := if id ∈ ids then ids else ids ++ [id]

/-- The ids of a history, each once, in the order of their first uses. -/
def collectToolCallIds (messages : List Message) : List String :=
  (messages.flatMap fun message => message.toolCalls.map ToolCall.id ++ message.toolCallId.toList).foldl
    appendId []

/-- The map from raw ids while it is built. -/
structure ToolCallIdMap where
  mappedIds : JsMap String String := .empty
  usedIds : List String := []

def ToolCallIdMap.put (m : ToolCallIdMap) (rawId mappedId : String) : ToolCallIdMap :=
  { mappedIds := m.mappedIds.set rawId mappedId, usedIds := m.usedIds ++ [mappedId] }

def keepConforming (policy : ToolCallIdPolicy) (m : ToolCallIdMap) (rawId : String) : ToolCallIdMap :=
  if policy.normalize rawId = rawId ∧ 0 < (policy.normalize rawId).length then m.put rawId rawId else m

/-- Every other id is made unique. -/
def rewriteOther (policy : ToolCallIdPolicy) (m : ToolCallIdMap) (rawId : String) : Except String ToolCallIdMap :=
  if m.mappedIds.has rawId then .ok m
  else
    match makeUniqueToolCallId (policy.normalize rawId) m.usedIds policy.maxLength with
    | .error e => .error e
    | .ok unique => .ok (m.put rawId unique)

def buildToolCallIdMap (rawIds : List String) (policy : ToolCallIdPolicy) : Except String (JsMap String String) :=
  match rawIds.foldlM (rewriteOther policy) (rawIds.foldl (keepConforming policy) {}) with
  | .error e => .error e
  | .ok m => .ok m.mappedIds

def withToolCallIds (f : String → String) (message : Message) : Message :=
  { message with
    toolCalls := message.toolCalls.map fun toolCall => { toolCall with id := f toolCall.id }
    toolCallId := message.toolCallId.map f }

def normalizeToolCallIdsForProvider (messages : List Message) (policy : ToolCallIdPolicy) :
    Except String (List Message) :=
  if collectToolCallIds messages = [] then .ok messages
  else
    match buildToolCallIdMap (collectToolCallIds messages) policy with
    | .error e => .error e
    | .ok mappedIds => .ok (messages.map (withToolCallIds fun id => (mappedIds.get id).getD id))

theorem withToolCallIds_id (message : Message) : withToolCallIds id message = message := by
  have hcalls : message.toolCalls.map (fun toolCall => { toolCall with id := id toolCall.id }) =
      message.toolCalls := List.map_id _
  have hanswers : message.toolCallId.map id = message.toolCallId := congrFun Option.map_id _
  rw [withToolCallIds, hcalls, hanswers]

theorem map_withToolCallIds_id (messages : List Message) : messages.map (withToolCallIds fun id => id) = messages :=
  (List.map_congr_left fun message _ => withToolCallIds_id message).trans (List.map_id _)

/-- The ids of a history are rewritten by one map. -/
theorem normalizeToolCallIds_ok
    (h : normalizeToolCallIdsForProvider messages policy = .ok normalized) :
    ∃ f, normalized = messages.map (withToolCallIds f) := by
  unfold normalizeToolCallIdsForProvider at h
  split at h
  · cases h
    exact ⟨_, (map_withToolCallIds_id messages).symm⟩
  · split at h
    · cases h
    · exact ⟨_, (Except.ok.inj h).symm⟩

end Echadron.Tsugite
