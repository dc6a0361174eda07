import Echadron.Lib.JsMap
import Echadron.Agent.Message

namespace Echadron.Agent
open Lib List

def toolInterruptedOnResumeOutput : String :=
  "Tool execution was interrupted before its result was recorded. " ++
    "Do not assume the tool completed successfully."

structure LoopToolResult where
  output : String ⊕ List ContentPart
  isError : Option Bool := none
  note : Option String := none

inductive LoopRecordedEvent where
  | stepBegin (uuid : String)
  | stepEnd (uuid : String)
  | contentPart (stepUuid : String) (part : ContentPart)
  | toolCall (stepUuid toolCallId name : String) (args : Option Json)
      (extras : Option (List (String × Json)))
  | toolResult (toolCallId : String) (result : LoopToolResult)

structure FoldCtx where
  openStepUuid : Option String := none
  pending : JsSet String := .empty
  deferred : List ContextMessage := []

/-- A history together with the fold context that is bound to it. -/
structure Folded where
  messages : List ContextMessage
  ctx : FoldCtx := {}

def Folded.empty : Folded := { messages := [] }

def resetFold (messages : List ContextMessage) : Folded := { messages := messages }

def isOpen (message : ContextMessage) : Bool := decide (message.isPartial = some true)

def findOpenAssistantIndex : List ContextMessage → Option Nat
  | [] => none
  | m :: ms =>
    match findOpenAssistantIndex ms with
    | some i => some (i + 1)
    | none => if isOpen m then some 0 else none

def appendToOpenAssistant (messages : List ContextMessage)
    (update : ContextMessage → ContextMessage) : List ContextMessage :=
  match findOpenAssistantIndex messages with
  | none => messages
  | some index => messages.modify index update

def interruptedToolMessage (toolCallId : String) : ContextMessage :=
  { createToolMessage toolCallId [.text toolInterruptedOnResumeOutput] with isError := some true }

def toolResultMessage (toolCallId : String) (result : LoopToolResult) : ContextMessage :=
  { createToolMessage toolCallId (outputParts result.output) with
    isError := result.isError
    note := result.note }

/-- Nothing sendable was recorded. -/
def isVacuousStep (message : ContextMessage) : Bool :=
  decide (message.toolCalls.length = 0) && message.content.all isVacuousContentPart

namespace Folded

def flushDeferred (s : Folded) : Folded :=
  if s.ctx.pending.size > 0 ∨ s.ctx.deferred.length = 0 then s
  else { messages := s.messages ++ s.ctx.deferred, ctx := { s.ctx with deferred := [] } }

def closePending (s : Folded) : Folded :=
  if s.ctx.pending.size = 0 then s
  else
    flushDeferred
      { messages := s.messages ++ s.ctx.pending.keys.map interruptedToolMessage
        ctx := { s.ctx with pending := .empty } }

/-- Drop the partial assistant when it is vacuous, seal it otherwise. -/
def sealOpen (messages : List ContextMessage) : List ContextMessage :=
  match findOpenAssistantIndex messages with
  | none => messages
  | some index =>
    match messages[index]? with
    | none => messages
    | some message =>
      if isVacuousStep message then messages.eraseIdx index
      else messages.modify index fun m => { m with isPartial := none }

def settleOpenStep (s : Folded) : Folded :=
  let s := s.closePending
  { s with messages := sealOpen s.messages }

def setOpenStep (s : Folded) (uuid : Option String) : Folded :=
  { s with ctx := { s.ctx with openStepUuid := uuid } }

end Folded

def foldAppendMessage (s : Folded) (message : ContextMessage) : Folded :=
  if s.ctx.pending.size > 0 then
    { s with ctx := { s.ctx with deferred := s.ctx.deferred ++ [message] } }
  else { s with messages := s.messages ++ [message] }

def partialAssistant : ContextMessage := { role := .assistant, content := [], isPartial := some true }

def recordedToolCall (toolCallId name : String) (args : Option Json)
    (extras : Option (List (String × Json))) : ToolCall :=
  { id := toolCallId, name := name, arguments := args.map Json.stringify, extras := extras }

def pushContent (part : ContentPart) (m : ContextMessage) : ContextMessage :=
  { m with content := m.content ++ [part] }

def pushCall (call : ToolCall) (m : ContextMessage) : ContextMessage :=
  { m with toolCalls := m.toolCalls ++ [call] }

def foldLoopEvent (s : Folded) : LoopRecordedEvent → Folded
  | .stepBegin uuid =>
    let settled := s.settleOpenStep.setOpenStep (some uuid)
    { settled with messages := settled.messages ++ [partialAssistant] }
  | .stepEnd _ => (s.setOpenStep none).settleOpenStep.flushDeferred
  | .contentPart _ part => { s with messages := appendToOpenAssistant s.messages (pushContent part) }
  | .toolCall _ toolCallId name args extras =>
    { messages :=
        appendToOpenAssistant s.messages (pushCall (recordedToolCall toolCallId name args extras))
      ctx := { s.ctx with pending := s.ctx.pending.set toolCallId () } }
  | .toolResult toolCallId result =>
    if s.ctx.pending.has toolCallId then
      Folded.flushDeferred
        { messages := s.messages ++ [toolResultMessage toolCallId result]
          ctx := { s.ctx with pending := s.ctx.pending.delete toolCallId } }
    else s

def NoneOpen (messages : List ContextMessage) : Prop := ∀ m ∈ messages, isOpen m = false

theorem findOpen_eq_none (h : NoneOpen ms) : findOpenAssistantIndex ms = none := by
  induction ms with
  | nil => rfl
  | cons m ms ih =>
    rw [findOpenAssistantIndex, ih fun x hx => h x (mem_cons_of_mem _ hx), h m mem_cons_self]
    rfl

theorem findOpen_eq_length (ha : isOpen a = true) (h : NoneOpen post) :
    findOpenAssistantIndex (pre ++ a :: post) = some pre.length := by
  induction pre with
  | nil => rw [nil_append, findOpenAssistantIndex, findOpen_eq_none h, ha]; rfl
  | cons m pre ih => rw [cons_append, findOpenAssistantIndex, ih]; rfl

theorem modify_append_length (f : α → α) (pre : List α) (a : α) (post : List α) :
    (pre ++ a :: post).modify pre.length f = pre ++ f a :: post := by
  induction pre with
  | nil => rfl
  | cons b pre ih => exact congrArg (b :: ·) ih

theorem appendToOpen_eq (ha : isOpen a = true) (h : NoneOpen post) (update : ContextMessage → ContextMessage) :
    appendToOpenAssistant (pre ++ a :: post) update = pre ++ update a :: post := by
  rw [appendToOpenAssistant, findOpen_eq_length ha h]
  exact modify_append_length update pre a post

theorem appendToOpen_none (h : NoneOpen ms) (update : ContextMessage → ContextMessage) :
    appendToOpenAssistant ms update = ms := by
  rw [appendToOpenAssistant, findOpen_eq_none h]

/-- What is left of a partial assistant once its step is settled. -/
def sealed (a : ContextMessage) : List ContextMessage :=
  if isVacuousStep a then [] else [{ a with isPartial := none }]

theorem sealOpen_eq (ha : isOpen a = true) (h : NoneOpen post) :
    Folded.sealOpen (pre ++ a :: post) = pre ++ (sealed a ++ post) := by
  rw [Folded.sealOpen, findOpen_eq_length ha h]
  simp only [getElem?_append_right le_rfl, Nat.sub_self, getElem?_cons_zero]
  by_cases hv : isVacuousStep a = true
  · rw [if_pos hv, sealed, if_pos hv, eraseIdx_append_of_length_le le_rfl]
    simp
  · rw [if_neg hv, sealed, if_neg hv]
    exact modify_append_length _ pre a post

theorem sealOpen_none (h : NoneOpen ms) : Folded.sealOpen ms = ms := by
  rw [Folded.sealOpen, findOpen_eq_none h]

namespace Folded

theorem flushDeferred_pending (s : Folded) : s.flushDeferred.ctx.pending = s.ctx.pending := by
  unfold flushDeferred
  split <;> rfl

theorem flushDeferred_messages {s : Folded} (h : s.ctx.pending.keys = []) :
    s.flushDeferred.messages = s.messages ++ s.ctx.deferred ∧ s.flushDeferred.ctx.deferred = [] := by
  unfold flushDeferred
  have hsize := (JsMap.size_eq_zero_iff _).mpr h
  by_cases hd : s.ctx.deferred.length = 0
  · rw [if_pos (.inr hd), length_eq_zero_iff.mp hd, append_nil]
    exact ⟨rfl, rfl⟩
  · rw [if_neg (by simp [hsize, hd])]
    exact ⟨rfl, rfl⟩

theorem flushDeferred_of_pending {s : Folded} (h : s.ctx.pending.keys ≠ []) : s.flushDeferred = s := by
  have hsize := mt (JsMap.size_eq_zero_iff _).mp h
  rw [flushDeferred, if_pos (.inl (Nat.pos_of_ne_zero hsize))]

theorem flushDeferred_of_nil {s : Folded} (h : s.ctx.deferred = []) : s.flushDeferred = s := by
  rw [flushDeferred, if_pos (.inr (by rw [h]; rfl))]

theorem closePending_messages (s : Folded) (h : s.ctx.pending.keys = [] → s.ctx.deferred = []) :
    s.closePending.messages = s.messages ++ (s.ctx.pending.keys.map interruptedToolMessage ++ s.ctx.deferred) ∧
      s.closePending.ctx.pending.keys = [] ∧ s.closePending.ctx.deferred = [] := by
  unfold closePending
  by_cases hp : s.ctx.pending.size = 0
  · have hkeys := (JsMap.size_eq_zero_iff _).mp hp
    rw [if_pos hp, hkeys, h hkeys]
    exact ⟨by simp, rfl, rfl⟩
  · rw [if_neg hp]
    obtain ⟨hm, hd⟩ := flushDeferred_messages (s :=
      { messages := s.messages ++ s.ctx.pending.keys.map interruptedToolMessage
        ctx := { s.ctx with pending := .empty } }) rfl
    exact ⟨by rw [hm]; simp, by rw [flushDeferred_pending]; rfl, hd⟩

theorem settleOpenStep_spec (s : Folded) (h : s.ctx.pending.keys = [] → s.ctx.deferred = []) :
    s.settleOpenStep.messages =
        sealOpen (s.messages ++ (s.ctx.pending.keys.map interruptedToolMessage ++ s.ctx.deferred)) ∧
      s.settleOpenStep.ctx.pending.keys = [] ∧ s.settleOpenStep.ctx.deferred = [] := by
  obtain ⟨hm, hrest⟩ := s.closePending_messages h
  exact ⟨congrArg sealOpen hm, hrest⟩

theorem settleOpenStep_setOpenStep (s : Folded) (uuid : Option String) :
    (s.setOpenStep uuid).settleOpenStep = s.settleOpenStep.setOpenStep uuid := by
  unfold settleOpenStep closePending flushDeferred setOpenStep
  split
  · rfl
  · split <;> rfl

end Folded

theorem foldLoopEvent_stepEnd {s : Folded} (h : s.ctx.pending.keys = [] → s.ctx.deferred = [])
    (uuid : String) : foldLoopEvent s (.stepEnd uuid) = s.settleOpenStep.setOpenStep none := by
  rw [foldLoopEvent, Folded.settleOpenStep_setOpenStep]
  exact Folded.flushDeferred_of_nil (s.settleOpenStep_spec h).2.2

end Echadron.Agent
