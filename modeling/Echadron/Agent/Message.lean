import Echadron.Lib.JsString
import Echadron.Lib.Json

namespace Echadron.Agent
open Lib List

inductive Role where
  | system
  | user
  | assistant
  | tool
deriving DecidableEq

/-- The backend that emitted an opaque compaction state. -/
structure CompactionSource where
  model : String
  baseUrl : Option String := none
deriving DecidableEq

inductive ContentPart where
  | text (text : String)
  | think (think : String) (encrypted : Option String)
  | imageUrl (url : String) (id : Option String)
  | audioUrl (url : String) (id : Option String)
  | videoUrl (url : String) (id : Option String)
  | openaiCompaction (encryptedContent : String) (id : Option String)
      (source : Option CompactionSource)
deriving DecidableEq

structure ToolCall where
  id : String
  name : String
  arguments : Option String
  extras : Option (List (String × Json)) := none
deriving DecidableEq

structure Tool where
  name : String
  description : String
  parameters : Json
  deferred : Option Bool := none
deriving DecidableEq

/-- The provider-agnostic wire message. An absent property is `none`. -/
structure Message where
  role : Role
  name : Option String := none
  content : List ContentPart
  toolCalls : List ToolCall := []
  toolCallId : Option String := none
  isPartial : Option Bool := none
  tools : Option (List Tool) := none
deriving DecidableEq

inductive SlashTrigger where
  | userSlash
  | modelTool
  | nestedSkill
deriving DecidableEq

inductive ShellPhase where
  | input
  | output
deriving DecidableEq

/-- Where a history message came from. -/
inductive PromptOrigin where
  | user
  | skillActivation (activationId skillName : String) (trigger : SlashTrigger)
  | pluginCommand (activationId pluginId commandName : String)
  | injection (variant : String) (ownerPromptId : Option String)
  | shellCommand (phase : ShellPhase) (isError : Option Bool)
  | compactionSummary
  | systemTrigger (name : String)
  | task (taskId status notificationId : String)
  | cronJob (jobId cron : String) (recurring : Bool) (coalescedCount : Nat) (stale : Bool)
  | cronMissed (count : Nat)
  | hookResult (event : String) (blocked : Option Bool)
  | retry (trigger : Option String)
deriving DecidableEq

structure ContextMessage extends Message where
  id : Option String := none
  providerMessageId : Option String := none
  origin : Option PromptOrigin := none
  isError : Option Bool := none
  note : Option String := none
deriving DecidableEq

def createToolMessage (toolCallId : String) (content : List ContentPart) : ContextMessage :=
  { role := .tool, content := content, toolCallId := some toolCallId }

/-- A part that carries nothing the provider wire can represent. -/
def isVacuousContentPart : ContentPart → Bool
  | .text text => isBlank text
  | .think think encrypted => encrypted.isNone && isBlank think
  | _ => false

/-! Rendering of a stored tool result for the model. -/

def toolErrorStatus : String := "<system>ERROR: Tool execution failed.</system>"

def toolEmptyStatus : String := "<system>Tool output is empty.</system>"

def toolEmptyErrorStatus : String := "<system>ERROR: Tool execution failed. Tool output is empty.</system>"

def toolOutputEmptyText : String := "Tool output is empty."

structure RenderableToolResult where
  output : String ⊕ List ContentPart
  note : Option String := none
  isError : Option Bool := none

def singleTextPart : List ContentPart → Option String
  | [.text text] => some text
  | _ => none

def isEmptyOutputText (output : String) : Bool := isBlank output || decide (trim output = toolOutputEmptyText)

def isBlankText : ContentPart → Bool
  | .text text => isBlank text
  | _ => false

def isEmptyEquivalentContentArray (output : List ContentPart) : Bool := output.all isBlankText

def outputText : String ⊕ List ContentPart → Option String
  | .inl text => some text
  | .inr parts => singleTextPart parts

def outputParts : String ⊕ List ContentPart → List ContentPart
  | .inl text => [.text text]
  | .inr parts => parts

def renderStatus (result : RenderableToolResult) : List ContentPart :=
  match outputText result.output with
  | some single =>
    if result.isError = some true then
      if single.length = 0 then [.text toolEmptyErrorStatus]
      else [.text (toolErrorStatus ++ "\n" ++ single)]
    else if isEmptyOutputText single then [.text toolEmptyStatus]
    else [.text single]
  | none =>
    let parts := outputParts result.output
    if isEmptyEquivalentContentArray parts then
      [.text (if result.isError = some true then toolEmptyErrorStatus else toolEmptyStatus)]
    else if result.isError = some true then .text toolErrorStatus :: parts
    else parts

def renderToolResultForModel (result : RenderableToolResult) : List ContentPart :=
  let rendered := renderStatus result
  match result.note with
  | none => rendered
  | some note =>
    if note.length = 0 then rendered
    else match rendered with
      | [.text text] => [.text (text ++ "\n" ++ note)]
      | _ => rendered ++ [.text note]

theorem isBlank_append_of_left (h : isBlank s = false) (t : String) : isBlank (s ++ t) = false := by
  rw [isBlank_append, h, Bool.false_and]

theorem isBlank_toolErrorStatus : isBlank toolErrorStatus = false := by decide

theorem exists_not_blank_singleton (h : isBlank text = false) :
    ∃ part ∈ [ContentPart.text text], isBlankText part = false :=
  ⟨_, mem_singleton_self _, h⟩

theorem exists_not_blank_renderStatus (result : RenderableToolResult) :
    ∃ part ∈ renderStatus result, isBlankText part = false := by
  have hempty : isBlank toolEmptyStatus = false := by decide
  have hemptyError : isBlank toolEmptyErrorStatus = false := by decide
  have herror (text : String) : isBlank (toolErrorStatus ++ "\n" ++ text) = false :=
    isBlank_append_of_left (isBlank_append_of_left isBlank_toolErrorStatus _) _
  unfold renderStatus
  dsimp only
  split
  · rename_i single _
    split
    · split
      · exact exists_not_blank_singleton hemptyError
      · exact exists_not_blank_singleton (herror single)
    · split
      · exact exists_not_blank_singleton hempty
      · rename_i he
        rw [isEmptyOutputText, Bool.or_eq_true, not_or] at he
        exact exists_not_blank_singleton (Bool.eq_false_iff.mpr he.1)
  · split
    · apply exists_not_blank_singleton
      by_cases he : result.isError = some true
      · rw [if_pos he]; exact hemptyError
      · rw [if_neg he]; exact hempty
    · rename_i hne
      split
      · refine ⟨.text toolErrorStatus, mem_cons_self, ?_⟩
        exact isBlank_toolErrorStatus
      · rw [isEmptyEquivalentContentArray, all_eq_true] at hne
        push Not at hne
        obtain ⟨part, hm, hp⟩ := hne
        exact ⟨part, hm, Bool.eq_false_iff.mpr hp⟩

theorem exists_not_blank_render (result : RenderableToolResult) :
    ∃ part ∈ renderToolResultForModel result, isBlankText part = false := by
  obtain ⟨part, hm, hp⟩ := exists_not_blank_renderStatus result
  unfold renderToolResultForModel
  dsimp only
  split
  · exact ⟨part, hm, hp⟩
  · split
    · exact ⟨part, hm, hp⟩
    · split
      · rename_i text hr
        rw [hr, mem_singleton] at hm
        subst hm
        exact exists_not_blank_singleton (isBlank_append_of_left (isBlank_append_of_left hp _) _)
      · exact ⟨part, mem_append_left _ hm, hp⟩

end Echadron.Agent
