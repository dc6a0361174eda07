import Echadron.Agent.CompactionHandoff
import Echadron.Tsugite.AnthropicRequest

namespace Echadron.Tsugite
open Lib Agent

/-! The messages that the Chat Completions provider sends for a history. -/

/-- True when an assistant turn contains only provider-owned opaque state. -/
def isOpaqueAssistantMessage (message : Message) : Bool :=
  decide (message.role = .assistant) && message.toolCalls.isEmpty && !message.content.isEmpty &&
    message.content.all fun
      | .openaiCompaction _ _ _ => true
      | _ => false

inductive OpenAIContentPart where
  | text (text : String)
  | imageUrl (url : String) (id : Option String)
  | audioUrl (url : String) (id : Option String)
  | videoUrl (url : String) (id : Option String)
deriving DecidableEq

inductive OpenAIContent where
  | text (text : String)
  | parts (parts : List OpenAIContentPart)
deriving DecidableEq

structure OpenAIToolCallOut where
  id : String
  name : String
  arguments : Option String
deriving DecidableEq

/-- `reasoning` stands under the reasoning key of the endpoint's dialect. -/
structure OpenAIMessage where
  role : Role
  content : Option OpenAIContent := none
  toolCalls : Option (List OpenAIToolCallOut) := none
  toolCallId : Option String := none
  name : Option String := none
  reasoning : Option String := none
deriving DecidableEq

inductive ToolMessageConversion where
  | extractText
deriving DecidableEq

namespace ChatCompletions

def toolResultMediaPrompt : String := "Attached media from tool result:"

def toolResultMediaPlaceholder : String := "(see attached media)"

def omittedAudioPlaceholder : String := "(audio omitted: not supported by this provider)"

def omittedVideoPlaceholder : String := "(video omitted: not supported by this provider)"

def convertContentPart : ContentPart → Option OpenAIContentPart
  | .text text => some (.text text)
  | .think _ _ => none
  | .imageUrl url id => some (.imageUrl url id)
  | .audioUrl url id => some (.audioUrl url id)
  | .videoUrl url id => some (.videoUrl url id)
  | .openaiCompaction _ _ _ => none

def isText : ContentPart → Bool
  | .text _ => true
  | _ => false

def isThink : ContentPart → Bool
  | .think _ _ => true
  | _ => false

def isImage : ContentPart → Bool
  | .imageUrl _ _ => true
  | _ => false

def isAudio : ContentPart → Bool
  | .audioUrl _ _ => true
  | _ => false

def isVideo : ContentPart → Bool
  | .videoUrl _ _ => true
  | _ => false

/-- The content of a tool message as text, with words for the media that are left out. -/
def extractedContent (content : List ContentPart) : String :=
  let text := extractText content
  let lines := (if text.length > 0 then [text] else []) ++
    (if content.any isAudio then [omittedAudioPlaceholder] else []) ++
    (if content.any isVideo then [omittedVideoPlaceholder] else [])
  if lines.length = 0 ∧ content.any isImage = true then toolResultMediaPlaceholder
  else "\n".intercalate lines

def convertToolMessageContentForChat (content : List ContentPart) : Option ToolMessageConversion → OpenAIContent
  | some .extractText => .text (extractedContent content)
  | none => .parts (content.filterMap convertContentPart)

/-- The content where no conversion is asked for. -/
def plainContent (nonThinkParts : List ContentPart) : Option OpenAIContent :=
  match nonThinkParts with
  | [] => none
  | [.text text] => some (.text text)
  | parts => some (.parts (parts.filterMap convertContentPart))

def thinkText : ContentPart → String
  | .think think _ => think
  | _ => ""

variable (toolMessageConversion : Option ToolMessageConversion) (preserveThinking : Bool)

/-- The content of a tool message. A result with media is always extracted as text. -/
def toolContent (message : Message) : Option OpenAIContent :=
  let nonThinkParts := message.content.filter fun part => !isThink part
  let effectiveConversion :=
    if message.content.any fun part => !isText part && !isThink part then some .extractText
    else toolMessageConversion
  match effectiveConversion with
  | some conversion => some (convertToolMessageContentForChat message.content (some conversion))
  | none => plainContent nonThinkParts

def convertMessage (message : Message) : OpenAIMessage :=
  let hasReasoningPart := message.content.any isThink
  let content :=
    if message.role = .tool then toolContent toolMessageConversion message
    else plainContent (message.content.filter fun part => !isThink part)
  let toolCalls :=
    if message.toolCalls.length > 0 then
      some (message.toolCalls.map fun toolCall =>
        { id := toolCall.id, name := toolCall.name, arguments := toolCall.arguments })
    else none
  { role := message.role
    -- a turn that was interrupted while it was thinking keeps the shape that gateways ask for
    content :=
      if message.role = .assistant ∧ hasReasoningPart = true ∧ content = none ∧ toolCalls = none then
        some (.text "")
      else content
    toolCalls
    toolCallId := message.toolCallId
    name := message.name
    reasoning :=
      if hasReasoningPart = true ∨ (preserveThinking = true ∧ message.role = .assistant) then
        some (String.join (message.content.map thinkText))
      else none }

def toolResultImageParts (message : Message) : List OpenAIContentPart :=
  (message.content.filter isImage).filterMap convertContentPart

def toolResultMediaMessage (pendingToolResultMedia : List OpenAIContentPart) : List OpenAIMessage :=
  if pendingToolResultMedia = [] then []
  else
    [{ role := .user
       content := some (.parts (.text toolResultMediaPrompt :: pendingToolResultMedia)) }]

/-- The loop over the history, with the images of tool results that no message has yet. -/
def convertFrom (pendingToolResultMedia : List OpenAIContentPart) : List Message → List OpenAIMessage
  | [] => toolResultMediaMessage pendingToolResultMedia
  | message :: history =>
    if isToolDeclarationOnlyMessage message || isOpaqueAssistantMessage message then
      convertFrom pendingToolResultMedia history
    else if message.role = .tool then
      convertMessage toolMessageConversion preserveThinking message ::
        convertFrom (pendingToolResultMedia ++ toolResultImageParts message) history
    else
      toolResultMediaMessage pendingToolResultMedia ++
        convertMessage toolMessageConversion preserveThinking message :: convertFrom [] history

def convertHistoryMessages (history : List Message) : List OpenAIMessage :=
  convertFrom toolMessageConversion preserveThinking [] history

/-- The messages that `generate` sends after the system prompt, where no trait shapes them. -/
def requestMessages (policy : ToolCallIdPolicy) (history : List Message) : Except String (List OpenAIMessage) :=
  (normalizeToolCallIdsForProvider history policy).map
    (convertHistoryMessages toolMessageConversion preserveThinking)

end ChatCompletions

end Echadron.Tsugite
