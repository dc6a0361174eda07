import Echadron.Tsugite.ToolCallId
import Mathlib.Data.List.Chain

namespace Echadron.Tsugite

/-! Consecutive messages of the user in one, for wire formats with alternating roles. -/

structure MergePolicy (T : Type) where
  isUser : T → Bool
  isToolResultOnly : T → Bool
  merge : T → T → T

variable {T : Type} (mergePolicy : MergePolicy T)

def MergePolicy.joins (last message : T) : Bool :=
  mergePolicy.isUser last && mergePolicy.isUser message &&
    (mergePolicy.isToolResultOnly last || !mergePolicy.isToolResultOnly message)

/-- The body of the loop over the messages. -/
def mergeStep (out : List T) (message : T) : List T :=
  match out.getLast? with
  | none => out ++ [message]
  | some last =>
    if mergePolicy.joins last message then out.dropLast ++ [mergePolicy.merge last message]
    else out ++ [message]

def mergeConsecutiveUserMessages (messages : List T) : List T := messages.foldl (mergeStep mergePolicy) []

/-- What the rest of the messages makes of the last message so far. -/
def mergeFrom (last : T) : List T → List T
  | [] => [last]
  | message :: messages =>
    if mergePolicy.joins last message then mergeFrom (mergePolicy.merge last message) messages
    else last :: mergeFrom message messages

theorem foldl_mergeStep (done : List T) (last : T) (messages : List T) :
    messages.foldl (mergeStep mergePolicy) (done ++ [last]) = done ++ mergeFrom mergePolicy last messages := by
  induction messages generalizing done last with
  | nil => rfl
  | cons message messages ih =>
    rw [List.foldl_cons, mergeStep, List.getLast?_concat, mergeFrom]
    dsimp only
    split
    · rw [List.dropLast_concat]
      exact ih done _
    · rw [ih (done ++ [last]) message, List.append_assoc, List.singleton_append]

theorem mergeConsecutive_cons (message : T) (messages : List T) :
    mergeConsecutiveUserMessages mergePolicy (message :: messages) = mergeFrom mergePolicy message messages :=
  foldl_mergeStep mergePolicy [] message messages

end Echadron.Tsugite

namespace Echadron.Tsugite
open Lib Agent

/-! The messages that the Anthropic provider sends for a history. Errors are their messages. -/

def isToolDeclarationOnlyMessage (message : Message) : Bool :=
  decide (message.tools.getD [] ≠ []) && message.content.isEmpty && message.toolCalls.isEmpty

inductive ParamRole where
  | user
  | assistant
deriving DecidableEq

inductive MediaSource where
  | base64 (mediaType data : String)
  | url (url : String)
deriving DecidableEq

/-- A block inside of a tool result. -/
inductive ResultBlockParam where
  | text (text : String)
  | image (source : MediaSource)
  | video (source : MediaSource)
deriving DecidableEq

inductive ContentBlockParam where
  | text (text : String)
  | image (source : MediaSource)
  | video (source : MediaSource)
  | thinking (thinking : String) (signature : Option String)
  | toolUse (id name : String) (input : List (String × Json))
  | toolResult (toolUseId : String) (content : List ResultBlockParam)
deriving DecidableEq

structure MessageParam where
  role : ParamRole
  content : List ContentBlockParam
deriving DecidableEq

namespace Anthropic

/-- `OMITTED_MEDIA_PLACEHOLDER`, which has one entry. -/
def omittedAudioPlaceholder : String := "(audio omitted: not supported by this provider)"

def supportedB64MediaTypes : List String := ["image/png", "image/jpeg", "image/gif", "image/webp"]

def supportedB64VideoTypes : List String :=
  ["video/mp4", "video/mpeg", "video/quicktime", "video/webm", "video/x-matroska", "video/x-msvideo",
    "video/x-flv", "video/3gpp"]

/-- The source of an image or a video at a URL. `kind` is the word for it in the errors. -/
def mediaUrlPart (supported : List String) (kind : String) (url : String) : Except String MediaSource :=
  if url.startsWith "data:" then
    match (String.ofList (url.toList.drop 5)).splitOn ";base64," with
    | mediaType :: data :: _ =>
      if supported.contains mediaType then .ok (.base64 mediaType data)
      else .error ("Unsupported media type for base64 " ++ kind ++ ": " ++ mediaType ++ ", url: " ++ url)
    | _ => .error ("Invalid data URL for " ++ kind ++ ": " ++ url)
  else .ok (.url url)

def imageUrlPartToAnthropic (url : String) : Except String MediaSource :=
  mediaUrlPart supportedB64MediaTypes "image" url

def videoUrlPartToAnthropic (url : String) : Except String MediaSource :=
  mediaUrlPart supportedB64VideoTypes "video" url

/-- The body of the loop of `toolResultToBlock`. -/
def pushResultPart (blocks : List ResultBlockParam) (part : ContentPart) : Except String (List ResultBlockParam) :=
  match part with
  | .text text => .ok (if text = "" then blocks else blocks ++ [.text text])
  | .imageUrl url _ => (imageUrlPartToAnthropic url).map fun source => blocks ++ [.image source]
  | .videoUrl url _ => (videoUrlPartToAnthropic url).map fun source => blocks ++ [.video source]
  | .audioUrl _ _ =>
    .ok (if blocks.getLast? = some (.text omittedAudioPlaceholder) then blocks
      else blocks ++ [.text omittedAudioPlaceholder])
  | .think _ _ => .ok blocks
  | .openaiCompaction _ _ _ => .ok blocks

def toolResultToBlock (toolCallId : String) (content : List ContentPart) : Except String ContentBlockParam :=
  (content.foldlM pushResultPart []).map (.toolResult toolCallId)

variable (parseJson : String → Option Json) (preserveUnsignedThinking : Bool)

/-- The body of the loop over the content of a message. -/
def pushPart (blocks : List ContentBlockParam) (part : ContentPart) : Except String (List ContentBlockParam) :=
  match part with
  | .text text => .ok (blocks ++ [.text text])
  | .imageUrl url _ => (imageUrlPartToAnthropic url).map fun source => blocks ++ [.image source]
  | .think think (some encrypted) => .ok (blocks ++ [.thinking think (some encrypted)])
  | .think think none => .ok (if preserveUnsignedThinking then blocks ++ [.thinking think none] else blocks)
  | .videoUrl url _ => (videoUrlPartToAnthropic url).map fun source => blocks ++ [.video source]
  | .audioUrl _ _ =>
    .ok (if blocks.getLast? = some (.text omittedAudioPlaceholder) then blocks
      else blocks ++ [.text omittedAudioPlaceholder])
  | .openaiCompaction _ _ _ => .ok blocks

/-- The arguments of a call as an object. No arguments are the empty object. -/
def toolInput (arguments : Option String) : Except String (List (String × Json)) :=
  if arguments.getD "" = "" then .ok []
  else
    match parseJson (arguments.getD "") with
    | none => .error "Tool call arguments must be valid JSON."
    | some (.obj fields) => .ok fields
    | some _ => .error "Tool call arguments must be a JSON object."

def toolUseBlock (toolCall : ToolCall) : Except String ContentBlockParam :=
  (toolInput parseJson toolCall.arguments).map (.toolUse toolCall.id toolCall.name)

def contentBlocks (message : Message) : Except String (List ContentBlockParam) := do
  let blocks ← message.content.foldlM (pushPart preserveUnsignedThinking) []
  let calls ← message.toolCalls.mapM (toolUseBlock parseJson)
  return blocks ++ calls

def systemText (content : List ContentPart) : String :=
  "\n".intercalate (content.filterMap fun
    | .text text => some text
    | _ => none)

def convertMessage (message : Message) : Except String MessageParam :=
  match message.role with
  | .system => .ok { role := .user, content := [.text ("<system>" ++ systemText message.content ++ "</system>")] }
  | .tool =>
    match message.toolCallId with
    | none => .error "Tool message missing `toolCallId`."
    | some toolCallId =>
      (toolResultToBlock toolCallId message.content).map fun block => { role := .user, content := [block] }
  | .user =>
    (contentBlocks parseJson preserveUnsignedThinking message).map fun content => { role := .user, content }
  | .assistant =>
    (contentBlocks parseJson preserveUnsignedThinking message).map fun content => { role := .assistant, content }

def shouldKeepConvertedMessage (message : MessageParam) : Bool :=
  decide (message.role ≠ .assistant) || decide (0 < message.content.length)

def isToolResult : ContentBlockParam → Bool
  | .toolResult _ _ => true
  | _ => false

def isToolResultOnly (message : MessageParam) : Bool :=
  decide (message.role = .user) && !message.content.isEmpty && message.content.all isToolResult

def mergePolicy : MergePolicy MessageParam where
  isUser message := decide (message.role = .user)
  isToolResultOnly := isToolResultOnly
  merge last next := { last with content := last.content ++ next.content }

def toolCallIdPolicy : ToolCallIdPolicy where
  normalize id := sanitizeToolCallId id (some 64)
  maxLength := some 64

/-- The messages of the request that `generate` sends. -/
def requestMessages (history : List Message) : Except String (List MessageParam) := do
  let normalized ← normalizeToolCallIdsForProvider
    (history.filter fun message => !isToolDeclarationOnlyMessage message) toolCallIdPolicy
  let converted ← normalized.mapM (convertMessage parseJson preserveUnsignedThinking)
  return mergeConsecutiveUserMessages mergePolicy (converted.filter shouldKeepConvertedMessage)

end Anthropic

end Echadron.Tsugite
