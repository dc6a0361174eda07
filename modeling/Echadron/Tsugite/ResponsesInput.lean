import Echadron.Tsugite.ChatCompletionsRequest

namespace Echadron.Tsugite
open Lib Agent

/-! The input items that the Responses provider sends for a message. -/

inductive ResponseContentItem where
  | inputText (text : String)
  | outputText (text : String)
  | inputImage (imageUrl : String) (detail : Option String)
  | inputFileData (fileData filename : String)
  | inputFileUrl (fileUrl : String)
deriving DecidableEq

inductive FunctionOutput where
  | text (text : String)
  | items (items : List ResponseContentItem)
deriving DecidableEq

inductive ResponseInputItem where
  | functionCallOutput (callId : String) (output : FunctionOutput)
  | message (role : String) (content : List ResponseContentItem)
  | reasoning (summary : List String) (encryptedContent : Option String)
  | compaction (encryptedContent : String) (id : Option String)
  | functionCall (arguments callId name : String)
deriving DecidableEq

namespace Responses

def omittedAudioPlaceholder : String := "(audio omitted: unsupported audio format)"

def omittedVideoPlaceholder : String := "(video omitted: not supported by this provider)"

def normalizeBaseUrl (value : Option String) : Option String :=
  value.map fun url => String.ofList (url.toList.rdropWhile fun c => c == '/')

def canReplayCompaction (source : Option CompactionSource) (target : CompactionSource) : Bool :=
  match source with
  | none => true
  | some source =>
    decide (source.model = target.model ∧ normalizeBaseUrl source.baseUrl = normalizeBaseUrl target.baseUrl)

variable (toLowerCase : String → String)

def mapAudioUrlToInputItem (url : String) : Option ResponseContentItem :=
  if url.startsWith "data:audio/" then
    match url.splitOn "," with
    | header :: b64 :: _ =>
      match header.splitOn "/" with
      | _ :: subtypePart :: _ =>
        let subtype := toLowerCase ((subtypePart.splitOn ";").headD "")
        if subtype = "mp3" ∨ subtype = "mpeg" then some (.inputFileData b64 "inline.mp3")
        else if subtype = "wav" then some (.inputFileData b64 "inline.wav")
        else none
      | _ => none
    | _ => none
  else if url.startsWith "http://" || url.startsWith "https://" then some (.inputFileUrl url)
  else none

/-- An item of a message or of a function's output. Only messages ask for a `detail`. -/
def inputItem (detail : Option String) : ContentPart → List ResponseContentItem
  | .text text => if text = "" then [] else [.inputText text]
  | .imageUrl url _ => [.inputImage url detail]
  | .audioUrl url _ => [(mapAudioUrlToInputItem toLowerCase url).getD (.inputText omittedAudioPlaceholder)]
  | .videoUrl _ _ => [.inputText omittedVideoPlaceholder]
  | .think _ _ => []
  | .openaiCompaction _ _ _ => []

def contentPartsToInputItems (parts : List ContentPart) : List ResponseContentItem :=
  parts.flatMap (inputItem toLowerCase (some "auto"))

def outputItem : ContentPart → List ResponseContentItem
  | .text text => if text = "" then [] else [.outputText text]
  | _ => []

def contentPartsToOutputItems (parts : List ContentPart) : List ResponseContentItem := parts.flatMap outputItem

def messageContentToFunctionOutputItems (content : List ContentPart) : List ResponseContentItem :=
  content.flatMap (inputItem toLowerCase none)

def isMediaPart (part : ContentPart) : Bool := !ChatCompletions.isText part && !ChatCompletions.isThink part

def developerRoleModels : List String :=
  ["gpt-4.1", "gpt-4.1-mini", "gpt-4.1-nano", "gpt-5-codex", "o1", "o1-mini", "o1-pro", "o3", "o3-mini",
    "o3-pro", "o4-mini"]

def usesOpenAIResponsesDeveloperRole (modelName : String) : Bool :=
  developerRoleModels.contains (toLowerCase modelName) ||
    developerRoleModels.any fun catalogued => (toLowerCase modelName).startsWith (catalogued ++ "-")

def roleName (modelName : String) : Role → String
  | .system => if usesOpenAIResponsesDeveloperRole toLowerCase modelName then "developer" else "system"
  | .user => "user"
  | .assistant => "assistant"
  | .tool => "tool"

/-- The parts that the loop over the content has gathered for the next item. -/
inductive Gathered where
  | parts (pendingParts : List ContentPart)
  | thoughts (summaries : List String) (encryptedValue : Option String)

variable (role : String) (compactionTarget : CompactionSource)

def Gathered.flush : Gathered → List ResponseInputItem
  | .parts [] => []
  | .parts pendingParts =>
    [.message role (if role = "assistant" then contentPartsToOutputItems pendingParts
      else contentPartsToInputItems toLowerCase pendingParts)]
  | .thoughts summaries encryptedValue => [.reasoning summaries encryptedValue]

/-- The loop over the content. -/
def convertContent (g : Gathered) : List ContentPart → List ResponseInputItem
  | [] => g.flush toLowerCase role
  | .think think encrypted :: rest =>
    match g with
    | .thoughts summaries encryptedValue =>
      if encrypted = encryptedValue then convertContent (.thoughts (summaries ++ [think]) encryptedValue) rest
      else g.flush toLowerCase role ++ convertContent (.thoughts [think] encrypted) rest
    | .parts _ => g.flush toLowerCase role ++ convertContent (.thoughts [think] encrypted) rest
  | .openaiCompaction encryptedContent id source :: rest =>
    g.flush toLowerCase role ++
      (if canReplayCompaction source compactionTarget then [.compaction encryptedContent id] else []) ++
      convertContent (.parts []) rest
  | part :: rest =>
    match g with
    | .parts pendingParts => convertContent (.parts (pendingParts ++ [part])) rest
    | .thoughts _ _ => g.flush toLowerCase role ++ convertContent (.parts [part]) rest

def functionCallItem (toolCall : ToolCall) : ResponseInputItem :=
  .functionCall (toolCall.arguments.getD "\x7b\x7d") toolCall.id toolCall.name

def functionOutput (toolMessageConversion : Option ToolMessageConversion) (content : List ContentPart) :
    FunctionOutput :=
  match toolMessageConversion with
  | some .extractText =>
    let text := extractText content
    .text (if text.length = 0 ∧ content.any isMediaPart = true then ChatCompletions.toolResultMediaPlaceholder
      else text)
  | none => .items (messageContentToFunctionOutputItems toLowerCase content)

def convertMessage (modelName : String) (toolMessageConversion : Option ToolMessageConversion) (message : Message) :
    List ResponseInputItem :=
  if message.role = .tool then
    [.functionCallOutput (message.toolCallId.getD "")
      (functionOutput toLowerCase toolMessageConversion message.content)]
  else
    convertContent toLowerCase (roleName toLowerCase modelName message.role) compactionTarget (.parts [])
      message.content ++ message.toolCalls.map functionCallItem

end Responses

end Echadron.Tsugite
