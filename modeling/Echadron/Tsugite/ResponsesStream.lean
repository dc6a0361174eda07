import Echadron.Tsugite.Generate

namespace Echadron.Tsugite
open Lib Agent

/-! The parts that the Responses provider makes of a stream of events. Errors are their messages. -/

deriving instance DecidableEq for StreamedMessagePart

/-- `streamIndex` of a call: the id of its item, or the place of the item in the output. -/
inductive StreamIndex where
  | itemId (id : String)
  | outputIndex (index : Nat)
deriving DecidableEq

/-- What `readResponseOutputItem` reads of an item. Contents and summaries have come with deltas. -/
inductive ResponseOutputItem where
  | message
  | functionCall (itemId callId name arguments : Option String)
  | reasoning (encryptedContent : Option String)
  | compaction (encryptedContent : String) (id : Option String)
  | other
deriving DecidableEq

/-- The chunks of a stream. `failed` is one that makes the decoder throw. -/
inductive ResponsesEvent where
  | outputTextDelta (delta : String)
  | outputItemAdded (item : ResponseOutputItem) (outputIndex : Option Nat)
  | outputItemDone (item : ResponseOutputItem) (outputIndex : Option Nat)
  | functionCallArgumentsDelta (itemId : Option String) (outputIndex : Option Nat) (delta : String)
  | functionCallArgumentsDone (itemId : Option String) (outputIndex : Option Nat) (arguments : String)
  | reasoningSummaryPartAdded
  | reasoningSummaryTextDelta (delta : String)
  | failed (message : String)
  | other
deriving DecidableEq

namespace Responses

def responseStreamIndex (itemId : Option String) (outputIndex : Option Nat) : Option StreamIndex :=
  match itemId with
  | some itemId => some (.itemId itemId)
  | none => outputIndex.map .outputIndex

def formatResponseStreamIndex : Option StreamIndex → String
  | none => "<unindexed>"
  | some (.itemId id) => id
  | some (.outputIndex index) => index.repr

/-- The decoder while it runs. `generated` counts the ids that it has drawn. -/
structure ResponsesDecoder where
  functionCallArgumentsByIndex : JsMap StreamIndex String := .empty
  unindexedFunctionCallArguments : Option String := none
  generated : Nat := 0

namespace ResponsesDecoder

def getFunctionCallArguments (d : ResponsesDecoder) : Option StreamIndex → Option String
  | none => d.unindexedFunctionCallArguments
  | some streamIndex => d.functionCallArgumentsByIndex.get streamIndex

def setFunctionCallArguments (d : ResponsesDecoder) (streamIndex : Option StreamIndex) (arguments : String) :
    ResponsesDecoder :=
  match streamIndex with
  | none => { d with unindexedFunctionCallArguments := some arguments }
  | some streamIndex =>
    { d with functionCallArgumentsByIndex := d.functionCallArgumentsByIndex.set streamIndex arguments }

abbrev Decoded := Except String (ResponsesDecoder × List (StreamedMessagePart StreamIndex))

/-- `yieldFinalArgumentsSuffix`. -/
def finalArguments (d : ResponsesDecoder) (streamIndex : Option StreamIndex) (arguments context : String) : Decoded :=
  match d.getFunctionCallArguments streamIndex with
  | none =>
    .error (context ++ ": received final function-call arguments for unknown stream index " ++
      formatResponseStreamIndex streamIndex ++ ".")
  | some accumulated =>
    if arguments = accumulated then .ok (d, [])
    else if accumulated.toList <+: arguments.toList then
      let suffix := String.ofList (arguments.toList.drop accumulated.length)
      .ok (d.setFunctionCallArguments streamIndex arguments,
        if suffix.length = 0 then [] else [.toolCallPart (some suffix) streamIndex])
    else
      .error ("OpenAI Responses final function-call arguments for stream index " ++
        formatResponseStreamIndex streamIndex ++ " do not match the streamed argument deltas.")

variable (randomUUID : Nat → String)

def draw (d : ResponsesDecoder) : ResponsesDecoder := { d with generated := d.generated + 1 }

def functionCallId (d : ResponsesDecoder) (callId : Option String) : String × ResponsesDecoder :=
  match callId with
  | none => (randomUUID d.generated, d.draw)
  | some callId => if callId.length = 0 then (randomUUID d.generated, d.draw) else (callId, d)

def addedCall (d : ResponsesDecoder) (streamIndex : Option StreamIndex) (callId name arguments : Option String) :
    Decoded :=
  let drawn := (d.setFunctionCallArguments streamIndex (arguments.getD "")).functionCallId randomUUID callId
  match name with
  | none => .error "OpenAI Responses function_call item is missing a name."
  | some name => .ok (drawn.2, [.function { id := drawn.1, name, arguments } streamIndex])

/-- The body of the loop over the chunks. -/
def convertEvent (compactionSource : Option CompactionSource) (d : ResponsesDecoder) : ResponsesEvent → Decoded
  | .outputTextDelta delta => .ok (d, [.content (.text delta)])
  | .outputItemAdded (.functionCall itemId callId name arguments) outputIndex =>
    d.addedCall randomUUID (responseStreamIndex itemId outputIndex) callId name arguments
  | .outputItemAdded _ _ => .ok (d, [])
  | .outputItemDone (.reasoning encryptedContent) _ => .ok (d, [.content (.think "" encryptedContent)])
  | .outputItemDone (.compaction encryptedContent id) _ =>
    .ok (d, [.content (.openaiCompaction encryptedContent id compactionSource)])
  | .outputItemDone (.functionCall itemId _ _ (some arguments)) outputIndex =>
    d.finalArguments (responseStreamIndex itemId outputIndex) arguments "response.output_item.done"
  | .outputItemDone _ _ => .ok (d, [])
  | .functionCallArgumentsDelta itemId outputIndex delta =>
    let streamIndex := responseStreamIndex itemId outputIndex
    match d.getFunctionCallArguments streamIndex with
    | none =>
      .error ("response.function_call_arguments.delta: received function-call arguments for unknown stream index " ++
        formatResponseStreamIndex streamIndex ++ ".")
    | some accumulated =>
      .ok (d.setFunctionCallArguments streamIndex (accumulated ++ delta), [.toolCallPart (some delta) streamIndex])
  | .functionCallArgumentsDone itemId outputIndex arguments =>
    d.finalArguments (responseStreamIndex itemId outputIndex) arguments "response.function_call_arguments.done"
  | .reasoningSummaryPartAdded => .ok (d, [.content (.think "" none)])
  | .reasoningSummaryTextDelta delta => .ok (d, [.content (.think delta none)])
  | .failed message => .error message
  | .other => .ok (d, [])

end ResponsesDecoder

def convertStreamFrom (randomUUID : Nat → String) (compactionSource : Option CompactionSource)
    (d : ResponsesDecoder) : List ResponsesEvent → Except String (List (StreamedMessagePart StreamIndex))
  | [] => .ok []
  | event :: events =>
    match d.convertEvent randomUUID compactionSource event with
    | .error e => .error e
    | .ok (d, parts) =>
      match convertStreamFrom randomUUID compactionSource d events with
      | .error e => .error e
      | .ok rest => .ok (parts ++ rest)

def convertStreamResponse (randomUUID : Nat → String) (compactionSource : Option CompactionSource)
    (events : List ResponsesEvent) : Except String (List (StreamedMessagePart StreamIndex)) :=
  convertStreamFrom randomUUID compactionSource {} events

end Responses

end Echadron.Tsugite
