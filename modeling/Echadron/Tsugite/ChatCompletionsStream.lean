import Echadron.Tsugite.Generate

namespace Echadron.Tsugite
open Lib Agent

/-! How a stream of chat completion chunks is turned into parts. -/

structure ToolFunctionDelta where
  name : Option String := none
  arguments : Option String := none
deriving DecidableEq

structure ToolCallDelta (I : Type) where
  index : Option I := none
  id : Option String := none
  function : Option ToolFunctionDelta := none
deriving DecidableEq

structure BufferedToolCall where
  id : Option String := none
  arguments : String := ""
  emitted : Bool := false

/-- A delta of a chunk; `reasoning` is the text that the dialect of the provider reads from it. -/
structure CompletionDelta (I : Type) where
  reasoning : Option String := none
  content : Option String := none
  toolCalls : List (ToolCallDelta I) := []

variable {I : Type} [DecidableEq I]

def ToolFunctionDelta.concreteName (f : ToolFunctionDelta) : Option String :=
  f.name.filter fun name => decide (name ≠ "")

def ToolFunctionDelta.hasArguments (f : ToolFunctionDelta) : Bool :=
  match f.arguments with
  | some arguments => decide (arguments ≠ "")
  | none => false

/-- The buffer of the stream, and the number of ids that were generated. -/
structure StreamDecoder (I : Type) [DecidableEq I] where
  bufferedByIndex : JsMap I BufferedToolCall := .empty
  generated : Nat := 0

namespace StreamDecoder

-- `crypto.randomUUID`, by the number of the call.
variable (randomUUID : Nat → String)

section

variable (d : StreamDecoder I)

def idOr (id : Option String) : String := id.getD (randomUUID d.generated)

def drawn (id : Option String) : StreamDecoder I :=
  if id.isSome then d else { d with generated := d.generated + 1 }

def putBuffer (streamIndex : I) (b : BufferedToolCall) : StreamDecoder I :=
  { d with bufferedByIndex := d.bufferedByIndex.set streamIndex b }

def convertWithoutIndex (id : Option String) (f : ToolFunctionDelta) :
    StreamDecoder I × List (StreamedMessagePart I) :=
  match f.concreteName with
  | some name => (d.drawn id, [.function { id := d.idOr randomUUID id, name := name, arguments := f.arguments } none])
  | none => (d, if f.hasArguments then [.toolCallPart f.arguments none] else [])

def convertAtIndex (streamIndex : I) (id : Option String) (f : ToolFunctionDelta) :
    StreamDecoder I × List (StreamedMessagePart I) :=
  let before := (d.bufferedByIndex.get streamIndex).getD {}
  let buffered := { before with id := id.or before.id }
  if buffered.emitted then
    (d.putBuffer streamIndex buffered, if f.hasArguments then [.toolCallPart f.arguments (some streamIndex)] else [])
  else
    match f.concreteName with
    | none =>
      (d.putBuffer streamIndex
        (if f.hasArguments then { buffered with arguments := buffered.arguments ++ f.arguments.getD "" }
        else buffered), [])
    | some name =>
      let initialArguments :=
        if buffered.arguments ≠ "" then some (buffered.arguments ++ f.arguments.getD "") else f.arguments
      ((d.putBuffer streamIndex { buffered with emitted := true, arguments := "" }).drawn buffered.id,
        [.function { id := d.idOr randomUUID buffered.id, name := name, arguments := initialArguments }
          (some streamIndex)])

def convertChatCompletionStreamToolCall (toolCall : ToolCallDelta I) :
    StreamDecoder I × List (StreamedMessagePart I) :=
  match toolCall.function with
  | none => (d, [])
  | some f =>
    match toolCall.index with
    | none => d.convertWithoutIndex randomUUID toolCall.id f
    | some streamIndex => d.convertAtIndex randomUUID streamIndex toolCall.id f

end

end StreamDecoder

/-- What a delta brings, in the order in which it is converted. -/
inductive StreamItem (I : Type) where
  | think (think : String)
  | text (text : String)
  | toolCall (toolCall : ToolCallDelta I)

def CompletionDelta.items (delta : CompletionDelta I) : List (StreamItem I) :=
  (delta.reasoning.toList.map .think) ++
    ((delta.content.filter fun content => decide (content ≠ "")).toList.map .text) ++
    delta.toolCalls.map .toolCall

variable (randomUUID : Nat → String)

def convertItem (d : StreamDecoder I) : StreamItem I → StreamDecoder I × List (StreamedMessagePart I)
  | .think think => (d, [.content (.think think none)])
  | .text text => (d, [.content (.text text)])
  | .toolCall toolCall => d.convertChatCompletionStreamToolCall randomUUID toolCall

def convertItems (d : StreamDecoder I) : List (StreamItem I) → List (StreamedMessagePart I)
  | [] => []
  | item :: items => (convertItem randomUUID d item).2 ++ convertItems (convertItem randomUUID d item).1 items

def convertStreamResponse (deltas : List (CompletionDelta I)) : List (StreamedMessagePart I) :=
  convertItems randomUUID {} (deltas.flatMap CompletionDelta.items)

end Echadron.Tsugite
