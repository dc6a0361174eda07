import Echadron.Tsugite.ResponseItems
import Echadron.Tsugite.ResponsesStream

namespace Echadron.Tsugite
open Lib Agent List Option

/-! A response that is streamed, assembled to a message and sent back. -/

/-- An item of a response, in the pieces that it is streamed in. The arguments of a call begin with
`opening`, go on with the deltas and end with `rest`, which only the finished item has. -/
inductive OutputItem where
  | message (deltas : List String)
  | reasoning (summaryParts : List (List String)) (encryptedContent : String)
  | functionCall (itemId : Option String) (outputIndex : Option Nat) (callId name opening : String)
      (deltas : List String) (rest : String)
deriving DecidableEq

namespace OutputItem

def item : OutputItem → ResponseItem
  | message deltas => .message (String.join deltas)
  | reasoning summaryParts encryptedContent => .reasoning (String.join summaryParts.flatten) (some encryptedContent)
  | functionCall _ _ callId name opening deltas rest =>
    .functionCall callId name (opening ++ String.join deltas ++ rest)

def isCall : OutputItem → Bool
  | functionCall .. => true
  | _ => false

def summaryEvents (summaryPart : List String) : List ResponsesEvent :=
  .reasoningSummaryPartAdded :: summaryPart.map .reasoningSummaryTextDelta

def events : OutputItem → List ResponsesEvent
  | message deltas =>
    .outputItemAdded .message none :: (deltas.map .outputTextDelta ++ [.outputItemDone .message none])
  | reasoning summaryParts encryptedContent =>
    .outputItemAdded (.reasoning none) none ::
      (summaryParts.flatMap summaryEvents ++ [.outputItemDone (.reasoning (some encryptedContent)) none])
  | functionCall itemId outputIndex callId name opening deltas rest =>
    .outputItemAdded (.functionCall itemId (some callId) (some name) (some opening)) outputIndex ::
      (deltas.map (.functionCallArgumentsDelta itemId outputIndex) ++
        [.functionCallArgumentsDone itemId outputIndex (opening ++ String.join deltas ++ rest), .outputItemDone
            (.functionCall itemId (some callId) (some name) (some (opening ++ String.join deltas ++ rest)))
            outputIndex])

def thoughts (summaryParts : List (List String)) : List String := summaryParts.flatMap fun part => "" :: part

def thoughtParts (thoughts : List String) (encryptedContent : String) : List (StreamedMessagePart StreamIndex) :=
  thoughts.map (fun think => .content (.think think none)) ++ [.content (.think "" (some encryptedContent))]

def parts : OutputItem → List (StreamedMessagePart StreamIndex)
  | message deltas => deltas.map fun delta => .content (.text delta)
  | reasoning summaryParts encryptedContent => thoughtParts (thoughts summaryParts) encryptedContent
  | functionCall itemId outputIndex callId name opening deltas rest =>
    .function { id := callId, name, arguments := some opening } (Responses.responseStreamIndex itemId outputIndex) ::
      ((deltas ++ if rest = "" then [] else [rest]).map fun delta =>
        .toolCallPart (some delta) (Responses.responseStreamIndex itemId outputIndex))

end OutputItem

inductive GivenId : OutputItem → OutputItem → Prop where
  | same (item : OutputItem) : GivenId item item
  | drawn (itemId : Option String) (outputIndex : Option Nat) (name opening : String) (deltas : List String)
      (rest id : String) : GivenId (.functionCall itemId outputIndex "" name opening deltas rest)
        (.functionCall itemId outputIndex id name opening deltas rest)

namespace Responses

open ResponsesDecoder

variable {randomUUID : Nat → String} {compactionSource : Option CompactionSource}

/-- Some events take the decoder from one state to another and yield parts. -/
def Emits (randomUUID : Nat → String) (compactionSource : Option CompactionSource) (d : ResponsesDecoder)
    (events : List ResponsesEvent) (d' : ResponsesDecoder) (parts : List (StreamedMessagePart StreamIndex)) : Prop :=
  ∀ more, convertStreamFrom randomUUID compactionSource d (events ++ more) =
    (convertStreamFrom randomUUID compactionSource d' more).map (parts ++ ·)

theorem Emits.nil (d : ResponsesDecoder) : Emits randomUUID compactionSource d [] d [] := by
  intro more
  change _ = (convertStreamFrom randomUUID compactionSource d more).map id
  rw [Except.map_id]
  rfl

theorem Emits.cons {d d' d'' : ResponsesDecoder} {event : ResponsesEvent} {events : List ResponsesEvent}
    {first rest : List (StreamedMessagePart StreamIndex)}
    (hfirst : d.convertEvent randomUUID compactionSource event = .ok (d', first))
    (hrest : Emits randomUUID compactionSource d' events d'' rest) :
    Emits randomUUID compactionSource d (event :: events) d'' (first ++ rest) := by
  intro more
  rw [cons_append, convertStreamFrom, hfirst]
  dsimp only
  rw [hrest more]
  cases convertStreamFrom randomUUID compactionSource d'' more with
  | error e => rfl
  | ok parts => exact congrArg Except.ok (append_assoc ..).symm

theorem Emits.append
    (hfirst : Emits randomUUID compactionSource d events d' first)
    (hrest : Emits randomUUID compactionSource d' events' d'' rest) :
    Emits randomUUID compactionSource d (events ++ events') d'' (first ++ rest) := by
  intro more
  rw [append_assoc, hfirst, hrest more]
  cases convertStreamFrom randomUUID compactionSource d'' more with
  | error e => rfl
  | ok parts => exact congrArg Except.ok (append_assoc ..).symm

theorem Emits.single
    (h : d.convertEvent randomUUID compactionSource event = .ok (d', parts)) :
    Emits randomUUID compactionSource d [event] d' parts := by
  have hcons := Emits.cons h (Emits.nil d')
  rwa [append_nil] at hcons

theorem Emits.map
    (h : ∀ text, d.convertEvent randomUUID compactionSource (event text) = .ok (d, [part text])) (texts : List String) :
    Emits randomUUID compactionSource d (texts.map event) d (texts.map part) := by
  induction texts with
  | nil => exact Emits.nil d
  | cons text texts ih => exact Emits.cons (h text) ih

theorem emits_summaries (d : ResponsesDecoder) (summaryParts : List (List String)) :
    Emits randomUUID compactionSource d (summaryParts.flatMap OutputItem.summaryEvents) d
      ((OutputItem.thoughts summaryParts).map fun think => .content (.think think none)) := by
  induction summaryParts with
  | nil => exact Emits.nil d
  | cons summaryPart summaryParts ih =>
    have hdeltas : Emits randomUUID compactionSource d (summaryPart.map .reasoningSummaryTextDelta) d
        (summaryPart.map fun think => .content (.think think none)) := Emits.map (fun _ => rfl) summaryPart
    have hpart := (Emits.cons rfl hdeltas :
      Emits randomUUID compactionSource d (OutputItem.summaryEvents summaryPart) d _)
    have hall := hpart.append ih
    have hthoughts : OutputItem.thoughts (summaryPart :: summaryParts) =
        ("" :: summaryPart) ++ OutputItem.thoughts summaryParts := flatMap_cons
    rw [hthoughts, map_append]
    exact hall

@[simp] theorem get_set (d : ResponsesDecoder) (streamIndex : Option StreamIndex) (arguments : String) :
    (d.setFunctionCallArguments streamIndex arguments).getFunctionCallArguments streamIndex = some arguments := by
  cases streamIndex with
  | none => rfl
  | some streamIndex => exact JsMap.get_set_self ..

theorem emits_deltas (randomUUID : Nat → String) (compactionSource : Option CompactionSource)
    (itemId : Option String) (outputIndex : Option Nat) (deltas : List String) :
    ∀ (d : ResponsesDecoder) (accumulated : String),
      d.getFunctionCallArguments (responseStreamIndex itemId outputIndex) = some accumulated →
      ∃ d', Emits randomUUID compactionSource d (deltas.map (.functionCallArgumentsDelta itemId outputIndex)) d'
          (deltas.map fun delta => .toolCallPart (some delta) (responseStreamIndex itemId outputIndex)) ∧
        d'.getFunctionCallArguments (responseStreamIndex itemId outputIndex) =
          some (accumulated ++ String.join deltas) := by
  induction deltas with
  | nil =>
    intro d accumulated h
    exact ⟨d, Emits.nil d, by rw [h, String.join_nil, String.append_empty]⟩
  | cons delta deltas ih =>
    intro d accumulated h
    obtain ⟨d', hrest, hget⟩ := ih (d.setFunctionCallArguments (responseStreamIndex itemId outputIndex)
      (accumulated ++ delta)) (accumulated ++ delta) (get_set ..)
    have hstep : d.convertEvent randomUUID compactionSource (.functionCallArgumentsDelta itemId outputIndex delta) =
        .ok (d.setFunctionCallArguments (responseStreamIndex itemId outputIndex) (accumulated ++ delta),
          [.toolCallPart (some delta) (responseStreamIndex itemId outputIndex)]) := by
      simp only [convertEvent, h]
    have hcons := Emits.cons hstep hrest
    exact ⟨d', hcons, by rw [hget, join_cons, String.append_assoc]⟩

theorem finalArguments_rest {d : ResponsesDecoder}
    (h : d.getFunctionCallArguments streamIndex = some accumulated) (rest context : String) :
    ∃ d', d.finalArguments streamIndex (accumulated ++ rest) context =
        .ok (d', (if rest = "" then [] else [rest]).map fun delta => .toolCallPart (some delta) streamIndex) ∧
      d'.getFunctionCallArguments streamIndex = some (accumulated ++ rest) := by
  rw [finalArguments, h]
  dsimp only
  by_cases hrest : rest = ""
  · refine ⟨d, ?_, ?_⟩
    · rw [hrest, String.append_empty, if_pos rfl]
      rfl
    · rw [h, hrest, String.append_empty]
  · have hmore : ¬ accumulated ++ rest = accumulated := by
      intro heq
      have hlists := congrArg String.toList heq
      rw [String.toList_append, append_right_eq_self] at hlists
      exact hrest (String.toList_inj.mp (hlists.trans String.toList_empty.symm))
    have hprefix : accumulated.toList <+: (accumulated ++ rest).toList := by
      rw [String.toList_append]
      exact prefix_append _ _
    have hsuffix : String.ofList ((accumulated ++ rest).toList.drop accumulated.length) = rest := by
      rw [String.toList_append, ← String.length_toList, drop_left, String.ofList_toList]
    have hlength : ¬ rest.length = 0 := by
      rw [← String.length_toList, length_eq_zero_iff]
      intro hnil
      exact hrest (String.toList_inj.mp (hnil.trans String.toList_empty.symm))
    refine ⟨d.setFunctionCallArguments streamIndex (accumulated ++ rest), ?_, get_set ..⟩
    rw [if_neg hmore, if_pos hprefix, hsuffix, if_neg hlength, if_neg hrest]
    rfl

section

variable (randomUUID : Nat → String) (compactionSource : Option CompactionSource)

theorem emits_call {d d' : ResponsesDecoder} {callId id name opening : String} (deltas : List String) (rest : String)
    (hadded : d.convertEvent randomUUID compactionSource
      (.outputItemAdded (.functionCall itemId (some callId) (some name) (some opening)) outputIndex) =
      .ok (d', [.function { id, name, arguments := some opening } (responseStreamIndex itemId outputIndex)]))
    (hopening : d'.getFunctionCallArguments (responseStreamIndex itemId outputIndex) = some opening) :
    ∃ d'', Emits randomUUID compactionSource d
      (OutputItem.functionCall itemId outputIndex callId name opening deltas rest).events d''
      (OutputItem.functionCall itemId outputIndex id name opening deltas rest).parts := by
  obtain ⟨d₁, hdeltas, hget⟩ := emits_deltas randomUUID compactionSource itemId outputIndex deltas _ opening hopening
  obtain ⟨d₂, hdone, hfinal⟩ := finalArguments_rest hget rest "response.function_call_arguments.done"
  obtain ⟨d₃, hitem, _⟩ := finalArguments_rest hfinal "" "response.output_item.done"
  rw [String.append_empty] at hitem
  have hdoneEvent : d₁.convertEvent randomUUID compactionSource (.functionCallArgumentsDone itemId outputIndex
      (opening ++ String.join deltas ++ rest)) = _ := hdone
  have hitemEvent : d₂.convertEvent randomUUID compactionSource (.outputItemDone
      (.functionCall itemId (some callId) (some name) (some (opening ++ String.join deltas ++ rest))) outputIndex) =
      _ := hitem
  have hall := Emits.cons hadded (hdeltas.append (Emits.cons hdoneEvent (Emits.single hitemEvent)))
  rw [if_pos rfl, map_nil, append_nil, ← map_append] at hall
  exact ⟨d₃, hall⟩

theorem emits_item (d : ResponsesDecoder) (item : OutputItem) :
    ∃ d' given, GivenId item given ∧ Emits randomUUID compactionSource d item.events d' given.parts := by
  cases item with
  | message deltas =>
    have hadded : d.convertEvent randomUUID compactionSource (.outputItemAdded .message none) = .ok (d, []) := rfl
    have hdone : d.convertEvent randomUUID compactionSource (.outputItemDone .message none) = .ok (d, []) := rfl
    have hdeltas : Emits randomUUID compactionSource d (deltas.map .outputTextDelta) d
        (deltas.map fun delta => .content (.text delta)) := Emits.map (fun _ => rfl) deltas
    have hall := Emits.cons hadded (hdeltas.append (Emits.single hdone))
    rw [append_nil] at hall
    exact ⟨d, _, .same _, hall⟩
  | reasoning summaryParts encryptedContent =>
    have hadded : d.convertEvent randomUUID compactionSource (.outputItemAdded (.reasoning none) none) =
        .ok (d, []) := rfl
    have hdone : d.convertEvent randomUUID compactionSource
        (.outputItemDone (.reasoning (some encryptedContent)) none) =
        .ok (d, [.content (.think "" (some encryptedContent))]) := rfl
    have hall := Emits.cons hadded ((emits_summaries d summaryParts).append (Emits.single hdone))
    exact ⟨d, _, .same _, hall⟩
  | functionCall itemId outputIndex callId name opening deltas rest =>
    by_cases hid : callId = ""
    · subst hid
      have hadded : d.convertEvent randomUUID compactionSource
          (.outputItemAdded (.functionCall itemId (some "") (some name) (some opening)) outputIndex) =
          .ok ((d.setFunctionCallArguments (responseStreamIndex itemId outputIndex) opening).draw,
            [.function { id := randomUUID _, name, arguments := some opening }
              (responseStreamIndex itemId outputIndex)]) := rfl
      have hopening := get_set d (responseStreamIndex itemId outputIndex) opening
      obtain ⟨d', hall⟩ := emits_call randomUUID compactionSource deltas rest hadded hopening
      exact ⟨d', _, .drawn itemId outputIndex name opening deltas rest _, hall⟩
    · have hadded : d.convertEvent randomUUID compactionSource
          (.outputItemAdded (.functionCall itemId (some callId) (some name) (some opening)) outputIndex) =
          .ok (d.setFunctionCallArguments (responseStreamIndex itemId outputIndex) opening,
            [.function { id := callId, name, arguments := some opening }
              (responseStreamIndex itemId outputIndex)]) := by
        have hlength : ¬ callId.length = 0 := by
          rw [← String.length_toList, length_eq_zero_iff]
          intro hnil
          exact hid (String.toList_inj.mp (hnil.trans String.toList_empty.symm))
        simp only [convertEvent, addedCall, functionCallId, if_neg hlength, getD_some]
      obtain ⟨d', hall⟩ := emits_call randomUUID compactionSource deltas rest hadded (get_set ..)
      exact ⟨d', _, .same _, hall⟩

theorem emits_output (d : ResponsesDecoder) (output : List OutputItem) :
    ∃ d' given, List.Forall₂ GivenId output given ∧ Emits randomUUID compactionSource d
      (output.flatMap OutputItem.events) d' (given.flatMap OutputItem.parts) := by
  induction output generalizing d with
  | nil => exact ⟨d, [], .nil, Emits.nil d⟩
  | cons item output ih =>
    obtain ⟨d', first, hfirst, hemits⟩ := emits_item randomUUID compactionSource d item
    obtain ⟨d'', rest, hrest, hall⟩ := ih d'
    exact ⟨d'', first :: rest, .cons hfirst hrest, hemits.append hall⟩

end

theorem convertStreamFrom_filter (d : ResponsesDecoder) (events : List ResponsesEvent) :
    convertStreamFrom randomUUID compactionSource d (events.filter fun event => decide (event ≠ .other)) =
      convertStreamFrom randomUUID compactionSource d events := by
  induction events generalizing d with
  | nil => rfl
  | cons event events ih =>
    rw [filter_cons]
    split
    · rw [convertStreamFrom, convertStreamFrom]
      split
      · rfl
      · rw [ih]
    · rename_i hother
      obtain rfl : event = .other := by simpa using hother
      rw [ih]
      cases hrest : convertStreamFrom randomUUID compactionSource d events <;>
        simp [convertStreamFrom, convertEvent, hrest]

theorem convertStreamResponse_output
    (h : (events.filter fun event => decide (event ≠ .other)) = output.flatMap OutputItem.events)
    (randomUUID : Nat → String) (compactionSource : Option CompactionSource) :
    ∃ given, List.Forall₂ GivenId output given ∧
      convertStreamResponse randomUUID compactionSource events = .ok (given.flatMap OutputItem.parts) := by
  obtain ⟨d, given, hgiven, hemits⟩ := emits_output randomUUID compactionSource {} output
  refine ⟨given, hgiven, ?_⟩
  have hnone := hemits []
  rw [append_nil, ← h, convertStreamFrom_filter] at hnone
  rw [convertStreamResponse, hnone]
  exact congrArg Except.ok (append_nil _)

end Responses

end Echadron.Tsugite
