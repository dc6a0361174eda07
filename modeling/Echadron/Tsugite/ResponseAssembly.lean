import Echadron.Tsugite.ResponsesRoundTrip

namespace Echadron.Tsugite
open Lib Agent List

/-! The message that a streamed response is assembled to. -/

variable {s : Assembly StreamIndex}

/-- What the content says so far. -/
def Assembly.told (s : Assembly StreamIndex) : List ResponseItem := joined (s.finish.content.map contentItem)

/-- No thought is still open. -/
def Assembly.Closed (s : Assembly StreamIndex) : Prop := ∀ think, s.pendingPart ≠ some (.content (.think think none))

theorem mergeInPlace_function (pending : StreamedMessagePart StreamIndex) (call : ToolCall)
    (streamIndex : Option StreamIndex) : mergeInPlace pending (.function call streamIndex) = none := by
  cases pending <;> rfl

theorem mergeInPlace_text {pending : StreamedMessagePart StreamIndex}
    (h : ∀ text, pending ≠ .content (.text text)) (delta : String) :
    mergeInPlace pending (.content (.text delta)) = none := by
  cases pending with
  | content part =>
    cases part with
    | text text => exact absurd rfl (h text)
    | think think encrypted => cases encrypted <;> rfl
    | _ => rfl
  | _ => rfl

theorem mergeInPlace_think {pending : StreamedMessagePart StreamIndex}
    (h : ∀ think, pending ≠ .content (.think think none)) (think : String) (encrypted : Option String) :
    mergeInPlace pending (.content (.think think encrypted)) = none := by
  cases pending with
  | content part =>
    cases part with
    | think before encryptedBefore =>
      cases encryptedBefore with
      | none => exact absurd rfl (h before)
      | some _ => rfl
    | _ => rfl
  | _ => rfl

theorem content_place
    (h : ∀ pending, s.pendingPart = some pending → mergeInPlace pending (.content part) = none) :
    (s.place (.content part)).finish.content = s.finish.content ++ [part] ∧
      (s.place (.content part)).finish.toolCalls = s.finish.toolCalls := by
  rw [place_of_unmerged h]
  exact ⟨rfl, rfl⟩

theorem take_text (s : Assembly StreamIndex) (delta : String)
    (hspoken : ∀ part ∈ s.finish.content, isSpoken part = true) :
    (s.take (.content (.text delta))).told = push s.told (.message delta) ∧
      (s.take (.content (.text delta))).finish.toolCalls = s.finish.toolCalls ∧
      (s.take (.content (.text delta))).Closed ∧
      ∀ part ∈ (s.take (.content (.text delta))).finish.content, isSpoken part = true := by
  change (s.place (.content (.text delta))).told = _ ∧ (s.place (.content (.text delta))).finish.toolCalls = _ ∧
    (s.place (.content (.text delta))).Closed ∧
    ∀ part ∈ (s.place (.content (.text delta))).finish.content, isSpoken part = true
  by_cases htext : ∃ text, s.pendingPart = some (.content (.text text))
  · obtain ⟨text, hpending⟩ := htext
    have hplace : s.place (.content (.text delta)) =
        { s with pendingPart := some (.content (.text (text ++ delta))) } := by
      rw [Assembly.place, hpending]
      rfl
    have hbefore : s.finish.content = s.content ++ [.text text] := by
      rw [finish_of_some hpending]
      rfl
    have hafter : (s.place (.content (.text delta))).finish.content = s.content ++ [.text (text ++ delta)] := by
      rw [hplace]
      rfl
    refine ⟨?_, ?_, ?_, ?_⟩
    · rw [Assembly.told, Assembly.told, hbefore, hafter, map_append, map_append, joined_append, joined_append]
      exact (push_message _ text delta).symm
    · rw [hplace, finish_of_some hpending]
      rfl
    · rw [hplace]
      intro think hthink
      cases hthink
    · rw [hafter]
      rw [hbefore] at hspoken
      intro part hpart
      rcases mem_snoc.mp hpart with hpart | rfl
      · exact hspoken part (mem_append_left _ hpart)
      · rfl
  · have hunmerged : ∀ pending, s.pendingPart = some pending →
        mergeInPlace pending (.content (.text delta)) = none := by
      intro pending hpending
      apply mergeInPlace_text
      intro text heq
      exact htext ⟨text, hpending.trans (congrArg some heq)⟩
    obtain ⟨hcontent, hcalls⟩ := content_place hunmerged
    refine ⟨?_, hcalls, ?_, ?_⟩
    · rw [Assembly.told, hcontent, map_append, joined_append]
      rfl
    · rw [place_of_unmerged hunmerged]
      intro think hthink
      cases hthink
    · rw [hcontent]
      intro part hpart
      rcases mem_snoc.mp hpart with hpart | rfl
      · exact hspoken part hpart
      · rfl

theorem take_thoughts (encryptedContent : String) (thoughts : List String) :
    ∀ (s : Assembly StreamIndex) (think : String), s.pendingPart = some (.content (.think think none)) →
      (OutputItem.thoughtParts thoughts encryptedContent).foldl Assembly.take s =
        { s with pendingPart := some (.content (.think (think ++ String.join thoughts) (some encryptedContent))) } := by
  induction thoughts with
  | nil =>
    intro s think hpending
    change s.place _ = _
    rw [Assembly.place, hpending]
    rfl
  | cons thought thoughts ih =>
    intro s think hpending
    have htake : s.take (.content (.think thought none)) =
        { s with pendingPart := some (.content (.think (think ++ thought) none)) } := by
      change s.place _ = _
      rw [Assembly.place, hpending]
      rfl
    have hrest := ih { s with pendingPart := some (.content (.think (think ++ thought) none)) } (think ++ thought) rfl
    rw [OutputItem.thoughtParts, map_cons, cons_append, foldl_cons, htake, join_cons, ← String.append_assoc]
    exact hrest

theorem take_reasoning (hclosed : s.Closed) (thoughts : List String) (encryptedContent : String) :
    (OutputItem.thoughtParts thoughts encryptedContent).foldl Assembly.take s =
      { s.finish with
        pendingPart := some (.content (.think (String.join thoughts) (some encryptedContent))) } := by
  have hunmerged : ∀ (think : String) (encrypted : Option String) (pending : StreamedMessagePart StreamIndex),
      s.pendingPart = some pending → mergeInPlace pending (.content (.think think encrypted)) = none := by
    intro think encrypted pending hpending
    apply mergeInPlace_think
    intro before heq
    exact hclosed before (hpending.trans (congrArg some heq))
  cases thoughts with
  | nil => exact place_of_unmerged (hunmerged "" (some encryptedContent))
  | cons thought thoughts =>
    have htake : s.take (.content (.think thought none)) =
        { s.finish with pendingPart := some (.content (.think thought none)) } :=
      place_of_unmerged (hunmerged thought none)
    have hrest := take_thoughts encryptedContent thoughts
      { s.finish with pendingPart := some (.content (.think thought none)) } thought rfl
    rw [OutputItem.thoughtParts, map_cons, cons_append, foldl_cons, htake, join_cons]
    exact hrest

theorem take_arguments (id name : String) (streamIndex : Option StreamIndex) (deltas : List String) :
    ∀ (s : Assembly StreamIndex) (arguments : String),
      s.pendingPart = some (.function { id, name, arguments := some arguments } streamIndex) →
      (deltas.map fun delta => .toolCallPart (some delta) streamIndex).foldl Assembly.take s =
        { s with
          pendingPart := some (.function { id, name, arguments := some (arguments ++ String.join deltas) }
            streamIndex) } := by
  induction deltas with
  | nil =>
    intro s arguments hpending
    rw [String.join_nil, String.append_empty, ← hpending]
    rfl
  | cons delta deltas ih =>
    intro s arguments hpending
    have hplace : s.place (.toolCallPart (some delta) streamIndex) =
        { s with pendingPart := some (.function { id, name, arguments := some (arguments ++ delta) } streamIndex) } := by
      rw [Assembly.place, hpending]
      rfl
    have htake : s.take (.toolCallPart (some delta) streamIndex) =
        s.place (.toolCallPart (some delta) streamIndex) := by
      cases streamIndex with
      | none => rfl
      | some index =>
        have hown : Assembly.isPendingToolCallAtIndex s.pendingPart index = true := by
          rw [hpending]
          exact decide_eq_true rfl
        rw [Assembly.take, if_pos hown]
    rw [map_cons, foldl_cons, htake, hplace, ih _ (arguments ++ delta) rfl, join_cons, String.append_assoc]

def OutputItem.toolCall : OutputItem → Option ToolCall
  | .functionCall _ _ callId name opening deltas rest =>
    some { id := callId, name, arguments := some (opening ++ String.join deltas ++ rest) }
  | _ => none

/-- What is assembled of some items. -/
structure Holds (output : List OutputItem) (s : Assembly StreamIndex) : Prop where
  told : s.told = joined ((output.filter fun item => !item.isCall).map OutputItem.item)
  calls : s.finish.toolCalls = output.filterMap OutputItem.toolCall
  spoken : ∀ part ∈ s.finish.content, isSpoken part = true
  closed : s.Closed

theorem take_texts (deltas : List String) :
    ∀ s : Assembly StreamIndex, s.Closed → (∀ part ∈ s.finish.content, isSpoken part = true) →
      ((deltas.map fun delta => .content (.text delta)).foldl Assembly.take s).told =
          push s.told (.message (String.join deltas)) ∧
        ((deltas.map fun delta => .content (.text delta)).foldl Assembly.take s).finish.toolCalls =
          s.finish.toolCalls ∧
        ((deltas.map fun delta => .content (.text delta)).foldl Assembly.take s).Closed ∧
        ∀ part ∈ ((deltas.map fun delta => .content (.text delta)).foldl Assembly.take s).finish.content,
          isSpoken part = true := by
  induction deltas with
  | nil =>
    intro s hclosed hspoken
    exact ⟨rfl, rfl, hclosed, hspoken⟩
  | cons delta deltas ih =>
    intro s _ hspoken
    obtain ⟨htold, hcalls, hclosed, hspoken⟩ := take_text s delta hspoken
    obtain ⟨htold', hcalls', hclosed', hspoken'⟩ := ih _ hclosed hspoken
    rw [map_cons, foldl_cons]
    refine ⟨?_, hcalls'.trans hcalls, hclosed', hspoken'⟩
    rw [htold', htold, push_message, join_cons]

theorem join_append (texts more : List String) : String.join (texts ++ more) = String.join texts ++ String.join more := by
  induction texts with
  | nil => rw [nil_append, String.join_nil, String.empty_append]
  | cons text texts ih => rw [cons_append, join_cons, ih, join_cons, String.append_assoc]

theorem join_thoughts (summaryParts : List (List String)) :
    String.join (OutputItem.thoughts summaryParts) = String.join summaryParts.flatten := by
  induction summaryParts with
  | nil => rfl
  | cons summaryPart summaryParts ih =>
    have hthoughts : OutputItem.thoughts (summaryPart :: summaryParts) =
        ("" :: summaryPart) ++ OutputItem.thoughts summaryParts := flatMap_cons
    rw [hthoughts, join_append, ih, flatten_cons, join_append, join_cons, String.empty_append]

theorem Holds.take_item (h : Holds output s) (item : OutputItem) :
    Holds (output ++ [item]) (item.parts.foldl Assembly.take s) := by
  cases item with
  | message deltas =>
    obtain ⟨htold, hcalls, hclosed, hspoken⟩ := take_texts deltas s h.closed h.spoken
    refine ⟨?_, ?_, hspoken, hclosed⟩
    · rw [filter_append, map_append, joined_append, ← h.told]
      exact htold
    · rw [filterMap_append, ← h.calls]
      exact hcalls.trans (append_nil _).symm
  | reasoning summaryParts encryptedContent =>
    have htake := take_reasoning h.closed (OutputItem.thoughts summaryParts) encryptedContent
    rw [join_thoughts] at htake
    have hcontent : ((OutputItem.reasoning summaryParts encryptedContent).parts.foldl Assembly.take s).finish.content =
        s.finish.content ++ [.think (String.join summaryParts.flatten) (some encryptedContent)] := by
      rw [OutputItem.parts, htake]
      rfl
    refine ⟨?_, ?_, ?_, ?_⟩
    · rw [Assembly.told, hcontent, map_append, joined_append, filter_append, map_append, joined_append, ← h.told]
      rfl
    · rw [OutputItem.parts, htake, filterMap_append, ← h.calls]
      exact (append_nil _).symm
    · rw [hcontent]
      intro part hpart
      rcases mem_snoc.mp hpart with hpart | rfl
      · exact h.spoken part hpart
      · rfl
    · rw [OutputItem.parts, htake]
      intro think hthink
      cases hthink
  | functionCall itemId outputIndex callId name opening deltas rest =>
    have hstart : s.take (.function { id := callId, name, arguments := some opening }
        (Responses.responseStreamIndex itemId outputIndex)) =
        { s.finish with
          pendingPart := some (.function { id := callId, name, arguments := some opening }
            (Responses.responseStreamIndex itemId outputIndex)) } :=
      place_of_unmerged fun pending _ => mergeInPlace_function pending _ _
    have hrest : String.join (if rest = "" then [] else [rest]) = rest := by
      split
      · rename_i hempty
        rw [hempty]
        rfl
      · rw [join_cons, String.join_nil, String.append_empty]
    have htake : (OutputItem.functionCall itemId outputIndex callId name opening deltas rest).parts.foldl
        Assembly.take s =
        { s.finish with
          pendingPart := some (.function
            { id := callId, name, arguments := some (opening ++ String.join deltas ++ rest) }
            (Responses.responseStreamIndex itemId outputIndex)) } := by
      rw [OutputItem.parts, foldl_cons, hstart, take_arguments callId name _ _ _ opening rfl, join_append, hrest,
        String.append_assoc]
    have hfinish : ∀ (s : Assembly StreamIndex) (call : ToolCall) (streamIndex : Option StreamIndex),
        ({ s with pendingPart := some (.function call streamIndex) } : Assembly StreamIndex).finish.content =
            s.content ∧
          ({ s with pendingPart := some (.function call streamIndex) } : Assembly StreamIndex).finish.toolCalls =
            s.toolCalls ++ [call] := by
      intro s call streamIndex
      cases streamIndex <;> exact ⟨rfl, rfl⟩
    rw [htake]
    refine ⟨?_, ?_, ?_, ?_⟩
    · rw [Assembly.told, (hfinish s.finish _ _).1, filter_append, map_append, joined_append, ← h.told]
      rfl
    · rw [(hfinish s.finish _ _).2, filterMap_append, ← h.calls]
      rfl
    · rw [(hfinish s.finish _ _).1]
      exact h.spoken
    · intro think hthink
      cases hthink

theorem holds_output (output : List OutputItem) :
    Holds output ((output.flatMap OutputItem.parts).foldl Assembly.take ({} : Assembly StreamIndex)) := by
  induction output using reverseRecOn with
  | nil =>
    refine ⟨rfl, rfl, ?_, ?_⟩
    · intro part hpart
      cases hpart
    · intro think hthink
      cases hthink
  | append_singleton output item ih =>
    rw [flatMap_append, foldl_append, flatMap_cons, flatMap_nil, append_nil]
    exact ih.take_item item

end Echadron.Tsugite

namespace Echadron.Tsugite
open Lib Agent List

/-! What of a response the next request gives back. -/

theorem push_call {item : OutputItem} (h : item.isCall = true) (items : List ResponseItem) :
    push items item.item = items ++ [item.item] := by
  cases item with
  | functionCall => rfl
  | _ => cases h

theorem foldl_calls {calls : List OutputItem} (h : ∀ call ∈ calls, call.isCall = true) (items : List ResponseItem) :
    (calls.map OutputItem.item).foldl push items = items ++ calls.map OutputItem.item := by
  induction calls generalizing items with
  | nil => exact (append_nil _).symm
  | cons call calls ih =>
    rw [forall_mem_cons] at h
    rw [map_cons, foldl_cons, push_call h.1, ih h.2, append_assoc]
    rfl

theorem sent_calls (output : List OutputItem) :
    ((output.filterMap OutputItem.toolCall).map Responses.functionCallItem).map readBack =
      (output.filter OutputItem.isCall).map OutputItem.item := by
  induction output with
  | nil => rfl
  | cons item output ih =>
    cases item with
    | functionCall itemId outputIndex callId name opening deltas rest => exact congrArg (cons _) ih
    | _ => exact ih

/-- A streamed response that is assembled and sent back: the reasoning and the messages come back in their
order, each with its own encrypted content, and then the calls in theirs. -/
theorem response_sentBack (toLowerCase : String → String) (modelName : String)
    (toolMessageConversion : Option ToolMessageConversion) (compactionTarget : CompactionSource)
    (randomUUID : Nat → String) (compactionSource : Option CompactionSource)
    {output : List OutputItem} {events : List ResponsesEvent}
    (hevents : (events.filter fun event => decide (event ≠ .other)) = output.flatMap OutputItem.events) :
    ∃ given, List.Forall₂ GivenId output given ∧
      Responses.convertStreamResponse randomUUID compactionSource events = .ok (given.flatMap OutputItem.parts) ∧
      ∀ message, generate (given.flatMap OutputItem.parts) = .ok message →
        joined ((Responses.convertMessage toLowerCase compactionTarget modelName toolMessageConversion
          message).map readBack) =
          joined ((given.filter fun item => !item.isCall).map OutputItem.item) ++
            (given.filter OutputItem.isCall).map OutputItem.item := by
  obtain ⟨given, hgiven, hparts⟩ := Responses.convertStreamResponse_output hevents randomUUID compactionSource
  refine ⟨given, hgiven, hparts, ?_⟩
  intro message hmessage
  obtain rfl := generate_ok hmessage
  have hholds := holds_output given
  have hempty : (Responses.Gathered.parts []).Sound := by
    intro part hpart
    cases hpart
  have hcontent := @Responses.convertContent_told toLowerCase compactionTarget _ hholds.spoken _ hempty []
  have hcalls : ∀ call ∈ given.filter OutputItem.isCall, call.isCall = true := fun call hcall =>
    (mem_filter.mp hcall).2
  have hassistant : ¬ Role.assistant = .tool := by decide
  rw [Responses.convertMessage, if_neg hassistant, map_append, joined_append, hholds.calls, sent_calls]
  have hrole : Responses.roleName toLowerCase modelName .assistant = "assistant" := rfl
  rw [hrole, joined, hcontent, foldl_calls hcalls]
  exact congrArg (· ++ _) hholds.told

def interleavedThinking : List OutputItem :=
  [.reasoning [["Look", "."]] "e1", .functionCall (some "fc1") (some 1) "c1" "list" "" ["\x7b", "\x7d"] "",
    .reasoning [["Read", "."], []] "e2", .functionCall none (some 3) "c2" "read" "" ["\x7b\"p\":"] "1\x7d",
    .message ["On", " it"]]

theorem response_sentBack_interleaved : (∃ given, List.Forall₂ GivenId interleavedThinking given ∧
      Responses.convertStreamResponse (fun _ => "u") none (.other :: interleavedThinking.flatMap OutputItem.events) =
        .ok (given.flatMap OutputItem.parts) ∧
      ∀ message, generate (given.flatMap OutputItem.parts) = .ok message →
        joined ((Responses.convertMessage id { model := "m" } "m" none message).map readBack) =
          joined ((given.filter fun item => !item.isCall).map OutputItem.item) ++
            (given.filter OutputItem.isCall).map OutputItem.item) ∧
      generate (interleavedThinking.flatMap OutputItem.parts) = .ok
        { role := .assistant
          content := [.think "Look." (some "e1"), .think "Read." (some "e2"), .text "On it"]
          toolCalls := [{ id := "c1", name := "list", arguments := some "\x7b\x7d" },
            { id := "c2", name := "read", arguments := some "\x7b\"p\":1\x7d" }] } :=
  ⟨response_sentBack id "m" none { model := "m" } (fun _ => "u") none (by decide +kernel), by decide +kernel⟩

/-- A call before a message is sent behind it. -/
theorem call_sentBehind : ¬ ∀ (output : List OutputItem) (message : Message),
      Responses.convertStreamResponse (fun _ => "u") none (output.flatMap OutputItem.events) =
        .ok (output.flatMap OutputItem.parts) →
      generate (output.flatMap OutputItem.parts) = .ok message →
      joined ((Responses.convertMessage id { model := "m" } "m" none message).map readBack) =
        joined (output.map OutputItem.item) := by
  intro h
  have hsent := h [.functionCall none (some 0) "c1" "list" "\x7b\x7d" [] "", .message ["Listed"]]
    { role := .assistant, content := [.text "Listed"]
      toolCalls := [{ id := "c1", name := "list", arguments := some "\x7b\x7d" }] } (by decide +kernel) (by decide +kernel)
  exact absurd hsent (by decide +kernel)

end Echadron.Tsugite
