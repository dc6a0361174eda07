import Echadron.Tsugite.RequestTurns

namespace Echadron.Tsugite
open Lib Agent List Option

namespace Anthropic

/-- What the loops over the content append for a part. -/
structure Pushed (part : ContentPart) (added : List ContentBlockParam) : Prop where
  texts : (textOf part).Sublist (added.flatMap ContentBlockParam.texts)
  uses : toolUses added = []
  results : toolResults added = []

variable {parseJson : String → Option Json} {preserveUnsignedThinking : Bool}

theorem pushPart_ok
    (h : pushPart preserveUnsignedThinking blocks part = .ok result) :
    ∃ added, result = blocks ++ added ∧ Pushed part added := by
  have hnothing : textOf part = [] → ∃ added, blocks = blocks ++ added ∧ Pushed part added := fun hsilent =>
    ⟨[], (append_nil _).symm, by rw [hsilent]; exact nil_sublist _, rfl, rfl⟩
  have hblock : ∀ block : ContentBlockParam, (textOf part).Sublist block.texts → toolUses [block] = [] →
      toolResults [block] = [] → ∃ added, blocks ++ [block] = blocks ++ added ∧ Pushed part added :=
    fun block htexts huses hresults => ⟨[block], rfl, by simpa using htexts, huses, hresults⟩
  cases part with
  | text text =>
    cases h
    exact hblock (.text text) (List.Sublist.refl _) rfl rfl
  | think think encrypted =>
    cases encrypted with
    | some encrypted =>
      cases h
      exact hblock _ (nil_sublist _) rfl rfl
    | none =>
      cases h
      split
      · exact hblock _ (nil_sublist _) rfl rfl
      · exact hnothing rfl
  | imageUrl url id =>
    obtain ⟨source, _, rfl⟩ := map_ok h
    exact hblock _ (nil_sublist _) rfl rfl
  | audioUrl url id =>
    cases h
    split
    · exact hnothing rfl
    · exact hblock _ (nil_sublist _) rfl rfl
  | videoUrl url id =>
    obtain ⟨source, _, rfl⟩ := map_ok h
    exact hblock _ (nil_sublist _) rfl rfl
  | openaiCompaction encryptedContent id source =>
    cases h
    exact hnothing rfl

theorem pushPart_empty
    (h : pushPart preserveUnsignedThinking blocks part = .ok result) :
    result = [] ↔ blocks = [] ∧ leavesBlock preserveUnsignedThinking part = false := by
  cases part with
  | text text =>
    cases h
    simp [leavesBlock]
  | think think encrypted =>
    cases encrypted with
    | some encrypted =>
      cases h
      simp [leavesBlock]
    | none =>
      cases h
      cases preserveUnsignedThinking <;> simp [leavesBlock]
  | imageUrl url id =>
    obtain ⟨source, _, rfl⟩ := map_ok h
    simp [leavesBlock]
  | audioUrl url id =>
    cases h
    split
    · rename_i hlast
      have hne : blocks ≠ [] := by
        rintro rfl
        cases hlast
      simp [hne]
    · simp [leavesBlock]
  | videoUrl url id =>
    obtain ⟨source, _, rfl⟩ := map_ok h
    simp [leavesBlock]
  | openaiCompaction encryptedContent id source =>
    cases h
    simp [leavesBlock]

theorem foldlM_pushPart_empty {content : List ContentPart}
    (h : content.foldlM (pushPart preserveUnsignedThinking) blocks = .ok result) :
    result = [] ↔ blocks = [] ∧ content.any (leavesBlock preserveUnsignedThinking) = false := by
  induction content generalizing blocks with
  | nil =>
    cases h
    simp
  | cons part content ih =>
    obtain ⟨next, hnext, h⟩ := bind_ok h
    rw [ih h, pushPart_empty hnext, any_cons, Bool.or_eq_false_iff, and_assoc]

theorem pushed_all
    (h : List.Forall₂ Pushed content added) :
    (content.flatMap textOf).Sublist (added.flatten.flatMap ContentBlockParam.texts) ∧
      toolUses added.flatten = [] ∧ toolResults added.flatten = [] := by
  induction h with
  | nil => exact ⟨List.Sublist.refl _, rfl, rfl⟩
  | cons hfirst _ ih =>
    obtain ⟨htexts, huses, hresults⟩ := ih
    refine ⟨?_, ?_, ?_⟩
    · rw [flatten_cons, flatMap_append]
      exact hfirst.texts.append htexts
    · rw [flatten_cons, toolUses_append, hfirst.uses, huses]
      rfl
    · rw [flatten_cons, toolResults_append, hfirst.results, hresults]
      rfl

theorem toolUseBlocks_ok
    (h : List.Forall₂ (fun call block => toolUseBlock parseJson call = .ok block) calls blocks) :
    toolUses blocks = calls.map ToolCall.id ∧ toolResults blocks = [] := by
  induction h with
  | nil => exact ⟨rfl, rfl⟩
  | cons hfirst _ ih =>
    obtain ⟨input, _, rfl⟩ := map_ok hfirst
    exact ⟨congrArg (cons _) ih.1, ih.2⟩

theorem contentBlocks_ok {message : Message}
    (h : contentBlocks parseJson preserveUnsignedThinking message = .ok blocks) :
    (message.content.flatMap textOf).Sublist (blocks.flatMap ContentBlockParam.texts) ∧
      toolUses blocks = message.toolCalls.map ToolCall.id ∧ toolResults blocks = [] ∧
      (blocks = [] ↔ leavesBlocks preserveUnsignedThinking message = false) := by
  obtain ⟨parts, hparts, h⟩ := bind_ok h
  obtain ⟨calls, hcalls, h⟩ := bind_ok h
  cases h
  have hempty := foldlM_pushPart_empty hparts
  have hforall := forall₂_of_mapM hcalls
  obtain ⟨huses, hresults⟩ := toolUseBlocks_ok hforall
  have hstep : ∀ out part out', pushPart preserveUnsignedThinking out part = .ok out' →
      ∃ added, out' = out ++ added ∧ Pushed part added := fun _ _ _ => pushPart_ok
  obtain ⟨added, rfl, hadded⟩ := foldlM_appends hstep hparts
  obtain ⟨htexts, hpartUses, hpartResults⟩ := pushed_all hadded
  rw [nil_append] at hempty ⊢
  refine ⟨?_, ?_, ?_, ?_⟩
  · rw [flatMap_append]
    exact htexts.trans (sublist_append_left _ _)
  · rw [toolUses_append, hpartUses, huses, nil_append]
  · rw [toolResults_append, hpartResults, hresults]
    rfl
  · have hnone : calls = [] ↔ message.toolCalls = [] := by
      rw [← length_eq_zero_iff, ← hforall.length_eq, length_eq_zero_iff]
    rw [append_eq_nil_iff, hempty, hnone, leavesBlocks]
    simp [and_comm]

theorem pushResultPart_ok
    (h : pushResultPart blocks part = .ok result) :
    ∃ added, result = blocks ++ added ∧
      ((textOf part).filter fun text => decide (text ≠ "")).Sublist (added.flatMap ResultBlockParam.texts) := by
  cases part with
  | text text =>
    cases h
    split
    · rename_i hempty
      exact ⟨[], (append_nil _).symm, by simp [textOf, hempty]⟩
    · exact ⟨[.text text], rfl, filter_sublist⟩
  | think think encrypted =>
    cases h
    exact ⟨[], (append_nil _).symm, nil_sublist _⟩
  | imageUrl url id =>
    obtain ⟨source, _, rfl⟩ := map_ok h
    exact ⟨_, rfl, nil_sublist _⟩
  | audioUrl url id =>
    cases h
    split
    · exact ⟨[], (append_nil _).symm, nil_sublist _⟩
    · exact ⟨_, rfl, nil_sublist _⟩
  | videoUrl url id =>
    obtain ⟨source, _, rfl⟩ := map_ok h
    exact ⟨_, rfl, nil_sublist _⟩
  | openaiCompaction encryptedContent id source =>
    cases h
    exact ⟨[], (append_nil _).symm, nil_sublist _⟩

theorem toolResultToBlock_ok
    (h : toolResultToBlock toolCallId content = .ok block) :
    ∃ blocks, block = .toolResult toolCallId blocks ∧
      ((content.flatMap textOf).filter fun text => decide (text ≠ "")).Sublist
        (blocks.flatMap ResultBlockParam.texts) := by
  obtain ⟨blocks, hblocks, rfl⟩ := map_ok h
  have hstep : ∀ out part out', pushResultPart out part = .ok out' → ∃ added, out' = out ++ added ∧
      ((textOf part).filter fun text => decide (text ≠ "")).Sublist (added.flatMap ResultBlockParam.texts) :=
    fun _ _ _ => pushResultPart_ok
  obtain ⟨added, rfl, hadded⟩ := foldlM_appends hstep hblocks
  refine ⟨_, rfl, ?_⟩
  rw [nil_append]
  clear h hblocks
  induction hadded with
  | nil => exact List.Sublist.refl _
  | cons hfirst _ ih =>
    rw [flatMap_cons, filter_append, flatten_cons, flatMap_append]
    exact hfirst.append ih

structure Converted (preserveUnsignedThinking : Bool) (message : Message) (param : MessageParam) : Prop where
  role : param.role = .assistant ↔ message.role = .assistant
  results : message.role = .tool →
    isToolResultOnly param = true ∧ (toolResults param.content).map some = [message.toolCallId]
  plain : message.role ≠ .assistant → message.role ≠ .tool → Plain param
  uses : message.role = .assistant → toolUses param.content = message.toolCalls.map ToolCall.id
  kept : message.role = .assistant → (param.content = [] ↔ leavesBlocks preserveUnsignedThinking message = false)
  texts : (spokenTexts message).Sublist param.texts

theorem convertMessage_ok
    (h : convertMessage parseJson preserveUnsignedThinking message = .ok param) :
    Converted preserveUnsignedThinking message param := by
  unfold convertMessage at h
  split at h
  · rename_i hrole
    cases h
    constructor <;> simp [hrole, Plain, toolResults, spokenTexts]
  · rename_i hrole
    split at h
    · cases h
    · rename_i toolCallId hid
      obtain ⟨block, hblock, rfl⟩ := map_ok h
      obtain ⟨blocks, rfl, htexts⟩ := toolResultToBlock_ok hblock
      constructor
      · simp [hrole]
      · intro _
        exact ⟨rfl, by simp [toolResults, hid]⟩
      · intro _ htool
        exact absurd hrole htool
      · simp [hrole]
      · simp [hrole]
      · simpa [spokenTexts, hrole, MessageParam.texts, ContentBlockParam.texts] using htexts
  · rename_i hrole
    obtain ⟨blocks, hblocks, rfl⟩ := map_ok h
    obtain ⟨htexts, huses, hresults, hempty⟩ := contentBlocks_ok hblocks
    constructor
    · simp [hrole]
    · simp [hrole]
    · intro _ _
      exact ⟨rfl, hresults⟩
    · simp [hrole]
    · simp [hrole]
    · simpa [spokenTexts, hrole, MessageParam.texts] using htexts
  · rename_i hrole
    obtain ⟨blocks, hblocks, rfl⟩ := map_ok h
    obtain ⟨htexts, huses, hresults, hempty⟩ := contentBlocks_ok hblocks
    constructor
    · simp [hrole]
    · simp [hrole]
    · intro hassistant
      exact absurd hrole hassistant
    · intro _
      exact huses
    · intro _
      exact hempty
    · simp [spokenTexts, hrole]

theorem Converted.user
    (h : Converted preserveUnsignedThinking message param) (hrole : message.role ≠ .assistant) :
    param.role = .user :=
  user_of_ne fun hassistant => hrole (h.role.mp hassistant)

theorem Converted.tool
    (h : Converted preserveUnsignedThinking message param) (hresult : isToolResultOnly param = true) :
    message.role = .tool := by
  by_contra htool
  have hrole : message.role ≠ .assistant := by
    intro hassistant
    exact absurd ((role_of_results hresult).symm.trans (h.role.mpr hassistant)) (by decide)
  exact absurd (hresult.symm.trans (h.plain hrole htool).not_results) (by decide)

theorem keeps_of_user (h : param.role = .user) : shouldKeepConvertedMessage param = true := by
  simp [shouldKeepConvertedMessage, h]

theorem Converted.dropped
    (h : Converted preserveUnsignedThinking message param) (hdrop : ¬ shouldKeepConvertedMessage param = true) :
    message.role = .assistant ∧ leavesBlocks preserveUnsignedThinking message = false := by
  have hrole : message.role = .assistant := by
    by_contra hrole
    exact hdrop (keeps_of_user (h.user hrole))
  refine ⟨hrole, (h.kept hrole).mp ?_⟩
  by_contra hne
  apply hdrop
  rw [shouldKeepConvertedMessage, Bool.or_eq_true]
  exact .inr (decide_eq_true (length_pos_iff.mpr hne))

/-- Where the messages of a conversation may stand. -/
structure Ordered (preserveUnsignedThinking : Bool) (messages : List Message) : Prop where
  apart : messages.IsChain fun a b => a.role = .assistant → b.role ≠ .assistant
  placed : messages.IsChain fun a b => b.role = .tool →
    a.role = .tool ∨ (a.role = .assistant ∧ leavesBlocks preserveUnsignedThinking a = true)

theorem Ordered.tail
    (h : Ordered preserveUnsignedThinking (message :: messages)) : Ordered preserveUnsignedThinking messages :=
  ⟨h.apart.tail, h.placed.tail⟩

variable {messages : List Message} {params : List MessageParam}

theorem Ordered.after_dropped (h : Ordered preserveUnsignedThinking (message :: messages))
    (hall : List.Forall₂ (Converted preserveUnsignedThinking) messages params)
    (hrole : message.role = .assistant) (hdropped : leavesBlocks preserveUnsignedThinking message = false) :
    ∀ param ∈ (params.filter shouldKeepConvertedMessage).head?, isToolResultOnly param = false := by
  cases hall with
  | nil =>
    intro param hparam
    cases hparam
  | cons hnext hrest =>
    have hapart := (isChain_cons_cons.mp h.apart).1 hrole
    rw [filter_cons_of_pos (keeps_of_user (hnext.user hapart))]
    intro param hparam
    cases hparam
    by_contra hresult
    rw [Bool.not_eq_false] at hresult
    rcases (isChain_cons_cons.mp h.placed).1 (hnext.tool hresult) with htool | ⟨_, hleaves⟩
    · exact absurd (hrole.symm.trans htool) (by decide)
    · exact absurd (hdropped.symm.trans hleaves) (by decide)

theorem kept_apart (happart : messages.IsChain fun a b => a.role = .assistant → b.role ≠ .assistant)
    (hall : List.Forall₂ (Converted preserveUnsignedThinking) messages params) :
    (params.filter shouldKeepConvertedMessage).IsChain fun a b => a.role = .assistant → b.role = .user := by
  induction hall with
  | nil => exact isChain_nil
  | cons hfirst hall ih =>
    rw [filter_cons]
    split
    · rw [isChain_cons]
      refine ⟨?_, ih happart.tail⟩
      intro next hnext hassistant
      cases hall with
      | nil => cases hnext
      | cons hsecond _ =>
        have huser := hsecond.user ((isChain_cons_cons.mp happart).1 (hfirst.role.mp hassistant))
        rw [filter_cons_of_pos (keeps_of_user huser)] at hnext
        cases hnext
        exact huser
    · exact ih happart.tail

section

variable (h : Ordered preserveUnsignedThinking messages)
  (hall : List.Forall₂ (Converted preserveUnsignedThinking) messages params)
include h hall

theorem Ordered.kept_placed : (params.filter shouldKeepConvertedMessage).IsChain fun a b =>
      isToolResultOnly b = true → isToolResultOnly a = true ∨ a.role = .assistant := by
  induction hall with
  | nil => exact isChain_nil
  | cons hfirst hall ih =>
    rw [filter_cons]
    split
    · rw [isChain_cons]
      refine ⟨?_, ih h.tail⟩
      intro next hnext hresult
      cases hall with
      | nil => cases hnext
      | cons hsecond hrest =>
        rename_i second secondParam rest restParams
        by_cases hkeep : shouldKeepConvertedMessage secondParam = true
        · rw [filter_cons_of_pos hkeep] at hnext
          cases hnext
          rcases (isChain_cons_cons.mp h.placed).1 (hsecond.tool hresult) with htool | ⟨hassistant, _⟩
          · exact .inl (hfirst.results htool).1
          · exact .inr (hfirst.role.mpr hassistant)
        · rw [filter_cons_of_neg hkeep] at hnext
          obtain ⟨hrole, hleaves⟩ := hsecond.dropped hkeep
          have hnone := h.tail.after_dropped hrest hrole hleaves next hnext
          exact absurd (hresult.symm.trans hnone) (by decide)
    · exact ih h.tail

theorem Ordered.resultRun_kept : (toolResults (resultRun (params.filter shouldKeepConvertedMessage))).map some =
      (toolRun messages).map Message.toolCallId := by
  induction hall with
  | nil => rfl
  | cons hfirst hall ih =>
    rename_i message param messages params
    by_cases htool : message.role = .tool
    · obtain ⟨hresult, hids⟩ := hfirst.results htool
      have hkeep := keeps_of_user (role_of_results hresult)
      have hrun : resultRun (param :: params.filter shouldKeepConvertedMessage) =
          param.content ++ resultRun (params.filter shouldKeepConvertedMessage) := by
        simp [resultRun, hresult]
      have htools : toolRun (message :: messages) = message :: toolRun messages := by
        simp [toolRun, htool]
      rw [filter_cons_of_pos hkeep, hrun, htools, toolResults_append, map_append, hids, ih h.tail]
      rfl
    · have htools : toolRun (message :: messages) = [] := by
        simp [toolRun, htool]
      have hnone : resultRun ((param :: params).filter shouldKeepConvertedMessage) = [] := by
        by_cases hkeep : shouldKeepConvertedMessage param = true
        · have hresult : ¬ isToolResultOnly param = true := fun hresult => htool (hfirst.tool hresult)
          rw [filter_cons_of_pos hkeep, resultRun, takeWhile_cons_of_neg hresult]
          rfl
        · obtain ⟨hrole, hleaves⟩ := hfirst.dropped hkeep
          have hafter := h.after_dropped hall hrole hleaves
          rw [filter_cons_of_neg hkeep, resultRun]
          cases hrest : params.filter shouldKeepConvertedMessage with
          | nil => rfl
          | cons next rest =>
            have hresult := hafter next (by rw [hrest]; rfl)
            rw [takeWhile_cons_of_neg (by rw [hresult]; decide)]
            rfl
      rw [hnone, htools]
      rfl

theorem Ordered.answered_kept (hanswered : CallsAnswered messages) :
    ∀ call after, call :: after <:+ params.filter shouldKeepConvertedMessage → AnsweredInRun call after := by
  induction hall with
  | nil =>
    intro call after hsuffix
    exact absurd (suffix_nil.mp hsuffix) (cons_ne_nil _ _)
  | cons hfirst hall ih =>
    rename_i message param messages params
    have hrest := ih h.tail fun call after hcall => hanswered call after (hcall.trans (suffix_cons _ _))
    rw [filter_cons]
    split
    · intro call after hsuffix
      rcases suffix_cons_iff.mp hsuffix with heq | hsuffix
      · obtain ⟨rfl, rfl⟩ := cons.inj heq
        intro hrole huses
        have hassistant := hfirst.role.mp hrole
        have hids := hfirst.uses hassistant
        have hcalls : message.toolCalls ≠ [] := by
          intro hnil
          rw [hids, hnil] at huses
          exact huses rfl
        have hperm := hanswered message messages (suffix_refl _) hassistant hcalls
        rw [← h.tail.resultRun_kept hall] at hperm
        have hraw := hperm.filterMap id
        rw [hids]
        simpa [filterMap_map, Function.comp_def] using hraw
      · exact hrest call after hsuffix
    · exact hrest

end

theorem kept_texts (hall : List.Forall₂ (Converted preserveUnsignedThinking) messages params) :
    (messages.flatMap spokenTexts).Sublist
      ((params.filter shouldKeepConvertedMessage).flatMap MessageParam.texts) := by
  induction hall with
  | nil => exact List.Sublist.refl _
  | cons hfirst hall ih =>
    rename_i message param messages params
    rw [flatMap_cons, filter_cons]
    split
    · exact hfirst.texts.append ih
    · rename_i hkeep
      have hsilent : spokenTexts message = [] := by
        rw [spokenTexts, (hfirst.dropped hkeep).1]
      rw [hsilent]
      exact ih

/-- Messages as the wire format asks for them. -/
structure Alternating (messages : List MessageParam) : Prop where
  first : ∀ message ∈ messages.head?, message.role = .user
  alternate : messages.IsChain fun a b => a.role ≠ b.role
  answered : ∀ call after, call :: after <:+ messages → AnsweredBy call after

/-- The merge of what is kept of a conversation. -/
theorem alternating_of_converted (h : Ordered preserveUnsignedThinking messages)
    (hfirst : ∀ message ∈ messages.head?, message.role = .user)
    (hanswered : CallsAnswered messages)
    (hall : List.Forall₂ (Converted preserveUnsignedThinking) messages params) :
    Alternating (mergeConsecutiveUserMessages mergePolicy (params.filter shouldKeepConvertedMessage)) ∧
      (messages.flatMap spokenTexts).Sublist
        ((mergeConsecutiveUserMessages mergePolicy
          (params.filter shouldKeepConvertedMessage)).flatMap MessageParam.texts) := by
  have htexts := kept_texts hall
  have happart := kept_apart h.apart hall
  have hplaced := h.kept_placed hall
  have hruns := h.answered_kept hall hanswered
  have hkinds : ∀ param ∈ params, param.role = .assistant ∨ isToolResultOnly param = true ∨ Plain param := by
    clear htexts happart hplaced hruns hanswered hfirst h
    induction hall with
    | nil => simp
    | cons hconverted hall ih =>
      rename_i message param messages params
      rw [forall_mem_cons]
      refine ⟨?_, ih⟩
      by_cases hassistant : message.role = .assistant
      · exact .inl (hconverted.role.mpr hassistant)
      · by_cases htool : message.role = .tool
        · exact .inr (.inl (hconverted.results htool).1)
        · exact .inr (.inr (hconverted.plain hassistant htool))
  cases hall with
  | nil =>
    refine ⟨⟨?_, isChain_nil, ?_⟩, List.Sublist.refl _⟩
    · intro message hmessage
      cases hmessage
    · intro call after hsuffix
      exact absurd (suffix_nil.mp hsuffix) (cons_ne_nil _ _)
  | cons hconverted hrest =>
    rename_i message param messages params
    have hrole : message.role = .user := hfirst message rfl
    have huser := hconverted.user (by rw [hrole]; decide)
    rw [filter_cons_of_pos (keeps_of_user huser)] at htexts happart hplaced hruns ⊢
    rw [mergeConsecutive_cons]
    have hlined : Lined param (params.filter shouldKeepConvertedMessage) :=
      ⟨fun other hother => hkinds other (mem_cons_of_mem _ (mem_filter.mp hother).1), happart, hplaced⟩
    refine ⟨⟨?_, hlined.alternate, hlined.answered hruns⟩, ?_⟩
    · obtain ⟨head, hhead, hsame⟩ := head_mergeFrom param (params.filter shouldKeepConvertedMessage)
      intro first hmem
      obtain rfl := mem_unique hmem hhead
      exact hsame.trans huser
    · rw [texts_mergeFrom]
      exact htexts

end Anthropic

namespace ChatCompletions

variable {toolMessageConversion : Option ToolMessageConversion} {preserveThinking : Bool}

/-- A message with calls is followed by their results, with nothing between. -/
def AnsweredBy (call : OpenAIMessage) (after : List OpenAIMessage) : Prop :=
  ∀ toolCalls ∈ call.toolCalls, ∃ results others, after = results ++ others ∧
    (∀ result ∈ results, result.role = .tool) ∧
    (results.map OpenAIMessage.toolCallId).Perm (toolCalls.map fun toolCall => some toolCall.id)

theorem convertFrom_results (pending : List OpenAIContentPart) (history : List Message) :
    ∃ results others, convertFrom toolMessageConversion preserveThinking pending history = results ++ others ∧
      (∀ result ∈ results, result.role = .tool) ∧
      results.map OpenAIMessage.toolCallId = (toolRun (nonDeclarations history)).map Message.toolCallId := by
  induction history generalizing pending with
  | nil => exact ⟨[], _, rfl, by simp, rfl⟩
  | cons message history ih =>
    by_cases hdeclares : isToolDeclarationOnlyMessage message = true
    · have hspoken := nonDeclarations_declares history hdeclares
      rw [convertFrom, hdeclares, hspoken]
      exact ih pending
    · have hspoken := nonDeclarations_cons history hdeclares
      rw [hspoken]
      by_cases htool : message.role = .tool
      · have hopaque : isOpaqueAssistantMessage message = false := by simp [isOpaqueAssistantMessage, htool]
        obtain ⟨results, others, hconvert, hroles, hids⟩ := ih (pending ++ toolResultImageParts message)
        have hrun : toolRun (message :: nonDeclarations history) = message :: toolRun (nonDeclarations history) := by
          simp [toolRun, htool]
        rw [convertFrom, hopaque, Bool.or_false, if_neg hdeclares, if_pos htool, hconvert, hrun]
        refine ⟨_ :: results, others, rfl, ?_, ?_⟩
        · exact forall_mem_cons.mpr ⟨htool, hroles⟩
        · rw [map_cons, hids]
          rfl
      · have hrun : toolRun (message :: nonDeclarations history) = [] := by simp [toolRun, htool]
        rw [hrun]
        exact ⟨[], _, rfl, by simp, rfl⟩

theorem toolCalls_convertMessage (message : Message) :
    ∀ toolCalls ∈ (convertMessage toolMessageConversion preserveThinking message).toolCalls,
      message.toolCalls ≠ [] ∧ (toolCalls.map fun toolCall => some toolCall.id) =
          message.toolCalls.map fun toolCall => some toolCall.id := by
  intro toolCalls hcalls
  simp only [convertMessage, mem_def, ite_none_right_eq_some] at hcalls
  obtain ⟨hlength, heq⟩ := hcalls
  cases heq
  refine ⟨length_pos_iff.mp hlength, ?_⟩
  rw [List.map_map]
  rfl

theorem answered_convertFrom (pending : List OpenAIContentPart) (history : List Message)
    (hanswered : CallsAnswered (nonDeclarations history)) :
    ∀ call after, call :: after <:+ convertFrom toolMessageConversion preserveThinking pending history →
      call.role = .assistant → AnsweredBy call after := by
  induction history generalizing pending with
  | nil =>
    intro call after hsuffix hrole
    rw [convertFrom, toolResultMediaMessage] at hsuffix
    split at hsuffix
    · exact absurd (suffix_nil.mp hsuffix) (cons_ne_nil _ _)
    · rcases suffix_cons_iff.mp hsuffix with heq | hsuffix
      · obtain ⟨rfl, _⟩ := cons.inj heq
        cases hrole
      · exact absurd (suffix_nil.mp hsuffix) (cons_ne_nil _ _)
  | cons message history ih =>
    by_cases hdeclares : isToolDeclarationOnlyMessage message = true
    · have hspoken := nonDeclarations_declares history hdeclares
      rw [convertFrom, hdeclares]
      rw [hspoken] at hanswered
      exact ih pending hanswered
    · have hspoken := nonDeclarations_cons history hdeclares
      rw [hspoken] at hanswered
      have hrest := fun pending => ih pending fun call after hcall =>
        hanswered call after (hcall.trans (suffix_cons _ _))
      rw [convertFrom]
      split
      · exact hrest pending
      · split
        · rename_i htool
          intro call after hsuffix hrole
          rcases suffix_cons_iff.mp hsuffix with heq | hsuffix
          · obtain ⟨rfl, _⟩ := cons.inj heq
            exact absurd (htool.symm.trans hrole) (by decide)
          · exact hrest _ call after hsuffix hrole
        · have hmessage : ∀ call after,
              call :: after <:+ convertMessage toolMessageConversion preserveThinking message ::
                convertFrom toolMessageConversion preserveThinking [] history →
              call.role = .assistant → AnsweredBy call after := by
            intro call after hsuffix hrole
            rcases suffix_cons_iff.mp hsuffix with heq | hsuffix
            · obtain ⟨rfl, rfl⟩ := cons.inj heq
              intro toolCalls hcalls
              obtain ⟨hne, hids⟩ := toolCalls_convertMessage message toolCalls hcalls
              obtain ⟨results, others, hconvert, hroles, hresults⟩ :=
                @convertFrom_results toolMessageConversion preserveThinking [] history
              refine ⟨results, others, hconvert, hroles, ?_⟩
              rw [hresults, hids]
              exact hanswered message (nonDeclarations history) (suffix_refl _) hrole hne
            · exact hrest [] call after hsuffix hrole
          intro call after hsuffix hrole
          rw [toolResultMediaMessage] at hsuffix
          split at hsuffix
          · exact hmessage call after hsuffix hrole
          · rcases suffix_cons_iff.mp hsuffix with heq | hsuffix
            · obtain ⟨rfl, _⟩ := cons.inj heq
              cases hrole
            · exact hmessage call after hsuffix hrole

end ChatCompletions

/-- The Anthropic encoder sends alternating messages with each result behind its call and keeps what the
user and the tools say; the Chat Completions encoder puts nothing between a call and its results. -/
theorem turns_kept (parseJson : String → Option Json) (preserveUnsignedThinking preserveThinking : Bool)
    (toolMessageConversion : Option ToolMessageConversion) (policy : ToolCallIdPolicy) {history : List Message}
    (h : Conversation history) :
    (ResultsPlaced preserveUnsignedThinking history →
      ∀ messages, Anthropic.requestMessages parseJson preserveUnsignedThinking history = .ok messages →
        Anthropic.Alternating messages ∧
          (history.flatMap spokenTexts).Sublist (messages.flatMap MessageParam.texts)) ∧
    ∀ messages,
      ChatCompletions.requestMessages toolMessageConversion preserveThinking policy history = .ok messages →
      ∀ call after, call :: after <:+ messages → call.role = .assistant →
        ChatCompletions.AnsweredBy call after := by
  constructor
  · intro hplaced messages hmessages
    obtain ⟨normalized, hnormalized, hmessages⟩ := bind_ok hmessages
    obtain ⟨converted, hconverted, hmessages⟩ := bind_ok hmessages
    cases hmessages
    obtain ⟨f, rfl⟩ := normalizeToolCallIds_ok hnormalized
    have hmap := h.map f
    have hplacedMap := hplaced.map f
    have hall := (forall₂_of_mapM hconverted).imp fun _ _ => Anthropic.convertMessage_ok
    have hordered : Anthropic.Ordered preserveUnsignedThinking ((nonDeclarations history).map (withToolCallIds f)) :=
      ⟨nonDeclarations_map f history ▸ hmap.apart, nonDeclarations_map f history ▸ hplacedMap⟩
    have hresult := Anthropic.alternating_of_converted hordered (nonDeclarations_map f history ▸ hmap.first)
      (nonDeclarations_map f history ▸ hmap.answered) hall
    rw [spokenTexts_map, spokenTexts_nonDeclarations] at hresult
    exact hresult
  · intro messages hmessages
    obtain ⟨normalized, hnormalized, rfl⟩ := map_ok hmessages
    obtain ⟨f, rfl⟩ := normalizeToolCallIds_ok hnormalized
    exact ChatCompletions.answered_convertFrom [] _ (h.map f).answered

/-- Two calls that are answered in the other order with a declaration between, and a thought that
is not sent. -/
def parallelCalls : List Message :=
  [{ role := .user, content := [.text "go"] },
    { role := .assistant, content := [.text "both"]
      toolCalls := [{ id := "a", name := "read", arguments := none },
        { id := "b", name := "list", arguments := none }] },
    { role := .tool, content := [.text "B"], toolCallId := some "b" },
    { role := .system, content := [], tools := some [{ name := "t", description := "", parameters := .null }] },
    { role := .tool, content := [.text "A"], toolCallId := some "a" },
    { role := .user, content := [.text "and"] },
    { role := .assistant, content := [.think "hm" none] },
    { role := .user, content := [.text "on"] }]

theorem parallelCalls_conversation : Conversation parallelCalls := by
  constructor
  · decide
  · decide
  · intro call after hsuffix
    have hall : ∀ rest ∈ (nonDeclarations parallelCalls).tails, ∀ call ∈ rest.head?,
        call.role = .assistant → call.toolCalls ≠ [] → ((toolRun rest.tail).map Message.toolCallId).Perm
          (call.toolCalls.map fun toolCall => some toolCall.id) := by
      decide +kernel
    exact hall (call :: after) ((mem_tails _ _).mpr hsuffix) call rfl

def parallelCallsSent : List MessageParam :=
  [{ role := .user, content := [.text "go"] },
    { role := .assistant, content := [.text "both", .toolUse "a" "read" [], .toolUse "b" "list" []] },
    { role := .user
      content := [.toolResult "b" [.text "B"], .toolResult "a" [.text "A"], .text "and", .text "on"] }]

theorem turns_kept_parallel :
    Anthropic.requestMessages (fun _ => none) false parallelCalls = .ok parallelCallsSent ∧
      Anthropic.Alternating parallelCallsSent := by
  have hsent : Anthropic.requestMessages (fun _ => none) false parallelCalls = .ok parallelCallsSent := by
    decide +kernel
  have hplaced : ResultsPlaced false parallelCalls := by
    unfold ResultsPlaced
    decide
  exact ⟨hsent, ((turns_kept (fun _ => none) false false none { normalize := id } parallelCalls_conversation).1
    hplaced _ hsent).1⟩

/-- A result that answers nothing. -/
def strayResult : List Message :=
  [{ role := .user, content := [.text "go"] }, { role := .tool, content := [.text "A"], toolCallId := some "a" }]

/-- It stands in a message of its own behind the user's. -/
theorem strayResult_splits_user : ¬ ∀ history, Conversation history → ∀ messages,
      Anthropic.requestMessages (fun _ => none) false history = .ok messages → Anthropic.Alternating messages := by
  intro h
  have hconversation : Conversation strayResult := by
    constructor
    · decide
    · decide
    · intro call after hsuffix
      have hall : ∀ rest ∈ (nonDeclarations strayResult).tails, ∀ call ∈ rest.head?, call.role ≠ .assistant := by
        decide +kernel
      intro hrole
      exact absurd hrole (hall (call :: after) ((mem_tails _ _).mpr hsuffix) call rfl)
  have hsent : Anthropic.requestMessages (fun _ => none) false strayResult =
      .ok [{ role := .user, content := [.text "go"] },
        { role := .user, content := [.toolResult "a" [.text "A"]] }] := by
    decide +kernel
  have halternate := (h _ hconversation _ hsent).alternate
  exact absurd halternate (by decide)

end Echadron.Tsugite
