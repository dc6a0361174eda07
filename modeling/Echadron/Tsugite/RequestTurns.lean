import Echadron.Tsugite.ChatCompletionsRequest
import Echadron.Agent.Exchange

namespace Echadron.Tsugite
open Lib Agent List Option

/-! Alternation of the roles, and the place of tool results, in the messages of a request. -/

/-- The ids of the calls in a message. -/
def toolUses (content : List ContentBlockParam) : List String :=
  content.filterMap fun
    | .toolUse id _ _ => some id
    | _ => none

/-- The ids of the calls that a message answers. -/
def toolResults (content : List ContentBlockParam) : List String :=
  content.filterMap fun
    | .toolResult id _ => some id
    | _ => none

def ResultBlockParam.texts : ResultBlockParam → List String
  | .text said => [said]
  | _ => []

def ContentBlockParam.texts : ContentBlockParam → List String
  | .text said => [said]
  | .toolResult _ content => content.flatMap ResultBlockParam.texts
  | _ => []

def MessageParam.texts (message : MessageParam) : List String :=
  match message.role with
  | .user => message.content.flatMap ContentBlockParam.texts
  | .assistant => []

@[simp] theorem toolUses_append (a b : List ContentBlockParam) : toolUses (a ++ b) = toolUses a ++ toolUses b :=
  filterMap_append

@[simp] theorem toolResults_append (a b : List ContentBlockParam) :
    toolResults (a ++ b) = toolResults a ++ toolResults b :=
  filterMap_append

namespace Anthropic

/-- A message with calls is followed by one of the user that begins with their results. -/
def AnsweredBy (message : MessageParam) (after : List MessageParam) : Prop :=
  message.role = .assistant → toolUses message.content ≠ [] →
    ∃ next ∈ after.head?, next.role = .user ∧ ∃ results others, next.content = results ++ others ∧
      (∀ block ∈ results, isToolResult block = true) ∧
      (toolResults results).Perm (toolUses message.content) ∧ toolResults others = []

def resultRun (after : List MessageParam) : List ContentBlockParam :=
  (after.takeWhile isToolResultOnly).flatMap MessageParam.content

def Plain (message : MessageParam) : Prop := message.role = .user ∧ toolResults message.content = []

theorem toolResults_of_all : ∀ {content : List ContentBlockParam},
    content.all isToolResult = true → toolResults content = [] → content = []
  | [], _, _ => rfl
  | .toolResult _ _ :: _, _, h => by cases h
  | .text _ :: _, hall, _ | .image _ :: _, hall, _ | .video _ :: _, hall, _ | .thinking _ _ :: _, hall, _
  | .toolUse _ _ _ :: _, hall, _ => by cases hall

theorem Plain.not_results (h : Plain message) : isToolResultOnly message = false := by
  by_contra hresults
  rw [Bool.not_eq_false, isToolResultOnly, Bool.and_eq_true, Bool.and_eq_true] at hresults
  have hempty := toolResults_of_all hresults.2 h.2
  rw [hempty] at hresults
  exact absurd hresults.1.2 (by decide)

theorem role_of_results (h : isToolResultOnly message = true) : message.role = .user := by
  rw [isToolResultOnly, Bool.and_eq_true, Bool.and_eq_true] at h
  exact of_decide_eq_true h.1.1

theorem results_append (ha : isToolResultOnly a = true) (hb : isToolResultOnly b = true) :
    isToolResultOnly (mergePolicy.merge a b) = true := by
  rw [isToolResultOnly, Bool.and_eq_true, Bool.and_eq_true] at ha hb ⊢
  refine ⟨⟨ha.1.1, ?_⟩, ?_⟩
  · change (!(a.content ++ b.content).isEmpty) = true
    have hne : a.content ≠ [] := by simpa using ha.1.2
    simp [hne]
  · change (a.content ++ b.content).all isToolResult = true
    rw [all_append, ha.2, hb.2]
    rfl

/-- What the merge is given: the kinds of the messages, and where they may stand. -/
structure Lined (last : MessageParam) (messages : List MessageParam) : Prop where
  kinds : ∀ message ∈ messages, message.role = .assistant ∨ isToolResultOnly message = true ∨ Plain message
  apart : (last :: messages).IsChain fun a b => a.role = .assistant → b.role = .user
  placed : (last :: messages).IsChain fun a b =>
    isToolResultOnly b = true → isToolResultOnly a = true ∨ a.role = .assistant

variable {last message : MessageParam} {messages : List MessageParam}

section

variable (h : Lined last (message :: messages))
include h

theorem Lined.tail : Lined message messages where
  kinds other hother := h.kinds other (mem_cons_of_mem _ hother)
  apart := h.apart.tail
  placed := h.placed.tail

theorem Lined.joins : mergePolicy.joins last message = true ↔ last.role = .user ∧ message.role = .user := by
  have hplaced := (isChain_cons_cons.mp h.placed).1
  simp only [MergePolicy.joins, mergePolicy, Bool.and_eq_true, decide_eq_true_eq, Bool.or_eq_true,
    Bool.not_eq_true']
  constructor
  · rintro ⟨hroles, _⟩
    exact hroles
  · rintro ⟨hlast, hmessage⟩
    refine ⟨⟨hlast, hmessage⟩, ?_⟩
    cases hresult : isToolResultOnly message with
    | false => exact .inr rfl
    | true =>
      rcases hplaced hresult with hbefore | hassistant
      · exact .inl hbefore
      · rw [hlast] at hassistant
        cases hassistant

theorem Lined.merged (hlast : last.role = .user)
    (hmessage : message.role = .user) : Lined (mergePolicy.merge last message) messages where
  kinds := h.tail.kinds
  apart := by
    have happart := h.tail.apart
    cases messages with
    | nil => exact isChain_singleton _
    | cons next messages =>
      rw [isChain_cons_cons] at happart ⊢
      refine ⟨?_, happart.2⟩
      intro hrole
      exact absurd (hlast.symm.trans hrole) (by decide)
  placed := by
    have hplaced := h.tail.placed
    have hbefore := (isChain_cons_cons.mp h.placed).1
    cases messages with
    | nil => exact isChain_singleton _
    | cons next messages =>
      rw [isChain_cons_cons] at hplaced ⊢
      refine ⟨?_, hplaced.2⟩
      intro hnext
      rcases hplaced.1 hnext with hresult | hassistant
      · rcases hbefore hresult with hlastResult | hassistant
        · exact .inl (results_append hlastResult hresult)
        · exact absurd (hlast.symm.trans hassistant) (by decide)
      · exact absurd (hmessage.symm.trans hassistant) (by decide)

end

theorem user_of_ne (h : message.role ≠ .assistant) : message.role = .user := by
  cases hrole : message.role with
  | user => rfl
  | assistant => exact absurd hrole h

theorem head_mergeFrom (last : MessageParam) (messages : List MessageParam) :
    ∃ next ∈ (mergeFrom mergePolicy last messages).head?, next.role = last.role := by
  induction messages generalizing last with
  | nil => exact ⟨last, rfl, rfl⟩
  | cons message messages ih =>
    rw [mergeFrom]
    split
    · exact ih (mergePolicy.merge last message)
    · exact ⟨last, rfl, rfl⟩

theorem Lined.alternate (h : Lined last messages) :
    (mergeFrom mergePolicy last messages).IsChain fun a b => a.role ≠ b.role := by
  induction messages generalizing last with
  | nil => exact isChain_singleton _
  | cons message messages ih =>
    rw [mergeFrom]
    split
    · rename_i hjoins
      obtain ⟨hlast, hmessage⟩ := h.joins.mp hjoins
      exact ih (h.merged hlast hmessage)
    · rename_i hjoins
      have hapart := (isChain_cons_cons.mp h.apart).1
      rw [isChain_cons]
      refine ⟨?_, ih h.tail⟩
      intro next hnext hsame
      obtain ⟨head, hhead, hrole⟩ := head_mergeFrom message messages
      obtain rfl := mem_unique hnext hhead
      cases hlast : last.role with
      | user => exact hjoins (h.joins.mpr ⟨hlast, hrole.symm.trans (hsame.symm.trans hlast)⟩)
      | assistant =>
        have huser := hapart hlast
        rw [← hrole, ← hsame, hlast] at huser
        cases huser

theorem texts_merge (hlast : last.role = .user) (hmessage : message.role = .user) :
    (mergePolicy.merge last message).texts = last.texts ++ message.texts := by
  simp only [MessageParam.texts, mergePolicy, hlast, hmessage, flatMap_append]

theorem texts_mergeFrom (last : MessageParam) (messages : List MessageParam) :
    (mergeFrom mergePolicy last messages).flatMap MessageParam.texts =
      (last :: messages).flatMap MessageParam.texts := by
  induction messages generalizing last with
  | nil => rfl
  | cons message messages ih =>
    rw [mergeFrom]
    split
    · rename_i hjoins
      simp only [MergePolicy.joins, mergePolicy, Bool.and_eq_true, decide_eq_true_eq] at hjoins
      have hih := ih (mergePolicy.merge last message)
      rw [hih, flatMap_cons, flatMap_cons, flatMap_cons, texts_merge hjoins.1.1 hjoins.1.2, append_assoc]
    · rw [flatMap_cons, flatMap_cons, ih]

theorem Lined.others (h : Lined message messages) (hmessage : Plain message) (hlast : last.role = .user) :
    ∃ next more others, mergeFrom mergePolicy last messages = next :: more ∧ next.role = .user ∧
      next.content = last.content ++ others ∧ toolResults others = [] := by
  induction messages generalizing last message with
  | nil => exact ⟨last, [], [], rfl, hlast, (append_nil _).symm, rfl⟩
  | cons other messages ih =>
    rw [mergeFrom]
    split
    · rename_i hjoins
      simp only [MergePolicy.joins, mergePolicy, Bool.and_eq_true, decide_eq_true_eq] at hjoins
      have hplain : Plain other := by
        rcases h.kinds other (mem_cons_self ..) with hassistant | hresult | hplain
        · exact absurd (hjoins.1.2.symm.trans hassistant) (by decide)
        · rcases (isChain_cons_cons.mp h.placed).1 hresult with hbefore | hassistant
          · exact absurd (hmessage.not_results.symm.trans hbefore) (by decide)
          · exact absurd (hmessage.1.symm.trans hassistant) (by decide)
        · exact hplain
      have hmerged : (mergePolicy.merge last other).role = .user := hlast
      obtain ⟨next, more, others, hmerge, hrole, hcontent, hothers⟩ := ih h.tail hplain hmerged
      refine ⟨next, more, other.content ++ others, hmerge, hrole, ?_, ?_⟩
      · rw [hcontent, ← append_assoc]
        rfl
      · rw [toolResults_append, hplain.2, hothers]
        rfl
    · exact ⟨last, _, [], rfl, hlast, (append_nil _).symm, rfl⟩

theorem Lined.results (h : Lined last messages) (hlast : isToolResultOnly last = true) :
    ∃ next more others, mergeFrom mergePolicy last messages = next :: more ∧ next.role = .user ∧
      next.content = last.content ++ resultRun messages ++ others ∧ toolResults others = [] := by
  induction messages generalizing last with
  | nil => exact ⟨last, [], [], rfl, role_of_results hlast, by simp [resultRun], rfl⟩
  | cons message messages ih =>
    rcases h.kinds message (mem_cons_self ..) with hassistant | hresult | hplain
    · have hjoins : ¬ mergePolicy.joins last message = true := by
        intro hjoins
        exact absurd ((h.joins.mp hjoins).2.symm.trans hassistant) (by decide)
      have hrun : resultRun (message :: messages) = [] := by
        have hnot : isToolResultOnly message = false := by
          simp [isToolResultOnly, hassistant]
        simp [resultRun, hnot]
      rw [mergeFrom, if_neg hjoins]
      exact ⟨last, _, [], rfl, role_of_results hlast, by simp [hrun], rfl⟩
    · have hroles := And.intro (role_of_results hlast) (role_of_results hresult)
      rw [mergeFrom, if_pos (h.joins.mpr hroles)]
      obtain ⟨next, more, others, hmerge, hrole, hcontent, hothers⟩ :=
        ih (h.merged hroles.1 hroles.2) (results_append hlast hresult)
      refine ⟨next, more, others, hmerge, hrole, ?_, hothers⟩
      have hrun : resultRun (message :: messages) = message.content ++ resultRun messages := by
        simp [resultRun, hresult]
      rw [hcontent, hrun, ← append_assoc]
      rfl
    · have hroles := And.intro (role_of_results hlast) hplain.1
      rw [mergeFrom, if_pos (h.joins.mpr hroles)]
      have hmerged : (mergePolicy.merge last message).role = .user := hroles.1
      obtain ⟨next, more, others, hmerge, hrole, hcontent, hothers⟩ := h.tail.others hplain hmerged
      refine ⟨next, more, message.content ++ others, hmerge, hrole, ?_, ?_⟩
      · have hrun : resultRun (message :: messages) = [] := by
          simp [resultRun, hplain.not_results]
        rw [hcontent, hrun, append_nil, ← append_assoc]
        rfl
      · rw [toolResults_append, hplain.2, hothers]
        rfl

/-- The results after a call answer it, before the merge. -/
def AnsweredInRun (message : MessageParam) (after : List MessageParam) : Prop :=
  message.role = .assistant → toolUses message.content ≠ [] →
    (toolResults (resultRun after)).Perm (toolUses message.content)

theorem all_results_run (messages : List MessageParam) : ∀ block ∈ resultRun messages, isToolResult block = true := by
  intro block hblock
  obtain ⟨message, hmessage, hmem⟩ := mem_flatMap.mp hblock
  have hresult := mem_takeWhile_imp hmessage
  rw [isToolResultOnly, Bool.and_eq_true] at hresult
  exact all_eq_true.mp hresult.2 block hmem

/-- The merge keeps the results with their calls. -/
theorem Lined.answered (h : Lined last messages)
    (hruns : ∀ call after, call :: after <:+ last :: messages → AnsweredInRun call after) :
    ∀ call after, call :: after <:+ mergeFrom mergePolicy last messages → AnsweredBy call after := by
  induction messages generalizing last with
  | nil =>
    intro call after hsuffix hrole huses
    rcases suffix_cons_iff.mp hsuffix with heq | hnil
    · obtain ⟨rfl, rfl⟩ := cons.inj heq
      have hrun := hruns call [] (suffix_refl _) hrole huses
      exact absurd hrun.symm.eq_nil huses
    · exact absurd (suffix_nil.mp hnil) (cons_ne_nil _ _)
  | cons message messages ih =>
    rw [mergeFrom]
    split
    · rename_i hjoins
      obtain ⟨hlast, hmessage⟩ := h.joins.mp hjoins
      apply ih (h.merged hlast hmessage)
      intro call after hsuffix
      rcases suffix_cons_iff.mp hsuffix with heq | hrest
      · obtain ⟨rfl, rfl⟩ := cons.inj heq
        intro hrole
        exact absurd (hlast.symm.trans hrole) (by decide)
      · exact hruns call after (hrest.trans ((suffix_cons _ _).trans (suffix_cons _ _)))
    · intro call after hsuffix
      rcases suffix_cons_iff.mp hsuffix with heq | hrest
      · obtain ⟨rfl, rfl⟩ := cons.inj heq
        intro hrole huses
        have hrun := hruns call (message :: messages) (suffix_refl _) hrole huses
        -- a call that is answered has a result right after it
        have hresult : isToolResultOnly message = true := by
          by_contra hnot
          rw [resultRun, takeWhile_cons, if_neg hnot] at hrun
          exact huses hrun.symm.eq_nil
        obtain ⟨next, more, others, hmerge, hnext, hcontent, hothers⟩ := h.tail.results hresult
        have hcons : resultRun (message :: messages) = message.content ++ resultRun messages := by
          simp [resultRun, hresult]
        rw [hmerge]
        refine ⟨next, rfl, hnext, resultRun (message :: messages), others, ?_, all_results_run _, hrun, hothers⟩
        rw [hcontent, hcons]
      · exact ih h.tail (fun call after hcall => hruns call after (hcall.trans (suffix_cons _ _)))
          call after hrest

end Anthropic

/-! What the encoders make of the turns of a conversation. -/

def nonDeclarations (history : List Message) : List Message :=
  history.filter fun message => !isToolDeclarationOnlyMessage message

def CallsAnswered (messages : List Message) : Prop :=
  ∀ call after, call :: after <:+ messages → call.role = .assistant → call.toolCalls ≠ [] →
    ((toolRun after).map Message.toolCallId).Perm (call.toolCalls.map fun toolCall => some toolCall.id)

/-- Calls are answered in place, assistants do not stand side by side, and the user begins. -/
structure Conversation (history : List Message) : Prop where
  first : ∀ message ∈ (nonDeclarations history).head?, message.role = .user
  apart : (nonDeclarations history).IsChain fun a b => a.role = .assistant → b.role ≠ .assistant
  answered : CallsAnswered (nonDeclarations history)

def textOf : ContentPart → List String
  | .text text => [text]
  | _ => []

/-- The texts of a user's or a tool's message. An empty text of a tool says nothing. -/
def spokenTexts (message : Message) : List String :=
  match message.role with
  | .user => message.content.flatMap textOf
  | .tool => (message.content.flatMap textOf).filter fun text => decide (text ≠ "")
  | _ => []

def leavesBlock (preserveUnsignedThinking : Bool) : ContentPart → Bool
  | .think _ encrypted => encrypted.isSome || preserveUnsignedThinking
  | .openaiCompaction _ _ _ => false
  | _ => true

/-- A message that the Anthropic encoder does not drop when it is an assistant's. -/
def leavesBlocks (preserveUnsignedThinking : Bool) (message : Message) : Bool :=
  !message.toolCalls.isEmpty || message.content.any (leavesBlock preserveUnsignedThinking)

/-- A tool message comes right after another one, or after an assistant message that is sent. -/
def ResultsPlaced (preserveUnsignedThinking : Bool) (history : List Message) : Prop :=
  (nonDeclarations history).IsChain fun a b => b.role = .tool →
    a.role = .tool ∨ (a.role = .assistant ∧ leavesBlocks preserveUnsignedThinking a = true)

theorem nonDeclarations_declares (history : List Message) (h : isToolDeclarationOnlyMessage message = true) :
    nonDeclarations (message :: history) = nonDeclarations history := by
  simp [nonDeclarations, h]

theorem nonDeclarations_cons (history : List Message) (h : ¬ isToolDeclarationOnlyMessage message = true) :
    nonDeclarations (message :: history) = message :: nonDeclarations history := by
  simp [nonDeclarations, h]

theorem declares_withToolCallIds (f : String → String) (message : Message) :
    isToolDeclarationOnlyMessage (withToolCallIds f message) = isToolDeclarationOnlyMessage message := by
  have hcalls : (withToolCallIds f message).toolCalls.isEmpty = message.toolCalls.isEmpty := isEmpty_map
  rw [isToolDeclarationOnlyMessage, hcalls]
  rfl

theorem nonDeclarations_map (f : String → String) (history : List Message) :
    nonDeclarations (history.map (withToolCallIds f)) = (nonDeclarations history).map (withToolCallIds f) := by
  rw [nonDeclarations, List.filter_map]
  congr 1
  apply filter_congr
  intro message _
  rw [Function.comp_apply, declares_withToolCallIds]

theorem toolRun_map (f : String → String) (history : List Message) :
    toolRun (history.map (withToolCallIds f)) = (toolRun history).map (withToolCallIds f) := by
  rw [toolRun, takeWhile_map]
  rfl

theorem Conversation.map (h : Conversation history) (f : String → String) :
    Conversation (history.map (withToolCallIds f)) where
  first := by
    rw [nonDeclarations_map, head?_map]
    intro message hmessage
    obtain ⟨raw, hraw, rfl⟩ := map_eq_some_iff.mp hmessage
    exact h.first raw hraw
  apart := by
    rw [nonDeclarations_map, isChain_map]
    exact h.apart
  answered := by
    rw [nonDeclarations_map]
    intro call after hsuffix hrole hcalls
    obtain ⟨l, hl, heq⟩ := suffix_map_iff.mp hsuffix
    cases l with
    | nil => cases heq
    | cons raw rest =>
      obtain ⟨rfl, rfl⟩ := cons.inj heq
      have hraw : raw.toolCalls ≠ [] := fun hnil => hcalls (by rw [withToolCallIds, hnil]; rfl)
      have hanswers := (h.answered raw rest hl hrole hraw).map (Option.map f)
      rw [toolRun_map]
      simp only [withToolCallIds, List.map_map] at hanswers ⊢
      exact hanswers

theorem ResultsPlaced.map
    (h : ResultsPlaced preserveUnsignedThinking history) (f : String → String) :
    ResultsPlaced preserveUnsignedThinking (history.map (withToolCallIds f)) := by
  rw [ResultsPlaced, nonDeclarations_map, isChain_map]
  apply h.imp
  intro a b hab hrole
  have hleaves : leavesBlocks preserveUnsignedThinking (withToolCallIds f a) =
      leavesBlocks preserveUnsignedThinking a := by
    simp only [leavesBlocks, withToolCallIds, isEmpty_map]
  rw [hleaves]
  exact hab hrole

theorem spokenTexts_map (f : String → String) (history : List Message) :
    (history.map (withToolCallIds f)).flatMap spokenTexts = history.flatMap spokenTexts := by
  rw [flatMap_map]
  rfl

/-- A tool declaration says nothing. -/
theorem spokenTexts_nonDeclarations (history : List Message) :
    (nonDeclarations history).flatMap spokenTexts = history.flatMap spokenTexts := by
  induction history with
  | nil => rfl
  | cons message history ih =>
    rw [nonDeclarations, filter_cons]
    split
    · rw [flatMap_cons]
      exact congrArg _ ih
    · rename_i hdeclares
      have hempty : message.content = [] := by
        simp only [isToolDeclarationOnlyMessage, Bool.not_eq_true', Bool.not_eq_false,
          Bool.and_eq_true] at hdeclares
        exact isEmpty_iff.mp hdeclares.1.2
      have hsilent : spokenTexts message = [] := by
        unfold spokenTexts
        rw [hempty]
        cases message.role <;> rfl
      rw [flatMap_cons, hsilent]
      exact ih

end Echadron.Tsugite
