import Echadron.Tsugite.ResponsesInput

namespace Echadron.Tsugite
open Lib Agent List

/-! What a model says in a response, and what the input items of the next request give back of it. -/

inductive ResponseItem where
  | message (text : String)
  | reasoning (summary : String) (encryptedContent : Option String)
  | functionCall (callId name arguments : String)
  | other
deriving DecidableEq

/-- One more item. Text goes on the message before it, and a summary on the reasoning before it with
the same encrypted content. -/
def push (items : List ResponseItem) (item : ResponseItem) : List ResponseItem :=
  match item with
  | .message text =>
    if text = "" then items
    else
      match items.getLast? with
      | some (.message before) => items.dropLast ++ [.message (before ++ text)]
      | _ => items ++ [.message text]
  | .reasoning summary encryptedContent =>
    match items.getLast? with
    | some (.reasoning before encrypted) =>
      if encrypted = encryptedContent then items.dropLast ++ [.reasoning (before ++ summary) encrypted]
      else items ++ [.reasoning summary encryptedContent]
    | _ => items ++ [.reasoning summary encryptedContent]
  | item => items ++ [item]

/-- The items with the texts of adjacent messages joined, and the summaries of adjacent reasoning with
the same encrypted content. -/
def joined (items : List ResponseItem) : List ResponseItem := items.foldl push []

theorem joined_append (items more : List ResponseItem) : joined (items ++ more) = more.foldl push (joined items) :=
  foldl_append

theorem push_empty (items : List ResponseItem) : push items (.message "") = items := rfl

theorem push_message_shape (items : List ResponseItem) : ∃ done before, ∀ text, text ≠ "" →
    push items (.message text) = done ++ [.message (before ++ text)] := by
  by_cases h : ∃ before, items.getLast? = some (.message before)
  · obtain ⟨before, hbefore⟩ := h
    refine ⟨items.dropLast, before, ?_⟩
    intro text htext
    rw [push, if_neg htext, hbefore]
  · refine ⟨items, "", ?_⟩
    intro text htext
    rw [push, if_neg htext]
    split
    · rename_i before hbefore
      exact absurd ⟨before, hbefore⟩ h
    · rfl

theorem push_message_concat (done : List ResponseItem) (before : String) (h : text ≠ "") :
    push (done ++ [.message before]) (.message text) = done ++ [.message (before ++ text)] := by
  rw [push, if_neg h, getLast?_concat, dropLast_concat]

theorem push_message (items : List ResponseItem) (a b : String) :
    push (push items (.message a)) (.message b) = push items (.message (a ++ b)) := by
  by_cases ha : a = ""
  · rw [ha, push_empty, String.empty_append]
  · by_cases hb : b = ""
    · rw [hb, push_empty, String.append_empty]
    · have hab : a ++ b ≠ "" := by
        intro hab
        have hlists := congrArg String.toList hab
        rw [String.toList_append, String.toList_empty, append_eq_nil_iff] at hlists
        exact ha (String.toList_inj.mp (hlists.1.trans String.toList_empty.symm))
      obtain ⟨done, before, hpush⟩ := push_message_shape items
      rw [hpush a ha, push_message_concat done _ hb, hpush _ hab, String.append_assoc]

theorem push_reasoning_shape (items : List ResponseItem) (encryptedContent : Option String) :
    ∃ done before, ∀ summary, push items (.reasoning summary encryptedContent) =
      done ++ [.reasoning (before ++ summary) encryptedContent] := by
  by_cases h : ∃ before, items.getLast? = some (.reasoning before encryptedContent)
  · obtain ⟨before, hbefore⟩ := h
    refine ⟨items.dropLast, before, ?_⟩
    intro summary
    rw [push, hbefore]
    exact if_pos rfl
  · refine ⟨items, "", ?_⟩
    intro summary
    rw [push]
    split
    · rename_i before encrypted hbefore
      have hne : ¬ encrypted = encryptedContent := by
        rintro rfl
        exact h ⟨before, hbefore⟩
      exact if_neg hne
    · rfl

theorem push_reasoning (items : List ResponseItem) (a b : String) (encryptedContent : Option String) :
    push (push items (.reasoning a encryptedContent)) (.reasoning b encryptedContent) =
      push items (.reasoning (a ++ b) encryptedContent) := by
  obtain ⟨done, before, hpush⟩ := push_reasoning_shape items encryptedContent
  have hgrow : push (done ++ [.reasoning (before ++ a) encryptedContent]) (.reasoning b encryptedContent) =
      done ++ [.reasoning (before ++ a ++ b) encryptedContent] := by
    rw [push, getLast?_concat, dropLast_concat]
    exact if_pos rfl
  rw [hpush a, hgrow, hpush (a ++ b), String.append_assoc]

theorem join_cons (text : String) (texts : List String) : String.join (text :: texts) = text ++ String.join texts := by
  simp [String.join_cons]

theorem foldl_messages (items : List ResponseItem) (texts : List String) :
    (texts.map ResponseItem.message).foldl push items = push items (.message (String.join texts)) := by
  induction texts generalizing items with
  | nil => rfl
  | cons text texts ih => rw [map_cons, foldl_cons, ih, push_message, join_cons]

theorem foldl_reasoning (items : List ResponseItem) (text : String) (texts : List String)
    (encryptedContent : Option String) :
    ((text :: texts).map fun summary => ResponseItem.reasoning summary encryptedContent).foldl push items =
      push items (.reasoning (String.join (text :: texts)) encryptedContent) := by
  induction texts generalizing items text with
  | nil => simp [String.join_cons]
  | cons next texts ih =>
    have hih := ih (push items (.reasoning text encryptedContent)) next
    rw [map_cons, foldl_cons, hih, push_reasoning, join_cons text]

def outputText : ResponseContentItem → Option String
  | .outputText text => some text
  | _ => none

def readBack : ResponseInputItem → ResponseItem
  | .message role content =>
    if role = "assistant" ∧ content.all (fun item => (outputText item).isSome) = true then
      .message (String.join (content.filterMap outputText))
    else .other
  | .reasoning summary encryptedContent => .reasoning (String.join summary) encryptedContent
  | .functionCall arguments callId name => .functionCall callId name arguments
  | _ => .other

def contentItem : ContentPart → ResponseItem
  | .text text => .message text
  | .think think encrypted => .reasoning think encrypted
  | _ => .other

/-- A part that streams of reasoning and messages bring. -/
def isSpoken (part : ContentPart) : Bool := ChatCompletions.isText part || ChatCompletions.isThink part

namespace Responses

def Gathered.items : Gathered → List ResponseItem
  | .parts pendingParts => pendingParts.map contentItem
  | .thoughts summaries encryptedValue => summaries.map fun summary => .reasoning summary encryptedValue

def Gathered.Sound : Gathered → Prop
  | .parts pendingParts => ∀ part ∈ pendingParts, ChatCompletions.isText part = true
  | .thoughts summaries _ => summaries ≠ []

variable {toLowerCase : String → String} {compactionTarget : CompactionSource}

theorem outputItems_texts (h : ∀ part ∈ parts, ChatCompletions.isText part = true) :
    (contentPartsToOutputItems parts).all (fun item => (outputText item).isSome) = true ∧
      ∃ texts, parts.map contentItem = texts.map ResponseItem.message ∧
        String.join ((contentPartsToOutputItems parts).filterMap outputText) = String.join texts := by
  induction parts with
  | nil => exact ⟨rfl, [], rfl, rfl⟩
  | cons part parts ih =>
    rw [forall_mem_cons] at h
    obtain ⟨hall, texts, htexts, hjoin⟩ := ih h.2
    cases part with
    | text text =>
      refine ⟨?_, text :: texts, ?_, ?_⟩
      · rw [contentPartsToOutputItems, flatMap_cons, all_append, Bool.and_eq_true]
        refine ⟨?_, hall⟩
        rw [outputItem]
        split <;> rfl
      · rw [map_cons, htexts]
        rfl
      · rw [contentPartsToOutputItems, flatMap_cons, join_cons, ← hjoin, outputItem]
        split
        · rename_i hempty
          rw [hempty]
          rfl
        · exact join_cons text _
    | _ => exact absurd h.1 Bool.false_ne_true

theorem Gathered.push_flush {g : Gathered} (h : g.Sound) (items : List ResponseItem) :
    ((g.flush toLowerCase "assistant").map readBack).foldl push items = g.items.foldl push items := by
  cases g with
  | parts pendingParts =>
    cases pendingParts with
    | nil => rfl
    | cons part pendingParts =>
      obtain ⟨hall, texts, htexts, hjoin⟩ := outputItems_texts h
      rw [Gathered.items, htexts, foldl_messages, ← hjoin]
      simp only [Gathered.flush, map_cons, map_nil, foldl_cons, foldl_nil, if_true, readBack, true_and, hall]
  | thoughts summaries encryptedValue =>
    cases summaries with
    | nil => exact absurd rfl h
    | cons summary summaries =>
      rw [Gathered.items, foldl_reasoning]
      rfl

theorem convertContent_told {content : List ContentPart} (hspoken : ∀ part ∈ content, isSpoken part = true)
    {g : Gathered} (h : g.Sound) (items : List ResponseItem) :
    ((convertContent toLowerCase "assistant" compactionTarget g content).map readBack).foldl push items =
      (g.items ++ content.map contentItem).foldl push items := by
  induction content generalizing g items with
  | nil =>
    rw [map_nil, append_nil]
    exact Gathered.push_flush h items
  | cons part content ih =>
    rw [forall_mem_cons] at hspoken
    have hih := fun {g : Gathered} (hg : g.Sound) (items : List ResponseItem) => ih hspoken.2 hg items
    have hnew : ∀ next : Gathered, next.Sound → next.items = [contentItem part] →
        ((g.flush toLowerCase "assistant" ++
          convertContent toLowerCase "assistant" compactionTarget next content).map readBack).foldl push items =
          (g.items ++ (part :: content).map contentItem).foldl push items := by
      intro next hnext hitems
      rw [map_append, foldl_append, Gathered.push_flush h, hih hnext, hitems, foldl_append, foldl_append]
      rfl
    cases part with
    | text text =>
      cases g with
      | parts pendingParts =>
        have hsound : (Gathered.parts (pendingParts ++ [.text text])).Sound := by
          intro part hpart
          rcases mem_snoc.mp hpart with hpart | rfl
          · exact h part hpart
          · rfl
        have hstep : convertContent toLowerCase "assistant" compactionTarget (.parts pendingParts)
            (.text text :: content) = convertContent toLowerCase "assistant" compactionTarget
              (.parts (pendingParts ++ [.text text])) content := rfl
        rw [hstep, hih hsound, Gathered.items, map_append, append_assoc]
        rfl
      | thoughts summaries encryptedValue =>
        apply hnew (.parts [.text text])
        · intro part hpart
          obtain rfl := mem_singleton.mp hpart
          rfl
        · rfl
    | think think encrypted =>
      cases g with
      | parts pendingParts =>
        apply hnew (.thoughts [think] encrypted)
        · exact cons_ne_nil _ _
        · rfl
      | thoughts summaries encryptedValue =>
        rw [convertContent]
        split
        · rename_i hsame
          have hsound : (Gathered.thoughts (summaries ++ [think]) encryptedValue).Sound :=
            append_ne_nil_of_right_ne_nil _ (cons_ne_nil _ _)
          rw [hih hsound, Gathered.items, map_append, append_assoc, hsame]
          rfl
        · apply hnew (.thoughts [think] encrypted)
          · exact cons_ne_nil _ _
          · rfl
    | _ => exact absurd hspoken.1 Bool.false_ne_true

end Responses

end Echadron.Tsugite
