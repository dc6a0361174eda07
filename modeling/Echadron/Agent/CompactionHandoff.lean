import Echadron.Agent.Message
import Mathlib.Algebra.Ring.Nat

namespace Echadron.Agent
open Lib
open List hiding tail

/-! Token estimates. -/

structure CharCount where
  ascii : Nat := 0
  nonAscii : Nat := 0

def CharCount.add (n : CharCount) (c : Char) : CharCount :=
  if c.toNat ≤ 127 then { n with ascii := n.ascii + 1 } else { n with nonAscii := n.nonAscii + 1 }

def CharCount.tokens (n : CharCount) : Nat := (n.ascii + 3) / 4 + n.nonAscii

def estimateTokens (text : String) : Nat := (text.toList.foldl CharCount.add {}).tokens

def mediaTokenEstimate : Nat := 2000

def estimateTokensForContentPart : ContentPart → Nat
  | .text text => estimateTokens text
  | .think think _ => estimateTokens think
  | .imageUrl .. | .audioUrl .. | .videoUrl .. => mediaTokenEstimate
  | .openaiCompaction encryptedContent _ _ => estimateTokens encryptedContent

def estimateTokensForContentParts (parts : List ContentPart) : Nat := (parts.map estimateTokensForContentPart).sum

def Role.text : Role → String
  | .system => "system"
  | .user => "user"
  | .assistant => "assistant"
  | .tool => "tool"

def stringifyArguments : Option String → String
  | none => "null"
  | some text => quote text

def estimateTokensForCall (call : ToolCall) : Nat :=
  estimateTokens call.name + estimateTokens (stringifyArguments call.arguments)

def estimateTokensForMessage (message : ContextMessage) : Nat :=
  estimateTokens message.role.text + estimateTokensForContentParts message.content +
    (message.toolCalls.map estimateTokensForCall).sum

def estimateTokensForMessages (messages : List ContextMessage) : Nat :=
  (messages.map estimateTokensForMessage).sum

def compactUserMessageMaxTokens : Nat := 20000

def compactUserMessageHeadTokens : Nat := 2000

def compactionElisionVariant : String := "compaction_elision"

structure CompactionUserSelection where
  head : List ContextMessage
  tail : List ContextMessage
  elided : Bool
  omittedTokens : Nat

/-- `true` stands for the disposition `keep`. -/
def compactionUserMessageKept : Option PromptOrigin → Bool
  | none => true
  | some .user => true
  | some (.skillActivation _ _ trigger) => decide (trigger = .userSlash)
  | some (.pluginCommand ..) => true
  | some _ => false

def isRealUserInput (message : ContextMessage) : Bool :=
  decide (message.role = .user) && compactionUserMessageKept message.origin

def isCompactionSummary : Option PromptOrigin → Bool
  | some .compactionSummary => true
  | _ => false

def isCompactionSummaryMessage (message : ContextMessage) : Bool := isCompactionSummary message.origin

def collectCompactableUserMessages (messages : List ContextMessage) : List ContextMessage :=
  messages.filter fun message => isRealUserInput message && !isCompactionSummaryMessage message

def contentText : ContentPart → String
  | .text text => text
  | _ => ""

def extractText (content : List ContentPart) : String := String.join (content.map contentText)

/-- The longest prefix of the characters that fits in `maxTokens`. -/
def fittingChars (maxTokens : Nat) (n : CharCount) : List Char → List Char
  | [] => []
  | c :: cs => if (n.add c).tokens > maxTokens then [] else c :: fittingChars maxTokens (n.add c) cs

def truncateTextToTokens (text : String) (maxTokens : Nat) : String :=
  String.ofList (fittingChars maxTokens {} text.toList)

def truncateTextToTokensFromEnd (text : String) (maxTokens : Nat) : String :=
  String.ofList (fittingChars maxTokens {} text.toList.reverse).reverse

def replaceMessageText (message : ContextMessage) (text : String) : ContextMessage :=
  { message with content := [.text text], toolCalls := [] }

def truncateUserMessage (message : ContextMessage) (maxTokens : Nat) : ContextMessage :=
  replaceMessageText message (truncateTextToTokens (extractText message.content) maxTokens)

def takeWithinBudget (remaining : Nat) : List ContextMessage → List ContextMessage
  | [] => []
  | message :: messages =>
    if remaining = 0 then []
    else if estimateTokensForMessage message ≤ remaining then
      message :: takeWithinBudget (remaining - estimateTokensForMessage message) messages
    else [truncateUserMessage message remaining]

def selectRecentUserMessages (messages : List ContextMessage) (maxTokens : Nat) : List ContextMessage :=
  (takeWithinBudget maxTokens messages.reverse).reverse

structure TailSelection where
  tail : List ContextMessage
  headCandidates : List ContextMessage

/-- The backward loop over `messages`, given in reverse: the tail that fits, and what is left for
the head, ending in the part cut off the message at the boundary. -/
def selectTail (tailRemaining : Nat) : List ContextMessage → List ContextMessage → TailSelection
  | [], tail => ⟨tail, []⟩
  | message :: before, tail =>
    if tailRemaining = 0 then ⟨tail, (message :: before).reverse⟩
    else if estimateTokensForMessage message ≤ tailRemaining then
      selectTail (tailRemaining - estimateTokensForMessage message) before (message :: tail)
    else
      let fullText := extractText message.content
      let keptSuffix := truncateTextToTokensFromEnd fullText tailRemaining
      let droppedPrefix := String.ofList (fullText.toList.take (fullText.length - keptSuffix.length))
      ⟨replaceMessageText message keptSuffix :: tail, before.reverse ++
          if droppedPrefix.length > 0 then [replaceMessageText message droppedPrefix] else []⟩

def selectCompactionUserMessages (messages : List ContextMessage) (maxTokens : Nat := compactUserMessageMaxTokens)
    (headTokens : Nat := compactUserMessageHeadTokens) : CompactionUserSelection :=
  let totalTokens := estimateTokensForMessages messages
  if totalTokens ≤ maxTokens then ⟨[], messages, false, 0⟩
  else
    let headBudget := min headTokens maxTokens
    let tailBudget := maxTokens - headBudget
    let selected := selectTail tailBudget messages.reverse []
    let head := takeWithinBudget headBudget selected.headCandidates
    let keptTokens := estimateTokensForMessages head + estimateTokensForMessages selected.tail
    ⟨head, selected.tail, true, totalTokens - keptTokens⟩

def createCompactionSummaryMessage (text : String) : ContextMessage :=
  { role := .user, content := [.text text], origin := some .compactionSummary }

def buildCompactionElisionText (omittedTokens : Nat) : String :=
  "\n".intercalate
    ["<system-reminder>", "Some of this conversation's user messages were omitted here during compaction: " ++
        "the messages above this note are the oldest user input, the messages below are " ++
        "the most recent, and roughly " ++ toString omittedTokens ++ " tokens in between " ++
        "were dropped. The omitted content is covered by the compaction summary at the end " ++
        "of the conversation.",
      "</system-reminder>"]

def createCompactionElisionMessage (omittedTokens : Nat) : ContextMessage :=
  { role := .user
    content := [.text (buildCompactionElisionText omittedTokens)]
    origin := some (.injection compactionElisionVariant none) }

structure ContextCompactionShapeInput where
  summary : String
  replacementMessages : Option (List ContextMessage) := none
  legacySummaryMessage : Option ContextMessage := none
  contextSummary : Option String := none
  compactedCount : Nat
  tokensBefore : Nat
  summaryOutputTokens : Option Nat := none
  requestOverheadTokens : Option Nat := none
  tokensAfter : Option Nat := none
  keptUserMessageCount : Option Nat := none
  keptHeadUserMessageCount : Option Nat := none
  droppedCount : Option Nat := none
  legacyTail : Option Bool := none

structure ContextCompactionShape where
  summary : String
  contextSummary : String
  compactedCount : Nat
  tokensBefore : Nat
  tokensAfter : Nat
  keptUserMessageCount : Nat
  keptHeadUserMessageCount : Option Nat
  droppedCount : Option Nat
  messages : List ContextMessage

def keptMessages (selection : CompactionUserSelection) : List ContextMessage :=
  selection.head ++ (if selection.elided then [createCompactionElisionMessage selection.omittedTokens] else []) ++
    selection.tail

def ContextCompactionShapeInput.context (input : ContextCompactionShapeInput) : String :=
  input.contextSummary.getD input.summary

def replacementShape (input : ContextCompactionShapeInput) (messages : List ContextMessage) :
    ContextCompactionShape where
  summary := input.summary
  contextSummary := input.context
  compactedCount := input.compactedCount
  tokensBefore := input.tokensBefore
  tokensAfter := input.tokensAfter.getD (estimateTokensForMessages messages)
  keptUserMessageCount := input.keptUserMessageCount.getD
    (messages.filter fun message => decide (message.role = .user)).length
  keptHeadUserMessageCount := input.keptHeadUserMessageCount
  droppedCount := input.droppedCount
  messages := messages

def legacyTailShape (history : List ContextMessage) (input : ContextCompactionShapeInput) : ContextCompactionShape :=
  let messages :=
    input.legacySummaryMessage.getD (createCompactionSummaryMessage input.context) ::
      history.drop input.compactedCount
  { summary := input.summary
    contextSummary := input.context
    compactedCount := input.compactedCount
    tokensBefore := input.tokensBefore
    tokensAfter := input.tokensAfter.getD (estimateTokensForMessages messages)
    keptUserMessageCount := 0
    keptHeadUserMessageCount := none
    droppedCount := input.droppedCount
    messages := messages }

def handoffShape (history : List ContextMessage) (input : ContextCompactionShapeInput) : ContextCompactionShape :=
  let selection := selectCompactionUserMessages (collectCompactableUserMessages history)
  { summary := input.summary
    contextSummary := input.context
    compactedCount := input.compactedCount
    tokensBefore := input.tokensBefore
    tokensAfter := input.tokensAfter.getD
      (input.requestOverheadTokens.getD 0 + input.summaryOutputTokens.getD (estimateTokens input.context) +
        estimateTokensForMessages (keptMessages selection))
    keptUserMessageCount := input.keptUserMessageCount.getD
      (selection.head.length + selection.tail.length)
    keptHeadUserMessageCount := match input.keptHeadUserMessageCount with
      | some count => some count
      | none => if selection.elided then some selection.head.length else none
    droppedCount := input.droppedCount
    messages := keptMessages selection ++ [createCompactionSummaryMessage input.context] }

def buildContextCompactionShape (history : List ContextMessage)
    (input : ContextCompactionShapeInput) : ContextCompactionShape :=
  match input.replacementMessages with
  | some messages => replacementShape input messages
  | none =>
    if input.legacyTail = some true then legacyTailShape history input
    else handoffShape history input

theorem length_keptMessages (selection : CompactionUserSelection) : (keptMessages selection).length =
      selection.head.length + selection.tail.length + if selection.elided then 1 else 0 := by
  rw [keptMessages, length_append, length_append]
  by_cases h : selection.elided = true
  · simp only [h, ↓reduceIte, length_singleton]
    omega
  · simp only [h, Bool.false_eq_true, ↓reduceIte, length_nil, add_zero]

section

variable {P : ContextMessage → Prop} (hcut : ∀ m text, P m → P (replaceMessageText m text))
include hcut

theorem forall_takeWithinBudget (remaining : Nat)
    (h : ∀ m ∈ messages, P m) : ∀ m ∈ takeWithinBudget remaining messages, P m := by
  induction messages generalizing remaining with
  | nil => exact h
  | cons message messages ih =>
    have hm := h message mem_cons_self
    have htail := fun budget => ih budget fun m hm => h m (mem_cons_of_mem _ hm)
    rw [takeWithinBudget]
    split
    · simp
    · split
      · intro m hmem
        rcases mem_cons.mp hmem with rfl | hmem
        · exact hm
        · exact htail _ m hmem
      · intro m hmem
        rw [mem_singleton.mp hmem]
        exact hcut _ _ hm

theorem forall_selectTail (remaining : Nat) (h : ∀ m ∈ reversed, P m) (htail : ∀ m ∈ tail, P m) :
    (∀ m ∈ (selectTail remaining reversed tail).tail, P m) ∧
      ∀ m ∈ (selectTail remaining reversed tail).headCandidates, P m := by
  induction reversed generalizing remaining tail with
  | nil => exact ⟨htail, by simp [selectTail]⟩
  | cons message before ih =>
    have hm := h message mem_cons_self
    have hbefore : ∀ m ∈ before, P m := fun m hmem => h m (mem_cons_of_mem _ hmem)
    rw [selectTail]
    split
    · exact ⟨htail, fun m hmem => h m (mem_reverse.mp hmem)⟩
    · split
      · apply ih _ hbefore
        intro m hmem
        rcases mem_cons.mp hmem with rfl | hmem
        · exact hm
        · exact htail m hmem
      · constructor
        · intro m hmem
          rcases mem_cons.mp hmem with rfl | hmem
          · exact hcut _ _ hm
          · exact htail m hmem
        · intro m hmem
          rcases mem_append.mp hmem with hmem | hmem
          · exact hbefore m (mem_reverse.mp hmem)
          · split at hmem
            · rw [mem_singleton.mp hmem]
              exact hcut _ _ hm
            · cases hmem

theorem forall_selectCompactionUserMessages (h : ∀ m ∈ messages, P m) :
    (∀ m ∈ (selectCompactionUserMessages messages).head, P m) ∧
      ∀ m ∈ (selectCompactionUserMessages messages).tail, P m := by
  have hreverse : ∀ m ∈ messages.reverse, P m := fun m hm => h m (mem_reverse.mp hm)
  rw [selectCompactionUserMessages]
  split
  · exact ⟨by simp, h⟩
  · have hnil : ∀ m ∈ ([] : List ContextMessage), P m := by simp
    obtain ⟨htail, hhead⟩ := forall_selectTail hcut
      (compactUserMessageMaxTokens - min compactUserMessageHeadTokens compactUserMessageMaxTokens)
      hreverse hnil
    exact ⟨forall_takeWithinBudget hcut _ hhead, htail⟩

end

end Echadron.Agent
