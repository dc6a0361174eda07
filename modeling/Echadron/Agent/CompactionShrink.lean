import Echadron.Agent.FullCompaction
import Echadron.Lib.JsNumber

namespace Echadron.Agent
open Lib List Option

/-! The retries of a compaction whose request is rejected. -/

def maxCompactionRetryAttempts : Nat := 5

def maxCompactionOverflowShrinkAttempts : Nat := 3

/-- `COMPACTION_OVERFLOW_SHRINK_RATIOS`, the doubles nearest to 0.7, 0.5 and 0.35, in units of `2 ^ -54`. -/
def compactionOverflowShrinkRatios : List Nat := [12610078956637388, 9007199254740992, 6305039478318694]

/-- `Math.floor(tokens * ratio)` -/
def scaledTokens (tokens ratio : Nat) : Nat := roundNat (tokens * ratio) / 2 ^ 54

def dropLeadingToolResults (messages : List ContextMessage) : List ContextMessage :=
  messages.dropWhile fun message => decide (message.role = .tool)

def recentCount (tokenBudget tokens : Nat) : List ContextMessage → Nat
  | [] => 0
  | message :: before =>
    if tokens + estimateTokensForMessage message > tokenBudget then 0
    else recentCount tokenBudget (tokens + estimateTokensForMessage message) before + 1

section

variable (messages : List ContextMessage)

def recentStart (tokenBudget : Nat) : Nat :=
  let start := messages.length - recentCount tokenBudget 0 messages.reverse
  if start = 0 then 1 else start

def takeRecentMessagesWithinTokenBudget (tokenBudget : Nat) : List ContextMessage :=
  dropLeadingToolResults (messages.drop (recentStart messages tokenBudget))

def shrinkBudget (attempt : Nat) : Nat :=
  scaledTokens (estimateTokensForMessages messages)
    (compactionOverflowShrinkRatios.getD (min (attempt - 1) (compactionOverflowShrinkRatios.length - 1)) 0)

def shrinkCompactionHistoryAfterOverflow (attempt : Nat) : List ContextMessage :=
  if messages.length ≤ 1 then messages
  else takeRecentMessagesWithinTokenBudget messages (shrinkBudget messages attempt)

def dropOldestMessageAndLeadingToolResults : List ContextMessage :=
  if messages.length ≤ 1 then messages else dropLeadingToolResults (messages.drop 1)

end

/-- How a request for a summary fails. -/
inductive Rejection where
  | overflow
  | emptyOrTruncated (retryable : Bool)
  | other (retryable : Bool)
deriving DecidableEq

structure SummaryAttempts where
  historyForModel : List ContextMessage
  droppedCount : Nat := 0
  overflowShrinkCount : Nat := 0
  emptyOrTruncatedShrinkCount : Nat := 0
  retryCount : Nat := 0

namespace SummaryAttempts

def retry (s : SummaryAttempts) (retryable : Bool) : Option SummaryAttempts :=
  if !retryable then none
  else if s.retryCount + 1 ≥ maxCompactionRetryAttempts then none
  else some { s with retryCount := s.retryCount + 1 }

/-- What is requested after a rejection, none where the summarizer gives up. -/
def next (s : SummaryAttempts) : Rejection → Option SummaryAttempts
  | .overflow =>
    let overflowShrinkCount := s.overflowShrinkCount + 1
    if overflowShrinkCount > maxCompactionOverflowShrinkAttempts ∨ s.historyForModel.length ≤ 1 then none
    else
      let shrunk := shrinkCompactionHistoryAfterOverflow s.historyForModel overflowShrinkCount
      some
        { s with
          historyForModel := shrunk
          droppedCount := s.droppedCount + (s.historyForModel.length - shrunk.length)
          overflowShrinkCount := overflowShrinkCount
          retryCount := 0 }
  | .emptyOrTruncated retryable =>
    if s.historyForModel.length > 1 then
      let emptyOrTruncatedShrinkCount := s.emptyOrTruncatedShrinkCount + 1
      if emptyOrTruncatedShrinkCount > maxCompactionRetryAttempts then none
      else
        let reduced := dropOldestMessageAndLeadingToolResults s.historyForModel
        some
          { s with
            historyForModel := reduced
            droppedCount := s.droppedCount + (s.historyForModel.length - reduced.length)
            emptyOrTruncatedShrinkCount := emptyOrTruncatedShrinkCount
            retryCount := 0 }
    else s.retry retryable
  | .other retryable => s.retry retryable

end SummaryAttempts

variable {messages shrunk : List ContextMessage}

/-- Part of the history is left, not all of it, and the calls of the tool results in it are not cut off at its begin. -/
structure ShrinksWell (messages shrunk : List ContextMessage) : Prop where
  nonempty : shrunk ≠ []
  suffix : shrunk <:+ messages
  proper : shrunk ≠ messages
  begins : ∀ m ∈ shrunk.head?, m.role ≠ .tool

def KeepsRecent (messages : List ContextMessage) (tokenBudget : Nat) : Prop :=
  ∃ before m after, messages = before ++ m :: after ∧ before ≠ [] ∧ m.role ≠ .tool ∧
    estimateTokensForMessages (m :: after) ≤ tokenBudget

theorem dropLeadingToolResults_begins : ∀ m ∈ (dropLeadingToolResults messages).head?, m.role ≠ .tool := by
  intro m hm
  have hhead := head?_dropWhile_not (fun message : ContextMessage => decide (message.role = .tool)) messages
  rw [dropLeadingToolResults] at hm
  rw [hm] at hhead
  exact of_decide_eq_false hhead

theorem dropLeadingToolResults_ne_nil :
    dropLeadingToolResults messages ≠ [] ↔ ∃ before m after, messages = before ++ m :: after ∧ m.role ≠ .tool := by
  constructor
  · intro hne
    obtain ⟨m, after, hrest⟩ := exists_cons_of_ne_nil hne
    refine ⟨messages.takeWhile fun message => decide (message.role = .tool), m, after, ?_, ?_⟩
    · rw [← hrest, dropLeadingToolResults, takeWhile_append_dropWhile]
    · apply dropLeadingToolResults_begins m
      rw [hrest]
      rfl
  · rintro ⟨before, m, after, rfl, hm⟩ hnil
    have hall := dropWhile_eq_nil_iff.mp hnil m (mem_append_right _ mem_cons_self)
    exact hm (of_decide_eq_true hall)

theorem le_recentCount_iff {tokenBudget tokens : Nat} {later earlier : List ContextMessage} (h : tokens ≤ tokenBudget) :
    later.length ≤ recentCount tokenBudget tokens (later ++ earlier) ↔
      tokens + estimateTokensForMessages later ≤ tokenBudget := by
  induction later generalizing tokens with
  | nil => exact ⟨fun _ => h, fun _ => Nat.zero_le _⟩
  | cons m later ih =>
    rw [cons_append, recentCount, estimateTokensForMessages_cons]
    split_ifs with hover
    · constructor
      · intro hlen
        cases hlen
      · intro hfits
        omega
    · rw [length_cons, Nat.add_le_add_iff_right, ih (Nat.le_of_not_lt hover), Nat.add_assoc]

theorem recentStart_pos (messages : List ContextMessage) (tokenBudget : Nat) :
    0 < recentStart messages tokenBudget := by
  rw [recentStart]
  split_ifs with hzero
  · exact one_pos
  · exact pos_of_ne_zero hzero

theorem recentStart_le_iff {before after : List ContextMessage} (tokenBudget : Nat) :
    recentStart (before ++ after) tokenBudget ≤ before.length ↔
      before ≠ [] ∧ estimateTokensForMessages after ≤ tokenBudget := by
  have hcount := @le_recentCount_iff tokenBudget 0 after.reverse before.reverse (Nat.zero_le _)
  rw [estimateTokensForMessages_reverse, length_reverse, ← reverse_append] at hcount
  rw [← length_pos_iff, recentStart]
  rw [length_append]
  split_ifs with hzero
  · omega
  · omega

theorem estimateTokens_suffix {after : List ContextMessage} (h : after <:+ messages) :
    estimateTokensForMessages after ≤ estimateTokensForMessages messages := by
  obtain ⟨before, rfl⟩ := h
  induction before with
  | nil => exact le_refl _
  | cons m before ih =>
    rw [cons_append, estimateTokensForMessages_cons]
    omega

/-- The history that is left after an overflow has something in it exactly if a later message that is no tool result
fits in the budget with all that follows it. -/
theorem takeRecent_ne_nil (tokenBudget : Nat) :
    takeRecentMessagesWithinTokenBudget messages tokenBudget ≠ [] ↔ KeepsRecent messages tokenBudget := by
  rw [takeRecentMessagesWithinTokenBudget, dropLeadingToolResults_ne_nil]
  constructor
  · rintro ⟨results, m, after, hdrop, hm⟩
    have hsplit : messages = messages.take (recentStart messages tokenBudget) ++ results ++ m :: after := by
      rw [append_assoc, ← hdrop, take_append_drop]
    have hlen : recentStart messages tokenBudget ≤ (messages.take (recentStart messages tokenBudget)).length := by
      rw [length_take]
      have hne : messages.drop (recentStart messages tokenBudget) ≠ [] := by
        rw [hdrop]
        simp
      rw [Ne, drop_eq_nil_iff] at hne
      omega
    have hfits : estimateTokensForMessages (results ++ m :: after) ≤ tokenBudget := by
      apply ((@recentStart_le_iff (messages.take (recentStart messages tokenBudget)) (results ++ m :: after)
        tokenBudget).mp _).2
      rw [← append_assoc, ← hsplit]
      exact hlen
    refine ⟨_, m, after, hsplit, ?_, hm, ?_⟩
    · intro hnil
      have hpos := recentStart_pos messages tokenBudget
      rw [append_eq_nil_iff] at hnil
      rw [hnil.1] at hlen
      exact absurd hlen (Nat.not_le_of_lt hpos)
    · exact (estimateTokens_suffix (suffix_append results (m :: after))).trans hfits
  · rintro ⟨before, m, after, rfl, hbefore, hm, hfits⟩
    have hstart := (@recentStart_le_iff before (m :: after) tokenBudget).mpr ⟨hbefore, hfits⟩
    refine ⟨before.drop (recentStart (before ++ m :: after) tokenBudget), m, after, ?_, hm⟩
    exact drop_append_of_le_length hstart

theorem dropLeadingToolResults_suffix (messages : List ContextMessage) : dropLeadingToolResults messages <:+ messages :=
  dropWhile_suffix _

theorem dropped_shrinksWell {count : Nat} (hpos : 0 < count) (hmessages : messages ≠ [])
    (hne : dropLeadingToolResults (messages.drop count) ≠ []) :
    ShrinksWell messages (dropLeadingToolResults (messages.drop count)) where
  nonempty := hne
  suffix := (dropLeadingToolResults_suffix _).trans (drop_suffix _ _)
  proper := by
    intro heq
    have hle := (dropLeadingToolResults_suffix (messages.drop count)).length_le
    have hlen := length_pos_iff.mpr hmessages
    rw [heq, length_drop] at hle
    omega
  begins := dropLeadingToolResults_begins

theorem shrink_eq (h : 2 ≤ messages.length) (attempt : Nat) :
    shrinkCompactionHistoryAfterOverflow messages attempt =
      takeRecentMessagesWithinTokenBudget messages (shrinkBudget messages attempt) :=
  if_neg (by omega)

theorem shrinksWell_iff (h : 2 ≤ messages.length) (attempt : Nat) :
    ShrinksWell messages (shrinkCompactionHistoryAfterOverflow messages attempt) ↔
      KeepsRecent messages (shrinkBudget messages attempt) := by
  have hmessages : messages ≠ [] := length_pos_iff.mp (by omega)
  rw [shrink_eq h, ← takeRecent_ne_nil]
  constructor
  · exact ShrinksWell.nonempty
  · exact dropped_shrinksWell (recentStart_pos messages _) hmessages

namespace SummaryAttempts

variable {s s' : SummaryAttempts} {rejection : Rejection}

/-- How many rejections are left at most. -/
def remaining (s : SummaryAttempts) : Nat :=
  5 * ((maxCompactionOverflowShrinkAttempts - s.overflowShrinkCount) +
    (maxCompactionRetryAttempts - s.emptyOrTruncatedShrinkCount)) + (maxCompactionRetryAttempts - 1 - s.retryCount)

theorem retry_remaining (h : s.retry retryable = some s') : s'.remaining < s.remaining := by
  rw [retry] at h
  split_ifs at h with _ hlimit
  cases h
  unfold remaining
  dsimp only [maxCompactionOverflowShrinkAttempts, maxCompactionRetryAttempts] at hlimit ⊢
  omega

theorem next_remaining (h : s.next rejection = some s') : s'.remaining < s.remaining := by
  cases rejection with
  | overflow =>
    rw [next] at h
    split_ifs at h with hlimit
    cases h
    unfold remaining
    dsimp only [maxCompactionOverflowShrinkAttempts, maxCompactionRetryAttempts] at hlimit ⊢
    omega
  | emptyOrTruncated retryable =>
    rw [next] at h
    split_ifs at h with hlong
    · dsimp only at h
      split_ifs at h with hlimit
      cases h
      unfold remaining
      dsimp only [maxCompactionOverflowShrinkAttempts, maxCompactionRetryAttempts] at hlimit ⊢
      omega
    · exact retry_remaining h
  | other retryable => exact retry_remaining h

theorem run_remaining {rejections : List Rejection} (h : rejections.foldlM next s = some s') :
    rejections.length + s'.remaining ≤ s.remaining := by
  induction rejections generalizing s with
  | nil =>
    cases h
    exact le_of_eq (zero_add _)
  | cons rejection rejections ih =>
    obtain ⟨s₁, hnext, hrest⟩ := bind_eq_some_iff.mp h
    have hless := next_remaining hnext
    have hlater := ih hrest
    rw [length_cons]
    omega

/-- What is left has to have a message that is no tool result. -/
def Shrinkable (s : SummaryAttempts) : Rejection → Prop
  | .overflow => KeepsRecent s.historyForModel (shrinkBudget s.historyForModel (s.overflowShrinkCount + 1))
  | .emptyOrTruncated _ => s.historyForModel.length ≤ 1 ∨ ∃ m ∈ s.historyForModel.tail, m.role ≠ .tool
  | .other _ => True

structure Requested (whole : List ContextMessage) (s : SummaryAttempts) : Prop where
  nonempty : s.historyForModel ≠ []
  suffix : s.historyForModel <:+ whole

theorem Requested.retry (h : Requested whole s) (hretry : s.retry retryable = some s') : Requested whole s' := by
  rw [SummaryAttempts.retry] at hretry
  split_ifs at hretry
  cases hretry
  exact ⟨h.nonempty, h.suffix⟩

theorem Requested.next (h : Requested whole s) (hcondition : s.Shrinkable rejection)
    (hnext : s.next rejection = some s') : Requested whole s' := by
  cases rejection with
  | overflow =>
    rw [next] at hnext
    split_ifs at hnext with hlimit
    cases hnext
    have hlong : 2 ≤ s.historyForModel.length := by omega
    have hwell := (shrinksWell_iff hlong _).mpr hcondition
    exact ⟨hwell.nonempty, hwell.suffix.trans h.suffix⟩
  | emptyOrTruncated retryable =>
    rw [next] at hnext
    split_ifs at hnext with hlong
    · dsimp only at hnext
      split_ifs at hnext
      cases hnext
      have hreduced : dropOldestMessageAndLeadingToolResults s.historyForModel =
          dropLeadingToolResults (s.historyForModel.drop 1) := if_neg (by omega)
      rcases hcondition with hshort | ⟨m, hm, hrole⟩
      · omega
      · have hne : dropLeadingToolResults (s.historyForModel.drop 1) ≠ [] := by
          obtain ⟨before, after, hsplit⟩ := append_of_mem hm
          rw [drop_one]
          exact dropLeadingToolResults_ne_nil.mpr ⟨before, m, after, hsplit, hrole⟩
        have hwell := dropped_shrinksWell one_pos h.nonempty hne
        constructor
        · rw [hreduced]
          exact hwell.nonempty
        · rw [hreduced]
          exact hwell.suffix.trans h.suffix
    · exact h.retry hnext
  | other retryable => exact h.retry hnext

end SummaryAttempts

/-- A shrink step leaves part of the history exactly if a later message fits in the budget; the retries end whatever
happens; and while each shrink leaves something, no request is for an empty history. -/
theorem compaction_shrinks (messages : List ContextMessage) : (∀ attempt, 2 ≤ messages.length →
      (ShrinksWell messages (shrinkCompactionHistoryAfterOverflow messages attempt) ↔
        KeepsRecent messages (shrinkBudget messages attempt))) ∧
    (∀ (rejections : List Rejection) (s : SummaryAttempts),
      rejections.foldlM SummaryAttempts.next { historyForModel := messages } = some s → rejections.length ≤ 44) ∧
    ∀ (rejections : List Rejection) (s : SummaryAttempts), messages ≠ [] →
      AlongRun SummaryAttempts.next SummaryAttempts.Shrinkable { historyForModel := messages } rejections →
      rejections.foldlM SummaryAttempts.next { historyForModel := messages } = some s →
      s.historyForModel ≠ [] ∧ s.historyForModel <:+ messages := by
  refine ⟨fun attempt h => shrinksWell_iff h attempt, ?_, ?_⟩
  · intro rejections s hrun
    have hbound := SummaryAttempts.run_remaining hrun
    have hstart : SummaryAttempts.remaining { historyForModel := messages } = 44 := rfl
    omega
  · intro rejections s hne halong hrun
    have hrequested : SummaryAttempts.Requested messages s :=
      halong.invariant (fun s rejection s' h hcondition hnext => SummaryAttempts.Requested.next h hcondition hnext)
        ⟨hne, suffix_refl _⟩ hrun
    exact ⟨hrequested.nonempty, hrequested.suffix⟩

def longAnswer : List ContextMessage :=
  [userMessage [.text "hi"], { role := .assistant, content := [.text "0123456789012345678901234567890123456789"] }]

/-- Nothing is left of a history that ends with its longest message. -/
theorem longAnswer_shrinks : ¬ShrinksWell longAnswer (shrinkCompactionHistoryAfterOverflow longAnswer 1) ∧
      ∃ s, [Rejection.overflow].foldlM SummaryAttempts.next { historyForModel := longAnswer } = some s ∧
        s.historyForModel = [] := by
  have hempty : shrinkCompactionHistoryAfterOverflow longAnswer 1 = [] := by decide +kernel
  refine ⟨?_, _, rfl, hempty⟩
  intro h
  exact h.nonempty hempty

def shortAnswer : List ContextMessage :=
  [userMessage [.text "0123456789012345678901234567890123456789"], { role := .assistant, content := [.text "hi"] }]

theorem shortAnswer_shrinks : ShrinksWell shortAnswer (shrinkCompactionHistoryAfterOverflow shortAnswer 1) ∧
      ∃ s, [Rejection.overflow].foldlM SummaryAttempts.next { historyForModel := shortAnswer } = some s ∧
        [Rejection.overflow].length ≤ 44 ∧ s.historyForModel ≠ [] := by
  obtain ⟨hiff, hbound, hrequested⟩ := compaction_shrinks shortAnswer
  have hkeeps : KeepsRecent shortAnswer (shrinkBudget shortAnswer 1) := by
    refine ⟨[userMessage [.text "0123456789012345678901234567890123456789"]], _, [], rfl, ?_, ?_, ?_⟩
    · exact cons_ne_nil _ _
    · decide
    · decide +kernel
  have halong : AlongRun SummaryAttempts.next SummaryAttempts.Shrinkable { historyForModel := shortAnswer }
      [.overflow] := ⟨hkeeps, fun _ _ => trivial⟩
  have hrun : ∃ s, [Rejection.overflow].foldlM SummaryAttempts.next { historyForModel := shortAnswer } = some s :=
    ⟨_, rfl⟩
  obtain ⟨s, hs⟩ := hrun
  have hne : shortAnswer ≠ [] := cons_ne_nil _ _
  exact ⟨(hiff 1 (by decide)).mpr hkeeps, s, hs, hbound _ s hs, (hrequested _ s hne halong hs).1⟩

end Echadron.Agent
