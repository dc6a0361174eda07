import Echadron.Agent.CompactionHandoff
import Echadron.Agent.LoopEventFold

namespace Echadron.Agent
open Lib List Option

/-! The conversation clock. -/

def isUndoAnchor (message : ContextMessage) : Bool :=
  decide (message.role = .user) &&
    match message.origin with
    | none => true
    | some .user => true
    | some (.skillActivation _ _ trigger) => decide (trigger = .userSlash)
    | some (.pluginCommand ..) => true
    | some _ => false

def isInjection (message : ContextMessage) : Bool :=
  match message.origin with
  | some (.injection ..) => true
  | _ => false

def isPromptOwnedInjection (message prompt : ContextMessage) : Bool :=
  match message.origin with
  | some (.injection _ (some ownerPromptId)) => decide (some ownerPromptId = prompt.id)
  | _ => false

def maxSafeInteger : Nat := 2 ^ 53 - 1

def isValidUndoCount (count : Nat) : Bool := decide (count ≤ maxSafeInteger ∧ 0 < count)

/-- Where an undo cuts the history. The index is absent where the code has `-1`. -/
structure UndoCut where
  cutIndex : Option Nat
  removedCount : Nat
  stoppedAtCompaction : Bool
deriving DecidableEq

/-- The scan of `computeUndoCut` from the end of the history, given in reverse. -/
def undoScan (remaining : Nat) (cut : UndoCut) : List ContextMessage → UndoCut
  | [] => cut
  | message :: before =>
    if remaining = 0 then cut
    else if isInjection message then undoScan remaining cut before
    else if isCompactionSummaryMessage message then { cut with stoppedAtCompaction := true }
    else if isUndoAnchor message then
      undoScan (remaining - 1)
        { cut with
          removedCount := cut.removedCount + 1
          cutIndex := some (before.dropWhile fun m => isPromptOwnedInjection m message).length }
        before
    else undoScan remaining cut before

def computeUndoCut (messages : List ContextMessage) (count : Nat) : UndoCut :=
  undoScan count ⟨none, 0, false⟩ messages.reverse

def isFullyUndoable (cut : UndoCut) (count : Nat) : Bool :=
  cut.cutIndex.isSome && decide (cut.removedCount ≥ count)

theorem not_isInjection_of_isUndoAnchor (h : isUndoAnchor m = true) : isInjection m = false := by
  unfold isUndoAnchor at h
  unfold isInjection
  split
  · simp_all
  · rfl

theorem isInjection_of_isPromptOwnedInjection {m prompt : ContextMessage}
    (h : isPromptOwnedInjection m prompt = true) : isInjection m = true := by
  unfold isPromptOwnedInjection at h
  unfold isInjection
  split at h
  · rename_i ho
    rw [ho]
  · cases h

theorem not_isPromptOwnedInjection_of_summary {m prompt : ContextMessage}
    (h : isCompactionSummaryMessage m = true) : isPromptOwnedInjection m prompt = false := by
  unfold isCompactionSummaryMessage isCompactionSummary at h
  unfold isPromptOwnedInjection
  split
  · simp_all
  · rfl

theorem undoScan_zero (cut : UndoCut) (messages : List ContextMessage) : undoScan 0 cut messages = cut := by
  cases messages <;> rfl

theorem undoScan_le
    (hcut : ∀ index ∈ cut.cutIndex, index ≤ limit) (hbefore : before.length ≤ limit) :
    ∀ index ∈ (undoScan remaining cut before).cutIndex, index ≤ limit := by
  induction before generalizing remaining cut with
  | nil => exact hcut
  | cons message before ih =>
    have hrest : before.length ≤ limit := Nat.le_of_succ_le hbefore
    rw [undoScan]
    split
    · exact hcut
    · split
      · exact ih hcut hrest
      · split
        · exact hcut
        · split
          · apply ih _ hrest
            intro index hindex
            cases hindex
            exact le_trans (dropWhile_sublist _).length_le hrest
          · exact ih hcut hrest

theorem computeUndoCut_le {count index : Nat}
    (h : (computeUndoCut messages count).cutIndex = some index) : index ≤ messages.length := by
  apply undoScan_le _ length_reverse.le index h
  intro index hindex
  cases hindex

def swarmModeVariant : String := "swarm_mode"

def isSwarmModeReminder (message : ContextMessage) : Bool :=
  match message.origin with
  | some (.injection variant _) => decide (variant = swarmModeVariant)
  | _ => false

def popSwarmModeReminder (s : Folded) : Folded :=
  match s.messages.getLast? with
  | none => s
  | some last => if isSwarmModeReminder last then resetFold s.messages.dropLast else s

def contextClear (s : Folded) : Folded := if s.messages.length = 0 then s else resetFold []

/-- The fields of a `context.apply_compaction` payload; `summary` is a text or, in old journals, a
message. -/
structure CompactionPayload where
  summary : Option (String ⊕ ContextMessage) := none
  contextSummary : Option String := none
  compactedCount : Option Nat := none
  count : Option Nat := none
  tokensBefore : Option Nat := none
  tokensAfter : Option Nat := none
  keptUserMessageCount : Option Nat := none
  keptHeadUserMessageCount : Option Nat := none
  droppedCount : Option Nat := none
  legacyTail : Option Bool := none
  replacementMessages : Option (List ContextMessage) := none

section

variable (payload : CompactionPayload)

def readContextCompactedCount : Option Nat := payload.compactedCount.or payload.count

def readContextCompactionRawSummary : Option String :=
  match payload.summary, payload.contextSummary with
  | some (.inl summary), _ => some summary
  | _, some contextSummary => some contextSummary
  | some (.inr message), none => some (extractText message.content)
  | none, none => none

def readLegacySummaryMessage : Option ContextMessage :=
  match payload.summary with
  | some (.inr message) => some message
  | _ => none

/-- Absent where the code throws, for want of a summary or of a count. -/
def readContextCompactionShapeInput : Option ContextCompactionShapeInput := do
  let summary ← readContextCompactionRawSummary payload
  let compactedCount ← readContextCompactedCount payload
  return {
    summary := summary
    replacementMessages := payload.replacementMessages
    legacySummaryMessage := readLegacySummaryMessage payload
    contextSummary := payload.contextSummary
    compactedCount := compactedCount
    tokensBefore := payload.tokensBefore.getD 0
    tokensAfter := payload.tokensAfter
    keptUserMessageCount := payload.keptUserMessageCount
    keptHeadUserMessageCount := payload.keptHeadUserMessageCount
    droppedCount := payload.droppedCount
    legacyTail := some (payload.legacyTail.getD payload.keptUserMessageCount.isNone) }

end

def contextApplyCompaction (s : Folded) (payload : CompactionPayload) : Option Folded :=
  (readContextCompactionShapeInput payload).map fun input =>
    resetFold (buildContextCompactionShape s.messages input).messages

def contextUndo (s : Folded) (count : Nat) : Folded :=
  if isValidUndoCount count = false ∨ s.messages.length = 0 then s
  else
    let cut := computeUndoCut s.messages count
    if isFullyUndoable cut count then resetFold (s.messages.take (cut.cutIndex.getD 0)) else s

/-- A record of the journal that changes the context model. -/
inductive ContextRecord where
  | appendMessage (message : ContextMessage)
  | appendLoopEvent (event : LoopRecordedEvent)
  | clear
  | applyCompaction (payload : CompactionPayload)
  | undo (count : Nat)
  | swarmModeExit

/-- The step of the context model, absent where it throws. -/
def applyRecord (s : Folded) : ContextRecord → Option Folded
  | .appendMessage message => some (foldAppendMessage s message)
  | .appendLoopEvent event => some (foldLoopEvent s event)
  | .clear => some (contextClear s)
  | .applyCompaction payload => contextApplyCompaction s payload
  | .undo count => some (contextUndo s count)
  | .swarmModeExit => some (popSwarmModeReminder s)

def DeferredBehind (s : Folded) : Prop := s.ctx.pending.keys = [] → s.ctx.deferred = []

theorem DeferredBehind.flushDeferred (s : Folded) : DeferredBehind s.flushDeferred := by
  intro hkeys
  rw [Folded.flushDeferred_pending] at hkeys
  exact (Folded.flushDeferred_messages hkeys).2

theorem DeferredBehind.foldLoopEvent (h : DeferredBehind s) (event : LoopRecordedEvent) :
    DeferredBehind (foldLoopEvent s event) := by
  cases event with
  | stepBegin uuid => exact fun _ => (s.settleOpenStep_spec h).2.2
  | stepEnd uuid => exact flushDeferred _
  | contentPart uuid part => exact h
  | toolCall uuid id name args extras =>
    intro hkeys
    have hmem := (JsMap.mem_keys_set s.ctx.pending id id ()).mpr (.inl rfl)
    exact absurd (hkeys ▸ hmem) not_mem_nil
  | toolResult id result =>
    rw [Agent.foldLoopEvent]
    split_ifs
    · exact flushDeferred _
    · exact h

theorem DeferredBehind.applyRecord (h : DeferredBehind s) (op : ContextRecord)
    (happly : applyRecord s op = some s') : DeferredBehind s' := by
  cases op with
  | appendMessage message =>
    cases happly
    rw [foldAppendMessage]
    split_ifs with hpending
    · intro hkeys
      exact absurd ((JsMap.size_eq_zero_iff _).mpr hkeys) (ne_of_gt hpending)
    · exact h
  | appendLoopEvent event =>
    cases happly
    exact h.foldLoopEvent event
  | clear =>
    cases happly
    rw [contextClear]
    split_ifs
    · exact h
    · exact fun _ => rfl
  | applyCompaction payload =>
    obtain ⟨_, _, rfl⟩ := map_eq_some_iff.mp happly
    exact fun _ => rfl
  | undo count =>
    cases happly
    rw [contextUndo]
    split_ifs
    · exact h
    · dsimp only
      split_ifs
      · exact fun _ => rfl
      · exact h
  | swarmModeExit =>
    cases happly
    rw [popSwarmModeReminder]
    split
    · exact h
    · split_ifs
      · exact fun _ => rfl
      · exact h

end Echadron.Agent
