import Echadron.Agent.ContextReplay

namespace Echadron.Agent
open Lib
open List hiding count after

/-! A compaction that runs while messages are appended to the history. -/

/-- The check before a result is applied. Messages are compared by value, which lets through at
least the histories that a comparison by reference does. -/
def historySafeToCompact (current original : List ContextMessage) : Bool :=
  if current.length < original.length then false
  else if current.take original.length ≠ original then false
  else (current.drop original.length).all isRealUserInput

def remoteCompactionSummary : String := "[OpenAI server compaction checkpoint]"

/-- What a compaction has computed from the history it started with. -/
inductive CompactionOutput where
  | summarizer (summary contextSummary : String) (summaryOutputTokens droppedCount : Option Nat)
  | deterministicFallback (summary contextSummary : String)
  | remote (messages : List ContextMessage)

structure ActiveCompaction where
  originalHistory : List ContextMessage
  tokensBefore : Nat
  requestOverheadTokens : Nat

def CompactionOutput.isLocal : CompactionOutput → Bool
  | remote _ => false
  | _ => true

namespace ActiveCompaction

def start (svc : AgentContextMemoryService) (tokensBefore requestOverheadTokens : Nat) : ActiveCompaction :=
  { originalHistory := svc.model.messages
    tokensBefore := tokensBefore
    requestOverheadTokens := requestOverheadTokens }

def input (active : ActiveCompaction) : CompactionOutput → ContextCompactionInput
  | .summarizer summary contextSummary summaryOutputTokens droppedCount =>
    { summary := summary
      contextSummary := some contextSummary
      compactedCount := active.originalHistory.length
      tokensBefore := active.tokensBefore
      summaryOutputTokens := summaryOutputTokens
      requestOverheadTokens := some active.requestOverheadTokens
      droppedCount := droppedCount }
  | .deterministicFallback summary contextSummary =>
    { summary := summary
      contextSummary := some contextSummary
      compactedCount := active.originalHistory.length
      tokensBefore := active.tokensBefore
      requestOverheadTokens := some active.requestOverheadTokens }
  | .remote messages =>
    { summary := remoteCompactionSummary
      contextSummary := some remoteCompactionSummary
      replacementMessages := some messages
      compactedCount := active.originalHistory.length
      tokensBefore := active.tokensBefore }

def shrinks (active : ActiveCompaction) (history : List ContextMessage) : CompactionOutput → Bool
  | .deterministicFallback summary contextSummary =>
    let input := active.input (.deterministicFallback summary contextSummary)
    decide ((buildContextCompactionShape history input.toShapeInput).tokensAfter < active.tokensBefore)
  | _ => true

/-- Apply what was computed, absent where the code gives up. -/
def apply (active : ActiveCompaction) (now : Nat) (svc : AgentContextMemoryService)
    (output : CompactionOutput) : Option AgentContextMemoryService :=
  if historySafeToCompact svc.model.messages active.originalHistory = false then none
  else if active.shrinks svc.model.messages output = false then none
  else svc.applyCompaction now (active.input output)

end ActiveCompaction

def Appends : ServiceCall → Prop
  | .append messages => ∀ m ∈ messages, isOpen m = false
  | .appendLoopEvent _ => True
  | _ => False

def appendedMessages (calls : List (Nat × ServiceCall)) : List ContextMessage :=
  calls.flatMap fun c =>
    match c.2 with
    | .append messages => messages
    | _ => []

namespace AgentContextMemoryService

def calls (svc : AgentContextMemoryService) (calls : List (Nat × ServiceCall)) : Option AgentContextMemoryService :=
  calls.foldlM (fun svc c => svc.call c.1 c.2) svc

end AgentContextMemoryService

/-- A message is in the history or waits for its place in it. -/
def Held (m : ContextMessage) (s : Folded) : Prop := m ∈ s.messages ∨ m ∈ s.ctx.deferred

theorem Held.flushDeferred (h : Held m s) : Held m s.flushDeferred := by
  unfold Folded.flushDeferred
  split
  · exact h
  · rcases h with h | h
    · exact .inl (mem_append_left _ h)
    · exact .inl (mem_append_right _ h)

theorem Held.closePending (h : Held m s) : Held m s.closePending := by
  unfold Folded.closePending
  split
  · exact h
  · apply Held.flushDeferred
    rcases h with h | h
    · exact .inl (mem_append_left _ h)
    · exact .inr h

theorem mem_modify_open {messages : List ContextMessage} (hm : m ∈ messages)
    (hopen : isOpen m = false) (hindex : ∀ a, messages[index]? = some a → isOpen a = true)
    (update : ContextMessage → ContextMessage) : m ∈ messages.modify index update := by
  obtain ⟨i, hi⟩ := mem_iff_getElem?.mp hm
  apply mem_iff_getElem?.mpr
  refine ⟨i, ?_⟩
  have hne : index ≠ i := by
    rintro rfl
    rw [hindex m hi] at hopen
    cases hopen
  rw [getElem?_modify, hi]
  show some (if index = i then update m else m) = some m
  rw [if_neg hne]

theorem isOpen_of_findOpen
    (h : findOpenAssistantIndex messages = some index) (a : ContextMessage)
    (ha : messages[index]? = some a) : isOpen a = true := by
  induction messages generalizing index with
  | nil => cases h
  | cons x xs ih =>
    rw [findOpenAssistantIndex] at h
    cases hx : findOpenAssistantIndex xs with
    | some i =>
      rw [hx] at h
      cases h
      exact ih hx ha
    | none =>
      rw [hx] at h
      dsimp only at h
      split at h
      · rename_i hopen
        cases h
        cases ha
        exact hopen
      · cases h

section

variable {messages : List ContextMessage} (hm : m ∈ messages) (hopen : isOpen m = false)
include hm hopen

theorem mem_appendToOpen (update : ContextMessage → ContextMessage) : m ∈ appendToOpenAssistant messages update := by
  unfold appendToOpenAssistant
  cases hi : findOpenAssistantIndex messages with
  | none => exact hm
  | some index => exact mem_modify_open hm hopen (isOpen_of_findOpen hi) update

theorem mem_sealOpen : m ∈ Folded.sealOpen messages := by
  unfold Folded.sealOpen
  cases hi : findOpenAssistantIndex messages with
  | none => exact hm
  | some index =>
    dsimp only
    cases ha : messages[index]? with
    | none => exact hm
    | some a =>
      have hisOpen := isOpen_of_findOpen hi a ha
      dsimp only
      split
      · obtain ⟨i, hmi⟩ := mem_iff_getElem?.mp hm
        apply mem_eraseIdx_iff_getElem?.mpr
        refine ⟨i, ?_, hmi⟩
        rintro rfl
        rw [hmi] at ha
        cases ha
        rw [hisOpen] at hopen
        cases hopen
      · exact mem_modify_open hm hopen (isOpen_of_findOpen hi) _

end

theorem Held.settleOpenStep (h : Held m s) (hopen : isOpen m = false) : Held m s.settleOpenStep := by
  rcases h.closePending with h | h
  · exact .inl (mem_sealOpen h hopen)
  · exact .inr h

theorem Held.foldAppendMessage (h : Held m s ∨ m = message) : Held m (foldAppendMessage s message) := by
  unfold Agent.foldAppendMessage
  split
  · rcases h with (h | h) | rfl
    · exact .inl h
    · exact .inr (mem_append_left _ h)
    · exact .inr mem_concat_self
  · rcases h with (h | h) | rfl
    · exact .inl (mem_append_left _ h)
    · exact .inr h
    · exact .inl mem_concat_self

theorem Held.foldLoopEvent (h : Held m s) (hopen : isOpen m = false)
    (event : LoopRecordedEvent) : Held m (foldLoopEvent s event) := by
  cases event with
  | stepBegin uuid =>
    rcases h.settleOpenStep hopen with h | h
    · exact .inl (mem_append_left _ h)
    · exact .inr h
  | stepEnd uuid =>
    have hset : Held m (s.setOpenStep none) := h
    exact (hset.settleOpenStep hopen).flushDeferred
  | contentPart stepUuid part =>
    rcases h with h | h
    · exact .inl (mem_appendToOpen h hopen _)
    · exact .inr h
  | toolCall stepUuid toolCallId name args extras =>
    rcases h with h | h
    · exact .inl (mem_appendToOpen h hopen _)
    · exact .inr h
  | toolResult toolCallId result =>
    unfold Agent.foldLoopEvent
    dsimp only
    split
    · apply Held.flushDeferred
      rcases h with h | h
      · exact .inl (mem_append_left _ h)
      · exact .inr h
    · exact h

theorem Held.appended (messages : List ContextMessage) (h : Held m svc.model ∨ m ∈ messages)
    (hrun : (messages.map .appendMessage).foldlM (AgentContextMemoryService.dispatch now) svc = some svc') :
    Held m svc'.model := by
  induction messages generalizing svc with
  | nil =>
    cases hrun
    rcases h with h | h
    · exact h
    · cases h
  | cons message messages ih =>
    rw [map_cons, foldlM_cons] at hrun
    obtain ⟨svc₁, h₁, hrun⟩ := Option.bind_eq_some_iff.mp hrun
    cases h₁
    apply ih _ hrun
    rcases h with h | h
    · exact .inl (Held.foldAppendMessage (.inl h))
    · rcases mem_cons.mp h with rfl | h
      · exact .inl (Held.foldAppendMessage (.inr rfl))
      · exact .inr h

theorem Held.call {svc svc' : AgentContextMemoryService} {call : ServiceCall}
    (hopen : isOpen m = false) (happend : Appends call)
    (h : Held m svc.model ∨ m ∈ appendedMessages [(now, call)]) (hcall : svc.call now call = some svc') :
    Held m svc'.model := by
  cases call with
  | append messages =>
    have h : Held m svc.model ∨ m ∈ messages := by
      rcases h with h | h
      · exact .inl h
      · exact .inr (append_nil messages ▸ h)
    unfold AgentContextMemoryService.call AgentContextMemoryService.append at hcall
    dsimp only at hcall
    split at hcall
    · rename_i hnil
      cases hcall
      rcases h with h | h
      · exact h
      · rw [length_eq_zero_iff.mp hnil] at h
        cases h
    · obtain ⟨svc₁, h₁, rfl⟩ := Option.map_eq_some_iff.mp hcall
      show Held m svc₁.model
      exact Held.appended messages h h₁
  | appendLoopEvent event =>
    cases hcall
    rcases h with h | h
    · exact h.foldLoopEvent hopen event
    · cases h
  | clear => cases happend
  | undo count => cases happend
  | applyCompaction input => cases happend

theorem Held.calls {svc svc' : AgentContextMemoryService} (calls : List (Nat × ServiceCall))
    (hopen : isOpen m = false) (happend : ∀ c ∈ calls, Appends c.2)
    (h : Held m svc.model ∨ m ∈ appendedMessages calls) (hcalls : svc.calls calls = some svc') :
    Held m svc'.model := by
  induction calls generalizing svc with
  | nil =>
    cases hcalls
    rcases h with h | h
    · exact h
    · cases h
  | cons c calls ih =>
    obtain ⟨hc, happend⟩ := forall_mem_cons.mp happend
    obtain ⟨svc₁, h₁, hcalls⟩ := Option.bind_eq_some_iff.mp hcalls
    have hsplit : appendedMessages (c :: calls) = appendedMessages [c] ++ appendedMessages calls := by
      rw [appendedMessages, appendedMessages, flatMap_singleton]
      rfl
    rw [hsplit, mem_append] at h
    apply ih happend _ hcalls
    rcases h with h | h | h
    · exact .inl (Held.call hopen hc (.inl h) h₁)
    · exact .inl (Held.call hopen hc (.inr h) h₁)
    · exact .inr h

theorem estimateTokensForMessage_pos (m : ContextMessage) : 0 < estimateTokensForMessage m := by
  have hrole : 0 < estimateTokens m.role.text := by
    cases m.role with
    | system => decide +kernel
    | user => decide +kernel
    | assistant => decide +kernel
    | tool => decide +kernel
  unfold estimateTokensForMessage
  omega

theorem estimateTokensForMessages_cons (m : ContextMessage) (ms : List ContextMessage) :
    estimateTokensForMessages (m :: ms) = estimateTokensForMessage m + estimateTokensForMessages ms := by
  rfl

theorem estimateTokensForMessages_reverse (ms : List ContextMessage) :
    estimateTokensForMessages ms.reverse = estimateTokensForMessages ms := by
  rw [estimateTokensForMessages, map_reverse, sum_reverse]
  rfl

theorem mem_selectTail_tail (remaining : Nat) (reversed tail : List ContextMessage) (hm : m ∈ tail) :
    m ∈ (selectTail remaining reversed tail).tail := by
  induction reversed generalizing remaining tail with
  | nil => exact hm
  | cons message before ih =>
    rw [selectTail]
    split
    · exact hm
    · split
      · exact ih _ _ (mem_cons_of_mem _ hm)
      · exact mem_cons_of_mem _ hm

theorem mem_selectTail (remaining : Nat) (recent before tail : List ContextMessage)
    (hfits : estimateTokensForMessages recent ≤ remaining) (hm : m ∈ recent) :
    m ∈ (selectTail remaining (recent ++ before) tail).tail := by
  induction recent generalizing remaining tail with
  | nil => cases hm
  | cons message recent ih =>
    have hpos := estimateTokensForMessage_pos message
    rw [estimateTokensForMessages_cons] at hfits
    rw [cons_append, selectTail, if_neg (by omega), if_pos (by omega)]
    rcases mem_cons.mp hm with rfl | hm
    · exact mem_selectTail_tail _ _ _ mem_cons_self
    · exact ih _ _ (by omega) hm

def compactUserMessageTailTokens : Nat := compactUserMessageMaxTokens - compactUserMessageHeadTokens

def FitsBudget (before : List ContextMessage) (m : ContextMessage) (after : List ContextMessage) : Prop :=
  estimateTokensForMessages (collectCompactableUserMessages (before ++ m :: after)) ≤
      compactUserMessageMaxTokens ∨
    estimateTokensForMessages (collectCompactableUserMessages (m :: after)) ≤ compactUserMessageTailTokens

theorem isCompactionSummaryMessage_of_real (h : isRealUserInput m = true) : isCompactionSummaryMessage m = false := by
  obtain ⟨_, hkept⟩ := Bool.and_eq_true_iff.mp h
  unfold isCompactionSummaryMessage
  cases ho : m.origin with
  | none => rfl
  | some origin =>
    rw [ho] at hkept
    cases origin with
    | compactionSummary => cases hkept
    | _ => rfl

theorem collectCompactable_cons (h : isRealUserInput m = true) (ms : List ContextMessage) :
    collectCompactableUserMessages (m :: ms) = m :: collectCompactableUserMessages ms := by
  apply filter_cons_of_pos
  rw [h, isCompactionSummaryMessage_of_real h]
  rfl

theorem mem_keptMessages (h : isRealUserInput m = true) (hfits : FitsBudget before m after) :
    m ∈ keptMessages (selectCompactionUserMessages
      (collectCompactableUserMessages (before ++ m :: after))) := by
  have hsplit : collectCompactableUserMessages (before ++ m :: after) =
      collectCompactableUserMessages before ++ m :: collectCompactableUserMessages after := by
    rw [← collectCompactable_cons h]
    exact filter_append _ _
  apply mem_append_right
  rw [FitsBudget, collectCompactable_cons h] at hfits
  rw [selectCompactionUserMessages]
  split
  · rw [hsplit]
    exact mem_append_right _ mem_cons_self
  · rename_i htotal
    rcases hfits with hfits | hfits
    · exact absurd hfits htotal
    · rw [hsplit, reverse_append]
      apply mem_selectTail
      · rw [estimateTokensForMessages_reverse]
        exact hfits
      · exact mem_reverse.mpr mem_cons_self

theorem applyCompaction_messages {svc svc' : AgentContextMemoryService}
    (h : svc.applyCompaction now input = some svc') :
    svc'.model.messages = (buildContextCompactionShape svc.model.messages input.toShapeInput).messages := by
  unfold AgentContextMemoryService.applyCompaction at h
  obtain ⟨svc₁, h₁, rfl⟩ := Option.map_eq_some_iff.mp h
  rw [AgentContextMemoryService.dispatch, applyRecord, contextApplyCompaction_payload] at h₁
  cases h₁
  rfl

theorem ActiveCompaction.apply_messages {active : ActiveCompaction} (hlocal : output.isLocal = true)
    (h : active.apply now svc output = some svc') :
    svc'.model.messages = (handoffShape svc.model.messages (active.input output).toShapeInput).messages := by
  unfold apply at h
  split at h
  · cases h
  · split at h
    · cases h
    · rw [applyCompaction_messages h]
      cases output with
      | summarizer summary contextSummary summaryOutputTokens droppedCount => rfl
      | deterministicFallback summary contextSummary => rfl
      | remote messages => cases hlocal

/-- What a user typed while a local compaction ran is in the history when its result is applied,
unless it still waits behind a tool call, and the handoff keeps it as far as its budget goes. If not
all input fits, a note says so. -/
theorem compaction_keepsInput (svc svc' after : AgentContextMemoryService)
    (calls : List (Nat × ServiceCall)) (happend : ∀ c ∈ calls, Appends c.2)
    (hcalls : svc.calls calls = some svc') (hdeferred : svc'.model.ctx.deferred = [])
    (tokensBefore requestOverheadTokens now : Nat) (output : CompactionOutput)
    (hlocal : output.isLocal = true)
    (happly : (ActiveCompaction.start svc tokensBefore requestOverheadTokens).apply now svc' output = some after)
    (m : ContextMessage) (hm : m ∈ appendedMessages calls) (hreal : isRealUserInput m = true) :
    ∃ before later, svc'.model.messages = before ++ m :: later ∧
      (FitsBudget before m later → m ∈ after.model.messages) ∧
      (compactUserMessageMaxTokens <
          estimateTokensForMessages (collectCompactableUserMessages svc'.model.messages) →
        ∃ omittedTokens, createCompactionElisionMessage omittedTokens ∈ after.model.messages) := by
  have hopen : isOpen m = false := by
    obtain ⟨c, hc, hmc⟩ := mem_flatMap.mp hm
    have hcall := happend c hc
    obtain ⟨time, call⟩ := c
    cases call with
    | append messages => exact hcall m hmc
    | appendLoopEvent event => cases hmc
    | clear => cases hmc
    | undo count => cases hmc
    | applyCompaction input => cases hmc
  have hheld : m ∈ svc'.model.messages := by
    rcases Held.calls calls hopen happend (.inr hm) hcalls with h | h
    · exact h
    · rw [hdeferred] at h
      cases h
  obtain ⟨before, later, hsplit⟩ := append_of_mem hheld
  have hmessages := ActiveCompaction.apply_messages hlocal happly
  refine ⟨before, later, hsplit, ?_, ?_⟩
  · intro hfits
    rw [hmessages, hsplit]
    exact mem_append_left _ (mem_keptMessages hreal hfits)
  · intro htotal
    rw [hmessages]
    let selection := selectCompactionUserMessages (collectCompactableUserMessages svc'.model.messages)
    have helided : selection.elided = true := by
      show (selectCompactionUserMessages _).elided = true
      rw [selectCompactionUserMessages]
      rw [if_neg (Nat.not_le_of_lt htotal)]
    refine ⟨selection.omittedTokens, mem_append_left _ (mem_append_left _ ?_)⟩
    apply mem_append_right
    rw [if_pos helided]
    exact mem_singleton_self _

def userMessage (content : List ContentPart) : ContextMessage :=
  { role := .user, content := content, origin := some .user }

def startedSession : AgentContextMemoryService := { model := { messages := [userMessage [.text "hi"]] } }

/-- The same with a tool call that has no result yet. -/
def callingSession : AgentContextMemoryService :=
  { model := ((Folded.empty.setOpenStep none |> (foldAppendMessage · (userMessage [.text "hi"])) |>
      (foldLoopEvent · (.stepBegin "s"))) |> (foldLoopEvent · (.toolCall "s" "c" "t" none none))) }

/-- Eleven pictures are worth 22000 tokens. -/
def pictures : ContextMessage := userMessage (replicate 11 (.imageUrl "u" none))

def typed : ContextMessage := userMessage [.text "go on"]

/-- Whether a message that is appended while the compaction runs is lost when it is applied. -/
def Loses (svc : AgentContextMemoryService) (m : ContextMessage) (output : CompactionOutput) : Prop :=
  isRealUserInput m = true ∧ ∃ svc', svc.calls [(1, .append [m])] = some svc' ∧
      ∃ after, (ActiveCompaction.start svc 100 0).apply 2 svc' output = some after ∧ m ∉ after.model.messages

/-- Input over the budget is cut, replacement messages replace new input too, and what waits behind
a tool call is dropped. -/
theorem compaction_losesInput : Loses startedSession pictures (.summarizer "s" "s" none none) ∧
      Loses startedSession typed (.remote [createCompactionSummaryMessage "s"]) ∧
      Loses callingSession typed (.summarizer "s" "s" none none) := by
  refine ⟨⟨rfl, _, rfl, _, rfl, ?_⟩, ⟨rfl, _, rfl, _, rfl, ?_⟩, ⟨rfl, _, rfl, _, rfl, ?_⟩⟩
  · decide +kernel
  · decide +kernel
  · decide +kernel

theorem compaction_keepsInput_typed : ∃ svc' after, startedSession.calls [(1, .append [typed])] = some svc' ∧
      (ActiveCompaction.start startedSession 100 0).apply 2 svc' (.summarizer "s" "s" none none) = some after ∧
      ∃ before later, svc'.model.messages = before ++ typed :: later ∧
        (FitsBudget before typed later → typed ∈ after.model.messages) ∧
        (compactUserMessageMaxTokens <
            estimateTokensForMessages (collectCompactableUserMessages svc'.model.messages) →
          ∃ omittedTokens, createCompactionElisionMessage omittedTokens ∈ after.model.messages) := by
  have happend : ∀ c ∈ [(1, ServiceCall.append [typed])], Appends c.2 := by
    intro c hc
    obtain rfl := mem_singleton.mp hc
    intro m hm
    obtain rfl := mem_singleton.mp hm
    rfl
  refine ⟨_, _, rfl, rfl, ?_⟩
  exact compaction_keepsInput startedSession _ _ [(1, .append [typed])] happend rfl rfl 100 0 2
    (.summarizer "s" "s" none none) rfl rfl typed mem_cons_self rfl

end Echadron.Agent
