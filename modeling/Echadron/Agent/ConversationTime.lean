import Echadron.Agent.FoldFilter
import Mathlib.Data.List.Count

namespace Echadron.Agent
open Lib
open List hiding count

/-- The state of a model that is rolled back with the conversation. -/
structure Checkpointed (T : Type) where
  current : T
  checkpoints : List T := []

namespace Checkpointed

variable {T : Type} (onAppendMessage : Option (T → ContextMessage → T))

def undo (state : Checkpointed T) (count : Nat) : Checkpointed T :=
  if isValidUndoCount count = false ∨ state.checkpoints.length < count then state
  else
    let checkpointIndex := state.checkpoints.length - count
    { current := state.checkpoints.getD checkpointIndex state.current
      checkpoints := state.checkpoints.take checkpointIndex }

/-- The reducers that `defineCheckpointedModel` registers. -/
def reduce (state : Checkpointed T) : ContextRecord → Checkpointed T
  | .appendMessage message =>
    if isUndoAnchor message then
      { state with checkpoints := state.checkpoints ++ [state.current] }
    else
      match onAppendMessage with
      | none => state
      | some onAppend => { state with current := onAppend state.current message }
  | .applyCompaction _ => { state with checkpoints := [] }
  | .clear => { state with checkpoints := [] }
  | .undo count => state.undo count
  | .appendLoopEvent _ => state
  | .swarmModeExit => state

end Checkpointed

/-- The history and one of the models that follow it. -/
structure Conversation (T : Type) where
  context : Folded := .empty
  model : Checkpointed T

namespace Conversation

variable {T : Type} (onAppendMessage : Option (T → ContextMessage → T))

def apply (s : Conversation T) (op : ContextRecord) : Option (Conversation T) :=
  (applyRecord s.context op).map fun context => { context := context, model := s.model.reduce onAppendMessage op }

def run (initial : T) (ops : List ContextRecord) : Option (Conversation T) :=
  ops.foldlM (apply onAppendMessage) { model := { current := initial } }

end Conversation

def undoAnchors (messages : List ContextMessage) : Nat :=
  (messages.reverse.takeWhile fun m => !isCompactionSummaryMessage m).countP isUndoAnchor

def KeepsNoAnchor (s : Folded) (input : ContextCompactionShapeInput) : Prop :=
  input.legacyTail = some true → (∀ m ∈ input.legacySummaryMessage, isUndoAnchor m = false ∧ Ordinary m) ∧
      ∀ m ∈ s.messages.drop input.compactedCount, isUndoAnchor m = false

def Clocked {T : Type} (s : Conversation T) : ContextRecord → Prop
  | .appendMessage m => Ordinary m ∧ isCompactionSummaryMessage m = false
  | .appendLoopEvent _ => True
  | .clear => s.context.messages = [] → s.context.ctx.deferred = []
  | .applyCompaction payload => payload.replacementMessages = none ∧
    ∀ input ∈ readContextCompactionShapeInput payload, KeepsNoAnchor s.context input
  | .undo _ => s.context.ctx.deferred = []
  | .swarmModeExit => s.context.ctx.deferred = []

/-! Counting the anchors. -/

/-- The messages that the clock looks at. -/
def isMark (m : ContextMessage) : Bool := isUndoAnchor m || isCompactionSummaryMessage m

def anchorsBack (reversed : List ContextMessage) : Nat :=
  (reversed.takeWhile fun m => !isCompactionSummaryMessage m).countP isUndoAnchor

theorem undoAnchors_eq (messages : List ContextMessage) :
    undoAnchors messages = anchorsBack messages.reverse := rfl

theorem anchorsBack_summary (h : isCompactionSummaryMessage m = true) (before : List ContextMessage) :
    anchorsBack (m :: before) = 0 := by
  rw [anchorsBack, takeWhile_cons, if_neg (by rw [h]; exact Bool.false_ne_true)]
  rfl

theorem anchorsBack_anchor (h : isUndoAnchor m = true) (hs : isCompactionSummaryMessage m = false)
    (before : List ContextMessage) : anchorsBack (m :: before) = anchorsBack before + 1 := by
  rw [anchorsBack, takeWhile_cons, if_pos (by rw [hs]; rfl), countP_cons_of_pos h]
  rfl

theorem anchorsBack_neutral (h : isUndoAnchor m = false) (hs : isCompactionSummaryMessage m = false)
    (before : List ContextMessage) : anchorsBack (m :: before) = anchorsBack before := by
  rw [anchorsBack, takeWhile_cons, if_pos (by rw [hs]; rfl),
    countP_cons_of_neg (by rw [h]; exact Bool.false_ne_true)]
  rfl

theorem anchorsBack_skip (h : isMark m = false) (before : List ContextMessage) :
    anchorsBack (m :: before) = anchorsBack before := by
  obtain ⟨ha, hs⟩ := Bool.or_eq_false_iff.mp h
  exact anchorsBack_neutral ha hs before

theorem anchorsBack_filter (reversed : List ContextMessage) :
    anchorsBack (reversed.filter isMark) = anchorsBack reversed := by
  induction reversed with
  | nil => rfl
  | cons m before ih =>
    cases hm : isMark m with
    | false => rw [filter_cons_of_neg (by rw [hm]; exact Bool.false_ne_true), anchorsBack_skip hm, ih]
    | true =>
      rw [filter_cons_of_pos hm]
      cases hs : isCompactionSummaryMessage m with
      | true => rw [anchorsBack_summary hs, anchorsBack_summary hs]
      | false =>
        have ha : isUndoAnchor m = true := by
          rw [isMark, hs, Bool.or_false] at hm
          exact hm
        rw [anchorsBack_anchor ha hs, anchorsBack_anchor ha hs, ih]

theorem undoAnchors_congr (h : ms.filter isMark = ms'.filter isMark) : undoAnchors ms = undoAnchors ms' := by
  rw [undoAnchors_eq, undoAnchors_eq, ← anchorsBack_filter, ← anchorsBack_filter ms'.reverse,
    filter_reverse, filter_reverse, h]

theorem undoAnchors_concat (hs : isCompactionSummaryMessage m = false) (ms : List ContextMessage) :
    undoAnchors (ms ++ [m]) = undoAnchors ms + if isUndoAnchor m then 1 else 0 := by
  rw [undoAnchors_eq, reverse_append]
  cases ha : isUndoAnchor m with
  | true => exact anchorsBack_anchor ha hs _
  | false => exact anchorsBack_neutral ha hs _

theorem undoAnchors_summary (hs : isCompactionSummaryMessage m = true) (ms : List ContextMessage) :
    undoAnchors (ms ++ [m]) = 0 := by
  rw [undoAnchors_eq, reverse_append]
  exact anchorsBack_summary hs _

theorem undoAnchors_of_none (h : ∀ m ∈ ms, isUndoAnchor m = false) : undoAnchors ms = 0 := by
  apply countP_eq_zero.mpr
  intro m hm
  have hmem := mem_reverse.mp ((takeWhile_sublist _).subset hm)
  exact Bool.eq_false_iff.mp (h m hmem)

theorem isMark_of_isInjection (h : isInjection m = true) : isMark m = false := by
  apply Bool.or_eq_false_iff.mpr
  constructor
  · cases ha : isUndoAnchor m with
    | false => rfl
    | true => exact absurd h (Bool.eq_false_iff.mp (not_isInjection_of_isUndoAnchor ha))
  · unfold isInjection at h
    unfold isCompactionSummaryMessage isCompactionSummary
    split at h
    · next ho => rw [ho]
    · cases h

theorem anchorsBack_dropWhile (prompt : ContextMessage) (before : List ContextMessage) :
    anchorsBack (before.dropWhile fun m => isPromptOwnedInjection m prompt) = anchorsBack before := by
  induction before with
  | nil => rfl
  | cons m before ih =>
    rw [dropWhile_cons]
    split_ifs with hm
    · rw [ih, anchorsBack_skip (isMark_of_isInjection (isInjection_of_isPromptOwnedInjection hm))]
    · rfl

theorem undoScan_removed (remaining : Nat) (cut : UndoCut) (reversed : List ContextMessage) :
    (undoScan remaining cut reversed).removedCount = cut.removedCount + min remaining (anchorsBack reversed) := by
  induction reversed generalizing remaining cut with
  | nil => exact (Nat.min_zero remaining).symm ▸ rfl
  | cons m before ih =>
    rw [undoScan]
    split_ifs with hr hi hs ha
    · rw [hr, Nat.zero_min, Nat.add_zero]
    · rw [ih, anchorsBack_skip (isMark_of_isInjection hi)]
    · rw [anchorsBack_summary hs, Nat.min_zero, Nat.add_zero]
    · rw [ih, anchorsBack_anchor ha (Bool.eq_false_iff.mpr hs)]
      dsimp only
      omega
    · rw [ih, anchorsBack_neutral (Bool.eq_false_iff.mpr ha) (Bool.eq_false_iff.mpr hs)]

theorem undoScan_cut (remaining : Nat) (cut : UndoCut) (reversed : List ContextMessage)
    (hpos : 0 < remaining) (hle : remaining ≤ anchorsBack reversed) :
    ∃ before, before <:+ reversed ∧ (undoScan remaining cut reversed).cutIndex = some before.length ∧
      anchorsBack before = anchorsBack reversed - remaining := by
  induction reversed generalizing remaining cut with
  | nil => exact absurd hle (not_le_of_gt hpos)
  | cons m before ih =>
    rw [undoScan]
    split_ifs with hr hi hs ha
    · exact absurd hr (ne_of_gt hpos)
    · rw [anchorsBack_skip (isMark_of_isInjection hi)] at hle ⊢
      obtain ⟨rest, hsuffix, hcut⟩ := ih remaining cut hpos hle
      exact ⟨rest, hsuffix.trans (suffix_cons m before), hcut⟩
    · rw [anchorsBack_summary hs] at hle
      exact absurd hle (not_le_of_gt hpos)
    · rw [anchorsBack_anchor ha (Bool.eq_false_iff.mpr hs)] at hle ⊢
      by_cases hone : remaining = 1
      · subst hone
        refine ⟨before.dropWhile fun x => isPromptOwnedInjection x m,
          (dropWhile_suffix _).trans (suffix_cons m before), ?_, ?_⟩
        · rw [undoScan_zero]
        · rw [anchorsBack_dropWhile]
          rfl
      · obtain ⟨rest, hsuffix, hcut, hrest⟩ := ih (remaining - 1) _ (by omega) (by omega)
        refine ⟨rest, hsuffix.trans (suffix_cons m before), hcut, ?_⟩
        omega
    · rw [anchorsBack_neutral (Bool.eq_false_iff.mpr ha) (Bool.eq_false_iff.mpr hs)] at hle ⊢
      obtain ⟨rest, hsuffix, hcut⟩ := ih remaining cut hpos hle
      exact ⟨rest, hsuffix.trans (suffix_cons m before), hcut⟩

theorem isFullyUndoable_iff (messages : List ContextMessage) (hpos : 0 < count) :
    isFullyUndoable (computeUndoCut messages count) count = true ↔ count ≤ undoAnchors messages := by
  rw [isFullyUndoable, Bool.and_eq_true, decide_eq_true_iff, computeUndoCut, undoScan_removed,
    undoAnchors_eq, zero_add]
  constructor
  · rintro ⟨_, hcount⟩
    omega
  · intro hle
    obtain ⟨before, _, hcut, _⟩ := undoScan_cut count ⟨none, 0, false⟩ messages.reverse hpos hle
    rw [hcut]
    exact ⟨rfl, by omega⟩

theorem undoAnchors_cut (messages : List ContextMessage) (hpos : 0 < count) (hle : count ≤ undoAnchors messages) :
    undoAnchors (messages.take ((computeUndoCut messages count).cutIndex.getD 0)) =
      undoAnchors messages - count := by
  obtain ⟨before, ⟨after, hafter⟩, hcut, hbefore⟩ := undoScan_cut count ⟨none, 0, false⟩ messages.reverse hpos hle
  have hmessages : messages = before.reverse ++ after.reverse := by
    rw [← reverse_append, hafter, reverse_reverse]
  rw [computeUndoCut, hcut, Option.getD_some]
  have htake : messages.take before.length = before.reverse := by
    rw [hmessages, ← length_reverse, take_left]
  rw [htake, undoAnchors_eq, reverse_reverse]
  exact hbefore

theorem isMark_of_unrecorded (m : ContextMessage) (horigin : m.origin = none) (hrole : m.role ≠ .user) :
    isMark m = false := by
  simp [isMark, isUndoAnchor, isCompactionSummaryMessage, isCompactionSummary, horigin, hrole]

theorem Ordinary.of_user (h : Ordinary m) (hrole : m.role = .user) : isOpen m = false := by
  cases ho : isOpen m with
  | false => rfl
  | true => exact absurd ((h ho).1.symm.trans hrole) (by decide)

theorem handoff_sound {s : Folded} (h : ∀ m ∈ s.messages, Ordinary m) (input : ContextCompactionShapeInput) :
    undoAnchors (handoffShape s.messages input).messages = 0 ∧
      ∀ m ∈ (handoffShape s.messages input).messages, Ordinary m := by
  constructor
  · exact undoAnchors_summary rfl _
  · have hclosed : ∀ m ∈ collectCompactableUserMessages s.messages, isOpen m = false := by
      intro m hm
      obtain ⟨hmem, hreal⟩ := mem_filter.mp hm
      have huser : m.role = .user :=
        of_decide_eq_true (Bool.and_eq_true_iff.mp (Bool.and_eq_true_iff.mp hreal).1).1
      exact (h m hmem).of_user huser
    have hcut : ∀ m text, isOpen m = false → isOpen (replaceMessageText m text) = false :=
      fun _ _ hm => hm
    obtain ⟨hhead, htail⟩ := forall_selectCompactionUserMessages hcut hclosed
    have hnone : ∀ m ∈ (handoffShape s.messages input).messages, isOpen m = false := by
      intro m hm
      rcases mem_snoc.mp hm with hm | rfl
      · rcases mem_append.mp hm with hm | hm
        · rcases mem_append.mp hm with hm | hm
          · exact hhead m hm
          · split_ifs at hm
            · obtain rfl := mem_singleton.mp hm
              rfl
            · cases hm
        · exact htail m hm
      · rfl
    exact fun m hm ho => absurd ho (Bool.eq_false_iff.mp (hnone m hm))

theorem legacyTail_sound (h : ∀ m ∈ s.messages, Ordinary m) (input : ContextCompactionShapeInput)
    (hlegacy : input.legacyTail = some true) (hkeeps : KeepsNoAnchor s input) :
    undoAnchors (legacyTailShape s.messages input).messages = 0 ∧
      ∀ m ∈ (legacyTailShape s.messages input).messages, Ordinary m := by
  obtain ⟨hsummary, htail⟩ := hkeeps hlegacy
  have hfirst : isUndoAnchor
        (input.legacySummaryMessage.getD (createCompactionSummaryMessage input.context)) = false ∧
      Ordinary (input.legacySummaryMessage.getD (createCompactionSummaryMessage input.context)) := by
    cases hm : input.legacySummaryMessage with
    | none => exact ⟨rfl, fun ho => by cases ho⟩
    | some m => exact hsummary m hm
  constructor
  · apply undoAnchors_of_none
    intro m hm
    rcases mem_cons.mp hm with rfl | hm
    · exact hfirst.1
    · exact htail m hm
  · intro m hm
    rcases mem_cons.mp hm with rfl | hm
    · exact hfirst.2
    · exact h m ((drop_sublist _ _).subset hm)

/-- What holds of a conversation throughout. -/
structure InTime {T : Type} (s : Conversation T) : Prop where
  anchors : undoAnchors s.context.recorded = s.model.checkpoints.length
  ordinary : ∀ m ∈ s.context.recorded, Ordinary m
  behind : DeferredBehind s.context

namespace InTime

variable {T : Type} {onAppendMessage : Option (T → ContextMessage → T)} {s : Conversation T}

theorem reset (messages : List ContextMessage) (model : Checkpointed T)
    (hanchors : undoAnchors messages = model.checkpoints.length) (h : ∀ m ∈ messages, Ordinary m) :
    InTime { context := resetFold messages, model := model } := by
  have hrecorded : (resetFold messages).recorded = messages := append_nil messages
  constructor
  · rw [hrecorded]
    exact hanchors
  · rw [hrecorded]
    exact h
  · exact fun _ => rfl

theorem ordinary_messages (h : InTime s) : ∀ m ∈ s.context.messages, Ordinary m := fun m hm =>
  h.ordinary m (mem_append_left _ hm)

theorem recorded_eq (hdeferred : s.context.ctx.deferred = []) : s.context.recorded = s.context.messages := by
  rw [Folded.recorded, hdeferred, append_nil]

theorem appendMessage (h : InTime s) (hm : Ordinary m) (hs : isCompactionSummaryMessage m = false) :
    InTime { context := foldAppendMessage s.context m
             model := s.model.reduce onAppendMessage (.appendMessage m) } := by
  have hrecorded : (foldAppendMessage s.context m).recorded = s.context.recorded ++ [m] := by
    rw [foldAppendMessage]
    split_ifs with hpending
    · exact (append_assoc _ _ _).symm
    · have hkeys := (JsMap.size_eq_zero_iff _).mp (Nat.eq_zero_of_not_pos hpending)
      show s.context.messages ++ [m] ++ s.context.ctx.deferred = _
      rw [recorded_eq (h.behind hkeys), h.behind hkeys, append_nil]
  have hcheckpoints : (s.model.reduce onAppendMessage (.appendMessage m)).checkpoints.length =
      s.model.checkpoints.length + if isUndoAnchor m then 1 else 0 := by
    rw [Checkpointed.reduce.eq_def]
    dsimp only
    split_ifs
    · rw [length_append, length_singleton]
    · cases onAppendMessage <;> rfl
  constructor
  · rw [hrecorded, undoAnchors_concat hs, h.anchors, hcheckpoints]
  · rw [hrecorded]
    intro x hx
    rcases mem_snoc.mp hx with hx | rfl
    · exact h.ordinary x hx
    · exact hm
  · exact h.behind.applyRecord (.appendMessage m) rfl

theorem appendLoopEvent (h : InTime s) (event : LoopRecordedEvent) :
    InTime { context := foldLoopEvent s.context event, model := s.model } := by
  have hmarks := foldLoopEvent_filter h.behind h.ordinary isMark_of_unrecorded event
  exact ⟨(undoAnchors_congr hmarks).trans h.anchors, foldLoopEvent_ordinary h.behind h.ordinary event,
    h.behind.foldLoopEvent event⟩

theorem clear (h : InTime s) (hclear : s.context.messages = [] → s.context.ctx.deferred = []) :
    InTime { context := contextClear s.context, model := { s.model with checkpoints := [] } } := by
  rw [contextClear]
  split_ifs with hempty
  · have hnil := length_eq_zero_iff.mp hempty
    refine ⟨?_, h.ordinary, h.behind⟩
    rw [recorded_eq (hclear hnil), hnil]
    rfl
  · exact reset [] _ rfl fun m hm => absurd hm not_mem_nil

theorem applyCompaction {payload : CompactionPayload} (h : InTime s)
    (hreplacement : payload.replacementMessages = none)
    (hkeeps : ∀ input ∈ readContextCompactionShapeInput payload, KeepsNoAnchor s.context input)
    (happly : contextApplyCompaction s.context payload = some context) :
    InTime { context := context, model := { s.model with checkpoints := [] } } := by
  obtain ⟨input, hinput, rfl⟩ := Option.map_eq_some_iff.mp happly
  have hnone : input.replacementMessages = none := by
    obtain ⟨_, _, hinput⟩ := Option.bind_eq_some_iff.mp hinput
    obtain ⟨_, _, hinput⟩ := Option.bind_eq_some_iff.mp hinput
    cases hinput
    exact hreplacement
  rw [buildContextCompactionShape, hnone]
  split_ifs with hlegacy
  · obtain ⟨hanchors, hordinary⟩ := legacyTail_sound h.ordinary_messages input hlegacy (hkeeps input hinput)
    exact reset _ _ hanchors hordinary
  · obtain ⟨hanchors, hordinary⟩ := handoff_sound h.ordinary_messages input
    exact reset _ _ hanchors hordinary

section

variable (h : InTime s) (hdeferred : s.context.ctx.deferred = [])
include h hdeferred

/-- An undo is done by the history and by the model, or by neither. -/
theorem undoable_iff (hvalid : isValidUndoCount count = true) :
    isFullyUndoable (computeUndoCut s.context.messages count) count = true ↔
      count ≤ s.model.checkpoints.length := by
  have hpos : 0 < count := (of_decide_eq_true hvalid).2
  rw [isFullyUndoable_iff s.context.messages hpos, ← h.anchors, recorded_eq hdeferred]

theorem undo (count : Nat) : InTime { context := contextUndo s.context count, model := s.model.undo count } := by
  cases hvalid : isValidUndoCount count with
  | false =>
    rw [contextUndo, Checkpointed.undo, if_pos (.inl hvalid), if_pos (.inl hvalid)]
    exact h
  | true =>
    have hiff := h.undoable_iff hdeferred hvalid
    have hpos : 0 < count := (of_decide_eq_true hvalid).2
    have hnot : ¬ isValidUndoCount count = false := by
      rw [hvalid]
      exact Bool.false_ne_true.symm
    by_cases hle : count ≤ s.model.checkpoints.length
    · have hanchors := h.anchors
      rw [recorded_eq hdeferred] at hanchors
      have hne : ¬ s.context.messages.length = 0 := by
        intro hzero
        rw [length_eq_zero_iff.mp hzero] at hanchors
        rw [← hanchors] at hle
        exact not_le_of_gt hpos hle
      rw [contextUndo, Checkpointed.undo, if_neg (not_or.mpr ⟨hnot, hne⟩), if_pos (hiff.mpr hle),
        if_neg (not_or.mpr ⟨hnot, Nat.not_lt_of_le hle⟩)]
      apply reset
      · rw [undoAnchors_cut _ hpos (hanchors ▸ hle), length_take]
        omega
      · exact fun m hm => h.ordinary_messages m (mem_of_mem_take hm)
    · have hfalse := mt hiff.mp hle
      rw [Checkpointed.undo, if_pos (.inr (Nat.lt_of_not_le hle)), contextUndo]
      rw [if_neg hfalse, ite_self]
      exact h

theorem swarmModeExit : InTime { context := popSwarmModeReminder s.context, model := s.model } := by
  rw [popSwarmModeReminder]
  split
  · exact h
  · next last hlast =>
    split_ifs with hreminder
    · have hinjection : isInjection last = true := by
        unfold isSwarmModeReminder at hreminder
        unfold isInjection
        cases ho : last.origin with
        | none =>
          rw [ho] at hreminder
          cases hreminder
        | some origin =>
          rw [ho] at hreminder
          cases origin <;> first | rfl | cases hreminder
      have hsplit : s.context.messages = s.context.messages.dropLast ++ [last] := by
        rw [dropLast_append_getLast? last hlast]
      apply reset
      · have hanchors := h.anchors
        rw [recorded_eq hdeferred, hsplit, undoAnchors_eq, reverse_append] at hanchors
        rw [← hanchors]
        exact (anchorsBack_skip (isMark_of_isInjection hinjection) _).symm
      · exact fun m hm => h.ordinary_messages m (dropLast_subset _ hm)
    · exact h

end

theorem apply (h : InTime s) (op : ContextRecord) (hclocked : Clocked s op)
    (happly : s.apply onAppendMessage op = some s') : InTime s' := by
  obtain ⟨context, hcontext, rfl⟩ := Option.map_eq_some_iff.mp happly
  cases op with
  | appendMessage m =>
    cases hcontext
    exact h.appendMessage hclocked.1 hclocked.2
  | appendLoopEvent event =>
    cases hcontext
    exact h.appendLoopEvent event
  | clear =>
    cases hcontext
    exact h.clear hclocked
  | applyCompaction payload => exact h.applyCompaction hclocked.1 hclocked.2 hcontext
  | undo count =>
    cases hcontext
    exact h.undo hclocked count
  | swarmModeExit =>
    cases hcontext
    exact h.swarmModeExit hclocked

end InTime

/-- The anchors of the history, those that wait to be appended included, are as many as the
checkpoints, and where none waits an undo is done by both or by neither. -/
theorem Conversation.run_inTime {T : Type} (onAppendMessage : Option (T → ContextMessage → T))
    (initial : T) (ops : List ContextRecord) (s : Conversation T)
    (hrun : run onAppendMessage initial ops = some s)
    (hclocked : AlongRun (apply onAppendMessage) Clocked { model := { current := initial } } ops) :
    undoAnchors (s.context.messages ++ s.context.ctx.deferred) = s.model.checkpoints.length ∧
      (s.context.ctx.deferred = [] → undoAnchors s.context.messages = s.model.checkpoints.length ∧
          ∀ count, isValidUndoCount count = true →
            (isFullyUndoable (computeUndoCut s.context.messages count) count = true ↔
              count ≤ s.model.checkpoints.length)) := by
  have hinit : InTime ({ model := { current := initial } } : Conversation T) :=
    ⟨rfl, fun m hm => absurd hm not_mem_nil, fun _ => rfl⟩
  have hstep : ∀ (s : Conversation T) op s', InTime s → Clocked s op →
      s.apply onAppendMessage op = some s' → InTime s' := fun s op s' h => h.apply op
  have h := hclocked.invariant hstep hinit hrun
  refine ⟨h.anchors, fun hdeferred => ⟨?_, fun count hvalid => h.undoable_iff hdeferred hvalid⟩⟩
  rw [← h.anchors, InTime.recorded_eq hdeferred]

instance (s : Folded) (input : ContextCompactionShapeInput) : Decidable (KeepsNoAnchor s input) :=
  inferInstanceAs (Decidable (_ → _))

instance {T : Type} (s : Conversation T) (op : ContextRecord) : Decidable (Clocked s op) := by
  cases op <;> unfold Clocked <;> infer_instance

def prompt (text : String) : ContextMessage := { role := .user, content := [.text text] }

/-- A prompt, another one behind a call, a compaction, two more prompts and an undo of the last. -/
def undoneSession : List ContextRecord :=
  [.appendMessage (prompt "a"), .appendLoopEvent (.stepBegin "s1"),
    .appendLoopEvent (.toolCall "s1" "c" "Bash" none none), .appendMessage (prompt "b"),
    .appendLoopEvent (.toolResult "c" { output := .inl "ok" }), .appendLoopEvent (.stepEnd "s1"),
    .applyCompaction { summary := some (.inl "s"), compactedCount := some 4, keptUserMessageCount := some 2 },
    .appendMessage (prompt "c"), .appendMessage (prompt "d"), .undo 1]

theorem Conversation.run_inTime_undoneSession :
    ∃ s, run none () undoneSession = some s ∧ s.context.ctx.deferred = [] ∧
      s.model.checkpoints.length = 1 ∧ undoAnchors s.context.messages = s.model.checkpoints.length := by
  have hdone := (run none () undoneSession).isSome_iff_exists.mp (by decide +kernel)
  obtain ⟨s, hs⟩ := hdone
  have h := run_inTime none () undoneSession s hs (by decide +kernel)
  have hend : (run none () undoneSession).all fun s =>
      s.context.ctx.deferred = [] ∧ s.model.checkpoints.length = 1 := by decide +kernel
  rw [hs] at hend
  obtain ⟨hdeferred, hlength⟩ := of_decide_eq_true hend
  exact ⟨s, hs, hdeferred, hlength, (h.2 hdeferred).1⟩

/-- With nothing deferred, the history and the model count differently. -/
def OutOfTime (ops : List ContextRecord) : Prop :=
  ∃ s, Conversation.run none () ops = some s ∧ s.context.ctx.deferred = [] ∧
    undoAnchors s.context.messages ≠ s.model.checkpoints.length

/-- A compaction from an old journal keeps the prompts after its summary, but no checkpoint. -/
def oldCompaction : List ContextRecord :=
  [.appendMessage (prompt "a"), .appendMessage (prompt "b"),
    .applyCompaction { summary := some (.inl "s"), compactedCount := some 1 }]

def appendedSummary : List ContextRecord :=
  [.appendMessage (prompt "a"), .appendMessage (createCompactionSummaryMessage "s")]

def partialPrompt : List ContextRecord :=
  [.appendMessage { prompt "" with isPartial := some true }, .appendLoopEvent (.stepEnd "s1")]

def clearedBehindCall : List ContextRecord :=
  [.appendLoopEvent (.toolCall "s1" "c" "Bash" none none), .appendMessage (prompt "a"), .clear,
    .appendLoopEvent (.toolResult "c" { output := .inl "ok" })]

def waitingPrompt : List ContextRecord :=
  [.appendLoopEvent (.stepBegin "s1"), .appendLoopEvent (.toolCall "s1" "c" "Bash" none none),
    .appendMessage (prompt "a")]

/-- Counts differ after an old compaction, whose kept prompt the history could undo and the model
could not, and in four other ways. -/
theorem oldCompaction_outOfTime :
    (∃ s, Conversation.run none () oldCompaction = some s ∧ s.context.ctx.deferred = [] ∧
        undoAnchors s.context.messages = 1 ∧ s.model.checkpoints.length = 0 ∧
        isFullyUndoable (computeUndoCut s.context.messages 1) 1 = true) ∧
      OutOfTime appendedSummary ∧ OutOfTime partialPrompt ∧ OutOfTime clearedBehindCall ∧
      ∃ s, Conversation.run none () waitingPrompt = some s ∧
        undoAnchors s.context.messages = 0 ∧ s.model.checkpoints.length = 1 := by
  refine ⟨⟨_, rfl, ?_⟩, ⟨_, rfl, ?_⟩, ⟨_, rfl, ?_⟩, ⟨_, rfl, ?_⟩, ⟨_, rfl, ?_⟩⟩ <;> decide +kernel

end Echadron.Agent
