import Echadron.Agent.ContextMemoryService

namespace Echadron.Agent
open Lib List Option

theorem lookup_field (key key' : String) (wrap : α → WireValue) (value : Option α) (rest : WireFields) :
    (field key' wrap value ++ rest).lookup key =
      if key = key' then (value.map wrap).or (rest.lookup key) else rest.lookup key := by
  cases value with
  | none => simp [field]
  | some v =>
    by_cases h : key = key'
    · subst h; simp [field]
    · have hb : (key == key') = false := beq_false_of_ne h
      simp [field, lookup_cons, hb, h]

theorem lookup_field_last (key key' : String) (wrap : α → WireValue) (value : Option α) :
    (field key' wrap value).lookup key = if key = key' then value.map wrap else none := by
  have h := lookup_field key key' wrap value []
  rw [append_nil] at h
  rw [h, lookup_nil, or_none]

theorem optionalField_eq (wrap : α → WireValue)
    (h : fields.lookup key = value.map wrap) (hw : ∀ v, unwrap (wrap v) = some v) :
    optionalField unwrap fields key = some value := by
  rw [optionalField, h]
  cases value with
  | none => rfl
  | some v => simp [hw]

theorem requiredField_eq (wrap : α → WireValue) (h : fields.lookup key = some (wrap v))
    (hw : ∀ v, unwrap (wrap v) = some v) : requiredField unwrap fields key = some v := by
  rw [requiredField, h]
  exact hw v

theorem parseCompactionBase_fields (p : CompactionPayload) : parseCompactionBase (compactionFields p) =
      some { p with summary := none, contextSummary := none, compactedCount := none, count := none } := by
  have hb : optionalField WireValue.num? (compactionFields p) "tokensBefore" = some p.tokensBefore :=
    optionalField_eq .num (by simp [compactionFields, lookup_field, lookup_field_last]) fun _ => rfl
  have ha : optionalField WireValue.num? (compactionFields p) "tokensAfter" = some p.tokensAfter :=
    optionalField_eq .num (by simp [compactionFields, lookup_field, lookup_field_last]) fun _ => rfl
  have hk : optionalField WireValue.num? (compactionFields p) "keptUserMessageCount" =
      some p.keptUserMessageCount :=
    optionalField_eq .num (by simp [compactionFields, lookup_field, lookup_field_last]) fun _ => rfl
  have hh : optionalField WireValue.num? (compactionFields p) "keptHeadUserMessageCount" =
      some p.keptHeadUserMessageCount :=
    optionalField_eq .num (by simp [compactionFields, lookup_field, lookup_field_last]) fun _ => rfl
  have hd : optionalField WireValue.num? (compactionFields p) "droppedCount" = some p.droppedCount :=
    optionalField_eq .num (by simp [compactionFields, lookup_field, lookup_field_last]) fun _ => rfl
  have hl : optionalField WireValue.bool? (compactionFields p) "legacyTail" = some p.legacyTail :=
    optionalField_eq .bool (by simp [compactionFields, lookup_field, lookup_field_last]) fun _ => rfl
  have hr : optionalField WireValue.messages? (compactionFields p) "replacementMessages" =
      some p.replacementMessages :=
    optionalField_eq .messages (by simp [compactionFields, lookup_field, lookup_field_last]) fun _ => rfl
  rw [parseCompactionBase, hb, ha, hk, hh, hd, hl, hr]
  rfl

theorem parseCompaction_fields (p : CompactionPayload) (hs : p.summary = some (.inl summary))
    (hc : p.compactedCount = some compactedCount) (hn : p.count = none) :
    parseCompaction (compactionFields p) = some p := by
  have hsummary : requiredField WireValue.str? (compactionFields p) "summary" = some summary :=
    requiredField_eq .str (by simp [compactionFields, lookup_field, hs, summaryValue]) fun _ => rfl
  have hcount : requiredField WireValue.num? (compactionFields p) "compactedCount" = some compactedCount :=
    requiredField_eq .num (by simp [compactionFields, lookup_field, hc]) fun _ => rfl
  have hcontext : optionalField WireValue.str? (compactionFields p) "contextSummary" = some p.contextSummary :=
    optionalField_eq .str (by simp [compactionFields, lookup_field, lookup_field_last]) fun _ => rfl
  have hshape : parseSummaryShape
      { p with summary := none, contextSummary := none, compactedCount := none, count := none }
      (compactionFields p) = some p := by
    rw [parseSummaryShape, hsummary, hcount, hcontext]
    obtain ⟨_, _, _, _, _, _, _, _, _, _, _⟩ := p
    subst hs hc hn
    rfl
  rw [parseCompaction, parseCompactionBase_fields]
  simp only [bind_eq_bind, bind_some, hshape]
  rfl

/-- Replaying the record of an operation does what the operation did when it was dispatched. -/
def ReplaysAs (op : ContextRecord) : Prop := ∀ s now, replayRecord s (opToWireRecord op now) = applyRecord s op

theorem replaysAs_appendMessage (m : ContextMessage) : ReplaysAs (.appendMessage m) :=
  fun _ _ => rfl

theorem replaysAs_appendLoopEvent (e : LoopRecordedEvent) : ReplaysAs (.appendLoopEvent e) :=
  fun _ _ => rfl

theorem replaysAs_clear : ReplaysAs .clear := fun _ _ => rfl

theorem replaysAs_undo (count : Nat) : ReplaysAs (.undo count) := by
  intro s now
  have hparse : parseRecord (opToWireRecord (.undo count) now) =
      if isValidUndoCount count then some (.undo count) else none := rfl
  rw [replayRecord, hparse]
  by_cases hv : isValidUndoCount count = true
  · rw [if_pos hv]
  · rw [if_neg hv, applyRecord, contextUndo, if_pos (.inl (by simpa using hv))]

theorem replaysAs_compaction (input : ContextCompactionInput) (result : ContextCompactionShape) :
    ReplaysAs (.applyCompaction (compactionPayload input result)) := by
  intro s now
  have hparse : parseRecord (opToWireRecord (.applyCompaction (compactionPayload input result)) now)
      = (parseCompaction (compactionFields (compactionPayload input result))).map
        .applyCompaction := rfl
  rw [replayRecord, hparse, parseCompaction_fields (compactionPayload input result) rfl rfl rfl]
  rfl

theorem contextApplyCompaction_payload (s : Folded) (input : ContextCompactionInput) :
    contextApplyCompaction s (compactionPayload input
      (buildContextCompactionShape s.messages input.toShapeInput)) =
    some (resetFold (buildContextCompactionShape s.messages input.toShapeInput).messages) := by
  cases hr : input.replacementMessages with
  | some messages =>
    simp only [contextApplyCompaction, readContextCompactionShapeInput, buildContextCompactionShape,
      compactionPayload, ContextCompactionInput.toShapeInput, hr]
    rfl
  | none =>
    simp only [contextApplyCompaction, readContextCompactionShapeInput, buildContextCompactionShape,
      compactionPayload, ContextCompactionInput.toShapeInput, hr]
    rfl

namespace AgentContextMemoryService

def Persisted (svc : AgentContextMemoryService) : Prop := replay svc.journal = some svc.model

theorem Persisted.dispatch {svc svc' : AgentContextMemoryService} (h : svc.Persisted)
    (hop : ReplaysAs op) (he : svc.dispatch now op = some svc') : svc'.Persisted := by
  obtain ⟨model, happly, rfl⟩ := map_eq_some_iff.mp he
  rw [Persisted, replay, foldlM_append, show foldlM _ _ _ = _ from h]
  simp [hop svc.model now, happly]

section

variable {svc : AgentContextMemoryService} (h : svc.Persisted)
include h

theorem Persisted.publishSplice (event : ContextSpliced) : (svc.publishSplice event).Persisted := h

theorem Persisted.dispatched (hop : ReplaysAs op) (happly : applyRecord svc.model op = some s) (now : Nat) :
    ∃ svc', svc.dispatch now op = some svc' ∧ svc'.Persisted ∧ svc'.model = s ∧
      svc'.published = svc.published := by
  have he : svc.dispatch now op =
      some { svc with model := s, journal := svc.journal ++ [opToWireRecord op now] } := by
    rw [AgentContextMemoryService.dispatch, happly]
    rfl
  exact ⟨_, he, h.dispatch hop he, rfl, rfl⟩

theorem Persisted.dispatchMessages (now : Nat) (messages : List ContextMessage) :
    ∃ svc', (messages.map ContextRecord.appendMessage).foldlM (AgentContextMemoryService.dispatch now)
      svc = some svc' ∧ svc'.Persisted := by
  induction messages generalizing svc with
  | nil => exact ⟨svc, rfl, h⟩
  | cons m messages ih =>
    obtain ⟨svc₁, he, h₁, _⟩ := h.dispatched (replaysAs_appendMessage m) rfl now
    obtain ⟨svc₂, he₂, h₂⟩ := ih h₁
    refine ⟨svc₂, ?_, h₂⟩
    rw [map_cons, foldlM_cons, he]
    exact he₂

theorem Persisted.compaction (now : Nat) (input : ContextCompactionInput) :
    ∃ svc' event, svc.applyCompaction now input = some svc' ∧ svc'.Persisted ∧
      svc'.published = svc.published ++ [event] ∧ event.messages = svc'.model.messages := by
  obtain ⟨svc₁, he, h₁, hm, hp⟩ := h.dispatched
    (replaysAs_compaction input (buildContextCompactionShape svc.model.messages input.toShapeInput))
    (contextApplyCompaction_payload svc.model input) now
  refine ⟨_, _, by rw [applyCompaction, he]; rfl, h₁.publishSplice _, by rw [← hp]; rfl, ?_⟩
  rw [AgentContextMemoryService.publishSplice, hm]
  rfl

theorem Persisted.call (now : Nat) (c : ServiceCall) : ∃ svc', svc.call now c = some svc' ∧ svc'.Persisted := by
  cases c with
  | append messages =>
    rw [AgentContextMemoryService.call, append]
    split
    · exact ⟨svc, rfl, h⟩
    · obtain ⟨svc₁, he, h₁⟩ := h.dispatchMessages now messages
      exact ⟨_, by rw [he]; rfl, h₁.publishSplice _⟩
  | appendLoopEvent event =>
    obtain ⟨svc₁, he, h₁, _⟩ := h.dispatched (replaysAs_appendLoopEvent event) rfl now
    exact ⟨svc₁, he, h₁⟩
  | clear =>
    rw [AgentContextMemoryService.call, clear]
    split
    · exact ⟨svc, rfl, h⟩
    · obtain ⟨svc₁, he, h₁, _⟩ := h.dispatched replaysAs_clear rfl now
      exact ⟨_, by rw [he]; rfl, h₁.publishSplice _⟩
  | undo count =>
    rw [AgentContextMemoryService.call, undo]
    split
    · obtain ⟨svc₁, he, h₁, _⟩ := h.dispatched (replaysAs_undo count) rfl now
      exact ⟨_, by rw [he]; rfl, h₁.publishSplice _⟩
    · exact ⟨svc, rfl, h⟩
  | applyCompaction input =>
    obtain ⟨svc', _, he, h', _⟩ := h.compaction now input
    exact ⟨svc', he, h'⟩

theorem Persisted.calls (calls : List (Nat × ServiceCall)) :
    ∃ svc', calls.foldlM (fun svc c => svc.call c.1 c.2) svc = some svc' ∧ svc'.Persisted := by
  induction calls generalizing svc with
  | nil => exact ⟨svc, rfl, h⟩
  | cons c calls ih =>
    obtain ⟨svc₁, he, h₁⟩ := h.call c.1 c.2
    obtain ⟨svc₂, he₂, h₂⟩ := ih h₁
    refine ⟨svc₂, ?_, h₂⟩
    rw [foldlM_cons, he]
    exact he₂

end

/-- After any calls, the journal replays to the live model, and a compaction publishes the very
messages that it leaves in the model. -/
theorem run_persisted (calls : List (Nat × ServiceCall)) :
    ∃ svc, run calls = some svc ∧ replay svc.journal = some svc.model ∧
      ∀ now input, ∃ svc' event, svc.call now (.applyCompaction input) = some svc' ∧
        svc'.published = svc.published ++ [event] ∧ event.messages = svc'.model.messages := by
  have hstart : Persisted {} := rfl
  obtain ⟨svc, he, h⟩ := hstart.calls calls
  refine ⟨svc, he, h, fun now input => ?_⟩
  obtain ⟨svc', event, he', _, hpub, hm⟩ := h.compaction now input
  exact ⟨svc', event, he', hpub, hm⟩

end AgentContextMemoryService

end Echadron.Agent
