import Echadron.Agent.ContextOps
import Echadron.Agent.LoopOrder

namespace Echadron.Agent
open Lib List

/-! Messages that the fold of the loop events leaves alone. -/

/-- The history with what waits to be appended to it. -/
def Folded.recorded (s : Folded) : List ContextMessage := s.messages ++ s.ctx.deferred

def Ordinary (m : ContextMessage) : Prop := isOpen m = true → m.role = .assistant ∧ m.origin = none

instance (m : ContextMessage) : Decidable (Ordinary m) := inferInstanceAs (Decidable (_ → _))

theorem recorded_flushDeferred (s : Folded) : s.flushDeferred.recorded = s.recorded := by
  unfold Folded.flushDeferred
  split_ifs
  · rfl
  · exact append_nil _

/-- A kind of messages that has all those that the fold makes and that it writes to. -/
structure FoldsWithin (T : ContextMessage → Prop) : Prop where
  opened : T partialAssistant
  interrupted : ∀ toolCallId, T (interruptedToolMessage toolCallId)
  result : ∀ toolCallId result, T (toolResultMessage toolCallId result)
  content : ∀ part m, T m → T (pushContent part m)
  call : ∀ call m, T m → T (pushCall call m)
  settled : ∀ m, T m → T { m with isPartial := none }

variable {T : ContextMessage → Prop} {p : ContextMessage → Bool} {ms : List ContextMessage} {s : Folded}

/-- The second history has the messages of the first that the fold does not own, and those that are open are its own. -/
structure SameOthers (T : ContextMessage → Prop) (p : ContextMessage → Bool) (ms ms' : List ContextMessage) : Prop where
  others : ms'.filter p = ms.filter p
  own : ∀ m ∈ ms', isOpen m = true → T m

theorem SameOthers.trans (h : SameOthers T p a b) (h' : SameOthers T p b c) : SameOthers T p a c :=
  ⟨h'.others.trans h.others, h'.own⟩

theorem filter_own (hp : ∀ m, T m → p m = false) (h : ∀ m ∈ ms, T m) : ms.filter p = [] := by
  apply filter_eq_nil_iff.mpr
  intro m hm
  rw [hp m (h m hm)]
  exact Bool.false_ne_true

theorem SameOthers.replace (hp : ∀ m, T m → p m = false) {pre old new post : List ContextMessage}
    (h : ∀ m ∈ pre ++ (old ++ post), isOpen m = true → T m) (hold : ∀ m ∈ old, T m) (hnew : ∀ m ∈ new, T m) :
    SameOthers T p (pre ++ (old ++ post)) (pre ++ (new ++ post)) where
  others := by
    rw [filter_append, filter_append, filter_append, filter_append, filter_own hp hold, filter_own hp hnew]
  own := by
    intro m hm hopen
    rcases mem_append.mp hm with hpre | hrest
    · exact h m (mem_append_left _ hpre) hopen
    · rcases mem_append.mp hrest with hmid | hpost
      · exact hnew m hmid
      · exact h m (mem_append_right _ (mem_append_right _ hpost)) hopen

theorem SameOthers.insert (hp : ∀ m, T m → p m = false) {pre new post : List ContextMessage}
    (h : ∀ m ∈ pre ++ post, isOpen m = true → T m) (hnew : ∀ m ∈ new, T m) :
    SameOthers T p (pre ++ post) (pre ++ (new ++ post)) :=
  @SameOthers.replace T p hp pre [] new post h (by simp) hnew

theorem sealOpen_others (hT : FoldsWithin T) (hp : ∀ m, T m → p m = false)
    (h : ∀ m ∈ ms, isOpen m = true → T m) : SameOthers T p ms (Folded.sealOpen ms) := by
  rcases exists_last_open ms with hnone | ⟨pre, a, post, rfl, ha, hpost⟩
  · rw [sealOpen_none hnone]
    exact ⟨rfl, h⟩
  · have hown : T a := h a (mem_append_right _ mem_cons_self) ha
    rw [sealOpen_eq ha hpost]
    apply @SameOthers.replace T p hp pre [a] (sealed a) post h
    · intro m hm
      rw [mem_singleton.mp hm]
      exact hown
    · intro m hm
      rw [sealed] at hm
      split_ifs at hm
      · cases hm
      · rw [mem_singleton.mp hm]
        exact hT.settled a hown

theorem appendToOpen_others (hp : ∀ m, T m → p m = false) (h : ∀ m ∈ ms ++ rest, isOpen m = true → T m)
    (hupdate : ∀ m, T m → T (update m)) :
    SameOthers T p (ms ++ rest) (appendToOpenAssistant ms update ++ rest) := by
  rcases exists_last_open ms with hnone | ⟨pre, a, post, rfl, ha, hpost⟩
  · rw [appendToOpen_none hnone]
    exact ⟨rfl, h⟩
  · have hown : T a := h a (mem_append_left _ (mem_append_right _ mem_cons_self)) ha
    rw [appendToOpen_eq ha hpost]
    rw [append_assoc] at h ⊢
    rw [append_assoc]
    apply @SameOthers.replace T p hp pre [a] [update a] (post ++ rest) h
    · intro m hm
      rw [mem_singleton.mp hm]
      exact hown
    · intro m hm
      rw [mem_singleton.mp hm]
      exact hupdate a hown

section

variable (hT : FoldsWithin T) (hp : ∀ m, T m → p m = false) (hbehind : DeferredBehind s)
  (h : ∀ m ∈ s.recorded, isOpen m = true → T m)
include hT hp hbehind h

theorem settleOpenStep_others : SameOthers T p s.recorded s.settleOpenStep.recorded := by
  obtain ⟨hmessages, _, hdeferred⟩ := s.settleOpenStep_spec hbehind
  have hclosed : SameOthers T p s.recorded
      (s.messages ++ (s.ctx.pending.keys.map interruptedToolMessage ++ s.ctx.deferred)) := by
    apply SameOthers.insert hp h
    intro m hm
    obtain ⟨toolCallId, _, rfl⟩ := mem_map.mp hm
    exact hT.interrupted toolCallId
  have hrecorded : s.settleOpenStep.recorded = Folded.sealOpen
      (s.messages ++ (s.ctx.pending.keys.map interruptedToolMessage ++ s.ctx.deferred)) := by
    rw [Folded.recorded, hmessages, hdeferred, append_nil]
  rw [hrecorded]
  exact hclosed.trans (sealOpen_others hT hp hclosed.own)

theorem foldLoopEvent_others (event : LoopRecordedEvent) :
    SameOthers T p s.recorded (foldLoopEvent s event).recorded := by
  cases event with
  | stepBegin uuid =>
    have hsettled := settleOpenStep_others hT hp hbehind h
    have hdeferred := (s.settleOpenStep_spec hbehind).2.2
    have hrecorded : (foldLoopEvent s (.stepBegin uuid)).recorded = s.settleOpenStep.recorded ++ [partialAssistant] := by
      change s.settleOpenStep.messages ++ [partialAssistant] ++ s.settleOpenStep.ctx.deferred = _
      rw [Folded.recorded, hdeferred, append_nil, append_nil]
    have hopened : ∀ m ∈ [partialAssistant], T m := by
      intro m hm
      rw [mem_singleton.mp hm]
      exact hT.opened
    have hinserted := @SameOthers.insert T p hp s.settleOpenStep.recorded [partialAssistant] []
      (by rw [append_nil]; exact hsettled.own) hopened
    rw [append_nil] at hinserted
    rw [hrecorded]
    exact hsettled.trans hinserted
  | stepEnd uuid =>
    rw [foldLoopEvent_stepEnd hbehind]
    exact settleOpenStep_others hT hp hbehind h
  | contentPart uuid part => exact appendToOpen_others hp h (hT.content part)
  | toolCall uuid toolCallId name args extras =>
    exact appendToOpen_others hp h (hT.call (recordedToolCall toolCallId name args extras))
  | toolResult toolCallId result =>
    rw [foldLoopEvent]
    split_ifs
    · rw [recorded_flushDeferred]
      change SameOthers T p (s.messages ++ s.ctx.deferred)
        (s.messages ++ [toolResultMessage toolCallId result] ++ s.ctx.deferred)
      rw [append_assoc]
      apply SameOthers.insert hp h
      intro m hm
      rw [mem_singleton.mp hm]
      exact hT.result toolCallId result
    · exact ⟨rfl, h⟩

end

theorem foldsWithin_unrecorded : FoldsWithin fun m => Ordinary m ∧ m.role ≠ .user ∧ m.origin = none where
  opened := by decide
  interrupted _ := ⟨fun ho => (by cases ho), Role.noConfusion, rfl⟩
  result _ _ := ⟨fun ho => (by cases ho), Role.noConfusion, rfl⟩
  content _ _ h := h
  call _ _ h := h
  settled _ h := ⟨fun ho => (by cases ho), h.2⟩

section

variable (hbehind : DeferredBehind s) (h : ∀ m ∈ s.recorded, Ordinary m)
include hbehind h

theorem foldLoopEvent_unrecorded (hp : ∀ m : ContextMessage, m.origin = none → m.role ≠ .user → p m = false)
    (event : LoopRecordedEvent) : SameOthers (fun m => Ordinary m ∧ m.role ≠ .user ∧ m.origin = none) p
      s.recorded (foldLoopEvent s event).recorded := by
  apply foldLoopEvent_others foldsWithin_unrecorded (fun m hm => hp m hm.2.2 hm.2.1) hbehind
  intro m hm hopen
  obtain ⟨hrole, horigin⟩ := h m hm hopen
  refine ⟨h m hm, ?_, horigin⟩
  rw [hrole]
  decide

theorem foldLoopEvent_filter (hp : ∀ m : ContextMessage, m.origin = none → m.role ≠ .user → p m = false)
    (event : LoopRecordedEvent) : (foldLoopEvent s event).recorded.filter p = s.recorded.filter p :=
  (foldLoopEvent_unrecorded hbehind h hp event).others

theorem foldLoopEvent_ordinary (event : LoopRecordedEvent) : ∀ m ∈ (foldLoopEvent s event).recorded, Ordinary m :=
  fun m hm hopen => ((@foldLoopEvent_unrecorded (fun _ => false) s hbehind h (fun _ _ _ => rfl) event).own m hm hopen).1 hopen

end

theorem recorded_append (hbehind : DeferredBehind context) (m : ContextMessage) :
    (foldAppendMessage context m).recorded = context.recorded ++ [m] := by
  rw [foldAppendMessage]
  split_ifs with hpending
  · exact (append_assoc _ _ _).symm
  · have hnone : context.ctx.deferred = [] := by
      apply hbehind
      exact (JsMap.size_eq_zero_iff _).mp (Nat.eq_zero_of_not_pos hpending)
    unfold Folded.recorded
    rw [hnone, append_nil, append_nil]

theorem foldLoopEvent_deferred (hbehind : DeferredBehind s) (event : LoopRecordedEvent) :
    ∀ m ∈ (foldLoopEvent s event).ctx.deferred, m ∈ s.ctx.deferred := by
  intro m hm
  cases event with
  | stepBegin uuid =>
    have hnone : (foldLoopEvent s (.stepBegin uuid)).ctx.deferred = [] := (s.settleOpenStep_spec hbehind).2.2
    rw [hnone] at hm
    cases hm
  | stepEnd uuid =>
    have hnone : (s.settleOpenStep.setOpenStep none).ctx.deferred = [] := (s.settleOpenStep_spec hbehind).2.2
    rw [foldLoopEvent_stepEnd hbehind, hnone] at hm
    cases hm
  | contentPart uuid part => exact hm
  | toolCall uuid toolCallId name args extras => exact hm
  | toolResult toolCallId result =>
    rw [foldLoopEvent] at hm
    split_ifs at hm
    · unfold Folded.flushDeferred at hm
      split_ifs at hm
      · exact hm
      · cases hm
    · exact hm

end Echadron.Agent
