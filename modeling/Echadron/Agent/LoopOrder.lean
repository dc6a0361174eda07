import Echadron.Agent.Exchange
import Echadron.Agent.LoopEventFold

namespace Echadron.Agent
open Lib List

inductive LoopRecord where
  | appendMessage (message : ContextMessage)
  | loopEvent (event : LoopRecordedEvent)

def foldRecord (s : Folded) : LoopRecord → Folded
  | .appendMessage message => foldAppendMessage s message
  | .loopEvent event => foldLoopEvent s event

def foldRecords (journal : List LoopRecord) : Folded := journal.foldl foldRecord .empty

structure LoopOrder where
  openStep : Option String := none
  calls : List String := []
  answered : List String := []
  used : List String := []

namespace LoopOrder

def event (o : LoopOrder) : LoopRecordedEvent → Option LoopOrder
  | .stepBegin uuid => some { openStep := some uuid, used := o.used }
  | .stepEnd uuid => if o.openStep = some uuid then some { used := o.used } else none
  | .contentPart stepUuid _ => if o.openStep = some stepUuid then some o else none
  | .toolCall stepUuid toolCallId _ _ _ =>
    if o.openStep = some stepUuid ∧ o.answered = [] ∧ toolCallId ∉ o.used then
      some { o with calls := o.calls ++ [toolCallId], used := o.used ++ [toolCallId] }
    else none
  | .toolResult toolCallId _ =>
    if toolCallId ∈ o.calls then some { o with answered := o.answered ++ [toolCallId] } else some o

def record (o : LoopOrder) : LoopRecord → Option LoopOrder
  | .appendMessage _ => some o
  | .loopEvent e => o.event e

end LoopOrder

def Obeys (journal : List LoopRecord) (o : LoopOrder) : Prop := journal.foldlM LoopOrder.record {} = some o

/-- What the callers append: prompts, reminders and notices. -/
structure Appendable (m : ContextMessage) : Prop where
  not_tool : m.role ≠ .tool
  no_calls : m.toolCalls = []
  not_open : isOpen m = false

def appended (journal : List LoopRecord) : List ContextMessage :=
  journal.filterMap fun
    | .appendMessage m => some m
    | .loopEvent _ => none

def loopRecords (journal : List LoopRecord) : List LoopRecord :=
  journal.filter fun
    | .appendMessage _ => false
    | .loopEvent _ => true

def recordedCalls (journal : List LoopRecord) : List String :=
  journal.filterMap fun
    | .loopEvent (.toolCall _ toolCallId _ _ _) => some toolCallId
    | _ => none

def contextCallIds (messages : List ContextMessage) : List String := messages.flatMap fun m => callIds m.toolCalls

def isResult (m : ContextMessage) : Bool := decide (m.role = .tool)

structure KeepsExchanges (journal : List LoopRecord) (s : Folded) : Prop where
  one_open : (s.messages.filter isOpen).length ≤ 1
  contiguous : ∀ pre a post, s.messages = pre ++ a :: post → a.role = .assistant →
    ((post.takeWhile isResult).map fun r => r.toolCallId).Perm
      (((callIds a.toolCalls).filter fun i => decide (i ∉ s.ctx.pending.keys)).map some)
  appended_once : s.ctx.pending.keys = [] →
    Interleaving (appended journal) (foldRecords (loopRecords journal)).messages s.messages
  answered_once : s.ctx.pending.keys = [] → ∀ i ∈ recordedCalls journal,
    (s.messages.filter fun m => decide (m.role = .tool ∧ m.toolCallId = some i)).length = 1

/-! The visible messages, related to the messages that the loop events alone would leave. -/

theorem exists_last_open (ms : List ContextMessage) :
    NoneOpen ms ∨ ∃ pre a post, ms = pre ++ a :: post ∧ isOpen a = true ∧ NoneOpen post := by
  induction ms with
  | nil => exact .inl (by simp [NoneOpen])
  | cons m ms ih =>
    rcases ih with h | ⟨pre, a, post, rfl, ha, hpost⟩
    · cases hm : isOpen m with
      | true => exact .inr ⟨[], m, ms, rfl, hm, h⟩
      | false => exact .inl fun x hx => (mem_cons.mp hx).elim (fun he => he ▸ hm) (h x)
    · exact .inr ⟨m :: pre, a, post, rfl, ha, hpost⟩

theorem NoneOpen.append (h : NoneOpen a) (h' : NoneOpen b) : NoneOpen (a ++ b) := fun m hm =>
  (mem_append.mp hm).elim (h m) (h' m)

theorem NoneOpen.interleave (hi : Interleaving a b c) (ha : NoneOpen a) (hb : NoneOpen b) :
    NoneOpen c := fun m hm => ((hi.mem_iff m).mp hm).elim (ha m) (hb m)

theorem interleaving_atOpen {f : ContextMessage → List ContextMessage}
    {g : List ContextMessage → List ContextMessage} (hi : Interleaving a b c) (ha : NoneOpen a)
    (hnone : ∀ ms, NoneOpen ms → g ms = ms)
    (hopen : ∀ pre m post, isOpen m = true → NoneOpen post → g (pre ++ m :: post) = pre ++ (f m ++ post)) :
    Interleaving a (g b) (g c) := by
  rcases exists_last_open b with hb | ⟨b₁, m, b₂, rfl, hm, hb₂⟩
  · rw [hnone b hb, hnone c (NoneOpen.interleave hi ha hb)]
    exact hi
  · obtain ⟨a₁, a₂, c₁, c₂, rfl, rfl, h₁, h₂⟩ := hi.split_right
    have ha₂ : NoneOpen a₂ := fun x hx => ha x (mem_append_right _ hx)
    rw [hopen _ _ _ hm hb₂, hopen _ _ _ hm (NoneOpen.interleave h₂ ha₂ hb₂)]
    have hf := (Interleaving.all_right (f m)).append h₂
    exact h₁.append hf

/-- `s` holds the messages of `own` with those of `as` between them, the last ones deferred. -/
structure Mixed (as : List ContextMessage) (own s : Folded) : Prop where
  pending_eq : own.ctx.pending.keys = s.ctx.pending.keys
  own_deferred : own.ctx.deferred = []
  none_open : NoneOpen as
  deferred_nil : s.ctx.pending.keys = [] → s.ctx.deferred = []
  interleaved : ∃ shown, as = shown ++ s.ctx.deferred ∧ Interleaving shown own.messages s.messages

theorem Mixed.start : Mixed [] .empty .empty := ⟨rfl, rfl, by simp [NoneOpen], fun _ => rfl, [], rfl, .nil⟩

section

variable (h : Mixed as own s)
include h

theorem Mixed.append (hm : isOpen m = false) : Mixed (as ++ [m]) own (foldAppendMessage s m) := by
  have hopen : NoneOpen (as ++ [m]) := h.none_open.append fun x hx => by
    rw [mem_singleton.mp hx]; exact hm
  obtain ⟨shown, has, hi⟩ := h.interleaved
  unfold foldAppendMessage
  by_cases hp : s.ctx.pending.size > 0
  · rw [if_pos hp]
    have hne : s.ctx.pending.keys ≠ [] := fun he =>
      absurd ((JsMap.size_eq_zero_iff _).mpr he) (Nat.pos_iff_ne_zero.mp hp)
    exact ⟨h.pending_eq, h.own_deferred, hopen, fun he => absurd he hne, shown, by rw [has]; simp, hi⟩
  · rw [if_neg hp]
    have hkeys := (JsMap.size_eq_zero_iff _).mp (Nat.eq_zero_of_not_pos hp)
    have hd := h.deferred_nil hkeys
    rw [hd, append_nil] at has
    subst has
    exact ⟨h.pending_eq, h.own_deferred, hopen, h.deferred_nil, _, by rw [hd, append_nil], hi.append_left [m]⟩

theorem Mixed.settle : Mixed as own.settleOpenStep s.settleOpenStep ∧ s.settleOpenStep.ctx.pending.keys = [] := by
  obtain ⟨shown, has, hi⟩ := h.interleaved
  obtain ⟨hm, hp, hd⟩ := s.settleOpenStep_spec h.deferred_nil
  obtain ⟨hm', hp', hd'⟩ := own.settleOpenStep_spec fun _ => h.own_deferred
  refine ⟨⟨by rw [hp, hp'], hd', h.none_open, fun _ => hd, as, by rw [hd, append_nil], ?_⟩, hp⟩
  rw [hm, hm', h.own_deferred, h.pending_eq, append_nil, has, ← append_assoc]
  refine interleaving_atOpen (f := sealed) ?_ (has ▸ h.none_open) (fun _ => sealOpen_none)
    fun _ _ _ => sealOpen_eq
  exact (hi.append_right _).append_left _

theorem Mixed.update (update : ContextMessage → ContextMessage) :
    Mixed as { own with messages := appendToOpenAssistant own.messages update }
      { s with messages := appendToOpenAssistant s.messages update } := by
  obtain ⟨shown, has, hi⟩ := h.interleaved
  have hshown : NoneOpen shown := fun m hm => h.none_open m (by rw [has]; exact mem_append_left _ hm)
  refine ⟨h.pending_eq, h.own_deferred, h.none_open, h.deferred_nil, shown, has, ?_⟩
  exact interleaving_atOpen (f := fun m => [update m]) hi hshown (fun _ hn => appendToOpen_none hn update)
    fun _ _ _ hm hn => appendToOpen_eq hm hn update

theorem Mixed.result (r : ContextMessage) (pending pending' : JsSet String) (he : pending'.keys = pending.keys) :
    Mixed as
      (Folded.flushDeferred
        { messages := own.messages ++ [r], ctx := { own.ctx with pending := pending' } })
      (Folded.flushDeferred
        { messages := s.messages ++ [r], ctx := { s.ctx with pending := pending } }) := by
  obtain ⟨shown, has, hi⟩ := h.interleaved
  have hown : (Folded.flushDeferred
      { messages := own.messages ++ [r], ctx := { own.ctx with pending := pending' } }) =
      { messages := own.messages ++ [r], ctx := { own.ctx with pending := pending' } } :=
    Folded.flushDeferred_of_nil h.own_deferred
  rw [hown]
  by_cases hp : pending.keys = []
  · obtain ⟨hm, hd⟩ := Folded.flushDeferred_messages (s :=
      { messages := s.messages ++ [r], ctx := { s.ctx with pending := pending } }) hp
    refine ⟨by rw [Folded.flushDeferred_pending]; exact he, h.own_deferred, h.none_open,
      fun _ => hd, as, by rw [hd, append_nil], ?_⟩
    rw [hm, has]
    exact (hi.append_right [r]).append_left _
  · rw [Folded.flushDeferred_of_pending hp]
    exact ⟨he, h.own_deferred, h.none_open, fun hn => absurd hn hp, shown, has, hi.append_right [r]⟩

theorem Mixed.event (e : LoopRecordedEvent) : Mixed as (foldLoopEvent own e) (foldLoopEvent s e) := by
  cases e with
  | stepBegin uuid =>
    obtain ⟨hs, _⟩ := h.settle
    obtain ⟨shown, has, hi⟩ := hs.interleaved
    exact ⟨hs.pending_eq, hs.own_deferred, hs.none_open, hs.deferred_nil, shown, has,
      hi.append_right [partialAssistant]⟩
  | stepEnd uuid =>
    obtain ⟨hs, _⟩ := h.settle
    rw [foldLoopEvent_stepEnd fun _ => h.own_deferred, foldLoopEvent_stepEnd h.deferred_nil]
    exact { hs with }
  | contentPart stepUuid part => exact h.update _
  | toolCall stepUuid toolCallId name args extras =>
    obtain ⟨hp, ho, hn, hd, hi⟩ := h.update (pushCall (recordedToolCall toolCallId name args extras))
    refine ⟨JsMap.keys_set_congr hp toolCallId (), ho, hn, fun he => ?_, hi⟩
    have hmem := (JsMap.mem_keys_set s.ctx.pending toolCallId toolCallId ()).mpr (.inl rfl)
    rw [show (s.ctx.pending.set toolCallId ()).keys = [] from he] at hmem
    exact absurd hmem not_mem_nil
  | toolResult toolCallId result =>
    have hhas : own.ctx.pending.has toolCallId = s.ctx.pending.has toolCallId := by
      rw [JsMap.has, JsMap.has, h.pending_eq]
    rw [foldLoopEvent, foldLoopEvent, hhas]
    by_cases hp : s.ctx.pending.has toolCallId = true
    · rw [if_pos hp, if_pos hp]
      refine h.result _ _ _ ?_
      rw [JsMap.keys_delete, JsMap.keys_delete, h.pending_eq]
    · rw [if_neg hp, if_neg hp]
      exact h

end

theorem foldRecords_concat (journal : List LoopRecord) (r : LoopRecord) :
    foldRecords (journal ++ [r]) = foldRecord (foldRecords journal) r :=
  foldl_concat _ _ _ _

theorem Mixed.run (journal : List LoopRecord) (hm : ∀ m, .appendMessage m ∈ journal → isOpen m = false) :
    Mixed (appended journal) (foldRecords (loopRecords journal)) (foldRecords journal) := by
  induction journal using reverseRecOn with
  | nil => exact Mixed.start
  | append_singleton journal r ih =>
    have ih' := ih fun m h => hm m (mem_append_left _ h)
    cases r with
    | appendMessage m =>
      have hl : loopRecords (journal ++ [.appendMessage m]) = loopRecords journal := by
        simp [loopRecords]
      have ha : appended (journal ++ [.appendMessage m]) = appended journal ++ [m] := by
        simp [appended]
      rw [hl, ha, foldRecords_concat]
      exact ih'.append (hm m (by simp))
    | loopEvent e =>
      have hl : loopRecords (journal ++ [.loopEvent e]) = loopRecords journal ++ [.loopEvent e] := by
        simp [loopRecords]
      have ha : appended (journal ++ [.loopEvent e]) = appended journal := by simp [appended]
      rw [hl, ha, foldRecords_concat, foldRecords_concat]
      exact ih'.event e

end Echadron.Agent
