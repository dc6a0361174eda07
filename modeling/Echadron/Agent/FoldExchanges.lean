import Echadron.Agent.LoopOrder
import Mathlib.Data.List.Count
import Mathlib.Data.List.Perm.Basic

namespace Echadron.Agent
open Lib List Option

variable {ms rs rest post tail base later : List ContextMessage} {m a : ContextMessage}
  {journal mid : List LoopRecord} {record : LoopRecord}

structure ToolOnly (r : ContextMessage) : Prop where
  role_eq : r.role = .tool
  no_calls : r.toolCalls = []
  not_open : isOpen r = false

def resultIds (rs : List ContextMessage) : List (Option String) := rs.map fun r => r.toolCallId

/-- Messages that are no tool results, each followed by the results of its calls in some order. -/
inductive ClosedSteps : List ContextMessage → Prop where
  | nil : ClosedSteps []
  | cons {m : ContextMessage} {rs rest : List ContextMessage} : m.role ≠ .tool →
      isOpen m = false → (∀ r ∈ rs, ToolOnly r) →
      (resultIds rs).Perm ((callIds m.toolCalls).map some) →
      ClosedSteps rest → ClosedSteps (m :: (rs ++ rest))

def StartsPlain (ms : List ContextMessage) : Prop := ∀ m post, ms = m :: post → m.role ≠ .tool

theorem takeWhile_results (h : ∀ r ∈ rs, ToolOnly r) (hs : StartsPlain post) :
    (rs ++ post).takeWhile isResult = rs := by
  induction rs with
  | nil =>
    cases post with
    | nil => rfl
    | cons m post => simp [isResult, hs m post rfl]
  | cons r rs ih =>
    have hr : isResult r = true := decide_eq_true (h r mem_cons_self).role_eq
    rw [cons_append, takeWhile_cons_of_pos hr, ih fun x hx => h x (mem_cons_of_mem _ hx)]

theorem contextCallIds_append (a b : List ContextMessage) :
    contextCallIds (a ++ b) = contextCallIds a ++ contextCallIds b :=
  flatMap_append

theorem contextCallIds_cons (m : ContextMessage) (ms : List ContextMessage) :
    contextCallIds (m :: ms) = callIds m.toolCalls ++ contextCallIds ms :=
  flatMap_cons

theorem contextCallIds_eq_nil (h : ∀ m ∈ ms, m.toolCalls = []) : contextCallIds ms = [] := by
  rw [contextCallIds, flatMap_eq_nil_iff]
  intro m hm
  rw [h m hm]
  rfl

theorem filter_results (h : ∀ r ∈ rs, ToolOnly r) : rs.filter isResult = rs :=
  filter_eq_self.mpr fun r hr => decide_eq_true (h r hr).role_eq

theorem filter_plain (h : ∀ m ∈ ms, Appendable m) : ms.filter isResult = [] :=
  filter_eq_nil_iff.mpr fun m hm => by simpa [isResult] using (h m hm).not_tool

theorem cut_after_tools (ht : ∀ r ∈ rs, ToolOnly r) (he : rs ++ tail = pre ++ a :: post)
    (ha : a.role ≠ .tool) : ∃ mid, tail = mid ++ a :: post := by
  rcases append_eq_append_iff.mp he with ⟨x, _, hx⟩ | ⟨y, hy, hx⟩
  · exact ⟨x, hx⟩
  · cases y with
    | nil => exact ⟨[], hx.symm⟩
    | cons c y =>
      obtain ⟨rfl, _⟩ := cons_eq_cons.mp hx
      exact absurd (ht a (by rw [hy]; simp)).role_eq ha

namespace ClosedSteps

theorem append (ha : ClosedSteps ms) (hb : ClosedSteps rest) : ClosedSteps (ms ++ rest) := by
  induction ha with
  | nil => exact hb
  | cons hr ho ht hp _ ih =>
    rw [cons_append, append_assoc]
    exact .cons hr ho ht hp ih

theorem plain (h : Appendable m) : ClosedSteps [m] := by
  have hp : (resultIds []).Perm ((callIds m.toolCalls).map some) := by rw [h.no_calls]; rfl
  have hc := cons h.not_tool h.not_open (by simp) hp .nil
  exact hc

theorem plains (h : ∀ m ∈ ms, Appendable m) : ClosedSteps ms := by
  induction ms with
  | nil => exact .nil
  | cons m ms ih => exact (plain (h m mem_cons_self)).append (ih fun x hx => h x (mem_cons_of_mem _ hx))

theorem startsPlain_append (h : ClosedSteps ms) (ht : StartsPlain tail) : StartsPlain (ms ++ tail) := by
  cases h with
  | nil => exact ht
  | cons hr =>
    intro m post he
    obtain ⟨rfl, _⟩ := cons_eq_cons.mp he
    exact hr

theorem noneOpen (h : ClosedSteps ms) : NoneOpen ms := by
  induction h with
  | nil => simp [NoneOpen]
  | cons _ ho ht _ _ ih =>
    intro x hx
    rcases mem_cons.mp hx with rfl | hx
    · exact ho
    · rcases mem_append.mp hx with hx | hx
      · exact (ht x hx).not_open
      · exact ih x hx

/-- The results of a message follow it directly, up to the next message that is no result. -/
theorem contiguous (h : ClosedSteps ms) (hs : StartsPlain tail) (he : ms ++ tail = pre ++ a :: post)
    (ha : a.role ≠ .tool) :
    a ∈ ms ∧ (resultIds (post.takeWhile isResult)).Perm ((callIds a.toolCalls).map some) ∨
      ∃ mid, tail = mid ++ a :: post := by
  induction h generalizing pre with
  | nil => exact .inr ⟨pre, he⟩
  | @cons m rs rest hr ho ht hp hrest ih =>
    cases pre with
    | nil =>
      rw [cons_append, append_assoc] at he
      obtain ⟨rfl, rfl⟩ := cons_eq_cons.mp he
      refine .inl ⟨mem_cons_self, ?_⟩
      rw [takeWhile_results ht (hrest.startsPlain_append hs)]
      exact hp
    | cons b pre =>
      rw [cons_append, append_assoc] at he
      obtain ⟨rfl, he'⟩ := cons_eq_cons.mp he
      obtain ⟨pre', hpre'⟩ := cut_after_tools ht he' ha
      rcases ih hpre' with ⟨hm, hperm⟩ | hmid
      · exact .inl ⟨by simp [hm], hperm⟩
      · exact .inr hmid

theorem results (h : ClosedSteps ms) : (resultIds (ms.filter isResult)).Perm ((contextCallIds ms).map some) := by
  induction h with
  | nil => exact .nil
  | @cons m rs rest hr _ ht hp _ ih =>
    have hm : isResult m = false := decide_eq_false hr
    have hrs : contextCallIds rs = [] := contextCallIds_eq_nil fun r hr => (ht r hr).no_calls
    rw [filter_cons_of_neg (by rw [hm]; decide), filter_append, filter_results ht,
      contextCallIds_cons, contextCallIds_append, hrs, nil_append, map_append,
      resultIds, map_append]
    exact hp.append ih

end ClosedSteps

def isStepBegin : LoopRecord → Bool
  | .loopEvent (.stepBegin _) => true
  | _ => false

def isToolCall : LoopRecord → Bool
  | .loopEvent (.toolCall ..) => true
  | _ => false

def Quiet (mid : List LoopRecord) : Prop := ∀ r ∈ mid, isStepBegin r = false ∧ isToolCall r = false

def CallsBeforeAppends (journal : List LoopRecord) : Prop :=
  ∀ pre uuid mid call post, journal = pre ++ .loopEvent (.stepBegin uuid) :: (mid ++ call :: post) →
    isToolCall call = true → Quiet mid → ∀ m, .appendMessage m ∉ mid

def SinceBegin (journal : List LoopRecord) (later : List ContextMessage) : Prop :=
  ∃ pre uuid mid, journal = pre ++ .loopEvent (.stepBegin uuid) :: mid ∧ Quiet mid ∧
    (later ≠ [] → ∃ m, .appendMessage m ∈ mid)

structure Opened (journal : List LoopRecord) (o : LoopOrder) (s : Folded)
    (base : List ContextMessage) (a : ContextMessage) (rs later : List ContextMessage) : Prop where
  messages_eq : s.messages = base ++ a :: (rs ++ later)
  closed : ClosedSteps base
  role_eq : a.role = .assistant
  is_open : isOpen a = true
  calls_eq : callIds a.toolCalls = o.calls
  tools : ∀ r ∈ rs, ToolOnly r
  answered : (resultIds rs ++ s.ctx.pending.keys.map some).Perm (o.calls.map some)
  later_plain : ∀ m ∈ later, Appendable m
  deferred_plain : ∀ m ∈ s.ctx.deferred, Appendable m
  later_nil : s.ctx.pending.keys ≠ [] → later = []
  deferred_nil : s.ctx.pending.keys = [] → s.ctx.deferred = []
  unanswered : o.answered = [] → rs = []
  since_begin : o.calls = [] → SinceBegin journal later

structure Closed (s : Folded) : Prop where
  closed : ClosedSteps s.messages
  pending_nil : s.ctx.pending.keys = []
  deferred_nil : s.ctx.deferred = []

structure FoldInv (journal : List LoopRecord) (o : LoopOrder) (s : Folded) : Prop where
  used_eq : contextCallIds s.messages = o.used
  recorded_eq : recordedCalls journal = o.used
  used_nodup : o.used.Nodup
  stage : o.openStep = none ∧ Closed s ∨ o.openStep ≠ none ∧ ∃ base a rs later, Opened journal o s base a rs later

theorem FoldInv.start : FoldInv [] {} .empty := ⟨rfl, rfl, .nil, .inl ⟨rfl, .nil, rfl, rfl⟩⟩

theorem Quiet.concat (h : Quiet mid) (hb : isStepBegin record = false) (hc : isToolCall record = false) :
    Quiet (mid ++ [record]) := fun x hx => by
  rcases mem_snoc.mp hx with hx | hx
  · exact h x hx
  · rw [hx]
    exact ⟨hb, hc⟩

theorem SinceBegin.concat (h : SinceBegin journal later) (hb : isStepBegin record = false)
    (hc : isToolCall record = false) : SinceBegin (journal ++ [record]) later := by
  obtain ⟨pre, uuid, mid, rfl, hq, hl⟩ := h
  refine ⟨pre, uuid, mid ++ [record], by simp, hq.concat hb hc, fun hne => ?_⟩
  obtain ⟨m, hm⟩ := hl hne
  exact ⟨m, mem_append_left _ hm⟩

theorem SinceBegin.append (h : SinceBegin journal later) (m : ContextMessage) :
    SinceBegin (journal ++ [.appendMessage m]) (later ++ [m]) := by
  obtain ⟨pre, uuid, mid, rfl, hq, _⟩ := h
  exact ⟨pre, uuid, mid ++ [.appendMessage m], by simp, hq.concat rfl rfl, fun _ => ⟨m, by simp⟩⟩

theorem FoldInv.deferred_nil (h : FoldInv journal o s) : s.ctx.pending.keys = [] → s.ctx.deferred = [] := by
  rcases h.stage with ⟨_, hc⟩ | ⟨_, _, _, _, _, ho⟩
  · exact fun _ => hc.deferred_nil
  · exact ho.deferred_nil

theorem interrupted_toolOnly (ids : List String) : ∀ r ∈ ids.map interruptedToolMessage, ToolOnly r := by
  intro r hr
  obtain ⟨i, _, rfl⟩ := mem_map.mp hr
  exact ⟨rfl, rfl, rfl⟩

theorem resultIds_interrupted (ids : List String) : resultIds (ids.map interruptedToolMessage) = ids.map some := by
  rw [resultIds, List.map_map]
  rfl

namespace Opened

section

variable (h : Opened journal o s base a rs later)
include h

theorem calls_nil (hc : o.calls = []) : rs = [] ∧ s.ctx.pending.keys = [] := by
  have hp := h.answered
  rw [hc, map_nil, perm_nil, append_eq_nil_iff] at hp
  exact ⟨map_eq_nil_iff.mp hp.1, map_eq_nil_iff.mp hp.2⟩

theorem noneOpen_rest : NoneOpen (rs ++ later) :=
  NoneOpen.append (fun r hr => (h.tools r hr).not_open) fun m hm => (h.later_plain m hm).not_open

theorem settle_messages : s.settleOpenStep.messages = base ++ (sealed a ++
      ((rs ++ s.ctx.pending.keys.map interruptedToolMessage) ++ (later ++ s.ctx.deferred))) := by
  have hrest : rs ++ later ++ (s.ctx.pending.keys.map interruptedToolMessage ++ s.ctx.deferred) =
      (rs ++ s.ctx.pending.keys.map interruptedToolMessage) ++ (later ++ s.ctx.deferred) := by
    by_cases hp : s.ctx.pending.keys = []
    · rw [hp]; simp
    · rw [h.later_nil hp]; simp
  have hopen : NoneOpen
      ((rs ++ s.ctx.pending.keys.map interruptedToolMessage) ++ (later ++ s.ctx.deferred)) := by
    refine NoneOpen.append (NoneOpen.append ?_ ?_) (NoneOpen.append ?_ ?_)
    · exact fun r hr => (h.tools r hr).not_open
    · exact fun r hr => (interrupted_toolOnly _ r hr).not_open
    · exact fun m hm => (h.later_plain m hm).not_open
    · exact fun m hm => (h.deferred_plain m hm).not_open
  rw [(s.settleOpenStep_spec h.deferred_nil).1, h.messages_eq, append_assoc, cons_append, hrest]
  exact sealOpen_eq h.is_open hopen

theorem settle : ClosedSteps s.settleOpenStep.messages ∧
      contextCallIds s.settleOpenStep.messages = contextCallIds base ++ o.calls := by
  have hlater : ∀ m ∈ later ++ s.ctx.deferred, Appendable m := fun m hm =>
    (mem_append.mp hm).elim (h.later_plain m) (h.deferred_plain m)
  have htools : ∀ r ∈ rs ++ s.ctx.pending.keys.map interruptedToolMessage, ToolOnly r := fun r hr =>
    (mem_append.mp hr).elim (h.tools r) (interrupted_toolOnly _ r)
  have hlaterIds := contextCallIds_eq_nil fun m hm => (hlater m hm).no_calls
  have htoolIds := contextCallIds_eq_nil fun r hr => (htools r hr).no_calls
  rw [h.settle_messages]
  by_cases hv : isVacuousStep a = true
  · -- nothing was called, so there is nothing to close either
    have hcalls : o.calls = [] := by
      rw [isVacuousStep, Bool.and_eq_true, decide_eq_true_iff] at hv
      rw [← h.calls_eq, length_eq_zero_iff.mp hv.1]
      rfl
    obtain ⟨hrs, hp⟩ := h.calls_nil hcalls
    rw [sealed, if_pos hv, hrs, hp, hcalls, map_nil, nil_append, nil_append, nil_append]
    refine ⟨h.closed.append (ClosedSteps.plains hlater), ?_⟩
    rw [contextCallIds_append, hlaterIds]
  · rw [sealed, if_neg hv]
    have hrole : ({ a with isPartial := none } : ContextMessage).role ≠ .tool := by
      rw [h.role_eq]; decide
    have hperm : (resultIds (rs ++ s.ctx.pending.keys.map interruptedToolMessage)).Perm
        ((callIds ({ a with isPartial := none } : ContextMessage).toolCalls).map some) := by
      rw [resultIds, map_append]
      show (resultIds rs ++ resultIds _).Perm ((callIds a.toolCalls).map some)
      rw [resultIds_interrupted, h.calls_eq]
      exact h.answered
    have hstep := ClosedSteps.cons hrole rfl htools hperm (ClosedSteps.plains hlater)
    refine ⟨h.closed.append hstep, ?_⟩
    rw [singleton_append, contextCallIds_append, contextCallIds_cons,
      contextCallIds_append _ (later ++ s.ctx.deferred), hlaterIds, htoolIds]
    simp [h.calls_eq]

theorem callIds_eq : contextCallIds s.messages = contextCallIds base ++ o.calls := by
  have hrs := contextCallIds_eq_nil fun r hr => (h.tools r hr).no_calls
  have hlater := contextCallIds_eq_nil fun m hm => (h.later_plain m hm).no_calls
  rw [h.messages_eq, contextCallIds_append, contextCallIds_cons, contextCallIds_append, hrs, hlater, h.calls_eq]
  simp

end

end Opened

theorem FoldInv.settle (h : FoldInv journal o s) :
    Closed s.settleOpenStep ∧ contextCallIds s.settleOpenStep.messages = o.used := by
  obtain ⟨hm, hp, hd⟩ := s.settleOpenStep_spec h.deferred_nil
  rcases h.stage with ⟨_, hc⟩ | ⟨_, base, a, rs, later, ho⟩
  · have hsame : s.settleOpenStep.messages = s.messages := by
      rw [hm, hc.pending_nil, hc.deferred_nil, map_nil, append_nil, append_nil]
      exact sealOpen_none hc.closed.noneOpen
    exact ⟨⟨by rw [hsame]; exact hc.closed, hp, hd⟩, by rw [hsame]; exact h.used_eq⟩
  · obtain ⟨hclosed, hids⟩ := ho.settle
    exact ⟨⟨hclosed, hp, hd⟩, by rw [hids, ← ho.callIds_eq]; exact h.used_eq⟩

theorem recordedCalls_concat (hr : isToolCall record = false) :
    recordedCalls (journal ++ [record]) = recordedCalls journal := by
  cases record with
  | appendMessage m => simp [recordedCalls]
  | loopEvent e => cases e <;> simp [recordedCalls, isToolCall] at hr ⊢

section

variable (h : FoldInv journal o s)
include h

theorem FoldInv.appendMessage (hm : Appendable m) :
    FoldInv (journal ++ [.appendMessage m]) o (foldAppendMessage s m) := by
  have hrec : recordedCalls (journal ++ [.appendMessage m]) = o.used :=
    (recordedCalls_concat rfl).trans h.recorded_eq
  have hids : contextCallIds [m] = [] := contextCallIds_eq_nil (by simpa using hm.no_calls)
  unfold foldAppendMessage
  rcases h.stage with ⟨hnone, hc⟩ | ⟨hsome, base, a, rs, later, ho⟩
  · rw [if_neg (by rw [(JsMap.size_eq_zero_iff _).mpr hc.pending_nil]; decide)]
    refine ⟨?_, hrec, h.used_nodup, .inl ⟨hnone, ?_, hc.pending_nil, hc.deferred_nil⟩⟩
    · rw [contextCallIds_append, h.used_eq, hids, append_nil]
    · exact hc.closed.append (.plain hm)
  · by_cases hp : s.ctx.pending.keys = []
    · rw [if_neg (by rw [(JsMap.size_eq_zero_iff _).mpr hp]; decide)]
      refine ⟨?_, hrec, h.used_nodup, .inr ⟨hsome, base, a, rs, later ++ [m], ?_⟩⟩
      · rw [contextCallIds_append, h.used_eq, hids, append_nil]
      · exact { ho with
          messages_eq := by rw [ho.messages_eq]; simp
          later_plain := fun x hx => (mem_append.mp hx).elim (ho.later_plain x) fun hx => by
            rw [mem_singleton.mp hx]; exact hm
          later_nil := absurd hp
          since_begin := fun hc => (ho.since_begin hc).append m }
    · have hsize := Nat.pos_of_ne_zero (mt (JsMap.size_eq_zero_iff _).mp hp)
      rw [if_pos hsize]
      refine ⟨h.used_eq, hrec, h.used_nodup, .inr ⟨hsome, base, a, rs, later, ?_⟩⟩
      exact { ho with
        deferred_plain := fun x hx => (mem_append.mp hx).elim (ho.deferred_plain x) fun hx => by
          rw [mem_singleton.mp hx]; exact hm
        deferred_nil := fun he => absurd he hp
        since_begin := fun hc => (ho.since_begin hc).concat rfl rfl }

theorem FoldInv.stepBegin (uuid : String) :
    FoldInv (journal ++ [.loopEvent (.stepBegin uuid)]) { openStep := some uuid, used := o.used }
      (foldLoopEvent s (.stepBegin uuid)) := by
  obtain ⟨hc, hids⟩ := h.settle
  have hpart : contextCallIds [partialAssistant] = [] := rfl
  refine ⟨?_, (recordedCalls_concat rfl).trans h.recorded_eq, h.used_nodup,
    .inr ⟨some_ne_none uuid, s.settleOpenStep.messages, partialAssistant, [], [], ?_⟩⟩
  · rw [foldLoopEvent, contextCallIds_append, hpart, append_nil]
    exact hids
  · exact
      { messages_eq := rfl
        closed := hc.closed
        role_eq := rfl
        is_open := rfl
        calls_eq := rfl
        tools := by simp
        answered := by
          rw [show (foldLoopEvent s (.stepBegin uuid)).ctx.pending.keys = [] from hc.pending_nil]
          exact .nil
        later_plain := by simp
        deferred_plain := by
          rw [show (foldLoopEvent s (.stepBegin uuid)).ctx.deferred = [] from hc.deferred_nil]
          simp
        later_nil := fun _ => rfl
        deferred_nil := fun _ => hc.deferred_nil
        unanswered := fun _ => rfl
        since_begin := fun _ => ⟨journal, uuid, [], rfl, by simp [Quiet], by simp⟩ }

theorem FoldInv.stepEnd (uuid : String) : FoldInv (journal ++ [.loopEvent (.stepEnd uuid)]) { used := o.used }
      (foldLoopEvent s (.stepEnd uuid)) := by
  obtain ⟨hc, hids⟩ := h.settle
  rw [foldLoopEvent_stepEnd h.deferred_nil]
  exact ⟨hids, (recordedCalls_concat rfl).trans h.recorded_eq, h.used_nodup,
    .inl ⟨rfl, hc.closed, hc.pending_nil, hc.deferred_nil⟩⟩

theorem FoldInv.contentPart (hs : o.openStep = some uuid)
    (part : ContentPart) : FoldInv (journal ++ [.loopEvent (.contentPart uuid part)]) o
      (foldLoopEvent s (.contentPart uuid part)) := by
  have hrec : recordedCalls (journal ++ [.loopEvent (.contentPart uuid part)]) = o.used :=
    (recordedCalls_concat rfl).trans h.recorded_eq
  rcases h.stage with ⟨hnone, _⟩ | ⟨hsome, base, a, rs, later, ho⟩
  · rw [hs] at hnone; cases hnone
  · have hm : (foldLoopEvent s (.contentPart uuid part)).messages =
        base ++ pushContent part a :: (rs ++ later) := by
      rw [← appendToOpen_eq ho.is_open ho.noneOpen_rest, ← ho.messages_eq]
      rfl
    refine ⟨?_, hrec, h.used_nodup, .inr ⟨hsome, base, pushContent part a, rs, later, ?_⟩⟩
    · rw [hm, ← h.used_eq, ho.messages_eq, contextCallIds_append, contextCallIds_append,
        contextCallIds_cons, contextCallIds_cons]
      rfl
    · exact { ho with
        messages_eq := hm
        since_begin := fun hc => (ho.since_begin hc).concat rfl rfl }

theorem FoldInv.toolCall (hs : o.openStep = some uuid) (hr : o.answered = []) (hi : i ∉ o.used)
    (hquiet : o.calls = [] → ∀ later, SinceBegin journal later → later = [])
    (name : String) (args : Option Json) (extras : Option (List (String × Json))) :
    FoldInv (journal ++ [.loopEvent (.toolCall uuid i name args extras)])
      { o with calls := o.calls ++ [i], used := o.used ++ [i] }
      (foldLoopEvent s (.toolCall uuid i name args extras)) := by
  rcases h.stage with ⟨hnone, _⟩ | ⟨hsome, base, a, rs, later, ho⟩
  · rw [hs] at hnone; cases hnone
  · have hrs := ho.unanswered hr
    subst hrs
    have hlater : later = [] := by
      by_cases hc : o.calls = []
      · exact hquiet hc later (ho.since_begin hc)
      · refine ho.later_nil fun hp => hc ?_
        have hperm := ho.answered
        rw [hp] at hperm
        exact map_eq_nil_iff.mp (nil_perm.mp hperm)
    subst hlater
    have hused := h.used_eq
    rw [ho.callIds_eq] at hused
    have hkeys : i ∉ s.ctx.pending.keys := fun hk => by
      have hmem := (ho.answered.mem_iff (a := some i)).mp (by simpa [resultIds] using hk)
      refine hi ?_
      rw [← hused]
      exact mem_append_right _ (by simpa using hmem)
    have hm : (foldLoopEvent s (.toolCall uuid i name args extras)).messages =
        base ++ [pushCall (recordedToolCall i name args extras) a] := by
      rw [← appendToOpen_eq ho.is_open (by simp [NoneOpen])]
      exact congrArg (appendToOpenAssistant · _) ho.messages_eq
    have hcall : callIds (pushCall (recordedToolCall i name args extras) a).toolCalls = o.calls ++ [i] := by
      rw [← ho.calls_eq, pushCall, callIds, map_append]
      rfl
    have hpending : (foldLoopEvent s (.toolCall uuid i name args extras)).ctx.pending.keys =
        s.ctx.pending.keys ++ [i] := JsMap.keys_set_of_not_mem hkeys ()
    refine ⟨?_, ?_, ?_, .inr ⟨hsome, base, pushCall (recordedToolCall i name args extras) a, [], [], ?_⟩⟩
    · rw [hm, contextCallIds_append, contextCallIds_cons, hcall, ← hused]
      simp [contextCallIds]
    · rw [recordedCalls, filterMap_append, ← recordedCalls, h.recorded_eq]
      rfl
    · exact nodup_append'.mpr ⟨h.used_nodup, nodup_singleton i, by simpa using hi⟩
    · have hperm := ho.answered
      exact { ho with
        messages_eq := hm
        calls_eq := hcall
        answered := by
          rw [hpending]
          simpa [resultIds] using hperm.append_right [some i]
        later_nil := fun _ => rfl
        deferred_nil := fun he => by rw [hpending] at he; simp at he
        since_begin := fun he => by simp at he }

end

theorem perm_keys_delete (pending : JsSet String) (hi : i ∈ pending.keys) :
    (i :: (pending.delete i).keys).Perm pending.keys := by
  have hfilter : (pending.delete i).keys = pending.keys.erase i := by
    rw [JsMap.keys_delete, pending.keys_nodup.erase_eq_filter]
    exact filter_congr fun j _ => by by_cases hj : j = i <;> simp [hj]
  rw [hfilter]
  exact (perm_cons_erase hi).symm

theorem toolResult_toolOnly (i : String) (result : LoopToolResult) :
    ToolOnly (toolResultMessage i result) := ⟨rfl, rfl, rfl⟩

section

variable (h : Opened journal o s base a rs later) (hi : i ∈ s.ctx.pending.keys)
include h hi

theorem Opened.pending_sub : i ∈ o.calls := by
  have hmem := (h.answered.mem_iff (a := some i)).mp
    (mem_append_right _ (mem_map.mpr ⟨i, hi, rfl⟩))
  simpa using hmem

theorem Opened.result (result : LoopToolResult) :
    ∃ later', Opened (journal ++ [.loopEvent (.toolResult i result)])
      { o with answered := o.answered ++ [i] }
      (Folded.flushDeferred
        { messages := s.messages ++ [toolResultMessage i result]
          ctx := { s.ctx with pending := s.ctx.pending.delete i } })
      base a (rs ++ [toolResultMessage i result]) later' := by
  have hlater : later = [] := h.later_nil (ne_nil_of_mem hi)
  subst hlater
  have hcalls : i ∈ o.calls := h.pending_sub hi
  have htools : ∀ r ∈ rs ++ [toolResultMessage i result], ToolOnly r := fun r hr =>
    (mem_append.mp hr).elim (h.tools r) fun hr => by
      rw [mem_singleton.mp hr]; exact toolResult_toolOnly i result
  have hperm : (resultIds (rs ++ [toolResultMessage i result]) ++
      (s.ctx.pending.delete i).keys.map some).Perm (o.calls.map some) := by
    refine List.Perm.trans ?_ h.answered
    rw [resultIds, map_append, append_assoc]
    exact ((perm_keys_delete s.ctx.pending hi).map some).append_left _
  have hmessages : s.messages ++ [toolResultMessage i result] =
      base ++ a :: (rs ++ [toolResultMessage i result]) := by
    rw [h.messages_eq]; simp
  by_cases hp : (s.ctx.pending.delete i).keys = []
  · obtain ⟨hm, hd⟩ := Folded.flushDeferred_messages (s :=
      { messages := s.messages ++ [toolResultMessage i result]
        ctx := { s.ctx with pending := s.ctx.pending.delete i } }) hp
    have hkeys := Folded.flushDeferred_pending
    exact ⟨s.ctx.deferred, { h with
      messages_eq := by rw [hm]; simp [h.messages_eq]
      tools := htools
      answered := by rw [hkeys]; exact hperm
      later_plain := h.deferred_plain
      deferred_plain := by rw [hd]; simp
      later_nil := fun hne => absurd hp (by rw [hkeys] at hne; exact hne)
      deferred_nil := fun _ => hd
      unanswered := fun hr => by simp at hr
      since_begin := fun he => by rw [he] at hcalls; exact absurd hcalls not_mem_nil }⟩
  · rw [Folded.flushDeferred_of_pending hp]
    exact ⟨[], { h with
      messages_eq := by rw [append_nil]; exact hmessages
      tools := htools
      answered := hperm
      later_nil := fun _ => rfl
      deferred_nil := fun he => absurd he hp
      unanswered := fun hr => by simp at hr
      since_begin := fun he => by rw [he] at hcalls; exact absurd hcalls not_mem_nil }⟩

end

theorem FoldInv.toolResult (h : FoldInv journal o s) (i : String) (result : LoopToolResult)
    (ho : o.event (.toolResult i result) = some o') :
    FoldInv (journal ++ [.loopEvent (.toolResult i result)]) o'
      (foldLoopEvent s (.toolResult i result)) := by
  have hrec : recordedCalls (journal ++ [.loopEvent (.toolResult i result)]) = o.used :=
    (recordedCalls_concat rfl).trans h.recorded_eq
  have hsame : o'.used = o.used ∧ o'.openStep = o.openStep ∧ o'.calls = o.calls ∧
      (o'.answered = [] → o.answered = []) := by
    rw [LoopOrder.event] at ho
    split at ho <;> obtain rfl := some.inj ho <;> simp
  rw [foldLoopEvent]
  rcases h.stage with ⟨hnone, hc⟩ | ⟨hsome, base, a, rs, later, hopen⟩
  · rw [if_neg (by rw [JsMap.has_iff, hc.pending_nil]; exact not_mem_nil)]
    exact ⟨by rw [hsame.1]; exact h.used_eq, by rw [hsame.1]; exact hrec,
      by rw [hsame.1]; exact h.used_nodup, .inl ⟨by rw [hsame.2.1]; exact hnone, hc⟩⟩
  · by_cases hi : i ∈ s.ctx.pending.keys
    · rw [if_pos (by rw [JsMap.has_iff]; exact hi)]
      have hcalls := hopen.pending_sub hi
      obtain rfl : { o with answered := o.answered ++ [i] } = o' := by
        rw [LoopOrder.event, if_pos hcalls] at ho
        exact some.inj ho
      obtain ⟨later', ho'⟩ := hopen.result hi result
      refine ⟨?_, hrec, h.used_nodup, .inr ⟨hsome, base, a, _, later', ho'⟩⟩
      rw [ho'.callIds_eq, ← h.used_eq, hopen.callIds_eq]
    · rw [if_neg (by rw [JsMap.has_iff]; exact hi)]
      refine ⟨by rw [hsame.1]; exact h.used_eq, by rw [hsame.1]; exact hrec, by rw [hsame.1]; exact h.used_nodup,
        .inr ⟨by rw [hsame.2.1]; exact hsome, base, a, rs, later, ?_⟩⟩
      exact { hopen with
        calls_eq := by rw [hsame.2.2.1]; exact hopen.calls_eq
        answered := by rw [hsame.2.2.1]; exact hopen.answered
        unanswered := fun hr => hopen.unanswered (hsame.2.2.2 hr)
        since_begin := fun hc =>
          (hopen.since_begin (by rw [← hsame.2.2.1]; exact hc)).concat rfl rfl }

theorem CallsBeforeAppends.of_concat (h : CallsBeforeAppends (journal ++ [record])) : CallsBeforeAppends journal := by
  rintro pre uuid mid call post rfl hcall hq m hm
  exact h pre uuid mid call (post ++ [record]) (by simp) hcall hq m hm

theorem CallsBeforeAppends.later_nil
    (h : CallsBeforeAppends (journal ++ [.loopEvent (.toolCall uuid i name args extras)]))
    (hs : SinceBegin journal later) : later = [] := by
  obtain ⟨pre, uuid', mid, rfl, hq, hl⟩ := hs
  by_contra hne
  obtain ⟨m, hm⟩ := hl hne
  exact h pre uuid' mid (.loopEvent (.toolCall uuid i name args extras)) [] (by simp) rfl hq m hm

theorem obeys_concat (h : Obeys (journal ++ [record]) o) : ∃ o₀, Obeys journal o₀ ∧ o₀.record record = some o := by
  rw [Obeys, foldlM_append] at h
  obtain ⟨o₀, h₀, h₁⟩ := bind_eq_some_iff.mp h
  refine ⟨o₀, h₀, ?_⟩
  simpa [foldlM] using h₁

theorem FoldInv.run (journal : List LoopRecord) (o : LoopOrder) (hobeys : Obeys journal o)
    (hm : ∀ m, .appendMessage m ∈ journal → Appendable m) (hquiet : CallsBeforeAppends journal) :
    FoldInv journal o (foldRecords journal) := by
  induction journal using reverseRecOn generalizing o with
  | nil =>
    cases hobeys
    exact FoldInv.start
  | append_singleton journal r ih =>
    obtain ⟨o₀, h₀, hr⟩ := obeys_concat hobeys
    have h := ih o₀ h₀ (fun m hm' => hm m (mem_append_left _ hm')) hquiet.of_concat
    rw [foldRecords_concat]
    cases r with
    | appendMessage m =>
      cases hr
      exact h.appendMessage (hm m (by simp))
    | loopEvent e =>
      cases e with
      | stepBegin uuid =>
        cases hr
        exact h.stepBegin uuid
      | stepEnd uuid =>
        obtain ⟨_, rfl⟩ := ite_some_none_eq_some.mp hr
        exact h.stepEnd uuid
      | contentPart uuid part =>
        obtain ⟨hs, rfl⟩ := ite_some_none_eq_some.mp hr
        exact h.contentPart hs part
      | toolCall uuid i name args extras =>
        obtain ⟨⟨hs, hres, hi⟩, rfl⟩ := ite_some_none_eq_some.mp hr
        exact h.toolCall hs hres hi (fun _ later hl => hquiet.later_nil hl) name args extras
      | toolResult i result => exact h.toolResult i result hr

theorem length_filter_isOpen (h : NoneOpen ms) : (ms.filter isOpen).length = 0 := by
  rw [length_eq_zero_iff, filter_eq_nil_iff]
  exact fun m hm => by rw [h m hm]; decide

theorem FoldInv.one_open (h : FoldInv journal o s) : (s.messages.filter isOpen).length ≤ 1 := by
  rcases h.stage with ⟨_, hc⟩ | ⟨_, base, a, rs, later, ho⟩
  · rw [length_filter_isOpen hc.closed.noneOpen]
    exact Nat.zero_le 1
  · rw [ho.messages_eq, filter_append, length_append, filter_cons, if_pos ho.is_open,
      length_cons, length_filter_isOpen ho.closed.noneOpen,
      length_filter_isOpen ho.noneOpen_rest]

theorem filter_not_pending_eq {ids pending : List String} (h : ∀ i ∈ ids, i ∉ pending) :
    (ids.filter fun i => decide (i ∉ pending)) = ids :=
  filter_eq_self.mpr fun i hi => decide_eq_true (h i hi)

theorem Opened.answered_filter (h : Opened journal o s base a rs later) (hn : o.calls.Nodup) : (resultIds rs).Perm
      ((o.calls.filter fun i => decide (i ∉ s.ctx.pending.keys)).map some) := by
  have hcalls : (o.calls.map some).Perm
      ((o.calls.filter fun i => decide (i ∉ s.ctx.pending.keys)).map some ++ s.ctx.pending.keys.map some) := by
    rw [← map_append]
    refine List.Perm.map some ?_
    have hkeys : (o.calls.filter fun i => !decide (i ∉ s.ctx.pending.keys)).Perm
        s.ctx.pending.keys := by
      refine (perm_ext_iff_of_nodup (hn.filter _) s.ctx.pending.keys_nodup).mpr fun i => ?_
      simp only [mem_filter, decide_not, Bool.not_not, decide_eq_true_eq]
      exact ⟨fun hi => hi.2, fun hi => ⟨h.pending_sub hi, hi⟩⟩
    exact (filter_append_perm _ o.calls).symm.trans (hkeys.append_left _)
  exact (perm_append_right_iff _).mp (h.answered.trans hcalls)

theorem FoldInv.contiguous (h : FoldInv journal o s) (he : s.messages = pre ++ a :: post) (ha : a.role = .assistant) :
    (resultIds (post.takeWhile isResult)).Perm
      (((callIds a.toolCalls).filter fun i => decide (i ∉ s.ctx.pending.keys)).map some) := by
  have ha' : a.role ≠ .tool := by rw [ha]; decide
  rcases h.stage with ⟨_, hc⟩ | ⟨_, base, b, rs, later, ho⟩
  · rw [filter_not_pending_eq (by simp [hc.pending_nil])]
    have hs : StartsPlain [] := by simp [StartsPlain]
    rcases hc.closed.contiguous hs (by rw [append_nil]; exact he) ha' with ⟨_, hp⟩ | ⟨mid, hmid⟩
    · exact hp
    · simp at hmid
  · have hids := h.used_nodup
    rw [← h.used_eq, ho.callIds_eq] at hids
    obtain ⟨_, hcalls, hdisj⟩ := nodup_append'.mp hids
    have hlater : StartsPlain later := fun m _ hm => (ho.later_plain m (by rw [hm]; simp)).not_tool
    have hstart : StartsPlain (b :: (rs ++ later)) := fun m _ hm => by
      obtain ⟨rfl, _⟩ := cons_eq_cons.mp hm
      rw [ho.role_eq]; decide
    rcases ho.closed.contiguous hstart (ho.messages_eq ▸ he) ha' with ⟨hm, hp⟩ | ⟨mid, hmid⟩
    · rw [filter_not_pending_eq]
      · exact hp
      · intro i hi hk
        exact hdisj (mem_flatMap.mpr ⟨a, hm, hi⟩) (ho.pending_sub hk)
    · cases mid with
      | nil =>
        obtain ⟨rfl, rfl⟩ := cons_eq_cons.mp hmid
        rw [takeWhile_results ho.tools hlater, ho.calls_eq]
        exact ho.answered_filter hcalls
      | cons c mid =>
        -- only messages without calls stand after the results of the open step
        obtain ⟨_, hrest⟩ := cons_eq_cons.mp hmid
        obtain ⟨mid', hlate⟩ := cut_after_tools ho.tools hrest ha'
        have hplain : ∀ m ∈ post, Appendable m := fun m hm => ho.later_plain m (by rw [hlate]; simp [hm])
        have hrun : post.takeWhile isResult = [] := by
          rw [← filter_plain hplain]
          cases post with
          | nil => rfl
          | cons m post =>
            have hm : isResult m = false := decide_eq_false (hplain m mem_cons_self).not_tool
            rw [takeWhile_cons, hm, filter_plain hplain]
            rfl
        rw [hrun, (ho.later_plain a (by rw [hlate]; simp)).no_calls]
        exact .nil

theorem FoldInv.results (h : FoldInv journal o s) (hp : s.ctx.pending.keys = []) :
    (resultIds (s.messages.filter isResult)).Perm (o.used.map some) := by
  rw [← h.used_eq]
  rcases h.stage with ⟨_, hc⟩ | ⟨_, base, a, rs, later, ho⟩
  · exact hc.closed.results
  · have ha : isResult a = false := by rw [isResult, ho.role_eq]; rfl
    have hans := ho.answered
    rw [hp, map_nil, append_nil] at hans
    rw [ho.callIds_eq, ho.messages_eq, filter_append, filter_cons, ha, filter_append,
      filter_results ho.tools, filter_plain ho.later_plain, append_nil, map_append,
      resultIds, map_append]
    exact ho.closed.results.append hans

theorem FoldInv.answered_once (h : FoldInv journal o s) (hp : s.ctx.pending.keys = [])
    (hi : i ∈ recordedCalls journal) :
    (s.messages.filter fun m => decide (m.role = .tool ∧ m.toolCallId = some i)).length = 1 := by
  rw [h.recorded_eq] at hi
  have hcount : (resultIds (s.messages.filter isResult)).count (some i) = 1 := by
    rw [(h.results hp).count_eq, count_map_of_injective _ _ (some_injective _)]
    exact count_eq_one_of_mem h.used_nodup hi
  rw [← hcount, resultIds, List.count, countP_map, countP_eq_length_filter, List.filter_filter]
  refine congrArg _ (filter_congr fun m _ => ?_)
  by_cases hr : m.role = .tool <;> by_cases hid : m.toolCallId = some i <;> simp [isResult, hr, hid]

/-- With every step's calls recorded before anything is appended in that step, the fold keeps
assistant messages next to their results, whatever is appended or interrupted. -/
theorem foldRecords_keepsExchanges (journal : List LoopRecord) (o : LoopOrder)
    (hobeys : Obeys journal o) (hm : ∀ m, .appendMessage m ∈ journal → Appendable m)
    (hquiet : CallsBeforeAppends journal) : KeepsExchanges journal (foldRecords journal) := by
  have h := FoldInv.run journal o hobeys hm hquiet
  have hmixed := Mixed.run journal fun m hm' => (hm m hm').not_open
  refine ⟨h.one_open, fun pre a post he ha => h.contiguous he ha, fun hp => ?_,
    fun hp i hi => h.answered_once hp hi⟩
  obtain ⟨shown, has, hi⟩ := hmixed.interleaved
  rw [hmixed.deferred_nil hp, append_nil] at has
  rw [has]
  exact hi

def notice : ContextMessage := { role := .user, content := [.text "task done"] }

/-- A task notice arrives while the step waits for the model's response. -/
def interjectedJournal : List LoopRecord :=
  [.loopEvent (.stepBegin "u"), .appendMessage notice, .loopEvent (.toolCall "u" "x" "t" none none),
    .loopEvent (.toolResult "x" { output := .inl "ok" })]

/-- The notice comes to stand between the call and its result. -/
theorem interjectedJournal_breaks : (∃ o, Obeys interjectedJournal o) ∧
      (∀ m, .appendMessage m ∈ interjectedJournal → Appendable m) ∧
      ¬ KeepsExchanges interjectedJournal (foldRecords interjectedJournal) := by
  refine ⟨⟨_, rfl⟩, ?_, fun h => ?_⟩
  · intro m hm
    have he : m = notice := by simpa [interjectedJournal] using hm
    rw [he]
    exact ⟨by decide, rfl, rfl⟩
  · have hp := h.contiguous [] _ _ rfl rfl
    have hlength := hp.length_eq
    revert hlength
    decide

def deferredJournal : List LoopRecord :=
  [.loopEvent (.stepBegin "u"), .loopEvent (.toolCall "u" "x" "t" none none), .appendMessage notice,
    .loopEvent (.toolResult "x" { output := .inl "ok" })]

theorem foldRecords_keepsExchanges_deferred : KeepsExchanges deferredJournal (foldRecords deferredJournal) := by
  refine foldRecords_keepsExchanges deferredJournal _ rfl ?_ ?_
  · intro m hm
    have he : m = notice := by simpa [deferredJournal] using hm
    rw [he]
    exact ⟨by decide, rfl, rfl⟩
  · intro pre uuid mid call post he _ hq m hm
    cases pre with
    | nil =>
      cases mid with
      | nil => cases hm
      | cons r mid =>
        obtain ⟨_, ht⟩ := cons_eq_cons.mp he
        obtain ⟨rfl, _⟩ := cons_eq_cons.mp ht
        exact absurd (hq _ mem_cons_self).2 (by decide)
    | cons r pre =>
      obtain ⟨_, ht⟩ := cons_eq_cons.mp he
      have hbegin : LoopRecord.loopEvent (.stepBegin uuid) ∈ deferredJournal.tail := by
        rw [show deferredJournal.tail = _ from ht]
        simp
      simp [deferredJournal] at hbegin

end Echadron.Agent
