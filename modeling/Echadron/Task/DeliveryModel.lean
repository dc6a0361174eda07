import Echadron.Agent.ContextUndo
import Echadron.Task.NotificationDelivery
import Mathlib.Data.List.GetD

namespace Echadron.Task
open Lib Agent List Option

/-! The delivery model is what the recorded messages make of it. -/

def isTracked (message : ContextMessage) : Bool := isUndoAnchor message || (taskKey message).isSome

def replayed (messages : List ContextMessage) : Checkpointed (List NotificationKey) :=
  messages.foldl (fun state m => state.reduce (some onAppendMessage) (.appendMessage m)) { current := [] }

theorem replayed_concat (messages : List ContextMessage) (m : ContextMessage) :
    replayed (messages ++ [m]) = (replayed messages).reduce (some onAppendMessage) (.appendMessage m) := by
  rw [replayed, foldl_append]
  rfl

theorem taskKey_of_isUndoAnchor (h : isUndoAnchor m = true) : taskKey m = none := by
  unfold isUndoAnchor at h
  unfold taskKey
  split
  · rename_i ho
    rw [ho, Bool.and_false] at h
    cases h
  · rfl

theorem reduce_anchor (h : isUndoAnchor m = true) (state : Checkpointed (List NotificationKey)) :
    state.reduce (some onAppendMessage) (.appendMessage m) =
      { state with checkpoints := state.checkpoints ++ [state.current] } := if_pos h

theorem reduce_other (h : isUndoAnchor m = false) (state : Checkpointed (List NotificationKey)) :
    state.reduce (some onAppendMessage) (.appendMessage m) =
      { state with current := onAppendMessage state.current m } :=
  if_neg (Bool.eq_false_iff.mp h)

theorem reduce_untracked (h : isTracked m = false) (state : Checkpointed (List NotificationKey)) :
    state.reduce (some onAppendMessage) (.appendMessage m) = state := by
  obtain ⟨hanchor, hkey⟩ := Bool.or_eq_false_iff.mp h
  rw [reduce_other hanchor, onAppendMessage, not_isSome_iff_eq_none.mp (Bool.eq_false_iff.mp hkey)]

theorem replayed_filter (messages : List ContextMessage) :
    replayed (messages.filter isTracked) = replayed messages := by
  induction messages using reverseRecOn with
  | nil => rfl
  | append_singleton messages m ih =>
    rw [filter_append, replayed_concat, ← ih]
    cases hm : isTracked m with
    | true => rw [filter_cons_of_pos hm, filter_nil, replayed_concat]
    | false => rw [filter_cons_of_neg (Bool.eq_false_iff.mp hm), filter_nil, append_nil, reduce_untracked hm]

theorem mem_replayed (messages : List ContextMessage) (key : NotificationKey) :
    key ∈ (replayed messages).current ↔ key ∈ messages.filterMap taskKey := by
  induction messages using reverseRecOn with
  | nil => exact Iff.rfl
  | append_singleton messages m ih =>
    rw [filterMap_append, mem_append, replayed_concat, ← ih]
    cases hm : isUndoAnchor m with
    | true =>
      rw [reduce_anchor hm, filterMap_cons, taskKey_of_isUndoAnchor hm]
      simp
    | false =>
      rw [reduce_other hm, filterMap_cons, onAppendMessage]
      cases hkey : taskKey m with
      | none => simp
      | some other =>
        dsimp only
        split
        · rename_i hold
          constructor
          · exact .inl
          · rintro (hin | hnew)
            · exact hin
            · rw [filterMap_nil, mem_singleton] at hnew
              exact hnew ▸ hold
        · rw [mem_append]
          rfl

/-! An undo of the model takes it back to what the cut leaves. -/

def rolledBack (state : Checkpointed (List NotificationKey)) (count : Nat) : Checkpointed (List NotificationKey) :=
  { current := state.checkpoints.getD (state.checkpoints.length - count) state.current
    checkpoints := state.checkpoints.take (state.checkpoints.length - count) }

theorem undo_eq_rolledBack {count : Nat}
    (hvalid : isValidUndoCount count = true) (hle : count ≤ state.checkpoints.length) :
    state.undo count = rolledBack state count := by
  apply if_neg
  intro h
  rcases h with h | h
  · rw [hvalid] at h
    cases h
  · omega

theorem rolledBack_other (h : isUndoAnchor m = false)
    {count : Nat} (hpos : 0 < count) (hle : count ≤ (replayed messages).checkpoints.length) :
    rolledBack (replayed (messages ++ [m])) count = rolledBack (replayed messages) count := by
  have hin : (replayed messages).checkpoints.length - count < (replayed messages).checkpoints.length := by
    omega
  rw [replayed_concat, reduce_other h, rolledBack, rolledBack]
  rw [getD_eq_getElem _ _ hin, getD_eq_getElem _ _ hin]

theorem rolledBack_anchor (h : isUndoAnchor m = true)
    {count : Nat} (hpos : 0 < count) (hle : count ≤ (replayed messages).checkpoints.length) :
    rolledBack (replayed (messages ++ [m])) (count + 1) = rolledBack (replayed messages) count := by
  have hin : (replayed messages).checkpoints.length - count < (replayed messages).checkpoints.length := by
    omega
  have hlength : ((replayed messages).checkpoints ++ [(replayed messages).current]).length - (count + 1) =
      (replayed messages).checkpoints.length - count := by
    simp
  rw [replayed_concat, reduce_anchor h, rolledBack, rolledBack]
  rw [hlength, getD_append _ _ _ _ hin, getD_eq_getElem _ _ hin, take_append_of_le_length (le_of_lt hin)]

theorem rolledBack_one (h : isUndoAnchor m = true) (messages : List ContextMessage) :
    rolledBack (replayed (messages ++ [m])) 1 = replayed messages := by
  have hlength : ((replayed messages).checkpoints ++ [(replayed messages).current]).length - 1 =
      (replayed messages).checkpoints.length := by
    simp
  rw [replayed_concat, reduce_anchor h, rolledBack]
  rw [hlength, take_left, getD_append_right _ _ _ _ (Nat.le_refl _), Nat.sub_self]
  rfl

theorem anchorsBack_le (reversed : List ContextMessage) :
    anchorsBack reversed ≤ (replayed reversed.reverse).checkpoints.length := by
  induction reversed with
  | nil => exact Nat.zero_le _
  | cons m before ih =>
    rw [reverse_cons, replayed_concat]
    cases hs : isCompactionSummaryMessage m with
    | true =>
      rw [anchorsBack_summary hs]
      exact Nat.zero_le _
    | false =>
      cases ha : isUndoAnchor m with
      | true =>
        rw [anchorsBack_anchor ha hs, reduce_anchor ha, length_append]
        exact Nat.succ_le_succ ih
      | false =>
        rw [anchorsBack_neutral ha hs, reduce_other ha]
        exact ih

theorem isTracked_of_isInjection (h : isInjection m = true) : isTracked m = false := by
  have hmark := isMark_of_isInjection h
  unfold isInjection at h
  unfold isTracked taskKey
  rw [(Bool.or_eq_false_iff.mp hmark).1]
  split at h
  · next ho => rw [ho]; rfl
  · cases h

theorem replayed_dropWhile (prompt : ContextMessage) (before : List ContextMessage) :
    replayed (before.dropWhile fun m => isPromptOwnedInjection m prompt).reverse = replayed before.reverse := by
  induction before with
  | nil => rfl
  | cons m before ih =>
    rw [dropWhile_cons]
    split_ifs with hm
    · rw [ih, reverse_cons, replayed_concat,
        reduce_untracked (isTracked_of_isInjection (isInjection_of_isPromptOwnedInjection hm))]
    · rfl

theorem undoScan_replayed (remaining : Nat) (cut : UndoCut) (reversed : List ContextMessage)
    (hpos : 0 < remaining) (hle : remaining ≤ anchorsBack reversed) :
    ∃ before, before <:+ reversed ∧ (undoScan remaining cut reversed).cutIndex = some before.length ∧
      replayed before.reverse = rolledBack (replayed reversed.reverse) remaining := by
  induction reversed generalizing remaining cut with
  | nil => exact absurd hle (not_le_of_gt hpos)
  | cons m before ih =>
    have hcheckpoints := anchorsBack_le before
    rw [undoScan, reverse_cons]
    split_ifs with hr hi hs ha
    · exact absurd hr (ne_of_gt hpos)
    · have hanchor := (Bool.or_eq_false_iff.mp (isMark_of_isInjection hi)).1
      rw [anchorsBack_skip (isMark_of_isInjection hi)] at hle
      obtain ⟨rest, hsuffix, hcut, hrest⟩ := ih remaining cut hpos hle
      rw [rolledBack_other hanchor hpos (le_trans hle hcheckpoints)]
      exact ⟨rest, hsuffix.trans (suffix_cons m before), hcut, hrest⟩
    · rw [anchorsBack_summary hs] at hle
      exact absurd hle (not_le_of_gt hpos)
    · rw [anchorsBack_anchor ha (Bool.eq_false_iff.mpr hs)] at hle
      by_cases hone : remaining = 1
      · subst hone
        refine ⟨before.dropWhile fun x => isPromptOwnedInjection x m,
          (dropWhile_suffix _).trans (suffix_cons m before), ?_, ?_⟩
        · rw [undoScan_zero]
        · rw [replayed_dropWhile, rolledBack_one ha]
      · obtain ⟨count, rfl⟩ : ∃ count, remaining = count + 1 := ⟨remaining - 1, by omega⟩
        have hcount : 0 < count := by omega
        have hfewer : count ≤ anchorsBack before := by omega
        obtain ⟨rest, hsuffix, hcut, hrest⟩ := ih count _ hcount hfewer
        rw [rolledBack_anchor ha hcount (le_trans hfewer hcheckpoints)]
        exact ⟨rest, hsuffix.trans (suffix_cons m before), hcut, hrest⟩
    · have hanchor := Bool.eq_false_iff.mpr ha
      rw [anchorsBack_neutral hanchor (Bool.eq_false_iff.mpr hs)] at hle
      obtain ⟨rest, hsuffix, hcut, hrest⟩ := ih remaining cut hpos hle
      rw [rolledBack_other hanchor hpos (le_trans hle hcheckpoints)]
      exact ⟨rest, hsuffix.trans (suffix_cons m before), hcut, hrest⟩

theorem replayed_cut (messages : List ContextMessage) {count : Nat} (hpos : 0 < count)
    (hle : count ≤ undoAnchors messages) :
    replayed (messages.take ((computeUndoCut messages count).cutIndex.getD 0)) =
      rolledBack (replayed messages) count := by
  obtain ⟨before, ⟨after, hafter⟩, hcut, hbefore⟩ :=
    undoScan_replayed count ⟨none, 0, false⟩ messages.reverse hpos hle
  have hmessages : messages = before.reverse ++ after.reverse := by
    rw [← reverse_append, hafter, reverse_reverse]
  have htake : messages.take before.length = before.reverse := by
    rw [hmessages, ← length_reverse, take_left]
  rw [computeUndoCut, hcut, getD_some, htake, hbefore, reverse_reverse]

theorem rolledBack_append (hrest : ∀ m ∈ rest, isUndoAnchor m = false) {count : Nat} (hpos : 0 < count)
    (hle : count ≤ (replayed messages).checkpoints.length) :
    rolledBack (replayed (messages ++ rest)) count = rolledBack (replayed messages) count := by
  induction rest generalizing messages with
  | nil => rw [append_nil]
  | cons m rest ih =>
    have hanchor := hrest m mem_cons_self
    have hnext : count ≤ (replayed (messages ++ [m])).checkpoints.length := by
      rw [replayed_concat, reduce_other hanchor]
      exact hle
    rw [← rolledBack_other hanchor hpos hle, ← ih (fun m hm => hrest m (mem_cons_of_mem _ hm)) hnext,
      append_assoc, singleton_append]

/-! The conversation and the delivery model go together. -/

theorem isTracked_of_not_user (m : ContextMessage) (horigin : m.origin = none) (hrole : m.role ≠ .user) :
    isTracked m = false := by
  unfold isTracked isUndoAnchor taskKey
  rw [horigin, decide_eq_false hrole]
  rfl

def taskKeys (messages : List ContextMessage) : List NotificationKey := messages.filterMap taskKey

theorem taskKeys_filter (messages : List ContextMessage) :
    taskKeys (messages.filter isTracked) = taskKeys messages := by
  induction messages with
  | nil => rfl
  | cons m messages ih =>
    cases hm : isTracked m with
    | true =>
      rw [filter_cons_of_pos hm]
      unfold taskKeys at ih ⊢
      rw [filterMap_cons, filterMap_cons, ih]
    | false =>
      have hkey := not_isSome_iff_eq_none.mp (Bool.eq_false_iff.mp (Bool.or_eq_false_iff.mp hm).2)
      rw [filter_cons_of_neg (Bool.eq_false_iff.mp hm), ih]
      unfold taskKeys
      rw [filterMap_cons, hkey]

/-- The model of a conversation is what its messages make of it. -/
structure InStep (c : Conversation (List NotificationKey)) : Prop where
  follows : c.model = replayed c.context.recorded
  ordinary : ∀ m ∈ c.context.recorded, Ordinary m
  behind : DeferredBehind c.context
  genuine : ∀ key ∈ taskKeys c.context.recorded, ∃ info : NotifiableTask, info.key = key

theorem InStep.append (h : InStep c)
    (hm : Ordinary m) (hkey : ∀ key ∈ taskKey m, ∃ info : NotifiableTask, info.key = key) :
    InStep { context := foldAppendMessage c.context m
             model := c.model.reduce (some onAppendMessage) (.appendMessage m) } := by
  have hrecorded := recorded_append h.behind m
  constructor
  · rw [hrecorded, replayed_concat, ← h.follows]
  · intro x hx
    rw [hrecorded] at hx
    rcases mem_snoc.mp hx with hx | hx
    · exact h.ordinary x hx
    · exact hx ▸ hm
  · exact h.behind.applyRecord (.appendMessage m) rfl
  · intro key hin
    rw [hrecorded, taskKeys, filterMap_append] at hin
    rcases mem_append.mp hin with hin | hin
    · exact h.genuine key hin
    · obtain ⟨x, hx, hxkey⟩ := mem_filterMap.mp hin
      rw [mem_singleton.mp hx] at hxkey
      exact hkey key hxkey

theorem taskKeys_loopEvent (h : InStep c) (event : LoopRecordedEvent) :
    taskKeys (foldLoopEvent c.context event).recorded = taskKeys c.context.recorded := by
  rw [← taskKeys_filter, foldLoopEvent_filter h.behind h.ordinary isTracked_of_not_user event, taskKeys_filter]

theorem InStep.loopEvent (h : InStep c) (event : LoopRecordedEvent) :
    InStep { context := foldLoopEvent c.context event
             model := c.model.reduce (some onAppendMessage) (.appendLoopEvent event) } := by
  have hfilter := foldLoopEvent_filter h.behind h.ordinary isTracked_of_not_user event
  constructor
  · change c.model = replayed (foldLoopEvent c.context event).recorded
    rw [h.follows, ← replayed_filter, ← hfilter, replayed_filter]
  · exact foldLoopEvent_ordinary h.behind h.ordinary event
  · exact h.behind.foldLoopEvent event
  · intro key hin
    rw [taskKeys_loopEvent h event] at hin
    exact h.genuine key hin

theorem taskKeys_undo {count : Nat} (hvalid : isValidUndoCount count = true)
    (hcut : isFullyUndoable (computeUndoCut s.messages count) count = true) :
    (taskKeys (contextUndo s count).recorded).Sublist (taskKeys s.recorded) := by
  rw [recorded_undo hvalid hcut]
  apply List.Sublist.filterMap
  exact (take_sublist _ _).trans (sublist_append_left _ _)

theorem InStep.undo (h : InStep c) {count : Nat} (hvalid : isValidUndoCount count = true)
    (hcut : isFullyUndoable (computeUndoCut c.context.messages count) count = true)
    (hcheckpoints : count ≤ c.model.checkpoints.length)
    (hdeferred : ∀ m ∈ c.context.ctx.deferred, isUndoAnchor m = false) :
    InStep { context := contextUndo c.context count
             model := c.model.reduce (some onAppendMessage) (.undo count) } := by
  have hpos : 0 < count := (of_decide_eq_true hvalid).2
  have hle : count ≤ undoAnchors c.context.messages := (isFullyUndoable_iff c.context.messages hpos).mp hcut
  have hbefore : count ≤ (replayed c.context.messages).checkpoints.length := by
    have hback := anchorsBack_le c.context.messages.reverse
    rw [reverse_reverse] at hback
    exact le_trans hle hback
  have hrecorded := recorded_undo hvalid hcut
  constructor
  · change c.model.undo count = replayed (contextUndo c.context count).recorded
    rw [undo_eq_rolledBack hvalid hcheckpoints, hrecorded, replayed_cut c.context.messages hpos hle, h.follows,
      Folded.recorded, rolledBack_append hdeferred hpos hbefore]
  · intro m hm
    rw [hrecorded] at hm
    exact h.ordinary m (mem_append_left _ (mem_of_mem_take hm))
  · exact h.behind.applyRecord (.undo count) rfl
  · exact fun key hin => h.genuine key ((taskKeys_undo hvalid hcut).subset hin)

end Echadron.Task
