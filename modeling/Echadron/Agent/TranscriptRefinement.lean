import Echadron.Agent.ContextTranscript
import Echadron.Agent.LoopOrder
import Echadron.Agent.ContextMemoryService

namespace Echadron.Agent
open Lib List Option

section

def Shows (entries : List MutableEntry) (messages : List ContextMessage) : Prop :=
  entries.map MutableEntry.message = messages.map toMutableMessage

variable {entries entries' : List MutableEntry} {messages messages' base : List ContextMessage}
  {s : Folded} {t : ContextTranscriptReducer}

theorem Shows.append (h : Shows entries messages) (h' : Shows entries' messages') :
    Shows (entries ++ entries') (messages ++ messages') := by
  rw [Shows, map_append, map_append, h, h']

theorem Shows.length_eq (h : Shows entries messages) : entries.length = messages.length := by
  simpa using congrArg length h

theorem Shows.nil : Shows [] [] := rfl

/-- The step `uuid` is open in both: its assistant message and its entry stand at one place. -/
structure OpenAt (early : List MutableEntry) (base : List ContextMessage) (s : Folded)
    (t : ContextTranscriptReducer) (uuid : String) (preT postT : List MutableEntry)
    (e : MutableEntry) (preM postM : List ContextMessage) (a : ContextMessage) (ref : Nat) :
    Prop where
  transcript_eq : t.transcript = early ++ (preT ++ e :: postT)
  messages_eq : s.messages = base ++ (preM ++ a :: postM)
  pre_shows : Shows preT preM
  post_shows : Shows postT postM
  entry_shows : e.message = toMutableMessage a
  role_eq : a.role = .assistant
  is_open : isOpen a = true
  pre_none : NoneOpen preM
  post_none : NoneOpen postM
  entry_ref : e.stepRef = some ref
  others : ∀ x ∈ early ++ preT ++ postT, x.stepRef ≠ some ref
  open_get : t.openSteps.get uuid = some ref
  open_others : ∀ u, u ≠ uuid → t.openSteps.get u = none
  last_open : t.lastOpenStepUuid = some uuid

/-- No step is open in either. -/
structure ClosedAt (early : List MutableEntry) (base : List ContextMessage) (s : Folded)
    (t : ContextTranscriptReducer) (tailT : List MutableEntry) (tailM : List ContextMessage) :
    Prop where
  transcript_eq : t.transcript = early ++ tailT
  messages_eq : s.messages = base ++ tailM
  shows : Shows tailT tailM
  none_open : NoneOpen tailM
  open_none : ∀ u, t.openSteps.get u = none
  pending_nil : s.ctx.pending.keys = []

def AtStage (early : List MutableEntry) (base : List ContextMessage) (s : Folded)
    (t : ContextTranscriptReducer) : Option String → Prop
  | none => ∃ tailT tailM, ClosedAt early base s t tailT tailM
  | some uuid => ∃ preT postT e preM postM a ref,
      OpenAt early base s t uuid preT postT e preM postM a ref

/-- The transcript and the context agree on what was recorded since the last compaction or clear:
`base` is what that left in the context, `early` what the transcript holds from before. `shown` is
the step that is open in the context. -/
structure Agree (early : List MutableEntry) (base : List ContextMessage) (shown : Option String)
    (s : Folded) (t : ContextTranscriptReducer) : Prop where
  folded_eq : t.foldedLength = s.messages.length
  base_none : NoneOpen base
  pending_eq : t.pendingToolResultIds.keys = s.ctx.pending.keys
  deferred_shows : Shows t.deferred s.ctx.deferred
  deferred_nil : s.ctx.pending.keys = [] → s.ctx.deferred = []
  deferred_none : NoneOpen s.ctx.deferred
  deferred_ref : ∀ x ∈ t.deferred, x.stepRef = none
  refs_lt : ∀ x ∈ t.transcript, ∀ r, x.stepRef = some r → r < t.nextRef
  stage : AtStage early base s t shown

theorem Agree.start : Agree [] [] none .empty {} :=
  { folded_eq := rfl
    base_none := by simp [NoneOpen]
    pending_eq := rfl
    deferred_shows := rfl
    deferred_nil := fun _ => rfl
    deferred_none := by simp [NoneOpen, Folded.empty]
    deferred_ref := by simp
    refs_lt := by simp
    stage := ⟨[], [], rfl, rfl, rfl, by simp [NoneOpen], fun _ => rfl, rfl⟩ }

theorem AtStage.extend (h : AtStage early base s t shown) (hs : Shows entries messages)
    (hn : NoneOpen messages) (href : ∀ x ∈ entries, x.stepRef = none)
    (hmessages : s'.messages = s.messages ++ messages)
    (htranscript : t'.transcript = t.transcript ++ entries)
    (hpending : shown = none → s'.ctx.pending.keys = []) (hopen : t'.openSteps = t.openSteps)
    (hlast : t'.lastOpenStepUuid = t.lastOpenStepUuid) : AtStage early base s' t' shown := by
  cases shown with
  | none =>
    obtain ⟨tailT, tailM, h⟩ := h
    refine ⟨tailT ++ entries, tailM ++ messages, ?_, ?_, h.shows.append hs, ?_, ?_, hpending rfl⟩
    · rw [htranscript, h.transcript_eq, append_assoc]
    · rw [hmessages, h.messages_eq, append_assoc]
    · exact fun m hm => (mem_append.mp hm).elim (h.none_open m) (hn m)
    · rw [hopen]; exact h.open_none
  | some uuid =>
    obtain ⟨preT, postT, e, preM, postM, a, ref, h⟩ := h
    refine ⟨preT, postT ++ entries, e, preM, postM ++ messages, a, ref, { h with
      transcript_eq := by rw [htranscript, h.transcript_eq]; simp
      messages_eq := by rw [hmessages, h.messages_eq]; simp
      post_shows := h.post_shows.append hs
      post_none := fun m hm => (mem_append.mp hm).elim (h.post_none m) (hn m)
      others := ?_
      open_get := by rw [hopen]; exact h.open_get
      open_others := by rw [hopen]; exact h.open_others
      last_open := by rw [hlast]; exact h.last_open }⟩
    intro x hx
    rw [← append_assoc] at hx
    rcases mem_append.mp hx with hx | hx
    · exact h.others x hx
    · rw [href x hx]; exact nofun

theorem refs_lt_append (h : ∀ x ∈ t.transcript, ∀ r, x.stepRef = some r → r < n)
    (href : ∀ x ∈ entries, x.stepRef = none) :
    ∀ x ∈ t.transcript ++ entries, ∀ r, x.stepRef = some r → r < n := by
  intro x hx r hr
  rcases mem_append.mp hx with hx | hx
  · exact h x hx r hr
  · rw [href x hx] at hr; cases hr

theorem size_pos_iff (pending : JsSet String) : pending.size > 0 ↔ pending.keys ≠ [] := by
  rw [gt_iff_lt, Nat.pos_iff_ne_zero, Ne, JsMap.size_eq_zero_iff]

section

variable (h : Agree early base shown s t)
include h

theorem Agree.pending_closed : shown = none → s.ctx.pending.keys = [] := by
  rintro rfl
  obtain ⟨_, _, hc⟩ := h.stage
  exact hc.pending_nil

theorem Agree.extend (hs : Shows entries messages) (hn : NoneOpen messages) (href : ∀ x ∈ entries, x.stepRef = none)
    (hmessages : s'.messages = s.messages ++ messages)
    (htranscript : t'.transcript = t.transcript ++ entries)
    (hfolded : t'.foldedLength = t.foldedLength + entries.length)
    (hkeys : t'.pendingToolResultIds.keys = s'.ctx.pending.keys)
    (hdeferred : s'.ctx.deferred = [] ∧ t'.deferred = [] ∨
      s'.ctx.deferred = s.ctx.deferred ∧ t'.deferred = t.deferred ∧ s'.ctx.pending.keys ≠ [])
    (hpending : shown = none → s'.ctx.pending.keys = []) (hopen : t'.openSteps = t.openSteps)
    (hlast : t'.lastOpenStepUuid = t.lastOpenStepUuid) (hnext : t'.nextRef = t.nextRef) :
    Agree early base shown s' t' where
  folded_eq := by
    rw [hfolded, h.folded_eq, hmessages, length_append, hs.length_eq]
  base_none := h.base_none
  pending_eq := hkeys
  deferred_shows := by
    rcases hdeferred with ⟨hm, ht⟩ | ⟨hm, ht, _⟩
    · rw [hm, ht]; rfl
    · rw [hm, ht]; exact h.deferred_shows
  deferred_nil := fun he => hdeferred.elim And.left fun hd => absurd he hd.2.2
  deferred_none := by
    rcases hdeferred with ⟨hm, _⟩ | ⟨hm, _⟩
    · rw [hm]; simp [NoneOpen]
    · rw [hm]; exact h.deferred_none
  deferred_ref := by
    rcases hdeferred with ⟨_, ht⟩ | ⟨_, ht, _⟩
    · rw [ht]; simp
    · rw [ht]; exact h.deferred_ref
  refs_lt := by
    rw [htranscript, hnext]
    exact refs_lt_append h.refs_lt href
  stage := h.stage.extend hs hn href hmessages htranscript hpending hopen hlast

theorem Agree.deferred_entries_nil (hp : s.ctx.pending.keys = []) : t.deferred = [] := by
  have hd := h.deferred_shows
  rw [h.deferred_nil hp] at hd
  exact map_eq_nil_iff.mp hd

theorem Agree.appendMessage (hm : isOpen m = false) (time : Option Nat) :
    Agree early base shown (foldAppendMessage s m) (t.appendMessage m time) := by
  unfold foldAppendMessage ContextTranscriptReducer.appendMessage
  have hshows : Shows [toMutableEntry m time] [m] := rfl
  have hnone : NoneOpen [m] := fun x hx => by rw [mem_singleton.mp hx]; exact hm
  by_cases hp : s.ctx.pending.keys = []
  · rw [if_neg (by rw [size_pos_iff, hp]; simp), if_neg (by rw [size_pos_iff, h.pending_eq, hp]; simp)]
    exact h.extend hshows hnone (by simp [toMutableEntry]) rfl rfl rfl h.pending_eq
      (.inl ⟨h.deferred_nil hp, h.deferred_entries_nil hp⟩) (fun _ => hp) rfl rfl rfl
  · rw [if_pos (by rw [size_pos_iff]; exact hp), if_pos (by rw [size_pos_iff, h.pending_eq]; exact hp)]
    exact { h with
      deferred_shows := h.deferred_shows.append hshows
      deferred_nil := fun he => absurd he hp
      deferred_none := fun x hx => (mem_append.mp hx).elim (h.deferred_none x) (hnone x)
      deferred_ref := fun x hx => (mem_append.mp hx).elim (h.deferred_ref x) fun hx => by
        rw [mem_singleton.mp hx]; rfl
      stage := h.stage.extend .nil (by simp [NoneOpen]) (by simp) (append_nil _).symm
        (append_nil _).symm h.pending_closed rfl rfl }

end

theorem interrupted_shows (time : Option Nat) (ids : List String) :
    Shows (ids.map (interruptedEntry time)) (ids.map interruptedToolMessage) := by
  rw [Shows, List.map_map, List.map_map]
  rfl

theorem interrupted_none (ids : List String) : NoneOpen (ids.map interruptedToolMessage) := by
  intro m hm
  obtain ⟨i, _, rfl⟩ := mem_map.mp hm
  rfl

namespace ContextTranscriptReducer

theorem flush_deferred (hp : t.pendingToolResultIds.keys = []) :
    t.flushDeferredIfToolExchangeClosed = { t.push t.deferred with deferred := [] } := by
  unfold flushDeferredIfToolExchangeClosed
  by_cases hd : t.deferred.length = 0
  · have hnil := length_eq_zero_iff.mp hd
    cases t
    subst hnil
    simp [push]
  · rw [if_neg (by rw [size_pos_iff, hp]; simp [hd])]

theorem flush_pending (hp : t.pendingToolResultIds.keys ≠ []) : t.flushDeferredIfToolExchangeClosed = t := by
  rw [flushDeferredIfToolExchangeClosed, if_pos (.inl ((size_pos_iff _).mpr hp))]

end ContextTranscriptReducer

theorem Agree.closePending (h : Agree early base shown s t) (time : Option Nat) :
    Agree early base shown s.closePending (t.closePendingToolResults time) := by
  obtain ⟨hm, hk, hd⟩ := s.closePending_messages h.deferred_nil
  by_cases hp : s.ctx.pending.keys = []
  · have hs : s.closePending = s := by
      rw [Folded.closePending, if_pos ((JsMap.size_eq_zero_iff _).mpr hp)]
    have ht : t.closePendingToolResults time = t := by
      rw [ContextTranscriptReducer.closePendingToolResults,
        if_pos ((JsMap.size_eq_zero_iff _).mpr (h.pending_eq.trans hp))]
    rw [hs, ht]
    exact h
  · have ht : t.closePendingToolResults time =
        { t.push (s.ctx.pending.keys.map (interruptedEntry time) ++ t.deferred) with
          pendingToolResultIds := .empty
          deferred := [] } := by
      rw [ContextTranscriptReducer.closePendingToolResults,
        if_neg (mt (JsMap.size_eq_zero_iff _).mp (by rw [h.pending_eq]; exact hp)),
        ContextTranscriptReducer.flush_deferred rfl, h.pending_eq]
      simp [ContextTranscriptReducer.push, add_assoc]
    rw [ht]
    refine h.extend ((interrupted_shows time _).append h.deferred_shows) ?_ ?_ hm rfl rfl ?_
      (.inl ⟨hd, rfl⟩) (fun _ => hk) rfl rfl rfl
    · exact NoneOpen.append (interrupted_none _) h.deferred_none
    · intro x hx
      rcases mem_append.mp hx with hx | hx
      · obtain ⟨i, _, rfl⟩ := mem_map.mp hx
        rfl
      · exact h.deferred_ref x hx
    · exact hk.symm

theorem Agree.toolResult (h : Agree early base shown s t) (i : String) (result : LoopToolResult) (time : Option Nat) :
    Agree early base shown (foldLoopEvent s (.toolResult i result))
      (t.applyLoopEvent time (.toolResult i result)) := by
  rw [foldLoopEvent, ContextTranscriptReducer.applyLoopEvent]
  have hshows : Shows [toolResultEntry i result time] [toolResultMessage i result] := rfl
  have hnone : NoneOpen [toolResultMessage i result] := by simp [NoneOpen]; rfl
  by_cases hi : i ∈ s.ctx.pending.keys
  · rw [if_pos (by rw [JsMap.has_iff]; exact hi), if_pos (by rw [JsMap.has_iff, h.pending_eq]; exact hi)]
    have hkeys : (t.pendingToolResultIds.delete i).keys = (s.ctx.pending.delete i).keys := by
      rw [JsMap.keys_delete, JsMap.keys_delete, h.pending_eq]
    have hshown : shown = none → (s.ctx.pending.delete i).keys = [] := fun hn => by
      rw [h.pending_closed hn] at hi
      cases hi
    by_cases hp : (s.ctx.pending.delete i).keys = []
    · obtain ⟨hm, hd⟩ := Folded.flushDeferred_messages (s :=
        { messages := s.messages ++ [toolResultMessage i result]
          ctx := { s.ctx with pending := s.ctx.pending.delete i } }) hp
      rw [ContextTranscriptReducer.flush_deferred (hkeys.trans hp)]
      refine h.extend (hshows.append h.deferred_shows) (NoneOpen.append hnone h.deferred_none) ?_
        (by rw [hm, append_assoc]) (append_assoc _ _ _) ?_ ?_ (.inl ⟨hd, rfl⟩) ?_
        rfl rfl rfl
      · intro x hx
        rcases mem_append.mp hx with hx | hx
        · rw [mem_singleton.mp hx]; rfl
        · exact h.deferred_ref x hx
      · simp only [ContextTranscriptReducer.push, length_append]
        omega
      · rw [Folded.flushDeferred_pending]; exact hkeys
      · rw [Folded.flushDeferred_pending]; exact hshown
    · rw [Folded.flushDeferred_of_pending hp, ContextTranscriptReducer.flush_pending (by
        rw [show _ = _ from hkeys]; exact hp)]
      exact h.extend hshows hnone (by simp [toolResultEntry]) rfl rfl rfl hkeys
        (.inr ⟨rfl, rfl, hp⟩) hshown rfl rfl rfl
  · rw [if_neg (by rw [JsMap.has_iff]; exact hi), if_neg (by rw [JsMap.has_iff, h.pending_eq]; exact hi)]
    exact h

theorem map_isStepEntry_others (update : ContextMessage → ContextMessage) (h : ∀ x ∈ entries, x.stepRef ≠ some ref) :
    (entries.map fun entry => if ContextTranscriptReducer.isStepEntry ref entry then
      { entry with message := update entry.message } else entry) = entries := by
  refine (map_congr_left fun x hx => ?_).trans (map_id _)
  rw [ContextTranscriptReducer.isStepEntry, decide_eq_false (h x hx)]
  rfl

section

variable (h : OpenAt early base s t uuid preT postT e preM postM a ref)
include h

theorem OpenAt.others_early : ∀ x ∈ early, x.stepRef ≠ some ref := fun x hx =>
  h.others x (mem_append_left _ (mem_append_left _ hx))

theorem OpenAt.others_pre : ∀ x ∈ preT, x.stepRef ≠ some ref := fun x hx =>
  h.others x (mem_append_left _ (mem_append_right _ hx))

theorem OpenAt.others_post : ∀ x ∈ postT, x.stepRef ≠ some ref := fun x hx => h.others x (mem_append_right _ hx)

theorem OpenAt.update_transcript (update : ContextMessage → ContextMessage) :
    (t.updateStep ref update).transcript =
      early ++ (preT ++ { e with message := update e.message } :: postT) := by
  rw [ContextTranscriptReducer.updateStep, h.transcript_eq, map_append, map_append,
    map_cons, map_isStepEntry_others update h.others_early,
    map_isStepEntry_others update h.others_pre, map_isStepEntry_others update h.others_post,
    ContextTranscriptReducer.isStepEntry, decide_eq_true h.entry_ref]
  rfl

end

/-- A change that touches only what both sides show, and keeps the assistant message open. -/
structure Visible (update : ContextMessage → ContextMessage) : Prop where
  shows : ∀ m, toMutableMessage (update m) = update (toMutableMessage m)
  stays_open : ∀ m, isOpen (update m) = isOpen m
  same_role : ∀ m, (update m).role = m.role

theorem visible_pushContent (part : ContentPart) : Visible (pushContent part) :=
  ⟨fun _ => rfl, fun _ => rfl, fun _ => rfl⟩

theorem visible_pushCall (call : ToolCall) : Visible (pushCall call) := ⟨fun _ => rfl, fun _ => rfl, fun _ => rfl⟩

theorem Agree.update (h : Agree early base (some uuid) s t)
    {update : ContextMessage → ContextMessage} (hu : Visible update) :
    ∃ ref, t.openSteps.get uuid = some ref ∧ Agree early base (some uuid)
      { s with messages := appendToOpenAssistant s.messages update } (t.updateStep ref update) := by
  obtain ⟨preT, postT, e, preM, postM, a, ref, ho⟩ := h.stage
  have hmessages : appendToOpenAssistant s.messages update = base ++ (preM ++ update a :: postM) := by
    rw [ho.messages_eq, ← append_assoc, appendToOpen_eq ho.is_open ho.post_none, append_assoc]
  refine ⟨ref, ho.open_get, { h with
    folded_eq := ?_
    refs_lt := ?_
    stage := ⟨preT, postT, { e with message := update e.message }, preM, postM, update a, ref,
      { ho with
        transcript_eq := ho.update_transcript update
        messages_eq := hmessages
        entry_shows := by rw [hu.shows, ← ho.entry_shows]
        role_eq := by rw [hu.same_role]; exact ho.role_eq
        is_open := by rw [hu.stays_open]; exact ho.is_open }⟩ }⟩
  · rw [hmessages, show (t.updateStep ref update).foldedLength = t.foldedLength from rfl, h.folded_eq,
      ho.messages_eq]
    simp
  · intro x hx r hr
    rw [ho.update_transcript] at hx
    have hrefs := h.refs_lt
    rw [ho.transcript_eq] at hrefs
    rcases mem_append.mp hx with hx | hx
    · exact hrefs x (mem_append_left _ hx) r hr
    · rcases mem_append.mp hx with hx | hx
      · exact hrefs x (by simp [hx]) r hr
      · rcases mem_cons.mp hx with rfl | hx
        · exact hrefs e (by simp) r hr
        · exact hrefs x (by simp [hx]) r hr

theorem Agree.messages_none (h : Agree early base none s t) : NoneOpen s.messages := by
  obtain ⟨_, tailM, hc⟩ := h.stage
  rw [hc.messages_eq]
  exact NoneOpen.append h.base_none hc.none_open

theorem Agree.contentPart (h : Agree early base shown s t) (hshown : shown = none ∨ shown = some uuid)
    (part : ContentPart) (time : Option Nat) :
    Agree early base shown (foldLoopEvent s (.contentPart uuid part))
      (t.applyLoopEvent time (.contentPart uuid part)) := by
  rcases hshown with rfl | rfl
  · have hget : t.openSteps.get uuid = none := by
      obtain ⟨_, _, hc⟩ := h.stage
      exact hc.open_none uuid
    rw [foldLoopEvent, appendToOpen_none h.messages_none, ContextTranscriptReducer.applyLoopEvent, hget]
    exact h
  · obtain ⟨ref, hget, h'⟩ := h.update (visible_pushContent part)
    rw [ContextTranscriptReducer.applyLoopEvent, hget]
    exact h'

theorem Agree.toolCall (h : Agree early base (some uuid) s t) (i name : String)
    (args : Option Json) (extras : Option (List (String × Json))) (time : Option Nat) :
    Agree early base (some uuid) (foldLoopEvent s (.toolCall uuid i name args extras))
      (t.applyLoopEvent time (.toolCall uuid i name args extras)) := by
  obtain ⟨ref, hget, h'⟩ := h.update (visible_pushCall (recordedToolCall i name args extras))
  rw [ContextTranscriptReducer.applyLoopEvent, hget]
  have hne : (s.ctx.pending.set i ()).keys ≠ [] := ne_nil_of_mem ((JsMap.mem_keys_set _ i i ()).mpr (.inl rfl))
  exact { h' with
    pending_eq := JsMap.keys_set_congr h'.pending_eq i ()
    deferred_nil := fun he => absurd he hne
    stage := h'.stage.extend .nil (by simp [NoneOpen]) (by simp) (append_nil _).symm
      (append_nil _).symm (fun he => absurd he (some_ne_none uuid)) rfl rfl }

theorem eraseP_others (h : ∀ x ∈ entries, x.stepRef ≠ some ref) :
    ∀ x ∈ entries, ¬ ContextTranscriptReducer.isStepEntry ref x = true := fun x hx hp =>
  h x hx (of_decide_eq_true hp)

theorem OpenAt.find_entry (h : OpenAt early base s t uuid preT postT e preM postM a ref) :
    t.transcript.find? (ContextTranscriptReducer.isStepEntry ref) = some e := by
  have he : ContextTranscriptReducer.isStepEntry ref e = true := decide_eq_true h.entry_ref
  rw [h.transcript_eq, find?_append, find?_append, find?_cons_of_pos he,
    find?_eq_none.mpr (eraseP_others h.others_early),
    find?_eq_none.mpr (eraseP_others h.others_pre)]
  rfl

theorem OpenAt.erase_entry (h : OpenAt early base s t uuid preT postT e preM postM a ref) :
    t.transcript.eraseP (ContextTranscriptReducer.isStepEntry ref) = early ++ (preT ++ postT) := by
  have he : ContextTranscriptReducer.isStepEntry ref e = true := decide_eq_true h.entry_ref
  rw [h.transcript_eq, eraseP_append_right _ (eraseP_others h.others_early),
    eraseP_append_right _ (eraseP_others h.others_pre), eraseP_cons_of_pos he]

theorem isVacuousStep_toMutableMessage (m : ContextMessage) :
    isVacuousStep (toMutableMessage m) = isVacuousStep m := rfl

theorem OpenAt.settle_messages (h : OpenAt early base s t uuid preT postT e preM postM a ref) :
    Folded.sealOpen s.messages = base ++ (preM ++ (sealed a ++ postM)) := by
  rw [h.messages_eq, ← append_assoc, sealOpen_eq h.is_open h.post_none, append_assoc]

theorem Agree.settleStep (h : Agree early base (some uuid) s t) (hp : s.ctx.pending.keys = []) :
    Agree early base none { s with messages := Folded.sealOpen s.messages } (t.settleStep uuid) := by
  obtain ⟨preT, postT, e, preM, postM, a, ref, ho⟩ := h.stage
  have hvac : isVacuousStep e.message = isVacuousStep a := by
    rw [ho.entry_shows, isVacuousStep_toMutableMessage]
  have hget : ∀ u, (t.openSteps.delete uuid).get u = none := fun u => by
    by_cases hu : u = uuid
    · rw [hu, JsMap.get_delete_self]
    · rw [JsMap.get_delete_of_ne _ hu, ho.open_others u hu]
  have hsettle : t.settleStep uuid =
      if isVacuousStep a then
        { t with
          openSteps := t.openSteps.delete uuid
          transcript := early ++ (preT ++ postT)
          foldedLength := t.foldedLength - 1 }
      else { t with openSteps := t.openSteps.delete uuid } := by
    rw [ContextTranscriptReducer.settleStep, ho.open_get]
    dsimp only
    rw [ho.find_entry]
    dsimp only
    rw [hvac, ho.erase_entry]
  have hfolded := h.folded_eq
  rw [ho.messages_eq] at hfolded
  by_cases hv : isVacuousStep a = true
  · have hm : Folded.sealOpen s.messages = base ++ (preM ++ postM) := by
      rw [ho.settle_messages, sealed, if_pos hv, nil_append]
    rw [hsettle, if_pos hv]
    exact { h with
      folded_eq := by
        rw [hm]
        simp only [hfolded, length_append, length_cons]
        omega
      refs_lt := fun x hx r hr => by
        refine h.refs_lt x ?_ r hr
        rw [ho.transcript_eq]
        simp only [mem_append] at hx ⊢
        tauto
      stage := ⟨preT ++ postT, preM ++ postM, rfl, hm, ho.pre_shows.append ho.post_shows,
        NoneOpen.append ho.pre_none ho.post_none, hget, hp⟩ }
  · have hm : Folded.sealOpen s.messages = base ++ (preM ++ { a with isPartial := none } :: postM) := by
      rw [ho.settle_messages, sealed, if_neg hv, singleton_append]
    have hentry : Shows (e :: postT) ({ a with isPartial := none } :: postM) := by
      rw [Shows, map_cons, ho.entry_shows, ho.post_shows]
      rfl
    rw [hsettle, if_neg hv]
    refine { h with
      folded_eq := by rw [hm]; simpa using hfolded
      stage := ⟨preT ++ e :: postT, preM ++ { a with isPartial := none } :: postM,
        ho.transcript_eq, hm, ho.pre_shows.append hentry, ?_, hget, hp⟩ }
    refine NoneOpen.append ho.pre_none fun x hx => ?_
    rcases mem_cons.mp hx with rfl | hx
    · rfl
    · exact ho.post_none x hx

theorem Agree.settleStep_none (h : Agree early base none s t) (uuid : String) :
    { s with messages := Folded.sealOpen s.messages } = s ∧ t.settleStep uuid = t := by
  refine ⟨by rw [sealOpen_none h.messages_none], ?_⟩
  obtain ⟨_, _, hc⟩ := h.stage
  rw [ContextTranscriptReducer.settleStep, hc.open_none uuid]

theorem Agree.settleLast (h : Agree early base shown s t) (hp : s.ctx.pending.keys = []) :
    Agree early base none { s with messages := Folded.sealOpen s.messages } t.settleLast := by
  unfold ContextTranscriptReducer.settleLast
  cases shown with
  | none =>
    have hs := h.settleStep_none
    rw [(hs "").1]
    split
    · exact h
    · rename_i uuid _
      rw [(hs uuid).2]
      exact h
  | some uuid =>
    have hlast : t.lastOpenStepUuid = some uuid := by
      obtain ⟨_, _, _, _, _, _, _, ho⟩ := h.stage
      exact ho.last_open
    rw [hlast]
    exact h.settleStep hp

theorem Agree.beginStep (h : Agree early base none s t) (uuid : String) (time : Option Nat) :
    Agree early base (some uuid)
      { s.setOpenStep (some uuid) with messages := s.messages ++ [partialAssistant] }
      (t.beginStep uuid time) := by
  obtain ⟨tailT, tailM, hc⟩ := h.stage
  have hnext : ∀ x ∈ t.transcript, x.stepRef ≠ some t.nextRef := fun x hx hr =>
    lt_irrefl _ (h.refs_lt x hx _ hr)
  exact { h with
    folded_eq := by
      simp only [ContextTranscriptReducer.beginStep, ContextTranscriptReducer.push, h.folded_eq,
        length_append, length_singleton]
    refs_lt := fun x hx r hr => by
      rcases mem_snoc.mp hx with hx | hx
      · exact Nat.lt_succ_of_lt (h.refs_lt x hx r hr)
      · rw [hx] at hr
        cases hr
        exact Nat.lt_succ_self _
    stage := ⟨tailT, [], _, tailM, [], partialAssistant, t.nextRef,
      { transcript_eq := by
          rw [ContextTranscriptReducer.beginStep, ContextTranscriptReducer.push, hc.transcript_eq, append_assoc]
        messages_eq := by rw [hc.messages_eq, append_assoc]
        pre_shows := hc.shows
        post_shows := .nil
        entry_shows := rfl
        role_eq := rfl
        is_open := rfl
        pre_none := hc.none_open
        post_none := by simp [NoneOpen]
        entry_ref := rfl
        others := by rw [append_nil, ← hc.transcript_eq]; exact hnext
        open_get := JsMap.get_set_self _ _ _
        open_others := fun u hu => by
          rw [ContextTranscriptReducer.beginStep, JsMap.get_set_of_ne _ _ hu, hc.open_none u]
        last_open := rfl }⟩ }

theorem Agree.stepBegin (h : Agree early base shown s t) (uuid : String) (time : Option Nat) :
    Agree early base (some uuid) (foldLoopEvent s (.stepBegin uuid))
      (t.applyLoopEvent time (.stepBegin uuid)) := by
  have hp := (s.closePending_messages h.deferred_nil).2.1
  exact ((h.closePending time).settleLast hp).beginStep uuid time

theorem Agree.stepEnd (h : Agree early base shown s t) (hshown : shown = none ∨ shown = some uuid)
    (hp : s.ctx.pending.keys = []) (time : Option Nat) :
    Agree early base none (foldLoopEvent s (.stepEnd uuid))
      (t.applyLoopEvent time (.stepEnd uuid)) := by
  have hclosed : Agree early base none { s with messages := Folded.sealOpen s.messages }
      (t.settleStep uuid) := by
    rcases hshown with rfl | rfl
    · rw [(h.settleStep_none uuid).1, (h.settleStep_none uuid).2]
      exact h
    · exact h.settleStep hp
  have hs : foldLoopEvent s (.stepEnd uuid) =
      Folded.setOpenStep { s with messages := Folded.sealOpen s.messages } none := by
    rw [foldLoopEvent_stepEnd h.deferred_nil, Folded.settleOpenStep, Folded.closePending,
      if_pos ((JsMap.size_eq_zero_iff _).mpr hp)]
  have hend : ((t.settleStep uuid).endStep uuid).flushDeferredIfToolExchangeClosed =
      (t.settleStep uuid).endStep uuid := by
    have hd : ((t.settleStep uuid).endStep uuid).deferred = [] := by
      rw [show ((t.settleStep uuid).endStep uuid).deferred = (t.settleStep uuid).deferred by
        unfold ContextTranscriptReducer.endStep; split <;> rfl]
      exact hclosed.deferred_entries_nil hp
    rw [ContextTranscriptReducer.flushDeferredIfToolExchangeClosed, if_pos (.inr (by rw [hd]; rfl))]
  rw [hs, ContextTranscriptReducer.applyLoopEvent, hend]
  unfold ContextTranscriptReducer.endStep
  obtain ⟨tailT, tailM, hc⟩ := hclosed.stage
  split
  · exact { hclosed with stage := ⟨tailT, tailM, { hc with }⟩ }
  · exact { hclosed with stage := ⟨tailT, tailM, { hc with }⟩ }

end

structure JournalRecord where
  record : ContextRecord
  time : Option Nat := none

/-- A journal read by both folds, and by the order in which the loop emits its events. The first
`kept` messages of the context stem from the last compaction. -/
structure Journaled where
  order : LoopOrder := {}
  context : Folded := .empty
  transcript : ContextTranscriptReducer := {}
  kept : Nat := 0

/-- The loop ends a step only when each of its calls has a result. -/
def LoopOrder.emits (o : LoopOrder) (e : LoopRecordedEvent) : Option LoopOrder :=
  match e with
  | .stepEnd _ => if ∀ i ∈ o.calls, i ∈ o.answered then o.event e else none
  | _ => o.event e

def LoopOrder.next (o : LoopOrder) : ContextRecord → Option LoopOrder
  | .appendLoopEvent e => o.emits e
  | _ => some o

namespace Journaled

def keptAfter (kept : Nat) (context : Folded) : ContextRecord → Nat
  | .clear => 0
  | .applyCompaction _ => context.messages.length
  | .undo _ => min kept context.messages.length
  | _ => kept

def step (st : Journaled) (r : JournalRecord) : Option Journaled := do
  let order ← st.order.next r.record
  let context ← applyRecord st.context r.record
  return {
    order := order
    context := context
    transcript := st.transcript.add r.time r.record
    kept := keptAfter st.kept context r.record }

def run (journal : List JournalRecord) : Option Journaled := journal.foldlM step {}

end Journaled

/-- Every record of a run meets a condition on the state before it. -/
def Along (P : Journaled → ContextRecord → Prop) : Journaled → List JournalRecord → Prop
  | _, [] => True
  | st, r :: rs => P st r.record ∧ ∀ st' ∈ st.step r, Along P st' rs

instance Along.decidable (P : Journaled → ContextRecord → Prop) [∀ st r, Decidable (P st r)]
    (st : Journaled) : (journal : List JournalRecord) → Decidable (Along P st journal)
  | [] => isTrue trivial
  | r :: rs =>
    have := fun st' => Along.decidable P st' rs
    inferInstanceAs (Decidable (P st r.record ∧ ∀ st' ∈ st.step r, Along P st' rs))

def isToolCallRecord : ContextRecord → Bool
  | .appendLoopEvent (.toolCall ..) => true
  | _ => false

def CallShown (st : Journaled) (r : ContextRecord) : Prop :=
  isToolCallRecord r = true → findOpenAssistantIndex st.context.messages ≠ none

instance (st : Journaled) (r : ContextRecord) : Decidable (CallShown st r) :=
  inferInstanceAs (Decidable (isToolCallRecord r = true → _ ≠ none))

structure Synced (early : List MutableEntry) (base : List ContextMessage)
    (shown : Option String) (st : Journaled) : Prop where
  agree : Agree early base shown st.context st.transcript
  shown_open : shown = none ∨ shown = st.order.openStep
  unanswered : ∀ i ∈ st.context.ctx.pending.keys, i ∈ st.order.calls ∧ i ∉ st.order.answered

theorem Synced.start : Synced [] [] none {} := ⟨Agree.start, .inl rfl, fun _ hi => absurd hi not_mem_nil⟩

variable {st st' : Journaled} {early : List MutableEntry} {base : List ContextMessage}
  {shown : Option String} {o o' : LoopOrder}

theorem pending_stepBegin (h : Agree early base shown s t) (uuid : String) :
    (foldLoopEvent s (.stepBegin uuid)).ctx.pending.keys = [] :=
  (s.settleOpenStep_spec h.deferred_nil).2.1

theorem pending_stepEnd (h : Agree early base shown s t) (uuid : String) :
    (foldLoopEvent s (.stepEnd uuid)).ctx.pending.keys = [] := by
  rw [foldLoopEvent_stepEnd h.deferred_nil]
  exact (s.settleOpenStep_spec h.deferred_nil).2.1

theorem mem_pending_toolResult (s : Folded) (i : String) (result : LoopToolResult)
    (h : j ∈ (foldLoopEvent s (.toolResult i result)).ctx.pending.keys) :
    j ∈ s.ctx.pending.keys ∧ j ≠ i := by
  rw [foldLoopEvent] at h
  by_cases hi : i ∈ s.ctx.pending.keys
  · rw [if_pos (by rw [JsMap.has_iff]; exact hi), Folded.flushDeferred_pending] at h
    exact ((JsMap.mem_keys_delete _ _ _).mp h).symm
  · rw [if_neg (by rw [JsMap.has_iff]; exact hi)] at h
    constructor
    · exact h
    · rintro rfl
      exact hi h

theorem Synced.loopEvent (h : Synced early base shown st) (e : LoopRecordedEvent)
    (ho : st.order.emits e = some o') (hcall : CallShown st (.appendLoopEvent e))
    (time : Option Nat) :
    ∃ shown', Synced early base shown'
      { order := o'
        context := foldLoopEvent st.context e
        transcript := st.transcript.applyLoopEvent time e
        kept := st.kept } := by
  have hopen : ∀ uuid, st.order.openStep = some uuid → shown = none ∨ shown = some uuid := by
    intro uuid hu
    rw [← hu]
    exact h.shown_open
  cases e with
  | stepBegin uuid =>
    cases ho
    refine ⟨some uuid, h.agree.stepBegin uuid time, .inr rfl, ?_⟩
    intro i hi
    rw [pending_stepBegin h.agree] at hi
    cases hi
  | stepEnd uuid =>
    obtain ⟨hall, he⟩ := ite_none_right_eq_some.mp ho
    obtain ⟨hu, rfl⟩ := ite_some_none_eq_some.mp he
    have hp : st.context.ctx.pending.keys = [] := by
      apply eq_nil_iff_forall_not_mem.mpr
      intro i hi
      exact (h.unanswered i hi).2 (hall i (h.unanswered i hi).1)
    refine ⟨none, h.agree.stepEnd (hopen uuid hu) hp time, .inl rfl, ?_⟩
    intro i hi
    rw [pending_stepEnd h.agree] at hi
    cases hi
  | contentPart uuid part =>
    obtain ⟨hu, rfl⟩ := ite_some_none_eq_some.mp ho
    exact ⟨shown, h.agree.contentPart (hopen uuid hu) part time, h.shown_open, h.unanswered⟩
  | toolCall uuid i name args extras =>
    obtain ⟨⟨hu, hanswered, _⟩, rfl⟩ := ite_some_none_eq_some.mp ho
    have hshown : shown = some uuid := by
      rcases hopen uuid hu with hnone | hsome
      · subst hnone
        exact absurd (findOpen_eq_none h.agree.messages_none) (hcall rfl)
      · exact hsome
    subst hshown
    refine ⟨some uuid, h.agree.toolCall i name args extras time, .inr hu.symm, ?_⟩
    intro j hj
    rcases (JsMap.mem_keys_set _ _ _ _).mp hj with rfl | hj
    · exact ⟨by simp, by rw [hanswered]; exact not_mem_nil⟩
    · exact ⟨mem_append_left _ (h.unanswered j hj).1, (h.unanswered j hj).2⟩
  | toolResult i result =>
    have hsame : o'.openStep = st.order.openStep ∧ o'.calls = st.order.calls ∧
        ∀ j, j ∈ o'.answered → j ∈ st.order.answered ∨ j = i := by
      have ho' : st.order.event (.toolResult i result) = some o' := ho
      rw [LoopOrder.event] at ho'
      split at ho'
      · cases ho'
        exact ⟨rfl, rfl, fun j hj => by simpa using hj⟩
      · cases ho'
        exact ⟨rfl, rfl, fun j hj => .inl hj⟩
    refine ⟨shown, h.agree.toolResult i result time, ?_, ?_⟩
    · rw [hsame.1]
      exact h.shown_open
    · intro j hj
      obtain ⟨hj', hne⟩ := mem_pending_toolResult _ _ _ hj
      obtain ⟨hcalls, hans⟩ := h.unanswered j hj'
      rw [hsame.2.1]
      refine ⟨hcalls, ?_⟩
      intro hj''
      rcases hsame.2.2 j hj'' with hmem | he
      · exact hans hmem
      · exact hne he

theorem Synced.appendMessage (h : Synced early base shown st) (hm : isOpen m = false) (time : Option Nat) :
    Synced early base shown
      { order := st.order
        context := foldAppendMessage st.context m
        transcript := st.transcript.appendMessage m time
        kept := st.kept } := by
  refine ⟨h.agree.appendMessage hm time, h.shown_open, ?_⟩
  intro i hi
  apply h.unanswered i
  unfold foldAppendMessage at hi
  split at hi <;> exact hi

/-- Both sides go on from a cut of what they held, with nothing open, pending or deferred. -/
theorem Synced.reset
    (hmessages : s.messages = base ++ tailM) (hbase : NoneOpen base) (htail : NoneOpen tailM)
    (hkeys : s.ctx.pending.keys = []) (hdeferred : s.ctx.deferred = [])
    (ht : t.transcript = early ++ tailT) (hshows : Shows tailT tailM)
    (hfolded : t.foldedLength = s.messages.length) (hopen : t.openSteps = .empty)
    (hpending : t.pendingToolResultIds = .empty) (htd : t.deferred = [])
    (hrefs : ∀ x ∈ t.transcript, ∀ r, x.stepRef = some r → r < t.nextRef) (o : LoopOrder)
    (kept : Nat) :
    Synced early base none { order := o, context := s, transcript := t, kept := kept } where
  agree :=
    { folded_eq := hfolded
      base_none := hbase
      pending_eq := by rw [hkeys, hpending]; rfl
      deferred_shows := by rw [hdeferred, htd]; rfl
      deferred_nil := fun _ => hdeferred
      deferred_none := by rw [hdeferred]; simp [NoneOpen]
      deferred_ref := by rw [htd]; simp
      refs_lt := hrefs
      stage := ⟨tailT, tailM, ht, hmessages, hshows, htail, by rw [hopen]; exact fun _ => rfl, hkeys⟩ }
  shown_open := .inl rfl
  unanswered := fun i hi => by rw [hkeys] at hi; cases hi

theorem Agree.empty_context (h : Agree early base shown s t) (hm : s.messages = []) :
    s.ctx.pending.keys = [] ∧ s.ctx.deferred = [] := by
  have hp : s.ctx.pending.keys = [] := by
    cases shown with
    | none => exact h.pending_closed rfl
    | some uuid =>
      obtain ⟨_, _, _, _, _, _, _, ho⟩ := h.stage
      rw [ho.messages_eq] at hm
      simp at hm
  exact ⟨hp, h.deferred_nil hp⟩

theorem Synced.clear (h : Synced early base shown st) (time : Option Nat) :
    Synced st.transcript.transcript [] none
      { order := st.order
        context := contextClear st.context
        transcript := st.transcript.add time .clear
        kept := 0 } := by
  have hc : (contextClear st.context).messages = [] ∧
      (contextClear st.context).ctx.pending.keys = [] ∧ (contextClear st.context).ctx.deferred = [] := by
    unfold contextClear
    split
    · rename_i hl
      have hm := length_eq_zero_iff.mp hl
      exact ⟨hm, h.agree.empty_context hm⟩
    · exact ⟨rfl, rfl, rfl⟩
  have hnone : NoneOpen [] := by simp [NoneOpen]
  exact Synced.reset (t := st.transcript.add time .clear) hc.1 hnone hnone hc.2.1 hc.2.2
    (append_nil _).symm .nil (by rw [hc.1]; rfl) rfl rfl rfl h.agree.refs_lt _ _

/-! Journals of appended messages, loop events and clears. -/

def isPlainRecord : ContextRecord → Bool
  | .appendMessage _ | .appendLoopEvent _ | .clear => true
  | _ => false

def appendsClosed : ContextRecord → Bool
  | .appendMessage m => !isOpen m
  | _ => true

theorem Shows.of_agree (h : Agree early base shown s t) :
    ∃ tailT tailM, t.transcript = early ++ tailT ∧ s.messages = base ++ tailM ∧ Shows tailT tailM := by
  cases shown with
  | none =>
    obtain ⟨tailT, tailM, hc⟩ := h.stage
    exact ⟨tailT, tailM, hc.transcript_eq, hc.messages_eq, hc.shows⟩
  | some uuid =>
    obtain ⟨preT, postT, e, preM, postM, a, ref, ho⟩ := h.stage
    have hentry : Shows (e :: postT) (a :: postM) := by
      rw [Shows, map_cons, map_cons, ho.entry_shows, ho.post_shows]
    exact ⟨_, _, ho.transcript_eq, ho.messages_eq, ho.pre_shows.append hentry⟩

section

variable (t : ContextTranscriptReducer)

theorem ContextTranscriptReducer.clearFloor_settleStep (uuid : String) : (t.settleStep uuid).clearFloor = t.clearFloor := by
  unfold settleStep
  split
  · rfl
  · dsimp only
    split
    · rfl
    · split <;> rfl

theorem ContextTranscriptReducer.clearFloor_flush :
    t.flushDeferredIfToolExchangeClosed.clearFloor = t.clearFloor := by
  unfold flushDeferredIfToolExchangeClosed
  split <;> rfl

theorem ContextTranscriptReducer.clearFloor_applyLoopEvent (time : Option Nat) (e : LoopRecordedEvent) :
    (t.applyLoopEvent time e).clearFloor = t.clearFloor := by
  cases e with
  | stepBegin uuid =>
    have hlast : ∀ t : ContextTranscriptReducer, t.settleLast.clearFloor = t.clearFloor := by
      intro t
      unfold settleLast
      split
      · rfl
      · exact clearFloor_settleStep t _
    have hclose : (t.closePendingToolResults time).clearFloor = t.clearFloor := by
      unfold closePendingToolResults
      split
      · rfl
      · exact clearFloor_flush _
    exact (hlast _).trans hclose
  | stepEnd uuid =>
    have hend : ∀ t : ContextTranscriptReducer, (t.endStep uuid).clearFloor = t.clearFloor := by
      intro t
      unfold endStep
      split <;> rfl
    exact (clearFloor_flush _).trans ((hend _).trans (clearFloor_settleStep t uuid))
  | contentPart stepUuid part =>
    rw [applyLoopEvent]
    split <;> rfl
  | toolCall stepUuid i name args extras =>
    rw [applyLoopEvent]
    split <;> rfl
  | toolResult i result =>
    rw [applyLoopEvent]
    split
    · exact clearFloor_flush _
    · rfl

theorem ContextTranscriptReducer.clearFloor_appendMessage (m : ContextMessage) (time : Option Nat) :
    (t.appendMessage m time).clearFloor = t.clearFloor := by
  unfold appendMessage
  split <;> rfl

end

theorem step_inv (h : st.step r = some st') :
    ∃ o' s', st.order.next r.record = some o' ∧ applyRecord st.context r.record = some s' ∧ st' =
        { order := o'
          context := s'
          transcript := st.transcript.add r.time r.record
          kept := Journaled.keptAfter st.kept s' r.record } := by
  obtain ⟨o', ho, h⟩ := bind_eq_some_iff.mp h
  obtain ⟨s', hs, h⟩ := bind_eq_some_iff.mp h
  exact ⟨o', s', ho, hs, (some.inj h).symm⟩

/-- Both folds agree on everything since the last clear. -/
def ClearSynced (st : Journaled) : Prop :=
  ∃ early shown, Synced early [] shown st ∧ early.length = st.transcript.clearFloor

theorem ClearSynced.step (h : ClearSynced st)
    (hplain : isPlainRecord r.record = true) (happend : appendsClosed r.record = true)
    (hcall : CallShown st r.record) (hst : st.step r = some st') : ClearSynced st' := by
  obtain ⟨early, shown, hsync, hfloor⟩ := h
  obtain ⟨o', s', ho, hs, rfl⟩ := step_inv hst
  obtain ⟨record, time⟩ := r
  cases record with
  | appendMessage m =>
    cases ho
    cases hs
    have hm : isOpen m = false := by simpa [appendsClosed] using happend
    refine ⟨early, shown, hsync.appendMessage hm time, ?_⟩
    rw [hfloor]
    exact (st.transcript.clearFloor_appendMessage m time).symm
  | appendLoopEvent e =>
    cases hs
    obtain ⟨shown', hsync'⟩ := hsync.loopEvent e ho hcall time
    refine ⟨early, shown', hsync', ?_⟩
    rw [hfloor]
    exact (st.transcript.clearFloor_applyLoopEvent time e).symm
  | clear =>
    cases ho
    cases hs
    exact ⟨_, none, hsync.clear time, rfl⟩
  | applyCompaction payload => cases hplain
  | undo count => cases hplain
  | swarmModeExit => cases hplain

theorem ClearSynced.run (h : ClearSynced st) (journal : List JournalRecord)
    (hplain : ∀ r ∈ journal, isPlainRecord r.record = true ∧ appendsClosed r.record = true)
    (hcalls : Along CallShown st journal) (hst : journal.foldlM Journaled.step st = some st') :
    ClearSynced st' := by
  induction journal generalizing st with
  | nil =>
    cases hst
    exact h
  | cons r journal ih =>
    obtain ⟨st₁, h₁, hst⟩ := bind_eq_some_iff.mp hst
    obtain ⟨hp, ha⟩ := hplain r mem_cons_self
    apply ih (h.step hp ha hcalls.1 h₁)
    · intro r' hr'
      exact hplain r' (mem_cons_of_mem _ hr')
    · exact hcalls.2 st₁ h₁
    · exact hst

structure ShowsContext (st : Journaled) : Prop where
  shows : Shows (st.transcript.transcript.drop st.transcript.clearFloor) st.context.messages
  folded_eq : st.transcript.foldedLength = st.context.messages.length

theorem ClearSynced.showsContext (h : ClearSynced st) : ShowsContext st := by
  obtain ⟨early, shown, hsync, hfloor⟩ := h
  obtain ⟨tailT, tailM, ht, hm, hshows⟩ := Shows.of_agree hsync.agree
  constructor
  · rw [ht, ← hfloor, drop_left, hm]
    exact hshows
  · exact hsync.agree.folded_eq

/-- While no clear has taken away the step that a tool call belongs to, the transcript shows the
context. -/
theorem transcript_showsContext (journal : List JournalRecord) (st : Journaled)
    (hrun : Journaled.run journal = some st)
    (hplain : ∀ r ∈ journal, isPlainRecord r.record = true ∧ appendsClosed r.record = true)
    (hcalls : Along CallShown {} journal) : ShowsContext st := by
  have hstart : ClearSynced {} := ⟨[], none, Synced.start, rfl⟩
  exact (hstart.run journal hplain hcalls hrun).showsContext

def plainCall : LoopRecordedEvent := .toolCall "u" "x" "t" none none

def plainResult : LoopRecordedEvent := .toolResult "x" { output := .inl "ok" }

/-- The history is cleared while the step waits for the model's response. -/
def clearedJournal : List JournalRecord :=
  [⟨.appendLoopEvent (.stepBegin "u"), none⟩, ⟨.clear, none⟩, ⟨.appendLoopEvent plainCall, none⟩,
    ⟨.appendLoopEvent plainResult, none⟩]

/-- The context folds the result of the call; the transcript, which lost the step, does not. -/
theorem clearedJournal_diverges : ∃ st, Journaled.run clearedJournal = some st ∧
      (∀ r ∈ clearedJournal, isPlainRecord r.record = true ∧ appendsClosed r.record = true) ∧
      ¬ ShowsContext st := by
  have hrun : ∃ st, Journaled.run clearedJournal = some st := ⟨_, rfl⟩
  obtain ⟨st, hst⟩ := hrun
  refine ⟨st, hst, by decide, ?_⟩
  intro h
  have hlength := h.folded_eq
  cases hst
  revert hlength
  decide

def clearedLateJournal : List JournalRecord :=
  [⟨.appendLoopEvent (.stepBegin "u"), none⟩, ⟨.appendLoopEvent plainCall, none⟩, ⟨.clear, none⟩,
    ⟨.appendLoopEvent plainResult, none⟩]

theorem transcript_showsContext_clearedLate : ∃ st, Journaled.run clearedLateJournal = some st ∧ ShowsContext st := by
  have hrun : ∃ st, Journaled.run clearedLateJournal = some st := ⟨_, rfl⟩
  obtain ⟨st, hst⟩ := hrun
  exact ⟨st, hst, transcript_showsContext clearedLateJournal st hst (by decide) (by decide)⟩

end Echadron.Agent
