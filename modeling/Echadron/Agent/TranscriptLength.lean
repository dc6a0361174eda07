import Echadron.Agent.ContextReplay
import Echadron.Agent.TranscriptRefinement

namespace Echadron.Agent
open Lib
open List hiding count

variable {st st' : Journaled} {early : List MutableEntry} {base : List ContextMessage}
  {shown : Option String}

def mergeLiveTail (t : ContextTranscriptReducer) (contextMessages : List ContextMessage) : List ContextMessage :=
  if contextMessages.length ≤ t.foldedLength then t.transcript.map MutableEntry.message
  else t.transcript.map MutableEntry.message ++ contextMessages.drop t.foldedLength

/-- What the agent writes: the service records an undo only if it is fully undoable, and a
compaction with the counts that it computed. -/
def Written (st : Journaled) : ContextRecord → Prop
  | .appendMessage m => isOpen m = false
  | .undo count => isValidUndoCount count = true ∧
      isFullyUndoable (computeUndoCut st.context.messages count) count = true
  | .applyCompaction payload => ∃ input : ContextCompactionInput,
      input.keptUserMessageCount = none ∧ input.keptHeadUserMessageCount = none ∧
      payload = compactionPayload input
        (buildContextCompactionShape st.context.messages input.toShapeInput)
  | _ => True

def undoIndex (st : Journaled) (count : Nat) : Nat := (computeUndoCut st.context.messages count).cutIndex.getD 0

/-- The undone messages were all appended since the last compaction, no injection stands among
them after the oldest undone prompt, and no partial message is left. -/
structure UndoClean (st : Journaled) (count : Nat) : Prop where
  since_kept : st.kept ≤ undoIndex st count
  no_injection : ∀ m ∈ (st.context.messages.drop (undoIndex st count)).dropWhile isInjection,
    isInjection m = false
  none_open : ∀ m ∈ st.context.messages.take (undoIndex st count), isOpen m = false

/-- A provider's replacement window has one message more than it has user messages. -/
structure ReplacementClean (messages : List ContextMessage) : Prop where
  length_eq : messages.length = (messages.filter fun message => decide (message.role = .user)).length + 1
  none_open : ∀ m ∈ messages, isOpen m = false

def Predicted (st : Journaled) : ContextRecord → Prop
  | .appendLoopEvent e => CallShown st (.appendLoopEvent e)
  | .undo count => UndoClean st count
  | .applyCompaction payload =>
    ∀ messages, payload.replacementMessages = some messages → ReplacementClean messages
  | .swarmModeExit => ∀ last, st.context.messages.getLast? = some last →
      isSwarmModeReminder last = false
  | _ => True

/-! Compaction. -/

theorem isOpen_replaceMessageText (m : ContextMessage) (text : String) :
    isOpen (replaceMessageText m text) = isOpen m := rfl

theorem noneOpen_handoff (history : List ContextMessage) (input : ContextCompactionShapeInput)
    (h : ∀ m ∈ history, m.role = .user → isOpen m = false) :
    NoneOpen (handoffShape history input).messages := by
  have hcompactable : ∀ m ∈ collectCompactableUserMessages history, isOpen m = false := by
    intro m hm
    obtain ⟨hm, hkeep⟩ := mem_filter.mp hm
    apply h m hm
    rw [Bool.and_eq_true, isRealUserInput, Bool.and_eq_true] at hkeep
    exact of_decide_eq_true hkeep.1.1
  have hcut : ∀ m text, isOpen m = false → isOpen (replaceMessageText m text) = false := by
    intro m text hm
    rw [isOpen_replaceMessageText, hm]
  obtain ⟨hhead, htail⟩ := forall_selectCompactionUserMessages hcut hcompactable
  intro m hm
  rcases mem_snoc.mp hm with hm | hm
  · rcases mem_append.mp hm with hm | hm
    · rcases mem_append.mp hm with hm | hm
      · exact hhead m hm
      · split at hm
        · rw [mem_singleton.mp hm]; rfl
        · cases hm
    · exact htail m hm
  · rw [hm]; rfl

theorem length_handoff (history : List ContextMessage) (input : ContextCompactionShapeInput)
    (hkept : input.keptUserMessageCount = none) (hhead : input.keptHeadUserMessageCount = none) :
    (handoffShape history input).messages.length = (handoffShape history input).keptUserMessageCount +
        if (handoffShape history input).keptHeadUserMessageCount.isNone then 1 else 2 := by
  simp only [handoffShape, length_append, length_singleton, length_keptMessages, hkept,
    hhead, Option.getD_none]
  by_cases he : (selectCompactionUserMessages (collectCompactableUserMessages history)).elided = true
  · simp [he]
  · simp [he]

theorem recoverFoldedLength_payload (history : List ContextMessage)
    (input : ContextCompactionInput) (hkept : input.keptUserMessageCount = none)
    (hhead : input.keptHeadUserMessageCount = none)
    (hclean : ∀ messages, input.replacementMessages = some messages → ReplacementClean messages)
    (transcript : List MutableEntry) (clearFloor foldedLength : Nat) :
    recoverFoldedLength
        (compactionPayload input (buildContextCompactionShape history input.toShapeInput))
        transcript clearFloor foldedLength =
      (buildContextCompactionShape history input.toShapeInput).messages.length := by
  cases hr : input.replacementMessages with
  | some messages =>
    have hlength := (hclean messages hr).length_eq
    simp only [recoverFoldedLength, compactionPayload, buildContextCompactionShape,
      ContextCompactionInput.toShapeInput, hr, replacementShape, hkept, hhead, Option.getD_none,
      Option.isNone_none, ↓reduceIte]
    exact hlength.symm
  | none =>
    have hshape : buildContextCompactionShape history input.toShapeInput =
        handoffShape history input.toShapeInput := by
      simp only [ContextCompactionInput.toShapeInput, hr]
      rfl
    rw [hshape, length_handoff history input.toShapeInput hkept hhead]
    rfl

theorem Agree.user_closed (h : Agree early base shown s t) : ∀ m ∈ s.messages, m.role = .user → isOpen m = false := by
  intro m hm hrole
  cases shown with
  | none => exact h.messages_none m hm
  | some uuid =>
    obtain ⟨preT, postT, e, preM, postM, a, ref, ho⟩ := h.stage
    rw [ho.messages_eq] at hm
    rcases mem_append.mp hm with hm | hm
    · exact h.base_none m hm
    · rcases mem_append.mp hm with hm | hm
      · exact ho.pre_none m hm
      · rcases mem_cons.mp hm with rfl | hm
        · rw [ho.role_eq] at hrole
          cases hrole
        · exact ho.post_none m hm

/-- What the transcript holds from before ends where an undo stops: at the floor of the last clear
or with a compaction summary. -/
def Anchored (early : List MutableEntry) (clearFloor : Nat) : Prop :=
  early.length = clearFloor ∨ ∃ pre x, early = pre ++ [x] ∧ isCompactionSummaryMessage x.message = true ∧
      clearFloor ≤ pre.length

theorem Anchored.floor_le (h : Anchored early clearFloor) : clearFloor ≤ early.length := by
  rcases h with h | ⟨pre, x, rfl, _, hle⟩
  · exact le_of_eq h.symm
  · rw [length_append]
    exact Nat.le_trans hle (Nat.le_add_right _ _)

/-- The two folds agree, up to what a compaction or a clear put apart. -/
def LengthSynced (st : Journaled) : Prop :=
  ∃ early base shown, Synced early base shown st ∧ base.length = st.kept ∧ Anchored early st.transcript.clearFloor

theorem LengthSynced.compaction (h : LengthSynced st) (input : ContextCompactionInput)
    (hkept : input.keptUserMessageCount = none) (hhead : input.keptHeadUserMessageCount = none)
    (hclean : ∀ messages, input.replacementMessages = some messages → ReplacementClean messages)
    (hmessages : messages = (buildContextCompactionShape st.context.messages input.toShapeInput).messages)
    (hpayload : payload = compactionPayload input
      (buildContextCompactionShape st.context.messages input.toShapeInput))
    (time : Option Nat) :
    LengthSynced
      { order := st.order
        context := resetFold messages
        transcript := st.transcript.applyCompaction payload time
        kept := messages.length } := by
  obtain ⟨early, base, shown, hsync, _, hanchored⟩ := h
  obtain ⟨tailT, _, ht, _, _⟩ := Shows.of_agree hsync.agree
  have hnone : NoneOpen messages := by
    rw [hmessages]
    cases hr : input.replacementMessages with
    | some messages =>
      simp only [ContextCompactionInput.toShapeInput, hr]
      exact (hclean messages hr).none_open
    | none =>
      simp only [ContextCompactionInput.toShapeInput, hr]
      exact noneOpen_handoff _ _ hsync.agree.user_closed
  have hfolded : (st.transcript.applyCompaction payload time).foldedLength = messages.length := by
    rw [hmessages, ← recoverFoldedLength_payload st.context.messages input hkept hhead hclean
      (st.transcript.applyCompaction payload time).transcript st.transcript.clearFloor
      st.transcript.foldedLength, ← hpayload]
    rfl
  have hrefs : ∀ x ∈ (st.transcript.applyCompaction payload time).transcript, ∀ r,
      x.stepRef = some r → r < st.transcript.nextRef := by
    intro x hx r hr
    rcases mem_snoc.mp hx with hx | hx
    · exact hsync.agree.refs_lt x hx r hr
    · rw [hx] at hr
      cases hr
  have hnil : NoneOpen [] := by simp [NoneOpen]
  refine ⟨(st.transcript.applyCompaction payload time).transcript, messages, none, ?_, rfl, ?_⟩
  · exact Synced.reset (s := resetFold messages) (append_nil _).symm hnone hnil rfl rfl (append_nil _).symm .nil
      hfolded rfl rfl rfl hrefs _ _
  · apply Or.inr
    refine ⟨st.transcript.transcript, _, rfl, rfl, ?_⟩
    rw [ht, length_append]
    exact Nat.le_trans hanchored.floor_le (Nat.le_add_right _ _)

/-- The messages that an undo of `count` prompts passes before it comes to the oldest of them. -/
structure PassedOver (count : Nat) (post : List ContextMessage) : Prop where
  not_summary : ∀ m ∈ post, isInjection m = false → isCompactionSummaryMessage m = false
  anchors : (post.filter isUndoAnchor).length + 1 = count

theorem PassedOver.skip (h : PassedOver count post) (hanchor : isUndoAnchor m = false)
    (hsummary : isInjection m = false → isCompactionSummaryMessage m = false) :
    PassedOver count (m :: post) := by
  constructor
  · intro x hx
    rcases mem_cons.mp hx with rfl | hx
    · exact hsummary
    · exact h.not_summary x hx
  · rw [filter_cons_of_neg (by rw [hanchor]; exact Bool.false_ne_true)]
    exact h.anchors

theorem PassedOver.anchor (h : PassedOver count post) (hanchor : isUndoAnchor m = true)
    (hsummary : isCompactionSummaryMessage m = false) : PassedOver (count + 1) (m :: post) := by
  constructor
  · intro x hx
    rcases mem_cons.mp hx with rfl | hx
    · exact fun _ => hsummary
    · exact h.not_summary x hx
  · rw [filter_cons_of_pos hanchor, length_cons, h.anchors]

/-- The oldest prompt that an undo removes, with what stands before and after it in the reversed
history. -/
structure OldestUndone (count : Nat) (messages post : List ContextMessage)
    (anchor : ContextMessage) (before : List ContextMessage) : Prop where
  messages_eq : messages = post ++ anchor :: before
  passed : PassedOver count post
  is_anchor : isUndoAnchor anchor = true
  not_summary : isCompactionSummaryMessage anchor = false

theorem undoScan_full (remaining : Nat) (cut : UndoCut) (messages : List ContextMessage)
    (hfull : (undoScan (remaining + 1) cut messages).removedCount ≥
      cut.removedCount + (remaining + 1)) :
    ∃ post anchor before, OldestUndone (remaining + 1) messages post anchor before ∧
      (undoScan (remaining + 1) cut messages).cutIndex =
        some (before.dropWhile fun m => isPromptOwnedInjection m anchor).length := by
  induction messages generalizing remaining cut with
  | nil => exact absurd (show cut.removedCount + (remaining + 1) ≤ cut.removedCount from hfull) (by omega)
  | cons m messages ih =>
    have hskip : isUndoAnchor m = false → (isInjection m = false → isCompactionSummaryMessage m = false) →
        undoScan (remaining + 1) cut (m :: messages) = undoScan (remaining + 1) cut messages →
        ∃ post anchor before, OldestUndone (remaining + 1) (m :: messages) post anchor before ∧
          (undoScan (remaining + 1) cut (m :: messages)).cutIndex =
            some (before.dropWhile fun m => isPromptOwnedInjection m anchor).length := by
      intro hanchor hsummary hscan
      rw [hscan] at hfull ⊢
      obtain ⟨post, anchor, before, ho, hcut⟩ := ih remaining cut hfull
      refine ⟨m :: post, anchor, before, ?_, hcut⟩
      exact { ho with
        messages_eq := by rw [ho.messages_eq, cons_append]
        passed := ho.passed.skip hanchor hsummary }
    have hne : remaining + 1 ≠ 0 := Nat.succ_ne_zero remaining
    cases hinjection : isInjection m with
    | true =>
      apply hskip
      · cases ha : isUndoAnchor m with
        | false => rfl
        | true => rw [not_isInjection_of_isUndoAnchor ha] at hinjection; cases hinjection
      · intro hn
        rw [hn] at hinjection
        cases hinjection
      · rw [undoScan, if_neg hne, if_pos hinjection]
    | false =>
      have hni : ¬ isInjection m = true := by rw [hinjection]; exact Bool.false_ne_true
      cases hsummary : isCompactionSummaryMessage m with
      | true =>
        rw [undoScan, if_neg hni, if_pos hsummary] at hfull
        exact absurd (show cut.removedCount + (remaining + 1) ≤ cut.removedCount from hfull)
          (by omega)
      | false =>
        have hns : ¬ isCompactionSummaryMessage m = true := by
          rw [hsummary]; exact Bool.false_ne_true
        cases hanchor : isUndoAnchor m with
        | false =>
          apply hskip hanchor (fun _ => hsummary)
          rw [undoScan, if_neg hne, if_neg hni, if_neg hns, if_neg (by rw [hanchor]; exact Bool.false_ne_true)]
        | true =>
          rw [undoScan, if_neg hne, if_neg hni, if_neg hns, if_pos hanchor, Nat.add_sub_cancel] at hfull ⊢
          cases remaining with
          | zero =>
            refine ⟨[], m, messages, ⟨rfl, ⟨by simp, rfl⟩, hanchor, hsummary⟩, ?_⟩
            rw [undoScan_zero]
          | succ remaining =>
            obtain ⟨post, anchor, before, ho, hcut⟩ := ih remaining _ (by
              refine le_trans ?_ hfull
              dsimp only
              omega)
            refine ⟨m :: post, anchor, before, ?_, hcut⟩
            exact { ho with
              messages_eq := by rw [ho.messages_eq, cons_append]
              passed := ho.passed.anchor hanchor hsummary }

theorem undoEntries_full (count removed : Nat) (post : List MutableEntry) (anchor : MutableEntry)
    (before : List MutableEntry)
    (hinjection : ∀ e ∈ post, isInjection e.message = false)
    (hsummary : ∀ e ∈ post, isCompactionSummaryMessage e.message = false)
    (hcount : removed + (post.filter fun e => isUndoAnchor e.message).length + 1 = count)
    (hanchor : isUndoAnchor anchor.message = true)
    (hanchor' : isCompactionSummaryMessage anchor.message = false) :
    ContextTranscriptReducer.undoEntries count removed [] (post ++ anchor :: before) =
      (before.dropWhile fun e => isPromptOwnedInjection e.message anchor.message).reverse := by
  induction post generalizing removed with
  | nil =>
    have hge : removed + 1 ≥ count := le_of_eq hcount.symm
    simp only [nil_append, ContextTranscriptReducer.undoEntries, not_isInjection_of_isUndoAnchor hanchor, hanchor',
      hanchor, hge, ↓reduceIte, Bool.false_eq_true, append_nil]
  | cons e post ih =>
    obtain ⟨hi, hinjection⟩ := forall_mem_cons.mp hinjection
    obtain ⟨hs, hsummary⟩ := forall_mem_cons.mp hsummary
    cases ha : isUndoAnchor e.message with
    | false =>
      rw [filter_cons_of_neg (by simp [ha])] at hcount
      simp only [cons_append, ContextTranscriptReducer.undoEntries, hi, hs, ha, ↓reduceIte,
        Bool.false_eq_true]
      exact ih removed hinjection hsummary hcount
    | true =>
      rw [filter_cons_of_pos (by exact ha), length_cons] at hcount
      have hlt : ¬ removed + 1 ≥ count := by omega
      simp only [cons_append, ContextTranscriptReducer.undoEntries, hi, hs, ha, hlt, ↓reduceIte,
        Bool.false_eq_true]
      apply ih (removed + 1) hinjection hsummary
      omega

theorem dropWhile_append_stop {xs ys : List α} (h : ys.dropWhile p = ys) :
    (xs ++ ys).dropWhile p = xs.dropWhile p ++ ys := by
  rw [dropWhile_append, h]
  split
  · rename_i he
    rw [isEmpty_iff.mp he, nil_append]
  · rfl

theorem dropWhile_append_long {xs ys : List α} (h : ys.length ≤ ((xs ++ ys).dropWhile p).length) :
    (xs ++ ys).dropWhile p = xs.dropWhile p ++ ys := by
  rw [dropWhile_append] at h ⊢
  split
  · rename_i he
    rw [if_pos he] at h
    rw [isEmpty_iff.mp he]
    exact (dropWhile_suffix p).eq_of_length_le h
  · rfl

theorem Shows.reverse (h : Shows entries messages) : Shows entries.reverse messages.reverse := by
  rw [Shows, map_reverse, map_reverse, h]

theorem Shows.split (h : Shows entries (messages ++ messages')) :
    ∃ xs ys, entries = xs ++ ys ∧ Shows xs messages ∧ Shows ys messages' := by
  rw [Shows, map_append] at h
  exact map_eq_append_iff.mp h

theorem Shows.split_cons (h : Shows entries (m :: messages)) :
    ∃ x xs, entries = x :: xs ∧ x.message = toMutableMessage m ∧ Shows xs messages := by
  exact map_eq_cons_iff.mp h

theorem Shows.dropWhile (h : Shows entries messages) (p : ContextMessage → Bool)
    (hp : ∀ m, p (toMutableMessage m) = p m) :
    Shows (entries.dropWhile fun e => p e.message) (messages.dropWhile p) := by
  have he : (entries.dropWhile fun e => p e.message).map MutableEntry.message =
      (entries.map MutableEntry.message).dropWhile p := by
    rw [dropWhile_map]
    rfl
  have hm : p ∘ toMutableMessage = p := funext hp
  rw [Shows, he, h, dropWhile_map, hm]

theorem Shows.forall_of (h : Shows entries messages) {P : ContextMessage → Prop}
    (hm : ∀ m ∈ messages, P (toMutableMessage m)) : ∀ e ∈ entries, P e.message := by
  intro e he
  have hmem : e.message ∈ entries.map MutableEntry.message := mem_map_of_mem he
  rw [show entries.map MutableEntry.message = _ from h] at hmem
  obtain ⟨m, hm', heq⟩ := mem_map.mp hmem
  rw [← heq]
  exact hm m hm'

theorem Shows.length_filter (h : Shows entries messages) (p : ContextMessage → Bool)
    (hp : ∀ m, p (toMutableMessage m) = p m) :
    (entries.filter fun e => p e.message).length = (messages.filter p).length := by
  have he : (entries.filter fun e => p e.message).map MutableEntry.message =
      (entries.map MutableEntry.message).filter p := by
    rw [filter_map]
    rfl
  have hm : p ∘ toMutableMessage = p := funext hp
  rw [← length_map MutableEntry.message, he, h, filter_map, length_map, hm]

/-- An undo does not reach below a floor or a compaction summary. -/
theorem Anchored.stops (h : Anchored early clearFloor) (prompt : ContextMessage) :
    (early.drop clearFloor).reverse.dropWhile
      (fun e => isPromptOwnedInjection e.message prompt) = (early.drop clearFloor).reverse := by
  rcases h with h | ⟨pre, x, rfl, hx, hle⟩
  · rw [drop_of_length_le (le_of_eq h)]
    rfl
  · rw [drop_append_of_le_length hle, reverse_append, reverse_singleton,
      singleton_append, dropWhile_cons_of_neg]
    rw [not_isPromptOwnedInjection_of_summary hx]
    exact Bool.false_ne_true

/-- What an undo cuts off, and what it leaves of the messages since the last compaction. -/
theorem OldestUndone.cut (h : OldestUndone count (base ++ tailM).reverse post anchor before)
    (hkept : base.length ≤ (before.dropWhile fun m => isPromptOwnedInjection m anchor).length) :
    ∃ since, tailM.reverse = post ++ anchor :: since ∧
      before.dropWhile (fun m => isPromptOwnedInjection m anchor) =
        since.dropWhile (fun m => isPromptOwnedInjection m anchor) ++ base.reverse := by
  have hlength : base.reverse.length ≤ before.length := by
    rw [length_reverse]
    exact le_trans hkept (dropWhile_suffix _).length_le
  have hbase : base.reverse <:+ post ++ anchor :: before := by
    rw [← h.messages_eq, reverse_append]
    exact suffix_append _ _
  have hbefore : before <:+ post ++ anchor :: before :=
    (suffix_cons anchor before).trans (suffix_append _ _)
  obtain ⟨since, rfl⟩ := suffix_of_suffix_length_le hbase hbefore hlength
  refine ⟨since, ?_, ?_⟩
  · apply (append_left_inj base.reverse).mp
    rw [← reverse_append, h.messages_eq]
    simp
  · apply dropWhile_append_long
    rw [length_reverse]
    exact hkept

theorem OldestUndone.take {messages before : List ContextMessage}
    (h : OldestUndone count messages.reverse post anchor before)
    (p : ContextMessage → Bool) :
    messages.take (before.dropWhile p).length = (before.dropWhile p).reverse ∧
      messages.drop (before.dropWhile p).length = (before.takeWhile p).reverse ++ anchor :: post.reverse := by
  have hm : messages = (before.dropWhile p).reverse ++
      ((before.takeWhile p).reverse ++ anchor :: post.reverse) := by
    rw [← reverse_reverse messages, h.messages_eq, reverse_append, reverse_cons,
      ← append_assoc, ← reverse_append, takeWhile_append_dropWhile]
    simp
  rw [← length_reverse]
  constructor
  · conv_lhs => rw [hm]
    exact take_left
  · conv_lhs => rw [hm]
    exact drop_left

theorem applyUndo_shows {t : ContextTranscriptReducer} (ht : t.transcript = early ++ tailT)
    (hshows : Shows tailT tailM) (hanchored : Anchored early t.clearFloor)
    (hpassed : PassedOver (count + 1) post) (hanchor : isUndoAnchor anchor = true)
    (hsummary : isCompactionSummaryMessage anchor = false)
    (htail : tailM.reverse = post ++ anchor :: since)
    (hinjection : ∀ m ∈ post, isInjection m = false) :
    ∃ newT, (t.applyUndo (count + 1)).transcript = early ++ newT ∧ newT <+: tailT ∧
      Shows newT (since.dropWhile fun m => isPromptOwnedInjection m anchor).reverse ∧
      (t.applyUndo (count + 1)).foldedLength = t.foldedLength - (tailT.length - newT.length) := by
  have hrev := hshows.reverse
  rw [htail] at hrev
  obtain ⟨postT, restT, hT, hpost, hrest⟩ := hrev.split
  obtain ⟨anchorT, sinceT, rfl, ha, hsince⟩ := hrest.split_cons
  have hinjectionT : ∀ e ∈ postT, isInjection e.message = false :=
    hpost.forall_of (P := fun m => isInjection m = false) hinjection
  have hnotT : ∀ e ∈ postT, isCompactionSummaryMessage e.message = false := by
    apply hpost.forall_of (P := fun m => isCompactionSummaryMessage m = false)
    intro m hm
    exact hpassed.not_summary m hm (hinjection m hm)
  have hfloor := hanchored.floor_le
  have hdrop : t.transcript.drop t.clearFloor = early.drop t.clearFloor ++ tailT := by
    rw [ht, drop_append_of_le_length hfloor]
  have hundo : ContextTranscriptReducer.undoEntries (count + 1) 0 []
      (t.transcript.drop t.clearFloor).reverse = early.drop t.clearFloor ++
          (sinceT.dropWhile fun e => isPromptOwnedInjection e.message anchorT.message).reverse := by
    rw [hdrop, reverse_append, hT, append_assoc, cons_append,
      undoEntries_full (count + 1) 0 postT anchorT _ hinjectionT hnotT ?_
        (by rw [ha]; exact hanchor) (by rw [ha]; exact hsummary),
      dropWhile_append_stop (hanchored.stops anchorT.message), reverse_append,
      reverse_reverse]
    rw [hpost.length_filter isUndoAnchor fun _ => rfl, zero_add]
    exact hpassed.anchors
  refine ⟨(sinceT.dropWhile fun e => isPromptOwnedInjection e.message anchorT.message).reverse, ?_, ?_, ?_, ?_⟩
  · show t.transcript.take t.clearFloor ++ _ = _
    rw [hundo, ht, take_append_of_le_length hfloor, ← append_assoc, take_append_drop]
  · rw [← reverse_suffix, reverse_reverse, hT]
    apply (dropWhile_suffix _).trans
    exact (suffix_cons _ _).trans (suffix_append _ _)
  · apply Shows.reverse
    rw [ha]
    exact hsince.dropWhile (fun m => isPromptOwnedInjection m anchor) fun _ => rfl
  · show t.foldedLength - (_ - _) = _
    rw [hundo, hdrop, length_append, length_append, Nat.add_sub_add_left]

theorem LengthSynced.undo (h : LengthSynced st) (hvalid : isValidUndoCount count = true)
    (hfull : isFullyUndoable (computeUndoCut st.context.messages count) count = true)
    (hclean : UndoClean st count) :
    LengthSynced
      { order := st.order
        context := contextUndo st.context count
        transcript := st.transcript.applyUndo count
        kept := min st.kept (contextUndo st.context count).messages.length } := by
  obtain ⟨early, base, shown, hsync, hkept, hanchored⟩ := h
  obtain ⟨tailT, tailM, ht, hm, hshows⟩ := Shows.of_agree hsync.agree
  obtain ⟨remaining, rfl⟩ : ∃ remaining, count = remaining + 1 :=
    Nat.exists_eq_add_one_of_ne_zero (Nat.ne_of_gt (of_decide_eq_true hvalid).2)
  obtain ⟨hsome, hremoved⟩ := (Bool.and_eq_true _ _).mp hfull
  obtain ⟨post, anchor, before, ho, hcut⟩ := undoScan_full remaining ⟨none, 0, false⟩
    st.context.messages.reverse (by rw [zero_add]; exact of_decide_eq_true hremoved)
  obtain ⟨htake, hdrop⟩ := ho.take fun m => isPromptOwnedInjection m anchor
  have hindex : undoIndex st (remaining + 1) =
      (before.dropWhile fun m => isPromptOwnedInjection m anchor).length := by
    rw [undoIndex, computeUndoCut, hcut]
    rfl
  have hinjection : ∀ m ∈ post, isInjection m = false := by
    intro m hmem
    have hskip := hclean.no_injection m
    rw [hindex, hdrop, dropWhile_append_of_pos, dropWhile_cons_of_neg] at hskip
    · exact hskip (mem_cons_of_mem _ (mem_reverse.mpr hmem))
    · rw [not_isInjection_of_isUndoAnchor ho.is_anchor]
      exact Bool.false_ne_true
    · intro x hx
      apply isInjection_of_isPromptOwnedInjection
      exact mem_takeWhile_imp (p := fun m => isPromptOwnedInjection m anchor)
        (mem_reverse.mp hx)
  have hlong := hclean.since_kept
  rw [hindex, ← hkept] at hlong
  have ho' := ho
  rw [hm] at ho'
  obtain ⟨since, htail, hbefore⟩ := ho'.cut hlong
  obtain ⟨newT, hnewT, hbegin, hnewshows, hfolded⟩ := applyUndo_shows ht hshows hanchored ho.passed
    ho.is_anchor ho.not_summary htail hinjection
  have hcontext : contextUndo st.context (remaining + 1) =
      resetFold (st.context.messages.take (undoIndex st (remaining + 1))) := by
    have hne : st.context.messages.length ≠ 0 := by
      rw [← length_reverse, ho.messages_eq, length_append, length_cons]
      omega
    rw [contextUndo, if_neg (by rw [hvalid]; simp [hne]), if_pos hfull]
    rfl
  have hnew : st.context.messages.take (undoIndex st (remaining + 1)) =
      base ++ (since.dropWhile fun m => isPromptOwnedInjection m anchor).reverse := by
    rw [hindex, htake, hbefore, reverse_append, reverse_reverse]
  have hnone := hclean.none_open
  rw [hnew] at hnone
  rw [hcontext, hnew]
  refine ⟨early, base, none, ?_, ?_, hanchored⟩
  · refine Synced.reset (s := resetFold _) rfl (fun m hm => hnone m (mem_append_left _ hm))
      (fun m hm => hnone m (mem_append_right _ hm)) rfl rfl hnewT hnewshows ?_ rfl rfl rfl
      ?_ _ _
    · have hle := hbegin.length_le
      rw [hfolded, hsync.agree.folded_eq, hm]
      simp only [resetFold, length_append, hshows.length_eq, hnewshows.length_eq] at hle ⊢
      omega
    · intro x hx
      apply hsync.agree.refs_lt x
      rw [hnewT] at hx
      rw [ht]
      rcases mem_append.mp hx with hx | hx
      · exact mem_append_left _ hx
      · exact mem_append_right _ (hbegin.subset hx)
  · show base.length = min st.kept (base ++ _).length
    rw [← hkept, length_append]
    exact (Nat.min_eq_left (Nat.le_add_right _ _)).symm

theorem LengthSynced.clear (h : LengthSynced st) (time : Option Nat) : LengthSynced
      { order := st.order
        context := contextClear st.context
        transcript := st.transcript.add time .clear
        kept := 0 } := by
  obtain ⟨early, base, shown, hsync, _, _⟩ := h
  exact ⟨st.transcript.transcript, [], none, hsync.clear time, rfl, .inl rfl⟩

theorem popSwarmModeReminder_of_not (s : Folded)
    (h : ∀ last, s.messages.getLast? = some last → isSwarmModeReminder last = false) :
    popSwarmModeReminder s = s := by
  unfold popSwarmModeReminder
  split
  · rfl
  · rename_i last hlast
    rw [h last hlast]
    rfl

theorem LengthSynced.step (h : LengthSynced st) (hwritten : Written st r.record)
    (hpredicted : Predicted st r.record) (hst : st.step r = some st') : LengthSynced st' := by
  obtain ⟨o', s', ho, hs, rfl⟩ := step_inv hst
  obtain ⟨record, time⟩ := r
  cases record with
  | appendMessage m =>
    cases ho
    cases hs
    obtain ⟨early, base, shown, hsync, hkept, hanchored⟩ := h
    refine ⟨early, base, shown, hsync.appendMessage hwritten time, hkept, ?_⟩
    rw [← st.transcript.clearFloor_appendMessage m time] at hanchored
    exact hanchored
  | appendLoopEvent e =>
    cases hs
    obtain ⟨early, base, shown, hsync, hkept, hanchored⟩ := h
    obtain ⟨shown', hsync'⟩ := hsync.loopEvent e ho hpredicted time
    refine ⟨early, base, shown', hsync', hkept, ?_⟩
    rw [← st.transcript.clearFloor_applyLoopEvent time e] at hanchored
    exact hanchored
  | clear =>
    cases ho
    cases hs
    exact h.clear time
  | applyCompaction payload =>
    cases ho
    obtain ⟨input, hkept, hhead, rfl⟩ := hwritten
    have hs' := (contextApplyCompaction_payload st.context input).symm.trans hs
    cases hs'
    exact h.compaction input hkept hhead hpredicted rfl rfl time
  | undo count =>
    cases ho
    cases hs
    exact h.undo hwritten.1 hwritten.2 hpredicted
  | swarmModeExit =>
    cases ho
    cases hs
    rw [popSwarmModeReminder_of_not st.context hpredicted]
    exact h

theorem LengthSynced.run (h : LengthSynced st) (journal : List JournalRecord)
    (hwritten : Along Written st journal) (hpredicted : Along Predicted st journal)
    (hst : journal.foldlM Journaled.step st = some st') : LengthSynced st' := by
  induction journal generalizing st with
  | nil =>
    cases hst
    exact h
  | cons r journal ih =>
    obtain ⟨st₁, h₁, hst⟩ := Option.bind_eq_some_iff.mp hst
    apply ih (h.step hwritten.1 hpredicted.1 h₁)
    · exact hwritten.2 st₁ h₁
    · exact hpredicted.2 st₁ h₁
    · exact hst

/-- The transcript tells where the live context goes on from the journal. -/
structure TailMerged (st : Journaled) : Prop where
  folded_eq : st.transcript.foldedLength = st.context.messages.length
  merge_eq : ∀ newer, mergeLiveTail st.transcript (st.context.messages ++ newer) =
    st.transcript.transcript.map MutableEntry.message ++ newer

theorem mergeLiveTail_append
    (h : t.foldedLength = messages.length) (newer : List ContextMessage) :
    mergeLiveTail t (messages ++ newer) = t.transcript.map MutableEntry.message ++ newer := by
  rw [mergeLiveTail, h, drop_left, length_append]
  split
  · have hnil : newer = [] := length_eq_zero_iff.mp (by omega)
    rw [hnil, append_nil]
  · rfl

/-- While the transcript can predict what each record does, the live tail neither loses nor repeats
a message. -/
theorem transcript_tailMerged (journal : List JournalRecord) (st : Journaled)
    (hrun : Journaled.run journal = some st) (hwritten : Along Written {} journal)
    (hpredicted : Along Predicted {} journal) : TailMerged st := by
  have hstart : LengthSynced {} := ⟨[], [], none, Synced.start, rfl, .inl rfl⟩
  obtain ⟨_, _, _, hsync, _, _⟩ := hstart.run journal hwritten hpredicted hrun
  constructor
  · exact hsync.agree.folded_eq
  · exact mergeLiveTail_append hsync.agree.folded_eq

def undonePrompt : ContextMessage := { role := .user, content := [.text "hi"], origin := some .user }

def planReminder : ContextMessage :=
  { role := .user, content := [.text "plan"], origin := some (.injection "plan_mode" none) }

def remindedJournal : List JournalRecord :=
  [⟨.appendMessage undonePrompt, none⟩, ⟨.appendMessage planReminder, none⟩, ⟨.undo 1, none⟩]

/-- The undo removes the reminder too; the transcript keeps it. -/
theorem remindedJournal_diverges :
    ∃ st, Journaled.run remindedJournal = some st ∧ Along Written {} remindedJournal ∧ ¬ TailMerged st := by
  have hrun : ∃ st, Journaled.run remindedJournal = some st := ⟨_, rfl⟩
  obtain ⟨st, hst⟩ := hrun
  refine ⟨st, hst, ?_, ?_⟩
  · refine ⟨rfl, ?_⟩
    rintro _ ⟨⟩
    refine ⟨rfl, ?_⟩
    rintro _ ⟨⟩
    exact ⟨⟨by decide, by decide⟩, fun _ _ => trivial⟩
  · intro h
    have hlength := h.folded_eq
    cases hst
    revert hlength
    decide

def handoffInput : ContextCompactionInput := { summary := "done", compactedCount := 1, tokensBefore := 10 }

def compactedJournal : List JournalRecord :=
  [⟨.appendMessage undonePrompt, none⟩, ⟨.applyCompaction (compactionPayload handoffInput
      (buildContextCompactionShape [undonePrompt] handoffInput.toShapeInput)), none⟩,
    ⟨.appendMessage undonePrompt, none⟩, ⟨.undo 1, none⟩, ⟨.swarmModeExit, none⟩]

theorem transcript_tailMerged_compacted : ∃ st, Journaled.run compactedJournal = some st ∧ TailMerged st := by
  have hrun : ∃ st, Journaled.run compactedJournal = some st := ⟨_, rfl⟩
  obtain ⟨st, hst⟩ := hrun
  refine ⟨st, hst, transcript_tailMerged compactedJournal st hst ?_ ?_⟩
  · refine ⟨rfl, ?_⟩
    rintro _ ⟨⟩
    refine ⟨⟨handoffInput, rfl, rfl, rfl⟩, ?_⟩
    rintro _ ⟨⟩
    refine ⟨rfl, ?_⟩
    rintro _ ⟨⟩
    refine ⟨⟨by decide, by decide⟩, ?_⟩
    rintro _ ⟨⟩
    exact ⟨trivial, fun _ _ => trivial⟩
  · refine ⟨trivial, ?_⟩
    rintro _ ⟨⟩
    refine ⟨nofun, ?_⟩
    rintro _ ⟨⟩
    refine ⟨trivial, ?_⟩
    rintro _ ⟨⟩
    refine ⟨⟨by decide, by decide, by decide⟩, ?_⟩
    rintro _ ⟨⟩
    refine ⟨?_, fun _ _ => trivial⟩
    rintro _ ⟨⟩
    rfl

end Echadron.Agent
