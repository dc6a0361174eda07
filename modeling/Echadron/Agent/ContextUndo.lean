import Echadron.Agent.ConversationTime

namespace Echadron.Agent
open Lib List Option

/-! What an undo takes away. -/

variable {messages kept rest : List ContextMessage} {anchor : ContextMessage}

theorem contextUndo_eq {count : Nat} (hvalid : isValidUndoCount count = true)
    (hcut : isFullyUndoable (computeUndoCut s.messages count) count = true) :
    contextUndo s count = resetFold (s.messages.take ((computeUndoCut s.messages count).cutIndex.getD 0)) := by
  have hmessages : s.messages.length ≠ 0 := by
    intro hnil
    rw [length_eq_zero_iff.mp hnil] at hcut
    cases hcut
  have hnot : ¬(isValidUndoCount count = false ∨ s.messages.length = 0) := by
    intro h
    rcases h with h | h
    · rw [hvalid] at h
      cases h
    · exact hmessages h
  rw [contextUndo, if_neg hnot]
  exact if_pos hcut

theorem recorded_undo {count : Nat} (hvalid : isValidUndoCount count = true)
    (hcut : isFullyUndoable (computeUndoCut s.messages count) count = true) :
    (contextUndo s count).recorded = s.messages.take ((computeUndoCut s.messages count).cutIndex.getD 0) := by
  rw [contextUndo_eq hvalid hcut]
  exact append_nil _

/-- The messages end with an anchor that is cut off together with the injections that it owns, with all that came after
it, which has no summary in it, and with so many anchors in all. -/
def RemovesAnchors (count : Nat) (messages kept : List ContextMessage) : Prop :=
  ∃ owned anchor rest, messages = kept ++ (owned ++ anchor :: rest) ∧ isUndoAnchor anchor = true ∧
    (∀ m ∈ owned, isPromptOwnedInjection m anchor = true) ∧
    (∀ m ∈ kept.getLast?, isPromptOwnedInjection m anchor = false) ∧
    (owned ++ anchor :: rest).countP isUndoAnchor = count ∧
    ∀ m ∈ owned ++ anchor :: rest, isCompactionSummaryMessage m = false

theorem not_isCompactionSummary_of_isUndoAnchor (h : isUndoAnchor m = true) :
    isCompactionSummaryMessage m = false := by
  unfold isUndoAnchor at h
  unfold isCompactionSummaryMessage isCompactionSummary
  split
  · rename_i ho
    rw [ho, Bool.and_false] at h
    cases h
  · rfl

theorem not_isUndoAnchor_of_owned (h : isPromptOwnedInjection m anchor = true) : isUndoAnchor m = false := by
  have hi := isInjection_of_isPromptOwnedInjection h
  cases ha : isUndoAnchor m with
  | false => rfl
  | true => rw [not_isInjection_of_isUndoAnchor ha] at hi; cases hi

theorem not_isCompactionSummary_of_owned (h : isPromptOwnedInjection m anchor = true) :
    isCompactionSummaryMessage m = false := by
  cases hs : isCompactionSummaryMessage m with
  | false => rfl
  | true => rw [not_isPromptOwnedInjection_of_summary hs] at h; cases h

theorem countP_owned {owned : List ContextMessage} (h : ∀ m ∈ owned, isPromptOwnedInjection m anchor = true) :
    owned.countP isUndoAnchor = 0 := by
  apply countP_eq_zero.mpr
  intro m hm
  rw [not_isUndoAnchor_of_owned (h m hm)]
  exact Bool.false_ne_true

theorem undoScan_split {count : Nat} (cut : UndoCut) (h : count + 1 ≤ anchorsBack reversed) :
    ∃ newer anchor older, reversed = newer ++ anchor :: older ∧ isUndoAnchor anchor = true ∧
      newer.countP isUndoAnchor = count ∧ (∀ m ∈ newer, isCompactionSummaryMessage m = false) ∧
      (undoScan (count + 1) cut reversed).cutIndex =
        some (older.dropWhile fun m => isPromptOwnedInjection m anchor).length := by
  induction reversed generalizing count cut with
  | nil => cases h
  | cons m before ih =>
    by_cases hs : isCompactionSummaryMessage m = true
    · rw [anchorsBack_summary hs] at h
      cases h
    rw [Bool.not_eq_true] at hs
    cases ha : isUndoAnchor m with
    | false =>
      rw [anchorsBack_neutral ha hs] at h
      have hskip : undoScan (count + 1) cut (m :: before) = undoScan (count + 1) cut before := by
        rw [undoScan]
        simp [hs, ha]
      obtain ⟨newer, anchor, older, rfl, hanchor, hcount, hfree, hcut⟩ := ih cut h
      refine ⟨m :: newer, anchor, older, rfl, hanchor, ?_, ?_, ?_⟩
      · rw [countP_cons_of_neg (by rw [ha]; exact Bool.false_ne_true), hcount]
      · exact forall_mem_cons.mpr ⟨hs, hfree⟩
      · rw [hskip, hcut]
    | true =>
      rw [anchorsBack_anchor ha hs] at h
      have hi := not_isInjection_of_isUndoAnchor ha
      obtain ⟨cut', hcut'⟩ : ∃ cut' : UndoCut, cut' =
          { cut with
            removedCount := cut.removedCount + 1
            cutIndex := some (before.dropWhile fun x => isPromptOwnedInjection x m).length } := ⟨_, rfl⟩
      have hstep : undoScan (count + 1) cut (m :: before) = undoScan count cut' before := by
        rw [undoScan, hcut']
        simp [hs, ha, hi]
      cases count with
      | zero =>
        refine ⟨[], m, before, rfl, ha, rfl, by simp, ?_⟩
        rw [hstep, undoScan_zero, hcut']
      | succ count =>
        obtain ⟨newer, anchor, older, rfl, hanchor, hcount, hfree, hcut⟩ := ih cut' (Nat.le_of_succ_le_succ h)
        refine ⟨m :: newer, anchor, older, rfl, hanchor, ?_, ?_, ?_⟩
        · rw [countP_cons_of_pos ha, hcount]
        · exact forall_mem_cons.mpr ⟨hs, hfree⟩
        · rw [hstep, hcut]

theorem contextUndo_removes {s : Folded} {count : Nat} (hvalid : isValidUndoCount count = true)
    (hle : count ≤ undoAnchors s.messages) :
    ∃ kept, contextUndo s count = resetFold kept ∧ RemovesAnchors count s.messages kept := by
  have hpos : 0 < count := (of_decide_eq_true hvalid).2
  obtain ⟨k, rfl⟩ := Nat.exists_eq_succ_of_ne_zero (Nat.ne_of_gt hpos)
  obtain ⟨newer, anchor, older, hsplit, hanchor, hcount, hfree, hcut⟩ := undoScan_split ⟨none, 0, false⟩ hle
  have hmessages : s.messages = older.reverse ++ anchor :: newer.reverse := by
    rw [← reverse_reverse s.messages, hsplit, reverse_append, reverse_cons, append_assoc, singleton_append]
  obtain ⟨owned, howned⟩ : ∃ owned, owned = (older.takeWhile fun m => isPromptOwnedInjection m anchor).reverse :=
    ⟨_, rfl⟩
  obtain ⟨kept, hkept⟩ : ∃ kept, kept = (older.dropWhile fun m => isPromptOwnedInjection m anchor).reverse := ⟨_, rfl⟩
  have hall : s.messages = kept ++ (owned ++ anchor :: newer.reverse) := by
    rw [hmessages, ← append_assoc, hkept, howned, ← reverse_append, takeWhile_append_dropWhile]
  have hin : ∀ m ∈ owned, isPromptOwnedInjection m anchor = true := by
    intro m hm
    rw [howned, mem_reverse] at hm
    exact @mem_takeWhile_imp _ (fun m => isPromptOwnedInjection m anchor) _ _ hm
  refine ⟨kept, ?_, owned, anchor, newer.reverse, hall, hanchor, hin, ?_, ?_, ?_⟩
  · rw [contextUndo_eq hvalid ((isFullyUndoable_iff s.messages hpos).mpr hle), computeUndoCut, hcut, getD_some,
      ← length_reverse, ← hkept, hall, take_left]
  · intro m hm
    rw [hkept, getLast?_reverse] at hm
    exact Bool.eq_false_iff.mpr fun htrue => by
      have hhead := head?_dropWhile_not (fun m => isPromptOwnedInjection m anchor) older
      rw [mem_def.mp hm] at hhead
      simp [htrue] at hhead
  · rw [countP_append, countP_owned hin, countP_cons_of_pos hanchor, countP_reverse, hcount, zero_add]
  · intro m hm
    rcases mem_append.mp hm with hbefore | hafter
    · exact not_isCompactionSummary_of_owned (hin m hbefore)
    · rcases mem_cons.mp hafter with rfl | hnewer
      · exact not_isCompactionSummary_of_isUndoAnchor hanchor
      · exact hfree m (mem_reverse.mp hnewer)

theorem contextUndo_unchanged {count : Nat}
    (h : isValidUndoCount count = false ∨ undoAnchors s.messages < count) : contextUndo s count = s := by
  rw [contextUndo]
  by_cases hnone : isValidUndoCount count = false ∨ s.messages.length = 0
  · rw [if_pos hnone]
  dsimp only
  split_ifs with hcut
  · have hvalid : isValidUndoCount count = true := by
      cases hv : isValidUndoCount count with
      | true => rfl
      | false => exact absurd (.inl hv) hnone
    have hpos : 0 < count := (of_decide_eq_true hvalid).2
    have hle := (isFullyUndoable_iff s.messages hpos).mp hcut
    rcases h with hinvalid | hfew
    · rw [hvalid] at hinvalid
      cases hinvalid
    · omega
  · rfl

theorem anchor_unique
    (h : before ++ anchor :: rest = before' ++ anchor' :: rest') (hanchor : isUndoAnchor anchor = true)
    (hanchor' : isUndoAnchor anchor' = true) (hcount : rest.countP isUndoAnchor = rest'.countP isUndoAnchor) :
    before = before' ∧ anchor = anchor' := by
  rcases append_eq_append_iff.mp h with ⟨between, hbefore, hrest⟩ | ⟨between, hbefore, hrest⟩
  · cases between with
    | nil => exact ⟨(hbefore.trans (append_nil _)).symm, (cons.inj hrest).1⟩
    | cons m between =>
      have hafter : rest = between ++ anchor' :: rest' := (cons.inj hrest).2
      rw [hafter, countP_append, countP_cons_of_pos hanchor'] at hcount
      omega
  · cases between with
    | nil => exact ⟨hbefore.trans (append_nil _), (cons.inj hrest).1.symm⟩
    | cons m between =>
      have hafter : rest' = between ++ anchor :: rest := (cons.inj hrest).2
      rw [hafter, countP_append, countP_cons_of_pos hanchor] at hcount
      omega

theorem rdropWhile_owned (hin : ∀ m ∈ owned, isPromptOwnedInjection m anchor = true)
    (hlast : ∀ m ∈ kept.getLast?, isPromptOwnedInjection m anchor = false) :
    (kept ++ owned).rdropWhile (fun m => isPromptOwnedInjection m anchor) = kept := by
  have hkept : kept.rdropWhile (fun m => isPromptOwnedInjection m anchor) = kept := by
    apply rdropWhile_eq_self_iff.mpr
    intro hne
    rw [hlast _ (getLast?_eq_getLast_of_ne_nil hne)]
    exact Bool.false_ne_true
  rw [rdropWhile, reverse_append, dropWhile_append_of_pos]
  · exact hkept
  · intro m hm
    exact hin m (mem_reverse.mp hm)

theorem RemovesAnchors.unique {count : Nat} {kept' : List ContextMessage} (h : RemovesAnchors count messages kept)
    (h' : RemovesAnchors count messages kept') : kept = kept' := by
  obtain ⟨owned, anchor, rest, rfl, hanchor, hin, hlast, hcount, _⟩ := h
  obtain ⟨owned', anchor', rest', hsplit, hanchor', hin', hlast', hcount', _⟩ := h'
  rw [countP_append, countP_owned hin, countP_cons_of_pos hanchor] at hcount
  rw [countP_append, countP_owned hin', countP_cons_of_pos hanchor'] at hcount'
  rw [← append_assoc, ← append_assoc] at hsplit
  obtain ⟨hbefore, rfl⟩ := anchor_unique hsplit hanchor hanchor' (by omega)
  rw [← rdropWhile_owned hin hlast, hbefore, rdropWhile_owned hin' hlast']

theorem RemovesAnchors.trans (h : RemovesAnchors a messages kept)
    (h' : RemovesAnchors b kept kept') : RemovesAnchors (a + b) messages kept' := by
  obtain ⟨owned, anchor, rest, rfl, _, _, _, hcount, hfree⟩ := h
  obtain ⟨owned', anchor', rest', rfl, hanchor', howned', hlast', hcount', hfree'⟩ := h'
  refine ⟨owned', anchor', rest' ++ (owned ++ anchor :: rest), ?_, hanchor', howned', hlast', ?_, ?_⟩
  · rw [append_assoc, append_assoc, cons_append]
  · rw [← cons_append, ← append_assoc, countP_append, hcount', hcount, add_comm]
  · intro m hm
    rw [← cons_append, ← append_assoc] at hm
    rcases mem_append.mp hm with hold | hnew
    · exact hfree' m hold
    · exact hfree m hnew

theorem RemovesAnchors.left {count : Nat} (h : RemovesAnchors count messages kept) :
    undoAnchors messages = undoAnchors kept + count := by
  obtain ⟨owned, anchor, rest, rfl, _, _, _, hcount, hfree⟩ := h
  rw [undoAnchors_eq, undoAnchors_eq, reverse_append, anchorsBack, takeWhile_append_of_pos,
    countP_append, countP_reverse, hcount, add_comm]
  · rfl
  · intro m hm
    rw [hfree m (mem_reverse.mp hm)]
    rfl

/-- An undo is all or nothing, and two undos in a row are one of both counts. -/
theorem contextUndo_composes (s : Folded) (harray : s.messages.length ≤ maxSafeInteger) :
    (∀ count, contextUndo s count = s ∨
      ∃ kept, contextUndo s count = resetFold kept ∧ RemovesAnchors count s.messages kept) ∧
    (∀ count, 0 < count → count ≤ undoAnchors s.messages →
      RemovesAnchors count s.messages (contextUndo s count).messages) ∧
    ∀ a b, a + b ≤ undoAnchors s.messages → contextUndo (contextUndo s a) b = contextUndo s (a + b) := by
  have hbound : undoAnchors s.messages ≤ s.messages.length := by
    rw [← s.messages.length_reverse]
    exact countP_le_length.trans (takeWhile_sublist _).length_le
  have hvalid : ∀ count, 0 < count → count ≤ undoAnchors s.messages → isValidUndoCount count = true :=
    fun count hpos hle => decide_eq_true ⟨(hle.trans hbound).trans harray, hpos⟩
  have hzero : ∀ s : Folded, contextUndo s 0 = s := fun s => contextUndo_unchanged (.inl (by decide))
  refine ⟨?_, ?_, ?_⟩
  · intro count
    by_cases h : isValidUndoCount count = true ∧ count ≤ undoAnchors s.messages
    · exact .inr (contextUndo_removes h.1 h.2)
    · left
      apply contextUndo_unchanged
      rw [not_and_or, Bool.not_eq_true, not_le] at h
      exact h
  · intro count hpos hle
    obtain ⟨kept, hkept, hremoves⟩ := contextUndo_removes (hvalid count hpos hle) hle
    rw [hkept]
    exact hremoves
  · intro a b hle
    rcases Nat.eq_zero_or_pos a with rfl | ha
    · rw [hzero, zero_add]
    rcases Nat.eq_zero_or_pos b with rfl | hb
    · rw [hzero, add_zero]
    have hlea : a ≤ undoAnchors s.messages := by omega
    obtain ⟨kept, hkept, hremoves⟩ := contextUndo_removes (hvalid a ha hlea) hlea
    have hleft := hremoves.left
    have hvalidb : isValidUndoCount b = true := hvalid b hb (by omega)
    have hleb : b ≤ undoAnchors kept := by omega
    obtain ⟨kept', hkept', hremoves'⟩ := @contextUndo_removes (resetFold kept) b hvalidb hleb
    obtain ⟨both, hboth, hremovesBoth⟩ := contextUndo_removes (hvalid (a + b) (by omega) hle) hle
    rw [hkept, hkept', hboth, (hremoves.trans hremoves').unique hremovesBoth]

def twoPrompts : Folded :=
  { messages :=
      [{ role := .user, content := [.text "a"], origin := some .user },
        { role := .user, content := [.text "note"], origin := some (.injection "reminder" (some "p")) },
        { role := .user, content := [.text "b"], origin := some .user, id := some "p" }] }

theorem twoPrompts_undone :
    twoPrompts.messages.length ≤ maxSafeInteger ∧ 1 + 1 ≤ undoAnchors twoPrompts.messages ∧
      contextUndo (contextUndo twoPrompts 1) 1 = contextUndo twoPrompts (1 + 1) ∧
      RemovesAnchors 1 twoPrompts.messages (contextUndo twoPrompts 1).messages := by
  have harray : twoPrompts.messages.length ≤ maxSafeInteger := by decide
  have henough : 1 + 1 ≤ undoAnchors twoPrompts.messages := by decide
  obtain ⟨_, hremoves, hcomposes⟩ := contextUndo_composes twoPrompts harray
  exact ⟨harray, henough, hcomposes 1 1 henough, hremoves 1 Nat.one_pos (by decide)⟩

end Echadron.Agent
