import Echadron.Agent.FullCompaction

namespace Echadron.Agent
open Lib List

/-! What a selection of the user's messages keeps. -/

def isAscii (c : Char) : Bool := decide (c.toNat ≤ 127)

def charTokens (text : List Char) : Nat := (text.countP isAscii + 3) / 4 + text.countP fun c => !isAscii c

theorem foldl_add (text : List Char) (n : CharCount) :
    (text.foldl CharCount.add n).ascii = n.ascii + text.countP isAscii ∧
      (text.foldl CharCount.add n).nonAscii = n.nonAscii + text.countP fun c => !isAscii c := by
  induction text generalizing n with
  | nil => exact ⟨rfl, rfl⟩
  | cons c text ih =>
    obtain ⟨hascii, hnonAscii⟩ := ih (n.add c)
    rw [foldl_cons, hascii, hnonAscii, CharCount.add]
    by_cases hc : c.toNat ≤ 127
    · have his : isAscii c = true := decide_eq_true hc
      simp [hc, his]
      omega
    · have his : isAscii c = false := decide_eq_false hc
      simp [hc, his]
      omega

theorem foldl_tokens (text : List Char) : (text.foldl CharCount.add {}).tokens = charTokens text := by
  obtain ⟨hascii, hnonAscii⟩ := foldl_add text {}
  rw [CharCount.tokens, hascii, hnonAscii, charTokens, zero_add, zero_add]

theorem estimateTokens_eq (text : String) : estimateTokens text = charTokens text.toList := foldl_tokens _

theorem charTokens_append_le (a b : List Char) : charTokens (a ++ b) ≤ charTokens a + charTokens b := by
  unfold charTokens
  rw [countP_append, countP_append]
  omega

theorem charTokens_le_append (a b : List Char) : charTokens a + charTokens b ≤ charTokens (a ++ b) + 1 := by
  unfold charTokens
  rw [countP_append, countP_append]
  omega

theorem charTokens_reverse (text : List Char) : charTokens text.reverse = charTokens text := by
  rw [charTokens, countP_reverse, countP_reverse]
  rfl

theorem fittingChars_prefix (maxTokens : Nat) (n : CharCount) (text : List Char) :
    fittingChars maxTokens n text <+: text := by
  induction text generalizing n with
  | nil => exact nil_prefix
  | cons c text ih =>
    rw [fittingChars]
    split_ifs
    · exact nil_prefix
    · exact (prefix_cons_inj c).mpr (ih (n.add c))

theorem fittingChars_fits (h : n.tokens ≤ maxTokens) (text : List Char) :
    ((fittingChars maxTokens n text).foldl CharCount.add n).tokens ≤ maxTokens := by
  induction text generalizing n with
  | nil => exact h
  | cons c text ih =>
    rw [fittingChars]
    split_ifs with hover
    · exact h
    · exact ih (Nat.le_of_not_lt hover)

theorem charTokens_fittingChars (maxTokens : Nat) (text : List Char) :
    charTokens (fittingChars maxTokens {} text) ≤ maxTokens := by
  rw [← foldl_tokens]
  exact fittingChars_fits (Nat.zero_le _) text

def textOf (m : ContextMessage) : List Char := (extractText m.content).toList

def texts (messages : List ContextMessage) : List Char := messages.flatMap textOf

theorem textOf_eq (m : ContextMessage) : textOf m = m.content.flatMap fun part => (contentText part).toList := by
  rw [textOf, extractText, String.toList_join, flatMap_map]

theorem textOf_replace (m : ContextMessage) (text : String) : textOf (replaceMessageText m text) = text.toList := by
  rw [textOf_eq]
  exact append_nil _

theorem charTokens_contentText (part : ContentPart) :
    charTokens (contentText part).toList ≤ estimateTokensForContentPart part := by
  cases part with
  | text text => exact le_of_eq (estimateTokens_eq text).symm
  | _ =>
    change charTokens "".toList ≤ _
    exact Nat.zero_le _

theorem charTokens_content (content : List ContentPart) :
    charTokens (content.flatMap fun part => (contentText part).toList) ≤ estimateTokensForContentParts content := by
  induction content with
  | nil => exact Nat.zero_le _
  | cons part content ih =>
    exact (charTokens_append_le _ _).trans (Nat.add_le_add (charTokens_contentText part) ih)

theorem estimateTokens_user : estimateTokens Role.user.text = 1 := by decide +kernel

theorem charTokens_textOf (hrole : m.role = .user) : charTokens (textOf m) + 1 ≤ estimateTokensForMessage m := by
  have hcontent := charTokens_content m.content
  rw [textOf_eq, estimateTokensForMessage, hrole, estimateTokens_user]
  omega

theorem estimateTokens_replace (hrole : m.role = .user) (text : String) :
    estimateTokensForMessage (replaceMessageText m text) = charTokens text.toList + 1 := by
  have hcontent : estimateTokensForContentParts [.text text] = charTokens text.toList := by
    rw [← estimateTokens_eq]
    rfl
  have hsame : (replaceMessageText m text).role = .user := hrole
  rw [estimateTokensForMessage, hsame, estimateTokens_user]
  change 1 + estimateTokensForContentParts [.text text] + 0 = _
  omega

theorem charTokens_texts (hroles : ∀ m ∈ messages, m.role = .user) :
    charTokens (texts messages) ≤ estimateTokensForMessages messages := by
  induction messages with
  | nil => exact Nat.zero_le _
  | cons m messages ih =>
    obtain ⟨hrole, hroles⟩ := forall_mem_cons.mp hroles
    have hm := charTokens_textOf hrole
    have hrest := ih hroles
    have happend := charTokens_append_le (textOf m) (texts messages)
    rw [estimateTokensForMessages_cons, texts, flatMap_cons]
    unfold texts at happend hrest
    omega

theorem texts_append (a b : List ContextMessage) : texts (a ++ b) = texts a ++ texts b := flatMap_append

theorem texts_cons (m : ContextMessage) (messages : List ContextMessage) :
    texts (m :: messages) = textOf m ++ texts messages := flatMap_cons

theorem texts_singleton (m : ContextMessage) : texts [m] = textOf m := flatMap_singleton ..

theorem estimateTokens_append (a b : List ContextMessage) :
    estimateTokensForMessages (a ++ b) = estimateTokensForMessages a + estimateTokensForMessages b := by
  rw [estimateTokensForMessages, map_append, sum_append]
  rfl

theorem estimateTokens_singleton (m : ContextMessage) : estimateTokensForMessages [m] = estimateTokensForMessage m := by
  rfl

theorem textOf_truncate (m : ContextMessage) (maxTokens : Nat) :
    textOf (truncateUserMessage m maxTokens) = fittingChars maxTokens {} (textOf m) := by
  rw [truncateUserMessage, textOf_replace, truncateTextToTokens, String.toList_ofList]
  rfl

theorem takeWithinBudget_keeps (remaining : Nat) (hroles : ∀ m ∈ messages, m.role = .user) :
    ∃ rest, texts messages = texts (takeWithinBudget remaining messages) ++ rest ∧
      estimateTokensForMessages (takeWithinBudget remaining messages) ≤ remaining + 1 ∧
      estimateTokensForMessages (takeWithinBudget remaining messages) + charTokens rest ≤
        estimateTokensForMessages messages + 1 := by
  induction messages generalizing remaining with
  | nil => exact ⟨[], rfl, Nat.zero_le _, Nat.zero_le _⟩
  | cons m messages ih =>
    obtain ⟨hrole, hlater⟩ := forall_mem_cons.mp hroles
    rw [takeWithinBudget]
    split_ifs with hzero hfits
    · refine ⟨texts (m :: messages), rfl, Nat.zero_le _, ?_⟩
      have hall := charTokens_texts hroles
      exact Nat.le_succ_of_le ((Nat.zero_add _).le.trans hall)
    · obtain ⟨rest, htext, hbudget, hlost⟩ := ih (remaining - estimateTokensForMessage m) hlater
      refine ⟨rest, ?_, ?_, ?_⟩
      · rw [texts_cons, texts_cons, htext, append_assoc]
      · rw [estimateTokensForMessages_cons]
        omega
      · rw [estimateTokensForMessages_cons, estimateTokensForMessages_cons]
        omega
    · obtain ⟨cut, hcut⟩ := fittingChars_prefix remaining {} (textOf m)
      have hkept : estimateTokensForMessage (truncateUserMessage m remaining) =
          charTokens (fittingChars remaining {} (textOf m)) + 1 := by
        rw [← textOf_truncate, truncateUserMessage, estimateTokens_replace hrole, textOf_replace]
      have hfit := charTokens_fittingChars remaining (textOf m)
      have hhalves := charTokens_le_append (fittingChars remaining {} (textOf m)) cut
      rw [hcut] at hhalves
      have hwhole := charTokens_textOf hrole
      have hall := charTokens_texts hlater
      have hsum := charTokens_append_le cut (texts messages)
      refine ⟨cut ++ texts messages, ?_, ?_, ?_⟩
      · rw [texts_cons, texts_singleton, textOf_truncate, ← append_assoc, hcut]
      · rw [estimateTokens_singleton]
        omega
      · rw [estimateTokens_singleton, estimateTokensForMessages_cons]
        omega

theorem cut_textOf (m : ContextMessage) (maxTokens : Nat) : ∃ dropped kept, textOf m = dropped ++ kept ∧
      truncateTextToTokensFromEnd (extractText m.content) maxTokens = String.ofList kept ∧
      (extractText m.content).toList.take ((extractText m.content).length -
        (truncateTextToTokensFromEnd (extractText m.content) maxTokens).length) = dropped ∧
      charTokens kept ≤ maxTokens := by
  obtain ⟨lost, hlost⟩ := fittingChars_prefix maxTokens {} (textOf m).reverse
  obtain ⟨kept, hkept⟩ : ∃ kept, kept = (fittingChars maxTokens {} (textOf m).reverse).reverse := ⟨_, rfl⟩
  have hsplit : textOf m = lost.reverse ++ kept := by
    rw [hkept, ← reverse_append, hlost, reverse_reverse]
  have htruncated : truncateTextToTokensFromEnd (extractText m.content) maxTokens = String.ofList kept := by
    rw [hkept]
    rfl
  refine ⟨lost.reverse, kept, hsplit, htruncated, ?_, ?_⟩
  · have hlength : (extractText m.content).length - (String.ofList kept).length = lost.reverse.length := by
      have htext : (extractText m.content).length = (lost.reverse ++ kept).length := by
        rw [← hsplit]
        exact (String.length_toList).symm
      rw [htext, String.length_ofList, length_append, Nat.add_sub_cancel]
    rw [htruncated, hlength]
    change (textOf m).take _ = _
    rw [hsplit, take_left]
  · rw [hkept, charTokens_reverse]
    exact charTokens_fittingChars _ _

/-- The begin of a message whose end is in the tail is left for the head. -/
def cutBegin (m : ContextMessage) (dropped : List Char) : List ContextMessage :=
  if dropped.length > 0 then [replaceMessageText m (String.ofList dropped)] else []

theorem texts_cutBegin (m : ContextMessage) (dropped : List Char) : texts (cutBegin m dropped) = dropped := by
  rw [cutBegin]
  split_ifs with hempty
  · rw [texts_singleton, textOf_replace, String.toList_ofList]
  · exact (length_eq_zero_iff.mp (Nat.eq_zero_of_not_pos hempty)).symm

theorem estimateTokens_cutBegin (hrole : m.role = .user) (dropped : List Char) :
    estimateTokensForMessages (cutBegin m dropped) ≤ charTokens dropped + 1 := by
  rw [cutBegin]
  split_ifs
  · rw [estimateTokens_singleton, estimateTokens_replace hrole, String.toList_ofList]
  · exact Nat.zero_le _

theorem cutBegin_roles (hrole : m.role = .user) (dropped : List Char) : ∀ x ∈ cutBegin m dropped, x.role = .user := by
  intro x hx
  rw [cutBegin] at hx
  split_ifs at hx
  · rw [mem_singleton.mp hx]
    exact hrole
  · cases hx

/-- What a selection of the tail leaves: the text in two parts, a tail of the budget, and little overhead. -/
structure TailKept (messages : List ContextMessage) (remaining : Nat) (tail : List ContextMessage)
    (selected : TailSelection) : Prop where
  text : texts messages ++ texts tail = texts selected.headCandidates ++ texts selected.tail
  budget : estimateTokensForMessages selected.tail ≤ remaining + 1 + estimateTokensForMessages tail
  lost : estimateTokensForMessages selected.headCandidates + estimateTokensForMessages selected.tail ≤
    estimateTokensForMessages messages + estimateTokensForMessages tail + 2
  roles : ∀ m ∈ selected.headCandidates, m.role = .user

theorem selectTail_keeps (remaining : Nat) (tail : List ContextMessage) (hroles : ∀ m ∈ reversed, m.role = .user) :
    TailKept reversed.reverse remaining tail (selectTail remaining reversed tail) := by
  induction reversed generalizing remaining tail with
  | nil =>
    refine ⟨rfl, ?_, ?_, ?_⟩
    · exact Nat.le_add_left _ _
    · exact Nat.le_add_right _ _
    · intro m hm
      cases hm
  | cons m before ih =>
    obtain ⟨hrole, hearlier⟩ := forall_mem_cons.mp hroles
    have hsum : estimateTokensForMessages (m :: before).reverse =
        estimateTokensForMessages before.reverse + estimateTokensForMessage m := by
      rw [reverse_cons, estimateTokens_append, estimateTokens_singleton]
    have htexts : texts (m :: before).reverse = texts before.reverse ++ textOf m := by
      rw [reverse_cons, texts_append, texts_singleton]
    rw [selectTail]
    split_ifs with hzero hfits
    · refine ⟨rfl, Nat.le_add_left _ _, Nat.le_add_right _ _, ?_⟩
      intro x hx
      exact hroles x (mem_reverse.mp hx)
    · have hkept := ih (remaining - estimateTokensForMessage m) (m :: tail) hearlier
      have hbudget := hkept.budget
      have hlost := hkept.lost
      rw [estimateTokensForMessages_cons] at hbudget hlost
      refine ⟨?_, ?_, ?_, hkept.roles⟩
      · rw [htexts, ← hkept.text, texts_cons, append_assoc]
      · omega
      · omega
    · obtain ⟨dropped, kept, hsplit, htruncated, hdropped, hfit⟩ := cut_textOf m remaining
      have hbegin := estimateTokens_cutBegin hrole dropped
      have hend : estimateTokensForMessage (replaceMessageText m (String.ofList kept)) = charTokens kept + 1 := by
        rw [estimateTokens_replace hrole, String.toList_ofList]
      have hhalves := charTokens_le_append dropped kept
      have hwhole := charTokens_textOf hrole
      rw [← hsplit] at hhalves
      dsimp only
      rw [hdropped, htruncated, String.length_ofList]
      refine ⟨?_, ?_, ?_, ?_⟩
      · change _ = texts (before.reverse ++ cutBegin m dropped) ++ texts (_ :: tail)
        rw [htexts, hsplit, texts_append, texts_cutBegin, texts_cons, textOf_replace, String.toList_ofList,
          append_assoc, append_assoc, append_assoc]
      · rw [estimateTokensForMessages_cons]
        omega
      · change estimateTokensForMessages (before.reverse ++ cutBegin m dropped) +
          estimateTokensForMessages (_ :: tail) ≤ _
        rw [estimateTokens_append, estimateTokensForMessages_cons]
        omega
      · intro x hx
        rcases mem_append.mp hx with hbefore | hcut
        · exact hearlier x (mem_reverse.mp hbefore)
        · exact cutBegin_roles hrole dropped x hcut

def KeptOf (kept m : ContextMessage) : Prop := kept = m ∨ ∃ text, kept = replaceMessageText m text

theorem KeptOf.trans (h : KeptOf a b) (h' : KeptOf b c) : KeptOf a c := by
  rcases h with rfl | ⟨text, rfl⟩
  · exact h'
  · rcases h' with rfl | ⟨_, rfl⟩
    · exact .inr ⟨text, rfl⟩
    · exact .inr ⟨text, rfl⟩

theorem forall₂_keptOf (messages : List ContextMessage) : List.Forall₂ KeptOf messages messages :=
  forall₂_same.mpr fun _ _ => .inl rfl

def HeadOf (kept messages : List ContextMessage) : Prop :=
  ∃ sources, sources <+: messages ∧ List.Forall₂ KeptOf kept sources

def TailOf (kept messages : List ContextMessage) : Prop :=
  ∃ sources, sources <:+ messages ∧ List.Forall₂ KeptOf kept sources

theorem takeWithinBudget_order (remaining : Nat)
    (h : List.Forall₂ KeptOf candidates sources) : HeadOf (takeWithinBudget remaining candidates) sources := by
  induction h generalizing remaining with
  | nil => exact ⟨[], nil_prefix, .nil⟩
  | @cons m source candidates sources hm _ ih =>
    rw [takeWithinBudget]
    split_ifs
    · exact ⟨[], nil_prefix, .nil⟩
    · obtain ⟨rest, hrest, hkept⟩ := ih (remaining - estimateTokensForMessage m)
      exact ⟨source :: rest, (prefix_cons_inj source).mpr hrest, .cons hm hkept⟩
    · have hcut : KeptOf (truncateUserMessage m remaining) m := .inr ⟨_, rfl⟩
      exact ⟨[source], (prefix_cons_inj source).mpr nil_prefix, .cons (hcut.trans hm) .nil⟩

theorem selectTail_order (remaining : Nat) (reversed tail : List ContextMessage) :
    HeadOf (selectTail remaining reversed tail).headCandidates (reversed.reverse ++ tail) ∧
      TailOf (selectTail remaining reversed tail).tail (reversed.reverse ++ tail) := by
  induction reversed generalizing remaining tail with
  | nil => exact ⟨⟨[], nil_prefix, .nil⟩, tail, suffix_append _ _, forall₂_keptOf tail⟩
  | cons m before ih =>
    have hsplit : (m :: before).reverse ++ tail = before.reverse ++ m :: tail := by
      rw [reverse_cons, append_assoc, singleton_append]
    rw [selectTail]
    split_ifs
    · exact ⟨⟨_, prefix_append _ _, forall₂_keptOf _⟩, tail, suffix_append _ _, forall₂_keptOf tail⟩
    · rw [hsplit]
      exact ih _ _
    · rw [hsplit]
      constructor
      · dsimp only
        split_ifs
        · refine ⟨before.reverse ++ [m], ?_, ?_⟩
          · exact (prefix_append_right_inj _).mpr ((prefix_cons_inj m).mpr nil_prefix)
          · exact rel_append (forall₂_keptOf _) (.cons (.inr ⟨_, rfl⟩) .nil)
        · rw [append_nil]
          exact ⟨_, prefix_append _ _, forall₂_keptOf _⟩
      · exact ⟨m :: tail, suffix_append _ _, .cons (.inr ⟨_, rfl⟩) (forall₂_keptOf tail)⟩

structure KeptWithin (messages : List ContextMessage) (maxTokens : Nat) (selection : CompactionUserSelection) :
    Prop where
  /-- A token more for each end: the role of a message that is cut. -/
  budget : estimateTokensForMessages selection.head + estimateTokensForMessages selection.tail ≤ maxTokens + 2
  text : ∃ between, texts messages = texts selection.head ++ (between ++ texts selection.tail) ∧
    charTokens between ≤ selection.omittedTokens + 3
  head : HeadOf selection.head messages
  tail : TailOf selection.tail messages
  omitted : selection.omittedTokens = estimateTokensForMessages messages -
    (estimateTokensForMessages selection.head + estimateTokensForMessages selection.tail)
  whole : estimateTokensForMessages messages ≤ maxTokens → selection.head = [] ∧ selection.tail = messages

/-- What the selection keeps of the user's messages. -/
theorem selectCompactionUserMessages_keeps (messages : List ContextMessage) (maxTokens headTokens : Nat)
    (hroles : ∀ m ∈ messages, m.role = .user) :
    KeptWithin messages maxTokens (selectCompactionUserMessages messages maxTokens headTokens) := by
  rw [selectCompactionUserMessages]
  split_ifs with hfits
  · have hnone : estimateTokensForMessages [] = 0 := rfl
    refine ⟨?_, ⟨[], rfl, Nat.zero_le _⟩, ⟨[], nil_prefix, .nil⟩, ⟨messages, suffix_refl _, ?_⟩, ?_, ?_⟩
    · dsimp only
      omega
    · exact forall₂_keptOf messages
    · dsimp only
      omega
    · exact fun _ => ⟨rfl, rfl⟩
  · have hreversed : ∀ m ∈ messages.reverse, m.role = .user := fun m hm => hroles m (mem_reverse.mp hm)
    have htail := selectTail_keeps (maxTokens - min headTokens maxTokens) [] hreversed
    obtain ⟨hcandidates, hlast⟩ := selectTail_order (maxTokens - min headTokens maxTokens) messages.reverse []
    rw [reverse_reverse, append_nil] at hcandidates hlast
    rw [reverse_reverse] at htail
    obtain ⟨rest, htext, hbudget, hlost⟩ := takeWithinBudget_keeps (min headTokens maxTokens) htail.roles
    obtain ⟨sources, hprefix, hsources⟩ := hcandidates
    obtain ⟨firsts, hfirsts, hhead⟩ := takeWithinBudget_order (min headTokens maxTokens) hsources
    have hnone : estimateTokensForMessages [] = 0 := rfl
    have htailBudget := htail.budget
    have htailLost := htail.lost
    have htailText := htail.text
    refine ⟨?_, ⟨rest, ?_, ?_⟩, ⟨firsts, hfirsts.trans hprefix, hhead⟩, hlast, rfl, ?_⟩
    · dsimp only
      omega
    · rw [← append_assoc, ← htext, ← htailText]
      exact (append_nil _).symm
    · dsimp only
      omega
    · intro h
      exact absurd h hfits

def longPrompt : ContextMessage := userMessage [.text "0123456789012345678901234567890123456789"]

def shortPrompts : List ContextMessage := [userMessage [.text "a"], userMessage [.text "b"], userMessage [.text "c"]]

/-- The role of a cut message goes over the budget, and the roles of those that are left out count as omitted text. -/
theorem selectCompactionUserMessages_overflows :
    estimateTokensForMessages (selectCompactionUserMessages [longPrompt] 5 0).tail = 6 ∧
      (selectCompactionUserMessages (shortPrompts ++ [longPrompt]) 11 0).tail = [longPrompt] ∧
      (selectCompactionUserMessages (shortPrompts ++ [longPrompt]) 11 0).omittedTokens = 6 ∧
      charTokens (texts shortPrompts) = 1 := by
  decide +kernel

theorem longPrompt_kept : (∀ m ∈ [longPrompt], m.role = .user) ∧
      KeptWithin [longPrompt] 5 (selectCompactionUserMessages [longPrompt] 5 2) := by
  have hroles : ∀ m ∈ [longPrompt], m.role = .user := by decide
  exact ⟨hroles, selectCompactionUserMessages_keeps [longPrompt] 5 2 hroles⟩

end Echadron.Agent
