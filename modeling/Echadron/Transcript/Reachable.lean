import Echadron.Transcript.Entities
import Echadron.Transcript.Timeline
import Mathlib.Data.Rat.Cast.Order

namespace Echadron.Transcript
open Lib List Option

/-! Integers as JavaScript writes them, and what is no integer as a fraction. -/

def digits (n : Nat) : Text := (Nat.toDigits 10 n).map fun c => c.toNat.toUInt16

def natural (text : Text) : Nat := Nat.ofDigitChars 10 (text.map fun u => Char.ofNat u.toNat) 0

def isDigitUnit (u : UInt16) : Bool := 48 ≤ u ∧ u ≤ 57

theorem isDigitUnit_of_isDigit (h : c.isDigit) :
    isDigitUnit c.toNat.toUInt16 ∧ Char.ofNat c.toNat.toUInt16.toNat = c := by
  obtain ⟨hlow, hhigh⟩ := Char.isDigit_iff_toNat.mp h
  have hunit : c.toNat.toUInt16.toNat = c.toNat := by
    have hnine : '9'.toNat = 57 := rfl
    rw [UInt16.toNat_ofNat']
    omega
  constructor
  · rw [isDigitUnit, decide_eq_true_eq, UInt16.le_iff_toNat_le, UInt16.le_iff_toNat_le, hunit]
    exact ⟨hlow, hhigh⟩
  · rw [hunit, Char.ofNat_toNat]

theorem natural_digits (n : Nat) : natural (digits n) = n := by
  have hchars : (digits n).map (fun u => Char.ofNat u.toNat) = Nat.toDigits 10 n := by
    rw [digits, List.map_map]
    conv_rhs => rw [← map_id (Nat.toDigits 10 n)]
    apply map_congr_left
    intro c hc
    exact (isDigitUnit_of_isDigit (Nat.isDigit_of_mem_toDigits (by decide) (by decide) hc)).2
  rw [natural, hchars, Nat.ofDigitChars_ten_toDigits]

theorem isDigitUnit_of_mem_digits (h : u ∈ digits n) : isDigitUnit u := by
  obtain ⟨c, hc, rfl⟩ := mem_map.mp h
  exact (isDigitUnit_of_isDigit (Nat.isDigit_of_mem_toDigits (by decide) (by decide) hc)).1

def fractionText (q : ℚ) : Text :=
  let magnitude := digits q.num.natAbs ++ if q.den = 1 then [] else 47 :: digits q.den
  if q.num < 0 then 45 :: magnitude else magnitude

def readMagnitude (text : Text) : ℚ :=
  let numerator := text.takeWhile isDigitUnit
  let after := text.dropWhile isDigitUnit
  natural numerator / if after = [] then 1 else natural (after.drop 1)

def readFraction (text : Text) : ℚ :=
  if text.head? = some 45 then -readMagnitude (text.drop 1) else readMagnitude text

theorem readMagnitude_digits (n d : Nat) :
    readMagnitude (digits n ++ if d = 1 then [] else 47 :: digits d) = n / d := by
  have hdigits : ∀ u ∈ digits n, isDigitUnit u := fun _ hu => isDigitUnit_of_mem_digits hu
  rw [readMagnitude, takeWhile_append_of_pos hdigits, dropWhile_append_of_pos hdigits]
  by_cases hd : d = 1
  · simp [hd, natural_digits]
  · have hslash : isDigitUnit 47 = false := by decide
    simp [hd, hslash, natural_digits]

theorem head_ne_minus (n : Nat) (rest : Text) : (digits n ++ rest).head? ≠ some 45 := by
  intro h
  cases hdigits : digits n with
  | nil => exact Nat.toDigits_ne_nil (map_eq_nil_iff.mp hdigits)
  | cons u us =>
    rw [hdigits] at h
    cases h
    have hminus := isDigitUnit_of_mem_digits (hdigits ▸ mem_cons_self : (45 : UInt16) ∈ digits n)
    exact absurd hminus (by decide)

theorem readFraction_fractionText (q : ℚ) : readFraction (fractionText q) = q := by
  rw [fractionText, readFraction]
  split
  · rename_i hneg
    have habs : (q.num.natAbs : ℚ) = -q.num := by
      rw [Nat.cast_natAbs, abs_of_neg hneg, Int.cast_neg]
    simp only [head?_cons, if_true, drop_succ_cons, drop_zero, readMagnitude_digits, habs]
    rw [neg_div, neg_neg, Rat.num_div_den]
  · rename_i hpos
    have habs : (q.num.natAbs : ℚ) = q.num := by
      rw [Nat.cast_natAbs, abs_of_nonneg (not_lt.mp hpos)]
    rw [if_neg (head_ne_minus _ _), readMagnitude_digits, habs, Rat.num_div_den]

def decimals : NumberText where
  text := fractionText
  number text := some (readFraction text)
  number_text q := congrArg some (readFraction_fractionText q)

example : turnId decimals 12 = [116, 49, 50] := by decide +kernel

variable {C : Type} [DecidableEq C] {nt : NumberText} {state : AgentState C}

section

omit [DecidableEq C]

theorem skipTurns_of_asTurn (hitem : item.asTurn = none) (skip seen : Nat) (items : List (TranscriptItem C)) :
    skipTurns skip seen (item :: items) =
      if skip < seen then item :: skipTurns skip seen items else skipTurns skip seen items := by
  cases item with
  | turn t => exact absurd hitem (some_ne_none t)
  | marker m => simp only [skipTurns]
  | taskref r => simp only [skipTurns]

theorem skipTurns_sublist (skip seen : Nat) (items : List (TranscriptItem C)) :
    (skipTurns skip seen items).Sublist items := by
  induction items generalizing seen with
  | nil => exact .slnil
  | cons item items ih =>
    cases hitem : item.asTurn with
    | none =>
      rw [skipTurns_of_asTurn hitem]
      split
      · exact (ih _).cons_cons _
      · exact (ih _).cons _
    | some t =>
      obtain rfl : item = .turn t := by
        cases item with
        | turn u => exact congrArg TranscriptItem.turn (some.inj hitem)
        | _ => cases hitem
      rw [skipTurns]
      split
      · exact (ih _).cons _
      · exact (ih _).cons_cons _

theorem streamedFrame_spec {turnId stepId frameId current : Text}
    (h : streamedFrame items turnId stepId frameId = some (turn, step, frame, current)) :
    getTurn items turnId = some turn ∧ getStep turn stepId = some step ∧
      getFrame step frameId = some frame ∧ frame.streamed = some current := by
  obtain ⟨turn', hturn, h⟩ := bind_eq_some_iff.mp h
  obtain ⟨step', hstep, h⟩ := bind_eq_some_iff.mp h
  obtain ⟨frame', hframe, h⟩ := bind_eq_some_iff.mp h
  obtain ⟨text, htext, h⟩ := bind_eq_some_iff.mp h
  cases h
  exact ⟨hturn, hstep, hframe, htext⟩

theorem frameId_withText (text : Text) (frame : TranscriptFrame C) :
    (frame.withText text).frameId = frame.frameId := by
  cases frame <;> rfl

end

/-- The states that operations of a kind reach, where a reset may carry the snapshot of any such
state. -/
inductive Reachable (nt : NumberText) (Allowed : TranscriptOperation C → Prop) : AgentState C → Prop where
  | empty : Reachable nt Allowed {}
  | apply {state : AgentState C} {op : TranscriptOperation C} (h : Reachable nt Allowed state)
    (hop : Allowed op) (hpart : op.part ≠ .whole) :
    Reachable nt Allowed (applyOperation nt state op).state
  | reset {state source : AgentState C} (h : Reachable nt Allowed state)
    (hsource : Reachable nt Allowed source) (agentId : Text) (tailTurns : Option Nat) :
    Reachable nt Allowed (applyOperation nt state (.reset agentId (source.snapshot tailTurns))).state

def Genuine (nt : NumberText) (Allowed : TranscriptOperation C → Prop) : TranscriptOperation C → Prop
  | .reset _ snapshot => ∃ source tailTurns, Reachable nt Allowed source ∧ snapshot = source.snapshot tailTurns
  | op => Allowed op

/-- The ids of an operation follow the scheme: turns and steps are named after their ordinals, and
no standalone item is named like a turn. -/
def Documented (nt : NumberText) : TranscriptOperation C → Prop
  | .turnUpsert turn => turn.turnId = turnId nt turn.ordinal
  | .stepUpsert turn step => (∃ q, turn = turnId nt q) ∧ step.stepId = stepId nt turn step.ordinal
  | .frameUpsert turn step _ => (∃ q, turn = turnId nt q) ∧ ∃ q, step = stepId nt turn q
  | .markerUpsert item _ => ∀ q, item.markerId ≠ turnId nt q
  | .taskrefUpsert item _ => ∀ q, item.refId ≠ turnId nt q
  | _ => True

section

variable {Allowed : TranscriptOperation C → Prop}

theorem Genuine.allowed (h : Genuine nt Allowed op) (hpart : op.part ≠ .whole) : Allowed op := by
  cases op with
  | reset agentId snapshot => exact absurd rfl hpart
  | _ => exact h

theorem Reachable.step (h : Reachable nt Allowed state)
    (hop : Genuine nt Allowed op) : Reachable nt Allowed (applyOperation nt state op).state := by
  by_cases hpart : op.part = .whole
  · obtain ⟨agentId, snapshot, rfl⟩ := eq_reset_of_part hpart
    obtain ⟨source, tailTurns, hsource, rfl⟩ := hop
    exact h.reset hsource agentId tailTurns
  · exact h.apply (hop.allowed hpart) hpart

theorem Reachable.applyAll (h : Reachable nt Allowed state) {ops : List (TranscriptOperation C)}
    (hops : ∀ op ∈ ops, Genuine nt Allowed op) : Reachable nt Allowed (applyAll nt state ops) := by
  induction ops generalizing state with
  | nil => exact h
  | cons op ops ih =>
    obtain ⟨hop, hops⟩ := forall_mem_cons.mp hops
    exact ih (h.step hop) hops

/-- What every operation and every reset to such a state preserves, every reachable state has. -/
theorem Reachable.invariant {I : AgentState C → Prop} (hempty : I {})
    (happly : ∀ state op, I state → Allowed op → op.part ≠ .whole → I (applyOperation nt state op).state)
    (hreset : ∀ state tailTurns, I state → I (applyReset (state.snapshot tailTurns)).state)
    (h : Reachable nt Allowed state) : I state := by
  induction h with
  | empty => exact hempty
  | apply _ hop hnot ih => exact happly _ _ ih hop hnot
  | reset _ _ _ tailTurns _ ih => exact hreset _ tailTurns ih

theorem Reachable.entities (h : Reachable nt Allowed state) : Entities state :=
  h.invariant .empty (fun _ _ h _ hpart => h.apply nt hpart) fun _ tailTurns h => h.reset tailTurns

end

/-! Turn ids stay unique, whatever ids the operations carry. -/

def UniqueTurns (items : List (TranscriptItem C)) : Prop := ((turnsOf items).map fun t => t.turnId).Nodup

namespace UniqueTurns

variable {items : List (TranscriptItem C)} {id : Text}

section

omit [DecidableEq C]

section

variable (h : UniqueTurns items)
include h

theorem sublist (hsub : (turnsOf items').Sublist (turnsOf items)) : UniqueTurns items' :=
  List.Nodup.sublist (hsub.map _) h

theorem replaceTurn (hfn : ∀ t, t.turnId = id → (fn t).turnId = id) : UniqueTurns (replaceTurn items id fn) := by
  have hids : (turnsOf (Transcript.replaceTurn items id fn)).map (fun t => t.turnId) =
      (turnsOf items).map fun t => t.turnId := by
    rw [turnsOf_replaceTurn, List.map_map]
    apply map_congr_left
    intro t _
    simp only [Function.comp_apply]
    split
    · rename_i he
      rw [hfn t he, he]
    · rfl
  rw [UniqueTurns, hids]
  exact h

theorem insertTurn (hnew : getTurn items turn.turnId = none) : UniqueTurns (insertTurn items turn) := by
  rw [UniqueTurns, turnsOf_insertTurn, (spliceBefore_perm.map _).nodup_iff, map_cons, nodup_cons]
  refine ⟨?_, h⟩
  intro hmem
  obtain ⟨t, ht, he⟩ := mem_map.mp hmem
  exact getTurn_eq_none.mp hnew t ht he

theorem putTurn (hid : turn.turnId = id) : UniqueTurns (putTurn items id turn) := by
  rw [Transcript.putTurn]
  split
  · exact h.replaceTurn fun _ _ => hid
  · rename_i hnone
    subst hid
    exact h.insertTurn (not_isSome_iff_eq_none.mp hnone)

end

theorem turnId_getD (nt : NumberText) (items : List (TranscriptItem C)) (id : Text) :
    ((getTurn items id).getD (skeletonTurn nt id)).turnId = id := by
  cases hget : getTurn items id with
  | none => rfl
  | some turn => exact (getTurn_mem hget).2

theorem frameAppend (h : UniqueTurns state.items) (turnId stepId frameId : Text) (offset : Nat) (chunk : Text) :
    UniqueTurns (applyFrameAppend state turnId stepId frameId offset chunk).state.items := by
  rw [applyFrameAppend]
  cases hframe : streamedFrame state.items turnId stepId frameId with
  | none => exact h
  | some found =>
    obtain ⟨turn, step, frame, current⟩ := found
    dsimp only
    cases appendAtOffset current offset chunk with
    | gap gap => exact h
    | unchanged => exact h
    | text merged => exact h.replaceTurn fun _ _ => (getTurn_mem (streamedFrame_spec hframe).1).2

end

theorem itemUpsert (h : UniqueTurns state.items) (hitem : item.asTurn = none) (id : Text) (beforeTurn : Option ℚ) :
    UniqueTurns (applyItemUpsert state item id beforeTurn).state.items := by
  rw [applyItemUpsert]
  split
  · apply h.sublist
    rw [turnsOf_replaceItem hitem]
    exact filter_sublist
  · apply h.sublist
    rw [turnsOf_spliceBefore hitem]

theorem apply (h : UniqueTurns state.items) (nt : NumberText)
    (hpart : op.part ≠ .whole) : UniqueTurns (applyOperation nt state op).state.items := by
  cases op with
  | reset agentId snapshot => exact absurd rfl hpart
  | turnUpsert turn =>
    rw [applyOperation, applyTurnUpsert]
    cases hget : getTurn state.items turn.turnId with
    | none => exact h.insertTurn hget
    | some existing =>
      dsimp only
      split
      · exact h
      · exact h.replaceTurn fun _ _ => rfl
  | stepUpsert turnId step =>
    rw [applyOperation, applyStepUpsert]
    cases upsertStep ((getTurn state.items turnId).getD (skeletonTurn nt turnId)) step with
    | none => exact h
    | some steps => exact h.putTurn (turnId_getD nt state.items turnId)
  | frameUpsert turnId stepId frame =>
    rw [applyOperation, applyFrameUpsert]
    cases upsertFrame ((getStep ((getTurn state.items turnId).getD (skeletonTurn nt turnId))
        stepId).getD (skeletonStep nt stepId turnId)) frame with
    | none => exact h
    | some frames => exact h.putTurn (turnId_getD nt state.items turnId)
  | append target offset text =>
    cases target with
    | frame turnId stepId frameId => exact h.frameAppend turnId stepId frameId offset text
    | task taskId => rwa [items_of_beside nt state rfl]
  | markerUpsert item beforeTurn => exact h.itemUpsert rfl item.markerId beforeTurn
  | taskrefUpsert item beforeTurn => exact h.itemUpsert rfl item.refId beforeTurn
  | itemsRemove ids =>
    rw [applyOperation, items_itemsRemove]
    exact h.sublist (filter_sublist.filterMap _)
  | _ => rwa [items_of_beside nt state rfl]

omit [DecidableEq C] in
theorem snapshot (h : UniqueTurns state.items) (tailTurns : Option Nat) :
    UniqueTurns (state.snapshot tailTurns).items := by
  apply h.sublist
  apply List.Sublist.filterMap
  rw [AgentState.snapshot]
  dsimp only
  split
  · exact skipTurns_sublist ..
  · exact .refl _

end UniqueTurns

theorem Reachable.uniqueTurns {Allowed : TranscriptOperation C → Prop}
    (h : Reachable nt Allowed state) : UniqueTurns state.items :=
  h.invariant (I := fun state => UniqueTurns state.items) nodup_nil
    (fun _ _ h _ hpart => h.apply nt hpart) fun _ tailTurns h => h.snapshot tailTurns

/-! The timeline under operations in the scheme. -/

namespace Timeline

theorem turnUpsert (h : Timeline nt state.items) (hid : header.turnId = turnId nt header.ordinal) :
    Timeline nt (applyTurnUpsert state header).state.items := by
  rw [applyTurnUpsert]
  cases hget : getTurn state.items header.turnId with
  | none =>
    apply h.insertTurn _ hget
    exact ⟨hid, forall_mem_nil _, .nil, forall_mem_nil _⟩
  | some existing =>
    dsimp only
    split
    · exact h
    · apply h.replaceTurn
      · exact fun _ _ => rfl
      · intro t ht he
        have hordered := h.turns t ht
        refine ⟨hid, ?_, hordered.steps_rising, hordered.frames_nodup⟩
        rw [← he]
        exact hordered.step_ids

omit [DecidableEq C] in
theorem turn_getD (h : Timeline nt items) (q : ℚ) :
    TurnOrdered nt ((getTurn items (turnId nt q)).getD (skeletonTurn nt (turnId nt q))) ∧
      ((getTurn items (turnId nt q)).getD (skeletonTurn nt (turnId nt q))).turnId = turnId nt q := by
  cases hget : getTurn items (turnId nt q) with
  | none => exact ⟨.skeleton q, rfl⟩
  | some turn => exact h.turn_of_get hget

theorem stepUpsert (h : Timeline nt state.items) (q : ℚ)
    (hid : header.stepId = stepId nt (turnId nt q) header.ordinal) :
    Timeline nt (applyStepUpsert nt state (turnId nt q) header).state.items := by
  obtain ⟨hturn, hturnId⟩ := h.turn_getD q
  rw [applyStepUpsert]
  cases hsteps : upsertStep ((getTurn state.items (turnId nt q)).getD
      (skeletonTurn nt (turnId nt q))) header with
  | none => exact h
  | some steps =>
    have hordered := hturn.upsertStep (by rw [hturnId]; exact hid) hsteps
    exact h.putTurn hordered hturnId

theorem frameUpsert (h : Timeline nt state.items) (frame : TranscriptFrame C) (q r : ℚ) : Timeline nt
      (applyFrameUpsert nt state (turnId nt q) (stepId nt (turnId nt q) r) frame).state.items := by
  obtain ⟨hturn, hturnId⟩ := h.turn_getD q
  rw [applyFrameUpsert]
  generalize (getTurn state.items (turnId nt q)).getD (skeletonTurn nt (turnId nt q)) = turn
    at hturn hturnId
  obtain ⟨hstepId, hordinal, hframes⟩ := hturn.getStep_ordinal r
  rw [hturnId] at hstepId hordinal hframes
  generalize (getStep turn (stepId nt (turnId nt q) r)).getD
    (skeletonStep nt (stepId nt (turnId nt q) r) (turnId nt q)) = step at hstepId hordinal hframes
  cases hupsert : upsertFrame step frame with
  | none => exact h
  | some frames =>
    have hid : stepId nt (turnId nt q) r = stepId nt turn.turnId r := by rw [hturnId]
    have hordered : TurnOrdered nt { turn with
        steps := putStep turn.steps (stepId nt (turnId nt q) r) { step with frames := frames } } :=
      hturn.putStep hid hstepId hordinal (upsertFrame_nodup hframes hupsert)
    exact h.putTurn hordered hturnId

omit [DecidableEq C] in
theorem frameAppend (h : Timeline nt state.items) (turnId stepId frameId : Text) (offset : Nat) (chunk : Text) :
    Timeline nt (applyFrameAppend state turnId stepId frameId offset chunk).state.items := by
  rw [applyFrameAppend]
  cases hframe : streamedFrame state.items turnId stepId frameId with
  | none => exact h
  | some found =>
    obtain ⟨turn, step, frame, current⟩ := found
    dsimp only
    cases appendAtOffset current offset chunk with
    | gap gap => exact h
    | unchanged => exact h
    | text merged =>
      obtain ⟨hturn, hstep, hget, _⟩ := streamedFrame_spec hframe
      obtain ⟨hordered, hturnId⟩ := h.turn_of_get hturn
      obtain ⟨hmem, hstepId⟩ := getStep_mem hstep
      apply h.replaceTurn
      · exact fun _ _ => hturnId
      · intro _ _ _
        apply hordered.mapSteps
        intro s hs
        split
        · rename_i he
          have heq : s = step := inj_on_of_nodup_map hordered.steps_nodup hs hmem (he.trans hstepId.symm)
          refine ⟨by rw [heq], by rw [heq], ?_⟩
          dsimp only
          rw [map_if_id ((frameId_withText merged frame).trans (getFrame_mem hget).2)]
          exact hordered.frames_nodup step hmem
        · exact ⟨rfl, rfl, hordered.frames_nodup s hs⟩

theorem itemUpsert (h : Timeline nt state.items) (item : TranscriptItem C) (hitem : item.asTurn = none)
    (hid : ∀ q, itemIdOf item ≠ turnId nt q) (beforeTurn : Option ℚ) :
    Timeline nt (applyItemUpsert state item (itemIdOf item) beforeTurn).state.items := by
  rw [applyItemUpsert]
  split
  · exact h.replaceItem hitem hid
  · rename_i hnone
    apply h.insertItem hitem hid
    intro entry hentry he
    apply hnone
    exact any_eq_true.mpr ⟨entry, hentry, decide_eq_true he⟩

omit [DecidableEq C] in
theorem reset {source : AgentState C} (h : Timeline nt source.items) (tailTurns : Option Nat) :
    Timeline nt (applyReset (source.snapshot tailTurns)).state.items := by
  apply h.sublist
  show (AgentState.snapshot source tailTurns).items.Sublist source.items
  rw [AgentState.snapshot]
  dsimp only
  split
  · exact skipTurns_sublist ..
  · exact .refl _

theorem apply (h : Timeline nt state.items) (hop : Documented nt op)
    (hpart : op.part ≠ .whole) : Timeline nt (applyOperation nt state op).state.items := by
  cases op with
  | reset agentId snapshot => exact absurd rfl hpart
  | turnUpsert turn => exact h.turnUpsert hop
  | stepUpsert turn step =>
    obtain ⟨⟨q, rfl⟩, hid⟩ := hop
    exact h.stepUpsert q hid
  | frameUpsert turn step frame =>
    obtain ⟨⟨q, rfl⟩, r, rfl⟩ := hop
    exact h.frameUpsert frame q r
  | append target offset text =>
    cases target with
    | frame turnId stepId frameId => exact h.frameAppend turnId stepId frameId offset text
    | task taskId => rwa [items_of_beside nt state rfl]
  | markerUpsert item beforeTurn => exact h.itemUpsert (.marker item) rfl hop beforeTurn
  | taskrefUpsert item beforeTurn => exact h.itemUpsert (.taskref item) rfl hop beforeTurn
  | itemsRemove ids =>
    rw [applyOperation, items_itemsRemove]
    exact h.sublist filter_sublist
  | _ => rwa [items_of_beside nt state rfl]

end Timeline

theorem Reachable.timeline (h : Reachable nt (Documented nt) state) : Timeline nt state.items :=
  h.invariant (I := fun state => Timeline nt state.items) .empty
    (fun _ _ h hop hpart => h.apply hop hpart) fun _ tailTurns h => h.reset tailTurns

/-- Ids are unique, turns and steps stand in order, and the index of pending interactions is exact. -/
structure Consistent (state : AgentState C) : Prop where
  items_unique : (state.items.map itemIdOf).Nodup
  turns_rising : (turnsOf state.items).Pairwise (·.ordinal < ·.ordinal)
  steps_unique : ∀ t ∈ turnsOf state.items, (t.steps.map fun s => s.stepId).Nodup
  steps_ordered : ∀ t ∈ turnsOf state.items, t.steps.Pairwise (·.ordinal < ·.ordinal)
  frames_unique : ∀ t ∈ turnsOf state.items, ∀ s ∈ t.steps, (s.frames.map TranscriptFrame.frameId).Nodup
  pending_exact : ∀ id, id ∈ state.pendingInteractions.keys ↔
    ∃ interaction, state.interactions.get id = some interaction ∧ interaction.state = .pending

theorem Reachable.consistent (h : Reachable nt (Documented nt) state) : Consistent state where
  items_unique := h.timeline.nodup
  turns_rising := h.timeline.rising
  steps_unique t ht := (h.timeline.turns t ht).steps_nodup
  steps_ordered t ht := (h.timeline.turns t ht).steps_rising
  frames_unique t ht := (h.timeline.turns t ht).frames_nodup
  pending_exact := h.entities.pending

/-- Whatever operations in the scheme a transcript takes, it stays consistent. -/
theorem applyAll_consistent (nt : NumberText) (ops : List (TranscriptOperation C))
    (hops : ∀ op ∈ ops, Genuine nt (Documented nt) op) : Consistent (applyAll nt {} ops) :=
  (Reachable.empty.applyAll hops).consistent

/-- A step that makes its turn, an earlier turn, a frame that makes its step, a removal and a reset. -/
def twoTurns : List (TranscriptOperation Nat) :=
  [.stepUpsert (turnId decimals 2)
      { stepId := stepId decimals (turnId decimals 2) 1
        turnId := turnId decimals 2
        ordinal := 1
        state := .running },
    .turnUpsert
      { turnId := turnId decimals 1, ordinal := 1, state := .completed, origin := { kind := .user } },
    .frameUpsert (turnId decimals 1) (stepId decimals (turnId decimals 1) 1)
      (.notice { frameId := [102], level := .warning, message := "late" }),
    .itemsRemove [turnId decimals 2],
    .reset [97] (AgentState.snapshot {} none)]

theorem consistent_twoTurns : Consistent (applyAll decimals {} twoTurns) := by
  apply applyAll_consistent decimals twoTurns
  intro op hop
  simp only [twoTurns, mem_cons, not_mem_nil, or_false] at hop
  rcases hop with rfl | rfl | rfl | rfl | rfl
  · exact ⟨⟨2, rfl⟩, rfl⟩
  · exact rfl
  · exact ⟨⟨1, rfl⟩, 1, rfl⟩
  · exact trivial
  · exact ⟨{}, none, .empty, rfl⟩

end Echadron.Transcript
