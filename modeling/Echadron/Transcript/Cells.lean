import Echadron.Transcript.Reachable
import Echadron.Lib.Registers

namespace Echadron.Transcript
open Lib List Option

variable {C : Type} {items : List (TranscriptItem C)} {id : Text}

/-! A turn after the timeline has changed. -/

theorem getTurn_insertTurn (hnew : getTurn items turn.turnId = none) (id : Text) :
    getTurn (insertTurn items turn) id = if turn.turnId = id then some turn else getTurn items id := by
  rw [getTurn, turnsOf_insertTurn]
  exact find_spliceBefore (getTurn_eq_none.mp hnew)

theorem getTurn_replaceTurn {turnId : Text} (hfn : ∀ t, t.turnId = turnId → (fn t).turnId = turnId) (id : Text) :
    getTurn (replaceTurn items turnId fn) id =
      if turnId = id then (getTurn items id).map fn else getTurn items id := by
  rw [getTurn, turnsOf_replaceTurn, find_map_keeping]
  · rw [← getTurn]
    cases hget : getTurn items id with
    | none => rw [map_none, map_none, ite_self]
    | some turn =>
      have hid := (getTurn_mem hget).2
      rw [map_some, map_some, hid]
      by_cases he : turnId = id
      · rw [if_pos he, if_pos he.symm]
      · rw [if_neg he, if_neg (Ne.symm he)]
  · intro t _
    split
    · rename_i ht
      exact (hfn t ht).trans ht.symm
    · rfl

theorem getTurn_replaceTurn_with {turnId : Text} (hturn : turn.turnId = turnId)
    (id : Text) : getTurn (replaceTurn items turnId fun _ => turn) id =
      if turnId = id then (getTurn items id).map fun _ => turn else getTurn items id :=
  getTurn_replaceTurn (fun _ _ => hturn) id

theorem getTurn_putTurn {turnId : Text} (hturn : turn.turnId = turnId)
    (id : Text) : getTurn (putTurn items turnId turn) id =
      if turnId = id then some turn else getTurn items id := by
  rw [putTurn]
  split
  · rename_i hsome
    rw [getTurn_replaceTurn_with hturn]
    by_cases he : turnId = id
    · subst he
      obtain ⟨existing, hget⟩ := isSome_iff_exists.mp hsome
      rw [if_pos rfl, if_pos rfl, hget, map_some]
    · rw [if_neg he, if_neg he]
  · rename_i hnone
    subst hturn
    exact getTurn_insertTurn (not_isSome_iff_eq_none.mp hnone) id

theorem getTurn_filter (ids : List Text) (id : Text) :
    getTurn (items.filter fun entry => itemIdOf entry ∉ ids) id =
      if id ∈ ids then none else getTurn items id := by
  have hturns : turnsOf (items.filter fun entry => itemIdOf entry ∉ ids) =
      (turnsOf items).filter fun turn => turn.turnId ∉ ids := by
    rw [turnsOf, turnsOf, filterMap_filter, filter_filterMap]
    apply filterMap_congr
    intro entry _
    cases entry with
    | turn turn =>
      by_cases hid : turn.turnId ∈ ids
      · simp [itemIdOf, TranscriptItem.asTurn, Option.filter, hid]
      · simp [itemIdOf, TranscriptItem.asTurn, Option.filter, hid]
    | _ => simp [TranscriptItem.asTurn]
  rw [getTurn, hturns]
  exact find_filter_ids ids

theorem getTurn_replaceItem (hitem : item.asTurn = none) {itemId id : Text} (hid : itemId ≠ id) :
    getTurn (items.map fun entry => if itemIdOf entry = itemId then item else entry) id = getTurn items id := by
  rw [getTurn, turnsOf_replaceItem hitem, find?_filter]
  congr 1
  funext turn
  by_cases hturn : turn.turnId = id
  · simp [hturn, Ne.symm hid]
  · simp [hturn]

variable [DecidableEq C]

def landed (turn : TranscriptTurn C) (step : TranscriptStep C) (frame : TranscriptFrame C)
    (stepId frameId current : Text) (offset : Nat) (chunk : Text) : Option (TranscriptTurn C) :=
  match appendAtOffset current offset chunk with
  | .text merged =>
    let frames := step.frames.map fun entry =>
      if entry.frameId = frameId then frame.withText merged else entry
    some { turn with
      steps := turn.steps.map fun entry =>
        if entry.stepId = stepId then { step with frames := frames } else entry }
  | _ => none

def appended (turn : TranscriptTurn C) (stepId frameId : Text) (offset : Nat) (chunk : Text) :
    Option (TranscriptTurn C) := do
  let step ← getStep turn stepId
  let frame ← getFrame step frameId
  let current ← frame.streamed
  landed turn step frame stepId frameId current offset chunk

omit [DecidableEq C] in
theorem bind_appended (items : List (TranscriptItem C)) (turnId stepId frameId : Text) (offset : Nat)
    (chunk : Text) : (getTurn items turnId).bind (appended · stepId frameId offset chunk) =
      (streamedFrame items turnId stepId frameId).bind fun found =>
        landed found.1 found.2.1 found.2.2.1 stepId frameId found.2.2.2 offset chunk := by
  simp only [streamedFrame, appended, bind, pure, bind_assoc, bind_some]

def turnEffect (nt : NumberText) (id : Text) :
    TranscriptOperation C → Option (TranscriptTurn C) → Option (TranscriptTurn C)
  | .turnUpsert header, turn =>
    if header.turnId = id then
      if turn.any fun turn => turnEquals turn header then turn
      else some { toTurnHeader := header, steps := (turn.map TranscriptTurn.steps).getD [] }
    else turn
  | .stepUpsert turnId header, turn =>
    if turnId = id then
      let found := turn.getD (skeletonTurn nt id)
      ((upsertStep found header).map fun steps => { found with steps := steps }).or turn
    else turn
  | .frameUpsert turnId stepId frame, turn =>
    if turnId = id then
      let found := turn.getD (skeletonTurn nt id)
      let step := (getStep found stepId).getD (skeletonStep nt stepId id)
      ((upsertFrame step frame).map fun frames =>
        { found with steps := putStep found.steps stepId { step with frames := frames } }).or turn
    else turn
  | .append (.frame turnId stepId frameId) offset chunk, turn =>
    if turnId = id then (turn.bind (appended · stepId frameId offset chunk)).or turn else turn
  | .itemsRemove ids, turn => if id ∈ ids then none else turn
  | _, turn => turn

omit [DecidableEq C] in
theorem getTurn_frameAppend (state : AgentState C) (turnId stepId frameId : Text) (offset : Nat)
    (chunk : Text) (id : Text) :
    getTurn (applyFrameAppend state turnId stepId frameId offset chunk).state.items id =
      if turnId = id then
        ((getTurn state.items id).bind (appended · stepId frameId offset chunk)).or
          (getTurn state.items id)
      else getTurn state.items id := by
  rw [applyFrameAppend]
  cases hframe : streamedFrame state.items turnId stepId frameId with
  | none =>
    dsimp only
    split
    · rename_i hid
      rw [← hid, bind_appended, hframe]
      rfl
    · rfl
  | some found =>
    obtain ⟨turn, step, frame, current⟩ := found
    obtain ⟨hturn, hturnId⟩ := getTurn_mem (streamedFrame_spec hframe).1
    have hlanded : turnId = id → (getTurn state.items id).bind (appended · stepId frameId offset chunk) =
        landed turn step frame stepId frameId current offset chunk := by
      rintro rfl
      rw [bind_appended, hframe]
      rfl
    dsimp only
    cases hplaced : appendAtOffset current offset chunk with
    | gap gap =>
      dsimp only
      split
      · rename_i hid
        rw [hlanded hid, landed, hplaced]
        rfl
      · rfl
    | unchanged =>
      dsimp only
      split
      · rename_i hid
        rw [hlanded hid, landed, hplaced]
        rfl
      · rfl
    | text merged =>
      dsimp only
      rw [getTurn_replaceTurn_with]
      · split
        · rename_i hid
          rw [hlanded hid, landed, hplaced, ← hid, (streamedFrame_spec hframe).1]
          rfl
        · rfl
      · exact hturnId

theorem getTurn_itemUpsert {item : TranscriptItem C} (hitem : item.asTurn = none)
    {itemId id : Text} (hid : itemId ≠ id) (beforeTurn : Option ℚ) :
    getTurn (applyItemUpsert state item itemId beforeTurn).state.items id = getTurn state.items id := by
  rw [applyItemUpsert]
  split
  · exact getTurn_replaceItem hitem hid
  · rw [getTurn, turnsOf_spliceBefore hitem]
    rfl

theorem getTurn_apply (nt : NumberText) (state : AgentState C) (hop : Documented nt op) (hpart : op.part ≠ .whole) (q : ℚ) :
    getTurn (applyOperation nt state op).state.items (turnId nt q) =
      turnEffect nt (turnId nt q) op (getTurn state.items (turnId nt q)) := by
  cases op with
  | reset agentId snapshot => exact absurd rfl hpart
  | turnUpsert header =>
    rw [applyOperation, applyTurnUpsert, turnEffect]
    cases hget : getTurn state.items header.turnId with
    | none =>
      rw [getTurn_insertTurn hget]
      split
      · rename_i hid
        rw [← hid, hget]
        rfl
      · rfl
    | some existing =>
      dsimp only
      have hfn : ∀ t : TranscriptTurn C, t.turnId = header.turnId →
          ({ toTurnHeader := header, steps := t.steps } : TranscriptTurn C).turnId = header.turnId :=
        fun _ _ => rfl
      by_cases hid : header.turnId = turnId nt q
      · rw [← hid, hget, if_pos rfl, any_some]
        split
        · exact hget
        · rw [getTurn_replaceTurn hfn, if_pos rfl, hget]
          rfl
      · split
        · rfl
        · rw [getTurn_replaceTurn hfn, if_neg hid]
  | stepUpsert turn header =>
    rw [applyOperation, applyStepUpsert, turnEffect]
    dsimp only
    have hfound := UniqueTurns.turnId_getD nt state.items turn
    cases hsteps : upsertStep ((getTurn state.items turn).getD (skeletonTurn nt turn)) header with
    | none =>
      dsimp only
      split
      · rename_i hid
        rw [← hid, hsteps]
        rfl
      · rfl
    | some steps =>
      rw [getTurn_putTurn]
      · split
        · rename_i hid
          rw [← hid, hsteps]
          rfl
        · rfl
      · exact hfound
  | frameUpsert turn stepId frame =>
    rw [applyOperation, applyFrameUpsert, turnEffect]
    dsimp only
    have hfound := UniqueTurns.turnId_getD nt state.items turn
    cases hframes : upsertFrame ((getStep ((getTurn state.items turn).getD
        (skeletonTurn nt turn)) stepId).getD (skeletonStep nt stepId turn)) frame with
    | none =>
      dsimp only
      split
      · rename_i hid
        rw [← hid, hframes]
        rfl
      · rfl
    | some frames =>
      rw [getTurn_putTurn]
      · split
        · rename_i hid
          rw [← hid, hframes]
          rfl
        · rfl
      · exact hfound
  | append target offset chunk =>
    cases target with
    | frame turn stepId frameId => exact getTurn_frameAppend ..
    | task taskId => rw [items_of_beside nt state rfl]; rfl
  | markerUpsert item beforeTurn => exact getTurn_itemUpsert rfl (hop q) beforeTurn
  | taskrefUpsert item beforeTurn => exact getTurn_itemUpsert rfl (hop q) beforeTurn
  | itemsRemove ids =>
    rw [applyOperation, items_itemsRemove]
    exact getTurn_filter ids _
  | _ => rw [items_of_beside nt state rfl]; rfl

omit [DecidableEq C] in
theorem getStep_sortSteps {step : TranscriptStep C}
    (hnodup : (steps.map fun s => s.stepId).Nodup) (hnew : ∀ s ∈ steps, s.stepId ≠ step.stepId)
    (stepId : Text) : (sortSteps (steps ++ [step])).find? (fun s => s.stepId = stepId) =
      if step.stepId = stepId then some step else steps.find? fun s => s.stepId = stepId := by
  have hsorted : ((sortSteps (steps ++ [step])).map fun s => s.stepId).Nodup := by
    have hperm : (sortSteps (steps ++ [step])).Perm (steps ++ [step]) := perm_insertionSort ..
    rw [(hperm.map _).nodup_iff, map_append, nodup_append]
    refine ⟨hnodup, nodup_singleton _, ?_⟩
    intro a ha b hb
    obtain ⟨s, hs, rfl⟩ := List.mem_map.mp ha
    obtain rfl := mem_singleton.mp hb
    exact hnew s hs
  apply Option.ext
  intro s
  rw [find_iff hsorted, mem_sortSteps]
  by_cases hid : step.stepId = stepId
  · rw [if_pos hid]
    constructor
    · rintro ⟨hs | rfl, hsid⟩
      · exact absurd (hsid.trans hid.symm) (hnew s hs)
      · rfl
    · intro hs
      obtain rfl := Option.some.inj hs
      exact ⟨.inr rfl, hid⟩
  · rw [if_neg hid, find_iff hnodup]
    constructor
    · rintro ⟨hs | rfl, hsid⟩
      · exact ⟨hs, hsid⟩
      · exact absurd hsid hid
    · exact fun h => ⟨.inl h.1, h.2⟩

def frameAppended (step : TranscriptStep C) (frameId : Text) (offset : Nat) (chunk : Text) :
    Option (TranscriptStep C) := do
  let frame ← getFrame step frameId
  let current ← frame.streamed
  match appendAtOffset current offset chunk with
  | .text merged =>
    some { step with
      frames := step.frames.map fun entry =>
        if entry.frameId = frameId then frame.withText merged else entry }
  | _ => none

section

omit [DecidableEq C]

theorem appended_eq (turn : TranscriptTurn C) (stepId frameId : Text) (offset : Nat) (chunk : Text) :
    appended turn stepId frameId offset chunk = (getStep turn stepId).bind fun step =>
      (frameAppended step frameId offset chunk).map fun next =>
        { turn with
          steps := turn.steps.map fun entry => if entry.stepId = stepId then next else entry } := by
  rw [appended]
  cases getStep turn stepId with
  | none => rfl
  | some step =>
    simp only [bind, bind_some, frameAppended]
    cases getFrame step frameId with
    | none => rfl
    | some frame =>
      rw [bind_some, bind_some]
      cases frame.streamed with
      | none => rfl
      | some current =>
        rw [bind_some, bind_some, landed]
        cases appendAtOffset current offset chunk <;> rfl

theorem frameAppended_header {step next : TranscriptStep C}
    (h : frameAppended step frameId offset chunk = some next) :
    next.toStepHeader = step.toStepHeader := by
  obtain ⟨frame, _, h⟩ := bind_eq_some_iff.mp h
  obtain ⟨current, _, h⟩ := bind_eq_some_iff.mp h
  cases hplaced : appendAtOffset current offset chunk with
  | text merged =>
    rw [hplaced] at h
    obtain rfl := some.inj h
    rfl
  | _ =>
    rw [hplaced] at h
    cases h

end

def stepEffect (nt : NumberText) (id stepId : Text) :
    TranscriptOperation C → Option (TranscriptStep C) → Option (TranscriptStep C)
  | .stepUpsert turnId header, step =>
    if turnId = id ∧ header.stepId = stepId then
      if step.any fun step => stepEquals step header then step
      else some { toStepHeader := header, frames := (step.map TranscriptStep.frames).getD [] }
    else step
  | .frameUpsert turnId frameStep frame, step =>
    if turnId = id ∧ frameStep = stepId then
      let found := step.getD (skeletonStep nt stepId id)
      ((upsertFrame found frame).map fun frames => { found with frames := frames }).or step
    else step
  | .append (.frame turnId frameStep frameId) offset chunk, step =>
    if turnId = id ∧ frameStep = stepId then
      (step.bind (frameAppended · frameId offset chunk)).or step
    else step
  | .itemsRemove ids, step => if id ∈ ids then none else step
  | _, step => step

section

omit [DecidableEq C]

theorem getStep_getD (nt : NumberText) (turn : Option (TranscriptTurn C)) (id stepId : Text) :
    getStep (turn.getD (skeletonTurn nt id)) stepId = turn.bind (getStep · stepId) := by
  cases turn <;> rfl

theorem getStep_map {id : Text} {fn : TranscriptStep C → TranscriptStep C}
    (hfn : ∀ s, s.stepId = id → (fn s).stepId = id) (stepId : Text) :
    (turn.steps.map fun s => if s.stepId = id then fn s else s).find? (fun s => s.stepId = stepId) =
      if id = stepId then (getStep turn stepId).map fn else getStep turn stepId := by
  rw [find_map_keeping]
  · rw [← getStep]
    cases hget : getStep turn stepId with
    | none => rw [map_none, map_none, ite_self]
    | some step =>
      rw [map_some, map_some, (getStep_mem hget).2]
      by_cases he : id = stepId
      · rw [if_pos he, if_pos he.symm]
      · rw [if_neg he, if_neg (Ne.symm he)]
  · intro s _
    split
    · rename_i hs
      exact (hfn s hs).trans hs.symm
    · rfl

end

theorem getStep_stepUpsert (hnodup : (turn.steps.map fun s => s.stepId).Nodup)
    {steps : List (TranscriptStep C)} (h : upsertStep turn header = some steps)
    (stepId : Text) : steps.find? (fun s => s.stepId = stepId) =
      if header.stepId = stepId then
        some { toStepHeader := header, frames := ((getStep turn stepId).map TranscriptStep.frames).getD [] }
      else getStep turn stepId := by
  rw [upsertStep] at h
  cases hget : getStep turn header.stepId with
  | none =>
    rw [hget] at h
    cases h
    rw [getStep_sortSteps hnodup (getStep_eq_none.mp hget)]
    split
    · rename_i hid
      rw [← hid, hget]
      rfl
    · rfl
  | some current =>
    rw [hget] at h
    obtain ⟨_, h⟩ := ite_none_left_eq_some.mp h
    cases h
    have hfn : ∀ s : TranscriptStep C, s.stepId = header.stepId →
        ({ toStepHeader := header, frames := s.frames } : TranscriptStep C).stepId = header.stepId :=
      fun _ _ => rfl
    rw [getStep_map hfn]
    split
    · rename_i hid
      rw [← hid, hget]
      rfl
    · rfl

theorem upsertStep_eq_none {header : StepHeader C} (h : upsertStep turn header = none) :
    (getStep turn header.stepId).any fun step => stepEquals step header := by
  rw [upsertStep] at h
  cases hget : getStep turn header.stepId with
  | none =>
    rw [hget] at h
    cases h
  | some current =>
    rw [hget] at h
    dsimp only at h
    rw [any_some]
    by_contra hne
    rw [if_neg hne] at h
    cases h

theorem upsertStep_ne_none {header : StepHeader C} (h : upsertStep turn header = some steps) :
    ¬(getStep turn header.stepId).any fun step => stepEquals step header := by
  rw [upsertStep] at h
  cases hget : getStep turn header.stepId with
  | none => exact Bool.false_ne_true
  | some current =>
    rw [hget] at h
    exact (ite_none_left_eq_some.mp h).1

omit [DecidableEq C] in
theorem getStep_putStep (hnodup : (turn.steps.map fun s => s.stepId).Nodup)
    {step : TranscriptStep C} {id : Text} (hstep : step.stepId = id) (stepId : Text) :
    (putStep turn.steps id step).find? (fun s => s.stepId = stepId) =
      if id = stepId then some step else getStep turn stepId := by
  rw [putStep]
  split
  · rename_i hany
    have hfn : ∀ s : TranscriptStep C, s.stepId = id → step.stepId = id := fun _ _ => hstep
    rw [getStep_map hfn]
    split
    · rename_i hid
      subst hid
      obtain ⟨s, hs, hsid⟩ := List.any_eq_true.mp hany
      rw [getStep, find_of_mem hnodup hs (of_decide_eq_true hsid)]
      rfl
    · rfl
  · rename_i hnone
    subst hstep
    apply getStep_sortSteps hnodup
    intro s hs hid
    exact hnone (List.any_eq_true.mpr ⟨s, hs, decide_eq_true hid⟩)

theorem getStep_turnEffect (nt : NumberText)
    (hnodup : ∀ t ∈ turn, (t.steps.map fun s => s.stepId).Nodup) (id stepId : Text)
    (op : TranscriptOperation C) :
    (turnEffect nt id op turn).bind (getStep · stepId) =
      stepEffect nt id stepId op (turn.bind (getStep · stepId)) := by
  have hfound : ((turn.getD (skeletonTurn nt id)).steps.map fun s => s.stepId).Nodup := by
    cases turn with
    | none => exact nodup_nil
    | some t => exact hnodup t rfl
  cases op with
  | turnUpsert header =>
    rw [turnEffect]
    split
    · split
      · rfl
      · cases turn <;> rfl
    · rfl
  | stepUpsert turnId header =>
    rw [turnEffect, stepEffect]
    by_cases hid : turnId = id
    · rw [if_pos hid]
      dsimp only
      rw [← getStep_getD nt turn id stepId]
      cases hsteps : upsertStep (turn.getD (skeletonTurn nt id)) header with
      | none =>
        rw [map_none, none_or, ← getStep_getD nt turn id stepId]
        split
        · rename_i hboth
          rw [if_pos (hboth.2 ▸ upsertStep_eq_none hsteps)]
        · rfl
      | some steps =>
        refine (getStep_stepUpsert hfound hsteps stepId).trans ?_
        by_cases hstep : header.stepId = stepId
        · rw [if_pos hstep, if_pos ⟨hid, hstep⟩, if_neg (hstep ▸ upsertStep_ne_none hsteps)]
        · rw [if_neg hstep, if_neg fun h => hstep h.2]
    · rw [if_neg hid, if_neg fun h => hid h.1]
  | frameUpsert turnId frameStep frame =>
    rw [turnEffect, stepEffect]
    by_cases hid : turnId = id
    · rw [if_pos hid]
      dsimp only
      have hsame := getStep_getD nt turn id stepId
      rw [← hsame]
      generalize turn.getD (skeletonTurn nt id) = found at hfound hsame ⊢
      have hstepId : ((getStep found frameStep).getD (skeletonStep nt frameStep id)).stepId = frameStep := by
        cases hget : getStep found frameStep with
        | none => rfl
        | some step => exact (getStep_mem hget).2
      cases hframes : upsertFrame ((getStep found frameStep).getD (skeletonStep nt frameStep id)) frame with
      | none =>
        rw [map_none, none_or, ← hsame]
        split
        · rename_i hboth
          rw [← hboth.2, hframes]
          rfl
        · rfl
      | some frames =>
        refine (getStep_putStep hfound ?_ stepId).trans ?_
        · exact hstepId
        · by_cases hstep : frameStep = stepId
          · subst hstep
            rw [if_pos rfl, if_pos ⟨hid, rfl⟩, hframes]
            rfl
          · rw [if_neg hstep, if_neg fun h => hstep h.2]
    · rw [if_neg hid, if_neg fun h => hid h.1]
  | append target offset chunk =>
    cases target with
    | task taskId => rfl
    | frame turnId frameStep frameId =>
      rw [turnEffect, stepEffect]
      by_cases hid : turnId = id
      · rw [if_pos hid]
        cases turn with
        | none => exact (ite_self _).symm
        | some t =>
          rw [bind_some, bind_some, appended_eq]
          cases hget : getStep t frameStep with
          | none =>
            rw [bind_none, none_or, bind_some]
            split
            · rename_i hboth
              rw [← hboth.2, hget]
              rfl
            · rfl
          | some step =>
            rw [bind_some]
            cases hframe : frameAppended step frameId offset chunk with
            | none =>
              rw [map_none, none_or, bind_some]
              split
              · rename_i hboth
                rw [← hboth.2, hget, bind_some, hframe]
                rfl
              · rfl
            | some next =>
              have hnext : next.stepId = frameStep :=
                (congrArg StepHeader.stepId (frameAppended_header hframe)).trans (getStep_mem hget).2
              refine (getStep_map (fun _ _ => hnext) stepId).trans ?_
              by_cases hstep : frameStep = stepId
              · subst hstep
                rw [if_pos rfl, if_pos ⟨hid, rfl⟩, hget, bind_some, hframe]
                rfl
              · rw [if_neg hstep, if_neg fun h => hstep h.2]
      · rw [if_neg hid, if_neg fun h => hid h.1]
  | itemsRemove ids =>
    rw [turnEffect, stepEffect]
    split <;> rfl
  | _ => rfl

/-! A frame, and the headers of a step and of a turn, as registers. -/

/-- What `frameEquals` compares of frames with one id. -/
def frameKey : TranscriptFrame C → TranscriptFrame C
  | .notice frame => .notice { frame with source := none }
  | frame => frame

def TranscriptFrame.isNotice : TranscriptFrame C → Prop
  | .notice _ => True
  | _ => False

omit [DecidableEq C] in
theorem eq_of_frameKey (v w : TranscriptFrame C) (hv : ¬v.isNotice) (h : frameKey w = frameKey v) : w = v := by
  cases v with
  | notice => exact absurd trivial hv
  | _ =>
    cases w with
    | notice => cases h
    | _ => exact h

theorem frameEquals_iff {a b : TranscriptFrame C} (hid : a.frameId = b.frameId) :
    frameEquals a b ↔ frameKey a = frameKey b := by
  cases a with
  | text a =>
    cases b with
    | text b =>
      cases a
      simp_all [frameEquals, frameKey, TranscriptFrame.frameId]
    | _ => simp [frameEquals, frameKey]
  | thinking a =>
    cases b with
    | thinking b =>
      cases a
      cases b
      simp_all [frameEquals, frameKey, TranscriptFrame.frameId]
    | _ => simp [frameEquals, frameKey]
  | tool a =>
    cases b with
    | tool b =>
      cases a
      simp_all [frameEquals, frameKey, TranscriptFrame.frameId]
    | _ => simp [frameEquals, frameKey]
  | notice a =>
    cases b with
    | notice b =>
      cases b
      simp_all [frameEquals, frameKey, TranscriptFrame.frameId]
    | _ => simp [frameEquals, frameKey]

def appendFrame (offset : Nat) (chunk : Text) : Option (TranscriptFrame C) → Option (TranscriptFrame C)
  | none => none
  | some frame =>
    match frame.streamed.map fun current => appendAtOffset current offset chunk with
    | some (.text merged) => some (frame.withText merged)
    | _ => some frame

def frameWrite (id stepId frameId : Text) : TranscriptOperation C → Write (TranscriptFrame C)
  | .frameUpsert turnId frameStep frame =>
    if turnId = id ∧ frameStep = stepId ∧ frame.frameId = frameId then .put frame else .skip
  | .append (.frame turnId frameStep f) offset chunk =>
    if turnId = id ∧ frameStep = stepId ∧ f = frameId then .amend (appendFrame offset chunk) else .skip
  | .itemsRemove ids => if id ∈ ids then .clear else .skip
  | _ => .skip

/-- What `stepEquals` compares of steps with one id. -/
def stepKey (header : StepHeader C) : StepHeader C := { header with turnId := [] }

def stepWrite (nt : NumberText) (id stepId : Text) : TranscriptOperation C → Write (StepHeader C)
  | .stepUpsert turnId header => if turnId = id ∧ header.stepId = stepId then .put header else .skip
  | .frameUpsert turnId frameStep _ =>
    if turnId = id ∧ frameStep = stepId then
      .amend (·.or (some (skeletonStep nt stepId id).toStepHeader))
    else .skip
  | .itemsRemove ids => if id ∈ ids then .clear else .skip
  | _ => .skip

/-- What `turnEquals` compares of turns with one id. -/
def turnKey (header : TurnHeader C) : TurnHeader C :=
  { header with origin := { header.origin with taskId := none } }

def turnWrite (nt : NumberText) (id : Text) : TranscriptOperation C → Write (TurnHeader C)
  | .turnUpsert header => if header.turnId = id then .put header else .skip
  | .stepUpsert turnId _ => if turnId = id then .amend (·.or (some (skeletonTurn nt id).toTurnHeader)) else .skip
  | .frameUpsert turnId _ _ =>
    if turnId = id then .amend (·.or (some (skeletonTurn nt id).toTurnHeader)) else .skip
  | .itemsRemove ids => if id ∈ ids then .clear else .skip
  | _ => .skip

theorem turnEquals_iff {header : TurnHeader C} (hid : turn.turnId = header.turnId) :
    turnEquals turn header ↔ turnKey turn.toTurnHeader = turnKey header := by
  have horigin : ∀ a b : TurnOrigin C,
      ({ kind := a.kind, taskId := b.taskId, payload := a.payload } : TurnOrigin C) = b ↔
        a.kind = b.kind ∧ a.payload = b.payload := by
    intro a b
    cases b
    simp
  rw [turnEquals, decide_eq_true_eq]
  cases header
  simp only [turnKey, TurnHeader.mk.injEq, TurnOrigin.mk.injEq] at hid ⊢
  simp only [horigin, hid, true_and]

theorem stepEquals_iff {header : StepHeader C} (hid : step.stepId = header.stepId) :
    stepEquals step header ↔ stepKey step.toStepHeader = stepKey header := by
  rw [stepEquals, decide_eq_true_eq]
  cases header
  simp only [stepKey] at hid ⊢
  simp [hid]

theorem map_turnEffect (nt : NumberText) {id : Text} (hid : ∀ t ∈ turn, t.turnId = id) (op : TranscriptOperation C) :
    (turnEffect nt id op turn).map TranscriptTurn.toTurnHeader =
      (turnWrite nt id op).run turnKey (turn.map TranscriptTurn.toTurnHeader) := by
  cases op with
  | turnUpsert header =>
    rw [turnEffect, turnWrite]
    split
    · rename_i hheader
      rw [Write.run]
      have hsame : (turn.any fun turn => turnEquals turn header) ↔
          (turn.map TranscriptTurn.toTurnHeader).map turnKey = some (turnKey header) := by
        cases turn with
        | none => exact iff_of_false Bool.false_ne_true (some_ne_none _).symm
        | some t =>
          rw [any_some, turnEquals_iff ((hid t rfl).trans hheader.symm)]
          exact some_inj.symm
      by_cases hany : turn.any fun turn => turnEquals turn header
      · rw [if_pos hany, if_pos (hsame.mp hany)]
      · rw [if_neg hany, if_neg (mt hsame.mpr hany)]
        rfl
    · rfl
  | stepUpsert turnId header =>
    rw [turnEffect, turnWrite]
    split
    · dsimp only
      cases hsteps : upsertStep (turn.getD (skeletonTurn nt id)) header with
      | none =>
        cases turn with
        | none => exact absurd hsteps (upsertStep_of_nil rfl header)
        | some t => rfl
      | some steps => cases turn <;> rfl
    · rfl
  | frameUpsert turnId frameStep frame =>
    rw [turnEffect, turnWrite]
    split
    · dsimp only
      generalize hstep : (getStep (turn.getD (skeletonTurn nt id)) frameStep).getD
        (skeletonStep nt frameStep id) = step
      cases hframes : upsertFrame step frame with
      | none =>
        cases turn with
        | none =>
          subst hstep
          exact absurd hframes (upsertFrame_of_nil rfl frame)
        | some t => rfl
      | some steps => cases turn <;> rfl
    · rfl
  | append target offset chunk =>
    cases target with
    | task taskId => rfl
    | frame turnId frameStep frameId =>
      rw [turnEffect]
      split
      · cases turn with
        | none => rfl
        | some t =>
          rw [bind_some, appended_eq]
          cases getStep t frameStep with
          | none => rfl
          | some step =>
            rw [bind_some]
            cases frameAppended step frameId offset chunk <;> rfl
      · rfl
  | itemsRemove ids =>
    rw [turnEffect, turnWrite]
    split <;> rfl
  | _ => rfl

theorem map_stepEffect (nt : NumberText) {id stepId : Text}
    (hid : ∀ s ∈ step, s.stepId = stepId) (op : TranscriptOperation C) :
    (stepEffect nt id stepId op step).map TranscriptStep.toStepHeader =
      (stepWrite nt id stepId op).run stepKey (step.map TranscriptStep.toStepHeader) := by
  cases op with
  | stepUpsert turnId header =>
    rw [stepEffect, stepWrite]
    split
    · rename_i hheader
      rw [Write.run]
      have hsame : (step.any fun step => stepEquals step header) ↔
          (step.map TranscriptStep.toStepHeader).map stepKey = some (stepKey header) := by
        cases step with
        | none => exact iff_of_false Bool.false_ne_true (some_ne_none _).symm
        | some s =>
          rw [any_some, stepEquals_iff ((hid s rfl).trans hheader.2.symm)]
          exact some_inj.symm
      by_cases hany : step.any fun step => stepEquals step header
      · rw [if_pos hany, if_pos (hsame.mp hany)]
      · rw [if_neg hany, if_neg (mt hsame.mpr hany)]
        rfl
    · rfl
  | frameUpsert turnId frameStep frame =>
    rw [stepEffect, stepWrite]
    split
    · dsimp only
      cases hframes : upsertFrame (step.getD (skeletonStep nt stepId id)) frame with
      | none =>
        cases step with
        | none => exact absurd hframes (upsertFrame_of_nil rfl frame)
        | some s => rfl
      | some frames => cases step <;> rfl
    · rfl
  | append target offset chunk =>
    cases target with
    | task taskId => rfl
    | frame turnId frameStep frameId =>
      rw [stepEffect]
      split
      · cases step with
        | none => rfl
        | some s =>
          rw [bind_some]
          cases hframe : frameAppended s frameId offset chunk with
          | none => rfl
          | some next => exact congrArg some (frameAppended_header hframe)
      · rfl
  | itemsRemove ids =>
    rw [stepEffect, stepWrite]
    split <;> rfl
  | _ => rfl

theorem upsertFrame_cases (step : TranscriptStep C) (frame : TranscriptFrame C) :
    (∃ current, getFrame step frame.frameId = some current ∧ frameKey current = frameKey frame ∧
        upsertFrame step frame = none) ∨
      (∃ current, getFrame step frame.frameId = some current ∧ frameKey current ≠ frameKey frame ∧
        upsertFrame step frame =
          some (step.frames.map fun entry => if entry.frameId = frame.frameId then frame else entry)) ∨
      getFrame step frame.frameId = none ∧ upsertFrame step frame = some (step.frames ++ [frame]) := by
  rw [upsertFrame]
  cases hget : getFrame step frame.frameId with
  | none => exact .inr (.inr ⟨rfl, rfl⟩)
  | some current =>
    have hequals := frameEquals_iff (getFrame_mem hget).2
    by_cases hkey : frameKey current = frameKey frame
    · exact .inl ⟨current, rfl, hkey, if_pos (hequals.mpr hkey)⟩
    · exact .inr (.inl ⟨current, rfl, hkey, if_neg (mt hequals.mp hkey)⟩)

section

omit [DecidableEq C]

theorem getFrame_map {frame : TranscriptFrame C} {id : Text} (hframe : frame.frameId = id) (frameId : Text) :
    (step.frames.map fun entry => if entry.frameId = id then frame else entry).find?
        (fun f => f.frameId = frameId) =
      if id = frameId then (getFrame step frameId).map fun _ => frame else getFrame step frameId := by
  rw [find_map_keeping]
  · rw [← getFrame]
    cases hget : getFrame step frameId with
    | none => rw [map_none, map_none, ite_self]
    | some found =>
      rw [map_some, map_some, (getFrame_mem hget).2]
      by_cases he : id = frameId
      · rw [if_pos he, if_pos he.symm]
      · rw [if_neg he, if_neg (Ne.symm he)]
  · intro entry _
    split
    · rename_i he
      exact hframe.trans he.symm
    · rfl

theorem getFrame_frameAppended (step : TranscriptStep C) (id : Text) (offset : Nat) (chunk frameId : Text) :
    ((frameAppended step id offset chunk).or (some step)).bind (getFrame · frameId) =
      if id = frameId then appendFrame offset chunk (getFrame step frameId) else getFrame step frameId := by
  rw [frameAppended]
  cases hget : getFrame step id with
  | none =>
    change getFrame step frameId = _
    split
    · rename_i hid
      rw [← hid, hget]
      rfl
    · rfl
  | some frame =>
    cases hcurrent : frame.streamed with
    | none =>
      simp only [bind, bind_some, hcurrent, bind_none, none_or]
      split
      · rename_i hid
        rw [← hid, hget, appendFrame, hcurrent]
        rfl
      · rfl
    | some current =>
      simp only [bind, bind_some, hcurrent]
      cases hplaced : appendAtOffset current offset chunk with
      | text merged =>
        have hframe : (frame.withText merged).frameId = id :=
          (frameId_withText merged frame).trans (getFrame_mem hget).2
        refine (getFrame_map hframe frameId).trans ?_
        split
        · rename_i hid
          simp only [← hid, hget, appendFrame, hcurrent, map_some, hplaced]
        · rfl
      | _ =>
        change getFrame step frameId = _
        split
        · rename_i hid
          simp only [← hid, hget, appendFrame, hcurrent, map_some, hplaced]
        · rfl

end

theorem bind_stepEffect (nt : NumberText) (step : Option (TranscriptStep C)) (id stepId frameId : Text)
    (op : TranscriptOperation C) :
    (stepEffect nt id stepId op step).bind (getFrame · frameId) =
      (frameWrite id stepId frameId op).run frameKey (step.bind (getFrame · frameId)) := by
  cases op with
  | stepUpsert turnId header =>
    rw [stepEffect]
    split
    · split
      · rfl
      · cases step <;> rfl
    · rfl
  | frameUpsert turnId frameStep frame =>
    rw [stepEffect, frameWrite]
    by_cases hhere : turnId = id ∧ frameStep = stepId
    · rw [if_pos hhere]
      dsimp only
      have hget : step.bind (getFrame · frameId) = getFrame (step.getD (skeletonStep nt stepId id)) frameId := by
        cases step <;> rfl
      rw [hget]
      generalize hfound : step.getD (skeletonStep nt stepId id) = found at hget
      rcases upsertFrame_cases found frame with
        ⟨current, hcurrent, hkey, hframes⟩ | ⟨current, hcurrent, hkey, hframes⟩ | ⟨hnone, hframes⟩
      · rw [hframes, map_none, none_or, hget]
        split
        · rename_i hthis
          rw [← hthis.2.2, hcurrent, Write.run, map_some, if_pos (congrArg some hkey)]
        · rfl
      · rw [hframes]
        refine (getFrame_map rfl frameId).trans ?_
        by_cases hid : frame.frameId = frameId
        · subst hid
          rw [if_pos rfl, if_pos ⟨hhere.1, hhere.2, rfl⟩, hcurrent, Write.run, map_some, map_some,
            if_neg fun he => hkey (some.inj he)]
        · rw [if_neg hid, if_neg fun h => hid h.2.2]
          rfl
      · rw [hframes]
        have hlast : (found.frames ++ [frame]).find? (fun f => f.frameId = frameId) =
            (getFrame found frameId).or (if frame.frameId = frameId then some frame else none) := by
          rw [find?_append]
          congr 1
          by_cases hid : frame.frameId = frameId
          · rw [if_pos hid, find?_cons_of_pos (by simpa using hid)]
          · rw [if_neg hid, find?_cons_of_neg (by simpa using hid), find?_nil]
        refine hlast.trans ?_
        by_cases hid : frame.frameId = frameId
        · subst hid
          rw [if_pos rfl, if_pos ⟨hhere.1, hhere.2, rfl⟩, hnone]
          rfl
        · rw [if_neg hid, if_neg fun h => hid h.2.2, or_none]
          rfl
    · rw [if_neg hhere, if_neg fun h => hhere ⟨h.1, h.2.1⟩]
      rfl
  | append target offset chunk =>
    cases target with
    | task taskId => rfl
    | frame turnId frameStep f =>
      rw [stepEffect, frameWrite]
      by_cases hhere : turnId = id ∧ frameStep = stepId
      · rw [if_pos hhere]
        have hrun : (if turnId = id ∧ frameStep = stepId ∧ f = frameId then
            Write.amend (appendFrame offset chunk) else Write.skip).run frameKey
              (step.bind (getFrame · frameId)) =
            if f = frameId then appendFrame offset chunk (step.bind (getFrame · frameId))
            else step.bind (getFrame · frameId) := by
          by_cases hid : f = frameId
          · rw [if_pos ⟨hhere.1, hhere.2, hid⟩, if_pos hid, Write.run]
          · rw [if_neg fun h => hid h.2.2, if_neg hid]
            rfl
        rw [hrun]
        cases step with
        | none => exact (ite_self _).symm
        | some s => exact getFrame_frameAppended s f offset chunk frameId
      · rw [if_neg hhere, if_neg fun h => hhere ⟨h.1, h.2.1⟩]
        rfl
  | itemsRemove ids =>
    rw [stepEffect, frameWrite]
    split <;> rfl
  | _ => rfl

end Echadron.Transcript
