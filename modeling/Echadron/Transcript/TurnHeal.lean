import Echadron.Transcript.Backfill

namespace Echadron.Transcript
open Lib List Option

/-! A turn that ended, healed from what was persisted of it. -/

variable {C : Type}

def ToolCallFrame.hasOutcome (frame : ToolCallFrame C) : Bool := frame.output.isSome || frame.error.isSome

def healHeader (header live : TurnHeader C) : TurnHeader C :=
  { header with
    state := live.state
    prompt := live.prompt.or header.prompt
    startedAt := live.startedAt.or header.startedAt
    endedAt := live.endedAt.or header.endedAt }

/-- What a persisted frame puts in the place of the live one; absent where the live one stays. -/
def healFrame (liveFrame : Option (TranscriptFrame C)) : TranscriptFrame C → Option (TranscriptFrame C)
  | .tool frame =>
    match liveFrame with
    | some (.tool live) =>
      if live.hasOutcome || !frame.hasOutcome then none
      else
        some (.tool { frame with
          display := live.display.or frame.display
          agentRefs := live.agentRefs.or frame.agentRefs
          approvalId := live.approvalId.or frame.approvalId })
    | _ => some (.tool frame)
  | .text frame =>
    match liveFrame with
    | some (.text live) => if frame.text.length ≤ live.text.length then none else some (.text frame)
    | _ => some (.text frame)
  | .thinking frame =>
    match liveFrame with
    | some (.thinking live) => if frame.text.length ≤ live.text.length then none else some (.thinking frame)
    | _ => some (.thinking frame)
  | .notice _ => none

def healStepOps (live : TranscriptTurn C) (turnId : Text) (step : TranscriptStep C) : List (TranscriptOperation C) :=
  match getStep live step.stepId with
  | none => snapshotStepOps turnId step
  | some liveStep =>
    (step.frames.filterMap fun frame => healFrame (getFrame liveStep frame.frameId) frame).map
      (.frameUpsert turnId step.stepId)

def healTurnOps (snapshotTurn : TranscriptTurn C) (liveTurn : Option (TranscriptTurn C)) :
    List (TranscriptOperation C) :=
  match liveTurn with
  | none => snapshotTurnOps snapshotTurn
  | some live =>
    .turnUpsert (healHeader snapshotTurn.toTurnHeader live.toTurnHeader) ::
      snapshotTurn.steps.flatMap (healStepOps live snapshotTurn.turnId)

variable [DecidableEq C]

def healTurn (nt : NumberText) (state : AgentState C) (snapshotTurn : TranscriptTurn C) : AgentState C :=
  applyAll nt state (healTurnOps snapshotTurn (getTurn state.items snapshotTurn.turnId))

def TranscriptFrame.Compared : TranscriptFrame C → Prop
  | .notice _ => False
  | _ => True

variable {nt : NumberText} {turn live : TranscriptTurn C}

def ToolCallFrame.onto (frame live : ToolCallFrame C) : ToolCallFrame C :=
  { frame with
    display := live.display.or frame.display
    agentRefs := live.agentRefs.or frame.agentRefs
    approvalId := live.approvalId.or frame.approvalId }

section

omit [DecidableEq C]

theorem healFrame_tool (live frame : ToolCallFrame C) : healFrame (some (.tool live)) (.tool frame) =
    if live.hasOutcome || !frame.hasOutcome then none else some (.tool (frame.onto live)) := rfl

theorem healFrame_cases {frame next : TranscriptFrame C} (h : healFrame liveFrame frame = some next) :
    (next = frame ∧ frame.Compared) ∨
      ∃ call live, frame = .tool call ∧ liveFrame = some (.tool live) ∧ call.hasOutcome = true ∧
        next = .tool (call.onto live) := by
  cases frame with
  | tool frame =>
    simp only [healFrame] at h
    split at h
    · rename_i live
      split_ifs at h with hkept
      refine Or.inr ⟨frame, live, rfl, rfl, ?_, (some.inj h).symm⟩
      rw [Bool.or_eq_true, not_or] at hkept
      simpa using hkept.2
    · exact Or.inl ⟨(some.inj h).symm, trivial⟩
  | text frame =>
    simp only [healFrame] at h
    split at h
    · split_ifs at h
      exact Or.inl ⟨(some.inj h).symm, trivial⟩
    · exact Or.inl ⟨(some.inj h).symm, trivial⟩
  | thinking frame =>
    simp only [healFrame] at h
    split at h
    · split_ifs at h
      exact Or.inl ⟨(some.inj h).symm, trivial⟩
    · exact Or.inl ⟨(some.inj h).symm, trivial⟩
  | notice frame => cases h

theorem frameId_healFrame {frame next : TranscriptFrame C}
    (h : healFrame liveFrame frame = some next) : next.frameId = frame.frameId := by
  rcases healFrame_cases h with ⟨rfl, _⟩ | ⟨call, live, rfl, _, _, rfl⟩
  · rfl
  · rfl

theorem healFrame_compared {frame next : TranscriptFrame C}
    (h : healFrame liveFrame frame = some next) : next.Compared := by
  rcases healFrame_cases h with ⟨rfl, hcompared⟩ | ⟨call, live, rfl, _, _, rfl⟩
  · exact hcompared
  · trivial

theorem healFrame_self (frame : TranscriptFrame C) : healFrame (some frame) frame = none := by
  cases frame with
  | tool frame =>
    rw [healFrame_tool, if_pos]
    cases frame.hasOutcome <;> rfl
  | text frame => exact if_pos le_rfl
  | thinking frame => exact if_pos le_rfl
  | notice frame => rfl

theorem healFrame_healed (liveFrame : Option (TranscriptFrame C)) (frame : TranscriptFrame C) :
    healFrame ((healFrame liveFrame frame).or liveFrame) frame = none := by
  cases hheal : healFrame liveFrame frame with
  | none => exact hheal
  | some next =>
    rw [some_or]
    rcases healFrame_cases hheal with ⟨rfl, _⟩ | ⟨call, live, rfl, _, houtcome, rfl⟩
    · exact healFrame_self next
    · have hsame : (call.onto live).hasOutcome = call.hasOutcome := rfl
      rw [healFrame_tool, hsame, houtcome]
      rfl

end

section

variable {α : Type} {key : α → Text} {xs : List α} {x : α}

section

omit [DecidableEq C]

theorem find_key_cons (id : Text) : (x :: xs).find? (fun y => key y = id) =
    if key x = id then some x else xs.find? fun y => key y = id := by
  split_ifs with hid
  · exact find?_cons_of_pos (decide_eq_true hid)
  · exact find?_cons_of_neg fun h => hid (of_decide_eq_true h)

theorem find_filterMap (hg : ∀ x y, g x = some y → key y = key x) (hnodup : (xs.map key).Nodup)
    (id : Text) : (xs.filterMap g).find? (fun y => key y = id) = (xs.find? fun y => key y = id).bind g := by
  induction xs with
  | nil => rfl
  | cons x xs ih =>
    rw [map_cons, nodup_cons] at hnodup
    obtain ⟨hnew, hnodup⟩ := hnodup
    rw [find_key_cons]
    cases hx : g x with
    | none =>
      rw [filterMap_cons_none hx, ih hnodup]
      split_ifs with hid
      · have hnone : xs.find? (fun y => key y = id) = none :=
          find_eq_none.mpr fun y hy heq => hnew (hid.trans heq.symm ▸ mem_map_of_mem hy)
        rw [hnone, bind_some, hx]
        rfl
      · rfl
    | some y =>
      rw [filterMap_cons_some hx, find_key_cons, hg x y hx, ih hnodup]
      split_ifs
      · exact hx.symm
      · rfl

theorem map_filterMap_sublist (hg : ∀ x y, g x = some y → key y = key x) (xs : List α) :
    ((xs.filterMap g).map key).Sublist (xs.map key) := by
  induction xs with
  | nil => exact .slnil
  | cons x xs ih =>
    cases hx : g x with
    | none =>
      rw [filterMap_cons_none hx]
      exact .cons _ ih
    | some y =>
      rw [filterMap_cons_some hx, map_cons, map_cons, hg x y hx]
      exact .cons_cons _ ih

end

end

def frameAt (turn : TranscriptTurn C) (stepId frameId : Text) : Option (TranscriptFrame C) :=
  (getStep turn stepId).bind fun step => getFrame step frameId

theorem frameEquals_eq {current frame : TranscriptFrame C} (hid : current.frameId = frame.frameId)
    (hframe : frame.Compared) (h : frameEquals current frame = true) : current = frame := by
  cases current with
  | text current =>
    cases frame with
    | text frame =>
      have hsame := of_decide_eq_true h
      have hid' : frame.frameId = current.frameId := hid.symm
      rw [hid'] at hsame
      exact congrArg TranscriptFrame.text hsame
    | thinking frame => cases h
    | tool frame => cases h
    | notice frame => cases h
  | thinking current =>
    cases frame with
    | thinking frame =>
      obtain ⟨currentId, currentText⟩ := current
      obtain ⟨frameId, frameText⟩ := frame
      obtain rfl : currentText = frameText := of_decide_eq_true h
      obtain rfl : currentId = frameId := hid
      rfl
    | text frame => cases h
    | tool frame => cases h
    | notice frame => cases h
  | tool current =>
    cases frame with
    | tool frame =>
      have hsame := of_decide_eq_true h
      have hid' : frame.frameId = current.frameId := hid.symm
      rw [hid'] at hsame
      exact congrArg TranscriptFrame.tool hsame
    | text frame => cases h
    | thinking frame => cases h
    | notice frame => cases h
  | notice current =>
    cases frame with
    | notice frame => exact hframe.elim
    | text frame => cases h
    | thinking frame => cases h
    | tool frame => cases h

theorem getFrame_upsert {step : TranscriptStep C}
    (hframe : getFrame step frame.frameId = none ∨ frame.Compared) (id : Text) :
    getFrame { step with frames := (upsertFrame step frame).getD step.frames } id =
      if frame.frameId = id then some frame else getFrame step id := by
  rw [upsertFrame]
  cases hfind : getFrame step frame.frameId with
  | none =>
    rw [getFrame] at hfind
    rw [getD_some, getFrame, getFrame, find?_append]
    split_ifs with hid
    · rw [← hid, hfind, none_or]
      exact find?_cons_of_pos (decide_eq_true rfl)
    · have hother : [frame].find? (fun f => f.frameId = id) = none :=
        find_eq_none.mpr (forall_mem_singleton.mpr hid)
      rw [hother, or_none]
  | some current =>
    obtain ⟨_, hcurrent⟩ := getFrame_mem hfind
    rw [hfind] at hframe
    have hnotice := hframe.resolve_left (some_ne_none _)
    dsimp only
    by_cases hequal : frameEquals current frame = true
    · split_ifs with hid
      · rw [← hid, ← frameEquals_eq hcurrent hnotice hequal, hcurrent]
        exact hfind
      · rfl
    · have hkeep : ∀ entry ∈ step.frames,
          (if entry.frameId = frame.frameId then frame else entry).frameId = entry.frameId := by
        intro entry _
        split_ifs with hentry
        · exact hentry.symm
        · rfl
      rw [if_neg hequal, getD_some, getFrame, find_map_keeping hkeep]
      split_ifs with hid
      · rw [getFrame] at hfind
        rw [← hid, hfind, map_some, if_pos hcurrent]
      · rw [getFrame]
        cases hother : step.frames.find? fun entry => entry.frameId = id with
        | none => rfl
        | some entry =>
          obtain ⟨_, hentry⟩ := find_mem hother
          rw [map_some, if_neg (fun heq => hid (heq.symm.trans hentry))]

theorem getStep_frameInto {stepId : Text} {step : TranscriptStep C} (hstep : getStep turn stepId = some step)
    (frame : TranscriptFrame C) (id : Text) :
    getStep { turn with steps := frameInto nt turn stepId frame } id =
      if stepId = id then some { step with frames := (upsertFrame step frame).getD step.frames }
        else getStep turn id := by
  obtain ⟨hmem, hstepId⟩ := getStep_mem hstep
  rw [frameInto, hstep, getD_some]
  cases hframes : upsertFrame step frame with
  | none =>
    split_ifs with hid
    · rw [← hid]
      exact hstep
    · rfl
  | some frames =>
    have hany : (turn.steps.any fun entry => entry.stepId = stepId) = true :=
      any_eq_true.mpr ⟨step, hmem, decide_eq_true hstepId⟩
    have hkeep : ∀ entry ∈ turn.steps,
        (if entry.stepId = stepId then { step with frames := frames } else entry).stepId = entry.stepId := by
      intro entry _
      split_ifs with hentry
      · exact hstepId.trans hentry.symm
      · rfl
    rw [map_some, getD_some, putStep, if_pos hany, getStep, find_map_keeping hkeep, getD_some]
    split_ifs with hid
    · rw [getStep] at hstep
      rw [← hid, hstep, map_some, if_pos hstepId]
    · rw [getStep]
      cases hother : turn.steps.find? fun entry => entry.stepId = id with
      | none => rfl
      | some entry =>
        obtain ⟨_, hentry⟩ := find_mem hother
        rw [map_some, if_neg (fun heq => hid (heq.symm.trans hentry))]

theorem ids_frameInto {stepId : Text} (hstep : getStep turn stepId = some step) (frame : TranscriptFrame C) :
    (frameInto nt turn stepId frame).map (fun s => s.stepId) = turn.steps.map fun s => s.stepId := by
  obtain ⟨hmem, hstepId⟩ := getStep_mem hstep
  rw [frameInto, hstep, getD_some]
  cases hframes : upsertFrame step frame with
  | none => rfl
  | some frames =>
    have hany : (turn.steps.any fun entry => entry.stepId = stepId) = true :=
      any_eq_true.mpr ⟨step, hmem, decide_eq_true hstepId⟩
    rw [map_some, getD_some, putStep, if_pos hany, List.map_map]
    apply map_congr_left
    intro entry _
    rw [Function.comp_apply]
    split_ifs with hentry
    · exact hstepId.trans hentry.symm
    · rfl

structure FramesPut (turn next : TranscriptTurn C) (stepId : Text) (step : TranscriptStep C)
    (frames : List (TranscriptFrame C)) : Prop where
  header : next.toTurnHeader = turn.toTurnHeader
  ids : next.steps.map (fun s => s.stepId) = turn.steps.map fun s => s.stepId
  others : ∀ id, stepId ≠ id → getStep next id = getStep turn id
  step : ∃ put, getStep next stepId = some put ∧
    ∀ id, getFrame put id = (frames.find? fun frame => frame.frameId = id).or (getFrame step id)

theorem framesPut {stepId turnId : Text} {step : TranscriptStep C} {frames : List (TranscriptFrame C)}
    (hstep : getStep turn stepId = some step) (hnodup : (frames.map TranscriptFrame.frameId).Nodup)
    (hframes : ∀ frame ∈ frames, getFrame step frame.frameId = none ∨ frame.Compared) :
    FramesPut turn ((frames.map (TranscriptOperation.frameUpsert turnId stepId)).foldl (onTurn nt) turn) stepId step
      frames := by
  induction frames generalizing turn step with
  | nil => exact ⟨rfl, rfl, fun _ _ => rfl, step, hstep, fun _ => rfl⟩
  | cons frame frames ih =>
    rw [map_cons, nodup_cons] at hnodup
    obtain ⟨hnew, hnodup⟩ := hnodup
    obtain ⟨hframe, hframes⟩ := forall_mem_cons.mp hframes
    have hput := @getStep_frameInto C _ nt turn stepId step hstep frame
    have hthis := hput stepId
    rw [if_pos rfl] at hthis
    have hlater : ∀ later ∈ frames,
        getFrame { step with frames := (upsertFrame step frame).getD step.frames } later.frameId = none ∨
          later.Compared := by
      intro later hmem
      have hne : frame.frameId ≠ later.frameId := fun heq => hnew (heq ▸ mem_map_of_mem hmem)
      rw [getFrame_upsert hframe, if_neg hne]
      exact hframes later hmem
    obtain ⟨hheader, hids, hothers, put, hstepPut, hfind⟩ := ih hthis hnodup hlater
    refine ⟨hheader, hids.trans (ids_frameInto hstep frame), ?_, put, hstepPut, ?_⟩
    · intro id hid
      have hother := hput id
      rw [if_neg hid] at hother
      exact (hothers id hid).trans hother
    · intro id
      rw [hfind, getFrame_upsert hframe]
      by_cases hid : frame.frameId = id
      · have hnone : frames.find? (fun f => f.frameId = id) = none := by
          apply find_eq_none.mpr
          intro later hmem heq
          exact hnew (hid.trans heq.symm ▸ mem_map_of_mem hmem)
        rw [if_pos hid, hnone, find_key_cons, if_pos hid]
        rfl
      · rw [if_neg hid, find_key_cons, if_neg hid]

omit [DecidableEq C] in
theorem find_perm {α : Type} {key : α → Text} {xs ys : List α} (h : xs.Perm ys) (hnodup : (ys.map key).Nodup)
    (id : Text) : xs.find? (fun y => key y = id) = ys.find? fun y => key y = id := by
  apply Option.ext
  intro x
  rw [find_iff hnodup, find_iff ((h.map key).nodup_iff.mpr hnodup), h.mem_iff]

theorem getStep_newStep (hnodup : (turn.steps.map fun s => s.stepId).Nodup)
    (hnew : getStep turn header.stepId = none) :
    (((upsertStep turn header).getD turn.steps).map fun s => s.stepId).Nodup ∧
      ∀ id, getStep { turn with steps := (upsertStep turn header).getD turn.steps } id =
        if header.stepId = id then some { toStepHeader := header, frames := [] } else getStep turn id := by
  have hsteps : (upsertStep turn header).getD turn.steps =
      sortSteps (turn.steps ++ [{ toStepHeader := header, frames := [] }]) := by
    rw [upsertStep, hnew]
    rfl
  have hperm : (sortSteps (turn.steps ++ [{ toStepHeader := header, frames := [] }])).Perm
      (turn.steps ++ [{ toStepHeader := header, frames := [] }]) := perm_insertionSort ..
  have hall : ((turn.steps ++ [({ toStepHeader := header, frames := [] } : TranscriptStep C)]).map
      fun s => s.stepId).Nodup := by
    rw [map_append, nodup_append]
    refine ⟨hnodup, nodup_singleton _, ?_⟩
    intro a ha b hb
    obtain ⟨step, hstep, rfl⟩ := mem_map.mp ha
    rw [mem_singleton.mp hb]
    exact getStep_eq_none.mp hnew step hstep
  rw [hsteps]
  refine ⟨(hperm.map _).nodup_iff.mpr hall, ?_⟩
  intro id
  rw [getStep, find_perm hperm hall, find?_append, find_key_cons]
  rw [getStep] at hnew
  split_ifs with hid
  · rw [← hid, hnew, none_or]
  · rw [find?_nil, or_none, getStep]

def healedAt (live : TranscriptTurn C) (step : TranscriptStep C) (frameId : Text) : Option (TranscriptFrame C) :=
  match getStep live step.stepId with
  | none => getFrame step frameId
  | some liveStep =>
    ((getFrame step frameId).bind (healFrame (getFrame liveStep frameId))).or (getFrame liveStep frameId)

/-- Persisted steps merged into a turn: each of them is healed, and the others are as before. -/
structure Healed (live : TranscriptTurn C) (steps : List (TranscriptStep C)) (turn next : TranscriptTurn C) : Prop where
  header : next.toTurnHeader = turn.toTurnHeader
  nodup : (next.steps.map fun s => s.stepId).Nodup
  others : ∀ id, (∀ step ∈ steps, step.stepId ≠ id) → getStep next id = getStep turn id
  steps : ∀ step ∈ steps, ∃ healed, getStep next step.stepId = some healed ∧ ∀ id, getFrame healed id = healedAt live step id

theorem healed_step {step : TranscriptStep C} (turnId : Text) (hnodup : (turn.steps.map fun s => s.stepId).Nodup)
    (hsame : getStep turn step.stepId = getStep live step.stepId)
    (hframes : (step.frames.map TranscriptFrame.frameId).Nodup) :
    Healed live [step] turn ((healStepOps live turnId step).foldl (onTurn nt) turn) := by
  have hothers {next : TranscriptTurn C} (h : ∀ id, step.stepId ≠ id → getStep next id = getStep turn id) :
      ∀ id, (∀ s ∈ [step], s.stepId ≠ id) → getStep next id = getStep turn id :=
    fun id hid => h id (hid step mem_cons_self)
  cases hlive : getStep live step.stepId with
  | none =>
    obtain ⟨hnodupNew, hgetNew⟩ := getStep_newStep hnodup (hsame.trans hlive)
    have hthis := hgetNew step.stepId
    rw [if_pos rfl] at hthis
    have hput := @framesPut C _ nt { turn with steps := (upsertStep turn step.toStepHeader).getD turn.steps } step.stepId
      turnId { toStepHeader := step.toStepHeader, frames := [] } step.frames hthis hframes (fun _ _ => Or.inl rfl)
    rw [healStepOps, hlive]
    rw [snapshotStepOps, foldl_cons, onTurn]
    refine ⟨hput.header, hput.ids ▸ hnodupNew, hothers ?_, forall_mem_singleton.mpr ?_⟩
    · intro id hid
      rw [hput.others id hid, hgetNew, if_neg hid]
    · obtain ⟨put, hstep, hfind⟩ := hput.step
      refine ⟨put, hstep, ?_⟩
      intro id
      rw [hfind, healedAt, hlive]
      exact or_none
  | some liveStep =>
    have hstepTurn := hsame.trans hlive
    have hkeep : ∀ frame next, healFrame (getFrame liveStep frame.frameId) frame = some next →
        next.frameId = frame.frameId := fun _ _ h => frameId_healFrame h
    have hnotice : ∀ frame ∈ step.frames.filterMap fun frame => healFrame (getFrame liveStep frame.frameId) frame,
        getFrame liveStep frame.frameId = none ∨ frame.Compared := by
      intro frame hframe
      obtain ⟨source, _, hheal⟩ := mem_filterMap.mp hframe
      exact Or.inr (healFrame_compared hheal)
    have hput := @framesPut C _ nt turn step.stepId turnId liveStep
      (step.frames.filterMap fun frame => healFrame (getFrame liveStep frame.frameId) frame) hstepTurn
      (List.Nodup.sublist (map_filterMap_sublist hkeep step.frames) hframes) hnotice
    rw [healStepOps, hlive]
    refine ⟨hput.header, hput.ids ▸ hnodup, hothers hput.others, forall_mem_singleton.mpr ?_⟩
    obtain ⟨put, hstep, hfind⟩ := hput.step
    refine ⟨put, hstep, ?_⟩
    intro id
    rw [hfind, healedAt, hlive, find_filterMap hkeep hframes]
    dsimp only
    have hfound : (step.frames.find? fun frame => frame.frameId = id) = getFrame step id := rfl
    rw [hfound]
    cases hframe : getFrame step id with
    | none => rfl
    | some frame =>
      obtain ⟨_, hid⟩ := getFrame_mem hframe
      rw [bind_some, bind_some, hid]

theorem healed_steps (turnId : Text)
    (hnodup : (turn.steps.map fun s => s.stepId).Nodup) (hids : (steps.map fun s => s.stepId).Nodup)
    (hframes : ∀ step ∈ steps, (step.frames.map TranscriptFrame.frameId).Nodup)
    (hsame : ∀ step ∈ steps, getStep turn step.stepId = getStep live step.stepId) :
    Healed live steps turn ((steps.flatMap (healStepOps live turnId)).foldl (onTurn nt) turn) := by
  induction steps generalizing turn with
  | nil =>
    refine ⟨rfl, hnodup, fun _ _ => rfl, ?_⟩
    intro step hstep
    cases hstep
  | cons step steps ih =>
    rw [map_cons, nodup_cons] at hids
    obtain ⟨hnew, hids⟩ := hids
    obtain ⟨hframe, hframes⟩ := forall_mem_cons.mp hframes
    obtain ⟨hthis, hsame⟩ := forall_mem_cons.mp hsame
    have hfirst := @healed_step C _ nt turn live step turnId hnodup hthis hframe
    have hne : ∀ later ∈ steps, step.stepId ≠ later.stepId :=
      fun later hmem heq => hnew (heq ▸ mem_map_of_mem hmem)
    have hsame' : ∀ later ∈ steps, getStep ((healStepOps live turnId step).foldl (onTurn nt) turn) later.stepId =
        getStep live later.stepId := by
      intro later hmem
      rw [hfirst.others later.stepId (forall_mem_singleton.mpr (hne later hmem))]
      exact hsame later hmem
    have hrest := ih hfirst.nodup hids hframes hsame'
    rw [flatMap_cons, foldl_append]
    refine ⟨hrest.header.trans hfirst.header, hrest.nodup, ?_, forall_mem_cons.mpr ⟨?_, hrest.steps⟩⟩
    · intro id hid
      obtain ⟨hidStep, hidSteps⟩ := forall_mem_cons.mp hid
      rw [hrest.others id hidSteps, hfirst.others id (forall_mem_singleton.mpr hidStep)]
    · obtain ⟨healed, hget, hfind⟩ := hfirst.steps step mem_cons_self
      refine ⟨healed, ?_, hfind⟩
      rw [hrest.others step.stepId fun later hmem => (hne later hmem).symm, hget]

variable {snapshotTurn : TranscriptTurn C}

theorem steps_turnUpsert (turn : TranscriptTurn C) (header : TurnHeader C) :
    (onTurn nt turn (.turnUpsert header)).steps = turn.steps := by
  rw [onTurn]
  split_ifs
  · rfl
  · rfl

def healedTurn (nt : NumberText) (snapshotTurn live : TranscriptTurn C) : TranscriptTurn C :=
  (healTurnOps snapshotTurn (some live)).foldl (onTurn nt) live

section

variable (hsnapshot : TurnOrdered nt snapshotTurn) (hnodup : (live.steps.map fun s => s.stepId).Nodup)
include hsnapshot hnodup

theorem healed_turn : Healed live snapshotTurn.steps
      (onTurn nt live (.turnUpsert (healHeader snapshotTurn.toTurnHeader live.toTurnHeader)))
      (healedTurn nt snapshotTurn live) := by
  apply healed_steps _ _ hsnapshot.steps_nodup hsnapshot.frames_nodup
  · intro step _
    rw [getStep, steps_turnUpsert]
    rfl
  · rw [steps_turnUpsert]
    exact hnodup

theorem frameAt_healed {stepId frameId : Text} (hframe : frameAt live stepId frameId = some frame) :
    frameAt (healedTurn nt snapshotTurn live) stepId frameId =
      ((frameAt snapshotTurn stepId frameId).bind (healFrame (some frame))).or (some frame) := by
  obtain ⟨liveStep, hlive, hget⟩ := bind_eq_some_iff.mp hframe
  have hhealed := healed_turn hsnapshot hnodup
  rw [frameAt, frameAt]
  cases hstep : getStep snapshotTurn stepId with
  | none =>
    have hsame := hhealed.others stepId (getStep_eq_none.mp hstep)
    rw [getStep, getStep, steps_turnUpsert] at hsame
    rw [getStep] at hlive
    rw [getStep, hsame, hlive, bind_some, hget]
    rfl
  | some step =>
    obtain ⟨hmem, hid⟩ := getStep_mem hstep
    obtain ⟨healed, hgetHealed, hfind⟩ := hhealed.steps step hmem
    rw [hid] at hgetHealed
    rw [hgetHealed, bind_some, hfind, healedAt, hid, hlive]
    dsimp only
    rw [hget, bind_some]

end

/-- No field that was set becomes unset. -/
structure TurnHeader.Keeps (header next : TurnHeader C) : Prop where
  prompt : header.prompt.isSome → next.prompt.isSome
  attachmentIds : header.attachmentIds.isSome → next.attachmentIds.isSome
  startedAt : header.startedAt.isSome → next.startedAt.isSome
  endedAt : header.endedAt.isSome → next.endedAt.isSome
  usage : header.usage.isSome → next.usage.isSome
  durationMs : header.durationMs.isSome → next.durationMs.isSome
  error : header.error.isSome → next.error.isSome

/-- A call keeps its outcome, the text of its arguments, its progress and its links. -/
structure ToolCallFrame.Keeps (frame next : ToolCallFrame C) : Prop where
  output : frame.output.isSome → next.output.isSome
  error : frame.error.isSome → next.error.isSome
  inputText : frame.inputText.isSome → next.inputText.isSome
  progress : frame.progress.isSome → next.progress.isSome
  taskId : frame.taskId.isSome → next.taskId.isSome
  approvalId : frame.approvalId.isSome → next.approvalId.isSome
  todoId : frame.todoId.isSome → next.todoId.isSome
  agentRefs : frame.agentRefs.isSome → next.agentRefs.isSome

/-- A call that carries nothing. -/
def ToolCallFrame.bare (frame : ToolCallFrame C) : ToolCallFrame C :=
  { frameId := frame.frameId, toolCallId := frame.toolCallId, name := frame.name, state := frame.state }

def TranscriptFrame.Keeps : (frame next : TranscriptFrame C) → Prop
  | .text frame, .text next => frame.text.length ≤ next.text.length
  | .thinking frame, .thinking next => frame.text.length ≤ next.text.length
  | .tool frame, .tool next => frame.Keeps next
  | .tool frame, _ => frame.Keeps frame.bare
  | _, _ => True

structure TranscriptTurn.Keeps (turn next : TranscriptTurn C) : Prop where
  header : turn.toTurnHeader.Keeps next.toTurnHeader
  frames : ∀ stepId frameId frame, frameAt turn stepId frameId = some frame →
    ∃ kept, frameAt next stepId frameId = some kept ∧ frame.Keeps kept

def FrameRecorded : (live frame : TranscriptFrame C) → Prop
  | .tool live, .tool frame =>
    live.hasOutcome = true ∨ frame.hasOutcome = false ∨
      ((live.inputText.isSome → frame.inputText.isSome) ∧ (live.progress.isSome → frame.progress.isSome) ∧
        (live.taskId.isSome → frame.taskId.isSome) ∧ (live.todoId.isSome → frame.todoId.isSome))
  | .tool _, .notice _ => True
  | .tool live, _ => live.Keeps live.bare
  | _, _ => True

/-- What was persisted of a turn has what the live turn has, where the persisted one stands. -/
structure Recorded (live snapshotTurn : TranscriptTurn C) : Prop where
  attachmentIds : live.attachmentIds.isSome → snapshotTurn.attachmentIds.isSome
  usage : live.usage.isSome → snapshotTurn.usage.isSome
  durationMs : live.durationMs.isSome → snapshotTurn.durationMs.isSome
  error : live.error.isSome → snapshotTurn.error.isSome
  frames : ∀ stepId frameId liveFrame frame, frameAt live stepId frameId = some liveFrame →
    frameAt snapshotTurn stepId frameId = some frame → FrameRecorded liveFrame frame

section

omit [DecidableEq C]

theorem ToolCallFrame.Keeps.refl (frame : ToolCallFrame C) : frame.Keeps frame := ⟨id, id, id, id, id, id, id, id⟩

theorem TranscriptFrame.Keeps.refl (frame : TranscriptFrame C) : frame.Keeps frame := by
  cases frame with
  | text frame => exact le_refl frame.text.length
  | thinking frame => exact le_refl frame.text.length
  | tool frame => exact ToolCallFrame.Keeps.refl frame
  | notice frame => trivial

theorem isSome_or_of_left {a b : Option α} (h : a.isSome = true) : (a.or b).isSome = true := by
  rw [isSome_or, h]
  rfl

theorem ToolCallFrame.keeps_onto {live : ToolCallFrame C} (frame : ToolCallFrame C) (h : live.hasOutcome = false) :
    live.Keeps (frame.onto live) ↔
      (live.inputText.isSome → frame.inputText.isSome) ∧ (live.progress.isSome → frame.progress.isSome) ∧
        (live.taskId.isSome → frame.taskId.isSome) ∧ (live.todoId.isSome → frame.todoId.isSome) := by
  obtain ⟨houtput, herror⟩ := Bool.or_eq_false_iff.mp h
  constructor
  · intro hkeeps
    exact ⟨hkeeps.inputText, hkeeps.progress, hkeeps.taskId, hkeeps.todoId⟩
  · rintro ⟨hinputText, hprogress, htaskId, htodoId⟩
    refine ⟨?_, ?_, hinputText, hprogress, htaskId, isSome_or_of_left, htodoId, isSome_or_of_left⟩
    · intro hsome
      rw [houtput] at hsome
      cases hsome
    · intro hsome
      rw [herror] at hsome
      cases hsome

theorem keeps_healFrame (live frame : TranscriptFrame C) :
    live.Keeps ((healFrame (some live) frame).getD live) ↔ FrameRecorded live frame := by
  cases live with
  | tool live =>
    cases frame with
    | tool frame =>
      rw [healFrame_tool]
      by_cases houtcome : live.hasOutcome = true
      · rw [houtcome, Bool.true_or, if_pos rfl]
        exact iff_of_true (ToolCallFrame.Keeps.refl live) (Or.inl houtcome)
      · rw [Bool.not_eq_true] at houtcome
        by_cases hframe : frame.hasOutcome = true
        · rw [houtcome, hframe, Bool.not_true, Bool.or_false, if_neg Bool.false_ne_true]
          apply (ToolCallFrame.keeps_onto frame houtcome).trans
          constructor
          · exact fun h => Or.inr (Or.inr h)
          · rintro (htrue | hfalse | h)
            · rw [houtcome] at htrue
              cases htrue
            · rw [hframe] at hfalse
              cases hfalse
            · exact h
        · rw [Bool.not_eq_true] at hframe
          rw [houtcome, hframe, Bool.not_false, Bool.or_true, if_pos rfl]
          exact iff_of_true (ToolCallFrame.Keeps.refl live) (Or.inr (Or.inl hframe))
    | text frame => exact Iff.rfl
    | thinking frame => exact Iff.rfl
    | notice frame => exact iff_of_true (ToolCallFrame.Keeps.refl live) trivial
  | text live =>
    cases frame with
    | text frame =>
      refine iff_of_true ?_ trivial
      rw [healFrame]
      split_ifs with hlong
      · exact le_refl live.text.length
      · exact le_of_lt (Nat.lt_of_not_le hlong)
    | thinking frame => exact iff_of_true trivial trivial
    | tool frame => exact iff_of_true trivial trivial
    | notice frame => exact iff_of_true (TranscriptFrame.Keeps.refl _) trivial
  | thinking live =>
    cases frame with
    | thinking frame =>
      refine iff_of_true ?_ trivial
      rw [healFrame]
      split_ifs with hlong
      · exact le_refl live.text.length
      · exact le_of_lt (Nat.lt_of_not_le hlong)
    | text frame => exact iff_of_true trivial trivial
    | tool frame => exact iff_of_true trivial trivial
    | notice frame => exact iff_of_true (TranscriptFrame.Keeps.refl _) trivial
  | notice live =>
    cases frame with
    | text frame => exact iff_of_true trivial trivial
    | thinking frame => exact iff_of_true trivial trivial
    | tool frame => exact iff_of_true trivial trivial
    | notice frame => exact iff_of_true trivial trivial

end

theorem onTurn_header (nt : NumberText) (turn : TranscriptTurn C) (header : TurnHeader C) :
    { (onTurn nt turn (.turnUpsert header)).toTurnHeader with turnId := header.turnId, origin := header.origin } =
      header := by
  rw [onTurn]
  split_ifs with hequal
  · exact congrArg (fun put : TurnHeader C => { put with origin := header.origin }) (of_decide_eq_true hequal)
  · rfl

omit [DecidableEq C] in
theorem keeps_put {live header put : TurnHeader C}
    (hput : { put with turnId := header.turnId, origin := header.origin } = healHeader header live) :
    live.Keeps put ↔
      (live.attachmentIds.isSome → header.attachmentIds.isSome) ∧ (live.usage.isSome → header.usage.isSome) ∧
        (live.durationMs.isSome → header.durationMs.isSome) ∧ (live.error.isSome → header.error.isSome) := by
  have hprompt := congrArg TurnHeader.prompt hput
  have hattachmentIds := congrArg TurnHeader.attachmentIds hput
  have hstartedAt := congrArg TurnHeader.startedAt hput
  have hendedAt := congrArg TurnHeader.endedAt hput
  have husage := congrArg TurnHeader.usage hput
  have hdurationMs := congrArg TurnHeader.durationMs hput
  have herror := congrArg TurnHeader.error hput
  dsimp only [healHeader] at hprompt hattachmentIds hstartedAt hendedAt husage hdurationMs herror
  rw [← hattachmentIds, ← husage, ← hdurationMs, ← herror]
  constructor
  · exact fun hkeeps => ⟨hkeeps.attachmentIds, hkeeps.usage, hkeeps.durationMs, hkeeps.error⟩
  · rintro ⟨hattachment, husageKept, hduration, herrorKept⟩
    refine ⟨?_, hattachment, ?_, ?_, husageKept, hduration, herrorKept⟩
    · rw [hprompt]
      exact isSome_or_of_left
    · rw [hstartedAt]
      exact isSome_or_of_left
    · rw [hendedAt]
      exact isSome_or_of_left

theorem keeps_healed (hsnapshot : TurnOrdered nt snapshotTurn) (hnodup : (live.steps.map fun s => s.stepId).Nodup) :
    live.Keeps (healedTurn nt snapshotTurn live) ↔ Recorded live snapshotTurn := by
  have hput := onTurn_header nt live (healHeader snapshotTurn.toTurnHeader live.toTurnHeader)
  rw [← (@healed_turn C _ nt live snapshotTurn hsnapshot hnodup).header] at hput
  have hheader := @keeps_put C live.toTurnHeader snapshotTurn.toTurnHeader
    (healedTurn nt snapshotTurn live).toTurnHeader hput
  constructor
  · intro hkeeps
    obtain ⟨hattachmentIds, husage, hdurationMs, herror⟩ := hheader.mp hkeeps.header
    refine ⟨hattachmentIds, husage, hdurationMs, herror, ?_⟩
    intro stepId frameId liveFrame frame hlive hframe
    obtain ⟨kept, hkept, hkeepsFrame⟩ := hkeeps.frames stepId frameId liveFrame hlive
    rw [frameAt_healed hsnapshot hnodup hlive, hframe, bind_some, or_some] at hkept
    rw [← keeps_healFrame, some.inj hkept]
    exact hkeepsFrame
  · intro hrecorded
    refine ⟨hheader.mpr ⟨hrecorded.attachmentIds, hrecorded.usage, hrecorded.durationMs, hrecorded.error⟩, ?_⟩
    intro stepId frameId liveFrame hlive
    cases hframe : frameAt snapshotTurn stepId frameId with
    | none =>
      refine ⟨liveFrame, ?_, TranscriptFrame.Keeps.refl liveFrame⟩
      rw [frameAt_healed hsnapshot hnodup hlive, hframe]
      rfl
    | some frame =>
      refine ⟨(healFrame (some liveFrame) frame).getD liveFrame, ?_, ?_⟩
      · rw [frameAt_healed hsnapshot hnodup hlive, hframe, bind_some, or_some]
      · exact (keeps_healFrame liveFrame frame).mpr (hrecorded.frames stepId frameId liveFrame frame hlive hframe)

/-- A turn that nothing persisted can change any more. -/
structure Settled (snapshotTurn turn : TranscriptTurn C) : Prop where
  header : turnEquals turn (healHeader snapshotTurn.toTurnHeader turn.toTurnHeader) = true
  frames : ∀ step ∈ snapshotTurn.steps, ∃ settled, getStep turn step.stepId = some settled ∧
    ∀ frame ∈ step.frames, healFrame (getFrame settled frame.frameId) frame = none

theorem Settled.ops (h : Settled snapshotTurn turn) :
    healTurnOps snapshotTurn (some turn) = [.turnUpsert (healHeader snapshotTurn.toTurnHeader turn.toTurnHeader)] := by
  have hnone : ∀ step ∈ snapshotTurn.steps, healStepOps turn snapshotTurn.turnId step = [] := by
    intro step hstep
    obtain ⟨settled, hget, hframes⟩ := h.frames step hstep
    rw [healStepOps, hget]
    dsimp only
    rw [filterMap_eq_nil_iff.mpr hframes, map_nil]
  rw [healTurnOps, flatMap_eq_nil_iff.mpr hnone]

theorem Settled.healTurn (h : Settled snapshotTurn turn)
    (hget : getTurn state.items snapshotTurn.turnId = some turn) : healTurn nt state snapshotTurn = state := by
  have hid : (healHeader snapshotTurn.toTurnHeader turn.toTurnHeader).turnId = snapshotTurn.turnId := rfl
  rw [Transcript.healTurn, hget, h.ops, applyAll, foldl_cons, foldl_nil, applyOperation, applyTurnUpsert, hid,
    hget]
  dsimp only
  rw [if_pos h.header]

theorem settled_self (hsnapshot : TurnOrdered nt snapshotTurn) : Settled snapshotTurn snapshotTurn where
  header := by
    apply decide_eq_true
    rw [healHeader, Option.or_self, Option.or_self, Option.or_self]
  frames step hstep := by
    refine ⟨step, find_of_mem hsnapshot.steps_nodup hstep rfl, ?_⟩
    intro frame hframe
    have hget : getFrame step frame.frameId = some frame := find_of_mem (hsnapshot.frames_nodup step hstep) hframe rfl
    rw [hget, healFrame_self]

theorem settled_healed (hsnapshot : TurnOrdered nt snapshotTurn)
    (hnodup : (live.steps.map fun s => s.stepId).Nodup) : Settled snapshotTurn (healedTurn nt snapshotTurn live) where
  header := by
    have hheader := (@healed_turn C _ nt live snapshotTurn hsnapshot hnodup).header
    rw [turnEquals, hheader, onTurn]
    by_cases hequal : turnEquals live (healHeader snapshotTurn.toTurnHeader live.toTurnHeader) = true
    · rw [if_pos hequal]
      exact hequal
    · rw [if_neg hequal]
      apply decide_eq_true
      simp only [healHeader, Option.or_assoc, Option.or_self]
  frames step hstep := by
    obtain ⟨healed, hget, hfind⟩ := (@healed_turn C _ nt live snapshotTurn hsnapshot hnodup).steps step hstep
    refine ⟨healed, hget, ?_⟩
    intro frame hframe
    have hpersisted : getFrame step frame.frameId = some frame :=
      find_of_mem (hsnapshot.frames_nodup step hstep) hframe rfl
    rw [hfind, healedAt, hpersisted]
    cases getStep live step.stepId with
    | none => exact healFrame_self frame
    | some liveStep => exact healFrame_healed (getFrame liveStep frame.frameId) frame

section

omit [DecidableEq C]

theorem ofTurn_heal (snapshotTurn live : TranscriptTurn C) :
    ∀ op ∈ healTurnOps snapshotTurn (some live), OfTurn snapshotTurn.turnId op := by
  intro op hop
  rcases mem_cons.mp hop with rfl | hstep
  · rfl
  · obtain ⟨step, _, hop⟩ := mem_flatMap.mp hstep
    rw [healStepOps] at hop
    cases hlive : getStep live step.stepId with
    | none =>
      rw [hlive] at hop
      exact ofTurn_steps snapshotTurn.turnId [step] op (mem_flatMap.mpr ⟨step, mem_singleton_self step, hop⟩)
    | some liveStep =>
      rw [hlive] at hop
      obtain ⟨frame, _, rfl⟩ := mem_map.mp hop
      rfl

theorem exists_at {id : Text} (h : Timeline nt items)
    (hget : getTurn items id = some turn) : ∃ before after, At items before turn after := by
  obtain ⟨hmem, _⟩ := getTurn_mem hget
  obtain ⟨before, after, hitems⟩ := append_of_mem (mem_turnsOf.mp hmem)
  refine ⟨before, after, hitems, ?_⟩
  have hnodup := h.nodup
  rw [hitems] at hnodup
  intro other hother
  apply id_fresh hnodup (.turn other)
  rcases mem_append.mp hother with hbefore | hafter
  · exact mem_append_left _ (mem_turnsOf.mp hbefore)
  · exact mem_append_right _ (mem_turnsOf.mp hafter)

end

theorem turnId_healed (hsnapshot : TurnOrdered nt snapshotTurn) (hnodup : (live.steps.map fun s => s.stepId).Nodup)
    (hid : snapshotTurn.turnId = live.turnId) : (healedTurn nt snapshotTurn live).turnId = live.turnId := by
  have hheader := congrArg TurnHeader.turnId (@healed_turn C _ nt live snapshotTurn hsnapshot hnodup).header
  exact hheader.trans (onTurn_turnId hid)

theorem getTurn_healTurn (htimeline : Timeline nt state.items)
    (hsnapshot : TurnOrdered nt snapshotTurn) (hget : getTurn state.items snapshotTurn.turnId = some live) :
    getTurn (healTurn nt state snapshotTurn).items snapshotTurn.turnId = some (healedTurn nt snapshotTurn live) := by
  obtain ⟨hlive, hid⟩ := htimeline.turn_of_get hget
  obtain ⟨before, after, hat⟩ := exists_at htimeline hget
  have hops := ofTurn_heal snapshotTurn live
  rw [← hid] at hops
  have hturnId := turnId_healed hsnapshot hlive.steps_nodup hid.symm
  have hnext := hat.next hturnId
  rw [healTurn, hget, hat.applyAll hops, ← hid, ← hturnId]
  exact hnext.getTurn_eq

omit [DecidableEq C] in
theorem spliceBefore_split (p : α → Bool) (x : α) (xs : List α) :
    ∃ front rest, xs = front ++ rest ∧ spliceBefore p x xs = front ++ x :: rest := by
  induction xs with
  | nil => exact ⟨[], [], rfl, rfl⟩
  | cons y ys ih =>
    obtain ⟨front, rest, hys, hsplice⟩ := ih
    rw [spliceBefore]
    split_ifs
    · exact ⟨[], y :: ys, rfl, rfl⟩
    · exact ⟨y :: front, rest, congrArg (y :: ·) hys, congrArg (y :: ·) hsplice⟩

/-- A turn that the store has not is taken as it was persisted. -/
theorem getTurn_newTurn (hsnapshot : TurnOrdered nt snapshotTurn)
    (hget : getTurn state.items snapshotTurn.turnId = none) :
    getTurn (healTurn nt state snapshotTurn).items snapshotTurn.turnId = some snapshotTurn := by
  obtain ⟨front, rest, hitems, hinsert⟩ := spliceBefore_split
    (fun item => item.asTurn.any fun t => snapshotTurn.ordinal < t.ordinal)
    (TranscriptItem.turn { toTurnHeader := snapshotTurn.toTurnHeader, steps := [] }) state.items
  have hnew : ∀ other ∈ turnsOf front ++ turnsOf rest, other.turnId ≠ snapshotTurn.turnId := by
    have hnone := getTurn_eq_none.mp hget
    rwa [hitems, turnsOf, filterMap_append] at hnone
  have hrebuilt := rebuild_turn hsnapshot hnew hitems hinsert
  have hat : At (front ++ .turn snapshotTurn :: rest) front snapshotTurn rest := ⟨rfl, hnew⟩
  rw [healTurn, hget, healTurnOps, hrebuilt]
  exact hat.getTurn_eq

/-- What the live turn had is kept, and another heal changes nothing, exactly where what was persisted has what the live
turn has. -/
theorem healTurn_keeps (nt : NumberText) (state : AgentState C) (htimeline : Timeline nt state.items)
    (snapshotTurn : TranscriptTurn C) (hsnapshot : TurnOrdered nt snapshotTurn) :
    ((∀ live, getTurn state.items snapshotTurn.turnId = some live →
        ∃ healed, getTurn (healTurn nt state snapshotTurn).items snapshotTurn.turnId = some healed ∧
          live.Keeps healed) ∧
      healTurn nt (healTurn nt state snapshotTurn) snapshotTurn = healTurn nt state snapshotTurn) ↔
      ∀ live, getTurn state.items snapshotTurn.turnId = some live → Recorded live snapshotTurn := by
  have hagain : healTurn nt (healTurn nt state snapshotTurn) snapshotTurn = healTurn nt state snapshotTurn := by
    cases hget : getTurn state.items snapshotTurn.turnId with
    | none => exact (settled_self hsnapshot).healTurn (getTurn_newTurn hsnapshot hget)
    | some live =>
      obtain ⟨hlive, _⟩ := htimeline.turn_of_get hget
      exact (settled_healed hsnapshot hlive.steps_nodup).healTurn (getTurn_healTurn htimeline hsnapshot hget)
  constructor
  · rintro ⟨hkept, _⟩ live hget
    obtain ⟨hlive, _⟩ := htimeline.turn_of_get hget
    obtain ⟨healed, hhealed, hkeeps⟩ := hkept live hget
    rw [getTurn_healTurn htimeline hsnapshot hget] at hhealed
    rw [← keeps_healed hsnapshot hlive.steps_nodup, some.inj hhealed]
    exact hkeeps
  · intro hrecorded
    refine ⟨?_, hagain⟩
    intro live hget
    obtain ⟨hlive, _⟩ := htimeline.turn_of_get hget
    exact ⟨healedTurn nt snapshotTurn live, getTurn_healTurn htimeline hsnapshot hget,
      (keeps_healed hsnapshot hlive.steps_nodup).mpr (hrecorded live hget)⟩

def usedTurn : TranscriptTurn Unit :=
  { turnId := turnId decimals 0
    ordinal := 0
    state := .completed
    origin := { kind := .user }
    usage := some ()
    steps := [] }

def persistedTurn : TranscriptTurn Unit := { usedTurn with usage := none }

theorem usedTurn_ordered : TurnOrdered decimals usedTurn := ⟨rfl, forall_mem_nil _, .nil, forall_mem_nil _⟩

theorem persistedTurn_ordered : TurnOrdered decimals persistedTurn :=
  ⟨rfl, forall_mem_nil _, .nil, forall_mem_nil _⟩

theorem usedTurn_timeline : Timeline decimals [TranscriptItem.turn usedTurn] where
  turns turn hturn := by
    rw [mem_singleton.mp hturn]
    exact usedTurn_ordered
  rising := pairwise_singleton _ _
  standalone item hitem hnone := by
    rw [mem_singleton.mp hitem] at hnone
    cases hnone
  nodup := nodup_singleton _

theorem usedTurn_get : getTurn [TranscriptItem.turn usedTurn] persistedTurn.turnId = some usedTurn :=
  find?_cons_of_pos (decide_eq_true rfl)

theorem usedTurn_loses :
    ∃ (state : AgentState Unit) (snapshotTurn live : TranscriptTurn Unit), Timeline decimals state.items ∧
      TurnOrdered decimals snapshotTurn ∧ getTurn state.items snapshotTurn.turnId = some live ∧
      ¬∃ healed, getTurn (healTurn decimals state snapshotTurn).items snapshotTurn.turnId = some healed ∧
        live.Keeps healed := by
  refine ⟨{ items := [.turn usedTurn] }, persistedTurn, usedTurn, usedTurn_timeline, persistedTurn_ordered, usedTurn_get,
    ?_⟩
  rintro ⟨healed, hhealed, hkeeps⟩
  cases hhealed
  have hrecorded := (keeps_healed persistedTurn_ordered usedTurn_ordered.steps_nodup).mp hkeeps
  have husage := hrecorded.usage rfl
  cases husage

theorem persistedTurn_kept : (∀ live, getTurn [TranscriptItem.turn usedTurn] usedTurn.turnId = some live →
        ∃ healed, getTurn (healTurn decimals { items := [.turn usedTurn] } usedTurn).items usedTurn.turnId = some healed ∧
          live.Keeps healed) ∧
      healTurn decimals (healTurn decimals { items := [.turn usedTurn] } usedTurn) usedTurn =
        healTurn decimals { items := [.turn usedTurn] } usedTurn := by
  apply (healTurn_keeps decimals { items := [.turn usedTurn] } usedTurn_timeline usedTurn usedTurn_ordered).mpr
  intro live hget
  obtain rfl := mem_unique usedTurn_get hget
  refine ⟨id, id, id, id, ?_⟩
  intro stepId frameId liveFrame frame hlive
  cases hlive

end Echadron.Transcript
