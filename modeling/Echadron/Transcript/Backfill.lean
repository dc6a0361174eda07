import Echadron.Transcript.Reachable

namespace Echadron.Transcript
open Lib List Option

/-! Operations that stay within one turn. -/

variable {C : Type} {nt : NumberText} {items before after : List (TranscriptItem C)} {turn : TranscriptTurn C}

/-- A turn between items, and the only one with its id. -/
structure At (items before : List (TranscriptItem C)) (turn : TranscriptTurn C) (after : List (TranscriptItem C)) :
    Prop where
  items : items = before ++ .turn turn :: after
  alone : ∀ other ∈ turnsOf before ++ turnsOf after, other.turnId ≠ turn.turnId

theorem replaceTurn_of_ne {id : Text} (fn : TranscriptTurn C → TranscriptTurn C)
    (h : ∀ other ∈ turnsOf items, other.turnId ≠ id) : replaceTurn items id fn = items := by
  have hsame : ∀ item ∈ items, mapTurn id fn item = item := by
    intro item hitem
    cases item with
    | turn other => exact if_neg (h other (mem_turnsOf.mpr hitem))
    | marker marker => rfl
    | taskref ref => rfl
  rw [replaceTurn, map_congr_left hsame, List.map_id']

namespace At

section

variable (h : At items before turn after)
include h

theorem turnsOf_eq : turnsOf items = turnsOf before ++ turn :: turnsOf after := by
  rw [h.items]
  exact filterMap_append

theorem getTurn_eq : getTurn items turn.turnId = some turn := by
  have hbefore : getTurn before turn.turnId = none :=
    getTurn_eq_none.mpr fun other hother => h.alone other (mem_append_left _ hother)
  rw [getTurn] at hbefore
  rw [getTurn, h.turnsOf_eq, find?_append, hbefore, none_or]
  exact find?_cons_of_pos (decide_eq_true rfl)

theorem replaceTurn_eq (fn : TranscriptTurn C → TranscriptTurn C) :
    replaceTurn items turn.turnId fn = before ++ .turn (fn turn) :: after := by
  have hbefore := replaceTurn_of_ne fn fun other hother => h.alone other (mem_append_left _ hother)
  have hafter := replaceTurn_of_ne fn fun other hother => h.alone other (mem_append_right _ hother)
  have hturn : mapTurn turn.turnId fn (.turn turn) = .turn (fn turn) := if_pos rfl
  rw [replaceTurn] at hbefore hafter
  rw [h.items, replaceTurn, map_append, map_cons, hbefore, hafter, hturn]

theorem putTurn_eq (next : TranscriptTurn C) : putTurn items turn.turnId next = before ++ .turn next :: after := by
  rw [putTurn, h.getTurn_eq, isSome_some, if_pos rfl, h.replaceTurn_eq]

theorem next {next : TranscriptTurn C} (hid : next.turnId = turn.turnId) :
    At (before ++ .turn next :: after) before next after :=
  ⟨rfl, fun other hother => hid ▸ h.alone other hother⟩

end

end At

variable [DecidableEq C]

def frameInto (nt : NumberText) (turn : TranscriptTurn C) (stepId : Text) (frame : TranscriptFrame C) :
    List (TranscriptStep C) :=
  let step := (getStep turn stepId).getD (skeletonStep nt stepId turn.turnId)
  ((upsertFrame step frame).map fun frames => putStep turn.steps stepId { step with frames := frames }).getD turn.steps

def onTurn (nt : NumberText) (turn : TranscriptTurn C) : TranscriptOperation C → TranscriptTurn C
  | .turnUpsert header => if turnEquals turn header then turn else { toTurnHeader := header, steps := turn.steps }
  | .stepUpsert _ header => { turn with steps := (upsertStep turn header).getD turn.steps }
  | .frameUpsert _ stepId frame => { turn with steps := frameInto nt turn stepId frame }
  | _ => turn

def OfTurn (turnId : Text) : TranscriptOperation C → Prop
  | .turnUpsert header => header.turnId = turnId
  | .stepUpsert id _ => id = turnId
  | .frameUpsert id _ _ => id = turnId
  | _ => False

theorem onTurn_turnId {op : TranscriptOperation C} (h : OfTurn turn.turnId op) :
    (onTurn nt turn op).turnId = turn.turnId := by
  cases op with
  | turnUpsert header =>
    rw [onTurn]
    split_ifs
    · rfl
    · exact h
  | stepUpsert id header => rfl
  | frameUpsert id stepId frame => rfl
  | _ => cases h

theorem At.applyOperation (hat : At state.items before turn after) (hop : OfTurn turn.turnId op) :
    (applyOperation nt state op).state = { state with items := before ++ .turn (onTurn nt turn op) :: after } := by
  have hkeep : state = { state with items := before ++ .turn turn :: after } := by
    rw [← hat.items]
  cases op with
  | turnUpsert header =>
    have hid : header.turnId = turn.turnId := hop
    rw [Transcript.applyOperation, applyTurnUpsert, hid, hat.getTurn_eq, onTurn]
    dsimp only
    split_ifs
    · exact hkeep
    · rw [hat.replaceTurn_eq]
  | stepUpsert id header =>
    obtain rfl : id = turn.turnId := hop
    rw [Transcript.applyOperation, applyStepUpsert, hat.getTurn_eq, getD_some, onTurn]
    cases hsteps : upsertStep turn header with
    | none => exact hkeep
    | some steps =>
      dsimp only
      rw [hat.putTurn_eq]
      rfl
  | frameUpsert id stepId frame =>
    obtain rfl : id = turn.turnId := hop
    rw [Transcript.applyOperation, applyFrameUpsert, hat.getTurn_eq, getD_some, onTurn, frameInto]
    cases hframes : upsertFrame ((getStep turn stepId).getD (skeletonStep nt stepId turn.turnId)) frame with
    | none => exact hkeep
    | some frames =>
      dsimp only
      rw [hat.putTurn_eq]
      rfl
  | _ => cases hop

theorem At.applyAll {state : AgentState C} (hat : At state.items before turn after) {ops : List (TranscriptOperation C)}
    (hops : ∀ op ∈ ops, OfTurn turn.turnId op) :
    applyAll nt state ops = { state with items := before ++ .turn (ops.foldl (onTurn nt) turn) :: after } := by
  induction ops generalizing state turn with
  | nil =>
    rw [foldl_nil, ← hat.items]
    rfl
  | cons op ops ih =>
    obtain ⟨hop, hops⟩ := forall_mem_cons.mp hops
    have hid := @onTurn_turnId C nt turn _ op hop
    rw [applyAll, foldl_cons, hat.applyOperation hop]
    rw [← hid] at hops
    exact ih (hat.next hid) hops

end Echadron.Transcript

namespace Echadron.Transcript
open Lib List Option

/-! A history that is flattened into operations. -/

variable {C : Type}

def snapshotStepOps (turnId : Text) (step : TranscriptStep C) : List (TranscriptOperation C) :=
  .stepUpsert turnId step.toStepHeader :: step.frames.map (.frameUpsert turnId step.stepId)

def snapshotTurnOps (turn : TranscriptTurn C) : List (TranscriptOperation C) :=
  .turnUpsert turn.toTurnHeader :: turn.steps.flatMap (snapshotStepOps turn.turnId)

inductive Standalone (C : Type) where
  | marker (marker : TranscriptMarker C)
  | taskref (ref : TranscriptTaskRef)

def Standalone.item : Standalone C → TranscriptItem C
  | .marker item => .marker item
  | .taskref item => .taskref item

def Standalone.op (beforeTurn : Option ℚ) : Standalone C → TranscriptOperation C
  | .marker item => .markerUpsert item beforeTurn
  | .taskref item => .taskrefUpsert item beforeTurn

def flushPending (pending : List (Standalone C)) (beforeTurn : Option ℚ) : List (TranscriptOperation C) :=
  pending.map (Standalone.op beforeTurn)

def snapshotItemOps (turnOps : TranscriptTurn C → List (TranscriptOperation C)) (pending : List (Standalone C))
    (lastTurnOrdinal : Option ℚ) : List (TranscriptItem C) → List (TranscriptOperation C)
  | [] => flushPending pending (lastTurnOrdinal.map (· + 1))
  | .turn turn :: items =>
    flushPending pending (some turn.ordinal) ++ turnOps turn ++ snapshotItemOps turnOps [] (some turn.ordinal) items
  | .marker marker :: items => snapshotItemOps turnOps (pending ++ [.marker marker]) lastTurnOrdinal items
  | .taskref ref :: items => snapshotItemOps turnOps (pending ++ [.taskref ref]) lastTurnOrdinal items

/-- What a status says, as a merge: what is absent is kept. -/
def ModesMeta.asMerge (modes : ModesMeta C) : ModesMetaMerge C :=
  { plan := modes.plan.elim .keep .put, swarm := modes.swarm.elim .keep .put }

def TranscriptMeta.asMerge (metadata : TranscriptMeta C) : TranscriptMetaMerge C :=
  { goal := metadata.goal
    modes := metadata.modes.map ModesMeta.asMerge
    activity := metadata.activity
    agent := metadata.agent }

def snapshotToOps (snapshot : AgentTranscriptSnapshot C)
    (turnOps : TranscriptTurn C → List (TranscriptOperation C)) : List (TranscriptOperation C) :=
  snapshotItemOps turnOps [] none snapshot.items ++ snapshot.tasks.map .taskUpsert ++
    [.metaMerge snapshot.metadata.asMerge]

variable [DecidableEq C] {nt : NumberText} {turn : TranscriptTurn C}

theorem frameInto_last {steps : List (TranscriptStep C)} {step : TranscriptStep C} {frame : TranscriptFrame C}
    (hsteps : turn.steps = steps ++ [step]) (hids : ∀ s ∈ steps, s.stepId ≠ step.stepId)
    (hframe : ∀ f ∈ step.frames, f.frameId ≠ frame.frameId) :
    frameInto nt turn step.stepId frame = steps ++ [{ step with frames := step.frames ++ [frame] }] := by
  have hget : getStep turn step.stepId = some step := by
    rw [getStep, hsteps, find?_append, find_eq_none.mpr hids, none_or]
    exact find?_cons_of_pos (decide_eq_true rfl)
  have hfind : getFrame step frame.frameId = none := getFrame_eq_none.mpr hframe
  rw [frameInto, hget, getD_some, upsertFrame, hfind]
  rw [map_some, getD_some, putStep, hsteps, if_pos (by simp)]
  have hsame : ∀ s ∈ steps, (if s.stepId = step.stepId then { step with frames := step.frames ++ [frame] } else s) = s :=
    fun s hs => if_neg (hids s hs)
  rw [map_append, map_congr_left hsame, List.map_id', map_singleton, if_pos rfl]

theorem foldl_frames
    {frames new : List (TranscriptFrame C)} (hids : ∀ s ∈ steps, s.stepId ≠ step.stepId)
    (hnodup : ((frames ++ new).map TranscriptFrame.frameId).Nodup) :
    (new.map (TranscriptOperation.frameUpsert header.turnId step.stepId)).foldl (onTurn nt)
        { toTurnHeader := header, steps := steps ++ [{ toStepHeader := step, frames := frames }] } =
      { toTurnHeader := header, steps := steps ++ [{ toStepHeader := step, frames := frames ++ new }] } := by
  induction new generalizing frames with
  | nil => rw [append_nil]; rfl
  | cons frame new ih =>
    have hfresh : ∀ f ∈ frames, f.frameId ≠ frame.frameId := by
      intro f hf heq
      rw [map_append, nodup_append] at hnodup
      exact hnodup.2.2 _ (mem_map_of_mem hf) _ (mem_map_of_mem mem_cons_self) heq
    have hstep : onTurn nt { toTurnHeader := header, steps := steps ++ [{ toStepHeader := step, frames := frames }] }
        (.frameUpsert header.turnId step.stepId frame) =
          { toTurnHeader := header, steps := steps ++ [{ toStepHeader := step, frames := frames ++ [frame] }] } := by
      have hlast := @frameInto_last C _ nt
        { toTurnHeader := header, steps := steps ++ [{ toStepHeader := step, frames := frames }] } steps
        { toStepHeader := step, frames := frames } frame rfl hids hfresh
      exact congrArg (fun s => ({ toTurnHeader := header, steps := s } : TranscriptTurn C)) hlast
    rw [map_cons, foldl_cons, hstep, ih]
    · rw [append_assoc, singleton_append]
    · rwa [append_assoc, singleton_append]

theorem upsertStep_last {header : StepHeader C} (hid : ∀ s ∈ turn.steps, s.stepId ≠ header.stepId)
    (hrising : turn.steps.Pairwise (·.ordinal < ·.ordinal)) (hlast : ∀ s ∈ turn.steps, s.ordinal < header.ordinal) :
    upsertStep turn header = some (turn.steps ++ [{ toStepHeader := header, frames := [] }]) := by
  have hsorted : (turn.steps ++ [({ toStepHeader := header, frames := [] } : TranscriptStep C)]).Pairwise
      fun a b => a.ordinal ≤ b.ordinal := by
    apply pairwise_append.mpr
    refine ⟨hrising.imp le_of_lt, pairwise_singleton _ _, ?_⟩
    intro a ha b hb
    rw [mem_singleton.mp hb]
    exact le_of_lt (hlast a ha)
  have hfind : getStep turn header.stepId = none := getStep_eq_none.mpr hid
  rw [upsertStep, hfind]
  exact congrArg some hsorted.insertionSort_eq

theorem foldl_steps {steps new : List (TranscriptStep C)} (hids : ((steps ++ new).map fun s => s.stepId).Nodup)
    (hrising : (steps ++ new).Pairwise (·.ordinal < ·.ordinal))
    (hframes : ∀ s ∈ new, (s.frames.map TranscriptFrame.frameId).Nodup) :
    (new.flatMap (snapshotStepOps header.turnId)).foldl (onTurn nt) { toTurnHeader := header, steps := steps } =
      { toTurnHeader := header, steps := steps ++ new } := by
  induction new generalizing steps with
  | nil => rw [append_nil]; rfl
  | cons step new ih =>
    obtain ⟨hthis, hlater⟩ := forall_mem_cons.mp hframes
    have hfresh : ∀ s ∈ steps, s.stepId ≠ step.stepId := by
      intro s hs heq
      rw [map_append, nodup_append] at hids
      exact hids.2.2 _ (mem_map_of_mem hs) _ (mem_map_of_mem mem_cons_self) heq
    obtain ⟨hrisingSteps, _, hcross⟩ := pairwise_append.mp hrising
    have hupsert := @upsertStep_last C _ { toTurnHeader := header, steps := steps } step.toStepHeader hfresh hrisingSteps
      (fun s hs => hcross s hs step mem_cons_self)
    have hall : (([] ++ step.frames).map TranscriptFrame.frameId).Nodup := hthis
    rw [flatMap_cons, foldl_append, snapshotStepOps, foldl_cons, onTurn, hupsert, getD_some,
      foldl_frames hfresh hall, nil_append, ih]
    · rw [append_assoc, singleton_append]
    · rwa [append_assoc, singleton_append]
    · rwa [append_assoc, singleton_append]
    · exact hlater

omit [DecidableEq C] in
theorem ofTurn_steps (turnId : Text) (steps : List (TranscriptStep C)) :
    ∀ op ∈ steps.flatMap (snapshotStepOps turnId), OfTurn turnId op := by
  intro op hop
  obtain ⟨step, _, hop⟩ := mem_flatMap.mp hop
  rcases mem_cons.mp hop with rfl | hframe
  · rfl
  · obtain ⟨frame, _, rfl⟩ := List.mem_map.mp hframe
    rfl

theorem foldl_turn (h : TurnOrdered nt turn) :
    (turn.steps.flatMap (snapshotStepOps turn.turnId)).foldl (onTurn nt)
      { toTurnHeader := turn.toTurnHeader, steps := [] } = turn :=
  foldl_steps h.steps_nodup h.steps_rising h.frames_nodup

omit [DecidableEq C] in
theorem spliceBefore_between {x : α} (hbefore : ∀ y ∈ xs, p y = false)
    (hafter : ∀ y ∈ ys.head?, p y = true) : spliceBefore p x (xs ++ ys) = xs ++ x :: ys := by
  induction xs with
  | nil =>
    cases ys with
    | nil => rfl
    | cons y ys => exact if_pos (hafter y rfl)
  | cons y xs ih =>
    obtain ⟨hy, hbefore⟩ := forall_mem_cons.mp hbefore
    rw [cons_append, spliceBefore, hy, if_neg Bool.false_ne_true, ih hbefore]
    rfl

theorem rebuild_turn (hturn : TurnOrdered nt turn)
    (hnew : ∀ other ∈ turnsOf front ++ turnsOf rest, other.turnId ≠ turn.turnId) (hitems : state.items = front ++ rest)
    (hinsert : insertTurn state.items { toTurnHeader := turn.toTurnHeader, steps := [] } =
      front ++ .turn { toTurnHeader := turn.toTurnHeader, steps := [] } :: rest) :
    applyAll nt state (snapshotTurnOps turn) = { state with items := front ++ .turn turn :: rest } := by
  have hnone : getTurn state.items turn.turnId = none := by
    rw [hitems]
    exact getTurn_eq_none.mpr (by rwa [turnsOf, filterMap_append])
  have hupsert : (applyOperation nt state (.turnUpsert turn.toTurnHeader)).state =
      { state with items := front ++ .turn { toTurnHeader := turn.toTurnHeader, steps := [] } :: rest } := by
    rw [applyOperation, applyTurnUpsert, hnone]
    rw [hinsert]
  have hat : At (front ++ .turn { toTurnHeader := turn.toTurnHeader, steps := [] } :: rest) front
      { toTurnHeader := turn.toTurnHeader, steps := [] } rest := ⟨rfl, hnew⟩
  have hsteps := @At.applyAll C nt front rest { toTurnHeader := turn.toTurnHeader, steps := [] } _
    { state with items := front ++ .turn { toTurnHeader := turn.toTurnHeader, steps := [] } :: rest } hat
    (turn.steps.flatMap (snapshotStepOps turn.turnId)) (ofTurn_steps turn.turnId turn.steps)
  rw [snapshotTurnOps, applyAll, foldl_cons, hupsert]
  rw [applyAll] at hsteps
  rw [hsteps, foldl_turn hturn]

theorem apply_turn {state : AgentState C} {front rest : List (TranscriptItem C)} (hturn : TurnOrdered nt turn)
    (hitems : state.items = front ++ rest) (hnew : ∀ other ∈ turnsOf front ++ turnsOf rest, other.turnId ≠ turn.turnId)
    (hfront : ∀ older ∈ turnsOf front, older.ordinal < turn.ordinal)
    (hrest : ∀ item ∈ rest.head?, ∃ newer : TranscriptTurn C, item = .turn newer ∧ turn.ordinal < newer.ordinal) :
    applyAll nt state (snapshotTurnOps turn) = { state with items := front ++ .turn turn :: rest } := by
  apply rebuild_turn hturn hnew hitems
  rw [hitems]
  apply spliceBefore_between
  · intro item hitem
    cases item with
    | turn older => exact decide_eq_false (hfront older (mem_turnsOf.mpr hitem)).asymm
    | marker marker => rfl
    | taskref ref => rfl
  · intro item hitem
    obtain ⟨newer, rfl, hlt⟩ := hrest item hitem
    exact decide_eq_true hlt

section

omit [DecidableEq C]

theorem Standalone.asTurn_item (item : Standalone C) : item.item.asTurn = none := by
  cases item with
  | marker item => rfl
  | taskref item => rfl

theorem Standalone.turnsOf_item (pending : List (Standalone C)) : turnsOf (pending.map Standalone.item) = [] := by
  apply filterMap_eq_nil_iff.mpr
  intro entry hentry
  obtain ⟨item, _, rfl⟩ := mem_map.mp hentry
  exact item.asTurn_item

end

structure Anchored (beforeTurn : Option ℚ) (front rest : List (TranscriptItem C)) : Prop where
  older : ∀ anchor ∈ beforeTurn, ∀ older ∈ turnsOf front, older.ordinal < anchor
  newer : ∀ item ∈ rest.head?, ∃ newer : TranscriptTurn C, item = .turn newer ∧ ∃ anchor ∈ beforeTurn,
    anchor ≤ newer.ordinal

theorem apply_standalone
    (item : Standalone C) (hitems : state.items = front ++ rest)
    (hnew : ∀ entry ∈ front ++ rest, itemIdOf entry ≠ itemIdOf item.item) (hanchor : Anchored beforeTurn front rest) :
    (applyOperation nt state (item.op beforeTurn)).state = { state with items := front ++ item.item :: rest } := by
  have hop : applyOperation nt state (item.op beforeTurn) =
      applyItemUpsert state item.item (itemIdOf item.item) beforeTurn := by
    cases item with
    | marker item => rfl
    | taskref item => rfl
  have hnone : ¬(state.items.any fun entry => itemIdOf entry = itemIdOf item.item) = true := by
    intro hany
    obtain ⟨entry, hentry, hid⟩ := any_eq_true.mp hany
    rw [hitems] at hentry
    exact hnew entry hentry (of_decide_eq_true hid)
  rw [hop, applyItemUpsert, if_neg hnone]
  dsimp only
  rw [hitems, spliceBefore_between]
  · intro entry hentry
    cases beforeTurn with
    | none => rfl
    | some anchor =>
      cases entry with
      | turn older => exact decide_eq_false (not_le_of_gt (hanchor.older anchor rfl older (mem_turnsOf.mpr hentry)))
      | marker marker => rfl
      | taskref ref => rfl
  · intro entry hentry
    obtain ⟨newer, rfl, anchor, hmem, hle⟩ := hanchor.newer entry hentry
    obtain rfl := hmem
    exact decide_eq_true hle

omit [DecidableEq C] in
theorem id_fresh
    (h : ((front ++ item :: rest).map itemIdOf).Nodup) : ∀ entry ∈ front ++ rest, itemIdOf entry ≠ itemIdOf item := by
  intro entry hentry heq
  rw [map_append, map_cons, nodup_middle, nodup_cons, ← map_append] at h
  apply h.1
  rw [← heq]
  exact List.mem_map_of_mem hentry

theorem apply_pending {front rest : List (TranscriptItem C)}
    (pending : List (Standalone C)) (hitems : state.items = front ++ rest)
    (hids : ((front ++ (pending.map Standalone.item ++ rest)).map itemIdOf).Nodup)
    (hanchor : Anchored beforeTurn front rest) :
    applyAll nt state (flushPending pending beforeTurn) =
      { state with items := front ++ (pending.map Standalone.item ++ rest) } := by
  induction pending generalizing state front with
  | nil =>
    rw [map_nil, nil_append, ← hitems]
    rfl
  | cons item pending ih =>
    rw [map_cons, cons_append] at hids ⊢
    have hnew : ∀ entry ∈ front ++ rest, itemIdOf entry ≠ itemIdOf item.item := by
      intro entry hentry
      apply id_fresh hids entry
      rcases mem_append.mp hentry with hfront | hrest
      · exact mem_append_left _ hfront
      · exact mem_append_right _ (mem_append_right _ hrest)
    have hanchor' : Anchored beforeTurn (front ++ [item.item]) rest := by
      refine ⟨?_, hanchor.newer⟩
      have hturns : turnsOf (front ++ [item.item]) = turnsOf front := by
        rw [turnsOf, filterMap_append, filterMap_cons_none item.asTurn_item, filterMap_nil, append_nil]
        rfl
      rw [hturns]
      exact hanchor.older
    have hshift (items : List (TranscriptItem C)) : front ++ item.item :: items = front ++ [item.item] ++ items := by
      rw [append_assoc, singleton_append]
    rw [hshift] at hids ⊢
    rw [flushPending, map_cons, applyAll, foldl_cons, apply_standalone item hitems hnew hanchor]
    exact @ih { state with items := front ++ item.item :: rest } (front ++ [item.item]) (hshift rest) hids hanchor'

/-- What was placed stands before what comes later, and what comes later before the rest. -/
structure Between (front items rest : List (TranscriptItem C)) (last : Option ℚ) : Prop where
  older : ∀ older ∈ turnsOf front, ∀ turn ∈ turnsOf items, older.ordinal < turn.ordinal
  upTo : ∀ ordinal ∈ last, ∀ older ∈ turnsOf front, older.ordinal ≤ ordinal
  newer : ∀ item ∈ rest.head?, ∃ newer : TranscriptTurn C, item = .turn newer ∧
    (∀ ordinal ∈ last, ordinal + 1 ≤ newer.ordinal) ∧ ∀ turn ∈ turnsOf items, turn.ordinal + 1 ≤ newer.ordinal
  known : rest = [] ∨ last.isSome = true ∨ turnsOf items ≠ []

omit [DecidableEq C] in
theorem turnsOf_pending (front : List (TranscriptItem C)) (pending : List (Standalone C)) :
    turnsOf (front ++ pending.map Standalone.item) = turnsOf front := by
  rw [turnsOf, filterMap_append]
  exact (congrArg (turnsOf front ++ ·) (Standalone.turnsOf_item pending)).trans (append_nil _)

section

variable {front items rest : List (TranscriptItem C)} {last : Option ℚ}

section

omit [DecidableEq C]

theorem Between.newer_turn (h : Between front (.turn turn :: items) rest last) :
    ∀ item ∈ rest.head?, ∃ newer : TranscriptTurn C, item = .turn newer ∧ turn.ordinal < newer.ordinal := by
  intro item hitem
  obtain ⟨newer, heq, _, hlater⟩ := h.newer item hitem
  exact ⟨newer, heq, lt_of_lt_of_le (lt_add_one turn.ordinal) (hlater turn mem_cons_self)⟩

theorem Between.next (h : Between front (.turn turn :: items) rest last)
    (hnext : ∀ next ∈ turnsOf items, turn.ordinal < next.ordinal) (pending : List (Standalone C)) :
    Between (front ++ pending.map Standalone.item ++ [.turn turn]) items rest (some turn.ordinal) := by
  have hturns : turnsOf (front ++ pending.map Standalone.item ++ [.turn turn]) = turnsOf front ++ [turn] := by
    rw [turnsOf, filterMap_append]
    exact congrArg (· ++ [turn]) (turnsOf_pending front pending)
  refine ⟨?_, ?_, ?_, Or.inr (Or.inl rfl)⟩
  · rw [hturns]
    intro older holder next hmem
    rcases mem_snoc.mp holder with hold | hthis
    · exact lt_trans (h.older older hold turn mem_cons_self) (hnext next hmem)
    · rw [hthis]
      exact hnext next hmem
  · rw [hturns]
    intro ordinal hordinal older holder
    obtain rfl := some.inj hordinal
    rcases mem_snoc.mp holder with hold | hthis
    · exact le_of_lt (h.older older hold turn mem_cons_self)
    · rw [hthis]
  · intro item hitem
    obtain ⟨newer, heq, _, hlater⟩ := h.newer item hitem
    refine ⟨newer, heq, ?_, fun next hmem => hlater next (mem_cons_of_mem _ hmem)⟩
    intro ordinal hordinal
    obtain rfl := some.inj hordinal
    exact hlater turn mem_cons_self

end

theorem apply_pending_turn (hturn : TurnOrdered nt turn) (hitems : state.items = front ++ rest)
    (hids : ((front ++ pending.map Standalone.item ++ .turn turn :: (items ++ rest)).map itemIdOf).Nodup)
    (hbetween : Between front (.turn turn :: items) rest last) :
    applyAll nt state (flushPending pending (some turn.ordinal) ++ snapshotTurnOps turn) =
      { state with items := front ++ pending.map Standalone.item ++ .turn turn :: rest } := by
  have hbehind := hbetween.newer_turn
  have hflush : applyAll nt state (flushPending pending (some turn.ordinal)) =
      { state with items := front ++ (pending.map Standalone.item ++ rest) } := by
    apply apply_pending pending hitems
    · rw [← append_assoc]
      apply List.Nodup.sublist _ hids
      apply List.Sublist.map
      apply List.Sublist.append_left
      exact .cons _ (sublist_append_right ..)
    · constructor
      · intro anchor hanchor older holder
        cases hanchor
        exact hbetween.older older holder turn mem_cons_self
      · intro item hitem
        obtain ⟨newer, heq, hlt⟩ := hbehind item hitem
        exact ⟨newer, heq, turn.ordinal, rfl, le_of_lt hlt⟩
  have hfresh := id_fresh hids
  have hnew : ∀ other ∈ turnsOf (front ++ pending.map Standalone.item) ++ turnsOf rest,
      other.turnId ≠ turn.turnId := by
    intro other hother
    apply hfresh (.turn other)
    rcases mem_append.mp hother with hfront | hrest
    · exact mem_append_left _ (mem_turnsOf.mp hfront)
    · exact mem_append_right _ (mem_append_right _ (mem_turnsOf.mp hrest))
  have hfront : ∀ older ∈ turnsOf (front ++ pending.map Standalone.item), older.ordinal < turn.ordinal := by
    rw [turnsOf_pending]
    exact fun older holder => hbetween.older older holder turn mem_cons_self
  have hput := @apply_turn C _ nt turn { state with items := front ++ (pending.map Standalone.item ++ rest) }
    (front ++ pending.map Standalone.item) rest hturn (append_assoc ..).symm hnew hfront hbehind
  rw [applyAll, foldl_append]
  rw [applyAll] at hflush hput
  rw [hflush, hput]

theorem apply_items (hitems : state.items = front ++ rest)
    (hids : ((front ++ (pending.map Standalone.item ++ (items ++ rest))).map itemIdOf).Nodup)
    (hturns : ∀ turn ∈ turnsOf items, TurnOrdered nt turn)
    (hrising : (turnsOf items).Pairwise (·.ordinal < ·.ordinal)) (hbetween : Between front items rest last) :
    applyAll nt state (snapshotItemOps snapshotTurnOps pending last items) =
      { state with items := front ++ (pending.map Standalone.item ++ (items ++ rest)) } := by
  have hpending (pending : List (Standalone C)) (item : Standalone C) (items : List (TranscriptItem C)) :
      (pending ++ [item]).map Standalone.item ++ (items ++ rest) =
        pending.map Standalone.item ++ (item.item :: items ++ rest) := by
    rw [map_append, append_assoc]
    rfl
  induction items generalizing state front pending last with
  | nil =>
    apply apply_pending pending hitems hids
    constructor
    · intro anchor hanchor older holder
      obtain ⟨ordinal, hordinal, rfl⟩ := map_eq_some_iff.mp hanchor
      exact lt_of_le_of_lt (hbetween.upTo ordinal hordinal older holder) (lt_add_one ordinal)
    · intro item hitem
      obtain ⟨newer, heq, hlast, _⟩ := hbetween.newer item hitem
      rcases hbetween.known with hrest | hsome | hne
      · rw [hrest] at hitem
        cases hitem
      · obtain ⟨ordinal, hordinal⟩ := isSome_iff_exists.mp hsome
        refine ⟨newer, heq, ordinal + 1, ?_, hlast ordinal hordinal⟩
        rw [hordinal]
        rfl
      · exact absurd rfl hne
  | cons item items ih =>
    cases item with
    | turn turn =>
      obtain ⟨hturn, hturns⟩ := forall_mem_cons.mp hturns
      obtain ⟨hnext, hrising⟩ := pairwise_cons.mp hrising
      have happend : front ++ (pending.map Standalone.item ++ (.turn turn :: items ++ rest)) =
          front ++ pending.map Standalone.item ++ .turn turn :: (items ++ rest) := by
        rw [← append_assoc]
        rfl
      rw [happend] at hids ⊢
      have hput := apply_pending_turn hturn hitems hids hbetween
      rw [append_cons] at hids ⊢
      have hrest := @ih (front ++ pending.map Standalone.item ++ [.turn turn]) (some turn.ordinal)
        { state with items := front ++ pending.map Standalone.item ++ .turn turn :: rest } [] (append_cons ..) hids
        hturns hrising (hbetween.next hnext pending)
      rw [snapshotItemOps, applyAll, foldl_append]
      rw [applyAll] at hput hrest
      rw [hput, hrest]
      rfl
    | marker marker =>
      have hmoved : (pending ++ [Standalone.marker marker]).map Standalone.item ++ (items ++ rest) =
          pending.map Standalone.item ++ (.marker marker :: items ++ rest) := hpending pending (.marker marker) items
      rw [← hmoved]
      rw [← hmoved] at hids
      exact ih hitems hids hturns hrising { hbetween with }
    | taskref ref =>
      have hmoved : (pending ++ [Standalone.taskref ref]).map Standalone.item ++ (items ++ rest) =
          pending.map Standalone.item ++ (.taskref ref :: items ++ rest) := hpending pending (.taskref ref) items
      rw [← hmoved]
      rw [← hmoved] at hids
      exact ih hitems hids hturns hrising { hbetween with }

end

theorem apply_tasks {state : AgentState C} {tasks : List (TranscriptTask C)}
    (hids : (tasks.map TranscriptTask.taskId).Nodup) (hnew : ∀ task ∈ tasks, task.taskId ∉ state.tasks.keys) :
    applyAll nt state (tasks.map .taskUpsert) =
      { state with tasks := tasks.foldl (fun m task => m.set task.taskId task) state.tasks } := by
  induction tasks generalizing state with
  | nil => rfl
  | cons task tasks ih =>
    obtain ⟨hthis, hnew⟩ := forall_mem_cons.mp hnew
    rw [map_cons, nodup_cons] at hids
    obtain ⟨hdistinct, hids⟩ := hids
    have hnone := (JsMap.get_eq_none_iff state.tasks task.taskId).mpr hthis
    have hset : (applyOperation nt state (.taskUpsert task)).state =
        { state with tasks := state.tasks.set task.taskId task } := by
      rw [applyOperation, applyTaskUpsert, hnone]
      rfl
    have hlater : ∀ next ∈ tasks, next.taskId ∉ (state.tasks.set task.taskId task).keys := by
      intro next hmem hkey
      rcases (JsMap.mem_keys_set ..).mp hkey with hsame | hold
      · exact hdistinct (hsame ▸ mem_map_of_mem hmem)
      · exact hnew next hmem hold
    rw [map_cons, applyAll, foldl_cons, hset]
    exact @ih { state with tasks := state.tasks.set task.taskId task } hids hlater

def TranscriptMeta.withoutEmptyModes (metadata : TranscriptMeta C) : TranscriptMeta C :=
  { metadata with modes := metadata.modes.filter fun modes => modes.plan.isSome ∨ modes.swarm.isSome }

omit [DecidableEq C] in
theorem over_asMerge (metadata : TranscriptMeta C) :
    TranscriptMeta.over {} metadata.asMerge = metadata.withoutEmptyModes := by
  obtain ⟨goal, modes, activity, agent⟩ := metadata
  have hmodes : (modes.map ModesMeta.asMerge).map (ModesMeta.over none) = modes := by
    cases modes with
    | none => rfl
    | some modes =>
      obtain ⟨plan, swarm⟩ := modes
      cases plan <;> cases swarm <;> rfl
  have hagent : agent.map (AgentStatusMeta.over {}) = agent := by
    cases agent with
    | none => rfl
    | some agent => simp [AgentStatusMeta.over]
  rw [TranscriptMeta.over, TranscriptMeta.asMerge, TranscriptMeta.withoutEmptyModes]
  simp only [or_none, getD_none]
  rw [hmodes, hagent]

theorem items_tasks (state : AgentState C) (tasks : List (TranscriptTask C)) :
    (applyAll nt state (tasks.map .taskUpsert)).items = state.items := by
  induction tasks generalizing state with
  | nil => rfl
  | cons task tasks ih =>
    have hitems : (applyOperation nt state (.taskUpsert task)).state.items = state.items := by
      rw [applyOperation, applyTaskUpsert]
      split
      · rfl
      · rfl
    rw [← hitems]
    exact ih _

/-- What the folds of a history give: turns by their ordinals, and no id twice. -/
structure ColdSnapshot (nt : NumberText) (snapshot : AgentTranscriptSnapshot C) : Prop where
  timeline : Timeline nt snapshot.items
  tasks : (snapshot.tasks.map TranscriptTask.taskId).Nodup

/-- A state that a history goes into: the turns that it holds come later than those of the history, and without a turn
in the history there is none. -/
structure LaterTurns (state : AgentState C) (history lead live : List (TranscriptItem C)) : Prop where
  items : state.items = lead ++ live
  noTurn : turnsOf lead = []
  turnFirst : ∀ item ∈ live.head?, item.asTurn ≠ none
  later : ∀ newer ∈ turnsOf live, ∀ turn ∈ turnsOf history, turn.ordinal + 1 ≤ newer.ordinal
  ids : ((lead ++ (history ++ live)).map itemIdOf).Nodup
  known : live = [] ∨ turnsOf history ≠ []

omit [DecidableEq C] in
theorem LaterTurns.between
    (h : LaterTurns state history lead live) : Between lead history live none := by
  refine ⟨?_, ?_, ?_, h.known.imp_right Or.inr⟩
  · rw [h.noTurn]
    intro older holder
    cases holder
  · intro ordinal hordinal
    cases hordinal
  · intro item hitem
    have hturn := h.turnFirst item hitem
    have hmem : item ∈ live := mem_of_mem_head? hitem
    cases item with
    | turn newer =>
      refine ⟨newer, rfl, ?_, h.later newer (mem_turnsOf.mpr hmem)⟩
      intro ordinal hordinal
      cases hordinal
    | marker marker => exact absurd rfl hturn
    | taskref ref => exact absurd rfl hturn

section

variable {snapshot : AgentTranscriptSnapshot C}

theorem LaterTurns.apply (h : LaterTurns state snapshot.items lead live) (hcold : ColdSnapshot nt snapshot) :
    applyAll nt state (snapshotItemOps snapshotTurnOps [] none snapshot.items) =
      { state with items := lead ++ (snapshot.items ++ live) } :=
  apply_items h.items h.ids hcold.timeline.turns hcold.timeline.rising h.between

theorem backfill_empty (hcold : ColdSnapshot nt snapshot) :
    (applyAll nt {} (snapshotToOps snapshot snapshotTurnOps)).snapshot none =
      { items := snapshot.items
        tasks := snapshot.tasks
        metadata := snapshot.metadata.withoutEmptyModes
        hasMoreOlder := some false } := by
  have hlater : LaterTurns ({} : AgentState C) snapshot.items [] [] := by
    refine ⟨rfl, rfl, ?_, ?_, ?_, Or.inl rfl⟩
    · intro item hitem
      cases hitem
    · intro newer hnewer
      cases hnewer
    · rw [append_nil]
      exact hcold.timeline.nodup
  have hitems := hlater.apply hcold
  have hnone : ∀ task ∈ snapshot.tasks, task.taskId ∉ (JsMap.empty : JsMap Text (TranscriptTask C)).keys :=
    fun _ _ => not_mem_nil
  have htasks := @apply_tasks C _ nt { ({} : AgentState C) with items := [] ++ (snapshot.items ++ []) } snapshot.tasks
    hcold.tasks hnone
  rw [applyAll] at hitems htasks
  rw [snapshotToOps, applyAll, foldl_append, foldl_append, hitems, htasks, foldl_cons, foldl_nil,
    applyOperation, state_metaMerge]
  have hvalues : (snapshot.tasks.map fun task => (task.taskId, task)).map Prod.snd = snapshot.tasks := by
    rw [List.map_map]
    exact map_id _
  rw [AgentState.snapshot]
  rw [over_asMerge, entries_foldl_set hcold.tasks hnone, append_nil, map_append, hvalues]
  rfl

theorem backfill_live (hcold : ColdSnapshot nt snapshot) (hlater : LaterTurns state snapshot.items lead live) :
    (applyAll nt state (snapshotToOps snapshot snapshotTurnOps)).items = lead ++ (snapshot.items ++ live) := by
  have hitems := hlater.apply hcold
  have htasks := @items_tasks C _ nt { state with items := lead ++ (snapshot.items ++ live) } snapshot.tasks
  rw [applyAll] at hitems htasks
  rw [snapshotToOps, applyAll, foldl_append, foldl_append, hitems, foldl_cons, foldl_nil,
    applyOperation, state_metaMerge]
  exact htasks

end

def picturePrompt : AgentTranscriptSnapshot Unit :=
  { items := [.turn
      { turnId := turnId decimals 0
        ordinal := 0
        state := .completed
        origin := { kind := .user }
        attachmentIds := some ()
        steps := [] }]
    attachments := [{ attachmentId := [97], mediaType := "image/png" }]
    todos := [{ todoId := [116], items := () }] }

theorem picturePrompt_cold : ColdSnapshot decimals picturePrompt where
  timeline :=
    { turns := by
        intro turn hturn
        obtain rfl := mem_singleton.mp hturn
        exact ⟨rfl, forall_mem_nil _, .nil, forall_mem_nil _⟩
      rising := pairwise_singleton _ _
      standalone := by
        intro item hitem hnone
        obtain rfl := mem_singleton.mp hitem
        cases hnone
      nodup := nodup_singleton _ }
  tasks := nodup_nil

end Echadron.Transcript
