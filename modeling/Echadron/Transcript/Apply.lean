import Echadron.Transcript.Model
import Mathlib.Data.List.Sort

namespace Echadron.Transcript
open Lib

variable {C : Type}

/-! The operations. -/

structure AgentTranscriptSnapshot (C : Type) where
  items : List (TranscriptItem C) := []
  tasks : List (TranscriptTask C) := []
  interactions : List (TranscriptInteraction C) := []
  attachments : List (TranscriptAttachment C) := []
  todos : List (TranscriptTodo C) := []
  prompts : List (TranscriptPrompt C) := []
  metadata : TranscriptMeta C := {}
  hasMoreOlder : Option Bool := none
deriving DecidableEq

inductive AppendTarget where
  | frame (turnId stepId frameId : Text)
  | task (taskId : Text)
deriving DecidableEq

inductive TranscriptOperation (C : Type) where
  | reset (agentId : Text) (snapshot : AgentTranscriptSnapshot C)
  | turnUpsert (turn : TurnHeader C)
  | stepUpsert (turnId : Text) (step : StepHeader C)
  | frameUpsert (turnId stepId : Text) (frame : TranscriptFrame C)
  | append (target : AppendTarget) (offset : Nat) (text : Text)
  | markerUpsert (item : TranscriptMarker C) (beforeTurn : Option ℚ)
  | taskrefUpsert (item : TranscriptTaskRef) (beforeTurn : Option ℚ)
  | taskUpsert (task : TranscriptTask C)
  | interactionUpsert (interaction : TranscriptInteraction C)
  | attachmentUpsert (attachment : TranscriptAttachment C)
  | todoUpsert (todo : TranscriptTodo C)
  | promptUpsert (prompt : TranscriptPrompt C)
  | metaMerge (metadata : TranscriptMetaMerge C)
  | itemsRemove (ids : List Text)
deriving DecidableEq

structure AgentState (C : Type) where
  items : List (TranscriptItem C) := []
  tasks : JsMap Text (TranscriptTask C) := .empty
  interactions : JsMap Text (TranscriptInteraction C) := .empty
  attachments : JsMap Text (TranscriptAttachment C) := .empty
  todos : JsMap Text (TranscriptTodo C) := .empty
  prompts : JsMap Text (TranscriptPrompt C) := .empty
  metadata : TranscriptMeta C := {}
  pendingInteractions : JsSet Text := .empty
  hasMoreOlder : Bool := false

/-- An append that does not land. -/
structure Gap where
  expected : Nat
  got : Nat
deriving DecidableEq

structure ApplyResult (C : Type) where
  state : AgentState C
  changed : Bool
  gap : Option Gap := none

def turnsOf (items : List (TranscriptItem C)) : List (TranscriptTurn C) := items.filterMap TranscriptItem.asTurn

def getTurn (items : List (TranscriptItem C)) (turnId : Text) : Option (TranscriptTurn C) :=
  (turnsOf items).find? fun turn => turn.turnId = turnId

def getStep (turn : TranscriptTurn C) (stepId : Text) : Option (TranscriptStep C) :=
  turn.steps.find? fun step => step.stepId = stepId

def getFrame (step : TranscriptStep C) (frameId : Text) : Option (TranscriptFrame C) :=
  step.frames.find? fun frame => frame.frameId = frameId

def skeletonTurn (nt : NumberText) (turnId : Text) : TranscriptTurn C :=
  { turnId := turnId
    ordinal := turnOrdinal nt turnId
    state := .running
    origin := { kind := .other }
    steps := [] }

def skeletonStep (nt : NumberText) (stepId turnId : Text) : TranscriptStep C :=
  { stepId := stepId
    turnId := turnId
    ordinal := stepOrdinal nt stepId turnId
    state := .running
    frames := [] }

/-- Before the first element that a test accepts, or at the end. -/
def spliceBefore {α : Type} (p : α → Bool) (x : α) : List α → List α
  | [] => [x]
  | y :: ys => if p y then x :: y :: ys else y :: spliceBefore p x ys

def insertTurn (items : List (TranscriptItem C)) (turn : TranscriptTurn C) : List (TranscriptItem C) :=
  spliceBefore (fun item => item.asTurn.any fun t => turn.ordinal < t.ordinal) (.turn turn) items

def mapTurn (turnId : Text) (fn : TranscriptTurn C → TranscriptTurn C) : TranscriptItem C → TranscriptItem C
  | .turn t => if t.turnId = turnId then .turn (fn t) else .turn t
  | item => item

def replaceTurn (items : List (TranscriptItem C)) (turnId : Text)
    (fn : TranscriptTurn C → TranscriptTurn C) : List (TranscriptItem C) :=
  items.map (mapTurn turnId fn)

/-- `toSorted` by ordinal, which is stable. -/
def sortSteps (steps : List (TranscriptStep C)) : List (TranscriptStep C) :=
  steps.insertionSort fun a b => a.ordinal ≤ b.ordinal

variable [DecidableEq C]

/-- The task of an origin is not compared. -/
def turnEquals (turn : TranscriptTurn C) (header : TurnHeader C) : Bool :=
  decide ({ turn.toTurnHeader with
    turnId := header.turnId
    origin := { turn.origin with taskId := header.origin.taskId } } = header)

def stepEquals (step : TranscriptStep C) (header : StepHeader C) : Bool :=
  decide ({ step.toStepHeader with
    stepId := header.stepId
    turnId := header.turnId } = header)

/-- The source of a notice is not compared. -/
def frameEquals : (a b : TranscriptFrame C) → Bool
  | .text a, .text b => decide ({ a with frameId := b.frameId } = b)
  | .thinking a, .thinking b => decide (a.text = b.text)
  | .tool a, .tool b => decide ({ a with frameId := b.frameId } = b)
  | .notice a, .notice b => decide ({ a with frameId := b.frameId, source := b.source } = b)
  | _, _ => false

variable (nt : NumberText) (state : AgentState C)

def applyTurnUpsert (header : TurnHeader C) : ApplyResult C :=
  match getTurn state.items header.turnId with
  | some existing =>
    if turnEquals existing header then { state := state, changed := false }
    else
      { state := { state with
          items := replaceTurn state.items header.turnId fun turn =>
            { toTurnHeader := header, steps := turn.steps } }
        changed := true }
  | none =>
    { state := { state with items := insertTurn state.items { toTurnHeader := header, steps := [] } }
      changed := true }

/-- Put a turn that was changed, or made on demand, in its place. -/
def putTurn (items : List (TranscriptItem C)) (turnId : Text) (turn : TranscriptTurn C) : List (TranscriptItem C) :=
  if (getTurn items turnId).isSome then replaceTurn items turnId fun _ => turn
  else insertTurn items turn

def upsertStep (turn : TranscriptTurn C) (header : StepHeader C) : Option (List (TranscriptStep C)) :=
  match getStep turn header.stepId with
  | some current =>
    if stepEquals current header then none
    else
      some (turn.steps.map fun step =>
        if step.stepId = header.stepId then { toStepHeader := header, frames := step.frames } else step)
  | none => some (sortSteps (turn.steps ++ [{ toStepHeader := header, frames := [] }]))

def applyStepUpsert (turnId : Text) (header : StepHeader C) : ApplyResult C :=
  let turn := (getTurn state.items turnId).getD (skeletonTurn nt turnId)
  match upsertStep turn header with
  | none => { state := state, changed := false }
  | some steps =>
    { state := { state with items := putTurn state.items turnId { turn with steps := steps } }
      changed := true }

/-- The frames of a step with one of them changed; absent where nothing changes. -/
def upsertFrame (step : TranscriptStep C) (frame : TranscriptFrame C) : Option (List (TranscriptFrame C)) :=
  match getFrame step frame.frameId with
  | some current =>
    if frameEquals current frame then none
    else some (step.frames.map fun entry => if entry.frameId = frame.frameId then frame else entry)
  | none => some (step.frames ++ [frame])

/-- Put a step that was changed, or made on demand, in its place. -/
def putStep (steps : List (TranscriptStep C)) (stepId : Text) (step : TranscriptStep C) : List (TranscriptStep C) :=
  if steps.any fun entry => entry.stepId = stepId then
    steps.map fun entry => if entry.stepId = stepId then step else entry
  else sortSteps (steps ++ [step])

def applyFrameUpsert (turnId stepId : Text) (frame : TranscriptFrame C) : ApplyResult C :=
  let turn := (getTurn state.items turnId).getD (skeletonTurn nt turnId)
  let step := (getStep turn stepId).getD (skeletonStep nt stepId turnId)
  match upsertFrame step frame with
  | none => { state := state, changed := false }
  | some frames =>
    let nextTurn := { turn with steps := putStep turn.steps stepId { step with frames := frames } }
    { state := { state with items := putTurn state.items turnId nextTurn }
      changed := true }

inductive Placed where
  | gap (gap : Gap)
  | unchanged
  | text (text : Text)
deriving DecidableEq

/-- A chunk that is there already is a duplicate; one that disagrees with what is there is a gap. -/
def appendAtOffset (current : Text) (offset : Nat) (chunk : Text) : Placed :=
  if current.length < offset then .gap { expected := current.length, got := offset }
  else if (current.drop offset).take chunk.length = chunk then .unchanged
  else
    let overlap := current.length - offset
    if current.drop offset ≠ chunk.take overlap then
      .gap { expected := current.length, got := offset }
    else
      let novel := if 0 < overlap then chunk.drop overlap else chunk
      if novel.length = 0 then .unchanged else .text (current.take offset ++ chunk)

def TranscriptFrame.streamed : TranscriptFrame C → Option Text
  | .text frame => some frame.text
  | .thinking frame => some frame.text
  | _ => none

def TranscriptFrame.withText (text : Text) : TranscriptFrame C → TranscriptFrame C
  | .text frame => .text { frame with text := text }
  | .thinking frame => .thinking { frame with text := text }
  | frame => frame

def streamedFrame (items : List (TranscriptItem C)) (turnId stepId frameId : Text) :
    Option (TranscriptTurn C × TranscriptStep C × TranscriptFrame C × Text) := do
  let turn ← getTurn items turnId
  let step ← getStep turn stepId
  let frame ← getFrame step frameId
  let text ← frame.streamed
  return (turn, step, frame, text)

def applyFrameAppend (turnId stepId frameId : Text) (offset : Nat) (chunk : Text) : ApplyResult C :=
  match streamedFrame state.items turnId stepId frameId with
  | none => { state := state, changed := false, gap := some { expected := 0, got := offset } }
  | some (turn, step, frame, current) =>
    match appendAtOffset current offset chunk with
    | .gap gap => { state := state, changed := false, gap := some gap }
    | .unchanged => { state := state, changed := false }
    | .text merged =>
      let frames := step.frames.map fun entry =>
        if entry.frameId = frameId then frame.withText merged else entry
      let steps := turn.steps.map fun entry =>
        if entry.stepId = stepId then { step with frames := frames } else entry
      { state := { state with
          items := replaceTurn state.items turnId fun _ => { turn with steps := steps } }
        changed := true }

def applyTaskAppend (taskId : Text) (offset : Nat) (chunk : Text) : ApplyResult C :=
  let task := state.tasks.get taskId
  match appendAtOffset ((task.map TranscriptTask.outputTail).getD []) offset chunk with
  | .gap gap => { state := state, changed := false, gap := some gap }
  | .unchanged => { state := state, changed := false }
  | .text merged =>
    let nextTask : TranscriptTask C :=
      match task with
      | some task => { task with outputTail := merged }
      | none => { taskId := taskId, kind := .other, state := .running, detached := false, outputTail := merged }
    { state := { state with tasks := state.tasks.set taskId nextTask }, changed := true }

def applyAppend (target : AppendTarget) (offset : Nat) (chunk : Text) : ApplyResult C :=
  match target with
  | .task taskId => applyTaskAppend state taskId offset chunk
  | .frame turnId stepId frameId => applyFrameAppend state turnId stepId frameId offset chunk

/-- Without an anchor a new item goes to the end, else before the first turn at or past it. -/
def applyItemUpsert (item : TranscriptItem C) (id : Text) (beforeTurn : Option ℚ) : ApplyResult C :=
  if state.items.any fun entry => itemIdOf entry = id then
    { state := { state with
        items := state.items.map fun entry => if itemIdOf entry = id then item else entry }
      changed := state.items.any fun entry => itemIdOf entry = id ∧ entry ≠ item }
  else
    let isAfter (entry : TranscriptItem C) : Bool :=
      beforeTurn.any fun anchor => entry.asTurn.any fun turn => anchor ≤ turn.ordinal
    { state := { state with items := spliceBefore isAfter item state.items }
      changed := true }

def anchoredToolCalls (turns : List (TranscriptTurn C)) : List Text :=
  turns.flatMap fun turn => turn.steps.flatMap fun step => step.frames.filterMap fun frame =>
    match frame with
    | .tool frame => some frame.toolCallId
    | _ => none

def deadInteractions (turns : List (TranscriptTurn C)) : List Text :=
  ((state.interactions.entries.map Prod.snd).filter fun interaction =>
    interaction.toolCallId.any fun call => call ∈ anchoredToolCalls turns).map
      TranscriptInteraction.interactionId

/-- With a turn go the interactions that its tool calls anchor. -/
def applyItemsRemove (ids : List Text) : ApplyResult C :=
  let removedTurns := (turnsOf state.items).filter fun turn => turn.turnId ∈ ids
  let items := state.items.filter fun entry => itemIdOf entry ∉ ids
  if items.length = state.items.length then { state := state, changed := false }
  else
    let dead := deadInteractions state removedTurns
    { state := { state with
        items := items
        interactions := dead.foldl JsMap.delete state.interactions
        pendingInteractions := dead.foldl JsMap.delete state.pendingInteractions }
      changed := true }

def applyTaskUpsert (task : TranscriptTask C) : ApplyResult C :=
  if (state.tasks.get task.taskId).any fun current => { current with taskId := task.taskId } = task then
    { state := state, changed := false }
  else { state := { state with tasks := state.tasks.set task.taskId task }, changed := true }

def applyInteractionUpsert (interaction : TranscriptInteraction C) : ApplyResult C :=
  if (state.interactions.get interaction.interactionId).any fun current =>
      { current with interactionId := interaction.interactionId } = interaction then
    { state := state, changed := false }
  else
    let id := interaction.interactionId
    { state := { state with
        interactions := state.interactions.set id interaction
        pendingInteractions :=
          if interaction.state = .pending then
            if state.pendingInteractions.has id then state.pendingInteractions
            else state.pendingInteractions.set id ()
          else state.pendingInteractions.delete id }
      changed := true }

def applyAttachmentUpsert (attachment : TranscriptAttachment C) : ApplyResult C :=
  if (state.attachments.get attachment.attachmentId).any fun current =>
      { current with attachmentId := attachment.attachmentId } = attachment then
    { state := state, changed := false }
  else
    { state := { state with attachments := state.attachments.set attachment.attachmentId attachment }
      changed := true }

def applyTodoUpsert (todo : TranscriptTodo C) : ApplyResult C :=
  if (state.todos.get todo.todoId).any fun current => { current with todoId := todo.todoId } = todo then
    { state := state, changed := false }
  else { state := { state with todos := state.todos.set todo.todoId todo }, changed := true }

def applyPromptUpsert (prompt : TranscriptPrompt C) : ApplyResult C :=
  if (state.prompts.get prompt.promptId).any fun current =>
      { current with promptId := prompt.promptId } = prompt then
    { state := state, changed := false }
  else { state := { state with prompts := state.prompts.set prompt.promptId prompt }, changed := true }

omit [DecidableEq C] in
def ModeMerge.over (current : Option C) : ModeMerge C → Option C
  | keep => current
  | clear => none
  | put mode => some mode

/-- The fields of a newer slice stand over those of the older ones. -/
def AgentStatusMeta.over (current slice : AgentStatusMeta C) : AgentStatusMeta C :=
  { model := slice.model.or current.model
    thinkingEffort := slice.thinkingEffort.or current.thinkingEffort
    usage := slice.usage.or current.usage
    contextTokens := slice.contextTokens.or current.contextTokens
    maxContextTokens := slice.maxContextTokens.or current.maxContextTokens
    contextUsage := slice.contextUsage.or current.contextUsage
    permission := slice.permission.or current.permission
    phase := slice.phase.or current.phase }

def ModesMeta.over (current : Option (ModesMeta C)) (merge : ModesMetaMerge C) : ModesMeta C :=
  { plan := merge.plan.over (current.bind ModesMeta.plan)
    swarm := merge.swarm.over (current.bind ModesMeta.swarm) }

def TranscriptMeta.over (current : TranscriptMeta C) (merge : TranscriptMetaMerge C) : TranscriptMeta C :=
  let modes := (merge.modes.map (ModesMeta.over current.modes)).or current.modes
  { goal := merge.goal.or current.goal
    activity := merge.activity.or current.activity
    modes := modes.filter fun modes => modes.plan.isSome ∨ modes.swarm.isSome
    agent := (merge.agent.map ((current.agent.getD {}).over ·)).or current.agent }

/-- Merged modes and a merged status are new objects, which are not the current ones. -/
def applyMetaMerge (merge : TranscriptMetaMerge C) : ApplyResult C :=
  let next := state.metadata.over merge
  let sameModes := next.modes = state.metadata.modes ∧ (merge.modes = none ∨ next.modes = none)
  if next.goal = state.metadata.goal ∧ next.activity = state.metadata.activity ∧ sameModes ∧
      merge.agent = none then
    { state := state, changed := false }
  else { state := { state with metadata := next }, changed := true }

def ofValues {V : Type} (id : V → Text) (values : List V) : JsMap Text V :=
  values.foldl (fun m value => m.set (id value) value) .empty

def applyReset (snapshot : AgentTranscriptSnapshot C) : ApplyResult C :=
  let pending := snapshot.interactions.filter fun interaction => interaction.state = .pending
  { state :=
      { items := snapshot.items
        tasks := ofValues TranscriptTask.taskId snapshot.tasks
        interactions := ofValues TranscriptInteraction.interactionId snapshot.interactions
        attachments := ofValues TranscriptAttachment.attachmentId snapshot.attachments
        todos := ofValues TranscriptTodo.todoId snapshot.todos
        prompts := ofValues TranscriptPrompt.promptId snapshot.prompts
        metadata := snapshot.metadata
        pendingInteractions := .ofKeys (pending.map TranscriptInteraction.interactionId)
        hasMoreOlder := snapshot.hasMoreOlder.getD false }
    changed := true }

def applyOperation : TranscriptOperation C → ApplyResult C
  | .reset _ snapshot => applyReset snapshot
  | .turnUpsert turn => applyTurnUpsert state turn
  | .stepUpsert turnId step => applyStepUpsert nt state turnId step
  | .frameUpsert turnId stepId frame => applyFrameUpsert nt state turnId stepId frame
  | .append target offset text => applyAppend state target offset text
  | .markerUpsert item beforeTurn => applyItemUpsert state (.marker item) item.markerId beforeTurn
  | .taskrefUpsert item beforeTurn => applyItemUpsert state (.taskref item) item.refId beforeTurn
  | .taskUpsert task => applyTaskUpsert state task
  | .interactionUpsert interaction => applyInteractionUpsert state interaction
  | .attachmentUpsert attachment => applyAttachmentUpsert state attachment
  | .todoUpsert todo => applyTodoUpsert state todo
  | .promptUpsert prompt => applyPromptUpsert state prompt
  | .metaMerge metadata => applyMetaMerge state metadata
  | .itemsRemove ids => applyItemsRemove state ids

def applyAll (ops : List (TranscriptOperation C)) : AgentState C :=
  ops.foldl (fun state op => (applyOperation nt state op).state) state

def skipTurns (skip : Nat) : (seen : Nat) → List (TranscriptItem C) → List (TranscriptItem C)
  | _, [] => []
  | seen, .turn turn :: items =>
    if seen + 1 ≤ skip then skipTurns skip (seen + 1) items
    else .turn turn :: skipTurns skip (seen + 1) items
  | seen, item :: items => if skip < seen then item :: skipTurns skip seen items else skipTurns skip seen items

def AgentState.snapshot (tailTurns : Option Nat) : AgentTranscriptSnapshot C :=
  let turnCount := (turnsOf state.items).length
  let windowed := tailTurns.any fun tail => tail < turnCount
  let kept := tailTurns.getD turnCount
  { items := if windowed then skipTurns (turnCount - kept) 0 state.items else state.items
    tasks := state.tasks.entries.map Prod.snd
    interactions := state.interactions.entries.map Prod.snd
    attachments := state.attachments.entries.map Prod.snd
    todos := state.todos.entries.map Prod.snd
    prompts := state.prompts.entries.map Prod.snd
    metadata := state.metadata
    hasMoreOlder := some (windowed || state.hasMoreOlder) }

end Echadron.Transcript
