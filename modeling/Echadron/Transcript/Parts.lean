import Echadron.Transcript.Apply

namespace Echadron.Transcript
open Lib

/-- The part of a state that an operation can change: the timeline, what stands beside it, what a
removal takes from both, or everything. -/
inductive Part where
  | timeline
  | beside
  | removal
  | whole
deriving DecidableEq

variable {C : Type}

def TranscriptOperation.part : TranscriptOperation C → Part
  | .reset .. => .whole
  | .itemsRemove _ => .removal
  | .turnUpsert _ | .stepUpsert .. | .frameUpsert .. | .append (.frame ..) .. => .timeline
  | .markerUpsert .. | .taskrefUpsert .. => .timeline
  | _ => .beside

theorem eq_reset_of_part {op : TranscriptOperation C} (h : op.part = .whole) :
    ∃ agentId snapshot, op = .reset agentId snapshot := by
  cases op with
  | reset agentId snapshot => exact ⟨agentId, snapshot, rfl⟩
  | append target offset text => cases target <;> cases h
  | _ => cases h

theorem frame_frameAppend (state : AgentState C) (turnId stepId frameId : Text) (offset : Nat)
    (chunk : Text) : (applyFrameAppend state turnId stepId frameId offset chunk).state =
      { state with
        items := (applyFrameAppend state turnId stepId frameId offset chunk).state.items } := by
  rw [applyFrameAppend]
  cases streamedFrame state.items turnId stepId frameId with
  | none => rfl
  | some found =>
    obtain ⟨turn, step, frame, current⟩ := found
    dsimp only
    cases appendAtOffset current offset chunk <;> rfl

theorem items_taskAppend (state : AgentState C) (taskId : Text) (offset : Nat) (chunk : Text) :
    (applyTaskAppend state taskId offset chunk).state.items = state.items := by
  rw [applyTaskAppend]
  split <;> rfl

variable [DecidableEq C]

theorem frame_itemUpsert (state : AgentState C) (item : TranscriptItem C) (id : Text)
    (beforeTurn : Option ℚ) : (applyItemUpsert state item id beforeTurn).state =
      { state with items := (applyItemUpsert state item id beforeTurn).state.items } := by
  rw [applyItemUpsert]
  split <;> rfl

theorem frame_of_timeline (nt : NumberText) (state : AgentState C)
    (h : op.part = .timeline) : (applyOperation nt state op).state =
      { state with items := (applyOperation nt state op).state.items } := by
  cases op with
  | turnUpsert turn =>
    simp only [applyOperation, applyTurnUpsert]
    cases getTurn state.items turn.turnId with
    | none => rfl
    | some existing =>
      dsimp only
      split <;> rfl
  | stepUpsert turnId step =>
    simp only [applyOperation, applyStepUpsert]
    cases upsertStep ((getTurn state.items turnId).getD (skeletonTurn nt turnId)) step <;> rfl
  | frameUpsert turnId stepId frame =>
    simp only [applyOperation, applyFrameUpsert]
    cases upsertFrame ((getStep ((getTurn state.items turnId).getD (skeletonTurn nt turnId))
      stepId).getD (skeletonStep nt stepId turnId)) frame <;> rfl
  | append target offset text =>
    cases target with
    | frame turnId stepId frameId => exact frame_frameAppend state turnId stepId frameId offset text
    | task taskId => cases h
  | markerUpsert item beforeTurn => exact frame_itemUpsert state (.marker item) item.markerId beforeTurn
  | taskrefUpsert item beforeTurn => exact frame_itemUpsert state (.taskref item) item.refId beforeTurn
  | _ => cases h

theorem items_of_beside (nt : NumberText) (state : AgentState C)
    (h : op.part = .beside) : (applyOperation nt state op).state.items = state.items := by
  cases op with
  | append target offset text =>
    cases target with
    | frame turnId stepId frameId => cases h
    | task taskId => exact items_taskAppend state taskId offset text
  | taskUpsert task =>
    simp only [applyOperation, applyTaskUpsert]
    split <;> rfl
  | interactionUpsert interaction =>
    simp only [applyOperation, applyInteractionUpsert]
    split <;> rfl
  | attachmentUpsert attachment =>
    simp only [applyOperation, applyAttachmentUpsert]
    split <;> rfl
  | todoUpsert todo =>
    simp only [applyOperation, applyTodoUpsert]
    split <;> rfl
  | promptUpsert prompt =>
    simp only [applyOperation, applyPromptUpsert]
    split <;> rfl
  | metaMerge merge =>
    simp only [applyOperation, applyMetaMerge]
    split <;> rfl
  | _ => cases h

omit [DecidableEq C] in
theorem items_itemsRemove (state : AgentState C) (ids : List Text) :
    (applyItemsRemove state ids).state.items = state.items.filter fun entry => itemIdOf entry ∉ ids := by
  rw [applyItemsRemove]
  dsimp only
  split
  · rename_i hlength
    exact (List.filter_sublist.eq_of_length hlength).symm
  · rfl

/-! States after operations beside the timeline. -/

theorem state_taskUpsert (state : AgentState C) (task : TranscriptTask C) : (applyTaskUpsert state task).state =
      { state with
        tasks := if (state.tasks.get task.taskId).any fun current =>
            { current with taskId := task.taskId } = task then state.tasks
          else state.tasks.set task.taskId task } := by
  rw [applyTaskUpsert]
  split <;> rfl

theorem state_attachmentUpsert (state : AgentState C) (attachment : TranscriptAttachment C) :
    (applyAttachmentUpsert state attachment).state =
      { state with
        attachments := if (state.attachments.get attachment.attachmentId).any fun current =>
            { current with attachmentId := attachment.attachmentId } = attachment then state.attachments
          else state.attachments.set attachment.attachmentId attachment } := by
  rw [applyAttachmentUpsert]
  split <;> rfl

theorem state_todoUpsert (state : AgentState C) (todo : TranscriptTodo C) : (applyTodoUpsert state todo).state =
      { state with
        todos := if (state.todos.get todo.todoId).any fun current =>
            { current with todoId := todo.todoId } = todo then state.todos
          else state.todos.set todo.todoId todo } := by
  rw [applyTodoUpsert]
  split <;> rfl

theorem state_promptUpsert (state : AgentState C) (prompt : TranscriptPrompt C) :
    (applyPromptUpsert state prompt).state =
      { state with
        prompts := if (state.prompts.get prompt.promptId).any fun current =>
            { current with promptId := prompt.promptId } = prompt then state.prompts
          else state.prompts.set prompt.promptId prompt } := by
  rw [applyPromptUpsert]
  split <;> rfl

omit [DecidableEq C] in
theorem metadata_ext {a b : TranscriptMeta C} (hgoal : a.goal = b.goal) (hmodes : a.modes = b.modes)
    (hactivity : a.activity = b.activity) (hagent : a.agent = b.agent) : a = b := by
  cases a
  cases b
  simp_all

theorem state_metaMerge (state : AgentState C) (merge : TranscriptMetaMerge C) :
    (applyMetaMerge state merge).state = { state with metadata := state.metadata.over merge } := by
  rw [applyMetaMerge]
  split
  · rename_i h
    obtain ⟨hgoal, hactivity, ⟨hmodes, _⟩, hagent⟩ := h
    have hsame : state.metadata.over merge = state.metadata := by
      apply metadata_ext hgoal hmodes hactivity
      rw [TranscriptMeta.over, hagent]
      rfl
    rw [hsame]
  · rfl

omit [DecidableEq C] in
theorem state_taskAppend (state : AgentState C) (taskId : Text) (offset : Nat) (chunk : Text) :
    ∃ tasks, (applyTaskAppend state taskId offset chunk).state = { state with tasks := tasks } := by
  rw [applyTaskAppend]
  dsimp only
  split
  · exact ⟨_, rfl⟩
  · exact ⟨_, rfl⟩
  · exact ⟨_, rfl⟩

theorem state_interactionUpsert (state : AgentState C) (interaction : TranscriptInteraction C) :
    ∃ interactions pending, (applyInteractionUpsert state interaction).state =
      { state with interactions := interactions, pendingInteractions := pending } := by
  rw [applyInteractionUpsert]
  split
  · exact ⟨_, _, rfl⟩
  · exact ⟨_, _, rfl⟩

omit [DecidableEq C] in
theorem state_itemsRemove (state : AgentState C) (ids : List Text) :
    ∃ items interactions pending, (applyItemsRemove state ids).state =
      { state with items := items, interactions := interactions, pendingInteractions := pending } := by
  rw [applyItemsRemove]
  dsimp only
  split
  · exact ⟨_, _, _, rfl⟩
  · exact ⟨_, _, _, rfl⟩

/-- What an operation is about beside the timeline. -/
inductive Subject where
  | task
  | interaction
  | attachment
  | todo
  | prompt
  | metadata
  | none
deriving DecidableEq

def TranscriptOperation.subject : TranscriptOperation C → Subject
  | .append (.task _) .. | .taskUpsert _ => .task
  | .interactionUpsert _ | .itemsRemove _ => .interaction
  | .attachmentUpsert _ => .attachment
  | .todoUpsert _ => .todo
  | .promptUpsert _ => .prompt
  | .metaMerge _ => .metadata
  | _ => .none

structure Unchanged (subject : Subject) (state next : AgentState C) : Prop where
  tasks : subject ≠ .task → next.tasks = state.tasks
  interactions : subject ≠ .interaction → next.interactions = state.interactions
  attachments : subject ≠ .attachment → next.attachments = state.attachments
  todos : subject ≠ .todo → next.todos = state.todos
  prompts : subject ≠ .prompt → next.prompts = state.prompts
  metadata : subject ≠ .metadata → next.metadata = state.metadata
  hasMoreOlder : next.hasMoreOlder = state.hasMoreOlder

theorem unchanged_apply (nt : NumberText) (state : AgentState C)
    (hpart : op.part ≠ .whole) : Unchanged op.subject state (applyOperation nt state op).state := by
  cases hop : op.part with
  | whole => exact absurd hop hpart
  | timeline =>
    rw [frame_of_timeline nt state hop]
    exact ⟨fun _ => rfl, fun _ => rfl, fun _ => rfl, fun _ => rfl, fun _ => rfl, fun _ => rfl, rfl⟩
  | removal =>
    cases op with
    | itemsRemove ids =>
      obtain ⟨items, interactions, pending, hstate⟩ := state_itemsRemove state ids
      rw [applyOperation, hstate]
      exact ⟨fun _ => rfl, absurd rfl, fun _ => rfl, fun _ => rfl, fun _ => rfl, fun _ => rfl, rfl⟩
    | append target offset chunk => cases target <;> cases hop
    | _ => cases hop
  | beside =>
    cases op with
    | append target offset chunk =>
      cases target with
      | frame turnId stepId frameId => cases hop
      | task taskId =>
        obtain ⟨tasks, hstate⟩ := state_taskAppend state taskId offset chunk
        rw [applyOperation, applyAppend, hstate]
        exact ⟨absurd rfl, fun _ => rfl, fun _ => rfl, fun _ => rfl, fun _ => rfl, fun _ => rfl, rfl⟩
    | taskUpsert task =>
      rw [applyOperation, state_taskUpsert]
      exact ⟨absurd rfl, fun _ => rfl, fun _ => rfl, fun _ => rfl, fun _ => rfl, fun _ => rfl, rfl⟩
    | interactionUpsert interaction =>
      obtain ⟨interactions, pending, hstate⟩ := state_interactionUpsert state interaction
      rw [applyOperation, hstate]
      exact ⟨fun _ => rfl, absurd rfl, fun _ => rfl, fun _ => rfl, fun _ => rfl, fun _ => rfl, rfl⟩
    | attachmentUpsert attachment =>
      rw [applyOperation, state_attachmentUpsert]
      exact ⟨fun _ => rfl, fun _ => rfl, absurd rfl, fun _ => rfl, fun _ => rfl, fun _ => rfl, rfl⟩
    | todoUpsert todo =>
      rw [applyOperation, state_todoUpsert]
      exact ⟨fun _ => rfl, fun _ => rfl, fun _ => rfl, absurd rfl, fun _ => rfl, fun _ => rfl, rfl⟩
    | promptUpsert prompt =>
      rw [applyOperation, state_promptUpsert]
      exact ⟨fun _ => rfl, fun _ => rfl, fun _ => rfl, fun _ => rfl, absurd rfl, fun _ => rfl, rfl⟩
    | metaMerge merge =>
      rw [applyOperation, state_metaMerge]
      exact ⟨fun _ => rfl, fun _ => rfl, fun _ => rfl, fun _ => rfl, fun _ => rfl, absurd rfl, rfl⟩
    | _ => cases hop

end Echadron.Transcript
