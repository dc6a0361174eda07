import Echadron.Transcript.Reachable
import Mathlib.Data.Finset.Basic

namespace Echadron.Transcript
open Lib List Option

variable {C : Type} {s t : AgentState C}

/-! What flows at a grade. -/

inductive TranscriptGrade where
  | off
  | turn
  | block
  | delta
deriving DecidableEq

def TranscriptGrade.rank : TranscriptGrade → Nat
  | off => 0
  | turn => 1
  | block => 2
  | delta => 3

def admits (grade : TranscriptGrade) : TranscriptOperation C → Bool
  | .append .. => TranscriptGrade.delta.rank ≤ grade.rank
  | .stepUpsert .. => TranscriptGrade.block.rank ≤ grade.rank
  | .frameUpsert .. => TranscriptGrade.block.rank ≤ grade.rank
  | _ => true

def filterOpsForGrade (grade : TranscriptGrade) (ops : List (TranscriptOperation C)) : List (TranscriptOperation C) :=
  if grade.rank = 0 then [] else ops.filter (admits grade)

def TranscriptTurn.withoutSteps (turn : TranscriptTurn C) : TranscriptTurn C := { turn with steps := [] }

def TranscriptItem.withoutSteps : TranscriptItem C → TranscriptItem C
  | .turn t => .turn t.withoutSteps
  | item => item

def redactSnapshotForGrade (grade : TranscriptGrade) (snapshot : AgentTranscriptSnapshot C) :
    AgentTranscriptSnapshot C :=
  if TranscriptGrade.block.rank ≤ grade.rank then snapshot
  else { snapshot with items := snapshot.items.map TranscriptItem.withoutSteps }

theorem filterOpsForGrade_turn_cons (op : TranscriptOperation C) (ops : List (TranscriptOperation C)) :
    filterOpsForGrade .turn (op :: ops) =
      if admits .turn op then op :: filterOpsForGrade .turn ops else filterOpsForGrade .turn ops :=
  filter_cons

@[simp] theorem itemIdOf_withoutSteps (item : TranscriptItem C) : itemIdOf item.withoutSteps = itemIdOf item := by
  cases item <;> rfl

section

variable (items : List (TranscriptItem C))

theorem any_withoutSteps (p : Text → Bool) :
    ((items.map TranscriptItem.withoutSteps).any fun item => p (itemIdOf item)) =
      items.any fun item => p (itemIdOf item) := by
  rw [List.any_map]
  exact congrArg _ (funext fun item => congrArg p (itemIdOf_withoutSteps item))

theorem turnsOf_withoutSteps : turnsOf (items.map TranscriptItem.withoutSteps) =
      (turnsOf items).map TranscriptTurn.withoutSteps := by
  induction items with
  | nil => rfl
  | cons item items ih =>
    cases item with
    | turn turn => exact congrArg (cons _) ih
    | _ => exact ih

theorem getTurn_withoutSteps (turnId : Text) : getTurn (items.map TranscriptItem.withoutSteps) turnId =
      (getTurn items turnId).map TranscriptTurn.withoutSteps := by
  rw [getTurn, turnsOf_withoutSteps, find?_map]
  rfl

theorem insertTurn_withoutSteps (turn : TranscriptTurn C) :
    (insertTurn items turn).map TranscriptItem.withoutSteps =
      insertTurn (items.map TranscriptItem.withoutSteps) turn.withoutSteps := by
  apply map_spliceBefore
  intro item _
  cases item <;> rfl

end

theorem withoutSteps_mapTurn {turnId : Text} (h : ∀ turn, (fn turn).withoutSteps = fn turn.withoutSteps)
    (item : TranscriptItem C) :
    (mapTurn turnId fn item).withoutSteps = mapTurn turnId fn item.withoutSteps := by
  cases item with
  | turn turn =>
    by_cases hid : turn.turnId = turnId
    · have hid' : turn.withoutSteps.turnId = turnId := hid
      simp only [mapTurn, TranscriptItem.withoutSteps, hid, hid', if_true, h turn]
    · have hid' : turn.withoutSteps.turnId ≠ turnId := hid
      simp only [mapTurn, TranscriptItem.withoutSteps, hid, hid', if_false]
  | _ => rfl

theorem replaceTurn_withoutSteps (items : List (TranscriptItem C)) (turnId : Text)
    (h : ∀ turn, (fn turn).withoutSteps = fn turn.withoutSteps) :
    (replaceTurn items turnId fn).map TranscriptItem.withoutSteps =
      replaceTurn (items.map TranscriptItem.withoutSteps) turnId fn := by
  rw [replaceTurn, replaceTurn, List.map_map, List.map_map]
  exact map_congr_left fun item _ => withoutSteps_mapTurn h item

theorem replaceTurn_steps (hunique : UniqueTurns items) {turnId : Text} (hget : getTurn items turnId = some turn)
    (steps : List (TranscriptStep C)) :
    (replaceTurn items turnId fun _ => { turn with steps := steps }).map TranscriptItem.withoutSteps =
      items.map TranscriptItem.withoutSteps := by
  rw [replaceTurn, List.map_map]
  apply map_congr_left
  intro item hitem
  cases item with
  | turn t =>
    simp only [Function.comp_apply, mapTurn]
    split
    · rename_i hid
      obtain ⟨hmem, hturnId⟩ := getTurn_mem hget
      have heq : t = turn := inj_on_of_nodup_map hunique (mem_turnsOf.mpr hitem) hmem (hid.trans hturnId.symm)
      rw [heq]
      rfl
    · rfl
  | _ => rfl

theorem length_insertTurn (items : List (TranscriptItem C)) (turn : TranscriptTurn C) :
    (insertTurn items turn).length = items.length + 1 :=
  spliceBefore_perm.length_eq

theorem putTurn_withoutSteps_iff (hunique : UniqueTurns items)
    (turnId : Text) (skeleton : TranscriptTurn C) (steps : List (TranscriptStep C)) :
    (putTurn items turnId { (getTurn items turnId).getD skeleton with steps := steps }).map
        TranscriptItem.withoutSteps = items.map TranscriptItem.withoutSteps ↔
      (getTurn items turnId).isSome := by
  rw [putTurn]
  cases hget : getTurn items turnId with
  | none =>
    simp only [isSome_none, Bool.false_eq_true, if_false, iff_false]
    intro he
    have hlength := congrArg length he
    rw [length_map, length_map, length_insertTurn] at hlength
    omega
  | some turn => simpa using replaceTurn_steps hunique hget steps

theorem eq_map_withoutSteps_iff (items : List (TranscriptItem C)) :
    items = items.map TranscriptItem.withoutSteps ↔ ∀ turn ∈ turnsOf items, turn.steps = [] := by
  induction items with
  | nil => exact iff_of_true rfl (forall_mem_nil _)
  | cons item items ih =>
    rw [map_cons, cons.injEq, ih]
    cases item with
    | turn turn =>
      have hturn : TranscriptItem.turn turn = TranscriptItem.withoutSteps (.turn turn) ↔ turn.steps = [] := by
        constructor
        · intro he
          exact congrArg TranscriptTurn.steps (TranscriptItem.turn.inj he)
        · intro he
          exact congrArg (fun steps => TranscriptItem.turn { toTurnHeader := _, steps := steps }) he
      have hturns : turnsOf (TranscriptItem.turn turn :: items) = turn :: turnsOf items := rfl
      rw [hturn, hturns, forall_mem_cons]
    | marker marker => exact and_iff_right rfl
    | taskref ref => exact and_iff_right rfl

def sentPart (unsent : Finset Text) (entry : Text × TranscriptTask C) : Text × TranscriptTask C :=
  (entry.1, if entry.1 ∈ unsent then { entry.2 with outputTail := [] } else entry.2)

/-- The subscriber's state is that of the producer without steps, but for output of tasks that has
not been sent. -/
structure Mirrors (unsent : Finset Text) (s t : AgentState C) : Prop where
  items : t.items = s.items.map TranscriptItem.withoutSteps
  tasks : t.tasks.entries.map (sentPart unsent) = s.tasks.entries.map (sentPart unsent)
  interactions : t.interactions.entries = s.interactions.entries
  attachments : t.attachments.entries = s.attachments.entries
  todos : t.todos.entries = s.todos.entries
  prompts : t.prompts.entries = s.prompts.entries
  metadata : t.metadata = s.metadata
  pending : ∀ id, id ∈ t.pendingInteractions.keys ↔ id ∈ s.pendingInteractions.keys
  hasMoreOlder : t.hasMoreOlder = s.hasMoreOlder

/-- The tasks with output that an upsert has yet to send. -/
def stillUnsent (unsent : Finset Text) : TranscriptOperation C → Finset Text
  | .append (.task taskId) _ _ => insert taskId unsent
  | .taskUpsert task => unsent.erase task.taskId
  | .reset .. => ∅
  | _ => unsent

/-- The operation acts through nothing that the subscriber lacks: a step or a frame finds its turn and
output its task, no interaction is anchored in a turn that is removed, and a reset has no steps. -/
def Mirrorable (s : AgentState C) : TranscriptOperation C → Prop
  | .reset _ snapshot => ∀ turn ∈ turnsOf snapshot.items, turn.steps = []
  | .stepUpsert turnId _ => (getTurn s.items turnId).isSome
  | .frameUpsert turnId _ _ => (getTurn s.items turnId).isSome
  | .append (.task taskId) offset chunk => (s.tasks.get taskId).isSome ∨ 0 < offset ∨ chunk = []
  | .itemsRemove ids => ∀ id interaction, s.interactions.get id = some interaction →
      ∀ call ∈ interaction.toolCallId,
        call ∉ anchoredToolCalls ((turnsOf s.items).filter fun turn => turn.turnId ∈ ids)
  | _ => True

namespace Mirrors

variable {unsent : Finset Text}

theorem withItems (h : Mirrors unsent s t) {items items' : List (TranscriptItem C)}
    (hitems : items' = items.map TranscriptItem.withoutSteps) :
    Mirrors unsent { s with items := items } { t with items := items' } :=
  { h with items := hitems }

theorem items_iff (h : Mirrors unsent s t) (items : List (TranscriptItem C)) :
    Mirrors unsent { s with items := items } t ↔
      items.map TranscriptItem.withoutSteps = s.items.map TranscriptItem.withoutSteps := by
  constructor
  · exact fun h' => h'.items.symm.trans h.items
  · exact fun he => { h with items := h.items.trans he.symm }

variable [DecidableEq C] (nt : NumberText)

theorem turnUpsert (h : Mirrors unsent s t) (header : TurnHeader C) :
    Mirrors unsent (applyTurnUpsert s header).state (applyTurnUpsert t header).state := by
  rw [applyTurnUpsert, applyTurnUpsert, h.items, getTurn_withoutSteps]
  cases getTurn s.items header.turnId with
  | none => exact h.withItems (insertTurn_withoutSteps s.items { toTurnHeader := header, steps := [] }).symm
  | some existing =>
    have hequals : turnEquals existing.withoutSteps header = turnEquals existing header := by
      rw [turnEquals, turnEquals, TranscriptTurn.withoutSteps]
    simp only [map_some, hequals]
    split
    · exact h
    · apply h.withItems
      apply Eq.symm
      apply replaceTurn_withoutSteps
      exact fun _ => rfl

theorem stepUpsert_iff (h : Mirrors unsent s t) (hunique : UniqueTurns s.items) (turnId : Text)
    (header : StepHeader C) :
    Mirrors unsent (applyStepUpsert nt s turnId header).state t ↔ (getTurn s.items turnId).isSome := by
  rw [applyStepUpsert]
  cases hsteps : upsertStep ((getTurn s.items turnId).getD (skeletonTurn nt turnId)) header with
  | none =>
    refine iff_of_true h ?_
    cases hget : getTurn s.items turnId with
    | none =>
      rw [hget] at hsteps
      exact absurd hsteps (upsertStep_of_nil rfl header)
    | some turn => rfl
  | some steps => exact (h.items_iff _).trans (putTurn_withoutSteps_iff hunique turnId _ steps)

theorem frameUpsert_iff (h : Mirrors unsent s t) (hunique : UniqueTurns s.items) (turnId stepId : Text)
    (frame : TranscriptFrame C) :
    Mirrors unsent (applyFrameUpsert nt s turnId stepId frame).state t ↔ (getTurn s.items turnId).isSome := by
  rw [applyFrameUpsert]
  generalize hstep : (getStep ((getTurn s.items turnId).getD (skeletonTurn nt turnId)) stepId).getD
    (skeletonStep nt stepId turnId) = step
  cases hframes : upsertFrame step frame with
  | none =>
    refine iff_of_true h ?_
    cases hget : getTurn s.items turnId with
    | none =>
      rw [hget] at hstep
      subst hstep
      exact absurd hframes (upsertFrame_of_nil rfl frame)
    | some turn => rfl
  | some frames =>
    exact (h.items_iff _).trans (putTurn_withoutSteps_iff hunique turnId _
      (putStep ((getTurn s.items turnId).getD (skeletonTurn nt turnId)).steps stepId
        { step with frames := frames }))

omit [DecidableEq C] in
theorem frameAppend (h : Mirrors unsent s t) (hunique : UniqueTurns s.items)
    (turnId stepId frameId : Text) (offset : Nat) (chunk : Text) :
    Mirrors unsent (applyFrameAppend s turnId stepId frameId offset chunk).state t := by
  rw [applyFrameAppend]
  cases hframe : streamedFrame s.items turnId stepId frameId with
  | none => exact h
  | some found =>
    obtain ⟨turn, step, frame, current⟩ := found
    dsimp only
    cases appendAtOffset current offset chunk with
    | gap gap => exact h
    | unchanged => exact h
    | text merged => exact (h.items_iff _).mpr (replaceTurn_steps hunique (streamedFrame_spec hframe).1 _)

theorem itemUpsert (h : Mirrors unsent s t) (hitem : item.withoutSteps = item) (id : Text) (beforeTurn : Option ℚ) :
    Mirrors unsent (applyItemUpsert s item id beforeTurn).state
      (applyItemUpsert t item id beforeTurn).state := by
  rw [applyItemUpsert, applyItemUpsert, h.items, any_withoutSteps s.items fun a => a = id]
  split
  · apply h.withItems
    rw [List.map_map, List.map_map]
    apply map_congr_left
    intro entry _
    simp only [Function.comp_apply, itemIdOf_withoutSteps]
    split
    · exact hitem.symm
    · rfl
  · apply h.withItems
    conv_lhs => rw [← hitem]
    apply (map_spliceBefore TranscriptItem.withoutSteps _).symm
    intro entry _
    cases entry <;> rfl

section

omit [DecidableEq C]

theorem sentPart_insert (taskId : Text) (entry : Text × TranscriptTask C) :
    sentPart (insert taskId unsent) (sentPart unsent entry) = sentPart (insert taskId unsent) entry := by
  simp only [sentPart, Finset.mem_insert]
  by_cases hunsent : entry.1 ∈ unsent
  · simp only [hunsent, or_true, if_true]
  · simp only [hunsent, if_false]

section

variable (h : Mirrors unsent s t) (taskId : Text)
include h taskId

theorem insertUnsent : Mirrors (insert taskId unsent) s t := by
  have hsent (m : JsMap Text (TranscriptTask C)) : m.entries.map (sentPart (insert taskId unsent)) =
      (m.entries.map (sentPart unsent)).map (sentPart (insert taskId unsent)) := by
    rw [List.map_map]
    exact map_congr_left fun entry _ => (sentPart_insert taskId entry).symm
  refine { h with tasks := ?_ }
  rw [hsent, hsent, h.tasks]

theorem tasks_isSome : (t.tasks.get taskId).isSome = (s.tasks.get taskId).isSome := by
  have hkeys : t.tasks.keys = s.tasks.keys := by
    have hfst := congrArg (map Prod.fst) h.tasks
    rwa [List.map_map, List.map_map] at hfst
  have hget (m : JsMap Text (TranscriptTask C)) : (m.get taskId).isSome ↔ taskId ∈ m.keys := by
    rw [JsMap.mem_keys_iff, isSome_iff_exists]
  rw [Bool.eq_iff_iff, hget, hget, hkeys]

theorem taskAppend_iff (offset : Nat) (chunk : Text) :
    Mirrors (insert taskId unsent) (applyTaskAppend s taskId offset chunk).state t ↔
      (s.tasks.get taskId).isSome ∨ 0 < offset ∨ chunk = [] := by
  rw [applyTaskAppend]
  cases htask : s.tasks.get taskId with
  | some task =>
    refine iff_of_true ?_ (.inl rfl)
    simp only [map_some, getD_some]
    cases appendAtOffset task.outputTail offset chunk with
    | gap gap => exact h.insertUnsent taskId
    | unchanged => exact h.insertUnsent taskId
    | text merged =>
      refine { h.insertUnsent taskId with tasks := ?_ }
      rw [(h.insertUnsent taskId).tasks, JsMap.entries_set_of_mem ((JsMap.mem_keys_iff ..).mpr ⟨task, htask⟩),
        List.map_map]
      apply map_congr_left
      intro entry hentry
      rw [Function.comp_apply, JsMap.overwrite]
      split
      · rename_i hid
        have hvalue := (JsMap.mem_entries_iff _ _ _).mp hentry
        rw [hid, htask] at hvalue
        simp only [sentPart, hid, Finset.mem_insert_self, if_true, ← some.inj hvalue]
      · rfl
  | none =>
    simp only [map_none, getD_none, isSome_none, Bool.false_eq_true, false_or]
    rw [appendAtOffset]
    by_cases hoffset : 0 < offset
    · rw [length_nil, if_pos hoffset]
      exact iff_of_true (h.insertUnsent taskId) (.inl hoffset)
    · obtain rfl : offset = 0 := by omega
      by_cases hchunk : chunk = []
      · subst hchunk
        exact iff_of_true (h.insertUnsent taskId) (.inr rfl)
      · have hplaced : ([] : Text).take chunk.length ≠ chunk := by
          rw [take_nil]
          exact Ne.symm hchunk
        simp only [length_nil, hoffset, if_false, drop_nil, hplaced, Nat.sub_zero, take_zero,
          ne_eq, not_true_eq_false, length_eq_zero_iff, hchunk, or_false, iff_false]
        intro hafter
        have hsome := hafter.tasks_isSome taskId
        rw [JsMap.get_set_self, h.tasks_isSome taskId, htask] at hsome
        cases hsome

end

theorem keyed_tasks (h : Mirrors unsent s t) (hs : Keyed TranscriptTask.taskId s.tasks) :
    Keyed TranscriptTask.taskId t.tasks := by
  intro taskId task htask
  have hmem : sentPart unsent (taskId, task) ∈ t.tasks.entries.map (sentPart unsent) :=
    mem_map_of_mem ((JsMap.mem_entries_iff ..).mpr htask)
  rw [h.tasks] at hmem
  obtain ⟨entry, hentry, he⟩ := mem_map.mp hmem
  have hid := hs entry.1 entry.2 ((JsMap.mem_entries_iff ..).mp hentry)
  have hsent (e : Text × TranscriptTask C) : (sentPart unsent e).2.taskId = e.2.taskId := by
    rw [sentPart]
    split <;> rfl
  have hvalue := congrArg (fun e => e.2.taskId) he
  simp only [hsent] at hvalue
  rw [← hvalue, hid]
  exact congrArg Prod.fst he

end

theorem entries_taskUpsert (hs : Keyed TranscriptTask.taskId s.tasks) (task : TranscriptTask C) :
    ∃ tasks, (applyTaskUpsert s task).state = { s with tasks := tasks } ∧
      tasks.entries = (s.tasks.set task.taskId task).entries := by
  rw [applyTaskUpsert]
  split
  · rename_i hsame
    refine ⟨s.tasks, rfl, ?_⟩
    cases hcurrent : s.tasks.get task.taskId with
    | none =>
      rw [hcurrent] at hsame
      cases hsame
    | some current =>
      rw [hcurrent, any_some, decide_eq_true_eq] at hsame
      have hid := hs _ _ hcurrent
      have heq : current = task := by
        rw [← hsame, ← hid]
      rw [JsMap.entries_set_get (heq ▸ hcurrent)]
  · exact ⟨_, rfl, rfl⟩

omit [DecidableEq C] in
theorem tasks_set (h : Mirrors unsent s t) (taskId : Text) (task : TranscriptTask C) :
    (t.tasks.set taskId task).entries.map (sentPart (unsent.erase taskId)) =
      (s.tasks.set taskId task).entries.map (sentPart (unsent.erase taskId)) := by
  have hsent : ∀ entry : Text × TranscriptTask C, entry.1 ≠ taskId →
      sentPart (unsent.erase taskId) entry = sentPart unsent entry := by
    intro entry hid
    simp only [sentPart, Finset.mem_erase, ne_eq, hid, not_false_eq_true, true_and]
  have hkeys : t.tasks.keys = s.tasks.keys := by
    have hfst := congrArg (List.map Prod.fst) h.tasks
    rwa [List.map_map, List.map_map] at hfst
  by_cases hmem : taskId ∈ s.tasks.keys
  · have hput (m : JsMap Text (TranscriptTask C)) :
        (m.entries.map (JsMap.overwrite taskId task)).map (sentPart (unsent.erase taskId)) =
          (m.entries.map (sentPart unsent)).map fun entry =>
            if entry.1 = taskId then (taskId, task) else entry := by
      rw [List.map_map, List.map_map]
      apply map_congr_left
      intro entry _
      simp only [Function.comp_apply, JsMap.overwrite]
      by_cases hid : entry.1 = taskId
      · simp [hid, sentPart]
      · simp only [hid, if_false, hsent entry hid]
        simp only [sentPart, hid, if_false]
    rw [JsMap.entries_set_of_mem hmem, JsMap.entries_set_of_mem (hkeys ▸ hmem), hput, hput, h.tasks]
  · have hold (m : JsMap Text (TranscriptTask C)) (hm : taskId ∉ m.keys) :
        m.entries.map (sentPart (unsent.erase taskId)) = m.entries.map (sentPart unsent) := by
      apply map_congr_left
      intro entry hentry
      apply hsent
      rintro rfl
      exact hm (List.mem_map_of_mem hentry)
    rw [JsMap.entries_set_of_not_mem hmem, JsMap.entries_set_of_not_mem (hkeys ▸ hmem), map_append,
      map_append, hold _ hmem, hold _ (hkeys ▸ hmem), h.tasks]

theorem taskUpsert (h : Mirrors unsent s t) (hs : Keyed TranscriptTask.taskId s.tasks)
    (task : TranscriptTask C) : Mirrors (unsent.erase task.taskId) (applyTaskUpsert s task).state
      (applyTaskUpsert t task).state := by
  obtain ⟨tasks, hstate, hentries⟩ := entries_taskUpsert hs task
  obtain ⟨tasks', hstate', hentries'⟩ := entries_taskUpsert (h.keyed_tasks hs) task
  rw [hstate, hstate']
  refine { h with tasks := ?_ }
  rw [hentries, hentries']
  exact h.tasks_set task.taskId task

/-! What else stands beside the timeline, which the subscriber has in full. -/

section

variable (h : Mirrors unsent s t)
include h

theorem interactionUpsert (interaction : TranscriptInteraction C) :
    Mirrors unsent (applyInteractionUpsert s interaction).state
      (applyInteractionUpsert t interaction).state := by
  rw [applyInteractionUpsert, applyInteractionUpsert, JsMap.get_congr h.interactions]
  split
  · exact h
  · refine { h with interactions := JsMap.entries_set_congr h.interactions _ _, pending := ?_ }
    intro id
    rw [mem_keys_putPending, mem_keys_putPending, h.pending]

theorem attachmentUpsert (attachment : TranscriptAttachment C) :
    Mirrors unsent (applyAttachmentUpsert s attachment).state
      (applyAttachmentUpsert t attachment).state := by
  rw [applyAttachmentUpsert, applyAttachmentUpsert, JsMap.get_congr h.attachments]
  split
  · exact h
  · exact { h with attachments := JsMap.entries_set_congr h.attachments _ _ }

theorem todoUpsert (todo : TranscriptTodo C) :
    Mirrors unsent (applyTodoUpsert s todo).state (applyTodoUpsert t todo).state := by
  rw [applyTodoUpsert, applyTodoUpsert, JsMap.get_congr h.todos]
  split
  · exact h
  · exact { h with todos := JsMap.entries_set_congr h.todos _ _ }

theorem promptUpsert (prompt : TranscriptPrompt C) :
    Mirrors unsent (applyPromptUpsert s prompt).state (applyPromptUpsert t prompt).state := by
  rw [applyPromptUpsert, applyPromptUpsert, JsMap.get_congr h.prompts]
  split
  · exact h
  · exact { h with prompts := JsMap.entries_set_congr h.prompts _ _ }

theorem metaMerge (merge : TranscriptMetaMerge C) :
    Mirrors unsent (applyMetaMerge s merge).state (applyMetaMerge t merge).state := by
  rw [applyMetaMerge, applyMetaMerge, h.metadata]
  split
  · exact h
  · exact { h with metadata := rfl }

end

section

omit [DecidableEq C]

theorem filter_items (h : Mirrors unsent s t) (ids : List Text) :
    (t.items.filter fun entry => itemIdOf entry ∉ ids) =
      (s.items.filter fun entry => itemIdOf entry ∉ ids).map TranscriptItem.withoutSteps := by
  rw [h.items, List.filter_map]
  congr 2
  funext entry
  rw [Function.comp_apply, itemIdOf_withoutSteps]

theorem anchored_nil (h : Mirrors unsent s t) (ids : List Text) :
    anchoredToolCalls ((turnsOf t.items).filter fun turn => turn.turnId ∈ ids) = [] := by
  rw [anchoredToolCalls, flatMap_eq_nil_iff]
  intro turn hturn
  have hmem := (mem_filter.mp hturn).1
  rw [h.items, turnsOf_withoutSteps] at hmem
  obtain ⟨turn', _, rfl⟩ := mem_map.mp hmem
  rfl

theorem itemsRemove_iff (h : Mirrors unsent s t)
    (hs : Keyed TranscriptInteraction.interactionId s.interactions) (ids : List Text) :
    Mirrors unsent (applyItemsRemove s ids).state (applyItemsRemove t ids).state ↔
      Mirrorable s (.itemsRemove ids) := by
  have hlength : (t.items.filter fun entry => itemIdOf entry ∉ ids).length = t.items.length ↔
      (s.items.filter fun entry => itemIdOf entry ∉ ids).length = s.items.length := by
    rw [h.filter_items, h.items, length_map, length_map]
  have hnone : deadInteractions t ((turnsOf t.items).filter fun turn => turn.turnId ∈ ids) = [] := by
    rw [deadInteractions, h.anchored_nil ids, map_eq_nil_iff, filter_eq_nil_iff]
    intro interaction _ hany
    obtain ⟨call, _, hmem⟩ := (Option.any_eq_true ..).mp hany
    exact not_mem_nil (of_decide_eq_true hmem)
  rw [applyItemsRemove, applyItemsRemove]
  dsimp only
  rw [hnone]
  by_cases hsame : (s.items.filter fun entry => itemIdOf entry ∉ ids).length = s.items.length
  · rw [if_pos hsame, if_pos (hlength.mpr hsame)]
    refine iff_of_true h ?_
    have hkept := filter_eq_self.mp (filter_sublist.eq_of_length hsame)
    have hremoved : (turnsOf s.items).filter (fun turn => turn.turnId ∈ ids) = [] := by
      rw [filter_eq_nil_iff]
      intro turn hturn hmem
      exact of_decide_eq_true (hkept _ (mem_turnsOf.mp hturn)) (of_decide_eq_true hmem)
    rw [Mirrorable, hremoved]
    exact fun _ _ _ _ _ => not_mem_nil
  · rw [if_neg hsame, if_neg (mt hlength.mp hsame), Mirrorable]
    constructor
    · intro hafter id interaction hget call hcall hanchored
      have hdead := (Entities.mem_deadInteractions hs).mpr ⟨interaction, hget, call, hcall, hanchored⟩
      have hkept := JsMap.get_congr hafter.interactions id
      rw [foldl_nil, JsMap.get_congr h.interactions, hget, get_foldl_delete, if_pos hdead] at hkept
      cases hkept
    · intro hsafe
      have hdead : deadInteractions s ((turnsOf s.items).filter fun turn => turn.turnId ∈ ids) = [] := by
        rw [eq_nil_iff_forall_not_mem]
        intro id hid
        obtain ⟨interaction, hget, call, hcall, hanchored⟩ := (Entities.mem_deadInteractions hs).mp hid
        exact hsafe id interaction hget call hcall hanchored
      rw [hdead]
      exact { h with items := h.filter_items ids }

theorem reset_iff (snapshot : AgentTranscriptSnapshot C) :
    Mirrors ∅ (applyReset snapshot).state (applyReset snapshot).state ↔
      ∀ turn ∈ turnsOf snapshot.items, turn.steps = [] := by
  rw [← eq_map_withoutSteps_iff]
  constructor
  · exact fun h => h.items
  · exact fun h => ⟨h, rfl, rfl, rfl, rfl, rfl, rfl, fun _ => .rfl, rfl⟩

end

/-- After an operation the subscriber follows exactly if the operation acts through nothing that it
lacks. -/
theorem step_iff (h : Mirrors unsent s t) (hentities : Entities s) (hunique : UniqueTurns s.items)
    (op : TranscriptOperation C) :
    Mirrors (stillUnsent unsent op) (applyOperation nt s op).state
        (if admits .turn op then (applyOperation nt t op).state else t) ↔ Mirrorable s op := by
  cases op with
  | reset agentId snapshot => exact reset_iff snapshot
  | turnUpsert turn => exact iff_of_true (h.turnUpsert turn) trivial
  | stepUpsert turnId step => exact h.stepUpsert_iff nt hunique turnId step
  | frameUpsert turnId stepId frame => exact h.frameUpsert_iff nt hunique turnId stepId frame
  | append target offset chunk =>
    cases target with
    | frame turnId stepId frameId =>
      exact iff_of_true (h.frameAppend hunique turnId stepId frameId offset chunk) trivial
    | task taskId => exact h.taskAppend_iff taskId offset chunk
  | markerUpsert item beforeTurn => exact iff_of_true (h.itemUpsert rfl item.markerId beforeTurn) trivial
  | taskrefUpsert item beforeTurn => exact iff_of_true (h.itemUpsert rfl item.refId beforeTurn) trivial
  | taskUpsert task => exact iff_of_true (h.taskUpsert hentities.tasks task) trivial
  | interactionUpsert interaction => exact iff_of_true (h.interactionUpsert interaction) trivial
  | attachmentUpsert attachment => exact iff_of_true (h.attachmentUpsert attachment) trivial
  | todoUpsert todo => exact iff_of_true (h.todoUpsert todo) trivial
  | promptUpsert prompt => exact iff_of_true (h.promptUpsert prompt) trivial
  | metaMerge merge => exact iff_of_true (h.metaMerge merge) trivial
  | itemsRemove ids => exact h.itemsRemove_iff hentities.interactions ids

end Mirrors

def subscribed (grade : TranscriptGrade) (s : AgentState C) : AgentState C :=
  (applyReset (redactSnapshotForGrade grade (s.snapshot none))).state

theorem Mirrors.subscribed (h : Entities s) : Mirrors ∅ s (subscribed .turn s) where
  items := rfl
  tasks := congrArg (map _) h.tasks.entries_ofValues
  interactions := h.interactions.entries_ofValues
  attachments := h.attachments.entries_ofValues
  todos := h.todos.entries_ofValues
  prompts := h.prompts.entries_ofValues
  metadata := rfl
  pending id := by
    have hreset := (h.reset none).pending id
    rw [h.pending]
    refine hreset.trans ?_
    have hget : (applyReset (s.snapshot none)).state.interactions.get id = s.interactions.get id :=
      h.interactions.get_ofValues id
    rw [hget]
  hasMoreOlder := rfl

variable [DecidableEq C] {nt : NumberText}

theorem Mirrors.run_iff
    (h : Mirrors unsent s t) (hs : Reachable nt Allowed s)
    (hops : ∀ op ∈ ops, Genuine nt Allowed op) :
    (∀ n, Mirrors ((ops.take n).foldl stillUnsent unsent) (applyAll nt s (ops.take n))
      (applyAll nt t (filterOpsForGrade .turn (ops.take n)))) ↔
      AlongFold (fun s op => (applyOperation nt s op).state) Mirrorable s ops := by
  induction ops generalizing s t unsent with
  | nil =>
    refine iff_of_true ?_ trivial
    intro n
    rw [take_nil]
    exact h
  | cons op ops ih =>
    obtain ⟨hop, hops⟩ := forall_mem_cons.mp hops
    have hstep := h.step_iff nt hs.entities hs.uniqueTurns op
    have hnext (n : Nat) : applyAll nt t (filterOpsForGrade .turn ((op :: ops).take (n + 1))) =
        applyAll nt (if admits .turn op then (applyOperation nt t op).state else t)
          (filterOpsForGrade .turn (ops.take n)) := by
      rw [take_succ_cons, filterOpsForGrade_turn_cons]
      split <;> rfl
    constructor
    · intro hall
      have hfirst : Mirrors (stillUnsent unsent op) (applyOperation nt s op).state
          (if admits .turn op then (applyOperation nt t op).state else t) := by
        have hone := hall 1
        rwa [hnext 0] at hone
      refine ⟨hstep.mp hfirst, (ih hfirst (hs.step hop) hops).mp ?_⟩
      intro n
      have hlater := hall (n + 1)
      rwa [hnext n] at hlater
    · intro halong n
      cases n with
      | zero => exact h
      | succ n =>
        rw [hnext n]
        exact (ih (hstep.mpr halong.1) (hs.step hop) hops).mpr halong.2 n

/-- A subscriber at grade `turn` simulates the producer after every prefix of the operations exactly
if no operation acts through what the subscriber lacks. -/
theorem turnGrade_simulates (nt : NumberText) (s : AgentState C) (hs : Reachable nt (fun _ => True) s)
    (ops : List (TranscriptOperation C)) (hops : ∀ op ∈ ops, Genuine nt (fun _ => True) op) :
    (∀ n, Mirrors ((ops.take n).foldl stillUnsent ∅) (applyAll nt s (ops.take n))
      (applyAll nt (subscribed .turn s) (filterOpsForGrade .turn (ops.take n)))) ↔
      AlongFold (fun s op => (applyOperation nt s op).state) Mirrorable s ops :=
  (Mirrors.subscribed hs.entities).run_iff hs hops

def backgroundCommand : List (TranscriptOperation Nat) :=
  [.turnUpsert
      { turnId := turnId decimals 1, ordinal := 1, state := .running, origin := { kind := .user } },
    .stepUpsert (turnId decimals 1)
      { stepId := stepId decimals (turnId decimals 1) 1
        turnId := turnId decimals 1
        ordinal := 1
        state := .running },
    .taskUpsert { taskId := [98], kind := .shell, state := .running, detached := true, outputTail := [] },
    .append (.task [98]) 0 [111, 107],
    .itemsRemove [turnId decimals 1]]

theorem mirrors_backgroundCommand : Mirrors (backgroundCommand.foldl stillUnsent ∅)
    (applyAll decimals {} backgroundCommand)
    (applyAll decimals (subscribed .turn {}) (filterOpsForGrade .turn backgroundCommand)) := by
  refine (turnGrade_simulates decimals {} .empty backgroundCommand ?_).mpr ?_ backgroundCommand.length
  · intro op hop
    simp only [backgroundCommand, mem_cons, not_mem_nil, or_false] at hop
    rcases hop with rfl | rfl | rfl | rfl | rfl <;> exact trivial
  · exact ⟨trivial, rfl, trivial, .inl rfl, fun _ _ hget => (some_ne_none _ hget.symm).elim, trivial⟩

/-- A turn is removed while a question is pending that a tool call of it asks. -/
def removedQuestion : List (TranscriptOperation Nat) :=
  [.turnUpsert
      { turnId := turnId decimals 1, ordinal := 1, state := .running, origin := { kind := .user } },
    .stepUpsert (turnId decimals 1)
      { stepId := stepId decimals (turnId decimals 1) 1
        turnId := turnId decimals 1
        ordinal := 1
        state := .running },
    .frameUpsert (turnId decimals 1) (stepId decimals (turnId decimals 1) 1)
      (.tool { frameId := [102], toolCallId := [99], name := "ask", state := .running }),
    .interactionUpsert
      { interactionId := [105], interactionKind := .question, toolCallId := some [99], state := .pending },
    .itemsRemove [turnId decimals 1]]

/-- The producer drops the question with the turn, and the subscriber keeps it. -/
theorem removedQuestion_pending : (applyAll decimals {} removedQuestion).pendingInteractions.keys = [] ∧
      (applyAll decimals (subscribed .turn {})
        (filterOpsForGrade .turn removedQuestion)).pendingInteractions.keys = [[105]] := by
  decide +kernel

end Echadron.Transcript
