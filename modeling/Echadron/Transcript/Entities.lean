import Echadron.Transcript.Parts

namespace Echadron.Transcript
open Lib List

section

variable {V : Type} {id : V → Text} {m : JsMap Text V}

/-- Each value stands under its own id. -/
def Keyed (id : V → Text) (m : JsMap Text V) : Prop := ∀ k v, m.get k = some v → id v = k

theorem Keyed.empty : Keyed id (.empty : JsMap Text V) := by
  intro k v h
  cases h

theorem Keyed.set (h : Keyed id m) (v : V) : Keyed id (m.set (id v) v) := by
  intro k w hk
  rw [JsMap.get_set] at hk
  split at hk
  · rename_i he
    cases hk
    exact he.symm
  · exact h k w hk

theorem get_foldl_delete (ks : List Text) (m : JsMap Text V) (k : Text) :
    (ks.foldl JsMap.delete m).get k = if k ∈ ks then none else m.get k := by
  induction ks generalizing m with
  | nil => rfl
  | cons a ks ih =>
    rw [foldl_cons, ih, JsMap.get_delete]
    by_cases ha : k = a
    · rw [if_pos ha, if_pos (mem_cons.mpr (.inl ha)), ite_self]
    · rw [if_neg ha]
      simp only [mem_cons, ha, false_or]

theorem mem_keys_foldl_delete (ks : List Text) (m : JsMap Text V) (k : Text) :
    k ∈ (ks.foldl JsMap.delete m).keys ↔ k ∈ m.keys ∧ k ∉ ks := by
  rw [JsMap.mem_keys_iff, JsMap.mem_keys_iff, get_foldl_delete]
  by_cases hk : k ∈ ks
  · simp [hk]
  · simp [hk]

theorem Keyed.deleteAll (h : Keyed id m) (ks : List Text) : Keyed id (ks.foldl JsMap.delete m) := by
  intro k v hk
  rw [get_foldl_delete] at hk
  split at hk
  · cases hk
  · exact h k v hk

theorem Keyed.nodup (h : Keyed id m) : ((m.entries.map Prod.snd).map id).Nodup := by
  have hkeys : (m.entries.map Prod.snd).map id = m.keys := by
    rw [map_map]
    apply map_congr_left
    intro e he
    exact h e.1 e.2 ((JsMap.mem_entries_iff ..).mp he)
  rw [hkeys]
  exact m.keys_nodup

theorem Keyed.mem_values (h : Keyed id m) (v : V) : v ∈ m.entries.map Prod.snd ↔ m.get (id v) = some v := by
  rw [mem_map]
  constructor
  · rintro ⟨⟨k, w⟩, hw, rfl⟩
    have hget := (JsMap.mem_entries_iff ..).mp hw
    rw [h k w hget]
    exact hget
  · intro hget
    exact ⟨(id v, v), (JsMap.mem_entries_iff ..).mpr hget, rfl⟩

theorem Keyed.ofValues (values : List V) : Keyed id (ofValues id values) :=
  foldlRecOn values _ .empty fun _ h v _ => Keyed.set h v

theorem get_foldl_set (values : List V) (hnodup : (values.map id).Nodup) (m : JsMap Text V) (k : Text)
    (v : V) : (values.foldl (fun m w => m.set (id w) w) m).get k = some v ↔
      v ∈ values ∧ id v = k ∨ k ∉ values.map id ∧ m.get k = some v := by
  induction values generalizing m with
  | nil => simp
  | cons w values ih =>
    rw [map_cons, nodup_cons] at hnodup
    rw [foldl_cons, ih hnodup.2, JsMap.get_set]
    by_cases hw : k = id w
    · subst hw
      have hnot (x : V) : ¬ (x ∈ values ∧ id x = id w) := fun h => hnodup.1 (h.2 ▸ mem_map_of_mem h.1)
      rw [if_pos rfl]
      constructor
      · rintro (h | ⟨_, hv⟩)
        · exact absurd h (hnot v)
        · cases hv
          exact .inl ⟨mem_cons_self, rfl⟩
      · rintro (⟨hv, hid⟩ | ⟨hk, _⟩)
        · rcases mem_cons.mp hv with rfl | hv
          · exact .inr ⟨hnodup.1, rfl⟩
          · exact absurd ⟨hv, hid⟩ (hnot v)
        · exact absurd mem_cons_self hk
    · rw [if_neg hw]
      have hv (x : V) : x ∈ w :: values ∧ id x = k ↔ x ∈ values ∧ id x = k := by
        constructor
        · rintro ⟨hx, rfl⟩
          rcases mem_cons.mp hx with rfl | hx
          · exact absurd rfl hw
          · exact ⟨hx, rfl⟩
        · exact fun h => ⟨mem_cons_of_mem _ h.1, h.2⟩
      rw [hv, map_cons, mem_cons, not_or]
      simp only [hw, not_false_eq_true, true_and]

theorem Keyed.get_ofValues (h : Keyed id m) (k : Text) :
    (Transcript.ofValues id (m.entries.map Prod.snd)).get k = m.get k := by
  apply Option.ext
  intro v
  rw [Transcript.ofValues, get_foldl_set _ h.nodup, h.mem_values]
  constructor
  · rintro (⟨hv, rfl⟩ | ⟨_, hv⟩)
    · exact hv
    · cases hv
  · intro hv
    obtain rfl := h k v hv
    exact .inl ⟨hv, rfl⟩

theorem entries_foldl_set {values : List V} (hnodup : (values.map id).Nodup) (hnew : ∀ v ∈ values, id v ∉ m.keys) :
    (values.foldl (fun m w => m.set (id w) w) m).entries = m.entries ++ values.map fun w => (id w, w) := by
  induction values generalizing m with
  | nil => exact (append_nil _).symm
  | cons w values ih =>
    rw [map_cons, nodup_cons] at hnodup
    obtain ⟨hw, hvalues⟩ := forall_mem_cons.mp hnew
    have hrest : ∀ v ∈ values, id v ∉ (m.set (id w) w).keys := by
      intro v hv hmem
      rcases (JsMap.mem_keys_set ..).mp hmem with he | hmem
      · exact hnodup.1 (mem_map.mpr ⟨v, hv, he⟩)
      · exact hvalues v hv hmem
    rw [foldl_cons, ih hnodup.2 hrest, JsMap.entries_set_of_not_mem hw, append_assoc]
    rfl

theorem Keyed.entries_ofValues (h : Keyed id m) :
    (Transcript.ofValues id (m.entries.map Prod.snd)).entries = m.entries := by
  rw [Transcript.ofValues, entries_foldl_set h.nodup fun _ _ => not_mem_nil, map_map,
    JsMap.entries_empty, nil_append]
  conv_rhs => rw [← map_id m.entries]
  apply map_congr_left
  intro e he
  exact Prod.ext (h e.1 e.2 ((JsMap.mem_entries_iff ..).mp he)) rfl

end

variable {C : Type} {state : AgentState C}

theorem mem_keys_putPending (pending : JsSet Text) (interaction : TranscriptInteraction C) (id : Text) :
    id ∈ (if interaction.state = .pending then
        if pending.has interaction.interactionId then pending
        else pending.set interaction.interactionId ()
      else pending.delete interaction.interactionId).keys ↔
      if id = interaction.interactionId then interaction.state = .pending else id ∈ pending.keys := by
  by_cases hid : id = interaction.interactionId
  · subst hid
    rw [if_pos rfl]
    by_cases hpending : interaction.state = .pending
    · rw [if_pos hpending]
      simp only [hpending, iff_true]
      split
      · rename_i hhas
        exact (JsMap.has_iff ..).mp hhas
      · exact (JsMap.mem_keys_set ..).mpr (.inl rfl)
    · rw [if_neg hpending, JsMap.mem_keys_delete]
      simp [hpending]
  · split
    · split
      · rfl
      · rw [JsMap.mem_keys_set]
        simp only [hid, false_or]
    · rw [JsMap.mem_keys_delete]
      simp only [hid, ne_eq, not_false_eq_true, true_and]

/-- The values stand under their ids, and those interactions are pending that say so. -/
structure Entities (state : AgentState C) : Prop where
  tasks : Keyed TranscriptTask.taskId state.tasks
  interactions : Keyed TranscriptInteraction.interactionId state.interactions
  attachments : Keyed TranscriptAttachment.attachmentId state.attachments
  todos : Keyed TranscriptTodo.todoId state.todos
  prompts : Keyed TranscriptPrompt.promptId state.prompts
  pending : ∀ id, id ∈ state.pendingInteractions.keys ↔
    ∃ interaction, state.interactions.get id = some interaction ∧ interaction.state = .pending

namespace Entities

theorem empty : Entities ({} : AgentState C) := ⟨.empty, .empty, .empty, .empty, .empty, by simp⟩

section

variable (h : Entities state)
include h

theorem withItems (items : List (TranscriptItem C)) : Entities { state with items := items } := { h with }

theorem putInteraction (interaction : TranscriptInteraction C) :
    Entities { state with
      interactions := state.interactions.set interaction.interactionId interaction
      pendingInteractions :=
        if interaction.state = .pending then
          if state.pendingInteractions.has interaction.interactionId then state.pendingInteractions
          else state.pendingInteractions.set interaction.interactionId ()
        else state.pendingInteractions.delete interaction.interactionId } where
  tasks := h.tasks
  interactions := h.interactions.set interaction
  attachments := h.attachments
  todos := h.todos
  prompts := h.prompts
  pending id := by
    rw [mem_keys_putPending, JsMap.get_set]
    by_cases hid : id = interaction.interactionId
    · rw [if_pos hid, if_pos hid]
      constructor
      · exact fun hpending => ⟨_, rfl, hpending⟩
      · rintro ⟨i, hi, hpending⟩
        cases hi
        exact hpending
    · rw [if_neg hid, if_neg hid]
      exact h.pending id

theorem removeInteractions (items : List (TranscriptItem C)) (dead : List Text) :
    Entities { state with
      items := items
      interactions := dead.foldl JsMap.delete state.interactions
      pendingInteractions := dead.foldl JsMap.delete state.pendingInteractions } where
  tasks := h.tasks
  interactions := h.interactions.deleteAll dead
  attachments := h.attachments
  todos := h.todos
  prompts := h.prompts
  pending id := by
    rw [mem_keys_foldl_delete, get_foldl_delete, h.pending]
    by_cases hid : id ∈ dead
    · simp [hid]
    · simp [hid]

theorem reset (tailTurns : Option Nat) : Entities (applyReset (state.snapshot tailTurns)).state where
  tasks := .ofValues _
  interactions := .ofValues _
  attachments := .ofValues _
  todos := .ofValues _
  prompts := .ofValues _
  pending id := by
    show id ∈ (JsMap.ofKeys _).keys ↔ ∃ interaction,
      (ofValues TranscriptInteraction.interactionId (state.interactions.entries.map Prod.snd)).get id =
        some interaction ∧ interaction.state = .pending
    rw [JsMap.mem_keys_ofKeys, mem_map]
    constructor
    · rintro ⟨interaction, hmem, rfl⟩
      obtain ⟨hvalue, hpending⟩ := mem_filter.mp hmem
      refine ⟨interaction, ?_, of_decide_eq_true hpending⟩
      rw [h.interactions.get_ofValues]
      exact (h.interactions.mem_values interaction).mp hvalue
    · rintro ⟨interaction, hget, hpending⟩
      rw [h.interactions.get_ofValues] at hget
      obtain rfl := h.interactions id interaction hget
      exact ⟨interaction, mem_filter.mpr
        ⟨(h.interactions.mem_values interaction).mpr hget, decide_eq_true hpending⟩, rfl⟩

theorem taskAppend (taskId : Text) (offset : Nat) (chunk : Text) :
    Entities (applyTaskAppend state taskId offset chunk).state := by
  rw [applyTaskAppend]
  split
  · exact h
  · exact h
  · rename_i merged hmerged
    refine { h with tasks := ?_ }
    cases htask : state.tasks.get taskId with
    | none =>
      exact h.tasks.set
        { taskId := taskId, kind := .other, state := .running, detached := false, outputTail := merged }
    | some task =>
      obtain rfl := h.tasks taskId task htask
      exact h.tasks.set { task with outputTail := merged }

end

variable [DecidableEq C]

theorem beside (h : Entities state) (nt : NumberText)
    (hop : op.part = .beside) : Entities (applyOperation nt state op).state := by
  cases op with
  | append target offset text =>
    cases target with
    | frame turnId stepId frameId => cases hop
    | task taskId => exact h.taskAppend taskId offset text
  | taskUpsert task =>
    show Entities (applyTaskUpsert state task).state
    rw [applyTaskUpsert]
    split
    · exact h
    · exact { h with tasks := h.tasks.set task }
  | interactionUpsert interaction =>
    show Entities (applyInteractionUpsert state interaction).state
    rw [applyInteractionUpsert]
    split
    · exact h
    · exact h.putInteraction interaction
  | attachmentUpsert attachment =>
    show Entities (applyAttachmentUpsert state attachment).state
    rw [applyAttachmentUpsert]
    split
    · exact h
    · exact { h with attachments := h.attachments.set attachment }
  | todoUpsert todo =>
    show Entities (applyTodoUpsert state todo).state
    rw [applyTodoUpsert]
    split
    · exact h
    · exact { h with todos := h.todos.set todo }
  | promptUpsert prompt =>
    show Entities (applyPromptUpsert state prompt).state
    rw [applyPromptUpsert]
    split
    · exact h
    · exact { h with prompts := h.prompts.set prompt }
  | metaMerge merge =>
    show Entities (applyMetaMerge state merge).state
    rw [applyMetaMerge]
    split
    · exact h
    · exact { h with }
  | _ => cases hop

section

omit [DecidableEq C]

theorem mem_deadInteractions (h : Keyed TranscriptInteraction.interactionId state.interactions)
    {id : Text} : id ∈ deadInteractions state turns ↔
      ∃ interaction, state.interactions.get id = some interaction ∧
        ∃ call ∈ interaction.toolCallId, call ∈ anchoredToolCalls turns := by
  rw [deadInteractions, mem_map]
  constructor
  · rintro ⟨interaction, hmem, rfl⟩
    obtain ⟨hvalue, hany⟩ := mem_filter.mp hmem
    obtain ⟨call, hcall, hanchored⟩ := (Option.any_eq_true ..).mp hany
    exact ⟨interaction, (h.mem_values interaction).mp hvalue, call, hcall, of_decide_eq_true hanchored⟩
  · rintro ⟨interaction, hget, call, hcall, hanchored⟩
    obtain rfl := h id interaction hget
    have hany : (interaction.toolCallId.any fun call => call ∈ anchoredToolCalls turns) = true :=
      (Option.any_eq_true ..).mpr ⟨call, hcall, decide_eq_true hanchored⟩
    exact ⟨interaction, mem_filter.mpr ⟨(h.mem_values interaction).mpr hget, hany⟩, rfl⟩

theorem itemsRemove (h : Entities state) (ids : List Text) : Entities (applyItemsRemove state ids).state := by
  rw [applyItemsRemove]
  split
  · exact h
  · exact h.removeInteractions _ _

end

theorem apply (h : Entities state) (nt : NumberText)
    (hop : op.part ≠ .whole) : Entities (applyOperation nt state op).state := by
  cases hpart : op.part with
  | timeline =>
    rw [frame_of_timeline nt state hpart]
    exact h.withItems _
  | beside => exact h.beside nt hpart
  | removal =>
    cases op with
    | itemsRemove ids => exact h.itemsRemove ids
    | append target offset text => cases target <;> cases hpart
    | _ => cases hpart
  | whole => exact absurd hpart hop

end Entities

end Echadron.Transcript
