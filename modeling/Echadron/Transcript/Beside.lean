import Echadron.Transcript.Replay

namespace Echadron.Transcript
open Lib Option

variable {C : Type} [DecidableEq C] {nt : NumberText} {state : AgentState C}

/-! What stands beside the timeline, as registers. -/

def appendTask (taskId : Text) (offset : Nat) (chunk : Text) (task : Option (TranscriptTask C)) :
    Option (TranscriptTask C) :=
  match appendAtOffset ((task.map TranscriptTask.outputTail).getD []) offset chunk with
  | .text merged =>
    match task with
    | some task => some { task with outputTail := merged }
    | none =>
      some { taskId := taskId, kind := .other, state := .running, detached := false, outputTail := merged }
  | _ => task

def taskWrite (taskId : Text) : TranscriptOperation C → Write (TranscriptTask C)
  | .taskUpsert task => if task.taskId = taskId then .put task else .skip
  | .append (.task id) offset chunk => if id = taskId then .amend (appendTask taskId offset chunk) else .skip
  | _ => .skip

def attachmentWrite (id : Text) : TranscriptOperation C → Write (TranscriptAttachment C)
  | .attachmentUpsert attachment => if attachment.attachmentId = id then .put attachment else .skip
  | _ => .skip

def todoWrite (id : Text) : TranscriptOperation C → Write (TranscriptTodo C)
  | .todoUpsert todo => if todo.todoId = id then .put todo else .skip
  | _ => .skip

def promptWrite (id : Text) : TranscriptOperation C → Write (TranscriptPrompt C)
  | .promptUpsert prompt => if prompt.promptId = id then .put prompt else .skip
  | _ => .skip

omit [DecidableEq C] in
theorem get_upsert [DecidableEq V] (hkeyed : Keyed key m)
    (v : V) {same : V → V} (hsame : ∀ current, key current = key v → same current = current) (k : Text) :
    (if (m.get (key v)).any fun current => same current = v then m else m.set (key v) v).get k =
      (if key v = k then Write.put v else Write.skip).run id (m.get k) := by
  have hput (x : Option V) : (Write.put v).run id x = some v := by
    rw [Write.run]
    split
    · rename_i h
      rwa [Option.map_id] at h
    · rfl
  by_cases hk : key v = k
  · subst hk
    rw [if_pos rfl, hput]
    split
    · rename_i hany
      obtain ⟨current, hget, he⟩ := (Option.any_eq_true ..).mp hany
      rw [hsame current (hkeyed _ _ hget), decide_eq_true_eq] at he
      exact he ▸ hget
    · exact JsMap.get_set_self ..
  · rw [if_neg hk]
    split
    · rfl
    · exact JsMap.get_set_of_ne _ _ (Ne.symm hk)

theorem writes_attachment (nt : NumberText) (k : Text) :
    Writes nt id (fun state : AgentState C => state.attachments.get k) (attachmentWrite k) := by
  intro state hs op hop
  have hother : op.subject ≠ .attachment → (applyOperation nt state op).state.attachments.get k =
      state.attachments.get k :=
    fun h => congrArg (JsMap.get · k) ((unchanged_apply nt state hop.2).attachments h)
  cases op with
  | attachmentUpsert attachment =>
    simp only [applyOperation, state_attachmentUpsert]
    exact get_upsert hs.entities.attachments attachment (fun _ h => by rw [← h]) k
  | append target offset chunk =>
    apply hother
    cases target <;> exact Subject.noConfusion
  | _ => exact hother Subject.noConfusion

theorem writes_todo (nt : NumberText) (k : Text) :
    Writes nt id (fun state : AgentState C => state.todos.get k) (todoWrite k) := by
  intro state hs op hop
  have hother : op.subject ≠ .todo → (applyOperation nt state op).state.todos.get k = state.todos.get k :=
    fun h => congrArg (JsMap.get · k) ((unchanged_apply nt state hop.2).todos h)
  cases op with
  | todoUpsert todo =>
    simp only [applyOperation, state_todoUpsert]
    exact get_upsert hs.entities.todos todo (fun _ h => by rw [← h]) k
  | append target offset chunk =>
    apply hother
    cases target <;> exact Subject.noConfusion
  | _ => exact hother Subject.noConfusion

theorem writes_prompt (nt : NumberText) (k : Text) :
    Writes nt id (fun state : AgentState C => state.prompts.get k) (promptWrite k) := by
  intro state hs op hop
  have hother : op.subject ≠ .prompt → (applyOperation nt state op).state.prompts.get k = state.prompts.get k :=
    fun h => congrArg (JsMap.get · k) ((unchanged_apply nt state hop.2).prompts h)
  cases op with
  | promptUpsert prompt =>
    simp only [applyOperation, state_promptUpsert]
    exact get_upsert hs.entities.prompts prompt (fun _ h => by rw [← h]) k
  | append target offset chunk =>
    apply hother
    cases target <;> exact Subject.noConfusion
  | _ => exact hother Subject.noConfusion

theorem get_taskAppend (state : AgentState C) (taskId : Text) (offset : Nat) (chunk k : Text) :
    (applyTaskAppend state taskId offset chunk).state.tasks.get k =
      (if taskId = k then Write.amend (appendTask k offset chunk) else Write.skip).run id
        (state.tasks.get k) := by
  rw [applyTaskAppend]
  cases hplaced : appendAtOffset (((state.tasks.get taskId).map TranscriptTask.outputTail).getD [])
      offset chunk with
  | text merged =>
    rw [JsMap.get_set]
    by_cases hk : k = taskId
    · subst hk
      rw [if_pos rfl, if_pos rfl, Write.run, appendTask, hplaced]
      cases state.tasks.get k <;> rfl
    · rw [if_neg hk, if_neg (Ne.symm hk)]
      rfl
  | _ =>
    by_cases hk : taskId = k
    · subst hk
      rw [if_pos rfl, Write.run, appendTask, hplaced]
    · rw [if_neg hk]
      rfl

theorem writes_task (nt : NumberText) (k : Text) :
    Writes nt id (fun state : AgentState C => state.tasks.get k) (taskWrite k) := by
  intro state hs op hop
  have hother : op.subject ≠ .task → (applyOperation nt state op).state.tasks.get k = state.tasks.get k :=
    fun h => congrArg (JsMap.get · k) ((unchanged_apply nt state hop.2).tasks h)
  cases op with
  | taskUpsert task =>
    simp only [applyOperation, state_taskUpsert]
    exact get_upsert hs.entities.tasks task (fun _ h => by rw [← h]) k
  | append target offset chunk =>
    cases target with
    | frame turnId stepId frameId => exact hother Subject.noConfusion
    | task taskId => exact get_taskAppend state taskId offset chunk k
  | _ => exact hother Subject.noConfusion

section

variable {V : Type} [DecidableEq V]

def ModeMerge.write : ModeMerge V → Write V
  | keep => .skip
  | clear => .clear
  | put mode => .put mode

theorem run_modeMerge (m : ModeMerge V) (x : Option V) : m.write.run id x = m.over x := by
  cases m with
  | put mode => exact run_ofOption (some mode) x
  | _ => rfl

structure MetaField (cell : TranscriptMeta C → Option V) (write : TranscriptMetaMerge C → Write V) : Prop where
  merged : ∀ current merge, cell (TranscriptMeta.over current merge) = (write merge).run id (cell current)
  keep : ∀ merge, (write merge).Settled fun _ => False

theorem metaField_goal : MetaField (C := C) TranscriptMeta.goal fun merge => .ofOption merge.goal where
  merged current merge := (run_ofOption merge.goal current.goal).symm
  keep merge := settled_ofOption merge.goal

section

omit [DecidableEq C]

theorem metaField_activity : MetaField (C := C) TranscriptMeta.activity fun merge => .ofOption merge.activity where
  merged current merge := (run_ofOption merge.activity current.activity).symm
  keep merge := settled_ofOption merge.activity

theorem metaField_agent {f : AgentStatusMeta C → Option V} (hempty : f {} = none)
    (hover : ∀ current slice, f (AgentStatusMeta.over current slice) = (f slice).or (f current)) :
    MetaField (C := C) (fun metadata => metadata.agent.bind f) fun merge => .ofOption (merge.agent.bind f) where
  merged current merge := by
    rw [run_ofOption, TranscriptMeta.over]
    cases merge.agent with
    | none => rfl
    | some slice =>
      change f (AgentStatusMeta.over (current.agent.getD {}) slice) = _
      rw [hover, bind_some]
      congr 1
      cases current.agent with
      | none => exact hempty
      | some agent => rfl
  keep merge := settled_ofOption _

theorem metaField_hasAgent : MetaField (C := C) (fun metadata => metadata.agent.map fun _ => ())
      fun merge => .ofOption (merge.agent.map fun _ => ()) where
  merged current merge := by
    rw [run_ofOption, TranscriptMeta.over]
    cases merge.agent <;> rfl
  keep merge := settled_ofOption _

end

/-- Modes that are both absent are none. -/
def TidyModes (metadata : TranscriptMeta C) : Prop :=
  ∀ modes ∈ metadata.modes, modes.plan.isSome ∨ modes.swarm.isSome

omit [DecidableEq C] in
theorem tidyModes_over (current : TranscriptMeta C) (merge : TranscriptMetaMerge C) :
    TidyModes (current.over merge) := by
  intro modes hmodes
  exact of_decide_eq_true (filter_eq_some_iff.mp hmodes).2

theorem metaField_modes {merged : ModesMetaMerge C → ModeMerge C}
    (hf : ∀ modes, f modes = none ∨ modes.plan.isSome ∨ modes.swarm.isSome)
    (hover : ∀ current merge, f (ModesMeta.over current merge) = (merged merge).over (current.bind f)) :
    MetaField (C := C) (fun metadata => metadata.modes.bind f)
      fun merge => (merge.modes.map fun modes => (merged modes).write).getD .skip where
  merged current merge := by
    have hfilter (modes : Option (ModesMeta C)) :
        (modes.filter fun modes => modes.plan.isSome ∨ modes.swarm.isSome).bind f = modes.bind f := by
      cases modes with
      | none => rfl
      | some modes =>
        by_cases hsome : modes.plan.isSome ∨ modes.swarm.isSome
        · simp [Option.filter, hsome]
        · have hnone := (hf modes).resolve_right hsome
          simp [hnone]
    rw [TranscriptMeta.over]
    rw [hfilter]
    cases merge.modes with
    | none => rfl
    | some modes =>
      rw [map_some, map_some, some_or, bind_some, getD_some, run_modeMerge]
      exact hover current.modes modes
  keep merge := by
    cases merge.modes with
    | none => exact fun _ _ => rfl
    | some modes =>
      cases hmode : merged modes with
      | keep =>
        rw [map_some, hmode]
        exact fun _ _ => rfl
      | clear =>
        rw [map_some, hmode]
        trivial
      | put mode =>
        rw [map_some, hmode]
        trivial

end

def metaWrite {V : Type} (write : TranscriptMetaMerge C → Write V) : TranscriptOperation C → Write V
  | .metaMerge merge => write merge
  | _ => .skip

theorem MetaField.writes [DecidableEq V] {cell : TranscriptMeta C → Option V}
    (h : MetaField cell write) (nt : NumberText) :
    Writes nt id (fun state : AgentState C => cell state.metadata) (metaWrite write) := by
  intro state hs op hop
  have hother : op.subject ≠ .metadata → cell (applyOperation nt state op).state.metadata = cell state.metadata :=
    fun h => congrArg cell ((unchanged_apply nt state hop.2).metadata h)
  cases op with
  | metaMerge merge =>
    simp only [applyOperation, state_metaMerge]
    exact h.merged state.metadata merge
  | append target offset chunk =>
    apply hother
    cases target <;> exact Subject.noConfusion
  | _ => exact hother Subject.noConfusion

theorem Reachable.tidyModes (h : Reachable nt Allowed state) : TidyModes state.metadata := by
  apply h.invariant (I := fun state => TidyModes state.metadata)
  · intro modes he
    cases he
  · intro state op htidy _ hpart
    by_cases hsubject : op.subject = .metadata
    · cases op with
      | metaMerge merge =>
        simp only [applyOperation, state_metaMerge]
        exact tidyModes_over state.metadata merge
      | append target offset chunk => cases target <;> cases hsubject
      | _ => cases hsubject
    · rw [(unchanged_apply nt state hpart).metadata hsubject]
      exact htidy
  · exact fun state tailTurns htidy => htidy

theorem metadata_of_fields {a b : TranscriptMeta C} (ha : TidyModes a) (hb : TidyModes b)
    (h : ∀ (V : Type) (_ : DecidableEq V) (cell : TranscriptMeta C → Option V)
      (write : TranscriptMetaMerge C → Write V), MetaField cell write → cell a = cell b) : a = b := by
  have hagent {V : Type} [hV : DecidableEq V] (f : AgentStatusMeta C → Option V) (hempty : f {} = none)
      (hover : ∀ current slice, f (AgentStatusMeta.over current slice) = (f slice).or (f current)) :
      a.agent.bind f = b.agent.bind f :=
    h V hV _ _ (metaField_agent hempty hover)
  have hmodes (f : ModesMeta C → Option C) (merged : ModesMetaMerge C → ModeMerge C)
      (hf : ∀ modes, f modes = none ∨ modes.plan.isSome ∨ modes.swarm.isSome)
      (hover : ∀ current merge, f (ModesMeta.over current merge) = (merged merge).over (current.bind f)) :
      a.modes.bind f = b.modes.bind f :=
    h C inferInstance _ _ (metaField_modes hf hover)
  have hplan := hmodes ModesMeta.plan ModesMetaMerge.plan
    (fun modes => by cases modes.plan <;> simp) fun _ _ => rfl
  have hswarm := hmodes ModesMeta.swarm ModesMetaMerge.swarm
    (fun modes => by cases modes.swarm <;> simp) fun _ _ => rfl
  have hhas := h Unit inferInstance _ _ metaField_hasAgent
  have hmodel := hagent AgentStatusMeta.model rfl fun _ _ => rfl
  have hthinking := hagent AgentStatusMeta.thinkingEffort rfl fun _ _ => rfl
  have husage := hagent AgentStatusMeta.usage rfl fun _ _ => rfl
  have htokens := hagent AgentStatusMeta.contextTokens rfl fun _ _ => rfl
  have hmax := hagent AgentStatusMeta.maxContextTokens rfl fun _ _ => rfl
  have hcontext := hagent AgentStatusMeta.contextUsage rfl fun _ _ => rfl
  have hpermission := hagent AgentStatusMeta.permission rfl fun _ _ => rfl
  have hphase := hagent AgentStatusMeta.phase rfl fun _ _ => rfl
  apply metadata_ext (h C inferInstance _ _ metaField_goal)
  · cases hma : a.modes with
    | none =>
      cases hmb : b.modes with
      | none => rfl
      | some y =>
        rw [hma, hmb, bind_some] at hplan hswarm
        have hsome := hb y hmb
        rw [← hplan, ← hswarm] at hsome
        simp at hsome
    | some x =>
      cases hmb : b.modes with
      | none =>
        rw [hma, hmb, bind_some] at hplan hswarm
        have hsome := ha x hma
        rw [hplan, hswarm] at hsome
        simp at hsome
      | some y =>
        cases x
        simp_all
  · exact h _ inferInstance _ _ metaField_activity
  · cases hma : a.agent with
    | none =>
      cases hmb : b.agent with
      | none => rfl
      | some y =>
        rw [hma, hmb] at hhas
        cases hhas
    | some x =>
      cases hmb : b.agent with
      | none =>
        rw [hma, hmb] at hhas
        cases hhas
      | some y =>
        cases x
        simp_all

end Echadron.Transcript
