import Echadron.Wire.WireService

namespace Echadron.Wire
open Lib List Option

/-! The journal of a service over whole runs. -/

inductive WireEvent (K : Type) where
  /-- A call of `dispatch`, with what the subscribers to the events it publishes dispatch. -/
  | dispatch (ops : List (Op K)) (reactions : List (List (List (Op K))))
  /-- The next record of the chain is offloaded and appended. -/
  | appended
  /-- The end of the chain is seen. -/
  | chainEnded

namespace WireService
variable [DecidableEq M] (registry : Registry K M S)

def step (wire : WireService K M S) : WireEvent K → Option (WireService K M S)
  | .dispatch ops reactions => some ({ wire with reactions }.dispatch registry ops).1
  | .appended =>
    match wire.persistQueue with
    | some (record :: rest) =>
      some { wire with
        journal := wire.journal ++ [record]
        persistQueue := some rest }
    | _ => none
  | .chainEnded =>
    match wire.persistQueue with
    | some [] => some { wire with persistQueue := none }
    | _ => none

/-- The journal once its chain of appends is through. -/
def written (wire : WireService K M S) : List WireRecord := wire.journal ++ wire.persistQueue.getD []

end WireService

/-- The reducers of an op run one after the other, none where one throws. -/
def reduceModels [DecidableEq M] (payload : Json) : List (M × Reducer K S) → (M → S) → Option (M → S)
  | [], models => some models
  | entry :: entries, models =>
    (entry.2 (models entry.1) payload).result.bind fun state =>
      reduceModels payload entries (Function.update models entry.1 state)

section
variable [DecidableEq M] {registry : Registry K M S}

/-- Nothing that the journal and the models hold has changed. -/
structure Kept (wire wire' : WireService K M S) : Prop where
  applied : wire'.applied = wire.applied
  written : wire'.written = wire.written
  models : wire'.models = wire.models

/-- An op was applied to its model, and journaled where it is persisted. -/
structure Ran (registry : Registry K M S) (op : Op K) (complete : Bool)
    (wire wire' : WireService K M S) : Prop where
  applied : wire'.applied = wire.applied ++ [⟨op, complete⟩]
  written : wire'.written = wire.written ++
    if registry.persist op.type then [registry.journaled op] else []
  models : complete → reduceModels op.payload (registry.reducers op.type) wire.models = some wire'.models
  others : ∀ m, (∀ entry ∈ registry.reducers op.type, entry.1 ≠ m) → wire'.models m = wire.models m

namespace WireService
variable (wire : WireService K M S)

theorem reduce_kept (entry : M × Reducer K S) (payload : Json) :
    (wire.reduce entry payload).1.applied = wire.applied ∧
      (wire.reduce entry payload).1.written = wire.written := by
  unfold reduce
  dsimp only
  cases (entry.2 (wire.models entry.1) payload).result with
  | none => exact ⟨rfl, rfl⟩
  | some state => exact ⟨rfl, rfl⟩

theorem reduce_models (entry : M × Reducer K S) (payload : Json) :
    (∃ state, (entry.2 (wire.models entry.1) payload).result = some state ∧ (wire.reduce entry payload).2 = true ∧
      (wire.reduce entry payload).1.models = Function.update wire.models entry.1 state) ∨
    (wire.reduce entry payload).2 = false ∧ (wire.reduce entry payload).1.models = wire.models := by
  unfold reduce
  dsimp only
  cases (entry.2 (wire.models entry.1) payload).result with
  | none => exact .inr ⟨rfl, rfl⟩
  | some state => exact .inl ⟨state, rfl, rfl, rfl⟩

theorem reduceAll_kept (payload : Json) (entries : List (M × Reducer K S)) :
    (wire.reduceAll payload entries).1.applied = wire.applied ∧
      (wire.reduceAll payload entries).1.written = wire.written := by
  induction entries generalizing wire with
  | nil => exact ⟨rfl, rfl⟩
  | cons entry entries ih =>
    have hkept := wire.reduce_kept entry payload
    unfold reduceAll
    cases hreduce : wire.reduce entry payload with
    | mk wire' ok =>
      rw [hreduce] at hkept
      cases ok with
      | false => exact hkept
      | true => exact ⟨(ih wire').1.trans hkept.1, (ih wire').2.trans hkept.2⟩

theorem reduceAll_models (payload : Json) (entries : List (M × Reducer K S)) :
    ((wire.reduceAll payload entries).2 = true →
      reduceModels payload entries wire.models = some (wire.reduceAll payload entries).1.models) ∧
    ∀ m, (∀ entry ∈ entries, entry.1 ≠ m) → (wire.reduceAll payload entries).1.models m = wire.models m := by
  induction entries generalizing wire with
  | nil => exact ⟨fun _ => rfl, fun _ _ => rfl⟩
  | cons entry entries ih =>
    have hmodels := wire.reduce_models entry payload
    unfold reduceAll reduceModels
    cases hreduce : wire.reduce entry payload with
    | mk wire' ok =>
      rw [hreduce] at hmodels
      obtain ⟨state, hresult, hok, hupdate⟩ | ⟨hok, hsame⟩ := hmodels
      · subst hok
        rw [hresult, bind_some, ← hupdate]
        refine ⟨(ih wire').1, ?_⟩
        intro m hm
        rw [forall_mem_cons] at hm
        rw [(ih wire').2 m hm.2, hupdate, Function.update_of_ne (Ne.symm hm.1)]
      · subst hok
        refine ⟨fun h => absurd h Bool.false_ne_true, ?_⟩
        intro m _
        exact congrFun hsame m

section

omit [DecidableEq M]

theorem appendToJournal_written (op : Op K) :
    (wire.appendToJournal registry op).written = wire.written ++ [registry.journaled op] := by
  unfold appendToJournal written
  cases registry.dehydrate (registry.model op.type) with
  | none =>
    cases wire.persistQueue with
    | none => simp
    | some chain => simp
  | some dehydrate => simp

theorem appendToJournal_kept (registry : Registry K M S) (op : Op K) :
    (wire.appendToJournal registry op).applied = wire.applied ∧
      (wire.appendToJournal registry op).models = wire.models := by
  unfold appendToJournal
  cases registry.dehydrate (registry.model op.type) with
  | none =>
    cases wire.persistQueue with
    | none => exact ⟨rfl, rfl⟩
    | some chain => exact ⟨rfl, rfl⟩
  | some dehydrate => exact ⟨rfl, rfl⟩

end

/-- What `executeOp` does after its own reducer. -/
def afterApply (registry : Registry K M S) (op : Op K) (wire : WireService K M S) : WireService K M S × Bool :=
  let wire := if registry.persist op.type then wire.appendToJournal registry op else wire
  let others := (registry.crossReducers op.type).filter fun entry => entry.1 ≠ registry.model op.type
  match registry.toEvent op.type op.payload (wire.models (registry.model op.type)) with
  | none => (wire.note op others.isEmpty, false)
  | some published =>
    let crossed := reduceAll op.payload others (if published then wire.publish else wire)
    (crossed.1.note op crossed.2, crossed.2)

theorem executeOp_eq (op : Op K) : wire.executeOp registry op =
      match wire.reduce (registry.model op.type, registry.apply op.type) op.payload with
      | (wire, false) => (wire, false)
      | (wire, true) => wire.afterApply registry op := rfl

theorem afterApply_spec (registry : Registry K M S) (op : Op K) : ∃ complete : Bool,
    (wire.afterApply registry op).1.applied = wire.applied ++ [⟨op, complete⟩] ∧
    (wire.afterApply registry op).1.written = wire.written ++
      (if registry.persist op.type then [registry.journaled op] else []) ∧
    (complete → reduceModels op.payload
      ((registry.crossReducers op.type).filter fun entry => entry.1 ≠ registry.model op.type)
      wire.models = some (wire.afterApply registry op).1.models) ∧
    ∀ m, (∀ entry ∈ (registry.crossReducers op.type).filter
        fun entry => entry.1 ≠ registry.model op.type, entry.1 ≠ m) →
      (wire.afterApply registry op).1.models m = wire.models m := by
  obtain ⟨next, hnext, happlied, hwritten, hmodels⟩ : ∃ next : WireService K M S,
      (if registry.persist op.type then wire.appendToJournal registry op else wire) = next ∧
      next.applied = wire.applied ∧
      next.written = wire.written ++ (if registry.persist op.type then [registry.journaled op] else []) ∧
      next.models = wire.models := by
    refine ⟨_, rfl, ?_⟩
    split
    · obtain ⟨happlied, hmodels⟩ := wire.appendToJournal_kept registry op
      exact ⟨happlied, wire.appendToJournal_written op, hmodels⟩
    · exact ⟨rfl, (append_nil _).symm, rfl⟩
  unfold afterApply
  rw [hnext]
  dsimp only
  generalize (registry.crossReducers op.type).filter
    (fun entry => decide (entry.1 ≠ registry.model op.type)) = others
  cases registry.toEvent op.type op.payload (next.models (registry.model op.type)) with
  | none =>
    refine ⟨others.isEmpty, congrArg (· ++ _) happlied, hwritten, ?_, ?_⟩
    · intro hempty
      rw [isEmpty_iff.mp hempty]
      exact congrArg some hmodels.symm
    · intro m _
      exact congrFun hmodels m
  | some published =>
    have hpublished : ∃ published' : WireService K M S, (if published then next.publish else next) = published' ∧
        published'.applied = next.applied ∧ published'.written = next.written ∧
        published'.models = next.models := by
      refine ⟨_, rfl, ?_⟩
      split <;> exact ⟨rfl, rfl, rfl⟩
    obtain ⟨published', hpub, happlied', hwritten', hmodels'⟩ := hpublished
    dsimp only
    rw [hpub]
    obtain ⟨hkeptApplied, hkeptWritten⟩ := published'.reduceAll_kept op.payload others
    obtain ⟨hall, hothers⟩ := published'.reduceAll_models op.payload others
    refine ⟨(published'.reduceAll op.payload others).2, ?_, ?_, ?_, ?_⟩
    · exact congrArg (· ++ _) (hkeptApplied.trans (happlied'.trans happlied))
    · exact hkeptWritten.trans (hwritten'.trans hwritten)
    · rw [← hmodels, ← hmodels']
      exact hall
    · rw [← hmodels, ← hmodels']
      exact hothers

theorem executeOp_cases (registry : Registry K M S) (op : Op K) : Kept wire (wire.executeOp registry op).1 ∨
      ∃ complete, Ran registry op complete wire (wire.executeOp registry op).1 := by
  have hkept := wire.reduce_kept (registry.model op.type, registry.apply op.type) op.payload
  have hmodels := wire.reduce_models (registry.model op.type, registry.apply op.type) op.payload
  rw [executeOp_eq]
  cases hreduce : wire.reduce (registry.model op.type, registry.apply op.type) op.payload with
  | mk wire' ok =>
    rw [hreduce] at hkept hmodels
    obtain ⟨state, hresult, hok, hupdate⟩ | ⟨hok, hsame⟩ := hmodels
    · subst hok
      obtain ⟨complete, happlied, hwritten, hall, hothers⟩ := wire'.afterApply_spec registry op
      refine .inr ⟨complete, ?_, ?_, ?_, ?_⟩
      · rw [← hkept.1]
        exact happlied
      · rw [← hkept.2]
        exact hwritten
      · intro hcomplete
        rw [Registry.reducers, reduceModels, hresult, bind_some, ← hupdate]
        exact hall hcomplete
      · intro m hm
        rw [Registry.reducers, forall_mem_cons] at hm
        have hsame : wire'.models m = wire.models m := by
          rw [hupdate, Function.update_of_ne (Ne.symm hm.1)]
        rw [← hsame]
        exact hothers m hm.2
    · subst hok
      exact .inl ⟨hkept.1, hkept.2, hsame⟩

/-- What an op that is applied keeps, and what does not depend on more than the journal and the
models, holds throughout a run. -/
structure Invariant (registry : Registry K M S) (I : WireService K M S → Prop) : Prop where
  kept : ∀ wire wire', I wire → Kept wire wire' → I wire'
  ran : ∀ op complete wire wire', I wire → Ran registry op complete wire wire' → I wire'

namespace Invariant
variable {wire : WireService K M S} {I : WireService K M S → Prop}

section

variable (h : Invariant registry I) (hwire : I wire)
include h hwire

theorem execute (ops : List (Op K)) : I (wire.execute registry ops).1 := by
  induction ops generalizing wire with
  | nil => exact hwire
  | cons op ops ih =>
    have hop : I (wire.executeOp registry op).1 := by
      obtain hkept | ⟨complete, hran⟩ := wire.executeOp_cases registry op
      · exact h.kept _ _ hwire hkept
      · exact h.ran op complete _ _ hwire hran
    unfold execute
    cases hexec : wire.executeOp registry op with
    | mk wire' ok =>
      rw [hexec] at hop
      cases ok with
      | false => exact hop
      | true => exact ih hop

theorem drain (rounds : Nat) : I (wire.drain registry rounds).1 := by
  induction rounds generalizing wire with
  | zero => exact hwire
  | succ rounds ih =>
    unfold drain
    split
    · exact hwire
    · have hgroup : I (({ wire with queue := [] } : WireService K M S).execute registry
          wire.queue).1 :=
        h.execute (h.kept wire { wire with queue := [] } hwire ⟨rfl, rfl, rfl⟩) wire.queue
      cases hexec : ({ wire with queue := [] } : WireService K M S).execute registry wire.queue with
      | mk wire' ok =>
        rw [hexec] at hgroup
        cases ok with
        | false => exact hgroup
        | true => exact ih hgroup

theorem dispatch (ops : List (Op K)) : I (wire.dispatch registry ops).1 := by
  unfold WireService.dispatch
  split
  · exact hwire
  · have hexec := h.execute hwire ops
    dsimp only
    split
    · exact h.kept _ _ (h.drain hexec MAX_DRAIN) ⟨rfl, rfl, rfl⟩
    · exact h.kept _ _ hexec ⟨rfl, rfl, rfl⟩

theorem step (hstep : wire.step registry e = some wire') : I wire' := by
  cases e with
  | dispatch ops reactions =>
    cases hstep
    exact h.dispatch (h.kept wire { wire with reactions } hwire ⟨rfl, rfl, rfl⟩) ops
  | appended =>
    unfold WireService.step at hstep
    cases hqueue : wire.persistQueue with
    | none => simp [hqueue] at hstep
    | some chain =>
      cases chain with
      | nil => simp [hqueue] at hstep
      | cons record rest =>
        simp only [hqueue] at hstep
        cases hstep
        apply h.kept wire _ hwire
        refine ⟨rfl, ?_, rfl⟩
        simp [written, hqueue]
  | chainEnded =>
    unfold WireService.step at hstep
    cases hqueue : wire.persistQueue with
    | none => simp [hqueue] at hstep
    | some chain =>
      cases chain with
      | nil =>
        simp only [hqueue] at hstep
        cases hstep
        apply h.kept wire _ hwire
        refine ⟨rfl, ?_, rfl⟩
        simp [written, hqueue]
      | cons record rest => simp [hqueue] at hstep

end

theorem run {events : List (WireEvent K)} (h : Invariant registry I) (hwire : I wire)
    (hrun : events.foldlM (WireService.step registry) wire = some wire') : I wire' :=
  run_invariant (fun _ _ _ hi hstep => h.step hi hstep) hwire hrun

end Invariant

/-- The journal is the persisted ops that were applied, each once and in order. -/
theorem written_invariant (registry : Registry K M S) : Invariant registry fun wire => wire.written =
      (wire.applied.filter fun a => registry.persist a.op.type).map fun a => registry.journaled a.op where
  kept := by
    intro wire wire' h hkept
    rw [hkept.written, hkept.applied, h]
  ran := by
    intro op complete wire wire' h hran
    rw [hran.written, hran.applied, h]
    cases hpersist : registry.persist op.type with
    | false => simp [hpersist]
    | true => simp [hpersist]

end WireService

end

end Echadron.Wire
