import Echadron.Wire.WireJournal

namespace Echadron.Wire
open Lib List Option

/-! Restoring a journal gives the live state back. -/

namespace WireService
variable [DecidableEq M] (registry : Registry K M S)

/-- A reducer runs outside of a dispatch: what it dispatches is executed at once. -/
def replayReduce (payload : Json) (wire : WireService K M S) (entry : M × Reducer K S) : Option (WireService K M S) :=
  let reduction := entry.2 (wire.models entry.1) payload
  let called := reduction.calls.foldlM (fun wire ops =>
    let dispatched := wire.dispatch registry ops
    if dispatched.2 then some dispatched.1 else none) wire
  called.bind fun wire => reduction.result.map fun state =>
    { wire with models := Function.update wire.models entry.1 state }

/-- None where a reducer throws. Metadata and what is not understood is passed over. -/
def replayRecord (wire : WireService K M S) (record : WireRecord) : Option (WireService K M S) :=
  if recordType record = some "metadata" then some wire
  else
    match (recordType record).bind registry.find with
    | none => some wire
    | some type =>
      match registry.schema type (wireRecordToPayload record) with
      | none => some wire
      | some payload => (registry.reducers type).foldlM (replayReduce registry payload) wire

end WireService

/-- The state of a model after `rehydrateModels`. -/
def Registry.restored (registry : Registry K M S) (m : M) (state : S) : S :=
  (registry.rehydrate m).elim state fun rehydrate => rehydrate state

namespace WireService
variable [DecidableEq M] (registry : Registry K M S)

def rehydrateModels (wire : WireService K M S) : WireService K M S :=
  { wire with models := fun m => registry.restored m (wire.models m) }

def restore (records : List WireRecord) : Option (WireService K M S) :=
  (records.foldlM (replayRecord registry) { models := registry.initial }).map
    (rehydrateModels registry)

end WireService

/-! The simulation of a live service by a restored one. -/

section
variable {registry : Registry K M S} {durable : M → Prop}

/-- A reducer does on the restored payload what it did live, up to rehydration. Of a model that is
not restored it is only asked not to throw. -/
structure Registry.Replays (registry : Registry K M S) (durable : M → Prop) (payload payload' : Json)
    (entry : M × Reducer K S) : Prop where
  calls : ∀ state, (entry.2 state payload').calls = []
  follows : durable entry.1 → ∀ state live,
    (entry.2 (registry.restored entry.1 state) payload).result = some live →
    ∃ state', (entry.2 state payload').result = some state' ∧ registry.restored entry.1 state' = live
  total : ¬ durable entry.1 → ∀ state, (entry.2 state payload').result.isSome

/-- The record of an op is read back, to a payload that its reducers replay. -/
structure Registry.Replayable [DecidableEq M] (registry : Registry K M S) (durable : M → Prop)
    (op : Op K) : Prop where
  type : recordType (registry.journaled op) = some (registry.name op.type)
  ordinary : registry.name op.type ≠ "metadata"
  payload : ∃ payload', registry.schema op.type (wireRecordToPayload (registry.journaled op)) =
    some payload' ∧ ∀ entry ∈ registry.reducers op.type, registry.Replays durable op.payload payload' entry

/-- The condition on an op that was applied. A persisted one has run to its end and can be replayed,
any other leaves the durable models alone. -/
structure Registry.Restorable [DecidableEq M] (registry : Registry K M S) (durable : M → Prop)
    (a : Applied K) : Prop where
  complete : registry.persist a.op.type → a.complete
  replayable : registry.persist a.op.type → registry.Replayable durable a.op
  passing : registry.persist a.op.type = false → ∀ entry ∈ registry.reducers a.op.type, ¬ durable entry.1

def Agrees (registry : Registry K M S) (durable : M → Prop) (live replayed : M → S) : Prop :=
  ∀ m, durable m → registry.restored m (replayed m) = live m

variable [DecidableEq M] {live live' : M → S}

theorem Registry.Replays.replayReduce {wire : WireService K M S} (h : registry.Replays durable payload payload' entry)
    (hlive : (entry.2 (live entry.1) payload).result = some state)
    (hagrees : Agrees registry durable live wire.models) :
    ∃ wire', wire.replayReduce registry payload' entry = some wire' ∧
      Agrees registry durable (Function.update live entry.1 state) wire'.models := by
  unfold WireService.replayReduce
  dsimp only
  rw [h.calls]
  by_cases hdurable : durable entry.1
  · rw [← hagrees entry.1 hdurable] at hlive
    obtain ⟨state', hresult, hstate⟩ := h.follows hdurable _ _ hlive
    rw [hresult]
    refine ⟨_, rfl, ?_⟩
    intro m hm
    by_cases heq : m = entry.1
    · subst heq
      dsimp only
      rw [Function.update_self, Function.update_self]
      exact hstate
    · dsimp only
      rw [Function.update_of_ne heq, Function.update_of_ne heq]
      exact hagrees m hm
  · obtain ⟨state', hresult⟩ := isSome_iff_exists.mp (h.total hdurable (wire.models entry.1))
    rw [hresult]
    refine ⟨_, rfl, ?_⟩
    intro m hm
    have hne : m ≠ entry.1 := by
      intro heq
      subst heq
      exact hdurable hm
    dsimp only
    rw [Function.update_of_ne hne, Function.update_of_ne hne]
    exact hagrees m hm

theorem replay_reducers {wire : WireService K M S}
    (h : ∀ entry ∈ entries, registry.Replays durable payload payload' entry)
    (hlive : reduceModels payload entries live = some live')
    (hagrees : Agrees registry durable live wire.models) :
    ∃ wire', entries.foldlM (WireService.replayReduce registry payload') wire = some wire' ∧
      Agrees registry durable live' wire'.models := by
  induction entries generalizing live wire with
  | nil =>
    cases hlive
    exact ⟨wire, rfl, hagrees⟩
  | cons entry entries ih =>
    rw [forall_mem_cons] at h
    obtain ⟨state, hresult, hrest⟩ := bind_eq_some_iff.mp hlive
    obtain ⟨wire₁, hfirst, hagrees₁⟩ := h.1.replayReduce hresult hagrees
    obtain ⟨wire', hfold, hagrees'⟩ := ih h.2 hrest hagrees₁
    refine ⟨wire', ?_, hagrees'⟩
    rw [foldlM_cons, hfirst]
    exact hfold

theorem Registry.Replayable.replayRecord {wire : WireService K M S} (h : registry.Replayable durable op)
    (hlive : reduceModels op.payload (registry.reducers op.type) live = some live')
    (hagrees : Agrees registry durable live wire.models) :
    ∃ wire', wire.replayRecord registry (registry.journaled op) = some wire' ∧
      Agrees registry durable live' wire'.models := by
  obtain ⟨payload', hschema, hreplays⟩ := h.payload
  have hordinary : ¬ some (registry.name op.type) = some "metadata" := by
    intro heq
    exact h.ordinary (some.inj heq)
  unfold WireService.replayRecord
  rw [h.type, if_neg hordinary, bind_some, registry.find_name]
  dsimp only
  rw [hschema]
  exact replay_reducers hreplays hlive hagrees

/-- What is written so far replays to a service that agrees with the live one. -/
theorem replay_invariant (registry : Registry K M S) (durable : M → Prop) :
    WireService.Invariant registry fun wire => (∀ a ∈ wire.applied, registry.Restorable durable a) →
      ∃ replayed, wire.written.foldlM (WireService.replayRecord registry)
          { models := registry.initial } = some replayed ∧
        Agrees registry durable wire.models replayed.models where
  kept := by
    intro wire wire' h hkept hall
    rw [hkept.applied] at hall
    rw [hkept.written, hkept.models]
    exact h hall
  ran := by
    intro op complete wire wire' h hran hall
    rw [hran.applied, forall_mem_snoc] at hall
    obtain ⟨hbefore, hop⟩ := hall
    obtain ⟨replayed, hreplayed, hagrees⟩ := h hbefore
    rw [hran.written]
    cases hpersist : registry.persist op.type with
    | false =>
      rw [if_neg Bool.false_ne_true, append_nil]
      refine ⟨replayed, hreplayed, ?_⟩
      intro m hm
      have hother : wire'.models m = wire.models m := by
        apply hran.others
        intro entry hentry heq
        subst heq
        exact hop.passing hpersist entry hentry hm
      rw [hother]
      exact hagrees m hm
    | true =>
      obtain ⟨replayed', hrecord, hagrees'⟩ := (hop.replayable hpersist).replayRecord
        (hran.models (hop.complete hpersist)) hagrees
      refine ⟨replayed', ?_, hagrees'⟩
      rw [foldlM_append, hreplayed]
      exact (bind_some _ _).trans ((foldlM_cons).trans (by rw [hrecord]; rfl))

theorem replay_start
    (hinitial : ∀ m, durable m → registry.restored m (registry.initial m) = registry.initial m) :
    ∃ replayed : WireService K M S, ({ models := registry.initial } : WireService K M S).written.foldlM
        (WireService.replayRecord registry) { models := registry.initial } = some replayed ∧
      Agrees registry durable ({ models := registry.initial } : WireService K M S).models
        replayed.models :=
  ⟨_, rfl, hinitial⟩

/-- The journal of a run is its persisted ops that were applied, each once and in order. Where these
are restorable, it restores every model that only they have changed. -/
theorem WireService.journal_of_run {events : List (WireEvent K)} {wire : WireService K M S}
    (hrun : events.foldlM (step registry) { models := registry.initial } = some wire) :
    wire.written = (wire.applied.filter fun a => registry.persist a.op.type).map
        (fun a => registry.journaled a.op) ∧
      ∀ durable : M → Prop, (∀ m, durable m → registry.restored m (registry.initial m) = registry.initial m) →
        (∀ a ∈ wire.applied, registry.Restorable durable a) →
        ∃ restored, restore registry wire.written = some restored ∧
          ∀ m, durable m → restored.models m = wire.models m := by
  constructor
  · exact (written_invariant registry).run rfl hrun
  · intro durable hinitial hall
    have hinvariant := (replay_invariant registry durable).run (fun _ => replay_start hinitial) hrun
    obtain ⟨replayed, hreplayed, hagrees⟩ := hinvariant hall
    refine ⟨replayed.rehydrateModels registry, ?_, hagrees⟩
    rw [restore, hreplayed]
    rfl

end

theorem foldl_assign_append {fields record : WireRecord} (hnodup : (record ++ fields |>.map Prod.fst).Nodup) :
    fields.foldl assign record = record ++ fields := by
  induction fields generalizing record with
  | nil => exact (append_nil record).symm
  | cons field fields ih =>
    have hnew : field.1 ∉ record.map Prod.fst := by
      rw [map_append, nodup_append] at hnodup
      intro hmem
      exact hnodup.2.2 field.1 hmem field.1 (mem_cons_self ..) rfl
    rw [foldl_cons, assign, if_neg hnew, ih, append_assoc, singleton_append]
    rw [append_assoc]
    exact hnodup

section

variable {fields : WireRecord} (hnodup : (fields.map Prod.fst).Nodup) (htype : "type" ∉ fields.map Prod.fst)
include hnodup htype

theorem wireRecordToPayload_opToWireRecord (htime : "time" ∉ fields.map Prod.fst) (hlone : fields.map Prod.fst ≠ ["payload"])
    (type : String) : wireRecordToPayload (opToWireRecord type (.obj fields)) = .obj fields := by
  have hrecord : opToWireRecord type (.obj fields) = ("type", .str type) :: fields := by
    apply foldl_assign_append
    rw [singleton_append, map_cons, nodup_cons]
    exact ⟨htype, hnodup⟩
  have hkeep : (("type", Json.str type) :: fields).filter
      (fun field => field.1 ≠ "type" ∧ field.1 ≠ "time") = fields := by
    rw [filter_cons_of_neg (by simp), filter_eq_self]
    intro field hfield
    have hmem := mem_map_of_mem (f := Prod.fst) hfield
    rw [decide_eq_true_iff]
    constructor
    · intro heq
      rw [heq] at hmem
      exact htype hmem
    · intro heq
      rw [heq] at hmem
      exact htime hmem
  rw [hrecord]
  unfold wireRecordToPayload
  rw [hkeep]
  split
  · exact absurd rfl hlone
  · rfl

theorem recordType_opToWireRecord (type : String) : recordType (opToWireRecord type (.obj fields)) = some type := by
  have hrecord : opToWireRecord type (.obj fields) = ("type", .str type) :: fields := by
    apply foldl_assign_append
    rw [singleton_append, map_cons, nodup_cons]
    exact ⟨htype, hnodup⟩
  rw [hrecord]
  rfl

end

section
variable {registry : Registry K M S} {durable : M → Prop} [DecidableEq M]

omit [DecidableEq M] in
theorem Registry.replays_of_plain
    (hrehydrate : registry.rehydrate entry.1 = none)
    (hcalls : ∀ state, (entry.2 state payload).calls = [])
    (htotal : ¬ durable entry.1 → ∀ state, (entry.2 state payload).result.isSome) :
    registry.Replays durable payload payload entry where
  calls := hcalls
  follows := by
    intro _ state live hlive
    have hrestored : ∀ state, registry.restored entry.1 state = state := by
      intro state
      rw [Registry.restored, hrehydrate]
      rfl
    rw [hrestored] at hlive
    exact ⟨live, hlive, hrestored live⟩
  total := htotal

theorem Registry.replayable_of_plain
    (hdehydrate : registry.dehydrate (registry.model type) = none)
    (hordinary : registry.name type ≠ "metadata")
    (hnodup : (fields.map Prod.fst).Nodup) (htype : "type" ∉ fields.map Prod.fst)
    (htime : "time" ∉ fields.map Prod.fst) (hlone : fields.map Prod.fst ≠ ["payload"])
    (hschema : registry.schema type (.obj fields) = some (.obj fields))
    (hreplays : ∀ entry ∈ registry.reducers type, registry.Replays durable (.obj fields) (.obj fields) entry) :
    registry.Replayable durable ⟨type, .obj fields⟩ := by
  have hjournaled : registry.journaled ⟨type, .obj fields⟩ =
      opToWireRecord (registry.name type) (.obj fields) := by
    rw [Registry.journaled, hdehydrate]
    rfl
  refine ⟨?_, hordinary, .obj fields, ?_, hreplays⟩
  · rw [hjournaled]
    exact recordType_opToWireRecord hnodup htype _
  · rw [hjournaled, wireRecordToPayload_opToWireRecord hnodup htype htime hlone]
    exact hschema

end

/-! A registry of notes, whose parts are offloaded, with a model that counts beside it. -/

inductive NoteKind where
  | write
  | close
  | title
  | count
deriving DecidableEq

inductive NoteModel where
  | note
  | titles
  | counter
deriving DecidableEq

def notes : Registry NoteKind NoteModel Json where
  name
    | .write => "note.write"
    | .close => "note.close"
    | .title => "note.title"
    | .count => "note.count"
  find type := [("note.write", NoteKind.write), ("note.close", .close), ("note.title", .title),
    ("note.count", .count)].lookup type
  find_name := by
    intro type
    cases type <;> decide +kernel
  model
    | .title => .titles
    | .count => .counter
    | _ => .note
  schema _ payload := some payload
  apply _ _ payload := { result := some payload }
  toEvent _ _ _ := some true
  persist kind := kind ≠ .count
  crossReducers
    | .write => [(.counter, fun _ _ => { result := some (.bool true) })]
    | .close => [(.titles, fun _ _ => { result := none })]
    | _ => []
  initial _ := .null
  dehydrate
    | .note => some fun record => record.map fun field =>
      if field.1 = "part" then ("part", .arr [field.2]) else field
    | _ => none
  rehydrate
    | .note => some fun state =>
      match state with
      | .obj [("part", .arr [part])] => .obj [("part", part)]
      | state => state
    | _ => none

/-- All but the counter, which ops that are not persisted change. -/
abbrev Lasting (m : NoteModel) : Prop := m ≠ .counter

theorem notes_write (part : Json) : notes.Restorable Lasting ⟨⟨.write, .obj [("part", part)]⟩, true⟩ where
  complete _ := rfl
  replayable _ := by
    refine ⟨rfl, by simp [notes], .obj [("part", .arr [part])], rfl, ?_⟩
    intro entry hentry
    have hlist : notes.reducers .write = [(.note, notes.apply .write),
        (.counter, fun _ _ => { result := some (.bool true) })] := rfl
    rw [hlist, mem_cons, mem_singleton] at hentry
    obtain rfl | rfl := hentry
    · refine ⟨fun _ => rfl, ?_, fun _ _ => rfl⟩
      intro _ state live hlive
      cases hlive
      exact ⟨.obj [("part", .arr [part])], rfl, rfl⟩
    · refine ⟨fun _ => rfl, ?_, fun _ _ => rfl⟩
      intro hlasting
      exact absurd rfl hlasting
  passing h := absurd h.symm Bool.false_ne_true

theorem notes_title (text : Json) : notes.Restorable Lasting ⟨⟨.title, .obj [("text", text)]⟩, true⟩ where
  complete _ := rfl
  replayable _ := by
    apply Registry.replayable_of_plain rfl (by simp [notes]) (by simp) (by simp) (by simp)
      (by simp) rfl
    intro entry hentry
    have hlist : notes.reducers .title = [(.titles, notes.apply .title)] := rfl
    rw [hlist, mem_singleton] at hentry
    subst hentry
    exact Registry.replays_of_plain rfl (fun _ => rfl) fun _ _ => rfl
  passing h := absurd h.symm Bool.false_ne_true

theorem notes_count (payload : Json) : notes.Restorable Lasting ⟨⟨.count, payload⟩, true⟩ where
  complete h := absurd h Bool.false_ne_true
  replayable h := absurd h Bool.false_ne_true
  passing _ := by
    intro entry hentry
    have hlist : notes.reducers .count = [(.counter, notes.apply .count)] := rfl
    rw [hlist, mem_singleton] at hentry
    subst hentry
    intro hlasting
    exact absurd rfl hlasting

theorem notes_initial (m : NoteModel) : notes.restored m (notes.initial m) = notes.initial m := by
  cases m <;> rfl

def notesRun : List (WireEvent NoteKind) :=
  [.dispatch [⟨.write, .obj [("part", .str "a")]⟩] [[[⟨.count, .null⟩]]],
   .dispatch [⟨.title, .obj [("text", .str "b")]⟩] [], .appended, .appended, .chainEnded,
   .dispatch [⟨.title, .obj [("text", .str "c")]⟩] []]

/-- Two records go through the chain, a third is journaled at once. -/
theorem journal_of_notesRun : ∃ wire : WireService NoteKind NoteModel Json,
    notesRun.foldlM (WireService.step notes) { models := notes.initial } = some wire ∧
    wire.journal = [[("type", .str "note.write"), ("part", .arr [.str "a"])],
      [("type", .str "note.title"), ("text", .str "b")],
      [("type", .str "note.title"), ("text", .str "c")]] ∧
    ∃ restored, WireService.restore notes wire.written = some restored ∧
      ∀ m, Lasting m → restored.models m = wire.models m := by
  have hrun : notesRun.foldlM (WireService.step notes) { models := notes.initial } = some _ := rfl
  refine ⟨_, hrun, rfl, ?_⟩
  apply (WireService.journal_of_run hrun).2 Lasting
  · intro m _
    exact notes_initial m
  · have hall : ∀ a ∈ [⟨⟨.write, .obj [("part", .str "a")]⟩, true⟩, ⟨⟨.count, .null⟩, true⟩,
        ⟨⟨.title, .obj [("text", .str "b")]⟩, true⟩, ⟨⟨.title, .obj [("text", .str "c")]⟩, true⟩],
        notes.Restorable Lasting a := by
      simp only [forall_mem_cons]
      exact ⟨notes_write _, notes_count _, notes_title _, notes_title _, forall_mem_nil _⟩
    exact hall

/-- An op whose cross-model reducer throws is journaled all the same, and nothing is restored. -/
theorem not_restored_of_throw : ∃ wire : WireService NoteKind NoteModel Json,
    [WireEvent.dispatch [⟨NoteKind.close, .obj [("at", .num "1")]⟩] []].foldlM
      (WireService.step notes) { models := notes.initial } = some wire ∧
    wire.applied.all (fun a => notes.persist a.op.type) ∧
    wire.models .note = .obj [("at", .num "1")] ∧
    (WireService.restore notes wire.written).isNone :=
  ⟨_, rfl, rfl, rfl, rfl⟩

end Echadron.Wire
