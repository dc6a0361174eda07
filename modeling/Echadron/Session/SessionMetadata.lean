import Echadron.Lib.JsValue
import Echadron.Lib.Runs

namespace Echadron.Session
open Lib List Option

/-! The metadata document of a session, and the calls that change it one after another. -/

inductive AgentMetaType where
  | main
  | sub
  | independent
deriving DecidableEq

/-- An absent parent and a `null` one are the same here: no reader tells them apart. -/
structure AgentMeta where
  homedir : Option String := none
  type : Option AgentMetaType := none
  parentAgentId : Option String := none
  forkedFrom : Option String := none
  labels : Option (List (String × String)) := none
  swarmItem : Option String := none

/-- The metadata: the agents, the time of the last update, and the other fields, `undefined` where absent. -/
structure SessionMeta where
  agents : Option (List (String × AgentMeta))
  updatedAt : JsValue
  others : String → JsValue

/-- The fields that a patch gives; one given as `undefined` clears the field. -/
structure SessionMetaPatch where
  agents : Option (Option (List (String × AgentMeta))) := none
  others : List (String × JsValue) := []

inductive MetadataCall where
  | update (patch : SessionMetaPatch) (touchUpdatedAt : Bool)
  | registerAgent (agentId : String) (agent : AgentMeta)

def setTitle (title : String) : MetadataCall :=
  .update { others := [("title", .str title), ("isCustomTitle", .bool true)] } true

def setArchived (archived : Bool) : MetadataCall := .update { others := [("archived", .bool archived)] } true

def recordEquals (a b : Option (List (String × String))) : Bool :=
  (a.getD []).length == (b.getD []).length && (a.getD []).all fun entry => (b.getD []).lookup entry.1 == some entry.2

def agentMetaEquals (a b : AgentMeta) : Bool :=
  a.homedir == b.homedir && decide (a.type = b.type) && a.parentAgentId == b.parentAgentId &&
    a.forkedFrom == b.forkedFrom && a.swarmItem == b.swarmItem && recordEquals a.labels b.labels

def number (n : Nat) : JsValue := .num (.finite n)

def setField (others : String → JsValue) (key : String) (value : JsValue) : String → JsValue :=
  fun k => if k = key then value else others k

/-- The assignment that `applyUpdate` makes. -/
def SessionMeta.applyPatch (meta' : SessionMeta) (patch : SessionMetaPatch) (touchUpdatedAt : Bool) (now : Nat) :
    SessionMeta :=
  { agents := patch.agents.getD meta'.agents
    updatedAt := if touchUpdatedAt then number now else meta'.updatedAt
    others := fun key => (patch.others.lookup key).getD (meta'.others key) }

def setEntry (entries : List (String × AgentMeta)) (agentId : String) (agent : AgentMeta) :
    List (String × AgentMeta) :=
  if entries.any fun entry => entry.1 = agentId then
    entries.map fun entry => if entry.1 = agentId then (agentId, agent) else entry
  else entries ++ [(agentId, agent)]

/-- The patch that a call makes of the metadata as it is when its turn comes; a registration that changes nothing
makes none. -/
def MetadataCall.patch (meta' : SessionMeta) : MetadataCall → Option (SessionMetaPatch × Bool)
  | .update patch touchUpdatedAt => some (patch, touchUpdatedAt)
  | .registerAgent agentId agent =>
    let entries := meta'.agents.getD []
    if (entries.lookup agentId).any fun existing => agentMetaEquals existing agent then none
    else some ({ agents := some (some (setEntry entries agentId agent)) }, true)

def toEpochMs (parseDate : String → Option Nat) : JsValue → JsValue
  | .num (.finite q) => .num (.finite q)
  | .str s => number ((parseDate s).getD 0)
  | _ => number 0

def SESSION_META_VERSION : Nat := 2

/-- What a session is created with, and what is read of its world. -/
structure SessionSetting where
  sessionId : String
  cwd : String
  parseDate : String → Option Nat

def normalizeSessionMeta (setting : SessionSetting) (raw : SessionMeta) : SessionMeta :=
  let workDir : JsValue :=
    match raw.others "workDir" with
    | .str s => if s ≠ "" then .str s else .undefined
    | _ => .undefined
  let cwd := if (raw.others "cwd").isNullish then workDir else raw.others "cwd"
  let placed := { raw with others := setField raw.others "cwd" cwd }
  if (raw.others "version").strictEq (number SESSION_META_VERSION) then placed
  else
    let others := setField placed.others "id" (.str setting.sessionId)
    let others := setField others "version" (number SESSION_META_VERSION)
    { agents := raw.agents
      updatedAt := toEpochMs setting.parseDate raw.updatedAt
      others := setField others "createdAt" (toEpochMs setting.parseDate (raw.others "createdAt")) }

/-- The first document of a session. -/
def createdMeta (setting : SessionSetting) (now : Nat) : SessionMeta :=
  { agents := some []
    updatedAt := number now
    others := fun key =>
      (List.lookup key [("id", .str setting.sessionId), ("version", number SESSION_META_VERSION),
        ("cwd", .str setting.cwd), ("createdAt", number now), ("archived", .bool false), ("custom", .obj [])]).getD
        .undefined }

/-- The maps that older readers expect. -/
def SessionMeta.seeded (meta' : SessionMeta) : SessionMeta :=
  { meta' with
    agents := some (meta'.agents.getD [])
    others := setField meta'.others "custom"
      (if (meta'.others "custom").isNullish then .obj [] else meta'.others "custom") }

def SessionMeta.isSeeded (meta' : SessionMeta) : Bool := meta'.agents.isSome && !(meta'.others "custom").isUndefined

inductive MetadataReadiness where
  | reading
  | writing
  | ready
  | failed
deriving DecidableEq

structure SettledCall where
  call : MetadataCall
  now : Nat
  resolved : Bool

/-- The service with the stored document and the history of its calls. `running` waits for its write. -/
structure SessionMetadata where
  document : Option SessionMeta
  data : Option SessionMeta := none
  readiness : MetadataReadiness := .reading
  updateQueue : List MetadataCall := []
  running : Option (MetadataCall × Nat) := none
  loaded : Option SessionMeta := none
  calls : List MetadataCall := []
  trace : List SettledCall := []

inductive MetadataEvent where
  | calls (call : MetadataCall)
  | readsDocument (now : Nat) (ok : Bool)
  | loadWritten (ok : Bool)
  | begins (now : Nat)
  | written (ok : Bool)

namespace SessionMetadata

variable (setting : SessionSetting)

section

variable (s : SessionMetadata)

def enqueue (call : MetadataCall) : SessionMetadata :=
  { s with updateQueue := s.updateQueue ++ [call], calls := s.calls ++ [call] }

/-- `load` past its read. -/
def load (now : Nat) : SessionMetadata :=
  match s.document with
  | none =>
    { s with
      data := some (createdMeta setting now)
      loaded := some (createdMeta setting now)
      readiness := .writing }
  | some existing =>
    let normalized := normalizeSessionMeta setting existing
    if normalized.isSeeded then { s with data := some normalized, loaded := some normalized, readiness := .ready }
    else { s with data := some normalized.seeded, loaded := some normalized.seeded, readiness := .writing }

def settle (call : MetadataCall) (now : Nat) (resolved : Bool) : SessionMetadata :=
  { s with running := none, trace := s.trace ++ [{ call, now, resolved }] }

/-- The next call, once the metadata is loaded: memory changes before the document is written. -/
def begin (call : MetadataCall) (meta' : SessionMeta) (now : Nat) : SessionMetadata :=
  match call.patch meta' with
  | none => s.settle call now true
  | some (patch, touchUpdatedAt) =>
    { s with data := some (meta'.applyPatch patch touchUpdatedAt now), running := some (call, now) }

def step : MetadataEvent → Option SessionMetadata
  | .calls call => some (s.enqueue call)
  | .readsDocument now ok =>
    if s.readiness = .reading then some (if ok then s.load setting now else { s with readiness := .failed }) else none
  | .loadWritten ok =>
    if s.readiness = .writing then
      some (if ok then { s with document := s.data, readiness := .ready } else { s with readiness := .failed })
    else none
  | .begins now =>
    match s.running, s.updateQueue with
    | none, call :: rest =>
      match s.readiness, s.data with
      | .ready, some meta' => some ({ s with updateQueue := rest }.begin call meta' now)
      | .failed, _ => some ({ s with updateQueue := rest }.settle call now false)
      | _, _ => none
    | _, _ => none
  | .written ok =>
    s.running.map fun running =>
      if ok then { s with document := s.data }.settle running.1 running.2 true
      else s.settle running.1 running.2 false

end

def run (document : Option SessionMeta) (events : List MetadataEvent) : Option SessionMetadata :=
  events.foldlM (step setting) { document }

def applyCall (meta' : SessionMeta) (settled : SettledCall) : SessionMeta :=
  match settled.call.patch meta' with
  | none => meta'
  | some (patch, touchUpdatedAt) => meta'.applyPatch patch touchUpdatedAt settled.now

def folded (s : SessionMetadata) : Option SessionMeta :=
  s.loaded.map fun meta' => (s.trace.filter fun settled => settled.resolved).foldl applyCall meta'

def Quiet (s : SessionMetadata) : Prop :=
  s.updateQueue = [] ∧ s.running = none ∧ (s.readiness = .ready ∨ s.readiness = .failed)

/-- What the metadata is whenever no call is outstanding. -/
structure Kept (s : SessionMetadata) : Prop where
  loaded : s.loaded.isSome = true
  stored : s.data = s.document
  folded : s.data = s.folded
  in_order : s.trace.map SettledCall.call = s.calls

/-- Every write of the load succeeds, and the stored document is in the form that a load leaves it in; a write of a
call fails only where the call has changed nothing. -/
def Steady (s : SessionMetadata) : MetadataEvent → Prop
  | .readsDocument _ ok => ok = true ∧ ∀ existing, s.document = some existing →
    (normalizeSessionMeta setting existing).isSeeded = true → normalizeSessionMeta setting existing = existing
  | .loadWritten ok => ok = true
  | .written ok => ok = false → s.data = s.document
  | _ => True

/-- The metadata between two steps. -/
structure Settling (s : SessionMetadata) : Prop where
  readiness : s.readiness ≠ .failed
  unloaded : s.readiness ≠ .ready → s.running = none ∧ s.trace = []
  writing : s.readiness = .writing → s.loaded.isSome = true ∧ s.data = s.loaded
  ready : s.readiness = .ready → s.loaded.isSome = true ∧ s.document = s.folded
  idle : s.readiness = .ready → s.running = none → s.data = s.document
  running : ∀ call now, s.running = some (call, now) →
    s.data = s.document.map fun meta' => applyCall meta' { call, now, resolved := true }
  in_order : s.trace.map SettledCall.call ++ (s.running.map Prod.fst).toList ++ s.updateQueue = s.calls

variable {setting} {s s' : SessionMetadata}

theorem folded_settle (s : SessionMetadata) (call : MetadataCall) (now : Nat) :
    (s.settle call now true).folded = s.folded.map fun meta' => applyCall meta' { call, now, resolved := true } := by
  rw [folded, folded, settle, Option.map_map]
  congr 1
  funext meta'
  simp [Function.comp]

theorem folded_reject (s : SessionMetadata) (call : MetadataCall) (now : Nat) :
    (s.settle call now false).folded = s.folded := by
  rw [folded, folded, settle]
  simp

theorem Settling.begin (h : s.Settling) (hready : s.readiness = .ready) (hidle : s.running = none)
    (hqueue : s.updateQueue = call :: rest)
    (hdata : s.data = some meta') (now : Nat) : ({ s with updateQueue := rest }.begin call meta' now).Settling := by
  obtain ⟨hloaded, hdocument⟩ := h.ready hready
  have hstored := h.idle hready hidle
  have horder := h.in_order
  rw [hidle, hqueue] at horder
  rw [SessionMetadata.begin]
  split
  · rename_i hpatch
    have hsame : applyCall meta' { call, now, resolved := true } = meta' := by rw [applyCall, hpatch]
    have hfolded := folded_settle { s with updateQueue := rest } call now
    refine
      { h with
        unloaded := absurd hready
        ready := ?_
        idle := fun _ _ => hstored
        running := fun _ _ hrunning => by cases hrunning
        in_order := ?_ }
    · intro _
      refine ⟨hloaded, ?_⟩
      rw [hfolded]
      change s.document = s.folded.map _
      rw [← hdocument, ← hstored, hdata, map_some, hsame]
    · rw [← horder]
      simp [settle]
  · rename_i patch touchUpdatedAt hpatch
    refine
      { h with
        unloaded := absurd hready
        writing := fun hwriting => by rw [hready] at hwriting; cases hwriting
        idle := fun _ hnone => by cases hnone
        running := ?_
        in_order := ?_ }
    · intro other time hrunning
      obtain ⟨rfl, rfl⟩ := Prod.mk.inj (some.inj hrunning)
      rw [← hstored, hdata, map_some, applyCall, hpatch]
    · rw [← horder]
      simp

theorem Settling.load (h : s.Settling) (hreading : s.readiness = .reading)
    (hform : ∀ existing, s.document = some existing → (normalizeSessionMeta setting existing).isSeeded = true →
      normalizeSessionMeta setting existing = existing) (now : Nat) : (s.load setting now).Settling := by
  have hunready : s.readiness ≠ .ready := by
    rw [hreading]
    exact MetadataReadiness.noConfusion
  obtain ⟨hidle, htrace⟩ := h.unloaded hunready
  have hwrites (meta' : SessionMeta) :
      { s with data := some meta', loaded := some meta', readiness := .writing }.Settling :=
    { readiness := MetadataReadiness.noConfusion
      unloaded := fun _ => ⟨hidle, htrace⟩
      writing := fun _ => ⟨rfl, rfl⟩
      ready := fun hready => by cases hready
      idle := fun hready => by cases hready
      running := fun _ _ hrunning => by cases hidle.symm.trans hrunning
      in_order := h.in_order }
  rw [SessionMetadata.load]
  split
  · exact hwrites _
  · rename_i existing hexisting
    dsimp only
    split
    · rename_i hseeded
      have hsame := hform existing hexisting hseeded
      exact
        { readiness := MetadataReadiness.noConfusion
          unloaded := absurd rfl
          writing := fun hwriting => by cases hwriting
          ready := by
            intro _
            refine ⟨rfl, ?_⟩
            rw [htrace, hsame]
            exact hexisting
          idle := fun _ _ => by rw [hsame]; exact hexisting.symm
          running := fun _ _ hrunning => by cases hidle.symm.trans hrunning
          in_order := h.in_order }
    · exact hwrites _

theorem Settling.step (s : SessionMetadata) (e : MetadataEvent) (s' : SessionMetadata) (h : s.Settling)
    (hsteady : Steady setting s e) (hstep : s.step setting e = some s') : s'.Settling := by
  cases e with
  | calls call =>
    cases hstep
    exact
      { h with
        in_order := by
          change s.trace.map SettledCall.call ++ (s.running.map Prod.fst).toList ++ (s.updateQueue ++ [call]) =
            s.calls ++ [call]
          rw [← append_assoc, h.in_order] }
  | readsDocument now ok =>
    obtain ⟨hreading, hsome⟩ := ite_none_right_eq_some.mp hstep
    cases hsome
    obtain ⟨rfl, hform⟩ := hsteady
    exact h.load hreading hform now
  | loadWritten ok =>
    obtain ⟨hwriting, hsome⟩ := ite_none_right_eq_some.mp hstep
    cases hsome
    have hok : ok = true := hsteady
    subst hok
    obtain ⟨hloaded, hdata⟩ := h.writing hwriting
    have hunready : s.readiness ≠ .ready := by
      rw [hwriting]
      exact MetadataReadiness.noConfusion
    obtain ⟨hidle, htrace⟩ := h.unloaded hunready
    exact
      { readiness := MetadataReadiness.noConfusion
        unloaded := absurd rfl
        writing := fun hwriting => by cases hwriting
        ready := by
          intro _
          refine ⟨hloaded, ?_⟩
          change s.data = s.loaded.map fun meta' => (s.trace.filter _).foldl applyCall meta'
          rw [htrace, hdata]
          exact map_id'.symm ▸ rfl
        idle := fun _ _ => rfl
        running := fun _ _ hrunning => by cases hidle.symm.trans hrunning
        in_order := h.in_order }
  | begins now =>
    dsimp only [SessionMetadata.step] at hstep
    split at hstep
    · rename_i call rest hidle hqueue
      split at hstep
      · rename_i meta' hready hdata
        cases hstep
        exact h.begin hready hidle hqueue hdata now
      · rename_i hfailed
        exact absurd hfailed h.readiness
      · cases hstep
    · cases hstep
  | written ok =>
    obtain ⟨⟨call, now⟩, hrunning, rfl⟩ := map_eq_some_iff.mp hstep
    have hready : s.readiness = .ready := by
      by_contra hnot
      cases (h.unloaded hnot).1.symm.trans hrunning
    obtain ⟨hloaded, hdocument⟩ := h.ready hready
    have horder := h.in_order
    rw [hrunning] at horder
    cases ok with
    | true =>
      exact
        { h with
          unloaded := absurd hready
          ready := by
            intro _
            refine ⟨hloaded, ?_⟩
            rw [if_pos rfl, folded_settle]
            change s.data = s.folded.map _
            rw [← hdocument]
            exact h.running call now hrunning
          idle := fun _ _ => rfl
          running := fun _ _ hnone => by cases hnone
          in_order := by
            rw [← horder]
            simp [settle] }
    | false =>
      exact
        { h with
          unloaded := absurd hready
          ready := by
            intro _
            refine ⟨hloaded, ?_⟩
            rw [if_neg Bool.false_ne_true, folded_reject]
            exact hdocument
          idle := fun _ _ => hsteady rfl
          running := fun _ _ hnone => by cases hnone
          in_order := by
            simpa [settle] using horder }

theorem Settling.start (document : Option SessionMeta) : Settling { document } where
  readiness := MetadataReadiness.noConfusion
  unloaded := fun _ => ⟨rfl, rfl⟩
  writing := fun hwriting => by cases hwriting
  ready := fun hready => by cases hready
  idle := fun hready => by cases hready
  running := fun _ _ hrunning => by cases hrunning
  in_order := rfl

/-- In a run whose writes fail only where nothing has changed, the metadata is kept whenever no call is
outstanding. -/
theorem kept_of_run (setting : SessionSetting) (document : Option SessionMeta) (events : List MetadataEvent)
    (s : SessionMetadata) (hsteady : AlongRun (step setting) (Steady setting) { document } events)
    (hrun : run setting document events = some s) (hquiet : s.Quiet) : s.Kept := by
  have h := hsteady.invariant Settling.step (Settling.start document) hrun
  obtain ⟨hqueue, hidle, hready | hfailed⟩ := hquiet
  · obtain ⟨hloaded, hdocument⟩ := h.ready hready
    have hstored := h.idle hready hidle
    have horder := h.in_order
    rw [hidle, hqueue] at horder
    refine ⟨hloaded, hstored, hstored.trans hdocument, ?_⟩
    simpa using horder
  · exact absurd hfailed h.readiness

/-! A session is created and renamed, and an agent is registered; then the same with a write that fails. -/

def exampleSetting : SessionSetting := { sessionId := "session", cwd := "/work", parseDate := fun _ => none }

def renamed : List MetadataEvent :=
  [.readsDocument 0 true, .loadWritten true, .calls (setTitle "Title"), .calls (.registerAgent "main" {}), .begins 1,
    .written true, .begins 2, .written true]

theorem renamed_kept : ∃ s, run exampleSetting none renamed = some s ∧ s.Kept ∧
    s.data.map (fun meta' => meta'.agents.map length) = some (some 1) := by
  have hsteady : AlongRun (step exampleSetting) (Steady exampleSetting) { document := none } renamed := by
    refine ⟨⟨rfl, fun _ hsome => by cases hsome⟩, ?_⟩
    rintro _ ⟨rfl⟩
    refine ⟨rfl, ?_⟩
    rintro _ ⟨rfl⟩
    refine ⟨trivial, ?_⟩
    rintro _ ⟨rfl⟩
    refine ⟨trivial, ?_⟩
    rintro _ ⟨rfl⟩
    refine ⟨trivial, ?_⟩
    rintro _ ⟨rfl⟩
    refine ⟨Bool.noConfusion, ?_⟩
    rintro _ ⟨rfl⟩
    refine ⟨trivial, ?_⟩
    rintro _ ⟨rfl⟩
    exact ⟨Bool.noConfusion, fun _ _ => trivial⟩
  obtain ⟨s, hrun, hquiet, hagents⟩ : ∃ s, run exampleSetting none renamed = some s ∧ s.Quiet ∧
      s.data.map (fun meta' => meta'.agents.map length) = some (some 1) :=
    ⟨_, rfl, ⟨rfl, rfl, .inl rfl⟩, rfl⟩
  exact ⟨s, hrun, kept_of_run exampleSetting none renamed s hsteady hrun hquiet, hagents⟩

/-- The registration whose write fails is rejected and stays in memory, and the same registration made again then
resolves without a write: the document never names the agent. -/
theorem failedRegistration_stays : ∃ s, run exampleSetting none
        [.readsDocument 0 true, .loadWritten true, .calls (.registerAgent "main" {}), .begins 1, .written false,
          .calls (.registerAgent "main" {}), .begins 2] = some s ∧ s.Quiet ∧
      s.trace.map SettledCall.resolved = [false, true] ∧
      s.data.map (fun meta' => meta'.agents.map length) = some (some 1) ∧
      s.document.map (fun meta' => meta'.agents.map length) = some (some 0) ∧ ¬ s.Kept := by
  obtain ⟨s, hrun, hquiet, hresolved, hdata, hdocument⟩ : ∃ s, run exampleSetting none
          [.readsDocument 0 true, .loadWritten true, .calls (.registerAgent "main" {}), .begins 1, .written false,
            .calls (.registerAgent "main" {}), .begins 2] = some s ∧ s.Quiet ∧
        s.trace.map SettledCall.resolved = [false, true] ∧
        s.data.map (fun meta' => meta'.agents.map length) = some (some 1) ∧
        s.document.map (fun meta' => meta'.agents.map length) = some (some 0) :=
    ⟨_, rfl, ⟨rfl, rfl, .inl rfl⟩, rfl, rfl, rfl⟩
  refine ⟨s, hrun, hquiet, hresolved, hdata, hdocument, ?_⟩
  intro hkept
  rw [hkept.stored, hdocument] at hdata
  cases hdata

end SessionMetadata

end Echadron.Session
