import Echadron.Lib.Json
import Echadron.Lib.Runs

namespace Echadron.Wire
open Lib

/-! Records of ops. -/

/-- The fields of a record, in order. -/
abbrev WireRecord := List (String × Json)

/-- A property is set where it stands, or put at the end. -/
def assign (record : WireRecord) (field : String × Json) : WireRecord :=
  if field.1 ∈ record.map Prod.fst then record.map fun old => if old.1 = field.1 then field else old
  else record ++ [field]

/-- The time that a record is given is left out: `wireRecordToPayload` takes it off. -/
def opToWireRecord (type : String) : Json → WireRecord
  | .obj fields => fields.foldl assign [("type", .str type)]
  | payload => [("type", .str type), ("payload", payload)]

def wireRecordToPayload (record : WireRecord) : Json :=
  match record.filter fun field => field.1 ≠ "type" ∧ field.1 ≠ "time" with
  | [("payload", payload)] => payload
  | fields => .obj fields

def recordType (record : WireRecord) : Option String :=
  match record.lookup "type" with
  | some (.str type) => some type
  | _ => none

/-! Ops and models. Every model's state is of one type. -/

structure Op (K : Type) where
  type : K
  payload : Json
deriving DecidableEq

/-- The calls of `dispatch` that a reducer makes, and its result, none where it throws. -/
structure Reduction (K S : Type) where
  calls : List (List (Op K)) := []
  result : Option S

abbrev Reducer (K S : Type) := S → Json → Reduction K S

/-- `OP_REGISTRY` and `MODEL_CROSS_REDUCERS`, with what the models declare. -/
structure Registry (K M S : Type) where
  name : K → String
  find : String → Option K
  find_name : ∀ type, find (name type) = some type
  model : K → M
  schema : K → Json → Option Json
  apply : K → Reducer K S
  /-- Whether an op has an event, none where `toEvent` throws. -/
  toEvent : K → Json → S → Option Bool
  persist : K → Bool
  crossReducers : K → List (M × Reducer K S)
  initial : M → S
  /-- What `dehydrate` makes of a record once its parts are offloaded. -/
  dehydrate : M → Option (WireRecord → WireRecord)
  rehydrate : M → Option (S → S)

/-- An op that was applied to its model, and whether all cross-model reducers have run on it. -/
structure Applied (K : Type) where
  op : Op K
  complete : Bool

structure WireService (K M S : Type) where
  models : M → S
  queue : List (Op K) := []
  journal : List WireRecord := []
  /-- The records of a chain of appends that are still to come, none where there is no chain. -/
  persistQueue : Option (List WireRecord) := none
  /-- What the subscribers to the next events that are published dispatch. -/
  reactions : List (List (List (Op K))) := []
  applied : List (Applied K) := []

def MAX_DRAIN : Nat := 100

namespace Registry

variable (registry : Registry K M S)

def journaled (op : Op K) : WireRecord :=
  let record := opToWireRecord (registry.name op.type) op.payload
  (registry.dehydrate (registry.model op.type)).elim record fun dehydrate => dehydrate record

/-- The reducers of an op, its own first. -/
def reducers [DecidableEq M] (type : K) : List (M × Reducer K S) :=
  (registry.model type, registry.apply type) ::
    (registry.crossReducers type).filter fun entry => entry.1 ≠ registry.model type

end Registry

namespace WireService

variable [DecidableEq M] (registry : Registry K M S)

/-- A reducer runs; what it dispatches is queued. -/
def reduce (entry : M × Reducer K S) (payload : Json) (wire : WireService K M S) : WireService K M S × Bool :=
  let reduction := entry.2 (wire.models entry.1) payload
  let wire := { wire with queue := wire.queue ++ reduction.calls.flatten }
  match reduction.result with
  | none => (wire, false)
  | some state => ({ wire with models := Function.update wire.models entry.1 state }, true)

def reduceAll (payload : Json) : List (M × Reducer K S) → WireService K M S → WireService K M S × Bool
  | [], wire => (wire, true)
  | entry :: entries, wire =>
    match wire.reduce entry payload with
    | (wire, true) => reduceAll payload entries wire
    | (wire, false) => (wire, false)

def appendToJournal (op : Op K) (wire : WireService K M S) : WireService K M S :=
  let record := registry.journaled op
  match registry.dehydrate (registry.model op.type), wire.persistQueue with
  | none, none => { wire with journal := wire.journal ++ [record] }
  | _, chain => { wire with persistQueue := some (chain.getD [] ++ [record]) }

def publish (wire : WireService K M S) : WireService K M S :=
  { wire with
    queue := wire.queue ++ (wire.reactions.headD []).flatten
    reactions := wire.reactions.tail }

def note (op : Op K) (complete : Bool) (wire : WireService K M S) : WireService K M S :=
  { wire with applied := wire.applied ++ [⟨op, complete⟩] }

/-- One op of a group, and whether nothing has thrown. -/
def executeOp (op : Op K) (wire : WireService K M S) : WireService K M S × Bool :=
  match wire.reduce (registry.model op.type, registry.apply op.type) op.payload with
  | (wire, false) => (wire, false)
  | (wire, true) =>
    let wire := if registry.persist op.type then wire.appendToJournal registry op else wire
    let others := (registry.crossReducers op.type).filter fun entry => entry.1 ≠ registry.model op.type
    match registry.toEvent op.type op.payload (wire.models (registry.model op.type)) with
    | none => (wire.note op others.isEmpty, false)
    | some published =>
      let crossed := reduceAll op.payload others (if published then wire.publish else wire)
      (crossed.1.note op crossed.2, crossed.2)

def execute : List (Op K) → WireService K M S → WireService K M S × Bool
  | [], wire => (wire, true)
  | op :: ops, wire =>
    match wire.executeOp registry op with
    | (wire, true) => execute ops wire
    | (wire, false) => (wire, false)

/-- The loop of `dispatch`, with the rounds that are left before it throws. -/
def drain : Nat → WireService K M S → WireService K M S × Bool
  | 0, wire => (wire, wire.queue.isEmpty)
  | rounds + 1, wire =>
    if wire.queue.isEmpty then (wire, true)
    else
      match { wire with queue := [] }.execute registry wire.queue with
      | (wire, true) => drain rounds wire
      | (wire, false) => (wire, false)

/-- A call of `dispatch` from outside of another. -/
def dispatch (ops : List (Op K)) (wire : WireService K M S) : WireService K M S × Bool :=
  if ops.isEmpty then (wire, true)
  else
    let executed := wire.execute registry ops
    let drained := if executed.2 then executed.1.drain registry MAX_DRAIN else executed
    ({ drained.1 with queue := [] }, drained.2)

end WireService

end Echadron.Wire
