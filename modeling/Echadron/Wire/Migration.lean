import Echadron.Lib.JsValue
import Echadron.Wire.WireService

namespace Echadron.Wire
open Lib

/-! Wire migrations. Records are read from a journal, and a migration may give a field a value that
is not of JSON. A field that is undefined is left out. -/

/-- A value of JSON, or a property that every object inherits. -/
inductive FieldValue where
  | json (value : Json)
  | inherited (name : String)
deriving DecidableEq

abbrev LiveRecord := List (String × FieldValue)

def live (record : WireRecord) : LiveRecord := record.map fun field => (field.1, .json field.2)

/-- What `JSON.stringify` keeps of a value: a function is left out. -/
def FieldValue.toJson : FieldValue → Option Json
  | .json value => some value
  | .inherited name => if name = "__proto__" then some (.obj []) else none

def stringify (record : LiveRecord) : WireRecord :=
  record.filterMap fun field => field.2.toJson.map fun value => (field.1, value)

/-- A property is set where it stands, or put at the end. -/
def setField {V : Type} (fields : List (String × V)) (key : String) (value : V) : List (String × V) :=
  if key ∈ fields.map Prod.fst then fields.map fun old => if old.1 = key then (key, value) else old
  else fields ++ [(key, value)]

def setOptional {V : Type} (fields : List (String × V)) (key : String) : Option V → List (String × V)
  | none => fields.filter fun field => field.1 ≠ key
  | some value => setField fields key value

/-- `Number(text)`, and the text of a property key, none where it has none. -/
structure TextRules where
  number : String → JsNumber
  number_digit : ∀ n : Nat, n < 10 → number (Nat.repr n) = .finite n
  propertyKey : Option Json → Option String
  propertyKey_str : ∀ s, propertyKey (some (.str s)) = some s

/-- A migration of a record, none where it throws. -/
structure WireMigration where
  sourceVersion : String
  targetVersion : String
  migrateRecord : LiveRecord → Option LiveRecord

def fieldJson (record : LiveRecord) (key : String) : Option Json :=
  (record.lookup key).bind fun value =>
    match value with
    | .json value => some value
    | .inherited _ => none

def liveType (record : LiveRecord) : Option String :=
  match record.lookup "type" with
  | some (.json (.str type)) => some type
  | _ => none

/-! 1.0 to 1.1: the function of a tool call is taken apart. -/

/-- The fields of a value that an access to a property finds, none of `null`. -/
def Json.properties : Json → Option (List (String × Json))
  | .null => none
  | .obj fields => some fields
  | _ => some []

/-- A tool call that is `null` or has no function throws. -/
def migrateToolCall : Json → Option Json
  | .obj fields => do
    let fn ← fields.lookup "function"
    let parts ← Json.properties fn
    let rest := fields.filter fun field => field.1 ≠ "function"
    some (.obj (setOptional (setOptional rest "name" (parts.lookup "name"))
      "arguments" (parts.lookup "arguments")))
  | _ => none

def migrateToolCalls : Json → Option Json
  | .obj message =>
    match message.lookup "toolCalls" with
    | some (.arr toolCalls) => do
      let toolCalls ← toolCalls.mapM migrateToolCall
      some (.obj (setField message "toolCalls" (.arr toolCalls)))
    | _ => none
  | _ => none

def migrateV1_0ToV1_1 : WireMigration where
  sourceVersion := "1.0"
  targetVersion := "1.1"
  migrateRecord record :=
    if liveType record = some "context.append_message" then do
      let message ← fieldJson record "message"
      let message ← migrateToolCalls message
      some (setField record "message" (.json message))
    else some record

/-! 1.1 to 1.2: the rule of an approval for the session is derived. -/

def LEGACY_SESSION_APPROVAL_ACTION_TO_PATTERN : List (String × String) :=
  [("run command", "Bash"), ("stop background task", "TaskStop"), ("edit file", "Write"),
    ("edit file outside of working directory", "Write"), ("write file", "Write")]

def LEGACY_SESSION_APPROVAL_UNRESTORABLE_ACTIONS : List String :=
  ["run command in plan mode", "run background command"]

/-- The properties of `Object.prototype`. -/
def INHERITED_PROPERTIES : List String :=
  ["constructor", "__defineGetter__", "__defineSetter__", "hasOwnProperty", "__lookupGetter__",
    "__lookupSetter__", "isPrototypeOf", "propertyIsEnumerable", "toString", "valueOf", "__proto__",
    "toLocaleString"]

/-- A property of the table of patterns. -/
def legacyPattern (key : String) : Option FieldValue :=
  match LEGACY_SESSION_APPROVAL_ACTION_TO_PATTERN.lookup key with
  | some pattern => some (.json (.str pattern))
  | none => if key ∈ INHERITED_PROPERTIES then some (.inherited key) else none

/-- Whether the rule is missing of an approval for the session, none where the result has no
properties. -/
def lacksSessionRule (record : LiveRecord) : Option Bool := do
  let result ← fieldJson record "result"
  let result ← Json.properties result
  some (result.lookup "decision" = some (.str "approved") ∧ result.lookup "scope" = some (.str "session")
    ∧ record.lookup "sessionApprovalRule" = none)

def migrateV1_1ToV1_2 (text : TextRules) : WireMigration where
  sourceVersion := "1.1"
  targetVersion := "1.2"
  migrateRecord record :=
    if liveType record = some "permission.record_approval_result" then do
      let lacks ← lacksSessionRule record
      if lacks then
        let action := fieldJson record "action"
        if action.any fun action =>
            LEGACY_SESSION_APPROVAL_UNRESTORABLE_ACTIONS.any fun legacy => action = .str legacy then
          some record
        else
          let key ← text.propertyKey action
          match (legacyPattern key).or (record.lookup "toolName") with
          | none => some record
          | some pattern => some (setField record "sessionApprovalRule" pattern)
      else some record
    else some record

def migrateV1_2ToV1_3 : WireMigration where
  sourceVersion := "1.2"
  targetVersion := "1.3"
  migrateRecord record := some record

/-! 1.3 to 1.4: the records of goals are folded into updates. -/

section

variable (record : LiveRecord)

def pickFields (keys : List String) : LiveRecord :=
  keys.filterMap fun key => (record.lookup key).map fun value => (key, value)

def migrateGoal (type : String) (keys : List String) : LiveRecord :=
  ("type", .json (.str type)) :: pickFields record keys

def migrateGoalCreate : LiveRecord :=
  migrateGoal record "goal.create" ["goalId", "objective", "completionCriterion", "time"]

def migrateGoalUpdate : LiveRecord :=
  migrateGoal record "goal.update"
    ["status", "reason", "turnsUsed", "tokensUsed", "wallClockMs", "actor", "time"]

def migrateGoalAccountUsage : LiveRecord := migrateGoal record "goal.update" ["tokensUsed", "wallClockMs", "time"]

def migrateGoalContinuation : LiveRecord := migrateGoal record "goal.update" ["turnsUsed", "time"]

def migrateGoalClear : LiveRecord := migrateGoal record "goal.clear" ["time"]

end

def migrateV1_3ToV1_4 : WireMigration where
  sourceVersion := "1.3"
  targetVersion := "1.4"
  migrateRecord record := some <|
    match liveType record with
    | some "goal.create" => migrateGoalCreate record
    | some "goal.update" => migrateGoalUpdate record
    | some "goal.account_usage" => migrateGoalAccountUsage record
    | some "goal.continuation" => migrateGoalContinuation record
    | some "goal.clear" => migrateGoalClear record
    | _ => record

/-! 1.4 to 1.5: the anchors of active intervals are filled in. -/

def isNumber : FieldValue → Bool
  | .json (.num _) => true
  | _ => false

def advancesActiveInterval (record : LiveRecord) : Bool :=
  liveType record = some "goal.create" ||
    liveType record = some "goal.update" &&
      (record.lookup "status" = some (.json (.str "active")) ||
        record.lookup "status" = none && (record.lookup "wallClockMs").any isNumber)

def migrateV1_4ToV1_5 : WireMigration where
  sourceVersion := "1.4"
  targetVersion := "1.5"
  migrateRecord record := some <|
    if !advancesActiveInterval record then record
    else if (record.lookup "wallClockResumedAt").isSome then record
    else
      match record.lookup "time" with
      | some (.json (.num time)) => setField record "wallClockResumedAt" (.json (.num time))
      | _ => record

def WIRE_PROTOCOL_VERSION : String := "1.5"

def MIGRATIONS (text : TextRules) : List WireMigration :=
  [migrateV1_0ToV1_1, migrateV1_1ToV1_2 text, migrateV1_2ToV1_3, migrateV1_3ToV1_4, migrateV1_4ToV1_5]

def difference : (a b : JsNumber) → Option Ordering
  | .nan, _ | _, .nan | .infinity, .infinity | .negInfinity, .negInfinity => none
  | .finite p, .finite q => some (compare p q)
  | .infinity, _ | _, .negInfinity => some .gt
  | .negInfinity, _ | _, .infinity => some .lt

def versionParts (version : String) : List String := (version.toList.splitOn '.').map String.ofList

def compareWireVersions (text : TextRules) (a b : String) : Option Ordering :=
  let partsA := versionParts a
  let partsB := versionParts b
  let differences := (List.range (max partsA.length partsB.length)).map fun i =>
    difference (text.number (partsA.getD i "0")) (text.number (partsB.getD i "0"))
  (differences.find? fun diff => diff ≠ some .eq).getD (some .eq)

def isNewerWireVersion (text : TextRules) (readVersion : String) : Bool :=
  compareWireVersions text readVersion WIRE_PROTOCOL_VERSION = some .gt

def findMigration (text : TextRules) (sourceVersion : String) : Option WireMigration :=
  (MIGRATIONS text).find? fun migration => migration.sourceVersion = sourceVersion

/-- The loop of `resolveWireMigrations`, which goes through each migration once at most. -/
def resolveFrom (text : TextRules) : Nat → String → Option (List WireMigration)
  | 0, _ => some []
  | rounds + 1, version =>
    if compareWireVersions text version WIRE_PROTOCOL_VERSION = some .lt then do
      let migration ← findMigration text version
      let rest ← resolveFrom text rounds migration.targetVersion
      some (migration :: rest)
    else some []

/-- None where a migration is missing. -/
def resolveWireMigrations (text : TextRules) (readVersion : String) : Option (List WireMigration) :=
  resolveFrom text (MIGRATIONS text).length readVersion

def migrateWireRecord (record : LiveRecord) (migrations : List WireMigration) : Option LiveRecord :=
  migrations.foldlM (fun current migration => migration.migrateRecord current) record

end Echadron.Wire
