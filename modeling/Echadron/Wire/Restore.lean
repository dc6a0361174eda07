import Echadron.Wire.Migration
import Echadron.Wire.WireReplay

namespace Echadron.Wire
open Lib

/-! Restoring a journal of any version, in one pass. -/

def isWireRecord : Json → Option WireRecord
  | .obj fields => if (recordType fields).isSome then some fields else none
  | _ => none

def createWireMetadataRecord (now : String) : LiveRecord :=
  [("type", .json (.str "metadata")), ("protocol_version", .json (.str WIRE_PROTOCOL_VERSION)),
    ("created_at", .json (.num now))]

def isWireMetadataRecord (record : WireRecord) : Option String :=
  match record.lookup "protocol_version", record.lookup "created_at" with
  | some (.str version), some (.num _) => some version
  | _, _ => none

/-- What `wireRecordToPayload` gives: a value that stands for a payload without fields, or fields. -/
inductive LivePayload where
  | value (value : FieldValue)
  | fields (fields : LiveRecord)

def livePayload (record : LiveRecord) : LivePayload :=
  match record.filter fun field => field.1 ≠ "type" ∧ field.1 ≠ "time" with
  | [("payload", payload)] => .value payload
  | fields => .fields fields

/-- What the pass works with. The schemas are given as they are on payloads before their record is
written. -/
structure RestoreRules (K M S : Type) where
  registry : Registry K M S
  schema : K → LivePayload → Option Json
  text : TextRules

section
variable [DecidableEq M] (rules : RestoreRules K M S)

/-- None where a reducer throws; what is not understood is passed over. -/
def replayLive (wire : WireService K M S) (record : LiveRecord) : Option (WireService K M S) :=
  match (liveType record).bind rules.registry.find with
  | none => some wire
  | some type =>
    match rules.schema type (livePayload record) with
    | none => some wire
    | some payload => (rules.registry.reducers type).foldlM (WireService.replayReduce rules.registry payload) wire

structure Restoring (K M S : Type) where
  wire : WireService K M S
  migrations : List WireMigration := []
  rewrittenRecords : Option (List LiveRecord) := none
  newerWireVersion : Bool := false
  hasRecords : Bool := false
  /-- The records that were replayed. -/
  replayed : List LiveRecord := []

def openJournal (text : TextRules) (now : String) (source : WireRecord) (r : Restoring K M S) :
    Option (Restoring K M S) :=
  if recordType source ≠ some "metadata" then
    some { r with
      hasRecords := true
      rewrittenRecords := some [createWireMetadataRecord now]
      migrations := [migrateV1_4ToV1_5] }
  else do
    let version ← isWireMetadataRecord source
    if isNewerWireVersion text version then
      some { r with
        hasRecords := true
        newerWireVersion := true }
    else
      let migrations ← resolveWireMigrations text version
      some { r with
        hasRecords := true
        migrations
        rewrittenRecords := if version ≠ WIRE_PROTOCOL_VERSION then some [] else r.rewrittenRecords }

def stamp (newerWireVersion : Bool) (migrated : LiveRecord) : LiveRecord :=
  if !newerWireVersion && liveType migrated = some "metadata" then
    setField migrated "protocol_version" (.json (.str WIRE_PROTOCOL_VERSION))
  else migrated

def restoreRecord (r : Restoring K M S) (source : WireRecord) : Option (Restoring K M S) := do
  let migrated ← migrateWireRecord (live source) r.migrations
  let record := stamp r.newerWireVersion migrated
  let pushed := { r with rewrittenRecords := r.rewrittenRecords.map (· ++ [record]) }
  if liveType record = some "metadata" then some pushed
  else
    let wire ← replayLive rules pushed.wire record
    some { pushed with
      wire
      replayed := pushed.replayed ++ [record] }

def restoreLine (now : String) (r : Restoring K M S) (candidate : Json) : Option (Restoring K M S) :=
  match isWireRecord candidate with
  | none => some r
  | some source => do
    let opened ← if r.hasRecords then some r else openJournal rules.text now source r
    restoreRecord rules opened source

/-- What a restore leaves: the models, and the journal if it is rewritten. -/
structure Restored (K M S : Type) where
  wire : WireService K M S
  rewritten : Option (List LiveRecord)
  replayed : List LiveRecord

def restoreJournal (now : String) (journal : List Json) : Option (Restored K M S) := do
  let r ← journal.foldlM (restoreLine rules now) { wire := { models := rules.registry.initial } }
  let rewritten := if r.hasRecords then r.rewrittenRecords else some [createWireMetadataRecord now]
  some {
    wire := r.wire.rehydrateModels rules.registry
    rewritten
    replayed := r.replayed }

def Restored.journal (restored : Restored K M S) (journal : List Json) : List Json :=
  match restored.rewritten with
  | none => journal
  | some records => records.map fun record => .obj (stringify record)

end

end Echadron.Wire
