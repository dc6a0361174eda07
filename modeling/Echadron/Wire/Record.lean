import Echadron.Lib.JsMap
import Echadron.Lib.Json

namespace Echadron.Wire
open Lib List Option

/-! The record of an op with its time. A property without a value is `undefined`. -/

abbrev TimedRecord := List (String × Option Json)

/-- An object has no key twice. -/
def DistinctKeys : Option Json → Prop
  | some (.obj fields) => (fields.map Prod.fst).Nodup
  | _ => True

/-- A payload is a JSON value or `undefined`. -/
structure WirePayload where
  value : Option Json
  distinct : DistinctKeys value

/-- A property is set where it stands, or put at the end. -/
def assignField (record : TimedRecord) (field : String × Option Json) : TimedRecord :=
  if field.1 ∈ record.map Prod.fst then record.map fun old => if old.1 = field.1 then field else old
  else record ++ [field]

def defined (fields : List (String × Json)) : TimedRecord := fields.map fun field => (field.1, some field.2)

def untimedRecord (type : String) : Option Json → TimedRecord
  | some (.obj fields) => (defined fields).foldl assignField [("type", some (.str type))]
  | payload => [("type", some (.str type)), ("payload", payload)]

def opToTimedRecord (type : String) (payload : Option Json) (now : Json) : TimedRecord :=
  let record := untimedRecord type payload
  if (record.lookup "time").join = none then assignField record ("time", some now) else record

/-- The fields that belong to the record and not to the payload. -/
def isReserved (key : String) : Bool := decide (key = "type") || decide (key = "time")

def payloadFields (record : TimedRecord) : TimedRecord := record.filter fun field => !isReserved field.1

/-- The only record with a field that has no value is that of an `undefined` payload. -/
def payloadOf : TimedRecord → Option Json
  | [("payload", payload)] => payload
  | fields => some (.obj (fields.filterMap fun field => field.2.map (field.1, ·)))

def timedRecordToPayload (record : TimedRecord) : Option Json := payloadOf (payloadFields record)

def timedRecordType (record : TimedRecord) : Option Json := (record.lookup "type").join

variable {record : TimedRecord} {field : String × Option Json} {key : String}

theorem payloadFields_replace (h : isReserved field.1 = true) :
    payloadFields (record.map fun old => if old.1 = field.1 then field else old) = payloadFields record := by
  unfold payloadFields
  induction record with
  | nil => rfl
  | cons old record ih =>
    rw [map_cons]
    by_cases hold : old.1 = field.1
    · rw [if_pos hold, filter_cons_of_neg (by simp [h]), filter_cons_of_neg (by simp [hold, h]), ih]
    · rw [if_neg hold, filter_cons, filter_cons, ih]

theorem payloadFields_assign_reserved (h : isReserved field.1 = true) :
    payloadFields (assignField record field) = payloadFields record := by
  rw [assignField]
  split_ifs
  · exact payloadFields_replace h
  · rw [payloadFields, filter_append, filter_cons_of_neg (by simp [h])]
    exact append_nil _

theorem payloadFields_assign_new (h : field.1 ∉ record.map Prod.fst) :
    payloadFields (assignField record field) = payloadFields record ++ payloadFields [field] := by
  rw [assignField, if_neg h]
  exact filter_append ..

theorem mem_keys_assignField (h : key ∈ (assignField record field).map Prod.fst) :
    key = field.1 ∨ key ∈ record.map Prod.fst := by
  rw [assignField] at h
  split_ifs at h with hin
  · obtain ⟨old', hmem, rfl⟩ := mem_map.mp h
    obtain ⟨old, hold, rfl⟩ := mem_map.mp hmem
    split_ifs
    · exact .inl rfl
    · exact .inr (mem_map_of_mem hold)
  · rw [map_append, mem_append] at h
    rcases h with hold | hnew
    · exact .inr hold
    · exact .inl (mem_singleton.mp hnew)

theorem payloadFields_spread (hdistinct : (fields.map Prod.fst).Nodup)
    (hnew : ∀ field ∈ fields, isReserved field.1 = false → field.1 ∉ record.map Prod.fst) :
    payloadFields (fields.foldl assignField record) = payloadFields record ++ payloadFields fields := by
  induction fields generalizing record with
  | nil => exact (append_nil _).symm
  | cons field fields ih =>
    obtain ⟨hfirst, hrest⟩ := nodup_cons.mp hdistinct
    have hlater : ∀ later ∈ fields, isReserved later.1 = false → later.1 ∉ (assignField record field).map Prod.fst := by
      intro later hmem hopen hin
      rcases mem_keys_assignField hin with heq | hold
      · exact hfirst (heq ▸ mem_map_of_mem hmem)
      · exact hnew later (mem_cons_of_mem _ hmem) hopen hold
    have hsplit : payloadFields (field :: fields) = payloadFields [field] ++ payloadFields fields :=
      filter_append [field] fields
    rw [foldl_cons, ih hrest hlater, hsplit, ← append_assoc]
    apply congrArg (· ++ payloadFields fields)
    cases hreserved : isReserved field.1 with
    | true =>
      have hnone : payloadFields [field] = [] := filter_cons_of_neg (by simp [hreserved])
      rw [payloadFields_assign_reserved hreserved, hnone, append_nil]
    | false => exact payloadFields_assign_new (hnew field mem_cons_self hreserved)

theorem payloadFields_timed (type : String) (payload : Option Json) (now : Json) :
    payloadFields (opToTimedRecord type payload now) = payloadFields (untimedRecord type payload) := by
  rw [opToTimedRecord]
  split_ifs
  · exact payloadFields_assign_reserved rfl
  · rfl

theorem payloadFields_object (hdistinct : (fields.map Prod.fst).Nodup) (type : String) :
    payloadFields (untimedRecord type (some (.obj fields))) = payloadFields (defined fields) := by
  have hkeys : (defined fields).map Prod.fst = fields.map Prod.fst := by
    rw [defined, List.map_map]
    rfl
  rw [untimedRecord, payloadFields_spread]
  · rfl
  · rw [hkeys]
    exact hdistinct
  · intro field _ hopen hin
    rw [map_singleton, mem_singleton] at hin
    rw [hin] at hopen
    cases hopen

def RoundTrips : Option Json → Prop
  | some (.obj fields) => (∀ key ∈ fields.map Prod.fst, isReserved key = false) ∧ fields.map Prod.fst ≠ ["payload"]
  | _ => True

def LeavesType (type : String) : Option Json → Prop
  | some (.obj fields) => ∀ value, ("type", value) ∈ fields → value = .str type
  | _ => True

theorem payloadFields_defined (fields : List (String × Json)) :
    payloadFields (defined fields) = defined (fields.filter fun field => !isReserved field.1) := filter_map

theorem payloadOf_lone (payload : Option Json) : payloadOf [("payload", payload)] = payload := rfl

theorem payloadOf_defined (h : fields.map Prod.fst ≠ ["payload"]) :
    payloadOf (defined fields) = some (.obj fields) := by
  have hread : (defined fields).filterMap (fun field => field.2.map (field.1, ·)) = fields := by
    rw [defined, filterMap_map]
    exact filterMap_some
  unfold payloadOf
  split
  · rename_i payload heq
    have hkeys := congrArg (map Prod.fst) heq
    rw [defined, List.map_map] at hkeys
    exact absurd hkeys h
  · rw [hread]

theorem not_mem_own_fields : (key, Json.obj fields) ∉ fields := by
  intro h
  have hsize := sizeOf_lt_of_mem h
  simp at hsize
  omega

theorem roundTrips_object (hdistinct : (fields.map Prod.fst).Nodup) (type : String) (now : Json) :
    timedRecordToPayload (opToTimedRecord type (some (.obj fields)) now) = some (.obj fields) ↔
      RoundTrips (some (.obj fields)) := by
  rw [timedRecordToPayload, payloadFields_timed, payloadFields_object hdistinct, payloadFields_defined]
  constructor
  · intro h
    by_cases hlone : (fields.filter fun field => !isReserved field.1).map Prod.fst = ["payload"]
    · obtain ⟨field, hkept, hkey⟩ := map_eq_singleton_iff.mp hlone
      have hmem : field ∈ fields := mem_of_mem_filter (hkept ▸ mem_singleton_self field)
      have hvalue : some field.2 = some (Json.obj fields) := by
        rw [← h, hkept, ← payloadOf_lone (some field.2), ← hkey]
        rfl
      have hself : field = (field.1, Json.obj fields) := by rw [← some.inj hvalue]
      rw [hself] at hmem
      exact absurd hmem not_mem_own_fields
    · rw [payloadOf_defined hlone] at h
      have hkept := Json.obj.inj (some.inj h)
      rw [hkept] at hlone
      refine ⟨?_, hlone⟩
      intro key hkey
      obtain ⟨field, hmem, rfl⟩ := mem_map.mp hkey
      have hopen := filter_eq_self.mp hkept field hmem
      rwa [Bool.not_eq_true'] at hopen
  · rintro ⟨hopen, hlone⟩
    have hkept : fields.filter (fun field => !isReserved field.1) = fields := by
      apply filter_eq_self.mpr
      intro field hmem
      rw [hopen field.1 (mem_map_of_mem hmem)]
      rfl
    rw [hkept, payloadOf_defined hlone]

theorem lookup_replace_of_ne (h : key ≠ field.1) :
    (record.map fun old => if old.1 = field.1 then field else old).lookup key = record.lookup key := by
  induction record with
  | nil => rfl
  | cons old record ih =>
    rw [map_cons, lookup_cons, lookup_cons, ih]
    by_cases hold : old.1 = field.1
    · rw [if_pos hold, hold]
      have hne : (key == field.1) = false := beq_false_of_ne h
      rw [hne]
    · rw [if_neg hold]

theorem lookup_replace_self (h : field.1 ∈ record.map Prod.fst) :
    (record.map fun old => if old.1 = field.1 then field else old).lookup field.1 = some field.2 := by
  induction record with
  | nil => cases h
  | cons old record ih =>
    rw [map_cons, lookup_cons]
    by_cases hold : old.1 = field.1
    · rw [if_pos hold, beq_self_eq_true]
    · have hne : (field.1 == old.1) = false := beq_false_of_ne (Ne.symm hold)
      rw [if_neg hold, hne]
      apply ih
      rcases mem_cons.mp h with heq | hmem
      · exact absurd heq.symm hold
      · exact hmem

theorem lookup_assignField (record : TimedRecord) (field : String × Option Json) (key : String) :
    (assignField record field).lookup key = if key = field.1 then some field.2 else record.lookup key := by
  rw [assignField]
  by_cases hin : field.1 ∈ record.map Prod.fst
  · rw [if_pos hin]
    by_cases hkey : key = field.1
    · rw [if_pos hkey, hkey, lookup_replace_self hin]
    · rw [if_neg hkey, lookup_replace_of_ne hkey]
  · rw [if_neg hin, lookup_append, lookup_cons]
    by_cases hkey : key = field.1
    · have hnone : record.lookup field.1 = none := by
        rw [lookup_eq_none_iff]
        intro old hold
        apply bne_iff_ne.mpr
        rintro heq
        exact hin (heq ▸ mem_map_of_mem hold)
      rw [if_pos hkey, hkey, hnone, beq_self_eq_true]
      rfl
    · have hne : (key == field.1) = false := beq_false_of_ne hkey
      rw [if_neg hkey, hne]
      exact or_none

theorem lookup_spread {fields : TimedRecord} (hdistinct : (fields.map Prod.fst).Nodup) :
    (fields.foldl assignField record).lookup key = (fields.lookup key).or (record.lookup key) := by
  induction fields generalizing record with
  | nil => rfl
  | cons field fields ih =>
    obtain ⟨hfirst, hrest⟩ := nodup_cons.mp hdistinct
    rw [foldl_cons, ih hrest, lookup_assignField, lookup_cons]
    by_cases hkey : key = field.1
    · have hnone : fields.lookup key = none := by
        rw [lookup_eq_none_iff]
        intro later hlater
        apply bne_iff_ne.mpr
        rintro heq
        exact hfirst (hkey ▸ heq ▸ mem_map_of_mem hlater)
      have hhit : (key == field.1) = true := beq_iff_eq.mpr hkey
      rw [if_pos hkey, hnone, hhit]
      rfl
    · have hmiss : (key == field.1) = false := beq_false_of_ne hkey
      rw [if_neg hkey, hmiss]

theorem timedRecordType_timed (type : String) (payload : Option Json) (now : Json) :
    timedRecordType (opToTimedRecord type payload now) = timedRecordType (untimedRecord type payload) := by
  rw [opToTimedRecord]
  split_ifs
  · rw [timedRecordType, lookup_assignField]
    rfl
  · rfl

theorem lookup_defined : (defined fields).lookup key = (fields.lookup key).map some := by
  induction fields with
  | nil => rfl
  | cons field fields ih =>
    rw [defined, map_cons, lookup_cons, lookup_cons]
    cases key == field.1 with
    | true => rfl
    | false => exact ih

theorem leavesType_object {fields : List (String × Json)} (hdistinct : (fields.map Prod.fst).Nodup) (type : String)
    (now : Json) :
    timedRecordType (opToTimedRecord type (some (.obj fields)) now) = some (.str type) ↔
      LeavesType type (some (.obj fields)) := by
  have hkeys : ((defined fields).map Prod.fst).Nodup := by
    rw [defined, List.map_map]
    exact hdistinct
  rw [timedRecordType_timed, timedRecordType, untimedRecord, lookup_spread hkeys, lookup_defined]
  cases hlookup : fields.lookup "type" with
  | none =>
    constructor
    · intro _ value hmem
      have hmiss := lookup_eq_none_iff.mp hlookup ("type", value) hmem
      simp at hmiss
    · intro _
      rfl
  | some found =>
    have hfound := (JsMap.lookup_eq_some_iff_mem hdistinct "type" found).mp hlookup
    change some found = some (.str type) ↔ _
    rw [some.injEq]
    constructor
    · intro heq value hmem
      have hvalue := (JsMap.lookup_eq_some_iff_mem hdistinct "type" value).mpr hmem
      rw [hlookup] at hvalue
      rw [← some.inj hvalue, heq]
    · intro h
      exact h found hfound

/-- What a record gives back of the op it was made of. -/
theorem opToTimedRecord_reads (type : String) (payload : WirePayload) (now : Json) :
    (timedRecordToPayload (opToTimedRecord type payload.value now) = payload.value ↔ RoundTrips payload.value) ∧
      (timedRecordType (opToTimedRecord type payload.value now) = some (.str type) ↔ LeavesType type payload.value) := by
  obtain ⟨value, hdistinct⟩ := payload
  have hplain (h : ∀ fields, value ≠ some (.obj fields)) :
      untimedRecord type value = [("type", some (.str type)), ("payload", value)] ∧ RoundTrips value ∧
        LeavesType type value := by
    cases value with
    | none => exact ⟨rfl, trivial, trivial⟩
    | some json =>
      cases json with
      | obj fields => exact absurd rfl (h fields)
      | _ => exact ⟨rfl, trivial, trivial⟩
  by_cases hobject : ∃ fields, value = some (.obj fields)
  · obtain ⟨fields, rfl⟩ := hobject
    exact ⟨roundTrips_object hdistinct type now, leavesType_object hdistinct type now⟩
  · obtain ⟨hrecord, hround, hleaves⟩ := hplain fun fields heq => hobject ⟨fields, heq⟩
    rw [timedRecordToPayload, payloadFields_timed, timedRecordType_timed, hrecord]
    exact ⟨⟨fun _ => hround, fun _ => rfl⟩, ⟨fun _ => hleaves, fun _ => rfl⟩⟩

def timeField : WirePayload := ⟨some (.obj [("time", .num "1"), ("turn", .num "2")]), by simp [DistinctKeys]⟩

def typeField : WirePayload := ⟨some (.obj [("type", .str "note")]), nodup_singleton _⟩

def loneField : WirePayload := ⟨some (.obj [("payload", .str "note")]), nodup_singleton _⟩

/-- Fields of the record's own and a lone `payload` are taken for what they are named like. -/
theorem opToTimedRecord_loses :
    timedRecordToPayload (opToTimedRecord "op" timeField.value (.num "9")) ≠ timeField.value ∧
      timedRecordType (opToTimedRecord "op" typeField.value (.num "9")) ≠ some (.str "op") ∧
      timedRecordToPayload (opToTimedRecord "op" loneField.value (.num "9")) ≠ loneField.value := by
  decide +kernel

end Echadron.Wire
