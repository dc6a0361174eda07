import Echadron.Wire.Migration

namespace Echadron.Wire
open Lib List Option

/-! What the migrations do to the records that they are given. -/

section
variable {V : Type} {fields : List (String × V)}

theorem lookup_setField_self (fields : List (String × V)) (key : String) (value : V) :
    (setField fields key value).lookup key = some value := by
  unfold setField
  split
  · rename_i hmem
    induction fields with
    | nil => exact absurd hmem not_mem_nil
    | cons field fields ih =>
      rw [map_cons]
      by_cases heq : field.1 = key
      · rw [if_pos heq, lookup_cons_self]
      · rw [if_neg heq, lookup_cons, beq_eq_false_iff_ne.mpr (Ne.symm heq)]
        apply ih
        rw [map_cons, mem_cons] at hmem
        exact hmem.resolve_left (Ne.symm heq)
  · rename_i hmem
    induction fields with
    | nil => exact lookup_cons_self
    | cons field fields ih =>
      rw [map_cons, mem_cons, not_or] at hmem
      rw [cons_append, lookup_cons, beq_eq_false_iff_ne.mpr hmem.1]
      exact ih hmem.2

theorem lookup_setField_of_ne (fields : List (String × V)) (value : V) (hne : other ≠ key) :
    (setField fields key value).lookup other = fields.lookup other := by
  unfold setField
  split
  · clear * - hne
    induction fields with
    | nil => rfl
    | cons field fields ih =>
      rw [map_cons]
      by_cases heq : field.1 = key
      · rw [if_pos heq, lookup_cons, lookup_cons, ih, heq, beq_eq_false_iff_ne.mpr hne]
      · rw [if_neg heq, lookup_cons, lookup_cons, ih]
  · rw [lookup_append, lookup_cons, beq_eq_false_iff_ne.mpr hne, lookup_nil, or_none]

end

theorem lookup_live (record : WireRecord) (key : String) :
    (live record).lookup key = (record.lookup key).map .json := by
  induction record with
  | nil => rfl
  | cons field record ih =>
    rw [live, map_cons, lookup_cons, lookup_cons]
    cases key == field.1 with
    | true => rfl
    | false => exact ih

theorem fieldJson_live (record : WireRecord) (key : String) : fieldJson (live record) key = record.lookup key := by
  rw [fieldJson, lookup_live]
  cases record.lookup key <;> rfl

theorem liveType_live (record : WireRecord) : liveType (live record) = recordType record := by
  rw [liveType, lookup_live, recordType]
  cases record.lookup "type" with
  | none => rfl
  | some value => cases value <;> rfl

def Plain (record : LiveRecord) : Prop := ∀ field ∈ record, ∃ value, field.2 = .json value

theorem plain_live (record : WireRecord) : Plain (live record) := by
  intro field hfield
  obtain ⟨old, _, hold⟩ := mem_map.mp hfield
  subst hold
  exact ⟨old.2, rfl⟩

theorem live_stringify (h : Plain record) : live (stringify record) = record := by
  induction record with
  | nil => rfl
  | cons field record ih =>
    obtain ⟨value, hvalue⟩ := h field (mem_cons_self ..)
    obtain ⟨key, field⟩ := field
    subst hvalue
    have hrest := ih fun field hfield => h field (mem_cons_of_mem _ hfield)
    exact congrArg ((key, FieldValue.json value) :: ·) hrest

theorem Plain.of_live_stringify (h : live (stringify record) = record) : Plain record := by
  rw [← h]
  exact plain_live _

theorem lookup_stringify (h : record.lookup key = some (.json value)) :
    (stringify record).lookup key = some value := by
  induction record with
  | nil => exact absurd h.symm (some_ne_none _)
  | cons field record ih =>
    obtain ⟨name, field⟩ := field
    rw [lookup_cons] at h
    cases hkey : key == name with
    | true =>
      rw [hkey] at h
      cases h
      have hfirst : stringify ((name, FieldValue.json value) :: record) = (name, value) :: stringify record := rfl
      rw [hfirst, lookup_cons, hkey]
    | false =>
      rw [hkey] at h
      have hrest := ih h
      rw [stringify, filterMap_cons]
      cases (name, field).2.toJson with
      | none => exact hrest
      | some old =>
        dsimp only [map_some]
        rw [lookup_cons, hkey]
        exact hrest

theorem recordType_stringify (h : liveType record = some type) : recordType (stringify record) = some type := by
  have hlookup : record.lookup "type" = some (.json (.str type)) := by
    unfold liveType at h
    split at h
    · rename_i text htext
      rw [htext, some.inj h]
    · exact absurd h.symm (some_ne_none _)
  rw [recordType, lookup_stringify hlookup]

theorem Plain.setField (h : Plain record) (key : String) (value : Json) :
    Plain (setField record key (.json value)) := by
  intro field hfield
  unfold Wire.setField at hfield
  split at hfield
  · obtain ⟨old, hold, hnew⟩ := mem_map.mp hfield
    split at hnew
    · subst hnew
      exact ⟨value, rfl⟩
    · subst hnew
      exact h old hold
  · obtain hold | hnew := mem_append.mp hfield
    · exact h field hold
    · rw [mem_singleton.mp hnew]
      exact ⟨value, rfl⟩

theorem liveType_setField (record : LiveRecord) (value : FieldValue) (hne : key ≠ "type") :
    liveType (setField record key value) = liveType record := by
  rw [liveType, lookup_setField_of_ne record value (Ne.symm hne), liveType]

/-! The migrations from 1.2 on change the records of goals only, and throw on nothing. -/

def goalTypes : List String :=
  ["goal.create", "goal.update", "goal.account_usage", "goal.continuation", "goal.clear"]

structure WireMigration.Gentle (migration : WireMigration) : Prop where
  defined : ∀ record type, liveType record = some type → ∃ record',
    migration.migrateRecord record = some record' ∧
    (∃ type', liveType record' = some type' ∧ (type ∈ goalTypes → type' ∈ goalTypes)) ∧
    (type ∉ goalTypes → record' = record) ∧ (Plain record → Plain record')

theorem gentle_of_same {migration : WireMigration}
    (hsame : migration.migrateRecord record = some record) (htype : liveType record = some type) :
    ∃ record', migration.migrateRecord record = some record' ∧
      (∃ type', liveType record' = some type' ∧ (type ∈ goalTypes → type' ∈ goalTypes)) ∧
      (type ∉ goalTypes → record' = record) ∧ (Plain record → Plain record') :=
  ⟨record, hsame, ⟨type, htype, fun h => h⟩, fun _ => rfl, fun h => h⟩

theorem migrateV1_2ToV1_3_gentle : migrateV1_2ToV1_3.Gentle := ⟨fun _ _ htype => gentle_of_same rfl htype⟩

theorem plain_lookup (h : Plain record) (hlookup : record.lookup key = some value) : ∃ json, value = .json json := by
  obtain ⟨before, after, hrecord, _⟩ := lookup_eq_some_iff.mp hlookup
  apply h (key, value)
  rw [hrecord]
  exact mem_append_right before mem_cons_self

theorem plain_migrateGoal (h : Plain record) (type : String)
    (keys : List String) : Plain (migrateGoal record type keys) := by
  intro field hfield
  obtain hhead | htail := mem_cons.mp hfield
  · subst hhead
    exact ⟨.str type, rfl⟩
  · obtain ⟨key, _, hkey⟩ := mem_filterMap.mp htail
    obtain ⟨value, hvalue, hpair⟩ := map_eq_some_iff.mp hkey
    subst hpair
    exact plain_lookup h hvalue

theorem gentle_of_goal (hin : type ∈ goalTypes) (hin' : type' ∈ goalTypes) (keys : List String) :
    ∃ record', some (migrateGoal record type' keys) = some record' ∧
      (∃ type', liveType record' = some type' ∧ (type ∈ goalTypes → type' ∈ goalTypes)) ∧
      (type ∉ goalTypes → record' = record) ∧ (Plain record → Plain record') :=
  ⟨_, rfl, ⟨type', rfl, fun _ => hin'⟩, absurd hin,
    fun hplain => plain_migrateGoal hplain type' keys⟩

theorem migrateV1_3ToV1_4_gentle : migrateV1_3ToV1_4.Gentle := by
  constructor
  intro record type htype
  unfold migrateV1_3ToV1_4
  dsimp only
  rw [htype]
  split
  · rename_i heq
    cases heq
    exact gentle_of_goal (by decide) (by decide) _
  · rename_i heq
    cases heq
    exact gentle_of_goal (by decide) (by decide) _
  · rename_i heq
    cases heq
    exact gentle_of_goal (by decide) (by decide) _
  · rename_i heq
    cases heq
    exact gentle_of_goal (by decide) (by decide) _
  · rename_i heq
    cases heq
    exact gentle_of_goal (by decide) (by decide) _
  · exact ⟨record, rfl, ⟨type, htype, fun h => h⟩, fun _ => rfl, fun h => h⟩

theorem goal_of_advances (htype : liveType record = some type)
    (h : advancesActiveInterval record = true) : type ∈ goalTypes := by
  unfold advancesActiveInterval at h
  rw [htype, Bool.or_eq_true] at h
  obtain hcreate | hupdate := h
  · rw [some.inj (of_decide_eq_true hcreate)]
    decide
  · rw [some.inj (of_decide_eq_true (Bool.and_eq_true_iff.mp hupdate).1)]
    decide

theorem migrateV1_4ToV1_5_gentle : migrateV1_4ToV1_5.Gentle := by
  constructor
  intro record type htype
  have hsame : ∃ record', some record = some record' ∧
      (∃ type', liveType record' = some type' ∧ (type ∈ goalTypes → type' ∈ goalTypes)) ∧
      (type ∉ goalTypes → record' = record) ∧ (Plain record → Plain record') :=
    ⟨record, rfl, ⟨type, htype, fun h => h⟩, fun _ => rfl, fun h => h⟩
  unfold migrateV1_4ToV1_5
  dsimp only
  split
  · exact hsame
  · rename_i hadvances
    have hgoal : type ∈ goalTypes := goal_of_advances htype (by simpa using hadvances)
    split
    · exact hsame
    · split
      · rename_i time _
        refine ⟨_, rfl, ⟨type, ?_, fun h => h⟩, absurd hgoal, ?_⟩
        · rw [liveType_setField record _ (by decide), htype]
        · intro hplain
          exact hplain.setField "wallClockResumedAt" (.num time)
      · exact hsame

theorem migrateWireRecord_gentle
    (h : ∀ migration ∈ migrations, migration.Gentle)
    (htype : liveType record = some type) :
    ∃ record', migrateWireRecord record migrations = some record' ∧
      (∃ type', liveType record' = some type' ∧ (type ∈ goalTypes → type' ∈ goalTypes)) ∧
      (type ∉ goalTypes → record' = record) ∧ (Plain record → Plain record') := by
  induction migrations generalizing record type with
  | nil => exact ⟨record, rfl, ⟨type, htype, fun h => h⟩, fun _ => rfl, fun h => h⟩
  | cons migration migrations ih =>
    rw [forall_mem_cons] at h
    obtain ⟨next, hnext, ⟨type₁, htype₁, hgoal₁⟩, hsame₁, hplain₁⟩ := h.1.defined record type htype
    obtain ⟨record', hrest, ⟨type₂, htype₂, hgoal₂⟩, hsame₂, hplain₂⟩ := ih h.2 htype₁
    refine ⟨record', ?_, ⟨type₂, htype₂, fun hin => hgoal₂ (hgoal₁ hin)⟩, ?_,
      fun hplain => hplain₂ (hplain₁ hplain)⟩
    · rw [migrateWireRecord, foldlM_cons, hnext]
      exact hrest
    · intro hnot
      have hnext' := hsame₁ hnot
      subst hnext'
      obtain rfl := mem_unique htype htype₁
      exact hsame₂ hnot

/-! The first two migrations take records apart that other records are not. -/

/-- A message of a journal of version 1.0 has tool calls, each with its function. -/
def CallsWellFormed (source : WireRecord) : Prop :=
  ∃ message calls, source.lookup "message" = some (.obj message) ∧
    message.lookup "toolCalls" = some (.arr calls) ∧
    ∀ call ∈ calls, ∃ fields fn, call = .obj fields ∧ fields.lookup "function" = some fn ∧ fn ≠ .null

/-- An approval of a journal up to version 1.1 has a result, and where its rule is to be derived an
action that is a property key, but not of a property that every object inherits. -/
def ApprovalWellFormed (text : TextRules) (source : WireRecord) : Prop :=
  ∃ lacks, lacksSessionRule (live source) = some lacks ∧
    (lacks → (∃ legacy ∈ LEGACY_SESSION_APPROVAL_UNRESTORABLE_ACTIONS,
        source.lookup "action" = some (.str legacy)) ∨
      ∃ key, text.propertyKey (source.lookup "action") = some key ∧ key ∉ INHERITED_PROPERTIES)

theorem mapM_isSome {f : α → Option β} {as : List α} : (as.mapM f).isSome ↔ ∀ a ∈ as, (f a).isSome := by
  induction as with
  | nil => simp
  | cons a as ih =>
    rw [mapM_cons, forall_mem_cons, ← ih]
    cases f a with
    | none => simp
    | some b =>
      cases as.mapM f with
      | none => simp
      | some bs => simp

theorem properties_isSome (value : Json) : (Json.properties value).isSome ↔ value ≠ .null := by
  cases value <;> simp [Json.properties]

theorem migrateToolCall_isSome (call : Json) : (migrateToolCall call).isSome ↔
      ∃ fields fn, call = .obj fields ∧ fields.lookup "function" = some fn ∧ fn ≠ .null := by
  constructor
  · intro h
    cases call with
    | obj fields =>
      cases hfn : fields.lookup "function" with
      | none => simp [migrateToolCall, hfn] at h
      | some fn =>
        refine ⟨fields, fn, rfl, hfn, ?_⟩
        rw [← properties_isSome]
        cases hparts : Json.properties fn with
        | none => simp [migrateToolCall, hfn, hparts] at h
        | some parts => rfl
    | _ => cases h
  · intro h
    obtain ⟨fields, fn, hcall, hfn, hne⟩ := h
    obtain ⟨parts, hparts⟩ := isSome_iff_exists.mp ((properties_isSome fn).mpr hne)
    subst hcall
    simp [migrateToolCall, hfn, hparts]

theorem migrateToolCalls_isSome (message : Json) :
    (migrateToolCalls message).isSome ↔ ∃ fields calls, message = .obj fields ∧
      fields.lookup "toolCalls" = some (.arr calls) ∧
      ∀ call ∈ calls, (migrateToolCall call).isSome := by
  constructor
  · intro h
    cases message with
    | obj fields =>
      cases hcalls : fields.lookup "toolCalls" with
      | none => simp [migrateToolCalls, hcalls] at h
      | some value =>
        cases value with
        | arr calls =>
          refine ⟨fields, calls, rfl, hcalls, ?_⟩
          rw [← mapM_isSome]
          cases hmapped : calls.mapM migrateToolCall with
          | none => simp [migrateToolCalls, hcalls, hmapped] at h
          | some mapped => rfl
        | _ => simp [migrateToolCalls, hcalls] at h
    | _ => cases h
  · intro h
    obtain ⟨fields, calls, hmessage, hcalls, hall⟩ := h
    obtain ⟨mapped, hmapped⟩ := isSome_iff_exists.mp (mapM_isSome.mpr hall)
    subst hmessage
    simp [migrateToolCalls, hcalls, hmapped]

theorem migrateV1_0ToV1_1_other (htype : liveType record = some type) (hne : type ≠ "context.append_message") :
    migrateV1_0ToV1_1.migrateRecord record = some record := by
  have hother : ¬ liveType record = some "context.append_message" := by
    rw [htype]
    exact fun heq => hne (some.inj heq)
  exact if_neg hother

theorem migrateV1_0ToV1_1_append
    (htype : recordType source = some "context.append_message") :
    ((migrateV1_0ToV1_1.migrateRecord (live source)).isSome ↔ CallsWellFormed source) ∧
      ∀ record, migrateV1_0ToV1_1.migrateRecord (live source) = some record →
        Plain record ∧ liveType record = some "context.append_message" := by
  have hmigrate : migrateV1_0ToV1_1.migrateRecord (live source) =
      (source.lookup "message").bind fun message => (migrateToolCalls message).map fun message =>
        setField (live source) "message" (.json message) := by
    unfold migrateV1_0ToV1_1
    dsimp only
    rw [liveType_live, if_pos htype, fieldJson_live]
    cases source.lookup "message" with
    | none => rfl
    | some message =>
      dsimp only [bind_eq_bind, bind_some]
      cases migrateToolCalls message <;> rfl
  rw [hmigrate]
  constructor
  · unfold CallsWellFormed
    cases source.lookup "message" with
    | none => simp
    | some message =>
      rw [bind_some, isSome_map, migrateToolCalls_isSome]
      simp only [migrateToolCall_isSome, some.injEq]
  · intro record hrecord
    obtain ⟨message, _, hmap⟩ := bind_eq_some_iff.mp hrecord
    obtain ⟨migrated, _, hset⟩ := map_eq_some_iff.mp hmap
    subst hset
    refine ⟨(plain_live source).setField "message" migrated, ?_⟩
    rw [liveType_setField _ _ (by decide), liveType_live, htype]

theorem migrateV1_1ToV1_2_other
    (htype : liveType record = some type) (hne : type ≠ "permission.record_approval_result") :
    (migrateV1_1ToV1_2 text).migrateRecord record = some record := by
  have hother : ¬ liveType record = some "permission.record_approval_result" := by
    rw [htype]
    exact fun heq => hne (some.inj heq)
  exact if_neg hother

theorem legacyPattern_plain (h : key ∉ INHERITED_PROPERTIES)
    (hpattern : legacyPattern key = some value) : ∃ json, value = .json json := by
  unfold legacyPattern at hpattern
  split at hpattern
  · rename_i pattern _
    exact ⟨.str pattern, (some.inj hpattern).symm⟩
  · rw [if_neg h] at hpattern
    exact absurd hpattern.symm (some_ne_none value)

theorem legacyPattern_inherited (h : key ∈ INHERITED_PROPERTIES) : legacyPattern key = some (.inherited key) := by
  have hall : ∀ key ∈ INHERITED_PROPERTIES,
      LEGACY_SESSION_APPROVAL_ACTION_TO_PATTERN.lookup key = none := by decide
  unfold legacyPattern
  rw [hall key h]
  exact if_pos h

theorem not_plain_setField (record : LiveRecord) (key name : String) :
    ¬ Plain (setField record key (.inherited name)) := by
  intro hplain
  obtain ⟨json, hjson⟩ := plain_lookup hplain (lookup_setField_self record key (.inherited name))
  cases hjson

def ruled (record : LiveRecord) (key : String) : LiveRecord :=
  match (legacyPattern key).or (record.lookup "toolName") with
  | none => record
  | some pattern => setField record "sessionApprovalRule" pattern

theorem ruled_type (record : LiveRecord) (key : String) : liveType (ruled record key) = liveType record := by
  unfold ruled
  split
  · rfl
  · exact liveType_setField record _ (by decide)

theorem ruled_plain (h : Plain record) (key : String) : Plain (ruled record key) ↔ key ∉ INHERITED_PROPERTIES := by
  constructor
  · intro hplain hin
    unfold ruled at hplain
    rw [legacyPattern_inherited hin] at hplain
    exact not_plain_setField record _ key hplain
  · intro hnot
    unfold ruled
    split
    · exact h
    · rename_i pattern hpattern
      have hjson : ∃ json, pattern = .json json := by
        obtain hleft | ⟨_, hright⟩ := or_eq_some_iff.mp hpattern
        · exact legacyPattern_plain hnot hleft
        · exact plain_lookup h hright
      obtain ⟨json, hjson⟩ := hjson
      subst hjson
      exact h.setField "sessionApprovalRule" json

theorem migrateV1_1ToV1_2_eq
    (htype : recordType source = some "permission.record_approval_result") :
    (migrateV1_1ToV1_2 text).migrateRecord (live source) = (lacksSessionRule (live source)).bind fun lacks =>
        if lacks then
          if ∃ legacy ∈ LEGACY_SESSION_APPROVAL_UNRESTORABLE_ACTIONS,
              source.lookup "action" = some (.str legacy) then some (live source)
          else (text.propertyKey (source.lookup "action")).map (ruled (live source))
        else some (live source) := by
  unfold migrateV1_1ToV1_2
  dsimp only
  rw [liveType_live, if_pos htype, fieldJson_live]
  cases lacksSessionRule (live source) with
  | none => rfl
  | some lacks =>
    cases lacks with
    | false => rfl
    | true =>
      dsimp only [bind_eq_bind, bind_some]
      rw [if_pos rfl]
      have hcond : ((source.lookup "action").any fun action =>
          LEGACY_SESSION_APPROVAL_UNRESTORABLE_ACTIONS.any fun legacy => action = .str legacy) = true ↔
          ∃ legacy ∈ LEGACY_SESSION_APPROVAL_UNRESTORABLE_ACTIONS,
            source.lookup "action" = some (.str legacy) := by
        cases source.lookup "action" with
        | none => simp
        | some action => simp
      simp only [hcond]
      split
      · rfl
      · cases text.propertyKey (source.lookup "action") with
        | none => rfl
        | some key =>
          dsimp only [bind_some, map_some, ruled]
          cases (legacyPattern key).or ((live source).lookup "toolName") <;> rfl

theorem migrateV1_1ToV1_2_approval (text : TextRules)
    (htype : recordType source = some "permission.record_approval_result") :
    ((∃ record, (migrateV1_1ToV1_2 text).migrateRecord (live source) = some record ∧ Plain record) ↔
        ApprovalWellFormed text source) ∧
      ∀ record, (migrateV1_1ToV1_2 text).migrateRecord (live source) = some record →
        liveType record = some "permission.record_approval_result" := by
  have hlive : liveType (live source) = some "permission.record_approval_result" := by
    rw [liveType_live, htype]
  rw [migrateV1_1ToV1_2_eq htype]
  unfold ApprovalWellFormed
  cases lacksSessionRule (live source) with
  | none => simp
  | some lacks =>
    cases lacks with
    | false =>
      constructor
      · constructor
        · intro _
          exact ⟨false, rfl, fun h => absurd h Bool.false_ne_true⟩
        · intro _
          exact ⟨live source, rfl, plain_live source⟩
      · intro record hrecord
        rw [← some.inj hrecord, hlive]
    | true =>
      by_cases hlegacy : ∃ legacy ∈ LEGACY_SESSION_APPROVAL_UNRESTORABLE_ACTIONS,
          source.lookup "action" = some (.str legacy)
      · rw [if_pos hlegacy]
        constructor
        · constructor
          · intro _
            exact ⟨true, rfl, fun _ => .inl hlegacy⟩
          · intro _
            exact ⟨live source, rfl, plain_live source⟩
        · intro record hrecord
          rw [← some.inj hrecord, hlive]
      · rw [if_neg hlegacy]
        constructor
        · constructor
          · intro h
            obtain ⟨record, hrecord, hplain⟩ := h
            obtain ⟨key, hkey, hruled⟩ := map_eq_some_iff.mp hrecord
            subst hruled
            exact ⟨true, rfl, fun _ => .inr ⟨key, hkey, (ruled_plain (plain_live source) key).mp hplain⟩⟩
          · intro h
            obtain ⟨lacks, hlacks, hcond⟩ := h
            cases hlacks
            obtain ⟨key, hkey, hnot⟩ := (hcond rfl).resolve_left hlegacy
            exact ⟨_, congrArg (Option.map _) hkey, (ruled_plain (plain_live source) key).mpr hnot⟩
        · intro record hrecord
          obtain ⟨key, _, hruled⟩ := map_eq_some_iff.mp hrecord
          subst hruled
          rw [ruled_type, hlive]

def laterMigrations : List WireMigration := [migrateV1_2ToV1_3, migrateV1_3ToV1_4, migrateV1_4ToV1_5]

theorem laterMigrations_gentle : ∀ migration ∈ laterMigrations, migration.Gentle := by
  simp only [laterMigrations, forall_mem_cons]
  exact ⟨migrateV1_2ToV1_3_gentle, migrateV1_3ToV1_4_gentle, migrateV1_4ToV1_5_gentle, forall_mem_nil _⟩

section

variable (text : TextRules)

theorem compare_minor (hdigit : minor < 10) (hparts : versionParts version = ["1", Nat.repr minor]) :
    compareWireVersions text version WIRE_PROTOCOL_VERSION = some (compare (minor : ℚ) 5) := by
  have hwire : versionParts WIRE_PROTOCOL_VERSION = ["1", "5"] := by decide
  have hone : text.number "1" = .finite 1 := text.number_digit 1 (by decide)
  have hfive : text.number "5" = .finite 5 := text.number_digit 5 (by decide)
  have hself : compare (1 : ℚ) 1 = .eq := by decide
  have hdiff : (range (max ["1", Nat.repr minor].length ["1", "5"].length)).map (fun i =>
      difference (text.number (["1", Nat.repr minor].getD i "0"))
        (text.number (["1", "5"].getD i "0"))) = [some .eq, some (compare (minor : ℚ) 5)] := by
    have hrange : range (max ["1", Nat.repr minor].length ["1", "5"].length) = [0, 1] := rfl
    rw [hrange, map_cons, map_singleton]
    simp only [getD_cons_zero, getD_cons_succ, hone, hfive, text.number_digit minor hdigit, difference, hself]
  unfold compareWireVersions
  dsimp only
  rw [hparts, hwire, hdiff]
  cases compare (minor : ℚ) 5 <;> rfl

theorem compare_lt (minor : Nat) (hdigit : minor < 10) (hparts : versionParts version = ["1", Nat.repr minor])
    (hlt : compare (minor : ℚ) 5 = .lt) :
    compareWireVersions text version WIRE_PROTOCOL_VERSION = some .lt :=
  (compare_minor text hdigit hparts).trans (congrArg some hlt)

theorem compare_current : compareWireVersions text WIRE_PROTOCOL_VERSION WIRE_PROTOCOL_VERSION = some .eq :=
  (compare_minor text (by decide : 5 < 10) (by decide)).trans (by decide)

section

variable (rounds : Nat)

theorem resolveFrom_step (hlt : compareWireVersions text version WIRE_PROTOCOL_VERSION = some .lt)
    (hfind : findMigration text version = some migration) :
    resolveFrom text (rounds + 1) version =
      (resolveFrom text rounds migration.targetVersion).map (migration :: ·) := by
  rw [resolveFrom, if_pos hlt, hfind]
  dsimp only [bind_eq_bind, bind_some]
  cases resolveFrom text rounds migration.targetVersion <;> rfl

theorem resolveFrom_current : resolveFrom text rounds WIRE_PROTOCOL_VERSION = some [] := by
  cases rounds with
  | zero => rfl
  | succ rounds =>
    rw [resolveFrom, compare_current]
    rfl

theorem resolveFrom_four : resolveFrom text (rounds + 1) "1.4" = some [migrateV1_4ToV1_5] := by
  rw [resolveFrom_step text rounds (compare_lt text 4 (by decide) (by decide) (by decide)) rfl]
  exact congrArg (Option.map _) (resolveFrom_current text rounds)

theorem resolveFrom_three : resolveFrom text (rounds + 2) "1.3" = some [migrateV1_3ToV1_4, migrateV1_4ToV1_5] := by
  rw [resolveFrom_step text (rounds + 1) (compare_lt text 3 (by decide) (by decide) (by decide)) rfl]
  exact congrArg (Option.map _) (resolveFrom_four text rounds)

theorem resolveFrom_two : resolveFrom text (rounds + 3) "1.2" = some laterMigrations := by
  rw [resolveFrom_step text (rounds + 2) (compare_lt text 2 (by decide) (by decide) (by decide)) rfl]
  exact congrArg (Option.map _) (resolveFrom_three text rounds)

theorem resolveFrom_one : resolveFrom text (rounds + 4) "1.1" = some (migrateV1_1ToV1_2 text :: laterMigrations) := by
  rw [resolveFrom_step text (rounds + 3) (compare_lt text 1 (by decide) (by decide) (by decide)) rfl]
  exact congrArg (Option.map _) (resolveFrom_two text rounds)

theorem resolveFrom_zero : resolveFrom text (rounds + 5) "1.0" = some (MIGRATIONS text) := by
  rw [resolveFrom_step text (rounds + 4) (compare_lt text 0 (by decide) (by decide) (by decide)) rfl]
  exact congrArg (Option.map _) (resolveFrom_one text rounds)

end

end

/-- A record is migrated to one of JSON exactly where a condition holds. Only metadata is migrated to
metadata, and as it is. -/
structure MigratesWhen (migrations : List WireMigration) (source : WireRecord) (P : Prop) : Prop where
  plain : (∃ record, migrateWireRecord (live source) migrations = some record ∧ Plain record) ↔ P
  metadata : ∀ record, migrateWireRecord (live source) migrations = some record → (liveType record).isSome ∧
    (liveType record = some "metadata" ↔ recordType source = some "metadata") ∧
    (recordType source = some "metadata" → record = live source)

theorem migratesWhen_gentle
    (h : ∀ migration ∈ migrations, migration.Gentle)
    (htype : recordType source = some type) (hcond : P) : MigratesWhen migrations source P := by
  have hmeta : "metadata" ∉ goalTypes := by decide
  obtain ⟨record, hrecord, ⟨type', htype', hgoal⟩, hsame, hplain⟩ :=
    migrateWireRecord_gentle h ((liveType_live source).trans htype)
  constructor
  · exact ⟨fun _ => hcond, fun _ => ⟨record, hrecord, hplain (plain_live source)⟩⟩
  · intro other hother
    obtain rfl := mem_unique hrecord hother
    by_cases hin : type ∈ goalTypes
    · have hne : ¬ type = "metadata" := by
        intro heq
        exact hmeta (heq ▸ hin)
      have hne' : ¬ type' = "metadata" := by
        intro heq
        exact hmeta (heq ▸ hgoal hin)
      rw [htype, htype']
      simp [hne, hne']
    · have hrecord := hsame hin
      subst hrecord
      rw [liveType_live]
      exact ⟨htype ▸ rfl, Iff.rfl, fun _ => rfl⟩

theorem migrateWireRecord_cons
    (h : migration.migrateRecord record = some record) (migrations : List WireMigration) :
    migrateWireRecord record (migration :: migrations) = migrateWireRecord record migrations := by
  rw [migrateWireRecord, foldlM_cons, h]
  rfl

theorem MigratesWhen.cons {source : WireRecord} {migration : WireMigration}
    (hsame : migration.migrateRecord (live source) = some (live source))
    (h : MigratesWhen migrations source P) : MigratesWhen (migration :: migrations) source P := by
  constructor
  · rw [migrateWireRecord_cons hsame]
    exact h.plain
  · rw [migrateWireRecord_cons hsame]
    exact h.metadata

theorem migratesWhen_decided
    (htype : recordType source = some type) (hmeta : type ≠ "metadata")
    (hplain : (∃ record, migration.migrateRecord (live source) = some record ∧ Plain record) ↔ P)
    (hkept : ∀ record, migration.migrateRecord (live source) = some record → liveType record = some type)
    (hlater : ∀ record, liveType record = some type → migrateWireRecord record migrations = some record) :
    MigratesWhen (migration :: migrations) source P := by
  have hall : migrateWireRecord (live source) (migration :: migrations) =
      migration.migrateRecord (live source) := by
    rw [migrateWireRecord, foldlM_cons]
    cases hfirst : migration.migrateRecord (live source) with
    | none => rfl
    | some record => exact hlater record (hkept record hfirst)
  constructor
  · rw [hall]
    exact hplain
  · intro record hrecord
    rw [hall] at hrecord
    rw [hkept record hrecord, htype]
    refine ⟨rfl, Iff.rfl, ?_⟩
    intro heq
    exact absurd (some.inj heq) hmeta

theorem later_same (htype : liveType record = some type)
    (hnot : type ∉ goalTypes) : migrateWireRecord record laterMigrations = some record := by
  obtain ⟨record', hrecord', _, hsame, _⟩ := migrateWireRecord_gentle laterMigrations_gentle htype
  rw [hrecord', hsame hnot]

def Migratable (text : TextRules) (version : Option String) (source : WireRecord) : Prop :=
  (version = some "1.0" → recordType source = some "context.append_message" → CallsWellFormed source) ∧
  (version = some "1.0" ∨ version = some "1.1" →
    recordType source = some "permission.record_approval_result" → ApprovalWellFormed text source)

theorem migratesWhen_one (text : TextRules) (htype : recordType source = some type) :
    MigratesWhen (migrateV1_1ToV1_2 text :: laterMigrations) source
      (recordType source = some "permission.record_approval_result" → ApprovalWellFormed text source) := by
  by_cases heq : type = "permission.record_approval_result"
  · subst heq
    obtain ⟨hplain, hkept⟩ := migrateV1_1ToV1_2_approval text htype
    apply migratesWhen_decided htype (by decide) _ hkept
    · intro record hrecord
      exact later_same hrecord (by decide)
    · rw [hplain]
      exact ⟨fun h _ => h, fun h => h htype⟩
  · apply MigratesWhen.cons
    · exact migrateV1_1ToV1_2_other ((liveType_live source).trans htype) heq
    · apply migratesWhen_gentle laterMigrations_gentle htype
      intro happroval
      exact absurd (mem_unique htype happroval) heq

theorem migratesWhen_zero (text : TextRules) (htype : recordType source = some type) :
    MigratesWhen (MIGRATIONS text) source
      ((recordType source = some "context.append_message" → CallsWellFormed source) ∧
        (recordType source = some "permission.record_approval_result" → ApprovalWellFormed text source)) := by
  by_cases heq : type = "context.append_message"
  · subst heq
    obtain ⟨hdefined, hkept⟩ := migrateV1_0ToV1_1_append htype
    have hother : ¬ recordType source = some "permission.record_approval_result" := by
      rw [htype]
      decide
    apply migratesWhen_decided htype (by decide) _ fun record hrecord => (hkept record hrecord).2
    · intro record hrecord
      rw [migrateWireRecord_cons (migrateV1_1ToV1_2_other hrecord (by decide))]
      exact later_same hrecord (by decide)
    · constructor
      · intro h
        obtain ⟨record, hrecord, _⟩ := h
        exact ⟨fun _ => hdefined.mp (isSome_of_eq_some hrecord), fun h => absurd h hother⟩
      · intro h
        obtain ⟨record, hrecord⟩ := isSome_iff_exists.mp (hdefined.mpr (h.1 htype))
        exact ⟨record, hrecord, (hkept record hrecord).1⟩
  · have happend : ¬ recordType source = some "context.append_message" := by
      rw [htype]
      exact fun h => heq (some.inj h)
    have hrest := (migratesWhen_one text htype).cons
      (migrateV1_0ToV1_1_other ((liveType_live source).trans htype) heq)
    refine ⟨?_, hrest.metadata⟩
    exact hrest.plain.trans ⟨fun h => ⟨fun h' => absurd h' happend, h⟩, fun h => h.2⟩

end Echadron.Wire
