import Echadron.Wire.RestorePass

namespace Echadron.Wire
open Lib List Option

/-! A journal that was restored is restored again to the same models, and is not rewritten. -/

theorem liveType_stamp (newer : Bool) (record : LiveRecord) : liveType (stamp newer record) = liveType record := by
  unfold stamp
  split
  · exact liveType_setField record _ (by decide)
  · rfl

theorem plain_stamp (h : Plain record) (newer : Bool) : Plain (stamp newer record) := by
  unfold stamp
  split
  · exact h.setField "protocol_version" (.str WIRE_PROTOCOL_VERSION)
  · exact h

theorem stamp_of_op (h : liveType record ≠ some "metadata") (newer : Bool) : stamp newer record = record := by
  unfold stamp
  rw [if_neg]
  rw [Bool.and_eq_true, not_and]
  intro _ hmeta
  exact h (of_decide_eq_true hmeta)

theorem mem_opRecords : record ∈ opRecords records ↔ record ∈ records ∧ liveType record ≠ some "metadata" := by
  rw [opRecords, mem_filter, decide_eq_true_iff]

theorem opRecords_append (first rest : List LiveRecord) :
    opRecords (first ++ rest) = opRecords first ++ opRecords rest := filter_append ..

theorem wireRecords_type (h : source ∈ wireRecords journal) : ∃ type, recordType source = some type := by
  obtain ⟨line, _, hline⟩ := mem_filterMap.mp h
  cases line with
  | obj fields =>
    obtain ⟨htype, hfields⟩ := ite_none_right_eq_some.mp hline
    cases hfields
    exact isSome_iff_exists.mp htype
  | _ => exact absurd hline.symm (some_ne_none source)

theorem migratedRecords_mem (h : migratedRecords migrations sources = some records) :
    (∀ source ∈ sources, ∃ record, migrateWireRecord (live source) migrations = some record ∧
      stamp false record ∈ records) ∧
    ∀ record ∈ records, ∃ source ∈ sources, ∃ migrated,
      migrateWireRecord (live source) migrations = some migrated ∧ record = stamp false migrated := by
  induction sources generalizing records with
  | nil =>
    have hnil : records = [] := (some.inj h).symm
    subst hnil
    exact ⟨forall_mem_nil _, forall_mem_nil _⟩
  | cons source sources ih =>
    obtain ⟨record, rest, hrecord, hrest, hrecords⟩ := (migratedRecords_cons ..).mp h
    subst hrecords
    obtain ⟨hsources, hrecords⟩ := ih hrest
    constructor
    · rw [forall_mem_cons]
      refine ⟨⟨record, hrecord, mem_cons_self⟩, ?_⟩
      intro other hother
      obtain ⟨migrated, hmigrated, hmem⟩ := hsources other hother
      exact ⟨migrated, hmigrated, mem_cons_of_mem _ hmem⟩
    · rw [forall_mem_cons]
      refine ⟨⟨source, mem_cons_self, record, hrecord, rfl⟩, ?_⟩
      intro other hother
      obtain ⟨old, hold, migrated, hmigrated, heq⟩ := hrecords other hother
      exact ⟨old, mem_cons_of_mem _ hold, migrated, hmigrated, heq⟩

theorem migratedRecords_of_all
    (h : ∀ source ∈ sources, ∃ record, migrateWireRecord (live source) migrations = some record) :
    ∃ records, migratedRecords migrations sources = some records := by
  induction sources with
  | nil => exact ⟨[], rfl⟩
  | cons source sources ih =>
    rw [forall_mem_cons] at h
    obtain ⟨record, hrecord⟩ := h.1
    obtain ⟨rest, hrest⟩ := ih h.2
    exact ⟨_, (migratedRecords_cons ..).mpr ⟨record, rest, hrecord, hrest, rfl⟩⟩

theorem migratedRecords_nil (sources : List WireRecord) :
    migratedRecords [] sources = some (sources.map fun source => stamp false (live source)) := by
  induction sources with
  | nil => rfl
  | cons source sources ih => exact (migratedRecords_cons ..).mpr ⟨live source, _, rfl, ih, rfl⟩

/-- Every record but metadata is among those replayed, as its migrations leave it. -/
theorem opRecords_migrated {P : WireRecord → Prop}
    (hmigrates : ∀ source ∈ sources, MigratesWhen migrations source (P source))
    (h : migratedRecords migrations sources = some records) :
    (sources.filter fun source => recordType source ≠ some "metadata").mapM
      (fun source => migrateWireRecord (live source) migrations) = some (opRecords records) := by
  induction sources generalizing records with
  | nil =>
    have hnil : records = [] := (some.inj h).symm
    subst hnil
    rfl
  | cons source sources ih =>
    rw [forall_mem_cons] at hmigrates
    obtain ⟨record, rest, hrecord, hrest, hrecords⟩ := (migratedRecords_cons ..).mp h
    subst hrecords
    have hiff := (hmigrates.1.metadata record hrecord).2.1
    have hlater := ih hmigrates.2 hrest
    by_cases hmeta : recordType source = some "metadata"
    · have hstamped : liveType (stamp false record) = some "metadata" := by
        rw [liveType_stamp]
        exact hiff.mpr hmeta
      rw [filter_cons_of_neg (by simp [hmeta]), opRecords, filter_cons_of_neg (by simp [hstamped])]
      exact hlater
    · have hop : ¬ liveType record = some "metadata" := fun h => hmeta (hiff.mp h)
      have hstamped : ¬ liveType (stamp false record) = some "metadata" := by
        rw [liveType_stamp]
        exact hop
      rw [filter_cons_of_pos (by simp [hmeta]), opRecords,
        filter_cons_of_pos (by simp [hstamped]), mapM_cons, hrecord, stamp_of_op hop]
      rw [hlater]
      rfl

theorem wireRecords_written {records : List LiveRecord} (h : ∀ record ∈ records, (liveType record).isSome) :
    wireRecords (records.map fun record => .obj (stringify record)) = records.map stringify := by
  induction records with
  | nil => rfl
  | cons record records ih =>
    rw [forall_mem_cons] at h
    obtain ⟨type, htype⟩ := isSome_iff_exists.mp h.1
    have hread : isWireRecord (.obj (stringify record)) = some (stringify record) := by
      rw [isWireRecord, recordType_stringify htype]
      rfl
    rw [map_cons, wireRecords, filterMap_cons_some hread]
    exact congrArg (stringify record :: ·) (ih h.2)

theorem liveType_reread (h : (liveType record).isSome) : liveType (live (stringify record)) = liveType record := by
  obtain ⟨type, htype⟩ := isSome_iff_exists.mp h
  rw [liveType_live, recordType_stringify htype, htype]

theorem opRecords_reread
    (h : ∀ record ∈ records, (liveType record).isSome) :
    opRecords ((records.map stringify).map fun source => stamp false (live source)) =
      (opRecords records).map fun record => live (stringify record) := by
  induction records with
  | nil => rfl
  | cons record records ih =>
    rw [forall_mem_cons] at h
    have htype := liveType_reread h.1
    rw [map_cons, map_cons]
    by_cases hmeta : liveType record = some "metadata"
    · have hstamped : liveType (stamp false (live (stringify record))) = some "metadata" := by
        rw [liveType_stamp, htype, hmeta]
      rw [opRecords, filter_cons_of_neg (by simp [hstamped]), opRecords, filter_cons_of_neg (by simp [hmeta])]
      exact ih h.2
    · have hop : liveType (live (stringify record)) ≠ some "metadata" := by
        rw [htype]
        exact hmeta
      rw [stamp_of_op hop, opRecords, filter_cons_of_pos (by simp [hop]), opRecords,
        filter_cons_of_pos (by simp [hmeta]), map_cons]
      exact congrArg (_ :: ·) (ih h.2)

section
variable [DecidableEq M]

/-- A journal is restored, and again, to the same models and from the same records, and the second
time it is not rewritten. The records are those of the journal, as their migrations leave them. -/
def RestoresAgain (rules : RestoreRules K M S) (journal : List Json) : Prop :=
  ∀ now later, ∃ restored again, restoreJournal rules now journal = some restored ∧
    restoreJournal rules later (restored.journal journal) = some again ∧
    again.wire.models = restored.wire.models ∧
    again.rewritten = none ∧
    again.replayed = restored.replayed ∧
    ((wireRecords journal).filter fun source => recordType source ≠ some "metadata").mapM
      (fun source => migrateWireRecord (live source)
        (journalMigrations rules.text (journalVersion journal))) = some restored.replayed

def Replays (rules : RestoreRules K M S) (journal : List Json) : Prop :=
  ∀ records, migratedRecords (journalMigrations rules.text (journalVersion journal))
    (wireRecords journal) = some records →
    ((opRecords records).foldlM (replayLive rules) (freshWire rules.registry)).isSome

end

theorem supported_migrates (text : TextRules) (hsupported : Supported journal) : ∀ source ∈ wireRecords journal,
      MigratesWhen (journalMigrations text (journalVersion journal)) source
        (Migratable text (journalVersion journal) source) := by
  intro source hsource
  obtain ⟨type, htype⟩ := wireRecords_type hsource
  cases hversion : journalVersion journal with
  | none =>
    apply migratesWhen_gentle _ htype (migratable_later (by decide) (by decide) source)
    rw [journalMigrations, forall_mem_singleton]
    exact migrateV1_4ToV1_5_gentle
  | some version =>
    have hin : version ∈ supportedVersions := by
      obtain ⟨first, hfirst, hread⟩ := bind_eq_some_iff.mp hversion
      obtain ⟨hmeta, hread⟩ := ite_none_right_eq_some.mp hread
      obtain ⟨known, hknown, hversion'⟩ := hsupported first hfirst hmeta
      obtain rfl := mem_unique hread hversion'
      exact hknown
    obtain ⟨migrations, hresolves⟩ := resolve_supported text hin
    rw [journalMigrations_of_resolves hresolves]
    exact hresolves.migrates source type htype

theorem isWireMetadataRecord_eq_some : isWireMetadataRecord record = some version ↔
      record.lookup "protocol_version" = some (.str version) ∧
        ∃ time, record.lookup "created_at" = some (.num time) := by
  unfold isWireMetadataRecord
  constructor
  · intro h
    split at h
    · rename_i text time hversion htime
      cases h
      exact ⟨hversion, time, htime⟩
    · exact absurd h.symm (some_ne_none version)
  · intro h
    obtain ⟨hversion, time, htime⟩ := h
    rw [hversion, htime]

theorem stamped_metadata (hmeta : recordType first = some "metadata")
    (hread : isWireMetadataRecord first = some version) :
    isWireMetadataRecord (stringify (stamp false (live first))) = some WIRE_PROTOCOL_VERSION := by
  obtain ⟨_, time, htime⟩ := isWireMetadataRecord_eq_some.mp hread
  have hstamp : stamp false (live first) =
      setField (live first) "protocol_version" (.json (.str WIRE_PROTOCOL_VERSION)) := by
    rw [stamp]
    rw [liveType_live, hmeta]
    rfl
  have hlive : (live first).lookup "created_at" = some (.json (.num time)) := by
    rw [lookup_live, htime]
    rfl
  apply isWireMetadataRecord_eq_some.mpr
  rw [hstamp]
  refine ⟨lookup_stringify (lookup_setField_self ..), time, lookup_stringify ?_⟩
  rw [lookup_setField_of_ne _ _ (by decide)]
  exact hlive

section

variable (hsupported : Supported journal)
  (h : migratedRecords (journalMigrations text (journalVersion journal)) (wireRecords journal) = some records)
include hsupported h

theorem migratedRecords_types : ∀ record ∈ records, (liveType record).isSome := by
  intro record hrecord
  obtain ⟨source, hsource, migrated, hmigrated, hstamp⟩ := (migratedRecords_mem h).2 record hrecord
  rw [hstamp, liveType_stamp]
  exact ((supported_migrates text hsupported source hsource).metadata migrated hmigrated).1

theorem written_header (hheader : headerRecords now (journalVersion journal) = some header) :
    ∃ first rest, header ++ records = first :: rest ∧ liveType first = some "metadata" ∧
      isWireMetadataRecord (stringify first) = some WIRE_PROTOCOL_VERSION ∧
      opRecords header = [] ∧ ∀ record ∈ header ++ records, (liveType record).isSome := by
  have htypes := migratedRecords_types hsupported h
  cases hversion : journalVersion journal with
  | none =>
    rw [hversion] at hheader
    cases hheader
    refine ⟨createWireMetadataRecord now, records, rfl, rfl, rfl, rfl, ?_⟩
    rw [singleton_append, forall_mem_cons]
    exact ⟨rfl, htypes⟩
  | some version =>
    obtain ⟨first, hfirst, hread⟩ := bind_eq_some_iff.mp hversion
    obtain ⟨hmeta, hread⟩ := ite_none_right_eq_some.mp hread
    have hnil : header = [] := by
      rw [hversion, headerRecords] at hheader
      split at hheader
      · exact absurd hheader.symm (some_ne_none header)
      · exact (some.inj hheader).symm
    subst hnil
    obtain ⟨sources, hsources⟩ := head?_eq_some_iff.mp hfirst
    have hin : first ∈ wireRecords journal := by
      rw [hsources]
      exact mem_cons_self
    have hmigrates := supported_migrates text hsupported first hin
    rw [hsources] at h
    obtain ⟨migrated, rest, hmigrated, _, hrecords⟩ := (migratedRecords_cons ..).mp h
    have hsame := (hmigrates.metadata migrated hmigrated).2.2 hmeta
    subst hsame
    refine ⟨stamp false (live first), rest, hrecords, ?_, stamped_metadata hmeta hread, rfl, htypes⟩
    rw [liveType_stamp, liveType_live, hmeta]

end

section
variable [DecidableEq M] {rules : RestoreRules K M S}

theorem restore_written {journal : List Json} (hsupported : Supported journal)
    (h : migratedRecords (journalMigrations rules.text (journalVersion journal))
      (wireRecords journal) = some records)
    (hheader : headerRecords now (journalVersion journal) = some header) (later : String) :
    restoreJournal rules later ((header ++ records).map fun record => .obj (stringify record)) = some again ↔
      ∃ wire, ((opRecords records).map fun record => live (stringify record)).foldlM
          (replayLive rules) (freshWire rules.registry) = some wire ∧
        again.wire = wire.rehydrateModels rules.registry ∧ again.rewritten = none ∧
        again.replayed = (opRecords records).map fun record => live (stringify record) := by
  obtain ⟨first, rest, hwritten, hmeta, hread, hops, htypes⟩ := written_header hsupported h hheader
  have hsources := wireRecords_written htypes
  have hhead : (wireRecords ((header ++ records).map fun record =>
      Json.obj (stringify record))).head? = some (stringify first) := by
    rw [hsources, hwritten]
    rfl
  have hversion : journalVersion ((header ++ records).map fun record =>
      Json.obj (stringify record)) = some WIRE_PROTOCOL_VERSION := by
    rw [journalVersion, hhead, bind_some, if_pos (recordType_stringify hmeta), hread]
  have hsupported' : Supported ((header ++ records).map fun record => Json.obj (stringify record)) := by
    intro other hother _
    obtain rfl := mem_unique hhead hother
    exact ⟨WIRE_PROTOCOL_VERSION, by decide, hread⟩
  have hreread : opRecords (((header ++ records).map stringify).map fun source =>
      stamp false (live source)) = (opRecords records).map fun record => live (stringify record) := by
    rw [opRecords_reread htypes, opRecords_append, hops, nil_append]
  rw [restoreJournal_eq_some hsupported', hversion, journalMigrations_current, hsources, migratedRecords_nil]
  constructor
  · intro hagain
    obtain ⟨reread, wire, hsome, hwire, hrestored⟩ := hagain
    cases hsome
    rw [hreread] at hwire
    subst hrestored
    exact ⟨wire, hwire, rfl, rfl, hreread⟩
  · intro hagain
    obtain ⟨wire, hwire, hmodels, hrewritten, hreplayed⟩ := hagain
    refine ⟨_, wire, rfl, ?_, ?_⟩
    · rw [hreread]
      exact hwire
    · obtain ⟨againWire, rewritten, replayed⟩ := again
      subst hmodels hrewritten hreplayed
      rw [restoredFrom, hreread]
      rfl

theorem headerRecords_none (h : headerRecords now version = none) : version = some WIRE_PROTOCOL_VERSION := by
  unfold headerRecords at h
  split at h
  · exact absurd h (some_ne_none _)
  · split at h
    · rename_i hversion
      rw [hversion]
    · exact absurd h (some_ne_none _)

theorem migratable_current (text : TextRules) (source : WireRecord) :
    Migratable text (some WIRE_PROTOCOL_VERSION) source :=
  migratable_later (by decide) (by decide) source

theorem RestoresAgain.migratable (hsupported : Supported journal) (h : RestoresAgain rules journal) :
    ∀ source ∈ wireRecords journal, Migratable rules.text (journalVersion journal) source := by
  obtain ⟨restored, again, hrestored, hagain, _, _, hreplayed, _⟩ := h "0" "0"
  obtain ⟨records, wire, hmigrated, hwire, hfrom⟩ := (restoreJournal_eq_some hsupported "0").mp hrestored
  subst hfrom
  intro source hsource
  cases hheader : headerRecords "0" (journalVersion journal) with
  | none =>
    rw [headerRecords_none hheader]
    exact migratable_current rules.text source
  | some header =>
    have hmigrates := supported_migrates rules.text hsupported source hsource
    obtain ⟨migrated, hsome, hstamped⟩ := (migratedRecords_mem hmigrated).1 source hsource
    apply hmigrates.plain.mp
    refine ⟨migrated, hsome, ?_⟩
    by_cases hmeta : recordType source = some "metadata"
    · rw [(hmigrates.metadata migrated hsome).2.2 hmeta]
      exact plain_live source
    · have hop : liveType migrated ≠ some "metadata" :=
        fun heq => hmeta ((hmigrates.metadata migrated hsome).2.1.mp heq)
      rw [stamp_of_op hop] at hstamped
      have hin : migrated ∈ opRecords records := mem_opRecords.mpr ⟨hstamped, hop⟩
      have hjournal : (restoredFrom rules (headerRecords "0" (journalVersion journal)) records
          wire).journal journal = (header ++ records).map fun record => Json.obj (stringify record) := by
        rw [hheader]
        rfl
      rw [hjournal] at hagain
      obtain ⟨_, _, _, _, hreread⟩ := (restore_written hsupported hmigrated hheader "0").mp hagain
      have hsame : (opRecords records).map (fun record => live (stringify record)) =
          (opRecords records).map id := by
        rw [← hreread, hreplayed, List.map_id]
        rfl
      exact Plain.of_live_stringify (map_inj_left.mp hsame migrated hin)

theorem RestoresAgain.replays (hsupported : Supported journal)
    (h : RestoresAgain rules journal) : Replays rules journal := by
  obtain ⟨restored, _, hrestored, _⟩ := h "0" "0"
  obtain ⟨records, wire, hmigrated, hwire, _⟩ := (restoreJournal_eq_some hsupported "0").mp hrestored
  intro other hother
  obtain rfl := mem_unique hmigrated hother
  rw [hwire]
  rfl

theorem plain_opRecords (hsupported : Supported journal)
    (hmigratable : ∀ source ∈ wireRecords journal, Migratable text (journalVersion journal) source)
    (hmigrated : migratedRecords (journalMigrations text (journalVersion journal))
      (wireRecords journal) = some records) :
    (opRecords records).map (fun record => live (stringify record)) = opRecords records := by
  have hplain : ∀ record ∈ opRecords records, live (stringify record) = id record := by
    intro record hrecord
    obtain ⟨source, hsource, migrated, hsome, hstamp⟩ :=
      (migratedRecords_mem hmigrated).2 record (mem_opRecords.mp hrecord).1
    obtain ⟨other, hother, hplain⟩ := (supported_migrates text hsupported source hsource).plain.mpr
      (hmigratable source hsource)
    obtain rfl := mem_unique hsome hother
    subst hstamp
    exact live_stringify (plain_stamp hplain false)
  rw [map_congr_left hplain, List.map_id]

/-- Exactly the journals whose records can be migrated and replayed are restored again. -/
theorem restoresAgain_iff {journal : List Json} (hsupported : Supported journal) : RestoresAgain rules journal ↔
      (∀ source ∈ wireRecords journal,
        Migratable rules.text (journalVersion journal) source) ∧ Replays rules journal := by
  constructor
  · intro h
    exact ⟨h.migratable hsupported, h.replays hsupported⟩
  · intro h now later
    obtain ⟨hmigratable, hreplays⟩ := h
    have hmigrates := supported_migrates rules.text hsupported
    obtain ⟨records, hmigrated⟩ := migratedRecords_of_all fun source hsource => by
      obtain ⟨record, hrecord, _⟩ := (hmigrates source hsource).plain.mpr (hmigratable source hsource)
      exact ⟨record, hrecord⟩
    obtain ⟨wire, hwire⟩ := isSome_iff_exists.mp (hreplays records hmigrated)
    have hops := opRecords_migrated hmigrates hmigrated
    have hrestored := (restoreJournal_eq_some hsupported now).mpr
      ⟨records, wire, hmigrated, hwire, rfl⟩
    cases hheader : headerRecords now (journalVersion journal) with
    | none =>
      have hcurrent : headerRecords later (journalVersion journal) = none := by
        rw [headerRecords_none hheader]
        rfl
      have hagain := (restoreJournal_eq_some hsupported later).mpr
        ⟨records, wire, hmigrated, hwire, rfl⟩
      rw [hheader] at hrestored
      rw [hcurrent] at hagain
      exact ⟨_, _, hrestored, hagain, rfl, rfl, rfl, hops⟩
    | some header =>
      have hreread := plain_opRecords hsupported hmigratable hmigrated
      rw [hheader] at hrestored
      have hagain : restoreJournal rules later
          ((header ++ records).map fun record => .obj (stringify record)) =
          some ⟨wire.rehydrateModels rules.registry, none,
            (opRecords records).map fun record => live (stringify record)⟩ :=
        (restore_written hsupported hmigrated hheader later).mpr
          ⟨wire, hreread.symm ▸ hwire, rfl, rfl, rfl⟩
      exact ⟨_, _, hrestored, hagain, rfl, rfl, hreread, hops⟩

end

def plainText : TextRules where
  number text := (((List.range 10).find? fun n => Nat.repr n = text).map fun n => JsNumber.finite n).getD .nan
  number_digit := by decide
  propertyKey
    | some (.str key) => some key
    | _ => none
  propertyKey_str _ := rfl

def noteRules : RestoreRules NoteKind NoteModel Json where
  registry := notes
  schema _ _ := some .null
  text := plainText

def legacyJournal : List Json :=
  [.obj [("type", .str "metadata"), ("protocol_version", .str "1.0"), ("created_at", .num "1")], .null,
   .obj [("type", .str "context.append_message"),
     ("message", .obj [("role", .str "assistant"), ("toolCalls", .arr [.obj [("id", .str "c"),
       ("function", .obj [("name", .str "Bash")])]])])],
   .obj [("type", .str "goal.create"), ("goalId", .str "g"), ("time", .num "5")],
   .obj [("type", .str "note.title"), ("text", .str "t")]]

theorem legacyJournal_version : journalVersion legacyJournal = some "1.0" := by decide +kernel

theorem legacyJournal_supported : Supported legacyJournal := by
  intro first hfirst _
  have hhead : (wireRecords legacyJournal).head? = some [("type", .str "metadata"),
      ("protocol_version", .str "1.0"), ("created_at", .num "1")] := by decide +kernel
  obtain rfl := mem_unique hhead hfirst
  exact ⟨"1.0", by decide, by decide⟩

theorem legacyJournal_replays : Replays noteRules legacyJournal := by
  intro records hrecords
  have hmigrations : journalMigrations noteRules.text (some "1.0") = MIGRATIONS plainText := by
    exact congrArg (getD · []) (resolveFrom_zero plainText 0)
  have hrun : ((migratedRecords (MIGRATIONS plainText) (wireRecords legacyJournal)).bind fun records =>
      (opRecords records).foldlM (replayLive noteRules) (freshWire notes)).isSome := by
    decide +kernel
  rw [legacyJournal_version] at hrecords
  rw [← hmigrations, hrecords] at hrun
  exact hrun

theorem migratable_other
    (hmessage : recordType source ≠ some "context.append_message")
    (happroval : recordType source ≠ some "permission.record_approval_result")
    (version : Option String) : Migratable text version source :=
  ⟨fun _ h => absurd h hmessage, fun _ h => absurd h happroval⟩

theorem legacyJournal_migratable :
    ∀ source ∈ wireRecords legacyJournal, Migratable plainText (journalVersion legacyJournal) source := by
  have hsources : wireRecords legacyJournal =
      [[("type", .str "metadata"), ("protocol_version", .str "1.0"), ("created_at", .num "1")],
       [("type", .str "context.append_message"),
         ("message", .obj [("role", .str "assistant"), ("toolCalls", .arr [.obj [("id", .str "c"),
           ("function", .obj [("name", .str "Bash")])]])])],
       [("type", .str "goal.create"), ("goalId", .str "g"), ("time", .num "5")],
       [("type", .str "note.title"), ("text", .str "t")]] := by decide +kernel
  rw [hsources]
  simp only [forall_mem_cons]
  refine ⟨migratable_other (by decide) (by decide) _, ⟨?_, fun _ h => absurd h (by decide)⟩,
    migratable_other (by decide) (by decide) _, migratable_other (by decide) (by decide) _,
    forall_mem_nil _⟩
  intro _ _
  refine ⟨_, _, rfl, rfl, ?_⟩
  rw [forall_mem_singleton]
  exact ⟨_, .obj [("name", .str "Bash")], rfl, rfl, Json.noConfusion⟩

theorem legacyJournal_restoresAgain : RestoresAgain noteRules legacyJournal :=
  (restoresAgain_iff legacyJournal_supported).mpr ⟨legacyJournal_migratable, legacyJournal_replays⟩

/-- A message without tool calls, in a journal of version 1.0. -/
def brokenJournal : List Json :=
  [.obj [("type", .str "metadata"), ("protocol_version", .str "1.0"), ("created_at", .num "1")],
   .obj [("type", .str "context.append_message")]]

/-- It is not restored, though a malformed record is to be passed over. -/
theorem brokenJournal_not_restored : Supported brokenJournal ∧ ¬ RestoresAgain noteRules brokenJournal := by
  have hhead : (wireRecords brokenJournal).head? = some [("type", .str "metadata"),
      ("protocol_version", .str "1.0"), ("created_at", .num "1")] := by decide +kernel
  have hsupported : Supported brokenJournal := by
    intro first hfirst _
    obtain rfl := mem_unique hhead hfirst
    exact ⟨"1.0", by decide, by decide⟩
  refine ⟨hsupported, ?_⟩
  intro h
  have hin : [("type", Json.str "context.append_message")] ∈ wireRecords brokenJournal := by
    decide +kernel
  have hversion : journalVersion brokenJournal = some "1.0" := by decide +kernel
  obtain ⟨message, calls, hmessage, _⟩ := (h.migratable hsupported _ hin).1 hversion (by decide)
  cases hmessage

end Echadron.Wire
