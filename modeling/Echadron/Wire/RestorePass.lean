import Echadron.Wire.Migrated
import Echadron.Wire.Restore

namespace Echadron.Wire
open Lib List Option

/-! What the pass of a restore over a journal comes to. -/

def wireRecords (journal : List Json) : List WireRecord := journal.filterMap isWireRecord

def journalVersion (journal : List Json) : Option String :=
  (wireRecords journal).head?.bind fun first =>
    if recordType first = some "metadata" then isWireMetadataRecord first else none

def supportedVersions : List String := ["1.0", "1.1", "1.2", "1.3", "1.4", "1.5"]

def Supported (journal : List Json) : Prop :=
  ∀ first ∈ (wireRecords journal).head?, recordType first = some "metadata" →
    ∃ version ∈ supportedVersions, isWireMetadataRecord first = some version

def journalMigrations (text : TextRules) : Option String → List WireMigration
  | none => [migrateV1_4ToV1_5]
  | some version => (resolveWireMigrations text version).getD []

def opRecords (records : List LiveRecord) : List LiveRecord :=
  records.filter fun record => liveType record ≠ some "metadata"

def migratedRecords (migrations : List WireMigration) (sources : List WireRecord) : Option (List LiveRecord) :=
  sources.mapM fun source => (migrateWireRecord (live source) migrations).map (stamp false)

theorem migratedRecords_cons (migrations : List WireMigration) (source : WireRecord) (sources : List WireRecord) :
    migratedRecords migrations (source :: sources) = some records ↔
      ∃ record rest, migrateWireRecord (live source) migrations = some record ∧
        migratedRecords migrations sources = some rest ∧ records = stamp false record :: rest := by
  unfold migratedRecords
  rw [mapM_cons]
  cases migrateWireRecord (live source) migrations with
  | none => simp
  | some record =>
    cases sources.mapM fun source => (migrateWireRecord (live source) migrations).map (stamp false)
      with
    | none => simp
    | some rest => simp [eq_comm]

section
variable [DecidableEq M] {rules : RestoreRules K M S}

def Restoring.after (r : Restoring K M S) (records : List LiveRecord) (wire : WireService K M S) : Restoring K M S :=
  { r with
    wire
    rewrittenRecords := r.rewrittenRecords.map (· ++ records)
    replayed := r.replayed ++ opRecords records }

theorem restoreRecord_eq (source : WireRecord) (hnew : r.newerWireVersion = false) :
    restoreRecord rules r source = (migrateWireRecord (live source) r.migrations).bind fun record =>
        ((opRecords [stamp false record]).foldlM (replayLive rules) r.wire).map
          (r.after [stamp false record]) := by
  obtain ⟨wire, migrations, rewritten, newer, has, replayed⟩ := r
  subst hnew
  unfold restoreRecord
  cases migrateWireRecord (live source) migrations with
  | none => rfl
  | some record =>
    dsimp only [bind_eq_bind, bind_some]
    generalize stamp false record = stamped
    unfold Restoring.after
    by_cases hmeta : liveType stamped = some "metadata"
    · have hnone : opRecords [stamped] = [] := by simp [opRecords, hmeta]
      rw [if_pos hmeta, hnone, append_nil]
      rfl
    · have hone : opRecords [stamped] = [stamped] := by simp [opRecords, hmeta]
      rw [if_neg hmeta, hone, foldlM_cons]
      cases replayLive rules wire stamped with
      | none => rfl
      | some wire' => rfl

section

omit [DecidableEq M]

theorem Restoring.after_after (r : Restoring K M S) (first rest : List LiveRecord) (wire wire' : WireService K M S) :
    (r.after first wire).after rest wire' = r.after (first ++ rest) wire' := by
  unfold Restoring.after
  cases r.rewrittenRecords <;> simp [opRecords]

theorem Restoring.after_nil (r : Restoring K M S) : r.after [] r.wire = r := by
  obtain ⟨wire, migrations, rewritten, newer, has, replayed⟩ := r
  unfold Restoring.after
  cases rewritten <;> simp [opRecords]

end

theorem foldlM_restoreRecord (sources : List WireRecord) (hnew : r.newerWireVersion = false) :
    sources.foldlM (restoreRecord rules) r = some r' ↔
      ∃ records wire, migratedRecords r.migrations sources = some records ∧
        (opRecords records).foldlM (replayLive rules) r.wire = some wire ∧
        r' = r.after records wire := by
  induction sources generalizing r with
  | nil =>
    constructor
    · intro h
      obtain rfl := some.inj h
      exact ⟨[], r.wire, rfl, rfl, r.after_nil.symm⟩
    · intro h
      obtain ⟨records, wire, hrecords, hwire, hr'⟩ := h
      have hnil : records = [] := (some.inj hrecords).symm
      subst hnil
      have hsame : wire = r.wire := (some.inj hwire).symm
      subst hsame
      rw [hr', r.after_nil]
      rfl
  | cons source sources ih =>
    rw [foldlM_cons, restoreRecord_eq source hnew]
    constructor
    · intro h
      obtain ⟨r₁, h₁, hrest⟩ := bind_eq_some_iff.mp h
      obtain ⟨record, hrecord, hmap⟩ := bind_eq_some_iff.mp h₁
      obtain ⟨wire₁, hwire₁, hafter⟩ := map_eq_some_iff.mp hmap
      subst hafter
      obtain ⟨rest, wire, hmigrated, hwire, hr'⟩ := (ih (r := r.after _ _) hnew).mp hrest
      refine ⟨stamp false record :: rest, wire, ?_, ?_, ?_⟩
      · rw [migratedRecords_cons]
        exact ⟨record, rest, hrecord, hmigrated, rfl⟩
      · rw [← singleton_append, opRecords, filter_append, foldlM_append]
        exact bind_eq_some_iff.mpr ⟨wire₁, hwire₁, hwire⟩
      · rw [hr', Restoring.after_after]
        rfl
    · intro h
      obtain ⟨records, wire, hmigrated, hwire, hr'⟩ := h
      obtain ⟨record, rest, hrecord, hrest, hrecords⟩ := (migratedRecords_cons ..).mp hmigrated
      subst hrecords
      rw [← singleton_append, opRecords, filter_append, foldlM_append] at hwire
      obtain ⟨wire₁, hwire₁, hwire⟩ := bind_eq_some_iff.mp hwire
      rw [hrecord]
      apply bind_eq_some_iff.mpr
      refine ⟨r.after [stamp false record] wire₁, congrArg (Option.map _) hwire₁, ?_⟩
      apply (ih (r := r.after _ _) hnew).mpr
      refine ⟨rest, wire, hrest, hwire, ?_⟩
      rw [hr', Restoring.after_after]
      rfl

/-- One record of a journal, which the first one opens. -/
def restoreSource (rules : RestoreRules K M S) (now : String) (r : Restoring K M S)
    (source : WireRecord) : Option (Restoring K M S) := do
  let opened ← if r.hasRecords then some r else openJournal rules.text now source r
  restoreRecord rules opened source

theorem foldlM_restoreLine (now : String) (journal : List Json) (r : Restoring K M S) :
    journal.foldlM (restoreLine rules now) r = (wireRecords journal).foldlM (restoreSource rules now) r := by
  rw [wireRecords, foldlM_filterMap]
  congr 1
  funext r candidate
  unfold restoreLine
  cases isWireRecord candidate <;> rfl

theorem foldlM_restoreSource (now : String) (sources : List WireRecord)
    (hnew : r.newerWireVersion = false) (hopen : r.hasRecords = true) :
    sources.foldlM (restoreSource rules now) r = sources.foldlM (restoreRecord rules) r := by
  induction sources generalizing r with
  | nil => rfl
  | cons source sources ih =>
    have hsource : restoreSource rules now r source = restoreRecord rules r source := by
      unfold restoreSource
      rw [if_pos hopen]
      rfl
    rw [foldlM_cons, foldlM_cons, hsource]
    cases hfirst : restoreRecord rules r source with
    | none => rfl
    | some r₁ =>
      rw [restoreRecord_eq source hnew] at hfirst
      obtain ⟨record, _, hmap⟩ := bind_eq_some_iff.mp hfirst
      obtain ⟨wire, _, hafter⟩ := map_eq_some_iff.mp hmap
      subst hafter
      exact ih hnew hopen

end

/-- The first records of the journal that is written, if one is. -/
def headerRecords (now : String) : Option String → Option (List LiveRecord)
  | none => some [createWireMetadataRecord now]
  | some version => if version = WIRE_PROTOCOL_VERSION then none else some []

theorem migratable_later (hzero : version ≠ some "1.0")
    (hone : version ≠ some "1.1") (source : WireRecord) : Migratable text version source := by
  constructor
  · intro h
    exact absurd h hzero
  · intro h
    exact absurd h (not_or.mpr ⟨hzero, hone⟩)

/-- What a version that the journal names gives. -/
structure ResolvesTo (text : TextRules) (version : String) (migrations : List WireMigration) : Prop where
  older : isNewerWireVersion text version = false
  resolved : resolveWireMigrations text version = some migrations
  migrates : ∀ source type, recordType source = some type →
    MigratesWhen migrations source (Migratable text (some version) source)

theorem resolvesTo_later
    (holder : isNewerWireVersion text version = false)
    (hresolved : resolveWireMigrations text version = some migrations)
    (hgentle : ∀ migration ∈ migrations, migration.Gentle)
    (hzero : version ≠ "1.0") (hone : version ≠ "1.1") : ResolvesTo text version migrations where
  older := holder
  resolved := hresolved
  migrates := by
    intro source type htype
    apply migratesWhen_gentle hgentle htype
    apply migratable_later
    · exact fun h => hzero (some.inj h)
    · exact fun h => hone (some.inj h)

theorem older_of_lt (minor : Nat) (hdigit : minor < 10)
    (hparts : versionParts version = ["1", Nat.repr minor]) (hlt : compare (minor : ℚ) 5 = .lt) :
    isNewerWireVersion text version = false := by
  rw [isNewerWireVersion, compare_lt text minor hdigit hparts hlt]
  rfl

theorem older_current (text : TextRules) : isNewerWireVersion text WIRE_PROTOCOL_VERSION = false := by
  rw [isNewerWireVersion, compare_current]
  rfl

theorem resolve_supported (text : TextRules) (h : version ∈ supportedVersions) :
    ∃ migrations, ResolvesTo text version migrations := by
  have hgentle := laterMigrations_gentle
  simp only [supportedVersions, mem_cons, not_mem_nil, or_false] at h
  obtain rfl | rfl | rfl | rfl | rfl | rfl := h
  · refine ⟨_, older_of_lt 0 (by decide) (by decide) (by decide), resolveFrom_zero text 0, ?_⟩
    intro source type htype
    have hzero := migratesWhen_zero text htype
    refine ⟨hzero.plain.trans ?_, hzero.metadata⟩
    simp [Migratable]
  · refine ⟨_, older_of_lt 1 (by decide) (by decide) (by decide), resolveFrom_one text 1, ?_⟩
    intro source type htype
    have hone := migratesWhen_one text htype
    refine ⟨hone.plain.trans ?_, hone.metadata⟩
    simp [Migratable]
  · exact ⟨_, resolvesTo_later (older_of_lt 2 (by decide) (by decide) (by decide)) (resolveFrom_two text 2)
      hgentle (by decide) (by decide)⟩
  · exact ⟨_, resolvesTo_later (older_of_lt 3 (by decide) (by decide) (by decide)) (resolveFrom_three text 3)
      (fun migration hin => hgentle migration (mem_cons_of_mem _ hin)) (by decide) (by decide)⟩
  · exact ⟨_, resolvesTo_later (older_of_lt 4 (by decide) (by decide) (by decide)) (resolveFrom_four text 4)
      (fun migration hin => hgentle migration
        (mem_cons_of_mem _ (mem_cons_of_mem _ hin))) (by decide) (by decide)⟩
  · exact ⟨[], resolvesTo_later (older_current text) (resolveFrom_current text 5)
      (forall_mem_nil _) (by decide) (by decide)⟩

theorem journalMigrations_of_resolves (h : ResolvesTo text version migrations) :
    journalMigrations text (some version) = migrations := by
  rw [journalMigrations, h.resolved, getD_some]

theorem journalMigrations_current (text : TextRules) : journalMigrations text (some WIRE_PROTOCOL_VERSION) = [] := by
  rw [journalMigrations, resolveWireMigrations, resolveFrom_current, getD_some]

theorem openJournal_supported (text : TextRules)
    (hsupported : Supported journal) (hfirst : (wireRecords journal).head? = some first)
    (hrewritten : r.rewrittenRecords = none) (now : String) :
    openJournal text now first r = some { r with
      hasRecords := true
      migrations := journalMigrations text (journalVersion journal)
      rewrittenRecords := headerRecords now (journalVersion journal) } := by
  have hversion : journalVersion journal =
      if recordType first = some "metadata" then isWireMetadataRecord first else none := by
    rw [journalVersion, hfirst, bind_some]
  unfold openJournal
  by_cases hmeta : recordType first = some "metadata"
  · obtain ⟨version, hin, hread⟩ := hsupported first hfirst hmeta
    obtain ⟨migrations, hresolves⟩ := resolve_supported text hin
    have hheader : headerRecords now (some version) =
        if version ≠ WIRE_PROTOCOL_VERSION then some [] else none := by
      rw [headerRecords]
      by_cases hcurrent : version = WIRE_PROTOCOL_VERSION <;> simp [hcurrent]
    rw [if_neg (not_not_intro hmeta), hversion, if_pos hmeta, hread]
    dsimp only [bind_eq_bind, bind_some]
    rw [hresolves.older, if_neg Bool.false_ne_true, hresolves.resolved, bind_some, hrewritten,
      journalMigrations_of_resolves hresolves, hheader]
  · rw [if_pos hmeta, hversion, if_neg hmeta]
    rfl

section
variable [DecidableEq M] {rules : RestoreRules K M S}

def freshWire (registry : Registry K M S) : WireService K M S := { models := registry.initial }

def restoredFrom (rules : RestoreRules K M S) (header : Option (List LiveRecord))
    (records : List LiveRecord) (wire : WireService K M S) : Restored K M S where
  wire := wire.rehydrateModels rules.registry
  rewritten := header.map (· ++ records)
  replayed := opRecords records

/-- A restore migrates the records, replays them and writes them behind a header. -/
theorem restoreJournal_eq_some (hsupported : Supported journal) (now : String) :
    restoreJournal rules now journal = some restored ↔ ∃ records wire,
        migratedRecords (journalMigrations rules.text (journalVersion journal))
          (wireRecords journal) = some records ∧
        (opRecords records).foldlM (replayLive rules) (freshWire rules.registry) = some wire ∧
        restored = restoredFrom rules (headerRecords now (journalVersion journal)) records wire := by
  unfold restoreJournal
  rw [foldlM_restoreLine]
  cases hsources : wireRecords journal with
  | nil =>
    have hversion : journalVersion journal = none := by
      rw [journalVersion, hsources]
      rfl
    rw [hversion]
    constructor
    · intro h
      cases h
      exact ⟨[], freshWire rules.registry, rfl, rfl, rfl⟩
    · intro h
      obtain ⟨records, wire, hrecords, hwire, hrestored⟩ := h
      have hnil : records = [] := (some.inj hrecords).symm
      subst hnil
      have hsame : wire = freshWire rules.registry := (some.inj hwire).symm
      subst hsame
      rw [hrestored]
      rfl
  | cons first sources =>
    have hfirst : (wireRecords journal).head? = some first := by
      rw [hsources]
      rfl
    have hopened := openJournal_supported rules.text
      (r := { wire := freshWire rules.registry }) hsupported hfirst rfl now
    have hfold : (first :: sources).foldlM (restoreSource rules now)
        { wire := freshWire rules.registry } =
        (first :: sources).foldlM (restoreRecord rules)
          { wire := freshWire rules.registry
            hasRecords := true
            migrations := journalMigrations rules.text (journalVersion journal)
            rewrittenRecords := headerRecords now (journalVersion journal) } := by
      rw [← foldlM_restoreSource now (first :: sources) rfl rfl, foldlM_cons, foldlM_cons]
      unfold restoreSource
      rw [if_neg Bool.false_ne_true, hopened, if_pos rfl]
    constructor
    · intro h
      obtain ⟨r, hr, hfinish⟩ := bind_eq_some_iff.mp h
      obtain ⟨records, wire, hrecords, hwire, hafter⟩ := (foldlM_restoreRecord _ rfl).mp (hfold.symm.trans hr)
      subst hafter
      exact ⟨records, wire, hrecords, hwire, (some.inj hfinish).symm⟩
    · intro h
      obtain ⟨records, wire, hrecords, hwire, hrestored⟩ := h
      exact bind_eq_some_iff.mpr ⟨_, hfold.trans ((foldlM_restoreRecord _ rfl).mpr
        ⟨records, wire, hrecords, hwire, rfl⟩), congrArg some hrestored.symm⟩

end

end Echadron.Wire
