import Echadron.Config.ConfigService

namespace Echadron.Config
open Lib List Option

/-! What a write leaves in the document, and how a fresh load reads it. -/

/-- Both transforms are the default ones. -/
def ConfigRegistry.DefaultHooks (registry : ConfigRegistry) : Prop :=
  ∀ domain sec, registry.sections.get domain = some sec → sec.fromToml = none ∧ sec.toToml = none

theorem ConfigRegistry.DefaultHooks.bind {registry : ConfigRegistry} (h : registry.DefaultHooks) (domain : String) :
    (registry.sections.get domain).bind ConfigSection.fromToml = none ∧
      (registry.sections.get domain).bind ConfigSection.toToml = none := by
  cases hsec : registry.sections.get domain with
  | none => exact ⟨rfl, rfl⟩
  | some sec => exact h domain sec hsec

/-- What a write leaves under the key of a section. -/
def writtenSection (old value : Option ConfigValue) : Option ConfigValue :=
  value.bind fun value =>
    match value.asRecord with
    | none => some value
    | some fields =>
      let converted := plainObjectToToml fields (some (.ofRecord (cloneRecord old)))
      if converted.size > 0 then some (.ofRecord converted) else none

theorem ConfigRegistry.DefaultHooks.get_applySectionToToml {registry : ConfigRegistry} (h : registry.DefaultHooks)
    (rawSnake : ResolvedConfig) (domain : String) (value : Option ConfigValue) (key : String) :
    (registry.applySectionToToml rawSnake domain value).get key =
      if key = camelToSnake domain then writtenSection (rawSnake.get key) value else rawSnake.get key := by
  have hstage (value : Option ConfigValue) : (ConfigRegistry.stage rawSnake (camelToSnake domain) value).get key =
        if key = camelToSnake domain then value else rawSnake.get key := by
    cases value with
    | none => exact JsMap.get_delete ..
    | some value => exact JsMap.get_set ..
  have happly : registry.applySectionToToml rawSnake domain value = ConfigRegistry.stage rawSnake
      (camelToSnake domain) (writtenSection (rawSnake.get (camelToSnake domain)) value) := by
    cases value with
    | none => rfl
    | some value =>
      simp only [ConfigRegistry.applySectionToToml, (h.bind domain).2, writtenSection, bind_some]
      cases value.asRecord with
      | none => rfl
      | some fields =>
        dsimp only
        split <;> rfl
  rw [happly, hstage]
  split
  · rename_i heq
    rw [heq]
  · rfl

def Spelled (key : String) : Prop := snakeToCamel (camelToSnake key) = key

theorem Spelled.inj (h : Spelled key) (h' : Spelled key')
    (heq : camelToSnake key = camelToSnake key') : key = key' := by
  rw [← h, heq, h']

theorem get_written {registry : ConfigRegistry} (hhooks : registry.DefaultHooks) {domains : List String}
    (hspelled : ∀ domain ∈ domains, Spelled domain) (hnodup : domains.Nodup) (value : String → Option ConfigValue)
    (rawSnake : ResolvedConfig) (key : String) :
    (domains.foldl (fun rawSnake domain => registry.applySectionToToml rawSnake domain (value domain)) rawSnake).get
        key =
      match domains.find? fun domain => key = camelToSnake domain with
      | some domain => writtenSection (rawSnake.get key) (value domain)
      | none => rawSnake.get key := by
  induction domains generalizing rawSnake with
  | nil => rfl
  | cons domain domains ih =>
    obtain ⟨hdomain, hdomains⟩ := forall_mem_cons.mp hspelled
    obtain ⟨hfirst, hrest⟩ := nodup_cons.mp hnodup
    rw [foldl_cons, ih hdomains hrest, hhooks.get_applySectionToToml, find?_cons]
    by_cases hkey : key = camelToSnake domain
    · have hnone : (domains.find? fun domain => key = camelToSnake domain) = none := by
        rw [find?_eq_none]
        intro domain' hmem heq
        have heq' := hdomain.inj (hdomains domain' hmem) (hkey.symm.trans (of_decide_eq_true heq))
        exact hfirst (heq' ▸ hmem)
      rw [hnone, if_pos hkey, decide_eq_true hkey]
    · rw [if_neg hkey, decide_eq_false hkey]

/-- The document holds what a copy through JSON keeps, and spells no two keys of a record alike. -/
structure Plain (onDisk : ResolvedConfig) : Prop where
  copied : ∀ key value, onDisk.get key = some value → value.cloneUnknown = value ∧ value.holdable = true
  distinct : Distinct snakeToCamel onDisk
  fields : ∀ key value, onDisk.get key = some value → ∀ m ∈ value.asRecord, Distinct snakeToCamel m

/-- A record that is written is not empty, and has a field for each that the section has on disk. -/
structure Covers (old value : Option ConfigValue) : Prop where
  holdable : ∀ v ∈ value, v.holdable = true
  nonempty : ∀ v ∈ value, ∀ m ∈ v.asRecord, m.keys ≠ []
  spelled : ∀ v ∈ value, ∀ m ∈ v.asRecord, ∀ key ∈ m.keys, Spelled key
  covered : ∀ v ∈ value, ∀ m ∈ v.asRecord, ∀ m' ∈ old.bind ConfigValue.asRecord, ∀ key' ∈ m'.keys,
    ∃ key ∈ m.keys, key' = camelToSnake key

section Covers

variable {old : Option ConfigValue} {value : ConfigValue} {m : ResolvedConfig}

theorem keys_cloneRecord (value : Option ConfigValue) (key : String) :
    key ∈ (cloneRecord value).keys ↔ ∃ m ∈ value.bind ConfigValue.asRecord, key ∈ m.keys := by
  rw [cloneRecord]
  cases value.bind ConfigValue.asRecord with
  | none => simp
  | some m => simp [JsMap.mem_keys_iff, JsMap.get_mapValues]

section

variable (h : Covers old (some value)) (hm : m ∈ value.asRecord)
include h hm

theorem Covers.distinct : Distinct camelToSnake m := by
  intro key hkey key' hkey' heq
  exact (h.spelled value rfl m hm key hkey).inj (h.spelled value rfl m hm key' hkey') heq

theorem Covers.get_converted : (∀ key v, m.get key = some v →
      (plainObjectToToml m (some (.ofRecord (cloneRecord old)))).get (camelToSnake key) = some v) ∧
    ∀ key' ∈ (plainObjectToToml m (some (.ofRecord (cloneRecord old)))).keys, ∃ key ∈ m.keys,
      key' = camelToSnake key := by
  constructor
  · exact fun key v hget => (h.distinct hm).get_respell hget
  · intro key' hkey'
    by_contra hnone
    have hnot : ∀ key ∈ m.keys, camelToSnake key ≠ key' := fun key hkey heq => hnone ⟨key, hkey, heq.symm⟩
    obtain ⟨v, hv⟩ := (JsMap.mem_keys_iff _ key').mp hkey'
    have hrest : (cloneRecord (some (.ofRecord (cloneRecord old)))).get key' = some v :=
      (get_respell_of_not_spelled hnot).symm.trans hv
    obtain ⟨m', hm', hmem⟩ := (keys_cloneRecord _ key').mp ((JsMap.mem_keys_iff _ key').mpr ⟨v, hrest⟩)
    cases hm'
    have hkeys : key' ∈ (cloneRecord old).keys := by
      rw [JsMap.mem_keys_iff] at hmem ⊢
      rwa [get_fieldsOf_entries] at hmem
    obtain ⟨m', hm', hmem⟩ := (keys_cloneRecord _ key').mp hkeys
    exact hnone (h.covered value rfl m hm m' hm' key' hmem)

theorem Covers.readBack {read : ResolvedConfig}
    (hread : SameRecord read (plainObjectToToml m (some (.ofRecord (cloneRecord old))))) :
    SameRecord (transformPlainObject read) m := by
  obtain ⟨hget, hkeys⟩ := h.get_converted hm
  have hspelled : ∀ key' ∈ read.keys, ∃ key ∈ m.keys, key' = camelToSnake key :=
    fun key' hkey' => hkeys key' ((hread.mem_keys key').mp hkey')
  have hcamel : ∀ key ∈ m.keys, snakeToCamel (camelToSnake key) = key := h.spelled value rfl m hm
  have hdistinct : Distinct snakeToCamel read := by
    intro key₁ hkey₁ key₂ hkey₂ heq
    obtain ⟨key, hkey, rfl⟩ := hspelled key₁ hkey₁
    obtain ⟨key', hkey', rfl⟩ := hspelled key₂ hkey₂
    rw [hcamel key hkey, hcamel key' hkey'] at heq
    rw [heq]
  intro key
  cases hvalue : m.get key with
  | none =>
    have hnot : ∀ key' ∈ read.keys, snakeToCamel key' ≠ key := by
      intro key' hkey' heq
      obtain ⟨key₁, hkey₁, rfl⟩ := hspelled key' hkey'
      rw [hcamel key₁ hkey₁] at heq
      exact (JsMap.get_eq_none_iff m key).mp hvalue (heq ▸ hkey₁)
    rw [transformPlainObject, get_respell_of_not_spelled hnot]
    exact .none
  | some v =>
    have hkey : key ∈ m.keys := (JsMap.mem_keys_iff m key).mpr ⟨v, hvalue⟩
    have hrel := hread (camelToSnake key)
    rw [hget key v hvalue] at hrel
    obtain ⟨v', hv'⟩ : ∃ v', read.get (camelToSnake key) = some v' := by
      cases hv' : read.get (camelToSnake key) with
      | none =>
        rw [hv'] at hrel
        cases hrel
      | some v' => exact ⟨v', rfl⟩
    rw [hv'] at hrel
    have hrespell := @Distinct.get_respell _ (fun _ value => value) _ .empty hdistinct _ _ hv'
    rw [hcamel key hkey] at hrespell
    rw [transformPlainObject, hrespell]
    exact hrel

end

end Covers

theorem SameRecord.of_asRecord (h : SameRecord m' m)
    (hm : value.asRecord = some m) (hne : m.keys ≠ []) : (ConfigValue.ofRecord m').Same value := by
  cases value with
  | obj fields =>
    cases hm
    apply ConfigValue.Same.obj
    intro key
    rw [get_fieldsOf_entries]
    exact h key
  | date text =>
    cases hm
    exact absurd rfl hne
  | _ => cases hm

theorem holdable_ofRecord (h : ∀ key v, m.get key = some v → v.holdable = true) :
    (ConfigValue.ofRecord m).holdable = true := by
  have hfields (fields : List (String × ConfigValue)) (hall : ∀ field ∈ fields, field.2.holdable = true) :
      ConfigValue.holdableFields fields = true := by
    induction fields with
    | nil => rfl
    | cons field fields ih =>
      obtain ⟨hfield, hrest⟩ := forall_mem_cons.mp hall
      rw [ConfigValue.holdableFields, hfield, ih hrest]
      rfl
  apply hfields
  exact fun field hfield => h field.1 field.2 ((JsMap.mem_entries_iff m field.1 field.2).mp hfield)

theorem mem_of_get_foldl_set {fields : List (String × ConfigValue)} {out : ResolvedConfig}
    (h : (fields.foldl (fun out field => out.set field.1 field.2) out).get key = some v) :
    (key, v) ∈ fields ∨ out.get key = some v := by
  induction fields generalizing out with
  | nil => exact .inr h
  | cons field fields ih =>
    obtain hmem | hget := ih h
    · exact .inl (mem_cons_of_mem _ hmem)
    · rw [JsMap.get_set] at hget
      split at hget
      · rename_i heq
        cases hget
        rw [heq]
        exact .inl mem_cons_self
      · exact .inr hget

theorem holdable_of_asRecord {value : ConfigValue} (h : value.holdable = true) {m : ResolvedConfig}
    (hm : m ∈ value.asRecord) (hget : m.get key = some v) : v.holdable = true := by
  have hfields (fields : List (String × ConfigValue)) (hall : ConfigValue.holdableFields fields = true) :
      ∀ field ∈ fields, field.2.holdable = true := by
    induction fields with
    | nil => exact fun _ hmem => nomatch hmem
    | cons field fields ih =>
      rw [ConfigValue.holdableFields, Bool.and_eq_true] at hall
      exact forall_mem_cons.mpr ⟨hall.1, ih hall.2⟩
  cases value with
  | obj fields =>
    cases hm
    obtain hmem | hget := mem_of_get_foldl_set hget
    · exact hfields fields h _ hmem
    · cases hget
  | date text =>
    cases hm
    cases hget
  | _ => cases hm

theorem Covers.holdable_written {old value : Option ConfigValue} (h : Covers old value)
    (hwritten : writtenSection old value = some written) : written.holdable = true := by
  cases value with
  | none => cases hwritten
  | some value =>
    have hvalue := h.holdable value rfl
    rw [writtenSection, bind_some] at hwritten
    cases hrecord : value.asRecord with
    | none =>
      rw [hrecord] at hwritten
      exact some.inj hwritten ▸ hvalue
    | some m =>
      rw [hrecord] at hwritten
      dsimp only at hwritten
      split at hwritten
      · cases hwritten
        obtain ⟨hget, hkeys⟩ := h.get_converted hrecord
        apply holdable_ofRecord
        intro key' v hv
        obtain ⟨key, hkey, rfl⟩ := hkeys key' ((JsMap.mem_keys_iff _ key').mpr ⟨v, hv⟩)
        obtain ⟨v', hv'⟩ := (JsMap.mem_keys_iff m key).mp hkey
        obtain rfl := mem_unique (hget key v' hv') hv
        exact holdable_of_asRecord hvalue hrecord hv'
      · cases hwritten

theorem Covers.load (h : Covers old value) {read : Option ConfigValue}
    (hread : Option.Rel ConfigValue.Same read (writtenSection old value)) :
    Option.Rel ConfigValue.Same (read.map defaultFromToml) value := by
  cases value with
  | none =>
    cases hread
    exact .none
  | some value =>
    rw [writtenSection, bind_some] at hread
    cases hrecord : value.asRecord with
    | none =>
      rw [hrecord] at hread
      cases hread with
      | some hsame =>
        rename_i v
        have hnone : v.asRecord = none := by
          obtain ⟨hnone, -⟩ | ⟨m, m', -, hm', -⟩ := hsame.asRecord
          · exact hnone
          · cases hrecord.symm.trans hm'
        rw [map_some, defaultFromToml, hnone]
        exact .some hsame
    | some m =>
      have hsize : (plainObjectToToml m (some (.ofRecord (cloneRecord old)))).size > 0 := by
        obtain ⟨key, hkey⟩ := exists_mem_of_ne_nil _ (h.nonempty value rfl m hrecord)
        obtain ⟨v, hv⟩ := (JsMap.mem_keys_iff m key).mp hkey
        have hget := (h.get_converted hrecord).1 key v hv
        have hmem := (JsMap.mem_keys_iff _ _).mpr ⟨v, hget⟩
        apply Nat.pos_of_ne_zero
        intro hzero
        rw [(JsMap.size_eq_zero_iff _).mp hzero] at hmem
        cases hmem
      rw [hrecord] at hread
      dsimp only at hread
      rw [if_pos hsize] at hread
      cases hread with
      | some hsame =>
        obtain ⟨-, hnone⟩ | ⟨m₁, m₂, hm₁, hm₂, hsame⟩ := hsame.asRecord
        · cases hnone
        · cases hm₂
          have hread : SameRecord m₁ (plainObjectToToml m (some (.ofRecord (cloneRecord old)))) := by
            intro key
            rw [← get_fieldsOf_entries (plainObjectToToml m _)]
            exact hsame key
          rw [map_some, defaultFromToml, hm₁]
          exact .some ((h.readBack hrecord hread).of_asRecord hrecord (h.nonempty value rfl m hrecord))

section Load

variable {registry : ConfigRegistry} {onDisk staged read : ResolvedConfig} {domains : List String}

theorem ConfigRegistry.DefaultHooks.transformTomlData (h : registry.DefaultHooks) (data : ResolvedConfig) :
    registry.transformTomlData data =
      respell snakeToCamel (fun _ value => defaultFromToml value) data.entries .empty := by
  have hconvert : (fun key value => registry.fromToml (snakeToCamel key) value) =
      fun _ value => defaultFromToml value := by
    funext key value
    rw [ConfigRegistry.fromToml, (h.bind _).1]
  rw [ConfigRegistry.transformTomlData, hconvert]

theorem Plain.get_clone (h : Plain onDisk) (key : String) :
    (onDisk.mapValues ConfigValue.cloneUnknown).get key = onDisk.get key := by
  rw [JsMap.get_mapValues]
  cases hget : onDisk.get key with
  | none => rfl
  | some value => exact congrArg some (h.copied key value hget).1

/-- Sections that are written to a document where no key but its own is spelled as one of them, and that have all
that the document has of them. -/
structure Faithful (onDisk : ResolvedConfig) (domains : List String) (staged : ResolvedConfig) : Prop where
  plain : Plain onDisk
  spelled : ∀ domain ∈ domains, Spelled domain
  alone : ∀ domain ∈ domains, ∀ key ∈ onDisk.keys, snakeToCamel key = domain → key = camelToSnake domain
  covers : ∀ domain ∈ domains, Covers (onDisk.get (camelToSnake domain)) (staged.get domain)

structure Written (registry : ConfigRegistry) (onDisk : ResolvedConfig) (domains : List String)
    (staged : ResolvedConfig) : Prop extends Faithful onDisk domains staged where
  nodup : domains.Nodup
  frame : ∀ domain, domain ∉ domains → staged.get domain = (registry.transformTomlData onDisk).get domain

def writtenDocument (registry : ConfigRegistry) (onDisk : ResolvedConfig) (domains : List String)
    (staged : ResolvedConfig) : ResolvedConfig :=
  domains.foldl (fun rawSnake domain => registry.applySectionToToml rawSnake domain (staged.get domain))
    (onDisk.mapValues ConfigValue.cloneUnknown)

namespace Written

variable (hhooks : registry.DefaultHooks) (h : Written registry onDisk domains staged)
include hhooks h

theorem get_of_mem {domain : String} (hdomain : domain ∈ domains) :
    (writtenDocument registry onDisk domains staged).get (camelToSnake domain) =
      writtenSection (onDisk.get (camelToSnake domain)) (staged.get domain) := by
  rw [writtenDocument, get_written hhooks h.spelled h.nodup, h.plain.get_clone]
  cases hfind : domains.find? fun domain' => camelToSnake domain = camelToSnake domain' with
  | none => exact absurd (decide_eq_true rfl) ((find?_eq_none.mp hfind) domain hdomain)
  | some domain' =>
    have hfound := find?_some hfind
    have heq := of_decide_eq_true hfound
    rw [(h.spelled domain hdomain).inj (h.spelled domain' (mem_of_find?_eq_some hfind)) heq]

theorem get_of_not_mem {key : String} (hkey : ∀ domain ∈ domains, key ≠ camelToSnake domain) :
    (writtenDocument registry onDisk domains staged).get key = onDisk.get key := by
  rw [writtenDocument, get_written hhooks h.spelled h.nodup, h.plain.get_clone]
  cases hfind : domains.find? fun domain => key = camelToSnake domain with
  | none => rfl
  | some domain =>
    have hfound := find?_some hfind
    have heq := of_decide_eq_true hfound
    exact absurd heq (hkey domain (mem_of_find?_eq_some hfind))

theorem mem_keys (hkey : key ∈ (writtenDocument registry onDisk domains staged).keys) :
    (∃ domain ∈ domains, key = camelToSnake domain) ∨
      (∀ domain ∈ domains, key ≠ camelToSnake domain) ∧ key ∈ onDisk.keys := by
  by_cases hwritten : ∃ domain ∈ domains, key = camelToSnake domain
  · exact .inl hwritten
  · have hnot : ∀ domain ∈ domains, key ≠ camelToSnake domain :=
      fun domain hmem heq => hwritten ⟨domain, hmem, heq⟩
    rw [JsMap.mem_keys_iff, h.get_of_not_mem hhooks hnot, ← JsMap.mem_keys_iff] at hkey
    exact .inr ⟨hnot, hkey⟩

theorem load (hread : SameRecord read (writtenDocument registry onDisk domains staged)) :
    SameRecord (registry.transformTomlData read) staged := by
  intro domain
  rw [hhooks.transformTomlData]
  by_cases hdomain : domain ∈ domains
  · have hcamel : snakeToCamel (camelToSnake domain) = domain := h.spelled domain hdomain
    have honly : ∀ key ∈ read.keys, snakeToCamel key = snakeToCamel (camelToSnake domain) →
        key = camelToSnake domain := by
      intro key hkey heq
      rw [hcamel] at heq
      obtain ⟨domain', hdomain', rfl⟩ | ⟨-, hkey⟩ := h.mem_keys hhooks ((hread.mem_keys key).mp hkey)
      · have hcamel' : snakeToCamel (camelToSnake domain') = domain' := h.spelled domain' hdomain'
        rw [hcamel'.symm.trans heq]
      · exact h.alone domain hdomain key hkey heq
    have hget := @get_respell_at _ (fun _ value => defaultFromToml value) _ _ honly
    rw [hcamel] at hget
    rw [hget]
    apply (h.covers domain hdomain).load
    rw [← h.get_of_mem hhooks hdomain]
    exact hread _
  · rw [h.frame domain hdomain, hhooks.transformTomlData]
    have hwritten {key : String} (heq : snakeToCamel key = domain) :
        ∀ domain' ∈ domains, key ≠ camelToSnake domain' := by
      rintro domain' hdomain' rfl
      exact hdomain (heq ▸ (h.spelled domain' hdomain').symm ▸ hdomain')
    have hkept {key : String} (hkey : key ∈ read.keys) (heq : snakeToCamel key = domain) : key ∈ onDisk.keys := by
      obtain ⟨domain', hdomain', rfl⟩ | ⟨-, hkey⟩ := h.mem_keys hhooks ((hread.mem_keys key).mp hkey)
      · exact absurd rfl (hwritten heq domain' hdomain')
      · exact hkey
    by_cases hspelled : ∃ key ∈ onDisk.keys, snakeToCamel key = domain
    · obtain ⟨key, hkey, rfl⟩ := hspelled
      have hdisk := @get_respell_at _ (fun _ value => defaultFromToml value) onDisk key
        fun key' hkey' heq => h.plain.distinct key' hkey' key hkey heq
      have hloaded := @get_respell_at _ (fun _ value => defaultFromToml value) read key
        fun key' (hkey' : key' ∈ read.keys) heq => h.plain.distinct key' (hkept hkey' heq) key hkey heq
      have hsame := hread key
      rw [h.get_of_not_mem hhooks (hwritten rfl)] at hsame
      rw [hdisk, hloaded]
      apply rel_map hsame
      intro v value hvalue hsame
      exact defaultFromToml_same hsame (h.plain.fields key value hvalue)
    · rw [get_respell_of_not_spelled fun key hkey heq => hspelled ⟨key, hkey, heq⟩,
        get_respell_of_not_spelled fun key hkey heq => hspelled ⟨key, hkept hkey heq, heq⟩]
      exact .none

theorem holdable
    (hvalue : (writtenDocument registry onDisk domains staged).get key = some value) : value.holdable = true := by
  have hkey := (JsMap.mem_keys_iff _ key).mpr ⟨value, hvalue⟩
  obtain ⟨domain, hdomain, rfl⟩ | ⟨hnot, -⟩ := h.mem_keys hhooks hkey
  · rw [h.get_of_mem hhooks hdomain] at hvalue
    exact (h.covers domain hdomain).holdable_written hvalue
  · rw [h.get_of_not_mem hhooks hnot] at hvalue
    exact (h.plain.copied key value hvalue).2

end Written

end Load

/-! Runs of calls that write sections. -/

variable {registry : ConfigRegistry} {getEnv : String → Option String}

theorem stage_get_of_ne (raw : ResolvedConfig) (value : Option ConfigValue)
    (hne : domain' ≠ domain) : (ConfigRegistry.stage raw domain value).get domain' = raw.get domain' := by
  cases value with
  | none => exact JsMap.get_delete_of_ne raw hne
  | some value => exact JsMap.get_set_of_ne raw value hne

theorem stageReplaced_get_of_ne
    (h : registry.stageReplaced getEnv rawSnake raw domain value = some staged)
    (hne : domain' ≠ domain) : staged.get domain' = raw.get domain' := by
  rw [ConfigRegistry.stageReplaced] at h
  split at h
  · cases h
    exact stage_get_of_ne raw none hne
  · obtain ⟨validated, -, rfl⟩ := map_eq_some_iff.mp h
    exact stage_get_of_ne raw validated hne

namespace ConfigCall

theorem domains_nodup (call : ConfigCall) : call.domains.Nodup := by
  cases call with
  | set domain patch => exact nodup_singleton domain
  | replace domain value => exact nodup_singleton domain
  | replaceSections sections => exact sections.keys_nodup

theorem rebase_frame {call : ConfigCall} (h : call.rebase registry getEnv raw rawSnake = some staged)
    (hdomain : domain ∉ call.domains) : staged.get domain = raw.get domain := by
  cases call with
  | set domain' patch =>
    have hne : domain ≠ domain' := fun heq => hdomain (mem_singleton.mpr heq)
    obtain ⟨validated, -, h⟩ := bind_eq_some_iff.mp h
    split at h
    · cases h
      exact stage_get_of_ne raw none hne
    · obtain ⟨_, -, h⟩ := bind_eq_some_iff.mp h
      cases h
      exact stage_get_of_ne raw _ hne
  | replace domain' value => exact stageReplaced_get_of_ne h fun heq => hdomain (mem_singleton.mpr heq)
  | replaceSections sections =>
    have hfold (entries : List (String × Option ConfigValue)) (hnot : domain ∉ entries.map Prod.fst)
        {raw : ResolvedConfig} (h : entries.foldlM (fun raw entry =>
          registry.stageReplaced getEnv rawSnake raw entry.1 (orUndefined entry.2)) raw = some staged) :
        staged.get domain = raw.get domain := by
      induction entries generalizing raw with
      | nil => exact congrArg (JsMap.get · domain) (some.inj h).symm
      | cons entry entries ih =>
        obtain ⟨hne, hrest⟩ := not_or.mp (mem_cons.not.mp hnot)
        obtain ⟨next, hnext, h⟩ := bind_eq_some_iff.mp h
        exact (ih hrest h).trans (stageReplaced_get_of_ne hnext hne)
    exact hfold sections.entries hdomain h

end ConfigCall

def Stores (store : ResolvedConfig → Option ResolvedConfig) : Prop :=
  ∀ document read, (∀ key value, document.get key = some value → value.holdable = true) →
    store document = some read → SameRecord read document

namespace ConfigService

variable {store : ResolvedConfig → Option ResolvedConfig}

abbrev step (registry : ConfigRegistry) (getEnv : String → Option String)
    (store : ResolvedConfig → Option ResolvedConfig) (s : ConfigService) (call : ConfigCall) : ConfigService :=
  (perform registry getEnv store s call).1

/-- The sections in memory are those of a fresh load. -/
def Agrees (registry : ConfigRegistry) (s : ConfigService) : Prop :=
  SameRecord (load registry s.document).raw s.raw

/-- A call writes its sections faithfully, where it gets so far. -/
def Keeps (registry : ConfigRegistry) (getEnv : String → Option String) (s : ConfigService) (call : ConfigCall) :
    Prop :=
  ∀ onDisk ∈ s.document, ∀ staged ∈ call.rebase registry getEnv (registry.transformTomlData onDisk)
    (onDisk.mapValues ConfigValue.cloneUnknown), Faithful onDisk call.domains staged

/-- What a call does: it leaves all as it was, or writes what it staged. -/
theorem perform_cases (s : ConfigService) (call : ConfigCall) :
    ((s.step registry getEnv store call).document = s.document ∧
      (s.step registry getEnv store call).raw = s.raw) ∨
    (perform registry getEnv store s call).2 = false ∧ ∃ onDisk staged read, s.document = some onDisk ∧
      call.rebase registry getEnv (registry.transformTomlData onDisk)
        (onDisk.mapValues ConfigValue.cloneUnknown) = some staged ∧
      store (writtenDocument registry onDisk call.domains staged) = some read ∧
      (s.step registry getEnv store call).document = some read ∧
      (s.step registry getEnv store call).raw = staged := by
  obtain ⟨document, rawSnake, raw, tainted⟩ := s
  rw [step, perform]
  split
  · exact .inl ⟨rfl, rfl⟩
  · rw [persistDomains]
    split
    · exact .inl ⟨rfl, rfl⟩
    · cases document with
      | none => exact .inl ⟨rfl, rfl⟩
      | some onDisk =>
        dsimp only
        cases hstaged : call.rebase registry getEnv (registry.transformTomlData onDisk)
            (onDisk.mapValues ConfigValue.cloneUnknown) with
        | none => exact .inl ⟨rfl, rfl⟩
        | some staged =>
          dsimp only
          cases hread : store (writtenDocument registry onDisk call.domains staged) with
          | none =>
            rw [writtenDocument] at hread
            rw [hread]
            exact .inl ⟨rfl, rfl⟩
          | some read =>
            have hstore := hread
            rw [writtenDocument] at hread
            rw [hread]
            exact .inr ⟨rfl, onDisk, staged, read, rfl, hstaged, hstore, rfl, rfl⟩

theorem Keeps.written {s : ConfigService} (h : Keeps registry getEnv s call) (hdocument : s.document = some onDisk)
    (hstaged : call.rebase registry getEnv (registry.transformTomlData onDisk)
      (onDisk.mapValues ConfigValue.cloneUnknown) = some staged) :
    Written registry onDisk call.domains staged where
  toFaithful := h onDisk hdocument staged hstaged
  nodup := call.domains_nodup
  frame _ hdomain := ConfigCall.rebase_frame hstaged hdomain

theorem Agrees.perform (hhooks : registry.DefaultHooks)
    (hstores : Stores store) (h : Agrees registry s) (hkeeps : Keeps registry getEnv s call) :
    Agrees registry (s.step registry getEnv store call) := by
  obtain ⟨hdocument, hraw⟩ | ⟨-, onDisk, staged, read, hdisk, hstaged, hread, hdocument, hraw⟩ :=
    @perform_cases registry getEnv store s call
  · rw [Agrees, hdocument, hraw]
    exact h
  · have hwritten := hkeeps.written hdisk hstaged
    rw [Agrees, hdocument, hraw]
    exact hwritten.load hhooks (hstores _ read (fun _ _ => hwritten.holdable hhooks) hread)

theorem Keeps.unchanged (hhooks : registry.DefaultHooks)
    (hstores : Stores store) (hkeeps : Keeps registry getEnv s call)
    (hkey : ∀ domain ∈ call.domains, key ≠ camelToSnake domain) :
    Option.Rel ConfigValue.Same (((s.step registry getEnv store call).document.getD .empty).get key)
      ((s.document.getD .empty).get key) := by
  obtain ⟨hdocument, -⟩ | ⟨-, onDisk, staged, read, hdisk, hstaged, hread, hdocument, -⟩ :=
    @perform_cases registry getEnv store s call
  · rw [hdocument]
    exact sameRecord_refl _ key
  · have hwritten := hkeeps.written hdisk hstaged
    have hsame := hstores _ read (fun _ _ => hwritten.holdable hhooks) hread key
    rw [hwritten.get_of_not_mem hhooks hkey] at hsame
    rw [hdocument, hdisk]
    exact hsame

end ConfigService

/-- In a run of calls that write their sections faithfully the sections in memory are those of a fresh load, the
next such call leaves the other entries of the document as they are, and a call that throws leaves all as it was. -/
theorem sections_kept {store : ResolvedConfig → Option ResolvedConfig} (hhooks : registry.DefaultHooks)
    (hstores : Stores store) (document : Option ResolvedConfig) {calls : List ConfigCall}
    (hkeeps : AlongFold (ConfigService.step registry getEnv store)
      (ConfigService.Keeps registry getEnv) (.load registry document) calls) {s : ConfigService}
    (hs : s = calls.foldl (ConfigService.step registry getEnv store)
      (.load registry document)) :
    SameRecord (ConfigService.load registry s.document).raw s.raw ∧ ∀ call, (s.Keeps registry getEnv call → ∀ key,
          (∀ domain ∈ call.domains, key ≠ camelToSnake domain) → Option.Rel ConfigValue.Same
            (((s.step registry getEnv store call).document.getD .empty).get key)
            ((s.document.getD .empty).get key)) ∧
        ((ConfigService.perform registry getEnv store s call).2 = true →
          (s.step registry getEnv store call).document = s.document ∧
            (s.step registry getEnv store call).raw = s.raw) := by
  constructor
  · rw [hs]
    apply hkeeps.invariant (I := ConfigService.Agrees registry)
    · exact fun s call hagrees hkeeps => hagrees.perform hhooks hstores hkeeps
    · exact sameRecord_refl _
  · intro call
    constructor
    · exact fun hcall key hkey => hcall.unchanged hhooks hstores hkey
    · intro hthrows
      obtain hsame | ⟨hreturns, -⟩ := @ConfigService.perform_cases registry getEnv store s call
      · exact hsame
      · exact absurd (hreturns.symm.trans hthrows) Bool.false_ne_true

/-- A registry with one section, and a document that has it and an entry of its own. -/
def thinkingRegistry : ConfigRegistry where
  sections := JsMap.empty.set "thinking" {}

def thinkingDocument : ResolvedConfig :=
  ConfigValue.fieldsOf [("thinking", .obj [("effort_level", .str "max"), ("mode", .str "on")]), ("note", .str "kept")]

theorem thinkingRegistry_defaultHooks : thinkingRegistry.DefaultHooks := by
  intro domain sec hsec
  rw [thinkingRegistry, JsMap.get_set] at hsec
  split at hsec
  · cases hsec
    exact ⟨rfl, rfl⟩
  · cases hsec

theorem stores_some : Stores some := by
  intro document read _ hread
  cases hread
  exact sameRecord_refl document

/-- Both fields of the section are written. -/
def wholeThinking : ConfigCall :=
  .replace "thinking" (some (.obj [("mode", .str "off"), ("effortLevel", .str "high")]))

/-- One field of the section is left out. -/
def partThinking : ConfigCall := .replace "thinking" (some (.obj [("effortLevel", .str "high")]))

theorem distinct_of_keys {keys : List String} (hkeys : m.keys = keys)
    (h : ∀ key ∈ keys, ∀ key' ∈ keys, spell key = spell key' → key = key') : Distinct spell m := by
  rw [Distinct, hkeys]
  exact h

theorem thinkingDocument_cases (h : thinkingDocument.get key = some value) :
    value = .obj [("effort_level", .str "max"), ("mode", .str "on")] ∨ value = .str "kept" := by
  have hmem : (key, value) ∈ [("thinking", .obj [("effort_level", .str "max"), ("mode", .str "on")]),
      ("note", ConfigValue.str "kept")] := (JsMap.mem_entries_iff thinkingDocument key value).mpr h
  simp only [mem_cons, Prod.mk.injEq, not_mem_nil, or_false] at hmem
  exact hmem.imp And.right And.right

theorem thinkingDocument_plain : Plain thinkingDocument where
  copied key value hget := by
    obtain rfl | rfl := thinkingDocument_cases hget <;> exact ⟨rfl, rfl⟩
  distinct := by
    have hkeys : thinkingDocument.keys = ["thinking", "note"] := rfl
    exact distinct_of_keys hkeys (by decide +kernel)
  fields key value hget := by
    obtain rfl | rfl := thinkingDocument_cases hget
    · intro m hm
      have hkeys : m.keys = ["effort_level", "mode"] := by
        cases hm
        rfl
      exact distinct_of_keys hkeys (by decide +kernel)
    · exact fun m hm => nomatch hm

theorem sections_kept_thinking :
    let s := ConfigService.step thinkingRegistry (fun _ => none) some
      (.load thinkingRegistry (some thinkingDocument)) wholeThinking
    SameRecord (ConfigService.load thinkingRegistry s.document).raw s.raw := by
  have hspelled : Spelled "thinking" ∧ ∀ key ∈ ["mode", "effortLevel"], Spelled key := by
    unfold Spelled
    decide +kernel
  have hcovers : Covers (thinkingDocument.get "thinking")
      (some (.obj [("mode", .str "off"), ("effortLevel", .str "high")])) := by
    have hkeys (m : ResolvedConfig) (hm : m ∈ ConfigValue.asRecord (.obj [("mode", .str "off"),
        ("effortLevel", .str "high")])) : m.keys = ["mode", "effortLevel"] := by
      cases hm
      rfl
    constructor <;> rintro v hv
    all_goals cases hv
    case holdable => rfl
    all_goals intro m hm
    all_goals rw [hkeys m hm]
    case nonempty => exact cons_ne_nil _ _
    case spelled => exact hspelled.2
    case covered =>
      intro m' hm' key' hkey'
      have hkeys' : m'.keys = ["effort_level", "mode"] := by
        cases hm'
        rfl
      rw [hkeys'] at hkey'
      revert key'
      decide +kernel
  have hkeeps : ConfigService.Keeps thinkingRegistry (fun _ => none)
      (.load thinkingRegistry (some thinkingDocument)) wholeThinking := by
    intro onDisk hdisk staged hstaged
    cases hdisk
    cases hstaged
    constructor
    case plain => exact thinkingDocument_plain
    all_goals
      intro domain hdomain
      obtain rfl := mem_singleton.mp hdomain
    case spelled => exact hspelled.1
    case alone =>
      decide +kernel
    case covers => exact hcovers
  have halong : AlongFold (ConfigService.step thinkingRegistry (fun _ => none) some)
      (ConfigService.Keeps thinkingRegistry fun _ => none) (.load thinkingRegistry (some thinkingDocument))
      [wholeThinking] := ⟨hkeeps, trivial⟩
  exact (sections_kept thinkingRegistry_defaultHooks stores_some (some thinkingDocument) halong rfl).1

/-- The field that is left out stays in the document, so that a load brings it back. -/
theorem partThinking_drifts :
    (ConfigService.perform thinkingRegistry (fun _ => none) some (.load thinkingRegistry (some thinkingDocument))
      partThinking).2 = false ∧
    let s := ConfigService.step thinkingRegistry (fun _ => none) some (.load thinkingRegistry (some thinkingDocument))
      partThinking
    ¬ SameRecord (ConfigService.load thinkingRegistry s.document).raw s.raw := by
  refine ⟨rfl, ?_⟩
  intro s h
  have hsame := h "thinking"
  cases hsame with
  | some hsame =>
    obtain ⟨hnone, -⟩ | ⟨m, m', hm, hm', hrecord⟩ := hsame.asRecord
    · cases hnone
    · cases hm
      cases hm'
      cases hrecord "mode"

end Echadron.Config
