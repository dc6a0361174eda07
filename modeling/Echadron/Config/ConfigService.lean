import Echadron.Config.ConfigValue

namespace Echadron.Config
open Lib

/-! Writes of sections to the user's config document. -/

namespace ConfigRegistry

variable (registry : ConfigRegistry) (getEnv : String → Option String)

def validate (domain : String) (value : Option ConfigValue) : Option (Option ConfigValue) :=
  match (registry.sections.get domain).bind ConfigSection.schema with
  | some schema => schema value
  | none => some value

def merge (domain : String) (base patch : Option ConfigValue) : Option ConfigValue :=
  match registry.sections.get domain with
  | some sec => sec.merge base patch
  | none => deepMerge base patch

def stripEnv (domain : String) (value : Option ConfigValue) (raw rawSnake : ResolvedConfig) : Option ConfigValue :=
  let result :=
    match (registry.sections.get domain).bind ConfigSection.stripEnv with
    | some stripEnv => stripEnv value (raw.get domain) getEnv
    | none => value
  registry.overlays.foldl (fun result overlay => result.bind fun value =>
    match overlay.strip with
    | some strip => strip domain value rawSnake
    | none => some value) result

/-- `raw[domain] = value`, where an absent value deletes. -/
def stage (raw : ResolvedConfig) (domain : String) : Option ConfigValue → ResolvedConfig
  | some value => raw.set domain value
  | none => raw.delete domain

/-- What `replace` stages for one section. It throws where the schema does. -/
def stageReplaced (rawSnake raw : ResolvedConfig) (domain : String) (value : Option ConfigValue) :
    Option ResolvedConfig :=
  match registry.stripEnv getEnv domain value raw rawSnake with
  | none => some (stage raw domain none)
  | some stripped => (registry.validate domain (some stripped)).map (stage raw domain)

end ConfigRegistry

/-- The calls with the user target. -/
inductive ConfigCall where
  | set (domain : String) (patch : Option ConfigValue)
  | replace (domain : String) (value : Option ConfigValue)
  | replaceSections (sections : JsMap String (Option ConfigValue))

namespace ConfigCall

variable (registry : ConfigRegistry) (getEnv : String → Option String)

/-- The sections that are written. -/
def domains : ConfigCall → List String
  | set domain _ => [domain]
  | replace domain _ => [domain]
  | replaceSections sections => sections.keys

/-- `null` clears a section as `undefined` does. -/
def orUndefined (value : Option ConfigValue) : Option ConfigValue :=
  match value with
  | some .null => none
  | value => value

/-- The sections that a call makes of those of the document, or nothing where it throws. -/
def rebase (call : ConfigCall) (stagedRaw stagedRawSnake : ResolvedConfig) : Option ResolvedConfig :=
  match call with
  | set domain patch => do
    let validated ← registry.validate domain (registry.merge domain (stagedRaw.get domain) patch)
    match registry.stripEnv getEnv domain validated stagedRaw stagedRawSnake with
    | none => some (ConfigRegistry.stage stagedRaw domain none)
    | some stripped =>
      let _ ← registry.validate domain (some stripped)
      some (ConfigRegistry.stage stagedRaw domain (some stripped))
  | replace domain value => registry.stageReplaced getEnv stagedRawSnake stagedRaw domain value
  | replaceSections sections =>
    sections.entries.foldlM (fun raw entry =>
      registry.stageReplaced getEnv stagedRawSnake raw entry.1 (orUndefined entry.2)) stagedRaw

end ConfigCall

/-- The document, or nothing where it cannot be read, and what the service has of it. -/
structure ConfigService where
  document : Option ResolvedConfig
  rawSnake : ResolvedConfig
  raw : ResolvedConfig
  tainted : Bool

namespace ConfigService

variable (registry : ConfigRegistry) (getEnv : String → Option String)

def load (document : Option ResolvedConfig) : ConfigService where
  document := document
  rawSnake := (document.getD .empty).mapValues ConfigValue.cloneUnknown
  raw := registry.transformTomlData (document.getD .empty)
  tainted := document.isNone

/-- `persistDomains`, and whether it throws. What the store reads after a write is `store`, nothing where the write
throws. -/
def persistDomains (store : ResolvedConfig → Option ResolvedConfig) (s : ConfigService) (domains : List String)
    (rebase : ResolvedConfig → ResolvedConfig → Option ResolvedConfig) : ConfigService × Bool :=
  if s.tainted then (s, true)
  else
    match s.document with
    | none => ({ s with tainted := true }, true)
    | some onDisk =>
      let stagedRawSnake := onDisk.mapValues ConfigValue.cloneUnknown
      match rebase (registry.transformTomlData onDisk) stagedRawSnake with
      | none => (s, true)
      | some stagedRaw =>
        let written := domains.foldl (fun rawSnake domain =>
          registry.applySectionToToml rawSnake domain (stagedRaw.get domain)) stagedRawSnake
        match store written with
        | none => (s, true)
        | some document => ({ s with document := some document, rawSnake := written, raw := stagedRaw }, false)

/-- A call, and whether it throws. -/
def perform (store : ResolvedConfig → Option ResolvedConfig) (s : ConfigService) (call : ConfigCall) :
    ConfigService × Bool :=
  if call.domains = [] then (s, false)
  else persistDomains registry store s call.domains (call.rebase registry getEnv)

end ConfigService

end Echadron.Config

namespace Echadron.Config
open Lib

/-! What is under a key after the keys of a record are spelled anew. -/

section Respell

variable {spell : String → String} {convert : String → ConfigValue → ConfigValue}

theorem get_respell_of_none
    (h : ∀ entry ∈ entries, spell entry.1 ≠ key) : (respell spell convert entries out).get key = out.get key := by
  induction entries generalizing out with
  | nil => rfl
  | cons entry entries ih =>
    obtain ⟨hentry, hentries⟩ := List.forall_mem_cons.mp h
    exact (ih hentries).trans (JsMap.get_set_of_ne out _ (Ne.symm hentry))

theorem get_respell_of_unique {entries : List (String × ConfigValue)} {out : ResolvedConfig}
    {entry : String × ConfigValue} (hmem : entry ∈ entries)
    (hunique : ∀ entry' ∈ entries, spell entry'.1 = spell entry.1 → entry' = entry) :
    (respell spell convert entries out).get (spell entry.1) = some (convert entry.1 entry.2) := by
  induction entries generalizing out with
  | nil => cases hmem
  | cons first entries ih =>
    obtain ⟨hfirst, hentries⟩ := List.forall_mem_cons.mp hunique
    by_cases hlater : entry ∈ entries
    · exact ih hlater hentries
    · obtain rfl : entry = first := (List.mem_cons.mp hmem).resolve_right hlater
      have hnone : ∀ entry' ∈ entries, spell entry'.1 ≠ spell entry.1 := by
        intro entry' hentry' heq
        exact hlater (hentries entry' hentry' heq ▸ hentry')
      exact (get_respell_of_none hnone).trans (JsMap.get_set_self out _ _)

def Distinct (spell : String → String) (m : ResolvedConfig) : Prop :=
  ∀ key ∈ m.keys, ∀ key' ∈ m.keys, spell key = spell key' → key = key'

theorem Distinct.get_respell {m out : ResolvedConfig} (h : Distinct spell m) {key : String} {value : ConfigValue}
    (hget : m.get key = some value) :
    (respell spell convert m.entries out).get (spell key) = some (convert key value) := by
  have hmem := (JsMap.mem_entries_iff m key value).mpr hget
  apply @get_respell_of_unique spell convert m.entries out (key, value) hmem
  rintro ⟨key', value'⟩ hmem' heq
  have hget' := (JsMap.mem_entries_iff m key' value').mp hmem'
  obtain rfl := h key' ((JsMap.mem_keys_iff m key').mpr ⟨value', hget'⟩) key
    ((JsMap.mem_keys_iff m key).mpr ⟨value, hget⟩) heq
  rw [Option.mem_unique hget' hget]

theorem get_respell_of_not_spelled {m out : ResolvedConfig} {key : String} (h : ∀ key' ∈ m.keys, spell key' ≠ key) :
    (respell spell convert m.entries out).get key = out.get key :=
  get_respell_of_none fun entry hentry => h entry.1 (List.mem_map_of_mem hentry)

theorem get_respell_at {m : ResolvedConfig} {key : String}
    (h : ∀ key' ∈ m.keys, spell key' = spell key → key' = key) :
    (respell spell convert m.entries .empty).get (spell key) = (m.get key).map (convert key) := by
  cases hget : m.get key with
  | none =>
    apply get_respell_of_not_spelled
    intro key' hkey' heq
    exact (JsMap.get_eq_none_iff m key).mp hget (h key' hkey' heq ▸ hkey')
  | some value =>
    apply @get_respell_of_unique spell convert m.entries .empty (key, value)
      ((JsMap.mem_entries_iff m key value).mpr hget)
    rintro ⟨key', value'⟩ hmem heq
    obtain rfl := h key' (List.mem_map_of_mem hmem) heq
    rw [Option.some.inj (((JsMap.mem_entries_iff m key' value').mp hmem).symm.trans hget)]

end Respell

def SameRecord (m m' : ResolvedConfig) : Prop := ∀ key, Option.Rel ConfigValue.Same (m.get key) (m'.get key)

theorem sameRecord_refl (m : ResolvedConfig) : SameRecord m m := by
  intro key
  cases m.get key with
  | none => exact .none
  | some value => exact .some (.refl value)

theorem SameRecord.mem_keys (h : SameRecord m m') (key : String) : key ∈ m.keys ↔ key ∈ m'.keys := by
  rw [JsMap.mem_keys_iff, JsMap.mem_keys_iff]
  have hrel := h key
  cases hget : m.get key <;> cases hget' : m'.get key <;> rw [hget, hget'] at hrel <;> cases hrel
  exact ⟨fun _ => ⟨_, rfl⟩, fun _ => ⟨_, rfl⟩⟩

theorem rel_map
    (h : Option.Rel ConfigValue.Same value value')
    (hf : ∀ v v', value' = some v' → v.Same v' → (f v).Same (f v')) :
    Option.Rel ConfigValue.Same (value.map f) (value'.map f) := by
  cases h with
  | none => exact .none
  | some hsame => exact .some (hf _ _ rfl hsame)

theorem SameRecord.respell
    (h : SameRecord m m') (hdistinct : Distinct spell m')
    (hconvert : ∀ key value value', m.get key = some value → m'.get key = some value' → value.Same value' →
      (convert key value).Same (convert' key value')) :
    SameRecord (respell spell convert m.entries .empty) (respell spell convert' m'.entries .empty) := by
  intro key
  have hdistinct' : Distinct spell m := by
    intro key hkey key' hkey'
    exact hdistinct key ((h.mem_keys key).mp hkey) key' ((h.mem_keys key').mp hkey')
  by_cases hspelled : ∃ key' ∈ m'.keys, spell key' = key
  · obtain ⟨key', hkey', rfl⟩ := hspelled
    obtain ⟨value', hvalue'⟩ := (JsMap.mem_keys_iff m' key').mp hkey'
    obtain ⟨value, hvalue⟩ := (JsMap.mem_keys_iff m key').mp ((h.mem_keys key').mpr hkey')
    have hrel := h key'
    rw [hvalue, hvalue'] at hrel
    cases hrel with
    | some hsame =>
      rw [hdistinct.get_respell hvalue', hdistinct'.get_respell hvalue]
      exact .some (hconvert key' value value' hvalue hvalue' hsame)
  · have hnone : ∀ key' ∈ m'.keys, spell key' ≠ key := fun key' hkey' heq => hspelled ⟨key', hkey', heq⟩
    rw [get_respell_of_not_spelled hnone,
      get_respell_of_not_spelled fun key' hkey' => hnone key' ((h.mem_keys key').mp hkey')]
    exact .none

theorem get_fieldsOf_entries (m : ResolvedConfig) (key : String) :
    (ConfigValue.fieldsOf m.entries).get key = m.get key := by
  have hdistinct : Distinct id m := fun key _ key' _ heq => heq
  by_cases hkey : key ∈ m.keys
  · obtain ⟨value, hvalue⟩ := (JsMap.mem_keys_iff m key).mp hkey
    rw [hvalue]
    exact @Distinct.get_respell id (fun _ value => value) m .empty hdistinct key value hvalue
  · rw [(JsMap.get_eq_none_iff m key).mpr hkey]
    apply @get_respell_of_not_spelled id fun _ value => value
    exact fun key' hkey' heq => hkey (heq ▸ hkey')

theorem SameRecord.ofRecord (h : SameRecord m m') : (ConfigValue.ofRecord m).Same (.ofRecord m') := by
  apply ConfigValue.Same.obj
  intro key
  rw [get_fieldsOf_entries, get_fieldsOf_entries]
  exact h key

theorem ConfigValue.Same.asRecord {value value' : ConfigValue} (h : value.Same value') :
    (value.asRecord = none ∧ value'.asRecord = none) ∨
      ∃ m m', value.asRecord = some m ∧ value'.asRecord = some m' ∧ SameRecord m m' := by
  cases h with
  | refl =>
    cases hrecord : value.asRecord with
    | none => exact .inl ⟨rfl, rfl⟩
    | some m => exact .inr ⟨m, m, rfl, rfl, sameRecord_refl m⟩
  | arr _ => exact .inl ⟨rfl, rfl⟩
  | obj h => exact .inr ⟨_, _, rfl, rfl, h⟩

theorem defaultFromToml_same {value value' : ConfigValue} (h : value.Same value')
    (hdistinct : ∀ m ∈ value'.asRecord, Distinct snakeToCamel m) :
    (defaultFromToml value).Same (defaultFromToml value') := by
  rw [defaultFromToml, defaultFromToml]
  obtain ⟨hnone, hnone'⟩ | ⟨m, m', hm, hm', hsame⟩ := h.asRecord
  · rw [hnone, hnone']
    exact h
  · rw [hm, hm']
    apply SameRecord.ofRecord
    apply hsame.respell (hdistinct m' hm')
    exact fun _ _ _ _ _ hvalue => hvalue

end Echadron.Config
