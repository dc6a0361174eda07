import Echadron.Lib.JsMap
import Echadron.Lib.JsValue

namespace Echadron.Config
open Lib

/-- What config documents and sections hold. A date has the text that is written for it. `null` is what a copy
through JSON makes of a number that is not finite. -/
inductive ConfigValue where
  | null
  | bool (b : Bool)
  | num (n : JsNumber)
  | str (s : String)
  | date (text : String)
  | arr (items : List ConfigValue)
  | obj (fields : List (String × ConfigValue))

abbrev ResolvedConfig := JsMap String ConfigValue

namespace ConfigValue

def ofRecord (m : ResolvedConfig) : ConfigValue := .obj m.entries

def fieldsOf (fields : List (String × ConfigValue)) : ResolvedConfig :=
  fields.foldl (fun out field => out.set field.1 field.2) .empty

/-- The entries of what `isPlainObject` accepts. A date is an object without any. -/
def asRecord : ConfigValue → Option ResolvedConfig
  | obj fields => some (fieldsOf fields)
  | date _ => some .empty
  | _ => none

mutual

/-- `JSON.parse(JSON.stringify(value))` -/
def cloneUnknown : ConfigValue → ConfigValue
  | num .nan => null
  | num .infinity => null
  | num .negInfinity => null
  | date text => str text
  | arr items => arr (cloneItems items)
  | obj fields => obj (cloneFields fields)
  | value => value

def cloneItems : List ConfigValue → List ConfigValue
  | [] => []
  | item :: items => cloneUnknown item :: cloneItems items

def cloneFields : List (String × ConfigValue) → List (String × ConfigValue)
  | [] => []
  | (key, value) :: fields => (key, cloneUnknown value) :: cloneFields fields

end

mutual

/-- TOML has no `null`. -/
def holdable : ConfigValue → Bool
  | null => false
  | arr items => holdableItems items
  | obj fields => holdableFields fields
  | _ => true

def holdableItems : List ConfigValue → Bool
  | [] => true
  | item :: items => item.holdable && holdableItems items

def holdableFields : List (String × ConfigValue) → Bool
  | [] => true
  | (_, value) :: fields => value.holdable && holdableFields fields

end

/-- Values that differ at most in the order of the fields of their records. -/
inductive Same : ConfigValue → ConfigValue → Prop where
  | refl (value : ConfigValue) : Same value value
  | arr {items items' : List ConfigValue} (h : List.Forall₂ Same items items') : Same (.arr items) (.arr items')
  | obj {fields fields' : List (String × ConfigValue)}
    (h : ∀ key, Option.Rel Same ((fieldsOf fields).get key) ((fieldsOf fields').get key)) :
    Same (.obj fields) (.obj fields')

end ConfigValue

mutual

/-- `deepMerge` of two records' fields. -/
def mergeFields (base : ResolvedConfig) : List (String × ConfigValue) → ResolvedConfig
  | [] => base
  | (key, pv) :: patch => mergeFields (base.set key (mergeField (base.get key) pv)) patch

/-- What `deepMerge` makes of one key. -/
def mergeField (bv : Option ConfigValue) : ConfigValue → ConfigValue
  | .obj patch =>
    match bv.bind ConfigValue.asRecord with
    | some base => .ofRecord (mergeFields base patch)
    | none => .obj patch
  | .date text =>
    match bv.bind ConfigValue.asRecord with
    | some base => .ofRecord base
    | none => .date text
  | pv => pv

end

def deepMerge (base patch : Option ConfigValue) : Option ConfigValue :=
  match patch with
  | none => base
  | some .null => base
  | some patch => some (mergeField base patch)

/-! The transforms between the document, whose keys are in snake case, and the sections, whose keys are in camel
case. -/

/-- `/_([a-z])/g` -/
def camelChars : List Char → List Char
  | [] => []
  | '_' :: c :: rest => if 'a' ≤ c ∧ c ≤ 'z' then c.toUpper :: camelChars rest else '_' :: camelChars (c :: rest)
  | c :: rest => c :: camelChars rest

def snakeToCamel (str : String) : String := String.ofList (camelChars str.toList)

/-- `/[A-Z]/g` -/
def snakeChars : List Char → List Char
  | [] => []
  | c :: rest => if 'A' ≤ c ∧ c ≤ 'Z' then '_' :: c.toLower :: snakeChars rest else c :: snakeChars rest

def camelToSnake (str : String) : String := String.ofList (snakeChars str.toList)

/-- The entries of a record under other keys, behind those that are there. The last entry of a key stays. -/
def respell (spell : String → String) (convert : String → ConfigValue → ConfigValue)
    (entries : List (String × ConfigValue)) (out : ResolvedConfig) : ResolvedConfig :=
  entries.foldl (fun out entry => out.set (spell entry.1) (convert entry.1 entry.2)) out

def cloneRecord (value : Option ConfigValue) : ResolvedConfig :=
  match value.bind ConfigValue.asRecord with
  | some m => m.mapValues ConfigValue.cloneUnknown
  | none => .empty

def transformPlainObject (data : ResolvedConfig) : ResolvedConfig :=
  respell snakeToCamel (fun _ value => value) data.entries .empty

def plainObjectToToml (value : ResolvedConfig) (raw : Option ConfigValue) : ResolvedConfig :=
  respell camelToSnake (fun _ entry => entry) value.entries (cloneRecord raw)

def defaultFromToml (value : ConfigValue) : ConfigValue :=
  match value.asRecord with
  | some data => .ofRecord (transformPlainObject data)
  | none => value

/-- A section as it is registered, as far as its document goes. A schema that fails throws. -/
structure ConfigSection where
  schema : Option (Option ConfigValue → Option (Option ConfigValue)) := none
  merge : Option ConfigValue → Option ConfigValue → Option ConfigValue := deepMerge
  stripEnv : Option (Option ConfigValue → Option ConfigValue → (String → Option String) → Option ConfigValue) :=
    none
  fromToml : Option (ConfigValue → ConfigValue) := none
  toToml : Option (ConfigValue → ResolvedConfig → Option ConfigValue) := none

structure ConfigEffectiveOverlay where
  strip : Option (String → ConfigValue → ResolvedConfig → Option ConfigValue) := none

structure ConfigRegistry where
  sections : JsMap String ConfigSection := .empty
  overlays : List ConfigEffectiveOverlay := []

namespace ConfigRegistry

variable (registry : ConfigRegistry)

def fromToml (domain : String) (value : ConfigValue) : ConfigValue :=
  match (registry.sections.get domain).bind ConfigSection.fromToml with
  | some fromToml => fromToml value
  | none => defaultFromToml value

def transformTomlData (data : ResolvedConfig) : ResolvedConfig :=
  respell snakeToCamel (fun key value => registry.fromToml (snakeToCamel key) value) data.entries .empty

def applySectionToToml (rawSnake : ResolvedConfig) (domain : String) (value : Option ConfigValue) : ResolvedConfig :=
  let snakeKey := camelToSnake domain
  match value with
  | none => rawSnake.delete snakeKey
  | some value =>
    let rawSub := cloneRecord (rawSnake.get snakeKey)
    match (registry.sections.get domain).bind ConfigSection.toToml with
    | some toToml =>
      match toToml value rawSub with
      | none => rawSnake.delete snakeKey
      | some .null => rawSnake.delete snakeKey
      | some converted =>
        if converted.asRecord.any (fun m => m.size = 0) then rawSnake.delete snakeKey
        else rawSnake.set snakeKey converted
    | none =>
      match value.asRecord with
      | none => rawSnake.set snakeKey value
      | some fields =>
        let converted := plainObjectToToml fields (some (.ofRecord rawSub))
        if converted.size > 0 then rawSnake.set snakeKey (.ofRecord converted) else rawSnake.delete snakeKey

end ConfigRegistry

end Echadron.Config
