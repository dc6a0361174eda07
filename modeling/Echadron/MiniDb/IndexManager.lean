import Echadron.Lib.Json
import Echadron.Lib.JsMap
import Echadron.Lib.JsValue

namespace Echadron.MiniDb
open Lib

inductive IndexType where
  | equality
  | range
deriving DecidableEq

def splitPath (path : String) : List String := (path.toList.splitOn '.').map String.ofList

def getField (rt : Runtime) (doc : JsValue) (path : String) : JsValue :=
  doc.follow rt (splitPath path)

mutual

/-- Absent for a value that `JSON.stringify` writes nothing for. -/
def stableStringify (rt : Runtime) : JsValue → Option String
  | .undefined | .func _ => none
  | .null => some "null"
  | .bool b => some (if b then "true" else "false")
  | .num (.finite q) => some (rt.numberToString (.finite q))
  | .num _ => some "null"
  | .str s => some (quote s)
  | .regexp _ => some "\x7b\x7d"
  | .arr items => some ("[" ++ ",".intercalate (stringifyItems rt items) ++ "]")
  | .obj fields =>
    let texts := (stringifyFields rt fields).insertionSort fun a b => JsValue.utf16 a.1 ≤ JsValue.utf16 b.1
    some ("\x7b" ++ ",".intercalate (texts.map Prod.snd) ++ "\x7d")

def stringifyItems (rt : Runtime) : List JsValue → List String
  | [] => []
  | v :: vs => (stableStringify rt v).getD "" :: stringifyItems rt vs

def stringifyFields (rt : Runtime) : List (String × JsValue) → List (String × String)
  | [] => []
  | (k, v) :: fields =>
    (k, quote k ++ ":" ++ (stableStringify rt v).getD "undefined") :: stringifyFields rt fields

end

/-- The posting that a value is found under. -/
def scalarKey (rt : Runtime) : JsValue → String
  | .str s => "string:" ++ s
  | .num n => "number:" ++ rt.numberToString n
  | .bool b => "boolean:" ++ if b then "true" else "false"
  | v => "json:" ++ (stableStringify rt v).getD "undefined"

def flatten : JsValue → List JsValue
  | .arr items => items
  | v => [v]

def finiteNumber : JsValue → Option ℚ
  | .num (.finite q) => some q
  | _ => none

section

variable (rt : Runtime) (field : String) (sparse : Bool) (doc : JsValue)

def indexedValue : Option JsValue :=
  let value := getField rt doc field
  if value.isUndefined && sparse then none else some value

def eqKeys : Option (List String) :=
  (indexedValue rt field sparse doc).map fun value => (flatten value).map (scalarKey rt)

/-- Each finite number once. -/
def rangeVals : Option (List ℚ) :=
  (indexedValue rt field sparse doc).bind fun value =>
    let vals := (JsMap.ofKeys ((flatten value).filterMap finiteNumber)).keys
    if vals = [] then none else some vals

end

variable {Pk : Type} [LinearOrder Pk]

structure EqPostings (Pk : Type) where
  map : JsMap String (JsSet Pk) := .empty
  byPk : JsMap Pk (List String) := .empty

structure RangePostings (Pk : Type) [LinearOrder Pk] where
  list : SkipList ℚ Pk := .empty
  byPk : JsMap Pk (List ℚ) := .empty

inductive Postings (Pk : Type) [LinearOrder Pk] where
  | equality (postings : EqPostings Pk)
  | range (postings : RangePostings Pk)

structure AnyIndex (Pk : Type) [LinearOrder Pk] where
  field : String
  unique : Bool
  sparse : Bool
  postings : Postings Pk

structure IndexDef where
  field : String
  type : IndexType := .equality
  unique : Bool := false
  sparse : Bool := true
deriving DecidableEq

structure IndexInfo where
  name : String
  field : String
  type : IndexType
  unique : Bool
  sparse : Bool
deriving DecidableEq

namespace EqPostings

def addPosting (pk : Pk) (map : JsMap String (JsSet Pk)) (sk : String) : JsMap String (JsSet Pk) :=
  map.set sk (((map.get sk).getD .empty).set pk ())

def add (e : EqPostings Pk) (pk : Pk) (keys : List String) : EqPostings Pk :=
  { map := keys.foldl (addPosting pk) e.map
    byPk := e.byPk.set pk keys }

def removePosting (pk : Pk) (map : JsMap String (JsSet Pk)) (sk : String) : JsMap String (JsSet Pk) :=
  match map.get sk with
  | none => map
  | some set => if (set.delete pk).size = 0 then map.delete sk else map.set sk (set.delete pk)

def remove (e : EqPostings Pk) (pk : Pk) : EqPostings Pk :=
  match e.byPk.get pk with
  | none => e
  | some keys =>
    { map := keys.foldl (removePosting pk) e.map
      byPk := e.byPk.delete pk }

def find (e : EqPostings Pk) (sk : String) : List Pk := ((e.map.get sk).getD .empty).keys

end EqPostings

namespace RangePostings

def add (r : RangePostings Pk) (pk : Pk) (vals : List ℚ) : RangePostings Pk :=
  { list := vals.foldl (fun list v => list.insert v pk) r.list
    byPk := r.byPk.set pk vals }

def remove (r : RangePostings Pk) (pk : Pk) : RangePostings Pk :=
  match r.byPk.get pk with
  | none => r
  | some old =>
    { list := old.foldl (fun list v => list.delete v pk) r.list
      byPk := r.byPk.delete pk }

end RangePostings

namespace AnyIndex

def type (idx : AnyIndex Pk) : IndexType :=
  match idx.postings with
  | .equality _ => .equality
  | .range _ => .range

def add (rt : Runtime) (idx : AnyIndex Pk) (pk : Pk) (doc : JsValue) : AnyIndex Pk :=
  match idx.postings with
  | .range r =>
    match rangeVals rt idx.field idx.sparse doc with
    | none => idx
    | some vals => { idx with postings := .range (r.add pk vals) }
  | .equality e =>
    match eqKeys rt idx.field idx.sparse doc with
    | none => idx
    | some keys => { idx with postings := .equality (e.add pk keys) }

def remove (idx : AnyIndex Pk) (pk : Pk) : AnyIndex Pk :=
  match idx.postings with
  | .range r => { idx with postings := .range (r.remove pk) }
  | .equality e => { idx with postings := .equality (e.remove pk) }

def clear (idx : AnyIndex Pk) : AnyIndex Pk :=
  match idx.postings with
  | .range _ => { idx with postings := .range {} }
  | .equality _ => { idx with postings := .equality {} }

end AnyIndex

structure IndexManager (Pk : Type) [LinearOrder Pk] where
  indexes : JsMap String (AnyIndex Pk) := .empty

namespace IndexManager

def indexable (v : JsValue) : Bool := v.isObject

def create (m : IndexManager Pk) (name : String) (d : IndexDef) : Except String (IndexManager Pk) :=
  if d.field = "" then .error "index requires a field"
  else if m.indexes.has name then .error ("index \"" ++ name ++ "\" already exists")
  else
    let postings : Postings Pk :=
      match d.type with
      | .range => .range {}
      | .equality => .equality {}
    .ok ⟨m.indexes.set name
      { field := d.field, unique := d.unique, sparse := d.sparse, postings := postings }⟩

def drop (m : IndexManager Pk) (name : String) : IndexManager Pk := ⟨m.indexes.delete name⟩

def list (m : IndexManager Pk) : List IndexInfo :=
  m.indexes.entries.map fun (name, idx) =>
    { name := name, field := idx.field, type := idx.type, unique := idx.unique, sparse := idx.sparse }

def add (rt : Runtime) (m : IndexManager Pk) (pk : Pk) (doc : JsValue) : IndexManager Pk :=
  ⟨m.indexes.mapValues fun idx => idx.add rt pk doc⟩

def remove (m : IndexManager Pk) (pk : Pk) : IndexManager Pk := ⟨m.indexes.mapValues fun idx => idx.remove pk⟩

def findEq (rt : Runtime) (m : IndexManager Pk) (name : String) (value : JsValue) : Except String (List Pk) :=
  match m.indexes.get name with
  | none => .error ("no such index: " ++ name)
  | some idx =>
    match idx.postings with
    | .equality e => .ok (e.find (scalarKey rt value))
    | .range _ => .error ("index \"" ++ name ++ "\" is not an equality index")

def findRange (m : IndexManager Pk) (name : String) (r : RangeOptions JsNumber) : Except String (List (Pk × ℚ)) :=
  match m.indexes.get name with
  | none => .error ("no such index: " ++ name)
  | some idx =>
    match idx.postings with
    | .range p => .ok ((p.list.range r).map fun (value, pk) => (pk, value))
    | .equality _ => .error ("index \"" ++ name ++ "\" is not a range index")

def rebuild (rt : Runtime) (m : IndexManager Pk) (entries : List (Pk × JsValue)) : IndexManager Pk :=
  entries.foldl (fun m (pk, value) => if indexable value then m.add rt pk value else m)
    ⟨m.indexes.mapValues AnyIndex.clear⟩

end IndexManager

end Echadron.MiniDb
