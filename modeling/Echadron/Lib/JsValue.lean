import Echadron.Lib.SkipList
import Mathlib.Algebra.Order.Ring.Unbundled.Rat

namespace Echadron.Lib
open Option

/-- A number. The two zeros, which no operation here tells apart, are one. -/
inductive JsNumber where
  | nan
  | negInfinity
  | finite (q : ℚ)
  | infinity
deriving DecidableEq

namespace JsNumber

def cmpFinite (q : ℚ) : JsNumber → Option Ordering
  | nan => none
  | negInfinity => some .gt
  | finite p => some (compare q p)
  | infinity => some .lt

def lt : (a b : JsNumber) → Bool
  | nan, _ | _, nan => false
  | finite q, b => (cmpFinite q b).any (·.isLT)
  | a, finite q => (cmpFinite q a).any (·.isGT)
  | negInfinity, infinity => true
  | _, _ => false

def le (a b : JsNumber) : Bool := a ≠ nan && (a = b || a.lt b)

variable {q : ℚ} {b : JsNumber}

end JsNumber

instance : Comparator ℚ JsNumber where
  cmp := JsNumber.cmpFinite
  isLT_of_le {a b x} h hb := by
    cases x with
    | nan => exact hb
    | negInfinity => exact hb
    | infinity => rfl
    | finite p =>
      simp only [JsNumber.cmpFinite, any_some, Ordering.isLT_iff_eq_lt, compare_lt_iff_lt] at hb ⊢
      exact h.trans_lt hb
  isLE_of_le {a b x} h hb := by
    cases x with
    | nan => exact hb
    | negInfinity => exact hb
    | infinity => rfl
    | finite p =>
      simp only [JsNumber.cmpFinite, any_some, Ordering.isLE_iff_ne_gt, compare_gt_iff_gt, not_lt] at hb ⊢
      exact h.trans hb
  isGT_of_le {a b x} h ha := by
    cases x with
    | nan => exact ha
    | negInfinity => rfl
    | infinity => exact ha
    | finite p =>
      simp only [JsNumber.cmpFinite, any_some, Ordering.isGT_iff_eq_gt, compare_gt_iff_gt] at ha ⊢
      exact lt_of_lt_of_le ha h
  isGE_of_le {a b x} h ha := by
    cases x with
    | nan => exact ha
    | negInfinity => rfl
    | infinity => exact ha
    | finite p =>
      simp only [JsNumber.cmpFinite, any_some, Ordering.isGE_iff_ne_lt, compare_lt_iff_lt, not_lt] at ha ⊢
      exact ha.trans h

structure RegExp where
  source : String
  flags : String
deriving DecidableEq

inductive JsValue where
  | undefined
  | null
  | bool (b : Bool)
  | num (n : JsNumber)
  | str (s : String)
  | arr (items : List JsValue)
  | obj (fields : List (String × JsValue))
  | regexp (r : RegExp)
  | func (name : String)

/-- What is taken from the language as it is: the properties that values have by their kind (the
characters of a string, methods), how numbers are read and written, and the search for a regular
expression. -/
structure Runtime where
  builtin : JsValue → (key : String) → JsValue
  numberToString : JsNumber → String
  stringToNumber : String → JsNumber
  /-- The property key that `Number(digits)` is. -/
  indexKey : (digits : String) → String
  test : RegExp → String → Bool

namespace JsValue

def isUndefined : JsValue → Bool
  | undefined => true
  | _ => false

def isNullish : JsValue → Bool
  | undefined | null => true
  | _ => false

/-- `typeof v === 'object'` and not `null`. -/
def isObject : JsValue → Bool
  | arr _ | obj _ | regexp _ => true
  | _ => false

def isArray : JsValue → Bool
  | arr _ => true
  | _ => false

def typeOf : JsValue → String
  | undefined => "undefined"
  | bool _ => "boolean"
  | num _ => "number"
  | str _ => "string"
  | func _ => "function"
  | null | arr _ | obj _ | regexp _ => "object"

def truthy : JsValue → Bool
  | undefined | null => false
  | bool b => b
  | num n => decide (n ≠ .nan ∧ n ≠ .finite 0)
  | str s => decide (s ≠ "")
  | arr _ | obj _ | regexp _ | func _ => true

/-- `===` of a value that was read from a document and another: an object of a document is an
object of its own, equal to no other. -/
def strictEq : (a b : JsValue) → Bool
  | undefined, undefined | null, null => true
  | bool a, bool b => a == b
  | num a, num b => decide (a = b ∧ a ≠ .nan)
  | str a, str b => decide (a = b)
  | func a, func b => decide (a = b)
  | _, _ => false

/-- How `includes` compares: `NaN` is equal to itself. -/
def sameValueZero : (a b : JsValue) → Bool
  | num a, num b => decide (a = b)
  | a, b => strictEq a b

def includes (items : List JsValue) (v : JsValue) : Bool := items.any (sameValueZero · v)

def arrayIndex (key : String) : Option Nat := key.toNat?.filter fun i => toString i = key

def getProperty (rt : Runtime) (v : JsValue) (key : String) : JsValue :=
  match v with
  | obj fields => (fields.lookup key).getD (rt.builtin v key)
  | arr items => ((arrayIndex key).bind fun i => items[i]?).getD (rt.builtin v key)
  | v => rt.builtin v key

def follow (rt : Runtime) (v : JsValue) (keys : List String) : JsValue :=
  keys.foldl (fun cur key => if cur.isNullish then undefined else cur.getProperty rt key) v

/-- `Object.entries`. -/
def entries : JsValue → List (String × JsValue)
  | obj fields => fields
  | arr items => items.zipIdx.map fun (v, i) => (toString i, v)
  | str s => s.toList.zipIdx.map fun (c, i) => (toString i, str (String.ofList [c]))
  | undefined | null | bool _ | num _ | regexp _ | func _ => []

mutual

/-- `String(v)`. -/
def toText (rt : Runtime) : JsValue → String
  | undefined => "undefined"
  | null => "null"
  | bool b => if b then "true" else "false"
  | num n => rt.numberToString n
  | str s => s
  | arr items => ",".intercalate (textItems rt items)
  | obj _ => "[object Object]"
  | regexp r => "/" ++ r.source ++ "/" ++ r.flags
  | func name => "function " ++ name ++ "() \x7b [native code] \x7d"

/-- What `join` puts between the commas. -/
def textItems (rt : Runtime) : List JsValue → List String
  | [] => []
  | v :: vs => (if v.isNullish then "" else v.toText rt) :: textItems rt vs

end

/-- `Number(v)`. -/
def toNumber (rt : Runtime) : JsValue → JsNumber
  | undefined => .nan
  | null => .finite 0
  | bool b => .finite (if b then 1 else 0)
  | num n => n
  | v => rt.stringToNumber (v.toText rt)

def toPrimitive (rt : Runtime) (v : JsValue) : JsValue :=
  match v with
  | arr _ | obj _ | regexp _ | func _ => str (v.toText rt)
  | v => v

/-- The code units of a text. -/
def utf16 (s : String) : List Nat :=
  s.toList.flatMap fun c =>
    if c.toNat < 0x10000 then [c.toNat]
    else [0xD800 + (c.toNat - 0x10000) / 0x400, 0xDC00 + (c.toNat - 0x10000) % 0x400]

def less (rt : Runtime) (a b : JsValue) : Bool :=
  match a.toPrimitive rt, b.toPrimitive rt with
  | str s, str t => decide (utf16 s < utf16 t)
  | a, b => (a.toNumber rt).lt (b.toNumber rt)

def lessEq (rt : Runtime) (a b : JsValue) : Bool :=
  match a.toPrimitive rt, b.toPrimitive rt with
  | str s, str t => !decide (utf16 t < utf16 s)
  | a, b => (a.toNumber rt).le (b.toNumber rt)

def newRegExp (rt : Runtime) (pattern flags : JsValue) : RegExp :=
  { source :=
      match pattern with
      | regexp r => r.source
      | undefined => ""
      | v => v.toText rt
    flags :=
      match flags, pattern with
      | undefined, regexp r => r.flags
      | undefined, _ => ""
      | v, _ => v.toText rt }

end JsValue

end Echadron.Lib
