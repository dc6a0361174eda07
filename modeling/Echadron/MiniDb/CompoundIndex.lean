import Echadron.MiniDb.DtIndex
import Echadron.MiniDb.IndexManager
import Mathlib.Data.List.Lex
import Mathlib.Data.Sum.Order

namespace Echadron.MiniDb
open Lib List Option

inductive OrderType where
  | number
  | string
deriving DecidableEq

/-- A number, or the code units of a text. -/
abbrev OrderKey := ℚ ⊕ₗ List ℕ

variable {Pk : Type} [LinearOrder Pk]

/-- A group. An object is a group of its own, which the record of its document alone is in. -/
inductive GroupKey (Pk : Type) where
  | bool (b : Bool)
  | num (n : JsNumber)
  | str (s : String)
  | func (name : String)
  | object (pk : Pk)
deriving DecidableEq

structure CompoundIndexDef where
  groupBy : String
  orderBy : String
  orderType : OrderType := .number
deriving DecidableEq

structure Placement (Pk : Type) where
  group : GroupKey Pk
  order : OrderKey
deriving DecidableEq

structure CompoundEntry (Pk : Type) [LinearOrder Pk] where
  definition : CompoundIndexDef
  groups : JsMap (GroupKey Pk) (SkipList OrderKey Pk) := .empty
  byPk : JsMap Pk (Placement Pk) := .empty

def groupKey (pk : Pk) : JsValue → Option (GroupKey Pk)
  | .undefined | .null => none
  | .bool b => some (.bool b)
  | .num n => some (.num n)
  | .str s => some (.str s)
  | .func name => some (.func name)
  | .arr _ | .obj _ | .regexp _ => some (.object pk)

def orderKey (orderType : OrderType) (order : JsValue) : Option OrderKey :=
  match orderType, order with
  | .number, .num (.finite q) => some (toLex (.inl q))
  | .string, .str s => some (toLex (.inr (JsValue.utf16 s)))
  | _, _ => none

namespace CompoundEntry

/-- The order key's value: a datetime column of this name goes before a field of the document. -/
def orderOf (rt : Runtime) (d : CompoundIndexDef) (doc : JsValue) (dt : Option DtColumns) : JsValue :=
  match dt.bind (·.get d.orderBy) with
  | some ms => .num (.finite ms)
  | none => getField rt doc d.orderBy

/-- Where a document belongs, if anywhere. -/
def place (rt : Runtime) (d : CompoundIndexDef) (pk : Pk) (doc : JsValue) (dt : Option DtColumns) :
    Option (Placement Pk) := do
  let group ← groupKey pk (getField rt doc d.groupBy)
  let order ← orderKey d.orderType (orderOf rt d doc dt)
  return { group := group, order := order }

/-- `===` of groups: an object read again is another object. -/
def sameGroup : (prev group : GroupKey Pk) → Bool
  | .object _, _ => false
  | .num a, .num b => decide (a = b ∧ a ≠ .nan)
  | prev, group => decide (prev = group)

def samePlacement (prev next : Option (Placement Pk)) : Bool :=
  match prev, next with
  | some prev, some next => sameGroup prev.group next.group && decide (prev.order = next.order)
  | _, _ => false

/-- Take a record out of its group; a group that is empty then goes. -/
def dropNode (groups : JsMap (GroupKey Pk) (SkipList OrderKey Pk)) (pk : Pk) (prev : Placement Pk) :
    JsMap (GroupKey Pk) (SkipList OrderKey Pk) :=
  match groups.get prev.group with
  | none => groups
  | some list =>
    if (list.delete prev.order pk).length = 0 then groups.delete prev.group
    else groups.set prev.group (list.delete prev.order pk)

def addNode (groups : JsMap (GroupKey Pk) (SkipList OrderKey Pk)) (pk : Pk) (p : Placement Pk) :
    JsMap (GroupKey Pk) (SkipList OrderKey Pk) :=
  groups.set p.group (((groups.get p.group).getD .empty).insert p.order pk)

def add (rt : Runtime) (e : CompoundEntry Pk) (pk : Pk) (doc : JsValue) (dt : Option DtColumns) : CompoundEntry Pk :=
  let prev := e.byPk.get pk
  let next := place rt e.definition pk doc dt
  if samePlacement prev next then e
  else
    let groups :=
      match prev with
      | none => e.groups
      | some prev => dropNode e.groups pk prev
    match next with
    | none => { e with groups := groups, byPk := e.byPk.delete pk }
    | some next => { e with groups := addNode groups pk next, byPk := e.byPk.set pk next }

/-- The group of the record stays, even where it is empty then. -/
def remove (e : CompoundEntry Pk) (pk : Pk) : CompoundEntry Pk :=
  match e.byPk.get pk with
  | none => e
  | some prev =>
    let groups :=
      match e.groups.get prev.group with
      | none => e.groups
      | some list => e.groups.set prev.group (list.delete prev.order pk)
    { e with groups := groups, byPk := e.byPk.delete pk }

def clear (e : CompoundEntry Pk) : CompoundEntry Pk := { definition := e.definition }

def listOf (groups : JsMap (GroupKey Pk) (SkipList OrderKey Pk)) (group : GroupKey Pk) : SkipList OrderKey Pk :=
  (groups.get group).getD .empty

end CompoundEntry

structure CompoundIndexManager (Pk : Type) [LinearOrder Pk] where
  indexes : JsMap String (CompoundEntry Pk) := .empty

namespace CompoundIndexManager

def create (m : CompoundIndexManager Pk) (name : String) (d : CompoundIndexDef) :
    Except String (CompoundIndexManager Pk) :=
  if m.indexes.has name then .error ("compound index \"" ++ name ++ "\" already exists")
  else .ok ⟨m.indexes.set name { definition := d }⟩

def list (m : CompoundIndexManager Pk) : List (String × CompoundIndexDef) :=
  m.indexes.entries.map fun (name, e) => (name, e.definition)

def add (rt : Runtime) (m : CompoundIndexManager Pk) (pk : Pk) (doc : JsValue)
    (dt : Option DtColumns) : CompoundIndexManager Pk :=
  ⟨m.indexes.mapValues fun e => e.add rt pk doc dt⟩

def remove (m : CompoundIndexManager Pk) (pk : Pk) : CompoundIndexManager Pk :=
  ⟨m.indexes.mapValues fun e => e.remove pk⟩

def rebuild (rt : Runtime) (m : CompoundIndexManager Pk)
    (entries : List (Pk × JsValue × Option DtColumns)) : CompoundIndexManager Pk :=
  entries.foldl (fun m (pk, doc, dt) => m.add rt pk doc dt) ⟨m.indexes.mapValues CompoundEntry.clear⟩

end CompoundIndexManager

namespace CompoundEntry

/-- The groups' lists hold the records where they are placed. -/
structure Coherent (e : CompoundEntry Pk) : Prop where
  nodup : ∀ group, (listOf e.groups group).Nodup
  mem_list : ∀ group order pk, (listOf e.groups group).Mem order pk ↔
    e.byPk.get pk = some { group := group, order := order }

theorem Coherent.empty (d : CompoundIndexDef) : Coherent ({ definition := d } : CompoundEntry Pk) where
  nodup group := SkipList.nodup_empty
  mem_list group order pk := by
    refine ⟨fun h => absurd h (SkipList.not_mem_empty order pk), fun h => ?_⟩
    cases h

theorem listOf_set (groups : JsMap (GroupKey Pk) (SkipList OrderKey Pk)) (group group' : GroupKey Pk)
    (list : SkipList OrderKey Pk) :
    listOf (groups.set group list) group' = if group' = group then list else listOf groups group' := by
  rw [listOf, JsMap.get_set]
  split <;> rfl

theorem listOf_dropNode (groups : JsMap (GroupKey Pk) (SkipList OrderKey Pk)) (pk : Pk)
    (prev : Placement Pk) (group : GroupKey Pk) : listOf (dropNode groups pk prev) group =
      if group = prev.group then (listOf groups group).delete prev.order pk
      else listOf groups group := by
  rw [dropNode]
  cases hget : groups.get prev.group with
  | none =>
    split_ifs with hg
    · rw [hg, listOf, hget]
      rfl
    · rfl
  | some list =>
    dsimp only
    have hlist : listOf groups prev.group = list := by rw [listOf, hget, getD_some]
    by_cases hg : group = prev.group
    · rw [if_pos hg, hg, hlist]
      split_ifs with hzero
      · rw [listOf, JsMap.get_delete_self]
        have hnil := length_eq_zero_iff.mp hzero
        generalize list.delete prev.order pk = l at hnil
        cases l
        cases hnil
        rfl
      · rw [listOf_set, if_pos rfl]
    · split_ifs
      · rw [listOf, JsMap.get_delete_of_ne _ hg, listOf]
      · rw [listOf_set, if_neg hg]

/-- The lists without a record that was placed. -/
theorem Coherent.dropped {e : CompoundEntry Pk} {prev : Placement Pk} (h : e.Coherent)
    (hprev : e.byPk.get pk = some prev)
    {groups : JsMap (GroupKey Pk) (SkipList OrderKey Pk)}
    (hlist : ∀ group, listOf groups group =
      if group = prev.group then (listOf e.groups group).delete prev.order pk
      else listOf e.groups group) :
    Coherent { e with groups := groups, byPk := e.byPk.delete pk } where
  nodup group := by
    rw [hlist]
    split_ifs
    · exact SkipList.nodup_delete (h.nodup group) _ _
    · exact h.nodup group
  mem_list group order pk' := by
    rw [hlist, JsMap.get_delete]
    by_cases hg : group = prev.group
    · rw [if_pos hg, SkipList.mem_delete (h.nodup group), h.mem_list]
      by_cases hpk : pk' = pk
      · subst hpk
        rw [if_pos rfl, hprev]
        simp only [some.injEq, reduceCtorEq, iff_false, not_and]
        intro hne he
        rw [he] at hne
        exact hne rfl trivial
      · simp [hpk]
    · rw [if_neg hg, h.mem_list]
      by_cases hpk : pk' = pk
      · subst hpk
        rw [if_pos rfl, hprev]
        simp only [some.injEq, reduceCtorEq, iff_false]
        rintro he
        exact hg (congrArg Placement.group he).symm
      · rw [if_neg hpk]

theorem Coherent.addNode {e : CompoundEntry Pk} (h : e.Coherent) (hnone : e.byPk.get pk = none) (p : Placement Pk) :
    Coherent { e with groups := addNode e.groups pk p, byPk := e.byPk.set pk p } where
  nodup group := by
    rw [CompoundEntry.addNode, listOf_set]
    split_ifs with hg
    · apply SkipList.nodup_insert (h.nodup p.group)
      intro hm
      rw [(h.mem_list ..).mp hm] at hnone
      cases hnone
    · exact h.nodup group
  mem_list group order pk' := by
    rw [CompoundEntry.addNode, listOf_set, JsMap.get_set]
    by_cases hg : group = p.group
    · rw [if_pos hg, SkipList.mem_insert, ← listOf, ← hg, h.mem_list]
      by_cases hpk : pk' = pk
      · subst hpk
        rw [hnone]
        obtain ⟨g, o⟩ := p
        obtain rfl : group = g := hg
        simp [eq_comm]
      · simp [hpk]
    · rw [if_neg hg, h.mem_list]
      by_cases hpk : pk' = pk
      · subst hpk
        rw [if_pos rfl, hnone]
        simp only [reduceCtorEq, some.injEq, false_iff]
        rintro rfl
        exact hg rfl
      · rw [if_neg hpk]

theorem samePlacement_eq {prev next : Option (Placement Pk)} (h : samePlacement prev next = true) : prev = next := by
  cases prev with
  | none => cases h
  | some prev =>
    cases next with
    | none => cases h
    | some next =>
      obtain ⟨hgroup, horder⟩ := (Bool.and_eq_true_iff).mp h
      have hg : prev.group = next.group := by
        rw [sameGroup.eq_def] at hgroup
        split at hgroup
        · cases hgroup
        · rename_i a b ha hb
          rw [ha, hb, (of_decide_eq_true hgroup).1]
        · exact of_decide_eq_true hgroup
      obtain ⟨g, o⟩ := prev
      obtain ⟨g', o'⟩ := next
      obtain rfl : g = g' := hg
      obtain rfl : o = o' := of_decide_eq_true horder
      rfl

theorem Coherent.add {e : CompoundEntry Pk} (h : e.Coherent) (rt : Runtime) (pk : Pk) (doc : JsValue)
    (dt : Option DtColumns) : (e.add rt pk doc dt).Coherent := by
  rw [CompoundEntry.add]
  by_cases hsame : samePlacement (e.byPk.get pk) (place rt e.definition pk doc dt) = true
  · rw [if_pos hsame]
    exact h
  rw [if_neg hsame]
  -- the record taken out of where it was
  have hout : Coherent { e with
      groups :=
        match e.byPk.get pk with
        | none => e.groups
        | some prev => dropNode e.groups pk prev
      byPk := e.byPk.delete pk } := by
    cases hprev : e.byPk.get pk with
    | none =>
      refine ⟨h.nodup, fun group order pk' => ?_⟩
      rw [h.mem_list, JsMap.get_delete]
      by_cases hpk : pk' = pk
      · rw [if_pos hpk, hpk, hprev]
      · rw [if_neg hpk]
    | some prev => exact h.dropped hprev (listOf_dropNode e.groups pk prev)
  cases place rt e.definition pk doc dt with
  | none => exact hout
  | some next =>
    have hadd := hout.addNode (JsMap.get_delete_self _ _) next
    refine ⟨hadd.nodup, fun group order pk' => ?_⟩
    rw [hadd.mem_list]
    rw [JsMap.get_set, JsMap.get_set, JsMap.get_delete]
    by_cases hpk : pk' = pk
    · rw [if_pos hpk, if_pos hpk]
    · rw [if_neg hpk, if_neg hpk, if_neg hpk]

theorem get_byPk_add (rt : Runtime) (e : CompoundEntry Pk) (pk pk' : Pk) (doc : JsValue)
    (dt : Option DtColumns) : (e.add rt pk doc dt).byPk.get pk' =
      if pk' = pk then place rt e.definition pk doc dt else e.byPk.get pk' := by
  rw [add]
  by_cases hsame : samePlacement (e.byPk.get pk) (place rt e.definition pk doc dt) = true
  · rw [if_pos hsame, ← samePlacement_eq hsame]
    by_cases hpk : pk' = pk
    · rw [if_pos hpk, hpk]
    · rw [if_neg hpk]
  · rw [if_neg hsame]
    cases place rt e.definition pk doc dt with
    | none => exact JsMap.get_delete _ _ _
    | some next => exact JsMap.get_set _ _ _ _

theorem Coherent.remove {e : CompoundEntry Pk} (h : e.Coherent) (pk : Pk) : (e.remove pk).Coherent := by
  rw [CompoundEntry.remove]
  cases hprev : e.byPk.get pk with
  | none => exact h
  | some prev =>
    apply h.dropped hprev
    intro group
    cases hget : e.groups.get prev.group with
    | none =>
      split_ifs with hg
      · rw [hg, listOf, hget]
        rfl
      · rfl
    | some list =>
      rw [listOf_set]
      split_ifs with hg
      · rw [hg, listOf, hget, getD_some]
      · rfl

theorem get_byPk_remove (e : CompoundEntry Pk) (pk pk' : Pk) :
    (e.remove pk).byPk.get pk' = if pk' = pk then none else e.byPk.get pk' := by
  rw [remove]
  cases hprev : e.byPk.get pk with
  | none =>
    by_cases hpk : pk' = pk
    · rw [if_pos hpk, hpk, hprev]
    · rw [if_neg hpk]
  | some prev => exact JsMap.get_delete _ _ _

theorem definition_add (rt : Runtime) (e : CompoundEntry Pk) (pk : Pk) (doc : JsValue)
    (dt : Option DtColumns) : (e.add rt pk doc dt).definition = e.definition := by
  rw [add]
  split
  · rfl
  · cases place rt e.definition pk doc dt <;> rfl

theorem definition_remove (e : CompoundEntry Pk) (pk : Pk) : (e.remove pk).definition = e.definition := by
  rw [remove]
  split <;> rfl

/-- Where the records' documents belong. -/
def placeOf (rt : Runtime) (d : CompoundIndexDef) (view : Pk → Option (JsValue × Option DtColumns))
    (pk : Pk) : Option (Placement Pk) :=
  (view pk).bind fun v => place rt d pk v.1 v.2

/-- The index holds the records where their documents belong, and nothing else. -/
def InSync (rt : Runtime) (e : CompoundEntry Pk) (view : Pk → Option (JsValue × Option DtColumns)) : Prop :=
  e.Coherent ∧ ∀ pk, e.byPk.get pk = placeOf rt e.definition view pk

variable {rt : Runtime} {e : CompoundEntry Pk} {view : Pk → Option (JsValue × Option DtColumns)}

theorem placeOf_update (d : CompoundIndexDef) (pk pk' : Pk) (v : Option (JsValue × Option DtColumns)) :
    placeOf rt d (Function.update view pk v) pk' =
      if pk' = pk then v.bind fun v => place rt d pk v.1 v.2 else placeOf rt d view pk' := by
  rw [placeOf, Function.update_apply]
  by_cases hpk : pk' = pk
  · rw [if_pos hpk, if_pos hpk, hpk]
  · rw [if_neg hpk, if_neg hpk, placeOf]

theorem InSync.add (h : e.InSync rt view) (pk : Pk) (doc : JsValue) (dt : Option DtColumns) :
    (e.add rt pk doc dt).InSync rt (Function.update view pk (some (doc, dt))) := by
  refine ⟨h.1.add rt pk doc dt, fun pk' => ?_⟩
  rw [get_byPk_add, definition_add, placeOf_update, h.2]
  rfl

theorem InSync.remove (h : e.InSync rt view) (pk : Pk) : (e.remove pk).InSync rt (Function.update view pk none) := by
  refine ⟨h.1.remove pk, fun pk' => ?_⟩
  rw [get_byPk_remove, definition_remove, placeOf_update, h.2]
  rfl

theorem InSync.add_undefined (h : e.InSync rt view) (pk : Pk) (dt : Option DtColumns) :
    (e.add rt pk .undefined dt).InSync rt (Function.update view pk none) := by
  have hplace (d : CompoundIndexDef) : place rt d pk .undefined dt = none := by
    have hfield : getField rt .undefined d.groupBy = .undefined := by
      rw [getField]
      induction splitPath d.groupBy with
      | nil => rfl
      | cons k ks ih => exact ih
    rw [place, hfield]
    rfl
  refine ⟨h.1.add rt pk .undefined dt, fun pk' => ?_⟩
  rw [get_byPk_add, definition_add, placeOf_update, h.2, hplace]
  rfl

end CompoundEntry

namespace CompoundIndexManager

variable {rt : Runtime} {m : CompoundIndexManager Pk}
  {view : Pk → Option (JsValue × Option DtColumns)}

/-- Every index is in step with the documents. -/
def InSync (rt : Runtime) (m : CompoundIndexManager Pk) (view : Pk → Option (JsValue × Option DtColumns)) : Prop :=
  ∀ name e, m.indexes.get name = some e → e.InSync rt view

theorem inSync_mapValues
    (h : ∀ name e, m.indexes.get name = some e → (f e).InSync rt view') :
    InSync rt ⟨m.indexes.mapValues f⟩ view' := by
  intro name e he
  rw [JsMap.get_mapValues] at he
  obtain ⟨old, hold, rfl⟩ := map_eq_some_iff.mp he
  exact h name old hold

theorem InSync.add (h : m.InSync rt view) (pk : Pk) (doc : JsValue) (dt : Option DtColumns) :
    (m.add rt pk doc dt).InSync rt (Function.update view pk (some (doc, dt))) :=
  inSync_mapValues fun name e he => (h name e he).add pk doc dt

theorem InSync.add_undefined (h : m.InSync rt view) (pk : Pk) (dt : Option DtColumns) :
    (m.add rt pk .undefined dt).InSync rt (Function.update view pk none) :=
  inSync_mapValues fun name e he => (h name e he).add_undefined pk dt

theorem InSync.remove (h : m.InSync rt view) (pk : Pk) : (m.remove pk).InSync rt (Function.update view pk none) :=
  inSync_mapValues fun name e he => (h name e he).remove pk

theorem rebuild_inSync (rt : Runtime) (m : CompoundIndexManager Pk) (hnodup : (entries.map Prod.fst).Nodup) :
    (m.rebuild rt entries).InSync rt fun pk => entries.lookup pk := by
  have hclear : InSync rt ⟨m.indexes.mapValues CompoundEntry.clear⟩ fun _ => none :=
    inSync_mapValues fun name e he => ⟨.empty e.definition, fun _ => rfl⟩
  exact tracks_rebuild (fun m view pk v h _ => h.add pk v.1 v.2) hclear hnodup

end CompoundIndexManager

end Echadron.MiniDb
