import Echadron.MiniDb.CompoundIndex
import Echadron.MiniDb.IndexSync

namespace Echadron.MiniDb
open Lib List Option

variable {Pk : Type} [LinearOrder Pk]

/-! Two indexes that answer alike. -/

def EqPostings.Same (a b : EqPostings Pk) : Prop :=
  (∀ sk pk, pk ∈ a.find sk ↔ pk ∈ b.find sk) ∧ ∀ pk, a.byPk.get pk = b.byPk.get pk

def RangePostings.Same (a b : RangePostings Pk) : Prop := a.list = b.list ∧ ∀ pk, a.byPk.get pk = b.byPk.get pk

def Postings.Same : Postings Pk → Postings Pk → Prop
  | .equality a, .equality b => a.Same b
  | .range a, .range b => a.Same b
  | _, _ => False

namespace AnyIndex

def Same (a b : AnyIndex Pk) : Prop := a.SameDef b ∧ a.postings.Same b.postings

theorem SameDef.symm {a b : AnyIndex Pk} (h : a.SameDef b) : b.SameDef a :=
  ⟨h.1.symm, h.2.1.symm, h.2.2.1.symm, h.2.2.2.symm⟩

theorem SameDef.trans {a b c : AnyIndex Pk} (h : a.SameDef b) (h' : b.SameDef c) : a.SameDef c :=
  ⟨h.1.trans h'.1, h.2.1.trans h'.2.1, h.2.2.1.trans h'.2.2.1, h.2.2.2.trans h'.2.2.2⟩

theorem InSync.same {a b : AnyIndex Pk} (ha : a.InSync rt docOf)
    (hb : b.InSync rt docOf) (hdef : a.SameDef b) : a.Same b := by
  refine ⟨hdef, ?_⟩
  obtain ⟨field, unique, sparse, postings⟩ := a
  obtain ⟨field', unique', sparse', postings'⟩ := b
  obtain ⟨hfield, _, hsparse, htype⟩ := hdef
  obtain rfl : field = field' := hfield
  obtain rfl : sparse = sparse' := hsparse
  cases postings with
  | equality e =>
    cases postings' with
    | range _ => cases htype
    | equality e' =>
      have hbyPk (pk : Pk) : e.byPk.get pk = e'.byPk.get pk := (ha.2 pk).trans (hb.2 pk).symm
      refine ⟨fun sk pk => ?_, hbyPk⟩
      rw [ha.1.mem_find, hb.1.mem_find, hbyPk]
  | range r =>
    cases postings' with
    | equality _ => cases htype
    | range r' =>
      have hbyPk (pk : Pk) : r.byPk.get pk = r'.byPk.get pk := (ha.2 pk).trans (hb.2 pk).symm
      refine ⟨?_, hbyPk⟩
      apply SkipList.eq_of_mem_iff ha.1.nodup hb.1.nodup
      intro v pk
      rw [ha.1.mem_list, hb.1.mem_list, hbyPk]

end AnyIndex

namespace IndexManager

def Same (a b : IndexManager Pk) : Prop :=
  ∀ name, Option.Rel AnyIndex.Same (a.indexes.get name) (b.indexes.get name)

def SameDefs (a b : IndexManager Pk) : Prop :=
  ∀ name, Option.Rel AnyIndex.SameDef (a.indexes.get name) (b.indexes.get name)

theorem SameDefs.refl (m : IndexManager Pk) : m.SameDefs m := by
  intro name
  cases m.indexes.get name with
  | none => exact .none
  | some idx => exact .some (.refl idx)

theorem SameDefs.symm {a b : IndexManager Pk} (h : a.SameDefs b) : b.SameDefs a := by
  intro name
  have hname := h name
  cases ha : a.indexes.get name with
  | none =>
    rw [ha] at hname
    generalize b.indexes.get name = idx at hname
    cases hname
    exact .none
  | some idx =>
    rw [ha] at hname
    generalize b.indexes.get name = idx' at hname
    cases hname with
    | some hdef => exact .some hdef.symm

theorem SameDefs.trans {a b c : IndexManager Pk} (h : a.SameDefs b) (h' : b.SameDefs c) : a.SameDefs c := by
  intro name
  have hab := h name
  have hbc := h' name
  generalize a.indexes.get name = x at hab
  generalize b.indexes.get name = y at hab hbc
  generalize c.indexes.get name = z at hbc
  cases hab with
  | none =>
    cases hbc
    exact .none
  | some hdef =>
    cases hbc with
    | some hdef' => exact .some (hdef.trans hdef')

theorem sameDefs_mapValues (m : IndexManager Pk)
    (hf : ∀ idx, (f idx).SameDef idx) : SameDefs ⟨m.indexes.mapValues f⟩ m := by
  intro name
  rw [JsMap.get_mapValues]
  cases m.indexes.get name with
  | none => exact .none
  | some idx => exact .some (hf idx)

theorem sameDefs_add (rt : Runtime) (m : IndexManager Pk) (pk : Pk) (doc : JsValue) : (m.add rt pk doc).SameDefs m :=
  sameDefs_mapValues m fun idx => idx.sameDef_add rt pk doc

theorem sameDefs_remove (m : IndexManager Pk) (pk : Pk) : (m.remove pk).SameDefs m :=
  sameDefs_mapValues m fun idx => idx.sameDef_remove pk

theorem sameDefs_rebuild (rt : Runtime) (m : IndexManager Pk) (entries : List (Pk × JsValue)) :
    (m.rebuild rt entries).SameDefs m := by
  apply fold_invariant (I := fun t : IndexManager Pk => t.SameDefs m)
  · intro t e ht
    dsimp only
    split
    · exact (sameDefs_add rt t _ _).trans ht
    · exact ht
  · exact sameDefs_mapValues m AnyIndex.sameDef_clear

theorem InSync.same {a b : IndexManager Pk} (ha : a.InSync rt docOf)
    (hb : b.InSync rt docOf) (hdefs : a.SameDefs b) : a.Same b := by
  intro name
  have hname := hdefs name
  cases hidx : a.indexes.get name with
  | none =>
    rw [hidx] at hname
    generalize b.indexes.get name = idx at hname
    cases hname
    exact .none
  | some idx =>
    rw [hidx] at hname
    cases hidx' : b.indexes.get name with
    | none =>
      rw [hidx'] at hname
      cases hname
    | some idx' =>
      rw [hidx'] at hname
      cases hname with
      | some hdef => exact .some ((ha name idx hidx).same (hb name idx' hidx') hdef)

end IndexManager

namespace DtIndex

def DtColumn.Same (a b : DtColumn Pk) : Prop := a.list = b.list ∧ ∀ key, a.byKey.get key = b.byKey.get key

def Same (a b : DtIndex Pk) : Prop :=
  (∀ col, Option.Rel DtColumn.Same (a.cols.get col) (b.cols.get col)) ∧ ∀ key, a.byKey.get key = b.byKey.get key

theorem holds_same {val : Pk → Option ℚ} (ha : DtColumn.Holds a val)
    (hb : DtColumn.Holds b val) : DtColumn.Same a b := by
  refine ⟨?_, fun key => (ha.get_byKey key).trans (hb.get_byKey key).symm⟩
  apply SkipList.eq_of_mem_iff ha.nodup hb.nodup
  intro ms key
  rw [ha.mem_list, hb.mem_list]

theorem exists_value {val : Pk → Option ℚ} (h : DtColumn.Holds c val)
    (hkeys : c.byKey.keys ≠ []) : ∃ key, val key ≠ none := by
  obtain ⟨key, hkey⟩ := exists_mem_of_ne_nil _ hkeys
  refine ⟨key, ?_⟩
  rw [← h.get_byKey, Ne, JsMap.get_eq_none_iff, not_not]
  exact hkey

theorem InSync.same {a b : DtIndex Pk} {dtOf : Pk → Option DtColumns} (ha : a.InSync dtOf)
    (hb : b.InSync dtOf) : a.Same b := by
  refine ⟨fun col => ?_, fun key => (ha.get_byKey key).trans (hb.get_byKey key).symm⟩
  have hcol := ha.columns col
  have hcol' := hb.columns col
  cases hc : a.cols.get col with
  | none =>
    rw [hc] at hcol
    cases hc' : b.cols.get col with
    | none => exact .none
    | some c' =>
      rw [hc'] at hcol'
      obtain ⟨key, hkey⟩ := exists_value hcol'.1 hcol'.2
      exact absurd (hcol key) hkey
  | some c =>
    rw [hc] at hcol
    cases hc' : b.cols.get col with
    | none =>
      rw [hc'] at hcol'
      obtain ⟨key, hkey⟩ := exists_value hcol.1 hcol.2
      exact absurd (hcol' key) hkey
    | some c' =>
      rw [hc'] at hcol'
      exact .some (holds_same hcol.1 hcol'.1)

end DtIndex

namespace CompoundEntry

/-- A group that is empty and one that is not there are alike. -/
def Same (a b : CompoundEntry Pk) : Prop :=
  a.definition = b.definition ∧ (∀ group, listOf a.groups group = listOf b.groups group) ∧
    ∀ pk, a.byPk.get pk = b.byPk.get pk

theorem InSync.same {a b : CompoundEntry Pk}
    (ha : a.InSync rt view) (hb : b.InSync rt view) (hdef : a.definition = b.definition) :
    a.Same b := by
  have hbyPk (pk : Pk) : a.byPk.get pk = b.byPk.get pk := by rw [ha.2, hb.2, hdef]
  refine ⟨hdef, fun group => ?_, hbyPk⟩
  apply SkipList.eq_of_mem_iff (ha.1.nodup group) (hb.1.nodup group)
  intro order pk
  rw [ha.1.mem_list, hb.1.mem_list, hbyPk]

end CompoundEntry

namespace CompoundIndexManager

def Same (a b : CompoundIndexManager Pk) : Prop :=
  ∀ name, Option.Rel CompoundEntry.Same (a.indexes.get name) (b.indexes.get name)

def SameDefs (a b : CompoundIndexManager Pk) : Prop :=
  ∀ name, (a.indexes.get name).map CompoundEntry.definition = (b.indexes.get name).map CompoundEntry.definition

theorem sameDefs_mapValues (m : CompoundIndexManager Pk)
    (hf : ∀ e, (f e).definition = e.definition) : SameDefs ⟨m.indexes.mapValues f⟩ m := by
  intro name
  rw [JsMap.get_mapValues, Option.map_map]
  congr 1
  exact funext hf

theorem sameDefs_add (rt : Runtime) (m : CompoundIndexManager Pk) (pk : Pk) (doc : JsValue)
    (dt : Option DtColumns) : (m.add rt pk doc dt).SameDefs m :=
  sameDefs_mapValues m fun e => e.definition_add rt pk doc dt

theorem sameDefs_remove (m : CompoundIndexManager Pk) (pk : Pk) : (m.remove pk).SameDefs m :=
  sameDefs_mapValues m fun e => e.definition_remove pk

theorem sameDefs_rebuild (rt : Runtime) (m : CompoundIndexManager Pk)
    (entries : List (Pk × JsValue × Option DtColumns)) : (m.rebuild rt entries).SameDefs m := by
  apply fold_invariant (I := fun t : CompoundIndexManager Pk => t.SameDefs m)
  · intro t e ht name
    exact (sameDefs_add rt t _ _ _ name).trans (ht name)
  · exact sameDefs_mapValues m fun _ => rfl

theorem InSync.same {a b : CompoundIndexManager Pk} (ha : a.InSync rt view)
    (hb : b.InSync rt view) (hdefs : a.SameDefs b) : a.Same b := by
  intro name
  have hname := hdefs name
  cases he : a.indexes.get name with
  | none =>
    rw [he] at hname
    rw [map_eq_none_iff.mp hname.symm]
    exact .none
  | some e =>
    rw [he] at hname
    obtain ⟨e', he', hdef⟩ := map_eq_some_iff.mp hname.symm
    rw [he']
    exact .some ((ha name e he).same (hb name e' he') hdef.symm)

end CompoundIndexManager

structure Derived (Pk : Type) [LinearOrder Pk] where
  indexes : IndexManager Pk := {}
  dt : DtIndex Pk := {}
  compound : CompoundIndexManager Pk := {}

namespace Derived

/-- What the records are to the derived structures. -/
abbrev View (Pk : Type) := Pk → Option (JsValue × Option DtColumns)

def View.set (view : View Pk) (pk : Pk) (v : Option (JsValue × Option DtColumns)) : View Pk :=
  Function.update view pk v

@[simp] theorem View.set_self (view : View Pk) (pk : Pk) (v : Option (JsValue × Option DtColumns)) :
    view.set pk v pk = v :=
  Function.update_self ..

theorem View.set_of_ne (view : View Pk) (v : Option (JsValue × Option DtColumns)) (h : k ≠ pk) :
    view.set pk v k = view k :=
  Function.update_of_ne h ..

@[simp] theorem View.set_set (view : View Pk) (pk : Pk) (v w : Option (JsValue × Option DtColumns)) :
    (view.set pk v).set pk w = view.set pk w :=
  Function.update_idem ..

theorem View.set_eq_self {view : View Pk} (h : view pk = v) : view.set pk v = view := by
  rw [← h]
  exact Function.update_eq_self pk view

def View.ofEntries (entries : List (Pk × JsValue × Option DtColumns)) : View Pk :=
  fun pk => entries.lookup pk

theorem View.ofEntries_eq_some_iff
    (hnodup : (entries.map Prod.fst).Nodup) (pk : Pk) (v : JsValue × Option DtColumns) :
    View.ofEntries entries pk = some v ↔ (pk, v) ∈ entries :=
  JsMap.lookup_eq_some_iff_mem hnodup pk v

/-- Take out all that a key has. -/
def remove (d : Derived Pk) (pk : Pk) : Derived Pk :=
  { indexes := d.indexes.remove pk
    dt := d.dt.del pk
    compound := d.compound.remove pk }

/-- The maintenance for a record that is written over an old document. -/
def put (rt : Runtime) (d : Derived Pk) (pk : Pk) (oldDoc : Option JsValue) (doc : JsValue)
    (dt : Option DtColumns) : Derived Pk :=
  let indexes := if oldDoc.any IndexManager.indexable then d.indexes.remove pk else d.indexes
  { indexes := if IndexManager.indexable doc then indexes.add rt pk doc else indexes
    dt := d.dt.set pk dt
    compound := d.compound.add rt pk doc dt }

/-- The maintenance for a record that is deleted. -/
def del (d : Derived Pk) (pk : Pk) (oldDoc : Option JsValue) : Derived Pk :=
  { indexes := if oldDoc.any IndexManager.indexable then d.indexes.remove pk else d.indexes
    dt := d.dt.del pk
    compound := d.compound.remove pk }

def rebuild (rt : Runtime) (d : Derived Pk) (entries : List (Pk × JsValue × Option DtColumns)) : Derived Pk :=
  { indexes := d.indexes.rebuild rt (entries.map fun (pk, doc, _) => (pk, doc))
    dt := DtIndex.rebuild (entries.map fun (pk, _, dt) => (pk, dt))
    compound := d.compound.rebuild rt entries }

/-- Every structure holds what the records give it, and nothing else. -/
structure InSync (rt : Runtime) (d : Derived Pk) (view : View Pk) : Prop where
  indexes : d.indexes.InSync rt fun pk => IndexManager.indexedDoc ((view pk).map Prod.fst)
  dt : d.dt.InSync fun pk => (view pk).bind Prod.snd
  compound : d.compound.InSync rt view

structure Same (a b : Derived Pk) : Prop where
  indexes : a.indexes.Same b.indexes
  dt : a.dt.Same b.dt
  compound : a.compound.Same b.compound

/-- The same indexes are declared. -/
structure SameDefs (a b : Derived Pk) : Prop where
  indexes : a.indexes.SameDefs b.indexes
  compound : a.compound.SameDefs b.compound

theorem InSync.same {a b : Derived Pk} (ha : a.InSync rt view)
    (hb : b.InSync rt view) (hdefs : a.SameDefs b) : a.Same b :=
  ⟨ha.indexes.same hb.indexes hdefs.indexes, ha.dt.same hb.dt, ha.compound.same hb.compound hdefs.compound⟩

theorem sameDefs_rebuild (rt : Runtime) (d : Derived Pk)
    (entries : List (Pk × JsValue × Option DtColumns)) : (d.rebuild rt entries).SameDefs d :=
  ⟨IndexManager.sameDefs_rebuild rt _ _, CompoundIndexManager.sameDefs_rebuild rt _ _⟩

variable {rt : Runtime} {d : Derived Pk} {view : View Pk}

theorem indexedDoc_view (view : View Pk) (pk : Pk) (v : Option (JsValue × Option DtColumns)) :
    (fun k => IndexManager.indexedDoc ((view.set pk v k).map Prod.fst)) =
      Function.update (fun k => IndexManager.indexedDoc ((view k).map Prod.fst)) pk
        (IndexManager.indexedDoc (v.map Prod.fst)) := by
  funext k
  rw [View.set, Function.update_apply, Function.update_apply]
  split <;> rfl

theorem dt_view (view : View Pk) (pk : Pk) (v : Option (JsValue × Option DtColumns)) :
    (fun k => (view.set pk v k).bind Prod.snd) =
      Function.update (fun k => (view k).bind Prod.snd) pk (v.bind Prod.snd) := by
  funext k
  rw [View.set, Function.update_apply, Function.update_apply]
  split <;> rfl

theorem InSync.remove (h : d.InSync rt view) (pk : Pk) : (d.remove pk).InSync rt (view.set pk none) := by
  constructor
  · rw [indexedDoc_view]
    exact h.indexes.remove pk
  · rw [dt_view]
    exact h.dt.del pk
  · exact h.compound.remove pk

def OldDoc (d : Derived Pk) (view : View Pk) (pk : Pk) (oldDoc : Option JsValue) : Prop :=
  (∀ name, d.indexes.indexes.get name = none) ∨ oldDoc = (view pk).map Prod.fst

theorem InSync.withoutOld (h : d.InSync rt view) (hold : d.OldDoc view pk oldDoc) :
    (if oldDoc.any IndexManager.indexable then d.indexes.remove pk else d.indexes).InSync rt
      (Function.update (fun k => IndexManager.indexedDoc ((view k).map Prod.fst)) pk none) := by
  split
  · exact h.indexes.remove pk
  · rename_i hany
    rcases hold with hempty | hold
    · intro name idx hidx
      rw [hempty name] at hidx
      cases hidx
    · have hnone : IndexManager.indexedDoc ((view pk).map Prod.fst) = none := by
        rw [← hold]
        cases oldDoc with
        | none => rfl
        | some doc => exact filter_some_neg (Bool.eq_false_iff.mpr hany)
      have hsame := Function.update_eq_self pk
        fun k => IndexManager.indexedDoc ((view k).map Prod.fst)
      rw [hnone] at hsame
      rw [hsame]
      exact h.indexes

theorem InSync.put (h : d.InSync rt view) (hold : d.OldDoc view pk oldDoc) (doc : JsValue) (dt : Option DtColumns) :
    (d.put rt pk oldDoc doc dt).InSync rt (view.set pk (some (doc, dt))) := by
  constructor
  · rw [indexedDoc_view]
    have hadd := (h.withoutOld hold).addIndexable (Function.update_self ..) doc
    rw [Function.update_idem] at hadd
    exact hadd
  · rw [dt_view]
    exact h.dt.set pk dt
  · exact h.compound.add pk doc dt

theorem InSync.put_undefined (h : d.InSync rt view) (hnone : view pk = none) {dt : Option DtColumns}
    (hdt : DtIndex.normalized dt = none) : (d.put rt pk none .undefined dt).InSync rt view := by
  have hself : view.set pk none = view := View.set_eq_self hnone
  constructor
  · exact h.indexes
  · have hset := h.dt.set pk dt
    refine ⟨fun key => ?_, ?_⟩
    · show (d.dt.set pk dt).byKey.get key = _
      rw [hset.get_byKey, Function.update_apply]
      by_cases hkey : key = pk
      · rw [if_pos hkey, hkey, hnone, hdt]
        rfl
      · rw [if_neg hkey]
    · have hval : DtIndex.valueOf (Function.update (fun pk => (view pk).bind Prod.snd) pk dt) =
          DtIndex.valueOf fun pk => (view pk).bind Prod.snd := by
        funext col key
        rw [DtIndex.valueOf_update]
        by_cases hkey : key = pk
        · rw [if_pos hkey, hkey, ← DtIndex.normalized_bind, hdt, DtIndex.valueOf, hnone]
          rfl
        · rw [if_neg hkey]
      rw [← hval]
      exact hset.columns
  · have hadd := h.compound.add_undefined pk dt
    rw [← hself]
    exact hadd

theorem InSync.del (h : d.InSync rt view) (hold : d.OldDoc view pk oldDoc) :
    (d.del pk oldDoc).InSync rt (view.set pk none) := by
  constructor
  · rw [indexedDoc_view]
    exact h.withoutOld hold
  · rw [dt_view]
    exact h.dt.del pk
  · exact h.compound.remove pk

theorem lookup_map (f : β → γ) (entries : List (Pk × β)) (pk : Pk) :
    (entries.map fun e => (e.1, f e.2)).lookup pk = (entries.lookup pk).map f := by
  induction entries with
  | nil => rfl
  | cons e entries ih =>
    rw [map_cons, lookup_cons, lookup_cons, ih]
    cases pk == e.1 <;> rfl

theorem rebuild_inSync (rt : Runtime) (d : Derived Pk) (hnodup : (entries.map Prod.fst).Nodup) :
    (d.rebuild rt entries).InSync rt (View.ofEntries entries) := by
  constructor
  · have hkeys : ((entries.map fun e => (e.1, e.2.1)).map Prod.fst).Nodup := by
      rw [List.map_map]
      exact hnodup
    have hrebuild : IndexManager.InSync rt _ _ := IndexManager.rebuild_inSync d.indexes hkeys
    simp only [lookup_map Prod.fst] at hrebuild
    exact hrebuild
  · have hkeys : ((entries.map fun e => (e.1, e.2.2)).map Prod.fst).Nodup := by
      rw [List.map_map]
      exact hnodup
    have hrebuild := DtIndex.rebuild_inSync hkeys
    simp only [lookup_map Prod.snd] at hrebuild
    have hjoin (pk : Pk) : ((entries.lookup pk).map Prod.snd).join = (entries.lookup pk).bind Prod.snd := by
      cases entries.lookup pk <;> rfl
    simp only [hjoin] at hrebuild
    exact hrebuild
  · exact CompoundIndexManager.rebuild_inSync rt d.compound hnodup

end Derived

end Echadron.MiniDb
