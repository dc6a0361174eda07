import Echadron.Lib.Tracking
import Echadron.MiniDb.IndexManager

namespace Echadron.MiniDb
open Lib List Option

variable {Pk : Type} [LinearOrder Pk]

/-! The postings of an equality index. -/

namespace EqPostings

/-- The records that a posting holds. -/
def holders (map : JsMap String (JsSet Pk)) (sk : String) : List Pk := ((map.get sk).getD .empty).keys

theorem mem_holders_addPosting (map : JsMap String (JsSet Pk)) (pk pk' : Pk) (sk sk' : String) :
    pk' ∈ holders (addPosting pk map sk) sk' ↔ (pk' = pk ∧ sk' = sk) ∨ pk' ∈ holders map sk' := by
  rw [holders, addPosting, JsMap.get_set]
  by_cases h : sk' = sk
  · subst h
    rw [if_pos rfl, getD_some, JsMap.mem_keys_set, holders]
    simp only [and_true]
  · rw [if_neg h, holders]
    simp only [h, and_false, false_or]

theorem mem_holders_add (pk pk' : Pk) (sk : String) (keys : List String)
    (map : JsMap String (JsSet Pk)) : pk' ∈ holders (keys.foldl (addPosting pk) map) sk ↔
      (pk' = pk ∧ sk ∈ keys) ∨ pk' ∈ holders map sk := by
  induction keys generalizing map with
  | nil => simp
  | cons k keys ih =>
    rw [foldl_cons, ih, mem_holders_addPosting, mem_cons]
    constructor
    · rintro (⟨h, hk⟩ | ⟨h, hk⟩ | h)
      · exact .inl ⟨h, .inr hk⟩
      · exact .inl ⟨h, .inl hk⟩
      · exact .inr h
    · rintro (⟨h, hk | hk⟩ | h)
      · exact .inr (.inl ⟨h, hk⟩)
      · exact .inl ⟨h, hk⟩
      · exact .inr (.inr h)

theorem mem_holders_removePosting (map : JsMap String (JsSet Pk)) (pk pk' : Pk) (sk sk' : String) :
    pk' ∈ holders (removePosting pk map sk) sk' ↔ ¬ (pk' = pk ∧ sk' = sk) ∧ pk' ∈ holders map sk' := by
  rw [removePosting]
  cases hset : map.get sk with
  | none =>
    refine ⟨fun h => ⟨?_, h⟩, And.right⟩
    rintro ⟨_, rfl⟩
    rw [holders, hset] at h
    exact not_mem_nil h
  | some set =>
    have hself : (map.get sk).getD .empty = set := by rw [hset, getD_some]
    by_cases hsk : sk' = sk
    · subst hsk
      have hmem : pk' ∈ (set.delete pk).keys ↔ ¬ (pk' = pk ∧ sk' = sk') ∧ pk' ∈ holders map sk' := by
        rw [JsMap.mem_keys_delete, holders, hself]
        simp only [and_true]
      rw [← hmem]
      dsimp only
      split
      · rename_i hzero
        rw [(JsMap.size_eq_zero_iff _).mp hzero, holders, JsMap.get_delete_self]
        rfl
      · rw [holders, JsMap.get_set_self]
        rfl
    · have hother : holders (if (set.delete pk).size = 0 then map.delete sk
          else map.set sk (set.delete pk)) sk' = holders map sk' := by
        split
        · rw [holders, JsMap.get_delete_of_ne _ hsk, holders]
        · rw [holders, JsMap.get_set_of_ne _ _ hsk, holders]
      rw [hother]
      simp only [hsk, and_false, not_false_eq_true, true_and]

theorem mem_holders_remove (pk pk' : Pk) (sk : String) (keys : List String)
    (map : JsMap String (JsSet Pk)) : pk' ∈ holders (keys.foldl (removePosting pk) map) sk ↔
      ¬ (pk' = pk ∧ sk ∈ keys) ∧ pk' ∈ holders map sk := by
  induction keys generalizing map with
  | nil => simp
  | cons k keys ih =>
    rw [foldl_cons, ih, mem_holders_removePosting, mem_cons, ← and_assoc, ← not_or]
    apply and_congr_left
    intro _
    apply not_congr
    constructor
    · rintro (⟨h, hk⟩ | ⟨h, hk⟩)
      · exact ⟨h, .inr hk⟩
      · exact ⟨h, .inl hk⟩
    · rintro ⟨h, hk | hk⟩
      · exact .inr ⟨h, hk⟩
      · exact .inl ⟨h, hk⟩

/-- The postings are those of the records' own lists, and none is empty. -/
structure Coherent (e : EqPostings Pk) : Prop where
  mem_find : ∀ sk pk, pk ∈ e.find sk ↔ ∃ keys, e.byPk.get pk = some keys ∧ sk ∈ keys
  occupied : ∀ sk set, e.map.get sk = some set → set.keys ≠ []

theorem Coherent.empty : ({} : EqPostings Pk).Coherent where
  mem_find sk pk := by
    refine ⟨fun h => absurd h not_mem_nil, ?_⟩
    rintro ⟨keys, hkeys, _⟩
    cases hkeys
  occupied sk set h := by cases h

section

variable {map : JsMap String (JsSet Pk)} (pk : Pk) (k : String) (h : ∀ sk set, map.get sk = some set → set.keys ≠ [])
include h

theorem occupied_addPosting : ∀ sk set, (addPosting pk map k).get sk = some set → set.keys ≠ [] := by
  intro sk set hset
  rw [addPosting, JsMap.get_set] at hset
  split at hset
  · cases hset
    exact ne_nil_of_mem ((JsMap.mem_keys_set _ _ _ _).mpr (.inl rfl))
  · exact h sk set hset

theorem occupied_removePosting : ∀ sk set, (removePosting pk map k).get sk = some set → set.keys ≠ [] := by
  intro sk set hset
  rw [removePosting] at hset
  split at hset
  · exact h sk set hset
  · split at hset
    · rw [JsMap.get_delete] at hset
      split at hset
      · cases hset
      · exact h sk set hset
    · rename_i hsize
      rw [JsMap.get_set] at hset
      split at hset
      · cases hset
        exact fun hnil => hsize ((JsMap.size_eq_zero_iff _).mpr hnil)
      · exact h sk set hset

end

theorem Coherent.add {e : EqPostings Pk} (h : e.Coherent) (keys : List String)
    (hnew : e.byPk.get pk = none) : (e.add pk keys).Coherent where
  mem_find sk pk' := by
    have hmem : pk' ∈ (e.add pk keys).find sk ↔ (pk' = pk ∧ sk ∈ keys) ∨ pk' ∈ e.find sk :=
      mem_holders_add pk pk' sk keys e.map
    rw [hmem, h.mem_find, EqPostings.add]
    by_cases hpk : pk' = pk
    · subst hpk
      rw [hnew]
      simp
    · rw [JsMap.get_set_of_ne _ _ hpk]
      simp [hpk]
  occupied := by
    rw [EqPostings.add]
    have hocc := h.occupied
    generalize e.map = map at hocc
    induction keys generalizing map with
    | nil => exact hocc
    | cons k keys ih => exact ih _ (occupied_addPosting pk k hocc)

theorem Coherent.remove {e : EqPostings Pk} (h : e.Coherent) (pk : Pk) : (e.remove pk).Coherent := by
  rw [EqPostings.remove]
  cases hold : e.byPk.get pk with
  | none => exact h
  | some keys =>
    constructor
    · intro sk pk'
      have hmem : pk' ∈ find
            { map := keys.foldl (removePosting pk) e.map, byPk := e.byPk.delete pk } sk ↔
          ¬ (pk' = pk ∧ sk ∈ keys) ∧ pk' ∈ e.find sk := mem_holders_remove pk pk' sk keys e.map
      rw [hmem, h.mem_find]
      by_cases hpk : pk' = pk
      · subst hpk
        rw [hold]
        simp
      · rw [JsMap.get_delete_of_ne _ hpk]
        simp [hpk]
    · have hocc := h.occupied
      generalize e.map = map at hocc
      clear hold
      induction keys generalizing map with
      | nil => exact hocc
      | cons k keys ih => exact ih _ (occupied_removePosting pk k hocc)

theorem byPk_add (e : EqPostings Pk) (pk : Pk) (keys : List String) :
    (e.add pk keys).byPk = e.byPk.set pk keys := rfl

theorem get_byPk_remove (e : EqPostings Pk) (pk pk' : Pk) :
    (e.remove pk).byPk.get pk' = if pk' = pk then none else e.byPk.get pk' := by
  rw [remove]
  cases hold : e.byPk.get pk with
  | none =>
    by_cases h : pk' = pk
    · rw [if_pos h, h, hold]
    · rw [if_neg h]
  | some keys => exact JsMap.get_delete _ _ _

end EqPostings

namespace RangePostings

theorem insert_all {list : SkipList ℚ Pk} (h : list.Nodup) {vals : List ℚ}
    (hvals : vals.Nodup) (hnew : ∀ v ∈ vals, ¬ list.Mem v pk) :
    (vals.foldl (fun list v => list.insert v pk) list).Nodup ∧
      ∀ v pk', (vals.foldl (fun list v => list.insert v pk) list).Mem v pk' ↔
        (pk' = pk ∧ v ∈ vals) ∨ list.Mem v pk' := by
  induction vals generalizing list with
  | nil => exact ⟨h, by simp⟩
  | cons w vals ih =>
    rw [nodup_cons] at hvals
    have hins := SkipList.nodup_insert h (hnew w (mem_cons_self ..))
    have hnew' : ∀ v ∈ vals, ¬ (list.insert w pk).Mem v pk := by
      intro v hv hm
      rcases (SkipList.mem_insert _ _ _ _ _).mp hm with ⟨rfl, _⟩ | hm
      · exact hvals.1 hv
      · exact hnew v (mem_cons_of_mem _ hv) hm
    obtain ⟨hn, hm⟩ := ih hins hvals.2 hnew'
    refine ⟨hn, fun v pk' => ?_⟩
    rw [foldl_cons, hm, SkipList.mem_insert, mem_cons]
    constructor
    · rintro (⟨hpk, hv⟩ | ⟨hv, hpk⟩ | hv)
      · exact .inl ⟨hpk, .inr hv⟩
      · exact .inl ⟨hpk, .inl hv⟩
      · exact .inr hv
    · rintro (⟨hpk, hv | hv⟩ | hv)
      · exact .inr (.inl ⟨hv, hpk⟩)
      · exact .inl ⟨hpk, hv⟩
      · exact .inr (.inr hv)

theorem delete_all (pk : Pk) {list : SkipList ℚ Pk} (h : list.Nodup) (vals : List ℚ) :
    (vals.foldl (fun list v => list.delete v pk) list).Nodup ∧
      ∀ v pk', (vals.foldl (fun list v => list.delete v pk) list).Mem v pk' ↔
        ¬ (pk' = pk ∧ v ∈ vals) ∧ list.Mem v pk' := by
  induction vals generalizing list with
  | nil => exact ⟨h, by simp⟩
  | cons w vals ih =>
    obtain ⟨hn, hm⟩ := ih (SkipList.nodup_delete h w pk)
    refine ⟨hn, fun v pk' => ?_⟩
    rw [foldl_cons, hm, SkipList.mem_delete h, mem_cons, ← and_assoc, ← not_or]
    apply and_congr_left
    intro _
    apply not_congr
    constructor
    · rintro (⟨hpk, hv⟩ | ⟨hv, hpk⟩)
      · exact ⟨hpk, .inr hv⟩
      · exact ⟨hpk, .inl hv⟩
    · rintro ⟨hpk, hv | hv⟩
      · exact .inr ⟨hv, hpk⟩
      · exact .inl ⟨hpk, hv⟩

/-- The nodes are those of the records' own lists. -/
structure Coherent (r : RangePostings Pk) : Prop where
  nodup : r.list.Nodup
  mem_list : ∀ v pk, r.list.Mem v pk ↔ ∃ vals, r.byPk.get pk = some vals ∧ v ∈ vals

theorem Coherent.empty : ({} : RangePostings Pk).Coherent where
  nodup := SkipList.nodup_empty
  mem_list v pk := by
    refine ⟨fun h => absurd h (SkipList.not_mem_empty v pk), ?_⟩
    rintro ⟨vals, hvals, _⟩
    cases hvals

theorem Coherent.add {r : RangePostings Pk} (h : r.Coherent) {vals : List ℚ} (hvals : vals.Nodup)
    (hnew : r.byPk.get pk = none) : (r.add pk vals).Coherent := by
  have hout : ∀ v ∈ vals, ¬ r.list.Mem v pk := by
    intro v _ hm
    obtain ⟨old, hold, _⟩ := (h.mem_list v pk).mp hm
    rw [hnew] at hold
    cases hold
  obtain ⟨hn, hm⟩ := insert_all h.nodup hvals hout
  refine ⟨hn, fun v pk' => ?_⟩
  rw [RangePostings.add]
  rw [hm, h.mem_list]
  by_cases hpk : pk' = pk
  · subst hpk
    rw [hnew]
    simp
  · rw [JsMap.get_set_of_ne _ _ hpk]
    simp [hpk]

theorem Coherent.remove {r : RangePostings Pk} (h : r.Coherent) (pk : Pk) : (r.remove pk).Coherent := by
  rw [RangePostings.remove]
  cases hold : r.byPk.get pk with
  | none => exact h
  | some vals =>
    obtain ⟨hn, hm⟩ := delete_all pk h.nodup vals
    refine ⟨hn, fun v pk' => ?_⟩
    rw [hm, h.mem_list]
    by_cases hpk : pk' = pk
    · subst hpk
      rw [hold]
      simp
    · rw [JsMap.get_delete_of_ne _ hpk]
      simp [hpk]

theorem byPk_add (r : RangePostings Pk) (pk : Pk) (vals : List ℚ) :
    (r.add pk vals).byPk = r.byPk.set pk vals := rfl

theorem get_byPk_remove (r : RangePostings Pk) (pk pk' : Pk) :
    (r.remove pk).byPk.get pk' = if pk' = pk then none else r.byPk.get pk' := by
  rw [remove]
  cases hold : r.byPk.get pk with
  | none =>
    by_cases h : pk' = pk
    · rw [if_pos h, h, hold]
    · rw [if_neg h]
  | some vals => exact JsMap.get_delete _ _ _

end RangePostings

/-! An index, and what its documents say it holds. -/

namespace AnyIndex

variable {rt : Runtime}

/-- The index holds what the documents are indexed by, and nothing else. -/
def InSync (rt : Runtime) (idx : AnyIndex Pk) (docOf : Pk → Option JsValue) : Prop :=
  match idx.postings with
  | .equality e => e.Coherent ∧ ∀ pk, e.byPk.get pk = (docOf pk).bind (eqKeys rt idx.field idx.sparse)
  | .range r => r.Coherent ∧ ∀ pk, r.byPk.get pk = (docOf pk).bind (rangeVals rt idx.field idx.sparse)

theorem rangeVals_nodup {field : String} {sparse : Bool}
    (h : rangeVals rt field sparse doc = some vals) : vals.Nodup := by
  obtain ⟨value, _, h⟩ := bind_eq_some_iff.mp h
  dsimp only at h
  split at h
  · cases h
  · cases h
    exact JsMap.keys_nodup _

theorem InSync.clear (idx : AnyIndex Pk) : idx.clear.InSync rt fun _ => none := by
  rw [AnyIndex.clear]
  cases idx.postings with
  | equality e => exact ⟨.empty, fun _ => rfl⟩
  | range r => exact ⟨.empty, fun _ => rfl⟩

theorem update_bind (docOf : Pk → Option JsValue) (pk pk' : Pk) (d : Option JsValue)
    (f : JsValue → Option β) : (Function.update docOf pk d pk').bind f =
      if pk' = pk then d.bind f else (docOf pk').bind f := by
  rw [Function.update_apply]
  split <;> rfl

theorem InSync.add {idx : AnyIndex Pk} (h : idx.InSync rt docOf) (hnew : docOf pk = none) (doc : JsValue) :
    (idx.add rt pk doc).InSync rt (Function.update docOf pk (some doc)) := by
  obtain ⟨field, unique, sparse, postings⟩ := idx
  cases postings with
  | equality e =>
    obtain ⟨hc, hk⟩ := h
    rw [AnyIndex.add]
    cases hkeys : eqKeys rt field sparse doc with
    | none =>
      refine ⟨hc, fun pk' => ?_⟩
      rw [update_bind, hk]
      by_cases hpk : pk' = pk
      · rw [if_pos hpk, hpk, hnew]
        exact hkeys.symm
      · rw [if_neg hpk]
    | some keys =>
      refine ⟨hc.add keys (by rw [hk, hnew]; rfl), fun pk' => ?_⟩
      rw [update_bind, EqPostings.byPk_add, JsMap.get_set, hk]
      by_cases hpk : pk' = pk
      · rw [if_pos hpk, if_pos hpk]
        exact hkeys.symm
      · rw [if_neg hpk, if_neg hpk]
  | range r =>
    obtain ⟨hc, hk⟩ := h
    rw [AnyIndex.add]
    cases hvals : rangeVals rt field sparse doc with
    | none =>
      refine ⟨hc, fun pk' => ?_⟩
      rw [update_bind, hk]
      by_cases hpk : pk' = pk
      · rw [if_pos hpk, hpk, hnew]
        exact hvals.symm
      · rw [if_neg hpk]
    | some vals =>
      refine ⟨hc.add (rangeVals_nodup hvals) (by rw [hk, hnew]; rfl), fun pk' => ?_⟩
      rw [update_bind, RangePostings.byPk_add, JsMap.get_set, hk]
      by_cases hpk : pk' = pk
      · rw [if_pos hpk, if_pos hpk]
        exact hvals.symm
      · rw [if_neg hpk, if_neg hpk]

theorem InSync.remove {idx : AnyIndex Pk} (h : idx.InSync rt docOf)
    (pk : Pk) : (idx.remove pk).InSync rt (Function.update docOf pk none) := by
  obtain ⟨field, unique, sparse, postings⟩ := idx
  cases postings with
  | equality e =>
    refine ⟨h.1.remove pk, fun pk' => ?_⟩
    rw [EqPostings.get_byPk_remove, update_bind, h.2]
    rfl
  | range r =>
    refine ⟨h.1.remove pk, fun pk' => ?_⟩
    rw [RangePostings.get_byPk_remove, update_bind, h.2]
    rfl

/-- What an index is declared as: its options, and the type of its postings. -/
def SameDef (a b : AnyIndex Pk) : Prop :=
  a.field = b.field ∧ a.unique = b.unique ∧ a.sparse = b.sparse ∧ a.type = b.type

theorem SameDef.refl (a : AnyIndex Pk) : a.SameDef a := ⟨rfl, rfl, rfl, rfl⟩

theorem sameDef_clear (idx : AnyIndex Pk) : idx.clear.SameDef idx := by
  obtain ⟨field, unique, sparse, postings⟩ := idx
  cases postings <;> exact ⟨rfl, rfl, rfl, rfl⟩

theorem sameDef_remove (idx : AnyIndex Pk) (pk : Pk) : (idx.remove pk).SameDef idx := by
  obtain ⟨field, unique, sparse, postings⟩ := idx
  cases postings <;> exact ⟨rfl, rfl, rfl, rfl⟩

theorem sameDef_add (rt : Runtime) (idx : AnyIndex Pk) (pk : Pk) (doc : JsValue) :
    (idx.add rt pk doc).SameDef idx := by
  obtain ⟨field, unique, sparse, postings⟩ := idx
  cases postings with
  | equality e =>
    rw [add]
    dsimp only
    split <;> exact ⟨rfl, rfl, rfl, rfl⟩
  | range r =>
    rw [add]
    dsimp only
    split <;> exact ⟨rfl, rfl, rfl, rfl⟩

end AnyIndex

namespace IndexManager

variable {rt : Runtime}

/-- Every index is in step with the documents. -/
def InSync (rt : Runtime) (m : IndexManager Pk) (docOf : Pk → Option JsValue) : Prop :=
  ∀ name idx, m.indexes.get name = some idx → idx.InSync rt docOf

def indexedDoc (value : Option JsValue) : Option JsValue := value.filter indexable

theorem inSync_mapValues {m : IndexManager Pk}
    (h : ∀ name idx, m.indexes.get name = some idx → (f idx).InSync rt docOf) :
    InSync rt ⟨m.indexes.mapValues f⟩ docOf := by
  intro name idx hidx
  rw [JsMap.get_mapValues] at hidx
  obtain ⟨old, hold, rfl⟩ := map_eq_some_iff.mp hidx
  exact h name old hold

theorem InSync.add {m : IndexManager Pk} (h : m.InSync rt docOf) (hnew : docOf pk = none) (doc : JsValue) :
    (m.add rt pk doc).InSync rt (Function.update docOf pk (some doc)) :=
  inSync_mapValues fun name idx hidx => (h name idx hidx).add hnew doc

theorem InSync.remove {m : IndexManager Pk} (h : m.InSync rt docOf)
    (pk : Pk) : (m.remove pk).InSync rt (Function.update docOf pk none) :=
  inSync_mapValues fun name idx hidx => (h name idx hidx).remove pk

theorem InSync.clear (m : IndexManager Pk) : InSync rt ⟨m.indexes.mapValues AnyIndex.clear⟩ fun _ => none :=
  inSync_mapValues fun _ idx _ => .clear idx

/-- `rebuild` adds a value if it can be indexed. -/
def addIndexable (rt : Runtime) (m : IndexManager Pk) (pk : Pk) (value : JsValue) : IndexManager Pk :=
  if indexable value then m.add rt pk value else m

theorem InSync.addIndexable {m : IndexManager Pk} (h : m.InSync rt docOf) (hnew : docOf pk = none) (value : JsValue) :
    (m.addIndexable rt pk value).InSync rt
      (Function.update docOf pk (indexedDoc (some value))) := by
  rw [IndexManager.addIndexable]
  by_cases hv : indexable value = true
  · rw [if_pos hv, indexedDoc, filter_some_pos hv]
    exact h.add hnew value
  · rw [if_neg hv, indexedDoc, filter_some_neg (Bool.eq_false_iff.mpr hv), ← hnew, Function.update_eq_self]
    exact h

theorem indexedDoc_update (docOf : Pk → Option JsValue) (pk : Pk) (d : Option JsValue) :
    (fun k => indexedDoc (Function.update docOf pk d k)) =
      Function.update (fun k => indexedDoc (docOf k)) pk (indexedDoc d) := by
  funext k
  rw [Function.update_apply, Function.update_apply]
  split <;> rfl

theorem rebuild_inSync (m : IndexManager Pk) {entries : List (Pk × JsValue)} (hnodup : (entries.map Prod.fst).Nodup) :
    (m.rebuild rt entries).InSync rt fun pk => indexedDoc (entries.lookup pk) := by
  have hadd : ∀ (m : IndexManager Pk) (docOf : Pk → Option JsValue) (pk : Pk) (value : JsValue),
      m.InSync rt (fun k => indexedDoc (docOf k)) → docOf pk = none →
      (m.addIndexable rt pk value).InSync rt
        fun k => indexedDoc (Function.update docOf pk (some value) k) := by
    intro m docOf pk value h hnew
    rw [indexedDoc_update]
    exact h.addIndexable (congrArg indexedDoc hnew) value
  exact tracks_rebuild hadd (InSync.clear m) hnodup

theorem list_mapValues (m : IndexManager Pk)
    (hf : ∀ idx, (f idx).SameDef idx) : list ⟨m.indexes.mapValues f⟩ = m.list := by
  rw [list, JsMap.entries_mapValues, List.map_map]
  apply map_congr_left
  rintro ⟨name, idx⟩ _
  obtain ⟨hfield, hunique, hsparse, htype⟩ := hf idx
  simp only [Function.comp, hfield, hunique, hsparse, htype]

theorem list_add (m : IndexManager Pk) (pk : Pk) (doc : JsValue) : (m.add rt pk doc).list = m.list :=
  list_mapValues m fun idx => idx.sameDef_add rt pk doc

theorem list_rebuild (m : IndexManager Pk) (entries : List (Pk × JsValue)) :
    (m.rebuild rt entries).list = m.list := by
  apply fold_invariant (I := fun t : IndexManager Pk => t.list = m.list)
  · intro t e ht
    dsimp only
    split
    · exact (list_add t _ _).trans ht
    · exact ht
  · exact list_mapValues m AnyIndex.sameDef_clear

end IndexManager

end Echadron.MiniDb
