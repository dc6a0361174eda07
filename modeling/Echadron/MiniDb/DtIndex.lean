import Echadron.Lib.JsMap
import Echadron.Lib.SkipList
import Echadron.Lib.Tracking
import Mathlib.Algebra.Order.Ring.Unbundled.Rat

namespace Echadron.MiniDb
open Lib List Option

/-- The datetime columns of a record, as `normDt` leaves them: finite numbers only. -/
abbrev DtColumns := JsMap String ℚ

variable {Pk : Type} [LinearOrder Pk]

structure DtColumn (Pk : Type) [LinearOrder Pk] where
  list : SkipList ℚ Pk := .empty
  byKey : JsMap Pk ℚ := .empty

structure DtIndex (Pk : Type) [LinearOrder Pk] where
  cols : JsMap String (DtColumn Pk) := .empty
  byKey : JsMap Pk DtColumns := .empty

namespace DtIndex

section

variable (key : Pk) (cols : JsMap String (DtColumn Pk)) (col : String) (ms : ℚ)

def removeFrom : JsMap String (DtColumn Pk) :=
  match cols.get col with
  | none => cols
  | some c =>
    let c := { list := c.list.delete ms key, byKey := c.byKey.delete key : DtColumn Pk }
    if c.byKey.size = 0 then cols.delete col else cols.set col c

def insertInto : JsMap String (DtColumn Pk) :=
  let c := (cols.get col).getD {}
  cols.set col { list := c.list.insert ms key, byKey := c.byKey.set key ms }

end

/-- The columns of `old` that are gone or changed. -/
def dropped (old next : DtColumns) : List (String × ℚ) :=
  old.entries.filter fun (col, ms) => next.get col ≠ some ms

/-- The columns of `next` that are new or changed. -/
def added (old next : DtColumns) : List (String × ℚ) := next.entries.filter fun (col, ms) => old.get col ≠ some ms

def set (d : DtIndex Pk) (key : Pk) (dt : Option DtColumns) : DtIndex Pk :=
  let old := (d.byKey.get key).getD .empty
  let next := dt.getD .empty
  let cols := (dropped old next).foldl (fun cols (col, ms) => removeFrom key cols col ms) d.cols
  { cols := (added old next).foldl (fun cols (col, ms) => insertInto key cols col ms) cols
    byKey := if next.keys = [] then d.byKey.delete key else d.byKey.set key next }

def del (d : DtIndex Pk) (key : Pk) : DtIndex Pk :=
  match d.byKey.get key with
  | none => d
  | some old =>
    { cols := old.entries.foldl (fun cols (col, ms) => removeFrom key cols col ms) d.cols
      byKey := d.byKey.delete key }

def rebuild (entries : List (Pk × Option DtColumns)) : DtIndex Pk :=
  entries.foldl (fun d (key, dt) => if dt.isSome then d.set key dt else d) {}

/-! What the columns hold. -/

/-- The values that keys have in columns. -/
abbrev Values (Pk : Type) := String → Pk → Option ℚ

def Values.update (val : Values Pk) (col : String) (key : Pk) (v : Option ℚ) : Values Pk :=
  Function.update val col (Function.update (val col) key v)

theorem Values.update_apply (val : Values Pk) (col col' : String) (key key' : Pk) (v : Option ℚ) :
    val.update col key v col' key' = if col' = col ∧ key' = key then v else val col' key' := by
  by_cases hcol : col' = col
  · subst hcol
    rw [Values.update, Function.update_self, Function.update_apply]
    simp only [true_and]
  · rw [Values.update, Function.update_of_ne hcol, if_neg fun h => hcol h.1]

/-- A column holds the values of its keys. -/
structure DtColumn.Holds (c : DtColumn Pk) (val : Pk → Option ℚ) : Prop where
  nodup : c.list.Nodup
  mem_list : ∀ ms key, c.list.Mem ms key ↔ val key = some ms
  get_byKey : ∀ key, c.byKey.get key = val key

def Columns (cols : JsMap String (DtColumn Pk)) (val : Values Pk) : Prop :=
  ∀ col, match cols.get col with
    | none => ∀ key, val col key = none
    | some c => DtColumn.Holds c (val col) ∧ c.byKey.keys ≠ []

theorem Columns.empty : Columns (.empty : JsMap String (DtColumn Pk)) fun _ _ => none := by
  intro col
  exact fun _ => rfl

theorem Holds.empty : DtColumn.Holds ({} : DtColumn Pk) fun _ => none where
  nodup := SkipList.nodup_empty
  mem_list ms key := by
    refine ⟨fun h => absurd h (SkipList.not_mem_empty ms key), fun h => ?_⟩
    cases h
  get_byKey key := rfl

theorem Holds.remove {val : Pk → Option ℚ} (h : DtColumn.Holds c val) (hms : val key = some ms) :
    DtColumn.Holds ⟨c.list.delete ms key, c.byKey.delete key⟩ (Function.update val key none) where
  nodup := SkipList.nodup_delete h.nodup ms key
  mem_list ms' key' := by
    rw [SkipList.mem_delete h.nodup, h.mem_list, Function.update_apply]
    by_cases hkey : key' = key
    · subst hkey
      rw [hms]
      simp [eq_comm]
    · simp [hkey]
  get_byKey key' := by
    rw [JsMap.get_delete, Function.update_apply, h.get_byKey]

theorem Holds.insert {c : DtColumn Pk} {val : Pk → Option ℚ} (h : DtColumn.Holds c val)
    (hnone : val key = none) (ms : ℚ) :
    DtColumn.Holds ⟨c.list.insert ms key, c.byKey.set key ms⟩
      (Function.update val key (some ms)) where
  nodup := by
    apply SkipList.nodup_insert h.nodup
    rw [h.mem_list, hnone]
    simp
  mem_list ms' key' := by
    rw [SkipList.mem_insert, h.mem_list, Function.update_apply]
    by_cases hkey : key' = key
    · subst hkey
      rw [hnone]
      simp [eq_comm]
    · simp [hkey]
  get_byKey key' := by
    rw [JsMap.get_set, Function.update_apply, h.get_byKey]

section

variable {cols : JsMap String (DtColumn Pk)}

theorem Columns.remove (h : Columns cols val) (hms : val col key = some ms) :
    Columns (removeFrom key cols col ms) (val.update col key none) := by
  have hcol := h col
  rw [removeFrom]
  cases hget : cols.get col with
  | none =>
    rw [hget] at hcol
    rw [hcol key] at hms
    cases hms
  | some c =>
    rw [hget] at hcol
    have hheld := Holds.remove hcol.1 hms
    intro col'
    by_cases hne : col' = col
    · subst hne
      have hval : val.update col' key none col' = Function.update (val col') key none := by
        rw [Values.update, Function.update_self]
      rw [hval]
      dsimp only
      split_ifs with hsize
      · rw [JsMap.get_delete_self]
        have hnil := (JsMap.size_eq_zero_iff _).mp hsize
        intro key'
        rw [← hheld.get_byKey]
        apply (JsMap.get_eq_none_iff _ _).mpr
        rw [hnil]
        exact not_mem_nil
      · rw [JsMap.get_set_self]
        exact ⟨hheld, fun hnil => hsize ((JsMap.size_eq_zero_iff _).mpr hnil)⟩
    · have hval : val.update col key none col' = val col' := by
        rw [Values.update, Function.update_of_ne hne]
      have hother := h col'
      rw [hval]
      dsimp only
      split_ifs
      · rw [JsMap.get_delete_of_ne _ hne]
        exact hother
      · rw [JsMap.get_set_of_ne _ _ hne]
        exact hother

theorem Columns.insert {val : Values Pk} (h : Columns cols val) (hnone : val col key = none) (ms : ℚ) :
    Columns (insertInto key cols col ms) (val.update col key (some ms)) := by
  have hcol : DtColumn.Holds ((cols.get col).getD {}) (val col) := by
    have hcol := h col
    cases hget : cols.get col with
    | none =>
      rw [hget] at hcol
      rw [show val col = fun _ => none from funext hcol]
      exact Holds.empty
    | some c =>
      rw [hget] at hcol
      exact hcol.1
  intro col'
  rw [insertInto, JsMap.get_set]
  by_cases hne : col' = col
  · subst hne
    rw [if_pos rfl, Values.update, Function.update_self]
    refine ⟨Holds.insert hcol hnone ms, ?_⟩
    exact ne_nil_of_mem ((JsMap.mem_keys_set _ _ _ _).mpr (.inl rfl))
  · rw [if_neg hne, Values.update, Function.update_of_ne hne]
    exact h col'

theorem Columns.removeAll (h : Columns cols val) {es : List (String × ℚ)} (hnodup : (es.map Prod.fst).Nodup)
    (hes : ∀ e ∈ es, val e.1 key = some e.2) :
    Columns (es.foldl (fun cols (col, ms) => removeFrom key cols col ms) cols)
      fun col key' =>
        if key' = key then if col ∈ es.map Prod.fst then none else val col key' else val col key' := by
  induction es generalizing cols val with
  | nil => simpa using h
  | cons e es ih =>
    obtain ⟨col, ms⟩ := e
    rw [map_cons, nodup_cons] at hnodup
    have hfirst := h.remove (hes (col, ms) (mem_cons_self ..))
    have hrest := ih hfirst hnodup.2 (by
      intro e he
      have hne : e.1 ≠ col := fun hc => hnodup.1 (mem_map.mpr ⟨e, he, hc⟩)
      rw [Values.update_apply, if_neg fun h => hne h.1]
      exact hes e (mem_cons_of_mem _ he))
    rw [foldl_cons]
    convert hrest using 3 with col' key'
    rw [Values.update_apply]
    by_cases hkey : key' = key
    · rw [if_pos hkey, if_pos hkey]
      by_cases hc : col' = col
      · have hin : col' ∈ ((col, ms) :: es).map Prod.fst := mem_cons.mpr (.inl hc)
        have hself : col' = (col, ms).1 ∧ key' = key := ⟨hc, hkey⟩
        rw [if_pos hin, if_pos hself, ite_self]
      · have hout : ¬ (col' = (col, ms).1 ∧ key' = key) := fun h => hc h.1
        rw [if_neg hout]
        simp only [map_cons, mem_cons, hc, false_or]
    · rw [if_neg hkey, if_neg hkey, if_neg fun h => hkey h.2]

theorem Columns.insertAll (h : Columns cols val) {es : List (String × ℚ)} (hnodup : (es.map Prod.fst).Nodup)
    (hes : ∀ e ∈ es, val e.1 key = none) :
    Columns (es.foldl (fun cols (col, ms) => insertInto key cols col ms) cols)
      fun col key' => if key' = key then (es.lookup col).or (val col key') else val col key' := by
  induction es generalizing cols val with
  | nil => simpa using h
  | cons e es ih =>
    obtain ⟨col, ms⟩ := e
    rw [map_cons, nodup_cons] at hnodup
    have hfirst := h.insert (hes (col, ms) (mem_cons_self ..)) ms
    have hrest := ih hfirst hnodup.2 (by
      intro e he
      have hne : e.1 ≠ col := fun hc => hnodup.1 (mem_map.mpr ⟨e, he, hc⟩)
      rw [Values.update_apply, if_neg fun h => hne h.1]
      exact hes e (mem_cons_of_mem _ he))
    rw [foldl_cons]
    convert hrest using 3 with col' key'
    rw [Values.update_apply, lookup_cons]
    by_cases hc : col' = col
    · subst hc
      have hout : es.lookup col' = none := by
        rw [lookup_eq_none_iff]
        intro e he
        apply bne_iff_ne.mpr
        rintro rfl
        exact hnodup.1 (mem_map.mpr ⟨e, he, rfl⟩)
      by_cases hkey : key' = key
      · simp [hout]
      · simp [hkey]
    · have hb : (col' == col) = false := beq_false_of_ne hc
      simp [hc, hb]

end

def valueOf (dtOf : Pk → Option DtColumns) (col : String) (key : Pk) : Option ℚ := (dtOf key).bind (·.get col)

/-- Columns without any entry count as none. -/
def normalized (dt : Option DtColumns) : Option DtColumns := dt.filter fun dt => dt.keys ≠ []

theorem normalized_bind (dt : Option DtColumns) (col : String) :
    (normalized dt).bind (·.get col) = dt.bind (·.get col) := by
  cases dt with
  | none => rfl
  | some dt =>
    by_cases hk : dt.keys = []
    · have hnone : dt.get col = none := (JsMap.get_eq_none_iff _ _).mpr (hk ▸ not_mem_nil)
      rw [normalized, filter_some_neg (by simp [hk]), bind_none, bind_some, hnone]
    · rw [normalized, filter_some_pos (by simp [hk])]

/-- The index holds the columns of the records, and nothing else. -/
structure InSync (d : DtIndex Pk) (dtOf : Pk → Option DtColumns) : Prop where
  get_byKey : ∀ key, d.byKey.get key = normalized (dtOf key)
  columns : Columns d.cols (valueOf dtOf)

theorem InSync.empty : ({} : DtIndex Pk).InSync fun _ => none := ⟨fun _ => rfl, Columns.empty⟩

theorem old_get {d : DtIndex Pk} (h : d.InSync dtOf) (key : Pk)
    (col : String) : ((d.byKey.get key).getD .empty).get col = valueOf dtOf col key := by
  rw [h.get_byKey, valueOf, ← normalized_bind]
  cases normalized (dtOf key) <;> rfl

theorem valueOf_update (dtOf : Pk → Option DtColumns) (key key' : Pk) (dt : Option DtColumns)
    (col : String) : valueOf (Function.update dtOf key dt) col key' =
      if key' = key then dt.bind (·.get col) else valueOf dtOf col key' := by
  rw [valueOf, Function.update_apply]
  split <;> rfl

theorem entries_nodup (dt : DtColumns) (p : String × ℚ → Bool) : ((dt.entries.filter p).map Prod.fst).Nodup :=
  dt.keys_nodup.sublist (filter_sublist.map _)

section

variable (old next : DtColumns)

theorem dropped_nodup : ((dropped old next).map Prod.fst).Nodup := entries_nodup old _

theorem added_nodup : ((added old next).map Prod.fst).Nodup := entries_nodup next _

theorem mem_dropped (col : String) (ms : ℚ) :
    (col, ms) ∈ dropped old next ↔ old.get col = some ms ∧ next.get col ≠ some ms := by
  rw [dropped, mem_filter, JsMap.mem_entries_iff, decide_eq_true_iff]

theorem mem_added (col : String) (ms : ℚ) :
    (col, ms) ∈ added old next ↔ next.get col = some ms ∧ old.get col ≠ some ms := by
  rw [added, mem_filter, JsMap.mem_entries_iff, decide_eq_true_iff]

theorem mem_keys_dropped (col : String) : col ∈ (dropped old next).map Prod.fst ↔
      ∃ ms, old.get col = some ms ∧ next.get col ≠ some ms := by
  rw [List.mem_map]
  constructor
  · rintro ⟨⟨_, ms⟩, he, rfl⟩
    exact ⟨ms, (mem_dropped ..).mp he⟩
  · rintro ⟨ms, he⟩
    exact ⟨(col, ms), (mem_dropped ..).mpr he, rfl⟩

theorem kept_or_added (col : String) : ((added old next).lookup col).or
      (if col ∈ (dropped old next).map Prod.fst then none else old.get col) = next.get col := by
  have hadded (ms : ℚ) : (added old next).lookup col = some ms ↔
      next.get col = some ms ∧ old.get col ≠ some ms := by
    rw [JsMap.lookup_eq_some_iff_mem (added_nodup old next), mem_added]
  cases hnext : next.get col with
  | none =>
    have hnone : (added old next).lookup col = none := by
      apply eq_none_iff_forall_not_mem.mpr
      intro ms hms
      rw [((hadded ms).mp hms).1] at hnext
      cases hnext
    rw [hnone, none_or]
    cases hold : old.get col with
    | none => rw [ite_self]
    | some ms =>
      apply if_pos
      exact (mem_keys_dropped ..).mpr ⟨ms, hold, by rw [hnext]; exact nofun⟩
  | some ms =>
    by_cases hold : old.get col = some ms
    · have hnone : (added old next).lookup col = none := by
        apply eq_none_iff_forall_not_mem.mpr
        intro ms' hms
        obtain ⟨hn, ho⟩ := (hadded ms').mp hms
        rw [hnext] at hn
        cases hn
        exact ho hold
      have hkept : col ∉ (dropped old next).map Prod.fst := by
        rw [mem_keys_dropped]
        rintro ⟨ms', ho, hn⟩
        rw [hold] at ho
        cases ho
        exact hn hnext
      rw [hnone, none_or, if_neg hkept, hold]
    · rw [(hadded ms).mpr ⟨hnext, hold⟩, some_or]

end

section

variable {d : DtIndex Pk} {dtOf : Pk → Option DtColumns} (h : d.InSync dtOf) (key : Pk)
include h

theorem InSync.set (dt : Option DtColumns) : (d.set key dt).InSync (Function.update dtOf key dt) := by
  have hget : ∀ col, dt.bind (·.get col) = (dt.getD .empty).get col := by
    intro col
    cases dt <;> rfl
  have hnorm : normalized dt =
      if (dt.getD .empty).keys = [] then none else some (dt.getD .empty) := by
    cases dt with
    | none => rfl
    | some dt => rw [normalized, filter_some, getD_some]; simp
  rw [DtIndex.set]
  have hold := old_get h key
  generalize (d.byKey.get key).getD .empty = old at hold
  generalize dt.getD .empty = next at hget hnorm
  constructor
  · intro key'
    rw [Function.update_apply]
    by_cases hkey : key' = key
    · rw [if_pos hkey, hnorm, hkey]
      split
      · exact JsMap.get_delete_self _ _
      · exact JsMap.get_set_self _ _ _
    · rw [if_neg hkey, ← h.get_byKey]
      split
      · exact JsMap.get_delete_of_ne _ hkey
      · exact JsMap.get_set_of_ne _ _ hkey
  · have hvalue : ∀ e ∈ dropped old next, valueOf dtOf e.1 key = some e.2 :=
      fun e he => (hold e.1).symm.trans ((mem_dropped ..).mp he).1
    have hremoved := h.columns.removeAll (dropped_nodup old next) hvalue
    have hfree : ∀ e ∈ added old next, (if key = key then if e.1 ∈ (dropped old next).map Prod.fst then none
          else valueOf dtOf e.1 key else valueOf dtOf e.1 key) = none := by
      intro e he
      obtain ⟨hnext, hne⟩ := (mem_added ..).mp he
      rw [if_pos rfl, ← hold]
      cases ho : old.get e.1 with
      | none => exact ite_self _
      | some ms =>
        apply if_pos
        refine (mem_keys_dropped ..).mpr ⟨ms, ho, ?_⟩
        rintro hms
        rw [hnext] at hms
        exact hne (hms ▸ ho)
    have hall := hremoved.insertAll (added_nodup old next) hfree
    convert hall using 3 with col key'
    rw [valueOf_update, hget]
    by_cases hkey : key' = key
    · rw [if_pos hkey, if_pos hkey, if_pos hkey, hkey, ← hold, kept_or_added]
    · rw [if_neg hkey, if_neg hkey, if_neg hkey]

theorem InSync.del : (d.del key).InSync (Function.update dtOf key none) := by
  have hold := old_get h key
  rw [DtIndex.del]
  cases hget : d.byKey.get key with
  | none =>
    rw [hget] at hold
    have hsame (key' : Pk) (he : key' = key) : normalized (dtOf key') = none := by
      rw [he, ← h.get_byKey, hget]
    constructor
    · intro key'
      rw [Function.update_apply, h.get_byKey]
      by_cases hkey : key' = key
      · rw [if_pos hkey, hsame key' hkey]
        rfl
      · rw [if_neg hkey]
    · have hval : valueOf (Function.update dtOf key none) = valueOf dtOf := by
        funext col key'
        rw [valueOf_update]
        by_cases hkey : key' = key
        · rw [if_pos hkey, hkey, ← hold]
          rfl
        · rw [if_neg hkey]
      rw [hval]
      exact h.columns
  | some old =>
    rw [hget] at hold
    constructor
    · intro key'
      rw [JsMap.get_delete, Function.update_apply, h.get_byKey]
      by_cases hkey : key' = key
      · rw [if_pos hkey, if_pos hkey]
        rfl
      · rw [if_neg hkey, if_neg hkey]
    · have hvalue : ∀ e ∈ old.entries, valueOf dtOf e.1 key = some e.2 :=
        fun e he => (hold e.1).symm.trans ((JsMap.mem_entries_iff ..).mp he)
      have hremoved := h.columns.removeAll old.keys_nodup hvalue
      convert hremoved using 3 with col key'
      rw [valueOf_update]
      by_cases hkey : key' = key
      · rw [if_pos hkey, if_pos hkey, hkey, ← hold]
        symm
        by_cases hcol : col ∈ old.entries.map Prod.fst
        · exact if_pos hcol
        · rw [if_neg hcol]
          exact (JsMap.get_eq_none_iff _ _).mpr hcol
      · rw [if_neg hkey, if_neg hkey]

end

theorem join_update (dtOf : Pk → Option (Option DtColumns)) (key : Pk) (dt : Option (Option DtColumns)) :
    (fun k => (Function.update dtOf key dt k).join) = Function.update (fun k => (dtOf k).join) key dt.join := by
  funext k
  rw [Function.update_apply, Function.update_apply]
  split <;> rfl

theorem rebuild_inSync {entries : List (Pk × Option DtColumns)} (hnodup : (entries.map Prod.fst).Nodup) :
    (rebuild entries).InSync fun key => (entries.lookup key).join := by
  have hadd : ∀ (d : DtIndex Pk) (dtOf : Pk → Option (Option DtColumns)) (key : Pk)
      (dt : Option DtColumns), d.InSync (fun k => (dtOf k).join) → dtOf key = none →
      InSync (if dt.isSome then d.set key dt else d)
        fun k => (Function.update dtOf key (some dt) k).join := by
    intro d dtOf key dt h hnew
    rw [join_update]
    cases dt with
    | some dt => exact h.set key (some dt)
    | none =>
      have hsame : Function.update (fun k => (dtOf k).join) key (join (some none)) =
          fun k => (dtOf k).join := by
        rw [join_some, show none = (dtOf key).join by rw [hnew]; rfl, Function.update_eq_self]
      rw [hsame]
      exact h
  exact tracks_rebuild hadd InSync.empty hnodup

end DtIndex

end Echadron.MiniDb
