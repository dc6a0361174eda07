import Echadron.Lib.Runs
import Mathlib.Data.List.ReduceOption
import Mathlib.Data.List.Nodup

namespace Echadron.Lib
open List Option

/-- An insertion-ordered map. Deleting an entry empties its slot and leaves the others in place,
so an iterator, which is an index into `slots`, stays valid while the map changes. -/
structure JsMap (K V : Type) where
  slots : List (Option (K × V))
  nodup : (slots.reduceOption.map Prod.fst).Nodup

abbrev JsSet (K : Type) := JsMap K Unit

namespace JsMap

variable {K V : Type}

def entries (m : JsMap K V) : List (K × V) := m.slots.reduceOption

def keys (m : JsMap K V) : List K := m.entries.map Prod.fst

def size (m : JsMap K V) : Nat := m.entries.length

def empty : JsMap K V := ⟨[], nodup_nil⟩

instance : Inhabited (JsMap K V) := ⟨empty⟩

theorem keys_nodup (m : JsMap K V) : m.keys.Nodup := m.nodup

@[simp] theorem entries_empty : (empty : JsMap K V).entries = [] := rfl

@[simp] theorem keys_empty : (empty : JsMap K V).keys = [] := rfl

variable [DecidableEq K]

def get (m : JsMap K V) (k : K) : Option V := m.entries.lookup k

def has (m : JsMap K V) (k : K) : Bool := decide (k ∈ m.keys)

/-- Overwrite the value of one key where it stands. -/
def overwrite (k : K) (v : V) (e : K × V) : K × V := if e.1 = k then (k, v) else e

theorem overwrite_fst (k : K) (v : V) (e : K × V) : (overwrite k v e).1 = e.1 := by
  by_cases h : e.1 = k
  · rw [overwrite, if_pos h, h]
  · rw [overwrite, if_neg h]

theorem overwrite_map_keys (k : K) (v : V) (es : List (K × V)) :
    (es.map (overwrite k v)).map Prod.fst = es.map Prod.fst := by
  rw [List.map_map]
  exact map_congr_left fun e _ => overwrite_fst k v e

/-- A key that is present keeps its place; a new one goes to the end. -/
def set (m : JsMap K V) (k : K) (v : V) : JsMap K V :=
  if h : k ∈ m.keys then
    ⟨m.slots.map (Option.map (overwrite k v)), by
      rw [reduceOption_map, overwrite_map_keys]; exact m.nodup⟩
  else
    ⟨m.slots ++ [some (k, v)], by
      rw [reduceOption_append, map_append, nodup_append]
      refine ⟨m.nodup, nodup_singleton _, ?_⟩
      rintro a ha b hb rfl
      obtain rfl : a = k := by simpa [List.reduceOption] using hb
      exact h ha⟩

omit [DecidableEq K] in
theorem reduceOption_map_snd (f : V → V) (ss : List (Option (K × V))) :
    (ss.map (Option.map fun e => (e.1, f e.2))).reduceOption.map Prod.fst = ss.reduceOption.map Prod.fst := by
  rw [reduceOption_map, List.map_map]
  rfl

/-- Rewrite every value in place. -/
def mapValues (m : JsMap K V) (f : V → V) : JsMap K V :=
  ⟨m.slots.map (Option.map fun e => (e.1, f e.2)), by rw [reduceOption_map_snd]; exact m.nodup⟩

omit [DecidableEq K] in
theorem reduceOption_map_filter (p : K × V → Bool) (ss : List (Option (K × V))) :
    (ss.map (Option.filter p)).reduceOption = ss.reduceOption.filter p := by
  induction ss with
  | nil => rfl
  | cons s ss ih =>
    cases s with
    | none => simpa [List.reduceOption] using ih
    | some e => by_cases h : p e <;> simpa [List.reduceOption, Option.filter, h] using ih

def delete (m : JsMap K V) (k : K) : JsMap K V :=
  ⟨m.slots.map (Option.filter fun e => decide (e.1 ≠ k)), by
    rw [reduceOption_map_filter]
    exact m.nodup.sublist (filter_sublist.map _)⟩

def ofKeys (ks : List K) : JsSet K := ks.foldl (fun s k => s.set k ()) empty

theorem entries_set_of_mem {m : JsMap K V} (h : k ∈ m.keys) (v : V) :
    (m.set k v).entries = m.entries.map (overwrite k v) := by
  simp only [set, h, ↓reduceDIte, entries, reduceOption_map]

theorem entries_set_of_not_mem {m : JsMap K V} (h : k ∉ m.keys) (v : V) :
    (m.set k v).entries = m.entries ++ [(k, v)] := by
  simp only [set, h, ↓reduceDIte, entries, reduceOption_append]
  rfl

theorem entries_delete (m : JsMap K V) (k : K) : (m.delete k).entries = m.entries.filter fun e => decide (e.1 ≠ k) :=
  reduceOption_map_filter _ _

theorem entries_foldl_delete (ks : List K) (m : JsMap K V) :
    (ks.foldl delete m).entries = m.entries.filter fun e => e.1 ∉ ks := by
  induction ks generalizing m with
  | nil => simp
  | cons k ks ih =>
    rw [foldl_cons, ih, entries_delete]
    simp [Bool.and_comm]

theorem keys_set_of_mem {m : JsMap K V} (h : k ∈ m.keys) (v : V) : (m.set k v).keys = m.keys := by
  rw [keys, entries_set_of_mem h, overwrite_map_keys]
  rfl

theorem keys_set_of_not_mem {m : JsMap K V} (h : k ∉ m.keys) (v : V) : (m.set k v).keys = m.keys ++ [k] := by
  rw [keys, entries_set_of_not_mem h, map_append]
  rfl

theorem keys_set_congr {m m' : JsMap K V} (h : m.keys = m'.keys) (k : K) (v : V) :
    (m.set k v).keys = (m'.set k v).keys := by
  by_cases hk : k ∈ m.keys
  · rw [keys_set_of_mem hk, keys_set_of_mem (h ▸ hk), h]
  · rw [keys_set_of_not_mem hk, keys_set_of_not_mem (h ▸ hk), h]

theorem mem_keys_set (m : JsMap K V) (k k' : K) (v : V) : k' ∈ (m.set k v).keys ↔ k' = k ∨ k' ∈ m.keys := by
  by_cases h : k ∈ m.keys
  · rw [keys_set_of_mem h]
    exact ⟨.inr, fun h' => h'.elim (fun he => he ▸ h) id⟩
  · rw [keys_set_of_not_mem h, mem_snoc, or_comm]

theorem keys_delete (m : JsMap K V) (k : K) : (m.delete k).keys = m.keys.filter fun a => decide (a ≠ k) := by
  rw [keys, entries_delete, keys, List.filter_map]
  rfl

theorem mem_keys_delete (m : JsMap K V) (k k' : K) : k' ∈ (m.delete k).keys ↔ k' ≠ k ∧ k' ∈ m.keys := by
  rw [keys_delete, mem_filter, decide_eq_true_iff, and_comm]

theorem mem_keys_iff (m : JsMap K V) (k : K) : k ∈ m.keys ↔ ∃ v, m.get k = some v := by
  rw [keys, get]
  induction m.entries with
  | nil => simp
  | cons e es ih =>
    obtain ⟨a, v⟩ := e
    by_cases h : k = a
    · subst h; simp
    · have hb : (k == a) = false := beq_false_of_ne h
      simpa [lookup_cons, hb, h] using ih

theorem get_eq_none_iff (m : JsMap K V) (k : K) : m.get k = none ↔ k ∉ m.keys := by
  rw [mem_keys_iff, eq_none_iff_forall_not_mem, not_exists]
  rfl

@[simp] theorem get_empty (k : K) : (empty : JsMap K V).get k = none := rfl

@[simp] theorem has_iff (m : JsMap K V) (k : K) : m.has k = true ↔ k ∈ m.keys := decide_eq_true_iff

theorem lookup_overwrite (es : List (K × V)) (k k' : K) (v : V) : (es.map (overwrite k v)).lookup k' =
      if k' = k then (es.lookup k).map (fun _ => v) else es.lookup k' := by
  induction es with
  | nil => simp
  | cons e es ih =>
    obtain ⟨a, w⟩ := e
    by_cases ha : a = k
    · subst ha
      by_cases hk : k' = a
      · subst hk; simp [overwrite]
      · have hb : (k' == a) = false := beq_false_of_ne hk
        simpa [overwrite, lookup_cons, hb, hk] using ih
    · have hb : (k == a) = false := beq_false_of_ne (Ne.symm ha)
      by_cases hk : k' = a
      · subst hk; simp [overwrite, ha]
      · have hb' : (k' == a) = false := beq_false_of_ne hk
        simpa [overwrite, ha, lookup_cons, hb, hb'] using ih

section

variable (m : JsMap K V)

theorem get_set (k k' : K) (v : V) : (m.set k v).get k' = if k' = k then some v else m.get k' := by
  by_cases h : k ∈ m.keys
  · obtain ⟨w, hw⟩ := (mem_keys_iff m k).mp h
    rw [get] at hw
    rw [get, entries_set_of_mem h, lookup_overwrite, hw]
    rfl
  · have hn := (get_eq_none_iff m k).mpr h
    rw [get, entries_set_of_not_mem h, lookup_append]
    by_cases hk : k' = k
    · subst hk
      rw [get] at hn
      simp [hn]
    · have hb : (k' == k) = false := beq_false_of_ne hk
      rw [if_neg hk, lookup_cons, hb, get]
      simp

@[simp] theorem get_set_self (k : K) (v : V) : (m.set k v).get k = some v := by
  rw [get_set, if_pos rfl]

theorem get_set_of_ne (v : V) (h : k' ≠ k) : (m.set k v).get k' = m.get k' := by
  rw [get_set, if_neg h]

theorem get_delete (k k' : K) : (m.delete k).get k' = if k' = k then none else m.get k' := by
  rw [get, entries_delete, get]
  induction m.entries with
  | nil => simp
  | cons e es ih =>
    obtain ⟨a, w⟩ := e
    by_cases ha : a = k
    · subst ha
      rw [filter_cons_of_neg (by simp), ih]
      by_cases hk : k' = a
      · simp [hk]
      · have hb : (k' == a) = false := beq_false_of_ne hk
        rw [if_neg hk, if_neg hk, lookup_cons, hb]
    · rw [filter_cons_of_pos (by simpa using ha)]
      by_cases hk : k' = a
      · subst hk; simp [ha]
      · have hb : (k' == a) = false := beq_false_of_ne hk
        rw [lookup_cons, ih, lookup_cons, hb]

@[simp] theorem get_delete_self (k : K) : (m.delete k).get k = none := by
  rw [get_delete, if_pos rfl]

theorem get_delete_of_ne (h : k' ≠ k) : (m.delete k).get k' = m.get k' := by
  rw [get_delete, if_neg h]

end

omit [DecidableEq K] in
theorem entries_mapValues (m : JsMap K V) (f : V → V) :
    (m.mapValues f).entries = m.entries.map fun e => (e.1, f e.2) := by
  rw [entries, mapValues, reduceOption_map]
  rfl

theorem get_mapValues (m : JsMap K V) (f : V → V) (k : K) : (m.mapValues f).get k = (m.get k).map f := by
  rw [get, entries_mapValues, get]
  induction m.entries with
  | nil => rfl
  | cons e es ih =>
    obtain ⟨a, w⟩ := e
    by_cases hk : k = a
    · subst hk; simp
    · have hb : (k == a) = false := beq_false_of_ne hk
      simpa [lookup_cons, hb] using ih

theorem lookup_eq_some_iff_mem {es : List (K × V)} (hn : (es.map Prod.fst).Nodup) (k : K) (v : V) :
    es.lookup k = some v ↔ (k, v) ∈ es := by
  induction es with
  | nil => simp
  | cons e es ih =>
    obtain ⟨a, w⟩ := e
    rw [map_cons, nodup_cons] at hn
    by_cases hk : k = a
    · subst hk
      have hout : (k, v) ∉ es := fun hm => hn.1 (mem_map.mpr ⟨_, hm, rfl⟩)
      simp [hout, eq_comm]
    · have hb : (k == a) = false := beq_false_of_ne hk
      simpa [lookup_cons, hb, hk] using ih hn.2

theorem mem_entries_iff (m : JsMap K V) (k : K) (v : V) : (k, v) ∈ m.entries ↔ m.get k = some v :=
  (lookup_eq_some_iff_mem m.keys_nodup k v).symm

theorem mem_keys_ofKeys (ks : List K) (k : K) : k ∈ (ofKeys ks).keys ↔ k ∈ ks := by
  have h (s : JsSet K) : k ∈ (ks.foldl (fun s k => s.set k ()) s).keys ↔ k ∈ ks ∨ k ∈ s.keys := by
    induction ks generalizing s with
    | nil => simp
    | cons a ks ih =>
      rw [foldl_cons, ih, mem_keys_set, mem_cons]
      exact ⟨fun h => h.elim (.inl ∘ .inr) fun h => h.elim (.inl ∘ .inl) .inr,
        fun h => h.elim (fun h => h.elim (.inr ∘ .inl) .inl) (.inr ∘ .inr)⟩
  rw [ofKeys, h]
  simp

theorem get_congr {m m' : JsMap K V} (h : m.entries = m'.entries) (k : K) : m.get k = m'.get k := by
  rw [get, get, h]

theorem entries_set_congr {m m' : JsMap K V} (h : m.entries = m'.entries) (k : K) (v : V) :
    (m.set k v).entries = (m'.set k v).entries := by
  have hkeys : m.keys = m'.keys := congrArg (map Prod.fst) h
  by_cases hk : k ∈ m.keys
  · rw [entries_set_of_mem hk, entries_set_of_mem (hkeys ▸ hk), h]
  · rw [entries_set_of_not_mem hk, entries_set_of_not_mem (hkeys ▸ hk), h]

theorem entries_set_get {m : JsMap K V} (h : m.get k = some v) : (m.set k v).entries = m.entries := by
  rw [entries_set_of_mem ((mem_keys_iff m k).mpr ⟨v, h⟩)]
  conv_rhs => rw [← map_id m.entries]
  apply map_congr_left
  intro e he
  rw [overwrite]
  split
  · rename_i hk
    have hget := (mem_entries_iff m e.1 e.2).mp he
    rw [hk, h] at hget
    rw [id, ← hk, some.inj hget]
  · rfl

omit [DecidableEq K] in
theorem size_eq_zero_iff (m : JsMap K V) : m.size = 0 ↔ m.keys = [] := by
  rw [size, keys, length_eq_zero_iff, map_eq_nil_iff]

end JsMap

end Echadron.Lib
