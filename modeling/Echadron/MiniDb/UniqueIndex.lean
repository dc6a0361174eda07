import Echadron.Lib.Owners
import Echadron.MiniDb.Derived
import Mathlib.Data.List.Induction

namespace Echadron.MiniDb
open Lib

/-- What a key is found under: a posting of an equality index, or a number of a range index. -/
inductive IndexedValue where
  | posting (sk : String)
  | number (value : ℚ)
deriving DecidableEq

/-- `UniqueViolationError`. -/
structure UniqueViolation where
  index : String
  value : JsValue

variable {Pk : Type} [LinearOrder Pk]

namespace AnyIndex

/-- The keys found under a value. -/
def holders (idx : AnyIndex Pk) (v : IndexedValue) : List Pk :=
  match idx.postings, v with
  | .equality e, .posting sk => e.find sk
  | .range r, .number q =>
    (r.list.range { gte := some (JsNumber.finite q), lte := some (JsNumber.finite q) }).map Prod.snd
  | _, _ => []

/-- What a document is found under. -/
def valuesOf (rt : Runtime) (idx : AnyIndex Pk) (doc : JsValue) : List IndexedValue :=
  match idx.postings with
  | .equality _ => ((eqKeys rt idx.field idx.sparse doc).getD []).map .posting
  | .range _ => ((rangeVals rt idx.field idx.sparse doc).getD []).map .number

/-- Whether the check for one value fails. Of a range only the first node is looked at. -/
def isTaken (rt : Runtime) (idx : AnyIndex Pk) (pk : Pk) (v : JsValue) : Bool :=
  match idx.postings with
  | .range r =>
    match finiteNumber v with
    | none => false
    | some q =>
      (r.list.range { gte := some (JsNumber.finite q), lte := some (JsNumber.finite q) }).head?.any
        fun hit => decide (hit.2 ≠ pk)
  | .equality e =>
    match e.map.get (scalarKey rt v) with
    | none => false
    | some set => decide (1 < set.size) || (decide (set.size = 1) && !set.has pk)

/-- All that the index holds, as the loops over it meet it. -/
def held (idx : AnyIndex Pk) : List (IndexedValue × Pk) :=
  match idx.postings with
  | .range r => r.byPk.entries.flatMap fun e => e.2.map fun q => (.number q, e.1)
  | .equality e => e.map.entries.flatMap fun s => s.2.keys.map fun pk => (.posting s.1, pk)

/-- The values that a batch takes for a document, with what an error would name. -/
def claimed (rt : Runtime) (idx : AnyIndex Pk) (doc : JsValue) : List (JsValue × IndexedValue) :=
  match idx.postings with
  | .range _ =>
    (flatten (getField rt doc idx.field)).filterMap fun v => (finiteNumber v).map fun q => (v, .number q)
  | .equality _ =>
    match indexedValue rt idx.field idx.sparse doc with
    | none => []
    | some value => (flatten value).map fun v => (v, .posting (scalarKey rt v))

/-- What decides whether a unique index may be declared over the records that there are. -/
def assertUniqueValid (idx : AnyIndex Pk) : Bool :=
  match idx.postings with
  | .range _ => (idx.held.foldlM (fun (owner : JsMap IndexedValue Pk) h => owner.claim h.2 h.1 ()) .empty).isOk
  | .equality e => e.map.entries.all fun s => decide (s.2.size ≤ 1)

end AnyIndex

namespace IndexManager

def checkUnique (rt : Runtime) (m : IndexManager Pk) (pk : Pk) (doc : JsValue) : Except UniqueViolation Unit :=
  m.indexes.entries.forM fun (name, idx) =>
    if idx.unique then
      match indexedValue rt idx.field idx.sparse doc with
      | none => .ok ()
      | some value =>
        (flatten value).forM fun v =>
          if idx.isTaken rt pk v then .error { index := name, value := v } else .ok ()
    else .ok ()

def lastOps (ops : List (Pk × Option JsValue)) : JsMap Pk (Option JsValue) :=
  ops.foldl (fun lastOp o => lastOp.set o.1 o.2) .empty

/-- The values are taken for one key after the other, over what the other keys hold already. -/
def claimOps (rt : Runtime) (name : String) (idx : AnyIndex Pk) (lastOp : JsMap Pk (Option JsValue)) :
    Except UniqueViolation (JsMap IndexedValue Pk) :=
  lastOp.entries.foldlM
    (fun owner (pk, doc) =>
      match doc with
      | none => .ok owner
      | some doc =>
        (idx.claimed rt doc).foldlM
          (fun owner c => owner.claim pk c.2 { index := name, value := c.1 }) owner)
    (JsMap.ofOwners (idx.held.filter fun h => !lastOp.has h.2))

def checkUniqueBatch (rt : Runtime) (m : IndexManager Pk) (ops : List (Pk × Option JsValue)) :
    Except UniqueViolation Unit :=
  m.indexes.entries.forM fun (name, idx) =>
    if idx.unique then (claimOps rt name idx (lastOps ops)).map fun _ => () else .ok ()

end IndexManager

/-! What an index holds, and what its documents give it. -/

namespace AnyIndex

variable {rt : Runtime} {idx : AnyIndex Pk}

def point (q : ℚ) : RangeOptions JsNumber := { gte := some (.finite q), lte := some (.finite q) }

theorem point_bounds (k q : ℚ) : ((point q).isBelow k = false ∧ (point q).isAbove k = false) ↔ k = q := by
  have hbelow : (point q).isBelow k = (compare k q).isLT := rfl
  have habove : (point q).isAbove k = (compare k q).isGT := Bool.or_false _
  rw [hbelow, habove, Bool.eq_false_iff, Bool.eq_false_iff, Ne, Ne, Ordering.isLT_iff_eq_lt,
    Ordering.isGT_iff_eq_gt, compare_lt_iff_lt, compare_gt_iff_gt, not_lt, not_lt]
  exact ⟨fun ⟨h, h'⟩ => le_antisymm h' h, fun h => ⟨h.ge, h.le⟩⟩

theorem mem_point (list : SkipList ℚ Pk) (q k : ℚ) (pk : Pk) :
    (k, pk) ∈ list.range (point q) ↔ list.Mem k pk ∧ k = q := by
  rw [SkipList.mem_range, point_bounds]

theorem mem_holders_range (h : idx.postings = .range r) (q : ℚ) (pk : Pk) :
    pk ∈ idx.holders (.number q) ↔ r.list.Mem q pk := by
  have hholders : idx.holders (.number q) = (r.list.range (point q)).map Prod.snd := by
    rw [holders.eq_def, h]
    rfl
  rw [hholders, List.mem_map]
  constructor
  · rintro ⟨⟨k, pk'⟩, hk, rfl⟩
    obtain ⟨hmem, rfl⟩ := (mem_point ..).mp hk
    exact hmem
  · intro hmem
    exact ⟨(q, pk), (mem_point ..).mpr ⟨hmem, rfl⟩, rfl⟩

theorem mem_getD_map (hf : f.Injective) (values : Option (List α)) (a : α) :
    f a ∈ (values.getD []).map f ↔ ∃ as, values = some as ∧ a ∈ as := by
  rw [List.mem_map_of_injective hf]
  cases values with
  | none => exact ⟨nofun, nofun⟩
  | some as => exact ⟨fun h => ⟨as, rfl, h⟩, fun ⟨_, he, h⟩ => Option.some.inj he ▸ h⟩

theorem mem_holders (h : idx.InSync rt docOf) (v : IndexedValue) (pk : Pk) :
    pk ∈ idx.holders v ↔ ∃ doc, docOf pk = some doc ∧ v ∈ idx.valuesOf rt doc := by
  obtain ⟨field, unique, sparse, postings⟩ := idx
  cases postings with
  | equality e =>
    obtain ⟨hc, hbyPk⟩ := h
    cases v with
    | posting sk =>
      have hfind : pk ∈ holders ⟨field, unique, sparse, .equality e⟩ (.posting sk) ↔ pk ∈ e.find sk := Iff.rfl
      rw [hfind, hc.mem_find]
      simp only [hbyPk, valuesOf, mem_getD_map (fun _ _ => IndexedValue.posting.inj), Option.bind_eq_some_iff]
      constructor
      · rintro ⟨keys, ⟨doc, hdoc, hkeys⟩, hmem⟩
        exact ⟨doc, hdoc, keys, hkeys, hmem⟩
      · rintro ⟨doc, hdoc, keys, hkeys, hmem⟩
        exact ⟨keys, ⟨doc, hdoc, hkeys⟩, hmem⟩
    | number q =>
      refine ⟨fun hmem => (List.not_mem_nil hmem).elim, ?_⟩
      rintro ⟨doc, _, hmem⟩
      obtain ⟨_, _, he⟩ := List.mem_map.mp hmem
      cases he
  | range r =>
    obtain ⟨hc, hbyPk⟩ := h
    cases v with
    | posting sk =>
      refine ⟨fun hmem => (List.not_mem_nil hmem).elim, ?_⟩
      rintro ⟨doc, _, hmem⟩
      obtain ⟨_, _, he⟩ := List.mem_map.mp hmem
      cases he
    | number q =>
      rw [mem_holders_range rfl, hc.mem_list]
      simp only [hbyPk, valuesOf, mem_getD_map (fun _ _ => IndexedValue.number.inj), Option.bind_eq_some_iff]
      constructor
      · rintro ⟨vals, ⟨doc, hdoc, hvals⟩, hmem⟩
        exact ⟨doc, hdoc, vals, hvals, hmem⟩
      · rintro ⟨doc, hdoc, vals, hvals, hmem⟩
        exact ⟨vals, ⟨doc, hdoc, hvals⟩, hmem⟩

theorem mem_held (h : idx.InSync rt docOf) (v : IndexedValue) (pk : Pk) :
    (v, pk) ∈ idx.held ↔ pk ∈ idx.holders v := by
  obtain ⟨field, unique, sparse, postings⟩ := idx
  cases postings with
  | equality e =>
    have hheld : (v, pk) ∈ held ⟨field, unique, sparse, .equality e⟩ ↔
        ∃ s ∈ e.map.entries, ∃ k ∈ s.2.keys, (.posting s.1, k) = (v, pk) := by
      rw [held, List.mem_flatMap]
      simp only [List.mem_map]
    rw [hheld]
    cases v with
    | posting sk =>
      have hfind : pk ∈ holders ⟨field, unique, sparse, .equality e⟩ (.posting sk) ↔
          pk ∈ ((e.map.get sk).getD .empty).keys := Iff.rfl
      rw [hfind]
      constructor
      · rintro ⟨⟨sk', set⟩, hs, k, hk, he⟩
        obtain ⟨hsk, rfl⟩ := Prod.mk.inj he
        obtain rfl := IndexedValue.posting.inj hsk
        rw [(JsMap.mem_entries_iff ..).mp hs]
        exact hk
      · intro hmem
        cases hset : e.map.get sk with
        | none =>
          rw [hset] at hmem
          cases hmem
        | some set =>
          rw [hset] at hmem
          exact ⟨(sk, set), (JsMap.mem_entries_iff ..).mpr hset, pk, hmem, rfl⟩
    | number q =>
      refine ⟨?_, nofun⟩
      rintro ⟨_, _, _, _, he⟩
      cases (Prod.mk.inj he).1
  | range r =>
    have hheld : (v, pk) ∈ held ⟨field, unique, sparse, .range r⟩ ↔
        ∃ e ∈ r.byPk.entries, ∃ q ∈ e.2, (.number q, e.1) = (v, pk) := by
      rw [held, List.mem_flatMap]
      simp only [List.mem_map]
    rw [hheld]
    cases v with
    | posting sk =>
      refine ⟨?_, nofun⟩
      rintro ⟨_, _, _, _, he⟩
      cases (Prod.mk.inj he).1
    | number q =>
      rw [mem_holders_range rfl, h.1.mem_list]
      constructor
      · rintro ⟨⟨pk', vals⟩, hvals, q', hq, he⟩
        obtain ⟨hq', rfl⟩ := Prod.mk.inj he
        obtain rfl := IndexedValue.number.inj hq'
        exact ⟨vals, (JsMap.mem_entries_iff ..).mp hvals, hq⟩
      · rintro ⟨vals, hvals, hq⟩
        exact ⟨(pk, vals), (JsMap.mem_entries_iff ..).mpr hvals, q, hq, rfl⟩

/-- What an element of an indexed field is found under. -/
def keyOf (rt : Runtime) (idx : AnyIndex Pk) (x : JsValue) : Option IndexedValue :=
  match idx.postings with
  | .equality _ => some (.posting (scalarKey rt x))
  | .range _ => (finiteNumber x).map .number

theorem exists_of_mem_valuesOf (h : v ∈ idx.valuesOf rt doc) :
    ∃ value, indexedValue rt idx.field idx.sparse doc = some value ∧
      ∃ x ∈ flatten value, idx.keyOf rt x = some v := by
  obtain ⟨field, unique, sparse, postings⟩ := idx
  cases postings with
  | equality e =>
    obtain ⟨sk, hsk, rfl⟩ := List.mem_map.mp h
    cases hvalue : indexedValue rt field sparse doc with
    | none =>
      rw [eqKeys, hvalue] at hsk
      cases hsk
    | some value =>
      rw [eqKeys, hvalue] at hsk
      obtain ⟨x, hx, rfl⟩ := List.mem_map.mp hsk
      exact ⟨value, rfl, x, hx, rfl⟩
  | range r =>
    obtain ⟨q, hq, rfl⟩ := List.mem_map.mp h
    cases hvalue : indexedValue rt field sparse doc with
    | none =>
      rw [rangeVals, hvalue] at hq
      cases hq
    | some value =>
      rw [rangeVals, hvalue, Option.bind_some] at hq
      dsimp only at hq
      split at hq
      · cases hq
      · rw [Option.getD_some, JsMap.mem_keys_ofKeys] at hq
        obtain ⟨x, hx, hfinite⟩ := List.mem_filterMap.mp hq
        exact ⟨value, rfl, x, hx, congrArg (Option.map IndexedValue.number) hfinite⟩

theorem mem_claimed
    (hvalue : indexedValue rt idx.field idx.sparse doc = some value) (hx : x ∈ flatten value)
    (hv : idx.keyOf rt x = some v) : (x, v) ∈ idx.claimed rt doc := by
  obtain ⟨field, unique, sparse, postings⟩ := idx
  cases postings with
  | equality e =>
    cases hv
    rw [claimed, hvalue]
    exact List.mem_map_of_mem hx
  | range r =>
    have hfield : getField rt doc field = value := Option.some.inj (Option.ite_none_left_eq_some.mp hvalue).2
    obtain ⟨q, hq, rfl⟩ := Option.map_eq_some_iff.mp hv
    rw [claimed, hfield]
    exact List.mem_filterMap.mpr ⟨x, hx, by rw [hq]; rfl⟩

/-- No value is held by two keys. -/
def IsExclusive (idx : AnyIndex Pk) : Prop := Exclusive fun v pk => pk ∈ idx.holders v

theorem eq_of_not_isTaken (hexcl : idx.IsExclusive)
    (h : idx.isTaken rt pk x = false) (hv : idx.keyOf rt x = some v) (hk : k ∈ idx.holders v) :
    k = pk := by
  cases hpostings : idx.postings with
  | equality e =>
    rw [keyOf, hpostings] at hv
    cases hv
    rw [holders.eq_def, hpostings] at hk
    change k ∈ ((e.map.get (scalarKey rt x)).getD .empty).keys at hk
    rw [isTaken, hpostings] at h
    dsimp only at h
    cases hset : e.map.get (scalarKey rt x) with
    | none =>
      rw [hset] at hk
      cases hk
    | some set =>
      rw [hset] at h hk
      rw [Option.getD_some] at hk
      obtain ⟨hone, hhas⟩ := Bool.or_eq_false_iff.mp h
      have hlen : set.keys.length = set.size := List.length_map _
      have hpos := List.length_pos_of_mem hk
      have hle := of_decide_eq_false hone
      obtain ⟨k', hk'⟩ := List.length_eq_one_iff.mp (show set.keys.length = 1 by omega)
      rw [decide_eq_true (show set.size = 1 by omega), Bool.true_and, Bool.not_eq_false',
        JsMap.has_iff, hk', List.mem_singleton] at hhas
      rw [hk', List.mem_singleton] at hk
      rw [hk, hhas]
  | range r =>
    rw [keyOf, hpostings] at hv
    obtain ⟨q, hq, rfl⟩ := Option.map_eq_some_iff.mp hv
    rw [isTaken, hpostings] at h
    rw [hq] at h
    have hmem : (q, k) ∈ r.list.range (point q) :=
      (mem_point ..).mpr ⟨(mem_holders_range hpostings q k).mp hk, rfl⟩
    cases hrange : r.list.range (point q) with
    | nil =>
      rw [hrange] at hmem
      cases hmem
    | cons hit hits =>
      have hhit : hit.2 = pk := by
        change (r.list.range (point q)).head?.any _ = false at h
        rw [hrange] at h
        exact not_not.mp (of_decide_eq_false h)
      have hfirst : (hit.1, hit.2) ∈ r.list.range (point q) := hrange ▸ List.mem_cons_self ..
      obtain ⟨hheld, hfst⟩ := (mem_point ..).mp hfirst
      rw [hfst] at hheld
      exact (hexcl (.number q) k hit.2 hk ((mem_holders_range hpostings q _).mpr hheld)).trans hhit

theorem assertUniqueValid_exclusive (h : idx.InSync rt docOf) (hvalid : idx.assertUniqueValid = true) :
    idx.IsExclusive := by
  intro v a b ha hb
  rw [assertUniqueValid] at hvalid
  cases hpostings : idx.postings with
  | equality e =>
    rw [hpostings] at hvalid
    rw [holders.eq_def, hpostings] at ha hb
    cases v with
    | posting sk =>
      change a ∈ ((e.map.get sk).getD .empty).keys at ha
      change b ∈ ((e.map.get sk).getD .empty).keys at hb
      cases hset : e.map.get sk with
      | none =>
        rw [hset] at ha
        cases ha
      | some set =>
        rw [hset, Option.getD_some] at ha hb
        have hsize : set.size ≤ 1 := of_decide_eq_true
          (List.all_eq_true.mp hvalid (sk, set) ((JsMap.mem_entries_iff ..).mpr hset))
        have hlen : set.keys.length = set.size := List.length_map _
        have hpos := List.length_pos_of_mem ha
        obtain ⟨k, hk⟩ := List.length_eq_one_iff.mp (show set.keys.length = 1 by omega)
        rw [hk, List.mem_singleton] at ha hb
        rw [ha, hb]
    | number q => cases ha
  | range r =>
    rw [hpostings] at hvalid
    cases howner : idx.held.foldlM
        (fun (owner : JsMap IndexedValue Pk) h => owner.claim h.2 h.1 ()) .empty with
    | error e =>
      rw [howner] at hvalid
      cases hvalid
    | ok owner =>
      have hclaims := (JsMap.keeps_foldlM (P := fun h owner => owner.get h.1 = some h.2)
        (fun h owner owner' hkeeps => hkeeps h.1 h.2)
        (fun owner h owner' hclaim => JsMap.claim_ok hclaim) howner).2
      have ha' := hclaims (v, a) ((mem_held h v a).mpr ha)
      have hb' := hclaims (v, b) ((mem_held h v b).mpr hb)
      exact Option.mem_unique ha' hb'

/-! A key's entries change only with what is done for that key. -/

theorem mem_holders_add (rt : Runtime) (idx : AnyIndex Pk) (doc : JsValue) (hk : k ≠ pk)
    (v : IndexedValue) : k ∈ (idx.add rt pk doc).holders v ↔ k ∈ idx.holders v := by
  obtain ⟨field, unique, sparse, postings⟩ := idx
  cases postings with
  | equality e =>
    rw [add]
    cases eqKeys rt field sparse doc with
    | none => rfl
    | some keys =>
      cases v with
      | posting sk =>
        have hmem := EqPostings.mem_holders_add pk k sk keys e.map
        simp only [hk, false_and, false_or] at hmem
        exact hmem
      | number q => rfl
  | range r =>
    rw [add]
    cases rangeVals rt field sparse doc with
    | none => rfl
    | some vals =>
      cases v with
      | posting sk => rfl
      | number q =>
        rw [mem_holders_range rfl, mem_holders_range rfl]
        apply fold_invariant (I := fun list : SkipList ℚ Pk => list.Mem q k ↔ r.list.Mem q k)
        · intro list q' hlist
          rw [SkipList.mem_insert, hlist]
          simp only [hk, and_false, false_or]
        · rfl

theorem mem_holders_remove (idx : AnyIndex Pk) (hk : k ≠ pk) (v : IndexedValue) :
    k ∈ (idx.remove pk).holders v ↔ k ∈ idx.holders v := by
  obtain ⟨field, unique, sparse, postings⟩ := idx
  cases postings with
  | equality e =>
    rw [remove]
    dsimp only
    rw [EqPostings.remove]
    cases e.byPk.get pk with
    | none => rfl
    | some keys =>
      cases v with
      | posting sk =>
        have hmem := EqPostings.mem_holders_remove pk k sk keys e.map
        simp only [hk, false_and, not_false_eq_true, true_and] at hmem
        exact hmem
      | number q => rfl
  | range r =>
    rw [remove]
    dsimp only
    rw [RangePostings.remove]
    cases r.byPk.get pk with
    | none => rfl
    | some old =>
      cases v with
      | posting sk => rfl
      | number q =>
        rw [mem_holders_range rfl, mem_holders_range rfl]
        apply fold_invariant (I := fun list : SkipList ℚ Pk => list.Mem q k ↔ r.list.Mem q k)
        · intro list q' hlist
          rw [← hlist]
          apply List.mem_erase_of_ne
          intro he
          exact hk (Prod.mk.inj (toLex_inj.mp he)).2
        · rfl

end AnyIndex

namespace IndexManager

variable {rt : Runtime} {m m' : IndexManager Pk}

def Found (m : IndexManager Pk) (name : String) (v : IndexedValue) (pk : Pk) : Prop :=
  ∃ idx, m.indexes.get name = some idx ∧ idx.unique = true ∧ pk ∈ idx.holders v

def Gives (rt : Runtime) (m : IndexManager Pk) (name : String) (doc : JsValue) (v : IndexedValue) : Prop :=
  ∃ idx, m.indexes.get name = some idx ∧ idx.unique = true ∧ v ∈ idx.valuesOf rt doc

/-- No value of a unique index is held by two keys. -/
def IsExclusive (m : IndexManager Pk) : Prop := ∀ name, Exclusive (m.Found name)

theorem IsExclusive.index (h : m.IsExclusive) (hidx : m.indexes.get name = some idx)
    (hunique : idx.unique = true) : idx.IsExclusive :=
  fun v a b ha hb => h name v a b ⟨idx, hidx, hunique, ha⟩ ⟨idx, hidx, hunique, hb⟩

theorem found_iff (h : m.InSync rt docOf) : m.Found name v pk ↔
    ∃ doc, docOf pk = some doc ∧ m.Gives rt name doc v := by
  constructor
  · rintro ⟨idx, hidx, hunique, hmem⟩
    obtain ⟨doc, hdoc, hv⟩ := (AnyIndex.mem_holders (h name idx hidx) v pk).mp hmem
    exact ⟨doc, hdoc, idx, hidx, hunique, hv⟩
  · rintro ⟨doc, hdoc, idx, hidx, hunique, hv⟩
    exact ⟨idx, hidx, hunique, (AnyIndex.mem_holders (h name idx hidx) v pk).mpr ⟨doc, hdoc, hv⟩⟩

theorem found_mapValues (hdef : ∀ idx, (f idx).SameDef idx)
    (hmem : ∀ idx v, pk ∈ (f idx).holders v ↔ pk ∈ idx.holders v) :
    Found ⟨m.indexes.mapValues f⟩ name v pk ↔ m.Found name v pk := by
  constructor
  · rintro ⟨idx, hidx, hunique, hpk⟩
    rw [JsMap.get_mapValues] at hidx
    obtain ⟨old, hold, rfl⟩ := Option.map_eq_some_iff.mp hidx
    exact ⟨old, hold, (hdef old).2.1.symm.trans hunique, (hmem old v).mp hpk⟩
  · rintro ⟨idx, hidx, hunique, hpk⟩
    refine ⟨f idx, ?_, (hdef idx).2.1.trans hunique, (hmem idx v).mpr hpk⟩
    rw [JsMap.get_mapValues, hidx]
    rfl

theorem found_add (doc : JsValue) (hk : k ≠ pk) : (m.add rt pk doc).Found name v k ↔ m.Found name v k :=
  found_mapValues (fun idx => idx.sameDef_add rt pk doc) fun idx => idx.mem_holders_add rt doc hk

theorem found_remove (hk : k ≠ pk) : (m.remove pk).Found name v k ↔ m.Found name v k :=
  found_mapValues (fun idx => idx.sameDef_remove pk) fun idx => idx.mem_holders_remove hk

theorem valuesOf_sameDef {idx idx' : AnyIndex Pk} (h : idx.SameDef idx') (doc : JsValue) :
    idx.valuesOf rt doc = idx'.valuesOf rt doc := by
  obtain ⟨field, unique, sparse, postings⟩ := idx
  obtain ⟨field', unique', sparse', postings'⟩ := idx'
  obtain ⟨rfl, _, rfl, htype⟩ := h
  cases postings with
  | equality e =>
    cases postings' with
    | equality e' => rfl
    | range r => cases htype
  | range r =>
    cases postings' with
    | equality e => cases htype
    | range r' => rfl

theorem Gives.sameDefs (h : m.Gives rt name doc v) (hdefs : m'.SameDefs m) : m'.Gives rt name doc v := by
  obtain ⟨idx, hidx, hunique, hv⟩ := h
  have hname := hdefs name
  rw [hidx] at hname
  cases hidx' : m'.indexes.get name with
  | none =>
    rw [hidx'] at hname
    cases hname
  | some idx' =>
    rw [hidx'] at hname
    cases hname with
    | some hdef => exact ⟨idx', hidx', hdef.2.1.trans hunique, (valuesOf_sameDef hdef doc).symm ▸ hv⟩

theorem lastOps_concat (ops : List (Pk × Option JsValue)) (o : Pk × Option JsValue) :
    lastOps (ops ++ [o]) = (lastOps ops).set o.1 o.2 := by
  rw [lastOps, List.foldl_append]
  rfl

theorem mem_keys_lastOps (ops : List (Pk × Option JsValue)) (k : Pk) :
    k ∈ (lastOps ops).keys ↔ k ∈ ops.map Prod.fst := by
  induction ops using List.reverseRecOn with
  | nil => rfl
  | append_singleton ops o ih =>
    rw [lastOps_concat, JsMap.mem_keys_set, ih, List.map_append, List.mem_append, List.map_singleton,
      List.mem_singleton, or_comm]

theorem checkUnique_ok (hexcl : m.IsExclusive) (h : m.checkUnique rt pk doc = .ok ())
    (hgives : m.Gives rt name doc v) (hfound : m.Found name v k) : k = pk := by
  obtain ⟨idx, hidx, hunique, hv⟩ := hgives
  obtain ⟨idx', hidx', _, hk⟩ := hfound
  obtain rfl := Option.mem_unique hidx hidx'
  obtain ⟨value, hvalue, x, hx, hkey⟩ := AnyIndex.exists_of_mem_valuesOf hv
  have hcheck := forM_ok h (name, idx) ((JsMap.mem_entries_iff ..).mpr hidx)
  dsimp only at hcheck
  rw [if_pos hunique, hvalue] at hcheck
  have hfree := forM_ok hcheck x hx
  have htaken : idx.isTaken rt pk x = false := by
    cases htaken : idx.isTaken rt pk x with
    | false => rfl
    | true =>
      rw [htaken] at hfree
      cases hfree
  exact AnyIndex.eq_of_not_isTaken (hexcl.index hidx hunique) htaken hkey hk

theorem checkUniqueBatch_ok (hsync : m.InSync rt docOf) (hexcl : m.IsExclusive)
    (h : m.checkUniqueBatch rt ops = .ok ()) (name : String) : ∃ owner : JsMap IndexedValue Pk,
      (∀ v k, (lastOps ops).has k = false → m.Found name v k → owner.get v = some k) ∧
      ∀ v pk doc, (lastOps ops).get pk = some (some doc) → m.Gives rt name doc v → owner.get v = some pk := by
  by_cases hdeclared : ∃ idx, m.indexes.get name = some idx ∧ idx.unique = true
  · obtain ⟨idx, hidx, hunique⟩ := hdeclared
    have hcheck := forM_ok h (name, idx) ((JsMap.mem_entries_iff ..).mpr hidx)
    dsimp only at hcheck
    rw [if_pos hunique] at hcheck
    cases howner : claimOps rt name idx (lastOps ops) with
    | error e =>
      rw [howner] at hcheck
      cases hcheck
    | ok owner =>
      obtain ⟨hkeeps, hclaimed⟩ := JsMap.keeps_foldlM
        (P := fun (o : Pk × Option JsValue) owner =>
          ∀ doc, o.2 = some doc → ∀ c ∈ idx.claimed rt doc, owner.get c.2 = some o.1)
        (fun o owner owner' hkeeps hc doc hdoc c hmem => hkeeps c.2 o.1 (hc doc hdoc c hmem))
        (by
          rintro owner ⟨pk, doc⟩ owner' hstep
          cases doc with
          | none =>
            cases hstep
            exact ⟨.refl _, nofun⟩
          | some doc =>
            obtain ⟨hkeeps, hall⟩ := JsMap.keeps_foldlM (P := fun c owner => owner.get c.2 = some pk)
              (fun c owner owner' hkeeps => hkeeps c.2 pk) (fun owner c owner' => JsMap.claim_ok) hstep
            refine ⟨hkeeps, ?_⟩
            intro doc' hdoc
            cases hdoc
            exact hall) howner
      refine ⟨owner, ?_, ?_⟩
      · rintro v k hk ⟨idx', hidx', _, hmem⟩
        obtain rfl := Option.mem_unique hidx hidx'
        apply hkeeps
        apply JsMap.get_ofOwners
        · intro v a b ha hb
          have ha' := (AnyIndex.mem_held (hsync name idx hidx) v a).mp (List.mem_of_mem_filter ha)
          have hb' := (AnyIndex.mem_held (hsync name idx hidx) v b).mp (List.mem_of_mem_filter hb)
          exact hexcl.index hidx hunique v a b ha' hb'
        · apply List.mem_filter.mpr
          exact ⟨(AnyIndex.mem_held (hsync name idx hidx) v k).mpr hmem, by dsimp only; rw [hk]; rfl⟩
      · rintro v pk doc hop ⟨idx', hidx', _, hv⟩
        obtain rfl := Option.mem_unique hidx hidx'
        obtain ⟨value, hvalue, x, hx, hkey⟩ := AnyIndex.exists_of_mem_valuesOf hv
        exact hclaimed (pk, some doc) ((JsMap.mem_entries_iff ..).mpr hop) doc rfl (x, v)
          (AnyIndex.mem_claimed hvalue hx hkey)
  · refine ⟨.empty, ?_, ?_⟩
    · rintro v k _ ⟨idx, hidx, hunique, _⟩
      exact absurd ⟨idx, hidx, hunique⟩ hdeclared
    · rintro v pk doc _ ⟨idx, hidx, hunique, _⟩
      exact absurd ⟨idx, hidx, hunique⟩ hdeclared

/-- The same indexes are declared, and what they find changes for these keys only. -/
structure Changes (keys : Pk → Prop) (m m' : IndexManager Pk) : Prop where
  defs : m'.SameDefs m
  found : ∀ name v k, ¬ keys k → (m'.Found name v k ↔ m.Found name v k)

theorem Changes.refl (keys : Pk → Prop) (m : IndexManager Pk) : m.Changes keys m :=
  ⟨.refl m, fun _ _ _ _ => Iff.rfl⟩

theorem Changes.trans (h : Changes keys m m') (h' : Changes keys m' m'') : Changes keys m m'' where
  defs := h'.defs.trans h.defs
  found name v k hk := (h'.found name v k hk).trans (h.found name v k hk)

theorem Changes.mono (h : Changes keys m m') (hkeys : ∀ k, keys k → keys' k) : Changes keys' m m' :=
  ⟨h.defs, fun name v k hk => h.found name v k fun hk' => hk (hkeys k hk')⟩

theorem changes_add (rt : Runtime) (m : IndexManager Pk) (pk : Pk) (doc : JsValue) :
    m.Changes (· = pk) (m.add rt pk doc) :=
  ⟨sameDefs_add rt m pk doc, fun _ _ _ hk => found_add doc hk⟩

theorem changes_remove (m : IndexManager Pk) (pk : Pk) : m.Changes (· = pk) (m.remove pk) :=
  ⟨sameDefs_remove m pk, fun _ _ _ hk => found_remove hk⟩

theorem Changes.exclusive (h : Changes keys m m') (hexcl : m.IsExclusive)
    (hnew : ∀ name v a b, keys a → keys b → m'.Found name v a → m'.Found name v b → a = b)
    (hcross : ∀ name v a b, keys a → ¬ keys b → m'.Found name v a → ¬ m.Found name v b) :
    m'.IsExclusive := by
  intro name
  exact (hexcl name).overwrite keys (fun v a ha hfound => (h.found name v a ha).mp hfound) (hnew name)
    (hcross name)

end IndexManager

namespace Derived

theorem changes_withoutOld (d : Derived Pk) (pk : Pk) (oldDoc : Option JsValue) : d.indexes.Changes (· = pk)
      (if oldDoc.any IndexManager.indexable then d.indexes.remove pk else d.indexes) := by
  split
  · exact IndexManager.changes_remove ..
  · exact .refl ..

theorem changes_put (rt : Runtime) (d : Derived Pk) (pk : Pk) (oldDoc : Option JsValue) (doc : JsValue)
    (dt : Option DtColumns) : d.indexes.Changes (· = pk) (d.put rt pk oldDoc doc dt).indexes := by
  have hold := changes_withoutOld d pk oldDoc
  rw [put]
  by_cases hindexable : IndexManager.indexable doc = true
  · rw [if_pos hindexable]
    exact hold.trans (IndexManager.changes_add ..)
  · rw [if_neg hindexable]
    exact hold

end Derived

end Echadron.MiniDb
