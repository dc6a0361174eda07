import Echadron.Lib.Bytes
import Echadron.MiniDb.QueryPlan

namespace Echadron.MiniDb
open Lib IndexManager List Option

variable {Pk : Type} [LinearOrder Pk] {rt : Runtime}

theorem inSync_noIndexes (docOf : Pk → Option JsValue) : InSync rt ({} : IndexManager Pk) docOf := by
  intro name idx h
  cases h

theorem rebuild_inSync_docs (m : IndexManager Pk) (docs : JsMap Pk JsValue) :
    (m.rebuild rt docs.entries).InSync rt fun pk => indexedDoc (docs.get pk) :=
  rebuild_inSync m docs.keys_nodup

omit [LinearOrder Pk] in
theorem foundBy_iff {filter doc : JsValue} (hdoc : docOf pk = indexedDoc (some doc)) :
    FoundBy rt infos docOf (indexPredicates filter) pk ↔ FoundByIndexes rt infos filter doc := by
  have hindexed (lookup : Lookup) : (∃ d, docOf pk = some d ∧ lookup.Finds rt d) ↔
      indexable doc = true ∧ lookup.Finds rt doc := by
    rw [hdoc, indexedDoc]
    constructor
    · rintro ⟨d, hd, hfinds⟩
      obtain ⟨he, hv⟩ := filter_eq_some_iff.mp hd
      cases he
      exact ⟨hv, hfinds⟩
    · rintro ⟨hv, hfinds⟩
      exact ⟨doc, filter_some_pos hv, hfinds⟩
  constructor
  · intro h field cond lookup hmem hplan
    exact (hindexed lookup).mp (h field cond lookup hmem hplan)
  · intro h field cond lookup hmem hplan
    exact (hindexed lookup).mpr (h field cond lookup hmem hplan)

theorem mem_candidates {keys : Option (List Pk)}
    (hdoc : docs.get pk = some doc) : pk ∈ keys.getD (rawKeys docs) ↔ IsCandidate keys pk := by
  cases keys with
  | some ks =>
    refine ⟨?_, fun h => h ks rfl⟩
    rintro h _ ⟨⟩
    exact h
  | none =>
    refine ⟨fun _ _ hk => (nomatch hk), fun _ => ?_⟩
    rw [getD_none, rawKeys, mem_insertionSort]
    exact (JsMap.mem_keys_iff _ _).mpr ⟨doc, hdoc⟩

theorem query_rows {m : IndexManager Pk} (hsync : m.InSync rt fun pk => indexedDoc (docs.get pk)) (filter : JsValue) :
    ∃ rows, query rt docs m filter = .ok rows ∧ ∀ row, row ∈ rows ↔
      docs.get row.1 = some row.2 ∧ matchesFilter rt row.2 filter = true ∧
        FoundByIndexes rt m.list filter row.2 := by
  obtain ⟨keys, hkeys, hcand⟩ := intersectCandidates_spec hsync (indexPredicates filter) none
  refine ⟨(keys.getD (rawKeys docs)).filterMap (queryRow rt docs filter), ?_, ?_⟩
  · rw [query, indexedCandidateKeys, hkeys]
    rfl
  have hall (pk : Pk) : IsCandidate none pk := fun _ hk => (nomatch hk)
  have hindexed {pk : Pk} {doc : JsValue} (hget : docs.get pk = some doc) :
      FoundBy rt m.list (fun pk => indexedDoc (docs.get pk)) (indexPredicates filter) pk ↔
        FoundByIndexes rt m.list filter doc :=
    foundBy_iff (congrArg indexedDoc hget)
  rintro ⟨pk, doc⟩
  rw [mem_filterMap]
  constructor
  · rintro ⟨key, hkey, hrow⟩
    obtain ⟨value, hget, hrow⟩ := bind_eq_some_iff.mp hrow
    obtain ⟨hmatch, hrow⟩ := ite_none_right_eq_some.mp hrow
    cases hrow
    have hfound := ((hcand pk).mp ((mem_candidates hget).mp hkey)).2
    exact ⟨hget, hmatch, (hindexed hget).mp hfound⟩
  · rintro ⟨hget, hmatch, hfound⟩
    refine ⟨pk, (mem_candidates hget).mpr ((hcand pk).mpr ⟨hall pk, ?_⟩), ?_⟩
    · exact (hindexed hget).mpr hfound
    · rw [queryRow, hget, bind_some, if_pos hmatch]

theorem foundByIndexes_nil (filter doc : JsValue) : FoundByIndexes rt [] filter doc := by
  intro field cond lookup _ hplan
  cases hplan

def exampleRuntime : Runtime where
  builtin _ _ := .undefined
  numberToString
    | .finite q => toString q.num
    | _ => "NaN"
  stringToNumber s :=
    match s.toNat? with
    | some n => .finite n
    | none => .nan
  indexKey digits := digits
  test r s := decide (r.source = "^a" ∧ s.toList.head? = some 'a')

def exampleDocs : JsMap Bytes JsValue := JsMap.empty.set [117, 58, 49] (.obj [("name", .str "ann")])

/-- One equality index, on the field `name`. -/
def nameIndex : IndexManager Bytes :=
  ⟨JsMap.empty.set "byName"
    { field := "name", unique := false, sparse := true, postings := .equality {} }⟩

def startsWithA : JsValue := .obj [("name", .regexp { source := "^a", flags := "" })]

end Echadron.MiniDb
