import Echadron.MiniDb.IndexSync

namespace Echadron.MiniDb
open Lib
open List hiding set

/-- What `.` does not match. -/
def isLineTerminator (c : Char) : Bool := c == '\n' || c == '\r' || c.toNat == 0x2028 || c.toNat == 0x2029

/-- The match of `^([^[]*)\[(\d+)\](.*)$`: the text before the bracket, the digits in it and the
rest. -/
def matchBracket (s : List Char) : Option (List Char × List Char × List Char) :=
  match s.span (· ≠ '[') with
  | (before, '[' :: tail) =>
    match tail.span Char.isDigit with
    | (d :: digits, ']' :: rest) => if rest.any isLineTerminator then none else some (before, d :: digits, rest)
    | _ => none
  | _ => none

/-- The loop over one segment of a path. Each match leaves a shorter rest, so the length of the
segment is fuel enough. -/
def tokenizeSegment (rt : Runtime) : (fuel : Nat) → List Char → List String
  | 0, _ | _, [] => []
  | fuel + 1, s =>
    match matchBracket s with
    | some (before, digits, rest) =>
      (if before = [] then [] else [String.ofList before]) ++
        rt.indexKey (String.ofList digits) :: tokenizeSegment rt fuel rest
    | none => [String.ofList s]

def tokenizePath (rt : Runtime) (path : String) : List String :=
  (path.toList.splitOn '.').flatMap fun seg => tokenizeSegment rt seg.length seg

def getPath (rt : Runtime) (doc : JsValue) (path : String) : JsValue :=
  doc.follow rt (tokenizePath rt path)

/-- The regular expression that a `$regex` condition stands for. -/
def regexOf (rt : Runtime) : JsValue → RegExp
  | .regexp r => r
  | .arr items => JsValue.newRegExp rt (items.getD 0 .undefined) (items.getD 1 .undefined)
  | arg => JsValue.newRegExp rt arg .undefined

def matchOp (rt : Runtime) (val : JsValue) (op : String) (arg : JsValue) : Bool :=
  match op with
  | "$eq" => val.strictEq arg
  | "$ne" => !val.strictEq arg
  | "$gt" => arg.less rt val
  | "$gte" => arg.lessEq rt val
  | "$lt" => val.less rt arg
  | "$lte" => val.lessEq rt arg
  | "$in" =>
    match arg with
    | .arr items => JsValue.includes items val
    | _ => false
  | "$nin" =>
    match arg with
    | .arr items => !JsValue.includes items val
    | _ => false
  | "$regex" =>
    match val with
    | .str s => rt.test (regexOf rt arg) s
    | _ => false
  | "$exists" => !val.isUndefined == arg.truthy
  | "$contains" =>
    match val with
    | .arr items => JsValue.includes items arg
    | _ => false
  | "$type" => (JsValue.str val.typeOf).strictEq arg
  | _ => false

def matchCond (rt : Runtime) (val cond : JsValue) : Bool :=
  match cond with
  | .regexp r =>
    match val with
    | .str s => rt.test r s
    | _ => false
  | .arr _ | .obj _ => cond.entries.all fun (op, arg) => matchOp rt val op arg
  | _ => val.strictEq cond

/-- `match` with a text or an array as the filter: its own keys are positions. -/
def matchesPositions (rt : Runtime) (doc filter : JsValue) : Bool :=
  filter.entries.all fun (key, cond) => matchCond rt (getPath rt doc key) cond

mutual

def matchesFilter (rt : Runtime) (doc : JsValue) : (filter : JsValue) → Bool
  | .obj fields => matchesFields rt doc fields
  | filter => matchesPositions rt doc filter

def matchesFields (rt : Runtime) (doc : JsValue) : List (String × JsValue) → Bool
  | [] => true
  | (key, cond) :: fields => matchesField rt doc key cond && matchesFields rt doc fields

def matchesField (rt : Runtime) (doc : JsValue) (key : String) : (cond : JsValue) → Bool
  | .arr items =>
    if key = "$and" then everyMatches rt doc items
    else if key = "$or" then someMatches rt doc items
    else if key = "$nor" then !someMatches rt doc items
    else if key = "$not" then !matchesPositions rt doc (.arr items)
    else matchCond rt (getPath rt doc key) (.arr items)
  | .obj fields =>
    if key = "$and" ∨ key = "$or" ∨ key = "$nor" then false
    else if key = "$not" then !matchesFields rt doc fields
    else matchCond rt (getPath rt doc key) (.obj fields)
  | cond =>
    if key = "$and" ∨ key = "$or" ∨ key = "$nor" then false
    else if key = "$not" then !matchesPositions rt doc cond
    else matchCond rt (getPath rt doc key) cond

def everyMatches (rt : Runtime) (doc : JsValue) : List JsValue → Bool
  | [] => true
  | f :: fs => matchesFilter rt doc f && everyMatches rt doc fs

def someMatches (rt : Runtime) (doc : JsValue) : List JsValue → Bool
  | [] => false
  | f :: fs => matchesFilter rt doc f || someMatches rt doc fs

end

/-- A lookup that the planner makes in an index. -/
inductive Lookup where
  | eq (idx : IndexInfo) (values : List JsValue)
  | range (idx : IndexInfo) (r : RangeOptions JsNumber)

/-- A condition that is an object of operators. -/
def isOpObj : (cond : JsValue) → Bool
  | .arr _ | .obj _ => true
  | _ => false

/-- A key that does not start with a dollar sign. -/
def isPlainKey (key : String) : Bool := key.toList.head? ≠ some '$'

/-- The conditions on fields that the members of a `$and` make. -/
def andPredicates : (cond : JsValue) → List (String × JsValue)
  | .arr fs => fs.flatMap fun f => if f.isObject then f.entries.filter fun e => isPlainKey e.1 else []
  | _ => []

/-- The conditions on fields that the filter makes. -/
def indexPredicates (filter : JsValue) : List (String × JsValue) :=
  if filter.isObject then
    filter.entries.flatMap fun (key, cond) =>
      if key = "$and" then andPredicates cond
      else if isPlainKey key then [(key, cond)]
      else []
  else []

def opOf (cond : JsValue) (op : String) : JsValue := (cond.entries.lookup op).getD .undefined

def numberOf : JsValue → Option JsNumber
  | .num n => some n
  | _ => none

def planEq (indexes : List IndexInfo) (cond : JsValue) : Option Lookup :=
  match indexes.find? (·.type = .equality) with
  | none => none
  | some idx =>
    if !isOpObj cond then some (.eq idx [cond])
    else if cond.entries.map Prod.fst = ["$eq"] then some (.eq idx [opOf cond "$eq"])
    else
      match opOf cond "$in" with
      | .arr values => some (.eq idx values)
      | _ => none

/-- The bounds of a condition. The strict one is taken where both are given. -/
def rangeBounds (cond : JsValue) : RangeOptions JsNumber :=
  let gt := numberOf (opOf cond "$gt")
  let lt := numberOf (opOf cond "$lt")
  { gt := gt
    gte := if gt.isSome then none else numberOf (opOf cond "$gte")
    lt := lt
    lte := if lt.isSome then none else numberOf (opOf cond "$lte") }

def planRange (indexes : List IndexInfo) (cond : JsValue) : Option Lookup :=
  match indexes.find? (·.type = .range) with
  | none => none
  | some idx =>
    if isOpObj cond then
      if rangeBounds cond = {} then none else some (.range idx (rangeBounds cond))
    else none

/-- The lookup for a condition: in the first equality index of the field, else in the first range
index. -/
def planLookup (infos : List IndexInfo) (field : String) (cond : JsValue) : Option Lookup :=
  let indexes := infos.filter (·.field = field)
  planEq indexes cond <|> planRange indexes cond

variable {Pk : Type} [LinearOrder Pk]

def newSet (keys : List Pk) : List Pk := (JsMap.ofKeys keys).keys

def runLookup (rt : Runtime) (m : IndexManager Pk) : Lookup → Except String (List Pk)
  | .eq idx values => (values.mapM fun v => m.findEq rt idx.name v).map fun ks => newSet ks.flatten
  | .range idx r => (m.findRange idx.name r).map fun rows => newSet (rows.map Prod.fst)

def candidateKeysForPredicate (rt : Runtime) (m : IndexManager Pk) (field : String)
    (cond : JsValue) : Except String (Option (List Pk)) :=
  match planLookup m.list field cond with
  | none => .ok none
  | some lookup => (runLookup rt m lookup).map some

/-- The loop over the conditions; a condition without a lookup is passed over. -/
def intersectCandidates (rt : Runtime) (m : IndexManager Pk) :
    List (String × JsValue) → (candidates : Option (List Pk)) → Except String (Option (List Pk))
  | [], candidates => .ok candidates
  | (field, cond) :: ps, candidates => do
    match ← candidateKeysForPredicate rt m field cond with
    | none => intersectCandidates rt m ps candidates
    | some set =>
      match candidates with
      | none => intersectCandidates rt m ps (some set)
      | some keys => intersectCandidates rt m ps (some (keys.filter (· ∈ set)))

def indexedCandidateKeys (rt : Runtime) (m : IndexManager Pk) (filter : JsValue) : Except String (Option (List Pk)) :=
  intersectCandidates rt m (indexPredicates filter) none

/-- The keys of the store in their order. -/
def rawKeys (docs : JsMap Pk JsValue) : List Pk := docs.keys.insertionSort (· ≤ ·)

def queryRow (rt : Runtime) (docs : JsMap Pk JsValue) (filter : JsValue) (pk : Pk) : Option (Pk × JsValue) :=
  (docs.get pk).bind fun doc => if matchesFilter rt doc filter then some (pk, doc) else none

def query (rt : Runtime) (docs : JsMap Pk JsValue) (m : IndexManager Pk) (filter : JsValue) :
    Except String (List (Pk × JsValue)) :=
  (indexedCandidateKeys rt m filter).map fun keys =>
    (keys.getD (rawKeys docs)).filterMap (queryRow rt docs filter)

/-- What a lookup can find of a document: a posting of the value looked up, or a number within the
bounds. -/
def Lookup.Finds (rt : Runtime) (doc : JsValue) : Lookup → Prop
  | .eq idx values => ∃ keys, eqKeys rt idx.field idx.sparse doc = some keys ∧
      ∃ v ∈ values, scalarKey rt v ∈ keys
  | .range idx r => ∃ vals, rangeVals rt idx.field idx.sparse doc = some vals ∧
      ∃ q ∈ vals, r.isBelow q = false ∧ r.isAbove q = false

/-- Every lookup made for the filter finds the document. -/
def FoundByIndexes (rt : Runtime) (infos : List IndexInfo) (filter doc : JsValue) : Prop :=
  ∀ field cond lookup, (field, cond) ∈ indexPredicates filter →
    planLookup infos field cond = some lookup → IndexManager.indexable doc = true ∧ lookup.Finds rt doc

/-- Two queries with the same set of rows. -/
def SameRows (a b : Except String (List (Pk × JsValue))) : Prop :=
  ∃ rows rows', a = .ok rows ∧ b = .ok rows' ∧ ∀ row, row ∈ rows ↔ row ∈ rows'

/-! The lookups. -/

section

variable {cond : JsValue} {lookup : Lookup}

theorem mem_newSet (keys : List Pk) (pk : Pk) : pk ∈ newSet keys ↔ pk ∈ keys := JsMap.mem_keys_ofKeys keys pk

def Lookup.idx : Lookup → IndexInfo
  | eq idx _ | range idx _ => idx

def Lookup.type : Lookup → IndexType
  | eq _ _ => .equality
  | range _ _ => .range

theorem planEq_info (h : planEq indexes cond = some lookup) :
    lookup.idx ∈ indexes ∧ lookup.idx.type = lookup.type := by
  rw [planEq] at h
  split at h
  · cases h
  · rename_i idx hfind
    have hmem := mem_of_find?_eq_some hfind
    have htype : idx.type = .equality := by simpa using find?_some hfind
    split at h
    · cases h
      exact ⟨hmem, htype⟩
    · split at h
      · cases h
        exact ⟨hmem, htype⟩
      · split at h
        · cases h
          exact ⟨hmem, htype⟩
        · cases h

theorem planRange_info (h : planRange indexes cond = some lookup) :
    lookup.idx ∈ indexes ∧ lookup.idx.type = lookup.type := by
  rw [planRange] at h
  split at h
  · cases h
  · rename_i idx hfind
    have hmem := mem_of_find?_eq_some hfind
    have htype : idx.type = .range := by simpa using find?_some hfind
    split at h
    · split at h
      · cases h
      · cases h
        exact ⟨hmem, htype⟩
    · cases h

theorem planLookup_info
    (h : planLookup infos field cond = some lookup) :
    lookup.idx ∈ infos ∧ lookup.idx.type = lookup.type := by
  rw [planLookup, Option.orElse_eq_orElse, Option.orElse_eq_or] at h
  rcases Option.or_eq_some_iff.mp h with h | ⟨_, h⟩
  · exact ⟨mem_of_mem_filter (planEq_info h).1, (planEq_info h).2⟩
  · exact ⟨mem_of_mem_filter (planRange_info h).1, (planRange_info h).2⟩

end

theorem get_of_mem_list {m : IndexManager Pk} (h : info ∈ m.list) :
    ∃ idx, m.indexes.get info.name = some idx ∧ idx.field = info.field ∧ idx.sparse = info.sparse ∧
      idx.type = info.type := by
  obtain ⟨⟨name, idx⟩, hmem, rfl⟩ := mem_map.mp h
  exact ⟨idx, (JsMap.mem_entries_iff _ _ _).mp hmem, rfl, rfl, rfl⟩

section

variable {rt : Runtime} {m : IndexManager Pk} {docOf : Pk → Option JsValue} {cond : JsValue}
  {lookup : Lookup}

section

variable (hsync : m.InSync rt docOf) (hinfo : info ∈ m.list)
include hsync hinfo

theorem findEq_spec (htype : info.type = .equality) (value : JsValue) :
    ∃ ks, m.findEq rt info.name value = .ok ks ∧ ∀ pk, pk ∈ ks ↔ ∃ doc, docOf pk = some doc ∧
        ∃ keys, eqKeys rt info.field info.sparse doc = some keys ∧ scalarKey rt value ∈ keys := by
  obtain ⟨idx, hget, hfield, hsparse, hkind⟩ := get_of_mem_list hinfo
  have hidx := hsync _ _ hget
  obtain ⟨field, unique, sparse, postings⟩ := idx
  cases postings with
  | range r =>
    rw [htype] at hkind
    cases hkind
  | equality e =>
    obtain rfl : field = info.field := hfield
    obtain rfl : sparse = info.sparse := hsparse
    obtain ⟨hcoh, hpk⟩ := hidx
    refine ⟨e.find (scalarKey rt value), by rw [IndexManager.findEq, hget], fun pk => ?_⟩
    rw [hcoh.mem_find, hpk]
    constructor
    · rintro ⟨keys, hkeys, hmem⟩
      obtain ⟨doc, hdoc, hkeys⟩ := Option.bind_eq_some_iff.mp hkeys
      exact ⟨doc, hdoc, keys, hkeys, hmem⟩
    · rintro ⟨doc, hdoc, keys, hkeys, hmem⟩
      exact ⟨keys, Option.bind_eq_some_iff.mpr ⟨doc, hdoc, hkeys⟩, hmem⟩

theorem findRange_spec (htype : info.type = .range) (r : RangeOptions JsNumber) :
    ∃ rows, m.findRange info.name r = .ok rows ∧ ∀ pk, pk ∈ rows.map Prod.fst ↔
      ∃ doc, docOf pk = some doc ∧ ∃ vals, rangeVals rt info.field info.sparse doc = some vals ∧
        ∃ q ∈ vals, r.isBelow q = false ∧ r.isAbove q = false := by
  obtain ⟨idx, hget, hfield, hsparse, hkind⟩ := get_of_mem_list hinfo
  have hidx := hsync _ _ hget
  obtain ⟨field, unique, sparse, postings⟩ := idx
  cases postings with
  | equality e =>
    rw [htype] at hkind
    cases hkind
  | range p =>
    obtain rfl : field = info.field := hfield
    obtain rfl : sparse = info.sparse := hsparse
    obtain ⟨hcoh, hpk⟩ := hidx
    have hfind : m.findRange info.name r = .ok ((p.list.range r).map Prod.swap) := by
      rw [IndexManager.findRange, hget]
      rfl
    refine ⟨_, hfind, fun pk => ?_⟩
    have hmem : pk ∈ ((p.list.range r).map Prod.swap).map Prod.fst ↔ ∃ q, (q, pk) ∈ p.list.range r := by
      rw [map_map, mem_map]
      constructor
      · rintro ⟨⟨q, _⟩, hq, rfl⟩
        exact ⟨q, hq⟩
      · rintro ⟨q, hq⟩
        exact ⟨(q, pk), hq, rfl⟩
    rw [hmem]
    constructor
    · rintro ⟨q, hq⟩
      obtain ⟨hq, hin⟩ := (SkipList.mem_range _ _ _ _).mp hq
      obtain ⟨vals, hvals, hqv⟩ := (hcoh.mem_list _ _).mp hq
      rw [hpk] at hvals
      obtain ⟨doc, hdoc, hvals⟩ := Option.bind_eq_some_iff.mp hvals
      exact ⟨doc, hdoc, vals, hvals, q, hqv, hin⟩
    · rintro ⟨doc, hdoc, vals, hvals, q, hqv, hin⟩
      refine ⟨q, (SkipList.mem_range _ _ _ _).mpr ⟨(hcoh.mem_list _ _).mpr ⟨vals, ?_, hqv⟩, hin⟩⟩
      rw [hpk]
      exact Option.bind_eq_some_iff.mpr ⟨doc, hdoc, hvals⟩

theorem mapM_findEq (htype : info.type = .equality) (values : List JsValue) :
    ∃ kss, (values.mapM fun v => m.findEq rt info.name v) = .ok kss ∧ ∀ pk, pk ∈ kss.flatten ↔
      ∃ doc, docOf pk = some doc ∧ Lookup.Finds rt doc (.eq info values) := by
  induction values with
  | nil =>
    refine ⟨[], rfl, fun pk => ⟨fun h => absurd h not_mem_nil, ?_⟩⟩
    rintro ⟨_, _, _, _, v, hv, _⟩
    cases hv
  | cons value values ih =>
    obtain ⟨ks, hks, hmem⟩ := findEq_spec hsync hinfo htype value
    obtain ⟨kss, hkss, hmems⟩ := ih
    refine ⟨ks :: kss, by rw [mapM_cons, hks, hkss]; rfl, fun pk => ?_⟩
    rw [flatten_cons, mem_append, hmem, hmems]
    constructor
    · rintro (⟨doc, hdoc, keys, hkeys, hv⟩ | ⟨doc, hdoc, keys, hkeys, v, hvs, hv⟩)
      · exact ⟨doc, hdoc, keys, hkeys, value, mem_cons_self .., hv⟩
      · exact ⟨doc, hdoc, keys, hkeys, v, mem_cons_of_mem _ hvs, hv⟩
    · rintro ⟨doc, hdoc, keys, hkeys, v, hvs, hv⟩
      rcases mem_cons.mp hvs with rfl | hvs
      · exact .inl ⟨doc, hdoc, keys, hkeys, hv⟩
      · exact .inr ⟨doc, hdoc, keys, hkeys, v, hvs, hv⟩

end

theorem runLookup_spec (hsync : m.InSync rt docOf) (h : planLookup m.list field cond = some lookup) :
    ∃ ks, runLookup rt m lookup = .ok ks ∧ ∀ pk, pk ∈ ks ↔ ∃ doc, docOf pk = some doc ∧ lookup.Finds rt doc := by
  obtain ⟨hinfo, htype⟩ := planLookup_info h
  cases lookup with
  | eq idx values =>
    change idx ∈ m.list at hinfo
    obtain ⟨kss, hkss, hmem⟩ := mapM_findEq hsync hinfo htype values
    refine ⟨newSet kss.flatten, by rw [runLookup, hkss]; rfl, fun pk => ?_⟩
    rw [mem_newSet, hmem]
  | range idx r =>
    change idx ∈ m.list at hinfo
    obtain ⟨rows, hrows, hmem⟩ := findRange_spec hsync hinfo htype r
    refine ⟨newSet (rows.map Prod.fst), by rw [runLookup, hrows]; rfl, fun pk => ?_⟩
    rw [mem_newSet, hmem]
    rfl

/-- A record that the lookups so far leave as a candidate; without a lookup each one is. -/
def IsCandidate (candidates : Option (List Pk)) (pk : Pk) : Prop := ∀ ks, candidates = some ks → pk ∈ ks

/-- Every lookup for one of the conditions finds the record's document. -/
def FoundBy (rt : Runtime) (infos : List IndexInfo) (docOf : Pk → Option JsValue)
    (ps : List (String × JsValue)) (pk : Pk) : Prop :=
  ∀ field cond lookup, (field, cond) ∈ ps → planLookup infos field cond = some lookup →
    ∃ doc, docOf pk = some doc ∧ lookup.Finds rt doc

omit [LinearOrder Pk] in
theorem foundBy_cons (infos : List IndexInfo) (ps : List (String × JsValue)) (pk : Pk) :
    FoundBy rt infos docOf ((field, cond) :: ps) pk ↔ (∀ lookup, planLookup infos field cond = some lookup →
        ∃ doc, docOf pk = some doc ∧ lookup.Finds rt doc) ∧ FoundBy rt infos docOf ps pk := by
  constructor
  · intro h
    exact ⟨fun lookup hl => h _ _ lookup (mem_cons_self ..) hl,
      fun f c lookup hm => h f c lookup (mem_cons_of_mem _ hm)⟩
  · rintro ⟨h, hs⟩ f c lookup hm hl
    rcases mem_cons.mp hm with he | hm
    · cases he
      exact h lookup hl
    · exact hs f c lookup hm hl

theorem intersectCandidates_spec (hsync : m.InSync rt docOf) (ps : List (String × JsValue))
    (candidates : Option (List Pk)) :
    ∃ keys, intersectCandidates rt m ps candidates = .ok keys ∧
      ∀ pk, IsCandidate keys pk ↔ IsCandidate candidates pk ∧ FoundBy rt m.list docOf ps pk := by
  induction ps generalizing candidates with
  | nil =>
    refine ⟨candidates, rfl, fun pk => ⟨fun h => ⟨h, ?_⟩, And.left⟩⟩
    intro _ _ _ hm
    cases hm
  | cons p ps ih =>
    obtain ⟨field, cond⟩ := p
    rw [intersectCandidates]
    cases hplan : planLookup m.list field cond with
    | none =>
      obtain ⟨keys, hkeys, hmem⟩ := ih candidates
      refine ⟨keys, by rw [candidateKeysForPredicate, hplan]; exact hkeys, fun pk => ?_⟩
      rw [hmem, foundBy_cons, hplan]
      simp
    | some lookup =>
      obtain ⟨set, hset, hfinds⟩ := runLookup_spec hsync hplan
      have hcand : candidateKeysForPredicate rt m field cond = .ok (some set) := by
        rw [candidateKeysForPredicate, hplan]
        dsimp only
        rw [hset]
        rfl
      -- the candidates after this condition
      have hnext (next : Option (List Pk)) (hn : ∀ pk, IsCandidate next pk ↔
          IsCandidate candidates pk ∧ pk ∈ set) :
          ∃ keys, intersectCandidates rt m ps next = .ok keys ∧ ∀ pk, IsCandidate keys pk ↔
            IsCandidate candidates pk ∧ FoundBy rt m.list docOf ((field, cond) :: ps) pk := by
        obtain ⟨keys, hkeys, hmem⟩ := ih next
        refine ⟨keys, hkeys, fun pk => ?_⟩
        rw [hmem, hn, foundBy_cons, hplan, and_assoc, hfinds]
        simp
      rw [hcand]
      cases candidates with
      | none =>
        apply hnext (some set)
        intro pk
        refine ⟨fun h => ⟨fun _ hk => (nomatch hk), h set rfl⟩, ?_⟩
        rintro ⟨_, h⟩ _ ⟨⟩
        exact h
      | some keys =>
        apply hnext (some (keys.filter (· ∈ set)))
        intro pk
        constructor
        · intro h
          obtain ⟨hk, hs⟩ := mem_filter.mp (h _ rfl)
          refine ⟨?_, of_decide_eq_true hs⟩
          rintro _ ⟨⟩
          exact hk
        · rintro ⟨h, hs⟩ _ ⟨⟩
          exact mem_filter.mpr ⟨h keys rfl, decide_eq_true hs⟩

end

end Echadron.MiniDb
