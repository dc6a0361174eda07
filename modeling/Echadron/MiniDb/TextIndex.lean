import Echadron.Lib.JsMap
import Mathlib.Data.List.Induction
import Mathlib.Data.List.Sort

namespace Echadron.MiniDb.FullText
open Lib List

/-! The full-text index, over the terms of each document as `tokenize` gives them. -/

/-- From docID to frequency. -/
abbrev Postings := JsMap Nat Nat

/-- What is kept of the documents; `build` stages it with its postings in `delta`. -/
structure Staged (K T : Type) where
  delta : JsMap T Postings := .empty
  docLen : JsMap Nat Nat := .empty
  keys : List (Option K) := []
  keyToId : JsMap K Nat := .empty
  N : Nat := 0

/-- `base` is `memBase` or, with `path`, what the dictionary points at in the postings file. -/
structure TextIndex (K T : Type) extends Staged K T where
  path : Bool
  cacheTerms : Nat
  base : JsMap T Postings := .empty
  removed : JsSet Nat := .empty
  cache : JsMap T (List (Nat × Nat)) := .empty

/-- Scores, with their sum and what a term adds: by its frequency in the document, the document's length,
the term's document frequency and the number of documents. -/
structure Scoring (S : Type) where
  zero : S
  add : S → S → S
  term : (f len df n : Nat) → S

inductive SearchOp where
  | AND
  | OR

structure SearchHit (K S : Type) where
  key : K
  score : S

variable {K T D S : Type} [DecidableEq K] [DecidableEq T]

def counts (tokens : List T) : JsMap T Nat :=
  tokens.foldl (fun counts t => counts.set t ((counts.get t).getD 0 + 1)) .empty

def setAll {V : Type} (out : JsMap K V) (es : List (K × V)) : JsMap K V := es.foldl (fun out e => out.set e.1 e.2) out

def post (docID : Nat) (postings : JsMap T Postings) (count : T × Nat) : JsMap T Postings :=
  postings.set count.1 (((postings.get count.1).getD .empty).set docID count.2)

/-- A document under the next docID, in `build` and in `add`. -/
def Staged.enter (ix : Staged K T) (key : K) (tokens : List T) : Staged K T :=
  let docID := ix.keys.length
  { delta := (counts tokens).entries.foldl (post docID) ix.delta
    docLen := ix.docLen.set docID tokens.length
    keys := ix.keys ++ [some key]
    keyToId := ix.keyToId.set key docID
    N := ix.N + 1 }

namespace TextIndex

def build (path : Bool) (cacheTerms : Nat) (entries : List (K × List T)) : TextIndex K T :=
  let staged : Staged K T := entries.foldl (fun staged e => staged.enter e.1 e.2) {}
  { staged with
    delta := .empty
    base := staged.delta
    path := path
    cacheTerms := cacheTerms }

def remove (ix : TextIndex K T) (key : K) : TextIndex K T :=
  match ix.keyToId.get key with
  | none => ix
  | some id =>
    { ix with
      removed := ix.removed.set id ()
      keyToId := ix.keyToId.delete key
      keys := ix.keys.set id none
      docLen := ix.docLen.delete id
      delta := ix.delta.mapValues (·.delete id)
      N := ix.N - 1 }

def add (ix : TextIndex K T) (key : K) (tokens : List T) : TextIndex K T :=
  let ix := if ix.keyToId.has key then ix.remove key else ix
  { ix with toStaged := ix.enter key tokens }

/-- What the cache or the postings file gives. -/
def decoded (ix : TextIndex K T) (term : T) : List (Nat × Nat) :=
  (ix.cache.get term).getD ((ix.base.get term).elim [] JsMap.entries)

def readBase (ix : TextIndex K T) (term : T) : Postings :=
  if ix.path then setAll .empty (ix.decoded term)
  else (ix.base.get term).getD .empty

/-- The cache after `readBase`. -/
def touch (ix : TextIndex K T) (term : T) : TextIndex K T :=
  if ix.path then
    match ix.cache.get term with
    | some arr => { ix with cache := (ix.cache.delete term).set term arr }
    | none =>
      if 0 < ix.cacheTerms then
        let cache := ix.cache.set term (ix.decoded term)
        { ix with cache := if ix.cacheTerms < cache.size then cache.keys.head?.elim cache cache.delete else cache }
      else ix
  else ix

/-- The entries without a tombstone, put into a map. -/
def into (ix : TextIndex K T) (postings out : Postings) : Postings :=
  setAll out (postings.entries.filter (!ix.removed.has ·.1))

def livePostings (ix : TextIndex K T) (term : T) : Postings :=
  ix.into ((ix.delta.get term).getD .empty) (ix.into (ix.readBase term) .empty)

/-- The live postings of the terms, read one after another. -/
def readTerms (ix : TextIndex K T) : List T → List Postings × TextIndex K T
  | [] => ([], ix)
  | term :: terms =>
    let (maps, after) := (ix.touch term).readTerms terms
    (ix.livePostings term :: maps, after)

def candidates (op : SearchOp) (maps : List Postings) : List Nat :=
  match op with
  | .OR => (JsMap.ofKeys (maps.flatMap JsMap.keys)).keys
  | .AND =>
    if maps.any (·.size = 0) then []
    else
      match maps.mergeSort fun a b => a.size ≤ b.size with
      | [] => []
      | first :: rest => rest.foldl (fun found m => found.filter m.has) first.keys

def score (ix : TextIndex K T) (scoring : Scoring S) (maps : List Postings) (id : Nat) : S :=
  maps.foldl (fun score m =>
    let f := (m.get id).getD 0
    if f = 0 then score else scoring.add score (scoring.term f ((ix.docLen.get id).getD 1) m.size ix.N)) scoring.zero

variable [LinearOrder S]

/-- What a search of given terms has found before it sorts and cuts. -/
def hits (ix : TextIndex K T) (scoring : Scoring S) (op : SearchOp) (tokens : List T) : List (SearchHit K S) :=
  let (maps, ix) := ix.readTerms (JsMap.ofKeys tokens).keys
  (candidates op maps).filterMap fun id =>
    let score := ix.score scoring maps id
    if scoring.zero < score then (ix.keys[id]?).join.map (⟨·, score⟩) else none

def search (ix : TextIndex K T) (scoring : Scoring S) (op : SearchOp) (limit : Nat) (tokens : List T) :
    List (SearchHit K S) :=
  ((ix.hits scoring op tokens).mergeSort fun a b => b.score ≤ a.score).take limit

end TextIndex

inductive TextEvent (K T : Type) where
  | add (key : K) (tokens : List T)
  | remove (key : K)
  | search (tokens : List T)

def TextIndex.step (ix : TextIndex K T) : TextEvent K T → TextIndex K T
  | .add key tokens => ix.add key tokens
  | .remove key => ix.remove key
  | .search tokens => (ix.readTerms (JsMap.ofKeys tokens).keys).2

/-- The documents by their keys, each as its terms. -/
def changed (docs : JsMap K (List T)) : TextEvent K T → JsMap K (List T)
  | .add key tokens => docs.set key tokens
  | .remove key => docs.delete key
  | .search _ => docs

def look (postings : JsMap T Postings) (t : T) (i : Nat) : Option Nat := (postings.get t).bind (·.get i)

theorem getD_get (postings : JsMap T Postings) (t : T) (i : Nat) :
    ((postings.get t).getD .empty).get i = look postings t i := by
  rw [look]
  cases postings.get t <;> rfl

theorem get_counts (tokens : List T) (t : T) :
    (counts tokens).get t = if tokens.count t = 0 then none else some (tokens.count t) := by
  induction tokens using reverseRecOn with
  | nil => rfl
  | append_singleton tokens u ih =>
    have hstep : counts (tokens ++ [u]) = (counts tokens).set u (((counts tokens).get u).getD 0 + 1) := by
      rw [counts, foldl_append]
      rfl
    rw [hstep, JsMap.get_set, count_append, count_singleton]
    by_cases htu : t = u
    · subst htu
      rw [ih]
      by_cases hzero : tokens.count t = 0 <;> simp [hzero]
    · simp [htu, Ne.symm htu, ih]

theorem look_posts (es : List (T × Nat)) (hn : (es.map Prod.fst).Nodup) (postings : JsMap T Postings) :
    look (es.foldl (post docID) postings) t i =
      if i = docID then (es.lookup t).or (look postings t i) else look postings t i := by
  induction es generalizing postings with
  | nil => simp
  | cons e es ih =>
    obtain ⟨u, f⟩ := e
    obtain ⟨hu, hn⟩ := nodup_cons.mp hn
    have hpost : look (post docID postings (u, f)) t i =
        if t = u ∧ i = docID then some f else look postings t i := by
      rw [look, post, JsMap.get_set]
      by_cases htu : t = u
      · subst htu
        rw [if_pos rfl, Option.bind_some, JsMap.get_set, getD_get]
        simp
      · simp [htu, look]
    rw [foldl_cons, ih hn, hpost]
    by_cases htu : t = u
    · subst htu
      have hnone : es.lookup t = none := lookup_eq_none_iff.mpr fun e he => by
        simpa using fun ht => hu (mem_map.mpr ⟨e, he, ht.symm⟩)
      by_cases hi : i = docID <;> simp [hi, hnone]
    · simp [htu, lookup_cons, beq_false_of_ne htu]

theorem get_setAll {V : Type} (es : List (K × V)) (hn : (es.map Prod.fst).Nodup) (out : JsMap K V) :
    (setAll out es).get k = (es.lookup k).or (out.get k) := by
  induction es generalizing out with
  | nil => simp [setAll]
  | cons e es ih =>
    obtain ⟨u, f⟩ := e
    obtain ⟨hu, hn⟩ := nodup_cons.mp hn
    rw [setAll, foldl_cons, ← setAll, ih hn, JsMap.get_set, lookup_cons]
    by_cases hk : k = u
    · subst hk
      have hnone : es.lookup k = none := lookup_eq_none_iff.mpr fun e he => by
        simpa using fun ht => hu (mem_map.mpr ⟨e, he, ht.symm⟩)
      simp [hnone]
    · simp [hk, beq_false_of_ne hk]

theorem size_congr {V : Type} {m m' : JsMap K V} (h : ∀ k, m.get k = m'.get k) : m.size = m'.size := by
  have hkeys : m.keys.Perm m'.keys := by
    apply (perm_ext_iff_of_nodup m.keys_nodup m'.keys_nodup).mpr
    intro k
    rw [JsMap.mem_keys_iff, JsMap.mem_keys_iff, h]
  simpa [JsMap.keys, JsMap.size] using hkeys.length_eq

theorem size_delete {V : Type} {m : JsMap K V} (h : k ∈ m.keys) : (m.delete k).size + 1 = m.size := by
  have hkeys : (m.delete k).keys = m.keys.erase k := by
    rw [JsMap.keys_delete, m.keys_nodup.erase_eq_filter]
    exact filter_congr fun a _ => by simp [bne, Bool.beq_eq_decide_eq]
  have hlength := length_erase_of_mem h
  rw [← hkeys] at hlength
  have hpos := length_pos_of_mem h
  simp only [JsMap.keys, length_map] at hlength hpos
  simp only [JsMap.size]
  omega

namespace TextIndex

omit [DecidableEq K] [DecidableEq T] in
theorem get_into (ix : TextIndex K T) (p out : Postings) :
    (ix.into p out).get i = if ix.removed.has i then out.get i else (p.get i).or (out.get i) := by
  have hn : ((p.entries.filter (!ix.removed.has ·.1)).map Prod.fst).Nodup :=
    p.keys_nodup.sublist (filter_sublist.map _)
  have hlookup : (p.entries.filter (!ix.removed.has ·.1)).lookup i =
      if ix.removed.has i then none else p.get i := by
    ext f
    rw [JsMap.lookup_eq_some_iff_mem hn, mem_filter, JsMap.mem_entries_iff]
    split_ifs with hi <;> simp [hi]
  rw [into, get_setAll _ hn, hlookup]
  split_ifs <;> rfl

/-- The cache holds what is in the postings file. -/
def Cached (ix : TextIndex K T) : Prop :=
  ∀ t arr, ix.cache.get t = some arr → arr = (ix.base.get t).elim [] JsMap.entries

omit [DecidableEq K] in
theorem decoded_eq {ix : TextIndex K T} (h : ix.Cached) (t : T) :
    ix.decoded t = (ix.base.get t).elim [] JsMap.entries := by
  rw [decoded]
  cases hget : ix.cache.get t with
  | none => rfl
  | some arr => exact h t arr hget

/-- A posting, whether its document is there or not. -/
def stored (ix : TextIndex K T) (t : T) (i : Nat) : Option Nat := (look ix.delta t i).or (look ix.base t i)

omit [DecidableEq K] in
theorem get_livePostings {ix : TextIndex K T} (h : ix.Cached) :
    (ix.livePostings t).get i = if ix.removed.has i then none else ix.stored t i := by
  have hbase : (ix.readBase t).get i = look ix.base t i := by
    rw [readBase, decoded_eq h]
    split_ifs
    · rw [look]
      cases ix.base.get t with
      | none => rfl
      | some p => exact (get_setAll p.entries p.keys_nodup .empty).trans (Option.or_none ..)
    · exact getD_get ix.base t i
  rw [livePostings, get_into, get_into, hbase, getD_get]
  split_ifs
  · rfl
  · exact congrArg _ (Option.or_none ..)

end TextIndex

/-- `slots` has the document of each docID, and nothing where it has gone. -/
structure Indexed (slots : List (Option (K × List T))) (docs : JsMap K (List T)) (ix : TextIndex K T) : Prop where
  cached : ix.Cached
  keys : ix.keys = slots.map (Option.map Prod.fst)
  known : ∀ k, (ix.keyToId.get k).isSome = (docs.get k).isSome
  slot : ∀ i k tokens, slots[i]? = some (some (k, tokens)) ↔ ix.keyToId.get k = some i ∧ docs.get k = some tokens
  gone : ∀ i, ix.removed.has i = true ↔ slots[i]? = some none
  stored : ∀ t i, slots[i]? ≠ some none → ix.stored t i = (slots[i]?).join.bind fun e => (counts e.2).get t
  docLen : ∀ i, ix.docLen.get i = (slots[i]?).join.bind fun e => some e.2.length
  size : ix.N = docs.size

namespace Indexed

variable {slots : List (Option (K × List T))} {docs docs' : JsMap K (List T)} {ix : TextIndex K T}

section

variable (h : Indexed slots docs ix)
include h

theorem congr (hget : ∀ k, docs'.get k = docs.get k) : Indexed slots docs' ix :=
  { h with
    known := fun k => (h.known k).trans (congrArg _ (hget k).symm)
    slot := fun i k tokens => (h.slot i k tokens).trans (by rw [hget])
    size := h.size.trans (size_congr hget).symm }

theorem recache {cache : JsMap T (List (Nat × Nat))}
    (hcache : TextIndex.Cached { ix with cache := cache }) : Indexed slots docs { ix with cache := cache } :=
  ⟨hcache, h.keys, h.known, h.slot, h.gone, h.stored, h.docLen, h.size⟩

theorem touch (t : T) : Indexed slots docs (ix.touch t) := by
  have hset {cache arr} (hcache : TextIndex.Cached { ix with cache := cache })
      (harr : arr = (ix.base.get t).elim [] JsMap.entries) :
      TextIndex.Cached { ix with cache := cache.set t arr } := by
    intro u arr' hget
    rw [JsMap.get_set] at hget
    split_ifs at hget with hut
    · cases hget
      exact hut ▸ harr
    · exact hcache u arr' hget
  have hdelete {cache} (hcache : TextIndex.Cached { ix with cache := cache }) (t : T) :
      TextIndex.Cached { ix with cache := cache.delete t } := by
    intro u arr hget
    rw [JsMap.get_delete] at hget
    split_ifs at hget
    exact hcache u arr hget
  rw [TextIndex.touch]
  by_cases hpath : ix.path = true
  · rw [if_pos hpath]
    cases hget : ix.cache.get t with
    | some arr => exact h.recache (hset (hdelete h.cached t) (h.cached t arr hget))
    | none =>
      have hentered := hset h.cached (TextIndex.decoded_eq h.cached t)
      dsimp only
      split_ifs
      · apply h.recache
        cases (ix.cache.set t (ix.decoded t)).keys.head? with
        | none => exact hentered
        | some oldest => exact hdelete hentered oldest
      · exact h.recache hentered
      · exact h
  · rw [if_neg hpath]
    exact h

theorem enter (hnew : docs.get k = none) (tokens : List T) :
    Indexed (slots ++ [some (k, tokens)]) (docs.set k tokens) { ix with toStaged := ix.enter k tokens } := by
  have hlength : ix.keys.length = slots.length := by rw [h.keys, length_map]
  have hslots (i : Nat) : (slots ++ [some (k, tokens)])[i]? =
      if i = ix.keys.length then some (some (k, tokens)) else slots[i]? := by
    rw [hlength, getElem?_append]
    split_ifs with hlt hi hi
    · omega
    · rfl
    · simp [hi]
    · rw [getElem?_eq_none (by simp; omega), getElem?_eq_none (by omega)]
  have hlast : slots[ix.keys.length]? = none := getElem?_eq_none (le_of_eq hlength.symm)
  constructor
  · exact h.cached
  · simp [Staged.enter, h.keys]
  · intro k'
    change ((ix.keyToId.set k ix.keys.length).get k').isSome = _
    rw [JsMap.get_set, JsMap.get_set]
    split_ifs
    · rfl
    · exact h.known k'
  · intro i k' tokens'
    change _ ↔ (ix.keyToId.set k ix.keys.length).get k' = some i ∧ _
    rw [hslots, JsMap.get_set, JsMap.get_set]
    split_ifs with hi hk hk
    · simp [hi, hk]
    · rw [← h.slot, hi, hlast]
      simpa using fun he => absurd he.symm hk
    · rw [hk, h.slot, hnew]
      simpa using fun he => absurd he.symm hi
    · exact h.slot i k' tokens'
  · intro i
    rw [hslots, h.gone]
    split_ifs with hi
    · simp [hi, hlast]
    · exact Iff.rfl
  · intro t i hne
    have hlook : look (ix.enter k tokens).delta t i =
        if i = ix.keys.length then ((counts tokens).get t).or (look ix.delta t i) else look ix.delta t i :=
      look_posts _ (counts tokens).keys_nodup ix.delta
    change (look (ix.enter k tokens).delta t i).or (look ix.base t i) = _
    rw [hslots] at hne ⊢
    rw [hlook]
    split_ifs at hne ⊢ with hi
    · have hold := h.stored t i (by rw [hi, hlast]; exact nofun)
      rw [hi, hlast] at hold
      rw [Option.or_assoc, hi]
      exact (congrArg _ hold).trans (Option.or_none ..)
    · exact h.stored t i hne
  · intro i
    change (ix.docLen.set ix.keys.length tokens.length).get i = _
    rw [JsMap.get_set, hslots]
    split_ifs
    · rfl
    · exact h.docLen i
  · change ix.N + 1 = _
    rw [h.size, JsMap.size, JsMap.size, JsMap.entries_set_of_not_mem ((JsMap.get_eq_none_iff ..).mp hnew),
      length_append]
    rfl

theorem remove (k : K) : ∃ slots', Indexed slots' (docs.delete k) (ix.remove k) := by
  rw [TextIndex.remove]
  have hknown := h.known k
  cases hk : ix.keyToId.get k with
  | none =>
    rw [hk, Eq.comm, Option.isSome_none, Option.isSome_eq_false_iff, Option.isNone_iff_eq_none] at hknown
    refine ⟨slots, h.congr fun k' => ?_⟩
    rw [JsMap.get_delete]
    split_ifs with he
    · rw [he, hknown]
    · rfl
  | some id =>
    rw [hk] at hknown
    obtain ⟨tokens, htokens⟩ := Option.isSome_iff_exists.mp hknown.symm
    have hid := (h.slot id k tokens).mpr ⟨hk, htokens⟩
    have hslots (i : Nat) : (slots.set id none)[i]? = if i = id then some none else slots[i]? := by
      rw [getElem?_set]
      have hlt := getElem?_lt hid
      split_ifs with he hi hi <;> first | rfl | omega
    refine ⟨slots.set id none, ?_⟩
    constructor
    · exact h.cached
    · simp [h.keys, map_set]
    · intro k'
      rw [JsMap.get_delete, JsMap.get_delete]
      split_ifs
      · rfl
      · exact h.known k'
    · intro i k' tokens'
      rw [hslots, JsMap.get_delete, JsMap.get_delete]
      split_ifs with hi he he
      · simp
      · rw [← h.slot, hi, hid]
        simpa using fun heq => absurd heq.symm he
      · rw [he, h.slot, hk]
        simpa using fun heq => absurd heq.symm hi
      · exact h.slot i k' tokens'
    · intro i
      rw [JsMap.has_iff, JsMap.mem_keys_set, ← JsMap.has_iff, h.gone, hslots]
      split_ifs with hi <;> simp [hi]
    · intro t i hne
      change (look (ix.delta.mapValues (·.delete id)) t i).or (look ix.base t i) = _
      rw [hslots] at hne ⊢
      split_ifs at hne ⊢ with hi
      · exact absurd rfl hne
      · have hlook : look (ix.delta.mapValues (·.delete id)) t i = look ix.delta t i := by
          rw [look, look, JsMap.get_mapValues]
          cases ix.delta.get t with
          | none => rfl
          | some p => exact JsMap.get_delete_of_ne p hi
        rw [hlook]
        exact h.stored t i hne
    · intro i
      rw [JsMap.get_delete, hslots]
      split_ifs
      · rfl
      · exact h.docLen i
    · have hsize := size_delete ((docs.mem_keys_iff k).mpr ⟨tokens, htokens⟩)
      have hn := h.size
      change ix.N - 1 = _
      omega

theorem add (k : K) (tokens : List T) : ∃ slots', Indexed slots' (docs.set k tokens) (ix.add k tokens) := by
  obtain ⟨slots', hremoved⟩ : ∃ slots',
      Indexed slots' (docs.delete k) (if ix.keyToId.has k then ix.remove k else ix) := by
    split_ifs with hk
    · exact h.remove k
    · have hnone : ix.keyToId.get k = none := (JsMap.get_eq_none_iff ..).mpr (by simpa using hk)
      simpa [TextIndex.remove, hnone] using h.remove k
  refine ⟨_, (hremoved.enter (JsMap.get_delete_self docs k) tokens).congr fun k' => ?_⟩
  rw [JsMap.get_set, JsMap.get_set, JsMap.get_delete]
  split_ifs <;> rfl

theorem livePostings_touch (t u : T) : (ix.touch t).livePostings u = ix.livePostings u := by
  obtain ⟨cache, htouch⟩ : ∃ cache, ix.touch t = { ix with cache := cache } := by
    rw [TextIndex.touch]
    cases ix.cache.get t <;> split_ifs <;> exact ⟨_, rfl⟩
  have hcached := (h.touch t).cached
  have hbase : (ix.touch t).readBase u = ix.readBase u := by
    rw [TextIndex.readBase, TextIndex.readBase, TextIndex.decoded_eq hcached, TextIndex.decoded_eq h.cached, htouch]
  rw [TextIndex.livePostings, TextIndex.livePostings, hbase, htouch]
  rfl

theorem readTerms (terms : List T) : Indexed slots docs (ix.readTerms terms).2 ∧
    (∀ t, (ix.readTerms terms).2.livePostings t = ix.livePostings t) ∧
      (ix.readTerms terms).1 = terms.map (ix.readTerms terms).2.livePostings := by
  induction terms generalizing ix with
  | nil => exact ⟨h, fun _ => rfl, rfl⟩
  | cons t terms ih =>
    obtain ⟨hafter, hlive, hmaps⟩ := ih (h.touch t)
    have hlive (u : T) : (ix.readTerms (t :: terms)).2.livePostings u = ix.livePostings u :=
      (hlive u).trans (h.livePostings_touch t u)
    exact ⟨hafter, hlive, congrArg₂ _ (hlive t).symm hmaps⟩

theorem run (events : List (TextEvent K T)) :
    ∃ slots', Indexed slots' (events.foldl changed docs) (events.foldl TextIndex.step ix) := by
  induction events generalizing slots docs ix with
  | nil => exact ⟨slots, h⟩
  | cons e events ih =>
    have hstep : ∃ slots', Indexed slots' (changed docs e) (ix.step e) := by
      cases e with
      | add k tokens => exact h.add k tokens
      | remove k => exact h.remove k
      | search tokens => exact ⟨slots, (h.readTerms _).1⟩
    exact hstep.elim fun _ => ih

end

theorem of_build (path : Bool) (cacheTerms : Nat) (docs : JsMap K (List T)) :
    ∃ slots, Indexed slots docs (.build path cacheTerms docs.entries) := by
  let staged (st : Staged K T) : TextIndex K T := { st with path := path, cacheTerms := cacheTerms }
  have hstage (es : List (K × List T)) (hn : (es.map Prod.fst).Nodup) (slots : List (Option (K × List T)))
      (docs : JsMap K (List T)) (st : Staged K T) (h : Indexed slots docs (staged st))
      (hnew : ∀ e ∈ es, docs.get e.1 = none) :
      ∃ slots', Indexed slots' (setAll docs es) (staged (es.foldl (fun st e => st.enter e.1 e.2) st)) := by
    induction es generalizing slots docs st with
    | nil => exact ⟨slots, h⟩
    | cons e es ih =>
      obtain ⟨he, hn⟩ := nodup_cons.mp hn
      obtain ⟨hfirst, hnew⟩ := forall_mem_cons.mp hnew
      apply ih hn _ _ _ (h.enter hfirst e.2)
      intro e' he'
      have hne : e'.1 ≠ e.1 := fun heq => he (heq ▸ mem_map_of_mem he')
      rw [JsMap.get_set_of_ne _ _ hne, hnew e' he']
  have hempty : Indexed [] JsMap.empty (staged {}) :=
    ⟨nofun, rfl, fun _ => rfl, fun _ _ _ => iff_of_false nofun nofun, fun _ => iff_of_false nofun nofun,
      fun _ _ _ => rfl, fun _ => rfl, rfl⟩
  obtain ⟨slots, h⟩ := hstage docs.entries docs.keys_nodup _ _ _ hempty fun _ _ => rfl
  have hdocs (k : K) : docs.get k = (setAll .empty docs.entries).get k :=
    ((get_setAll _ docs.keys_nodup _).trans (Option.or_none ..)).symm
  refine ⟨slots, congr ⟨nofun, h.keys, h.known, h.slot, h.gone, ?_, h.docLen, h.size⟩ hdocs⟩
  intro t i hne
  exact (Option.or_none ..).symm.trans (h.stored t i hne)

theorem live (h : Indexed slots docs ix) (t : T) (i : Nat) :
    (ix.livePostings t).get i = (slots[i]?).join.bind fun e => (counts e.2).get t := by
  rw [TextIndex.get_livePostings h.cached]
  split_ifs with hgone
  · rw [(h.gone i).mp hgone]
    rfl
  · exact h.stored t i (mt (h.gone i).mpr hgone)

theorem has_livePostings (h : Indexed slots docs ix) (t : T) (i : Nat) :
    (ix.livePostings t).has i = (slots[i]?).join.any (t ∈ ·.2) := by
  rw [Bool.eq_iff_iff, JsMap.has_iff, JsMap.mem_keys_iff, h.live]
  cases (slots[i]?).join with
  | none => simp
  | some e => simp [get_counts, count_eq_zero]

theorem entries_perm (h : Indexed slots docs ix) {ids : List Nat} (hn : ids.Nodup) (p : List T → Bool)
    (hmem : ∀ i, i ∈ ids ↔ (slots[i]?).join.any (p ·.2) = true) :
    (ids.filterMap fun i => (slots[i]?).join).Perm (docs.entries.filter (p ·.2)) := by
  have hslot {i k tokens} : (slots[i]?).join = some (k, tokens) ↔
      ix.keyToId.get k = some i ∧ docs.get k = some tokens := by
    rw [Option.join_eq_some_iff, h.slot]
  have hinj : ∀ (i j : Nat) (e : K × List T), e ∈ (slots[i]?).join → e ∈ (slots[j]?).join → i = j := by
    rintro i j ⟨k, tokens⟩ hi hj
    exact Option.some.inj ((hslot.mp hi).1.symm.trans (hslot.mp hj).1)
  apply (perm_ext_iff_of_nodup (hn.filterMap hinj) (docs.keys_nodup.of_map.filter _)).mpr
  rintro ⟨k, tokens⟩
  rw [mem_filterMap, mem_filter, JsMap.mem_entries_iff]
  constructor
  · rintro ⟨i, hi, he⟩
    rw [hmem, he] at hi
    exact ⟨(hslot.mp he).2, hi⟩
  · rintro ⟨hd, hp⟩
    obtain ⟨i, hi⟩ := Option.isSome_iff_exists.mp ((h.known k).trans (congrArg Option.isSome hd))
    have he := hslot.mpr ⟨hi, hd⟩
    exact ⟨i, (hmem i).mpr (he ▸ hp), he⟩

end Indexed

def Meets (op : SearchOp) (p : α → Bool) (l : List α) : Bool :=
  match op with
  | .OR => l.any p
  | .AND => !l.isEmpty && l.all p

theorem mem_candidates (op : SearchOp) (maps : List Postings) (i : Nat) :
    i ∈ TextIndex.candidates op maps ↔ Meets op (·.has i) maps = true := by
  cases op with
  | OR => simp [TextIndex.candidates, Meets, JsMap.mem_keys_ofKeys, JsMap.has]
  | AND =>
    have hfold (rest : List Postings) (found : List Nat) :
        i ∈ rest.foldl (fun found m => found.filter m.has) found ↔ i ∈ found ∧ ∀ m ∈ rest, m.has i = true := by
      induction rest generalizing found with
      | nil => simp
      | cons m rest ih => rw [foldl_cons, ih, mem_filter, forall_mem_cons, and_assoc]
    rw [TextIndex.candidates, Meets, Bool.and_eq_true, all_eq_true]
    split_ifs with hsmall
    · obtain ⟨m, hm, hzero⟩ := any_eq_true.mp hsmall
      have hnone : m.has i = false := by
        simp [JsMap.has, (JsMap.size_eq_zero_iff m).mp (of_decide_eq_true hzero)]
      refine iff_of_false not_mem_nil fun h => ?_
      rw [h.2 m hm] at hnone
      cases hnone
    · have hperm := mergeSort_perm maps fun a b => a.size ≤ b.size
      cases hsorted : maps.mergeSort fun a b => a.size ≤ b.size with
      | nil =>
        rw [hsorted] at hperm
        simp [← hperm.nil_eq]
      | cons first rest =>
        rw [hsorted] at hperm
        have hne : maps ≠ [] := by
          rintro rfl
          cases hperm.eq_nil
        have hall : (∀ m ∈ maps, m.has i = true) ↔ ∀ m ∈ first :: rest, m.has i = true :=
          forall_congr' fun m => imp_congr_left hperm.mem_iff.symm
        rw [hfold, hall, forall_mem_cons, ← decide_eq_true_iff (p := i ∈ first.keys)]
        simp [hne, JsMap.has]

theorem nodup_candidates (op : SearchOp) (maps : List Postings) : (TextIndex.candidates op maps).Nodup := by
  cases op with
  | OR => exact JsMap.keys_nodup _
  | AND =>
    rw [TextIndex.candidates]
    split_ifs
    · exact nodup_nil
    · cases maps.mergeSort fun a b => a.size ≤ b.size with
      | nil => exact nodup_nil
      | cons first rest => exact fold_invariant (fun _ m hn => hn.filter m.has) first.keys_nodup rest

/-! What is asked of the index, by the documents alone. -/

def documentFrequency (docs : JsMap K (List T)) (t : T) : Nat := docs.entries.countP (t ∈ ·.2)

def docScore (docs : JsMap K (List T)) (scoring : Scoring S) (terms tokens : List T) : S :=
  terms.foldl (fun score t =>
    if tokens.count t = 0 then score
    else scoring.add score (scoring.term (tokens.count t) tokens.length (documentFrequency docs t) docs.size))
    scoring.zero

variable [LinearOrder S] in
def found (docs : JsMap K (List T)) (scoring : Scoring S) (op : SearchOp) (terms : List T) : List (SearchHit K S) :=
  (docs.entries.filter fun e => Meets op (· ∈ e.2) terms).filterMap fun e =>
    let score := docScore docs scoring terms e.2
    if scoring.zero < score then some ⟨e.1, score⟩ else none

namespace Indexed

variable {slots : List (Option (K × List T))} {docs : JsMap K (List T)} {ix : TextIndex K T}

theorem size_livePostings (h : Indexed slots docs ix) (t : T) :
    (ix.livePostings t).size = documentFrequency docs t := by
  have hmem (i : Nat) : i ∈ (ix.livePostings t).keys ↔ (slots[i]?).join.any (t ∈ ·.2) = true := by
    rw [← h.has_livePostings, JsMap.has, decide_eq_true_iff]
  have hlength : ((ix.livePostings t).keys.filterMap fun i => (slots[i]?).join).length =
      (ix.livePostings t).keys.length := by
    apply filterMap_length_eq_length.mpr
    intro i hi
    obtain ⟨e, he, -⟩ := (Option.any_eq_true ..).mp ((hmem i).mp hi)
    exact Option.isSome_iff_exists.mpr ⟨e, he⟩
  rw [documentFrequency, countP_eq_length_filter, ← (h.entries_perm (JsMap.keys_nodup _) (t ∈ ·) hmem).length_eq,
    hlength,
    JsMap.keys, length_map]
  rfl

theorem score_eq (h : Indexed slots docs ix) (scoring : Scoring S) (terms : List T) (he : (slots[i]?).join = some e) :
    ix.score scoring (terms.map ix.livePostings) i = docScore docs scoring terms e.2 := by
  have hf (t : T) : ((ix.livePostings t).get i).getD 0 = e.2.count t := by
    rw [h.live, he, Option.bind_some, get_counts]
    split_ifs with hzero
    · exact hzero.symm
    · rfl
  rw [TextIndex.score, docScore, foldl_map]
  simp only [hf, h.docLen, he, Option.bind_some, Option.getD_some, h.size_livePostings, h.size]

variable [LinearOrder S]

theorem hits_perm (h : Indexed slots docs ix) (scoring : Scoring S) (op : SearchOp) (tokens : List T) :
    (ix.hits scoring op tokens).Perm (found docs scoring op (JsMap.ofKeys tokens).keys) := by
  rw [TextIndex.hits]
  generalize (JsMap.ofKeys tokens).keys = terms
  obtain ⟨h, -, hmaps⟩ := h.readTerms terms
  generalize ix.readTerms terms = result at h hmaps ⊢
  obtain ⟨maps, ix⟩ := result
  dsimp only at hmaps h ⊢
  subst hmaps
  have hmem (i : Nat) : i ∈ TextIndex.candidates op (terms.map ix.livePostings) ↔
      (slots[i]?).join.any (fun e => Meets op (· ∈ e.2) terms) = true := by
    have hhas : Meets op (·.has i) (terms.map ix.livePostings) =
        Meets op (fun t => (slots[i]?).join.any (t ∈ ·.2)) terms := by
      cases op <;> simp [Meets, h.has_livePostings, Function.comp_def]
    rw [mem_candidates, hhas]
    cases (slots[i]?).join with
    | some e => exact Iff.rfl
    | none => cases op <;> cases terms <;> simp [Meets]
  have hperm := h.entries_perm (nodup_candidates op _) (fun tokens => Meets op (· ∈ tokens) terms) hmem
  refine Perm.trans (Perm.of_eq ?_) (hperm.filterMap _)
  rw [filterMap_filterMap]
  apply filterMap_congr
  intro i hi
  obtain ⟨⟨k, tokens⟩, he, -⟩ := (Option.any_eq_true ..).mp ((hmem i).mp hi)
  have hkey : (ix.keys[i]?).join = some k := by
    rw [h.keys, getElem?_map, Option.join_eq_some_iff.mp he]
    rfl
  rw [he, h.score_eq scoring terms he, hkey]
  rfl

end Indexed

/-! An index after any additions, removals and searches, beside one built from the documents there are then. -/

namespace TextIndex

def frequency (ix : TextIndex K T) (t : T) (k : K) : Option Nat := (ix.keyToId.get k).bind (ix.livePostings t).get

def docLength (ix : TextIndex K T) (k : K) : Option Nat := (ix.keyToId.get k).bind ix.docLen.get

end TextIndex

theorem Indexed.of_key {slots : List (Option (K × List T))} {docs : JsMap K (List T)} {f : Nat → Option Nat}
    {g : List T → Option Nat} (h : Indexed slots docs ix) (hfg : ∀ i, f i = (slots[i]?).join.bind fun e => g e.2)
    (k : K) : (ix.keyToId.get k).bind f = (docs.get k).bind g := by
  have hknown := h.known k
  cases hd : docs.get k with
  | none =>
    rw [hd, Option.isSome_none, Option.isSome_eq_false_iff, Option.isNone_iff_eq_none] at hknown
    rw [hknown]
    rfl
  | some tokens =>
    rw [hd] at hknown
    obtain ⟨i, hi⟩ := Option.isSome_iff_exists.mp hknown
    rw [hi, Option.bind_some, hfg, (h.slot i k tokens).mpr ⟨hi, hd⟩]
    rfl

variable [LinearOrder S]

omit [DecidableEq K] in
theorem sorted_scores (l : List (SearchHit K S)) :
    ((l.mergeSort fun a b => b.score ≤ a.score).map SearchHit.score).Pairwise (· ≥ ·) := by
  rw [pairwise_map]
  refine (@pairwise_mergeSort _ (fun a b => decide (b.score ≤ a.score)) ?_ ?_ l).imp of_decide_eq_true
  · intro a b c hab hbc
    simpa using le_trans (of_decide_eq_true hbc) (of_decide_eq_true hab)
  · intro a b
    simpa using le_total b.score a.score

theorem run_fresh (path path' : Bool) (cacheTerms cacheTerms' : Nat) (docs : JsMap K (List T))
    (events : List (TextEvent K T)) :
    let ix : TextIndex K T := events.foldl TextIndex.step (.build path cacheTerms docs.entries)
    let fresh : TextIndex K T := .build path' cacheTerms' (events.foldl changed docs).entries
    ix.N = fresh.N ∧ (∀ t, (ix.livePostings t).size = (fresh.livePostings t).size) ∧
      (∀ t k, ix.frequency t k = fresh.frequency t k) ∧ (∀ k, ix.docLength k = fresh.docLength k) ∧
      ∀ (scoring : Scoring S) op tokens limit, (ix.search scoring op limit tokens).map SearchHit.score =
            (fresh.search scoring op limit tokens).map SearchHit.score ∧
          ((ix.hits scoring op tokens).length ≤ limit →
            (ix.search scoring op limit tokens).Perm (fresh.search scoring op limit tokens)) := by
  intro ix fresh
  obtain ⟨_, hbuilt⟩ := Indexed.of_build path cacheTerms docs
  obtain ⟨_, h⟩ : ∃ slots, Indexed slots (events.foldl changed docs) ix := hbuilt.run events
  obtain ⟨_, hfresh⟩ : ∃ slots, Indexed slots (events.foldl changed docs) fresh := Indexed.of_build ..
  refine ⟨h.size.trans hfresh.size.symm, ?_, ?_, ?_, ?_⟩
  · intro t
    exact (h.size_livePostings t).trans (hfresh.size_livePostings t).symm
  · intro t k
    have hlive := hfresh.of_key (g := fun tokens => (counts tokens).get t) (hfresh.live t) k
    exact (h.of_key (h.live t) k).trans hlive.symm
  · intro k
    have hlength := hfresh.of_key (g := fun tokens => some tokens.length) hfresh.docLen k
    exact (h.of_key h.docLen k).trans hlength.symm
  · intro scoring op tokens limit
    have hperm := (h.hits_perm scoring op tokens).trans (hfresh.hits_perm scoring op tokens).symm
    have hsearch := (mergeSort_perm _ fun a b => b.score ≤ a.score).trans
      (hperm.trans (mergeSort_perm _ fun a b => b.score ≤ a.score).symm)
    have hscores := Perm.eq_of_pairwise (fun _ _ _ _ h h' => le_antisymm h' h) (sorted_scores _) (sorted_scores _)
      (hsearch.map SearchHit.score)
    constructor
    · rw [TextIndex.search, TextIndex.search, map_take, map_take, hscores]
    · intro hlimit
      have hlimit' := hperm.length_eq ▸ hlimit
      rw [TextIndex.search, TextIndex.search, take_of_length_le (by rwa [length_mergeSort]),
        take_of_length_le (by rwa [length_mergeSort])]
      exact hsearch

def unitScores : Scoring Nat := ⟨0, (· + ·), fun _ _ _ _ => 1⟩

/-- Of two documents with one score, a cut takes the one with the smaller docID. -/
theorem replaced_cut : ((([.add "a" ["x"]] : List (TextEvent String String)).foldl TextIndex.step
        (.build false 0 [("a", ["x"]), ("b", ["x"])])).search unitScores .OR 1 ["x"]).map SearchHit.key = ["b"] ∧
      ((TextIndex.build false 0 [("a", ["x"]), ("b", ["x"])] : TextIndex String String).search unitScores .OR 1
        ["x"]).map SearchHit.key = ["a"] := by
  constructor
  · rw [TextIndex.search, mergeSort_of_pairwise (by decide +kernel)]
    decide +kernel
  · rw [TextIndex.search, mergeSort_of_pairwise (by decide +kernel)]
    decide +kernel

end Echadron.MiniDb.FullText
