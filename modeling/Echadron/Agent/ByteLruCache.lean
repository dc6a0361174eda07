import Echadron.Lib.JsMap
import Mathlib.Algebra.Ring.Nat
import Mathlib.Data.List.Induction

namespace Echadron.Agent
open Lib List

structure ByteLruCache (K V : Type) where
  maxBytes : Nat
  map : JsMap K V := .empty
  currentBytes : Int := 0

inductive CacheCall (K V : Type) where
  | get (key : K)
  | set (key : K) (value : V)

def CacheCall.key : CacheCall K V → K
  | get key | set key _ => key

namespace ByteLruCache

variable [DecidableEq K] (byteLength : V → Nat) (cache : ByteLruCache K V)

def get (key : K) : ByteLruCache K V :=
  match cache.map.get key with
  | none => cache
  | some value => { cache with map := (cache.map.delete key).set key value }

def evictOldest : ByteLruCache K V :=
  match cache.map.entries with
  | [] => cache
  | (oldest, value) :: _ =>
    { cache with currentBytes := cache.currentBytes - byteLength value, map := cache.map.delete oldest }

/-- The loop of `set`; each turn takes one entry, so the number of entries bounds it. -/
def makeRoom (size : Nat) : Nat → ByteLruCache K V → ByteLruCache K V
  | 0, cache => cache
  | turns + 1, cache =>
    if 0 < cache.map.size ∧ (cache.maxBytes : Int) < cache.currentBytes + size then
      makeRoom size turns (cache.evictOldest byteLength)
    else cache

def remove (key : K) (existing : V) : ByteLruCache K V :=
  { cache with currentBytes := cache.currentBytes - byteLength existing, map := cache.map.delete key }

def put (key : K) (value : V) : ByteLruCache K V :=
  { cache with currentBytes := cache.currentBytes + byteLength value, map := cache.map.set key value }

def set (key : K) (value : V) : ByteLruCache K V :=
  match cache.map.get key with
  | some existing =>
    if cache.maxBytes < byteLength value then cache.remove byteLength key existing
    else (cache.remove byteLength key existing).put byteLength key value
  | none =>
    if cache.maxBytes < byteLength value then cache
    else (makeRoom byteLength (byteLength value) cache.map.size cache).put byteLength key value

def step : CacheCall K V → ByteLruCache K V
  | .get key => cache.get key
  | .set key value => cache.set byteLength key value

def storedBytes : Nat := (cache.map.entries.map fun e => byteLength e.2).sum

/-- No stored value is replaced by one with which the values no longer fit. -/
def Fits : CacheCall K V → Prop
  | .get _ => True
  | .set key value => ∀ existing ∈ cache.map.get key, byteLength value ≤ cache.maxBytes →
    cache.currentBytes - byteLength existing + byteLength value ≤ cache.maxBytes

instance (call : CacheCall K V) : Decidable (cache.Fits byteLength call) :=
  match call with
  | .get _ => isTrue trivial
  | .set _ _ => inferInstanceAs (Decidable (∀ existing ∈ _, _ → _))

/-- How many calls ago a key was last named. -/
def callsAgo (key : K) (calls : List (CacheCall K V)) : Nat := (calls.map CacheCall.key).reverse.idxOf key

structure Counted (limit : Nat) : Prop where
  bytes : cache.currentBytes = cache.storedBytes byteLength
  max : cache.maxBytes = limit

variable {byteLength cache}

theorem entries_delete_split {map : JsMap K V} {before after : List (K × V)}
    (h : map.entries = before ++ (key, value) :: after) :
    (map.delete key).entries = before ++ after := by
  have hkeys := map.keys_nodup
  rw [JsMap.keys, h, map_append, map_cons, nodup_middle, nodup_cons, ← map_append] at hkeys
  rw [JsMap.entries_delete, h, filter_append, filter_cons_of_neg (by simp), ← filter_append, filter_eq_self]
  intro e he
  exact decide_eq_true fun hk => hkeys.1 (mem_map.mpr ⟨e, he, hk⟩)

theorem Counted.remove (h : cache.Counted byteLength limit) (hget : cache.map.get key = some existing) :
    (cache.remove byteLength key existing).Counted byteLength limit := by
  obtain ⟨before, after, heq⟩ := append_of_mem ((cache.map.mem_entries_iff key existing).mpr hget)
  refine ⟨?_, h.max⟩
  have hbytes := h.bytes
  rw [storedBytes, heq] at hbytes
  simp [ByteLruCache.remove, storedBytes, entries_delete_split heq] at hbytes ⊢
  omega

theorem Counted.put (h : cache.Counted byteLength limit) (hkey : key ∉ cache.map.keys) (value : V) :
    (cache.put byteLength key value).Counted byteLength limit := by
  refine ⟨?_, h.max⟩
  have hbytes := h.bytes
  simp [ByteLruCache.put, storedBytes, JsMap.entries_set_of_not_mem hkey] at hbytes ⊢
  omega

theorem Counted.makeRoom (h : cache.Counted byteLength limit) (hsize : size ≤ limit)
    (hturns : cache.map.size ≤ turns) :
    (makeRoom byteLength size turns cache).Counted byteLength limit ∧
      (makeRoom byteLength size turns cache).map.keys <:+ cache.map.keys ∧
      (makeRoom byteLength size turns cache).currentBytes + size ≤ limit := by
  induction turns generalizing cache with
  | zero =>
    have hempty : cache.map.entries = [] := length_eq_zero_iff.mp (Nat.eq_zero_of_le_zero hturns)
    refine ⟨h, suffix_refl _, ?_⟩
    have hbytes := h.bytes
    rw [storedBytes, hempty] at hbytes
    rw [makeRoom, hbytes]
    simpa using hsize
  | succ turns ih =>
    rw [makeRoom]
    split
    · rename_i hfull
      cases hentries : cache.map.entries with
      | nil =>
        rw [JsMap.size, hentries] at hfull
        exact absurd hfull.1 (lt_irrefl 0)
      | cons e rest =>
        have hrest : (cache.map.delete e.1).entries = rest := @entries_delete_split _ _ _ e.1 e.2 _ [] _ hentries
        have hremoved := h.remove ((cache.map.mem_entries_iff e.1 e.2).mp (hentries ▸ mem_cons_self))
        have hevict : cache.evictOldest byteLength = cache.remove byteLength e.1 e.2 := by
          rw [evictOldest, hentries]
          rfl
        have hle : (cache.remove byteLength e.1 e.2).map.size ≤ turns := by
          change (cache.map.delete e.1).entries.length ≤ turns
          rw [hrest]
          rw [JsMap.size, hentries] at hturns
          exact Nat.le_of_succ_le_succ hturns
        obtain ⟨hcounted, hsuffix, hfits⟩ := ih hremoved hle
        rw [hevict]
        refine ⟨hcounted, hsuffix.trans ?_, hfits⟩
        change (cache.map.delete e.1).entries.map Prod.fst <:+ cache.map.entries.map Prod.fst
        rw [hrest, hentries]
        exact suffix_cons _ _
    · rename_i hroom
      refine ⟨h, suffix_refl _, ?_⟩
      have hlimit := h.max
      have hbytes := h.bytes
      by_cases hempty : cache.map.entries = []
      · rw [storedBytes, hempty] at hbytes
        rw [hbytes]
        simpa using hsize
      · have hpos : 0 < cache.map.size := length_pos_iff.mpr hempty
        rw [← hlimit]
        exact Int.not_lt.mp fun hlt => hroom ⟨hpos, hlt⟩

/-- What a call leaves of the cache before it stores its value. -/
structure Room (cache : ByteLruCache K V) (byteLength : V → Nat) (limit : Nat) (key : K) (room : ByteLruCache K V) :
    Prop where
  counted : room.Counted byteLength limit
  fresh : key ∉ room.map.keys
  keys : ∃ evicted, cache.map.keys.filter (fun k => k ≠ key) = evicted ++ room.map.keys

theorem Room.of_suffix {room : ByteLruCache K V} (hget : cache.map.get key = none)
    (hcounted : room.Counted byteLength limit) (hsuffix : room.map.keys <:+ cache.map.keys) :
    Room cache byteLength limit key room := by
  have hkey := (cache.map.get_eq_none_iff key).mp hget
  obtain ⟨evicted, hkeys⟩ := hsuffix
  refine ⟨hcounted, fun hmem => hkey (hkeys ▸ mem_append_right _ hmem), evicted, ?_⟩
  rw [hkeys, filter_eq_self]
  intro k hk
  exact decide_eq_true fun heq => hkey (heq ▸ hk)

theorem Room.remove (h : cache.Counted byteLength limit) (hget : cache.map.get key = some existing) :
    Room cache byteLength limit key (cache.remove byteLength key existing) :=
  have hkeys : (cache.remove byteLength key existing).map.keys = _ := JsMap.keys_delete _ _
  ⟨h.remove hget, fun hmem => ((JsMap.mem_keys_delete ..).mp hmem).1 rfl, [], hkeys.symm⟩

theorem step_room (h : cache.Counted byteLength limit) (call : CacheCall K V) :
    ∃ room, Room cache byteLength limit call.key room ∧
      (cache.step byteLength call = room ∨ ∃ value, cache.step byteLength call = room.put byteLength call.key value) ∧
      (cache.currentBytes ≤ limit → cache.Fits byteLength call → (cache.step byteLength call).currentBytes ≤ limit) := by
  cases call with
  | get key =>
    rw [step, get]
    cases hget : cache.map.get key with
    | none => exact ⟨cache, .of_suffix hget h (suffix_refl _), .inl rfl, fun hbound _ => hbound⟩
    | some value =>
      refine ⟨_, .remove h hget, .inr ⟨value, ?_⟩, fun hbound _ => hbound⟩
      rw [put, remove, Int.sub_add_cancel]
      rfl
  | set key value =>
    rw [step, set]
    cases hget : cache.map.get key with
    | none =>
      dsimp only
      split
      · exact ⟨cache, .of_suffix hget h (suffix_refl _), .inl rfl, fun hbound _ => hbound⟩
      · rename_i hsize
        obtain ⟨hcounted, hsuffix, hfits⟩ := h.makeRoom (h.max ▸ Nat.le_of_not_lt hsize) (Nat.le_refl _)
        exact ⟨_, .of_suffix hget hcounted hsuffix, .inr ⟨value, rfl⟩, fun _ _ => hfits⟩
    | some existing =>
      dsimp only
      split
      · refine ⟨_, .remove h hget, .inl rfl, fun hbound _ => ?_⟩
        exact Int.le_trans (Int.sub_le_self _ (Int.natCast_nonneg _)) hbound
      · rename_i hsize
        refine ⟨_, .remove h hget, .inr ⟨value, rfl⟩, fun _ hfits => ?_⟩
        exact h.max ▸ hfits existing hget (Nat.le_of_not_lt hsize)

theorem Counted.step (h : cache.Counted byteLength limit) (call : CacheCall K V) :
    (cache.step byteLength call).Counted byteLength limit := by
  obtain ⟨room, hroom, hstep | ⟨value, hstep⟩, -⟩ := step_room h call
  · exact hstep ▸ hroom.counted
  · exact hstep ▸ hroom.counted.put hroom.fresh value

theorem keys_step (h : cache.Counted byteLength limit) (call : CacheCall K V) :
    ∃ evicted kept, cache.map.keys.filter (fun k => k ≠ call.key) = evicted ++ kept ∧
      ((cache.step byteLength call).map.keys = kept ∨ (cache.step byteLength call).map.keys = kept ++ [call.key]) := by
  obtain ⟨room, hroom, hstep, -⟩ := step_room h call
  obtain ⟨evicted, hkeys⟩ := hroom.keys
  refine ⟨evicted, _, hkeys, ?_⟩
  rcases hstep with hstep | ⟨value, hstep⟩
  · exact .inl (hstep ▸ rfl)
  · exact .inr (hstep ▸ JsMap.keys_set_of_not_mem hroom.fresh value)

theorem callsAgo_concat (key : K) (calls : List (CacheCall K V)) (call : CacheCall K V) :
    callsAgo key (calls ++ [call]) = if key = call.key then 0 else callsAgo key calls + 1 := by
  rw [callsAgo, map_append, reverse_append]
  by_cases hkey : key = call.key
  · simp [hkey]
  · rw [if_neg hkey]
    exact idxOf_cons_ne _ (Ne.symm hkey)

/-- The stored keys are in the order in which they were last named. -/
def Recent (cache : ByteLruCache K V) (calls : List (CacheCall K V)) : Prop :=
  cache.map.keys.Pairwise fun a b => callsAgo b calls < callsAgo a calls

theorem Recent.split (h : cache.Recent calls)
    (hkeys : cache.map.keys.filter (fun k => k ≠ key) = evicted ++ kept) :
    (∀ k ∈ kept, k ≠ key) ∧ (kept.Pairwise fun a b => callsAgo b calls < callsAgo a calls) ∧
      ∀ a ∈ evicted, ∀ b ∈ kept, callsAgo b calls < callsAgo a calls := by
  have hall : (evicted ++ kept).Pairwise fun a b => callsAgo b calls < callsAgo a calls := hkeys ▸ h.filter _
  refine ⟨fun k hk => ?_, (pairwise_append.mp hall).2⟩
  have hmem : k ∈ cache.map.keys.filter (fun k => k ≠ key) := hkeys ▸ mem_append_right _ hk
  exact of_decide_eq_true (mem_filter.mp hmem).2

theorem Recent.step (hrecent : cache.Recent calls) (h : cache.Counted byteLength limit) (call : CacheCall K V) :
    (cache.step byteLength call).Recent (calls ++ [call]) := by
  obtain ⟨evicted, kept, hkeys, hstep⟩ := keys_step h call
  obtain ⟨hother, hkept, -⟩ := hrecent.split hkeys
  have hkept : kept.Pairwise fun a b => callsAgo b (calls ++ [call]) < callsAgo a (calls ++ [call]) := by
    apply hkept.imp_of_mem
    intro a b ha hb hlt
    rw [callsAgo_concat, callsAgo_concat, if_neg (hother a ha), if_neg (hother b hb)]
    exact Nat.succ_lt_succ hlt
  rw [Recent]
  rcases hstep with hstep | hstep
  · rw [hstep]
    exact hkept
  · rw [hstep, pairwise_append]
    refine ⟨hkept, pairwise_singleton _ _, ?_⟩
    intro a ha b hb
    obtain rfl := mem_singleton.mp hb
    rw [callsAgo_concat, callsAgo_concat, if_pos rfl, if_neg (hother a ha)]
    exact Nat.succ_pos _

theorem run_sound (maxBytes : Nat) (calls : List (CacheCall K V)) :
    (calls.foldl (step byteLength) { maxBytes }).Counted byteLength maxBytes ∧
      (calls.foldl (step byteLength) { maxBytes }).Recent calls := by
  induction calls using reverseRecOn with
  | nil => exact ⟨⟨rfl, rfl⟩, Pairwise.nil⟩
  | append_singleton calls call ih =>
    rw [foldl_append]
    exact ⟨ih.1.step call, ih.2.step ih.1 call⟩

theorem run_bounded (maxBytes : Nat) (calls : List (CacheCall K V)) (call : CacheCall K V)
    (hfits : AlongFold (step byteLength) (Fits byteLength) { maxBytes } calls) :
    let cache := calls.foldl (step byteLength) { maxBytes }
    cache.currentBytes = cache.storedBytes byteLength ∧ cache.currentBytes ≤ maxBytes ∧
      ∀ evicted ∈ cache.map.keys, evicted ∉ (cache.step byteLength call).map.keys → evicted ≠ call.key →
        ∀ kept ∈ (cache.step byteLength call).map.keys, kept ≠ call.key → callsAgo kept calls < callsAgo evicted calls := by
  obtain ⟨hcounted, hrecent⟩ := @run_sound K V _ byteLength maxBytes calls
  refine ⟨hcounted.bytes, ?_, ?_⟩
  · have hinv := hfits.invariant
      (I := fun c : ByteLruCache K V => c.Counted byteLength maxBytes ∧ c.currentBytes ≤ maxBytes)
      (fun cache call h hfits => ⟨h.1.step call, (step_room h.1 call).elim fun _ hroom => hroom.2.2 h.2 hfits⟩)
      ⟨⟨rfl, rfl⟩, Int.natCast_nonneg maxBytes⟩
    exact hinv.2
  · intro evicted hevicted hgone hother kept hkept hkey
    obtain ⟨first, rest, hkeys, hstep⟩ := keys_step hcounted call
    obtain ⟨-, -, holder⟩ := hrecent.split hkeys
    have hmem : evicted ∈ first ++ rest := hkeys ▸ mem_filter.mpr ⟨hevicted, decide_eq_true hother⟩
    have hrest {k : K} (hk : k ≠ call.key) :
        k ∈ ((calls.foldl (step byteLength) { maxBytes }).step byteLength call).map.keys ↔ k ∈ rest := by
      rcases hstep with hstep | hstep
      · rw [hstep]
      · rw [hstep, mem_snoc, or_iff_left hk]
    rw [hrest hother] at hgone
    exact holder evicted ((mem_append.mp hmem).resolve_right hgone) kept ((hrest hkey).mp hkept)

/-- Values that are as long as they say. -/
theorem run_bounded_refreshed :
    let calls : List (CacheCall String Nat) := [.set "a" 2, .set "b" 1, .get "a", .set "b" 2]
    let cache := calls.foldl (step id) { maxBytes := 4 }
    cache.currentBytes = cache.storedBytes id ∧ cache.currentBytes ≤ 4 ∧
      ∀ evicted ∈ cache.map.keys, evicted ∉ (cache.step id (.set "c" 1)).map.keys → evicted ≠ "c" →
        ∀ kept ∈ (cache.step id (.set "c" 1)).map.keys, kept ≠ "c" → callsAgo kept calls < callsAgo evicted calls :=
  run_bounded 4 _ (.set "c" 1) (by decide +kernel)

theorem replaced_over : ¬ (([.set "a" 2, .set "b" 2, .set "b" 4] : List (CacheCall String Nat)).foldl (step id)
      { maxBytes := 4 }).currentBytes ≤ 4 := by
  decide +kernel

/-- What the calls leave as the value last set for a key. -/
def lastSet (key : K) (last : Option V) : CacheCall K V → Option V
  | .get _ => last
  | .set k value => if k = key then some value else last

theorem makeRoom_get {turns : Nat} (h : (makeRoom byteLength size turns cache).map.get key = some value) :
    cache.map.get key = some value := by
  induction turns generalizing cache with
  | zero => exact h
  | succ turns ih =>
    rw [makeRoom] at h
    split at h
    · have hevicted := ih h
      rw [evictOldest] at hevicted
      split at hevicted
      · exact hevicted
      · grind [JsMap.get_delete]
    · exact h

theorem get_step (h : (cache.step byteLength call).map.get key = some value)
    (hlast : ∀ v, cache.map.get key = some v → last = some v) : lastSet key last call = some value := by
  cases call with
  | get k =>
    rw [step, get] at h
    split at h
    · exact hlast value h
    · grind [JsMap.get_set, JsMap.get_delete, lastSet]
  | set k v =>
    have hroom {turns : Nat} (h : (makeRoom byteLength (byteLength v) turns cache).map.get key = some value) :=
      makeRoom_get h
    rw [step, set] at h
    grind [JsMap.get_set, JsMap.get_delete, lastSet, put, remove]

/-- A value that the cache holds is the one last set for its key, and a value that fits is held from
when it is set. -/
theorem run_coherent (maxBytes : Nat) (calls : List (CacheCall K V)) (key : K) :
    let cache := calls.foldl (step byteLength) { maxBytes }
    (∀ value, (cache.step byteLength (.set key value)).map.get key =
        if byteLength value ≤ maxBytes then some value else none) ∧
      ∀ value, cache.map.get key = some value → calls.foldl (lastSet key) none = some value := by
  refine ⟨fun value => ?_, ?_⟩
  · have hmax := (@run_sound K V _ byteLength maxBytes calls).1.max
    rw [step, set]
    grind [JsMap.get_set, JsMap.get_delete, put, remove]
  · induction calls using reverseRecOn with
    | nil => exact nofun
    | append_singleton calls call ih =>
      rw [foldl_append, foldl_append]
      exact fun value h => get_step h ih

end ByteLruCache
end Echadron.Agent
