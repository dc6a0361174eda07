import Mathlib.Data.List.Induction
import Echadron.Lib.JsMap

namespace Echadron.Agent
open Lib List Option

/-! Repeated tool calls. -/

/-- What `finalizeResult` adds to a result. -/
inductive Reminder where
  | none
  | r1
  | r2 (repeatCount : Nat)
  | r3
  | stop
deriving DecidableEq

def reminderOf (streak : Nat) : Reminder :=
  if 12 ≤ streak then .stop
  else if 8 ≤ streak then .r3
  else if 5 ≤ streak then .r2 streak
  else if 3 ≤ streak then .r1
  else .none

/-- A result that a call was given, with the streak where the call is an original. -/
structure FinalizedCall (K R : Type) where
  id : String
  key : K
  result : R
  streak : Option Nat
deriving DecidableEq

/-- The service, and what it knows nothing of: the calls of the step with their keys, the keys of the
turn's steps before, and what became of the calls. -/
structure ToolDedupe (K R : Type) [DecidableEq K] where
  stepCalls : List K := []
  stepDeferreds : JsMap K (Option R) := .empty
  originalCallIndex : JsMap String Nat := .empty
  syntheticCallIds : List String := []
  callKeyByCallId : JsMap String K := .empty
  consecutiveKey : Option K := none
  consecutiveCount : Nat := 0
  activeTurnId : Option Nat := none
  calls : List (String × K) := []
  registered : List String := []
  earlier : List K := []
  ended : Bool := false
  waiting : List (String × K) := []
  finalized : List (FinalizedCall K R) := []
  lost : List String := []

inductive DedupeEvent (K R : Type) where
  | beginStep (turnId : Option Nat) (calls : List (String × K))
  | check (id : String)
  | executed (id : String) (result : R)
  | endStep

namespace ToolDedupe

variable {K R : Type} [DecidableEq K] (remind : Reminder → R → R)

/-- One turn of the loops that count a streak. -/
def count (acc : Option K × Nat) (key : K) : Option K × Nat :=
  if acc.1 = some key then (acc.1, acc.2 + 1) else (some key, 1)

section

variable (s : ToolDedupe K R)

/-- A duplicate that still waits is told that its result was lost. -/
def beginStep (turnId : Option Nat) (calls : List (String × K)) : ToolDedupe K R :=
  let next := decide (turnId.isSome ∧ turnId ≠ s.activeTurnId)
  { activeTurnId := if next then turnId else s.activeTurnId
    consecutiveKey := if next then none else s.consecutiveKey
    consecutiveCount := if next then 0 else s.consecutiveCount
    earlier := if next then [] else if s.ended then s.earlier ++ s.calls.map Prod.snd else s.earlier
    calls := calls
    lost := s.lost ++ s.waiting.map Prod.fst }

def endStep : ToolDedupe K R :=
  let counted := s.stepCalls.foldl count (s.consecutiveKey, s.consecutiveCount)
  { s with consecutiveKey := counted.1, consecutiveCount := counted.2, ended := true }

/-- A key that has a deferred result already is a duplicate's. -/
def checkToolCall (id : String) (key : K) : ToolDedupe K R :=
  let existing := s.stepDeferreds.has key
  { s with
    stepCalls := s.stepCalls ++ [key]
    callKeyByCallId := s.callKeyByCallId.set id key
    registered := s.registered ++ [id]
    syntheticCallIds := if existing then s.syntheticCallIds ++ [id] else s.syntheticCallIds
    stepDeferreds := if existing then s.stepDeferreds else s.stepDeferreds.set key none
    originalCallIndex :=
      if existing then s.originalCallIndex else s.originalCallIndex.set id s.stepCalls.length }

def registerSkipped (id : String) (key : K) : ToolDedupe K R :=
  if s.callKeyByCallId.has id then s else s.checkToolCall id key

def give (id : String) (key : K) (result : R) (streak : Option Nat) : ToolDedupe K R :=
  { s with finalized := s.finalized ++ [⟨id, key, result, streak⟩] }

/-- A deferred result is resolved once, for those who wait for it and for those to come. -/
def resolve (key : K) (result : R) : ToolDedupe K R :=
  match s.stepDeferreds.get key with
  | some none =>
    { s with
      stepDeferreds := s.stepDeferreds.set key (some result)
      waiting := s.waiting.filter (·.2 ≠ key)
      finalized := s.finalized ++ (s.waiting.filter (·.2 = key)).map fun w => ⟨w.1, key, result, none⟩ }
  | _ => s

def finalizeResult (id : String) (result : R) : ToolDedupe K R :=
  match s.callKeyByCallId.get id with
  | none => s
  | some key =>
    let s := { s with callKeyByCallId := s.callKeyByCallId.delete id }
    if id ∈ s.syntheticCallIds then
      let s := { s with syntheticCallIds := s.syntheticCallIds.erase id }
      match s.stepDeferreds.get key with
      | none => s.give id key result none
      | some none => { s with waiting := s.waiting ++ [(id, key)] }
      | some (some result) => s.give id key result none
    else
      match s.originalCallIndex.get id with
      | none => s.give id key result none
      | some index =>
        let counted := (s.stepCalls.take (index + 1)).foldl count (s.consecutiveKey, s.consecutiveCount)
        let result := remind (reminderOf counted.2) result
        let s := { s with originalCallIndex := s.originalCallIndex.delete id }
        (s.give id key result (some counted.2)).resolve key result

/-- One step; absent where the event cannot happen. Calls of a step have ids of their own, each is
checked once at most and executed once, and a step ends when all of its calls have their results. -/
def step : DedupeEvent K R → Option (ToolDedupe K R)
  | .beginStep turnId calls => if (calls.map Prod.fst).Nodup then some (s.beginStep turnId calls) else none
  | .check id =>
    if s.ended ∨ id ∈ s.registered then none else (s.calls.lookup id).map fun key => s.checkToolCall id key
  | .executed id result =>
    if s.ended ∨ (id ∈ s.registered ∧ ¬ s.callKeyByCallId.has id) then none
    else (s.calls.lookup id).map fun key => (s.registerSkipped id key).finalizeResult remind id result
  | .endStep =>
    if s.ended ∨ s.waiting ≠ [] ∨ s.callKeyByCallId.keys ≠ [] ∨ s.registered.length ≠ s.calls.length then none
    else some s.endStep

end

def run (events : List (DedupeEvent K R)) : Option (ToolDedupe K R) := events.foldlM (step remind) {}

/-- How many equal keys there are at the end. -/
def runLength (keys : List K) : Nat :=
  match keys.reverse with
  | [] => 0
  | key :: rest => (rest.takeWhile (· = key)).length + 1

/-- The call is registered in its turn, and no duplicate waits when a new step begins. -/
def Calm (s : ToolDedupe K R) : DedupeEvent K R → Prop
  | .beginStep .. => s.waiting = []
  | .check id => (s.calls.map Prod.fst)[s.registered.length]? = some id
  | .executed id _ => id ∈ s.registered ∨ (s.calls.map Prod.fst)[s.registered.length]? = some id
  | .endStep => True

/-- A call of the step, and the calls before it. -/
def At (s : ToolDedupe K R) (call : String × K) (before : List (String × K)) : Prop :=
  before ++ [call] <+: s.calls

/-- What the calls of a step are promised. -/
structure Deduped (s : ToolDedupe K R) : Prop where
  original : ∀ f ∈ s.finalized, ∀ n, f.streak = some n → ∃ before, s.At (f.id, f.key) before ∧
    f.key ∉ before.map Prod.snd ∧ n = runLength (s.earlier ++ before.map Prod.snd ++ [f.key])
  duplicate : ∀ f ∈ s.finalized, f.streak = none → ∃ o ∈ s.finalized, o.streak.isSome ∧ o.key = f.key ∧
    o.result = f.result ∧ ∃ before, s.At (f.id, f.key) before ∧ f.key ∈ before.map Prod.snd
  answered : ∀ w ∈ s.waiting, ∀ o ∈ s.finalized, o.streak.isSome → o.key ≠ w.2
  kept : s.lost = []

/-- The keys up to the calls of the step, or with them where it has ended. -/
def tally (s : ToolDedupe K R) : List K := if s.ended then s.earlier ++ s.calls.map Prod.snd else s.earlier

structure Tracked (s : ToolDedupe K R) : Prop where
  ids : (s.calls.map Prod.fst).Nodup
  registered : s.registered = (s.calls.take s.registered.length).map Prod.fst
  stepCalls : s.stepCalls = (s.calls.take s.registered.length).map Prod.snd
  counted : (s.consecutiveKey, s.consecutiveCount) = (s.tally.getLast?, runLength s.tally)
  synthetic : ∀ id ∈ s.syntheticCallIds, id ∈ s.registered
  unfinished : ∀ id key, s.callKeyByCallId.get id = some key → ∃ before, s.At (id, key) before ∧
    before.length < s.registered.length ∧ (key ∈ before.map Prod.snd → id ∈ s.syntheticCallIds) ∧
      (key ∉ before.map Prod.snd → id ∉ s.syntheticCallIds ∧ s.originalCallIndex.get id = some before.length)
  deferred : ∀ key, s.stepDeferreds.get key = none ↔ key ∉ s.stepCalls
  pending : ∀ key, s.stepDeferreds.get key = some none → ∀ o ∈ s.finalized, o.streak.isSome → o.key ≠ key
  resolved : ∀ key r, s.stepDeferreds.get key = some (some r) →
    ∃ o ∈ s.finalized, o.streak.isSome ∧ o.key = key ∧ o.result = r
  waits : ∀ w ∈ s.waiting, s.stepDeferreds.get w.2 = some none ∧ ∃ before, s.At w before ∧ w.2 ∈ before.map Prod.snd
  placed : ∀ f ∈ s.finalized, f.key ∈ s.stepCalls
  deduped : Deduped s

variable {remind} {s s' : ToolDedupe K R}

theorem runLength_concat (keys : List K) (key : K) :
    runLength (keys ++ [key]) = if keys.getLast? = some key then runLength keys + 1 else 1 := by
  rw [runLength, reverse_concat]
  cases keys using reverseRecOn with
  | nil => simp
  | append_singleton keys last =>
    by_cases h : last = key
    · simp [runLength, h]
    · simp [h]

theorem foldl_count (keys : List K) (pre : List K) :
    keys.foldl count (pre.getLast?, runLength pre) = ((pre ++ keys).getLast?, runLength (pre ++ keys)) := by
  induction keys generalizing pre with
  | nil => rw [append_nil, foldl_nil]
  | cons key keys ih =>
    have hstep : count (pre.getLast?, runLength pre) key = ((pre ++ [key]).getLast?, runLength (pre ++ [key])) := by
      rw [count, runLength_concat, getLast?_concat]
      split_ifs <;> simp_all
    rw [foldl_cons, hstep, ih, append_assoc, singleton_append]

namespace Tracked

theorem check {id : String} {key : K} (h : Tracked s) (hat : s.At (id, key) before)
    (hlength : before.length = s.registered.length) : Tracked (s.checkToolCall id key) := by
  obtain ⟨rest, hcalls⟩ := hat
  have htake : s.calls.take s.registered.length = before := by
    rw [← hcalls, ← hlength, append_assoc, take_left]
  have htake' : s.calls.take (s.registered ++ [id]).length = before ++ [(id, key)] := by
    have hlen : (s.registered ++ [id]).length = (before ++ [(id, key)]).length := by simp [hlength]
    rw [hlen, ← hcalls, take_left]
  have hregistered := h.registered
  have hstep := h.stepCalls
  rw [htake] at hregistered hstep
  have hnew : id ∉ s.registered := by
    have hids := h.ids
    rw [← hcalls, map_append, map_append, ← hregistered, append_assoc] at hids
    exact fun hmem => (nodup_append.mp hids).2.2 id hmem id (by simp) rfl
  have hnot : id ∉ s.syntheticCallIds := fun hmem => hnew (h.synthetic id hmem)
  have hthis : before.length < (s.registered ++ [id]).length := by simp [hlength]
  have hkeys : key ∈ s.stepCalls ↔ s.stepDeferreds.has key = true := by
    rw [JsMap.has_iff, ← not_iff_not, ← h.deferred key, JsMap.get_eq_none_iff]
  have hget : ∀ key', (s.checkToolCall id key).stepDeferreds.get key' =
      if key' = key ∧ key ∉ s.stepCalls then some none else s.stepDeferreds.get key' := by
    intro key'
    simp only [checkToolCall, hkeys]
    split_ifs <;> simp_all [JsMap.get_set]
  constructor
  · exact h.ids
  · show s.registered ++ [id] = (s.calls.take (s.registered ++ [id]).length).map Prod.fst
    rw [htake', map_append, ← hregistered, map_singleton]
  · show s.stepCalls ++ [key] = (s.calls.take (s.registered ++ [id]).length).map Prod.snd
    rw [htake', map_append, ← hstep, map_singleton]
  · exact h.counted
  · intro id' hmem
    simp only [checkToolCall] at hmem ⊢
    split_ifs at hmem
    · exact (mem_append.mp hmem).elim (fun hmem => mem_append_left _ (h.synthetic id' hmem)) (mem_append_right _)
    · exact mem_append_left _ (h.synthetic id' hmem)
  · intro id' key' hget
    simp only [checkToolCall, JsMap.get_set] at hget ⊢
    split_ifs at hget with hid
    · cases hget
      subst hid
      refine ⟨before, ⟨rest, hcalls⟩, hthis, ?_, ?_⟩
      · intro hmem
        rw [if_pos (hkeys.mp (hstep ▸ hmem))]
        exact mem_concat_self
      · intro hnone
        have hnew := mt hkeys.mpr (hstep ▸ hnone)
        rw [if_neg hnew, if_neg hnew, JsMap.get_set, if_pos rfl, hstep, length_map]
        exact ⟨hnot, rfl⟩
    · obtain ⟨before', hat, hlt, hdup, horig⟩ := h.unfinished id' key' hget
      refine ⟨before', hat, by rw [length_append]; omega, ?_, ?_⟩
      · intro hmem
        split_ifs
        · exact mem_append_left _ (hdup hmem)
        · exact hdup hmem
      · intro hnone
        obtain ⟨hsyn, hindex⟩ := horig hnone
        split_ifs
        · exact ⟨by simp [hsyn, hid], hindex⟩
        · exact ⟨hsyn, by rw [JsMap.get_set_of_ne _ _ hid, hindex]⟩
  · intro key'
    rw [hget]
    show _ ↔ key' ∉ s.stepCalls ++ [key]
    rw [mem_snoc, not_or, ← h.deferred key']
    split_ifs with hkey
    · simp [hkey.1]
    · refine ⟨fun hnone => ⟨hnone, fun he => ?_⟩, And.left⟩
      exact hkey ⟨he, he ▸ (h.deferred key').mp hnone⟩
  · intro key' hnone o ho hsome
    rw [hget] at hnone
    split_ifs at hnone with hkey
    · rintro rfl
      exact hkey.2 (hkey.1 ▸ h.placed o ho)
    · exact h.pending key' hnone o ho hsome
  · intro key' r hsome
    rw [hget] at hsome
    split_ifs at hsome
    · cases hsome
    · exact h.resolved key' r hsome
  · intro w hw
    obtain ⟨hnone, hplace⟩ := h.waits w hw
    refine ⟨?_, hplace⟩
    rw [hget]
    split_ifs
    · rfl
    · exact hnone
  · exact fun f hf => mem_append_left _ (h.placed f hf)
  · exact ⟨h.deduped.original, h.deduped.duplicate, h.deduped.answered, h.deduped.kept⟩

/-- The streak at an original. -/
theorem streak {id : String} {key : K} (h : Tracked s) (hended : s.ended = false) (hat : s.At (id, key) before)
    (hlength : before.length < s.registered.length) :
    ((s.stepCalls.take (before.length + 1)).foldl count (s.consecutiveKey, s.consecutiveCount)).2 =
      runLength (s.earlier ++ before.map Prod.snd ++ [key]) := by
  obtain ⟨rest, hcalls⟩ := hat
  have htally : s.tally = s.earlier := by simp [tally, hended]
  have htake : s.stepCalls.take (before.length + 1) = before.map Prod.snd ++ [key] := by
    have hlen : before.length + 1 = (before ++ [(id, key)]).length := by simp
    rw [h.stepCalls, ← map_take, take_take, Nat.min_eq_left (Nat.succ_le_of_lt hlength), ← hcalls]
    exact congrArg (map Prod.snd) (hlen ▸ take_left) |>.trans map_append
  rw [htake, h.counted, htally, foldl_count, append_assoc]

/-- A call is no longer looked for. -/
theorem forget (h : Tracked s) (id : String) (ids : List String) (index : JsMap String Nat)
    (hmem : ∀ id' ≠ id, id' ∈ ids ↔ id' ∈ s.syntheticCallIds) (hsub : ∀ id' ∈ ids, id' ∈ s.syntheticCallIds)
    (hget : ∀ id' ≠ id, index.get id' = s.originalCallIndex.get id') :
    Tracked { s with
      callKeyByCallId := s.callKeyByCallId.delete id
      syntheticCallIds := ids
      originalCallIndex := index } := by
  refine { h with synthetic := fun id' hid => h.synthetic id' (hsub id' hid), unfinished := ?_, deduped := ⟨h.deduped.original, h.deduped.duplicate, h.deduped.answered, h.deduped.kept⟩ }
  intro id' key' hkey
  rw [JsMap.get_delete] at hkey
  split_ifs at hkey with hid
  obtain ⟨before, hat, hlt, hdup, horig⟩ := h.unfinished id' key' hkey
  rw [hmem id' hid, hget id' hid]
  exact ⟨before, hat, hlt, hdup, horig⟩

/-- Calls are given results, and others begin to wait. -/
theorem log (h : Tracked s) (deferreds : JsMap K (Option R)) (waiting : List (String × K))
    (more : List (FinalizedCall K R))
    (hdeferred : ∀ key, deferreds.get key = none ↔ s.stepDeferreds.get key = none)
    (hplaced : ∀ f ∈ more, f.key ∈ s.stepCalls)
    (hpending : ∀ key, deferreds.get key = some none → s.stepDeferreds.get key = some none ∧
      ∀ o ∈ more, o.streak.isSome → o.key ≠ key)
    (hresolved : ∀ key r, deferreds.get key = some (some r) → s.stepDeferreds.get key = some (some r) ∨
      ∃ o ∈ more, o.streak.isSome ∧ o.key = key ∧ o.result = r)
    (hwaits : ∀ w ∈ waiting, deferreds.get w.2 = some none ∧ ∃ before, s.At w before ∧ w.2 ∈ before.map Prod.snd)
    (horiginal : ∀ f ∈ more, ∀ n, f.streak = some n → ∃ before, s.At (f.id, f.key) before ∧
      f.key ∉ before.map Prod.snd ∧ n = runLength (s.earlier ++ before.map Prod.snd ++ [f.key]))
    (hduplicate : ∀ f ∈ more, f.streak = none → (∃ o ∈ s.finalized ++ more, o.streak.isSome ∧ o.key = f.key ∧
      o.result = f.result) ∧ ∃ before, s.At (f.id, f.key) before ∧ f.key ∈ before.map Prod.snd) :
    Tracked { s with
      stepDeferreds := deferreds
      waiting := waiting
      finalized := s.finalized ++ more } := by
  have hall : ∀ key, deferreds.get key = some none → ∀ o ∈ s.finalized ++ more, o.streak.isSome → o.key ≠ key := by
    intro key hnone o ho hsome
    obtain ⟨hold, hnew⟩ := hpending key hnone
    exact (mem_append.mp ho).elim (fun ho => h.pending key hold o ho hsome) (fun ho => hnew o ho hsome)
  refine ⟨h.ids, h.registered, h.stepCalls, h.counted, h.synthetic, h.unfinished,
    fun key => (hdeferred key).trans (h.deferred key), hall, ?_, hwaits,
    fun f hf => (mem_append.mp hf).elim (h.placed f) (hplaced f), ?_, ?_,
    fun w hw o ho hsome => hall w.2 (hwaits w hw).1 o ho hsome, h.deduped.kept⟩
  · intro key r hsome
    rcases hresolved key r hsome with hold | ⟨o, ho, hrest⟩
    · obtain ⟨o, ho, hrest⟩ := h.resolved key r hold
      exact ⟨o, mem_append_left _ ho, hrest⟩
    · exact ⟨o, mem_append_right _ ho, hrest⟩
  · exact fun f hf => (mem_append.mp hf).elim (h.deduped.original f) (horiginal f)
  · intro f hf hnone
    rcases mem_append.mp hf with hf | hf
    · obtain ⟨o, ho, hrest⟩ := h.deduped.duplicate f hf hnone
      exact ⟨o, mem_append_left _ ho, hrest⟩
    · obtain ⟨⟨o, ho, horig, hkey, hresult⟩, hplace⟩ := hduplicate f hf hnone
      exact ⟨o, ho, horig, hkey, hresult, hplace⟩

theorem finalize (h : Tracked s) (hended : s.ended = false) (id : String) (result : R) :
    Tracked (s.finalizeResult remind id result) := by
  rw [finalizeResult]
  cases hget : s.callKeyByCallId.get id with
  | none => exact h
  | some key =>
    obtain ⟨before, hat, hlt, hdup, horig⟩ := h.unfinished id key hget
    have hkey : key ∈ s.stepCalls := by
      have hmem : (id, key) ∈ s.calls.take s.registered.length := by
        have hprefix := prefix_take_iff.mpr ⟨hat, by simpa using Nat.succ_le_of_lt hlt⟩
        exact hprefix.subset (by simp)
      rw [h.stepCalls]
      exact mem_map.mpr ⟨_, hmem, rfl⟩
    by_cases hin : key ∈ before.map Prod.snd
    · have hforget := h.forget id (s.syntheticCallIds.erase id) s.originalCallIndex
        (fun id' hid => mem_erase_of_ne hid) (fun _ => mem_of_mem_erase) fun _ _ => rfl
      simp only [if_pos (hdup hin)]
      cases hdeferred : s.stepDeferreds.get key with
      | none => exact absurd hkey ((h.deferred key).mp hdeferred)
      | some resolved =>
        cases resolved with
        | none =>
          have hwaits : ∀ w ∈ s.waiting ++ [(id, key)], s.stepDeferreds.get w.2 = some none ∧
              ∃ before, s.At w before ∧ w.2 ∈ before.map Prod.snd :=
            forall_mem_append.mpr ⟨h.waits, forall_mem_singleton.mpr ⟨hdeferred, before, hat, hin⟩⟩
          have hlog := hforget.log s.stepDeferreds _ [] (fun _ => Iff.rfl) nofun
            (fun _ hnone => ⟨hnone, nofun⟩) (fun _ _ => .inl) hwaits nofun nofun
          rwa [append_nil] at hlog
        | some r =>
          obtain ⟨o, ho, hresolved⟩ := h.resolved key r hdeferred
          exact hforget.log s.stepDeferreds s.waiting [⟨id, key, r, none⟩] (fun _ => Iff.rfl)
            (forall_mem_singleton.mpr hkey) (fun _ hnone => ⟨hnone, by simp⟩) (fun _ _ => .inl) h.waits (by simp)
            (forall_mem_singleton.mpr fun _ => ⟨⟨o, mem_append_left _ ho, hresolved⟩, before, hat, hin⟩)
    · obtain ⟨hnot, hindex⟩ := horig hin
      have hforget := h.forget id s.syntheticCallIds (s.originalCallIndex.delete id) (fun _ _ => Iff.rfl)
        (fun _ hmem => hmem) fun id' hid => JsMap.get_delete_of_ne s.originalCallIndex hid
      simp only [if_neg hnot, hindex, h.streak hended hat hlt]
      generalize remind _ result = r
      obtain ⟨n, hn⟩ : ∃ n, n = runLength (s.earlier ++ before.map Prod.snd ++ [key]) := ⟨_, rfl⟩
      have horiginal : ∀ m, some n = some m → ∃ before, s.At (id, key) before ∧ key ∉ before.map Prod.snd ∧
          m = runLength (s.earlier ++ before.map Prod.snd ++ [key]) := by
        rintro m ⟨⟩
        exact ⟨before, hat, hin, hn⟩
      rw [← hn, resolve]
      dsimp only [give]
      cases hdeferred : s.stepDeferreds.get key with
      | none => exact absurd hkey ((h.deferred key).mp hdeferred)
      | some resolved =>
        cases resolved with
        | none =>
          have hlog := hforget.log (s.stepDeferreds.set key (some r)) (s.waiting.filter (·.2 ≠ key))
          simp only [append_assoc, singleton_append]
          apply hlog
          · intro key'
            rw [JsMap.get_set]
            split_ifs with he
            · simp [he, hdeferred]
            · rfl
          · simpa using ⟨hkey, fun _ _ => hkey⟩
          · intro key' hnone
            rw [JsMap.get_set] at hnone
            split_ifs at hnone with he
            · cases hnone
            · exact ⟨hnone, by simp [Ne.symm he]⟩
          · intro key' r' hsome
            rw [JsMap.get_set] at hsome
            split_ifs at hsome with he
            · cases hsome
              exact .inr ⟨_, mem_cons_self, rfl, he.symm, rfl⟩
            · exact .inl hsome
          · intro w hw
            obtain ⟨hw, hne⟩ := mem_filter.mp hw
            rw [JsMap.get_set_of_ne _ _ (of_decide_eq_true hne)]
            exact h.waits w hw
          · intro f hf m hm
            rcases mem_cons.mp hf with rfl | hf
            · exact horiginal m hm
            · obtain ⟨w, _, rfl⟩ := mem_map.mp hf
              cases hm
          · intro f hf hnone
            rcases mem_cons.mp hf with rfl | hf
            · cases hnone
            · obtain ⟨w, hw, rfl⟩ := mem_map.mp hf
              have hkey : w.2 = key := of_decide_eq_true (mem_filter.mp hw).2
              refine ⟨⟨_, mem_append_right _ mem_cons_self, rfl, rfl, rfl⟩, ?_⟩
              exact hkey ▸ (h.waits w (mem_filter.mp hw).1).2
        | some r' =>
          exact hforget.log s.stepDeferreds s.waiting [⟨id, key, r, some n⟩] (fun _ => Iff.rfl)
            (forall_mem_singleton.mpr hkey) (fun key' hnone => ⟨hnone, by rintro o ho _ rfl; simp_all⟩)
            (fun _ _ => .inl) h.waits (forall_mem_singleton.mpr horiginal) (by simp)

theorem place {id : String} (h : Tracked s) (hlookup : s.calls.lookup id = some key)
    (hturn : (s.calls.map Prod.fst)[s.registered.length]? = some id) :
    s.At (id, key) (s.calls.take s.registered.length) ∧
      (s.calls.take s.registered.length).length = s.registered.length := by
  rw [getElem?_map, map_eq_some_iff] at hturn
  obtain ⟨⟨id', key'⟩, hcall, rfl⟩ := hturn
  have hlt := getElem?_lt hcall
  have hkey := (JsMap.lookup_eq_some_iff_mem h.ids _ _).mpr (mem_of_getElem? hcall)
  obtain rfl := mem_unique hkey hlookup
  refine ⟨?_, length_take_of_le (Nat.le_of_lt hlt)⟩
  have htake : s.calls.take s.registered.length ++ [(id', key')] = s.calls.take (s.registered.length + 1) := by
    rw [take_add_one, hcall, toList_some]
  rw [At, htake]
  exact take_prefix _ _

theorem begin {calls : List (String × K)} (h : Tracked s) (hwaiting : s.waiting = []) (turnId : Option Nat)
    (hids : (calls.map Prod.fst).Nodup) : Tracked (s.beginStep turnId calls) := by
  refine ⟨hids, rfl, rfl, ?_, nofun, nofun, fun key => iff_of_true rfl nofun, nofun, nofun, nofun, nofun, nofun, nofun,
    nofun, by simp [beginStep, hwaiting, h.deduped.kept]⟩
  have hcounted := h.counted
  simp only [tally] at hcounted
  simp only [beginStep, tally, Bool.false_eq_true, if_false]
  split_ifs at hcounted ⊢ <;> simp_all [runLength]

theorem endStep (h : Tracked s) (hended : s.ended = false) (hall : s.registered.length = s.calls.length) :
    Tracked s.endStep := by
  have htally : s.tally = s.earlier := by simp [tally, hended]
  have hcalls : s.stepCalls = s.calls.map Prod.snd := by rw [h.stepCalls, hall, take_length]
  refine { h with counted := ?_, deduped := ⟨h.deduped.original, h.deduped.duplicate, h.deduped.answered, h.deduped.kept⟩ }
  rw [ToolDedupe.endStep, tally, if_pos rfl, h.counted, htally, hcalls, foldl_count]

theorem step (h : Tracked s) (hcalm : Calm s e) (hs : s.step remind e = some s') : Tracked s' := by
  cases e with
  | beginStep turnId calls =>
    obtain ⟨hids, hs⟩ := ite_none_right_eq_some.mp hs
    cases hs
    exact h.begin hcalm turnId hids
  | check id =>
    obtain ⟨hnot, hs⟩ := ite_none_left_eq_some.mp hs
    obtain ⟨key, hlookup, rfl⟩ := map_eq_some_iff.mp hs
    obtain ⟨hat, hlength⟩ := h.place hlookup hcalm
    exact h.check hat hlength
  | executed id result =>
    obtain ⟨hnot, hs⟩ := ite_none_left_eq_some.mp hs
    obtain ⟨key, hlookup, rfl⟩ := map_eq_some_iff.mp hs
    push Not at hnot
    have hended : s.ended = false := by simpa using hnot.1
    rw [registerSkipped]
    split_ifs with hhas
    · exact h.finalize hended id result
    · obtain ⟨hat, hlength⟩ := h.place hlookup (hcalm.resolve_left fun hmem => hhas (hnot.2 hmem))
      exact (h.check hat hlength).finalize hended id result
  | endStep =>
    obtain ⟨hnot, hs⟩ := ite_none_left_eq_some.mp hs
    cases hs
    push Not at hnot
    exact h.endStep (by simpa using hnot.1) hnot.2.2.2

end Tracked

/-- If each call of a step is registered in its turn, and the results of duplicates are there when the
next step begins, the streak at each original is the length of the run of equal keys that ends at it in
the keys of its turn's calls, and each duplicate has the result of its original. -/
theorem run_deduped (remind : Reminder → R → R) (events : List (DedupeEvent K R)) (s : ToolDedupe K R)
    (hrun : run remind events = some s) (hcalm : AlongRun (step remind) Calm {} events) : Deduped s := by
  have hstart : Tracked ({} : ToolDedupe K R) :=
    ⟨.nil, rfl, rfl, rfl, nofun, nofun, fun _ => iff_of_true rfl nofun, nofun, nofun, nofun, nofun, nofun, nofun, nofun,
      rfl⟩
  have htracked : Tracked s := hcalm.invariant (fun _ _ _ h hc hs => h.step hc hs) hstart hrun
  exact htracked.deduped

instance (s : ToolDedupe K R) (e : DedupeEvent K R) : Decidable (Calm s e) :=
  match e with
  | .beginStep .. => inferInstanceAs (Decidable (_ = []))
  | .check _ => inferInstanceAs (Decidable (_ = _))
  | .executed .. => inferInstanceAs (Decidable (_ ∨ _))
  | .endStep => isTrue trivial

/-- The first of two different calls is rejected, and so it is registered when it has its result. -/
def rejectedFirst : List (DedupeEvent String String) :=
  [.beginStep (some 1) [("a", "Read y")], .check "a", .executed "a" "file", .endStep,
    .beginStep (some 1) [("b", "Read x"), ("c", "Read y")], .check "c", .executed "b" "error", .executed "c" "file"]

/-- The second call is taken for a repetition of the step before. -/
theorem rejectedFirst_counted : ∃ s, run (fun _ result => result) rejectedFirst = some s ∧ ¬ Deduped s := by
  obtain ⟨s, hs⟩ : ∃ s, run (fun _ result => result) rejectedFirst = some s := ⟨_, rfl⟩
  refine ⟨s, hs, fun h => ?_⟩
  obtain ⟨hcalls, hearlier, hmem⟩ : s.calls = [("b", "Read x"), ("c", "Read y")] ∧ s.earlier = ["Read y"] ∧
      ⟨"c", "Read y", "file", some 2⟩ ∈ s.finalized := by
    cases hs
    decide +kernel
  obtain ⟨before, ⟨rest, hat⟩, _, hn⟩ := h.original _ hmem 2 rfl
  rw [hcalls] at hat
  rw [hearlier] at hn
  rcases before with _ | ⟨x, _ | ⟨y, before⟩⟩
  · simp at hat
  · obtain ⟨rfl, _⟩ := by simpa using hat
    exact absurd hn (by decide +kernel)
  · simp at hat

/-- Three calls with two of them the same, after a step with that call; the duplicate ends first. -/
def repeatedCalls : List (DedupeEvent String String) :=
  [.beginStep (some 1) [("a", "Read y")], .check "a", .executed "a" "file", .endStep,
    .beginStep (some 1) [("b", "Read y"), ("c", "Read x"), ("d", "Read y")], .check "b", .check "c", .check "d",
    .executed "d" "", .executed "c" "other", .executed "b" "file", .endStep]

theorem repeatedCalls_deduped :
    ∃ s, run (fun _ result => result) repeatedCalls = some s ∧ Deduped s ∧ s.finalized = [⟨"c", "Read x", "other", some 1⟩, ⟨"b", "Read y", "file", some 2⟩, ⟨"d", "Read y", "file", none⟩] := by
  obtain ⟨s, hs⟩ : ∃ s, run (fun _ result => result) repeatedCalls = some s := ⟨_, rfl⟩
  refine ⟨s, hs, run_deduped _ repeatedCalls s hs (by decide +kernel), ?_⟩
  cases hs
  decide +kernel

end ToolDedupe
end Echadron.Agent
