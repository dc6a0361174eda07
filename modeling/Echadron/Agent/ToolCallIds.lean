import Echadron.Agent.Message
import Echadron.Lib.JsMap
import Mathlib.Data.Finset.Card

namespace Echadron.Agent
open Lib List Option

/-- The ids that an agent's calls have, over all of its responses. -/
structure ToolCallIdNormalizer where
  seen : Finset String := ∅
  seeded : Bool := false

/-- The same for one response. It adds to the set of its agent. -/
structure ToolCallIdResponseNormalizer (Index : Type) [DecidableEq Index] where
  seen : Finset String
  assignedByIndex : JsMap Index String := .empty
  occurrencesByRawId : JsMap String (List String) := .empty
  claimed : List String := []
  /-- Every rewrite, oldest first, with the id that it replaces. -/
  remapped : List (String × String) := []

/-- A streamed part that starts a call, or names one again. -/
structure StreamedCall (Index : Type) where
  id : String
  streamIndex : Option Index := none

namespace ToolCallIdNormalizer

def idsOf (message : ContextMessage) : List String :=
  message.toolCalls.map ToolCall.id ++ message.toolCallId.toList

def seedFrom (s : ToolCallIdNormalizer) (messages : List ContextMessage) : ToolCallIdNormalizer :=
  if s.seeded then s
  else { seen := s.seen ∪ (messages.flatMap idsOf).toFinset, seeded := true }

def beginResponse (Index : Type) [DecidableEq Index] (s : ToolCallIdNormalizer) :
    ToolCallIdResponseNormalizer Index :=
  { seen := s.seen }

end ToolCallIdNormalizer

def suffixed (rawId : String) (n : Nat) : String := rawId ++ "__" ++ toString n

theorem suffixed_injective (rawId : String) : Function.Injective (suffixed rawId) := by
  intro m n h
  have htext := congrArg String.toList h
  simp only [suffixed, String.toList_append] at htext
  have hdigits := congrArg (fun ds => Nat.ofDigitChars 10 ds 0) (append_cancel_left htext)
  simpa [Nat.toString_eq_ofList_toDigits] using hdigits

/-- The loop over the suffixes; more than `seen` has members are never tried. -/
def freeSuffix (seen : Finset String) (rawId : String) : (fuel n : Nat) → Nat
  | 0, n => n
  | fuel + 1, n => if suffixed rawId n ∈ seen then freeSuffix seen rawId fuel (n + 1) else n

theorem freeSuffix_spec (seen : Finset String) (rawId : String) (fuel n : Nat) :
    suffixed rawId (freeSuffix seen rawId fuel n) ∉ seen ∨ ∀ i < fuel, suffixed rawId (n + i) ∈ seen := by
  induction fuel generalizing n with
  | zero => exact .inr fun i hi => absurd hi (Nat.not_lt_zero i)
  | succ fuel ih =>
    rw [freeSuffix]
    by_cases hn : suffixed rawId n ∈ seen
    · rw [if_pos hn]
      apply (ih (n + 1)).imp_right
      intro hall i hi
      cases i with
      | zero => exact hn
      | succ i =>
        have hnext := hall i (Nat.lt_of_succ_lt_succ hi)
        rwa [Nat.add_assoc, Nat.add_comm 1 i] at hnext
    · rw [if_neg hn]
      exact .inl hn

theorem freeSuffix_not_mem (seen : Finset String) (rawId : String) (n : Nat) :
    suffixed rawId (freeSuffix seen rawId (seen.card + 1) n) ∉ seen := by
  apply (freeSuffix_spec seen rawId (seen.card + 1) n).resolve_right
  intro hall
  have hsub : (Finset.range (seen.card + 1)).image (fun i => suffixed rawId (n + i)) ⊆ seen := by
    intro id hid
    obtain ⟨i, hi, rfl⟩ := Finset.mem_image.mp hid
    exact hall i (Finset.mem_range.mp hi)
  have hcard := Finset.card_le_card hsub
  rw [Finset.card_image_of_injective _ fun i j h => Nat.add_left_cancel (suffixed_injective rawId h),
    Finset.card_range] at hcard
  exact Nat.not_succ_le_self _ hcard

namespace ToolCallIdResponseNormalizer

variable {Index : Type} [DecidableEq Index]

def claim (r : ToolCallIdResponseNormalizer Index) (rawId : String) (occurrence : Nat) :
    String × ToolCallIdResponseNormalizer Index :=
  if occurrence = 0 ∧ rawId ∉ r.seen then
    (rawId, { r with seen := insert rawId r.seen, claimed := r.claimed ++ [rawId] })
  else
    let candidate := suffixed rawId (freeSuffix r.seen rawId (r.seen.card + 1) (max (occurrence + 1) 2))
    (candidate,
      { r with
        seen := insert candidate r.seen
        claimed := r.claimed ++ [candidate]
        remapped := r.remapped ++ [(rawId, candidate)] })

def remapNewId (r : ToolCallIdResponseNormalizer Index) (rawId : String)
    (streamIndex : Option Index) : String × ToolCallIdResponseNormalizer Index :=
  let occurrences := (r.occurrencesByRawId.get rawId).getD []
  let (assigned, r) := r.claim rawId occurrences.length
  let r := { r with occurrencesByRawId := r.occurrencesByRawId.set rawId (occurrences ++ [assigned]) }
  (assigned,
    match streamIndex with
    | none => r
    | some index => { r with assignedByIndex := r.assignedByIndex.set index assigned })

def remapStreamedId (r : ToolCallIdResponseNormalizer Index) (rawId : String)
    (streamIndex : Option Index) : String × ToolCallIdResponseNormalizer Index :=
  match streamIndex.bind r.assignedByIndex.get with
  | some existing => (existing, r)
  | none => r.remapNewId rawId streamIndex

/-- The loop over the calls, with how often each raw id was passed. -/
def remapCalls (r : ToolCallIdResponseNormalizer Index) (counts : JsMap String Nat) :
    List ToolCall → List ToolCall × ToolCallIdResponseNormalizer Index
  | [] => ([], r)
  | call :: calls =>
    let occurrence := (counts.get call.id).getD 0
    let (assigned, r) :=
      match ((r.occurrencesByRawId.get call.id).getD [])[occurrence]? with
      | some assigned => (assigned, r)
      | none => r.claim call.id occurrence
    let (rest, r) := remapCalls r (counts.set call.id (occurrence + 1)) calls
    ({ call with id := assigned } :: rest, r)

def remapFinalizedCalls (r : ToolCallIdResponseNormalizer Index) (toolCalls : List ToolCall) :
    List ToolCall × ToolCallIdResponseNormalizer Index :=
  r.remapCalls .empty toolCalls

def rollback (r : ToolCallIdResponseNormalizer Index) : Finset String := r.seen \ r.claimed.toFinset

def stream (r : ToolCallIdResponseNormalizer Index) :
    List (StreamedCall Index) → List String × ToolCallIdResponseNormalizer Index
  | [] => ([], r)
  | part :: parts =>
    let (id, r) := r.remapStreamedId part.id part.streamIndex
    let (ids, r) := r.stream parts
    (id :: ids, r)

/-- A claim takes an id that nothing has. -/
structure Claims (r r' : ToolCallIdResponseNormalizer Index) (id : String) : Prop where
  fresh : id ∉ r.seen
  seen : r'.seen = insert id r.seen
  claimed : r'.claimed = r.claimed ++ [id]
  occurrencesByRawId : r'.occurrencesByRawId = r.occurrencesByRawId
  assignedByIndex : r'.assignedByIndex = r.assignedByIndex

theorem claim_spec (r : ToolCallIdResponseNormalizer Index) (rawId : String) (occurrence : Nat) :
    Claims r (r.claim rawId occurrence).2 (r.claim rawId occurrence).1 := by
  rw [claim]
  split
  · rename_i h
    exact ⟨h.2, rfl, rfl, rfl, rfl⟩
  · exact ⟨freeSuffix_not_mem _ _ _, rfl, rfl, rfl, rfl⟩

/-! The calls of a stream, by their raw ids and the ids that they got. A part with an index that was
streamed before names the call that has the index. -/

/-- The parts that start a call. -/
def callsOf (before : List Index) : List (StreamedCall Index × String) → List (String × String)
  | [] => []
  | (part, id) :: trace =>
    match part.streamIndex with
    | none => (part.id, id) :: callsOf before trace
    | some index =>
      if index ∈ before then callsOf before trace
      else (part.id, id) :: callsOf (index :: before) trace

def idsFor (rawId : String) (calls : List (String × String)) : List String :=
  (calls.filter (·.1 = rawId)).map Prod.snd

def IndexIn (before : List Index) (trace : List (StreamedCall Index × String)) (index : Index) : Prop :=
  index ∈ before ∨ ∃ e ∈ trace, e.1.streamIndex = some index

section

variable (before : List Index) (trace : List (StreamedCall Index × String)) (part : StreamedCall Index) (id : String)

theorem callsOf_repeat (hpart : part.streamIndex = some index) (h : IndexIn before trace index) :
    callsOf before (trace ++ [(part, id)]) = callsOf before trace := by
  induction trace generalizing before with
  | nil =>
    have hmem : index ∈ before := h.resolve_right nofun
    simp only [nil_append, callsOf, hpart, if_pos hmem]
  | cons e trace ih =>
    obtain ⟨first, firstId⟩ := e
    have hin : index ∈ before ∨ first.streamIndex = some index ∨ IndexIn [] trace index := by
      rcases h with h | ⟨e, he, hindex⟩
      · exact .inl h
      · rcases mem_cons.mp he with rfl | he
        · exact .inr (.inl hindex)
        · exact .inr (.inr (.inr ⟨e, he, hindex⟩))
    rw [cons_append, callsOf, callsOf]
    cases hfirst : first.streamIndex with
    | none =>
      rw [ih before]
      rcases hin with hin | hin | hin
      · exact .inl hin
      · rw [hfirst] at hin
        cases hin
      · exact .inr (hin.resolve_left not_mem_nil)
    | some index' =>
      dsimp only
      rw [hfirst, some.injEq] at hin
      by_cases hmem : index' ∈ before
      · rw [if_pos hmem, if_pos hmem, ih before]
        rcases hin with hin | rfl | hin
        · exact .inl hin
        · exact .inl hmem
        · exact .inr (hin.resolve_left not_mem_nil)
      · rw [if_neg hmem, if_neg hmem, ih (index' :: before)]
        rcases hin with hin | rfl | hin
        · exact .inl (mem_cons_of_mem _ hin)
        · exact .inl (mem_cons_self ..)
        · exact .inr (hin.resolve_left not_mem_nil)

theorem callsOf_new (h : ∀ index, part.streamIndex = some index → ¬ IndexIn before trace index) :
    callsOf before (trace ++ [(part, id)]) = callsOf before trace ++ [(part.id, id)] := by
  induction trace generalizing before with
  | nil =>
    cases hpart : part.streamIndex with
    | none => simp only [nil_append, callsOf, hpart]
    | some index =>
      have hmem : index ∉ before := fun hmem => h index hpart (.inl hmem)
      simp only [nil_append, callsOf, hpart, if_neg hmem]
  | cons e trace ih =>
    obtain ⟨first, firstId⟩ := e
    have hrest : ∀ index, part.streamIndex = some index → ¬ IndexIn before trace index := by
      rintro index hpart (hin | ⟨e, he, hindex⟩)
      · exact h index hpart (.inl hin)
      · exact h index hpart (.inr ⟨e, mem_cons_of_mem _ he, hindex⟩)
    rw [cons_append, callsOf, callsOf]
    cases hfirst : first.streamIndex with
    | none =>
      rw [ih before hrest]
      rfl
    | some index' =>
      dsimp only
      by_cases hmem : index' ∈ before
      · rw [if_pos hmem, if_pos hmem, ih before hrest]
      · rw [if_neg hmem, if_neg hmem, ih (index' :: before), cons_append]
        rintro index hpart (hin | hin)
        · rcases mem_cons.mp hin with rfl | hin
          · exact h index hpart (.inr ⟨_, mem_cons_self .., hfirst⟩)
          · exact h index hpart (.inl hin)
        · exact hrest index hpart (.inr hin)

end

theorem idsFor_concat (rawId raw id : String) (calls : List (String × String)) :
    idsFor rawId (calls ++ [(raw, id)]) =
      if raw = rawId then idsFor rawId calls ++ [id] else idsFor rawId calls := by
  rw [idsFor, filter_append, map_append]
  by_cases h : raw = rawId
  · have hone : [(raw, id)].filter (·.1 = rawId) = [(raw, id)] := filter_cons_of_pos (decide_eq_true h)
    rw [if_pos h, hone]
    rfl
  · have hnone : [(raw, id)].filter (·.1 = rawId) = [] :=
      filter_cons_of_neg (Bool.eq_false_iff.mp (decide_eq_false h))
    rw [if_neg h, hnone]
    exact append_nil _

/-- What a response keeps of the parts that were streamed, over the set that it found. -/
structure Streaming (base : Finset String) (trace : List (StreamedCall Index × String))
    (r : ToolCallIdResponseNormalizer Index) : Prop where
  seen : r.seen = base ∪ r.claimed.toFinset
  claimed : r.claimed = (callsOf [] trace).map Prod.snd
  nodup : r.claimed.Nodup
  fresh : ∀ id ∈ r.claimed, id ∉ base
  occurrences : ∀ rawId, (r.occurrencesByRawId.get rawId).getD [] = idsFor rawId (callsOf [] trace)
  indexed : ∀ e ∈ trace, ∀ index, e.1.streamIndex = some index → r.assignedByIndex.get index = some e.2
  streamed : ∀ index id, r.assignedByIndex.get index = some id → IndexIn [] trace index

theorem Streaming.begin (s : ToolCallIdNormalizer) : Streaming s.seen [] (s.beginResponse Index) := by
  constructor
  · rw [ToolCallIdNormalizer.beginResponse, toFinset_nil, Finset.union_empty]
  · rfl
  · exact nodup_nil
  · exact nofun
  · exact fun _ => rfl
  · exact nofun
  · intro index id h
    cases h

theorem Streaming.remapNewId
    (h : Streaming base trace r) (part : StreamedCall Index)
    (hnew : ∀ index, part.streamIndex = some index → ¬ IndexIn [] trace index) :
    Streaming base (trace ++ [(part, (r.remapNewId part.id part.streamIndex).1)])
      (r.remapNewId part.id part.streamIndex).2 := by
  have hc := claim_spec r part.id ((r.occurrencesByRawId.get part.id).getD []).length
  let id := (r.claim part.id ((r.occurrencesByRawId.get part.id).getD []).length).1
  let r' := (r.claim part.id ((r.occurrencesByRawId.get part.id).getD []).length).2
  have hid : (r.remapNewId part.id part.streamIndex).1 = id := rfl
  have hcalls := callsOf_new [] trace part id hnew
  have hseen : (r.remapNewId part.id part.streamIndex).2.seen = r'.seen := by
    cases part.streamIndex <;> rfl
  have hclaimed : (r.remapNewId part.id part.streamIndex).2.claimed = r'.claimed := by
    cases part.streamIndex <;> rfl
  have hoccurrences : (r.remapNewId part.id part.streamIndex).2.occurrencesByRawId =
      r'.occurrencesByRawId.set part.id ((r.occurrencesByRawId.get part.id).getD [] ++ [id]) := by
    cases part.streamIndex <;> rfl
  have hindexed : ∀ index, (r.remapNewId part.id part.streamIndex).2.assignedByIndex.get index =
      if part.streamIndex = some index then some id else r.assignedByIndex.get index := by
    intro index
    rw [ToolCallIdResponseNormalizer.remapNewId]
    cases part.streamIndex with
    | none =>
      have hold := congrArg (JsMap.get · index) hc.assignedByIndex
      exact hold.trans (if_neg nofun).symm
    | some index' =>
      refine (JsMap.get_set ..).trans ?_
      by_cases hi : index = index'
      · rw [if_pos hi, if_pos (congrArg some hi.symm)]
      · rw [if_neg hi, if_neg fun he => hi (some.inj he).symm]
        exact congrArg (JsMap.get · index) hc.assignedByIndex
  rw [hid]
  have hnotin : id ∉ base ∪ r.claimed.toFinset := by
    rw [← h.seen]
    exact hc.fresh
  rw [Finset.mem_union, List.mem_toFinset, not_or] at hnotin
  constructor
  · rw [hseen, hclaimed, hc.seen, hc.claimed, h.seen, toFinset_append, toFinset_cons,
      toFinset_nil, ← Finset.union_assoc, Finset.insert_eq, Finset.union_comm]
    rfl
  · rw [hclaimed, hc.claimed, hcalls, h.claimed, map_append]
    rfl
  · rw [hclaimed, hc.claimed]
    refine nodup_append.mpr ⟨h.nodup, nodup_singleton _, ?_⟩
    intro a ha b hb he
    rw [he, mem_singleton.mp hb] at ha
    exact hnotin.2 ha
  · intro a ha
    rw [hclaimed, hc.claimed] at ha
    rcases mem_snoc.mp ha with ha | ha
    · exact h.fresh a ha
    · rw [ha]
      exact hnotin.1
  · intro rawId
    rw [hoccurrences, hcalls, JsMap.get_set, idsFor_concat]
    by_cases hraw : rawId = part.id
    · rw [if_pos hraw, if_pos hraw.symm, getD_some, h.occurrences, hraw]
    · rw [if_neg hraw, if_neg fun he => hraw he.symm, hc.occurrencesByRawId]
      exact h.occurrences rawId
  · intro e he index hindex
    rw [hindexed]
    rcases mem_snoc.mp he with he | he
    · rw [if_neg fun hpart => hnew index hpart (.inr ⟨e, he, hindex⟩)]
      exact h.indexed e he index hindex
    · rw [he] at hindex ⊢
      exact if_pos hindex
  · intro index a ha
    rw [hindexed] at ha
    split at ha
    · rename_i hpart
      exact .inr ⟨_, mem_concat_self, hpart⟩
    · obtain ⟨e, he, hindex⟩ := (h.streamed index a ha).resolve_left not_mem_nil
      exact .inr ⟨e, mem_append_left _ he, hindex⟩

theorem Streaming.remapStreamedId
    (h : Streaming base trace r) (part : StreamedCall Index) :
    Streaming base (trace ++ [(part, (r.remapStreamedId part.id part.streamIndex).1)])
      (r.remapStreamedId part.id part.streamIndex).2 := by
  rw [ToolCallIdResponseNormalizer.remapStreamedId]
  cases hget : part.streamIndex.bind r.assignedByIndex.get with
  | none =>
    apply h.remapNewId part
    rintro index hpart hin
    obtain ⟨e, he, hindex⟩ := hin.resolve_left not_mem_nil
    rw [hpart, bind_some, h.indexed e he index hindex] at hget
    cases hget
  | some existing =>
    obtain ⟨index, hpart, hget⟩ := bind_eq_some_iff.mp hget
    have hin := h.streamed index existing hget
    have hcalls := callsOf_repeat [] trace part existing hpart hin
    exact { h with
      claimed := h.claimed.trans (congrArg (map Prod.snd) hcalls.symm)
      occurrences := fun rawId => (h.occurrences rawId).trans (congrArg (idsFor rawId) hcalls.symm)
      indexed := by
        intro e he index' hindex
        rcases mem_snoc.mp he with he | he
        · exact h.indexed e he index' hindex
        · rw [he] at hindex ⊢
          obtain rfl := mem_unique hpart hindex
          exact hget
      streamed := by
        intro index' id hget'
        obtain ⟨e, he, hindex⟩ := (h.streamed index' id hget').resolve_left not_mem_nil
        exact .inr ⟨e, mem_append_left _ he, hindex⟩ }

theorem Streaming.stream
    (h : Streaming base trace r) (parts : List (StreamedCall Index)) :
    Streaming base (trace ++ parts.zip (r.stream parts).1) (r.stream parts).2 := by
  induction parts generalizing trace r with
  | nil =>
    rw [zip_nil_left, append_nil]
    exact h
  | cons part parts ih =>
    have hnext := ih (h.remapStreamedId part)
    rw [append_assoc] at hnext
    exact hnext

/-- What the loop keeps. `out` has the raw ids and the ids of the calls that it passed. -/
structure Finalizing (base : Finset String) (streamed : List (String × String)) (r : ToolCallIdResponseNormalizer Index)
    (counts : JsMap String Nat) (out : List (String × String)) : Prop where
  occurrences : ∀ rawId, (r.occurrencesByRawId.get rawId).getD [] = idsFor rawId streamed
  base_seen : base ⊆ r.seen
  streamed_fresh : ∀ e ∈ streamed, e.2 ∉ base
  streamed_seen : ∀ e ∈ streamed, e.2 ∈ r.seen
  nodup : (streamed.map Prod.snd).Nodup
  counted : ∀ rawId, (counts.get rawId).getD 0 = (idsFor rawId out).length
  out_nodup : (out.map Prod.snd).Nodup
  out_fresh : ∀ e ∈ out, e.2 ∉ base
  out_seen : ∀ e ∈ out, e.2 ∈ r.seen
  /-- A streamed id is given to a call that has its raw id, and in its turn. -/
  agree : ∀ rawId i id, (idsFor rawId streamed)[i]? = some id → i < (idsFor rawId out).length →
    (idsFor rawId out)[i]? = some id
  given : ∀ e ∈ out, (∃ s ∈ streamed, s.2 = e.2) →
    ∃ i < (idsFor e.1 out).length, (idsFor e.1 streamed)[i]? = some e.2

theorem mem_idsFor (rawId id : String) (calls : List (String × String)) :
    id ∈ idsFor rawId calls ↔ (rawId, id) ∈ calls := by
  rw [idsFor, List.mem_map]
  constructor
  · rintro ⟨⟨raw, id'⟩, he, rfl⟩
    obtain ⟨hmem, hraw⟩ := mem_filter.mp he
    obtain rfl := of_decide_eq_true hraw
    exact hmem
  · intro h
    exact ⟨_, mem_filter.mpr ⟨h, decide_eq_true rfl⟩, rfl⟩

theorem nodup_idsFor (h : (calls.map Prod.snd).Nodup) (rawId : String) : (idsFor rawId calls).Nodup :=
  h.sublist (filter_sublist.map _)

theorem eq_of_id {calls : List (String × String)} {raw raw' id : String} (h : (calls.map Prod.snd).Nodup)
    (ha : (raw, id) ∈ calls) (hb : (raw', id) ∈ calls) : raw = raw' := by
  have heq := inj_on_of_nodup_map h ha hb rfl
  exact congrArg Prod.fst heq

theorem Finalizing.concat
    {r r' : ToolCallIdResponseNormalizer Index} (h : Finalizing base streamed r counts out)
    (rawId id : String)
    (hoccurrences : r'.occurrencesByRawId = r.occurrencesByRawId)
    (hseen : r.seen ⊆ r'.seen) (hbase : id ∉ base) (hid : id ∈ r'.seen)
    (hfresh : id ∉ out.map Prod.snd)
    (hagree : ∀ id', (idsFor rawId streamed)[(idsFor rawId out).length]? = some id' → id = id')
    (hgiven : (∃ s ∈ streamed, s.2 = id) → (idsFor rawId streamed)[(idsFor rawId out).length]? = some id) :
    Finalizing base streamed r' (counts.set rawId ((counts.get rawId).getD 0 + 1))
      (out ++ [(rawId, id)]) where
  occurrences raw := by
    rw [hoccurrences]
    exact h.occurrences raw
  base_seen := h.base_seen.trans hseen
  streamed_fresh := h.streamed_fresh
  streamed_seen e he := hseen (h.streamed_seen e he)
  nodup := h.nodup
  counted raw := by
    rw [JsMap.get_set, idsFor_concat]
    by_cases hraw : raw = rawId
    · rw [if_pos hraw, if_pos hraw.symm, h.counted, hraw, length_append]
      rfl
    · rw [if_neg hraw, if_neg fun he => hraw he.symm]
      exact h.counted raw
  out_nodup := by
    rw [map_append]
    refine nodup_append.mpr ⟨h.out_nodup, nodup_singleton _, ?_⟩
    intro a ha b hb he
    rw [he, mem_singleton.mp hb] at ha
    exact hfresh ha
  out_fresh e he := by
    rcases mem_snoc.mp he with he | he
    · exact h.out_fresh e he
    · rw [he]
      exact hbase
  out_seen e he := by
    rcases mem_snoc.mp he with he | he
    · exact hseen (h.out_seen e he)
    · rw [he]
      exact hid
  agree raw i a ha hi := by
    rw [idsFor_concat] at hi ⊢
    by_cases hraw : rawId = raw
    · rw [if_pos hraw] at hi ⊢
      rw [length_append] at hi
      rcases Nat.lt_succ_iff_lt_or_eq.mp hi with hlt | rfl
      · rw [getElem?_append_left hlt]
        exact h.agree raw i a ha hlt
      · rw [← hraw] at ha ⊢
        rw [getElem?_concat_length]
        exact congrArg some (hagree a ha)
    · rw [if_neg hraw] at hi ⊢
      exact h.agree raw i a ha hi
  given e he hs := by
    rw [idsFor_concat]
    rcases mem_snoc.mp he with he | he
    · obtain ⟨i, hi, hget⟩ := h.given e he hs
      refine ⟨i, ?_, hget⟩
      split
      · rw [length_append]
        exact Nat.lt_add_right _ hi
      · exact hi
    · rw [he] at hs ⊢
      refine ⟨_, ?_, hgiven hs⟩
      rw [if_pos rfl, length_append]
      exact Nat.lt_succ_self _

theorem Finalizing.remapCalls {base : Finset String}
    {r : ToolCallIdResponseNormalizer Index} (h : Finalizing base streamed r counts out)
    (calls : List ToolCall) :
    ∃ counts', Finalizing base streamed (r.remapCalls counts calls).2 counts'
      (out ++ (calls.map ToolCall.id).zip ((r.remapCalls counts calls).1.map ToolCall.id)) := by
  induction calls generalizing r counts out with
  | nil => exact ⟨counts, (append_nil out).symm ▸ h⟩
  | cons call calls ih =>
    rw [ToolCallIdResponseNormalizer.remapCalls]
    cases hget : ((r.occurrencesByRawId.get call.id).getD [])[(counts.get call.id).getD 0]? with
    | some assigned =>
      rw [h.occurrences, h.counted] at hget
      have hmem : (call.id, assigned) ∈ streamed := (mem_idsFor ..).mp (mem_of_getElem? hget)
      have hnext := h.concat call.id assigned rfl (Finset.Subset.refl _)
        (h.streamed_fresh _ hmem) (h.streamed_seen _ hmem) (by
          intro hout
          obtain ⟨e, he, heq⟩ := mem_map.mp hout
          obtain ⟨i, hi, hgiven⟩ := h.given e he ⟨_, hmem, heq.symm⟩
          have hfirst : (e.1, assigned) ∈ streamed := heq ▸ (mem_idsFor ..).mp (mem_of_getElem? hgiven)
          have hraw := eq_of_id h.nodup hfirst hmem
          rw [hraw, heq] at hgiven
          rw [hraw] at hi
          have hsame := (nodup_iff_getElem?_ne_getElem?.mp (nodup_idsFor h.nodup call.id)) i
            (idsFor call.id out).length hi (getElem?_lt hget)
          exact hsame (hgiven.trans hget.symm))
        (fun id' hid' => mem_unique hget hid') (fun _ => hget)
      obtain ⟨counts', hrest⟩ := ih hnext
      rw [append_assoc] at hrest
      exact ⟨counts', hrest⟩
    | none =>
      rw [h.occurrences, h.counted] at hget
      have hc := claim_spec r call.id ((counts.get call.id).getD 0)
      have hnext := h.concat call.id
        (r.claim call.id ((counts.get call.id).getD 0)).1 hc.occurrencesByRawId
        (hc.seen ▸ Finset.subset_insert ..) (fun hid => hc.fresh (h.base_seen hid))
        (hc.seen ▸ Finset.mem_insert_self ..)
        (by
          intro hout
          obtain ⟨e, he, heq⟩ := mem_map.mp hout
          exact hc.fresh (heq ▸ h.out_seen e he))
        (fun id' hid' => absurd (hget.symm.trans hid') nofun)
        (by
          rintro ⟨e, he, heq⟩
          exact absurd (heq ▸ h.streamed_seen e he) hc.fresh)
      obtain ⟨counts', hrest⟩ := ih hnext
      rw [append_assoc] at hrest
      exact ⟨counts', hrest⟩

theorem Finalizing.begin {r : ToolCallIdResponseNormalizer Index}
    (h : Streaming base trace r) : Finalizing base (callsOf [] trace) r .empty [] := by
  constructor
  · exact h.occurrences
  · rw [h.seen]
    exact Finset.subset_union_left
  · intro e he
    apply h.fresh
    rw [h.claimed]
    exact mem_map_of_mem he
  · intro e he
    rw [h.seen, h.claimed]
    exact Finset.mem_union_right _ (List.mem_toFinset.mpr (mem_map_of_mem he))
  · rw [← h.claimed]
    exact h.nodup
  · exact fun _ => rfl
  · exact nodup_nil
  · exact nofun
  · exact nofun
  · intro rawId i id _ hi
    exact absurd hi (Nat.not_lt_zero i)
  · exact nofun

/-- An attempt that is taken back leaves the ids as it found them. -/
structure Undoable (base : Finset String) (r : ToolCallIdResponseNormalizer Index) : Prop where
  seen : r.seen = base ∪ r.claimed.toFinset
  fresh : ∀ id ∈ r.claimed, id ∉ base

section

variable {r : ToolCallIdResponseNormalizer Index} (h : Undoable base r)
include h

theorem Undoable.rollback : r.rollback = base := by
  rw [ToolCallIdResponseNormalizer.rollback, h.seen, Finset.union_sdiff_right]
  apply Finset.sdiff_eq_self_of_disjoint
  apply Finset.disjoint_left.mpr
  intro id hbase hclaimed
  exact h.fresh id (List.mem_toFinset.mp hclaimed) hbase

theorem Undoable.claim (rawId : String) (occurrence : Nat) : Undoable base (r.claim rawId occurrence).2 := by
  have hc := claim_spec r rawId occurrence
  have hnotin := hc.fresh
  rw [h.seen, Finset.mem_union, not_or] at hnotin
  constructor
  · rw [hc.seen, hc.claimed, h.seen, toFinset_append, ← Finset.union_assoc, Finset.insert_eq, Finset.union_comm]
    rfl
  · intro id hid
    rw [hc.claimed] at hid
    rcases mem_snoc.mp hid with hid | hid
    · exact h.fresh id hid
    · rw [hid]
      exact hnotin.1

theorem Undoable.remapCalls (counts : JsMap String Nat) (calls : List ToolCall) :
    Undoable base (r.remapCalls counts calls).2 := by
  induction calls generalizing r counts with
  | nil => exact h
  | cons call calls ih =>
    rw [remapCalls]
    cases ((r.occurrencesByRawId.get call.id).getD [])[(counts.get call.id).getD 0]? with
    | some assigned => exact ih h _
    | none => exact ih (h.claim ..) _

end

end ToolCallIdResponseNormalizer

open ToolCallIdResponseNormalizer

/-- One try at a request: what it streams, the calls of the finished response if it gets that far,
and whether it fails after all. -/
structure Attempt (Index : Type) where
  parts : List (StreamedCall Index)
  calls : Option (List ToolCall) := none
  failed : Bool := false

/-- The calls of an agent. `history` has the ids that were there before its first request. -/
structure AgentCalls where
  normalizer : ToolCallIdNormalizer := {}
  history : List String := []
  live : List String := []

namespace AgentCalls

variable {Index : Type} [DecidableEq Index]

def seedFrom (s : AgentCalls) (messages : List ContextMessage) : AgentCalls :=
  { s with
    normalizer := s.normalizer.seedFrom messages
    history := if s.normalizer.seeded then s.history
      else messages.flatMap ToolCallIdNormalizer.idsOf }

def respond (s : AgentCalls) (parts : List (StreamedCall Index)) : List String × ToolCallIdResponseNormalizer Index :=
  (s.normalizer.beginResponse Index).stream parts

def withSeen (s : AgentCalls) (seen : Finset String) : AgentCalls :=
  { s with normalizer := { s.normalizer with seen := seen } }

def attempt (s : AgentCalls) (messages : List ContextMessage) (a : Attempt Index) : AgentCalls :=
  let s := s.seedFrom messages
  let r := (s.respond a.parts).2
  match a.calls with
  | none => s.withSeen r.rollback
  | some calls =>
    let (calls, r) := r.remapFinalizedCalls calls
    if a.failed then s.withSeen r.rollback
    else { s.withSeen r.seen with live := s.live ++ calls.map ToolCall.id }

def run (attempts : List (List ContextMessage × Attempt Index)) : AgentCalls :=
  attempts.foldl (fun s a => s.attempt a.1 a.2) {}

structure Sound (s : AgentCalls) : Prop where
  live_nodup : s.live.Nodup
  live_seen : ∀ id ∈ s.live, id ∈ s.normalizer.seen
  history_seen : ∀ id ∈ s.history, id ∈ s.normalizer.seen
  apart : ∀ id ∈ s.live, id ∉ s.history
  unseeded : s.normalizer.seeded = false → s.live = []

variable {s : AgentCalls}

theorem Sound.seedFrom (h : Sound s) (messages : List ContextMessage) : Sound (s.seedFrom messages) := by
  rw [AgentCalls.seedFrom, ToolCallIdNormalizer.seedFrom]
  cases hseeded : s.normalizer.seeded with
  | true => exact h
  | false =>
    have hlive := h.unseeded hseeded
    constructor
    · exact h.live_nodup
    · intro id hid
      rw [hlive] at hid
      cases hid
    · intro id hid
      exact Finset.mem_union_right _ (List.mem_toFinset.mpr hid)
    · intro id hid
      rw [hlive] at hid
      cases hid
    · exact fun _ => hlive

theorem seedFrom_seeded (s : AgentCalls) (messages : List ContextMessage) :
    (s.seedFrom messages).normalizer.seeded = true := by
  rw [seedFrom, ToolCallIdNormalizer.seedFrom]
  cases hseeded : s.normalizer.seeded with
  | true => exact hseeded
  | false => rfl

theorem respond_streaming (s : AgentCalls) (parts : List (StreamedCall Index)) :
    Streaming s.normalizer.seen (parts.zip (s.respond parts).1) (s.respond parts).2 :=
  (Streaming.begin s.normalizer).stream parts

theorem withSeen_rollback {r : ToolCallIdResponseNormalizer Index}
    (h : Undoable s.normalizer.seen r) : s.withSeen r.rollback = s := by
  rw [withSeen, h.rollback]

theorem attempt_failed (s : AgentCalls) (messages : List ContextMessage) (a : Attempt Index)
    (hfailed : a.calls = none ∨ a.failed = true) : s.attempt messages a = s.seedFrom messages := by
  have hstreamed := respond_streaming (s.seedFrom messages) a.parts
  have hundo : Undoable (s.seedFrom messages).normalizer.seen
      ((s.seedFrom messages).respond a.parts).2 := ⟨hstreamed.seen, hstreamed.fresh⟩
  rw [attempt]
  cases hcalls : a.calls with
  | none => exact withSeen_rollback hundo
  | some calls =>
    have hfailed := hfailed.resolve_left (by rw [hcalls]; exact nofun)
    exact (if_pos hfailed).trans (withSeen_rollback (hundo.remapCalls .empty calls))

/-- The ids of a response that follows, of its streamed calls and of its finished ones. -/
structure Stable (s : AgentCalls) (parts : List (StreamedCall Index)) (calls : List ToolCall) : Prop where
  streamed_nodup : (s.live ++ (callsOf [] (parts.zip (s.respond parts).1)).map Prod.snd).Nodup
  streamed_apart : ∀ e ∈ callsOf [] (parts.zip (s.respond parts).1), e.2 ∉ s.history
  /-- A part that names a call again gets its id. -/
  again : ∀ e ∈ parts.zip (s.respond parts).1, ∀ e' ∈ parts.zip (s.respond parts).1,
    ∀ index, e.1.streamIndex = some index → e'.1.streamIndex = some index → e.2 = e'.2
  live_nodup : (s.live ++ ((s.respond parts).2.remapFinalizedCalls calls).1.map ToolCall.id).Nodup
  live_apart : ∀ id ∈ s.live ++ ((s.respond parts).2.remapFinalizedCalls calls).1.map ToolCall.id, id ∉ s.history
  /-- The finished call with a raw id has the id of the streamed one in the same place. -/
  finished : ∀ rawId i id, (idsFor rawId (callsOf [] (parts.zip (s.respond parts).1)))[i]? = some id →
    i < (calls.filter (·.id = rawId)).length →
    (idsFor rawId ((calls.map ToolCall.id).zip
      (((s.respond parts).2.remapFinalizedCalls calls).1.map ToolCall.id)))[i]? = some id

theorem length_remapCalls (r : ToolCallIdResponseNormalizer Index) (counts : JsMap String Nat)
    (calls : List ToolCall) : (r.remapCalls counts calls).1.length = calls.length := by
  induction calls generalizing r counts with
  | nil => rfl
  | cons call calls ih => exact congrArg Nat.succ (ih _ _)

theorem length_idsFor_zip (rawId : String) (calls : List ToolCall) (ids : List String)
    (h : ids.length = calls.length) :
    (idsFor rawId ((calls.map ToolCall.id).zip ids)).length = (calls.filter (·.id = rawId)).length := by
  induction calls generalizing ids with
  | nil => rfl
  | cons call calls ih =>
    cases ids with
    | nil => cases h
    | cons id ids =>
      have hrest := ih ids (Nat.succ.inj h)
      rw [idsFor, length_map] at hrest ⊢
      rw [map_cons, zip_cons_cons]
      by_cases hid : call.id = rawId
      · rw [filter_cons_of_pos (by exact decide_eq_true hid),
          filter_cons_of_pos (by exact decide_eq_true hid), length_cons, hrest,
          length_cons]
      · rw [filter_cons_of_neg (by simpa using hid), filter_cons_of_neg (by simpa using hid), hrest]

theorem ids_remapCalls (r : ToolCallIdResponseNormalizer Index) (counts : JsMap String Nat) (calls : List ToolCall) :
    ((calls.map ToolCall.id).zip ((r.remapCalls counts calls).1.map ToolCall.id)).map Prod.snd =
      (r.remapCalls counts calls).1.map ToolCall.id := by
  apply map_snd_zip
  rw [length_map, length_map, length_remapCalls]

theorem Sound.stable (h : Sound s) (parts : List (StreamedCall Index)) (calls : List ToolCall) :
    Stable s parts calls := by
  have hs := respond_streaming s parts
  obtain ⟨counts, hfinal⟩ := (Finalizing.begin hs).remapCalls calls
  have hlength : (((s.respond parts).2.remapCalls .empty calls).1.map ToolCall.id).length = calls.length := by
    rw [length_map, length_remapCalls]
  have hids := ids_remapCalls (s.respond parts).2 .empty calls
  rw [nil_append] at hfinal
  refine ⟨?_, ?_, ?_, ?_, ?_, ?_⟩
  · rw [← hs.claimed]
    refine nodup_append.mpr ⟨h.live_nodup, hs.nodup, ?_⟩
    intro a ha b hb he
    exact hs.fresh b hb (he ▸ h.live_seen a ha)
  · intro e he hhistory
    apply hs.fresh e.2
    · rw [hs.claimed]
      exact mem_map_of_mem he
    · exact h.history_seen e.2 hhistory
  · intro e he e' he' index hindex hindex'
    exact mem_unique (hs.indexed e he index hindex) (hs.indexed e' he' index hindex')
  · refine nodup_append.mpr ⟨h.live_nodup, hids ▸ hfinal.out_nodup, ?_⟩
    intro a ha b hb he
    rw [remapFinalizedCalls, ← hids] at hb
    obtain ⟨e, hmem, heq⟩ := mem_map.mp hb
    exact hfinal.out_fresh e hmem (heq ▸ he ▸ h.live_seen a ha)
  · intro id hid hhistory
    rcases mem_append.mp hid with hid | hid
    · exact h.apart id hid hhistory
    · rw [remapFinalizedCalls, ← hids] at hid
      obtain ⟨e, hmem, heq⟩ := mem_map.mp hid
      exact hfinal.out_fresh e hmem (heq ▸ h.history_seen id hhistory)
  · intro rawId i id hget hi
    apply hfinal.agree rawId i id hget
    rw [length_idsFor_zip rawId calls _ hlength]
    exact hi

theorem Sound.attempt (h : Sound s) (messages : List ContextMessage) (a : Attempt Index) :
    Sound (s.attempt messages a) := by
  have hseed := h.seedFrom messages
  by_cases hfailed : a.calls = none ∨ a.failed = true
  · rw [attempt_failed s messages a hfailed]
    exact hseed
  · rw [not_or] at hfailed
    obtain ⟨calls, hcalls⟩ := ne_none_iff_exists'.mp hfailed.1
    have hstable := hseed.stable a.parts calls
    have hs := respond_streaming (s.seedFrom messages) a.parts
    have hundo : Undoable (s.seedFrom messages).normalizer.seen
        ((s.seedFrom messages).respond a.parts).2 := ⟨hs.seen, hs.fresh⟩
    have hbase : (s.seedFrom messages).normalizer.seen ⊆
        (((s.seedFrom messages).respond a.parts).2.remapCalls .empty calls).2.seen := by
      rw [(hundo.remapCalls .empty calls).seen]
      exact Finset.subset_union_left
    obtain ⟨counts, hfinal⟩ := (Finalizing.begin hs).remapCalls calls
    have hseen : ∀ id ∈ (((s.seedFrom messages).respond a.parts).2.remapCalls .empty calls).1.map
        ToolCall.id, id ∈ (((s.seedFrom messages).respond a.parts).2.remapCalls .empty calls).2.seen := by
      intro id hid
      rw [← ids_remapCalls] at hid
      obtain ⟨e, he, rfl⟩ := mem_map.mp hid
      exact hfinal.out_seen e he
    have heq : s.attempt messages a =
        { (s.seedFrom messages).withSeen
            (((s.seedFrom messages).respond a.parts).2.remapCalls .empty calls).2.seen with
          live := (s.seedFrom messages).live ++
            (((s.seedFrom messages).respond a.parts).2.remapCalls .empty calls).1.map ToolCall.id } := by
      rw [AgentCalls.attempt, hcalls]
      exact if_neg hfailed.2
    rw [heq]
    constructor
    · exact hstable.live_nodup
    · intro id hid
      rcases mem_append.mp hid with hid | hid
      · exact hbase (hseed.live_seen id hid)
      · exact hseen id hid
    · exact fun id hid => hbase (hseed.history_seen id hid)
    · exact hstable.live_apart
    · intro hunseeded
      exact absurd ((seedFrom_seeded s messages).symm.trans hunseeded) nofun

theorem sound_run (attempts : List (List ContextMessage × Attempt Index)) : Sound (run attempts) := by
  apply fold_invariant (I := Sound)
  · exact fun s a h => h.attempt a.1 a.2
  · exact ⟨nodup_nil, nofun, nofun, nofun, fun _ => rfl⟩

/-- Whatever came before, the ids of a response are new and its finished calls keep the ids that they
were streamed with; and a try that fails leaves nothing behind for the next one. -/
theorem run_stable (attempts : List (List ContextMessage × Attempt Index)) (messages : List ContextMessage) :
    (∀ parts calls, Stable ((run attempts).seedFrom messages) (parts : List (StreamedCall Index)) calls) ∧
      ∀ a : Attempt Index, a.calls = none ∨ a.failed = true →
        ((run attempts).attempt messages a).seedFrom messages = (run attempts).seedFrom messages := by
  constructor
  · exact ((sound_run attempts).seedFrom messages).stable
  · intro a hfailed
    rw [attempt_failed _ messages a hfailed]
    have hseeded := seedFrom_seeded (run attempts) messages
    rw [seedFrom, ToolCallIdNormalizer.seedFrom, if_pos hseeded, if_pos hseeded]

def oneCall : Attempt Nat := { parts := [⟨"Bash_0", some 0⟩], calls := some [⟨"Bash_0", "Bash", none, none⟩] }

theorem run_stable_oneCall : ((run [([], oneCall)]).attempt [] { oneCall with failed := true }).seedFrom [] =
      (run [([], oneCall)]).seedFrom [] :=
  (run_stable [([], oneCall)] []).2 _ (.inr rfl)

example : ((run [([], oneCall)]).respond
      [(⟨"Bash_0", some 0⟩ : StreamedCall Nat), ⟨"Bash_0", some 1⟩, ⟨"Bash_0", some 1⟩]).1 =
      ["Bash_0__2", "Bash_0__3", "Bash_0__3"] := by
  decide +kernel

end AgentCalls

end Echadron.Agent
