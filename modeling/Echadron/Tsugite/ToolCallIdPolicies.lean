import Echadron.Tsugite.AnthropicRequest
import Mathlib.Data.List.Perm.Subperm
import Mathlib.Data.Nat.Digits.Defs

namespace Echadron.Tsugite
open Lib Agent List

/-! The ids that the policies of the providers give. -/

def openAIChatToolCallIdPolicy : ToolCallIdPolicy where
  normalize id := sanitizeToolCallId id (some 64)
  maxLength := some 64

def openAIResponsesToolCallIdPolicy : ToolCallIdPolicy where
  normalize id := sanitizeOpenAIResponsesCallId id (some 64)
  maxLength := some 64

def toolCallIdPolicies : List ToolCallIdPolicy :=
  [Anthropic.toolCallIdPolicy, openAIChatToolCallIdPolicy, openAIResponsesToolCallIdPolicy]

def Conforms (id : String) : Prop := 0 < id.length ∧ id.length ≤ 64 ∧ ∀ c ∈ id.toList, isSafe c = true

instance decidableConforms : DecidablePred Conforms := fun _ => inferInstanceAs (Decidable (_ ∧ _ ∧ _))

/-- What the policies have in common. -/
structure ToolCallIdPolicy.Safe (policy : ToolCallIdPolicy) : Prop where
  maxLength : policy.maxLength = some 64
  short : ∀ id, (policy.normalize id).length ≤ 64
  safe : ∀ id, ∀ c ∈ (policy.normalize id).toList, isSafe c = true
  keeps : ∀ id, Conforms id → policy.normalize id = id

variable {id : String}

theorem isSafe_of_sanitize (h : d ∈ sanitizeChar c) : isSafe d = true := by
  rw [sanitizeChar] at h
  split at h
  · rwa [mem_singleton.mp h]
  · rw [eq_of_mem_replicate h]
    rfl

theorem sanitize_safe {l : List Char} (h : ∀ c ∈ l, isSafe c = true) : l.flatMap sanitizeChar = l := by
  induction l with
  | nil => rfl
  | cons c l ih =>
    obtain ⟨hc, hl⟩ := forall_mem_cons.mp h
    rw [flatMap_cons, ih hl, sanitizeChar, if_pos hc]
    rfl

theorem sanitizeToolCallId_safe (h : c ∈ (sanitizeToolCallId id (some 64)).toList) : isSafe c = true := by
  rw [sanitizeToolCallId, String.toList_ofList] at h
  obtain ⟨d, -, hc⟩ := mem_flatMap.mp (mem_of_mem_take h)
  exact isSafe_of_sanitize hc

theorem sanitizeToolCallId_keeps (h : Conforms id) : sanitizeToolCallId id (some 64) = id := by
  rw [sanitizeToolCallId, sanitize_safe h.2.2, take_of_length_le h.2.1, String.ofList_toList]

theorem sanitize_policy (normalize : String → String)
    (hnormalize : ∀ id, ∃ id', normalize id = sanitizeToolCallId id' (some 64) ∧ (Conforms id → id' = id)) :
    (ToolCallIdPolicy.mk normalize (some 64)).Safe := by
  refine ⟨rfl, ?_, ?_, ?_⟩
  · intro id
    obtain ⟨id', heq, -⟩ := hnormalize id
    change (normalize id).length ≤ 64
    rw [heq, sanitizeToolCallId, String.length_ofList]
    exact length_take_le ..
  · intro id c hc
    obtain ⟨id', heq, -⟩ := hnormalize id
    change c ∈ (normalize id).toList at hc
    exact sanitizeToolCallId_safe (heq ▸ hc)
  · intro id hid
    obtain ⟨id', heq, hsame⟩ := hnormalize id
    obtain rfl := hsame hid
    exact heq.trans (sanitizeToolCallId_keeps hid)

theorem policy_safe : ∀ policy ∈ toolCallIdPolicies, policy.Safe := by
  rw [toolCallIdPolicies, forall_mem_cons, forall_mem_cons, forall_mem_singleton]
  refine ⟨sanitize_policy _ fun id => ⟨id, rfl, fun _ => rfl⟩, sanitize_policy _ fun id => ⟨id, rfl, fun _ => rfl⟩,
    sanitize_policy _ fun id => ⟨_, rfl, fun hid => ?_⟩⟩
  rw [takeWhile_eq_self_iff.mpr, String.ofList_toList]
  intro c hc
  rw [bne_iff_ne]
  rintro rfl
  exact absurd (hid.2.2 _ hc) (by decide)

theorem suffixOf_toList (i : Nat) : (suffixOf i).toList = '_' :: Nat.toDigits 10 i := by
  rw [suffixOf, String.toList_append, Nat.toList_repr]
  rfl

theorem isDigit_of_suffix (h : c ∈ Nat.toDigits 10 i) : c.isDigit = true :=
  Nat.isDigit_of_mem_toDigits (by decide) (by decide) h

/-- The digits of a suffix are what stands behind the last underscore. -/
theorem suffix_injective (h : l ++ (suffixOf i).toList = l' ++ (suffixOf j).toList) : i = j := by
  have hlast (l : List Char) (i : Nat) :
      (l ++ (suffixOf i).toList).reverse.takeWhile Char.isDigit = (Nat.toDigits 10 i).reverse := by
    rw [suffixOf_toList, reverse_append, reverse_cons, append_assoc, takeWhile_append_of_pos]
    · exact append_nil _
    · exact fun c hc => isDigit_of_suffix (mem_reverse.mp hc)
  have hdigits : Nat.toDigits 10 i = Nat.toDigits 10 j := by
    rw [← reverse_inj, ← hlast l i, h, hlast l' j]
  have hnumber := congrArg (Nat.ofDigitChars 10 · 0) hdigits
  simpa [Nat.ofDigitChars_ten_toDigits] using hnumber

/-- What an id with its suffix is. -/
def suffixed (base : String) (i : Nat) : String :=
  String.ofList (base.toList.take (64 - (suffixOf i).length)) ++ suffixOf i

theorem suffixed_injective (h : suffixed base i = suffixed base j) : i = j := by
  have hlist := congrArg String.toList h
  rw [suffixed, suffixed, String.toList_append, String.toList_append] at hlist
  exact suffix_injective hlist

theorem suffixOf_short (h : i < 10 ^ 10) : (suffixOf i).length ≤ 11 := by
  have hrepr := Nat.repr_length i 10 (by decide) h
  rw [suffixOf, String.length_append]
  exact Nat.add_comm _ _ ▸ Nat.succ_le_succ hrepr

theorem truncate_suffixed (h : i < 10 ^ 10) :
    truncateToolCallId base (some 64) (suffixOf i) = .ok (suffixed base i) := by
  rw [truncateToolCallId]
  exact if_neg (Nat.not_le_of_lt (Nat.lt_of_le_of_lt (suffixOf_short h) (by decide)))

theorem suffixed_conforms (hbase : ∀ c ∈ base.toList, isSafe c = true) (h : i < 10 ^ 10) :
    Conforms (suffixed base i) := by
  have hshort := suffixOf_short h
  have hpos : 0 < (suffixOf i).length := by
    rw [← String.length_toList, suffixOf_toList]
    exact Nat.succ_pos _
  have hlength : (suffixed base i).length =
      (base.toList.take (64 - (suffixOf i).length)).length + (suffixOf i).length := by
    rw [suffixed, String.length_append, String.length_ofList]
  have htake := length_take_le (64 - (suffixOf i).length) base.toList
  refine ⟨by omega, by omega, ?_⟩
  intro c hc
  rw [suffixed, String.toList_append, String.toList_ofList, suffixOf_toList] at hc
  rcases mem_append.mp hc with hc | hc
  · exact hbase c (mem_of_mem_take hc)
  · rcases mem_cons.mp hc with rfl | hc
    · rfl
    · rw [isSafe, Char.isAlphanum, isDigit_of_suffix hc, Bool.or_true]
      rfl

theorem uniqueFrom_ok (base : String) (usedIds : List String) (bound : Nat) : ∀ i, i + bound < 10 ^ 10 →
    ∃ j < 10 ^ 10, uniqueFrom base usedIds (some 64) i bound = .ok (suffixed base j) ∧
      (suffixed base j ∈ usedIds → ∀ k ≤ bound, suffixed base (i + k) ∈ usedIds) := by
  induction bound with
  | zero =>
    intro i hi
    refine ⟨i, hi, truncate_suffixed hi, ?_⟩
    intro hused k hk
    rwa [Nat.le_zero.mp hk]
  | succ bound ih =>
    intro i hi
    rw [uniqueFrom, truncate_suffixed (by omega)]
    dsimp only
    split
    · rename_i hused
      obtain ⟨j, hj, hok, hall⟩ := ih (i + 1) (by omega)
      refine ⟨j, hj, hok, ?_⟩
      intro hmem k hk
      cases k with
      | zero => exact hused
      | succ k =>
        have hrest := hall hmem k (Nat.le_of_succ_le_succ hk)
        rwa [Nat.add_right_comm] at hrest
    · rename_i hfree
      exact ⟨i, by omega, rfl, fun hmem => absurd hmem hfree⟩

/-- One more suffix than there are ids in use is tried, and different suffixes give different ids. -/
theorem uniqueFrom_fresh (hcount : i + usedIds.length < 10 ^ 10) :
    ∃ j < 10 ^ 10, uniqueFrom base usedIds (some 64) i usedIds.length = .ok (suffixed base j) ∧
      suffixed base j ∉ usedIds := by
  obtain ⟨j, hj, hok, hall⟩ := uniqueFrom_ok base usedIds usedIds.length i hcount
  refine ⟨j, hj, hok, ?_⟩
  intro hused
  have hnodup : ((List.range (usedIds.length + 1)).map fun k => suffixed base (i + k)).Nodup :=
    nodup_range.map fun _ _ hsame => Nat.add_left_cancel (suffixed_injective hsame)
  have hsub : (List.range (usedIds.length + 1)).map (fun k => suffixed base (i + k)) ⊆ usedIds := by
    intro id hid
    obtain ⟨k, hk, rfl⟩ := List.mem_map.mp hid
    exact hall hused k (Nat.le_of_lt_succ (mem_range.mp hk))
  have hlength := (hnodup.subperm hsub).length_le
  rw [length_map, length_range] at hlength
  exact Nat.not_succ_le_self _ hlength

theorem makeUniqueToolCallId_fresh (hsafe : ∀ c ∈ normalized.toList, isSafe c = true)
    (hcount : 2 + usedIds.length < 10 ^ 10) :
    ∃ id, makeUniqueToolCallId normalized usedIds (some 64) = .ok id ∧ id ∉ usedIds ∧ Conforms id := by
  have hbase : ∃ base, (if normalized.length > 0 then normalized else emptyToolCallId) = base ∧
      0 < base.length ∧ ∀ c ∈ base.toList, isSafe c = true := by
    split
    · rename_i hpos
      exact ⟨_, rfl, hpos, hsafe⟩
    · exact ⟨_, rfl, by decide, all_eq_true.mp (by decide)⟩
  obtain ⟨base, heq, hpos, hsafe⟩ := hbase
  rw [makeUniqueToolCallId, heq]
  change ∃ id, (if String.ofList (base.toList.take 64) ++ "" ∈ usedIds then
    uniqueFrom base usedIds (some 64) 2 usedIds.length else .ok (String.ofList (base.toList.take 64) ++ "")) =
      .ok id ∧ _
  split
  · obtain ⟨j, hj, hok, hfresh⟩ := uniqueFrom_fresh hcount
    exact ⟨_, hok, hfresh, suffixed_conforms hsafe hj⟩
  · rename_i hfree
    refine ⟨_, rfl, hfree, ?_⟩
    rw [String.append_empty]
    refine ⟨?_, ?_, ?_⟩
    · rw [String.length_ofList, length_take]
      exact Nat.lt_min.mpr ⟨by decide, hpos⟩
    · rw [String.length_ofList]
      exact length_take_le ..
    · intro c hc
      rw [String.toList_ofList] at hc
      exact hsafe c (mem_of_mem_take hc)

/-- A map under construction: every id has one of its own. -/
structure Mapped (m : ToolCallIdMap) : Prop where
  used : ∀ raw id, m.mappedIds.get raw = some id → id ∈ m.usedIds
  conforms : ∀ raw id, m.mappedIds.get raw = some id → Conforms id
  injective : ∀ raw raw' id, m.mappedIds.get raw = some id → m.mappedIds.get raw' = some id → raw = raw'

theorem Mapped.put (h : Mapped m) (hfresh : id ∉ m.usedIds) (hid : Conforms id) : Mapped (m.put raw id) := by
  have hget {raw' id'} (hmapped : (m.put raw id).mappedIds.get raw' = some id') :
      raw' = raw ∧ id' = id ∨ m.mappedIds.get raw' = some id' := by
    rw [ToolCallIdMap.put, JsMap.get_set] at hmapped
    split at hmapped
    · rename_i hraw
      exact .inl ⟨hraw, (Option.some.inj hmapped).symm⟩
    · exact .inr hmapped
  constructor
  · intro raw' id' hmapped
    rcases hget hmapped with ⟨-, rfl⟩ | hold
    · exact mem_concat_self
    · exact mem_append_left _ (h.used raw' id' hold)
  · intro raw' id' hmapped
    rcases hget hmapped with ⟨-, rfl⟩ | hold
    · exact hid
    · exact h.conforms raw' id' hold
  · intro a b id' ha hb
    rcases hget ha with ⟨rfl, rfl⟩ | ha'
    · rcases hget hb with ⟨rfl, -⟩ | hb'
      · rfl
      · exact absurd (h.used b _ hb') hfresh
    · rcases hget hb with ⟨rfl, rfl⟩ | hb'
      · exact absurd (h.used a _ ha') hfresh
      · exact h.injective a b id' ha' hb'

section

variable {policy : ToolCallIdPolicy} (hpolicy : policy.Safe)
include hpolicy

theorem keepConforming_eq (m : ToolCallIdMap) (raw : String) :
    keepConforming policy m raw = if Conforms raw then m.put raw raw else m := by
  have hiff : policy.normalize raw = raw ∧ 0 < (policy.normalize raw).length ↔ Conforms raw := by
    constructor
    · rintro ⟨hsame, hpos⟩
      rw [← hsame]
      exact ⟨hpos, hpolicy.short raw, hpolicy.safe raw⟩
    · intro hraw
      rw [hpolicy.keeps raw hraw]
      exact ⟨rfl, hraw.1⟩
  exact ite_congr (propext hiff) (fun _ => rfl) fun _ => rfl

theorem keepConforming_foldl (rawIds : List String) (m : ToolCallIdMap) :
    (rawIds.foldl (keepConforming policy) m).usedIds = m.usedIds ++ rawIds.filter (Conforms ·) ∧
      ∀ raw, (rawIds.foldl (keepConforming policy) m).mappedIds.get raw =
        if raw ∈ rawIds ∧ Conforms raw then some raw else m.mappedIds.get raw := by
  induction rawIds generalizing m with
  | nil => exact ⟨(append_nil _).symm, fun raw => (if_neg fun hraw => not_mem_nil hraw.1).symm⟩
  | cons first rawIds ih =>
    rw [foldl_cons, keepConforming_eq hpolicy]
    by_cases hfirst : Conforms first
    · obtain ⟨hused, hget⟩ := ih (m.put first first)
      rw [if_pos hfirst, hused]
      refine ⟨by simp [hfirst, ToolCallIdMap.put], fun raw => (hget raw).trans ?_⟩
      by_cases hsame : raw = first
      · subst hsame
        simp [hfirst, ToolCallIdMap.put]
      · simp [hsame, ToolCallIdMap.put, JsMap.get_set_of_ne]
    · obtain ⟨hused, hget⟩ := ih m
      rw [if_neg hfirst, hused]
      refine ⟨by simp [hfirst], fun raw => (hget raw).trans ?_⟩
      by_cases hsame : raw = first
      · subst hsame
        simp [hfirst]
      · simp [hsame]

theorem keepConforming_mapped (rawIds : List String) : Mapped (rawIds.foldl (keepConforming policy) {}) := by
  obtain ⟨hused, hget⟩ := keepConforming_foldl hpolicy rawIds {}
  have hsome {raw id} (hid : (foldl (keepConforming policy) {} rawIds).mappedIds.get raw = some id) :
      (raw ∈ rawIds ∧ Conforms raw) ∧ raw = id := by
    rw [hget] at hid
    split at hid
    · rename_i hraw
      exact ⟨hraw, Option.some.inj hid⟩
    · cases hid
  constructor
  · intro raw id hid
    obtain ⟨⟨hraw, hconforms⟩, rfl⟩ := hsome hid
    rw [hused]
    exact mem_append_right _ (mem_filter.mpr ⟨hraw, decide_eq_true hconforms⟩)
  · intro raw id hid
    obtain ⟨⟨-, hconforms⟩, rfl⟩ := hsome hid
    exact hconforms
  · exact fun raw raw' id hid hid' => (hsome hid).2.trans (hsome hid').2.symm

theorem rewriteOther_foldlM (rawIds : List String) {m : ToolCallIdMap} (h : Mapped m)
    (hcount : 2 + (m.usedIds.length + rawIds.length) < 10 ^ 10) :
    ∃ m', rawIds.foldlM (rewriteOther policy) m = .ok m' ∧ Mapped m' ∧
      (∀ raw id, m.mappedIds.get raw = some id → m'.mappedIds.get raw = some id) ∧
      ∀ raw ∈ rawIds, ∃ id, m'.mappedIds.get raw = some id := by
  induction rawIds generalizing m with
  | nil => exact ⟨m, rfl, h, fun _ _ hget => hget, fun _ hraw => absurd hraw not_mem_nil⟩
  | cons first rawIds ih =>
    rw [length_cons] at hcount
    rw [foldlM_cons, rewriteOther]
    split
    · rename_i hhas
      obtain ⟨m', hok, hmapped, hkeeps, hall⟩ := ih h (by omega)
      obtain ⟨id, hid⟩ := (JsMap.mem_keys_iff ..).mp ((JsMap.has_iff ..).mp hhas)
      exact ⟨m', hok, hmapped, hkeeps, forall_mem_cons.mpr ⟨⟨id, hkeeps first id hid⟩, hall⟩⟩
    · rename_i hnew
      rw [JsMap.has_iff] at hnew
      obtain ⟨unique, hunique, hfresh, hconforms⟩ :=
        makeUniqueToolCallId_fresh (hpolicy.safe first) (by omega : 2 + m.usedIds.length < 10 ^ 10)
      rw [hpolicy.maxLength, hunique]
      obtain ⟨m', hok, hmapped, hkeeps, hall⟩ := @ih (m.put first unique) (h.put hfresh hconforms) (by
        rw [ToolCallIdMap.put, length_append]
        change 2 + (m.usedIds.length + 1 + rawIds.length) < 10 ^ 10
        omega)
      refine ⟨m', hok, hmapped, ?_, forall_mem_cons.mpr ⟨⟨unique, ?_⟩, hall⟩⟩
      · intro raw id hget
        apply hkeeps
        refine (JsMap.get_set_of_ne _ unique ?_).trans hget
        rintro rfl
        exact hnew ((JsMap.mem_keys_iff ..).mpr ⟨id, hget⟩)
      · exact hkeeps first unique (JsMap.get_set_self ..)

end

def toolCallIds (messages : List Message) : List String :=
  messages.flatMap fun message => message.toolCalls.map ToolCall.id ++ message.toolCallId.toList

theorem mem_foldl_appendId (ids acc : List String) : id ∈ ids.foldl appendId acc ↔ id ∈ acc ∨ id ∈ ids := by
  induction ids generalizing acc with
  | nil => simp
  | cons first ids ih =>
    rw [foldl_cons, ih, mem_cons, appendId, ← or_assoc]
    split
    · rename_i hmem
      rw [or_iff_left_of_imp (b := id = first) fun hsame => hsame ▸ hmem]
    · rw [mem_append, mem_singleton]

theorem mem_collectToolCallIds : id ∈ collectToolCallIds messages ↔ id ∈ toolCallIds messages :=
  (mem_foldl_appendId _ _).trans (or_iff_right not_mem_nil)

/-- Up to a thousand million ids are mapped to ids of their own that the provider takes. -/
theorem normalizeToolCallIds_conform (hpolicy : policy ∈ toolCallIdPolicies) (messages : List Message)
    (hcount : (collectToolCallIds messages).length ≤ 10 ^ 9) :
    ∃ f, normalizeToolCallIdsForProvider messages policy = .ok (messages.map (withToolCallIds f)) ∧
      (∀ raw ∈ toolCallIds messages, Conforms (f raw) ∧ (Conforms raw → f raw = raw)) ∧
      ∀ raw ∈ toolCallIds messages, ∀ raw' ∈ toolCallIds messages, f raw = f raw' → raw = raw' := by
  have hsafe := policy_safe policy hpolicy
  obtain ⟨hused, hkeeps⟩ := keepConforming_foldl hsafe (collectToolCallIds messages) {}
  have hlength := congrArg List.length hused
  have hfilter := length_filter_le (fun id => decide (Conforms id)) (collectToolCallIds messages)
  rw [length_append, length_nil] at hlength
  obtain ⟨m, hok, hmapped, hstay, hall⟩ := rewriteOther_foldlM hsafe (collectToolCallIds messages)
    (keepConforming_mapped hsafe (collectToolCallIds messages)) (by omega)
  have hget : ∀ raw ∈ toolCallIds messages, m.mappedIds.get raw = some ((m.mappedIds.get raw).getD raw) := by
    intro raw hraw
    obtain ⟨id, hid⟩ := hall raw (mem_collectToolCallIds.mpr hraw)
    rw [hid]
    rfl
  refine ⟨fun raw => (m.mappedIds.get raw).getD raw, ?_, ?_, ?_⟩
  · rw [normalizeToolCallIdsForProvider]
    split
    · rename_i hnone
      rw [hnone] at hok
      cases hok
      exact congrArg Except.ok (map_withToolCallIds_id messages).symm
    · rw [buildToolCallIdMap, hok]
  · intro raw hraw
    refine ⟨hmapped.conforms raw _ (hget raw hraw), ?_⟩
    intro hconforms
    have hkept := (hkeeps raw).trans (if_pos ⟨mem_collectToolCallIds.mpr hraw, hconforms⟩)
    exact Option.some.inj ((hget raw hraw).symm.trans (hstay raw raw hkept))
  · intro raw hraw raw' hraw' hsame
    have hget' := hget raw' hraw'
    dsimp only at hsame
    rw [← hsame] at hget'
    exact hmapped.injective raw raw' _ (hget raw hraw) hget'

def collidingCalls : List Message :=
  [{ role := .assistant, content := [], toolCalls := [⟨"call.1", "Read", none, none⟩, ⟨"call_1", "Read", none, none⟩] },
    { role := .tool, content := [], toolCallId := some "call.1" }]

theorem normalizeToolCallIds_conform_colliding :
    ∃ f, normalizeToolCallIdsForProvider collidingCalls openAIChatToolCallIdPolicy =
        .ok (collidingCalls.map (withToolCallIds f)) ∧
      (∀ raw ∈ toolCallIds collidingCalls, Conforms (f raw) ∧ (Conforms raw → f raw = raw)) ∧
      ∀ raw ∈ toolCallIds collidingCalls, ∀ raw' ∈ toolCallIds collidingCalls, f raw = f raw' → raw = raw' :=
  normalizeToolCallIds_conform (mem_cons_of_mem _ mem_cons_self) collidingCalls (by decide +kernel)

end Echadron.Tsugite
