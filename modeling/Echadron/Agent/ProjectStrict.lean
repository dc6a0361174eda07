import Echadron.Agent.ProjectorLayout

namespace Echadron.Agent
open Lib List

/-- The calls whose ids are not among `seen`, keeping the first of each id. -/
def freshFrom (seen : List String) : List ToolCall → List ToolCall
  | [] => []
  | c :: cs => if c.id ∈ seen then freshFrom seen cs else c :: freshFrom (c.id :: seen) cs

theorem freshFrom_congr (h : ∀ i, i ∈ seen ↔ i ∈ seen') (cs : List ToolCall) :
    freshFrom seen cs = freshFrom seen' cs := by
  induction cs generalizing seen seen' with
  | nil => rfl
  | cons c cs ih =>
    have h' : ∀ i, i ∈ c.id :: seen ↔ i ∈ c.id :: seen' := fun i => by
      rw [mem_cons, mem_cons, h]
    simp only [freshFrom, h, ih h, ih h']

theorem mem_seen_of_mem (h : c ∈ cs) (seen : List String) : c.id ∈ seen ∨ c.id ∈ callIds (freshFrom seen cs) := by
  induction cs generalizing seen with
  | nil => cases h
  | cons d cs ih =>
    by_cases hd : d.id ∈ seen
    · rw [freshFrom, if_pos hd]
      rcases mem_cons.mp h with rfl | h
      · exact .inl hd
      · exact ih h seen
    · rw [freshFrom, if_neg hd]
      rcases mem_cons.mp h with rfl | h
      · exact .inr mem_cons_self
      · rcases ih h (d.id :: seen) with h' | h'
        · rcases mem_cons.mp h' with he | h'
          · exact .inr (mem_cons.mpr (.inl he))
          · exact .inl h'
        · exact .inr (mem_cons_of_mem _ h')

theorem not_mem_seen_of_fresh (h : i ∈ callIds (freshFrom seen cs)) : i ∉ seen := by
  induction cs generalizing seen with
  | nil => cases h
  | cons c cs ih =>
    by_cases hc : c.id ∈ seen
    · rw [freshFrom, if_pos hc] at h
      exact ih h
    · rw [freshFrom, if_neg hc] at h
      rcases mem_cons.mp h with rfl | h
      · exact hc
      · exact fun hi => ih h (mem_cons_of_mem _ hi)

theorem nodup_freshFrom (seen : List String) (cs : List ToolCall) : (callIds (freshFrom seen cs)).Nodup := by
  induction cs generalizing seen with
  | nil => exact nodup_nil
  | cons c cs ih =>
    by_cases hc : c.id ∈ seen
    · rw [freshFrom, if_pos hc]
      exact ih seen
    · rw [freshFrom, if_neg hc, callIds, map_cons, nodup_cons]
      exact ⟨fun h => not_mem_seen_of_fresh h mem_cons_self, ih _⟩

theorem freshFrom_sublist (seen : List String) (cs : List ToolCall) : (freshFrom seen cs).Sublist cs := by
  induction cs generalizing seen with
  | nil => exact .slnil
  | cons c cs ih =>
    by_cases hc : c.id ∈ seen
    · rw [freshFrom, if_pos hc]
      exact (ih seen).cons c
    · rw [freshFrom, if_neg hc]
      exact (ih _).cons_cons c

namespace Dedupe

/-- `freshCalls` marks the ids it keeps as seen and changes nothing else but the report. -/
structure Fresh (st : Dedupe) (cs : List ToolCall) (r : List ToolCall × Dedupe) : Prop where
  kept_eq : r.1 = freshFrom st.seenToolCallIds.keys cs
  out_eq : r.2.out = st.out
  indexes_eq : r.2.keptToolResultIndexes = st.keptToolResultIndexes
  seen_iff : ∀ i : String, i ∈ r.2.seenToolCallIds.keys ↔ i ∈ st.seenToolCallIds.keys ∨ i ∈ callIds r.1

theorem freshCalls_spec (st : Dedupe) (cs : List ToolCall) : Fresh st cs (st.freshCalls cs) := by
  induction cs generalizing st with
  | nil => exact ⟨rfl, rfl, rfl, by simp [freshCalls, callIds]⟩
  | cons c cs ih =>
    by_cases hc : c.id ∈ st.seenToolCallIds.keys
    · have h := ih (st.report (.duplicateToolCallDropped c.id))
      have hs : st.freshCalls (c :: cs) = (st.report (.duplicateToolCallDropped c.id)).freshCalls cs := by
        rw [freshCalls, if_pos ((JsMap.has_iff _ _).mpr hc)]
        rfl
      rw [hs]
      refine ⟨?_, h.out_eq, h.indexes_eq, h.seen_iff⟩
      rw [h.kept_eq, freshFrom, if_pos hc]
      rfl
    · have h := ih { st with seenToolCallIds := st.seenToolCallIds.set c.id () }
      have hs : st.freshCalls (c :: cs) =
          (c :: (freshCalls { st with seenToolCallIds := st.seenToolCallIds.set c.id () } cs).1,
            (freshCalls { st with seenToolCallIds := st.seenToolCallIds.set c.id () } cs).2) := by
        rw [freshCalls, if_neg (mt (JsMap.has_iff _ _).mp hc)]
      rw [hs]
      refine ⟨?_, h.out_eq, h.indexes_eq, ?_⟩
      · rw [freshFrom, if_neg hc]
        refine congrArg _ (h.kept_eq.trans (freshFrom_congr (fun i => ?_) cs))
        rw [mem_cons]
        exact JsMap.mem_keys_set _ _ _ _
      · intro i
        rw [h.seen_iff, JsMap.mem_keys_set, callIds, callIds]
        grind

def Indexed (st : Dedupe) : Prop :=
  ∀ (i : String) (n : Nat), st.keptToolResultIndexes.get i = some n →
    ∃ m, st.out[n]? = some m ∧ m.role = .tool ∧ m.toolCallId = some i ∧ m.toolCalls = []

theorem Indexed.append (h : Indexed st) (ms : List Message) : Indexed { st with out := st.out ++ ms } := by
  intro i n hn
  obtain ⟨m, hm, hr⟩ := h i n hn
  obtain ⟨hl, _⟩ := List.getElem?_eq_some_iff.mp hm
  exact ⟨m, by rw [getElem?_append_left hl, hm], hr⟩

/-- What the results of one message leave behind. -/
structure Placed (st : Dedupe) (cs : List ToolCall) (st' : Dedupe) : Prop where
  indexed : Indexed st'
  seen_eq : st'.seenToolCallIds = st.seenToolCallIds
  keys_iff : ∀ i : String, i ∈ st'.keptToolResultIndexes.keys ↔ i ∈ st.keptToolResultIndexes.keys ∨ i ∈ callIds cs
  shapes : ∃ new, List.Forall₂ Answers (freshFrom st.keptToolResultIndexes.keys cs) new ∧
    SameShapes (st.out ++ new) st'.out

theorem step_tool (st : Dedupe) (h : Answers c r) : st.step r = st.result r c.id := by
  rw [step, if_neg (by rw [h.1]; simp), h.1, h.2.1]

theorem Placed.cons_old (h : Placed st₁ cs st') (ho : SameShapes st.out st₁.out)
    (hs : st₁.seenToolCallIds = st.seenToolCallIds)
    (hk : st₁.keptToolResultIndexes = st.keptToolResultIndexes)
    (hc : c.id ∈ st.keptToolResultIndexes.keys) : Placed st (c :: cs) st' := by
  obtain ⟨new, ha, hsh⟩ := h.shapes
  refine ⟨h.indexed, h.seen_eq.trans hs, ?_, new, ?_, ?_⟩
  · intro i
    rw [h.keys_iff, callIds, callIds]
    grind
  · rw [freshFrom, if_pos hc, ← hk]
    exact ha
  · exact SameShapes.trans (SameShapes.append ho (SameShapes.refl new)) hsh

theorem results_spec (st : Dedupe) (hi : Indexed st) (h : List.Forall₂ Answers cs rs) :
    Placed st cs (rs.foldl step st) := by
  induction h generalizing st with
  | nil => exact ⟨hi, rfl, by simp [callIds], [], .nil, by simpa using SameShapes.refl st.out⟩
  | @cons c r cs rs hr _ ih =>
    rw [foldl_cons, step_tool st hr, result]
    cases hk : st.keptToolResultIndexes.get c.id with
    | some n =>
      have hc : c.id ∈ st.keptToolResultIndexes.keys := (JsMap.mem_keys_iff _ _).mpr ⟨n, hk⟩
      obtain ⟨m, hm, hrole, hid, hcalls⟩ := hi c.id n hk
      have hsame : SameShape m r := ⟨hrole.trans hr.1.symm, hid.trans hr.2.1.symm, hcalls.trans hr.2.2.symm⟩
      dsimp only
      split
      · have hset := SameShapes.set st.out hm hsame
        have hi' : Indexed { st with out := st.out.set n r } := by
          intro i n' hn'
          obtain ⟨m', hm', hr'⟩ := hi i n' hn'
          by_cases he : n = n'
          · subst he
            rw [hm, Option.some.injEq] at hm'
            subst hm'
            refine ⟨r, getElem?_set_of_some hm r, hr.1, ?_, hr.2.2⟩
            rw [← hr'.2.1, hsame.2.1]
          · exact ⟨m', by rw [← hm']; exact getElem?_set_ne he, hr'⟩
        exact (ih _ hi').cons_old hset rfl rfl hc
      · exact (ih (st.report _) hi).cons_old (SameShapes.refl _) rfl rfl hc
    | none =>
      have hc : c.id ∉ st.keptToolResultIndexes.keys := (JsMap.get_eq_none_iff _ _).mp hk
      have hi' : Indexed { st.push r with
          keptToolResultIndexes := st.keptToolResultIndexes.set c.id st.out.length } := by
        intro i n hn
        by_cases he : i = c.id
        · subst he
          rw [JsMap.get_set_self, Option.some.injEq] at hn
          subst hn
          exact ⟨r, getElem?_concat_length, hr⟩
        · rw [JsMap.get_set_of_ne _ _ he] at hn
          obtain ⟨m, hm, hr'⟩ := hi i n hn
          exact ⟨m, getElem?_concat_of_some hm r, hr'⟩
      have h' := ih _ hi'
      obtain ⟨new, ha, hsh⟩ := h'.shapes
      refine ⟨h'.indexed, h'.seen_eq, ?_, r :: new, ?_, ?_⟩
      · intro i
        rw [h'.keys_iff, JsMap.mem_keys_set, callIds, callIds]
        grind
      · rw [freshFrom, if_neg hc]
        refine .cons hr ?_
        have hkeys : ∀ i, i ∈ c.id :: st.keptToolResultIndexes.keys ↔
            i ∈ (st.keptToolResultIndexes.set c.id st.out.length).keys := by
          intro i
          rw [JsMap.mem_keys_set, mem_cons]
        rw [freshFrom_congr hkeys]
        exact ha
      · have ho : st.out ++ r :: new = (st.push r).out ++ new := append_cons _ _ _
        rw [ho]
        exact hsh

/-- Between two exchanges, exactly the declared ids are seen, and each has its result. -/
structure Settled (st : Dedupe) : Prop where
  exchanges : Exchanges st.out
  ids_nodup : (declaredIds st.out).Nodup
  indexed : Indexed st
  seen_iff : ∀ i : String, i ∈ st.seenToolCallIds.keys ↔ i ∈ declaredIds st.out
  keys_iff : ∀ i : String, i ∈ st.keptToolResultIndexes.keys ↔ i ∈ declaredIds st.out

theorem declaredIds_append (a b : List Message) : declaredIds (a ++ b) = declaredIds a ++ declaredIds b :=
  flatMap_append

theorem Settled.pushPlain (h : Settled st) (hr : m.role ≠ .tool) (hc : m.toolCalls = []) : Settled (st.push m) := by
  have hd : declaredIds (st.out ++ [m]) = declaredIds st.out := by
    simp [declaredIds, hc, callIds]
  refine ⟨h.exchanges.append (.single hr hc), ?_, h.indexed.append [m], ?_, ?_⟩
  · rw [push, hd]; exact h.ids_nodup
  · rw [push, hd]; exact h.seen_iff
  · rw [push, hd]; exact h.keys_iff

/-- The head of an exchange after its repeated calls are removed: pushed, or dropped if nothing
is left of it. -/
theorem assistant_cases (st : Dedupe) (m : Message) :
    (∃ st₁, st.assistant m = st₁.push { m with toolCalls := (st.freshCalls m.toolCalls).1 } ∧
      Fresh st m.toolCalls ((st.freshCalls m.toolCalls).1, st₁)) ∨
    (st.freshCalls m.toolCalls).1 = [] ∧
      Fresh st m.toolCalls ((st.freshCalls m.toolCalls).1, st.assistant m) := by
  have h := freshCalls_spec st m.toolCalls
  unfold assistant
  dsimp only
  split
  · rename_i hl
    have hall : (st.freshCalls m.toolCalls).1 = m.toolCalls := by
      refine List.Sublist.eq_of_length ?_ hl
      rw [h.kept_eq]
      exact freshFrom_sublist _ _
    exact .inl ⟨_, by rw [hall], h⟩
  · split
    · exact .inl ⟨_, rfl, h⟩
    · rename_i hkept
      have hnil : (st.freshCalls m.toolCalls).1 = [] := by
        by_contra hne
        exact hkept (.inl (length_pos_iff.mpr hne))
      split
      · exact .inr ⟨hnil, h.kept_eq, h.out_eq, h.indexes_eq, h.seen_iff⟩
      · exact .inr ⟨hnil, h⟩

theorem Settled.exchange (h : Settled st) (hr : m.role = .assistant) (hne : m.toolCalls ≠ [])
    (hrs : List.Forall₂ Answers m.toolCalls rs) : Settled ((m :: rs).foldl step st) := by
  have hstep : st.step m = st.assistant m := by
    rw [step, if_pos ⟨hr, length_pos_iff.mpr hne⟩]
  rw [foldl_cons, hstep]
  have hkeys : ∀ i, i ∈ st.keptToolResultIndexes.keys ↔ i ∈ st.seenToolCallIds.keys := fun i =>
    (h.keys_iff i).trans (h.seen_iff i).symm
  have hfresh : freshFrom st.keptToolResultIndexes.keys m.toolCalls = (st.freshCalls m.toolCalls).1 :=
    (freshFrom_congr hkeys _).trans (freshCalls_spec st m.toolCalls).kept_eq.symm
  have hcovered : ∀ i, i ∈ callIds m.toolCalls → i ∈ declaredIds st.out ∨
      i ∈ callIds (st.freshCalls m.toolCalls).1 := by
    intro i hi
    obtain ⟨c, hc, rfl⟩ := mem_map.mp hi
    rw [← h.keys_iff, ← hfresh]
    exact mem_seen_of_mem hc _
  have hsub : ∀ i, i ∈ callIds (st.freshCalls m.toolCalls).1 → i ∈ callIds m.toolCalls := by
    intro i hi
    rw [← hfresh] at hi
    exact ((freshFrom_sublist _ _).map _).subset hi
  have hnodup : (declaredIds st.out ++ callIds (st.freshCalls m.toolCalls).1).Nodup := by
    rw [nodup_append', ← hfresh]
    refine ⟨h.ids_nodup, nodup_freshFrom _ _, fun i hi hi' => ?_⟩
    exact not_mem_seen_of_fresh hi' ((h.keys_iff i).mpr hi)
  rcases assistant_cases st m with ⟨st₁, he, hf⟩ | ⟨hnil, hf⟩
  · rw [he]
    generalize (st.freshCalls m.toolCalls).1 = kept at *
    have hout : (st₁.push { m with toolCalls := kept }).out =
        st.out ++ [{ m with toolCalls := kept }] := by rw [push, hf.out_eq]
    have hi₁ : Indexed (st₁.push { m with toolCalls := kept }) := by
      have hi : Indexed st₁ := by
        intro i n hn
        rw [hf.indexes_eq] at hn
        rw [hf.out_eq]
        exact h.indexed i n hn
      exact hi.append [{ m with toolCalls := kept }]
    have hp := results_spec _ hi₁ hrs
    obtain ⟨new, ha, hsh⟩ := hp.shapes
    have hindexes : (st₁.push { m with toolCalls := kept }).keptToolResultIndexes =
        st.keptToolResultIndexes := hf.indexes_eq
    rw [hindexes, hfresh] at ha
    rw [hout, append_assoc, singleton_append] at hsh
    have hex : Exchanges ({ m with toolCalls := kept } :: new) := by
      have hrole : ({ m with toolCalls := kept } : Message).role ≠ .tool := by
        rw [hr]; decide
      simpa using Exchanges.cons hrole (absurd hr) ha .nil
    have hd : declaredIds (st.out ++ { m with toolCalls := kept } :: new) =
        declaredIds st.out ++ callIds kept := by
      rw [declaredIds_append, declaredIds, declaredIds, flatMap_cons]
      rw [show new.flatMap (fun m => callIds m.toolCalls) = [] from Answers.declared ha, append_nil]
    refine ⟨(h.exchanges.append hex).sameShapes hsh, ?_, hp.indexed, ?_, ?_⟩
    · rw [← hsh.declared, hd]
      exact hnodup
    · intro i
      rw [hp.seen_eq, ← hsh.declared, hd, mem_append, ← h.seen_iff]
      exact hf.seen_iff i
    · intro i
      rw [hp.keys_iff, ← hsh.declared, hd, mem_append, hindexes, h.keys_iff]
      exact ⟨fun hi => hi.elim .inl (hcovered i), fun hi => hi.imp_right (hsub i)⟩
  · rw [hnil] at hfresh hcovered hf
    have hi₁ : Indexed (st.assistant m) := by
      intro i n hn
      rw [hf.indexes_eq] at hn
      rw [hf.out_eq]
      exact h.indexed i n hn
    have hp := results_spec _ hi₁ hrs
    obtain ⟨new, ha, hsh⟩ := hp.shapes
    rw [hf.indexes_eq, hfresh] at ha
    cases ha
    rw [hf.out_eq, append_nil] at hsh
    refine ⟨h.exchanges.sameShapes hsh, by rw [← hsh.declared]; exact h.ids_nodup, hp.indexed, ?_, ?_⟩
    · intro i
      rw [hp.seen_eq, ← hsh.declared, ← h.seen_iff, hf.seen_iff]
      simp [callIds]
    · intro i
      rw [hp.keys_iff, ← hsh.declared, hf.indexes_eq, h.keys_iff]
      have hnew : i ∈ callIds m.toolCalls → i ∈ declaredIds st.out := fun hi =>
        (hcovered i hi).resolve_right not_mem_nil
      exact or_iff_left_of_imp hnew

theorem Settled.run (h : Settled st) (hm : Exchanges messages) : Settled (messages.foldl step st) := by
  induction hm generalizing st with
  | nil => exact h
  | @cons m rs rest hr hc hrs _ ih =>
    rw [← cons_append, foldl_append]
    refine ih ?_
    by_cases hnil : m.toolCalls = []
    · rw [hnil] at hrs
      cases hrs
      have hstep : st.step m = st.push m := by
        rw [step, if_neg (by simp [hnil])]
        split
        · rename_i hrole _; exact absurd hrole hr
        · rfl
      rw [foldl_cons, hstep]
      exact h.pushPlain hr hnil
    · have hrole : m.role = .assistant := by
        by_contra hn
        exact hnil (hc hn)
      exact h.exchange hrole hnil hrs

theorem Settled.start : Settled {} :=
  ⟨.nil, nodup_nil, by simp [Indexed], by simp [declaredIds], by simp [declaredIds]⟩

end Dedupe

def NotBothAssistant (a b : Message) : Prop := ¬ (a.role = .assistant ∧ b.role = .assistant)

theorem Exchanges.single_calls (h : Exchanges [m]) : m.toolCalls = [] := by
  generalize he : [m] = out at h
  cases h with
  | nil => cases he
  | cons hr hc hrs hrest =>
    obtain ⟨rfl, hnil⟩ := cons_eq_cons.mp he
    rw [(append_eq_nil_iff.mp hnil.symm).1] at hrs
    cases hcalls : m.toolCalls with
    | nil => rfl
    | cons c cs => rw [hcalls] at hrs; cases hrs

theorem Exchanges.mergeAssistants (h : Exchanges (pre ++ a :: b :: post))
    (ha : a.role = .assistant) (hb : b.role = .assistant) :
    Exchanges (pre ++ mergeAssistants a b :: post) ∧ a.toolCalls = [] := by
  have ha' : a.role ≠ .tool := by rw [ha]; decide
  have hb' : b.role ≠ .tool := by rw [hb]; decide
  obtain ⟨hpre, hrest⟩ := h.split ha'
  obtain ⟨hsingle, htail⟩ := @Exchanges.split [a] b post hrest hb'
  have hnil := hsingle.single_calls
  refine ⟨hpre.append ?_, hnil⟩
  cases htail with
  | cons hr hc hrs hpost =>
    have hcalls : (Agent.mergeAssistants a b).toolCalls = b.toolCalls := by
      rw [Agent.mergeAssistants, hnil, nil_append]
    exact .cons ha' (absurd ha) (by rw [hcalls]; exact hrs) hpost

structure Merging (acc rest : List Message) : Prop where
  exchanges : Exchanges (acc ++ rest)
  ids_nodup : (declaredIds (acc ++ rest)).Nodup
  separate : acc.IsChain NotBothAssistant

theorem Merging.step (h : Merging acc.1 (m :: rest)) : Merging (mergeStep acc m).1 rest := by
  rw [mergeStep]
  rcases eq_nil_or_concat acc.1 with hnil | ⟨pre, previous, hlast⟩
  · rw [hnil] at h ⊢
    exact ⟨h.exchanges, h.ids_nodup, isChain_singleton m⟩
  · rw [hlast, concat_eq_append] at h
    rw [hlast, concat_eq_append, getLast?_concat, dropLast_concat]
    have he := h.exchanges
    rw [append_assoc] at he
    dsimp only
    split
    · rename_i hboth
      obtain ⟨hex, hcalls⟩ := he.mergeAssistants hboth.1 hboth.2
      refine ⟨by simpa using hex, ?_, ?_⟩
      · simpa [declaredIds, hcalls, mergeAssistants, callIds] using h.ids_nodup
      · have hsep := h.separate
        rw [isChain_append] at hsep ⊢
        exact ⟨hsep.1, isChain_singleton _, by
          simpa [mergeAssistants, NotBothAssistant] using hsep.2.2⟩
    · rename_i hboth
      refine ⟨by simpa using he, by simpa using h.ids_nodup, ?_⟩
      rw [isChain_append]
      exact ⟨h.separate, isChain_singleton _, by simpa [NotBothAssistant] using hboth⟩

theorem Merging.run (h : Merging acc.1 messages) : Merging (messages.foldl mergeStep acc).1 [] := by
  induction messages generalizing acc with
  | nil => exact h
  | cons m messages ih => exact ih h.step

theorem dropLeadingNonUserMessages_suffix (messages : List Message) :
    ∃ pre, messages = pre ++ (dropLeadingNonUserMessages messages).1 ∧
      ∀ m post, (dropLeadingNonUserMessages messages).1 = m :: post → m.role = .user := by
  induction messages with
  | nil => exact ⟨[], rfl, by simp [dropLeadingNonUserMessages]⟩
  | cons m messages ih =>
    by_cases hm : m.role = .user
    · refine ⟨[], by simp [dropLeadingNonUserMessages, hm], ?_⟩
      intro m' post he
      simp only [dropLeadingNonUserMessages, hm, ne_eq, not_true_eq_false, ↓reduceIte, cons.injEq] at he
      exact he.1 ▸ hm
    · obtain ⟨pre, he, hu⟩ := ih
      have hdrop : (dropLeadingNonUserMessages (m :: messages)).1 = (dropLeadingNonUserMessages messages).1 := by
        simp [dropLeadingNonUserMessages, hm]
      rw [hdrop]
      exact ⟨m :: pre, by rw [cons_append, ← he], hu⟩

theorem Merging.trim (h : Merging messages []) : WellFormedRequest (dropLeadingNonUserMessages messages).1 := by
  obtain ⟨pre, he, hu⟩ := dropLeadingNonUserMessages_suffix messages
  have hex := h.exchanges
  have hn := h.ids_nodup
  have hsep := h.separate
  rw [append_nil] at hex hn
  generalize (dropLeadingNonUserMessages messages).1 = kept at he hu ⊢
  subst he
  rw [Dedupe.declaredIds_append] at hn
  refine Exchanges.wellFormed ?_ (nodup_append'.mp hn).2.1
    (isChain_append.mp hsep).2.1 hu
  cases kept with
  | nil => exact .nil
  | cons m post => exact (hex.split (by rw [hu m post rfl]; decide)).2

/-- Whatever the history, the strict projection sends a request that a strict provider accepts. -/
theorem projectStrict_wellFormed (history : List ContextMessage)
    (hcalls : CallsOnAssistants history) (hassistant : hasAssistant history = true) :
    ∃ out anomalies, projectStrict history = .ok (out, anomalies) ∧ WellFormedRequest out := by
  obtain ⟨projected, anomalies, hproject, hex⟩ := project_exchanges history hcalls hassistant
  have hsettled := Dedupe.Settled.start.run hex
  have hmerge : Merging [] (dedupeDuplicateToolCalls projected).1 :=
    ⟨hsettled.exchanges, hsettled.ids_nodup, .nil⟩
  have hmerged := @Merging.run ([], []) _ hmerge
  exact ⟨_, _, by rw [projectStrict, hproject]; rfl, hmerged.trim⟩

/-- A call with a lost result, a displaced result and a reused id. -/
def brokenHistory : List ContextMessage :=
  let x : ToolCall := ⟨"x", "t", none, none⟩
  let y : ToolCall := ⟨"y", "t", none, none⟩
  [{ role := .user, content := [.text "q"], origin := some .user },
    { role := .assistant, content := [], toolCalls := [x, y] },
    { role := .user, content := [.text "r"], origin := some .user },
    createToolMessage "x" [.text "1"],
    { role := .assistant, content := [], toolCalls := [x], isPartial := some true },
    { role := .assistant, content := [.text "a"], toolCalls := [x] }]

theorem projectStrict_wellFormed_broken : ∃ out anomalies, projectStrict brokenHistory = .ok (out, anomalies) ∧
      WellFormedRequest out := by
  refine projectStrict_wellFormed brokenHistory ?_ (by decide)
  intro m hm hr
  revert m
  decide

theorem emit_total (st : Projection) (source : ContextMessage) : ∃ st', st.emit source = .ok st' := by
  obtain ⟨⟨content, anomalies⟩, hcontent⟩ := projectedContent_ok source
  simp only [Projection.emit, hcontent, bind, Except.bind]
  split_ifs
  all_goals exact ⟨_, rfl⟩

theorem placeResult_total (st : Projection) (message : ContextMessage) (toolCallId : String) :
    ∃ st', st.placeResult message toolCallId = .ok st' := by
  unfold Projection.placeResult
  cases st.openSlots.get toolCallId with
  | none => exact ⟨_, rfl⟩
  | some slot =>
    obtain ⟨⟨content, anomalies⟩, hcontent⟩ := projectedContent_ok message
    simp only [hcontent]
    exact ⟨_, rfl⟩

theorem step_total (hasAssistant : Bool) (last : Int) (st : Projection) (entry : ContextMessage × Nat) :
    ∃ st', st.step hasAssistant last entry = .ok st' := by
  obtain ⟨message, index⟩ := entry
  unfold Projection.step
  dsimp only
  split_ifs
  · exact ⟨st, rfl⟩
  · exact emit_total st message
  · cases message.toolCallId with
    | none => exact ⟨st, rfl⟩
    | some toolCallId => exact placeResult_total st message toolCallId
  · obtain ⟨st', hemit⟩ := emit_total st message
    rw [hemit]
    exact ⟨_, rfl⟩

/-- What is sent for a tool result has something in it. -/
theorem projectedContent_nonempty (hrole : source.role = .tool)
    (h : projectedContent source = .ok (content, anomalies)) : content ≠ [] := by
  rw [projectedContent, cleanContent] at h
  split_ifs at h with hempty
  obtain ⟨hcontent, _⟩ := Prod.mk.inj (Except.ok.inj h)
  intro hnil
  rw [hnil] at hcontent
  exact hempty ⟨hrole, by rw [hcontent]; rfl⟩

/-- Every history can be projected, since every rendered tool result has a part that is not blank. -/
theorem projection_total (history : List ContextMessage) :
    (∃ out anomalies, project history = .ok (out, anomalies)) ∧
      (∃ out anomalies, projectStrict history = .ok (out, anomalies)) ∧
      (∀ result : RenderableToolResult, ∃ part ∈ renderToolResultForModel result, isBlankText part = false) ∧
      ∀ source : ContextMessage, source.role = .tool →
        ∃ content anomalies, projectedContent source = .ok (content, anomalies) ∧ content ≠ [] := by
  obtain ⟨st, hfold⟩ := foldlM_total (step_total (hasAssistant history) (lastNonToolIndex history)) history.zipIdx {}
  have hproject : project history = .ok ((st.finish (lastNonToolIndex history)).out,
      (st.finish (lastNonToolIndex history)).anomalies) := by
    rw [project, hfold]
    rfl
  refine ⟨⟨_, _, hproject⟩, ⟨_, _, by rw [projectStrict, hproject]; rfl⟩, exists_not_blank_render, ?_⟩
  intro source hrole
  obtain ⟨⟨content, anomalies⟩, hcontent⟩ := projectedContent_ok source
  exact ⟨content, anomalies, hcontent, projectedContent_nonempty hrole hcontent⟩

theorem projection_total_blank :
    (∃ out anomalies, project [createToolMessage "x" [.text " "]] = .ok (out, anomalies)) ∧
      ∃ content anomalies, projectedContent (createToolMessage "x" [.text " "]) = .ok (content, anomalies) ∧
        content ≠ [] := by
  obtain ⟨hproject, _, _, hcontent⟩ := projection_total [createToolMessage "x" [.text " "]]
  exact ⟨hproject, hcontent (createToolMessage "x" [.text " "]) rfl⟩

end Echadron.Agent
