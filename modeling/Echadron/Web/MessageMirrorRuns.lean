import Echadron.Web.MessageFeed

namespace Echadron.Web.MessageFeed
open Lib Server List Option

section

variable {U V : Type}

/-! One content on both sides. -/

/-- Content parts in their order, the live output of tools aside. -/
def SameContent (a b : List (MessageContent U V)) : Prop := a.map withoutOutput = b.map withoutOutput

theorem SameContent.refl (a : List (MessageContent U V)) : SameContent a a := rfl

theorem SameContent.append (h : SameContent a b) (h' : SameContent a' b') : SameContent (a ++ a') (b ++ b') := by
  rw [SameContent, map_append, map_append]
  exact congrArg₂ (· ++ ·) h h'

theorem SameContent.length_eq (h : SameContent a b) : a.length = b.length := by
  have hlength := congrArg length h
  rwa [length_map, length_map] at hlength

theorem withoutOutput_addOutputLine (toolCallId : String) (outputChunk : List U) (part : MessageContent U V) :
    withoutOutput (addOutputLine toolCallId outputChunk part) = withoutOutput part := by
  cases part with
  | toolUse id toolName input outputLines =>
    rw [addOutputLine]
    split <;> rfl
  | _ => rfl

theorem SameContent.addOutput {a b : List (MessageContent U V)} (h : SameContent a b) (toolCallId : String)
    (outputChunk : List U) : SameContent a (b.map (addOutputLine toolCallId outputChunk)) := by
  rw [SameContent, List.map_map]
  have hsame : withoutOutput ∘ addOutputLine toolCallId outputChunk = (withoutOutput (U := U) (V := V)) := by
    funext part
    exact withoutOutput_addOutputLine toolCallId outputChunk part
  rw [hsame]
  exact h

theorem withoutOutput_continue {kind : DeltaKind}
    (h : withoutOutput a = withoutOutput b) : continuePart kind delta a = continuePart kind delta b := by
  cases a <;> cases b <;> cases h <;> cases kind <;> rfl

theorem modify_concat (f : α → α) (init : List α) (last : α) :
    (init ++ [last]).modify init.length f = init ++ [f last] := by
  induction init with
  | nil => rfl
  | cons a init ih => exact congrArg (a :: ·) ih

theorem patchContent_last (kind : DeltaKind) (delta : List U) (init : List (MessageContent U V))
    (last : MessageContent U V) : patchContent init.length kind delta (init ++ [last]) =
      init ++ [(continuePart kind delta last).getD (partOf kind delta)] := by
  have hnone : init.length + 1 - (init ++ [last]).length = 0 := by
    rw [length_append]
    exact Nat.sub_self _
  rw [patchContent, hnone, replicate_zero, append_nil, modify_concat]

theorem patchContent_next (kind : DeltaKind) (delta : List U) (content : List (MessageContent U V)) :
    patchContent content.length kind delta content = content ++ [partOf kind delta] := by
  have hone : content.length + 1 - content.length = 1 := Nat.add_sub_cancel_left ..
  rw [patchContent, hone, replicate_one, modify_concat]
  cases kind <;> rfl

theorem patchContent_same {kind : DeltaKind} (h : SameContent a b) :
    SameContent (appendAssistantDelta kind delta a).1
      (patchContent (appendAssistantDelta kind delta a).2 kind delta b) := by
  rcases eq_nil_or_concat a with rfl | ⟨init, last, rfl⟩
  · have hb : b = [] := eq_nil_of_length_eq_zero h.length_eq.symm
    subst hb
    cases kind <;> rfl
  · rw [concat_eq_append] at h ⊢
    rw [appendAssistantDelta, getLast?_concat, bind_some]
    cases hpart : continuePart kind delta last with
    | none =>
      rw [h.length_eq, patchContent_next]
      exact h.append (SameContent.refl _)
    | some part =>
      rcases eq_nil_or_concat b with rfl | ⟨init', last', rfl⟩
      · have hlength := h.length_eq
        rw [length_append] at hlength
        cases hlength
      · rw [concat_eq_append] at h ⊢
        rw [SameContent, map_append, map_append] at h
        obtain ⟨hinit, hlast⟩ := append_inj' h rfl
        have hlast : withoutOutput last = withoutOutput last' := singleton_inj.mp hlast
        have hlength : init.length = init'.length := SameContent.length_eq hinit
        have hpart' : continuePart kind delta last' = some part := (withoutOutput_continue hlast).symm.trans hpart
        rw [dropLast_concat, length_append, length_singleton, Nat.add_sub_cancel, hlength,
          patchContent_last, hpart']
        exact SameContent.append hinit (SameContent.refl _)

def drawnNumber (m : FeedMessage U V) : Option Nat :=
  match m.id with
  | .drawn n => some n
  | .given _ => none

def withId (id : MessageId) (messages : List (FeedMessage U V)) : List (FeedMessage U V) :=
  messages.filter fun m => m.id = id

def Shown (shown : List (FeedMessage U V)) (m : FeedMessage U V) : Prop :=
  ∃ m', withId m.id shown = [m'] ∧ m'.role = m.role ∧ SameContent m.content m'.content

/-- Ids below `drawn` have been drawn; `log` is the projector's and `shown` the reducer's. -/
structure Mirrors (drawn : Nat) (log shown : List (FeedMessage U V)) : Prop where
  log_drawn : ∀ n ∈ log.filterMap drawnNumber, n < drawn
  shown_drawn : ∀ n ∈ shown.filterMap drawnNumber, n < drawn
  distinct : (log.filterMap drawnNumber).Nodup
  named : ∀ m ∈ log, m.role ≠ .user → ∃ n, m.id = .drawn n
  mirrored : ∀ m ∈ log, m.role ≠ .user → Shown shown m

theorem drawnNumber_of_id (h : m.id = .drawn n) : drawnNumber m = some n := by
  rw [drawnNumber, h]

theorem withId_append (id : MessageId) (a b : List (FeedMessage U V)) :
    withId id (a ++ b) = withId id a ++ withId id b := filter_append ..

theorem withId_singleton_ne {id : MessageId} (h : m.id ≠ id) : withId id [m] = [] := by
  rw [withId, filter_singleton, decide_eq_false h]
  rfl

theorem withId_singleton (m : FeedMessage U V) : withId m.id [m] = [m] := by
  rw [withId, filter_singleton, decide_eq_true rfl]
  rfl

section

variable {f : FeedMessage U V → FeedMessage U V} (hf : ∀ m, (f m).id = m.id)
include hf

theorem withId_map (id : MessageId)
    (messages : List (FeedMessage U V)) : withId id (messages.map f) = (withId id messages).map f := by
  rw [withId, List.filter_map]
  congr 1
  apply filter_congr
  intro m _
  rw [Function.comp, hf]

theorem drawnNumber_map (messages : List (FeedMessage U V)) :
    (messages.map f).filterMap drawnNumber = messages.filterMap drawnNumber := by
  rw [filterMap_map]
  apply filterMap_congr
  intro m _
  rw [Function.comp, drawnNumber, hf, drawnNumber]

end

variable {drawn : Nat} {log shown : List (FeedMessage U V)} {o : ReducerOptions U V}

theorem Mirrors.later (h : Mirrors drawn log shown) (hle : drawn ≤ drawn') : Mirrors drawn' log shown :=
  { h with
    log_drawn := fun n hn => Nat.lt_of_lt_of_le (h.log_drawn n hn) hle
    shown_drawn := fun n hn => Nat.lt_of_lt_of_le (h.shown_drawn n hn) hle }

theorem Mirrors.forgets (h : Mirrors drawn log shown) : Mirrors drawn [] shown where
  log_drawn := by simp
  shown_drawn := h.shown_drawn
  distinct := nodup_nil
  named := by simp
  mirrored := by simp

theorem not_shown (h : ∀ n ∈ shown.filterMap drawnNumber, n < drawn) : withId (.drawn drawn) shown = [] := by
  apply filter_eq_nil_iff.mpr
  intro m hm hid
  have hmem : drawn ∈ shown.filterMap drawnNumber :=
    mem_filterMap.mpr ⟨m, hm, drawnNumber_of_id (of_decide_eq_true hid)⟩
  exact Nat.lt_irrefl _ (h drawn hmem)

/-- A message that is not in the log yet is added on the reducer's side. -/
theorem Shown.append (h : Shown shown m) (hne : m'.id ≠ m.id) : Shown (shown ++ [m']) m := by
  obtain ⟨own, hown, hrole, hcontent⟩ := h
  refine ⟨own, ?_, hrole, hcontent⟩
  rw [withId_append, withId_singleton_ne hne, append_nil]
  exact hown

theorem Mirrors.created (h : Mirrors drawn log shown) (hid : m.id = .drawn drawn)
    (hkind : m.role ≠ .user ∨ m.cron = true) : Mirrors (drawn + 1) (log ++ [m]) (addMessage o shown m) := by
  have hnone : withId m.id shown = [] := hid ▸ not_shown h.shown_drawn
  have hany : (shown.any fun m' => m'.id = m.id) = false := by
    apply any_eq_false.mpr
    intro m' hm' hsame
    have hmem : m' ∈ withId m.id shown := mem_filter.mpr ⟨hm', hsame⟩
    rw [hnone] at hmem
    cases hmem
  have hadd : addMessage o shown m = shown ++ [m] := by
    have hplain : ¬ (m.role = .user ∧ (!m.cron) = true) := by
      rintro ⟨huser, hcron⟩
      rcases hkind with hrole | hcron'
      · exact hrole huser
      · rw [hcron'] at hcron
        cases hcron
    rw [addMessage, hany, if_neg Bool.false_ne_true, if_neg hplain]
  have hnumber (messages : List (FeedMessage U V)) :
      (messages ++ [m]).filterMap drawnNumber = messages.filterMap drawnNumber ++ [drawn] := by
    rw [filterMap_append]
    congr 1
    exact filterMap_cons_some (drawnNumber_of_id hid)
  have hlt {messages : List (FeedMessage U V)} (hmessages : ∀ n ∈ messages.filterMap drawnNumber, n < drawn) :
      ∀ n ∈ (messages ++ [m]).filterMap drawnNumber, n < drawn + 1 := by
    intro n hn
    rw [hnumber] at hn
    rcases mem_snoc.mp hn with hold | hnew
    · exact Nat.lt_succ_of_lt (hmessages n hold)
    · exact hnew ▸ Nat.lt_succ_self _
  rw [hadd]
  exact
    { log_drawn := hlt h.log_drawn
      shown_drawn := hlt h.shown_drawn
      distinct := by
        rw [hnumber, ← concat_eq_append]
        exact h.distinct.concat fun hmem => Nat.lt_irrefl _ (h.log_drawn drawn hmem)
      named := by
        intro m' hm' hrole
        rcases mem_snoc.mp hm' with hold | hnew
        · exact h.named m' hold hrole
        · exact ⟨drawn, hnew ▸ hid⟩
      mirrored := by
        intro m' hm' hrole
        rcases mem_snoc.mp hm' with hold | rfl
        · apply (h.mirrored m' hold hrole).append
          intro hsame
          have hmem : drawn ∈ log.filterMap drawnNumber :=
            mem_filterMap.mpr ⟨m', hold, drawnNumber_of_id (hsame.symm.trans hid)⟩
          exact Nat.lt_irrefl _ (h.log_drawn drawn hmem)
        · refine ⟨m', ?_, rfl, SameContent.refl _⟩
          rw [withId_append, hnone, withId_singleton, nil_append] }

/-! Messages of the user, which the reducer may already have under another id. -/

theorem withId_modify (hf : ∀ m, (f m).id = m.id) {id : MessageId}
    {messages : List (FeedMessage U V)} (hne : ∀ m, messages[i]? = some m → m.id ≠ id) :
    withId id (messages.modify i f) = withId id messages := by
  induction messages generalizing i with
  | nil => rw [modify_nil]
  | cons m messages ih =>
    cases i with
    | zero =>
      have hm : m.id ≠ id := hne m rfl
      have hfm : (f m).id ≠ id := fun h => hm ((hf m).symm.trans h)
      rw [modify_zero_cons, withId, withId, filter_cons_of_neg (by rwa [decide_eq_true_eq]),
        filter_cons_of_neg (by rwa [decide_eq_true_eq])]
    | succ i =>
      rw [modify_succ_cons, withId, withId, filter_cons, filter_cons]
      have hrest : withId id (messages.modify i f) = withId id messages := ih hne
      rw [withId, withId] at hrest
      rw [hrest]

theorem drawnNumber_modify (hf : ∀ m, (f m).id = m.id) (messages : List (FeedMessage U V)) (i : Nat) :
    (messages.modify i f).filterMap drawnNumber = messages.filterMap drawnNumber := by
  induction messages generalizing i with
  | nil => rw [modify_nil]
  | cons m messages ih =>
    cases i with
    | zero =>
      have hfm : drawnNumber (f m) = drawnNumber m := by rw [drawnNumber, hf, drawnNumber]
      rw [modify_zero_cons, filterMap_cons, filterMap_cons, hfm]
    | succ i => rw [modify_succ_cons, filterMap_cons, filterMap_cons, ih]

theorem findLastIndex_holds
    (h : findLastIndex p messages = some i) : ∃ m, messages[i]? = some m ∧ p m = true := by
  obtain ⟨j, hj, rfl⟩ := map_eq_some_iff.mp h
  obtain ⟨hlt, hp, _⟩ := findIdx?_eq_some_iff_getElem.mp hj
  refine ⟨messages.reverse[j], ?_, hp⟩
  rw [getElem_reverse]
  exact getElem?_eq_getElem _

theorem echo_user (h : findOptimisticUserEchoIndex o shown message = some i) :
    ∃ m, shown[i]? = some m ∧ m.role = .user := by
  have hoptimistic {q : FeedMessage U V → Bool}
      (hq : findLastIndex (fun m => isOptimisticUserMessage m && q m) shown = some i) :
      ∃ m, shown[i]? = some m ∧ m.role = .user := by
    obtain ⟨m, hm, hp⟩ := findLastIndex_holds hq
    have huser : (decide (m.role = .user) && m.optimistic) = true := (Bool.and_eq_true_iff.mp hp).1
    exact ⟨m, hm, of_decide_eq_true (Bool.and_eq_true_iff.mp huser).1⟩
  rcases or_eq_some_iff.mp h with hfirst | ⟨_, hloose⟩
  · rcases or_eq_some_iff.mp hfirst with hprompt | ⟨_, hcontent⟩
    · split at hprompt
      · exact hoptimistic hprompt
      · cases hprompt
    · exact hoptimistic hcontent
  · exact hoptimistic hloose

theorem Shown.role_of_mem (h : Shown shown m) (hm' : m' ∈ shown) (hid : m'.id = m.id) : m'.role = m.role := by
  obtain ⟨own, hown, hrole, _⟩ := h
  have hmem : m' ∈ withId m.id shown := mem_filter.mpr ⟨hm', decide_eq_true hid⟩
  rw [hown] at hmem
  rw [mem_singleton.mp hmem]
  exact hrole

theorem addMessage_given {m : FeedMessage U V} {id : String} (hid : m.id = .given id) :
    (addMessage o shown m).filterMap drawnNumber = shown.filterMap drawnNumber ∧
      ∀ other : FeedMessage U V, other.role ≠ .user → (∃ n, other.id = .drawn n) → Shown shown other →
        Shown (addMessage o shown m) other := by
  have hnumber : drawnNumber m = none := by rw [drawnNumber, hid]
  have happended : (shown ++ [m]).filterMap drawnNumber = shown.filterMap drawnNumber := by
    rw [filterMap_append, filterMap_cons_none hnumber, filterMap_nil, append_nil]
  rw [addMessage]
  split
  · exact ⟨rfl, fun _ _ _ h => h⟩
  · split
    · rename_i index hindex
      have hecho : findOptimisticUserEchoIndex o shown m = some index := by
        split at hindex
        · exact hindex
        · cases hindex
      obtain ⟨echo, hat, huser⟩ := echo_user hecho
      have hkeeps (echo : FeedMessage U V) : (reconcile echo m).id = echo.id := rfl
      refine ⟨drawnNumber_modify hkeeps shown index, ?_⟩
      rintro other hother _ hshown
      obtain ⟨own, hown, hownRole, hcontent⟩ := hshown
      refine ⟨own, ?_, hownRole, hcontent⟩
      rw [withId_modify hkeeps]
      · exact hown
      · intro m' hm' hsame
        obtain rfl := mem_unique hat hm'
        have hrole' := Shown.role_of_mem ⟨own, hown, hownRole, hcontent⟩ (mem_of_getElem? hat) hsame
        exact hother (hrole'.symm.trans huser)
    · refine ⟨happended, ?_⟩
      rintro other _ ⟨n, hn⟩ hshown
      apply hshown.append
      rw [hid, hn]
      exact MessageId.noConfusion

theorem Mirrors.user (h : Mirrors drawn log shown) {id : String} (hrole : m.role = .user)
    (hid : m.id = .given id) : Mirrors drawn (log ++ [m]) (addMessage o shown m) := by
  obtain ⟨hnumbers, hothers⟩ := @addMessage_given _ _ shown o m id hid
  have hlog : (log ++ [m]).filterMap drawnNumber = log.filterMap drawnNumber := by
    have hnumber : drawnNumber m = none := by rw [drawnNumber, hid]
    rw [filterMap_append, filterMap_cons_none hnumber, filterMap_nil, append_nil]
  have hmem {m' : FeedMessage U V} (hm' : m' ∈ log ++ [m]) (hrole' : m'.role ≠ .user) : m' ∈ log := by
    rcases mem_snoc.mp hm' with hold | hnew
    · exact hold
    · exact absurd (hnew ▸ hrole) hrole'
  exact
    { log_drawn := hlog ▸ h.log_drawn
      shown_drawn := hnumbers ▸ h.shown_drawn
      distinct := hlog ▸ h.distinct
      named := fun m' hm' hrole' => h.named m' (hmem hm' hrole') hrole'
      mirrored := fun m' hm' hrole' =>
        hothers m' hrole' (h.named m' (hmem hm' hrole') hrole') (h.mirrored m' (hmem hm' hrole') hrole') }

/-- A marker of a compaction is no message of the projector's. -/
theorem Mirrors.marked (h : Mirrors drawn log shown) {id : String} (hid : m.id = .given id) :
    Mirrors drawn log (shown ++ [m]) :=
  { h with
    shown_drawn := by
      have hnumber : drawnNumber m = none := by rw [drawnNumber, hid]
      rw [filterMap_append, filterMap_cons_none hnumber, filterMap_nil, append_nil]
      exact h.shown_drawn
    mirrored := by
      intro m' hm' hrole
      obtain ⟨n, hn⟩ := h.named m' hm' hrole
      apply (h.mirrored m' hm' hrole).append
      rw [hid, hn]
      exact MessageId.noConfusion }

theorem Mirrors.map (h : Mirrors drawn log shown) {f g : FeedMessage U V → FeedMessage U V}
    (hf : ∀ m, (f m).id = m.id) (hg : ∀ m, (g m).id = m.id) (hfrole : ∀ m, (f m).role = m.role)
    (hgrole : ∀ m, (g m).role = m.role)
    (hcontent : ∀ m ∈ log, ∀ m', m'.id = m.id → SameContent m.content m'.content →
      SameContent (f m).content (g m').content) : Mirrors drawn (log.map f) (shown.map g) where
  log_drawn := (drawnNumber_map hf log).symm ▸ h.log_drawn
  shown_drawn := (drawnNumber_map hg shown).symm ▸ h.shown_drawn
  distinct := (drawnNumber_map hf log).symm ▸ h.distinct
  named := by
    intro m' hm' hrole
    obtain ⟨m, hm, rfl⟩ := mem_map.mp hm'
    rw [hf]
    exact h.named m hm (hfrole m ▸ hrole)
  mirrored := by
    intro m' hm' hrole
    obtain ⟨m, hm, rfl⟩ := mem_map.mp hm'
    obtain ⟨own, hown, hownRole, hsame⟩ := h.mirrored m hm (hfrole m ▸ hrole)
    have hid : own.id = m.id := by
      have hmem : own ∈ withId m.id shown := hown ▸ mem_singleton_self own
      exact of_decide_eq_true (mem_filter.mp hmem).2
    refine ⟨g own, ?_, ?_, hcontent m hm own hid hsame⟩
    · rw [hf, withId_map hg, hown, map_singleton]
    · rw [hgrole, hfrole, hownRole]

theorem find_of_mem (h : (log.filterMap drawnNumber).Nodup) (hm : m ∈ log)
    (hid : m.id = .drawn n) : (log.find? fun m' => m'.id = .drawn n) = some m := by
  induction log with
  | nil => cases hm
  | cons first log ih =>
    by_cases hfirst : first.id = .drawn n
    · rw [find?_cons, decide_eq_true hfirst]
      rw [filterMap_cons_some (drawnNumber_of_id hfirst)] at h
      rcases mem_cons.mp hm with rfl | hmem
      · rfl
      · have hagain : n ∈ log.filterMap drawnNumber := mem_filterMap.mpr ⟨m, hmem, drawnNumber_of_id hid⟩
        exact absurd hagain (nodup_cons.mp h).1
    · rw [find?_cons, decide_eq_false hfirst]
      have hmem : m ∈ log := by
        rcases mem_cons.mp hm with rfl | hmem
        · exact absurd hid hfirst
        · exact hmem
      have hrest : (log.filterMap drawnNumber).Nodup :=
        h.sublist (List.Sublist.filterMap drawnNumber (sublist_cons_self ..))
      exact ih hrest hmem

def rewrite (id : MessageId) (f : List (MessageContent U V) → List (MessageContent U V)) (m : FeedMessage U V) :
    FeedMessage U V := if m.id = id then { m with content := f m.content } else m

section

variable (id : MessageId) (f : List (MessageContent U V) → List (MessageContent U V)) (m : FeedMessage U V)

theorem rewrite_id : (rewrite id f m).id = m.id := by
  rw [rewrite]
  split <;> rfl

theorem rewrite_role : (rewrite id f m).role = m.role := by
  rw [rewrite]
  split <;> rfl

end

theorem updateMessage_eq_map
    (h : (log.filterMap drawnNumber).Nodup) : updateMessage (.drawn n) f log = log.map (rewrite (.drawn n) f) := by
  induction log with
  | nil => rfl
  | cons first log ih =>
    have hrest : (log.filterMap drawnNumber).Nodup :=
      h.sublist (List.Sublist.filterMap drawnNumber (sublist_cons_self ..))
    by_cases hfirst : first.id = .drawn n
    · rw [updateMessage, if_pos hfirst, map_cons, rewrite, if_pos hfirst]
      rw [filterMap_cons_some (drawnNumber_of_id hfirst)] at h
      have hsame : log.map (rewrite (.drawn n) f) = log.map id := by
        apply map_congr_left
        intro m hm
        apply if_neg
        intro hid
        exact (nodup_cons.mp h).1 (mem_filterMap.mpr ⟨m, hm, drawnNumber_of_id hid⟩)
      rw [hsame, List.map_id]
    · rw [updateMessage, if_neg hfirst, map_cons, rewrite, if_neg hfirst, ih hrest]

end

variable {U V : Type} {o : ReducerOptions U V} {seq : Nat} {p q : ProjectorState U V}
  {messages : Option (List (FeedMessage U V))}

/-- The two logs agree, and the messages that the projector goes on with are of its own making. -/
structure Mirrored (p : ProjectorState U V) (messages : Option (List (FeedMessage U V))) : Prop where
  mirrors : Mirrors p.drawn p.messages (messages.getD [])
  current : ∀ id ∈ p.currentAssistantMsgId, ∃ n, id = .drawn n
  reuse : ∀ id ∈ p.retryReuseMsgId, ∃ n, id = .drawn n

def Told (o : ReducerOptions U V) (seq : Nat) (messages : Option (List (FeedMessage U V)))
    (projected : ProjectorState U V × List (FeedEvent U V)) : Prop :=
  Mirrored projected.1 (projected.2.foldl (reduceAppEvent o seq) messages)

theorem Mirrored.later (h : Mirrored p messages) (hlog : q.messages = p.messages) (hle : p.drawn ≤ q.drawn)
    (hcurrent : ∀ id ∈ q.currentAssistantMsgId, ∃ n, id = .drawn n)
    (hreuse : ∀ id ∈ q.retryReuseMsgId, ∃ n, id = .drawn n) : Mirrored q messages where
  mirrors := by
    rw [hlog]
    exact h.mirrors.later hle
  current := hcurrent
  reuse := hreuse

theorem none_drawn (id : MessageId) (h : id ∈ (none : Option MessageId)) : ∃ n, id = .drawn n := by cases h

theorem some_drawn (n : Nat) (id : MessageId) (h : id ∈ some (MessageId.drawn n)) : ∃ n, id = .drawn n :=
  ⟨n, (mem_some.mp h).symm⟩

section

variable (h : Mirrored p messages)
include h

theorem Mirrored.startMessage (hkind : role ≠ .user ∨ cron = true) :
    Told o seq messages (p.startMessage role promptId content cron) where
  mirrors := h.mirrors.created rfl hkind
  current := h.current
  reuse := h.reuse

theorem Mirrored.startAssistantMessage (promptId : MessageId)
    (content : List (MessageContent U V)) : Told o seq messages (p.startAssistantMessage promptId content) where
  mirrors := h.mirrors.created (o := o) rfl (.inl fun hrole => MessageRole.noConfusion hrole)
  current := some_drawn _
  reuse := h.reuse

theorem Mirrored.startUserMessage (promptId : MessageId) (userMessageId : String)
    (content : List (MessageContent U V)) :
    Told o seq messages (p.startUserMessage promptId userMessageId content) where
  mirrors := h.mirrors.user rfl rfl
  current := h.current
  reuse := h.reuse

theorem Mirrored.promptOf (turnId : Option Nat) : Mirrored (p.promptOf turnId).2 messages := by
  rw [ProjectorState.promptOf]
  split
  · exact h
  · exact h.later rfl (Nat.le_succ _) h.current h.reuse

theorem Mirrored.startStep (promptId : MessageId) : Told o seq messages (p.startStep promptId) := by
  rw [ProjectorState.startStep]
  split
  · exact h.startAssistantMessage promptId []
  · rename_i reuseId hreuse
    split
    · refine h.later rfl (Nat.le_refl _) ?_ none_drawn
      intro id hid
      exact h.reuse id (hreuse ▸ hid)
    · have hforgotten : Mirrored { p with retryReuseMsgId := none } messages :=
        h.later rfl (Nat.le_refl _) h.current none_drawn
      exact hforgotten.startAssistantMessage promptId []

end

theorem setStreamLen_mirrored (h : Mirrored p messages) (kind : DeltaKind) (n : Nat) :
    Mirrored (p.setStreamLen kind n) messages := by
  cases kind <;> exact h.later rfl (Nat.le_refl _) h.current h.reuse

theorem Mirrors.updated
    (h : Mirrors drawn p.messages (messages.getD []))
    (hlog : q.messages = p.messages.map (rewrite (.drawn n) f)) :
    Mirrors drawn q.messages (((q.updated (.drawn n) durationMs).foldl (reduceAppEvent o seq) messages).getD []) := by
  have hnumbers : (q.messages.filterMap drawnNumber).Nodup := by
    rw [hlog, drawnNumber_map (rewrite_id _ f)]
    exact h.distinct
  have hfinds {m : FeedMessage U V} (hm : m ∈ p.messages) (hid : m.id = .drawn n) :
      q.getMsgById (.drawn n) = some { m with content := f m.content } := by
    have hmem : { m with content := f m.content } ∈ q.messages := by
      rw [hlog]
      exact mem_map.mpr ⟨m, hm, if_pos hid⟩
    exact find_of_mem hnumbers hmem hid
  rw [ProjectorState.updated]
  split
  · rename_i msg hmsg
    have hkeeps (m : FeedMessage U V) :
        (if m.id = .drawn n then { m with content := msg.content, durationMs := durationMs.or m.durationMs }
          else m).id = m.id := by split <;> rfl
    have hkeepsRole (m : FeedMessage U V) :
        (if m.id = .drawn n then { m with content := msg.content, durationMs := durationMs.or m.durationMs }
          else m).role = m.role := by split <;> rfl
    rw [hlog]
    apply h.map (rewrite_id _ f) hkeeps (rewrite_role _ f) hkeepsRole
    intro m hm m' hid hsame
    rw [rewrite, hid]
    by_cases hn : m.id = .drawn n
    · rw [if_pos hn, if_pos hn]
      obtain rfl := mem_unique (hfinds hm hn) hmsg
      exact SameContent.refl _
    · rw [if_neg hn, if_neg hn]
      exact hsame
  · rename_i hnone
    have hother : p.messages.map (rewrite (.drawn n) f) = p.messages.map id := by
      apply map_congr_left
      intro m hm
      apply if_neg
      intro hid
      rw [hfinds hm hid] at hnone
      cases hnone
    rw [hlog, hother, List.map_id]
    exact h

theorem rewrite_same (id : MessageId) (messages : List (FeedMessage U V)) :
    messages.map (rewrite id fun content => content) = messages := by
  have hsame : rewrite id (fun content => content) = (fun m : FeedMessage U V => m) := by
    funext m
    rw [rewrite]
    split <;> rfl
  rw [hsame, List.map_id']

theorem Mirrors.restated (h : Mirrors drawn p.messages (messages.getD []))
    (hcurrent : ∀ id ∈ p.currentAssistantMsgId, ∃ n, id = .drawn n) :
    Mirrors drawn p.messages (((p.currentAssistantMsgId.elim [] fun msgId => p.updated msgId durationMs).foldl
      (reduceAppEvent o seq) messages).getD []) := by
  cases hmsg : p.currentAssistantMsgId with
  | none => exact h
  | some msgId =>
    obtain ⟨n, rfl⟩ := hcurrent msgId hmsg
    exact h.updated (rewrite_same _ _).symm

theorem Mirrors.delta {drawn n : Nat} {kind : DeltaKind} {delta : List U} {msg : FeedMessage U V}
    (h : Mirrors drawn q.messages (messages.getD [])) (hfound : q.getMsgById (.drawn n) = some msg) :
    Mirrors drawn (updateMessage (.drawn n) (fun content => (appendAssistantDelta kind delta content).1) q.messages)
      ((reduceAppEvent o seq messages
        (.assistantDelta (.drawn n) (appendAssistantDelta kind delta msg.content).2 kind delta)).getD []) := by
  rw [updateMessage_eq_map h.distinct]
  refine h.map (rewrite_id _ _) ?_ (rewrite_role _ _) ?_ ?_
  · intro m
    split <;> rfl
  · intro m
    split <;> rfl
  · intro m hm m' hid hsame
    rw [rewrite, hid]
    by_cases hn : m.id = .drawn n
    · rw [if_pos hn, if_pos hn]
      obtain rfl := mem_unique (find_of_mem h.distinct hm hn) hfound
      exact patchContent_same hsame
    · rw [if_neg hn, if_neg hn]
      exact hsame

theorem Mirrored.projectDelta (h : Mirrored p messages) (kind : DeltaKind) (delta : List U) (offset : Option Int) :
    Told o seq messages (p.projectDelta kind delta offset) := by
  rw [ProjectorState.projectDelta]
  split
  · exact h
  · rename_i msgId hmsg
    split
    · exact h
    · have hreset : Mirrored (if offset = some 0 ∧ 0 < p.streamLen kind then p.setStreamLen kind 0 else p)
          messages := by
        split
        · exact setStreamLen_mirrored h kind 0
        · exact h
      dsimp only
      split
      · exact hreset
      · exact hreset
      · split
        · exact hreset
        · rename_i msg hfound
          obtain ⟨n, rfl⟩ := h.current msgId hmsg
          apply setStreamLen_mirrored
          exact { hreset with mirrors := @Mirrors.delta _ _ o seq _ _ _ _ _ _ _ hreset.mirrors hfound }

theorem Mirrored.retryStep (h : Mirrored p messages) : Told o seq messages p.retryStep := by
  rw [ProjectorState.retryStep]
  split
  · exact h
  · rename_i msgId hmsg
    obtain ⟨n, rfl⟩ := h.current msgId hmsg
    split
    · exact h
    · exact
        { mirrors := h.mirrors.updated (updateMessage_eq_map h.mirrors.distinct)
          current := h.current
          reuse := some_drawn n }

theorem Mirrored.usesTool (h : Mirrored p messages) (part : MessageContent U V)
    (hmsg : p.currentAssistantMsgId = some msgId) :
    Mirrored { p with messages := updateMessage msgId (fun content => content ++ [part]) p.messages }
      ((({ p with messages := updateMessage msgId (fun content => content ++ [part]) p.messages } :
        ProjectorState U V).updated msgId none).foldl (reduceAppEvent o seq) messages) := by
  obtain ⟨n, rfl⟩ := h.current msgId hmsg
  exact
    { mirrors := h.mirrors.updated (updateMessage_eq_map h.mirrors.distinct)
      current := h.current
      reuse := h.reuse }

theorem Mirrors.output {log shown : List (FeedMessage U V)} (h : Mirrors drawn log shown)
    (toolCallId : String) (chunk : List U) :
    Mirrors drawn log (shown.map fun m => { m with content := m.content.map (addOutputLine toolCallId chunk) }) := by
  have hlog := h.map (f := fun m => m) (g := fun m => { m with content := m.content.map (addOutputLine toolCallId chunk) })
    (fun _ => rfl) (fun _ => rfl) (fun _ => rfl) (fun _ => rfl)
    (fun _ _ _ _ hsame => hsame.addOutput toolCallId chunk)
  rwa [List.map_id'] at hlog

theorem Mirrors.compacted (h : Mirrors drawn log (messages.getD [])) (summary : Option (List U)) :
    Mirrors drawn log ((reduceAppEvent o seq messages (.compactionCompleted summary)).getD []) := by
  cases messages with
  | none => exact h
  | some shown =>
    simp only [reduceAppEvent, map_some]
    split
    · exact h
    · exact h.marked rfl

theorem Mirrored.project (h : Mirrored p messages) (raw : RawFrame U V) : Told o seq messages (p.project raw) := by
  cases raw with
  | promptSubmitted promptId userMessageId content =>
    rw [ProjectorState.project]
    split
    · exact h
    · have hcurrent : Mirrored { p with currentPromptId := some (.given promptId) } messages :=
        h.later rfl (Nat.le_refl _) h.current h.reuse
      exact hcurrent.startUserMessage _ _ _
  | turnStarted turnId =>
    refine h.later rfl ?_ h.current h.reuse
    change p.drawn ≤ if p.currentPromptId.isSome then p.drawn else p.drawn + 1
    split
    · exact Nat.le_refl _
    · exact Nat.le_succ _
  | stepStarted turnId =>
    have hprompt := h.promptOf turnId
    have hcleared : Mirrored (p.promptOf turnId).2.clearLens messages :=
      hprompt.later rfl (Nat.le_refl _) hprompt.current hprompt.reuse
    exact hcleared.startStep _
  | delta kind delta offset => exact h.projectDelta kind delta offset
  | toolCallStarted turnId toolCallId toolName args =>
    rw [ProjectorState.project]
    split
    · rename_i msgId _ hmsg _
      exact h.usesTool _ hmsg
    · exact h
  | toolProgress toolCallId chunk =>
    rw [ProjectorState.project]
    split
    · exact h
    · exact { h with mirrors := h.mirrors.output toolCallId chunk }
  | toolResult turnId toolCallId output isError =>
    have hstarted : Told o seq messages ((p.promptOf turnId).2.startMessage .tool (some (p.promptOf turnId).1)
        [.toolResult toolCallId output isError] false) :=
      (h.promptOf turnId).startMessage (.inl fun hrole => MessageRole.noConfusion hrole)
    exact hstarted.later rfl (Nat.le_refl _) none_drawn hstarted.reuse
  | stepCompleted => exact { h with mirrors := h.mirrors.restated h.current }
  | stepRetrying =>
    have hretried : Told o seq messages p.retryStep := h.retryStep
    exact hretried.later rfl (Nat.le_refl _) hretried.current hretried.reuse
  | stepInterrupted => exact h.later rfl (Nat.le_refl _) none_drawn none_drawn
  | turnEnded durationMs =>
    exact
      { mirrors := h.mirrors.restated h.current
        current := none_drawn
        reuse := none_drawn }
  | cronFired prompt =>
    rw [ProjectorState.project]
    split
    · exact h
    · exact h.startMessage (.inr rfl)
  | compactionCompleted summary => exact { h with mirrors := h.mirrors.compacted summary }
  | unrelated => exact h

theorem Mirrored.reset (h : Mirrored p messages) : Mirrored p.reset messages where
  mirrors := h.mirrors.forgets
  current := none_drawn
  reuse := none_drawn

theorem Mirrored.seedInFlight (h : Mirrored p messages) (turn : SnapshotTurn U V) :
    Told o seq messages (p.seedInFlight turn) := by
  have hfresh (q : ProjectorState U V) (hlog : q.messages = []) (hdrawn : q.drawn = p.drawn + 1)
      (hcurrent : q.currentAssistantMsgId = none) (hreuse : q.retryReuseMsgId = none) : Mirrored q messages :=
    { mirrors := by
        rw [hlog, hdrawn]
        exact h.mirrors.forgets.later (Nat.le_succ _)
      current := hcurrent ▸ none_drawn
      reuse := hreuse ▸ none_drawn }
  obtain ⟨promptId, hprompt⟩ : ∃ promptId, turn.promptId.elim (MessageId.drawn p.drawn) MessageId.given = promptId :=
    ⟨_, rfl⟩
  rw [ProjectorState.seedInFlight, hprompt]
  have hstarted : Told o seq messages
      (({ drawn := p.drawn + 1
          turnPromptId := JsMap.empty.set turn.turnId promptId } : ProjectorState U V).startAssistantMessage promptId
            (ProjectorState.seededContent turn)) :=
    (hfresh _ rfl rfl rfl rfl).startAssistantMessage promptId _
  exact hstarted.later rfl (Nat.le_refl _) hstarted.current hstarted.reuse

theorem Mirrored.step {s : WebClient U V} (h : Mirrored s.projector s.messages) (e : ClientEvent U V) :
    Mirrored (s.step o e).projector (s.step o e).messages := by
  cases e with
  | frame raw seq =>
    have hprojected : Told o seq s.messages (s.projector.project raw) := h.project raw
    exact hprojected
  | seed turn seq =>
    have hseeded : Told o seq s.messages (s.projector.seedInFlight turn) := h.seedInFlight turn
    exact hseeded
  | bindNextPromptId promptId => exact h.later rfl (Nat.le_refl _) h.current h.reuse
  | reset => exact h.reset

/-- Whatever has come in, the reducer has one message for each of the projector's that is not the user's, and its parts
are the same. -/
theorem shown_of_run (o : ReducerOptions U V) (drawn : Nat) (start : Option (List (FeedMessage U V)))
    (hstart : ∀ m ∈ start.getD [], ∀ n, m.id = .drawn n → n < drawn) (events : List (ClientEvent U V)) :
    ∀ m ∈ (events.foldl (WebClient.step o) { projector := { drawn }, messages := start }).projector.messages,
      m.role ≠ .user →
        ∃ m', ((events.foldl (WebClient.step o) { projector := { drawn }, messages := start }).messages.getD []).filter
            (fun shown => shown.id = m.id) = [m'] ∧ m'.role = m.role ∧
          m.content.map withoutOutput = m'.content.map withoutOutput := by
  have hfirst : Mirrored ({ drawn } : ProjectorState U V) start := by
    refine ⟨⟨by simp, ?_, nodup_nil, by simp, by simp⟩, none_drawn, none_drawn⟩
    intro n hn
    obtain ⟨m, hm, hnumber⟩ := mem_filterMap.mp hn
    apply hstart m hm n
    rw [drawnNumber] at hnumber
    split at hnumber
    · rename_i hid
      rw [hid, some.inj hnumber]
    · cases hnumber
  have hlast := fold_invariant (I := fun s : WebClient U V => Mirrored s.projector s.messages)
    (fun s e hs => hs.step (o := o) e) (s := ⟨{ drawn }, start⟩) hfirst events
  exact hlast.mirrors.mirrored

def retriedStep : List (ClientEvent Char String) :=
  [.frame (.promptSubmitted "p" "m" [.text ['q']]) 1, .frame (.turnStarted (some 1)) 2,
    .frame (.stepStarted (some 1)) 3, .frame (.delta .assistant ['a'] (some 0)) 4, .frame .stepRetrying 5,
    .frame (.stepStarted (some 1)) 6, .frame (.delta .thinking ['t'] (some 0)) 7,
    .frame (.delta .assistant ['b'] (some 0)) 8]

def noEchoes : ReducerOptions Char String where
  sessionId := "s"
  sameMessageContent _ _ := false
  sameUserMessageLoosely _ _ := false

theorem retriedStep_shown :
    ∃ m ∈ (retriedStep.foldl (WebClient.step noEchoes) ⟨{ drawn := 0 }, none⟩).projector.messages,
      m.content = [.thinking ['t'] none, .text ['b']] ∧
        ∃ m', ((retriedStep.foldl (WebClient.step noEchoes) ⟨{ drawn := 0 }, none⟩).messages.getD []).filter
            (fun shown => shown.id = m.id) = [m'] ∧ m'.role = m.role ∧
          m.content.map withoutOutput = m'.content.map withoutOutput := by
  have hmem : (⟨.drawn 0, .assistant, [.thinking ['t'] none, .text ['b']], some (.given "p"), none, false, false⟩ :
      FeedMessage Char String) ∈
        (retriedStep.foldl (WebClient.step noEchoes) ⟨{ drawn := 0 }, none⟩).projector.messages := by
    decide +kernel
  exact ⟨_, hmem, rfl, shown_of_run noEchoes 0 none (by simp) retriedStep _ hmem (by decide)⟩

end Echadron.Web.MessageFeed
