import Echadron.Transcript.Overlap

namespace Echadron.Transcript
open Lib List Option

variable {C : Type} [DecidableEq C] {nt : NumberText} {P F : AgentState C}
  {ops : List (TranscriptOperation C)}

omit [DecidableEq C] in
theorem frameIds_nodup (h : Timeline nt items) (id stepId : Text) :
    (frameIdsOf ((getTurn items id).bind (getStep · stepId))).Nodup := by
  cases hstep : (getTurn items id).bind (getStep · stepId) with
  | none => exact nodup_nil
  | some step =>
    obtain ⟨turn, hturn, hget⟩ := bind_eq_some_iff.mp hstep
    exact (h.turn_of_get hturn).1.frames_nodup step (getStep_mem hget).1

theorem idsWithin_applyAll
    (hs : Reachable nt (Documented nt) state) (hops : ∀ op ∈ ops, Plain nt op)
    (hwithin : ∀ k ∈ within, k ∈ state.items.map itemIdOf)
    (hkept : ∀ ids, .itemsRemove ids ∈ ops → ∀ k ∈ ids, k ∉ within) :
    idsWithin within (applyAll nt state ops).items = idsWithin within state.items := by
  induction ops generalizing state with
  | nil => rfl
  | cons op ops ih =>
    obtain ⟨hop, hops⟩ := forall_mem_cons.mp hops
    have hkeptOp : ∀ ids, op = .itemsRemove ids → ∀ k ∈ ids, k ∉ within := by
      rintro ids rfl
      exact hkept ids mem_cons_self
    have hstep := idsWithin_apply hs hop hwithin hkeptOp
    have hthere : ∀ k ∈ within, k ∈ (applyOperation nt state op).state.items.map itemIdOf := by
      intro k hk
      have hmem : k ∈ idsWithin within state.items := mem_filter.mpr ⟨hwithin k hk, decide_eq_true hk⟩
      rw [← hstep] at hmem
      exact (mem_filter.mp hmem).1
    have hrest := ih (hs.step hop.genuine) hops hthere fun ids h => hkept ids (mem_cons_of_mem _ h)
    exact hrest.trans hstep

namespace Overlap

section

variable (h : Overlap nt P F ops)
include h

theorem replayed : Reachable nt (Documented nt) (applyAll nt F ops) := h.consumer.plain h.plain

theorem removed (hmem : .itemsRemove ids ∈ ops) (hk : k ∈ ids) : itemAt F.items k = none := by
  obtain ⟨pre, post, hsplit⟩ := append_of_mem hmem
  exact h.replayable.removed h.producer h.plain h.loaded hsplit hk

theorem turn (q : ℚ) : getTurn (applyAll nt F ops).items (turnId nt q) = getTurn F.items (turnId nt q) := by
  have hheader := h.turnHeader q
  cases hthere : getTurn F.items (turnId nt q) with
  | none =>
    rw [hthere] at hheader
    exact map_eq_none_iff.mp hheader
  | some t =>
    have hkept : ∀ ids, .itemsRemove ids ∈ ops → turnId nt q ∉ ids := by
      intro ids hmem hk
      have hnone := h.removed hmem hk
      rw [itemAt_turn h.consumer.timeline, hthere] at hnone
      cases hnone
    rw [← hthere]
    apply turn_eq (fun t ht => (h.replayed.turn_of_get ht).1)
      (fun t ht => (h.consumer.turn_of_get ht).1) hheader
    intro stepId
    apply step_eq (h.stepHeader q stepId) (h.frameIds hkept stepId)
    · exact frameIds_nodup h.replayed.timeline (turnId nt q) stepId
    · exact h.frame q stepId

theorem item (k : Text) : itemAt (applyAll nt F ops).items k = itemAt F.items k := by
  by_cases hk : ∃ q, k = turnId nt q
  · obtain ⟨q, rfl⟩ := hk
    rw [itemAt_turn h.replayed.timeline, itemAt_turn h.consumer.timeline, h.turn]
  · have hk' : ∀ q, k ≠ turnId nt q := fun q he => hk ⟨q, he⟩
    have hkeep : ∀ op : TranscriptOperation C, (itemWrite k op).Settled fun _ => False := by
      intro op
      cases op with
      | markerUpsert item beforeTurn =>
        rw [itemWrite]
        split
        · trivial
        · exact fun _ _ => rfl
      | taskrefUpsert item beforeTurn =>
        rw [itemWrite]
        split
        · trivial
        · exact fun _ _ => rfl
      | itemsRemove ids =>
        rw [itemWrite]
        split
        · trivial
        · exact fun _ _ => rfl
      | _ => exact fun _ _ => rfl
    apply (writes_item nt hk').absorbed hkeep h.producer h.consumer h.plain
    rw [h.loaded.items]

theorem mem_ids (k : Text) : k ∈ (applyAll nt F ops).items.map itemIdOf ↔ k ∈ F.items.map itemIdOf := by
  have hiff (items : List (TranscriptItem C)) : k ∈ items.map itemIdOf ↔ (itemAt items k).isSome := by
    rw [itemAt, find?_isSome, List.mem_map]
    simp only [decide_eq_true_eq]
  rw [hiff, hiff, h.item]

/-- A replay leaves the timeline as it was loaded. -/
theorem items : (applyAll nt F ops).items = F.items := by
  have hwithin (items : List (TranscriptItem C))
      (hthere : ∀ k, k ∈ items.map itemIdOf → k ∈ F.items.map itemIdOf) :
      idsWithin (F.items.map itemIdOf) items = items.map itemIdOf := by
    apply filter_eq_self.mpr
    intro k hk
    exact decide_eq_true (hthere k hk)
  have hids : (applyAll nt F ops).items.map itemIdOf = F.items.map itemIdOf := by
    have horder := idsWithin_applyAll h.consumer h.plain (fun k hk => hk) (by
      intro ids hmem k hk hthere
      obtain ⟨item, hitem, he⟩ := mem_map.mp hthere
      exact find_eq_none.mp (h.removed hmem hk) item hitem he)
    rw [hwithin _ fun k hk => (h.mem_ids k).mp hk, hwithin _ fun k hk => hk] at horder
    exact horder
  exact eq_of_find hids h.replayed.timeline.nodup h.item

end

end Overlap

end Echadron.Transcript

namespace Echadron.Transcript
open Lib List Option

variable {C : Type} {nt : NumberText} {P F state : AgentState C} {ops : List (TranscriptOperation C)}

/-! Interactions that go with the turns that anchor them. -/

/-- A removal takes an interaction along. -/
def Killed (state : AgentState C) (ids : List Text) (k : Text) : Prop :=
  ∃ interaction, state.interactions.get k = some interaction ∧
    ∃ call ∈ interaction.toolCallId, call ∈ anchoredToolCalls (removedTurns state ids)

theorem mem_anchored {turns : List (TranscriptTurn C)} :
    call ∈ anchoredToolCalls turns ↔ ∃ turn ∈ turns, ∃ step ∈ turn.steps, ∃ tool,
      .tool tool ∈ step.frames ∧ tool.toolCallId = call := by
  simp only [anchoredToolCalls, mem_flatMap, mem_filterMap]
  constructor
  · rintro ⟨turn, hturn, step, hstep, frame, hframe, hcall⟩
    cases frame with
    | tool tool => exact ⟨turn, hturn, step, hstep, tool, hframe, some.inj hcall⟩
    | _ => cases hcall
  · rintro ⟨turn, hturn, step, hstep, tool, htool, hcall⟩
    exact ⟨turn, hturn, step, hstep, .tool tool, htool, congrArg some hcall⟩

theorem mem_anchored_removed (h : Timeline nt state.items) :
    call ∈ anchoredToolCalls (removedTurns state ids) ↔ ∃ q, turnId nt q ∈ ids ∧ ∃ stepId frameId tool,
      frameCell state (turnId nt q) stepId frameId = some (.tool tool) ∧ tool.toolCallId = call := by
  rw [mem_anchored]
  constructor
  · rintro ⟨turn, hturn, step, hstep, tool, htool, hcall⟩
    obtain ⟨hmem, hid⟩ := mem_filter.mp hturn
    have hordered := h.turns turn hmem
    refine ⟨turn.ordinal, hordered.id_eq ▸ of_decide_eq_true hid, step.stepId, tool.frameId, tool, ?_, hcall⟩
    have hget : getTurn state.items (turnId nt turn.ordinal) = some turn :=
      find_of_mem (nodup_of_rising (turnId_injective nt) (fun t ht => (h.turns t ht).id_eq) h.rising) hmem
        hordered.id_eq
    have hgetStep : getStep turn step.stepId = some step := find_of_mem hordered.steps_nodup hstep rfl
    have hgetFrame : getFrame step tool.frameId = some (.tool tool) :=
      find_of_mem (hordered.frames_nodup step hstep) htool rfl
    rw [frameCell, stepCell, hget, bind_some, hgetStep, bind_some, hgetFrame]
  · rintro ⟨q, hq, stepId, frameId, tool, hcell, hcall⟩
    obtain ⟨step, hstepCell, hframe⟩ := bind_eq_some_iff.mp hcell
    obtain ⟨turn, hturn, hstep⟩ := bind_eq_some_iff.mp hstepCell
    obtain ⟨hmem, hid⟩ := getTurn_mem hturn
    refine ⟨turn, mem_filter.mpr ⟨hmem, decide_eq_true (hid ▸ hq)⟩, step, (getStep_mem hstep).1, tool,
      (getFrame_mem hframe).1, hcall⟩

section

variable (h : Keyed TranscriptInteraction.interactionId state.interactions)
include h

theorem mem_dead (ids : List Text)
    (k : Text) : k ∈ deadInteractions state (removedTurns state ids) ↔ Killed state ids k :=
  Entities.mem_deadInteractions h

theorem get_of_killed (hk : Killed state ids k) : (applyItemsRemove state ids).state.interactions.get k = none := by
  rw [applyItemsRemove]
  split
  · rename_i hlength
    obtain ⟨interaction, _, call, _, hcall⟩ := hk
    obtain ⟨turn, hturn, _⟩ := mem_anchored.mp hcall
    obtain ⟨hmem, hid⟩ := mem_filter.mp hturn
    have hsame := filter_sublist.eq_of_length hlength
    have hkept := filter_eq_self.mp hsame (.turn turn) (mem_turnsOf.mp hmem)
    exact absurd (of_decide_eq_true hid) (of_decide_eq_true hkept)
  · rw [get_foldl_delete]
    exact if_pos ((mem_dead h ids k).mpr hk)

theorem get_of_not_killed (hk : ¬Killed state ids k) :
    (applyItemsRemove state ids).state.interactions.get k = state.interactions.get k := by
  rw [applyItemsRemove]
  split
  · rfl
  · rw [get_foldl_delete]
    exact if_neg fun hmem => hk ((mem_dead h ids k).mp hmem)

end

variable [DecidableEq C]

theorem get_interactionUpsert (h : Keyed TranscriptInteraction.interactionId state.interactions)
    (interaction : TranscriptInteraction C) (k : Text) :
    (applyInteractionUpsert state interaction).state.interactions.get k =
      if interaction.interactionId = k then some interaction else state.interactions.get k := by
  rw [applyInteractionUpsert]
  split
  · rename_i hany
    obtain ⟨current, hget, he⟩ := (Option.any_eq_true ..).mp hany
    have hid := h _ _ hget
    have hcurrent : current = interaction := by
      rw [← of_decide_eq_true he, ← hid]
    by_cases hk : interaction.interactionId = k
    · rw [if_pos hk, ← hk, hget, hcurrent]
    · rw [if_neg hk]
  · rw [JsMap.get_set]
    by_cases hk : interaction.interactionId = k
    · rw [if_pos hk, if_pos hk.symm]
    · rw [if_neg hk, if_neg (Ne.symm hk)]

theorem interaction_apply (hs : Reachable nt (Documented nt) state) (hop : Plain nt op) (hnot : ¬op.upserts k) :
    (∃ ids, op = .itemsRemove ids ∧ Killed state ids k) ∧
        (applyOperation nt state op).state.interactions.get k = none ∨
      (∀ ids, op = .itemsRemove ids → ¬Killed state ids k) ∧
        (applyOperation nt state op).state.interactions.get k = state.interactions.get k := by
  have hkeyed := hs.entities.interactions
  have hother (hsubject : op.subject ≠ .interaction) :
      (applyOperation nt state op).state.interactions.get k = state.interactions.get k :=
    congrArg (JsMap.get · k) ((unchanged_apply nt state hop.2).interactions hsubject)
  cases op with
  | itemsRemove ids =>
    by_cases hk : Killed state ids k
    · exact .inl ⟨⟨ids, rfl, hk⟩, get_of_killed hkeyed hk⟩
    · right
      constructor
      · intro ids' he
        cases he
        exact hk
      · exact get_of_not_killed hkeyed hk
  | interactionUpsert interaction =>
    right
    constructor
    · intro ids he
      cases he
    · exact (get_interactionUpsert hkeyed interaction k).trans (if_neg hnot)
  | append target offset chunk =>
    right
    constructor
    · intro ids he
      cases he
    · apply hother
      cases target <;> exact Subject.noConfusion
  | _ =>
    right
    constructor
    · intro ids he
      cases he
    · exact hother Subject.noConfusion

theorem interaction_before (hs : Reachable nt (Documented nt) state) (hops : ∀ op ∈ ops, Plain nt op)
    (hnone : ∀ op ∈ ops, ¬op.upserts k)
    (hget : (applyAll nt state ops).interactions.get k = some interaction) :
    state.interactions.get k = some interaction := by
  induction ops generalizing state with
  | nil => exact hget
  | cons op ops ih =>
    obtain ⟨hop, hops⟩ := forall_mem_cons.mp hops
    obtain ⟨hnot, hnone⟩ := forall_mem_cons.mp hnone
    have hnext := ih (hs.step hop.genuine) hops hnone hget
    rcases interaction_apply hs hop hnot with ⟨_, hafter⟩ | ⟨_, hafter⟩
    · rw [hafter] at hnext
      cases hnext
    · rwa [hafter] at hnext

theorem run_amend_none {id stepId frameId : Text} {op : TranscriptOperation C}
    (h : (frameWrite id stepId frameId op).isAmend) :
    (frameWrite id stepId frameId op).run frameKey none = none := by
  cases op with
  | frameUpsert turn step frame =>
    rw [frameWrite] at h ⊢
    split at h
    · exact h.elim
    · rename_i hnot
      rw [if_neg hnot]
      rfl
  | append target offset chunk =>
    cases target with
    | task taskId => rfl
    | frame turn step f =>
      rw [frameWrite]
      split <;> rfl
  | itemsRemove ids =>
    rw [frameWrite]
    split <;> rfl
  | _ => rfl

theorem frameKind (ops : List (TranscriptOperation C)) (id stepId frameId : Text) :
    Kind frameKey (fun frame => ¬frame.isNotice) (ops.map (frameWrite id stepId frameId)) := by
  apply kind eq_of_frameKey
  intro w hw
  obtain ⟨op, _, rfl⟩ := mem_map.mp hw
  exact settled_frameWrite id stepId frameId op

namespace Overlap

section

variable (h : Overlap nt P F ops)
include h

theorem tool_producer {pre post : List (TranscriptOperation C)}
    (hsplit : ops = pre ++ .itemsRemove ids :: post) (hq : turnId nt q ∈ ids)
    {stepId frameId : Text}
    (htool : frameCell (applyAll nt F pre) (turnId nt q) stepId frameId = some (.tool tool)) :
    frameCell (applyAll nt P pre) (turnId nt q) stepId frameId = some (.tool tool) := by
  have hplain : ∀ op ∈ pre, Plain nt op := fun op hop => h.plain op (hsplit ▸ mem_append_left _ hop)
  have hwrites := writes_frame (C := C) nt q stepId frameId
  have hmem : .itemsRemove ids ∈ ops := hsplit ▸ mem_append_right _ mem_cons_self
  have hgone := h.removed hmem hq
  rw [itemAt_turn h.consumer.timeline, map_eq_none_iff] at hgone
  have hnone : frameCell F (turnId nt q) stepId frameId = none := by
    rw [frameCell, stepCell, hgone]
    rfl
  have hF := hwrites.run h.consumer hplain
  have hP := hwrites.run h.producer hplain
  rw [htool, hnone] at hF
  rw [hP]
  cases frameKind pre (turnId nt q) stepId frameId with
  | const c hc => rw [hc, hF, hc]
  | within v hv hkey =>
    have hsame := hkey none
    rw [← hF] at hsame
    have he := eq_of_frameKey (.tool tool) v (fun h => h) (some.inj hsame).symm
    subst he
    exact absurd (fun h => h) hv
  | amends hamends =>
    have hkeep : runWrites frameKey (pre.map (frameWrite (turnId nt q) stepId frameId)) none = none := by
      apply runWrites_none
      intro w hw
      obtain ⟨op, _, rfl⟩ := mem_map.mp hw
      exact run_amend_none (hamends _ hw)
    rw [hkeep] at hF
    cases hF

theorem tool_replayed (hsplit : ops = pre ++ post) {stepId : Text} {frame : TranscriptFrame C}
    (hframe : .frameUpsert (turnId nt q) stepId frame ∈ pre)
    (htool : frameCell (applyAll nt P pre) (turnId nt q) stepId frame.frameId = some (.tool tool)) :
    frameCell (applyAll nt F pre) (turnId nt q) stepId frame.frameId = some (.tool tool) := by
  have hplain : ∀ op ∈ pre, Plain nt op := fun op hop => h.plain op (hsplit ▸ mem_append_left _ hop)
  have hwrites := writes_frame (C := C) nt q stepId frame.frameId
  have hF := hwrites.run h.consumer hplain
  have hP := hwrites.run h.producer hplain
  rw [htool] at hP
  rw [hF]
  cases frameKind pre (turnId nt q) stepId frame.frameId with
  | const c hc => rw [hc, hP, hc]
  | within v hv hkey =>
    have hsame := hkey (frameCell P (turnId nt q) stepId frame.frameId)
    rw [← hP, map_some] at hsame
    have he := eq_of_frameKey (.tool tool) v (fun h => h) (some.inj hsame).symm
    subst he
    exact absurd (fun h => h) hv
  | amends hamends =>
    have hput := hamends _ (mem_map_of_mem hframe)
    rw [frameWrite, if_pos ⟨rfl, rfl, rfl⟩] at hput
    exact hput.elim

theorem plain_left (hsplit : ops = pre ++ post) : ∀ op ∈ pre, Plain nt op :=
  fun op hop => h.plain op (hsplit ▸ mem_append_left _ hop)

theorem killed_producer (hsplit : ops = pre ++ .itemsRemove ids :: post)
    (hsame : (applyAll nt F pre).interactions.get k = (applyAll nt P pre).interactions.get k)
    (hkilled : Killed (applyAll nt F pre) ids k) : Killed (applyAll nt P pre) ids k := by
  have hplain := h.plain_left hsplit
  obtain ⟨interaction, hget, call, hcall, hanchored⟩ := hkilled
  rw [hsame] at hget
  rw [mem_anchored_removed (h.consumer.plain hplain).timeline] at hanchored
  obtain ⟨q, hq, stepId, frameId, tool, htool, rfl⟩ := hanchored
  refine ⟨interaction, hget, tool.toolCallId, hcall, ?_⟩
  rw [mem_anchored_removed (h.producer.plain hplain).timeline]
  exact ⟨q, hq, stepId, frameId, tool, h.tool_producer hsplit hq htool, rfl⟩

theorem interaction_along (hsplit : ops = pre ++ post) (hnone : ∀ op ∈ post, ¬op.upserts k)
    (hsame : (applyAll nt F pre).interactions.get k = (applyAll nt P pre).interactions.get k)
    (hkill : ∀ mid ids rest, post = mid ++ .itemsRemove ids :: rest →
      (applyAll nt F (pre ++ mid)).interactions.get k = (applyAll nt P (pre ++ mid)).interactions.get k →
      Killed (applyAll nt P (pre ++ mid)) ids k → Killed (applyAll nt F (pre ++ mid)) ids k) :
    (applyAll nt F ops).interactions.get k = (applyAll nt P ops).interactions.get k := by
  induction post generalizing pre with
  | nil =>
    rw [append_nil] at hsplit
    rwa [hsplit]
  | cons op post ih =>
    obtain ⟨hnot, hnone⟩ := forall_mem_cons.mp hnone
    have hplain := h.plain_left hsplit
    have hop : Plain nt op := h.plain op (hsplit ▸ mem_append_right _ mem_cons_self)
    have hF := interaction_apply (h.consumer.plain hplain) hop hnot
    have hP := interaction_apply (h.producer.plain hplain) hop hnot
    have hnext (state : AgentState C) : applyAll nt state (pre ++ [op]) =
        (applyOperation nt (applyAll nt state pre) op).state := applyAll_append nt state pre [op]
    have hsplit' : ops = pre ++ [op] ++ post := by
      rw [hsplit, append_assoc]
      rfl
    apply ih hsplit'
    · exact hnone
    · rw [hnext, hnext]
      rcases hF with ⟨⟨ids, rfl, hkilled⟩, hafter⟩ | ⟨hkept, hafter⟩
      · rcases hP with ⟨_, hafter'⟩ | ⟨hkept, _⟩
        · rw [hafter, hafter']
        · exact absurd (h.killed_producer hsplit hsame hkilled) (hkept ids rfl)
      · rcases hP with ⟨⟨ids, rfl, hkilled⟩, _⟩ | ⟨_, hafter'⟩
        · have hkilled' := hkill [] ids post rfl
          rw [append_nil] at hkilled'
          exact absurd (hkilled' hsame hkilled) (hkept ids rfl)
        · rw [hafter, hafter', hsame]
    · intro mid ids rest he
      have hthere := hkill (op :: mid) ids rest (by rw [he]; rfl)
      rwa [append_cons] at hthere

theorem interaction_of_upsert {interaction : TranscriptInteraction C}
    (hsplit : ops = pre ++ .interactionUpsert interaction :: post)
    (hnone : ∀ op ∈ post, ¬op.upserts interaction.interactionId) :
    (applyAll nt F ops).interactions.get interaction.interactionId =
      (applyAll nt P ops).interactions.get interaction.interactionId := by
  have hplain := h.plain_left hsplit
  have hsplit' : ops = pre ++ [.interactionUpsert interaction] ++ post := by
    rw [hsplit, append_assoc]
    rfl
  have hput {state : AgentState C} (hs : Reachable nt (Documented nt) state) :
      (applyAll nt state (pre ++ [.interactionUpsert interaction])).interactions.get
        interaction.interactionId = some interaction := by
    rw [applyAll_append]
    exact (get_interactionUpsert (hs.plain hplain).entities.interactions ..).trans (if_pos rfl)
  apply h.interaction_along hsplit' hnone
  · rw [hput h.producer, hput h.consumer]
  · intro mid ids rest he hsame hkilled
    have hremoval : ops = (pre ++ [.interactionUpsert interaction] ++ mid) ++ .itemsRemove ids :: rest := by
      rw [hsplit', he, append_assoc (pre ++ _)]
    obtain ⟨current, hget, hanchored⟩ := hkilled
    rcases h.replayable.anchored _ ids rest hremoval _ current hget hanchored with hbefore | hafter | hwritten
    · have hmem : (.interactionUpsert interaction : TranscriptOperation C) ∈
          pre ++ [.interactionUpsert interaction] ++ mid := by simp
      exact absurd rfl (hbefore _ hmem)
    · obtain ⟨op, hop, hupserts⟩ := hafter
      exact absurd hupserts (hnone op (he ▸ mem_append_right _ (mem_cons_of_mem _ hop)))
    · obtain ⟨turn, hturn, stepId, frame, hframe, tool, htool, hcall⟩ := hwritten
      have hplain' := h.plain_left hremoval
      obtain ⟨⟨q, rfl⟩, _⟩ := (hplain' _ hframe).1
      refine ⟨current, hsame.trans hget, tool.toolCallId, hcall, ?_⟩
      rw [mem_anchored_removed (h.consumer.plain hplain').timeline]
      exact ⟨q, hturn, stepId, frame.frameId, tool, h.tool_replayed hremoval hframe htool, rfl⟩

theorem interaction (k : Text) : (applyAll nt F ops).interactions.get k = (applyAll nt P ops).interactions.get k := by
  by_cases hsome : ∃ op ∈ ops, op.upserts k
  · obtain ⟨pre, op, post, hsplit, hupserts, hnone⟩ := exists_last hsome
    cases op with
    | interactionUpsert interaction =>
      obtain rfl : interaction.interactionId = k := hupserts
      exact h.interaction_of_upsert hsplit hnone
    | _ => exact hupserts.elim
  · have hnone : ∀ op ∈ ops, ¬op.upserts k := fun op hop hupserts => hsome ⟨op, hop, hupserts⟩
    cases hloaded : (applyAll nt P ops).interactions.get k with
    | none =>
      rw [← h.loaded.interactions] at hloaded
      cases hreplayed : (applyAll nt F ops).interactions.get k with
      | none => rfl
      | some current =>
        have hbefore := interaction_before h.consumer h.plain hnone hreplayed
        rw [hloaded] at hbefore
        cases hbefore
    | some current =>
      rw [← hloaded]
      apply h.interaction_along (nil_append ops).symm hnone
      · exact (h.loaded.interactions k).trans
          (hloaded.trans (interaction_before h.producer h.plain hnone hloaded).symm)
      · intro mid ids rest he _ hkilled
        -- the producer would have lost it
        have hplain := h.plain
        rw [he] at hplain hnone hloaded
        obtain ⟨hmid, hrest⟩ := forall_mem_append.mp hplain
        obtain ⟨hremove, hrest⟩ := forall_mem_cons.mp hrest
        have hmidState := h.producer.plain hmid
        rw [applyAll_append] at hloaded
        have hthere := interaction_before (hmidState.step hremove.genuine) hrest
          (fun op hop => hnone op (mem_append_right _ (mem_cons_of_mem _ hop))) hloaded
        have hgone := get_of_killed hmidState.entities.interactions hkilled
        rw [applyOperation, hgone] at hthere
        cases hthere

end

end Overlap

end Echadron.Transcript
