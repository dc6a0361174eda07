import Echadron.Transcript.Beside

namespace Echadron.Transcript
open Lib List Option

section

variable {C : Type} {nt : NumberText} {items : List (TranscriptItem C)} {k : Text}

/-! Items by their ids. -/

def itemAt (items : List (TranscriptItem C)) (k : Text) : Option (TranscriptItem C) :=
  items.find? fun item => itemIdOf item = k

theorem itemAt_turn (h : Timeline nt items) (q : ℚ) :
    itemAt items (turnId nt q) = (getTurn items (turnId nt q)).map .turn := by
  cases hget : getTurn items (turnId nt q) with
  | none =>
    apply find_eq_none.mpr
    intro item hitem hid
    cases hturn : item.asTurn with
    | none => exact h.standalone item hitem hturn q hid
    | some turn =>
      cases item with
      | turn t => exact getTurn_eq_none.mp hget t (mem_turnsOf.mpr hitem) hid
      | _ => cases hturn
  | some turn =>
    obtain ⟨hmem, hid⟩ := getTurn_mem hget
    exact find_of_mem h.nodup (mem_turnsOf.mp hmem) hid

theorem itemAt_insertTurn (hid : ∀ q, k ≠ turnId nt q)
    (hturn : ∃ q, turn.turnId = turnId nt q) : itemAt (insertTurn items turn) k = itemAt items k := by
  obtain ⟨q, hq⟩ := hturn
  have hne : itemIdOf (.turn turn) ≠ k := fun he => hid q (he.symm.trans hq)
  rw [itemAt, insertTurn]
  induction items with
  | nil => simp [spliceBefore, hne, itemAt]
  | cons item items ih =>
    rw [spliceBefore]
    split
    · exact find?_cons_of_neg (by simpa using hne)
    · rw [itemAt, find?_cons, find?_cons]
      split
      · rfl
      · exact ih

theorem itemAt_replaceTurn (hid : ∀ q, k ≠ turnId nt q) (hfn : ∀ t, t.turnId = turnId' → (fn t).turnId = turnId')
    (hturnId : ∃ q, turnId' = turnId nt q) :
    itemAt (replaceTurn items turnId' fn) k = itemAt items k := by
  obtain ⟨q, hq⟩ := hturnId
  have hmap : (items.map (mapTurn turnId' fn)).find? (fun item => itemIdOf item = k) =
      (items.find? fun item => itemIdOf item = k).map (mapTurn turnId' fn) :=
    find_map_keeping fun item _ => itemIdOf_mapTurn hfn item
  rw [itemAt, replaceTurn, hmap, itemAt]
  cases hfind : items.find? fun item => itemIdOf item = k with
  | none => rfl
  | some item =>
    have hitem := (find_mem hfind).2
    rw [map_some]
    cases item with
    | turn t =>
      have hne : t.turnId ≠ turnId' := fun he => hid q ((hitem.symm.trans he).trans hq)
      rw [mapTurn, if_neg hne]
    | _ => rfl

/-- A standalone item as a register. -/
def itemWrite (k : Text) : TranscriptOperation C → Write (TranscriptItem C)
  | .markerUpsert item _ => if item.markerId = k then .put (.marker item) else .skip
  | .taskrefUpsert item _ => if item.refId = k then .put (.taskref item) else .skip
  | .itemsRemove ids => if k ∈ ids then .clear else .skip
  | _ => .skip

variable [DecidableEq C] {state : AgentState C}

theorem itemAt_itemUpsert (state : AgentState C) (item : TranscriptItem C) (beforeTurn : Option ℚ)
    (k : Text) : itemAt (applyItemUpsert state item (itemIdOf item) beforeTurn).state.items k =
      if itemIdOf item = k then some item else itemAt state.items k := by
  rw [applyItemUpsert]
  split
  · rename_i hany
    have hmap : (state.items.map fun entry => if itemIdOf entry = itemIdOf item then item else entry).find?
        (fun entry => itemIdOf entry = k) = (state.items.find? fun entry => itemIdOf entry = k).map
          fun entry => if itemIdOf entry = itemIdOf item then item else entry := by
      apply find_map_keeping
      intro entry _
      split
      · rename_i he
        exact he.symm
      · rfl
    refine hmap.trans ?_
    cases hfind : state.items.find? fun entry => itemIdOf entry = k with
    | none =>
      rw [if_neg]
      · exact hfind.symm
      · rintro rfl
        obtain ⟨entry, hentry, he⟩ := any_eq_true.mp hany
        exact find_eq_none.mp hfind entry hentry (of_decide_eq_true he)
    | some entry =>
      rw [map_some, (find_mem hfind).2]
      by_cases hid : itemIdOf item = k
      · rw [if_pos hid, if_pos hid.symm]
      · rw [if_neg hid, if_neg (Ne.symm hid)]
        exact hfind.symm
  · rename_i hany
    apply find_spliceBefore
    intro entry hentry he
    exact hany (any_eq_true.mpr ⟨entry, hentry, decide_eq_true he⟩)

/-- At most one turn is put in or written anew. -/
inductive Rearranged (nt : NumberText) (items : List (TranscriptItem C)) : List (TranscriptItem C) → Prop where
  | kept : Rearranged nt items items
  | inserted (q : ℚ) (turn : TranscriptTurn C) (hturn : turn.turnId = turnId nt q)
    (hnew : getTurn items (turnId nt q) = none) : Rearranged nt items (insertTurn items turn)
  | replaced (q : ℚ) (fn : TranscriptTurn C → TranscriptTurn C)
    (hfn : ∀ t, t.turnId = turnId nt q → (fn t).turnId = turnId nt q) :
    Rearranged nt items (replaceTurn items (turnId nt q) fn)

omit [DecidableEq C] in
theorem Rearranged.put (items : List (TranscriptItem C))
    (hturn : turn.turnId = turnId nt q) : Rearranged nt items (putTurn items (turnId nt q) turn) := by
  rw [putTurn]
  split
  · exact .replaced q _ fun _ _ => hturn
  · rename_i hnone
    exact .inserted q turn hturn (not_isSome_iff_eq_none.mp hnone)

theorem items_cases (hs : Timeline nt state.items) (hop : Plain nt op) :
    (∀ k, itemWrite k op = .skip) ∧ Rearranged nt state.items (applyOperation nt state op).state.items ∨
    (∃ item beforeTurn, (applyOperation nt state op).state.items =
        (applyItemUpsert state item (itemIdOf item) beforeTurn).state.items ∧
      ∀ k, itemWrite k op = if itemIdOf item = k then .put item else .skip) ∨
    ∃ ids, op = .itemsRemove ids := by
  cases op with
  | reset agentId snapshot => exact absurd rfl hop.2
  | turnUpsert turn =>
    refine .inl ⟨fun _ => rfl, ?_⟩
    obtain ⟨q, hq⟩ : ∃ q, turn.turnId = turnId nt q := ⟨turn.ordinal, hop.1⟩
    rw [applyOperation, applyTurnUpsert, hq]
    cases hget : getTurn state.items (turnId nt q) with
    | none => exact .inserted q _ hq hget
    | some existing =>
      dsimp only
      split
      · exact .kept
      · exact .replaced q _ fun _ _ => hq
  | stepUpsert turn step =>
    refine .inl ⟨fun _ => rfl, ?_⟩
    obtain ⟨⟨q, rfl⟩, _⟩ := hop.1
    rw [applyOperation, applyStepUpsert]
    have hfound := UniqueTurns.turnId_getD nt state.items (turnId nt q)
    cases upsertStep ((getTurn state.items (turnId nt q)).getD (skeletonTurn nt (turnId nt q))) step with
    | none => exact .kept
    | some steps => exact .put state.items hfound
  | frameUpsert turn step frame =>
    refine .inl ⟨fun _ => rfl, ?_⟩
    obtain ⟨⟨q, rfl⟩, _⟩ := hop.1
    rw [applyOperation, applyFrameUpsert]
    have hfound := UniqueTurns.turnId_getD nt state.items (turnId nt q)
    cases upsertFrame ((getStep ((getTurn state.items (turnId nt q)).getD
        (skeletonTurn nt (turnId nt q))) step).getD (skeletonStep nt step (turnId nt q))) frame with
    | none => exact .kept
    | some frames => exact .put state.items hfound
  | append target offset chunk =>
    refine .inl ⟨fun _ => rfl, ?_⟩
    cases target with
    | task taskId =>
      rw [items_of_beside nt state rfl]
      exact .kept
    | frame turn step frameId =>
      rw [applyOperation, applyAppend, applyFrameAppend]
      cases hframe : streamedFrame state.items turn step frameId with
      | none => exact .kept
      | some found =>
        obtain ⟨found, foundStep, frame, current⟩ := found
        dsimp only
        cases appendAtOffset current offset chunk with
        | gap gap => exact .kept
        | unchanged => exact .kept
        | text merged =>
          obtain ⟨hordered, hfound⟩ := hs.turn_of_get (streamedFrame_spec hframe).1
          have hq : turn = turnId nt found.ordinal := hfound ▸ hordered.id_eq
          subst hq
          exact .replaced found.ordinal _ fun _ _ => hfound
  | markerUpsert item beforeTurn => exact .inr (.inl ⟨.marker item, beforeTurn, rfl, fun _ => rfl⟩)
  | taskrefUpsert item beforeTurn => exact .inr (.inl ⟨.taskref item, beforeTurn, rfl, fun _ => rfl⟩)
  | itemsRemove ids => exact .inr (.inr ⟨ids, rfl⟩)
  | _ =>
    rw [items_of_beside nt state rfl]
    exact .inl ⟨fun _ => rfl, .kept⟩

theorem writes_item (nt : NumberText) (hk : ∀ q, k ≠ turnId nt q) :
    Writes nt id (fun state : AgentState C => itemAt state.items k) (itemWrite k) := by
  intro state hs op hop
  dsimp only
  rcases items_cases hs.timeline hop with ⟨hskip, hitems⟩ | ⟨item, beforeTurn, hitems, hwrite⟩ | ⟨ids, rfl⟩
  · rw [hskip]
    generalize (applyOperation nt state op).state.items = after at hitems ⊢
    cases hitems with
    | kept => rfl
    | inserted q turn hturn _ => exact itemAt_insertTurn hk ⟨q, hturn⟩
    | replaced q fn hfn => exact itemAt_replaceTurn hk hfn ⟨q, rfl⟩
  · rw [hitems, hwrite, itemAt_itemUpsert]
    split
    · exact (run_ofOption (some item) _).symm
    · rfl
  · rw [applyOperation, items_itemsRemove, itemWrite]
    refine (find_filter_ids ids).trans ?_
    split <;> rfl

omit [DecidableEq C] in
theorem filter_spliceBefore {p q : α → Bool} (hx : q x = false) (xs : List α) :
    (spliceBefore p x xs).filter q = xs.filter q := by
  induction xs with
  | nil => exact filter_cons_of_neg (by simp [hx])
  | cons y ys ih =>
    rw [spliceBefore]
    split
    · exact filter_cons_of_neg (by simp [hx])
    · rw [filter_cons, filter_cons, ih]

def idsWithin (within : List Text) (items : List (TranscriptItem C)) : List Text :=
  (items.map itemIdOf).filter fun k => k ∈ within

section

variable {within : List Text}

section

omit [DecidableEq C]

theorem idsWithin_spliceBefore
    (hitem : itemIdOf item ∉ within) (items : List (TranscriptItem C)) :
    idsWithin within (spliceBefore p item items) = idsWithin within items := by
  rw [idsWithin, List.filter_map, filter_spliceBefore (by simpa using hitem), ← List.filter_map]
  rfl

theorem idsWithin_replaceTurn
    (hfn : ∀ t, t.turnId = turnId' → (fn t).turnId = turnId') :
    idsWithin within (replaceTurn items turnId' fn) = idsWithin within items := by
  rw [idsWithin, ids_replaceTurn hfn]
  rfl

theorem not_within (hwithin : ∀ k ∈ within, k ∈ items.map itemIdOf) (hk : itemAt items k = none) : k ∉ within := by
  intro hmem
  obtain ⟨item, hitem, he⟩ := mem_map.mp (hwithin k hmem)
  exact find_eq_none.mp hk item hitem he

end

theorem idsWithin_apply (hs : Reachable nt (Documented nt) state)
    (hop : Plain nt op) (hwithin : ∀ k ∈ within, k ∈ state.items.map itemIdOf)
    (hkept : ∀ ids, op = .itemsRemove ids → ∀ k ∈ ids, k ∉ within) :
    idsWithin within (applyOperation nt state op).state.items = idsWithin within state.items := by
  have hput (item : TranscriptItem C) (beforeTurn : Option ℚ) :
      idsWithin within (applyItemUpsert state item (itemIdOf item) beforeTurn).state.items =
        idsWithin within state.items := by
    rw [applyItemUpsert]
    split
    · rw [idsWithin, List.map_map]
      have hids : state.items.map
          (itemIdOf ∘ fun entry => if itemIdOf entry = itemIdOf item then item else entry) =
            state.items.map itemIdOf := by
        apply map_congr_left
        intro entry _
        rw [Function.comp_apply]
        split
        · rename_i he
          exact he.symm
        · rfl
      rw [hids]
      rfl
    · rename_i hany
      apply idsWithin_spliceBefore
      apply not_within hwithin
      apply find_eq_none.mpr
      intro entry hentry he
      exact hany (any_eq_true.mpr ⟨entry, hentry, decide_eq_true he⟩)
  rcases items_cases hs.timeline hop with ⟨_, hitems⟩ | ⟨item, beforeTurn, hitems, _⟩ | ⟨ids, rfl⟩
  · generalize (applyOperation nt state op).state.items = after at hitems ⊢
    cases hitems with
    | kept => rfl
    | inserted q turn hturn hnew =>
      apply idsWithin_spliceBefore
      apply not_within hwithin
      change itemAt state.items turn.turnId = none
      rw [hturn, itemAt_turn hs.timeline, hnew]
      rfl
    | replaced q fn hfn => exact idsWithin_replaceTurn hfn
  · rw [hitems]
    exact hput item beforeTurn
  · rw [applyOperation, items_itemsRemove, idsWithin, idsWithin, List.filter_map, List.filter_map,
      List.filter_filter]
    congr 2
    funext item
    by_cases hmem : itemIdOf item ∈ within
    · have hnot : itemIdOf item ∉ ids := fun h => hkept ids rfl _ h hmem
      simp [hnot]
    · simp [hmem]

end

end

variable {C : Type} [DecidableEq C] {nt : NumberText} {P F : AgentState C}
  {ops : List (TranscriptOperation C)}

/-! Two states that show the same. -/

structure Same (s t : AgentState C) : Prop where
  items : s.items = t.items
  tasks : ∀ k, s.tasks.get k = t.tasks.get k
  interactions : ∀ k, s.interactions.get k = t.interactions.get k
  attachments : ∀ k, s.attachments.get k = t.attachments.get k
  todos : ∀ k, s.todos.get k = t.todos.get k
  prompts : ∀ k, s.prompts.get k = t.prompts.get k
  metadata : s.metadata = t.metadata
  pending : ∀ k, k ∈ s.pendingInteractions.keys ↔ k ∈ t.pendingInteractions.keys
  hasMoreOlder : s.hasMoreOlder = t.hasMoreOlder

section

omit [DecidableEq C]

theorem step_eq
    (hheader : x.map TranscriptStep.toStepHeader = y.map TranscriptStep.toStepHeader)
    (hids : frameIdsOf x = frameIdsOf y) (hnodup : (frameIdsOf x).Nodup)
    (hframes : ∀ k, x.bind (getFrame · k) = y.bind (getFrame · k)) : x = y := by
  cases x with
  | none =>
    cases y with
    | none => rfl
    | some u => cases hheader
  | some s =>
    cases y with
    | none => cases hheader
    | some u =>
      have hsame : s.frames = u.frames := eq_of_find hids hnodup hframes
      cases s
      simp_all

theorem turn_eq {x y : Option (TranscriptTurn C)} (hx : ∀ t ∈ x, TurnOrdered nt t) (hy : ∀ t ∈ y, TurnOrdered nt t)
    (hheader : x.map TranscriptTurn.toTurnHeader = y.map TranscriptTurn.toTurnHeader)
    (hsteps : ∀ k, x.bind (getStep · k) = y.bind (getStep · k)) : x = y := by
  cases x with
  | none =>
    cases y with
    | none => rfl
    | some u => cases hheader
  | some t =>
    cases y with
    | none => cases hheader
    | some u =>
      have ht := hx t rfl
      have hu := hy u rfl
      have hmem : ∀ s, s ∈ t.steps ↔ s ∈ u.steps := by
        intro s
        have hsame : getStep t s.stepId = getStep u s.stepId := hsteps s.stepId
        rw [getStep, getStep] at hsame
        constructor
        · intro hs
          rw [find_of_mem ht.steps_nodup hs rfl] at hsame
          exact (find_mem hsame.symm).1
        · intro hs
          rw [find_of_mem hu.steps_nodup hs rfl] at hsame
          exact (find_mem hsame).1
      have hperm : t.steps.Perm u.steps :=
        (perm_ext_iff_of_nodup ht.steps_nodup.of_map hu.steps_nodup.of_map).mpr hmem
      have hsame : t.steps = u.steps := by
        apply hperm.eq_of_pairwise _ ht.steps_rising hu.steps_rising
        intro a b _ _ hab hba
        exact absurd (hab.trans hba) (lt_irrefl _)
      cases t
      simp_all

end

/-- The operation makes an item under an id if there is none. -/
def TranscriptOperation.creates (k : Text) : TranscriptOperation C → Prop
  | .turnUpsert turn => turn.turnId = k
  | .stepUpsert turnId _ => turnId = k
  | .frameUpsert turnId _ _ => turnId = k
  | .markerUpsert item _ => item.markerId = k
  | .taskrefUpsert item _ => item.refId = k
  | _ => False

def TranscriptOperation.settles : AppendTarget → TranscriptOperation C → Prop
  | .frame turnId stepId frameId, .frameUpsert turn step frame =>
    turn = turnId ∧ step = stepId ∧ frame.frameId = frameId
  | .frame turnId _ _, .itemsRemove ids => turnId ∈ ids
  | .task taskId, .taskUpsert task => task.taskId = taskId
  | _, _ => False

def TranscriptOperation.upserts (interactionId : Text) : TranscriptOperation C → Prop
  | .interactionUpsert interaction => interaction.interactionId = interactionId
  | _ => False

/-- The turns that a removal takes. -/
def removedTurns (state : AgentState C) (ids : List Text) : List (TranscriptTurn C) :=
  (turnsOf state.items).filter fun turn => turn.turnId ∈ ids

/-- The overlap does not take from the snapshot what it is to find there: it creates no item again that
it removes, its appends land, unless it writes or removes their targets, and where a removed turn takes
an interaction along that the overlap upserts, it has a frame that anchors the interaction as well. -/
structure Replayable (nt : NumberText) (P : AgentState C) (ops : List (TranscriptOperation C)) : Prop where
  recreated : ∀ pre ids post, ops = pre ++ .itemsRemove ids :: post → ∀ k ∈ ids, ∀ op ∈ post, ¬op.creates k
  landed : ∀ pre target offset chunk post, ops = pre ++ .append target offset chunk :: post →
    (∃ op ∈ ops, op.settles target) ∨ (applyAppend (applyAll nt P pre) target offset chunk).gap = none
  anchored : ∀ pre ids post, ops = pre ++ .itemsRemove ids :: post → ∀ k interaction,
    (applyAll nt P pre).interactions.get k = some interaction →
    (∃ call ∈ interaction.toolCallId, call ∈ anchoredToolCalls (removedTurns (applyAll nt P pre) ids)) →
    (∀ op ∈ pre, ¬op.upserts k) ∨ (∃ op ∈ post, op.upserts k) ∨
      ∃ turnId ∈ ids, ∃ stepId frame, .frameUpsert turnId stepId frame ∈ pre ∧
        ∃ tool, frameCell (applyAll nt P pre) turnId stepId frame.frameId = some (.tool tool) ∧
          tool.toolCallId ∈ interaction.toolCallId

theorem applyAll_append (nt : NumberText) (state : AgentState C) (ops ops' : List (TranscriptOperation C)) :
    applyAll nt state (ops ++ ops') = applyAll nt (applyAll nt state ops) ops' :=
  foldl_append

section

omit [DecidableEq C]

theorem settled_turnWrite (nt : NumberText) (id : Text) (op : TranscriptOperation C) :
    (turnWrite nt id op).Settled fun _ => False := by
  cases op with
  | turnUpsert header =>
    rw [turnWrite]
    split
    · trivial
    · exact fun _ _ => rfl
  | stepUpsert turnId header =>
    rw [turnWrite]
    split <;> exact fun _ _ => rfl
  | frameUpsert turnId stepId frame =>
    rw [turnWrite]
    split <;> exact fun _ _ => rfl
  | itemsRemove ids =>
    rw [turnWrite]
    split
    · trivial
    · exact fun _ _ => rfl
  | _ => exact fun _ _ => rfl

theorem settled_stepWrite (nt : NumberText) (id stepId : Text) (op : TranscriptOperation C) :
    (stepWrite nt id stepId op).Settled fun _ => False := by
  cases op with
  | stepUpsert turnId header =>
    rw [stepWrite]
    split
    · trivial
    · exact fun _ _ => rfl
  | frameUpsert turnId frameStep frame =>
    rw [stepWrite]
    split <;> exact fun _ _ => rfl
  | itemsRemove ids =>
    rw [stepWrite]
    split
    · trivial
    · exact fun _ _ => rfl
  | _ => exact fun _ _ => rfl

theorem settled_frameWrite (id stepId frameId : Text) (op : TranscriptOperation C) :
    (frameWrite id stepId frameId op).Settled fun frame => ¬frame.isNotice := by
  cases op with
  | frameUpsert turnId frameStep frame =>
    rw [frameWrite]
    split
    · trivial
    · exact fun _ _ => rfl
  | append target offset chunk =>
    cases target with
    | task taskId => exact fun _ _ => rfl
    | frame turnId frameStep f =>
      rw [frameWrite]
      split
      · intro v hv
        cases v with
        | notice => rfl
        | _ => exact absurd not_false hv
      · exact fun _ _ => rfl
  | itemsRemove ids =>
    rw [frameWrite]
    split
    · trivial
    · exact fun _ _ => rfl
  | _ => exact fun _ _ => rfl

end

def frameAppends (id stepId frameId : Text) : TranscriptOperation C → Option (Nat × Text)
  | .append (.frame turnId frameStep f) offset chunk =>
    if turnId = id ∧ frameStep = stepId ∧ f = frameId then some (offset, chunk) else none
  | _ => none

omit [DecidableEq C] in
theorem streams_frame (id stepId frameId : Text) :
    Streams (C := C) (frameWrite id stepId frameId) (fun frame => frame.bind TranscriptFrame.streamed)
      (frameAppends id stepId frameId) where
  skip op happends hamend := by
    cases op with
    | frameUpsert turnId frameStep frame =>
      rw [frameWrite] at hamend ⊢
      split at hamend
      · exact hamend.elim
      · rename_i h
        rw [if_neg h]
    | append target offset chunk =>
      cases target with
      | task taskId => rfl
      | frame turnId frameStep f =>
        rw [frameAppends] at happends
        rw [frameWrite]
        split
        · rename_i h
          rw [if_pos h] at happends
          cases happends
        · rfl
    | itemsRemove ids =>
      rw [frameWrite] at hamend ⊢
      split at hamend
      · exact hamend.elim
      · rename_i h
        rw [if_neg h]
    | _ => rfl
  amend op offset chunk happends := by
    cases op with
    | append target offset' chunk' =>
      cases target with
      | task taskId => cases happends
      | frame turnId frameStep f =>
        rw [frameAppends] at happends
        split at happends
        · rename_i h
          cases happends
          refine ⟨appendFrame offset chunk, by rw [frameWrite, if_pos h], ?_⟩
          intro x current hx
          obtain ⟨frame, rfl, hcurrent⟩ := bind_eq_some_iff.mp hx
          constructor
          · intro hno
            rw [appendFrame, hcurrent, map_some]
            cases hplaced : appendAtOffset current offset chunk with
            | text merged => exact absurd hplaced (hno merged)
            | _ => rfl
          · intro merged hplaced
            rw [appendFrame, hcurrent, map_some, hplaced]
            cases frame with
            | text frame => rfl
            | thinking frame => rfl
            | _ => cases hcurrent
        · cases happends
    | _ => cases happends

theorem itemAt_run_none (hs : Reachable nt (Documented nt) state)
    (hops : ∀ op ∈ ops, Plain nt op) {k : Text} (hnone : itemAt state.items k = none)
    (hnot : ∀ op ∈ ops, ¬op.creates k) : itemAt (applyAll nt state ops).items k = none := by
  by_cases hk : ∃ q, k = turnId nt q
  · obtain ⟨q, rfl⟩ := hk
    rw [itemAt_turn hs.timeline, map_eq_none_iff] at hnone
    rw [itemAt_turn (hs.plain hops).timeline, map_eq_none_iff]
    have hrun := (writes_turn nt q).run hs hops
    rw [hnone, map_none] at hrun
    have hkeep : runWrites turnKey (ops.map (turnWrite nt (turnId nt q))) none =
        (none : Option (TurnHeader C)) := by
      apply runWrites_none
      intro w hw
      obtain ⟨op, hop, rfl⟩ := mem_map.mp hw
      have hnotOp := hnot op hop
      cases op with
      | turnUpsert header =>
        have hne : ¬header.turnId = turnId nt q := hnotOp
        rw [turnWrite, if_neg hne]
        rfl
      | stepUpsert turn header =>
        have hne : ¬turn = turnId nt q := hnotOp
        rw [turnWrite, if_neg hne]
        rfl
      | frameUpsert turn step frame =>
        have hne : ¬turn = turnId nt q := hnotOp
        rw [turnWrite, if_neg hne]
        rfl
      | itemsRemove ids =>
        rw [turnWrite]
        split <;> rfl
      | _ => rfl
    rw [hkeep] at hrun
    exact map_eq_none_iff.mp hrun
  · have hk' : ∀ q, k ≠ turnId nt q := fun q he => hk ⟨q, he⟩
    have hrun := (writes_item nt hk').run hs hops
    rw [hrun, hnone]
    apply runWrites_none
    intro w hw
    obtain ⟨op, hop, rfl⟩ := mem_map.mp hw
    have hnotOp := hnot op hop
    cases op with
    | markerUpsert item beforeTurn =>
      have hne : ¬item.markerId = k := hnotOp
      rw [itemWrite, if_neg hne]
      rfl
    | taskrefUpsert item beforeTurn =>
      have hne : ¬item.refId = k := hnotOp
      rw [itemWrite, if_neg hne]
      rfl
    | itemsRemove ids =>
      rw [itemWrite]
      split <;> rfl
    | _ => rfl

theorem Replayable.removed (h : Replayable nt P ops) (hP : Reachable nt (Documented nt) P)
    (hops : ∀ op ∈ ops, Plain nt op) (hloaded : Same F (applyAll nt P ops))
    (hsplit : ops = pre ++ .itemsRemove ids :: post) {k : Text} (hk : k ∈ ids) :
    itemAt F.items k = none := by
  subst hsplit
  obtain ⟨hpre, hrest⟩ := forall_mem_append.mp hops
  obtain ⟨hremove, hpost⟩ := forall_mem_cons.mp hrest
  rw [hloaded.items, applyAll_append]
  have hremoved : itemAt (applyOperation nt (applyAll nt P pre) (.itemsRemove ids)).state.items k = none := by
    rw [applyOperation, items_itemsRemove, itemAt, find_filter_ids, if_pos hk]
  exact itemAt_run_none ((hP.plain hpre).step hremove.genuine) hpost hremoved
    (h.recreated pre ids post rfl k hk)

theorem frameIds_run (hs : Reachable nt (Documented nt) state)
    (hops : ∀ op ∈ ops, Plain nt op) (q : ℚ) (stepId : Text) :
    frameIdsOf (stepCell (applyAll nt state ops) (turnId nt q) stepId) =
      ops.foldl (fun ids op => frameIdsEffect (turnId nt q) stepId op ids)
        (frameIdsOf (stepCell state (turnId nt q) stepId)) := by
  induction ops generalizing state with
  | nil => rfl
  | cons op ops ih =>
    obtain ⟨hop, hops⟩ := forall_mem_cons.mp hops
    have hnext := ih (hs.step hop.genuine) hops
    rw [stepCell_apply hs hop, frameIds_stepEffect] at hnext
    exact hnext

section

variable {id stepId : Text}

section

omit [DecidableEq C]

theorem subset_frameIdsEffect {op : TranscriptOperation C} (hop : ∀ ids, op = .itemsRemove ids → id ∉ ids)
    (ids : List Text) : ids ⊆ frameIdsEffect id stepId op ids := by
  cases op with
  | frameUpsert turn step frame =>
    rw [frameIdsEffect]
    split
    · exact subset_append_left ..
    · exact List.Subset.refl _
  | itemsRemove removed =>
    rw [frameIdsEffect, if_neg (hop removed rfl)]
    exact List.Subset.refl _
  | _ => exact List.Subset.refl _

section

variable (hkept : ∀ ids, .itemsRemove ids ∈ ops → id ∉ ids)
include hkept

theorem subset_frameIds (ids : List Text) : ids ⊆ ops.foldl (fun ids op => frameIdsEffect id stepId op ids) ids := by
  induction ops generalizing ids with
  | nil => exact List.Subset.refl _
  | cons op ops ih =>
    have hop : ∀ removed, op = .itemsRemove removed → id ∉ removed := fun removed he =>
      hkept removed (he ▸ mem_cons_self)
    have hops : ∀ removed, .itemsRemove removed ∈ ops → id ∉ removed := fun removed h =>
      hkept removed (mem_cons_of_mem _ h)
    exact List.Subset.trans (subset_frameIdsEffect hop ids) (ih hops _)

theorem mem_frameIds (hframe : .frameUpsert id stepId frame ∈ ops) (ids : List Text) :
    frame.frameId ∈ ops.foldl (fun ids op => frameIdsEffect id stepId op ids) ids := by
  obtain ⟨pre, post, rfl⟩ := append_of_mem hframe
  rw [foldl_append, foldl_cons]
  apply subset_frameIds
  · exact fun removed h => hkept removed (mem_append_right _ (mem_cons_of_mem _ h))
  · rw [frameIdsEffect]
    split
    · exact mem_concat_self
    · rename_i hthere
      by_contra hnot
      exact hthere ⟨rfl, rfl, hnot⟩

theorem frameIds_same (hthere : ∀ frame, .frameUpsert id stepId frame ∈ ops → frame.frameId ∈ ids) :
    ops.foldl (fun ids op => frameIdsEffect id stepId op ids) ids = ids := by
  induction ops with
  | nil => rfl
  | cons op ops ih =>
    have hsame : frameIdsEffect id stepId op ids = ids := by
      cases op with
      | frameUpsert turn step frame =>
        rw [frameIdsEffect, if_neg]
        rintro ⟨rfl, rfl, hnew⟩
        exact hnew (hthere frame mem_cons_self)
      | itemsRemove removed => rw [frameIdsEffect, if_neg (hkept removed mem_cons_self)]
      | _ => rfl
    rw [foldl_cons, hsame]
    exact ih (fun removed h => hkept removed (mem_cons_of_mem _ h))
      fun frame h => hthere frame (mem_cons_of_mem _ h)

end

end

end

/-- A consumer that shows what the producer showed after some operations takes them again. -/
structure Overlap (nt : NumberText) (P F : AgentState C) (ops : List (TranscriptOperation C)) : Prop where
  producer : Reachable nt (Documented nt) P
  consumer : Reachable nt (Documented nt) F
  plain : ∀ op ∈ ops, Plain nt op
  loaded : Same F (applyAll nt P ops)
  replayable : Replayable nt P ops

namespace Overlap

section

variable (h : Overlap nt P F ops)
include h

theorem turnHeader (q : ℚ) : (getTurn (applyAll nt F ops).items (turnId nt q)).map TranscriptTurn.toTurnHeader =
      (getTurn F.items (turnId nt q)).map TranscriptTurn.toTurnHeader := by
  apply (writes_turn nt q).absorbed (settled_turnWrite nt _) h.producer h.consumer h.plain
  rw [h.loaded.items]

theorem stepCell_loaded (id stepId : Text) : stepCell F id stepId = stepCell (applyAll nt P ops) id stepId := by
  rw [stepCell, stepCell, h.loaded.items]

theorem stepHeader (q : ℚ) (stepId : Text) :
    (stepCell (applyAll nt F ops) (turnId nt q) stepId).map TranscriptStep.toStepHeader =
      (stepCell F (turnId nt q) stepId).map TranscriptStep.toStepHeader := by
  apply (writes_step nt q stepId).absorbed (settled_stepWrite nt _ stepId) h.producer h.consumer h.plain
  rw [h.stepCell_loaded]

theorem frameIds (hkept : ∀ ids, .itemsRemove ids ∈ ops → turnId nt q ∉ ids) (stepId : Text) :
    frameIdsOf (stepCell (applyAll nt F ops) (turnId nt q) stepId) =
      frameIdsOf (stepCell F (turnId nt q) stepId) := by
  rw [frameIds_run h.consumer h.plain]
  apply frameIds_same hkept
  intro frame hframe
  rw [h.stepCell_loaded, frameIds_run h.producer h.plain]
  exact mem_frameIds hkept hframe _

end

section

omit [DecidableEq C]

theorem lands_frame {turnId stepId frameId : Text} {chunk : Text}
    (hgap : (applyFrameAppend state turnId stepId frameId offset chunk).gap = none) :
    Lands (fun frame : Option (TranscriptFrame C) => frame.bind TranscriptFrame.streamed)
      (frameCell state turnId stepId frameId) offset chunk := by
  rw [applyFrameAppend] at hgap
  cases hframe : streamedFrame state.items turnId stepId frameId with
  | none =>
    rw [hframe] at hgap
    cases hgap
  | some found =>
    obtain ⟨turn, step, frame, current⟩ := found
    obtain ⟨hturn, hstep, hget, hcurrent⟩ := streamedFrame_spec hframe
    refine ⟨current, ?_, ?_⟩
    · rw [frameCell, stepCell, hturn, bind_some, hstep, bind_some, hget]
      exact hcurrent
    · intro gap hplaced
      rw [hframe] at hgap
      dsimp only at hgap
      rw [hplaced] at hgap
      cases hgap

theorem not_amend_of_settles {id stepId frameId : Text}
    (h : op.settles (.frame id stepId frameId)) : ¬(frameWrite id stepId frameId op).isAmend := by
  cases op with
  | frameUpsert turn step frame =>
    have hhere : turn = id ∧ step = stepId ∧ frame.frameId = frameId := h
    rw [frameWrite, if_pos hhere]
    exact not_false
  | itemsRemove ids =>
    have hmem : id ∈ ids := h
    rw [frameWrite, if_pos hmem]
    exact not_false
  | _ => exact h.elim

end

theorem frame (h : Overlap nt P F ops) (q : ℚ) (stepId frameId : Text) :
    frameCell (applyAll nt F ops) (turnId nt q) stepId frameId = frameCell F (turnId nt q) stepId frameId := by
  have hexact (v w : TranscriptFrame C) (hv : ¬v.isNotice) (hkey : frameKey w = frameKey v) : w = v :=
    eq_of_frameKey v w hv hkey
  apply (writes_frame nt q stepId frameId).absorbed_stream hexact (settled_frameWrite _ stepId frameId)
    (streams_frame _ stepId frameId) h.producer h.consumer h.plain
  · rw [frameCell, frameCell, h.stepCell_loaded]
  · intro hamends pre op post offset chunk hsplit happends
    cases op with
    | append target offset' chunk' =>
      cases target with
      | task taskId => cases happends
      | frame turn step f =>
        rw [frameAppends] at happends
        split at happends
        · rename_i he
          obtain ⟨rfl, rfl, rfl⟩ := he
          obtain ⟨rfl, rfl⟩ := Prod.mk.inj (some.inj happends)
          apply lands_frame
          rcases h.replayable.landed pre _ _ _ post hsplit with ⟨settling, hmem, hsettles⟩ | hgap
          · exact absurd (hamends settling hmem) (not_amend_of_settles hsettles)
          · exact hgap
        · cases happends
    | _ => cases happends

end Overlap

end Echadron.Transcript
