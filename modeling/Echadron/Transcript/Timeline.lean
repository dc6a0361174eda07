import Echadron.Transcript.Apply

namespace Echadron.Transcript
open Lib List Option

section

/-! Placing an element before the first that a test accepts. -/

section

variable {α β : Type} {p : α → Bool} {x : α} {xs : List α}

theorem spliceBefore_perm : (spliceBefore p x xs).Perm (x :: xs) := by
  induction xs with
  | nil => exact .refl _
  | cons y ys ih =>
    rw [spliceBefore]
    split
    · exact .refl _
    · exact (ih.cons y).trans (.swap x y ys)

theorem mem_spliceBefore : y ∈ spliceBefore p x xs ↔ y = x ∨ y ∈ xs := spliceBefore_perm.mem_iff.trans mem_cons

theorem map_spliceBefore (f : α → β) (h : ∀ y ∈ xs, q (f y) = p y) :
    (spliceBefore p x xs).map f = spliceBefore q (f x) (xs.map f) := by
  induction xs with
  | nil => rfl
  | cons y ys ih =>
    obtain ⟨hy, hys⟩ := forall_mem_cons.mp h
    rw [spliceBefore, map_cons, spliceBefore, hy]
    split
    · rfl
    · rw [map_cons, ih hys]

theorem spliceBefore_rising {key : α → ℚ} (h : xs.Pairwise (key · < key ·)) (hnew : ∀ y ∈ xs, key y ≠ key x) :
    (spliceBefore (fun y => key x < key y) x xs).Pairwise (key · < key ·) := by
  induction xs with
  | nil => exact pairwise_singleton _ _
  | cons y ys ih =>
    obtain ⟨hy, hys⟩ := pairwise_cons.mp h
    obtain ⟨hne, hnew⟩ := forall_mem_cons.mp hnew
    rw [spliceBefore]
    split
    · rename_i hlt
      have hlt := of_decide_eq_true hlt
      refine pairwise_cons.mpr ⟨?_, h⟩
      intro z hz
      rcases mem_cons.mp hz with rfl | hz
      · exact hlt
      · exact lt_trans hlt (hy z hz)
    · rename_i hge
      have hle : key y ≤ key x := by simpa using hge
      refine pairwise_cons.mpr ⟨?_, ih hys hnew⟩
      intro z hz
      rcases mem_spliceBefore.mp hz with rfl | hz
      · exact lt_of_le_of_ne hle hne
      · exact hy z hz

end

variable {C : Type} {items : List (TranscriptItem C)} {id : Text}

theorem mem_turnsOf : turn ∈ turnsOf items ↔ .turn turn ∈ items := by
  rw [turnsOf, mem_filterMap]
  constructor
  · rintro ⟨item, hitem, he⟩
    cases item with
    | turn t =>
      obtain rfl : t = turn := some.inj he
      exact hitem
    | marker m => cases he
    | taskref r => cases he
  · exact fun h => ⟨_, h, rfl⟩

theorem turnsOf_insertTurn (turn : TranscriptTurn C) : turnsOf (insertTurn items turn) =
    spliceBefore (fun t => turn.ordinal < t.ordinal) turn (turnsOf items) := by
  induction items with
  | nil => rfl
  | cons item items ih =>
    cases item with
    | turn t =>
      change turnsOf (if decide (turn.ordinal < t.ordinal) = true then _ else _) =
        if decide (turn.ordinal < t.ordinal) = true then _ else _
      split
      · rfl
      · exact congrArg (t :: ·) ih
    | marker m => exact ih
    | taskref r => exact ih

theorem turnsOf_spliceBefore
    (h : item.asTurn = none) : turnsOf (spliceBefore p item items) = turnsOf items := by
  induction items with
  | nil => exact filterMap_cons_none h
  | cons entry items ih =>
    rw [spliceBefore]
    split
    · exact filterMap_cons_none h
    · rw [turnsOf, turnsOf, filterMap_cons, filterMap_cons]
      rw [turnsOf, turnsOf] at ih
      rw [ih]

theorem turnsOf_replaceTurn (turnId : Text) (fn : TranscriptTurn C → TranscriptTurn C) :
    turnsOf (replaceTurn items turnId fn) =
      (turnsOf items).map fun t => if t.turnId = turnId then fn t else t := by
  induction items with
  | nil => rfl
  | cons item items ih =>
    cases item with
    | turn t =>
      change turnsOf ((if t.turnId = turnId then .turn (fn t) else .turn t) ::
        replaceTurn items turnId fn) = (if t.turnId = turnId then fn t else t) :: _
      split
      · exact congrArg (fn t :: ·) ih
      · exact congrArg (t :: ·) ih
    | marker m => exact ih
    | taskref r => exact ih

theorem turnsOf_replaceItem (hitem : item.asTurn = none) :
    turnsOf (items.map fun entry => if itemIdOf entry = id then item else entry) =
      (turnsOf items).filter fun t => t.turnId ≠ id := by
  rw [turnsOf, turnsOf, filterMap_map, filter_filterMap]
  apply filterMap_congr
  intro entry _
  rw [Function.comp_apply]
  cases entry with
  | turn t =>
    have hturn : (TranscriptItem.turn t).asTurn = some t := rfl
    rw [hturn]
    by_cases hid : itemIdOf (.turn t) = id
    · rw [if_pos hid, hitem, filter_some_neg (by simpa [itemIdOf] using hid)]
    · rw [if_neg hid, hturn, filter_some_pos (by simpa [itemIdOf] using hid)]
  | marker m =>
    split
    · exact hitem
    · rfl
  | taskref r =>
    split
    · exact hitem
    · rfl

theorem itemIdOf_mapTurn {turnId : Text}
    (hfn : ∀ t, t.turnId = turnId → (fn t).turnId = turnId) (item : TranscriptItem C) :
    itemIdOf (mapTurn turnId fn item) = itemIdOf item := by
  cases item with
  | turn t =>
    rw [mapTurn]
    split
    · rename_i ht
      exact (hfn t ht).trans ht.symm
    · rfl
  | marker m => rfl
  | taskref r => rfl

theorem ids_replaceTurn {turnId : Text} (hfn : ∀ t, t.turnId = turnId → (fn t).turnId = turnId) :
    (replaceTurn items turnId fn).map itemIdOf = items.map itemIdOf := by
  rw [replaceTurn, List.map_map]
  exact map_congr_left fun item _ => itemIdOf_mapTurn hfn item

section

variable {α : Type} {key : α → Text} {xs : List α} {x : α}

theorem find_mem (h : xs.find? (fun y => key y = id) = some x) : x ∈ xs ∧ key x = id :=
  ⟨mem_of_find?_eq_some h, by simpa using find?_some h⟩

theorem find_eq_none : xs.find? (fun y => key y = id) = none ↔ ∀ y ∈ xs, key y ≠ id := by
  simp only [find?_eq_none, decide_eq_true_eq]

theorem find_of_mem (hnodup : (xs.map key).Nodup) (hx : x ∈ xs) (hid : key x = id) :
    xs.find? (fun y => key y = id) = some x := by
  cases h : xs.find? fun y => key y = id with
  | none => exact absurd hid (find_eq_none.mp h x hx)
  | some y =>
    obtain ⟨hy, hyid⟩ := find_mem h
    rw [inj_on_of_nodup_map hnodup hy hx (hyid.trans hid.symm)]

theorem find_iff (hnodup : (xs.map key).Nodup) : xs.find? (fun y => key y = id) = some x ↔ x ∈ xs ∧ key x = id := by
  constructor
  · exact find_mem
  · exact fun h => find_of_mem hnodup h.1 h.2

theorem find_spliceBefore (hnew : ∀ y ∈ xs, key y ≠ key x) : (spliceBefore p x xs).find? (fun y => key y = id) =
      if key x = id then some x else xs.find? fun y => key y = id := by
  induction xs with
  | nil =>
    by_cases hid : key x = id <;> simp [spliceBefore, hid]
  | cons y ys ih =>
    obtain ⟨hy, hys⟩ := forall_mem_cons.mp hnew
    rw [spliceBefore]
    by_cases hid : key x = id
    · have hne : key y ≠ id := fun he => hy (he.trans hid.symm)
      rw [if_pos hid] at ih ⊢
      split
      · exact find?_cons_of_pos (by simpa using hid)
      · rw [find?_cons_of_neg (by simpa using hne), ih hys]
    · rw [if_neg hid] at ih ⊢
      split
      · exact find?_cons_of_neg (by simpa using hid)
      · by_cases hyid : key y = id
        · rw [find?_cons_of_pos (by simpa using hyid), find?_cons_of_pos (by simpa using hyid)]
        · rw [find?_cons_of_neg (by simpa using hyid), ih hys, find?_cons_of_neg (by simpa using hyid)]

theorem find_map_keeping (hf : ∀ y ∈ xs, key (f y) = key y) :
    (xs.map f).find? (fun y => key y = id) = (xs.find? fun y => key y = id).map f := by
  rw [find?_map]
  congr 1
  induction xs with
  | nil => rfl
  | cons y ys ih =>
    obtain ⟨hy, hys⟩ := forall_mem_cons.mp hf
    rw [find?_cons, find?_cons, Function.comp_apply, hy, ih hys]

theorem find_filter_ids (ids : List Text) : (xs.filter fun y => key y ∉ ids).find? (fun y => key y = id) =
      if id ∈ ids then none else xs.find? fun y => key y = id := by
  rw [find?_filter]
  by_cases hid : id ∈ ids
  · rw [if_pos hid, find?_eq_none]
    intro y _ h
    simp only [decide_not, Bool.not_eq_eq_eq_not, Bool.not_true, decide_eq_false_iff_not, decide_eq_true_eq] at h
    exact h.1 (h.2 ▸ hid)
  · rw [if_neg hid]
    congr 1
    funext y
    by_cases hy : key y = id
    · simp [hy, hid]
    · simp [hy]

theorem eq_of_find (hids : xs.map key = ys.map key) (hnodup : (xs.map key).Nodup)
    (h : ∀ id, xs.find? (fun y => key y = id) = ys.find? fun y => key y = id) : xs = ys := by
  have hnodup' := hids ▸ hnodup
  apply ext_getElem?
  intro i
  have hkey : (xs[i]?).map key = (ys[i]?).map key := by
    rw [← getElem?_map, ← getElem?_map, hids]
  cases hx : xs[i]? with
  | none =>
    rw [hx] at hkey
    exact (map_eq_none_iff.mp hkey.symm).symm
  | some x =>
    rw [hx] at hkey
    obtain ⟨y, hy, he⟩ := map_eq_some_iff.mp hkey.symm
    have hfind := h (key x)
    rw [find_of_mem hnodup (mem_of_getElem? hx) rfl, find_of_mem hnodup' (mem_of_getElem? hy) he] at hfind
    rw [hy, hfind]
end

theorem getTurn_mem (h : getTurn items id = some turn) : turn ∈ turnsOf items ∧ turn.turnId = id := find_mem h

theorem getTurn_eq_none : getTurn items id = none ↔ ∀ t ∈ turnsOf items, t.turnId ≠ id := find_eq_none

theorem getStep_mem
    (h : getStep turn id = some step) : step ∈ turn.steps ∧ step.stepId = id :=
  find_mem h

theorem getStep_eq_none : getStep turn id = none ↔ ∀ s ∈ turn.steps, s.stepId ≠ id := find_eq_none

theorem getFrame_mem
    (h : getFrame step id = some frame) : frame ∈ step.frames ∧ frame.frameId = id :=
  find_mem h

theorem getFrame_eq_none : getFrame step id = none ↔ ∀ f ∈ step.frames, f.frameId ≠ id := find_eq_none

variable [DecidableEq C]

theorem upsertStep_of_nil (h : turn.steps = []) (header : StepHeader C) : upsertStep turn header ≠ none := by
  rw [upsertStep, getStep, h]
  exact some_ne_none _

theorem upsertFrame_of_nil (h : step.frames = []) (frame : TranscriptFrame C) : upsertFrame step frame ≠ none := by
  rw [upsertFrame, getFrame, h]
  exact some_ne_none _

end

variable {C : Type} {nt : NumberText}

/-- The ids of a turn follow its ordinals, its steps rise, and no step has a frame twice. -/
structure TurnOrdered (nt : NumberText) (turn : TranscriptTurn C) : Prop where
  id_eq : turn.turnId = turnId nt turn.ordinal
  step_ids : ∀ s ∈ turn.steps, s.stepId = stepId nt turn.turnId s.ordinal
  steps_rising : turn.steps.Pairwise (·.ordinal < ·.ordinal)
  frames_nodup : ∀ s ∈ turn.steps, (s.frames.map TranscriptFrame.frameId).Nodup

structure Timeline (nt : NumberText) (items : List (TranscriptItem C)) : Prop where
  turns : ∀ t ∈ turnsOf items, TurnOrdered nt t
  rising : (turnsOf items).Pairwise (·.ordinal < ·.ordinal)
  standalone : ∀ item ∈ items, item.asTurn = none → ∀ q, itemIdOf item ≠ turnId nt q
  nodup : (items.map itemIdOf).Nodup

/-! Steps. -/

theorem nodup_of_rising {id : α → Text} {ordinal : α → ℚ}
    (hf : Function.Injective f) {xs : List α} (hid : ∀ x ∈ xs, id x = f (ordinal x))
    (h : xs.Pairwise (ordinal · < ordinal ·)) : (xs.map id).Nodup := by
  have hmap : xs.map id = (xs.map ordinal).map f := by
    rw [List.map_map]
    exact map_congr_left hid
  rw [hmap]
  apply List.Nodup.map hf
  exact pairwise_map.mpr (h.imp fun hlt => ne_of_lt hlt)

theorem TurnOrdered.steps_nodup {turn : TranscriptTurn C} (h : TurnOrdered nt turn) :
    (turn.steps.map fun s => s.stepId).Nodup :=
  nodup_of_rising (stepId_injective nt turn.turnId) h.step_ids h.steps_rising

theorem sortSteps_rising {step : TranscriptStep C}
    (h : steps.Pairwise (·.ordinal < ·.ordinal)) (hnew : ∀ s ∈ steps, s.ordinal ≠ step.ordinal) :
    (sortSteps (steps ++ [step])).Pairwise (·.ordinal < ·.ordinal) := by
  have hperm : (sortSteps (steps ++ [step])).Perm (steps ++ [step]) := perm_insertionSort ..
  have hdistinct : ((steps ++ [step]).map fun s => s.ordinal).Nodup := by
    rw [map_append, nodup_append]
    refine ⟨pairwise_map.mpr (h.imp ne_of_lt), nodup_singleton _, ?_⟩
    intro a ha b hb
    obtain ⟨s, hs, rfl⟩ := mem_map.mp ha
    rw [mem_singleton.mp hb]
    exact hnew s hs
  have hne := pairwise_map.mp ((hperm.map _).nodup_iff.mpr hdistinct)
  have hle : (sortSteps (steps ++ [step])).Pairwise (·.ordinal ≤ ·.ordinal) := pairwise_insertionSort ..
  exact (hle.and hne).imp fun h => lt_of_le_of_ne h.1 h.2

theorem mem_sortSteps : s ∈ sortSteps (steps ++ [step]) ↔ s ∈ steps ∨ s = step := by
  rw [sortSteps, mem_insertionSort, mem_snoc]

namespace TurnOrdered

variable {turn : TranscriptTurn C}

theorem insertStep (h : TurnOrdered nt turn)
    (hid : step.stepId = stepId nt turn.turnId step.ordinal) (hnew : ∀ s ∈ turn.steps, s.stepId ≠ step.stepId)
    (hframes : (step.frames.map TranscriptFrame.frameId).Nodup) :
    TurnOrdered nt { turn with steps := sortSteps (turn.steps ++ [step]) } where
  id_eq := h.id_eq
  step_ids s hs := by
    rcases mem_sortSteps.mp hs with hs | rfl
    · exact h.step_ids s hs
    · exact hid
  steps_rising := by
    apply sortSteps_rising h.steps_rising
    intro s hs hordinal
    apply hnew s hs
    rw [h.step_ids s hs, hid, hordinal]
  frames_nodup s hs := by
    rcases mem_sortSteps.mp hs with hs | rfl
    · exact h.frames_nodup s hs
    · exact hframes

theorem mapSteps (h : TurnOrdered nt turn)
    (hf : ∀ s ∈ turn.steps, (f s).ordinal = s.ordinal ∧ (f s).stepId = s.stepId ∧
      ((f s).frames.map TranscriptFrame.frameId).Nodup) :
    TurnOrdered nt { turn with steps := turn.steps.map f } where
  id_eq := h.id_eq
  step_ids s' hs' := by
    obtain ⟨s, hs, rfl⟩ := mem_map.mp hs'
    obtain ⟨hordinal, hid, _⟩ := hf s hs
    rw [hid, hordinal]
    exact h.step_ids s hs
  steps_rising := by
    apply pairwise_map.mpr
    apply h.steps_rising.imp_of_mem
    intro a b ha hb hlt
    rw [(hf a ha).1, (hf b hb).1]
    exact hlt
  frames_nodup s' hs' := by
    obtain ⟨s, hs, rfl⟩ := mem_map.mp hs'
    exact (hf s hs).2.2

theorem skeleton (ordinal : ℚ) : TurnOrdered nt (skeletonTurn nt (turnId nt ordinal) : TranscriptTurn C) where
  id_eq := congrArg (turnId nt) (turnOrdinal_turnId nt ordinal).symm
  step_ids := forall_mem_nil _
  steps_rising := .nil
  frames_nodup := forall_mem_nil _

theorem ordinal_eq (h : TurnOrdered nt turn) (hs : s ∈ turn.steps)
    (hid : s.stepId = stepId nt turn.turnId q) : s.ordinal = q :=
  stepId_injective nt turn.turnId ((h.step_ids s hs).symm.trans hid)

theorem upsertStep [DecidableEq C] (h : TurnOrdered nt turn)
    (hid : header.stepId = stepId nt turn.turnId header.ordinal)
    (hsteps : upsertStep turn header = some steps) :
    TurnOrdered nt { turn with steps := steps } := by
  rw [Transcript.upsertStep] at hsteps
  cases hstep : getStep turn header.stepId with
  | none =>
    rw [hstep] at hsteps
    cases hsteps
    exact h.insertStep hid (getStep_eq_none.mp hstep) nodup_nil
  | some current =>
    rw [hstep] at hsteps
    dsimp only at hsteps
    split at hsteps
    · cases hsteps
    · cases hsteps
      apply h.mapSteps
      intro s hs
      split
      · rename_i hs'
        have hordinal := h.ordinal_eq hs (hs'.trans hid)
        exact ⟨hordinal.symm, hs'.symm, h.frames_nodup s hs⟩
      · exact ⟨rfl, rfl, h.frames_nodup s hs⟩

theorem putStep (h : TurnOrdered nt turn) {id : Text}
    (hid : id = stepId nt turn.turnId q) (hstep : step.stepId = id) (hordinal : step.ordinal = q)
    (hframes : (step.frames.map TranscriptFrame.frameId).Nodup) :
    TurnOrdered nt { turn with steps := putStep turn.steps id step } := by
  rw [Transcript.putStep]
  split
  · apply h.mapSteps
    intro s hs
    split
    · rename_i hs'
      have hs'' := h.ordinal_eq hs (hs'.trans hid)
      exact ⟨hordinal.trans hs''.symm, hstep.trans hs'.symm, hframes⟩
    · exact ⟨rfl, rfl, h.frames_nodup s hs⟩
  · rename_i hnone
    apply h.insertStep
    · rw [hstep, hid, hordinal]
    · intro s hs he
      apply hnone
      apply any_eq_true.mpr
      exact ⟨s, hs, decide_eq_true (he.trans hstep)⟩
    · exact hframes

theorem getStep_ordinal (h : TurnOrdered nt turn) (q : ℚ) :
    let step := (getStep turn (stepId nt turn.turnId q)).getD
      (skeletonStep nt (stepId nt turn.turnId q) turn.turnId)
    step.stepId = stepId nt turn.turnId q ∧ step.ordinal = q ∧
      (step.frames.map TranscriptFrame.frameId).Nodup := by
  cases hstep : getStep turn (stepId nt turn.turnId q) with
  | none => exact ⟨rfl, stepOrdinal_stepId .., nodup_nil⟩
  | some step =>
    obtain ⟨hmem, hid⟩ := getStep_mem hstep
    exact ⟨hid, h.ordinal_eq hmem hid, h.frames_nodup step hmem⟩

end TurnOrdered

theorem map_if_id {frames : List (TranscriptFrame C)} {id : Text} (hframe : frame.frameId = id) :
    (frames.map fun entry => if entry.frameId = id then frame else entry).map TranscriptFrame.frameId =
      frames.map TranscriptFrame.frameId := by
  rw [List.map_map]
  apply map_congr_left
  intro entry _
  rw [Function.comp_apply]
  split
  · rename_i he
    exact hframe.trans he.symm
  · rfl

theorem upsertFrame_nodup [DecidableEq C] {step : TranscriptStep C}
    (h : (step.frames.map TranscriptFrame.frameId).Nodup) (hframes : upsertFrame step frame = some frames) :
    (frames.map TranscriptFrame.frameId).Nodup := by
  rw [upsertFrame] at hframes
  cases hframe : getFrame step frame.frameId with
  | none =>
    rw [hframe] at hframes
    cases hframes
    rw [map_append, nodup_append]
    refine ⟨h, nodup_singleton _, ?_⟩
    intro a ha b hb
    obtain ⟨f, hf, rfl⟩ := mem_map.mp ha
    rw [mem_singleton.mp hb]
    exact getFrame_eq_none.mp hframe f hf
  | some current =>
    rw [hframe] at hframes
    dsimp only at hframes
    split at hframes
    · cases hframes
    · cases hframes
      rw [map_if_id rfl]
      exact h

namespace Timeline

variable {items : List (TranscriptItem C)} {id : Text}

section

variable (h : Timeline nt items)
include h

theorem turn_of_get (hget : getTurn items id = some turn) : TurnOrdered nt turn ∧ turn.turnId = id :=
  ⟨h.turns turn (getTurn_mem hget).1, (getTurn_mem hget).2⟩

theorem replaceTurn {id : Text} (hfn : ∀ t, t.turnId = id → (fn t).turnId = id)
    (hordered : ∀ t ∈ turnsOf items, t.turnId = id → TurnOrdered nt (fn t)) :
    Timeline nt (replaceTurn items id fn) where
  turns t' ht' := by
    rw [turnsOf_replaceTurn] at ht'
    obtain ⟨t, ht, rfl⟩ := mem_map.mp ht'
    split
    · rename_i hid
      exact hordered t ht hid
    · exact h.turns t ht
  rising := by
    rw [turnsOf_replaceTurn]
    apply pairwise_map.mpr
    have hordinal : ∀ t ∈ turnsOf items, (if t.turnId = id then fn t else t).ordinal = t.ordinal := by
      intro t ht
      split
      · rename_i hid
        apply turnId_injective nt
        rw [← (hordered t ht hid).id_eq, ← (h.turns t ht).id_eq, hfn t hid, hid]
      · rfl
    apply h.rising.imp_of_mem
    intro a b ha hb hlt
    rw [hordinal a ha, hordinal b hb]
    exact hlt
  standalone item hitem hnone := by
    obtain ⟨item, hmem, rfl⟩ := mem_map.mp hitem
    rw [itemIdOf_mapTurn hfn]
    apply h.standalone item hmem
    cases item with
    | turn t =>
      rw [mapTurn] at hnone
      split at hnone <;> cases hnone
    | marker m => rfl
    | taskref r => rfl
  nodup := by
    rw [ids_replaceTurn hfn]
    exact h.nodup

theorem insertTurn (hturn : TurnOrdered nt turn)
    (hnew : getTurn items turn.turnId = none) : Timeline nt (insertTurn items turn) where
  turns t ht := by
    rw [turnsOf_insertTurn] at ht
    rcases mem_spliceBefore.mp ht with rfl | ht
    · exact hturn
    · exact h.turns t ht
  rising := by
    rw [turnsOf_insertTurn]
    apply spliceBefore_rising h.rising
    intro t ht hordinal
    apply getTurn_eq_none.mp hnew t ht
    rw [(h.turns t ht).id_eq, hturn.id_eq, hordinal]
  standalone item hitem hnone := by
    rcases mem_spliceBefore.mp hitem with rfl | hitem
    · cases hnone
    · exact h.standalone item hitem hnone
  nodup := by
    rw [Transcript.insertTurn, (spliceBefore_perm.map itemIdOf).nodup_iff, map_cons, nodup_cons]
    refine ⟨?_, h.nodup⟩
    intro hmem
    obtain ⟨item, hitem, hid⟩ := mem_map.mp hmem
    cases item with
    | turn t => exact getTurn_eq_none.mp hnew t (mem_turnsOf.mpr hitem) hid
    | marker m => exact h.standalone _ hitem rfl _ (hid.trans hturn.id_eq)
    | taskref r => exact h.standalone _ hitem rfl _ (hid.trans hturn.id_eq)

theorem putTurn (hturn : TurnOrdered nt turn) (hid : turn.turnId = id) : Timeline nt (putTurn items id turn) := by
  rw [Transcript.putTurn]
  split
  · exact h.replaceTurn (fun _ _ => hid) fun _ _ _ => hturn
  · rename_i hnone
    subst hid
    exact h.insertTurn hturn (not_isSome_iff_eq_none.mp hnone)

theorem replaceItem (hitem : item.asTurn = none) (hid : ∀ q, itemIdOf item ≠ turnId nt q) :
    Timeline nt (items.map fun entry => if itemIdOf entry = itemIdOf item then item else entry) := by
  have hids : (items.map fun entry => if itemIdOf entry = itemIdOf item then item else entry).map itemIdOf =
      items.map itemIdOf := by
    rw [List.map_map]
    apply map_congr_left
    intro entry _
    rw [Function.comp_apply]
    split
    · rename_i he
      exact he.symm
    · rfl
  have hturns : turnsOf (items.map fun entry => if itemIdOf entry = itemIdOf item then item else entry) =
      turnsOf items := by
    rw [turnsOf, filterMap_map]
    apply filterMap_congr
    intro entry hentry
    rw [Function.comp_apply]
    split
    · rename_i he
      cases entry with
      | turn t => exact absurd (he.symm.trans (h.turns t (mem_turnsOf.mpr hentry)).id_eq) (hid _)
      | marker m => exact hitem
      | taskref r => exact hitem
    · rfl
  constructor
  · rw [hturns]
    exact h.turns
  · rw [hturns]
    exact h.rising
  · intro e he hnone
    obtain ⟨entry, hentry, rfl⟩ := mem_map.mp he
    split at hnone
    · rename_i heq
      rw [if_pos heq]
      exact hid
    · rename_i hne
      rw [if_neg hne]
      exact h.standalone entry hentry hnone
  · rw [hids]
    exact h.nodup

theorem insertItem (hitem : item.asTurn = none)
    (hid : ∀ q, itemIdOf item ≠ turnId nt q) (hnew : ∀ entry ∈ items, itemIdOf entry ≠ itemIdOf item)
    (p : TranscriptItem C → Bool) : Timeline nt (spliceBefore p item items) where
  turns := by
    rw [turnsOf_spliceBefore hitem]
    exact h.turns
  rising := by
    rw [turnsOf_spliceBefore hitem]
    exact h.rising
  standalone entry hentry hnone := by
    rcases mem_spliceBefore.mp hentry with rfl | hentry
    · exact hid
    · exact h.standalone entry hentry hnone
  nodup := by
    rw [(spliceBefore_perm.map itemIdOf).nodup_iff, map_cons, nodup_cons]
    refine ⟨?_, h.nodup⟩
    intro hmem
    obtain ⟨entry, hentry, he⟩ := mem_map.mp hmem
    exact hnew entry hentry he

theorem sublist (hsub : items'.Sublist items) : Timeline nt items' where
  turns t ht := h.turns t ((hsub.filterMap _).subset ht)
  rising := h.rising.sublist (hsub.filterMap _)
  standalone item hitem := h.standalone item (hsub.subset hitem)
  nodup := h.nodup.sublist (hsub.map _)

end

theorem empty : Timeline nt ([] : List (TranscriptItem C)) :=
  ⟨forall_mem_nil _, .nil, forall_mem_nil _, nodup_nil⟩

end Timeline

end Echadron.Transcript
