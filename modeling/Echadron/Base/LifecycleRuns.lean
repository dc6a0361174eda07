import Echadron.Base.LifecycleMachine

namespace Echadron.Base
open Lib List Option

variable {S : Type}

/-! The history of a walk. -/

theorem registeredActions_append (kind : ActionKind) (trace more : List (TransactionRecord S)) :
    registeredActions kind (trace ++ more) = registeredActions kind trace ++ registeredActions kind more :=
  filterMap_append

theorem ranActions_append (kind : ActionKind) (trace more : List (TransactionRecord S)) :
    ranActions kind (trace ++ more) = ranActions kind trace ++ ranActions kind more :=
  filterMap_append

structure Plain (r : TransactionRecord S) : Prop where
  action : ∀ kind, registeredAction kind r = none
  commit : committedState r = none
  rollback : rolledBackState r = none

theorem registeredActions_plain {kind : ActionKind} {r : TransactionRecord S} (h : registeredAction kind r = none)
    (trace : List (TransactionRecord S)) : registeredActions kind (trace ++ [r]) = registeredActions kind trace := by
  simp [registeredActions, h]

theorem plain_began (kind : ActionKind) : Plain (TransactionRecord.began kind : TransactionRecord S) :=
  ⟨fun _ => rfl, rfl, rfl⟩

theorem exit_append {options : LifecycleTransactionOptions S} (h : ∃ before threw after,
      trace = before ++ .callbackSettled threw :: after ∧ exit = exitOf options before threw) :
    ∃ before threw after,
      trace ++ more = before ++ .callbackSettled threw :: after ∧ exit = exitOf options before threw := by
  obtain ⟨before, threw, after, rfl, hexit⟩ := h
  exact ⟨before, threw, after ++ more, by simp, hexit⟩

variable [DecidableEq S]

theorem beforeWalk_append {kind : ActionKind} (h : .began kind ∈ trace)
    (more : List (TransactionRecord S)) : beforeWalk kind (trace ++ more) = beforeWalk kind trace := by
  induction trace with
  | nil => cases h
  | cons r trace ih =>
    rw [beforeWalk, beforeWalk, cons_append, takeWhile_cons, takeWhile_cons]
    split
    · rename_i hne
      rcases mem_cons.mp h with heq | hmem
      · exact absurd heq.symm (of_decide_eq_true hne)
      · exact congrArg _ (ih hmem)
    · rfl

theorem beforeWalk_of_not_mem {kind : ActionKind} (h : .began kind ∉ trace)
    (more : List (TransactionRecord S)) : beforeWalk kind (trace ++ .began kind :: more) = trace := by
  induction trace with
  | nil =>
    rw [beforeWalk]
    simp
  | cons r trace ih =>
    rw [mem_cons, not_or] at h
    rw [beforeWalk, cons_append, takeWhile_cons, if_pos (decide_eq_true (Ne.symm h.1))]
    exact congrArg _ (ih h.2)

theorem beforeWalk_prefix (kind : ActionKind) (trace : List (TransactionRecord S)) :
    beforeWalk kind trace <+: trace := takeWhile_prefix _

/-- How far the walk over a list has come: not begun, or with so many actions still to be started. -/
def WalkedTo (kind : ActionKind) (trace : List (TransactionRecord S)) : Option Nat → Prop
  | none => .began kind ∉ trace ∧ ranActions kind trace = []
  | some left => .began kind ∈ trace ∧ left ≤ (registeredActions kind (beforeWalk kind trace)).length ∧
    ranActions kind trace = ((registeredActions kind (beforeWalk kind trace)).drop left).reverse

theorem WalkedTo.other {kind : ActionKind}
    (h : WalkedTo kind trace walked) {r : TransactionRecord S} (hbegan : r ≠ .began kind)
    (hran : ranAction kind r = none) : WalkedTo kind (trace ++ [r]) walked := by
  have hsame : ranActions kind (trace ++ [r]) = ranActions kind trace := by
    simp [ranActions, hran]
  cases walked with
  | none =>
    refine ⟨?_, hsame.trans h.2⟩
    intro hmem
    rcases mem_snoc.mp hmem with hmem | hmem
    · exact h.1 hmem
    · exact hbegan hmem.symm
  | some left =>
    rw [WalkedTo, beforeWalk_append h.1, hsame]
    exact ⟨mem_append_left _ h.1, h.2⟩

theorem WalkedTo.begin {kind : ActionKind} {trace : List (TransactionRecord S)} (h : WalkedTo kind trace none) :
    WalkedTo kind (trace ++ [.began kind]) (some (registeredActions kind trace).length) := by
  rw [WalkedTo, beforeWalk_of_not_mem h.1, drop_length, ranActions_append, h.2]
  exact ⟨mem_concat_self, Nat.le_refl _, rfl⟩

theorem WalkedTo.run {kind : ActionKind} {trace : List (TransactionRecord S)} {left action : Nat}
    (h : WalkedTo kind trace (some (left + 1))) (haction : (registeredActions kind trace)[left]? = some action) :
    WalkedTo kind (trace ++ [.ran kind action]) (some left) := by
  obtain ⟨hmem, hle, hran⟩ := h
  obtain ⟨more, hmore⟩ := beforeWalk_prefix kind trace
  have hbefore : (registeredActions kind (beforeWalk kind trace))[left]? = some action := by
    rw [← hmore, registeredActions_append, getElem?_append_left hle] at haction
    exact haction
  refine ⟨mem_append_left _ hmem, ?_, ?_⟩
  · rw [beforeWalk_append hmem]
    exact Nat.le_of_succ_le hle
  · have hone : @ranActions S kind [.ran kind action] = [action] := by simp [ranActions, ranAction]
    obtain ⟨hlt, hget⟩ := List.getElem?_eq_some_iff.mp hbefore
    rw [beforeWalk_append hmem, ranActions_append, hran, hone, drop_eq_getElem_cons hlt, reverse_cons, hget]

/-- The actions of a list that are still to be started, once its walk has begun. -/
def TransactionPhase.left : TransactionPhase → ActionKind → Option Nat
  | .walking .rollingBack left _, .rollback => some left
  | .walking (.cleaningUp true) _ _, .rollback => some 0
  | .walking (.cleaningUp _) left _, .deferred => some left
  | .walking .committed _ _, .deferred => some 0
  | .walking .committed left _, .afterCommit => some left
  | .ended exit, kind => if exit.walks kind then some 0 else none
  | _, _ => none

def TransactionPhase.exit : TransactionPhase → Option TransactionExit
  | .callback => none
  | .walking .rollingBack _ _ | .walking (.cleaningUp true) _ _ => some .failed
  | .walking (.cleaningUp false) _ _ | .walking .committed _ _ => some .succeeded
  | .ended exit => some exit

def TransactionPhase.state (options : LifecycleTransactionOptions S) (trace : List (TransactionRecord S)) :
    TransactionPhase → Option S
  | .walking .committed _ _ => selectedCommit options (beforeWalk .afterCommit trace)
  | .ended exit => endState options trace exit
  | _ => some options.enter

namespace LifecycleTransaction

structure Tracked (t : LifecycleTransaction S) : Prop where
  active : t.machine.activeOperation = none ↔ t.isEnded = true
  actions : ∀ kind, t.actions kind = registeredActions kind t.trace
  fresh : ∀ kind, ∀ action ∈ registeredActions kind t.trace, action < t.trace.length
  nodup : ∀ kind, (registeredActions kind t.trace).Nodup
  commit : t.commitState = selectedCommit t.options t.trace
  uncommitted : t.commitSelected = false → t.trace.findSome? committedState = none
  rollback : t.rollbackState = selectedRollback t.options t.trace
  unrolled : t.rollbackSelected = false → t.trace.findSome? rolledBackState = none
  walked : ∀ kind, WalkedTo kind t.trace (t.phase.left kind)
  exit : ∀ exit, t.phase.exit = some exit → ∃ before threw after,
    t.trace = before ++ .callbackSettled threw :: after ∧ exit = exitOf t.options before threw
  state : some t.machine.state = t.phase.state t.options t.trace

variable {t t' : LifecycleTransaction S}

section

variable (h : t.Tracked)
include h

theorem Tracked.commit_append (hr : committedState r = none) :
    t.commitState = selectedCommit t.options (t.trace ++ [r]) ∧
      (t.commitSelected = false → (t.trace ++ [r]).findSome? committedState = none) := by
  constructor
  · rw [h.commit]
    simp [selectedCommit, hr]
  · intro hnone
    rw [findSome?_append, h.uncommitted hnone]
    simp [hr]

theorem Tracked.rollback_append (hr : rolledBackState r = none) :
    t.rollbackState = selectedRollback t.options (t.trace ++ [r]) ∧
      (t.rollbackSelected = false → (t.trace ++ [r]).findSome? rolledBackState = none) := by
  constructor
  · rw [h.rollback]
    simp [selectedRollback, hr]
  · intro hnone
    rw [findSome?_append, h.unrolled hnone]
    simp [hr]

theorem Tracked.actions_append (hr : ∀ kind action, registeredAction kind r = some action → action = t.trace.length) :
    (∀ kind, ∀ action ∈ registeredActions kind (t.trace ++ [r]), action < (t.trace ++ [r]).length) ∧
      ∀ kind, (registeredActions kind (t.trace ++ [r])).Nodup := by
  constructor
  · intro kind action haction
    rw [registeredActions_append] at haction
    rw [length_append]
    rcases mem_append.mp haction with hold | hnew
    · exact Nat.lt_add_right _ (h.fresh kind action hold)
    · obtain ⟨_, hmem, hnew⟩ := mem_filterMap.mp hnew
      rw [mem_singleton.mp hmem] at hnew
      rw [hr kind action hnew]
      exact Nat.lt_succ_self _
  · intro kind
    rw [registeredActions_append, registeredActions.eq_1 kind [r], filterMap_cons]
    cases hnew : registeredAction kind r with
    | none => simpa using h.nodup kind
    | some action =>
      change (registeredActions kind t.trace ++ [action]).Nodup
      rw [← concat_eq_append]
      apply (h.nodup kind).concat
      intro hmem
      exact Nat.lt_irrefl _ (hr kind action hnew ▸ h.fresh kind _ hmem)

theorem Tracked.goOn (hplain : Plain r) {phase : TransactionPhase}
    {machine : LifecycleMachine S} {errors : List (TransactionError S)}
    (hactive : machine.activeOperation = none ↔ { t with phase }.isEnded = true)
    (hwalked : ∀ kind, WalkedTo kind (t.trace ++ [r]) (phase.left kind))
    (hexit : ∀ exit, phase.exit = some exit → ∃ before threw after,
      t.trace ++ [r] = before ++ .callbackSettled threw :: after ∧ exit = exitOf t.options before threw)
    (hstate : some machine.state = phase.state t.options (t.trace ++ [r])) :
    { t with machine, phase, errors, trace := t.trace ++ [r] }.Tracked :=
  have hnew := h.actions_append fun kind action hr => by
    rw [hplain.action] at hr
    cases hr
  { active := hactive
    actions := fun kind => (h.actions kind).trans (registeredActions_plain (hplain.action kind) _).symm
    fresh := hnew.1
    nodup := hnew.2
    commit := (h.commit_append hplain.commit).1
    uncommitted := (h.commit_append hplain.commit).2
    rollback := (h.rollback_append hplain.rollback).1
    unrolled := (h.rollback_append hplain.rollback).2
    walked := hwalked
    exit := hexit
    state := hstate }

section

variable (hend : t.isEnded = false)
include hend

theorem state_append (more : List (TransactionRecord S)) :
    t.phase.state t.options (t.trace ++ more) = t.phase.state t.options t.trace := by
  have hwalked := h.walked .afterCommit
  cases hphase : t.phase with
  | callback => rfl
  | ended exit =>
    rw [isEnded, hphase] at hend
    cases hend
  | walking walk left running =>
    cases walk with
    | committed =>
      rw [hphase] at hwalked
      rw [TransactionPhase.state, TransactionPhase.state, beforeWalk_append hwalked.1]
    | _ => rfl

/-- What the invariant says of a history and a phase goes on with a record that begins no walk and runs nothing. -/
theorem Tracked.record {r : TransactionRecord S}
    (hbegan : ∀ kind, r ≠ .began kind) (hran : ∀ kind, ranAction kind r = none) :
    (∀ kind, WalkedTo kind (t.trace ++ [r]) (t.phase.left kind)) ∧
      (∀ exit, t.phase.exit = some exit → ∃ before threw after,
        t.trace ++ [r] = before ++ .callbackSettled threw :: after ∧ exit = exitOf t.options before threw) ∧
      some t.machine.state = t.phase.state t.options (t.trace ++ [r]) := by
  refine ⟨fun kind => (h.walked kind).other (hbegan kind) (hran kind), fun exit hexit => exit_append (h.exit exit hexit), ?_⟩
  rw [state_append h hend]
  exact h.state

theorem Tracked.registered (kind : ActionKind) {deferred rollbacks afterCommit : List Nat}
    (ht : t' = { t with deferred, rollbacks, afterCommit, trace := t.trace ++ [.registered kind t.trace.length] })
    (hactions : ∀ kind', t'.actions kind' = t.actions kind' ++ if kind = kind' then [t.trace.length] else []) :
    t'.Tracked := by
  obtain ⟨hwalked, hexit, hstate⟩ := @Tracked.record _ _ _ h hend (.registered kind t.trace.length)
    (fun _ hr => by cases hr) (fun _ => rfl)
  obtain ⟨hfresh, hnodup⟩ := @Tracked.actions_append _ _ _ h (.registered kind t.trace.length) fun kind' action hr =>
    (some.inj (ite_none_right_eq_some.mp hr).2).symm
  subst ht
  exact
    { active := h.active
      actions := by
        intro kind'
        rw [hactions, registeredActions_append, h.actions]
        by_cases hsame : kind = kind' <;> simp [registeredActions, registeredAction, hsame]
      fresh := hfresh
      nodup := hnodup
      commit := (h.commit_append rfl).1
      uncommitted := (h.commit_append rfl).2
      rollback := (h.rollback_append rfl).1
      unrolled := (h.rollback_append rfl).2
      walked := hwalked
      exit := hexit
      state := hstate }

theorem Tracked.register (kind : ActionKind) : (t.register kind).Tracked := by
  cases kind with
  | deferred =>
    apply h.registered hend .deferred rfl
    intro kind'
    cases kind' with
    | deferred => rfl
    | _ => exact (append_nil _).symm
  | rollback =>
    apply h.registered hend .rollback rfl
    intro kind'
    cases kind' with
    | rollback => rfl
    | _ => exact (append_nil _).symm
  | afterCommit =>
    apply h.registered hend .afterCommit rfl
    intro kind'
    cases kind' with
    | afterCommit => rfl
    | _ => exact (append_nil _).symm

theorem Tracked.commits (state : S) : (t.commit state).Tracked := by
  rw [LifecycleTransaction.commit]
  cases hselected : t.commitSelected with
  | true => exact h
  | false =>
    obtain ⟨hwalked, hexit, hstate⟩ := @Tracked.record _ _ _ h hend (.committed state)
      (fun _ hr => by cases hr) (fun _ => rfl)
    obtain ⟨hfresh, hnodup⟩ := @Tracked.actions_append _ _ _ h (.committed state) fun _ _ hr => by cases hr
    obtain ⟨hrollback, hunrolled⟩ := @Tracked.rollback_append _ _ _ h (.committed state) rfl
    exact
      { h with
        actions := fun kind => (h.actions kind).trans (registeredActions_plain rfl _).symm
        fresh := hfresh
        nodup := hnodup
        commit := by
          change some state = ((t.trace ++ [TransactionRecord.committed state]).findSome? committedState).or t.options.commit
          rw [findSome?_append, h.uncommitted hselected]
          rfl
        uncommitted := fun hfalse => by cases hfalse
        rollback := hrollback
        unrolled := hunrolled
        walked := hwalked
        exit := hexit
        state := hstate }

theorem Tracked.rollsBackTo (state : S) : (t.rollbackTo state).Tracked := by
  rw [rollbackTo]
  cases hselected : t.rollbackSelected with
  | true => exact h
  | false =>
    obtain ⟨hwalked, hexit, hstate⟩ := @Tracked.record _ _ _ h hend (.rolledBackTo state)
      (fun _ hr => by cases hr) (fun _ => rfl)
    obtain ⟨hfresh, hnodup⟩ := @Tracked.actions_append _ _ _ h (.rolledBackTo state) fun _ _ hr => by cases hr
    obtain ⟨hcommit, huncommitted⟩ := @Tracked.commit_append _ _ _ h (.rolledBackTo state) rfl
    exact
      { h with
        actions := fun kind => (h.actions kind).trans (registeredActions_plain rfl _).symm
        fresh := hfresh
        nodup := hnodup
        commit := hcommit
        uncommitted := huncommitted
        rollback := by
          change some state = ((t.trace ++ [TransactionRecord.rolledBackTo state]).findSome? rolledBackState).or t.options.rollback
          rw [findSome?_append, h.unrolled hselected]
          rfl
        unrolled := fun hfalse => by cases hfalse
        walked := hwalked
        exit := hexit
        state := hstate }

end

end

theorem active_of_not_ended {t : LifecycleTransaction S} (h : t.Tracked) (hend : t.isEnded = false) : t.machine.activeOperation ≠ none := by
  intro hnone
  exact Bool.false_ne_true (hend.symm.trans (h.active.mp hnone))

theorem left_self (walk : ActionWalk) (left : Nat) (running : Bool) :
    (TransactionPhase.walking walk left running).left walk.kind = some left := by
  cases walk with
  | cleaningUp failed => cases failed <;> rfl
  | _ => rfl

theorem left_other {kind : ActionKind} (h : kind ≠ walk.kind) (left left' : Nat) (running running' : Bool) :
    (TransactionPhase.walking walk left running).left kind = (TransactionPhase.walking walk left' running').left kind := by
  cases walk with
  | rollingBack => cases kind <;> first | rfl | exact absurd rfl h
  | cleaningUp failed => cases failed <;> cases kind <;> first | rfl | exact absurd rfl h
  | committed => cases kind <;> first | rfl | exact absurd rfl h

theorem exit_walking (walk : ActionWalk) (left left' : Nat) (running running' : Bool) :
    (TransactionPhase.walking walk left running).exit = (TransactionPhase.walking walk left' running').exit := by
  cases walk with
  | cleaningUp failed => cases failed <;> rfl
  | _ => rfl

theorem state_walking (walk : ActionWalk) (left left' : Nat) (running running' : Bool)
    (options : LifecycleTransactionOptions S) (trace : List (TransactionRecord S)) :
    (TransactionPhase.walking walk left running).state options trace =
      (TransactionPhase.walking walk left' running').state options trace := by
  cases walk <;> rfl

theorem Tracked.runActions (h : t.Tracked) (hend : t.isEnded = false) {walk : ActionWalk}
    {machine : LifecycleMachine S} (hactive : machine.activeOperation = t.machine.activeOperation)
    (hwaiting : t.phase.left walk.kind = none)
    (hothers : ∀ kind, kind ≠ walk.kind → (TransactionPhase.walking walk 0 false).left kind = t.phase.left kind)
    (hexit : ∀ exit, (TransactionPhase.walking walk 0 false).exit = some exit → ∃ before threw after,
      t.trace = before ++ .callbackSettled threw :: after ∧ exit = exitOf t.options before threw)
    (hstate : some machine.state =
      (TransactionPhase.walking walk 0 false).state t.options (t.trace ++ [.began walk.kind])) :
    ({ t with machine }.runActions walk).Tracked := by
  apply h.goOn (plain_began walk.kind)
  · constructor
    · intro hnone
      exact absurd (hactive.symm.trans hnone) (@active_of_not_ended _ _ t h hend)
    · intro hended
      cases hended
  · intro kind
    by_cases hkind : kind = walk.kind
    · subst hkind
      have hwalked := h.walked walk.kind
      rw [hwaiting] at hwalked
      have hactions : ({ t with machine } : LifecycleTransaction S).actions walk.kind =
          registeredActions walk.kind t.trace := h.actions walk.kind
      rw [left_self, hactions]
      exact hwalked.begin
    · rw [left_other hkind _ 0 _ false, hothers kind hkind]
      apply (h.walked kind).other
      · intro hbegan
        exact hkind (TransactionRecord.began.inj hbegan).symm
      · rfl
  · intro exit hex
    rw [exit_walking walk _ 0 _ false] at hex
    exact exit_append (hexit exit hex)
  · rw [state_walking walk _ 0 _ false]
    exact hstate

theorem Tracked.settled (h : t.Tracked) (hphase : t.phase = .callback) (threw : Bool)
    (errors : List (TransactionError S)) :
    { t with errors, trace := t.trace ++ [TransactionRecord.callbackSettled threw] }.Tracked := by
  have hend : t.isEnded = false := by rw [isEnded, hphase]
  obtain ⟨hwalked, hexit, hstate⟩ := @Tracked.record _ _ _ h hend (.callbackSettled threw)
    (fun _ hr => by cases hr) (fun _ => rfl)
  exact h.goOn ⟨fun _ => rfl, rfl, rfl⟩ h.active hwalked hexit hstate

theorem Tracked.finish (h : t.Tracked) {exit : TransactionExit} {machine : LifecycleMachine S}
    {errors : List (TransactionError S)} (hleft : ∀ kind, (TransactionPhase.ended exit).left kind = t.phase.left kind)
    (hexit : ∃ before threw after,
      t.trace = before ++ .callbackSettled threw :: after ∧ exit = exitOf t.options before threw)
    (hstate : some machine.state = endState t.options t.trace exit) :
    ({ t with machine, errors }.finish exit).Tracked :=
  { h with
    active := ⟨fun _ => rfl, fun _ => rfl⟩
    walked := fun kind => (hleft kind).symm ▸ h.walked kind
    exit := by
      intro other hother
      cases hother
      exact hexit
    state := hstate }

section

omit [DecidableEq S]

theorem not_ended_of_callback (hphase : t.phase = .callback) : t.isEnded = false := by
  rw [isEnded, hphase]

theorem not_ended_of_walking
    (hphase : t.phase = .walking walk left running) : t.isEnded = false := by
  rw [isEnded, hphase]

end

theorem Tracked.callbackReturns (h : t.Tracked) (hphase : t.phase = .callback) : t.callbackReturns.Tracked := by
  have hsettled := h.settled hphase false t.errors
  have hstate : some t.machine.state = some t.options.enter := by
    have hstate := h.state
    rw [hphase] at hstate
    exact hstate
  rw [LifecycleTransaction.callbackReturns]
  dsimp only [LifecycleTransaction.record]
  split
  · rename_i hnone
    apply hsettled.finish
    · intro kind
      rw [hphase]
      cases kind <;> rfl
    · refine ⟨t.trace, false, [], rfl, ?_⟩
      rw [exitOf, ← h.commit, hnone]
      rfl
    · exact hstate
  · rename_i state hsome
    apply hsettled.runActions (not_ended_of_callback hphase) rfl
    · rw [hphase]
      rfl
    · intro kind hkind
      rw [hphase]
      cases kind <;> first | rfl | exact absurd rfl hkind
    · intro exit hexit
      cases hexit
      refine ⟨t.trace, false, [], rfl, ?_⟩
      rw [exitOf, ← h.commit, hsome]
      rfl
    · exact hstate

theorem Tracked.callbackThrows (h : t.Tracked) (hphase : t.phase = .callback) : t.callbackThrows.Tracked := by
  have hsettled := h.settled hphase true (t.errors ++ [.callback])
  apply hsettled.runActions (not_ended_of_callback hphase) rfl
  · rw [hphase]
    rfl
  · intro kind hkind
    rw [hphase]
    cases kind <;> first | rfl | exact absurd rfl hkind
  · intro exit hexit
    cases hexit
    exact ⟨t.trace, true, [], rfl, rfl⟩
  · have hstate := h.state
    rw [hphase] at hstate
    exact hstate

omit [DecidableEq S] in
theorem selectedCommit_append {options : LifecycleTransactionOptions S} {trace : List (TransactionRecord S)}
    (h : (selectedCommit options trace).isSome = true) (more : List (TransactionRecord S)) :
    (selectedCommit options (trace ++ more)).isSome = true := by
  rw [selectedCommit, isSome_or, Bool.or_eq_true] at h
  rw [selectedCommit, findSome?_append, isSome_or, isSome_or, Bool.or_eq_true, Bool.or_eq_true]
  rcases h with h | h
  · exact .inl (.inl h)
  · exact .inr h

theorem Tracked.commitState_isSome (h : t.Tracked) (hexit : t.phase.exit = some .succeeded) :
    ∃ state, t.commitState = some state := by
  obtain ⟨before, threw, after, htrace, hsucceeded⟩ := h.exit .succeeded hexit
  have hsome : (selectedCommit t.options before).isSome = true := by
    cases threw with
    | true => cases hsucceeded
    | false =>
      rw [exitOf, if_neg Bool.false_ne_true] at hsucceeded
      split at hsucceeded
      · assumption
      · cases hsucceeded
  apply isSome_iff_exists.mp
  rw [h.commit, htrace]
  exact selectedCommit_append hsome _

theorem Tracked.leaveWalk (h : t.Tracked) (hphase : t.phase = .walking walk 0 false) :
    (t.leaveWalk walk).Tracked := by
  have hend := not_ended_of_walking hphase
  have hstate := h.state
  have hexit := h.exit
  rw [hphase] at hstate hexit
  cases walk with
  | rollingBack =>
    apply h.runActions hend rfl
    · rw [hphase]
      rfl
    · intro kind hkind
      rw [hphase]
      cases kind <;> first | rfl | exact absurd rfl hkind
    · intro exit hex
      exact hexit exit hex
    · exact hstate
  | committed =>
    apply h.finish
    · intro kind
      rw [hphase]
      cases kind <;> rfl
    · exact hexit .succeeded rfl
    · exact hstate
  | cleaningUp failed =>
    cases failed with
    | true =>
      rw [LifecycleTransaction.leaveWalk]
      have hleft (kind : ActionKind) : (TransactionPhase.ended .failed).left kind = t.phase.left kind := by
        rw [hphase]
        cases kind <;> rfl
      split
      · rename_i hnone
        apply h.finish hleft (hexit .failed rfl)
        rw [endState, ← h.rollback, hnone]
        exact hstate
      · rename_i state hsome
        apply h.finish hleft (hexit .failed rfl)
        rw [endState, ← h.rollback, hsome]
        rfl
    | false =>
      obtain ⟨state, hcommit⟩ := h.commitState_isSome (by rw [hphase]; rfl)
      have hwalked := h.walked .afterCommit
      rw [hphase] at hwalked
      rw [LifecycleTransaction.leaveWalk, hcommit]
      apply @Tracked.runActions _ _ t h hend .committed { t.machine with state } rfl
      · rw [hphase]
        rfl
      · intro kind hkind
        rw [hphase]
        cases kind <;> first | rfl | exact absurd rfl hkind
      · intro exit hex
        exact hexit exit hex
      · change some state = selectedCommit t.options (beforeWalk .afterCommit (t.trace ++ [.began .afterCommit]))
        rw [beforeWalk_of_not_mem hwalked.1, ← h.commit, hcommit]

theorem Tracked.ran (h : t.Tracked) {left action : Nat}
    (hphase : t.phase = .walking walk (left + 1) false) (haction : (t.actions walk.kind)[left]? = some action) :
    ({ t with phase := .walking walk left true }.record (.ran walk.kind action)).Tracked := by
  have hend := not_ended_of_walking hphase
  have hactive := active_of_not_ended h hend
  apply h.goOn ⟨fun _ => rfl, rfl, rfl⟩
  · constructor
    · intro hnone
      exact absurd hnone hactive
    · intro hended
      cases hended
  · intro kind
    have hwalked := h.walked kind
    rw [hphase] at hwalked
    by_cases hkind : kind = walk.kind
    · subst hkind
      rw [left_self] at hwalked ⊢
      rw [h.actions] at haction
      exact hwalked.run haction
    · rw [left_other hkind left (left + 1) true false]
      apply hwalked.other
      · intro hr
        cases hr
      · exact if_neg (Ne.symm hkind)
  · intro exit hex
    apply exit_append
    apply h.exit exit
    rw [hphase, exit_walking walk (left + 1) left false true]
    exact hex
  · rw [state_walking walk left (left + 1) true false, ← hphase, state_append h hend]
    exact h.state

theorem Tracked.settles (h : t.Tracked) {walk : ActionWalk} {left : Nat} (hphase : t.phase = .walking walk left true)
    (errors : List (TransactionError S)) :
    ({ t with phase := .walking walk left false, errors } : LifecycleTransaction S).Tracked :=
  have hactive := active_of_not_ended h (not_ended_of_walking hphase)
  { h with
    active := by
      constructor
      · intro hnone
        exact absurd hnone hactive
      · intro hended
        cases hended
    walked := by
      intro kind
      have hwalked := h.walked kind
      rw [hphase] at hwalked
      by_cases hkind : kind = walk.kind
      · subst hkind
        rw [left_self] at hwalked ⊢
        exact hwalked
      · rw [left_other hkind left left false true]
        exact hwalked
    exit := by
      intro exit hex
      apply h.exit exit
      rw [hphase, exit_walking walk left left true false]
      exact hex
    state := by
      have hstate := h.state
      rw [hphase, state_walking walk left left true false] at hstate
      exact hstate }

omit [DecidableEq S] in
theorem busy_of_active {m : LifecycleMachine S} [DecidableEq S] (h : m.activeOperation ≠ none) : m.Busy := by
  obtain ⟨active, hactive⟩ := ne_none_iff_exists'.mp h
  constructor
  · intro options
    rw [LifecycleMachine.switch, LifecycleMachine.assertIdle, hactive]
    exact ⟨_, rfl⟩
  · intro options
    rw [LifecycleMachine.transaction, LifecycleMachine.assertIdle, hactive]
    exact ⟨_, rfl⟩

theorem Tracked.step (h : t.Tracked) {e : TransactionEvent S} (hstep : t.step e = some t') : t'.Tracked := by
  obtain ⟨hend, hstep⟩ := ite_none_left_eq_some.mp hstep
  have hend := eq_false_of_ne_true hend
  cases e with
  | register kind =>
    cases hstep
    exact h.register hend kind
  | commit state =>
    cases hstep
    exact h.commits hend state
  | rollbackTo state =>
    cases hstep
    exact h.rollsBackTo hend state
  | callbackReturns =>
    dsimp only at hstep
    split at hstep
    · rename_i hphase
      cases hstep
      exact h.callbackReturns hphase
    · cases hstep
  | callbackThrows =>
    dsimp only at hstep
    split at hstep
    · rename_i hphase
      cases hstep
      exact h.callbackThrows hphase
    · cases hstep
  | continues =>
    dsimp only at hstep
    split at hstep
    · rename_i walk left hphase
      cases left with
      | zero =>
        cases hstep
        exact h.leaveWalk hphase
      | succ left =>
        obtain ⟨action, haction, rfl⟩ := map_eq_some_iff.mp hstep
        exact h.ran hphase haction
    · cases hstep
  | settles throws =>
    dsimp only at hstep
    split at hstep
    · rename_i walk left hphase
      rw [LifecycleTransaction.settles] at hstep
      split at hstep
      · obtain ⟨action, -, rfl⟩ := map_eq_some_iff.mp hstep
        exact h.settles hphase _
      · cases hstep
        exact h.settles hphase _
    · cases hstep
  | switches options =>
    cases hstep
    obtain ⟨error, herror⟩ := (busy_of_active (active_of_not_ended h hend)).1 options
    rw [herror]
    exact h
  | transacts options =>
    cases hstep
    obtain ⟨error, herror⟩ := (busy_of_active (active_of_not_ended h hend)).2 options
    rw [herror]
    exact h

theorem Tracked.start {m : LifecycleMachine S} {options : LifecycleTransactionOptions S}
    (h : m.transaction options = .ok t) : t.Tracked ∧ t.options = options := by
  rw [LifecycleMachine.transaction] at h
  cases hidle : m.assertIdle options.operation with
  | error e =>
    rw [hidle] at h
    cases h
  | ok u =>
    cases hstate : m.assertState options.operation options.origin with
    | error e =>
      rw [hidle, hstate] at h
      cases h
    | ok u =>
      rw [hidle, hstate] at h
      cases h
      refine ⟨?_, rfl⟩
      exact
        { active := by constructor <;> intro hnone <;> cases hnone
          actions := fun kind => by cases kind <;> rfl
          fresh := fun _ _ haction => by cases haction
          nodup := fun _ => nodup_nil
          commit := rfl
          uncommitted := fun _ => rfl
          rollback := rfl
          unrolled := fun _ => rfl
          walked := by
            intro kind
            refine ⟨?_, rfl⟩
            intro hmem
            cases hmem
          exit := fun _ hexit => by cases hexit
          state := rfl }

def GoesOn (t : LifecycleTransaction S) : Prop :=
  ∃ e ∈ [TransactionEvent.callbackReturns, .continues, .settles false], (t.step e).isSome = true

theorem GoesOn.not_ended (h : t.GoesOn) : t.isEnded = false := by
  obtain ⟨e, -, he⟩ := h
  obtain ⟨u, hstep⟩ := isSome_iff_exists.mp he
  exact eq_false_of_ne_true (ite_none_left_eq_some.mp hstep).1

theorem Tracked.goesOn (h : t.Tracked) (hend : t.isEnded = false) : t.GoesOn := by
  cases hphase : t.phase with
  | ended exit =>
    rw [isEnded, hphase] at hend
    cases hend
  | callback =>
    refine ⟨.callbackReturns, mem_cons_self .., ?_⟩
    rw [LifecycleTransaction.step, hend, hphase]
    rfl
  | walking walk left running =>
    cases running with
    | true =>
      refine ⟨.settles false, by simp, ?_⟩
      rw [LifecycleTransaction.step, hend, hphase]
      rfl
    | false =>
      refine ⟨.continues, by simp, ?_⟩
      rw [LifecycleTransaction.step, hend, hphase]
      cases left with
      | zero => rfl
      | succ left =>
        have hwalked := h.walked walk.kind
        rw [hphase, left_self] at hwalked
        have hlt : left < (t.actions walk.kind).length := by
          obtain ⟨more, hmore⟩ := beforeWalk_prefix walk.kind t.trace
          rw [h.actions, ← hmore, registeredActions_append, length_append]
          exact Nat.lt_add_right _ hwalked.2.1
        simp [continues, getElem?_eq_getElem hlt]

theorem Tracked.settles_of_ended (h : t.Tracked) {exit : TransactionExit} (hphase : t.phase = .ended exit) :
    t.Settles exit := by
  have hran (kind : ActionKind) : ranActions kind t.trace =
      if exit.walks kind then (registeredActions kind (beforeWalk kind t.trace)).reverse else [] := by
    have hwalked := h.walked kind
    rw [hphase, TransactionPhase.left] at hwalked
    split at hwalked
    · rename_i hwalks
      rw [if_pos hwalks]
      exact hwalked.2.2
    · rename_i hwalks
      rw [if_neg hwalks]
      exact hwalked.2
  have hstate := h.state
  rw [hphase] at hstate
  refine ⟨h.active.mpr (by rw [isEnded, hphase]), h.exit exit (by rw [hphase]; rfl), hstate, hran, ?_⟩
  intro kind
  rw [hran]
  split
  · rw [nodup_reverse]
    obtain ⟨more, hmore⟩ := beforeWalk_prefix kind t.trace
    have hnodup := h.nodup kind
    rw [← hmore, registeredActions_append] at hnodup
    exact (nodup_append.mp hnodup).1
  · exact nodup_nil

section

omit [DecidableEq S]

theorem register_options (t : LifecycleTransaction S) (kind : ActionKind) : (t.register kind).options = t.options := by
  cases kind <;> rfl

theorem leaveWalk_options (t : LifecycleTransaction S) (walk : ActionWalk) :
    (t.leaveWalk walk).options = t.options := by
  cases walk with
  | cleaningUp failed =>
    cases failed with
    | true =>
      rw [leaveWalk]
      split <;> rfl
    | false =>
      rw [leaveWalk]
      cases t.commitState <;> rfl
  | _ => rfl

end

theorem step_options (hstep : t.step e = some t') : t'.options = t.options := by
  obtain ⟨-, hstep⟩ := ite_none_left_eq_some.mp hstep
  cases e with
  | register kind =>
    cases hstep
    exact register_options t kind
  | commit state =>
    cases hstep
    rw [commit]
    split <;> rfl
  | rollbackTo state =>
    cases hstep
    rw [rollbackTo]
    split <;> rfl
  | callbackReturns =>
    dsimp only at hstep
    split at hstep
    · cases hstep
      rw [callbackReturns]
      split <;> rfl
    · cases hstep
  | callbackThrows =>
    dsimp only at hstep
    split at hstep
    · cases hstep
      rfl
    · cases hstep
  | continues =>
    dsimp only at hstep
    split at hstep
    · rename_i walk left hphase
      cases left with
      | zero =>
        cases hstep
        exact leaveWalk_options t walk
      | succ left =>
        obtain ⟨action, -, rfl⟩ := map_eq_some_iff.mp hstep
        rfl
    · cases hstep
  | settles throws =>
    dsimp only at hstep
    split at hstep
    · rw [settles] at hstep
      split at hstep
      · obtain ⟨action, -, rfl⟩ := map_eq_some_iff.mp hstep
        rfl
      · cases hstep
        rfl
    · cases hstep
  | _ =>
    cases hstep
    rfl

def bootOptions : LifecycleTransactionOptions String :=
  { operation := "boot", origin := ["idle"], enter := "running", rollback := some "failed" }

end LifecycleTransaction

end Echadron.Base
