import Echadron.Base.LedgerRuns

namespace Echadron.Base
open Lib List Option

/-! A tree of ledgers: a ledger may be an entry of another one. -/

/-- `origin` is the ledger that has this one among its entries, and the entry. -/
structure LedgerNode where
  ledger : Ledger := {}
  origin : Option (Nat × Nat) := none
deriving DecidableEq

structure LedgerTree where
  nodes : List LedgerNode := [{}]
deriving DecidableEq

inductive LedgerTreeEvent where
  | createChild (ledger : Nat)
  | inLedger (ledger : Nat) (e : LedgerEvent)
deriving DecidableEq

namespace Ledger

def starts (s : Ledger) : LedgerEvent → Option Nat
  | .dispose entry => if entry ∈ s.active then some entry else none
  | .continues drain => s.drains[drain]?.bind fun d =>
    match d.index with
    | 0 => none
    | index + 1 => s.records[index]?.filter fun entry => entry ∈ s.active
  | _ => none

def isClosing (s : Ledger) : Bool := s.drains.any fun d => d.isTeardown ∧ d.status = .going

end Ledger

namespace LedgerTree

section

variable (t : LedgerTree)

def childOf (ledger entry : Nat) : Option Nat := t.nodes.findIdx? fun node => node.origin = some (ledger, entry)

def act (a : Nat × LedgerEvent) : Option LedgerTree :=
  t.nodes[a.1]?.bind fun node =>
    (node.ledger.step a.2).map fun ledger => { nodes := t.nodes.set a.1 { node with ledger } }

/-- The entry of a child is known to its parent alone, and it finishes with the child's teardown. -/
def allows (ledger : Nat) : LedgerEvent → Bool
  | .dispose entry | .release entry => (t.childOf ledger entry).isNone
  | .finishes entry =>
    ((t.childOf ledger entry).bind fun child => t.nodes[child]?).all fun child => !child.ledger.isClosing
  | _ => true

/-- A child that is torn down is detached from its parent; the disposer of a child's entry tears the child down. -/
def actions (ledger : Nat) (node : LedgerNode) : LedgerEvent → List (Nat × LedgerEvent)
  | .teardown =>
    match node.origin with
    | some (parent, entry) =>
      if node.ledger.isActive then [(parent, .release entry), (ledger, .teardown)] else [(ledger, .teardown)]
    | none => [(ledger, .teardown)]
  | e =>
    match (node.ledger.starts e).bind (t.childOf ledger) with
    | some child => [(ledger, e), (child, .teardown)]
    | none => [(ledger, e)]

def step : LedgerTreeEvent → Option LedgerTree
  | .createChild ledger =>
    t.nodes[ledger]?.bind fun node => (t.act (ledger, .register 0)).map fun t' =>
        if node.ledger.isActive then
          { nodes := t'.nodes ++ [{ origin := some (ledger, node.ledger.disposers.length) }] }
        else t'
  | .inLedger ledger e =>
    t.nodes[ledger]?.bind fun node =>
      if t.allows ledger e then (t.actions ledger node e).foldlM act t else none

def UndisturbedAction (a : Nat × LedgerEvent) : Prop := ∀ node ∈ t.nodes[a.1]?, node.ledger.Undisturbed a.2

end

instance (t : LedgerTree) (a : Nat × LedgerEvent) : Decidable (t.UndisturbedAction a) :=
  inferInstanceAs (Decidable (∀ node ∈ t.nodes[a.1]?, node.ledger.Undisturbed a.2))

def Undisturbed (t : LedgerTree) : LedgerTreeEvent → Prop
  | .createChild ledger => t.UndisturbedAction (ledger, .register 0)
  | .inLedger ledger e => ∀ node ∈ t.nodes[ledger]?, AlongRun act UndisturbedAction t (t.actions ledger node e)

instance (t : LedgerTree) (e : LedgerTreeEvent) : Decidable (t.Undisturbed e) :=
  match e with
  | .createChild ledger => inferInstanceAs (Decidable (t.UndisturbedAction (ledger, .register 0)))
  | .inLedger ledger e =>
    inferInstanceAs (Decidable (∀ node ∈ t.nodes[ledger]?, AlongRun act UndisturbedAction t (t.actions ledger node e)))

/-- Every ledger is tidy, and the entry of a child goes with the child: it is released when the child is torn down by
itself, and it has finished when the child is disposed. -/
structure Tidy (t : LedgerTree) : Prop where
  ledgers : ∀ node ∈ t.nodes, node.ledger.Tidy
  children : ∀ child ∈ t.nodes, ∀ ledger entry, child.origin = some (ledger, entry) →
    ∀ parent, t.nodes[ledger]? = some parent →
      (.released entry ∈ parent.ledger.trace → child.ledger.state ≠ .active) ∧
        (.finished entry ∈ parent.ledger.trace → child.ledger.state = .disposed)

end LedgerTree

/-! What a step of a ledger adds to its history. -/

namespace Ledger

variable {s s' : Ledger} {e : LedgerEvent}

def Tells (s : Ledger) (e : LedgerEvent) : LedgerRecord → Prop
  | .started _ entry => s.starts e = some entry
  | .released entry => e = .release entry ∧ entry ∈ s.active
  | .finished entry => e = .finishes entry ∧ entry ∈ s.running.map RunningEntry.entry
  | _ => True

theorem tells_turn (hd : s.drains[drain]? = some d) :
    ∃ added, (s.turn drain d).trace = s.trace ++ added ∧ ∀ r ∈ added, s.Tells (.continues drain) r := by
  rw [turn]
  split
  · exact ⟨[.drained drain], rfl, forall_mem_singleton.mpr trivial⟩
  · rename_i index hindex
    split
    · exact ⟨[.failed drain], rfl, forall_mem_singleton.mpr trivial⟩
    · rename_i entry hentry
      split
      · rename_i hactive
        refine ⟨[.started (some drain) entry], rfl, forall_mem_singleton.mpr ?_⟩
        simp [Tells, starts, hd, hindex, hentry, hactive]
      · exact ⟨[], (append_nil _).symm, forall_mem_nil _⟩

section

variable (hstep : s.step e = some s')
include hstep

theorem tells_of_step : ∃ added, s'.trace = s.trace ++ added ∧ ∀ r ∈ added, s.Tells e r := by
  cases e with
  | register disposers =>
    cases hstep
    rw [register]
    split
    · exact ⟨[_], rfl, forall_mem_singleton.mpr trivial⟩
    · exact ⟨[], (append_nil _).symm, forall_mem_nil _⟩
  | dispose entry =>
    cases hstep
    rw [dispose]
    split
    · rename_i hactive
      exact ⟨[.started none entry], rfl, forall_mem_singleton.mpr (if_pos hactive)⟩
    · exact ⟨[], (append_nil _).symm, forall_mem_nil _⟩
  | release entry =>
    cases hstep
    rw [release]
    split
    · rename_i hactive
      exact ⟨[.released entry], rfl, forall_mem_singleton.mpr ⟨rfl, hactive⟩⟩
    · exact ⟨[], (append_nil _).symm, forall_mem_nil _⟩
  | clear =>
    cases hstep
    rw [clear]
    split
    · exact ⟨[_], rfl, forall_mem_singleton.mpr trivial⟩
    · exact ⟨[], (append_nil _).symm, forall_mem_nil _⟩
  | teardown =>
    cases hstep
    rw [teardown]
    split
    · exact ⟨[_], rfl, forall_mem_singleton.mpr trivial⟩
    · exact ⟨[], (append_nil _).symm, forall_mem_nil _⟩
  | continues drain =>
    obtain ⟨d, hd, hturn⟩ := bind_eq_some_iff.mp hstep
    obtain ⟨-, hs⟩ := ite_none_right_eq_some.mp hturn
    cases hs
    exact tells_turn hd
  | calls entry =>
    obtain ⟨r, -, hcall⟩ := bind_eq_some_iff.mp hstep
    rw [callDisposer] at hcall
    split at hcall
    · cases hcall
      exact ⟨[_], rfl, forall_mem_singleton.mpr trivial⟩
    · cases hcall
  | settles entry =>
    obtain ⟨r, -, hsettles⟩ := bind_eq_some_iff.mp hstep
    obtain ⟨-, hs⟩ := ite_none_right_eq_some.mp hsettles
    cases hs
    exact ⟨[], (append_nil _).symm, forall_mem_nil _⟩
  | finishes entry =>
    obtain ⟨r, hr, hfinishes⟩ := bind_eq_some_iff.mp hstep
    obtain ⟨-, hs⟩ := ite_none_right_eq_some.mp hfinishes
    cases hs
    obtain ⟨hmem, rfl⟩ := findRunning_some hr
    exact ⟨[_], rfl, forall_mem_singleton.mpr ⟨rfl, mem_map_of_mem hmem⟩⟩

theorem started_of_step (hentry : entry ∈ startedEntries s'.trace) :
    entry ∈ startedEntries s.trace ∨ s.starts e = some entry := by
  obtain ⟨added, htrace, htells⟩ := tells_of_step hstep
  rw [htrace, startedEntries_append] at hentry
  rcases mem_append.mp hentry with hold | hnew
  · exact .inl hold
  · obtain ⟨r, hr, hstarted⟩ := mem_filterMap.mp hnew
    have htold := htells r hr
    cases r with
    | started starter other =>
      cases hstarted
      exact .inr htold
    | _ => cases hstarted

theorem released_of_step (hentry : .released entry ∈ s'.trace) :
    .released entry ∈ s.trace ∨ e = .release entry ∧ entry ∈ s.active := by
  obtain ⟨added, htrace, htells⟩ := tells_of_step hstep
  rw [htrace] at hentry
  rcases mem_append.mp hentry with hold | hnew
  · exact .inl hold
  · exact .inr (htells _ hnew)

theorem finished_of_step (hentry : .finished entry ∈ s'.trace) :
    .finished entry ∈ s.trace ∨ e = .finishes entry ∧ entry ∈ s.running.map RunningEntry.entry := by
  obtain ⟨added, htrace, htells⟩ := tells_of_step hstep
  rw [htrace] at hentry
  rcases mem_append.mp hentry with hold | hnew
  · exact .inl hold
  · exact .inr (htells _ hnew)

end

/-- A ledger's state only goes on, and entries only come to it. -/
structure Onward (s s' : Ledger) : Prop where
  inactive : s.state ≠ .active → s'.state ≠ .active
  disposed : s.state = .disposed → s'.state = .disposed
  disposers : s.disposers.length ≤ s'.disposers.length

theorem Onward.of_same (hstate : s'.state = s.state) (hdisposers : s'.disposers = s.disposers) : Onward s s' where
  inactive h := hstate ▸ h
  disposed h := hstate.trans h
  disposers := Nat.le_of_eq (congrArg length hdisposers.symm)

theorem onward_finishDrain (s : Ledger) (drain : Nat) (d : LedgerDrain) : Onward s (s.finishDrain drain d) where
  inactive h := by
    change (if d.isTeardown then LedgerState.disposed else s.state) ≠ .active
    split
    · exact LedgerState.noConfusion
    · exact h
  disposed h := by
    change (if d.isTeardown then LedgerState.disposed else s.state) = .disposed
    split
    · rfl
    · exact h
  disposers := Nat.le_refl _

theorem onward_turn (s : Ledger) (drain : Nat) (d : LedgerDrain) : Onward s (s.turn drain d) := by
  rw [turn]
  split
  · exact onward_finishDrain s drain d
  · split
    · exact .of_same rfl rfl
    · split <;> exact .of_same rfl rfl

theorem onward_teardown (s : Ledger) : Onward s s.teardown := by
  rw [teardown]
  split
  · rename_i hactive
    have hactive : s.state = .active := of_decide_eq_true hactive
    exact
      { inactive := absurd hactive
        disposed := fun h => by cases hactive.symm.trans h
        disposers := Nat.le_refl _ }
  · exact .of_same rfl rfl

theorem onward_of_step (hstep : s.step e = some s') : Onward s s' := by
  cases e with
  | register disposers =>
    cases hstep
    rw [register]
    split
    · refine ⟨id, id, ?_⟩
      change _ ≤ (s.disposers ++ [_]).length
      rw [length_append]
      exact Nat.le_add_right _ _
    · exact .of_same rfl rfl
  | dispose entry =>
    cases hstep
    rw [dispose]
    split <;> exact .of_same rfl rfl
  | release entry =>
    cases hstep
    rw [release]
    split <;> exact .of_same rfl rfl
  | clear =>
    cases hstep
    rw [clear]
    split <;> exact .of_same rfl rfl
  | teardown =>
    cases hstep
    exact onward_teardown s
  | continues drain =>
    obtain ⟨d, -, hturn⟩ := bind_eq_some_iff.mp hstep
    obtain ⟨-, hs⟩ := ite_none_right_eq_some.mp hturn
    cases hs
    exact onward_turn s drain d
  | calls entry =>
    obtain ⟨r, -, hcall⟩ := bind_eq_some_iff.mp hstep
    rw [callDisposer] at hcall
    split at hcall
    · cases hcall
      exact .of_same rfl rfl
    · cases hcall
  | settles entry =>
    obtain ⟨r, -, hsettles⟩ := bind_eq_some_iff.mp hstep
    obtain ⟨-, hs⟩ := ite_none_right_eq_some.mp hsettles
    cases hs
    exact .of_same rfl rfl
  | finishes entry =>
    obtain ⟨r, -, hfinishes⟩ := bind_eq_some_iff.mp hstep
    obtain ⟨-, hs⟩ := ite_none_right_eq_some.mp hfinishes
    cases hs
    exact .of_same rfl rfl

theorem teardown_inactive (s : Ledger) : s.teardown.state ≠ .active := by
  rw [teardown]
  split
  · exact LedgerState.noConfusion
  · rename_i hactive
    exact fun hstate => hactive (decide_eq_true hstate)

structure Kept (s : Ledger) : Prop where
  sound : s.Sound
  closing : s.Closing
  known : ∀ entry, .released entry ∈ s.trace ∨ .finished entry ∈ s.trace → entry < s.disposers.length

theorem Kept.step (h : s.Kept) (hcalm : s.Undisturbed e) (hstep : s.step e = some s') : s'.Kept where
  sound := h.sound.step hcalm hstep
  closing := h.sound.closing_step h.closing hstep
  known := by
    intro entry hentry
    apply Nat.lt_of_lt_of_le _ (onward_of_step hstep).disposers
    rcases hentry with hreleased | hfinished
    · rcases released_of_step hstep hreleased with hold | ⟨-, hactive⟩
      · exact h.known entry (.inl hold)
      · exact h.sound.bounded entry (h.sound.active_mem entry hactive)
    · rcases finished_of_step hstep hfinished with hold | ⟨-, hruns⟩
      · exact h.known entry (.inr hold)
      · obtain ⟨r, hr, rfl⟩ := mem_map.mp hruns
        exact (h.sound.started _ (h.sound.runs_started r hr).1).2

theorem Kept.start : ({} : Ledger).Kept where
  sound := .start
  closing := by
    intro hdisposing
    cases hdisposing
  known := by simp

end Ledger

namespace LedgerTree

/-- How the entry of a child goes with the child; for one child, `spared`, the teardown may be yet to come. -/
structure Follows (spared : Prop) (parent : Ledger) (entry : Nat) (child : Ledger) : Prop where
  known : entry < parent.disposers.length
  torn : ¬ spared → entry ∈ startedEntries parent.trace ∨ .released entry ∈ parent.trace → child.state ≠ .active
  done : .finished entry ∈ parent.trace → child.state = .disposed

/-- A tree between two actions. -/
structure Grown (t : LedgerTree) (spared : Option Nat) : Prop where
  kept : ∀ node ∈ t.nodes, node.ledger.Kept
  follows : ∀ (c : Nat) child, t.nodes[c]? = some child → ∀ ledger entry, child.origin = some (ledger, entry) →
    ledger < c ∧ ∃ parent, t.nodes[ledger]? = some parent ∧ Follows (spared = some c) parent.ledger entry child.ledger
  unique : ∀ (c c' : Nat) child child' origin, t.nodes[c]? = some child → t.nodes[c']? = some child' →
    child.origin = some origin → child'.origin = some origin → c = c'

variable {t t' : LedgerTree}

theorem act_some (h : t.act (ledger, e) = some t') :
    ∃ node after, t.nodes[ledger]? = some node ∧ node.ledger.step e = some after ∧
      t' = { nodes := t.nodes.set ledger { node with ledger := after } } := by
  obtain ⟨node, hnode, hmap⟩ := bind_eq_some_iff.mp h
  obtain ⟨after, hafter, rfl⟩ := map_eq_some_iff.mp hmap
  exact ⟨node, after, hnode, hafter, rfl⟩

theorem getElem?_act {after : Ledger} (hnode : t.nodes[ledger]? = some node)
    (h : (t.nodes.set ledger { node with ledger := after })[c]? = some child) :
    (c = ledger ∧ child = { node with ledger := after }) ∨ (c ≠ ledger ∧ t.nodes[c]? = some child) := by
  have hlt := getElem?_lt hnode
  by_cases hc : c = ledger
  · subst hc
    rw [getElem?_set_self hlt] at h
    exact .inl ⟨rfl, (some.inj h).symm⟩
  · rw [getElem?_set_ne (Ne.symm hc)] at h
    exact .inr ⟨hc, h⟩

theorem origin_act {after : Ledger} (hnode : t.nodes[ledger]? = some node)
    {c : Nat} (h : (t.nodes.set ledger { node with ledger := after })[c]? = some child) :
    ∃ before, t.nodes[c]? = some before ∧ before.origin = child.origin := by
  rcases getElem?_act hnode h with ⟨rfl, rfl⟩ | ⟨-, hchild⟩
  · exact ⟨node, hnode, rfl⟩
  · exact ⟨child, hchild, rfl⟩

theorem Follows.of_child {parent child after : Ledger}
    (h : Follows spared parent entry child) (hstep : child.step e = some after)
    (hspared : ¬ spared' → ¬ spared ∨ e = .teardown) : Follows spared' parent entry after := by
  have honward := Ledger.onward_of_step hstep
  refine ⟨h.known, ?_, fun hdone => honward.disposed (h.done hdone)⟩
  intro hnot hgone
  rcases hspared hnot with hold | rfl
  · exact honward.inactive (h.torn hold hgone)
  · cases hstep
    exact Ledger.teardown_inactive child

theorem Follows.of_parent {parent child after : Ledger}
    (h : Follows spared parent entry child) (hsound : parent.Sound) (hclosing : child.Closing)
    (hstep : parent.step e = some after) (hspared : ¬ spared' → ¬ spared)
    (hleaves : parent.starts e = some entry ∨ e = .release entry → spared')
    (hfinishes : e = .finishes entry → ¬ spared ∧ child.isClosing = false) : Follows spared' after entry child := by
  have honward := Ledger.onward_of_step hstep
  refine ⟨Nat.lt_of_lt_of_le h.known honward.disposers, ?_, ?_⟩
  · rintro hnot (hstarted | hreleased)
    · rcases Ledger.started_of_step hstep hstarted with hold | hnew
      · exact h.torn (hspared hnot) (.inl hold)
      · exact absurd (hleaves (.inl hnew)) hnot
    · rcases Ledger.released_of_step hstep hreleased with hold | ⟨hnew, -⟩
      · exact h.torn (hspared hnot) (.inr hold)
      · exact absurd (hleaves (.inr hnew)) hnot
  · intro hdone
    rcases Ledger.finished_of_step hstep hdone with hold | ⟨hnew, hruns⟩
    · exact h.done hold
    · -- the entry runs, so that the child has been torn down, and no drain of that teardown is in progress
      obtain ⟨hnot, hidle⟩ := hfinishes hnew
      obtain ⟨r, hr, rfl⟩ := mem_map.mp hruns
      have hinactive := h.torn hnot (.inl (hsound.runs_started r hr).1)
      cases hstate : child.state with
      | active => exact absurd hstate hinactive
      | disposing =>
        obtain ⟨d, hd, hteardown, hgoing⟩ := hclosing hstate
        have hnone := any_eq_false.mp hidle d hd
        exact absurd (decide_eq_true ⟨hteardown, hgoing⟩) hnone
      | disposed => rfl

theorem Grown.act (h : t.Grown spared) (hcalm : t.UndisturbedAction (ledger, e)) (hact : t.act (ledger, e) = some t')
    (hspared : ∀ c, spared = some c → spared' = some c ∨ c = ledger ∧ e = .teardown)
    (hleaves : ∀ (c : Nat) child entry node, t.nodes[c]? = some child → child.origin = some (ledger, entry) →
      t.nodes[ledger]? = some node → node.ledger.starts e = some entry ∨ e = .release entry → spared' = some c)
    (hfinishes : ∀ (c : Nat) child entry, t.nodes[c]? = some child → child.origin = some (ledger, entry) →
      e = .finishes entry → spared = none ∧ child.ledger.isClosing = false) : t'.Grown spared' := by
  obtain ⟨node, after, hnode, hstep, rfl⟩ := act_some hact
  have hkept := h.kept node (mem_of_getElem? hnode)
  refine ⟨?_, ?_, ?_⟩
  · intro other hother
    obtain ⟨c, hc⟩ := mem_iff_getElem?.mp hother
    rcases getElem?_act hnode hc with ⟨-, rfl⟩ | ⟨-, hsame⟩
    · exact hkept.step (hcalm node hnode) hstep
    · exact h.kept other (mem_of_getElem? hsame)
  · intro c child hchild parentId entry horigin
    rcases getElem?_act hnode hchild with ⟨rfl, rfl⟩ | ⟨hc, hsame⟩
    · -- the ledger that acts is the child
      obtain ⟨hlt, parent, hparent, hfollows⟩ := h.follows c node hnode parentId entry horigin
      refine ⟨hlt, parent, ?_, ?_⟩
      · exact (getElem?_set_ne (Nat.ne_of_gt hlt)).trans hparent
      · apply hfollows.of_child hstep
        intro hnot
        by_cases hold : spared = some c
        · rcases hspared c hold with hnew | ⟨-, hteardown⟩
          · exact absurd hnew hnot
          · exact .inr hteardown
        · exact .inl hold
    · obtain ⟨hlt, parent, hparent, hfollows⟩ := h.follows c child hsame parentId entry horigin
      have hstill : ¬ spared' = some c → ¬ spared = some c := by
        intro hnot hold
        rcases hspared c hold with hnew | ⟨hacts, -⟩
        · exact hnot hnew
        · exact hc hacts
      by_cases hacts : parentId = ledger
      · -- the ledger that acts is the parent
        subst hacts
        obtain rfl := mem_unique hnode hparent
        have hin := getElem?_lt hnode
        refine ⟨hlt, _, getElem?_set_self hin, ?_⟩
        apply hfollows.of_parent hkept.sound (h.kept child (mem_of_getElem? hsame)).closing hstep hstill
        · exact hleaves c child entry node hsame horigin hnode
        · intro hends
          obtain ⟨hnone, hidle⟩ := hfinishes c child entry hsame horigin hends
          refine ⟨?_, hidle⟩
          rw [hnone]
          exact fun hsome => by cases hsome
      · refine ⟨hlt, parent, (getElem?_set_ne (Ne.symm hacts)).trans hparent, ?_⟩
        exact { hfollows with torn := fun hnot => hfollows.torn (hstill hnot) }
  · intro c c' child child' origin hchild hchild' horigin horigin'
    obtain ⟨before, hbefore, hsame⟩ := origin_act hnode hchild
    obtain ⟨before', hbefore', hsame'⟩ := origin_act hnode hchild'
    exact h.unique c c' before before' origin hbefore hbefore' (hsame.trans horigin) (hsame'.trans horigin')

theorem childOf_some (h : t.childOf ledger entry = some c) :
    ∃ child, t.nodes[c]? = some child ∧ child.origin = some (ledger, entry) := by
  obtain ⟨hlt, horigin, -⟩ := findIdx?_eq_some_iff_getElem.mp h
  exact ⟨t.nodes[c], getElem?_eq_getElem hlt, of_decide_eq_true horigin⟩

theorem childOf_none {ledger entry c : Nat} (h : t.childOf ledger entry = none)
    (hchild : t.nodes[c]? = some child) : child.origin ≠ some (ledger, entry) := by
  intro horigin
  have hnone := findIdx?_eq_none_iff.mp h child (mem_of_getElem? hchild)
  exact absurd horigin (of_decide_eq_false hnone)

theorem Grown.childOf_eq {spared : Option Nat} (h : t.Grown spared)
    (hchild : t.nodes[c]? = some child) (horigin : child.origin = some (ledger, entry)) :
    t.childOf ledger entry = some c := by
  cases hfound : t.childOf ledger entry with
  | none => exact absurd horigin (childOf_none hfound hchild)
  | some c' =>
    obtain ⟨child', hchild', horigin'⟩ := childOf_some hfound
    exact congrArg some (h.unique c' c child' child _ hchild' hchild horigin' horigin)

/-- A child is torn down, and no teardown is yet to come. -/
theorem Grown.teardown (h : t.Grown spared)
    (hcalm : t.UndisturbedAction (c, .teardown)) (hact : t.act (c, .teardown) = some t')
    (hspared : ∀ c', spared = some c' → c' = c) : t'.Grown none := by
  apply h.act hcalm hact
  · intro c' hc'
    exact .inr ⟨hspared c' hc', rfl⟩
  · rintro c' child entry node - - - (hstarts | hrelease)
    · cases hstarts
    · cases hrelease
  · intro c' child entry _ _ hfinishes
    cases hfinishes

theorem pair_of_run (hcalm : AlongRun LedgerTree.act UndisturbedAction t [a, b])
    (hrun : [a, b].foldlM act t = some t') :
    ∃ mid, t.UndisturbedAction a ∧ t.act a = some mid ∧ mid.UndisturbedAction b ∧ mid.act b = some t' := by
  obtain ⟨mid, hmid, hrun⟩ := bind_eq_some_iff.mp hrun
  obtain ⟨last, hlast, hrun⟩ := bind_eq_some_iff.mp hrun
  cases hrun
  exact ⟨mid, hcalm.1, hmid, (hcalm.2 mid hmid).1, hlast⟩

theorem single_of_run (hcalm : AlongRun LedgerTree.act UndisturbedAction t [a])
    (hrun : [a].foldlM act t = some t') : t.UndisturbedAction a ∧ t.act a = some t' := by
  obtain ⟨mid, hmid, hrun⟩ := bind_eq_some_iff.mp hrun
  cases hrun
  exact ⟨hcalm.1, hmid⟩

theorem Grown.teardownEvent (h : t.Grown none) (hnode : t.nodes[ledger]? = some node)
    (hcalm : AlongRun LedgerTree.act UndisturbedAction t (t.actions ledger node .teardown))
    (hrun : (t.actions ledger node .teardown).foldlM LedgerTree.act t = some t') : t'.Grown none := by
  have hnone (c : Nat) (hc : (none : Option Nat) = some c) : c = ledger := by cases hc
  rw [actions] at hcalm hrun
  split at hcalm
  · rename_i parent entry horigin
    rw [horigin] at hrun
    dsimp only at hrun
    split at hcalm
    · rename_i hactive
      rw [if_pos hactive] at hrun
      obtain ⟨mid, hfirst, hmid, hsecond, hlast⟩ := pair_of_run hcalm hrun
      have hgrown : mid.Grown (some ledger) := by
        apply h.act hfirst hmid
        · intro c hc
          cases hc
        · rintro c child entry' parentNode hchild hchildOrigin - (hstarts | hrelease)
          · cases hstarts
          · obtain rfl := LedgerEvent.release.inj hrelease
            exact congrArg some (h.unique ledger c node child _ hnode hchild horigin hchildOrigin)
        · intro c child entry' _ _ hfinishes
          cases hfinishes
      exact hgrown.teardown hsecond hlast fun c hc => (some.inj hc).symm
    · rename_i hinactive
      rw [if_neg hinactive] at hrun
      obtain ⟨hfirst, hmid⟩ := single_of_run hcalm hrun
      exact h.teardown hfirst hmid hnone
  · rename_i horigin
    rw [horigin] at hrun
    obtain ⟨hfirst, hmid⟩ := single_of_run hcalm hrun
    exact h.teardown hfirst hmid hnone

theorem Grown.finishes_allowed (h : t.Grown spared) (hallows : t.allows ledger (.finishes entry) = true) {c : Nat}
    (hchild : t.nodes[c]? = some child) (horigin : child.origin = some (ledger, entry)) :
    child.ledger.isClosing = false := by
  rw [allows, h.childOf_eq hchild horigin, bind_some, hchild] at hallows
  exact (Bool.not_eq_true' _).mp hallows

/-- An event that tears no ledger down by itself; the entry that it starts may be a child. -/
theorem Grown.event (h : t.Grown none) (hnode : t.nodes[ledger]? = some node)
    {e : LedgerEvent} (hallows : t.allows ledger e = true)
    (hrest : (node.ledger.starts e).bind (t.childOf ledger) = none ∧ rest = [] ∨
      ∃ c, (node.ledger.starts e).bind (t.childOf ledger) = some c ∧ rest = [(c, .teardown)])
    (hcalm : AlongRun LedgerTree.act UndisturbedAction t ((ledger, e) :: rest))
    (hrun : ((ledger, e) :: rest).foldlM LedgerTree.act t = some t') : t'.Grown none := by
  have hact {spared' : Option Nat} {mid : LedgerTree} (hfirst : t.UndisturbedAction (ledger, e))
      (hmid : t.act (ledger, e) = some mid)
      (hstarts : (node.ledger.starts e).bind (t.childOf ledger) = spared') : mid.Grown spared' := by
    apply h.act hfirst hmid
    · intro c hc
      cases hc
    · rintro c child entry node' hchild horigin hnode' (hstarted | rfl)
      · obtain rfl := mem_unique hnode hnode'
        rw [← hstarts, hstarted]
        exact h.childOf_eq hchild horigin
      · rw [allows, h.childOf_eq hchild horigin] at hallows
        cases hallows
    · rintro c child entry hchild horigin rfl
      exact ⟨rfl, h.finishes_allowed hallows hchild horigin⟩
  rcases hrest with ⟨hnone, rfl⟩ | ⟨c, hsome, rfl⟩
  · obtain ⟨hfirst, hmid⟩ := single_of_run hcalm hrun
    exact hact hfirst hmid hnone
  · obtain ⟨mid, hfirst, hmid, hsecond, hlast⟩ := pair_of_run hcalm hrun
    exact (hact hfirst hmid hsome).teardown hsecond hlast fun c' hc' => (some.inj hc').symm

theorem actions_event {ledger : Nat} {node : LedgerNode} {e : LedgerEvent} (he : e ≠ .teardown) :
    ∃ rest, t.actions ledger node e = (ledger, e) :: rest ∧
      ((node.ledger.starts e).bind (t.childOf ledger) = none ∧ rest = [] ∨
        ∃ c, (node.ledger.starts e).bind (t.childOf ledger) = some c ∧ rest = [(c, .teardown)]) := by
  rw [actions]
  · cases hchild : (node.ledger.starts e).bind (t.childOf ledger) with
    | none => exact ⟨[], rfl, .inl ⟨rfl, rfl⟩⟩
    | some c => exact ⟨[(c, .teardown)], rfl, .inr ⟨c, rfl, rfl⟩⟩
  · exact he

/-- A new child for an entry that no other child has and nothing has happened to. -/
theorem Grown.append (h : t.Grown none)
    (hparent : t.nodes[ledger]? = some parent) (hknown : entry < parent.ledger.disposers.length)
    (hstarted : entry ∉ startedEntries parent.ledger.trace) (hreleased : .released entry ∉ parent.ledger.trace)
    (hfinished : .finished entry ∉ parent.ledger.trace)
    (hfree : ∀ (c : Nat) child, t.nodes[c]? = some child → child.origin ≠ some (ledger, entry)) :
    ({ nodes := t.nodes ++ [{ origin := some (ledger, entry) }] } : LedgerTree).Grown none := by
  have hlt := getElem?_lt hparent
  have hnodes {c : Nat} {child : LedgerNode}
      (hc : (t.nodes ++ [{ origin := some (ledger, entry) }])[c]? = some child) :
      t.nodes[c]? = some child ∨ c = t.nodes.length ∧ child = { origin := some (ledger, entry) } := by
    rcases Nat.lt_or_ge c t.nodes.length with hc' | hc'
    · rw [getElem?_append_left hc'] at hc
      exact .inl hc
    · rw [getElem?_append_right hc'] at hc
      rw [getElem?_singleton] at hc
      obtain ⟨hzero, hsame⟩ := ite_none_right_eq_some.mp hc
      cases hsame
      exact .inr ⟨by omega, rfl⟩
  refine ⟨?_, ?_, ?_⟩
  · intro node hnode
    rcases mem_snoc.mp hnode with hold | rfl
    · exact h.kept node hold
    · exact Ledger.Kept.start
  · intro c child hchild parentId entry' horigin
    rcases hnodes hchild with hold | ⟨rfl, rfl⟩
    · obtain ⟨hbefore, parent', hparent', hfollows⟩ := h.follows c child hold parentId entry' horigin
      have hin := getElem?_lt hparent'
      exact ⟨hbefore, parent', (getElem?_append_left hin).trans hparent', hfollows⟩
    · obtain ⟨rfl, rfl⟩ := Prod.mk.inj (some.inj horigin)
      refine ⟨hlt, parent, (getElem?_append_left hlt).trans hparent, hknown, ?_, ?_⟩
      · rintro - (hgone | hgone)
        · exact absurd hgone hstarted
        · exact absurd hgone hreleased
      · exact fun hdone => absurd hdone hfinished
  · intro c c' child child' origin hchild hchild' horigin horigin'
    rcases hnodes hchild with hold | ⟨rfl, rfl⟩ <;> rcases hnodes hchild' with hold' | ⟨rfl, rfl⟩
    · exact h.unique c c' child child' origin hold hold' horigin horigin'
    · exact absurd (horigin.trans horigin'.symm) (hfree c child hold)
    · exact absurd (horigin'.trans horigin.symm) (hfree c' child' hold')
    · rfl

theorem Grown.createChild (h : t.Grown none) (hnode : t.nodes[ledger]? = some node)
    (hactive : node.ledger.isActive = true) (hcalm : t.UndisturbedAction (ledger, .register 0))
    (hmid : t.act (ledger, .register 0) = some mid) :
    ({ nodes := mid.nodes ++ [{ origin := some (ledger, node.ledger.disposers.length) }] } : LedgerTree).Grown
      none := by
  have hgrown : mid.Grown none := by
    apply h.act hcalm hmid
    · intro c hc
      cases hc
    · rintro c child entry node' - - - (hstarts | hrelease)
      · cases hstarts
      · cases hrelease
    · intro c child entry _ _ hfinishes
      cases hfinishes
  obtain ⟨node', after, hnode', hstep, rfl⟩ := act_some hmid
  obtain rfl := mem_unique hnode hnode'
  obtain rfl := some.inj hstep
  have hkept := h.kept node (mem_of_getElem? hnode)
  have hin := getElem?_lt hnode
  have hgone {r : LedgerRecord} (hr : r ∈ (node.ledger.register 0).trace) :
      r ∈ node.ledger.trace ∨ r = .registered node.ledger.disposers.length 0 := by
    rw [Ledger.register, if_pos hactive] at hr
    rcases mem_snoc.mp hr with hold | hnew
    · exact .inl hold
    · exact .inr hnew
  apply hgrown.append (getElem?_set_self hin)
  · rw [Ledger.register, if_pos hactive]
    change _ < (node.ledger.disposers ++ [0]).length
    rw [length_append]
    exact Nat.lt_succ_self _
  · intro hstarted
    rcases Ledger.started_of_step hstep hstarted with hold | hnew
    · exact Nat.lt_irrefl _ (hkept.sound.started _ hold).2
    · cases hnew
  · intro hreleased
    rcases hgone hreleased with hold | hnew
    · exact Nat.lt_irrefl _ (hkept.known _ (.inl hold))
    · cases hnew
  · intro hfinished
    rcases hgone hfinished with hold | hnew
    · exact Nat.lt_irrefl _ (hkept.known _ (.inr hold))
    · cases hnew
  · intro c child hchild horigin
    obtain ⟨before, hbefore, hsame⟩ := origin_act hnode hchild
    obtain ⟨-, parent, hparent, hfollows⟩ := h.follows c before hbefore _ _ (hsame.trans horigin)
    obtain rfl := mem_unique hnode hparent
    exact Nat.lt_irrefl _ hfollows.known

theorem Grown.step (h : t.Grown none) (hcalm : t.Undisturbed e) (hstep : t.step e = some t') : t'.Grown none := by
  cases e with
  | createChild ledger =>
    obtain ⟨node, hnode, hmap⟩ := bind_eq_some_iff.mp hstep
    obtain ⟨mid, hmid, rfl⟩ := map_eq_some_iff.mp hmap
    split
    · rename_i hactive
      exact h.createChild hnode hactive hcalm hmid
    · apply h.act hcalm hmid
      · intro c hc
        cases hc
      · rintro c child entry node' - - - (hstarts | hrelease)
        · cases hstarts
        · cases hrelease
      · intro c child entry _ _ hfinishes
        cases hfinishes
  | inLedger ledger e =>
    obtain ⟨node, hnode, hif⟩ := bind_eq_some_iff.mp hstep
    obtain ⟨hallows, hrun⟩ := ite_none_right_eq_some.mp hif
    have hcalm := hcalm node hnode
    by_cases he : e = .teardown
    · subst he
      exact h.teardownEvent hnode hcalm hrun
    · obtain ⟨rest, hactions, hrest⟩ := @actions_event t ledger node e he
      rw [hactions] at hcalm hrun
      exact h.event hnode hallows hrest hcalm hrun

theorem Grown.start : ({} : LedgerTree).Grown none where
  kept := forall_mem_singleton.mpr .start
  follows := by
    intro c child hchild ledger entry horigin
    obtain rfl := mem_singleton.mp (mem_of_getElem? hchild)
    cases horigin
  unique := by
    intro c c' child child' origin hchild _ horigin
    obtain rfl := mem_singleton.mp (mem_of_getElem? hchild)
    cases horigin

theorem Grown.tidy (h : t.Grown none) : t.Tidy where
  ledgers := fun node hnode => (h.kept node hnode).sound.tidy
  children := by
    intro child hchild ledger entry horigin parent hparent
    obtain ⟨c, hc⟩ := mem_iff_getElem?.mp hchild
    obtain ⟨-, parent', hparent', hfollows⟩ := h.follows c child hc ledger entry horigin
    obtain rfl := mem_unique hparent hparent'
    exact ⟨fun hreleased => hfollows.torn (fun hnone => by cases hnone) (.inr hreleased), hfollows.done⟩

/-- A run in which no ledger is disturbed while it drains. -/
theorem tidy_of_run {events : List LedgerTreeEvent} (hcalm : AlongRun step Undisturbed {} events)
    (hrun : events.foldlM step {} = some t) : t.Tidy := by
  have hgrown : t.Grown none :=
    hcalm.invariant (I := fun t => t.Grown none) (fun _ _ _ h hcalm hstep => h.step hcalm hstep) .start hrun
  exact hgrown.tidy

def closesAll : List LedgerTreeEvent :=
  [.inLedger 0 (.register 1), .createChild 0, .inLedger 1 (.register 1), .inLedger 0 .teardown,
    .inLedger 0 (.continues 0), .inLedger 1 (.continues 0), .inLedger 1 (.calls 0), .inLedger 1 (.settles 0),
    .inLedger 1 (.finishes 0), .inLedger 1 (.continues 0), .inLedger 0 (.finishes 1), .inLedger 0 (.continues 0),
    .inLedger 0 (.calls 0), .inLedger 0 (.settles 0), .inLedger 0 (.finishes 0), .inLedger 0 (.continues 0)]

theorem closesAll_tidy : ∃ t, closesAll.foldlM step {} = some t ∧
    (t.nodes.map fun node => node.ledger.state) = [.disposed, .disposed] ∧ t.Tidy :=
  ⟨_, rfl, by decide +kernel, @tidy_of_run _ closesAll (by decide +kernel) rfl⟩

/-- While a `clear` waits for a disposer another entry is registered, and the array is emptied of it. -/
def registersMeanwhile : List LedgerTreeEvent :=
  [.inLedger 0 (.register 1), .inLedger 0 .clear, .inLedger 0 (.continues 0), .inLedger 0 (.calls 0),
    .inLedger 0 (.register 1), .inLedger 0 (.settles 0), .inLedger 0 (.finishes 0), .inLedger 0 (.continues 0)]

theorem lateEntry_vanishes : ∃ t, registersMeanwhile.foldlM step {} = some t ∧ ¬ t.Tidy := by
  refine ⟨_, rfl, ?_⟩
  intro htidy
  have hkept := (htidy.ledgers _ (mem_singleton_self _)).kept 1 1 (by decide +kernel)
  revert hkept
  decide +kernel

-- the last of three disposers disposes of the two others: the drain reads past the end of the array and fails
example : ((List.foldlM step ({} : LedgerTree)
    [.inLedger 0 (.register 1), .inLedger 0 (.register 1), .inLedger 0 (.register 1), .inLedger 0 .teardown,
      .inLedger 0 (.continues 0), .inLedger 0 (.calls 2), .inLedger 0 (.dispose 1), .inLedger 0 (.dispose 0),
      .inLedger 0 (.settles 2), .inLedger 0 (.finishes 2), .inLedger 0 (.continues 0)]).map fun t =>
        t.nodes.map fun node => node.ledger.drains.map LedgerDrain.status) = some [[.failed]] := by decide +kernel

end LedgerTree

end Echadron.Base
