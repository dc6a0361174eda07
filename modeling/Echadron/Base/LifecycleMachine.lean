import Echadron.Lib.Runs
import Mathlib.Data.List.Nodup

namespace Echadron.Base
open Lib

inductive TransitionErrorReason where
  | invalidState
  | transitionConflict
  | missingCommitState
  | missingRollbackState
  | alreadyCommitted
  | alreadyRolledBack
deriving DecidableEq

structure LifecycleTransitionError (S : Type) where
  reason : TransitionErrorReason
  operation : String
  state : S
  expected : Option (List S) := none
  activeOperation : Option String := none

def LifecycleTransitionError.message [ToString S] (e : LifecycleTransitionError S) : String :=
  match e.reason with
  | .invalidState => s!"Lifecycle operation \"{e.operation}\" is not allowed from state \"{toString e.state}\""
  | .transitionConflict =>
    s!"Lifecycle operation \"{e.operation}\" conflicts with active operation " ++
      "\"" ++ e.activeOperation.getD "undefined" ++ "\""
  | .missingCommitState => s!"Lifecycle operation \"{e.operation}\" did not select a commit state"
  | .missingRollbackState => s!"Lifecycle operation \"{e.operation}\" did not select a rollback state"
  | .alreadyCommitted => s!"Lifecycle operation \"{e.operation}\" already selected a commit state"
  | .alreadyRolledBack => s!"Lifecycle operation \"{e.operation}\" already selected a rollback state"

structure LifecycleSwitchOptions (S : Type) where
  operation : String
  origin : List S
  target : S

structure LifecycleTransactionOptions (S : Type) where
  operation : String
  origin : List S
  enter : S
  commit : Option S := none
  rollback : Option S := none

structure LifecycleMachine (S : Type) where
  state : S
  activeOperation : Option String := none

/-- The lists that a transaction's actions are registered in. -/
inductive ActionKind where
  | deferred
  | rollback
  | afterCommit
deriving DecidableEq

/-- How a transaction ends. -/
inductive TransactionExit where
  | succeeded
  | failed
  | missingCommit
deriving DecidableEq

/-- The walks over the lists, each from its end. -/
inductive ActionWalk where
  | rollingBack
  | cleaningUp (failed : Bool)
  | committed

def ActionWalk.kind : ActionWalk → ActionKind
  | .rollingBack => .rollback
  | .cleaningUp _ => .deferred
  | .committed => .afterCommit

/-- `left` actions of a walk are still to be started; `running` is that the one behind them has not settled. -/
inductive TransactionPhase where
  | callback
  | walking (walk : ActionWalk) (left : Nat) (running : Bool)
  | ended (exit : TransactionExit)

inductive TransactionRecord (S : Type) where
  | registered (kind : ActionKind) (action : Nat)
  | committed (state : S)
  | rolledBackTo (state : S)
  | callbackSettled (threw : Bool)
  | began (kind : ActionKind)
  | ran (kind : ActionKind) (action : Nat)
deriving DecidableEq

inductive TransactionError (S : Type) where
  | callback
  | action (kind : ActionKind) (action : Nat)
  | transition (error : LifecycleTransitionError S)

/-- A transaction on its machine, with the history of what it did. Actions are named by their place in it. -/
structure LifecycleTransaction (S : Type) where
  machine : LifecycleMachine S
  options : LifecycleTransactionOptions S
  deferred : List Nat := []
  rollbacks : List Nat := []
  afterCommit : List Nat := []
  commitState : Option S
  rollbackState : Option S
  commitSelected : Bool := false
  rollbackSelected : Bool := false
  phase : TransactionPhase := .callback
  errors : List (TransactionError S) := []
  trace : List (TransactionRecord S) := []

inductive TransactionEvent (S : Type) where
  | register (kind : ActionKind)
  | commit (state : S)
  | rollbackTo (state : S)
  | callbackReturns
  | callbackThrows
  | continues
  | settles (throws : Bool)
  | switches (options : LifecycleSwitchOptions S)
  | transacts (options : LifecycleTransactionOptions S)

variable {S : Type} [DecidableEq S]

namespace LifecycleMachine

section

variable (m : LifecycleMachine S)

def createError (operation : String) (reason : TransitionErrorReason)
    (expected : Option (List S) := none) (activeOperation : Option String := none) : LifecycleTransitionError S :=
  { reason, operation, state := m.state, expected, activeOperation }

def assertIdle (operation : String) : Except (LifecycleTransitionError S) Unit :=
  match m.activeOperation with
  | none => .ok ()
  | some active => .error (m.createError operation .transitionConflict none (some active))

def assertState (operation : String) (expected : List S) : Except (LifecycleTransitionError S) Unit :=
  if m.state ∈ expected then .ok () else .error (m.createError operation .invalidState (some expected))

def switch (options : LifecycleSwitchOptions S) : Except (LifecycleTransitionError S) (LifecycleMachine S) := do
  m.assertIdle options.operation
  m.assertState options.operation options.origin
  pure { m with state := options.target }

/-- `transaction` up to the call of its callback. -/
def transaction (options : LifecycleTransactionOptions S) :
    Except (LifecycleTransitionError S) (LifecycleTransaction S) := do
  m.assertIdle options.operation
  m.assertState options.operation options.origin
  pure
    { machine := { state := options.enter, activeOperation := some options.operation }
      options, commitState := options.commit, rollbackState := options.rollback }

end

end LifecycleMachine

namespace LifecycleTransaction

section

variable (t : LifecycleTransaction S)

def actions : ActionKind → List Nat
  | .deferred => t.deferred
  | .rollback => t.rollbacks
  | .afterCommit => t.afterCommit

def record (r : TransactionRecord S) : LifecycleTransaction S := { t with trace := t.trace ++ [r] }

def fails (error : TransactionError S) : LifecycleTransaction S := { t with errors := t.errors ++ [error] }

def register (kind : ActionKind) : LifecycleTransaction S :=
  let action := t.trace.length
  let t := t.record (.registered kind action)
  match kind with
  | .deferred => { t with deferred := t.deferred ++ [action] }
  | .rollback => { t with rollbacks := t.rollbacks ++ [action] }
  | .afterCommit => { t with afterCommit := t.afterCommit ++ [action] }

/-- A second choice throws into the code that makes it. -/
def commit (state : S) : LifecycleTransaction S :=
  if t.commitSelected then t else { t with commitSelected := true, commitState := some state }.record (.committed state)

def rollbackTo (state : S) : LifecycleTransaction S :=
  if t.rollbackSelected then t
  else { t with rollbackSelected := true, rollbackState := some state }.record (.rolledBackTo state)

def runActions (walk : ActionWalk) : LifecycleTransaction S :=
  { t with phase := .walking walk (t.actions walk.kind).length false }.record (.began walk.kind)

/-- The `finally` of the transaction. -/
def finish (exit : TransactionExit) : LifecycleTransaction S :=
  { t with machine := { t.machine with activeOperation := none }, phase := .ended exit }

def setState (state : S) : LifecycleTransaction S := { t with machine := { t.machine with state } }

def transitionError (reason : TransitionErrorReason) : TransactionError S :=
  .transition (t.machine.createError t.options.operation reason)

def callbackReturns : LifecycleTransaction S :=
  let t := t.record (.callbackSettled false)
  match t.commitState with
  | none => (t.fails (t.transitionError .missingCommitState)).finish .missingCommit
  | some _ => t.runActions (.cleaningUp false)

def callbackThrows : LifecycleTransaction S :=
  ((t.record (.callbackSettled true)).fails .callback).runActions .rollingBack

def leaveWalk : ActionWalk → LifecycleTransaction S
  | .rollingBack => t.runActions (.cleaningUp true)
  | .cleaningUp true =>
    match t.rollbackState with
    | none => (t.fails (t.transitionError .missingRollbackState)).finish .failed
    | some state => (t.setState state).finish .failed
  | .cleaningUp false =>
    let t := t.commitState.elim t t.setState
    t.runActions .committed
  | .committed => t.finish .succeeded

def isEnded : Bool :=
  match t.phase with
  | .ended _ => true
  | _ => false

def continues (walk : ActionWalk) : (left : Nat) → Option (LifecycleTransaction S)
  | 0 => some (t.leaveWalk walk)
  | left + 1 => (t.actions walk.kind)[left]?.map fun action =>
    { t with phase := .walking walk left true }.record (.ran walk.kind action)

def settles (walk : ActionWalk) (left : Nat) (throws : Bool) : Option (LifecycleTransaction S) :=
  let t := { t with phase := .walking walk left false }
  if throws then (t.actions walk.kind)[left]?.map fun action => t.fails (.action walk.kind action) else some t

def step (e : TransactionEvent S) : Option (LifecycleTransaction S) :=
  if t.isEnded then none
  else
    match e with
    | .register kind => some (t.register kind)
    | .commit state => some (t.commit state)
    | .rollbackTo state => some (t.rollbackTo state)
    | .callbackReturns =>
      match t.phase with
      | .callback => some t.callbackReturns
      | _ => none
    | .callbackThrows =>
      match t.phase with
      | .callback => some t.callbackThrows
      | _ => none
    | .continues =>
      match t.phase with
      | .walking walk left false => t.continues walk left
      | _ => none
    | .settles throws =>
      match t.phase with
      | .walking walk left true => t.settles walk left throws
      | _ => none
    | .switches options => some { t with machine := (t.machine.switch options).toOption.getD t.machine }
    | .transacts options => some { t with machine := (t.machine.transaction options).toOption.elim t.machine machine }

end

end LifecycleTransaction

/-! What the history tells. -/

def registeredAction (kind : ActionKind) : TransactionRecord S → Option Nat
  | .registered kind' action => if kind' = kind then some action else none
  | _ => none

def ranAction (kind : ActionKind) : TransactionRecord S → Option Nat
  | .ran kind' action => if kind' = kind then some action else none
  | _ => none

def committedState : TransactionRecord S → Option S
  | .committed state => some state
  | _ => none

def rolledBackState : TransactionRecord S → Option S
  | .rolledBackTo state => some state
  | _ => none

section

variable (kind : ActionKind) (trace : List (TransactionRecord S))

def registeredActions : List Nat := trace.filterMap (registeredAction kind)

def ranActions : List Nat := trace.filterMap (ranAction kind)

def beforeWalk : List (TransactionRecord S) := trace.takeWhile fun r => r ≠ .began kind

end

section

variable (options : LifecycleTransactionOptions S) (trace : List (TransactionRecord S))

def selectedCommit : Option S := (trace.findSome? committedState).or options.commit

def selectedRollback : Option S := (trace.findSome? rolledBackState).or options.rollback

end

def TransactionExit.walks : TransactionExit → ActionKind → Bool
  | .succeeded, .deferred | .succeeded, .afterCommit | .failed, .rollback | .failed, .deferred => true
  | _, _ => false

/-- How the transaction ends, from how its callback does. -/
def exitOf (options : LifecycleTransactionOptions S) (before : List (TransactionRecord S)) (threw : Bool) :
    TransactionExit :=
  if threw then .failed
  else if (selectedCommit options before).isSome then .succeeded else .missingCommit

def endState (options : LifecycleTransactionOptions S) (trace : List (TransactionRecord S)) :
    TransactionExit → Option S
  | .succeeded => selectedCommit options (beforeWalk .afterCommit trace)
  | .failed => some ((selectedRollback options trace).getD options.enter)
  | .missingCommit => some options.enter

/-- A machine in a transition: every other call is rejected. -/
def LifecycleMachine.Busy (m : LifecycleMachine S) : Prop :=
  (∀ options, ∃ e, m.switch options = .error e) ∧ ∀ options, ∃ e, m.transaction options = .error e

/-- What an ended transaction owes its machine. -/
structure LifecycleTransaction.Settles (t : LifecycleTransaction S) (exit : TransactionExit) : Prop where
  idle : t.machine.activeOperation = none
  exit_eq : ∃ before threw after, t.trace = before ++ .callbackSettled threw :: after ∧
    exit = exitOf t.options before threw
  state : some t.machine.state = endState t.options t.trace exit
  ran : ∀ kind, ranActions kind t.trace =
    if exit.walks kind then (registeredActions kind (beforeWalk kind t.trace)).reverse else []
  ran_once : ∀ kind, (ranActions kind t.trace).Nodup

end Echadron.Base
