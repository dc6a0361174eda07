import Echadron.Lib.JsMap
import Echadron.Lib.JsNumber

namespace Echadron.Session
open Lib

/-! The agents of a session: their creation, their removal and the events about both. -/

/-- The await that the bootstrap of a scope has reached. -/
inductive BootStage where
  | sealing
  | registering
  | restoring
  | binding
  | activating
  | done
  | failed
deriving DecidableEq

namespace BootStage

/-- The stage after the await; `none` once the bootstrap is over. -/
def next : BootStage → Option BootStage
  | .sealing => some .registering
  | .registering => some .restoring
  | .restoring => some .binding
  | .binding => some .activating
  | .activating => some .done
  | .done => none
  | .failed => none

def isOver (stage : BootStage) : Bool := stage.next.isNone

end BootStage

structure AgentScope where
  id : String
  stage : BootStage := .sealing
  /-- The call that creates the scope has not come back from its await. -/
  awaited : Bool := true
  /-- How many calls have joined the creation and not come back. -/
  joined : Nat := 0
  /-- A removal drains the agent. -/
  removing : Bool := false
  disposed : Bool := false
deriving DecidableEq

inductive LifecycleEvent where
  | didCreate (id : String)
  | didDispose (id : String)
deriving DecidableEq

/-- The value of a run of decimal digits, as `Number` reads it. -/
def decimal (digits : List Char) : Nat := roundNat (digits.foldl (fun n c => 10 * n + (c.toNat - 48)) 0)

/-- The number of an id `agent-<digits>`. -/
def suffix? (id : String) : Option Nat :=
  match id.toList with
  | 'a' :: 'g' :: 'e' :: 'n' :: 't' :: '-' :: digits =>
    if digits ≠ [] ∧ digits.all Char.isDigit then some (decimal digits) else none
  | _ => none

def consider (maxSuffix : Option Nat) (id : String) : Option Nat :=
  match maxSuffix, suffix? id with
  | some m, some n => some (max m n)
  | none, some n => some n
  | m, none => m

/-- `String` of a number that is a natural one; from `10 ^ 21` on it is the exponential form. -/
def numberText (exponential : Nat → String) (n : Nat) : String :=
  if n < 10 ^ 21 then n.repr else exponential n

structure AgentLifecycleService where
  scopes : List AgentScope := []
  handles : JsMap String Nat := .empty
  creating : JsMap String Nat := .empty
  interactionBusDisposables : JsMap String Nat := .empty
  /-- For every call that waits for the session's metadata, the largest suffix it has considered. -/
  minting : List (Option Nat) := []
  nextAgentId : Nat := 0
  minted : List String := []
  fired : List LifecycleEvent := []

namespace AgentLifecycleService

variable (exponential : Nat → String) (s : AgentLifecycleService)

def setScope (n : Nat) (f : AgentScope → AgentScope) : AgentLifecycleService :=
  { s with scopes := s.scopes.modify n f }

def fireDidCreate (n : Nat) (id : String) : AgentLifecycleService :=
  { s with
    fired := s.fired ++ [.didCreate id]
    interactionBusDisposables :=
      if s.interactionBusDisposables.has id then s.interactionBusDisposables
      else s.interactionBusDisposables.set id n }

def fireDidDispose (id : String) : AgentLifecycleService :=
  { s with
    fired := s.fired ++ [.didDispose id]
    interactionBusDisposables := s.interactionBusDisposables.delete id }

/-- `doCreate` up to its first await, and the entry of its promise. -/
def doCreate (id : String) : AgentLifecycleService :=
  { s with
    scopes := s.scopes ++ [{ id }]
    handles := s.handles.set id s.scopes.length
    creating := s.creating.set id s.scopes.length }

/-- An explicit id joins a creation under way or gets the agent that exists. -/
def create : Option String → AgentLifecycleService
  | some id =>
    match s.creating.get id, s.handles.get id with
    | some n, _ => s.setScope n fun scope => { scope with joined := scope.joined + 1 }
    | none, some _ => s
    | none, none => s.doCreate id
  | none => { s with minting := s.minting ++ [s.handles.keys.foldl consider none] }

def fork (source : String) (id : Option String) : AgentLifecycleService :=
  if s.handles.has source then
    match id with
    | some id => if s.handles.has id then s else s.create (some id)
    | none => s.create none
  else s

def candidate (maxSuffix : Option Nat) (persisted : List String) : Nat :=
  match persisted.foldl consider maxSuffix with
  | some m => max (roundNat (m + 1)) s.nextAgentId
  | none => max 0 s.nextAgentId

def mintedId (n : Nat) : String := "agent-" ++ numberText exponential n

/-- The metadata has been read. -/
def mint (k : Nat) (maxSuffix : Option Nat) (persisted : List String) : AgentLifecycleService :=
  let candidate := s.candidate maxSuffix persisted
  doCreate
    { s with
      minting := s.minting.eraseIdx k
      nextAgentId := roundNat (candidate + 1)
      minted := s.minted ++ [mintedId exponential candidate] }
    (mintedId exponential candidate)

section

variable (n : Nat) (scope : AgentScope)

/-- The bootstrap of a scope goes on; it is announced once it is registered. -/
def advance : Option AgentLifecycleService :=
  match scope.stage.next with
  | some stage =>
    if scope.stage = .registering then
      some ((s.setScope n fun scope => { scope with stage }).fireDidCreate n scope.id)
    else some (s.setScope n fun scope => { scope with stage })
  | none => none

/-- The bootstrap throws: the half-built agent is dropped. -/
def fail : Option AgentLifecycleService :=
  if scope.stage.isOver then none
  else
    some (fireDidDispose
      { (s.setScope n fun scope => { scope with stage := .failed, disposed := true }) with
        handles := if s.handles.get scope.id = some n then s.handles.delete scope.id else s.handles }
      scope.id)

/-- The call that created the scope comes back. -/
def settle : Option AgentLifecycleService :=
  if scope.stage.isOver ∧ scope.awaited then
    some { (s.setScope n fun scope => { scope with awaited := false }) with
      creating := s.creating.delete scope.id }
  else none

/-- A call that joined the creation comes back. -/
def settleJoined : Option AgentLifecycleService :=
  if scope.stage.isOver ∧ scope.joined ≠ 0 then
    some (s.setScope n fun scope => { scope with joined := scope.joined - 1 })
  else none

end

def remove (id : String) : AgentLifecycleService :=
  match s.handles.get id with
  | none => s
  | some n => { (s.setScope n fun scope => { scope with removing := true }) with handles := s.handles.delete id }

def drained (n : Nat) (scope : AgentScope) : Option AgentLifecycleService :=
  if scope.removing then
    some (fireDidDispose
      (s.setScope n fun scope => { scope with removing := false, disposed := true }) scope.id)
  else none

inductive Event where
  | create (id : Option String)
  | fork (source : String) (id : Option String)
  | mint (k : Nat) (persisted : List String)
  /-- The metadata cannot be read. -/
  | mintFailed (k : Nat)
  /-- The agents of another session share the counter. -/
  | mintedElsewhere (n : Nat)
  | advance (n : Nat)
  | fail (n : Nat)
  | settle (n : Nat)
  | settleJoined (n : Nat)
  | remove (id : String)
  | drained (n : Nat)

def step (s : AgentLifecycleService) : Event → Option AgentLifecycleService
  | .create id => some (s.create id)
  | .fork source id => some (s.fork source id)
  | .mint k persisted => s.minting[k]?.map fun maxSuffix => s.mint exponential k maxSuffix persisted
  | .mintFailed k => s.minting[k]?.map fun _ => { s with minting := s.minting.eraseIdx k }
  | .mintedElsewhere n => some { s with nextAgentId := roundNat (max n s.nextAgentId + 1) }
  | .advance n => s.scopes[n]?.bind (s.advance n)
  | .fail n => s.scopes[n]?.bind (s.fail n)
  | .settle n => s.scopes[n]?.bind (s.settle n)
  | .settleJoined n => s.scopes[n]?.bind (s.settleJoined n)
  | .remove id => some (s.remove id)
  | .drained n => s.scopes[n]?.bind (s.drained n)

/-- The scope whose handle the promise of a `create` resolves to in a step. -/
def resolvesTo : Event → Option Nat
  | .create (some id) => if s.creating.get id = none then s.handles.get id else none
  | .settle n => s.scopes[n]?.bind fun scope => if scope.stage = .done ∧ scope.awaited then some n else none
  | .settleJoined n =>
    s.scopes[n]?.bind fun scope => if scope.stage = .done ∧ scope.joined ≠ 0 then some n else none
  | .create none => none
  | .fork _ _ => none
  | .mint _ _ => none
  | .mintFailed _ => none
  | .mintedElsewhere _ => none
  | .advance _ => none
  | .fail _ => none
  | .remove _ => none
  | .drained _ => none

end AgentLifecycleService
end Echadron.Session
