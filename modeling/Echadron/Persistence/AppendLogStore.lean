import Echadron.Lib.Bytes

namespace Echadron.Persistence
open Lib

/-! The buffer of a log. A promise is known by its number. -/

variable {R : Type}

def encodeBatch (stringify : R → Bytes) (records : List R) : Bytes :=
  records.flatMap fun record => stringify record ++ [10]

/-- How far the operation of an owned flush has come: a drain that awaits `ready`, its `storage.append`
under way or back, a rewrite behind the flush before it, its `storage.write` under way or back, or an
operation that has settled. -/
inductive Operation (R : Type) where
  | ready (epoch : Nat)
  | appending (epoch : Nat) (batch : List R)
  | appended (epoch : Nat) (batch : List R) (ok : Bool)
  | behind (prior : Option Nat) (records : List R)
  | writing (records : List R)
  | written (records : List R) (ok : Bool)
  | settled (ok : Bool)
deriving DecidableEq

structure OwnedFlush (R : Type) where
  id : Nat
  operation : Operation R
deriving DecidableEq

/-- What a retirement awaits: a flush, none where `flushState` rejects at once, or nothing more. -/
inductive Retirement where
  | awaits (promise : Option Nat)
  | settled
deriving DecidableEq

structure LogState (R : Type) where
  pending : List R := []
  flushPromise : Option Nat := none
  flushScheduled : Bool := false
  storageFailure : Bool := false
  cutoverEpoch : Nat := 0
  refCount : Nat := 0
  retired : Bool := false
  retirement : Option Retirement := none
  /-- The calls of `finishOwnedFlush` that run, oldest first. -/
  flushes : List (OwnedFlush R) := []
  /-- The promises that have settled, and whether they were fulfilled. -/
  outcomes : List (Nat × Bool) := []
  nextId : Nat := 0
deriving DecidableEq

/-- How a storage operation ends. One that fails may have taken effect all the same. -/
inductive Completion where
  | success
  | failure (applied : Bool)
deriving DecidableEq

def Completion.ok : Completion → Bool
  | success => true
  | failure _ => false

def Completion.applied : Completion → Bool
  | success => true
  | failure applied => applied

namespace LogState

variable (s : LogState R)

def scheduleFlush : LogState R :=
  if s.flushScheduled ∨ s.flushPromise.isSome then s else { s with flushScheduled := true }

def append (record : R) : LogState R := { s with pending := s.pending ++ [record] }.scheduleFlush

section

variable (operation : Operation R)

def ownFlush : LogState R :=
  { s with
    flushes := s.flushes ++ [{ id := s.nextId, operation := operation }]
    flushPromise := some s.nextId
    nextId := s.nextId + 1 }

@[simp] theorem ownFlush_flushes :
    (s.ownFlush operation).flushes = s.flushes ++ [{ id := s.nextId, operation := operation }] := rfl

end

/-- The promise is none where it rejects at once. -/
def flushState : LogState R × Option Nat :=
  match s.flushPromise with
  | some promise => (s, some promise)
  | none => if s.storageFailure then (s, none) else (s.ownFlush (.ready s.cutoverEpoch), some s.nextId)

theorem flushState_cases : s.flushState.1 = s ∨
    s.flushPromise = none ∧ s.storageFailure = false ∧ s.flushState.1 = s.ownFlush (.ready s.cutoverEpoch) := by
  rw [flushState]
  cases hpromise : s.flushPromise with
  | some promise => exact .inl rfl
  | none =>
    dsimp only
    split
    · exact .inl rfl
    · rename_i hfailure
      exact .inr ⟨rfl, Bool.eq_false_iff.mpr hfailure, rfl⟩

def runScheduled : Option (LogState R) :=
  if s.flushScheduled then some { s with flushScheduled := false }.flushState.1 else none

def rewrite (records : List R) : LogState R :=
  let s := { s with cutoverEpoch := s.cutoverEpoch + 1 }
  s.ownFlush (.behind s.flushPromise records)

@[simp] theorem rewrite_flushes (records : List R) : (s.rewrite records).flushes =
    s.flushes ++ [{ id := s.nextId, operation := .behind s.flushPromise records }] := rfl

@[simp] theorem rewrite_cutoverEpoch (records : List R) :
    (s.rewrite records).cutoverEpoch = s.cutoverEpoch + 1 := rfl

def put (id : Nat) (operation : Operation R) : LogState R :=
  { s with
    flushes := s.flushes.map fun flush => if flush.id = id then { flush with operation := operation } else flush }

/-- The promise of an owned flush settles. -/
def settle (id : Nat) (ok : Bool) : LogState R :=
  { s with
    flushes := s.flushes.filter fun flush => flush.id ≠ id
    outcomes := s.outcomes ++ [(id, ok)] }

/-- The rest of `finishOwnedFlush` once what it awaits has settled. -/
def finishOwnedFlush (id : Nat) (ok : Bool) : LogState R :=
  if s.flushPromise = some id then
    if ok ∧ s.pending ≠ [] then s.put id (.ready s.cutoverEpoch)
    else { s with flushPromise := none }.settle id ok
  else s.settle id ok

/-- The loop of a drain, from its head on. -/
def drainOn (id epoch : Nat) : LogState R :=
  s.put id (if s.pending = [] then .settled true else .appending epoch s.pending)

/-- An owned flush goes on where it waits for no storage operation. -/
def resume (isReady : Bool) (id : Nat) : Option (LogState R) :=
  (s.flushes.find? fun flush => flush.id = id).bind fun flush =>
    match flush.operation with
    | .ready epoch =>
      if isReady then
        some (if s.cutoverEpoch ≠ epoch then s.put id (.settled true) else s.drainOn id epoch)
      else none
    | .appended epoch batch ok =>
      if ok then
        if s.cutoverEpoch ≠ epoch then some (s.put id (.settled true))
        else some ({ s with pending := s.pending.drop batch.length }.drainOn id epoch)
      else some ({ s with storageFailure := true }.put id (.settled false))
    | .behind prior records =>
      if prior.elim isReady fun p => p ∉ s.flushes.map OwnedFlush.id then some (s.put id (.writing records))
      else none
    | .written _ ok => some ({ s with storageFailure := !ok }.put id (.settled ok))
    | .settled ok => some (s.finishOwnedFlush id ok)
    | _ => none

/-- The storage operation of an owned flush ends, with what it leaves in the file. -/
def complete (stringify : R → Bytes) (file : Bytes) (id : Nat) (completion : Completion) :
    Option (LogState R × Bytes) :=
  (s.flushes.find? fun flush => flush.id = id).bind fun flush =>
    match flush.operation with
    | .appending epoch batch =>
      some (s.put id (.appended epoch batch completion.ok),
        if completion.applied then file ++ encodeBatch stringify batch else file)
    | .writing records =>
      some (s.put id (.written records completion.ok),
        if completion.applied then encodeBatch stringify records else file)
    | _ => none

def acquire : LogState R := { s with refCount := s.refCount + 1 }

/-- The last owner's release starts a flush and retires the buffer. -/
def release : LogState R :=
  let s := { s with refCount := s.refCount - 1 }
  if 0 < s.refCount then s
  else
    let flushed := { s with retired := true }.flushState
    { flushed.1 with retirement := some (.awaits flushed.2) }

/-- The retirement settles once what it awaits has settled. -/
def retire : Option (LogState R) :=
  match s.retirement with
  | some (.awaits promise) =>
    if promise.all fun p => p ∉ s.flushes.map OwnedFlush.id then
      some { s with retirement := some .settled }
    else none
  | _ => none

end LogState

end Echadron.Persistence
