import Echadron.Lib.Runs
import Echadron.Persistence.Content
import Mathlib.Data.List.ModifyLast

namespace Echadron.Persistence
open Lib

/-! The logs of a store, whose buffers retire and hand off to new ones. -/

variable {R : Type}

/-- A call of `flush` as one log sees it: the buffer with its promise, none where the log has no buffer;
the records that the file is to hold; and whether a rewrite has been called since. -/
structure FlushCall (R : Type) where
  promise : Option (Nat × Option Nat)
  owed : List R
  overtaken : Bool := false
deriving DecidableEq

/-- The buffers of a log, oldest first. Each is ready once the one before it has retired. -/
structure OwnedLog (R : Type) where
  file : Bytes := []
  states : List (LogState R) := []
  /-- The records appended since the last call of `rewrite`, and those still queued or in flight in the
  buffer that it went to. -/
  owed : List R := []
  calls : List (FlushCall R) := []
deriving DecidableEq

inductive LogEvent (R : Type) where
  | append (record : R)
  | rewrite (records : List R)
  | acquire
  | release (buffer : Nat)
  | scheduled (buffer : Nat)
  | resume (buffer id : Nat)
  | complete (buffer id : Nat) (completion : Completion)
  | retire (buffer : Nat)
deriving DecidableEq

namespace OwnedLog

variable (log : OwnedLog R)

/-- The buffer in the map of logs: a retirement that settles takes it out, unless another is there. -/
def entry : Option (LogState R) := log.states.getLast?.filter fun state => state.retirement ≠ some .settled

/-- `state()`: the buffer in the map, or a new one. -/
def ensure : OwnedLog R :=
  if log.entry.any fun state => state.retired = false then log
  else { log with states := log.states ++ [{}] }

def onLast (f : LogState R → LogState R) : OwnedLog R := { log with states := log.states.modifyLast f }

def isReady (buffer : Nat) : Bool :=
  buffer = 0 ∨ log.states[buffer - 1]?.any fun state => state.retirement = some .settled

def append (record : R) : OwnedLog R :=
  let log := log.ensure.onLast fun state => state.append record
  { log with owed := log.owed ++ [record] }

def rewrite (records : List R) : OwnedLog R :=
  let ensured := log.ensure
  { ensured.onLast fun state => state.rewrite records with
    owed := ensured.states.getLast?.elim [] LogState.pending
    calls := ensured.calls.map fun call => { call with overtaken := true } }

/-- What a `flush` of the store does to one log. -/
def flush : OwnedLog R :=
  match log.entry with
  | none => { log with calls := log.calls ++ [{ promise := none, owed := log.owed }] }
  | some state =>
    { log.onLast fun state => state.flushState.1 with
      calls := log.calls ++
        [{ promise := some (log.states.length - 1, state.flushState.2), owed := log.owed }] }

def step (stringify : R → Bytes) : LogEvent R → Option (OwnedLog R)
  | .append record => some (log.append record)
  | .rewrite records => some (log.rewrite records)
  | .acquire => some (log.ensure.onLast LogState.acquire)
  | .release buffer =>
    log.states[buffer]?.bind fun state =>
      if 0 < state.refCount then some { log with states := log.states.set buffer state.release } else none
  | .scheduled buffer =>
    log.states[buffer]?.bind fun state => state.runScheduled.map fun next =>
      { log with states := log.states.set buffer next }
  | .resume buffer id =>
    log.states[buffer]?.bind fun state => (state.resume (log.isReady buffer) id).map fun next =>
      { log with states := log.states.set buffer next }
  | .complete buffer id completion =>
    log.states[buffer]?.bind fun state => (state.complete stringify log.file id completion).map fun next =>
      { log with
        states := log.states.set buffer next.1
        file := next.2 }
  | .retire buffer =>
    log.states[buffer]?.bind fun state => state.retire.map fun next =>
      { log with states := log.states.set buffer next }

end OwnedLog

inductive StoreEvent (K R : Type) where
  | on (key : K) (event : LogEvent R)
  | flush

abbrev AppendLogStore (K R : Type) := K → OwnedLog R

def AppendLogStore.step {K : Type} [DecidableEq K] (stringify : R → Bytes) (store : AppendLogStore K R) :
    StoreEvent K R → Option (AppendLogStore K R)
  | .on key event => ((store key).step stringify event).map fun log => Function.update store key log
  | .flush => some fun key => (store key).flush

end Echadron.Persistence
