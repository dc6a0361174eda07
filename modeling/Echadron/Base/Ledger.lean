import Echadron.Lib.Runs
import Mathlib.Data.List.Nodup
import Mathlib.Data.List.Pairwise

namespace Echadron.Base
open Lib

/-! One ledger of what is to be disposed. Its entries are numbered in the order of their registration. -/

inductive LedgerState where
  | active
  | disposing
  | disposed
deriving DecidableEq

inductive DrainStatus where
  | going
  | done
  | failed
deriving DecidableEq

/-- A walk of `drainRecords`; `running` is the entry whose disposer it waits for. -/
structure LedgerDrain where
  index : Nat
  isTeardown : Bool
  running : Option Nat := none
  status : DrainStatus := .going
deriving DecidableEq

/-- An entry that runs: `left` of its disposers are to be called, and `waits` is that the last one has not settled. -/
structure RunningEntry where
  entry : Nat
  left : Nat
  waits : Bool := false
deriving DecidableEq

inductive LedgerRecord where
  | registered (entry disposers : Nat)
  | released (entry : Nat)
  | started (drain : Option Nat) (entry : Nat)
  | ran (entry disposer : Nat)
  | finished (entry : Nat)
  | began (drain : Nat)
  | drained (drain : Nat)
  | failed (drain : Nat)
deriving DecidableEq

/-- `records` is the array that drains walk over; an entry's handle knows of itself whether the entry is active.
`disposers` is how many disposers each entry has: an effect may have any number. -/
structure Ledger where
  state : LedgerState := .active
  records : List Nat := []
  active : List Nat := []
  disposers : List Nat := []
  drains : List LedgerDrain := []
  running : List RunningEntry := []
  trace : List LedgerRecord := []
deriving DecidableEq

inductive LedgerEvent where
  | register (disposers : Nat)
  | dispose (entry : Nat)
  | release (entry : Nat)
  | clear
  | teardown
  | continues (drain : Nat)
  | calls (entry : Nat)
  | settles (entry : Nat)
  | finishes (entry : Nat)
deriving DecidableEq

/-- The drain goes on once the entry that it waits for has finished. -/
def LedgerDrain.past (d : LedgerDrain) (entry : Nat) : LedgerDrain :=
  if d.running = some entry then { d with running := none } else d

namespace Ledger

section

variable (s : Ledger)

def isActive : Bool := s.state = .active

def record (r : LedgerRecord) : Ledger := { s with trace := s.trace ++ [r] }

def register (disposers : Nat) : Ledger :=
  if s.isActive then
    { s with
      records := s.records ++ [s.disposers.length]
      active := s.active ++ [s.disposers.length]
      disposers := s.disposers ++ [disposers] }.record (.registered s.disposers.length disposers)
  else s

def runGuarded (drain : Option Nat) (entry : Nat) : Ledger :=
  record
    { s with
      active := s.active.erase entry
      running := s.running ++ [⟨entry, s.disposers.getD entry 0, false⟩] }
    (.started drain entry)

def dispose (entry : Nat) : Ledger :=
  if entry ∈ s.active then { s with records := s.records.erase entry }.runGuarded none entry else s

def release (entry : Nat) : Ledger :=
  if entry ∈ s.active then
    { s with active := s.active.erase entry, records := s.records.erase entry }.record (.released entry)
  else s

def beginDrain (isTeardown : Bool) : Ledger :=
  record { s with drains := s.drains ++ [⟨s.records.length, isTeardown, none, .going⟩] } (.began s.drains.length)

def clear : Ledger := if s.isActive then s.beginDrain false else s

def teardown : Ledger :=
  if s.isActive then { s with state := .disposing }.beginDrain true else s

def setDrain (drain : Nat) (d : LedgerDrain) : Ledger := { s with drains := s.drains.set drain d }

/-- The drain is through: the array is emptied. -/
def finishDrain (drain : Nat) (d : LedgerDrain) : Ledger :=
  { s.setDrain drain { d with status := .done } with
    records := []
    state := if d.isTeardown then .disposed else s.state }.record (.drained drain)

/-- One turn of the loop. Where the array has become too short, the record that is read is `undefined`. -/
def turn (drain : Nat) (d : LedgerDrain) : Ledger :=
  match d.index with
  | 0 => s.finishDrain drain d
  | index + 1 =>
    match s.records[index]? with
    | none => (s.setDrain drain { d with index, status := .failed }).record (.failed drain)
    | some entry =>
      if entry ∈ s.active then (s.setDrain drain { d with index, running := some entry }).runGuarded (some drain) entry
      else s.setDrain drain { d with index }

def findRunning (entry : Nat) : Option RunningEntry := s.running.find? fun r => r.entry = entry

def setRunning (r : RunningEntry) : Ledger :=
  { s with running := s.running.map fun q => if q.entry = r.entry then r else q }

def finishEntry (entry : Nat) : Ledger :=
  record
    { s with
      running := s.running.filter fun r => r.entry ≠ entry
      drains := s.drains.map fun d => d.past entry }
    (.finished entry)

def callDisposer (r : RunningEntry) : Option Ledger :=
  match r.left, r.waits with
  | left + 1, false => some ((s.setRunning { r with left, waits := true }).record (.ran r.entry left))
  | _, _ => none

def step : LedgerEvent → Option Ledger
  | .register disposers => some (s.register disposers)
  | .dispose entry => some (s.dispose entry)
  | .release entry => some (s.release entry)
  | .clear => some s.clear
  | .teardown => some s.teardown
  | .continues drain =>
    s.drains[drain]?.bind fun d => if d.status = .going ∧ d.running = none then some (s.turn drain d) else none
  | .calls entry => (s.findRunning entry).bind s.callDisposer
  | .settles entry =>
    (s.findRunning entry).bind fun r => if r.waits then some (s.setRunning { r with waits := false }) else none
  | .finishes entry =>
    (s.findRunning entry).bind fun r => if r.left = 0 ∧ !r.waits then some (s.finishEntry entry) else none

def isDraining : Bool := s.drains.any fun d => d.status = .going

/-- While a drain is in progress nothing is registered and no other drain begins, and an entry leaves the array only
where the drain has left one behind it that makes up for it. -/
def Undisturbed : LedgerEvent → Prop
  | .register _ | .clear | .teardown => s.isActive = true → s.isDraining = false
  | .dispose entry | .release entry =>
    entry ∈ s.active → ∀ d ∈ s.drains, d.status = .going → d.index < s.records.length
  | _ => True

end

instance (s : Ledger) (e : LedgerEvent) : Decidable (s.Undisturbed e) :=
  match e with
  | .register _ | .clear | .teardown => inferInstanceAs (Decidable (_ → _))
  | .dispose _ | .release _ => inferInstanceAs (Decidable (_ → _))
  | .continues _ | .calls _ | .settles _ | .finishes _ => isTrue trivial

end Ledger

def startedEntry : LedgerRecord → Option Nat
  | .started _ entry => some entry
  | _ => none

def startedBy (drain : Nat) : LedgerRecord → Option Nat
  | .started starter entry => if starter = some drain then some entry else none
  | _ => none

def startedEntries (history : List LedgerRecord) : List Nat := history.filterMap startedEntry

def startedByDrain (drain : Nat) (history : List LedgerRecord) : List Nat := history.filterMap (startedBy drain)

/-- What a record of a ledger's history may follow: no disposer runs twice; a drain goes backwards, one entry after
the other, and when it is through, each entry that was registered has been released or has run. -/
def LawfulRecord (before : List LedgerRecord) : LedgerRecord → Prop
  | .started starter entry => entry ∉ startedEntries before ∧
    ∀ drain, starter = some drain → ∀ earlier ∈ startedByDrain drain before, entry < earlier ∧ .finished earlier ∈ before
  | .ran entry disposer => entry ∈ startedEntries before ∧ ∀ later, .ran entry later ∈ before → disposer < later
  | .finished entry => ∀ count, .registered entry count ∈ before → ∀ disposer < count, .ran entry disposer ∈ before
  | .drained drain =>
    (∀ entry count, .registered entry count ∈ before → .released entry ∈ before ∨ entry ∈ startedEntries before) ∧
      ∀ entry ∈ startedByDrain drain before, .finished entry ∈ before
  | .failed _ => False
  | _ => True

/-- What a ledger owes those who register with it. -/
structure Ledger.Tidy (s : Ledger) : Prop where
  lawful : Throughout LawfulRecord s.trace
  kept : ∀ entry count, .registered entry count ∈ s.trace →
    entry ∈ s.records ∨ .released entry ∈ s.trace ∨ entry ∈ startedEntries s.trace

end Echadron.Base
