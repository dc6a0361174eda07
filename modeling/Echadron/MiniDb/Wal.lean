import Echadron.Lib.Bytes
import Echadron.Lib.Runs

namespace Echadron.MiniDb
open Lib Lib.Bytes List Option

inductive FsyncPolicy where
  | always
  | everysec
  | no
deriving DecidableEq

/-- A queued frame. `op` is what the caller waits for it with, `offset` what `appendLoc` told it. -/
structure PendingWrite (α : Type) where
  buf : Bytes
  offset : Nat
  op : α
deriving DecidableEq

/-- A batch that is being written: the buffers of it that are not yet in the file, of which the
first is written up to `off`. -/
structure Flush (α : Type) where
  batch : List (PendingWrite α)
  bufs : List Bytes
  off : Nat
deriving DecidableEq

/-- A log open for appending, with the bytes of its file. -/
structure Wal (α : Type) where
  policy : FsyncPolicy := .everysec
  file : Bytes := []
  size : Nat := 0
  nextOffset : Nat := 0
  queue : List (PendingWrite α) := []
  inflight : Option (Flush α) := none
  sealed : Bool := false
  closed : Bool := false
deriving DecidableEq

/-- What the operating system answers, and when. `flushBatch` is the start of a flush. -/
inductive WalEvent where
  | flushBatch
  | written (bytesWritten : Nat)
  | writeFailed
  | synced
  | syncFailed
deriving DecidableEq

/-- The answers that reject a batch. A write without progress is one of them. -/
def WalEvent.isFailure : WalEvent → Bool
  | written bytesWritten => bytesWritten = 0
  | writeFailed | syncFailed => true
  | flushBatch | synced => false

inductive Outcome where
  | resolved
  | rejected
deriving DecidableEq

/-- The end of a batch: all its promises settle alike. -/
structure Settlement (α : Type) where
  outcome : Outcome
  batch : List (PendingWrite α)
deriving DecidableEq

/-- The loop that takes written bytes off the buffers. -/
def consume : (rem : Nat) → List Bytes → (off : Nat) → List Bytes × Nat
  | _, [], off => ([], off)
  | rem, buf :: bufs, off =>
    if rem = 0 then (buf :: bufs, off)
    else if rem < buf.length - off then (buf :: bufs, off + rem)
    else consume (rem - (buf.length - off)) bufs 0

/-- The bytes of a batch that are still to be written. -/
def toWrite : List Bytes → (off : Nat) → Bytes
  | [], _ => []
  | buf :: bufs, off => buf.drop off ++ bufs.flatten

def batchBytes (batch : List (PendingWrite α)) : Bytes := (batch.map PendingWrite.buf).flatten

namespace Wal

/-- `open` on a file with these bytes. -/
def init (policy : FsyncPolicy) (file : Bytes) : Wal α :=
  { policy := policy, file := file, size := file.length, nextOffset := file.length }

def sealLog (w : Wal α) : Wal α := { w with sealed := true }

/-- Queue a frame; absent where the code rejects it at once. -/
def appendLoc (w : Wal α) (frame : Bytes) (op : α) : Option (Nat × Wal α) :=
  if w.closed || w.sealed then none
  else
    some (w.nextOffset,
      { w with
        nextOffset := w.nextOffset + frame.length
        queue := w.queue ++ [{ buf := frame, offset := w.nextOffset, op := op }] })

def settle (w : Wal α) (f : Flush α) (outcome : Outcome) : Wal α × Option (Settlement α) :=
  ({ w with inflight := none }, some { outcome := outcome, batch := f.batch })

/-- The rest of the loop of `flushBatch` after `bytesWritten` bytes went to the file. -/
def afterWrite (w : Wal α) (f : Flush α) (bytesWritten : Nat) : Wal α × Option (Settlement α) :=
  let (bufs, off) := consume bytesWritten f.bufs f.off
  let w := { w with
    file := w.file ++ (toWrite f.bufs f.off).take bytesWritten
    size := w.size + bytesWritten }
  let f := { f with bufs := bufs, off := off }
  if bufs = [] ∧ w.policy ≠ .always then w.settle f .resolved
  else ({ w with inflight := some f }, none)

/-- One step of the log, with the batch that it settles. A batch without buffers left waits for the
sync. -/
def event (w : Wal α) (e : WalEvent) : Option (Wal α × Option (Settlement α)) :=
  match e, w.inflight with
  | .flushBatch, none =>
    if w.queue = [] then none
    else
      some ({ w with
        queue := []
        inflight := some { batch := w.queue, bufs := w.queue.map PendingWrite.buf, off := 0 } }, none)
  | .written bytesWritten, some f =>
    if f.bufs = [] ∨ (toWrite f.bufs f.off).length < bytesWritten then none
    else if bytesWritten = 0 then some (w.settle f .rejected)
    else some (w.afterWrite f bytesWritten)
  | .writeFailed, some f => if f.bufs = [] then none else some (w.settle f .rejected)
  | .synced, some f => if f.bufs = [] then some (w.settle f .resolved) else none
  | .syncFailed, some f => if f.bufs = [] then some (w.settle f .rejected) else none
  | _, _ => none

end Wal

/-! The loop over the buffers. -/

/-- The first buffer has bytes left, or none were taken from it. -/
def OffsetIn : List Bytes → Nat → Prop
  | [], _ => True
  | buf :: _, off => off ≤ buf.length

theorem consume_spec (rem : Nat) (bufs : List Bytes) (off : Nat) (h : OffsetIn bufs off)
    (hrem : rem ≤ (toWrite bufs off).length) :
    OffsetIn (consume rem bufs off).1 (consume rem bufs off).2 ∧
      toWrite (consume rem bufs off).1 (consume rem bufs off).2 = (toWrite bufs off).drop rem := by
  induction bufs generalizing rem off with
  | nil => exact ⟨trivial, by rw [consume, toWrite, drop_nil]⟩
  | cons buf bufs ih =>
    rw [consume]
    split
    · rename_i hz
      exact ⟨h, by rw [hz, drop_zero]⟩
    · split
      · refine ⟨show off + rem ≤ buf.length by omega, ?_⟩
        rw [toWrite, toWrite, drop_append_of_le_length, drop_drop]
        rw [length_drop]
        omega
      · rw [toWrite, length_append, length_drop] at hrem
        have hin : OffsetIn bufs 0 := by
          cases bufs with
          | nil => trivial
          | cons _ _ => exact Nat.zero_le _
        have hzero : toWrite bufs 0 = bufs.flatten := by
          cases bufs with
          | nil => rfl
          | cons _ _ => rfl
        obtain ⟨hin', hrest⟩ := ih (rem - (buf.length - off)) 0 hin (by rw [hzero]; omega)
        refine ⟨hin', ?_⟩
        have hbuf : (buf.drop off).length ≤ rem := by
          rw [length_drop]
          omega
        rw [hrest, hzero, toWrite, drop_append, drop_of_length_le hbuf, length_drop, nil_append]

namespace Wal

/-- The file and the batch in flight once `n` more bytes of it are written. -/
def advance (w : Wal α) (f : Flush α) (n : Nat) : Wal α :=
  { w with
    file := w.file ++ (toWrite f.bufs f.off).take n
    size := w.size + n
    inflight := some
      { f with
        bufs := (consume n f.bufs f.off).1
        off := (consume n f.bufs f.off).2 } }

/-- What one event can do to a log. -/
inductive Moves (w : Wal α) : WalEvent → Wal α → Option (Settlement α) → Prop where
  | flush (hf : w.inflight = none) :
    Moves w .flushBatch
      { w with
        queue := []
        inflight := some { batch := w.queue, bufs := w.queue.map PendingWrite.buf, off := 0 } } none
  | write (f : Flush α) (n : Nat) (hf : w.inflight = some f) (hn : n ≤ (toWrite f.bufs f.off).length) :
    Moves w (.written n) (w.advance f n) none
  | finish (f : Flush α) (n : Nat) (hf : w.inflight = some f)
    (hn : n ≤ (toWrite f.bufs f.off).length) (hdone : (consume n f.bufs f.off).1 = []) :
    Moves w (.written n) { w.advance f n with inflight := none }
      (some { outcome := .resolved, batch := f.batch })
  | resolve (f : Flush α) (hf : w.inflight = some f) (hdone : f.bufs = []) :
    Moves w .synced { w with inflight := none } (some { outcome := .resolved, batch := f.batch })
  | reject (f : Flush α) (e : WalEvent) (he : e.isFailure = true) (hf : w.inflight = some f) :
    Moves w e { w with inflight := none } (some { outcome := .rejected, batch := f.batch })

theorem moves_of_event {w w' : Wal α} (h : w.event e = some (w', s)) : w.Moves e w' s := by
  cases e with
  | flushBatch =>
    cases hf : w.inflight with
    | some f => simp only [event, hf, reduceCtorEq] at h
    | none =>
      simp only [event, hf, ite_none_left_eq_some] at h
      obtain ⟨_, h⟩ := h
      obtain ⟨rfl, rfl⟩ := Prod.mk.inj (some.inj h)
      exact .flush hf
  | written n =>
    cases hf : w.inflight with
    | none => simp only [event, hf, reduceCtorEq] at h
    | some f =>
      simp only [event, hf, ite_none_left_eq_some, not_or, not_lt] at h
      obtain ⟨⟨_, hn⟩, h⟩ := h
      split at h
      · rename_i hz
        obtain ⟨rfl, rfl⟩ := Prod.mk.inj (some.inj h)
        exact .reject f _ (decide_eq_true hz) hf
      · rw [afterWrite] at h
        dsimp only at h
        split at h
        · rename_i hdone
          obtain ⟨rfl, rfl⟩ := Prod.mk.inj (some.inj h)
          exact .finish f n hf hn hdone.1
        · obtain ⟨rfl, rfl⟩ := Prod.mk.inj (some.inj h)
          exact .write f n hf hn
  | writeFailed =>
    cases hf : w.inflight with
    | none => simp only [event, hf, reduceCtorEq] at h
    | some f =>
      simp only [event, hf, ite_none_left_eq_some] at h
      obtain ⟨rfl, rfl⟩ := Prod.mk.inj (some.inj h.2)
      exact .reject f _ rfl hf
  | synced =>
    cases hf : w.inflight with
    | none => simp only [event, hf, reduceCtorEq] at h
    | some f =>
      simp only [event, hf, ite_none_right_eq_some] at h
      obtain ⟨rfl, rfl⟩ := Prod.mk.inj (some.inj h.2)
      exact .resolve f hf h.1
  | syncFailed =>
    cases hf : w.inflight with
    | none => simp only [event, hf, reduceCtorEq] at h
    | some f =>
      simp only [event, hf, ite_none_right_eq_some] at h
      obtain ⟨rfl, rfl⟩ := Prod.mk.inj (some.inj h.2)
      exact .reject f _ rfl hf

end Wal

/-- The batch that is being written. -/
def Wal.flightBatch (w : Wal α) : List (PendingWrite α) :=
  match w.inflight with
  | some f => f.batch
  | none => []

theorem flightBatch_some {w : Wal α} (h : w.inflight = some f) : w.flightBatch = f.batch := by
  rw [Wal.flightBatch, h]

namespace Wal

/-- The appends whose promises are not settled, in order. -/
def pending (w : Wal α) : List (PendingWrite α) := w.flightBatch ++ w.queue

theorem pending_event {w w' : Wal α}
    (h : w.event e = some (w', s)) : w.pending = (s.map Settlement.batch).getD [] ++ w'.pending := by
  cases moves_of_event h with
  | flush hf =>
    rw [pending, flightBatch, hf]
    exact (append_nil _).symm
  | write f n hf hn =>
    rw [pending, flightBatch_some hf]
    rfl
  | finish f n hf hn hdone =>
    rw [pending, flightBatch_some hf]
    rfl
  | resolve f hf hdone =>
    rw [pending, flightBatch_some hf]
    rfl
  | reject f e he hf =>
    rw [pending, flightBatch_some hf]
    rfl

theorem grows_event {w w' : Wal α} (h : w.event e = some (w', s)) :
    w'.closed = w.closed ∧ w'.sealed = w.sealed ∧ ∃ more, w'.file = w.file ++ more := by
  cases moves_of_event h with
  | write f n hf hn => exact ⟨rfl, rfl, _, rfl⟩
  | finish f n hf hn hdone => exact ⟨rfl, rfl, _, rfl⟩
  | _ => exact ⟨rfl, rfl, [], (append_nil _).symm⟩

theorem pending_appendLoc {w w' : Wal α} (h : w.appendLoc frame op = some (offset, w')) :
    w' = { w with
      nextOffset := w.nextOffset + frame.length
      queue := w.queue ++ [{ buf := frame, offset := w.nextOffset, op := op }] } ∧
    offset = w.nextOffset := by
  rw [appendLoc, ite_none_left_eq_some] at h
  obtain ⟨rfl, rfl⟩ := Prod.mk.inj (some.inj h.2)
  exact ⟨rfl, rfl⟩

end Wal

end Echadron.MiniDb
