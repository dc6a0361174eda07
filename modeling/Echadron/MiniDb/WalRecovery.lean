import Echadron.MiniDb.Wal
import Echadron.MiniDb.RecoveryCut

namespace Echadron.MiniDb
open Lib Lib.Bytes List Option

/-- A settled append: where its batch put it in the file, where the bytes of that batch end, and
how many bytes of earlier failed batches had by then not reached the file. -/
structure Placed (α : Type) where
  write : PendingWrite α
  start : Nat
  stop : Nat
  lost : Nat
deriving DecidableEq

/-- A log with the history of its settled appends. -/
structure WalRun (α : Type) where
  wal : Wal α
  lost : Nat := 0
  resolved : List (Placed α) := []
  rejected : List (Placed α) := []

inductive WalStep (α : Type) where
  | append (frame : Bytes) (op : α)
  | event (e : WalEvent)
deriving DecidableEq

section

variable {α : Type}

def place (start stop lost : Nat) : List (PendingWrite α) → List (Placed α)
  | [] => []
  | write :: batch =>
    { write := write, start := start, stop := stop, lost := lost } ::
      place (start + write.buf.length) stop lost batch

/-- The bytes of the batch in flight that are not in the file. -/
def Wal.unwritten (w : Wal α) : Nat :=
  match w.inflight with
  | some f => (toWrite f.bufs f.off).length
  | none => 0

namespace WalRun

def settle (r : WalRun α) (w : Wal α) : Option (Settlement α) → WalRun α
  | none => { r with wal := w }
  | some { outcome := .resolved, batch := batch } =>
    { r with
      wal := w
      resolved := r.resolved ++
        place (w.file.length - (batchBytes batch).length) w.file.length r.lost batch }
  | some { outcome := .rejected, batch := batch } =>
    { r with
      wal := w
      lost := r.lost + r.wal.unwritten
      rejected := r.rejected ++
        place (w.file.length + r.wal.unwritten - (batchBytes batch).length) w.file.length r.lost batch }

def step (r : WalRun α) : WalStep α → Option (WalRun α)
  | .append frame op => (r.wal.appendLoc frame op).map fun appended => { r with wal := appended.2 }
  | .event e => (r.wal.event e).map fun next => r.settle next.1 next.2

def run (policy : FsyncPolicy) (file : Bytes) (steps : List (WalStep α)) : Option (WalRun α) :=
  steps.foldlM step { wal := .init policy file }

end WalRun

/-- The offsets follow each other without gaps. -/
def Consecutive (start : Nat) : List (PendingWrite α) → Prop
  | [] => True
  | write :: batch => write.offset = start ∧ Consecutive (start + write.buf.length) batch

theorem Consecutive.append (h : Consecutive start xs)
    (h' : Consecutive (start + (batchBytes xs).length) ys) : Consecutive start (xs ++ ys) := by
  induction xs generalizing start with
  | nil => exact h'
  | cons write xs ih =>
    refine ⟨h.1, ih h.2 ?_⟩
    rw [batchBytes, map_cons, flatten_cons, length_append, ← add_assoc] at h'
    exact h'

/-- A batch being written: its bytes so far end the file. -/
structure Flying (file : Bytes) (lost : Nat) (f : Flush α) (before done : Bytes) : Prop where
  file_eq : file = before ++ done
  batch_eq : batchBytes f.batch = done ++ toWrite f.bufs f.off
  offset_in : OffsetIn f.bufs f.off
  offsets : Consecutive (before.length + lost) f.batch

/-- A resolved append stands in the file, at a distance from its offset that earlier failures
made. -/
structure Stands (file : Bytes) (p : Placed α) : Prop where
  stop_le : p.start + p.write.buf.length ≤ file.length
  slice_eq : slice file p.start p.write.buf.length = p.write.buf
  offset_eq : p.write.offset = p.start + p.lost

structure WalInv (r : WalRun α) : Prop where
  flying : ∀ f, r.wal.inflight = some f → ∃ before done, Flying r.wal.file r.lost f before done
  queued : Consecutive (r.wal.file.length + r.wal.unwritten + r.lost) r.wal.queue
  next_eq : r.wal.nextOffset = r.wal.file.length + r.wal.unwritten + r.lost + (batchBytes r.wal.queue).length
  stands : ∀ p ∈ r.resolved, Stands r.wal.file p

theorem WalInv.start (policy : FsyncPolicy) (file : Bytes) : WalInv ({ wal := .init policy file } : WalRun α) :=
  ⟨nofun, trivial, rfl, nofun⟩

theorem Stands.append (h : Stands file p) (more : Bytes) : Stands (file ++ more) p := by
  constructor
  · rw [length_append]
    exact Nat.le_trans h.stop_le (Nat.le_add_right _ _)
  · rw [slice_append_left h.stop_le, h.slice_eq]
  · exact h.offset_eq

theorem stands_place (before : Bytes) (batch : List (PendingWrite α)) (stop lost : Nat)
    (h : Consecutive (before.length + lost) batch) :
    ∀ p ∈ place before.length stop lost batch, Stands (before ++ batchBytes batch) p := by
  induction batch generalizing before with
  | nil => exact nofun
  | cons write batch ih =>
    have hfile : before ++ batchBytes (write :: batch) = before ++ write.buf ++ batchBytes batch := by
      rw [append_assoc]
      rfl
    rw [hfile]
    intro p hp
    rcases mem_cons.mp hp with rfl | hp
    · constructor
      · simp only [length_append]
        omega
      · exact slice_mid rfl rfl
      · exact h.1
    · apply ih (before ++ write.buf)
      · rw [length_append, add_right_comm]
        exact h.2
      · rw [length_append]
        exact hp

theorem WalInv.append (h : WalInv r)
    (hw : r.wal.appendLoc frame op = some (offset, w)) : WalInv { r with wal := w } := by
  unfold Wal.appendLoc at hw
  split at hw
  · cases hw
  · obtain ⟨rfl, rfl⟩ := Prod.mk.inj (some.inj hw)
    refine ⟨h.flying, ?_, ?_, h.stands⟩
    · apply h.queued.append
      exact ⟨h.next_eq, trivial⟩
    · simp only [h.next_eq, batchBytes, map_append, flatten_append, length_append,
        map_singleton, flatten_singleton]
      exact add_assoc _ _ _

theorem WalInv.flushBatch (h : WalInv r) (hf : r.wal.inflight = none) :
    WalInv { r with
      wal := { r.wal with
        queue := []
        inflight := some { batch := r.wal.queue, bufs := r.wal.queue.map PendingWrite.buf, off := 0 } } }
    := by
  have hunwritten : r.wal.unwritten = 0 := by rw [Wal.unwritten, hf]
  have hbytes : toWrite (r.wal.queue.map PendingWrite.buf) 0 = batchBytes r.wal.queue := by
    cases r.wal.queue with
    | nil => rfl
    | cons _ _ => rfl
  have hqueued := h.queued
  have hnext := h.next_eq
  rw [hunwritten] at hqueued hnext
  refine ⟨?_, trivial, ?_, h.stands⟩
  · rintro f ⟨⟩
    refine ⟨r.wal.file, [], (append_nil _).symm, ?_, ?_, hqueued⟩
    · exact hbytes.symm
    · cases r.wal.queue with
      | nil => trivial
      | cons _ _ => exact Nat.zero_le _
  · show r.wal.nextOffset = r.wal.file.length + (toWrite _ 0).length + r.lost + 0
    rw [hbytes]
    omega

/-- The bytes that one more answer of the system puts into the file. -/
theorem Flying.advance {w : Wal α} (h : Flying w.file lost f before done) (hn : n ≤ (toWrite f.bufs f.off).length) :
    Flying (w.advance f n).file lost
      { f with
        bufs := (consume n f.bufs f.off).1
        off := (consume n f.bufs f.off).2 } before (done ++ (toWrite f.bufs f.off).take n) ∧
      (w.advance f n).file.length + (toWrite (consume n f.bufs f.off).1 (consume n f.bufs f.off).2).length =
        w.file.length + (toWrite f.bufs f.off).length := by
  obtain ⟨hin, hrest⟩ := consume_spec n f.bufs f.off h.offset_in hn
  constructor
  · refine ⟨?_, ?_, hin, h.offsets⟩
    · rw [Wal.advance, h.file_eq, append_assoc]
    · rw [h.batch_eq, hrest, append_assoc, take_append_drop]
  · rw [Wal.advance, hrest, length_append, length_take, length_drop]
    omega

theorem Flying.stands (h : Flying file lost f before done) (hdone : f.bufs = [])
    (stop : Nat) : ∀ p ∈ place (file.length - (batchBytes f.batch).length) stop lost f.batch, Stands file p := by
  have hbatch := h.batch_eq
  rw [hdone, toWrite, append_nil] at hbatch
  have hfile := h.file_eq
  rw [← hbatch] at hfile
  have hbefore : file.length - (batchBytes f.batch).length = before.length := by
    rw [hfile, length_append, Nat.add_sub_cancel]
  rw [hbefore, hfile]
  exact stands_place before f.batch stop lost h.offsets

theorem unwritten_some {w : Wal α} (h : w.inflight = some f) : w.unwritten = (toWrite f.bufs f.off).length := by
  rw [Wal.unwritten, h]

theorem WalInv.moves (h : WalInv r) (hm : r.wal.Moves e w s) : WalInv (r.settle w s) := by
  cases hm with
  | flush hf => exact h.flushBatch hf
  | write f n hf hn =>
    obtain ⟨before, done, hfly⟩ := h.flying f hf
    obtain ⟨hfly', hlength⟩ := hfly.advance hn
    have hqueued := h.queued
    have hnext := h.next_eq
    rw [unwritten_some hf, ← hlength] at hqueued hnext
    refine ⟨?_, hqueued, hnext, ?_⟩
    · rintro f' ⟨⟩
      exact ⟨before, _, hfly'⟩
    · exact fun p hp => (h.stands p hp).append _
  | finish f n hf hn hdone =>
    obtain ⟨before, done, hfly⟩ := h.flying f hf
    obtain ⟨hfly', hlength⟩ := hfly.advance hn
    have hqueued := h.queued
    have hnext := h.next_eq
    rw [unwritten_some hf, ← hlength, hdone] at hqueued hnext
    refine ⟨nofun, hqueued, hnext, ?_⟩
    intro p hp
    rcases mem_append.mp hp with hp | hp
    · exact (h.stands p hp).append _
    · exact hfly'.stands hdone _ p hp
  | resolve f hf hdone =>
    obtain ⟨before, done, hfly⟩ := h.flying f hf
    have hqueued := h.queued
    have hnext := h.next_eq
    rw [unwritten_some hf, hdone] at hqueued hnext
    refine ⟨nofun, hqueued, hnext, ?_⟩
    intro p hp
    rcases mem_append.mp hp with hp | hp
    · exact h.stands p hp
    · exact hfly.stands hdone _ p hp
  | reject f e he hf =>
    have hlost : r.wal.file.length + r.wal.unwritten + r.lost =
        r.wal.file.length + 0 + (r.lost + r.wal.unwritten) := by omega
    have hqueued := h.queued
    have hnext := h.next_eq
    rw [hlost] at hqueued hnext
    exact ⟨nofun, hqueued, hnext, h.stands⟩

theorem WalInv.step (h : WalInv r) (hr : r.step e = some r') : WalInv r' := by
  cases e with
  | append frame op =>
    obtain ⟨⟨offset, w⟩, hw, rfl⟩ := map_eq_some_iff.mp hr
    exact h.append hw
  | event e =>
    obtain ⟨⟨w, s⟩, hw, rfl⟩ := map_eq_some_iff.mp hr
    exact h.moves (Wal.moves_of_event hw)

/-- The offset handed back for an append is where its frame starts in the file. -/
def OffsetRight (p : Placed α) : Prop := p.write.offset = p.start

instance (p : Placed α) : Decidable (OffsetRight p) := inferInstanceAs (Decidable (_ = _))

/-- Every resolved append stands in the file where `start` says, and its offset is right if and
only if no earlier failed batch left bytes unwritten. -/
theorem resolved_offsets (policy : FsyncPolicy) (file : Bytes) (steps : List (WalStep α))
    (r : WalRun α) (hrun : WalRun.run policy file steps = some r) :
    ∀ p ∈ r.resolved, slice r.wal.file p.start p.write.buf.length = p.write.buf ∧
      (OffsetRight p ↔ p.lost = 0) := by
  have hinv : WalInv r :=
    run_invariant (I := WalInv) (fun _ _ _ h hr => h.step hr) (WalInv.start policy file) hrun
  intro p hp
  obtain ⟨_, hslice, hoffset⟩ := hinv.stands p hp
  refine ⟨hslice, ?_⟩
  rw [OffsetRight]
  omega

def failedFirst : List (WalStep Unit) :=
  [.append [1, 2, 3] (), .event .flushBatch, .event .writeFailed, .append [4, 5] (),
    .event .flushBatch, .event (.written 2)]

/-- The second append is told an offset behind the first, which is not in the file. -/
theorem failedFirst_offset :
    ∃ r, WalRun.run .everysec [] failedFirst = some r ∧ ∃ p ∈ r.resolved, ¬ OffsetRight p := by
  decide

def syncFailedFirst : List (WalStep Unit) :=
  [.append [1, 2, 3] (), .event .flushBatch, .event (.written 1), .event (.written 2),
    .event .syncFailed, .append [4, 5] (), .event .flushBatch, .event (.written 2), .event .synced]

theorem resolved_offsets_syncFailedFirst : ∃ r, WalRun.run .always [] syncFailedFirst = some r ∧
      ∀ p ∈ r.resolved, slice r.wal.file p.start p.write.buf.length = p.write.buf ∧
        (OffsetRight p ↔ p.lost = 0) :=
  ⟨_, rfl, resolved_offsets .always [] syncFailedFirst _ rfl⟩

end

def Records {Dt : Type} (codec : MetaCodec Dt) : WalStep (WalWrite Dt) → Prop
  | .append frame op => op.encode codec = .ok frame
  | .event _ => True

instance {Dt : Type} (codec : MetaCodec Dt) (s : WalStep (WalWrite Dt)) : Decidable (Records codec s) :=
  match s with
  | .append .. => inferInstanceAs (Decidable (_ = _))
  | .event _ => isTrue trivial

def resolvedWrites (r : WalRun α) : List (PendingWrite α) := r.resolved.map Placed.write

variable {Dt : Type} {opts : RecoveryOptions Dt} {earlier : List (WalWrite Dt)} {chunks : List Bytes}
  {r r' : WalRun (WalWrite Dt)}

/-- After a crash, recovery replays the earlier writes, then those whose promises resolved, in
order, and after them at most writes of the batch in flight. Nothing rejected is among them. -/
def RecoveryFaithful (opts : RecoveryOptions Dt) (earlier : List (WalWrite Dt)) (r : WalRun (WalWrite Dt)) : Prop :=
  ∃ kept, kept <+: r.wal.flightBatch.map PendingWrite.op ∧
    (readOps opts .wal r.wal.file).map (List.map (List.map (RecoveredOp.read r.wal.file))) =
      .ok ((earlier ++ (resolvedWrites r).map PendingWrite.op ++ kept).map
        fun w => w.ops.map (PreparedOp.replayed opts.now))

def Wal.flightWritten (w : Wal α) : Nat := (batchBytes w.flightBatch).length - w.unwritten

/-- Where the piece of the frame that the crash takes apart starts. -/
def Wal.tornFrom (w : Wal α) : Nat :=
  w.file.length - w.flightWritten + tornStart (w.flightBatch.map PendingWrite.buf) w.flightWritten

/-- A position in the bytes that a rejected batch left in the file. -/
def LeftAt (r : WalRun α) (q : Nat) : Prop := ∃ p ∈ r.rejected, p.start ≤ q ∧ q < p.stop

instance (r : WalRun α) (q : Nat) : Decidable (LeftAt r q) := inferInstanceAs (Decidable (∃ p ∈ r.rejected, _))

/-- No valid frame starts in what rejected batches left, nor within the torn piece at the end. In
strict mode nothing may be left at all, and the torn piece does not matter. -/
structure CrashClean (opts : RecoveryOptions Dt) (r : WalRun (WalWrite Dt)) : Prop where
  strict : opts.mode = .strict → ∀ p ∈ r.rejected, p.stop ≤ p.start
  left : ∀ q < r.wal.file.length, LeftAt r q → ¬ FrameAt r.wal.file q
  torn : opts.mode = .strict ∨ ∀ q < r.wal.file.length, r.wal.tornFrom < q → ¬ FrameAt r.wal.file q

/-- The file holds the earlier frames, those of the resolved writes, what rejected batches left
between them, and last a part of the batch in flight. -/
structure LogInv (codec : MetaCodec Dt) (earlier : List (WalWrite Dt)) (r : WalRun (WalWrite Dt))
    (body done : Bytes) : Prop where
  laid : Laid codec (LeftAt r) 0 (earlier ++ (resolvedWrites r).map PendingWrite.op) body
  file_eq : r.wal.file = body ++ done
  idle : r.wal.inflight = none → done = []
  busy : ∀ f, r.wal.inflight = some f → batchBytes f.batch = done ++ toWrite f.bufs f.off ∧ OffsetIn f.bufs f.off
  queue_encoded : ∀ w ∈ r.wal.queue, w.op.encode codec = .ok w.buf
  flight_encoded : ∀ w ∈ r.wal.flightBatch, w.op.encode codec = .ok w.buf

theorem LogInv.start {codec : MetaCodec Dt} (h : earlier.mapM (WalWrite.encode codec) = .ok chunks)
    (policy : FsyncPolicy) :
    LogInv codec earlier { wal := .init policy chunks.flatten } chunks.flatten [] := by
  refine ⟨?_, (append_nil _).symm, fun _ => rfl, nofun, nofun, nofun⟩
  show Laid _ _ 0 (earlier ++ []) _
  rw [append_nil]
  exact Laid.of_encoded (forall₂_of_mapM h) 0

theorem place_map_write (start stop lost : Nat) (batch : List (PendingWrite α)) :
    (place start stop lost batch).map Placed.write = batch := by
  induction batch generalizing start with
  | nil => rfl
  | cons write batch ih => rw [place, map_cons, ih]

theorem encoded_of_forall {batch : List (PendingWrite (WalWrite Dt))}
    (h : ∀ w ∈ batch, w.op.encode codec = .ok w.buf) :
    List.Forall₂ (fun w frame => w.encode codec = .ok frame) (batch.map PendingWrite.op)
      (batch.map PendingWrite.buf) := by
  rw [forall₂_map_left_iff, forall₂_map_right_iff]
  exact forall₂_same.mpr h

section

variable {codec : MetaCodec Dt} {body done : Bytes}

theorem LogInv.append (h : LogInv codec earlier r body done)
    (hop : op.encode codec = .ok frame) (hw : r.wal.appendLoc frame op = some (offset, w)) :
    LogInv codec earlier { r with wal := w } body done := by
  unfold Wal.appendLoc at hw
  split at hw
  · cases hw
  · obtain ⟨rfl, rfl⟩ := Prod.mk.inj (some.inj hw)
    refine { h with queue_encoded := ?_ }
    intro w hw
    rcases mem_snoc.mp hw with hw | hw
    · exact h.queue_encoded w hw
    · rw [hw]
      exact hop

theorem LogInv.resolved {batch : List (PendingWrite (WalWrite Dt))}
    (h : LogInv codec earlier r body done) (hbatch : ∀ w ∈ batch, w.op.encode codec = .ok w.buf)
    (hidle : w.inflight = none) (hqueue : w.queue = r.wal.queue)
    (hfile : w.file = body ++ batchBytes batch) :
    LogInv codec earlier (r.settle w (some { outcome := .resolved, batch := batch }))
      (body ++ batchBytes batch) [] := by
  have hresolved : resolvedWrites (r.settle w (some { outcome := .resolved, batch := batch })) =
      resolvedWrites r ++ batch := by
    rw [resolvedWrites, WalRun.settle, map_append, place_map_write]
    rfl
  constructor
  · rw [hresolved, map_append, ← append_assoc]
    exact h.laid.append (Laid.of_encoded (encoded_of_forall hbatch) _)
  · rw [append_nil]
    exact hfile
  · exact fun _ => rfl
  · intro f hf
    have hnone : w.inflight = some f := hf
    rw [hidle] at hnone
    cases hnone
  · intro w' hw'
    apply h.queue_encoded
    rw [← hqueue]
    exact hw'
  · intro w' hw'
    have hmem : w' ∈ w.flightBatch := hw'
    rw [Wal.flightBatch, hidle] at hmem
    cases hmem

/-- What a rejected batch has left lies between the start of its first frame and the end of the
file. -/
theorem LogInv.rejected (h : LogInv codec earlier r body done) (hf : r.wal.inflight = some f) :
    LogInv codec earlier
      (r.settle { r.wal with inflight := none } (some { outcome := .rejected, batch := f.batch }))
      (body ++ done) [] := by
  obtain ⟨hbatch, _⟩ := h.busy f hf
  have hlength := congrArg length hbatch
  have hfile := congrArg length h.file_eq
  have hunwritten := unwritten_some hf
  rw [length_append] at hlength hfile
  refine ⟨?_, ?_, fun _ => rfl, nofun, h.queue_encoded, nofun⟩
  · rw [← append_nil (earlier ++ _)]
    apply (h.laid.mono _).append
    · rw [← append_nil done]
      apply Laid.piece _ .nil
      intro q hq hq'
      cases hb : f.batch with
      | nil =>
        rw [hb] at hlength
        exact absurd hlength (by simp only [batchBytes, map_nil, flatten_nil, length_nil]; omega)
      | cons write batch =>
        refine ⟨_, mem_append_right _ mem_cons_self, ?_, ?_⟩
        · show r.wal.file.length + r.wal.unwritten - (batchBytes (write :: batch)).length ≤ q
          rw [← hb]
          omega
        · show q < r.wal.file.length
          omega
    · rintro q ⟨p, hp, hpq⟩
      exact ⟨p, mem_append_left _ hp, hpq⟩
  · rw [append_nil]
    exact h.file_eq

theorem LogInv.moves (h : LogInv codec earlier r body done) (hm : r.wal.Moves e w s) :
    ∃ body' done', LogInv codec earlier (r.settle w s) body' done' := by
  cases hm with
  | flush hf =>
    refine ⟨body, [], h.laid, ?_, fun _ => rfl, ?_, nofun, h.queue_encoded⟩
    · rw [← h.idle hf]
      exact h.file_eq
    · rintro f ⟨⟩
      constructor
      · cases r.wal.queue with
        | nil => rfl
        | cons _ _ => rfl
      · cases r.wal.queue with
        | nil => trivial
        | cons _ _ => exact Nat.zero_le _
  | write f n hf hn =>
    obtain ⟨hbatch, hin⟩ := h.busy f hf
    obtain ⟨hin', hrest⟩ := consume_spec n f.bufs f.off hin hn
    refine ⟨body, done ++ (toWrite f.bufs f.off).take n, h.laid, ?_, nofun, ?_, h.queue_encoded, ?_⟩
    · show r.wal.file ++ _ = _
      rw [h.file_eq, append_assoc]
    · rintro f' ⟨⟩
      refine ⟨?_, hin'⟩
      rw [hbatch, hrest, append_assoc, take_append_drop]
    · have henc := h.flight_encoded
      rw [flightBatch_some hf] at henc
      exact henc
  | finish f n hf hn hdone =>
    obtain ⟨hbatch, hin⟩ := h.busy f hf
    obtain ⟨_, hrest⟩ := consume_spec n f.bufs f.off hin hn
    rw [hdone] at hrest
    have henc := h.flight_encoded
    rw [flightBatch_some hf] at henc
    refine ⟨_, _, h.resolved henc rfl rfl ?_⟩
    show r.wal.file ++ _ = _
    rw [h.file_eq, hbatch, append_assoc]
    conv_rhs => rw [← take_append_drop n (toWrite f.bufs f.off), ← hrest]
    rw [toWrite, append_nil]
  | resolve f hf hdone =>
    obtain ⟨hbatch, _⟩ := h.busy f hf
    rw [hdone, toWrite, append_nil] at hbatch
    have henc := h.flight_encoded
    rw [flightBatch_some hf] at henc
    refine ⟨_, _, h.resolved henc rfl rfl ?_⟩
    rw [hbatch]
    exact h.file_eq
  | reject f e he hf => exact ⟨_, _, h.rejected hf⟩

end

theorem LogInv.step
    (h : ∃ body done, LogInv codec earlier r body done) (hrecords : Records codec s)
    (hr : r.step s = some r') : ∃ body done, LogInv codec earlier r' body done := by
  obtain ⟨body, done, h⟩ := h
  cases s with
  | append frame op =>
    obtain ⟨⟨offset, w⟩, hw, rfl⟩ := map_eq_some_iff.mp hr
    exact ⟨body, done, h.append hrecords hw⟩
  | event e =>
    obtain ⟨⟨w, s⟩, hw, rfl⟩ := map_eq_some_iff.mp hr
    exact h.moves (Wal.moves_of_event hw)

theorem LogInv.done_eq (h : LogInv codec earlier r body done) :
    done = (r.wal.flightBatch.map PendingWrite.buf).flatten.take done.length ∧
      r.wal.flightWritten = done.length := by
  rw [Wal.flightWritten, Wal.flightBatch, Wal.unwritten]
  cases hf : r.wal.inflight with
  | none =>
    rw [h.idle hf]
    exact ⟨rfl, rfl⟩
  | some f =>
    have hbatch := (h.busy f hf).1
    have hbytes : (f.batch.map PendingWrite.buf).flatten = done ++ toWrite f.bufs f.off := hbatch
    constructor
    · rw [hbytes, take_left]
    · rw [hbatch, length_append]
      exact Nat.add_sub_cancel _ _

theorem LogInv.recovers (h : LogInv opts.codec earlier r body done) (hclean : CrashClean opts r) :
    RecoveryFaithful opts earlier r := by
  obtain ⟨hdone, hwritten⟩ := h.done_eq
  have hflight := encoded_of_forall h.flight_encoded
  obtain ⟨torn, htake, htorn⟩ := take_flatten (r.wal.flightBatch.map PendingWrite.buf) done.length
  have htornFrom : r.wal.tornFrom = (body ++ ((r.wal.flightBatch.map PendingWrite.buf).take
      (wholeCount (r.wal.flightBatch.map PendingWrite.buf) done.length)).flatten).length := by
    rw [Wal.tornFrom, hwritten, h.file_eq, tornStart, length_append, Nat.add_sub_cancel, length_append]
  generalize wholeCount (r.wal.flightBatch.map PendingWrite.buf) done.length = n at htake htornFrom
  generalize hwhole : ((r.wal.flightBatch.map PendingWrite.buf).take n).flatten = whole
    at htake htornFrom
  have hfile : r.wal.file = body ++ whole ++ torn := by
    rw [h.file_eq, hdone, htake, append_assoc]
  refine ⟨(r.wal.flightBatch.map PendingWrite.op).take n, take_prefix _ _, ?_⟩
  have hlaid : Laid opts.codec (LeftAt r) 0 (earlier ++ (resolvedWrites r).map PendingWrite.op ++
      (r.wal.flightBatch.map PendingWrite.op).take n) (body ++ whole) := by
    rw [← hwhole]
    exact h.laid.append (Laid.of_encoded (forall₂_take n hflight) _)
  have hblank : ∀ q, LeftAt r q → ¬ FrameAt r.wal.file q :=
    fun q hq hat => hclean.left q hat.lt hq hat
  have hmode : opts.mode = .strict → ∀ q, ¬ LeftAt r q := by
    rintro hm q ⟨p, hp, hle, hlt⟩
    have := hclean.strict hm p hp
    omega
  have htail : opts.mode = .strict ∨ ∀ q, (body ++ whole).length < q → ¬ FrameAt r.wal.file q := by
    rcases hclean.torn with hm | htorn
    · exact .inl hm
    · rw [htornFrom] at htorn
      exact .inr fun q hq hat => htorn q hat.lt hq hat
  rw [hfile] at hblank htail ⊢
  exact (readOps_laid .wal hlaid hblank hmode (not_frameAt_tail hflight _ htorn)).mpr htail

/-- Whatever the outcomes of the writes and wherever the crash: if no valid frame starts in what
rejected batches left or within the torn piece, recovery is faithful. -/
theorem recovery_faithful (opts : RecoveryOptions Dt) (earlier : List (WalWrite Dt))
    (chunks : List Bytes) (hearlier : earlier.mapM (WalWrite.encode opts.codec) = .ok chunks)
    (policy : FsyncPolicy) (steps : List (WalStep (WalWrite Dt)))
    (hrecords : ∀ s ∈ steps, Records opts.codec s) (r : WalRun (WalWrite Dt))
    (hrun : WalRun.run policy chunks.flatten steps = some r) (hclean : CrashClean opts r) :
    RecoveryFaithful opts earlier r := by
  have halong : AlongRun WalRun.step (fun _ => Records opts.codec)
      { wal := .init policy chunks.flatten } steps := AlongRun.of_forall hrecords
  obtain ⟨body, done, hinv⟩ := halong.invariant
    (fun _ _ _ h hrecords hr => LogInv.step h hrecords hr) ⟨_, _, LogInv.start hearlier policy⟩ hrun
  exact hinv.recovers hclean

def syncFailed : List (WalStep (WalWrite Unit)) :=
  [.append (frameOf embeddedDel) (.single (.del [0x61])), .event .flushBatch,
    .event (.written (frameOf embeddedDel).length), .event .syncFailed]

/-- Recovery brings the rejected deletion back. -/
theorem syncFailed_recovered : (∀ s ∈ syncFailed, Records emptyColumns s) ∧
      ∃ r, WalRun.run .always [] syncFailed = some r ∧
        r.rejected.map (fun p => p.write.op) = [.single (.del [0x61])] ∧ r.resolved = [] ∧
        (readOps resyncOptions .wal r.wal.file).map
          (map (map (RecoveredOp.read r.wal.file))) = .ok [[.del [0x61]]] := by
  refine ⟨?_, _, rfl, ?_⟩
  · decide +kernel
  · decide +kernel

/-- A batch that fails halfway, one that is written, and a crash within a third. -/
def shortWrite : List (WalStep (WalWrite Unit)) :=
  [.append (frameOf embeddedDel) (.single (.del [0x61])), .event .flushBatch, .event (.written 9),
    .event .writeFailed, .append (frameOf (plainOp.toBatchOp emptyColumns)) (.single plainOp),
    .event .flushBatch, .event (.written 37), .event .synced,
    .append (frameOf embeddedDel) (.single (.del [0x61])), .event .flushBatch, .event (.written 5)]

theorem recovery_faithful_shortWrite : ∃ r, WalRun.run .always (frameOf embeddedDel) shortWrite = some r ∧
      RecoveryFaithful resyncOptions [.single (.del [0x61])] r := by
  refine ⟨_, rfl, ?_⟩
  apply recovery_faithful resyncOptions [.single (.del [0x61])] [frameOf embeddedDel] (by decide +kernel)
    .always shortWrite (by decide +kernel)
  · rfl
  · constructor
    · decide +kernel
    · decide +kernel
    · decide +kernel

end Echadron.MiniDb
