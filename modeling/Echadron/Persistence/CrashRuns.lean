import Echadron.Lib.Runs
import Echadron.Persistence.LogReader

namespace Echadron.Persistence
open Lib List Option

variable {R : Type}

/-! Runs of appends on a log that crashes and failures cut short. -/

/-- The file of a log, and the buffer of its present owner. -/
structure CrashLog (R : Type) where
  file : Bytes := []
  pending : List R := []
  /-- The batch whose `storage.append` is under way. -/
  batch : Option (List R) := none
  storageFailure : Bool := false
  /-- The records whose append has been acknowledged. -/
  acknowledged : List R := []
deriving DecidableEq

/-- An append that fails, or during which the process dies, leaves the first `written` bytes of its
batch. The next owner of a log starts with the records that were queued while the one before it
drained. -/
inductive CrashEvent (R : Type) where
  | append (record : R)
  | drain
  | appended
  | failed (written : Nat)
  | crash (written : Nat)
  | handOff (queued : List R)

namespace CrashLog

variable (stringify : R → Bytes) (log : CrashLog R)

/-- What an event adds to the file. -/
def writes : CrashEvent R → Bytes
  | .appended => log.batch.elim [] (encodeBatch stringify)
  | .failed written | .crash written => log.batch.elim [] fun batch => (encodeBatch stringify batch).take written
  | _ => []

def step (event : CrashEvent R) : Option (CrashLog R) :=
  let file := log.file ++ log.writes stringify event
  match event with
  | .append record => some { log with pending := log.pending ++ [record] }
  | .drain =>
    if log.batch = none ∧ log.pending ≠ [] ∧ log.storageFailure = false then
      some { log with batch := some log.pending }
    else none
  | .appended => log.batch.map fun batch =>
    { log with
      file := file
      pending := log.pending.drop batch.length
      batch := none
      acknowledged := log.acknowledged ++ batch }
  | .failed _ => log.batch.map fun _ =>
    { log with
      file := file
      batch := none
      storageFailure := true }
  | .crash _ => some { file := file, acknowledged := log.acknowledged }
  | .handOff queued =>
    if log.batch = none ∧ (log.pending = [] ∨ log.storageFailure) then
      some { file := log.file, pending := queued, acknowledged := log.acknowledged }
    else none

/-- A line is only ended where the file has no torn one. -/
def Unbroken (log : CrashLog R) (event : CrashEvent R) : Prop :=
  10 ∈ log.writes stringify event → ∀ b ∈ log.file.getLast?, b = 10

instance Unbroken.decidable (log : CrashLog R) (event : CrashEvent R) : Decidable (log.Unbroken stringify event) :=
  inferInstanceAs (Decidable (10 ∈ log.writes stringify event → ∀ b ∈ log.file.getLast?, b = 10))

end CrashLog

theorem encodeBatch_cons (stringify : R → Bytes) (record : R) (records : List R) :
    encodeBatch stringify (record :: records) = stringify record ++ 10 :: encodeBatch stringify records := by
  simp [encodeBatch]

theorem begins_encodeBatch (hplain : ∀ record, 10 ∉ stringify record) (h : written <+: encodeBatch stringify batch) :
    ∃ done tail, written = encodeBatch stringify done ++ tail ∧ 10 ∉ tail := by
  induction batch generalizing written with
  | nil => exact ⟨[], written, rfl, by rw [prefix_nil.mp h]; exact not_mem_nil⟩
  | cons record batch ih =>
    obtain ⟨rest, hrest⟩ := h
    rw [encodeBatch_cons] at hrest
    rcases append_eq_append_iff.mp hrest with ⟨more, hrecord, _⟩ | ⟨more, rfl, hmore⟩
    · refine ⟨[], written, rfl, ?_⟩
      intro hmem
      exact hplain record (hrecord ▸ mem_append_left _ hmem)
    · cases more with
      | nil =>
        rw [append_nil]
        exact ⟨[], stringify record, rfl, hplain record⟩
      | cons b more =>
        obtain ⟨rfl, hnext⟩ := cons_eq_cons.mp hmore
        obtain ⟨done, tail, rfl, htail⟩ := ih ⟨rest, hnext.symm⟩
        refine ⟨record :: done, tail, ?_, htail⟩
        rw [encodeBatch_cons, append_assoc, cons_append]

def CrashLog.Whole (stringify : R → Bytes) (log : CrashLog R) : Prop :=
  ∃ done tail, log.file = encodeBatch stringify done ++ tail ∧ 10 ∉ tail ∧ log.acknowledged.Sublist done

variable {codec : LineCodec R} {log log' : CrashLog R} {event : CrashEvent R}

theorem tail_eq_nil {file tail : Bytes} (htail : 10 ∉ tail) (h : ∀ b ∈ (file ++ tail).getLast?, b = 10) :
    tail = [] := by
  by_contra hne
  obtain ⟨last, hlast⟩ := ne_none_iff_exists'.mp (getLast?_eq_none_iff.not.mpr hne)
  have hnewline : last = 10 := h last (by rw [getLast?_append, hlast]; rfl)
  exact htail (hnewline ▸ mem_of_getLast? hlast)

theorem CrashLog.Whole.write (h : log.Whole codec.stringify) {batch : List R}
    (hwritten : written <+: encodeBatch codec.stringify batch)
    (haligned : 10 ∈ written → ∀ b ∈ log.file.getLast?, b = 10) :
    ∃ done tail, log.file ++ written = encodeBatch codec.stringify done ++ tail ∧ 10 ∉ tail ∧
      log.acknowledged.Sublist done := by
  obtain ⟨done, tail, hfile, htail, hsublist⟩ := h
  by_cases hmem : 10 ∈ written
  · have hnil := tail_eq_nil htail (hfile ▸ haligned hmem)
    obtain ⟨more, rest, rfl, hrest⟩ := begins_encodeBatch codec.newline_not_mem hwritten
    refine ⟨done ++ more, rest, ?_, hrest, hsublist.trans (sublist_append_left ..)⟩
    rw [hfile, hnil, append_nil, encodeBatch_append, append_assoc]
  · refine ⟨done, tail ++ written, ?_, ?_, hsublist⟩
    · rw [hfile, append_assoc]
    · rw [mem_append, not_or]
      exact ⟨htail, hmem⟩

theorem CrashLog.Whole.acknowledge (h : log.Whole codec.stringify) {batch : List R}
    (haligned : 10 ∈ encodeBatch codec.stringify batch → ∀ b ∈ log.file.getLast?, b = 10) :
    ∃ done tail, log.file ++ encodeBatch codec.stringify batch = encodeBatch codec.stringify done ++ tail ∧
      10 ∉ tail ∧ (log.acknowledged ++ batch).Sublist done := by
  cases batch with
  | nil =>
    rw [encodeBatch_nil, append_nil, append_nil]
    exact h
  | cons record batch =>
    obtain ⟨done, tail, hfile, htail, hsublist⟩ := h
    have hmem : 10 ∈ encodeBatch codec.stringify (record :: batch) := by
      rw [encodeBatch_cons]
      exact mem_append_right _ mem_cons_self
    have hnil := tail_eq_nil htail (hfile ▸ haligned hmem)
    refine ⟨done ++ record :: batch, [], ?_, not_mem_nil, hsublist.append (List.Sublist.refl _)⟩
    rw [hfile, hnil, append_nil, append_nil, encodeBatch_append]

theorem CrashLog.Whole.step (h : log.Whole codec.stringify) (hunbroken : log.Unbroken codec.stringify event)
    (hstep : log.step codec.stringify event = some log') : log'.Whole codec.stringify := by
  cases event with
  | append record =>
    cases hstep
    exact h
  | drain =>
    obtain ⟨_, hnext⟩ := ite_none_right_eq_some.mp hstep
    cases hnext
    exact h
  | appended =>
    obtain ⟨batch, hbatch, rfl⟩ := map_eq_some_iff.mp hstep
    rw [CrashLog.Unbroken, writes, hbatch] at hunbroken
    rw [writes, hbatch]
    exact h.acknowledge hunbroken
  | failed written =>
    obtain ⟨batch, hbatch, rfl⟩ := map_eq_some_iff.mp hstep
    rw [CrashLog.Unbroken, writes, hbatch] at hunbroken
    rw [writes, hbatch]
    exact h.write ( take_prefix ..) hunbroken
  | crash written =>
    cases hstep
    rw [CrashLog.Unbroken, writes] at hunbroken
    rw [writes]
    cases hbatch : log.batch with
    | none =>
      rw [elim_none, append_nil]
      exact h
    | some batch =>
      rw [hbatch] at hunbroken
      exact h.write ( take_prefix ..) hunbroken
  | handOff queued =>
    obtain ⟨_, hnext⟩ := ite_none_right_eq_some.mp hstep
    cases hnext
    exact h

/-- However a log is cut short and gone on with: where no batch continues a torn line, reading it finds
no corruption and yields what was acknowledged, in order. -/
theorem readLog_of_run (codec : LineCodec R) {events : List (CrashEvent R)}
    (hrun : events.foldlM (CrashLog.step codec.stringify) {} = some log)
    (halong : AlongRun (CrashLog.step codec.stringify) (CrashLog.Unbroken codec.stringify) {} events)
    {chunks : List Bytes} (hchunks : chunks.flatten = log.file) :
    ∃ records, readLog codec chunks = .ok records ∧ log.acknowledged.Sublist records := by
  have hstart : CrashLog.Whole codec.stringify ({} : CrashLog R) :=
    ⟨[], [], rfl, not_mem_nil, List.Sublist.refl _⟩
  obtain ⟨done, tail, hfile, htail, hsublist⟩ : log.Whole codec.stringify :=
    halong.invariant (fun _ _ _ h hunbroken hstep => h.step hunbroken hstep) hstart hrun
  obtain ⟨more, hread⟩ := readLog_encodeBatch htail (hchunks.trans hfile)
  exact ⟨done ++ more, hread, hsublist.trans (sublist_append_left ..)⟩

def numbered : Bool → Bytes
  | false => [123, 34, 110, 34, 58, 49, 125]
  | true => [123, 34, 110, 34, 58, 50, 125]

/-- `\x7b"n":1\x7d` and `\x7b"n":2\x7d`. -/
def numberedCodec : LineCodec Bool where
  stringify := numbered
  parse line := if line = numbered false then some false else if line = numbered true then some true else none
  stringify_ne_nil := by decide
  newline_not_mem := by decide
  return_not_mem := by decide
  parse_stringify := by decide

def logOf (events : List (CrashEvent Bool)) : CrashLog Bool := (events.foldlM (CrashLog.step numbered) {}).getD {}

/-- A crash after a whole line, an append that fails before its first byte, and a crash within a line. -/
def restartedRun : List (CrashEvent Bool) :=
  [.append false, .drain, .appended, .append true, .drain, .crash 8, .append true, .drain, .failed 0,
    .handOff [false], .drain, .appended, .append true, .drain, .crash 3]

theorem readLog_of_restartedRun : ∃ records,
    readLog numberedCodec [(logOf restartedRun).file] = .ok records ∧ [false, false].Sublist records := by
  have hrun : restartedRun.foldlM (CrashLog.step numberedCodec.stringify) {} = some (logOf restartedRun) := rfl
  exact readLog_of_run numberedCodec hrun (by decide +kernel) (append_nil _)

/-- The process dies within a line, and the next owner appends to it. -/
def tornRun : List (CrashEvent Bool) := [.append false, .drain, .crash 4, .append true, .drain, .appended]

/-- Reading the log reports corruption, and nothing that was acknowledged is read. -/
theorem readLog_of_tornRun : tornRun.foldlM (CrashLog.step numbered) {} = some (logOf tornRun) ∧
    (logOf tornRun).acknowledged = [true] ∧ readLog numberedCodec [(logOf tornRun).file] = .error 1 :=
  ⟨rfl, rfl, rfl⟩

end Echadron.Persistence
