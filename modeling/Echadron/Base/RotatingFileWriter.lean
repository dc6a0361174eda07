import Mathlib.Algebra.Ring.Nat
import Echadron.Lib.Runs
import Mathlib.Algebra.BigOperators.Group.List.Basic
import Mathlib.Data.List.Pairwise

namespace Echadron.Base
open Lib

/-! The log writer that rotates its files. Lines are numbered in the order in which they are enqueued. -/

/-- What stands in a log file; `earlier` is what was there before the writer. -/
inductive LogEntry (Text : Type) where
  | line (number : Nat) (text : Text)
  | notice (count : Nat)
  | earlier (text : Text)
deriving DecidableEq

structure RotatingFileWriterOptions (Text : Type) where
  maxBytes : Nat
  files : Nat
  byteLength : Text → Nat

/-- What a drain waits for; `rename i` moves the file `.i`, or the current one for 0, one place up. -/
inductive LogOperation where
  | mkdir
  | stat
  | append
  | rename (i : Nat)
  | unlink
  | syncDir
deriving DecidableEq

/-- A drain of `lines`: `chunk` is what will be appended next, and `rest` what is not packed yet. -/
structure LogDrain (Text : Type) where
  lines : List (LogEntry Text)
  chunk : List (LogEntry Text)
  rest : List (LogEntry Text)
  awaits : LogOperation
deriving DecidableEq

/-- `disk` holds the current file and the rotated ones, from the newest to `.files`; `currentBytes` is absent before
the first `stat`. `enqueued` are the lines that were taken, and `rotatedOut` is what went with the oldest files. -/
structure RotatingFileWriter (Text : Type) where
  pending : List (LogEntry Text) := []
  dropped : Nat := 0
  closed : Bool := false
  currentBytes : Option Nat := none
  directorySynced : Bool := false
  disk : List (Option (List (LogEntry Text)))
  draining : Option (LogDrain Text) := none
  enqueued : List Text := []
  rotatedOut : List (LogEntry Text) := []
deriving DecidableEq

inductive FlushSyncOutcome where
  | noDirectory
  | notAppended
  | appended
deriving DecidableEq

inductive LogWriterEvent (Text : Type) where
  | enqueue (text : Text)
  | drain
  | succeeds
  | fails
  | flushSync (outcome : FlushSyncOutcome)
  | close
deriving DecidableEq

def pendingMax : Nat := 1000

def droppedNotice (count : Nat) : String := s!"... dropped {count} entries ...\n"

variable {Text : Type}

def LogEntry.bytes (byteLength : Text → Nat) : LogEntry Text → Nat
  | .line _ text | .earlier text => byteLength text
  | .notice count => (droppedNotice count).utf8ByteSize

def LogEntry.isNotice : LogEntry Text → Bool
  | .notice _ => true
  | _ => false

def bytesOf (byteLength : Text → Nat) (entries : List (LogEntry Text)) : Nat :=
  (entries.map (LogEntry.bytes byteLength)).sum

/-- The content of the files from the oldest on. -/
def chronological : List (Option (List (LogEntry Text))) → List (LogEntry Text)
  | [] => []
  | file :: older => chronological older ++ file.getD []

/-- The files after a file went one place up, and what was overwritten. A file that is not there is passed over. -/
def renameFile : Nat → List (Option (List (LogEntry Text))) →
    List (Option (List (LogEntry Text))) × List (LogEntry Text)
  | 0, some file :: overwritten :: older => (none :: some file :: older, overwritten.getD [])
  | i + 1, file :: older => (file :: (renameFile i older).1, (renameFile i older).2)
  | _, disk => (disk, [])

inductive Packed where
  | append
  | rotate
  | through
deriving DecidableEq

def appendLines (o : RotatingFileWriterOptions Text) (currentBytes : Nat) (chunk : List (LogEntry Text)) :
    List (LogEntry Text) → List (LogEntry Text) × List (LogEntry Text) × Packed
  | [] => (chunk, [], if 0 < bytesOf o.byteLength chunk then .append else .through)
  | line :: rest =>
    if 0 < bytesOf o.byteLength chunk ∧ (o.maxBytes < bytesOf o.byteLength chunk + line.bytes o.byteLength ∨
        o.maxBytes < currentBytes + bytesOf o.byteLength chunk + line.bytes o.byteLength) then
      (chunk, line :: rest, .append)
    else if bytesOf o.byteLength chunk = 0 ∧ 0 < currentBytes ∧
        o.maxBytes < currentBytes + line.bytes o.byteLength then
      (chunk, line :: rest, .rotate)
    else appendLines o currentBytes (chunk ++ [line]) rest

namespace RotatingFileWriter

section

variable (s : RotatingFileWriter Text)

def enqueue (text : Text) : RotatingFileWriter Text :=
  if s.closed then s
  else
    let entry := .line s.enqueued.length text
    if pendingMax ≤ s.pending.length then
      { s with
        pending := s.pending.tail ++ [entry]
        dropped := s.dropped + 1
        enqueued := s.enqueued ++ [text] }
    else { s with pending := s.pending ++ [entry], enqueued := s.enqueued ++ [text] }

def takeDroppedNotice : List (LogEntry Text) :=
  if s.dropped = 0 then [] else [.notice s.dropped]

def drain : RotatingFileWriter Text :=
  if s.pending = [] then s
  else
    let lines := s.pending ++ s.takeDroppedNotice
    { s with pending := [], dropped := 0, draining := some ⟨lines, [], lines, .mkdir⟩ }

def restorePending (lines : List (LogEntry Text)) : RotatingFileWriter Text :=
  let restored := lines ++ s.pending
  let overflow := restored.length - pendingMax
  { s with pending := restored.drop overflow, dropped := s.dropped + overflow }

def await (d : LogDrain Text) (operation : LogOperation) : RotatingFileWriter Text :=
  { s with draining := some { d with awaits := operation } }

end

section

variable (o : RotatingFileWriterOptions Text) (s : RotatingFileWriter Text) (d : LogDrain Text)

/-- The rename that a rotation starts with. -/
def rotate : RotatingFileWriter Text := s.await d (.rename (o.files - 2))

def goOn : RotatingFileWriter Text :=
  match appendLines o (s.currentBytes.getD 0) d.chunk d.rest with
  | (chunk, rest, .append) => s.await { d with chunk, rest } .append
  | (chunk, rest, .rotate) => s.rotate o { d with chunk, rest }
  | (chunk, rest, .through) =>
    if s.directorySynced then { s with draining := none } else s.await { d with chunk, rest } .syncDir

end

def currentFile (s : RotatingFileWriter Text) : List (LogEntry Text) := (s.disk.head?.getD none).getD []

def appendFile (s : RotatingFileWriter Text) (chunk : List (LogEntry Text)) : RotatingFileWriter Text :=
  { s with disk := some (s.currentFile ++ chunk) :: s.disk.tail }

section

variable (o : RotatingFileWriterOptions Text) (s : RotatingFileWriter Text) (d : LogDrain Text)

def appendChunk : RotatingFileWriter Text :=
  let currentBytes := s.currentBytes.getD 0 + bytesOf o.byteLength d.chunk
  let s := { s.appendFile d.chunk with currentBytes := some currentBytes }
  let d := { d with chunk := [] }
  if o.maxBytes ≤ currentBytes then s.rotate o d else s.goOn o d

/-- The operation that the drain waits for has succeeded. -/
def succeed : RotatingFileWriter Text :=
  match d.awaits with
  | .mkdir => if s.currentBytes.isSome then s.goOn o d else s.await d .stat
  | .stat => goOn o { s with currentBytes := some (bytesOf o.byteLength s.currentFile) } d
  | .append => s.appendChunk o d
  | .rename i =>
    let s := { s with disk := (renameFile i s.disk).1, rotatedOut := s.rotatedOut ++ (renameFile i s.disk).2 }
    match i with
    | 0 => s.await d .unlink
    | i + 1 => s.await d (.rename i)
  | .unlink => goOn o
    { s with
      disk := s.disk.set o.files none
      rotatedOut := s.rotatedOut ++ (s.disk[o.files]?.getD none).getD []
      currentBytes := some 0
      directorySynced := false } d
  | .syncDir => { s with directorySynced := true, draining := none }

end

def fail (s : RotatingFileWriter Text) (d : LogDrain Text) : RotatingFileWriter Text :=
  { s with draining := none }.restorePending d.lines

/-- It neither rotates nor counts the bytes. -/
def flushSync (s : RotatingFileWriter Text) (outcome : FlushSyncOutcome) : RotatingFileWriter Text :=
  if s.closed ∨ s.pending = [] then s
  else
    match outcome with
    | .noDirectory => s
    | .notAppended => { s with pending := [], dropped := 0 }
    | .appended => { s with pending := [], dropped := 0 }.appendFile (s.pending ++ s.takeDroppedNotice)

/-- One step; absent where the event cannot happen: drains wait for one another. -/
def step (o : RotatingFileWriterOptions Text) (s : RotatingFileWriter Text) :
    LogWriterEvent Text → Option (RotatingFileWriter Text)
  | .enqueue text => some (s.enqueue text)
  | .drain => if s.draining.isNone then some s.drain else none
  | .succeeds => s.draining.map fun d => s.succeed o d
  | .fails => s.draining.map fun d => s.fail d
  | .flushSync outcome => some (s.flushSync outcome)
  | .close => some { s with closed := true }

/-- An operation fails only before its drain has written anything, the entries for which there is no room are no
notices, and `flushSync` finds nothing to write. -/
def Undisturbed (s : RotatingFileWriter Text) : LogWriterEvent Text → Prop
  | .enqueue _ => s.closed = false → pendingMax ≤ s.pending.length →
    ∀ entry ∈ s.pending.head?, entry.isNotice = false
  | .fails => ∀ d ∈ s.draining, d.chunk ++ d.rest = d.lines ∧
    ∀ entry ∈ (d.lines ++ s.pending).take ((d.lines ++ s.pending).length - pendingMax), entry.isNotice = false
  | .flushSync _ => s.closed = true ∨ s.pending = []
  | _ => True

instance [DecidableEq Text] (s : RotatingFileWriter Text) (e : LogWriterEvent Text) : Decidable (s.Undisturbed e) :=
  match e with
  | .enqueue _ => inferInstanceAs (Decidable (_ → _))
  | .fails => inferInstanceAs (Decidable (∀ d ∈ s.draining, _))
  | .flushSync _ => inferInstanceAs (Decidable (_ ∨ _))
  | .drain | .succeeds | .close => isTrue trivial

end RotatingFileWriter

def lineNumber : LogEntry Text → Option Nat
  | .line number _ => some number
  | _ => none

def lineNumbers (entries : List (LogEntry Text)) : List Nat := entries.filterMap lineNumber

/-- How many lines an entry stands for: a line that is not empty for itself, a notice for those that it counts. -/
def accountsFor (byteLength : Text → Nat) : LogEntry Text → Nat
  | .line _ text => if 0 < byteLength text then 1 else 0
  | .notice count => count
  | .earlier _ => 0

def accountedFor (byteLength : Text → Nat) (entries : List (LogEntry Text)) : Nat :=
  (entries.map (accountsFor byteLength)).sum

/-- Within the limit, or a single longer line. -/
def Fits (o : RotatingFileWriterOptions Text) (file : List (LogEntry Text)) : Prop :=
  bytesOf o.byteLength file ≤ o.maxBytes ∨
    ∃ entry, file.filter (fun entry => 0 < entry.bytes o.byteLength) = [entry]

/-- Lines stand on the disk as they were enqueued, in their order and each once, those that were rotated out are older
than all others; and once nothing waits, every line is there, was rotated out or is counted in a notice. -/
structure RotatingFileWriter.Kept (o : RotatingFileWriterOptions Text) (s : RotatingFileWriter Text) : Prop where
  texts : ∀ number text, .line number text ∈ s.rotatedOut ++ chronological s.disk → s.enqueued[number]? = some text
  ordered : (lineNumbers (s.rotatedOut ++ chronological s.disk)).Pairwise (· < ·)
  accounted : s.draining = none → s.pending = [] → (s.enqueued.filter fun text => 0 < o.byteLength text).length ≤
      accountedFor o.byteLength (s.rotatedOut ++ chronological s.disk)
  fits : ∀ file, some file ∈ s.disk → Fits o file

end Echadron.Base
