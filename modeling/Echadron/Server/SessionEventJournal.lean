import Echadron.Lib.Runs
import Mathlib.Data.List.Perm.Subperm
import Mathlib.Data.List.Range

namespace Echadron.Server
open Lib List Option

/-! The journal of a session's durable events, and the replay of what a client has missed. -/

structure JournalEntry (P : Type) where
  seq : Nat
  envelope : P
deriving DecidableEq

inductive JournalLine (P : Type) where
  | header (epoch : Nat)
  | event (entry : JournalEntry P)
deriving DecidableEq

/-- The text of a line in a file. What is not the text of one line does not parse: neither does the
beginning of a line, nor do two texts without a line break between them. -/
inductive JournalText (P : Type) where
  | line (line : JournalLine P)
  | torn
deriving DecidableEq

def parseJournalLine : JournalText P → Option (JournalLine P)
  | .line line => some line
  | .torn => none

structure JournalFile (P : Type) where
  lines : List (JournalText P) := []
  /-- The text after the last line break. -/
  rest : Option (JournalText P) := none
deriving DecidableEq

/-- How much there is of the line after the last one that is complete. -/
inductive PartialLine where
  | beginning
  /-- All but its line break. -/
  | whole
deriving DecidableEq

/-- How much of a batch of lines gets to the file. -/
structure Landed where
  lines : Nat
  rest : Option PartialLine := none
deriving DecidableEq

namespace JournalFile

section

variable (file : JournalFile P)

def join (text : JournalText P) : JournalText P :=
  if file.rest.isSome then .torn else text

def writeLine (line : JournalLine P) : JournalFile P := { lines := file.lines ++ [file.join (.line line)] }

def writeRest (line : JournalLine P) : PartialLine → JournalFile P
  | .beginning => { file with rest := some .torn }
  | .whole => { file with rest := some (file.join (.line line)) }

def appendFile (lines : List (JournalLine P)) (landed : Landed) : JournalFile P :=
  let file := (lines.take landed.lines).foldl writeLine file
  match lines[landed.lines]?, landed.rest with
  | some line, some rest => file.writeRest line rest
  | _, _ => file

def readLines : List (JournalText P) := file.lines ++ file.rest.toList

def parsed : List (JournalLine P) := file.readLines.filterMap parseJournalLine

end

end JournalFile

def JournalLine.epoch? : JournalLine P → Option Nat
  | .header epoch => some epoch
  | .event _ => none

def JournalLine.entry? : JournalLine P → Option (JournalEntry P)
  | .header _ => none
  | .event entry => some entry

def entriesOf (lines : List (JournalLine P)) : List (JournalEntry P) := lines.filterMap JournalLine.entry?

/-- The first header of a file. -/
def epochOf (lines : List (JournalLine P)) : Option Nat := lines.findSome? JournalLine.epoch?

def lastSeqOf (lines : List (JournalLine P)) : Nat :=
  (entriesOf lines).foldl (fun last entry => if entry.seq > last then entry.seq else last) 0

structure SessionEventJournal (P : Type) where
  epoch : Nat
  /-- The last number that was handed out. -/
  seq : Nat
  headerPending : Bool
  pendingLines : List (JournalLine P) := []
  /-- The lines that are being written. -/
  flushing : Option (List (JournalLine P)) := none

namespace SessionEventJournal

/-- The counter is recovered from the file. Without a header, a fresh incarnation starts. -/
def openJournal (file : JournalFile P) (freshEpoch : Nat) : SessionEventJournal P :=
  match epochOf file.parsed with
  | none => { epoch := freshEpoch, seq := 0, headerPending := true }
  | some epoch => { epoch := epoch, seq := lastSeqOf file.parsed, headerPending := false }

section

variable (journal : SessionEventJournal P)

/-- Reserve the next number. -/
def nextSeq : SessionEventJournal P := { journal with seq := journal.seq + 1 }

/-- A new flush takes all lines that wait. -/
def flushOnce : SessionEventJournal P :=
  { journal with
    headerPending := false
    pendingLines := []
    flushing := some
      ((if journal.headerPending then [.header journal.epoch] else []) ++ journal.pendingLines) }

def scheduleFlush : SessionEventJournal P :=
  if journal.flushing.isSome then journal else journal.flushOnce

def append (entry : JournalEntry P) : SessionEventJournal P :=
  ({ journal with pendingLines := journal.pendingLines ++ [.event entry] } : SessionEventJournal P).scheduleFlush

/-- Whether the write succeeded or not, the next flush starts if there are lines. -/
def flushed : SessionEventJournal P :=
  let journal := { journal with flushing := none }
  if journal.pendingLines = [] then journal else journal.scheduleFlush

end

def readSince (lines : List (JournalLine P)) (fromSeqExclusive limit : Nat) : List (JournalEntry P) :=
  ((entriesOf lines).filter fun entry => entry.seq > fromSeqExclusive).take limit

end SessionEventJournal

/-- What a client was given: a number, the epoch, and how many durable events there had been. The
server does not see `count`. -/
structure SessionCursor where
  seq : Nat
  epoch : Nat
  count : Nat
deriving DecidableEq

/-- A replay that is read from the file, once the lines that wait are written. It is `asked` for
when so many events have been dispatched. -/
structure Replay (P : Type) where
  cursor : SessionCursor
  filter : JournalEntry P → Bool
  asked : Nat
  drained : Bool := false

/-- `none` is that the client has to resync. -/
structure BufferedSince (P : Type) where
  cursor : SessionCursor
  filter : JournalEntry P → Bool
  asked : Nat
  events : Option (List (JournalEntry P))

/-- A session in the broadcaster, and what clients were given. -/
structure SessionState (P : Type) where
  file : JournalFile P := {}
  journal : Option (SessionEventJournal P) := none
  tail : List (JournalEntry P) := []
  nextEpoch : Nat := 0
  /-- All durable events that there have been. -/
  dispatched : List (JournalEntry P) := []
  obtained : List SessionCursor := []
  replays : List (Replay P) := []
  answers : List (BufferedSince P) := []

inductive SessionEvent (P : Type) where
  | createSessionState
  /-- The watermark of a session that is not live. -/
  | readColdWatermark
  | dispatch (envelope : P)
  | dispatchVolatile
  /-- A durable event that cannot be serialized has taken a number. -/
  | dispatchFailed
  | flushed (landed : Landed)
  | close
  | crash (landed : Landed)
  | getBufferedSince (cursor : SessionCursor) (filter : JournalEntry P → Bool)
  /-- The flush that a replay waits for is done. -/
  | drained (replay : Nat)
  /-- A replay reads the file, with what has landed of the lines that are being written. -/
  | read (replay : Nat) (landed : Landed)

namespace SessionState

def watermark (s : SessionState P) (journal : SessionEventJournal P) : SessionCursor :=
  { seq := journal.seq, epoch := journal.epoch, count := s.dispatched.length }

/-- The oldest entries go when there are too many. -/
def pushTail (maxBufferSize : Nat) (tail : List (JournalEntry P)) (entry : JournalEntry P) : List (JournalEntry P) :=
  (tail ++ [entry]).drop ((tail ++ [entry]).length - maxBufferSize)

def dispatch (maxBufferSize : Nat) (s : SessionState P) (journal : SessionEventJournal P) (envelope : P) :
    SessionState P :=
  let journal := journal.nextSeq
  let entry : JournalEntry P := { seq := journal.seq, envelope := envelope }
  let s := { s with
    journal := some (journal.append entry)
    tail := pushTail maxBufferSize s.tail entry
    dispatched := s.dispatched ++ [entry] }
  { s with obtained := s.obtained ++ [s.watermark journal] }

/-- The file when so much has landed of the lines that are being written. -/
def landedFile (s : SessionState P) (journal : SessionEventJournal P) (landed : Landed) : JournalFile P :=
  s.file.appendFile (journal.flushing.getD []) landed

def answer (s : SessionState P) (cursor : SessionCursor) (filter : JournalEntry P → Bool)
    (events : Option (List (JournalEntry P))) : SessionState P :=
  { s with answers := s.answers ++
    [{ cursor := cursor
       filter := filter
       asked := s.dispatched.length
       events := events.map fun events => events.filter filter }] }

def getBufferedSince (maxBufferSize : Nat) (s : SessionState P) (cursor : SessionCursor)
    (filter : JournalEntry P → Bool) : SessionState P :=
  match s.journal with
  | none => s.answer cursor filter none
  | some journal =>
    if cursor.epoch ≠ journal.epoch then s.answer cursor filter none
    else if cursor.seq > journal.seq then s.answer cursor filter none
    else if cursor.seq = journal.seq then s.answer cursor filter (some [])
    else if journal.seq - cursor.seq > maxBufferSize then s.answer cursor filter none
    -- the memory covers the gap
    else if s.tail.head?.any fun first => first.seq ≤ cursor.seq + 1 then
      s.answer cursor filter (some (s.tail.filter fun entry => entry.seq > cursor.seq))
    else
      { s with replays := s.replays ++
        [{ cursor := cursor, filter := filter, asked := s.dispatched.length }] }

def stop (s : SessionState P) (file : JournalFile P) : SessionState P :=
  { s with
    file := file
    journal := none
    tail := []
    replays := [] }

def step (maxBufferSize : Nat) (s : SessionState P) : SessionEvent P → Option (SessionState P)
  | .createSessionState =>
    if s.journal.isSome then none
    else
      some { s with
        journal := some (.openJournal s.file s.nextEpoch)
        nextEpoch := s.nextEpoch + 1 }
  | .readColdWatermark =>
    if s.journal.isSome then none
    else
      some { s with
        obtained := s.obtained ++ [s.watermark (.openJournal s.file s.nextEpoch)]
        nextEpoch := s.nextEpoch + 1 }
  | .dispatch envelope => s.journal.map fun journal => s.dispatch maxBufferSize journal envelope
  | .dispatchVolatile => s.journal.map fun journal => { s with obtained := s.obtained ++ [s.watermark journal] }
  | .dispatchFailed => s.journal.map fun journal => { s with journal := some journal.nextSeq }
  | .flushed landed =>
    s.journal.bind fun journal =>
      if journal.flushing.isSome then
        some { s with
          file := s.landedFile journal landed
          journal := some journal.flushed }
      else none
  | .close =>
    s.journal.bind fun journal =>
      if journal.flushing.isNone ∧ journal.pendingLines = [] then some (s.stop s.file) else none
  | .crash landed => s.journal.map fun journal => s.stop (s.landedFile journal landed)
  | .getBufferedSince cursor filter =>
    if cursor ∈ s.obtained then some (s.getBufferedSince maxBufferSize cursor filter) else none
  | .drained i =>
    s.journal.bind fun journal =>
      if journal.flushing.isNone ∧ journal.pendingLines = [] then
        s.replays[i]?.map fun replay => { s with replays := s.replays.set i { replay with drained := true } }
      else none
  | .read i landed =>
    s.journal.bind fun journal => s.replays[i]?.bind fun replay =>
        if replay.drained then
          some { s with
            replays := s.replays.eraseIdx i
            answers := s.answers ++
              [{ cursor := replay.cursor
                 filter := replay.filter
                 asked := replay.asked
                 events := some ((SessionEventJournal.readSince (s.landedFile journal landed).parsed
                   replay.cursor.seq maxBufferSize).filter replay.filter) }] }
        else none

end SessionState

/-- An answer that is no resync has, as the filter lets through, the events after the one at the
cursor, up to one that is not before the last event there was when the client asked. -/
def BufferedSince.Faithful (dispatched : List (JournalEntry P)) (a : BufferedSince P) : Prop :=
  ∀ events ∈ a.events, ∃ n, a.asked ≤ n ∧ n ≤ dispatched.length ∧
    events = ((dispatched.take n).drop a.cursor.count).filter a.filter

namespace SessionState

def Resumed (s : SessionState P) : Prop := ∀ a ∈ s.answers, a.Faithful s.dispatched

def AllLanded (journal : SessionEventJournal P) (landed : Landed) : Prop :=
  (journal.flushing.getD []).length ≤ landed.lines

def CounterKept (journal : SessionEventJournal P) (file : JournalFile P) : Prop :=
  journal.headerPending = true ∨ lastSeqOf file.parsed = journal.seq

/-- No line is lost, in a write that fails or in a crash, and no number that has been handed out. -/
def Meets (s : SessionState P) : SessionEvent P → Prop
  | .flushed landed => ∀ journal ∈ s.journal, AllLanded journal landed
  | .close => ∀ journal ∈ s.journal, CounterKept journal s.file
  | .crash landed => ∀ journal ∈ s.journal, AllLanded journal landed ∧ journal.pendingLines = [] ∧
      CounterKept journal (s.landedFile journal landed)
  | _ => True

end SessionState

/-! What is in a file to which all batches were written in full. -/

namespace JournalFile

def written (lines : List (JournalLine P)) : JournalFile P := { lines := lines.map .line }

theorem foldl_writeLine (lines batch : List (JournalLine P)) :
    batch.foldl writeLine (written lines) = written (lines ++ batch) := by
  induction batch generalizing lines with
  | nil => rw [append_nil, foldl_nil]
  | cons line batch ih =>
    have hfirst : (written lines).writeLine line = written (lines ++ [line]) := by
      rw [written, written, map_append]
      rfl
    rw [foldl_cons, hfirst, ih, append_assoc]
    rfl

theorem parsed_written (lines : List (JournalLine P)) : (written lines).parsed = lines := by
  rw [parsed, readLines, written, toList_none, append_nil, filterMap_map]
  exact filterMap_some

theorem appendFile_written
    (h : batch.length ≤ landed.lines) (lines : List (JournalLine P)) :
    (written lines).appendFile batch landed = written (lines ++ batch) := by
  rw [appendFile, getElem?_eq_none h, take_of_length_le h, foldl_writeLine]

theorem parsed_appendFile (lines batch : List (JournalLine P)) (landed : Landed) :
    ∃ k, ((written lines).appendFile batch landed).parsed = lines ++ batch.take k := by
  rw [appendFile, foldl_writeLine]
  have hlanded : (written (lines ++ batch.take landed.lines)).parsed =
      lines ++ batch.take landed.lines := parsed_written _
  cases hline : batch[landed.lines]? with
  | none => exact ⟨landed.lines, hlanded⟩
  | some line =>
    cases hrest : landed.rest with
    | none => exact ⟨landed.lines, hlanded⟩
    | some rest =>
      have hreads : ∀ text, (mk (written (lines ++ batch.take landed.lines)).lines
          (some text)).parsed = lines ++ batch.take landed.lines ++ (parseJournalLine text).toList := by
        intro text
        rw [parsed, readLines, filterMap_append]
        rw [parsed, readLines, written, toList_none, append_nil] at hlanded
        rw [written, hlanded]
        cases text <;> rfl
      dsimp only
      cases rest with
      | beginning =>
        refine ⟨landed.lines, ?_⟩
        rw [writeRest, hreads]
        exact append_nil _
      | whole =>
        refine ⟨landed.lines + 1, ?_⟩
        rw [writeRest, hreads, take_add_one, hline, append_assoc]
        rfl

end JournalFile

theorem entriesOf_append (xs ys : List (JournalLine P)) : entriesOf (xs ++ ys) = entriesOf xs ++ entriesOf ys :=
  filterMap_append

theorem entriesOf_events (entries : List (JournalEntry P)) : entriesOf (entries.map JournalLine.event) = entries := by
  rw [entriesOf, filterMap_map]
  exact filterMap_some

namespace SessionEventJournal

/-- The lines that are not in the file yet. -/
def queued (journal : SessionEventJournal P) : List (JournalLine P) :=
  journal.flushing.getD [] ++ journal.pendingLines

/-- The same incarnation at the same number, with its header written or on the way. -/
structure Continues (journal journal' : SessionEventJournal P) : Prop where
  epoch : journal'.epoch = journal.epoch
  seq : journal'.seq = journal.seq
  header : journal'.headerPending = false

section

variable {journal : SessionEventJournal P}

theorem scheduleFlush_of_none (h : journal.flushing = none) : journal.scheduleFlush = journal.flushOnce :=
  if_neg (by
    rw [h]
    exact Bool.false_ne_true)

section

variable (h : journal.headerPending = false)
include h

theorem flushOnce_queued : journal.flushOnce.queued = journal.pendingLines ∧ journal.Continues journal.flushOnce := by
  rw [flushOnce, if_neg (Bool.eq_false_iff.mp h)]
  exact ⟨append_nil _, rfl, rfl, rfl⟩

theorem scheduleFlush_queued :
    journal.scheduleFlush.queued = journal.queued ∧ journal.Continues journal.scheduleFlush := by
  rw [scheduleFlush]
  split
  · exact ⟨rfl, rfl, rfl, h⟩
  · next hnone =>
    obtain ⟨hqueued, hcontinues⟩ := flushOnce_queued h
    rw [hqueued, queued, not_isSome_iff_eq_none.mp hnone]
    exact ⟨rfl, hcontinues⟩

theorem append_queued (entry : JournalEntry P) :
    (journal.append entry).queued = journal.queued ++ [.event entry] ∧
      journal.Continues (journal.append entry) := by
  have hheader : ({ journal with
      pendingLines := journal.pendingLines ++ [.event entry] } : SessionEventJournal P).headerPending =
        false := h
  obtain ⟨hqueued, hcontinues⟩ := scheduleFlush_queued hheader
  rw [append, hqueued]
  exact ⟨(append_assoc ..).symm, hcontinues.epoch, hcontinues.seq, hcontinues.header⟩

end

theorem append_first (h : journal.headerPending = true)
    (hflushing : journal.flushing = none) (hpending : journal.pendingLines = [])
    (entry : JournalEntry P) :
    (journal.append entry).queued = [.header journal.epoch, .event entry] ∧
      journal.Continues (journal.append entry) := by
  rw [append, scheduleFlush_of_none (by exact hflushing), flushOnce, hpending]
  rw [if_pos h]
  exact ⟨rfl, rfl, rfl, rfl⟩

theorem flushed_queued (h : journal.headerPending = false) :
    journal.flushed.queued = journal.pendingLines ∧ journal.Continues journal.flushed := by
  rw [flushed]
  split
  · exact ⟨rfl, rfl, rfl, h⟩
  · have hheader : ({ journal with flushing := none } : SessionEventJournal P).headerPending = false := h
    obtain ⟨hqueued, hcontinues⟩ := scheduleFlush_queued hheader
    exact ⟨hqueued, hcontinues.epoch, hcontinues.seq, hcontinues.header⟩

end

end SessionEventJournal

namespace SessionState

/-- The incarnation of the journal, or the one that will be taken up from the file. -/
def currentEpoch (s : SessionState P) : Option Nat :=
  match s.journal with
  | some journal => some journal.epoch
  | none => epochOf s.file.parsed

def currentSeq (s : SessionState P) : Nat :=
  match s.journal with
  | some journal => journal.seq
  | none => lastSeqOf s.file.parsed

def queued (s : SessionState P) : List (JournalLine P) :=
  match s.journal with
  | some journal => journal.queued
  | none => []

/-- There has been no event, and there is no header. -/
structure Blank (s : SessionState P) (lines : List (JournalLine P)) : Prop where
  lines : lines = []
  dispatched : s.dispatched = []
  journal : ∀ journal ∈ s.journal, journal.headerPending = true ∧ journal.flushing = none ∧
    journal.pendingLines = []

/-- What is written and what waits is a header with all the events. -/
structure Headed (s : SessionState P) (lines : List (JournalLine P)) (epoch : Nat) : Prop where
  content : lines ++ s.queued = .header epoch :: s.dispatched.map .event
  journal : ∀ journal ∈ s.journal, journal.headerPending = false ∧ journal.epoch = epoch

/-- The events at a cursor and after it are told apart by their numbers. -/
structure Placed (s : SessionState P) (c : SessionCursor) : Prop where
  seq_le : c.seq ≤ s.currentSeq
  count_le : c.count ≤ s.dispatched.length
  before : ∀ entry ∈ s.dispatched.take c.count, entry.seq ≤ c.seq
  after : ∀ entry ∈ s.dispatched.drop c.count, c.seq < entry.seq

/-- A replay will find all the events that there were when it was asked for. -/
structure Replayable (maxBufferSize : Nat) (s : SessionState P) (lines : List (JournalLine P))
    (r : Replay P) : Prop where
  obtained : r.cursor ∈ s.obtained
  epoch : r.cursor.epoch ∈ s.currentEpoch
  asked_le : r.asked ≤ s.dispatched.length
  gap : r.asked ≤ r.cursor.count + maxBufferSize
  drained : r.drained = true → r.asked ≤ (entriesOf lines).length

structure Inv (maxBufferSize : Nat) (s : SessionState P) (lines : List (JournalLine P)) : Prop where
  file : s.file = .written lines
  content : s.Blank lines ∨ ∃ epoch, s.Headed lines epoch
  sorted : s.dispatched.Pairwise fun x y => x.seq < y.seq
  counted : ∀ entry ∈ s.dispatched, entry.seq ≤ s.currentSeq
  current : ∀ epoch ∈ s.currentEpoch, epoch < s.nextEpoch
  epochs : ∀ c ∈ s.obtained, c.epoch < s.nextEpoch
  placed : ∀ c ∈ s.obtained, c.epoch ∈ s.currentEpoch → s.Placed c
  tail : s.tail <:+ s.dispatched
  replays : ∀ r ∈ s.replays, s.Replayable maxBufferSize lines r
  answers : s.Resumed

theorem Inv.start : (({} : SessionState P)).Inv maxBufferSize [] :=
  { file := rfl
    content := .inl ⟨rfl, rfl, nofun⟩
    sorted := .nil
    counted := nofun
    current := nofun
    epochs := nofun
    placed := nofun
    tail := suffix_refl _
    replays := nofun
    answers := nofun }

theorem Inv.watermark_placed {s : SessionState P} (h : s.Inv maxBufferSize lines)
    {journal : SessionEventJournal P} (hseq : journal.seq = s.currentSeq) :
    s.Placed (s.watermark journal) := by
  constructor
  · exact le_of_eq hseq
  · exact le_refl _
  · intro entry hentry
    exact (h.counted entry (mem_of_mem_take hentry)).trans_eq hseq.symm
  · intro entry hentry
    rw [watermark, drop_length] at hentry
    cases hentry

theorem content_same {s s' : SessionState P} (h : s.Blank lines ∨ ∃ epoch, s.Headed lines epoch)
    (hdispatched : s'.dispatched = s.dispatched) (hjournal : s'.journal = s.journal) :
    s'.Blank lines ∨ ∃ epoch, s'.Headed lines epoch := by
  rcases h with hblank | ⟨epoch, hheaded⟩
  · left
    exact ⟨hblank.lines, hdispatched.trans hblank.dispatched, hjournal ▸ hblank.journal⟩
  · refine .inr ⟨epoch, ?_, hjournal ▸ hheaded.journal⟩
    rw [queued, hjournal, hdispatched]
    exact hheaded.content

theorem Inv.obtain {s : SessionState P} (h : s.Inv maxBufferSize lines)
    {nextEpoch : Nat} (hnext : s.nextEpoch ≤ nextEpoch) (hepoch : c.epoch < nextEpoch)
    (hplaced : c.epoch ∈ s.currentEpoch → s.Placed c) :
    ({ s with
      obtained := s.obtained ++ [c]
      nextEpoch := nextEpoch } : SessionState P).Inv maxBufferSize lines := by
  refine { h with content := ?_, current := ?_, epochs := ?_, placed := ?_, replays := ?_ }
  · exact content_same h.content rfl rfl
  · exact fun epoch he => lt_of_lt_of_le (h.current epoch he) hnext
  · intro c' hc'
    rcases mem_snoc.mp hc' with hc' | hc'
    · exact lt_of_lt_of_le (h.epochs c' hc') hnext
    · rw [hc']
      exact hepoch
  · intro c' hc' he
    have hplaced' : s.Placed c' := by
      rcases mem_snoc.mp hc' with hc' | rfl
      · exact h.placed c' hc' he
      · exact hplaced he
    exact ⟨hplaced'.seq_le, hplaced'.count_le, hplaced'.before, hplaced'.after⟩
  · intro r hr
    have hr := h.replays r hr
    exact { hr with obtained := mem_append_left _ hr.obtained }

theorem Placed.later {s s' : SessionState P} (h : s.Placed c)
    (hdispatched : s'.dispatched = s.dispatched) (hseq : s.currentSeq ≤ s'.currentSeq) : s'.Placed c := by
  constructor
  · exact le_trans h.seq_le hseq
  · rw [hdispatched]
    exact h.count_le
  · rw [hdispatched]
    exact h.before
  · rw [hdispatched]
    exact h.after

section

variable {s : SessionState P} (h : s.Inv maxBufferSize lines)
include h

theorem Inv.advance {journal : Option (SessionEventJournal P)} {nextEpoch : Nat}
    (hnext : s.nextEpoch ≤ nextEpoch) (hlines : (entriesOf lines).length ≤ (entriesOf lines').length)
    (hcontent : ({ s with file := .written lines', journal := journal } : SessionState P).Blank lines' ∨
      ∃ epoch, ({ s with file := .written lines', journal := journal } : SessionState P).Headed lines' epoch)
    (hepoch : ({ s with file := .written lines', journal := journal } : SessionState P).currentEpoch =
      s.currentEpoch)
    (hseq : s.currentSeq ≤
      ({ s with file := .written lines', journal := journal } : SessionState P).currentSeq) :
    ({ s with
      file := .written lines'
      journal := journal
      nextEpoch := nextEpoch } : SessionState P).Inv maxBufferSize lines' := by
  constructor
  · rfl
  · exact content_same hcontent rfl rfl
  · exact h.sorted
  · exact fun entry hentry => le_trans (h.counted entry hentry) hseq
  · intro epoch he
    exact lt_of_lt_of_le (h.current epoch (hepoch ▸ he)) hnext
  · exact fun c hc => lt_of_lt_of_le (h.epochs c hc) hnext
  · intro c hc he
    exact (h.placed c hc (hepoch ▸ he)).later rfl hseq
  · exact h.tail
  · intro r hr
    have hr := h.replays r hr
    exact ⟨hr.obtained, hepoch.symm ▸ hr.epoch, hr.asked_le, hr.gap,
      fun hd => le_trans (hr.drained hd) hlines⟩
  · exact h.answers

theorem currentEpoch_headed (hjournal : s.journal = none)
    (hheaded : s.Headed lines epoch) : epochOf s.file.parsed = some epoch := by
  have hcontent := hheaded.content
  rw [queued, hjournal, append_nil] at hcontent
  rw [h.file, hcontent]
  rfl

theorem Inv.create (hjournal : s.journal = none) :
    ({ s with
      journal := some (.openJournal s.file s.nextEpoch)
      nextEpoch := s.nextEpoch + 1 } : SessionState P).Inv maxBufferSize lines := by
  rcases h.content with hblank | ⟨epoch, hheaded⟩
  · have hnone : epochOf s.file.parsed = none := by
      rw [h.file, hblank.lines]
      rfl
    have hcurrent : s.currentEpoch = none := by
      rw [currentEpoch, hjournal]
      exact hnone
    have hopened : SessionEventJournal.openJournal s.file s.nextEpoch =
        { epoch := s.nextEpoch, seq := 0, headerPending := true } := by
      rw [SessionEventJournal.openJournal, hnone]
    rw [hopened]
    constructor
    · exact h.file
    · refine .inl ⟨hblank.lines, hblank.dispatched, ?_⟩
      intro journal hj
      cases hj
      exact ⟨rfl, rfl, rfl⟩
    · exact h.sorted
    · intro entry hentry
      rw [hblank.dispatched] at hentry
      cases hentry
    · intro epoch he
      cases he
      exact Nat.lt_succ_self _
    · exact fun c hc => Nat.lt_succ_of_lt (h.epochs c hc)
    · -- no cursor is of the fresh incarnation
      intro c hc he
      have hfresh := h.epochs c hc
      rw [← some.inj he] at hfresh
      exact absurd hfresh (lt_irrefl _)
    · exact h.tail
    · intro r hr
      have he := (h.replays r hr).epoch
      rw [hcurrent] at he
      cases he
    · exact h.answers
  · have hepoch := currentEpoch_headed h hjournal hheaded
    have hopened : SessionEventJournal.openJournal s.file s.nextEpoch =
        { epoch := epoch, seq := lastSeqOf s.file.parsed, headerPending := false } := by
      rw [SessionEventJournal.openJournal, hepoch]
    have hcontent := hheaded.content
    rw [queued, hjournal] at hcontent
    have hheaded' : ({ s with
        file := .written lines
        journal := some { epoch := epoch, seq := lastSeqOf s.file.parsed, headerPending := false } } :
          SessionState P).Headed lines epoch := by
      refine ⟨hcontent, ?_⟩
      intro journal hj
      cases hj
      exact ⟨rfl, rfl⟩
    have hcurrent : some epoch = s.currentEpoch := by
      rw [currentEpoch, hjournal]
      exact hepoch.symm
    have hseq : s.currentSeq ≤ lastSeqOf s.file.parsed := by
      rw [currentSeq, hjournal]
    have hadvanced := h.advance (Nat.le_succ s.nextEpoch) (Nat.le_refl _) (.inr ⟨epoch, hheaded'⟩)
      hcurrent hseq
    rw [hopened]
    rw [← h.file] at hadvanced
    exact hadvanced

end

theorem faithful_append {a : BufferedSince P} {dispatched : List (JournalEntry P)}
    (h : a.Faithful dispatched) (entry : JournalEntry P) : a.Faithful (dispatched ++ [entry]) := by
  intro events hevents
  obtain ⟨n, hasked, hn, he⟩ := h events hevents
  refine ⟨n, hasked, ?_, ?_⟩
  · rw [length_append]
    exact Nat.le_add_right_of_le hn
  · rw [take_append_of_le_length hn]
    exact he

theorem pushTail_suffix {tail dispatched : List (JournalEntry P)} (h : tail <:+ dispatched)
    (maxBufferSize : Nat) (entry : JournalEntry P) :
    pushTail maxBufferSize tail entry <:+ dispatched ++ [entry] := by
  obtain ⟨before, rfl⟩ := h
  rw [append_assoc]
  exact (drop_suffix ..).trans (suffix_append ..)

/-- Another event has a number above all that were given. -/
theorem Placed.push {s s' : SessionState P} (h : s.Placed c) (hdispatched : s'.dispatched = s.dispatched ++ [entry])
    (hentry : s.currentSeq < entry.seq) (hseq : s'.currentSeq = entry.seq) : s'.Placed c := by
  have hlt : c.seq < entry.seq := lt_of_le_of_lt h.seq_le hentry
  constructor
  · rw [hseq]
    exact le_of_lt hlt
  · rw [hdispatched, length_append]
    exact Nat.le_add_right_of_le h.count_le
  · rw [hdispatched, take_append_of_le_length h.count_le]
    exact h.before
  · intro x hx
    rw [hdispatched, drop_append_of_le_length h.count_le] at hx
    rcases mem_snoc.mp hx with hx | rfl
    · exact h.after x hx
    · exact hlt

section

variable {s : SessionState P} (h : s.Inv maxBufferSize lines) {journal : SessionEventJournal P}
include h

theorem Inv.append_content (hjournal : s.journal = some journal) (entry : JournalEntry P) :
    lines ++ (journal.nextSeq.append entry).queued =
        .header journal.epoch :: (s.dispatched ++ [entry]).map .event ∧
      journal.nextSeq.Continues (journal.nextSeq.append entry) := by
  rcases h.content with hblank | ⟨epoch, hheaded⟩
  · obtain ⟨hpending, hflushing, hlines⟩ := hblank.journal journal hjournal
    have hpending' : journal.nextSeq.headerPending = true := hpending
    obtain ⟨hqueued, hcontinues⟩ := SessionEventJournal.append_first hpending' hflushing hlines entry
    rw [hqueued, hblank.lines, hblank.dispatched]
    exact ⟨rfl, hcontinues⟩
  · obtain ⟨hpending, hepoch⟩ := hheaded.journal journal hjournal
    have hpending' : journal.nextSeq.headerPending = false := hpending
    obtain ⟨hqueued, hcontinues⟩ := SessionEventJournal.append_queued hpending' entry
    have hcontent := hheaded.content
    rw [queued, hjournal] at hcontent
    refine ⟨?_, hcontinues⟩
    change lines ++ journal.nextSeq.queued = _ at hcontent
    rw [hqueued, ← append_assoc, hcontent, hepoch, map_append]
    rfl

theorem Inv.dispatch (hjournal : s.journal = some journal) (envelope : P) :
    (s.dispatch maxBufferSize journal envelope).Inv maxBufferSize lines := by
  obtain ⟨hcontent, hcontinues⟩ := h.append_content hjournal ⟨journal.seq + 1, envelope⟩
  have hseq : s.currentSeq = journal.seq := by
    rw [currentSeq, hjournal]
  have hepoch : s.currentEpoch = some journal.epoch := by
    rw [currentEpoch, hjournal]
  have hseq' : (s.dispatch maxBufferSize journal envelope).currentSeq = journal.seq + 1 := hcontinues.seq
  have hepoch' : (s.dispatch maxBufferSize journal envelope).currentEpoch = s.currentEpoch :=
    (congrArg some hcontinues.epoch).trans hepoch.symm
  have hnew : s.currentSeq < journal.seq + 1 := hseq ▸ Nat.lt_succ_self _
  constructor
  · exact h.file
  · refine .inr ⟨journal.epoch, hcontent, ?_⟩
    intro journal' hj
    cases hj
    exact ⟨hcontinues.header, hcontinues.epoch⟩
  · refine pairwise_append.mpr ⟨h.sorted, pairwise_singleton .., ?_⟩
    intro x hx y hy
    rw [mem_singleton.mp hy]
    exact lt_of_le_of_lt (h.counted x hx) hnew
  · intro x hx
    rw [hseq']
    rcases mem_snoc.mp hx with hx | hx
    · exact le_of_lt (lt_of_le_of_lt (h.counted x hx) hnew)
    · rw [hx]
      exact le_refl _
  · rw [hepoch']
    exact h.current
  · intro c hc
    rcases mem_snoc.mp hc with hc | hc
    · exact h.epochs c hc
    · rw [hc]
      exact h.current journal.epoch hepoch
  · intro c hc he
    rw [hepoch'] at he
    rcases mem_snoc.mp hc with hc | hc
    · exact (h.placed c hc he).push rfl hnew hseq'
    · rw [hc]
      constructor
      · exact le_of_eq hseq'.symm
      · exact le_refl _
      · intro x hx
        rcases mem_append.mp (mem_of_mem_take hx) with hx | hx
        · exact le_of_lt (lt_of_le_of_lt (h.counted x hx) hnew)
        · rw [mem_singleton.mp hx]
          exact le_refl _
      · intro x hx
        change x ∈ (s.dispatched ++ [_]).drop (s.dispatched ++ [_]).length at hx
        rw [drop_length] at hx
        cases hx
  · exact pushTail_suffix h.tail maxBufferSize _
  · intro r hr
    have hr := h.replays r hr
    refine ⟨mem_append_left _ hr.obtained, hepoch' ▸ hr.epoch, ?_, hr.gap, hr.drained⟩
    exact Nat.le_trans hr.asked_le (length_append ▸ Nat.le_add_right ..)
  · exact fun a ha => faithful_append (h.answers a ha) _

theorem Inv.landed {landed : Landed} (hlanded : AllLanded journal landed) :
    s.landedFile journal landed = .written (lines ++ journal.flushing.getD []) := by
  rw [landedFile, h.file]
  exact JournalFile.appendFile_written hlanded lines

theorem Inv.flushed {landed : Landed} (hjournal : s.journal = some journal)
    (hflushing : journal.flushing.isSome = true) (hlanded : AllLanded journal landed) :
    ({ s with
      file := s.landedFile journal landed
      journal := some journal.flushed } : SessionState P).Inv maxBufferSize
        (lines ++ journal.flushing.getD []) := by
  rcases h.content with hblank | ⟨epoch, hheaded⟩
  · rw [(hblank.journal journal hjournal).2.1] at hflushing
    cases hflushing
  · obtain ⟨hpending, hepoch⟩ := hheaded.journal journal hjournal
    obtain ⟨hqueued, hcontinues⟩ := SessionEventJournal.flushed_queued hpending
    have hcontent := hheaded.content
    rw [queued, hjournal] at hcontent
    change lines ++ (journal.flushing.getD [] ++ journal.pendingLines) = _ at hcontent
    rw [← append_assoc, ← hqueued] at hcontent
    have hheaded' : ({ s with
        file := .written (lines ++ journal.flushing.getD [])
        journal := some journal.flushed } : SessionState P).Headed (lines ++ journal.flushing.getD [])
          epoch := by
      refine ⟨hcontent, ?_⟩
      intro journal' hj
      cases hj
      exact ⟨hcontinues.header, hcontinues.epoch.trans hepoch⟩
    have hcurrent : some journal.flushed.epoch = s.currentEpoch := by
      rw [hcontinues.epoch, currentEpoch, hjournal]
    have hseq : s.currentSeq ≤ journal.flushed.seq := by
      rw [hcontinues.seq, currentSeq, hjournal]
    have hmore : (entriesOf lines).length ≤ (entriesOf (lines ++ journal.flushing.getD [])).length := by
      rw [entriesOf_append, length_append]
      exact Nat.le_add_right ..
    rw [h.landed hlanded]
    exact h.advance (le_refl s.nextEpoch) hmore (.inr ⟨epoch, hheaded'⟩) hcurrent hseq

theorem Inv.failed (hjournal : s.journal = some journal) :
    ({ s with journal := some journal.nextSeq } : SessionState P).Inv maxBufferSize lines := by
  have hcontent : ({ s with
      file := .written lines
      journal := some journal.nextSeq } : SessionState P).Blank lines ∨ ∃ epoch,
        ({ s with
          file := .written lines
          journal := some journal.nextSeq } : SessionState P).Headed lines epoch := by
    rcases h.content with hblank | ⟨epoch, hheaded⟩
    · refine .inl ⟨hblank.lines, hblank.dispatched, ?_⟩
      intro journal' hj
      cases hj
      exact hblank.journal journal hjournal
    · have hcontent := hheaded.content
      rw [queued, hjournal] at hcontent
      refine .inr ⟨epoch, hcontent, ?_⟩
      intro journal' hj
      cases hj
      exact hheaded.journal journal hjournal
  have hcurrent : some journal.epoch = s.currentEpoch := by
    rw [currentEpoch, hjournal]
  have hseq : s.currentSeq ≤ journal.seq + 1 := by
    rw [currentSeq, hjournal]
    exact Nat.le_succ _
  have hadvanced := h.advance (le_refl s.nextEpoch) (le_refl _) hcontent hcurrent hseq
  rw [← h.file] at hadvanced
  exact hadvanced

theorem Inv.stop (hjournal : s.journal = some journal) (hpending : journal.pendingLines = [])
    (hkept : CounterKept journal (.written (lines ++ journal.flushing.getD []))) :
    (s.stop (.written (lines ++ journal.flushing.getD []))).Inv maxBufferSize
      (lines ++ journal.flushing.getD []) := by
  have hseq : s.currentSeq = journal.seq := by
    rw [currentSeq, hjournal]
  have hepoch : s.currentEpoch = some journal.epoch := by
    rw [currentEpoch, hjournal]
  have hstopped : ∀ epoch ∈ (s.stop (.written (lines ++ journal.flushing.getD []))).currentEpoch,
      epoch ∈ s.currentEpoch ∧ lastSeqOf (lines ++ journal.flushing.getD []) = s.currentSeq := by
    intro epoch he
    rcases h.content with hblank | ⟨epoch', hheaded⟩
    · rw [hblank.lines, (hblank.journal journal hjournal).2.1] at he
      cases he
    · obtain ⟨hheader, hepoch'⟩ := hheaded.journal journal hjournal
      have hcontent := hheaded.content
      rw [queued, hjournal] at hcontent
      change lines ++ (journal.flushing.getD [] ++ journal.pendingLines) = _ at hcontent
      rw [hpending, append_nil] at hcontent
      rw [hcontent] at he
      refine ⟨?_, ?_⟩
      · rw [hepoch, hepoch']
        exact he
      · have hlast := hkept.resolve_left (Bool.eq_false_iff.mp hheader)
        rw [JournalFile.parsed_written] at hlast
        rw [hlast, hseq]
  have hdispatched : s.dispatched ≠ [] → lastSeqOf (lines ++ journal.flushing.getD []) = s.currentSeq := by
    intro hne
    rcases h.content with hblank | ⟨epoch', hheaded⟩
    · exact absurd hblank.dispatched hne
    · have hlast := hkept.resolve_left (Bool.eq_false_iff.mp (hheaded.journal journal hjournal).1)
      rw [JournalFile.parsed_written] at hlast
      rw [hlast, hseq]
  have hlast : (s.stop (.written (lines ++ journal.flushing.getD []))).currentSeq =
      lastSeqOf (lines ++ journal.flushing.getD []) := by
    change lastSeqOf (JournalFile.written _).parsed = _
    rw [JournalFile.parsed_written]
  constructor
  · rfl
  · rcases h.content with hblank | ⟨epoch', hheaded⟩
    · left
      refine ⟨?_, hblank.dispatched, nofun⟩
      rw [hblank.lines, (hblank.journal journal hjournal).2.1]
      rfl
    · right
      refine ⟨epoch', ?_, nofun⟩
      have hcontent := hheaded.content
      rw [queued, hjournal] at hcontent
      change lines ++ (journal.flushing.getD [] ++ journal.pendingLines) = _ at hcontent
      rw [hpending, append_nil] at hcontent
      exact (append_nil _).trans hcontent
  · exact h.sorted
  · intro entry hentry
    rw [hlast, hdispatched (ne_nil_of_mem hentry)]
    exact h.counted entry hentry
  · exact fun epoch he => h.current epoch (hstopped epoch he).1
  · exact h.epochs
  · intro c hc he
    obtain ⟨hepoch', hkept'⟩ := hstopped c.epoch he
    exact (h.placed c hc hepoch').later rfl (le_of_eq (hlast.trans hkept').symm)
  · exact nil_suffix
  · exact fun r hr => absurd hr not_mem_nil
  · exact h.answers

end

theorem length_le_of_rising {numbers : List Nat} (h : numbers.Pairwise (· < ·))
    (hbounds : ∀ x ∈ numbers, a < x ∧ x ≤ b) : numbers.length ≤ b - a := by
  have hnodup : numbers.Nodup := h.imp ne_of_lt
  have hsub : numbers ⊆ range' (a + 1) (b - a) := by
    intro x hx
    obtain ⟨hlow, hhigh⟩ := hbounds x hx
    rw [mem_range'_1]
    omega
  have hle := (subperm_of_subset hnodup hsub).length_le
  rwa [length_range'] at hle

section

variable {s : SessionState P}

theorem Placed.filter_take (h : s.Placed c) (m : Nat) :
    (s.dispatched.take m).filter (fun entry => entry.seq > c.seq) = (s.dispatched.take m).drop c.count := by
  have hbefore : ((s.dispatched.take m).take c.count).filter (fun entry => entry.seq > c.seq) = [] := by
    rw [filter_eq_nil_iff]
    intro entry hentry
    rw [take_take] at hentry
    have hle := h.before entry ((take_subset_take_left _ (min_le_left ..)) hentry)
    rw [decide_eq_true_iff]
    exact not_lt.mpr hle
  have hafter : ((s.dispatched.take m).drop c.count).filter (fun entry => entry.seq > c.seq) =
      (s.dispatched.take m).drop c.count := by
    rw [filter_eq_self]
    intro entry hentry
    rw [drop_take] at hentry
    exact decide_eq_true (h.after entry (mem_of_mem_take hentry))
  calc (s.dispatched.take m).filter (fun entry => entry.seq > c.seq)
      = ((s.dispatched.take m).take c.count ++ (s.dispatched.take m).drop c.count).filter
          fun entry => entry.seq > c.seq := by rw [take_append_drop]
    _ = (s.dispatched.take m).drop c.count := by rw [filter_append, hbefore, hafter, nil_append]

section

variable (h : s.Inv maxBufferSize lines)
include h

theorem Inv.reply (ha : a.Faithful s.dispatched) {replays : List (Replay P)} (hreplays : replays ⊆ s.replays) :
    ({ s with
      replays := replays
      answers := s.answers ++ [a] } : SessionState P).Inv maxBufferSize lines := by
  refine { h with content := ?_, placed := ?_, replays := ?_, answers := ?_ }
  · exact content_same h.content rfl rfl
  · exact fun c hc he => (h.placed c hc he).later rfl (le_refl _)
  · intro r hr
    have hr := h.replays r (hreplays hr)
    exact { hr with }
  · intro a' ha'
    rcases mem_snoc.mp ha' with ha' | ha'
    · exact h.answers a' ha'
    · rw [ha']
      exact ha

theorem Inv.withReplays {replays : List (Replay P)} (hreplays : ∀ r ∈ replays, s.Replayable maxBufferSize lines r) :
    ({ s with replays := replays } : SessionState P).Inv maxBufferSize lines := by
  refine { h with content := ?_, placed := ?_, replays := ?_ }
  · exact content_same h.content rfl rfl
  · exact fun c hc he => (h.placed c hc he).later rfl (le_refl _)
  · intro r hr
    have hr := hreplays r hr
    exact { hr with }

theorem Inv.tail_filter (hplaced : s.Placed c) (hcover : s.tail.head?.any (fun first => first.seq ≤ c.seq + 1) = true) :
    s.tail.filter (fun entry => entry.seq > c.seq) = s.dispatched.drop c.count := by
  obtain ⟨before, hbefore⟩ := h.tail
  have hsorted := h.sorted
  cases htail : s.tail with
  | nil =>
    rw [htail] at hcover
    cases hcover
  | cons first tail =>
    rw [htail] at hbefore hcover
    have hfirst : first.seq ≤ c.seq + 1 := of_decide_eq_true hcover
    rw [← hbefore] at hsorted
    have hold : before.filter (fun entry => entry.seq > c.seq) = [] := by
      rw [filter_eq_nil_iff]
      intro entry hentry
      have hlt := (pairwise_append.mp hsorted).2.2 entry hentry first (mem_cons_self ..)
      rw [decide_eq_true_iff]
      omega
    have hall := hplaced.filter_take s.dispatched.length
    rw [take_length] at hall
    rw [← hall, ← hbefore, filter_append, hold, nil_append]

theorem Inv.gap_le (hplaced : s.Placed c) : s.dispatched.length ≤ c.count + (s.currentSeq - c.seq) := by
  have hrising : ((s.dispatched.drop c.count).map JournalEntry.seq).Pairwise (· < ·) := by
    rw [pairwise_map]
    exact h.sorted.sublist (drop_sublist ..)
  have hle := length_le_of_rising (a := c.seq) (b := s.currentSeq) hrising (by
    intro x hx
    obtain ⟨entry, hentry, rfl⟩ := mem_map.mp hx
    exact ⟨hplaced.after entry hentry, h.counted entry (mem_of_mem_drop hentry)⟩)
  rw [length_map, length_drop] at hle
  omega

theorem Inv.ask (hc : c ∈ s.obtained) (filter : JournalEntry P → Bool) :
    (s.getBufferedSince maxBufferSize c filter).Inv maxBufferSize lines := by
  have hresync : (s.answer c filter none).Inv maxBufferSize lines :=
    h.reply (fun _ he => by cases he) (List.Subset.refl _)
  rw [getBufferedSince]
  cases hjournal : s.journal with
  | none => exact hresync
  | some journal =>
    have hseq : s.currentSeq = journal.seq := by
      rw [currentSeq, hjournal]
    dsimp only
    by_cases hepoch : c.epoch ≠ journal.epoch
    · rw [if_pos hepoch]
      exact hresync
    have hcurrent : c.epoch ∈ s.currentEpoch := by
      rw [currentEpoch, hjournal, not_not.mp hepoch]
      rfl
    have hplaced := h.placed c hc hcurrent
    rw [if_neg hepoch]
    by_cases hahead : c.seq > journal.seq
    · rw [if_pos hahead]
      exact hresync
    rw [if_neg hahead]
    by_cases hsame : c.seq = journal.seq
    · -- nothing has come after the cursor
      rw [if_pos hsame]
      refine h.reply ?_ (List.Subset.refl _)
      intro events he
      cases he
      refine ⟨s.dispatched.length, le_refl _, le_refl _, ?_⟩
      have hnone : s.dispatched.drop c.count = [] := by
        rw [eq_nil_iff_forall_not_mem]
        intro entry hentry
        have hlow := hplaced.after entry hentry
        have hhigh := h.counted entry (mem_of_mem_drop hentry)
        omega
      rw [take_length, hnone]
    rw [if_neg hsame]
    by_cases hgap : journal.seq - c.seq > maxBufferSize
    · rw [if_pos hgap]
      exact hresync
    rw [if_neg hgap]
    by_cases hcover : s.tail.head?.any (fun first => first.seq ≤ c.seq + 1) = true
    · rw [if_pos hcover]
      refine h.reply ?_ (List.Subset.refl _)
      intro events he
      cases he
      refine ⟨s.dispatched.length, le_refl _, le_refl _, ?_⟩
      rw [take_length, h.tail_filter hplaced hcover]
    rw [if_neg hcover, ← hjournal]
    apply h.withReplays
    intro r hr
    rcases mem_snoc.mp hr with hr | hr
    · exact h.replays r hr
    · rw [hr]
      refine ⟨hc, hcurrent, le_refl _, ?_, fun hno => by cases hno⟩
      have hle := h.gap_le hplaced
      change s.dispatched.length ≤ c.count + maxBufferSize
      omega

section

variable {journal : SessionEventJournal P} (hjournal : s.journal = some journal)
include hjournal

theorem Inv.visible (landed : Landed) :
    ∃ m, entriesOf (s.landedFile journal landed).parsed = s.dispatched.take m ∧
      (entriesOf lines).length ≤ m ∧ m ≤ s.dispatched.length := by
  obtain ⟨k, hparsed⟩ := JournalFile.parsed_appendFile lines (journal.flushing.getD []) landed
  rw [landedFile, h.file, hparsed]
  have hprefix : entriesOf (lines ++ (journal.flushing.getD []).take k) <+: s.dispatched := by
    rcases h.content with hblank | ⟨epoch, hheaded⟩
    · rw [hblank.lines, hblank.dispatched, (hblank.journal journal hjournal).2.1]
      change entriesOf (([] : List (JournalLine P)).take k) <+: []
      rw [take_nil]
      exact prefix_rfl
    · have hcontent := congrArg entriesOf hheaded.content
      have hall : entriesOf (.header epoch :: s.dispatched.map .event) = s.dispatched := entriesOf_events _
      rw [queued, hjournal, hall] at hcontent
      rw [← hcontent]
      refine List.IsPrefix.filterMap _ ((prefix_append_right_inj lines).mpr ?_)
      exact ( take_prefix ..).trans (prefix_append ..)
  refine ⟨_, prefix_iff_eq_take.mp hprefix, ?_, hprefix.length_le⟩
  rw [entriesOf_append, length_append]
  exact Nat.le_add_right ..

theorem Inv.read (hr : r ∈ s.replays) (hdrained : r.drained = true) (landed : Landed) (replays : List (Replay P))
    (hreplays : replays ⊆ s.replays) :
    ({ s with
      replays := replays
      answers := s.answers ++
        [{ cursor := r.cursor
           filter := r.filter
           asked := r.asked
           events := some ((SessionEventJournal.readSince (s.landedFile journal landed).parsed
             r.cursor.seq maxBufferSize).filter r.filter) }] } : SessionState P).Inv maxBufferSize
      lines := by
  refine h.reply ?_ hreplays
  intro events he
  cases he
  have hreplay := h.replays r hr
  have hplaced := h.placed r.cursor hreplay.obtained hreplay.epoch
  obtain ⟨m, hentries, hlow, hhigh⟩ := h.visible hjournal landed
  refine ⟨min (r.cursor.count + maxBufferSize) m, ?_, ?_, ?_⟩
  · exact Nat.le_min.mpr ⟨hreplay.gap, Nat.le_trans (hreplay.drained hdrained) hlow⟩
  · exact le_trans (min_le_right ..) hhigh
  · rw [SessionEventJournal.readSince, hentries, hplaced.filter_take, take_drop, take_take]

theorem Inv.drain (hflushing : journal.flushing = none) (hpending : journal.pendingLines = [])
    (hr : s.replays[i]? = some r) :
    ({ s with replays := s.replays.set i { r with drained := true } } : SessionState P).Inv maxBufferSize
      lines := by
  have hlanded : entriesOf lines = s.dispatched := by
    rcases h.content with hblank | ⟨epoch, hheaded⟩
    · rw [hblank.lines, hblank.dispatched]
      rfl
    · have hcontent := congrArg entriesOf hheaded.content
      have hall : entriesOf (.header epoch :: s.dispatched.map .event) = s.dispatched := entriesOf_events _
      rw [queued, hjournal, hall] at hcontent
      change entriesOf (lines ++ (journal.flushing.getD [] ++ journal.pendingLines)) = _ at hcontent
      rw [hflushing, hpending] at hcontent
      exact (congrArg entriesOf (append_nil lines).symm).trans hcontent
  apply h.withReplays
  intro r' hr'
  rcases mem_or_eq_of_mem_set hr' with hr' | rfl
  · exact h.replays r' hr'
  · have hr := h.replays r (mem_of_getElem? hr)
    refine { hr with drained := ?_ }
    rw [hlanded]
    exact fun _ => hr.asked_le

end

theorem Inv.cold (hjournal : s.journal = none) :
    ({ s with
      obtained := s.obtained ++ [s.watermark (.openJournal s.file s.nextEpoch)]
      nextEpoch := s.nextEpoch + 1 } : SessionState P).Inv maxBufferSize lines := by
  have hopened := h.create hjournal
  have hlt := hopened.current _ rfl
  refine h.obtain (Nat.le_succ _) hlt ?_
  intro he
  have hheader : epochOf s.file.parsed = some (SessionEventJournal.openJournal s.file s.nextEpoch).epoch := by
    rw [currentEpoch, hjournal] at he
    exact he
  apply h.watermark_placed
  rw [currentSeq, hjournal, SessionEventJournal.openJournal, hheader]

end

end

theorem Inv.step {s s' : SessionState P} (h : s.Inv maxBufferSize lines)
    (hmeets : s.Meets e) (hstep : s.step maxBufferSize e = some s') :
    ∃ lines', s'.Inv maxBufferSize lines' := by
  cases e with
  | createSessionState =>
    obtain ⟨hnone, hstep⟩ := ite_none_left_eq_some.mp hstep
    cases hstep
    exact ⟨lines, h.create (not_isSome_iff_eq_none.mp hnone)⟩
  | readColdWatermark =>
    obtain ⟨hnone, hstep⟩ := ite_none_left_eq_some.mp hstep
    cases hstep
    exact ⟨lines, h.cold (not_isSome_iff_eq_none.mp hnone)⟩
  | dispatch envelope =>
    obtain ⟨journal, hjournal, rfl⟩ := map_eq_some_iff.mp hstep
    exact ⟨lines, h.dispatch hjournal envelope⟩
  | dispatchVolatile =>
    obtain ⟨journal, hjournal, rfl⟩ := map_eq_some_iff.mp hstep
    have hepoch : journal.epoch ∈ s.currentEpoch := by
      rw [currentEpoch, hjournal]
      rfl
    have hseq : journal.seq = s.currentSeq := by
      rw [currentSeq, hjournal]
    exact ⟨lines, h.obtain (le_refl _) (h.current _ hepoch) fun _ => h.watermark_placed hseq⟩
  | dispatchFailed =>
    obtain ⟨journal, hjournal, rfl⟩ := map_eq_some_iff.mp hstep
    exact ⟨lines, h.failed hjournal⟩
  | flushed landed =>
    obtain ⟨journal, hjournal, hstep⟩ := bind_eq_some_iff.mp hstep
    obtain ⟨hflushing, hstep⟩ := ite_none_right_eq_some.mp hstep
    cases hstep
    exact ⟨_, h.flushed hjournal hflushing (hmeets journal hjournal)⟩
  | close =>
    obtain ⟨journal, hjournal, hstep⟩ := bind_eq_some_iff.mp hstep
    obtain ⟨⟨hflushing, hpending⟩, hstep⟩ := ite_none_right_eq_some.mp hstep
    cases hstep
    have hkept := hmeets journal hjournal
    have hwritten : lines ++ journal.flushing.getD [] = lines := by
      rw [isNone_iff_eq_none.mp hflushing]
      exact append_nil _
    rw [h.file, ← hwritten] at hkept
    have hstopped := h.stop hjournal hpending hkept
    rw [hwritten, ← h.file] at hstopped
    exact ⟨lines, hstopped⟩
  | crash landed =>
    obtain ⟨journal, hjournal, rfl⟩ := map_eq_some_iff.mp hstep
    obtain ⟨hlanded, hpending, hkept⟩ := hmeets journal hjournal
    rw [h.landed hlanded] at hkept ⊢
    exact ⟨_, h.stop hjournal hpending hkept⟩
  | getBufferedSince cursor filter =>
    obtain ⟨hmem, hstep⟩ := ite_none_right_eq_some.mp hstep
    cases hstep
    exact ⟨lines, h.ask hmem filter⟩
  | drained i =>
    obtain ⟨journal, hjournal, hstep⟩ := bind_eq_some_iff.mp hstep
    obtain ⟨⟨hflushing, hpending⟩, hstep⟩ := ite_none_right_eq_some.mp hstep
    obtain ⟨r, hr, rfl⟩ := map_eq_some_iff.mp hstep
    exact ⟨lines, h.drain hjournal (isNone_iff_eq_none.mp hflushing) hpending hr⟩
  | read i landed =>
    obtain ⟨journal, hjournal, hstep⟩ := bind_eq_some_iff.mp hstep
    obtain ⟨r, hr, hstep⟩ := bind_eq_some_iff.mp hstep
    obtain ⟨hdrained, hstep⟩ := ite_none_right_eq_some.mp hstep
    cases hstep
    exact ⟨lines, h.read hjournal (mem_of_getElem? hr) hdrained landed _
      (eraseIdx_subset ..)⟩

theorem run_resumed {s : SessionState P} {events : List (SessionEvent P)}
    (hmeets : AlongRun (step maxBufferSize) Meets {} events)
    (hrun : events.foldlM (step maxBufferSize) {} = some s) : s.Resumed := by
  have hstep : ∀ (s : SessionState P) e s', (∃ lines, s.Inv maxBufferSize lines) → s.Meets e →
      s.step maxBufferSize e = some s' → ∃ lines, s'.Inv maxBufferSize lines := by
    intro s e s' hinv hm hs
    obtain ⟨lines, h⟩ := hinv
    exact h.step hm hs
  obtain ⟨lines, h⟩ := hmeets.invariant hstep ⟨[], Inv.start⟩ hrun
  exact h.answers

/-- The journal and what waits for it are the events since its header, in the order of their numbers. -/
theorem run_journaled {s : SessionState P} {events : List (SessionEvent P)}
    (hmeets : AlongRun (step maxBufferSize) Meets {} events)
    (hrun : events.foldlM (step maxBufferSize) {} = some s) :
    s.dispatched.Pairwise (·.seq < ·.seq) ∧ s.tail <:+ s.dispatched ∧
      ∃ lines, s.file = .written lines ∧ (s.Blank lines ∨ ∃ epoch, s.Headed lines epoch) := by
  obtain ⟨lines, h⟩ := hmeets.invariant (I := fun s => ∃ lines, s.Inv maxBufferSize lines)
    (fun _ _ _ ⟨_, h⟩ hm hs => h.step hm hs) ⟨[], Inv.start⟩ hrun
  exact ⟨h.sorted, h.tail, lines, h.file, h.content⟩

instance decidable_meets (s : SessionState P) : ∀ e, Decidable (s.Meets e)
  | .flushed landed => inferInstanceAs (Decidable (∀ journal ∈ s.journal,
      (journal.flushing.getD []).length ≤ landed.lines))
  | .close => inferInstanceAs (Decidable (∀ journal ∈ s.journal,
      journal.headerPending = true ∨ lastSeqOf s.file.parsed = journal.seq))
  | .crash landed => inferInstanceAs (Decidable (∀ journal ∈ s.journal,
      (journal.flushing.getD []).length ≤ landed.lines ∧ journal.pendingLines = [] ∧
        (journal.headerPending = true ∨ lastSeqOf (s.landedFile journal landed).parsed = journal.seq)))
  | .createSessionState | .readColdWatermark | .dispatch _ | .dispatchVolatile | .dispatchFailed
  | .getBufferedSince _ _ | .drained _ | .read _ _ => isTrue trivial

/-- Two events, and a client that asks for the second one after a restart. -/
def restarted : List (SessionEvent Nat) :=
  [.createSessionState, .dispatch 10, .dispatchVolatile, .flushed ⟨2, none⟩, .dispatch 11,
    .crash ⟨1, none⟩, .createSessionState, .getBufferedSince ⟨1, 0, 1⟩ fun _ => true, .drained 0,
    .dispatch 12, .read 0 ⟨0, some .whole⟩]

theorem run_resumed_restarted : ∃ s, restarted.foldlM (step 1000) {} = some s ∧ s.Resumed := by
  obtain ⟨s, hrun⟩ := isSome_iff_exists.mp
    (show (restarted.foldlM (step 1000) {}).isSome = true by decide +kernel)
  exact ⟨s, hrun, run_resumed (by decide +kernel) hrun⟩

theorem run_journaled_restarted :
    ∃ s, restarted.foldlM (step 1000) {} = some s ∧ s.dispatched.Pairwise (·.seq < ·.seq) := by
  obtain ⟨s, hrun⟩ := isSome_iff_exists.mp
    (show (restarted.foldlM (step 1000) {}).isSome = true by decide +kernel)
  exact ⟨s, hrun, (run_journaled (by decide +kernel) hrun).1⟩

/-- The crash loses the second event, and the next one gets its number. -/
def reused : List (SessionEvent Nat) :=
  [.createSessionState, .dispatch 10, .flushed ⟨2, none⟩, .dispatch 11, .crash ⟨0, none⟩,
    .createSessionState, .dispatch 12, .getBufferedSince ⟨2, 0, 2⟩ fun _ => true]

theorem reused_notResumed : ∃ s, reused.foldlM (step 1000) {} = some s ∧ ¬ s.Resumed := by
  have hrun : (reused.foldlM (step 1000) {}).any (fun s =>
      decide (s.dispatched = [⟨1, 10⟩, ⟨2, 11⟩, ⟨2, 12⟩]) &&
      s.answers.any fun a => decide ((a.cursor, a.asked, a.events) = (⟨2, 0, 2⟩, 3, some [])) &&
        a.filter ⟨2, 12⟩) = true := by
    decide +kernel
  obtain ⟨s, hs, hfacts⟩ := (Option.any_eq_true ..).mp hrun
  rw [Bool.and_eq_true, decide_eq_true_iff, List.any_eq_true] at hfacts
  obtain ⟨hdispatched, a, ha, hanswer⟩ := hfacts
  rw [Bool.and_eq_true, decide_eq_true_iff, Prod.mk.injEq, Prod.mk.injEq] at hanswer
  obtain ⟨⟨hcursor, hasked, hevents⟩, hfilter⟩ := hanswer
  refine ⟨s, hs, fun hresumed => ?_⟩
  obtain ⟨n, hlow, hhigh, he⟩ := hresumed a ha [] hevents
  rw [hdispatched] at hhigh he
  obtain rfl : n = 3 := le_antisymm hhigh (hasked ▸ hlow)
  rw [hcursor] at he
  change [] = [JournalEntry.mk 2 12].filter a.filter at he
  rw [filter_cons_of_pos hfilter] at he
  cases he

end SessionState
end Echadron.Server
