import Echadron.Persistence.OwnedFlushes

namespace Echadron.Persistence
open Lib List

variable {R : Type}

/-! Reading a log line by line. -/

/-- Records as lines: `parse` decodes the bytes of a line and parses its text. -/
structure LineCodec (R : Type) where
  stringify : R → Bytes
  parse : Bytes → Option R
  stringify_ne_nil : ∀ record, stringify record ≠ []
  -- `JSON.stringify` escapes the line breaks in a string
  newline_not_mem : ∀ record, 10 ∉ stringify record
  return_not_mem : ∀ record, 13 ∉ stringify record
  parse_stringify : ∀ record, parse (stringify record) = some record

/-- The complete lines of a text, and what follows the last of them. -/
def splitLines : Bytes → List Bytes × Bytes
  | [] => ([], [])
  | b :: text =>
    if b = 10 then ([] :: (splitLines text).1, (splitLines text).2)
    else
      match (splitLines text).1 with
      | [] => ([], b :: (splitLines text).2)
      | line :: lines => ((b :: line) :: lines, (splitLines text).2)

def parseLine (codec : LineCodec R) (raw : Bytes) (lineNumber : Nat) (allowTruncated : Bool) :
    Except Nat (Option R) :=
  let line := if raw.getLast? = some 13 then raw.dropLast else raw
  if line = [] then .ok none
  else
    match codec.parse line with
    | some record => .ok (some record)
    | none => if allowTruncated then .ok none else .error lineNumber

structure LogReader (R : Type) where
  lineNumber : Nat := 0
  /-- What has been yielded. -/
  records : List R := []

namespace LogReader

variable (codec : LineCodec R)

def readLine (allowTruncated : Bool) (reader : LogReader R) (raw : Bytes) : Except Nat (LogReader R) :=
  (parseLine codec raw (reader.lineNumber + 1) allowTruncated).map fun record =>
    { lineNumber := reader.lineNumber + 1
      records := reader.records ++ record.toList }

/-- The text that waits for the end of its line stands beside the reader. -/
def readChunk (state : LogReader R × Bytes) (chunk : Bytes) : Except Nat (LogReader R × Bytes) :=
  let split := splitLines (state.2 ++ chunk)
  (split.1.foldlM (readLine codec false) state.1).map fun reader => (reader, split.2)

end LogReader

/-- `read`, once the log has been flushed. -/
def readLog (codec : LineCodec R) (chunks : List Bytes) : Except Nat (List R) :=
  (chunks.foldlM (LogReader.readChunk codec) ({}, [])).bind fun state =>
    if state.2 = [] then .ok state.1.records
    else (state.1.readLine codec true state.2).map LogReader.records

theorem splitLines_append (a b : Bytes) : splitLines (a ++ b) =
    ((splitLines a).1 ++ (splitLines ((splitLines a).2 ++ b)).1, (splitLines ((splitLines a).2 ++ b)).2) := by
  induction a with
  | nil => rfl
  | cons x a ih =>
    rw [cons_append, splitLines, ih, splitLines]
    by_cases hx : x = 10
    · rw [if_pos hx, if_pos hx]
      rfl
    · rw [if_neg hx, if_neg hx]
      cases hlines : (splitLines a).1 with
      | nil => rw [nil_append, nil_append, cons_append, splitLines, if_neg hx]
      | cons line lines => rfl

theorem splitLines_of_not_mem (h : 10 ∉ text) : splitLines text = ([], text) := by
  induction text with
  | nil => rfl
  | cons b text ih =>
    rw [mem_cons, not_or] at h
    rw [splitLines, if_neg (Ne.symm h.1), ih h.2]

theorem newline_not_mem_splitLines (text : Bytes) : 10 ∉ (splitLines text).2 := by
  induction text with
  | nil => exact not_mem_nil
  | cons b text ih =>
    rw [splitLines]
    by_cases hb : b = 10
    · rw [if_pos hb]
      exact ih
    · rw [if_neg hb]
      split
      · rw [mem_cons, not_or]
        exact ⟨Ne.symm hb, ih⟩
      · exact ih

theorem splitLines_line (h : 10 ∉ line) (text : Bytes) :
    splitLines (line ++ 10 :: text) = (line :: (splitLines text).1, (splitLines text).2) := by
  induction line with
  | nil => rw [nil_append, splitLines, if_pos rfl]
  | cons b line ih =>
    rw [mem_cons, not_or] at h
    rw [cons_append, splitLines, if_neg (Ne.symm h.1), ih h.2]

theorem splitLines_encodeBatch (codec : LineCodec R) (records : List R) {tail : Bytes} (htail : 10 ∉ tail) :
    splitLines (encodeBatch codec.stringify records ++ tail) = (records.map codec.stringify, tail) := by
  induction records with
  | nil => exact splitLines_of_not_mem htail
  | cons record records ih =>
    have hbatch : encodeBatch codec.stringify (record :: records) ++ tail =
        codec.stringify record ++ 10 :: (encodeBatch codec.stringify records ++ tail) := by
      simp [encodeBatch]
    rw [hbatch, splitLines_line (codec.newline_not_mem record), ih]
    rfl

variable {codec : LineCodec R}

theorem readChunks (chunks : List Bytes) (reader : LogReader R) (h : 10 ∉ pending) :
    chunks.foldlM (LogReader.readChunk codec) (reader, pending) =
      LogReader.readChunk codec (reader, pending) chunks.flatten := by
  induction chunks generalizing reader pending with
  | nil =>
    rw [LogReader.readChunk, flatten_nil, append_nil, splitLines_of_not_mem h]
    rfl
  | cons chunk chunks ih =>
    have hpending := newline_not_mem_splitLines (pending ++ chunk)
    rw [foldlM_cons, flatten_cons, LogReader.readChunk, LogReader.readChunk]
    rw [← append_assoc, splitLines_append (pending ++ chunk), foldlM_append]
    cases (splitLines (pending ++ chunk)).1.foldlM (LogReader.readLine codec false) reader with
    | error line => rfl
    | ok next => exact ih next hpending

theorem parseLine_stringify (record : R) (lineNumber : Nat) (allowTruncated : Bool) :
    parseLine codec (codec.stringify record) lineNumber allowTruncated = .ok (some record) := by
  have hlast : (codec.stringify record).getLast? ≠ some 13 := fun hlast =>
    codec.return_not_mem record (mem_of_getLast? hlast)
  rw [parseLine, if_neg hlast, if_neg (codec.stringify_ne_nil record), codec.parse_stringify]

theorem readLines_stringify (records : List R) (reader : LogReader R) :
    (records.map codec.stringify).foldlM (LogReader.readLine codec false) reader =
      .ok { lineNumber := reader.lineNumber + records.length, records := reader.records ++ records } := by
  induction records generalizing reader with
  | nil =>
    rw [append_nil]
    rfl
  | cons record records ih =>
    rw [map_cons, foldlM_cons, LogReader.readLine, parseLine_stringify]
    refine (ih _).trans ?_
    have hnumber : reader.lineNumber + 1 + records.length = reader.lineNumber + (records.length + 1) := by
      omega
    simp [hnumber]

theorem parseLine_truncated (raw : Bytes) (lineNumber : Nat) :
    ∃ record, parseLine codec raw lineNumber true = .ok record := by
  rw [parseLine]
  generalize (if raw.getLast? = some 13 then raw.dropLast else raw) = line
  by_cases hnil : line = []
  · exact ⟨none, if_pos hnil⟩
  · rw [if_neg hnil]
    cases codec.parse line with
    | some record => exact ⟨some record, rfl⟩
    | none => exact ⟨none, rfl⟩

/-- Whole lines are read, whatever stands after them. -/
theorem readLog_encodeBatch {tail : Bytes} (htail : 10 ∉ tail)
    (hchunks : chunks.flatten = encodeBatch codec.stringify records ++ tail) :
    ∃ more, readLog codec chunks = .ok (records ++ more) := by
  have hread : chunks.foldlM (LogReader.readChunk codec) ({}, []) = .ok (⟨records.length, records⟩, tail) := by
    rw [readChunks chunks {} not_mem_nil, LogReader.readChunk, nil_append, hchunks,
      splitLines_encodeBatch codec records htail]
    rw [readLines_stringify, zero_add]
    rfl
  rw [readLog, hread]
  by_cases hnil : tail = []
  · refine ⟨[], ?_⟩
    rw [append_nil]
    exact if_pos hnil
  · obtain ⟨record, hrecord⟩ := parseLine_truncated tail (records.length + 1)
    refine ⟨record.toList, ?_⟩
    refine (if_neg hnil).trans ?_
    rw [LogReader.readLine, hrecord]
    rfl

end Echadron.Persistence
