import Echadron.Session.Grep

namespace Echadron.Session
open Lib List Option

variable {fold : UInt16 → UInt16} {start : Units → Nat} {req : FsGrepRequest} {file : TextFile} {hit : Units → Bool}

/-! Records of one file. -/

def FileBuf.feed (buf : FileBuf) (req : FsGrepRequest) : RgJsonRecord → FileBuf
  | .contextLine _ lines => buf.addContext req lines
  | .matchLine _ lines lineNumber start => buf.addMatch req lines lineNumber start
  | _ => buf

def FileBuf.feedAll (buf : FileBuf) (req : FsGrepRequest) (records : List RgJsonRecord) : FileBuf :=
  records.foldl (fun buf record => buf.feed req record) buf

theorem FileBuf.feedAll_cons (buf : FileBuf) (record : RgJsonRecord) (records : List RgJsonRecord) :
    buf.feedAll req (record :: records) = (buf.feed req record).feedAll req records := rfl

theorem FileBuf.feedAll_append (buf : FileBuf) (a b : List RgJsonRecord) :
    buf.feedAll req (a ++ b) = (buf.feedAll req a).feedAll req b := foldl_append

def RgJsonRecord.hitLine : RgJsonRecord → Option Nat
  | .matchLine _ _ lineNumber _ => some lineNumber
  | _ => none

theorem feed_found (records : List RgJsonRecord) (buf : FileBuf) :
    ∃ new, (buf.feedAll req records).found = buf.found ++ new ∧
      new.map FsGrepMatch.line = records.filterMap RgJsonRecord.hitLine ∧ ∀ m ∈ new, m.after = [] := by
  induction records generalizing buf with
  | nil => exact ⟨[], (append_nil _).symm, rfl, forall_mem_nil _⟩
  | cons record records ih =>
    obtain ⟨new, hfound, hlines, hafter⟩ := ih (buf.feed req record)
    cases record with
    | matchLine path line lineNumber start =>
      refine ⟨{ line := lineNumber
                col := start + 1
                text := stripTrailingNewline line
                before := sliceLast buf.pending req.contextLines
                after := [] } :: new, ?_, ?_, forall_mem_cons.mpr ⟨rfl, hafter⟩⟩
      · rw [FileBuf.feedAll_cons, hfound]
        exact append_assoc ..
      · rw [map_cons, hlines]
        rfl
    | contextLine path line => exact ⟨new, hfound, hlines, hafter⟩
    | fileBegin path => exact ⟨new, hfound, hlines, hafter⟩
    | fileEnd path => exact ⟨new, hfound, hlines, hafter⟩

theorem finalMatches_lines (buf : FileBuf) :
    (buf.finalMatches req).map FsGrepMatch.line = buf.found.map FsGrepMatch.line := by
  rw [FileBuf.finalMatches]
  split_ifs
  · cases hlast : buf.found.getLast? with
    | none => rw [getLast?_eq_none_iff.mp hlast]; rfl
    | some last =>
      obtain ⟨init, hinit⟩ := getLast?_eq_some_iff.mp hlast
      rw [hinit, dropLast_concat, map_append, map_append]
      rfl
  · rfl

theorem finalMatches_cons {buf : FileBuf} {first : FsGrepMatch} {more : List FsGrepMatch}
    (h : buf.found = first :: more) (hmore : more ≠ []) : (buf.finalMatches req).head? = some first := by
  rw [FileBuf.finalMatches, h]
  split_ifs
  · rw [dropLast_cons_of_ne_nil hmore]
    rfl
  · rfl

def fileRecords (hit : Units → Bool) (start : Units → Nat) (req : FsGrepRequest) (path : String) (lines : List Units) :
    List RgJsonRecord :=
  lines.zipIdx.filterMap (lineRecord hit start req.contextLines path lines)

theorem hitLine_records (path : String) (lines rest : List Units) (i : Nat) :
    ((rest.zipIdx i).filterMap (lineRecord hit start req.contextLines path lines)).filterMap RgJsonRecord.hitLine =
      hitLines hit i rest := by
  rw [filterMap_filterMap]
  induction rest generalizing i with
  | nil => rfl
  | cons line rest ih =>
    have hrecord : (lineRecord hit start req.contextLines path lines (line, i)).bind RgJsonRecord.hitLine =
        if hit line then some (i + 1) else none := by
      rw [lineRecord]
      split_ifs
      · rfl
      · rfl
      · rfl
    rw [zipIdx_cons, filterMap_cons, hrecord, hitLines, ih]
    split_ifs
    · rfl
    · rfl

theorem filterMap_from (g : Units → β) (lines : List Units) (i least : Nat) :
    (lines.zipIdx i).filterMap (fun entry => if least ≤ entry.2 then some (g entry.1) else none) =
      (lines.drop (least - i)).map g := by
  induction lines generalizing i with
  | nil => rw [drop_nil]; rfl
  | cons line lines ih =>
    rw [zipIdx_cons, filterMap_cons, ih]
    by_cases hleast : least ≤ i
    · have hzero : least - i = 0 := by omega
      have hnext : least - (i + 1) = 0 := by omega
      rw [if_pos hleast, hzero, hnext]
      rfl
    · have hnext : least - i = least - (i + 1) + 1 := by omega
      rw [if_neg hleast, hnext, drop_succ_cons]

theorem filterMap_upTo (g : Units → β) (lines : List Units) (i bound : Nat) :
    (lines.zipIdx i).filterMap (fun entry => if entry.2 < bound then some (g entry.1) else none) =
      (lines.take (bound - i)).map g := by
  induction lines generalizing i with
  | nil => rw [take_nil]; rfl
  | cons line lines ih =>
    rw [zipIdx_cons, filterMap_cons, ih]
    by_cases hbound : i < bound
    · have hnext : bound - i = bound - (i + 1) + 1 := by omega
      rw [if_pos hbound, hnext, take_succ_cons]
      rfl
    · have hzero : bound - i = 0 := by omega
      have hnext : bound - (i + 1) = 0 := by omega
      rw [if_neg hbound, hzero, hnext]
      rfl

theorem any_noHit {lines : List Units} (h : ∀ line ∈ lines, hit line = false) (i : Nat) (near : Units × Nat → Bool) :
    ((lines.zipIdx i).any fun other => hit other.1 && near other) = false := by
  rw [List.any_eq_false]
  intro other hother
  rw [h other.1 (fst_mem_of_mem_zipIdx hother), Bool.false_and]
  exact Bool.false_ne_true

/-- One line that matches, between lines that do not. -/
structure OneHit (hit : Units → Bool) (before : List Units) (line : Units) (after : List Units) : Prop where
  before : ∀ other ∈ before, hit other = false
  line : hit line = true
  after : ∀ other ∈ after, hit other = false

variable {before after : List Units} {line : Units}

theorem OneHit.near (h : OneHit hit before line after) (i contextLines : Nat) :
    ((before ++ line :: after).zipIdx.any fun other =>
        hit other.1 && decide (i ≤ other.2 + contextLines ∧ other.2 ≤ i + contextLines)) =
      decide (i ≤ before.length + contextLines ∧ before.length ≤ i + contextLines) := by
  rw [zipIdx_append, any_append, any_noHit h.before, zipIdx_cons, any_cons, any_noHit h.after, h.line,
    Bool.false_or, Bool.or_false, Bool.true_and, zero_add]

theorem OneHit.records (h : OneHit hit before line after) (path : String) :
    fileRecords hit start req path (before ++ line :: after) =
      (before.drop (before.length - req.contextLines)).map (.contextLine path) ++
        .matchLine path line (before.length + 1) (start line) ::
          (after.take req.contextLines).map (.contextLine path) := by
  have hother {other : Units} (i : Nat) (hnone : hit other = false) :
      lineRecord hit start req.contextLines path (before ++ line :: after) (other, i) =
        if i ≤ before.length + req.contextLines ∧ before.length ≤ i + req.contextLines then
          some (.contextLine path other) else none := by
    rw [lineRecord, hnone, if_neg Bool.false_ne_true, h.near]
    simp only [decide_eq_true_eq]
  have hbefore : (before.zipIdx).filterMap (lineRecord hit start req.contextLines path (before ++ line :: after)) =
      (before.drop (before.length - req.contextLines)).map (.contextLine path) := by
    have hfrom := filterMap_from (RgJsonRecord.contextLine path) before 0 (before.length - req.contextLines)
    rw [Nat.sub_zero] at hfrom
    rw [← hfrom]
    apply filterMap_congr
    rintro ⟨other, i⟩ hmem
    obtain ⟨_, hi, _⟩ := mem_zipIdx hmem
    rw [hother i (h.before other (fst_mem_of_mem_zipIdx hmem))]
    apply if_congr _ rfl rfl
    omega
  have hafter : (after.zipIdx (before.length + 1)).filterMap
      (lineRecord hit start req.contextLines path (before ++ line :: after)) =
        (after.take req.contextLines).map (.contextLine path) := by
    have hbound := filterMap_upTo (RgJsonRecord.contextLine path) after (before.length + 1)
      (before.length + 1 + req.contextLines)
    rw [Nat.add_sub_cancel_left] at hbound
    rw [← hbound]
    apply filterMap_congr
    rintro ⟨other, i⟩ hmem
    obtain ⟨hi, _, _⟩ := mem_zipIdx hmem
    rw [hother i (h.after other (fst_mem_of_mem_zipIdx hmem))]
    apply if_congr _ rfl rfl
    omega
  have hline : lineRecord hit start req.contextLines path (before ++ line :: after) (line, before.length) =
      some (.matchLine path line (before.length + 1) (start line)) := by
    rw [lineRecord, if_pos h.line]
  rw [fileRecords, zipIdx_append, filterMap_append, zipIdx_cons, filterMap_cons, zero_add, hline,
    hbefore, hafter]

theorem feed_context (lines : List Units) (path : String) {buf : FileBuf}
    (h : buf.pending.length + lines.length ≤ req.contextLines * 2) :
    buf.feedAll req (lines.map (.contextLine path)) =
      { buf with pending := buf.pending ++ lines.map stripTrailingNewline } := by
  induction lines generalizing buf with
  | nil => rw [map_nil, map_nil, append_nil]; rfl
  | cons line lines ih =>
    rw [length_cons] at h
    have hadd : buf.feed req (.contextLine path line) =
        { buf with pending := buf.pending ++ [stripTrailingNewline line] } := by
      rw [FileBuf.feed, FileBuf.addContext, if_neg]
      rw [length_append, length_singleton]
      omega
    rw [map_cons, FileBuf.feedAll_cons, hadd, ih]
    · rw [map_cons, append_assoc, singleton_append]
    · rw [length_append, length_singleton]
      omega

/-- What ripgrep's records of a file come to. -/
def rgFound (hit : Units → Bool) (start : Units → Nat) (req : FsGrepRequest) (path : String) (lines : List Units) :
    List FsGrepMatch :=
  (FileBuf.feedAll {} req (fileRecords hit start req path lines)).finalMatches req

theorem OneHit.rgFound (h : OneHit hit before line after) (path : String) :
    rgFound hit start req path (before ++ line :: after) =
      [{ line := before.length + 1
         col := start line + 1
         text := stripTrailingNewline line
         before := (before.drop (before.length - req.contextLines)).map stripTrailingNewline
         after := (after.take req.contextLines).map stripTrailingNewline }] := by
  have hbefore : (before.drop (before.length - req.contextLines)).length ≤ req.contextLines := by
    rw [length_drop]
    omega
  have hafter : ((after.take req.contextLines).map stripTrailingNewline).length ≤ req.contextLines := by
    rw [length_map, length_take]
    omega
  have hslice : sliceLast ((before.drop (before.length - req.contextLines)).map stripTrailingNewline) req.contextLines =
      (before.drop (before.length - req.contextLines)).map stripTrailingNewline := by
    rw [sliceLast]
    split_ifs
    · rfl
    · have hzero : ((before.drop (before.length - req.contextLines)).map stripTrailingNewline).length -
          req.contextLines = 0 := by
        rw [length_map]
        omega
      rw [hzero, drop_zero]
  have hfirst := @feed_context req (before.drop (before.length - req.contextLines)) path {}
    (by rw [length_nil]; omega)
  have hlast := @feed_context req (after.take req.contextLines) path
    { found := [{ line := before.length + 1
                  col := start line + 1
                  text := stripTrailingNewline line
                  before := (before.drop (before.length - req.contextLines)).map stripTrailingNewline
                  after := [] }] }
    (by rw [length_map] at hafter; rw [length_nil]; omega)
  rw [nil_append] at hfirst hlast
  rw [Session.rgFound, h.records, FileBuf.feedAll_append, hfirst, FileBuf.feedAll_cons, FileBuf.feed, FileBuf.addMatch,
    hslice, nil_append, hlast, FileBuf.finalMatches]
  split_ifs with hpending
  · rw [take_of_length_le hafter]
    rfl
  · have hnone : (after.take req.contextLines).map stripTrailingNewline = [] :=
      eq_nil_of_length_eq_zero (Nat.eq_zero_of_not_pos hpending)
    rw [hnone]

variable {re : Units → Option Nat} {lines : List Units}

theorem nodeFound_none (h : ∀ line ∈ rest, (re line).isSome = false) (i : Nat) :
    nodeFound req re lines i rest = [] := by
  induction rest generalizing i with
  | nil => rfl
  | cons line rest ih =>
    obtain ⟨hline, hrest⟩ := forall_mem_cons.mp h
    rw [nodeFound, isSome_eq_false_iff.mp hline |> isNone_iff_eq_none.mp, ih hrest]
    rfl

theorem nodeFound_append (a b : List Units) (i : Nat) :
    nodeFound req re lines i (a ++ b) = nodeFound req re lines i a ++ nodeFound req re lines (i + a.length) b := by
  induction a generalizing i with
  | nil => rfl
  | cons line a ih =>
    have hindex : i + 1 + a.length = i + (line :: a).length := by
      rw [length_cons]
      omega
    rw [cons_append, nodeFound, nodeFound, ih, hindex, append_assoc]

theorem nodeFound_at (h : ∀ other ∈ a, (re other).isSome = false) (hre : re line = some index) :
    nodeFound req re (a ++ line :: b) 0 (a ++ line :: b) =
      { line := a.length + 1
        col := index + 1
        text := line
        before := a.drop (a.length - req.contextLines)
        after := b.take req.contextLines } :: nodeFound req re (a ++ line :: b) (a.length + 1) b := by
  have hdrop : (a ++ line :: b).drop (a.length + 1) = b := by
    simp
  rw [nodeFound_append, nodeFound_none h, nil_append, nodeFound, hre, zero_add, map_some,
    toList_some, nodeMatch, take_left, hdrop]
  rfl

theorem hitLines_none (h : ∀ line ∈ rest, hit line = false) (i : Nat) : hitLines hit i rest = [] := by
  induction rest generalizing i with
  | nil => rfl
  | cons line rest ih =>
    obtain ⟨hline, hrest⟩ := forall_mem_cons.mp h
    rw [hitLines, hline, if_neg Bool.false_ne_true, ih hrest]

theorem noHit_hitLines (h : hitLines hit i rest = []) : ∀ line ∈ rest, hit line = false := by
  induction rest generalizing i with
  | nil => exact forall_mem_nil _
  | cons line rest ih =>
    rw [hitLines] at h
    split_ifs at h with hline
    · exact forall_mem_cons.mpr ⟨Bool.eq_false_iff.mpr hline, ih h⟩

theorem hitLines_append (a b : List Units) (i : Nat) :
    hitLines hit i (a ++ b) = hitLines hit i a ++ hitLines hit (i + a.length) b := by
  induction a generalizing i with
  | nil => rfl
  | cons line a ih =>
    have hindex : i + 1 + a.length = i + (line :: a).length := by
      rw [length_cons]
      omega
    rw [cons_append, hitLines, hitLines, ih, hindex]
    split_ifs
    · rfl
    · rfl

theorem hitLines_map (f : Units → Units) (i : Nat) (rest : List Units) :
    hitLines hit i (rest.map f) = hitLines (fun line => hit (f line)) i rest := by
  induction rest generalizing i with
  | nil => rfl
  | cons line rest ih => rw [map_cons, hitLines, hitLines, ih]

theorem lt_of_mem_hitLines (h : n ∈ hitLines hit i rest) : i < n := by
  induction rest generalizing i with
  | nil => cases h
  | cons line rest ih =>
    rw [hitLines] at h
    split_ifs at h
    · rcases mem_cons.mp h with rfl | hlater
      · exact Nat.lt_succ_self i
      · exact Nat.lt_of_succ_lt (ih hlater)
    · exact Nat.lt_of_succ_lt (ih h)

theorem hitLines_inj
    (h : hitLines hit i rest = hitLines other i rest) : ∀ line ∈ rest, hit line = other line := by
  induction rest generalizing i with
  | nil => exact forall_mem_nil _
  | cons line rest ih =>
    rw [hitLines, hitLines] at h
    have hnot {p : Units → Bool} : i + 1 ∉ hitLines p (i + 1) rest :=
      fun hmem => lt_irrefl _ (lt_of_mem_hitLines hmem)
    split_ifs at h with hline hother hother
    · exact forall_mem_cons.mpr ⟨hline.trans hother.symm, ih (cons.inj h).2⟩
    · exact absurd (h ▸ mem_cons_self) hnot
    · exact absurd (h ▸ mem_cons_self) hnot
    · rw [Bool.not_eq_true] at hline hother
      exact forall_mem_cons.mpr ⟨hline.trans hother.symm, ih h⟩

theorem rgFound_lines (path : String) (lines : List Units) :
    (rgFound hit start req path lines).map FsGrepMatch.line = hitLines hit 0 lines := by
  obtain ⟨new, hfound, hlines, _⟩ := @feed_found req (fileRecords hit start req path lines) {}
  rw [rgFound, finalMatches_lines, hfound, nil_append, hlines, fileRecords, hitLine_records]

/-- What is compared of a match: all but its column. -/
def FsGrepMatch.seen (m : FsGrepMatch) : FsGrepMatch := { m with col := 0 }

theorem records_noContext (h : req.contextLines = 0) (path : String) (lines : List Units) :
    fileRecords hit start req path lines = lines.zipIdx.filterMap fun entry =>
        if hit entry.1 then some (.matchLine path entry.1 (entry.2 + 1) (start entry.1)) else none := by
  apply filterMap_congr
  rintro ⟨line, i⟩ hmem
  rw [lineRecord, h]
  split_ifs with hline hnear
  · rfl
  · obtain ⟨⟨other, j⟩, hother, hboth⟩ := any_eq_true.mp hnear
    obtain ⟨hhit, hij⟩ := Bool.and_eq_true_iff.mp hboth
    have hindex := of_decide_eq_true hij
    obtain rfl : i = j := by omega
    have hthis := mem_zipIdx_iff_getElem?.mp hmem
    have hthat := mem_zipIdx_iff_getElem?.mp hother
    dsimp only at hthis hthat
    rw [hthis] at hthat
    rw [← some.inj hthat] at hhit
    exact absurd hhit hline
  · rfl

theorem seen_noContext (h : req.contextLines = 0) (path : String) (lines : List Units) {rest : List Units}
    (hre : ∀ line ∈ rest, hit line = (re (stripTrailingNewline line)).isSome) (i : Nat) {buf : FileBuf}
    (hpending : buf.pending = []) :
    ∃ new, (buf.feedAll req ((rest.zipIdx i).filterMap fun entry =>
        if hit entry.1 then some (RgJsonRecord.matchLine path entry.1 (entry.2 + 1) (start entry.1)) else none)) =
        { found := buf.found ++ new } ∧
      new.map FsGrepMatch.seen =
        (nodeFound req re lines i (rest.map stripTrailingNewline)).map FsGrepMatch.seen := by
  induction rest generalizing i buf with
  | nil =>
    obtain ⟨found, pending⟩ := buf
    obtain rfl : pending = [] := hpending
    exact ⟨[], by rw [append_nil]; rfl, rfl⟩
  | cons line rest ih =>
    obtain ⟨hline, hrest⟩ := forall_mem_cons.mp hre
    rw [zipIdx_cons, filterMap_cons, map_cons, nodeFound]
    cases hindex : re (stripTrailingNewline line) with
    | none =>
      rw [hindex, isSome_none] at hline
      rw [hline, if_neg Bool.false_ne_true]
      exact ih hrest (i + 1) hpending
    | some index =>
      rw [hindex, isSome_some] at hline
      rw [hline, if_pos rfl]
      rw [FileBuf.feedAll_cons]
      obtain ⟨new, hfeed, hseen⟩ := @ih hrest (i + 1)
        (buf.feed req (.matchLine path line (i + 1) (start line))) rfl
      refine ⟨{ line := i + 1
                col := start line + 1
                text := stripTrailingNewline line
                before := []
                after := [] } :: new, ?_, ?_⟩
      · rw [hfeed, FileBuf.feed, FileBuf.addMatch, hpending, sliceLast, if_pos h, append_assoc]
        rfl
      · rw [map_cons, hseen, map_some, toList_some, singleton_append, map_cons, nodeMatch, h]
        have hbefore : (lines.take i).drop (i - 0) = [] := by
          apply drop_of_length_le
          rw [length_take]
          omega
        rw [hbefore, take_zero]
        rfl

/-- The line breaks and the matches of a file are such that both searches report the same. -/
structure Agreeing (fold : UInt16 → UInt16) (req : FsGrepRequest) (content : Units) : Prop where
  /-- No line matches only with its carriage return. -/
  returns : ∀ line ∈ rawLines [] content,
    rgMatches fold req line = (compileGrepPattern fold req (stripTrailingNewline line)).isSome
  /-- With context there is one match at most, and the context after it does not reach behind the last line feed. -/
  context : req.contextLines = 0 ∨ ∀ before line after, rawLines [] content = before ++ line :: after →
    rgMatches fold req line = true → OneHit (rgMatches fold req) before line after ∧
      (content.getLast? ≠ some 10 ∨ req.contextLines ≤ after.length)

theorem compileGrepPattern_nil (h : req.pattern ≠ []) : compileGrepPattern fold req [] = none := by
  rw [compileGrepPattern]
  split_ifs
  · rw [indexOf, if_neg h]
  · rw [map_nil, indexOf, if_neg]
    exact fun hnil => h (map_eq_nil_iff.mp hnil)

theorem emptyLine_noHit (h : req.pattern ≠ []) (content : Units) :
    ∀ line ∈ emptyLine content, (compileGrepPattern fold req line).isSome = false := by
  intro line hline
  rw [emptyLine] at hline
  split_ifs at hline
  · rw [mem_singleton.mp hline, compileGrepPattern_nil h]
    rfl
  · cases hline

/-- The matches of a file without ripgrep. -/
def nodeSearch (fold : UInt16 → UInt16) (req : FsGrepRequest) (content : Units) : List FsGrepMatch :=
  nodeFound req (compileGrepPattern fold req) (splitLines [] content) 0 (splitLines [] content)

/-- The matches of a file with ripgrep. -/
def rgSearch (fold : UInt16 → UInt16) (start : Units → Nat) (req : FsGrepRequest) (path : String) (content : Units) :
    List FsGrepMatch :=
  rgFound (rgMatches fold req) start req path (rawLines [] content)

theorem splitLines_raw (content : Units) :
    splitLines [] content = (rawLines [] content).map stripTrailingNewline ++ emptyLine content := by
  rw [splitLines_eq content not_mem_nil, nil_append]

theorem nodeSearch_lines (h : req.pattern ≠ []) (content : Units) :
    (nodeSearch fold req content).map FsGrepMatch.line =
      hitLines (fun line => (compileGrepPattern fold req (stripTrailingNewline line)).isSome) 0 (rawLines [] content) := by
  rw [nodeSearch, nodeFound_lines, splitLines_raw, hitLines_append, hitLines_none (emptyLine_noHit h content),
    append_nil, hitLines_map]

theorem nodeSearch_first
    (hreturns : ∀ line ∈ rawLines [] content,
      rgMatches fold req line = (compileGrepPattern fold req (stripTrailingNewline line)).isSome)
    (hraw : rawLines [] content = before ++ line :: after)
    (hbefore : ∀ other ∈ before, rgMatches fold req other = false) (hline : rgMatches fold req line = true) :
    ∃ index, nodeSearch fold req content =
      { line := before.length + 1
        col := index + 1
        text := stripTrailingNewline line
        before := (before.drop (before.length - req.contextLines)).map stripTrailingNewline
        after := (after.map stripTrailingNewline ++ emptyLine content).take req.contextLines } ::
      nodeFound req (compileGrepPattern fold req) (splitLines [] content) (before.length + 1)
        (after.map stripTrailingNewline ++ emptyLine content) := by
  rw [hraw] at hreturns
  obtain ⟨hfirst, hthis⟩ := forall_mem_append.mp hreturns
  rw [(forall_mem_cons.mp hthis).1] at hline
  obtain ⟨index, hindex⟩ := isSome_iff_exists.mp hline
  have hnone : ∀ other ∈ before.map stripTrailingNewline, (compileGrepPattern fold req other).isSome = false := by
    rw [List.forall_mem_map]
    intro other hother
    rw [← hfirst other hother]
    exact hbefore other hother
  have hlines : splitLines [] content = before.map stripTrailingNewline ++
        stripTrailingNewline line :: (after.map stripTrailingNewline ++ emptyLine content) := by
    rw [splitLines_raw, hraw, map_append, map_cons, append_assoc]
    rfl
  refine ⟨index, ?_⟩
  rw [nodeSearch, hlines, nodeFound_at hnone hindex, length_map, ← map_drop]

section SeenAlike

variable {path : String} {content : Units}
  (hseen : (rgSearch fold start req path content).map FsGrepMatch.seen = (nodeSearch fold req content).map FsGrepMatch.seen)
include hseen

theorem lines_seenAlike :
    (rgSearch fold start req path content).map FsGrepMatch.line = (nodeSearch fold req content).map FsGrepMatch.line := by
  have hlines := congrArg (map FsGrepMatch.line) hseen
  rw [List.map_map, List.map_map] at hlines
  exact hlines

section

variable (hpattern : req.pattern ≠ [])
include hpattern

theorem returns_seenAlike : ∀ line ∈ rawLines [] content,
    rgMatches fold req line = (compileGrepPattern fold req (stripTrailingNewline line)).isSome := by
  have hlines := lines_seenAlike hseen
  rw [nodeSearch_lines hpattern, rgSearch, rgFound_lines] at hlines
  exact hitLines_inj hlines

section

variable (hcontext : req.contextLines ≠ 0) (hraw : rawLines [] content = before ++ line :: after)
include hcontext hraw

theorem alone_seenAlike (hbefore : ∀ other ∈ before, rgMatches fold req other = false) (hline : rgMatches fold req line = true) :
    ∀ other ∈ after, rgMatches fold req other = false := by
  intro other hother
  by_contra hhit
  obtain ⟨new, hfound, hlines, hafter⟩ :=
    @feed_found req (fileRecords (rgMatches fold req) start req path (rawLines [] content)) {}
  rw [fileRecords, hitLine_records, hraw, hitLines_append, hitLines_none hbefore, hitLines, if_pos hline,
    nil_append] at hlines
  obtain ⟨first, more, rfl, _, hmore⟩ := map_eq_cons_iff.mp hlines
  have hne : more ≠ [] := by
    rintro rfl
    exact hhit (noHit_hitLines hmore.symm other hother)
  have hhead := @finalMatches_cons req _ first more hfound hne
  obtain ⟨index, hnode⟩ := nodeSearch_first (returns_seenAlike hseen hpattern) hraw hbefore hline
  have hfirst := congrArg head? hseen
  rw [head?_map, head?_map, hnode, rgSearch, rgFound, hhead] at hfirst
  have hsame := congrArg FsGrepMatch.after (some.inj hfirst)
  dsimp only [FsGrepMatch.seen] at hsame
  rw [hafter first mem_cons_self, eq_comm, take_eq_nil_iff] at hsame
  rcases hsame with hzero | hnone
  · exact hcontext hzero
  · have hnil := map_eq_nil_iff.mp (append_eq_nil_iff.mp hnone).1
    rw [hnil] at hother
    cases hother

theorem oneHit_seenAlike (hline : rgMatches fold req line = true) :
    OneHit (rgMatches fold req) before line after := by
  have hbefore : ∀ other ∈ before, rgMatches fold req other = false := by
    cases hfind : before.find? (rgMatches fold req) with
    | none => exact fun other hother => Bool.eq_false_iff.mpr (find?_eq_none.mp hfind other hother)
    | some first =>
      obtain ⟨hfirst, a, b, rfl, ha⟩ := find?_eq_some_iff_append.mp hfind
      rw [append_assoc, cons_append] at hraw
      have hrest := alone_seenAlike hseen hpattern hcontext hraw
        (fun other hother => Bool.not_eq_true' _ ▸ ha other hother) hfirst
      have hlater := hrest line (mem_append_right b mem_cons_self)
      rw [hline] at hlater
      cases hlater
  exact ⟨hbefore, hline, alone_seenAlike hseen hpattern hcontext hraw hbefore hline⟩

end

theorem agreeing_seenAlike : Agreeing fold req content := by
  refine ⟨returns_seenAlike hseen hpattern, or_iff_not_imp_left.mpr ?_⟩
  intro hcontext before line after hraw hline
  have hone := oneHit_seenAlike hseen hpattern hcontext hraw hline
  refine ⟨hone, or_iff_not_imp_left.mpr ?_⟩
  intro hlast
  obtain ⟨index, hnode⟩ := nodeSearch_first (returns_seenAlike hseen hpattern) hraw hone.before hline
  have hhead := congrArg head? hseen
  rw [head?_map, head?_map, hnode, rgSearch, hraw, hone.rgFound] at hhead
  have hafter := congrArg (fun seen => seen.after.length) (some.inj hhead)
  dsimp only [FsGrepMatch.seen] at hafter
  rw [length_map, length_take, length_take, length_append, length_map, emptyLine,
    if_pos (Or.inr (not_not.mp hlast)), length_singleton] at hafter
  omega

end

end SeenAlike

theorem rgSearch_noHit (h : ∀ line ∈ rawLines [] content, rgMatches fold req line = false)
    (path : String) : rgSearch fold start req path content = [] := by
  have hlines := @rgFound_lines start req (rgMatches fold req) path (rawLines [] content)
  rw [hitLines_none h] at hlines
  exact map_eq_nil_iff.mp hlines

theorem finalMatches_noPending (found : List FsGrepMatch) : FileBuf.finalMatches { found := found } req = found :=
  if_neg (lt_irrefl 0)

theorem nodeSearch_raw (hpattern : req.pattern ≠ []) (content : Units) : nodeSearch fold req content =
      nodeFound req (compileGrepPattern fold req) (splitLines [] content) 0
        ((rawLines [] content).map stripTrailingNewline) := by
  have hsplit := congrArg (nodeFound req (compileGrepPattern fold req) (splitLines [] content) 0) (splitLines_raw content)
  rw [nodeFound_append, nodeFound_none (emptyLine_noHit hpattern content), append_nil] at hsplit
  exact hsplit

theorem Agreeing.seenAlike (h : Agreeing fold req content) (hpattern : req.pattern ≠ []) (path : String) :
    (rgSearch fold start req path content).map FsGrepMatch.seen =
      (nodeSearch fold req content).map FsGrepMatch.seen := by
  rcases h.context with hzero | hcontext
  · obtain ⟨new, hfeed, hseen⟩ := @seen_noContext start req (rgMatches fold req) (compileGrepPattern fold req) hzero path
      (splitLines [] content) (rawLines [] content) h.returns 0 {} rfl
    rw [nodeSearch_raw hpattern, rgSearch, rgFound, records_noContext hzero, hfeed, finalMatches_noPending, ← hseen]
    rfl
  · cases hfind : (rawLines [] content).find? (rgMatches fold req) with
    | none =>
      have hnone : ∀ line ∈ rawLines [] content, rgMatches fold req line = false :=
        fun line hline => Bool.eq_false_iff.mpr (find?_eq_none.mp hfind line hline)
      have hstripped : ∀ line ∈ (rawLines [] content).map stripTrailingNewline,
          (compileGrepPattern fold req line).isSome = false := by
        rw [List.forall_mem_map]
        intro line hline
        rw [← h.returns line hline]
        exact hnone line hline
      rw [rgSearch_noHit hnone, nodeSearch_raw hpattern, nodeFound_none hstripped]
    | some line =>
      obtain ⟨hline, before, after, hraw, _⟩ := find?_eq_some_iff_append.mp hfind
      obtain ⟨hone, hlast⟩ := hcontext before line after hraw hline
      obtain ⟨index, hnode⟩ := nodeSearch_first h.returns hraw hone.before hline
      have hreturns := h.returns
      rw [hraw] at hreturns
      have hrest : ∀ other ∈ after.map stripTrailingNewline ++ emptyLine content,
          (compileGrepPattern fold req other).isSome = false := by
        intro other hother
        rcases mem_append.mp hother with hafter | hempty
        · obtain ⟨raw, hmem, rfl⟩ := mem_map.mp hafter
          rw [← hreturns raw (mem_append_right before (mem_cons_of_mem line hmem))]
          exact hone.after raw hmem
        · exact emptyLine_noHit hpattern content other hempty
      have hne : content ≠ [] := by
        rintro rfl
        exact cons_ne_nil _ _ (append_eq_nil_iff.mp hraw.symm).2
      have hafter : (after.take req.contextLines).map stripTrailingNewline =
          (after.map stripTrailingNewline ++ emptyLine content).take req.contextLines := by
        rcases hlast with hopen | hfar
        · rw [emptyLine, if_neg (not_or.mpr ⟨hne, hopen⟩), append_nil, map_take]
        · rw [take_append_of_le_length (by rw [length_map]; exact hfar), map_take]
      rw [hnode, nodeFound_none hrest, rgSearch, hraw, hone.rgFound, hafter]
      rfl

section Accumulator

def RgJsonRecord.lineOf (path : String) : RgJsonRecord → Prop
  | .contextLine other _ => other = path
  | .matchLine other _ _ _ => other = path
  | _ => False

structure Between (acc : RgJsonAccumulator) (files : List FsGrepFileHit) (total scanned : Nat) : Prop where
  keys : acc.fileBuf.keys = []
  files : acc.files = files
  total : acc.totalMatches = total
  scanned : acc.filesScanned = scanned

structure Within (acc : RgJsonAccumulator) (path : String) (buf : FileBuf) (files : List FsGrepFileHit)
    (total scanned : Nat) : Prop where
  keys : acc.fileBuf.keys = [path]
  buf : acc.fileBuf.get path = some buf
  files : acc.files = files
  total : acc.totalMatches = total
  scanned : acc.filesScanned = scanned

variable {acc : RgJsonAccumulator} {path : String} {buf : FileBuf} {files : List FsGrepFileHit} {total scanned : Nat}

theorem Between.begin (h : Between acc files total scanned) (hmax : scanned < req.maxFiles) (path : String) :
    Within (acc.feed req (.fileBegin path)) path {} files total (scanned + 1) := by
  rw [RgJsonAccumulator.feed, if_neg (by rw [h.scanned]; omega)]
  exact {
    keys := by
      rw [JsMap.keys_set_of_not_mem (by rw [h.keys]; exact not_mem_nil), h.keys]
      rfl
    buf := JsMap.get_set_self _ _ _
    files := h.files
    total := h.total
    scanned := by rw [h.scanned] }

theorem Within.set (h : Within acc path buf files total scanned) (next : FileBuf) :
    (acc.fileBuf.set path next).keys = [path] := by
  rw [JsMap.keys_set_of_mem (by rw [h.keys]; exact mem_cons_self), h.keys]

theorem Within.feed (h : Within acc path buf files total scanned)
    (hpath : record.lineOf path) (hfile : buf.found.length + record.hitLine.toList.length ≤ req.maxMatchesPerFile)
    (htotal : total + record.hitLine.toList.length ≤ req.maxTotalMatches) :
    Within (acc.feed req record) path (buf.feed req record) files (total + record.hitLine.toList.length) scanned := by
  cases record with
  | fileBegin other => cases hpath
  | fileEnd other => cases hpath
  | contextLine other lines =>
    obtain rfl : other = path := hpath
    rw [RgJsonAccumulator.feed, h.buf]
    exact ⟨h.set _, JsMap.get_set_self _ _ _, h.files, h.total, h.scanned⟩
  | matchLine other lines lineNumber start =>
    obtain rfl : other = path := hpath
    rw [RgJsonRecord.hitLine, toList_some, length_singleton] at hfile htotal
    rw [RgJsonAccumulator.feed, h.buf]
    dsimp only
    rw [if_neg (by rw [h.total]; omega), if_neg (by omega)]
    exact ⟨h.set _, JsMap.get_set_self _ _ _, h.files, congrArg (· + 1) h.total, h.scanned⟩

def feedRecords (req : FsGrepRequest) (acc : RgJsonAccumulator) (records : List RgJsonRecord) : RgJsonAccumulator :=
  records.foldl (fun acc record => acc.feed req record) acc

theorem feed_foundLength (buf : FileBuf) (record : RgJsonRecord) :
    (buf.feed req record).found.length = buf.found.length + record.hitLine.toList.length := by
  cases record with
  | matchLine path lines lineNumber start => exact length_append
  | contextLine path lines => rfl
  | fileBegin path => rfl
  | fileEnd path => rfl

theorem hitLine_cons (record : RgJsonRecord) (records : List RgJsonRecord) :
    ((record :: records).filterMap RgJsonRecord.hitLine).length =
      record.hitLine.toList.length + (records.filterMap RgJsonRecord.hitLine).length := by
  rw [filterMap_cons]
  cases record.hitLine with
  | none => exact (zero_add _).symm
  | some line => exact add_comm _ 1

theorem Within.feedAll (h : Within acc path buf files total scanned) (hpath : ∀ record ∈ records, record.lineOf path)
    (hfile : buf.found.length + (records.filterMap RgJsonRecord.hitLine).length ≤ req.maxMatchesPerFile)
    (htotal : total + (records.filterMap RgJsonRecord.hitLine).length ≤ req.maxTotalMatches) :
    Within (feedRecords req acc records) path (buf.feedAll req records) files
      (total + (records.filterMap RgJsonRecord.hitLine).length) scanned := by
  induction records generalizing acc buf total with
  | nil => exact h
  | cons record records ih =>
    obtain ⟨hthis, hrest⟩ := forall_mem_cons.mp hpath
    rw [hitLine_cons] at hfile htotal ⊢
    rw [← add_assoc]
    apply ih (h.feed hthis _ _) hrest
    · rw [feed_foundLength]
      omega
    · omega
    · omega
    · omega

def fileHit (path : String) (found : List FsGrepMatch) : List FsGrepFileHit :=
  if found = [] then [] else [⟨path, found⟩]

theorem Within.fileEnd (h : Within acc path buf files total scanned) :
    Between (acc.feed req (.fileEnd path)) (files ++ fileHit path (buf.finalMatches req)) total scanned := by
  have hlines := congrArg length (@finalMatches_lines req buf)
  rw [length_map, length_map] at hlines
  rw [RgJsonAccumulator.feed, RgJsonAccumulator.finalize, h.buf]
  exact {
    keys := by
      rw [JsMap.keys_delete, h.keys]
      simp
    files := by
      dsimp only
      rw [h.files, fileHit]
      split_ifs with hsome hnone hnone
      · rw [hnone] at hlines
        rw [← hlines] at hsome
        cases hsome
      · rfl
      · exact (append_nil files).symm
      · rw [← hlines] at hsome
        exact absurd (eq_nil_of_length_eq_zero (Nat.eq_zero_of_not_pos hsome)) hnone
    total := h.total
    scanned := h.scanned }

theorem lineOf_fileRecords (path : String) (lines : List Units) :
    ∀ record ∈ fileRecords hit start req path lines, record.lineOf path := by
  intro record hrecord
  obtain ⟨entry, _, hentry⟩ := mem_filterMap.mp hrecord
  rw [lineRecord] at hentry
  split_ifs at hentry
  · rw [← some.inj hentry]
    rfl
  · rw [← some.inj hentry]
    rfl

def rgCount (fold : UInt16 → UInt16) (req : FsGrepRequest) (file : TextFile) : Nat :=
  (hitLines (rgMatches fold req) 0 (rawLines [] file.content)).length

/-- How many lines match without ripgrep. -/
def nodeCount (fold : UInt16 → UInt16) (req : FsGrepRequest) (file : TextFile) : Nat :=
  (hitLines (fun line => (compileGrepPattern fold req line).isSome) 0 (splitLines [] file.content)).length

theorem Between.block (h : Between acc files total scanned) (file : TextFile) (hmax : scanned < req.maxFiles)
    (hfile : rgCount fold req file ≤ req.maxMatchesPerFile)
    (htotal : total + rgCount fold req file ≤ req.maxTotalMatches) :
    ∃ after ≤ scanned + 1, Between (feedRecords req acc (rgStream fold start req file))
      (files ++ fileHit file.path (rgSearch fold start req file.path file.content)) (total + rgCount fold req file)
      after := by
  have hcount := @hitLine_records start req (rgMatches fold req) file.path (rawLines [] file.content)
  rw [rgCount, ← hcount] at hfile htotal ⊢
  rw [rgStream]
  split_ifs with hany
  · refine ⟨scanned + 1, le_refl _, ?_⟩
    have hbegin := h.begin hmax file.path
    have hlines := hbegin.feedAll (lineOf_fileRecords file.path (rawLines [] file.content))
      (by rw [length_nil, zero_add]; exact hfile) htotal
    have hend := @Within.fileEnd req _ _ _ _ _ _ hlines
    rw [feedRecords, cons_append, foldl_cons, foldl_append]
    exact hend
  · have hnone : ∀ line ∈ rawLines [] file.content, rgMatches fold req line = false := by
      intro line hline
      exact Bool.eq_false_iff.mpr fun hhit => hany (any_eq_true.mpr ⟨line, hline, hhit⟩)
    refine ⟨scanned, Nat.le_succ _, ?_⟩
    rw [hcount, hitLines_none hnone, rgSearch_noHit hnone, fileHit, if_pos rfl, append_nil]
    exact h

theorem feedRecords_append (acc : RgJsonAccumulator) (a b : List RgJsonRecord) :
    feedRecords req acc (a ++ b) = feedRecords req (feedRecords req acc a) b := foldl_append

theorem Between.blocks {blocks : List TextFile} (h : Between acc files total scanned)
    (hmax : scanned + blocks.length ≤ req.maxFiles)
    (hfile : ∀ file ∈ blocks, rgCount fold req file ≤ req.maxMatchesPerFile)
    (htotal : total + (blocks.map (rgCount fold req)).sum ≤ req.maxTotalMatches) :
    ∃ total scanned, Between (feedRecords req acc (blocks.flatMap (rgStream fold start req)))
      (files ++ blocks.flatMap fun file => fileHit file.path (rgSearch fold start req file.path file.content))
      total scanned := by
  induction blocks generalizing acc files total scanned with
  | nil =>
    refine ⟨total, scanned, ?_⟩
    rw [flatMap_nil, flatMap_nil, append_nil]
    exact h
  | cons file blocks ih =>
    obtain ⟨hthis, hrest⟩ := forall_mem_cons.mp hfile
    rw [length_cons] at hmax
    rw [map_cons, sum_cons] at htotal
    obtain ⟨after, hafter, hblock⟩ := @Between.block fold start req acc files total scanned h file (by omega) hthis
      (by omega)
    rw [flatMap_cons, flatMap_cons, feedRecords_append, ← append_assoc]
    exact ih hblock (by omega) hrest (by omega)

theorem grepWithRg_files {blocks : List TextFile} (hmax : blocks.length ≤ req.maxFiles)
    (hfile : ∀ file ∈ blocks, rgCount fold req file ≤ req.maxMatchesPerFile)
    (htotal : (blocks.map (rgCount fold req)).sum ≤ req.maxTotalMatches) :
    (grepWithRg req (blocks.flatMap (rgStream fold start req))).files =
      blocks.flatMap fun file => fileHit file.path (rgSearch fold start req file.path file.content) := by
  have hstart : Between {} [] 0 0 := ⟨rfl, rfl, rfl, rfl⟩
  obtain ⟨total, scanned, hend⟩ := @Between.blocks fold start req {} [] 0 0 blocks hstart (by omega) hfile (by omega)
  have hfinish : grepWithRg req (blocks.flatMap (rgStream fold start req)) =
      (feedRecords req {} (blocks.flatMap (rgStream fold start req))).finish req := rfl
  rw [hfinish, RgJsonAccumulator.finish, hend.keys]
  exact hend.files

end Accumulator

theorem nodeSearch_length (file : TextFile) : (nodeSearch fold req file.content).length = nodeCount fold req file := by
  rw [nodeCount, ← nodeFound_lines, length_map]
  rfl

theorem grepFiles_files {files : List TextFile} {grep : NodeGrep} (hmax : grep.filesScanned + files.length ≤ req.maxFiles)
    (hfile : ∀ file ∈ files, nodeCount fold req file < req.maxMatchesPerFile)
    (htotal : grep.totalMatches + (files.map (nodeCount fold req)).sum < req.maxTotalMatches) :
    (grepFiles req (compileGrepPattern fold req) files grep).files =
      grep.files ++ files.flatMap fun file => fileHit file.path (nodeSearch fold req file.content) := by
  induction files generalizing grep with
  | nil => exact (append_nil _).symm
  | cons file files ih =>
    obtain ⟨hthis, hrest⟩ := forall_mem_cons.mp hfile
    rw [length_cons] at hmax
    rw [map_cons, sum_cons] at htotal
    have hlength : (nodeFound req (compileGrepPattern fold req) (splitLines [] file.content) 0
        (splitLines [] file.content)).length = nodeCount fold req file := nodeSearch_length file
    have hloop := @grepLines_eq req (compileGrepPattern fold req) (splitLines [] file.content) 0
      (splitLines [] file.content) [] grep.totalMatches (by rw [hlength, length_nil]; omega) (by rw [hlength]; omega)
    rw [grepFiles, if_neg (by omega)]
    dsimp only
    rw [hloop, if_neg (by dsimp only; omega), ih]
    · rw [flatMap_cons, ← append_assoc, fileHit, nodeSearch]
      split_ifs with hsome hnone hnone
      · rw [hnone] at hsome
        cases hsome
      · rfl
      · rw [append_nil]
      · exact absurd (eq_nil_of_length_eq_zero (Nat.eq_zero_of_not_pos hsome)) hnone
    · dsimp only
      omega
    · exact hrest
    · dsimp only
      omega

/-- No limit is reached, with ripgrep or without it. -/
structure Unreached (fold : UInt16 → UInt16) (req : FsGrepRequest) (files : List TextFile) : Prop where
  count : files.length < req.maxFiles
  rgFile : ∀ file ∈ files, rgCount fold req file < req.maxMatchesPerFile
  nodeFile : ∀ file ∈ files, nodeCount fold req file < req.maxMatchesPerFile
  rgTotal : (files.map (rgCount fold req)).sum < req.maxTotalMatches
  nodeTotal : (files.map (nodeCount fold req)).sum < req.maxTotalMatches

/-- What is compared of a file: its path, and its matches but for their columns. -/
def FsGrepFileHit.seen (hit : FsGrepFileHit) : FsGrepFileHit := { hit with found := hit.found.map FsGrepMatch.seen }

def seenFiles (files : List TextFile) (search : TextFile → List FsGrepMatch) : List FsGrepFileHit :=
  (files.flatMap fun file => fileHit file.path (search file)).map FsGrepFileHit.seen

variable {files : List TextFile} {search other : TextFile → List FsGrepMatch}

theorem mem_seenFiles : seen ∈ seenFiles files search ↔
    ∃ file ∈ files, file.path = seen.path ∧ (search file).map FsGrepMatch.seen = seen.found ∧ seen.found ≠ [] := by
  rw [seenFiles, map_flatMap, mem_flatMap]
  apply exists_congr
  intro file
  apply and_congr_right
  intro _
  rw [fileHit]
  split_ifs with hnone
  · rw [hnone]
    constructor
    · rintro hmem
      cases hmem
    · rintro ⟨_, hnil, hne⟩
      exact absurd hnil.symm hne
  · rw [map_singleton, mem_singleton, FsGrepFileHit.seen]
    constructor
    · rintro rfl
      exact ⟨rfl, rfl, fun hnil => hnone (map_eq_nil_iff.mp hnil)⟩
    · rintro ⟨hpath, hfound, _⟩
      exact Eq.symm (congrArg₂ FsGrepFileHit.mk hpath hfound)

theorem seen_subset (hpaths : (files.map TextFile.path).Nodup)
    (hsub : seenFiles files search ⊆ seenFiles files other) (hfile : file ∈ files)
    (hsome : (search file).map FsGrepMatch.seen ≠ []) :
    (search file).map FsGrepMatch.seen = (other file).map FsGrepMatch.seen := by
  have hmem : ⟨file.path, (search file).map FsGrepMatch.seen⟩ ∈ seenFiles files search :=
    mem_seenFiles.mpr ⟨file, hfile, rfl, rfl, hsome⟩
  obtain ⟨same, hsame, hpath, hfound, _⟩ := mem_seenFiles.mp (hsub hmem)
  rw [inj_on_of_nodup_map hpaths hsame hfile hpath] at hfound
  exact hfound.symm

theorem seenFiles_perm_iff (hpaths : (files.map TextFile.path).Nodup) :
    (seenFiles files search).Perm (seenFiles files other) ↔
      ∀ file ∈ files, (search file).map FsGrepMatch.seen = (other file).map FsGrepMatch.seen := by
  constructor
  · intro hperm file hfile
    by_cases hsome : (search file).map FsGrepMatch.seen = []
    · by_cases hother : (other file).map FsGrepMatch.seen = []
      · rw [hsome, hother]
      · exact (seen_subset hpaths hperm.symm.subset hfile hother).symm
    · exact seen_subset hpaths hperm.subset hfile hsome
  · intro hsame
    have hequal : seenFiles files search = seenFiles files other := by
      rw [seenFiles, seenFiles, map_flatMap, map_flatMap]
      apply flatMap_congr
      intro file hfile
      have hlength := congrArg length (hsame file hfile)
      rw [length_map, length_map] at hlength
      rw [fileHit, fileHit]
      split_ifs with hsearch hnone hnone
      · rfl
      · rw [hsearch] at hlength
        exact absurd (eq_nil_of_length_eq_zero hlength.symm) hnone
      · rw [hnone] at hlength
        exact absurd (eq_nil_of_length_eq_zero hlength) hsearch
      · rw [map_singleton, map_singleton, FsGrepFileHit.seen, FsGrepFileHit.seen, hsame file hfile]
    rw [hequal]

theorem Unreached.rg {blocks : List TextFile} (h : Unreached fold req files) (hblocks : blocks.Perm files) :
    (grepWithRg req (blocks.flatMap (rgStream fold start req))).files =
      blocks.flatMap fun file => fileHit file.path (rgSearch fold start req file.path file.content) := by
  apply grepWithRg_files
  · rw [hblocks.length_eq]
    exact le_of_lt h.count
  · intro file hfile
    exact le_of_lt (h.rgFile file (hblocks.mem_iff.mp hfile))
  · rw [(hblocks.map _).sum_nat]
    exact le_of_lt h.rgTotal

theorem Unreached.node (h : Unreached fold req files) :
    (grepWithNode fold req files).files = files.flatMap fun file => fileHit file.path (nodeSearch fold req file.content) := by
  have hloop := @grepFiles_files fold req files {} (by rw [zero_add]; exact le_of_lt h.count) h.nodeFile
    (by rw [zero_add]; exact h.nodeTotal)
  exact hloop

/-- The search for `x` with a line of context. -/
def xRequest : FsGrepRequest where
  pattern := [120]
  caseSensitive := true
  maxFiles := 10
  maxMatchesPerFile := 10
  maxTotalMatches := 10
  contextLines := 1

def xStart (line : Units) : Nat := (indexOf [120] line).getD 0

/-- `a`, `x` and `b` on lines of their own, and a file without `x`. -/
def apartFiles : List TextFile := [⟨"apart", [97, 13, 10, 120, 13, 10, 98, 10]⟩, ⟨"none", [97]⟩]

/-- `x` on two lines. -/
def adjacentFile : TextFile := ⟨"adjacent", [120, 10, 120, 10]⟩

end Echadron.Session
