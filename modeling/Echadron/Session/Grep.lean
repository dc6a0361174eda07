import Mathlib.Algebra.Ring.Nat
import Echadron.Lib.JsMap

namespace Echadron.Session
open Lib List Option

/-! The search in a session's files, by ripgrep and without it. -/

/-- Text by its UTF-16 units. -/
abbrev Units := List UInt16

/-- A search for a text as it stands. -/
structure FsGrepRequest where
  pattern : Units
  caseSensitive : Bool
  maxFiles : Nat
  maxMatchesPerFile : Nat
  maxTotalMatches : Nat
  contextLines : Nat

structure FsGrepMatch where
  line : Nat
  col : Nat
  text : Units
  before : List Units
  after : List Units
deriving DecidableEq

structure FsGrepFileHit where
  path : String
  found : List FsGrepMatch
deriving DecidableEq

structure FsGrepResponse where
  files : List FsGrepFileHit
  filesScanned : Nat
  truncated : Bool
deriving DecidableEq

structure TextFile where
  path : String
  content : Units

/-- Where the first occurrence starts. -/
def indexOf (pattern : Units) : Units → Option Nat
  | [] => if pattern = [] then some 0 else none
  | unit :: units => if pattern.isPrefixOf (unit :: units) then some 0 else (indexOf pattern units).map (· + 1)

def compileGrepPattern (fold : UInt16 → UInt16) (req : FsGrepRequest) (line : Units) : Option Nat :=
  if req.caseSensitive then indexOf req.pattern line else indexOf (req.pattern.map fold) (line.map fold)

def withoutReturn (line : Units) : Units := if line.getLast? = some 13 then line.dropLast else line

/-- `split` at line feeds, each with the carriage return before it. -/
def splitLines (current : Units) : Units → List Units
  | [] => [current]
  | unit :: units =>
    if unit = 10 then withoutReturn current :: splitLines [] units else splitLines (current ++ [unit]) units

/-- The loop over the lines of a file: what it found there, and the matches in all files so far. -/
def grepLines (req : FsGrepRequest) (re : Units → Option Nat) (lines : List Units) :
    Nat → List Units → List FsGrepMatch → Nat → List FsGrepMatch × Nat
  | _, [], found, totalMatches => (found, totalMatches)
  | i, line :: rest, found, totalMatches =>
    match re line with
    | none => grepLines req re lines (i + 1) rest found totalMatches
    | some index =>
      if req.maxMatchesPerFile ≤ found.length then (found, totalMatches)
      else
        let next := found ++ [{
          line := i + 1
          col := index + 1
          text := line
          before := (lines.take i).drop (i - req.contextLines)
          after := (lines.drop (i + 1)).take req.contextLines }]
        if req.maxTotalMatches ≤ totalMatches + 1 then (next, totalMatches + 1)
        else grepLines req re lines (i + 1) rest next (totalMatches + 1)

structure NodeGrep where
  files : List FsGrepFileHit := []
  filesScanned : Nat := 0
  totalMatches : Nat := 0
  truncated : Bool := false

def grepFiles (req : FsGrepRequest) (re : Units → Option Nat) : List TextFile → NodeGrep → NodeGrep
  | [], grep => grep
  | file :: files, grep =>
    if req.maxFiles ≤ grep.filesScanned then { grep with truncated := true }
    else
      let lines := splitLines [] file.content
      let result := grepLines req re lines 0 lines [] grep.totalMatches
      let next : NodeGrep :=
        { files := if result.1.length > 0 then grep.files ++ [⟨file.path, result.1⟩] else grep.files
          filesScanned := grep.filesScanned + 1
          totalMatches := result.2
          truncated := grep.truncated || decide (grep.totalMatches < result.2 ∧ req.maxTotalMatches ≤ result.2) }
      if req.maxTotalMatches ≤ result.2 then next else grepFiles req re files next

def grepWithNode (fold : UInt16 → UInt16) (req : FsGrepRequest) (files : List TextFile) : FsGrepResponse :=
  let grep := grepFiles req (compileGrepPattern fold req) files {}
  { files := grep.files, filesScanned := grep.filesScanned, truncated := grep.truncated }

inductive RgJsonRecord where
  | fileBegin (path : String)
  | contextLine (path : String) (lines : Units)
  | matchLine (path : String) (lines : Units) (lineNumber start : Nat)
  | fileEnd (path : String)

def stripTrailingNewline (text : Units) : Units :=
  if text.getLast? = some 10 then withoutReturn text.dropLast else text

structure FileBuf where
  found : List FsGrepMatch := []
  pending : List Units := []

structure RgJsonAccumulator where
  fileBuf : JsMap String FileBuf := .empty
  files : List FsGrepFileHit := []
  totalMatches : Nat := 0
  filesScanned : Nat := 0
  truncated : Bool := false

def FileBuf.addContext (buf : FileBuf) (req : FsGrepRequest) (lines : Units) : FileBuf :=
  let pending := buf.pending ++ [stripTrailingNewline lines]
  { buf with pending := if req.contextLines * 2 < pending.length then pending.drop 1 else pending }

/-- `slice(-count)`, which is everything for none. -/
def sliceLast (lines : List Units) (count : Nat) : List Units :=
  if count = 0 then lines else lines.drop (lines.length - count)

def FileBuf.addMatch (buf : FileBuf) (req : FsGrepRequest) (lines : Units) (lineNumber start : Nat) : FileBuf :=
  { found := buf.found ++ [{
      line := lineNumber
      col := start + 1
      text := stripTrailingNewline lines
      before := sliceLast buf.pending req.contextLines
      after := [] }]
    pending := [] }

def FileBuf.finalMatches (buf : FileBuf) (req : FsGrepRequest) : List FsGrepMatch :=
  if buf.pending.length > 0 then
    buf.found.dropLast ++ buf.found.getLast?.toList.map fun last =>
      { last with after := buf.pending.take req.contextLines }
  else buf.found

namespace RgJsonAccumulator

variable (acc : RgJsonAccumulator) (req : FsGrepRequest)

def finalize (path : String) : RgJsonAccumulator :=
  match acc.fileBuf.get path with
  | none => acc
  | some buf =>
    { acc with
      files := if buf.found.length > 0 then acc.files ++ [⟨path, buf.finalMatches req⟩] else acc.files
      fileBuf := acc.fileBuf.delete path }

def feed : RgJsonRecord → RgJsonAccumulator
  | .fileBegin path =>
    if req.maxFiles ≤ acc.filesScanned then { acc with truncated := true }
    else { acc with fileBuf := acc.fileBuf.set path {}, filesScanned := acc.filesScanned + 1 }
  | .contextLine path lines =>
    match acc.fileBuf.get path with
    | none => acc
    | some buf => { acc with fileBuf := acc.fileBuf.set path (buf.addContext req lines) }
  | .matchLine path lines lineNumber start =>
    match acc.fileBuf.get path with
    | none => acc
    | some buf =>
      if req.maxTotalMatches ≤ acc.totalMatches then { acc with truncated := true }
      else if req.maxMatchesPerFile ≤ buf.found.length then acc
      else
        { acc with
          fileBuf := acc.fileBuf.set path (buf.addMatch req lines lineNumber start)
          totalMatches := acc.totalMatches + 1
          truncated := acc.truncated || decide (req.maxTotalMatches ≤ acc.totalMatches + 1) }
  | .fileEnd path => acc.finalize req path

def finish : FsGrepResponse :=
  let final := acc.fileBuf.keys.foldl (fun acc path => acc.finalize req path) acc
  { files := final.files, filesScanned := final.filesScanned, truncated := final.truncated }

end RgJsonAccumulator

def grepWithRg (req : FsGrepRequest) (stream : List RgJsonRecord) : FsGrepResponse :=
  (stream.foldl (fun (acc : RgJsonAccumulator) record => acc.feed req record) {}).finish req

def rawLines (current : Units) : Units → List Units
  | [] => if current = [] then [] else [current]
  | unit :: units => if unit = 10 then (current ++ [10]) :: rawLines [] units else rawLines (current ++ [unit]) units

def rgMatches (fold : UInt16 → UInt16) (req : FsGrepRequest) (line : Units) : Bool :=
  (compileGrepPattern fold req (if line.getLast? = some 10 then line.dropLast else line)).isSome

def lineRecord (hit : Units → Bool) (start : Units → Nat) (contextLines : Nat) (path : String) (lines : List Units)
    (entry : Units × Nat) : Option RgJsonRecord :=
  if hit entry.1 then some (.matchLine path entry.1 (entry.2 + 1) (start entry.1))
  else if lines.zipIdx.any fun other =>
      hit other.1 && decide (entry.2 ≤ other.2 + contextLines ∧ other.2 ≤ entry.2 + contextLines) then
    some (.contextLine path entry.1)
  else none

/-- A file without a match is not mentioned. -/
def rgStream (fold : UInt16 → UInt16) (start : Units → Nat) (req : FsGrepRequest) (file : TextFile) :
    List RgJsonRecord :=
  let lines := rawLines [] file.content
  if lines.any (rgMatches fold req) then
    .fileBegin file.path ::
      lines.zipIdx.filterMap (lineRecord (rgMatches fold req) start req.contextLines file.path lines) ++
      [.fileEnd file.path]
  else []

variable {fold : UInt16 → UInt16} {start : Units → Nat} {req : FsGrepRequest} {file : TextFile}

def emptyLine (content : Units) : List Units := if content = [] ∨ content.getLast? = some 10 then [[]] else []

theorem stripTrailingNewline_feed (line : Units) : stripTrailingNewline (line ++ [10]) = withoutReturn line := by
  rw [stripTrailingNewline, if_pos (getLast?_concat), dropLast_concat]

theorem stripTrailingNewline_open (h : 10 ∉ line) : stripTrailingNewline line = line := by
  rw [stripTrailingNewline, if_neg]
  exact fun hlast => h (mem_of_getLast? hlast)

theorem emptyLine_feed (current units : Units) : emptyLine (current ++ 10 :: units) = emptyLine units := by
  rw [emptyLine, emptyLine]
  cases units with
  | nil => rw [if_pos (Or.inr getLast?_concat), if_pos (Or.inl rfl)]
  | cons unit units =>
    have hlast : (current ++ 10 :: unit :: units).getLast? = (unit :: units).getLast? := by
      rw [getLast?_append_cons, getLast?_cons_cons]
    have hne : current ++ 10 :: unit :: units ≠ [] := by simp
    rw [hlast]
    simp only [hne, cons_ne_nil]

theorem splitLines_eq (content : Units) (h : 10 ∉ current) :
    splitLines current content = (rawLines current content).map stripTrailingNewline ++ emptyLine (current ++ content) := by
  induction content generalizing current with
  | nil =>
    rw [rawLines, append_nil]
    split_ifs with hnone
    · rw [hnone]
      rfl
    · have hopen : ¬(current = [] ∨ current.getLast? = some 10) := by
        rintro (hnil | hlast)
        · exact hnone hnil
        · exact h (mem_of_getLast? hlast)
      rw [emptyLine, if_neg hopen, map_singleton, stripTrailingNewline_open h]
      rfl
  | cons unit units ih =>
    rw [splitLines, rawLines]
    split_ifs with hfeed
    · rw [map_cons, stripTrailingNewline_feed, ih not_mem_nil, hfeed, emptyLine_feed]
      rfl
    · have hcurrent : 10 ∉ current ++ [unit] := by
        intro hmem
        rcases mem_snoc.mp hmem with hold | hnew
        · exact h hold
        · exact hfeed hnew.symm
      rw [ih hcurrent, append_assoc, singleton_append]

/-- The lines that match, by their numbers. -/
def hitLines (hit : Units → Bool) : Nat → List Units → List Nat
  | _, [] => []
  | i, line :: lines => if hit line then (i + 1) :: hitLines hit (i + 1) lines else hitLines hit (i + 1) lines

def nodeMatch (req : FsGrepRequest) (lines : List Units) (i index : Nat) (line : Units) : FsGrepMatch :=
  { line := i + 1
    col := index + 1
    text := line
    before := (lines.take i).drop (i - req.contextLines)
    after := (lines.drop (i + 1)).take req.contextLines }

/-- The matches of a file without limits. -/
def nodeFound (req : FsGrepRequest) (re : Units → Option Nat) (lines : List Units) : Nat → List Units → List FsGrepMatch
  | _, [] => []
  | i, line :: rest =>
    ((re line).map fun index => nodeMatch req lines i index line).toList ++ nodeFound req re lines (i + 1) rest

variable {re : Units → Option Nat} {lines : List Units}

theorem nodeFound_lines (i : Nat) (rest : List Units) :
    (nodeFound req re lines i rest).map FsGrepMatch.line = hitLines (fun line => (re line).isSome) i rest := by
  induction rest generalizing i with
  | nil => rfl
  | cons line rest ih =>
    rw [nodeFound, map_append, ih, hitLines]
    cases re line with
    | none => rfl
    | some index => rfl

theorem grepLines_eq (i : Nat) (rest : List Units) {found : List FsGrepMatch} {totalMatches : Nat}
    (hfile : found.length + (nodeFound req re lines i rest).length < req.maxMatchesPerFile)
    (htotal : totalMatches + (nodeFound req re lines i rest).length < req.maxTotalMatches) :
    grepLines req re lines i rest found totalMatches =
      (found ++ nodeFound req re lines i rest, totalMatches + (nodeFound req re lines i rest).length) := by
  induction rest generalizing i found totalMatches with
  | nil => rw [grepLines, nodeFound, append_nil]; rfl
  | cons line rest ih =>
    rw [nodeFound] at hfile htotal ⊢
    rw [grepLines]
    cases hre : re line with
    | none =>
      rw [hre] at hfile htotal
      exact ih (i + 1) hfile htotal
    | some index =>
      rw [hre, map_some, toList_some, length_append, length_singleton] at hfile htotal
      rw [map_some, toList_some, length_append, length_singleton]
      dsimp only
      rw [if_neg (by omega), if_neg (by omega), ih (i + 1)]
      · rw [append_assoc]
        congr 1
        omega
      · rw [length_append, length_singleton]
        omega
      · omega

end Echadron.Session
