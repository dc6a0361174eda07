import Mathlib.Data.List.Basic

namespace Echadron.Agent
open List

/-! The resources that a tool call declares. -/

inductive ToolFileAccessOperation where
  | read
  | write
  | readwrite
  | search
deriving DecidableEq

structure ToolFileAccess where
  operation : ToolFileAccessOperation
  path : String
  recursive : Option Bool := none
deriving DecidableEq

inductive ToolResourceAccess where
  | file (access : ToolFileAccess)
  | all
deriving DecidableEq

abbrev ToolAccesses := List ToolResourceAccess

namespace ToolAccesses

def none : ToolAccesses := []

def all : ToolAccesses := [.all]

def file (operation : ToolFileAccessOperation) (path : String) (recursive : Option Bool := .none) : ToolAccesses :=
  [.file { operation := operation, path := path, recursive := recursive }]

section

variable (path : String)

def readFile : ToolAccesses := file .read path

def readTree : ToolAccesses := file .read path (some true)

def writeFile : ToolAccesses := file .write path

def writeTree : ToolAccesses := file .write path (some true)

def readWriteFile : ToolAccesses := file .readwrite path

def readWriteTree : ToolAccesses := file .readwrite path (some true)

def searchTree : ToolAccesses := file .search path (some true)

end

end ToolAccesses

def fileOperationWrites : ToolFileAccessOperation → Bool
  | .read | .search => false
  | .write | .readwrite => true

def fileOperationsConflict (left right : ToolFileAccessOperation) : Bool :=
  fileOperationWrites left || fileOperationWrites right

/-- `replaceAll(/\/+/g, '/')`. -/
def collapseSlashes : List Char → List Char
  | [] => []
  | '/' :: '/' :: cs => collapseSlashes ('/' :: cs)
  | c :: cs => c :: collapseSlashes cs

def slashed (c : Char) : Char := if c = '\\' then '/' else c

def normalizePath (toLowerCase : String → String) (path : String) : List Char :=
  let folded := (toLowerCase (String.ofList (collapseSlashes (path.toList.map slashed)))).toList
  if folded.length > 1 ∧ folded.getLast? = some '/' then folded.dropLast else folded

def directoryPrefix (path : List Char) : List Char :=
  if path.getLast? = some '/' then path else path ++ ['/']

variable (toLowerCase : String → String)

def fileAccessesOverlap (left right : ToolFileAccess) : Bool :=
  let leftPath := normalizePath toLowerCase left.path
  let rightPath := normalizePath toLowerCase right.path
  if leftPath = rightPath then true
  else
    (decide (left.recursive = some true) && (directoryPrefix leftPath).isPrefixOf rightPath) ||
      (decide (right.recursive = some true) && (directoryPrefix rightPath).isPrefixOf leftPath)

def resourceAccessesConflict : ToolResourceAccess → ToolResourceAccess → Bool
  | .file left, .file right =>
    if fileOperationsConflict left.operation right.operation then
      fileAccessesOverlap toLowerCase left right
    else false
  | _, _ => true

def ToolAccesses.conflict (left right : ToolAccesses) : Bool :=
  left.any fun leftAccess => right.any fun rightAccess =>
    resourceAccessesConflict toLowerCase leftAccess rightAccess

theorem fileOperationsConflict_comm (left right : ToolFileAccessOperation) :
    fileOperationsConflict left right = fileOperationsConflict right left := Bool.or_comm _ _

theorem fileAccessesOverlap_comm (left right : ToolFileAccess) :
    fileAccessesOverlap toLowerCase left right = fileAccessesOverlap toLowerCase right left := by
  unfold fileAccessesOverlap
  by_cases h : normalizePath toLowerCase left.path = normalizePath toLowerCase right.path
  · rw [if_pos h, if_pos h.symm]
  · rw [if_neg h, if_neg (Ne.symm h), Bool.or_comm]

theorem resourceAccessesConflict_comm (left right : ToolResourceAccess) :
    resourceAccessesConflict toLowerCase left right = resourceAccessesConflict toLowerCase right left := by
  cases left with
  | all => cases right <;> rfl
  | file l =>
    cases right with
    | all => rfl
    | file r =>
      show (if fileOperationsConflict l.operation r.operation then _ else false) =
        if fileOperationsConflict r.operation l.operation then _ else false
      rw [fileOperationsConflict_comm, fileAccessesOverlap_comm]

theorem conflict_iff (left right : ToolAccesses) : ToolAccesses.conflict toLowerCase left right = true ↔
      ∃ l ∈ left, ∃ r ∈ right, resourceAccessesConflict toLowerCase l r = true := by
  simp only [ToolAccesses.conflict, any_eq_true]

theorem conflict_comm (left right : ToolAccesses) :
    ToolAccesses.conflict toLowerCase left right = ToolAccesses.conflict toLowerCase right left := by
  rw [Bool.eq_iff_iff, conflict_iff, conflict_iff]
  constructor
  · rintro ⟨l, hl, r, hr, h⟩
    exact ⟨r, hr, l, hl, by rw [resourceAccessesConflict_comm]; exact h⟩
  · rintro ⟨l, hl, r, hr, h⟩
    exact ⟨r, hr, l, hl, by rw [resourceAccessesConflict_comm]; exact h⟩

def ToolFileAccess.Covers (access : ToolFileAccess) (path : String) : Prop :=
  normalizePath toLowerCase path = normalizePath toLowerCase access.path ∨ access.recursive = some true ∧
      directoryPrefix (normalizePath toLowerCase access.path) <+: normalizePath toLowerCase path

def ToolResourceAccess.Covers : ToolResourceAccess → String → Prop
  | .all, _ => True
  | .file access, path => access.Covers toLowerCase path

def ToolResourceAccess.reads : ToolResourceAccess → Bool
  | .all => false
  | .file access => !fileOperationWrites access.operation

def Apart (left right : ToolResourceAccess) : Prop :=
  left.reads = true ∧ right.reads = true ∨
    ∀ path, ¬ (left.Covers toLowerCase path ∧ right.Covers toLowerCase path)

theorem directoryPrefix_cases (path : List Char) :
    directoryPrefix path = path ∨ directoryPrefix path = path ++ ['/'] := by
  unfold directoryPrefix
  split
  · exact .inl rfl
  · exact .inr rfl

theorem directoryPrefix_total (ha : directoryPrefix a <+: path)
    (hb : directoryPrefix b <+: path) (hle : (directoryPrefix a).length ≤ (directoryPrefix b).length) :
    a = b ∨ directoryPrefix a <+: b ∨ directoryPrefix b <+: a := by
  have hab : directoryPrefix a <+: directoryPrefix b := prefix_of_prefix_length_le ha hb hle
  rcases directoryPrefix_cases b with hb' | hb'
  · rw [hb'] at hab
    exact .inr (.inl hab)
  · rw [hb'] at hab
    rcases prefix_concat_iff.mp hab with he | hab
    · rcases directoryPrefix_cases a with ha' | ha'
      · rw [← he] at hb'
        rw [hb', ha']
        exact .inr (.inr (prefix_refl a))
      · rw [ha'] at he
        exact .inl (append_cancel_right he)
    · exact .inr (.inl hab)

theorem apart_of_not_overlap
    (h : fileAccessesOverlap toLowerCase left right = false) (path : String) :
    ¬ (left.Covers toLowerCase path ∧ right.Covers toLowerCase path) := by
  unfold fileAccessesOverlap at h
  dsimp only at h
  split at h
  · cases h
  · rename_i hne
    rw [Bool.or_eq_false_iff, Bool.and_eq_false_iff, Bool.and_eq_false_iff, decide_eq_false_iff_not,
      decide_eq_false_iff_not, Bool.eq_false_iff, Bool.eq_false_iff, Ne, Ne, isPrefixOf_iff_prefix,
      isPrefixOf_iff_prefix] at h
    obtain ⟨hleft, hright⟩ := h
    rintro ⟨hl | ⟨hlrec, hl⟩, hr | ⟨hrrec, hr⟩⟩
    · exact hne (hl.symm.trans hr)
    · rw [hl] at hr
      rcases hright with hright | hright
      · exact hright hrrec
      · exact hright hr
    · rw [hr] at hl
      rcases hleft with hleft | hleft
      · exact hleft hlrec
      · exact hleft hl
    · have hnotleft := hleft.resolve_left (not_not_intro hlrec)
      have hnotright := hright.resolve_left (not_not_intro hrrec)
      rcases Nat.le_total (directoryPrefix (normalizePath toLowerCase left.path)).length
          (directoryPrefix (normalizePath toLowerCase right.path)).length with hle | hle
      · rcases directoryPrefix_total hl hr hle with he | h | h
        · exact hne he
        · exact hnotleft h
        · exact hnotright h
      · rcases directoryPrefix_total hr hl hle with he | h | h
        · exact hne he.symm
        · exact hnotright h
        · exact hnotleft h

/-- Accesses that do not conflict only read, or cover disjoint sets of paths. -/
theorem apart_of_not_conflict
    (h : ToolAccesses.conflict toLowerCase left right = false) :
    ∀ l ∈ left, ∀ r ∈ right, Apart toLowerCase l r := by
  intro l hl r hr
  have hnot : resourceAccessesConflict toLowerCase l r = false := by
    rw [Bool.eq_false_iff]
    intro hc
    have htrue := (conflict_iff toLowerCase left right).mpr ⟨l, hl, r, hr, hc⟩
    rw [h] at htrue
    cases htrue
  cases l with
  | all => cases hnot
  | file l =>
    cases r with
    | all => cases hnot
    | file r =>
      have hfiles : (if fileOperationsConflict l.operation r.operation then
          fileAccessesOverlap toLowerCase l r else false) = false := hnot
      split at hfiles
      · exact .inr (apart_of_not_overlap toLowerCase hfiles)
      · rename_i hread
        obtain ⟨hl, hr⟩ := Bool.or_eq_false_iff.mp (Bool.not_eq_true _ ▸ hread)
        apply Or.inl
        simp only [ToolResourceAccess.reads, hl, hr, Bool.not_false, and_self]

theorem overlap_covers {left right : ToolFileAccess} (h : fileAccessesOverlap toLowerCase left right = true) :
    ∃ path, left.Covers toLowerCase path ∧ right.Covers toLowerCase path := by
  rw [fileAccessesOverlap] at h
  split at h
  · rename_i heq
    exact ⟨left.path, .inl rfl, .inl heq⟩
  · simp only [Bool.or_eq_true, Bool.and_eq_true, decide_eq_true_eq, isPrefixOf_iff_prefix] at h
    rcases h with h | h
    · exact ⟨right.path, .inr h, .inl rfl⟩
    · exact ⟨left.path, .inl rfl, .inr h⟩

/-- Tasks wait for each other only where one may write what the other touches. -/
theorem conflict_eq_false_iff (left right : ToolAccesses) :
    ToolAccesses.conflict toLowerCase left right = false ↔ ∀ l ∈ left, ∀ r ∈ right, Apart toLowerCase l r := by
  refine ⟨apart_of_not_conflict toLowerCase, fun h => ?_⟩
  rw [Bool.eq_false_iff, Ne, conflict_iff]
  rintro ⟨l, hl, r, hr, hconflict⟩
  have hapart := h l hl r hr
  cases l with
  | all =>
    cases r with
    | all => exact hapart.elim (nofun) fun hnone => hnone "" ⟨trivial, trivial⟩
    | file r => exact hapart.elim (nofun) fun hnone => hnone r.path ⟨trivial, .inl rfl⟩
  | file l =>
    cases r with
    | all => exact hapart.elim (nofun) fun hnone => hnone l.path ⟨.inl rfl, trivial⟩
    | file r =>
      rw [resourceAccessesConflict, Bool.if_false_right, Bool.and_eq_true, decide_eq_true_eq] at hconflict
      obtain ⟨path, hpath⟩ := overlap_covers toLowerCase hconflict.2
      rcases hapart with ⟨hlr, hrr⟩ | hnone
      · simp_all [ToolResourceAccess.reads, fileOperationsConflict]
      · exact hnone path hpath

end Echadron.Agent
