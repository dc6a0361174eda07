import Mathlib.Data.List.Infix

namespace Echadron.Tool.FileEdit
open List Option

/-! Edits of a file, whose text is given by its UTF-16 units. -/

abbrev Units := List UInt16

def CR : UInt16 := 13

def LF : UInt16 := 10

def byteOrderMark : UInt16 := 0xFEFF

inductive LineEndingStyle where
  | lf
  | crlf
  | mixed
deriving DecidableEq

/-- The kinds of line breaks that the loop of `detectLineEndingStyle` has met. -/
structure Breaks where
  hasCrLf : Bool := false
  hasLf : Bool := false
  hasLoneCr : Bool := false
deriving DecidableEq

def breaks : Units → Breaks
  | [] => {}
  | a :: b :: text =>
    if a = CR ∧ b = LF then { breaks text with hasCrLf := true }
    else if a = CR then { breaks (b :: text) with hasLoneCr := true }
    else if a = LF then { breaks (b :: text) with hasLf := true }
    else breaks (b :: text)
  | [a] => { hasLf := a = LF, hasLoneCr := a = CR }

def detectLineEndingStyle (text : Units) : LineEndingStyle :=
  let found := breaks text
  if found.hasLoneCr || (found.hasCrLf && found.hasLf) then .mixed
  else if found.hasCrLf then .crlf
  else .lf

/-- `replaceAll('\r\n', '\n')`. -/
def crlfToLf : Units → Units
  | a :: b :: text => if a = CR ∧ b = LF then LF :: crlfToLf text else a :: crlfToLf (b :: text)
  | text => text

/-- `replaceAll('\n', '\r\n')`. -/
def lfToCrlf (text : Units) : Units := text.flatMap fun c => if c = LF then [CR, LF] else [c]

structure TextModel where
  text : Units
  lineEndingStyle : LineEndingStyle

def toModelTextView (raw : Units) : TextModel :=
  { text := if detectLineEndingStyle raw = .crlf then crlfToLf raw else raw
    lineEndingStyle := detectLineEndingStyle raw }

abbrev view (raw : Units) : Units := (toModelTextView raw).text

def materializeModelText (text : Units) (style : LineEndingStyle) : Units :=
  if style = .crlf then lfToCrlf (crlfToLf text) else text

def indexOf (needle text : Units) : Option Nat := text.tails.findIdx? needle.isPrefixOf

namespace TextModel

/-- The loop of `countOccurrences` over the text from `pos` on. -/
def countLoop (needle : Units) : (fuel : Nat) → Units → Nat
  | 0, _ => 0
  | fuel + 1, text =>
    if text = [] then 0
    else
      match indexOf needle text with
      | none => 0
      | some idx => countLoop needle fuel (text.drop (idx + needle.length)) + 1

def countOccurrences (m : TextModel) (needle : Units) : Nat := countLoop needle m.text.length m.text

def replaceOnce (m : TextModel) (needle replacement : Units) : Units :=
  match indexOf needle m.text with
  | none => m.text
  | some index => m.text.take index ++ replacement ++ m.text.drop (index + needle.length)

/-- `split`, for a needle that is not empty. -/
def split (needle : Units) : (fuel : Nat) → Units → List Units
  | 0, text => [text]
  | fuel + 1, text =>
    match indexOf needle text with
    | none => [text]
    | some idx => text.take idx :: split needle fuel (text.drop (idx + needle.length))

def replaceAll (m : TextModel) (needle replacement : Units) : Units × Nat :=
  let parts := split needle m.text.length m.text
  (replacement.intercalate parts, parts.length - 1)

def materialize (m : TextModel) (modelText : Units) : Units := materializeModelText modelText m.lineEndingStyle

end TextModel

structure FileEditInput where
  displayPath : String
  old_string : Units
  new_string : Units
  replace_all : Bool := false

def notFoundMessage (path : String) : String :=
  "old_string not found in " ++ path ++ ", the file contents may be out of date. " ++
    "Please use the Read Tool to reload the content.\n"

def notUniqueMessage (path : String) (count : Nat) : String :=
  "old_string is not unique in " ++ path ++ " (found " ++ toString count ++ " occurrences). " ++
    "To replace every occurrence, set replace_all=true. To replace only one occurrence, " ++
    "include more surrounding context in old_string."

/-- `EditService.apply`. -/
def apply (model : TextModel) (input : FileEditInput) : Except String (Units × Nat) :=
  if input.replace_all then
    let replaced := model.replaceAll input.old_string input.new_string
    if replaced.2 = 0 then .error (notFoundMessage input.displayPath)
    else .ok (model.materialize replaced.1, replaced.2)
  else
    let count := model.countOccurrences input.old_string
    if count = 0 then .error (notFoundMessage input.displayPath)
    else if 1 < count then .error (notUniqueMessage input.displayPath count)
    else .ok (model.materialize (model.replaceOnce input.old_string input.new_string), 1)

structure HostError where
  code : Option String
  message : String

/-- The file as the host gives it: what its bytes decode to, or why it cannot be read, and whether a
write to it fails. -/
structure HostFile where
  content : Except HostError Units
  writeError : Option HostError := none

/-- `readText`. A strict decoder drops a byte-order mark. -/
def HostFile.readText (file : HostFile) : Except HostError Units :=
  file.content.map fun text => if text.head? = some byteOrderMark then text.tail else text

def failure (input : FileEditInput) (e : HostError) : String :=
  if e.code = some "EISDIR" then input.displayPath ++ " is not a file." else e.message

/-- `FileEditService.edit`: its result, and what it wrote. -/
def edit (file : HostFile) (input : FileEditInput) : Except String Nat × List Units :=
  match file.readText with
  | .error e => (.error (failure input e), [])
  | .ok raw =>
    match apply (toModelTextView raw) input with
    | .error message => (.error message, [])
    | .ok (rawContent, count) =>
      match file.writeError with
      | some e => (.error (failure input e), [rawContent])
      | none => (.ok count, [rawContent])

/-- A text with line breaks of one kind: a text without carriage returns, each line feed of it
written as a pair. -/
def OnlyCrLf (text : Units) : Prop := ∃ view, CR ∉ view ∧ text = lfToCrlf view

def NoLoneCr (text : Units) : Prop := ∀ before after, text = before ++ CR :: after → after.head? = some LF

def OccursAt (needle text : Units) (i : Nat) : Prop := needle <+: text.drop i

instance OccursAt.decidable (needle text : Units) (i : Nat) : Decidable (OccursAt needle text i) :=
  inferInstanceAs (Decidable (_ <+: _))

/-- Two occurrences that do not overlap. -/
def OccursApart (needle text : Units) : Prop :=
  ∃ k l, OccursAt needle text k ∧ OccursAt needle text l ∧ k + needle.length ≤ l

/-- The file is `before ++ old ++ after`, and `before ++ new ++ after` is written. -/
def Replaces (file : HostFile) (input : FileEditInput) (m : TextModel) (i : Nat) (writes : List Units) : Prop :=
  let before := m.materialize (m.text.take i)
  let after := m.materialize (m.text.drop (i + input.old_string.length))
  file.content.toOption = some (before ++ m.materialize input.old_string ++ after) ∧
    writes = [before ++ m.materialize input.new_string ++ after]

structure EditKept (file : HostFile) (input : FileEditInput) : Prop where
  one_place : input.replace_all = false → ∀ count, (edit file input).1 = .ok count →
    ∃ raw i, file.readText = .ok raw ∧ (∀ j, OccursAt input.old_string (view raw) j ↔ j = i) ∧
      Replaces file input (toModelTextView raw) i (edit file input).2
  failed : ∀ message, (edit file input).1 = .error message → (edit file input).2 = []
  crlf : input.replace_all = false → NoLoneCr input.new_string → ∀ raw, file.readText = .ok raw →
    OnlyCrLf raw → LF ∈ raw → ∀ text ∈ (edit file input).2, OnlyCrLf text
  identity : ∀ raw, (toModelTextView raw).materialize (view raw) = raw

/-- The condition on the edit and on the file, which reads as `raw`: occurrences of the old string
overlap only where others do not; and where it occurs once, the file has no byte-order mark, can be
written, and a new string that ends in a carriage return does not come before a line break of pairs. -/
structure Clear (file : HostFile) (input : FileEditInput) (raw : Units) : Prop where
  apart : input.replace_all = false → ∀ i j, OccursAt input.old_string (view raw) i →
    OccursAt input.old_string (view raw) j → i < j → OccursApart input.old_string (view raw)
  sole : input.replace_all = false → ∀ i, (∀ j, OccursAt input.old_string (view raw) j ↔ j = i) →
      file.content.toOption = some raw ∧ file.writeError = none ∧
        ¬(detectLineEndingStyle raw = .crlf ∧ input.new_string.getLast? = some CR ∧
          ((view raw).drop (i + input.old_string.length)).head? = some LF)
  written : input.replace_all = true → ∀ i, OccursAt input.old_string (view raw) i → file.writeError = none

variable {needle text a b raw : Units}

theorem indexOf_some (h : indexOf needle text = some i) :
    OccursAt needle text i ∧ ∀ j, OccursAt needle text j → i ≤ j := by
  obtain ⟨hi, hp, hmin⟩ := findIdx?_eq_some_iff_getElem.mp h
  refine ⟨by simpa [OccursAt] using hp, ?_⟩
  intro j hj
  by_contra hlt
  have hnot := hmin j (by omega)
  simp only [getElem_tails, isPrefixOf_iff_prefix] at hnot
  exact hnot hj

theorem indexOf_none : indexOf needle text = none ↔ ∀ j, ¬ OccursAt needle text j := by
  rw [indexOf, findIdx?_eq_none_iff]
  constructor
  · intro h j hj
    have hmem : text.drop j ∈ text.tails := (mem_tails _ _).mpr (drop_suffix j text)
    exact Bool.false_ne_true ((h _ hmem).symm.trans ( isPrefixOf_iff_prefix.mpr hj))
  · intro h x hx
    obtain ⟨front, rfl⟩ := (mem_tails _ _).mp hx
    rw [Bool.eq_false_iff, ne_eq, isPrefixOf_iff_prefix]
    intro hp
    exact h front.length (by rwa [OccursAt, drop_left])

theorem occursAt_drop : OccursAt needle (text.drop n) j ↔ OccursAt needle text (n + j) := by
  rw [OccursAt, OccursAt, drop_drop]

theorem OccursAt.lt (h : OccursAt needle text i) (hne : needle ≠ []) : i + needle.length ≤ text.length := by
  have hle := h.length_le
  have hpos := length_pos_of_ne_nil hne
  rw [length_drop] at hle
  omega

theorem OccursAt.split (h : OccursAt needle text i) :
    text.take i ++ needle ++ text.drop (i + needle.length) = text := by
  obtain ⟨rest, hrest⟩ := h
  rw [← drop_drop, ← hrest, drop_left, append_assoc, hrest, take_append_drop]

namespace TextModel

theorem countLoop_eq_zero (hne : needle ≠ []) (hfuel : text.length ≤ fuel) :
    countLoop needle fuel text = 0 ↔ ∀ j, ¬ OccursAt needle text j := by
  cases fuel with
  | zero =>
    refine ⟨fun _ j hj => ?_, fun _ => rfl⟩
    have hle := hj.lt hne
    have hpos := length_pos_of_ne_nil hne
    omega
  | succ fuel =>
    rw [countLoop, ← indexOf_none]
    split
    · rename_i hnil
      subst hnil
      simp [indexOf, findIdx?_cons, hne]
    · cases indexOf needle text <;> simp

theorem one_lt_countLoop (hne : needle ≠ []) (hfuel : text.length ≤ fuel) : 1 < countLoop needle fuel text ↔
    OccursApart needle text := by
  have hpos := length_pos_of_ne_nil hne
  constructor
  · intro h
    cases fuel with
    | zero => simp [countLoop] at h
    | succ fuel =>
      rw [countLoop] at h
      split at h
      · omega
      · cases hidx : indexOf needle text with
        | none => simp [hidx] at h
        | some idx =>
          have hocc := (indexOf_some hidx).1
          have hmore : countLoop needle fuel (text.drop (idx + needle.length)) ≠ 0 := by
            rw [hidx] at h
            dsimp only at h
            omega
          rw [ne_eq, countLoop_eq_zero hne (by rw [length_drop]; omega)] at hmore
          push Not at hmore
          obtain ⟨j, hj⟩ := hmore
          exact ⟨idx, _, hocc, occursAt_drop.mp hj, by omega⟩
  · rintro ⟨k, l, hk, hl, hkl⟩
    have hend := hl.lt hne
    cases fuel with
    | zero => omega
    | succ fuel =>
      rw [countLoop, if_neg (ne_nil_of_length_pos (by omega))]
      cases hidx : indexOf needle text with
      | none => exact absurd hk (indexOf_none.mp hidx k)
      | some idx =>
        have hfirst := (indexOf_some hidx).2 k hk
        have hmore : countLoop needle fuel (text.drop (idx + needle.length)) ≠ 0 := by
          rw [ne_eq, countLoop_eq_zero hne (by rw [length_drop]; omega)]
          intro hnone
          apply hnone (l - (idx + needle.length))
          rw [occursAt_drop]
          rwa [Nat.add_sub_cancel' (by omega)]
        dsimp only
        omega

end TextModel

theorem crlfToLf_append (h : ¬(a.getLast? = some CR ∧ b.head? = some LF)) :
    crlfToLf (a ++ b) = crlfToLf a ++ crlfToLf b := by
  induction a using crlfToLf.induct with
  | case1 x y text hpair ih =>
    have hrest : ¬(text.getLast? = some CR ∧ b.head? = some LF) := by
      cases text <;> simp_all
    simp [crlfToLf, hpair, ih hrest]
  | case2 x y text hpair ih => simp [crlfToLf, hpair, ← ih (by simpa using h)]
  | case3 text hshort =>
    match text with
    | [] => simp [crlfToLf]
    | [x] => cases b <;> simp_all [crlfToLf]
    | x :: y :: rest => exact absurd rfl (hshort x y rest)

theorem crlfToLf_of_not_mem (h : CR ∉ text) : crlfToLf text = text := by
  induction text using crlfToLf.induct with
  | case1 x y text hpair ih => simp [hpair] at h
  | case2 x y text hpair ih => rw [crlfToLf, if_neg hpair, ih (by simp_all)]
  | case3 text hshort => rw [crlfToLf.eq_2 text hshort]

theorem lfToCrlf_append (a b : Units) : lfToCrlf (a ++ b) = lfToCrlf a ++ lfToCrlf b := flatMap_append ..

/-- Only pairs, as the loop sees it. -/
theorem breaks_pairs (hlone : (breaks raw).hasLoneCr = false) (hlf : (breaks raw).hasLf = false) :
    CR ∉ crlfToLf raw ∧ lfToCrlf (crlfToLf raw) = raw := by
  induction raw using breaks.induct with
  | case1 => exact ⟨nofun, rfl⟩
  | case2 x y text hpair ih =>
    simp only [breaks, if_pos hpair] at hlone hlf
    have hne : CR ≠ LF := by decide
    simp_all [crlfToLf, lfToCrlf]
  | case3 y text hpair ih => simp_all [breaks]
  | case4 y text hcr hpair ih => simp_all [breaks]
  | case5 x y text hpair hcr hlf' ih =>
    simp only [breaks, if_neg hpair, if_neg hcr, if_neg hlf'] at hlone hlf
    obtain ⟨hnot, hback⟩ := ih hlone hlf
    rw [lfToCrlf] at hback
    simp [crlfToLf, hpair, hnot, lfToCrlf, hlf', hback, Ne.symm hcr]
  | case6 x => simp_all [breaks, crlfToLf, lfToCrlf, eq_comm]

theorem crlf_pairs (h : detectLineEndingStyle raw = .crlf) : CR ∉ crlfToLf raw ∧ lfToCrlf (crlfToLf raw) = raw := by
  rw [detectLineEndingStyle] at h
  apply breaks_pairs
  all_goals
    cases hl : (breaks raw).hasLoneCr <;> cases hc : (breaks raw).hasCrLf <;> cases hf : (breaks raw).hasLf <;>
      simp_all

theorem breaks_lfToCrlf (h : CR ∉ text) : breaks (lfToCrlf text) = { hasCrLf := LF ∈ text } := by
  induction text with
  | nil => rfl
  | cons c text ih =>
    have hc : ¬ c = CR := fun he => h (he ▸ mem_cons_self)
    have htext := ih fun hmem => h (mem_cons_of_mem _ hmem)
    by_cases hlf : c = LF
    · subst hlf
      have hcons : lfToCrlf (LF :: text) = CR :: LF :: lfToCrlf text := rfl
      rw [hcons, breaks, if_pos ⟨rfl, rfl⟩, htext]
      simp
    · have hmem : LF ∈ c :: text ↔ LF ∈ text := by simp [Ne.symm hlf]
      rw [lfToCrlf, flatMap_cons, if_neg hlf, singleton_append, ← lfToCrlf, decide_eq_decide.mpr hmem, ← htext]
      cases lfToCrlf text with
      | nil => simp [breaks, hc, hlf]
      | cons d rest => rw [breaks, if_neg fun h => hc h.1, if_neg hc, if_neg hlf]

theorem detect_crlf (h : CR ∉ text) (hlf : LF ∈ text) : detectLineEndingStyle (lfToCrlf text) = .crlf := by
  simp [detectLineEndingStyle, breaks_lfToCrlf h, hlf]

theorem view_crlf (h : detectLineEndingStyle raw = .crlf) : view raw = crlfToLf raw := if_pos h

theorem view_no_cr (h : detectLineEndingStyle raw = .crlf) : CR ∉ view raw := view_crlf h ▸ (crlf_pairs h).1

theorem materialize_view (raw : Units) : (toModelTextView raw).materialize (view raw) = raw := by
  by_cases h : detectLineEndingStyle raw = .crlf
  · obtain ⟨hnot, hback⟩ := crlf_pairs h
    rw [view_crlf h]
    exact (if_pos h).trans (by rw [crlfToLf_of_not_mem hnot, hback])
  · have hview : view raw = raw := if_neg h
    rw [hview]
    exact if_neg h

/-- Writing the parts of a text is writing the text, unless a break comes about between two. -/
theorem materialize_parts {front new back : Units} (style : LineEndingStyle)
    (hfront : style = .crlf → CR ∉ front) (hback : style = .crlf → CR ∉ back) :
    materializeModelText (front ++ new ++ back) style = materializeModelText front style ++
        materializeModelText new style ++ materializeModelText back style ↔
      ¬(style = .crlf ∧ new.getLast? = some CR ∧ back.head? = some LF) := by
  by_cases hs : style = .crlf
  · have hfirst : crlfToLf (front ++ (new ++ back)) = crlfToLf front ++ crlfToLf (new ++ back) := by
      apply crlfToLf_append
      rintro ⟨hlast, _⟩
      exact hfront hs (mem_of_getLast? hlast)
    simp only [materializeModelText, if_pos hs, append_assoc, hfirst, lfToCrlf_append, append_cancel_left_eq]
    constructor
    · rintro h ⟨_, hlast, hhead⟩
      obtain ⟨n, rfl⟩ := getLast?_eq_some_iff.mp hlast
      obtain ⟨d, rfl⟩ := head?_eq_some_iff.mp hhead
      have hjoin : crlfToLf (n ++ CR :: LF :: d) = crlfToLf n ++ LF :: crlfToLf d := by
        rw [crlfToLf_append (by simp [CR, LF])]
        simp [crlfToLf]
      have hend : crlfToLf (n ++ [CR]) = crlfToLf n ++ [CR] := crlfToLf_append (by simp [CR, LF])
      have hd : CR ∉ d := fun hmem => hback hs (mem_cons_of_mem _ hmem)
      have hlen := congrArg length h
      rw [append_assoc, singleton_append, hjoin, hend, crlfToLf_of_not_mem hd, crlfToLf_of_not_mem (hback hs)] at hlen
      simp [lfToCrlf, CR, LF] at hlen
    · intro h
      have hsecond : crlfToLf (new ++ back) = crlfToLf new ++ crlfToLf back := by
        apply crlfToLf_append
        rintro ⟨hlast, hhead⟩
        exact h ⟨hs, hlast, hhead⟩
      rw [hsecond, lfToCrlf_append]
  · simp [materializeModelText, hs]

theorem mem_lfToCrlf : LF ∈ lfToCrlf text ↔ LF ∈ text := by
  simp only [lfToCrlf, mem_flatMap]
  constructor
  · rintro ⟨c, hc, hmem⟩
    split at hmem <;> simp_all
  · exact fun h => ⟨LF, h, by simp⟩

theorem NoLoneCr.crlfToLf (h : NoLoneCr text) : CR ∉ crlfToLf text := by
  induction text using crlfToLf.induct with
  | case1 x y text hpair ih =>
    rw [FileEdit.crlfToLf, if_pos hpair, mem_cons, not_or]
    exact ⟨by decide, ih fun before after he => h (x :: y :: before) after (by simp [he])⟩
  | case2 x y text hpair ih =>
    have hx : x ≠ CR := fun hx => hpair ⟨hx, by simpa using h [] (y :: text) (by simp [hx])⟩
    rw [FileEdit.crlfToLf, if_neg hpair, mem_cons, not_or]
    exact ⟨hx.symm, ih fun before after he => h (x :: before) after (by simp [he])⟩
  | case3 text hshort =>
    rw [crlfToLf.eq_2 text hshort]
    intro hmem
    obtain ⟨before, after, rfl⟩ := append_of_mem hmem
    obtain ⟨rest, rfl⟩ := head?_eq_some_iff.mp (h before after rfl)
    cases before with
    | nil => exact hshort _ _ _ rfl
    | cons c before => cases before <;> exact hshort _ _ _ rfl

/-- What is written to a file of pairs. -/
theorem onlyCrLf_replaced {front new back : Units} (hfront : CR ∉ front) (hback : CR ∉ back) (h : NoLoneCr new) :
    OnlyCrLf (materializeModelText (front ++ new ++ back) .crlf) := by
  have hparts : crlfToLf (front ++ (new ++ back)) = front ++ (crlfToLf new ++ back) := by
    rw [crlfToLf_append, crlfToLf_append, crlfToLf_of_not_mem hfront, crlfToLf_of_not_mem hback]
    · rintro ⟨hlast, _⟩
      obtain ⟨n, rfl⟩ := getLast?_eq_some_iff.mp hlast
      exact absurd (h n [] rfl) nofun
    · rintro ⟨hlast, _⟩
      exact hfront (mem_of_getLast? hlast)
  refine ⟨front ++ (crlfToLf new ++ back), by simp [hfront, hback, h.crlfToLf], ?_⟩
  rw [materializeModelText, if_pos rfl, append_assoc, hparts]

variable {m : TextModel} {file : HostFile} {input : FileEditInput}

/-- The parts around a place of the view. -/
theorem view_parts (raw : Units) (i n : Nat) (new : Units) :
    (toModelTextView raw).materialize ((view raw).take i ++ new ++ (view raw).drop n) =
      (toModelTextView raw).materialize ((view raw).take i) ++
        (toModelTextView raw).materialize new ++ (toModelTextView raw).materialize ((view raw).drop n) ↔
      ¬(detectLineEndingStyle raw = .crlf ∧ new.getLast? = some CR ∧ ((view raw).drop n).head? = some LF) :=
  materialize_parts (detectLineEndingStyle raw) (fun h hmem => view_no_cr h (mem_of_mem_take hmem))
    fun h hmem => view_no_cr h (mem_of_mem_drop hmem)

theorem OccursAt.whole (h : OccursAt needle (view raw) i) :
    (toModelTextView raw).materialize ((view raw).take i) ++ (toModelTextView raw).materialize needle ++
        (toModelTextView raw).materialize ((view raw).drop (i + needle.length)) = raw := by
  rw [← (view_parts raw i _ needle).mpr, h.split, materialize_view]
  rintro ⟨hstyle, hlast, _⟩
  exact view_no_cr hstyle (mem_of_mem_drop (h.subset (mem_of_getLast? hlast)))

theorem apply_once (hall : input.replace_all = false) (hne : input.old_string ≠ [])
    (hocc : OccursAt input.old_string m.text j) (hsole : ¬ OccursApart input.old_string m.text) :
    ∃ i, OccursAt input.old_string m.text i ∧ apply m input =
      .ok (m.materialize (m.text.take i ++ input.new_string ++ m.text.drop (i + input.old_string.length)), 1) := by
  have hzero := mt (TextModel.countLoop_eq_zero hne (le_refl m.text.length)).mp fun h => h j hocc
  have hone := mt (TextModel.one_lt_countLoop hne (le_refl m.text.length)).mp hsole
  cases hidx : indexOf input.old_string m.text with
  | none => exact absurd hocc (indexOf_none.mp hidx j)
  | some i =>
    refine ⟨i, (indexOf_some hidx).1, ?_⟩
    simp [apply, hall, TextModel.countOccurrences, hzero, hone, TextModel.replaceOnce, hidx]

theorem apply_ok (hall : input.replace_all = false) (hne : input.old_string ≠ []) (h : apply m input = .ok result) :
    ∃ i, OccursAt input.old_string m.text i ∧ result =
        (m.materialize (m.text.take i ++ input.new_string ++ m.text.drop (i + input.old_string.length)), 1) ∧
      ¬ OccursApart input.old_string m.text := by
  have hcount : m.countOccurrences input.old_string = 1 := by
    simp only [apply, hall, Bool.false_eq_true, if_false] at h
    split_ifs at h
    omega
  have hsome : ∃ j, OccursAt input.old_string m.text j := by
    by_contra hnone
    push Not at hnone
    have hzero := (TextModel.countLoop_eq_zero hne (le_refl m.text.length)).mpr hnone
    exact absurd (hzero.symm.trans hcount) nofun
  have hsole := mt (TextModel.one_lt_countLoop hne (le_refl m.text.length)).mpr
    (not_lt.mpr (le_of_eq hcount))
  obtain ⟨j, hj⟩ := hsome
  obtain ⟨i, hi, happly⟩ := apply_once hall hne hj hsole
  exact ⟨i, hi, Except.ok.inj (h.symm.trans happly), hsole⟩

theorem apply_all (hall : input.replace_all = true) (hne : input.old_string ≠ []) :
    (∃ result, apply m input = .ok result) ↔ ∃ i, OccursAt input.old_string m.text i := by
  have hcount : (m.replaceAll input.old_string input.new_string).2 = 0 ↔
      indexOf input.old_string m.text = none := by
    rw [TextModel.replaceAll]
    cases hlen : m.text.length with
    | zero =>
      have hnil := length_eq_zero_iff.mp hlen
      simp [TextModel.split, hnil, indexOf, findIdx?_cons, hne]
    | succ fuel =>
      rw [TextModel.split]
      cases hidx : indexOf input.old_string m.text with
      | none => simp
      | some idx => cases fuel <;> simp [TextModel.split]; split <;> simp
  rw [← not_iff_not, not_exists, not_exists, ← indexOf_none, ← hcount]
  simp only [apply, hall, if_true]
  split_ifs with hzero <;> simp [hzero]

/-- What an edit without `replace_all` writes where the old string occurs once. -/
theorem edit_sole (hall : input.replace_all = false) (hne : input.old_string ≠ []) (hread : file.readText = .ok raw)
    (hsole : ∀ j, OccursAt input.old_string (view raw) j ↔ j = i) :
    (edit file input).2 = [(toModelTextView raw).materialize ((view raw).take i ++ input.new_string ++
      (view raw).drop (i + input.old_string.length))] ∧
    ((∃ message, (edit file input).1 = .error message) ↔ file.writeError ≠ none) := by
  have hpos := length_pos_of_ne_nil hne
  have hone : ¬ OccursApart input.old_string (view raw) := by
    rintro ⟨k, l, hk, hl, hle⟩
    have hk' := (hsole k).mp hk
    have hl' := (hsole l).mp hl
    omega
  obtain ⟨i', hi', happly⟩ := apply_once hall hne ((hsole i).mpr rfl) hone
  obtain rfl := (hsole i').mp hi'
  simp only [edit, hread, happly]
  cases file.writeError <;> simp

/-- An edit does as promised if and only if the condition holds. -/
theorem edit_kept_iff (file : HostFile) (input : FileEditInput) (hne : input.old_string ≠ []) :
    EditKept file input ↔ ∀ raw, file.readText = .ok raw → Clear file input raw := by
  constructor
  · intro h raw hread
    constructor
    · intro hall i j hi hj hlt
      by_contra hnot
      obtain ⟨k, _, happly⟩ := apply_once hall hne hi hnot
      cases hwrite : file.writeError with
      | some e =>
        have hnone := h.failed (failure input e) (by simp [edit, hread, happly, hwrite])
        simp [edit, hread, happly, hwrite] at hnone
      | none =>
        obtain ⟨raw', i', hread', hsole, _⟩ := h.one_place hall 1 (by simp [edit, hread, happly, hwrite])
        cases hread.symm.trans hread'
        have hi' := (hsole i).mp hi
        have hj' := (hsole j).mp hj
        omega
    · intro hall i hsole
      obtain ⟨hwrites, hfails⟩ := edit_sole hall hne hread hsole
      have hwrite : file.writeError = none := by
        by_contra herror
        obtain ⟨message, hmessage⟩ := hfails.mpr herror
        rw [h.failed message hmessage] at hwrites
        cases hwrites
      cases hresult : (edit file input).1 with
      | error message => exact absurd hwrite (hfails.mp ⟨message, hresult⟩)
      | ok count =>
        obtain ⟨raw', i', hread', hsole', hcontent, hwrites'⟩ := h.one_place hall count hresult
        cases hread.symm.trans hread'
        obtain rfl := (hsole' i).mp ((hsole i).mpr rfl)
        refine ⟨hcontent.trans (congrArg some ((hsole i).mpr rfl).whole), hwrite, ?_⟩
        rw [hwrites] at hwrites'
        exact (view_parts ..).mp (singleton_inj.mp hwrites')
    · intro hall i hi
      obtain ⟨result, hresult⟩ := (apply_all (m := toModelTextView raw) hall hne).mpr ⟨i, hi⟩
      by_contra herror
      obtain ⟨e, he⟩ := ne_none_iff_exists'.mp herror
      have hnone := h.failed (failure input e) (by simp [edit, hread, hresult, he])
      simp [edit, hread, hresult, he] at hnone
  · intro h
    have hsole {raw : Units} {result : Units × Nat} (hall : input.replace_all = false) (hread : file.readText = .ok raw)
        (happly : apply (toModelTextView raw) input = .ok result) :
        ∃ i, ∀ j, OccursAt input.old_string (view raw) j ↔ j = i := by
      obtain ⟨i, hi, _, hone⟩ := apply_ok hall hne happly
      refine ⟨i, fun j => ⟨fun hj => ?_, fun he => he ▸ hi⟩⟩
      by_contra hij
      rcases lt_or_gt_of_ne hij with hlt | hgt
      · exact hone ((h raw hread).apart hall j i hj hi hlt)
      · exact hone ((h raw hread).apart hall i j hi hj hgt)
    constructor
    · intro hall count hok
      cases hread : file.readText with
      | error e => simp [edit, hread] at hok
      | ok raw =>
        cases happly : apply (toModelTextView raw) input with
        | error message => simp [edit, hread, happly] at hok
        | ok result =>
          obtain ⟨i, hi⟩ := hsole hall hread happly
          obtain ⟨hcontent, _, hparts⟩ := (h raw hread).sole hall i hi
          refine ⟨raw, i, rfl, hi, hcontent.trans (congrArg some ((hi i).mpr rfl).whole.symm), ?_⟩
          rw [(edit_sole hall hne hread hi).1, (view_parts ..).mpr hparts]
    · intro message herror
      cases hread : file.readText with
      | error e => simp [edit, hread]
      | ok raw =>
        cases happly : apply (toModelTextView raw) input with
        | error message => simp [edit, hread, happly]
        | ok result =>
          have hwrite : file.writeError = none := by
            cases hall : input.replace_all with
            | false =>
              obtain ⟨i, hi⟩ := hsole hall hread happly
              exact ((h raw hread).sole hall i hi).2.1
            | true =>
              obtain ⟨i, hi⟩ := (apply_all hall hne).mp ⟨result, happly⟩
              exact (h raw hread).written hall i hi
          simp [edit, hread, happly, hwrite] at herror
    · rintro hall hnew raw hread ⟨plain, hplain, rfl⟩ hlf text htext
      cases happly : apply (toModelTextView (lfToCrlf plain)) input with
      | error message => simp [edit, hread, happly] at htext
      | ok result =>
        obtain ⟨i, hi⟩ := hsole hall hread happly
        have hstyle := detect_crlf hplain (mem_lfToCrlf.mp hlf)
        rw [(edit_sole hall hne hread hi).1, mem_singleton] at htext
        subst htext
        have hfront : CR ∉ (view (lfToCrlf plain)).take i := fun hmem => view_no_cr hstyle (mem_of_mem_take hmem)
        have hback : CR ∉ (view (lfToCrlf plain)).drop (i + input.old_string.length) :=
          fun hmem => view_no_cr hstyle (mem_of_mem_drop hmem)
        have hreplaced := onlyCrLf_replaced hfront hback hnew
        rwa [← hstyle] at hreplaced
    · exact materialize_view

/-- `aa` is at two places of `aaa`, and the edit replaces one of them. -/
theorem overlapping_edited : ¬ EditKept { content := .ok [97, 97, 97] }
    { displayPath := "f", old_string := [97, 97], new_string := [98] } := by
  intro h
  obtain ⟨raw, i, hread, hone, _⟩ := h.one_place rfl 1 (by rfl)
  cases hread
  have hfirst := (hone 0).mp (by decide)
  have hsecond := (hone 1).mp (by decide)
  omega

theorem pairs_edited : EditKept { content := .ok [97, 13, 10, 98, 13, 10] }
    { displayPath := "f", old_string := [98], new_string := [99, 10, 100] } := by
  rw [edit_kept_iff _ _ (cons_ne_nil _ _)]
  intro raw hread
  cases hread
  have hplace : ∀ i, OccursAt [98] (toModelTextView [97, 13, 10, 98, 13, 10]).text i → i = 2 := by
    intro i hi
    have hlt := hi.lt (cons_ne_nil _ _)
    have hcases : i = 0 ∨ i = 1 ∨ i = 2 ∨ i = 3 := by
      have hlen : (toModelTextView [97, 13, 10, 98, 13, 10]).text.length = 4 := by rfl
      simp only [hlen, length_singleton] at hlt
      omega
    rcases hcases with rfl | rfl | rfl | rfl
    · exact absurd hi (by decide)
    · exact absurd hi (by decide)
    · rfl
    · exact absurd hi (by decide)
  constructor
  · intro _ i j hi hj hlt
    have hi' := hplace i hi
    have hj' := hplace j hj
    omega
  · exact fun _ i _ => ⟨rfl, rfl, fun h => absurd h.2.1 (by decide)⟩
  · exact nofun

end Echadron.Tool.FileEdit
