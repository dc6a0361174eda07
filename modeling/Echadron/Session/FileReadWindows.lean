import Echadron.Session.FileRead

namespace Echadron.Session
open Lib Base List Option

/-! Windows on the boundaries of characters. -/

def TextOf (encoding : UtfTextEncoding) (bytes : Bytes) (text : List Char) : Prop :=
  match encoding with
  | .utf8 => bytes = utf8 text
  | .utf16le => decodeUtfText bytes .utf16le = text
  | .utf16be => decodeUtfText bytes .utf16be = text

structure IsTextFile (file : HostFile) (encoding : UtfTextEncoding) (text : List Char) : Prop where
  notDirectory : file.isDirectory = false
  withinLimit : file.size ≤ FS_READ_MAX_BYTES
  text : TextOf encoding file.bytes text

/-- A window that ends where a character does, or after the whole text. -/
structure Covers (req : FsReadRequest) (before window rest : List Char) : Prop where
  offset : req.offset = (utf8 before).length
  length : req.length = (utf8 window).length ∨ rest = [] ∧ (utf8 window).length ≤ req.length

def contentOf (req : FsReadRequest) (window : List Char) : FsContent :=
  match req.encoding with
  | .base64 => .base64 (utf8 window)
  | .auto => .utf8 window
  | .utf8 => .utf8 window

variable {file : HostFile} {req : FsReadRequest} {encoding : UtfTextEncoding} {text before window rest : List Char}

theorem Covers.effectiveLength (h : Covers req before window rest) :
    effectiveLength req (utf8 (before ++ window ++ rest)).length = (utf8 window).length := by
  have htotal : (utf8 (before ++ window ++ rest)).length =
      (utf8 before).length + (utf8 window).length + (utf8 rest).length := by
    rw [length_utf8_append, length_utf8_append]
  rw [Session.effectiveLength, h.offset]
  rcases h.length with hlength | ⟨rfl, hlength⟩
  · omega
  · have hnone : (utf8 []).length = 0 := rfl
    omega

theorem subarray_window (before window : List Char) (bytes : Bytes) :
    subarray (utf8 (before ++ window) ++ bytes) (utf8 before).length
      ((utf8 before).length + (utf8 window).length) = utf8 window := by
  have hlength : (utf8 before).length + (utf8 window).length = (utf8 (before ++ window)).length :=
    (length_utf8_append ..).symm
  rw [subarray, hlength, take_left, utf8_append, drop_left]

/-- What is cut out of the whole text, as the code does with a window of no bytes apart. -/
theorem Covers.cut (h : Covers req before window rest) : (if (utf8 window).length ≤ (0 : Int) then []
      else subarray (utf8 (before ++ window ++ rest)) req.offset (req.offset + ((utf8 window).length : Int).toNat)) =
      utf8 window := by
  split
  · exact (eq_nil_of_length_eq_zero (by omega)).symm
  · rw [h.offset, utf8_append (before ++ window) rest]
    exact subarray_window before window (utf8 rest)

theorem Covers.more (h : Covers req before window rest) :
    decide ((req.offset : Int) + (utf8 window).length < (utf8 (before ++ window ++ rest)).length) = !rest.isEmpty := by
  rw [length_utf8_append, length_utf8_append, h.offset]
  cases rest with
  | nil =>
    have hnone : (utf8 []).length = 0 := rfl
    exact decide_eq_false (by omega)
  | cons c rest =>
    have hpos := @utf8_length_pos (c :: rest) (cons_ne_nil _ _)
    exact decide_eq_true (by omega)

theorem readWindow_utf8 (htext : file.bytes = utf8 (before ++ window ++ rest)) (h : Covers req before window rest) :
    readWindow file req none = (utf8 window, !rest.isEmpty) := by
  rw [readWindow]
  rw [HostFile.size, htext, h.effectiveLength, h.more]
  congr 1
  have hread : subarray (file.readBytes (req.offset + ((utf8 window).length : Int).toNat)) req.offset
      (req.offset + ((utf8 window).length : Int).toNat) =
        subarray (utf8 (before ++ window ++ rest)) req.offset (req.offset + ((utf8 window).length : Int).toNat) := by
    rw [subarray, subarray, HostFile.readBytes, take_take, min_self, htext]
  rw [hread]
  exact h.cut

theorem decoded_prefix (hne : encoding ≠ .utf8) (h : 2 * k ≤ bytes.length) :
    ∃ shared cut later, decodeUtfText (bytes.take (2 * k)) encoding = shared ++ cut ∧
      decodeUtfText bytes encoding = shared ++ later ∧ k ≤ (utf8 shared).length + 5 := by
  have hstripped (unit : UInt8 → UInt8 → Nat) :
      ∃ shared cut later, stripByteOrderMark (decodeUtf16 unit (bytes.take (2 * k))) = shared ++ cut ∧
        stripByteOrderMark (decodeUtf16 unit bytes) = shared ++ later ∧ k ≤ (utf8 shared).length + 5 := by
    obtain ⟨shared, cut, later, hfirst, hwhole, hle⟩ := decodeUtf16_prefix unit h
    obtain ⟨shared', cut', later', hfirst', hwhole', hle'⟩ := strip_shared shared cut later
    refine ⟨shared', cut', later', ?_, ?_, by omega⟩
    · rw [hfirst, hfirst']
    · rw [hwhole, hwhole']
  cases encoding with
  | utf8 => exact absurd rfl hne
  | utf16le => exact hstripped littleEndian
  | utf16be => exact hstripped bigEndian

theorem readWindow_utf16 (hne : encoding ≠ .utf8)
    (htext : decodeUtfText file.bytes encoding = before ++ window ++ rest) (h : Covers req before window rest) :
    readWindow file req (some encoding) = (utf8 window, !rest.isEmpty) := by
  rw [readWindow, HostFile.rawWanted]
  split
  · -- the beginning that is read has the whole window and more
    rename_i hbounded
    have heven : (req.offset + req.length) * 2 + UTF16_TRANSCODE_SLACK_BYTES = 2 * (req.offset + req.length + 32) := by
      rw [UTF16_TRANSCODE_SLACK_BYTES]
      omega
    rw [heven] at hbounded
    obtain ⟨shared, cut, later, hread, hwhole, hle⟩ := decoded_prefix hne hbounded.2.le
    rw [htext] at hwhole
    have hends : (utf8 (before ++ window)).length ≤ req.offset + req.length := by
      rw [length_utf8_append, h.offset]
      apply Nat.add_le_add_left
      rcases h.length with hlength | ⟨_, hlength⟩
      · exact hlength.ge
      · exact hlength
    have hwindow : before ++ window <+: before ++ window ++ rest := prefix_append ..
    have hshared : shared <+: before ++ window ++ rest := hwhole ▸ prefix_append ..
    obtain ⟨more, rfl⟩ := prefix_of_bytes hwindow hshared (by omega)
    have hrest : rest ≠ [] := by
      rintro rfl
      rw [append_nil] at hshared
      have hshort := hshared.length_le
      have hmore : more = [] := by
        rw [length_append] at hshort
        exact eq_nil_of_length_eq_zero (by omega)
      rw [hmore, append_nil] at hle
      omega
    have hcovers : Covers req before window (more ++ cut) :=
      ⟨h.offset, .inl (h.length.resolve_right fun hend => hrest hend.1)⟩
    have hmore : (!rest.isEmpty) = true := by
      rw [Bool.not_eq_true', isEmpty_eq_false_iff]
      exact hrest
    rw [HostFile.readBytes, heven, Nat.mul_mod_right, Nat.sub_zero, hread, append_assoc (before ++ window),
      hcovers.effectiveLength, hcovers.cut, hmore, Bool.true_or]
  · have hall : file.readBytes file.size = file.bytes := take_length
    rw [hall, htext, h.effectiveLength, h.more, h.cut]
    rfl

def Recognized (file : HostFile) (encoding : UtfTextEncoding) : Prop :=
  classifyTextSample (file.bytes.take FS_BINARY_SAMPLE_BYTES) = ⟨false, encoding⟩

theorem recognized_of_mark (h : markedEncoding file.bytes = some encoding) (hne : encoding ≠ .utf8) :
    Recognized file encoding := by
  apply classify_marked _ hne
  rw [markedEncoding_take _ (by decide)]
  exact h

theorem content_of_window (file : HostFile) (req : FsReadRequest) (window : List Char) (more : Bool) :
    (FsReadResponse.of file req false (utf8 window, more)).content = contentOf req window := by
  rw [FsReadResponse.of, contentOf]
  cases req.encoding with
  | auto => exact congrArg FsContent.utf8 (utf8ToString_utf8 window)
  | utf8 => exact congrArg FsContent.utf8 (utf8ToString_utf8 window)
  | base64 => rfl

section

variable (hfile : IsTextFile file encoding text) (hknown : Recognized file encoding)
  (hencoding : req.encoding = .base64 → encoding = .utf8)
include hfile hknown hencoding

theorem read_recognized : read file req = .ok (FsReadResponse.of file req false
      (readWindow file req (if encoding = .utf8 then none else some encoding))) := by
  have hsample : classifyTextSample (file.readBytes (min FS_BINARY_SAMPLE_BYTES file.size)) = ⟨false, encoding⟩ := by
    rw [HostFile.readBytes, HostFile.size, ← take_eq_take_min]
    exact hknown
  have hdirectory : ¬ file.isDirectory = true := by
    rw [hfile.notDirectory]
    exact Bool.false_ne_true
  rw [read, if_neg hdirectory, if_neg (not_lt.mpr hfile.withinLimit), hsample]
  by_cases hutf8 : encoding = .utf8
  · subst hutf8
    rfl
  · have hbase64 : req.encoding ≠ .base64 := fun h => hutf8 (hencoding h)
    simp [hutf8, hbase64]

theorem read_window (htext : text = before ++ window ++ rest) (hcovers : Covers req before window rest) :
    ∃ response, read file req = .ok response ∧ response.content = contentOf req window ∧
      response.truncated = !rest.isEmpty := by
  have hwindow : readWindow file req (if encoding = .utf8 then none else some encoding) =
      (utf8 window, !rest.isEmpty) := by
    have hbytes := hfile.text
    subst htext
    cases encoding with
    | utf8 => exact readWindow_utf8 hbytes hcovers
    | utf16le => exact readWindow_utf16 UtfTextEncoding.noConfusion hbytes hcovers
    | utf16be => exact readWindow_utf16 UtfTextEncoding.noConfusion hbytes hcovers
  refine ⟨_, read_recognized hfile hknown hencoding, ?_, ?_⟩
  · rw [hwindow]
    exact content_of_window ..
  · rw [hwindow]
    rfl

end

def FsContent.bytes : FsContent → Bytes
  | .utf8 text => Lib.utf8 text
  | .base64 bytes => bytes

theorem contentOf_bytes (req : FsReadRequest) (window : List Char) : (contentOf req window).bytes = utf8 window := by
  rw [contentOf]
  split <;> rfl

/-- The requests for some windows, each of which begins where the one before it ends. -/
def windowRequests (path : String) (kind : FsReadEncoding) : Nat → List (List Char) → List FsReadRequest
  | _, [] => []
  | offset, window :: windows =>
    { path, offset, length := (utf8 window).length, encoding := kind } ::
      windowRequests path kind (offset + (utf8 window).length) windows

theorem read_windows (hfile : IsTextFile file encoding text) (hknown : Recognized file encoding) {path : String}
    {kind : FsReadEncoding} (hencoding : kind = .base64 → encoding = .utf8) {windows : List (List Char)}
    (htext : text = before ++ windows.flatten) :
    ∃ responses, (windowRequests path kind (utf8 before).length windows).mapM (read file) = .ok responses ∧
      (responses.flatMap fun response => response.content.bytes) = utf8 windows.flatten := by
  induction windows generalizing before with
  | nil => exact ⟨[], rfl, rfl⟩
  | cons window windows ih =>
    rw [flatten_cons, ← append_assoc] at htext
    obtain ⟨responses, hreads, hresponses⟩ := ih htext
    have hcovers : Covers ⟨path, (utf8 before).length, (utf8 window).length, kind⟩ before window windows.flatten :=
      ⟨rfl, .inl rfl⟩
    obtain ⟨response, hread, hcontent, _⟩ := read_window hfile hknown hencoding htext hcovers
    refine ⟨response :: responses, ?_, ?_⟩
    · rw [windowRequests, mapM_cons, hread, ← length_utf8_append, hreads]
      rfl
    · rw [flatMap_cons, hresponses, hcontent, contentOf_bytes, flatten_cons, utf8_append]

/-- A file of which the beginning tells the encoding is read in windows as its text is in UTF-8. -/
theorem text_of_windows (hfile : IsTextFile file encoding text)
    (hknown : Recognized file encoding ∨ encoding ≠ .utf8 ∧ markedEncoding file.bytes = some encoding) :
    (∀ req before window rest, (req.encoding = .base64 → encoding = .utf8) → text = before ++ window ++ rest →
      Covers req before window rest → ∃ response, read file req = .ok response ∧
        response.content = contentOf req window ∧ response.truncated = !rest.isEmpty) ∧
      ∀ path kind windows, (kind = .base64 → encoding = .utf8) → text = windows.flatten →
        ∃ responses, (windowRequests path kind 0 windows).mapM (read file) = .ok responses ∧
          (responses.flatMap fun response => response.content.bytes) = utf8 text := by
  have hrecognized : Recognized file encoding := by
    rcases hknown with hsample | ⟨hne, hmark⟩
    · exact hsample
    · exact recognized_of_mark hmark hne
  constructor
  · intro req before window rest hencoding htext hcovers
    exact read_window hfile hrecognized hencoding htext hcovers
  · rintro path kind windows hencoding rfl
    exact @read_windows _ _ _ [] hfile hrecognized path kind hencoding windows rfl

def plainFile (bytes : Bytes) : HostFile where
  rel := "notes.txt"
  isDirectory := false
  bytes
  etag := ""
  mime _ := "text/plain"
  languageId := none

/-- A byte-order mark, `a`, a pair of surrogates and half a code unit. -/
def marked : HostFile := plainFile [0xFF, 0xFE, 0x61, 0x00, 0x3D, 0xD8, 0x00, 0xDE, 0x62]

theorem marked_windows : ∃ response, read marked ⟨"notes.txt", 1, 4, .auto⟩ = .ok response ∧
      response.content = .utf8 [Char.ofNat 0x1F600] ∧ response.truncated = true := by
  have htext : decodeUtfText marked.bytes .utf16le = ['a', Char.ofNat 0x1F600, replacement] := by decide +kernel
  have hfile : IsTextFile marked .utf16le ['a', Char.ofNat 0x1F600, replacement] := ⟨rfl, by decide +kernel, htext⟩
  exact (text_of_windows hfile (.inr ⟨by decide, by decide +kernel⟩)).1 ⟨"notes.txt", 1, 4, .auto⟩ ['a']
    [Char.ofNat 0x1F600] [replacement] (by decide) rfl ⟨by decide +kernel, .inl (by decide +kernel)⟩

/-- Two letters of UTF-16 without a mark and without zero bytes, which are four letters of UTF-8. -/
theorem unmarked_misread :
    ¬ ∀ file encoding text, IsTextFile file encoding text → ∀ req before window rest, req.encoding ≠ .base64 →
      text = before ++ window ++ rest → Covers req before window rest → ∃ response, read file req = .ok response ∧
        response.content = contentOf req window ∧ response.truncated = !rest.isEmpty := by
  intro h
  have htext : decodeUtfText [0x61, 0x61, 0x61, 0x61] .utf16le = [Char.ofNat 0x6161, Char.ofNat 0x6161] := by
    decide +kernel
  have hfile : IsTextFile (plainFile [0x61, 0x61, 0x61, 0x61]) .utf16le [Char.ofNat 0x6161, Char.ofNat 0x6161] :=
    ⟨rfl, by decide +kernel, htext⟩
  obtain ⟨response, hread, hcontent, _⟩ := h _ _ _ hfile ⟨"notes.txt", 0, 6, .auto⟩ []
    [Char.ofNat 0x6161, Char.ofNat 0x6161] [] (by decide) rfl ⟨rfl, .inl (by decide +kernel)⟩
  have hletters : (read (plainFile [0x61, 0x61, 0x61, 0x61]) ⟨"notes.txt", 0, 6, .auto⟩).toOption.map
      FsReadResponse.content = some (.utf8 ['a', 'a', 'a', 'a']) := by
    decide +kernel
  rw [hread, Except.toOption, map_some, hcontent] at hletters
  cases hletters

end Echadron.Session
