import Echadron.Lib.Bytes

namespace Echadron.Lib
open List

/-! Texts of scalar values as UTF-8, and decoders of UTF-8 and of UTF-16 that go on after what is ill-formed. -/

/-- U+FFFD, which stands for what cannot be decoded. -/
def replacement : Char := Char.ofNat 0xFFFD

def byteOrderMark : Char := Char.ofNat 0xFEFF

def stripByteOrderMark : List Char → List Char
  | c :: text => if c = byteOrderMark then text else c :: text
  | [] => []

def utf8 (text : List Char) : Bytes := text.flatMap String.utf8EncodeChar

theorem utf8_append (a b : List Char) : utf8 (a ++ b) = utf8 a ++ utf8 b := flatMap_append ..

theorem utf8_cons (c : Char) (text : List Char) : utf8 (c :: text) = String.utf8EncodeChar c ++ utf8 text :=
  flatMap_cons ..

theorem length_utf8_cons (c : Char) (text : List Char) : (utf8 (c :: text)).length = c.utf8Size + (utf8 text).length := by
  rw [utf8_cons, length_append, String.length_utf8EncodeChar]

theorem length_utf8_append (a b : List Char) : (utf8 (a ++ b)).length = (utf8 a).length + (utf8 b).length := by
  rw [utf8_append, length_append]

theorem length_le_utf8 (text : List Char) : text.length ≤ (utf8 text).length := by
  induction text with
  | nil => exact le_refl _
  | cons c text ih =>
    rw [length_utf8_cons, length_cons, add_comm]
    exact add_le_add (Char.utf8Size_pos c) ih

theorem utf8_length_pos {text : List Char} (h : text ≠ []) : 0 < (utf8 text).length :=
  lt_of_lt_of_le (length_pos_iff.mpr h) (length_le_utf8 text)

theorem prefix_of_bytes (ha : a <+: text) (hb : b <+: text) (h : (utf8 a).length ≤ (utf8 b).length) : a <+: b := by
  rcases prefix_or_prefix_of_prefix ha hb with hab | ⟨rest, rfl⟩
  · exact hab
  · rw [length_utf8_append] at h
    have hrest : rest = [] := by
      by_contra hne
      have hpos := utf8_length_pos hne
      omega
    exact ⟨[], by simp [hrest]⟩

theorem strip_shared (shared cut later : List Char) :
    ∃ shared' cut' later', stripByteOrderMark (shared ++ cut) = shared' ++ cut' ∧
      stripByteOrderMark (shared ++ later) = shared' ++ later' ∧
      (utf8 shared).length ≤ (utf8 shared').length + 4 := by
  cases shared with
  | nil => exact ⟨[], stripByteOrderMark cut, stripByteOrderMark later, rfl, rfl, Nat.zero_le _⟩
  | cons c shared =>
    rw [cons_append, cons_append, stripByteOrderMark, stripByteOrderMark]
    split
    · refine ⟨shared, cut, later, rfl, rfl, ?_⟩
      rw [length_utf8_cons, add_comm]
      exact Nat.add_le_add_left (Char.utf8Size_le_four c) _
    · exact ⟨c :: shared, cut, later, rfl, rfl, Nat.le_add_right _ _⟩

/-- How many bytes follow a first byte, and between which values the next one lies. -/
def continuation (b : UInt8) : Nat × UInt8 × UInt8 :=
  if 0xC2 ≤ b ∧ b ≤ 0xDF then (1, 0x80, 0xBF)
  else if b = 0xE0 then (2, 0xA0, 0xBF)
  else if b = 0xED then (2, 0x80, 0x9F)
  else if 0xE1 ≤ b ∧ b ≤ 0xEF then (2, 0x80, 0xBF)
  else if b = 0xF0 then (3, 0x90, 0xBF)
  else if 0xF1 ≤ b ∧ b ≤ 0xF3 then (3, 0x80, 0xBF)
  else if b = 0xF4 then (3, 0x80, 0x8F)
  else (0, 0x80, 0xBF)

/-- The bytes after a first one that one replacement stands for together with it. -/
def illFormedTail : Nat → UInt8 → UInt8 → Bytes → Nat
  | 0, _, _, _ => 0
  | _, _, _, [] => 0
  | needed + 1, lower, upper, b :: rest =>
    if lower ≤ b ∧ b ≤ upper then illFormedTail needed 0x80 0xBF rest + 1 else 0

/-- The first character, where the bytes begin with one that is well-formed. -/
def firstChar (bytes : Bytes) : Option Char := bytes.toByteArray.utf8DecodeChar? 0

def decodeAfter : Nat → Bytes → List (Option Char)
  | _, [] => []
  | skip + 1, _ :: rest => decodeAfter skip rest
  | 0, b :: rest =>
    match firstChar (b :: rest) with
    | some c => some c :: decodeAfter (c.utf8Size - 1) rest
    | none =>
      none :: decodeAfter (illFormedTail (continuation b).1 (continuation b).2.1 (continuation b).2.2 rest) rest

/-- The characters, and nothing for each ill-formed sequence. -/
def decodeUtf8 (bytes : Bytes) : List (Option Char) := decodeAfter 0 bytes

theorem firstChar_encoded (c : Char) (bytes : Bytes) : firstChar (String.utf8EncodeChar c ++ bytes) = some c := by
  rw [firstChar, toByteArray_append]
  exact ByteArray.utf8DecodeChar?_utf8EncodeChar_append

theorem decodeAfter_append (a bytes : Bytes) : decodeAfter a.length (a ++ bytes) = decodeAfter 0 bytes := by
  induction a with
  | nil => rfl
  | cons b a ih => rw [length_cons, cons_append, decodeAfter, ih]

theorem decodeUtf8_utf8 (text : List Char) : decodeUtf8 (utf8 text) = text.map some := by
  induction text with
  | nil => rfl
  | cons c text ih =>
    have hsize := String.length_utf8EncodeChar c
    have hfirst := firstChar_encoded c (utf8 text)
    rw [decodeUtf8, utf8_cons]
    cases hencoded : String.utf8EncodeChar c with
    | nil =>
      rw [hencoded] at hsize
      exact absurd hsize.symm (ne_of_gt (Char.utf8Size_pos c))
    | cons b rest =>
      rw [hencoded, length_cons] at hsize
      rw [hencoded, cons_append] at hfirst
      rw [cons_append, decodeAfter, hfirst]
      dsimp only
      rw [← hsize, Nat.add_sub_cancel, decodeAfter_append]
      exact congrArg (some c :: ·) ih

def isHighSurrogate (unit : Nat) : Bool := 0xD800 ≤ unit && unit < 0xDC00

def isLowSurrogate (unit : Nat) : Bool := 0xDC00 ≤ unit && unit < 0xE000

def surrogatePair (high low : Nat) : Char := Char.ofNat (0x10000 + (high - 0xD800) * 0x400 + (low - 0xDC00))

/-- A code unit that is not the first of a pair. -/
def unitChar (unit : Nat) : Char := if isLowSurrogate unit then replacement else Char.ofNat unit

def leftOver (odd : Bool) : List Char := if odd then [replacement] else []

/-- Surrogates that are not in pairs are replaced; one at the end takes a byte left over with it. -/
def decodeUnits (odd : Bool) : List Nat → List Char
  | [] => leftOver odd
  | [unit] => if isHighSurrogate unit then [replacement] else unitChar unit :: leftOver odd
  | unit :: next :: rest =>
    if isHighSurrogate unit then
      if isLowSurrogate next then surrogatePair unit next :: decodeUnits odd rest
      else replacement :: decodeUnits odd (next :: rest)
    else unitChar unit :: decodeUnits odd (next :: rest)

def unitsOf (unit : UInt8 → UInt8 → Nat) : Bytes → List Nat
  | first :: second :: rest => unit first second :: unitsOf unit rest
  | _ => []

def littleEndian (first second : UInt8) : Nat := first.toNat + 256 * second.toNat

def bigEndian (first second : UInt8) : Nat := 256 * first.toNat + second.toNat

def decodeUtf16 (unit : UInt8 → UInt8 → Nat) (bytes : Bytes) : List Char :=
  decodeUnits (bytes.length % 2 = 1) (unitsOf unit bytes)

theorem isHighSurrogate_iff : isHighSurrogate unit = true ↔ 0xD800 ≤ unit ∧ unit < 0xDC00 := by
  rw [isHighSurrogate, Bool.and_eq_true, decide_eq_true_eq, decide_eq_true_eq]

theorem isLowSurrogate_iff : isLowSurrogate unit = true ↔ 0xDC00 ≤ unit ∧ unit < 0xE000 := by
  rw [isLowSurrogate, Bool.and_eq_true, decide_eq_true_eq, decide_eq_true_eq]

theorem two_le_pair (hhigh : isHighSurrogate high = true) (hlow : isLowSurrogate low = true) :
    2 ≤ (surrogatePair high low).utf8Size := by
  obtain ⟨hhigh, hhigh'⟩ := isHighSurrogate_iff.mp hhigh
  obtain ⟨hlow, hlow'⟩ := isLowSurrogate_iff.mp hlow
  have hvalid : Nat.isValidChar (0x10000 + (high - 0xD800) * 0x400 + (low - 0xDC00)) := by
    omega
  have hval : (surrogatePair high low).val.toNat = 0x10000 + (high - 0xD800) * 0x400 + (low - 0xDC00) := by
    rw [surrogatePair, Char.ofNat, dif_pos hvalid]
    rfl
  have hne : (surrogatePair high low).utf8Size ≠ 1 := by
    intro hone
    have hle := UInt32.le_iff_toNat_le.mp (Char.utf8Size_eq_one_iff.mp hone)
    have h127 : (127 : UInt32).toNat = 127 := rfl
    omega
  have hpos := Char.utf8Size_pos (surrogatePair high low)
  omega

/-- The beginning of a text is decoded alike whatever follows, but for a surrogate cut off from its pair. -/
theorem decodeUnits_prefix (odd : Bool) (units rest : List Nat) :
    ∃ text cut later, decodeUnits false units = text ++ cut ∧ decodeUnits odd (units ++ rest) = text ++ later ∧
      units.length ≤ (utf8 text).length + 1 := by
  have hmore {c : Char} {units' : List Nat} {n : Nat} {first second : List Char} (hn : n ≤ c.utf8Size)
      (h : ∃ text cut later, first = text ++ cut ∧ second = text ++ later ∧
        units'.length ≤ (utf8 text).length + 1) :
      ∃ text cut later, c :: first = text ++ cut ∧ c :: second = text ++ later ∧
        units'.length + n ≤ (utf8 text).length + 1 := by
    obtain ⟨text, cut, later, rfl, rfl, hle⟩ := h
    refine ⟨c :: text, cut, later, rfl, rfl, ?_⟩
    rw [length_utf8_cons]
    omega
  induction units using decodeUnits.induct with
  | case1 => exact ⟨[], leftOver false, decodeUnits odd rest, rfl, rfl, Nat.zero_le _⟩
  | case2 unit hhigh =>
    refine ⟨[], [replacement], decodeUnits odd ([unit] ++ rest), ?_, rfl, le_refl _⟩
    rw [decodeUnits, if_pos hhigh, nil_append]
  | case3 unit hhigh =>
    have hsame : ∃ later, decodeUnits odd ([unit] ++ rest) = unitChar unit :: later := by
      cases rest with
      | nil => exact ⟨_, by rw [append_nil, decodeUnits, if_neg hhigh]⟩
      | cons next rest => exact ⟨_, by rw [singleton_append, decodeUnits, if_neg hhigh]⟩
    obtain ⟨later, hlater⟩ := hsame
    refine ⟨[unitChar unit], [], later, ?_, hlater, ?_⟩
    · rw [decodeUnits, if_neg hhigh]
      rfl
    · exact Nat.le_add_left _ _
  | case4 unit next rest' hhigh hlow ih =>
    rw [cons_append, cons_append, decodeUnits, decodeUnits, if_pos hhigh, if_pos hhigh, if_pos hlow, if_pos hlow]
    exact hmore (n := 2) (two_le_pair hhigh hlow) ih
  | case5 unit next rest' hhigh hlow ih =>
    rw [cons_append, cons_append, decodeUnits, decodeUnits, if_pos hhigh, if_pos hhigh, if_neg hlow, if_neg hlow]
    exact hmore (Char.utf8Size_pos _) ih
  | case6 unit next rest' hhigh ih =>
    rw [cons_append, cons_append, decodeUnits, decodeUnits, if_neg hhigh, if_neg hhigh]
    exact hmore (Char.utf8Size_pos _) ih

theorem unitsOf_take (unit : UInt8 → UInt8 → Nat) (bytes : Bytes) (k : Nat) :
    unitsOf unit (bytes.take (2 * k)) = (unitsOf unit bytes).take k := by
  induction k generalizing bytes with
  | zero => rfl
  | succ k ih =>
    rcases bytes with _ | ⟨first, _ | ⟨second, rest⟩⟩
    · rfl
    · rfl
    · have htake : (first :: second :: rest).take (2 * (k + 1)) = first :: second :: rest.take (2 * k) := rfl
      rw [htake, unitsOf, unitsOf, take_succ_cons, ih]

theorem le_length_unitsOf (unit : UInt8 → UInt8 → Nat) (h : 2 * k ≤ bytes.length) :
    k ≤ (unitsOf unit bytes).length := by
  induction k generalizing bytes with
  | zero => exact Nat.zero_le _
  | succ k ih =>
    rcases bytes with _ | ⟨first, _ | ⟨second, rest⟩⟩
    · simp at h
    · rw [length_singleton] at h
      omega
    · rw [length_cons, length_cons] at h
      exact Nat.succ_le_succ (ih (by omega))

theorem decodeUtf16_prefix (unit : UInt8 → UInt8 → Nat) (h : 2 * k ≤ bytes.length) :
    ∃ text cut later, decodeUtf16 unit (bytes.take (2 * k)) = text ++ cut ∧
      decodeUtf16 unit bytes = text ++ later ∧ k ≤ (utf8 text).length + 1 := by
  have heven : ¬ (bytes.take (2 * k)).length % 2 = 1 := by
    rw [length_take, min_eq_left h]
    omega
  obtain ⟨text, cut, later, hfirst, hwhole, hle⟩ := decodeUnits_prefix (decide (bytes.length % 2 = 1))
    ((unitsOf unit bytes).take k) ((unitsOf unit bytes).drop k)
  rw [take_append_drop] at hwhole
  rw [length_take, min_eq_left (le_length_unitsOf unit h)] at hle
  refine ⟨text, cut, later, ?_, hwhole, hle⟩
  rw [decodeUtf16, decide_eq_false heven, unitsOf_take]
  exact hfirst

end Echadron.Lib
