import Echadron.Lib.Unicode

namespace Echadron.Base
open Lib

/-! The encoding of a text file, which is told by its beginning. -/

inductive UtfTextEncoding where
  | utf8
  | utf16le
  | utf16be
deriving DecidableEq

structure TextClassification where
  isBinary : Bool
  encoding : UtfTextEncoding
deriving DecidableEq

structure TextEncodingDetection where
  encoding : UtfTextEncoding
  seemsBinary : Bool
deriving DecidableEq

def ENCODING_DETECTION_SAMPLE_BYTES : Nat := 512

def MIN_ZERO_BYTES_FOR_UTF16 : Nat := 2

def markedEncoding (sample : Bytes) : Option UtfTextEncoding :=
  if sample.take 2 = [0xFE, 0xFF] then some .utf16be
  else if sample.take 2 = [0xFF, 0xFE] then some .utf16le
  else if sample.take 3 = [0xEF, 0xBB, 0xBF] then some .utf8
  else none

/-- How many zero bytes there are at odd or at even places of the beginning. -/
def zerosAt (parity : Nat) (sample : Bytes) : Nat :=
  ((sample.take ENCODING_DETECTION_SAMPLE_BYTES).zipIdx.filter fun byte => byte.1 = 0 ∧ byte.2 % 2 = parity).length

def sniffTextEncoding (sample : Bytes) : TextEncodingDetection :=
  match markedEncoding sample with
  | some encoding => ⟨encoding, false⟩
  | none =>
    if zerosAt 1 sample = 0 ∧ zerosAt 0 sample = 0 then ⟨.utf8, false⟩
    else if zerosAt 0 sample = 0 ∧ MIN_ZERO_BYTES_FOR_UTF16 ≤ zerosAt 1 sample then ⟨.utf16le, false⟩
    else if zerosAt 1 sample = 0 ∧ MIN_ZERO_BYTES_FOR_UTF16 ≤ zerosAt 0 sample then ⟨.utf16be, false⟩
    else ⟨.utf8, true⟩

/-- The length of a sequence by its first byte; 0 where it is none. -/
def expectedLength (b : UInt8) : Nat :=
  if 0xC2 ≤ b ∧ b ≤ 0xDF then 2 else if 0xE0 ≤ b ∧ b ≤ 0xEF then 3 else if 0xF0 ≤ b ∧ b ≤ 0xF4 then 4 else 0

/-- A sequence begins here that the sample ends in the middle of. -/
def isCutAt (sample : Bytes) (i : Nat) : Bool :=
  match sample.drop i with
  | b :: rest => expectedLength b ≠ 0 ∧ sample.length < i + expectedLength b ∧ rest.all fun c => 0x80 ≤ c ∧ c ≤ 0xBF
  | [] => false

def sampleEnd (sample : Bytes) : Nat :=
  ((List.range' (sample.length - 3) (min 3 sample.length)).find? (isCutAt sample)).getD sample.length

def isNonPrintable (c : Char) : Bool :=
  c.toNat ≠ 9 && c.toNat ≠ 10 && c.toNat ≠ 13 && (c.toNat < 32 || 0x7F ≤ c.toNat && c.toNat ≤ 0x9F)

/-- All of it must be well-formed, and three characters of ten at most may be ones that are not printed. -/
def classifyTextSample (sample : Bytes) : TextClassification :=
  let sniffed := sniffTextEncoding sample
  if sniffed.seemsBinary ∨ sniffed.encoding ≠ .utf8 then ⟨sniffed.seemsBinary, sniffed.encoding⟩
  else if sample.contains 0 then ⟨true, .utf8⟩
  else
    match (decodeUtf8 (sample.take (sampleEnd sample))).mapM id with
    | none => ⟨true, .utf8⟩
    | some text =>
      let text := stripByteOrderMark text
      ⟨3 * text.length < 10 * (text.filter isNonPrintable).length, .utf8⟩

def utf8ToString (bytes : Bytes) : List Char := (decodeUtf8 bytes).map fun c => c.getD replacement

def decodeUtfText (bytes : Bytes) : UtfTextEncoding → List Char
  | .utf8 => stripByteOrderMark (utf8ToString bytes)
  | .utf16le => stripByteOrderMark (decodeUtf16 littleEndian bytes)
  | .utf16be => stripByteOrderMark (decodeUtf16 bigEndian bytes)

theorem markedEncoding_take (bytes : Bytes) (h : 3 ≤ n) : markedEncoding (bytes.take n) = markedEncoding bytes := by
  rw [markedEncoding, List.take_take, List.take_take, min_eq_left h, min_eq_left (by omega), markedEncoding]

theorem classify_marked (h : markedEncoding sample = some encoding)
    (hne : encoding ≠ .utf8) : classifyTextSample sample = ⟨false, encoding⟩ := by
  have hsniffed : sniffTextEncoding sample = ⟨encoding, false⟩ := by rw [sniffTextEncoding, h]
  rw [classifyTextSample, hsniffed]
  exact if_pos (.inr hne)

theorem utf8ToString_utf8 (text : List Char) : utf8ToString (utf8 text) = text := by
  rw [utf8ToString, decodeUtf8_utf8, List.map_map]
  exact List.map_id _

open List

theorem masked_toNat (x : UInt8) : (x &&& 0x1F ||| 0xC0).toNat = 192 + x.toNat % 32 ∧
    (x &&& 0x0F ||| 0xE0).toNat = 224 + x.toNat % 16 ∧ (x &&& 0x07 ||| 0xF0).toNat = 240 + x.toNat % 8 ∧
    (x &&& 0x3F ||| 0x80).toNat = 128 + x.toNat % 64 := by
  have hall : ∀ n : Fin 256, let x := UInt8.ofFin n
      (x &&& 0x1F ||| 0xC0).toNat = 192 + x.toNat % 32 ∧ (x &&& 0x0F ||| 0xE0).toNat = 224 + x.toNat % 16 ∧
      (x &&& 0x07 ||| 0xF0).toNat = 240 + x.toNat % 8 ∧ (x &&& 0x3F ||| 0x80).toNat = 128 + x.toNat % 64 := by
    decide +kernel
  exact hall x.toFin

theorem expectedLength_eq (b : UInt8) : expectedLength b =
    if 0xC2 ≤ b.toNat ∧ b.toNat ≤ 0xDF then 2 else if 0xE0 ≤ b.toNat ∧ b.toNat ≤ 0xEF then 3
    else if 0xF0 ≤ b.toNat ∧ b.toNat ≤ 0xF4 then 4 else 0 := rfl

structure Sequence (c : Char) (b : UInt8) (rest : Bytes) : Prop where
  eq : String.utf8EncodeChar c = b :: rest
  expected : expectedLength b = if rest = [] then 0 else rest.length + 1
  single : rest = [] → b.toNat = c.toNat
  le : b.toNat ≤ 0xF4
  continued : ∀ x ∈ rest, 0x80 ≤ x ∧ x ≤ 0xBF

theorem shifted_toNat (c : Char) (h : k.toNat % 32 = n) : (c.val >>> k).toUInt8.toNat = c.toNat / 2 ^ n % 256 := by
  rw [UInt32.toNat_toUInt8, UInt32.toNat_shiftRight, Nat.shiftRight_eq_div_pow, h]
  rfl

theorem sequence_of_char (c : Char) : ∃ b rest, Sequence c b rest := by
  have hcont (x : UInt8) : 0x80 ≤ (x &&& 0x3F ||| 0x80) ∧ (x &&& 0x3F ||| 0x80) ≤ 0xBF := by
    have hx := (masked_toNat x).2.2.2
    rw [UInt8.le_iff_toNat_le, UInt8.le_iff_toNat_le, hx]
    exact ⟨Nat.le_add_right _ _, by change _ ≤ 191; omega⟩
  have hvalid : c.toNat < 0x110000 := c.valid.elim (fun h => lt_trans h (by decide)) And.right
  have hlead {lead : UInt8} {n : Nat} {rest : Bytes} (heq : String.utf8EncodeChar c = lead :: rest)
      (hlead : lead.toNat = n) (hn : rest.length = 1 ∧ 0xC2 ≤ n ∧ n ≤ 0xDF ∨
        rest.length = 2 ∧ 0xE0 ≤ n ∧ n ≤ 0xEF ∨ rest.length = 3 ∧ 0xF0 ≤ n ∧ n ≤ 0xF4)
      (hcontinued : ∀ x ∈ rest, 0x80 ≤ x ∧ x ≤ 0xBF) : Sequence c lead rest := by
    have hne : rest ≠ [] := by
      rintro rfl
      simp at hn
    refine ⟨heq, ?_, fun h => absurd h hne, ?_, hcontinued⟩
    · rw [expectedLength_eq, hlead, if_neg hne]
      grind
    · grind
  rcases c.utf8Size_eq with h | h | h | h
  · have hle : c.toNat ≤ 127 := Char.utf8Size_eq_one_iff.mp h
    have hsame : c.val.toUInt8.toNat = c.toNat := by
      exact Nat.mod_eq_of_lt (Nat.lt_of_le_of_lt hle (by decide))
    refine ⟨_, _, String.utf8EncodeChar_eq_singleton h, ?_, fun _ => hsame, ?_, nofun⟩
    · rw [expectedLength_eq, hsame, if_neg (by omega), if_neg (by omega), if_neg (by omega), if_pos rfl]
    · omega
  · obtain ⟨hlow, hhigh⟩ : 127 < c.toNat ∧ c.toNat ≤ 0x7FF := Char.utf8Size_eq_two_iff.mp h
    refine ⟨_, _, hlead (String.utf8EncodeChar_eq_cons_cons h) ((masked_toNat _).1) (.inl ⟨rfl, ?_⟩) ?_⟩
    · rw [shifted_toNat c (n := 6) rfl]
      omega
    · simp [hcont]
  · refine ⟨_, _, hlead (String.utf8EncodeChar_eq_cons_cons_cons h) ((masked_toNat _).2.1) (.inr (.inl ⟨rfl, ?_⟩)) ?_⟩
    · omega
    · simp [hcont]
  · refine ⟨_, _, hlead (String.utf8EncodeChar_eq_cons_cons_cons_cons h) ((masked_toNat _).2.2.1)
      (.inr (.inr ⟨rfl, ?_⟩)) ?_⟩
    · rw [shifted_toNat c (n := 18) rfl]
      omega
    · simp [hcont]


/-- What a cut leaves of the sequence that it is in. -/
inductive CutOff : Bytes → Prop where
  | nothing : CutOff []
  | inside (h : Sequence c b rest) (hk : k < rest.length) : CutOff (b :: rest.take k)

theorem utf8_cut (text : List Char) (n : Nat) :
    ∃ done cut, (utf8 text).take n = utf8 done ++ cut ∧ done <+: text ∧ CutOff cut := by
  induction text generalizing n with
  | nil => exact ⟨[], [], by simp [utf8], nil_prefix, .nothing⟩
  | cons c text ih =>
    obtain ⟨b, rest, hseq⟩ := sequence_of_char c
    by_cases hn : n < rest.length + 1
    · cases n with
      | zero => exact ⟨[], [], rfl, nil_prefix, .nothing⟩
      | succ k =>
        have hk := Nat.lt_of_succ_lt_succ hn
        refine ⟨[], b :: rest.take k, ?_, nil_prefix, .inside hseq hk⟩
        rw [utf8_cons, hseq.eq, cons_append, take_succ_cons, take_append_of_le_length (le_of_lt hk)]
        rfl
    · obtain ⟨done, cut, htake, hprefix, hcut⟩ := ih (n - (rest.length + 1))
      refine ⟨c :: done, cut, ?_, (prefix_cons_inj c).mpr hprefix, hcut⟩
      rw [utf8_cons, utf8_cons, append_assoc, ← htake, hseq.eq, take_append, take_of_length_le (Nat.le_of_not_lt hn)]
      rfl

theorem expectedLength_of_continuation {x : UInt8} (h : 0x80 ≤ x ∧ x ≤ 0xBF) : expectedLength x = 0 := by
  change 128 ≤ x.toNat ∧ x.toNat ≤ 191 at h
  rw [expectedLength_eq, if_neg (by omega), if_neg (by omega), if_neg (by omega)]

theorem sequence_inside (text : List Char) (more : Bytes) {i : Nat} (hi : i < (utf8 text).length) :
    ∃ b rest, (utf8 text ++ more).drop i = b :: rest ∧ i + expectedLength b ≤ (utf8 text).length := by
  induction text generalizing i with
  | nil => exact absurd hi (Nat.not_lt_zero _)
  | cons c text ih =>
    obtain ⟨b, rest, hseq⟩ := sequence_of_char c
    rw [utf8_cons, hseq.eq, cons_append, length_cons, length_append] at hi
    rw [utf8_cons, hseq.eq, cons_append, cons_append, length_cons, length_append]
    cases i with
    | zero =>
      refine ⟨b, _, rfl, ?_⟩
      rw [hseq.expected]
      split <;> omega
    | succ i =>
      rw [drop_succ_cons, append_assoc]
      by_cases hrest : i < rest.length
      · refine ⟨rest[i], rest.drop (i + 1) ++ (utf8 text ++ more), ?_, ?_⟩
        · rw [drop_append_of_le_length (le_of_lt hrest), drop_eq_getElem_cons hrest, cons_append]
        · rw [expectedLength_of_continuation (hseq.continued _ (getElem_mem hrest))]
          exact le_of_lt hi
      · obtain ⟨b', rest', hdrop, hle⟩ := @ih (i - rest.length) (by omega)
        refine ⟨b', rest', ?_, by omega⟩
        rw [drop_append, drop_of_length_le (Nat.le_of_not_lt hrest), hdrop]
        rfl

theorem not_cut (text : List Char) (more : Bytes) {i : Nat} (hi : i < (utf8 text).length) :
    isCutAt (utf8 text ++ more) i = false := by
  obtain ⟨b, rest, hdrop, hle⟩ := sequence_inside text more hi
  rw [isCutAt, hdrop]
  apply decide_eq_false
  rintro ⟨-, hlt, -⟩
  rw [length_append] at hlt
  omega

theorem Sequence.cut (h : Sequence c b rest) (text : List Char) (hk : k < rest.length) :
    isCutAt (utf8 text ++ b :: rest.take k) (utf8 text).length = true := by
  have hne : rest ≠ [] := ne_nil_of_length_pos (Nat.zero_lt_of_lt hk)
  rw [isCutAt, drop_left]
  apply decide_eq_true
  rw [h.expected, if_neg hne]
  refine ⟨Nat.succ_ne_zero _, ?_, ?_⟩
  · rw [length_append, length_cons, length_take_of_le (le_of_lt hk)]
    omega
  · apply all_eq_true.mpr
    intro x hx
    exact decide_eq_true (h.continued x (mem_of_mem_take hx))

theorem CutOff.sampleEnd (h : CutOff cut) (text : List Char) :
    sampleEnd (utf8 text ++ cut) = (utf8 text).length := by
  rw [Base.sampleEnd]
  cases h with
  | nothing =>
    have hnone : (range' ((utf8 text ++ []).length - 3) (min 3 (utf8 text ++ []).length)).find?
        (isCutAt (utf8 text ++ [])) = none := by
      apply find?_eq_none.mpr
      intro i hi
      rw [append_nil, mem_range'_1] at hi
      rw [not_cut text [] (by omega)]
      exact Bool.false_ne_true
    rw [hnone, append_nil]
    rfl
  | @inside c b rest k hseq hk =>
    have hsize : rest.length + 1 ≤ 4 := by
      have hsize := c.utf8Size_le_four
      rw [← String.length_utf8EncodeChar, hseq.eq] at hsize
      exact hsize
    have hlength : (utf8 text ++ b :: rest.take k).length = (utf8 text).length + (k + 1) := by
      rw [length_append, length_cons, length_take_of_le (le_of_lt hk)]
    have hsome : (range' ((utf8 text ++ b :: rest.take k).length - 3)
        (min 3 (utf8 text ++ b :: rest.take k).length)).find?
        (isCutAt (utf8 text ++ b :: rest.take k)) = some (utf8 text).length := by
      rw [find?_range'_eq_some, hlength]
      refine ⟨hseq.cut text hk, mem_range'_1.mpr (by omega), ?_⟩
      intro i _ hi
      rw [not_cut text _ hi]
      rfl
    rw [hsome]
    rfl

theorem sniff_text {sample : Bytes} (h : ∀ b ∈ sample, b.toNat ≠ 0 ∧ b.toNat ≤ 0xF4) :
    sniffTextEncoding sample = ⟨.utf8, false⟩ := by
  have hzeros (parity : Nat) : zerosAt parity sample = 0 := by
    rw [zerosAt, length_eq_zero_iff, filter_eq_nil_iff]
    rintro ⟨b, i⟩ hb hzero
    have hb := (h b (mem_of_mem_take (fst_mem_of_mem_zipIdx hb))).1
    obtain ⟨rfl, -⟩ := of_decide_eq_true hzero
    exact hb rfl
  have hmarked : markedEncoding sample = some .utf8 ∨ markedEncoding sample = none := by
    have hnot {a b : UInt8} (ha : 0xF4 < a.toNat ∨ 0xF4 < b.toNat) : sample.take 2 ≠ [a, b] := by
      intro htake
      have hmem {x : UInt8} (hx : x ∈ [a, b]) : x.toNat ≤ 0xF4 := (h x (mem_of_mem_take (htake ▸ hx))).2
      rcases ha with ha | ha
      · exact Nat.not_lt_of_le (hmem mem_cons_self) ha
      · exact Nat.not_lt_of_le (hmem (mem_cons_of_mem _ mem_cons_self)) ha
    rw [markedEncoding, if_neg (hnot (.inl (by decide))), if_neg (hnot (.inl (by decide)))]
    split
    · exact .inl rfl
    · exact .inr rfl
  rw [sniffTextEncoding]
  rcases hmarked with hmarked | hmarked
  · rw [hmarked]
  · rw [hmarked]
    exact if_pos ⟨hzeros 1, hzeros 0⟩

/-- Every sample of a text without control characters, cut at any byte, is taken for text. -/
theorem classify_text (text : List Char) (n : Nat)
    (h : ∀ c ∈ text, c.toNat < 32 ∨ 0x7F ≤ c.toNat ∧ c.toNat ≤ 0x9F → c.toNat = 9 ∨ c.toNat = 10 ∨ c.toNat = 13) :
    classifyTextSample ((utf8 text).take n) = ⟨false, .utf8⟩ := by
  have hbytes : ∀ b ∈ (utf8 text).take n, b.toNat ≠ 0 ∧ b.toNat ≤ 0xF4 := by
    intro x hx
    obtain ⟨c, hc, hx⟩ := mem_flatMap.mp (mem_of_mem_take hx)
    obtain ⟨b, rest, hseq⟩ := sequence_of_char c
    rw [hseq.eq] at hx
    rcases mem_cons.mp hx with rfl | hx
    · refine ⟨?_, hseq.le⟩
      by_cases hrest : rest = []
      · have hc := h c hc
        have hsame := hseq.single hrest
        omega
      · intro hzero
        have hexpected := hseq.expected
        rw [if_neg hrest, expectedLength_eq, hzero] at hexpected
        cases hexpected
    · have hle := hseq.continued x hx
      change 128 ≤ x.toNat ∧ x.toNat ≤ 191 at hle
      omega
  obtain ⟨done, cut, htake, hprefix, hcut⟩ := utf8_cut text n
  have hend : sampleEnd ((utf8 text).take n) = (utf8 done).length := by
    rw [htake]
    exact hcut.sampleEnd done
  have hdecoded : (decodeUtf8 (((utf8 text).take n).take (sampleEnd ((utf8 text).take n)))).mapM id = some done := by
    rw [hend, htake, take_left, decodeUtf8_utf8, mapM_map]
    exact mapM_pure.trans (congrArg some (map_id _))
  have hnone : (stripByteOrderMark done).filter isNonPrintable = [] := by
    apply filter_eq_nil_iff.mpr
    intro c hc
    have hc : c ∈ done := by
      cases done with
      | nil => cases hc
      | cons d done =>
        rw [stripByteOrderMark] at hc
        split at hc
        · exact mem_cons_of_mem _ hc
        · exact hc
    have hc := h c ( hprefix.subset hc)
    rw [isNonPrintable]
    simp
    omega
  have hzero : 0 ∉ (utf8 text).take n := fun hmem => (hbytes 0 hmem).1 rfl
  rw [classifyTextSample, sniff_text hbytes]
  simp [hzero, hdecoded, hnone]

theorem classify_text_cut : classifyTextSample ((utf8 ['a', 'é']).take 2) = ⟨false, .utf8⟩ :=
  classify_text _ 2 (by simp)

end Echadron.Base
