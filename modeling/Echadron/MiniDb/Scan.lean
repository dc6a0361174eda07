import Echadron.Lib.Search
import Echadron.MiniDb.Codec

namespace Echadron.MiniDb
open Lib Lib.Bytes List Option

/-! Reading frames from a file, which is given by its bytes. -/

/-- A frame as the scan finds it, its value by position. -/
structure FrameRef where
  type : UInt8
  key : Bytes
  metadata : Option Bytes
  expireAt : JsInteger
  frameOff : Nat
  valueOff : Nat
  valLen : Nat
  frameLen : Nat
deriving DecidableEq

def crcChunk : Nat := 2 ^ 20
def magicScanChunk : Nat := 2 ^ 20

/-- The checksum loop of `readFrameRefAt`, a chunk at a time. -/
def crcLoop (file : Bytes) : (fuel crcPos crcLeft : Nat) → UInt32 → UInt32
  | 0, _, _, crc => crc
  | fuel + 1, crcPos, crcLeft, crc =>
    if crcLeft = 0 then crc
    else
      let len := min crcChunk crcLeft
      crcLoop file fuel (crcPos + len) (crcLeft - len) (crc32 (slice file crcPos len) crc)

def optionalMeta (bytes : Bytes) : Option Bytes := if bytes.length = 0 then none else some bytes

def frameLength (header : Bytes) : Nat :=
  headerSize + readUInt16LE header 4 + readUInt32LE header 6 + readUInt32LE header 10 + crcSize

def frameRef (file : Bytes) (pos : Nat) (header : Bytes) : FrameRef :=
  let keyLen := readUInt16LE header 4
  let valLen := readUInt32LE header 6
  let metaLen := readUInt32LE header 10
  let keyStart := pos + headerSize
  { type := readUInt8 header 2
    key := slice file keyStart keyLen
    metadata := optionalMeta (slice file (keyStart + keyLen + valLen) metaLen)
    expireAt := .ofInt (readBigInt64LE header 14)
    frameOff := pos
    valueOff := keyStart + keyLen
    valLen := valLen
    frameLen := frameLength header }

def readFrameRefAt (file : Bytes) (pos : Nat) : Option FrameRef :=
  if file.length - pos < headerSize then none
  else
    let header := slice file pos headerSize
    let frameLen := frameLength header
    if slice header 0 2 ≠ magic then none
    else if readUInt16LE header 4 > maxKeyLen ∨ frameLen < headerSize + crcSize then none
    else if file.length - pos < frameLen then none
    else
      let crcLeft := frameLen - crcSize - 2
      let crc := crcLoop file crcLeft (pos + 2) crcLeft 0
      if readUInt32LE (slice file (pos + frameLen - crcSize) crcSize) 0 ≠ crc.toNat then none
      else some (frameRef file pos header)

def indexOfMagic : Bytes → Option Nat
  | a :: b :: rest => if [a, b] = magic then some 0 else (indexOfMagic (b :: rest)).map (· + 1)
  | _ => none

/-- The loop of `findMagicSync`, over windows that overlap in one byte. -/
def findMagicLoop (file : Bytes) : (fuel pos : Nat) → Option Nat
  | 0, _ => none
  | fuel + 1, pos =>
    if pos < file.length then
      let n := min magicScanChunk (file.length - pos)
      match indexOfMagic (slice file pos n) with
      | some idx => some (pos + idx)
      | none => if n < magic.length then none else findMagicLoop file fuel (pos + (n - (magic.length - 1)))
    else none

def findMagicSync (file : Bytes) (start : Nat) : Option Nat := findMagicLoop file (file.length - start) start

inductive RecoveryMode where
  | resync
  | strict
deriving DecidableEq

structure ScanFrameRefsResult where
  frames : List FrameRef
  corruptRanges : List (Nat × Nat)
  eofOffset : Nat
deriving DecidableEq

/-- The inner loop of a scan: the next position at which a frame validates. -/
def resyncLoop (file : Bytes) : (fuel scan : Nat) → Option Nat
  | 0, _ => none
  | fuel + 1, scan =>
    if scan < file.length - 1 then
      match findMagicSync file scan with
      | none => none
      | some scan => if (readFrameRefAt file scan).isSome then some scan else resyncLoop file fuel (scan + 1)
    else none

def scanLoop (file : Bytes) (onCorrupt : RecoveryMode) : (fuel pos : Nat) → ScanFrameRefsResult
  | 0, pos => ⟨[], [], pos⟩
  | fuel + 1, pos =>
    if pos < file.length then
      match readFrameRefAt file pos with
      | some r =>
        let result := scanLoop file onCorrupt fuel (pos + r.frameLen)
        { result with frames := r :: result.frames }
      | none =>
        match onCorrupt with
        | .strict => ⟨[], [(pos, file.length)], pos⟩
        | .resync =>
          match resyncLoop file file.length (pos + 1) with
          | none => ⟨[], [(pos, file.length)], pos⟩
          | some resume =>
            let result := scanLoop file onCorrupt fuel resume
            { result with corruptRanges := (pos, resume) :: result.corruptRanges }
    else ⟨[], [], pos⟩

def scanFrameRefsFd (file : Bytes) (onCorrupt : RecoveryMode) (startOffset : Nat) : ScanFrameRefsResult :=
  scanLoop file onCorrupt (file.length - startOffset) startOffset

/-- An operation of a batch, its value by position. -/
structure BatchOpRef where
  type : UInt8
  key : Bytes
  metadata : Option Bytes
  expireAt : JsInteger
  valueOff : Nat
  valLen : Nat
deriving DecidableEq

def scanBatchLoop (body : Bytes) (bodyOff : Nat) : (count o : Nat) → Except String (List BatchOpRef)
  | 0, _ => .ok []
  | count + 1, o => do
    if o + subHeader > body.length then .error "batch op header truncated"
    else
      let keyLen := readUInt16LE body (o + 1)
      let valLen := readUInt32LE body (o + 3)
      let metaLen := readUInt32LE body (o + 7)
      let keyStart := o + subHeader
      if keyStart + keyLen + valLen + metaLen > body.length then .error "batch op payload truncated"
      else
        let ops ← scanBatchLoop body bodyOff count (keyStart + keyLen + valLen + metaLen)
        return {
          type := readUInt8 body o
          key := slice body keyStart keyLen
          metadata := optionalMeta (slice body (keyStart + keyLen + valLen) metaLen)
          expireAt := .ofInt (readBigInt64LE body (o + 11))
          valueOff := bodyOff + (keyStart + keyLen)
          valLen := valLen } :: ops

def scanBatchOpRefs (body : Bytes) (bodyOff : Nat) : Except String (List BatchOpRef) :=
  if body.length < 2 then .ok [] else scanBatchLoop body bodyOff (readUInt16LE body 0) 2

theorem crcLoop_eq (file : Bytes) (fuel crcPos crcLeft : Nat) (crc : UInt32) (h : crcLeft ≤ fuel) :
    crcLoop file fuel crcPos crcLeft crc = crc32 (slice file crcPos crcLeft) crc := by
  induction fuel generalizing crcPos crcLeft crc with
  | zero => rw [crcLoop, Nat.le_zero.mp h, slice_zero, crc32_nil]
  | succ fuel ih =>
    rw [crcLoop]
    split
    · rename_i hz
      rw [hz, slice_zero, crc32_nil]
    · rename_i hz
      have hchunk : 0 < min crcChunk crcLeft := by
        rw [Nat.lt_min]
        exact ⟨by decide, pos_of_ne_zero hz⟩
      have hle : min crcChunk crcLeft ≤ crcLeft := min_le_right _ _
      rw [ih _ _ _ (by omega), ← crc32_append, ← slice_add, Nat.add_sub_cancel' hle]

/-- A magic starts at `i`. -/
def MagicAt (file : Bytes) (i : Nat) : Prop := slice file i magic.length = magic

theorem MagicAt.lt (h : MagicAt file i) : i + 1 < file.length := by
  have hlength := congrArg length h
  rw [slice, length_take, length_drop] at hlength
  simp only [magic, length_cons] at hlength
  omega

theorem indexOfMagic_first (buf : Bytes) : FirstFrom (MagicAt buf) 0 (indexOfMagic buf) := by
  induction buf with
  | nil => exact fun j _ hat => absurd hat.lt (Nat.not_lt_zero _)
  | cons a rest ih =>
    cases rest with
    | nil => exact fun j _ hat => absurd hat.lt (by simp)
    | cons b rest =>
      rw [indexOfMagic]
      split
      · rename_i he
        exact .here he
      · rename_i hne
        have hzero : ¬ MagicAt (a :: b :: rest) 0 := hne
        cases hi : indexOfMagic (b :: rest) with
        | none =>
          rw [hi] at ih
          rintro (_ | j) _
          · exact hzero
          · exact ih j (Nat.zero_le j)
        | some i =>
          rw [hi] at ih
          refine ⟨Nat.zero_le _, ih.2.1, ?_⟩
          rintro (_ | j) _ hj
          · exact hzero
          · exact ih.2.2 j (Nat.zero_le j) (Nat.lt_of_succ_lt_succ hj)

theorem magicAt_slice (hn : i + 2 ≤ n) : MagicAt (slice file pos n) i ↔ MagicAt file (pos + i) := by
  rw [MagicAt, MagicAt, slice_slice (by exact hn)]

theorem findMagicLoop_first (file : Bytes) (fuel pos : Nat) (h : file.length - pos ≤ fuel) :
    FirstFrom (MagicAt file) pos (findMagicLoop file fuel pos) := by
  induction fuel generalizing pos with
  | zero =>
    intro j hj hat
    have := hat.lt
    omega
  | succ fuel ih =>
    rw [findMagicLoop]
    split
    · have hn : min magicScanChunk (file.length - pos) ≤ file.length - pos := min_le_right _ _
      have hchunk : min magicScanChunk (file.length - pos) = file.length - pos ∨
          2 ≤ min magicScanChunk (file.length - pos) := by
        rw [magicScanChunk]
        omega
      generalize min magicScanChunk (file.length - pos) = n at hn hchunk
      have hfirst := indexOfMagic_first (slice file pos n)
      dsimp only
      cases hidx : indexOfMagic (slice file pos n) with
      | some idx =>
        rw [hidx] at hfirst
        have hlt := hfirst.2.1.lt
        rw [length_slice (by omega)] at hlt
        refine ⟨Nat.le_add_right _ _, (magicAt_slice (by omega)).mp hfirst.2.1, ?_⟩
        intro j hj hj' hat
        obtain ⟨d, rfl⟩ := Nat.exists_eq_add_of_le hj
        exact hfirst.2.2 d (Nat.zero_le d) (by omega) ((magicAt_slice (by omega)).mpr hat)
      | none =>
        rw [hidx] at hfirst
        have hwindow : ∀ j, pos ≤ j → j + 2 ≤ pos + n → ¬ MagicAt file j := by
          intro j hj hj' hat
          obtain ⟨d, rfl⟩ := Nat.exists_eq_add_of_le hj
          exact hfirst d (Nat.zero_le d) ((magicAt_slice (by omega)).mpr hat)
        have hnext : magic.length - 1 = 1 := rfl
        by_cases hshort : n < magic.length
        · rw [if_pos hshort]
          intro j hj hat
          have hlt := hat.lt
          exact hwindow j hj (by omega) hat
        · rw [if_neg hshort]
          -- the next window starts at the last byte of this one
          apply (ih (pos + (n - 1)) (by omega)).skip (by omega)
          intro j hj hj'
          exact hwindow j hj (by omega)
    · intro j hj hat
      have := hat.lt
      omega

/-- A complete frame with a matching checksum starts at `pos`. -/
structure FrameAt (file : Bytes) (pos : Nat) : Prop where
  header_le : pos + headerSize ≤ file.length
  magic_at : MagicAt file pos
  frame_le : pos + frameLength (slice file pos headerSize) ≤ file.length
  crc_eq : readUInt32LE (slice file (pos + frameLength (slice file pos headerSize) - crcSize) crcSize) 0 =
    (crc32 (slice file (pos + 2) (frameLength (slice file pos headerSize) - crcSize - 2)) 0).toNat

theorem readUInt16LE_lt (buf : Bytes) (o : Nat) : readUInt16LE buf o < 2 ^ 16 := by
  have hlt := toNatLE_lt (slice buf o 2)
  have hle := Nat.pow_le_pow_right (n := 256) (by decide) (length_slice_le buf o 2)
  exact lt_of_lt_of_le hlt hle

theorem readFrameRefAt_eq (file : Bytes) (pos : Nat) [Decidable (FrameAt file pos)] : readFrameRefAt file pos =
      if FrameAt file pos then some (frameRef file pos (slice file pos headerSize)) else none := by
  have hkey := readUInt16LE_lt (slice file pos headerSize) 4
  have hmagic : slice (slice file pos headerSize) 0 2 = slice file pos magic.length := slice_slice (by decide)
  have hframe : ¬ (readUInt16LE (slice file pos headerSize) 4 > maxKeyLen ∨
      frameLength (slice file pos headerSize) < headerSize + crcSize) := by
    simp only [maxKeyLen, frameLength]
    omega
  have hcrc := crcLoop_eq file (frameLength (slice file pos headerSize) - crcSize - 2) (pos + 2)
    (frameLength (slice file pos headerSize) - crcSize - 2) 0 (le_refl _)
  rw [readFrameRefAt]
  by_cases hheader : file.length - pos < headerSize
  · rw [if_pos hheader, if_neg]
    intro h
    have hle := h.header_le
    omega
  · rw [if_neg hheader]
    dsimp only
    rw [hmagic, hcrc]
    by_cases hat : slice file pos magic.length = magic
    · rw [if_neg (not_not_intro hat), if_neg hframe]
      by_cases hlen : file.length - pos < frameLength (slice file pos headerSize)
      · rw [if_pos hlen, if_neg]
        intro h
        have hle := h.frame_le
        omega
      · rw [if_neg hlen]
        by_cases hsum : readUInt32LE (slice file (pos + frameLength (slice file pos headerSize) - crcSize)
            crcSize) 0 = (crc32 (slice file (pos + 2)
              (frameLength (slice file pos headerSize) - crcSize - 2)) 0).toNat
        · rw [if_neg (not_not_intro hsum), if_pos]
          refine ⟨?_, hat, ?_, hsum⟩
          · simp only [headerSize] at hheader ⊢
            omega
          · simp only [headerSize] at hheader hlen ⊢
            omega
        · rw [if_pos hsum, if_neg (fun h => hsum h.crc_eq)]
    · rw [if_pos hat, if_neg (fun h => hat h.magic_at)]

theorem readFrameRefAt_eq_some : readFrameRefAt file pos = some r ↔
      FrameAt file pos ∧ r = frameRef file pos (slice file pos headerSize) := by
  classical
  rw [readFrameRefAt_eq]
  split
  · rename_i h
    exact ⟨fun he => ⟨h, (some.inj he).symm⟩, fun he => congrArg some he.2.symm⟩
  · rename_i h
    exact ⟨nofun, fun he => absurd he.1 h⟩

theorem isSome_readFrameRefAt : (readFrameRefAt file pos).isSome ↔ FrameAt file pos := by
  rw [isSome_iff_exists]
  constructor
  · rintro ⟨r, hr⟩
    exact (readFrameRefAt_eq_some.mp hr).1
  · intro h
    exact ⟨_, readFrameRefAt_eq_some.mpr ⟨h, rfl⟩⟩

instance : Decidable (FrameAt file pos) := decidable_of_iff _ isSome_readFrameRefAt

theorem readFrameRefAt_eq_none : readFrameRefAt file pos = none ↔ ¬ FrameAt file pos := by
  rw [← isSome_readFrameRefAt, not_isSome_iff_eq_none]

theorem resyncLoop_first (file : Bytes) (fuel scan : Nat) (h : file.length - scan ≤ fuel) :
    FirstFrom (FrameAt file) scan (resyncLoop file fuel scan) := by
  induction fuel generalizing scan with
  | zero =>
    intro j hj hat
    have := hat.magic_at.lt
    omega
  | succ fuel ih =>
    rw [resyncLoop]
    split
    · have hfirst := findMagicLoop_first file (file.length - scan) scan (le_refl _)
      rw [findMagicSync]
      cases hi : findMagicLoop file (file.length - scan) scan with
      | none =>
        rw [hi] at hfirst
        exact hfirst.none_of_imp fun _ => FrameAt.magic_at
      | some i =>
        rw [hi] at hfirst
        dsimp only
        by_cases hat : FrameAt file i
        · rw [if_pos (isSome_readFrameRefAt.mpr hat)]
          exact hfirst.candidate (fun _ => FrameAt.magic_at) hat
        · rw [if_neg (mt isSome_readFrameRefAt.mp hat)]
          apply hfirst.reject (fun _ => FrameAt.magic_at) hat
          apply ih
          have := hfirst.1
          omega
    · intro j hj hat
      have := hat.magic_at.lt
      omega

theorem FrameAt.lt (h : FrameAt file pos) : pos < file.length := Nat.lt_of_succ_lt h.magic_at.lt

theorem scanLoop_found (h : readFrameRefAt file pos = some r) (onCorrupt : RecoveryMode)
    (fuel : Nat) : (scanLoop file onCorrupt (fuel + 1) pos).frames =
      r :: (scanLoop file onCorrupt fuel (pos + r.frameLen)).frames := by
  have hlt := (readFrameRefAt_eq_some.mp h).1.lt
  simp only [scanLoop, if_pos hlt, h]

theorem scanLoop_stop (h : ¬ FrameAt file pos)
    (hrest : onCorrupt = .strict ∨ ∀ p, pos < p → ¬ FrameAt file p) (fuel : Nat) :
    (scanLoop file onCorrupt fuel pos).frames = [] := by
  cases fuel with
  | zero => rfl
  | succ fuel =>
    by_cases hlt : pos < file.length
    · cases onCorrupt with
      | strict => simp only [scanLoop, if_pos hlt, readFrameRefAt_eq_none.mpr h]
      | resync =>
        have hfirst := resyncLoop_first file file.length (pos + 1) (Nat.sub_le _ _)
        simp only [scanLoop, if_pos hlt, readFrameRefAt_eq_none.mpr h]
        cases hi : resyncLoop file file.length (pos + 1) with
        | none => rfl
        | some i =>
          rw [hi] at hfirst
          rcases hrest with hmode | hnone
          · cases hmode
          · exact absurd hfirst.2.1 (hnone i hfirst.1)
    · cases onCorrupt with
      | strict => simp only [scanLoop, if_neg hlt]
      | resync => simp only [scanLoop, if_neg hlt]

/-- The frames that a scan in resync mode finds: the next valid one each time. -/
inductive Scans (file : Bytes) : Nat → List FrameRef → Prop where
  | stop (h : ∀ q, pos ≤ q → ¬ FrameAt file q) : Scans file pos []
  | frame (hle : pos ≤ i) (hskip : ∀ q, pos ≤ q → q < i → ¬ FrameAt file q)
    (hr : readFrameRefAt file i = some r) (hrest : Scans file (i + r.frameLen) rs) :
    Scans file pos (r :: rs)

theorem Scans.skip {next : Nat} (h : Scans file next rs) (hle : pos ≤ next)
    (hskip : ∀ q, pos ≤ q → q < next → ¬ FrameAt file q) : Scans file pos rs := by
  have hsplit : ∀ q, pos ≤ q → q < next ∨ next ≤ q := fun q _ => lt_or_ge q next
  cases h with
  | stop h =>
    apply Scans.stop
    intro q hq
    rcases hsplit q hq with hlt | hge
    · exact hskip q hq hlt
    · exact h q hge
  | frame hle' hskip' hr hrest =>
    apply Scans.frame (le_trans hle hle') _ hr hrest
    intro q hq hqi
    rcases hsplit q hq with hlt | hge
    · exact hskip q hq hlt
    · exact hskip' q hge hqi

theorem Scans.unique (h : Scans file pos rs) (h' : Scans file pos rs') : rs = rs' := by
  induction h generalizing rs' with
  | stop h =>
    cases h' with
    | stop _ => rfl
    | frame hle _ hr _ => exact absurd (readFrameRefAt_eq_some.mp hr).1 (h _ hle)
  | @frame pos i r rs hle hskip hr _ ih =>
    have hat := (readFrameRefAt_eq_some.mp hr).1
    cases h' with
    | stop h => exact absurd hat (h i hle)
    | @frame _ j _ _ hle' hskip' hr' hrest' =>
      have hat' := (readFrameRefAt_eq_some.mp hr').1
      obtain rfl : i = j := by
        rcases lt_trichotomy i j with hlt | rfl | hlt
        · exact absurd hat (hskip' i hle hlt)
        · rfl
        · exact absurd hat' (hskip j hle' hlt)
      obtain rfl := mem_unique hr hr'
      rw [ih hrest']

theorem frameLen_pos (h : readFrameRefAt file pos = some r) : 0 < r.frameLen := by
  rw [(readFrameRefAt_eq_some.mp h).2]
  show 0 < frameLength _
  rw [frameLength, headerSize]
  omega

theorem scanLoop_scans (h : file.length - pos ≤ fuel) : Scans file pos (scanLoop file .resync fuel pos).frames := by
  induction fuel generalizing pos with
  | zero =>
    apply Scans.stop
    intro q hq hat
    have := hat.lt
    omega
  | succ fuel ih =>
    cases hr : readFrameRefAt file pos with
    | some r =>
      have hpos := frameLen_pos hr
      rw [scanLoop_found hr]
      exact .frame (Nat.le_refl _) (fun q hq hq' => absurd hq' (Nat.not_lt_of_le hq)) hr
        (ih (by omega))
    | none =>
      have hpos := readFrameRefAt_eq_none.mp hr
      have hfirst := resyncLoop_first file file.length (pos + 1) (Nat.sub_le _ _)
      have hskip : ∀ i, (∀ q, pos + 1 ≤ q → q < i → ¬ FrameAt file q) →
          ∀ q, pos ≤ q → q < i → ¬ FrameAt file q := by
        intro i hi q hq hqi
        rcases eq_or_lt_of_le hq with rfl | hlt
        · exact hpos
        · exact hi q hlt hqi
      by_cases hlt : pos < file.length
      · cases hi : resyncLoop file file.length (pos + 1) with
        | none =>
          rw [hi] at hfirst
          simp only [scanLoop, if_pos hlt, hr, hi]
          exact .stop fun q hq => hskip (q + 1) (fun q hq _ => hfirst q hq) q hq (Nat.lt_succ_self q)
        | some i =>
          rw [hi] at hfirst
          have hle := hfirst.1
          simp only [scanLoop, if_pos hlt, hr, hi]
          exact (ih (by omega)).skip (by omega) (hskip i hfirst.2.2)
      · simp only [scanLoop, if_neg hlt]
        apply Scans.stop
        intro q hq hat
        have := hat.lt
        omega

/-- A scan passes over positions without a valid frame, and fuel beyond the bytes left changes
nothing. -/
theorem scanLoop_skip {next : Nat} (hle : pos ≤ next) (hskip : ∀ q, pos ≤ q → q < next → ¬ FrameAt file q)
    (hfuel : file.length - pos ≤ fuel) (hfuel' : file.length - next ≤ fuel') :
    (scanLoop file .resync fuel pos).frames = (scanLoop file .resync fuel' next).frames := by
  have hscans : Scans file next (scanLoop file .resync fuel' next).frames := scanLoop_scans hfuel'
  exact (scanLoop_scans hfuel).unique (hscans.skip hle hskip)

theorem scanLoop_resync (hp : pos < p) (hat : FrameAt file p) (hfuel : file.length - pos ≤ fuel) :
    (scanLoop file .resync fuel pos).frames ≠ [] := by
  intro hnil
  have hscans : Scans file pos (scanLoop file .resync fuel pos).frames := scanLoop_scans hfuel
  rw [hnil] at hscans
  cases hscans with
  | stop h => exact h p (le_of_lt hp) hat

/-- How many of the frames and the corrupt ranges a position lies in. -/
def ScanFrameRefsResult.covering (r : ScanFrameRefsResult) (p : Nat) : Nat :=
  (r.frames.countP fun f => f.frameOff ≤ p ∧ p < f.frameOff + f.frameLen) +
    r.corruptRanges.countP fun range => range.1 ≤ p ∧ p < range.2

/-- Every byte lies in one frame, which is valid, or in one corrupt range. -/
theorem scan_tiles (file : Bytes) (onCorrupt : RecoveryMode) (start : Nat) :
    (∀ p, (scanFrameRefsFd file onCorrupt start).covering p = if start ≤ p ∧ p < file.length then 1 else 0) ∧
      ∀ f ∈ (scanFrameRefsFd file onCorrupt start).frames, readFrameRefAt file f.frameOff = some f := by
  rw [scanFrameRefsFd]
  generalize hfuel : file.length - start = fuel
  replace hfuel := hfuel.le
  induction fuel generalizing start with
  | zero =>
    refine ⟨fun p => ?_, nofun⟩
    rw [if_neg (by omega)]
    rfl
  | succ fuel ih =>
    by_cases hlt : start < file.length
    · have hrest (p : Nat) : ScanFrameRefsResult.covering ⟨[], [(start, file.length)], start⟩ p =
          if start ≤ p ∧ p < file.length then 1 else 0 := by
        simp [ScanFrameRefsResult.covering, countP_cons]
      cases hr : readFrameRefAt file start with
      | some r =>
        obtain ⟨hat, heq⟩ := readFrameRefAt_eq_some.mp hr
        have hoff : r.frameOff = start := heq ▸ rfl
        have hle : start + r.frameLen ≤ file.length := heq ▸ hat.frame_le
        have hpos := frameLen_pos hr
        obtain ⟨hcover, hvalid⟩ := ih (start + r.frameLen) (by omega)
        simp only [scanLoop, if_pos hlt, hr]
        refine ⟨fun p => ?_, forall_mem_cons.mpr ⟨hoff ▸ hr, hvalid⟩⟩
        have hp := hcover p
        simp only [ScanFrameRefsResult.covering, countP_cons, decide_eq_true_eq, hoff] at hp ⊢
        split_ifs at hp ⊢ <;> omega
      | none =>
        cases onCorrupt with
        | strict =>
          simp only [scanLoop, if_pos hlt, hr]
          exact ⟨hrest, nofun⟩
        | resync =>
          have hfirst := resyncLoop_first file file.length (start + 1) (Nat.sub_le _ _)
          simp only [scanLoop, if_pos hlt, hr]
          cases hi : resyncLoop file file.length (start + 1) with
          | none => exact ⟨hrest, nofun⟩
          | some i =>
            rw [hi] at hfirst
            have hle := hfirst.1
            have hlt := hfirst.2.1.lt
            obtain ⟨hcover, hvalid⟩ := ih i (by omega)
            refine ⟨fun p => ?_, hvalid⟩
            have hp := hcover p
            simp only [ScanFrameRefsResult.covering, countP_cons, decide_eq_true_eq] at hp ⊢
            split_ifs at hp ⊢ <;> omega
    · cases onCorrupt <;>
        simp only [scanLoop, if_neg hlt] <;>
        exact ⟨fun p => (if_neg (by omega)).symm, nofun⟩

end Echadron.MiniDb
