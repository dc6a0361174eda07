import Echadron.MiniDb.Scan

namespace Echadron.MiniDb
open Lib Lib.Bytes

/-! The scanner that has the whole buffer in memory. -/

structure Frame where
  type : UInt8
  key : Bytes
  value : Bytes
  metadata : Option Bytes
  expireAt : JsInteger
deriving DecidableEq

def readFrameAt (buf : Bytes) (pos : Nat) : Option (Frame × Nat) :=
  if buf.length - pos < headerSize then none
  else if slice buf pos magic.length ≠ magic then none
  else
    let keyLen := readUInt16LE buf (pos + 4)
    let valLen := readUInt32LE buf (pos + 6)
    let metaLen := readUInt32LE buf (pos + 10)
    let frameLen := headerSize + keyLen + valLen + metaLen + crcSize
    if keyLen > maxKeyLen then none
    else if frameLen < headerSize + crcSize then none
    else if buf.length - pos < frameLen then none
    else if readUInt32LE buf (pos + frameLen - crcSize) ≠
        (crc32 (slice buf (pos + 2) (frameLen - crcSize - 2)) 0).toNat then none
    else
      let keyStart := pos + headerSize
      some
        ({ type := readUInt8 buf (pos + 2)
           key := slice buf keyStart keyLen
           value := slice buf (keyStart + keyLen) valLen
           metadata := optionalMeta (slice buf (keyStart + keyLen + valLen) metaLen)
           expireAt := .ofInt (readBigInt64LE buf (pos + 14)) }, frameLen)

def indexOfMagicFrom (buf : Bytes) (scan : Nat) : Option Nat := (indexOfMagic (buf.drop scan)).map (scan + ·)

structure ParseResult where
  frames : List Frame
  corruptRanges : List (Nat × Nat)
  eofOffset : Nat
deriving DecidableEq

/-- The inner loop of `parseBuffer`. -/
def parseResync (buf : Bytes) : (fuel scan : Nat) → Option Nat
  | 0, _ => none
  | fuel + 1, scan =>
    if scan < buf.length - 1 then
      match indexOfMagicFrom buf scan with
      | none => none
      | some scan => if (readFrameAt buf scan).isSome then some scan else parseResync buf fuel (scan + 1)
    else none

def parseLoop (buf : Bytes) (onCorrupt : RecoveryMode) : (fuel pos : Nat) → ParseResult
  | 0, pos => ⟨[], [], pos⟩
  | fuel + 1, pos =>
    if pos < buf.length then
      match readFrameAt buf pos with
      | some (frame, frameLen) =>
        let result := parseLoop buf onCorrupt fuel (pos + frameLen)
        { result with frames := frame :: result.frames }
      | none =>
        match onCorrupt with
        | .strict => ⟨[], [(pos, buf.length)], pos⟩
        | .resync =>
          match parseResync buf buf.length (pos + 1) with
          | none => ⟨[], [(pos, buf.length)], pos⟩
          | some resume =>
            let result := parseLoop buf onCorrupt fuel resume
            { result with corruptRanges := (pos, resume) :: result.corruptRanges }
    else ⟨[], [], pos⟩

def parseBuffer (buf : Bytes) (onCorrupt : RecoveryMode) : ParseResult := parseLoop buf onCorrupt buf.length 0

/-- The frame that a reference stands for, its value read from the file. -/
def FrameRef.frame (file : Bytes) (r : FrameRef) : Frame :=
  { type := r.type
    key := r.key
    value := slice file r.valueOff r.valLen
    metadata := r.metadata
    expireAt := r.expireAt }

theorem readUInt16LE_header (h : i + 2 ≤ headerSize) :
    readUInt16LE (slice file pos headerSize) i = readUInt16LE file (pos + i) := by
  rw [readUInt16LE, readUInt16LE, slice_slice h]

theorem readUInt32LE_header (h : i + 4 ≤ headerSize) :
    readUInt32LE (slice file pos headerSize) i = readUInt32LE file (pos + i) := by
  rw [readUInt32LE, readUInt32LE, slice_slice h]

theorem frameLength_header (file : Bytes) (pos : Nat) : frameLength (slice file pos headerSize) =
      headerSize + readUInt16LE file (pos + 4) + readUInt32LE file (pos + 6) +
        readUInt32LE file (pos + 10) + crcSize := by
  rw [frameLength, readUInt16LE_header (by decide), readUInt32LE_header (by decide),
    readUInt32LE_header (by decide)]

theorem frame_frameRef (file : Bytes) (pos : Nat) : (frameRef file pos (slice file pos headerSize)).frame file =
      { type := readUInt8 file (pos + 2)
        key := slice file (pos + headerSize) (readUInt16LE file (pos + 4))
        value := slice file (pos + headerSize + readUInt16LE file (pos + 4)) (readUInt32LE file (pos + 6))
        metadata := optionalMeta (slice file
          (pos + headerSize + readUInt16LE file (pos + 4) + readUInt32LE file (pos + 6))
          (readUInt32LE file (pos + 10)))
        expireAt := .ofInt (readBigInt64LE file (pos + 14)) } := by
  have htype : readUInt8 (slice file pos headerSize) 2 = readUInt8 file (pos + 2) := by
    rw [readUInt8, readUInt8, slice_slice (by decide)]
  have hexpire : readBigInt64LE (slice file pos headerSize) 14 = readBigInt64LE file (pos + 14) := by
    rw [readBigInt64LE, readBigInt64LE, slice_slice (by decide)]
  simp only [frameRef, FrameRef.frame, htype, hexpire, readUInt16LE_header (show 4 + 2 ≤ headerSize by decide),
    readUInt32LE_header (show 6 + 4 ≤ headerSize by decide),
    readUInt32LE_header (show 10 + 4 ≤ headerSize by decide)]

theorem readFrameAt_eq (file : Bytes) (pos : Nat) :
    readFrameAt file pos = (readFrameRefAt file pos).map fun r => (r.frame file, r.frameLen) := by
  have hmagic : slice (slice file pos headerSize) 0 2 = slice file pos magic.length := slice_slice (by decide)
  have hkey : readUInt16LE (slice file pos headerSize) 4 = readUInt16LE file (pos + 4) :=
    readUInt16LE_header (by decide)
  rw [readFrameAt, readFrameRefAt]
  dsimp only
  rw [← frameLength_header, hmagic, hkey]
  generalize hlen : frameLength (slice file pos headerSize) = frameLen
  have hcrc := crcLoop_eq file (frameLen - crcSize - 2) (pos + 2) (frameLen - crcSize - 2) 0
    (le_refl _)
  have hstored : readUInt32LE (slice file (pos + frameLen - crcSize) crcSize) 0 =
      readUInt32LE file (pos + frameLen - crcSize) := by
    rw [readUInt32LE, slice_slice (by decide)]
    rfl
  rw [hcrc, hstored]
  by_cases hheader : file.length - pos < headerSize
  · rw [if_pos hheader, if_pos hheader]
    rfl
  · rw [if_neg hheader, if_neg hheader]
    by_cases hat : slice file pos magic.length = magic
    · rw [if_neg (not_not_intro hat), if_neg (not_not_intro hat)]
      by_cases hkeyLen : readUInt16LE file (pos + 4) > maxKeyLen
      · rw [if_pos hkeyLen, if_pos (.inl hkeyLen)]
        rfl
      · rw [if_neg hkeyLen]
        by_cases hoverflow : frameLen < headerSize + crcSize
        · rw [if_pos hoverflow, if_pos (.inr hoverflow)]
          rfl
        · rw [if_neg hoverflow, if_neg (not_or.mpr ⟨hkeyLen, hoverflow⟩)]
          by_cases hshort : file.length - pos < frameLen
          · rw [if_pos hshort, if_pos hshort]
            rfl
          · rw [if_neg hshort, if_neg hshort]
            by_cases hsum : readUInt32LE file (pos + frameLen - crcSize) =
                (crc32 (slice file (pos + 2) (frameLen - crcSize - 2)) 0).toNat
            · rw [if_neg (not_not_intro hsum), if_neg (not_not_intro hsum), Option.map_some,
                frame_frameRef, ← hlen]
              rfl
            · rw [if_pos hsum, if_pos hsum]
              rfl
    · rw [if_pos hat, if_pos hat]
      rfl

theorem isSome_readFrameAt : (readFrameAt file pos).isSome ↔ FrameAt file pos := by
  rw [readFrameAt_eq, Option.isSome_map, isSome_readFrameRefAt]

theorem indexOfMagicFrom_first (buf : Bytes) (scan : Nat) :
    FirstFrom (MagicAt buf) scan (indexOfMagicFrom buf scan) := by
  have hfirst := indexOfMagic_first (buf.drop scan)
  have hdrop : ∀ i, MagicAt (buf.drop scan) i ↔ MagicAt buf (scan + i) := by
    intro i
    rw [MagicAt, MagicAt, slice, slice, List.drop_drop]
  rw [indexOfMagicFrom]
  cases hi : indexOfMagic (buf.drop scan) with
  | none =>
    rw [hi] at hfirst
    intro j hj hat
    obtain ⟨d, rfl⟩ := Nat.exists_eq_add_of_le hj
    exact hfirst d (Nat.zero_le d) ((hdrop d).mpr hat)
  | some i =>
    rw [hi] at hfirst
    refine ⟨Nat.le_add_right _ _, (hdrop i).mp hfirst.2.1, ?_⟩
    intro j hj hj' hat
    obtain ⟨d, rfl⟩ := Nat.exists_eq_add_of_le hj
    exact hfirst.2.2 d (Nat.zero_le d) (Nat.lt_of_add_lt_add_left hj') ((hdrop d).mpr hat)

theorem parseResync_first (buf : Bytes) (fuel scan : Nat) (h : buf.length - scan ≤ fuel) :
    FirstFrom (FrameAt buf) scan (parseResync buf fuel scan) := by
  induction fuel generalizing scan with
  | zero =>
    intro j hj hat
    have := hat.lt
    omega
  | succ fuel ih =>
    rw [parseResync]
    split
    · have hfirst := indexOfMagicFrom_first buf scan
      cases hi : indexOfMagicFrom buf scan with
      | none =>
        rw [hi] at hfirst
        exact hfirst.none_of_imp fun _ => FrameAt.magic_at
      | some i =>
        rw [hi] at hfirst
        dsimp only
        by_cases hat : FrameAt buf i
        · rw [if_pos (isSome_readFrameAt.mpr hat)]
          exact hfirst.candidate (fun _ => FrameAt.magic_at) hat
        · rw [if_neg (mt isSome_readFrameAt.mp hat)]
          apply hfirst.reject (fun _ => FrameAt.magic_at) hat
          apply ih
          have := hfirst.1
          omega
    · intro j hj hat
      have := hat.magic_at.lt
      omega

theorem parseResync_eq (buf : Bytes) (pos : Nat) :
    parseResync buf buf.length (pos + 1) = resyncLoop buf buf.length (pos + 1) :=
  (parseResync_first buf _ _ (Nat.sub_le _ _)).unique (resyncLoop_first buf _ _ (Nat.sub_le _ _))

structure Agree (buf : Bytes) (p : ParseResult) (s : ScanFrameRefsResult) : Prop where
  frames : List.Forall₂ (fun f r => readFrameAt buf r.frameOff = some (f, r.frameLen)) p.frames s.frames
  values : p.frames = s.frames.map (FrameRef.frame buf)
  corruptRanges : p.corruptRanges = s.corruptRanges
  eofOffset : p.eofOffset = s.eofOffset

theorem frameOff_eq (h : readFrameRefAt file pos = some r) : r.frameOff = pos := by
  rw [(readFrameRefAt_eq_some.mp h).2]
  rfl

theorem parseLoop_agree (buf : Bytes) (onCorrupt : RecoveryMode) (fuel pos : Nat) :
    Agree buf (parseLoop buf onCorrupt fuel pos) (scanLoop buf onCorrupt fuel pos) := by
  induction fuel generalizing pos with
  | zero => exact ⟨.nil, rfl, rfl, rfl⟩
  | succ fuel ih =>
    rw [parseLoop.eq_def, scanLoop.eq_def]
    dsimp only
    by_cases hpos : pos < buf.length
    · rw [if_pos hpos, if_pos hpos]
      cases hr : readFrameRefAt buf pos with
      | some r =>
        have hframe : readFrameAt buf pos = some (r.frame buf, r.frameLen) := by
          rw [readFrameAt_eq, hr]
          rfl
        obtain ⟨hframes, hvalues, hranges, heof⟩ := ih (pos + r.frameLen)
        rw [hframe]
        constructor
        · apply List.Forall₂.cons _ hframes
          rw [frameOff_eq hr]
          exact hframe
        · exact congrArg _ hvalues
        · exact hranges
        · exact heof
      | none =>
        have hframe : readFrameAt buf pos = none := by
          rw [readFrameAt_eq, hr]
          rfl
        rw [hframe]
        cases onCorrupt with
        | strict => exact ⟨.nil, rfl, rfl, rfl⟩
        | resync =>
          rw [parseResync_eq]
          cases resyncLoop buf buf.length (pos + 1) with
          | none => exact ⟨.nil, rfl, rfl, rfl⟩
          | some resume =>
            obtain ⟨hframes, hvalues, hranges, heof⟩ := ih resume
            exact ⟨hframes, hvalues, congrArg _ hranges, heof⟩
    · rw [if_neg hpos, if_neg hpos]
      exact ⟨.nil, rfl, rfl, rfl⟩

/-- Parsing bytes in memory and scanning them from a file agree, in either mode. -/
theorem parseBuffer_agree (buf : Bytes) (onCorrupt : RecoveryMode) :
    Agree buf (parseBuffer buf onCorrupt) (scanFrameRefsFd buf onCorrupt 0) := by
  exact parseLoop_agree buf onCorrupt buf.length 0

end Echadron.MiniDb
