import Echadron.MiniDb.ParseBuffer
import Echadron.MiniDb.Replay

namespace Echadron.MiniDb
open Lib Lib.Bytes List Option

/-! The decoder of batch bodies, and the parser that is fed a stream. -/

def decodeBatchLoop (body : Bytes) : (count o : Nat) → Except String (List BatchOp)
  | 0, _ => .ok []
  | count + 1, o => do
    if o + subHeader > body.length then .error "batch op header truncated"
    else
      let keyLen := readUInt16LE body (o + 1)
      let valLen := readUInt32LE body (o + 3)
      let metaLen := readUInt32LE body (o + 7)
      let keyStart := o + subHeader
      if keyStart + keyLen + valLen + metaLen > body.length then .error "batch op payload truncated"
      else
        let ops ← decodeBatchLoop body count (keyStart + keyLen + valLen + metaLen)
        return {
          type := readUInt8 body o
          key := slice body keyStart keyLen
          value := some (slice body (keyStart + keyLen) valLen)
          metadata := optionalMeta (slice body (keyStart + keyLen + valLen) metaLen)
          expireAt := .ofInt (readBigInt64LE body (o + 11)) } :: ops

def decodeBatchOps (body : Bytes) : Except String (List BatchOp) :=
  if body.length < 2 then .ok [] else decodeBatchLoop body (readUInt16LE body 0) 2

structure CorruptFrameError where
  message : String
  offset : Nat
deriving DecidableEq

structure FrameParser where
  pending : Bytes := []
  offset : Nat := 0
deriving DecidableEq

/-- The loop of `feed` over its buffer: the frames that it yields, and how it ends. -/
def feedLoop (buf : Bytes) : (offset fuel pos : Nat) → List Frame × Except CorruptFrameError FrameParser
  | offset, 0, pos => ([], .ok { pending := buf.drop pos, offset := offset })
  | offset, fuel + 1, pos =>
    if buf.length - pos < headerSize then ([], .ok { pending := buf.drop pos, offset := offset })
    else if slice buf pos magic.length ≠ magic then
      match indexOfMagicFrom buf (pos + 1) with
      | none => ([], .error ⟨"magic not found", offset + pos⟩)
      | some next => feedLoop buf offset fuel next
    else
      let keyLen := readUInt16LE buf (pos + 4)
      let valLen := readUInt32LE buf (pos + 6)
      let metaLen := readUInt32LE buf (pos + 10)
      let frameLen := headerSize + keyLen + valLen + metaLen + crcSize
      if buf.length - pos < frameLen then ([], .ok { pending := buf.drop pos, offset := offset })
      else if readUInt32LE buf (pos + frameLen - crcSize) ≠
          (crc32 (slice buf (pos + 2) (frameLen - crcSize - 2)) 0).toNat then
        ([], .error ⟨"crc mismatch at offset " ++ toString (offset + pos), offset + pos⟩)
      else
        let keyStart := pos + headerSize
        let frame : Frame :=
          { type := readUInt8 buf (pos + 2)
            key := slice buf keyStart keyLen
            value := slice buf (keyStart + keyLen) valLen
            metadata := optionalMeta (slice buf (keyStart + keyLen + valLen) metaLen)
            expireAt := .ofInt (readBigInt64LE buf (pos + 14)) }
        let (frames, result) := feedLoop buf (offset + frameLen) fuel (pos + frameLen)
        (frame :: frames, result)

namespace FrameParser

/-- The position grows in each round, so that the rounds are fewer than the bytes. -/
def feed (p : FrameParser) (chunk : Bytes) : List Frame × Except CorruptFrameError FrameParser :=
  feedLoop (p.pending ++ chunk) p.offset ((p.pending ++ chunk).length + 1) 0

def feedAll (p : FrameParser) : List Bytes → List Frame × Except CorruptFrameError FrameParser
  | [] => ([], .ok p)
  | chunk :: chunks =>
    match p.feed chunk with
    | (frames, .error e) => (frames, .error e)
    | (frames, .ok p) =>
      let (more, result) := p.feedAll chunks
      (frames ++ more, result)

def finish (p : FrameParser) : Except CorruptFrameError Nat :=
  if p.pending.length > 0 then
    .error ⟨"torn tail: " ++ toString p.pending.length ++ " trailing byte(s)", p.offset⟩
  else .ok p.offset

end FrameParser

/-- A frame as it is read back: an absent value is empty, and an empty `meta` absent. -/
def BatchOp.frame (op : BatchOp) : Frame :=
  { type := op.type
    key := op.key
    value := op.val
    metadata := optionalMeta op.met
    expireAt := op.expireAt }

/-- An operation of a batch as it is read back. -/
def BatchOp.stored (op : BatchOp) : BatchOp :=
  { op with
    value := some op.val
    metadata := optionalMeta op.met }

/-- The operation at a position, its value read from the file. -/
def BatchOpRef.load (file : Bytes) (r : BatchOpRef) : BatchOp :=
  { type := r.type
    key := r.key
    value := some (slice file r.valueOff r.valLen)
    metadata := r.metadata
    expireAt := r.expireAt }

/-! Both decoders of a body read the same operations. -/

theorem map_bind_ok : (x >>= fun xs => Except.ok (a :: xs)).map (List.map f) =
      x.map (map f) >>= fun ys => Except.ok (f a :: ys) := by
  cases x <;> rfl

theorem decodeBatchLoop_eq (pre body post : Bytes) (count o : Nat) :
    decodeBatchLoop body count o = (scanBatchLoop body pre.length count o).map
      (map (BatchOpRef.load (pre ++ body ++ post))) := by
  induction count generalizing o with
  | zero => rfl
  | succ count ih =>
    rw [decodeBatchLoop, scanBatchLoop]
    by_cases hheader : o + subHeader > body.length
    · rw [if_pos hheader, if_pos hheader]
      rfl
    · rw [if_neg hheader, if_neg hheader]
      by_cases hpayload : o + subHeader + readUInt16LE body (o + 1) + readUInt32LE body (o + 3) +
          readUInt32LE body (o + 7) > body.length
      · rw [if_pos hpayload, if_pos hpayload]
        rfl
      · rw [if_neg hpayload, if_neg hpayload, ih]
        refine Eq.trans ?_ map_bind_ok.symm
        have hvalue : slice (pre ++ body ++ post)
            (pre.length + (o + subHeader + readUInt16LE body (o + 1))) (readUInt32LE body (o + 3)) =
            slice body (o + subHeader + readUInt16LE body (o + 1)) (readUInt32LE body (o + 3)) := by
          rw [append_assoc]
          apply slice_within
          omega
        rw [BatchOpRef.load, hvalue]
        rfl

/-- The decoder gives what the scan finds, with the bytes at the positions. They fail alike. -/
theorem decodeBatchOps_eq (pre body post : Bytes) : decodeBatchOps body = (scanBatchOpRefs body pre.length).map
      (map (BatchOpRef.load (pre ++ body ++ post))) := by
  rw [decodeBatchOps, scanBatchOpRefs]
  split
  · rfl
  · exact decodeBatchLoop_eq pre body post _ _

theorem load_located (h : Located file op r) : r.load file = op.stored := by
  rw [BatchOpRef.load, BatchOp.stored, h.type_eq, h.key_eq, h.value_eq, h.metadata_eq, h.expireAt_eq]

theorem loads_located
    (h : List.Forall₂ (Located file) ops rs) :
    rs.map (BatchOpRef.load file) = ops.map BatchOp.stored := by
  induction h with
  | nil => rfl
  | cons hop _ ih => rw [map_cons, map_cons, load_located hop, ih]

theorem decodeBatchOps_encode (h : encodeBatchOps ops = .ok body) :
    decodeBatchOps body = .ok (ops.map BatchOp.stored) := by
  obtain ⟨hcount, hops, hbytes⟩ := encodeBatchOps_ok h
  have hread : readUInt16LE body 0 = ops.length := by
    rw [hbytes]
    exact toNatLE_ofNatLE_of_lt hcount
  have hlength : ¬ body.length < 2 := by
    rw [hbytes, length_append, length_ofNatLE]
    omega
  obtain ⟨fs, hfs, hall⟩ := scanBatchLoop_bodies body 0 _ body _ hops hbytes (slice_all body)
  rw [length_ofNatLE, ← hread] at hfs
  have hdecode := decodeBatchLoop_eq [] body [] (readUInt16LE body 0) 2
  rw [append_nil] at hdecode
  rw [decodeBatchOps, if_neg hlength, hdecode]
  show (scanBatchLoop body 0 _ 2).map _ = _
  rw [hfs, ← loads_located hall]
  rfl

variable {op : BatchOp}

theorem frame_writtenRef (pre post : Bytes) (op : BatchOp) :
    (writtenRef pre.length op).frame (pre ++ frameOf op ++ post) = op.frame := by
  exact congrArg (fun value => ({ op.frame with value := value } : Frame)) (slice_val pre post op)

theorem readFrameAt_frameOf (h : Encodable op) (pre post : Bytes) :
    readFrameAt (pre ++ frameOf op ++ post) pre.length = some (op.frame, (frameOf op).length) := by
  rw [readFrameAt_eq, readFrameRefAt_frameOf h, map_some, frame_writtenRef]
  rfl

theorem feedLoop_found (h : readFrameAt buf pos = some (frame, frameLen)) (offset fuel : Nat) :
    feedLoop buf offset (fuel + 1) pos = (frame :: (feedLoop buf (offset + frameLen) fuel (pos + frameLen)).1,
        (feedLoop buf (offset + frameLen) fuel (pos + frameLen)).2) := by
  rw [readFrameAt] at h
  rw [feedLoop]
  split at h
  · cases h
  · rename_i hheader
    split at h
    · cases h
    · rename_i hmagic
      dsimp only at h
      split at h
      · cases h
      · split at h
        · cases h
        · split at h
          · cases h
          · rename_i hlength
            split at h
            · cases h
            · rename_i hcrc
              obtain ⟨rfl, rfl⟩ := Prod.mk.inj (some.inj h)
              rw [if_neg hheader, if_neg hmagic]
              rw [if_neg hlength, if_neg hcrc]

theorem feedLoop_torn (h : Encodable op) (pre : Bytes) (htorn : torn <+: frameOf op)
    (hshort : torn.length < (frameOf op).length) (offset fuel : Nat) :
    feedLoop (pre ++ torn) offset (fuel + 1) pre.length = ([], .ok { pending := torn, offset := offset }) := by
  have hdrop : (pre ++ torn).drop pre.length = torn := drop_left
  rw [feedLoop]
  by_cases hheader : (pre ++ torn).length - pre.length < headerSize
  · rw [if_pos hheader, hdrop]
  · rw [if_neg hheader]
    rw [length_append] at hheader
    obtain ⟨rest, hrest⟩ := htorn
    have hslice : slice (pre ++ torn) pre.length headerSize = frameHeader op := by
      rw [← slice_frameHeader pre [] op, ← hrest, append_nil, ← append_assoc,
        slice_append_left (a := pre ++ torn)]
      rw [length_append]
      omega
    have hmagic : slice (pre ++ torn) pre.length magic.length = magic := by
      have hinner : slice (slice (pre ++ torn) pre.length headerSize) 0 magic.length =
          slice (pre ++ torn) pre.length magic.length := slice_slice (by decide)
      rw [← hinner, hslice]
      rfl
    have hlen := frameLength_header (pre ++ torn) pre.length
    rw [hslice, frameLength_frameHeader h] at hlen
    rw [if_neg (not_not_intro hmagic)]
    rw [if_pos, hdrop]
    rw [length_append]
    omega

def streamOf (ops : List BatchOp) : Bytes := (ops.map frameOf).flatten

theorem streamOf_cons (op : BatchOp) (ops : List BatchOp) :
    streamOf (op :: ops) = frameOf op ++ streamOf ops := rfl

theorem streamOf_append (ops ops' : List BatchOp) : streamOf (ops ++ ops') = streamOf ops ++ streamOf ops' := by
  rw [streamOf, map_append, flatten_append]
  rfl

/-- What is there of the frame that comes next. -/
def Torn (rest : List BatchOp) (torn : Bytes) : Prop :=
  torn = [] ∨ ∃ op ∈ rest.head?, torn <+: frameOf op ∧ torn.length < (frameOf op).length

theorem length_frameOf_pos (op : BatchOp) : 0 < (frameOf op).length := by
  rw [length_frameOf, headerSize]
  omega

theorem feedLoop_frames (ops rest : List BatchOp) (hops : ∀ op ∈ ops ++ rest, Encodable op)
    (pre torn : Bytes) (htorn : Torn rest torn) (offset fuel : Nat) (hfuel : ops.length < fuel) :
    feedLoop (pre ++ (streamOf ops ++ torn)) offset fuel pre.length =
      (ops.map BatchOp.frame, .ok { pending := torn, offset := offset + (streamOf ops).length }) := by
  induction ops generalizing pre offset fuel with
  | nil =>
    obtain ⟨fuel, rfl⟩ := Nat.exists_eq_succ_of_ne_zero (Nat.ne_zero_of_lt hfuel)
    show feedLoop (pre ++ torn) offset (fuel + 1) pre.length = ([], .ok { pending := torn, offset := offset })
    rcases htorn with rfl | ⟨op, hop, hprefix, hshort⟩
    · rw [feedLoop, if_pos, drop_left]
      rw [append_nil, Nat.sub_self]
      decide
    · obtain ⟨rest', rfl⟩ := head?_eq_some_iff.mp hop
      exact feedLoop_torn (hops op (mem_cons_self ..)) pre hprefix hshort offset fuel
  | cons op ops ih =>
    obtain ⟨fuel, rfl⟩ := Nat.exists_eq_succ_of_ne_zero (Nat.ne_zero_of_lt hfuel)
    obtain ⟨hop, hrest⟩ := forall_mem_cons.mp hops
    have hbuf : pre ++ (streamOf (op :: ops) ++ torn) = pre ++ frameOf op ++ (streamOf ops ++ torn) := by
      simp only [streamOf_cons, append_assoc]
    have hnext := ih hrest (pre ++ frameOf op) (offset + (frameOf op).length) fuel
      (Nat.lt_of_succ_lt_succ hfuel)
    rw [length_append] at hnext
    rw [hbuf, feedLoop_found (readFrameAt_frameOf hop pre _), hnext, streamOf_cons, length_append, add_assoc]
    rfl

theorem length_le_streamOf (ops : List BatchOp) : ops.length ≤ (streamOf ops).length := by
  induction ops with
  | nil => exact le_refl _
  | cons op ops ih =>
    have hpos := length_frameOf_pos op
    rw [streamOf_cons, length_append, length_cons]
    omega

theorem split_prefix (ops : List BatchOp) (bytes : Bytes) (h : bytes <+: streamOf ops) :
    ∃ done rest torn, ops = done ++ rest ∧ bytes = streamOf done ++ torn ∧ Torn rest torn := by
  induction ops generalizing bytes with
  | nil => exact ⟨[], [], bytes, rfl, rfl, .inl (prefix_nil.mp h)⟩
  | cons op ops ih =>
    by_cases hshort : bytes.length < (frameOf op).length
    · have hprefix := prefix_of_prefix_length_le h (prefix_append ..) (le_of_lt hshort)
      exact ⟨[], op :: ops, bytes, rfl, rfl, .inr ⟨op, rfl, hprefix, hshort⟩⟩
    · obtain ⟨more, rfl⟩ := prefix_of_prefix_length_le (prefix_append ..) h (Nat.le_of_not_lt hshort)
      obtain ⟨done, rest, torn, rfl, rfl, htorn⟩ := ih more ((prefix_append_right_inj _).mp h)
      refine ⟨op :: done, rest, torn, rfl, ?_, htorn⟩
      rw [streamOf_cons, append_assoc]

theorem feedAll_prefix (ops : List BatchOp) (hops : ∀ op ∈ ops, Encodable op) (chunks : List Bytes)
    (p : FrameParser) (h : p.pending ++ chunks.flatten <+: streamOf ops) (hpending : Torn ops p.pending) :
    ∃ done rest torn, ops = done ++ rest ∧ p.pending ++ chunks.flatten = streamOf done ++ torn ∧
      Torn rest torn ∧ p.feedAll chunks = (done.map BatchOp.frame,
        .ok { pending := torn, offset := p.offset + (streamOf done).length }) := by
  induction chunks generalizing ops p with
  | nil => exact ⟨[], ops, p.pending, rfl, append_nil _, hpending, rfl⟩
  | cons chunk chunks ih =>
    rw [flatten_cons, ← append_assoc] at h ⊢
    obtain ⟨done, rest, torn, rfl, hsplit, htorn⟩ :=
      split_prefix ops (p.pending ++ chunk) ((prefix_append ..).trans h)
    rw [hsplit, streamOf_append, append_assoc, prefix_append_right_inj] at h
    have hfuel : done.length < (p.pending ++ chunk).length + 1 := by
      have hle := length_le_streamOf done
      rw [hsplit, length_append]
      omega
    have hfeed := feedLoop_frames done rest hops [] torn htorn p.offset _ hfuel
    rw [nil_append, length_nil, ← hsplit] at hfeed
    obtain ⟨done', rest', torn', rfl, hsplit', htorn', hall⟩ := ih rest
      (fun op hop => hops op (mem_append_right _ hop))
      { pending := torn, offset := p.offset + (streamOf done).length } h htorn
    refine ⟨done ++ done', rest', torn', (append_assoc ..).symm, ?_, htorn', ?_⟩
    · rw [hsplit, append_assoc, hsplit', streamOf_append, append_assoc]
    · rw [FrameParser.feedAll, FrameParser.feed, hfeed]
      dsimp only
      rw [hall, map_append, streamOf_append, length_append, add_assoc]

theorem parseLoop_stream (ops : List BatchOp) (hops : ∀ op ∈ ops, Encodable op) (pre : Bytes)
    (onCorrupt : RecoveryMode) (fuel : Nat) (hfuel : ops.length ≤ fuel) :
    parseLoop (pre ++ streamOf ops) onCorrupt fuel pre.length =
      ⟨ops.map BatchOp.frame, [], (pre ++ streamOf ops).length⟩ := by
  induction ops generalizing pre fuel with
  | nil =>
    have hend : pre ++ streamOf [] = pre := append_nil _
    rw [hend]
    cases fuel with
    | zero => rfl
    | succ fuel =>
      rw [parseLoop.eq_def]
      dsimp only
      rw [if_neg (lt_irrefl _)]
      rfl
  | cons op ops ih =>
    obtain ⟨fuel, rfl⟩ := Nat.exists_eq_succ_of_ne_zero (Nat.ne_zero_of_lt hfuel)
    obtain ⟨hop, hrest⟩ := forall_mem_cons.mp hops
    have hlt : pre.length < (pre ++ streamOf (op :: ops)).length := by
      have hpos := length_frameOf_pos op
      rw [streamOf_cons, length_append, length_append]
      omega
    have hnext := ih hrest (pre ++ frameOf op) fuel (Nat.le_of_succ_le_succ hfuel)
    have hfound := readFrameAt_frameOf hop pre (streamOf ops)
    rw [length_append] at hnext
    rw [parseLoop.eq_def]
    dsimp only
    rw [if_pos hlt, streamOf_cons, ← append_assoc, hfound]
    dsimp only
    rw [hnext]
    rfl

theorem encodeFrames_ok (h : ops.mapM encodeFrame = .ok frames) :
    frames.flatten = streamOf ops ∧ ∀ op ∈ ops, Encodable op := by
  have hall := forall₂_of_mapM h
  clear h
  induction hall with
  | nil => exact ⟨rfl, nofun⟩
  | cons hop _ ih =>
    obtain ⟨hencodable, rfl⟩ := encodeFrame_ok hop
    obtain ⟨hrest, hops⟩ := ih
    rw [flatten_cons, hrest]
    exact ⟨rfl, forall_mem_cons.mpr ⟨hencodable, hops⟩⟩

/-- What the parser yields of a stream, and where it ends. -/
def parsed (chunks : List Bytes) : List Frame × Except CorruptFrameError Nat :=
  let (frames, result) := FrameParser.feedAll {} chunks
  (frames, result >>= FrameParser.finish)

theorem parsed_stream (ops : List BatchOp) (hops : ∀ op ∈ ops, Encodable op) (chunks : List Bytes)
    (h : chunks.flatten = streamOf ops) :
    parsed chunks = (ops.map BatchOp.frame, .ok (streamOf ops).length) := by
  obtain ⟨done, rest, torn, rfl, hsplit, htorn, hall⟩ :=
    feedAll_prefix ops hops chunks {} ⟨[], by rw [append_nil]; exact h⟩ (.inl rfl)
  rw [nil_append, h, streamOf_append, append_cancel_left_eq] at hsplit
  -- a torn frame is shorter than the frames that are left
  have hrest : rest = [] := by
    cases rest with
    | nil => rfl
    | cons op rest =>
      have hpos := length_frameOf_pos op
      have hlength := congrArg length hsplit
      rw [streamOf_cons, length_append] at hlength
      rcases htorn with rfl | ⟨op', hop', _, hshort⟩
      · rw [length_nil] at hlength
        omega
      · cases hop'
        omega
  subst hrest
  obtain rfl : torn = [] := hsplit.symm
  rw [parsed, hall, append_nil, zero_add]
  rfl

/-- Frames that were encoded are read back, by the parser of a whole buffer and, however the bytes
are cut, by the one that is fed; a batch body is decoded to its operations; and of any body the
decoder makes what the scan finds, with the bytes at its positions. -/
theorem codec_roundTrip : (∀ (ops : List BatchOp) (frames : List Bytes), ops.mapM encodeFrame = .ok frames →
      (∀ onCorrupt, parseBuffer frames.flatten onCorrupt = ⟨ops.map BatchOp.frame, [], frames.flatten.length⟩) ∧
      ∀ chunks : List Bytes, chunks.flatten = frames.flatten →
        parsed chunks = (ops.map BatchOp.frame, .ok frames.flatten.length)) ∧
    (∀ (ops : List BatchOp) (body : Bytes), encodeBatchOps ops = .ok body →
      decodeBatchOps body = .ok (ops.map BatchOp.stored)) ∧
    ∀ pre body post : Bytes, decodeBatchOps body = (scanBatchOpRefs body pre.length).map
      (map (BatchOpRef.load (pre ++ body ++ post))) := by
  refine ⟨?_, fun ops body => decodeBatchOps_encode, decodeBatchOps_eq⟩
  intro ops frames h
  obtain ⟨hstream, hops⟩ := encodeFrames_ok h
  rw [hstream]
  constructor
  · intro onCorrupt
    have hparse := parseLoop_stream ops hops [] onCorrupt (streamOf ops).length (length_le_streamOf ops)
    exact hparse
  · exact parsed_stream ops hops

def setAndDelete : List BatchOp :=
  [{ type := typeSet, key := [107], value := some [1, 2], expireAt := 5 }, { type := typeDel, key := [107] }]

theorem codec_roundTrip_setAndDelete : ∃ frames, setAndDelete.mapM encodeFrame = .ok frames ∧
      parsed (frames.flatten.map fun b => [b]) = (setAndDelete.map BatchOp.frame, .ok 56) := by
  have hencode : (setAndDelete.mapM encodeFrame).toOption.map (fun fs => fs.flatten.length) = some 56 := by
    decide +kernel
  obtain ⟨frames, hframes, hlength⟩ := map_eq_some_iff.mp hencode
  have hok : setAndDelete.mapM encodeFrame = .ok frames := by
    cases h : setAndDelete.mapM encodeFrame with
    | error e =>
      rw [h] at hframes
      cases hframes
    | ok fs =>
      rw [h] at hframes
      exact congrArg _ (some.inj hframes)
  have hparsed := ((codec_roundTrip.1 _ _ hok).2 (frames.flatten.map fun b => [b]) (by
    rw [← flatMap_def, flatMap_singleton']))
  rw [hlength] at hparsed
  exact ⟨frames, hok, hparsed⟩

end Echadron.MiniDb
