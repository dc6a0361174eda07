import Echadron.MiniDb.Recovery

namespace Echadron.MiniDb
open Lib Lib.Bytes List

/-! A frame that the encoder wrote, as the scan reads it. -/

section

variable (op : BatchOp)

def frameHeader : Bytes :=
  magic ++ [op.type, 0] ++ ofNatLE 2 op.key.length ++ ofNatLE 4 op.val.length ++
    ofNatLE 4 op.met.length ++ ofIntLE 8 op.expireAt.toInt

def frameSum : Bytes := ofNatLE 4 (crc32 (frameBody op) 0).toNat

def frameOf : Bytes := magic ++ frameBody op ++ frameSum op

theorem frameOf_eq : frameOf op = frameHeader op ++ (op.key ++ op.val ++ op.met) ++ frameSum op := by
  simp only [frameOf, frameBody, frameHeader, append_assoc]

theorem length_frameHeader : (frameHeader op).length = headerSize := by
  simp only [frameHeader, magic, headerSize, length_append, length_cons, length_nil,
    length_ofNatLE, length_ofIntLE]

theorem length_frameSum : (frameSum op).length = crcSize := length_ofNatLE _ _

theorem length_frameBody : (frameBody op).length + 2 + crcSize = (frameOf op).length := by
  rw [frameOf, length_append, length_append, length_frameSum]
  simp only [magic, length_cons, length_nil]
  omega

theorem length_frameOf : (frameOf op).length =
    headerSize + op.key.length + op.val.length + op.met.length + crcSize := by
  rw [frameOf_eq, length_append, length_append, length_frameHeader, length_frameSum, length_append, length_append]
  omega

end

section Header

variable {op : BatchOp} (h : Encodable op)
include h

theorem readKeyLen : readUInt16LE (frameHeader op) 4 = op.key.length := toNatLE_ofNatLE_of_lt h.key_lt

theorem readValLen : readUInt32LE (frameHeader op) 6 = op.val.length := toNatLE_ofNatLE_of_lt h.val_lt

theorem readMetaLen : readUInt32LE (frameHeader op) 10 = op.met.length := toNatLE_ofNatLE_of_lt h.met_lt

theorem readExpireAt : readBigInt64LE (frameHeader op) 14 = op.expireAt.toInt := h.expireAt_eq

theorem frameLength_frameHeader : frameLength (frameHeader op) = (frameOf op).length := by
  rw [frameLength, readKeyLen h, readValLen h, readMetaLen h, length_frameOf]

end Header

section

variable {op : BatchOp} {pre post torn : Bytes}

theorem slice_frameHeader (pre post : Bytes) (op : BatchOp) :
    slice (pre ++ frameOf op ++ post) pre.length headerSize = frameHeader op := by
  apply slice_eq pre (op.key ++ op.val ++ op.met ++ frameSum op ++ post) _ rfl
  · exact (length_frameHeader op).symm
  · simp only [frameOf_eq, append_assoc]

theorem frameAt_frameOf (h : Encodable op) (pre post : Bytes) : FrameAt (pre ++ frameOf op ++ post) pre.length := by
  have hlength := length_frameOf op
  have hbody := length_frameBody op
  constructor
  · rw [length_append, length_append]
    omega
  · apply slice_eq pre (frameBody op ++ frameSum op ++ post) _ rfl rfl
    simp only [frameOf, append_assoc]
  · rw [slice_frameHeader, frameLength_frameHeader h, length_append, length_append]
    omega
  · rw [slice_frameHeader, frameLength_frameHeader h]
    have hsum : slice (pre ++ frameOf op ++ post) (pre.length + (frameOf op).length - crcSize) crcSize =
        frameSum op := by
      apply slice_eq (pre ++ (magic ++ frameBody op)) post
      · simp only [frameOf, append_assoc]
      · simp only [frameOf, length_append, length_frameSum]
        omega
      · exact (length_frameSum op).symm
    have hbytes : slice (pre ++ frameOf op ++ post) (pre.length + 2)
        ((frameOf op).length - crcSize - 2) = frameBody op := by
      apply slice_eq (pre ++ magic) (frameSum op ++ post)
      · simp only [frameOf, append_assoc]
      · rw [length_append]
        rfl
      · omega
    rw [hsum, hbytes]
    exact @toNatLE_ofNatLE_of_lt _ 4 (crc32 (frameBody op) 0).toNat_lt

theorem slice_val (pre post : Bytes) (op : BatchOp) :
    slice (pre ++ frameOf op ++ post) (pre.length + headerSize + op.key.length) op.val.length = op.val := by
  apply slice_eq (pre ++ frameHeader op ++ op.key) (op.met ++ frameSum op ++ post) _ _ rfl
  · simp only [frameOf_eq, append_assoc]
  · rw [length_append, length_append, length_frameHeader]

def writtenRef (pos : Nat) (op : BatchOp) : FrameRef :=
  { type := op.type
    key := op.key
    metadata := optionalMeta op.met
    expireAt := op.expireAt
    frameOff := pos
    valueOff := pos + headerSize + op.key.length
    valLen := op.val.length
    frameLen := (frameOf op).length }

theorem frameRef_frameOf (h : Encodable op) (pre post : Bytes) :
    frameRef (pre ++ frameOf op ++ post) pre.length (frameHeader op) = writtenRef pre.length op := by
  have hkey : slice (pre ++ frameOf op ++ post) (pre.length + headerSize) op.key.length = op.key := by
    apply slice_eq (pre ++ frameHeader op) (op.val ++ op.met ++ frameSum op ++ post) _ _ rfl
    · simp only [frameOf_eq, append_assoc]
    · rw [length_append, length_frameHeader]
  have hmeta : slice (pre ++ frameOf op ++ post)
      (pre.length + headerSize + op.key.length + op.val.length) op.met.length = op.met := by
    apply slice_eq (pre ++ frameHeader op ++ op.key ++ op.val) (frameSum op ++ post) _ _ rfl
    · simp only [frameOf_eq, append_assoc]
    · simp only [length_append, length_frameHeader]
  rw [frameRef, readKeyLen h, readValLen h, readMetaLen h, readExpireAt h, frameLength_frameHeader h,
    JsInteger.ofInt_toInt, hkey, hmeta]
  rfl

theorem readFrameRefAt_frameOf (h : Encodable op) (pre post : Bytes) :
    readFrameRefAt (pre ++ frameOf op ++ post) pre.length = some (writtenRef pre.length op) := by
  apply readFrameRefAt_eq_some.mpr
  constructor
  · exact frameAt_frameOf h pre post
  · rw [slice_frameHeader, frameRef_frameOf h]

theorem not_frameAt_torn (h : Encodable op) (pre : Bytes) (htorn : torn <+: frameOf op)
    (hshort : torn.length < (frameOf op).length) : ¬ FrameAt (pre ++ torn) pre.length := by
  intro hat
  obtain ⟨rest, hrest⟩ := htorn
  have hheader := hat.header_le
  have hle := hat.frame_le
  rw [length_append] at hheader hle
  have hslice : slice (pre ++ torn) pre.length headerSize = frameHeader op := by
    rw [← slice_frameHeader pre [] op, ← hrest, append_nil, ← append_assoc, slice_append_left (a := pre ++ torn)]
    rw [length_append]
    exact hheader
  rw [hslice, frameLength_frameHeader h] at hle
  omega

end

/-- An operation, ready to be written and applied. -/
inductive PreparedOp (Dt : Type) where
  | set (key value : Bytes) (expireAt : JsInteger) (dt : Option Dt)
  | del (key : Bytes)
deriving DecidableEq

/-- What one frame of the log records. -/
inductive WalWrite (Dt : Type) where
  | single (op : PreparedOp Dt)
  | batch (ops : List (PreparedOp Dt))
deriving DecidableEq

variable {Dt : Type}

namespace PreparedOp

def key : PreparedOp Dt → Bytes
  | set key .. => key
  | del key => key

def toBatchOp (codec : MetaCodec Dt) : PreparedOp Dt → BatchOp
  | set key value expireAt dt =>
    { type := typeSet
      key := key
      value := some value
      metadata := dt.map codec.stringify
      expireAt := expireAt }
  | del key => { type := typeDel, key := key }

/-- What is left of an operation at `now`: an expired set only deletes. -/
def replayed (now : JsInteger) : PreparedOp Dt → PreparedOp Dt
  | set key value expireAt dt => if isExpiredAt expireAt now then del key else set key value expireAt dt
  | del key => del key

end PreparedOp

namespace WalWrite

def ops : WalWrite Dt → List (PreparedOp Dt)
  | single op => [op]
  | batch ops => ops

def encode (codec : MetaCodec Dt) : WalWrite Dt → Except String Bytes
  | single op => encodeFrame (op.toBatchOp codec)
  | batch ops => do
    let body ← encodeBatchOps (ops.map (PreparedOp.toBatchOp codec))
    encodeFrame { type := typeBatch, key := [], value := some body }

end WalWrite

def ValueRef.read (fd : Bytes) : ValueRef → Bytes
  | memory value => value
  | disk loc => slice fd loc.off loc.len

def RecoveredOp.read (fd : Bytes) : RecoveredOp Dt → PreparedOp Dt
  | set key ref expireAt dt => .set key (ref.read fd) expireAt dt
  | del key => .del key

theorem optionalMeta_stringify (codec : MetaCodec Dt) (dt : Option Dt) :
    optionalMeta ((dt.map codec.stringify).getD []) = dt.map codec.stringify := by
  cases dt with
  | none => rfl
  | some dt =>
    have hne : (codec.stringify dt).length ≠ 0 := by
      rw [Ne, length_eq_zero_iff]
      exact codec.stringify_ne_nil dt
    exact if_neg hne

/-- A position at which a written operation can be read. -/
structure Located (fd : Bytes) (op : BatchOp) (f : BatchOpRef) : Prop where
  type_eq : f.type = op.type
  key_eq : f.key = op.key
  metadata_eq : f.metadata = optionalMeta op.met
  expireAt_eq : f.expireAt = op.expireAt
  valLen_eq : f.valLen = op.val.length
  value_eq : slice fd f.valueOff f.valLen = op.val

theorem Located.readAtSync (h : Located fd op f) : readAtSync fd f.valueOff f.valLen = .ok op.val := by
  have hlength := congrArg length h.value_eq
  rw [slice, length_take, length_drop, ← h.valLen_eq] at hlength
  unfold MiniDb.readAtSync
  by_cases hz : f.valLen = 0
  · rw [if_pos hz]
    rw [h.valLen_eq, length_eq_zero_iff] at hz
    rw [hz]
  · rw [if_neg hz, if_pos (by omega), h.value_eq]

section

variable (opts : RecoveryOptions Dt) (file : StoreFile) {fd : Bytes}

theorem opRefToOps_located (op : PreparedOp Dt) (h : Located fd (op.toBatchOp opts.codec) f) :
    ∃ r, opRefToOps opts file fd f = .ok [r] ∧ r.read fd = op.replayed opts.now := by
  unfold opRefToOps
  cases op with
  | del key =>
    rw [h.type_eq, h.key_eq]
    exact ⟨.del key, rfl, rfl⟩
  | set key value expireAt dt =>
    have htype : f.type = typeSet := h.type_eq
    have hexpire : f.expireAt = expireAt := h.expireAt_eq
    have hkey : f.key = key := h.key_eq
    have hmeta : parseMeta opts f.metadata = .ok dt := by
      rw [h.metadata_eq]
      show parseMeta opts (optionalMeta ((dt.map opts.codec.stringify).getD [])) = _
      rw [optionalMeta_stringify]
      cases dt with
      | none => rfl
      | some dt => exact opts.codec.parse_stringify dt
    have hvalue : ∃ ref, valueRef opts file fd f.valueOff f.valLen = .ok ref ∧ ref.read fd = value := by
      unfold valueRef
      cases opts.valueMode with
      | disk => exact ⟨_, rfl, h.value_eq⟩
      | memory =>
        refine ⟨.memory value, ?_, rfl⟩
        rw [h.readAtSync]
        rfl
    obtain ⟨ref, href, hread⟩ := hvalue
    rw [if_pos htype, setRefToOps, hexpire, hkey, hmeta, href, PreparedOp.replayed]
    by_cases hexpired : isExpiredAt expireAt opts.now = true
    · rw [if_pos hexpired, if_pos hexpired]
      exact ⟨.del key, rfl, rfl⟩
    · rw [if_neg hexpired, if_neg hexpired]
      refine ⟨.set key ref expireAt dt, rfl, ?_⟩
      rw [RecoveredOp.read, hread]

theorem opRefsToOps_located
    (h : List.Forall₂ (fun op f => Located fd (op.toBatchOp opts.codec) f) ops fs) :
    ∃ rs, fs.mapM (opRefToOps opts file fd) = .ok rs ∧
      rs.flatten.map (RecoveredOp.read fd) = ops.map (PreparedOp.replayed opts.now) := by
  induction h with
  | nil => exact ⟨[], rfl, rfl⟩
  | cons hop _ ih =>
    obtain ⟨r, hr, hread⟩ := opRefToOps_located opts file _ hop
    obtain ⟨rs, hrs, hreads⟩ := ih
    refine ⟨[r] :: rs, ?_, ?_⟩
    · rw [mapM_cons, hr, hrs]
      rfl
    · rw [flatten_cons, singleton_append, map_cons, map_cons, hread, hreads]

end

theorem length_subHeaderOf (op : BatchOp) : (subHeaderOf op).length = subHeader := by
  simp only [subHeaderOf, subHeader, length_append, length_cons, length_nil, length_ofNatLE, length_ofIntLE]

theorem length_batchOpBytes (op : BatchOp) : (batchOpBytes op).length =
    subHeader + op.key.length + op.val.length + op.met.length := by
  rw [batchOpBytes, length_append, length_subHeaderOf, length_append, length_append]
  omega

theorem scanBatchLoop_bodies (fd : Bytes) (bodyOff : Nat) (pre body : Bytes) (ops : List BatchOp)
    (hops : ∀ op ∈ ops, Encodable op) (hbody : body = pre ++ (ops.map batchOpBytes).flatten)
    (hfd : slice fd bodyOff body.length = body) :
    ∃ fs, scanBatchLoop body bodyOff ops.length pre.length = .ok fs ∧ List.Forall₂ (Located fd) ops fs := by
  induction ops generalizing pre with
  | nil => exact ⟨[], rfl, .nil⟩
  | cons op ops ih =>
    obtain ⟨hop, hops⟩ := forall_mem_cons.mp hops
    rw [map_cons, flatten_cons] at hbody
    have hlength : body.length = pre.length + (subHeader + op.key.length + op.val.length +
        op.met.length) + ((ops.map batchOpBytes).flatten).length := by
      rw [hbody, length_append, length_append, length_batchOpBytes]
      omega
    have hheader : ∀ i n, i + n ≤ subHeader → slice body (pre.length + i) n = slice (subHeaderOf op) i n := by
      intro i n hle
      rw [hbody, batchOpBytes, append_assoc]
      exact slice_within (by rw [length_subHeaderOf]; exact hle) _ _
    have hkeyLen : readUInt16LE body (pre.length + 1) = op.key.length := by
      rw [readUInt16LE, hheader 1 2 (by decide)]
      exact toNatLE_ofNatLE_of_lt hop.key_lt
    have hvalLen : readUInt32LE body (pre.length + 3) = op.val.length := by
      rw [readUInt32LE, hheader 3 4 (by decide)]
      exact toNatLE_ofNatLE_of_lt hop.val_lt
    have hmetaLen : readUInt32LE body (pre.length + 7) = op.met.length := by
      rw [readUInt32LE, hheader 7 4 (by decide)]
      exact toNatLE_ofNatLE_of_lt hop.met_lt
    have hexpire : readBigInt64LE body (pre.length + 11) = op.expireAt.toInt := by
      rw [readBigInt64LE, hheader 11 8 (by decide)]
      exact hop.expireAt_eq
    have htype : readUInt8 body pre.length = op.type := by
      have h0 := hheader 0 1 (by decide)
      rw [add_zero] at h0
      rw [readUInt8, h0]
      rfl
    have hkey : slice body (pre.length + subHeader) op.key.length = op.key := by
      apply slice_eq (pre ++ subHeaderOf op) (op.val ++ op.met ++ (ops.map batchOpBytes).flatten) _ _ rfl
      · simp only [hbody, batchOpBytes, append_assoc]
      · rw [length_append, length_subHeaderOf]
    have hval : slice body (pre.length + subHeader + op.key.length) op.val.length = op.val := by
      apply slice_eq (pre ++ subHeaderOf op ++ op.key) (op.met ++ (ops.map batchOpBytes).flatten) _ _ rfl
      · simp only [hbody, batchOpBytes, append_assoc]
      · rw [length_append, length_append, length_subHeaderOf]
    have hmet : slice body (pre.length + subHeader + op.key.length + op.val.length) op.met.length = op.met := by
      apply slice_eq (pre ++ subHeaderOf op ++ op.key ++ op.val) (ops.map batchOpBytes).flatten _ _ rfl
      · simp only [hbody, batchOpBytes, append_assoc]
      · rw [length_append, length_append, length_append, length_subHeaderOf]
    obtain ⟨fs, hfs, hlocated⟩ := ih (pre ++ batchOpBytes op) hops (by rw [hbody, append_assoc])
    have hnext : (pre ++ batchOpBytes op).length =
        pre.length + subHeader + op.key.length + op.val.length + op.met.length := by
      rw [length_append, length_batchOpBytes]
      omega
    rw [hnext] at hfs
    rw [length_cons, scanBatchLoop, if_neg (by omega)]
    rw [hkeyLen, hvalLen, hmetaLen, if_neg (by omega), hfs, hkey, hmet, hexpire, JsInteger.ofInt_toInt, htype]
    refine ⟨_, rfl, .cons ?_ hlocated⟩
    refine ⟨rfl, rfl, rfl, rfl, rfl, ?_⟩
    have hinner : pre.length + subHeader + op.key.length + op.val.length ≤ body.length := by omega
    rw [← slice_slice hinner, hfd, hval]

end Echadron.MiniDb
