import Echadron.Lib.Bytes
import Echadron.Lib.Runs
import Echadron.Lib.JsNumber

namespace Echadron.MiniDb
open Lib List

def poly : UInt32 := 0xedb88320

def tableStep (c : UInt32) : UInt32 := if c &&& 1 = 0 then c >>> 1 else poly ^^^ (c >>> 1)

def tableEntry (n : UInt32) : UInt32 :=
  tableStep (tableStep (tableStep (tableStep (tableStep (tableStep (tableStep (tableStep n)))))))

def crcByte (c : UInt32) (byte : UInt8) : UInt32 := tableEntry ((c ^^^ byte.toUInt32) &&& 0xff) ^^^ (c >>> 8)

def crc32 (buf : Bytes) (prev : UInt32) : UInt32 := buf.foldl crcByte (prev ^^^ 0xffffffff) ^^^ 0xffffffff

theorem crc32_nil (prev : UInt32) : crc32 [] prev = prev := by
  rw [crc32, foldl_nil, UInt32.xor_assoc, UInt32.xor_self, UInt32.xor_zero]

theorem crc32_append (a b : Bytes) (prev : UInt32) : crc32 (a ++ b) prev = crc32 b (crc32 a prev) := by
  rw [crc32, crc32, crc32, foldl_append, UInt32.xor_assoc (foldl crcByte _ a),
    UInt32.xor_self, UInt32.xor_zero]

example : crc32 [0x31, 0x32, 0x33, 0x34, 0x35, 0x36, 0x37, 0x38, 0x39] 0 = 0xcbf43926 := by
  decide +kernel

end Echadron.MiniDb

namespace Echadron.MiniDb
open Lib Lib.Bytes List

def magic : Bytes := [0x4d, 0x44]
def typeSet : UInt8 := 1
def typeDel : UInt8 := 2
def typeBatch : UInt8 := 3
def headerSize : Nat := 22
def crcSize : Nat := 4
def maxKeyLen : Nat := 0xffff
def maxValLen : Nat := 0xffffffff
def subHeader : Nat := 1 + 2 + 4 + 4 + 8

def outOfRange : String := "The value of \"value\" is out of range."

def writeUInt16LE (n : Nat) : Except String Bytes :=
  if n < 2 ^ 16 then .ok (ofNatLE 2 n) else .error outOfRange

def writeUInt32LE (n : Nat) : Except String Bytes :=
  if n < 2 ^ 32 then .ok (ofNatLE 4 n) else .error outOfRange

def writeBigInt64LE (n : Int) : Except String Bytes :=
  if -2 ^ 63 ≤ n ∧ n < 2 ^ 63 then .ok (ofIntLE 8 n) else .error outOfRange

section

variable (buf : Bytes) (o : Nat)

def readUInt8 : UInt8 := (slice buf o 1).headD 0
def readUInt16LE : Nat := toNatLE (slice buf o 2)
def readUInt32LE : Nat := toNatLE (slice buf o 4)
def readBigInt64LE : Int := toIntLE (slice buf o 8)

end

/-- What a frame and an operation of a batch both carry. `metadata` is the field `meta`. -/
structure BatchOp where
  type : UInt8
  key : Bytes
  value : Option Bytes := none
  metadata : Option Bytes := none
  expireAt : JsInteger := 0
deriving DecidableEq

namespace BatchOp

variable (op : BatchOp)

def val : Bytes := op.value.getD []
def met : Bytes := op.metadata.getD []

end BatchOp

/-- The fields after the magic, up to the checksum. -/
def frameBody (op : BatchOp) : Bytes :=
  [op.type, 0] ++ ofNatLE 2 op.key.length ++ ofNatLE 4 op.val.length ++ ofNatLE 4 op.met.length ++
    ofIntLE 8 op.expireAt.toInt ++ (op.key ++ op.val ++ op.met)

def encodeFrame (op : BatchOp) : Except String Bytes :=
  if op.key.length > maxKeyLen then .error "key too large"
  else if op.val.length > maxValLen then .error "value too large"
  else if op.met.length > maxValLen then .error "meta too large"
  else do
    let _ ← writeBigInt64LE op.expireAt.toInt
    return magic ++ frameBody op ++ ofNatLE 4 (crc32 (frameBody op) 0).toNat

def subHeaderOf (op : BatchOp) : Bytes :=
  [op.type] ++ ofNatLE 2 op.key.length ++ ofNatLE 4 op.val.length ++ ofNatLE 4 op.met.length ++
    ofIntLE 8 op.expireAt.toInt

def batchOpBytes (op : BatchOp) : Bytes := subHeaderOf op ++ (op.key ++ op.val ++ op.met)

def encodeBatchOp (op : BatchOp) : Except String Bytes := do
  let keyLen ← writeUInt16LE op.key.length
  let valLen ← writeUInt32LE op.val.length
  let metaLen ← writeUInt32LE op.met.length
  let expireAt ← writeBigInt64LE op.expireAt.toInt
  return [op.type] ++ keyLen ++ valLen ++ metaLen ++ expireAt ++ (op.key ++ op.val ++ op.met)

def encodeBatchOps (ops : List BatchOp) : Except String Bytes := do
  let count ← writeUInt16LE ops.length
  let bodies ← ops.mapM encodeBatchOp
  return count ++ bodies.flatten

/-! What an encoder that does not throw has written. -/

theorem writeUInt16LE_ok (h : writeUInt16LE n = .ok bytes) : n < 256 ^ 2 ∧ bytes = ofNatLE 2 n := by
  unfold writeUInt16LE at h
  split at h
  · rename_i hlt
    exact ⟨hlt, (Except.ok.inj h).symm⟩
  · cases h

theorem writeUInt32LE_ok (h : writeUInt32LE n = .ok bytes) : n < 256 ^ 4 ∧ bytes = ofNatLE 4 n := by
  unfold writeUInt32LE at h
  split at h
  · rename_i hlt
    exact ⟨hlt, (Except.ok.inj h).symm⟩
  · cases h

theorem writeBigInt64LE_ok (h : writeBigInt64LE n = .ok bytes) : toIntLE (ofIntLE 8 n) = n ∧ bytes = ofIntLE 8 n := by
  unfold writeBigInt64LE at h
  split at h
  · refine ⟨?_, (Except.ok.inj h).symm⟩
    apply toIntLE_ofIntLE
    · omega
    · omega
  · cases h

/-- The lengths and the expiry of an operation fit their fields. -/
structure Encodable (op : BatchOp) : Prop where
  key_lt : op.key.length < 256 ^ 2
  val_lt : op.val.length < 256 ^ 4
  met_lt : op.met.length < 256 ^ 4
  expireAt_eq : toIntLE (ofIntLE 8 op.expireAt.toInt) = op.expireAt.toInt

theorem encodeFrame_ok (h : encodeFrame op = .ok frame) : Encodable op ∧
      frame = magic ++ frameBody op ++ ofNatLE 4 (crc32 (frameBody op) 0).toNat := by
  unfold encodeFrame at h
  split at h
  · cases h
  · split at h
    · cases h
    · split at h
      · cases h
      · rename_i hkey hval hmet
        obtain ⟨bytes, hexpire, h⟩ := bind_ok h
        refine ⟨⟨?_, ?_, ?_, (writeBigInt64LE_ok hexpire).1⟩, (Except.ok.inj h).symm⟩
        · simp only [maxKeyLen] at hkey
          omega
        · simp only [maxValLen] at hval
          omega
        · simp only [maxValLen] at hmet
          omega

theorem encodeBatchOp_ok (h : encodeBatchOp op = .ok bytes) : Encodable op ∧ bytes = batchOpBytes op := by
  obtain ⟨keyLen, hkey, h⟩ := bind_ok h
  obtain ⟨valLen, hval, h⟩ := bind_ok h
  obtain ⟨metaLen, hmet, h⟩ := bind_ok h
  obtain ⟨expireAt, hexpire, h⟩ := bind_ok h
  obtain ⟨hkey', rfl⟩ := writeUInt16LE_ok hkey
  obtain ⟨hval', rfl⟩ := writeUInt32LE_ok hval
  obtain ⟨hmet', rfl⟩ := writeUInt32LE_ok hmet
  obtain ⟨hexpire', rfl⟩ := writeBigInt64LE_ok hexpire
  exact ⟨⟨hkey', hval', hmet', hexpire'⟩, (Except.ok.inj h).symm⟩

theorem bodies_eq
    (h : List.Forall₂ (fun op bytes => encodeBatchOp op = .ok bytes) ops bodies) :
    bodies = ops.map batchOpBytes ∧ ∀ op ∈ ops, Encodable op := by
  induction h with
  | nil => exact ⟨rfl, fun _ hop => absurd hop not_mem_nil⟩
  | cons hop _ ih =>
    obtain ⟨he, rfl⟩ := encodeBatchOp_ok hop
    obtain ⟨rfl, hrest⟩ := ih
    exact ⟨rfl, forall_mem_cons.mpr ⟨he, hrest⟩⟩

theorem encodeBatchOps_ok (h : encodeBatchOps ops = .ok body) :
    ops.length < 256 ^ 2 ∧ (∀ op ∈ ops, Encodable op) ∧
      body = ofNatLE 2 ops.length ++ (ops.map batchOpBytes).flatten := by
  obtain ⟨count, hcount, h⟩ := bind_ok h
  obtain ⟨bodies, hbodies, h⟩ := bind_ok h
  obtain ⟨hlt, rfl⟩ := writeUInt16LE_ok hcount
  cases h
  obtain ⟨rfl, hops⟩ := bodies_eq (forall₂_of_mapM hbodies)
  exact ⟨hlt, hops, rfl⟩

end Echadron.MiniDb
