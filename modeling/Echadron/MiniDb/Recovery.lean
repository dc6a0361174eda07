import Echadron.Lib.JsMap
import Echadron.MiniDb.Scan

namespace Echadron.MiniDb
open Lib Lib.Bytes

inductive StoreFile where
  | snapshot
  | wal
deriving DecidableEq

structure ValueLoc where
  file : StoreFile
  off : Nat
  len : Nat
deriving DecidableEq

inductive ValueRef where
  | memory (value : Bytes)
  | disk (loc : ValueLoc)
deriving DecidableEq

/-- `dt` holds the datetime columns of a record. -/
structure StoreRecord (Dt : Type) where
  ref : ValueRef
  expireAt : JsInteger
  seq : Nat
  dt : Option Dt
deriving DecidableEq

def isExpiredAt (expireAt now : JsInteger) : Bool := decide (expireAt ≠ 0 ∧ expireAt ≤ now)

theorem isExpiredAt_mono (h : isExpiredAt expireAt now = true)
    (hle : now ≤ now') : isExpiredAt expireAt now' = true := by
  obtain ⟨hne, hexp⟩ := of_decide_eq_true h
  apply decide_eq_true
  exact ⟨hne, Int.le_trans hexp hle⟩

/-- The primary index; keys are the canonical key strings, which are bytes. -/
structure Store (Dt : Type) where
  map : JsMap Bytes (StoreRecord Dt) := .empty
  seq : Nat := 0

namespace Store

variable {Dt : Type}

section

variable (s : Store Dt)

def setRef (key : Bytes) (ref : ValueRef) (expireAt : JsInteger) (dt : Option Dt) : Store Dt :=
  { map := s.map.set key { ref := ref, expireAt := expireAt, seq := s.seq + 1, dt := dt }
    seq := s.seq + 1 }

def del (key : Bytes) : Store Dt := { s with map := s.map.delete key }

/-- The record that readers see: none once it is expired. -/
def live (now : JsInteger) (key : Bytes) : Option (StoreRecord Dt) :=
  (s.map.get key).filter fun r => !isExpiredAt r.expireAt now

@[simp] theorem setRef_get_self (key : Bytes) (ref : ValueRef) (expireAt : JsInteger)
    (dt : Option Dt) : (s.setRef key ref expireAt dt).map.get key =
      some { ref := ref, expireAt := expireAt, seq := s.seq + 1, dt := dt } :=
  JsMap.get_set_self _ _ _

theorem setRef_get_of_ne (ref : ValueRef) (expireAt : JsInteger) (dt : Option Dt)
    (h : k ≠ key) : (s.setRef key ref expireAt dt).map.get k = s.map.get k :=
  JsMap.get_set_of_ne _ _ h

@[simp] theorem del_get_self (key : Bytes) : (s.del key).map.get key = none := JsMap.get_delete_self _ _

theorem del_get_of_ne (h : k ≠ key) : (s.del key).map.get k = s.map.get k := JsMap.get_delete_of_ne _ h

end

end Store

end Echadron.MiniDb

namespace Echadron.MiniDb
open Lib Lib.Bytes

/-- How the datetime columns of a record are written as JSON text and read back. -/
structure MetaCodec (Dt : Type) where
  stringify : Dt → Bytes
  parse : Bytes → Except String (Option Dt)
  parse_stringify : ∀ dt, parse (stringify dt) = .ok (some dt)
  stringify_ne_nil : ∀ dt, stringify dt ≠ []

inductive ValueMode where
  | memory
  | disk
deriving DecidableEq

def readAtSync (fd : Bytes) (off len : Nat) : Except String Bytes :=
  if len = 0 then .ok []
  else if off + len ≤ fd.length then .ok (slice fd off len)
  else .error "recovery: short read past EOF"

inductive RecoveredOp (Dt : Type) where
  | set (key : Bytes) (ref : ValueRef) (expireAt : JsInteger) (dt : Option Dt)
  | del (key : Bytes)

/-- What recovery is run with. -/
structure RecoveryOptions (Dt : Type) where
  codec : MetaCodec Dt
  now : JsInteger
  mode : RecoveryMode := .resync
  truncate : Bool := true
  valueMode : ValueMode := .memory

section

variable {Dt : Type} (opts : RecoveryOptions Dt) (file : StoreFile) (fd : Bytes)

def parseMeta : Option Bytes → Except String (Option Dt)
  | none => .ok none
  | some metadata => opts.codec.parse metadata

def valueRef (valueOff valLen : Nat) : Except String ValueRef :=
  match opts.valueMode with
  | .disk => .ok (.disk { file := file, off := valueOff, len := valLen })
  | .memory => (readAtSync fd valueOff valLen).map .memory

def setRefToOps (f : BatchOpRef) : Except String (RecoveredOp Dt) :=
  if isExpiredAt f.expireAt opts.now then .ok (.del f.key)
  else do
    let dt ← parseMeta opts f.metadata
    let ref ← valueRef opts file fd f.valueOff f.valLen
    return .set f.key ref f.expireAt dt

/-- The operation at one position of a frame or a batch; unknown types yield none. -/
def opRefToOps (f : BatchOpRef) : Except String (List (RecoveredOp Dt)) :=
  if f.type = typeSet then (setRefToOps opts file fd f).map ([·])
  else if f.type = typeDel then .ok [.del f.key]
  else .ok []

def FrameRef.opRef (f : FrameRef) : BatchOpRef :=
  { type := f.type
    key := f.key
    metadata := f.metadata
    expireAt := f.expireAt
    valueOff := f.valueOff
    valLen := f.valLen }

/-- A batch whose body is malformed is skipped as a whole. -/
def frameToOps (f : FrameRef) : Except String (List (RecoveredOp Dt)) :=
  if f.type = typeBatch then
    match readAtSync fd f.valueOff f.valLen >>= (scanBatchOpRefs · f.valueOff) with
    | .ok ops => (ops.mapM (opRefToOps opts file fd)).map List.flatten
    | .error _ => .ok []
  else opRefToOps opts file fd f.opRef

def readOps : Except String (List (List (RecoveredOp Dt))) :=
  (scanFrameRefsFd fd opts.mode 0).frames.mapM (frameToOps opts file fd)

def applyRecoveredOp (store : Store Dt) : RecoveredOp Dt → Store Dt
  | .set key ref expireAt dt => store.setRef key ref expireAt dt
  | .del key => store.del key

def applyFrames (store : Store Dt) : Except String (Store Dt) :=
  (readOps opts file fd).map fun groups => groups.flatten.foldl applyRecoveredOp store

end

/-- The files of a database directory. -/
structure DbFiles where
  snapshot : Option Bytes := none
  wal : Option Bytes := none
deriving DecidableEq

structure RecoveryInfo where
  snapshotFrames : Nat := 0
  walFrames : Nat := 0
  truncatedWal : Bool := false
  corruptRanges : List (Nat × Nat) := []
  snapshotCorruptRanges : List (Nat × Nat) := []
  lostBytes : Nat := 0
  walScanEnd : Nat := 0

def tornTail (fd : Bytes) (result : ScanFrameRefsResult) : Option Nat :=
  match result.corruptRanges.getLast? with
  | some (start, stop) => if stop = fd.length then some start else none
  | none => none

def lostBytes (ranges : List (Nat × Nat)) : Nat := (ranges.map fun range => range.2 - range.1).sum

structure Recovered (Dt : Type) where
  store : Store Dt
  info : RecoveryInfo
  files : DbFiles

variable {Dt : Type}

def recoverSnapshot (opts : RecoveryOptions Dt) (files : DbFiles) (store : Store Dt) : Except String (Recovered Dt) :=
  match files.snapshot with
  | none => .ok { store := store, info := {}, files := files }
  | some fd => do
    let result := scanFrameRefsFd fd opts.mode 0
    let store ← applyFrames opts .snapshot fd store
    return {
      store := store
      info :=
        { snapshotFrames := result.frames.length
          snapshotCorruptRanges := result.corruptRanges
          lostBytes := lostBytes result.corruptRanges }
      files := files }

def recoverWal (opts : RecoveryOptions Dt) (r : Recovered Dt) : Except String (Recovered Dt) :=
  match r.files.wal with
  | none => .ok r
  | some fd => do
    let result := scanFrameRefsFd fd opts.mode 0
    let store ← applyFrames opts .wal fd r.store
    let torn := if opts.truncate then tornTail fd result else none
    return {
      store := store
      info :=
        { r.info with
          walFrames := result.frames.length
          truncatedWal := torn.isSome
          corruptRanges := result.corruptRanges
          lostBytes := lostBytes result.corruptRanges + r.info.lostBytes
          walScanEnd := result.eofOffset }
      files := { r.files with wal := some (fd.take (torn.getD fd.length)) } }

/-- Load the snapshot, then replay the log on top of it. -/
def recover (opts : RecoveryOptions Dt) (files : DbFiles) (store : Store Dt) : Except String (Recovered Dt) := do
  let r ← recoverSnapshot opts files store
  recoverWal opts r

end Echadron.MiniDb
