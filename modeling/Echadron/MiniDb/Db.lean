import Echadron.MiniDb.Derived
import Echadron.MiniDb.Replay
import Echadron.MiniDb.Wal

namespace Echadron.MiniDb
open Lib Lib.Bytes

/-- What a database is run with. `clock n` is what the `n`th reading of the time gives. -/
structure DbEnv where
  rt : Runtime
  codec : MetaCodec DtColumns
  decode : Bytes → JsValue
  valueMode : ValueMode := .memory
  clock : Nat → JsInteger
  clock_mono : ∀ m n, m ≤ n → clock m ≤ clock n

abbrev DbRecord := StoreRecord DtColumns

/-- What `restoreKey` is called with: the record from before a commit, and the `seq` of the record
that the commit left, if it left one. -/
structure Undo where
  pk : Bytes
  prev : Option DbRecord
  appliedSeq : Option Nat

/-- What `publishWalRef` is called with. The value's place is counted from the start of the frame. -/
structure Publication where
  pk : Bytes
  seq : Option Nat
  valueOff : Nat
  valLen : Nat
  expireAt : JsInteger
  dt : Option DtColumns

/-- A commit that waits for its frame to be written. -/
structure Commit where
  write : WalWrite DtColumns
  undo : List Undo
  publications : List Publication := []

structure Db where
  store : Store DtColumns := {}
  derived : Derived Bytes := {}
  wal : Wal Commit := {}
  snapshot : Bytes := []
  /-- How often the time was read. -/
  reads : Nat := 0

def WalWrite.valueOffsets (codec : MetaCodec DtColumns) :
    WalWrite DtColumns → List (PreparedOp DtColumns × Nat × Nat)
  | .single op => [(op, headerSize + op.key.length, (op.toBatchOp codec).val.length)]
  | .batch ops =>
    match encodeBatchOps (ops.map (PreparedOp.toBatchOp codec)) >>= (scanBatchOpRefs · 0) with
    | .ok opRefs => ops.zip (opRefs.map fun ref => (headerSize + ref.valueOff, ref.valLen))
    | .error _ => []

def WalWrite.lastSet (codec : MetaCodec DtColumns) (write : WalWrite DtColumns) :
    JsMap Bytes (JsInteger × Option DtColumns × Nat × Nat) :=
  (write.valueOffsets codec).foldl
    (fun lastSet (op, valueOff, valLen) =>
      match op with
      | .set key _ expireAt dt => lastSet.set key (expireAt, dt, valueOff, valLen)
      | .del _ => lastSet)
    .empty

/-- The positions of the operations in a frame. -/
def FrameRef.opRefs (fd : Bytes) (f : FrameRef) : List BatchOpRef :=
  if f.type = typeBatch then
    match readAtSync fd f.valueOff f.valLen >>= (scanBatchOpRefs · f.valueOff) with
    | .ok ops => ops
    | .error _ => []
  else [f.opRef]

def RecoveredOp.key {Dt : Type} : RecoveredOp Dt → Bytes
  | .set key .. => key
  | .del key => key

namespace Db

def fileOf (s : Db) : StoreFile → Bytes
  | .snapshot => s.snapshot
  | .wal => s.wal.file

def materialize (s : Db) : ValueRef → Bytes
  | .memory value => value
  | .disk loc => slice (s.fileOf loc.file) loc.off loc.len

variable (env : DbEnv)

def docOf (s : Db) (r : DbRecord) : JsValue := env.decode (s.materialize r.ref)

def now (s : Db) : JsInteger := env.clock s.reads

/-- The `seq` of the record that a key has now. -/
def seqOf (s : Db) (pk : Bytes) : Option Nat := (s.store.map.get pk).map StoreRecord.seq

/-- Drop a key that is expired. Every access to a key, and the timer, does this first. -/
def reapAt (now : JsInteger) (s : Db) (pk : Bytes) : Db :=
  match s.store.map.get pk with
  | none => s
  | some r =>
    if isExpiredAt r.expireAt now then
      { s with store := s.store.del pk, derived := s.derived.remove pk }
    else s

def reap (s : Db) (pk : Bytes) : Db := { reapAt (s.now env) s pk with reads := s.reads + 1 }

def reapExpired (s : Db) : Db := { s.store.map.keys.foldl (reapAt (s.now env)) s with reads := s.reads + 1 }

/-- Also the record from before the operation. -/
def applyOp (s : Db) (op : PreparedOp DtColumns) : Option DbRecord × Db :=
  let s := s.reap env op.key
  let prev := s.store.map.get op.key
  let oldDoc := prev.map (s.docOf env)
  match op with
  | .set key value expireAt dt =>
    (prev, { s with
      store := s.store.setRef key (.memory value) expireAt dt
      derived := s.derived.put env.rt key oldDoc (env.decode value) dt })
  | .del key =>
    (prev,
      if prev.isSome then
        { s with store := s.store.del key, derived := s.derived.del key oldDoc }
      else s)

/-- Take back what a commit did to a key, unless the key was written or dropped since. -/
def restoreKey (s : Db) (u : Undo) : Db :=
  if s.seqOf u.pk ≠ u.appliedSeq then s
  else
    let s := { s with derived := s.derived.remove u.pk }
    match u.prev with
    | none => { s with store := s.store.del u.pk }
    | some prev =>
      let s := { s with store := s.store.setRef u.pk prev.ref prev.expireAt prev.dt }
      let s := s.reap env u.pk
      let doc := ((s.store.map.get u.pk).map (s.docOf env)).getD .undefined
      { s with derived := s.derived.put env.rt u.pk none doc prev.dt }

def rollback (s : Db) (undo : List Undo) : Db := undo.foldl (restoreKey env) s

/-- Let a record point at its value in the log, unless the key was written since. -/
def publishWalRef (offset : Nat) (s : Db) (p : Publication) : Db :=
  match s.store.map.get p.pk with
  | none => s
  | some cur =>
    if some cur.seq = p.seq then
      { s with
        store := s.store.setRef p.pk
          (.disk { file := .wal, off := offset + p.valueOff, len := p.valLen }) p.expireAt p.dt }
    else s

/-- Apply the operations in turn, and keep for each key the record from before the first. -/
def applyOps (s : Db) (ops : List (PreparedOp DtColumns)) : JsMap Bytes (Option DbRecord) × Db :=
  ops.foldl
    (fun (prevs, s) op =>
      let (prev, s) := s.applyOp env op
      (if prevs.has op.key then prevs else prevs.set op.key prev, s))
    (.empty, s)

def publicationsOf (s : Db) (write : WalWrite DtColumns) : List Publication :=
  match env.valueMode with
  | .memory => []
  | .disk =>
    (write.lastSet env.codec).entries.map fun (pk, expireAt, dt, valueOff, valLen) =>
      { pk := pk, seq := s.seqOf pk, valueOff := valueOff, valLen := valLen, expireAt := expireAt,
        dt := dt }

/-- Queue a frame whose effects are in place. A log that does not take it rejects it at once. -/
def append (s : Db) (frame : Bytes) (c : Commit) : Db :=
  match s.wal.appendLoc frame c with
  | some (_, wal) => { s with wal := wal }
  | none => s.rollback env c.undo

/-- `set`, `del` and `batch`. -/
def commit (s : Db) (write : WalWrite DtColumns) : Db :=
  match write.encode env.codec with
  | .error _ => s
  | .ok frame =>
    let (prevs, s) := s.applyOps env write.ops
    s.append env frame
      { write := write
        undo := prevs.entries.map fun (pk, prev) => { pk := pk, prev := prev, appliedSeq := s.seqOf pk }
        publications := s.publicationsOf env write }

/-- Set a value that the key has already; the derived structures are left alone. -/
def expire (s : Db) (pk : Bytes) (expireAt : JsInteger) : Db :=
  let s := s.reap env pk
  match s.store.map.get pk with
  | none => s
  | some cur =>
    let value := s.materialize cur.ref
    let write : WalWrite DtColumns := .single (.set pk value expireAt cur.dt)
    match write.encode env.codec with
    | .error _ => s
    | .ok frame =>
      let s := { s with store := s.store.setRef pk (.memory value) expireAt cur.dt }
      s.append env frame
        { write := write
          undo := [{ pk := pk, prev := some cur, appliedSeq := s.seqOf pk }]
          publications := s.publicationsOf env write }

def settle (s : Db) : Settlement Commit → Db
  | { outcome := .resolved, batch := batch } =>
    batch.foldl (fun s w => w.op.publications.foldl (publishWalRef w.offset) s) s
  | { outcome := .rejected, batch := batch } => batch.foldl (fun s w => s.rollback env w.op.undo) s

def walEvent (s : Db) (e : WalEvent) : Option Db :=
  (s.wal.event e).map fun (wal, settlement) =>
    match settlement with
    | none => { s with wal := wal }
    | some settlement => { s with wal := wal }.settle env settlement

/-- A set that is expired by the time it is read back leaves nothing. -/
def writeRecovered (s : Db) (oldDoc : Option JsValue) : RecoveredOp DtColumns → Db
  | .del key =>
    if (s.store.map.get key).isSome then
      { s with store := s.store.del key, derived := s.derived.del key oldDoc }
    else s
  | .set key ref expireAt dt =>
    let s := { s with store := s.store.setRef key ref expireAt dt }
    let s := s.reap env key
    match s.store.map.get key with
    | none => s
    | some r => { s with derived := s.derived.put env.rt key oldDoc (s.docOf env r) dt }

/-- The old document is read only where there is an index for it. -/
def applyRecoveredOp (s : Db) (op : RecoveredOp DtColumns) : Db :=
  if s.derived.indexes.indexes.size = 0 then s.writeRecovered env none op
  else
    let s := s.reap env op.key
    s.writeRecovered env ((s.store.map.get op.key).map (s.docOf env)) op

/-- An error leaves what was applied before it. -/
def applyRecovered (s : Db) : List BatchOpRef → Db
  | [] => s
  | f :: fs =>
    let opts : RecoveryOptions DtColumns := { codec := env.codec, now := s.now env, valueMode := env.valueMode }
    match opRefToOps opts .wal s.wal.file f with
    | .error _ => s
    | .ok ops => applyRecovered (ops.foldl (applyRecoveredOp env) { s with reads := s.reads + 1 }) fs

/-- Apply the frames from an offset on, up to the first that is not whole. -/
def catchUpFromWal (s : Db) (offset : Nat) : Db :=
  s.applyRecovered env
    ((scanFrameRefsFd s.wal.file .strict offset).frames.flatMap (FrameRef.opRefs s.wal.file))

def liveRecords (s : Db) : List (Bytes × JsValue × Option DtColumns) :=
  (s.store.map.entries.filter fun (_, r) => !isExpiredAt r.expireAt (s.now env)).map
    fun (pk, r) => (pk, s.docOf env r, r.dt)

def rebuildAllIndexes (s : Db) : Derived Bytes := s.derived.rebuild env.rt (s.liveRecords env)

end Db

/-- What can happen to a database that writes. `read` is any access to a key and the timer's tick
reaching it. -/
inductive WriteEvent where
  | read (pk : Bytes)
  | reapExpired
  | commit (write : WalWrite DtColumns)
  | expire (pk : Bytes) (expireAt : JsInteger)
  | wal (e : WalEvent)

/-- And to one that follows the log of another writer. -/
inductive DbEvent where
  | write (e : WriteEvent)
  | logGrows (bytes : Bytes)
  | catchUp (offset : Nat)

namespace Db

variable (env : DbEnv)

def writeStep (s : Db) : WriteEvent → Option Db
  | .read pk => some (s.reap env pk)
  | .reapExpired => some (s.reapExpired env)
  | .commit write => some (s.commit env write)
  | .expire pk expireAt => some (s.expire env pk expireAt)
  | .wal e => s.walEvent env e

def step (s : Db) : DbEvent → Option Db
  | .write e => s.writeStep env e
  | .logGrows bytes => some { s with wal := { s.wal with file := s.wal.file ++ bytes } }
  | .catchUp offset => some (s.catchUpFromWal env offset)

end Db

end Echadron.MiniDb
