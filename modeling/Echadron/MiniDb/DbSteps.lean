import Echadron.MiniDb.Db

namespace Echadron.MiniDb
open Lib Lib.Bytes List Option

namespace Db

variable (env : DbEnv)

/-! What the operations do to the records. -/

theorem reapAt_expired (hr : s.store.map.get pk = some r) (hexp : isExpiredAt r.expireAt t = true) :
    reapAt t s pk = { s with store := s.store.del pk, derived := s.derived.remove pk } := by
  rw [reapAt, hr]
  exact if_pos hexp

theorem reapAt_live (hr : s.store.map.get pk = some r)
    (hexp : isExpiredAt r.expireAt t = false) : reapAt t s pk = s := by
  rw [reapAt, hr]
  exact if_neg (Bool.eq_false_iff.mp hexp)

theorem reap_expired {s : Db} (hr : s.store.map.get pk = some r) (hexp : isExpiredAt r.expireAt (s.now env) = true) :
    s.reap env pk = { s with store := s.store.del pk, derived := s.derived.remove pk, reads := s.reads + 1 } := by
  rw [reap, reapAt_expired hr hexp]

theorem reap_live {s : Db} (hr : s.store.map.get pk = some r) (hexp : isExpiredAt r.expireAt (s.now env) = false) :
    s.reap env pk = { s with reads := s.reads + 1 } := by
  rw [reap, reapAt_live hr hexp]

theorem reapAt_get (now : JsInteger) (s : Db) (pk k : Bytes) :
    (reapAt now s pk).store.map.get k = if k = pk then s.store.live now pk else s.store.map.get k := by
  rw [reapAt, Store.live]
  cases hr : s.store.map.get pk with
  | none =>
    by_cases hk : k = pk
    · rw [if_pos hk, hk, hr]
      rfl
    · rw [if_neg hk]
  | some r =>
    dsimp only
    by_cases hexp : isExpiredAt r.expireAt now = true
    · rw [if_pos hexp, filter_some_neg (by rw [hexp]; rfl)]
      exact JsMap.get_delete _ _ _
    · rw [if_neg hexp, filter_some_pos (by rw [Bool.eq_false_iff.mpr hexp]; rfl)]
      by_cases hk : k = pk
      · rw [if_pos hk, hk, hr]
      · rw [if_neg hk]

theorem reap_get (s : Db) (pk k : Bytes) : (s.reap env pk).store.map.get k =
    if k = pk then s.store.live (s.now env) pk else s.store.map.get k :=
  reapAt_get _ _ _ _

theorem reapAt_seq (now : JsInteger) (s : Db) (pk : Bytes) : (reapAt now s pk).store.seq = s.store.seq := by
  rw [reapAt]
  split
  · rfl
  · split <;> rfl

@[simp] theorem reap_seq (s : Db) (pk : Bytes) : (s.reap env pk).store.seq = s.store.seq := reapAt_seq _ _ _

/-- The record that an operation leaves. -/
def recordOf (seq : Nat) : PreparedOp DtColumns → Option DbRecord
  | .set _ value expireAt dt => some { ref := .memory value, expireAt := expireAt, seq := seq + 1, dt := dt }
  | .del _ => none

section

variable (s : Db)

theorem applyOp_prev (op : PreparedOp DtColumns) : (s.applyOp env op).1 = s.store.live (s.now env) op.key := by
  cases op <;> exact (reap_get env s _ _).trans (if_pos rfl)

theorem applyOp_set_get (key value : Bytes) (expireAt : JsInteger) (dt : Option DtColumns)
    (k : Bytes) : (s.applyOp env (.set key value expireAt dt)).2.store.map.get k =
      if k = key then
        some { ref := .memory value, expireAt := expireAt, seq := s.store.seq + 1, dt := dt }
      else s.store.map.get k := by
  have hget : (s.applyOp env (.set key value expireAt dt)).2.store.map.get k =
      ((s.reap env key).store.setRef key (.memory value) expireAt dt).map.get k := rfl
  rw [hget, Store.setRef, JsMap.get_set, reap_get, reap_seq]
  by_cases hk : k = key
  · rw [if_pos hk, if_pos hk]
  · rw [if_neg hk, if_neg hk, if_neg hk]

theorem applyOp_del (key : Bytes) : (s.applyOp env (.del key)).2 =
    if ((s.reap env key).store.map.get key).isSome then
      { s.reap env key with
        store := (s.reap env key).store.del key
        derived := (s.reap env key).derived.del key
          (((s.reap env key).store.map.get key).map ((s.reap env key).docOf env)) }
    else s.reap env key :=
  rfl

theorem applyOp_del_get (key k : Bytes) :
    (s.applyOp env (.del key)).2.store.map.get k = if k = key then none else s.store.map.get k := by
  rw [applyOp_del]
  by_cases hsome : ((s.reap env key).store.map.get key).isSome = true
  · rw [if_pos hsome, Store.del, JsMap.get_delete, reap_get]
    by_cases hk : k = key
    · rw [if_pos hk, if_pos hk]
    · rw [if_neg hk, if_neg hk, if_neg hk]
  · rw [if_neg hsome]
    by_cases hk : k = key
    · rw [if_pos hk, hk]
      exact not_isSome_iff_eq_none.mp hsome
    · rw [if_neg hk, reap_get, if_neg hk]

theorem applyOp_get (op : PreparedOp DtColumns) (k : Bytes) : (s.applyOp env op).2.store.map.get k =
      if k = op.key then recordOf s.store.seq op else s.store.map.get k := by
  cases op with
  | set key value expireAt dt => exact applyOp_set_get env s key value expireAt dt k
  | del key => exact applyOp_del_get env s key k

theorem applyOps_concat (ops : List (PreparedOp DtColumns)) (op : PreparedOp DtColumns) :
    s.applyOps env (ops ++ [op]) = (if (s.applyOps env ops).1.has op.key then (s.applyOps env ops).1
        else (s.applyOps env ops).1.set op.key ((s.applyOps env ops).2.applyOp env op).1,
      ((s.applyOps env ops).2.applyOp env op).2) := by
  rw [applyOps, foldl_append]
  rfl

theorem restoreKey_get (u : Undo) (h : s.seqOf u.pk = u.appliedSeq) (k : Bytes) :
    (s.restoreKey env u).store.map.get k =
      if k = u.pk then
        (u.prev.map fun prev => { prev with seq := s.store.seq + 1 }).filter
          fun r => !isExpiredAt r.expireAt (s.now env)
      else s.store.map.get k := by
  rw [restoreKey, if_neg (not_not_intro h)]
  cases u.prev with
  | none =>
    dsimp only
    rw [Store.del, JsMap.get_delete]
    rfl
  | some prev =>
    rw [reap_get, Store.live]
    rw [Store.setRef_get_self]
    by_cases hk : k = u.pk
    · rw [if_pos hk, if_pos hk]
      rfl
    · rw [if_neg hk, if_neg hk, Store.setRef_get_of_ne _ _ _ _ hk]

theorem restoreKey_skip (u : Undo) (h : s.seqOf u.pk ≠ u.appliedSeq) : s.restoreKey env u = s := by
  exact if_pos h

theorem restoreKey_derived_none (h : s.seqOf u.pk = u.appliedSeq)
    (hprev : u.prev = none) : (s.restoreKey env u).derived = s.derived.remove u.pk := by
  rw [restoreKey, if_neg (not_not_intro h), hprev]

section

variable {u : Undo} {prev : DbRecord} (h : s.seqOf u.pk = u.appliedSeq) (hprev : u.prev = some prev)
include h hprev

theorem restoreKey_derived_expired (hexp : isExpiredAt prev.expireAt (s.now env) = true) :
    (s.restoreKey env u).derived =
      ((s.derived.remove u.pk).remove u.pk).put env.rt u.pk none .undefined prev.dt := by
  have hget := Store.setRef_get_self s.store u.pk prev.ref prev.expireAt prev.dt
  have hreap := reap_expired env (s := { s with
    store := s.store.setRef u.pk prev.ref prev.expireAt prev.dt
    derived := s.derived.remove u.pk }) hget hexp
  rw [restoreKey, if_neg (not_not_intro h), hprev]
  dsimp only
  rw [hreap]
  rw [Store.del_get_self]
  rfl

theorem restoreKey_derived_live (hexp : isExpiredAt prev.expireAt (s.now env) = false) :
    (s.restoreKey env u).derived = (s.derived.remove u.pk).put env.rt u.pk none (s.docOf env prev) prev.dt := by
  have hget := Store.setRef_get_self s.store u.pk prev.ref prev.expireAt prev.dt
  have hreap := reap_live env (s := { s with
    store := s.store.setRef u.pk prev.ref prev.expireAt prev.dt
    derived := s.derived.remove u.pk }) hget hexp
  rw [restoreKey, if_neg (not_not_intro h), hprev]
  dsimp only
  rw [hreap]
  rw [Store.setRef_get_self]
  rfl

end

end

/-! What holds between a state and those after it while no byte is written. -/

/-- Records are only dropped, or written with new numbers. -/
structure Extends (s s' : Db) : Prop where
  wal_eq : s'.wal = s.wal
  snapshot_eq : s'.snapshot = s.snapshot
  reads_le : s.reads ≤ s'.reads
  seq_le : s.store.seq ≤ s'.store.seq
  kept : ∀ pk r, s'.store.map.get pk = some r → r.seq ≤ s.store.seq → s.store.map.get pk = some r

theorem Extends.refl (s : Db) : s.Extends s := ⟨rfl, rfl, Nat.le_refl _, Nat.le_refl _, fun _ _ h _ => h⟩

theorem Extends.trans {s s' s'' : Db} (h : s.Extends s') (h' : s'.Extends s'') : s.Extends s'' where
  wal_eq := h'.wal_eq.trans h.wal_eq
  snapshot_eq := h'.snapshot_eq.trans h.snapshot_eq
  reads_le := le_trans h.reads_le h'.reads_le
  seq_le := le_trans h.seq_le h'.seq_le
  kept pk r hr hle := h.kept pk r (h'.kept pk r hr (le_trans hle h.seq_le)) hle

theorem Extends.setRef (s : Db) (d : Derived Bytes) (pk : Bytes) (ref : ValueRef)
    (expireAt : JsInteger) (dt : Option DtColumns) :
    s.Extends { s with store := s.store.setRef pk ref expireAt dt, derived := d } where
  wal_eq := rfl
  snapshot_eq := rfl
  reads_le := le_refl _
  seq_le := Nat.le_succ _
  kept k r hr hle := by
    by_cases hk : k = pk
    · rw [hk] at hr
      rw [Store.setRef_get_self] at hr
      cases hr
      exact absurd hle (Nat.not_succ_le_self _)
    · rwa [Store.setRef_get_of_ne _ _ _ _ hk] at hr

theorem Extends.del (s : Db) (d : Derived Bytes) (pk : Bytes) :
    s.Extends { s with store := s.store.del pk, derived := d } where
  wal_eq := rfl
  snapshot_eq := rfl
  reads_le := le_refl _
  seq_le := le_refl _
  kept k r hr _ := by
    by_cases hk : k = pk
    · rw [hk] at hr
      rw [Store.del_get_self] at hr
      cases hr
    · rwa [Store.del_get_of_ne _ hk] at hr

theorem Extends.derived (s : Db) (d : Derived Bytes) : s.Extends { s with derived := d } :=
  ⟨rfl, rfl, le_refl _, le_refl _, fun _ _ h _ => h⟩

theorem Extends.read {s t : Db} (h : s.Extends t) (hreads : s.reads ≤ n) : s.Extends { t with reads := n } :=
  { h with reads_le := hreads }

theorem extends_reapAt (now : JsInteger) (s : Db) (pk : Bytes) : s.Extends (reapAt now s pk) := by
  rw [reapAt]
  split
  · exact .refl s
  · split
    · exact .del s _ pk
    · exact .refl s

theorem extends_reap (s : Db) (pk : Bytes) : s.Extends (s.reap env pk) :=
  (extends_reapAt _ s pk).read (Nat.le_succ _)

theorem extends_reapExpired (s : Db) : s.Extends (s.reapExpired env) := by
  have hall : s.Extends (s.store.map.keys.foldl (reapAt (s.now env)) s) :=
    fold_invariant (I := s.Extends) (fun t pk h => h.trans (extends_reapAt _ t pk)) (.refl s) _
  exact hall.read (Nat.le_succ _)

theorem extends_applyOp (s : Db) (op : PreparedOp DtColumns) : s.Extends (s.applyOp env op).2 := by
  cases op with
  | set key value expireAt dt => exact (extends_reap env s key).trans (.setRef ..)
  | del key =>
    rw [applyOp_del]
    split
    · exact (extends_reap env s key).trans (.del ..)
    · exact extends_reap env s key

theorem extends_restoreKey (s : Db) (u : Undo) : s.Extends (s.restoreKey env u) := by
  rw [restoreKey]
  split
  · exact .refl s
  · cases u.prev with
    | none => exact .del s _ u.pk
    | some prev =>
      have hset := Extends.setRef s (s.derived.remove u.pk) u.pk prev.ref prev.expireAt prev.dt
      exact (hset.trans (extends_reap env _ u.pk)).trans (.derived ..)

theorem extends_rollback (s : Db) (undo : List Undo) : s.Extends (s.rollback env undo) :=
  fold_invariant (I := s.Extends) (fun t u h => h.trans (extends_restoreKey env t u)) (.refl s) _

theorem extends_publishWalRef (offset : Nat) (s : Db) (p : Publication) : s.Extends (publishWalRef offset s p) := by
  rw [publishWalRef]
  split
  · exact .refl s
  · split
    · exact .setRef s s.derived ..
    · exact .refl s

theorem extends_applyOps (s : Db) (ops : List (PreparedOp DtColumns)) : s.Extends (s.applyOps env ops).2 :=
  fold_invariant (I := fun p : JsMap Bytes (Option DbRecord) × Db => s.Extends p.2)
    (fun p op h => h.trans (extends_applyOp env p.2 op)) (.refl s) ops

theorem extends_writeRecovered (s : Db) (oldDoc : Option JsValue) (op : RecoveredOp DtColumns) :
    s.Extends (s.writeRecovered env oldDoc op) := by
  cases op with
  | del key =>
    rw [writeRecovered]
    split
    · exact .del ..
    · exact .refl s
  | set key ref expireAt dt =>
    have hset := (Extends.setRef s s.derived key ref expireAt dt).trans (extends_reap env _ key)
    rw [writeRecovered]
    split
    · exact hset
    · exact hset.trans (.derived ..)

theorem extends_applyRecoveredOp (s : Db) (op : RecoveredOp DtColumns) : s.Extends (s.applyRecoveredOp env op) := by
  rw [applyRecoveredOp]
  split
  · exact extends_writeRecovered env s none op
  · exact (extends_reap env s op.key).trans (extends_writeRecovered ..)

theorem extends_applyRecovered (s : Db) (fs : List BatchOpRef) : s.Extends (s.applyRecovered env fs) := by
  induction fs generalizing s with
  | nil => exact .refl s
  | cons f fs ih =>
    rw [applyRecovered]
    split
    · exact .refl s
    · rename_i ops _
      have hops : s.Extends (ops.foldl (applyRecoveredOp env) { s with reads := s.reads + 1 }) :=
        fold_invariant (I := s.Extends) (fun t op h => h.trans (extends_applyRecoveredOp env t op))
          ((Extends.refl s).read (Nat.le_succ _)) ops
      exact hops.trans (ih _)

theorem Extends.fileOf_eq {s s' : Db} (h : s.Extends s') : s'.fileOf = s.fileOf := by
  funext file
  cases file with
  | snapshot => exact h.snapshot_eq
  | wal => exact congrArg Wal.file h.wal_eq

theorem materialize_congr {s s' : Db} (h : s'.fileOf = s.fileOf) (ref : ValueRef) :
    s'.materialize ref = s.materialize ref := by
  cases ref with
  | memory value => rfl
  | disk loc => rw [materialize, materialize, h]

theorem docOf_congr {s s' : Db} (h : s'.fileOf = s.fileOf) (r : DbRecord) : s'.docOf env r = s.docOf env r :=
  congrArg env.decode (materialize_congr h r.ref)

/-- The place that a reference points at is in its file. -/
def Fits (s : Db) : ValueRef → Prop
  | .memory _ => True
  | .disk loc => (slice (s.fileOf loc.file) loc.off loc.len).length = loc.len

theorem fits_congr {s s' : Db} (h : s'.fileOf = s.fileOf) (ref : ValueRef) : s'.Fits ref ↔ s.Fits ref := by
  cases ref with
  | memory value => exact Iff.rfl
  | disk loc => rw [Fits, Fits, h]

theorem slice_grows (h : (slice file off len).length = len) : slice (file ++ more) off len = slice file off len := by
  by_cases hz : len = 0
  · rw [hz, slice_zero, slice_zero]
  · rw [slice, length_take, length_drop] at h
    exact slice_append_left (by omega)

theorem materialize_grows (s s' : Db) (hsnapshot : s'.snapshot = s.snapshot)
    (hfile : s'.wal.file = s.wal.file ++ more) (h : s.Fits ref) :
    s'.materialize ref = s.materialize ref ∧ s'.Fits ref := by
  cases ref with
  | memory value => exact ⟨rfl, trivial⟩
  | disk loc =>
    obtain ⟨file, off, len⟩ := loc
    cases file with
    | snapshot =>
      rw [materialize, Fits, fileOf, hsnapshot]
      exact ⟨rfl, h⟩
    | wal =>
      have hgrown : slice s'.wal.file off len = slice s.wal.file off len := by
        rw [hfile]
        exact slice_grows h
      exact ⟨hgrown, (congrArg length hgrown).trans h⟩

end Db

end Echadron.MiniDb
