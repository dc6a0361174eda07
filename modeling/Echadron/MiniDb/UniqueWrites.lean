import Echadron.MiniDb.DerivedRun
import Echadron.MiniDb.UniqueIndex

namespace Echadron.MiniDb
open Lib Lib.Bytes List Option

/-- A database whose writers take turns where an index is unique. -/
structure UniqueDb where
  db : Db
  /-- How many writers go on before the one that has the lock. -/
  holder : Option Nat := none
  /-- The writers whose promises are settled, but that did not go on yet. -/
  settled : List (Outcome × PendingWrite Commit) := []

/-- What can happen: a call that reaches its commit, the log, or a writer that goes on. -/
inductive UniqueEvent where
  | read (pk : Bytes)
  | reapExpired
  | set (key value : Bytes) (expireAt : JsInteger) (dt : Option DtColumns)
  | del (key : Bytes)
  | batch (ops : List (PreparedOp DtColumns))
  | expire (key : Bytes) (expireAt : JsInteger)
  | evictKey (pk : Bytes)
  | wal (e : WalEvent)
  | goOn

def Settlement.writers (settlement : Settlement Commit) : List (Outcome × PendingWrite Commit) :=
  settlement.batch.map fun w => (settlement.outcome, w)

namespace Db

variable (env : DbEnv)

def hasUniqueIndexes (s : Db) : Bool := s.derived.indexes.indexes.entries.any fun e => e.2.unique

/-- What an operation is to the check of a batch. -/
def opDoc (op : PreparedOp DtColumns) : Bytes × Option JsValue :=
  match op with
  | .set key value _ _ => (key, some (env.decode value))
  | .del key => (key, none)

/-- The checks that `set` and `batch` make before their frames are encoded. -/
def checkWrite (s : Db) (write : WalWrite DtColumns) : Except UniqueViolation Unit :=
  if s.derived.indexes.indexes.size = 0 then .ok ()
  else
    match write with
    | .single (.set key value _ _) =>
      if IndexManager.indexable (env.decode value) then
        s.derived.indexes.checkUnique env.rt key (env.decode value)
      else .ok ()
    | .single (.del _) => .ok ()
    | .batch ops => s.derived.indexes.checkUniqueBatch env.rt (ops.map (opDoc env))

/-- What a writer does once its promise is settled. -/
def goOn (s : Db) : Outcome → PendingWrite Commit → Db
  | .resolved, w => w.op.publications.foldl (publishWalRef w.offset) s
  | .rejected, w => s.rollback env w.op.undo

/-- A rollback takes the key back: nothing has changed it since the write. -/
def TakenBack (s : Db) (undo : List Undo) (k : Bytes) : Prop := ∃ u ∈ undo, u.pk = k ∧ s.seqOf k = u.appliedSeq

/-- No record that a rollback puts back has a value that another key holds by then, unless the
rollback takes that key back as well. -/
def PutBackFree (s : Db) (undo : List Undo) : Prop :=
  ∀ u ∈ undo, s.seqOf u.pk = u.appliedSeq → ∀ prev ∈ u.prev,
    isExpiredAt prev.expireAt (s.now env) = false → IndexManager.indexable (s.docOf env prev) = true →
      ∀ e ∈ s.derived.indexes.indexes.entries, e.2.unique = true →
        ∀ v ∈ e.2.valuesOf env.rt (s.docOf env prev), ∀ k ∈ e.2.holders v, k = u.pk ∨ s.TakenBack undo k

/-- The key has a record that readers see, with a document that is found under the value. -/
def LiveValue (s : Db) (name : String) (v : IndexedValue) (pk : Bytes) : Prop :=
  ∃ r, s.store.live (s.now env) pk = some r ∧ IndexManager.indexable (s.docOf env r) = true ∧
    s.derived.indexes.Gives env.rt name (s.docOf env r) v

/-- No two keys that readers see have a value of a unique index in common. -/
def IsUnique (s : Db) : Prop := ∀ name, Exclusive (s.LiveValue env name)

end Db

namespace UniqueDb

variable (env : DbEnv)

/-- The commit of `set` and `batch`; a call that does not get the lock waits. -/
def commitUnique (s : UniqueDb) (write : WalWrite DtColumns) : Option UniqueDb :=
  if s.db.hasUniqueIndexes && s.holder.isSome then none
  else
    match s.db.checkWrite env write with
    | .error _ => some s
    | .ok _ =>
      let db := s.db.commit env write
      let appended := decide (s.db.wal.pending.length < db.wal.pending.length)
      some { s with
        db := db
        holder := if s.db.hasUniqueIndexes && appended then some s.db.wal.pending.length else s.holder }

/-- Nothing else runs while there are writers that can go on. -/
def step (s : UniqueDb) (e : UniqueEvent) : Option UniqueDb :=
  match s.settled, e with
  | (outcome, w) :: rest, .goOn =>
    some
      { db := s.db.goOn env outcome w
        holder := s.holder.bind fun ahead => if ahead = 0 then none else some (ahead - 1)
        settled := rest }
  | [], .read pk => some { s with db := s.db.reap env pk }
  | [], .reapExpired => some { s with db := s.db.reapExpired env }
  | [], .set key value expireAt dt => s.commitUnique env (.single (.set key value expireAt dt))
  | [], .del key =>
    let db := s.db.reap env key
    if (db.store.map.get key).isSome then some { s with db := db.commit env (.single (.del key)) }
    else some { s with db := db }
  | [], .batch ops => if ops = [] then some s else s.commitUnique env (.batch ops)
  | [], .expire key expireAt => some { s with db := s.db.expire env key expireAt }
  | [], .evictKey pk =>
    if (s.db.store.map.get pk).isSome then some { s with db := s.db.commit env (.single (.del pk)) }
    else some s
  | [], .wal e =>
    (s.db.wal.event e).map fun (wal, settlement) =>
      { s with
        db := { s.db with wal := wal }
        settled := (settlement.map Settlement.writers).getD [] }
  | _, _ => none

/-- What the writer that goes on needs: published places that hold the values, and records put back
whose values are free. -/
def FreeToGoOn (s : UniqueDb) : UniqueEvent → Prop
  | .goOn =>
    match s.settled with
    | (.resolved, w) :: _ =>
      AlongFold (Db.publishWalRef w.offset) (Db.PublishSound w.offset) s.db w.op.publications
    | (.rejected, w) :: _ => s.db.PutBackFree env w.op.undo
    | [] => True
  | _ => True

end UniqueDb

namespace Db

variable (env : DbEnv) {s s' t : Db}

/-! The equality and range indexes are kept without a look at the other derived structures. -/

def Alike (s t : Db) : Prop := ∃ dt compound, t = { s with derived := ⟨s.derived.indexes, dt, compound⟩ }

theorem Alike.refl (s : Db) : s.Alike s := ⟨s.derived.dt, s.derived.compound, rfl⟩

section

variable (h : s.Alike t)
include h

theorem Alike.reapAt (now : JsInteger) (pk : Bytes) : (reapAt now s pk).Alike (reapAt now t pk) := by
  obtain ⟨dt, compound, rfl⟩ := h
  rw [reapAt, reapAt]
  dsimp only
  split
  · exact ⟨dt, compound, rfl⟩
  · split
    · exact ⟨dt.del pk, compound.remove pk, rfl⟩
    · exact ⟨dt, compound, rfl⟩

theorem Alike.read (n : Nat) : Alike { s with reads := n } { t with reads := n } := by
  obtain ⟨dt, compound, rfl⟩ := h
  exact ⟨dt, compound, rfl⟩

theorem Alike.reads_eq : t.reads = s.reads := by
  obtain ⟨dt, compound, rfl⟩ := h
  rfl

theorem Alike.store_eq : t.store = s.store := by
  obtain ⟨dt, compound, rfl⟩ := h
  rfl

theorem Alike.reap (pk : Bytes) : (s.reap env pk).Alike (t.reap env pk) := by
  rw [Db.reap, Db.reap, Db.now, Db.now, h.reads_eq]
  exact (h.reapAt _ pk).read _

theorem Alike.reapExpired : (s.reapExpired env).Alike (t.reapExpired env) := by
  rw [Db.reapExpired, Db.reapExpired, Db.now, Db.now, h.reads_eq, h.store_eq]
  have hall : Alike (s.store.map.keys.foldl (Db.reapAt (env.clock s.reads)) s)
      (s.store.map.keys.foldl (Db.reapAt (env.clock s.reads)) t) := by
    generalize s.store.map.keys = keys
    generalize env.clock s.reads = now
    induction keys generalizing s t with
    | nil => exact h
    | cons k keys ih => exact ih (h.reapAt now k)
  exact hall.read _

theorem Alike.applyOp (op : PreparedOp DtColumns) :
    (t.applyOp env op).1 = (s.applyOp env op).1 ∧ (s.applyOp env op).2.Alike (t.applyOp env op).2 := by
  have hreap := h.reap env op.key
  cases op with
  | set key value expireAt columns =>
    obtain ⟨dt, compound, ht⟩ := hreap
    rw [Db.applyOp, ht]
    exact ⟨rfl, _, _, rfl⟩
  | del key =>
    obtain ⟨dt, compound, ht⟩ := hreap
    rw [Db.applyOp, Db.applyOp, ht]
    refine ⟨rfl, ?_⟩
    split
    · exact ⟨_, _, rfl⟩
    · exact ⟨_, _, rfl⟩

theorem Alike.applyOps (ops : List (PreparedOp DtColumns)) : (t.applyOps env ops).1 = (s.applyOps env ops).1 ∧
      (s.applyOps env ops).2.Alike (t.applyOps env ops).2 := by
  induction ops using reverseRecOn with
  | nil => exact ⟨rfl, h⟩
  | append_singleton ops op ih =>
    obtain ⟨hprevs, halike⟩ := ih
    obtain ⟨hprev, halike'⟩ := halike.applyOp env op
    rw [applyOps_concat, applyOps_concat]
    exact ⟨by rw [hprevs, hprev], halike'⟩

theorem Alike.publicationsOf (write : WalWrite DtColumns) :
    t.publicationsOf env write = s.publicationsOf env write := by
  obtain ⟨dt, compound, rfl⟩ := h
  rfl

theorem Alike.seqOf (pk : Bytes) : t.seqOf pk = s.seqOf pk := by
  obtain ⟨dt, compound, rfl⟩ := h
  rfl

theorem Alike.append (frame : Bytes) (hopen : s.wal.closed = false)
    (hunsealed : s.wal.sealed = false) : (s.append env frame c).Alike (t.append env frame c) := by
  obtain ⟨dt, compound, rfl⟩ := h
  rw [append, append]
  cases hw : s.wal.appendLoc frame c with
  | none =>
    rw [Wal.appendLoc, hopen, hunsealed] at hw
    cases hw
  | some appended => exact ⟨dt, compound, rfl⟩

theorem Alike.commit (write : WalWrite DtColumns) (hopen : s.wal.closed = false)
    (hunsealed : s.wal.sealed = false) : (s.commit env write).Alike (t.commit env write) := by
  rw [Db.commit, Db.commit]
  cases write.encode env.codec with
  | error e => exact h
  | ok frame =>
    obtain ⟨hprevs, halike⟩ := h.applyOps env write.ops
    have hwal := (extends_applyOps env s write.ops).wal_eq
    dsimp only
    rw [hprevs, funext halike.seqOf, halike.publicationsOf]
    exact halike.append env frame (hwal ▸ hopen) (hwal ▸ hunsealed)

theorem Alike.expire (pk : Bytes) (expireAt : JsInteger) (hopen : s.wal.closed = false)
    (hunsealed : s.wal.sealed = false) : (s.expire env pk expireAt).Alike (t.expire env pk expireAt) := by
  have hreap := h.reap env pk
  have hwal := (extends_reap env s pk).wal_eq
  rw [Db.expire, Db.expire]
  generalize s.reap env pk = s₁ at hreap hwal
  obtain ⟨dt, compound, ht⟩ := hreap
  rw [ht]
  cases s₁.store.map.get pk with
  | none => exact ⟨dt, compound, rfl⟩
  | some cur =>
    dsimp only
    have hvalue : materialize { s₁ with derived := ⟨s₁.derived.indexes, dt, compound⟩ } cur.ref =
        s₁.materialize cur.ref := materialize_congr rfl cur.ref
    rw [hvalue]
    split
    · exact ⟨dt, compound, rfl⟩
    · apply Alike.append env _ _ (hwal ▸ hopen) (hwal ▸ hunsealed)
      exact ⟨dt, compound, rfl⟩

theorem Alike.publishWalRef (offset : Nat) (p : Publication) :
    (publishWalRef offset s p).Alike (publishWalRef offset t p) := by
  obtain ⟨dt, compound, rfl⟩ := h
  rw [publishWalRef, publishWalRef]
  dsimp only
  split
  · exact ⟨dt, compound, rfl⟩
  · split
    · exact ⟨dt, compound, rfl⟩
    · exact ⟨dt, compound, rfl⟩

theorem Alike.restoreKey (u : Undo) : (s.restoreKey env u).Alike (t.restoreKey env u) := by
  by_cases hseq : s.seqOf u.pk = u.appliedSeq
  · have hseq' : t.seqOf u.pk = u.appliedSeq := (h.seqOf u.pk).trans hseq
    rw [Db.restoreKey, if_neg (not_not_intro hseq), Db.restoreKey, if_neg (not_not_intro hseq')]
    obtain ⟨dt, compound, rfl⟩ := h
    cases u.prev with
    | none => exact ⟨dt.del u.pk, compound.remove u.pk, rfl⟩
    | some prev =>
      dsimp only
      have halike : Alike { s with
            derived := s.derived.remove u.pk
            store := s.store.setRef u.pk prev.ref prev.expireAt prev.dt }
          { s with
            derived := Derived.remove ⟨s.derived.indexes, dt, compound⟩ u.pk
            store := s.store.setRef u.pk prev.ref prev.expireAt prev.dt } :=
        ⟨dt.del u.pk, compound.remove u.pk, rfl⟩
      obtain ⟨dt', compound', ht⟩ := halike.reap env u.pk
      rw [ht]
      exact ⟨_, _, rfl⟩
  · have hseq' : t.seqOf u.pk ≠ u.appliedSeq := fun h' => hseq ((h.seqOf u.pk).symm.trans h')
    rw [restoreKey_skip env s u hseq, restoreKey_skip env t u hseq']
    exact h

end

def Indexed (s : Db) : Prop := ∃ t, s.Alike t ∧ Consistent env t

variable {env}

section

variable (h : Indexed env s)
include h

theorem Indexed.not_closed : s.wal.closed = false := by
  obtain ⟨t, ⟨dt, compound, rfl⟩, ht⟩ := h
  exact ht.not_closed

theorem Indexed.not_sealed : s.wal.sealed = false := by
  obtain ⟨t, ⟨dt, compound, rfl⟩, ht⟩ := h
  exact ht.not_sealed

theorem Indexed.fits (hr : s.store.map.get pk = some r) : s.Fits r.ref := by
  obtain ⟨t, ⟨dt, compound, rfl⟩, ht⟩ := h
  obtain ⟨v, htracked⟩ := ht.tracked
  exact (fits_congr rfl r.ref).mp (htracked.fits pk r hr)

theorem Indexed.undo_fits (hw : w ∈ s.wal.pending)
    (hu : u ∈ w.op.undo) {prev : DbRecord} (hprev : u.prev = some prev) : s.Fits prev.ref := by
  obtain ⟨t, ⟨dt, compound, rfl⟩, ht⟩ := h
  exact (fits_congr rfl prev.ref).mp (ht.undo_fits w hw u hu prev hprev)

theorem Indexed.publicationOk (hw : w ∈ s.wal.pending) (hp : p ∈ w.op.publications) : s.PublicationOk p := by
  obtain ⟨t, ⟨dt, compound, rfl⟩, ht⟩ := h
  exact (ht.publications w hw p hp).extends (.derived ..)

theorem Indexed.record (hfound : s.derived.indexes.Found name v pk) :
    ∃ r, s.store.map.get pk = some r ∧ IndexManager.indexable (s.docOf env r) = true ∧
      s.derived.indexes.Gives env.rt name (s.docOf env r) v := by
  obtain ⟨t, ⟨dt, compound, rfl⟩, ht⟩ := h
  obtain ⟨view, htracked⟩ := ht.tracked
  obtain ⟨doc, hdoc, hgives⟩ := (IndexManager.found_iff htracked.sync.indexes).mp hfound
  obtain ⟨hmap, hindexable⟩ := filter_eq_some_iff.mp hdoc
  obtain ⟨⟨doc', dt'⟩, hview, rfl⟩ := map_eq_some_iff.mp hmap
  rcases htracked.held pk with heq | ⟨hnone, _⟩
  · rw [hview] at heq
    obtain ⟨r, hr, he⟩ := map_eq_some_iff.mp heq.symm
    obtain ⟨rfl, _⟩ := Prod.mk.inj he
    exact ⟨r, hr, hindexable, hgives⟩
  · rw [hnone] at hview
    cases hview

theorem Indexed.found (hvalue : s.LiveValue env name v pk) : s.derived.indexes.Found name v pk := by
  obtain ⟨t, ⟨dt, compound, rfl⟩, ht⟩ := h
  obtain ⟨view, htracked⟩ := ht.tracked
  obtain ⟨r, hr, hindexable, hgives⟩ := hvalue
  obtain ⟨hr, hexp⟩ := live_some hr
  have hview : view pk = some (s.docOf env r, r.dt) := by
    rw [htracked.held_live]
    · exact congrArg (Option.map _) hr
    · rintro ⟨r', hr', hexp'⟩
      obtain rfl := mem_unique hr hr'
      exact Bool.false_ne_true (hexp.symm.trans hexp')
  apply (IndexManager.found_iff htracked.sync.indexes).mpr
  refine ⟨s.docOf env r, ?_, hgives⟩
  rw [hview]
  exact filter_some_pos hindexable

theorem Indexed.reap (pk : Bytes) : Indexed env (s.reap env pk) := by
  obtain ⟨t, halike, ht⟩ := h
  exact ⟨_, halike.reap env pk, ht.reap pk⟩

theorem Indexed.reapExpired : Indexed env (s.reapExpired env) := by
  obtain ⟨t, halike, ht⟩ := h
  exact ⟨_, halike.reapExpired env, ht.reapExpired⟩

theorem Indexed.commit (write : WalWrite DtColumns) : Indexed env (s.commit env write) := by
  have hopen := h.not_closed
  have hunsealed := h.not_sealed
  obtain ⟨t, halike, ht⟩ := h
  exact ⟨_, halike.commit env write hopen hunsealed, ht.commit write⟩

theorem Indexed.expire (pk : Bytes) (expireAt : JsInteger) : Indexed env (s.expire env pk expireAt) := by
  have hopen := h.not_closed
  have hunsealed := h.not_sealed
  obtain ⟨t, halike, ht⟩ := h
  exact ⟨_, halike.expire env pk expireAt hopen hunsealed, ht.expire pk expireAt⟩

theorem Indexed.walEvent (he : s.wal.event e = some (w, settlement)) : Indexed env { s with wal := w } := by
  obtain ⟨t, ⟨dt, compound, rfl⟩, ht⟩ := h
  obtain ⟨hclosed, hsealed, more, hfile⟩ := Wal.grows_event he
  refine ⟨{ s with wal := w, derived := ⟨s.derived.indexes, dt, compound⟩ }, ⟨dt, compound, rfl⟩, ?_⟩
  apply ht.grows hfile hclosed hsealed
  intro p hp
  rw [Wal.pending_event he]
  exact mem_append_right _ hp

theorem Indexed.publishWalRef (hok : s.PublicationOk p)
    (hsound : PublishSound offset s p) : Indexed env (publishWalRef offset s p) := by
  obtain ⟨t, ⟨dt, compound, rfl⟩, ht⟩ := h
  obtain ⟨v, htracked⟩ := ht.tracked
  refine ⟨_, Alike.publishWalRef ⟨dt, compound, rfl⟩ offset p, ?_⟩
  apply ht.extends (extends_publishWalRef ..)
  refine ⟨v, htracked.publishWalRef (hok.extends (.derived ..)) ?_⟩
  intro cur hcur hseq
  exact hsound cur hcur hseq

end

theorem Tracked.restoreExpired {view : Derived.View Bytes} (h : Tracked env s view)
    {prev : DbRecord} (hseq : s.seqOf u.pk = u.appliedSeq) (hprev : u.prev = some prev)
    (hexp : isExpiredAt prev.expireAt (s.now env) = true) : ∃ view', Tracked env
      { s.restoreKey env u with derived := (s.derived.remove u.pk).remove u.pk } view' := by
  have hext := extends_restoreKey env s u
  have hget : (s.restoreKey env u).store.map.get u.pk = none := by
    rw [restoreKey_get env s u hseq, if_pos rfl, hprev]
    exact filter_some_neg (by dsimp only; rw [hexp]; rfl)
  have hgone : Db.view env
      { s.restoreKey env u with derived := (s.derived.remove u.pk).remove u.pk } u.pk = none :=
    congrArg (Option.map _) hget
  refine ⟨_, h.change u.pk hext.fileOf_eq hext.reads_le ?_ ?_ ?_⟩
  · intro k hk
    exact (restoreKey_get env s u hseq k).trans (if_neg hk)
  · intro r hr
    cases hget.symm.trans hr
  · have htwice := (h.sync.remove u.pk).remove u.pk
    rw [Derived.View.set_set] at htwice
    rw [hgone]
    exact htwice

theorem Indexed.restoreKey (h : Indexed env s)
    (hfits : ∀ prev, u.prev = some prev → s.Fits prev.ref) : Indexed env (s.restoreKey env u) := by
  obtain ⟨t, halike, ht⟩ := h
  have hrestored := halike.restoreKey env u
  have hext := extends_restoreKey env t u
  obtain ⟨dt, compound, rfl⟩ := halike
  obtain ⟨view, htracked⟩ := ht.tracked
  have hfits' (prev : DbRecord) (hprev : u.prev = some prev) :
      Fits { s with derived := ⟨s.derived.indexes, dt, compound⟩ } prev.ref :=
    (fits_congr rfl prev.ref).mpr (hfits prev hprev)
  by_cases hlapsed : s.seqOf u.pk = u.appliedSeq ∧ ∃ prev, u.prev = some prev ∧
      isExpiredAt prev.expireAt (s.now env) = true
  · -- the columns that the expired record leaves behind are none of the indexes' business
    obtain ⟨hseq, prev, hprev, hexp⟩ := hlapsed
    obtain ⟨dt', compound', hrestored⟩ := hrestored
    obtain ⟨view', htracked'⟩ := htracked.restoreExpired hseq hprev hexp
    refine ⟨_, ?_, ht.extends (hext.trans (.derived ..)) ⟨view', htracked'⟩⟩
    have hderived := restoreKey_derived_expired env s hseq hprev hexp
    have hindexes : (s.restoreKey env u).derived.indexes = ((s.derived.indexes.remove u.pk).remove u.pk) := by
      rw [hderived]
      rfl
    rw [hrestored]
    refine ⟨(dt.del u.pk).del u.pk, (compound.remove u.pk).remove u.pk, ?_⟩
    rw [hindexes]
    rfl
  · refine ⟨_, hrestored, ht.extends hext (htracked.restoreKey ?_ hfits')⟩
    intro hseq prev hprev hexp
    exact absurd ⟨hseq, prev, hprev, hexp⟩ hlapsed

/-! Which keys an operation changes the indexes for. -/

theorem changes_reapAt (now : JsInteger) (s : Db) (pk : Bytes) :
    s.derived.indexes.Changes (· = pk) (reapAt now s pk).derived.indexes := by
  rw [reapAt]
  split
  · exact .refl ..
  · split
    · exact IndexManager.changes_remove ..
    · exact .refl ..

theorem changes_applyOp (env : DbEnv) (s : Db) (op : PreparedOp DtColumns) :
    s.derived.indexes.Changes (· = op.key) (s.applyOp env op).2.derived.indexes := by
  have hreap := changes_reapAt (s.now env) s op.key
  cases op with
  | set key value expireAt dt => exact hreap.trans (Derived.changes_put ..)
  | del key =>
    rw [applyOp_del]
    split
    · exact hreap.trans (Derived.changes_withoutOld ..)
    · exact hreap

theorem changes_applyOps (env : DbEnv) (s : Db) (ops : List (PreparedOp DtColumns)) :
    s.derived.indexes.Changes (fun k => k ∈ ops.map PreparedOp.key)
      (s.applyOps env ops).2.derived.indexes := by
  induction ops using reverseRecOn with
  | nil => exact .refl ..
  | append_singleton ops op ih =>
    rw [applyOps_concat, map_append]
    apply (ih.mono _).trans ((changes_applyOp env _ op).mono _)
    · exact fun k hk => mem_append_left _ hk
    · rintro k rfl
      exact mem_append_right _ (mem_singleton.mpr rfl)

theorem changes_restoreKey (env : DbEnv) (s : Db) (u : Undo) :
    s.derived.indexes.Changes (· = u.pk) (s.restoreKey env u).derived.indexes := by
  rw [restoreKey]
  split
  · exact .refl ..
  · have hremoved := IndexManager.changes_remove s.derived.indexes u.pk
    cases u.prev with
    | none => exact hremoved
    | some prev =>
      have hreap := changes_reapAt (s.now env)
        { s with
          derived := s.derived.remove u.pk
          store := s.store.setRef u.pk prev.ref prev.expireAt prev.dt } u.pk
      exact (hremoved.trans hreap).trans (Derived.changes_put ..)

theorem seqOf_restoreKey (env : DbEnv) (s : Db) (u : Undo) (hk : k ≠ u.pk) :
    (s.restoreKey env u).seqOf k = s.seqOf k := by
  by_cases hseq : s.seqOf u.pk = u.appliedSeq
  · rw [seqOf, restoreKey_get env s u hseq, if_neg hk]
    rfl
  · rw [restoreKey_skip env s u hseq]

theorem takenBack_restoreKey (env : DbEnv)
    (hu : u.pk ∉ undo.map Undo.pk) (h : (s.restoreKey env u).TakenBack undo k) :
    k ≠ u.pk ∧ s.TakenBack undo k := by
  obtain ⟨u', hu', rfl, hseq⟩ := h
  have hne : u'.pk ≠ u.pk := fun he => hu (he ▸ mem_map_of_mem hu')
  exact ⟨hne, u', hu', rfl, (seqOf_restoreKey env s u hne).symm.trans hseq⟩

theorem changes_rollback (env : DbEnv) (hnodup : (undo.map Undo.pk).Nodup) :
    s.derived.indexes.Changes (s.TakenBack undo) (s.rollback env undo).derived.indexes := by
  induction undo generalizing s with
  | nil => exact .refl ..
  | cons u undo ih =>
    obtain ⟨hu, hnodup⟩ := nodup_cons.mp hnodup
    have htaken (k : Bytes) (hk : (s.restoreKey env u).TakenBack undo k) : s.TakenBack (u :: undo) k := by
      obtain ⟨_, u', hu', hpk, hseq⟩ := takenBack_restoreKey env hu hk
      exact ⟨u', mem_cons_of_mem _ hu', hpk, hseq⟩
    have hfirst : s.derived.indexes.Changes (s.TakenBack (u :: undo))
        (s.restoreKey env u).derived.indexes := by
      by_cases hseq : s.seqOf u.pk = u.appliedSeq
      · apply (changes_restoreKey env s u).mono
        rintro k rfl
        exact ⟨u, mem_cons_self .., rfl, hseq⟩
      · rw [restoreKey_skip env s u hseq]
        exact .refl ..
    exact hfirst.trans ((ih hnodup).mono htaken)

theorem rollback_get (env : DbEnv) (hnodup : (undo.map Undo.pk).Nodup)
    (hr : (s.rollback env undo).store.map.get k = some r) :
    ¬ s.TakenBack undo k ∧ s.store.map.get k = some r ∨
      ∃ u ∈ undo, u.pk = k ∧ s.seqOf u.pk = u.appliedSeq ∧ ∃ prev, u.prev = some prev ∧
        r.ref = prev.ref ∧ isExpiredAt prev.expireAt (s.now env) = false := by
  induction undo generalizing s with
  | nil => exact .inl ⟨nofun, hr⟩
  | cons u undo ih =>
    obtain ⟨hu, hnodup⟩ := nodup_cons.mp hnodup
    rcases ih hnodup hr with ⟨hkept, hget⟩ | ⟨u', hu', rfl, hseq, prev, hprev, href, hexp⟩
    · by_cases hseq : s.seqOf u.pk = u.appliedSeq
      · rw [restoreKey_get env s u hseq] at hget
        split at hget
        · rename_i hk
          obtain ⟨hmap, hexp⟩ := filter_eq_some_iff.mp hget
          obtain ⟨prev, hprev, rfl⟩ := map_eq_some_iff.mp hmap
          exact .inr ⟨u, mem_cons_self .., hk.symm, hseq, prev, hprev, rfl, (Bool.not_eq_true' _).mp hexp⟩
        · rename_i hk
          refine .inl ⟨?_, hget⟩
          rintro ⟨u', hu', hpk, hseq'⟩
          rcases mem_cons.mp hu' with rfl | hu'
          · exact hk hpk.symm
          · exact hkept ⟨u', hu', hpk, (seqOf_restoreKey env s u hk).trans hseq'⟩
      · rw [restoreKey_skip env s u hseq] at hget hkept
        refine .inl ⟨?_, hget⟩
        rintro ⟨u', hu', hpk, hseq'⟩
        rcases mem_cons.mp hu' with rfl | hu'
        · exact hseq (hpk ▸ hseq')
        · exact hkept ⟨u', hu', hpk, hseq'⟩
    · have hne : u'.pk ≠ u.pk := fun he => hu (he ▸ mem_map_of_mem hu')
      refine .inr ⟨u', mem_cons_of_mem _ hu', rfl, (seqOf_restoreKey env s u hne).symm.trans hseq,
        prev, hprev, href, ?_⟩
      apply Bool.eq_false_iff.mpr
      intro hexp'
      have hmono := isExpiredAt_mono hexp' (env.clock_mono _ _ (extends_restoreKey env s u).reads_le)
      exact Bool.false_ne_true (hexp.symm.trans hmono)

end Db

end Echadron.MiniDb
