import Echadron.MiniDb.DerivedSync
import Echadron.MiniDb.QueryAgreement
import Mathlib.Data.Countable.Basic
import Mathlib.Data.Rat.Encodable
import Mathlib.Logic.Equiv.List

namespace Echadron.MiniDb
open Lib Lib.Bytes List Option

namespace Derived

theorem SameDefs.refl (d : Derived Bytes) : d.SameDefs d := ⟨.refl _, fun _ => rfl⟩

theorem SameDefs.symm {a b : Derived Bytes} (h : a.SameDefs b) : b.SameDefs a :=
  ⟨h.indexes.symm, fun name => (h.compound name).symm⟩

theorem SameDefs.trans {a b c : Derived Bytes} (h : a.SameDefs b) (h' : b.SameDefs c) : a.SameDefs c :=
  ⟨h.indexes.trans h'.indexes, fun name => (h.compound name).trans (h'.compound name)⟩

theorem sameDefs_remove (d : Derived Bytes) (pk : Bytes) : (d.remove pk).SameDefs d :=
  ⟨IndexManager.sameDefs_remove _ _, CompoundIndexManager.sameDefs_remove _ _⟩

end Derived

namespace Db

variable (env : DbEnv)

/-- Once expired records are dropped, the derived structures are those that are rebuilt from the
store. -/
def InStep (s : Db) : Prop := (s.reapExpired env).derived.Same (s.rebuildAllIndexes env)

theorem live_live (s s' : Db) (now : JsInteger) (pk : Bytes)
    (h : s'.store.map.get pk = s.store.live now pk) : s'.store.live now pk = s.store.live now pk := by
  rw [Store.live, h, Store.live, Option.filter_filter]
  simp only [Bool.and_self]

theorem reapAll_get (now : JsInteger) (pks : List Bytes) (s : Db) (k : Bytes) :
    (pks.foldl (reapAt now) s).store.map.get k =
      if k ∈ pks then s.store.live now k else s.store.map.get k := by
  induction pks generalizing s with
  | nil => rfl
  | cons pk pks ih =>
    rw [foldl_cons, ih, reapAt_get]
    by_cases hk : k = pk
    · subst hk
      rw [if_pos rfl, live_live s _ now k (by rw [reapAt_get, if_pos rfl]), ite_self]
      exact (if_pos (mem_cons_self ..)).symm
    · have hlive : (reapAt now s pk).store.live now k = s.store.live now k := by
        rw [Store.live, Store.live, reapAt_get, if_neg hk]
      rw [if_neg hk, hlive]
      simp only [mem_cons, hk, false_or]

theorem sameDefs_reapAt (now : JsInteger) (s : Db) (pk : Bytes) : (reapAt now s pk).derived.SameDefs s.derived := by
  rw [reapAt]
  split
  · exact .refl _
  · split
    · exact Derived.sameDefs_remove _ _
    · exact .refl _

theorem reads_reapAt (now : JsInteger) (s : Db) (pk : Bytes) : (reapAt now s pk).reads = s.reads := by
  rw [reapAt]
  split
  · rfl
  · split <;> rfl

theorem liveRecords_nodup (s : Db) : ((s.liveRecords env).map Prod.fst).Nodup := by
  rw [liveRecords, List.map_map]
  exact s.store.map.keys_nodup.sublist (filter_sublist.map _)

theorem liveRecords_view (s : Db) : Derived.View.ofEntries (s.liveRecords env) =
    fun pk => (s.store.live (s.now env) pk).map fun r => (s.docOf env r, r.dt) := by
  funext pk
  apply ext
  intro v
  rw [Derived.View.ofEntries_eq_some_iff (liveRecords_nodup env s), liveRecords, List.mem_map, map_eq_some_iff]
  constructor
  · rintro ⟨⟨k, r⟩, hr, he⟩
    obtain ⟨rfl, hv⟩ := Prod.mk.inj he
    obtain ⟨hmem, hlive⟩ := mem_filter.mp hr
    refine ⟨r, ?_, hv⟩
    exact filter_eq_some_iff.mpr ⟨(JsMap.mem_entries_iff ..).mp hmem, hlive⟩
  · rintro ⟨r, hr, hv⟩
    obtain ⟨hget, hlive⟩ := filter_eq_some_iff.mp hr
    exact ⟨(pk, r), mem_filter.mpr ⟨(JsMap.mem_entries_iff ..).mpr hget, hlive⟩, hv ▸ rfl⟩

variable {env} {s s' : Db} {v : Derived.View Bytes}

theorem Tracked.inStep (h : Tracked env s v) : InStep env s := by
  let t := s.store.map.keys.foldl (Db.reapAt (s.now env)) s
  have hfold : (∃ v', Tracked env t v') ∧ s.Extends t ∧ t.reads = s.reads ∧ t.derived.SameDefs s.derived := by
    apply fold_invariant (I := fun t : Db => (∃ v', Tracked env t v') ∧ s.Extends t ∧
      t.reads = s.reads ∧ t.derived.SameDefs s.derived)
    · rintro t pk ⟨⟨v', ht⟩, hext, hreads, hdefs⟩
      have hnow : s.now env = t.now env := congrArg env.clock hreads.symm
      rw [hnow]
      obtain ⟨v'', ht'', _⟩ := ht.reapAt pk
      exact ⟨⟨v'', ht''⟩, hext.trans (extends_reapAt _ t pk), (reads_reapAt _ t pk).trans hreads,
        (sameDefs_reapAt _ t pk).trans hdefs⟩
    · exact ⟨⟨v, h⟩, .refl s, rfl, .refl _⟩
  obtain ⟨⟨v', ht⟩, hext, hreads, hdefs⟩ := hfold
  have hget (k : Bytes) : t.store.map.get k = s.store.live (s.now env) k := by
    rw [reapAll_get]
    split
    · rfl
    · rename_i hk
      rw [Store.live, (JsMap.get_eq_none_iff _ _).mpr hk]
      rfl
  have hview : v' = Derived.View.ofEntries (s.liveRecords env) := by
    rw [liveRecords_view]
    funext pk
    have hheld : v' pk = t.view env pk := by
      apply ht.held_live
      rintro ⟨r, hr, hexp⟩
      rw [hget, Store.live] at hr
      have hnow : t.now env = s.now env := congrArg env.clock hreads
      rw [hnow] at hexp
      simp [hexp] at hr
    rw [hheld, view, hget]
    congr 1
    funext r
    rw [docOf_congr env hext.fileOf_eq]
  have hsync : t.derived.InSync env.rt v' := ht.sync
  rw [hview] at hsync
  have hrebuild := Derived.rebuild_inSync env.rt s.derived (liveRecords_nodup env s)
  exact hsync.same hrebuild (hdefs.trans (Derived.sameDefs_rebuild env.rt _ _).symm)

/-- The derived structures are in step, and what pending commits hold for later still applies. -/
structure Consistent (env : DbEnv) (s : Db) : Prop where
  tracked : ∃ v, Tracked env s v
  undo_fits : ∀ w ∈ s.wal.pending, ∀ u ∈ w.op.undo, ∀ prev, u.prev = some prev → s.Fits prev.ref
  publications : ∀ w ∈ s.wal.pending, ∀ p ∈ w.op.publications, s.PublicationOk p
  not_closed : s.wal.closed = false
  not_sealed : s.wal.sealed = false

theorem Consistent.extends (h : Consistent env s) (hext : s.Extends s')
    (htracked : ∃ v, Tracked env s' v) : Consistent env s' where
  tracked := htracked
  undo_fits w hw u hu prev hprev := by
    rw [hext.wal_eq] at hw
    exact (fits_congr hext.fileOf_eq prev.ref).mpr (h.undo_fits w hw u hu prev hprev)
  publications w hw p hp := by
    rw [hext.wal_eq] at hw
    exact (h.publications w hw p hp).extends hext
  not_closed := hext.wal_eq ▸ h.not_closed
  not_sealed := hext.wal_eq ▸ h.not_sealed

theorem Consistent.append (h : Consistent env s) (frame : Bytes)
    (hundo : ∀ u ∈ c.undo, ∀ prev, u.prev = some prev → s.Fits prev.ref)
    (hpublications : ∀ p ∈ c.publications, s.PublicationOk p) :
    Consistent env (s.append env frame c) := by
  rw [Db.append]
  cases hw : s.wal.appendLoc frame c with
  | none =>
    rw [Wal.appendLoc, h.not_closed, h.not_sealed] at hw
    cases hw
  | some appended =>
    obtain ⟨offset, wal⟩ := appended
    obtain ⟨rfl, _⟩ := Wal.pending_appendLoc hw
    obtain ⟨v, htracked⟩ := h.tracked
    have hmem (w : PendingWrite Commit) (hw : w ∈ s.wal.flightBatch ++ (s.wal.queue ++
        [{ buf := frame, offset := s.wal.nextOffset, op := c }])) :
        w ∈ s.wal.pending ∨ w.op = c := by
      rw [← append_assoc] at hw
      apply (mem_append.mp hw).imp_right
      exact fun hw => congrArg PendingWrite.op (mem_singleton.mp hw)
    constructor
    · exact ⟨v, htracked.sync, htracked.held, htracked.fits⟩
    · intro w hw u hu prev hprev
      rcases hmem w hw with hw | rfl
      · exact h.undo_fits w hw u hu prev hprev
      · exact hundo u hu prev hprev
    · intro w hw p hp
      rcases hmem w hw with hw | rfl
      · exact h.publications w hw p hp
      · exact hpublications p hp
    · exact h.not_closed
    · exact h.not_sealed

theorem live_some {now : JsInteger} (h : s.store.live now pk = some r) :
    s.store.map.get pk = some r ∧ isExpiredAt r.expireAt now = false := by
  obtain ⟨hr, hlive⟩ := filter_eq_some_iff.mp h
  exact ⟨hr, (Bool.not_eq_true' _).mp hlive⟩

theorem prevs_fit (htracked : ∃ v, Tracked env s v) (ops : List (PreparedOp DtColumns)) (pk : Bytes)
    (prev : DbRecord) (h : (s.applyOps env ops).1.get pk = some (some prev)) : s.Fits prev.ref := by
  have hfold : (∃ v, Tracked env (s.applyOps env ops).2 v) ∧ s.Extends (s.applyOps env ops).2 ∧
      ∀ pk prev, (s.applyOps env ops).1.get pk = some (some prev) → s.Fits prev.ref := by
    apply fold_invariant (I := fun p : JsMap Bytes (Option DbRecord) × Db =>
      (∃ v, Tracked env p.2 v) ∧ s.Extends p.2 ∧ ∀ pk prev, p.1.get pk = some (some prev) → s.Fits prev.ref)
    · rintro ⟨prevs, t⟩ op ⟨⟨v, ht⟩, hext, hprevs⟩
      refine ⟨ht.applyOp op, hext.trans (extends_applyOp env t op), ?_⟩
      intro pk prev hprev
      dsimp only at hprev
      split at hprev
      · exact hprevs pk prev hprev
      · rw [JsMap.get_set] at hprev
        split at hprev
        · rw [applyOp_prev] at hprev
          have hr := (live_some (some.inj hprev)).1
          exact (fits_congr hext.fileOf_eq prev.ref).mp (ht.fits op.key prev hr)
        · exact hprevs pk prev hprev
    · refine ⟨htracked, .refl s, ?_⟩
      intro pk prev hprev
      cases hprev
  exact hfold.2.2 pk prev h

theorem publicationsOf_ok (write : WalWrite DtColumns) (hframe : write.encode env.codec = .ok frame) :
    ∀ p ∈ (s.applyOps env write.ops).2.publicationsOf env write,
      (s.applyOps env write.ops).2.PublicationOk p := by
  intro p hp
  rw [publicationsOf] at hp
  split at hp
  · cases hp
  · obtain ⟨⟨pk, expireAt, dt, valueOff, valLen⟩, he, rfl⟩ := mem_map.mp hp
    obtain ⟨hops, hplaces⟩ := valueOffsets_spec hframe
    intro n hn
    obtain ⟨r, hr, rfl⟩ := map_eq_some_iff.mp hn
    rw [← hops] at hr ⊢
    obtain ⟨hle, value, href, hexp, hdt, hmem⟩ := lastSet_spec env s (write.valueOffsets env.codec) pk
      _ ((JsMap.mem_entries_iff ..).mp he) r hr
    refine ⟨hle, fun r' hr' _ => ?_⟩
    obtain rfl := mem_unique hr hr'
    refine ⟨hexp, hdt, ?_⟩
    rw [href]
    exact (hplaces _ hmem).1.symm

theorem Consistent.commit (h : Consistent env s) (write : WalWrite DtColumns) :
    Consistent env (s.commit env write) := by
  rw [Db.commit]
  cases hframe : write.encode env.codec with
  | error e => exact h
  | ok frame =>
    obtain ⟨v, htracked⟩ := h.tracked
    have happlied := h.extends (extends_applyOps env s write.ops) (htracked.applyOps write.ops)
    apply happlied.append frame
    · intro u hu prev hprev
      obtain ⟨⟨pk, p⟩, hp, rfl⟩ := mem_map.mp hu
      obtain rfl : p = some prev := hprev
      have hfits := prevs_fit ⟨v, htracked⟩ write.ops pk prev ((JsMap.mem_entries_iff ..).mp hp)
      exact (fits_congr (extends_applyOps env s write.ops).fileOf_eq prev.ref).mpr hfits
    · exact publicationsOf_ok write hframe

theorem Consistent.reap (h : Consistent env s) (pk : Bytes) : Consistent env (s.reap env pk) := by
  obtain ⟨v, htracked⟩ := h.tracked
  obtain ⟨v', htracked', _⟩ := htracked.reap pk
  exact h.extends (extends_reap env s pk) ⟨v', htracked'⟩

theorem Consistent.expire (h : Consistent env s) (pk : Bytes) (expireAt : JsInteger) :
    Consistent env (s.expire env pk expireAt) := by
  obtain ⟨v, htracked⟩ := h.tracked
  obtain ⟨v', htracked', hpk⟩ := htracked.reap pk
  have hreaped := h.reap pk
  rw [Db.expire]
  cases hcur : (s.reap env pk).store.map.get pk with
  | none => exact hreaped
  | some cur =>
    dsimp only
    cases WalWrite.encode env.codec
        (.single (.set pk ((s.reap env pk).materialize cur.ref) expireAt cur.dt)) with
    | error e => exact hreaped
    | ok frame =>
      have hset := hreaped.extends (.setRef ..) (htracked'.expireRef hcur hpk expireAt)
      have hget := Store.setRef_get_self (s.reap env pk).store pk
        (.memory ((s.reap env pk).materialize cur.ref)) expireAt cur.dt
      apply hset.append frame
      · intro u hu prev hprev
        obtain rfl := mem_singleton.mp hu
        cases hprev
        exact (fits_congr rfl cur.ref).mpr (htracked'.fits pk cur hcur)
      · intro p hp
        rw [publicationsOf] at hp
        split at hp
        · cases hp
        · obtain ⟨⟨k, e⟩, he, rfl⟩ := mem_map.mp hp
          rw [JsMap.mem_entries_iff] at he
          change (JsMap.set .empty pk _).get k = _ at he
          rw [JsMap.get_set] at he
          split at he
          · rename_i hk
            cases he
            subst hk
            intro n hn
            dsimp only [seqOf] at hn
            rw [hget] at hn
            cases hn
            refine ⟨le_refl _, fun r hr _ => ?_⟩
            obtain rfl := mem_unique hget hr
            exact ⟨rfl, rfl, rfl⟩
          · cases he

theorem Consistent.reapExpired (h : Consistent env s) : Consistent env (s.reapExpired env) := by
  have hfold : s.Extends (s.store.map.keys.foldl (reapAt (s.now env)) s) ∧
      (s.store.map.keys.foldl (reapAt (s.now env)) s).reads = s.reads ∧
      ∃ v, Tracked env (s.store.map.keys.foldl (reapAt (s.now env)) s) v := by
    apply fold_invariant (I := fun t : Db => s.Extends t ∧ t.reads = s.reads ∧ ∃ v, Tracked env t v)
    · rintro t pk ⟨hext, hreads, v, ht⟩
      have hnow : s.now env = t.now env := congrArg env.clock hreads.symm
      rw [hnow]
      obtain ⟨v', ht', _⟩ := ht.reapAt pk
      exact ⟨hext.trans (extends_reapAt _ t pk), (reads_reapAt _ t pk).trans hreads, v', ht'⟩
    · exact ⟨.refl s, rfl, h.tracked⟩
  obtain ⟨hext, hreads, v, ht⟩ := hfold
  exact h.extends (extends_reapExpired env s) ⟨v, ht.read (hreads ▸ Nat.le_succ _)⟩

/-- What the settling of a batch needs: published places that hold the values, and no columns in
restored records that are expired. -/
def SettleSound (env : DbEnv) (s : Db) : Settlement Commit → Prop
  | { outcome := .resolved, batch := batch } =>
    AlongFold (fun s (p : Nat × Publication) => publishWalRef p.1 s p.2)
      (fun s p => PublishSound p.1 s p.2) s
      (batch.flatMap fun w => w.op.publications.map (w.offset, ·))
  | { outcome := .rejected, batch := batch } =>
    AlongFold (Db.restoreKey env) (RestoreSound env) s (batch.flatMap fun w => w.op.undo)

theorem Consistent.settle (h : Consistent env s)
    (hundo : ∀ w ∈ settlement.batch, ∀ u ∈ w.op.undo, ∀ prev, u.prev = some prev → s.Fits prev.ref)
    (hpublications : ∀ w ∈ settlement.batch, ∀ p ∈ w.op.publications, s.PublicationOk p)
    (hsound : SettleSound env s settlement) : Consistent env (s.settle env settlement) := by
  obtain ⟨outcome, batch⟩ := settlement
  cases outcome with
  | resolved =>
    have hall := hsound.and_forall (Q := fun p => s.PublicationOk p.2) (by
      intro p hp
      obtain ⟨w, hw, hp⟩ := mem_flatMap.mp hp
      obtain ⟨q, hq, rfl⟩ := mem_map.mp hp
      exact hpublications w hw q hq)
    have hfold := hall.invariant (I := fun t => s.Extends t ∧ ∃ v, Tracked env t v) (by
      rintro t p ⟨hext, v, ht⟩ ⟨hsound, hok⟩
      exact ⟨hext.trans (extends_publishWalRef p.1 t p.2),
        v, ht.publishWalRef (hok.extends hext) hsound⟩) ⟨.refl s, h.tracked⟩
    have hsettle : s.settle env { outcome := .resolved, batch := batch } =
        (batch.flatMap fun w => w.op.publications.map (w.offset, ·)).foldl
          (fun s p => publishWalRef p.1 s p.2) s := by
      rw [Db.settle, foldl_flatMap]
      simp only [foldl_map]
    rw [hsettle]
    exact h.extends hfold.1 hfold.2
  | rejected =>
    have hall := hsound.and_forall (Q := fun u => ∀ prev, u.prev = some prev → s.Fits prev.ref) (by
      intro u hu
      obtain ⟨w, hw, hu⟩ := mem_flatMap.mp hu
      exact hundo w hw u hu)
    have hfold := hall.invariant (I := fun t => s.Extends t ∧ ∃ v, Tracked env t v) (by
      rintro t u ⟨hext, v, ht⟩ ⟨hsound, hfits⟩
      refine ⟨hext.trans (extends_restoreKey env t u), ht.restoreKey hsound ?_⟩
      exact fun prev hprev => (fits_congr hext.fileOf_eq prev.ref).mpr (hfits prev hprev))
      ⟨.refl s, h.tracked⟩
    have hsettle : s.settle env { outcome := .rejected, batch := batch } =
        (batch.flatMap fun w => w.op.undo).foldl (restoreKey env) s := by
      rw [foldl_flatMap]
      rfl
    rw [hsettle]
    exact h.extends hfold.1 hfold.2

theorem Consistent.grows (h : Consistent env s) (hfile : w.file = s.wal.file ++ more)
    (hclosed : w.closed = s.wal.closed) (hsealed : w.sealed = s.wal.sealed)
    (hpending : ∀ p ∈ w.pending, p ∈ s.wal.pending) : Consistent env { s with wal := w } := by
  obtain ⟨v, htracked⟩ := h.tracked
  constructor
  · exact ⟨v, htracked.grows hfile⟩
  · intro p hp u hu prev hprev
    have hfits := h.undo_fits p (hpending p hp) u hu prev hprev
    exact (materialize_grows s { s with wal := w } rfl hfile hfits).2
  · intro p hp q hq
    exact (h.publications p (hpending p hp) q hq).grows htracked.fits hfile
  · exact hclosed.trans h.not_closed
  · exact hsealed.trans h.not_sealed

end Db

/-- A database directory as it is opened: what is in the store refers to values in the files. -/
structure Opened where
  store : Store DtColumns
  snapshot : Bytes
  wal : Bytes
  fits : ∀ pk r, store.map.get pk = some r →
    Db.Fits { store := store, snapshot := snapshot, wal := .init .everysec wal } r.ref

namespace Db

variable (env : DbEnv)

/-- The end of `open`: the log is open, and the indexes are built from the store. Of `defs` only the
declared indexes matter. -/
def opened (o : Opened) (policy : FsyncPolicy) (defs : Derived Bytes) : Db :=
  let s : Db := { store := o.store, derived := defs, snapshot := o.snapshot, wal := .init policy o.wal }
  { s with derived := s.rebuildAllIndexes env, reads := 1 }

/-- The document that a reader gets. -/
def liveDoc (s : Db) (pk : Bytes) : Option JsValue := (s.store.live (s.now env) pk).map (s.docOf env)

/-- A query with no more than a filter, its reads at one reading of the clock. -/
def query (s : Db) (filter : JsValue) : Except String (List (Bytes × JsValue)) :=
  (indexedCandidateKeys env.rt s.derived.indexes filter).map fun keys =>
    (keys.getD (s.store.map.keys.insertionSort (· ≤ ·))).filterMap fun pk =>
      (s.liveDoc env pk).bind fun doc => if matchesFilter env.rt doc filter then some (pk, doc) else none

def Sound (s : Db) : DbEvent → Prop
  | .write (.wal e) =>
    match s.wal.event e with
    | some (wal, some settlement) => SettleSound env { s with wal := wal } settlement
    | _ => True
  | _ => True

variable {env}

theorem consistent_opened (o : Opened) (policy : FsyncPolicy) (defs : Derived Bytes) :
    Consistent env (opened env o policy defs) := by
  let s : Db := { store := o.store, derived := defs, snapshot := o.snapshot, wal := .init policy o.wal }
  refine ⟨⟨Derived.View.ofEntries (s.liveRecords env), ?_, ?_, ?_⟩, nofun, nofun, rfl, rfl⟩
  · exact Derived.rebuild_inSync env.rt defs (liveRecords_nodup env s)
  · intro pk
    rw [liveRecords_view]
    cases hr : o.store.map.get pk with
    | none =>
      have hlive : o.store.live (s.now env) pk = none := by
        rw [Store.live, hr]
        rfl
      left
      show (o.store.live (s.now env) pk).map _ = (o.store.map.get pk).map _
      rw [hlive, hr]
      rfl
    | some r =>
      cases hexp : isExpiredAt r.expireAt (s.now env) with
      | true =>
        have hlive : o.store.live (s.now env) pk = none := by
          rw [Store.live, hr]
          exact filter_some_neg (by rw [hexp]; rfl)
        right
        refine ⟨?_, r, hr, isExpiredAt_mono hexp (env.clock_mono 0 1 (Nat.zero_le 1))⟩
        show (o.store.live (s.now env) pk).map _ = _
        rw [hlive]
        rfl
      | false =>
        have hlive : o.store.live (s.now env) pk = some r := by
          rw [Store.live, hr]
          exact filter_some_pos (by rw [hexp]; rfl)
        left
        show (o.store.live (s.now env) pk).map _ = (o.store.map.get pk).map _
        rw [hlive, hr]
        exact congrArg (fun d => some (env.decode d, r.dt)) (by cases r.ref <;> rfl)
  · intro pk r hr
    have hfits := o.fits pk r hr
    cases href : r.ref with
    | memory value => trivial
    | disk loc =>
      rw [href] at hfits
      obtain ⟨file, off, len⟩ := loc
      cases file <;> exact hfits

theorem Consistent.step (h : Consistent env s) (hsound : Sound env s e)
    (hs : s.step env e = some s') : Consistent env s' := by
  cases e with
  | write e =>
    cases e with
    | read pk =>
      cases hs
      exact h.reap pk
    | reapExpired =>
      cases hs
      exact h.reapExpired
    | commit write =>
      cases hs
      exact h.commit write
    | expire pk expireAt =>
      cases hs
      exact h.expire pk expireAt
    | wal e =>
      obtain ⟨⟨wal, settlement⟩, he, rfl⟩ := map_eq_some_iff.mp hs
      have hpending := Wal.pending_event he
      obtain ⟨hclosed, hsealed, more, hfile⟩ := Wal.grows_event he
      have hgrown := h.grows hfile hclosed hsealed (by
        intro p hp
        rw [hpending]
        exact mem_append_right _ hp)
      cases settlement with
      | none => exact hgrown
      | some settlement =>
        dsimp only [Sound] at hsound
        rw [he] at hsound
        have hbatch (w : PendingWrite Commit) (hw : w ∈ settlement.batch) : w ∈ s.wal.pending := by
          rw [hpending]
          exact mem_append_left _ hw
        obtain ⟨v, htracked⟩ := h.tracked
        apply hgrown.settle _ _ hsound
        · intro w hw u hu prev hprev
          have hfits := h.undo_fits w (hbatch w hw) u hu prev hprev
          exact (materialize_grows s { s with wal := wal } rfl hfile hfits).2
        · intro w hw p hp
          exact (h.publications w (hbatch w hw) p hp).grows htracked.fits hfile
  | logGrows bytes =>
    cases hs
    exact h.grows rfl rfl rfl fun _ hp => hp
  | catchUp offset =>
    cases hs
    obtain ⟨v, htracked⟩ := h.tracked
    exact h.extends (extends_applyRecovered env s _) (htracked.catchUpFromWal offset)

/-- In every state that a run reaches, the derived structures are in step with the store, if what
its settled batches need holds. -/
theorem run_inStep (o : Opened) (policy : FsyncPolicy) (defs : Derived Bytes) (events : List DbEvent)
    (s : Db) (hrun : events.foldlM (step env) (opened env o policy defs) = some s)
    (hsound : AlongRun (step env) (Sound env) (opened env o policy defs) events) : InStep env s := by
  have hconsistent := hsound.invariant (I := Consistent env) (fun s e s' h hsound hs => h.step hsound hs)
    (consistent_opened o policy defs) hrun
  obtain ⟨v, htracked⟩ := hconsistent.tracked
  exact htracked.inStep

theorem Tracked.doc_of_live (h : Tracked env s v) (hdoc : s.liveDoc env pk = some doc) :
    pk ∈ s.store.map.keys ∧ (v pk).map Prod.fst = some doc := by
  obtain ⟨r, hlive, rfl⟩ := map_eq_some_iff.mp hdoc
  obtain ⟨hr, hexp⟩ := live_some hlive
  refine ⟨(JsMap.mem_keys_iff _ _).mpr ⟨r, hr⟩, ?_⟩
  rw [h.held_live, view, hr]
  · rfl
  · rintro ⟨r', hr', hexp'⟩
    obtain rfl := mem_unique hr hr'
    rw [hexp] at hexp'
    cases hexp'

end Db

instance countable_string : Countable String := by
  have hchar : Countable Char := by
    apply Function.Injective.countable (f := Char.toNat)
    intro a b h
    exact Char.ext (UInt32.toNat_inj.mp h)
  apply Function.Injective.countable (f := String.toList)
  intro a b h
  exact String.toList_injective h

instance countable_dtColumns : Countable DtColumns := by
  apply Function.Injective.countable (f := JsMap.slots)
  rintro ⟨a, _⟩ ⟨b, _⟩ h
  obtain rfl : a = b := h
  rfl

/-- Some text for each set of columns. -/
noncomputable def exampleCodec : MetaCodec DtColumns :=
  have := Encodable.ofCountable DtColumns
  { stringify := fun dt => List.replicate (Encodable.encode dt + 1) 0
    parse := fun bytes => .ok (Encodable.decode (bytes.length - 1))
    parse_stringify := by
      intro dt
      rw [length_replicate, Nat.add_sub_cancel, Encodable.encodek]
    stringify_ne_nil := by
      intro dt h
      cases h }

def nullText : Bytes := [110, 117, 108, 108]

def exampleKey : Bytes := [107]

/-- Time passes after the second reading. -/
noncomputable def exampleEnv : DbEnv where
  rt := exampleRuntime
  codec := exampleCodec
  decode bytes := if bytes = nullText then .null else .undefined
  clock n := if n ≤ 1 then 100 else 200
  clock_mono := by
    intro m n hle
    split
    · split <;> decide
    · rw [if_neg (by omega)]
      decide

def exampleOpened (expireAt : JsInteger) : Opened where
  store :=
    { map := JsMap.empty.set exampleKey
        { ref := .memory nullText, expireAt := expireAt, seq := 1, dt := some (JsMap.empty.set "a" 1) }
      seq := 1 }
  snapshot := []
  wal := []
  fits := by
    intro pk r hr
    rw [JsMap.get_set] at hr
    split at hr
    · obtain rfl := Option.some.inj hr
      trivial
    · cases hr

namespace Db

def failedOverwrite : List DbEvent :=
  [.write (.commit (.single (.set exampleKey nullText 0 none))), .write (.wal .flushBatch),
    .write (.wal .writeFailed)]

/-- The record is expired by the time it is restored; its columns stay behind. -/
theorem failedOverwrite_columns : ¬ ∀ (env : DbEnv) (o : Opened) (policy : FsyncPolicy)
    (defs : Derived Bytes) (events : List DbEvent) (s : Db),
    events.foldlM (step env) (opened env o policy defs) = some s → InStep env s := by
  intro h
  have hrun : (failedOverwrite.foldlM (step exampleEnv)
      (opened exampleEnv (exampleOpened 150) .everysec {})).map (fun s =>
        (((s.reapExpired exampleEnv).derived.dt.byKey.get exampleKey).isSome,
          ((s.rebuildAllIndexes exampleEnv).dt.byKey.get exampleKey).isSome)) =
      some (true, false) := by decide +kernel
  obtain ⟨s, hs, hcolumns⟩ := map_eq_some_iff.mp hrun
  have hstep := h exampleEnv (exampleOpened 150) .everysec {} failedOverwrite s hs
  have hsame := congrArg isSome (hstep.dt.2 exampleKey)
  rw [(Prod.mk.inj hcolumns).1, (Prod.mk.inj hcolumns).2] at hsame
  cases hsame

instance (env : DbEnv) (s : Db) (u : Undo) : Decidable (RestoreSound env s u) :=
  inferInstanceAs (Decidable (s.seqOf u.pk = u.appliedSeq → ∀ prev ∈ u.prev,
    isExpiredAt prev.expireAt (s.now env) = true → DtIndex.normalized prev.dt = none))

instance (offset : Nat) (s : Db) (p : Publication) : Decidable (PublishSound offset s p) :=
  inferInstanceAs (Decidable (∀ cur ∈ s.store.map.get p.pk, some cur.seq = p.seq →
    slice s.wal.file (offset + p.valueOff) p.valLen = s.materialize cur.ref))

instance (env : DbEnv) (s : Db) (settlement : Settlement Commit) : Decidable (SettleSound env s settlement) :=
  match settlement with
  | { outcome := .resolved, batch := batch } =>
    inferInstanceAs (Decidable (AlongFold (fun s (p : Nat × Publication) => publishWalRef p.1 s p.2)
      (fun s p => PublishSound p.1 s p.2) s
      (batch.flatMap fun w => w.op.publications.map (w.offset, ·))))
  | { outcome := .rejected, batch := batch } =>
    inferInstanceAs (Decidable (AlongFold (Db.restoreKey env) (RestoreSound env) s
      (batch.flatMap fun w => w.op.undo)))

instance (env : DbEnv) (s : Db) (e : DbEvent) : Decidable (Sound env s e) := by
  rw [Sound.eq_def]
  split
  · split <;> infer_instance
  · infer_instance

/-- The same failure, over a record that lives on. -/
theorem run_inStep_live :
    ∃ s, failedOverwrite.foldlM (step exampleEnv) (opened exampleEnv (exampleOpened 0) .everysec {}) =
      some s ∧ InStep exampleEnv s := by
  have hsome : (failedOverwrite.foldlM (step exampleEnv)
      (opened exampleEnv (exampleOpened 0) .everysec {})).isSome = true := by decide +kernel
  obtain ⟨s, hs⟩ := isSome_iff_exists.mp hsome
  exact ⟨s, hs, run_inStep (exampleOpened 0) .everysec {} failedOverwrite s hs (by decide +kernel)⟩

end Db

end Echadron.MiniDb
