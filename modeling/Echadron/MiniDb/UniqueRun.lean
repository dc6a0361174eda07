import Echadron.MiniDb.UniqueWrites

namespace Echadron.MiniDb
open Lib Lib.Bytes List Option

namespace Db

variable {env : DbEnv} {s s' t : Db}

/-! Operations that drop records leave the unique indexes exclusive. -/

theorem gives_of_changes {keys : Bytes → Prop} (h : s.derived.indexes.Changes keys s'.derived.indexes)
    (hfile : s'.fileOf = s.fileOf)
    (hgives : s'.derived.indexes.Gives env.rt name (s'.docOf env r) v) :
    s.derived.indexes.Gives env.rt name (s.docOf env r) v := by
  rw [docOf_congr env hfile] at hgives
  exact hgives.sameDefs h.defs.symm

theorem exclusive_of_dropped (h : Indexed env s) (h' : Indexed env s')
    (hexcl : s.derived.indexes.IsExclusive) {keys : Bytes → Prop}
    (hchanges : s.derived.indexes.Changes keys s'.derived.indexes) (hfile : s'.fileOf = s.fileOf)
    (hlive : ∀ k, keys k → ∀ r, s'.store.map.get k = some r → s.store.live (s.now env) k = some r) :
    s'.derived.indexes.IsExclusive := by
  have hfound (name : String) (v : IndexedValue) (k : Bytes) (hk : keys k)
      (hf : s'.derived.indexes.Found name v k) : s.derived.indexes.Found name v k := by
    obtain ⟨r, hr, hindexable, hgives⟩ := h'.record hf
    apply h.found
    refine ⟨r, hlive k hk r hr, ?_, gives_of_changes hchanges hfile hgives⟩
    rw [← docOf_congr env hfile]
    exact hindexable
  apply hchanges.exclusive hexcl
  · intro name v a b ha hb hfa hfb
    exact hexcl name v a b (hfound name v a ha hfa) (hfound name v b hb hfb)
  · intro name v a b ha hb hfa hfb
    obtain rfl := hexcl name v a b (hfound name v a ha hfa) hfb
    exact hb ha

theorem exclusive_reap (h : Indexed env s) (hexcl : s.derived.indexes.IsExclusive) (pk : Bytes) :
    (s.reap env pk).derived.indexes.IsExclusive := by
  apply exclusive_of_dropped h (h.reap pk) hexcl (changes_reapAt (s.now env) s pk)
    (extends_reap env s pk).fileOf_eq
  rintro k rfl r hr
  rwa [reap_get, if_pos rfl] at hr

theorem exclusive_reapExpired (h : Indexed env s) (hexcl : s.derived.indexes.IsExclusive) :
    (s.reapExpired env).derived.indexes.IsExclusive := by
  have hchanges : s.derived.indexes.Changes (fun _ => True) (s.reapExpired env).derived.indexes := by
    apply fold_invariant (I := fun t : Db => s.derived.indexes.Changes (fun _ => True) t.derived.indexes)
    · intro t k ht
      exact ht.trans ((changes_reapAt _ t k).mono fun _ _ => trivial)
    · exact .refl ..
  apply exclusive_of_dropped h h.reapExpired hexcl hchanges (extends_reapExpired env s).fileOf_eq
  intro k _ r hr
  have hget : (s.reapExpired env).store.map.get k = _ := reapAll_get (s.now env) s.store.map.keys s k
  rw [hget] at hr
  split at hr
  · exact hr
  · rename_i hk
    rw [(JsMap.get_eq_none_iff _ _).mpr hk] at hr
    cases hr

/-! Operations that pass the checks leave the unique indexes exclusive. -/

/-- The documents that the operations leave have no value in common, nor one of another key. -/
structure OpsFree (env : DbEnv) (s : Db) (ops : List (PreparedOp DtColumns)) : Prop where
  new : ∀ name v a b doc doc', (IndexManager.lastOps (ops.map (opDoc env))).get a = some (some doc) →
    (IndexManager.lastOps (ops.map (opDoc env))).get b = some (some doc') →
    IndexManager.indexable doc = true → IndexManager.indexable doc' = true →
    s.derived.indexes.Gives env.rt name doc v → s.derived.indexes.Gives env.rt name doc' v → a = b
  others : ∀ name v a b doc, (IndexManager.lastOps (ops.map (opDoc env))).get a = some (some doc) →
    IndexManager.indexable doc = true → s.derived.indexes.Gives env.rt name doc v →
    b ∉ ops.map PreparedOp.key → ¬ s.derived.indexes.Found name v b

theorem opDoc_fst (env : DbEnv) (op : PreparedOp DtColumns) : (opDoc env op).1 = op.key := by
  cases op <;> rfl

theorem map_opDoc_fst (env : DbEnv) (ops : List (PreparedOp DtColumns)) :
    (ops.map (opDoc env)).map Prod.fst = ops.map PreparedOp.key := by
  rw [List.map_map]
  exact map_congr_left fun op _ => opDoc_fst env op

theorem applyOps_get_of_not_mem (env : DbEnv) (s : Db)
    (hk : k ∉ ops.map PreparedOp.key) : (s.applyOps env ops).2.store.map.get k = s.store.map.get k := by
  induction ops using reverseRecOn with
  | nil => rfl
  | append_singleton ops op ih =>
    rw [map_append, mem_append, not_or] at hk
    rw [applyOps_concat, applyOp_get, if_neg fun he => hk.2 (mem_singleton.mpr he)]
    exact ih hk.1

theorem applyOps_last (env : DbEnv) (s : Db)
    (hk : k ∈ ops.map PreparedOp.key) (hr : (s.applyOps env ops).2.store.map.get k = some r) :
    ∃ value, r.ref = .memory value ∧
      (IndexManager.lastOps (ops.map (opDoc env))).get k = some (some (env.decode value)) := by
  induction ops using reverseRecOn with
  | nil => cases hk
  | append_singleton ops op ih =>
    rw [applyOps_concat, applyOp_get] at hr
    rw [map_append, map_singleton, IndexManager.lastOps_concat, JsMap.get_set, opDoc_fst]
    split at hr
    · rename_i he
      rw [if_pos he]
      cases op with
      | set key value expireAt dt =>
        cases hr
        exact ⟨value, rfl, rfl⟩
      | del key => cases hr
    · rename_i he
      rw [if_neg he]
      rw [map_append, mem_append] at hk
      exact ih (hk.resolve_right fun hk => he (mem_singleton.mp hk)) hr

theorem exclusive_applyOps (hexcl : s.derived.indexes.IsExclusive)
    (h' : Indexed env (s.applyOps env ops).2) (hfree : s.OpsFree env ops) :
    (s.applyOps env ops).2.derived.indexes.IsExclusive := by
  have hchanges := changes_applyOps env s ops
  have hfile := (extends_applyOps env s ops).fileOf_eq
  have hfound (name : String) (v : IndexedValue) (k : Bytes) (hk : k ∈ ops.map PreparedOp.key)
      (hf : (s.applyOps env ops).2.derived.indexes.Found name v k) :
      ∃ doc, (IndexManager.lastOps (ops.map (opDoc env))).get k = some (some doc) ∧
        IndexManager.indexable doc = true ∧ s.derived.indexes.Gives env.rt name doc v := by
    obtain ⟨r, hr, hindexable, hgives⟩ := h'.record hf
    obtain ⟨value, href, hlast⟩ := applyOps_last env s hk hr
    have hdoc : s.docOf env r = env.decode value := by
      rw [docOf, href]
      rfl
    rw [docOf_congr env hfile, hdoc] at hindexable
    have hgives := gives_of_changes hchanges hfile hgives
    rw [hdoc] at hgives
    exact ⟨_, hlast, hindexable, hgives⟩
  apply hchanges.exclusive hexcl
  · intro name v a b ha hb hfa hfb
    obtain ⟨doc, hlast, hindexable, hgives⟩ := hfound name v a ha hfa
    obtain ⟨doc', hlast', hindexable', hgives'⟩ := hfound name v b hb hfb
    exact hfree.new name v a b doc doc' hlast hlast' hindexable hindexable' hgives hgives'
  · intro name v a b ha hb hfa
    obtain ⟨doc, hlast, hindexable, hgives⟩ := hfound name v a ha hfa
    exact hfree.others name v a b doc hlast hindexable hgives hb

theorem Indexed.inSync (h : Indexed env s) : ∃ docOf, s.derived.indexes.InSync env.rt docOf := by
  obtain ⟨t, ⟨dt, compound, rfl⟩, ht⟩ := h
  obtain ⟨v, htracked⟩ := ht.tracked
  exact ⟨_, htracked.sync.indexes⟩

theorem get_lastOps_single (o : Bytes × Option JsValue)
    (h : (IndexManager.lastOps [o]).get k = some (some doc)) : k = o.1 ∧ o.2 = some doc := by
  change (JsMap.set .empty o.1 o.2).get k = _ at h
  rw [JsMap.get_set] at h
  split at h
  · rename_i hk
    exact ⟨hk, some.inj h⟩
  · cases h

theorem opsFree_set (hexcl : s.derived.indexes.IsExclusive)
    (hcheck : IndexManager.indexable (env.decode value) = true →
      s.derived.indexes.checkUnique env.rt key (env.decode value) = .ok ())
    (expireAt : JsInteger) (dt : Option DtColumns) : s.OpsFree env [.set key value expireAt dt] where
  new name v a b doc doc' ha hb _ _ _ _ := (get_lastOps_single _ ha).1.trans (get_lastOps_single _ hb).1.symm
  others name v a b doc ha hindexable hgives hb hfound := by
    obtain ⟨rfl, hdoc⟩ := get_lastOps_single _ ha
    cases hdoc
    have hsame := IndexManager.checkUnique_ok hexcl (hcheck hindexable) hgives hfound
    exact hb (mem_singleton.mpr hsame)

theorem opsFree_del (env : DbEnv) (s : Db) (key : Bytes) : s.OpsFree env [.del key] where
  new name v a b doc doc' ha := by cases (get_lastOps_single _ ha).2
  others name v a b doc ha := by cases (get_lastOps_single _ ha).2

theorem opsFree_batch (h : Indexed env s) (hexcl : s.derived.indexes.IsExclusive)
    (hcheck : s.derived.indexes.checkUniqueBatch env.rt (ops.map (opDoc env)) = .ok ()) :
    s.OpsFree env ops := by
  obtain ⟨docOf, hsync⟩ := h.inSync
  have howners := IndexManager.checkUniqueBatch_ok hsync hexcl hcheck
  constructor
  · intro name v a b doc doc' ha hb _ _ hgives hgives'
    obtain ⟨owner, _, hnew⟩ := howners name
    exact mem_unique (hnew v a doc ha hgives) (hnew v b doc' hb hgives')
  · intro name v a b doc ha _ hgives hb hfound
    obtain ⟨owner, hothers, hnew⟩ := howners name
    have hkeys (k : Bytes) : k ∈ (IndexManager.lastOps (ops.map (opDoc env))).keys ↔
        k ∈ ops.map PreparedOp.key := by
      rw [IndexManager.mem_keys_lastOps, map_opDoc_fst]
    have hfree : (IndexManager.lastOps (ops.map (opDoc env))).has b = false := by
      rw [Bool.eq_false_iff, Ne, JsMap.has_iff, hkeys]
      exact hb
    obtain rfl := mem_unique (hnew v a doc ha hgives) (hothers v b hfree hfound)
    apply hb
    rw [← hkeys, JsMap.mem_keys_iff]
    exact ⟨_, ha⟩

theorem opsFree_checkWrite (h : Indexed env s) (hexcl : s.derived.indexes.IsExclusive)
    (hcheck : s.checkWrite env write = .ok ()) :
    s.OpsFree env write.ops := by
  rw [checkWrite.eq_def] at hcheck
  split at hcheck
  · rename_i hsize
    have hnone (name : String) (doc : JsValue) (v : IndexedValue) :
        ¬ s.derived.indexes.Gives env.rt name doc v := by
      rintro ⟨idx, hidx, _⟩
      have hget : s.derived.indexes.indexes.get name = none := by
        rw [JsMap.get_eq_none_iff, (JsMap.size_eq_zero_iff _).mp hsize]
        exact not_mem_nil
      rw [hget] at hidx
      cases hidx
    exact ⟨fun name v a b doc doc' _ _ _ _ hgives => absurd hgives (hnone name doc v),
      fun name v a b doc _ _ hgives => absurd hgives (hnone name doc v)⟩
  · split at hcheck
    · apply opsFree_set hexcl
      intro hindexable
      rwa [if_pos hindexable] at hcheck
    · exact opsFree_del ..
    · exact opsFree_batch h hexcl hcheck

/-- The keys differ, and so do the values of the records. -/
structure UndoExclusive (env : DbEnv) (s : Db) (undo : List Undo) : Prop where
  nodup : (undo.map Undo.pk).Nodup
  exclusive : ∀ name, Exclusive fun v pk => ∃ u ∈ undo, u.pk = pk ∧ ∃ prev, u.prev = some prev ∧
    IndexManager.indexable (s.docOf env prev) = true ∧
    s.derived.indexes.Gives env.rt name (s.docOf env prev) v

theorem UndoExclusive.congr (h : s.UndoExclusive env undo) (hdefs : s'.derived.indexes.SameDefs s.derived.indexes)
    (hdoc : ∀ u ∈ undo, ∀ prev, u.prev = some prev → s'.docOf env prev = s.docOf env prev) :
    s'.UndoExclusive env undo where
  nodup := h.nodup
  exclusive name := by
    have hback (v : IndexedValue) (pk : Bytes) (hpk : ∃ u ∈ undo, u.pk = pk ∧ ∃ prev,
        u.prev = some prev ∧ IndexManager.indexable (s'.docOf env prev) = true ∧
        s'.derived.indexes.Gives env.rt name (s'.docOf env prev) v) :
        ∃ u ∈ undo, u.pk = pk ∧ ∃ prev, u.prev = some prev ∧ IndexManager.indexable (s.docOf env prev) = true ∧
          s.derived.indexes.Gives env.rt name (s.docOf env prev) v := by
      obtain ⟨u, hu, hpk, prev, hprev, hindexable, hgives⟩ := hpk
      rw [hdoc u hu prev hprev] at hindexable hgives
      exact ⟨u, hu, hpk, prev, hprev, hindexable, hgives.sameDefs hdefs.symm⟩
    intro v a b ha hb
    exact h.exclusive name v a b (hback v a ha) (hback v b hb)

theorem undoExclusive_single (env : DbEnv) (s : Db) (u : Undo) : s.UndoExclusive env [u] where
  nodup := nodup_singleton _
  exclusive name v a b ha hb := by
    obtain ⟨u₁, hu₁, rfl, _⟩ := ha
    obtain ⟨u₂, hu₂, rfl, _⟩ := hb
    rw [mem_singleton.mp hu₁, mem_singleton.mp hu₂]

theorem mem_keys_prevs (env : DbEnv) (s : Db) (ops : List (PreparedOp DtColumns)) (k : Bytes) :
    k ∈ (s.applyOps env ops).1.keys ↔ k ∈ ops.map PreparedOp.key := by
  induction ops using reverseRecOn with
  | nil => rfl
  | append_singleton ops op ih =>
    rw [applyOps_concat, map_append, mem_append, map_singleton, mem_singleton, ← ih]
    split
    · rename_i hhas
      refine ⟨.inl, ?_⟩
      rintro (hk | rfl)
      · exact hk
      · exact (JsMap.has_iff ..).mp hhas
    · rw [JsMap.mem_keys_set, or_comm]

theorem prevs_live {prev : DbRecord} (env : DbEnv) (s : Db) (ops : List (PreparedOp DtColumns))
    (h : (s.applyOps env ops).1.get pk = some (some prev)) :
    s.store.live (s.now env) pk = some prev := by
  induction ops using reverseRecOn with
  | nil => cases h
  | append_singleton ops op ih =>
    rw [applyOps_concat] at h
    split at h
    · exact ih h
    · rename_i hhas
      rw [JsMap.get_set] at h
      split at h
      · rename_i hpk
        subst hpk
        rw [JsMap.has_iff, mem_keys_prevs] at hhas
        rw [applyOp_prev] at h
        obtain ⟨hget, hexp⟩ := live_some (some.inj h)
        rw [applyOps_get_of_not_mem env s hhas] at hget
        refine filter_eq_some_iff.mpr ⟨hget, ?_⟩
        have hreads := env.clock_mono _ _ (extends_applyOps env s ops).reads_le
        cases hexp' : isExpiredAt prev.expireAt (s.now env) with
        | false => rfl
        | true => exact absurd (isExpiredAt_mono hexp' hreads) (Bool.eq_false_iff.mp hexp)
      · exact ih h

theorem append_spec (env : DbEnv) (hopen : s.wal.closed = false) (hunsealed : s.wal.sealed = false)
    (frame : Bytes) (c : Commit) : ∃ w, s.append env frame c = { s with wal := w } ∧ w.file = s.wal.file ∧
      w.pending = s.wal.pending ++ [{ buf := frame, offset := s.wal.nextOffset, op := c }] := by
  rw [append, Wal.appendLoc, hopen, hunsealed]
  refine ⟨_, rfl, rfl, ?_⟩
  rw [Wal.pending, ← append_assoc]
  rfl

theorem commit_spec (hopen : s.wal.closed = false) (hunsealed : s.wal.sealed = false)
    (write : WalWrite DtColumns) : s.commit env write = s ∨ ∃ w : Wal Commit,
      ∃ p : PendingWrite Commit, w.file = s.wal.file ∧ w.pending = s.wal.pending ++ [p] ∧
        s.commit env write = { (s.applyOps env write.ops).2 with wal := w } ∧
        p.op.undo = (s.applyOps env write.ops).1.entries.map fun e =>
          { pk := e.1, prev := e.2, appliedSeq := (s.applyOps env write.ops).2.seqOf e.1 } := by
  rw [commit]
  cases write.encode env.codec with
  | error e => exact .inl rfl
  | ok frame =>
    right
    have hwal := (extends_applyOps env s write.ops).wal_eq
    rw [← hwal] at hopen hunsealed
    obtain ⟨w, happend, hfile, hpending⟩ := append_spec env hopen hunsealed frame
      { write := write
        undo := (s.applyOps env write.ops).1.entries.map fun e =>
          { pk := e.1, prev := e.2, appliedSeq := (s.applyOps env write.ops).2.seqOf e.1 }
        publications := (s.applyOps env write.ops).2.publicationsOf env write }
    rw [hwal] at hfile hpending
    exact ⟨w, _, hfile, hpending, happend, rfl⟩

theorem undoExclusive_commit (h : Indexed env s) (hexcl : s.derived.indexes.IsExclusive)
    (ops : List (PreparedOp DtColumns)) (seqs : Bytes → Option Nat) : s.UndoExclusive env
      ((s.applyOps env ops).1.entries.map fun e => { pk := e.1, prev := e.2, appliedSeq := seqs e.1 }) where
  nodup := by
    rw [List.map_map]
    exact (s.applyOps env ops).1.keys_nodup
  exclusive name := by
    have hfound (v : IndexedValue) (pk : Bytes) (hpk : ∃ u ∈ (s.applyOps env ops).1.entries.map
          (fun e => ({ pk := e.1, prev := e.2, appliedSeq := seqs e.1 } : Undo)),
        u.pk = pk ∧ ∃ prev, u.prev = some prev ∧ IndexManager.indexable (s.docOf env prev) = true ∧
          s.derived.indexes.Gives env.rt name (s.docOf env prev) v) :
        s.derived.indexes.Found name v pk := by
      obtain ⟨u, hu, rfl, prev, hprev, hindexable, hgives⟩ := hpk
      obtain ⟨⟨pk, old⟩, he, rfl⟩ := mem_map.mp hu
      obtain rfl : old = some prev := hprev
      apply h.found
      exact ⟨prev, prevs_live env s ops ((JsMap.mem_entries_iff ..).mp he), hindexable, hgives⟩
    intro v a b ha hb
    exact hexcl name v a b (hfound v a ha) (hfound v b hb)

theorem expire_spec (hopen : s.wal.closed = false) (hunsealed : s.wal.sealed = false) (pk : Bytes)
    (expireAt : JsInteger) : (s.expire env pk expireAt).derived = (s.reap env pk).derived ∧
      (s.expire env pk expireAt).snapshot = s.snapshot ∧
      (s.expire env pk expireAt).wal.file = s.wal.file ∧
      ((s.expire env pk expireAt).wal.pending = s.wal.pending ∨ ∃ p : PendingWrite Commit,
        (s.expire env pk expireAt).wal.pending = s.wal.pending ++ [p] ∧ ∃ u, p.op.undo = [u]) := by
  have hext := extends_reap env s pk
  have hfile := congrArg Wal.file hext.wal_eq
  have hpending := congrArg Wal.pending hext.wal_eq
  rw [expire]
  cases hcur : (s.reap env pk).store.map.get pk with
  | none => exact ⟨rfl, hext.snapshot_eq, hfile, .inl hpending⟩
  | some cur =>
    dsimp only
    split
    · exact ⟨rfl, hext.snapshot_eq, hfile, .inl hpending⟩
    · rename_i frame _
      rw [← hext.wal_eq] at hopen hunsealed
      let value := (s.reap env pk).materialize cur.ref
      let t : Db :=
        { s.reap env pk with
          store := (s.reap env pk).store.setRef pk (.memory value) expireAt cur.dt }
      obtain ⟨w, happend, hw, hpending'⟩ := append_spec (s := t) env hopen hunsealed frame
        { write := .single (.set pk value expireAt cur.dt)
          undo := [{ pk := pk, prev := some cur, appliedSeq := t.seqOf pk }]
          publications := t.publicationsOf env (.single (.set pk value expireAt cur.dt)) }
      have hall := hpending'.trans (congrArg (· ++ _) hpending)
      rw [happend]
      exact ⟨rfl, hext.snapshot_eq, hw.trans hfile, .inr ⟨_, hall, _, rfl⟩⟩

theorem exclusive_rollback (hexcl : s.derived.indexes.IsExclusive)
    (hundo : s.UndoExclusive env undo) (hfree : s.PutBackFree env undo)
    (h' : Indexed env (s.rollback env undo)) :
    (s.rollback env undo).derived.indexes.IsExclusive := by
  have hchanges := changes_rollback env (s := s) hundo.nodup
  have hfile := (extends_rollback env s undo).fileOf_eq
  have hfound (name : String) (v : IndexedValue) (k : Bytes) (hk : s.TakenBack undo k)
      (hf : (s.rollback env undo).derived.indexes.Found name v k) :
      ∃ u ∈ undo, u.pk = k ∧ s.seqOf u.pk = u.appliedSeq ∧ ∃ prev, u.prev = some prev ∧
        isExpiredAt prev.expireAt (s.now env) = false ∧
        IndexManager.indexable (s.docOf env prev) = true ∧
        s.derived.indexes.Gives env.rt name (s.docOf env prev) v := by
    obtain ⟨r, hr, hindexable, hgives⟩ := h'.record hf
    rcases rollback_get env hundo.nodup hr with ⟨hkept, _⟩ | ⟨u, hu, hpk, hseq, prev, hprev, href, hexp⟩
    · exact absurd hk hkept
    · have hgives := gives_of_changes hchanges hfile hgives
      have hdoc : s.docOf env r = s.docOf env prev := by rw [docOf, docOf, href]
      rw [docOf_congr env hfile] at hindexable
      rw [hdoc] at hindexable hgives
      exact ⟨u, hu, hpk, hseq, prev, hprev, hexp, hindexable, hgives⟩
  apply hchanges.exclusive hexcl
  · intro name v a b ha hb hfa hfb
    obtain ⟨u, hu, hpk, _, prev, hprev, _, hindexable, hgives⟩ := hfound name v a ha hfa
    obtain ⟨u', hu', hpk', _, prev', hprev', _, hindexable', hgives'⟩ := hfound name v b hb hfb
    exact hundo.exclusive name v a b ⟨u, hu, hpk, prev, hprev, hindexable, hgives⟩
      ⟨u', hu', hpk', prev', hprev', hindexable', hgives'⟩
  · intro name v a b ha hb hfa hfb
    obtain ⟨u, hu, rfl, hseq, prev, hprev, hexp, hindexable, idx, hidx, hunique, hv⟩ := hfound name v a ha hfa
    obtain ⟨idx', hidx', _, hholder⟩ := hfb
    obtain rfl := mem_unique hidx hidx'
    rcases hfree u hu hseq prev hprev hexp hindexable (name, idx) ((JsMap.mem_entries_iff ..).mpr hidx)
      hunique v hv b hholder with rfl | htaken
    · exact hb ha
    · exact hb htaken

theorem Indexed.rollback (h : Indexed env s) (hfits : ∀ u ∈ undo, ∀ prev, u.prev = some prev → s.Fits prev.ref) :
    Indexed env (s.rollback env undo) := by
  have hfold : s.Extends (s.rollback env undo) ∧ Indexed env (s.rollback env undo) := by
    apply fold_invariant_mem (I := fun t : Db => s.Extends t ∧ Indexed env t)
    · rintro t u hu ⟨hext, ht⟩
      refine ⟨hext.trans (extends_restoreKey env t u), ht.restoreKey ?_⟩
      exact fun prev hprev => (fits_congr hext.fileOf_eq prev.ref).mpr (hfits u hu prev hprev)
    · exact ⟨.refl s, h⟩
  exact hfold.2

theorem UndoExclusive.files (h : s.UndoExclusive env undo)
    (hdefs : s'.derived.indexes.SameDefs s.derived.indexes) (hfile : s'.fileOf = s.fileOf) :
    s'.UndoExclusive env undo :=
  h.congr hdefs fun _ _ prev _ => docOf_congr env hfile prev

theorem Indexed.isUnique (h : Indexed env s) (hexcl : s.derived.indexes.IsExclusive) : s.IsUnique env :=
  fun name v a b ha hb => hexcl name v a b (h.found ha) (h.found hb)

end Db

namespace UniqueDb

/-- The writers whose promises are not settled, or that did not go on yet. -/
def waiting (s : UniqueDb) : List (PendingWrite Commit) := s.settled.map Prod.snd ++ s.db.wal.pending

variable {env : DbEnv} {s s' : UniqueDb}

/-- The unique indexes are exclusive, and so is what each writer can put back. -/
structure Holds (env : DbEnv) (s : UniqueDb) : Prop where
  indexed : s.db.Indexed env
  exclusive : s.db.derived.indexes.IsExclusive
  undo : ∀ w ∈ s.waiting, s.db.UndoExclusive env w.op.undo
  fits : ∀ w ∈ s.waiting, ∀ u ∈ w.op.undo, ∀ prev, u.prev = some prev → s.db.Fits prev.ref
  publications : ∀ w ∈ s.waiting, ∀ p ∈ w.op.publications, s.db.PublicationOk p

theorem Holds.of_quiet {db : Db} {holder : Option Nat} {settled : List (Outcome × PendingWrite Commit)}
    (hquiet : settled = []) (hindexed : db.Indexed env) (hexcl : db.derived.indexes.IsExclusive)
    (hundo : ∀ w ∈ db.wal.pending, db.UndoExclusive env w.op.undo) :
    Holds env { db := db, holder := holder, settled := settled } := by
  subst hquiet
  constructor
  · exact hindexed
  · exact hexcl
  · exact hundo
  · exact fun w hw u hu prev hprev => hindexed.undo_fits hw hu hprev
  · exact fun w hw p hp => hindexed.publicationOk hw hp

section

variable (h : Holds env s)
include h

theorem Holds.pending : ∀ w ∈ s.db.wal.pending, s.db.UndoExclusive env w.op.undo :=
  fun w hw => h.undo w (mem_append_right _ hw)

section

variable (hquiet : s.settled = [])
include hquiet

theorem Holds.reap (pk : Bytes) : Holds env { s with db := s.db.reap env pk } := by
  have hext := Db.extends_reap env s.db pk
  apply Holds.of_quiet hquiet (h.indexed.reap pk) (Db.exclusive_reap h.indexed h.exclusive pk)
  intro w hw
  rw [hext.wal_eq] at hw
  exact (h.pending w hw).files (Db.changes_reapAt _ s.db pk).defs hext.fileOf_eq

theorem Holds.reapExpired : Holds env { s with db := s.db.reapExpired env } := by
  have hext := Db.extends_reapExpired env s.db
  have hdefs : (s.db.reapExpired env).derived.indexes.SameDefs s.db.derived.indexes := by
    apply fold_invariant (I := fun t : Db => t.derived.indexes.SameDefs s.db.derived.indexes)
    · intro t k ht
      exact (Db.changes_reapAt _ t k).defs.trans ht
    · exact .refl _
  apply Holds.of_quiet hquiet h.indexed.reapExpired (Db.exclusive_reapExpired h.indexed h.exclusive)
  intro w hw
  rw [hext.wal_eq] at hw
  exact (h.pending w hw).files hdefs hext.fileOf_eq

theorem Holds.commit (hfree : s.db.OpsFree env write.ops) (holder : Option Nat) :
    Holds env { s with db := s.db.commit env write, holder := holder } := by
  have hindexed := h.indexed.commit write
  rcases Db.commit_spec h.indexed.not_closed h.indexed.not_sealed write with
    hsame | ⟨w, p, hfile, hpending, hcommit, hundo⟩
  · rw [hsame]
    exact { h with }
  · have hext := Db.extends_applyOps env s.db write.ops
    have hfiles : (s.db.commit env write).fileOf = s.db.fileOf := by
      rw [hcommit]
      funext file
      cases file with
      | snapshot => exact hext.snapshot_eq
      | wal => exact hfile
    have hdefs : (s.db.commit env write).derived.indexes.SameDefs s.db.derived.indexes := by
      rw [hcommit]
      exact (Db.changes_applyOps env s.db write.ops).defs
    apply Holds.of_quiet hquiet hindexed
    · have happlied : Db.Indexed env (s.db.applyOps env write.ops).2 := by
        obtain ⟨t, halike, ht⟩ := h.indexed
        obtain ⟨v, htracked⟩ := ht.tracked
        exact ⟨_, (halike.applyOps env write.ops).2,
          ht.extends (Db.extends_applyOps ..) (htracked.applyOps write.ops)⟩
      rw [hcommit]
      exact Db.exclusive_applyOps h.exclusive happlied hfree
    · intro p' hp'
      have hp' : p' ∈ s.db.wal.pending ++ [p] := by
        rw [← hpending]
        rw [hcommit] at hp'
        exact hp'
      rcases mem_snoc.mp hp' with hp' | rfl
      · exact (h.pending p' hp').files hdefs hfiles
      · rw [hundo]
        exact (Db.undoExclusive_commit h.indexed h.exclusive write.ops _).files hdefs hfiles

theorem Holds.commitUnique (hs : s.commitUnique env write = some s') : Holds env s' := by
  rw [UniqueDb.commitUnique] at hs
  split at hs
  · cases hs
  · cases hcheck : s.db.checkWrite env write with
    | error e =>
      rw [hcheck] at hs
      cases hs
      exact h
    | ok u =>
      rw [hcheck] at hs
      cases hs
      exact h.commit hquiet (Db.opsFree_checkWrite h.indexed h.exclusive hcheck) _

theorem Holds.expire (pk : Bytes) (expireAt : JsInteger) :
    Holds env { s with db := s.db.expire env pk expireAt } := by
  obtain ⟨hderived, hsnapshot, hfile, hpending⟩ :=
    Db.expire_spec h.indexed.not_closed h.indexed.not_sealed pk expireAt
  have hfiles : (s.db.expire env pk expireAt).fileOf = s.db.fileOf := by
    funext file
    cases file with
    | snapshot => exact hsnapshot
    | wal => exact hfile
  have hdefs : (s.db.expire env pk expireAt).derived.indexes.SameDefs s.db.derived.indexes := by
    rw [hderived]
    exact (Db.changes_reapAt _ s.db pk).defs
  apply Holds.of_quiet hquiet (h.indexed.expire pk expireAt)
  · rw [hderived]
    exact Db.exclusive_reap h.indexed h.exclusive pk
  · intro w hw
    rcases hpending with hpending | ⟨p, hpending, u, hundo⟩
    · rw [hpending] at hw
      exact (h.pending w hw).files hdefs hfiles
    · rw [hpending] at hw
      rcases mem_snoc.mp hw with hw | rfl
      · exact (h.pending w hw).files hdefs hfiles
      · rw [hundo]
        exact Db.undoExclusive_single env _ u

/-- An event of the log at most moves the writers of a batch on. -/
theorem Holds.wal (hs : s.step env (.wal e) = some s') : Holds env s' := by
  rw [step.eq_def, hquiet] at hs
  obtain ⟨⟨w, settlement⟩, he, rfl⟩ := map_eq_some_iff.mp hs
  obtain ⟨_, _, more, hfile⟩ := Wal.grows_event he
  have hpending := Wal.pending_event he
  have hwaiting : ((settlement.map Settlement.writers).getD []).map Prod.snd ++ w.pending = s.waiting := by
    rw [waiting, hquiet, hpending]
    cases settlement with
    | none => rfl
    | some settlement =>
      have hbatch : settlement.writers.map Prod.snd = settlement.batch := by
        rw [Settlement.writers, List.map_map]
        exact map_id _
      exact congrArg (· ++ w.pending) hbatch
  have hgrows {ref : ValueRef} (hfits : s.db.Fits ref) :=
    Db.materialize_grows s.db { s.db with wal := w } rfl hfile hfits
  have hmem (p : PendingWrite Commit)
      (hp : p ∈ ((settlement.map Settlement.writers).getD []).map Prod.snd ++ w.pending) :
      p ∈ s.waiting := by
    rwa [hwaiting] at hp
  constructor
  · exact h.indexed.walEvent he
  · exact h.exclusive
  · intro p hp
    refine (h.undo p (hmem p hp)).congr (.refl _) ?_
    intro u hu prev hprev
    exact congrArg env.decode (hgrows (h.fits p (hmem p hp) u hu prev hprev)).1
  · intro p hp u hu prev hprev
    exact (hgrows (h.fits p (hmem p hp) u hu prev hprev)).2
  · intro p hp q hq
    exact (h.publications p (hmem p hp) q hq).grows (fun pk r hr => h.indexed.fits hr) hfile

end

/-- The writers that did not go on yet keep what they have. -/
theorem Holds.next (hsettled : s.settled = first :: rest) {db : Db}
    (hindexed : db.Indexed env) (hexcl : db.derived.indexes.IsExclusive) (hext : s.db.Extends db)
    (hdefs : db.derived.indexes.SameDefs s.db.derived.indexes) (holder : Option Nat) :
    Holds env { db := db, holder := holder, settled := rest } := by
  have hmem (w : PendingWrite Commit) (hw : w ∈ rest.map Prod.snd ++ db.wal.pending) : w ∈ s.waiting := by
    rw [waiting, hsettled, ← hext.wal_eq]
    exact mem_cons_of_mem _ hw
  constructor
  · exact hindexed
  · exact hexcl
  · exact fun w hw => (h.undo w (hmem w hw)).files hdefs hext.fileOf_eq
  · intro w hw u hu prev hprev
    exact (Db.fits_congr hext.fileOf_eq prev.ref).mpr (h.fits w (hmem w hw) u hu prev hprev)
  · exact fun w hw p hp => (h.publications w (hmem w hw) p hp).extends hext

theorem Holds.goOn (hfree : s.FreeToGoOn env .goOn) (hs : s.step env .goOn = some s') : Holds env s' := by
  rw [step.eq_def] at hs
  rw [FreeToGoOn.eq_def] at hfree
  cases hsettled : s.settled with
  | nil =>
    rw [hsettled] at hs
    cases hs
  | cons first rest =>
    obtain ⟨outcome, w⟩ := first
    have hw : w ∈ s.waiting := by
      rw [waiting, hsettled]
      exact mem_cons_self ..
    rw [hsettled] at hs hfree
    cases hs
    cases outcome with
    | resolved =>
      have hall := hfree.and_forall (h.publications w hw)
      have hfold := hall.invariant (I := fun t : Db => s.db.Extends t ∧ t.Indexed env ∧
        t.derived = s.db.derived) (by
          rintro t p ⟨hext, hindexed, hderived⟩ ⟨hsound, hok⟩
          refine ⟨hext.trans (Db.extends_publishWalRef ..), hindexed.publishWalRef (hok.extends hext) hsound, ?_⟩
          rw [← hderived, Db.publishWalRef]
          split
          · rfl
          · split <;> rfl)
        ⟨.refl s.db, h.indexed, rfl⟩
      obtain ⟨hext, hindexed, hderived⟩ := hfold
      refine h.next hsettled hindexed ?_ hext ?_ _
      · rw [hderived]
        exact h.exclusive
      · rw [hderived]
        exact .refl _
    | rejected =>
      have hindexed := h.indexed.rollback (h.fits w hw)
      have hexcl := Db.exclusive_rollback h.exclusive (h.undo w hw) hfree hindexed
      exact h.next hsettled hindexed hexcl (Db.extends_rollback env s.db w.op.undo)
        (Db.changes_rollback env (h.undo w hw).nodup).defs _

theorem Holds.step (hfree : s.FreeToGoOn env e) (hs : s.step env e = some s') : Holds env s' := by
  by_cases hquiet : s.settled = []
  · cases e with
    | read pk =>
      rw [step.eq_def, hquiet] at hs
      cases hs
      exact hquiet ▸ h.reap hquiet pk
    | reapExpired =>
      rw [step.eq_def, hquiet] at hs
      cases hs
      exact hquiet ▸ h.reapExpired hquiet
    | set key value expireAt dt =>
      rw [step.eq_def, hquiet] at hs
      exact h.commitUnique hquiet hs
    | del key =>
      rw [step.eq_def, hquiet] at hs
      dsimp only at hs
      have hreap := h.reap hquiet key
      split at hs
      · cases hs
        exact hquiet ▸ hreap.commit hquiet (Db.opsFree_del env _ key) s.holder
      · cases hs
        exact hquiet ▸ hreap
    | batch ops =>
      rw [step.eq_def, hquiet] at hs
      dsimp only at hs
      split at hs
      · cases hs
        exact h
      · exact h.commitUnique hquiet hs
    | expire pk expireAt =>
      rw [step.eq_def, hquiet] at hs
      cases hs
      exact hquiet ▸ h.expire hquiet pk expireAt
    | evictKey pk =>
      rw [step.eq_def, hquiet] at hs
      dsimp only at hs
      split at hs
      · cases hs
        exact hquiet ▸ h.commit hquiet (Db.opsFree_del env _ pk) s.holder
      · cases hs
        exact h
    | wal e => exact h.wal hquiet hs
    | goOn =>
      rw [step.eq_def, hquiet] at hs
      cases hs
  · cases e with
    | goOn => exact h.goOn hfree hs
    | _ =>
      rw [step.eq_def] at hs
      cases hsettled : s.settled with
      | nil => exact absurd hsettled hquiet
      | cons first rest =>
        rw [hsettled] at hs
        cases hs

end

/-- A database as it is opened, with the indexes that are declared. -/
def opened (env : DbEnv) (o : Opened) (policy : FsyncPolicy) (defs : Derived Bytes) : UniqueDb :=
  { db := Db.opened env o policy defs }

def IndexesValid (s : UniqueDb) : Prop :=
  ∀ e ∈ s.db.derived.indexes.indexes.entries, e.2.unique = true → e.2.assertUniqueValid = true

theorem holds_opened (o : Opened) (policy : FsyncPolicy) (defs : Derived Bytes)
    (hvalid : (opened env o policy defs).IndexesValid) : Holds env (opened env o policy defs) := by
  have hconsistent : Db.Consistent env (Db.opened env o policy defs) := Db.consistent_opened o policy defs
  apply Holds.of_quiet rfl ⟨_, .refl _, hconsistent⟩ _ nofun
  obtain ⟨view, htracked⟩ := hconsistent.tracked
  rintro name v a b ⟨idx, hidx, hunique, ha⟩ ⟨idx', hidx', _, hb⟩
  obtain rfl := mem_unique hidx hidx'
  exact AnyIndex.assertUniqueValid_exclusive (htracked.sync.indexes name idx hidx)
    (hvalid (name, idx) ((JsMap.mem_entries_iff ..).mpr hidx) hunique) v a b ha hb

/-- In every state that a run reaches, no two live keys have a value of a unique index in common, if
every writer that goes on finds its places right and the values of what it puts back free. -/
theorem run_unique (o : Opened) (policy : FsyncPolicy) (defs : Derived Bytes)
    (hvalid : (opened env o policy defs).IndexesValid) (events : List UniqueEvent) (s : UniqueDb)
    (hrun : events.foldlM (step env) (opened env o policy defs) = some s)
    (hfree : AlongRun (step env) (FreeToGoOn env) (opened env o policy defs) events) :
    s.db.IsUnique env := by
  have hholds := hfree.invariant (I := Holds env) (fun s e s' h hfree hs => h.step hfree hs)
    (holds_opened o policy defs hvalid) hrun
  exact hholds.indexed.isUnique hholds.exclusive

end UniqueDb

/-! A record is deleted, and the value of its document is taken, before the deletion fails. -/

/-- The document of a value has its field `a` from it. -/
def uniqueDoc (value : Bytes) : JsValue := .obj [("a", .str (if value = nullText then "v" else "w"))]

noncomputable def uniqueEnv : DbEnv where
  rt := exampleRuntime
  codec := exampleCodec
  decode := uniqueDoc
  clock _ := 100
  clock_mono _ _ _ := Int.le_refl _

def uniqueDefs : Derived Bytes where
  indexes := ⟨JsMap.empty.set "byA" { field := "a", unique := true, sparse := true, postings := .equality {} }⟩

def otherKey : Bytes := [108]

/-- What `uniqueDoc nullText` is found under. -/
def exampleValue : IndexedValue := .posting "string:v"

namespace UniqueDb

instance decidable_indexesValid (s : UniqueDb) : Decidable s.IndexesValid :=
  inferInstanceAs (Decidable (∀ e ∈ s.db.derived.indexes.indexes.entries, e.2.unique = true →
    e.2.assertUniqueValid = true))

instance decidable_takenBack (s : Db) (undo : List Undo) (k : Bytes) : Decidable (s.TakenBack undo k) :=
  inferInstanceAs (Decidable (∃ u ∈ undo, u.pk = k ∧ s.seqOf k = u.appliedSeq))

instance decidable_putBackFree (env : DbEnv) (s : Db) (undo : List Undo) : Decidable (s.PutBackFree env undo) :=
  inferInstanceAs (Decidable (∀ u ∈ undo, s.seqOf u.pk = u.appliedSeq → ∀ prev ∈ u.prev,
    isExpiredAt prev.expireAt (s.now env) = false → IndexManager.indexable (s.docOf env prev) = true →
      ∀ e ∈ s.derived.indexes.indexes.entries, e.2.unique = true →
        ∀ v ∈ e.2.valuesOf env.rt (s.docOf env prev), ∀ k ∈ e.2.holders v, k = u.pk ∨ s.TakenBack undo k))

instance decidable_freeToGoOn (env : DbEnv) (s : UniqueDb) (e : UniqueEvent) : Decidable (s.FreeToGoOn env e) := by
  rw [FreeToGoOn.eq_def]
  split
  · split <;> infer_instance
  · infer_instance

def failedDeletion (value : Bytes) : List UniqueEvent :=
  [.del exampleKey, .wal .flushBatch, .set otherKey value 0 none, .wal .writeFailed, .goOn]

theorem failedDeletion_notUnique : ¬ ∀ (env : DbEnv) (o : Opened) (policy : FsyncPolicy)
    (defs : Derived Bytes), (opened env o policy defs).IndexesValid →
    ∀ (events : List UniqueEvent) (s : UniqueDb),
      events.foldlM (step env) (opened env o policy defs) = some s → s.db.IsUnique env := by
  intro h
  have hvalid : (opened uniqueEnv (exampleOpened 0) .everysec uniqueDefs).IndexesValid := by
    decide +kernel
  have hrun : ((failedDeletion nullText).foldlM (step uniqueEnv)
      (opened uniqueEnv (exampleOpened 0) .everysec uniqueDefs)).any (fun s =>
        (s.db.store.live (s.db.now uniqueEnv) exampleKey).any (fun r =>
          decide (r.ref = .memory nullText)) &&
        (s.db.store.live (s.db.now uniqueEnv) otherKey).any (fun r =>
          decide (r.ref = .memory nullText)) &&
        (s.db.derived.indexes.indexes.get "byA").any (fun idx => idx.unique &&
          decide (exampleValue ∈ idx.valuesOf exampleRuntime (uniqueDoc nullText)))) = true := by
    decide +kernel
  obtain ⟨s, hs, hfacts⟩ := (Option.any_eq_true ..).mp hrun
  rw [Bool.and_eq_true, Bool.and_eq_true] at hfacts
  obtain ⟨⟨hfirst, hsecond⟩, hindex⟩ := hfacts
  obtain ⟨idx, hidx, hgives⟩ := (Option.any_eq_true ..).mp hindex
  rw [Bool.and_eq_true] at hgives
  have hvalue (pk : Bytes) (hpk : (s.db.store.live (s.db.now uniqueEnv) pk).any (fun r =>
      decide (r.ref = .memory nullText)) = true) :
      s.db.LiveValue uniqueEnv "byA" exampleValue pk := by
    obtain ⟨r, hr, href⟩ := (Option.any_eq_true ..).mp hpk
    have hdoc : s.db.docOf uniqueEnv r = uniqueDoc nullText := by
      rw [Db.docOf, of_decide_eq_true href]
      rfl
    refine ⟨r, hr, ?_, ?_⟩
    · rfl
    · rw [hdoc]
      exact ⟨idx, hidx, hgives.1, of_decide_eq_true hgives.2⟩
  have hunique := h uniqueEnv (exampleOpened 0) .everysec uniqueDefs hvalid _ s hs
  have hsame := hunique "byA" _ _ _ (hvalue exampleKey hfirst) (hvalue otherKey hsecond)
  exact absurd hsame (by decide)

/-- The same failure, where the other key is set to another value. -/
theorem run_unique_free : ∃ s, (failedDeletion exampleKey).foldlM (step uniqueEnv)
    (opened uniqueEnv (exampleOpened 0) .everysec uniqueDefs) = some s ∧ s.db.IsUnique uniqueEnv := by
  have hsome : ((failedDeletion exampleKey).foldlM (step uniqueEnv)
      (opened uniqueEnv (exampleOpened 0) .everysec uniqueDefs)).isSome = true := by decide +kernel
  obtain ⟨s, hs⟩ := isSome_iff_exists.mp hsome
  exact ⟨s, hs, run_unique (exampleOpened 0) .everysec uniqueDefs (by decide +kernel) _ s hs
    (by decide +kernel)⟩

end UniqueDb

end Echadron.MiniDb
