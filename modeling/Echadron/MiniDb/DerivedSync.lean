import Echadron.MiniDb.ValueOffsets

namespace Echadron.MiniDb
open Lib Lib.Bytes List Option

namespace Db

variable (env : DbEnv)

/-- The document of each record that the store holds. -/
def view (s : Db) : Derived.View Bytes :=
  fun pk => (s.store.map.get pk).map fun r => (s.docOf env r, r.dt)

/-- The key has a record that is expired. -/
def Lapsed (s : Db) (pk : Bytes) : Prop :=
  ∃ r, s.store.map.get pk = some r ∧ isExpiredAt r.expireAt (s.now env) = true

/-- The derived structures hold the records, but perhaps not those that were expired when the
structures were built. -/
structure Tracked (s : Db) (v : Derived.View Bytes) : Prop where
  sync : s.derived.InSync env.rt v
  held : ∀ pk, v pk = s.view env pk ∨ v pk = none ∧ s.Lapsed env pk
  fits : ∀ pk r, s.store.map.get pk = some r → s.Fits r.ref

variable {env} {s s' : Db} {v : Derived.View Bytes}

theorem Tracked.held_live (h : Tracked env s v) (hlive : ¬ s.Lapsed env pk) : v pk = s.view env pk :=
  (h.held pk).resolve_right fun hl => hlive hl.2

theorem Lapsed.congr (h : s.Lapsed env pk) (hreads : s.reads ≤ s'.reads)
    (hget : s'.store.map.get pk = s.store.map.get pk) : s'.Lapsed env pk := by
  obtain ⟨r, hr, hexp⟩ := h
  exact ⟨r, hget.trans hr, isExpiredAt_mono hexp (env.clock_mono _ _ hreads)⟩

theorem view_congr (hfile : s'.fileOf = s.fileOf)
    (hget : s'.store.map.get pk = s.store.map.get pk) : s'.view env pk = s.view env pk := by
  rw [view]
  congr 1
  funext r
  rw [docOf_congr env hfile]

theorem Tracked.change (h : Tracked env s v) (pk : Bytes) (hfile : s'.fileOf = s.fileOf) (hreads : s.reads ≤ s'.reads)
    (hothers : ∀ k, k ≠ pk → s'.store.map.get k = s.store.map.get k)
    (hfits : ∀ r, s'.store.map.get pk = some r → s.Fits r.ref)
    (hd : s'.derived.InSync env.rt (v.set pk (s'.view env pk))) :
    Tracked env s' (v.set pk (s'.view env pk)) where
  sync := hd
  held k := by
    by_cases hk : k = pk
    · rw [hk, Derived.View.set_self]
      exact .inl rfl
    · rw [Derived.View.set_of_ne _ _ hk, view_congr hfile (hothers k hk)]
      apply (h.held k).imp_right
      exact fun hl => ⟨hl.1, hl.2.congr hreads (hothers k hk)⟩
  fits k r hr := by
    rw [fits_congr hfile]
    by_cases hk : k = pk
    · rw [hk] at hr
      exact hfits r hr
    · rw [hothers k hk] at hr
      exact h.fits k r hr

/-- A record may be written anew with the value, the expiry and the columns that it has. -/
theorem Tracked.rewrite (h : Tracked env s v) (hcur : s.store.map.get pk = some cur) (hfits : s.Fits ref)
    (hvalue : s.materialize ref = s.materialize cur.ref) :
    Tracked env { s with store := s.store.setRef pk ref cur.expireAt cur.dt } v := by
  have hget := Store.setRef_get_self s.store pk ref cur.expireAt cur.dt
  have hothers (k : Bytes) (hk : k ≠ pk) := Store.setRef_get_of_ne s.store ref cur.expireAt cur.dt hk
  constructor
  · exact h.sync
  · intro k
    by_cases hk : k = pk
    · subst hk
      have hview : view env { s with store := s.store.setRef k ref cur.expireAt cur.dt } k = s.view env k := by
        rw [view, view, hcur]
        rw [hget, map_some, map_some, docOf, docOf, ← hvalue]
        exact congrArg (fun value => some (env.decode value, cur.dt)) (materialize_congr rfl ref)
      rw [hview]
      apply (h.held k).imp_right
      rintro ⟨hnone, r, hr, hexp⟩
      rw [hcur] at hr
      cases hr
      exact ⟨hnone, _, hget, hexp⟩
    · have hview : view env { s with store := s.store.setRef pk ref cur.expireAt cur.dt } k =
          s.view env k := view_congr rfl (hothers k hk)
      rw [hview]
      apply (h.held k).imp_right
      exact fun hl => ⟨hl.1, hl.2.congr (le_refl _) (hothers k hk)⟩
  · intro k r hr
    by_cases hk : k = pk
    · rw [hk] at hr
      obtain rfl := mem_unique hget hr
      exact hfits
    · exact h.fits k r ((hothers k hk).symm.trans hr)

theorem not_lapsed_reapAt (s : Db) (pk : Bytes) (r : DbRecord)
    (hr : (reapAt (s.now env) s pk).store.map.get pk = some r) :
    s.store.map.get pk = some r ∧ isExpiredAt r.expireAt (s.now env) = false := by
  rw [reapAt_get, if_pos rfl, Store.live, filter_eq_some_iff] at hr
  exact ⟨hr.1, (Bool.not_eq_true' _).mp hr.2⟩

theorem Tracked.reapAt (h : Tracked env s v) (pk : Bytes) : ∃ v', Tracked env (reapAt (s.now env) s pk) v' ∧
      v' pk = (reapAt (s.now env) s pk).view env pk := by
  refine ⟨_, ?_, Derived.View.set_self v pk _⟩
  have hext := extends_reapAt (s.now env) s pk
  apply h.change pk hext.fileOf_eq hext.reads_le
  · intro k hk
    rw [reapAt_get, if_neg hk]
  · intro r hr
    exact h.fits pk r (not_lapsed_reapAt s pk r hr).1
  · by_cases hl : s.Lapsed env pk
    · obtain ⟨r, hr, hexp⟩ := hl
      have hgone : (Db.reapAt (s.now env) s pk).view env pk = none := by
        rw [view, reapAt_get, if_pos rfl, Store.live, hr, filter_some_neg (by rw [hexp]; rfl)]
        rfl
      rw [hgone, Db.reapAt, hr]
      dsimp only
      rw [if_pos hexp]
      exact h.sync.remove pk
    · have hsame : Db.reapAt (s.now env) s pk = s := by
        rw [Db.reapAt]
        cases hr : s.store.map.get pk with
        | none => rfl
        | some r => exact if_neg fun hexp => hl ⟨r, hr, hexp⟩
      rw [hsame, Derived.View.set_eq_self (h.held_live hl)]
      exact h.sync

theorem Tracked.read (h : Tracked env s v) (hle : s.reads ≤ n) : Tracked env { s with reads := n } v where
  sync := h.sync
  held pk := (h.held pk).imp_right fun hl => ⟨hl.1, hl.2.congr hle rfl⟩
  fits := h.fits

theorem Tracked.reap (h : Tracked env s v) (pk : Bytes) :
    ∃ v', Tracked env (s.reap env pk) v' ∧ v' pk = (s.reap env pk).view env pk := by
  obtain ⟨v', h', hpk⟩ := h.reapAt pk
  have hreads : (Db.reapAt (s.now env) s pk).reads ≤ s.reads + 1 := by
    rw [Db.reapAt]
    split
    · exact Nat.le_succ _
    · split <;> exact Nat.le_succ _
  exact ⟨v', h'.read hreads, hpk⟩

theorem oldDoc_of_view (hpk : v pk = s.view env pk) : s.derived.OldDoc v pk
    ((s.store.map.get pk).map (s.docOf env)) := by
  right
  rw [hpk, view, Option.map_map]
  rfl

theorem Tracked.setRef (h : Tracked env s v) (expireAt : JsInteger) (hfits : s.Fits ref)
    (hd : d.InSync env.rt (v.set pk (some (env.decode (s.materialize ref), dt)))) :
    ∃ v', Tracked env { s with store := s.store.setRef pk ref expireAt dt, derived := d } v' := by
  have hget := Store.setRef_get_self s.store pk ref expireAt dt
  refine ⟨_, h.change pk rfl (le_refl _) ?_ ?_ ?_⟩
  · exact fun k hk => Store.setRef_get_of_ne _ _ _ _ hk
  · intro r hr
    obtain rfl := mem_unique hget hr
    exact hfits
  · have hview : view env { s with store := s.store.setRef pk ref expireAt dt, derived := d } pk =
        some (env.decode (s.materialize ref), dt) := by
      rw [view]
      rw [hget]
      exact congrArg (fun value => some (env.decode value, dt)) (materialize_congr rfl ref)
    rw [hview]
    exact hd

theorem Tracked.del (h : Tracked env s v) (hd : d.InSync env.rt (v.set pk none)) :
    ∃ v', Tracked env { s with store := s.store.del pk, derived := d } v' := by
  have hget := Store.del_get_self s.store pk
  refine ⟨_, h.change pk rfl (le_refl _) ?_ ?_ ?_⟩
  · exact fun k hk => Store.del_get_of_ne _ hk
  · intro r hr
    rw [hget] at hr
    cases hr
  · rw [view]
    rw [hget]
    exact hd

theorem Tracked.applyOp (h : Tracked env s v) (op : PreparedOp DtColumns) :
    ∃ v', Tracked env (s.applyOp env op).2 v' := by
  obtain ⟨v', h', hpk⟩ := h.reap op.key
  have hold := oldDoc_of_view hpk
  cases op with
  | set key value expireAt dt => exact h'.setRef expireAt trivial (h'.sync.put hold (env.decode value) dt)
  | del key =>
    rw [applyOp_del]
    split
    · exact h'.del (h'.sync.del hold)
    · exact ⟨v', h'⟩

/-- A restored record that is expired by then has no columns. -/
def RestoreSound (env : DbEnv) (s : Db) (u : Undo) : Prop :=
  s.seqOf u.pk = u.appliedSeq → ∀ prev, u.prev = some prev →
    isExpiredAt prev.expireAt (s.now env) = true → DtIndex.normalized prev.dt = none

theorem Tracked.restoreKey (h : Tracked env s v) (hsound : RestoreSound env s u)
    (hfits : ∀ prev, u.prev = some prev → s.Fits prev.ref) :
    ∃ v', Tracked env (s.restoreKey env u) v' := by
  by_cases hseq : s.seqOf u.pk = u.appliedSeq
  · have hext := extends_restoreKey env s u
    refine ⟨_, h.change u.pk hext.fileOf_eq hext.reads_le ?_ ?_ ?_⟩
    · intro k hk
      rw [restoreKey_get env s u hseq, if_neg hk]
    · intro r hr
      rw [restoreKey_get env s u hseq, if_pos rfl, filter_eq_some_iff, map_eq_some_iff] at hr
      obtain ⟨⟨prev, hprev, rfl⟩, _⟩ := hr
      exact hfits prev hprev
    · have hremoved := h.sync.remove u.pk
      have hundone : (s.derived.remove u.pk).OldDoc (v.set u.pk none) u.pk none :=
        .inr (congrArg (Option.map Prod.fst) (Derived.View.set_self v u.pk none)).symm
      have hview : (s.restoreKey env u).view env u.pk =
          ((u.prev.map fun prev => { prev with seq := s.store.seq + 1 }).filter
            fun r => !isExpiredAt r.expireAt (s.now env)).map fun r => (s.docOf env r, r.dt) := by
        rw [view, restoreKey_get env s u hseq, if_pos rfl]
        congr 1
        funext r
        rw [docOf_congr env hext.fileOf_eq]
      rw [hview]
      cases hprev : u.prev with
      | none =>
        rw [restoreKey_derived_none env s hseq hprev]
        exact hremoved
      | some prev =>
        cases hexp : isExpiredAt prev.expireAt (s.now env) with
        | true =>
          have hnone : Option.filter (fun r : DbRecord => !isExpiredAt r.expireAt (s.now env))
              (some { prev with seq := s.store.seq + 1 }) = none :=
            filter_some_neg (by dsimp only; rw [hexp]; rfl)
          have htwice := hremoved.remove u.pk
          rw [Derived.View.set_set] at htwice
          rw [restoreKey_derived_expired env s hseq hprev hexp, map_some, hnone]
          exact htwice.put_undefined (Derived.View.set_self ..) (hsound hseq prev hprev hexp)
        | false =>
          have hsome : Option.filter (fun r : DbRecord => !isExpiredAt r.expireAt (s.now env))
              (some { prev with seq := s.store.seq + 1 }) = some { prev with seq := s.store.seq + 1 } :=
            filter_some_pos (by dsimp only; rw [hexp]; rfl)
          have hput := hremoved.put hundone (s.docOf env prev) prev.dt
          rw [Derived.View.set_set] at hput
          rw [restoreKey_derived_live env s hseq hprev hexp, map_some, hsome]
          exact hput
  · rw [restoreKey_skip env s u hseq]
    exact ⟨v, h⟩

theorem Tracked.applyOps (h : Tracked env s v) (ops : List (PreparedOp DtColumns)) :
    ∃ v', Tracked env (s.applyOps env ops).2 v' :=
  fold_invariant (I := fun p : JsMap Bytes (Option DbRecord) × Db => ∃ v', Tracked env p.2 v')
    (fun _ op ⟨_, h⟩ => h.applyOp op) ⟨v, h⟩ ops

theorem Tracked.expireRef (h : Tracked env s v)
    (hcur : s.store.map.get pk = some cur) (hpk : v pk = s.view env pk) (expireAt : JsInteger) :
    ∃ v', Tracked env
      { s with store := s.store.setRef pk (.memory (s.materialize cur.ref)) expireAt cur.dt } v' := by
  have hsame : v.set pk (some (env.decode (s.materialize cur.ref), cur.dt)) = v := by
    apply Derived.View.set_eq_self
    rw [hpk, view, hcur]
    rfl
  have hsync : s.derived.InSync env.rt
      (v.set pk (some (env.decode (s.materialize (.memory (s.materialize cur.ref))), cur.dt))) := by
    rw [← hsame] at h
    exact h.sync
  have hfits : s.Fits (.memory (s.materialize cur.ref)) := trivial
  exact h.setRef expireAt hfits hsync

/-- A publication is for the record that its commit left. -/
def PublicationOk (s : Db) (p : Publication) : Prop :=
  ∀ n, p.seq = some n → n ≤ s.store.seq ∧ ∀ r, s.store.map.get p.pk = some r → r.seq = n →
    r.expireAt = p.expireAt ∧ r.dt = p.dt ∧ (s.materialize r.ref).length = p.valLen

theorem PublicationOk.extends (h : s.PublicationOk p) (hext : s.Extends s') : s'.PublicationOk p := by
  intro n hn
  obtain ⟨hle, hrec⟩ := h n hn
  refine ⟨le_trans hle hext.seq_le, fun r hr hseq => ?_⟩
  rw [materialize_congr hext.fileOf_eq]
  exact hrec r (hext.kept p.pk r hr (hseq ▸ hle)) hseq

/-- The published place holds the value that the record has. -/
def PublishSound (offset : Nat) (s : Db) (p : Publication) : Prop :=
  ∀ cur, s.store.map.get p.pk = some cur → some cur.seq = p.seq →
    slice s.wal.file (offset + p.valueOff) p.valLen = s.materialize cur.ref

theorem Tracked.publishWalRef (h : Tracked env s v) (hok : s.PublicationOk p)
    (hsound : PublishSound offset s p) : Tracked env (publishWalRef offset s p) v := by
  rw [Db.publishWalRef]
  cases hcur : s.store.map.get p.pk with
  | none => exact h
  | some cur =>
    dsimp only
    split
    · rename_i hseq
      obtain ⟨hexp, hdt, hlen⟩ := (hok cur.seq hseq.symm).2 cur hcur rfl
      have hvalue := hsound cur hcur hseq
      have hfits : s.Fits (.disk { file := .wal, off := offset + p.valueOff, len := p.valLen }) :=
        (congrArg length hvalue).trans hlen
      rw [← hexp, ← hdt]
      exact h.rewrite hcur hfits hvalue
    · exact h

theorem Tracked.grows (h : Tracked env s v) (hfile : w.file = s.wal.file ++ more) :
    Tracked env { s with wal := w } v where
  sync := h.sync
  held pk := by
    have hview : view env { s with wal := w } pk = s.view env pk := by
      rw [view, view]
      cases hr : s.store.map.get pk with
      | none => rfl
      | some r =>
        have hgrows := materialize_grows s { s with wal := w } rfl hfile (h.fits pk r hr)
        rw [map_some, map_some, docOf, docOf, hgrows.1]
    rw [hview]
    exact h.held pk
  fits pk r hr := (materialize_grows s { s with wal := w } rfl hfile (h.fits pk r hr)).2

theorem PublicationOk.grows (hfits : ∀ pk r, s.store.map.get pk = some r → s.Fits r.ref)
    (h : s.PublicationOk p) (hfile : w.file = s.wal.file ++ more) :
    PublicationOk { s with wal := w } p := by
  intro n hn
  obtain ⟨hle, hrec⟩ := h n hn
  refine ⟨hle, fun r hr hseq => ?_⟩
  have hgrows := materialize_grows s { s with wal := w } rfl hfile (hfits p.pk r hr)
  rw [hgrows.1]
  exact hrec r hr hseq

theorem Tracked.writeRecovered (h : Tracked env s v) (hold : s.derived.OldDoc v op.key oldDoc)
    (hfits : ∀ key ref expireAt dt, op = .set key ref expireAt dt → s.Fits ref) :
    ∃ v', Tracked env (s.writeRecovered env oldDoc op) v' := by
  cases op with
  | del key =>
    rw [Db.writeRecovered]
    split
    · exact h.del (h.sync.del hold)
    · exact ⟨v, h⟩
  | set key ref expireAt dt =>
    have hfit := hfits key ref expireAt dt rfl
    have hget := Store.setRef_get_self s.store key ref expireAt dt
    have hothers (k : Bytes) (hk : k ≠ key) := Store.setRef_get_of_ne s.store ref expireAt dt hk
    rw [Db.writeRecovered]
    cases hexp : isExpiredAt expireAt (s.now env) with
    | true =>
      have hreap := reap_expired env (s := { s with store := s.store.setRef key ref expireAt dt }) hget hexp
      rw [hreap]
      rw [Store.del_get_self]
      have hview : view env { s with
          store := (s.store.setRef key ref expireAt dt).del key
          derived := s.derived.remove key
          reads := s.reads + 1 } key = none := by
        rw [view]
        rw [Store.del_get_self]
        rfl
      refine ⟨_, h.change key rfl (Nat.le_succ _) ?_ ?_ ?_⟩
      · intro k hk
        exact (Store.del_get_of_ne _ hk).trans (hothers k hk)
      · intro r hr
        rw [Store.del_get_self] at hr
        cases hr
      · rw [hview]
        exact h.sync.remove key
    | false =>
      have hreap := reap_live env (s := { s with store := s.store.setRef key ref expireAt dt }) hget hexp
      rw [hreap]
      rw [hget]
      have hset := (h.setRef expireAt hfit (h.sync.put hold (env.decode (s.materialize ref)) dt))
      obtain ⟨v', hset⟩ := hset
      exact ⟨v', hset.read (Nat.le_succ _)⟩

theorem Tracked.applyRecoveredOp (h : Tracked env s v)
    (hfits : ∀ key ref expireAt dt, op = .set key ref expireAt dt → s.Fits ref) :
    ∃ v', Tracked env (s.applyRecoveredOp env op) v' := by
  rw [Db.applyRecoveredOp]
  split
  · rename_i hsize
    apply h.writeRecovered _ hfits
    left
    intro name
    rw [JsMap.get_eq_none_iff, (JsMap.size_eq_zero_iff _).mp hsize]
    exact not_mem_nil
  · obtain ⟨v', h', hpk⟩ := h.reap op.key
    apply h'.writeRecovered (oldDoc_of_view hpk)
    intro key ref expireAt dt hop
    exact (fits_congr (extends_reap env s op.key).fileOf_eq ref).mpr (hfits key ref expireAt dt hop)

theorem Tracked.applyRecovered (h : Tracked env s v) (hfs : ∀ f ∈ fs, Whole s.wal.file f.valueOff f.valLen) :
    ∃ v', Tracked env (s.applyRecovered env fs) v' := by
  induction fs generalizing s v with
  | nil => exact ⟨v, h⟩
  | cons f fs ih =>
    rw [applyRecovered]
    split
    · exact ⟨v, h⟩
    · rename_i ops hops
      obtain ⟨hf, hfs⟩ := forall_mem_cons.mp hfs
      have hfits := opRefToOps_fits (s := s) hops hf
      obtain ⟨hext, v', ht⟩ := fold_invariant_mem
        (I := fun t : Db => s.Extends t ∧ ∃ v', Tracked env t v') (by
          rintro t op hop ⟨hext, v', ht⟩
          refine ⟨hext.trans (extends_applyRecoveredOp env t op), ht.applyRecoveredOp ?_⟩
          rintro key ref expireAt dt rfl
          exact (fits_congr hext.fileOf_eq ref).mpr (hfits key ref expireAt dt hop))
        ⟨(Extends.refl s).read (Nat.le_succ _), v, h.read (Nat.le_succ _)⟩
      apply ih ht
      rw [hext.wal_eq]
      exact hfs

theorem Tracked.catchUpFromWal (h : Tracked env s v) (offset : Nat) :
    ∃ v', Tracked env (s.catchUpFromWal env offset) v' := by
  apply h.applyRecovered
  intro f hf
  obtain ⟨r, hr, hf⟩ := mem_flatMap.mp hf
  obtain ⟨i, hi⟩ := mem_scanLoop hr
  exact whole_opRefs hi f hf

end Db

end Echadron.MiniDb
