import Echadron.Persistence.AppendLogStore
import Mathlib.Data.List.Chain

namespace Echadron.Persistence
open Lib List Option

variable {R : Type} {stringify : R → Bytes} {s s' t : LogState R} {file file' : Bytes} {isReady : Bool}
  {id : Nat} {completion : Completion}

@[simp] theorem encodeBatch_nil : encodeBatch stringify [] = [] := rfl

@[simp] theorem encodeBatch_append (xs ys : List R) :
    encodeBatch stringify (xs ++ ys) = encodeBatch stringify xs ++ encodeBatch stringify ys :=
  flatMap_append

/-- The epoch in which a drain began. -/
def Operation.epoch : Operation R → Option Nat
  | ready epoch | appending epoch _ | appended epoch _ _ => some epoch
  | _ => none

def Operation.rewrites : Operation R → Option (List R)
  | behind _ records | writing records | written records _ => some records
  | _ => none

/-- Each owned flush but the oldest is a rewrite behind the one before it, the newest holds the flush
promise, and a drain that no rewrite has overtaken is alone. -/
structure Ordered (s : LogState R) : Prop where
  promise : s.flushPromise = s.flushes.getLast?.map OwnedFlush.id
  fresh : ∀ flush ∈ s.flushes, flush.id < s.nextId
  nodup : (s.flushes.map OwnedFlush.id).Nodup
  chain : s.flushes.IsChain fun a b => ∃ records, b.operation = .behind (some a.id) records
  epochs : ∀ flush ∈ s.flushes, ∀ epoch ∈ flush.operation.epoch,
    epoch ≤ s.cutoverEpoch ∧ (s.cutoverEpoch = epoch ↔ s.flushes = [flush])
  failed : ∀ flush ∈ s.flushes, flush.operation = .settled false → s.storageFailure

/-- Records that wait have a flush coming, unless a failure is outstanding. -/
def Woken (s : LogState R) : Prop := s.pending ≠ [] → s.flushScheduled ∨ s.flushes ≠ [] ∨ s.storageFailure

namespace Ordered

theorem empty : Ordered ({} : LogState R) :=
  ⟨rfl, forall_mem_nil _, nodup_nil, .nil, forall_mem_nil _, forall_mem_nil _⟩

theorem flushes_of_none (h : Ordered s) (hnone : s.flushPromise = none) : s.flushes = [] := by
  rw [h.promise, map_eq_none_iff] at hnone
  exact getLast?_eq_none_iff.mp hnone

theorem promise_of_nil (h : Ordered s) (hnil : s.flushes = []) : s.flushPromise = none := by
  rw [h.promise, hnil]
  rfl

/-- A flush that is found and is not a rewrite behind a live one is the oldest. -/
theorem head (h : Ordered s) (hfind : (s.flushes.find? fun flush => flush.id = id) = some flush)
    (hfree : ∀ p records, flush.operation = .behind (some p) records → p ∉ s.flushes.map OwnedFlush.id) :
    ∃ rest, s.flushes = ⟨id, flush.operation⟩ :: rest := by
  obtain ⟨hid, pre, rest, hsplit, _⟩ := find?_eq_some_iff_append.mp hfind
  obtain rfl : flush.id = id := of_decide_eq_true hid
  cases pre using reverseRecOn with
  | nil => exact ⟨rest, hsplit⟩
  | append_singleton pre a =>
    have hchain := h.chain
    rw [hsplit, append_assoc] at hchain
    obtain ⟨_, ⟨records, hbehind⟩, _⟩ := isChain_append_cons_cons.mp hchain
    apply absurd _ (hfree a.id records hbehind)
    rw [hsplit]
    simp

theorem put_head (h : Ordered s) (ht : t.flushes = s.flushes) (hflushes : s.flushes = ⟨id, operation⟩ :: rest)
    (operation' : Operation R) : (t.put id operation').flushes = ⟨id, operation'⟩ :: rest := by
  have hnodup := h.nodup
  rw [← ht] at hflushes hnodup
  rw [hflushes, map_cons, nodup_cons] at hnodup
  rw [LogState.put, hflushes]
  dsimp only
  rw [map_cons, if_pos rfl]
  congr 1
  conv_rhs => rw [← map_id rest]
  apply map_congr_left
  intro flush hflush
  have hmem : flush.id ∈ rest.map OwnedFlush.id := mem_map_of_mem hflush
  rw [if_neg]
  · rfl
  · rintro rfl
    exact hnodup.1 hmem

theorem settle_head (h : Ordered s) (ht : t.flushes = s.flushes)
    (hflushes : s.flushes = ⟨id, operation⟩ :: rest) (ok : Bool) :
    (t.settle id ok).flushes = rest := by
  have hnodup := h.nodup
  rw [← ht] at hflushes hnodup
  rw [hflushes, map_cons, nodup_cons] at hnodup
  rw [LogState.settle, hflushes]
  rw [filter_cons, if_neg (by simp)]
  apply filter_eq_self.mpr
  intro flush hflush
  have hmem : flush.id ∈ rest.map OwnedFlush.id := mem_map_of_mem hflush
  apply decide_eq_true
  rintro rfl
  exact hnodup.1 hmem

theorem behind_of_chain {rest : List (OwnedFlush R)}
    (h : (flush :: rest).IsChain fun a b => ∃ records, b.operation = .behind (some a.id) records) :
    ∀ b ∈ rest, ∃ prior records, b.operation = .behind prior records := by
  induction rest generalizing flush with
  | nil => exact forall_mem_nil _
  | cons b rest ih =>
    obtain ⟨⟨records, hb⟩, hrest⟩ := isChain_cons_cons.mp h
    rw [forall_mem_cons]
    exact ⟨⟨_, records, hb⟩, ih hrest⟩

theorem behind (h : Ordered s) {rest : List (OwnedFlush R)} (hflushes : s.flushes = flush :: rest) :
    ∀ b ∈ rest, ∃ prior records, b.operation = .behind prior records :=
  behind_of_chain (hflushes ▸ h.chain)

theorem promise_iff (h : Ordered s)
    (hflushes : s.flushes = flush :: rest) : s.flushPromise = some flush.id ↔ rest = [] := by
  have hnodup := h.nodup
  rw [hflushes, map_cons, nodup_cons] at hnodup
  rw [h.promise, hflushes]
  constructor
  · intro hlast
    cases rest using reverseRecOn with
    | nil => rfl
    | append_singleton rest last =>
      apply absurd _ hnodup.1
      rw [← some.inj hlast]
      simp
  · rintro rfl
    rfl

/-- The oldest flush takes its next step. -/
theorem advance (h : Ordered s) (hflushes : s.flushes = ⟨id, operation⟩ :: rest)
    (ht : t.flushes = ⟨id, operation'⟩ :: rest) (hpromise : t.flushPromise = s.flushPromise)
    (hnext : t.nextId = s.nextId) (hcutover : t.cutoverEpoch = s.cutoverEpoch)
    (hepoch : ∀ epoch ∈ operation'.epoch, operation.epoch = some epoch ∨ epoch = s.cutoverEpoch ∧ rest = [])
    (hfailed : operation' = .settled false → t.storageFailure) : Ordered t where
  promise := by
    rw [hpromise, h.promise, hflushes, ht]
    cases rest using reverseRecOn with
    | nil => rfl
    | append_singleton rest last => rw [← cons_append, ← cons_append, getLast?_concat,
        getLast?_concat]
  fresh := by
    have hfresh := h.fresh
    rw [hflushes, forall_mem_cons] at hfresh
    rw [ht, hnext, forall_mem_cons]
    exact hfresh
  nodup := by
    have hnodup := h.nodup
    rw [hflushes] at hnodup
    rw [ht]
    exact hnodup
  chain := by
    have hchain := h.chain
    rw [hflushes] at hchain
    rw [ht]
    cases rest with
    | nil => exact .singleton _
    | cons b rest =>
      obtain ⟨hb, hrest⟩ := isChain_cons_cons.mp hchain
      exact isChain_cons_cons.mpr ⟨hb, hrest⟩
  epochs := by
    have hepochs := h.epochs
    rw [hflushes, forall_mem_cons] at hepochs
    rw [ht, hcutover, forall_mem_cons]
    constructor
    · intro epoch he
      rcases hepoch epoch he with hsame | ⟨rfl, rfl⟩
      · obtain ⟨hle, hiff⟩ := hepochs.1 epoch hsame
        refine ⟨hle, hiff.trans ?_⟩
        simp
      · exact ⟨le_refl _, by simp⟩
    · intro b hb epoch he
      obtain ⟨prior, records, hbehind⟩ := h.behind hflushes b hb
      rw [hbehind] at he
      cases he
  failed := by
    rw [ht, forall_mem_cons]
    refine ⟨hfailed, ?_⟩
    intro b hb he
    obtain ⟨prior, records, hbehind⟩ := h.behind hflushes b hb
    rw [hbehind] at he
    cases he

theorem finish (h : Ordered s) (hflushes : s.flushes = ⟨id, operation⟩ :: rest) (ht : t.flushes = rest)
    (hpromise : t.flushPromise = rest.getLast?.map OwnedFlush.id) (hnext : t.nextId = s.nextId) :
    Ordered t where
  promise := by rw [hpromise, ht]
  fresh := by
    have hfresh := h.fresh
    rw [hflushes, forall_mem_cons] at hfresh
    rw [ht, hnext]
    exact hfresh.2
  nodup := by
    have hnodup := h.nodup
    rw [hflushes, map_cons, nodup_cons] at hnodup
    rw [ht]
    exact hnodup.2
  chain := by
    have hchain := h.chain
    rw [hflushes] at hchain
    rw [ht]
    exact hchain.tail
  epochs b hb epoch he := by
    rw [ht] at hb
    obtain ⟨prior, records, hbehind⟩ := h.behind hflushes b hb
    rw [hbehind] at he
    cases he
  failed b hb he := by
    rw [ht] at hb
    obtain ⟨prior, records, hbehind⟩ := h.behind hflushes b hb
    rw [hbehind] at he
    cases he

theorem startDrain (hflushes : (s.ownFlush (.ready s.cutoverEpoch)).flushes = [⟨s.nextId, .ready s.cutoverEpoch⟩]) :
    Ordered (s.ownFlush (.ready s.cutoverEpoch)) := by
  constructor
  · rw [hflushes]
    rfl
  · rw [hflushes]
    intro flush hflush
    obtain rfl := mem_singleton.mp hflush
    exact Nat.lt_succ_self _
  · rw [hflushes]
    exact pairwise_singleton _ _
  · rw [hflushes]
    exact .singleton _
  · rw [hflushes]
    intro flush hflush epoch he
    obtain rfl := mem_singleton.mp hflush
    cases he
    exact ⟨le_refl _, iff_of_true rfl rfl⟩
  · rw [hflushes]
    intro flush hflush he
    obtain rfl := mem_singleton.mp hflush
    cases he

section

variable (h : Ordered s)
include h

theorem flushState_cases : s.flushState.1 = s ∨
    s.flushes = [] ∧ s.storageFailure = false ∧ s.flushState.1 = s.ownFlush (.ready s.cutoverEpoch) ∧
      (s.ownFlush (.ready s.cutoverEpoch)).flushes = [⟨s.nextId, .ready s.cutoverEpoch⟩] := by
  apply s.flushState_cases.imp_right
  rintro ⟨hpromise, hfailure, heq⟩
  have hnil := h.flushes_of_none hpromise
  refine ⟨hnil, hfailure, heq, ?_⟩
  rw [LogState.ownFlush_flushes, hnil, nil_append]

theorem flushState : Ordered s.flushState.1 := by
  rcases h.flushState_cases with heq | ⟨-, -, heq, hflushes⟩
  · exact heq.symm ▸ h
  · exact heq.symm ▸ startDrain hflushes

theorem rewrite (records : List R) : Ordered (s.rewrite records) := by
  have hnew {flush : OwnedFlush R} (hflush : flush ∈ (s.rewrite records).flushes) :
      flush ∈ s.flushes ∨ flush = ⟨s.nextId, .behind s.flushPromise records⟩ := by
    exact (mem_append.mp hflush).imp_right mem_singleton.mp
  constructor
  · rw [LogState.rewrite_flushes, getLast?_concat]
    rfl
  · intro flush hflush
    rcases hnew hflush with hold | rfl
    · exact (h.fresh flush hold).trans (Nat.lt_succ_self _)
    · exact Nat.lt_succ_self _
  · rw [LogState.rewrite_flushes, map_append, nodup_append]
    refine ⟨h.nodup, pairwise_singleton _ _, ?_⟩
    intro a ha b hb
    obtain ⟨flush, hflush, rfl⟩ := mem_map.mp ha
    obtain rfl := mem_singleton.mp hb
    exact (h.fresh flush hflush).ne
  · apply isChain_append.mpr
    refine ⟨h.chain, .singleton _, ?_⟩
    intro last hlast new hnew
    cases hnew
    refine ⟨records, ?_⟩
    rw [h.promise, hlast]
    rfl
  · intro flush hflush epoch he
    rcases hnew hflush with hold | rfl
    · have hle := (h.epochs flush hold epoch he).1
      rw [LogState.rewrite_cutoverEpoch]
      refine ⟨by omega, iff_of_false (by omega) ?_⟩
      intro hsingle
      have hlength := congrArg length hsingle
      have hpos := length_pos_of_mem hold
      rw [LogState.rewrite_flushes, length_append, length_singleton, length_singleton] at hlength
      omega
    · cases he
  · intro flush hflush he
    rcases hnew hflush with hold | rfl
    · exact h.failed flush hold he
    · cases he

theorem append (record : R) : Ordered (s.append record) := by
  rw [LogState.append, LogState.scheduleFlush]
  split
  · exact { h with }
  · exact { h with }

theorem scheduled : Ordered { s with flushScheduled := false } := { h with }

theorem runScheduled (hrun : s.runScheduled = some s') : Ordered s' := by
  obtain ⟨_, hrun⟩ := ite_none_right_eq_some.mp hrun
  cases hrun
  exact h.scheduled.flushState

end

end Ordered

/-- What an owned flush does next: a drain sees that a rewrite has overtaken it, or starts, or has a
batch on disk; a rewrite starts or has ended; the rest of the flush drains again or settles. -/
inductive Move (s : LogState R) (isReady : Bool) (id : Nat) : Operation R → LogState R → Prop where
  | overtaken (epoch : Nat) (hready : isReady = true) (hepoch : s.cutoverEpoch ≠ epoch) :
    Move s isReady id (.ready epoch) (s.put id (.settled true))
  | start (epoch : Nat) (hready : isReady = true) (hepoch : s.cutoverEpoch = epoch) :
    Move s isReady id (.ready epoch) (s.drainOn id epoch)
  | kept (epoch : Nat) (batch : List R) (hepoch : s.cutoverEpoch ≠ epoch) :
    Move s isReady id (.appended epoch batch true) (s.put id (.settled true))
  | taken (epoch : Nat) (batch : List R) (hepoch : s.cutoverEpoch = epoch) :
    Move s isReady id (.appended epoch batch true)
      ({ s with pending := s.pending.drop batch.length }.drainOn id epoch)
  | failed (epoch : Nat) (batch : List R) :
    Move s isReady id (.appended epoch batch false)
      ({ s with storageFailure := true }.put id (.settled false))
  | replace (prior : Option Nat) (records : List R)
    (hprior : (prior.elim isReady fun p => p ∉ s.flushes.map OwnedFlush.id) = true) :
    Move s isReady id (.behind prior records) (s.put id (.writing records))
  | written (records : List R) (ok : Bool) :
    Move s isReady id (.written records ok) ({ s with storageFailure := !ok }.put id (.settled ok))
  | again (hpromise : s.flushPromise = some id) (hpending : s.pending ≠ []) :
    Move s isReady id (.settled true) (s.put id (.ready s.cutoverEpoch))
  | done (ok : Bool) (hpromise : s.flushPromise = some id) (hpending : ok = true → s.pending = []) :
    Move s isReady id (.settled ok) ({ s with flushPromise := none }.settle id ok)
  | handed (ok : Bool) (hpromise : s.flushPromise ≠ some id) :
    Move s isReady id (.settled ok) (s.settle id ok)

theorem move_finishOwnedFlush (s : LogState R) (isReady : Bool) (id : Nat) (ok : Bool) :
    Move s isReady id (.settled ok) (s.finishOwnedFlush id ok) := by
  rw [LogState.finishOwnedFlush]
  split
  · rename_i hpromise
    split
    · rename_i hagain
      obtain ⟨hok, hpending⟩ := hagain
      subst hok
      exact .again hpromise hpending
    · rename_i hnot
      apply Move.done ok hpromise
      intro hok
      by_contra hpending
      exact hnot ⟨hok, hpending⟩
  · rename_i hpromise
    exact .handed ok hpromise

section

variable (h : Ordered s)
include h

theorem Ordered.resume_cases (hresume : s.resume isReady id = some s') :
    ∃ operation rest, s.flushes = ⟨id, operation⟩ :: rest ∧ Move s isReady id operation s' := by
  obtain ⟨flush, hfind, hresume⟩ := bind_eq_some_iff.mp hresume
  have hfree (hnot : ∀ prior records, flush.operation ≠ .behind prior records) :
      ∀ p records, flush.operation = .behind (some p) records → p ∉ s.flushes.map OwnedFlush.id :=
    fun p records he => absurd he (hnot (some p) records)
  have hhead (hfree : ∀ p records, flush.operation = .behind (some p) records →
      p ∉ s.flushes.map OwnedFlush.id) (hmove : Move s isReady id flush.operation s') :
      ∃ operation rest, s.flushes = ⟨id, operation⟩ :: rest ∧ Move s isReady id operation s' := by
    obtain ⟨rest, hflushes⟩ := h.head hfind hfree
    exact ⟨flush.operation, rest, hflushes, hmove⟩
  cases hoperation : flush.operation with
  | ready epoch =>
    rw [hoperation] at hresume hhead hfree
    dsimp only at hresume
    apply hhead (hfree (by simp))
    split at hresume
    · rename_i hready
      cases hresume
      split
      · rename_i hepoch
        exact .overtaken epoch hready hepoch
      · rename_i hepoch
        exact .start epoch hready (not_not.mp hepoch)
    · cases hresume
  | appended epoch batch ok =>
    rw [hoperation] at hresume hhead hfree
    dsimp only at hresume
    apply hhead (hfree (by simp))
    cases ok with
    | true =>
      rw [if_pos rfl] at hresume
      split at hresume
      · rename_i hepoch
        cases hresume
        exact .kept epoch batch hepoch
      · rename_i hepoch
        cases hresume
        exact .taken epoch batch (not_not.mp hepoch)
    | false =>
      cases hresume
      exact .failed epoch batch
  | behind prior records =>
    rw [hoperation] at hresume hhead
    dsimp only at hresume
    split at hresume
    · rename_i hprior
      cases hresume
      apply hhead
      · intro p records' he
        cases he
        exact of_decide_eq_true hprior
      · exact .replace prior records hprior
    · cases hresume
  | written records ok =>
    rw [hoperation] at hresume hhead hfree
    cases hresume
    exact hhead (hfree (by simp)) (.written records ok)
  | settled ok =>
    rw [hoperation] at hresume hhead hfree
    cases hresume
    exact hhead (hfree (by simp)) (move_finishOwnedFlush s isReady id ok)
  | appending epoch batch =>
    rw [hoperation] at hresume
    cases hresume
  | writing records =>
    rw [hoperation] at hresume
    cases hresume

theorem Move.flushes (hflushes : s.flushes = ⟨id, operation⟩ :: rest) (hmove : Move s isReady id operation s') :
    (s'.flushes = rest ∧ (rest = [] ∨ s'.flushPromise = s.flushPromise)) ∨
      ∃ operation', s'.flushes = ⟨id, operation'⟩ :: rest ∧ s'.flushPromise = s.flushPromise := by
  cases hmove with
  | done ok hpromise hpending => exact .inl ⟨h.settle_head rfl hflushes ok, .inl ((h.promise_iff hflushes).mp hpromise)⟩
  | handed ok hpromise => exact .inl ⟨h.settle_head rfl hflushes ok, .inr rfl⟩
  | _ => exact .inr ⟨_, h.put_head rfl hflushes _, rfl⟩

/-- No flush of a buffer begins to rewrite, and the records stay while one rewrites. -/
structure Keeps (s s' : LogState R) : Prop where
  flushes : ∀ flush ∈ s'.flushes, ∃ old ∈ s.flushes, old.id = flush.id ∧
    ∀ records ∈ flush.operation.rewrites, records ∈ old.operation.rewrites
  pending : s'.pending <:+ s.pending
  kept : ∀ flush ∈ s.flushes, flush.operation.rewrites.isSome → s'.pending = s.pending
  outcomes : s.outcomes <+: s'.outcomes
  retired : s'.retired = s.retired
  nextId : s'.nextId = s.nextId

omit h in
theorem Keeps.head (hflushes : s.flushes = ⟨id, operation⟩ :: rest) (ht : s'.flushes = ⟨id, operation'⟩ :: rest)
    (hrewrites : ∀ records ∈ operation'.rewrites, records ∈ operation.rewrites) (hpending : s'.pending = s.pending)
    (houtcomes : s'.outcomes = s.outcomes) (hretired : s'.retired = s.retired) (hnext : s'.nextId = s.nextId) :
    Keeps s s' where
  flushes flush hflush := by
    rw [ht] at hflush
    rcases mem_cons.mp hflush with rfl | hrest
    · exact ⟨⟨id, operation⟩, hflushes ▸ mem_cons_self, rfl, hrewrites⟩
    · exact ⟨flush, hflushes ▸ mem_cons_of_mem _ hrest, rfl, fun _ hrecords => hrecords⟩
  pending := hpending ▸ suffix_refl _
  kept _ _ _ := hpending
  outcomes := houtcomes ▸ prefix_refl _
  retired := hretired
  nextId := hnext

theorem Ordered.move_keeps (hflushes : s.flushes = ⟨id, operation⟩ :: rest) (hmove : Move s isReady id operation s') :
    Keeps s s' := by
  have hput {t : LogState R} (ht : t.flushes = s.flushes) (operation' : Operation R) :=
    h.put_head ht hflushes operation'
  have hrest {t : LogState R} (ht : t.flushes = rest) : ∀ flush ∈ t.flushes, ∃ old ∈ s.flushes, old.id = flush.id ∧
      ∀ records ∈ flush.operation.rewrites, records ∈ old.operation.rewrites := fun flush hflush =>
    ⟨flush, hflushes ▸ mem_cons_of_mem _ (ht ▸ hflush), rfl, fun _ hrecords => hrecords⟩
  cases hmove with
  | taken epoch batch hepoch =>
    have halone := (h.epochs ⟨id, .appended epoch batch true⟩ (hflushes ▸ mem_cons_self) epoch rfl).2
    have hdrains : Keeps s (s.put id (if s.pending.drop batch.length = [] then .settled true else
        .appending epoch (s.pending.drop batch.length))) :=
      .head hflushes (hput rfl _) (fun _ hrecords => by split at hrecords <;> cases hrecords) rfl rfl rfl rfl
    refine { hdrains with pending := drop_suffix .., kept := ?_ }
    intro flush hflush hsome
    rw [halone.mp hepoch] at hflush
    obtain rfl := mem_singleton.mp hflush
    cases hsome
  | done ok hpromise hpending =>
    exact ⟨hrest (h.settle_head (t := { s with flushPromise := none }) rfl hflushes ok), suffix_refl _,
      fun _ _ _ => rfl, prefix_append .., rfl, rfl⟩
  | handed ok hpromise =>
    exact ⟨hrest (h.settle_head rfl hflushes ok), suffix_refl _, fun _ _ _ => rfl, prefix_append .., rfl, rfl⟩
  | replace prior records hprior => exact .head hflushes (hput rfl _) (fun _ hrecords => hrecords) rfl rfl rfl rfl
  | start epoch hready hepoch =>
    refine .head hflushes (hput rfl _) ?_ rfl rfl rfl rfl
    intro records hrecords
    split at hrecords <;> cases hrecords
  | failed epoch batch =>
    exact .head hflushes (hput (t := { s with storageFailure := true }) rfl _) (fun _ hrecords => by cases hrecords)
      rfl rfl rfl rfl
  | written records ok =>
    exact .head hflushes (hput (t := { s with storageFailure := !ok }) rfl _) (fun _ hrecords => by cases hrecords)
      rfl rfl rfl rfl
  | _ => exact .head hflushes (hput rfl _) (fun _ hrecords => by cases hrecords) rfl rfl rfl rfl

theorem Ordered.move (hflushes : s.flushes = ⟨id, operation⟩ :: rest) (hmove : Move s isReady id operation s') :
    Ordered s' := by
  have hput {t : LogState R} (ht : t.flushes = s.flushes) (operation' : Operation R) :=
    h.put_head ht hflushes operation'
  cases hmove with
  | overtaken epoch hready hepoch =>
    apply h.advance hflushes (hput rfl _) rfl rfl rfl
    · intro _ he
      cases he
    · exact fun he => by cases he
  | start epoch hready hepoch =>
    apply h.advance hflushes (hput rfl _) rfl rfl rfl
    · intro _ he
      split at he
      · cases he
      · exact .inl he
    · intro he
      split at he <;> cases he
  | kept epoch batch hepoch =>
    apply h.advance hflushes (hput rfl _) rfl rfl rfl
    · intro _ he
      cases he
    · exact fun he => by cases he
  | taken epoch batch hepoch =>
    apply h.advance hflushes (hput (t := { s with pending := s.pending.drop batch.length }) rfl _) rfl rfl rfl
    · intro _ he
      split at he
      · cases he
      · exact .inl he
    · intro he
      split at he <;> cases he
  | failed epoch batch =>
    apply h.advance hflushes (hput (t := { s with storageFailure := true }) rfl _) rfl rfl rfl
    · intro _ he
      cases he
    · exact fun _ => rfl
  | replace prior records hprior =>
    apply h.advance hflushes (hput rfl _) rfl rfl rfl
    · intro _ he
      cases he
    · exact fun he => by cases he
  | written records ok =>
    apply h.advance hflushes (hput (t := { s with storageFailure := !ok }) rfl _) rfl rfl rfl
    · intro _ he
      cases he
    · intro he
      cases he
      rfl
  | again hpromise hpending =>
    apply h.advance hflushes (hput rfl _) rfl rfl rfl
    · intro _ he
      exact .inr ⟨(some.inj he).symm, (h.promise_iff hflushes).mp hpromise⟩
    · exact fun he => by cases he
  | done ok hpromise hpending =>
    apply h.finish hflushes (h.settle_head (t := { s with flushPromise := none }) rfl hflushes ok)
    · rw [(h.promise_iff hflushes).mp hpromise]
      rfl
    · rfl
  | handed ok hpromise =>
    apply h.finish hflushes (h.settle_head rfl hflushes ok)
    · change s.flushPromise = _
      rw [h.promise, hflushes]
      cases rest with
      | nil => exact absurd ((h.promise_iff hflushes).mpr rfl) hpromise
      | cons b rest => rw [getLast?_cons_cons]
    · rfl

theorem Woken.move (hflushes : s.flushes = ⟨id, operation⟩ :: rest) (hmove : Move s isReady id operation s') :
    Woken s' := by
  have hput {t : LogState R} (ht : t.flushes = s.flushes) (operation' : Operation R) :
      (t.put id operation').flushes ≠ [] := by
    rw [h.put_head ht hflushes]
    exact cons_ne_nil _ _
  intro hpending'
  cases hmove with
  | done ok hpromise hpending =>
    right
    right
    cases ok with
    | true => exact absurd (hpending rfl) hpending'
    | false => exact h.failed _ (hflushes ▸ mem_cons_self) rfl
  | handed ok hpromise =>
    right
    left
    rw [h.settle_head rfl hflushes]
    intro hrest
    exact hpromise ((h.promise_iff hflushes).mpr hrest)
  | _ => exact .inr (.inl (hput rfl _))

section

variable (hcomplete : s.complete stringify file id completion = some (s', file'))
include hcomplete

theorem Ordered.complete_cases :
    ∃ operation operation' rest, s.flushes = ⟨id, operation⟩ :: rest ∧ s' = s.put id operation' ∧
      ((∃ epoch batch, operation = .appending epoch batch ∧ operation' = .appended epoch batch completion.ok ∧
          file' = if completion.applied then file ++ encodeBatch stringify batch else file) ∨
        ∃ records, operation = .writing records ∧ operation' = .written records completion.ok ∧
          file' = if completion.applied then encodeBatch stringify records else file) := by
  obtain ⟨flush, hfind, hcomplete⟩ := bind_eq_some_iff.mp hcomplete
  have hhead (hnot : ∀ prior records, flush.operation ≠ .behind prior records) :=
    h.head hfind fun p records he => absurd he (hnot (some p) records)
  cases hoperation : flush.operation with
  | appending epoch batch =>
    rw [hoperation] at hcomplete hhead
    obtain ⟨rest, hflushes⟩ := hhead (by simp)
    obtain ⟨rfl, rfl⟩ := Prod.mk.inj (some.inj hcomplete)
    exact ⟨_, _, rest, hflushes, rfl, .inl ⟨epoch, batch, rfl, rfl, rfl⟩⟩
  | writing records =>
    rw [hoperation] at hcomplete hhead
    obtain ⟨rest, hflushes⟩ := hhead (by simp)
    obtain ⟨rfl, rfl⟩ := Prod.mk.inj (some.inj hcomplete)
    exact ⟨_, _, rest, hflushes, rfl, .inr ⟨records, rfl, rfl, rfl⟩⟩
  | _ =>
    rw [hoperation] at hcomplete
    cases hcomplete

theorem Ordered.complete_keeps : Keeps s s' := by
  obtain ⟨operation, operation', rest, hflushes, rfl, hends⟩ := h.complete_cases hcomplete
  refine .head hflushes (h.put_head rfl hflushes operation') ?_ rfl rfl rfl rfl
  intro records hrecords
  rcases hends with ⟨_, _, rfl, rfl, _⟩ | ⟨_, rfl, rfl, _⟩
  · cases hrecords
  · exact hrecords

theorem Ordered.complete : Ordered s' := by
  obtain ⟨operation, operation', rest, hflushes, rfl, hends⟩ := h.complete_cases hcomplete
  apply h.advance hflushes (h.put_head rfl hflushes operation') rfl rfl rfl
  · intro epoch he
    rcases hends with ⟨_, _, rfl, rfl, _⟩ | ⟨_, rfl, rfl, _⟩
    · exact .inl he
    · cases he
  · intro he
    rcases hends with ⟨_, _, rfl, rfl, _⟩ | ⟨_, rfl, rfl, _⟩ <;> cases he

end

end

end Echadron.Persistence
