import Echadron.Persistence.OwnedLog

namespace Echadron.Persistence
open Lib List Option

variable {R : Type} {stringify : R → Bytes} {s s' : LogState R} {file file' : Bytes} {isReady : Bool}
  {id : Nat} {completion : Completion}

/-! Buffers that retire. -/

/-- A flush that finds nothing to do. -/
def Operation.Idle : Operation R → Prop
  | ready _ => True
  | settled ok => ok = true
  | _ => False

structure Drained (s : LogState R) : Prop where
  pending : s.pending = []
  idle : ∀ flush ∈ s.flushes, flush.operation.Idle

/-- A retirement waits for the newest flush; once that is over, all records are on disk, or a failure
is outstanding. -/
structure Awaiting (s : LogState R) (promise : Option Nat) : Prop where
  newest : ∀ p ∈ promise, p ∈ s.flushes.map OwnedFlush.id → s.flushPromise = some p
  ended : (∀ p ∈ promise, p ∉ s.flushes.map OwnedFlush.id) → Drained s ∨ s.storageFailure = true ∧ s.flushes = []

structure Sound (s : LogState R) : Prop where
  ordered : Ordered s
  refs : s.retired = true → s.refCount = 0
  retires : s.retired = s.retirement.isSome
  awaits : ∀ promise, s.retirement = some (.awaits promise) → Awaiting s promise

theorem flushState_fields (s : LogState R) : s.flushState.1.retired = s.retired ∧
    s.flushState.1.refCount = s.refCount ∧ s.flushState.1.retirement = s.retirement ∧
    s.flushState.1.pending = s.pending ∧ s.flushState.1.storageFailure = s.storageFailure ∧
    s.flushState.1.outcomes = s.outcomes := by
  rcases s.flushState_cases with heq | ⟨-, -, heq⟩ <;> rw [heq] <;> exact ⟨rfl, rfl, rfl, rfl, rfl, rfl⟩

theorem Drained.flushState (h : Drained s) (ho : Ordered s) : Drained s.flushState.1 := by
  rcases ho.flushState_cases with heq | ⟨-, -, heq, hflushes⟩
  · exact heq.symm ▸ h
  · rw [heq]
    refine ⟨h.pending, ?_⟩
    intro flush hflush
    rw [hflushes] at hflush
    obtain rfl := mem_singleton.mp hflush
    trivial

theorem Drained.move (h : Drained s) (ho : Ordered s) (hflushes : s.flushes = ⟨id, operation⟩ :: rest)
    (hmove : Move s isReady id operation s') : Drained s' := by
  have hidle := h.idle
  rw [hflushes, forall_mem_cons] at hidle
  have hput (operation' : Operation R) (hidle' : operation'.Idle) : Drained (s.put id operation') := by
    refine ⟨h.pending, ?_⟩
    rw [ho.put_head rfl hflushes, forall_mem_cons]
    exact ⟨hidle', hidle.2⟩
  cases hmove with
  | overtaken epoch hready hepoch => exact hput _ rfl
  | start epoch hready hepoch =>
    rw [LogState.drainOn, if_pos h.pending]
    exact hput _ rfl
  | again hpromise hpending => exact hput _ trivial
  | done ok hpromise hpending =>
    refine ⟨h.pending, ?_⟩
    rw [ho.settle_head (t := { s with flushPromise := none }) rfl hflushes]
    exact hidle.2
  | handed ok hpromise =>
    refine ⟨h.pending, ?_⟩
    rw [ho.settle_head rfl hflushes]
    exact hidle.2
  | _ => exact hidle.1.elim

namespace Awaiting

variable {promise : Option Nat} (h : Awaiting s promise)

include h

theorem flushState (ho : Ordered s) : Awaiting s.flushState.1 promise := by
  cases hpromise : s.flushPromise with
  | some current =>
    rw [LogState.flushState, hpromise]
    exact h
  | none =>
    have hnil := ho.flushes_of_none hpromise
    by_cases hfailure : s.storageFailure = true
    · rw [LogState.flushState, hpromise]
      rw [if_pos hfailure]
      exact h
    · have hdrained := (h.ended (by simp [hnil])).resolve_right fun hfailed => hfailure hfailed.1
      constructor
      · intro p hp hmem
        rw [LogState.flushState, hpromise] at hmem ⊢
        rw [if_neg hfailure] at hmem ⊢
        rw [LogState.ownFlush_flushes, hnil] at hmem
        rw [mem_singleton.mp hmem]
        rfl
      · exact fun _ => .inl (hdrained.flushState ho)

theorem move (ho : Ordered s)
    (hflushes : s.flushes = ⟨id, operation⟩ :: rest) (hmove : Move s isReady id operation s') :
    Awaiting s' promise := by
  have hids : s.flushes.map OwnedFlush.id = id :: rest.map OwnedFlush.id := by
    rw [hflushes]
    rfl
  -- the flush that is awaited settles with this step, unless it has before
  have hover (hgone : ∀ p ∈ promise, p ∉ s'.flushes.map OwnedFlush.id) {p : Nat} (hp : p ∈ promise)
      (hlive : p ∈ s.flushes.map OwnedFlush.id) : s.flushPromise = some id ∧ s'.flushes = rest := by
    rcases hmove.flushes ho hflushes with ⟨hrest, _⟩ | ⟨operation', hput, _⟩
    · have hpid : p = id := by
        rw [hids] at hlive
        rcases mem_cons.mp hlive with he | hmem
        · exact he
        · exact absurd (hrest ▸ hmem) (hgone p hp)
      exact ⟨hpid ▸ h.newest p hp hlive, hrest⟩
    · apply absurd _ (hgone p hp)
      rw [hput]
      rwa [hids] at hlive
  constructor
  · intro p hp hmem
    rcases hmove.flushes ho hflushes with ⟨hrest, hsame⟩ | ⟨operation', hput, hsame⟩
    · rw [hrest] at hmem
      rcases hsame with hnil | hsame
      · rw [hnil] at hmem
        cases hmem
      · exact hsame.trans (h.newest p hp (hids ▸ mem_cons_of_mem _ hmem))
    · rw [hput] at hmem
      exact hsame.trans (h.newest p hp (hids ▸ hmem))
  · intro hgone
    by_cases hlive : ∀ p ∈ promise, p ∉ s.flushes.map OwnedFlush.id
    · rcases h.ended hlive with hdrained | ⟨_, hnil⟩
      · exact .inl (hdrained.move ho hflushes hmove)
      · rw [hflushes] at hnil
        cases hnil
    · push Not at hlive
      obtain ⟨p, hp, hlive⟩ := hlive
      obtain ⟨hpromise, hrest⟩ := hover hgone hp hlive
      have hnil := hrest.trans ((ho.promise_iff hflushes).mp hpromise)
      have hput {t : LogState R} (ht : t.flushes = s.flushes) (operation' : Operation R) :
          (t.put id operation').flushes ≠ [] := by
        rw [ho.put_head ht hflushes]
        exact cons_ne_nil _ _
      cases hmove with
      | done ok _ hpending =>
        cases ok with
        | true =>
          left
          refine ⟨hpending rfl, ?_⟩
          rw [hnil]
          exact forall_mem_nil _
        | false => exact .inr ⟨ho.failed _ (hflushes ▸ mem_cons_self) rfl, hnil⟩
      | handed ok hnot => exact absurd hpromise hnot
      | _ => exact absurd hnil (hput rfl _)

end Awaiting

theorem promise_mem (ho : Ordered s) (hpromise : s.flushPromise = some p) : p ∈ s.flushes.map OwnedFlush.id := by
  rw [ho.promise] at hpromise
  obtain ⟨last, hlast, rfl⟩ := map_eq_some_iff.mp hpromise
  exact mem_map_of_mem (mem_of_getLast? hlast)

theorem awaiting_flushState (ho : Ordered s) : Awaiting s.flushState.1 s.flushState.2 := by
  rw [LogState.flushState]
  cases hpromise : s.flushPromise with
  | some promise =>
    constructor
    · intro p hp _
      cases hp
      exact hpromise
    · exact fun hover => absurd (promise_mem ho hpromise) (hover promise rfl)
  | none =>
    dsimp only
    split
    · rename_i hfailure
      constructor
      · intro p hp
        cases hp
      · exact fun _ => .inr ⟨hfailure, ho.flushes_of_none hpromise⟩
    · constructor
      · intro p hp _
        cases hp
        rfl
      · intro hover
        apply absurd _ (hover s.nextId rfl)
        simp

theorem retire_cases (hretire : s.retire = some s') : ∃ promise, s.retirement = some (.awaits promise) ∧
    (∀ p ∈ promise, p ∉ s.flushes.map OwnedFlush.id) ∧ s' = { s with retirement := some .settled } := by
  rw [LogState.retire] at hretire
  cases hretirement : s.retirement with
  | none =>
    rw [hretirement] at hretire
    cases hretire
  | some retirement =>
    cases retirement with
    | settled =>
      rw [hretirement] at hretire
      cases hretire
    | awaits promise =>
      rw [hretirement] at hretire
      dsimp only at hretire
      split at hretire
      · rename_i hall
        refine ⟨promise, rfl, ?_, (some.inj hretire).symm⟩
        intro p hp
        obtain rfl := hp
        exact of_decide_eq_true hall
      · cases hretire

namespace Sound

theorem empty : Sound ({} : LogState R) :=
  ⟨.empty, fun h => absurd h Bool.false_ne_true, rfl, fun _ h => by cases h⟩

variable (h : Sound s)

include h

theorem retirement_of_active (hactive : s.retired = false) : s.retirement = none := by
  have hretires := h.retires
  rw [hactive] at hretires
  exact not_isSome_iff_eq_none.mp (Bool.eq_false_iff.mp hretires.symm)

theorem of_active (hactive : s.retired = false) (ho : Ordered s') (hretired : s'.retired = s.retired)
    (hretirement : s'.retirement = s.retirement) : Sound s' := by
  have hnone := h.retirement_of_active hactive
  refine ⟨ho, ?_, ?_, ?_⟩
  · intro hthis
    rw [hretired, hactive] at hthis
    cases hthis
  · rw [hretired, hretirement]
    exact h.retires
  · intro promise he
    rw [hretirement, hnone] at he
    cases he

theorem flushState : Sound s.flushState.1 := by
  obtain ⟨hretired, hrefs, hretirement, _⟩ := flushState_fields s
  refine ⟨h.ordered.flushState, ?_, ?_, ?_⟩
  · rw [hretired, hrefs]
    exact h.refs
  · rw [hretired, hretirement]
    exact h.retires
  · intro promise he
    rw [hretirement] at he
    exact (h.awaits promise he).flushState h.ordered

theorem scheduled : Sound { s with flushScheduled := false } where
  ordered := ⟨h.ordered.promise, h.ordered.fresh, h.ordered.nodup, h.ordered.chain, h.ordered.epochs,
    h.ordered.failed⟩
  refs := h.refs
  retires := h.retires
  awaits promise he := ⟨(h.awaits promise he).newest, fun hover =>
    ((h.awaits promise he).ended hover).imp_left fun hdrained => ⟨hdrained.pending, hdrained.idle⟩⟩

theorem runScheduled (hrun : s.runScheduled = some s') : Sound s' := by
  obtain ⟨_, hrun⟩ := ite_none_right_eq_some.mp hrun
  cases hrun
  exact h.scheduled.flushState

theorem move
    (hflushes : s.flushes = ⟨id, operation⟩ :: rest) (hmove : Move s isReady id operation s') : Sound s' := by
  have ho := h.ordered.move hflushes hmove
  have hawaits (promise : Option Nat) (he : s.retirement = some (.awaits promise)) : Awaiting s' promise :=
    (h.awaits promise he).move h.ordered hflushes hmove
  cases hmove <;> exact ⟨ho, h.refs, h.retires, hawaits⟩

theorem complete (hcomplete : s.complete stringify file id completion = some (s', file')) : Sound s' := by
  have ho := h.ordered.complete hcomplete
  obtain ⟨operation, operation', rest, hflushes, rfl, hends⟩ := h.ordered.complete_cases hcomplete
  have hput := h.ordered.put_head rfl hflushes operation'
  refine ⟨ho, h.refs, h.retires, ?_⟩
  intro promise he
  have hthis := h.awaits promise he
  have hids : (s.put id operation').flushes.map OwnedFlush.id = s.flushes.map OwnedFlush.id := by
    rw [hput, hflushes]
    rfl
  constructor
  · intro p hp hmem
    rw [hids] at hmem
    exact hthis.newest p hp hmem
  · intro hover
    rw [hids] at hover
    rcases hthis.ended hover with hdrained | ⟨_, hnil⟩
    · have hidle := hdrained.idle _ (hflushes ▸ mem_cons_self)
      rcases hends with ⟨_, _, rfl, _⟩ | ⟨_, rfl, _⟩ <;> exact hidle.elim
    · rw [hflushes] at hnil
      cases hnil

theorem release (hrefs : 0 < s.refCount) : Sound s.release := by
  have hactive : s.retired = false := by
    apply Bool.eq_false_iff.mpr
    intro hretired
    have hzero := h.refs hretired
    omega
  rw [LogState.release]
  dsimp only
  split
  · exact h.of_active hactive
      ⟨h.ordered.promise, h.ordered.fresh, h.ordered.nodup, h.ordered.chain, h.ordered.epochs,
        h.ordered.failed⟩ rfl rfl
  · have ho : Ordered { s with refCount := s.refCount - 1, retired := true } :=
      ⟨h.ordered.promise, h.ordered.fresh, h.ordered.nodup, h.ordered.chain, h.ordered.epochs, h.ordered.failed⟩
    have hflushed := ho.flushState
    have hawaiting := awaiting_flushState ho
    refine ⟨{ hflushed with }, ?_, ?_, ?_⟩
    · intro _
      refine (flushState_fields { s with refCount := s.refCount - 1, retired := true }).2.1.trans ?_
      dsimp only
      omega
    · exact (flushState_fields { s with refCount := s.refCount - 1, retired := true }).1
    · intro promise he
      cases he
      exact ⟨hawaiting.newest, fun hover => (hawaiting.ended hover).imp_left fun hdrained =>
        ⟨hdrained.pending, hdrained.idle⟩⟩

theorem retire (hretire : s.retire = some s') : Sound s' := by
  obtain ⟨promise, hretirement, _, rfl⟩ := retire_cases hretire
  refine ⟨⟨h.ordered.promise, h.ordered.fresh, h.ordered.nodup, h.ordered.chain, h.ordered.epochs,
    h.ordered.failed⟩, h.refs, ?_, ?_⟩
  · rw [h.retires, hretirement]
    rfl
  · intro promise he
    cases he

end Sound

/-! One buffer among those of a log. -/

/-- What happens to a buffer, beside appends and rewrites. -/
inductive Act {R : Type} (stringify : R → Bytes) (isReady : Bool) (file : Bytes) (s : LogState R) :
    LogState R → Bytes → Prop where
  | acquire (hactive : s.retired = false) : Act stringify isReady file s s.acquire file
  | release (hrefs : 0 < s.refCount) : Act stringify isReady file s s.release file
  | flush : Act stringify isReady file s s.flushState.1 file
  | scheduled {s' : LogState R} (hrun : s.runScheduled = some s') : Act stringify isReady file s s' file
  | resume {s' : LogState R} (id : Nat) (hresume : s.resume isReady id = some s') : Act stringify isReady file s s' file
  | complete {s' : LogState R} {file' : Bytes} (id : Nat) (completion : Completion)
    (hcomplete : s.complete stringify file id completion = some (s', file')) :
    Act stringify isReady file s s' file'
  | retire {s' : LogState R} (hretire : s.retire = some s') (hfailure : s.storageFailure = false) :
    Act stringify isReady file s s' file

/-- A rewrite of the buffer has not settled. -/
def LogState.Rewriting (s : LogState R) : Prop := ∃ flush ∈ s.flushes, flush.operation.rewrites.isSome

/-- A buffer keeps what its flushes, its records and its retirement say. -/
structure Follows (s s' : LogState R) : Prop where
  retired : s.retired = true → s'.retired = true
  rewriting : s'.Rewriting → s.Rewriting
  pending : s'.pending <:+ s.pending
  kept : s.Rewriting → s'.pending = s.pending
  outcomes : s.outcomes <+: s'.outcomes
  ids : ∀ p ∈ s'.flushes.map OwnedFlush.id, p ∈ s.flushes.map OwnedFlush.id ∨ s.nextId ≤ p
  nextId : s.nextId ≤ s'.nextId

namespace Follows

theorem refl (s : LogState R) : Follows s s :=
  ⟨fun h => h, fun h => h, suffix_refl _, fun _ => rfl, prefix_refl _, fun _ h => .inl h, le_refl _⟩

theorem of_same (hflushes : s'.flushes = s.flushes) (hretired : s.retired = true → s'.retired = true)
    (hpending : s'.pending = s.pending) (houtcomes : s'.outcomes = s.outcomes)
    (hnext : s'.nextId = s.nextId) : Follows s s' where
  retired := hretired
  rewriting h := by rwa [LogState.Rewriting, hflushes] at h
  pending := hpending ▸ suffix_refl _
  kept _ := hpending
  outcomes := houtcomes ▸ prefix_refl _
  ids p hp := by
    rw [hflushes] at hp
    exact .inl hp
  nextId := hnext.ge

theorem flushState (ho : Ordered s) : Follows s s.flushState.1 := by
  rcases ho.flushState_cases with heq | ⟨-, -, heq, hflushes⟩
  · exact heq.symm ▸ refl s
  · rw [heq]
    refine ⟨fun h => h, ?_, suffix_refl _, fun _ => rfl, prefix_refl _, ?_, Nat.le_succ _⟩
    · intro h
      obtain ⟨flush, hflush, hrewrites⟩ := h
      rw [hflushes] at hflush
      obtain rfl := mem_singleton.mp hflush
      cases hrewrites
    · intro p hp
      rw [hflushes] at hp
      obtain rfl := mem_singleton.mp hp
      exact .inr (le_refl _)

theorem of_keeps (h : Keeps s s') : Follows s s' where
  retired hretired := h.retired.trans hretired
  rewriting := by
    rintro ⟨flush, hflush, hsome⟩
    obtain ⟨old, hold, -, hrewrites⟩ := h.flushes flush hflush
    obtain ⟨records, hrecords⟩ := Option.isSome_iff_exists.mp hsome
    exact ⟨old, hold, Option.isSome_of_mem (hrewrites records hrecords)⟩
  pending := h.pending
  kept := by
    rintro ⟨flush, hflush, hsome⟩
    exact h.kept flush hflush hsome
  outcomes := h.outcomes
  ids p hp := by
    obtain ⟨flush, hflush, rfl⟩ := mem_map.mp hp
    obtain ⟨old, hold, hid, -⟩ := h.flushes flush hflush
    exact .inl (hid ▸ mem_map_of_mem hold)
  nextId := h.nextId.ge

theorem runScheduled (ho : Ordered s) (hrun : s.runScheduled = some s') : Follows s s' := by
  obtain ⟨_, hrun⟩ := Option.ite_none_right_eq_some.mp hrun
  cases hrun
  have h := flushState ho.scheduled
  exact { h with }

theorem release (ho : Ordered s) : Follows s s.release := by
  rw [LogState.release]
  split
  · exact of_same rfl (fun h => h) rfl rfl rfl
  · have ho' : Ordered { s with refCount := s.refCount - 1, retired := true } := { ho with }
    have h := flushState ho'
    refine { h with retired := ?_ }
    intro _
    exact (flushState_fields { s with refCount := s.refCount - 1, retired := true }).1

theorem act (ho : Ordered s) (hact : Act stringify isReady file s s' file') : Follows s s' := by
  cases hact with
  | acquire hactive => exact of_same rfl (fun h => h) rfl rfl rfl
  | release hrefs => exact release ho
  | flush => exact flushState ho
  | scheduled hrun => exact runScheduled ho hrun
  | resume id hresume =>
    obtain ⟨operation, rest, hflushes, hmove⟩ := ho.resume_cases hresume
    exact of_keeps (ho.move_keeps hflushes hmove)
  | complete id completion hcomplete => exact of_keeps (ho.complete_keeps hcomplete)
  | retire hretire hfailure =>
    obtain ⟨promise, _, _, rfl⟩ := retire_cases hretire
    exact of_same rfl (fun h => h) rfl rfl rfl

end Follows

theorem Sound.act (h : Sound s) (hact : Act stringify isReady file s s' file') : Sound s' := by
  cases hact with
  | acquire hactive =>
    exact h.of_active hactive ⟨h.ordered.promise, h.ordered.fresh, h.ordered.nodup, h.ordered.chain,
      h.ordered.epochs, h.ordered.failed⟩ rfl rfl
  | release hrefs => exact h.release hrefs
  | flush => exact h.flushState
  | scheduled hrun => exact h.runScheduled hrun
  | resume id hresume =>
    obtain ⟨operation, rest, hflushes, hmove⟩ := h.ordered.resume_cases hresume
    exact h.move hflushes hmove
  | complete id completion hcomplete => exact h.complete hcomplete
  | retire hretire hfailure => exact h.retire hretire

variable {w : LogState R} {base : Bytes} {owed later : List R} {waiting : List (LogState R)}

/-! Buffers that have retired, and buffers that are not ready yet. -/

structure Past (s : LogState R) : Prop where
  settled : s.retirement = some .settled
  drained : Drained s

theorem Past.act (h : Past s) (hs : Sound s) (hact : Act stringify isReady file s s' file') :
    Past s' ∧ file' = file := by
  have hretired : s.retired = true := by
    rw [hs.retires, h.settled]
    rfl
  cases hact with
  | acquire hactive =>
    rw [hretired] at hactive
    cases hactive
  | release hrefs => exact absurd (hs.refs hretired) hrefs.ne'
  | flush =>
    refine ⟨⟨?_, h.drained.flushState hs.ordered⟩, rfl⟩
    rw [(flushState_fields s).2.2.1]
    exact h.settled
  | scheduled hrun =>
    obtain ⟨_, hrun⟩ := Option.ite_none_right_eq_some.mp hrun
    cases hrun
    have hdrained : Drained { s with flushScheduled := false } := ⟨h.drained.pending, h.drained.idle⟩
    refine ⟨⟨?_, hdrained.flushState hs.scheduled.ordered⟩, rfl⟩
    rw [(flushState_fields { s with flushScheduled := false }).2.2.1]
    exact h.settled
  | resume id hresume =>
    obtain ⟨operation, rest, hflushes, hmove⟩ := hs.ordered.resume_cases hresume
    have hdrained := h.drained.move hs.ordered hflushes hmove
    have hsettled := h.settled
    cases hmove <;> exact ⟨⟨hsettled, hdrained⟩, rfl⟩
  | complete id completion hcomplete =>
    obtain ⟨operation, operation', rest, hflushes, _, hends⟩ := hs.ordered.complete_cases hcomplete
    have hidle := h.drained.idle _ (hflushes ▸ mem_cons_self)
    rcases hends with ⟨_, _, rfl, _⟩ | ⟨_, rfl, _⟩ <;> exact hidle.elim
  | retire hretire hfailure =>
    obtain ⟨promise, hretirement, _⟩ := retire_cases hretire
    rw [h.settled] at hretirement
    cases hretirement

/-- Nothing of a buffer has started. -/
structure Unstarted (s : LogState R) : Prop where
  unsettled : s.retirement ≠ some .settled
  failure : s.storageFailure = false
  starts : ∀ flush ∈ s.flushes, (∃ epoch, flush.operation = .ready epoch) ∨
    ∃ prior records, flush.operation = .behind prior records
  first : ∀ flush ∈ s.flushes.head?, ∀ p records, flush.operation ≠ .behind (some p) records
  awaits : ∀ promise, s.retirement = some (.awaits promise) → ∃ p ∈ promise, p ∈ s.flushes.map OwnedFlush.id

namespace Unstarted

theorem empty : Unstarted ({} : LogState R) :=
  ⟨by simp, rfl, forall_mem_nil _, fun _ h => (by cases h), fun _ h => (by cases h)⟩

variable (h : Unstarted s)

include h

theorem ownFlush (hstart : (∃ epoch, operation = .ready epoch) ∨
    ∃ prior records, operation = .behind prior records)
    (hfirst : s.flushes = [] → ∀ p records, operation ≠ .behind (some p) records) :
    Unstarted (s.ownFlush operation) where
  unsettled := h.unsettled
  failure := h.failure
  starts flush hflush := by
    rcases mem_snoc.mp hflush with hold | rfl
    · exact h.starts flush hold
    · exact hstart
  first flush hflush := by
    rw [LogState.ownFlush_flushes] at hflush
    cases hflushes : s.flushes with
    | nil =>
      rw [hflushes] at hflush
      cases hflush
      exact hfirst hflushes
    | cons a rest =>
      rw [hflushes] at hflush
      obtain rfl := Option.some.inj hflush
      exact h.first a (by rw [hflushes]; rfl)
  awaits promise he := by
    obtain ⟨p, hp, hmem⟩ := h.awaits promise he
    refine ⟨p, hp, ?_⟩
    rw [LogState.ownFlush_flushes, map_append]
    exact mem_append_left _ hmem

theorem flushState : Unstarted s.flushState.1 := by
  rcases s.flushState_cases with heq | ⟨-, -, heq⟩
  · exact heq.symm ▸ h
  · rw [heq]
    apply h.ownFlush (.inl ⟨_, rfl⟩)
    intro _ p records he
    cases he

theorem rewrite (ho : Ordered s) (records : List R) : Unstarted (s.rewrite records) := by
  have h' : Unstarted { s with cutoverEpoch := s.cutoverEpoch + 1 } := { h with }
  apply h'.ownFlush (.inr ⟨_, _, rfl⟩)
  intro hnil p records' he
  have hnone := ho.promise_of_nil hnil
  rw [hnone] at he
  cases he

theorem append (record : R) : Unstarted (s.append record) := by
  rw [LogState.append, LogState.scheduleFlush]
  split <;> exact { h with }

omit h in
theorem flushes_flushState (s : LogState R) : ∀ flush ∈ s.flushes, flush ∈ s.flushState.1.flushes := by
  intro flush hflush
  rcases s.flushState_cases with heq | ⟨-, -, heq⟩
  · exact heq.symm ▸ hflush
  · rw [heq, LogState.ownFlush_flushes]
    exact mem_append_left _ hflush

theorem promise_live (ho : Ordered s) : ∃ p ∈ s.flushState.2, p ∈ s.flushState.1.flushes.map OwnedFlush.id := by
  rw [LogState.flushState]
  cases hpromise : s.flushPromise with
  | some promise => exact ⟨promise, rfl, promise_mem ho hpromise⟩
  | none =>
    rw [if_neg (by rw [h.failure]; exact Bool.false_ne_true)]
    simp

theorem act (hs : Sound s) (hact : Act stringify false file s s' file') :
    Unstarted s' ∧ file' = file ∧ s'.pending = s.pending ∧ ∀ flush ∈ s.flushes, flush ∈ s'.flushes := by
  cases hact with
  | acquire hactive => exact ⟨{ h with }, rfl, rfl, fun _ hflush => hflush⟩
  | release hrefs =>
    rw [LogState.release]
    split
    · exact ⟨{ h with }, rfl, rfl, fun _ hflush => hflush⟩
    · have h' : Unstarted { s with refCount := s.refCount - 1, retired := true } := { h with }
      have ho' : Ordered { s with refCount := s.refCount - 1, retired := true } :=
        ⟨hs.ordered.promise, hs.ordered.fresh, hs.ordered.nodup, hs.ordered.chain, hs.ordered.epochs,
          hs.ordered.failed⟩
      have hflushed := h'.flushState
      refine ⟨⟨by simp, hflushed.failure, hflushed.starts, hflushed.first, ?_⟩, rfl,
        (flushState_fields { s with refCount := s.refCount - 1, retired := true }).2.2.2.1,
        flushes_flushState { s with refCount := s.refCount - 1, retired := true }⟩
      intro promise he
      cases he
      exact h'.promise_live ho'
  | flush => exact ⟨h.flushState, rfl, (flushState_fields s).2.2.2.1, flushes_flushState s⟩
  | scheduled hrun =>
    obtain ⟨_, hrun⟩ := Option.ite_none_right_eq_some.mp hrun
    cases hrun
    have h' : Unstarted { s with flushScheduled := false } := { h with }
    exact ⟨h'.flushState, rfl, (flushState_fields { s with flushScheduled := false }).2.2.2.1,
      flushes_flushState { s with flushScheduled := false }⟩
  | resume id hresume =>
    obtain ⟨operation, rest, hflushes, hmove⟩ := hs.ordered.resume_cases hresume
    have hfirst := h.first ⟨id, operation⟩ (by rw [hflushes]; rfl)
    rcases h.starts _ (hflushes ▸ mem_cons_self) with ⟨epoch, rfl⟩ | ⟨prior, records, rfl⟩
    · cases hmove with
      | overtaken _ hready => cases hready
      | start _ hready => cases hready
    · cases hmove with
      | replace _ _ hprior =>
        cases prior with
        | none => cases hprior
        | some p => exact absurd rfl (hfirst p records)
  | complete id completion hcomplete =>
    obtain ⟨operation, operation', rest, hflushes, _, hends⟩ := hs.ordered.complete_cases hcomplete
    have hstart := h.starts _ (hflushes ▸ mem_cons_self)
    rcases hends with ⟨_, _, rfl, _⟩ | ⟨_, rfl, _⟩ <;> simp at hstart
  | retire hretire hfailure =>
    obtain ⟨promise, hretirement, hgone, _⟩ := retire_cases hretire
    obtain ⟨p, hp, hmem⟩ := h.awaits promise hretirement
    exact absurd hmem (hgone p hp)

end Unstarted

/-! The buffer that is ready, before those that wait for it. -/

structure Front (stringify : R → Bytes) (file : Bytes) (owed : List R) (s : LogState R)
    (waiting : List (LogState R)) : Prop where
  unsettled : s.retirement ≠ some .settled
  unstarted : ∀ w ∈ waiting, Unstarted w
  queued : (∃ w ∈ s :: waiting, w.Rewriting) → owed = (s :: waiting).flatMap LogState.pending
  content : (∀ w ∈ waiting, ¬w.Rewriting) →
    ∃ base, Content stringify file base owed (waiting.flatMap LogState.pending) s

def Running (stringify : R → Bytes) (file : Bytes) (owed : List R) : List (LogState R) → Prop
  | [] => ∃ base, file = base ++ encodeBatch stringify owed
  | s :: waiting => Front stringify file owed s waiting

theorem Content.act (h : Content stringify file base owed later s) (ho : Ordered s)
    (hqueued : s.Rewriting → owed = s.pending ++ later)
    (hact : Act stringify isReady file s s' file') : ∃ base', Content stringify file' base' owed later s' := by
  cases hact with
  | acquire hactive => exact ⟨base, h.quiet, h.single⟩
  | release hrefs =>
    rw [LogState.release]
    split
    · exact ⟨base, h.quiet, h.single⟩
    · have ho' : Ordered { s with refCount := s.refCount - 1, retired := true } := { ho with }
      have h' : Content stringify file base owed later
          { s with refCount := s.refCount - 1, retired := true } := ⟨h.quiet, h.single⟩
      exact ⟨base, (h'.flushState ho').quiet, (h'.flushState ho').single⟩
  | flush => exact ⟨base, h.flushState ho⟩
  | scheduled hrun => exact ⟨base, h.runScheduled ho hrun⟩
  | resume id hresume =>
    obtain ⟨operation, rest, hflushes, hmove⟩ := ho.resume_cases hresume
    by_cases hwritten : ∃ records, operation = .written records true
    · obtain ⟨records, rfl⟩ := hwritten
      have hrewriting : s.Rewriting := ⟨_, hflushes ▸ mem_cons_self, rfl⟩
      rw [hqueued hrewriting]
      cases hmove with
      | written => exact ⟨_, h.replace ho hflushes⟩
    · exact ⟨base, h.move ho hflushes hmove fun records he => hwritten ⟨records, he⟩⟩
  | complete id completion hcomplete => exact ⟨base, h.complete ho hcomplete⟩
  | retire hretire hfailure =>
    obtain ⟨promise, _, _, rfl⟩ := retire_cases hretire
    exact ⟨base, h.quiet, h.single⟩

theorem Content.clean (h : Content stringify file base owed later s) (ho : Ordered s) (hdrained : Drained s)
    (hfailure : s.storageFailure = false) : Clean stringify file base owed later [] s := by
  cases hflushes : s.flushes with
  | nil => exact h.quiet hflushes hfailure
  | cons flush rest =>
    have hidle := hdrained.idle
    rw [hflushes, forall_mem_cons] at hidle
    have hrest : rest = [] := by
      apply eq_nil_iff_forall_not_mem.mpr
      intro b hb
      obtain ⟨prior, records, hbehind⟩ := ho.behind hflushes b hb
      have hnot := hidle.2 b hb
      rw [hbehind] at hnot
      exact hnot
    rw [hrest] at hflushes
    have hholds := h.single flush hflushes
    have hthis := hidle.1
    cases hoperation : flush.operation with
    | ready epoch =>
      rw [hoperation] at hholds
      exact hholds.2
    | settled ok =>
      rw [hoperation] at hholds hthis
      exact (hholds hthis).2
    | _ =>
      rw [hoperation] at hthis
      exact hthis.elim

namespace Front

variable (h : Front stringify file owed s waiting)

include h

theorem act (hs : Sound s) (hpairs : ∀ w ∈ waiting, w.Rewriting → s.pending = [])
    (hact : Act stringify isReady file s s' file') (hunsettled : s'.retirement ≠ some .settled) :
    Front stringify file' owed s' waiting where
  unsettled := hunsettled
  unstarted := h.unstarted
  queued hrewriting := by
    have hfollows := Follows.act hs.ordered hact
    obtain ⟨w, hw, hthis⟩ := hrewriting
    rcases mem_cons.mp hw with rfl | hw
    · have hold := hfollows.rewriting hthis
      rw [h.queued ⟨s, mem_cons_self, hold⟩, flatMap_cons, flatMap_cons, hfollows.kept hold]
    · have hnil := hpairs w hw hthis
      have hnil' : s'.pending = [] := suffix_nil.mp (hnil ▸ hfollows.pending)
      rw [h.queued ⟨w, mem_cons_of_mem _ hw, hthis⟩, flatMap_cons, flatMap_cons, hnil, hnil']
  content hnone := by
    obtain ⟨base, hcontent⟩ := h.content hnone
    apply hcontent.act hs.ordered _ hact
    intro hrewriting
    rw [h.queued ⟨s, mem_cons_self, hrewriting⟩, flatMap_cons]

theorem retire (hs : Sound s) (hretire : s.retire = some s') (hfailure : s.storageFailure = false) :
    Past s' ∧ Running stringify file owed waiting := by
  obtain ⟨promise, hretirement, hgone, rfl⟩ := retire_cases hretire
  have hdrained : Drained s := by
    rcases (hs.awaits promise hretirement).ended hgone with hdrained | ⟨hfailed, _⟩
    · exact hdrained
    · rw [hfailure] at hfailed
      cases hfailed
  refine ⟨⟨rfl, hdrained.pending, hdrained.idle⟩, ?_⟩
  cases waiting with
  | nil =>
    obtain ⟨base, hcontent⟩ := h.content (forall_mem_nil _)
    obtain ⟨done, htail, hfile⟩ := hcontent.clean hs.ordered hdrained hfailure
    refine ⟨base, ?_⟩
    rw [hfile, htail, hdrained.pending]
    simp
  | cons w waiting =>
    obtain ⟨hw, hwaiting⟩ := forall_mem_cons.mp h.unstarted
    refine ⟨hw.unsettled, hwaiting, ?_, ?_⟩
    · intro hrewriting
      obtain ⟨x, hx, hthis⟩ := hrewriting
      rw [h.queued ⟨x, mem_cons_of_mem _ hx, hthis⟩, flatMap_cons, hdrained.pending, nil_append]
    · intro hnone
      by_cases hrewriting : w.Rewriting
      · refine ⟨[], ?_, ?_⟩
        · intro hnil
          obtain ⟨flush, hflush, _⟩ := hrewriting
          rw [hnil] at hflush
          cases hflush
        · intro flush hsingle
          obtain ⟨other, hother, hsome⟩ := hrewriting
          rw [hsingle] at hother
          obtain rfl := mem_singleton.mp hother
          rcases hw.starts other (hsingle ▸ mem_singleton_self other) with ⟨epoch, he⟩ | ⟨prior, records, he⟩
          · rw [he] at hsome
            cases hsome
          · rw [he]
            trivial
      · obtain ⟨base, hcontent⟩ := h.content (forall_mem_cons.mpr ⟨hrewriting, hnone⟩)
        have hclean := hcontent.clean hs.ordered hdrained hfailure
        have hnext : Clean stringify file base owed (waiting.flatMap LogState.pending) [] w := by
          obtain ⟨done, htail, hfile⟩ := hclean
          refine ⟨done, ?_, hfile⟩
          rw [htail, hdrained.pending, nil_append, flatMap_cons]
        refine ⟨base, fun _ _ => hnext, ?_⟩
        intro flush hsingle
        rcases hw.starts flush (hsingle ▸ mem_singleton_self flush) with ⟨epoch, he⟩ | ⟨prior, records, he⟩
        · rw [he]
          exact ⟨hw.failure, hnext⟩
        · rw [he]
          trivial

end Front

end Echadron.Persistence
