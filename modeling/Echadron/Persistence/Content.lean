import Echadron.Persistence.OwnedFlushes

namespace Echadron.Persistence
open Lib List Option

variable {R : Type} {stringify : R → Bytes} {s s' t : LogState R} {file file' base : Bytes}
  {tail later unacked : List R} {isReady : Bool} {id : Nat} {completion : Completion}

/-! What the file of a log holds. -/

/-- The file holds what was asked for up to the records that wait; some of these may be there already. -/
def Clean (stringify : R → Bytes) (file base : Bytes) (tail later unacked : List R) (s : LogState R) : Prop :=
  ∃ done, tail = done ++ (s.pending ++ later) ∧ file = base ++ encodeBatch stringify (done ++ unacked)

def Holds (stringify : R → Bytes) (file base : Bytes) (tail later : List R) (s : LogState R) : Operation R → Prop
  | .ready _ => s.storageFailure = false ∧ Clean stringify file base tail later [] s
  | .appending _ batch =>
    s.storageFailure = false ∧ Clean stringify file base tail later [] s ∧ batch <+: s.pending
  | .appended _ batch ok =>
    batch <+: s.pending ∧ (ok → s.storageFailure = false ∧ Clean stringify file base tail later batch s)
  | .written records ok => ok → file = encodeBatch stringify records
  | .settled ok => ok → s.storageFailure = false ∧ Clean stringify file base tail later [] s
  | _ => True

structure Content (stringify : R → Bytes) (file base : Bytes) (tail later : List R) (s : LogState R) : Prop where
  quiet : s.flushes = [] → s.storageFailure = false → Clean stringify file base tail later [] s
  single : ∀ flush, s.flushes = [flush] → Holds stringify file base tail later s flush.operation

theorem Content.of_head
    (hflushes : t.flushes = ⟨id, operation⟩ :: rest)
    (h : rest = [] → Holds stringify file base tail later t operation) :
    Content stringify file base tail later t where
  quiet hnil := by
    rw [hflushes] at hnil
    cases hnil
  single flush hsingle := by
    rw [hflushes] at hsingle
    cases hsingle
    exact h rfl

/-- The records that a rewrite has just put in the place of the file. -/
def Operation.replaced : Operation R → Option (List R)
  | written records true => some records
  | _ => none

def LogState.replaced (s : LogState R) (id : Nat) : Option (List R) :=
  (s.flushes.find? fun flush => flush.id = id).bind fun flush => flush.operation.replaced

theorem replaced_head
    (hflushes : s.flushes = ⟨id, operation⟩ :: rest) : s.replaced id = operation.replaced := by
  have hfind : (s.flushes.find? fun flush => flush.id = id) = some ⟨id, operation⟩ := by
    rw [hflushes]
    exact find?_cons_of_pos (decide_eq_true rfl)
  rw [LogState.replaced, hfind, bind_some]

theorem append_fields (s : LogState R) (record : R) : (s.append record).flushes = s.flushes ∧
    (s.append record).nextId = s.nextId ∧ (s.append record).storageFailure = s.storageFailure ∧
    (s.append record).pending = s.pending ++ [record] := by
  rw [LogState.append, LogState.scheduleFlush]
  split <;> exact ⟨rfl, rfl, rfl, rfl⟩

theorem Clean.taken (h : Clean stringify file base tail later batch s) (hbatch : batch <+: s.pending) :
    Clean stringify file base tail later [] { s with pending := s.pending.drop batch.length } := by
  obtain ⟨done, htail, hfile⟩ := h
  obtain ⟨rest, hrest⟩ := hbatch
  refine ⟨done ++ batch, ?_, ?_⟩
  · rw [htail, ← hrest, drop_left, append_assoc, append_assoc]
  · rw [hfile, append_nil]

theorem Clean.append (h : Clean stringify file base tail [] unacked s) (record : R) :
    Clean stringify file base (tail ++ [record]) [] unacked (s.append record) := by
  obtain ⟨done, htail, hfile⟩ := h
  refine ⟨done, ?_, hfile⟩
  rw [(append_fields s record).2.2.2, htail]
  simp

theorem Holds.append (h : Holds stringify file base tail [] s operation)
    (record : R) : Holds stringify file base (tail ++ [record]) [] (s.append record) operation := by
  obtain ⟨_, _, hfailure, hpending⟩ := append_fields s record
  have hbatch {batch : List R} (hbegins : batch <+: s.pending) : batch <+: (s.append record).pending := by
    rw [hpending]
    exact hbegins.trans (prefix_append ..)
  cases operation with
  | ready epoch => exact ⟨hfailure.trans h.1, h.2.append record⟩
  | appending epoch batch => exact ⟨hfailure.trans h.1, h.2.1.append record, hbatch h.2.2⟩
  | appended epoch batch ok =>
    exact ⟨hbatch h.1, fun hok => ⟨hfailure.trans (h.2 hok).1, (h.2 hok).2.append record⟩⟩
  | settled ok => exact fun hok => ⟨hfailure.trans (h hok).1, (h hok).2.append record⟩
  | written records ok => exact h
  | _ => trivial

namespace Content

variable (h : Content stringify file base tail later s)

include h

theorem of_alone
    (hflushes : s.flushes = ⟨id, operation⟩ :: rest) (ht : t.flushes = ⟨id, operation'⟩ :: rest)
    (hholds : rest = [] → Holds stringify file base tail later s operation →
      Holds stringify file' base tail later t operation') :
    Content stringify file' base tail later t := by
  apply of_head ht
  intro hrest
  rw [hrest] at hflushes
  exact hholds hrest (h.single _ hflushes)

theorem move (ho : Ordered s)
    (hflushes : s.flushes = ⟨id, operation⟩ :: rest) (hmove : Move s isReady id operation s')
    (hnot : ∀ records, operation ≠ .written records true) :
    Content stringify file base tail later s' := by
  have hput {t : LogState R} (ht : t.flushes = s.flushes) (operation' : Operation R) :=
    ho.put_head ht hflushes operation'
  cases hmove with
  | overtaken epoch hready hepoch =>
    apply h.of_alone hflushes (hput rfl _)
    exact fun _ hholds _ => hholds
  | start epoch hready hepoch =>
    apply h.of_alone hflushes (hput rfl _)
    intro _ hholds
    split
    · exact fun _ => hholds
    · exact ⟨hholds.1, hholds.2, prefix_refl _⟩
  | kept epoch batch hepoch =>
    apply of_head (hput rfl _)
    intro hrest
    have halone := (ho.epochs ⟨id, .appended epoch batch true⟩ (hflushes ▸ mem_cons_self) epoch rfl).2
    rw [hrest] at hflushes
    exact absurd (halone.mpr hflushes) hepoch
  | taken epoch batch hepoch =>
    apply h.of_alone hflushes (hput (t := { s with pending := s.pending.drop batch.length }) rfl _)
    intro _ hholds
    obtain ⟨hbatch, hclean⟩ := hholds
    obtain ⟨hfailure, hclean⟩ := hclean rfl
    split
    · exact fun _ => ⟨hfailure, hclean.taken hbatch⟩
    · exact ⟨hfailure, hclean.taken hbatch, prefix_refl _⟩
  | failed epoch batch =>
    apply h.of_alone hflushes (hput (t := { s with storageFailure := true }) rfl _)
    exact fun _ _ hok => absurd hok Bool.false_ne_true
  | replace prior records hprior =>
    apply h.of_alone hflushes (hput rfl _)
    exact fun _ _ => trivial
  | written records ok =>
    apply h.of_alone hflushes (hput (t := { s with storageFailure := !ok }) rfl _)
    intro _ _ hok
    subst hok
    exact absurd rfl (hnot records)
  | again hpromise hpending =>
    apply h.of_alone hflushes (hput rfl _)
    exact fun _ hholds => hholds rfl
  | done ok hpromise hpending =>
    have hnil := ho.settle_head (t := { s with flushPromise := none }) rfl hflushes ok
    obtain rfl := (ho.promise_iff hflushes).mp hpromise
    constructor
    · intro _ hfailure
      cases ok with
      | true => exact (h.single _ hflushes rfl).2
      | false =>
        have hfailed := ho.failed _ (hflushes ▸ mem_cons_self) rfl
        change s.storageFailure = false at hfailure
        rw [hfailure] at hfailed
        cases hfailed
    · intro flush hsingle
      rw [hnil] at hsingle
      cases hsingle
  | handed ok hpromise =>
    have hrest := ho.settle_head rfl hflushes ok
    constructor
    · intro hnil
      rw [hrest] at hnil
      exact absurd ((ho.promise_iff hflushes).mpr hnil) hpromise
    · intro flush hsingle
      rw [hrest] at hsingle
      obtain ⟨prior, records, hbehind⟩ := ho.behind hflushes flush (hsingle ▸ mem_singleton_self flush)
      rw [hbehind]
      trivial

theorem replace (ho : Ordered s) {records : List R} {rest : List (OwnedFlush R)}
    (hflushes : s.flushes = ⟨id, .written records true⟩ :: rest) :
    Content stringify file (encodeBatch stringify records) (s.pending ++ later) later
      ({ s with storageFailure := false }.put id (.settled true)) := by
  apply of_head (ho.put_head (t := { s with storageFailure := false }) rfl hflushes _)
  intro hrest _
  rw [hrest] at hflushes
  refine ⟨rfl, [], rfl, ?_⟩
  rw [append_nil, encodeBatch_nil, append_nil]
  exact h.single _ hflushes rfl

theorem complete (ho : Ordered s) (hcomplete : s.complete stringify file id completion = some (s', file')) :
    Content stringify file' base tail later s' := by
  obtain ⟨operation, operation', rest, hflushes, rfl, hends⟩ := ho.complete_cases hcomplete
  apply h.of_alone hflushes (ho.put_head rfl hflushes operation')
  intro _ hholds
  rcases hends with ⟨epoch, batch, rfl, rfl, rfl⟩ | ⟨records, rfl, rfl, rfl⟩
  · obtain ⟨hfailure, ⟨done, htail, hfile⟩, hbatch⟩ := hholds
    refine ⟨hbatch, ?_⟩
    intro hok
    cases completion with
    | success =>
      refine ⟨hfailure, done, htail, ?_⟩
      rw [Completion.applied, if_pos rfl, hfile, append_nil, append_assoc, ← encodeBatch_append]
    | failure applied => cases hok
  · intro hok
    cases completion with
    | success => rfl
    | failure applied => cases hok

theorem flushState (ho : Ordered s) : Content stringify file base tail later s.flushState.1 := by
  rcases ho.flushState_cases with heq | ⟨hnil, hfailure, heq, hflushes⟩
  · exact heq.symm ▸ h
  · rw [heq]
    apply of_head hflushes
    exact fun _ => ⟨hfailure, h.quiet hnil hfailure⟩

theorem runScheduled (ho : Ordered s) (hrun : s.runScheduled = some s') :
    Content stringify file base tail later s' := by
  obtain ⟨_, hrun⟩ := ite_none_right_eq_some.mp hrun
  cases hrun
  have h' : Content stringify file base tail later { s with flushScheduled := false } := ⟨h.quiet, h.single⟩
  exact h'.flushState ho.scheduled

omit h in
theorem rewrite (s : LogState R) (records : List R) : Content stringify file base tail later (s.rewrite records) := by
  constructor
  · intro hnil
    rw [LogState.rewrite_flushes] at hnil
    exact absurd hnil (by simp)
  · intro flush hsingle
    rw [LogState.rewrite_flushes] at hsingle
    have hlast := congrArg List.getLast? hsingle
    rw [getLast?_concat] at hlast
    obtain rfl := Option.some.inj hlast
    trivial

end Content

theorem Content.append (h : Content stringify file base tail [] s) (record : R) :
    Content stringify file base (tail ++ [record]) [] (s.append record) := by
  obtain ⟨hflushes, _, hfailure, _⟩ := append_fields s record
  constructor
  · intro hnil hnone
    rw [hflushes] at hnil
    rw [hfailure] at hnone
    exact (h.quiet hnil hnone).append record
  · intro flush hsingle
    rw [hflushes] at hsingle
    exact (h.single flush hsingle).append record

end Echadron.Persistence
