import Echadron.Lib.Runs
import Echadron.Persistence.Content

namespace Echadron.Persistence
open Lib List Option

/-! One log with its file. -/

variable {R : Type}

/-- A call of `rewrite` with the records that are to follow its own: those that were queued or in
flight when it was called, and those appended since. -/
structure RewriteCall (R : Type) where
  id : Nat
  records : List R
  tail : List R
deriving DecidableEq

/-- What the file is to hold is the records of the last rewrite that succeeded, or what it held at
first, and then the tail. -/
structure Log (R : Type) where
  state : LogState R := {}
  file : Bytes
  base : Bytes
  tail : List R := []
  calls : List (RewriteCall R) := []
deriving DecidableEq

inductive Event (R : Type) where
  | append (record : R)
  | flush
  | rewrite (records : List R)
  | scheduled
  | resume (id : Nat)
  | complete (id : Nat) (completion : Completion)

def Log.start (file : Bytes) : Log R := { file := file, base := file }

/-- A rewrite has succeeded. -/
def Log.succeed (stringify : R → Bytes) (log : Log R) (id : Nat) : Log R :=
  match (log.state.replaced id).bind fun _ => log.calls.find? fun call => call.id = id with
  | some call => { log with base := encodeBatch stringify call.records, tail := call.tail }
  | none => log

def Log.step (stringify : R → Bytes) (log : Log R) : Event R → Option (Log R)
  | .append record =>
    some { log with
      state := log.state.append record
      tail := log.tail ++ [record]
      calls := log.calls.map fun call => { call with tail := call.tail ++ [record] } }
  | .flush => some { log with state := log.state.flushState.1 }
  | .rewrite records =>
    some { log with
      state := log.state.rewrite records
      calls := log.calls ++ [{ id := log.state.nextId, records := records, tail := log.state.pending }] }
  | .scheduled => log.state.runScheduled.map fun state => { log with state := state }
  | .resume id => (log.state.resume true id).map fun state => { log.succeed stringify id with state := state }
  | .complete id completion =>
    (log.state.complete stringify log.file id completion).map fun (state, file) =>
      { log with
        state := state
        file := file }

variable {stringify : R → Bytes} {s s' : LogState R} {log log' : Log R} {file file' : Bytes}
  {isReady : Bool} {id : Nat} {completion : Completion}

/-- Each rewrite under way has its call, and its tail is what waits. -/
structure Called (calls : List (RewriteCall R)) (s : LogState R) : Prop where
  found : ∀ flush ∈ s.flushes, ∀ records ∈ flush.operation.rewrites,
    (calls.find? fun call => call.id = flush.id) = some { id := flush.id, records := records, tail := s.pending }
  fresh : ∀ call ∈ calls, call.id < s.nextId

namespace Called

variable {calls : List (RewriteCall R)} (h : Called calls s)

include h

theorem keeps (hkeeps : Keeps s s') : Called calls s' where
  found flush hflush records hrecords := by
    obtain ⟨old, hold, hid, hrewrites⟩ := hkeeps.flushes flush hflush
    have hmem := hrewrites records hrecords
    rw [hkeeps.kept old hold (isSome_of_mem hmem), ← hid]
    exact h.found old hold records hmem
  fresh call hcall := hkeeps.nextId ▸ h.fresh call hcall

theorem append (record : R) :
    Called (calls.map fun call => { call with tail := call.tail ++ [record] }) (s.append record) := by
  obtain ⟨hflushes, hnext, _, hpending⟩ := append_fields s record
  constructor
  · intro flush hflush records hrecords
    rw [hflushes] at hflush
    rw [hpending, find?_map]
    exact congrArg (Option.map _) (h.found flush hflush records hrecords)
  · intro call hcall
    obtain ⟨old, hold, rfl⟩ := mem_map.mp hcall
    rw [hnext]
    exact h.fresh old hold

theorem rewrite (records : List R) :
    Called (calls ++ [{ id := s.nextId, records := records, tail := s.pending }]) (s.rewrite records) := by
  constructor
  · intro flush hflush records' hrecords
    rw [find?_append]
    rcases mem_snoc.mp hflush with hold | rfl
    · rw [h.found flush hold records' hrecords]
      rfl
    · cases hrecords
      have hnone : (calls.find? fun call => call.id = s.nextId) = none := by
        apply find?_eq_none.mpr
        intro call hcall he
        exact (h.fresh call hcall).ne (of_decide_eq_true he)
      rw [hnone, none_or]
      exact find?_cons_of_pos (decide_eq_true rfl)
  · intro call hcall
    rcases mem_snoc.mp hcall with hold | rfl
    · exact (h.fresh call hold).trans (Nat.lt_succ_self _)
    · exact Nat.lt_succ_self _

theorem flushState (ho : Ordered s) : Called calls s.flushState.1 := by
  rcases ho.flushState_cases with heq | ⟨-, -, heq, hflushes⟩
  · exact heq.symm ▸ h
  · rw [heq]
    constructor
    · intro flush hflush records hrecords
      rw [hflushes] at hflush
      obtain rfl := mem_singleton.mp hflush
      cases hrecords
    · exact fun call hcall => (h.fresh call hcall).trans (Nat.lt_succ_self _)

theorem runScheduled (ho : Ordered s) (hrun : s.runScheduled = some s') : Called calls s' := by
  obtain ⟨_, hrun⟩ := ite_none_right_eq_some.mp hrun
  cases hrun
  have h' : Called calls { s with flushScheduled := false } := ⟨h.found, h.fresh⟩
  exact h'.flushState ho.scheduled

end Called

namespace Woken

theorem append (ho : Ordered s) (record : R) : Woken (s.append record) := by
  intro _
  rw [LogState.append, LogState.scheduleFlush]
  split
  · rename_i hthere
    rcases hthere with hscheduled | hpromise
    · exact .inl hscheduled
    · right
      left
      intro hnil
      have hsome : s.flushPromise.isSome = true := hpromise
      rw [ho.promise_of_nil hnil] at hsome
      cases hsome
  · exact .inl rfl

theorem flushState (ho : Ordered s) : Woken s.flushState.1 := by
  intro _
  rw [LogState.flushState]
  cases hpromise : s.flushPromise with
  | some promise =>
    right
    left
    intro hnil
    rw [ho.promise_of_nil hnil] at hpromise
    cases hpromise
  | none =>
    dsimp only
    split
    · rename_i hfailure
      exact .inr (.inr hfailure)
    · right
      simp

theorem runScheduled (ho : Ordered s) (hrun : s.runScheduled = some s') : Woken s' := by
  obtain ⟨_, hrun⟩ := ite_none_right_eq_some.mp hrun
  cases hrun
  exact flushState ho.scheduled

theorem rewrite (s : LogState R) (records : List R) : Woken (s.rewrite records) := by
  intro _
  simp

theorem complete (ho : Ordered s)
    (hcomplete : s.complete stringify file id completion = some (s', file')) : Woken s' := by
  obtain ⟨operation, operation', rest, hflushes, rfl, _⟩ := ho.complete_cases hcomplete
  intro _
  right
  left
  rw [ho.put_head rfl hflushes]
  exact cons_ne_nil _ _

end Woken

structure Log.Inv (stringify : R → Bytes) (log : Log R) : Prop where
  ordered : Ordered log.state
  woken : Woken log.state
  content : Content stringify log.file log.base log.tail [] log.state
  called : Called log.calls log.state

namespace Log.Inv

theorem start (stringify : R → Bytes) (file : Bytes) : Inv stringify (Log.start file) where
  ordered := .empty
  woken := absurd rfl
  content := ⟨fun _ _ => ⟨[], rfl, (append_nil _).symm⟩, fun flush hsingle => by cases hsingle⟩
  called := ⟨forall_mem_nil _, forall_mem_nil _⟩

theorem resume (h : Inv stringify log) {id : Nat} (hresume : log.state.resume true id = some s') :
    Inv stringify { log.succeed stringify id with state := s' } := by
  obtain ⟨operation, rest, hflushes, hmove⟩ := h.ordered.resume_cases hresume
  have ho := h.ordered.move hflushes hmove
  have hw := Woken.move h.ordered hflushes hmove
  have hc := h.called.keeps (h.ordered.move_keeps hflushes hmove)
  have hreplaced := replaced_head hflushes
  by_cases hwritten : ∃ records, operation = .written records true
  · obtain ⟨records, rfl⟩ := hwritten
    have hcall := h.called.found _ (hflushes ▸ mem_cons_self) records rfl
    have hsucceed : log.succeed stringify id =
        { log with base := encodeBatch stringify records, tail := log.state.pending } := by
      rw [Log.succeed, hreplaced, Operation.replaced, bind_some, hcall]
    rw [hsucceed]
    cases hmove with
    | written =>
      have hcontent := h.content.replace h.ordered hflushes
      rw [append_nil] at hcontent
      exact ⟨ho, hw, hcontent, hc⟩
  · have hnot : ∀ records, operation ≠ .written records true := fun records he => hwritten ⟨records, he⟩
    have hnone : log.state.replaced id = none := by
      rw [hreplaced]
      cases operation with
      | written records ok =>
        cases ok with
        | true => exact absurd rfl (hnot records)
        | false => rfl
      | _ => rfl
    have hsucceed : log.succeed stringify id = log := by
      rw [Log.succeed, hnone]
      rfl
    rw [hsucceed]
    exact ⟨ho, hw, h.content.move h.ordered hflushes hmove hnot, hc⟩

theorem step (h : Inv stringify log) (hstep : log.step stringify event = some log') : Inv stringify log' := by
  cases event with
  | append record =>
    cases hstep
    exact ⟨h.ordered.append record, .append h.ordered record, h.content.append record, h.called.append record⟩
  | flush =>
    cases hstep
    exact ⟨h.ordered.flushState, .flushState h.ordered, h.content.flushState h.ordered,
      h.called.flushState h.ordered⟩
  | rewrite records =>
    cases hstep
    exact ⟨h.ordered.rewrite records, .rewrite _ records, .rewrite _ records, h.called.rewrite records⟩
  | scheduled =>
    obtain ⟨state, hrun, rfl⟩ := map_eq_some_iff.mp hstep
    exact ⟨h.ordered.runScheduled hrun, .runScheduled h.ordered hrun,
      h.content.runScheduled h.ordered hrun, h.called.runScheduled h.ordered hrun⟩
  | resume id =>
    obtain ⟨state, hresume, rfl⟩ := map_eq_some_iff.mp hstep
    exact h.resume hresume
  | complete id completion =>
    obtain ⟨⟨state, file⟩, hcomplete, rfl⟩ := map_eq_some_iff.mp hstep
    exact ⟨h.ordered.complete hcomplete, .complete h.ordered hcomplete,
      h.content.complete h.ordered hcomplete, h.called.keeps (h.ordered.complete_keeps hcomplete)⟩

end Log.Inv

def Log.Settled (log : Log R) : Prop := log.state.flushes = [] ∧ log.state.flushScheduled = false

/-- Whatever the order of appends, flushes, rewrites and completions: a log that has settled, without a
failure outstanding, holds the records of the last rewrite and all that were to follow them. -/
theorem file_of_settled (stringify : R → Bytes) (file : Bytes) (events : List (Event R)) (log : Log R)
    (hrun : events.foldlM (Log.step stringify) (Log.start file) = some log) (hsettled : log.Settled)
    (hfailure : log.state.storageFailure = false) :
    log.file = log.base ++ encodeBatch stringify log.tail := by
  have h : Log.Inv stringify log :=
    run_invariant (I := Log.Inv stringify) (fun _ _ _ h hstep => h.step hstep) (.start stringify file) hrun
  obtain ⟨done, htail, hfile⟩ := h.content.quiet hsettled.1 hfailure
  have hpending : log.state.pending = [] := by
    by_contra hne
    rcases h.woken hne with hscheduled | hflushes | hfailed
    · rw [hsettled.2] at hscheduled
      cases hscheduled
    · exact hflushes hsettled.1
    · rw [hfailure] at hfailed
      cases hfailed
  rw [hfile, htail, hpending, append_nil, append_nil, append_nil]

/-- A rewrite overtakes a drain whose batch gets to disk before it. -/
def overtakenDrain : List (Event UInt8) :=
  [.append 1, .scheduled, .resume 0, .rewrite [9], .append 2, .complete 0 .success, .resume 0, .resume 0,
    .resume 1, .complete 1 .success, .resume 1, .resume 1, .resume 1, .complete 1 .success, .resume 1,
    .resume 1]

theorem file_of_overtakenDrain : ∃ log : Log UInt8,
    overtakenDrain.foldlM (Log.step fun r => [r]) (Log.start []) = some log ∧
      log.file = log.base ++ encodeBatch (fun r => [r]) log.tail ∧ log.file = [9, 10, 1, 10, 2, 10] :=
  ⟨_, rfl, file_of_settled (fun r => [r]) [] overtakenDrain _ rfl ⟨rfl, rfl⟩ rfl, rfl⟩

end Echadron.Persistence
