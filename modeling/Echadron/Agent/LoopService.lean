import Echadron.Agent.TurnOps
import Echadron.Lib.Runs

namespace Echadron.Agent
open Lib List Option

/-- Where a step request may go. -/
inductive StepAdmission where
  | newTurn
  | activeOrNewTurn
  | activeOrNextTurn
  | activeTurnOnly
deriving DecidableEq

/-- The loop as far as it deals with turns. A turn is known by the id on its handle; `handles` has
the ids in the order in which they were handed out, `started` in the order of the starts. -/
structure AgentLoop where
  turns : TurnModelState := {}
  records : List TurnRecord := []
  nextReservedTurnId : Option Nat := none
  pendingTurns : List Nat := []
  activeTurn : Option Nat := none
  activeAborted : Bool := false
  /-- Turns that are no longer active and whose end is not recorded yet. -/
  ending : List Nat := []
  standaloneSteps : Nat := 0
  quiescenceDepth : Nat := 0
  heldAdmissions : List StepAdmission := []
  disposing : Bool := false
  handles : List Nat := []
  started : List Nat := []
deriving DecidableEq

inductive TurnEvent where
  | enqueue (admission : StepAdmission)
  | cancel (turnId : Option Nat)
  | steered
  | loopEvent (carriesTurnId : Bool)
  | released
  | ended (turn : Nat) (reason : TurnEndReason)
  | abortHeld (index : Nat)
  | acquireQuiescence
  | releaseQuiescence
  | dispose
deriving DecidableEq

namespace AgentLoop

section

variable (s : AgentLoop)

/-- `wire.dispatch`: apply the record, then persist it. -/
def dispatch (record : TurnRecord) : AgentLoop :=
  { s with
    turns := s.turns.apply record
    records := s.records ++ [record] }

def reserveTurnId : Nat := max s.turns.nextTurnId (s.nextReservedTurnId.getD s.turns.nextTurnId)

def createPendingTurn : AgentLoop :=
  { s with
    nextReservedTurnId := some (s.reserveTurnId + 1)
    pendingTurns := s.pendingTurns ++ [s.reserveTurnId]
    handles := s.handles ++ [s.reserveTurnId]
    standaloneSteps := 0 }

def startTurn (id : Nat) : AgentLoop :=
  { s.dispatch .prompt with
    activeTurn := some id
    activeAborted := false
    started := s.started ++ [id] }

def pumpTurns : AgentLoop :=
  if s.disposing || decide (0 < s.quiescenceDepth) || s.activeTurn.isSome then s
  else
    match s.pendingTurns with
    | [] => s
    | id :: pendingTurns => { s with pendingTurns := pendingTurns }.startTurn id

def createAndQueueTurn : AgentLoop := s.createPendingTurn.pumpTurns

def admitStep : StepAdmission → AgentLoop
  | .newTurn => s.createAndQueueTurn
  | .activeOrNewTurn => if s.activeTurn.isNone then s.createAndQueueTurn else s
  | .activeOrNextTurn => if s.activeTurn.isNone then { s with standaloneSteps := s.standaloneSteps + 1 } else s
  | .activeTurnOnly => s

/-- `enqueue`. Once the loop is disposed of it throws. -/
def enqueue (admission : StepAdmission) : AgentLoop :=
  if s.disposing then s
  else if 0 < s.quiescenceDepth then { s with heldAdmissions := s.heldAdmissions ++ [admission] }
  else s.admitStep admission

def cancelQueuedTurn (turnId : Nat) : AgentLoop :=
  if turnId ∈ s.pendingTurns then
    { s with pendingTurns := s.pendingTurns.erase turnId }.dispatch (.cancel (some turnId) (some .queued))
  else s

def cancelActiveTurn (id : Nat) : AgentLoop :=
  if s.activeAborted then s
  else { s.dispatch (.cancel (some id) (some .active)) with activeAborted := true }

def cancel (turnId : Option Nat) : AgentLoop :=
  match s.activeTurn, turnId with
  | some id, none => s.cancelActiveTurn id
  | some id, some turnId => if turnId = id then s.cancelActiveTurn id else s.cancelQueuedTurn turnId
  | none, some turnId => s.cancelQueuedTurn turnId
  | none, none => s

/-- `releaseActiveTurn`, the first thing that happens when a turn is over. -/
def releaseActiveTurn (id : Nat) : AgentLoop :=
  { s with
    activeTurn := none
    ending := s.ending ++ [id] }

/-- The rest of it: the end is recorded, and the next turn started. -/
def endTurn (turn id : Nat) (reason : TurnEndReason) : AgentLoop :=
  ({ s with ending := s.ending.eraseIdx turn }.dispatch (.ended id reason)).pumpTurns

def hasPendingRequests : Bool :=
  decide (0 < s.standaloneSteps) || !s.pendingTurns.isEmpty || !s.heldAdmissions.isEmpty

def tryAcquireQuiescence : AgentLoop :=
  if s.disposing || s.activeTurn.isSome || s.hasPendingRequests then s
  else { s with quiescenceDepth := s.quiescenceDepth + 1 }

def releaseQuiescence : AgentLoop :=
  let s := { s with quiescenceDepth := s.quiescenceDepth - 1 }
  if 0 < s.quiescenceDepth || s.disposing then s
  else
    let admissions := s.heldAdmissions
    (admissions.foldl admitStep { s.pumpTurns with heldAdmissions := [] }).pumpTurns

def dispose : AgentLoop :=
  if s.disposing then s
  else
    let s := s.pendingTurns.foldl (fun s id => s.cancel (some id)) { s with disposing := true }
    let s := match s.activeTurn with
      | none => s
      | some id => s.cancel (some id)
    { s with
      standaloneSteps := 0
      heldAdmissions := [] }

def step : TurnEvent → Option AgentLoop
  | .enqueue admission => some (s.enqueue admission)
  | .cancel turnId => some (s.cancel turnId)
  | .steered => some (s.dispatch .steer)
  | .loopEvent carriesTurnId =>
    s.activeTurn.map fun id => s.dispatch (.loopEvent (if carriesTurnId then some id else none))
  | .released => s.activeTurn.map s.releaseActiveTurn
  | .ended turn reason => s.ending[turn]?.map fun id => s.endTurn turn id reason
  | .abortHeld index =>
    if index < s.heldAdmissions.length then
      some { s with heldAdmissions := s.heldAdmissions.eraseIdx index }
    else none
  | .acquireQuiescence => some s.tryAcquireQuiescence
  | .releaseQuiescence => if s.quiescenceDepth = 0 then none else some s.releaseQuiescence
  | .dispose => some s.dispose

end

def resume (journal : List TurnRecord) : AgentLoop :=
  { turns := replayTurns journal
    records := journal
    started := replayedTurnIds journal
    handles := replayedTurnIds journal }

def run (s : AgentLoop) (events : List TurnEvent) : Option AgentLoop := events.foldlM step s

structure TurnsInOrder (s : AgentLoop) : Prop where
  replayed : replayedTurnIds s.records = s.started
  handed : ∀ id ∈ s.started, id ∈ s.handles
  distinct : s.handles.Nodup
  increasing : s.started.Pairwise (· < ·)

/-- What the loop keeps of its ids. -/
structure Reserved (s : AgentLoop) : Prop where
  turns : replayTurns s.records = s.turns
  replayed : replayedTurnIds s.records = s.started
  ids : OpenIds s.turns.nextTurnId s.turns.cancelledTurnIds s.pendingTurns s.reserveTurnId
  started_sorted : s.started.Pairwise (· < ·)
  started_lt : ∀ id ∈ s.started, id < s.turns.nextTurnId
  handles_nodup : s.handles.Nodup
  handles_lt : ∀ id ∈ s.handles, id < s.reserveTurnId
  started_handed : ∀ id ∈ s.started, id ∈ s.handles
  pending_handed : ∀ id ∈ s.pendingTurns, id ∈ s.handles
  active_lt : ∀ id ∈ s.activeTurn, id < s.turns.nextTurnId

variable {s : AgentLoop}

theorem Reserved.inOrder (h : Reserved s) : TurnsInOrder s :=
  ⟨h.replayed, h.started_handed, h.handles_nodup, h.started_sorted⟩

theorem reserve_of_clock (hlt : s.turns.nextTurnId < s.reserveTurnId) (hle : n ≤ s.reserveTurnId) :
    max n (s.nextReservedTurnId.getD n) = s.reserveTurnId := by
  unfold reserveTurnId at *
  cases hreserved : s.nextReservedTurnId with
  | none =>
    rw [hreserved, getD_none, max_self] at hlt
    exact absurd hlt (lt_irrefl _)
  | some id =>
    simp only [hreserved, getD_some] at *
    omega

namespace Reserved

section

variable (h : Reserved s)
include h

theorem createPendingTurn : Reserved s.createPendingTurn := by
  have hreserve : s.createPendingTurn.reserveTurnId = s.reserveTurnId + 1 :=
    Nat.max_eq_right (Nat.le_succ_of_le h.ids.le)
  refine { h with
    ids := hreserve ▸ h.ids.reserve
    handles_nodup := ?_
    handles_lt := ?_
    started_handed := fun id hid => mem_append_left _ (h.started_handed id hid)
    pending_handed := ?_ }
  · refine nodup_append.mpr ⟨h.handles_nodup, nodup_singleton _, ?_⟩
    intro a ha b hb heq
    obtain rfl := mem_singleton.mp hb
    exact lt_irrefl _ (heq ▸ h.handles_lt a ha)
  · intro id hid
    rw [hreserve]
    rcases mem_snoc.mp hid with hid | rfl
    · exact Nat.lt_succ_of_lt (h.handles_lt id hid)
    · exact Nat.lt_succ_self _
  · intro id hid
    rcases mem_append.mp hid with hid | hid
    · exact mem_append_left _ (h.pending_handed id hid)
    · exact mem_append_right _ hid

theorem startTurn (hpending : s.pendingTurns = turnId :: rest) :
    Reserved ({ s with pendingTurns := rest }.startTurn turnId) := by
  have hids := h.ids
  rw [hpending] at hids
  obtain rfl := hids.head_eq
  have hskip := advanceTurnClock_skipped s.turns (s.turns.nextTurnId + 1) s.turns.cancelledTurnIds
  have hopen := hids.start hskip
  have hlt := ((hids.open_iff _).mp (.inl mem_cons_self)).2
  have hreserve : ({ s with pendingTurns := rest }.startTurn s.turns.nextTurnId).reserveTurnId =
      s.reserveTurnId := reserve_of_clock hlt hopen.le
  refine { h with
    turns := ?_
    replayed := ?_
    ids := by
      rw [hreserve]
      exact hopen
    started_sorted := ?_
    started_lt := ?_
    handles_lt := by
      rw [hreserve]
      exact h.handles_lt
    started_handed := ?_
    pending_handed := fun id hid => h.pending_handed id (hpending ▸ mem_cons_of_mem _ hid)
    active_lt := ?_ }
  · exact (replayTurns_concat _ _).trans (congrArg (TurnModelState.apply · .prompt) h.turns)
  · show replayedTurnIds (s.records ++ [.prompt]) = s.started ++ [s.turns.nextTurnId]
    rw [replayedTurnIds_concat, h.replayed, h.turns, if_pos rfl]
  · refine pairwise_append.mpr ⟨h.started_sorted, pairwise_singleton _ _, ?_⟩
    intro a ha b hb
    obtain rfl := mem_singleton.mp hb
    exact h.started_lt a ha
  · intro id hid
    rcases mem_snoc.mp hid with hid | rfl
    · exact Nat.lt_of_lt_of_le (Nat.lt_succ_of_lt (h.started_lt id hid)) hskip.le
    · exact hskip.le
  · intro id hid
    rcases mem_snoc.mp hid with hid | rfl
    · exact h.started_handed id hid
    · exact h.pending_handed _ (hpending ▸ mem_cons_self)
  · intro id hid
    cases hid
    exact hskip.le

theorem pumpTurns : Reserved s.pumpTurns := by
  rw [AgentLoop.pumpTurns]
  split_ifs
  · exact h
  · split
    · exact h
    · next hpending => exact h.startTurn hpending

/-- A record that leaves the clock alone. -/
theorem dispatch (hprompt : record ≠ .prompt) (hclock : (s.turns.apply record).nextTurnId = s.turns.nextTurnId)
    (hcancelled : (s.turns.apply record).cancelledTurnIds = s.turns.cancelledTurnIds) :
    Reserved (s.dispatch record) := by
  have hreserve : (s.dispatch record).reserveTurnId = s.reserveTurnId := by
    show max (s.turns.apply record).nextTurnId
      (s.nextReservedTurnId.getD (s.turns.apply record).nextTurnId) = _
    rw [hclock]
    rfl
  refine { h with
    turns := ?_
    replayed := ?_
    ids := ?_
    started_lt := fun id hid => lt_of_lt_of_eq (h.started_lt id hid) hclock.symm
    handles_lt := fun id hid => lt_of_lt_of_eq (h.handles_lt id hid) hreserve.symm
    active_lt := fun id hid => lt_of_lt_of_eq (h.active_lt id hid) hclock.symm }
  · exact (replayTurns_concat _ _).trans (congrArg (TurnModelState.apply · record) h.turns)
  · show replayedTurnIds (s.records ++ [record]) = s.started
    rw [replayedTurnIds_concat, h.replayed, if_neg hprompt, append_nil]
  · rw [hreserve]
    show OpenIds (s.turns.apply record).nextTurnId (s.turns.apply record).cancelledTurnIds _ _
    rw [hclock, hcancelled]
    exact h.ids

theorem cancelQueuedTurn (turnId : Nat) : Reserved (s.cancelQueuedTurn turnId) := by
  rw [AgentLoop.cancelQueuedTurn]
  split_ifs with hmem
  · have hid := (h.ids.open_iff turnId).mp (.inl hmem)
    have happly : s.turns.apply (.cancel (some turnId) (some .queued)) =
        advanceTurnClock s.turns s.turns.nextTurnId (s.turns.cancelledTurnIds ++ [turnId]) :=
      if_neg (Nat.not_lt_of_le hid.1)
    have hskip := advanceTurnClock_skipped s.turns s.turns.nextTurnId (s.turns.cancelledTurnIds ++ [turnId])
    have hopen := h.ids.cancel hmem hskip
    rw [← happly] at hskip hopen
    have hreserve : ({ s with pendingTurns := s.pendingTurns.erase turnId }.dispatch
        (.cancel (some turnId) (some .queued))).reserveTurnId = s.reserveTurnId :=
      reserve_of_clock (lt_of_le_of_lt hid.1 hid.2) hopen.le
    refine { h with
      turns := ?_
      replayed := ?_
      ids := by
        rw [hreserve]
        exact hopen
      started_lt := fun id hid => lt_of_lt_of_le (h.started_lt id hid) hskip.le
      handles_lt := by
        rw [hreserve]
        exact h.handles_lt
      pending_handed := fun id hid => h.pending_handed id (mem_of_mem_erase hid)
      active_lt := fun id hid => lt_of_lt_of_le (h.active_lt id hid) hskip.le }
    · exact (replayTurns_concat _ _).trans (congrArg (TurnModelState.apply · _) h.turns)
    · show replayedTurnIds (s.records ++ [.cancel (some turnId) (some .queued)]) = s.started
      rw [replayedTurnIds_concat, h.replayed, if_neg TurnRecord.noConfusion, append_nil]
  · exact h

theorem cancelActiveTurn (hactive : s.activeTurn = some turnId) : Reserved (s.cancelActiveTurn turnId) := by
  rw [AgentLoop.cancelActiveTurn]
  split_ifs
  · exact h
  · have happly : s.turns.apply (.cancel (some turnId) (some .active)) = s.turns :=
      if_pos (h.active_lt turnId hactive)
    exact { h.dispatch TurnRecord.noConfusion (congrArg _ happly) (congrArg _ happly) with }

theorem cancel (turnId : Option Nat) : Reserved (s.cancel turnId) := by
  rw [cancel.eq_def]
  split
  · next hactive => exact h.cancelActiveTurn hactive
  · next hactive =>
    split_ifs
    · exact h.cancelActiveTurn hactive
    · exact h.cancelQueuedTurn _
  · exact h.cancelQueuedTurn _
  · exact h

theorem loopEvent (hactive : s.activeTurn = some turnId) (carriesTurnId : Bool) :
    Reserved (s.dispatch (.loopEvent (if carriesTurnId then some turnId else none))) := by
  cases carriesTurnId with
  | false => exact h.dispatch TurnRecord.noConfusion rfl rfl
  | true =>
    have hlt := h.active_lt turnId hactive
    have happly : s.turns.apply (.loopEvent (some turnId)) =
        if s.turns.lastEnded.any fun ended => ended.1 < turnId then { s.turns with lastEnded := none }
        else s.turns := by
      show s.turns.reduceLoopEvent (some turnId) = _
      rw [TurnModelState.reduceLoopEvent, if_neg (Nat.not_le_of_lt hlt)]
    apply h.dispatch TurnRecord.noConfusion
    · rw [if_pos rfl, happly]
      split_ifs <;> rfl
    · rw [if_pos rfl, happly]
      split_ifs <;> rfl

theorem createAndQueueTurn : Reserved s.createAndQueueTurn := h.createPendingTurn.pumpTurns

theorem admitStep (admission : StepAdmission) : Reserved (s.admitStep admission) := by
  cases admission with
  | newTurn => exact h.createAndQueueTurn
  | activeOrNewTurn =>
    rw [AgentLoop.admitStep]
    split_ifs
    · exact h.createAndQueueTurn
    · exact h
  | activeOrNextTurn =>
    rw [AgentLoop.admitStep]
    split_ifs
    · exact { h with }
    · exact h
  | activeTurnOnly => exact h

theorem enqueue (admission : StepAdmission) : Reserved (s.enqueue admission) := by
  rw [AgentLoop.enqueue]
  split_ifs
  · exact h
  · exact { h with }
  · exact h.admitStep admission

theorem releaseQuiescence : Reserved s.releaseQuiescence := by
  have hall : ∀ (admissions : List StepAdmission) (s : AgentLoop), Reserved s →
      Reserved (admissions.foldl AgentLoop.admitStep s) := by
    intro admissions
    induction admissions with
    | nil => exact fun _ h => h
    | cons admission admissions ih => exact fun s h => ih _ (h.admitStep admission)
  have hless : Reserved { s with quiescenceDepth := s.quiescenceDepth - 1 } := { h with }
  rw [AgentLoop.releaseQuiescence]
  split_ifs
  · exact hless
  · apply pumpTurns
    apply hall
    exact { hless.pumpTurns with }

theorem dispose : Reserved s.dispose := by
  have hall : ∀ (ids : List Nat) (s : AgentLoop), Reserved s →
      Reserved (ids.foldl (fun s id => s.cancel (some id)) s) := by
    intro ids
    induction ids with
    | nil => exact fun _ h => h
    | cons id ids ih => exact fun s h => ih _ (h.cancel (some id))
  rw [AgentLoop.dispose]
  split_ifs
  · exact h
  · have hcancelled := hall s.pendingTurns { s with disposing := true } { h with }
    dsimp only
    split
    · exact { hcancelled with }
    · exact { hcancelled.cancel _ with }

end

theorem step (e : TurnEvent) (h : Reserved s) (hstep : s.step e = some s') : Reserved s' := by
  cases e with
  | enqueue admission =>
    cases hstep
    exact h.enqueue admission
  | cancel turnId =>
    cases hstep
    exact h.cancel turnId
  | steered =>
    cases hstep
    exact h.dispatch TurnRecord.noConfusion rfl rfl
  | loopEvent carriesTurnId =>
    obtain ⟨id, hactive, rfl⟩ := map_eq_some_iff.mp hstep
    exact h.loopEvent hactive carriesTurnId
  | released =>
    obtain ⟨id, hactive, rfl⟩ := map_eq_some_iff.mp hstep
    exact { h with active_lt := fun _ hid => absurd hid (not_mem_none _) }
  | ended turn reason =>
    obtain ⟨id, _, rfl⟩ := map_eq_some_iff.mp hstep
    have hended : Reserved { s with ending := s.ending.eraseIdx turn } := { h with }
    exact (hended.dispatch TurnRecord.noConfusion rfl rfl).pumpTurns
  | abortHeld index =>
    rw [AgentLoop.step] at hstep
    split_ifs at hstep
    cases hstep
    exact { h with }
  | acquireQuiescence =>
    cases hstep
    rw [tryAcquireQuiescence]
    split_ifs
    · exact h
    · exact { h with }
  | releaseQuiescence =>
    rw [AgentLoop.step] at hstep
    split_ifs at hstep
    cases hstep
    exact h.releaseQuiescence
  | dispose =>
    cases hstep
    exact h.dispose

theorem resume (hnone : (replayTurns journal).cancelledTurnIds = []) : Reserved (resume journal) := by
  obtain ⟨hsorted, hlt⟩ := replayedTurnIds_sorted journal
  have hreserve : (AgentLoop.resume journal).reserveTurnId = (replayTurns journal).nextTurnId := max_self _
  have hclock : (AgentLoop.resume journal).turns = replayTurns journal := rfl
  constructor
  · rfl
  · rfl
  · rw [hreserve, hclock, hnone]
    constructor
    · exact le_refl _
    · intro id
      constructor
      · rintro (hid | hid) <;> cases hid
      · rintro ⟨hge, hlt⟩
        exact absurd hge (Nat.not_le_of_lt hlt)
    · exact fun _ hid => absurd hid not_mem_nil
    · exact not_mem_nil
    · exact .nil
  · exact hsorted
  · exact hlt
  · exact hsorted.imp ne_of_lt
  · exact fun id hid => hreserve.symm ▸ hlt id hid
  · exact fun _ hid => hid
  · exact fun _ hid => absurd hid not_mem_nil
  · exact fun _ hid => absurd hid (not_mem_none _)

end Reserved

theorem run_resumed_inOrder (journal : List TurnRecord) (events : List TurnEvent) (s : AgentLoop)
    (hnone : (replayTurns journal).cancelledTurnIds = []) (hrun : run (resume journal) events = some s) :
    TurnsInOrder s := by
  have hstep : ∀ s e s', Reserved s → step s e = some s' → Reserved s' := fun s e s' h => h.step e
  exact (run_invariant hstep (Reserved.resume hnone) hrun).inOrder

/-- In particular in every run of a new session. -/
theorem run_inOrder (events : List TurnEvent) (s : AgentLoop) (hrun : run {} events = some s) : TurnsInOrder s :=
  run_resumed_inOrder [] events s rfl hrun

/-- Of three turns that wait, one is cancelled; the others start. -/
def cancelledInQueue : List TurnEvent :=
  [.enqueue .newTurn, .enqueue .newTurn, .enqueue .newTurn, .enqueue .activeOrNewTurn, .enqueue .newTurn,
    .cancel (some 2), .released, .enqueue .newTurn, .ended 0 .completed, .cancel none, .released,
    .ended 0 .cancelled]

theorem run_inOrder_cancelledInQueue :
    ∃ s, run {} cancelledInQueue = some s ∧ s.started = [0, 1, 3] ∧ replayedTurnIds s.records = [0, 1, 3] ∧
      TurnsInOrder s := by
  refine ⟨_, rfl, by decide +kernel, by decide +kernel, ?_⟩
  exact run_inOrder cancelledInQueue _ rfl

end AgentLoop

end Echadron.Agent
