import Echadron.Task.AgentTaskService

namespace Echadron.Task
open Lib List Option

variable {entry : ManagedTask} {records : List TaskRecord}

namespace ManagedTask

/-! One call at a time. -/

def Forced (entry : ManagedTask) : Prop := entry.hasForceStop = true → 0 < entry.forceStops

/-- Why a task may be terminal: its work is done, or it was forced to stop, or it is a function whose
handle does not wait for it. -/
def Ended (entry : ManagedTask) : Prop := entry.finished = true ∨ entry.Forced ∨ entry.tracksRun = true

/-- A task is settled once and says so once; nobody waits for a settled task; and the force-stop
function was called for every stop whose grace period was over too soon. -/
structure Settles (entry : ManagedTask) (records : List TaskRecord) : Prop where
  quiet : entry.isTerminal = false → entry.settling = false
  fired : entry.terminalFired = (entry.isTerminal && !entry.settling && entry.isDetached)
  terminated : (terminations records).map AgentTaskInfo.status =
    if entry.terminalFired then [entry.status] else []
  joined : ∀ w ∈ entry.joined, w ∈ entry.waiters ∨ w ∈ entry.resolvedWaiters ∨ w ∈ entry.withdrawn
  free : entry.isTerminal = true → entry.settling = false → entry.waiters = []
  ended : entry.isTerminal = true → entry.Ended
  forcing : ∀ stop ∈ entry.stops, stop.phase = .forcing → entry.Forced
  late : ∀ stop ∈ entry.stops, stop.late = true → entry.Forced

structure Releases (entry : ManagedTask) (records : List TaskRecord) : Prop where
  started : (starts records).length = if entry.isDetached then 1 else 0
  released : entry.detached = false → entry.isDetached = true → entry.released.isSome = true
  terminal : entry.detached = false → entry.isTerminal = true → entry.settling = false →
    entry.released.isSome = true

theorem finishSettlement_fst (entry : ManagedTask) : entry.finishSettlement.1 =
    { entry with
      terminalFired := entry.terminalFired || entry.isDetached
      released := if entry.foregroundRelease then entry.released.or (some .terminal) else entry.released
      waiters := []
      resolvedWaiters := entry.resolvedWaiters ++ entry.waiters
      settling := false } := by
  obtain ⟨_, _, _, _, _, _, _, _, foregroundRelease, _, _, terminalFired, _⟩ := entry
  cases foregroundRelease <;> cases terminalFired <;> rfl

theorem finishSettlement_snd (entry : ManagedTask) : entry.finishSettlement.2 =
    if entry.terminalFired || !entry.isDetached then [] else
      [.terminated { entry with terminalFired := true }.toInfo] := by
  obtain ⟨_, _, _, _, _, _, _, _, foregroundRelease, _, _, terminalFired, _⟩ := entry
  cases foregroundRelease <;> cases terminalFired <;> rfl

theorem starts_finishSettlement (entry : ManagedTask) : starts entry.finishSettlement.2 = [] := by
  rw [finishSettlement_snd]
  split <;> rfl

theorem Settles.finishSettlement (h : Settles entry records) (hterminal : entry.isTerminal = true)
    (hfired : entry.terminalFired = false) :
    Settles entry.finishSettlement.1 (records ++ entry.finishSettlement.2) := by
  rw [finishSettlement_fst, finishSettlement_snd]
  have hterminated := h.terminated
  rw [hfired, if_neg Bool.false_ne_true, map_eq_nil_iff] at hterminated
  constructor
  · intro _
    rfl
  · change (entry.terminalFired || entry.isDetached) = (entry.isTerminal && true && entry.isDetached)
    rw [hfired, hterminal]
    rfl
  · rw [hfired, terminations_append, hterminated]
    cases entry.isDetached <;> rfl
  · intro w hw
    refine .inr ?_
    rcases h.joined w hw with hwaits | hresolved | hwithdrawn
    · exact .inl (mem_append_right _ hwaits)
    · exact .inl (mem_append_left _ hresolved)
    · exact .inr hwithdrawn
  · intro _ _
    rfl
  · exact h.ended
  · exact h.forcing
  · exact h.late

theorem finishSettlement_settling (entry : ManagedTask) :
    { entry with settling := true }.finishSettlement = entry.finishSettlement := by
  refine Prod.ext ?_ ?_
  · rw [finishSettlement_fst, finishSettlement_fst]
    rfl
  · rw [finishSettlement_snd, finishSettlement_snd]
    rfl

theorem Settles.settledBy (h : Settles entry records) (hrunning : entry.isTerminal = false)
    (hended : entry.Ended) (settlement : AgentTaskSettlement) :
    Settles { entry.settledBy settlement with settling := true } records := by
  have hfired : entry.terminalFired = false := by rw [h.fired, hrunning, Bool.false_and, Bool.false_and]
  have hterminated := h.terminated
  rw [hfired] at hterminated
  constructor
  · intro hnot
    exact absurd (isAgentTaskTerminal_toStatus settlement.status) (Bool.eq_false_iff.mp hnot)
  · change entry.terminalFired = (isAgentTaskTerminal settlement.status.toStatus && false && _)
    rw [hfired, Bool.and_false, Bool.false_and]
  · change (terminations records).map _ = if entry.terminalFired then _ else []
    rw [hfired, hterminated]
    rfl
  · exact h.joined
  · intro _ hsettling
    cases hsettling
  · intro _
    exact hended
  · exact h.forcing
  · exact h.late

theorem Settles.settleTask (h : Settles entry records) (hended : entry.Ended) (settlement : AgentTaskSettlement) :
    Settles (entry.settleTask settlement).1 (records ++ (entry.settleTask settlement).2) := by
  unfold ManagedTask.settleTask
  split
  · rw [append_nil]
    exact h
  · rename_i hrunning
    have hrunning : entry.isTerminal = false := Bool.eq_false_iff.mpr hrunning
    have hwaiting := h.settledBy hrunning hended settlement
    split
    · rw [append_nil]
      exact hwaiting
    · rw [← finishSettlement_settling]
      apply hwaiting.finishSettlement (isAgentTaskTerminal_toStatus settlement.status)
      change entry.terminalFired = false
      rw [h.fired, hrunning, Bool.false_and, Bool.false_and]

theorem starts_settleTask (entry : ManagedTask) (settlement : AgentTaskSettlement) :
    starts (entry.settleTask settlement).2 = [] := by
  unfold settleTask
  split
  · rfl
  · split
    · rfl
    · exact starts_finishSettlement _

theorem Releases.finishSettlement (h : Releases entry records) :
    Releases entry.finishSettlement.1 (records ++ entry.finishSettlement.2) := by
  have hreleased : entry.detached = false → entry.finishSettlement.1.released.isSome = true := by
    intro hforeground
    rw [finishSettlement_fst]
    split
    · cases entry.released <;> rfl
    · rename_i hrelease
      apply h.released hforeground
      rw [isDetached, Bool.eq_false_iff.mpr hrelease]
      rfl
  have hdetached : entry.finishSettlement.1.detached = entry.detached := by rw [finishSettlement_fst]
  constructor
  · rw [starts_append, starts_finishSettlement, append_nil, h.started, finishSettlement_fst]
    rfl
  · intro hforeground _
    exact hreleased (hdetached.symm.trans hforeground)
  · intro hforeground _ _
    exact hreleased (hdetached.symm.trans hforeground)

theorem Releases.settleTask (h : Releases entry records) (settlement : AgentTaskSettlement) :
    Releases (entry.settleTask settlement).1 (records ++ (entry.settleTask settlement).2) := by
  unfold ManagedTask.settleTask
  split
  · rw [append_nil]
    exact h
  · have hwaiting : Releases { entry.settledBy settlement with settling := true } records := by
      refine { h with terminal := ?_ }
      intro _ _ hsettling
      cases hsettling
    split
    · rw [append_nil]
      exact hwaiting
    · rw [← finishSettlement_settling]
      exact hwaiting.finishSettlement

/-- What holds of an entry and its records between calls. -/
structure Law (entry : ManagedTask) (records : List TaskRecord) : Prop where
  settles : Settles entry records
  releases : Releases entry records

theorem Law.settleTask (h : Law entry records) (hended : entry.Ended) (settlement : AgentTaskSettlement) :
    Law (entry.settleTask settlement).1 (records ++ (entry.settleTask settlement).2) :=
  ⟨h.settles.settleTask hended settlement, h.releases.settleTask settlement⟩

def Follows (before after : TaskHandle) : Prop :=
  after.isRun = before.isRun ∧ (before.settled = true → after.settled = true)

theorem follows_finish (handle : TaskHandle) (failed : Bool) : Follows handle (handle.finish failed) :=
  ⟨handle.isRun_finish failed, TaskHandle.settled_finish failed⟩

theorem follows_cancel (handle : TaskHandle) : Follows handle handle.cancel :=
  ⟨handle.isRun_cancel, TaskHandle.settled_cancel⟩

theorem Settles.changeHandle (h : Settles entry records) {before after : TaskHandle}
    (hhandle : entry.handle = some before) (hfollows : Follows before after) :
    Settles (entry.changeHandle before after).1 (records ++ (entry.changeHandle before after).2) := by
  have hchanged : Settles { entry with handle := some after } records := by
    refine { h with ended := ?_ }
    intro hterminal
    have hended := h.ended hterminal
    rw [Ended, finished, tracksRun, hhandle] at hended
    rcases hended with hfinished | hforced | hrun
    · exact .inl (hfollows.2 hfinished)
    · exact .inr (.inl hforced)
    · exact .inr (.inr (hfollows.1.trans hrun))
  unfold ManagedTask.changeHandle
  split
  · rename_i hheard
    apply hchanged.settleTask
    rw [Bool.and_eq_true] at hheard
    cases hrun : after.isRun with
    | true => exact .inr (.inr hrun)
    | false => exact .inl (TaskHandle.settled_of_isTerminal hrun hheard.2)
  · rw [append_nil]
    exact hchanged

theorem Releases.changeHandle (h : Releases entry records) (before after : TaskHandle) :
    Releases (entry.changeHandle before after).1 (records ++ (entry.changeHandle before after).2) := by
  have hchanged : Releases { entry with handle := some after } records := ⟨h.started, h.released, h.terminal⟩
  unfold ManagedTask.changeHandle
  split
  · exact hchanged.settleTask _
  · rw [append_nil]
    exact hchanged

theorem starts_changeHandle (entry : ManagedTask) (before after : TaskHandle) :
    starts (entry.changeHandle before after).2 = [] := by
  unfold changeHandle
  split
  · exact starts_settleTask _ _
  · rfl

theorem Law.changeHandle (h : Law entry records) {before after : TaskHandle}
    (hhandle : entry.handle = some before) (hfollows : Follows before after) :
    Law (entry.changeHandle before after).1 (records ++ (entry.changeHandle before after).2) :=
  ⟨h.settles.changeHandle hhandle hfollows, h.releases.changeHandle before after⟩

section

variable (h : Law entry records)
include h

theorem Law.pushStop {stop : Stop} (hphase : stop.phase ≠ .forcing)
    (hlate : stop.late = false) : Law (entry.pushStop stop) records := by
  constructor
  · refine { h.settles with forcing := ?_, late := ?_ }
    · intro other hother hforcing
      rcases mem_snoc.mp hother with hold | hnew
      · exact h.settles.forcing other hold hforcing
      · rw [hnew] at hforcing
        exact absurd hforcing hphase
    · intro other hother hother_late
      rcases mem_snoc.mp hother with hold | hnew
      · exact h.settles.late other hold hother_late
      · rw [hnew, hlate] at hother_late
        cases hother_late
  · exact ⟨h.releases.started, h.releases.released, h.releases.terminal⟩

theorem Law.cancelWork : Law entry.cancelWork.1 (records ++ entry.cancelWork.2) := by
  unfold ManagedTask.cancelWork
  split
  · rename_i handle hhandle
    exact h.changeHandle hhandle (follows_cancel handle)
  · rw [append_nil]
    exact ⟨{ h.settles with }, ⟨h.releases.started, h.releases.released, h.releases.terminal⟩⟩

theorem Law.terminateWithGrace (options : StopOptions) :
    Law (entry.terminateWithGrace options).1 (records ++ (entry.terminateWithGrace options).2) := by
  unfold ManagedTask.terminateWithGrace
  split
  · rw [append_nil]
    apply h.pushStop
    · intro hforcing
      cases hforcing
    · rfl
  · have hstopping : Law (entry.stopping options) records :=
      ⟨{ h.settles with }, ⟨h.releases.started, h.releases.released, h.releases.terminal⟩⟩
    apply hstopping.cancelWork.pushStop
    · intro hforcing
      cases hforcing
    · rfl

theorem Law.setStop (k : Nat) {stop : Stop} (hforcing : stop.phase = .forcing → entry.Forced)
    (hlate : stop.late = true → entry.Forced) : Law (entry.setStop k stop) records := by
  constructor
  · refine { h.settles with forcing := ?_, late := ?_ }
    · intro other hother
      rcases mem_or_eq_of_mem_set hother with hold | rfl
      · exact h.settles.forcing other hold
      · exact hforcing
    · intro other hother
      rcases mem_or_eq_of_mem_set hother with hold | rfl
      · exact h.settles.late other hold
      · exact hlate
  · exact ⟨h.releases.started, h.releases.released, h.releases.terminal⟩

theorem Law.moveStop (k : Nat) {stop : Stop} (hstop : stop ∈ entry.stops)
    (hphase : phase ≠ .forcing) : Law (entry.setStop k { stop with phase := phase }) records := by
  apply h.setStop k
  · intro hforcing
    exact absurd hforcing hphase
  · exact h.settles.late stop hstop

theorem Law.settleStop {stop : Stop} (hstop : stop ∈ entry.stops)
    (hended : entry.Ended) : Law (entry.settleStop k stop).1 (records ++ (entry.settleStop k stop).2) := by
  unfold ManagedTask.settleStop
  split
  · rw [append_nil]
    exact h.moveStop k hstop (by decide)
  · have hset : Law (entry.setStop k { stop with phase := .settling }) records := h.moveStop k hstop (by decide)
    exact hset.settleTask hended _

theorem Law.graceExpired (k : Nat) (stop : Stop)
    (hmeets : entry.isTerminal = true → entry.hasForceStop = true → entry.tracksRun = false) :
    Law (entry.graceExpired k stop).1 (records ++ (entry.graceExpired k stop).2) := by
  unfold ManagedTask.graceExpired
  split
  · rename_i hterminal
    rw [append_nil]
    apply h.setStop k
    · intro hforcing
      cases hforcing
    · intro hlate hforce
      rcases h.settles.ended hterminal with hfinished | hforced | hrun
      · rw [hfinished] at hlate
        cases hlate
      · exact hforced hforce
      · rw [hmeets hterminal hforce] at hrun
        cases hrun
  · rw [append_nil]
    have hforced : Law { entry with
        forceStops := entry.forceStops + if entry.hasForceStop then 1 else 0 } records := by
      have hmono : entry.Forced → ({ entry with
          forceStops := entry.forceStops + if entry.hasForceStop then 1 else 0 } : ManagedTask).Forced := by
        intro hforced hforce
        exact Nat.lt_add_right _ (hforced hforce)
      constructor
      · refine { h.settles with ended := ?_, forcing := ?_, late := ?_ }
        · intro hterminal
          rcases h.settles.ended hterminal with hfinished | hforced | hrun
          · exact .inl hfinished
          · exact .inr (.inl (hmono hforced))
          · exact .inr (.inr hrun)
        · intro other hother hforcing
          exact hmono (h.settles.forcing other hother hforcing)
        · intro other hother hlate
          exact hmono (h.settles.late other hother hlate)
      · exact ⟨h.releases.started, h.releases.released, h.releases.terminal⟩
    have hcalled : ({ entry with
        forceStops := entry.forceStops + if entry.hasForceStop then 1 else 0 } : ManagedTask).Forced := by
      intro hforce
      rw [if_pos hforce]
      exact Nat.succ_pos _
    exact hforced.setStop k (fun _ => hcalled) (fun _ => hcalled)

theorem Law.resume {stop : Stop} (hstop : stop ∈ entry.stops)
    (hresume : entry.resume k stop = some effect) : Law effect.1 (records ++ effect.2) := by
  unfold ManagedTask.resume at hresume
  split at hresume
  · rename_i hforcing
    cases hresume
    exact h.settleStop hstop (.inr (.inl (h.settles.forcing stop hstop hforcing)))
  · obtain ⟨_, hresume⟩ := ite_none_left_eq_some.mp hresume
    cases hresume
    rw [append_nil]
    exact h.moveStop k hstop (by decide)
  · cases hresume

end

theorem Settles.report (h : Settles entry records) : Settles { entry with reported := true } records := by
  refine { h with ended := ?_ }
  intro hterminal
  rcases h.ended hterminal with hfinished | hforced | hrun
  · left
    unfold finished at hfinished ⊢
    cases hhandle : entry.handle with
    | none => rfl
    | some handle =>
      rw [hhandle] at hfinished
      exact hfinished
  · exact .inr (.inl hforced)
  · exact .inr (.inr hrun)

theorem ended_report (hhandle : entry.handle = none) : Ended { entry with reported := true } := by
  left
  rw [hhandle]
  rfl

theorem Settles.callback (h : Settles entry records) (onDetach : OnDetach) :
    Settles (entry.callback onDetach).1 (records ++ (entry.callback onDetach).2) := by
  unfold ManagedTask.callback
  cases onDetach with
  | quiet =>
    rw [append_nil]
    exact h
  | settle settlement =>
    dsimp only
    split
    · rw [append_nil]
      exact h
    · rename_i hnone
      exact h.report.settleTask (ended_report (not_isSome_iff_eq_none.mp hnone)) _
  | finish failed =>
    dsimp only
    split
    · rw [append_nil]
      exact h
    · rename_i handle hhandle
      exact h.changeHandle hhandle (follows_finish handle failed)
  | cancel =>
    dsimp only
    split
    · rw [append_nil]
      exact h
    · rename_i handle hhandle
      exact h.changeHandle hhandle (follows_cancel handle)

theorem starts_callback (entry : ManagedTask) (onDetach : OnDetach) : starts (entry.callback onDetach).2 = [] := by
  unfold callback
  cases onDetach with
  | quiet => rfl
  | settle settlement =>
    dsimp only
    split
    · rfl
    · exact starts_settleTask _ _
  | finish failed =>
    dsimp only
    split
    · rfl
    · exact starts_changeHandle _ _ _
  | cancel =>
    dsimp only
    split
    · rfl
    · exact starts_changeHandle _ _ _

/-! A settlement and a change of the handle leave an entry with the detachment it has. -/

theorem foregroundRelease_settleTask (entry : ManagedTask) (settlement : AgentTaskSettlement) :
    (entry.settleTask settlement).1.foregroundRelease = entry.foregroundRelease := by
  unfold settleTask
  split
  · rfl
  · split
    · rfl
    · rw [finishSettlement_fst]
      rfl

theorem foregroundRelease_changeHandle (entry : ManagedTask) (before after : TaskHandle) :
    (entry.changeHandle before after).1.foregroundRelease = entry.foregroundRelease := by
  unfold changeHandle
  split
  · exact foregroundRelease_settleTask _ _
  · rfl

theorem foregroundRelease_callback (entry : ManagedTask) (onDetach : OnDetach) :
    (entry.callback onDetach).1.foregroundRelease = entry.foregroundRelease := by
  unfold callback
  cases onDetach with
  | quiet => rfl
  | settle settlement =>
    dsimp only
    split
    · rfl
    · exact foregroundRelease_settleTask _ _
  | finish failed =>
    dsimp only
    split
    · rfl
    · exact foregroundRelease_changeHandle _ _ _
  | cancel =>
    dsimp only
    split
    · rfl
    · exact foregroundRelease_changeHandle _ _ _

theorem Settles.leaveForeground (h : Settles entry records) (hrunning : entry.isTerminal = false) :
    Settles entry.leaveForeground.applyDetachTimeout records := by
  have hleft : Settles entry.leaveForeground records := by
    refine { h with fired := ?_ }
    change entry.terminalFired = (entry.isTerminal && !entry.settling && true)
    rw [h.fired, hrunning, Bool.false_and, Bool.false_and, Bool.false_and]
  unfold applyDetachTimeout
  split
  · exact hleft
  · exact { hleft with }

theorem Settles.recordStarted (h : Settles entry records) (info : AgentTaskInfo) :
    Settles entry (records ++ [.started info]) := by
  refine { h with terminated := ?_ }
  rw [terminations_append]
  change (terminations records ++ []).map _ = _
  rw [append_nil]
  exact h.terminated

theorem foregroundRelease_applyDetachTimeout (entry : ManagedTask) :
    entry.applyDetachTimeout.foregroundRelease = entry.foregroundRelease := by
  unfold applyDetachTimeout
  split <;> rfl

section

variable (h : Law entry records)
include h

theorem Law.detachEntry (viaTimeout : Bool) (onDetach : OnDetach) : Law (entry.detachEntry viaTimeout onDetach).1
      (records ++ (entry.detachEntry viaTimeout onDetach).2) := by
  unfold ManagedTask.detachEntry
  split
  · rw [append_nil]
    exact h
  rename_i hrunning
  split
  · rw [append_nil]
    exact h
  rename_i hforeground
  have hsettles := (h.settles.leaveForeground (Bool.eq_false_iff.mpr hrunning)).callback onDetach
  have hdetached := foregroundRelease_callback entry.leaveForeground.applyDetachTimeout onDetach
  rw [foregroundRelease_applyDetachTimeout] at hdetached
  have hcallback := starts_callback entry.leaveForeground.applyDetachTimeout onDetach
  revert hsettles hdetached hcallback
  generalize entry.leaveForeground.applyDetachTimeout.callback onDetach = effect
  obtain ⟨called, written⟩ := effect
  intro hsettles hdetached hcallback
  have hisDetached : called.isDetached = true := by
    rw [isDetached, hdetached]
    rfl
  have hreleased : ∀ reason, (called.released.or (some reason)).isSome = true := by
    intro reason
    cases called.released <;> rfl
  constructor
  · rw [← append_assoc]
    exact { hsettles.recordStarted called.startOutputPersist.toInfo with }
  · constructor
    · have hnone : starts records = [] := by
        have hstarted := h.releases.started
        rw [if_neg (by rw [isDetached]; exact hforeground)] at hstarted
        exact length_eq_zero_iff.mp hstarted
      rw [starts_append, starts_append, hnone, hcallback]
      exact (if_pos hisDetached).symm
    · intro _ _
      exact hreleased _
    · intro _ _ _
      exact hreleased _

theorem Law.onTimeout (onDetach : OnDetach) :
    Law (entry.onTimeout onDetach).1 (records ++ (entry.onTimeout onDetach).2) := by
  have hfired : Law { entry with timeoutHandle := false } records :=
    ⟨{ h.settles with }, ⟨h.releases.started, h.releases.released, h.releases.terminal⟩⟩
  unfold ManagedTask.onTimeout
  split
  · exact hfired.detachEntry true onDetach
  · exact hfired.terminateWithGrace _

theorem Law.abortFromSignal : Law entry.abortFromSignal.1 (records ++ entry.abortFromSignal.2) := by
  unfold ManagedTask.abortFromSignal
  split
  · rw [append_nil]
    exact h
  · exact h.terminateWithGrace _

theorem Law.wait (hrunning : entry.isTerminal = false) (waiter : Nat) :
    Law { entry with
      waiters := entry.waiters ++ [waiter]
      joined := entry.joined ++ [waiter] } records := by
  constructor
  · refine { h.settles with joined := ?_, free := ?_ }
    · intro w hw
      rcases mem_append.mp hw with hold | hnew
      · rcases h.settles.joined w hold with hwaits | hdone
        · exact .inl (mem_append_left _ hwaits)
        · exact .inr hdone
      · exact .inl (mem_append_right _ hnew)
    · intro hterminal
      exact absurd hterminal (Bool.eq_false_iff.mp hrunning)
  · exact ⟨h.releases.started, h.releases.released, h.releases.terminal⟩

theorem Law.withdraw (waiter : Nat) :
    Law { entry with
      waiters := entry.waiters.filter (· ≠ waiter)
      withdrawn := entry.withdrawn ++ [waiter] } records := by
  constructor
  · refine { h.settles with joined := ?_, free := ?_ }
    · intro w hw
      rcases h.settles.joined w hw with hwaits | hresolved | hwithdrawn
      · by_cases hsame : w = waiter
        · exact .inr (.inr (mem_append_right _ (mem_singleton.mpr hsame)))
        · exact .inl (mem_filter.mpr ⟨hwaits, decide_eq_true hsame⟩)
      · exact .inr (.inl hresolved)
      · exact .inr (.inr (mem_append_left _ hwithdrawn))
    · intro hterminal hsettling
      rw [h.settles.free hterminal hsettling, filter_nil]
  · exact ⟨h.releases.started, h.releases.released, h.releases.terminal⟩

theorem Law.startOver (hhandle : entry.handle = none) {start : StartPromise} (hover : start ≠ .pending) :
    Ended { entry with start := start } ∧ Law { entry with start := start } records := by
  have hended : Ended { entry with start := start } := by
    left
    unfold finished
    rw [hhandle, decide_eq_true hover, Bool.or_true]
  exact ⟨hended, { h.settles with ended := fun _ => hended },
    ⟨h.releases.started, h.releases.released, h.releases.terminal⟩⟩

end

end ManagedTask

end Echadron.Task
