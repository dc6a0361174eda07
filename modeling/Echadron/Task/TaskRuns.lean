import Echadron.Task.TaskSettlement

namespace Echadron.Task
open Lib List Option

variable {entry : ManagedTask} {records : List TaskRecord}

namespace ManagedTask

/-- A call keeps the id of an entry and the status of a terminal one, and writes records of its id. -/
structure Frame (entry : ManagedTask) (effect : Effect) : Prop where
  taskId : effect.1.taskId = entry.taskId
  status : entry.isTerminal = true → effect.1.status = entry.status
  written : ∀ r ∈ effect.2, r.info.taskId = entry.taskId

theorem Frame.silent {entry after : ManagedTask} (htaskId : after.taskId = entry.taskId)
    (hstatus : after.status = entry.status) : Frame entry (after, []) :=
  ⟨htaskId, fun _ => hstatus, fun _ hr => absurd hr not_mem_nil⟩

theorem Frame.of_same (h : Frame before effect)
    (htaskId : before.taskId = entry.taskId) (hstatus : before.status = entry.status) :
    Frame entry effect := by
  constructor
  · exact h.taskId.trans htaskId
  · intro hterminal
    have hbefore : before.isTerminal = true := by
      rw [isTerminal, hstatus]
      exact hterminal
    exact (h.status hbefore).trans hstatus
  · intro r hr
    exact (h.written r hr).trans htaskId

theorem Frame.then_same {after : ManagedTask} (h : Frame entry effect)
    (htaskId : after.taskId = effect.1.taskId) (hstatus : after.status = effect.1.status) :
    Frame entry (after, effect.2) :=
  ⟨htaskId.trans h.taskId, fun hterminal => hstatus.trans (h.status hterminal), h.written⟩

section

variable (entry : ManagedTask)

theorem frame_finishSettlement : Frame entry entry.finishSettlement := by
  constructor
  · rw [finishSettlement_fst]
  · intro _
    rw [finishSettlement_fst]
  · intro r hr
    rw [finishSettlement_snd] at hr
    split at hr
    · cases hr
    · rw [mem_singleton.mp hr]
      rfl

theorem frame_settleTask (settlement : AgentTaskSettlement) : Frame entry (entry.settleTask settlement) := by
  unfold settleTask
  split
  · exact .silent rfl rfl
  · rename_i hrunning
    have hframe : ∀ effect, Frame (entry.settledBy settlement) effect → Frame entry effect :=
      fun effect h => ⟨h.taskId, fun hterminal => absurd hterminal hrunning, h.written⟩
    apply hframe
    split
    · exact .silent rfl rfl
    · exact frame_finishSettlement _

theorem frame_changeHandle (before after : TaskHandle) : Frame entry (entry.changeHandle before after) := by
  unfold changeHandle
  split
  · exact (frame_settleTask _ _).of_same rfl rfl
  · exact .silent rfl rfl

theorem frame_cancelWork : Frame entry entry.cancelWork := by
  unfold cancelWork
  split
  · exact frame_changeHandle _ _ _
  · exact .silent rfl rfl

theorem frame_terminateWithGrace (options : StopOptions) : Frame entry (entry.terminateWithGrace options) := by
  unfold terminateWithGrace
  split
  · exact .silent rfl rfl
  · have hcancel : Frame entry (entry.stopping options).cancelWork := (frame_cancelWork _).of_same rfl rfl
    exact hcancel.then_same rfl rfl

theorem frame_settleStop (k : Nat) (stop : Stop) : Frame entry (entry.settleStop k stop) := by
  unfold settleStop
  split
  · exact .silent rfl rfl
  · exact (frame_settleTask _ _).of_same rfl rfl

theorem frame_graceExpired (k : Nat) (stop : Stop) : Frame entry (entry.graceExpired k stop) := by
  unfold graceExpired
  split <;> exact .silent rfl rfl

theorem frame_resume {stop : Stop} (hresume : entry.resume k stop = some effect) : Frame entry effect := by
  unfold resume at hresume
  split at hresume
  · cases hresume
    exact frame_settleStop _ _ _
  · obtain ⟨_, hresume⟩ := ite_none_left_eq_some.mp hresume
    cases hresume
    exact .silent rfl rfl
  · cases hresume

theorem frame_callback (onDetach : OnDetach) : Frame entry (entry.callback onDetach) := by
  unfold callback
  cases onDetach with
  | quiet => exact .silent rfl rfl
  | settle settlement =>
    dsimp only
    split
    · exact .silent rfl rfl
    · exact (frame_settleTask _ _).of_same rfl rfl
  | finish failed =>
    dsimp only
    split
    · exact .silent rfl rfl
    · exact frame_changeHandle _ _ _
  | cancel =>
    dsimp only
    split
    · exact .silent rfl rfl
    · exact frame_changeHandle _ _ _

theorem frame_detachEntry (viaTimeout : Bool) (onDetach : OnDetach) :
    Frame entry (entry.detachEntry viaTimeout onDetach) := by
  have hleft : entry.leaveForeground.applyDetachTimeout.taskId = entry.taskId ∧
      entry.leaveForeground.applyDetachTimeout.status = entry.status := by
    unfold applyDetachTimeout
    split <;> exact ⟨rfl, rfl⟩
  unfold detachEntry
  split
  · exact .silent rfl rfl
  split
  · exact .silent rfl rfl
  have hcallback := frame_callback entry.leaveForeground.applyDetachTimeout onDetach
  have hframe := hcallback.of_same hleft.1 hleft.2
  refine ⟨hframe.taskId, hframe.status, ?_⟩
  intro r hr
  rcases mem_snoc.mp hr with hold | hnew
  · exact hframe.written r hold
  · rw [hnew]
    exact hframe.taskId

theorem frame_onTimeout (onDetach : OnDetach) : Frame entry (entry.onTimeout onDetach) := by
  unfold onTimeout
  split
  · exact (frame_detachEntry _ _ _).of_same rfl rfl
  · exact (frame_terminateWithGrace _ _).of_same rfl rfl

theorem frame_abortFromSignal : Frame entry entry.abortFromSignal := by
  unfold abortFromSignal
  split
  · exact .silent rfl rfl
  · exact frame_terminateWithGrace _ _

end

theorem exists_stop {k : Nat}
    (h : entry.stops[k]?.bind f = some effect) : ∃ stop ∈ entry.stops, f stop = some effect := by
  obtain ⟨stop, hstop, hf⟩ := bind_eq_some_iff.mp h
  exact ⟨stop, mem_of_getElem? hstop, hf⟩

theorem frame_step {event : TaskEvent} (hstep : entry.step event = some effect) : Frame entry effect := by
  cases event with
  | settle settlement =>
    obtain ⟨_, hstep⟩ := ite_none_left_eq_some.mp hstep
    cases hstep
    exact (frame_settleTask _ _).of_same rfl rfl
  | startResolved =>
    obtain ⟨_, hstep⟩ := ite_none_left_eq_some.mp hstep
    cases hstep
    exact .silent rfl rfl
  | startRejected message =>
    obtain ⟨_, hstep⟩ := ite_none_left_eq_some.mp hstep
    cases hstep
    exact (frame_settleTask _ _).of_same rfl rfl
  | caught =>
    obtain ⟨_, hstep⟩ := ite_none_left_eq_some.mp hstep
    cases hstep
    exact .silent rfl rfl
  | handleFinished failed =>
    obtain ⟨handle, _, rfl⟩ := map_eq_some_iff.mp hstep
    exact frame_changeHandle _ _ _
  | handleCancelled =>
    obtain ⟨handle, _, rfl⟩ := map_eq_some_iff.mp hstep
    exact frame_changeHandle _ _ _
  | persistOutput =>
    cases hstep
    exact .silent rfl rfl
  | persisted =>
    obtain ⟨_, hstep⟩ := ite_none_right_eq_some.mp hstep
    cases hstep
    exact frame_finishSettlement _
  | detach onDetach =>
    cases hstep
    exact frame_detachEntry _ _ _
  | timeout onDetach =>
    obtain ⟨_, hstep⟩ := ite_none_right_eq_some.mp hstep
    cases hstep
    exact frame_onTimeout _ _
  | foregroundAbort =>
    obtain ⟨_, hstep⟩ := ite_none_right_eq_some.mp hstep
    cases hstep
    exact (frame_abortFromSignal _).of_same rfl rfl
  | stop reason =>
    cases hstep
    exact frame_terminateWithGrace _ _
  | stopByUser =>
    cases hstep
    exact frame_terminateWithGrace _ _
  | graceExpired k =>
    obtain ⟨stop, _, hstep⟩ := exists_stop hstep
    obtain ⟨_, hstep⟩ := ite_none_right_eq_some.mp hstep
    cases hstep
    exact frame_graceExpired _ _ _
  | graceWon k =>
    obtain ⟨stop, _, hstep⟩ := exists_stop hstep
    obtain ⟨_, hstep⟩ := ite_none_right_eq_some.mp hstep
    cases hstep
    exact frame_settleStop _ _ _
  | resume k =>
    obtain ⟨stop, _, hstep⟩ := exists_stop hstep
    exact frame_resume _ hstep
  | wait waiter =>
    obtain ⟨_, hstep⟩ := ite_none_left_eq_some.mp hstep
    cases hstep
    exact .silent rfl rfl
  | withdraw waiter =>
    cases hstep
    exact .silent rfl rfl

/-- No grace period ends while the handle of a function that runs on has settled the task already, if
there is a force-stop function. -/
def Meets (entry : ManagedTask) : TaskEvent → Prop
  | .graceExpired _ => entry.isTerminal = true → entry.hasForceStop = true → entry.tracksRun = false
  | _ => True

instance Meets.decidable (entry : ManagedTask) (event : TaskEvent) : Decidable (entry.Meets event) := by
  unfold Meets
  cases event <;> infer_instance

theorem finished_of_lifecycleSettled (h : entry.lifecycleSettled = true) : entry.finished = true := by
  unfold lifecycleSettled at h
  unfold finished
  cases hhandle : entry.handle with
  | some handle =>
    rw [hhandle] at h
    exact h
  | none =>
    rw [hhandle] at h
    have hsettled : entry.start = .settled := of_decide_eq_true h
    rw [hsettled]
    exact Bool.or_true _

theorem Law.same (h : Law entry records) : Law entry (records ++ []) := by
  rw [append_nil]
  exact h

theorem Law.step (h : Law entry records) {event : TaskEvent} (hmeets : entry.Meets event)
    (hstep : entry.step event = some effect) : Law effect.1 (records ++ effect.2) := by
  cases event with
  | settle settlement =>
    obtain ⟨hhandle, hstep⟩ := ite_none_left_eq_some.mp hstep
    cases hstep
    have hreported : Law { entry with reported := true } records :=
      ⟨h.settles.report, h.releases.started, h.releases.released, h.releases.terminal⟩
    exact hreported.settleTask (ended_report (not_isSome_iff_eq_none.mp hhandle)) _
  | startResolved =>
    obtain ⟨hpending, hstep⟩ := ite_none_left_eq_some.mp hstep
    cases hstep
    obtain ⟨hhandle, _⟩ := not_or.mp hpending
    exact (h.startOver (not_isSome_iff_eq_none.mp hhandle) (by decide)).2.same
  | startRejected message =>
    obtain ⟨hpending, hstep⟩ := ite_none_left_eq_some.mp hstep
    cases hstep
    obtain ⟨hhandle, _⟩ := not_or.mp hpending
    have hrejected : StartPromise.rejected ≠ .pending := by decide
    obtain ⟨hended, hlaw⟩ := h.startOver (not_isSome_iff_eq_none.mp hhandle) hrejected
    exact hlaw.settleTask hended _
  | caught =>
    obtain ⟨hrejected, hstep⟩ := ite_none_left_eq_some.mp hstep
    cases hstep
    obtain ⟨hhandle, _⟩ := not_or.mp hrejected
    exact (h.startOver (not_isSome_iff_eq_none.mp hhandle) (by decide)).2.same
  | handleFinished failed =>
    obtain ⟨handle, hhandle, rfl⟩ := map_eq_some_iff.mp hstep
    exact h.changeHandle hhandle (follows_finish handle failed)
  | handleCancelled =>
    obtain ⟨handle, hhandle, rfl⟩ := map_eq_some_iff.mp hstep
    exact h.changeHandle hhandle (follows_cancel handle)
  | persistOutput =>
    cases hstep
    have hlaw : Law entry.startOutputPersist records :=
      ⟨{ h.settles with }, ⟨h.releases.started, h.releases.released, h.releases.terminal⟩⟩
    exact hlaw.same
  | persisted =>
    obtain ⟨hsettling, hstep⟩ := ite_none_right_eq_some.mp hstep
    cases hstep
    refine ⟨h.settles.finishSettlement ?_ ?_, h.releases.finishSettlement⟩
    · cases hterminal : entry.isTerminal with
      | true => rfl
      | false =>
        rw [h.settles.quiet hterminal] at hsettling
        cases hsettling
    · rw [h.settles.fired, hsettling, Bool.not_true, Bool.and_false, Bool.false_and]
  | detach onDetach =>
    cases hstep
    exact h.detachEntry _ _
  | timeout onDetach =>
    obtain ⟨_, hstep⟩ := ite_none_right_eq_some.mp hstep
    cases hstep
    exact h.onTimeout onDetach
  | foregroundAbort =>
    obtain ⟨_, hstep⟩ := ite_none_right_eq_some.mp hstep
    cases hstep
    have hheard : Law { entry with foregroundSignal := false } records :=
      ⟨{ h.settles with }, ⟨h.releases.started, h.releases.released, h.releases.terminal⟩⟩
    exact hheard.abortFromSignal
  | stop reason =>
    cases hstep
    exact h.terminateWithGrace _
  | stopByUser =>
    cases hstep
    exact h.terminateWithGrace _
  | graceExpired k =>
    obtain ⟨stop, _, hstep⟩ := exists_stop hstep
    obtain ⟨_, hstep⟩ := ite_none_right_eq_some.mp hstep
    cases hstep
    exact h.graceExpired k stop hmeets
  | graceWon k =>
    obtain ⟨stop, hstop, hstep⟩ := exists_stop hstep
    obtain ⟨hwon, hstep⟩ := ite_none_right_eq_some.mp hstep
    cases hstep
    exact h.settleStop hstop (.inl (finished_of_lifecycleSettled hwon.2))
  | resume k =>
    obtain ⟨stop, hstop, hstep⟩ := exists_stop hstep
    exact h.resume hstop hstep
  | wait waiter =>
    obtain ⟨hrunning, hstep⟩ := ite_none_left_eq_some.mp hstep
    cases hstep
    exact (h.wait (Bool.eq_false_iff.mpr hrunning) waiter).same
  | withdraw waiter =>
    cases hstep
    exact (h.withdraw waiter).same

/-- An entry that nothing has happened to. -/
structure Fresh (entry : ManagedTask) : Prop where
  status : entry.status = .running
  settling : entry.settling = false
  terminalFired : entry.terminalFired = false
  joined : entry.joined = []
  stops : entry.stops = []
  foregroundRelease : entry.foregroundRelease = !entry.detached

theorem fresh_registered (taskId : String) (task : AgentTask) (options : RegisterAgentTaskOptions) :
    Fresh (registered taskId task options) := ⟨rfl, rfl, rfl, rfl, rfl, rfl⟩

theorem fresh_tracked (taskId : String) (handle : TaskHandle) (options : AgentTaskTrackOptions) :
    Fresh (tracked taskId handle options) := ⟨rfl, rfl, rfl, rfl, rfl, rfl⟩

theorem Fresh.running (h : Fresh entry) : entry.isTerminal = false := by
  rw [isTerminal, h.status]
  rfl

theorem Fresh.settles (h : Fresh entry) : Settles entry [] := by
  constructor
  · intro _
    exact h.settling
  · rw [h.terminalFired, h.running, Bool.false_and, Bool.false_and]
  · rw [h.terminalFired]
    rfl
  · rw [h.joined]
    exact forall_mem_nil _
  · intro hterminal
    exact absurd hterminal (Bool.eq_false_iff.mp h.running)
  · intro hterminal
    exact absurd hterminal (Bool.eq_false_iff.mp h.running)
  · rw [h.stops]
    exact forall_mem_nil _
  · rw [h.stops]
    exact forall_mem_nil _

theorem Fresh.isDetached (h : Fresh entry) : entry.isDetached = entry.detached := by
  rw [ManagedTask.isDetached, h.foregroundRelease, Bool.not_not]

theorem Fresh.releases (h : Fresh entry) (hforeground : entry.detached = false) : Releases entry [] := by
  constructor
  · rw [h.isDetached, hforeground]
    rfl
  · intro _ hdetached
    rw [h.isDetached, hforeground] at hdetached
    cases hdetached
  · intro _ hterminal
    exact absurd hterminal (Bool.eq_false_iff.mp h.running)

theorem foregroundRelease_cancelWork (entry : ManagedTask) :
    entry.cancelWork.1.foregroundRelease = entry.foregroundRelease := by
  unfold cancelWork
  split
  · exact foregroundRelease_changeHandle _ _ _
  · rfl

theorem isDetached_installForegroundSignal (entry : ManagedTask) (signal : Option Bool) :
    (entry.installForegroundSignal signal).1.isDetached = entry.isDetached := by
  have hstop : ∀ options, (entry.terminateWithGrace options).1.foregroundRelease = entry.foregroundRelease := by
    intro options
    unfold terminateWithGrace
    split
    · rfl
    · exact foregroundRelease_cancelWork _
  unfold installForegroundSignal abortFromSignal
  split
  · rfl
  · split
    · rfl
    · rw [isDetached, hstop]
      rfl
  · rfl

theorem Law.installForegroundSignal (h : Law entry records) (signal : Option Bool) :
    Law (entry.installForegroundSignal signal).1 (records ++ (entry.installForegroundSignal signal).2) := by
  unfold ManagedTask.installForegroundSignal
  split
  · exact h.same
  · exact h.abortFromSignal
  · have hheard : Law { entry with foregroundSignal := true } records :=
      ⟨{ h.settles with }, ⟨h.releases.started, h.releases.released, h.releases.terminal⟩⟩
    exact hheard.same

theorem Fresh.begin (h : Fresh entry) (signal : Option Bool) : Law (entry.begin signal).1 (entry.begin signal).2 := by
  unfold ManagedTask.begin
  dsimp only
  rw [isDetached_installForegroundSignal, h.isDetached]
  cases hdetached : entry.detached with
  | true =>
    refine ⟨h.settles.recordStarted entry.toInfo, ?_⟩
    have hisDetached : entry.isDetached = true := h.isDetached.trans hdetached
    constructor
    · exact (if_pos hisDetached).symm
    · intro hforeground
      exact absurd hforeground (Bool.eq_false_iff.mp · hdetached)
    · intro hforeground
      exact absurd hforeground (Bool.eq_false_iff.mp · hdetached)
  | false =>
    have hlaw : Law entry [] := ⟨h.settles, h.releases hdetached⟩
    have hinstalled := hlaw.installForegroundSignal signal
    exact hinstalled.same

theorem frame_begin (entry : ManagedTask) (signal : Option Bool) : Frame entry (entry.begin signal) := by
  have hinstalled : ∀ signal, Frame entry (entry.installForegroundSignal signal) := by
    intro signal
    unfold installForegroundSignal
    split
    · exact .silent rfl rfl
    · exact frame_abortFromSignal _
    · exact .silent rfl rfl
  have hframe := hinstalled (if entry.detached then none else signal)
  unfold begin
  revert hframe
  generalize entry.installForegroundSignal (if entry.detached then none else signal) = effect
  intro hframe
  refine ⟨hframe.taskId, hframe.status, ?_⟩
  intro r hr
  rcases mem_append.mp hr with hold | hnew
  · exact hframe.written r hold
  · split at hnew
    · rw [mem_singleton.mp hnew]
      exact hframe.taskId
    · cases hnew

end ManagedTask

namespace AgentTaskService

/-- Every entry and its records obey the law, and every record is of an entry. -/
structure Inv (s : AgentTaskService) : Prop where
  entries : ∀ taskId entry, s.tasks.get taskId = some entry →
    entry.taskId = taskId ∧ entry.Law (s.recordsOf taskId)
  known : ∀ r ∈ s.records, r.info.taskId ∈ s.tasks.keys

theorem inv_init (maxRunningTasks : Option Nat) : Inv { maxRunningTasks := maxRunningTasks } := by
  constructor
  · intro taskId entry hentry
    cases hentry
  · exact forall_mem_nil _

theorem recordsOf_put {s : AgentTaskService} (hwritten : ∀ r ∈ effect.2, r.info.taskId = taskId) (taskId' : String) :
    (s.put effect).recordsOf taskId' = s.recordsOf taskId' ++ if taskId' = taskId then effect.2 else [] := by
  unfold recordsOf put
  rw [filter_append]
  congr 1
  split
  · rename_i hsame
    apply filter_eq_self.mpr
    intro r hr
    exact decide_eq_true ((hwritten r hr).trans hsame.symm)
  · rename_i hother
    apply filter_eq_nil_iff.mpr
    intro r hr hkept
    exact hother ((of_decide_eq_true hkept).symm.trans (hwritten r hr))

theorem Inv.put (h : Inv s) (htaskId : effect.1.taskId = taskId) (hwritten : ∀ r ∈ effect.2, r.info.taskId = taskId)
    (hlaw : effect.1.Law (s.recordsOf taskId ++ effect.2)) : Inv (s.put effect) := by
  have htasks : (s.put effect).tasks = s.tasks.set taskId effect.1 := by
    rw [AgentTaskService.put, htaskId]
  constructor
  · intro taskId' entry hentry
    rw [htasks, JsMap.get_set] at hentry
    rw [recordsOf_put hwritten]
    split_ifs at hentry with hsame
    · subst hsame
      cases hentry
      rw [if_pos rfl]
      exact ⟨htaskId, hlaw⟩
    · rw [if_neg hsame, append_nil]
      exact h.entries taskId' entry hentry
  · intro r hr
    rw [htasks, JsMap.mem_keys_set]
    rcases mem_append.mp hr with hold | hnew
    · exact .inr (h.known r hold)
    · exact .inl (hwritten r hnew)

theorem Inv.recordsOf_new (h : Inv s) (hnew : taskId ∉ s.tasks.keys) : s.recordsOf taskId = [] := by
  apply filter_eq_nil_iff.mpr
  intro r hr hkept
  apply hnew
  rw [← of_decide_eq_true hkept]
  exact h.known r hr

theorem Inv.begin (h : Inv s) (hfresh : entry.Fresh)
    (hnew : entry.taskId ∉ s.tasks.keys) (signal : Option Bool) : Inv (s.put (entry.begin signal)) := by
  have hframe := entry.frame_begin signal
  apply h.put hframe.taskId hframe.written
  rw [h.recordsOf_new hnew]
  exact hfresh.begin signal

/-- What `ManagedTask.Meets` asks of an event of a task. -/
def Meets (s : AgentTaskService) : Event → Prop
  | .task taskId event => ∀ entry ∈ s.tasks.get taskId, entry.Meets event
  | _ => True

instance Meets.decidable (s : AgentTaskService) (event : Event) : Decidable (s.Meets event) := by
  unfold Meets
  cases event <;> infer_instance

theorem Inv.step (h : Inv s) (hmeets : s.Meets event) (hstep : s.step event = some s') : Inv s' := by
  cases event with
  | registerTask taskId task options =>
    obtain ⟨hnew, hstep⟩ := ite_none_left_eq_some.mp hstep
    cases hstep
    rw [not_or, JsMap.has_iff] at hnew
    exact h.begin (ManagedTask.fresh_registered taskId task options) hnew.1 options.signal
  | track taskId handle options =>
    obtain ⟨hnew, hstep⟩ := ite_none_left_eq_some.mp hstep
    cases hstep
    rw [not_or, JsMap.has_iff] at hnew
    exact h.begin (ManagedTask.fresh_tracked taskId handle options) hnew.1 options.signal
  | task taskId event =>
    obtain ⟨entry, hentry, hstep⟩ := bind_eq_some_iff.mp hstep
    obtain ⟨effect, heffect, rfl⟩ := map_eq_some_iff.mp hstep
    obtain ⟨rfl, hlaw⟩ := h.entries taskId entry hentry
    have hframe := ManagedTask.frame_step heffect
    exact h.put hframe.taskId hframe.written (hlaw.step (hmeets entry hentry) heffect)

theorem Inv.run {s s' : AgentTaskService} (h : Inv s) {events : List Event}
    (hmeets : AlongRun AgentTaskService.step Meets s events) (hrun : s.run events = some s') : Inv s' :=
  hmeets.invariant (fun _ _ _ h hmeets hstep => h.step hmeets hstep) h hrun

/-- Entries are found under their own ids. -/
def Keyed (s : AgentTaskService) : Prop := ∀ taskId entry, s.tasks.get taskId = some entry → entry.taskId = taskId

theorem Keyed.put (h : Keyed s) (effect : Effect) : Keyed (s.put effect) := by
  intro taskId entry hentry
  rw [AgentTaskService.put, JsMap.get_set] at hentry
  split_ifs at hentry with hsame
  · cases hentry
    exact hsame.symm
  · exact h taskId entry hentry

theorem Keyed.step (h : Keyed s) (hstep : s.step event = some s') : Keyed s' := by
  cases event with
  | registerTask taskId task options =>
    obtain ⟨_, hstep⟩ := ite_none_left_eq_some.mp hstep
    cases hstep
    exact h.put _
  | track taskId handle options =>
    obtain ⟨_, hstep⟩ := ite_none_left_eq_some.mp hstep
    cases hstep
    exact h.put _
  | task taskId event =>
    obtain ⟨entry, _, hstep⟩ := bind_eq_some_iff.mp hstep
    obtain ⟨effect, _, rfl⟩ := map_eq_some_iff.mp hstep
    exact h.put _

theorem Keyed.status_step (h : Keyed s) (hstep : s.step event = some s')
    (hentry : s.tasks.get taskId = some entry) (hterminal : entry.isTerminal = true) :
    ∃ entry', s'.tasks.get taskId = some entry' ∧ entry'.status = entry.status := by
  have hnew : ∀ other signal, other.taskId ∉ s.tasks.keys →
      (s.put (ManagedTask.begin other signal)).tasks.get taskId = some entry := by
    intro other signal hother
    rw [AgentTaskService.put, (other.frame_begin signal).taskId, JsMap.get_set_of_ne, hentry]
    rintro rfl
    exact hother ((JsMap.mem_keys_iff _ _).mpr ⟨entry, hentry⟩)
  cases event with
  | registerTask id task options =>
    obtain ⟨hfresh, hstep⟩ := ite_none_left_eq_some.mp hstep
    cases hstep
    rw [not_or, JsMap.has_iff] at hfresh
    exact ⟨entry, hnew (.registered id task options) options.signal hfresh.1, rfl⟩
  | track id handle options =>
    obtain ⟨hfresh, hstep⟩ := ite_none_left_eq_some.mp hstep
    cases hstep
    rw [not_or, JsMap.has_iff] at hfresh
    exact ⟨entry, hnew (.tracked id handle options) options.signal hfresh.1, rfl⟩
  | task id event =>
    obtain ⟨other, hother, hstep⟩ := bind_eq_some_iff.mp hstep
    obtain ⟨effect, heffect, rfl⟩ := map_eq_some_iff.mp hstep
    have hframe := ManagedTask.frame_step heffect
    have hid := h id other hother
    rw [AgentTaskService.put, hframe.taskId, hid, JsMap.get_set]
    split_ifs with hsame
    · subst hsame
      obtain rfl := mem_unique hother hentry
      exact ⟨effect.1, rfl, hframe.status hterminal⟩
    · exact ⟨entry, hentry, rfl⟩

theorem Keyed.status_run (h : Keyed s) (hrun : s.run events = some s')
    (hentry : s.tasks.get taskId = some entry) (hterminal : entry.isTerminal = true) :
    ∃ entry', s'.tasks.get taskId = some entry' ∧ entry'.status = entry.status := by
  induction events generalizing s entry with
  | nil =>
    cases hrun
    exact ⟨entry, hentry, rfl⟩
  | cons event events ih =>
    obtain ⟨s₁, hstep, hrun⟩ := bind_eq_some_iff.mp hrun
    obtain ⟨entry₁, hentry₁, hstatus⟩ := h.status_step hstep hentry hterminal
    have hterminal₁ : entry₁.isTerminal = true := by
      rw [ManagedTask.isTerminal, hstatus]
      exact hterminal
    obtain ⟨entry', hentry', hstatus'⟩ := ih (h.step hstep) hrun hentry₁ hterminal₁
    exact ⟨entry', hentry', hstatus'.trans hstatus⟩

/-- What is asked of a task with its records: one that has ended and was recorded as started is recorded
as terminated once, with its status, and no other is; when it has ended, everyone who waited for it is
resolved, and the foreground is released; and a stop whose grace period was over before the work was has
called the force-stop function before it is done. -/
structure TaskLaw (entry : ManagedTask) (records : List TaskRecord) : Prop where
  started : (starts records).length ≤ 1
  terminated : (terminations records).map AgentTaskInfo.status =
    if entry.isTerminal = true ∧ entry.settling = false ∧ starts records ≠ [] then [entry.status] else []
  waiters : entry.isTerminal = true → entry.settling = false →
    entry.waiters = [] ∧ ∀ w ∈ entry.joined, w ∈ entry.resolvedWaiters ∨ w ∈ entry.withdrawn
  released : entry.isTerminal = true → entry.settling = false → entry.detached = false →
    entry.released.isSome = true
  forced : ∀ stop ∈ entry.stops, stop.phase = .resolved → stop.late = true → entry.hasForceStop = true →
    0 < entry.forceStops

theorem taskLaw_of_law {records : List TaskRecord} (h : entry.Law records) : TaskLaw entry records := by
  constructor
  · rw [h.releases.started]
    split <;> decide
  · rw [h.settles.terminated, h.settles.fired]
    have hstarts : starts records ≠ [] ↔ entry.isDetached = true := by
      rw [← length_pos_iff, h.releases.started]
      cases entry.isDetached <;> decide
    simp only [hstarts, Bool.and_eq_true, Bool.not_eq_true', and_assoc]
  · intro hterminal hsettling
    have hfree := h.settles.free hterminal hsettling
    refine ⟨hfree, ?_⟩
    intro w hw
    rcases h.settles.joined w hw with hwaits | hdone
    · rw [hfree] at hwaits
      cases hwaits
    · exact hdone
  · intro hterminal hsettling hforeground
    exact h.releases.terminal hforeground hterminal hsettling
  · intro stop hstop _ hlate
    exact h.settles.late stop hstop hlate

/-- What is asked of the registry: the law of each task, no record of another, and that no terminal task
changes its status in what follows. -/
structure Lawful (s : AgentTaskService) : Prop where
  tasks : ∀ taskId entry, s.tasks.get taskId = some entry → TaskLaw entry (s.recordsOf taskId)
  known : ∀ r ∈ s.records, r.info.taskId ∈ s.tasks.keys
  final : ∀ events s', s.run events = some s' → ∀ taskId entry, s.tasks.get taskId = some entry →
    entry.isTerminal = true → ∃ entry', s'.tasks.get taskId = some entry' ∧ entry'.status = entry.status

/-- The service keeps its law, as long as no grace period ends while the handle of a function that runs
on has settled its task already. -/
theorem lawful_of_run (maxRunningTasks : Option Nat) {events : List Event} {s : AgentTaskService}
    (hmeets : AlongRun step Meets { maxRunningTasks := maxRunningTasks } events)
    (hrun : run { maxRunningTasks := maxRunningTasks } events = some s) : Lawful s := by
  have hinv := (inv_init maxRunningTasks).run hmeets hrun
  constructor
  · intro taskId entry hentry
    exact taskLaw_of_law (hinv.entries taskId entry hentry).2
  · exact hinv.known
  · intro more s' hmore taskId entry hentry hterminal
    have hkeyed : Keyed s := fun taskId entry hentry => (hinv.entries taskId entry hentry).1
    exact hkeyed.status_run hmore hentry hterminal

def stoppedRun : List Event :=
  [.registerTask "bash-1" { hasForceStop := true } {}, .task "bash-1" (.wait 0), .task "bash-1" (.stop none),
    .task "bash-1" (.graceExpired 0), .task "bash-1" (.resume 0), .task "bash-1" .persisted,
    .task "bash-1" (.resume 0)]

theorem lawful_of_stoppedRun :
    ∃ s, run { maxRunningTasks := none } stoppedRun = some s ∧ s.records.length = 2 ∧ Lawful s := by
  have hsome : (run { maxRunningTasks := none } stoppedRun).isSome = true := by decide +kernel
  obtain ⟨s, hs⟩ := isSome_iff_exists.mp hsome
  refine ⟨s, hs, ?_, lawful_of_run none (by decide +kernel) hs⟩
  have hrecords : (run { maxRunningTasks := none } stoppedRun).map (fun s => s.records.length) = some 2 := by
    decide +kernel
  rw [hs] at hrecords
  exact some.inj hrecords

/-- A tracked function that ignores its signal is stopped: its handle says at once that it is cancelled,
and the end of the grace period finds the task killed. -/
def cancelledRun : List Event :=
  [.track "task-1" (.run .running false false) { hasForceStop := true }, .task "task-1" (.stop none),
    .task "task-1" .persisted, .task "task-1" (.graceExpired 0)]

/-- The stop of a function that runs on is done without a call of its force-stop function. -/
theorem not_forced_of_cancelledRun :
    ∃ s, run { maxRunningTasks := none } cancelledRun = some s ∧ ¬ Lawful s := by
  have hrun : (run { maxRunningTasks := none } cancelledRun).bind (fun s =>
      (s.tasks.get "task-1").map fun entry => (entry.stops, entry.hasForceStop, entry.forceStops)) =
      some ([⟨⟨none, .killed⟩, .resolved, true⟩], true, 0) := by decide +kernel
  obtain ⟨s, hs, hentry⟩ := bind_eq_some_iff.mp hrun
  obtain ⟨entry, hentry, hfields⟩ := map_eq_some_iff.mp hentry
  refine ⟨s, hs, ?_⟩
  intro hlawful
  obtain ⟨hstops, hforce⟩ := Prod.mk.inj hfields
  obtain ⟨hforce, hcount⟩ := Prod.mk.inj hforce
  have hforced := (hlawful.tasks "task-1" entry hentry).forced
  rw [hstops, hcount] at hforced
  exact absurd (hforced _ (mem_singleton.mpr rfl) rfl rfl hforce) (lt_irrefl 0)

end AgentTaskService

end Echadron.Task
