import Echadron.Session.AgentRunBatch
import Echadron.Lib.Runs
import Mathlib.Data.List.Count
import Mathlib.Data.List.ReduceOption

namespace Echadron.Session
open Lib List Option

namespace AgentRunBatch

def places (batch : AgentRunBatch) (task : Nat) : Nat :=
  batch.pending.count task + (batch.active.map ActiveAttempt.task).count task +
    (batch.results.getD task none).isSome.toNat

/-- Something is still to come that calls the batch back. -/
def Waiting (batch : AgentRunBatch) : Prop :=
  batch.active ≠ [] ∨ batch.normalLaunchTimer = true ∨ batch.rateLimitLaunchTimer.isSome

variable {s s' s'' : AgentRunBatch}

/-- What launching and arming timers leaves as it was. -/
structure Rescheduled (s s' : AgentRunBatch) : Prop where
  states : s'.states = s.states
  results : s'.results = s.results
  settlements : s'.settlements = s.settlements
  finished : s'.finished = s.finished
  started : s'.started = s.started
  aborted : s'.aborted = s.aborted
  maxConcurrency : s'.maxConcurrency = s.maxConcurrency
  rateLimitMode : s'.rateLimitMode = s.rateLimitMode
  lastRateLimitAt : s'.lastRateLimitAt = s.lastRateLimitAt
  capacity : s.rateLimitCapacity ≤ s'.rateLimitCapacity
  places : ∀ task, s'.places task = s.places task
  timer : s.rateLimitMode = true → s'.normalLaunchTimer = s.normalLaunchTimer

theorem Rescheduled.refl (s : AgentRunBatch) : Rescheduled s s :=
  ⟨rfl, rfl, rfl, rfl, rfl, rfl, rfl, rfl, rfl, le_refl _, fun _ => rfl, fun _ => rfl⟩

theorem Rescheduled.trans (h : Rescheduled s s') (h' : Rescheduled s' s'') : Rescheduled s s'' where
  states := h'.states.trans h.states
  results := h'.results.trans h.results
  settlements := h'.settlements.trans h.settlements
  finished := h'.finished.trans h.finished
  started := h'.started.trans h.started
  aborted := h'.aborted.trans h.aborted
  maxConcurrency := h'.maxConcurrency.trans h.maxConcurrency
  rateLimitMode := h'.rateLimitMode.trans h.rateLimitMode
  lastRateLimitAt := h'.lastRateLimitAt.trans h.lastRateLimitAt
  capacity := le_trans h.capacity h'.capacity
  places task := (h'.places task).trans (h.places task)
  timer hmode := (h'.timer (h.rateLimitMode.trans hmode)).trans (h.timer hmode)

theorem launchNormal_eq (hf : s.finished = false) (ha : s.aborted = false) {pending : List Nat}
    (hp : s.pending = task :: pending) :
    s.launchNormal =
      { s with
        pending := pending
        active := s.active ++ [{ number := s.attempts, task := task }]
        attempts := s.attempts + 1
        normalLaunchCount := s.normalLaunchCount + 1 } := by
  simp [launchNormal, hp, startAttempt, hf, ha]

theorem rescheduled_launchNormal (hf : s.finished = false) (ha : s.aborted = false) :
    Rescheduled s s.launchNormal := by
  cases hp : s.pending with
  | nil =>
    simp only [launchNormal, hp]
    exact .refl s
  | cons task pending =>
    rw [launchNormal_eq hf ha hp]
    suffices hplaces : _ from { Rescheduled.refl s with places := hplaces }
    simp only [places, hp, map_append, count_append, map_cons, map_nil, count_cons, count_nil]
    omega

theorem rescheduled_launchBurst (left : Nat) (hf : s.finished = false) (ha : s.aborted = false) :
    Rescheduled s (launchBurst left s) := by
  induction left generalizing s with
  | zero => exact .refl s
  | succ left ih =>
    rw [launchBurst]
    split
    · have hfirst := rescheduled_launchNormal hf ha
      exact hfirst.trans (ih (hfirst.finished.trans hf) (hfirst.aborted.trans ha))
    · exact .refl s

theorem rescheduled_scheduleNormalLaunch (hf : s.finished = false) (ha : s.aborted = false)
    (hmode : s.rateLimitMode = false) : Rescheduled s s.scheduleNormalLaunch := by
  have hburst := rescheduled_launchBurst (INITIAL_LAUNCH_LIMIT - s.normalLaunchCount) hf ha
  unfold scheduleNormalLaunch
  dsimp only
  split
  · exact hburst
  · have hmode' := hburst.rateLimitMode.trans hmode
    exact hburst.trans { Rescheduled.refl _ with timer := fun h => absurd h (by simp [hmode']) }

theorem rescheduled_recoverRateLimitCapacity (now : Nat) : Rescheduled s (s.recoverRateLimitCapacity now) := by
  unfold recoverRateLimitCapacity
  split
  · split
    · exact { Rescheduled.refl s with capacity := Nat.le_succ _ }
    · exact .refl s
  · exact .refl s

theorem rescheduled_scheduleRateLimitWakeup (wakeupAt : Option Nat) (now : Nat) :
    Rescheduled s (s.scheduleRateLimitWakeup wakeupAt now) := by
  unfold scheduleRateLimitWakeup
  split
  · split
    · exact .refl s
    · exact { Rescheduled.refl s with }
  · exact .refl s

theorem rescheduled_scheduleNextRateLimitWakeup (now : Nat) : Rescheduled s (s.scheduleNextRateLimitWakeup now) := by
  unfold scheduleNextRateLimitWakeup
  split
  · exact .refl s
  · exact rescheduled_scheduleRateLimitWakeup _ now

section

variable (hf : s.finished = false) (ha : s.aborted = false)
include hf ha

theorem launchRateLimited_eq (hfind : (s.pending.find? fun task => (s.stateOf task).retryReadyAt ≤ now) = some task) :
    s.launchRateLimited now =
      { s with
        pending := s.pending.erase task
        active := s.active ++ [({ number := s.attempts, task := task } : ActiveAttempt)]
        attempts := s.attempts + 1
        nextRateLimitLaunchAt := now + s.globalRetryIntervalMs }.scheduleNextRateLimitWakeup now := by
  simp [launchRateLimited, hfind, startAttempt, hf, ha]

theorem rescheduled_launchRateLimited (now : Nat) : Rescheduled s (s.launchRateLimited now) := by
  cases hfind : s.pending.find? fun task => (s.stateOf task).retryReadyAt ≤ now with
  | none =>
    simp only [launchRateLimited, hfind]
    exact .refl s
  | some task =>
    rw [launchRateLimited_eq hf ha hfind]
    apply Rescheduled.trans _ (rescheduled_scheduleNextRateLimitWakeup now)
    suffices hplaces : _ from { Rescheduled.refl s with places := hplaces }
    intro other
    have hmem := count_pos_iff.mpr (mem_of_find?_eq_some hfind)
    simp only [places, map_append, count_append, map_cons, map_nil, count_cons, count_nil, count_erase]
    by_cases h : task = other
    · subst h
      simp only [beq_self_eq_true, if_true]
      omega
    · simp [h]

theorem rescheduled_scheduleRateLimitLaunch (now : Nat) : Rescheduled s (s.scheduleRateLimitLaunch now) := by
  have hcleared : Rescheduled s { s with rateLimitLaunchTimer := none } := { Rescheduled.refl s with }
  have hrecovered := hcleared.trans (rescheduled_recoverRateLimitCapacity now)
  unfold scheduleRateLimitLaunch
  dsimp only
  split
  · exact hcleared
  · split
    · exact hrecovered.trans (rescheduled_scheduleRateLimitWakeup _ now)
    · split
      · exact hrecovered.trans (rescheduled_scheduleRateLimitWakeup _ now)
      · exact hrecovered.trans
          (rescheduled_launchRateLimited (hrecovered.finished.trans hf) (hrecovered.aborted.trans ha) now)

end

/-! Where a call of `schedule` leaves something to wait for. -/

theorem waiting_launchRateLimited (hf : s.finished = false) (ha : s.aborted = false)
    (hfind : (s.pending.find? fun task => (s.stateOf task).retryReadyAt ≤ now) = some task) :
    Waiting (s.launchRateLimited now) := by
  rw [launchRateLimited_eq hf ha hfind]
  apply Or.inl
  simp only [scheduleNextRateLimitWakeup, scheduleRateLimitWakeup]
  repeat' split
  all_goals simp

theorem waiting_scheduleRateLimitWakeup (h : now < at') : Waiting (s.scheduleRateLimitWakeup (some at') now) := by
  simp [scheduleRateLimitWakeup, not_le.mpr h, Waiting]

theorem nextRateLimitCapacityRecoveryAt_recover (hp : s.pending ≠ []) (hl : s.lastRateLimitAt.isSome) (now : Nat) :
    ∃ at', (s.recoverRateLimitCapacity now).nextRateLimitCapacityRecoveryAt = some at' ∧ now < at' := by
  obtain ⟨limited, hl⟩ := isSome_iff_exists.mp hl
  have hnext : s.nextRateLimitCapacityRecoveryAt =
      some (max limited (s.lastCapacityRecoveryAt.getD 0) + RATE_LIMIT_CAPACITY_RECOVERY_INTERVAL_MS) := by
    simp [nextRateLimitCapacityRecoveryAt, hp, hl]
  simp only [recoverRateLimitCapacity, hnext]
  split
  · refine ⟨max limited now + RATE_LIMIT_CAPACITY_RECOVERY_INTERVAL_MS, ?_, ?_⟩
    · simp [nextRateLimitCapacityRecoveryAt, hp, hl]
    · have : 0 < RATE_LIMIT_CAPACITY_RECOVERY_INTERVAL_MS := by decide
      omega
  · rename_i h
    exact ⟨_, hnext, not_le.mp h⟩

theorem find_ready (h : s.nextPendingReadyAt = some ready) (hnow : ready ≤ now) :
    ∃ task, (s.pending.find? fun task => (s.stateOf task).retryReadyAt ≤ now) = some task := by
  obtain ⟨task, htask, hready⟩ := mem_map.mp (min?_mem h)
  apply isSome_iff_exists.mp
  apply find?_isSome.mpr
  exact ⟨task, htask, by simpa [hready] using hnow⟩

theorem nextPendingReadyAt_isSome (hp : s.pending ≠ []) : ∃ ready, s.nextPendingReadyAt = some ready := by
  cases h : s.nextPendingReadyAt with
  | some ready => exact ⟨ready, rfl⟩
  | none =>
    rw [nextPendingReadyAt, min?_eq_none_iff, map_eq_nil_iff] at h
    exact absurd h hp

theorem waiting_scheduleRateLimitLaunch (hf : s.finished = false) (ha : s.aborted = false)
    (hp : s.pending ≠ []) (hl : s.lastRateLimitAt.isSome) (now : Nat) :
    Waiting (s.scheduleRateLimitLaunch now) := by
  unfold scheduleRateLimitLaunch
  dsimp only
  rw [if_neg hp]
  generalize hc : ({ s with rateLimitLaunchTimer := none } : AgentRunBatch) = cleared
  have hkeep := rescheduled_recoverRateLimitCapacity (s := cleared) now
  have hpending : (cleared.recoverRateLimitCapacity now).pending ≠ [] := by
    subst hc
    unfold recoverRateLimitCapacity
    repeat' split
    all_goals exact hp
  obtain ⟨at', hnext, hlate⟩ : ∃ at', (cleared.recoverRateLimitCapacity now).nextRateLimitCapacityRecoveryAt = some at' ∧
      now < at' := by
    subst hc
    exact nextRateLimitCapacityRecoveryAt_recover (s := { s with rateLimitLaunchTimer := none }) hp hl now
  have hfinished : (cleared.recoverRateLimitCapacity now).finished = false := by
    rw [hkeep.finished, ← hc, hf]
  have haborted : (cleared.recoverRateLimitCapacity now).aborted = false := by
    rw [hkeep.aborted, ← hc, ha]
  generalize cleared.recoverRateLimitCapacity now = recovered at *
  obtain ⟨ready, hready⟩ := nextPendingReadyAt_isSome hpending
  split
  · rw [hnext]
    exact waiting_scheduleRateLimitWakeup hlate
  · have hallowed : recovered.nextAllowedAt = some (max recovered.nextRateLimitLaunchAt ready) := by
      simp [nextAllowedAt, hready]
    rw [hnext, hallowed]
    simp only [earlier, all_some, decide_eq_true_eq]
    split
    · rename_i h
      exact waiting_scheduleRateLimitWakeup h
    · have hdue : ready ≤ now := by omega
      obtain ⟨task, hfind⟩ := find_ready hready hdue
      exact waiting_launchRateLimited hfinished haborted hfind

theorem queued_of_places (hplace : 0 < s.places task) (hnone : s.results.getD task none = none) :
    s.pending ≠ [] ∨ s.active ≠ [] := by
  by_contra h
  push Not at h
  simp only [places, h.1, h.2, hnone] at hplace
  simp at hplace

theorem active_of_isAtConcurrencyLimit (hlimit : ∀ limit ∈ s.maxConcurrency, 0 < limit)
    (h : s.isAtConcurrencyLimit = true) : s.active ≠ [] := by
  obtain ⟨limit, hmax, hle⟩ := (Option.any_eq_true ..).mp h
  have hpos := hlimit limit hmax
  have hle := of_decide_eq_true hle
  intro hactive
  rw [hactive, length_nil] at hle
  omega

theorem waiting_scheduleNormalLaunch (hf : s.finished = false) (ha : s.aborted = false)
    (hmode : s.rateLimitMode = false) (hlimit : ∀ limit ∈ s.maxConcurrency, 0 < limit)
    (hplace : 0 < s.places task) (hnone : s.results.getD task none = none) :
    Waiting s.scheduleNormalLaunch := by
  have hburst := rescheduled_launchBurst (INITIAL_LAUNCH_LIMIT - s.normalLaunchCount) hf ha
  unfold scheduleNormalLaunch
  generalize launchBurst (INITIAL_LAUNCH_LIMIT - s.normalLaunchCount) s = burst at hburst ⊢
  have hqueued : burst.pending ≠ [] ∨ burst.active ≠ [] := by
    rw [← hburst.places] at hplace
    rw [← hburst.results] at hnone
    exact queued_of_places hplace hnone
  dsimp only
  split
  · rename_i hstop
    rcases hstop with hpending | hmode' | htimer | hfull
    · exact .inl (hqueued.resolve_left (not_not_intro hpending))
    · rw [hburst.rateLimitMode, hmode] at hmode'
      cases hmode'
    · exact .inr (.inl htimer)
    · exact .inl (active_of_isAtConcurrencyLimit (hburst.maxConcurrency ▸ hlimit) hfull)
  · exact .inr (.inl rfl)

end AgentRunBatch

def BatchEvent.abortsOtherwise : BatchEvent → Bool
  | .run (some false) _ => true
  | .aborted false => true
  | _ => false

namespace AgentRunBatch

/-- What holds of a batch of so many tasks that runs, between its callbacks. -/
structure Tracked (tasks : Nat) (abortable : Prop) (s : AgentRunBatch) : Prop where
  started : s.started = true
  states : s.states.length = tasks
  results : s.results.length = tasks
  labelled : ∀ task result, s.results.getD task none = some result → result.task = task
  settled : s.settlements.length = s.finished.toNat
  ordered : ∀ results, .resolved results ∈ s.settlements → results.map AgentRunResult.task = List.range tasks
  rejected : .rejected ∈ s.settlements → abortable
  places : s.finished = false → ∀ task, s.places task = if task < tasks then 1 else 0
  aborted : s.aborted = true → s.finished = true
  limited : s.rateLimitMode = true → s.lastRateLimitAt.isSome ∧ s.normalLaunchTimer = false
  positive : ∀ limit ∈ s.maxConcurrency, 0 < limit

variable {tasks : Nat} {abortable : Prop} {maxConcurrency : Option Nat} {s s' : AgentRunBatch}

theorem Tracked.rescheduled (h : Tracked tasks abortable s) (hs : Rescheduled s s') : Tracked tasks abortable s' where
  started := hs.started.trans h.started
  states := by rw [hs.states]; exact h.states
  results := by rw [hs.results]; exact h.results
  labelled := by rw [hs.results]; exact h.labelled
  settled := by rw [hs.settlements, hs.finished]; exact h.settled
  ordered := by rw [hs.settlements]; exact h.ordered
  rejected := by rw [hs.settlements]; exact h.rejected
  places hf task := by
    rw [hs.places]
    exact h.places (hs.finished ▸ hf) task
  aborted := by rw [hs.aborted, hs.finished]; exact h.aborted
  limited hmode := by
    rw [hs.rateLimitMode] at hmode
    rw [hs.lastRateLimitAt, hs.timer hmode]
    exact h.limited hmode
  positive := by rw [hs.maxConcurrency]; exact h.positive

theorem places_create (tasks : Nat) (maxConcurrency : Option Nat) (task : Nat) :
    (create tasks maxConcurrency).places task = if task < tasks then 1 else 0 := by
  simp [places, create, getElem?_replicate]
  split <;> rfl

theorem Tracked.create (hlimit : ∀ limit ∈ maxConcurrency, 0 < limit) :
    Tracked tasks abortable { create tasks maxConcurrency with started := true } where
  started := rfl
  states := by simp [AgentRunBatch.create]
  results := by simp [AgentRunBatch.create]
  labelled task result h := by
    simp [AgentRunBatch.create, getElem?_replicate] at h
    split at h <;> cases h
  settled := rfl
  ordered _ h := by cases h
  rejected h := by cases h
  places _ := places_create tasks maxConcurrency
  aborted h := by cases h
  limited h := by cases h
  positive := hlimit

theorem Tracked.settle (h : Tracked tasks abortable s) (hf : s.finished = false)
    (hordered : ∀ results, settlement = .resolved results → results.map AgentRunResult.task = range tasks)
    (hrejected : settlement = .rejected → abortable) : Tracked tasks abortable (s.settle settlement) := by
  have hnone : s.settlements = [] := by
    apply eq_nil_of_length_eq_zero
    rw [h.settled, hf]
    rfl
  simp only [AgentRunBatch.settle, hf, hnone]
  exact {
    started := h.started
    states := h.states
    results := h.results
    labelled := h.labelled
    settled := rfl
    ordered := fun results hmem => hordered results (mem_singleton.mp hmem).symm
    rejected := fun hmem => hrejected (mem_singleton.mp hmem).symm
    places := fun hfin => absurd hfin (by simp)
    aborted := fun _ => rfl
    limited := fun hmode => ⟨(h.limited hmode).1, rfl⟩
    positive := h.positive }

theorem map_some_reduceOption {l : List (Option α)} (h : l.all Option.isSome = true) :
    l.reduceOption.map some = l := by
  induction l with
  | nil => rfl
  | cons x l ih =>
    obtain ⟨hx, hl⟩ := Bool.and_eq_true_iff.mp (all_cons ▸ h)
    cases x with
    | none => cases hx
    | some x => rw [reduceOption_cons_of_some, map_cons, ih hl]

theorem map_task_eq_range {results : List AgentRunResult} (hlength : results.length = tasks)
    (hlabelled : ∀ (task : Nat) (result : AgentRunResult), results[task]? = some result → result.task = task) :
    results.map AgentRunResult.task = range tasks := by
  apply ext_getElem
  · simp [hlength]
  · intro task hmap hrange
    have htask : task < results.length := by simpa using hmap
    rw [getElem_map, getElem_range]
    exact hlabelled task _ (getElem?_eq_getElem htask)

theorem Tracked.map_task_reduceOption (h : Tracked tasks abortable s) (hcomplete : s.isComplete = true) :
    s.results.reduceOption.map AgentRunResult.task = range tasks := by
  have hsome := map_some_reduceOption hcomplete
  apply map_task_eq_range
  · rw [← h.results, ← congrArg length hsome, length_map]
  · intro task result hresult
    apply h.labelled task result
    rw [← hsome, getD_eq_getElem?_getD, getElem?_map, hresult]
    rfl

theorem task_cancelled (task : Nat) : (s.cancelled task).task = task := by
  unfold cancelled
  dsimp only
  split <;> rfl

theorem Tracked.map_task_cancellation (h : Tracked tasks abortable s) :
    (s.results.zipIdx.map fun entry => entry.1.getD (s.cancelled entry.2)).map AgentRunResult.task =
      range tasks := by
  apply map_task_eq_range
  · rw [length_map, length_zipIdx, h.results]
  · intro task result hresult
    rw [getElem?_map, getElem?_zipIdx, Option.map_map] at hresult
    obtain ⟨entry, hentry, rfl⟩ := map_eq_some_iff.mp hresult
    cases entry with
    | none => simp [task_cancelled]
    | some result =>
      apply h.labelled task result
      rw [getD_eq_getElem?_getD, hentry]
      rfl

theorem finished_settle (settlement : Settlement) : (s.settle settlement).finished = true := by
  unfold settle
  split
  · assumption
  · rfl

theorem settle_aborted (hf : s.finished = false) (settlement : Settlement) :
    ({ s with aborted := true } : AgentRunBatch).settle settlement =
      { s.settle settlement with aborted := true } := by
  simp [settle, hf]

theorem Tracked.abort (h : Tracked tasks abortable s) (hf : s.finished = false)
    (habort : byUser = false → abortable) : Tracked tasks abortable (s.abort byUser) := by
  cases byUser with
  | true =>
    have hsettled : Tracked tasks abortable (s.settle (.resolved
        (s.results.zipIdx.map fun entry => entry.1.getD (s.cancelled entry.2)))) := by
      apply h.settle hf
      · intro results heq
        cases heq
        exact h.map_task_cancellation
      · intro heq
        cases heq
    have habort : s.abort true = { s.settle (.resolved
        (s.results.zipIdx.map fun entry => entry.1.getD (s.cancelled entry.2))) with aborted := true } :=
      settle_aborted hf _
    rw [habort]
    exact { hsettled with aborted := fun _ => finished_settle _ }
  | false =>
    have hsettled : Tracked tasks abortable (s.settle .rejected) := by
      apply h.settle hf
      · intro results heq
        cases heq
      · intro _
        exact habort rfl
    have habort : s.abort false = { s.settle .rejected with aborted := true } := settle_aborted hf _
    rw [habort]
    exact { hsettled with aborted := fun _ => finished_settle _ }

theorem finished_abort (byUser : Bool) : (s.abort byUser).finished = true := by
  cases byUser <;> exact finished_settle _

theorem Tracked.schedule (h : Tracked tasks abortable s) (now : Nat) : Tracked tasks abortable (s.schedule now) := by
  unfold AgentRunBatch.schedule
  split
  · exact h
  · rename_i hf
    have hf := Bool.eq_false_iff.mpr hf
    split
    · rename_i hcomplete
      apply h.settle hf
      · intro results heq
        cases heq
        exact h.map_task_reduceOption hcomplete
      · intro heq
        cases heq
    · split
      · exact h
      · rename_i ha
        have ha := Bool.eq_false_iff.mpr ha
        split
        · exact h.rescheduled (rescheduled_scheduleRateLimitLaunch hf ha now)
        · rename_i hmode
          exact h.rescheduled (rescheduled_scheduleNormalLaunch hf ha (Bool.eq_false_iff.mpr hmode))

theorem Tracked.exists_unfinished (h : Tracked tasks abortable s) (hcomplete : s.isComplete ≠ true) :
    ∃ task, task < tasks ∧ s.results.getD task none = none := by
  obtain ⟨result, hmem, hnone⟩ := all_eq_false.mp (Bool.eq_false_iff.mpr hcomplete)
  obtain ⟨task, hlt, hget⟩ := mem_iff_getElem.mp hmem
  refine ⟨task, h.results ▸ hlt, ?_⟩
  rw [getD_eq_getElem?_getD, getElem?_eq_getElem hlt, hget]
  exact not_isSome_iff_eq_none.mp hnone

/-- There is a task to finish, and a callback to come for it. -/
structure Live (s : AgentRunBatch) : Prop where
  incomplete : s.isComplete = false
  waiting : Waiting s

theorem Tracked.schedule_eq (h : Tracked tasks abortable s) (hf' : (s.schedule now).finished = false) :
    s.finished = false ∧ s.isComplete = false ∧ s.aborted = false ∧
      s.schedule now = if s.rateLimitMode then s.scheduleRateLimitLaunch now else s.scheduleNormalLaunch := by
  unfold AgentRunBatch.schedule at hf' ⊢
  by_cases hf : s.finished = true
  · rw [if_pos hf, hf] at hf'
    cases hf'
  · rw [if_neg hf] at hf' ⊢
    have ha : ¬s.aborted = true := fun ha => hf (h.aborted ha)
    by_cases hcomplete : s.isComplete = true
    · rw [if_pos hcomplete, finish, finished_settle] at hf'
      cases hf'
    · rw [if_neg hcomplete, if_neg ha]
      exact ⟨Bool.eq_false_iff.mpr hf, Bool.eq_false_iff.mpr hcomplete, Bool.eq_false_iff.mpr ha, rfl⟩

theorem Tracked.live_schedule (h : Tracked tasks abortable s) (now : Nat)
    (hf' : (s.schedule now).finished = false) : Live (s.schedule now) := by
  obtain ⟨hf, hcomplete, ha, heq⟩ := h.schedule_eq hf'
  obtain ⟨task, hlt, hnone⟩ := h.exists_unfinished (Bool.eq_false_iff.mp hcomplete)
  have hplace : 0 < s.places task := by
    rw [h.places hf, if_pos hlt]
    exact Nat.one_pos
  rw [heq]
  cases hmode : s.rateLimitMode with
  | true =>
    rw [if_pos rfl]
    refine ⟨?_, ?_⟩
    · rw [isComplete, (rescheduled_scheduleRateLimitLaunch hf ha now).results]
      exact hcomplete
    · by_cases hp : s.pending = []
      · simp only [scheduleRateLimitLaunch, hp]
        exact .inl ((queued_of_places hplace hnone).resolve_left (not_not_intro hp))
      · exact waiting_scheduleRateLimitLaunch hf ha hp (h.limited hmode).1 now
  | false =>
    rw [if_neg Bool.false_ne_true]
    refine ⟨?_, ?_⟩
    · rw [isComplete, (rescheduled_scheduleNormalLaunch hf ha hmode).results]
      exact hcomplete
    · exact waiting_scheduleNormalLaunch hf ha hmode h.positive hplace hnone

/-! An attempt is released and its task settled or put back. -/

theorem shrinkRateLimitCapacity_eq (now : Nat) (force : Bool) :
    ∃ capacity shrunk, s.shrinkRateLimitCapacity now force =
      { s with rateLimitCapacity := capacity, lastCapacityShrinkAt := shrunk } := by
  unfold shrinkRateLimitCapacity
  split
  · exact ⟨_, _, rfl⟩
  · exact ⟨_, _, rfl⟩

theorem enterRateLimitMode_eq (hmode : s.rateLimitMode = true → s.normalLaunchTimer = false) (now : Nat) :
    ∃ capacity shrunk next, s.enterRateLimitMode now =
      { s with
        rateLimitMode := true
        normalLaunchTimer := false
        rateLimitCapacity := capacity
        lastCapacityShrinkAt := shrunk
        nextRateLimitLaunchAt := next } := by
  unfold enterRateLimitMode
  split
  · rename_i hm
    obtain ⟨capacity, shrunk, h⟩ := shrinkRateLimitCapacity_eq (s := s) now false
    refine ⟨capacity, shrunk, s.nextRateLimitLaunchAt, ?_⟩
    rw [h, ← hm, ← hmode hm]
  · obtain ⟨capacity, shrunk, h⟩ := shrinkRateLimitCapacity_eq (s := _) now true
    exact ⟨capacity, shrunk, _, h⟩

theorem delayRateLimitLaunch_eq (ready : Bool) (retryDelay now : Nat) :
    ∃ interval next, s.delayRateLimitLaunch ready retryDelay now =
      { s with globalRetryIntervalMs := interval, nextRateLimitLaunchAt := next } := by
  cases ready with
  | true => exact ⟨_, _, rfl⟩
  | false => exact ⟨_, _, rfl⟩

theorem requeueRateLimited_eq (hmode : s.rateLimitMode = true → s.normalLaunchTimer = false)
    (attempt : ActiveAttempt) (agentId : String) (now : Nat) :
    ∃ state capacity shrunk interval next, s.requeueRateLimited attempt agentId now =
      { s with
        states := s.states.set attempt.task state
        lastRateLimitAt := some now
        pending := attempt.task :: s.pending
        rateLimitMode := true
        normalLaunchTimer := false
        rateLimitCapacity := capacity
        lastCapacityShrinkAt := shrunk
        globalRetryIntervalMs := interval
        nextRateLimitLaunchAt := next } := by
  unfold requeueRateLimited
  dsimp only
  obtain ⟨capacity, shrunk, _, hentered⟩ := enterRateLimitMode_eq (s := { s.setTask attempt.task _ with
    lastRateLimitAt := some now
    pending := attempt.task :: s.pending }) hmode now
  rw [hentered]
  obtain ⟨interval, next, hdelayed⟩ := delayRateLimitLaunch_eq (s := _) attempt.ready _ now
  exact ⟨_, capacity, shrunk, interval, next, hdelayed⟩

theorem places_releaseAttempt (hmem : attempt ∈ s.active) (task : Nat) :
    s.places task = (s.releaseAttempt attempt).places task + if attempt.task = task then 1 else 0 := by
  have hperm := (perm_cons_erase hmem).map ActiveAttempt.task
  simp only [places, releaseAttempt, hperm.count_eq task, map_cons, count_cons, beq_iff_eq]
  omega

theorem Tracked.active_places (h : Tracked tasks abortable s) (hf : s.finished = false) (hmem : attempt ∈ s.active) :
    attempt.task < tasks ∧ (s.releaseAttempt attempt).places attempt.task = 0 := by
  have hplaces := places_releaseAttempt hmem attempt.task
  rw [h.places hf, if_pos rfl] at hplaces
  split at hplaces
  · rename_i hlt
    exact ⟨hlt, by omega⟩
  · omega

theorem getD_setResult (task other : Nat) (result : AgentRunResult) :
    (s.setResult task result).results.getD other none =
      if task = other ∧ task < s.results.length then some result else s.results.getD other none := by
  simp only [setResult]
  by_cases htask : task = other
  · subst htask
    by_cases hlt : task < s.results.length
    · simp [hlt]
    · simp [hlt]
  · simp [htask]

theorem places_setResult (hlt : task < s.results.length) (hzero : s.places task = 0)
    (result : AgentRunResult) (other : Nat) :
    (s.setResult task result).places other = s.places other + if task = other then 1 else 0 := by
  have hset := getD_setResult (s := s) task other result
  unfold places at hzero ⊢
  rw [hset]
  by_cases htask : task = other
  · subst htask
    rw [if_pos ⟨rfl, hlt⟩, if_pos rfl]
    simp only [setResult, isSome_some, Bool.toNat_true]
    omega
  · rw [if_neg (fun hboth => htask hboth.1), if_neg htask]
    rfl

section

variable (h : Tracked tasks abortable s) (hf : s.finished = false) (hmem : attempt ∈ s.active)
include h hf hmem

theorem Tracked.setResult (hresult : result.task = attempt.task) :
    Tracked tasks abortable ((s.releaseAttempt attempt).setResult attempt.task result) where
  started := h.started
  states := h.states
  results := (length_set ..).trans h.results
  labelled task found hfound := by
    rw [getD_setResult] at hfound
    split at hfound
    · rename_i htask
      cases hfound
      rw [hresult, htask.1]
    · exact h.labelled task found hfound
  settled := h.settled
  ordered := h.ordered
  rejected := h.rejected
  places _ task := by
    obtain ⟨hlt, hzero⟩ := h.active_places hf hmem
    rw [← h.places hf, places_releaseAttempt hmem task]
    exact places_setResult (h.results.symm ▸ hlt) hzero result task
  aborted := h.aborted
  limited := h.limited
  positive := h.positive

theorem Tracked.requeueRateLimited (agentId : String) (now : Nat) :
    Tracked tasks abortable ((s.releaseAttempt attempt).requeueRateLimited attempt agentId now) := by
  obtain ⟨state, capacity, shrunk, interval, next, hrequeue⟩ :=
    requeueRateLimited_eq (s := s.releaseAttempt attempt) (fun hmode => (h.limited hmode).2) attempt agentId now
  rw [hrequeue]
  exact {
    started := h.started
    states := (length_set ..).trans h.states
    results := h.results
    labelled := h.labelled
    settled := h.settled
    ordered := h.ordered
    rejected := h.rejected
    places := fun _ task => by
      have hrest := places_releaseAttempt hmem task
      rw [← h.places hf, hrest]
      simp only [AgentRunBatch.places, count_cons, beq_iff_eq]
      omega
    aborted := h.aborted
    limited := fun _ => ⟨rfl, rfl⟩
    positive := h.positive }

theorem Tracked.settleAttempt (outcome : AttemptOutcome) (now : Nat) :
    Tracked tasks abortable ((s.releaseAttempt attempt).settleAttempt attempt outcome now) := by
  cases outcome with
  | ended => exact h.setResult hf hmem rfl
  | error => exact h.setResult hf hmem rfl
  | rateLimited agentId error =>
    simp only [AgentRunBatch.settleAttempt]
    split
    · exact h.setResult hf hmem rfl
    · exact h.requeueRateLimited hf hmem agentId now

end

/-- What is so after each callback: a batch that runs and has not finished is live. -/
structure Running (tasks : Nat) (abortable : Prop) (s : AgentRunBatch) : Prop where
  tracked : Tracked tasks abortable s
  live : s.finished = false → Live s

theorem Tracked.running_schedule (h : Tracked tasks abortable s) (now : Nat) :
    Running tasks abortable (s.schedule now) :=
  ⟨h.schedule now, h.live_schedule now⟩

theorem Running.finished (h : Tracked tasks abortable s) (hf : s.finished = true) : Running tasks abortable s :=
  ⟨h, fun hf' => absurd (hf.symm.trans hf') (by simp)⟩

theorem Tracked.setTask (h : Tracked tasks abortable s) (task : Nat) (state : TaskState) :
    Tracked tasks abortable (s.setTask task state) :=
  { h with states := (length_set ..).trans h.states }

theorem Running.handleLaunched (h : Running tasks abortable s) (attempt : ActiveAttempt) (agentId : String) :
    Running tasks abortable (s.handleLaunched attempt agentId) :=
  ⟨h.tracked.setTask .., fun hf => ⟨(h.live hf).incomplete, (h.live hf).waiting⟩⟩

theorem Running.handleAttemptOutcome (h : Running tasks abortable s) (attempt : ActiveAttempt)
    (outcome : AttemptOutcome) (now : Nat) :
    Running tasks abortable (s.handleAttemptOutcome attempt outcome now) := by
  unfold AgentRunBatch.handleAttemptOutcome
  split
  · rename_i hmem
    dsimp only
    split
    · rename_i hf
      exact Running.finished { h.tracked with places := fun hf' => absurd (hf.symm.trans hf') (by simp) } hf
    · rename_i hf
      have hf : s.finished = false := Bool.eq_false_iff.mpr hf
      exact (h.tracked.settleAttempt hf hmem outcome now).running_schedule now
  · exact h

theorem map_task_ready (active : List ActiveAttempt) (attempt : ActiveAttempt) :
    (active.map fun other => if other = attempt then { attempt with ready := true } else other).map
      ActiveAttempt.task = active.map ActiveAttempt.task := by
  rw [List.map_map]
  apply map_congr_left
  intro other _
  simp only [Function.comp]
  split
  · rename_i heq
    rw [heq]
  · rfl

theorem Tracked.markReady (h : Tracked tasks abortable s) (attempt : ActiveAttempt) :
    Tracked tasks abortable (s.markReady attempt) := by
  refine { h.setTask attempt.task { s.stateOf attempt.task with started := true } with places := ?_ }
  intro hf task
  rw [← h.places hf]
  simp only [AgentRunBatch.places, AgentRunBatch.markReady, map_task_ready]
  rfl

theorem Tracked.restartRetryInterval (h : Tracked tasks abortable s) (now : Nat) :
    Tracked tasks abortable (s.restartRetryInterval now) :=
  { h with places := h.places }

theorem Running.markAttemptReady (h : Running tasks abortable s) (attempt : ActiveAttempt) (now : Nat) :
    Running tasks abortable (s.markAttemptReady attempt now) := by
  have hready := h.tracked.markReady attempt
  unfold AgentRunBatch.markAttemptReady
  split
  · exact h
  · split
    · exact (hready.restartRetryInterval now).running_schedule now
    · refine ⟨{ hready with places := hready.places }, ?_⟩
      intro hf
      obtain ⟨hincomplete, hwaiting⟩ := h.live hf
      refine ⟨hincomplete, ?_⟩
      rcases hwaiting with hactive | htimer
      · apply Or.inl
        intro hnil
        exact hactive (map_eq_nil_iff.mp hnil)
      · exact .inr htimer

theorem Running.fireNormalLaunchTimer (h : Running tasks abortable s)
    (htimer : s.normalLaunchTimer = true) (now : Nat) :
    Running tasks abortable (s.fireNormalLaunchTimer now) := by
  have hcleared : Tracked tasks abortable { s with normalLaunchTimer := false } :=
    { h.tracked with limited := fun hmode => ⟨(h.tracked.limited hmode).1, rfl⟩ }
  unfold AgentRunBatch.fireNormalLaunchTimer
  dsimp only
  split
  · rename_i hstop
    refine ⟨hcleared, ?_⟩
    intro hf
    have hlive := h.live hf
    refine ⟨hlive.incomplete, ?_⟩
    rcases hstop with hfinished | hmode | hp | hfull
    · exact absurd (hfinished.symm.trans hf) (by simp)
    · exact absurd (htimer.symm.trans (h.tracked.limited hmode).2) (by simp)
    · obtain ⟨task, hlt, hnone⟩ := h.tracked.exists_unfinished (Bool.eq_false_iff.mp hlive.incomplete)
      have hplace : 0 < s.places task := by
        rw [h.tracked.places hf, if_pos hlt]
        exact Nat.one_pos
      exact .inl ((queued_of_places hplace hnone).resolve_left (not_not_intro hp))
    · exact .inl (active_of_isAtConcurrencyLimit (s := s) h.tracked.positive hfull)
  · rename_i hgo
    have hf : s.finished = false := Bool.eq_false_iff.mpr fun hf => hgo (.inl hf)
    have ha : s.aborted = false := by
      apply Bool.eq_false_iff.mpr
      intro ha
      rw [h.tracked.aborted ha] at hf
      cases hf
    have hlaunched := rescheduled_launchNormal (s := { s with normalLaunchTimer := false }) hf ha
    exact (hcleared.rescheduled hlaunched).running_schedule now

theorem running_run (hlimit : ∀ limit ∈ maxConcurrency, 0 < limit)
    (habort : abortedByUser = some false → abortable) (now : Nat) :
    Running tasks abortable ((create tasks maxConcurrency).run abortedByUser now) := by
  have hstarted : Tracked tasks abortable { create tasks maxConcurrency with started := true } := .create hlimit
  unfold run
  dsimp only
  split
  · rename_i hstates
    have htasks : tasks = 0 := by
      rw [← hstarted.states, hstates]
      rfl
    apply Running.finished _ (finished_settle _)
    apply hstarted.settle rfl
    · intro results heq
      cases heq
      rw [htasks]
      rfl
    · intro heq
      cases heq
  · cases abortedByUser with
    | some byUser =>
      apply Running.finished _ (finished_abort byUser)
      apply hstarted.abort rfl
      intro heq
      exact habort (congrArg some heq)
    | none => exact hstarted.running_schedule now

theorem Running.step (h : Running tasks abortable s)
    (habort : event.abortsOtherwise = true → abortable) (hstep : s.step event = some s') :
    Running tasks abortable s' := by
  cases event with
  | run abortedByUser now =>
    simp only [AgentRunBatch.step, h.tracked.started] at hstep
    cases hstep
  | launched number agentId =>
    simp only [AgentRunBatch.step] at hstep
    split at hstep
    · cases hstep
      exact h.handleLaunched ..
    · cases hstep
      exact h
  | ready number now =>
    simp only [AgentRunBatch.step] at hstep
    split at hstep
    · cases hstep
      exact h.markAttemptReady ..
    · cases hstep
      exact h
  | outcome number outcome now =>
    simp only [AgentRunBatch.step] at hstep
    split at hstep
    · cases hstep
      exact h.handleAttemptOutcome ..
    · cases hstep
      exact h
  | normalLaunchTimer now =>
    obtain ⟨htimer, heq⟩ := ite_none_right_eq_some.mp hstep
    cases heq
    exact h.fireNormalLaunchTimer htimer now
  | rateLimitLaunchTimer now =>
    obtain ⟨_, heq⟩ := ite_none_right_eq_some.mp hstep
    cases heq
    have hcleared : Tracked tasks _ { s with rateLimitLaunchTimer := none } :=
      { h.tracked with places := h.tracked.places }
    exact hcleared.running_schedule now
  | aborted byUser =>
    obtain ⟨⟨_, hf⟩, heq⟩ := ite_none_right_eq_some.mp hstep
    cases heq
    apply Running.finished _ (finished_abort byUser)
    apply h.tracked.abort hf
    intro hother
    subst hother
    exact habort rfl

theorem step_create (hstep : (create tasks maxConcurrency).step event = some s') :
    s' = create tasks maxConcurrency ∨ ∃ abortedByUser now, event = .run abortedByUser now ∧
        s' = (create tasks maxConcurrency).run abortedByUser now := by
  cases event with
  | run abortedByUser now => exact .inr ⟨abortedByUser, now, rfl, (some.inj hstep).symm⟩
  | launched => exact .inl (some.inj hstep).symm
  | ready => exact .inl (some.inj hstep).symm
  | outcome => exact .inl (some.inj hstep).symm
  | normalLaunchTimer => cases hstep
  | rateLimitLaunchTimer => cases hstep
  | aborted => cases hstep

theorem running_of_run (hlimit : ∀ limit ∈ maxConcurrency, 0 < limit) {events : List BatchEvent}
    (hrun : events.foldlM step (create tasks maxConcurrency) = some s) :
    s = create tasks maxConcurrency ∨ Running tasks (∃ event ∈ events, event.abortsOtherwise = true) s := by
  have halong : AlongRun step (fun _ event => event ∈ events) (create tasks maxConcurrency) events :=
    AlongRun.of_forall fun _ hmem => hmem
  refine halong.invariant (I := fun s => s = create tasks maxConcurrency ∨ Running tasks _ s) ?_ (.inl rfl) hrun
  intro s event s' hs hmem hstep
  have habort : event.abortsOtherwise = true → ∃ event ∈ events, event.abortsOtherwise = true :=
    fun haborts => ⟨event, hmem, haborts⟩
  rcases hs with rfl | hs
  · rcases step_create hstep with hsame | ⟨abortedByUser, now, rfl, rfl⟩
    · exact .inl hsame
    · apply Or.inr
      apply running_run hlimit
      intro hother
      subst hother
      exact habort rfl
  · exact .inr (hs.step habort hstep)

/-- Until the promise of a batch is settled each task is in one place, and a batch that runs has a
task to finish and a callback to come. The promise is settled once, with a result for each task in
the order of the tasks, or rejected where the batch is aborted otherwise than by the user. -/
theorem settles_of_run (hlimit : ∀ limit ∈ maxConcurrency, 0 < limit) {events : List BatchEvent}
    (hrun : events.foldlM step (create tasks maxConcurrency) = some s) :
    (s.settlements = [] → ∀ task, s.places task = if task < tasks then 1 else 0) ∧
      (s.started = true → s.settlements = [] → s.isComplete = false ∧ Waiting s) ∧
      s.settlements.length ≤ 1 ∧
      ∀ settlement ∈ s.settlements,
        (∃ results, settlement = .resolved results ∧ results.map AgentRunResult.task = range tasks) ∨
          settlement = .rejected ∧ ∃ event ∈ events, event.abortsOtherwise = true := by
  rcases running_of_run hlimit hrun with rfl | h
  · refine ⟨fun _ => places_create tasks maxConcurrency, ?_, Nat.zero_le _, ?_⟩
    · intro hstarted
      cases hstarted
    · intro settlement hmem
      cases hmem
  · have hsettled := h.tracked.settled
    have hunfinished : s.settlements = [] → s.finished = false := by
      intro hnil
      rw [hnil] at hsettled
      cases hf : s.finished with
      | false => rfl
      | true =>
        rw [hf] at hsettled
        cases hsettled
    refine ⟨fun hnil => h.tracked.places (hunfinished hnil), ?_, ?_, ?_⟩
    · intro _ hnil
      obtain ⟨hincomplete, hwaiting⟩ := h.live (hunfinished hnil)
      exact ⟨hincomplete, hwaiting⟩
    · rw [hsettled]
      exact Bool.toNat_le _
    · intro settlement hmem
      cases settlement with
      | resolved results => exact .inl ⟨results, rfl, h.tracked.ordered results hmem⟩
      | rejected => exact .inr ⟨rfl, h.tracked.rejected hmem⟩

/-- Two tasks, of which the first is limited and the second fails, before the first is retried. -/
def limitedRun : List BatchEvent :=
  [.run none 0, .ready 0 10, .outcome 0 (.rateLimited "a" "limited") 1000, .outcome 1 (.error "failed") 1500,
    .rateLimitLaunchTimer 4000, .outcome 2 (.ended .completed (some "a") none "done") 9000]

theorem settles_of_limitedRun :
    ∃ s, limitedRun.foldlM step (create 2 (some 2)) = some s ∧ s.settlements.length = 1 ∧
      ∀ settlement ∈ s.settlements,
        (∃ results, settlement = .resolved results ∧ results.map AgentRunResult.task = range 2) ∨
          settlement = .rejected ∧ ∃ event ∈ limitedRun, event.abortsOtherwise = true := by
  have hrun : limitedRun.foldlM step (create 2 (some 2)) = some _ := rfl
  have hlimit : ∀ limit ∈ some 2, 0 < limit := by simp
  exact ⟨_, hrun, rfl, (settles_of_run hlimit hrun).2.2.2⟩

/-- A batch that is aborted otherwise than by the user has no results. -/
theorem rejected_of_abort : ∃ s, [BatchEvent.run none 0, .aborted false].foldlM step (create 1 none) = some s ∧
      s.settlements = [.rejected] ∧ s.places 0 = 0 := by
  exact ⟨_, rfl, rfl, rfl⟩

end AgentRunBatch

end Echadron.Session
