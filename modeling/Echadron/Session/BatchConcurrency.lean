import Echadron.Session.BatchRuns

namespace Echadron.Session
open Lib List Option

namespace AgentRunBatch

/-- In a batch that runs, no more attempts are active than may be: one bound holds until it is
limited, another from then on. -/
structure Within (limit bound : Nat) (s : AgentRunBatch) : Prop where
  started : s.started = true
  maxConcurrency : s.maxConcurrency = some limit
  active : s.active.length ≤ if s.rateLimitMode then bound else limit

variable {limit bound : Nat} {s s' : AgentRunBatch}

theorem active_scheduleRateLimitWakeup (wakeupAt : Option Nat) (now : Nat) :
    (s.scheduleRateLimitWakeup wakeupAt now).active = s.active := by
  unfold scheduleRateLimitWakeup
  repeat' split
  all_goals rfl

theorem active_recoverRateLimitCapacity (now : Nat) : (s.recoverRateLimitCapacity now).active = s.active := by
  unfold recoverRateLimitCapacity
  repeat' split
  all_goals rfl

theorem active_scheduleNextRateLimitWakeup (now : Nat) : (s.scheduleNextRateLimitWakeup now).active = s.active := by
  unfold scheduleNextRateLimitWakeup
  split
  · rfl
  · exact active_scheduleRateLimitWakeup _ now

theorem length_launchRateLimited (now : Nat) : (s.launchRateLimited now).active.length ≤ s.active.length + 1 := by
  unfold launchRateLimited
  split
  · exact Nat.le_succ _
  · rw [active_scheduleNextRateLimitWakeup]
    unfold startAttempt
    split
    · exact Nat.le_succ _
    · simp

theorem length_scheduleRateLimitLaunch (hf : s.finished = false) (ha : s.aborted = false) (now : Nat) :
    (s.scheduleRateLimitLaunch now).active.length ≤
      max s.active.length (s.scheduleRateLimitLaunch now).rateLimitCapacity := by
  have hcleared : Rescheduled s { s with rateLimitLaunchTimer := none } := { Rescheduled.refl s with }
  have hrecovered := hcleared.trans (rescheduled_recoverRateLimitCapacity now)
  have hactive : ({ s with rateLimitLaunchTimer := none }.recoverRateLimitCapacity now).active = s.active :=
    active_recoverRateLimitCapacity now
  unfold scheduleRateLimitLaunch
  dsimp only
  split
  · exact le_max_left ..
  · generalize { s with rateLimitLaunchTimer := none }.recoverRateLimitCapacity now = recovered at *
    have hlaunched := rescheduled_launchRateLimited (hrecovered.finished.trans hf) (hrecovered.aborted.trans ha) now
    have hlength := length_launchRateLimited (s := recovered) now
    have hcapacity := hlaunched.capacity
    split
    · rw [active_scheduleRateLimitWakeup, hactive]
      exact le_max_left ..
    · split
      · rw [active_scheduleRateLimitWakeup, hactive]
        exact le_max_left ..
      · omega

section

variable (h : Within limit bound s)
include h

theorem Within.launchNormal (hmode : s.rateLimitMode = false)
    (hroom : s.isAtConcurrencyLimit = false) : Within limit bound s.launchNormal := by
  have hlt : s.active.length < limit := by
    simpa [isAtConcurrencyLimit, h.maxConcurrency] using hroom
  unfold AgentRunBatch.launchNormal
  split
  · exact h
  · unfold startAttempt
    split
    · exact ⟨h.started, h.maxConcurrency, h.active⟩
    · refine ⟨h.started, h.maxConcurrency, ?_⟩
      simpa [hmode] using Nat.succ_le_of_lt hlt

theorem Within.launchBurst (left : Nat) : Within limit bound (launchBurst left s) := by
  induction left generalizing s with
  | zero => exact h
  | succ left ih =>
    rw [launchBurst]
    split
    · rename_i hgo
      exact ih (h.launchNormal hgo.2.1 hgo.2.2)
    · exact h

theorem Within.scheduleNormalLaunch : Within limit bound s.scheduleNormalLaunch := by
  have hburst := h.launchBurst (INITIAL_LAUNCH_LIMIT - s.normalLaunchCount)
  unfold AgentRunBatch.scheduleNormalLaunch
  dsimp only
  split
  · exact hburst
  · exact ⟨hburst.started, hburst.maxConcurrency, hburst.active⟩

theorem Within.settle (settlement : Settlement) : Within limit bound (s.settle settlement) := by
  unfold AgentRunBatch.settle
  split
  · exact h
  · exact ⟨h.started, h.maxConcurrency, Nat.zero_le _⟩

theorem Within.schedule (hcapacity : (s.schedule now).rateLimitMode = true → (s.schedule now).rateLimitCapacity ≤ bound) :
    Within limit bound (s.schedule now) := by
  revert hcapacity
  unfold AgentRunBatch.schedule
  split
  · exact fun _ => h
  · rename_i hf
    split
    · exact fun _ => h.settle _
    · split
      · exact fun _ => h
      · rename_i ha
        split
        · rename_i hmode
          intro hcapacity
          have hf := Bool.eq_false_iff.mpr hf
          have ha := Bool.eq_false_iff.mpr ha
          have hkeep := rescheduled_scheduleRateLimitLaunch hf ha now
          have hlength := length_scheduleRateLimitLaunch hf ha now
          have hactive := h.active
          have hmode' := hkeep.rateLimitMode.trans hmode
          have hbound := hcapacity hmode'
          refine ⟨hkeep.started.trans h.started, hkeep.maxConcurrency.trans h.maxConcurrency, ?_⟩
          rw [if_pos hmode] at hactive
          rw [if_pos hmode']
          omega
        · exact fun _ => h.scheduleNormalLaunch

end

/-- What becomes of a task leaves the attempts that are active, and a limited batch limited. -/
structure Settled (s s' : AgentRunBatch) : Prop where
  active : s'.active = s.active
  maxConcurrency : s'.maxConcurrency = s.maxConcurrency
  started : s'.started = s.started
  rateLimitMode : s.rateLimitMode = true → s'.rateLimitMode = true

theorem settled_shrinkRateLimitCapacity (now : Nat) (force : Bool) :
    Settled s (s.shrinkRateLimitCapacity now force) := by
  unfold shrinkRateLimitCapacity
  split
  · exact ⟨rfl, rfl, rfl, id⟩
  · exact ⟨rfl, rfl, rfl, id⟩

theorem settled_enterRateLimitMode (now : Nat) : Settled s (s.enterRateLimitMode now) := by
  unfold enterRateLimitMode
  split
  · exact settled_shrinkRateLimitCapacity now false
  · have hshrunk := settled_shrinkRateLimitCapacity (s := { s with
      rateLimitMode := true
      nextRateLimitLaunchAt := max s.nextRateLimitLaunchAt (now + RATE_LIMIT_RETRY_BASE_MS) }) now true
    exact ⟨hshrunk.active, hshrunk.maxConcurrency, hshrunk.started, fun _ => hshrunk.rateLimitMode rfl⟩

theorem settled_settleAttempt (attempt : ActiveAttempt) (outcome : AttemptOutcome) (now : Nat) :
    Settled s (s.settleAttempt attempt outcome now) := by
  cases outcome with
  | ended => exact ⟨rfl, rfl, rfl, id⟩
  | error => exact ⟨rfl, rfl, rfl, id⟩
  | rateLimited agentId error =>
    simp only [settleAttempt]
    split
    · exact ⟨rfl, rfl, rfl, id⟩
    · unfold requeueRateLimited
      generalize hlimited : ({ s.setTask attempt.task _ with
        lastRateLimitAt := some now
        pending := attempt.task :: s.pending } : AgentRunBatch) = limited
      have hentered := settled_enterRateLimitMode (s := limited) now
      subst hlimited
      cases attempt.ready with
      | true => exact { hentered with }
      | false => exact { hentered with }

theorem Within.settled (h : Within limit bound s) (hle : limit ≤ bound) (hs : Settled s s') :
    Within limit bound s' := by
  refine ⟨hs.started.trans h.started, hs.maxConcurrency.trans h.maxConcurrency, ?_⟩
  have hactive := h.active
  rw [hs.active]
  split at hactive
  · rename_i hmode
    rw [if_pos (hs.rateLimitMode hmode)]
    exact hactive
  · split
    · exact le_trans hactive hle
    · exact hactive

theorem Within.handleAttemptOutcome (h : Within limit bound s) (hle : limit ≤ bound) (attempt : ActiveAttempt)
    (outcome : AttemptOutcome)
    (hcapacity : (s.handleAttemptOutcome attempt outcome now).rateLimitMode = true →
      (s.handleAttemptOutcome attempt outcome now).rateLimitCapacity ≤ bound) :
    Within limit bound (s.handleAttemptOutcome attempt outcome now) := by
  have hlength := (erase_sublist (l := s.active) (a := attempt)).length_le
  have hreleased : Within limit bound (s.releaseAttempt attempt) :=
    ⟨h.started, h.maxConcurrency, le_trans hlength h.active⟩
  revert hcapacity
  unfold AgentRunBatch.handleAttemptOutcome
  dsimp only
  split
  · split
    · exact fun _ => hreleased
    · intro hcapacity
      have hsettled := settled_settleAttempt (s := s.releaseAttempt attempt) attempt outcome now
      exact (hreleased.settled hle hsettled).schedule hcapacity
  · exact fun _ => h

theorem length_markReady (attempt : ActiveAttempt) : (s.markReady attempt).active.length = s.active.length :=
  length_map _

theorem Within.markAttemptReady (h : Within limit bound s)
    (hcapacity : (s.markAttemptReady attempt now).rateLimitMode = true →
      (s.markAttemptReady attempt now).rateLimitCapacity ≤ bound) :
    Within limit bound (s.markAttemptReady attempt now) := by
  have hready : Within limit bound (s.markReady attempt) :=
    ⟨h.started, h.maxConcurrency, (length_markReady attempt).symm ▸ h.active⟩
  have hrestarted : Within limit bound ((s.markReady attempt).restartRetryInterval now) :=
    ⟨hready.started, hready.maxConcurrency, hready.active⟩
  revert hcapacity
  unfold AgentRunBatch.markAttemptReady
  split
  · exact fun _ => h
  · split
    · exact hrestarted.schedule
    · exact fun _ => ⟨hready.started, hready.maxConcurrency, hready.active⟩

theorem Within.fireNormalLaunchTimer (h : Within limit bound s)
    (hcapacity : (s.fireNormalLaunchTimer now).rateLimitMode = true →
      (s.fireNormalLaunchTimer now).rateLimitCapacity ≤ bound) :
    Within limit bound (s.fireNormalLaunchTimer now) := by
  have hcleared : Within limit bound { s with normalLaunchTimer := false } :=
    ⟨h.started, h.maxConcurrency, h.active⟩
  revert hcapacity
  unfold AgentRunBatch.fireNormalLaunchTimer
  dsimp only
  split
  · exact fun _ => hcleared
  · rename_i hgo
    intro hcapacity
    apply Within.schedule _ hcapacity
    apply hcleared.launchNormal
    · exact Bool.eq_false_iff.mpr fun hmode => hgo (.inr (.inl hmode))
    · exact Bool.eq_false_iff.mpr fun hfull => hgo (.inr (.inr (.inr hfull)))

theorem Within.abort (h : Within limit bound s) (byUser : Bool) : Within limit bound (s.abort byUser) := by
  have haborted : Within limit bound { s with aborted := true } := ⟨h.started, h.maxConcurrency, h.active⟩
  cases byUser with
  | true => exact haborted.settle _
  | false => exact haborted.settle _

def CapacityWithin (bound : Nat) (batch : AgentRunBatch) (event : BatchEvent) : Prop :=
  ∀ next ∈ batch.step event, next.rateLimitMode = true → next.rateLimitCapacity ≤ bound

instance CapacityWithin.decidable (bound : Nat) (batch : AgentRunBatch) (event : BatchEvent) :
    Decidable (batch.CapacityWithin bound event) :=
  inferInstanceAs (Decidable (∀ next ∈ batch.step event, _))

theorem Within.step (h : Within limit bound s) (hle : limit ≤ bound)
    (hcapacity : s.CapacityWithin bound event) (hstep : s.step event = some s') : Within limit bound s' := by
  have hcapacity := hcapacity s' hstep
  cases event with
  | run abortedByUser now =>
    simp only [AgentRunBatch.step, h.started] at hstep
    cases hstep
  | launched number agentId =>
    simp only [AgentRunBatch.step] at hstep
    split at hstep
    · cases hstep
      exact ⟨h.started, h.maxConcurrency, h.active⟩
    · cases hstep
      exact h
  | ready number now =>
    simp only [AgentRunBatch.step] at hstep
    split at hstep
    · cases hstep
      exact h.markAttemptReady hcapacity
    · cases hstep
      exact h
  | outcome number outcome now =>
    simp only [AgentRunBatch.step] at hstep
    split at hstep
    · cases hstep
      exact h.handleAttemptOutcome hle _ _ hcapacity
    · cases hstep
      exact h
  | normalLaunchTimer now =>
    obtain ⟨_, heq⟩ := ite_none_right_eq_some.mp hstep
    cases heq
    exact h.fireNormalLaunchTimer hcapacity
  | rateLimitLaunchTimer now =>
    obtain ⟨_, heq⟩ := ite_none_right_eq_some.mp hstep
    cases heq
    have hcleared : Within limit bound { s with rateLimitLaunchTimer := none } :=
      ⟨h.started, h.maxConcurrency, h.active⟩
    exact hcleared.schedule hcapacity
  | aborted byUser =>
    obtain ⟨_, heq⟩ := ite_none_right_eq_some.mp hstep
    cases heq
    exact h.abort byUser

theorem within_run (tasks : Nat)
    (hcapacity : ((create tasks (some limit)).run abortedByUser now).rateLimitMode = true →
      ((create tasks (some limit)).run abortedByUser now).rateLimitCapacity ≤ bound) :
    Within limit bound ((create tasks (some limit)).run abortedByUser now) := by
  have hstarted : Within limit bound { create tasks (some limit) with started := true } :=
    ⟨rfl, rfl, Nat.zero_le _⟩
  revert hcapacity
  unfold run
  dsimp only
  split
  · exact fun _ => hstarted.settle _
  · cases abortedByUser with
    | some byUser => exact fun _ => hstarted.abort byUser
    | none => exact hstarted.schedule

/-- No more attempts are active than the limit until the batch is limited, and from then on no more
than the limit or than the capacity has been at the most. -/
theorem active_le_of_run {tasks : Nat} {events : List BatchEvent} (hle : limit ≤ bound)
    (hcapacity : AlongRun step (CapacityWithin bound) (create tasks (some limit)) events)
    (hrun : events.foldlM step (create tasks (some limit)) = some s) :
    s.active.length ≤ if s.rateLimitMode then bound else limit := by
  have hwithin : s = create tasks (some limit) ∨ Within limit bound s := by
    refine hcapacity.invariant (I := fun s => s = create tasks (some limit) ∨ Within limit bound s) ?_ (.inl rfl) hrun
    intro s event s' hs hcapacity hstep
    rcases hs with rfl | hs
    · rcases step_create hstep with hsame | ⟨abortedByUser, now, _, rfl⟩
      · exact .inl hsame
      · exact .inr (within_run tasks (hcapacity _ hstep))
    · exact .inr (hs.step hle hcapacity hstep)
  rcases hwithin with rfl | hwithin
  · exact Nat.zero_le _
  · exact hwithin.active

/-- One attempt may be active, and the capacity recovers to two while it is. -/
def recoveredRun : List BatchEvent :=
  [.run none 0, .outcome 0 (.rateLimited "a" "limited") 1000, .rateLimitLaunchTimer 7000,
    .rateLimitLaunchTimer 181000]

theorem active_le_of_recoveredRun : ∃ s, recoveredRun.foldlM step (create 3 (some 1)) = some s ∧
      s.active.length ≤ if s.rateLimitMode then 2 else 1 := by
  have hrun : recoveredRun.foldlM step (create 3 (some 1)) = some _ := rfl
  exact ⟨_, hrun, active_le_of_run (by decide) (by decide +kernel) hrun⟩

theorem recoveredRun_exceeds : ∃ s, recoveredRun.foldlM step (create 3 (some 1)) = some s ∧ s.active.length = 2 :=
  ⟨_, rfl, rfl⟩

end AgentRunBatch

end Echadron.Session
