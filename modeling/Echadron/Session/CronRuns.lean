import Mathlib.Order.Interval.Finset.Nat
import Echadron.Lib.Runs
import Echadron.Session.SessionCronService

namespace Echadron.Session
open Lib List Option

/-! The delivered fires of a recurring task cover its fire times once each, up to its cursor. -/

/-- The next run is the least later fire time, and the jitter of a recurring task is forward. -/
structure CronRules.Lawful (rules : CronRules) (fires : String → Nat → Prop) : Prop where
  later : rules.computeNextCronRun cron a = some b → a < b
  next : rules.computeNextCronRun cron a = some b → fires cron b
  least : rules.computeNextCronRun cron a = some b → ∀ n, a < n → n < b → ¬ fires cron n
  forward : ∀ ideal : Nat, task.isRecurring → (ideal : ℚ) ≤ rules.jitteredNextCronRunMs task ideal

theorem CronTask.isRecurring_iff (task : CronTask) : task.isRecurring ↔ task.recurring ≠ some false := by
  rw [isRecurring, bne_iff_ne]

section
variable {rules : CronRules} {fires : String → Nat → Prop} [∀ cron, DecidablePred (fires cron)]

theorem CronRules.Lawful.card_next (law : rules.Lawful fires)
    (h : rules.computeNextCronRun cron a = some b) : (pointsIn (fires cron) a b).card = 1 :=
  card_pointsIn_next (law.later h) (law.next h) (law.least h)

omit [∀ cron, DecidablePred (fires cron)] in
theorem CronRules.Lawful.due_of_jittered {now : Nat} (law : rules.Lawful fires) (hrec : task.isRecurring)
    (h : rules.jittered task ideal ≤ (now : ℚ)) : ideal ≤ now := by
  rw [CronRules.jittered, if_neg (task.isRecurring_iff.mp hrec)] at h
  have hideal := law.forward ideal hrec
  have hcast : (ideal : ℚ) ≤ (now : ℚ) := le_trans hideal h
  exact_mod_cast hcast

theorem CronRules.Lawful.coalesce_spec {task : CronTask} (law : rules.Lawful fires)
    (hcursor : cursor ≤ now) (left count : Nat) :
    cursor ≤ (rules.coalesce task now left count cursor).2 ∧ (rules.coalesce task now left count cursor).2 ≤ now ∧
      (rules.coalesce task now left count cursor).1 = count +
        (pointsIn (fires task.cron) cursor (rules.coalesce task now left count cursor).2).card := by
  induction left generalizing count cursor with
  | zero =>
    rw [CronRules.coalesce, pointsIn_self]
    exact ⟨le_rfl, hcursor, rfl⟩
  | succ left ih =>
    have hstay : cursor ≤ cursor ∧ cursor ≤ now ∧
        count = count + (pointsIn (fires task.cron) cursor cursor).card := by
      rw [pointsIn_self]
      exact ⟨le_rfl, hcursor, rfl⟩
    unfold CronRules.coalesce
    cases hnext : rules.computeNextCronRun task.cron cursor with
    | none => exact hstay
    | some next =>
      dsimp only
      split
      · exact hstay
      · split
        · exact hstay
        · rename_i hdue _
          have hnow : next ≤ now := Nat.le_of_not_lt hdue
          have hlater := law.later hnext
          obtain ⟨hle, hlast, hcount⟩ := ih hnow (count + 1)
          rw [← card_pointsIn_add (le_of_lt hlater) hle, law.card_next hnext]
          omega

/-- What a delivery will cover: the fire times after its base up to a due one, all counted. -/
structure CronDelivery.Covers (fires : String → Nat → Prop) [∀ cron, DecidablePred (fires cron)]
    (cron : String) (clock : Nat) (d : CronDelivery) (upTo : Nat) : Prop where
  last : d.lastDueMs = some upTo
  after : d.baseFromMs ≤ upTo
  due : upTo ≤ clock
  counted : d.coalescedCount = (pointsIn (fires cron) d.baseFromMs upTo).card

theorem CronRules.Lawful.deliverDue_covers {now : Nat} (law : rules.Lawful fires) (hrec : task.isRecurring)
    (hnext : rules.computeJitteredNext task base = some nextFireAt) (hdue : nextFireAt ≤ (now : ℚ)) :
    ∃ upTo, (rules.deliverDue task now base).Covers fires task.cron now upTo := by
  obtain ⟨ideal, hideal, hjitter⟩ := map_eq_some_iff.mp hnext
  subst hjitter
  have hnow : ideal ≤ now := law.due_of_jittered hrec hdue
  have hlater := law.later hideal
  obtain ⟨hle, hlast, hcount⟩ := law.coalesce_spec hnow (MAX_COALESCE_ITERATIONS - 1) 1
  have hall : (rules.countCoalesced task ideal now).1 =
      (pointsIn (fires task.cron) base (rules.countCoalesced task ideal now).2).card := by
    rw [CronRules.countCoalesced, ← card_pointsIn_add (le_of_lt hlater) hle, law.card_next hideal]
    exact hcount
  have hone : 1 ≤ (rules.countCoalesced task ideal now).1 := by
    rw [CronRules.countCoalesced]
    omega
  have hresult : (rules.computeNextCronRun task.cron base).bind (fun ideal =>
      if task.isRecurring then some (rules.countCoalesced task ideal now) else none) =
      some (rules.countCoalesced task ideal now) := by
    rw [hideal, bind_some, if_pos hrec]
  refine ⟨(rules.countCoalesced task ideal now).2, ?_, ?_, hlast, ?_⟩
  · simp only [CronRules.deliverDue, hresult, map_some]
  · exact le_trans (le_of_lt hlater) hle
  · simp only [CronRules.deliverDue, hresult, map_some, getD_some]
    rw [max_eq_right hone, hall]

def CronSlot.lastFired (slot : CronSlot) : Option Nat := slot.fired.getLast?.map CronFire.upTo

def CronSlot.cursor (slot : CronSlot) (added : CronTask) : Nat := slot.lastFired.getD added.createdAt

/-- The invariant of a recurring task. A delivery under way begins at the cursor. -/
structure CronSlot.Accounted (fires : String → Nat → Prop) [∀ cron, DecidablePred (fires cron)]
    (clock : Nat) (added : CronTask) (slot : CronSlot) : Prop where
  chain : Contiguous CronFire.after CronFire.upTo added.createdAt slot.fired (slot.cursor added)
  counted : ∀ fire ∈ slot.fired, fire.coalescedCount = (pointsIn (fires added.cron) fire.after fire.upTo).card
  reached : slot.cursor added ≤ clock
  held : ∀ task ∈ slot.task, task = { added with lastFiredAt := slot.lastFired }
  seen : slot.lastSeenAt = none ∨ slot.lastSeenAt = slot.lastFired
  seeded : slot.seededFromStore → slot.lastSeenAt = slot.lastFired
  queue : slot.persistQueue.getLast?.getD slot.stored = slot.task
  deliveries : slot.deliveries = [] ∨ ∃ d upTo, slot.deliveries = [d] ∧
    d.task.recurring = added.recurring ∧ d.baseFromMs = slot.cursor added ∧
    d.Covers fires added.cron clock upTo
  marked : slot.inFlight → slot.deliveries ≠ []

theorem CronDelivery.Covers.mono {d : CronDelivery} (h : d.Covers fires cron clock upTo)
    (hle : clock ≤ clock') : d.Covers fires cron clock' upTo :=
  { h with due := le_trans h.due hle }

namespace CronSlot.Accounted
variable {slot : CronSlot} {task added : CronTask}

section

variable (h : slot.Accounted fires clock added)
include h

theorem mono (hle : clock ≤ clock') : slot.Accounted fires clock' added where
  chain := h.chain
  counted := h.counted
  reached := le_trans h.reached hle
  held := h.held
  seen := h.seen
  seeded := h.seeded
  queue := h.queue
  deliveries := by
    obtain hnone | ⟨d, upTo, hd, hrec, hbase, hcovers⟩ := h.deliveries
    · exact .inl hnone
    · exact .inr ⟨d, upTo, hd, hrec, hbase, hcovers.mono hle⟩
  marked := h.marked

theorem createdAt_le : added.createdAt ≤ slot.cursor added := h.chain.le

theorem persisted (hle : clock ≤ now) (htask : slot.task = some task) :
    (task.lastFiredAt.filter fun at' => at' ≤ now) = slot.lastFired := by
  have hheld := h.held task htask
  subst hheld
  have hreached := le_trans h.reached hle
  cases hlast : slot.lastFired with
  | none => rfl
  | some at' =>
    rw [cursor, hlast, getD_some] at hreached
    rw [filter_some, if_pos (decide_eq_true hreached)]

theorem seed_lastSeenAt (hle : clock ≤ now) (htask : slot.task = some task) :
    (slot.seed task now).lastSeenAt = slot.lastFired := by
  unfold CronSlot.seed
  split
  · exact h.persisted hle htask
  · rename_i hcond
    rw [Bool.and_eq_true, not_and_or] at hcond
    obtain hseeded | hseen := hcond
    · exact h.seeded (by simpa using hseeded)
    · apply h.seen.resolve_left
      intro hnone
      exact hseen (by rw [hnone]; rfl)

theorem reported_cursor (hle : clock ≤ asked) (htask : slot.task = some task) :
    slot.lastSeenAt.or (task.lastFiredAt.filter fun at' => at' ≤ asked) = slot.lastFired := by
  rw [h.persisted hle htask]
  obtain hnone | hlast := h.seen
  · rw [hnone, none_or]
  · rw [hlast, Option.or_self]

theorem base (htask : slot.task = some task) : baseFromMs task slot.lastFired = slot.cursor added := by
  have hheld := h.held task htask
  have hle := h.createdAt_le
  subst hheld
  unfold baseFromMs
  unfold cursor at hle ⊢
  cases hlast : slot.lastFired with
  | none => rfl
  | some at' =>
    rw [hlast, getD_some] at hle
    rw [getD_some]
    dsimp only
    split
    · rfl
    · omega

end

theorem added_slot (hfresh : added.lastFiredAt = none) (hclock : added.createdAt ≤ clock) :
    ((({} : CronSlot)).addTask added).Accounted fires clock added where
  chain := .nil _
  counted := by
    intro fire hfire
    exact absurd hfire not_mem_nil
  reached := hclock
  held := by
    intro task htask
    cases htask
    exact congrArg (fun last => { added with lastFiredAt := last }) hfresh
  seen := .inl rfl
  seeded := by
    intro h
    cases h
  queue := rfl
  deliveries := .inl rfl
  marked := by
    intro h
    cases h

section

variable (h : slot.Accounted fires clock added)
include h

theorem removeTask : slot.removeTask.Accounted fires clock added := by
  unfold CronSlot.removeTask
  split
  · refine { h with held := ?_, queue := ?_ }
    · intro task htask
      exact absurd htask (not_mem_none task)
    · simp [CronSlot.persistEnqueue]
  · exact h

theorem written (hw : slot.written true = some slot') : slot'.Accounted fires clock added := by
  unfold CronSlot.written at hw
  have hqueue := h.queue
  cases hlist : slot.persistQueue with
  | nil => simp [hlist] at hw
  | cons work queue =>
    rw [hlist] at hw hqueue
    cases hw
    refine { h with queue := ?_ }
    cases queue with
    | nil => exact hqueue
    | cons next rest =>
      rw [← hqueue]
      rfl

/-- A load from a store that holds every write changes nothing. -/
theorem load (hidle : slot.persistQueue = []) (replace : Bool) : slot.load replace = slot := by
  have hstored := h.queue
  rw [hidle, getLast?_nil, getD_none] at hstored
  have hload : (if replace then slot.stored else slot.stored.or slot.task) = slot.task := by
    rw [hstored, Option.or_self, ite_self]
  unfold CronSlot.load
  rw [hload]

theorem stop : slot.stop.Accounted fires clock added := by
  refine { h with seen := .inl rfl, seeded := ?_, marked := ?_ }
  · intro hseeded
    cases hseeded
  · intro hmark
    cases hmark

theorem seed (hle : clock ≤ now)
    (htask : slot.task = some task) : (slot.seed task now).Accounted fires clock added := by
  have hseen := h.seed_lastSeenAt hle htask
  exact { h with seen := .inr hseen, seeded := fun _ => hseen }

end

/-- Where a task under way stands unmarked a tick would deliver it twice. -/
theorem processDue (law : rules.Lawful fires) (hrec : added.isRecurring)
    (h : slot.Accounted fires clock added) (hle : clock ≤ now)
    (hmark : slot.deliveries ≠ [] → slot.inFlight) :
    (rules.processDue now slot).Accounted fires now added := by
  unfold CronRules.processDue
  cases htask : slot.task with
  | none => exact h.mono hle
  | some task =>
    have hseed := (h.seed hle htask).mono hle
    have hbase : baseFromMs task (slot.seed task now).lastSeenAt = slot.cursor added := by
      rw [h.seed_lastSeenAt hle htask, h.base htask]
    have hheld := h.held task htask
    dsimp only
    rw [hbase]
    split
    · exact h.mono hle
    · rename_i hunmarked
      have hnone : slot.deliveries = [] := by
        by_contra hsome
        exact hunmarked (hmark hsome)
      split
      · exact h.mono hle
      · cases hnext : rules.computeJitteredNext task (slot.cursor added) with
        | none => exact hseed
        | some nextFireAt =>
          dsimp only
          split
          · exact hseed
          · rename_i hdue
            have hcron : task.cron = added.cron := by rw [hheld]
            have htaskrec : task.isRecurring := by rw [hheld]; exact hrec
            obtain ⟨upTo, hcovers⟩ := law.deliverDue_covers htaskrec hnext (le_of_not_gt hdue)
            rw [hcron] at hcovers
            refine { hseed with deliveries := .inr ⟨_, upTo, ?_, ?_, ?_, hcovers⟩, marked := ?_ }
            · rw [hnone]
              rfl
            · rw [CronRules.deliverDue, hheld]
            · rfl
            · intro _ hempty
              exact absurd hempty (by simp)

theorem removeTask_inFlight (slot : CronSlot) (b : Bool) :
    { slot.removeTask with inFlight := b } = { slot with inFlight := b }.removeTask := by
  unfold CronSlot.removeTask
  split <;> rfl

theorem advanceCursor_eq (slot : CronSlot) (lastFiredAt : Nat) :
    slot.advanceCursor lastFiredAt = { slot with
      task := slot.markFired lastFiredAt
      persistQueue := slot.persistQueue ++ (slot.markFired lastFiredAt).toList.map some } := by
  obtain ⟨task, _, _, _, _, _, queue, _, _⟩ := slot
  cases task with
  | none => simp [CronSlot.advanceCursor, CronSlot.markFired]
  | some task => rfl

theorem fire (h : slot.Accounted fires clock added) (hnone : slot.deliveries = [])
    {delivery : CronDelivery} (hbase : delivery.baseFromMs = slot.cursor added)
    (hcovers : delivery.Covers fires added.cron clock upTo) :
    ({ slot.fire ⟨delivery.baseFromMs, upTo, delivery.coalescedCount⟩ with
      lastSeenAt := some upTo }.advanceCursor upTo).Accounted fires clock added := by
  have hchain := h.chain.concat (x := ⟨delivery.baseFromMs, upTo, delivery.coalescedCount⟩) hbase
    (hbase ▸ hcovers.after)
  have hlast : (slot.fired ++ [(⟨delivery.baseFromMs, upTo, delivery.coalescedCount⟩ : CronFire)]
      ).getLast?.map CronFire.upTo = some upTo := by
    rw [getLast?_concat, map_some]
  rw [advanceCursor_eq]
  refine { chain := ?_, counted := ?_, reached := ?_, held := ?_, seen := ?_, seeded := ?_,
           queue := ?_, deliveries := .inl hnone, marked := h.marked }
  · simpa only [CronSlot.cursor, CronSlot.lastFired, CronSlot.fire, hlast, getD_some] using hchain
  · intro fire hfire
    obtain hold | hnew := mem_append.mp hfire
    · exact h.counted fire hold
    · rw [mem_singleton.mp hnew]
      exact hcovers.counted
  · simpa only [CronSlot.cursor, CronSlot.lastFired, CronSlot.fire, hlast, getD_some] using hcovers.due
  · intro task htask
    obtain ⟨old, hold, hnew⟩ := map_eq_some_iff.mp htask
    rw [← hnew, h.held old hold]
    simp only [CronSlot.lastFired, CronSlot.fire, hlast]
  · exact .inr hlast.symm
  · intro _
    exact hlast.symm
  · have hqueue := h.queue
    unfold CronSlot.markFired CronSlot.fire
    cases htask : slot.task with
    | none =>
      rw [htask] at hqueue
      simpa using hqueue
    | some task => simp

theorem settle_delivered {delivery : CronDelivery} (hrec : ¬ delivery.task.recurring = some false)
    (hlast : delivery.lastDueMs = some upTo) (slot : CronSlot) :
    slot.settle delivery true =
      { ({ (if delivery.stale && delivery.task.isRecurring then slot.removeTask else slot) with
          inFlight := false } : CronSlot).fire
          ⟨delivery.baseFromMs, upTo, delivery.coalescedCount⟩ with
        lastSeenAt := some upTo }.advanceCursor upTo := by
  simp only [CronSlot.settle, Bool.not_true, Bool.false_eq_true, if_false, if_neg hrec, hlast, getD_some]

@[simp] theorem removeTask_deliveries (slot : CronSlot) : slot.removeTask.deliveries = slot.deliveries := by
  unfold CronSlot.removeTask
  split <;> rfl

theorem removeTask_cursor (slot : CronSlot) (added : CronTask) :
    slot.removeTask.cursor added = slot.cursor added := by
  unfold CronSlot.removeTask
  split <;> rfl

/-- The settlement of the delivery under way. -/
theorem settled (hrec : added.isRecurring) (h : slot.Accounted fires clock added)
    (hs : slot.settled i delivered = some slot') : slot'.Accounted fires clock added := by
  obtain ⟨delivery, hget, hslot'⟩ := map_eq_some_iff.mp hs
  obtain hnone | ⟨d, upTo, hd, hdrec, hbase, hcovers⟩ := h.deliveries
  · rw [hnone] at hget
    exact absurd hget (by simp)
  · rw [hd] at hget hslot'
    obtain ⟨hi, hdelivery⟩ := List.getElem?_eq_some_iff.mp hget
    obtain rfl : i = 0 := Nat.lt_one_iff.mp hi
    obtain rfl : d = delivery := hdelivery
    have hidle : ({ slot with
        deliveries := []
        inFlight := false } : CronSlot).Accounted fires clock added :=
      { h with
        deliveries := .inl rfl
        marked := fun hmark => absurd hmark Bool.false_ne_true }
    rw [CronTask.isRecurring_iff] at hrec
    have hnot : ¬ d.task.recurring = some false := by
      rw [hdrec]
      exact hrec
    subst hslot'
    cases delivered with
    | false => exact hidle
    | true =>
      rw [settle_delivered hnot hcovers.last]
      split
      · have hremoved : ({ ({ slot with deliveries := [] } : CronSlot).removeTask with
            inFlight := false } : CronSlot).Accounted fires clock added := by
          rw [removeTask_inFlight { slot with deliveries := [] } false]
          exact hidle.removeTask
        have hcursor := removeTask_cursor { slot with deliveries := [] } added
        exact hremoved.fire (removeTask_deliveries _) (hbase.trans hcursor.symm) hcovers
      · exact hidle.fire rfl hbase hcovers

end CronSlot.Accounted

end

/-! Whole runs of the scheduler, seen from one task. -/

theorem removeTask_added (slot : CronSlot) : slot.removeTask.added = slot.added := by
  unfold CronSlot.removeTask
  split <;> rfl

theorem processDue_added (rules : CronRules) (now : Nat) (slot : CronSlot) :
    (rules.processDue now slot).added = slot.added := by
  unfold CronRules.processDue
  cases slot.task with
  | none => rfl
  | some task =>
    dsimp only
    split
    · rfl
    · split
      · rfl
      · cases rules.computeJitteredNext task (baseFromMs task (slot.seed task now).lastSeenAt) with
        | none => rfl
        | some nextFireAt =>
          dsimp only
          split <;> rfl

theorem advanceCursor_added (slot : CronSlot) (lastFiredAt : Nat) :
    (slot.advanceCursor lastFiredAt).added = slot.added := by
  rw [CronSlot.Accounted.advanceCursor_eq]

theorem settled_added {slot slot' : CronSlot} (h : slot.settled i delivered = some slot') :
    slot'.added = slot.added := by
  obtain ⟨delivery, hget, hslot'⟩ := map_eq_some_iff.mp h
  subst hslot'
  unfold CronSlot.settle
  split
  · rfl
  · dsimp only
    split
    · rw [removeTask_added]
      split
      · exact removeTask_added _
      · rfl
    · rw [advanceCursor_added]
      split
      · exact removeTask_added _
      · rfl

theorem written_eq_some {slot slot' : CronSlot} (h : slot.written ok = some slot') :
    slot'.added = slot.added ∧ slot.persistQueue ≠ [] := by
  unfold CronSlot.written at h
  cases hqueue : slot.persistQueue with
  | nil => simp [hqueue] at h
  | cons work queue =>
    rw [hqueue] at h
    cases h
    exact ⟨rfl, cons_ne_nil work queue⟩

/-- At a tick no delivery of the task is under way that a stop has forgotten. Every write succeeds,
and a load finds all of them in the store. -/
def Undisturbed (id : String) (s : CronSession) : CronEvent → Prop
  | .tick _ idle => idle → (s.slots id).deliveries ≠ [] → (s.slots id).inFlight
  | .written other ok => other = id → ok
  | .loadFromStore _ => (s.slots id).persistQueue = []
  | _ => True

instance Undisturbed.decidable (id : String) (s : CronSession) : (e : CronEvent) → Decidable (Undisturbed id s e)
  | .tick _ idle => inferInstanceAs (Decidable (idle → (s.slots id).deliveries ≠ [] → (s.slots id).inFlight))
  | .written other ok => inferInstanceAs (Decidable (other = id → ok))
  | .loadFromStore _ => inferInstanceAs (Decidable ((s.slots id).persistQueue = []))
  | .addTask .. => isTrue trivial
  | .removeTask _ => isTrue trivial
  | .settled .. => isTrue trivial
  | .start => isTrue trivial
  | .stop => isTrue trivial

section
variable {rules : CronRules} {fires : String → Nat → Prop} [∀ cron, DecidablePred (fires cron)]
variable {slot slot' : CronSlot} {id : String} {clock clock' : Nat}

/-- The slot of an id is unused, or the task added under it is one-shot or accounted for. -/
def CronSlot.Sound (fires : String → Nat → Prop) [∀ cron, DecidablePred (fires cron)]
    (clock : Nat) (slot : CronSlot) : Prop :=
  slot = {} ∨ ∃ added, slot.added = some added ∧ (added.isRecurring → slot.Accounted fires clock added)

theorem CronSlot.Sound.of_keeps (h : slot.Sound fires clock) (hempty : slot = {} → slot' = {})
    (hadded : slot'.added = slot.added)
    (hkeep : ∀ added : CronTask, added.isRecurring → slot.Accounted fires clock added →
      slot'.Accounted fires clock' added) : slot'.Sound fires clock' := by
  obtain hslot | ⟨added, hsome, hacc⟩ := h
  · exact .inl (hempty hslot)
  · exact .inr ⟨added, hadded.trans hsome, fun hrec => hkeep added hrec (hacc hrec)⟩

theorem CronSlot.Sound.mono (h : slot.Sound fires clock) (hle : clock ≤ clock') : slot.Sound fires clock' :=
  h.of_keeps (fun hslot => hslot) rfl fun _ _ hacc => hacc.mono hle

theorem CronSlot.Sound.addTask (h : slot.Sound fires clock) (hnone : slot.added = none)
    {task : CronTask} (hfresh : task.lastFiredAt = none) (hnow : task.createdAt ≤ now) :
    (slot.addTask task).Sound fires now := by
  obtain hslot | ⟨added, hsome, _⟩ := h
  · subst hslot
    exact .inr ⟨task, rfl, fun _ => CronSlot.Accounted.added_slot hfresh hnow⟩
  · rw [hnone] at hsome
    exact absurd hsome (some_ne_none added).symm

theorem CronSession.modify_slots (s : CronSession) (other id : String) (slot : CronSlot) :
    (s.modify other slot).slots id = if id = other then slot else s.slots id := rfl

theorem CronSession.modify_sound {s : CronSession} (h : (s.slots id).Sound fires clock)
    (hslot : other = id → slot.Sound fires clock) :
    ((s.modify other slot).slots id).Sound fires clock := by
  rw [modify_slots]
  split
  · rename_i heq
    exact hslot heq.symm
  · exact h

theorem CronRules.step_sound (law : rules.Lawful fires) {s s' : CronSession}
    (h : (s.slots id).Sound fires s.clock) (hcond : Undisturbed id s e)
    (hstep : rules.step s e = some s') : (s'.slots id).Sound fires s'.clock := by
  cases e with
  | addTask other cron recurring now =>
    obtain ⟨⟨hle, hnone⟩, hs'⟩ := ite_none_right_eq_some.mp hstep
    cases hs'
    have hmono := h.mono hle
    apply CronSession.modify_sound hmono
    intro heq
    subst heq
    exact hmono.addTask hnone rfl le_rfl
  | removeTask other =>
    cases hstep
    apply CronSession.modify_sound h
    intro heq
    subst heq
    exact h.of_keeps (fun hslot => by rw [hslot]; rfl) (removeTask_added _)
      fun _ _ hacc => hacc.removeTask
  | tick now idle =>
    obtain ⟨hle, hs'⟩ := ite_none_right_eq_some.mp hstep
    cases hs'
    cases idle with
    | false => exact h.mono hle
    | true =>
      exact h.of_keeps (fun hslot => by dsimp only; rw [if_pos rfl, hslot]; rfl)
        (processDue_added rules now _)
        fun _ hrec hacc => hacc.processDue law hrec hle (hcond rfl)
  | settled other i delivered =>
    obtain ⟨slot, hslot, hs'⟩ := map_eq_some_iff.mp hstep
    subst hs'
    apply CronSession.modify_sound h
    intro heq
    subst heq
    exact h.of_keeps (fun hempty => by rw [hempty] at hslot; cases hslot)
      (settled_added hslot) fun _ hrec hacc => hacc.settled hrec hslot
  | written other ok =>
    obtain ⟨slot, hslot, hs'⟩ := map_eq_some_iff.mp hstep
    subst hs'
    apply CronSession.modify_sound h
    intro heq
    subst heq
    have hok : ok = true := hcond rfl
    subst hok
    obtain ⟨hadded, hqueue⟩ := written_eq_some hslot
    exact h.of_keeps (fun hempty => absurd (by rw [hempty]) hqueue) hadded
      fun _ _ hacc => hacc.written hslot
  | start =>
    obtain rfl := some.inj hstep
    exact h
  | stop =>
    cases hstep
    exact h.of_keeps (fun hslot => by dsimp only; rw [hslot]; rfl) rfl fun _ _ hacc => hacc.stop
  | loadFromStore replace =>
    cases hstep
    refine h.of_keeps (fun hslot => ?_) rfl fun _ _ hacc => ?_
    · dsimp only
      rw [hslot]
      cases replace <;> rfl
    · dsimp only
      rw [hacc.load hcond]
      exact hacc

theorem CronRules.run_sound (law : rules.Lawful fires) (hrun : events.foldlM rules.step {} = some s)
    (halong : AlongRun rules.step (Undisturbed id) {} events) :
    (s.slots id).Sound fires s.clock := by
  apply halong.invariant (I := fun s => (s.slots id).Sound fires s.clock) ?_ (.inl rfl) hrun
  intro s e s' h hcond hstep
  exact rules.step_sound law h hcond hstep

/-- A tick on an idle loop delivers a task with no delivery under way exactly when it is reported
to be due. -/
theorem CronSlot.Accounted.due_iff {added : CronTask} (h : slot.Accounted fires clock added)
    (hnow : clock ≤ now) (hasked : clock ≤ asked) (hnone : slot.deliveries = []) :
    (rules.processDue now slot).deliveries ≠ [] ↔
      ∃ nextFireAt ∈ rules.nextFireFor asked slot, nextFireAt ≤ (now : ℚ) := by
  have hidle : slot.inFlight = false := by
    apply Bool.eq_false_of_not_eq_true
    intro hmark
    exact h.marked hmark hnone
  unfold CronRules.processDue CronRules.nextFireFor
  cases htask : slot.task with
  | none => simp [hnone]
  | some task =>
    dsimp only
    rw [bind_some, h.seed_lastSeenAt hnow htask, h.reported_cursor hasked htask, hidle]
    cases rules.parseCronExpression task.cron with
    | false => simp [hnone]
    | true =>
      simp only [Bool.false_eq_true, if_false, Bool.not_true]
      cases rules.computeJitteredNext task (baseFromMs task slot.lastFired) with
      | none => simp [CronSlot.seed, hnone]
      | some nextFireAt =>
        dsimp only
        split
        · rename_i hlate
          simp [CronSlot.seed, hnone, not_le.mpr hlate]
        · rename_i hdue
          simp [le_of_not_gt hdue]

end

/-- Every tenth millisecond. -/
def everyTen : CronRules where
  parseCronExpression _ := true
  computeNextCronRun _ fromMs := some ((fromMs / 10 + 1) * 10)
  jitteredNextCronRunMs _ ideal := ideal
  oneShotJitteredNextCronRunMs _ ideal := ideal

theorem everyTen_lawful : everyTen.Lawful (fun _ n => n % 10 = 0) where
  later := by
    intro cron a b h
    have hb : (a / 10 + 1) * 10 = b := some.inj h
    omega
  next := by
    intro cron a b h
    have hb : (a / 10 + 1) * 10 = b := some.inj h
    omega
  least := by
    intro cron a b h n han hnb
    have hb : (a / 10 + 1) * 10 = b := some.inj h
    omega
  forward := by
    intro task ideal _
    exact le_refl _

def restartedRun : List CronEvent :=
  [.addTask "a" "every" none 3, .tick 25 true, .settled "a" 0 true, .written "a" true,
   .written "a" true, .stop, .loadFromStore true, .start, .tick 31 true, .settled "a" 0 false,
   .tick 42 true, .settled "a" 0 true]

def restarted : CronSession := (restartedRun.foldlM everyTen.step {}).getD {}

theorem restarted_run : restartedRun.foldlM everyTen.step {} = some restarted := by
  have hsome : (restartedRun.foldlM everyTen.step {}).isSome := by decide +kernel
  rw [restarted, ← get_eq_getD (h := hsome), some_get]

theorem restarted_added : (restarted.slots "a").added = some { id := "a", cron := "every", createdAt := 3 } := by
  decide +kernel

end Echadron.Session
