import Mathlib.Algebra.Order.Ring.Unbundled.Rat
import Echadron.Lib.Intervals

namespace Echadron.Session

/-! The scheduling of cron tasks. What the service keeps by task id is one slot for each id. -/

def STALE_THRESHOLD_MS : Nat := 7 * 24 * 60 * 60 * 1000

def MAX_COALESCE_ITERATIONS : Nat := 10000

structure CronTask where
  id : String
  cron : String
  createdAt : Nat
  recurring : Option Bool := none
  lastFiredAt : Option Nat := none
deriving DecidableEq

def CronTask.isRecurring (task : CronTask) : Bool := task.recurring != some false

/-- The fire times and the jitter as given functions, and the configuration. -/
structure CronRules where
  parseCronExpression : String → Bool
  computeNextCronRun : String → Nat → Option Nat
  jitteredNextCronRunMs : CronTask → Nat → ℚ
  oneShotJitteredNextCronRunMs : CronTask → Nat → ℚ
  noStale : Bool := false

/-- A delivery under way. -/
structure CronDelivery where
  task : CronTask
  now : Nat
  baseFromMs : Nat
  coalescedCount : Nat
  lastDueMs : Option Nat
  stale : Bool
deriving DecidableEq

/-- A delivered fire, which covers the fire times after `after` and not after `upTo`. -/
structure CronFire where
  after : Nat
  upTo : Nat
  coalescedCount : Nat
deriving DecidableEq

structure CronSlot where
  task : Option CronTask := none
  lastSeenAt : Option Nat := none
  seededFromStore : Bool := false
  inFlight : Bool := false
  deliveries : List CronDelivery := []
  /-- The document of the task in the store, and the writes that wait for it. -/
  stored : Option CronTask := none
  persistQueue : List (Option CronTask) := []
  /-- The task as it was added, and the fires delivered since. -/
  added : Option CronTask := none
  fired : List CronFire := []
deriving DecidableEq

section

variable (slot : CronSlot)

def CronSlot.persistEnqueue (work : Option CronTask) : CronSlot :=
  { slot with persistQueue := slot.persistQueue ++ [work] }

def CronSlot.addTask (task : CronTask) : CronSlot :=
  { slot with task := some task, added := some task }.persistEnqueue (some task)

def CronSlot.removeTask : CronSlot :=
  if slot.task.isSome then { slot with task := none }.persistEnqueue none else slot

def CronSlot.markFired (lastFiredAt : Nat) : Option CronTask :=
  slot.task.map fun existing => { existing with lastFiredAt := some lastFiredAt }

def CronSlot.advanceCursor (lastFiredAt : Nat) : CronSlot :=
  match slot.markFired lastFiredAt with
  | none => slot
  | some updated => { slot with task := some updated }.persistEnqueue (some updated)

def CronSlot.written (ok : Bool) : Option CronSlot :=
  match slot.persistQueue with
  | [] => none
  | work :: queue =>
    some { slot with
      persistQueue := queue
      stored := if ok then work else slot.stored }

def CronSlot.load (replace : Bool) : CronSlot :=
  { slot with task := if replace then slot.stored else slot.stored.or slot.task }

def CronSlot.stop : CronSlot :=
  { slot with
    inFlight := false
    lastSeenAt := none
    seededFromStore := false }

/-- What `processDue` takes over from the persisted cursor. -/
def CronSlot.seed (task : CronTask) (now : Nat) : CronSlot :=
  { slot with
    seededFromStore := true
    lastSeenAt :=
      if !slot.seededFromStore && slot.lastSeenAt.isNone then
        task.lastFiredAt.filter fun at' => at' ≤ now
      else slot.lastSeenAt }

end

def baseFromMs (task : CronTask) (cursor : Option Nat) : Nat :=
  match cursor with
  | none => task.createdAt
  | some seen => if task.createdAt < seen then seen else task.createdAt

namespace CronRules

def jittered (rules : CronRules) (task : CronTask) (ideal : Nat) : ℚ :=
  if task.recurring = some false then rules.oneShotJitteredNextCronRunMs task ideal
  else rules.jitteredNextCronRunMs task ideal

def computeJitteredNext (rules : CronRules) (task : CronTask) (baseMs : Nat) : Option ℚ :=
  (rules.computeNextCronRun task.cron baseMs).map (rules.jittered task)

/-- The loop of `countCoalesced`, with the iterations left. -/
def coalesce (rules : CronRules) (task : CronTask) (nowMs : Nat) : Nat → Nat → Nat → Nat × Nat
  | 0, count, cursor => (count, cursor)
  | left + 1, count, cursor =>
    match rules.computeNextCronRun task.cron cursor with
    | none => (count, cursor)
    | some next =>
      if nowMs < next then (count, cursor)
      else if (nowMs : ℚ) < rules.jittered task next then (count, cursor)
      else coalesce rules task nowMs left (count + 1) next

def countCoalesced (rules : CronRules) (task : CronTask) (firstFireMs nowMs : Nat) : Nat × Nat :=
  rules.coalesce task nowMs (MAX_COALESCE_ITERATIONS - 1) 1 firstFireMs

def isStaleAt (rules : CronRules) (task : CronTask) (now : Nat) : Bool :=
  if rules.noStale then false
  else if task.recurring = some false then false
  else decide ((STALE_THRESHOLD_MS : Int) ≤ (now : Int) - task.createdAt)

def deliverDue (rules : CronRules) (task : CronTask) (now base : Nat) : CronDelivery :=
  let result := (rules.computeNextCronRun task.cron base).bind fun ideal =>
    if task.isRecurring then some (rules.countCoalesced task ideal now) else none
  { task
    now
    baseFromMs := base
    coalescedCount := max 1 ((result.map Prod.fst).getD 1)
    lastDueMs := result.map Prod.snd
    stale := rules.isStaleAt task now }

def processDue (rules : CronRules) (now : Nat) (slot : CronSlot) : CronSlot :=
  match slot.task with
  | none => slot
  | some task =>
    if slot.inFlight then slot
    else if !rules.parseCronExpression task.cron then slot
    else
      let seeded := slot.seed task now
      let base := baseFromMs task seeded.lastSeenAt
      match rules.computeJitteredNext task base with
      | none => seeded
      | some nextFireAt =>
        if (now : ℚ) < nextFireAt then seeded
        else { seeded with
          inFlight := true
          deliveries := slot.deliveries ++ [rules.deliverDue task now base] }

/-- What `getNextFireForTask` reports. -/
def nextFireFor (rules : CronRules) (wallNow : Nat) (slot : CronSlot) : Option ℚ :=
  slot.task.bind fun task =>
    if rules.parseCronExpression task.cron then
      rules.computeJitteredNext task
        (baseFromMs task (slot.lastSeenAt.or (task.lastFiredAt.filter fun at' => at' ≤ wallNow)))
    else none

end CronRules

def CronSlot.fire (slot : CronSlot) (fire : CronFire) : CronSlot := { slot with fired := slot.fired ++ [fire] }

/-- The rest of `deliverDue` and `processDue` once the prompt is injected or has failed. -/
def CronSlot.settle (slot : CronSlot) (delivery : CronDelivery) (delivered : Bool) : CronSlot :=
  if !delivered then { slot with inFlight := false }
  else
    let kept := { (if delivery.stale && delivery.task.isRecurring then slot.removeTask else slot) with
      inFlight := false }
    if delivery.task.recurring = some false then
      { kept.removeTask with
        lastSeenAt := none
        seededFromStore := false }
    else
      let advancedTo := delivery.lastDueMs.getD delivery.now
      { kept.fire ⟨delivery.baseFromMs, advancedTo, delivery.coalescedCount⟩ with
        lastSeenAt := some advancedTo }.advanceCursor advancedTo

def CronSlot.settled (slot : CronSlot) (i : Nat) (delivered : Bool) : Option CronSlot :=
  slot.deliveries[i]?.map fun delivery =>
    { slot with deliveries := slot.deliveries.eraseIdx i }.settle delivery delivered

structure CronSession where
  slots : String → CronSlot := fun _ => {}
  clock : Nat := 0
  started : Bool := false

inductive CronEvent where
  | addTask (id cron : String) (recurring : Option Bool) (now : Nat)
  | removeTask (id : String)
  /-- A tick, with scheduling enabled, a main agent there and its loop idle, or else not. -/
  | tick (now : Nat) (idle : Bool)
  | settled (id : String) (i : Nat) (delivered : Bool)
  | written (id : String) (ok : Bool)
  | start
  | stop
  | loadFromStore (replace : Bool)

def CronSession.modify (s : CronSession) (id : String) (slot : CronSlot) : CronSession :=
  { s with slots := fun other => if other = id then slot else s.slots other }

/-- Time does not run backwards, and no id is given twice. -/
def CronRules.step (rules : CronRules) (s : CronSession) : CronEvent → Option CronSession
  | .addTask id cron recurring now =>
    if s.clock ≤ now ∧ (s.slots id).added = none then
      let task := { id, cron, createdAt := now, recurring }
      some { s.modify id ((s.slots id).addTask task) with clock := now }
    else none
  | .removeTask id => some (s.modify id (s.slots id).removeTask)
  | .tick now idle =>
    if s.clock ≤ now then
      some { s with
        slots := if idle then fun id => rules.processDue now (s.slots id) else s.slots
        clock := now }
    else none
  | .settled id i delivered => ((s.slots id).settled i delivered).map (s.modify id)
  | .written id ok => ((s.slots id).written ok).map (s.modify id)
  | .start => some { s with started := true }
  | .stop => some { s with slots := fun id => (s.slots id).stop, started := false }
  | .loadFromStore replace => some { s with slots := fun id => (s.slots id).load replace }

end Echadron.Session
