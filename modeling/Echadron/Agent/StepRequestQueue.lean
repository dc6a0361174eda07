import Echadron.Agent.LoopService
import Echadron.Lib.JsMap

namespace Echadron.Agent
open Lib

/-! The requests for steps, and the queues in which they wait. -/

/-- What does not change of a request. It can start a turn if it has a seed. -/
structure StepRequest where
  id : Nat
  mergeable : Bool := false
  turnScoped : Bool := true
  admission : StepAdmission := .activeOrNextTurn
  turnSeed : Bool := false
deriving DecidableEq

inductive QueueEnd where
  | head
  | tail
deriving DecidableEq

structure StepRequestBatch where
  driver : StepRequest
  merged : List StepRequest
deriving DecidableEq

def StepRequestBatch.requests (batch : StepRequestBatch) : List StepRequest := batch.driver :: batch.merged

/-- The aborted requests are known by their ids. -/
abbrev StepRequestQueue := List StepRequest

namespace StepRequestQueue

def enqueue (items : StepRequestQueue) (request : StepRequest) : QueueEnd → StepRequestQueue
  | .head => request :: items
  | .tail => items ++ [request]

def discardAborted (aborted : List Nat) (items : StepRequestQueue) : StepRequestQueue :=
  items.filter fun item => item.id ∉ aborted

def hasPendingRequests (aborted : List Nat) (items : StepRequestQueue) : Bool :=
  items.any fun item => item.id ∉ aborted

def driverIndex (items : StepRequestQueue) : Nat := (items.findIdx? fun item => !item.mergeable).getD 0

def takeNextBatch (aborted : List Nat) (items : StepRequestQueue) : Option (StepRequestBatch × StepRequestQueue) :=
  let items := discardAborted aborted items
  (items[driverIndex items]?).map fun driver =>
    let others := items.eraseIdx (driverIndex items)
    ({ driver := driver, merged := others.filter (·.mergeable) }, others.filter (!·.mergeable))

end StepRequestQueue

inductive StepState where
  | queued
  | running
  | completed
  | failed
  | cancelled
deriving DecidableEq

structure TurnJob where
  id : Nat
  request : StepRequest
  queue : StepRequestQueue := []
  steps : JsMap Nat StepState := .empty
  aborted : Bool := false

/-- The loop as far as it deals with step requests. Every request is in `accepted` once its sender
has a receipt; `offered` are the ones that a turn was assigned, `withdrawn` those that their senders
aborted, and `refused` those that could not be admitted after they had been held. -/
structure StepLoop where
  standaloneStepQueue : StepRequestQueue := []
  pendingTurns : List TurnJob := []
  activeTurnJob : Option TurnJob := none
  heldAdmissions : List (StepRequest × QueueEnd) := []
  quiescenceDepth : Nat := 0
  nextTurnId : Nat := 0
  /-- The run of the active turn has not ended. -/
  running : Bool := false
  /-- The driver of the step that is executed. -/
  current : Option StepRequest := none
  aborted : List Nat := []
  materialized : List Nat := []
  accepted : List StepRequest := []
  offered : List StepRequest := []
  withdrawn : List Nat := []
  refused : List Nat := []

inductive RunEnd where
  | completed
  | hookStop
  | failed
  | cancelled
deriving DecidableEq

inductive StepEvent where
  | enqueue (request : StepRequest) (place : QueueEnd)
  /-- The sender aborts its request. -/
  | withdraw (request : Nat)
  | cancel (turnId : Option Nat)
  | beginStep
  | completeStep
  /-- An error handler has the failed driver tried again, or just goes on. -/
  | recover (retry : Option QueueEnd)
  | endRun (result : RunEnd)
  | release
  | pump
  | acquireQuiescence
  | releaseQuiescence
deriving DecidableEq

namespace TurnJob

def enqueueStep (job : TurnJob) (request : StepRequest) (place : QueueEnd) : TurnJob :=
  { job with
    queue := job.queue.enqueue request place
    steps := job.steps.set request.id .queued }

def cancellable (job : TurnJob) : List Nat :=
  (job.steps.entries.filter fun e => e.2 = .queued ∨ e.2 = .running).map Prod.fst

end TurnJob

namespace StepLoop

def Pending (s : StepLoop) (request : Nat) : Prop := request ∉ s.aborted ∧ request ∉ s.materialized

instance decidable_pending (s : StepLoop) (request : Nat) : Decidable (s.Pending request) :=
  inferInstanceAs (Decidable (_ ∧ _))

section

variable (s : StepLoop)

def abort (requests : List Nat) : StepLoop :=
  { s with aborted := s.aborted ++ requests.filter fun r => r ∉ s.materialized }

def assignStep (job : TurnJob) (request : StepRequest) (place : QueueEnd) : StepLoop :=
  { s with
    activeTurnJob := some (job.enqueueStep request place)
    offered := s.offered ++ [request] }

def pumpTurns : StepLoop :=
  if 0 < s.quiescenceDepth ∨ s.activeTurnJob.isSome then s
  else
    match s.pendingTurns with
    | [] => s
    | job :: pendingTurns =>
      { s with
        pendingTurns := pendingTurns
        activeTurnJob := some job
        running := true
        current := none }

/-- A new turn has its own request first, then the ones that waited for a turn. -/
def createPendingTurn (request : StepRequest) : StepLoop :=
  let moved := s.standaloneStepQueue.discardAborted s.aborted
  { s with
    nextTurnId := s.nextTurnId + 1
    standaloneStepQueue := []
    pendingTurns := s.pendingTurns ++ [(request :: moved).foldl (fun job r => job.enqueueStep r .tail)
        { id := s.nextTurnId, request := request }]
    offered := s.offered ++ request :: moved }

def createAndQueueTurn (request : StepRequest) : Option StepLoop :=
  if request.turnSeed then some (s.createPendingTurn request).pumpTurns else none

/-- `admit`. `none` is the error of a request that needs what is not there. -/
def admitRequest (request : StepRequest) (place : QueueEnd) : Option StepLoop :=
  match request.admission, s.activeTurnJob with
  | .newTurn, _ => s.createAndQueueTurn request
  | .activeOrNewTurn, none => s.createAndQueueTurn request
  | .activeOrNextTurn, none => some { s with standaloneStepQueue := s.standaloneStepQueue.enqueue request place }
  | .activeTurnOnly, none => none
  | _, some job => some (s.assignStep job request place)

def hasPendingRequests : Bool :=
  (s.activeTurnJob.any fun job => job.queue.hasPendingRequests s.aborted) ||
    s.standaloneStepQueue.hasPendingRequests s.aborted || !s.pendingTurns.isEmpty ||
    s.heldAdmissions.any fun h => h.1.id ∉ s.aborted

def cancelSteps (job : TurnJob) : StepLoop := s.abort job.cancellable

def cancelQueuedTurn (turnId : Nat) : StepLoop :=
  match s.pendingTurns.find? fun job => job.id = turnId with
  | none => s
  | some job => { s with pendingTurns := s.pendingTurns.eraseP fun job => job.id = turnId }.cancelSteps job

def cancel (turnId : Option Nat) : StepLoop :=
  match s.activeTurnJob with
  | some job =>
    if turnId.all (· = job.id) then { s with activeTurnJob := some { job with aborted := true } }
    else turnId.elim s s.cancelQueuedTurn
  | none => turnId.elim s s.cancelQueuedTurn

end

def cancelStep (job : TurnJob) (request : Nat) : TurnJob :=
  if request ∈ job.cancellable then { job with steps := job.steps.set request .cancelled } else job

def abortRequest (s : StepLoop) (request : Nat) : StepLoop :=
  let s := { s with withdrawn := s.withdrawn ++ [request] }
  if s.heldAdmissions.any (fun h => h.1.id = request) then
    { s with heldAdmissions := s.heldAdmissions.eraseP fun h => h.1.id = request }.abort [request]
  else
    match s.activeTurnJob.filter fun job => request ∈ job.steps.keys with
    | some job =>
      if request ∈ job.cancellable then
        { s with activeTurnJob := some (cancelStep job request) }.abort [request]
      else s
    | none =>
      match s.pendingTurns.find? fun job => job.request.id = request ∨ request ∈ job.steps.keys with
      | some job =>
        if job.request.id = request then s.cancelQueuedTurn job.id
        else if request ∈ job.cancellable then
          { s with
            pendingTurns := s.pendingTurns.map fun (j : TurnJob) =>
              if j.id = job.id then cancelStep j request else j }.abort [request]
        else s
      | none => s.abort [request]

def admitHeld (s : StepLoop) (held : StepRequest × QueueEnd) : StepLoop :=
  if held.1.id ∈ s.aborted then s
  else
    match s.admitRequest held.1 held.2 with
    | some s => s
    | none => { s with refused := s.refused ++ [held.1.id] }.abort [held.1.id]

def admitAllHeld (s : StepLoop) : StepLoop :=
  (s.heldAdmissions.foldl admitHeld { s with heldAdmissions := [] }).pumpTurns

/-- A request that cannot be admitted is an error to its sender. -/
def accept (s : StepLoop) (request : StepRequest) (place : QueueEnd) : StepLoop :=
  if 0 < s.quiescenceDepth then
    { s with
      heldAdmissions := s.heldAdmissions ++ [(request, place)]
      accepted := s.accepted ++ [request] }
  else ({ s with accepted := s.accepted ++ [request] }.admitRequest request place).getD s

def step (s : StepLoop) : StepEvent → Option StepLoop
  | .enqueue request place =>
    if request.id ∈ s.accepted.map StepRequest.id then none
    else some (s.accept request place)
  | .withdraw request => if request ∈ s.accepted.map StepRequest.id then some (s.abortRequest request) else none
  | .cancel turnId => some (s.cancel turnId)
  | .beginStep =>
    match s.activeTurnJob with
    | none => none
    | some job =>
      if !s.running || s.current.isSome || job.aborted then none
      else
        (job.queue.takeNextBatch s.aborted).map fun (batch, rest) =>
          { s with
            activeTurnJob := some { job with
              queue := rest
              steps := job.steps.set batch.driver.id .running }
            current := some batch.driver
            materialized := s.materialized ++
              (batch.requests.map StepRequest.id).filter fun r => r ∉ s.materialized }
  | .completeStep =>
    match s.activeTurnJob, s.current with
    | some job, some driver =>
      some { s with
        activeTurnJob := some { job with steps := job.steps.set driver.id .completed }
        current := none }
    | _, _ => none
  | .recover retry =>
    match s.activeTurnJob, s.current with
    | some job, some driver =>
      some { s with
        activeTurnJob := some (retry.elim job fun place => job.enqueueStep driver place)
        current := none }
    | _, _ => none
  | .endRun result =>
    match s.activeTurnJob with
    | none => none
    | some job =>
      if !s.running then none
      else if result = .completed ∧ (s.current.isSome ∨ job.queue.hasPendingRequests s.aborted) then none
      else if result = .hookStop ∧ s.current.isNone then none
      else
        let job := s.current.elim job fun driver =>
          if result = .hookStop then { job with steps := job.steps.set driver.id .completed } else job
        let s := s.abort ((job.queue.filter (·.turnScoped)).map StepRequest.id)
        some { s with
          activeTurnJob := some { job with queue := job.queue.discardAborted s.aborted }
          running := false
          current := none }
  | .release =>
    match s.activeTurnJob with
    | none => none
    | some job =>
      if s.running then none
      else some ({ s with activeTurnJob := none }.cancelSteps job)
  | .pump => some s.pumpTurns
  | .acquireQuiescence =>
    if s.activeTurnJob.isSome || s.hasPendingRequests then none
    else some { s with quiescenceDepth := s.quiescenceDepth + 1 }
  | .releaseQuiescence =>
    if s.quiescenceDepth = 0 then none
    else if 1 < s.quiescenceDepth then some { s with quiescenceDepth := s.quiescenceDepth - 1 }
    else some ({ s with quiescenceDepth := 0 }.pumpTurns.admitAllHeld)

end StepLoop
end Echadron.Agent
