import Echadron.Agent.StepRequestQueue
import Mathlib.Data.List.Perm.Basic

namespace Echadron.Agent
open Lib List Option

namespace StepLoop

/-! Where a request is. -/

def jobs (s : StepLoop) : List TurnJob := s.activeTurnJob.toList ++ s.pendingTurns

/-- The requests that no turn has been assigned. -/
def waiting (s : StepLoop) : List StepRequest := s.heldAdmissions.map Prod.fst ++ s.standaloneStepQueue

def queued (s : StepLoop) : List StepRequest := s.jobs.flatMap TurnJob.queue

def Live (s : StepLoop) (r : StepRequest) : Prop :=
  r.turnScoped = false ∧ r.id ∉ s.materialized ∧ r.id ∉ s.withdrawn ∧ r.id ∉ s.refused

/-- A live request is in one place, once; it does not wait while there is a turn; and no request has
been assigned twice. -/
structure CarriedOver (s : StepLoop) : Prop where
  placed : ∀ r ∈ s.accepted, s.Live r → r.id ∉ s.aborted ∧ (s.waiting ++ s.queued).count r = 1
  next : ∀ r ∈ s.standaloneStepQueue, r.turnScoped = false → r.id ∉ s.aborted →
    s.activeTurnJob = none ∧ s.pendingTurns = []
  once : s.offered.Nodup

/-- No agent-scoped request is dropped with a turn: none is queued in an active turn when it is
released, nor in a queued turn when that is cancelled, save the one whose sender asks for it; and
none is left to the next turn when a turn already waits to start. -/
def Meets (s : StepLoop) : StepEvent → Prop
  | .enqueue r _ => r.turnScoped = false → r.admission = .activeOrNextTurn → s.quiescenceDepth = 0 →
      s.activeTurnJob = none → s.pendingTurns = []
  | .withdraw request => ∀ job ∈ s.pendingTurns, job.request.id = request →
      ∀ r ∈ job.queue, r.turnScoped = false → s.Pending r.id → r.id = request
  | .cancel turnId => ∀ job ∈ s.pendingTurns, turnId = some job.id →
      ∀ r ∈ job.queue, r.turnScoped = false → ¬ s.Pending r.id
  | .release => ∀ job ∈ s.activeTurnJob, ∀ r ∈ job.queue, r.turnScoped = false → ¬ s.Pending r.id
  | _ => True

/-- What every run keeps, while the requests `loose` are on their way into a queue. -/
structure Inv (s : StepLoop) (loose : List StepRequest) : Prop where
  ids : (s.accepted.map StepRequest.id).Nodup
  known : ∀ r ∈ loose ++ s.waiting ++ s.offered, r ∈ s.accepted
  nodup : (loose ++ s.waiting ++ s.offered).Nodup
  queued : ∀ r ∈ s.queued, r ∈ s.offered
  current : ∀ d ∈ s.current, d ∈ s.offered ∧ d.id ∈ s.materialized
  settled : ∀ id ∈ s.aborted ++ s.materialized, id ∈ s.accepted.map StepRequest.id
  keys : ∀ job ∈ s.jobs, ∀ id ∈ job.steps.keys, id ∈ s.accepted.map StepRequest.id ∧
    (s.Pending id → id ∈ job.queue.map StepRequest.id)
  turns : (s.jobs.map TurnJob.id).Nodup
  bound : ∀ job ∈ s.jobs, job.id < s.nextTurnId
  quiet : 0 < s.quiescenceDepth → s.jobs = []
  next : ∀ r ∈ s.standaloneStepQueue, r.turnScoped = false → r.id ∉ s.aborted → s.jobs = []
  placed : ∀ r ∈ s.accepted, s.Live r → r.id ∉ s.aborted ∧ (loose ++ s.waiting ++ s.queued).count r = 1

section

variable {s : StepLoop}

theorem jobs_eq_nil : s.jobs = [] ↔ s.activeTurnJob = none ∧ s.pendingTurns = [] := by
  rw [jobs, append_eq_nil_iff, toList_eq_nil_iff]

theorem jobs_active (h : s.activeTurnJob = some job) : s.jobs = job :: s.pendingTurns := by
  rw [jobs, h]
  rfl

theorem Inv.carriedOver (h : s.Inv []) : s.CarriedOver where
  placed := h.placed
  next := fun r hr hscope habort => jobs_eq_nil.mp (h.next r hr hscope habort)
  once := (nodup_append.mp h.nodup).2.1

theorem Inv.eq_of_id (h : s.Inv loose) (hr : r ∈ s.accepted) (hr' : r' ∈ s.accepted) (hid : r.id = r'.id) : r = r' :=
  inj_on_of_nodup_map h.ids hr hr' hid

theorem Inv.queued_known (h : s.Inv loose) (hr : r ∈ s.queued) : r ∈ s.accepted :=
  h.known r (mem_append_right _ (h.queued r hr))

theorem mem_queued (hjob : job ∈ s.jobs) (hr : r ∈ job.queue) : r ∈ s.queued := mem_flatMap.mpr ⟨job, hjob, hr⟩

end

theorem mem_enqueue (items : StepRequestQueue) (request : StepRequest) (place : QueueEnd) :
    r ∈ items.enqueue request place ↔ r = request ∨ r ∈ items := by
  cases place with
  | head => exact mem_cons
  | tail => rw [StepRequestQueue.enqueue, mem_snoc, or_comm]

theorem enqueue_perm (items : StepRequestQueue) (request : StepRequest) (place : QueueEnd) :
    (items.enqueue request place).Perm (request :: items) := by
  cases place with
  | head => exact .refl _
  | tail => exact perm_append_singleton ..

theorem pumpTurns_cases (s : StepLoop) :
    s.pumpTurns = s ∧ (s.quiescenceDepth = 0 → s.activeTurnJob = none → s.pendingTurns = []) ∨
    ∃ job pendingTurns, s.quiescenceDepth = 0 ∧ s.activeTurnJob = none ∧ s.pendingTurns = job :: pendingTurns ∧
      s.pumpTurns = { s with
        pendingTurns := pendingTurns
        activeTurnJob := some job
        running := true
        current := none } := by
  rw [pumpTurns]
  split
  next hstay =>
    refine .inl ⟨rfl, fun hdepth hactive => ?_⟩
    rw [hdepth, hactive] at hstay
    exact absurd hstay (by decide)
  next hgo =>
    have hdepth : s.quiescenceDepth = 0 := Nat.eq_zero_of_not_pos fun h => hgo (.inl h)
    have hactive : s.activeTurnJob = none := not_isSome_iff_eq_none.mp fun h => hgo (.inr h)
    cases hpending : s.pendingTurns with
    | nil => exact .inl ⟨rfl, fun _ _ => rfl⟩
    | cons job pendingTurns => exact .inr ⟨job, pendingTurns, hdepth, hactive, rfl, rfl⟩

theorem jobs_pumpTurns (s : StepLoop) : s.pumpTurns.jobs = s.jobs := by
  rcases pumpTurns_cases s with ⟨hsame, -⟩ | ⟨job, pendingTurns, -, hactive, hpending, hpump⟩
  · rw [hsame]
  · rw [hpump, jobs, jobs, hactive, hpending]
    rfl

theorem Inv.pump {s : StepLoop} (h : s.Inv loose) : s.pumpTurns.Inv loose := by
  have hjobs := jobs_pumpTurns s
  rcases pumpTurns_cases s with ⟨hsame, -⟩ | ⟨job, pendingTurns, -, -, -, hpump⟩
  · rw [hsame]
    exact h
  · rw [hpump] at hjobs ⊢
    refine { h with queued := ?_, current := ?_, keys := ?_, turns := ?_, bound := ?_, quiet := ?_, next := ?_, placed := ?_ }
    · rw [StepLoop.queued, hjobs]
      exact h.queued
    · exact nofun
    · rw [hjobs]
      exact h.keys
    · rw [hjobs]
      exact h.turns
    · rw [hjobs]
      exact h.bound
    · rw [hjobs]
      exact h.quiet
    · rw [hjobs]
      exact h.next
    · rw [StepLoop.queued, hjobs]
      exact h.placed

theorem Inv.assign {s : StepLoop} (h : s.Inv (r :: loose)) (hactive : s.activeTurnJob = some job)
    (place : QueueEnd) : (s.assignStep job r place).Inv loose := by
  have hjobs := jobs_active hactive
  have hqueued : (s.assignStep job r place).queued.Perm (r :: s.queued) := by
    rw [StepLoop.queued, StepLoop.queued, hjobs]
    exact (enqueue_perm job.queue r place).append_right _
  have hloose : r ∈ s.accepted := h.known r (mem_append_left _ (mem_append_left _ (mem_cons_self ..)))
  constructor
  · exact h.ids
  · intro x hx
    change x ∈ loose ++ s.waiting ++ (s.offered ++ [r]) at hx
    rw [← append_assoc, mem_snoc] at hx
    rcases hx with hx | rfl
    · exact h.known x (mem_cons_of_mem _ hx)
    · exact hloose
  · change (loose ++ s.waiting ++ (s.offered ++ [r])).Nodup
    rw [← append_assoc, (perm_append_singleton ..).nodup_iff]
    exact h.nodup
  · intro x hx
    rcases mem_cons.mp (hqueued.mem_iff.mp hx) with rfl | hx
    · exact mem_concat_self
    · exact mem_append_left _ (h.queued x hx)
  · intro d hd
    exact ⟨mem_append_left _ (h.current d hd).1, (h.current d hd).2⟩
  · exact h.settled
  · intro job' hjob' id hid
    have hkeys := h.keys
    rw [hjobs] at hkeys
    rcases mem_cons.mp hjob' with rfl | hjob'
    · rw [TurnJob.enqueueStep, JsMap.mem_keys_set] at hid
      rcases hid with rfl | hid
      · exact ⟨mem_map_of_mem hloose, fun _ => mem_map_of_mem ((mem_enqueue ..).mpr (.inl rfl))⟩
      · obtain ⟨hknown, hqueue⟩ := hkeys job (mem_cons_self ..) id hid
        refine ⟨hknown, fun hpending => ?_⟩
        obtain ⟨x, hx, hxid⟩ := mem_map.mp (hqueue hpending)
        exact mem_map.mpr ⟨x, (mem_enqueue ..).mpr (.inr hx), hxid⟩
    · exact hkeys job' (mem_cons_of_mem _ hjob') id hid
  · have hturns := h.turns
    rw [hjobs] at hturns
    exact hturns
  · intro job' hjob'
    have hbound := h.bound
    rw [hjobs] at hbound
    rcases mem_cons.mp hjob' with rfl | hjob'
    · exact hbound job (mem_cons_self ..)
    · exact hbound job' (mem_cons_of_mem _ hjob')
  · intro hdepth
    rw [h.quiet hdepth] at hjobs
    cases hjobs
  · intro x hx hscope habort
    rw [h.next x hx hscope habort] at hjobs
    cases hjobs
  · intro x hx hlive
    obtain ⟨habort, hcount⟩ := h.placed x hx hlive
    refine ⟨habort, ?_⟩
    change (loose ++ s.waiting ++ (s.assignStep job r place).queued).count x = 1
    rw [(hqueued.append_left (loose ++ s.waiting)).count_eq, perm_middle.count_eq]
    exact hcount

theorem Inv.await {s : StepLoop} (h : s.Inv (r :: loose)) (place : QueueEnd)
    (hjobs : r.turnScoped = false → s.jobs = []) :
    ({ s with standaloneStepQueue := s.standaloneStepQueue.enqueue r place } : StepLoop).Inv loose := by
  have hwaiting : (waiting { s with
      standaloneStepQueue := s.standaloneStepQueue.enqueue r place }).Perm (r :: s.waiting) :=
    ((enqueue_perm ..).append_left _).trans perm_middle
  have hmoved : ∀ xs, (loose ++ waiting { s with
      standaloneStepQueue := s.standaloneStepQueue.enqueue r place } ++ xs).Perm
        (r :: loose ++ s.waiting ++ xs) := fun xs =>
    ((hwaiting.append_left loose).trans perm_middle).append_right xs
  refine { h with known := ?_, nodup := ?_, next := ?_, placed := ?_ }
  · exact fun x hx => h.known x ((hmoved _).mem_iff.mp hx)
  · exact (hmoved _).nodup_iff.mpr h.nodup
  · intro x hx hscope habort
    rcases (mem_enqueue ..).mp hx with rfl | hx
    · exact hjobs hscope
    · exact h.next x hx hscope habort
  · intro x hx hlive
    obtain ⟨habort, hcount⟩ := h.placed x hx hlive
    refine ⟨habort, ?_⟩
    rw [(hmoved _).count_eq]
    exact hcount

theorem foldl_enqueueStep (rs : List StepRequest) (job : TurnJob) :
    (rs.foldl (fun job r => job.enqueueStep r .tail) job).queue = job.queue ++ rs ∧
      (∀ id, id ∈ (rs.foldl (fun job r => job.enqueueStep r .tail) job).steps.keys ↔
        id ∈ job.steps.keys ∨ id ∈ rs.map StepRequest.id) ∧
      (rs.foldl (fun job r => job.enqueueStep r .tail) job).id = job.id := by
  induction rs generalizing job with
  | nil => exact ⟨(append_nil _).symm, fun id => ⟨.inl, fun h => h.resolve_right nofun⟩, rfl⟩
  | cons r rs ih =>
    obtain ⟨hqueue, hkeys, hid⟩ := ih (job.enqueueStep r .tail)
    refine ⟨?_, fun id => ?_, hid⟩
    · rw [foldl_cons, hqueue]
      exact append_assoc job.queue [r] rs
    · rw [foldl_cons, hkeys, TurnJob.enqueueStep, JsMap.mem_keys_set, map_cons, mem_cons]
      tauto

theorem Inv.create {s : StepLoop} (h : s.Inv (r :: loose)) (hdepth : s.quiescenceDepth = 0) :
    (s.createPendingTurn r).Inv loose := by
  have hjob := foldl_enqueueStep (r :: s.standaloneStepQueue.discardAborted s.aborted)
    { id := s.nextTurnId, request := r }
  generalize hmoved : s.standaloneStepQueue.discardAborted s.aborted = moved at hjob
  have hsub : moved.Sublist s.standaloneStepQueue := by
    rw [← hmoved]
    exact filter_sublist ..
  have hstep : s.createPendingTurn r = { s with
      nextTurnId := s.nextTurnId + 1
      standaloneStepQueue := []
      pendingTurns := s.pendingTurns ++ [(r :: moved).foldl (fun job r => job.enqueueStep r .tail)
        { id := s.nextTurnId, request := r }]
      offered := s.offered ++ r :: moved } := by
    rw [createPendingTurn, hmoved]
  generalize (r :: moved).foldl (fun job r => TurnJob.enqueueStep job r .tail)
    { id := s.nextTurnId, request := r } = job at hjob hstep
  obtain ⟨hqueue, hkeys, hturn⟩ := hjob
  have hjobs : (s.createPendingTurn r).jobs = s.jobs ++ [job] := by
    rw [hstep, jobs, jobs, append_assoc]
  have hqueued : (s.createPendingTurn r).queued = s.queued ++ r :: moved := by
    rw [StepLoop.queued, hjobs, flatMap_append, flatMap_singleton, hqueue]
    rfl
  have hwaiting : (s.createPendingTurn r).waiting = s.heldAdmissions.map Prod.fst := by
    exact append_nil _
  have hold : (loose ++ (s.heldAdmissions.map Prod.fst ++ moved) ++ s.offered).Sublist
      (loose ++ s.waiting ++ s.offered) :=
    ((hsub.append_left _).append_left _).append_right _
  have hperm : (loose ++ s.heldAdmissions.map Prod.fst ++ (s.offered ++ r :: moved)).Perm
      (r :: (loose ++ (s.heldAdmissions.map Prod.fst ++ moved) ++ s.offered)) := by
    have hswap : (s.offered ++ moved).Perm (moved ++ s.offered) := perm_append_comm
    refine (perm_middle.append_left _).trans (perm_middle.trans (.cons _ ?_))
    rw [← append_assoc loose, append_assoc _ moved]
    exact hswap.append_left _
  rw [hstep] at hjobs hqueued hwaiting ⊢
  constructor
  · exact h.ids
  · intro x hx
    rw [hwaiting] at hx
    rcases mem_cons.mp (hperm.mem_iff.mp hx) with rfl | hx
    · exact h.known x (mem_append_left _ (mem_append_left _ (mem_cons_self ..)))
    · exact h.known x (mem_cons_of_mem _ (hold.subset hx))
  · rw [hwaiting]
    refine hperm.nodup_iff.mpr (List.Nodup.sublist ?_ h.nodup)
    exact hold.cons_cons r
  · intro x hx
    rw [hqueued] at hx
    rcases mem_append.mp hx with hx | hx
    · exact mem_append_left _ (h.queued x hx)
    · exact mem_append_right _ hx
  · intro d hd
    exact ⟨mem_append_left _ (h.current d hd).1, (h.current d hd).2⟩
  · exact h.settled
  · intro job' hjob' id hid
    rw [hjobs] at hjob'
    rcases mem_snoc.mp hjob' with hjob' | rfl
    · exact h.keys job' hjob' id hid
    · have hid' := ((hkeys id).mp hid).resolve_left (by intro hno; cases hno)
      refine ⟨?_, fun _ => by rw [hqueue]; exact hid'⟩
      obtain ⟨x, hx, rfl⟩ := mem_map.mp hid'
      refine mem_map_of_mem (h.known x ?_)
      rcases mem_cons.mp hx with rfl | hx
      · exact mem_append_left _ (mem_append_left _ (mem_cons_self ..))
      · exact mem_append_left _ (mem_append_right _ (mem_append_right _ (hsub.subset hx)))
  · rw [hjobs, map_append, nodup_append]
    refine ⟨h.turns, nodup_singleton _, ?_⟩
    intro id hid id' hid' he
    obtain ⟨job', hjob', rfl⟩ := mem_map.mp hid
    rw [map_singleton, mem_singleton, hturn] at hid'
    exact absurd (he.trans hid') (ne_of_lt (h.bound job' hjob'))
  · intro job' hjob'
    rw [hjobs] at hjob'
    rcases mem_snoc.mp hjob' with hjob' | hjob'
    · exact Nat.lt_succ_of_lt (h.bound job' hjob')
    · rw [hjob', hturn]
      exact Nat.lt_succ_self _
  · intro hpos
    exact absurd hdepth (ne_of_gt hpos)
  · exact nofun
  · intro x hx hlive
    obtain ⟨habort, hcount⟩ := h.placed x hx hlive
    refine ⟨habort, ?_⟩
    have hkept : moved.count x = s.standaloneStepQueue.count x := by
      rw [← hmoved]
      exact count_filter (decide_eq_true habort)
    rw [hwaiting, hqueued]
    rw [waiting] at hcount
    simp only [count_append, count_cons] at hcount ⊢
    omega

theorem Inv.admitRequest {s s' : StepLoop} (h : s.Inv (r :: loose)) (hdepth : s.quiescenceDepth = 0)
    (hnext : r.turnScoped = false → r.admission = .activeOrNextTurn → s.activeTurnJob = none →
      s.pendingTurns = []) (hadmitted : s.admitRequest r place = some s') : s'.Inv loose := by
  have hcreate : s.createAndQueueTurn r = some s' → s'.Inv loose := by
    intro hcreated
    rw [createAndQueueTurn, ite_none_right_eq_some] at hcreated
    obtain ⟨-, hcreated⟩ := hcreated
    cases hcreated
    exact (h.create hdepth).pump
  rw [StepLoop.admitRequest] at hadmitted
  cases hadmission : r.admission with
  | newTurn =>
    rw [hadmission] at hadmitted
    exact hcreate hadmitted
  | activeOrNewTurn =>
    rw [hadmission] at hadmitted
    cases hactive : s.activeTurnJob with
    | none =>
      rw [hactive] at hadmitted
      exact hcreate hadmitted
    | some job =>
      rw [hactive] at hadmitted
      cases hadmitted
      exact h.assign hactive place
  | activeOrNextTurn =>
    rw [hadmission] at hadmitted
    cases hactive : s.activeTurnJob with
    | none =>
      rw [hactive] at hadmitted
      cases hadmitted
      have hawait := h.await place fun hscope => jobs_eq_nil.mpr ⟨hactive, hnext hscope hadmission hactive⟩
      rw [hactive] at hawait
      exact hawait
    | some job =>
      rw [hactive] at hadmitted
      cases hadmitted
      exact h.assign hactive place
  | activeTurnOnly =>
    rw [hadmission] at hadmitted
    cases hactive : s.activeTurnJob with
    | none =>
      rw [hactive] at hadmitted
      cases hadmitted
    | some job =>
      rw [hactive] at hadmitted
      cases hadmitted
      exact h.assign hactive place

/-- Requests whose aborts cost no live request anything: none of them is live, or is on its way. -/
theorem Inv.abort {s : StepLoop} (h : s.Inv loose) (requests : List Nat)
    (hknown : ∀ id ∈ requests, id ∈ s.accepted.map StepRequest.id)
    (hlive : ∀ r ∈ s.accepted, s.Live r → r.id ∉ requests) : (s.abort requests).Inv loose := by
  refine { h with settled := ?_, keys := ?_, next := ?_, placed := ?_ }
  · intro id hid
    change id ∈ s.aborted ++ requests.filter _ ++ s.materialized at hid
    rw [mem_append, mem_append] at hid
    rcases hid with (hid | hid) | hid
    · exact h.settled id (mem_append_left _ hid)
    · exact hknown id (mem_of_mem_filter hid)
    · exact h.settled id (mem_append_right _ hid)
  · intro job hjob id hid
    obtain ⟨hacc, hqueue⟩ := h.keys job hjob id hid
    exact ⟨hacc, fun hpending => hqueue ⟨fun ha => hpending.1 (mem_append_left _ ha), hpending.2⟩⟩
  · exact fun r hr hscope habort => h.next r hr hscope fun ha => habort (mem_append_left _ ha)
  · intro r hr hl
    obtain ⟨habort, hcount⟩ := h.placed r hr hl
    refine ⟨fun ha => ?_, hcount⟩
    rcases mem_append.mp ha with ha | ha
    · exact habort ha
    · exact hlive r hr hl (mem_of_mem_filter ha)

theorem Inv.refuse {s : StepLoop} (h : s.Inv (r :: loose)) :
    ({ s with refused := s.refused ++ [r.id] }.abort [r.id] : StepLoop).Inv loose := by
  have hr : r ∈ s.accepted := h.known r (mem_append_left _ (mem_append_left _ (mem_cons_self ..)))
  have hrefused : ({ s with refused := s.refused ++ [r.id] } : StepLoop).Inv loose := by
    refine { h with known := ?_, nodup := ?_, placed := ?_ }
    · exact fun x hx => h.known x (mem_cons_of_mem _ hx)
    · exact (nodup_cons.mp h.nodup).2
    · intro x hx hlive
      have hne : x ≠ r := by
        rintro rfl
        exact hlive.2.2.2 mem_concat_self
      obtain ⟨habort, hcount⟩ := h.placed x hx
        ⟨hlive.1, hlive.2.1, hlive.2.2.1, fun hx' => hlive.2.2.2 (mem_append_left _ hx')⟩
      refine ⟨habort, ?_⟩
      have hcons : (r :: loose ++ s.waiting ++ s.queued).count x =
          (loose ++ s.waiting ++ s.queued).count x := count_cons_of_ne (Ne.symm hne)
      rw [hcons] at hcount
      exact hcount
  refine hrefused.abort [r.id] ?_ ?_
  · intro id hid
    rw [mem_singleton.mp hid]
    exact mem_map_of_mem hr
  · intro x hx hlive hid
    refine hlive.2.2.2 (mem_append_right _ ?_)
    exact hid

theorem Inv.skip {s : StepLoop} (h : s.Inv (r :: loose)) (habort : r.id ∈ s.aborted) : s.Inv loose := by
  refine { h with known := ?_, nodup := ?_, placed := ?_ }
  · exact fun x hx => h.known x (mem_cons_of_mem _ hx)
  · exact (nodup_cons.mp h.nodup).2
  · intro x hx hlive
    obtain ⟨hx', hcount⟩ := h.placed x hx hlive
    have hne : x ≠ r := by
      rintro rfl
      exact hx' habort
    refine ⟨hx', ?_⟩
    have hcons : (r :: loose ++ s.waiting ++ s.queued).count x =
        (loose ++ s.waiting ++ s.queued).count x := count_cons_of_ne (Ne.symm hne)
    rw [hcons] at hcount
    exact hcount

/-- The turns have been pumped: one is active if there is any. -/
structure Pumped (s : StepLoop) : Prop where
  depth : s.quiescenceDepth = 0
  active : s.activeTurnJob = none → s.pendingTurns = []

theorem pumped_pumpTurns {s : StepLoop} (h : s.quiescenceDepth = 0) : s.pumpTurns.Pumped := by
  rcases pumpTurns_cases s with ⟨hsame, hstay⟩ | ⟨job, pendingTurns, -, -, -, hpump⟩
  · rw [hsame]
    exact ⟨h, hstay h⟩
  · rw [hpump]
    exact ⟨h, nofun⟩

theorem Pumped.admitRequest {s s' : StepLoop} (h : s.Pumped) (hadmitted : s.admitRequest r place = some s') :
    s'.Pumped := by
  have hcreate : s.createAndQueueTurn r = some s' → s'.Pumped := by
    intro hcreated
    rw [createAndQueueTurn, ite_none_right_eq_some] at hcreated
    obtain ⟨-, hcreated⟩ := hcreated
    cases hcreated
    exact pumped_pumpTurns h.depth
  rw [StepLoop.admitRequest] at hadmitted
  split at hadmitted
  · exact hcreate hadmitted
  · exact hcreate hadmitted
  · cases hadmitted
    exact ⟨h.depth, h.active⟩
  · cases hadmitted
  · cases hadmitted
    exact ⟨h.depth, nofun⟩

theorem Inv.admitHeld {s : StepLoop} (h : s.Inv (held.1 :: loose))
    (hpumped : s.Pumped) : (s.admitHeld held).Inv loose ∧ (s.admitHeld held).Pumped := by
  rw [StepLoop.admitHeld]
  split
  next habort => exact ⟨h.skip habort, hpumped⟩
  next =>
    cases hadmitted : s.admitRequest held.1 held.2 with
    | some s' => exact ⟨h.admitRequest hpumped.depth (fun _ _ => hpumped.active) hadmitted, hpumped.admitRequest hadmitted⟩
    | none => exact ⟨h.refuse, hpumped.depth, hpumped.active⟩

theorem Inv.foldl_admitHeld {held : List (StepRequest × QueueEnd)}
    (h : s.Inv (held.map Prod.fst)) (hpumped : s.Pumped) :
    (held.foldl StepLoop.admitHeld s).Inv [] := by
  induction held generalizing s with
  | nil => exact h
  | cons first held ih =>
    obtain ⟨hinv, hpumped'⟩ := Inv.admitHeld h hpumped
    exact ih hinv hpumped'

section

variable {s : StepLoop}

theorem Inv.accepted (h : s.Inv []) (hnew : r.id ∉ s.accepted.map StepRequest.id) :
    ({ s with accepted := s.accepted ++ [r] } : StepLoop).Inv [r] := by
  have hout : r ∉ s.waiting ++ s.offered := fun hr => hnew (mem_map_of_mem (h.known r hr))
  have hids : ∀ id ∈ s.accepted.map StepRequest.id, id ∈ (s.accepted ++ [r]).map StepRequest.id := by
    intro id hid
    rw [map_append]
    exact mem_append_left _ hid
  refine { h with ids := ?_, known := ?_, nodup := ?_, settled := ?_, keys := ?_, placed := ?_ }
  · rw [map_append, nodup_append]
    refine ⟨h.ids, nodup_singleton _, ?_⟩
    intro id hid id' hid' he
    rw [map_singleton, mem_singleton] at hid'
    rw [he, hid'] at hid
    exact hnew hid
  · intro x hx
    rcases mem_cons.mp hx with rfl | hx
    · exact mem_concat_self
    · exact mem_append_left _ (h.known x hx)
  · exact nodup_cons.mpr ⟨hout, h.nodup⟩
  · exact fun id hid => hids id (h.settled id hid)
  · exact fun job hjob id hid => ⟨hids id (h.keys job hjob id hid).1, (h.keys job hjob id hid).2⟩
  · intro x hx hlive
    rcases mem_snoc.mp hx with hold | rfl
    · have hne : x ≠ r := by
        rintro rfl
        exact hnew (mem_map_of_mem hold)
      obtain ⟨habort, hcount⟩ := h.placed x hold hlive
      refine ⟨habort, ?_⟩
      exact (count_cons_of_ne (Ne.symm hne)).trans hcount
    · refine ⟨fun habort => hnew (h.settled _ (mem_append_left _ habort)), ?_⟩
      have hnone : (s.waiting ++ s.queued).count x = 0 := by
        refine count_eq_zero_of_not_mem fun hx' => ?_
        rcases mem_append.mp hx' with hx' | hx'
        · exact hout (mem_append_left _ hx')
        · exact hout (mem_append_right _ (h.queued x hx'))
      exact count_cons_self.trans (congrArg (· + 1) hnone)

theorem Inv.hold (h : s.Inv [r]) (place : QueueEnd) :
    ({ s with heldAdmissions := s.heldAdmissions ++ [(r, place)] } : StepLoop).Inv [] := by
  have hmoved : ∀ xs, (waiting { s with
      heldAdmissions := s.heldAdmissions ++ [(r, place)] } ++ xs).Perm ([r] ++ s.waiting ++ xs) := by
    intro xs
    refine List.Perm.append_right xs ?_
    rw [waiting, map_append, append_assoc]
    exact perm_middle
  refine { h with known := ?_, nodup := ?_, placed := ?_ }
  · exact fun x hx => h.known x ((hmoved _).mem_iff.mp hx)
  · exact (hmoved _).nodup_iff.mpr h.nodup
  · intro x hx hlive
    obtain ⟨habort, hcount⟩ := h.placed x hx hlive
    exact ⟨habort, ((hmoved _).count_eq x).trans hcount⟩

theorem Inv.accept (h : s.Inv []) (hnew : r.id ∉ s.accepted.map StepRequest.id)
    (hnext : r.turnScoped = false → r.admission = .activeOrNextTurn → s.quiescenceDepth = 0 →
      s.activeTurnJob = none → s.pendingTurns = []) (place : QueueEnd) : (s.accept r place).Inv [] := by
  rw [StepLoop.accept]
  split
  next => exact (h.accepted hnew).hold place
  next hdepth =>
    have hdepth := Nat.eq_zero_of_not_pos hdepth
    cases hadmitted : StepLoop.admitRequest { s with accepted := s.accepted ++ [r] } r place with
    | none => exact h
    | some s' =>
      refine (h.accepted hnew).admitRequest hdepth ?_ hadmitted
      exact fun hscope hadmission => hnext hscope hadmission hdepth

theorem Inv.releaseQuiescence (h : s.Inv []) :
    ({ s with quiescenceDepth := 0 } : StepLoop).pumpTurns.admitAllHeld.Inv [] := by
  have hopen : ({ s with quiescenceDepth := 0 } : StepLoop).Inv [] :=
    { h with quiet := fun hpos => absurd hpos (lt_irrefl 0) }
  have hpumped : ({ s with quiescenceDepth := 0 } : StepLoop).pumpTurns.Pumped := pumped_pumpTurns rfl
  have hinv := hopen.pump
  generalize ({ s with quiescenceDepth := 0 } : StepLoop).pumpTurns = s₁ at hpumped hinv ⊢
  have hloose : ({ s₁ with heldAdmissions := [] } : StepLoop).Inv (s₁.heldAdmissions.map Prod.fst) := by
    refine { hinv with  }
  exact (Inv.foldl_admitHeld hloose ⟨hpumped.1, hpumped.2⟩).pump

theorem Inv.replaceActive (h : s.Inv []) (hactive : s.activeTurnJob = some job)
    (job' : TurnJob) (current : Option StepRequest) (running : Bool) (hid : job'.id = job.id) (hqueue : ∀ x ∈ job'.queue, x ∈ s.offered)
    (hkeys : ∀ id ∈ job'.steps.keys, id ∈ s.accepted.map StepRequest.id ∧
      (s.Pending id → id ∈ job'.queue.map StepRequest.id))
    (hcount : ∀ x ∈ s.accepted, s.Live x → x.id ∉ s.aborted → job'.queue.count x = job.queue.count x)
    (hcurrent : ∀ d ∈ current, d ∈ s.offered ∧ d.id ∈ s.materialized) :
    ({ s with
      activeTurnJob := some job'
      current := current
      running := running } : StepLoop).Inv [] := by
  have hjobs := jobs_active hactive
  have hother : ∀ j ∈ s.pendingTurns, j ∈ s.jobs := by
    intro j hj
    rw [hjobs]
    exact mem_cons_of_mem _ hj
  have hjob : job ∈ s.jobs := by
    rw [hjobs]
    exact mem_cons_self ..
  refine { h with queued := ?_, current := ?_, keys := ?_, turns := ?_, bound := ?_, quiet := ?_, next := ?_, placed := ?_ }
  · intro x hx
    obtain ⟨j, hj, hxj⟩ := mem_flatMap.mp hx
    rcases mem_cons.mp hj with rfl | hj
    · exact hqueue x hxj
    · exact h.queued x (mem_queued (hother j hj) hxj)
  · exact hcurrent
  · intro j hj
    rcases mem_cons.mp hj with rfl | hj
    · exact hkeys
    · exact h.keys j (hother j hj)
  · have hturns := h.turns
    rw [hjobs, map_cons, ← hid] at hturns
    exact hturns
  · intro j hj
    rcases mem_cons.mp hj with rfl | hj
    · rw [hid]
      exact h.bound job hjob
    · exact h.bound j (hother j hj)
  · intro hdepth
    rw [h.quiet hdepth] at hjobs
    cases hjobs
  · intro x hx hscope habort
    rw [h.next x hx hscope habort] at hjobs
    cases hjobs
  · intro x hx hlive
    obtain ⟨habort, hone⟩ := h.placed x hx hlive
    refine ⟨habort, ?_⟩
    have hsame := hcount x hx hlive habort
    rw [StepLoop.queued, hjobs, flatMap_cons] at hone
    change ([] ++ s.waiting ++ (job'.queue ++ s.pendingTurns.flatMap TurnJob.queue)).count x = 1
    simp only [count_append] at hone ⊢
    omega

theorem Inv.keys_set (h : s.Inv loose) (hjob : job ∈ s.jobs) {id : Nat}
    (hid : id ∈ s.accepted.map StepRequest.id) (hset : s.Pending id → id ∈ job.steps.keys)
    (state : StepState) : ∀ id' ∈ (job.steps.set id state).keys, id' ∈ s.accepted.map StepRequest.id ∧
      (s.Pending id' → id' ∈ job.queue.map StepRequest.id) := by
  intro id' hid'
  rw [JsMap.mem_keys_set] at hid'
  rcases hid' with rfl | hid'
  · exact ⟨hid, fun hpending => (h.keys job hjob id' (hset hpending)).2 hpending⟩
  · exact h.keys job hjob id' hid'

theorem mem_jobs_active (h : s.activeTurnJob = some job) : job ∈ s.jobs := by
  rw [jobs_active h]
  exact mem_cons_self ..

theorem Inv.materialize (h : s.Inv []) (requests : List Nat)
    (hknown : ∀ id ∈ requests, id ∈ s.accepted.map StepRequest.id) :
    ({ s with materialized := s.materialized ++ requests } : StepLoop).Inv [] := by
  refine { h with current := ?_, settled := ?_, keys := ?_, placed := ?_ }
  · exact fun d hd => ⟨(h.current d hd).1, mem_append_left _ (h.current d hd).2⟩
  · intro id hid
    rw [mem_append, mem_append] at hid
    rcases hid with hid | hid | hid
    · exact h.settled id (mem_append_left _ hid)
    · exact h.settled id (mem_append_right _ hid)
    · exact hknown id hid
  · intro job hjob id hid
    obtain ⟨hacc, hqueue⟩ := h.keys job hjob id hid
    exact ⟨hacc, fun hpending => hqueue ⟨hpending.1, fun hm => hpending.2 (mem_append_left _ hm)⟩⟩
  · intro r hr hlive
    exact h.placed r hr ⟨hlive.1, fun hm => hlive.2.1 (mem_append_left _ hm), hlive.2.2⟩

end

theorem takeNextBatch_perm {aborted : List Nat} {items rest : StepRequestQueue}
    (h : items.takeNextBatch aborted = some (batch, rest)) :
    (items.discardAborted aborted).Perm (batch.requests ++ rest) := by
  obtain ⟨driver, hdriver, hbatch⟩ := map_eq_some_iff.mp h
  obtain ⟨rfl, rfl⟩ := Prod.mk.inj hbatch
  obtain ⟨hlt, rfl⟩ := List.getElem?_eq_some_iff.mp hdriver
  refine (getElem_cons_eraseIdx_perm hlt).symm.trans (.cons _ ?_)
  exact (filter_append_perm _ _).symm

theorem mem_discardAborted {aborted : List Nat} {items : StepRequestQueue} :
    r ∈ items.discardAborted aborted ↔ r ∈ items ∧ r.id ∉ aborted := by
  rw [StepRequestQueue.discardAborted, mem_filter, decide_eq_true_iff]

theorem count_discardAborted {aborted : List Nat} {items : StepRequestQueue} (h : r.id ∉ aborted) :
    (items.discardAborted aborted).count r = items.count r :=
  count_filter (decide_eq_true h)

theorem Inv.beginStep {s s' : StepLoop} (h : s.Inv []) (hstep : s.step .beginStep = some s') : s'.Inv [] := by
  rw [step] at hstep
  cases hactive : s.activeTurnJob with
  | none =>
    rw [hactive] at hstep
    cases hstep
  | some job =>
    rw [hactive] at hstep
    dsimp only at hstep
    split at hstep
    next => cases hstep
    next =>
      obtain ⟨⟨batch, rest⟩, hbatch, rfl⟩ := map_eq_some_iff.mp hstep
      have hjob := mem_jobs_active hactive
      have hperm := takeNextBatch_perm hbatch
      have hitem : ∀ x ∈ batch.requests ++ rest, x ∈ s.queued ∧ x ∈ job.queue := by
        intro x hx
        have hx' := (mem_discardAborted.mp (hperm.mem_iff.mpr hx)).1
        exact ⟨mem_queued hjob hx', hx'⟩
      have hrequests : ∀ id ∈ (batch.requests.map StepRequest.id).filter (fun r => r ∉ s.materialized),
          id ∈ s.accepted.map StepRequest.id := by
        intro id hid
        obtain ⟨x, hx, rfl⟩ := mem_map.mp (mem_of_mem_filter hid)
        exact mem_map_of_mem (h.queued_known (hitem x (mem_append_left _ hx)).1)
      have hinv := h.materialize _ hrequests
      -- whatever is in the batch has been materialized now
      have htaken : ∀ x ∈ batch.requests, x.id ∈ s.materialized ++
          (batch.requests.map StepRequest.id).filter (fun r => r ∉ s.materialized) := by
        intro x hx
        by_cases hm : x.id ∈ s.materialized
        · exact mem_append_left _ hm
        · exact mem_append_right _
            (mem_filter.mpr ⟨mem_map_of_mem hx, decide_eq_true hm⟩)
      have hdriver := hitem batch.driver (mem_append_left _ (mem_cons_self ..))
      refine hinv.replaceActive hactive { job with
        queue := rest
        steps := job.steps.set batch.driver.id .running } _ _ rfl ?_ ?_ ?_ ?_
      · exact fun x hx => h.queued x (hitem x (mem_append_right _ hx)).1
      · have hset := hinv.keys_set hjob (mem_map_of_mem (h.queued_known hdriver.1))
          (fun hpending => absurd (htaken _ (mem_cons_self ..)) hpending.2) .running
        intro id hid
        refine ⟨(hset id hid).1, fun hpending => ?_⟩
        obtain ⟨x, hx, rfl⟩ := mem_map.mp ((hset id hid).2 hpending)
        have hx' := hperm.mem_iff.mp (mem_discardAborted.mpr ⟨hx, hpending.1⟩)
        rcases mem_append.mp hx' with hx' | hx'
        · exact absurd (htaken x hx') hpending.2
        · exact mem_map_of_mem hx'
      · intro x hx hlive habort
        have hnot : batch.requests.count x = 0 := count_eq_zero_of_not_mem fun hx' => hlive.2.1 (htaken x hx')
        have hcount := hperm.count_eq x
        rw [count_discardAborted habort, count_append, hnot, Nat.zero_add] at hcount
        exact hcount.symm
      · intro d hd
        cases hd
        exact ⟨h.queued _ hdriver.1, htaken _ (mem_cons_self ..)⟩

theorem Inv.current_known {s : StepLoop} (h : s.Inv []) (hd : s.current = some d) :
    d.id ∈ s.accepted.map StepRequest.id ∧ d ∈ s.offered ∧ ¬ s.Pending d.id := by
  obtain ⟨hoffered, hmat⟩ := h.current d hd
  exact ⟨mem_map_of_mem (h.known d (mem_append_right _ hoffered)), hoffered,
    fun hpending => hpending.2 hmat⟩

theorem Inv.completeStep {s s' : StepLoop} (h : s.Inv []) (hstep : s.step .completeStep = some s') : s'.Inv [] := by
  rw [step] at hstep
  cases hactive : s.activeTurnJob with
  | none =>
    rw [hactive] at hstep
    cases hstep
  | some job =>
    cases hcurrent : s.current with
    | none =>
      rw [hactive, hcurrent] at hstep
      cases hstep
    | some driver =>
      rw [hactive, hcurrent] at hstep
      cases hstep
      have hjob := mem_jobs_active hactive
      obtain ⟨hknown, -, hpending⟩ := h.current_known hcurrent
      refine h.replaceActive hactive { job with
        steps := job.steps.set driver.id .completed } none _ rfl ?_ ?_ ?_ nofun
      · exact fun x hx => h.queued x (mem_queued hjob hx)
      · exact h.keys_set hjob hknown (fun hp => absurd hp hpending) .completed
      · exact fun _ _ _ _ => rfl

theorem Inv.recover {s s' : StepLoop} (h : s.Inv []) (hstep : s.step (.recover retry) = some s') : s'.Inv [] := by
  rw [step] at hstep
  cases hactive : s.activeTurnJob with
  | none =>
    rw [hactive] at hstep
    cases hstep
  | some job =>
    cases hcurrent : s.current with
    | none =>
      rw [hactive, hcurrent] at hstep
      cases hstep
    | some driver =>
      rw [hactive, hcurrent] at hstep
      cases hstep
      have hjob := mem_jobs_active hactive
      obtain ⟨hknown, hoffered, hpending⟩ := h.current_known hcurrent
      cases retry with
      | none =>
        exact h.replaceActive hactive job none _ rfl (fun x hx => h.queued x (mem_queued hjob hx))
          (h.keys job hjob) (fun _ _ _ _ => rfl) nofun
      | some place =>
        refine h.replaceActive hactive (job.enqueueStep driver place) none _ rfl ?_ ?_ ?_ nofun
        · intro x hx
          rcases (mem_enqueue ..).mp hx with rfl | hx
          · exact hoffered
          · exact h.queued x (mem_queued hjob hx)
        · intro id hid
          have hset := h.keys_set hjob hknown (fun hp => absurd hp hpending) .queued id hid
          refine ⟨hset.1, fun hp => ?_⟩
          obtain ⟨x, hx, hxid⟩ := mem_map.mp (hset.2 hp)
          exact mem_map.mpr ⟨x, (mem_enqueue ..).mpr (.inr hx), hxid⟩
        · intro x hx hlive habort
          have hne : x ≠ driver := by
            rintro rfl
            exact hpending ⟨habort, hlive.2.1⟩
          refine ((enqueue_perm job.queue driver place).count_eq x).trans ?_
          exact count_cons_of_ne (Ne.symm hne)

theorem Inv.endRun {s s' : StepLoop} (h : s.Inv []) (hstep : s.step (.endRun result) = some s') : s'.Inv [] := by
  rw [step] at hstep
  cases hactive : s.activeTurnJob with
  | none =>
    rw [hactive] at hstep
    cases hstep
  | some job =>
    rw [hactive] at hstep
    dsimp only at hstep
    split at hstep
    next => cases hstep
    split at hstep
    next => cases hstep
    split at hstep
    next => cases hstep
    next =>
      have hjob := mem_jobs_active hactive
      have hdone : ∀ j, j = s.current.elim job (fun driver =>
          if result = .hookStop then { job with steps := job.steps.set driver.id .completed } else job) →
          j.id = job.id ∧ j.queue = job.queue ∧ ∀ id ∈ j.steps.keys,
            id ∈ s.accepted.map StepRequest.id ∧ (s.Pending id → id ∈ job.queue.map StepRequest.id) := by
        rintro j rfl
        cases hcurrent : s.current with
        | none => exact ⟨rfl, rfl, h.keys job hjob⟩
        | some driver =>
          obtain ⟨hknown, -, hpending⟩ := h.current_known hcurrent
          split
          next => exact ⟨rfl, rfl, h.keys_set hjob hknown (fun hp => absurd hp hpending) .completed⟩
          next => exact ⟨rfl, rfl, h.keys job hjob⟩
      generalize s.current.elim job _ = j at hstep hdone
      obtain ⟨hid, hqueue, hkeys⟩ := hdone j rfl
      cases hstep
      have hitem : ∀ x ∈ j.queue, x ∈ s.queued := by
        intro x hx
        rw [hqueue] at hx
        exact mem_queued hjob hx
      have hinv : (s.abort ((j.queue.filter (·.turnScoped)).map StepRequest.id)).Inv [] := by
        refine h.abort _ ?_ ?_
        · intro id hid
          obtain ⟨x, hx, rfl⟩ := mem_map.mp hid
          exact mem_map_of_mem (h.queued_known (hitem x (mem_of_mem_filter hx)))
        · intro r hr hlive hid
          obtain ⟨x, hx, hxid⟩ := mem_map.mp hid
          obtain ⟨hx, hscope⟩ := mem_filter.mp hx
          obtain rfl := h.eq_of_id (h.queued_known (hitem x hx)) hr hxid
          rw [hlive.1] at hscope
          cases hscope
      refine hinv.replaceActive hactive _ none false hid ?_ ?_ ?_ nofun
      · exact fun x hx => h.queued x (hitem x (mem_discardAborted.mp hx).1)
      · intro id hid
        obtain ⟨hknown, hold⟩ := hkeys id hid
        refine ⟨hknown, fun hpending => ?_⟩
        have hpending' : s.Pending id := ⟨fun ha => hpending.1 (mem_append_left _ ha), hpending.2⟩
        obtain ⟨x, hx, rfl⟩ := mem_map.mp (hold hpending')
        rw [← hqueue] at hx
        exact mem_map_of_mem (mem_discardAborted.mpr ⟨hx, hpending.1⟩)
      · intro x hx hlive habort
        rw [← hqueue]
        exact count_discardAborted habort

theorem mem_keys_of_cancellable {job : TurnJob} {id : Nat} (h : id ∈ job.cancellable) : id ∈ job.steps.keys := by
  obtain ⟨e, he, rfl⟩ := mem_map.mp h
  exact mem_map_of_mem (mem_of_mem_filter he)

theorem Inv.drop {s : StepLoop} (h : s.Inv []) (active : Option TurnJob) (pendingTurns : List TurnJob)
    (hperm : s.jobs.Perm (job :: (active.toList ++ pendingTurns)))
    (hdead : ∀ r ∈ job.queue, ¬ s.Live r) :
    (cancelSteps { s with activeTurnJob := active, pendingTurns := pendingTurns } job).Inv [] := by
  have hjob : job ∈ s.jobs := hperm.mem_iff.mpr (mem_cons_self ..)
  have hother : ∀ j ∈ active.toList ++ pendingTurns, j ∈ s.jobs :=
    fun j hj => hperm.mem_iff.mpr (mem_cons_of_mem _ hj)
  have hsome : s.jobs ≠ [] := ne_nil_of_mem hjob
  have hinv : ({ s with activeTurnJob := active, pendingTurns := pendingTurns } : StepLoop).Inv [] := by
    refine { h with queued := ?_, keys := ?_, turns := ?_, bound := ?_, quiet := ?_, next := ?_, placed := ?_ }
    · intro x hx
      obtain ⟨j, hj, hxj⟩ := mem_flatMap.mp hx
      exact h.queued x (mem_queued (hother j hj) hxj)
    · exact fun j hj => h.keys j (hother j hj)
    · exact (nodup_cons.mp ((hperm.map TurnJob.id).nodup_iff.mp h.turns)).2
    · exact fun j hj => h.bound j (hother j hj)
    · exact fun hdepth => absurd (h.quiet hdepth) hsome
    · exact fun x hx hscope habort => absurd (h.next x hx hscope habort) hsome
    · intro x hx hlive
      obtain ⟨habort, hcount⟩ := h.placed x hx hlive
      refine ⟨habort, ?_⟩
      have hqueued : s.queued.count x = job.queue.count x +
          ((active.toList ++ pendingTurns).flatMap TurnJob.queue).count x := by
        rw [← count_append]
        exact (hperm.flatMap_right _).count_eq x
      have hnot : job.queue.count x = 0 := count_eq_zero_of_not_mem fun hx' => hdead x hx' hlive
      change ([] ++ s.waiting ++ (active.toList ++ pendingTurns).flatMap TurnJob.queue).count x = 1
      rw [count_append] at hcount ⊢
      omega
  refine hinv.abort _ ?_ ?_
  · exact fun id hid => (h.keys job hjob id (mem_keys_of_cancellable hid)).1
  · intro r hr hlive hid
    obtain ⟨habort, -⟩ := h.placed r hr hlive
    obtain ⟨x, hx, hxid⟩ := mem_map.mp
      ((h.keys job hjob r.id (mem_keys_of_cancellable hid)).2 ⟨habort, hlive.2.1⟩)
    obtain rfl := h.eq_of_id (h.queued_known (mem_queued hjob hx)) hr hxid
    exact hdead x hx hlive

theorem Inv.pending_of_live {s : StepLoop} (h : s.Inv []) (hr : r ∈ s.accepted) (hlive : s.Live r) : s.Pending r.id :=
  ⟨(h.placed r hr hlive).1, hlive.2.1⟩

theorem Inv.release {s s' : StepLoop} (h : s.Inv []) (hmeets : s.Meets .release)
    (hstep : s.step .release = some s') : s'.Inv [] := by
  rw [step] at hstep
  cases hactive : s.activeTurnJob with
  | none =>
    rw [hactive] at hstep
    cases hstep
  | some job =>
    rw [hactive] at hstep
    dsimp only at hstep
    split at hstep
    next => cases hstep
    next =>
      cases hstep
      refine h.drop none s.pendingTurns ?_ ?_
      · rw [jobs_active hactive]
        exact .refl _
      · intro r hr hlive
        have hknown := h.queued_known (mem_queued (mem_jobs_active hactive) hr)
        exact hmeets job hactive r hr hlive.1 (h.pending_of_live hknown hlive)

theorem cancelQueuedTurn_cases (s : StepLoop) (turnId : Nat) : s.cancelQueuedTurn turnId = s ∨
    ∃ job pendingTurns, job ∈ s.pendingTurns ∧ job.id = turnId ∧ s.pendingTurns.Perm (job :: pendingTurns) ∧
      s.cancelQueuedTurn turnId = cancelSteps { s with pendingTurns := pendingTurns } job := by
  rw [cancelQueuedTurn]
  cases hfind : s.pendingTurns.find? fun job => job.id = turnId with
  | none => exact .inl rfl
  | some job =>
    obtain ⟨hid, before, after, hsplit, hbefore⟩ := find?_eq_some_iff_append.mp hfind
    refine .inr ⟨job, before ++ after, ?_, of_decide_eq_true hid, ?_, ?_⟩
    · rw [hsplit]
      exact mem_append_right _ (mem_cons_self ..)
    · rw [hsplit]
      exact perm_middle
    · have herase : s.pendingTurns.eraseP (fun job => job.id = turnId) = before ++ after := by
        have hnot : ∀ j ∈ before, ¬ decide (j.id = turnId) = true := by
          intro j hj hj'
          have hno := hbefore j hj
          rw [hj'] at hno
          cases hno
        have hhead : (job :: after).eraseP (fun job => job.id = turnId) = after := eraseP_cons_of_pos hid
        rw [hsplit, eraseP_append_right _ hnot, hhead]
      rw [herase]

section

variable {s : StepLoop} (h : s.Inv [])
include h

theorem Inv.cancelQueuedTurn (turnId : Nat)
    (hdead : ∀ job ∈ s.pendingTurns, job.id = turnId → ∀ r ∈ job.queue, ¬ s.Live r) :
    (s.cancelQueuedTurn turnId).Inv [] := by
  rcases cancelQueuedTurn_cases s turnId with hsame | ⟨job, pendingTurns, hjob, hid, hperm, hcancel⟩
  · rw [hsame]
    exact h
  · rw [hcancel]
    refine h.drop s.activeTurnJob pendingTurns ?_ (hdead job hjob hid)
    exact (hperm.append_left _).trans perm_middle

theorem Inv.cancel (turnId : Option Nat) (hmeets : s.Meets (.cancel turnId)) : (s.cancel turnId).Inv [] := by
  have hqueued : (turnId.elim s s.cancelQueuedTurn).Inv [] := by
    cases turnId with
    | none => exact h
    | some turnId =>
      refine h.cancelQueuedTurn turnId ?_
      intro job hjob hid r hr hlive
      have hknown := h.queued_known (mem_queued (mem_append_right _ hjob) hr)
      exact hmeets job hjob (congrArg some hid.symm) r hr hlive.1 (h.pending_of_live hknown hlive)
  rw [StepLoop.cancel]
  cases hactive : s.activeTurnJob with
  | none => exact hqueued
  | some job =>
    dsimp only
    split
    next =>
      have hjob := mem_jobs_active hactive
      exact h.replaceActive hactive { job with aborted := true } s.current s.running rfl
        (fun x hx => h.queued x (mem_queued hjob hx)) (h.keys job hjob) (fun _ _ _ _ => rfl) h.current
    next => exact hqueued

/-- A request that its sender takes back is live no longer. -/
theorem Inv.withdrawn (request : Nat) : ({ s with withdrawn := s.withdrawn ++ [request] } : StepLoop).Inv [] := by
  refine { h with placed := ?_ }
  intro r hr hlive
  exact h.placed r hr ⟨hlive.1, hlive.2.1, fun hw => hlive.2.2.1 (mem_append_left _ hw), hlive.2.2.2⟩

theorem Inv.unhold (hrequest : request ∈ s.withdrawn) {before after : List (StepRequest × QueueEnd)}
    (hsplit : s.heldAdmissions = before ++ held :: after) (hid : held.1.id = request) :
    ({ s with heldAdmissions := before ++ after } : StepLoop).Inv [] := by
  have hperm : ∀ xs, (s.waiting ++ xs).Perm (held.1 :: (waiting { s with
      heldAdmissions := before ++ after } ++ xs)) := by
    intro xs
    rw [waiting, waiting, hsplit, map_append, map_append, map_cons, ← cons_append, ← cons_append]
    exact (perm_middle.append_right _).append_right xs
  refine { h with known := ?_, nodup := ?_, placed := ?_ }
  · exact fun x hx => h.known x ((hperm _).mem_iff.mpr (mem_cons_of_mem _ hx))
  · exact (nodup_cons.mp ((hperm _).nodup_iff.mp h.nodup)).2
  · intro x hx hlive
    obtain ⟨habort, hcount⟩ := h.placed x hx hlive
    have hne : x ≠ held.1 := by
      rintro rfl
      rw [← hid] at hrequest
      exact hlive.2.2.1 hrequest
    refine ⟨habort, ?_⟩
    have hcons := (hperm s.queued).count_eq x
    rw [count_cons_of_ne (Ne.symm hne)] at hcons
    exact hcons.symm.trans hcount

theorem Inv.mapPending (f : TurnJob → TurnJob) (hf : ∀ job, (f job).id = job.id ∧ (f job).queue = job.queue ∧
      ∀ id ∈ (f job).steps.keys, id ∈ job.steps.keys) :
    ({ s with pendingTurns := s.pendingTurns.map f } : StepLoop).Inv [] := by
  have hqueued : StepLoop.queued { s with pendingTurns := s.pendingTurns.map f } = s.queued := by
    rw [StepLoop.queued, StepLoop.queued, jobs, jobs, flatMap_append, flatMap_append, flatMap_map]
    congr 2
    funext job
    exact (hf job).2.1
  have hjob : ∀ j ∈ jobs { s with pendingTurns := s.pendingTurns.map f }, ∃ j₀ ∈ s.jobs,
      j.id = j₀.id ∧ j.queue = j₀.queue ∧ ∀ id ∈ j.steps.keys, id ∈ j₀.steps.keys := by
    intro j hj
    rcases mem_append.mp hj with hj | hj
    · exact ⟨j, mem_append_left _ hj, rfl, rfl, fun _ hid => hid⟩
    · obtain ⟨j₀, hj₀, rfl⟩ := mem_map.mp hj
      exact ⟨j₀, mem_append_right _ hj₀, hf j₀⟩
  have hnil : s.jobs = [] → jobs { s with pendingTurns := s.pendingTurns.map f } = [] := by
    intro hnone
    obtain ⟨hactive, hpending⟩ := jobs_eq_nil.mp hnone
    rw [jobs, hactive, hpending]
    rfl
  refine { h with queued := ?_, keys := ?_, turns := ?_, bound := ?_, quiet := ?_, next := ?_, placed := ?_ }
  · rw [hqueued]
    exact h.queued
  · intro j hj id hid
    obtain ⟨j₀, hj₀, -, hqueue, hkeys⟩ := hjob j hj
    rw [hqueue]
    exact h.keys j₀ hj₀ id (hkeys id hid)
  · have hids : (jobs { s with pendingTurns := s.pendingTurns.map f }).map TurnJob.id =
        s.jobs.map TurnJob.id := by
      rw [jobs, jobs, map_append, map_append, List.map_map]
      congr 2
      funext job
      exact (hf job).1
    rw [hids]
    exact h.turns
  · intro j hj
    obtain ⟨j₀, hj₀, hid, -, -⟩ := hjob j hj
    rw [hid]
    exact h.bound j₀ hj₀
  · exact fun hdepth => hnil (h.quiet hdepth)
  · exact fun x hx hscope habort => hnil (h.next x hx hscope habort)
  · rw [hqueued]
    exact h.placed

end

theorem cancelStep_same (job : TurnJob) (request : Nat) :
    (cancelStep job request).id = job.id ∧ (cancelStep job request).queue = job.queue ∧
      ∀ id ∈ (cancelStep job request).steps.keys, id ∈ job.steps.keys := by
  rw [cancelStep]
  split
  next hmem =>
    refine ⟨rfl, rfl, fun id hid => ?_⟩
    rw [JsMap.mem_keys_set] at hid
    rcases hid with rfl | hid
    · exact mem_keys_of_cancellable hmem
    · exact hid
  next => exact ⟨rfl, rfl, fun _ hid => hid⟩

theorem Inv.abortRequest {s : StepLoop} (h : s.Inv []) (request : Nat)
    (hknown : request ∈ s.accepted.map StepRequest.id) (hmeets : s.Meets (.withdraw request)) :
    (s.abortRequest request).Inv [] := by
  have hinv := h.withdrawn request
  have hw : request ∈ s.withdrawn ++ [request] := mem_concat_self
  have habort : ∀ {s' : StepLoop}, s'.Inv [] → s'.accepted = s.accepted →
      s'.withdrawn = s.withdrawn ++ [request] → (s'.abort [request]).Inv [] := by
    intro s' hs' hacc hwith
    refine hs'.abort _ ?_ ?_
    · intro id hid
      rw [mem_singleton.mp hid, hacc]
      exact hknown
    · intro r _ hlive hid
      rw [← hwith, ← mem_singleton.mp hid] at hw
      exact hlive.2.2.1 hw
  rw [StepLoop.abortRequest]
  split
  next hheld =>
    obtain ⟨held, hmem, hid⟩ := any_eq_true.mp hheld
    obtain ⟨_, before, after, -, hfirst, hsplit, herase⟩ :=
      exists_of_eraseP (p := fun held => decide (held.1.id = request)) hmem hid
    rw [herase]
    exact habort (hinv.unhold hw hsplit (of_decide_eq_true hfirst)) rfl rfl
  next =>
    cases hactive : s.activeTurnJob.filter (fun job => request ∈ job.steps.keys) with
    | some job =>
      dsimp only
      obtain ⟨hjob, -⟩ := filter_eq_some_iff.mp hactive
      split
      next =>
        obtain ⟨hid, hqueue, hkeys⟩ := cancelStep_same job request
        have hmem := mem_jobs_active hjob
        refine habort (hinv.replaceActive hjob (cancelStep job request) s.current s.running hid
          ?_ ?_ ?_ hinv.current) rfl rfl
        · intro x hx
          rw [hqueue] at hx
          exact h.queued x (mem_queued hmem hx)
        · intro id hid
          rw [hqueue]
          exact h.keys job hmem id (hkeys id hid)
        · intro x _ _ _
          rw [hqueue]
      next => exact hinv
    | none =>
      cases hpending : s.pendingTurns.find? (fun job => job.request.id = request ∨ request ∈ job.steps.keys) with
      | none => exact habort hinv rfl rfl
      | some job =>
        dsimp only
        have hjob := mem_of_find?_eq_some hpending
        split
        next hown =>
          refine hinv.cancelQueuedTurn job.id ?_
          intro job' hjob' hid r hr hlive
          have hmem : job' ∈ s.jobs := mem_append_right _ hjob'
          obtain rfl := inj_on_of_nodup_map h.turns hmem (mem_append_right _ hjob) hid
          have hr' := h.queued_known (mem_queued hmem hr)
          have hlive' : s.Live r := ⟨hlive.1, hlive.2.1,
            fun hw' => hlive.2.2.1 (mem_append_left _ hw'), hlive.2.2.2⟩
          have heq := hmeets job' hjob hown r hr hlive.1 (h.pending_of_live hr' hlive')
          exact hlive.2.2.1 (heq ▸ hw)
        next =>
          split
          next =>
            refine habort (hinv.mapPending _ ?_) rfl rfl
            intro j
            split
            next => exact cancelStep_same j request
            next => exact ⟨rfl, rfl, fun _ hid => hid⟩
          next => exact hinv

theorem Inv.step {s s' : StepLoop} (h : s.Inv []) (event : StepEvent) (hmeets : s.Meets event)
    (hstep : s.step event = some s') : s'.Inv [] := by
  cases event with
  | enqueue r place =>
    rw [StepLoop.step, ite_none_left_eq_some] at hstep
    obtain ⟨hnew, hstep⟩ := hstep
    cases hstep
    exact h.accept hnew hmeets place
  | withdraw request =>
    rw [StepLoop.step, ite_none_right_eq_some] at hstep
    obtain ⟨hknown, hstep⟩ := hstep
    cases hstep
    exact h.abortRequest request hknown hmeets
  | cancel turnId =>
    cases hstep
    exact h.cancel turnId hmeets
  | beginStep => exact h.beginStep hstep
  | completeStep => exact h.completeStep hstep
  | recover retry => exact h.recover hstep
  | endRun result => exact h.endRun hstep
  | release => exact h.release hmeets hstep
  | pump =>
    cases hstep
    exact h.pump
  | acquireQuiescence =>
    rw [StepLoop.step, ite_none_left_eq_some] at hstep
    obtain ⟨hidle, hstep⟩ := hstep
    cases hstep
    have hjobs : s.jobs = [] := by
      rw [jobs_eq_nil]
      rw [hasPendingRequests] at hidle
      simp only [Bool.or_eq_true, not_or, Bool.not_eq_true', Bool.not_eq_false, List.isEmpty_iff,
        not_isSome_iff_eq_none] at hidle
      exact ⟨hidle.1, hidle.2.1.2⟩
    exact { h with quiet := fun _ => hjobs }
  | releaseQuiescence =>
    rw [StepLoop.step, ite_none_left_eq_some] at hstep
    obtain ⟨-, hstep⟩ := hstep
    split at hstep
    next hdeep =>
      cases hstep
      exact { h with quiet := fun _ => h.quiet (Nat.zero_lt_of_lt hdeep) }
    next =>
      cases hstep
      exact h.releaseQuiescence

theorem inv_init : ({} : StepLoop).Inv [] :=
  ⟨nodup_nil, nofun, nodup_nil, nofun, nofun, nofun, nofun, nodup_nil, nofun,
    fun _ => rfl, nofun, nofun⟩

/-- In every run in which no turn ends over a queued agent-scoped request, each of these that is
neither consumed nor given up is in one queue, once, and goes to the next turn. -/
theorem run_carriedOver (events : List StepEvent) (s' : StepLoop)
    (hmeets : AlongRun step StepLoop.Meets {} events)
    (hrun : events.foldlM step ({} : StepLoop) = some s') : s'.CarriedOver := by
  have hinv : s'.Inv [] := hmeets.invariant (I := fun s => s.Inv [])
    (fun _ event _ h hm hstep => h.step event hm hstep) inv_init hrun
  exact hinv.carriedOver

instance decidable_meets (s : StepLoop) : ∀ event, Decidable (s.Meets event)
  | .enqueue r _ => inferInstanceAs (Decidable (r.turnScoped = false →
      r.admission = .activeOrNextTurn → s.quiescenceDepth = 0 → s.activeTurnJob = none →
      s.pendingTurns = []))
  | .withdraw request => inferInstanceAs (Decidable (∀ job ∈ s.pendingTurns, job.request.id = request →
      ∀ r ∈ job.queue, r.turnScoped = false → s.Pending r.id → r.id = request))
  | .cancel turnId => inferInstanceAs (Decidable (∀ job ∈ s.pendingTurns, turnId = some job.id →
      ∀ r ∈ job.queue, r.turnScoped = false → ¬ s.Pending r.id))
  | .release => inferInstanceAs (Decidable (∀ job ∈ s.activeTurnJob, ∀ r ∈ job.queue,
      r.turnScoped = false → ¬ s.Pending r.id))
  | .beginStep | .completeStep | .recover _ | .endRun _ | .pump | .acquireQuiescence
  | .releaseQuiescence => isTrue trivial

def prompt (id : Nat) : StepRequest := { id := id, admission := .newTurn, turnSeed := true }

def notification (id : Nat) : StepRequest :=
  { id := id, mergeable := true, turnScoped := false, admission := .activeOrNewTurn, turnSeed := true }

def reminder (id : Nat) : StepRequest := { id := id, mergeable := true, turnScoped := false }

/-- A reminder waits for a turn and is merged into its first step; a notification comes while the
step is executed, and is merged into the second. -/
def remindedTurn : List StepEvent :=
  [.enqueue (reminder 0) .tail, .enqueue (prompt 1) .tail, .beginStep, .enqueue (notification 2) .tail,
    .completeStep, .beginStep, .completeStep, .endRun .completed, .release, .pump]

theorem run_carriedOver_remindedTurn : ∃ s', remindedTurn.foldlM step ({} : StepLoop) = some s' ∧
    s'.CarriedOver := by
  obtain ⟨s', hrun⟩ := isSome_iff_exists.mp
    (show (remindedTurn.foldlM step ({} : StepLoop)).isSome = true by decide +kernel)
  exact ⟨s', hrun, run_carriedOver remindedTurn s' (by decide +kernel) hrun⟩

/-- A notification comes while a step is executed that fails: it is aborted with the turn. -/
theorem failedTurn_notCarriedOver : ∃ s', [StepEvent.enqueue (prompt 0) .tail, .beginStep,
    .enqueue (notification 1) .tail, .endRun .failed, .release, .pump].foldlM step ({} : StepLoop) =
      some s' ∧ ¬ s'.CarriedOver := by
  have hrun : ([StepEvent.enqueue (prompt 0) .tail, .beginStep, .enqueue (notification 1) .tail,
      .endRun .failed, .release, .pump].foldlM step ({} : StepLoop)).map (fun s =>
        (s.accepted, s.materialized, s.withdrawn ++ s.refused, s.aborted)) =
      some ([prompt 0, notification 1], [0], [], [1]) := by decide +kernel
  obtain ⟨s', hs', hfacts⟩ := map_eq_some_iff.mp hrun
  obtain ⟨haccepted, hmaterialized, hgiven, haborted⟩ :
      s'.accepted = [prompt 0, notification 1] ∧ s'.materialized = [0] ∧
        s'.withdrawn ++ s'.refused = [] ∧ s'.aborted = [1] := by
    rw [Prod.mk.injEq, Prod.mk.injEq, Prod.mk.injEq] at hfacts
    exact hfacts
  obtain ⟨hwithdrawn, hrefused⟩ := append_eq_nil_iff.mp hgiven
  refine ⟨s', hs', fun hcarried => ?_⟩
  have hlive : s'.Live (notification 1) := by
    rw [Live, hmaterialized, hwithdrawn, hrefused]
    decide
  have hplaced := (hcarried.placed (notification 1) (by rw [haccepted]; decide) hlive).1
  rw [haborted] at hplaced
  exact hplaced (by decide)

end StepLoop
end Echadron.Agent
