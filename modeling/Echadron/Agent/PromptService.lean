import Echadron.Lib.JsMap
import Mathlib.Data.List.Perm.Subperm
import Mathlib.Data.List.Count

namespace Echadron.Agent
open Lib List Option

/-- A record of the scheduler. `key` is the identity of the object; two prompts may share an id. -/
structure PromptRecord where
  key : Nat
  id : String
deriving DecidableEq

inductive CompletionState where
  | completed
  | failed
  | cancelled
  | blocked
deriving DecidableEq

inductive TurnResultType where
  | completed
  | failed
  | cancelled
deriving DecidableEq

def TurnResultType.state : TurnResultType → CompletionState
  | .cancelled => .cancelled
  | .failed => .failed
  | .completed => .completed

/-- What `startNext` is awaiting. -/
inductive LaunchStage where
  | hook
  | assignment
deriving DecidableEq

inductive HookOutcome where
  | pass
  | block
  | throws
deriving DecidableEq

/-- What becomes of the assignment that `loop.enqueue` returns: a turn, no turn, or an error. -/
inductive Assignment where
  | turn (id : Nat)
  | noTurn
  | rejected
deriving DecidableEq

/-- The service, the calls that are suspended in it, and what it sees of the loop and of the
compaction. -/
structure AgentPromptService where
  active : Option (PromptRecord × Nat) := none
  pending : List PromptRecord := []
  steered : JsMap String (List PromptRecord) := JsMap.empty
  /-- The `launching` flag, with the record that the suspended `startNext` holds. -/
  launching : Option (PromptRecord × LaunchStage) := none
  /-- The `selected` records of the suspended calls of `steer`. -/
  steering : List (List PromptRecord) := []
  /-- The records whose turn has no result yet. -/
  turns : List PromptRecord := []
  enqueued : List PromptRecord := []
  /-- Every call of `completionDeferred.resolve`. -/
  completions : List (PromptRecord × CompletionState) := []
  compacting : Bool := false
  /-- Compactions that are over and whose end is not announced yet. -/
  finishing : Nat := 0
  loopRunning : Bool := false
  overflowed : Bool := false

inductive PromptEvent where
  | enqueue (id : String)
  | hookDone (outcome : HookOutcome)
  | assigned (outcome : Assignment)
  | steer (promptIds : List String)
  | steerAssigned (call : Nat) (outcome : Assignment)
  | abort (promptId : String)
  | clear
  | turnResult (turn : Nat) (result : TurnResultType)
  | compactionBegins
  | compactionEnds
  | compactionAnnounced
  | loopStatus (running : Bool)
deriving DecidableEq

namespace AgentPromptService

/-- `fullCompaction.compacting !== null && loop.status().state !== 'running'`. -/
def paused (s : AgentPromptService) : Bool := s.compacting && !s.loopRunning

def idle (s : AgentPromptService) : Bool := s.active.isNone && s.launching.isNone

def complete (s : AgentPromptService) (item : PromptRecord) (state : CompletionState) : AgentPromptService :=
  { s with completions := s.completions ++ [(item, state)] }

/-- `depth` is how deep the calls may nest before the stack overflows. -/
def startNext : (depth : Nat) → AgentPromptService → AgentPromptService
  | 0, s => { s with overflowed := true }
  | depth + 1, s =>
    if s.active.isSome || s.launching.isSome then s
    else
      match s.pending with
      | [] => s
      | item :: pending =>
        if s.paused then
          -- `unshift` and `return`; `finally` then starts over
          startNext depth { s with
            pending := item :: pending
            launching := none }
        else
          { s with
            pending := pending
            launching := some (item, .hook) }

section

variable (depth : Nat) (s : AgentPromptService)

/-- The `finally` of `startNext`. -/
def launched : AgentPromptService :=
  let s := { s with launching := none }
  if s.active.isNone then startNext depth s else s

def enqueue (id : String) : AgentPromptService :=
  let item : PromptRecord := { key := s.enqueued.length, id := id }
  let s := { s with
    pending := s.pending ++ [item]
    enqueued := s.enqueued ++ [item] }
  if s.active.isNone && s.launching.isNone then
    if s.paused then s else startNext depth s
  else s

/-- `startNext` after `blockedByHook`. -/
def hookDone (item : PromptRecord) : HookOutcome → AgentPromptService
  | .pass => { s with launching := some (item, .assignment) }
  | .block => launched depth (s.complete item .blocked)
  | .throws => launched depth (s.complete item .failed)

/-- `startNext` after `loop.enqueue`. -/
def assigned (item : PromptRecord) : Assignment → AgentPromptService
  | .turn id => launched depth { s with
      active := some (item, id)
      turns := s.turns ++ [item] }
  | .noTurn => launched depth { s with pending := item :: s.pending }
  | .rejected => launched depth (s.complete item .failed)

end

section

variable (s : AgentPromptService)

/-- `steer`, up to its `await`. It throws where it changes nothing. -/
def steer (promptIds : List String) : AgentPromptService :=
  let selected := s.pending.filter fun item => promptIds.contains item.id
  if promptIds = [] then s
  else if s.active.isNone then s
  else if ¬ promptIds.Nodup ∨ selected.length ≠ promptIds.length then s
  else
    { s with
      pending := selected.foldl List.erase s.pending
      steering := s.steering ++ [selected] }

/-- `steer` after its `await`. Without a turn it throws, and without an active prompt so does
`this.active.id`. -/
def steerAssigned (call : Nat) (selected : List PromptRecord) : Assignment → AgentPromptService
  | .turn _ =>
    let s := { s with steering := s.steering.eraseIdx call }
    match s.active with
    | none => s
    | some (item, _) => { s with steered := s.steered.set item.id ((s.steered.get item.id).getD [] ++ selected) }
  | .noTurn => { s with steering := s.steering.eraseIdx call }
  | .rejected => { s with steering := s.steering.eraseIdx call }

/-- `abort`. For the active prompt it asks the loop to cancel the turn, whose result then comes
like any other. -/
def abort (promptId : String) : AgentPromptService :=
  if s.active.any fun a => a.1.id = promptId then s
  else
    match s.pending.find? fun item => item.id = promptId with
    | none => s
    | some item => { s with pending := s.pending.erase item }.complete item .cancelled

def clear : AgentPromptService := s.pending.foldl (fun s item => s.abort item.id) s

end

def settle (depth : Nat) (s : AgentPromptService) (item : PromptRecord) (result : TurnResultType) :
    AgentPromptService :=
  if s.active.all fun a => a.1.id ≠ item.id then s
  else
    let state := result.state
    let children := (s.steered.get item.id).getD []
    startNext depth { s with
      active := none
      completions := s.completions ++ (item, state) :: children.map fun child => (child, state)
      steered := s.steered.delete item.id }

def step (depth : Nat) (s : AgentPromptService) (e : PromptEvent) : Option AgentPromptService :=
  if s.overflowed then none
  else
    match e with
    | .enqueue id => some (s.enqueue depth id)
    | .hookDone outcome =>
      match s.launching with
      | some (item, .hook) => some (s.hookDone depth item outcome)
      | _ => none
    | .assigned outcome =>
      match s.launching with
      | some (item, .assignment) => some (s.assigned depth item outcome)
      | _ => none
    | .steer promptIds => some (s.steer promptIds)
    | .steerAssigned call outcome => s.steering[call]?.map fun selected => s.steerAssigned call selected outcome
    | .abort promptId => some (s.abort promptId)
    | .clear => some s.clear
    | .turnResult turn result =>
      s.turns[turn]?.map fun item => { s with turns := s.turns.eraseIdx turn }.settle depth item result
    | .compactionBegins => if s.compacting then none else some { s with compacting := true }
    | .compactionEnds =>
      if s.compacting then
        some { s with
          compacting := false
          finishing := s.finishing + 1 }
      else none
    | .compactionAnnounced =>
      if s.finishing = 0 then none
      else some (startNext depth { s with finishing := s.finishing - 1 })
    | .loopStatus running => some { s with loopRunning := running }

def run (depth : Nat) (events : List PromptEvent) : Option AgentPromptService := events.foldlM (step depth) {}

/-- The prompts steered into the active turn, those included whose `steer` is still suspended. -/
def steeredIntoActive (s : AgentPromptService) : List PromptRecord :=
  match s.active with
  | none => []
  | some (item, _) => (s.steered.get item.id).getD [] ++ s.steering.flatten

def places (s : AgentPromptService) : List PromptRecord :=
  s.pending ++ (s.launching.map Prod.fst).toList ++ (s.active.map Prod.fst).toList ++
    s.steeredIntoActive ++ s.completions.map Prod.fst

/-- What the service owes to the prompts that it took. -/
structure Placed (s : AgentPromptService) : Prop where
  distinct : s.enqueued.Nodup
  one_place : s.places.Perm s.enqueued
  scheduled : s.idle = true → s.pending ≠ [] → s.compacting = true ∨ 0 < s.finishing
  bounded : s.overflowed = false

/-- A launch that is tried now would find a prompt and a pause. -/
def Stalls (s : AgentPromptService) : Prop := s.paused = true ∧ s.pending ≠ []

instance (s : AgentPromptService) : Decidable s.Stalls := inferInstanceAs (Decidable (_ ∧ _))

/-- A turn does not end under a `steer`, a `steer` gets its turn, and no launch is tried during a
pause. -/
def Orderly (s : AgentPromptService) : PromptEvent → Prop
  | .hookDone outcome => outcome = .pass ∨ ¬ s.Stalls
  | .assigned (.turn _) => True
  | .assigned .noTurn => s.paused = false
  | .assigned .rejected => ¬ s.Stalls
  | .steerAssigned _ (.turn _) => True
  | .steerAssigned .. => False
  | .turnResult .. => s.steering.flatten = [] ∧ ¬ s.Stalls
  | .compactionAnnounced => s.idle = true → ¬ s.Stalls
  | _ => True

/-- Nothing waits that no launch is due to take. -/
def Scheduled (s : AgentPromptService) : Prop :=
  s.idle = true → s.pending ≠ [] → s.compacting = true ∨ 0 < s.finishing

/-- What every orderly step keeps, besides `Scheduled`. -/
structure Kept (s : AgentPromptService) : Prop where
  distinct : s.enqueued.Nodup
  one_place : ∀ item, s.places.count item = s.enqueued.count item
  bounded : s.overflowed = false
  keys : ∀ item ∈ s.enqueued, item.key < s.enqueued.length
  turns : s.turns = (s.active.map Prod.fst).toList
  steered : ∀ id children, s.steered.get id = some children → ∃ a, s.active = some a ∧ a.1.id = id
  steering : s.active = none → s.steering.flatten = []
  exclusive : s.launching.isSome = true → s.active = none

theorem Kept.placed (h : Kept s) (hscheduled : Scheduled s) : Placed s where
  distinct := h.distinct
  one_place := perm_iff_count.mpr h.one_place
  scheduled := hscheduled
  bounded := h.bounded

theorem Kept.init : Kept {} where
  distinct := nodup_nil
  one_place := fun _ => rfl
  bounded := rfl
  keys := fun _ h => absurd h not_mem_nil
  turns := rfl
  steered := by
    intro _ _ h
    cases h
  steering := fun _ => rfl
  exclusive := fun _ => rfl

theorem scheduled_of_busy (h : s.idle = false) : Scheduled s := fun hidle => absurd hidle (Bool.eq_false_iff.mp h)

theorem startNext_of_busy (depth : Nat) (h : s.idle = false) : startNext (depth + 1) s = s := by
  rw [startNext]
  unfold idle at h
  revert h
  cases s.active <;> cases s.launching <;> simp

theorem startNext_of_empty (depth : Nat) (h : s.pending = []) : startNext (depth + 1) s = s := by
  rw [startNext, h]
  exact ite_self s

theorem startNext_of_free (depth : Nat) (hidle : s.idle = true) (hpending : s.pending = item :: rest)
    (hpaused : s.paused = false) :
    startNext (depth + 1) s = { s with
      pending := rest
      launching := some (item, .hook) } := by
  have hactive : s.active.isNone = true := (Bool.and_eq_true_iff.mp hidle).1
  have hlaunching : s.launching.isNone = true := (Bool.and_eq_true_iff.mp hidle).2
  rw [startNext, if_neg, hpending]
  · exact if_neg (Bool.eq_false_iff.mp hpaused)
  · simp only [Bool.or_eq_true, isSome_iff_ne_none]
    rintro (h | h)
    · exact h (isNone_iff_eq_none.mp hactive)
    · exact h (isNone_iff_eq_none.mp hlaunching)

theorem startNext_kept (depth : Nat) (h : Kept s) (hfree : s.idle = true → ¬ s.Stalls) :
    Kept (startNext (depth + 1) s) ∧ Scheduled (startNext (depth + 1) s) := by
  cases hidle : s.idle with
  | false =>
    rw [startNext_of_busy depth hidle]
    exact ⟨h, scheduled_of_busy hidle⟩
  | true =>
    cases hpending : s.pending with
    | nil =>
      rw [startNext_of_empty depth hpending]
      exact ⟨h, fun _ hne => absurd hpending hne⟩
    | cons item rest =>
      have hpaused : s.paused = false := by
        apply Bool.eq_false_iff.mpr
        intro hp
        apply hfree hidle
        exact ⟨hp, hpending ▸ cons_ne_nil item rest⟩
      have hlaunching : s.launching = none := isNone_iff_eq_none.mp (Bool.and_eq_true_iff.mp hidle).2
      rw [startNext_of_free depth hidle hpending hpaused]
      constructor
      · refine { h with
          one_place := ?_
          exclusive := fun _ => isNone_iff_eq_none.mp (Bool.and_eq_true_iff.mp hidle).1 }
        intro r
        refine Eq.trans ?_ (h.one_place r)
        simp only [places, hpending, hlaunching, steeredIntoActive, count_append,
          map_some, map_none, toList_some, toList_none, count_cons,
          count_nil]
        omega
      · apply scheduled_of_busy
        exact Bool.and_false _

theorem launched_of_idle (depth : Nat) (h : s.active = none) :
    launched depth s = startNext depth { s with launching := none } := by
  rw [launched, h]
  rfl

theorem launched_kept (depth : Nat) (hactive : s.active = none)
    (h : Kept { s with launching := none }) (hfree : ¬ s.Stalls) :
    Kept (launched (depth + 1) s) ∧ Scheduled (launched (depth + 1) s) := by
  rw [launched_of_idle (depth + 1) hactive]
  exact startNext_kept depth h fun _ => hfree

theorem Kept.complete (h : Kept s) (hlaunching : s.launching = some (item, stage))
    (state : CompletionState) : Kept { s.complete item state with launching := none } := by
  refine { h with
    one_place := ?_
    exclusive := Bool.noConfusion }
  intro r
  refine Eq.trans ?_ (h.one_place r)
  simp only [places, hlaunching, AgentPromptService.complete, steeredIntoActive, count_append,
    map_some, map_none, toList_some, toList_none, count_cons,
    count_nil, map_append, map_cons, map_nil]
  omega

theorem enqueue_kept (depth : Nat) (h : Kept s) (id : String) :
    Kept (s.enqueue (depth + 1) id) ∧ Scheduled (s.enqueue (depth + 1) id) := by
  let item : PromptRecord := { key := s.enqueued.length, id := id }
  let queued : AgentPromptService := { s with
    pending := s.pending ++ [item]
    enqueued := s.enqueued ++ [item] }
  have hnew : item ∉ s.enqueued := fun hmem => Nat.lt_irrefl _ (h.keys item hmem)
  have hqueued : Kept queued := by
    refine { h with distinct := ?_, one_place := ?_, keys := ?_ }
    · exact nodup_append.mpr ⟨h.distinct, nodup_singleton _, by
        intro r hr r' hr' heq
        obtain rfl := mem_singleton.mp hr'
        exact hnew (heq ▸ hr)⟩
    · intro r
      rw [count_append, ← h.one_place r]
      simp only [queued, places, steeredIntoActive, count_append]
      omega
    · intro r hr
      rw [length_append]
      cases mem_append.mp hr with
      | inl hr => exact Nat.lt_succ_of_lt (h.keys r hr)
      | inr hr =>
        obtain rfl := mem_singleton.mp hr
        exact Nat.lt_succ_self _
  have hcases : s.enqueue (depth + 1) id = if queued.idle then
      if queued.paused then queued else startNext (depth + 1) queued else queued := rfl
  rw [hcases]
  split_ifs with hidle hpaused
  · exact ⟨hqueued, fun _ _ => .inl (Bool.and_eq_true_iff.mp hpaused).1⟩
  · exact startNext_kept depth hqueued fun _ hstalls => hpaused hstalls.1
  · exact ⟨hqueued, scheduled_of_busy (Bool.eq_false_iff.mpr hidle)⟩

theorem hookDone_kept (depth : Nat) (h : Kept s) (hlaunching : s.launching = some (item, .hook))
    (outcome : HookOutcome) (horderly : s.Orderly (.hookDone outcome)) :
    Kept (s.hookDone (depth + 1) item outcome) ∧ Scheduled (s.hookDone (depth + 1) item outcome) := by
  have hactive : s.active = none := h.exclusive (hlaunching ▸ rfl)
  cases outcome with
  | pass =>
    constructor
    · refine { h with
        one_place := ?_
        exclusive := fun _ => hactive }
      intro r
      refine Eq.trans ?_ (h.one_place r)
      simp only [hookDone, places, hlaunching, steeredIntoActive, map_some]
    · apply scheduled_of_busy
      exact Bool.and_false _
  | block =>
    have hfree : ¬ s.Stalls := horderly.resolve_left HookOutcome.noConfusion
    exact launched_kept depth hactive (h.complete hlaunching .blocked) hfree
  | throws =>
    have hfree : ¬ s.Stalls := horderly.resolve_left HookOutcome.noConfusion
    exact launched_kept depth hactive (h.complete hlaunching .failed) hfree

theorem assigned_kept (depth : Nat) (h : Kept s) (hlaunching : s.launching = some (item, .assignment))
    (outcome : Assignment) (horderly : s.Orderly (.assigned outcome)) :
    Kept (s.assigned (depth + 1) item outcome) ∧ Scheduled (s.assigned (depth + 1) item outcome) := by
  have hactive : s.active = none := h.exclusive (hlaunching ▸ rfl)
  have hsteered : ∀ id, s.steered.get id = none := by
    intro id
    cases hget : s.steered.get id with
    | none => rfl
    | some children =>
      obtain ⟨a, ha, _⟩ := h.steered id children hget
      exact absurd (ha.symm.trans hactive) (some_ne_none a)
  cases outcome with
  | turn id =>
    constructor
    · refine { h with
        one_place := ?_
        turns := ?_
        steered := ?_
        steering := fun hnone => absurd hnone (some_ne_none _)
        exclusive := Bool.noConfusion }
      · intro r
        refine Eq.trans ?_ (h.one_place r)
        have hcount : s.steering.flatten.count r = 0 := by
          rw [h.steering hactive]
          rfl
        simp only [assigned, launched, places, hlaunching, hactive, steeredIntoActive, hsteered,
          isNone_some, Bool.false_eq_true, if_false, count_append, map_some,
          map_none, toList_some, toList_none, count_nil, getD_none,
          hcount]
        omega
      · show s.turns ++ [item] = [item]
        rw [h.turns, hactive]
        rfl
      · intro key children hget
        exact absurd (hget.symm.trans (hsteered key)) (some_ne_none children)
    · exact scheduled_of_busy rfl
  | noTurn =>
    have hback : Kept { s with
        pending := item :: s.pending
        launching := none } := by
      refine { h with
        one_place := ?_
        exclusive := Bool.noConfusion }
      intro r
      refine Eq.trans ?_ (h.one_place r)
      simp only [places, hlaunching, steeredIntoActive, count_append, map_some,
        map_none, toList_some, toList_none, count_cons, count_nil]
      omega
    exact launched_kept depth hactive hback fun hstalls => Bool.noConfusion (hstalls.1.symm.trans horderly)
  | rejected => exact launched_kept depth hactive (h.complete hlaunching .failed) horderly

theorem steer_kept (h : Kept s) (hscheduled : Scheduled s) (promptIds : List String) :
    Kept (s.steer promptIds) ∧ Scheduled (s.steer promptIds) := by
  rw [steer]
  split_ifs with _ hnone _
  · exact ⟨h, hscheduled⟩
  · exact ⟨h, hscheduled⟩
  · exact ⟨h, hscheduled⟩
  · have hactive : s.active ≠ none := fun hn => hnone (hn ▸ rfl)
    constructor
    · refine { h with
        one_place := ?_
        steering := fun hn => absurd hn hactive }
      intro r
      refine Eq.trans ?_ (h.one_place r)
      have hsublist := filter_sublist (p := fun item => promptIds.contains item.id) (l := s.pending)
      have hcount := (subperm_append_diff_self_of_count_le
        fun item _ => hsublist.count_le item).count_eq r
      obtain ⟨a, ha⟩ := ne_none_iff_exists'.mp hactive
      simp only [diff_eq_foldl, count_append] at hcount
      simp only [places, steeredIntoActive, ha, count_append, flatten_append,
        flatten_cons, flatten_nil, append_nil]
      omega
    · apply scheduled_of_busy
      show (s.active.isNone && _) = false
      rw [isNone_eq_false_iff.mpr (isSome_iff_ne_none.mpr hactive)]
      rfl

theorem count_steering_eraseIdx {steering : List (List PromptRecord)} (h : steering[call]? = some selected)
    (item : PromptRecord) :
    (steering.eraseIdx call).flatten.count item + selected.count item = steering.flatten.count item := by
  obtain ⟨hlt, hget⟩ := List.getElem?_eq_some_iff.mp h
  have hsplit : steering = steering.take call ++ selected :: steering.drop (call + 1) := by
    rw [← hget, getElem_cons_drop, take_append_drop]
  conv_rhs => rw [hsplit]
  rw [eraseIdx_eq_take_drop_succ]
  simp only [flatten_append, flatten_cons, count_append]
  omega

section

variable (h : Kept s) (hscheduled : Scheduled s)
include h hscheduled

theorem steerAssigned_kept (hcall : s.steering[call]? = some selected) (turn : Nat) :
    Kept (s.steerAssigned call selected (.turn turn)) ∧
      Scheduled (s.steerAssigned call selected (.turn turn)) := by
  cases hactive : s.active with
  | none =>
    have hflat : (s.steering.eraseIdx call).flatten = [] := by
      apply eq_nil_iff_forall_not_mem.mpr
      intro item hitem
      have hcount := count_steering_eraseIdx hcall item
      have hpos := count_pos_iff.mpr hitem
      rw [h.steering hactive, count_nil] at hcount
      omega
    have heq : s.steerAssigned call selected (.turn turn) = { s with steering := s.steering.eraseIdx call } := by
      simp only [steerAssigned, hactive]
    rw [heq]
    constructor
    · refine { h with
        one_place := ?_
        steering := fun _ => hflat }
      intro r
      refine Eq.trans ?_ (h.one_place r)
      simp only [places, steeredIntoActive, hactive]
    · exact hscheduled
  | some a =>
    obtain ⟨item, id⟩ := a
    have heq : s.steerAssigned call selected (.turn turn) = { s with
        steering := s.steering.eraseIdx call
        steered := s.steered.set item.id ((s.steered.get item.id).getD [] ++ selected) } := by
      simp only [steerAssigned, hactive]
    rw [heq]
    constructor
    · refine { h with
        one_place := ?_
        steered := ?_
        steering := fun hnone => absurd (hactive.symm.trans hnone) (some_ne_none _) }
      · intro r
        refine Eq.trans ?_ (h.one_place r)
        have hcount := count_steering_eraseIdx hcall r
        simp only [places, steeredIntoActive, hactive, JsMap.get_set_self, getD_some, count_append]
        omega
      · intro key children hget
        by_cases hkey : key = item.id
        · exact ⟨(item, id), hactive, hkey.symm⟩
        · rw [JsMap.get_set_of_ne _ _ hkey] at hget
          exact h.steered key children hget
    · exact hscheduled

theorem abort_kept (promptId : String) : Kept (s.abort promptId) ∧ Scheduled (s.abort promptId) := by
  rw [abort]
  split_ifs with hactive
  · exact ⟨h, hscheduled⟩
  · split
    · exact ⟨h, hscheduled⟩
    · next item hfind =>
      have hmem : item ∈ s.pending := mem_of_find?_eq_some hfind
      constructor
      · refine { h with one_place := ?_ }
        intro r
        refine Eq.trans ?_ (h.one_place r)
        have hcount := (perm_cons_erase hmem).count_eq r
        rw [count_cons] at hcount
        simp only [places, complete, steeredIntoActive, count_append, map_append,
          map_cons, map_nil, count_cons, count_nil]
        omega
      · intro hidle _
        exact hscheduled hidle (ne_nil_of_mem hmem)

theorem clear_kept : Kept s.clear ∧ Scheduled s.clear := by
  have hall : ∀ (items : List PromptRecord) (s : AgentPromptService), Kept s → Scheduled s →
      Kept (items.foldl (fun s item => s.abort item.id) s) ∧
        Scheduled (items.foldl (fun s item => s.abort item.id) s) := by
    intro items
    induction items with
    | nil => exact fun _ h hscheduled => ⟨h, hscheduled⟩
    | cons item items ih =>
      intro s h hscheduled
      obtain ⟨h, hscheduled⟩ := abort_kept h hscheduled item.id
      exact ih _ h hscheduled
  exact hall s.pending s h hscheduled

end

theorem settle_kept (depth : Nat) (h : Kept s) (hturn : s.turns[turn]? = some item)
    (result : TurnResultType) (hsteering : s.steering.flatten = []) (hfree : ¬ s.Stalls) :
    Kept ({ s with turns := s.turns.eraseIdx turn }.settle (depth + 1) item result) ∧
      Scheduled ({ s with turns := s.turns.eraseIdx turn }.settle (depth + 1) item result) := by
  rcases eq_none_or_eq_some s.active with hactive | ⟨⟨r, id⟩, hactive⟩
  · rw [h.turns, hactive] at hturn
    cases hturn
  · have hone : s.turns = [r] := by
      rw [h.turns, hactive]
      rfl
    rw [hone] at hturn
    cases turn with
    | succ turn => cases hturn
    | zero =>
      obtain rfl := some.inj hturn
      have hlaunching : s.launching = none := by
        cases hl : s.launching with
        | none => rfl
        | some l => exact absurd (hactive.symm.trans (h.exclusive (hl ▸ rfl))) (some_ne_none _)
      obtain ⟨children, hchildren⟩ : ∃ children, (s.steered.get r.id).getD [] = children := ⟨_, rfl⟩
      let settled : AgentPromptService := { s with
        turns := []
        active := none
        completions := s.completions ++ (r, result.state) :: children.map fun child => (child, result.state)
        steered := s.steered.delete r.id }
      have heq : { s with turns := s.turns.eraseIdx 0 }.settle (depth + 1) r result =
          startNext (depth + 1) settled := by
        simp only [settle, hactive, hone, hchildren, all_some, decide_not, decide_true, Bool.not_true,
          Bool.false_eq_true, if_false]
        rfl
      have hsettled : Kept settled := by
        refine { h with
          one_place := ?_
          turns := rfl
          steered := ?_
          steering := fun _ => hsteering
          exclusive := fun _ => rfl }
        · intro item
          refine Eq.trans ?_ (h.one_place item)
          have hmap : (children.map fun child => (child, result.state)).map Prod.fst = children := by
            rw [List.map_map]
            exact map_id children
          simp only [settled, places, steeredIntoActive, hactive, hlaunching, hsteering, hchildren,
            map_append, map_cons, hmap, count_append, count_cons, map_some,
            map_none, toList_some, toList_none, count_nil]
          omega
        · intro key kids hget
          exfalso
          have hne : key ≠ r.id := by
            rintro rfl
            rw [JsMap.get_delete_self] at hget
            cases hget
          rw [JsMap.get_delete_of_ne _ hne] at hget
          obtain ⟨a, ha, hid⟩ := h.steered key kids hget
          obtain rfl := mem_unique hactive ha
          exact hne hid.symm
      rw [heq]
      exact startNext_kept depth hsettled fun _ => hfree

theorem step_kept (depth : Nat) (e : PromptEvent) (h : Kept s ∧ Scheduled s) (horderly : s.Orderly e)
    (hstep : s.step (depth + 1) e = some s') : Kept s' ∧ Scheduled s' := by
  obtain ⟨h, hscheduled⟩ := h
  rw [step.eq_def, if_neg (Bool.eq_false_iff.mp h.bounded)] at hstep
  cases e with
  | enqueue id =>
    cases hstep
    exact enqueue_kept depth h id
  | hookDone outcome =>
    dsimp only at hstep
    split at hstep
    · next item hlaunching =>
      cases hstep
      exact hookDone_kept depth h hlaunching outcome horderly
    · cases hstep
  | assigned outcome =>
    dsimp only at hstep
    split at hstep
    · next item hlaunching =>
      cases hstep
      exact assigned_kept depth h hlaunching outcome horderly
    · cases hstep
  | steer promptIds =>
    cases hstep
    exact steer_kept h hscheduled promptIds
  | steerAssigned call outcome =>
    obtain ⟨selected, hcall, rfl⟩ := map_eq_some_iff.mp hstep
    cases outcome with
    | turn id => exact steerAssigned_kept h hscheduled hcall id
    | noTurn => exact horderly.elim
    | rejected => exact horderly.elim
  | abort promptId =>
    cases hstep
    exact abort_kept h hscheduled promptId
  | clear =>
    cases hstep
    exact clear_kept h hscheduled
  | turnResult turn result =>
    obtain ⟨item, hturn, rfl⟩ := map_eq_some_iff.mp hstep
    exact settle_kept depth h hturn result horderly.1 horderly.2
  | compactionBegins =>
    dsimp only at hstep
    split_ifs at hstep
    cases hstep
    exact ⟨{ h with }, fun _ _ => .inl rfl⟩
  | compactionEnds =>
    dsimp only at hstep
    split_ifs at hstep
    cases hstep
    exact ⟨{ h with }, fun _ _ => .inr (Nat.succ_pos _)⟩
  | compactionAnnounced =>
    dsimp only at hstep
    split_ifs at hstep
    cases hstep
    apply startNext_kept depth
    · exact { h with }
    · exact horderly
  | loopStatus running =>
    cases hstep
    exact ⟨{ h with }, hscheduled⟩

/-- In a run whose steps are all orderly, every prompt is in one place in every state that is
reached, and none waits without a launch to come. -/
theorem run_placed (depth : Nat) (events : List PromptEvent) (s : AgentPromptService)
    (hrun : run (depth + 1) events = some s) (horderly : AlongRun (step (depth + 1)) Orderly {} events) :
    Placed s := by
  have hinit : Kept {} ∧ Scheduled {} := ⟨Kept.init, fun _ hne => absurd rfl hne⟩
  have hstep : ∀ s e s', Kept s ∧ Scheduled s → s.Orderly e → s.step (depth + 1) e = some s' →
      Kept s' ∧ Scheduled s' := fun s e s' h => step_kept depth e h
  obtain ⟨h, hscheduled⟩ := horderly.invariant hstep hinit hrun
  exact h.placed hscheduled

instance (s : AgentPromptService) (e : PromptEvent) : Decidable (s.Orderly e) := by
  unfold Orderly
  split <;> infer_instance

def steeredAndAborted : List PromptEvent :=
  [.enqueue "a", .hookDone .pass, .assigned (.turn 0), .loopStatus true, .enqueue "b", .steer ["b"],
    .steerAssigned 0 (.turn 0), .loopStatus false, .turnResult 0 .completed, .compactionBegins,
    .enqueue "c", .enqueue "d", .abort "c", .compactionEnds, .compactionAnnounced]

theorem run_placed_steeredAndAborted :
    ∃ s, run 1 steeredAndAborted = some s ∧ Placed s ∧ s.completions.length = 3 := by
  refine ⟨_, rfl, ?_, by decide +kernel⟩
  exact run_placed 0 steeredAndAborted _ rfl (by decide +kernel)

/-- The turn of the active prompt ends in the loop before `steer` asks it for a step, which the
loop then refuses. -/
def steeredTooLate : List PromptEvent :=
  [.enqueue "a", .hookDone .pass, .assigned (.turn 0), .enqueue "b", .steer ["b"],
    .steerAssigned 0 .rejected, .turnResult 0 .completed]

/-- The prompt that was selected is then nowhere, and never completed. -/
theorem steeredTooLate_lost :
    ∃ s item, run 1 steeredTooLate = some s ∧ item ∈ s.enqueued ∧ item ∉ s.places ∧ ¬ Placed s := by
  refine ⟨_, { key := 1, id := "b" }, rfl, by decide +kernel, by decide +kernel, ?_⟩
  intro h
  have hmem := h.one_place.mem_iff (a := { key := 1, id := "b" })
  revert hmem
  decide +kernel

end AgentPromptService

end Echadron.Agent
