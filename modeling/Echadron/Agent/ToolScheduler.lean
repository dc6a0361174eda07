import Echadron.Agent.ToolAccesses
import Echadron.Lib.Runs

namespace Echadron.Agent
open Lib List Option

/-- A task, by the place in which it was added. `throws` marks one whose `start` throws at once. -/
structure ToolCallTask where
  id : Nat
  accesses : ToolAccesses
  throws : Bool := false
deriving DecidableEq

inductive SchedulerAction where
  | started (task : ToolCallTask)
  | finished (task : ToolCallTask)
deriving DecidableEq

/-- The scheduler with the history of what it did. -/
structure ToolScheduler where
  activeTasks : List ToolCallTask := []
  queuedTasks : List ToolCallTask := []
  added : List ToolCallTask := []
  trace : List SchedulerAction := []
  overflowed : Bool := false
deriving DecidableEq

inductive SchedulerEvent where
  | add (accesses : ToolAccesses) (throws : Bool)
  | settled (id : Nat) (rejected : Bool)
deriving DecidableEq

variable (toLowerCase : String → String)

def ToolCallTask.conflicts (task other : ToolCallTask) : Bool :=
  ToolAccesses.conflict toLowerCase task.accesses other.accesses

namespace ToolScheduler

def conflictsWithAny (task : ToolCallTask) (candidates : List ToolCallTask) : Bool :=
  candidates.any (task.conflicts toLowerCase)

section

variable (s : ToolScheduler) (task : ToolCallTask)

def isBlocked (queuedBefore : List ToolCallTask) : Bool :=
  conflictsWithAny toLowerCase task s.activeTasks || conflictsWithAny toLowerCase task queuedBefore

def activate : ToolScheduler :=
  { s with
    activeTasks := s.activeTasks ++ [task]
    trace := s.trace ++ [.started task] }

def deactivate : ToolScheduler :=
  { s with
    activeTasks := s.activeTasks.erase task
    trace := s.trace ++ [.finished task] }

end

/-- `start`; a task that throws is finished on the spot, which scans the queue again. -/
def start (rescan : ToolScheduler → ToolScheduler) (s : ToolScheduler) (task : ToolCallTask) : ToolScheduler :=
  if task.throws then rescan ((s.activate task).deactivate task) else s.activate task

/-- The loop of `startQueuedTasks`. It goes over the queue as it was when the scan began. -/
def scan (rescan : ToolScheduler → ToolScheduler) :
    List ToolCallTask → ToolScheduler → List ToolCallTask → ToolScheduler
  | [], s, stillQueued => { s with queuedTasks := stillQueued }
  | task :: tasks, s, stillQueued =>
    if s.isBlocked toLowerCase task stillQueued then
      scan rescan tasks s (stillQueued ++ [task])
    else
      let s := s.start rescan task
      if s.overflowed then s else scan rescan tasks s stillQueued

/-- `depth` is how deep the calls may nest before the stack overflows. -/
def startQueuedTasks : (depth : Nat) → ToolScheduler → ToolScheduler
  | 0, s => { s with overflowed := true }
  | depth + 1, s => scan toLowerCase (startQueuedTasks depth) s.queuedTasks s []

def add (depth : Nat) (s : ToolScheduler) (task : ToolCallTask) : ToolScheduler :=
  let s := { s with added := s.added ++ [task] }
  if s.isBlocked toLowerCase task s.queuedTasks then
    { s with queuedTasks := s.queuedTasks ++ [task] }
  else s.start (startQueuedTasks toLowerCase depth) task

def finish (depth : Nat) (s : ToolScheduler) (task : ToolCallTask) : ToolScheduler :=
  startQueuedTasks toLowerCase depth (s.deactivate task)

def newTask (s : ToolScheduler) (accesses : ToolAccesses) (throws : Bool) : ToolCallTask :=
  { id := s.added.length, accesses := accesses, throws := throws }

/-- One step; absent where the event cannot happen. A task frees its resources whether it is
resolved or rejected. -/
def step (depth : Nat) (s : ToolScheduler) (e : SchedulerEvent) : Option ToolScheduler :=
  if s.overflowed then none
  else
    match e with
    | .add accesses throws => some (s.add toLowerCase depth (s.newTask accesses throws))
    | .settled id _ => (s.activeTasks.find? fun task => task.id = id).map (s.finish toLowerCase depth)

def run (depth : Nat) (events : List SchedulerEvent) : Option ToolScheduler :=
  events.foldlM (step toLowerCase depth) {}

/-- What a scheduler owes its callers. -/
structure WellScheduled (s : ToolScheduler) : Prop where
  active_apart : s.activeTasks.Pairwise fun t u => t.conflicts toLowerCase u = false
  active_iff : ∀ t ∈ s.added, t ∈ s.activeTasks ↔ .started t ∈ s.trace ∧ .finished t ∉ s.trace
  in_order : ∀ t ∈ s.added, ∀ u ∈ s.added, t.id < u.id → t.conflicts toLowerCase u = true → .started u ∈ s.trace →
      ∃ before after, s.trace = before ++ .started u :: after ∧ .finished t ∈ before
  started_once : ∀ t ∈ s.added, s.trace.count (.started t) = if t ∈ s.queuedTasks then 0 else 1
  queued_waits : ∀ u ∈ s.queuedTasks, ∃ t ∈ s.added, t.id < u.id ∧ t.conflicts toLowerCase u = true ∧
    .finished t ∉ s.trace

/-- A task that throws when it is started does not have to queue. -/
def Calm (s : ToolScheduler) : SchedulerEvent → Prop
  | .add accesses throws => throws = true →
    s.isBlocked toLowerCase (s.newTask accesses throws) s.queuedTasks = false
  | .settled .. => True

instance (s : ToolScheduler) (e : SchedulerEvent) : Decidable (Calm toLowerCase s e) :=
  match e with
  | .add .. => inferInstanceAs (Decidable (_ → _))
  | .settled .. => isTrue trivial

/-! What a scan of the queue preserves. -/

/-- A scheduler in the middle of a scan: `still` has been found blocked, `rest` is to be looked
at. -/
structure Scanning (s : ToolScheduler) (still rest : List ToolCallTask) : Prop where
  sorted : (still ++ rest).Pairwise fun t u => t.id < u.id
  added_sorted : s.added.Pairwise fun t u => t.id < u.id
  added_lt : ∀ t ∈ s.added, t.id < s.added.length
  placed : ∀ t ∈ s.added, t ∈ s.activeTasks ∨ t ∈ still ++ rest ∨ .finished t ∈ s.trace
  active : ∀ t ∈ s.activeTasks, t ∈ s.added ∧ s.trace.count (.started t) = 1 ∧ .finished t ∉ s.trace
  queued : ∀ t ∈ still ++ rest, t ∈ s.added ∧ .started t ∉ s.trace
  started : ∀ t, .started t ∈ s.trace → t ∈ s.added
  finished : ∀ t, .finished t ∈ s.trace → s.trace.count (.started t) = 1
  active_nodup : s.activeTasks.Nodup
  active_apart : s.activeTasks.Pairwise fun t u => t.conflicts toLowerCase u = false
  in_order : ∀ t ∈ s.added, ∀ u ∈ s.added, t.id < u.id → t.conflicts toLowerCase u = true → .started u ∈ s.trace →
      ∃ before after, s.trace = before ++ .started u :: after ∧ .finished t ∈ before
  waits : ∀ a u b, still = a ++ u :: b → ∃ t ∈ s.activeTasks ++ a, u.conflicts toLowerCase t = true

variable {toLowerCase} {s : ToolScheduler} {still rest : List ToolCallTask} {task : ToolCallTask}

theorem conflicts_comm (t u : ToolCallTask) :
    t.conflicts toLowerCase u = u.conflicts toLowerCase t := conflict_comm toLowerCase _ _

theorem not_blocked (h : s.isBlocked toLowerCase task queuedBefore = false) :
    ∀ t ∈ s.activeTasks ++ queuedBefore, task.conflicts toLowerCase t = false := by
  rw [isBlocked, conflictsWithAny, conflictsWithAny, ← any_append, List.any_eq_false] at h
  intro t ht
  exact Bool.not_eq_true _ ▸ h t ht

theorem blocked (h : s.isBlocked toLowerCase task queuedBefore = true) :
    ∃ t ∈ s.activeTasks ++ queuedBefore, task.conflicts toLowerCase t = true := by
  rw [isBlocked, conflictsWithAny, conflictsWithAny, ← any_append, List.any_eq_true] at h
  exact h

namespace Scanning

theorem queued_not_finished (h : Scanning toLowerCase s still rest) (ht : task ∈ still ++ rest) :
    .finished task ∉ s.trace := by
  intro hf
  have hcount := h.finished task hf
  rw [count_eq_zero.mpr (h.queued task ht).2] at hcount
  cases hcount

theorem keep (h : Scanning toLowerCase s still (task :: rest)) (hb : s.isBlocked toLowerCase task still = true) :
    Scanning toLowerCase s (still ++ [task]) rest := by
  have hqueue : still ++ [task] ++ rest = still ++ task :: rest := by
    rw [append_assoc]
    rfl
  refine { h with sorted := ?_, placed := ?_, queued := ?_, waits := ?_ }
  · rw [hqueue]
    exact h.sorted
  · rw [hqueue]
    exact h.placed
  · rw [hqueue]
    exact h.queued
  · intro a u b he
    rcases append_eq_append_iff.mp he with ⟨l, rfl, hl⟩ | ⟨l, rfl, hl⟩
    · cases l with
      | nil =>
        obtain ⟨rfl, _⟩ := cons.inj hl
        rw [append_nil]
        exact blocked hb
      | cons x l =>
        obtain ⟨_, hnil⟩ := cons.inj hl
        exact absurd hnil.symm (append_ne_nil_of_right_ne_nil _ (cons_ne_nil _ _))
    · cases l with
      | nil =>
        obtain ⟨rfl, _⟩ := cons.inj hl
        have hb' := blocked hb
        rw [append_nil] at hb'
        exact hb'
      | cons x l =>
        obtain ⟨rfl, rfl⟩ := cons.inj hl
        exact h.waits a u l rfl

theorem activate (h : Scanning toLowerCase s still (task :: rest)) (hb : s.isBlocked toLowerCase task still = false) :
    Scanning toLowerCase (s.activate task) still rest := by
  have hfree := not_blocked hb
  have hmem : task ∈ still ++ task :: rest := mem_append_right _ mem_cons_self
  obtain ⟨hadded, hnew⟩ := h.queued task hmem
  have hcount : s.trace.count (.started task) = 0 := count_eq_zero.mpr hnew
  have hsub : (still ++ rest).Sublist (still ++ task :: rest) :=
    (List.Sublist.refl _).append (sublist_cons_self _ _)
  have hne : ∀ t ∈ still ++ rest, t ≠ task := by
    have hnodup := h.sorted.imp (S := (· ≠ ·)) fun hlt he => absurd (he ▸ hlt) (Nat.lt_irrefl _)
    have hperm : (task :: (still ++ rest)).Nodup := perm_middle.nodup_iff.mp hnodup
    rintro t ht rfl
    exact (nodup_cons.mp hperm).1 ht
  have htrace : ∀ t, t ≠ task → (s.trace ++ [SchedulerAction.started task]).count (.started t) =
      s.trace.count (.started t) := by
    intro t ht
    have hnone : [SchedulerAction.started task].count (.started t) = 0 := by
      rw [count_eq_zero, mem_singleton, SchedulerAction.started.injEq]
      exact ht
    rw [count_append, hnone, Nat.add_zero]
  have hfinished : ∀ t, .finished t ∈ s.trace ++ [SchedulerAction.started task] ↔ .finished t ∈ s.trace := by
    intro t
    rw [mem_append]
    exact or_iff_left nofun
  constructor
  · exact h.sorted.sublist hsub
  · exact h.added_sorted
  · exact h.added_lt
  · intro t ht
    rcases h.placed t ht with h | h | h
    · exact .inl (mem_append_left _ h)
    · by_cases he : t = task
      · exact .inl (mem_append_right _ (mem_singleton.mpr he))
      · right
        left
        rcases mem_append.mp h with h | h
        · exact mem_append_left _ h
        · exact mem_append_right _ (mem_of_ne_of_mem he h)
    · exact .inr (.inr ((hfinished t).mpr h))
  · intro t ht
    rcases mem_snoc.mp ht with ht | rfl
    · obtain ⟨hin, hone, hnot⟩ := h.active t ht
      refine ⟨hin, ?_, mt (hfinished t).mp hnot⟩
      show (s.trace ++ [SchedulerAction.started task]).count (.started t) = 1
      rw [htrace t, hone]
      rintro rfl
      rw [hcount] at hone
      cases hone
    · refine ⟨hadded, ?_, mt (hfinished t).mp (h.queued_not_finished hmem)⟩
      show (s.trace ++ [SchedulerAction.started t]).count (.started t) = 1
      rw [count_append, hcount, count_singleton_self]
  · intro t ht
    obtain ⟨hin, hnot⟩ := h.queued t (hsub.subset ht)
    refine ⟨hin, ?_⟩
    intro hs
    rcases mem_snoc.mp hs with hs | hs
    · exact hnot hs
    · exact hne t ht (SchedulerAction.started.inj hs)
  · intro t hs
    rcases mem_snoc.mp hs with hs | hs
    · exact h.started t hs
    · rw [SchedulerAction.started.inj hs]
      exact hadded
  · intro t hf
    have hold := (hfinished t).mp hf
    show (s.trace ++ [SchedulerAction.started task]).count (.started t) = 1
    have hother : t ≠ task := by
      rintro rfl
      exact h.queued_not_finished hmem hold
    rw [htrace t hother, h.finished t hold]
  · apply nodup_append.mpr
    refine ⟨h.active_nodup, pairwise_singleton _ _, ?_⟩
    rintro t ht u hu rfl
    obtain rfl := mem_singleton.mp hu
    have hone := (h.active t ht).2.1
    rw [hcount] at hone
    cases hone
  · apply pairwise_append.mpr
    refine ⟨h.active_apart, pairwise_singleton _ _, ?_⟩
    intro t ht u hu
    obtain rfl := mem_singleton.mp hu
    rw [conflicts_comm]
    exact hfree t (mem_append_left _ ht)
  · intro t ht u hu hlt hc hs
    rcases mem_snoc.mp hs with hs | hs
    · obtain ⟨before, after, he, hf⟩ := h.in_order t ht u hu hlt hc hs
      refine ⟨before, after ++ [.started task], ?_, hf⟩
      show s.trace ++ _ = _
      rw [he, append_assoc]
      rfl
    · obtain rfl := SchedulerAction.started.inj hs
      refine ⟨s.trace, [], rfl, ?_⟩
      rw [conflicts_comm] at hc
      -- an earlier task that conflicts is neither active nor queued before this one
      rcases h.placed t ht with hp | hp | hp
      · rw [hfree t (mem_append_left _ hp)] at hc
        cases hc
      · rcases mem_append.mp hp with hp | hp
        · rw [hfree t (mem_append_right _ hp)] at hc
          cases hc
        · rcases mem_cons.mp hp with rfl | hp
          · exact absurd hlt (Nat.lt_irrefl _)
          · have hafter := (pairwise_append.mp h.sorted).2.1
            have hgt := (pairwise_cons.mp hafter).1 t hp
            exact absurd hgt (Nat.lt_asymm hlt)
      · exact hp
  · intro a u b he
    obtain ⟨t, ht, hc⟩ := h.waits a u b he
    refine ⟨t, ?_, hc⟩
    rcases mem_append.mp ht with ht | ht
    · exact mem_append_left _ (mem_append_left _ ht)
    · exact mem_append_right _ ht

section

variable (h : Scanning toLowerCase s still rest)
include h

theorem deactivate (ht : task ∈ s.activeTasks) : Scanning toLowerCase (s.deactivate task) [] (still ++ rest) := by
  obtain ⟨hadded, hone, hopen⟩ := h.active task ht
  have hnodup : task ∉ s.activeTasks.erase task := h.active_nodup.not_mem_erase
  have hcount : ∀ t, (s.trace ++ [SchedulerAction.finished task]).count (.started t) =
      s.trace.count (.started t) := by
    intro t
    have hnone : [SchedulerAction.finished task].count (.started t) = 0 := by
      rw [count_eq_zero]
      exact nofun
    rw [count_append, hnone, Nat.add_zero]
  have hstarted : ∀ t, .started t ∈ s.trace ++ [SchedulerAction.finished task] ↔ .started t ∈ s.trace := by
    intro t
    rw [mem_append]
    exact or_iff_left nofun
  have hfinished : ∀ t, .finished t ∈ s.trace ++ [SchedulerAction.finished task] →
      .finished t ∈ s.trace ∨ t = task := by
    intro t hf
    rcases mem_snoc.mp hf with hf | hf
    · exact .inl hf
    · exact .inr (SchedulerAction.finished.inj hf)
  constructor
  · exact h.sorted
  · exact h.added_sorted
  · exact h.added_lt
  · intro t hadded
    by_cases he : t = task
    · right
      right
      rw [he]
      exact mem_concat_self
    · rcases h.placed t hadded with h | h | h
      · exact .inl ((mem_erase_of_ne he).mpr h)
      · exact .inr (.inl h)
      · exact .inr (.inr (mem_append_left _ h))
  · intro t ht
    obtain ⟨hin, hone, hnot⟩ := h.active t (mem_of_mem_erase ht)
    refine ⟨hin, (hcount t).trans hone, ?_⟩
    intro hf
    rcases hfinished t hf with hf | rfl
    · exact hnot hf
    · exact hnodup ht
  · intro t ht
    obtain ⟨hin, hnot⟩ := h.queued t ht
    exact ⟨hin, mt (hstarted t).mp hnot⟩
  · intro t hs
    exact h.started t ((hstarted t).mp hs)
  · intro t hf
    apply (hcount t).trans
    rcases hfinished t hf with hf | rfl
    · exact h.finished t hf
    · exact hone
  · exact h.active_nodup.erase _
  · exact h.active_apart.sublist erase_sublist
  · intro t ht u hu hlt hc hs
    obtain ⟨before, after, he, hf⟩ := h.in_order t ht u hu hlt hc ((hstarted u).mp hs)
    refine ⟨before, after ++ [.finished task], ?_, hf⟩
    show s.trace ++ _ = _
    rw [he, append_assoc]
    rfl
  · intro a u b he
    exact absurd he.symm (append_ne_nil_of_right_ne_nil _ (cons_ne_nil _ _))

theorem eq_of_id (ht : t ∈ s.added) (hu : u ∈ s.added) (he : t.id = u.id) : t = u := by
  have hpair : s.added.Pairwise fun t u => t.id = u.id → t = u :=
    h.added_sorted.imp fun hlt he => absurd (he ▸ hlt) (Nat.lt_irrefl _)
  have hflip : s.added.Pairwise fun t u => u.id = t.id → u = t := hpair.imp fun hrel he => (hrel he.symm).symm
  exact hpair.forall_of_forall_of_flip (fun _ _ _ => rfl) hflip ht hu he

theorem setQueue (queue : List ToolCallTask) : Scanning toLowerCase { s with queuedTasks := queue } still rest :=
  { h with }

end

end Scanning

/-- Between two events: the queue has been looked at, and starting what is in it cannot throw. -/
structure Ready (toLowerCase : String → String) (s : ToolScheduler) : Prop where
  scanned : Scanning toLowerCase s s.queuedTasks []
  calm : ∀ t ∈ s.queuedTasks, t.throws = false
  running : s.overflowed = false

theorem scan_ready (rescan : ToolScheduler → ToolScheduler) (h : Scanning toLowerCase s still rest)
    (hcalm : ∀ t ∈ still ++ rest, t.throws = false) (hrunning : s.overflowed = false) :
    Ready toLowerCase (scan toLowerCase rescan rest s still) := by
  induction rest generalizing s still with
  | nil =>
    rw [append_nil] at hcalm
    exact ⟨h.setQueue still, hcalm, hrunning⟩
  | cons task rest ih =>
    rw [scan]
    cases hb : s.isBlocked toLowerCase task still with
    | true =>
      apply ih (h.keep hb) _ hrunning
      intro t ht
      apply hcalm
      rw [append_assoc] at ht
      exact ht
    | false =>
      have htask : task.throws = false := hcalm task (mem_append_right _ mem_cons_self)
      have hrun : ¬ (s.activate task).overflowed = true := by
        show ¬ s.overflowed = true
        rw [hrunning]
        exact Bool.false_ne_true
      rw [if_neg Bool.false_ne_true, start, htask, if_neg Bool.false_ne_true]
      rw [if_neg hrun]
      apply ih (h.activate hb) _ hrunning
      intro t ht
      apply hcalm
      rcases mem_append.mp ht with ht | ht
      · exact mem_append_left _ ht
      · exact mem_append_right _ (mem_cons_of_mem _ ht)

theorem finish_ready (depth : Nat) (h : Scanning toLowerCase s queue []) (hqueue : s.queuedTasks = queue)
    (hcalm : ∀ t ∈ queue, t.throws = false) (hrunning : s.overflowed = false)
    (ht : task ∈ s.activeTasks) : Ready toLowerCase (s.finish toLowerCase (depth + 1) task) := by
  have hscan := h.deactivate ht
  rw [append_nil] at hscan
  show Ready toLowerCase (scan toLowerCase _ s.queuedTasks (s.deactivate task) [])
  rw [hqueue]
  exact scan_ready _ hscan hcalm hrunning

theorem Ready.enter (h : Ready toLowerCase s) (accesses : ToolAccesses) (throws : Bool) :
    Scanning toLowerCase { s with added := s.added ++ [s.newTask accesses throws] } s.queuedTasks
      [s.newTask accesses throws] := by
  have hs := h.scanned
  have hlast : ∀ t ∈ s.added, t.id < (s.newTask accesses throws).id := hs.added_lt
  have hnew : s.newTask accesses throws ∉ s.added := fun hmem => absurd (hlast _ hmem) (Nat.lt_irrefl _)
  have hunstarted : .started (s.newTask accesses throws) ∉ s.trace := fun hmem => hnew (hs.started _ hmem)
  have hqueue := hs.queued
  rw [append_nil] at hqueue
  constructor
  · apply pairwise_append.mpr
    refine ⟨append_nil s.queuedTasks ▸ hs.sorted, pairwise_singleton _ _, ?_⟩
    intro t ht u hu
    obtain rfl := mem_singleton.mp hu
    exact hlast t (hqueue t ht).1
  · apply pairwise_append.mpr
    refine ⟨hs.added_sorted, pairwise_singleton _ _, ?_⟩
    intro t ht u hu
    obtain rfl := mem_singleton.mp hu
    exact hlast t ht
  · intro t ht
    rw [length_append]
    rcases mem_snoc.mp ht with ht | rfl
    · exact Nat.lt_succ_of_lt (hs.added_lt t ht)
    · exact Nat.lt_succ_self _
  · intro t ht
    rcases mem_append.mp ht with ht | ht
    · rcases hs.placed t ht with h | h | h
      · exact .inl h
      · rw [append_nil] at h
        exact .inr (.inl (mem_append_left _ h))
      · exact .inr (.inr h)
    · exact .inr (.inl (mem_append_right _ ht))
  · intro t ht
    obtain ⟨hin, hrest⟩ := hs.active t ht
    exact ⟨mem_append_left _ hin, hrest⟩
  · intro t ht
    rcases mem_snoc.mp ht with ht | rfl
    · obtain ⟨hin, hnot⟩ := hqueue t ht
      exact ⟨mem_append_left _ hin, hnot⟩
    · exact ⟨mem_concat_self, hunstarted⟩
  · exact fun t ht => mem_append_left _ (hs.started t ht)
  · exact hs.finished
  · exact hs.active_nodup
  · exact hs.active_apart
  · intro t ht u hu hlt hc hstarted
    have hu' := hs.started u hstarted
    rcases mem_snoc.mp ht with ht | rfl
    · exact hs.in_order t ht u hu' hlt hc hstarted
    · exact absurd hlt (Nat.lt_asymm (hlast u hu'))
  · exact hs.waits

theorem Ready.add (h : Ready toLowerCase s) (depth : Nat) (accesses : ToolAccesses) (throws : Bool)
    (hcalm : Calm toLowerCase s (.add accesses throws)) :
    Ready toLowerCase (s.add toLowerCase (depth + 1) (s.newTask accesses throws)) := by
  have hent := h.enter accesses throws
  have hsame : ({ s with added := s.added ++ [s.newTask accesses throws] } : ToolScheduler).isBlocked
      toLowerCase (s.newTask accesses throws) s.queuedTasks =
        s.isBlocked toLowerCase (s.newTask accesses throws) s.queuedTasks := rfl
  rw [ToolScheduler.add]
  rw [hsame]
  cases hb : s.isBlocked toLowerCase (s.newTask accesses throws) s.queuedTasks with
  | true =>
    refine ⟨(hent.keep hb).setQueue _, ?_, h.running⟩
    intro t ht
    rcases mem_snoc.mp ht with ht | rfl
    · exact h.calm t ht
    · cases throws with
      | true =>
        have hfree := hcalm rfl
        rw [hb] at hfree
        cases hfree
      | false => rfl
  | false =>
    have hact := hent.activate (hsame.trans hb)
    rw [if_neg Bool.false_ne_true, start]
    split
    · have hmem : s.newTask accesses throws ∈ s.activeTasks ++ [s.newTask accesses throws] := mem_concat_self
      exact finish_ready depth hact rfl h.calm h.running hmem
    · exact ⟨hact, h.calm, h.running⟩

theorem Ready.step (depth : Nat) (h : Ready toLowerCase s)
    (hcalm : Calm toLowerCase s e) (hs : s.step toLowerCase (depth + 1) e = some s') :
    Ready toLowerCase s' := by
  unfold ToolScheduler.step at hs
  rw [h.running] at hs
  cases e with
  | add accesses throws =>
    cases hs
    exact h.add depth accesses throws hcalm
  | settled id rejected =>
    obtain ⟨task, htask, rfl⟩ := map_eq_some_iff.mp hs
    exact finish_ready depth h.scanned rfl h.calm h.running (mem_of_find?_eq_some htask)

theorem Ready.wellScheduled (h : Ready toLowerCase s) : WellScheduled toLowerCase s := by
  have hs := h.scanned
  have hplaced := hs.placed
  have hqueued := hs.queued
  have hsorted := hs.sorted
  rw [append_nil] at hplaced hqueued hsorted
  have hopen : ∀ t ∈ s.queuedTasks, .finished t ∉ s.trace := fun t ht =>
    hs.queued_not_finished (mem_append_left _ ht)
  constructor
  · exact hs.active_apart
  · intro t ht
    constructor
    · intro hact
      obtain ⟨_, hone, hnot⟩ := hs.active t hact
      refine ⟨?_, hnot⟩
      apply count_pos_iff.mp
      rw [hone]
      exact Nat.one_pos
    · rintro ⟨hstarted, hnot⟩
      rcases hplaced t ht with h | h | h
      · exact h
      · exact absurd hstarted (hqueued t h).2
      · exact absurd h hnot
  · exact hs.in_order
  · intro t ht
    split
    · rename_i hq
      exact count_eq_zero.mpr (hqueued t hq).2
    · rename_i hq
      rcases hplaced t ht with h | h | h
      · exact (hs.active t h).2.1
      · exact absurd h hq
      · exact hs.finished t h
  · intro u hu
    obtain ⟨a, b, hq⟩ := append_of_mem hu
    obtain ⟨t, ht, hc⟩ := hs.waits a u b hq
    rw [conflicts_comm] at hc
    obtain ⟨hadded, hunstarted⟩ := hqueued u hu
    rcases mem_append.mp ht with ht | ht
    · obtain ⟨htadded, hone, hnot⟩ := hs.active t ht
      have hstarted : .started t ∈ s.trace := by
        apply count_pos_iff.mp
        rw [hone]
        exact Nat.one_pos
      refine ⟨t, htadded, ?_, hc, hnot⟩
      -- an active task that came later would have waited for this one
      by_contra hle
      rcases Nat.lt_or_eq_of_le (Nat.le_of_not_lt hle) with hlt | he
      · rw [conflicts_comm] at hc
        obtain ⟨before, after, he, hf⟩ := hs.in_order u hadded t htadded hlt hc hstarted
        apply hopen u hu
        rw [he]
        exact mem_append_left _ hf
      · have hne : t ≠ u := by
          rintro rfl
          exact hunstarted hstarted
        exact hne (hs.eq_of_id hadded htadded he).symm
    · have htq : t ∈ s.queuedTasks := by
        rw [hq]
        exact mem_append_left _ ht
      rw [hq] at hsorted
      refine ⟨t, (hqueued t htq).1, ?_, hc, hopen t htq⟩
      exact (pairwise_append.mp hsorted).2.2 t ht u mem_cons_self

theorem Ready.empty : Ready toLowerCase {} := by
  constructor
  · exact ⟨.nil, .nil, nofun, nofun, nofun, nofun, nofun, nofun, .nil, .nil, nofun, fun a u b he =>
      absurd he.symm (append_ne_nil_of_right_ne_nil _ (cons_ne_nil _ _))⟩
  · exact nofun
  · rfl

/-- If no task that has to queue throws when it is started, then in every state of a run conflicting
tasks run one after the other, in the order in which they were added, each is started once, and one
that is queued waits for an earlier task. Accesses that do not conflict only read, or share no
path. -/
theorem run_wellScheduled (toLowerCase : String → String) (depth : Nat) (events : List SchedulerEvent)
    (s : ToolScheduler) (hrun : run toLowerCase (depth + 1) events = some s)
    (hcalm : AlongRun (step toLowerCase (depth + 1)) (Calm toLowerCase) {} events) :
    s.overflowed = false ∧ WellScheduled toLowerCase s ∧
      ∀ left right, ToolAccesses.conflict toLowerCase left right = false →
        ∀ l ∈ left, ∀ r ∈ right, Apart toLowerCase l r := by
  have hready : Ready toLowerCase s :=
    hcalm.invariant (I := Ready toLowerCase) (fun _ _ _ h hc hs => h.step depth hc hs) Ready.empty hrun
  exact ⟨hready.running, hready.wellScheduled, fun _ _ => apart_of_not_conflict toLowerCase⟩

/-! What becomes of the tasks whose start throws. -/

/-- The tasks that the catch of `start` rejected. It is the only way to the end of a task that
throws. -/
def rejectedTasks (s : ToolScheduler) : List ToolCallTask :=
  s.trace.filterMap fun action =>
    match action with
    | .started _ => none
    | .finished task => if task.throws then some task else none

/-- Every task that throws is over, and nothing else was rejected by a catch. -/
structure Rejecting (s : ToolScheduler) : Prop where
  active_calm : ∀ t ∈ s.activeTasks, t.throws = false
  rejected : s.rejectedTasks = s.added.filter (·.throws)

theorem scan_calm (rescan : ToolScheduler → ToolScheduler) (hcalm : ∀ t ∈ rest, t.throws = false)
    (hrunning : s.overflowed = false) :
    ∃ tasks, (∀ t ∈ tasks, t.throws = false) ∧
      (scan toLowerCase rescan rest s still).activeTasks = s.activeTasks ++ tasks ∧
      (scan toLowerCase rescan rest s still).trace = s.trace ++ tasks.map .started ∧
      (scan toLowerCase rescan rest s still).added = s.added := by
  induction rest generalizing s still with
  | nil => exact ⟨[], nofun, by simp [scan], by simp [scan], by simp [scan]⟩
  | cons task rest ih =>
    obtain ⟨htask, hrest⟩ := forall_mem_cons.mp hcalm
    rw [scan]
    split
    · exact ih hrest hrunning
    · have hrun : ¬ (s.activate task).overflowed = true := by simp [activate, hrunning]
      simp only [start, htask, Bool.false_eq_true, if_false, if_neg hrun]
      obtain ⟨tasks, hall, hactive, htrace, hadded⟩ := @ih (s.activate task) still hrest hrunning
      refine ⟨task :: tasks, forall_mem_cons.mpr ⟨htask, hall⟩, ?_, ?_, hadded⟩
      · rw [hactive, activate, append_assoc, singleton_append]
      · rw [htrace, activate, append_assoc, singleton_append, map_cons]

namespace Rejecting

theorem start_calm (h : Rejecting s) (hadded : s'.added = s.added) (hall : ∀ t ∈ tasks, t.throws = false)
    (hactive : s'.activeTasks = s.activeTasks ++ tasks) (htrace : s'.trace = s.trace ++ tasks.map .started) :
    Rejecting s' := by
  constructor
  · intro t ht
    rw [hactive, mem_append] at ht
    exact ht.elim (h.active_calm t) (hall t)
  · have hrejected := h.rejected
    rw [rejectedTasks] at hrejected
    rw [rejectedTasks, htrace, filterMap_append, hrejected, hadded]
    simp [filterMap_map]

theorem scan (h : Rejecting s) (depth : Nat) (hcalm : ∀ t ∈ s.queuedTasks, t.throws = false)
    (hrunning : s.overflowed = false) : Rejecting (startQueuedTasks toLowerCase (depth + 1) s) := by
  obtain ⟨tasks, hall, hactive, htrace, hadded⟩ :=
    @scan_calm toLowerCase s [] s.queuedTasks (startQueuedTasks toLowerCase depth) hcalm hrunning
  exact h.start_calm hadded hall hactive htrace

theorem step (depth : Nat) (h : Rejecting s) (hready : Ready toLowerCase s) (hcalm : Calm toLowerCase s e)
    (hs : s.step toLowerCase (depth + 1) e = some s') : Rejecting s' := by
  simp only [ToolScheduler.step, hready.running, Bool.false_eq_true, if_false] at hs
  cases e with
  | add accesses throws =>
    cases hs
    rw [add]
    split
    · rename_i hblocked
      have hthrows : throws = false := by
        by_contra hne
        have hfree := hcalm (by simp_all)
        exact Bool.false_ne_true (hfree.symm.trans hblocked)
      refine ⟨h.active_calm, h.rejected.trans ?_⟩
      simp [newTask, hthrows]
    · rw [start]
      split
      · rename_i hthrows
        have hfresh : s.newTask accesses throws ∉ s.activeTasks := by
          intro hmem
          have hcalm := h.active_calm _ hmem
          rw [hthrows] at hcalm
          cases hcalm
        refine scan ?_ depth hready.calm hready.running
        constructor
        · intro t ht
          simp only [deactivate, activate, erase_append_right _ hfresh, erase_cons_head, append_nil] at ht
          exact h.active_calm t ht
        · have hrejected := h.rejected
          rw [rejectedTasks] at hrejected
          simp [rejectedTasks, deactivate, activate, hrejected, hthrows]
      · rename_i hthrows
        have hone : ∀ t ∈ [s.newTask accesses throws], t.throws = false := by simpa using hthrows
        have hadd : Rejecting { s with added := s.added ++ [s.newTask accesses throws] } :=
          ⟨h.active_calm, h.rejected.trans (by simp [hthrows])⟩
        exact hadd.start_calm rfl hone rfl rfl
  | settled id rejected =>
    obtain ⟨task, htask, rfl⟩ := map_eq_some_iff.mp hs
    have htask := h.active_calm task (mem_of_find?_eq_some htask)
    refine scan ?_ depth hready.calm hready.running
    constructor
    · exact fun t ht => h.active_calm t (mem_of_mem_erase ht)
    · have hrejected := h.rejected
      rw [rejectedTasks] at hrejected
      simp [rejectedTasks, deactivate, hrejected, htask]

end Rejecting

/-- If no task that has to queue throws when it is started, then in every state of a run the tasks
rejected by a catch are those that throw, each once and in the order in which they were added; every
task that is not queued was started once, none was started twice, and nothing stays queued behind
tasks that are all over. -/
theorem run_rejects (toLowerCase : String → String) (depth : Nat) (events : List SchedulerEvent)
    (s : ToolScheduler) (hrun : run toLowerCase (depth + 1) events = some s)
    (hcalm : AlongRun (step toLowerCase (depth + 1)) (Calm toLowerCase) {} events) :
    s.overflowed = false ∧ s.rejectedTasks = s.added.filter (·.throws) ∧
      (∀ t ∈ s.added, s.trace.count (.started t) = if t ∈ s.queuedTasks then 0 else 1) ∧
      (s.activeTasks = [] → s.queuedTasks = []) := by
  have hready : Ready toLowerCase s ∧ Rejecting s := by
    apply hcalm.invariant (I := fun s => Ready toLowerCase s ∧ Rejecting s) _ ⟨Ready.empty, nofun, rfl⟩ hrun
    rintro s e s' ⟨hready, h⟩ hc hs
    exact ⟨hready.step depth hc hs, h.step depth hready hc hs⟩
  refine ⟨hready.1.running, hready.2.rejected, hready.1.wellScheduled.started_once, ?_⟩
  intro hactive
  cases hqueue : s.queuedTasks with
  | nil => rfl
  | cons u queue =>
    -- the first of the queue waits for an active task
    obtain ⟨t, ht, _⟩ := hready.1.scanned.waits [] u queue hqueue
    simp [hactive] at ht

theorem startQueuedTasks_throws (depth : Nat) (s : ToolScheduler) (task : ToolCallTask)
    (hactive : s.activeTasks = []) (hqueue : s.queuedTasks = [task]) (hthrows : task.throws = true) :
    (startQueuedTasks toLowerCase depth s).overflowed = true ∧
      (startQueuedTasks toLowerCase depth s).trace.count (.started task) =
        s.trace.count (.started task) + depth := by
  induction depth generalizing s with
  | zero => exact ⟨rfl, rfl⟩
  | succ depth ih =>
    have hfree : s.isBlocked toLowerCase task [] = false := by
      rw [isBlocked, hactive]
      rfl
    have hgone : ((s.activate task).deactivate task).activeTasks = [] := by
      show (s.activeTasks ++ [task]).erase task = []
      rw [hactive, nil_append, erase_cons_head]
    have htrace : ((s.activate task).deactivate task).trace.count (.started task) =
        s.trace.count (.started task) + 1 := by
      show (s.trace ++ [SchedulerAction.started task] ++ [SchedulerAction.finished task]).count
        (SchedulerAction.started task) = _
      have hfinished : [SchedulerAction.finished task].count (.started task) = 0 := by
        rw [count_eq_zero]
        exact nofun
      rw [count_append, count_append, count_singleton_self, hfinished]
    obtain ⟨hover, hcount⟩ := ih ((s.activate task).deactivate task) hgone hqueue
    rw [startQueuedTasks, hqueue, scan, hfree, if_neg Bool.false_ne_true, start, if_pos hthrows]
    rw [if_pos hover]
    exact ⟨hover, by omega⟩

def firstWriter : ToolCallTask := { id := 0, accesses := ToolAccesses.writeFile "a" }

def throwingWriter : ToolCallTask := { id := 1, accesses := ToolAccesses.writeFile "a", throws := true }

def writers : List SchedulerEvent :=
  [.add firstWriter.accesses false, .add throwingWriter.accesses true, .settled 0 false]

/-- The second writer is started over and over, however deep the stack. -/
theorem writers_started (depth : Nat) : ∃ s, run id depth writers = some s ∧ s.overflowed = true ∧
      s.trace.count (.started throwingWriter) = depth := by
  let before : ToolScheduler :=
    { activeTasks := [firstWriter]
      added := [firstWriter, throwingWriter]
      trace := [.started firstWriter] }
  let s : ToolScheduler := { before with queuedTasks := [throwingWriter] }
  have hrun : run id depth writers = some (s.finish id depth firstWriter) := by
    rfl
  obtain ⟨hover, hcount⟩ := @startQueuedTasks_throws id depth
    (s.deactivate firstWriter) throwingWriter rfl rfl rfl
  exact ⟨_, hrun, hover, hcount.trans (Nat.zero_add depth)⟩

/-- No stack is deep enough for the second writer to be started only once. -/
theorem throwingWriter_restarted : ¬∃ depth s, run id (depth + 2) writers = some s ∧
      (s.overflowed = false ∨ s.trace.count (.started throwingWriter) = 1) := by
  rintro ⟨depth, s, hrun, hs⟩
  obtain ⟨s', hrun', hover, hcount⟩ := writers_started (depth + 2)
  cases hrun.symm.trans hrun'
  cases hs with
  | inl hs => exact Bool.false_ne_true (hs.symm.trans hover)
  | inr hs => omega

/-- However deep the stack, the second writer is started twice at least. -/
theorem throwingWriter_started_again :
    ¬∃ depth s, run id (depth + 2) writers = some s ∧ s.trace.count (.started throwingWriter) ≤ 1 := by
  rintro ⟨depth, s, hrun, hs⟩
  obtain ⟨s', hrun', _, hcount⟩ := writers_started (depth + 2)
  cases hrun.symm.trans hrun'
  omega

/-- A task of another file, whose start throws while a writer is active. -/
def apartWriters : List SchedulerEvent :=
  [.add firstWriter.accesses false, .add (ToolAccesses.writeFile "b") true,
    .add (ToolAccesses.readFile "a") false, .settled 0 false]

theorem run_rejects_apartWriters : ∃ s, run id 1 apartWriters = some s ∧ s.overflowed = false ∧
      s.rejectedTasks = s.added.filter (·.throws) ∧
      (∀ t ∈ s.added, s.trace.count (.started t) = if t ∈ s.queuedTasks then 0 else 1) ∧
      (s.activeTasks = [] → s.queuedTasks = []) := by
  have hrun : (run id 1 apartWriters).isSome = true := by decide +kernel
  obtain ⟨s, hs⟩ := isSome_iff_exists.mp hrun
  exact ⟨s, hs, run_rejects id 0 apartWriters s hs (by decide +kernel)⟩

def writerAndReaders : List SchedulerEvent :=
  [.add (ToolAccesses.writeTree "/repo/src") false, .add (ToolAccesses.readFile "/repo/src/a.ts") false,
    .add (ToolAccesses.readFile "/repo/b.ts") false, .settled 0 true]

theorem run_wellScheduled_writerAndReaders :
    ∃ s, run id 1 writerAndReaders = some s ∧ s.overflowed = false ∧ WellScheduled id s ∧
      ∀ left right, ToolAccesses.conflict id left right = false → ∀ l ∈ left, ∀ r ∈ right, Apart id l r := by
  have hrun : (run id 1 writerAndReaders).isSome = true := by decide +kernel
  obtain ⟨s, hs⟩ := isSome_iff_exists.mp hrun
  exact ⟨s, hs, run_wellScheduled id 0 writerAndReaders s hs (by decide +kernel)⟩

end ToolScheduler

end Echadron.Agent
