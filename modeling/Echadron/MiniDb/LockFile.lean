import Echadron.Lib.Runs
import Mathlib.Data.List.Nodup
import Mathlib.Data.List.TakeWhile

namespace Echadron.MiniDb
open Lib List Option

/-! The lock of a database directory. -/

/-- A lock file object of a process. -/
structure LockInstance where
  pid : Nat
  id : Nat
deriving DecidableEq

/-- A file has the pid of its owner; the rest says whose it is. -/
structure LockContent where
  owner : LockInstance
  attempt : Nat
deriving DecidableEq

def LockContent.pid (c : LockContent) : Nat := c.owner.pid

structure Watch where
  pid : Nat
  attempt : Nat
deriving DecidableEq

/-- Where a call of `acquire` is: what it does next. -/
inductive AcquireStage where
  | registering
  | reaping
  | creating
  /-- Its link is there, and it is not yet marked as held. -/
  | linked
  | inspecting
  /-- A file has been read, and the owner is yet to be judged. -/
  | judging (seen : LockContent)
  | bidding
  | gating
  | gateJudging (seen : LockContent)
  | replacing
  | settling
  | checking
  /-- The directory has been read, with these watches of other processes. -/
  | weighing (watches : List Watch)
  | leaving (acquired : Bool)
  | done (acquired : Bool)
deriving DecidableEq

structure Attempt where
  owner : LockInstance
  stage : AcquireStage := .registering
deriving DecidableEq

inductive ReleaseStage where
  | inspecting
  | unlinking
  | clearing
deriving DecidableEq

structure LockRelease where
  owner : LockInstance
  stage : ReleaseStage := .inspecting
deriving DecidableEq

/-- The directory and all the processes that use its lock. -/
structure LockDir where
  lock : Option LockContent := none
  watches : List Watch := []
  /-- The processes that are gone. -/
  dead : List Nat := []
  attempts : List Attempt := []
  held : List LockInstance := []
  releases : List LockRelease := []
  /-- Who has released, and whose file was removed. -/
  unlinked : List (LockInstance × LockInstance) := []
deriving DecidableEq

inductive LockEvent where
  | acquire (owner : LockInstance)
  | advance (attempt : Nat)
  /-- A rename that is refused, and tried again or not. -/
  | renameFails (attempt : Nat) (retry : Bool)
  | release (owner : LockInstance)
  | advanceRelease (release : Nat)
  | releaseSync (owner : LockInstance)
  | crash (pid : Nat)
deriving DecidableEq

namespace LockDir

section

variable (s : LockDir)

def pidAlive (pid : Nat) : Bool := pid ∉ s.dead

def goto (i : Nat) (a : Attempt) (stage : AcquireStage) : LockDir :=
  { s with attempts := s.attempts.set i { a with stage := stage } }

def markHeld (owner : LockInstance) : LockDir :=
  { s with held := if owner ∈ s.held then s.held else s.held ++ [owner] }

def watch (w : Watch) : LockDir := { s with watches := s.watches ++ [w] }

def unwatch (watches : List Watch) : LockDir := { s with watches := s.watches.filter (· ∉ watches) }

/-- A link or a rename puts a file in the place of the lock. -/
def publish (content : LockContent) : LockDir := { s with lock := some content }

def acquireStep (i : Nat) (a : Attempt) : Option LockDir :=
  match a.stage with
  | .registering => some ((s.watch ⟨a.owner.pid, i⟩).goto i a .reaping)
  | .reaping =>
    let dead := s.watches.filter fun w => w.pid ≠ a.owner.pid && !s.pidAlive w.pid
    some ((s.unwatch dead).goto i a .creating)
  | .creating =>
    match s.lock with
    | none => some ((s.publish ⟨a.owner, i⟩).goto i a .linked)
    | some _ => some (s.goto i a .inspecting)
  | .linked => some ((s.markHeld a.owner).goto i a (.leaving true))
  | .inspecting =>
    match s.lock with
    | none => some (s.goto i a (.leaving false))
    | some seen => some (s.goto i a (.judging seen))
  | .judging seen =>
    if s.pidAlive seen.pid then some (s.goto i a (.leaving false)) else some (s.goto i a .bidding)
  | .bidding => some (s.goto i a .gating)
  | .gating =>
    match s.lock with
    | none => some (s.goto i a (.leaving false))
    | some seen => some (s.goto i a (.gateJudging seen))
  | .gateJudging seen =>
    if s.pidAlive seen.pid || seen.pid = a.owner.pid then some (s.goto i a (.leaving false))
    else some (s.goto i a .replacing)
  | .replacing => some ((s.publish ⟨a.owner, i⟩).goto i a .settling)
  | .settling =>
    if s.lock.any fun c => c.pid = a.owner.pid then some (s.goto i a .checking)
    else some (s.goto i a (.leaving false))
  | .checking => some (s.goto i a (.weighing (s.watches.filter fun w => w.pid ≠ a.owner.pid)))
  | .weighing watches =>
    let reaped := s.unwatch (watches.takeWhile fun w => !s.pidAlive w.pid)
    if watches.any fun w => s.pidAlive w.pid then some (reaped.goto i a .settling)
    else some ((reaped.markHeld a.owner).goto i a (.leaving true))
  | .leaving acquired => some ((s.unwatch [⟨a.owner.pid, i⟩]).goto i a (.done acquired))
  | .done _ => none

def unlinkMine (owner : LockInstance) : LockDir :=
  { s with
    lock := none
    unlinked := s.unlinked ++ (s.lock.map fun c => (owner, c.owner)).toList }

def mine (owner : LockInstance) : Bool := s.lock.any fun c => c.pid = owner.pid

def clear (owner : LockInstance) : LockDir := { s with held := s.held.filter (· ≠ owner) }

def releaseStep (i : Nat) (r : LockRelease) : LockDir :=
  match r.stage with
  | .inspecting =>
    let stage : ReleaseStage := if s.mine r.owner then .unlinking else .clearing
    { s with releases := s.releases.set i { r with stage := stage } }
  | .unlinking => { s.unlinkMine r.owner with releases := s.releases.set i { r with stage := .clearing } }
  | .clearing => { s.clear r.owner with releases := s.releases.eraseIdx i }

/-- Only a process that is alive does anything. -/
def step : LockEvent → Option LockDir
  | .acquire owner =>
    if s.pidAlive owner.pid then some { s with attempts := s.attempts ++ [{ owner := owner }] } else none
  | .advance i => s.attempts[i]?.bind fun a => if s.pidAlive a.owner.pid then s.acquireStep i a else none
  | .renameFails i retry =>
    s.attempts[i]?.bind fun a =>
      if s.pidAlive a.owner.pid ∧ a.stage = .replacing then
        some (s.goto i a (if retry then .gating else .leaving false))
      else none
  | .release owner =>
    if s.pidAlive owner.pid ∧ owner ∈ s.held then
      some { s with releases := s.releases ++ [{ owner := owner }] }
    else none
  | .advanceRelease i =>
    s.releases[i]?.bind fun r => if s.pidAlive r.owner.pid then some (s.releaseStep i r) else none
  | .releaseSync owner =>
    if s.pidAlive owner.pid ∧ owner ∈ s.held then
      some ((if s.mine owner then s.unlinkMine owner else s).clear owner)
    else none
  | .crash pid => if s.pidAlive pid then some { s with dead := pid :: s.dead } else none

end

end LockDir

def AcquireStage.bids : AcquireStage → Bool
  | .settling | .checking | .weighing _ => true
  | _ => false

/-- A takeover between its last check of the lock and its end. -/
def AcquireStage.takesOver : AcquireStage → Bool
  | .replacing => true
  | stage => stage.bids

def AcquireStage.won : AcquireStage → Bool
  | .leaving acquired | .done acquired => acquired
  | _ => false

namespace LockDir

def Holds (s : LockDir) (owner : LockInstance) : Prop :=
  owner ∈ s.held ∧ s.pidAlive owner.pid = true ∧ ∀ r ∈ s.releases, r.owner = owner → r.stage ≠ .clearing

structure Exclusive (s : LockDir) : Prop where
  one : ∀ o o', s.Holds o → s.Holds o' → o = o'
  own : ∀ p ∈ s.unlinked, p.1 = p.2

def Takeable (s : LockDir) : Prop :=
  ∃ c ∈ s.lock, s.pidAlive c.pid = false ∨ ∃ a ∈ s.attempts[c.attempt]?, a.stage.bids = true

/-- What an attempt needs to go on. The last check of a takeover is not passed unless the lock is
still takeable and no other takeover of the process is under way, and the lock is not claimed unless
the bid is still in its place. -/
def MayAdvance (s : LockDir) (i : Nat) (a : Attempt) : AcquireStage → Prop
  | .gateJudging seen => s.pidAlive seen.pid = false →
      s.Takeable ∧ ∀ b ∈ s.attempts, b.owner.pid = a.owner.pid → b.stage.takesOver = false
  | .weighing watches => (∀ w ∈ watches, s.pidAlive w.pid = false) → s.lock = some ⟨a.owner, i⟩
  | _ => True

/-- An instance is released once at a time. -/
def Meets (s : LockDir) : LockEvent → Prop
  | .advance i => ∀ a ∈ s.attempts[i]?, s.MayAdvance i a a.stage
  | .release owner | .releaseSync owner => ∀ r ∈ s.releases, r.owner ≠ owner
  | _ => True

end LockDir

/-! What the file, the watches and the stages have to do with each other. -/

def AcquireStage.owns : AcquireStage → Bool
  | .linked => true
  | stage => stage.won

def AcquireStage.watched : AcquireStage → Bool
  | .registering | .done _ => false
  | _ => true

def AcquireStage.fresh (bid : LockContent) : AcquireStage → Bool
  | .registering | .reaping | .creating | .inspecting | .leaving _ | .done _ => true
  | .judging seen => seen = bid
  | _ => false

section

variable {stage : AcquireStage}

theorem AcquireStage.takesOver_of_bids (h : stage.bids = true) : stage.takesOver = true := by
  cases stage <;> first | rfl | exact h

theorem AcquireStage.not_takesOver_of_fresh (h : stage.fresh bid = true) : stage.takesOver = false := by
  cases stage <;> first | rfl | cases h

theorem AcquireStage.not_bids_of_owns (h : stage.owns = true) : stage.bids = false := by
  cases stage <;> first | rfl | cases h

theorem AcquireStage.owns_of_won (h : stage.won = true) : stage.owns = true := by
  cases stage <;> first | exact h | cases h

theorem AcquireStage.watched_of_bids (h : stage.bids = true) : stage.watched = true := by
  cases stage <;> first | rfl | cases h

theorem AcquireStage.not_fresh_of_bids (h : stage.bids = true) : stage.fresh bid = false := by
  cases stage <;> first | rfl | cases h

theorem AcquireStage.fresh_of_unwatched (h : stage.watched = false) : stage.fresh bid = true := by
  cases stage <;> first | rfl | exact absurd h.symm Bool.false_ne_true

end

namespace LockDir

def At (s : LockDir) (i : Nat) (a : Attempt) : Prop := s.attempts[i]? = some a

theorem At.unique {s : LockDir} (h : s.At i a) (h' : s.At i b) : a = b := Option.some.inj (h.symm.trans h')

structure Inv (s : LockDir) : Prop where
  content : ∀ c ∈ s.lock, ∃ a, s.At c.attempt a ∧ a.owner = c.owner ∧
    (s.pidAlive a.owner.pid = true → a.stage.owns = true ∨ a.stage.bids = true)
  linked : ∀ i a, s.At i a → s.pidAlive a.owner.pid = true → a.stage = .linked → s.lock = some ⟨a.owner, i⟩
  /-- While a takeover is under way, nobody has the lock. -/
  takeable : ∀ i a, s.At i a → s.pidAlive a.owner.pid = true → a.stage.takesOver = true → s.Takeable
  /-- One takeover of a process at a time. -/
  single : ∀ i a j b, s.At i a → s.At j b → s.pidAlive a.owner.pid = true →
    a.owner.pid = b.owner.pid → a.stage.takesOver = true → b.stage.takesOver = true → i = j
  watched : ∀ i a, s.At i a → s.pidAlive a.owner.pid = true → a.stage.watched = true →
    ⟨a.owner.pid, i⟩ ∈ s.watches
  /-- Who came after the directory was read has seen nothing but the bid that is in place. -/
  weighing : ∀ i a watches, s.At i a → s.pidAlive a.owner.pid = true → a.stage = .weighing watches →
    s.lock = some ⟨a.owner, i⟩ → ∀ j b, s.At j b → s.pidAlive b.owner.pid = true →
      b.owner.pid ≠ a.owner.pid → ⟨b.owner.pid, j⟩ ∉ watches → b.stage.fresh ⟨a.owner, i⟩ = true
  held : ∀ owner, s.Holds owner → ∃ c ∈ s.lock, c.owner = owner ∧ ∃ a, s.At c.attempt a ∧ a.stage.won = true
  releases : (s.releases.map LockRelease.owner).Nodup
  releasing : ∀ r ∈ s.releases, s.pidAlive r.owner.pid = true → r.stage ≠ .clearing → r.owner ∈ s.held
  unlinked : ∀ p ∈ s.unlinked, p.1 = p.2

theorem not_at_start : ¬ ({} : LockDir).At i a := by
  intro h
  cases h

theorem Inv.start : ({} : LockDir).Inv :=
  { content := fun _ h => by cases h
    linked := fun _ _ h => absurd h not_at_start
    takeable := fun _ _ h => absurd h not_at_start
    single := fun _ _ _ _ h => absurd h not_at_start
    watched := fun _ _ h => absurd h not_at_start
    weighing := fun _ _ _ h => absurd h not_at_start
    held := fun _ h => absurd h.1 not_mem_nil
    releases := nodup_nil
    releasing := fun _ h => absurd h not_mem_nil
    unlinked := fun _ h => absurd h not_mem_nil }

theorem Inv.not_takeable {s : LockDir} (h : s.Inv) (hholds : s.Holds owner) : ¬ s.Takeable := by
  obtain ⟨c, hc, hown, a, ha, hwon⟩ := h.held owner hholds
  rintro ⟨c', hc', hdead | ⟨a', ha', hbids⟩⟩
  · obtain rfl := mem_unique hc hc'
    rw [LockContent.pid, hown, hholds.2.1] at hdead
    cases hdead
  · obtain rfl := mem_unique hc hc'
    obtain rfl := ha.unique ha'
    rw [AcquireStage.not_bids_of_owns (AcquireStage.owns_of_won hwon)] at hbids
    cases hbids

theorem Inv.exclusive {s : LockDir} (h : s.Inv) : s.Exclusive := by
  refine ⟨?_, h.unlinked⟩
  intro o o' ho ho'
  obtain ⟨c, hc, hown, -⟩ := h.held o ho
  obtain ⟨c', hc', hown', -⟩ := h.held o' ho'
  obtain rfl := mem_unique hc hc'
  exact hown.symm.trans hown'

theorem at_goto {s : LockDir} (ha : s.At i a) :
    (s.goto i a stage).At j b ↔ (j = i ∧ b = { a with stage := stage }) ∨ (j ≠ i ∧ s.At j b) := by
  rw [At, goto, getElem?_set]
  have hlt := getElem?_lt ha
  by_cases he : i = j
  · subst he
    rw [if_pos rfl, if_pos hlt, some.injEq]
    exact ⟨fun hb => .inl ⟨rfl, hb.symm⟩, fun hb => (hb.resolve_right fun hno => hno.1 rfl).2.symm⟩
  · rw [if_neg he]
    exact ⟨fun hb => .inr ⟨Ne.symm he, hb⟩, fun hb => (hb.resolve_left fun hno => he hno.1.symm).2⟩

theorem at_goto_self {s : LockDir} (ha : s.At i a) : (s.goto i a stage).At i { a with stage := stage } :=
  (at_goto ha).mpr (.inl ⟨rfl, rfl⟩)

structure Moves (s : LockDir) (i : Nat) (a : Attempt) (stage : AcquireStage) : Prop where
  content : ∀ c ∈ s.lock, c.attempt = i → stage.owns = true ∨ stage.bids = true
  linked : stage = .linked → s.lock = some ⟨a.owner, i⟩
  takeable : ∀ j b, (s.goto i a stage).At j b → s.pidAlive b.owner.pid = true →
    b.stage.takesOver = true → (s.goto i a stage).Takeable
  single : stage.takesOver = true → a.stage.takesOver = true ∨
    ∀ j b, s.At j b → b.owner.pid = a.owner.pid → b.stage.takesOver = false
  watched : stage.watched = true → ⟨a.owner.pid, i⟩ ∈ s.watches
  weighing : ∀ watches, stage = .weighing watches → s.lock = some ⟨a.owner, i⟩ →
    ∀ j b, s.At j b → s.pidAlive b.owner.pid = true → b.owner.pid ≠ a.owner.pid →
      ⟨b.owner.pid, j⟩ ∉ watches → b.stage.fresh ⟨a.owner, i⟩ = true
  fresh : ∀ bid ∈ s.lock, s.pidAlive bid.pid = true → a.stage.fresh bid = true → stage.fresh bid = true
  won : ∀ c ∈ s.lock, c.attempt = i → a.stage.won = true → stage.won = true

section

variable {s : LockDir}

theorem Inv.goto (h : s.Inv) (ha : s.At i a) (hmoves : s.Moves i a stage) : (s.goto i a stage).Inv := by
  constructor
  · intro c hc
    obtain ⟨b, hb, hown, hstage⟩ := h.content c hc
    by_cases he : c.attempt = i
    · obtain rfl := ha.unique (he ▸ hb)
      exact ⟨_, (at_goto ha).mpr (.inl ⟨he, rfl⟩), hown, fun _ => hmoves.content c hc he⟩
    · exact ⟨b, (at_goto ha).mpr (.inr ⟨he, hb⟩), hown, hstage⟩
  · intro j b hb hlive hlinked
    rcases (at_goto ha).mp hb with ⟨rfl, rfl⟩ | ⟨-, hb⟩
    · exact hmoves.linked hlinked
    · exact h.linked j b hb hlive hlinked
  · exact hmoves.takeable
  · intro j b k d hb hd hlive hpid hover hover'
    rcases (at_goto ha).mp hb with ⟨rfl, rfl⟩ | ⟨-, hb'⟩
    · rcases (at_goto ha).mp hd with ⟨rfl, -⟩ | ⟨-, hd⟩
      · rfl
      · rcases hmoves.single hover with hbefore | hnone
        · exact h.single j a k d ha hd hlive hpid hbefore hover'
        · rw [hnone k d hd hpid.symm] at hover'
          cases hover'
    · rcases (at_goto ha).mp hd with ⟨rfl, rfl⟩ | ⟨-, hd⟩
      · rcases hmoves.single hover' with hbefore | hnone
        · exact h.single j b k a hb' ha hlive hpid hover hbefore
        · rw [hnone j b hb' hpid] at hover
          cases hover
      · exact h.single j b k d hb' hd hlive hpid hover hover'
  · intro j b hb hlive hwatched
    rcases (at_goto ha).mp hb with ⟨rfl, rfl⟩ | ⟨-, hb⟩
    · exact hmoves.watched hwatched
    · exact h.watched j b hb hlive hwatched
  · intro j b watches hb hlive hweighing hlock k d hd hlive' hforeign hnew
    rcases (at_goto ha).mp hb with ⟨rfl, rfl⟩ | ⟨-, hb'⟩
    · rcases (at_goto ha).mp hd with ⟨rfl, rfl⟩ | ⟨-, hd⟩
      · exact absurd rfl hforeign
      · exact hmoves.weighing watches hweighing hlock k d hd hlive' hforeign hnew
    · rcases (at_goto ha).mp hd with ⟨rfl, rfl⟩ | ⟨-, hd⟩
      · apply hmoves.fresh _ hlock hlive
        exact h.weighing j b watches hb' hlive hweighing hlock k a ha hlive' hforeign hnew
      · exact h.weighing j b watches hb' hlive hweighing hlock k d hd hlive' hforeign hnew
  · intro owner hholds
    obtain ⟨c, hc, hown, b, hb, hwon⟩ := h.held owner hholds
    by_cases he : c.attempt = i
    · obtain rfl := ha.unique (he ▸ hb)
      exact ⟨c, hc, hown, _, (at_goto ha).mpr (.inl ⟨he, rfl⟩), hmoves.won c hc he hwon⟩
    · exact ⟨c, hc, hown, b, (at_goto ha).mpr (.inr ⟨he, hb⟩), hwon⟩
  · exact h.releases
  · exact h.releasing
  · exact h.unlinked

theorem Takeable.goto (h : s.Takeable) (ha : s.At i a)
    (hbids : ∀ c ∈ s.lock, c.attempt = i → a.stage.bids = true → stage.bids = true) :
    (s.goto i a stage).Takeable := by
  obtain ⟨c, hc, hdead | ⟨b, hb, hbid⟩⟩ := h
  · exact ⟨c, hc, .inl hdead⟩
  · refine ⟨c, hc, .inr ?_⟩
    by_cases he : c.attempt = i
    · obtain rfl := ha.unique (he ▸ hb)
      exact ⟨_, (at_goto ha).mpr (.inl ⟨he, rfl⟩), hbids c hc he hbid⟩
    · exact ⟨b, (at_goto ha).mpr (.inr ⟨he, hb⟩), hbid⟩

section

variable (h : s.Inv)
include h

theorem Inv.takeable_goto (ha : s.At i a)
    (hbids : ∀ c ∈ s.lock, c.attempt = i → a.stage.bids = true → stage.bids = true)
    (htakes : stage.takesOver = true → s.Takeable) (j : Nat) (b : Attempt)
    (hb : (s.goto i a stage).At j b) (hlive : s.pidAlive b.owner.pid = true)
    (hover : b.stage.takesOver = true) : (s.goto i a stage).Takeable := by
  rcases (at_goto ha).mp hb with ⟨-, rfl⟩ | ⟨-, hb⟩
  · exact (htakes hover).goto ha hbids
  · exact (h.takeable j b hb hlive hover).goto ha hbids

section

variable (ha : s.At i a) (halive : s.pidAlive a.owner.pid = true) (howns : a.stage.owns = false)
  (hbids : a.stage.bids = false)
include ha halive howns hbids

theorem Inv.attempt_ne (hc : c ∈ s.lock) : c.attempt ≠ i := by
  rintro rfl
  obtain ⟨b, hb, -, hstage⟩ := h.content c hc
  obtain rfl := ha.unique hb
  rcases hstage halive with hown | hbid
  · rw [howns] at hown
    cases hown
  · rw [hbids] at hbid
    cases hbid

theorem Inv.moves_idle (hlinked : stage ≠ .linked) (hweighing : ∀ watches, stage ≠ .weighing watches)
    (htakes : stage.takesOver = true → s.Takeable ∧ (a.stage.takesOver = true ∨
      ∀ j b, s.At j b → b.owner.pid = a.owner.pid → b.stage.takesOver = false))
    (hwatched : stage.watched = true → ⟨a.owner.pid, i⟩ ∈ s.watches)
    (hfresh : ∀ bid ∈ s.lock, s.pidAlive bid.pid = true → a.stage.fresh bid = true →
      stage.fresh bid = true) : s.Moves i a stage := by
  have hne : ∀ c ∈ s.lock, c.attempt ≠ i := fun c hc => h.attempt_ne ha halive howns hbids hc
  constructor
  · exact fun c hc he => absurd he (hne c hc)
  · exact fun he => absurd he hlinked
  · exact h.takeable_goto ha (fun c hc he => absurd he (hne c hc)) fun ht => (htakes ht).1
  · exact fun ht => (htakes ht).2
  · exact hwatched
  · exact fun watches he => absurd he (hweighing watches)
  · exact hfresh
  · exact fun c hc he => absurd he (hne c hc)

end

theorem Inv.withWatches {watches : List Watch}
    (hwatched : ∀ i a, s.At i a → s.pidAlive a.owner.pid = true → a.stage.watched = true →
      ⟨a.owner.pid, i⟩ ∈ watches) : ({ s with watches := watches } : LockDir).Inv :=
  { h with watched := hwatched }

theorem Inv.watch (w : Watch) : (s.watch w).Inv :=
  h.withWatches fun i a ha hlive hwatched => mem_append_left _ (h.watched i a ha hlive hwatched)

theorem Inv.unwatch {watches : List Watch}
    (hgone : ∀ i a, s.At i a → s.pidAlive a.owner.pid = true → a.stage.watched = true →
      ⟨a.owner.pid, i⟩ ∉ watches) : (s.unwatch watches).Inv :=
  h.withWatches fun i a ha hlive hwatched => mem_filter.mpr
    ⟨h.watched i a ha hlive hwatched, decide_eq_true (hgone i a ha hlive hwatched)⟩

theorem Inv.unwatch_dead {watches : List Watch}
    (hdead : ∀ w ∈ watches, s.pidAlive w.pid = false) : (s.unwatch watches).Inv := by
  apply h.unwatch
  intro i a ha hlive hwatched hmem
  rw [hdead _ hmem] at hlive
  cases hlive

theorem Inv.hold (ha : s.At i a) (hlock : s.lock = some ⟨a.owner, i⟩)
    (hwon : a.stage.won = true) : (s.markHeld a.owner).Inv := by
  have hheld : ∀ owner, owner ∈ (s.markHeld a.owner).held ↔ owner ∈ s.held ∨ owner = a.owner := by
    intro owner
    rw [markHeld]
    split
    · next hmem =>
      refine ⟨.inl, ?_⟩
      rintro (ho | rfl)
      · exact ho
      · exact hmem
    · rw [mem_snoc]
  refine { h with held := ?_, releasing := ?_ }
  · rintro owner ⟨hmem, hholds⟩
    rcases (hheld owner).mp hmem with hmem | rfl
    · exact h.held owner ⟨hmem, hholds⟩
    · exact ⟨_, hlock, rfl, a, ha, hwon⟩
  · exact fun r hr hlive hstage => (hheld _).mpr (.inl (h.releasing r hr hlive hstage))

theorem Inv.publish (ha : s.At i a) (hfree : ∀ owner, ¬ s.Holds owner)
    (hlinked : ∀ j b, s.At j b → s.pidAlive b.owner.pid = true → b.stage ≠ .linked)
    (hcontent : stage.owns = true ∨ stage.bids = true)
    (htakes : stage.bids = true ∨ (stage.takesOver = false ∧ ∀ j b, s.At j b →
      s.pidAlive b.owner.pid = true → b.stage.takesOver = false))
    (hsingle : stage.takesOver = true → a.stage.takesOver = true)
    (hwatched : ⟨a.owner.pid, i⟩ ∈ s.watches)
    (hweighing : ∀ watches, stage ≠ .weighing watches) :
    ((s.publish ⟨a.owner, i⟩).goto i a stage).Inv := by
  have hself : ((s.publish ⟨a.owner, i⟩).goto i a stage).At i { a with stage := stage } := at_goto_self ha
  have hat : ∀ j b, ((s.publish ⟨a.owner, i⟩).goto i a stage).At j b →
      (j = i ∧ b = { a with stage := stage }) ∨ (j ≠ i ∧ s.At j b) :=
    fun j b hb => (at_goto ha).mp hb
  constructor
  · intro c hc
    cases hc
    exact ⟨_, hself, rfl, fun _ => hcontent⟩
  · intro j b hb hlive hstage
    rcases hat j b hb with ⟨rfl, rfl⟩ | ⟨-, hb⟩
    · rfl
    · exact absurd hstage (hlinked j b hb hlive)
  · intro j b hb hlive hover
    rcases htakes with hbids | ⟨hno, hnone⟩
    · exact ⟨_, rfl, .inr ⟨_, hself, hbids⟩⟩
    · rcases hat j b hb with ⟨rfl, rfl⟩ | ⟨-, hb⟩
      · rw [hno] at hover
        cases hover
      · rw [hnone j b hb hlive] at hover
        cases hover
  · intro j b k d hb hd hlive hpid hover hover'
    rcases hat j b hb with ⟨rfl, rfl⟩ | ⟨-, hb'⟩
    · rcases hat k d hd with ⟨rfl, -⟩ | ⟨-, hd⟩
      · rfl
      · exact h.single j a k d ha hd hlive hpid (hsingle hover) hover'
    · rcases hat k d hd with ⟨rfl, rfl⟩ | ⟨-, hd⟩
      · exact h.single j b k a hb' ha hlive hpid hover (hsingle hover')
      · exact h.single j b k d hb' hd hlive hpid hover hover'
  · intro j b hb hlive hstage
    rcases hat j b hb with ⟨rfl, rfl⟩ | ⟨-, hb⟩
    · exact hwatched
    · exact h.watched j b hb hlive hstage
  · intro j b watches hb hlive hstage hlock
    rcases hat j b hb with ⟨rfl, rfl⟩ | ⟨hj, hb⟩
    · exact absurd hstage (hweighing watches)
    · have hsame := some.inj hlock
      exact absurd (congrArg LockContent.attempt hsame).symm hj
  · exact fun owner hholds => absurd hholds (hfree owner)
  · exact h.releases
  · exact h.releasing
  · exact h.unlinked

theorem Inv.not_linked (htakeable : s.Takeable) (hb : s.At j b)
    (hlive : s.pidAlive b.owner.pid = true) : b.stage ≠ .linked := by
  intro hstage
  have hlock := h.linked j b hb hlive hstage
  obtain ⟨c, hc, hdead | ⟨d, hd, hbids⟩⟩ := htakeable
  · obtain rfl := mem_unique hlock hc
    rw [LockContent.pid, hlive] at hdead
    cases hdead
  · obtain rfl := mem_unique hlock hc
    obtain rfl := hb.unique hd
    rw [hstage] at hbids
    cases hbids

section

variable (ha : s.At i a) (hlive : s.pidAlive a.owner.pid = true)
include ha hlive

theorem Inv.link (hstage : a.stage = .creating) (hlock : s.lock = none) :
    ((s.publish ⟨a.owner, i⟩).goto i a .linked).Inv := by
  have hnone : ¬ s.Takeable := by
    rintro ⟨c, hc, -⟩
    rw [hlock] at hc
    cases hc
  apply h.publish ha
  · intro owner hholds
    obtain ⟨c, hc, -⟩ := h.held owner hholds
    rw [hlock] at hc
    cases hc
  · intro j b hb hlive' hlinked
    have hsome := h.linked j b hb hlive' hlinked
    rw [hlock] at hsome
    cases hsome
  · exact .inl rfl
  · refine .inr ⟨rfl, ?_⟩
    intro j b hb hlive'
    by_contra hover
    exact hnone (h.takeable j b hb hlive' (eq_true_of_ne_false hover))
  · exact fun ht => absurd ht Bool.false_ne_true
  · exact h.watched i a ha hlive (by rw [hstage]; rfl)
  · intro watches he
    cases he

theorem Inv.rename (hstage : a.stage = .replacing) : ((s.publish ⟨a.owner, i⟩).goto i a .settling).Inv := by
  have hover : a.stage.takesOver = true := by
    rw [hstage]
    rfl
  have htakeable := h.takeable i a ha hlive hover
  apply h.publish ha
  · exact fun owner hholds => h.not_takeable hholds htakeable
  · exact fun j b hb hlive' => h.not_linked htakeable hb hlive'
  · exact .inr rfl
  · exact .inl rfl
  · exact fun _ => hover
  · exact h.watched i a ha hlive (by rw [hstage]; rfl)
  · intro watches he
    cases he

theorem Inv.moves_bidding (hbids : a.stage.bids = true) (hstage : stage.bids = true)
    (hweighing : ∀ watches, stage = .weighing watches → s.lock = some ⟨a.owner, i⟩ →
      ∀ j b, s.At j b → s.pidAlive b.owner.pid = true → b.owner.pid ≠ a.owner.pid →
        ⟨b.owner.pid, j⟩ ∉ watches → b.stage.fresh ⟨a.owner, i⟩ = true) : s.Moves i a stage := by
  have hover := AcquireStage.takesOver_of_bids hbids
  constructor
  · exact fun _ _ _ => .inr hstage
  · rintro rfl
    cases hstage
  · exact h.takeable_goto ha (fun _ _ _ _ => hstage) fun _ => h.takeable i a ha hlive hover
  · exact fun _ => .inl hover
  · exact fun _ => h.watched i a ha hlive (AcquireStage.watched_of_bids hbids)
  · exact hweighing
  · intro bid _ _ hfresh
    rw [AcquireStage.not_fresh_of_bids hbids] at hfresh
    cases hfresh
  · intro c _ _ hwon
    rw [AcquireStage.not_bids_of_owns (AcquireStage.owns_of_won hwon)] at hbids
    cases hbids

theorem Inv.moves_outbid (hstage : a.stage = .settling)
    (hmine : s.lock.any (fun c => c.pid = a.owner.pid) = false) : s.Moves i a (.leaving false) := by
  have hne : ∀ c ∈ s.lock, c.attempt ≠ i := by
    rintro c hc rfl
    obtain ⟨b, hb, hown, -⟩ := h.content c hc
    obtain rfl := ha.unique hb
    rw [mem_def.mp hc, hown] at hmine
    exact absurd rfl (of_decide_eq_false hmine)
  constructor
  · exact fun c hc he => absurd he (hne c hc)
  · intro he
    cases he
  · exact h.takeable_goto ha (fun c hc he => absurd he (hne c hc)) fun ht => absurd ht Bool.false_ne_true
  · exact fun ht => absurd ht Bool.false_ne_true
  · exact fun _ => h.watched i a ha hlive (by rw [hstage]; rfl)
  · intro watches he
    cases he
  · exact fun _ _ _ _ => rfl
  · exact fun c hc he => absurd he (hne c hc)

theorem Inv.moves_weighing (hstage : a.stage = .checking) :
    s.Moves i a (.weighing (s.watches.filter fun w => w.pid ≠ a.owner.pid)) := by
  apply h.moves_bidding ha hlive (by rw [hstage]; rfl) rfl
  intro watches he _ j b hb hlive' hforeign hnew
  obtain rfl := AcquireStage.weighing.inj he
  apply AcquireStage.fresh_of_unwatched
  by_contra hwatched
  have hmem := h.watched j b hb hlive' (eq_true_of_ne_false hwatched)
  exact hnew (mem_filter.mpr ⟨hmem, decide_eq_true hforeign⟩)

theorem Inv.moves_claim {watches : List Watch} (hstage : a.stage = .weighing watches)
    (hdead : ∀ w ∈ watches, s.pidAlive w.pid = false) (hlock : s.lock = some ⟨a.owner, i⟩) :
    s.Moves i a (.leaving true) := by
  have hover : a.stage.takesOver = true := by
    rw [hstage]
    rfl
  constructor
  · exact fun _ _ _ => .inl rfl
  · intro he
    cases he
  · intro j b hb hlive' hover'
    exfalso
    rcases (at_goto ha).mp hb with ⟨-, rfl⟩ | ⟨hne, hb⟩
    · cases hover'
    · by_cases hpid : b.owner.pid = a.owner.pid
      · exact hne (h.single j b i a hb ha hlive' hpid hover' hover)
      · by_cases hmem : ⟨b.owner.pid, j⟩ ∈ watches
        · have hgone : s.pidAlive b.owner.pid = false := hdead _ hmem
          rw [hlive'] at hgone
          cases hgone
        · have hfresh := h.weighing i a watches ha hlive hstage hlock j b hb hlive' hpid hmem
          rw [AcquireStage.not_takesOver_of_fresh hfresh] at hover'
          cases hover'
  · exact fun ht => absurd ht Bool.false_ne_true
  · exact fun _ => h.watched i a ha hlive (by rw [hstage]; rfl)
  · intro w he
    cases he
  · exact fun _ _ _ _ => rfl
  · exact fun _ _ _ _ => rfl

theorem Inv.moves_linked (hstage : a.stage = .linked) : s.Moves i a (.leaving true) := by
  constructor
  · exact fun _ _ _ => .inl rfl
  · intro he
    cases he
  · refine h.takeable_goto ha ?_ fun ht => absurd ht Bool.false_ne_true
    intro c _ _ hbids
    rw [hstage] at hbids
    cases hbids
  · exact fun ht => absurd ht Bool.false_ne_true
  · exact fun _ => h.watched i a ha hlive (by rw [hstage]; rfl)
  · intro w he
    cases he
  · exact fun _ _ _ _ => rfl
  · exact fun _ _ _ _ => rfl

theorem Inv.moves_done (hstage : a.stage = .leaving acquired) : s.Moves i a (.done acquired) := by
  constructor
  · rintro c hc rfl
    obtain ⟨b, hb, -, hown⟩ := h.content c hc
    obtain rfl := ha.unique hb
    have hown := hown hlive
    rw [hstage] at hown
    exact hown
  · intro he
    cases he
  · refine h.takeable_goto ha ?_ fun ht => absurd ht Bool.false_ne_true
    intro c _ _ hbids
    rw [hstage] at hbids
    cases hbids
  · exact fun ht => absurd ht Bool.false_ne_true
  · exact fun ht => absurd ht Bool.false_ne_true
  · intro w he
    cases he
  · exact fun _ _ _ _ => rfl
  · intro c _ _ hwon
    rw [hstage] at hwon
    exact hwon

theorem Inv.goto_idle (hstage : a.stage = before)
    (howns : before.owns = false) (hbids : before.bids = false) (howns' : stage.owns = false)
    (htakes : stage.takesOver = false) (hwatched : ⟨a.owner.pid, i⟩ ∈ s.watches)
    (hfresh : ∀ bid ∈ s.lock, s.pidAlive bid.pid = true → before.fresh bid = true →
      stage.fresh bid = true) : (s.goto i a stage).Inv := by
  subst hstage
  apply h.goto ha
  apply h.moves_idle ha hlive howns hbids
  · rintro rfl
    exact absurd howns'.symm Bool.false_ne_true
  · rintro watches rfl
    exact absurd htakes.symm Bool.false_ne_true
  · intro ht
    rw [htakes] at ht
    cases ht
  · exact fun _ => hwatched
  · exact hfresh

/-- The last check of a takeover is passed. -/
theorem Inv.pass (hstage : a.stage = .gateJudging seen) (htakeable : s.Takeable)
    (hnone : ∀ b ∈ s.attempts, b.owner.pid = a.owner.pid → b.stage.takesOver = false) :
    (s.goto i a .replacing).Inv := by
  apply h.goto ha
  apply h.moves_idle ha hlive
  · rw [hstage]
    rfl
  · rw [hstage]
    rfl
  · intro he
    cases he
  · intro watches he
    cases he
  · exact fun _ => ⟨htakeable, .inr fun j b hb => hnone b (mem_of_getElem? hb)⟩
  · exact fun _ => h.watched i a ha hlive (by rw [hstage]; rfl)
  · intro bid _ _ hfresh
    rw [hstage] at hfresh
    cases hfresh

theorem Inv.claim {watches : List Watch} (hstage : a.stage = .weighing watches)
    (hdead : ∀ w ∈ watches, s.pidAlive w.pid = false) (hlock : s.lock = some ⟨a.owner, i⟩) :
    ((s.markHeld a.owner).goto i a (.leaving true)).Inv := by
  have hat : (s.goto i a (.leaving true)).At i { a with stage := .leaving true } := at_goto_self ha
  have hheld := (h.goto ha (h.moves_claim ha hlive hstage hdead hlock)).hold hat hlock rfl
  exact hheld

theorem Inv.leave (hstage : a.stage = .leaving acquired) :
    ((s.unwatch [⟨a.owner.pid, i⟩]).goto i a (.done acquired)).Inv := by
  have hdone := h.goto ha (h.moves_done ha hlive hstage)
  apply hdone.unwatch
  intro j b hb hlive' hwatched hmem
  have hsame := mem_singleton.mp hmem
  rcases (at_goto ha).mp hb with ⟨-, rfl⟩ | ⟨hne, -⟩
  · cases hwatched
  · exact hne (Watch.mk.inj hsame).2

end

end

end

theorem Inv.acquireStep {s s' : LockDir} (h : s.Inv) (ha : s.At i a)
    (hlive : s.pidAlive a.owner.pid = true) (hmeets : s.Meets (.advance i))
    (hstep : s.acquireStep i a = some s') : s'.Inv := by
  have hmeets := hmeets a ha
  have hwatched := h.watched i a ha hlive
  obtain ⟨owner, stage⟩ := a
  rw [LockDir.acquireStep] at hstep
  cases stage with
  | registering =>
    cases hstep
    exact (h.watch ⟨owner.pid, i⟩).goto_idle ha hlive rfl rfl rfl rfl rfl
      mem_concat_self fun _ _ _ _ => rfl
  | reaping =>
    cases hstep
    have hdead : ∀ w ∈ s.watches.filter (fun w => w.pid ≠ owner.pid && !s.pidAlive w.pid),
        s.pidAlive w.pid = false := by
      intro w hw
      have hboth := (mem_filter.mp hw).2
      rw [Bool.and_eq_true, Bool.not_eq_true'] at hboth
      exact hboth.2
    have hreaped := h.unwatch_dead hdead
    exact hreaped.goto_idle ha hlive rfl rfl rfl rfl rfl
      (hreaped.watched i _ ha hlive rfl) fun _ _ _ _ => rfl
  | creating =>
    cases hlock : s.lock with
    | none =>
      rw [hlock] at hstep
      cases hstep
      exact h.link ha hlive rfl hlock
    | some seen =>
      rw [hlock] at hstep
      cases hstep
      exact h.goto_idle ha hlive rfl rfl rfl rfl rfl (hwatched rfl) fun _ _ _ _ => rfl
  | linked =>
    cases hstep
    have hat : (s.goto i ⟨owner, .linked⟩ (.leaving true)).At i ⟨owner, .leaving true⟩ := at_goto_self ha
    have hheld := (h.goto ha (h.moves_linked ha hlive rfl)).hold hat
      (h.linked i ⟨owner, .linked⟩ ha hlive rfl) rfl
    exact hheld
  | inspecting =>
    cases hlock : s.lock with
    | none =>
      rw [hlock] at hstep
      cases hstep
      exact h.goto_idle ha hlive rfl rfl rfl rfl rfl (hwatched rfl) fun _ _ _ _ => rfl
    | some seen =>
      rw [hlock] at hstep
      cases hstep
      apply h.goto_idle ha hlive rfl rfl rfl rfl rfl (hwatched rfl)
      intro bid hbid _ _
      rw [hlock] at hbid
      exact decide_eq_true (some.inj hbid)
  | judging seen =>
    dsimp only at hstep
    by_cases halive : s.pidAlive seen.pid = true
    · rw [if_pos halive] at hstep
      cases hstep
      exact h.goto_idle ha hlive rfl rfl rfl rfl rfl (hwatched rfl) fun _ _ _ _ => rfl
    · rw [if_neg halive] at hstep
      cases hstep
      apply h.goto_idle ha hlive rfl rfl rfl rfl rfl (hwatched rfl)
      -- the bid that is in place is alive, and the file that was seen is not
      intro bid _ hbid hfresh
      rw [← of_decide_eq_true hfresh] at hbid
      exact absurd hbid halive
  | bidding =>
    cases hstep
    exact h.goto_idle ha hlive rfl rfl rfl rfl rfl (hwatched rfl) fun _ _ _ hfresh =>
      absurd hfresh Bool.false_ne_true
  | gating =>
    cases hlock : s.lock with
    | none =>
      rw [hlock] at hstep
      cases hstep
      exact h.goto_idle ha hlive rfl rfl rfl rfl rfl (hwatched rfl) fun _ _ _ _ => rfl
    | some seen =>
      rw [hlock] at hstep
      cases hstep
      exact h.goto_idle ha hlive rfl rfl rfl rfl rfl (hwatched rfl) fun _ _ _ hfresh =>
        absurd hfresh Bool.false_ne_true
  | gateJudging seen =>
    dsimp only at hstep hmeets
    by_cases hkept : (s.pidAlive seen.pid || decide (seen.pid = owner.pid)) = true
    · rw [if_pos hkept] at hstep
      cases hstep
      exact h.goto_idle ha hlive rfl rfl rfl rfl rfl (hwatched rfl) fun _ _ _ _ => rfl
    · rw [if_neg hkept] at hstep
      cases hstep
      rw [Bool.or_eq_true, not_or] at hkept
      obtain ⟨htakeable, hnone⟩ := hmeets (Bool.eq_false_iff.mpr hkept.1)
      exact h.pass ha hlive rfl htakeable hnone
  | replacing =>
    cases hstep
    exact h.rename ha hlive rfl
  | settling =>
    by_cases hmine : s.lock.any (fun c => c.pid = owner.pid) = true
    · rw [if_pos hmine] at hstep
      cases hstep
      apply h.goto ha
      apply h.moves_bidding ha hlive rfl rfl
      intro watches he
      cases he
    · rw [if_neg hmine] at hstep
      cases hstep
      exact h.goto ha (h.moves_outbid ha hlive rfl (Bool.eq_false_iff.mpr hmine))
  | checking =>
    cases hstep
    exact h.goto ha (h.moves_weighing ha hlive rfl)
  | weighing watches =>
    dsimp only at hstep hmeets
    have hreaped : (s.unwatch (watches.takeWhile fun w => !s.pidAlive w.pid)).Inv := by
      apply h.unwatch_dead
      intro w hw
      have hgone := mem_takeWhile_imp hw
      rw [Bool.not_eq_true'] at hgone
      exact hgone
    by_cases hcontended : watches.any (fun w => s.pidAlive w.pid) = true
    · rw [if_pos hcontended] at hstep
      cases hstep
      apply hreaped.goto ha
      apply hreaped.moves_bidding ha hlive rfl rfl
      intro watches he
      cases he
    · rw [if_neg hcontended] at hstep
      cases hstep
      have hdead : ∀ w ∈ watches, s.pidAlive w.pid = false := by
        intro w hw
        by_contra hlive'
        exact hcontended (any_eq_true.mpr ⟨w, hw, eq_true_of_ne_false hlive'⟩)
      exact hreaped.claim ha hlive rfl hdead (hmeets hdead)
  | leaving acquired =>
    cases hstep
    exact h.leave ha hlive rfl
  | done acquired =>
    cases hstep

theorem Inv.start_attempt {s : LockDir} (h : s.Inv) (owner : LockInstance) :
    ({ s with attempts := s.attempts ++ [{ owner := owner }] } : LockDir).Inv := by
  have hnew : ∀ i a, ({ s with attempts := s.attempts ++ [{ owner := owner }] } : LockDir).At i a →
      s.At i a ∨ a = { owner := owner } := by
    intro i a ha
    rw [At, getElem?_append] at ha
    split at ha
    · exact .inl ha
    · exact .inr (mem_singleton.mp (mem_of_getElem? ha))
  have hold : ∀ i a, s.At i a → ({ s with attempts := s.attempts ++ [{ owner := owner }] } : LockDir).At i a := by
    intro i a ha
    exact (getElem?_append_left (getElem?_lt ha)).trans ha
  constructor
  · intro c hc
    obtain ⟨a, ha, hstage⟩ := h.content c hc
    exact ⟨a, hold _ a ha, hstage⟩
  · intro i a ha hlive hstage
    rcases hnew i a ha with ha | rfl
    · exact h.linked i a ha hlive hstage
    · cases hstage
  · intro i a ha hlive hover
    rcases hnew i a ha with ha | rfl
    · obtain ⟨c, hc, hdead | ⟨b, hb, hbids⟩⟩ := h.takeable i a ha hlive hover
      · exact ⟨c, hc, .inl hdead⟩
      · exact ⟨c, hc, .inr ⟨b, hold _ b hb, hbids⟩⟩
    · cases hover
  · intro i a j b ha hb hlive hpid hover hover'
    rcases hnew i a ha with ha | rfl
    · rcases hnew j b hb with hb | rfl
      · exact h.single i a j b ha hb hlive hpid hover hover'
      · cases hover'
    · cases hover
  · intro i a ha hlive hstage
    rcases hnew i a ha with ha | rfl
    · exact h.watched i a ha hlive hstage
    · cases hstage
  · intro i a watches ha hlive hstage hlock j b hb hlive' hforeign hmem
    rcases hnew j b hb with hb | rfl
    · rcases hnew i a ha with ha | rfl
      · exact h.weighing i a watches ha hlive hstage hlock j b hb hlive' hforeign hmem
      · cases hstage
    · rfl
  · intro o ho
    obtain ⟨c, hc, hown, a, ha, hwon⟩ := h.held o ho
    exact ⟨c, hc, hown, a, hold _ a ha, hwon⟩
  · exact h.releases
  · exact h.releasing
  · exact h.unlinked

theorem pidAlive_of_crash {s : LockDir}
    (h : ({ s with dead := pid :: s.dead } : LockDir).pidAlive p = true) : s.pidAlive p = true := by
  have hmem : p ∉ pid :: s.dead := of_decide_eq_true h
  exact decide_eq_true fun hp => hmem (mem_cons_of_mem _ hp)

theorem Takeable.crash {s : LockDir} (h : s.Takeable) (pid : Nat) :
    ({ s with dead := pid :: s.dead } : LockDir).Takeable := by
  obtain ⟨c, hc, hdead | hbids⟩ := h
  · refine ⟨c, hc, .inl ?_⟩
    by_contra hlive
    rw [pidAlive_of_crash (eq_true_of_ne_false hlive)] at hdead
    cases hdead
  · exact ⟨c, hc, .inr hbids⟩

theorem Inv.crash {s : LockDir} (h : s.Inv) (pid : Nat) : ({ s with dead := pid :: s.dead } : LockDir).Inv := by
  constructor
  · intro c hc
    obtain ⟨a, ha, hown, hstage⟩ := h.content c hc
    exact ⟨a, ha, hown, fun hlive => hstage (pidAlive_of_crash hlive)⟩
  · exact fun i a ha hlive hstage => h.linked i a ha (pidAlive_of_crash hlive) hstage
  · exact fun i a ha hlive hover => (h.takeable i a ha (pidAlive_of_crash hlive) hover).crash pid
  · exact fun i a j b ha hb hlive => h.single i a j b ha hb (pidAlive_of_crash hlive)
  · exact fun i a ha hlive => h.watched i a ha (pidAlive_of_crash hlive)
  · exact fun i a watches ha hlive hstage hlock j b hb hlive' => h.weighing i a watches ha
      (pidAlive_of_crash hlive) hstage hlock j b hb (pidAlive_of_crash hlive')
  · exact fun owner hholds => h.held owner ⟨hholds.1, pidAlive_of_crash hholds.2.1, hholds.2.2⟩
  · exact h.releases
  · exact fun r hr hlive => h.releasing r hr (pidAlive_of_crash hlive)
  · exact h.unlinked

theorem Inv.withReleases {s : LockDir} (h : s.Inv) {releases : List LockRelease} {held : List LockInstance}
    (hholds : ∀ owner, ({ s with releases := releases, held := held } : LockDir).Holds owner → s.Holds owner)
    (hnodup : (releases.map LockRelease.owner).Nodup)
    (hreleasing : ∀ r ∈ releases, s.pidAlive r.owner.pid = true → r.stage ≠ .clearing → r.owner ∈ held) :
    ({ s with releases := releases, held := held } : LockDir).Inv :=
  { h with held := fun owner ho => h.held owner (hholds owner ho), releases := hnodup, releasing := hreleasing }

theorem Inv.unlinkMine {s : LockDir} (h : s.Inv) (hholds : s.Holds owner)
    {releases : List LockRelease} {held : List LockInstance}
    (hothers : ∀ o, ({ s with releases := releases, held := held } : LockDir).Holds o → s.Holds o ∧ o ≠ owner)
    (hnodup : (releases.map LockRelease.owner).Nodup)
    (hreleasing : ∀ r ∈ releases, s.pidAlive r.owner.pid = true → r.stage ≠ .clearing → r.owner ∈ held) :
    ({ s.unlinkMine owner with releases := releases, held := held } : LockDir).Inv := by
  obtain ⟨c, hc, hown, a, ha, hwon⟩ := h.held owner hholds
  have hfree : ∀ o, ¬ ({ s with releases := releases, held := held } : LockDir).Holds o := by
    intro o ho
    obtain ⟨ho, hne⟩ := hothers o ho
    exact hne (h.exclusive.one o owner ho hholds)
  constructor
  · intro c hc
    cases hc
  · intro i b hb hlive hstage
    have hlock := h.linked i b hb hlive hstage
    obtain rfl := mem_unique hlock hc
    obtain rfl := ha.unique hb
    rw [hstage] at hwon
    cases hwon
  · exact fun i b hb hlive hover => absurd (h.takeable i b hb hlive hover) (h.not_takeable hholds)
  · exact h.single
  · exact h.watched
  · intro i b watches hb hlive hstage hlock
    cases hlock
  · exact fun o ho => absurd ho (hfree o)
  · exact hnodup
  · exact hreleasing
  · intro p hp
    rcases mem_append.mp hp with hp | hp
    · exact h.unlinked p hp
    · rw [mem_def.mp hc] at hp
      rw [mem_singleton.mp hp]
      exact hown.symm

theorem map_owner_set {releases : List LockRelease} (hr : releases[i]? = some r) (stage : ReleaseStage) :
    (releases.set i { r with stage := stage }).map LockRelease.owner = releases.map LockRelease.owner := by
  obtain ⟨hlt, rfl⟩ := List.getElem?_eq_some_iff.mp hr
  have hlt' : i < (releases.map LockRelease.owner).length := by
    rw [length_map]
    exact hlt
  rw [map_set]
  have hself := set_getElem_self hlt'
  rw [getElem_map] at hself
  exact hself

theorem release_unique {releases : List LockRelease} {i j : Nat}
    (h : (releases.map LockRelease.owner).Nodup) (hi : releases[i]? = some r)
    (hj : releases[j]? = some r') (ho : r.owner = r'.owner) : i = j := by
  have hlt : i < (releases.map LockRelease.owner).length := by
    rw [length_map]
    exact (getElem?_lt hi)
  apply (getElem?_inj hlt h).mp
  rw [getElem?_map, getElem?_map, hi, hj, map_some, map_some, ho]

theorem Inv.holds_releasing {s : LockDir} (h : s.Inv) {i : Nat} (hr : s.releases[i]? = some r)
    (hlive : s.pidAlive r.owner.pid = true) (hstage : r.stage ≠ .clearing) : s.Holds r.owner := by
  refine ⟨h.releasing r (mem_of_getElem? hr) hlive hstage, hlive, ?_⟩
  intro r' hr' howner
  obtain ⟨j, hj⟩ := mem_iff_getElem?.mp hr'
  obtain rfl := release_unique h.releases hj hr howner
  obtain rfl := mem_unique hr hj
  exact hstage

theorem Inv.release {s : LockDir} (h : s.Inv) (hheld : owner ∈ s.held) (hnew : ∀ r ∈ s.releases, r.owner ≠ owner) :
    ({ s with releases := s.releases ++ [{ owner := owner }] } : LockDir).Inv := by
  apply h.withReleases
  · exact fun o ho => ⟨ho.1, ho.2.1, fun r hr => ho.2.2 r (mem_append_left _ hr)⟩
  · rw [map_append]
    refine nodup_append.mpr ⟨h.releases, nodup_singleton _, ?_⟩
    intro o ho o' ho' he
    obtain ⟨r, hr, rfl⟩ := mem_map.mp ho
    exact hnew r hr (he.trans (mem_singleton.mp ho'))
  · intro r hr hlive hstage
    rcases mem_snoc.mp hr with hr | hr
    · exact h.releasing r hr hlive hstage
    · rw [hr]
      exact hheld

theorem holds_of_set {s : LockDir} (hr : s.releases[i]? = some r) (hstage : r.stage ≠ .clearing)
    (ho : ({ s with releases := s.releases.set i { r with stage := stage } } : LockDir).Holds o) :
    s.Holds o := by
  refine ⟨ho.1, ho.2.1, ?_⟩
  intro r' hr' howner
  obtain ⟨j, hj⟩ := mem_iff_getElem?.mp hr'
  by_cases he : i = j
  · subst he
    obtain rfl := mem_unique hr hj
    exact hstage
  · apply ho.2.2 r' _ howner
    exact mem_of_getElem? ((getElem?_set_ne he).trans hj)

theorem Inv.releasing_set {s : LockDir} (h : s.Inv) (hr : s.releases[i]? = some r)
    (hstage : r.stage ≠ .clearing) (r' : LockRelease)
    (hr' : r' ∈ s.releases.set i { r with stage := stage }) (hlive : s.pidAlive r'.owner.pid = true)
    (hstage' : r'.stage ≠ .clearing) : r'.owner ∈ s.held := by
  rcases mem_or_eq_of_mem_set hr' with hr' | rfl
  · exact h.releasing r' hr' hlive hstage'
  · exact h.releasing r (mem_of_getElem? hr) hlive hstage

theorem Inv.releaseStep {s : LockDir} (h : s.Inv) {i : Nat} (hr : s.releases[i]? = some r)
    (hlive : s.pidAlive r.owner.pid = true) : (s.releaseStep i r).Inv := by
  rw [LockDir.releaseStep]
  cases hstage : r.stage with
  | inspecting =>
    have hne : r.stage ≠ .clearing := by
      rw [hstage]
      decide
    apply h.withReleases
    · exact fun o ho => holds_of_set hr hne ho
    · rw [map_owner_set hr]
      exact h.releases
    · exact h.releasing_set hr hne
  | unlinking =>
    have hne : r.stage ≠ .clearing := by
      rw [hstage]
      decide
    have hlt := getElem?_lt hr
    apply h.unlinkMine (h.holds_releasing hr hlive hne)
    · intro o ho
      refine ⟨holds_of_set hr hne ho, ?_⟩
      rintro rfl
      exact ho.2.2 _ (mem_set hlt _) rfl rfl
    · rw [map_owner_set hr]
      exact h.releases
    · exact h.releasing_set hr hne
  | clearing =>
    apply h.withReleases
    · intro o ho
      obtain ⟨hheld, hne⟩ := mem_filter.mp ho.1
      refine ⟨hheld, ho.2.1, ?_⟩
      intro r' hr' howner
      obtain ⟨j, hj⟩ := mem_iff_getElem?.mp hr'
      have hji : j ≠ i := by
        rintro rfl
        obtain rfl := mem_unique hr hj
        exact of_decide_eq_true hne howner.symm
      exact ho.2.2 r' (mem_eraseIdx_iff_getElem?.mpr ⟨j, hji, hj⟩) howner
    · exact h.releases.sublist ((eraseIdx_sublist ..).map _)
    · intro r' hr' hlive' hstage'
      obtain ⟨j, hji, hj⟩ := mem_eraseIdx_iff_getElem?.mp hr'
      refine mem_filter.mpr ⟨h.releasing r' (mem_of_getElem? hj) hlive' hstage', ?_⟩
      exact decide_eq_true fun ho => hji (release_unique h.releases hj hr ho)

theorem Inv.releaseSync {s : LockDir} (h : s.Inv) (hheld : owner ∈ s.held)
    (hlive : s.pidAlive owner.pid = true) (hnew : ∀ r ∈ s.releases, r.owner ≠ owner) :
    ((if s.mine owner then s.unlinkMine owner else s).clear owner).Inv := by
  have hcleared : ∀ o, ({ s with held := s.held.filter (· ≠ owner) } : LockDir).Holds o →
      s.Holds o ∧ o ≠ owner := by
    intro o ho
    obtain ⟨hmem, hne⟩ := mem_filter.mp ho.1
    exact ⟨⟨hmem, ho.2⟩, of_decide_eq_true hne⟩
  have hreleasing : ∀ r ∈ s.releases, s.pidAlive r.owner.pid = true → r.stage ≠ .clearing →
      r.owner ∈ s.held.filter (· ≠ owner) := by
    intro r hr hlive' hstage
    exact mem_filter.mpr ⟨h.releasing r hr hlive' hstage, decide_eq_true (hnew r hr)⟩
  split
  · have hholds : s.Holds owner := ⟨hheld, hlive, fun r hr ho => absurd ho (hnew r hr)⟩
    exact h.unlinkMine hholds hcleared h.releases hreleasing
  · exact h.withReleases (fun o ho => (hcleared o ho).1) h.releases hreleasing

theorem Inv.step {s s' : LockDir} (h : s.Inv) (hmeets : s.Meets e) (hstep : s.step e = some s') : s'.Inv := by
  cases e with
  | acquire owner =>
    obtain ⟨-, hstep⟩ := ite_none_right_eq_some.mp hstep
    cases hstep
    exact h.start_attempt owner
  | advance i =>
    obtain ⟨a, ha, hstep⟩ := bind_eq_some_iff.mp hstep
    obtain ⟨hlive, hstep⟩ := ite_none_right_eq_some.mp hstep
    exact h.acquireStep ha hlive hmeets hstep
  | renameFails i retry =>
    obtain ⟨a, ha, hstep⟩ := bind_eq_some_iff.mp hstep
    obtain ⟨⟨hlive, hstage⟩, hstep⟩ := ite_none_right_eq_some.mp hstep
    cases hstep
    have hwatched := h.watched i a ha hlive (by rw [hstage]; rfl)
    cases retry with
    | true =>
      exact h.goto_idle ha hlive hstage rfl rfl rfl rfl hwatched fun _ _ _ hfresh =>
        absurd hfresh Bool.false_ne_true
    | false => exact h.goto_idle ha hlive hstage rfl rfl rfl rfl hwatched fun _ _ _ _ => rfl
  | release owner =>
    obtain ⟨⟨-, hheld⟩, hstep⟩ := ite_none_right_eq_some.mp hstep
    cases hstep
    exact h.release hheld hmeets
  | advanceRelease i =>
    obtain ⟨r, hr, hstep⟩ := bind_eq_some_iff.mp hstep
    obtain ⟨hlive, hstep⟩ := ite_none_right_eq_some.mp hstep
    cases hstep
    exact h.releaseStep hr hlive
  | releaseSync owner =>
    obtain ⟨⟨hlive, hheld⟩, hstep⟩ := ite_none_right_eq_some.mp hstep
    cases hstep
    exact h.releaseSync hheld hlive hmeets
  | crash pid =>
    obtain ⟨-, hstep⟩ := ite_none_right_eq_some.mp hstep
    cases hstep
    exact h.crash pid

theorem run_exclusive {s : LockDir} {events : List LockEvent} (hmeets : AlongRun step Meets {} events)
    (hrun : events.foldlM step {} = some s) : s.Exclusive :=
  (hmeets.invariant (fun _ _ _ h hm hs => h.step hm hs) Inv.start hrun).exclusive

/-- Who holds the lock is named in the lock file, and nobody is about to take the lock over. -/
theorem run_held {s : LockDir} {events : List LockEvent} (hmeets : AlongRun step Meets {} events)
    (hrun : events.foldlM step {} = some s) (hholds : s.Holds owner) :
    (∃ c ∈ s.lock, c.owner = owner) ∧
      ∀ i a, s.At i a → s.pidAlive a.owner.pid = true → a.stage.takesOver = false := by
  have hinv := hmeets.invariant (fun _ _ _ h hm hs => h.step hm hs) Inv.start hrun
  obtain ⟨c, hc, howner, -⟩ := hinv.held owner hholds
  refine ⟨⟨c, hc, howner⟩, fun i a ha halive => Bool.eq_false_iff.mpr fun htakes => ?_⟩
  exact hinv.not_takeable hholds (hinv.takeable i a ha halive htakes)

instance decidable_holds (s : LockDir) (owner : LockInstance) : Decidable (s.Holds owner) :=
  inferInstanceAs (Decidable (owner ∈ s.held ∧ s.pidAlive owner.pid = true ∧
    ∀ r ∈ s.releases, r.owner = owner → r.stage ≠ .clearing))

instance decidable_takeable (s : LockDir) : Decidable s.Takeable :=
  inferInstanceAs (Decidable (∃ c ∈ s.lock, s.pidAlive c.pid = false ∨
    ∃ a ∈ s.attempts[c.attempt]?, a.stage.bids = true))

instance decidable_mayAdvance (s : LockDir) (i : Nat) (a : Attempt) :
    (stage : AcquireStage) → Decidable (s.MayAdvance i a stage)
  | .gateJudging seen => inferInstanceAs (Decidable (s.pidAlive seen.pid = false →
      s.Takeable ∧ ∀ b ∈ s.attempts, b.owner.pid = a.owner.pid → b.stage.takesOver = false))
  | .weighing watches => inferInstanceAs (Decidable ((∀ w ∈ watches, s.pidAlive w.pid = false) →
      s.lock = some ⟨a.owner, i⟩))
  | .registering | .reaping | .creating | .linked | .inspecting | .judging _ | .bidding | .gating
  | .replacing | .settling | .checking | .leaving _ | .done _ => isTrue trivial

instance decidable_meets (s : LockDir) : (e : LockEvent) → Decidable (s.Meets e)
  | .advance i => inferInstanceAs (Decidable (∀ a ∈ s.attempts[i]?, s.MayAdvance i a a.stage))
  | .release owner | .releaseSync owner => inferInstanceAs (Decidable (∀ r ∈ s.releases, r.owner ≠ owner))
  | .acquire _ | .renameFails _ _ | .advanceRelease _ | .crash _ => isTrue trivial

/-- So many steps of an attempt. -/
def advances (n attempt : Nat) : List LockEvent := List.replicate n (.advance attempt)

/-- A process dies with the lock, and two attempts find it dead. -/
def contended (owner owner' : LockInstance) : List LockEvent :=
  .acquire ⟨1, 0⟩ :: advances 5 0 ++ .crash 1 :: .acquire owner :: .acquire owner' :: advances 8 1 ++ advances 8 2

/-- Of two processes, the second one to rename waits for the first one to give up. -/
def takenOver : List LockEvent :=
  contended ⟨2, 0⟩ ⟨3, 0⟩ ++ advances 1 1 ++ advances 4 2 ++ advances 2 1 ++ advances 4 2 ++
    [.release ⟨3, 0⟩, .advanceRelease 0, .advanceRelease 0, .advanceRelease 0]

theorem run_exclusive_takenOver : ∃ s, takenOver.foldlM step {} = some s ∧ s.Exclusive := by
  obtain ⟨s, hrun⟩ := isSome_iff_exists.mp
    (show (takenOver.foldlM step {}).isSome = true by decide +kernel)
  exact ⟨s, hrun, run_exclusive (by decide +kernel) hrun⟩

theorem run_held_takenOver :
    ∃ s, (takenOver.take 36).foldlM step {} = some s ∧ ∃ c ∈ s.lock, c.owner = ⟨3, 0⟩ := by
  have hholds : ((takenOver.take 36).foldlM step {}).any (fun s => decide (s.Holds ⟨3, 0⟩)) = true := by
    decide +kernel
  obtain ⟨s, hs, hholds⟩ := (Option.any_eq_true ..).mp hholds
  exact ⟨s, hs, (run_held (by decide +kernel) hs (of_decide_eq_true hholds)).1⟩

/-- Two instances of one process rename, one after the other, and do not wait for each other. -/
def takenTwice : List LockEvent := contended ⟨2, 0⟩ ⟨2, 1⟩ ++ advances 1 1 ++ advances 4 2 ++ advances 3 1

theorem takenTwice_notExclusive : ∃ s, takenTwice.foldlM step {} = some s ∧ ¬ s.Exclusive := by
  have hrun : (takenTwice.foldlM step {}).any (fun s =>
      decide (s.Holds ⟨2, 0⟩ ∧ s.Holds ⟨2, 1⟩)) = true := by decide +kernel
  obtain ⟨s, hs, hholds⟩ := (Option.any_eq_true ..).mp hrun
  obtain ⟨hfirst, hsecond⟩ := of_decide_eq_true hholds
  refine ⟨s, hs, fun hexclusive => ?_⟩
  exact absurd (hexclusive.one _ _ hfirst hsecond) (by decide)

end LockDir
end Echadron.MiniDb
