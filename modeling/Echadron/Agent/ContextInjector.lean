import Echadron.Agent.ContextReplay
import Echadron.Agent.LoopOrder

namespace Echadron.Agent
open Lib List

/-! Where the injections of a provider stand in the history. -/

def isInjectionOf (variant : String) (message : ContextMessage) : Bool :=
  match message.origin with
  | some (.injection other _) => other = variant
  | _ => false

def findInjections (history : List ContextMessage) (variant : String) : List Nat :=
  history.findIdxs (isInjectionOf variant)

structure ContextInjectionEntry where
  name : String
  positions : List Nat
deriving DecidableEq

/-- The entry after a splice. Its own injections among the messages take the place of the deleted. -/
def ContextInjectionEntry.adopt (splice : ContextSpliced) (entry : ContextInjectionEntry) : ContextInjectionEntry :=
  let adopted := splice.messages.findIdxs (isInjectionOf entry.name) splice.start
  if adopted = [] ∧ entry.positions = [] then entry
  else
    let after := (entry.positions.dropWhile (· < splice.start)).dropWhile
      (· < splice.start + splice.deleteCount)
    { entry with
      positions := entry.positions.takeWhile (· < splice.start) ++ adopted ++
        after.map fun position => position + splice.messages.length - splice.deleteCount }

def handleSplice (entries : List ContextInjectionEntry) (splice : ContextSpliced) : List ContextInjectionEntry :=
  if splice.messages.all (fun message => !isInjection message) ∧ splice.deleteCount = 0 then entries
  else entries.map (ContextInjectionEntry.adopt splice)

structure AgentContextInjectorService where
  context : AgentContextMemoryService := {}
  entries : List ContextInjectionEntry := []

/-- A mutation of the context, or a provider that comes or goes. -/
inductive InjectorEvent where
  | call (now : Nat) (call : ServiceCall)
  | swarmModeExit (now : Nat)
  | register (name : String)
  | unregister (index : Nat)
  | restored (model : Folded)

namespace AgentContextInjectorService

section

variable (s : AgentContextInjectorService)

def history : List ContextMessage := s.context.model.messages

/-- Every splice that was published since is handled. -/
def listen (context : AgentContextMemoryService) : AgentContextInjectorService where
  context := context
  entries := (context.published.drop s.context.published.length).foldl handleSplice s.entries

def resyncPositions : AgentContextInjectorService :=
  { s with
    entries := s.entries.map fun entry => { entry with positions := findInjections s.history entry.name } }

def step : InjectorEvent → Option AgentContextInjectorService
  | .call now call => (s.context.call now call).map s.listen
  | .swarmModeExit now => (s.context.dispatch now .swarmModeExit).map s.listen
  | .register name =>
    some { s with
      entries := s.entries ++ [{ name := name, positions := findInjections s.history name }] }
  | .unregister index => some { s with entries := s.entries.eraseIdx index }
  | .restored model => some { s with context := { s.context with model := model } }.resyncPositions

/-- Some provider's injection. -/
def registered (message : ContextMessage) : Bool := s.entries.any fun entry => isInjectionOf entry.name message

end

end AgentContextInjectorService

/-! What a fold of the history does to the positions of one provider. -/

section
variable {p : ContextMessage → Bool}

theorem findIdxs_append_none {ms later : List ContextMessage} (h : ∀ m ∈ later, p m = false) :
    (ms ++ later).findIdxs p = ms.findIdxs p := by
  rw [findIdxs_append, findIdxs_eq_nil_iff.mpr h, append_nil]

theorem findIdxs_middle (h : p a = p b) : (pre ++ a :: post).findIdxs p = (pre ++ b :: post).findIdxs p := by
  rw [findIdxs_append, findIdxs_append, findIdxs_cons, findIdxs_cons, h]

theorem findIdxs_appendToOpen (update : ContextMessage → ContextMessage) (h : ∀ m, p (update m) = p m)
    (ms : List ContextMessage) : (appendToOpenAssistant ms update).findIdxs p = ms.findIdxs p := by
  rcases exists_last_open ms with hnone | ⟨pre, a, post, rfl, ha, hpost⟩
  · rw [appendToOpen_none hnone]
  · rw [appendToOpen_eq ha hpost]
    exact findIdxs_middle (h a)

theorem findIdxs_flushDeferred {s : Folded} (h : ∀ m ∈ s.ctx.deferred, p m = false) :
    s.flushDeferred.messages.findIdxs p = s.messages.findIdxs p := by
  unfold Folded.flushDeferred
  split
  · rfl
  · exact findIdxs_append_none h

theorem deferred_flushDeferred (s : Folded) : ∀ m ∈ s.flushDeferred.ctx.deferred, m ∈ s.ctx.deferred := by
  unfold Folded.flushDeferred
  split
  · exact fun _ hm => hm
  · exact fun _ hm => absurd hm not_mem_nil

theorem findIdxs_closePending (hresult : ∀ id, p (interruptedToolMessage id) = false) {s : Folded}
    (h : ∀ m ∈ s.ctx.deferred, p m = false) : s.closePending.messages.findIdxs p = s.messages.findIdxs p := by
  unfold Folded.closePending
  split
  · rfl
  · have hflush := findIdxs_flushDeferred (s :=
      { messages := s.messages ++ s.ctx.pending.keys.map interruptedToolMessage
        ctx := { s.ctx with pending := .empty } }) h
    apply hflush.trans
    apply findIdxs_append_none
    intro m hm
    obtain ⟨id, _, rfl⟩ := mem_map.mp hm
    exact hresult id

theorem deferred_closePending (s : Folded) : ∀ m ∈ s.closePending.ctx.deferred, m ∈ s.ctx.deferred := by
  unfold Folded.closePending
  split
  · exact fun _ hm => hm
  · exact deferred_flushDeferred _

def Settles (p : ContextMessage → Bool) (closed : List ContextMessage) : Prop :=
  ∀ index ∈ findOpenAssistantIndex closed, ∀ message ∈ closed[index]?, isVacuousStep message = true →
    ∀ m ∈ closed.drop index, p m = false

instance Settles.decidable (p : ContextMessage → Bool) (closed : List ContextMessage) :
    Decidable (Settles p closed) :=
  inferInstanceAs (Decidable (∀ index ∈ findOpenAssistantIndex closed, ∀ message ∈ closed[index]?,
    isVacuousStep message = true → ∀ m ∈ closed.drop index, p m = false))

theorem findIdxs_sealOpen (hseal : ∀ m : ContextMessage, p { m with isPartial := none } = p m)
    {closed : List ContextMessage} (h : Settles p closed) :
    (Folded.sealOpen closed).findIdxs p = closed.findIdxs p := by
  rcases exists_last_open closed with hnone | ⟨pre, a, post, rfl, ha, hpost⟩
  · rw [sealOpen_none hnone]
  · rw [sealOpen_eq ha hpost]
    unfold sealed
    split
    · rename_i hvacuous
      have hrest := h pre.length (findOpen_eq_length ha hpost) a (by simp) hvacuous
      rw [drop_left] at hrest
      rw [findIdxs_append_none hrest]
      exact findIdxs_append_none fun m hm => hrest m (mem_cons_of_mem _ hm)
    · exact findIdxs_middle (hseal a)

end

/-- The messages that the fold makes are no injections, and what it changes in others leaves their
origin. -/
structure ByOrigin (p : ContextMessage → Bool) : Prop where
  origin : ∀ m m' : ContextMessage, m.origin = m'.origin → p m = p m'
  made : ∀ m : ContextMessage, m.origin = none → p m = false

theorem byOrigin_isInjectionOf (variant : String) : ByOrigin (isInjectionOf variant) where
  origin m m' h := by
    unfold isInjectionOf
    rw [h]
  made m h := by
    unfold isInjectionOf
    rw [h]

theorem findIdxs_foldLoopEvent {p : ContextMessage → Bool} (hp : ByOrigin p)
    (hdeferred : ∀ m ∈ s.ctx.deferred, p m = false)
    (hsettles : Settles p s.closePending.messages ∨ ∀ uuid, event ≠ .stepBegin uuid ∧ event ≠ .stepEnd uuid) :
    (foldLoopEvent s event).messages.findIdxs p = s.messages.findIdxs p := by
  have hclose := findIdxs_closePending (fun id => hp.made _ rfl) hdeferred
  have hsettled : Settles p s.closePending.messages →
      s.settleOpenStep.messages.findIdxs p = s.messages.findIdxs p := fun h =>
    (findIdxs_sealOpen (fun m => hp.origin _ _ rfl) h).trans hclose
  have hkept : ∀ m ∈ s.settleOpenStep.ctx.deferred, p m = false := fun m hm =>
    hdeferred m (deferred_closePending s m hm)
  cases event with
  | stepBegin uuid =>
    have hsettles := hsettles.resolve_right fun h => (h uuid).1 rfl
    simp only [foldLoopEvent]
    rw [findIdxs_append_none]
    · exact hsettled hsettles
    · intro m hm
      rw [mem_singleton.mp hm]
      exact hp.made _ rfl
  | stepEnd uuid =>
    have hsettles := hsettles.resolve_right fun h => (h uuid).2 rfl
    simp only [foldLoopEvent, Folded.settleOpenStep_setOpenStep]
    rw [findIdxs_flushDeferred (s := s.settleOpenStep.setOpenStep none) hkept]
    exact hsettled hsettles
  | contentPart uuid part =>
    exact findIdxs_appendToOpen (pushContent part) (fun m => hp.origin (pushContent part m) m rfl) _
  | toolCall uuid id name args extras =>
    let call := recordedToolCall id name args extras
    exact findIdxs_appendToOpen (pushCall call) (fun m => hp.origin (pushCall call m) m rfl) _
  | toolResult id result =>
    simp only [foldLoopEvent]
    split
    · rw [findIdxs_flushDeferred]
      · apply findIdxs_append_none
        intro m hm
        rw [mem_singleton.mp hm]
        exact hp.made _ rfl
      · exact hdeferred
    · rfl

theorem deferred_foldLoopEvent (s : Folded) (event : LoopRecordedEvent) :
    ∀ m ∈ (foldLoopEvent s event).ctx.deferred, m ∈ s.ctx.deferred := by
  have hsettled : ∀ m ∈ s.settleOpenStep.ctx.deferred, m ∈ s.ctx.deferred := deferred_closePending s
  cases event with
  | stepBegin uuid => exact hsettled
  | stepEnd uuid =>
    intro m hm
    simp only [foldLoopEvent, Folded.settleOpenStep_setOpenStep] at hm
    exact hsettled m (deferred_flushDeferred (s.settleOpenStep.setOpenStep none) m hm)
  | contentPart uuid part => exact fun m hm => hm
  | toolCall uuid id name args extras => exact fun m hm => hm
  | toolResult id result =>
    intro m hm
    simp only [foldLoopEvent] at hm
    split at hm
    · exact deferred_flushDeferred
        { messages := s.messages ++ [toolResultMessage id result]
          ctx := { s.ctx with pending := s.ctx.pending.delete id } } m hm
    · exact hm

/-! What a splice does to an entry whose positions are right. -/

theorem takeWhile_eq_self_of (h : ∀ i ∈ positions, i < n) (later : List Nat)
    (hlater : ∀ i ∈ later, n ≤ i) : (positions ++ later).takeWhile (· < n) = positions := by
  rw [takeWhile_append_of_pos fun i hi => decide_eq_true (h i hi)]
  cases later with
  | nil => exact append_nil _
  | cons i later =>
    have hi := hlater i (mem_cons_self ..)
    rw [takeWhile_cons_of_neg (by simpa using hi), append_nil]

theorem dropWhile_eq_of (h : ∀ i ∈ positions, i < n) (later : List Nat)
    (hlater : ∀ i ∈ later, n ≤ i) : (positions ++ later).dropWhile (· < n) = later := by
  rw [dropWhile_append_of_pos fun i hi => decide_eq_true (h i hi)]
  cases later with
  | nil => rfl
  | cons i later =>
    have hi := hlater i (mem_cons_self ..)
    exact dropWhile_cons_of_neg (by simpa using hi)

theorem adopt_aligned {entry : ContextInjectionEntry}
    (h : entry.positions = findInjections (pre ++ rest) entry.name) :
    (entry.adopt ⟨pre.length, rest.length, later, tokens⟩).positions = findInjections (pre ++ later) entry.name := by
  unfold findInjections at h ⊢
  rw [findIdxs_append, zero_add] at h ⊢
  have hbefore : ∀ i ∈ pre.findIdxs (isInjectionOf entry.name), i < pre.length := by
    intro i hi
    have := lt_add_of_mem_findIdxs i hi
    omega
  have hafter : ∀ i ∈ rest.findIdxs (isInjectionOf entry.name) pre.length,
      pre.length ≤ i ∧ i < pre.length + rest.length := by
    intro i hi
    have := lt_add_of_mem_findIdxs i hi
    exact ⟨ge_of_mem_findIdxs i hi, by omega⟩
  have htake := takeWhile_eq_self_of hbefore _ fun i hi => (hafter i hi).1
  have hdrop := dropWhile_eq_of hbefore _ fun i hi => (hafter i hi).1
  have hnone : (rest.findIdxs (isInjectionOf entry.name) pre.length).dropWhile
      (· < pre.length + rest.length) = [] :=
    dropWhile_eq_nil_iff.mpr fun i hi => decide_eq_true (hafter i hi).2
  unfold ContextInjectionEntry.adopt
  dsimp only
  split
  · rename_i hempty
    rw [hempty.1, hempty.2, append_nil]
    rw [hempty.2] at h
    exact (append_eq_nil_iff.mp h.symm).1.symm
  · rw [h, htake, hdrop, hnone]
    simp

theorem handleSplice_aligned {entries : List ContextInjectionEntry} {pre rest later : List ContextMessage}
    {tokens : Option Nat} (h : ∀ entry ∈ entries, entry.positions = findInjections (pre ++ rest) entry.name) :
    ∀ entry ∈ handleSplice entries ⟨pre.length, rest.length, later, tokens⟩,
      entry.positions = findInjections (pre ++ later) entry.name := by
  unfold handleSplice
  split
  · rename_i hquiet
    intro entry hentry
    have hrest : rest = [] := length_eq_zero_iff.mp hquiet.2
    rw [h entry hentry, hrest, append_nil]
    refine (findIdxs_append_none ?_).symm
    intro m hm
    have hm := all_eq_true.mp hquiet.1 m hm
    unfold isInjection at hm
    unfold isInjectionOf
    split
    · rename_i ho
      simp [ho] at hm
    · rfl
  · intro entry hentry
    obtain ⟨old, hold, rfl⟩ := mem_map.mp hentry
    have hname : (old.adopt ⟨pre.length, rest.length, later, tokens⟩).name = old.name := by
      unfold ContextInjectionEntry.adopt
      dsimp only
      split <;> rfl
    rw [hname]
    exact adopt_aligned (h old hold)

end Echadron.Agent
