import Echadron.Agent.ContextInjector

namespace Echadron.Agent
open Lib List Option

/-! The positions of the injections, through every mutation. -/

namespace AgentContextInjectorService
variable {s s' : AgentContextInjectorService}

/-- What a step may do to keep the positions right: no injection is appended behind a pending call,
none goes with a step that comes to nothing or with the end of swarm mode, and no provider comes
whose injections are deferred. -/
def Steady (s : AgentContextInjectorService) : InjectorEvent → Prop
  | .call _ (.append messages) => s.context.model.ctx.pending.size = 0 ∨ ∀ m ∈ messages, s.registered m = false
  | .call _ (.appendLoopEvent (.stepBegin _)) => Settles s.registered s.context.model.closePending.messages
  | .call _ (.appendLoopEvent (.stepEnd _)) => Settles s.registered s.context.model.closePending.messages
  | .call _ (.undo count) =>
    isFullyUndoable (computeUndoCut s.history count) count = true → isValidUndoCount count = true
  | .swarmModeExit _ => ∀ last ∈ s.history.getLast?, isSwarmModeReminder last = true → s.registered last = false
  | .register name => ∀ m ∈ s.context.model.ctx.deferred, isInjectionOf name m = false
  | .restored model => ∀ m ∈ model.ctx.deferred, s.registered m = false
  | _ => True

instance Steady.decidable (s : AgentContextInjectorService) (event : InjectorEvent) : Decidable (s.Steady event) :=
  match event with
  | .call _ (.append messages) =>
    inferInstanceAs (Decidable (s.context.model.ctx.pending.size = 0 ∨ ∀ m ∈ messages, s.registered m = false))
  | .call _ (.appendLoopEvent (.stepBegin _)) =>
    inferInstanceAs (Decidable (Settles s.registered s.context.model.closePending.messages))
  | .call _ (.appendLoopEvent (.stepEnd _)) =>
    inferInstanceAs (Decidable (Settles s.registered s.context.model.closePending.messages))
  | .call _ (.undo count) =>
    inferInstanceAs (Decidable (isFullyUndoable (computeUndoCut s.history count) count = true →
      isValidUndoCount count = true))
  | .swarmModeExit _ =>
    inferInstanceAs (Decidable (∀ last ∈ s.history.getLast?, isSwarmModeReminder last = true →
      s.registered last = false))
  | .register name =>
    inferInstanceAs (Decidable (∀ m ∈ s.context.model.ctx.deferred, isInjectionOf name m = false))
  | .restored model => inferInstanceAs (Decidable (∀ m ∈ model.ctx.deferred, s.registered m = false))
  | .unregister _ => isTrue trivial
  | .call _ .clear => isTrue trivial
  | .call _ (.applyCompaction _) => isTrue trivial
  | .call _ (.appendLoopEvent (.contentPart ..)) => isTrue trivial
  | .call _ (.appendLoopEvent (.toolCall ..)) => isTrue trivial
  | .call _ (.appendLoopEvent (.toolResult ..)) => isTrue trivial

/-- Every entry's positions are those of its injections, and none of these is deferred. -/
structure Aligned (s : AgentContextInjectorService) : Prop where
  positions : ∀ entry ∈ s.entries, entry.positions = findInjections s.history entry.name
  deferred : ∀ m ∈ s.context.model.ctx.deferred, s.registered m = false

theorem registered_eq_false (h : s.registered m = false)
    (hentry : entry ∈ s.entries) : isInjectionOf entry.name m = false :=
  Bool.eq_false_iff.mpr (any_eq_false.mp h entry hentry)

theorem names_handleSplice (entries : List ContextInjectionEntry) (splice : ContextSpliced) :
    (handleSplice entries splice).map ContextInjectionEntry.name = entries.map ContextInjectionEntry.name := by
  unfold handleSplice
  split
  · rfl
  · rw [List.map_map]
    apply map_congr_left
    intro entry _
    simp only [Function.comp, ContextInjectionEntry.adopt]
    split <;> rfl

theorem registered_of_names (h : s'.entries.map ContextInjectionEntry.name = s.entries.map ContextInjectionEntry.name)
    (m : ContextMessage) : s'.registered m = s.registered m := by
  have hany : ∀ s : AgentContextInjectorService,
      s.registered m = (s.entries.map ContextInjectionEntry.name).any fun name => isInjectionOf name m := by
    intro s
    rw [List.any_map]
    rfl
  rw [hany, hany, h]

theorem Aligned.listen_silent (h : Aligned s) {context : AgentContextMemoryService}
    (hpublished : context.published = s.context.published)
    (hsame : ∀ entry ∈ s.entries,
      findInjections context.model.messages entry.name = findInjections s.history entry.name)
    (hdeferred : ∀ m ∈ context.model.ctx.deferred, s.registered m = false) : Aligned (s.listen context) := by
  have hentries : (s.listen context).entries = s.entries := by
    simp [listen, hpublished]
  refine ⟨?_, ?_⟩
  · intro entry hentry
    rw [hentries] at hentry
    rw [h.positions entry hentry]
    exact (hsame entry hentry).symm
  · intro m hm
    have hnames := congrArg (map ContextInjectionEntry.name) hentries
    exact (registered_of_names hnames m).trans (hdeferred m hm)

theorem Aligned.listen_splice (h : Aligned s) {context : AgentContextMemoryService}
    (later : List ContextMessage) (tokens : Option Nat)
    (hhistory : s.history = pre ++ rest)
    (hpublished : context.published = s.context.published ++ [⟨pre.length, rest.length, later, tokens⟩])
    (hlater : ∀ entry ∈ s.entries,
      findInjections context.model.messages entry.name = findInjections (pre ++ later) entry.name)
    (hdeferred : ∀ m ∈ context.model.ctx.deferred, s.registered m = false) : Aligned (s.listen context) := by
  have hentries : (s.listen context).entries = handleSplice s.entries ⟨pre.length, rest.length, later, tokens⟩ := by
    simp [listen, hpublished]
  have hpositions := h.positions
  rw [hhistory] at hpositions
  have haligned := @handleSplice_aligned s.entries pre rest later tokens hpositions
  have hnames := names_handleSplice s.entries ⟨pre.length, rest.length, later, tokens⟩
  refine ⟨?_, ?_⟩
  · intro entry hentry
    rw [hentries] at hentry
    rw [haligned entry hentry]
    have hname : entry.name ∈ s.entries.map ContextInjectionEntry.name := by
      rw [← hnames]
      exact mem_map_of_mem hentry
    obtain ⟨old, hold, heq⟩ := mem_map.mp hname
    rw [← heq]
    exact (hlater old hold).symm
  · intro m hm
    rw [← hentries] at hnames
    exact (registered_of_names hnames m).trans (hdeferred m hm)

theorem dispatchMessages_eq {messages : List ContextMessage}
    (h : (messages.map ContextRecord.appendMessage).foldlM (AgentContextMemoryService.dispatch now) svc = some svc') :
    svc'.published = svc.published ∧ svc'.model =
      if svc.model.ctx.pending.size > 0 then
        { svc.model with ctx := { svc.model.ctx with deferred := svc.model.ctx.deferred ++ messages } }
      else { svc.model with messages := svc.model.messages ++ messages } := by
  induction messages generalizing svc with
  | nil =>
    cases h
    simp
  | cons message messages ih =>
    rw [map_cons, foldlM_cons] at h
    obtain ⟨svc₁, hfirst, hrest⟩ := bind_eq_some_iff.mp h
    obtain ⟨hpublished, hmodel⟩ := ih hrest
    obtain ⟨model, hmodel₁, rfl⟩ := map_eq_some_iff.mp hfirst
    cases hmodel₁
    refine ⟨hpublished, ?_⟩
    rw [hmodel, foldAppendMessage]
    by_cases hpending : svc.model.ctx.pending.size > 0
    · simp [hpending]
    · simp [hpending]

theorem Aligned.append (h : Aligned s) {messages : List ContextMessage}
    (hsteady : s.Steady (.call now (.append messages))) {context : AgentContextMemoryService}
    (happend : s.context.append now messages = some context) : Aligned (s.listen context) := by
  unfold AgentContextMemoryService.append at happend
  split at happend
  · cases happend
    exact h.listen_silent rfl (fun _ _ => rfl) h.deferred
  · obtain ⟨svc, hdispatch, rfl⟩ := map_eq_some_iff.mp happend
    obtain ⟨hpublished, hmodel⟩ := dispatchMessages_eq hdispatch
    have hhistory : s.history = s.history ++ [] := (append_nil _).symm
    apply h.listen_splice messages none hhistory
    · simp only [AgentContextMemoryService.publishSplice, hpublished]
      rfl
    · intro entry hentry
      change findInjections svc.model.messages entry.name = _
      rw [hmodel]
      split
      · rename_i hpending
        have hquiet := hsteady.resolve_left (ne_of_gt hpending)
        exact (findIdxs_append_none fun m hm => registered_eq_false (hquiet m hm) hentry).symm
      · rfl
    · intro m hm
      change m ∈ svc.model.ctx.deferred at hm
      rw [hmodel] at hm
      split at hm
      · rename_i hpending
        have hquiet := hsteady.resolve_left (ne_of_gt hpending)
        rcases mem_append.mp hm with hm | hm
        · exact h.deferred m hm
        · exact hquiet m hm
      · exact h.deferred m hm

theorem Aligned.appendLoopEvent (h : Aligned s)
    (hsteady : s.Steady (.call now (.appendLoopEvent event))) {context : AgentContextMemoryService}
    (hdispatch : s.context.dispatch now (.appendLoopEvent event) = some context) : Aligned (s.listen context) := by
  obtain ⟨model, hmodel, rfl⟩ := map_eq_some_iff.mp hdispatch
  cases hmodel
  apply h.listen_silent
  · rfl
  · intro entry hentry
    apply findIdxs_foldLoopEvent (byOrigin_isInjectionOf entry.name)
    · exact fun m hm => registered_eq_false (h.deferred m hm) hentry
    · have hsettles : Settles s.registered s.context.model.closePending.messages →
          Settles (isInjectionOf entry.name) s.context.model.closePending.messages :=
        fun hs index hindex message hmessage hvacuous m hm =>
          registered_eq_false (hs index hindex message hmessage hvacuous m hm) hentry
      cases event with
      | stepBegin uuid => exact .inl (hsettles hsteady)
      | stepEnd uuid => exact .inl (hsettles hsteady)
      | contentPart => exact .inr fun uuid => ⟨by simp, by simp⟩
      | toolCall => exact .inr fun uuid => ⟨by simp, by simp⟩
      | toolResult => exact .inr fun uuid => ⟨by simp, by simp⟩
  · exact fun m hm => h.deferred m (deferred_foldLoopEvent s.context.model event m hm)

theorem deferred_resetFold (messages : List ContextMessage) (m : ContextMessage)
    (hm : m ∈ (resetFold messages).ctx.deferred) : s.registered m = false :=
  absurd hm not_mem_nil

section

variable (h : Aligned s)
include h

theorem Aligned.clear {context : AgentContextMemoryService}
    (hclear : s.context.clear now = some context) : Aligned (s.listen context) := by
  unfold AgentContextMemoryService.clear at hclear
  dsimp only at hclear
  split at hclear
  · cases hclear
    exact h.listen_silent rfl (fun _ _ => rfl) h.deferred
  · rename_i hne
    obtain ⟨svc, hdispatch, rfl⟩ := map_eq_some_iff.mp hclear
    obtain ⟨model, hmodel, rfl⟩ := map_eq_some_iff.mp hdispatch
    cases hmodel
    have hreset : contextClear s.context.model = resetFold [] := if_neg hne
    have hhistory : s.history = [] ++ s.history := rfl
    apply h.listen_splice [] none hhistory rfl
    · intro entry _
      rw [hreset]
      rfl
    · intro m hm
      rw [hreset] at hm
      exact deferred_resetFold [] m hm

theorem Aligned.undo {now count : Nat} (hsteady : s.Steady (.call now (.undo count)))
    {context : AgentContextMemoryService} (hundo : s.context.undo now count = some context) :
    Aligned (s.listen context) := by
  unfold AgentContextMemoryService.undo at hundo
  dsimp only at hundo
  split at hundo
  · rename_i hcut
    obtain ⟨svc, hdispatch, rfl⟩ := map_eq_some_iff.mp hundo
    obtain ⟨model, hmodel, rfl⟩ := map_eq_some_iff.mp hdispatch
    cases hmodel
    have hvalid := hsteady hcut
    obtain ⟨index, hindex⟩ := isSome_iff_exists.mp (Bool.and_eq_true_iff.mp hcut).1
    have hle := computeUndoCut_le hindex
    have hnonempty : s.context.model.messages.length ≠ 0 := by
      intro hzero
      have hnil := length_eq_zero_iff.mp hzero
      rw [hnil] at hindex
      cases hindex
    have hreset : contextUndo s.context.model count = resetFold (s.history.take index) := by
      unfold contextUndo
      rw [if_neg (by simp [hvalid, hnonempty])]
      rw [if_pos hcut, hindex]
      rfl
    have hhistory : s.history = s.history.take index ++ s.history.drop index :=
      (take_append_drop index s.history).symm
    apply h.listen_splice [] none hhistory
    · have htake : (s.history.take index).length = index := length_take_of_le hle
      have hdrop : (s.history.drop index).length = s.history.length - index := length_drop
      rw [htake, hdrop, hindex]
      rfl
    · intro entry _
      rw [hreset, append_nil]
      rfl
    · intro m hm
      rw [hreset] at hm
      exact deferred_resetFold _ m hm
  · cases hundo
    exact h.listen_silent rfl (fun _ _ => rfl) h.deferred

theorem Aligned.applyCompaction {context : AgentContextMemoryService} (hcompact : s.context.applyCompaction now input = some context) :
    Aligned (s.listen context) := by
  unfold AgentContextMemoryService.applyCompaction at hcompact
  obtain ⟨svc, hdispatch, rfl⟩ := map_eq_some_iff.mp hcompact
  obtain ⟨model, hmodel, rfl⟩ := map_eq_some_iff.mp hdispatch
  have hreset := (contextApplyCompaction_payload s.context.model input).symm.trans hmodel
  cases hreset
  have hhistory : s.history = [] ++ s.history := rfl
  exact h.listen_splice _ _ hhistory rfl (fun _ _ => rfl) (deferred_resetFold _)

theorem Aligned.swarmModeExit (hsteady : s.Steady (.swarmModeExit now))
    {context : AgentContextMemoryService} (hdispatch : s.context.dispatch now .swarmModeExit = some context) :
    Aligned (s.listen context) := by
  obtain ⟨model, hmodel, rfl⟩ := map_eq_some_iff.mp hdispatch
  cases hmodel
  apply h.listen_silent
  · rfl
  · intro entry hentry
    unfold popSwarmModeReminder
    split
    · rfl
    · rename_i last hlast
      split
      · rename_i hreminder
        have hquiet := registered_eq_false (hsteady last hlast hreminder) hentry
        obtain ⟨pre, hpre⟩ := getLast?_eq_some_iff.mp hlast
        have hhistory : s.history = pre ++ [last] := hpre
        rw [hhistory]
        simp only [hpre, dropLast_concat]
        refine (findIdxs_append_none ?_).symm
        intro m hm
        rw [mem_singleton.mp hm]
        exact hquiet
      · rfl
  · intro m hm
    unfold popSwarmModeReminder at hm
    split at hm
    · exact h.deferred m hm
    · split at hm
      · exact deferred_resetFold _ m hm
      · exact h.deferred m hm

theorem Aligned.call {call : ServiceCall} (hsteady : s.Steady (.call now call))
    {context : AgentContextMemoryService} (hcall : s.context.call now call = some context) :
    Aligned (s.listen context) := by
  cases call with
  | append messages => exact h.append hsteady hcall
  | appendLoopEvent event => exact h.appendLoopEvent hsteady hcall
  | clear => exact h.clear hcall
  | undo count => exact h.undo hsteady hcall
  | applyCompaction input => exact h.applyCompaction hcall

theorem Aligned.step (hsteady : s.Steady event) (hstep : s.step event = some s') : Aligned s' := by
  cases event with
  | call now call =>
    obtain ⟨context, hcall, rfl⟩ := map_eq_some_iff.mp hstep
    exact h.call hsteady hcall
  | swarmModeExit now =>
    have hstep : (s.context.dispatch now .swarmModeExit).map s.listen = some s' := hstep
    obtain ⟨context, hdispatch, rfl⟩ := map_eq_some_iff.mp hstep
    exact h.swarmModeExit hsteady hdispatch
  | register name =>
    cases hstep
    refine ⟨?_, ?_⟩
    · intro entry hentry
      rcases mem_snoc.mp hentry with hold | hnew
      · exact h.positions entry hold
      · rw [hnew]
        rfl
    · intro m hm
      simp only [registered, any_append, Bool.or_eq_false_iff]
      exact ⟨h.deferred m hm, by simpa using hsteady m hm⟩
  | unregister index =>
    cases hstep
    have hsub : ∀ entry ∈ s.entries.eraseIdx index, entry ∈ s.entries := fun entry hentry =>
      (eraseIdx_sublist s.entries index).subset hentry
    refine ⟨fun entry hentry => h.positions entry (hsub entry hentry), ?_⟩
    intro m hm
    apply any_eq_false.mpr
    intro entry hentry
    exact Bool.eq_false_iff.mp (registered_eq_false (h.deferred m hm) (hsub entry hentry))
  | restored model =>
    cases hstep
    refine ⟨?_, ?_⟩
    · intro entry hentry
      obtain ⟨old, _, rfl⟩ := mem_map.mp hentry
      rfl
    · intro m hm
      have hnames : ({ s with context := { s.context with model := model } }.resyncPositions.entries.map
          ContextInjectionEntry.name) = s.entries.map ContextInjectionEntry.name := by
        simp [resyncPositions]
      exact (registered_of_names hnames m).trans (hsteady m hm)

end

/-- In a run that never appends an injection behind a pending call nor takes one away unpublished,
every entry's positions are just those of its injections. -/
theorem positions_of_run {events : List InjectorEvent} (hsteady : AlongRun step Steady {} events)
    (hrun : events.foldlM step {} = some s) :
    ∀ entry ∈ s.entries, entry.positions = findInjections s.history entry.name := by
  have hstart : Aligned {} := by
    refine ⟨?_, ?_⟩
    · intro entry hentry
      cases hentry
    · intro m hm
      cases hm
  exact (hsteady.invariant (fun _ _ _ h hsteady hstep => h.step hsteady hstep) hstart hrun).positions

def reminder : ContextMessage :=
  { role := .user, content := [.text "note"], origin := some (.injection "note" none) }

def steadyRun : List InjectorEvent :=
  [.register "note", .call 0 (.append [reminder]), .call 0 (.appendLoopEvent (.stepBegin "s")),
    .call 0 (.appendLoopEvent (.toolCall "s" "c" "Read" none none)),
    .call 0 (.appendLoopEvent (.toolResult "c" { output := .inl "done" })),
    .call 0 (.appendLoopEvent (.stepEnd "s")), .call 0 (.append [reminder])]

theorem positions_of_steadyRun : ∃ s, steadyRun.foldlM step {} = some s ∧
      ∀ entry ∈ s.entries, entry.positions = findInjections s.history entry.name := by
  have hrun : steadyRun.foldlM step {} = some _ := rfl
  exact ⟨_, hrun, positions_of_run (by decide +kernel) hrun⟩

def deferredRun : List InjectorEvent :=
  [.register "note", .call 0 (.appendLoopEvent (.stepBegin "s")),
    .call 0 (.appendLoopEvent (.toolCall "s" "c" "Read" none none)), .call 0 (.append [reminder])]

theorem positions_of_deferredRun : ∃ s, deferredRun.foldlM step {} = some s ∧
      s.entries = [{ name := "note", positions := [1] }] ∧ findInjections s.history "note" = [] :=
  ⟨_, rfl, rfl, rfl⟩

end AgentContextInjectorService

end Echadron.Agent
