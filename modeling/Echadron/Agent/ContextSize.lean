import Echadron.Agent.ContextReplay

namespace Echadron.Agent
open Lib List Option

/-! The measured size of the context. -/

structure TokenUsage where
  inputCacheRead : Nat
  inputCacheCreation : Nat
  inputOther : Nat
  output : Nat
deriving DecidableEq

def tokenUsageTotal (usage : TokenUsage) : Nat :=
  usage.inputCacheRead + usage.inputCacheCreation + usage.inputOther + usage.output

/-- The model of the last measurement: a length in messages and their tokens. -/
structure ContextSizeState where
  length : Nat := 0
  tokens : Nat := 0
deriving DecidableEq

structure ContextSize where
  size : Nat
  measured : Nat
  estimated : Nat
deriving DecidableEq

def normalizeSliceIndex (index : Int) (length : Nat) : Nat :=
  if index < 0 then (length + index).toNat else min index.toNat length

/-- `Array.prototype.slice` of natural indices. -/
def slice (start stop : Nat) (messages : List ContextMessage) : List ContextMessage :=
  (messages.take stop).drop start

structure AgentContextSizeService where
  memory : AgentContextMemoryService := {}
  model : ContextSizeState := {}
  /-- The messages that the last measurement or rebase has counted, as they were then. -/
  counted : List ContextMessage := []

namespace AgentContextSizeService

variable (s : AgentContextSizeService)

def context : List ContextMessage := s.memory.model.messages

def get (start stop : Option Int) : ContextSize :=
  let context := s.context
  let measuredLength := min s.model.length context.length
  let first := normalizeSliceIndex (start.getD 0) context.length
  let last := normalizeSliceIndex (stop.getD context.length) context.length
  let measuredEnd := min last measuredLength
  let estimatedStart := max first measuredLength
  let measured :=
    if first = 0 ∧ measuredEnd = measuredLength then s.model.tokens
    else estimateTokensForMessages (slice first measuredEnd context)
  let estimated := estimateTokensForMessages (slice estimatedStart last context)
  { size := measured + estimated, measured, estimated }

def contextSizeMeasured (length tokens : Nat) : AgentContextSizeService :=
  { s with model := { length, tokens }, counted := s.context.take length }

def matchesContext (same : ContextMessage → ContextMessage → Bool) (input context : List ContextMessage) : Bool :=
  decide (input.length = context.length) && (List.zipWith same input context).all id

def measured (same : ContextMessage → ContextMessage → Bool) (input : List ContextMessage)
    (usage : TokenUsage) : AgentContextSizeService :=
  if matchesContext same input s.context then s.contextSizeMeasured s.context.length (tokenUsageTotal usage)
  else s

/-- The measurement that a call of the memory dispatches after its own operation. -/
def cascade (memory : AgentContextMemoryService) (model : ContextSizeState) : ServiceCall → Option ContextSizeState
  | .append _ => none
  | .appendLoopEvent _ => none
  | .clear => if memory.model.messages.length = 0 then none else some { length := 0, tokens := 0 }
  | .undo count =>
    let history := memory.model.messages
    let cut := computeUndoCut history count
    if isFullyUndoable cut count then
      let cutIndex := cut.cutIndex.getD 0
      if model.length ≤ cutIndex then none
      else some { length := cutIndex, tokens := estimateTokensForMessages (history.take cutIndex) }
    else none
  | .applyCompaction input =>
    let result := buildContextCompactionShape memory.model.messages input.toShapeInput
    some { length := result.messages.length, tokens := result.tokensAfter }

inductive Event where
  | call (now : Nat) (call : ServiceCall)
  | swarmModeExit (now : Nat)
  | measured (input : List ContextMessage) (usage : TokenUsage)

def step (same : ContextMessage → ContextMessage → Bool) : Event → Option AgentContextSizeService
  | .call now call => do
    let memory ← s.memory.call now call
    match cascade s.memory s.model call with
    | none => some { s with memory }
    | some size => some (contextSizeMeasured { s with memory } size.length size.tokens)
  | .swarmModeExit now => do
    let memory ← s.memory.dispatch now .swarmModeExit
    some { s with memory }
  | .measured input usage => some (s.measured same input usage)

end AgentContextSizeService

/-! What an operation leaves of a prefix of the context. -/

/-- The same message, to which its step may have added since. -/
structure Grown (m m' : ContextMessage) : Prop where
  role : m'.role = m.role
  origin : m'.origin = m.origin
  content : m.content <+: m'.content
  toolCalls : m.toolCalls <+: m'.toolCalls

theorem Grown.refl (m : ContextMessage) : Grown m m := ⟨rfl, rfl, prefix_refl _, prefix_refl _⟩

theorem Grown.trans (h : Grown m m') (h' : Grown m' m'') : Grown m m'' :=
  ⟨h'.role.trans h.role, h'.origin.trans h.origin, h.content.trans h'.content, h.toolCalls.trans h'.toolCalls⟩

/-- The first `n` messages are there, each in its place. -/
def Keeps (n : Nat) (ms ms' : List ContextMessage) : Prop :=
  ∀ (i : Nat) (m : ContextMessage), i < n → ms[i]? = some m → ∃ m', ms'[i]? = some m' ∧ Grown m m'

namespace Keeps

variable {n : Nat} {ms ms' : List ContextMessage}

theorem refl (n : Nat) (ms : List ContextMessage) : Keeps n ms ms :=
  fun _ m _ hm => ⟨m, hm, .refl m⟩

theorem trans (h : Keeps n ms ms') (h' : Keeps n ms' ms'') : Keeps n ms ms'' := by
  intro i m hi hm
  obtain ⟨m', hm', hgrown⟩ := h i m hi hm
  obtain ⟨m'', hm'', hgrown'⟩ := h' i m' hi hm'
  exact ⟨m'', hm'', hgrown.trans hgrown'⟩

theorem append (n : Nat) (ms later : List ContextMessage) : Keeps n ms (ms ++ later) := by
  intro i m _ hm
  refine ⟨m, ?_, .refl m⟩
  rw [getElem?_append_left (getElem?_lt hm)]
  exact hm

theorem modify (n : Nat) (ms : List ContextMessage) (index : Nat)
    (hf : ∀ m, Grown m (f m)) : Keeps n ms (ms.modify index f) := by
  intro i m _ hm
  by_cases hi : index = i
  · subst hi
    exact ⟨f m, by rw [getElem?_modify, hm]; simp, hf m⟩
  · exact ⟨m, by rw [getElem?_modify, hm]; simp [hi], .refl m⟩

theorem eraseIdx (ms : List ContextMessage) (h : n ≤ index) : Keeps n ms (ms.eraseIdx index) := by
  intro i m hi hm
  refine ⟨m, ?_, .refl m⟩
  rw [getElem?_eraseIdx_of_lt (lt_of_lt_of_le hi h)]
  exact hm

theorem take (ms : List ContextMessage) (h : n ≤ cut) : Keeps n ms (ms.take cut) := by
  intro i m hi hm
  refine ⟨m, ?_, .refl m⟩
  rw [getElem?_take_of_lt (lt_of_lt_of_le hi h)]
  exact hm

theorem le_length (h : Keeps n ms ms') (hn : n ≤ ms.length) : n ≤ ms'.length := by
  rcases Nat.eq_zero_or_pos n with hzero | hpos
  · omega
  · have hlt : n - 1 < ms.length := by omega
    obtain ⟨m', hm', _⟩ := h (n - 1) ms[n - 1] (by omega) (getElem?_eq_getElem hlt)
    have := getElem?_lt hm'
    omega

theorem appendToOpen (n : Nat) (ms : List ContextMessage)
    (h : ∀ m, Grown m (update m)) : Keeps n ms (appendToOpenAssistant ms update) := by
  unfold appendToOpenAssistant
  split
  · exact refl n ms
  · exact modify n ms _ h

theorem flushDeferred (n : Nat) (s : Folded) : Keeps n s.messages s.flushDeferred.messages := by
  unfold Folded.flushDeferred
  split
  · exact refl n _
  · exact append n _ _

theorem closePending (n : Nat) (s : Folded) : Keeps n s.messages s.closePending.messages := by
  unfold Folded.closePending
  split
  · exact refl n _
  · have hflushed := flushDeferred n
      { messages := s.messages ++ s.ctx.pending.keys.map interruptedToolMessage
        ctx := { s.ctx with pending := .empty } }
    exact (append n s.messages _).trans hflushed

end Keeps

/-- The place of the partial assistant that settling the open step drops. -/
def droppedIndex (s : Folded) : Option Nat :=
  match findOpenAssistantIndex s.closePending.messages with
  | none => none
  | some index =>
    match s.closePending.messages[index]? with
    | none => none
    | some message => if isVacuousStep message then some index else none

namespace Keeps

variable {n : Nat} {ms ms' : List ContextMessage}

theorem settleOpenStep (s : Folded) (h : ∀ index ∈ droppedIndex s, n ≤ index) :
    Keeps n s.messages s.settleOpenStep.messages := by
  apply (closePending n s).trans
  unfold Folded.settleOpenStep Folded.sealOpen
  unfold droppedIndex at h
  dsimp only
  cases hindex : findOpenAssistantIndex s.closePending.messages with
  | none => exact refl n _
  | some index =>
    rw [hindex] at h
    dsimp only at h ⊢
    cases hmessage : s.closePending.messages[index]? with
    | none => exact refl n _
    | some message =>
      rw [hmessage] at h
      dsimp only at h ⊢
      by_cases hvacuous : isVacuousStep message = true
      · rw [if_pos hvacuous] at h ⊢
        exact eraseIdx _ (h index rfl)
      · rw [if_neg hvacuous]
        apply modify
        intro m
        exact ⟨rfl, rfl, prefix_refl _, prefix_refl _⟩

theorem droppedIndex_setOpenStep (s : Folded) (uuid : Option String) :
    droppedIndex (s.setOpenStep uuid) = droppedIndex s ∧
      (s.setOpenStep uuid).settleOpenStep.messages = s.settleOpenStep.messages := by
  have hclosed : (s.setOpenStep uuid).closePending.messages = s.closePending.messages := by
    unfold Folded.closePending Folded.flushDeferred Folded.setOpenStep
    split
    · rfl
    · split <;> rfl
  constructor
  · unfold droppedIndex
    rw [hclosed]
  · unfold Folded.settleOpenStep
    dsimp only
    rw [hclosed]

theorem foldAppendMessage (n : Nat) (s : Folded) (message : ContextMessage) :
    Keeps n s.messages (foldAppendMessage s message).messages := by
  unfold Agent.foldAppendMessage
  split
  · exact refl n _
  · exact append n _ _

theorem foldLoopEvent (s : Folded) (event : LoopRecordedEvent)
    (h : ∀ uuid, event = .stepBegin uuid ∨ event = .stepEnd uuid → ∀ index ∈ droppedIndex s, n ≤ index) :
    Keeps n s.messages (foldLoopEvent s event).messages := by
  cases event with
  | stepBegin uuid =>
    apply (settleOpenStep s (h uuid (.inl rfl))).trans
    exact append n s.settleOpenStep.messages [partialAssistant]
  | stepEnd uuid =>
    obtain ⟨_, hsettled⟩ := droppedIndex_setOpenStep s none
    apply (settleOpenStep s (h uuid (.inr rfl))).trans
    rw [← hsettled]
    exact flushDeferred n (s.setOpenStep none).settleOpenStep
  | contentPart stepUuid part =>
    apply appendToOpen
    intro m
    exact ⟨rfl, rfl, prefix_append _ _, prefix_refl _⟩
  | toolCall stepUuid toolCallId name args extras =>
    apply appendToOpen
    intro m
    exact ⟨rfl, rfl, prefix_refl _, prefix_append _ _⟩
  | toolResult toolCallId result =>
    simp only [Agent.foldLoopEvent]
    split
    · have hflushed := flushDeferred n
        { messages := s.messages ++ [toolResultMessage toolCallId result]
          ctx := { s.ctx with pending := s.ctx.pending.delete toolCallId } }
      exact (append n s.messages _).trans hflushed
    · exact refl n _

end Keeps

namespace AgentContextSizeService

variable {same : ContextMessage → ContextMessage → Bool} {s s' : AgentContextSizeService}

/-- The next event takes no message out of the measured prefix: neither does an empty step that has been
counted end, nor is a counted swarm mode reminder the last message when the mode is left. -/
def KeepsCounted (s : AgentContextSizeService) : Event → Prop
  | .call _ (.appendLoopEvent (.stepBegin _)) => ∀ index ∈ droppedIndex s.memory.model, s.model.length ≤ index
  | .call _ (.appendLoopEvent (.stepEnd _)) => ∀ index ∈ droppedIndex s.memory.model, s.model.length ≤ index
  | .swarmModeExit _ => ∀ last ∈ s.context.getLast?, isSwarmModeReminder last = true →
      s.model.length < s.context.length
  | .call _ (.appendLoopEvent (.contentPart _ _)) => True
  | .call _ (.appendLoopEvent (.toolCall _ _ _ _ _)) => True
  | .call _ (.appendLoopEvent (.toolResult _ _)) => True
  | .call _ (.append _) => True
  | .call _ .clear => True
  | .call _ (.undo _) => True
  | .call _ (.applyCompaction _) => True
  | .measured _ _ => True

/-- The counted messages are the first ones of the context, each in its place. -/
structure Counted (s : AgentContextSizeService) : Prop where
  within : s.model.length ≤ s.context.length
  covers : s.counted.length = s.model.length
  kept : Keeps s.model.length s.counted s.context

theorem Counted.measured (s : AgentContextSizeService) {length : Nat} (tokens : Nat) (h : length ≤ s.context.length) :
    Counted (s.contextSizeMeasured length tokens) := by
  constructor
  · exact h
  · exact (length_take).trans (min_eq_left h)
  · intro i m hi hm
    have hlt : i < length := hi
    have hget : (s.context.take length)[i]? = some m := hm
    rw [getElem?_take_of_lt hlt] at hget
    exact ⟨m, hget, .refl m⟩

theorem Counted.keeps (h : Counted s) (memory : AgentContextMemoryService)
    (hkeeps : Keeps s.model.length s.context memory.model.messages) : Counted { s with memory } :=
  ⟨hkeeps.le_length h.within, h.covers, h.kept.trans hkeeps⟩

theorem dispatch_model {svc svc' : AgentContextMemoryService} (h : svc.dispatch now op = some svc') :
    applyRecord svc.model op = some svc'.model := by
  obtain ⟨model, happly, rfl⟩ := map_eq_some_iff.mp h
  exact happly

theorem keeps_dispatchMessages {svc svc' : AgentContextMemoryService} (n now : Nat) (messages : List ContextMessage)
    (h : (messages.map ContextRecord.appendMessage).foldlM (AgentContextMemoryService.dispatch now) svc = some svc') :
    Keeps n svc.model.messages svc'.model.messages := by
  induction messages generalizing svc with
  | nil =>
    cases h
    exact .refl n _
  | cons message messages ih =>
    rw [map_cons, foldlM_cons] at h
    obtain ⟨svc₁, hdispatch, hrest⟩ := bind_eq_some_iff.mp h
    have hmodel := some.inj (dispatch_model hdispatch)
    apply Keeps.trans _ (ih hrest)
    rw [← hmodel]
    exact Keeps.foldAppendMessage n svc.model message

theorem Counted.call (h : Counted s) (hcondition : s.KeepsCounted (.call now c))
    (hstep : s.step same (.call now c) = some s') : Counted s' := by
  obtain ⟨memory, hcall, hstep⟩ := bind_eq_some_iff.mp hstep
  cases c with
  | append messages =>
    cases hstep
    apply h.keeps memory
    simp only [AgentContextMemoryService.call, AgentContextMemoryService.append] at hcall
    split at hcall
    · cases hcall
      exact .refl _ _
    · obtain ⟨svc, hfold, rfl⟩ := map_eq_some_iff.mp hcall
      have hkeeps := keeps_dispatchMessages s.model.length now messages hfold
      exact hkeeps
  | appendLoopEvent event =>
    cases hstep
    apply h.keeps memory
    have hmodel := some.inj (dispatch_model hcall)
    rw [← hmodel]
    apply Keeps.foldLoopEvent
    intro uuid hevent
    rcases hevent with rfl | rfl
    · exact hcondition
    · exact hcondition
  | clear =>
    simp only [AgentContextMemoryService.call, AgentContextMemoryService.clear] at hcall
    simp only [cascade] at hstep
    split at hcall
    · rename_i hempty
      cases hcall
      rw [if_pos hempty] at hstep
      cases hstep
      exact h
    · rename_i hsome
      rw [if_neg hsome] at hstep
      cases hstep
      exact .measured _ 0 (Nat.zero_le _)
  | undo count =>
    simp only [AgentContextMemoryService.call, AgentContextMemoryService.undo] at hcall
    simp only [cascade] at hstep
    split at hcall
    · rename_i hundoable
      obtain ⟨svc, hdispatch, rfl⟩ := map_eq_some_iff.mp hcall
      have hmodel := some.inj (dispatch_model hdispatch)
      have hundone : svc.model.messages = s.context ∨
          svc.model.messages = s.context.take ((computeUndoCut s.context count).cutIndex.getD 0) := by
        rw [← hmodel]
        by_cases hinvalid : isValidUndoCount count = false ∨ s.memory.model.messages.length = 0
        · left
          rw [contextUndo, if_pos hinvalid]
          rfl
        · right
          rw [contextUndo, if_neg hinvalid]
          rw [if_pos hundoable]
          rfl
      have hcut : (computeUndoCut s.context count).cutIndex.getD 0 ≤ s.context.length := by
        cases hindex : (computeUndoCut s.context count).cutIndex with
        | none => exact Nat.zero_le _
        | some index => exact computeUndoCut_le hindex
      rw [if_pos hundoable] at hstep
      by_cases hlength : s.model.length ≤ (computeUndoCut s.context count).cutIndex.getD 0
      · unfold context at hlength
        rw [if_pos hlength] at hstep
        cases hstep
        apply h.keeps (svc.publishSplice _)
        rcases hundone with hundone | hundone
        · exact hundone ▸ .refl _ _
        · exact hundone ▸ .take _ hlength
      · unfold context at hlength
        rw [if_neg hlength] at hstep
        cases hstep
        apply Counted.measured
        change _ ≤ svc.model.messages.length
        rcases hundone with hundone | hundone
        · rw [hundone]
          exact hcut
        · rw [hundone, length_take]
          exact le_min (le_refl _) hcut
    · rename_i hnot
      rw [if_neg hnot] at hstep
      cases hcall
      cases hstep
      exact h
  | applyCompaction input =>
    cases hstep
    apply Counted.measured
    simp only [AgentContextMemoryService.call, AgentContextMemoryService.applyCompaction] at hcall
    obtain ⟨svc, hdispatch, rfl⟩ := map_eq_some_iff.mp hcall
    have hmodel := dispatch_model hdispatch
    rw [applyRecord, contextApplyCompaction_payload] at hmodel
    have hmessages := congrArg Folded.messages (some.inj hmodel)
    exact le_of_eq (congrArg length hmessages)

theorem Counted.swarmModeExit (h : Counted s) (hcondition : s.KeepsCounted (.swarmModeExit now))
    (hstep : s.step same (.swarmModeExit now) = some s') : Counted s' := by
  simp only [step] at hstep
  obtain ⟨memory, hdispatch, hstep⟩ := bind_eq_some_iff.mp hstep
  cases hstep
  apply h.keeps memory
  have hmodel := some.inj (dispatch_model hdispatch)
  rw [← hmodel]
  unfold popSwarmModeReminder
  split
  · exact .refl _ _
  · rename_i last hlast
    split
    · rename_i hreminder
      have hlength : s.model.length < s.memory.model.messages.length := hcondition last hlast hreminder
      have hkeeps := Keeps.take (n := s.model.length) s.memory.model.messages (Nat.le_sub_one_of_lt hlength)
      rw [← dropLast_eq_take] at hkeeps
      exact hkeeps
    · exact .refl _ _

theorem Counted.step (h : Counted s) (hcondition : s.KeepsCounted event)
    (hstep : s.step same event = some s') : Counted s' := by
  cases event with
  | call now c => exact h.call hcondition hstep
  | swarmModeExit now => exact h.swarmModeExit hcondition hstep
  | measured input usage =>
    cases hstep
    unfold AgentContextSizeService.measured
    split
    · exact .measured s _ (le_refl _)
    · exact h

theorem Counted.get_whole (h : Counted s) : s.get none none =
      { size := s.model.tokens + estimateTokensForMessages (s.context.drop s.model.length)
        measured := s.model.tokens
        estimated := estimateTokensForMessages (s.context.drop s.model.length) } := by
  have hmin : min s.model.length s.context.length = s.model.length := min_eq_left h.within
  have hstop : normalizeSliceIndex (s.context.length : Int) s.context.length = s.context.length := by
    unfold normalizeSliceIndex
    rw [if_neg (by omega), Int.toNat_natCast, min_self]
  have hstart : normalizeSliceIndex 0 s.context.length = 0 := by
    unfold normalizeSliceIndex
    rw [if_neg (by omega)]
    exact Nat.zero_min _
  unfold get
  simp only [getD_none, hstart, hstop, hmin, Nat.min_eq_right h.within, Nat.zero_max, and_self, if_true,
    slice, take_length]

/-- An agent whose context has not been measured since it was built or restored. -/
def unmeasured (memory : AgentContextMemoryService) : AgentContextSizeService := { memory }

theorem unmeasured_counted (memory : AgentContextMemoryService) : Counted (unmeasured memory) := by
  constructor
  · exact Nat.zero_le _
  · rfl
  · intro i m hi
    exact absurd hi (Nat.not_lt_zero i)

theorem counted_of_run {events : List Event}
    (hkeeps : AlongRun (fun s => step s same) KeepsCounted (unmeasured start) events)
    (hrun : events.foldlM (fun s => step s same) (unmeasured start) = some s) :
    Counted s ∧ s.get none none =
        { size := s.model.tokens + estimateTokensForMessages (s.context.drop s.model.length)
          measured := s.model.tokens
          estimated := estimateTokensForMessages (s.context.drop s.model.length) } := by
  have hcounted : Counted s :=
    hkeeps.invariant (fun s e s' h hcondition hstep => h.step hcondition hstep) (unmeasured_counted start) hrun
  exact ⟨hcounted, hcounted.get_whole⟩

instance KeepsCounted.decidable (s : AgentContextSizeService) : (event : Event) → Decidable (KeepsCounted s event)
  | .call _ (.appendLoopEvent (.stepBegin _)) =>
    inferInstanceAs (Decidable (∀ index ∈ droppedIndex s.memory.model, s.model.length ≤ index))
  | .call _ (.appendLoopEvent (.stepEnd _)) =>
    inferInstanceAs (Decidable (∀ index ∈ droppedIndex s.memory.model, s.model.length ≤ index))
  | .swarmModeExit _ =>
    inferInstanceAs (Decidable (∀ last ∈ s.context.getLast?, isSwarmModeReminder last = true →
      s.model.length < s.context.length))
  | .call _ (.appendLoopEvent (.contentPart _ _)) => isTrue trivial
  | .call _ (.appendLoopEvent (.toolCall _ _ _ _ _)) => isTrue trivial
  | .call _ (.appendLoopEvent (.toolResult _ _)) => isTrue trivial
  | .call _ (.append _) => isTrue trivial
  | .call _ .clear => isTrue trivial
  | .call _ (.undo _) => isTrue trivial
  | .call _ (.applyCompaction _) => isTrue trivial
  | .measured _ _ => isTrue trivial

def usage : TokenUsage := { inputCacheRead := 0, inputCacheCreation := 0, inputOther := 40, output := 2 }

def question : ContextMessage := { role := .user, content := [.text "hello"] }

/-- A step with an answer, a measurement in its midst and an undo of its prompt. -/
def answered : List Event :=
  [.call 0 (.append [question]), .call 1 (.appendLoopEvent (.stepBegin "s1")),
    .measured [question, partialAssistant] usage, .call 2 (.appendLoopEvent (.contentPart "s1" (.text "hi"))),
    .call 3 (.appendLoopEvent (.stepEnd "s1")), .call 4 (.append [question]), .call 5 (.undo 1)]

theorem counted_of_answered :
    ∃ s, answered.foldlM (fun s => step s fun m m' => decide (m = m')) (unmeasured {}) = some s ∧ Counted s ∧
      s.get none none =
        { size := s.model.tokens + estimateTokensForMessages (s.context.drop s.model.length)
          measured := s.model.tokens
          estimated := estimateTokensForMessages (s.context.drop s.model.length) } := by
  have hsome : (answered.foldlM (fun s => step s fun m m' => decide (m = m')) (unmeasured {})).isSome = true := by
    decide +kernel
  obtain ⟨s, hrun⟩ := isSome_iff_exists.mp hsome
  have hkeeps : AlongRun (fun s => step s fun m m' => decide (m = m')) KeepsCounted (unmeasured {}) answered := by
    decide +kernel
  exact ⟨s, hrun, counted_of_run hkeeps hrun⟩

/-- A measured step that ends empty: the prefix is longer than the context, and the next message is taken
for a measured one, so that no token counts for it. -/
theorem counted_emptyStep :
    ∃ s ∈ [Event.call 0 (.append [question]), .call 1 (.appendLoopEvent (.stepBegin "s1")),
          .measured [question, partialAssistant] usage, .call 2 (.appendLoopEvent (.stepEnd "s1"))].foldlM
        (fun s => step s fun m m' => decide (m = m')) (unmeasured {}),
      s.context.length = 1 ∧ s.model.length = 2 ∧
        ∃ s' ∈ step s (fun m m' => decide (m = m')) (.call 3 (.append [question])),
          s'.context = [question, question] ∧ (s'.get none none).estimated = 0 := by
  decide +kernel

end AgentContextSizeService
end Echadron.Agent
