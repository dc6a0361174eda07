import Echadron.Transcript.Cells

namespace Echadron.Transcript
open Lib List Option

variable {C : Type}

/-! The cells of a state, each of which goes on by itself. -/

def stepCell (state : AgentState C) (id stepId : Text) : Option (TranscriptStep C) :=
  (getTurn state.items id).bind (getStep · stepId)

def frameCell (state : AgentState C) (id stepId frameId : Text) : Option (TranscriptFrame C) :=
  (stepCell state id stepId).bind (getFrame · frameId)

def frameIdsOf (step : Option (TranscriptStep C)) : List Text :=
  (step.map fun step => step.frames.map TranscriptFrame.frameId).getD []

def frameIdsEffect (id stepId : Text) : TranscriptOperation C → List Text → List Text
  | .frameUpsert turnId frameStep frame, ids =>
    if turnId = id ∧ frameStep = stepId ∧ frame.frameId ∉ ids then ids ++ [frame.frameId] else ids
  | .itemsRemove removed, ids => if id ∈ removed then [] else ids
  | _, ids => ids

theorem getFrame_isSome (step : TranscriptStep C) (frameId : Text) :
    (getFrame step frameId).isSome ↔ frameId ∈ step.frames.map TranscriptFrame.frameId := by
  rw [getFrame, find?_isSome, List.mem_map]
  simp only [decide_eq_true_eq]

variable [DecidableEq C] {nt : NumberText} {state : AgentState C}

theorem frameIds_upsertFrame (step : TranscriptStep C) (frame : TranscriptFrame C) :
    (((upsertFrame step frame).map fun frames => frames.map TranscriptFrame.frameId).getD
        (step.frames.map TranscriptFrame.frameId)) =
      if frame.frameId ∉ step.frames.map TranscriptFrame.frameId then
        step.frames.map TranscriptFrame.frameId ++ [frame.frameId]
      else step.frames.map TranscriptFrame.frameId := by
  have hmem := getFrame_isSome step frame.frameId
  rcases upsertFrame_cases step frame with
    ⟨current, hcurrent, _, hframes⟩ | ⟨current, hcurrent, _, hframes⟩ | ⟨hnone, hframes⟩
  · rw [hcurrent] at hmem
    rw [hframes, if_neg (not_not_intro (hmem.mp rfl))]
    rfl
  · rw [hcurrent] at hmem
    rw [hframes, if_neg (not_not_intro (hmem.mp rfl)), map_some, map_if_id rfl]
    rfl
  · rw [hnone] at hmem
    rw [hframes, if_pos fun h => Bool.false_ne_true (hmem.mpr h), map_some, map_append]
    rfl

omit [DecidableEq C] in
theorem frameIds_frameAppended {step next : TranscriptStep C}
    (h : frameAppended step frameId offset chunk = some next) :
    next.frames.map TranscriptFrame.frameId = step.frames.map TranscriptFrame.frameId := by
  obtain ⟨frame, hframe, h⟩ := bind_eq_some_iff.mp h
  obtain ⟨current, _, h⟩ := bind_eq_some_iff.mp h
  cases hplaced : appendAtOffset current offset chunk with
  | text merged =>
    rw [hplaced] at h
    obtain rfl := Option.some.inj h
    exact map_if_id ((frameId_withText merged frame).trans (getFrame_mem hframe).2)
  | _ =>
    rw [hplaced] at h
    cases h

theorem frameIds_stepEffect (nt : NumberText) (step : Option (TranscriptStep C)) (id stepId : Text)
    (op : TranscriptOperation C) :
    frameIdsOf (stepEffect nt id stepId op step) = frameIdsEffect id stepId op (frameIdsOf step) := by
  cases op with
  | stepUpsert turnId header =>
    rw [stepEffect]
    split
    · split
      · rfl
      · cases step <;> rfl
    · rfl
  | frameUpsert turnId frameStep frame =>
    rw [stepEffect, frameIdsEffect]
    by_cases hhere : turnId = id ∧ frameStep = stepId
    · have hids : frameIdsOf step =
          (step.getD (skeletonStep nt stepId id)).frames.map TranscriptFrame.frameId := by
        cases step <;> rfl
      have hupsert := frameIds_upsertFrame (step.getD (skeletonStep nt stepId id)) frame
      rw [if_pos hhere]
      dsimp only
      rw [hids]
      by_cases hnew : frame.frameId ∉
          (step.getD (skeletonStep nt stepId id)).frames.map TranscriptFrame.frameId
      · rw [if_pos hnew] at hupsert
        rw [if_pos ⟨hhere.1, hhere.2, hnew⟩, ← hupsert]
        cases hframes : upsertFrame (step.getD (skeletonStep nt stepId id)) frame with
        | none => exact hids
        | some frames => rfl
      · rw [if_neg hnew] at hupsert
        rw [if_neg fun h => hnew h.2.2]
        cases hframes : upsertFrame (step.getD (skeletonStep nt stepId id)) frame with
        | none => exact hids
        | some frames =>
          rw [hframes] at hupsert
          exact hupsert
    · rw [if_neg hhere, if_neg fun h => hhere ⟨h.1, h.2.1⟩]
  | append target offset chunk =>
    cases target with
    | task taskId => rfl
    | frame turnId frameStep frameId =>
      rw [stepEffect]
      split
      · cases step with
        | none => rfl
        | some s =>
          rw [bind_some]
          cases hframe : frameAppended s frameId offset chunk with
          | none => rfl
          | some next => exact frameIds_frameAppended hframe
      · rfl
  | itemsRemove ids =>
    rw [stepEffect, frameIdsEffect]
    split <;> rfl
  | _ => rfl

/-- An operation in the scheme that is no reset. -/
def Plain (nt : NumberText) (op : TranscriptOperation C) : Prop := Documented nt op ∧ op.part ≠ .whole

theorem Plain.genuine {op : TranscriptOperation C} (h : Plain nt op) : Genuine nt (Documented nt) op := by
  cases op with
  | reset agentId snapshot => exact absurd rfl h.2
  | _ => exact h.1

theorem Reachable.plain (h : Reachable nt (Documented nt) state) {ops : List (TranscriptOperation C)}
    (hops : ∀ op ∈ ops, Plain nt op) : Reachable nt (Documented nt) (Transcript.applyAll nt state ops) :=
  h.applyAll fun op hop => (hops op hop).genuine

section

variable {V K : Type} [DecidableEq K] {key : V → K} {cell : AgentState C → Option V}
  {write : TranscriptOperation C → Write V}

def Writes (nt : NumberText) (key : V → K) (cell : AgentState C → Option V)
    (write : TranscriptOperation C → Write V) : Prop :=
  ∀ state, Reachable nt (Documented nt) state → ∀ op, Plain nt op →
    cell (applyOperation nt state op).state = (write op).run key (cell state)

theorem Writes.run (h : Writes nt key cell write) (hs : Reachable nt (Documented nt) state)
    {ops : List (TranscriptOperation C)} (hops : ∀ op ∈ ops, Plain nt op) :
    cell (applyAll nt state ops) = runWrites key (ops.map write) (cell state) := by
  induction ops generalizing state with
  | nil => rfl
  | cons op ops ih =>
    obtain ⟨hop, hops⟩ := forall_mem_cons.mp hops
    have hnext := ih (hs.step hop.genuine) hops
    rw [h state hs op hop] at hnext
    exact hnext

end

theorem Reachable.turn_of_get (h : Reachable nt (Documented nt) state) {id : Text}
    (hget : getTurn state.items id = some turn) :
    TurnOrdered nt turn ∧ turn.turnId = id :=
  h.timeline.turn_of_get hget

theorem writes_turn (nt : NumberText) (q : ℚ) : Writes nt turnKey (fun state : AgentState C =>
      (getTurn state.items (turnId nt q)).map TranscriptTurn.toTurnHeader)
      (turnWrite nt (turnId nt q)) := by
  intro state hs op hop
  dsimp only
  rw [getTurn_apply nt state hop.1 hop.2]
  apply map_turnEffect
  intro t ht
  exact (getTurn_mem ht).2

theorem stepCell_apply (h : Reachable nt (Documented nt) state) (hop : Plain nt op) (q : ℚ) (stepId : Text) :
    stepCell (applyOperation nt state op).state (turnId nt q) stepId =
      stepEffect nt (turnId nt q) stepId op (stepCell state (turnId nt q) stepId) := by
  rw [stepCell, getTurn_apply nt state hop.1 hop.2]
  apply getStep_turnEffect
  intro t ht
  exact (h.turn_of_get ht).1.steps_nodup

theorem writes_step (nt : NumberText) (q : ℚ) (stepId : Text) : Writes nt stepKey (fun state : AgentState C =>
      (stepCell state (turnId nt q) stepId).map TranscriptStep.toStepHeader)
      (stepWrite nt (turnId nt q) stepId) := by
  intro state hs op hop
  dsimp only
  rw [stepCell_apply hs hop]
  apply map_stepEffect
  intro s hstep
  obtain ⟨turn, _, hget⟩ := bind_eq_some_iff.mp hstep
  exact (getStep_mem hget).2

theorem writes_frame (nt : NumberText) (q : ℚ) (stepId frameId : Text) :
    Writes nt frameKey (fun state : AgentState C => frameCell state (turnId nt q) stepId frameId)
      (frameWrite (turnId nt q) stepId frameId) := by
  intro state hs op hop
  dsimp only
  rw [frameCell, stepCell_apply hs hop, bind_stepEffect]
  rfl

def Held (current : Text) (offset : Nat) (chunk : Text) : Prop :=
  offset ≤ current.length ∧ (current.drop offset).take chunk.length = chunk

omit [DecidableEq C] in
theorem Held.extend (h : Held current offset chunk)
    (hbegins : current.IsPrefix longer) : Held longer offset chunk := by
  obtain ⟨rest, rfl⟩ := hbegins
  obtain ⟨hoffset, htake⟩ := h
  have hlength : chunk.length ≤ (current.drop offset).length := by
    have := congrArg List.length htake
    rw [length_take] at this
    omega
  refine ⟨hoffset.trans (by rw [length_append]; omega), ?_⟩
  rw [drop_append_of_le_length hoffset, take_append_of_le_length hlength, htake]

theorem appendAtOffset_of_held
    (h : Held current offset chunk) : appendAtOffset current offset chunk = .unchanged := by
  rw [appendAtOffset, if_neg (not_lt.mpr h.1), if_pos h.2]

theorem appendAtOffset_cases (current : Text) (offset : Nat) (chunk : Text) :
    (∃ gap, appendAtOffset current offset chunk = .gap gap) ∨
      appendAtOffset current offset chunk = .unchanged ∧ Held current offset chunk ∨
      ∃ merged, appendAtOffset current offset chunk = .text merged ∧ current.IsPrefix merged ∧
        Held merged offset chunk := by
  rw [appendAtOffset]
  by_cases hgap : current.length < offset
  · exact .inl ⟨_, if_pos hgap⟩
  rw [if_neg hgap]
  have hoffset : offset ≤ current.length := not_lt.mp hgap
  by_cases hheld : (current.drop offset).take chunk.length = chunk
  · exact .inr (.inl ⟨if_pos hheld, hoffset, hheld⟩)
  rw [if_neg hheld]
  by_cases hdiffers : current.drop offset ≠ chunk.take (current.length - offset)
  · exact .inl ⟨_, if_pos hdiffers⟩
  rw [if_neg hdiffers]
  have hsame : current.drop offset = chunk.take (current.length - offset) := not_not.mp hdiffers
  have hnovel : (if 0 < current.length - offset then chunk.drop (current.length - offset)
      else chunk).length ≠ 0 := by
    intro hempty
    apply hheld
    rw [hsame, take_take]
    apply take_of_length_le
    split at hempty
    · rw [length_drop] at hempty
      omega
    · omega
  rw [if_neg hnovel]
  refine .inr (.inr ⟨_, rfl, ⟨chunk.drop (current.length - offset), ?_⟩, ?_, ?_⟩)
  · calc current ++ chunk.drop (current.length - offset)
      _ = current.take offset ++ current.drop offset ++ chunk.drop (current.length - offset) := by
        rw [take_append_drop]
      _ = current.take offset ++ chunk := by
        rw [hsame, append_assoc, take_append_drop]
  · rw [length_append, length_take]
    omega
  · rw [drop_append_of_le_length (by rw [length_take]; omega), drop_take_self, nil_append, take_length]

section

variable {V K : Type} [DecidableEq K] {key : V → K} {cell : AgentState C → Option V}
  {write : TranscriptOperation C → Write V} {text : Option V → Option Text}
  {appends : TranscriptOperation C → Option (Nat × Text)}

/-- What amends a cell appends to its text. -/
structure Streams (write : TranscriptOperation C → Write V) (text : Option V → Option Text)
    (appends : TranscriptOperation C → Option (Nat × Text)) : Prop where
  skip : ∀ op, appends op = none → (write op).isAmend → write op = .skip
  amend : ∀ op offset chunk, appends op = some (offset, chunk) → ∃ g, write op = .amend g ∧
    ∀ x current, text x = some current →
      ((∀ merged, appendAtOffset current offset chunk ≠ .text merged) → g x = x) ∧
      ∀ merged, appendAtOffset current offset chunk = .text merged → text (g x) = some merged

def Lands (text : Option V → Option Text) (x : Option V) (offset : Nat) (chunk : Text) : Prop :=
  ∃ current, text x = some current ∧ ∀ gap, appendAtOffset current offset chunk ≠ .gap gap

section

omit [DecidableEq C]

theorem Streams.step (h : Streams write text appends) (key : V → K) (hamend : (write op).isAmend)
    (hlands : ∀ offset chunk, appends op = some (offset, chunk) → Lands text x offset chunk)
    (hcurrent : text x = some current) :
    ∃ longer, text ((write op).run key x) = some longer ∧ current.IsPrefix longer ∧
      ∀ offset chunk, appends op = some (offset, chunk) → Held longer offset chunk := by
  cases happends : appends op with
  | none =>
    rw [h.skip op happends hamend]
    refine ⟨current, hcurrent, prefix_refl _, ?_⟩
    intro offset chunk he
    cases he
  | some placed =>
    obtain ⟨offset, chunk⟩ := placed
    obtain ⟨g, hwrite, hg⟩ := h.amend op offset chunk happends
    obtain ⟨hsame, hgrows⟩ := hg x current hcurrent
    obtain ⟨current', hcurrent', hnogap⟩ := hlands offset chunk happends
    obtain rfl : current' = current := mem_unique hcurrent' hcurrent
    have hheld {longer : Text} (hthis : Held longer offset chunk) :
        ∀ offset' chunk', some (offset, chunk) = some (offset', chunk') → Held longer offset' chunk' := by
      intro offset' chunk' he
      cases he
      exact hthis
    rw [hwrite, Write.run]
    rcases appendAtOffset_cases current' offset chunk with ⟨gap, hgap⟩ | ⟨hplaced, hthis⟩ |
      ⟨merged, hplaced, hbegins, hthis⟩
    · exact absurd hgap (hnogap gap)
    · refine ⟨current', ?_, prefix_refl _, hheld hthis⟩
      rw [hsame fun merged he => by rw [hplaced] at he; cases he]
      exact hcurrent
    · exact ⟨merged, hgrows merged hplaced, hbegins, hheld hthis⟩

/-- Appends that land, and nothing else: every chunk is in the text at the end. -/
theorem Streams.held (h : Streams write text appends) (hamends : ∀ op ∈ ops, (write op).isAmend)
    (hlands : ∀ pre op post offset chunk, ops = pre ++ op :: post → appends op = some (offset, chunk) →
      Lands text (runWrites key (pre.map write) x) offset chunk) :
    ∀ op ∈ ops, ∀ offset chunk, appends op = some (offset, chunk) →
      ∃ current, text (runWrites key (ops.map write) x) = some current ∧ Held current offset chunk := by
  induction ops using reverseRecOn with
  | nil => exact forall_mem_nil _
  | append_singleton ops last ih =>
    have hlast := hamends last (mem_append_right _ (mem_singleton_self last))
    have hlandsLast : ∀ offset chunk, appends last = some (offset, chunk) →
        Lands text (runWrites key (ops.map write) x) offset chunk :=
      fun offset chunk => hlands ops last [] offset chunk rfl
    have hbefore := ih (fun op hop => hamends op (mem_append_left _ hop)) (by
      intro pre op post offset chunk hsplit
      exact hlands pre op (post ++ [last]) offset chunk (by rw [hsplit]; simp))
    have hrun : runWrites key ((ops ++ [last]).map write) x =
        (write last).run key (runWrites key (ops.map write) x) := by
      rw [map_append, runWrites_append]
      rfl
    rw [hrun]
    intro op hop offset chunk happends
    rcases mem_snoc.mp hop with hop | rfl
    · obtain ⟨current, hcurrent, hheld⟩ := hbefore op hop offset chunk happends
      obtain ⟨longer, hlonger, hbegins, _⟩ := h.step key hlast hlandsLast hcurrent
      exact ⟨longer, hlonger, hheld.extend hbegins⟩
    · obtain ⟨current, hcurrent, _⟩ := hlandsLast offset chunk happends
      obtain ⟨longer, hlonger, _, hheld⟩ := h.step key hlast hlandsLast hcurrent
      exact ⟨longer, hlonger, hheld offset chunk happends⟩

theorem Streams.absorbed (h : Streams write text appends) {ops : List (TranscriptOperation C)}
    (hamends : ∀ op ∈ ops, (write op).isAmend)
    (hheld : ∀ op ∈ ops, ∀ offset chunk, appends op = some (offset, chunk) →
      ∃ current, text y = some current ∧ Held current offset chunk) :
    runWrites key (ops.map write) y = y := by
  induction ops with
  | nil => rfl
  | cons op ops ih =>
    obtain ⟨hop, hops⟩ := forall_mem_cons.mp hamends
    obtain ⟨hheldOp, hheldOps⟩ := forall_mem_cons.mp hheld
    have hsame : (write op).run key y = y := by
      cases happends : appends op with
      | none =>
        rw [h.skip op happends hop]
        rfl
      | some placed =>
        obtain ⟨g, hwrite, hg⟩ := h.amend op placed.1 placed.2 happends
        obtain ⟨current, hcurrent, hthis⟩ := hheldOp placed.1 placed.2 happends
        rw [hwrite, Write.run]
        apply (hg y current hcurrent).1
        intro merged he
        rw [appendAtOffset_of_held hthis] at he
        cases he
    rw [map_cons, runWrites, foldl_cons, hsame]
    exact ih hops hheldOps

end

variable {P F : AgentState C} {ops : List (TranscriptOperation C)}

theorem Writes.absorbed (h : Writes nt key cell write) (hkeep : ∀ op, (write op).Settled fun _ => False)
    (hP : Reachable nt (Documented nt) P) (hF : Reachable nt (Documented nt) F)
    (hops : ∀ op ∈ ops, Plain nt op) (hloaded : cell F = cell (applyAll nt P ops)) :
    cell (applyAll nt F ops) = cell F := by
  have hsettled : ∀ w ∈ ops.map write, w.Settled fun _ => False := by
    intro w hw
    obtain ⟨op, _, rfl⟩ := mem_map.mp hw
    exact hkeep op
  rw [h.run hF hops, hloaded, h.run hP hops]
  exact runWrites_absorbed_of_keeping hsettled _

theorem Writes.absorbed_stream (h : Writes nt key cell write) {exact : V → Prop}
    (hexact : ∀ v w, exact v → key w = key v → w = v) (hsettled : ∀ op, (write op).Settled exact)
    (hstreams : Streams write text appends)
    (hP : Reachable nt (Documented nt) P) (hF : Reachable nt (Documented nt) F)
    (hops : ∀ op ∈ ops, Plain nt op) (hloaded : cell F = cell (applyAll nt P ops))
    (hlands : (∀ op ∈ ops, (write op).isAmend) →
      ∀ pre op post offset chunk, ops = pre ++ op :: post → appends op = some (offset, chunk) →
        Lands text (cell (applyAll nt P pre)) offset chunk) :
    cell (applyAll nt F ops) = cell F := by
  have hwrites : ∀ w ∈ ops.map write, w.Settled exact := by
    intro w hw
    obtain ⟨op, _, rfl⟩ := mem_map.mp hw
    exact hsettled op
  rw [h.run hF hops, hloaded, h.run hP hops]
  apply runWrites_absorbed hexact hwrites
  intro hamends
  have hamends' : ∀ op ∈ ops, (write op).isAmend := fun op hop => hamends _ (mem_map_of_mem hop)
  apply hstreams.absorbed hamends'
  apply hstreams.held hamends'
  intro pre op post offset chunk hsplit happends
  have hlanded := hlands hamends' pre op post offset chunk hsplit happends
  rwa [h.run hP fun op hop => hops op (hsplit ▸ mem_append_left _ hop)] at hlanded

end

end Echadron.Transcript
