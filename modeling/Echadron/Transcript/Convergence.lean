import Echadron.Transcript.Granularity
import Echadron.Transcript.InteractionReplay

namespace Echadron.Transcript
open Lib List

variable {C : Type} {nt : NumberText} {P F state : AgentState C} {ops : List (TranscriptOperation C)}

/-! What stands beside the timeline after a replay. -/

def taskAppends (id : Text) : TranscriptOperation C → Option (Nat × Text)
  | .append (.task taskId) offset chunk => if taskId = id then some (offset, chunk) else none
  | _ => none

def taskText (task : Option (TranscriptTask C)) : Option Text :=
  some ((task.map TranscriptTask.outputTail).getD [])

theorem streams_task (id : Text) : Streams (C := C) (taskWrite id) taskText (taskAppends id) where
  skip op happends hamend := by
    cases op with
    | taskUpsert task =>
      rw [taskWrite] at hamend ⊢
      split at hamend
      · exact hamend.elim
      · rename_i h
        rw [if_neg h]
    | append target offset chunk =>
      cases target with
      | frame turnId stepId frameId => rfl
      | task taskId =>
        rw [taskAppends] at happends
        rw [taskWrite]
        split
        · rename_i h
          rw [if_pos h] at happends
          cases happends
        · rfl
    | _ => rfl
  amend op offset chunk happends := by
    cases op with
    | append target offset' chunk' =>
      cases target with
      | frame turnId stepId frameId => cases happends
      | task taskId =>
        rw [taskAppends] at happends
        split at happends
        · rename_i h
          cases happends
          refine ⟨appendTask id offset chunk, by rw [taskWrite, if_pos h], ?_⟩
          intro x current hx
          have hcurrent : (x.map TranscriptTask.outputTail).getD [] = current := Option.some.inj hx
          constructor
          · intro hno
            rw [appendTask, hcurrent]
            cases hplaced : appendAtOffset current offset chunk with
            | text merged => exact absurd hplaced (hno merged)
            | _ => rfl
          · intro merged hplaced
            rw [appendTask, hcurrent, hplaced]
            cases x <;> rfl
        · cases happends
    | _ => cases happends

theorem settled_taskWrite (id : Text) (op : TranscriptOperation C) : (taskWrite id op).Settled fun _ => True := by
  cases hwrite : taskWrite id op with
  | amend g => exact fun v hv => absurd trivial hv
  | _ => trivial

theorem lands_task
    (hgap : (applyTaskAppend state taskId offset chunk).gap = none) :
    Lands taskText (state.tasks.get taskId) offset chunk := by
  refine ⟨_, rfl, ?_⟩
  intro gap hplaced
  rw [applyTaskAppend] at hgap
  rw [hplaced] at hgap
  cases hgap

section

variable (id : Text) (op : TranscriptOperation C)

theorem settled_attachmentWrite : (attachmentWrite id op).Settled fun _ => False := by
  cases op with
  | attachmentUpsert attachment =>
    rw [attachmentWrite]
    split
    · trivial
    · exact fun _ _ => rfl
  | _ => exact fun _ _ => rfl

theorem settled_todoWrite : (todoWrite id op).Settled fun _ => False := by
  cases op with
  | todoUpsert todo =>
    rw [todoWrite]
    split
    · trivial
    · exact fun _ _ => rfl
  | _ => exact fun _ _ => rfl

theorem settled_promptWrite : (promptWrite id op).Settled fun _ => False := by
  cases op with
  | promptUpsert prompt =>
    rw [promptWrite]
    split
    · trivial
    · exact fun _ _ => rfl
  | _ => exact fun _ _ => rfl

end

variable [DecidableEq C]

omit [DecidableEq C] in
theorem settled_metaWrite [DecidableEq V] {cell : TranscriptMeta C → Option V}
    (h : MetaField cell write) (op : TranscriptOperation C) :
    (metaWrite write op).Settled fun _ => False := by
  cases op with
  | metaMerge merge => exact h.keep merge
  | _ => exact fun _ _ => rfl

theorem hasMoreOlder_applyAll (hops : ∀ op ∈ ops, Plain nt op) :
    (applyAll nt state ops).hasMoreOlder = state.hasMoreOlder := by
  induction ops generalizing state with
  | nil => rfl
  | cons op ops ih =>
    obtain ⟨hop, hops⟩ := forall_mem_cons.mp hops
    exact (ih hops).trans (unchanged_apply nt state hop.2).hasMoreOlder

namespace Overlap

theorem task (h : Overlap nt P F ops) (k : Text) : (applyAll nt F ops).tasks.get k = F.tasks.get k := by
  have hexact (v w : TranscriptTask C) (_ : True) (hkey : id w = id v) : w = v := hkey
  apply (writes_task nt k).absorbed_stream hexact (settled_taskWrite k) (streams_task k)
    h.producer h.consumer h.plain (h.loaded.tasks k)
  intro hamends pre op post offset chunk hsplit happends
  cases op with
  | append target offset' chunk' =>
    cases target with
    | frame turn step f => cases happends
    | task taskId =>
      rw [taskAppends] at happends
      split at happends
      · rename_i he
        subst he
        obtain ⟨rfl, rfl⟩ := Prod.mk.inj (Option.some.inj happends)
        apply lands_task
        rcases h.replayable.landed pre _ _ _ post hsplit with ⟨settling, hmem, hsettles⟩ | hgap
        · have hamend := hamends settling hmem
          cases settling with
          | taskUpsert task =>
            have hhere : task.taskId = taskId := hsettles
            rw [taskWrite, if_pos hhere] at hamend
            exact hamend.elim
          | _ => exact hsettles.elim
        · exact hgap
      · cases happends
  | _ => cases happends

theorem metadata (h : Overlap nt P F ops) : (applyAll nt F ops).metadata = F.metadata := by
  apply metadata_of_fields h.replayed.tidyModes h.consumer.tidyModes
  intro V hV cell write hfield
  apply (hfield.writes nt).absorbed (settled_metaWrite hfield) h.producer h.consumer h.plain
  rw [h.loaded.metadata]

/-- A replay of what a snapshot already shows ends where the producer was. -/
theorem same (h : Overlap nt P F ops) : Same (applyAll nt F ops) (applyAll nt P ops) where
  items := h.items.trans h.loaded.items
  tasks k := (h.task k).trans (h.loaded.tasks k)
  interactions := h.interaction
  attachments k :=
    ((writes_attachment nt k).absorbed (settled_attachmentWrite k) h.producer h.consumer h.plain
      (h.loaded.attachments k)).trans (h.loaded.attachments k)
  todos k :=
    ((writes_todo nt k).absorbed (settled_todoWrite k) h.producer h.consumer h.plain
      (h.loaded.todos k)).trans (h.loaded.todos k)
  prompts k :=
    ((writes_prompt nt k).absorbed (settled_promptWrite k) h.producer h.consumer h.plain
      (h.loaded.prompts k)).trans (h.loaded.prompts k)
  metadata := h.metadata.trans h.loaded.metadata
  pending k := by
    rw [h.replayed.entities.pending, (h.producer.plain h.plain).entities.pending, h.interaction]
  hasMoreOlder := (hasMoreOlder_applyAll h.plain).trans h.loaded.hasMoreOlder

end Overlap

theorem items_congr (nt : NumberText) (h : s.items = t.items)
    {op : TranscriptOperation C} (hpart : op.part ≠ .whole) :
    (applyOperation nt s op).state.items = (applyOperation nt t op).state.items := by
  have hput (item : TranscriptItem C) (id : Text) (beforeTurn : Option ℚ) :
      (applyItemUpsert s item id beforeTurn).state.items =
        (applyItemUpsert t item id beforeTurn).state.items := by
    rw [applyItemUpsert, applyItemUpsert, h]
    split <;> rfl
  cases op with
  | reset agentId snapshot => exact absurd rfl hpart
  | turnUpsert turn =>
    simp only [applyOperation, applyTurnUpsert, h]
    cases getTurn t.items turn.turnId with
    | none => rfl
    | some existing =>
      dsimp only
      split
      · exact h
      · rfl
  | stepUpsert turnId step =>
    simp only [applyOperation, applyStepUpsert, h]
    cases upsertStep ((getTurn t.items turnId).getD (skeletonTurn nt turnId)) step with
    | none => exact h
    | some steps => rfl
  | frameUpsert turnId stepId frame =>
    simp only [applyOperation, applyFrameUpsert, h]
    cases upsertFrame ((getStep ((getTurn t.items turnId).getD (skeletonTurn nt turnId))
        stepId).getD (skeletonStep nt stepId turnId)) frame with
    | none => exact h
    | some frames => rfl
  | append target offset chunk =>
    cases target with
    | task taskId =>
      exact ((items_taskAppend s taskId offset chunk).trans h).trans
        (items_taskAppend t taskId offset chunk).symm
    | frame turnId stepId frameId =>
      simp only [applyOperation, applyAppend, applyFrameAppend, h]
      cases streamedFrame t.items turnId stepId frameId with
      | none => exact h
      | some found =>
        dsimp only
        cases appendAtOffset found.2.2.2 offset chunk with
        | text merged => rfl
        | _ => exact h
  | markerUpsert item beforeTurn => exact hput (.marker item) item.markerId beforeTurn
  | taskrefUpsert item beforeTurn => exact hput (.taskref item) item.refId beforeTurn
  | itemsRemove ids => rw [applyOperation, applyOperation, items_itemsRemove, items_itemsRemove, h]
  | _ => exact ((items_of_beside nt s rfl).trans h).trans (items_of_beside nt t rfl).symm

theorem Writes.congr [DecidableEq K] {key : V → K}
    {write : TranscriptOperation C → Write V} (h : Writes nt key cell write)
    (hs : Reachable nt (Documented nt) s) (ht : Reachable nt (Documented nt) t)
    (hop : Plain nt op) (hsame : cell s = cell t) :
    cell (applyOperation nt s op).state = cell (applyOperation nt t op).state := by
  rw [h s hs op hop, h t ht op hop, hsame]

namespace Same

variable {s t : AgentState C}

omit [DecidableEq C] in
theorem killed_iff (h : Same s t) (ids : List Text) (k : Text) : Killed s ids k ↔ Killed t ids k := by
  rw [Killed, Killed, removedTurns, removedTurns, h.interactions, h.items]

theorem interaction_apply (h : Same s t) (hs : Reachable nt (Documented nt) s)
    (ht : Reachable nt (Documented nt) t) (hop : Plain nt op) (k : Text) :
    (applyOperation nt s op).state.interactions.get k = (applyOperation nt t op).state.interactions.get k := by
  by_cases hupserts : op.upserts k
  · cases op with
    | interactionUpsert interaction =>
      have hhere : interaction.interactionId = k := hupserts
      have hput {state : AgentState C} (hstate : Reachable nt (Documented nt) state) :
          (applyOperation nt state (.interactionUpsert interaction)).state.interactions.get k =
            some interaction :=
        (get_interactionUpsert hstate.entities.interactions interaction k).trans (if_pos hhere)
      rw [hput hs, hput ht]
    | _ => exact hupserts.elim
  · rcases Transcript.interaction_apply hs hop hupserts with ⟨⟨ids, rfl, hkilled⟩, hafter⟩ | ⟨hkept, hafter⟩
    · rw [hafter]
      exact (get_of_killed ht.entities.interactions ((h.killed_iff ids k).mp hkilled)).symm
    · rcases Transcript.interaction_apply ht hop hupserts with ⟨⟨ids, rfl, hkilled⟩, _⟩ | ⟨_, hafter'⟩
      · exact absurd ((h.killed_iff ids k).mpr hkilled) (hkept ids rfl)
      · rw [hafter, hafter', h.interactions]

omit [DecidableEq C] in
theorem refl (s : AgentState C) : Same s s :=
  ⟨rfl, fun _ => rfl, fun _ => rfl, fun _ => rfl, fun _ => rfl, fun _ => rfl, rfl, fun _ => Iff.rfl, rfl⟩

section

variable (h : Same s t) (hs : Reachable nt (Documented nt) s) (ht : Reachable nt (Documented nt) t)
include h hs ht

theorem apply (hop : Genuine nt (Documented nt) op) :
    Same (applyOperation nt s op).state (applyOperation nt t op).state := by
  by_cases hpart : op.part = .whole
  · obtain ⟨agentId, snapshot, rfl⟩ := eq_reset_of_part hpart
    exact refl _
  · have hplain : Plain nt op := ⟨hop.allowed hpart, hpart⟩
    have hinteraction := h.interaction_apply hs ht hplain
    constructor
    · exact items_congr nt h.items hpart
    · exact fun k => (writes_task nt k).congr hs ht hplain (h.tasks k)
    · exact hinteraction
    · exact fun k => (writes_attachment nt k).congr hs ht hplain (h.attachments k)
    · exact fun k => (writes_todo nt k).congr hs ht hplain (h.todos k)
    · exact fun k => (writes_prompt nt k).congr hs ht hplain (h.prompts k)
    · apply metadata_of_fields (hs.step hop).tidyModes (ht.step hop).tidyModes
      intro V hV cell write hfield
      apply (hfield.writes nt).congr hs ht hplain
      rw [h.metadata]
    · intro k
      rw [(hs.step hop).entities.pending, (ht.step hop).entities.pending, hinteraction]
    · rw [(unchanged_apply nt s hpart).hasMoreOlder, (unchanged_apply nt t hpart).hasMoreOlder, h.hasMoreOlder]

theorem applyAll (hops : ∀ op ∈ ops, Genuine nt (Documented nt) op) :
    Same (applyAll nt s ops) (applyAll nt t ops) := by
  induction ops generalizing s t with
  | nil => exact h
  | cons op ops ih =>
    obtain ⟨hop, hops⟩ := forall_mem_cons.mp hops
    exact ih (h.apply hs ht hop) (hs.step hop) (ht.step hop) hops

end

omit [DecidableEq C] in
theorem loaded (h : Entities s) : Same (applyReset (s.snapshot none)).state s where
  items := rfl
  tasks := h.tasks.get_ofValues
  interactions := h.interactions.get_ofValues
  attachments := h.attachments.get_ofValues
  todos := h.todos.get_ofValues
  prompts := h.prompts.get_ofValues
  metadata := rfl
  pending k := by
    rw [(h.reset none).pending, h.pending]
    have hget : (applyReset (s.snapshot none)).state.interactions.get k = s.interactions.get k :=
      h.interactions.get_ofValues k
    rw [hget]
  hasMoreOlder := rfl

end Same

/-- A consumer that loads the snapshot after `A ++ B` and then takes `B ++ D` ends where the producer
does. -/
theorem overlap_converges (nt : NumberText) (A B D : List (TranscriptOperation C))
    (hops : ∀ op ∈ A ++ B ++ D, Genuine nt (Documented nt) op)
    (hB : (∃ op ∈ B, op.part = .whole) ∨ Replayable nt (applyAll nt {} A) B) :
    Same (applyAll nt (applyReset ((applyAll nt {} (A ++ B)).snapshot none)).state (B ++ D))
      (applyAll nt {} (A ++ B ++ D)) := by
  obtain ⟨hAB, hD⟩ := forall_mem_append.mp hops
  obtain ⟨hA, hB'⟩ := forall_mem_append.mp hAB
  have hP : Reachable nt (Documented nt) (applyAll nt {} A) := Reachable.empty.applyAll hA
  have hPB : Reachable nt (Documented nt) (applyAll nt {} (A ++ B)) := Reachable.empty.applyAll hAB
  have hF : Reachable nt (Documented nt) (applyReset ((applyAll nt {} (A ++ B)).snapshot none)).state :=
    Reachable.empty.reset hPB [] none
  have hoverlap : Same (applyAll nt (applyReset ((applyAll nt {} (A ++ B)).snapshot none)).state B)
      (applyAll nt {} (A ++ B)) := by
    have hloaded := Same.loaded hPB.entities
    rw [applyAll_append nt {} A B] at hloaded ⊢
    by_cases hreset : ∃ op ∈ B, op.part = .whole
    · obtain ⟨op, hop, hpart⟩ := hreset
      obtain ⟨agentId, snapshot, rfl⟩ := eq_reset_of_part hpart
      obtain ⟨pre, post, rfl⟩ := append_of_mem hop
      rw [applyAll_append, applyAll_append nt (applyAll nt {} A)]
      exact Same.refl _
    · have hplain : ∀ op ∈ B, Plain nt op := by
        intro op hop
        have hpart : op.part ≠ .whole := fun h => hreset ⟨op, hop, h⟩
        exact ⟨(hB' op hop).allowed hpart, hpart⟩
      rw [applyAll_append] at hF
      exact Overlap.same ⟨hP, hF, hplain, hloaded, hB.resolve_left hreset⟩
  rw [applyAll_append, applyAll_append nt {} (A ++ B)]
  exact hoverlap.applyAll (hF.applyAll hB') hPB hD

def streamedText : List (TranscriptOperation Nat) :=
  [.frameUpsert (turnId decimals 2) (stepId decimals (turnId decimals 2) 1)
      (.text { frameId := [102], role := .assistant, text := [104] }),
    .append (.frame (turnId decimals 2) (stepId decimals (turnId decimals 2) 1) [102]) 1 [105],
    .itemsRemove [turnId decimals 1]]

theorem documented_streamedText : ∀ op ∈ streamedText, Plain decimals op := by
  intro op hop
  simp only [streamedText, mem_cons, not_mem_nil, or_false] at hop
  rcases hop with rfl | rfl | rfl
  · exact ⟨⟨⟨2, rfl⟩, 1, rfl⟩, Part.noConfusion⟩
  · exact ⟨trivial, Part.noConfusion⟩
  · exact ⟨trivial, Part.noConfusion⟩

theorem replayable_streamedText : Replayable decimals (applyAll decimals {} (twoTurns.take 2)) streamedText where
  recreated pre ids post hsplit k hk op hop := by
    have hlast : post = [] := by
      rcases pre with _ | ⟨a, _ | ⟨b, _ | ⟨c, pre⟩⟩⟩ <;> simp_all [streamedText]
    rw [hlast] at hop
    cases hop
  landed pre target offset chunk post hsplit := by
    left
    have hmem : .append target offset chunk ∈ streamedText := hsplit ▸ mem_append_right _ mem_cons_self
    simp only [streamedText, mem_cons, not_mem_nil, or_false, reduceCtorEq, false_or] at hmem
    cases hmem
    exact ⟨_, mem_cons_self, rfl, rfl, rfl⟩
  anchored pre ids post hsplit k interaction hget hcalls := by
    left
    intro op hop hupserts
    have hmem : op ∈ streamedText := hsplit ▸ mem_append_left _ hop
    simp only [streamedText, mem_cons, not_mem_nil, or_false] at hmem
    rcases hmem with rfl | rfl | rfl <;> exact hupserts.elim

theorem overlap_converges_streamedText : Same (applyAll decimals
        (applyReset ((applyAll decimals {} (twoTurns.take 2 ++ streamedText)).snapshot none)).state
        (streamedText ++ [.append (.task [116]) 0 [111]]))
      (applyAll decimals {} (twoTurns.take 2 ++ streamedText ++ [.append (.task [116]) 0 [111]])) := by
  apply overlap_converges decimals (twoTurns.take 2) streamedText [.append (.task [116]) 0 [111]]
  · intro op hop
    simp only [twoTurns, take, mem_append, mem_cons, not_mem_nil, or_false] at hop
    rcases hop with ((rfl | rfl) | hop) | rfl
    · exact ⟨⟨2, rfl⟩, rfl⟩
    · exact rfl
    · exact (documented_streamedText op hop).genuine
    · exact trivial
  · exact .inr replayable_streamedText

/-- A turn is removed with the question that it asks, and the replay asks it again. -/
theorem removedQuestion_replayed : ¬Same (applyAll decimals
        (applyReset ((applyAll decimals {} (removedQuestion.take 3 ++ removedQuestion.drop 3)).snapshot
          none)).state (removedQuestion.drop 3 ++ []))
      (applyAll decimals {} (removedQuestion.take 3 ++ removedQuestion.drop 3 ++ [])) := by
  intro h
  have hpending := (h.pending [105]).mp (by decide +kernel)
  revert hpending
  decide +kernel

end Echadron.Transcript
