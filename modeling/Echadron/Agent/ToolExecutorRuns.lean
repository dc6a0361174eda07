import Mathlib.Algebra.Ring.Nat
import Echadron.Agent.ToolExecutor
import Mathlib.Algebra.Order.BigOperators.Group.List

namespace Echadron.Agent
open Lib List

/-! What a run of `execute` keeps. -/

def announcedId : ExecutorRecord → Option String
  | .announced id => some id
  | _ => none

def executedId : ExecutorRecord → Option String
  | .executed id => some id
  | _ => none

def yieldedId : ExecutorRecord → Option String
  | .yielded id _ => some id
  | _ => none

def announcedIds (trace : List ExecutorRecord) : List String := trace.filterMap announcedId

def executedIds (trace : List ExecutorRecord) : List String := trace.filterMap executedId

def yieldedIds (trace : List ExecutorRecord) : List String := trace.filterMap yieldedId

def InOrder (a b : ExecutorRecord) : Prop :=
  (a = .aborted → executedId b = none) ∧ (yieldedId a ≠ none → announcedId b = none)

/-- Truncation leaves an output as it is or puts a text in its place. -/
def TruncatesToText (w : ExecutorWorld) : Prop :=
  ∀ toolName toolCallId result, (w.truncateForModel toolName toolCallId result).isError = result.isError ∧
    ((w.truncateForModel toolName toolCallId result).output = result.output ∨
      ∃ text, text ≠ "" ∧ (w.truncateForModel toolName toolCallId result).output = .text text)

def ReadableValue (rt : Runtime) (value : JsValue) : Prop :=
  ∀ toolName, (coerceToolResult rt value toolName).output.Readable rt

def Thrown.Printable (error : Thrown) (aborted : Option Bool) : Prop :=
  error.isAbort = true ∨ aborted.isSome = true ∨ error.message.isSome = true

namespace ToolExecutor

def Sane (w : ExecutorWorld) (s : ToolExecutor) : ExecutorEvent → Prop
  | .resolverThrows error => error.message.isSome = true
  | .resolvesError value => s.aborted.isSome = true ∨ ReadableValue w.rt value
  | .vetoes value | .returns _ value => ReadableValue w.rt value
  | .throws _ error | .hookThrows _ error => error.Printable s.aborted
  | .hookPasses id replaced _ =>
    ∀ p ∈ s.prepared, p.id = id → ∀ result, p.progress = .settled result →
      (handedResult w.rt replaced result p.toolName).Readable w.rt
  | _ => True

structure Sound (calls : List PreflightedToolCall) (s : ToolExecutor) : Prop where
  kept : s.failed = false
  split : s.prepared.map PreparedCall.call ++ s.stage.calls ++ s.waiting = calls
  announced : announcedIds s.trace = s.prepared.map PreparedCall.id
  unbatched : s.batched = false → ∀ p ∈ s.prepared, p.progress = .queued
  runnable : ∀ p ∈ s.prepared, p.task.isRun = true → ∃ call, p.call = .runnable call
  vetoed : ∀ id, .vetoed id ∈ s.trace → ∃ p ∈ s.prepared, p.id = id ∧ p.task.isRun = false
  executed : ∀ id ∈ executedIds s.trace, ∃ p ∈ s.prepared, p.id = id ∧ p.task.isRun = true ∧ p.progress ≠ .queued
  executed_once : (executedIds s.trace).Nodup
  finalized : ∀ p ∈ s.prepared, ∀ result, p.progress = .finalized result → result.output.nonempty = true
  yielded : ∀ id result, .yielded id result ∈ s.trace →
    result.output.nonempty = true ∧ ∃ p ∈ s.prepared, p.id = id ∧ p.progress = .yielded
  yielded_once : (yieldedIds s.trace).Nodup
  done : ∀ p ∈ s.prepared, p.progress = .yielded → p.id ∈ yieldedIds s.trace
  stopped : s.prepared.Pairwise fun u t => u.stopBatchAfterThis = true → t.task.isRun = false
  stopping : ∀ p ∈ s.prepared, p.stopBatchAfterThis = true → s.stopBatch = true
  stop_idle : s.stopBatch = true → s.stage = .idle
  in_order : s.trace.Pairwise InOrder
  unaborted : s.aborted = none → .aborted ∉ s.trace

section Lemmas

variable {w : ExecutorWorld} {calls : List PreflightedToolCall} {s s' : ToolExecutor}

theorem announcedIds_append (trace more : List ExecutorRecord) :
    announcedIds (trace ++ more) = announcedIds trace ++ announcedIds more := filterMap_append

theorem executedIds_append (trace more : List ExecutorRecord) :
    executedIds (trace ++ more) = executedIds trace ++ executedIds more := filterMap_append

theorem yieldedIds_append (trace more : List ExecutorRecord) :
    yieldedIds (trace ++ more) = yieldedIds trace ++ yieldedIds more := filterMap_append

theorem mem_yieldedIds {trace : List ExecutorRecord} {id : String} :
    id ∈ yieldedIds trace ↔ ∃ result, .yielded id result ∈ trace := by
  rw [yieldedIds, mem_filterMap]
  constructor
  · rintro ⟨r, hr, hid⟩
    cases r with
    | yielded other result =>
      cases hid
      exact ⟨result, hr⟩
    | _ => cases hid
  · rintro ⟨result, hr⟩
    exact ⟨_, hr, rfl⟩

section

variable (p : PreparedCall) (id : String) (progress : TaskProgress)

theorem moveTo_call : (p.moveTo id progress).call = p.call := by
  rw [PreparedCall.moveTo]
  split <;> rfl

theorem moveTo_id : (p.moveTo id progress).id = p.id := by
  rw [PreparedCall.id, moveTo_call, PreparedCall.id]

theorem moveTo_task : (p.moveTo id progress).task = p.task := by
  rw [PreparedCall.moveTo]
  split <;> rfl

theorem moveTo_stopBatchAfterThis : (p.moveTo id progress).stopBatchAfterThis = p.stopBatchAfterThis := by
  rw [PreparedCall.moveTo]
  split <;> rfl

end

theorem moveTo_self (p : PreparedCall) (progress : TaskProgress) : (p.moveTo p.id progress).progress = progress := by
  rw [PreparedCall.moveTo, if_pos rfl]

theorem moveTo_other {p : PreparedCall} {id : String} (h : p.id ≠ id) (progress : TaskProgress) :
    p.moveTo id progress = p := if_neg h

theorem moveTo_progress (p : PreparedCall) (id : String) (progress : TaskProgress) :
    (p.moveTo id progress).progress = progress ∨ p.id ≠ id ∧ (p.moveTo id progress).progress = p.progress := by
  by_cases h : p.id = id
  · left
    rw [PreparedCall.moveTo, if_pos h]
  · right
    exact ⟨h, by rw [moveTo_other h]⟩

theorem mem_setProgress {id : String} :
    q ∈ (s.setProgress id progress).prepared ↔ ∃ p ∈ s.prepared, p.moveTo id progress = q := mem_map

theorem find_some {id : String} (h : s.find id = some p) : p ∈ s.prepared ∧ p.id = id := by
  have hid := find?_some h
  exact ⟨mem_of_find?_eq_some h, of_decide_eq_true hid⟩

theorem Sound.ids_nodup (h : Sound calls s) (hids : (calls.map PreflightedToolCall.id).Nodup) :
    (s.prepared.map PreparedCall.id).Nodup := by
  have hsplit := congrArg (map PreflightedToolCall.id) h.split
  rw [append_assoc, map_append, map_map] at hsplit
  rw [← hsplit] at hids
  exact (nodup_append.mp hids).1

section

variable (hids : (s.prepared.map PreparedCall.id).Nodup) (hp : p ∈ s.prepared)
include hids hp

theorem eq_of_id (hq : q ∈ s.prepared) (h : p.id = q.id) : p = q := inj_on_of_nodup_map hids hp hq h

theorem find_of_mem : s.find p.id = some p := by
  cases hfound : s.find p.id with
  | none =>
    have hnone := find?_eq_none.mp hfound p hp
    exact absurd (decide_eq_true rfl) hnone
  | some q =>
    obtain ⟨hq, hid⟩ := find_some hfound
    rw [eq_of_id hids hq hp hid]

end

section

variable (h : Sound calls s)
include h

theorem Sound.unyielded (hbusy : s.batched = false) : ∀ r ∈ s.trace, yieldedId r = none := by
  intro r hr
  cases r with
  | yielded id result =>
    obtain ⟨-, p, hp, -, hdone⟩ := h.yielded id result hr
    rw [h.unbatched hbusy p hp] at hdone
    cases hdone
  | _ => rfl

theorem Sound.settle (hsplit : s.prepared.map PreparedCall.call ++ call :: rest = calls) (hbusy : s.batched = false)
    (hrun : task.isRun = true → s.stopBatch = false ∧ ∃ runnable, call = .runnable runnable) :
    Sound calls ({ s with waiting := rest }.settle call task stop) where
  kept := h.kept
  split := by
    rw [← hsplit]
    simp [ToolExecutor.settle, PrepareStage.calls]
  announced := by
    change announcedIds (s.trace ++ [.announced call.id]) = (s.prepared ++ [_]).map PreparedCall.id
    rw [announcedIds_append, h.announced, map_append]
    rfl
  unbatched := by
    intro _
    apply forall_mem_append.mpr ⟨h.unbatched hbusy, ?_⟩
    intro p hp
    obtain rfl := mem_singleton.mp hp
    rfl
  runnable := by
    apply forall_mem_append.mpr ⟨h.runnable, ?_⟩
    intro p hp
    obtain rfl := mem_singleton.mp hp
    exact fun htask => (hrun htask).2
  vetoed := by
    intro id hid
    have hid : .vetoed id ∈ s.trace := by simpa [ToolExecutor.settle] using hid
    obtain ⟨p, hp, hrest⟩ := h.vetoed id hid
    exact ⟨p, mem_append_left _ hp, hrest⟩
  executed := by
    intro id hid
    change id ∈ executedIds (s.trace ++ [.announced call.id]) at hid
    obtain ⟨p, hp, hrest⟩ := h.executed id (by simpa [executedIds, executedId] using hid)
    exact ⟨p, mem_append_left _ hp, hrest⟩
  executed_once := by
    change (executedIds (s.trace ++ [.announced call.id])).Nodup
    rw [executedIds_append]
    exact (append_nil _).symm ▸ h.executed_once
  finalized := by
    apply forall_mem_append.mpr ⟨h.finalized, ?_⟩
    intro p hp
    obtain rfl := mem_singleton.mp hp
    intro result hresult
    cases hresult
  yielded := by
    intro id result hid
    have hid : .yielded id result ∈ s.trace := by simpa [ToolExecutor.settle] using hid
    obtain ⟨hnonempty, p, hp, hrest⟩ := h.yielded id result hid
    exact ⟨hnonempty, p, mem_append_left _ hp, hrest⟩
  yielded_once := by
    change (yieldedIds (s.trace ++ [.announced call.id])).Nodup
    rw [yieldedIds_append]
    exact (append_nil _).symm ▸ h.yielded_once
  done := by
    intro p hp hdone
    rcases mem_snoc.mp hp with hp | rfl
    · rw [h.unbatched hbusy p hp] at hdone
      cases hdone
    · cases hdone
  stopped := by
    apply pairwise_append.mpr ⟨h.stopped, pairwise_singleton .., ?_⟩
    intro u hu t ht hstop
    obtain rfl := mem_singleton.mp ht
    cases htask : task.isRun with
    | false => rfl
    | true =>
      have hstopped := h.stopping u hu hstop
      rw [(hrun htask).1] at hstopped
      cases hstopped
  stopping := by
    intro p hp hstop
    apply Bool.or_eq_true_iff.mpr
    rcases mem_snoc.mp hp with hp | rfl
    · exact .inl (h.stopping p hp hstop)
    · exact .inr hstop
  stop_idle := fun _ => rfl
  in_order := by
    apply pairwise_append.mpr ⟨h.in_order, pairwise_singleton .., ?_⟩
    intro a ha b hb
    obtain rfl := mem_singleton.mp hb
    exact ⟨fun _ => rfl, fun hyield => absurd (h.unyielded hbusy a ha) hyield⟩
  unaborted := by
    intro haborted hmem
    apply h.unaborted haborted
    simpa [ToolExecutor.settle] using hmem

/-- A prepared call goes on, and with `yielded` its result goes out. -/
theorem Sound.advance (hids : (calls.map PreflightedToolCall.id).Nodup)
    (hbatched : s.batched = true) {p : PreparedCall} (hp : p ∈ s.prepared) (hqueued : progress ≠ .queued)
    (hfinal : ∀ result, progress = .finalized result → result.output.nonempty = true) (out : Option ToolResult)
    (hsilent : out = none → p.progress ≠ .yielded ∧ progress ≠ .yielded)
    (hout : ∀ result, out = some result → p.progress = .finalized result ∧ progress = .yielded) :
    Sound calls { s.setProgress p.id progress with trace := s.trace ++ out.toList.map (.yielded p.id) } :=
  have hof {r} (hr : r ∈ s.trace ++ out.toList.map (.yielded p.id)) :
      r ∈ s.trace ∨ ∃ result, out = some result ∧ r = .yielded p.id result := by
    rcases mem_append.mp hr with hold | hnew
    · exact .inl hold
    · obtain ⟨result, hresult, rfl⟩ := mem_map.mp hnew
      exact .inr ⟨result, Option.mem_toList.mp hresult, rfl⟩
  have hannounces : announcedIds (s.trace ++ out.toList.map (.yielded p.id)) = announcedIds s.trace := by
    rw [announcedIds_append]
    cases out <;> exact append_nil _
  have hexecutes : executedIds (s.trace ++ out.toList.map (.yielded p.id)) = executedIds s.trace := by
    rw [executedIds_append]
    cases out <;> exact append_nil _
  have hyields : yieldedIds (s.trace ++ out.toList.map (.yielded p.id)) = yieldedIds s.trace ++ out.toList.map fun _ => p.id := by
    rw [yieldedIds_append]
    cases out <;> rfl
  { kept := h.kept
    split := by
      rw [← h.split, setProgress, map_map]
      congr 2
      apply map_congr_left
      intro q _
      exact moveTo_call q ..
    announced := by
      rw [hannounces, setProgress, map_map, h.announced]
      apply map_congr_left
      intro q _
      exact (moveTo_id q ..).symm
    unbatched := fun hbusy => absurd (hbatched.symm.trans hbusy) Bool.noConfusion
    runnable := by
      intro q hq htask
      obtain ⟨q, hmem, rfl⟩ := mem_setProgress.mp hq
      rw [moveTo_task] at htask
      rw [moveTo_call]
      exact h.runnable q hmem htask
    vetoed := by
      intro id hid
      obtain hid | ⟨_, _, hid⟩ := hof hid
      · obtain ⟨q, hq, rfl, htask⟩ := h.vetoed id hid
        refine ⟨_, mem_setProgress.mpr ⟨q, hq, rfl⟩, moveTo_id q .., ?_⟩
        rw [moveTo_task]
        exact htask
      · cases hid
    executed := by
      intro id hid
      obtain ⟨q, hq, rfl, htask, hgone⟩ := h.executed id (hexecutes ▸ hid)
      refine ⟨_, mem_setProgress.mpr ⟨q, hq, rfl⟩, moveTo_id q .., ?_, ?_⟩
      · rw [moveTo_task]
        exact htask
      · rcases moveTo_progress q p.id progress with hto | ⟨-, hto⟩
        · rw [hto]
          exact hqueued
        · rw [hto]
          exact hgone
    executed_once := hexecutes ▸ h.executed_once
    finalized := by
      intro q hq result hresult
      obtain ⟨q, hmem, rfl⟩ := mem_setProgress.mp hq
      rcases moveTo_progress q p.id progress with hto | ⟨-, hto⟩
      · exact hfinal result (hto ▸ hresult)
      · exact h.finalized q hmem result (hto ▸ hresult)
    yielded := by
      intro id result hid
      obtain hid | ⟨_, hsome, hid⟩ := hof hid
      · obtain ⟨hnonempty, q, hq, rfl, hdone⟩ := h.yielded id result hid
        refine ⟨hnonempty, _, mem_setProgress.mpr ⟨q, hq, rfl⟩, moveTo_id q .., ?_⟩
        have hother : q.id ≠ p.id := by
          intro hsame
          rw [eq_of_id (h.ids_nodup hids) hq hp hsame] at hdone
          cases hnone : out with
          | none => exact (hsilent hnone).1 hdone
          | some other => cases hdone.symm.trans (hout other hnone).1
        rw [moveTo_other hother]
        exact hdone
      · obtain ⟨rfl, rfl⟩ := ExecutorRecord.yielded.inj hid
        obtain ⟨hdone, hto⟩ := hout result hsome
        exact ⟨h.finalized p hp _ hdone, _, mem_setProgress.mpr ⟨p, hp, rfl⟩, moveTo_id p .., (moveTo_self p _).trans hto⟩
    yielded_once := by
      rw [hyields]
      cases hsome : out with
      | none => simpa using h.yielded_once
      | some result =>
        change (yieldedIds s.trace ++ [p.id]).Nodup
        rw [← concat_eq_append]
        apply h.yielded_once.concat
        intro hid
        obtain ⟨other, hother⟩ := mem_yieldedIds.mp hid
        obtain ⟨-, q, hq, hsame, hdone⟩ := h.yielded p.id other hother
        rw [eq_of_id (h.ids_nodup hids) hq hp hsame, (hout result hsome).1] at hdone
        cases hdone
    done := by
      intro q hq hdone
      rw [hyields]
      obtain ⟨q, hmem, rfl⟩ := mem_setProgress.mp hq
      rw [moveTo_id]
      by_cases hsame : q.id = p.id
      · obtain rfl := eq_of_id (h.ids_nodup hids) hmem hp hsame
        rw [moveTo_self] at hdone
        cases hnone : out with
        | none => exact absurd hdone (hsilent hnone).2
        | some result => exact mem_concat_self
      · rw [moveTo_other hsame] at hdone
        exact mem_append_left _ (h.done q hmem hdone)
    stopped := by
      apply pairwise_map.mpr
      apply h.stopped.imp
      intro u t hstop
      rw [moveTo_stopBatchAfterThis, moveTo_task]
      exact hstop
    stopping := by
      intro q hq hstop
      obtain ⟨q, hmem, rfl⟩ := mem_setProgress.mp hq
      rw [moveTo_stopBatchAfterThis] at hstop
      exact h.stopping q hmem hstop
    stop_idle := h.stop_idle
    in_order := by
      apply pairwise_append.mpr ⟨h.in_order, ?_, ?_⟩
      · cases out <;> simp
      · intro a _ b hb
        obtain ⟨_, _, rfl⟩ := mem_map.mp hb
        exact ⟨fun _ => rfl, fun _ => rfl⟩
    unaborted := by
      intro hnone hmem
      obtain hmem | ⟨_, _, hmem⟩ := hof hmem
      · exact h.unaborted hnone hmem
      · cases hmem }

theorem Sound.setProgress (hids : (calls.map PreflightedToolCall.id).Nodup)
    (hbatched : s.batched = true) {p : PreparedCall} (hp : p ∈ s.prepared)
    (hold : p.progress ≠ .yielded) (hqueued : progress ≠ .queued) (hyielded : progress ≠ .yielded)
    (hfinal : ∀ result, progress = .finalized result → result.output.nonempty = true) :
    Sound calls (s.setProgress p.id progress) := by
  have hnext := h.advance hids hbatched hp hqueued hfinal none (fun _ => ⟨hold, hyielded⟩) nofun
  rw [Option.toList_none, map_nil, append_nil] at hnext
  exact hnext

theorem Sound.record {r : ExecutorRecord} (hannounced : announcedId r = none) (hyielded : yieldedId r = none)
    (hvetoed : ∀ id, r = .vetoed id → ∃ p ∈ s.prepared, p.id = id ∧ p.task.isRun = false)
    (hexecuted : ∀ id, executedId r = some id → s.aborted = none ∧ id ∉ executedIds s.trace ∧
      ∃ p ∈ s.prepared, p.id = id ∧ p.task.isRun = true ∧ p.progress ≠ .queued)
    (haborted : r = .aborted → s.aborted ≠ none) : Sound calls (s.record r) :=
  have hyields : yieldedIds (s.trace ++ [r]) = yieldedIds s.trace := by
    simp [yieldedIds, hyielded]
  { h with
    announced := by
      have hannounces : announcedIds (s.trace ++ [r]) = announcedIds s.trace := by
        simp [announcedIds, hannounced]
      exact hannounces.trans h.announced
    vetoed := by
      intro id hid
      rcases mem_snoc.mp hid with hid | hid
      · exact h.vetoed id hid
      · exact hvetoed id hid.symm
    executed := by
      intro id hid
      change id ∈ executedIds (s.trace ++ [r]) at hid
      rw [executedIds_append] at hid
      rcases mem_append.mp hid with hid | hid
      · exact h.executed id hid
      · obtain ⟨other, hother, hsome⟩ := mem_filterMap.mp hid
        obtain rfl := mem_singleton.mp hother
        exact (hexecuted id hsome).2.2
    executed_once := by
      change (executedIds (s.trace ++ [r])).Nodup
      rw [executedIds_append]
      cases hid : executedId r with
      | none =>
        have hnone : executedIds [r] = [] := by simp [executedIds, hid]
        rw [hnone, append_nil]
        exact h.executed_once
      | some id =>
        have hone : executedIds [r] = [id] := by simp [executedIds, hid]
        rw [hone, ← concat_eq_append]
        exact h.executed_once.concat (hexecuted id hid).2.1
    yielded := by
      intro id result hid
      rcases mem_snoc.mp hid with hid | rfl
      · exact h.yielded id result hid
      · cases hyielded
    yielded_once := by
      change (yieldedIds (s.trace ++ [r])).Nodup
      rw [hyields]
      exact h.yielded_once
    done := by
      intro q hq hdone
      change q.id ∈ yieldedIds (s.trace ++ [r])
      rw [hyields]
      exact h.done q hq hdone
    in_order := by
      apply pairwise_append.mpr ⟨h.in_order, pairwise_singleton .., ?_⟩
      intro a ha b hb
      obtain rfl := mem_singleton.mp hb
      refine ⟨?_, fun _ => hannounced⟩
      rintro rfl
      cases hid : executedId b with
      | none => rfl
      | some id => exact absurd ha (h.unaborted (hexecuted id hid).1)
    unaborted := by
      intro hnone hmem
      rcases mem_snoc.mp hmem with hmem | hmem
      · exact h.unaborted hnone hmem
      · exact haborted hmem.symm hnone }

theorem Sound.yieldResult (hids : (calls.map PreflightedToolCall.id).Nodup)
    (hbatched : s.batched = true) (hp : p ∈ s.prepared)
    (hfinal : p.progress = .finalized result) : Sound calls (s.yieldResult p result) := by
  apply @Sound.advance _ _ h .yielded hids hbatched p hp nofun nofun (some result) nofun
  rintro _ ⟨⟩
  exact ⟨hfinal, rfl⟩

end

end Lemmas

end ToolExecutor

end Echadron.Agent
