import Echadron.Agent.ToolExecutorRuns
import Mathlib.Algebra.Order.Group.Nat

namespace Echadron.Agent
open Lib List Option

def TaskProgress.weight : TaskProgress → Nat
  | .queued => 4
  | .running => 3
  | .settled _ => 2
  | .finalized _ => 1
  | .yielded => 0

def PrepareStage.weight : PrepareStage → Nat
  | .idle => 0
  | .resolving _ => 7
  | .adjudicating _ _ => 6
  | .readying _ _ => 5

namespace ToolExecutor

variable {w : ExecutorWorld} {calls : List PreflightedToolCall} {s s' : ToolExecutor}

/-- The call that is to have its task next, and those that wait behind it. -/
def InHand (s : ToolExecutor) (call : PreflightedToolCall) (rest : List PreflightedToolCall) : Prop :=
  s.stage.calls = [call] ∧ s.waiting = rest ∨ s.stage = .idle ∧ s.waiting = call :: rest

/-- What a step can do where the executor does not throw. -/
inductive Moves (s : ToolExecutor) : ToolExecutor → Prop where
  | aborts (byUser : Bool) (h : s.aborted = none) : Moves s ({ s with aborted := some byUser }.record .aborted)
  | resolving {call : RunnableToolCall} {rest : List PreflightedToolCall} (hstage : s.stage = .idle)
      (hwaiting : s.waiting = .runnable call :: rest) (hstop : s.stopBatch = false) :
      Moves s { s with waiting := rest, stage := .resolving call }
  | restage {call : PreflightedToolCall} {stage : PrepareStage} (hcalls : s.stage.calls = [call])
      (hstage : stage.calls = [call]) (hless : stage.weight < s.stage.weight) : Moves s { s with stage }
  | settles {call : PreflightedToolCall} {rest : List PreflightedToolCall} {task : ToolTask} {stop : Bool}
      (hhand : s.InHand call rest)
      (hrun : task.isRun = true → s.stopBatch = false ∧ ∃ runnable, call = .runnable runnable) :
      Moves s ({ s with waiting := rest }.settle call task stop)
  | vetoed {call : PreflightedToolCall} {result : ToolResult} {stop : Bool} (hcalls : s.stage.calls = [call]) :
      Moves s ((s.settle call (.resolved result) stop).record (.vetoed call.id))
  | executes {p : PreparedCall} (hp : p ∈ s.prepared) (hbatched : s.batched = true) (hrun : p.task.isRun = true)
      (hqueued : p.progress = .queued) (haborted : s.aborted = none) :
      Moves s ((s.setProgress p.id .running).record (.executed p.id))
  | advances {p : PreparedCall} {progress : TaskProgress} (hp : p ∈ s.prepared) (hbatched : s.batched = true)
      (hless : progress.weight < p.progress.weight) (hyielded : progress ≠ .yielded)
      (hfinal : ∀ result, progress = .finalized result → result.output.nonempty = true) :
      Moves s (s.setProgress p.id progress)
  | yields {p : PreparedCall} {result : ToolResult} (hp : p ∈ s.prepared) (hbatched : s.batched = true)
      (hfinal : p.progress = .finalized result) : Moves s (s.yieldResult p result)

theorem InHand.split (h : s.InHand call rest) (hs : Sound calls s) :
    s.prepared.map PreparedCall.call ++ call :: rest = calls := by
  have hsplit := hs.split
  rcases h with ⟨hcalls, rfl⟩ | ⟨hstage, hwaiting⟩
  · rw [hcalls, append_assoc] at hsplit
    exact hsplit
  · rw [hstage, hwaiting, PrepareStage.calls, append_nil] at hsplit
    exact hsplit

theorem unbatched_of_stage (hstage : s.stage.calls = [call]) : s.batched = false := by
  rw [batched, hstage]
  exact Bool.and_false _

theorem InHand.unbatched (h : s.InHand call rest) : s.batched = false := by
  rcases h with ⟨hcalls, -⟩ | ⟨-, hwaiting⟩
  · exact unbatched_of_stage hcalls
  · rw [batched, hwaiting]
    rfl

theorem TaskProgress.weight_le (progress : TaskProgress) : progress.weight ≤ 4 := by
  cases progress <;> simp [TaskProgress.weight]

theorem Sound.moves (hids : (calls.map PreflightedToolCall.id).Nodup) (h : Sound calls s) (hmoves : Moves s s') :
    Sound calls s' := by
  cases hmoves with
  | aborts byUser hnone =>
    have haborts : Sound calls { s with aborted := some byUser } :=
      { h with unaborted := fun hsome => by cases hsome }
    exact haborts.record rfl rfl (fun _ hid => by cases hid) (fun _ hid => by cases hid)
      (fun _ => some_ne_none _)
  | @resolving call rest hstage hwaiting hstop =>
    have hhand : s.InHand (.runnable call) rest := .inr ⟨hstage, hwaiting⟩
    exact { h with
      split := by
        rw [← hhand.split h]
        simp [PrepareStage.calls]
      unbatched := fun _ => h.unbatched hhand.unbatched
      stop_idle := fun hstopped => absurd (hstop.symm.trans hstopped) Bool.false_ne_true }
  | @restage call stage hcalls hstage hless =>
    exact { h with
      split := by
        have hsplit := h.split
        rw [hcalls] at hsplit
        rw [hstage]
        exact hsplit
      unbatched := fun _ => h.unbatched (unbatched_of_stage hcalls)
      stop_idle := by
        intro hstop
        rw [h.stop_idle hstop] at hcalls
        cases hcalls }
  | settles hhand hrun => exact h.settle (hhand.split h) hhand.unbatched hrun
  | @vetoed call result stop hcalls =>
    have hhand : s.InHand call s.waiting := .inl ⟨hcalls, rfl⟩
    have hsettled : Sound calls (s.settle call (.resolved result) stop) := by
      apply h.settle (hhand.split h) hhand.unbatched
      intro hrun
      cases hrun
    refine hsettled.record rfl rfl ?_ (fun _ hid => by cases hid) (fun habort => by cases habort)
    intro id hid
    obtain rfl := ExecutorRecord.vetoed.inj hid
    exact ⟨_, mem_concat_self, rfl, rfl⟩
  | @executes p hp hbatched hrun hqueued haborted =>
    have hruns : Sound calls (s.setProgress p.id .running) := by
      apply h.setProgress hids hbatched hp
      · rw [hqueued]
        exact TaskProgress.noConfusion
      · exact TaskProgress.noConfusion
      · exact TaskProgress.noConfusion
      · intro result hresult
        cases hresult
    refine hruns.record rfl rfl (fun _ hid => by cases hid) ?_ (fun habort => by cases habort)
    intro id hid
    cases hid
    refine ⟨haborted, ?_, _, mem_setProgress.mpr ⟨p, hp, rfl⟩, moveTo_id p .., ?_, ?_⟩
    · intro hexecuted
      obtain ⟨q, hq, hsame, -, hgone⟩ := h.executed p.id hexecuted
      rw [eq_of_id (h.ids_nodup hids) hq hp hsame] at hgone
      exact hgone hqueued
    · rw [moveTo_task]
      exact hrun
    · rw [moveTo_self]
      exact TaskProgress.noConfusion
  | @advances p progress hp hbatched hless hyielded hfinal =>
    apply h.setProgress hids hbatched hp ?_ ?_ hyielded hfinal
    · intro hold
      rw [hold] at hless
      exact Nat.not_lt_zero _ hless
    · rintro rfl
      exact absurd (TaskProgress.weight_le p.progress) (Nat.not_le_of_lt hless)
  | yields hp hbatched hfinal => exact h.yieldResult hids hbatched hp hfinal

/-- How many events a run can still see, at most. -/
def weight (s : ToolExecutor) : Nat :=
  8 * s.waiting.length + s.stage.weight + (s.prepared.map fun p => p.progress.weight).sum + s.aborted.elim 1 fun _ => 0

theorem weight_settle (s : ToolExecutor) (call : PreflightedToolCall) (task : ToolTask) (stop : Bool) :
    (s.settle call task stop).weight + s.stage.weight = s.weight + 4 := by
  have hidle : PrepareStage.weight .idle = 0 := rfl
  have hqueued : TaskProgress.weight .queued = 4 := rfl
  simp only [weight, settle, map_append, sum_append, map_cons, map_nil, sum_cons, sum_nil]
  omega

theorem weight_setProgress (hp : p ∈ s.prepared) (hids : (s.prepared.map PreparedCall.id).Nodup)
    (hless : progress.weight < p.progress.weight) :
    (s.setProgress p.id progress).weight < s.weight := by
  have hsum : ((s.prepared.map fun q => q.moveTo p.id progress).map fun q => q.progress.weight).sum <
      (s.prepared.map fun q => q.progress.weight).sum := by
    rw [List.map_map]
    apply sum_lt_sum
    · intro q hq
      by_cases hsame : q.id = p.id
      · rw [eq_of_id hids hq hp hsame]
        dsimp only [Function.comp]
        rw [moveTo_self]
        exact le_of_lt hless
      · dsimp only [Function.comp]
        rw [moveTo_other hsame]
    · refine ⟨p, hp, ?_⟩
      dsimp only [Function.comp]
      rw [moveTo_self]
      exact hless
  simp only [weight, setProgress]
  omega

theorem weight_of_calls {stage : PrepareStage} (h : stage.calls = [call]) : 4 < stage.weight := by
  cases stage with
  | idle => cases h
  | _ => simp [PrepareStage.weight]

theorem Sound.weight_lt (hids : (calls.map PreflightedToolCall.id).Nodup) (h : Sound calls s) (hmoves : Moves s s') :
    s'.weight < s.weight := by
  cases hmoves with
  | aborts byUser hnone =>
    change 8 * s.waiting.length + s.stage.weight + _ + 0 < _
    rw [weight, hnone]
    exact Nat.lt_succ_self _
  | resolving hstage hwaiting hstop =>
    rw [weight, weight, hwaiting]
    simp only [length_cons, PrepareStage.weight]
    omega
  | restage hcalls hstage hless =>
    simp only [weight]
    omega
  | @settles call rest task stop hhand hrun =>
    have hsettled := weight_settle { s with waiting := rest } call task stop
    rcases hhand with ⟨hcalls, rfl⟩ | ⟨hstage, hwaiting⟩
    · have hweight := weight_of_calls hcalls
      change _ + s.stage.weight = s.weight + 4 at hsettled
      omega
    · have hrest : weight { s with waiting := rest } + 8 = s.weight := by
        rw [weight, weight, hwaiting, length_cons]
        dsimp only
        omega
      omega
  | @vetoed call result stop hcalls =>
    have hsettled := weight_settle s call (.resolved result) stop
    have hweight := weight_of_calls hcalls
    change (s.settle call (.resolved result) stop).weight < s.weight
    omega
  | @executes p hp hbatched hrun hqueued haborted =>
    apply weight_setProgress hp (h.ids_nodup hids)
    rw [hqueued]
    decide
  | advances hp hbatched hless hyielded hfinal => exact weight_setProgress hp (h.ids_nodup hids) hless
  | @yields p result hp hbatched hfinal =>
    apply weight_setProgress hp (h.ids_nodup hids)
    rw [hfinal]
    exact zero_lt_one

/-! Each event moves the run so, if no value of it is one that the executor throws on. -/

theorem normalizeAndMergeResult_of_readable (h : ReadableValue w.rt value) (toolName : String) :
    ∃ result, normalizeAndMergeResult w.rt value toolName = some result := by
  obtain ⟨result, hresult, -⟩ := normalizeToolResult_of_readable (h toolName)
  exact ⟨result, hresult⟩

theorem moves_settleError (h : s.InHand call rest)
    (output : String) : Moves s ({ s with waiting := rest }.settleError call output) := by
  apply Moves.settles h
  intro hrun
  cases hrun

theorem moves_prepare (hstage : s.stage = .idle)
    (hwaiting : s.waiting = call :: rest) : Moves s (s.prepare call rest) := by
  have hhand : s.InHand call rest := .inr ⟨hstage, hwaiting⟩
  dsimp only [prepare]
  split
  · exact moves_settleError hhand _
  · rename_i hstop
    cases call with
    | rejected toolCall args output => exact moves_settleError hhand _
    | runnable call => exact .resolving hstage hwaiting (eq_false_of_ne_true hstop)

theorem moves_prepareStep (h : Sound calls s) (hsane : Sane w s e)
    (hstep : s.prepareStep w e = some s') : Moves s s' := by
  cases e with
  | abort byUser =>
    obtain ⟨hnone, hsome⟩ := ite_none_right_eq_some.mp hstep
    cases hsome
    exact .aborts byUser (isNone_iff_eq_none.mp hnone)
  | prepare =>
    dsimp only [prepareStep] at hstep
    split at hstep
    · rename_i call rest hstage hwaiting
      cases hstep
      exact moves_prepare hstage hwaiting
    · cases hstep
  | resolverThrows error =>
    dsimp only [prepareStep] at hstep
    split at hstep
    · rename_i call hstage
      cases hstep
      have hcalls : s.stage.calls = [.runnable call] := by rw [hstage]; rfl
      obtain ⟨message, hmessage⟩ := isSome_iff_exists.mp hsane
      rw [resolverThrows, hmessage]
      exact moves_settleError (.inl ⟨hcalls, rfl⟩) _
    · cases hstep
  | resolvesError value =>
    dsimp only [prepareStep] at hstep
    split at hstep
    · rename_i call hstage
      cases hstep
      have hcalls : s.stage.calls = [.runnable call] := by rw [hstage]; rfl
      rw [resolvesError]
      split
      · exact moves_settleError (.inl ⟨hcalls, rfl⟩) _
      · rename_i haborted
        rcases hsane with hsome | hvalue
        · rw [haborted] at hsome
          cases hsome
        · obtain ⟨result, hresult⟩ := normalizeAndMergeResult_of_readable hvalue call.toolCall.name
          have hmade : normalizeAndMergeResult w.rt value (PreflightedToolCall.runnable call).toolCall.name =
            some result := hresult
          rw [settleSynthetic, hmade]
          apply Moves.settles (.inl ⟨hcalls, rfl⟩)
          intro hrun
          cases hrun
    · cases hstep
  | resolves execution =>
    dsimp only [prepareStep] at hstep
    split at hstep
    · rename_i call hstage
      cases hstep
      have hcalls : s.stage.calls = [.runnable call] := by rw [hstage]; rfl
      rw [resolves]
      split
      · exact moves_settleError (.inl ⟨hcalls, rfl⟩) _
      · apply Moves.restage hcalls rfl
        rw [hstage]
        exact Nat.lt_succ_self _
    · cases hstep
  | vetoes value =>
    dsimp only [prepareStep] at hstep
    split at hstep
    · rename_i call execution hstage
      cases hstep
      have hcalls : s.stage.calls = [.runnable call] := by rw [hstage]; rfl
      obtain ⟨result, hresult⟩ := normalizeAndMergeResult_of_readable hsane call.toolCall.name
      have hmade : normalizeAndMergeResult w.rt value (PreflightedToolCall.runnable call).toolCall.name =
        some result := hresult
      rw [settleSynthetic, hmade]
      exact Moves.vetoed hcalls
    · cases hstep
  | allows =>
    dsimp only [prepareStep] at hstep
    split at hstep
    · rename_i call execution hstage
      cases hstep
      have hcalls : s.stage.calls = [.runnable call] := by rw [hstage]; rfl
      apply Moves.restage hcalls rfl
      rw [hstage]
      exact Nat.lt_succ_self _
    · cases hstep
  | ready =>
    dsimp only [prepareStep] at hstep
    split at hstep
    · rename_i call execution hstage
      cases hstep
      have hcalls : s.stage.calls = [.runnable call] := by rw [hstage]; rfl
      apply Moves.settles (.inl ⟨hcalls, rfl⟩)
      intro _
      refine ⟨?_, call, rfl⟩
      cases hstop : s.stopBatch with
      | false => rfl
      | true =>
        rw [h.stop_idle hstop] at hcalls
        cases hcalls
    · cases hstep
  | _ => cases hstep

theorem isQueued_iff (progress : TaskProgress) : progress.isQueued = true ↔ progress = .queued := by
  cases progress <;> simp [TaskProgress.isQueued]

theorem isRunning_iff (progress : TaskProgress) : progress.isRunning = true ↔ progress = .running := by
  cases progress <;> simp [TaskProgress.isRunning]

theorem Sound.batched_of_progress (h : Sound calls s) (hp : p ∈ s.prepared)
    (hprogress : p.progress.weight < 4) : s.batched = true := by
  cases hbatched : s.batched with
  | true => rfl
  | false =>
    rw [h.unbatched hbatched p hp] at hprogress
    exact absurd hprogress (lt_irrefl _)

theorem Sound.settles (h : Sound calls s) {p : PreparedCall} (hp : p ∈ s.prepared)
    (hrunning : p.progress.isRunning = true) (result : ToolResult) :
    Moves s (s.setProgress p.id (.settled result)) := by
  have hprogress := (isRunning_iff _).mp hrunning
  apply Moves.advances hp
  · apply h.batched_of_progress hp
    rw [hprogress]
    exact Nat.lt_succ_self _
  · rw [hprogress]
    exact Nat.lt_succ_self _
  · exact TaskProgress.noConfusion
  · intro other hother
    cases hother

theorem moves_startTask (hp : p ∈ s.prepared) (hbatched : s.batched = true)
    (hqueued : p.progress = .queued) : Moves s (s.startTask p) := by
  have hsettles (result : ToolResult) : Moves s (s.setProgress p.id (.settled result)) := by
    apply Moves.advances hp hbatched
    · rw [hqueued]
      exact Nat.lt_of_sub_pos Nat.zero_lt_two
    · exact TaskProgress.noConfusion
    · intro other hother
      cases hother
  rw [startTask]
  split
  · exact hsettles _
  · rename_i execution htask
    split
    · exact hsettles _
    · rename_i haborted
      apply Moves.executes hp hbatched ?_ hqueued haborted
      rw [htask]
      rfl

theorem failureOutput_of_printable {aborted : Option Bool} (h : error.Printable aborted)
    (ifAborted : Bool → String) (ifFailed : String → String) :
    ∃ output, failureOutput error aborted ifAborted ifFailed = some output ∧
      ((∃ byUser, output = ifAborted byUser) ∨ ∃ message, output = ifFailed message) := by
  rw [failureOutput]
  split
  · exact ⟨_, rfl, .inl ⟨_, rfl⟩⟩
  · rename_i hnot
    rw [Bool.or_eq_true_iff, not_or] at hnot
    rcases h with habort | haborted | hmessage
    · exact absurd habort hnot.1
    · exact absurd haborted hnot.2
    · obtain ⟨message, hmessage⟩ := isSome_iff_exists.mp hmessage
      rw [hmessage]
      exact ⟨_, rfl, .inr ⟨message, rfl⟩⟩

theorem Sound.finalizeTask (h : Sound calls s) (hp : p ∈ s.prepared) (hsettled : p.progress = .settled settled)
    (hnonempty : result.output.nonempty = true) (htracked : trackToolCall w.rt result = true) :
    Moves s (s.finalizeTask w p (some result)) := by
  rw [ToolExecutor.finalizeTask, if_pos htracked]
  apply Moves.advances hp
  · apply h.batched_of_progress hp
    rw [hsettled]
    exact Nat.lt_of_sub_pos Nat.zero_lt_two
  · rw [hsettled]
    exact Nat.lt_succ_self _
  · exact TaskProgress.noConfusion
  · intro other hother
    obtain rfl := TaskProgress.finalized.inj hother
    exact hnonempty

/-- What the hooks hand on is finalized to an output that is not empty. -/
theorem Sound.hookPasses (h : Sound calls s) (htruncates : TruncatesToText w)
    (hp : p ∈ s.prepared) (hsettled : p.progress = .settled result)
    (hreadable : (handedResult w.rt replaced result p.toolName).Readable w.rt) :
    Moves s (s.hookPasses w p result replaced stopTurn) := by
  obtain ⟨normalized, hnormalized, hnonempty, herror, hpresent⟩ := normalizeToolResult_of_readable hreadable.output
  rw [ToolExecutor.hookPasses, hnormalized]
  obtain ⟨hkeeps, houtput⟩ := htruncates p.toolName p.id
    { normalized with stopTurn := result.stopTurn || stopTurn || normalized.stopTurn }
  apply h.finalizeTask hp hsettled
  · rcases houtput with hsame | ⟨text, htext, hto⟩
    · rw [hsame]
      exact hnonempty
    · rw [hto]
      exact decide_eq_true htext
  · apply trackToolCall_of_present
    intro hisError
    rcases houtput with hsame | ⟨text, htext, hto⟩
    · rw [hsame]
      rw [hkeeps] at hisError
      exact hpresent (hreadable.error (herror ▸ hisError))
    · rw [hto]
      trivial

theorem append_nonempty_left (b : String) (h : a ≠ "") : a ++ b ≠ "" := by
  intro hempty
  exact h (String.append_eq_empty_iff.mp hempty).1

theorem Sound.hookThrows (h : Sound calls s) (hp : p ∈ s.prepared)
    (hsettled : p.progress = .settled result) (hprintable : error.Printable s.aborted) :
    Moves s (s.hookThrows w p error) := by
  obtain ⟨output, houtput, hforms⟩ := failureOutput_of_printable hprintable
    (fun _ => s!"Tool \"{p.toolName}\" aborted during onDidExecuteTool hook.")
    (fun message => s!"onDidExecuteTool hook failed for \"{p.toolName}\": {message}")
  have hnonempty : output ≠ "" := by
    rcases hforms with ⟨_, rfl⟩ | ⟨message, rfl⟩
    · apply append_nonempty_left
      apply append_nonempty_left
      decide
    · apply append_nonempty_left
      apply append_nonempty_left
      apply append_nonempty_left
      decide
  rw [ToolExecutor.hookThrows, houtput]
  apply h.finalizeTask hp hsettled
  · exact decide_eq_true hnonempty
  · exact trackToolCall_of_present fun _ => trivial

theorem Sound.moves_taskStep (h : Sound calls s) (htruncates : TruncatesToText w)
    (hp : p ∈ s.prepared) (hid : eventCallId e = some p.id) (hsane : Sane w s e)
    (hstep : s.taskStep w p e = some s') : Moves s s' := by
  cases e with
  | start id =>
    obtain ⟨hready, hsome⟩ := ite_none_right_eq_some.mp hstep
    cases hsome
    rw [Bool.and_eq_true, Bool.and_eq_true] at hready
    exact moves_startTask hp hready.1.1 ((isQueued_iff _).mp hready.1.2)
  | returns id value =>
    obtain ⟨hrunning, hsome⟩ := ite_none_right_eq_some.mp hstep
    cases hsome
    obtain ⟨result, hresult⟩ := normalizeAndMergeResult_of_readable hsane p.toolName
    rw [hresult]
    exact h.settles hp hrunning _
  | throws id error =>
    obtain ⟨hrunning, hsome⟩ := ite_none_right_eq_some.mp hstep
    cases hsome
    obtain ⟨output, houtput, -⟩ := failureOutput_of_printable hsane (abortedToolOutput p.toolName) _
    rw [toolThrows, houtput]
    exact h.settles hp hrunning _
  | grace id =>
    obtain ⟨hrunning, hsome⟩ := ite_none_right_eq_some.mp hstep
    obtain ⟨byUser, -, rfl⟩ := map_eq_some_iff.mp hsome
    exact h.settles hp hrunning _
  | hookPasses id replaced stopTurn =>
    dsimp only [taskStep] at hstep
    split at hstep
    · rename_i result hsettled
      cases hstep
      exact h.hookPasses htruncates hp hsettled (hsane p hp (some.inj hid).symm result hsettled)
    · cases hstep
  | hookThrows id error =>
    dsimp only [taskStep] at hstep
    split at hstep
    · rename_i result hsettled
      cases hstep
      exact h.hookThrows hp hsettled hsane
    · cases hstep
  | yields id =>
    dsimp only [taskStep] at hstep
    split at hstep
    · rename_i result hfinal
      cases hstep
      apply Moves.yields hp ?_ hfinal
      apply h.batched_of_progress hp
      rw [hfinal]
      exact Nat.lt_of_sub_pos (Nat.succ_pos 2)
    · cases hstep
  | _ => cases hid

theorem Sound.moves_step (h : Sound calls s) (htruncates : TruncatesToText w)
    (hsane : Sane w s e) (hstep : step w s e = some s') : Moves s s' := by
  rw [step, h.kept] at hstep
  cases hid : eventCallId e with
  | none =>
    rw [hid] at hstep
    exact moves_prepareStep h hsane hstep
  | some id =>
    rw [hid] at hstep
    obtain ⟨p, hfound, htask⟩ := bind_eq_some_iff.mp hstep
    obtain ⟨hp, rfl⟩ := find_some hfound
    exact h.moves_taskStep htruncates hp hid hsane htask

end ToolExecutor

namespace ToolExecutor

variable {w : ExecutorWorld} {calls : List PreflightedToolCall} {s s' : ToolExecutor}

theorem Sound.start (pre : Preflight) (calls : List ToolCall) :
    Sound (calls.map (preflightToolCall pre)) (start pre calls) where
  kept := rfl
  split := rfl
  announced := rfl
  unbatched := fun _ _ hp => by cases hp
  runnable := fun _ hp => by cases hp
  vetoed := fun _ hid => by cases hid
  executed := fun _ hid => by cases hid
  executed_once := nodup_nil
  finalized := fun _ hp => by cases hp
  yielded := fun _ _ hid => by cases hid
  yielded_once := nodup_nil
  done := fun _ hp => by cases hp
  stopped := List.Pairwise.nil
  stopping := fun _ hp => by cases hp
  stop_idle := fun hstop => by cases hstop
  in_order := List.Pairwise.nil
  unaborted := fun _ hmem => by cases hmem

/-! A run goes on until every call has its result. -/

/-- Every call has its task, and every task its result. -/
def Complete (s : ToolExecutor) : Prop := s.batched = true ∧ ∀ p ∈ s.prepared, p.progress = .yielded

def isAbort : ExecutorEvent → Bool
  | .abort _ => true
  | _ => false

/-- There is an event other than the abort that the run can go on with. -/
def GoesOn (w : ExecutorWorld) (s : ToolExecutor) : Prop :=
  ∃ e, isAbort e = false ∧ Sane w s e ∧ (step w s e).isSome = true

theorem Sound.step_prepare (h : Sound calls s) (hid : eventCallId e = none) : step w s e = s.prepareStep w e := by
  rw [step, h.kept, if_neg Bool.false_ne_true, hid]

theorem Sound.step_task (h : Sound calls s) (hids : (calls.map PreflightedToolCall.id).Nodup)
    (hp : p ∈ s.prepared) (hid : eventCallId e = some p.id) :
    step w s e = s.taskStep w p e := by
  rw [step, h.kept, hid]
  exact (congrArg (bind · _) (find_of_mem (h.ids_nodup hids) hp)).trans rfl

theorem Sound.goesOn_unbatched (h : Sound calls s) (hbusy : s.batched = false) : GoesOn w s := by
  cases hstage : s.stage with
  | resolving call =>
    refine ⟨.resolves {}, rfl, trivial, ?_⟩
    rw [h.step_prepare rfl, prepareStep, hstage]
    rfl
  | adjudicating call execution =>
    refine ⟨.allows, rfl, trivial, ?_⟩
    rw [h.step_prepare rfl, prepareStep, hstage]
    rfl
  | readying call execution =>
    refine ⟨.ready, rfl, trivial, ?_⟩
    rw [h.step_prepare rfl, prepareStep, hstage]
    rfl
  | idle =>
    cases hwaiting : s.waiting with
    | nil =>
      rw [batched, hstage, hwaiting] at hbusy
      cases hbusy
    | cons call rest =>
      refine ⟨.prepare, rfl, trivial, ?_⟩
      rw [h.step_prepare rfl, prepareStep, hstage, hwaiting]
      rfl

theorem mem_of_mem_takeWhile {α : Type} {p : α → Bool} {before after : List α} {a x : α} (ha : p a = false)
    (hx : x ∈ (before ++ a :: after).takeWhile p) : x ∈ before := by
  induction before with
  | nil =>
    rw [nil_append, takeWhile_cons, ha] at hx
    exact hx
  | cons b before ih =>
    rw [cons_append, takeWhile_cons] at hx
    split at hx
    · rcases mem_cons.mp hx with rfl | hx
      · exact mem_cons_self ..
      · exact mem_cons_of_mem _ (ih hx)
    · cases hx

theorem unblocked_of_first {before after : List PreparedCall}
    (hsplit : s.prepared = before ++ p :: after) (hfirst : ∀ q ∈ before, q.progress.isQueued = false)
    (hrunning : ∀ q ∈ s.prepared, q.progress.isRunning = false) : s.isBlocked w p = false := by
  rw [isBlocked, Bool.or_eq_false_iff]
  constructor
  · apply any_eq_false.mpr
    intro q hq hconflict
    rw [hrunning q hq] at hconflict
    cases hconflict
  · apply any_eq_false.mpr
    intro q hq hconflict
    rw [hsplit] at hq
    have hself : decide (p.id ≠ p.id) = false := decide_eq_false (not_not_intro rfl)
    have hbefore := @mem_of_mem_takeWhile _ (fun q => q.id ≠ p.id) _ _ p q hself hq
    rw [hfirst q hbefore] at hconflict
    cases hconflict

theorem Sound.goesOn_batched (h : Sound calls s) (hids : (calls.map PreflightedToolCall.id).Nodup)
    (hbatched : s.batched = true) (hundone : ∃ p ∈ s.prepared, p.progress ≠ .yielded) : GoesOn w s := by
  have hprintable : (Thrown.mk (some "") false false).Printable s.aborted := .inr (.inr rfl)
  by_cases hrunning : ∃ p ∈ s.prepared, p.progress.isRunning = true
  · obtain ⟨p, hp, hrunning⟩ := hrunning
    refine ⟨.throws p.id { message := some "" }, rfl, hprintable, ?_⟩
    rw [h.step_task hids hp rfl, taskStep, if_pos hrunning]
    rfl
  have hrunning : ∀ q ∈ s.prepared, q.progress.isRunning = false := by
    intro q hq
    exact eq_false_of_ne_true fun hruns => hrunning ⟨q, hq, hruns⟩
  cases hfound : s.prepared.find? fun p => p.progress.isQueued with
  | some p =>
    obtain ⟨hqueued, before, after, hsplit, hfirst⟩ := find?_eq_some_iff_append.mp hfound
    have hp : p ∈ s.prepared := mem_of_find?_eq_some hfound
    have hunblocked : s.isBlocked w p = false := by
      apply unblocked_of_first hsplit _ hrunning
      intro q hq
      exact (Bool.not_eq_true' _).mp (hfirst q hq)
    refine ⟨.start p.id, rfl, trivial, ?_⟩
    rw [h.step_task hids hp rfl, taskStep, hbatched, hqueued, hunblocked]
    rfl
  | none =>
    obtain ⟨p, hp, hundone⟩ := hundone
    have hunqueued := find?_eq_none.mp hfound p hp
    cases hprogress : p.progress with
    | queued =>
      rw [hprogress] at hunqueued
      exact absurd rfl hunqueued
    | running =>
      have hstill := hrunning p hp
      rw [hprogress] at hstill
      cases hstill
    | settled result =>
      refine ⟨.hookThrows p.id { message := some "" }, rfl, hprintable, ?_⟩
      rw [h.step_task hids hp rfl, taskStep, hprogress]
      rfl
    | finalized result =>
      refine ⟨.yields p.id, rfl, trivial, ?_⟩
      rw [h.step_task hids hp rfl, taskStep, hprogress]
      rfl
    | yielded => exact absurd hprogress hundone

theorem Sound.complete_or_goesOn (h : Sound calls s) (hids : (calls.map PreflightedToolCall.id).Nodup) :
    s.Complete ∨ GoesOn w s := by
  cases hbatched : s.batched with
  | false => exact .inr (h.goesOn_unbatched hbatched)
  | true =>
    by_cases hundone : ∃ p ∈ s.prepared, p.progress ≠ .yielded
    · exact .inr (h.goesOn_batched hids hbatched hundone)
    · left
      refine ⟨hbatched, ?_⟩
      intro p hp
      by_contra hnot
      exact hundone ⟨p, hp, hnot⟩

theorem Sound.bounded (hids : (calls.map PreflightedToolCall.id).Nodup) (htruncates : TruncatesToText w)
    (h : Sound calls s)
    (hsane : AlongRun (step w) (Sane w) s events) (hrun : events.foldlM (step w) s = some s') :
    Sound calls s' ∧ events.length + s'.weight ≤ s.weight := by
  induction events generalizing s with
  | nil =>
    cases hrun
    exact ⟨h, le_of_eq (zero_add _)⟩
  | cons e events ih =>
    obtain ⟨s₁, hstep, hrest⟩ := bind_eq_some_iff.mp hrun
    have hmoves := h.moves_step htruncates hsane.1 hstep
    have hless := h.weight_lt hids hmoves
    obtain ⟨hsound, hbound⟩ := ih (h.moves hids hmoves) (hsane.2 s₁ hstep) hrest
    refine ⟨hsound, ?_⟩
    rw [length_cons]
    omega

/-- What a run of `execute` owes its caller, at any moment. -/
structure Orderly (w : ExecutorWorld) (pre : Preflight) (calls : List ToolCall) (s : ToolExecutor) : Prop where
  not_thrown : s.failed = false
  prepared : s.prepared.map PreparedCall.call <+: calls.map (preflightToolCall pre)
  announced : announcedIds s.trace <+: calls.map ToolCall.id
  announced_once : (announcedIds s.trace).Nodup
  announced_first : ∀ before after id result, s.trace = before ++ .yielded id result :: after →
    announcedIds before = calls.map ToolCall.id
  yielded_once : (yieldedIds s.trace).Nodup
  yielded : ∀ id result, .yielded id result ∈ s.trace → result.output.nonempty = true ∧ id ∈ calls.map ToolCall.id
  executed_once : (executedIds s.trace).Nodup
  executed_accepted : ∀ id ∈ executedIds s.trace, .vetoed id ∉ s.trace ∧
    (∃ p ∈ s.prepared, p.id = id ∧ p.task.isRun = true) ∧
      ∃ call ∈ calls, call.id = id ∧ ∃ runnable, preflightToolCall pre call = .runnable runnable
  executed_unstopped : s.prepared.Pairwise fun u t => u.stopBatchAfterThis = true → t.id ∉ executedIds s.trace
  executed_unaborted : ∀ before after, s.trace = before ++ .aborted :: after → executedIds after = []
  complete_or_goesOn : (announcedIds s.trace = calls.map ToolCall.id ∧ ∀ call ∈ calls, call.id ∈ yieldedIds s.trace) ∨
    GoesOn w s

theorem preflightToolCall_id (pre : Preflight) (call : ToolCall) : (preflightToolCall pre call).id = call.id := by
  unfold preflightToolCall
  dsimp only
  split
  · rfl
  · split
    · rfl
    · split
      · rfl
      · split <;> rfl

theorem map_preflight_id (pre : Preflight) (calls : List ToolCall) :
    (calls.map (preflightToolCall pre)).map PreflightedToolCall.id = calls.map ToolCall.id := by
  rw [List.map_map]
  apply map_congr_left
  intro call _
  exact preflightToolCall_id pre call

variable {pre : Preflight} {toolCalls : List ToolCall}

theorem Sound.all_of_batched (h : Sound (toolCalls.map (preflightToolCall pre)) s) (hbatched : s.batched = true) :
    s.prepared.map PreparedCall.call = toolCalls.map (preflightToolCall pre) := by
  obtain ⟨hwaiting, hstage⟩ := Bool.and_eq_true_iff.mp hbatched
  have hsplit := h.split
  rw [isEmpty_iff.mp hwaiting, isEmpty_iff.mp hstage, append_nil, append_nil] at hsplit
  exact hsplit

theorem ids_of_calls (s : ToolExecutor) :
    s.prepared.map PreparedCall.id = (s.prepared.map PreparedCall.call).map PreflightedToolCall.id := by
  rw [List.map_map]
  rfl

theorem Sound.executed_task (h : Sound calls s) (hids : (calls.map PreflightedToolCall.id).Nodup)
    (hp : p ∈ s.prepared) (hexecuted : p.id ∈ executedIds s.trace) : p.task.isRun = true := by
  obtain ⟨q, hq, hsame, hrun, -⟩ := h.executed p.id hexecuted
  rw [eq_of_id (h.ids_nodup hids) hq hp hsame] at hrun
  exact hrun

theorem Sound.orderly (h : Sound (toolCalls.map (preflightToolCall pre)) s)
    (hnodup : (toolCalls.map ToolCall.id).Nodup) : Orderly w pre toolCalls s := by
  have hids : ((toolCalls.map (preflightToolCall pre)).map PreflightedToolCall.id).Nodup := by
    rw [map_preflight_id]
    exact hnodup
  have hprepared : s.prepared.map PreparedCall.call <+: toolCalls.map (preflightToolCall pre) := by
    rw [← h.split, append_assoc]
    exact prefix_append ..
  have hannounced : announcedIds s.trace <+: toolCalls.map ToolCall.id := by
    rw [h.announced, ids_of_calls, ← map_preflight_id pre]
    exact hprepared.map _
  have hall (hbatched : s.batched = true) : announcedIds s.trace = toolCalls.map ToolCall.id := by
    rw [h.announced, ids_of_calls, h.all_of_batched hbatched, map_preflight_id]
  refine
    { not_thrown := h.kept, prepared := hprepared, announced := hannounced, announced_once := ?_,
      announced_first := ?_, yielded_once := h.yielded_once, yielded := ?_, executed_once := h.executed_once,
      executed_accepted := ?_, executed_unstopped := ?_, executed_unaborted := ?_, complete_or_goesOn := ?_ }
  · exact hannounced.sublist.nodup hnodup
  · intro before after id result htrace
    have hmem : .yielded id result ∈ s.trace := htrace ▸ mem_append_right _ (mem_cons_self ..)
    obtain ⟨-, p, hp, -, hdone⟩ := h.yielded id result hmem
    have hbatched : s.batched = true := by
      apply h.batched_of_progress hp
      rw [hdone]
      exact Nat.lt_of_sub_pos (Nat.succ_pos 3)
    rw [← hall hbatched, htrace, announcedIds_append]
    have horder := h.in_order
    rw [htrace] at horder
    have hlater := (pairwise_cons.mp (pairwise_append.mp horder).2.1).1
    have hnone : announcedIds (.yielded id result :: after) = [] := by
      apply filterMap_eq_nil_iff.mpr
      intro r hr
      rcases mem_cons.mp hr with rfl | hr
      · rfl
      · exact (hlater r hr).2 (some_ne_none _)
    rw [hnone, append_nil]
  · intro id result hmem
    obtain ⟨hnonempty, p, hp, rfl, -⟩ := h.yielded id result hmem
    refine ⟨hnonempty, hannounced.subset ?_⟩
    rw [h.announced]
    exact mem_map_of_mem hp
  · intro id hid
    obtain ⟨p, hp, rfl, hrun, -⟩ := h.executed id hid
    refine ⟨?_, ⟨p, hp, rfl, hrun⟩, ?_⟩
    · intro hvetoed
      obtain ⟨q, hq, hsame, hnot⟩ := h.vetoed p.id hvetoed
      rw [eq_of_id (h.ids_nodup hids) hq hp hsame, hrun] at hnot
      cases hnot
    · obtain ⟨runnable, hcall⟩ := h.runnable p hp hrun
      obtain ⟨call, hmem, hpre⟩ := mem_map.mp (hprepared.subset (mem_map_of_mem hp))
      refine ⟨call, hmem, ?_, runnable, hpre.trans hcall⟩
      rw [← preflightToolCall_id pre call, hpre]
      rfl
  · apply h.stopped.imp_of_mem
    intro u t _ ht hstopped hstop hexecuted
    have hrun := h.executed_task hids ht hexecuted
    rw [hstopped hstop] at hrun
    cases hrun
  · intro before after htrace
    have horder := h.in_order
    rw [htrace] at horder
    have hlater := (pairwise_cons.mp (pairwise_append.mp horder).2.1).1
    apply filterMap_eq_nil_iff.mpr
    intro r hr
    exact (hlater r hr).1 rfl
  · rcases h.complete_or_goesOn hids with ⟨hbatched, hdone⟩ | hgoesOn
    · left
      refine ⟨hall hbatched, ?_⟩
      intro call hcall
      have hmem : preflightToolCall pre call ∈ s.prepared.map PreparedCall.call := by
        rw [h.all_of_batched hbatched]
        exact mem_map_of_mem hcall
      obtain ⟨p, hp, hpre⟩ := mem_map.mp hmem
      have hid : p.id = call.id := by rw [← preflightToolCall_id pre call, ← hpre]; rfl
      rw [← hid]
      exact h.done p hp (hdone p hp)
    · exact .inr hgoesOn

/-- A run none of whose values the executor throws on is orderly at every moment, and it ends. -/
theorem orderly_of_run (w : ExecutorWorld) (htruncates : TruncatesToText w) (pre : Preflight)
    (calls : List ToolCall) (hids : (calls.map ToolCall.id).Nodup) (events : List ExecutorEvent) (s : ToolExecutor)
    (hsane : AlongRun (step w) (Sane w) (start pre calls) events) (hrun : run w pre calls events = some s) :
    Orderly w pre calls s ∧ events.length ≤ 8 * calls.length + 1 := by
  have hnodup : ((calls.map (preflightToolCall pre)).map PreflightedToolCall.id).Nodup := by
    rw [map_preflight_id]
    exact hids
  obtain ⟨hsound, hbound⟩ := (Sound.start pre calls).bounded hnodup htruncates hsane hrun
  refine ⟨hsound.orderly hids, ?_⟩
  have hstart : (start pre calls).weight = 8 * calls.length + 1 := by
    simp [weight, start, PrepareStage.weight]
  omega

/-! Two calls: a tool that is run, and one that is not registered. -/

def plainWorld : ExecutorWorld where
  rt :=
    { builtin := fun _ _ => .undefined
      numberToString := fun _ => "0"
      stringToNumber := fun _ => .nan
      indexKey := id
      test := fun _ _ => false }
  toLowerCase := id
  truncateForModel := fun _ _ result => result

def readOnly : Preflight where
  parse := fun _ => none
  resolve := fun name => if name = "Read" then some { validate := fun _ => none } else none
  source := fun _ => none

def readAndMissing : List ToolCall := [{ id := "a", name := "Read", arguments := none },
  { id := "b", name := "Missing", arguments := none }]

def twoCalls : List ExecutorEvent :=
  [.prepare, .resolves {}, .allows, .ready, .prepare, .start "a", .start "b",
    .returns "a" (.obj [("output", .str "text")]),
    .hookPasses "a" (some (.obj [("output", .arr [.obj [("type", .str "text"), ("text", .str "more")]])])) false,
    .hookThrows "b" { message := some "" }, .yields "b", .yields "a"]

theorem sane_twoCalls : ∀ e ∈ twoCalls, ∀ s, Sane plainWorld s e := by
  simp only [twoCalls, forall_mem_cons]
  refine ⟨fun _ => trivial, fun _ => trivial, fun _ => trivial, fun _ => trivial, fun _ => trivial, fun _ => trivial,
    fun _ => trivial, fun _ _ => trivial, ?_, fun _ => .inr (.inr rfl), fun _ => trivial, fun _ => trivial, ?_⟩
  · intro s p _ _ result _
    constructor
    · constructor
      · intro part hpart
        obtain rfl := mem_singleton.mp hpart
        rfl
      · intro hmedia
        exact absurd hmedia (by decide)
    · intro herror
      cases herror
  · intro e he
    cases he

theorem alongRun_of_sane
    (h : ∀ e ∈ events, ∀ s, P s e) (s : ToolExecutor) : AlongRun (step plainWorld) P s events := by
  induction events generalizing s with
  | nil => trivial
  | cons e events ih =>
    obtain ⟨he, hevents⟩ := forall_mem_cons.mp h
    exact ⟨he s, fun s' _ => ih hevents s'⟩

theorem twoCalls_yielded : ∃ s, run plainWorld readOnly readAndMissing twoCalls = some s ∧
    Orderly plainWorld readOnly readAndMissing s ∧ yieldedIds s.trace = ["b", "a"] := by
  obtain ⟨s, hrun, hyields⟩ :
      ∃ s, run plainWorld readOnly readAndMissing twoCalls = some s ∧ yieldedIds s.trace = ["b", "a"] := ⟨_, rfl, rfl⟩
  have hsane := alongRun_of_sane sane_twoCalls (start readOnly readAndMissing)
  have htruncates : TruncatesToText plainWorld := fun _ _ _ => ⟨rfl, .inl rfl⟩
  exact ⟨s, hrun, (orderly_of_run plainWorld htruncates readOnly readAndMissing (by decide) twoCalls s hsane hrun).1,
    hyields⟩

/-- A part that is `null` makes `execute` throw, and the other call never has its result. -/
theorem nullPart_throws : ∃ s, run plainWorld readOnly readAndMissing
        [.prepare, .resolves {}, .allows, .ready, .prepare, .start "a", .start "b",
          .returns "a" (.obj [("output", .arr [.null])])] = some s ∧
      yieldedIds s.trace = [] ∧ ¬ Orderly plainWorld readOnly readAndMissing s :=
  ⟨_, rfl, rfl, fun h => Bool.noConfusion (h.not_thrown : true = false)⟩

end ToolExecutor

end Echadron.Agent
