import Echadron.Server.TranscriptService

namespace Echadron.Server
open Lib List Option

/-! The transcript stream of one connection to a session that is live. -/

inductive TranscriptGrade where
  | off
  | turn
  | block
  | delta
deriving DecidableEq

def TranscriptGrade.rank : TranscriptGrade → Nat
  | .off => 0
  | .turn => 1
  | .block => 2
  | .delta => 3

def needsResetOnTransition (prev next : TranscriptGrade) : Bool := next.rank > prev.rank

/-- Values for agents by name, and one for all others. -/
structure AgentRecord (A V : Type) where
  wildcard : Option V := none
  agents : JsMap A V := .empty

section

variable [DecidableEq A]

def AgentRecord.lookup (record : AgentRecord A V) (agentId : A) : Option V :=
  (record.agents.get agentId).or record.wildcard

def gradeFor (spec : Option (AgentRecord A TranscriptGrade)) (agentId : A) : TranscriptGrade :=
  (spec.bind fun spec => spec.lookup agentId).getD .off

/-- Each agent that is listed drops to an explicit `off`; `none` is the wildcard. -/
def detachGrades (spec : AgentRecord A TranscriptGrade) (agentIds : List (Option A)) :
    Option (AgentRecord A TranscriptGrade) :=
  let next := agentIds.foldl (fun (next : AgentRecord A TranscriptGrade) agentId =>
    match agentId with
    | none => { next with wildcard := none }
    | some agentId => { next with agents := next.agents.set agentId .off }) spec
  if next.wildcard.any (· ≠ .off) || next.agents.entries.any fun e => e.2 ≠ .off then some next else none

end

/-- The operations as far as the grades tell them apart. -/
inductive OpClass where
  | append
  /-- Upserts of steps and frames. -/
  | detail
  | other
deriving DecidableEq

def admits (grade : TranscriptGrade) : OpClass → Bool
  | .append => grade.rank ≥ TranscriptGrade.delta.rank
  | .detail => grade.rank ≥ TranscriptGrade.block.rank
  | .other => true

def filterOpsForGrade (grade : TranscriptGrade) (ops : List OpClass) : List OpClass :=
  if grade.rank = 0 then [] else ops.filter (admits grade)

inductive TranscriptFrame (A : Type) where
  | reset (agentId : A) (seq : Nat) (grade : TranscriptGrade)
  | ops (agentId : A) (seq : Nat) (ops : List OpClass)
deriving DecidableEq

/-- A call of `subscribeTranscript`: the grades before it, and the cursors that the client gave. It
waits for histories, sends the baselines, and the gate is opened a moment later. -/
structure SubscribeCall (A : Type) where
  prev : Option (AgentRecord A TranscriptGrade)
  transcriptSince : AgentRecord A Nat := {}
  loading : Bool := true

structure DeferredSeed (A : Type) where
  transcriptSince : AgentRecord A Nat := {}

/-- One connection in the state of a session. Of an agent, the connection is `owed` the batches after
its last baseline, as its grade has them; `none` is that it needs a baseline. -/
structure TranscriptFanout (A : Type) where
  /-- The agents with descriptors. -/
  roster : List A := []
  /-- The agents with transcripts. -/
  transcripts : List A := []
  opsJournals : JsMap A (AgentOpsJournal OpClass) := .empty
  /-- The session's stream is attached to the store. -/
  attached : Bool := false
  knownAgents : List A := []
  /-- The grades of the connection, if it is a target. -/
  target : Option (Option (AgentRecord A TranscriptGrade)) := none
  transcriptSeeded : Bool := false
  deferredSeed : Option (DeferredSeed A) := none
  calls : List (SubscribeCall A) := []
  received : List (TranscriptFrame A) := []
  owed : A → Option (List (Nat × List OpClass)) := fun _ => some []

inductive FanoutEvent (A : Type) where
  | describe (agentId : A)
  | ensureAgent (agentId : A)
  | dispatch (agentId : A) (ops : List OpClass)
  /-- Another connection has the stream attached. -/
  | attach
  | subscribe (spec : Option (AgentRecord A TranscriptGrade)) (deferred : Bool)
      (transcriptSince : AgentRecord A Nat)
  | flushTranscriptSeed
  /-- The histories of a call are there. -/
  | loaded (call : Nat)
  | opened (call : Nat)
  | unsubscribe
  | unsubscribeTranscript (agentIds : Option (List (Option A)))

namespace TranscriptFanout

variable [DecidableEq A]

section

variable (s : TranscriptFanout A)

def grade (agentId : A) : TranscriptGrade := gradeFor s.target.join agentId

def getSeqWatermark (agentId : A) : Nat := AgentOpsJournal.watermark (s.opsJournals.get agentId)

/-- Whether the connection is sent live batches. -/
def isOpen : Bool := s.attached && s.transcriptSeeded && s.target.isSome

def sendTranscriptReset (agentId : A) : TranscriptFanout A :=
  { s with
    received := s.received ++ [.reset agentId (s.getSeqWatermark agentId) (s.grade agentId)]
    owed := fun a => if a = agentId then some [] else s.owed a }

/-- A batch as the grade has it, if anything is left of it. -/
def filteredBatch (agentId : A) (batch : OpsBatch OpClass) : List (Nat × List OpClass) :=
  if filterOpsForGrade (s.grade agentId) batch.ops = [] then []
  else [(batch.seq, filterOpsForGrade (s.grade agentId) batch.ops)]

end

def opsFrames (agentId : A) (batches : List (Nat × List OpClass)) : List (TranscriptFrame A) :=
  batches.map fun batch => .ops agentId batch.1 batch.2

/-- What a connection was sent of an agent after the last reset. -/
def streamOf (agentId : A) (frames : List (TranscriptFrame A)) : List (Nat × List OpClass) :=
  frames.foldl (fun stream frame =>
    match frame with
    | .reset a _ _ => if a = agentId then [] else stream
    | .ops a seq ops => if a = agentId then stream ++ [(seq, ops)] else stream) []

section

variable (s : TranscriptFanout A)

/-- The client has what is before its cursor. -/
def replayTranscriptOps (agentId : A) (batches : List (OpsBatch OpClass)) : TranscriptFanout A :=
  let replayed := batches.flatMap (s.filteredBatch agentId)
  { s with
    received := s.received ++ opsFrames agentId replayed
    owed := fun a =>
      if a = agentId then some (streamOf agentId s.received ++ replayed) else s.owed a }

def dispatchOps (agentId : A) (ops : List OpClass) : TranscriptFanout A :=
  let journal := (s.opsJournals.get agentId).getD {}
  let filtered := s.filteredBatch agentId ⟨journal.nextSeq, ops⟩
  { s with
    opsJournals := s.opsJournals.set agentId (journal.push ops)
    transcripts := if agentId ∈ s.transcripts then s.transcripts else s.transcripts ++ [agentId]
    received := if s.isOpen then s.received ++ opsFrames agentId filtered else s.received
    owed := fun a => if a = agentId then (s.owed a).map (· ++ filtered) else s.owed a }

def ensureTranscriptStream : TranscriptFanout A :=
  if s.attached then s
  else { s with attached := true, knownAgents := s.roster }

def describeAgent (agentId : A) : TranscriptFanout A :=
  let s := { s with roster := if agentId ∈ s.roster then s.roster else s.roster ++ [agentId] }
  if s.attached && decide (agentId ∉ s.knownAgents) then
    let s := { s with knownAgents := s.knownAgents ++ [agentId] }
    if agentId ∈ s.transcripts ∧ s.isOpen ∧ s.grade agentId ≠ .off then s.sendTranscriptReset agentId
    else s
  else s

def willSendTranscriptReset (spec prev : Option (AgentRecord A TranscriptGrade)) : Bool :=
  s.roster.any fun agentId =>
    gradeFor spec agentId ≠ .off && needsResetOnTransition (gradeFor prev agentId) (gradeFor spec agentId)

/-- With new grades, an agent whose grade is raised needs a baseline, unless there is nothing yet. -/
def setTarget (spec : Option (AgentRecord A TranscriptGrade)) : TranscriptFanout A :=
  { s with
    target := some spec
    owed := fun a =>
      if needsResetOnTransition (s.grade a) (gradeFor spec a) then
        if s.getSeqWatermark a = 0 then some [] else none
      else s.owed a }

def subscribe (spec : Option (AgentRecord A TranscriptGrade))
    (deferred : Bool) (transcriptSince : AgentRecord A Nat) : TranscriptFanout A :=
  let prev := s.target.join
  let s := s.setTarget spec
  if spec.isNone then s
  else if deferred then
    { s with
      transcriptSeeded := false
      deferredSeed := some { transcriptSince := transcriptSince } }
  else
    { s with
      deferredSeed := none
      transcriptSeeded := s.transcriptSeeded && !s.willSendTranscriptReset spec prev
      calls := s.calls ++ [{ prev := prev, transcriptSince := transcriptSince }] }

end

/-- The baseline of one agent: the batches after a cursor that the journal still covers, or else a
reset if the grade was raised. -/
def sendBaseline (call : SubscribeCall A) (s : TranscriptFanout A) (agentId : A) : TranscriptFanout A :=
  if s.grade agentId = .off ∨ agentId ∉ s.transcripts then s
  else
    let catchup := (call.transcriptSince.lookup agentId).map
      (AgentOpsJournal.opsSince (s.opsJournals.get agentId))
    match catchup.filter (·.complete) with
    | some catchup => s.replayTranscriptOps agentId catchup.batches
    | none =>
      if needsResetOnTransition (gradeFor call.prev agentId) (s.grade agentId) then
        s.sendTranscriptReset agentId
      else s

def sendBaselines (s : TranscriptFanout A) (call : SubscribeCall A) : TranscriptFanout A :=
  if s.target.join.isNone then s
  else
    let s := s.ensureTranscriptStream
    s.roster.foldl (sendBaseline call) s

def unsubscribeTranscript (s : TranscriptFanout A) (agentIds : Option (List (Option A))) : TranscriptFanout A :=
  match s.target with
  | none => s
  | some spec =>
    match agentIds.bind fun agentIds => spec.bind fun spec => detachGrades spec agentIds with
    | none =>
      { s.setTarget none with
        transcriptSeeded := false
        deferredSeed := none }
    | some next => s.setTarget (some next)

def step (s : TranscriptFanout A) : FanoutEvent A → Option (TranscriptFanout A)
  | .describe agentId => some (s.describeAgent agentId)
  | .ensureAgent agentId =>
    some { s with transcripts :=
      if agentId ∈ s.transcripts then s.transcripts else s.transcripts ++ [agentId] }
  | .dispatch agentId ops => some (s.dispatchOps agentId ops)
  | .attach => some s.ensureTranscriptStream
  | .subscribe spec deferred transcriptSince => some (s.subscribe spec deferred transcriptSince)
  | .flushTranscriptSeed =>
    s.deferredSeed.map fun seed =>
      { s with
        deferredSeed := none
        calls := s.calls ++ [{ prev := none, transcriptSince := seed.transcriptSince }] }
  | .loaded i =>
    s.calls[i]?.bind fun call =>
      if call.loading then
        some { s.sendBaselines call with calls := s.calls.set i { call with loading := false } }
      else none
  | .opened i =>
    s.calls[i]?.bind fun call =>
      if call.loading then none
      else
        some { s with
          calls := s.calls.eraseIdx i
          transcriptSeeded := s.transcriptSeeded || s.target.isSome }
  | .unsubscribe =>
    some { s with
      target := none
      transcriptSeeded := false
      deferredSeed := none }
  | .unsubscribeTranscript agentIds => some (s.unsubscribeTranscript agentIds)

def position (agentId : A) (frames : List (TranscriptFrame A)) : Nat :=
  frames.foldl (fun last frame =>
    match frame with
    | .reset a seq _ => if a = agentId then seq else last
    | .ops a seq _ => if a = agentId then seq else last) 0

/-- Each batch is sent after the ones before it, and not again. -/
def NoRepeat (agentId : A) (frames : List (TranscriptFrame A)) : Prop :=
  ∀ sent seq ops rest, frames = sent ++ .ops agentId seq ops :: rest → position agentId sent < seq

/-- The connection has been sent of an agent what it is owed. -/
def Holds (s : TranscriptFanout A) (a : A) : Prop := s.owed a = some (streamOf a s.received)

/-- Once no subscription is under way, the connection has what it is owed of every agent that it is
graded for; and it never has a batch twice. -/
structure Delivered (s : TranscriptFanout A) : Prop where
  complete : s.deferredSeed = none → s.calls = [] → ∀ a, s.grade a ≠ .off → s.Holds a
  noRepeat : ∀ a, NoRepeat a s.received

/-- A reset of the agent is still to come. -/
def Awaits (s : TranscriptFanout A) (a : A) (grade : TranscriptGrade) : Prop :=
  ∃ call ∈ s.calls, call.loading = true ∧ needsResetOnTransition (gradeFor call.prev a) grade = true

/-- The cursor of an agent is not behind what the connection has been sent. -/
def CursorHeld (call : SubscribeCall A) (s : TranscriptFanout A) (a : A) : Prop :=
  s.grade a ≠ .off → ∀ since ∈ call.transcriptSince.lookup a,
    (AgentOpsJournal.opsSince (s.opsJournals.get a) since).complete = true → position a s.received ≤ since

/-- No batch is withheld of an agent that no reset is on the way for, no subscription takes away a
baseline that is still to come, an agent that is to get a reset is on the roster, and a cursor is not
behind what the connection has been sent. -/
def Meets (s : TranscriptFanout A) : FanoutEvent A → Prop
  | .dispatch a ops => filterOpsForGrade (s.grade a) ops ≠ [] →
      s.isOpen = true ∨ s.deferredSeed.isSome = true ∨ s.Awaits a (s.grade a)
  | .subscribe (some spec) false _ => ∀ a ∈ s.opsJournals.keys, gradeFor (some spec) a ≠ .off →
      needsResetOnTransition (s.grade a) (gradeFor (some spec) a) = true ∨ s.Awaits a (gradeFor (some spec) a) ∨
        (s.deferredSeed.isNone = true ∧ ¬ s.Awaits a (s.grade a))
  | .loaded i => ∀ call ∈ s.calls[i]?,
      (∀ a ∈ s.opsJournals.keys, needsResetOnTransition (gradeFor call.prev a) (s.grade a) = true →
        s.deferredSeed.isSome = true ∨ a ∈ s.roster) ∧
      ∀ a ∈ s.roster, CursorHeld call s a
  | _ => True

section

variable (a b : A) (frames : List (TranscriptFrame A)) (seq : Nat)

theorem streamOf_reset (grade : TranscriptGrade) :
    streamOf a (frames ++ [.reset b seq grade]) = if b = a then [] else streamOf a frames := by
  rw [streamOf, foldl_append]
  rfl

theorem position_reset (grade : TranscriptGrade) :
    position a (frames ++ [.reset b seq grade]) = if b = a then seq else position a frames := by
  rw [position, foldl_append]
  rfl

theorem position_ops (ops : List OpClass) :
    position a (frames ++ [.ops b seq ops]) = if b = a then seq else position a frames := by
  rw [position, foldl_append]
  rfl

end

omit [DecidableEq A] in
theorem opsFrames_cons (b : A) (batch : Nat × List OpClass) (batches : List (Nat × List OpClass))
    (frames : List (TranscriptFrame A)) :
    frames ++ opsFrames b (batch :: batches) = (frames ++ [.ops b batch.1 batch.2]) ++ opsFrames b batches := by
  rw [append_assoc]
  rfl

theorem streamOf_opsFrames_self (a : A) (frames : List (TranscriptFrame A)) (batches : List (Nat × List OpClass)) :
    streamOf a (frames ++ opsFrames a batches) = streamOf a frames ++ batches := by
  induction batches generalizing frames with
  | nil => rw [opsFrames, map_nil, append_nil, append_nil]
  | cons batch batches ih =>
    have hfirst : streamOf a (frames ++ [.ops a batch.1 batch.2]) = streamOf a frames ++ [batch] := by
      rw [streamOf, foldl_append]
      exact if_pos rfl
    rw [opsFrames_cons, ih, hfirst, append_assoc]
    rfl

theorem streamOf_opsFrames_of_ne (h : b ≠ a) (frames : List (TranscriptFrame A))
    (batches : List (Nat × List OpClass)) :
    streamOf a (frames ++ opsFrames b batches) = streamOf a frames := by
  induction batches generalizing frames with
  | nil => rw [opsFrames, map_nil, append_nil]
  | cons batch batches ih =>
    rw [opsFrames_cons, ih, streamOf, foldl_append]
    exact if_neg h

theorem position_opsFrames_of_ne (h : b ≠ a) (frames : List (TranscriptFrame A))
    (batches : List (Nat × List OpClass)) :
    position a (frames ++ opsFrames b batches) = position a frames := by
  induction batches generalizing frames with
  | nil => rw [opsFrames, map_nil, append_nil]
  | cons batch batches ih => rw [opsFrames_cons, ih, position_ops, if_neg h]

theorem position_opsFrames_le {frames : List (TranscriptFrame A)} (h : position a frames ≤ n)
    (hbatches : ∀ batch ∈ batches, b = a → batch.1 ≤ n) :
    position a (frames ++ opsFrames b batches) ≤ n := by
  induction batches generalizing frames with
  | nil =>
    rw [opsFrames, map_nil, append_nil]
    exact h
  | cons batch batches ih =>
    obtain ⟨hfirst, hrest⟩ := forall_mem_cons.mp hbatches
    rw [opsFrames_cons]
    apply ih _ hrest
    rw [position_ops]
    split
    · next hb => exact hfirst hb
    · exact h

theorem NoRepeat.nil (a : A) : NoRepeat a [] := by
  intro sent seq ops rest he
  exact absurd he.symm (append_ne_nil_of_right_ne_nil _ (cons_ne_nil _ _))

theorem snoc_eq_append_cons
    (h : frames ++ [last] = sent ++ x :: rest) :
    (sent = frames ∧ x = last) ∨ ∃ rest', frames = sent ++ x :: rest' := by
  rcases eq_nil_or_concat rest with rfl | ⟨rest, y, rfl⟩
  · obtain ⟨hsent, hx⟩ := append_inj' h rfl
    exact .inl ⟨hsent.symm, (cons.inj hx).1.symm⟩
  · rw [concat_eq_append, ← cons_append, ← append_assoc] at h
    exact .inr ⟨rest, (append_inj' h rfl).1⟩

theorem NoRepeat.reset (h : NoRepeat a frames) (b : A)
    (seq : Nat) (grade : TranscriptGrade) : NoRepeat a (frames ++ [.reset b seq grade]) := by
  intro sent seq' ops rest he
  rcases snoc_eq_append_cons he with ⟨-, hx⟩ | ⟨rest', he⟩
  · cases hx
  · exact h sent seq' ops rest' he

theorem NoRepeat.ops {frames : List (TranscriptFrame A)} (h : NoRepeat a frames)
    (hseq : b = a → position a frames < seq) (ops : List OpClass) :
    NoRepeat a (frames ++ [.ops b seq ops]) := by
  intro sent seq' ops' rest he
  rcases snoc_eq_append_cons he with ⟨rfl, hx⟩ | ⟨rest', he⟩
  · obtain ⟨rfl, rfl, rfl⟩ := TranscriptFrame.ops.inj hx
    exact hseq rfl
  · exact h sent seq' ops' rest' he

theorem NoRepeat.opsFrames {frames : List (TranscriptFrame A)}
    {batches : List (Nat × List OpClass)} (h : NoRepeat a frames)
    (hlater : ∀ batch ∈ batches, b = a → position a frames < batch.1)
    (hsorted : batches.Pairwise fun p q => p.1 < q.1) :
    NoRepeat a (frames ++ opsFrames b batches) := by
  induction batches generalizing frames with
  | nil =>
    rw [TranscriptFanout.opsFrames, map_nil, append_nil]
    exact h
  | cons batch batches ih =>
    obtain ⟨hfirst, hrest⟩ := forall_mem_cons.mp hlater
    obtain ⟨hbelow, hsorted⟩ := pairwise_cons.mp hsorted
    rw [opsFrames_cons]
    apply ih (h.ops hfirst batch.2) _ hsorted
    intro next hnext hb
    rw [position_ops, if_pos hb]
    exact hbelow next hnext

/-! The batches of a journal as a connection gets them. -/

theorem seq_of_mem_filteredBatch {s : TranscriptFanout A} (h : p ∈ s.filteredBatch a batch) : p.1 = batch.seq := by
  rw [filteredBatch] at h
  split at h
  · cases h
  · rw [mem_singleton.mp h]

theorem filteredBatch_pairwise (s : TranscriptFanout A) (a : A) (batch : OpsBatch OpClass) :
    (s.filteredBatch a batch).Pairwise fun p q => p.1 < q.1 := by
  rw [filteredBatch]
  split
  · exact .nil
  · exact pairwise_singleton ..

end TranscriptFanout

namespace AgentOpsJournal

theorem Consecutive.sorted {j : AgentOpsJournal Op} (h : j.Consecutive) :
    j.batches.Pairwise fun x y => x.seq < y.seq := by
  rw [← pairwise_map (f := OpsBatch.seq) (R := (· < ·)), h.seqs]
  exact pairwise_lt_range'

theorem Consecutive.seq_lt {j : AgentOpsJournal Op} (h : j.Consecutive)
    (hbatch : batch ∈ j.batches) : batch.seq < j.nextSeq := by
  have hmem : batch.seq ∈ j.batches.map OpsBatch.seq := mem_map_of_mem hbatch
  rw [h.seqs, mem_range'_1] at hmem
  have hlt := h.length_lt
  omega

theorem mem_opsSince
    (h : batch ∈ (opsSince journal since).batches) :
    batch ∈ retained journal ∧ since < batch.seq := by
  rw [opsSince] at h
  split at h
  · cases h
  · obtain ⟨hmem, hseq⟩ := mem_filter.mp h
    exact ⟨hmem, of_decide_eq_true hseq⟩

theorem opsSince_sorted {journal : Option (AgentOpsJournal Op)} (h : ∀ j ∈ journal, j.Consecutive) (since : Nat) :
    (opsSince journal since).batches.Pairwise fun x y => x.seq < y.seq := by
  rw [opsSince]
  split
  · exact .nil
  · apply List.Pairwise.filter
    cases journal with
    | none => exact .nil
    | some j => exact (h j rfl).sorted

end AgentOpsJournal

namespace TranscriptFanout

variable [DecidableEq A]

/-- What a connection was sent agrees with the journals. -/
structure Sound (s : TranscriptFanout A) : Prop where
  fresh : ∀ a, s.opsJournals.get a = none → s.owed a = some [] ∧ streamOf a s.received = []
  bound : ∀ a, position a s.received ≤ s.getSeqWatermark a
  journals : ∀ a, ∀ j ∈ s.opsJournals.get a, j.Consecutive ∧ 1 < j.nextSeq
  transcribed : ∀ a, s.opsJournals.get a ≠ none → a ∈ s.transcripts
  roster : s.roster.Nodup
  noRepeat : ∀ a, NoRepeat a s.received

theorem Sound.start : ({} : TranscriptFanout A).Sound :=
  { fresh := fun _ _ => ⟨rfl, rfl⟩
    bound := fun _ => Nat.le_refl _
    journals := fun _ _ hj => by cases hj
    transcribed := fun _ h => absurd rfl h
    roster := nodup_nil
    noRepeat := NoRepeat.nil }

theorem Sound.reset {s : TranscriptFanout A} (h : s.Sound) (a : A) : (s.sendTranscriptReset a).Sound := by
  refine { h with fresh := ?_, bound := ?_, noRepeat := ?_ }
  · intro b hb
    obtain ⟨howed, hstream⟩ := h.fresh b hb
    rw [sendTranscriptReset, streamOf_reset]
    dsimp only
    by_cases he : b = a
    · rw [if_pos he, if_pos he.symm]
      exact ⟨rfl, rfl⟩
    · rw [if_neg he, if_neg (Ne.symm he)]
      exact ⟨howed, hstream⟩
  · intro b
    rw [sendTranscriptReset, position_reset]
    split
    · next he =>
      rw [he]
      exact Nat.le_refl _
    · exact h.bound b
  · exact fun b => (h.noRepeat b).reset a _ _

theorem Sound.replay {s : TranscriptFanout A} (h : s.Sound) (hsince : position a s.received ≤ since) :
    (s.replayTranscriptOps a (AgentOpsJournal.opsSince (s.opsJournals.get a) since).batches).Sound := by
  have hmem : ∀ p ∈ (AgentOpsJournal.opsSince (s.opsJournals.get a) since).batches.flatMap
      (s.filteredBatch a), ∃ batch ∈ AgentOpsJournal.retained (s.opsJournals.get a),
        since < p.1 ∧ p.1 = batch.seq := by
    intro p hp
    obtain ⟨batch, hbatch, hp⟩ := mem_flatMap.mp hp
    obtain ⟨hretained, hlt⟩ := AgentOpsJournal.mem_opsSince hbatch
    have hseq := seq_of_mem_filteredBatch hp
    exact ⟨batch, hretained, hseq ▸ hlt, hseq⟩
  refine { h with fresh := ?_, bound := ?_, noRepeat := ?_ }
  · intro b hb
    obtain ⟨howed, hstream⟩ := h.fresh b hb
    change s.opsJournals.get b = none at hb
    rw [replayTranscriptOps]
    dsimp only
    by_cases he : b = a
    · subst he
      have hnone : (AgentOpsJournal.opsSince (s.opsJournals.get b) since).batches.flatMap
          (s.filteredBatch b) = [] := by
        apply eq_nil_iff_forall_not_mem.mpr
        intro p hp
        obtain ⟨batch, hbatch, -⟩ := hmem p hp
        rw [hb] at hbatch
        cases hbatch
      rw [if_pos rfl, streamOf_opsFrames_self, hnone, hstream]
      exact ⟨rfl, rfl⟩
    · rw [if_neg he, streamOf_opsFrames_of_ne (Ne.symm he)]
      exact ⟨howed, hstream⟩
  · intro b
    refine position_opsFrames_le (h.bound b) ?_
    intro p hp he
    subst he
    obtain ⟨batch, hbatch, -, hseq⟩ := hmem p hp
    rw [hseq]
    cases hj : s.opsJournals.get a with
    | none =>
      rw [hj] at hbatch
      cases hbatch
    | some j =>
      rw [hj] at hbatch
      have hlt := (h.journals a j hj).1.seq_lt hbatch
      change batch.seq ≤ AgentOpsJournal.watermark (s.opsJournals.get a)
      rw [hj]
      exact Nat.le_sub_one_of_lt hlt
  · intro b
    apply (h.noRepeat b).opsFrames
    · intro p hp he
      subst he
      obtain ⟨batch, -, hlt, -⟩ := hmem p hp
      exact Nat.lt_of_le_of_lt hsince hlt
    · rw [pairwise_flatMap]
      refine ⟨fun batch _ => filteredBatch_pairwise s a batch, ?_⟩
      refine (AgentOpsJournal.opsSince_sorted (fun j hj => (h.journals a j hj).1) since).imp ?_
      intro x y hlt p hp q hq
      rw [seq_of_mem_filteredBatch hp, seq_of_mem_filteredBatch hq]
      exact hlt

section

variable (s : TranscriptFanout A) (a : A) (ops : List OpClass)

/-- What a connection is sent of a batch when it is dispatched. -/
def liveBatch : List (Nat × List OpClass) :=
  if s.isOpen then s.filteredBatch a ⟨((s.opsJournals.get a).getD {}).nextSeq, ops⟩ else []

theorem dispatchOps_received : (s.dispatchOps a ops).received = s.received ++ opsFrames a (s.liveBatch a ops) := by
  rw [dispatchOps, liveBatch]
  dsimp only
  split
  · rfl
  · exact (append_nil _).symm

theorem liveBatch_pairwise : (s.liveBatch a ops).Pairwise fun p q => p.1 < q.1 := by
  rw [liveBatch]
  split
  · exact filteredBatch_pairwise ..
  · exact .nil

end

theorem seq_of_mem_liveBatch {s : TranscriptFanout A}
    (h : p ∈ s.liveBatch a ops) : p.1 = ((s.opsJournals.get a).getD {}).nextSeq := by
  rw [liveBatch] at h
  split at h
  · exact seq_of_mem_filteredBatch h
  · cases h

theorem Sound.dispatch {s : TranscriptFanout A} (h : s.Sound) (a : A) (ops : List OpClass) :
    (s.dispatchOps a ops).Sound := by
  have hjournal : ((s.opsJournals.get a).getD {}).Consecutive ∧
      s.getSeqWatermark a < ((s.opsJournals.get a).getD {}).nextSeq := by
    rw [getSeqWatermark]
    cases hj : s.opsJournals.get a with
    | none => exact ⟨AgentOpsJournal.consecutive_empty, Nat.zero_lt_one⟩
    | some j =>
      obtain ⟨hj, hone⟩ := h.journals a j hj
      exact ⟨hj, Nat.sub_lt (Nat.zero_lt_of_lt hone) Nat.zero_lt_one⟩
  obtain ⟨hconsecutive, hlt⟩ := hjournal
  have hget : ∀ b, (s.dispatchOps a ops).opsJournals.get b =
      if b = a then some (((s.opsJournals.get a).getD {}).push ops) else s.opsJournals.get b :=
    fun b => JsMap.get_set ..
  constructor
  · intro b hb
    rw [hget] at hb
    by_cases he : b = a
    · rw [if_pos he] at hb
      cases hb
    · rw [if_neg he] at hb
      obtain ⟨howed, hstream⟩ := h.fresh b hb
      rw [dispatchOps_received, streamOf_opsFrames_of_ne (Ne.symm he)]
      exact ⟨(if_neg he).trans howed, hstream⟩
  · intro b
    rw [dispatchOps_received, getSeqWatermark, hget]
    by_cases he : b = a
    · subst he
      rw [if_pos rfl]
      apply position_opsFrames_le
      · exact Nat.le_trans (h.bound b) (Nat.le_of_lt hlt)
      · intro p hp _
        rw [seq_of_mem_liveBatch hp]
        exact Nat.le_refl _
    · rw [if_neg he, position_opsFrames_of_ne (Ne.symm he)]
      exact h.bound b
  · intro b j hj
    rw [hget] at hj
    by_cases he : b = a
    · rw [if_pos he] at hj
      cases hj
      exact ⟨hconsecutive.push ops, Nat.succ_lt_succ (Nat.zero_lt_of_lt hlt)⟩
    · rw [if_neg he] at hj
      exact h.journals b j hj
  · intro b hb
    rw [hget] at hb
    change b ∈ if a ∈ s.transcripts then s.transcripts else s.transcripts ++ [a]
    by_cases he : b = a
    · subst he
      split
      · next hmem => exact hmem
      · exact mem_concat_self
    · rw [if_neg he] at hb
      have hmem := h.transcribed b hb
      split
      · exact hmem
      · exact mem_append_left _ hmem
  · exact h.roster
  · intro b
    rw [dispatchOps_received]
    apply (h.noRepeat b).opsFrames _ (liveBatch_pairwise ..)
    intro p hp he
    subst he
    rw [seq_of_mem_liveBatch hp]
    exact Nat.lt_of_le_of_lt (h.bound a) hlt

theorem Sound.setTarget {s : TranscriptFanout A} (h : s.Sound)
    (spec : Option (AgentRecord A TranscriptGrade)) : (s.setTarget spec).Sound := by
  refine { h with fresh := ?_ }
  intro a ha
  obtain ⟨howed, hstream⟩ := h.fresh a ha
  refine ⟨?_, hstream⟩
  change s.opsJournals.get a = none at ha
  have hzero : s.getSeqWatermark a = 0 := by
    rw [getSeqWatermark, ha]
    rfl
  change (if needsResetOnTransition (s.grade a) (gradeFor spec a) = true then
    if s.getSeqWatermark a = 0 then some [] else none else s.owed a) = some []
  split
  · rfl
  · exact howed

theorem sendBaseline_cases (call : SubscribeCall A) (s : TranscriptFanout A) (a : A) :
    (sendBaseline call s a = s ∧ (s.grade a = .off ∨ a ∉ s.transcripts ∨
      needsResetOnTransition (gradeFor call.prev a) (s.grade a) = false)) ∨
    sendBaseline call s a = s.sendTranscriptReset a ∨
    ∃ since ∈ call.transcriptSince.lookup a, s.grade a ≠ .off ∧
      (AgentOpsJournal.opsSince (s.opsJournals.get a) since).complete = true ∧
      sendBaseline call s a = s.replayTranscriptOps a
        (AgentOpsJournal.opsSince (s.opsJournals.get a) since).batches := by
  rw [sendBaseline]
  by_cases hskip : s.grade a = .off ∨ a ∉ s.transcripts
  · rw [if_pos hskip]
    exact .inl ⟨rfl, hskip.imp_right .inl⟩
  · rw [if_neg hskip]
    dsimp only
    cases hcatchup : ((call.transcriptSince.lookup a).map
        (AgentOpsJournal.opsSince (s.opsJournals.get a))).filter (·.complete) with
    | none =>
      by_cases hreset : needsResetOnTransition (gradeFor call.prev a) (s.grade a) = true
      · rw [if_pos hreset]
        exact .inr (.inl rfl)
      · rw [if_neg hreset]
        exact .inl ⟨rfl, .inr (.inr (Bool.eq_false_iff.mpr hreset))⟩
    | some catchup =>
      obtain ⟨hmap, hcomplete⟩ := filter_eq_some_iff.mp hcatchup
      obtain ⟨since, hsince, rfl⟩ := map_eq_some_iff.mp hmap
      exact .inr (.inr ⟨since, hsince, fun hoff => hskip (.inl hoff), hcomplete, rfl⟩)

theorem Sound.holds_of_fresh {s : TranscriptFanout A} (h : s.Sound)
    (ha : s.opsJournals.get a = none) : s.Holds a := by
  obtain ⟨howed, hstream⟩ := h.fresh a ha
  rw [Holds, howed, hstream]

/-- Frames of another agent change nothing for this one. -/
structure Untouched (a : A) (s s' : TranscriptFanout A) : Prop where
  owed : s'.owed a = s.owed a
  stream : streamOf a s'.received = streamOf a s.received
  position : position a s'.received = position a s.received

theorem Untouched.holds_iff {s s' : TranscriptFanout A} (h : Untouched a s s') : s'.Holds a ↔ s.Holds a := by
  rw [Holds, Holds, h.owed, h.stream]

theorem untouched_reset (h : b ≠ a) (s : TranscriptFanout A) : Untouched a s (s.sendTranscriptReset b) :=
  ⟨if_neg (Ne.symm h), (streamOf_reset ..).trans (if_neg h), (position_reset ..).trans (if_neg h)⟩

theorem untouched_replay (h : b ≠ a) (s : TranscriptFanout A) (batches : List (OpsBatch OpClass)) :
    Untouched a s (s.replayTranscriptOps b batches) :=
  ⟨if_neg (Ne.symm h), streamOf_opsFrames_of_ne h .., position_opsFrames_of_ne h ..⟩

theorem holds_reset (s : TranscriptFanout A) (a : A) : (s.sendTranscriptReset a).Holds a := by
  rw [Holds, sendTranscriptReset, streamOf_reset, if_pos rfl]
  exact if_pos rfl

theorem holds_replay (s : TranscriptFanout A) (a : A) (batches : List (OpsBatch OpClass)) :
    (s.replayTranscriptOps a batches).Holds a := by
  rw [Holds, replayTranscriptOps, streamOf_opsFrames_self]
  exact if_pos rfl

/-- Only what the connection was sent and is owed has changed. -/
def Sends (s s' : TranscriptFanout A) : Prop :=
  ∃ received owed, s' = { s with received := received, owed := owed }

theorem sends_sendBaseline (call : SubscribeCall A) (s : TranscriptFanout A) (a : A) :
    Sends s (sendBaseline call s a) := by
  rcases sendBaseline_cases call s a with ⟨he, -⟩ | he | ⟨since, -, -, -, he⟩
  · exact ⟨s.received, s.owed, he⟩
  · exact ⟨_, _, he⟩
  · exact ⟨_, _, he⟩

theorem untouched_sendBaseline (h : b ≠ a) (call : SubscribeCall A) (s : TranscriptFanout A) :
    Untouched a s (sendBaseline call s b) := by
  rcases sendBaseline_cases call s b with ⟨he, -⟩ | he | ⟨since, -, -, -, he⟩
  · rw [he]
    exact ⟨rfl, rfl, rfl⟩
  · rw [he]
    exact untouched_reset h s
  · rw [he]
    exact untouched_replay h s _

theorem Sound.sendBaseline {s : TranscriptFanout A} (h : s.Sound)
    (hcursor : CursorHeld call s a) : (sendBaseline call s a).Sound := by
  rcases sendBaseline_cases call s a with ⟨he, -⟩ | he | ⟨since, hsince, hon, hcomplete, he⟩
  · rw [he]
    exact h
  · rw [he]
    exact h.reset a
  · rw [he]
    exact h.replay (hcursor hon since hsince hcomplete)

theorem holds_sendBaseline {call : SubscribeCall A} (h : s.Holds a ∨ (s.grade a ≠ .off ∧ a ∈ s.transcripts ∧
      needsResetOnTransition (gradeFor call.prev a) (s.grade a) = true)) :
    (sendBaseline call s a).Holds a := by
  rcases sendBaseline_cases call s a with ⟨he, hskip⟩ | he | ⟨since, -, -, -, he⟩
  · rw [he]
    rcases h with h | ⟨hon, hmem, hreset⟩
    · exact h
    · rcases hskip with hoff | hmem' | hno
      · exact absurd hoff hon
      · exact absurd hmem hmem'
      · rw [hreset] at hno
        cases hno
  · rw [he]
    exact holds_reset s a
  · rw [he]
    exact holds_replay s a _

theorem Sound.baselines {s : TranscriptFanout A} (h : s.Sound)
    {agents : List A} (hnodup : agents.Nodup) (hcursor : ∀ a ∈ agents, CursorHeld call s a) :
    (agents.foldl (TranscriptFanout.sendBaseline call) s).Sound ∧
      Sends s (agents.foldl (TranscriptFanout.sendBaseline call) s) ∧
      ∀ a, s.Holds a ∨ (a ∈ agents ∧ s.grade a ≠ .off ∧ a ∈ s.transcripts ∧
          needsResetOnTransition (gradeFor call.prev a) (s.grade a) = true) →
        (agents.foldl (TranscriptFanout.sendBaseline call) s).Holds a := by
  induction agents generalizing s with
  | nil =>
    refine ⟨h, ⟨s.received, s.owed, rfl⟩, ?_⟩
    rintro a (ha | ⟨ha, -⟩)
    · exact ha
    · cases ha
  | cons b agents ih =>
    obtain ⟨hb, hnodup⟩ := nodup_cons.mp hnodup
    obtain ⟨hfirst, hrest⟩ := forall_mem_cons.mp hcursor
    have hne : ∀ a ∈ agents, b ≠ a := by
      rintro a ha rfl
      exact hb ha
    have hnext : ∀ a ∈ agents, CursorHeld call (TranscriptFanout.sendBaseline call s b) a := by
      intro a ha hon since hsince hcomplete
      have hother := untouched_sendBaseline (hne a ha) call s
      obtain ⟨received, owed, he⟩ := sends_sendBaseline call s b
      rw [hother.position]
      rw [he] at hon hcomplete
      exact hrest a ha hon since hsince hcomplete
    obtain ⟨hsound, ⟨received', owed', he'⟩, hholds⟩ := ih (h.sendBaseline hfirst) hnodup hnext
    obtain ⟨received, owed, he⟩ := sends_sendBaseline call s b
    rw [foldl_cons]
    refine ⟨hsound, ⟨received', owed', ?_⟩, ?_⟩
    · rw [he', he]
    · intro a ha
      apply hholds
      by_cases hab : b = a
      · subst hab
        left
        apply holds_sendBaseline
        rcases ha with ha | ⟨-, ha⟩
        · exact .inl ha
        · exact .inr ha
      · rcases ha with ha | ⟨hmem, ha⟩
        · exact .inl ((untouched_sendBaseline hab call s).holds_iff.mpr ha)
        · right
          rw [he]
          exact ⟨(mem_cons.mp hmem).resolve_left (Ne.symm hab), ha⟩

omit [DecidableEq A] in
theorem needsReset_of_off {grade : TranscriptGrade} (h : grade ≠ .off) :
    needsResetOnTransition .off grade = true := by
  cases grade with
  | off => exact absurd rfl h
  | turn => rfl
  | block => rfl
  | delta => rfl

theorem grade_detachGrades {spec next : AgentRecord A TranscriptGrade}
    (h : detachGrades spec agentIds = some next) (a : A) :
    gradeFor (some next) a = gradeFor (some spec) a ∨ gradeFor (some next) a = .off := by
  obtain rfl := some.inj (ite_none_right_eq_some.mp h).2
  refine fold_invariant (I := fun next : AgentRecord A TranscriptGrade =>
    gradeFor (some next) a = gradeFor (some spec) a ∨ gradeFor (some next) a = .off) ?_ (.inl rfl) _
  intro next agentId hnext
  cases agentId with
  | none =>
    change ((next.agents.get a).or none).getD .off = _ ∨ ((next.agents.get a).or none).getD .off = _
    change ((next.agents.get a).or next.wildcard).getD .off = _ ∨
      ((next.agents.get a).or next.wildcard).getD .off = _ at hnext
    cases hget : next.agents.get a with
    | none => exact .inr rfl
    | some grade =>
      rw [hget] at hnext
      exact hnext
  | some b =>
    change (((next.agents.set b .off).get a).or next.wildcard).getD .off = _ ∨
      (((next.agents.set b .off).get a).or next.wildcard).getD .off = _
    rw [JsMap.get_set]
    split
    · exact .inr rfl
    · exact hnext

/-! Every event keeps what the agents are held to. -/

/-- A baseline is on the way to each agent whose stream the connection does not have. -/
structure Inv (s : TranscriptFanout A) : Prop where
  sound : s.Sound
  held : ∀ a, s.grade a ≠ .off → s.Holds a ∨ s.deferredSeed.isSome = true ∨ s.Awaits a (s.grade a)

theorem Inv.start : ({} : TranscriptFanout A).Inv := ⟨Sound.start, fun _ h => absurd rfl h⟩

section

variable {s : TranscriptFanout A}

theorem holds_dispatch_of_ne (h : b ≠ a) (ops : List OpClass) : (s.dispatchOps b ops).Holds a ↔ s.Holds a := by
  rw [Holds, Holds, dispatchOps_received, streamOf_opsFrames_of_ne h]
  rw [show (s.dispatchOps b ops).owed a = s.owed a from if_neg (Ne.symm h)]

theorem holds_dispatch (h : s.Holds a) (hsent : filterOpsForGrade (s.grade a) ops = [] ∨ s.isOpen = true) :
    (s.dispatchOps a ops).Holds a := by
  have hlive : s.liveBatch a ops = s.filteredBatch a ⟨((s.opsJournals.get a).getD {}).nextSeq, ops⟩ := by
    rw [liveBatch]
    rcases hsent with hnone | hopen
    · rw [filteredBatch, if_pos hnone, ite_self]
    · rw [if_pos hopen]
  have howed : (s.dispatchOps a ops).owed a = (s.owed a).map
      (· ++ s.filteredBatch a ⟨((s.opsJournals.get a).getD {}).nextSeq, ops⟩) := if_pos rfl
  rw [Holds, howed, dispatchOps_received, streamOf_opsFrames_self, h, hlive]
  rfl

theorem Inv.dispatch (h : s.Inv) (hmeets : s.Meets (.dispatch a ops)) : (s.dispatchOps a ops).Inv := by
  refine ⟨h.sound.dispatch a ops, ?_⟩
  intro b hb
  rcases h.held b hb with hholds | hwaits
  · by_cases he : a = b
    · subst he
      by_cases hnone : filterOpsForGrade (s.grade a) ops = []
      · exact .inl (holds_dispatch hholds (.inl hnone))
      · rcases hmeets hnone with hopen | hwaits
        · exact .inl (holds_dispatch hholds (.inr hopen))
        · exact .inr hwaits
    · exact .inl ((holds_dispatch_of_ne he ops).mpr hholds)
  · exact .inr hwaits

theorem Sound.known (h : s.Sound) {known roster transcripts : List A}
    {attached : Bool} (hroster : roster.Nodup) (htranscripts : ∀ a ∈ s.transcripts, a ∈ transcripts) :
    ({ s with
      roster := roster
      transcripts := transcripts
      attached := attached
      knownAgents := known } : TranscriptFanout A).Sound :=
  { h with transcribed := fun a ha => htranscripts a (h.transcribed a ha), roster := hroster }

end

theorem nodup_insert_end (h : xs.Nodup) (a : A) : (if a ∈ xs then xs else xs ++ [a]).Nodup := by
  split
  · exact h
  · next ha => exact nodup_append.mpr ⟨h, nodup_singleton a, by
      rintro x hx y hy rfl
      obtain rfl := mem_singleton.mp hy
      exact ha hx⟩

section

variable {s : TranscriptFanout A}

theorem Inv.reset (h : s.Inv) (a : A) : (s.sendTranscriptReset a).Inv := by
  refine ⟨h.sound.reset a, ?_⟩
  intro b hb
  by_cases he : a = b
  · subst he
    exact .inl (holds_reset s a)
  · exact (h.held b hb).imp_left (untouched_reset he s).holds_iff.mpr

theorem Inv.describe (h : s.Inv) (a : A) : (s.describeAgent a).Inv := by
  have hroster := nodup_insert_end h.sound.roster a
  rw [describeAgent]
  generalize (if a ∈ s.roster then s.roster else s.roster ++ [a]) = roster at hroster
  have hknown : ∀ known : List A, ({ s with
      roster := roster
      knownAgents := known } : TranscriptFanout A).Inv :=
    fun _ => ⟨h.sound.known hroster fun _ => id, h.held⟩
  dsimp only
  split
  · split
    · exact (hknown (s.knownAgents ++ [a])).reset a
    · exact hknown (s.knownAgents ++ [a])
  · exact hknown s.knownAgents

theorem Inv.attach (h : s.Inv) : s.ensureTranscriptStream.Inv := by
  rw [ensureTranscriptStream]
  split
  · exact h
  · refine ⟨?_, h.held⟩
    exact h.sound.known h.sound.roster fun _ => id

theorem Sound.session (h : s.Sound) (target : Option (Option (AgentRecord A TranscriptGrade))) (seeded : Bool)
    (deferred : Option (DeferredSeed A)) (calls : List (SubscribeCall A)) :
    ({ s with
      target := target
      transcriptSeeded := seeded
      deferredSeed := deferred
      calls := calls } : TranscriptFanout A).Sound :=
  { h with }

theorem holds_setTarget (hkept : needsResetOnTransition (s.grade a) (gradeFor spec a) = false) :
    (s.setTarget spec).Holds a ↔ s.Holds a := by
  have howed : (s.setTarget spec).owed a = s.owed a := if_neg (Bool.eq_false_iff.mp hkept)
  rw [Holds, howed]
  rfl

theorem Awaits.append {grade : TranscriptGrade} (h : s.Awaits a grade)
    (calls : List (SubscribeCall A)) : ({ s with calls := s.calls ++ calls } : TranscriptFanout A).Awaits a grade := by
  obtain ⟨call, hcall, hreset⟩ := h
  exact ⟨call, mem_append_left _ hcall, hreset⟩

theorem Inv.subscribe (h : s.Inv)
    (hmeets : s.Meets (.subscribe spec deferred since)) : (s.subscribe spec deferred since).Inv := by
  have hsound := h.sound.setTarget spec
  cases spec with
  | none => exact ⟨hsound, fun _ hoff => absurd rfl hoff⟩
  | some spec =>
    cases deferred with
    | true => exact ⟨hsound.session _ _ _ _, fun _ _ => .inr (.inl rfl)⟩
    | false =>
      refine ⟨hsound.session _ _ _ _, ?_⟩
      intro a ha
      by_cases hreset : needsResetOnTransition (s.grade a) (gradeFor (some spec) a) = true
      · -- the call itself owes the reset
        have hcall : SubscribeCall.mk s.target.join since true ∈ s.calls ++ [⟨s.target.join, since, true⟩] :=
          mem_concat_self
        exact .inr (.inr ⟨_, hcall, rfl, hreset⟩)
      have hkept := Bool.eq_false_iff.mpr hreset
      by_cases hmem : a ∈ s.opsJournals.keys
      · rcases hmeets a hmem ha with hreset' | hwaits | ⟨hnone, hwaits⟩
        · exact absurd hreset' hreset
        · exact .inr (.inr (hwaits.append _))
        · -- nothing was due, so the stream is held
          have hon : s.grade a ≠ .off := by
            intro hoff
            rw [hoff] at hreset
            exact hreset (needsReset_of_off ha)
          have hholds := (h.held a hon).resolve_right (by
            rintro (hdeferred | hwaits')
            · rw [isNone_iff_eq_none.mp hnone] at hdeferred
              cases hdeferred
            · exact hwaits hwaits')
          exact .inl ((holds_setTarget hkept).mpr hholds)
      · left
        exact (hsound.session _ _ _ _).holds_of_fresh ((JsMap.get_eq_none_iff ..).mpr hmem)

theorem Inv.flush (h : s.Inv) (seed : DeferredSeed A) :
    ({ s with
      deferredSeed := none
      calls := s.calls ++ [{ prev := none, transcriptSince := seed.transcriptSince }] } :
        TranscriptFanout A).Inv := by
  refine ⟨h.sound.session _ _ _ _, ?_⟩
  intro a ha
  have hcall : SubscribeCall.mk none seed.transcriptSince true ∈
      s.calls ++ [⟨none, seed.transcriptSince, true⟩] :=
    mem_concat_self
  exact .inr (.inr ⟨_, hcall, rfl, needsReset_of_off ha⟩)

/-- A call that has sent its baselines is not awaited any more, but others are. -/
theorem Awaits.loaded {grade : TranscriptGrade} (h : s.Awaits a grade) (hcall : s.calls[i]? = some call) :
    needsResetOnTransition (gradeFor call.prev a) grade = true ∨
      ({ s with calls := s.calls.set i { call with loading := false } } : TranscriptFanout A).Awaits a
        grade := by
  obtain ⟨call', hmem, hloading, hreset⟩ := h
  obtain ⟨j, hj⟩ := mem_iff_getElem?.mp hmem
  by_cases he : i = j
  · subst he
    obtain rfl := mem_unique hcall hj
    exact .inl hreset
  · right
    refine ⟨call', mem_iff_getElem?.mpr ⟨j, ?_⟩, hloading, hreset⟩
    exact (getElem?_set_ne he).trans hj

/-- The agents on the roster get their baselines, and nothing is missed by the others. -/
theorem Inv.loaded (h : s.Inv) (hcall : s.calls[i]? = some call) (hmeets : s.Meets (.loaded i)) :
    ({ s.sendBaselines call with calls := s.calls.set i { call with loading := false } } :
      TranscriptFanout A).Inv := by
  obtain ⟨hroster, hcursor⟩ := hmeets call hcall
  rw [sendBaselines]
  by_cases hnone : s.target.join.isNone = true
  · rw [if_pos hnone]
    refine ⟨h.sound.session _ _ _ _, ?_⟩
    intro a ha
    change gradeFor s.target.join a ≠ .off at ha
    rw [isNone_iff_eq_none.mp hnone] at ha
    exact absurd rfl ha
  · rw [if_neg hnone]
    have hattached : ∃ attached known, s.ensureTranscriptStream =
        { s with
          attached := attached
          knownAgents := known } := by
      rw [ensureTranscriptStream]
      split
      · exact ⟨s.attached, s.knownAgents, rfl⟩
      · exact ⟨true, s.roster, rfl⟩
    obtain ⟨attached, known, he⟩ := hattached
    have hsound := h.attach.sound
    rw [he] at hsound ⊢
    obtain ⟨hsound', ⟨received, owed, hsends⟩, hholds⟩ := hsound.baselines h.sound.roster hcursor
    rw [hsends] at hsound' hholds ⊢
    refine ⟨hsound'.session _ _ _ _, ?_⟩
    intro a ha
    rcases h.held a ha with hheld | hdeferred | hwaits
    · exact .inl (hholds a (.inl hheld))
    · exact .inr (.inl hdeferred)
    · rcases hwaits.loaded hcall with hreset | hwaits
      · by_cases hmem : a ∈ s.opsJournals.keys
        · rcases hroster a hmem hreset with hdeferred | hroster
          · exact .inr (.inl hdeferred)
          · have htranscript := h.sound.transcribed a (by
              intro hget
              exact (JsMap.get_eq_none_iff ..).mp hget hmem)
            exact .inl (hholds a (.inr ⟨hroster, ha, htranscript, hreset⟩))
        · left
          exact hholds a (.inl (h.sound.holds_of_fresh ((JsMap.get_eq_none_iff ..).mpr hmem)))
      · exact .inr (.inr hwaits)

/-- A call that is done has sent its baselines. -/
theorem Inv.opened (h : s.Inv) (hcall : s.calls[i]? = some call) (hloading : call.loading = false) (seeded : Bool) :
    ({ s with
      calls := s.calls.eraseIdx i
      transcriptSeeded := seeded } : TranscriptFanout A).Inv := by
  refine ⟨h.sound.session _ _ _ _, ?_⟩
  intro a ha
  refine (h.held a ha).imp_right (.imp_right ?_)
  rintro ⟨call', hmem, hloading', hreset⟩
  refine ⟨call', ?_, hloading', hreset⟩
  obtain ⟨j, hj⟩ := mem_iff_getElem?.mp hmem
  refine mem_eraseIdx_iff_getElem?.mpr ⟨j, ?_, hj⟩
  rintro rfl
  obtain rfl := mem_unique hcall hj
  rw [hloading] at hloading'
  cases hloading'

theorem inv_of_off (h : s.Sound) (hoff : s.target.join = none) : s.Inv := by
  refine ⟨h, ?_⟩
  intro a ha
  rw [grade, hoff] at ha
  exact absurd rfl ha

theorem Inv.unsubscribeTranscript (h : s.Inv)
    (agentIds : Option (List (Option A))) : (s.unsubscribeTranscript agentIds).Inv := by
  rw [TranscriptFanout.unsubscribeTranscript]
  cases htarget : s.target with
  | none => exact h
  | some spec =>
    dsimp only
    cases hnext : agentIds.bind fun agentIds => spec.bind fun spec => detachGrades spec agentIds with
    | none => exact inv_of_off ((h.sound.setTarget none).session _ _ _ _) rfl
    | some next =>
      obtain ⟨agentIds, rfl, hspec⟩ := bind_eq_some_iff.mp hnext
      obtain ⟨spec, rfl, hdetach⟩ := bind_eq_some_iff.mp hspec
      refine ⟨h.sound.setTarget (some next), ?_⟩
      intro a ha
      have hgrade : gradeFor (some next) a = s.grade a := by
        rw [grade, htarget]
        exact (grade_detachGrades hdetach a).resolve_right ha
      have hkept : needsResetOnTransition (s.grade a) (gradeFor (some next) a) = false := by
        rw [hgrade]
        exact decide_eq_false (Nat.lt_irrefl _)
      have hon : s.grade a ≠ .off := by
        rw [← hgrade]
        exact ha
      rcases h.held a hon with hholds | hwaits
      · exact .inl ((holds_setTarget hkept).mpr hholds)
      · right
        change s.deferredSeed.isSome = true ∨ s.Awaits a (gradeFor (some next) a)
        rw [hgrade]
        exact hwaits

end

theorem Inv.step {s s' : TranscriptFanout A} (h : s.Inv) (hmeets : s.Meets e)
    (hstep : s.step e = some s') : s'.Inv := by
  cases e with
  | describe agentId =>
    cases hstep
    exact h.describe agentId
  | ensureAgent agentId =>
    cases hstep
    refine ⟨h.sound.known h.sound.roster ?_, h.held⟩
    intro a ha
    split
    · exact ha
    · exact mem_append_left _ ha
  | dispatch agentId ops =>
    cases hstep
    exact h.dispatch hmeets
  | attach =>
    cases hstep
    exact h.attach
  | subscribe spec deferred transcriptSince =>
    cases hstep
    exact h.subscribe hmeets
  | flushTranscriptSeed =>
    obtain ⟨seed, -, rfl⟩ := map_eq_some_iff.mp hstep
    exact h.flush seed
  | loaded i =>
    obtain ⟨call, hcall, hstep⟩ := bind_eq_some_iff.mp hstep
    obtain rfl := some.inj (ite_none_right_eq_some.mp hstep).2
    exact h.loaded hcall hmeets
  | opened i =>
    obtain ⟨call, hcall, hstep⟩ := bind_eq_some_iff.mp hstep
    obtain ⟨hloading, hstep⟩ := ite_none_left_eq_some.mp hstep
    cases hstep
    exact h.opened hcall (Bool.eq_false_iff.mpr hloading) _
  | unsubscribe =>
    cases hstep
    exact inv_of_off (h.sound.session ..) rfl
  | unsubscribeTranscript agentIds =>
    cases hstep
    exact h.unsubscribeTranscript agentIds

theorem Inv.delivered {s : TranscriptFanout A} (h : s.Inv) : s.Delivered := by
  refine ⟨?_, h.sound.noRepeat⟩
  intro hdeferred hcalls a ha
  refine (h.held a ha).resolve_right ?_
  rintro (hsome | ⟨call, hmem, -⟩)
  · rw [hdeferred] at hsome
    cases hsome
  · rw [hcalls] at hmem
    cases hmem

theorem run_delivered {s : TranscriptFanout A} {events : List (FanoutEvent A)}
    (hmeets : AlongRun step Meets {} events) (hrun : events.foldlM step {} = some s) : s.Delivered :=
  (hmeets.invariant (fun _ _ _ h hm hs => h.step hm hs) Inv.start hrun).delivered

instance decidable_holds (s : TranscriptFanout A) (a : A) : Decidable (s.Holds a) :=
  inferInstanceAs (Decidable (s.owed a = some (streamOf a s.received)))

instance decidable_awaits (s : TranscriptFanout A) (a : A) (grade : TranscriptGrade) : Decidable (s.Awaits a grade) :=
  inferInstanceAs (Decidable (∃ call ∈ s.calls,
    call.loading = true ∧ needsResetOnTransition (gradeFor call.prev a) grade = true))

instance decidable_cursorHeld (call : SubscribeCall A) (s : TranscriptFanout A) (a : A) :
    Decidable (CursorHeld call s a) :=
  inferInstanceAs (Decidable (s.grade a ≠ .off → ∀ since ∈ call.transcriptSince.lookup a,
    (AgentOpsJournal.opsSince (s.opsJournals.get a) since).complete = true → position a s.received ≤ since))

instance decidable_meets (s : TranscriptFanout A) : ∀ e, Decidable (s.Meets e)
  | .dispatch a ops => inferInstanceAs (Decidable (filterOpsForGrade (s.grade a) ops ≠ [] →
      s.isOpen = true ∨ s.deferredSeed.isSome = true ∨ s.Awaits a (s.grade a)))
  | .subscribe (some spec) false _ => inferInstanceAs (Decidable (∀ a ∈ s.opsJournals.keys,
      gradeFor (some spec) a ≠ .off → needsResetOnTransition (s.grade a) (gradeFor (some spec) a) = true ∨
          s.Awaits a (gradeFor (some spec) a) ∨
          (s.deferredSeed.isNone = true ∧ ¬ s.Awaits a (s.grade a))))
  | .loaded i => inferInstanceAs (Decidable (∀ call ∈ s.calls[i]?,
      (∀ a ∈ s.opsJournals.keys, needsResetOnTransition (gradeFor call.prev a) (s.grade a) = true →
        s.deferredSeed.isSome = true ∨ a ∈ s.roster) ∧
      ∀ a ∈ s.roster, CursorHeld call s a))
  | .subscribe none _ _ | .subscribe (some _) true _ | .describe _ | .ensureAgent _ | .attach
  | .flushTranscriptSeed | .opened _ | .unsubscribe | .unsubscribeTranscript _ => isTrue trivial

def delta (agents : List Nat) : Option (AgentRecord Nat TranscriptGrade) :=
  some { agents := agents.foldl (fun m a => m.set a .delta) .empty }

def firstSubscribed : List (FanoutEvent Nat) :=
  [.describe 0, .ensureAgent 0, .describe 1, .ensureAgent 1, .subscribe (delta [0]) false {},
    .loaded 0, .opened 0, .dispatch 0 [.append]]

/-- The connection takes the second agent as well, in a subscription that puts its baselines off. -/
def secondDeferred : List (FanoutEvent Nat) :=
  firstSubscribed ++ [.subscribe (delta [0, 1]) true {}, .dispatch 0 [.append], .flushTranscriptSeed,
    .loaded 0, .opened 0, .dispatch 0 [.append], .dispatch 1 [.other]]

theorem run_delivered_secondDeferred : ∃ s, secondDeferred.foldlM step {} = some s ∧ s.Delivered := by
  obtain ⟨s, hrun⟩ := isSome_iff_exists.mp
    (show (secondDeferred.foldlM step {}).isSome = true by decide +kernel)
  exact ⟨s, hrun, run_delivered (by decide +kernel) hrun⟩

/-- The connection takes the second agent as well, and the first one does something while the
histories load. -/
def secondSubscribed : List (FanoutEvent Nat) :=
  firstSubscribed ++ [.subscribe (delta [0, 1]) false {}, .dispatch 0 [.append], .loaded 0, .opened 0]

/-- The gate is closed for both agents, and only the second one gets a reset. -/
theorem secondSubscribed_notDelivered : ∃ s, secondSubscribed.foldlM step {} = some s ∧ ¬ s.Delivered := by
  have hrun : (secondSubscribed.foldlM step ({} : TranscriptFanout Nat)).any (fun s =>
      s.deferredSeed.isNone && s.calls.isEmpty && decide (s.grade 0 ≠ .off ∧ ¬ s.Holds 0)) = true := by
    decide +kernel
  obtain ⟨s, hs, hfacts⟩ := (Option.any_eq_true ..).mp hrun
  rw [Bool.and_eq_true, Bool.and_eq_true, isNone_iff_eq_none, List.isEmpty_iff, decide_eq_true_iff] at hfacts
  obtain ⟨⟨hdeferred, hcalls⟩, hgrade, hmissing⟩ := hfacts
  exact ⟨s, hs, fun hdelivered => hmissing (hdelivered.complete hdeferred hcalls 0 hgrade)⟩

end TranscriptFanout
end Echadron.Server
