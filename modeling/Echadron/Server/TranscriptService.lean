import Echadron.Lib.JsMap

namespace Echadron.Server
open Lib List Option

/-! The live transcripts of the server and the journals of their op batches. -/

/-- An append whose offset is not where the text ends. -/
structure Gap where
  expected : Nat
  got : Nat
deriving DecidableEq

structure ApplyResult (State : Type) where
  state : State
  changed : Bool
  gap : Option Gap := none

/-- The reducer of a transcript. Nothing is assumed of it. -/
structure Reducer (State Op : Type) where
  emptyState : State
  applyOperation : State → Op → ApplyResult State

structure AppliedOps (State Op : Type) where
  state : State
  accepted : List Op := []
  gap : Option Gap := none

namespace Reducer

variable (r : Reducer State Op)

def applyNext (applied : AppliedOps State Op) (op : Op) : AppliedOps State Op :=
  let result := r.applyOperation applied.state op
  if result.gap.isSome then { applied with gap := result.gap }
  else if result.changed then
    { applied with
      state := result.state
      accepted := applied.accepted ++ [op] }
  else applied

def apply (state : State) (ops : List Op) : AppliedOps State Op := ops.foldl r.applyNext { state := state }

/-- What a client makes of batches that it is sent. -/
def replay (state : State) (batches : List (List Op)) : State :=
  batches.foldl (fun state ops => (r.apply state ops).state) state

theorem replay_append (state : State) (xs ys : List (List Op)) :
    r.replay state (xs ++ ys) = r.replay (r.replay state xs) ys :=
  foldl_append

end Reducer

structure OpsBatch (Op : Type) where
  seq : Nat
  ops : List Op
deriving DecidableEq

structure AgentOpsJournal (Op : Type) where
  nextSeq : Nat := 1
  batches : List (OpsBatch Op) := []
deriving DecidableEq

def transcriptOpsJournalCapacity : Nat := 2000

structure TranscriptOpsCatchup (Op : Type) where
  batches : List (OpsBatch Op)
  latestSeq : Nat
  complete : Bool
deriving DecidableEq

namespace AgentOpsJournal

/-- A batch takes the next number; the oldest one goes when there are too many. -/
def push (journal : AgentOpsJournal Op) (ops : List Op) : AgentOpsJournal Op :=
  let batches := journal.batches ++ [⟨journal.nextSeq, ops⟩]
  { nextSeq := journal.nextSeq + 1
    batches := if batches.length > transcriptOpsJournalCapacity then batches.tail else batches }

def watermark : Option (AgentOpsJournal Op) → Nat
  | none => 0
  | some journal => journal.nextSeq - 1

def retained : Option (AgentOpsJournal Op) → List (OpsBatch Op)
  | none => []
  | some journal => journal.batches

def opsSince (journal : Option (AgentOpsJournal Op)) (sinceSeq : Nat) : TranscriptOpsCatchup Op :=
  if sinceSeq > watermark journal then
    { batches := [], latestSeq := watermark journal, complete := false }
  else
    let batches := (retained journal).filter fun batch => batch.seq > sinceSeq
    { batches := batches
      latestSeq := watermark journal
      complete := batches.isEmpty ||
        ((retained journal).head?.any fun oldest => oldest.seq ≤ sinceSeq + 1) }

end AgentOpsJournal

structure LiveEntry (A Op : Type) where
  /-- The store, by its place in the list of all stores. -/
  store : Nat
  opsJournals : JsMap A (AgentOpsJournal Op) := .empty

structure TranscriptStore (S A State : Type) where
  sessionId : S
  agents : JsMap A State := .empty

/-- What a client holds: a sequence number, and its state of the agent's transcript. The service
does not see `store`, the one that the state came from. -/
structure Cursor (S A State : Type) where
  sessionId : S
  agentId : A
  seq : Nat
  state : State
  store : Nat
deriving DecidableEq

structure TranscriptService (S A State Op : Type) where
  /-- The sessions in memory. -/
  sessions : List S := []
  stores : List (TranscriptStore S A State) := []
  live : JsMap S (LiveEntry A Op) := .empty
  /-- The cursors that clients have been given. -/
  obtained : List (Cursor S A State) := []

inductive TranscriptEvent (S A State Op : Type) where
  | openSession (sessionId : S)
  /-- A session leaves the memory without the event that drops its entry. -/
  | vanish (sessionId : S)
  | dropSession (sessionId : S)
  | forSessionLive (sessionId : S)
  /-- The binding maps an event of the session to operations. -/
  | applyOps (sessionId : S) (agentId : A) (ops : List Op)
  /-- A backfill or a heal puts persisted operations into the store. -/
  | restoreOps (sessionId : S) (agentId : A) (ops : List Op)
  /-- A reset or a full read of a store that was found earlier. -/
  | read (store : Nat) (agentId : A)
  | getOpsSince (cursor : Cursor S A State)

namespace TranscriptService

variable [DecidableEq S] [DecidableEq A] (r : Reducer State Op)

section

variable (s : TranscriptService S A State Op)

def dropSession (sessionId : S) : TranscriptService S A State Op := { s with live := s.live.delete sessionId }

def forSessionLive (sessionId : S) : TranscriptService S A State Op × Option Nat :=
  match s.live.get sessionId with
  | some entry => if sessionId ∈ s.sessions then (s, some entry.store) else (s.dropSession sessionId, none)
  | none =>
    if sessionId ∈ s.sessions then
      ({ s with
          stores := s.stores ++ [{ sessionId := sessionId }]
          live := s.live.set sessionId { store := s.stores.length } }, some s.stores.length)
    else (s, none)

def transcript (store : Nat) (agentId : A) : State :=
  ((s.stores[store]?.bind fun st => st.agents.get agentId)).getD r.emptyState

def setTranscript (store : Nat) (agentId : A) (state : State) : TranscriptService S A State Op :=
  { s with stores := s.stores.modify store fun st => { st with agents := st.agents.set agentId state } }

def journal (sessionId : S) (agentId : A) : Option (AgentOpsJournal Op) :=
  (s.live.get sessionId).bind fun entry => entry.opsJournals.get agentId

end

/-- A client that has the batch before this one applies it. -/
def follow (c : Cursor S A State) (sessionId : S) (agentId : A) (seq : Nat) (ops : List Op) :
    Option (Cursor S A State) :=
  if c.sessionId = sessionId ∧ c.agentId = agentId ∧ c.seq + 1 = seq then
    some { c with
      seq := seq
      state := (r.apply c.state ops).state }
  else none

/-- Journal a batch, then fan it out. -/
def dispatchOps (s : TranscriptService S A State Op) (sessionId : S) (entry : LiveEntry A Op)
    (agentId : A) (ops : List Op) : TranscriptService S A State Op :=
  let journal := (entry.opsJournals.get agentId).getD {}
  { s with
    live := s.live.set sessionId
      { entry with opsJournals := entry.opsJournals.set agentId (journal.push ops) }
    obtained := s.obtained ++
      s.obtained.filterMap fun c => follow r c sessionId agentId journal.nextSeq ops }

def getOpsSince (s : TranscriptService S A State Op) (sessionId : S) (agentId : A) (sinceSeq : Nat) :
    TranscriptService S A State Op × Option (TranscriptOpsCatchup Op) :=
  match s.forSessionLive sessionId with
  | (s, none) => (s, none)
  | (s, some _) => (s, some (AgentOpsJournal.opsSince (s.journal sessionId agentId) sinceSeq))

def caughtUp (c : Cursor S A State) (catchup : TranscriptOpsCatchup Op) : State :=
  r.replay c.state (catchup.batches.map OpsBatch.ops)

def step [DecidableEq State] (s : TranscriptService S A State Op) :
    TranscriptEvent S A State Op → Option (TranscriptService S A State Op)
  | .openSession sessionId => some { s with sessions := sessionId :: s.sessions }
  | .vanish sessionId => some { s with sessions := s.sessions.filter (· ≠ sessionId) }
  | .dropSession sessionId => some (s.dropSession sessionId)
  | .forSessionLive sessionId => some (s.forSessionLive sessionId).1
  | .applyOps sessionId agentId ops =>
    (s.live.get sessionId).map fun entry =>
      if ops = [] then s
      else
        let result := r.apply (s.transcript r entry.store agentId) ops
        let s := s.setTranscript entry.store agentId result.state
        -- a batch with a gap does not reach the wire
        if result.gap.isSome then s else s.dispatchOps r sessionId entry agentId ops
  | .restoreOps sessionId agentId ops =>
    (s.live.get sessionId).map fun entry =>
      let result := r.apply (s.transcript r entry.store agentId) ops
      (s.setTranscript entry.store agentId result.state).dispatchOps r sessionId entry agentId ops
  | .read store agentId =>
    s.stores[store]?.map fun st =>
      { s with
        obtained := s.obtained ++ [
          { sessionId := st.sessionId
            agentId := agentId
            seq := AgentOpsJournal.watermark (s.journal st.sessionId agentId)
            state := s.transcript r store agentId
            store := store }] }
  | .getOpsSince c =>
    if c ∈ s.obtained then
      match s.getOpsSince c.sessionId c.agentId c.seq with
      | (s, some catchup) =>
        if catchup.complete then
          some { s with
            obtained := s.obtained ++
              [{ c with
                seq := catchup.latestSeq
                state := caughtUp r c catchup }] }
        else some s
      | (s, none) => some s
    else none

end TranscriptService

/-! The numbers of a journal, and what its batches make of a client's state. -/

namespace AgentOpsJournal

/-- The batches are numbered in order, the last one just below the next number. -/
structure Consecutive (j : AgentOpsJournal Op) : Prop where
  length_lt : j.batches.length < j.nextSeq
  seqs : j.batches.map OpsBatch.seq = List.range' (j.nextSeq - j.batches.length) j.batches.length
  start : j.batches = [] → j.nextSeq = 1

theorem consecutive_empty : ({} : AgentOpsJournal Op).Consecutive := ⟨Nat.zero_lt_one, rfl, fun _ => rfl⟩

theorem push_of_le {j : AgentOpsJournal Op} (h : j.batches.length < transcriptOpsJournalCapacity) (ops : List Op) :
    j.push ops = { nextSeq := j.nextSeq + 1, batches := j.batches ++ [⟨j.nextSeq, ops⟩] } := by
  rw [push, if_neg]
  rw [length_append, length_singleton]
  omega

theorem push_of_full {j : AgentOpsJournal Op} (hj : j.batches = oldest :: rest)
    (h : transcriptOpsJournalCapacity ≤ j.batches.length) (ops : List Op) :
    j.push ops = { nextSeq := j.nextSeq + 1, batches := rest ++ [⟨j.nextSeq, ops⟩] } := by
  rw [push, if_pos]
  · rw [hj]
    rfl
  · rw [length_append, length_singleton]
    omega

theorem push_cases (j : AgentOpsJournal Op) (ops : List Op) :
    j.push ops = { nextSeq := j.nextSeq + 1, batches := j.batches ++ [⟨j.nextSeq, ops⟩] } ∨
    ∃ oldest rest, j.batches = oldest :: rest ∧
      j.push ops = { nextSeq := j.nextSeq + 1, batches := rest ++ [⟨j.nextSeq, ops⟩] } := by
  rcases Nat.lt_or_ge j.batches.length transcriptOpsJournalCapacity with h | h
  · exact .inl (push_of_le h ops)
  · cases hj : j.batches with
    | nil =>
      rw [hj] at h
      cases h
    | cons oldest rest => exact .inr ⟨oldest, rest, rfl, push_of_full hj h ops⟩

theorem Consecutive.head {j : AgentOpsJournal Op} (h : j.Consecutive) (hj : j.batches = oldest :: rest) :
    oldest.seq = j.nextSeq - j.batches.length ∧
      rest.map OpsBatch.seq = range' (oldest.seq + 1) rest.length := by
  have hseqs := h.seqs
  rw [hj] at hseqs
  obtain ⟨holdest, hrest⟩ := cons.inj hseqs
  rw [hj, holdest]
  exact ⟨rfl, hrest⟩

theorem Consecutive.push {j : AgentOpsJournal Op} (h : j.Consecutive) (ops : List Op) : (j.push ops).Consecutive := by
  have hlt := h.length_lt
  rcases push_cases j ops with hpush | ⟨oldest, rest, hj, hpush⟩
  · rw [hpush]
    constructor
    · rw [length_append, length_singleton]
      dsimp only
      omega
    · rw [map_append, h.seqs, length_append, length_singleton, Nat.add_sub_add_right,
        range'_concat, Nat.one_mul, Nat.sub_add_cancel (Nat.le_of_lt hlt)]
      rfl
    · exact fun he => absurd he (append_ne_nil_of_right_ne_nil _ (cons_ne_nil _ _))
  · obtain ⟨holdest, hrest⟩ := h.head hj
    rw [hj, length_cons] at hlt holdest
    rw [hpush]
    constructor
    · rw [length_append, length_singleton]
      dsimp only
      omega
    · rw [map_append, hrest, length_append, length_singleton, Nat.add_sub_add_right, range'_concat, Nat.one_mul]
      have hfirst : oldest.seq + 1 = j.nextSeq - rest.length := by omega
      rw [hfirst, Nat.sub_add_cancel (by omega)]
      rfl
    · exact fun he => absurd he (append_ne_nil_of_right_ne_nil _ (cons_ne_nil _ _))

theorem opsSince_of_le {journal : Option (AgentOpsJournal Op)} (h : n ≤ watermark journal) : opsSince journal n =
      { batches := (retained journal).filter fun batch => batch.seq > n
        latestSeq := watermark journal
        complete := ((retained journal).filter fun batch => batch.seq > n).isEmpty ||
          ((retained journal).head?.any fun oldest => oldest.seq ≤ n + 1) } :=
  if_neg (Nat.not_lt.mpr h)

theorem Consecutive.complete_iff {j : AgentOpsJournal Op} (h : j.Consecutive) (hn : n ≤ watermark (some j)) :
    (opsSince (some j) n).complete = true ↔ j.nextSeq - j.batches.length ≤ n + 1 := by
  rw [opsSince_of_le hn, Bool.or_eq_true, List.isEmpty_iff, filter_eq_nil_iff]
  change (∀ batch ∈ j.batches, _) ∨ j.batches.head?.any _ = true ↔ _
  cases hj : j.batches with
  | nil =>
    rw [h.start hj]
    exact iff_of_true (.inl nofun) (Nat.le_add_left ..)
  | cons oldest rest =>
    obtain ⟨holdest, -⟩ := h.head hj
    rw [hj] at holdest
    rw [← holdest, head?_cons, any_some, decide_eq_true_iff]
    constructor
    · rintro (hall | hle)
      · have hoff := hall oldest (mem_cons_self ..)
        rw [decide_eq_true_iff] at hoff
        omega
      · exact hle
    · exact .inr

theorem filter_push (ops : List Op) {batches : List (OpsBatch Op)}
    (hn : n ≤ watermark (some j)) (hpos : 0 < j.nextSeq) :
    (batches ++ [OpsBatch.mk j.nextSeq ops]).filter (fun batch => batch.seq > n) =
      batches.filter (fun batch => batch.seq > n) ++ [OpsBatch.mk j.nextSeq ops] := by
  have hnew : n < j.nextSeq := Nat.lt_of_le_of_lt hn (Nat.sub_lt hpos Nat.zero_lt_one)
  have hkept : [OpsBatch.mk j.nextSeq ops].filter (fun batch => batch.seq > n) = [⟨j.nextSeq, ops⟩] :=
    filter_cons_of_pos (decide_eq_true hnew)
  rw [filter_append, hkept]

theorem Consecutive.opsSince_push {j : AgentOpsJournal Op} (h : j.Consecutive)
    (hn : n ≤ watermark (some j)) (ops : List Op)
    (hcomplete : (opsSince (some (j.push ops)) n).complete = true) :
    (opsSince (some j) n).complete = true ∧ (opsSince (some (j.push ops)) n).batches =
        (opsSince (some j) n).batches ++ [⟨j.nextSeq, ops⟩] := by
  have hlt := h.length_lt
  have hn' : n ≤ watermark (some (j.push ops)) := Nat.le_trans hn (Nat.pred_le _)
  rw [(h.push ops).complete_iff hn'] at hcomplete
  rw [h.complete_iff hn, opsSince_of_le hn, opsSince_of_le hn']
  change _ ∧ (j.push ops).batches.filter _ = j.batches.filter _ ++ _
  rcases push_cases j ops with hpush | ⟨oldest, rest, hj, hpush⟩
  · rw [hpush] at hcomplete ⊢
    rw [length_append, length_singleton, Nat.add_sub_add_right] at hcomplete
    exact ⟨hcomplete, filter_push ops hn (Nat.zero_lt_of_lt hlt)⟩
  · obtain ⟨holdest, -⟩ := h.head hj
    rw [hpush] at hcomplete ⊢
    rw [hj, length_cons] at hlt holdest
    rw [length_append, length_singleton, Nat.add_sub_add_right] at hcomplete
    rw [filter_push ops hn (Nat.zero_lt_of_lt hlt), hj, length_cons,
      filter_cons_of_neg (by rw [decide_eq_true_iff]; omega)]
    exact ⟨by omega, rfl⟩

/-- A client at a number is brought to a state by what the journal has after it. -/
structure Reaches (r : Reducer State Op) (journal : Option (AgentOpsJournal Op)) (seq : Nat)
    (state current : State) : Prop where
  seq_le : seq ≤ watermark journal
  replayed : (opsSince journal seq).complete = true →
    r.replay state ((opsSince journal seq).batches.map OpsBatch.ops) = current

variable {r : Reducer State Op}

theorem Reaches.start {current : State} : Reaches r (some {}) 0 current current := ⟨Nat.le_refl _, fun _ => rfl⟩

theorem reaches_getD : Reaches r (some (journal.getD {})) seq state current ↔
    Reaches r journal seq state current := by
  cases journal with
  | none => exact ⟨fun h => ⟨h.1, h.2⟩, fun h => ⟨h.1, h.2⟩⟩
  | some j => exact Iff.rfl

theorem Reaches.push {j : AgentOpsJournal Op} (hj : j.Consecutive)
    (h : Reaches r (some j) seq state current) (ops : List Op) :
    Reaches r (some (j.push ops)) seq state (r.apply current ops).state := by
  refine ⟨Nat.le_trans h.seq_le (Nat.pred_le _), ?_⟩
  intro hcomplete
  obtain ⟨hbefore, hbatches⟩ := hj.opsSince_push h.seq_le ops hcomplete
  rw [hbatches, map_append, r.replay_append, h.replayed hbefore]
  rfl

theorem Consecutive.opsSince_watermark {j : AgentOpsJournal Op} (h : j.Consecutive) :
    opsSince (some j) (watermark (some j)) =
      { batches := [], latestSeq := watermark (some j), complete := true } := by
  have hnone : j.batches.filter (fun batch => batch.seq > watermark (some j)) = [] := by
    rw [filter_eq_nil_iff]
    intro batch hbatch
    have hseq := mem_map_of_mem (f := OpsBatch.seq) hbatch
    rw [h.seqs, mem_range'_1] at hseq
    have hlt := h.length_lt
    have hle : batch.seq ≤ watermark (some j) := Nat.le_sub_one_of_lt (by omega)
    rw [decide_eq_true_iff]
    exact Nat.not_lt.mpr hle
  rw [opsSince_of_le (Nat.le_refl _), retained, hnone]
  rfl

theorem Consecutive.reaches_watermark (h : j.Consecutive) :
    Reaches r (some j) (watermark (some j)) state current ↔ state = current := by
  constructor
  · intro hreaches
    have hreplayed := hreaches.replayed
    rw [h.opsSince_watermark] at hreplayed
    exact hreplayed rfl
  · rintro rfl
    refine ⟨Nat.le_refl _, ?_⟩
    intro _
    rw [h.opsSince_watermark]
    rfl

end AgentOpsJournal

/-! Every cursor that came from the live store reaches the current transcript. -/

namespace TranscriptService

open AgentOpsJournal

variable [DecidableEq S] [DecidableEq A] {r : Reducer State Op}

/-- A client's state is brought up to date by the journal of the session, if the store that the
state came from is the live one. -/
def ReachesIn (r : Reducer State Op) (s : TranscriptService S A State Op) (c : Cursor S A State) : Prop :=
  ∀ e, s.live.get c.sessionId = some e → e.store = c.store →
    Reaches r (e.opsJournals.get c.agentId) c.seq c.state (s.transcript r e.store c.agentId)

structure Sound (r : Reducer State Op) (s : TranscriptService S A State Op) : Prop where
  stores : ∀ {sid e}, s.live.get sid = some e → (s.stores[e.store]?).map (·.sessionId) = some sid
  journals : ∀ {sid e agentId j}, s.live.get sid = some e → e.opsJournals.get agentId = some j → j.Consecutive
  /-- A new transcript is reached from its start. -/
  start : ∀ sid agentId store, s.ReachesIn r ⟨sid, agentId, 0, r.emptyState, store⟩
  cursors : ∀ c ∈ s.obtained, s.ReachesIn r c
  known : ∀ c ∈ s.obtained, c.store < s.stores.length

section

variable {s : TranscriptService S A State Op} (h : Sound r s) (he : s.live.get sid = some e)
include h he

theorem Sound.consecutive (agentId : A) : ((e.opsJournals.get agentId).getD {}).Consecutive := by
  cases hj : e.opsJournals.get agentId with
  | none => exact consecutive_empty
  | some j => exact h.journals he hj

theorem Sound.session_eq (he' : s.live.get sid' = some e') (hstore : e.store = e'.store) : sid = sid' := by
  have hsid := h.stores he
  rw [hstore, h.stores he'] at hsid
  exact (some.inj hsid).symm

theorem Sound.store_lt : e.store < s.stores.length := by
  obtain ⟨st, hst, -⟩ := map_eq_some_iff.mp (h.stores he)
  exact (getElem?_lt hst)

end

section

omit [DecidableEq S]

section

variable (s : TranscriptService S A State Op) (store : Nat) (agentId : A)
include s store agentId

theorem transcript_setTranscript (state : State) (store' : Nat) (agentId' : A) (h : store < s.stores.length) :
    (s.setTranscript store agentId state).transcript r store' agentId' =
      if store' = store ∧ agentId' = agentId then state else s.transcript r store' agentId' := by
  by_cases hs : store' = store
  · subst hs
    rw [transcript, setTranscript, getElem?_modify_eq, getElem?_eq_getElem h]
    change (((s.stores[store']).agents.set agentId state).get agentId').getD _ = _
    rw [JsMap.get_set]
    by_cases ha : agentId' = agentId
    · rw [if_pos ha, if_pos ⟨rfl, ha⟩]
      rfl
    · rw [if_neg ha, if_neg fun hboth => ha hboth.2, transcript, getElem?_eq_getElem h]
      rfl
  · rw [if_neg fun hboth => hs hboth.1, transcript, setTranscript, getElem?_modify_ne _ _ (Ne.symm hs)]
    rfl

theorem transcript_setTranscript_same (h : store < s.stores.length) (store' : Nat) (agentId' : A) :
    (s.setTranscript store agentId (s.transcript r store agentId)).transcript r store' agentId' =
      s.transcript r store' agentId' := by
  rw [transcript_setTranscript _ _ _ _ _ _ h]
  split
  next hboth => rw [hboth.1, hboth.2]
  next => rfl

theorem session_setTranscript (state : State) (i : Nat) : ((s.setTranscript store agentId state).stores[i]?).map (·.sessionId) =
      (s.stores[i]?).map (·.sessionId) := by
  by_cases h : store = i
  · subst h
    rw [setTranscript, getElem?_modify_eq]
    exact map_map ..
  · rw [setTranscript, getElem?_modify_ne _ _ h]

theorem length_setTranscript (state : State) : (s.setTranscript store agentId state).stores.length = s.stores.length :=
  length_modify ..

end

end

theorem Sound.setTranscript_same {s : TranscriptService S A State Op} (h : Sound r s)
    (he : s.live.get sid = some e) (agentId : A) :
    Sound r (s.setTranscript e.store agentId (s.transcript r e.store agentId)) := by
  have hlt := h.store_lt he
  have hreach : ∀ {c}, s.ReachesIn r c →
      (s.setTranscript e.store agentId (s.transcript r e.store agentId)).ReachesIn r c := by
    intro c hc e' he' hstore
    rw [transcript_setTranscript_same _ _ _ hlt]
    exact hc e' he' hstore
  constructor
  · intro sid' e' he'
    rw [session_setTranscript]
    exact h.stores he'
  · exact h.journals
  · exact fun sid' agentId' store => hreach (h.start sid' agentId' store)
  · exact fun c hc => hreach (h.cursors c hc)
  · intro c hc
    rw [length_setTranscript]
    exact h.known c hc

def applied (r : Reducer State Op) (s : TranscriptService S A State Op) (sid : S) (e : LiveEntry A Op)
    (agentId : A) (ops : List Op) : TranscriptService S A State Op :=
  (s.setTranscript e.store agentId (r.apply (s.transcript r e.store agentId) ops).state).dispatchOps r
    sid e agentId ops

section

variable (s : TranscriptService S A State Op) (sid : S) (e : LiveEntry A Op) (agentId : A) (ops : List Op)

theorem get_live_applied (sid' : S) : (applied r s sid e agentId ops).live.get sid' =
      if sid' = sid then some { e with
        opsJournals := e.opsJournals.set agentId (((e.opsJournals.get agentId).getD {}).push ops) }
      else s.live.get sid' :=
  JsMap.get_set ..

theorem transcript_applied (store' : Nat) (agentId' : A) (h : e.store < s.stores.length) :
    (applied r s sid e agentId ops).transcript r store' agentId' =
      if store' = e.store ∧ agentId' = agentId then (r.apply (s.transcript r e.store agentId) ops).state
      else s.transcript r store' agentId' :=
  transcript_setTranscript _ _ _ _ _ _ h

end

section

variable {s : TranscriptService S A State Op} (h : Sound r s)
include h

theorem Sound.reachesIn_applied (he : s.live.get sid = some e) (agentId : A) (ops : List Op) (hc : s.ReachesIn r c) :
    (applied r s sid e agentId ops).ReachesIn r c := by
  intro e' he' hstore
  rw [get_live_applied] at he'
  rw [transcript_applied _ _ _ _ _ _ _ (h.store_lt he)]
  by_cases hsid : c.sessionId = sid
  · subst hsid
    rw [if_pos rfl, some.injEq] at he'
    subst he'
    have hold := hc e he hstore
    rw [JsMap.get_set]
    by_cases ha : c.agentId = agentId
    · subst ha
      rw [if_pos rfl, if_pos ⟨rfl, rfl⟩]
      exact (reaches_getD.mpr hold).push (h.consecutive he _) ops
    · rw [if_neg ha, if_neg fun hboth => ha hboth.2]
      exact hold
  · rw [if_neg hsid] at he'
    rw [if_neg fun hboth => hsid (h.session_eq he' he hboth.1)]
    exact hc e' he' hstore

theorem Sound.reachesIn_follow (he : s.live.get sid = some e) (hc : s.ReachesIn r c)
    (hfollow : follow r c sid agentId ((e.opsJournals.get agentId).getD {}).nextSeq ops = some c') :
    (applied r s sid e agentId ops).ReachesIn r c' := by
  rw [follow, ite_none_right_eq_some] at hfollow
  obtain ⟨⟨rfl, rfl, hseq⟩, hc'⟩ := hfollow
  cases hc'
  have hcons := h.consecutive he c.agentId
  intro e' he' hstore
  rw [get_live_applied, if_pos rfl, some.injEq] at he'
  subst he'
  have hold := reaches_getD.mpr (hc e he hstore)
  have hmark : c.seq = watermark (some ((e.opsJournals.get c.agentId).getD {})) := by
    rw [watermark, ← hseq]
    rfl
  rw [hmark, hcons.reaches_watermark] at hold
  rw [transcript_applied _ _ _ _ _ _ _ (h.store_lt he), if_pos ⟨rfl, rfl⟩, JsMap.get_set_self, hold]
  exact (hcons.push ops).reaches_watermark.mpr rfl

theorem Sound.applied (he : s.live.get sid = some e) (agentId : A) (ops : List Op) :
    Sound r (applied r s sid e agentId ops) := by
  constructor
  · intro sid' e' he'
    rw [get_live_applied] at he'
    refine (session_setTranscript ..).trans ?_
    by_cases hsid : sid' = sid
    · rw [if_pos hsid, some.injEq] at he'
      subst he'
      have hstore := h.stores he
      rw [hsid]
      exact hstore
    · rw [if_neg hsid] at he'
      exact h.stores he'
  · intro sid' e' agentId' j he' hj
    rw [get_live_applied] at he'
    by_cases hsid : sid' = sid
    · rw [if_pos hsid, some.injEq] at he'
      subst he'
      rw [JsMap.get_set] at hj
      by_cases ha : agentId' = agentId
      · rw [if_pos ha, some.injEq] at hj
        subst hj
        exact (h.consecutive he agentId).push ops
      · rw [if_neg ha] at hj
        exact h.journals he hj
    · rw [if_neg hsid] at he'
      exact h.journals he' hj
  · exact fun sid' agentId' store => h.reachesIn_applied he agentId ops (h.start sid' agentId' store)
  · intro c hc
    rcases mem_append.mp hc with hold | hnew
    · exact h.reachesIn_applied he agentId ops (h.cursors c hold)
    · obtain ⟨c₀, hc₀, hfollow⟩ := mem_filterMap.mp hnew
      exact h.reachesIn_follow he (h.cursors c₀ hc₀) hfollow
  · intro c hc
    have hlength : (TranscriptService.applied r s sid e agentId ops).stores.length = s.stores.length :=
      length_setTranscript ..
    rw [hlength]
    rcases mem_append.mp hc with hold | hnew
    · exact h.known c hold
    · obtain ⟨c₀, hc₀, hfollow⟩ := mem_filterMap.mp hnew
      rw [follow, ite_none_right_eq_some] at hfollow
      obtain ⟨-, hc'⟩ := hfollow
      cases hc'
      exact h.known c₀ hc₀

theorem Sound.dropSession (sid : S) : Sound r (s.dropSession sid) := by
  have hget : ∀ {sid' e'}, (s.dropSession sid).live.get sid' = some e' → s.live.get sid' = some e' := by
    intro sid' e' he'
    rw [TranscriptService.dropSession, JsMap.get_delete] at he'
    by_cases hsid : sid' = sid
    · rw [if_pos hsid] at he'
      cases he'
    · rw [if_neg hsid] at he'
      exact he'
  constructor
  · exact fun he' => h.stores (hget he')
  · exact fun he' => h.journals (hget he')
  · exact fun sid' agentId store e' he' => h.start sid' agentId store e' (hget he')
  · exact fun c hc e' he' => h.cursors c hc e' (hget he')
  · exact h.known

/-- A new store is not the one of any cursor, and its transcripts are empty. -/
theorem Sound.forSessionLive (sid : S) : Sound r (s.forSessionLive sid).1 := by
  rw [TranscriptService.forSessionLive]
  cases he : s.live.get sid with
  | some entry =>
    dsimp only
    split
    next => exact h
    next => exact h.dropSession sid
  | none =>
    dsimp only
    split
    next =>
      have hget : ∀ {sid' e'}, (s.live.set sid ({ store := s.stores.length } : LiveEntry A Op)).get sid' =
          some e' → s.live.get sid' = some e' ∧ e'.store < s.stores.length ∨
            sid' = sid ∧ e' = { store := s.stores.length } := by
        intro sid' e' he'
        rw [JsMap.get_set] at he'
        by_cases hsid : sid' = sid
        · rw [if_pos hsid, some.injEq] at he'
          exact .inr ⟨hsid, he'.symm⟩
        · rw [if_neg hsid] at he'
          exact .inl ⟨he', h.store_lt he'⟩
      have hreach : ∀ {c : Cursor S A State}, s.ReachesIn r c →
          (c.store = s.stores.length → c.seq = 0 ∧ c.state = r.emptyState) →
          ReachesIn r { s with
            stores := s.stores ++ [{ sessionId := sid }]
            live := s.live.set sid { store := s.stores.length } } c := by
        intro c hc hnew e' he' hstore
        rcases hget he' with ⟨he', hlt⟩ | ⟨-, rfl⟩
        · have hold := hc e' he' hstore
          rw [transcript, getElem?_append_left hlt]
          exact hold
        · obtain ⟨hseq, hstate⟩ := hnew hstore.symm
          rw [transcript, getElem?_concat_length, hseq, hstate]
          exact reaches_getD.mp Reaches.start
      constructor
      · intro sid' e' he'
        rcases hget he' with ⟨he', hlt⟩ | ⟨rfl, rfl⟩
        · rw [getElem?_append_left hlt]
          exact h.stores he'
        · rw [getElem?_concat_length]
          rfl
      · intro sid' e' agentId j he' hj
        rcases hget he' with ⟨he', -⟩ | ⟨-, rfl⟩
        · exact h.journals he' hj
        · cases hj
      · exact fun sid' agentId store => hreach (h.start sid' agentId store) fun _ => ⟨rfl, rfl⟩
      · intro c hc
        refine hreach (h.cursors c hc) fun hstore => ?_
        exact absurd hstore (Nat.ne_of_lt (h.known c hc))
      · intro c hc
        rw [length_append]
        exact Nat.lt_add_right _ (h.known c hc)
    next => exact h

theorem Sound.obtain (hc : s.ReachesIn r c)
    (hstore : c.store < s.stores.length) : Sound r { s with obtained := s.obtained ++ [c] } := by
  refine { h with cursors := ?_, known := ?_ }
  · intro c' hc'
    rcases mem_snoc.mp hc' with hold | hnew
    · exact h.cursors c' hold
    · rw [hnew]
      exact hc
  · intro c' hc'
    rcases mem_snoc.mp hc' with hold | hnew
    · exact h.known c' hold
    · rw [hnew]
      exact hstore

theorem Sound.reachesIn_read (sid : S) (agentId : A) (store : Nat) :
    s.ReachesIn r ⟨sid, agentId, watermark (s.journal sid agentId), s.transcript r store agentId, store⟩ := by
  intro e he hstore
  rw [journal, he, bind_some]
  rw [hstore]
  refine reaches_getD.mp ?_
  have hmark : watermark (e.opsJournals.get agentId) =
      watermark (some ((e.opsJournals.get agentId).getD {})) := by
    cases e.opsJournals.get agentId with
    | none => rfl
    | some j => rfl
  rw [hmark]
  exact (h.consecutive he agentId).reaches_watermark.mpr rfl

end

theorem forSessionLive_some {s s₁ : TranscriptService S A State Op} (h : s.forSessionLive sid = (s₁, some store)) :
    (∃ e, s₁.live.get sid = some e) ∧ s₁.obtained = s.obtained ∧ (∀ e, s.live.get sid = some e → s₁ = s) ∧
      ∀ agentId, s₁.journal sid agentId = s.journal sid agentId := by
  rw [forSessionLive] at h
  cases he : s.live.get sid with
  | some entry =>
    rw [he] at h
    dsimp only at h
    split at h
    next =>
      obtain ⟨rfl, -⟩ := Prod.mk.inj h
      exact ⟨⟨entry, he⟩, rfl, fun _ _ => rfl, fun _ => rfl⟩
    next => cases (Prod.mk.inj h).2
  | none =>
    rw [he] at h
    dsimp only at h
    split at h
    next =>
      obtain ⟨rfl, -⟩ := Prod.mk.inj h
      refine ⟨⟨_, JsMap.get_set_self ..⟩, rfl, (fun e he' => by cases he'), fun agentId => ?_⟩
      rw [journal, JsMap.get_set_self, journal, he]
      rfl
    next => cases (Prod.mk.inj h).2

def currentTranscript (r : Reducer State Op) (s : TranscriptService S A State Op) (sid : S) (agentId : A) : State :=
  match s.live.get sid with
  | some entry => s.transcript r entry.store agentId
  | none => r.emptyState

theorem ReachesIn.caughtUp {s : TranscriptService S A State Op} (hc : s.ReachesIn r c)
    (he : s.live.get c.sessionId = some e) (hstore : e.store = c.store)
    (hcomplete : (opsSince (s.journal c.sessionId c.agentId) c.seq).complete = true) :
    caughtUp r c (opsSince (s.journal c.sessionId c.agentId) c.seq) =
      s.currentTranscript r c.sessionId c.agentId := by
  rw [journal, he] at hcomplete ⊢
  rw [currentTranscript, he]
  exact (hc e he hstore).replayed hcomplete

theorem Sound.reachesIn_caughtUp {s : TranscriptService S A State Op} (h : Sound r s) (hc : s.ReachesIn r c)
    (hcomplete : (opsSince (s.journal c.sessionId c.agentId) c.seq).complete = true) :
    s.ReachesIn r { c with
      seq := (opsSince (s.journal c.sessionId c.agentId) c.seq).latestSeq
      state := caughtUp r c (opsSince (s.journal c.sessionId c.agentId) c.seq) } := by
  intro e he hstore
  have hlatest : (opsSince (s.journal c.sessionId c.agentId) c.seq).latestSeq =
      watermark (s.journal c.sessionId c.agentId) := by
    rw [opsSince]
    split <;> rfl
  have hread := h.reachesIn_read c.sessionId c.agentId c.store e he hstore
  have hcurrent := hc.caughtUp he hstore hcomplete
  rw [currentTranscript, he] at hcurrent
  rw [hlatest, hcurrent]
  rw [← hstore] at hread
  exact hread

/-- A cursor whose number means the same in the journal that it is compared with: it came from the
live store, or it is ahead of the watermark, or it is the start of any transcript. And no batch that
has a gap is applied in part. -/
def Meets (r : Reducer State Op) (s : TranscriptService S A State Op) : TranscriptEvent S A State Op → Prop
  | .applyOps sid agentId ops => ∀ e ∈ s.live.get sid,
      (r.apply (s.transcript r e.store agentId) ops).gap.isSome = true →
      (r.apply (s.transcript r e.store agentId) ops).state = s.transcript r e.store agentId
  | .getOpsSince c => (∃ e ∈ s.live.get c.sessionId, e.store = c.store) ∨
      watermark (s.journal c.sessionId c.agentId) < c.seq ∨ c.seq = 0 ∧ c.state = r.emptyState
  | _ => True

/-- A client that has a complete answer to its cursor is brought to the current transcript. -/
def Faithful (r : Reducer State Op) (s : TranscriptService S A State Op) : TranscriptEvent S A State Op → Prop
  | .getOpsSince c => c ∈ s.obtained → ∀ catchup ∈ (s.getOpsSince c.sessionId c.agentId c.seq).2,
      catchup.complete = true → caughtUp r c catchup =
        (s.getOpsSince c.sessionId c.agentId c.seq).1.currentTranscript r c.sessionId c.agentId
  | _ => True

instance decidable_meets [DecidableEq State] (r : Reducer State Op) (s : TranscriptService S A State Op) :
    ∀ event, Decidable (Meets r s event)
  | .applyOps sid agentId ops => inferInstanceAs (Decidable (∀ e ∈ s.live.get sid,
      (r.apply (s.transcript r e.store agentId) ops).gap.isSome = true →
      (r.apply (s.transcript r e.store agentId) ops).state = s.transcript r e.store agentId))
  | .getOpsSince c => inferInstanceAs (Decidable ((∃ e ∈ s.live.get c.sessionId, e.store = c.store) ∨
      watermark (s.journal c.sessionId c.agentId) < c.seq ∨ c.seq = 0 ∧ c.state = r.emptyState))
  | .openSession _ | .vanish _ | .dropSession _ | .forSessionLive _ | .restoreOps .. | .read .. => isTrue trivial

instance decidable_faithful [DecidableEq State] (r : Reducer State Op)
    (s : TranscriptService S A State Op) : ∀ event, Decidable (Faithful r s event)
  | .getOpsSince c => inferInstanceAs (Decidable (c ∈ s.obtained →
      ∀ catchup ∈ (s.getOpsSince c.sessionId c.agentId c.seq).2,
      catchup.complete = true → caughtUp r c catchup =
        (s.getOpsSince c.sessionId c.agentId c.seq).1.currentTranscript r c.sessionId c.agentId))
  | .openSession _ | .vanish _ | .dropSession _ | .forSessionLive _ | .applyOps .. | .restoreOps ..
  | .read .. => isTrue trivial

theorem getOpsSince_some {s s₁ : TranscriptService S A State Op}
    (h : s.getOpsSince sid agentId n = (s₁, some catchup)) :
    ∃ store, s.forSessionLive sid = (s₁, some store) ∧ catchup = opsSince (s₁.journal sid agentId) n := by
  rw [getOpsSince] at h
  cases hlive : s.forSessionLive sid with
  | mk s₂ store =>
    rw [hlive] at h
    cases store with
    | none => cases (Prod.mk.inj h).2
    | some store =>
      obtain ⟨rfl, hcatchup⟩ := Prod.mk.inj h
      exact ⟨store, rfl, (some.inj hcatchup).symm⟩

theorem Sound.faithful {s : TranscriptService S A State Op} (h : Sound r s)
    (event : TranscriptEvent S A State Op) (hmeets : Meets r s event) : Faithful r s event := by
  cases event with
  | getOpsSince c =>
    intro hc catchup hmem hcomplete
    have hanswer : s.getOpsSince c.sessionId c.agentId c.seq =
        ((s.getOpsSince c.sessionId c.agentId c.seq).1, some catchup) := Prod.ext rfl hmem
    obtain ⟨store, hlive, rfl⟩ := getOpsSince_some hanswer
    generalize (s.getOpsSince c.sessionId c.agentId c.seq).1 = s₁ at *
    obtain ⟨⟨e, he⟩, hobtained, hsame, hjournal⟩ := forSessionLive_some hlive
    have hsound := h.forSessionLive c.sessionId
    rw [hlive] at hsound
    rcases hmeets with ⟨e₀, he₀, hstore⟩ | hahead | ⟨hseq, hstate⟩
    · obtain rfl := hsame e₀ he₀
      exact (h.cursors c hc).caughtUp he₀ hstore hcomplete
    · rw [← hjournal] at hahead
      rw [opsSince, if_pos hahead] at hcomplete
      cases hcomplete
    · have hstart := hsound.start c.sessionId c.agentId e.store
      rw [← hseq, ← hstate] at hstart
      exact hstart.caughtUp he rfl hcomplete
  | _ => trivial

variable [DecidableEq State]

theorem Sound.step {s s' : TranscriptService S A State Op} (h : Sound r s)
    (event : TranscriptEvent S A State Op) (hmeets : Meets r s event)
    (hstep : s.step r event = some s') : Sound r s' := by
  cases event with
  | openSession sid =>
    cases hstep
    exact { h with }
  | vanish sid =>
    cases hstep
    exact { h with }
  | dropSession sid =>
    cases hstep
    exact h.dropSession sid
  | forSessionLive sid =>
    cases hstep
    exact h.forSessionLive sid
  | applyOps sid agentId ops =>
    obtain ⟨e, he, rfl⟩ := map_eq_some_iff.mp hstep
    split
    next => exact h
    next =>
      dsimp only
      split
      next hgap =>
        rw [hmeets e he hgap]
        exact h.setTranscript_same he agentId
      next => exact h.applied he agentId ops
  | restoreOps sid agentId ops =>
    obtain ⟨e, he, rfl⟩ := map_eq_some_iff.mp hstep
    exact h.applied he agentId ops
  | read store agentId =>
    obtain ⟨st, hst, rfl⟩ := map_eq_some_iff.mp hstep
    exact h.obtain (h.reachesIn_read st.sessionId agentId store) (getElem?_lt hst)
  | getOpsSince c =>
    rw [TranscriptService.step, ite_none_right_eq_some] at hstep
    obtain ⟨hc, hstep⟩ := hstep
    cases hanswer : s.getOpsSince c.sessionId c.agentId c.seq with
    | mk s₁ answer =>
      rw [hanswer] at hstep
      have hsound := h.forSessionLive c.sessionId
      cases answer with
      | none =>
        cases hstep
        rw [getOpsSince] at hanswer
        cases hlive : s.forSessionLive c.sessionId with
        | mk s₂ store =>
          rw [hlive] at hanswer hsound
          cases store with
          | none =>
            obtain ⟨rfl, -⟩ := Prod.mk.inj hanswer
            exact hsound
          | some store => cases (Prod.mk.inj hanswer).2
      | some catchup =>
        obtain ⟨store, hlive, rfl⟩ := getOpsSince_some hanswer
        obtain ⟨-, hobtained, -, -⟩ := forSessionLive_some hlive
        rw [hlive] at hsound
        rw [← hobtained] at hc
        dsimp only at hstep
        split at hstep
        next hcomplete =>
          cases hstep
          exact hsound.obtain (hsound.reachesIn_caughtUp (hsound.cursors c hc) hcomplete)
            (hsound.known c hc)
        next =>
          cases hstep
          exact hsound

omit [DecidableEq State] in
theorem sound_init : Sound r ({} : TranscriptService S A State Op) := by
  constructor
  · intro sid e he
    cases he
  · intro sid e agentId j he
    cases he
  · intro sid agentId store e he
    cases he
  · exact nofun
  · exact nofun

/-- Along every run of the service whose steps meet the conditions, a complete answer to a client's
cursor brings the client to the current transcript. -/
theorem run_faithful (r : Reducer State Op) (events : List (TranscriptEvent S A State Op))
    (hmeets : AlongRun (step r) (Meets r) {} events) :
    AlongRun (step r) (Faithful r) ({} : TranscriptService S A State Op) events :=
  hmeets.of_invariant (fun _ e _ h hm hstep => h.step e hm hstep) (fun _ e h hm => h.faithful e hm)
    sound_init

end TranscriptService

/-! The part of the reducer that deals with tasks. -/

inductive TaskState where
  | running | completed | failed | timedOut | killed | lost
deriving DecidableEq

structure TranscriptTask where
  taskId : String
  state : TaskState
  detached : Bool
  outputTail : List Char
deriving DecidableEq

inductive TaskOp where
  | upsert (task : TranscriptTask)
  | append (taskId : String) (offset : Nat) (text : List Char)
deriving DecidableEq

/-- Place a chunk: one that is there already changes nothing, and one that does not agree with the
text where they overlap is a gap, as is one past the end. -/
def appendAtOffset (text : List Char) (offset : Nat) (chunk : List Char) : ApplyResult (List Char) :=
  if offset > text.length then ⟨text, false, some ⟨text.length, offset⟩⟩
  else if (text.drop offset).take chunk.length = chunk then ⟨text, false, none⟩
  else if text.drop offset ≠ chunk.take (text.length - offset) then
    ⟨text, false, some ⟨text.length, offset⟩⟩
  else if (chunk.drop (text.length - offset)).length = 0 then ⟨text, false, none⟩
  else ⟨text.take offset ++ chunk, true, none⟩

def setTask (tasks : List TranscriptTask) (task : TranscriptTask) : List TranscriptTask :=
  if tasks.any fun t => t.taskId = task.taskId then
    tasks.map fun t => if t.taskId = task.taskId then task else t
  else tasks ++ [task]

def applyTaskOp (tasks : List TranscriptTask) : TaskOp → ApplyResult (List TranscriptTask)
  | .upsert task =>
    if tasks.find? (fun t => t.taskId = task.taskId) = some task then ⟨tasks, false, none⟩
    else ⟨setTask tasks task, true, none⟩
  | .append taskId offset text =>
    let task := (tasks.find? fun t => t.taskId = taskId).getD
      { taskId := taskId, state := .running, detached := false, outputTail := [] }
    let merged := appendAtOffset task.outputTail offset text
    if merged.gap.isSome then ⟨tasks, false, merged.gap⟩
    else if merged.changed then ⟨setTask tasks { task with outputTail := merged.state }, true, none⟩
    else ⟨tasks, false, none⟩

def taskReducer : Reducer (List TranscriptTask) TaskOp where
  emptyState := []
  applyOperation := applyTaskOp

namespace TranscriptService

def shellTask (taskId : String) : TranscriptTask :=
  { taskId := taskId, state := .running, detached := false, outputTail := [] }

def clientReads : List (TranscriptEvent String String (List TranscriptTask) TaskOp) :=
  [.openSession "s", .forSessionLive "s", .restoreOps "s" "main" [.upsert (shellTask "a")], .read 0 "main"]

def clientCursor : Cursor String String (List TranscriptTask) :=
  { sessionId := "s", agentId := "main", seq := 1, state := [shellTask "a"], store := 0 }

theorem run_faithful_output : AlongRun (TranscriptService.step taskReducer) (Faithful taskReducer) {}
    (clientReads ++ [.applyOps "s" "main" [.append "a" 0 ['x']], .getOpsSince clientCursor]) :=
  run_faithful taskReducer _ (by decide +kernel)

/-- The session is closed and opened again, and its history has grown: to the client's cursor the
service answers that nothing is missing. -/
theorem reopened_unfaithful : ¬ AlongRun (step taskReducer) (Faithful taskReducer) {}
    (clientReads ++ [.dropSession "s", .forSessionLive "s",
      .restoreOps "s" "main" [.upsert (shellTask "a"), .upsert (shellTask "b")],
      .getOpsSince clientCursor]) := by
  decide +kernel

end TranscriptService
end Echadron.Server
