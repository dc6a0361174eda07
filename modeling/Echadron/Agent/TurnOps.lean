import Mathlib.Data.List.Sort
import Mathlib.Data.List.Dedup
import Mathlib.Data.List.Induction

namespace Echadron.Agent

inductive TurnEndReason where
  | completed
  | cancelled
  | failed
  | blocked
deriving DecidableEq

inductive CancelTarget where
  | active
  | queued
deriving DecidableEq

structure TurnModelState where
  nextTurnId : Nat := 0
  cancelledTurnIds : List Nat := []
  lastEnded : Option (Nat × TurnEndReason) := none
deriving DecidableEq

/-- A persisted record that the turn model reduces. Of a loop event only the turn id counts, which
is absent for a tool result and where it is not a number. -/
inductive TurnRecord where
  | prompt
  | steer
  | cancel (turnId : Option Nat) (target : Option CancelTarget)
  | ended (turnId : Nat) (reason : TurnEndReason)
  | loopEvent (turnId : Option Nat)
deriving DecidableEq

/-- The loop `while (pendingCancellations.delete(nextTurnId)) nextTurnId += 1`. Every turn of it
takes an id from the set, so the size of the set bounds it. -/
def skipCancelled : (size : Nat) → (nextTurnId : Nat) → (pending : List Nat) → Nat × List Nat
  | 0, nextTurnId, pending => (nextTurnId, pending)
  | size + 1, nextTurnId, pending =>
    if nextTurnId ∈ pending then skipCancelled size (nextTurnId + 1) (pending.erase nextTurnId)
    else (nextTurnId, pending)

def advanceTurnClock (s : TurnModelState) (nextTurnId : Nat) (cancelledTurnIds : List Nat) : TurnModelState :=
  let pendingCancellations := (cancelledTurnIds.filter fun turnId => nextTurnId ≤ turnId).dedup
  let skipped := skipCancelled pendingCancellations.length nextTurnId pendingCancellations
  { s with
    nextTurnId := skipped.1
    cancelledTurnIds := skipped.2.insertionSort (· ≤ ·) }

namespace TurnModelState

section

variable (s : TurnModelState)

def promptTurn : TurnModelState := advanceTurnClock s (s.nextTurnId + 1) s.cancelledTurnIds

def cancelTurn : Option Nat → Option CancelTarget → TurnModelState
  | some turnId, some _ =>
    if turnId < s.nextTurnId then s
    else advanceTurnClock s s.nextTurnId (s.cancelledTurnIds ++ [turnId])
  | _, _ => s

def endTurn (turnId : Nat) (reason : TurnEndReason) : TurnModelState :=
  { s with lastEnded := some (turnId, reason) }

/-- The reducer on `context.append_loop_event`. -/
def reduceLoopEvent : Option Nat → TurnModelState
  | none => s
  | some turnId =>
    let next := if s.nextTurnId ≤ turnId then advanceTurnClock s (turnId + 1) s.cancelledTurnIds else s
    if next.lastEnded.any fun ended => ended.1 < turnId then { next with lastEnded := none } else next

def apply : TurnRecord → TurnModelState
  | .prompt => s.promptTurn
  | .steer => s
  | .cancel turnId target => s.cancelTurn turnId target
  | .ended turnId reason => s.endTurn turnId reason
  | .loopEvent turnId => s.reduceLoopEvent turnId

end

end TurnModelState

def replayTurns (records : List TurnRecord) : TurnModelState := records.foldl TurnModelState.apply {}

def promptIds (s : TurnModelState) : List TurnRecord → List Nat
  | [] => []
  | record :: records => (if record = .prompt then [s.nextTurnId] else []) ++ promptIds (s.apply record) records

def replayedTurnIds (records : List TurnRecord) : List Nat := promptIds {} records

theorem replayTurns_concat (records : List TurnRecord) (record : TurnRecord) :
    replayTurns (records ++ [record]) = (replayTurns records).apply record := by
  rw [replayTurns, List.foldl_append]
  rfl

theorem promptIds_concat (s : TurnModelState) (records : List TurnRecord) (record : TurnRecord) :
    promptIds s (records ++ [record]) = promptIds s records ++
        if record = .prompt then [(records.foldl TurnModelState.apply s).nextTurnId] else [] := by
  induction records generalizing s with
  | nil => exact List.append_nil _
  | cons r records ih =>
    rw [List.cons_append, promptIds, promptIds, ih, List.append_assoc]
    rfl

theorem replayedTurnIds_concat (records : List TurnRecord) (record : TurnRecord) :
    replayedTurnIds (records ++ [record]) =
      replayedTurnIds records ++ if record = .prompt then [(replayTurns records).nextTurnId] else [] :=
  promptIds_concat {} records record

/-- Where the clock stops: behind a block of cancelled ids, at one that is not cancelled. -/
structure Skipped (nextTurnId : Nat) (cancelled : List Nat) (stop : Nat) (rest : List Nat) : Prop where
  le : nextTurnId ≤ stop
  passed : ∀ id, nextTurnId ≤ id → id < stop → id ∈ cancelled
  stopped : stop ∉ cancelled
  rest_iff : ∀ id, id ∈ rest ↔ id ∈ cancelled ∧ stop < id

theorem Skipped.here (hge : ∀ id ∈ pending, nextTurnId ≤ id) (hnot : nextTurnId ∉ pending) :
    Skipped nextTurnId pending nextTurnId pending where
  le := le_refl _
  passed := fun _ hle hlt => absurd hlt (Nat.not_lt_of_le hle)
  stopped := hnot
  rest_iff := fun id => ⟨fun hid => ⟨hid, lt_of_le_of_ne (hge id hid) fun heq => hnot (heq ▸ hid)⟩, And.left⟩

theorem skipCancelled_skipped (size nextTurnId : Nat) (pending : List Nat) (hsize : pending.length ≤ size)
    (hnodup : pending.Nodup) (hge : ∀ id ∈ pending, nextTurnId ≤ id) :
    Skipped nextTurnId pending (skipCancelled size nextTurnId pending).1
      (skipCancelled size nextTurnId pending).2 := by
  induction size generalizing nextTurnId pending with
  | zero =>
    obtain rfl := List.length_eq_zero_iff.mp (Nat.le_zero.mp hsize)
    exact Skipped.here hge List.not_mem_nil
  | succ size ih =>
    rw [skipCancelled]
    split_ifs with hmem
    · have herase : ∀ id, id ∈ pending.erase nextTurnId ↔ id ≠ nextTurnId ∧ id ∈ pending :=
        fun id => hnodup.mem_erase_iff
      have hlength : (pending.erase nextTurnId).length ≤ size := by
        rw [List.length_erase_of_mem hmem]
        omega
      have hgt : ∀ id ∈ pending.erase nextTurnId, nextTurnId + 1 ≤ id := by
        intro id hid
        obtain ⟨hne, hid⟩ := (herase id).mp hid
        exact lt_of_le_of_ne (hge id hid) hne.symm
      have hrest := ih (nextTurnId + 1) (pending.erase nextTurnId) hlength (hnodup.erase _) hgt
      constructor
      · exact Nat.le_of_succ_le hrest.le
      · intro id hle hlt
        by_cases heq : id = nextTurnId
        · exact heq ▸ hmem
        · exact ((herase id).mp (hrest.passed id (lt_of_le_of_ne hle (Ne.symm heq)) hlt)).2
      · intro hstopped
        have hne := Nat.ne_of_gt (Nat.lt_of_succ_le hrest.le)
        exact hrest.stopped ((herase _).mpr ⟨hne, hstopped⟩)
      · intro id
        rw [hrest.rest_iff, herase]
        constructor
        · rintro ⟨⟨_, hid⟩, hlt⟩
          exact ⟨hid, hlt⟩
        · rintro ⟨hid, hlt⟩
          have hle := hrest.le
          exact ⟨⟨by omega, hid⟩, hlt⟩
    · exact Skipped.here hge hmem

theorem advanceTurnClock_skipped (s : TurnModelState) (nextTurnId : Nat) (cancelled : List Nat) :
    Skipped nextTurnId (cancelled.filter fun id => nextTurnId ≤ id)
      (advanceTurnClock s nextTurnId cancelled).nextTurnId
      (advanceTurnClock s nextTurnId cancelled).cancelledTurnIds := by
  have hge : ∀ id ∈ (cancelled.filter fun id => nextTurnId ≤ id).dedup, nextTurnId ≤ id := fun id hid =>
    of_decide_eq_true (List.mem_filter.mp (List.mem_dedup.mp hid)).2
  have h := skipCancelled_skipped _ nextTurnId _ (le_refl _) (List.nodup_dedup _) hge
  constructor
  · exact h.le
  · exact fun id hle hlt => List.mem_dedup.mp (h.passed id hle hlt)
  · exact fun hmem => h.stopped (List.mem_dedup.mpr hmem)
  · intro id
    have hrest := h.rest_iff id
    rw [List.mem_dedup] at hrest
    exact (List.mem_insertionSort _).trans hrest

theorem nextTurnId_le_apply (s : TurnModelState) (record : TurnRecord) :
    s.nextTurnId ≤ (s.apply record).nextTurnId := by
  cases record with
  | prompt => exact Nat.le_of_succ_le (advanceTurnClock_skipped s _ _).le
  | steer => exact le_refl _
  | cancel turnId target =>
    show _ ≤ (s.cancelTurn turnId target).nextTurnId
    unfold TurnModelState.cancelTurn
    split
    · split_ifs
      · exact le_refl _
      · exact (advanceTurnClock_skipped s _ _).le
    · exact le_refl _
  | ended turnId reason => exact le_refl _
  | loopEvent turnId =>
    cases turnId with
    | none => exact le_refl _
    | some turnId =>
      show _ ≤ (s.reduceLoopEvent (some turnId)).nextTurnId
      rw [TurnModelState.reduceLoopEvent]
      have hnext : s.nextTurnId ≤ (if s.nextTurnId ≤ turnId then
          advanceTurnClock s (turnId + 1) s.cancelledTurnIds else s).nextTurnId := by
        split_ifs with hle
        · exact Nat.le_trans (Nat.le_succ_of_le hle) (advanceTurnClock_skipped s _ _).le
        · exact le_refl _
      split_ifs at hnext ⊢ <;> exact hnext

theorem replayedTurnIds_sorted (records : List TurnRecord) : (replayedTurnIds records).Pairwise (· < ·) ∧
      ∀ id ∈ replayedTurnIds records, id < (replayTurns records).nextTurnId := by
  induction records using List.reverseRecOn with
  | nil => exact ⟨.nil, fun _ hid => absurd hid List.not_mem_nil⟩
  | append_singleton records record ih =>
    obtain ⟨hsorted, hlt⟩ := ih
    have hle := nextTurnId_le_apply (replayTurns records) record
    rw [replayedTurnIds_concat, replayTurns_concat]
    split_ifs with hprompt
    · subst hprompt
      have hskip := advanceTurnClock_skipped (replayTurns records)
        ((replayTurns records).nextTurnId + 1) (replayTurns records).cancelledTurnIds
      constructor
      · refine List.pairwise_append.mpr ⟨hsorted, List.pairwise_singleton _ _, ?_⟩
        intro a ha b hb
        obtain rfl := List.mem_singleton.mp hb
        exact hlt a ha
      · intro id hid
        rcases List.mem_append.mp hid with hid | hid
        · exact lt_of_lt_of_le (hlt id hid) hle
        · obtain rfl := List.mem_singleton.mp hid
          exact hskip.le
    · rw [List.append_nil]
      exact ⟨hsorted, fun id hid => lt_of_lt_of_le (hlt id hid) hle⟩

structure OpenIds (clock : Nat) (cancelled queued : List Nat) (next : Nat) : Prop where
  le : clock ≤ next
  open_iff : ∀ id, id ∈ queued ∨ id ∈ cancelled ↔ clock ≤ id ∧ id < next
  disjoint : ∀ id ∈ queued, id ∉ cancelled
  clock_not : clock ∉ cancelled
  sorted : queued.Pairwise (· < ·)

namespace OpenIds

theorem of_skipped {cancelled queued : List Nat} (hle : first ≤ next)
    (hopen : ∀ id, first ≤ id → (id ∈ queued ∨ id ∈ cancelled ↔ id < next))
    (hqueued : ∀ id ∈ queued, first ≤ id) (hdisjoint : ∀ id ∈ queued, id ∉ cancelled)
    (hsorted : queued.Pairwise (· < ·))
    (hskip : Skipped first (cancelled.filter fun id => first ≤ id) stop rest) :
    OpenIds stop rest queued next := by
  have hpassed : ∀ id, first ≤ id → id < stop → id ∈ cancelled := fun id hge hlt =>
    List.mem_of_mem_filter (hskip.passed id hge hlt)
  have hrest : ∀ id ∈ rest, id ∈ cancelled := fun id hid => List.mem_of_mem_filter ((hskip.rest_iff id).mp hid).1
  constructor
  · by_contra hlt
    have hmem := hpassed next hle (Nat.lt_of_not_le hlt)
    exact lt_irrefl _ ((hopen next hle).mp (.inr hmem))
  · intro id
    constructor
    · rintro (hid | hid)
      · have hge := hqueued id hid
        refine ⟨?_, (hopen id hge).mp (.inl hid)⟩
        by_contra hlt
        exact hdisjoint id hid (hpassed id hge (Nat.lt_of_not_le hlt))
      · have hgt := ((hskip.rest_iff id).mp hid).2
        have hge := le_trans hskip.le (le_of_lt hgt)
        exact ⟨le_of_lt hgt, (hopen id hge).mp (.inr (hrest id hid))⟩
    · rintro ⟨hstop, hlt⟩
      have hge := le_trans hskip.le hstop
      rcases (hopen id hge).mpr hlt with hid | hid
      · exact .inl hid
      · have hmem : id ∈ cancelled.filter fun id => first ≤ id := List.mem_filter.mpr ⟨hid, decide_eq_true hge⟩
        have hne : stop ≠ id := fun heq => hskip.stopped (heq ▸ hmem)
        exact .inr ((hskip.rest_iff id).mpr ⟨hmem, lt_of_le_of_ne hstop hne⟩)
  · exact fun id hid hmem => hdisjoint id hid (hrest id hmem)
  · exact fun hmem => lt_irrefl _ ((hskip.rest_iff stop).mp hmem).2
  · exact hsorted

theorem reserve (h : OpenIds clock cancelled queued next) :
    OpenIds clock cancelled (queued ++ [next]) (next + 1) := by
  constructor
  · exact Nat.le_succ_of_le h.le
  · intro id
    have hopen := h.open_iff id
    have hle := h.le
    rw [List.mem_append, List.mem_singleton, or_right_comm, hopen]
    omega
  · intro id hid hmem
    rcases List.mem_append.mp hid with hid | hid
    · exact h.disjoint id hid hmem
    · obtain rfl := List.mem_singleton.mp hid
      exact lt_irrefl _ ((h.open_iff id).mp (.inr hmem)).2
  · exact h.clock_not
  · refine List.pairwise_append.mpr ⟨h.sorted, List.pairwise_singleton _ _, ?_⟩
    intro a ha b hb
    obtain rfl := List.mem_singleton.mp hb
    exact ((h.open_iff a).mp (.inl ha)).2

theorem head_eq (h : OpenIds clock cancelled (head :: queued) next) : head = clock := by
  have hhead := (h.open_iff head).mp (.inl List.mem_cons_self)
  have hclock := ((h.open_iff clock).mpr
    ⟨le_refl _, lt_of_le_of_lt hhead.1 hhead.2⟩).resolve_right h.clock_not
  rcases List.mem_cons.mp hclock with heq | hmem
  · exact heq.symm
  · exact absurd hhead.1 (Nat.not_le_of_lt (List.rel_of_pairwise_cons h.sorted hmem))

theorem start (h : OpenIds clock cancelled (clock :: queued) next)
    (hskip : Skipped (clock + 1) (cancelled.filter fun id => clock + 1 ≤ id) stop rest) :
    OpenIds stop rest queued next := by
  have hlt := ((h.open_iff clock).mp (.inl List.mem_cons_self)).2
  have hsorted : queued.Pairwise (· < ·) := h.sorted.tail
  apply of_skipped hlt _ _ _ hsorted hskip
  · intro id hge
    have hopen := h.open_iff id
    rw [List.mem_cons, or_iff_right (ne_of_gt hge)] at hopen
    rw [hopen, and_iff_right (Nat.le_of_succ_le hge)]
  · exact fun id hid => List.rel_of_pairwise_cons h.sorted hid
  · exact fun id hid => h.disjoint id (List.mem_cons_of_mem _ hid)

theorem cancel (h : OpenIds clock cancelled queued next) (hmem : turnId ∈ queued)
    (hskip : Skipped clock ((cancelled ++ [turnId]).filter fun id => clock ≤ id) stop rest) :
    OpenIds stop rest (queued.erase turnId) next := by
  have hnodup : queued.Nodup := h.sorted.imp ne_of_lt
  have herase : ∀ id, id ∈ queued.erase turnId ↔ id ≠ turnId ∧ id ∈ queued := fun id => hnodup.mem_erase_iff
  apply of_skipped h.le _ _ _ (h.sorted.sublist List.erase_sublist) hskip
  · intro id hge
    have hopen := h.open_iff id
    rw [and_iff_right hge] at hopen
    rw [herase, List.mem_append, List.mem_singleton, ← hopen]
    by_cases heq : id = turnId
    · subst heq
      exact iff_of_true (.inr (.inr rfl)) (.inl hmem)
    · rw [and_iff_right heq, or_iff_left heq]
  · exact fun id hid => ((h.open_iff id).mp (.inl ((herase id).mp hid).2)).1
  · intro id hid hcancelled
    obtain ⟨hne, hid⟩ := (herase id).mp hid
    rcases List.mem_append.mp hcancelled with hcancelled | hcancelled
    · exact h.disjoint id hid hcancelled
    · exact hne (List.mem_singleton.mp hcancelled)

end OpenIds

end Echadron.Agent
