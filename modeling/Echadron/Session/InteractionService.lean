import Echadron.Lib.JsMap

namespace Echadron.Session
open Lib List

variable {P V : Type}

/-! The interactions of a session that await a response. -/

inductive InteractionKind where
  | approval
  | question
  | userTool
deriving DecidableEq

structure InteractionOrigin where
  agentId : Option String := none
  turnId : Option Nat := none
deriving DecidableEq

structure Interaction (P : Type) where
  id : String
  kind : InteractionKind
  payload : P
  origin : InteractionOrigin
  createdAt : Nat
deriving DecidableEq

inductive Response (V : Type) where
  | cancelled (reason : String)
  | given (value : V)
deriving DecidableEq

def RECENTLY_RESOLVED_TTL_MS : Nat := 60000

def RECENTLY_RESOLVED_MAX : Nat := 256

def MAIN_AGENT_ID : String := "main"

def InteractionOrigin.owner (origin : InteractionOrigin) : String := origin.agentId.getD MAIN_AGENT_ID

structure InteractionService (P V : Type) where
  pending : JsMap String (Interaction P) := .empty
  recentlyResolved : JsMap String Nat := .empty
  nextId : Nat := 0
  /-- What `onDidResolve` has announced. -/
  resolutions : List (String × Response V) := []

namespace InteractionService

variable (service : InteractionService P V)

def rememberResolved (now : Nat) (id : String) : InteractionService P V :=
  let kept := service.recentlyResolved.entries.foldl
    (fun resolved e => if RECENTLY_RESOLVED_TTL_MS < now - e.2 then resolved.delete e.1 else resolved)
    service.recentlyResolved
  let oldest := kept.keys.take (kept.size + 1 - RECENTLY_RESOLVED_MAX)
  { service with recentlyResolved := (oldest.foldl JsMap.delete kept).set id now }

def resolve (now : Nat) (id : String) (response : Response V) : InteractionService P V :=
  let service := { service with pending := service.pending.delete id }.rememberResolved now id
  { service with resolutions := service.resolutions ++ [(id, response)] }

def cancelPendingForTurn (now turnId : Nat) : InteractionService P V :=
  service.pending.entries.foldl
    (fun service e =>
      if e.2.origin.turnId = some turnId then service.resolve now e.1 (.cancelled "turn_ended") else service)
    service

def respond (now : Nat) (id : String) (response : V) : InteractionService P V :=
  if service.pending.has id then service.resolve now id (.given response) else service

def park (now : Nat) (id : Option String) (kind : InteractionKind) (payload : P) (origin : InteractionOrigin) :
    InteractionService P V :=
  let own := id.getD s!"interaction-{service.nextId}"
  { service with
    pending := service.pending.set own
      { id := own, kind := kind, payload := payload, origin := origin, createdAt := now }
    nextId := if id.isNone then service.nextId + 1 else service.nextId }

/-- The subscription to `turn.ended` on the bus of an agent. -/
def turnEnded (now : Nat) (_agentId : String) (turnId : Nat) : InteractionService P V :=
  service.cancelPendingForTurn now turnId

def Asks (agentId : String) (turnId : Nat) (origin : InteractionOrigin) : Prop :=
  origin.owner = agentId ∧ origin.turnId = some turnId

instance Asks.decidable (agentId : String) (turnId : Nat) (origin : InteractionOrigin) :
    Decidable (Asks agentId turnId origin) :=
  inferInstanceAs (Decidable (origin.owner = agentId ∧ origin.turnId = some turnId))

structure CancelsExactly (now : Nat) (agentId : String) (turnId : Nat) : Prop where
  pending : (service.turnEnded now agentId turnId).pending.entries =
    service.pending.entries.filter fun e => ¬Asks agentId turnId e.2.origin
  resolutions : (service.turnEnded now agentId turnId).resolutions = service.resolutions ++
    (service.pending.entries.filter fun e => Asks agentId turnId e.2.origin).map fun e =>
      (e.1, .cancelled "turn_ended")

end InteractionService

open InteractionService

variable {service : InteractionService P V}

theorem resolve_resolutions (now : Nat) (id : String) (response : Response V) :
    (service.resolve now id response).resolutions = service.resolutions ++ [(id, response)] := rfl

theorem cancel_entries (now turnId : Nat) (entries : List (String × Interaction P))
    (service : InteractionService P V) :
    let cancelled := entries.filter fun e => e.2.origin.turnId = some turnId
    let last := entries.foldl
      (fun service e =>
        if e.2.origin.turnId = some turnId then service.resolve now e.1 (.cancelled "turn_ended") else service)
      service
    last.pending = (cancelled.map Prod.fst).foldl JsMap.delete service.pending ∧
      last.resolutions = service.resolutions ++ cancelled.map fun e => (e.1, .cancelled "turn_ended") := by
  induction entries generalizing service with
  | nil => exact ⟨rfl, (append_nil _).symm⟩
  | cons e entries ih =>
    by_cases hturn : e.2.origin.turnId = some turnId
    · obtain ⟨hpending, hresolutions⟩ := ih (service.resolve now e.1 (.cancelled "turn_ended"))
      simp only [foldl_cons, hturn, decide_true, filter_cons_of_pos, map_cons]
      refine ⟨hpending, hresolutions.trans ?_⟩
      rw [resolve_resolutions, append_assoc, singleton_append]
    · simp only [foldl_cons, hturn, ↓reduceIte, decide_false, Bool.false_eq_true, not_false_eq_true,
        filter_cons_of_neg]
      exact ih service

theorem turnEnded_entries (service : InteractionService P V) (now : Nat) (agentId : String) (turnId : Nat) :
    (service.turnEnded now agentId turnId).pending.entries =
        service.pending.entries.filter (fun e => ¬e.2.origin.turnId = some turnId) ∧
      (service.turnEnded now agentId turnId).resolutions = service.resolutions ++
        (service.pending.entries.filter fun e => e.2.origin.turnId = some turnId).map fun e =>
          (e.1, .cancelled "turn_ended") := by
  obtain ⟨hpending, hresolutions⟩ := cancel_entries now turnId service.pending.entries service
  refine ⟨?_, hresolutions⟩
  have hentries := congrArg JsMap.entries hpending
  refine hentries.trans ?_
  rw [JsMap.entries_foldl_delete]
  apply filter_congr
  intro e he
  apply decide_eq_decide.mpr
  rw [not_iff_not]
  constructor
  · intro hmem
    obtain ⟨other, hother, hid⟩ := mem_map.mp hmem
    obtain ⟨hin, hturn⟩ := mem_filter.mp hother
    have hsame : other = e := by
      obtain ⟨id, interaction⟩ := e
      obtain ⟨otherId, otherInteraction⟩ := other
      obtain rfl : otherId = id := hid
      rw [JsMap.mem_entries_iff] at he hin
      rw [Option.mem_unique he hin]
    exact hsame ▸ of_decide_eq_true hturn
  · intro hturn
    exact mem_map.mpr ⟨e, mem_filter.mpr ⟨he, decide_eq_true hturn⟩, rfl⟩

/-- The end of a turn cancels exactly its own agent's interactions if and only if no other agent has
one pending in a turn of the same number. -/
theorem cancelsExactly_iff (service : InteractionService P V) (now : Nat) (agentId : String) (turnId : Nat) :
    service.CancelsExactly now agentId turnId ↔
      ∀ e ∈ service.pending.entries, e.2.origin.turnId = some turnId → e.2.origin.owner = agentId := by
  obtain ⟨hpending, hresolutions⟩ := turnEnded_entries service now agentId turnId
  constructor
  · intro h e he hturn
    by_contra hother
    have hkept : e ∈ service.pending.entries.filter fun e => ¬Asks agentId turnId e.2.origin :=
      mem_filter.mpr ⟨he, decide_eq_true fun hasks => hother hasks.1⟩
    rw [← h.pending, hpending] at hkept
    exact of_decide_eq_true (mem_filter.mp hkept).2 hturn
  · intro h
    have hsame : ∀ e ∈ service.pending.entries,
        (e.2.origin.turnId = some turnId ↔ Asks agentId turnId e.2.origin) := by
      intro e he
      exact ⟨fun hturn => ⟨h e he hturn, hturn⟩, fun hasks => hasks.2⟩
    constructor
    · rw [hpending]
      apply filter_congr
      intro e he
      exact decide_eq_decide.mpr (not_congr (hsame e he))
    · rw [hresolutions]
      congr 2
      apply filter_congr
      intro e he
      exact decide_eq_decide.mpr (hsame e he)

def firstTurns : InteractionService Unit Unit :=
  ({} : InteractionService Unit Unit).park 0 none .approval () { agentId := some "main", turnId := some 0 }
    |>.park 0 none .approval () { agentId := some "sub", turnId := some 0 }

/-- The end of the one's turn cancels what the other asks. -/
theorem firstTurns_not_cancelsExactly : ¬firstTurns.CancelsExactly 1 "main" 0 := by
  intro h
  have hall := (h.pending.symm.trans rfl : _ = [])
  cases hall

end Echadron.Session
