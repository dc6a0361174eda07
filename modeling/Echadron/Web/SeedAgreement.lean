import Echadron.Web.InFlightSeed

namespace Echadron.Web
open Lib Server List Option

/-! What one event does to the stream of a session, and where runs of frames lead it. -/

variable {U : Type}

/-- Where a session stands, as far as its text goes: the turn in flight and the text of its step. -/
structure Spot (U : Type) where
  phase : Phase
  said : Option (Nat × List U × List U)

def Point.spot (p : Point U) : Spot U where
  phase := p.phase
  said := p.tracker.map fun turn => (turn.turnId, turn.assistantText, turn.thinkingText)

def stepText (step : List U × List U) : DeltaKind → List U
  | .assistant => step.1
  | .thinking => step.2

/-- Every kind of event, the spots that it leads between, and the offset of its frame. -/
inductive Move : Spot U → AgentEvent U → Spot U → Option Nat → Prop where
  | turnStarted (turnId : Nat) :
    Move ⟨.idle, none⟩ (.turnStarted turnId) ⟨.between turnId, some (turnId, [], [])⟩ none
  | stepStarted {phase : Phase} {turnId : Nat} {step : List U × List U} (h : phase ≠ .streaming turnId) :
    Move ⟨phase, some (turnId, step)⟩ (.stepStarted turnId) ⟨.streaming turnId, some (turnId, [], [])⟩ none
  | delta (turnId : Nat) (step : List U × List U) (kind : DeltaKind) (delta : List U) :
    Move ⟨.streaming turnId, some (turnId, step)⟩ (.delta kind turnId delta)
      ⟨.streaming turnId, some (turnId, withDelta kind delta step)⟩ (some (stepText step kind).length)
  | toolCallStarted {phase : Phase} {turnId : Nat} {step : List U × List U} (toolCallId name : String) :
    Move ⟨phase, some (turnId, step)⟩ (.toolCallStarted turnId toolCallId name)
      ⟨phase, some (turnId, step)⟩ none
  | toolProgress (spot : Spot U) (toolCallId : String) (text : List U) :
    Move spot (.toolProgress toolCallId text) spot none
  | toolResult {phase : Phase} {turnId : Nat} {step : List U × List U} (toolCallId : String)
    (h : phase.cleared = false) :
    Move ⟨phase, some (turnId, step)⟩ (.toolResult turnId toolCallId)
      ⟨.between turnId, some (turnId, step)⟩ none
  | stepCompleted {phase : Phase} {turnId : Nat} {step : List U × List U} (h : phase.cleared = false) :
    Move ⟨phase, some (turnId, step)⟩ (.stepCompleted turnId) ⟨.between turnId, some (turnId, step)⟩ none
  | stepRetrying (turnId : Nat) (step : List U × List U) :
    Move ⟨.streaming turnId, some (turnId, step)⟩ (.stepRetrying turnId)
      ⟨.retrying turnId, some (turnId, step)⟩ none
  | stepInterrupted {phase phase' : Phase} {turnId : Nat} {step : List U × List U}
    (h : phase' = if phase.cleared then .abandoned turnId else .between turnId) :
    Move ⟨phase, some (turnId, step)⟩ (.stepInterrupted turnId) ⟨phase', some (turnId, step)⟩ none
  | turnEnded {phase : Phase} {turnId : Nat} {step : List U × List U} :
    Move ⟨phase, some (turnId, step)⟩ (.turnEnded turnId) ⟨.idle, none⟩ none

/-- The turn in flight is the one that the loop runs. -/
def Point.Sound (p : Point U) : Prop := p.tracker.map TurnAccum.turnId = p.phase.turnId

def Spot.text (spot : Spot U) (kind : DeltaKind) : List U :=
  match spot.said with
  | none => []
  | some (_, step) => stepText step kind

def Phase.InTurn (phase : Phase) (turnId : Nat) (phase' : Phase) : AgentEvent U → Prop
  | .turnStarted _ => False
  | .stepStarted _ => phase ≠ .streaming turnId ∧ phase' = .streaming turnId
  | .delta _ _ _ => phase = .streaming turnId ∧ phase' = .streaming turnId
  | .toolCallStarted _ _ _ => phase' = phase
  | .toolProgress _ _ => phase' = phase
  | .toolResult _ _ => phase.cleared = false ∧ phase' = .between turnId
  | .stepCompleted _ => phase.cleared = false ∧ phase' = .between turnId
  | .stepRetrying _ => phase = .streaming turnId ∧ phase' = .retrying turnId
  | .stepInterrupted _ => phase' = if phase.cleared then .abandoned turnId else .between turnId
  | .turnEnded _ => phase' = .idle

theorem Phase.inTurn_of_next {phase phase' : Phase} {turnId : Nat}
    (hturn : phase.turnId = some turnId) (hnext : phase.next event = some phase') :
    phase.InTurn turnId phase' event := by
  cases phase <;> cases hturn <;> cases event <;> cases hnext <;> simp [Phase.InTurn, Phase.cleared]

theorem move_inTurn
    (hevent : eventTurn event = none ∨ eventTurn event = some turn.turnId)
    (h : phase.InTurn turn.turnId phase' event) (hphase : phase.turnId = some turn.turnId) :
    Point.Sound ⟨phase', (InFlightTurnTracker.apply (some turn) event).1⟩ ∧
      Move (Point.spot ⟨phase, some turn⟩) event
        (Point.spot ⟨phase', (InFlightTurnTracker.apply (some turn) event).1⟩)
        (InFlightTurnTracker.apply (some turn) event).2 := by
  cases event with
  | turnStarted turnId => exact h.elim
  | stepStarted turnId =>
    obtain rfl := some.inj (hevent.resolve_left (some_ne_none _))
    obtain ⟨hne, rfl⟩ := h
    simp only [InFlightTurnTracker.apply, InFlightTurnTracker.inTurn, map_some]
    exact ⟨rfl, .stepStarted hne⟩
  | delta kind turnId delta =>
    obtain rfl := some.inj (hevent.resolve_left (some_ne_none _))
    obtain ⟨rfl, rfl⟩ := h
    simp only [InFlightTurnTracker.apply]
    cases kind
    · exact ⟨rfl, .delta _ _ .assistant delta⟩
    · exact ⟨rfl, .delta _ _ .thinking delta⟩
  | toolCallStarted turnId toolCallId name =>
    obtain rfl := some.inj (hevent.resolve_left (some_ne_none _))
    obtain rfl := h
    simp only [InFlightTurnTracker.apply, InFlightTurnTracker.inTurn, map_some]
    exact ⟨hphase.symm, .toolCallStarted ..⟩
  | toolProgress toolCallId text =>
    obtain rfl := h
    simp only [InFlightTurnTracker.apply, map_some]
    split
    · exact ⟨hphase.symm, .toolProgress ..⟩
    · exact ⟨hphase.symm, .toolProgress ..⟩
  | toolResult turnId toolCallId =>
    obtain rfl := some.inj (hevent.resolve_left (some_ne_none _))
    obtain ⟨hcleared, rfl⟩ := h
    exact ⟨rfl, .toolResult toolCallId hcleared⟩
  | stepCompleted turnId =>
    obtain rfl := some.inj (hevent.resolve_left (some_ne_none _))
    obtain ⟨hcleared, rfl⟩ := h
    exact ⟨rfl, .stepCompleted hcleared⟩
  | stepRetrying turnId =>
    obtain rfl := some.inj (hevent.resolve_left (some_ne_none _))
    obtain ⟨rfl, rfl⟩ := h
    exact ⟨rfl, .stepRetrying ..⟩
  | stepInterrupted turnId =>
    obtain rfl := some.inj (hevent.resolve_left (some_ne_none _))
    refine ⟨?_, .stepInterrupted h⟩
    rw [h]
    cases phase.cleared <;> rfl
  | turnEnded turnId =>
    obtain rfl := some.inj (hevent.resolve_left (some_ne_none _))
    obtain rfl := h
    exact ⟨rfl, .turnEnded⟩

/-- An event that is published is one of these moves, and the turns go on agreeing. -/
theorem Point.Sound.publish {p p' : Point U} (h : p.Sound) (hpublish : p.publish event = some (p', frame)) :
    p'.Sound ∧ frame.event = event ∧ Move p.spot event p'.spot frame.offset := by
  obtain ⟨phase, tracker⟩ := p
  rw [Point.publish] at hpublish
  split at hpublish
  · rename_i hevent
    obtain ⟨phase', hnext, heq⟩ := map_eq_some_iff.mp hpublish
    obtain ⟨rfl, rfl⟩ := Prod.mk.inj heq
    cases hturn : phase.turnId with
    | none =>
      have htracker : tracker.map TurnAccum.turnId = none := h.trans hturn
      obtain rfl := map_eq_none_iff.mp htracker
      cases phase <;> cases hturn
      cases event <;> cases hnext
      · exact ⟨rfl, rfl, .turnStarted _⟩
      · exact ⟨rfl, rfl, .toolProgress _ _ _⟩
    | some turnId =>
      have htracker : tracker.map TurnAccum.turnId = some turnId := h.trans hturn
      obtain ⟨turn, rfl, rfl⟩ := map_eq_some_iff.mp htracker
      have hmeant : eventTurn event = none ∨ eventTurn event = some turn.turnId := by
        simpa [hturn] using hevent
      have hmove := move_inTurn hmeant (Phase.inTurn_of_next hturn hnext) hturn
      exact ⟨hmove.1, rfl, hmove.2⟩
  · cases hpublish

/-- Frames that take a session from one spot to another. -/
inductive Leads : Spot U → List (Frame U) → Spot U → Prop where
  | nil (p : Spot U) : Leads p [] p
  | cons {p q r : Spot U} {frame : Frame U} {frames : List (Frame U)} (h : Move p frame.event q frame.offset)
    (hrest : Leads q frames r) : Leads p (frame :: frames) r

namespace Leads

variable {p q r : Spot U} {frames more : List (Frame U)}

theorem append (h : Leads p frames q) (hmore : Leads q more r) : Leads p (frames ++ more) r := by
  induction h with
  | nil p => exact hmore
  | cons hmove _ ih => exact .cons hmove (ih hmore)

theorem split (h : Leads p (frames ++ more) r) : ∃ q, Leads p frames q ∧ Leads q more r := by
  induction frames generalizing p with
  | nil => exact ⟨p, .nil p, h⟩
  | cons frame frames ih =>
    cases h with
    | cons hmove hrest =>
      obtain ⟨q, hframes, hmore⟩ := ih hrest
      exact ⟨q, .cons hmove hframes, hmore⟩

theorem keeps {I : Spot U → Prop} (h : Leads p frames q) (hrestarts : ∀ frame ∈ frames, ¬ Restarts frame)
    (hstep : ∀ p q frame, ¬ Restarts frame → Move p frame.event q frame.offset → I p → I q) (hp : I p) :
    I q := by
  induction h with
  | nil p => exact hp
  | cons hmove _ ih =>
    obtain ⟨hframe, hframes⟩ := forall_mem_cons.mp hrestarts
    exact ih hframes (hstep _ _ _ hframe hmove hp)

theorem eq_of_silent (h : Leads p frames q) (hsilent : ∀ frame ∈ frames, Silent frame) : p = q := by
  induction h with
  | nil p => rfl
  | @cons p q r frame frames hmove _ ih =>
    obtain ⟨hframe, hframes⟩ := forall_mem_cons.mp hsilent
    rw [← ih hframes]
    obtain ⟨event, offset⟩ := frame
    cases hmove with
    | delta turnId step kind delta =>
      obtain rfl : delta = [] := hframe
      cases kind <;> simp [withDelta]
    | _ => exact hframe.elim

end Leads

/-! No step begins in frames that start no stream. -/

def Spot.Quiet (spot : Spot U) : Prop := ∀ turnId, spot.phase ≠ .streaming turnId

def Spot.Blank (spot : Spot U) : Prop := spot.Quiet ∧ ∀ kind, spot.text kind = []

/-- There is more text than a client with `n` units has, or there is none. -/
def Spot.Beyond (spot : Spot U) (kind : DeltaKind) (n : Nat) : Prop := n < (spot.text kind).length ∨ spot.Blank

theorem Move.quiet (hrestarts : ¬ Restarts frame)
    (h : Move p frame.event q frame.offset) (hp : p.Quiet) : q.Quiet := by
  obtain ⟨event, offset⟩ := frame
  cases h with
  | stepStarted _ => exact absurd trivial hrestarts
  | delta turnId step kind delta => exact absurd rfl (hp turnId)
  | toolCallStarted _ _ => exact hp
  | toolProgress _ _ _ => exact hp
  | stepInterrupted hphase =>
    intro turnId heq
    rw [hphase] at heq
    split at heq <;> cases heq
  | _ => exact fun _ => Phase.noConfusion

theorem stepText_nil (kind : DeltaKind) : stepText (([], []) : List U × List U) kind = [] := by
  cases kind <;> rfl

theorem Move.blank (hrestarts : ¬ Restarts frame)
    (h : Move p frame.event q frame.offset) (hp : p.Blank) : q.Blank := by
  refine ⟨h.quiet hrestarts hp.1, ?_⟩
  obtain ⟨event, offset⟩ := frame
  cases h with
  | turnStarted _ => exact stepText_nil
  | stepStarted _ => exact stepText_nil
  | delta turnId step kind delta => exact absurd rfl (hp.1 turnId)
  | turnEnded => exact fun _ => rfl
  | _ => exact hp.2

theorem Move.beyond {kind : DeltaKind} (hrestarts : ¬ Restarts frame)
    (h : Move p frame.event q frame.offset) (hp : p.Beyond kind n) : q.Beyond kind n := by
  obtain hlong | hblank := hp
  · obtain ⟨event, offset⟩ := frame
    cases h with
    | turnStarted _ => exact absurd hlong (Nat.not_lt_zero n)
    | stepStarted _ => exact absurd trivial hrestarts
    | delta turnId step kind' delta =>
      refine .inl (Nat.lt_of_lt_of_le hlong ?_)
      cases kind <;> cases kind' <;> simp [Spot.text, stepText, withDelta]
    | turnEnded => exact .inr ⟨fun _ => Phase.noConfusion, fun _ => rfl⟩
    | _ => exact .inl hlong
  · exact .inr (h.blank hrestarts hblank)

/-- `frame` is the merge of a frame and those behind it. -/
inductive Coalesced : Frame U → List (Frame U) → Frame U → Prop where
  | nil (frame : Frame U) : Coalesced frame [] frame
  | cons {first next merged frame : Frame U} {rest : List (Frame U)} (h : mergeFrames first next = some merged)
    (hrest : Coalesced merged rest frame) : Coalesced first (next :: rest) frame

theorem coalesceStep_length (out : List (Frame U)) (frame : Frame U) :
    out.length ≤ (coalesceStep out frame).length := by
  rw [coalesceStep]
  split
  · simp
  · split
    · rw [length_append, length_dropLast, length_singleton]
      omega
    · simp

theorem foldl_coalesceStep_length (frames out : List (Frame U)) :
    out.length ≤ (frames.foldl coalesceStep out).length := by
  induction frames generalizing out with
  | nil => exact Nat.le_refl _
  | cons frame frames ih => exact Nat.le_trans (coalesceStep_length out frame) (ih _)

theorem Coalesced.of_foldl
    (h : frames.foldl coalesceStep [first] = [frame]) : Coalesced first frames frame := by
  induction frames generalizing first with
  | nil =>
    obtain rfl := singleton_inj.mp h
    exact .nil first
  | cons next frames ih =>
    cases hmerged : mergeFrames first next with
    | some merged =>
      have hstep : coalesceStep [first] next = [merged] := by simp [coalesceStep, hmerged]
      rw [foldl_cons, hstep] at h
      exact .cons hmerged (ih h)
    | none =>
      have hstep : coalesceStep [first] next = [first, next] := by simp [coalesceStep, hmerged]
      rw [foldl_cons, hstep] at h
      -- two frames never become one again
      have hlen := foldl_coalesceStep_length frames [first, next]
      rw [h] at hlen
      exact absurd hlen (Nat.not_succ_le_self 1)

theorem Coalesced.of_coalesceFrames
    (h : coalesceFrames frames = [frame]) : ∃ first rest, frames = first :: rest ∧ Coalesced first rest frame := by
  cases frames with
  | nil => cases h
  | cons first rest => exact ⟨first, rest, rfl, .of_foldl h⟩

theorem mergeFrames_eq {first next merged : Frame U} (h : mergeFrames first next = some merged) :
    ∃ kind turnId delta more offset offset', first = ⟨.delta kind turnId delta, offset⟩ ∧
      next = ⟨.delta kind turnId more, offset'⟩ ∧ merged = ⟨.delta kind turnId (delta ++ more), offset⟩ := by
  obtain ⟨event, offset⟩ := first
  obtain ⟨event', offset'⟩ := next
  rw [mergeFrames] at h
  split at h
  · rename_i kind turnId delta kind' turnId' more heq heq'
    split at h
    · rename_i hsame
      obtain ⟨rfl, rfl⟩ := hsame
      subst heq heq'
      exact ⟨kind, turnId, delta, more, offset, offset', rfl, rfl, (some.inj h).symm⟩
    · cases h
  · cases h

theorem modifyLast_twice (f g : α → α) (as : List α) :
    (as.modifyLast f).modifyLast g = as.modifyLast fun a => g (f a) := by
  obtain rfl | ⟨as, a, rfl⟩ := as.eq_nil_or_concat
  · rfl
  · simp only [concat_eq_append, modifyLast_concat]

theorem withDelta_append (kind : DeltaKind) (delta more : List U) (step : List U × List U) :
    withDelta kind more (withDelta kind delta step) = withDelta kind (delta ++ more) step := by
  cases kind <;> simp [withDelta]

theorem Move.merge {first next merged : Frame U} (hmerge : mergeFrames first next = some merged)
    (hfirst : Move p first.event q first.offset) (hnext : Move q next.event r next.offset) :
    Move p merged.event r merged.offset ∧ (Restarts merged → Restarts first ∨ Restarts next) := by
  obtain ⟨kind, turnId, delta, more, offset, offset', rfl, rfl, rfl⟩ := mergeFrames_eq hmerge
  cases hfirst with
  | delta turnId step kind delta =>
    cases hnext with
    | delta turnId step kind more =>
      rw [withDelta_append]
      refine ⟨.delta turnId step kind (delta ++ more), ?_⟩
      rintro ⟨htext, hoffset⟩
      cases delta with
      | nil =>
        -- a delta without text leaves the next one where it is
        refine .inr ⟨htext, ?_⟩
        rw [← hoffset]
        cases kind <;> simp [withDelta, stepText]
      | cons u delta => exact .inl ⟨cons_ne_nil u delta, hoffset⟩

theorem Coalesced.move (h : Coalesced first rest frame) (hleads : Leads p (first :: rest) q) :
    Move p frame.event q frame.offset ∧ (Restarts frame → ∃ f ∈ first :: rest, Restarts f) := by
  induction h with
  | nil frame =>
    cases hleads with
    | cons hmove hrest =>
      cases hrest
      exact ⟨hmove, fun hrestarts => ⟨frame, mem_singleton_self frame, hrestarts⟩⟩
  | @cons first next merged frame rest hmerge _ ih =>
    cases hleads with
    | cons hfirst hleads =>
      cases hleads with
      | cons hnext hrest =>
        obtain ⟨hmove, hstarts⟩ := hfirst.merge hmerge hnext
        obtain ⟨hframe, hstart⟩ := ih (.cons hmove hrest)
        refine ⟨hframe, ?_⟩
        intro hrestarts
        obtain ⟨f, hf, hrest⟩ := hstart hrestarts
        rcases mem_cons.mp hf with rfl | hf
        · obtain hfirst | hnext := hstarts hrest
          · exact ⟨_, by simp, hfirst⟩
          · exact ⟨_, by simp, hnext⟩
        · exact ⟨f, by simp [hf], hrest⟩

theorem Coalesced.tell (h : Coalesced first rest frame)
    (told : Told U) : ((first :: rest).map Frame.event).foldl Told.tell told = told.tell frame.event := by
  induction h with
  | nil frame => rfl
  | cons hmerge _ ih =>
    rw [← ih]
    obtain ⟨kind, turnId, delta, more, offset, offset', rfl, rfl, rfl⟩ := mergeFrames_eq hmerge
    have htell : (told.tell (.delta kind turnId delta)).tell (.delta kind turnId more) =
        told.tell (.delta kind turnId (delta ++ more)) := by
      simp only [Told.tell, modifyLast_twice, withDelta_append]
    simp only [map_cons, foldl_cons, htell]

/-! Frames keep what a client shows what the client has been told. -/

def shownText (content : List (AppMessageContent U)) : List U × List U :=
  (content.flatMap (partText .assistant), content.flatMap (partText .thinking))

theorem appendDelta_shown (kind : DeltaKind) (delta : List U) (content : List (AppMessageContent U)) :
    shownText (appendDelta kind delta content) = withDelta kind delta (shownText content) := by
  obtain rfl | ⟨content, part, rfl⟩ := content.eq_nil_or_concat
  · cases kind <;> simp [shownText, appendDelta, ofKind, partText, withDelta]
  · cases part <;> cases kind <;>
      simp [shownText, appendDelta, extendPart, ofKind, partText, withDelta]

theorem filter_shown (content : List (AppMessageContent U)) :
    shownText (content.filter fun part => !isStreamed part) = ([], []) := by
  induction content with
  | nil => rfl
  | cons part content ih =>
    cases part with
    | toolResult toolCallId => exact ih
    | _ => exact ih

theorem toolUse_shown (content : List (AppMessageContent U)) (toolCallId name : String) :
    shownText (content ++ [.toolUse toolCallId name none]) = shownText content := by
  simp [shownText, partText]

def bubblesOf (messages : List (AppMessage U)) : List (List U × List U) :=
  (messages.filter fun msg => msg.role = .assistant).map fun msg => shownText msg.content

def Open (messages : List (AppMessage U)) (id : Nat) : Prop :=
  ∃ init msg, messages = init ++ [msg] ∧ msg.id = id ∧ msg.role = .assistant ∧ ∀ m ∈ init, m.id ≠ id

theorem updateMessage_last
    {init : List (AppMessage U)} (hinit : ∀ m ∈ init, m.id ≠ msg.id) :
    updateMessage msg.id f (init ++ [msg]) = init ++ [{ msg with content := f msg.content }] := by
  induction init with
  | nil => exact if_pos rfl
  | cons m init ih =>
    obtain ⟨hm, hinit⟩ := forall_mem_cons.mp hinit
    rw [cons_append, updateMessage, if_neg hm, ih hinit, cons_append]

namespace Open

variable {messages : List (AppMessage U)} {id : Nat}

theorem update (h : Open messages id) (hf : ∀ content, shownText (f content) = g (shownText content)) :
    Open (updateMessage id f messages) id ∧
      bubblesOf (updateMessage id f messages) = (bubblesOf messages).modifyLast g ∧
      (updateMessage id f messages).map AppMessage.id = messages.map AppMessage.id := by
  obtain ⟨init, msg, rfl, rfl, hrole, hinit⟩ := h
  rw [updateMessage_last hinit]
  refine ⟨⟨init, _, rfl, rfl, hrole, hinit⟩, ?_, ?_⟩
  · simp [bubblesOf, hrole, hf, modifyLast_concat]
  · simp

theorem get {s : SessionState U} (h : Open s.messages id) : ∃ msg, s.getMsgById id = some msg := by
  obtain ⟨init, msg, hmessages, hid, -⟩ := h
  have hfound : (s.getMsgById id).isSome := by
    rw [SessionState.getMsgById, find?_isSome, hmessages]
    exact ⟨msg, by simp, by simpa using hid⟩
  exact isSome_iff_exists.mp hfound

end Open

/-- A client shows what it has been told, and is ready for what comes from a spot. -/
structure Agrees (s : SessionState U) (told : Told U) (q : Spot U) : Prop where
  shown : bubblesOf s.messages = told.steps
  drawn : ∀ id ∈ s.messages.map AppMessage.id, id < s.drawn
  last : ∀ id, s.currentAssistantMsgId = some id → Open s.messages id
  live : ∀ turnId, q.phase = .streaming turnId → s.currentAssistantMsgId ≠ none ∧ told.again = false
  reuse : s.retryReuseMsgId = if told.again then s.currentAssistantMsgId else none
  again : told.again = true → q.phase.cleared = true ∧ s.currentAssistantMsgId ≠ none
  level : s.currentAssistantMsgId ≠ none → told.again = false → ∀ kind, s.len kind = (q.text kind).length

namespace Agrees

variable {s : SessionState U} {told : Told U} {p q : Spot U}

section

variable (h : Agrees s told p)
include h

theorem again_eq_false (hcleared : p.phase.cleared = false) : told.again = false := by
  cases hagain : told.again with
  | false => rfl
  | true => exact absurd (hcleared.symm.trans (h.again hagain).1) Bool.false_ne_true

/-- A spot where no step is streamed and the text is the same. -/
theorem rest (hagain : told.again = false) (hquiet : q.Quiet)
    (htext : ∀ kind, q.text kind = p.text kind) : Agrees s told q where
  shown := h.shown
  drawn := h.drawn
  last := h.last
  live turnId hphase := absurd hphase (hquiet turnId)
  reuse := h.reuse
  again htrue := absurd (hagain.symm.trans htrue) Bool.false_ne_true
  level hcurrent _ kind := by rw [htext]; exact h.level hcurrent hagain kind

theorem turnStarted (hagain : told.again = false) (hblank : q.Blank) (turnId : Nat)
    (offset : Option Nat) : Agrees (s.project ⟨.turnStarted turnId, offset⟩).1 told q where
  shown := h.shown
  drawn id hid := by
    have hlt := h.drawn id hid
    dsimp only [SessionState.project]
    split <;> omega
  last := h.last
  live turnId hphase := absurd hphase (hblank.1 turnId)
  reuse := h.reuse
  again htrue := absurd (hagain.symm.trans htrue) Bool.false_ne_true
  level _ _ kind := by rw [hblank.2 kind]; cases kind <;> rfl

theorem leave (hquiet : q.Quiet) (hcurrent : session.currentAssistantMsgId = none)
    (hreuse : session.retryReuseMsgId = none) (hshown : bubblesOf session.messages = bubblesOf s.messages)
    (hdrawn : ∀ id ∈ session.messages.map AppMessage.id, id < session.drawn) :
    Agrees session { told with again := false } q where
  shown := hshown.trans h.shown
  drawn := hdrawn
  last _ hid := nomatch hcurrent.symm.trans hid
  live turnId hphase := absurd hphase (hquiet turnId)
  reuse := hreuse
  again htrue := nomatch htrue
  level hsome := absurd hcurrent hsome

theorem stepInterrupted (hquiet : q.Quiet) (turnId : Nat) (offset : Option Nat) :
    Agrees (s.project ⟨.stepInterrupted turnId, offset⟩).1 { told with again := false } q :=
  h.leave hquiet rfl rfl rfl h.drawn

theorem turnEnded (hquiet : q.Quiet) (turnId : Nat) (offset : Option Nat) :
    Agrees (s.project ⟨.turnEnded turnId, offset⟩).1 { told with again := false } q :=
  h.leave hquiet rfl rfl rfl h.drawn

end

end Agrees

theorem projectDelta_end {s : SessionState U} {id : Nat} {kind : DeltaKind}
    (hid : s.currentAssistantMsgId = some id) (hmsg : s.getMsgById id = some msg) (hdelta : delta ≠ []) :
    (s.projectDelta kind delta (some (s.len kind))).1 =
      { s with messages := updateMessage id (appendDelta kind delta) s.messages }.setLen kind
        (s.len kind + delta.length) := by
  have hheal : ¬ (some (s.len kind) = some 0 ∧ 0 < s.len kind) := by
    rintro ⟨hzero, hpos⟩
    exact absurd (some.inj hzero) (Nat.ne_of_gt hpos)
  have halign : alignDelta (s.len kind) (some (s.len kind)) = .append := by
    simp only [alignDelta, Nat.lt_irrefl, if_false]
  simp only [SessionState.projectDelta, hid, List.isEmpty_iff, if_neg hdelta, if_neg hheal, halign, hmsg]

theorem projectDelta_elsewhere {s : SessionState U} {kind : DeltaKind}
    (h : delta ≠ [] → n ≠ 0 ∧ (s.currentAssistantMsgId ≠ none → n ≠ s.len kind)) :
    (s.projectDelta kind delta (some n)).1 = s := by
  rw [SessionState.projectDelta]
  split
  · rfl
  · rename_i id hid
    split
    · rfl
    · rename_i hempty
      obtain ⟨hpos, hlen⟩ := h fun heq => hempty (isEmpty_iff.mpr heq)
      have hne := hlen (hid ▸ some_ne_none id)
      have hheal : ¬ (some n = some 0 ∧ 0 < s.len kind) := fun h => hpos (some.inj h.1)
      simp only [if_neg hheal]
      cases halign : alignDelta (s.len kind) (some n) with
      | skip => rfl
      | gap => rfl
      | append =>
        simp only [alignDelta] at halign
        split at halign
        · cases halign
        · split at halign
          · cases halign
          · omega

theorem promptOf_frame (s : SessionState U) (turnId : Nat) : ∃ promptId current prompts drawn,
    s.promptOf turnId = (promptId, { s with currentPromptId := current, turnPromptId := prompts, drawn }) ∧
      s.drawn ≤ drawn := by
  rw [SessionState.promptOf]
  split
  · exact ⟨_, _, _, _, rfl, Nat.le_refl _⟩
  · exact ⟨_, _, _, _, rfl, Nat.le_refl _⟩
  · exact ⟨_, _, _, _, rfl, Nat.le_succ _⟩

theorem startStep_reuse {s : SessionState U} {promptId id : Nat}
    (hreuse : s.retryReuseMsgId = some id) (hmsg : s.getMsgById id = some msg) :
    s.startStep promptId = { s with retryReuseMsgId := none, currentAssistantMsgId := some id } := by
  simp only [SessionState.startStep, hreuse, hmsg]

theorem startStep_new {s : SessionState U} (hreuse : s.retryReuseMsgId = none) :
    s.startStep promptId = s.startAssistantMessage promptId [] := by
  simp only [SessionState.startStep, hreuse]

theorem drawn_concat {messages : List (AppMessage U)} {m n : Nat} {msg : AppMessage U}
    (h : ∀ id ∈ messages.map AppMessage.id, id < m) (hmn : m ≤ n) (hmsg : msg.id = n) :
    ∀ id ∈ (messages ++ [msg]).map AppMessage.id, id < n + 1 := by
  intro id hid
  rw [map_append, mem_append, map_singleton, mem_singleton] at hid
  obtain hid | rfl := hid
  · have hlt := h id hid
    omega
  · omega

theorem modifyLast_id (as : List α) : as.modifyLast (fun a => a) = as := by
  obtain rfl | ⟨as, a, rfl⟩ := as.eq_nil_or_concat
  · rfl
  · rw [concat_eq_append, modifyLast_concat]

theorem withDelta_nil (kind : DeltaKind) (step : List U × List U) : withDelta kind [] step = step := by
  cases kind <;> simp [withDelta]

theorem tell_nil (kind : DeltaKind) (turnId : Nat) (told : Told U) : told.tell (.delta kind turnId []) = told := by
  have hstep : withDelta kind [] = fun step : List U × List U => step := funext (withDelta_nil kind)
  rw [Told.tell, hstep, modifyLast_id]

theorem withDelta_longer {kind : DeltaKind} (hdelta : delta ≠ []) :
    (stepText step kind).length < (stepText (withDelta kind delta step) kind).length := by
  have hpos := length_pos_iff.mpr hdelta
  cases kind <;> simp only [stepText, withDelta, length_append] <;> omega

namespace Agrees

variable {s : SessionState U} {told : Told U} {p q : Spot U}

theorem toolResult (h : Agrees s told p) (hagain : told.again = false) (hquiet : q.Quiet) (turnId : Nat)
    (toolCallId : String) (offset : Option Nat) :
    Agrees (s.project ⟨.toolResult turnId toolCallId, offset⟩).1 told q := by
  obtain ⟨promptId, current, prompts, drawn, hprompt, hdrawn⟩ := promptOf_frame s turnId
  have hreuse : s.retryReuseMsgId = none := by rw [h.reuse, hagain]; rfl
  have htold : told = { told with again := false } := by rw [← hagain]
  rw [htold]
  simp only [SessionState.project, hprompt]
  apply h.leave hquiet
  · rfl
  · exact hreuse
  · simp [SessionState.startMessage, bubblesOf]
  · exact drawn_concat h.drawn hdrawn rfl

theorem update (h : Agrees s told p) {id : Nat} (hid : s.currentAssistantMsgId = some id)
    (hf : ∀ content, shownText (f content) = g (shownText content)) :
    bubblesOf (updateMessage id f s.messages) = told.steps.modifyLast g ∧
      (∀ id' ∈ (updateMessage id f s.messages).map AppMessage.id, id' < s.drawn) ∧
      ∀ id', s.currentAssistantMsgId = some id' → Open (updateMessage id f s.messages) id' := by
  obtain ⟨hopen, hbubbles, hids⟩ := (h.last id hid).update hf
  refine ⟨by rw [hbubbles, h.shown], by rw [hids]; exact h.drawn, ?_⟩
  intro id' hid'
  obtain rfl := mem_unique hid hid'
  exact hopen

theorem toolCallStarted (h : Agrees s told q) (turnId : Nat) (toolCallId name : String) (offset : Option Nat) :
    Agrees (s.project ⟨.toolCallStarted turnId toolCallId name, offset⟩).1 told q := by
  dsimp only [SessionState.project]
  split
  · rename_i msgId promptId hid hprompt
    have hsame := fun content : List (AppMessageContent U) => toolUse_shown content toolCallId name
    obtain ⟨hshown, hdrawn, hlast⟩ := h.update (g := fun step => step) hid hsame
    exact { h with shown := hshown.trans (modifyLast_id told.steps), drawn := hdrawn, last := hlast }
  · exact h

theorem delta {turnId : Nat} {step : List U × List U} (h : Agrees s told ⟨.streaming turnId, some (turnId, step)⟩)
    (kind : DeltaKind) (delta : List U) :
    Agrees (s.project ⟨.delta kind turnId delta, some (stepText step kind).length⟩).1
      (told.tell (.delta kind turnId delta)) ⟨.streaming turnId, some (turnId, withDelta kind delta step)⟩ := by
  obtain ⟨hcurrent, hagain⟩ := h.live turnId rfl
  obtain ⟨id, hid⟩ := ne_none_iff_exists'.mp hcurrent
  obtain ⟨msg, hmsg⟩ := (h.last id hid).get
  have hlevel := h.level hcurrent hagain
  have hlen : (stepText step kind).length = s.len kind := (hlevel kind).symm
  dsimp only [SessionState.project]
  by_cases hdelta : delta = []
  · -- nothing is appended, and nothing is told
    subst hdelta
    have hsession : (s.projectDelta kind [] (some (stepText step kind).length)).1 = s := by
      simp only [SessionState.projectDelta, hid, isEmpty_nil, if_true]
    rw [tell_nil, hsession, withDelta_nil]
    exact h
  · obtain ⟨hshown, hdrawn, hlast⟩ := h.update hid (appendDelta_shown kind delta)
    rw [hlen, projectDelta_end hid hmsg hdelta]
    constructor
    case shown => cases kind <;> exact hshown
    case drawn => cases kind <;> exact hdrawn
    case last => cases kind <;> exact hlast
    case live => cases kind <;> exact fun _ _ => ⟨hcurrent, hagain⟩
    case reuse => cases kind <;> exact h.reuse
    case again => cases kind <;> exact h.again
    case level =>
      intro _ _ kind'
      have hother := hlevel kind'
      cases kind <;> cases kind' <;>
        simp_all [SessionState.setLen, SessionState.len, Spot.text, stepText, withDelta]

theorem stepRetrying {turnId : Nat}
    (h : Agrees s told ⟨.streaming turnId, some (turnId, step)⟩) (offset : Option Nat) :
    Agrees (s.project ⟨.stepRetrying turnId, offset⟩).1 (told.tell (.stepRetrying turnId))
      ⟨.retrying turnId, some (turnId, step)⟩ := by
  obtain ⟨hcurrent, hagain⟩ := h.live turnId rfl
  obtain ⟨id, hid⟩ := ne_none_iff_exists'.mp hcurrent
  obtain ⟨msg, hmsg⟩ := (h.last id hid).get
  obtain ⟨hshown, hdrawn, hlast⟩ := h.update (g := fun _ => ([], [])) hid filter_shown
  simp only [SessionState.project, SessionState.clearStep, hid, hmsg]
  constructor
  case shown => exact hshown
  case drawn => exact hdrawn
  case last => rw [← hid]; exact hlast
  case live => exact fun _ => Phase.noConfusion
  case reuse => rfl
  case again => exact fun _ => ⟨rfl, some_ne_none id⟩
  case level => exact fun _ => Bool.noConfusion

/-- A retry refills the last message. Any other step has a message of its own. -/
theorem stepStarted {phase : Phase} (h : Agrees s told ⟨phase, some said⟩) (offset : Option Nat) :
    Agrees (s.project ⟨.stepStarted turnId, offset⟩).1 (told.tell (.stepStarted turnId))
      ⟨.streaming turnId, some (turnId, [], [])⟩ := by
  obtain ⟨promptId, current, prompts, drawn, hprompt, hdrawn⟩ := promptOf_frame s turnId
  simp only [SessionState.project, hprompt, Told.tell]
  have hreuse := h.reuse
  cases hagain : told.again with
  | true =>
    obtain ⟨hcleared, hcurrent⟩ := h.again hagain
    obtain ⟨id, hid⟩ := ne_none_iff_exists'.mp hcurrent
    obtain ⟨msg, hmsg⟩ := (h.last id hid).get
    rw [hagain, hid] at hreuse
    rw [if_pos rfl, startStep_reuse (s := { s with
      currentPromptId := current, turnPromptId := prompts, drawn, turnTextLen := 0, turnThinkLen := 0 })
      hreuse hmsg]
    constructor
    case shown => exact h.shown
    case drawn => exact fun id hid => Nat.lt_of_lt_of_le (h.drawn id hid) hdrawn
    case last => rw [← hid]; exact h.last
    case live => exact fun _ _ => ⟨some_ne_none id, rfl⟩
    case reuse => rfl
    case again => exact Bool.noConfusion
    case level => exact fun _ _ kind => by cases kind <;> rfl
  | false =>
    rw [hagain] at hreuse
    have hnone : s.retryReuseMsgId = none := hreuse
    rw [if_neg Bool.false_ne_true, startStep_new (s := { s with
      currentPromptId := current, turnPromptId := prompts, drawn, turnTextLen := 0, turnThinkLen := 0 })
      hnone]
    have hids := @drawn_concat U s.messages s.drawn drawn ⟨drawn, .assistant, [], promptId⟩ h.drawn hdrawn rfl
    constructor
    case shown =>
      rw [← h.shown]
      simp [SessionState.startAssistantMessage, SessionState.startMessage, bubblesOf, shownText]
    case drawn => exact hids
    case last =>
      intro id hid
      cases hid
      refine ⟨s.messages, _, rfl, rfl, rfl, ?_⟩
      intro m hm
      have hlt := h.drawn m.id (mem_map_of_mem hm)
      show m.id ≠ drawn
      omega
    case live => exact fun _ _ => ⟨some_ne_none _, rfl⟩
    case reuse => exact hnone
    case again => exact Bool.noConfusion
    case level => exact fun _ _ kind => by cases kind <;> rfl

theorem fresh (h : Agrees s told p) (hmove : Move p frame.event q frame.offset) :
    Agrees (s.project frame).1 (told.tell frame.event) q := by
  obtain ⟨event, offset⟩ := frame
  cases hmove with
  | turnStarted turnId =>
    apply h.turnStarted (h.again_eq_false rfl)
    exact ⟨fun _ => Phase.noConfusion, stepText_nil⟩
  | stepStarted _ => exact h.stepStarted none
  | delta turnId step kind delta => exact h.delta kind delta
  | toolCallStarted toolCallId name => exact h.toolCallStarted ..
  | toolProgress toolCallId text => exact h
  | toolResult toolCallId hcleared =>
    exact h.toolResult (h.again_eq_false hcleared) (fun _ => Phase.noConfusion) ..
  | stepCompleted hcleared => exact h.rest (h.again_eq_false hcleared) (fun _ => Phase.noConfusion) fun _ => rfl
  | stepRetrying turnId step => exact h.stepRetrying none
  | stepInterrupted hphase =>
    apply h.stepInterrupted
    intro turnId heq
    rw [hphase] at heq
    split at heq <;> cases heq
  | turnEnded => exact h.turnEnded (fun _ => Phase.noConfusion) ..

/-- Every frame from before the snapshot that starts no stream. `q` is where the snapshot was taken. -/
theorem stale {p p' : Spot U} {rest : List (Frame U)} (h : Agrees s told q)
    (hagain : told.again = false) (hmove : Move p frame.event p' frame.offset) (hrestarts : ¬ Restarts frame)
    (hrest : Leads p' rest q)
    (hstarts : ∀ frame ∈ rest, ¬ Restarts frame) : Agrees (s.project frame).1 told q := by
  have htold : told = { told with again := false } := by rw [← hagain]
  have hquiet (hp : p'.Quiet) : q.Quiet := hrest.keeps hstarts (fun _ _ _ => Move.quiet) hp
  obtain ⟨event, offset⟩ := frame
  cases hmove with
  | turnStarted turnId =>
    apply h.turnStarted hagain
    apply hrest.keeps hstarts fun _ _ _ => Move.blank
    exact ⟨fun _ => Phase.noConfusion, stepText_nil⟩
  | stepStarted _ => exact absurd trivial hrestarts
  | delta turnId step kind delta =>
    have hsame : (s.projectDelta kind delta (some (stepText step kind).length)).1 = s := by
      apply projectDelta_elsewhere
      intro hdelta
      have hpos : (stepText step kind).length ≠ 0 := fun hzero => hrestarts ⟨hdelta, congrArg some hzero⟩
      refine ⟨hpos, ?_⟩
      intro hcurrent
      rw [h.level hcurrent hagain kind]
      -- the client has more text than the offset, or it has none
      have hbeyond := hrest.keeps (I := fun q => q.Beyond kind (stepText step kind).length) hstarts
        (fun _ _ _ => Move.beyond) (.inl (withDelta_longer hdelta))
      obtain hlong | hblank := hbeyond
      · omega
      · rw [hblank.2 kind]
        exact hpos
    dsimp only [SessionState.project]
    rw [hsame]
    exact h
  | toolCallStarted toolCallId name => exact h.toolCallStarted ..
  | toolProgress toolCallId text => exact h
  | toolResult toolCallId hcleared => exact h.toolResult hagain (hquiet fun _ => Phase.noConfusion) ..
  | stepCompleted hcleared => exact h
  | stepRetrying turnId step => exact absurd trivial hrestarts
  | stepInterrupted hphase =>
    rw [htold]
    apply h.stepInterrupted
    apply hquiet
    intro turnId heq
    rw [hphase] at heq
    split at heq <;> cases heq
  | turnEnded =>
    rw [htold]
    exact h.turnEnded (hquiet fun _ => Phase.noConfusion) ..

end Agrees

end Echadron.Web
