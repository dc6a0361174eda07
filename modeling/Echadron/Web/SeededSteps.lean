import Echadron.Web.SeedAgreement

namespace Echadron.Web
open Lib Server List Option

/-! What a client that follows a session shows of each step. -/

variable {U : Type}

theorem seedContent_shown (turn : InFlightTurn U) :
    shownText (SessionState.seedContent turn) = (turn.assistantText, turn.thinkingText) := by
  have htools : shownText (turn.runningTools.map SessionState.toolPart) = ([], []) := by
    induction turn.runningTools with
    | nil => rfl
    | cons tool tools ih => exact ih
  obtain ⟨hassistant, hthinking⟩ := Prod.mk.inj htools
  rw [SessionState.seedContent, shownText]
  cases turn.assistantText <;> cases turn.thinkingText <;> simp_all [partText]

theorem Point.Sound.seed {p : Point U} (h : p.Sound) (drawn : Nat)
    (hcleared : p.phase.cleared = true → ∀ turn ∈ p.tracker, turn.assistantText = [] ∧ turn.thinkingText = []) :
    Agrees (p.seed drawn).session (p.seed drawn).told p.spot ∧ (p.seed drawn).told.again = false := by
  obtain ⟨phase, tracker⟩ := p
  cases tracker with
  | none =>
    have hidle : phase.turnId = none := h.symm
    cases phase <;> cases hidle
    refine ⟨?_, rfl⟩
    constructor
    case shown => rfl
    case drawn => exact fun _ => not_mem_nil.elim
    case last => exact fun id hid => nomatch hid
    case live => exact fun _ => Phase.noConfusion
    case reuse => rfl
    case again => exact Bool.noConfusion
    case level => exact absurd rfl
  | some turn =>
    refine ⟨?_, rfl⟩
    have htexts : (if phase.cleared then ([], []) else (turn.assistantText, turn.thinkingText)) =
        (turn.assistantText, turn.thinkingText) := by
      split
      · rename_i hphase
        obtain ⟨hassistant, hthinking⟩ := hcleared hphase turn rfl
        rw [hassistant, hthinking]
      · rfl
    constructor
    case shown =>
      have hcontent := seedContent_shown
        ⟨turn.turnId, turn.assistantText, turn.thinkingText, turn.tools.entries.map Prod.snd⟩
      exact (congrArg (fun step => [step]) hcontent).trans (congrArg (fun step => [step]) htexts.symm)
    case drawn =>
      intro id hid
      obtain rfl := mem_singleton.mp hid
      exact Nat.lt_succ_self _
    case last =>
      intro id hid
      cases hid
      exact ⟨[], _, rfl, rfl, rfl, fun _ hm => nomatch hm⟩
    case live => exact fun _ _ => ⟨some_ne_none _, rfl⟩
    case reuse => rfl
    case again => exact Bool.noConfusion
    case level => exact fun _ _ kind => by cases kind <;> rfl

theorem Silent.not_restarts (h : Silent frame) : ¬ Restarts frame := by
  obtain ⟨event, offset⟩ := frame
  cases event with
  | delta kind turnId delta => exact fun hrestarts => hrestarts.1 h
  | _ => exact h.elim

theorem tell_silent {frames : List (Frame U)} (h : ∀ frame ∈ frames, Silent frame) (told : Told U) :
    (frames.map Frame.event).foldl Told.tell told = told := by
  induction frames with
  | nil => rfl
  | cons frame frames ih =>
    obtain ⟨hframe, hframes⟩ := forall_mem_cons.mp h
    obtain ⟨event, offset⟩ := frame
    cases event with
    | delta kind turnId delta =>
      obtain rfl : delta = [] := hframe
      rw [map_cons, foldl_cons, tell_nil]
      exact ih hframes
    | _ => exact hframe.elim

/-- The frames lead to where the session stands, those from before the snapshot to where that was taken, and the
client agrees with the snapshot's place. -/
structure Following.Exact (s : Following U) : Prop where
  sound : s.point.Sound
  count : s.stale ≤ s.outbound.length
  leads : ∃ p, Leads p s.outbound s.point.spot
  agrees : ∀ v ∈ s.view, ∃ p q, Leads p (s.outbound.take s.stale) q ∧
    Leads q (s.outbound.drop s.stale) s.point.spot ∧ (∀ frame ∈ s.outbound.take s.stale, ¬ Restarts frame) ∧
      Agrees v.session v.told q ∧
      (s.stale ≠ 0 → v.told.again = false)

namespace Following.Exact

variable {s s' : Following U}

theorem publish (h : s.Exact) (hstep : s.step (.publish event) = some s') : s'.Exact := by
  obtain ⟨⟨point, frame⟩, hpublish, rfl⟩ := map_eq_some_iff.mp hstep
  obtain ⟨hsound, hevent, hmove⟩ := h.sound.publish hpublish
  have hone : Leads s.point.spot [frame] point.spot := .cons (hevent ▸ hmove) (.nil _)
  constructor
  case sound => exact hsound
  case count => exact Nat.le_trans h.count (by simp)
  case leads =>
    obtain ⟨p, hleads⟩ := h.leads
    exact ⟨p, hleads.append hone⟩
  case agrees =>
    intro v hv
    obtain ⟨p, q, hstale, hfresh, hrest⟩ := h.agrees v hv
    rw [take_append_of_le_length h.count, drop_append_of_le_length h.count]
    exact ⟨p, q, hstale, hfresh.append hone, hrest⟩

theorem snapshot (h : s.Exact) (hapart : s.Apart .snapshot) (hstep : s.step .snapshot = some s') : s'.Exact := by
  cases hstep
  obtain ⟨hrestarts, hcleared⟩ := hapart
  obtain ⟨p, hleads⟩ := h.leads
  constructor
  case sound => exact h.sound
  case count => exact Nat.le_refl _
  case leads => exact ⟨p, hleads⟩
  case agrees =>
    intro v hv
    cases hv
    obtain ⟨hagrees, hagain⟩ := h.sound.seed ((s.view.map fun v => v.session.drawn).getD 0) hcleared
    rw [take_length, drop_length]
    exact ⟨p, s.point.spot, hleads, .nil _, hrestarts, hagrees, fun _ => hagain⟩

theorem deliver_stale (h : s.Exact) (hn : n ≤ s.stale)
    (hframe : coalesceFrames (s.outbound.take n) = [frame]) (hv : v ∈ s.view) :
    ∃ p q, Leads p ((s.outbound.drop n).take (s.stale - n)) q ∧
      Leads q ((s.outbound.drop n).drop (s.stale - n)) s.point.spot ∧
      (∀ frame ∈ (s.outbound.drop n).take (s.stale - n), ¬ Restarts frame) ∧
      Agrees (v.session.project frame).1 v.told q ∧ v.told.again = false := by
  obtain ⟨p, q, hstale, hfresh, hrestarts, hagrees, hagain⟩ := h.agrees v hv
  obtain ⟨first, rest, hraw, hcoalesced⟩ := Coalesced.of_coalesceFrames hframe
  have hpos : s.stale ≠ 0 := by
    rintro hzero
    obtain rfl : n = 0 := by omega
    cases hraw
  have htake : s.outbound.take s.stale = s.outbound.take n ++ (s.outbound.drop n).take (s.stale - n) := by
    rw [← take_add, Nat.add_sub_cancel' hn]
  have hdrop : s.outbound.drop s.stale = (s.outbound.drop n).drop (s.stale - n) := by
    rw [drop_drop, Nat.add_sub_cancel' hn]
  rw [htake] at hstale hrestarts
  rw [hdrop] at hfresh
  obtain ⟨p', hraws, hmore⟩ := hstale.split
  rw [hraw] at hraws
  obtain ⟨hmove, hstarts⟩ := hcoalesced.move hraws
  have hframes (f : Frame U) (hf : f ∈ first :: rest) : ¬ Restarts f :=
    hrestarts f (mem_append_left _ (hraw ▸ hf))
  have hstart : ¬ Restarts frame := by
    intro hrestart
    obtain ⟨f, hf, hrestart⟩ := hstarts hrestart
    exact hframes f hf hrestart
  have hmores (f : Frame U) (hf : f ∈ (s.outbound.drop n).take (s.stale - n)) : ¬ Restarts f :=
    hrestarts f (mem_append_right _ hf)
  exact ⟨p', q, hmore, hfresh, hmores, hagrees.stale (hagain hpos) hmove hstart hmore hmores, hagain hpos⟩

theorem deliver_fresh {s : Following U} (h : s.Exact) (hn : s.stale < n)
    (hapart : s.Apart (.deliver n)) (hframe : coalesceFrames (s.outbound.take n) = [frame])
    (hv : v ∈ s.view) : ∃ q, Leads q (s.outbound.drop n) s.point.spot ∧ Agrees (v.session.project frame).1
        ((((s.outbound.take n).drop s.stale).map Frame.event).foldl Told.tell v.told) q := by
  obtain ⟨p, q, hstale, hfresh, hrestarts, hagrees, hagain⟩ := h.agrees v hv
  obtain ⟨first, rest, hraw, hcoalesced⟩ := Coalesced.of_coalesceFrames hframe
  have htake : (s.outbound.take n).take s.stale = s.outbound.take s.stale := by
    rw [take_take, Nat.min_eq_left (Nat.le_of_lt hn)]
  have hsplit := take_append_drop s.stale (s.outbound.take n)
  have hdrop : s.outbound.drop s.stale = (s.outbound.take n).drop s.stale ++ s.outbound.drop n := by
    have hcount : s.stale ≤ (s.outbound.take n).length := by
      rw [length_take]
      exact Nat.le_min.mpr ⟨Nat.le_of_lt hn, h.count⟩
    rw [← drop_append_of_le_length hcount, take_append_drop]
  rw [hdrop] at hfresh
  obtain ⟨r, hnext, hmore⟩ := hfresh.split
  have hraws : Leads p (s.outbound.take n) r := by
    rw [← hsplit, htake]
    exact hstale.append hnext
  have hone : (∀ f ∈ s.outbound.take s.stale, Silent f) ∨
      s.stale ≠ 0 ∧ ∀ f ∈ (s.outbound.take n).drop s.stale, Silent f := by
    by_cases hzero : s.stale = 0
    · rw [hzero]
      exact .inl fun _ hf => nomatch hf
    · rw [Following.Apart, htake] at hapart
      exact hapart.imp_right fun hsilent => ⟨hzero, hsilent⟩
  refine ⟨r, hmore, ?_⟩
  obtain hsilent | ⟨hpos, hsilent⟩ := hone
  · -- the text is from after the snapshot
    obtain rfl := hstale.eq_of_silent hsilent
    have htell := hcoalesced.tell v.told
    rw [← hraw, ← hsplit, htake, map_append, foldl_append, tell_silent hsilent] at htell
    rw [htell]
    rw [hraw] at hraws
    exact hagrees.fresh (hcoalesced.move hraws).1
  · -- the text is from before the snapshot
    obtain rfl := hnext.eq_of_silent hsilent
    rw [tell_silent hsilent]
    rw [hraw] at hraws
    obtain ⟨hmove, hstarts⟩ := hcoalesced.move hraws
    have hstart : ¬ Restarts frame := by
      intro hrestart
      obtain ⟨f, hf, hrestart⟩ := hstarts hrestart
      rw [← hraw, ← hsplit, htake] at hf
      obtain hf | hf := mem_append.mp hf
      · exact hrestarts f hf hrestart
      · exact (hsilent f hf).not_restarts hrestart
    exact hagrees.stale (hagain hpos) hmove hstart (.nil q) fun _ hf => nomatch hf

theorem deliver (h : s.Exact) (hapart : s.Apart (.deliver n)) (hstep : s.step (.deliver n) = some s') : s'.Exact := by
  dsimp only [Following.step] at hstep
  split at hstep
  · rename_i frame hframe
    cases hstep
    have hcount := h.count
    constructor
    case sound => exact h.sound
    case count =>
      dsimp only
      rw [length_drop]
      omega
    case leads =>
      obtain ⟨p, hleads⟩ := h.leads
      rw [← take_append_drop n s.outbound] at hleads
      obtain ⟨q, -, hmore⟩ := hleads.split
      exact ⟨q, hmore⟩
    case agrees =>
      intro v' hv'
      obtain ⟨v, hv, rfl⟩ := map_eq_some_iff.mp hv'
      by_cases hn : n ≤ s.stale
      · obtain ⟨p, q, hstale, hfresh, hrestarts, hagrees, hagain⟩ := h.deliver_stale hn hframe hv
        have hnone : (s.outbound.take n).drop s.stale = [] :=
          drop_of_length_le (Nat.le_trans (length_take_le n _) hn)
        rw [hnone]
        exact ⟨p, q, hstale, hfresh, hrestarts, hagrees, fun _ => hagain⟩
      · obtain ⟨q, hmore, hagrees⟩ := h.deliver_fresh (Nat.not_le.mp hn) hapart hframe hv
        have hzero : s.stale - n = 0 := by omega
        rw [hzero]
        exact ⟨q, q, .nil q, hmore, (fun _ hf => nomatch hf), hagrees, absurd rfl⟩
  · cases hstep

end Following.Exact

def retriedStep : List (FollowingEvent Char) :=
  [.publish (.turnStarted 1), .publish (.stepStarted 1), .publish (.delta .assistant 1 ['a']), .deliver 1, .deliver 1,
    .deliver 1, .publish (.delta .assistant 1 ['b']), .snapshot, .publish (.delta .assistant 1 ['c']),
    .publish (.delta .assistant 1 ['d']), .deliver 1, .deliver 2, .publish (.stepRetrying 1), .deliver 1,
    .publish (.stepStarted 1), .publish (.delta .thinking 1 ['e']), .publish (.delta .assistant 1 ['f']),
    .publish (.stepCompleted 1), .deliver 1, .deliver 1, .deliver 1, .deliver 1]

def mergedAcross : List (FollowingEvent Char) :=
  [.publish (.turnStarted 1), .publish (.stepStarted 1), .publish (.delta .assistant 1 ['a']), .deliver 1, .deliver 1,
    .deliver 1, .publish (.delta .assistant 1 ['b']), .snapshot, .publish (.delta .assistant 1 ['c']), .deliver 2,
    .publish (.stepCompleted 1), .deliver 1]

/-- A first delta that is delivered after the snapshot is shown twice. -/
example : ∃ s, ([.publish (.turnStarted 1), .publish (.stepStarted 1), .deliver 1, .deliver 1,
    .publish (.delta .assistant 1 ['a']), .snapshot, .deliver 1, .publish (.stepCompleted 1), .deliver 1] :
      List (FollowingEvent Char)).foldlM Following.step {} = some s ∧ ∃ v ∈ s.view, v.asked = false ∧
      v.session.bubbles = [(['a', 'a'], [])] ∧ v.told.steps = [(['a'], [])] :=
  ⟨_, rfl, _, rfl, rfl, rfl, rfl⟩

/-- At a snapshot before a retry the client has the text of the attempt before. -/
example : ∃ s, ([.publish (.turnStarted 1), .publish (.stepStarted 1), .publish (.delta .assistant 1 ['a']),
    .publish (.stepRetrying 1), .deliver 1, .deliver 1, .deliver 1, .deliver 1, .snapshot] :
      List (FollowingEvent Char)).foldlM Following.step {} = some s ∧ ∃ v ∈ s.view, v.asked = false ∧
      v.session.bubbles = [(['a'], [])] ∧ v.told.steps = [([], [])] :=
  ⟨_, rfl, _, rfl, rfl, rfl, rfl⟩

end Echadron.Web
