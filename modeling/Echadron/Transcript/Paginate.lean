import Echadron.Transcript.Reachable

namespace Echadron.Transcript
open Lib List Option

/-! Pages of a timeline, cut at its turns. -/

variable {C : Type}

structure TurnPageQuery where
  beforeTurn : Option Text := none
  afterTurn : Option Text := none
  pageSize : Nat

structure TurnPage (C : Type) where
  items : List (TranscriptItem C)
  hasMore : Bool
deriving DecidableEq

/-- The id is absent only for what comes before the first turn. -/
structure Segment (C : Type) where
  items : List (TranscriptItem C)
  turnId : Option Text

def flatten (segments : List (Segment C)) : List (TranscriptItem C) := segments.flatMap Segment.items

def flush (current : List (TranscriptItem C)) (currentTurn : Option Text) : List (Segment C) :=
  if current.length > 0 then [⟨current, currentTurn⟩] else []

/-- The loop of `splitSegments`. -/
def splitFrom (current : List (TranscriptItem C)) (currentTurn : Option Text) :
    List (TranscriptItem C) → List (Segment C)
  | [] => flush current currentTurn
  | .turn turn :: items => flush current currentTurn ++ splitFrom [.turn turn] (some turn.turnId) items
  | item :: items => splitFrom (current ++ [item]) currentTurn items

def splitSegments (items : List (TranscriptItem C)) : List (Segment C) := splitFrom [] none items

inductive Direction where
  | older
  | newer

def headUnit (segments : List (Segment C)) : Option (Segment C) := segments.head?.filter fun seg => seg.turnId.isNone

def page (segments : List (Segment C)) (pageSize : Nat) (direction : Direction) : TurnPage C :=
  let head := headUnit segments
  let turnSegments := if head.isSome then segments.drop 1 else segments
  match direction with
  | .older =>
    let selected := turnSegments.drop (turnSegments.length - pageSize)
    let reachesFirstTurn := decide (selected.length = turnSegments.length)
    { items := flatten ((if reachesFirstTurn then head.toList else []) ++ selected)
      hasMore := decide (turnSegments.length > selected.length) && decide (selected.length > 0) }
  | .newer =>
    let selected := turnSegments.take pageSize
    { items := flatten selected
      hasMore := decide (turnSegments.length > selected.length) && decide (selected.length > 0) }

/-- Neither `undefined` nor empty. -/
def Segment.turn (seg : Segment C) : Option Text := seg.turnId.filter fun id => id ≠ []

def paginateTurns (nt : NumberText) (items : List (TranscriptItem C)) (query : TurnPageQuery) : TurnPage C :=
  let pageSize := max 1 query.pageSize
  let segments := splitSegments items
  if segments.length = 0 then { items := [], hasMore := false }
  else match query.afterTurn with
    | some after =>
      page (segments.filter fun seg => seg.turn.any fun id => turnOrdinal nt after < turnOrdinal nt id) pageSize .newer
    | none => match query.beforeTurn with
      | some before =>
        page (segments.filter fun seg => seg.turn.all fun id => turnOrdinal nt id < turnOrdinal nt before) pageSize
          .older
      | none => page segments pageSize .older

/-- Pages from the newest on, each before the first turn of the one before; none without enough fuel or where a page
that has more has no turn. -/
def pagesBack (nt : NumberText) (items : List (TranscriptItem C)) (pageSize : Nat) :
    Nat → Option Text → Option (List (TurnPage C))
  | 0, _ => none
  | fuel + 1, before =>
    let fetched := paginateTurns nt items { beforeTurn := before, pageSize := pageSize }
    if fetched.hasMore then do
      let first ← (turnsOf fetched.items).head?
      let older ← pagesBack nt items pageSize fuel (some first.turnId)
      return fetched :: older
    else some [fetched]

def pagesForward (nt : NumberText) (items : List (TranscriptItem C)) (pageSize : Nat) :
    Nat → Text → Option (List (TurnPage C))
  | 0, _ => none
  | fuel + 1, after =>
    let fetched := paginateTurns nt items { afterTurn := some after, pageSize := pageSize }
    if fetched.hasMore then do
      let last ← (turnsOf fetched.items).getLast?
      let newer ← pagesForward nt items pageSize fuel last.turnId
      return fetched :: newer
    else some [fetched]

structure Ascending (nt : NumberText) (items : List (TranscriptItem C)) : Prop where
  rising : (turnsOf items).Pairwise fun a b => turnOrdinal nt a.turnId < turnOrdinal nt b.turnId
  named : ∀ turn ∈ turnsOf items, turn.turnId ≠ []

structure Segment.IsOf (seg : Segment C) (turn : TranscriptTurn C) : Prop where
  items : ∃ own, seg.items = .turn turn :: own ∧ turnsOf own = []
  turnId : seg.turnId = some turn.turnId

theorem turnsOf_append (a b : List (TranscriptItem C)) : turnsOf (a ++ b) = turnsOf a ++ turnsOf b :=
  filterMap_append

def leading (items : List (TranscriptItem C)) : List (Segment C) := flush items none

theorem asTurn_eq_some {item : TranscriptItem C} (h : item.asTurn = some turn) : item = .turn turn := by
  cases item with
  | turn other => exact congrArg TranscriptItem.turn (some.inj h)
  | marker marker => cases h
  | taskref ref => cases h

theorem turnsOf_item (h : item.asTurn = none) (items : List (TranscriptItem C)) :
    turnsOf (item :: items) = turnsOf items := filterMap_cons_none h

theorem splitFrom_item (h : item.asTurn = none) (current : List (TranscriptItem C))
    (currentTurn : Option Text) (items : List (TranscriptItem C)) :
    splitFrom current currentTurn (item :: items) = splitFrom (current ++ [item]) currentTurn items := by
  cases item with
  | turn turn => cases h
  | marker marker => rfl
  | taskref ref => rfl

theorem splitFrom_turn {turn : TranscriptTurn C} (items : List (TranscriptItem C)) {own : List (TranscriptItem C)}
    (h : turnsOf own = []) :
    flatten (splitFrom (.turn turn :: own) (some turn.turnId) items) = .turn turn :: own ++ items ∧
      List.Forall₂ Segment.IsOf (splitFrom (.turn turn :: own) (some turn.turnId) items) (turn :: turnsOf items) := by
  induction items generalizing own turn with
  | nil => exact ⟨(flatMap_singleton ..).trans (append_nil _).symm, .cons ⟨⟨own, rfl, h⟩, rfl⟩ .nil⟩
  | cons item items ih =>
    cases hitem : item.asTurn with
    | some next =>
      obtain rfl := asTurn_eq_some hitem
      obtain ⟨hflat, hsegments⟩ := @ih next [] rfl
      constructor
      · exact congrArg (TranscriptItem.turn turn :: own ++ ·) hflat
      · exact .cons ⟨⟨own, rfl, h⟩, rfl⟩ hsegments
    | none =>
      have hown : turnsOf (own ++ [item]) = [] := by
        rw [turnsOf_append, h, turnsOf_item hitem]
        rfl
      obtain ⟨hflat, hsegments⟩ := @ih turn (own ++ [item]) hown
      rw [splitFrom_item hitem, turnsOf_item hitem]
      refine ⟨?_, hsegments⟩
      rw [cons_append, hflat, cons_append, cons_append, append_assoc, singleton_append]

theorem splitFrom_lead (items : List (TranscriptItem C)) (h : turnsOf current = []) :
    ∃ lead segments, splitFrom current none items = leading lead ++ segments ∧
      current ++ items = lead ++ flatten segments ∧ turnsOf lead = [] ∧
      List.Forall₂ Segment.IsOf segments (turnsOf items) := by
  induction items generalizing current with
  | nil => exact ⟨current, [], (append_nil _).symm, rfl, h, .nil⟩
  | cons item items ih =>
    cases hitem : item.asTurn with
    | some turn =>
      obtain rfl := asTurn_eq_some hitem
      obtain ⟨hflat, hsegments⟩ := @splitFrom_turn C turn items [] rfl
      refine ⟨current, splitFrom [.turn turn] (some turn.turnId) items, rfl, ?_, h, hsegments⟩
      rw [hflat]
      rfl
    | none =>
      have hturns : turnsOf (current ++ [item]) = [] := by
        rw [turnsOf_append, h, turnsOf_item hitem]
        rfl
      obtain ⟨lead, segments, hsplit, hall, hlead, hsegments⟩ := ih hturns
      rw [splitFrom_item hitem, turnsOf_item hitem]
      refine ⟨lead, segments, hsplit, ?_, hlead, hsegments⟩
      rw [← hall, append_assoc, singleton_append]

theorem splitSegments_spec (items : List (TranscriptItem C)) :
    ∃ lead segments, splitSegments items = leading lead ++ segments ∧ items = lead ++ flatten segments ∧
      turnsOf lead = [] ∧ List.Forall₂ Segment.IsOf segments (turnsOf items) :=
  splitFrom_lead items rfl

variable {nt : NumberText} {items lead : List (TranscriptItem C)} {segments : List (Segment C)} {pageSize : Nat}

theorem headUnit_turns (h : ∀ seg ∈ segments, seg.turnId.isSome = true) : headUnit segments = none := by
  cases segments with
  | nil => rfl
  | cons seg segments =>
    obtain ⟨id, hid⟩ := isSome_iff_exists.mp (h seg mem_cons_self)
    rw [headUnit, head?_cons, filter_some, hid]
    rfl

theorem leading_nil : leading ([] : List (TranscriptItem C)) = [] := rfl

theorem leading_cons (item : TranscriptItem C) (items : List (TranscriptItem C)) :
    leading (item :: items) = [⟨item :: items, none⟩] := rfl

theorem flatten_leading (lead : List (TranscriptItem C)) : flatten (leading lead) = lead := by
  cases lead with
  | nil => rfl
  | cons item items => exact flatMap_singleton ..

theorem headUnit_leading (h : ∀ seg ∈ segments, seg.turnId.isSome = true) :
    (headUnit (leading lead ++ segments)).toList = leading lead ∧
      (if (headUnit (leading lead ++ segments)).isSome then (leading lead ++ segments).drop 1
        else leading lead ++ segments) = segments := by
  cases lead with
  | nil =>
    rw [leading_nil, nil_append, headUnit_turns h]
    exact ⟨rfl, rfl⟩
  | cons item items => exact ⟨rfl, rfl⟩

theorem flatten_append (a b : List (Segment C)) : flatten (a ++ b) = flatten a ++ flatten b := flatMap_append

section

variable (h : ∀ seg ∈ segments, seg.turnId.isSome = true) (hsize : 0 < pageSize)
include h hsize

theorem page_older : page (leading lead ++ segments) pageSize .older =
      { items := (if segments.length ≤ pageSize then lead else []) ++
          flatten (segments.drop (segments.length - pageSize))
        hasMore := decide (pageSize < segments.length) } := by
  obtain ⟨hhead, hturns⟩ := @headUnit_leading C lead segments h
  rw [page]
  rw [hhead, hturns, length_drop, flatten_append]
  congr 1
  · by_cases hall : segments.length ≤ pageSize
    · have hreaches : segments.length - (segments.length - pageSize) = segments.length := by omega
      rw [if_pos hall, hreaches, decide_eq_true rfl, if_pos rfl, flatten_leading]
    · have hreaches : ¬segments.length - (segments.length - pageSize) = segments.length := by omega
      rw [if_neg hall, decide_eq_false hreaches]
      rfl
  · rw [← Bool.decide_and]
    apply decide_eq_decide.mpr
    omega

theorem page_newer : page segments pageSize .newer =
      { items := flatten (segments.take pageSize), hasMore := decide (pageSize < segments.length) } := by
  rw [page]
  rw [headUnit_turns h, length_take]
  congr 1
  rw [isSome_none, if_neg Bool.false_ne_true, ← Bool.decide_and]
  apply decide_eq_decide.mpr
  omega

end

theorem Segment.IsOf.turn_eq {seg : Segment C} {turn : TranscriptTurn C} (h : seg.IsOf turn) (hne : turn.turnId ≠ []) :
    seg.turn = some turn.turnId := by
  rw [Segment.turn, h.turnId, filter_some, if_pos (decide_eq_true hne)]

theorem turns_isSome (h : List.Forall₂ Segment.IsOf segments turns) : ∀ seg ∈ segments, seg.turnId.isSome = true := by
  induction h with
  | nil =>
    intro seg hmem
    cases hmem
  | cons hseg _ ih =>
    intro seg hmem
    rcases mem_cons.mp hmem with rfl | hlater
    · rw [hseg.turnId]
      rfl
    · exact ih seg hlater

theorem filter_turns {turns : List (TranscriptTurn C)} (h : List.Forall₂ Segment.IsOf segments turns)
    (hnamed : ∀ turn ∈ turns, turn.turnId ≠ []) (p : Text → Bool) {q : Option Text → Bool}
    (hq : ∀ id, q (some id) = p id) (hkept : ∀ turn ∈ turns, p turn.turnId = kept) :
    segments.filter (fun seg => q seg.turn) = if kept then segments else [] := by
  induction h with
  | nil => cases kept <;> rfl
  | @cons seg turn segments turns hseg _ ih =>
    obtain ⟨hne, hnamed⟩ := forall_mem_cons.mp hnamed
    obtain ⟨hthis, hkept⟩ := forall_mem_cons.mp hkept
    rw [filter_cons, hseg.turn_eq hne, hq, hthis, ih hnamed hkept]
    cases kept with
    | true => rfl
    | false => rfl

theorem Segment.IsOf.turnsOf_items {seg : Segment C} {turn : TranscriptTurn C} (h : seg.IsOf turn) :
    turnsOf seg.items = [turn] := by
  obtain ⟨own, hitems, hown⟩ := h.items
  have hcons : turnsOf (.turn turn :: own) = turn :: turnsOf own := rfl
  rw [hitems, hcons, hown]

theorem turnsOf_flatten {turns : List (TranscriptTurn C)} (h : List.Forall₂ Segment.IsOf segments turns) :
    turnsOf (flatten segments) = turns := by
  induction h with
  | nil => rfl
  | cons hseg _ ih =>
    rw [flatten, flatMap_cons, turnsOf_append, hseg.turnsOf_items]
    exact congrArg (_ :: ·) ih

structure Cut (nt : NumberText) (items lead : List (TranscriptItem C)) (segments : List (Segment C)) : Prop where
  split : splitSegments items = leading lead ++ segments
  whole : items = lead ++ flatten segments
  lead : turnsOf lead = []
  turns : List.Forall₂ Segment.IsOf segments (turnsOf items)
  ascending : Ascending nt items

theorem exists_cut (h : Ascending nt items) : ∃ lead segments, Cut nt items lead segments := by
  obtain ⟨lead, segments, hsplit, hwhole, hlead, hturns⟩ := splitSegments_spec items
  exact ⟨lead, segments, hsplit, hwhole, hlead, hturns, h⟩

theorem Cut.length_eq (h : Cut nt items lead segments) : segments.length = (turnsOf items).length := h.turns.length_eq

theorem Ascending.around (h : Ascending nt items) (hturn : (turnsOf items)[k]? = some turn) :
    (∀ older ∈ (turnsOf items).take k, turnOrdinal nt older.turnId < turnOrdinal nt turn.turnId) ∧
      ∀ newer ∈ (turnsOf items).drop (k + 1), turnOrdinal nt turn.turnId < turnOrdinal nt newer.turnId := by
  obtain ⟨hk, hget⟩ := List.getElem?_eq_some_iff.mp hturn
  have hsplit : turnsOf items = (turnsOf items).take k ++ turn :: (turnsOf items).drop (k + 1) := by
    rw [← hget, ← drop_eq_getElem_cons hk, take_append_drop]
  have hrising := h.rising
  rw [hsplit, pairwise_append] at hrising
  obtain ⟨_, hafter, hcross⟩ := hrising
  exact ⟨fun older hold => hcross older hold turn mem_cons_self, (pairwise_cons.mp hafter).1⟩

def olderPage (lead : List (TranscriptItem C)) (segments : List (Segment C)) (pageSize k : Nat) : TurnPage C :=
  { items := (if k ≤ pageSize then lead else []) ++ flatten ((segments.take k).drop (k - pageSize))
    hasMore := decide (pageSize < k) }

def BeforeAt (items : List (TranscriptItem C)) (before : Option Text) (k : Nat) : Prop :=
  before = none ∧ k = (turnsOf items).length ∨ ∃ turn, (turnsOf items)[k]? = some turn ∧ before = some turn.turnId

theorem page_none (pageSize : Nat) (direction : Direction) :
    page ([] : List (Segment C)) pageSize direction = { items := [], hasMore := false } := by
  cases direction with
  | older => simp [page, headUnit, flatten]
  | newer => simp [page, headUnit, flatten]

section

variable (nt : NumberText) (items : List (TranscriptItem C)) (hsize : 0 < pageSize)
include hsize

theorem paginateTurns_newest :
    paginateTurns nt items { pageSize := pageSize } = page (splitSegments items) pageSize .older := by
  rw [paginateTurns]
  rw [max_eq_right hsize]
  split_ifs with hnone
  · rw [eq_nil_of_length_eq_zero hnone, page_none]
  · rfl

theorem paginateTurns_before (before : Text) :
    paginateTurns nt items { beforeTurn := some before, pageSize := pageSize } =
      page ((splitSegments items).filter fun seg => seg.turn.all fun id => turnOrdinal nt id < turnOrdinal nt before)
        pageSize .older := by
  rw [paginateTurns]
  rw [max_eq_right hsize]
  split_ifs with hnone
  · rw [eq_nil_of_length_eq_zero hnone, filter_nil, page_none]
  · rfl

theorem paginateTurns_after (after : Text) :
    paginateTurns nt items { afterTurn := some after, pageSize := pageSize } =
      page ((splitSegments items).filter fun seg => seg.turn.any fun id => turnOrdinal nt after < turnOrdinal nt id)
        pageSize .newer := by
  rw [paginateTurns]
  rw [max_eq_right hsize]
  split_ifs with hnone
  · rw [eq_nil_of_length_eq_zero hnone, filter_nil, page_none]
  · rfl

end

theorem leading_turn (h : seg ∈ leading lead) : seg.turn = none := by
  cases lead with
  | nil => cases h
  | cons item items =>
    rw [leading_cons, mem_singleton] at h
    rw [h]
    rfl

section

variable (h : Cut nt items lead segments)
include h

/-- The turns before a place are all kept, or all those from it on. -/
theorem Cut.filter_split (j : Nat) (p : Text → Bool) {q : Option Text → Bool} (hq : ∀ id, q (some id) = p id)
    (htake : ∀ turn ∈ (turnsOf items).take j, p turn.turnId = b)
    (hdrop : ∀ turn ∈ (turnsOf items).drop j, p turn.turnId = !b) : (splitSegments items).filter (q ·.turn) =
      (if q none then leading lead else []) ++ if b then segments.take j else segments.drop j := by
  have hleading : (leading lead).filter (q ·.turn) = if q none then leading lead else [] := by
    rw [filter_congr fun seg hseg => congrArg q (leading_turn hseg)]
    cases q none <;> simp
  have hnamed : ∀ turn ∈ (turnsOf items).take j ++ (turnsOf items).drop j, turn.turnId ≠ [] := by
    rw [take_append_drop]
    exact h.ascending.named
  obtain ⟨hnamedTake, hnamedDrop⟩ := forall_mem_append.mp hnamed
  have hsegments := congrArg₂ (· ++ ·) (filter_turns (forall₂_take j h.turns) hnamedTake p hq htake)
    (filter_turns (forall₂_drop j h.turns) hnamedDrop p hq hdrop)
  rw [← filter_append, take_append_drop] at hsegments
  rw [h.split, filter_append, hleading, hsegments]
  cases b <;> simp

theorem Cut.filter_before (hturn : (turnsOf items)[k]? = some turn) : (splitSegments items).filter
        (fun seg => seg.turn.all fun id => turnOrdinal nt id < turnOrdinal nt turn.turnId) =
      leading lead ++ segments.take k := by
  obtain ⟨hk, hget⟩ := List.getElem?_eq_some_iff.mp hturn
  obtain ⟨holder, hnewer⟩ := h.ascending.around hturn
  refine h.filter_split k (fun id => turnOrdinal nt id < turnOrdinal nt turn.turnId) (b := true)
    (fun _ => rfl) (fun older hold => decide_eq_true (holder older hold)) ?_
  intro newer hnew
  rw [drop_eq_getElem_cons hk, hget] at hnew
  rcases mem_cons.mp hnew with rfl | hlater
  · exact decide_eq_false (lt_irrefl _)
  · exact decide_eq_false (hnewer newer hlater).asymm

theorem Cut.filter_after (hturn : (turnsOf items)[k]? = some turn) : (splitSegments items).filter
        (fun seg => seg.turn.any fun id => turnOrdinal nt turn.turnId < turnOrdinal nt id) =
      segments.drop (k + 1) := by
  obtain ⟨hk, hget⟩ := List.getElem?_eq_some_iff.mp hturn
  obtain ⟨holder, hnewer⟩ := h.ascending.around hturn
  refine h.filter_split (k + 1) (fun id => turnOrdinal nt turn.turnId < turnOrdinal nt id) (b := false)
    (fun _ => rfl) ?_ fun newer hnew => decide_eq_true (hnewer newer hnew)
  intro older hold
  rw [take_succ_eq_append_getElem hk, hget] at hold
  rcases mem_snoc.mp hold with hbefore | hthis
  · exact decide_eq_false (holder older hbefore).asymm
  · rw [hthis]
    exact decide_eq_false (lt_irrefl _)

theorem Cut.paginate_older (hsize : 0 < pageSize) (hbefore : BeforeAt items before k) :
    paginateTurns nt items { beforeTurn := before, pageSize := pageSize } = olderPage lead segments pageSize k := by
  have hsome := turns_isSome h.turns
  rcases hbefore with ⟨rfl, rfl⟩ | ⟨turn, hturn, rfl⟩
  · rw [paginateTurns_newest nt items hsize, h.split, page_older hsome hsize, olderPage, ← h.length_eq, take_length]
  · obtain ⟨hk, _⟩ := List.getElem?_eq_some_iff.mp hturn
    have hlength : (segments.take k).length = k := by
      rw [length_take, h.length_eq]
      omega
    have hsomeTake : ∀ seg ∈ segments.take k, seg.turnId.isSome = true :=
      fun seg hseg => hsome seg (mem_of_mem_take hseg)
    rw [paginateTurns_before nt items hsize, h.filter_before hturn, page_older hsomeTake hsize, olderPage, hlength]

theorem Cut.paginate_newer (hsize : 0 < pageSize) (hturn : (turnsOf items)[k]? = some turn) :
    paginateTurns nt items { afterTurn := some turn.turnId, pageSize := pageSize } =
      { items := flatten ((segments.drop (k + 1)).take pageSize)
        hasMore := decide (pageSize < segments.length - (k + 1)) } := by
  have hsome : ∀ seg ∈ segments.drop (k + 1), seg.turnId.isSome = true :=
    fun seg hseg => turns_isSome h.turns seg (mem_of_mem_drop hseg)
  rw [paginateTurns_after nt items hsize, h.filter_after hturn, page_newer hsome hsize, length_drop]

end

theorem Cut.turnsOf_window (h : Cut nt items lead segments) (i n : Nat) :
    turnsOf (flatten ((segments.drop i).take n)) = ((turnsOf items).drop i).take n :=
  turnsOf_flatten (forall₂_take n (forall₂_drop i h.turns))

theorem Cut.pagesBack (h : Cut nt items lead segments) (hsize : 0 < pageSize) (hfuel : k < fuel)
    {before : Option Text} (hbefore : BeforeAt items before k) (hk : k ≤ (turnsOf items).length) :
    ∃ pages, pagesBack nt items pageSize fuel before = some pages ∧
      pages.reverse.flatMap TurnPage.items = lead ++ flatten (segments.take k) := by
  induction fuel generalizing before k with
  | zero => omega
  | succ fuel ih =>
    rw [Transcript.pagesBack]
    rw [h.paginate_older hsize hbefore]
    by_cases hmore : pageSize < k
    · -- the page starts with the turn at `k - pageSize`, and the pages before it are those before that turn
      have hat : k - pageSize < (turnsOf items).length := by omega
      have hwindow : (segments.take k).drop (k - pageSize) = (segments.drop (k - pageSize)).take pageSize := by
        rw [drop_take]
        congr 1
        omega
      have hitems : (olderPage lead segments pageSize k).items = flatten ((segments.drop (k - pageSize)).take pageSize) := by
        rw [olderPage, hwindow, if_neg (by omega), nil_append]
      have hfirst : (turnsOf (olderPage lead segments pageSize k).items).head? =
          some ((turnsOf items)[k - pageSize]) := by
        rw [hitems, h.turnsOf_window, head?_take, if_neg (by omega), head?_drop, getElem?_eq_getElem hat]
      obtain ⟨older, hpages, hconcat⟩ := @ih (k - pageSize) (by omega) (some (turnsOf items)[k - pageSize].turnId)
        (Or.inr ⟨_, getElem?_eq_getElem hat, rfl⟩) (by omega)
      refine ⟨olderPage lead segments pageSize k :: older, ?_, ?_⟩
      · have hhas : (olderPage lead segments pageSize k).hasMore = true := decide_eq_true hmore
        rw [if_pos hhas, hfirst]
        dsimp only [bind, Option.bind]
        rw [hpages]
        rfl
      · have hsplit : segments.take k = segments.take (k - pageSize) ++ (segments.take k).drop (k - pageSize) := by
          conv_lhs => rw [← take_append_drop (k - pageSize) (segments.take k)]
          rw [take_take, min_eq_left (Nat.sub_le k pageSize)]
        rw [reverse_cons, flatMap_append, hconcat, flatMap_singleton, hitems, hsplit, flatten_append,
          ← hwindow, append_assoc]
    · have hhas : (olderPage lead segments pageSize k).hasMore = false := decide_eq_false hmore
      refine ⟨[olderPage lead segments pageSize k], ?_, ?_⟩
      · rw [if_neg (by rw [hhas]; exact Bool.false_ne_true)]
      · have hzero : k - pageSize = 0 := by omega
        rw [reverse_singleton, flatMap_singleton, olderPage, hzero, if_pos (by omega), drop_zero]

theorem Cut.pagesForward (h : Cut nt items lead segments) (hsize : 0 < pageSize)
    (hfuel : segments.length - (k + 1) < fuel) (hturn : (turnsOf items)[k]? = some turn) :
    ∃ pages, pagesForward nt items pageSize fuel turn.turnId = some pages ∧
      pages.flatMap TurnPage.items = flatten (segments.drop (k + 1)) := by
  induction fuel generalizing k turn with
  | zero => omega
  | succ fuel ih =>
    rw [Transcript.pagesForward]
    rw [h.paginate_newer hsize hturn]
    by_cases hmore : pageSize < segments.length - (k + 1)
    · -- the page ends with the turn at `k + pageSize`
      have hlength := h.length_eq
      have hat : k + pageSize < (turnsOf items).length := by omega
      have hlast : (turnsOf (flatten ((segments.drop (k + 1)).take pageSize))).getLast? =
          some ((turnsOf items)[k + pageSize]) := by
        have hcount : (((turnsOf items).drop (k + 1)).take pageSize).length = pageSize := by
          rw [length_take, length_drop]
          omega
        rw [h.turnsOf_window, getLast?_eq_getElem?, hcount, getElem?_take_of_lt (by omega), getElem?_drop,
          ← getElem?_eq_getElem hat]
        congr 1
        omega
      have hnext : segments.length - (k + pageSize + 1) < fuel := by omega
      obtain ⟨newer, hpages, hconcat⟩ := ih hnext (getElem?_eq_getElem hat)
      rw [if_pos (decide_eq_true hmore), hlast]
      dsimp only [bind, Option.bind]
      rw [hpages]
      refine ⟨_, rfl, ?_⟩
      rw [flatMap_cons, hconcat, ← flatten_append]
      have hdrop : segments.drop (k + pageSize + 1) = (segments.drop (k + 1)).drop pageSize := by
        rw [drop_drop]
        congr 1
        omega
      rw [hdrop, take_append_drop]
    · rw [if_neg (fun hhas => hmore (of_decide_eq_true hhas))]
      refine ⟨_, rfl, ?_⟩
      have hall : (segments.drop (k + 1)).take pageSize = segments.drop (k + 1) := by
        apply take_of_length_le
        rw [length_drop]
        omega
      rw [flatMap_singleton, hall]

theorem skipTurns_turn (skip seen : Nat) (turn : TranscriptTurn C) (items : List (TranscriptItem C)) :
    skipTurns skip seen (.turn turn :: items) = (if seen + 1 ≤ skip then skipTurns skip (seen + 1) items
        else .turn turn :: skipTurns skip (seen + 1) items) := rfl

theorem skipTurns_item (h : item.asTurn = none) (skip seen : Nat) (items : List (TranscriptItem C)) :
    skipTurns skip seen (item :: items) =
      if skip < seen then item :: skipTurns skip seen items else skipTurns skip seen items := by
  cases item with
  | turn turn => cases h
  | marker marker => rfl
  | taskref ref => rfl

theorem turnsOf_eq_nil (h : turnsOf items = []) : ∀ item ∈ items, item.asTurn = none := filterMap_eq_nil_iff.mp h

theorem skipTurns_own (h : turnsOf own = []) (skip seen : Nat) (items : List (TranscriptItem C)) :
    skipTurns skip seen (own ++ items) =
      if skip < seen then own ++ skipTurns skip seen items else skipTurns skip seen items := by
  have hnone := turnsOf_eq_nil h
  clear h
  induction own with
  | nil => exact (ite_self _).symm
  | cons item own ih =>
    obtain ⟨hitem, hown⟩ := forall_mem_cons.mp hnone
    rw [cons_append, skipTurns_item hitem, ih hown]
    split_ifs
    · rfl
    · rfl

theorem skipTurns_flatten (h : List.Forall₂ Segment.IsOf segments turns)
    (skip seen : Nat) : skipTurns skip seen (flatten segments) = flatten (segments.drop (skip - seen)) := by
  induction h generalizing seen with
  | nil =>
    rw [drop_nil]
    rfl
  | @cons seg turn segments turns hseg _ ih =>
    obtain ⟨own, hitems, hown⟩ := hseg.items
    have hcons : flatten (seg :: segments) = .turn turn :: (own ++ flatten segments) := by
      rw [flatten, flatMap_cons, hitems]
      rfl
    rw [hcons, skipTurns_turn, skipTurns_own hown, ih]
    by_cases hskip : seen + 1 ≤ skip
    · have hnext : skip - seen = skip - (seen + 1) + 1 := by omega
      rw [if_pos hskip, if_neg (by omega), hnext, drop_succ_cons]
    · have hzero : skip - seen = 0 := by omega
      have hlater : skip - (seen + 1) = 0 := by omega
      rw [if_neg hskip, if_pos (by omega), hzero, hlater, drop_zero, drop_zero, hcons]

theorem Cut.skipTurns (h : Cut nt items lead segments) (skip : Nat) :
    skipTurns skip 0 items = flatten (segments.drop skip) := by
  rw [h.whole, skipTurns_own h.lead, if_neg (Nat.not_lt_zero skip), skipTurns_flatten h.turns, Nat.sub_zero]

theorem Cut.window (h : Cut nt items lead segments) (pageSize : Nat) :
    (if pageSize < (turnsOf items).length then Transcript.skipTurns ((turnsOf items).length - pageSize) 0 items
        else items) =
      (olderPage lead segments pageSize (turnsOf items).length).items := by
  rw [olderPage, ← h.length_eq, take_length]
  by_cases hmore : pageSize < segments.length
  · rw [if_pos hmore, if_neg (by omega), h.skipTurns, nil_append]
  · have hzero : segments.length - pageSize = 0 := by omega
    rw [if_neg hmore, if_pos (by omega), hzero, drop_zero, ← h.whole]

theorem skipTurns_past (items : List (TranscriptItem C)) (h : skip < seen) :
    skipTurns skip seen items = items := by
  induction items generalizing seen with
  | nil => rfl
  | cons item items ih =>
    cases hitem : item.asTurn with
    | none => rw [skipTurns_item hitem, if_pos h, ih h]
    | some turn =>
      obtain rfl := asTurn_eq_some hitem
      rw [skipTurns_turn, if_neg (by omega), ih (by omega)]

theorem skipTurns_before (before : List (TranscriptItem C)) (items : List (TranscriptItem C))
    (h : seen + (turnsOf before).length ≤ skip) :
    skipTurns skip seen (before ++ items) = skipTurns skip (seen + (turnsOf before).length) items := by
  induction before generalizing seen with
  | nil => rfl
  | cons item before ih =>
    cases hitem : item.asTurn with
    | none =>
      rw [turnsOf_item hitem] at h ⊢
      rw [cons_append, skipTurns_item hitem, if_neg (by omega), ih h]
    | some turn =>
      obtain rfl := asTurn_eq_some hitem
      have hturns : turnsOf (.turn turn :: before) = turn :: turnsOf before := rfl
      rw [hturns, length_cons] at h ⊢
      rw [cons_append, skipTurns_turn, if_pos (by omega), ih (by omega)]
      congr 1
      omega

theorem Cut.after_eq {before own after : List (TranscriptItem C)}
    (h : Cut nt (before ++ .turn cursor :: (own ++ after)) lead segments) (hown : turnsOf own = [])
    (hafter : ∀ item ∈ after.head?, item.asTurn ≠ none) :
    flatten (segments.drop ((turnsOf before).length + 1)) = after := by
  rw [← h.skipTurns, skipTurns_before before _ (by omega), skipTurns_turn, if_pos (by omega), skipTurns_own hown,
    if_neg (by omega)]
  cases after with
  | nil => rfl
  | cons item after =>
    obtain ⟨turn, hitem⟩ := ne_none_iff_exists'.mp (hafter item rfl)
    obtain rfl := asTurn_eq_some hitem
    rw [skipTurns_turn, if_neg (by omega), skipTurns_past _ (by omega)]

/-- The pages from the newest on hold every item once, the pages after a turn hold what follows its segment, and a
snapshot of the newest turns is the newest page. -/
theorem pages_tile (nt : NumberText) (state : AgentState C) (hascending : Ascending nt state.items) {pageSize : Nat}
    (hsize : 1 ≤ pageSize) :
    (∃ pages, pagesBack nt state.items pageSize ((turnsOf state.items).length + 1) none = some pages ∧
      pages.reverse.flatMap TurnPage.items = state.items) ∧
    ((state.snapshot (some pageSize)).items = (paginateTurns nt state.items { pageSize := pageSize }).items ∧
      (state.snapshot (some pageSize)).hasMoreOlder =
        some ((paginateTurns nt state.items { pageSize := pageSize }).hasMore || state.hasMoreOlder)) ∧
    ∀ before cursor own after, state.items = before ++ .turn cursor :: (own ++ after) → turnsOf own = [] →
      (∀ item ∈ after.head?, item.asTurn ≠ none) →
      ∃ pages, pagesForward nt state.items pageSize ((turnsOf state.items).length + 1) cursor.turnId = some pages ∧
        pages.flatMap TurnPage.items = after := by
  obtain ⟨lead, segments, hcut⟩ := exists_cut hascending
  have hnewest := hcut.paginate_older hsize (Or.inl ⟨rfl, rfl⟩)
  refine ⟨?_, ?_, ?_⟩
  · obtain ⟨pages, hpages, hconcat⟩ := hcut.pagesBack hsize (Nat.lt_succ_self _) (Or.inl ⟨rfl, rfl⟩) le_rfl
    refine ⟨pages, hpages, ?_⟩
    rw [hconcat, ← hcut.length_eq, take_length, ← hcut.whole]
  · rw [hnewest]
    constructor
    · have hwindow := hcut.window pageSize
      rw [← hwindow, AgentState.snapshot]
      simp only [any_some, getD_some, decide_eq_true_eq]
    · rfl
  · intro before cursor own after hitems hown hafter
    have hturns : turnsOf state.items = turnsOf before ++ cursor :: turnsOf (own ++ after) := by
      rw [hitems, turnsOf_append]
      rfl
    have hcursor : (turnsOf state.items)[(turnsOf before).length]? = some cursor := by
      rw [hturns, getElem?_append_right le_rfl, Nat.sub_self]
      rfl
    have hfuel : segments.length - ((turnsOf before).length + 1) < (turnsOf state.items).length + 1 := by
      rw [hcut.length_eq]
      omega
    obtain ⟨pages, hpages, hconcat⟩ := hcut.pagesForward hsize hfuel hcursor
    rw [hitems] at hcut
    exact ⟨pages, hpages, hconcat.trans (hcut.after_eq hown hafter)⟩

def notedTurns : AgentState Unit :=
  { items := [.marker { markerId := [109], marker := "notice" }, .turn (skeletonTurn decimals (turnId decimals 1)),
      .taskref { refId := [114], taskId := [107] }, .turn (skeletonTurn decimals (turnId decimals 2))] }

theorem notedTurns_ascending : Ascending decimals notedTurns.items where
  rising := by
    apply pairwise_pair.mpr
    rw [skeletonTurn, skeletonTurn, turnOrdinal_turnId, turnOrdinal_turnId]
    norm_num
  named turn hturn := by
    rcases mem_cons.mp hturn with rfl | hsecond
    · exact cons_ne_nil _ _
    · rw [mem_singleton.mp hsecond]
      exact cons_ne_nil _ _

theorem notedTurns_tile : (∃ pages, pagesBack decimals notedTurns.items 1 3 none = some pages ∧
      pages.reverse.flatMap TurnPage.items = notedTurns.items) ∧
    (notedTurns.snapshot (some 1)).items = (paginateTurns decimals notedTurns.items { pageSize := 1 }).items ∧
    ∃ pages, pagesForward decimals notedTurns.items 1 3 (turnId decimals 1) = some pages ∧
      pages.flatMap TurnPage.items = [.turn (skeletonTurn decimals (turnId decimals 2))] := by
  obtain ⟨hback, hsnapshot, hforward⟩ := pages_tile decimals notedTurns notedTurns_ascending (le_refl 1)
  refine ⟨hback, hsnapshot.1, ?_⟩
  exact hforward [.marker { markerId := [109], marker := "notice" }] (skeletonTurn decimals (turnId decimals 1))
    [.taskref { refId := [114], taskId := [107] }] [.turn (skeletonTurn decimals (turnId decimals 2))] rfl rfl
    (fun item hitem => by rw [← some.inj hitem]; exact some_ne_none _)

end Echadron.Transcript
