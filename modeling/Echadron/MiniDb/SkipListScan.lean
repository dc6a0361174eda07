import Mathlib.Data.List.Induction
import Mathlib.Data.List.Sort

namespace Echadron.MiniDb.SkipListScan
open List

/-! Scans of a skip list. A node is given by its place and by how many levels it has; the pointers of a
level lead from each node to the next one that has the level. -/

structure SkipNode (K V : Type) where
  key : K
  val : V
  levels : Nat
deriving DecidableEq

structure RangeOptions (K : Type) where
  gte : Option K := none
  gt : Option K := none
  lte : Option K := none
  lt : Option K := none
  reverse : Bool := false

structure SkipList (K V : Type) [LinearOrder K] where
  nodes : List (SkipNode K V)
  level : Nat
  sorted : nodes.Pairwise fun n m => n.key ≤ m.key
  leveled : 0 < level ∧ ∀ n ∈ nodes, 0 < n.levels

variable {K V : Type} [LinearOrder K]

/-- `forward` at a level; the header is at 0, and the first node at 1. -/
def forward (nodes : List (SkipNode K V)) (i x : Nat) : Option Nat :=
  ((nodes.drop x).findIdx? (i < ·.levels)).map (x + · + 1)

/-- The loop at one level: on while the next node is to be passed. -/
def descend (nodes : List (SkipNode K V)) (passed : K → Bool) (i : Nat) : (fuel x : Nat) → Nat
  | 0, x => x
  | fuel + 1, x =>
    match forward nodes i x with
    | none => x
    | some f => if (nodes[f - 1]?).any (passed ·.key) then descend nodes passed i fuel f else x

namespace SkipList

/-- The place before `lowerBound`. -/
def lowerBound (l : SkipList K V) (bound : K) (strict : Bool) : Nat :=
  (range l.level).reverse.foldl
    (fun x i => descend l.nodes (fun key => if strict then key ≤ bound else key < bound) i l.nodes.length x) 0

/-- The loop of a scan over the nodes from its first one on. -/
def walk (stop : K → Bool) : List (SkipNode K V) → (offset : Nat) → (count : Option Nat) → List (K × V)
  | [], _, _ => []
  | n :: nodes, offset, count =>
    if stop n.key then []
    else if 0 < offset then walk stop nodes (offset - 1) count
    else if count = some 0 then []
    else (n.key, n.val) :: walk stop nodes 0 (count.map (· - 1))

section

variable (l : SkipList K V) (r : RangeOptions K) (offset : Nat) (count : Option Nat)

def range : List (K × V) :=
  if r.reverse then
    let after :=
      match r.lte, r.lt with
      | some bound, _ => l.lowerBound bound true
      | none, some bound => l.lowerBound bound false
      | none, none => l.nodes.length
    walk (fun key => r.gte.any (key < ·) || r.gt.any (key ≤ ·)) (l.nodes.take after).reverse offset count
  else
    let before :=
      match r.gte <|> r.gt with
      | some bound => l.lowerBound bound r.gt.isSome
      | none => 0
    walk (fun key => r.lte.any (· < key) || r.lt.any (· ≤ key)) (l.nodes.drop before) offset count

/-- It has the body of `range`, and yields what that pushes. -/
def iterate : List (K × V) := l.range r offset count

end

end SkipList

def RangeOptions.Satisfied (r : RangeOptions K) (key : K) : Bool :=
  r.gte.all (· ≤ key) && r.gt.all (· < key) && r.lte.all (key ≤ ·) && r.lt.all (key < ·)

/-- The entries within all bounds, in order or mirrored, cut by offset and count. -/
def SkipList.expected (l : SkipList K V) (r : RangeOptions K) (offset : Nat) (count : Option Nat) : List (K × V) :=
  let found := (l.nodes.filter (r.Satisfied ·.key)).map fun n => (n.key, n.val)
  let found := (if r.reverse then found.reverse else found).drop offset
  count.elim found found.take

/-- Two lower bounds of a forward scan, or two upper bounds of a reversed one, tell no node of the list
within the other bounds from what the code makes of them: of lower bounds `gte`, exclusive, and of upper
bounds `lte`. -/
def Plain (l : SkipList K V) (r : RangeOptions K) : Prop :=
  ∀ n ∈ l.nodes,
    if r.reverse then
      ∀ a ∈ r.lte, ∀ b ∈ r.lt, r.gte.all (· ≤ n.key) → r.gt.all (· < n.key) → n.key ≤ a → n.key < b
    else
      ∀ a ∈ r.gte, ∀ b ∈ r.gt, r.lte.all (n.key ≤ ·) → r.lt.all (n.key < ·) → (a < n.key ↔ a ≤ n.key ∧ b < n.key)

variable {nodes : List (SkipNode K V)} {passed : K → Bool}

section

omit [LinearOrder K]

theorem forward_some (h : forward nodes i x = some f) : x < f ∧ f ≤ nodes.length := by
  obtain ⟨j, hj, rfl⟩ := Option.map_eq_some_iff.mp h
  have hlt := (findIdx?_eq_some_iff_getElem.mp hj).1
  rw [length_drop] at hlt
  omega

theorem forward_bottom (hlevels : ∀ n ∈ nodes, 0 < n.levels) (hx : x < nodes.length) :
    forward nodes 0 x = some (x + 1) := by
  rw [forward, drop_eq_getElem_cons hx, findIdx?_cons, if_pos (by simpa using hlevels _ (getElem_mem hx))]
  rfl

section

variable (hdown : nodes.Pairwise fun n m => passed m.key = true → passed n.key = true)
include hdown

theorem passed_iff (hx : x < nodes.length) : passed nodes[x].key = true ↔ x < (nodes.takeWhile (passed ·.key)).length := by
  induction nodes generalizing x with
  | nil => simp at hx
  | cons n nodes ih =>
    obtain ⟨hn, hnodes⟩ := pairwise_cons.mp hdown
    cases x with
    | zero => cases h : passed n.key <;> simp [h]
    | succ x =>
      have hx' : x < nodes.length := by simpa using hx
      cases h : passed n.key with
      | true => simpa [h] using ih hnodes hx'
      | false =>
        have hnot : ¬ passed nodes[x].key = true := fun hp => by simp [hn _ (getElem_mem hx') hp] at h
        simpa [h] using hnot

/-- One level keeps to the nodes that are to be passed, and the bottom one passes them all. -/
theorem descend_spec (hx : x ≤ (nodes.takeWhile (passed ·.key)).length) :
    descend nodes passed i fuel x ≤ (nodes.takeWhile (passed ·.key)).length ∧
      ((∀ n ∈ nodes, 0 < n.levels) → i = 0 → nodes.length - x ≤ fuel →
        descend nodes passed i fuel x = (nodes.takeWhile (passed ·.key)).length) := by
  have hle := (takeWhile_sublist (l := nodes) (passed ·.key)).length_le
  induction fuel generalizing x with
  | zero =>
    rw [descend]
    omega
  | succ fuel ih =>
    rw [descend]
    cases hf : forward nodes i x with
    | none =>
      refine ⟨hx, ?_⟩
      rintro hlevels rfl _
      have hend : ¬ x < nodes.length := fun hlt => by simp [forward_bottom hlevels hlt] at hf
      dsimp only
      omega
    | some f =>
      obtain ⟨hxf, hfle⟩ := forward_some hf
      have hget : nodes[f - 1]? = some nodes[f - 1] := getElem?_eq_getElem (by omega)
      have hiff := passed_iff hdown (x := f - 1) (by omega)
      dsimp only
      rw [hget, Option.any_some]
      split_ifs with hp
      · have hpassed := hiff.mp hp
        obtain ⟨hbound, hbottom⟩ := ih (x := f) (by omega)
        exact ⟨hbound, fun hlevels hi hfuel => hbottom hlevels hi (by omega)⟩
      · refine ⟨hx, ?_⟩
        rintro hlevels rfl _
        have hlt : x < nodes.length := by omega
        rw [forward_bottom hlevels hlt] at hf
        cases hf
        have hnot := mt hiff.mpr hp
        omega

end

end

omit [LinearOrder K] in
theorem walk_eq (stop : K → Bool) (ns : List (SkipNode K V)) (offset : Nat) (count : Option Nat) :
    SkipList.walk stop ns offset count =
      let found := ((ns.takeWhile (!stop ·.key)).map fun n => (n.key, n.val)).drop offset
      count.elim found found.take := by
  induction ns generalizing offset count with
  | nil => cases count <;> simp [SkipList.walk]
  | cons n ns ih =>
    rw [SkipList.walk]
    split_ifs with hstop hoffset hcount
    · cases count <;> simp [hstop]
    · obtain ⟨k, rfl⟩ := Nat.exists_eq_succ_of_ne_zero (Nat.ne_of_gt hoffset)
      rw [ih]
      simp [hstop]
    · simp [hcount]
    · obtain rfl : offset = 0 := by omega
      rw [ih]
      cases count with
      | none => simp [hstop]
      | some k =>
        obtain ⟨k, rfl⟩ := Nat.exists_eq_succ_of_ne_zero fun h => hcount (congrArg some h)
        simp [hstop]

theorem takeWhile_eq_filter {p : α → Bool} {ns : List α} (h : ns.Pairwise fun n m => p m = true → p n = true) :
    ns.takeWhile p = ns.filter p ∧ ns.dropWhile p = ns.filter (!p ·) := by
  induction ns with
  | nil => exact ⟨rfl, rfl⟩
  | cons n ns ih =>
    obtain ⟨hn, hns⟩ := pairwise_cons.mp h
    cases hp : p n with
    | true => simp [hp, ih hns]
    | false =>
      have hnone : ∀ m ∈ ns, ¬ p m = true := fun m hm hm' => by simp [hn m hm hm'] at hp
      have hnil : ns.filter p = [] := filter_eq_nil_iff.mpr hnone
      have hself : ns.filter (!p ·) = ns := filter_eq_self.mpr (by simpa using hnone)
      simp [hp, hnil, hself]

/-- What the code makes of the bounds. -/
def RangeOptions.taken (r : RangeOptions K) (key : K) : Bool :=
  if r.reverse then
    r.gte.all (· ≤ key) && r.gt.all (· < key) && (if r.lte.isSome then r.lte.all (key ≤ ·) else r.lt.all (key < ·))
  else
    r.lte.all (key ≤ ·) && r.lt.all (key < ·) &&
      (r.gte <|> r.gt).all fun bound => if r.gt.isSome then bound < key else bound ≤ key

theorem taken_eq_iff (r : RangeOptions K) (key : K) : r.taken key = r.Satisfied key ↔
    if r.reverse then
      ∀ a ∈ r.lte, ∀ b ∈ r.lt, r.gte.all (· ≤ key) → r.gt.all (· < key) → key ≤ a → key < b
    else
      ∀ a ∈ r.gte, ∀ b ∈ r.gt, r.lte.all (key ≤ ·) → r.lt.all (key < ·) → (a < key ↔ a ≤ key ∧ b < key) := by
  obtain ⟨gte, gt, lte, lt, reverse⟩ := r
  cases reverse <;> cases gte <;> cases gt <;> cases lte <;> cases lt <;>
    simp [RangeOptions.taken, RangeOptions.Satisfied] <;> grind

/-- The test of a descent, which holds of the first nodes of a list. -/
def passes (bound : K) (strict : Bool) (key : K) : Bool := if strict then key ≤ bound else key < bound

theorem passes_false (bound : K) (strict : Bool) (key : K) :
    (!passes bound strict key) = if strict then decide (bound < key) else decide (bound ≤ key) := by
  cases strict
  · simp only [passes, Bool.false_eq_true, if_false, ← decide_not, not_lt]
  · simp only [passes, if_true, ← decide_not, not_le]

namespace SkipList

section

variable (l : SkipList K V) (bound : K) (strict : Bool)

theorem passes_down :
    l.nodes.Pairwise fun n m => passes bound strict m.key = true → passes bound strict n.key = true := by
  apply l.sorted.imp
  intro n m hle
  cases strict
  · simpa [passes] using lt_of_le_of_lt hle
  · simpa [passes] using le_trans hle

theorem lowerBound_eq : l.lowerBound bound strict = (l.nodes.takeWhile (passes bound strict ·.key)).length := by
  have hdown := l.passes_down bound strict
  obtain ⟨level, hlevel⟩ := Nat.exists_eq_succ_of_ne_zero (Nat.ne_of_gt l.leveled.1)
  have hinner (levels : List Nat) :
      levels.foldl (fun x i => descend l.nodes (passes bound strict) i l.nodes.length x) 0 ≤
        (l.nodes.takeWhile (passes bound strict ·.key)).length := by
    induction levels using reverseRecOn with
    | nil => exact Nat.zero_le _
    | append_singleton levels i ih =>
      rw [foldl_append]
      exact (descend_spec hdown ih).1
  rw [lowerBound, hlevel, range_succ_eq_map, reverse_cons, foldl_append]
  exact (descend_spec hdown (hinner _)).2 l.leveled.2 rfl (Nat.sub_le _ _)

theorem take_lowerBound : l.nodes.take (l.lowerBound bound strict) = l.nodes.filter (passes bound strict ·.key) := by
  rw [l.lowerBound_eq, ← (takeWhile_eq_filter (l.passes_down bound strict)).1]
  exact (prefix_iff_eq_take.mp ( takeWhile_prefix _)).symm

theorem drop_lowerBound : l.nodes.drop (l.lowerBound bound strict) = l.nodes.filter (!passes bound strict ·.key) := by
  rw [l.lowerBound_eq, ← (takeWhile_eq_filter (l.passes_down bound strict)).2]
  have hsplit := congrArg (drop (l.nodes.takeWhile (passes bound strict ·.key)).length)
    (takeWhile_append_dropWhile (l := l.nodes) (p := (passes bound strict ·.key)))
  rw [drop_left] at hsplit
  exact hsplit.symm

end

section

variable (l : SkipList K V) (r : RangeOptions K)

theorem range_forward (hr : r.reverse = false) (offset : Nat) (count : Option Nat) : l.range r offset count =
      let found := ((l.nodes.filter (r.taken ·.key)).map fun n => (n.key, n.val)).drop offset
      count.elim found found.take := by
  have hpair : l.nodes.Pairwise fun n m => (!(r.lte.any (· < m.key) || r.lt.any (· ≤ m.key))) = true →
      (!(r.lte.any (· < n.key) || r.lt.any (· ≤ n.key))) = true := by
    apply l.sorted.imp
    intro n m hle
    cases r.lte <;> cases r.lt <;> simp <;> grind
  have hstop (key : K) :
      (!(r.lte.any (· < key) || r.lt.any (· ≤ key))) = (r.lte.all (key ≤ ·) && r.lt.all (key < ·)) := by
    cases r.lte <;> cases r.lt <;> simp [← decide_not]
  rw [range, if_neg (by simp [hr])]
  cases hlower : r.gte <|> r.gt with
  | none =>
    rw [walk_eq, drop_zero, (takeWhile_eq_filter hpair).1]
    simp [RangeOptions.taken, hr, hlower, hstop]
  | some bound =>
    rw [walk_eq, l.drop_lowerBound, (takeWhile_eq_filter (hpair.filter _)).1, filter_filter]
    simp [RangeOptions.taken, hr, hlower, hstop, passes_false]

theorem range_reverse (hr : r.reverse = true) (offset : Nat) (count : Option Nat) : l.range r offset count =
      let found := ((l.nodes.filter (r.taken ·.key)).map fun n => (n.key, n.val)).reverse.drop offset
      count.elim found found.take := by
  have hpair : l.nodes.Pairwise fun n m => (!(r.gte.any (n.key < ·) || r.gt.any (n.key ≤ ·))) = true →
      (!(r.gte.any (m.key < ·) || r.gt.any (m.key ≤ ·))) = true := by
    apply l.sorted.imp
    intro n m hle
    cases r.gte <;> cases r.gt <;> simp <;> grind
  have hstop (key : K) :
      (!(r.gte.any (key < ·) || r.gt.any (key ≤ ·))) = (r.gte.all (· ≤ key) && r.gt.all (· < key)) := by
    cases r.gte <;> cases r.gt <;> simp [← decide_not]
  rw [range, if_pos hr]
  have hscan (after : Nat) (p : K → Bool) (h : l.nodes.take after = l.nodes.filter (p ·.key)) :
      walk (fun key => r.gte.any (key < ·) || r.gt.any (key ≤ ·)) (l.nodes.take after).reverse offset count =
        let found := ((l.nodes.filter fun n => (r.gte.all (· ≤ n.key) && r.gt.all (· < n.key)) && p n.key).map fun n =>
          (n.key, n.val)).reverse.drop offset
        count.elim found found.take := by
    rw [walk_eq, h, (takeWhile_eq_filter (pairwise_reverse.mpr (hpair.filter _))).1, filter_reverse, filter_filter,
      map_reverse]
    simp only [hstop]
  cases hlte : r.lte with
  | some bound =>
    rw [hscan _ _ (l.take_lowerBound bound true)]
    simp [RangeOptions.taken, hr, hlte, passes]
  | none =>
    cases hlt : r.lt with
    | some bound =>
      rw [hscan _ _ (l.take_lowerBound bound false)]
      simp [RangeOptions.taken, hr, hlte, hlt, passes]
    | none =>
      rw [hscan _ (fun _ => true) (by rw [take_length, filter_eq_self.mpr fun _ _ => rfl])]
      simp [RangeOptions.taken, hr, hlte, hlt]

theorem range_eq (offset : Nat) (count : Option Nat) : l.range r offset count =
      let found := (l.nodes.filter (r.taken ·.key)).map fun n => (n.key, n.val)
      let found := (if r.reverse then found.reverse else found).drop offset
      count.elim found found.take := by
  cases hr : r.reverse
  · exact l.range_forward r hr offset count
  · exact l.range_reverse r hr offset count

end

end SkipList

def twoEntries : SkipList Nat String :=
  { nodes := [⟨1, "a", 1⟩, ⟨2, "b", 2⟩]
    level := 1
    sorted := by decide
    leveled := by decide }

end Echadron.MiniDb.SkipListScan
