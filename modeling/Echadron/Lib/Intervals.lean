import Mathlib.Order.Interval.Finset.Basic
import Mathlib.Algebra.Ring.Nat

namespace Echadron.Lib
open List

/-! Points of half-open intervals, and pieces of an interval that follow one another. -/

section
variable {α : Type} [LinearOrder α] [LocallyFiniteOrder α] (p : α → Prop) [DecidablePred p]

/-- The points after `a` and not after `b` that have a property. -/
def pointsIn (a b : α) : Finset α := (Finset.Ioc a b).filter p

variable {p}

@[simp] theorem mem_pointsIn : n ∈ pointsIn p a b ↔ (a < n ∧ n ≤ b) ∧ p n := by
  rw [pointsIn, Finset.mem_filter, Finset.mem_Ioc]

@[simp] theorem pointsIn_self : pointsIn p a a = ∅ := by
  rw [pointsIn, Finset.Ioc_self, Finset.filter_empty]

theorem card_pointsIn_add (hab : a ≤ b) (hbc : b ≤ c) :
    (pointsIn p a b).card + (pointsIn p b c).card = (pointsIn p a c).card := by
  have hdisjoint : Disjoint (pointsIn p a b) (pointsIn p b c) :=
    Finset.disjoint_filter_filter (Finset.Ioc_disjoint_Ioc_of_le le_rfl)
  rw [← Finset.card_union_of_disjoint hdisjoint, pointsIn, pointsIn, ← Finset.filter_union,
    Finset.Ioc_union_Ioc_eq_Ioc hab hbc, pointsIn]

theorem card_pointsIn_next (hab : a < b) (hb : p b) (hnone : ∀ n, a < n → n < b → ¬ p n) :
    (pointsIn p a b).card = 1 := by
  have hpoint : pointsIn p a b = {b} := by
    ext n
    rw [mem_pointsIn, Finset.mem_singleton]
    constructor
    · intro h
      by_contra hne
      exact hnone n h.1.1 (lt_of_le_of_ne h.1.2 hne) h.2
    · intro h
      subst h
      exact ⟨⟨hab, le_rfl⟩, hb⟩
  rw [hpoint, Finset.card_singleton]

end

section
variable {α β : Type} [LinearOrder α] (lo hi : β → α)

/-- Pieces that lead from one point to another, each beginning where the one before it ends. -/
inductive Contiguous : α → List β → α → Prop where
  | nil (a : α) : Contiguous a [] a
  | cons : lo x = a → a ≤ hi x → Contiguous (hi x) xs c → Contiguous a (x :: xs) c

variable {lo hi}

theorem Contiguous.le (h : Contiguous lo hi a xs c) : a ≤ c := by
  induction h with
  | nil a => exact le_rfl
  | cons hlo hle hrest ih => exact le_trans hle ih

theorem Contiguous.concat (h : Contiguous lo hi a xs c) (hlo : lo x = c) (hle : c ≤ hi x) :
    Contiguous lo hi a (xs ++ [x]) (hi x) := by
  induction h with
  | nil a => exact .cons hlo hle (.nil (hi x))
  | cons hlo' hle' hrest ih => exact .cons hlo' hle' (ih hlo hle)

theorem Contiguous.none_covers (h : Contiguous lo hi a xs c) (hn : n ≤ a) :
    xs.countP (fun x => lo x < n ∧ n ≤ hi x) = 0 := by
  induction h with
  | nil a => rfl
  | cons hlo hle hrest ih =>
    subst hlo
    have hnot : ¬ lo _ < n := not_lt.mpr hn
    rw [countP_cons_of_neg (by simp only [hnot, false_and, decide_false, Bool.false_eq_true, not_false_eq_true])]
    exact ih (le_trans hn hle)

/-- Every point of the whole lies in exactly one piece. -/
theorem Contiguous.one_covers (h : Contiguous lo hi a xs c) (han : a < n) (hnc : n ≤ c) :
    xs.countP (fun x => lo x < n ∧ n ≤ hi x) = 1 := by
  induction h with
  | nil a => exact absurd hnc (not_le.mpr han)
  | @cons x a xs c hlo hle hrest ih =>
    subst hlo
    by_cases hn : n ≤ hi x
    · rw [countP_cons_of_pos (by simp only [han, hn, and_self, decide_true]), hrest.none_covers hn]
    · rw [countP_cons_of_neg (by simp only [hn, and_false, decide_false, Bool.false_eq_true, not_false_eq_true])]
      exact ih (lt_of_not_ge hn) hnc

/-- The points of the pieces add up to the points of the whole. -/
theorem Contiguous.sum_card [LocallyFiniteOrder α] [DecidablePred p] (h : Contiguous lo hi a xs c) :
    (xs.map fun x => (pointsIn p (lo x) (hi x)).card).sum = (pointsIn p a c).card := by
  induction h with
  | nil a => simp
  | cons hlo hle hrest ih =>
    subst hlo
    rw [map_cons, sum_cons, ih, card_pointsIn_add hle hrest.le]

end

end Echadron.Lib
