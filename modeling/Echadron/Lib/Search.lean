import Mathlib.Data.Nat.Basic

namespace Echadron.Lib

/-- The result of a search upwards from `start` for the first position with `P`. -/
def FirstFrom (P : Nat → Prop) (start : Nat) : Option Nat → Prop
  | some i => start ≤ i ∧ P i ∧ ∀ j, start ≤ j → j < i → ¬ P j
  | none => ∀ j, start ≤ j → ¬ P j

namespace FirstFrom

variable {P Q : Nat → Prop} {start next i : Nat} {result : Option Nat}

theorem here (h : P start) : FirstFrom P start (some start) :=
  ⟨Nat.le_refl _, h, fun _ hj hj' => absurd hj' (Nat.not_lt_of_le hj)⟩

theorem skip (h : FirstFrom P next result) (hle : start ≤ next)
    (hskip : ∀ j, start ≤ j → j < next → ¬ P j) : FirstFrom P start result := by
  cases result with
  | none =>
    intro j hj
    rcases lt_or_ge j next with hlt | hge
    · exact hskip j hj hlt
    · exact h j hge
  | some i =>
    obtain ⟨hnext, hi, hfirst⟩ := h
    refine ⟨le_trans hle hnext, hi, ?_⟩
    intro j hj hj'
    rcases lt_or_ge j next with hlt | hge
    · exact hskip j hj hlt
    · exact hfirst j hge hj'

theorem none_of_imp (h : FirstFrom Q start none) (hpq : ∀ j, P j → Q j) : FirstFrom P start none :=
  fun j hj hp => h j hj (hpq j hp)

theorem candidate (h : FirstFrom Q start (some i)) (hpq : ∀ j, P j → Q j) (hi : P i) : FirstFrom P start (some i) :=
  ⟨h.1, hi, fun j hj hj' hp => h.2.2 j hj hj' (hpq j hp)⟩

theorem reject (h : FirstFrom Q start (some i)) (hpq : ∀ j, P j → Q j) (hi : ¬ P i)
    (hrest : FirstFrom P (i + 1) result) : FirstFrom P start result := by
  apply hrest.skip (Nat.le_succ_of_le h.1)
  intro j hj hj' hp
  rcases Nat.lt_succ_iff_lt_or_eq.mp hj' with hlt | rfl
  · exact h.2.2 j hj hlt (hpq j hp)
  · exact hi hp

theorem unique (h : FirstFrom P start result) (h' : FirstFrom P start result') : result = result' := by
  cases result with
  | none =>
    cases result' with
    | none => rfl
    | some j => exact absurd h'.2.1 (h j h'.1)
  | some i =>
    cases result' with
    | none => exact absurd h.2.1 (h' i h.1)
    | some j =>
      rcases lt_trichotomy i j with hlt | rfl | hlt
      · exact absurd h.2.1 (h'.2.2 i h.1 hlt)
      · rfl
      · exact absurd h'.2.1 (h.2.2 j h'.1 hlt)

end FirstFrom

end Echadron.Lib
