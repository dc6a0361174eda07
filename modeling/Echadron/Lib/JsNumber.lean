import Mathlib.Data.Nat.Log
import Mathlib.Tactic.Ring

namespace Echadron.Lib

/-- The multiple of `unit` nearest to `n`, the even one of two that are equally near. -/
def roundToUnit (unit n : Nat) : Nat :=
  let q := n / unit
  if 2 * (n % unit) > unit ∨ (2 * (n % unit) = unit ∧ q % 2 = 1) then (q + 1) * unit else q * unit

/-- The double nearest to a natural number below the overflow threshold. -/
def roundNat (n : Nat) : Nat :=
  if n < 2 ^ 53 then n else roundToUnit (2 ^ (Nat.log 2 n - 52)) n

theorem roundToUnit_mul (unit q : Nat) (h : 0 < unit) : roundToUnit unit (q * unit) = q * unit := by
  rw [roundToUnit, Nat.mul_mod_left, Nat.mul_div_cancel q h, if_neg (by omega)]

theorem roundToUnit_bounds (n e : Nat) (h : Nat.log 2 n = 52 + e) (hn : n ≠ 0) :
    ∃ q, roundToUnit (2 ^ e) n = q * 2 ^ e ∧ 2 ^ 52 ≤ q ∧ q ≤ 2 ^ 53 := by
  have hlow : 2 ^ 52 * 2 ^ e ≤ n := by
    rw [← pow_add, ← h]
    exact Nat.pow_log_le_self 2 hn
  have hhigh : n < 2 ^ 53 * 2 ^ e := by
    have hlt := Nat.lt_pow_succ_log_self (b := 2) (by decide) n
    rwa [h, Nat.succ_eq_add_one, show 52 + e + 1 = 53 + e by omega, Nat.pow_add] at hlt
  have hq : 2 ^ 52 ≤ n / 2 ^ e := (Nat.le_div_iff_mul_le (Nat.two_pow_pos e)).mpr hlow
  have hq' : n / 2 ^ e < 2 ^ 53 := (Nat.div_lt_iff_lt_mul (Nat.two_pow_pos e)).mpr hhigh
  unfold roundToUnit
  dsimp only
  split
  · exact ⟨n / 2 ^ e + 1, rfl, by omega, by omega⟩
  · exact ⟨n / 2 ^ e, rfl, hq, by omega⟩

theorem log_mul_unit (q e : Nat) (hlow : 2 ^ 52 ≤ q) (hhigh : q < 2 ^ 53) : Nat.log 2 (q * 2 ^ e) = 52 + e := by
  apply Nat.log_eq_of_pow_le_of_lt_pow
  · rw [pow_add]
    exact Nat.mul_le_mul_right _ hlow
  · rw [show 52 + e + 1 = 53 + e by omega, pow_add]
    exact Nat.mul_lt_mul_of_pos_right hhigh (Nat.two_pow_pos e)

theorem le_roundNat_of_le (h : 2 ^ 53 ≤ n) : 2 ^ 53 ≤ roundNat n := by
  have hlog : 53 ≤ Nat.log 2 n := Nat.le_log_of_pow_le (by decide) h
  obtain ⟨e, he⟩ : ∃ e, Nat.log 2 n = 52 + (e + 1) := ⟨Nat.log 2 n - 53, by omega⟩
  obtain ⟨q, hr, hlow, _⟩ := roundToUnit_bounds n (e + 1) he (by omega)
  rw [roundNat, if_neg (by omega), he, Nat.add_sub_cancel_left, hr]
  calc 2 ^ 53 = 2 ^ 52 * 2 ^ 1 := by ring
    _ ≤ q * 2 ^ (e + 1) := Nat.mul_le_mul hlow (Nat.pow_le_pow_right (by decide) (by omega))

theorem roundNat_roundNat (n : Nat) : roundNat (roundNat n) = roundNat n := by
  by_cases hn : n < 2 ^ 53
  · rw [roundNat, roundNat, if_pos hn, if_pos hn]
  · have hlog : 53 ≤ Nat.log 2 n := Nat.le_log_of_pow_le (by decide) (Nat.le_of_not_lt hn)
    obtain ⟨e, he⟩ : ∃ e, Nat.log 2 n = 52 + e := ⟨Nat.log 2 n - 52, by omega⟩
    obtain ⟨q, hr, hlow, hhigh⟩ := roundToUnit_bounds n e he (by omega)
    have hround : roundNat n = q * 2 ^ e := by
      rw [roundNat, if_neg hn, he, Nat.add_sub_cancel_left, hr]
    have hpos : 2 ^ 53 ≤ q * 2 ^ e := by
      obtain ⟨d, rfl⟩ : ∃ d, e = d + 1 := ⟨e - 1, by omega⟩
      calc 2 ^ 53 = 2 ^ 52 * 2 ^ 1 := by ring
        _ ≤ q * 2 ^ (d + 1) := Nat.mul_le_mul hlow (Nat.pow_le_pow_right (by decide) (by omega))
    rw [hround, roundNat, if_neg (by omega)]
    rcases lt_or_eq_of_le hhigh with hlt | rfl
    · rw [log_mul_unit q e hlow hlt, Nat.add_sub_cancel_left]
      exact roundToUnit_mul _ _ (Nat.two_pow_pos e)
    · -- the carry: one more power of two in the unit
      have hcarry : 2 ^ 53 * 2 ^ e = 2 ^ 52 * 2 ^ (e + 1) := by ring
      rw [hcarry, log_mul_unit (2 ^ 52) (e + 1) (Nat.le_refl _) (by decide), Nat.add_sub_cancel_left]
      exact roundToUnit_mul _ _ (Nat.two_pow_pos _)

/-- An integer that a double holds. -/
structure JsInteger where
  toInt : Int
  exact : roundNat toInt.natAbs = toInt.natAbs
deriving DecidableEq

namespace JsInteger

/-- `Number(n)` of a bigint. -/
def ofInt (n : Int) : JsInteger where
  toInt := if n < 0 then -(roundNat n.natAbs : Int) else roundNat n.natAbs
  exact := by
    split
    · rw [Int.natAbs_neg, Int.natAbs_natCast, roundNat_roundNat]
    · rw [Int.natAbs_natCast, roundNat_roundNat]

theorem ofInt_toInt (n : JsInteger) : ofInt n.toInt = n := by
  obtain ⟨n, h⟩ := n
  rw [ofInt, mk.injEq]
  dsimp only
  split <;> omega

instance : OfNat JsInteger n := ⟨ofInt n⟩

instance : LE JsInteger := ⟨fun a b => a.toInt ≤ b.toInt⟩

instance (a b : JsInteger) : Decidable (a ≤ b) := inferInstanceAs (Decidable (a.toInt ≤ b.toInt))

end JsInteger

end Echadron.Lib
