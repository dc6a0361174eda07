import Mathlib.Data.List.Lex
import Mathlib.Tactic.Ring

namespace Echadron.Lib
open List

abbrev Bytes := List UInt8

namespace Bytes

/-- `len` bytes from position `pos` on, fewer where the bytes end before. -/
def slice (bytes : Bytes) (pos len : Nat) : Bytes := (bytes.drop pos).take len

variable {pre mid post a b : Bytes}

theorem slice_mid (h : pos = pre.length) (h' : len = mid.length) : slice (pre ++ mid ++ post) pos len = mid := by
  rw [slice, h, h', append_assoc, drop_left, take_left]

theorem slice_eq (a b : Bytes) (h : file = a ++ (mid ++ b)) (hpos : pos = a.length)
    (hlen : len = mid.length) : slice file pos len = mid := by
  rw [h, ← append_assoc]
  exact slice_mid hpos hlen

theorem slice_within (h : i + n ≤ mid.length) (pre post : Bytes) :
    slice (pre ++ (mid ++ post)) (pre.length + i) n = slice mid i n := by
  rw [slice, slice, drop_length_add_append, drop_append_of_le_length (by omega), take_append_of_le_length]
  rw [length_drop]
  omega

theorem slice_append_left (h : pos + len ≤ a.length) : slice (a ++ b) pos len = slice a pos len := by
  rw [slice, drop_append_of_le_length (by omega), take_append_of_le_length]
  · rfl
  · rw [length_drop]
    omega

theorem length_slice (h : pos + len ≤ a.length) : (slice a pos len).length = len := by
  rw [slice, length_take, length_drop]
  omega

theorem length_slice_le (a : Bytes) (pos len : Nat) : (slice a pos len).length ≤ len := by
  rw [slice, length_take]
  exact min_le_left _ _

theorem slice_zero (a : Bytes) (pos : Nat) : slice a pos 0 = [] := by
  rw [slice, take_zero]

theorem slice_add (a : Bytes) (pos m n : Nat) : slice a pos (m + n) = slice a pos m ++ slice a (pos + m) n := by
  rw [slice, slice, slice, take_add, drop_drop]

theorem slice_slice (h : pos' + len' ≤ len) : slice (slice a pos len) pos' len' = slice a (pos + pos') len' := by
  rw [slice, slice, slice, drop_take, take_take, drop_drop, min_eq_left (by omega)]

theorem slice_all (a : Bytes) : slice a 0 a.length = a := by
  rw [slice, drop_zero, take_length]

def ofNatLE : (width : Nat) → Nat → Bytes
  | 0, _ => []
  | width + 1, n => UInt8.ofNat n :: ofNatLE width (n / 256)

def toNatLE : Bytes → Nat
  | [] => 0
  | b :: bs => b.toNat + 256 * toNatLE bs

@[simp] theorem length_ofNatLE (width n : Nat) : (ofNatLE width n).length = width := by
  induction width generalizing n with
  | zero => rfl
  | succ width ih => rw [ofNatLE, length_cons, ih]

theorem toNatLE_ofNatLE (width n : Nat) : toNatLE (ofNatLE width n) = n % 256 ^ width := by
  induction width generalizing n with
  | zero => rw [Nat.pow_zero, Nat.mod_one]; rfl
  | succ width ih => rw [ofNatLE, toNatLE, ih, Nat.pow_succ', Nat.mod_mul, UInt8.toNat_ofNat']

theorem toNatLE_lt (bytes : Bytes) : toNatLE bytes < 256 ^ bytes.length := by
  induction bytes with
  | nil => exact one_pos
  | cons b bs ih =>
    have hb : b.toNat < 256 := b.toNat_lt
    rw [length_cons, pow_succ']
    calc b.toNat + 256 * toNatLE bs < 256 + 256 * toNatLE bs := Nat.add_lt_add_right hb _
      _ = 256 * (toNatLE bs + 1) := by ring
      _ ≤ 256 * 256 ^ bs.length := Nat.mul_le_mul_left _ ih

theorem toNatLE_ofNatLE_of_lt (h : n < 256 ^ width) : toNatLE (ofNatLE width n) = n := by
  rw [toNatLE_ofNatLE, Nat.mod_eq_of_lt h]

/-- A signed integer of `8 * width` bits, as its two's complement. -/
def ofIntLE (width : Nat) (n : Int) : Bytes := ofNatLE width (n % (256 ^ width : Nat)).toNat

def toIntLE (bytes : Bytes) : Int :=
  if 2 * toNatLE bytes < 256 ^ bytes.length then toNatLE bytes
  else (toNatLE bytes : Int) - (256 ^ bytes.length : Nat)

@[simp] theorem length_ofIntLE (width : Nat) (n : Int) : (ofIntLE width n).length = width := length_ofNatLE _ _

theorem toIntLE_ofIntLE (width : Nat) (n : Int) (hlow : -(256 ^ width : Nat) ≤ 2 * n)
    (hhigh : 2 * n < (256 ^ width : Nat)) : toIntLE (ofIntLE width n) = n := by
  generalize hm : 256 ^ width = m at hlow hhigh
  have hpos : 0 < m := by
    rw [← hm]
    exact Nat.pow_pos (by decide)
  have hmod : (n % (m : Int)).toNat < m := by
    have hlt := Int.emod_lt_of_pos n (Int.natCast_pos.mpr hpos)
    omega
  rw [toIntLE, length_ofIntLE, ofIntLE, hm, toNatLE_ofNatLE_of_lt (by rw [hm]; exact hmod)]
  rcases Int.lt_or_le n 0 with hneg | hnonneg
  · have he : n % (m : Int) = n + m := by
      rw [← Int.add_emod_right]
      exact Int.emod_eq_of_lt (by omega) (by omega)
    omega
  · have he : n % (m : Int) = n := Int.emod_eq_of_lt hnonneg (by omega)
    omega

def toNats (bytes : Bytes) : List ℕ := bytes.map UInt8.toNat

theorem toNats_injective : Function.Injective toNats := map_injective_iff.mpr fun _ _ h => UInt8.toNat_inj.mp h

end Bytes

/-- Texts of bytes in the order of their bytes. -/
instance : LinearOrder Bytes :=
  let order := LinearOrder.lift' Bytes.toNats Bytes.toNats_injective
  { order with
    toDecidableEq := instDecidableEqList
    compare_eq_compareOfLessAndEq := by
      intro a b
      convert order.compare_eq_compareOfLessAndEq a b }

end Echadron.Lib
