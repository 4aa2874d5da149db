import Sargantana.Lib.MExtension
import Sargantana.Lib.Packed
import Mathlib.Tactic.Ring

-- Exact products of words, from the products of their halves.
namespace Sargantana.PartialProducts
open Sargantana.Packed MExtension

variable {w n : Nat}

def full (x y : BitVec w) : BitVec (w + w) := x.zeroExtend (w + w) * y.zeroExtend (w + w)

-- The two halves of one word by the two halves of the other, added with a bit to spare
def combine (lowLow lowHigh highLow highHigh : BitVec (w + w)) : BitVec (w + w + (w + w)) :=
  let wide (x : BitVec (w + w)) : BitVec (w + w + (w + w) + 1) := x.zeroExtend _
  (wide lowLow + (wide lowHigh + wide highLow) <<< w + wide highHigh <<< (w + w)).truncate _

theorem product_below (x y : BitVec w) : x.toNat * y.toNat < 2 ^ (w + w) := by
  rw [Nat.pow_add]
  exact Nat.mul_lt_mul'' x.isLt y.isLt

theorem full_toNat (x y : BitVec w) : (full x y).toNat = x.toNat * y.toNat := by
  rw [full,BitVec.toNat_mul,extend_toNat (Nat.le_add_left w w),extend_toNat (Nat.le_add_left w w)]
  exact Nat.mod_eq_of_lt (product_below x y)

theorem element_halves (i : Nat) (x : BitVec n) :
    (element (w + w) i x).toNat = (element w (2 * i) x).toNat + 2 ^ w * (element w (2 * i + 1) x).toNat := by
  have two := slice_succ (w := w) (2 * i) 1 x
  have start : 2 * i * w = i * (w + w) := by rw [Nat.mul_assoc,Nat.mul_left_comm,Nat.two_mul]
  rw [slice_one,Nat.one_mul] at two
  rw [← two,element,start,BitVec.extractLsb'_toNat,BitVec.extractLsb'_toNat,← Nat.two_mul w]

theorem combine_toNat (lowLow lowHigh highLow highHigh : BitVec (w + w)) :
    (combine lowLow lowHigh highLow highHigh).toNat =
      (lowLow.toNat + (lowHigh.toNat + highLow.toNat) * 2 ^ w + highHigh.toNat * 2 ^ (w + w)) % 2 ^ (w + w + (w + w)) := by
  have narrow : w + w ≤ w + w + (w + w) + 1 := by omega
  have divides : 2 ^ (w + w + (w + w)) ∣ 2 ^ (w + w + (w + w) + 1) := Nat.pow_dvd_pow 2 (Nat.le_succ _)
  simp only [combine,BitVec.truncate_eq_setWidth,BitVec.toNat_setWidth,BitVec.toNat_add,BitVec.toNat_shiftLeft,
    Nat.shiftLeft_eq,extend_toNat narrow,Nat.mod_mul_mod,Nat.mod_add_mod,Nat.add_mod_mod]
  exact Nat.mod_mod_of_dvd _ divides

-- The product of two words is the sum of the four products.
theorem combine_full (x y : BitVec n) (i j : Nat) :
    combine (full (element w (2 * i) x) (element w (2 * j) y)) (full (element w (2 * i) x) (element w (2 * j + 1) y))
        (full (element w (2 * i + 1) x) (element w (2 * j) y)) (full (element w (2 * i + 1) x) (element w (2 * j + 1) y)) =
      full (element (w + w) i x) (element (w + w) j y) := by
  have below := product_below (element (w + w) i x) (element (w + w) j y)
  refine BitVec.eq_of_toNat_eq ?_
  rw [combine_toNat,full_toNat,full_toNat,full_toNat,full_toNat,full_toNat]
  refine Eq.trans (congrArg (· % _) ?_) (Nat.mod_eq_of_lt below)
  rw [element_halves,element_halves,Nat.pow_add]
  ring

theorem signed_full (signedX signedY : Bool) (x y : BitVec w) :
    (if (signedX && x.msb) ^^ (signedY && y.msb) then -full (magnitude signedX x) (magnitude signedY y)
      else full (magnitude signedX x) (magnitude signedY y)) =
      BitVec.ofInt (w + w) (reading signedX x * reading signedY y) := by
  have exact' : full (magnitude signedX x) (magnitude signedY y) =
      BitVec.ofInt (w + w) ((magnitude signedX x).toNat * (magnitude signedY y).toNat : Nat) := by
    refine BitVec.eq_of_toNat_eq ?_
    rw [full_toNat,BitVec.ofInt_natCast,BitVec.toNat_ofNat,Nat.mod_eq_of_lt (product_below _ _)]
  rw [product_magnitudes]
  split
  · rw [exact',BitVec.ofInt_neg]
  · exact exact'

end Sargantana.PartialProducts
