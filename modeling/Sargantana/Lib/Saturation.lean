import Mathlib.Algebra.Group.Int.Defs
import Mathlib.Algebra.GroupWithZero.Nat
import Mathlib.Data.Int.Order.Basic
import Mathlib.Order.MinMax
import Sargantana.Lib.MExtension

-- The range of the integers of a width, and what a value out of it becomes.
namespace Sargantana.Saturation
open MExtension (reading)

def least (signed : Bool) (w : Nat) : Int := if signed then -2 ^ (w - 1) else 0

def greatest (signed : Bool) (w : Nat) : Int := if signed then 2 ^ (w - 1) - 1 else 2 ^ w - 1

def clip (signed : Bool) (w : Nat) (x : Int) : Int := max (least signed w) (min (greatest signed w) x)

def saturates (signed : Bool) (w : Nat) (x : Int) : Prop := clip signed w x ≠ x

instance (signed : Bool) (w : Nat) (x : Int) : Decidable (saturates signed w x) := inferInstanceAs (Decidable (¬ _))

variable {signed : Bool} {w : Nat} {x : Int}

theorem least_le_greatest (signed : Bool) (w : Nat) : least signed w ≤ greatest signed w := by
  have half : (0 : Int) < 2 ^ (w - 1) := Int.pow_pos (by decide)
  have whole : (0 : Int) < 2 ^ w := Int.pow_pos (by decide)
  cases signed with
  | true => simp only [least,greatest,if_pos]; omega
  | false => simp only [least,greatest,Bool.false_eq_true,if_false]; omega

theorem clip_above (above : greatest signed w < x) : clip signed w x = greatest signed w := by
  rw [clip,min_eq_left (by omega),max_eq_right (least_le_greatest signed w)]

theorem clip_below (below : x < least signed w) : clip signed w x = least signed w := by
  have order := least_le_greatest signed w
  rw [clip,min_eq_right (by omega),max_eq_left (by omega)]

theorem clip_within (from_least : least signed w ≤ x) (to_greatest : x ≤ greatest signed w) : clip signed w x = x := by
  rw [clip,min_eq_right to_greatest,max_eq_right from_least]

theorem saturates_iff : saturates signed w x ↔ x < least signed w ∨ greatest signed w < x := by
  constructor
  · intro changed
    by_contra within
    exact changed (clip_within (by omega) (by omega))
  · rintro (below | above)
    · rw [saturates,clip_below below]
      omega
    · rw [saturates,clip_above above]
      omega

-- The lower end is even and the upper end is odd: an even value and the next one are both in the
-- range or both out of it.
theorem ends_parity (signed : Bool) (wide : 2 ≤ w) : least signed w % 2 = 0 ∧ greatest signed w % 2 = 1 := by
  obtain ⟨v,rfl⟩ : ∃ v, w = v + 2 := ⟨w - 2,by omega⟩
  have half : (2 : Int) ^ (v + 2 - 1) = 2 * 2 ^ v := by rw [show v + 2 - 1 = v + 1 by omega,pow_succ,mul_comm]
  have whole : (2 : Int) ^ (v + 2) = 2 * (2 * 2 ^ v) := by rw [pow_succ,pow_succ]; omega
  cases signed with
  | true => simp only [least,greatest,if_pos,half]; omega
  | false => simp only [least,greatest,Bool.false_eq_true,if_false,whole]; omega

theorem saturates_succ (wide : 2 ≤ w) (even : x % 2 = 0) : saturates signed w (x + 1) ↔ saturates signed w x := by
  have ends := ends_parity signed wide
  rw [saturates_iff,saturates_iff]
  omega

theorem clip_succ_saturated (wide : 2 ≤ w) (even : x % 2 = 0) (out : saturates signed w x) :
    clip signed w (x + 1) = clip signed w x := by
  have ends := ends_parity signed wide
  rcases saturates_iff.mp out with below | above
  · rw [clip_below below,clip_below (by omega)]
  · rw [clip_above above,clip_above (by omega)]

theorem reading_range (signed : Bool) (a : BitVec w) : least signed w ≤ reading signed a ∧ reading signed a ≤ greatest signed w := by
  cases signed with
  | true =>
    have above := a.le_toInt
    have below := a.toInt_lt
    simp only [least,greatest,reading,if_pos]
    omega
  | false =>
    have below := a.isLt
    have cast : ((2 ^ w : Nat) : Int) = 2 ^ w := by norm_cast
    simp only [least,greatest,reading,Bool.false_eq_true,if_false]
    omega

theorem ofInt_reading (signed : Bool) (a : BitVec w) : BitVec.ofInt w (reading signed a) = a := by
  cases signed with
  | true => exact BitVec.ofInt_toInt
  | false =>
    rw [reading,if_neg Bool.false_ne_true,BitVec.ofInt_natCast,BitVec.ofNat_toNat,BitVec.setWidth_eq]

theorem reading_ofInt (positive : 0 < w) (from_least : least signed w ≤ x) (to_greatest : x ≤ greatest signed w) :
    reading signed (BitVec.ofInt w x) = x := by
  have whole : (2 : Int) ^ w = 2 * 2 ^ (w - 1) := by
    rw [mul_comm,← pow_succ,Nat.sub_add_cancel positive]
  have cast : ((2 ^ w : Nat) : Int) = 2 ^ w := by norm_cast
  cases signed with
  | true =>
    simp only [least,greatest,if_pos] at from_least to_greatest
    rw [reading,if_pos rfl,BitVec.toInt_ofInt]
    exact Int.bmod_eq_of_le (by omega) (by omega)
  | false =>
    simp only [least,greatest,Bool.false_eq_true,if_false] at from_least to_greatest
    rw [reading,if_neg Bool.false_ne_true,BitVec.toNat_ofInt,cast,Int.emod_eq_of_lt from_least (by omega)]
    omega

theorem ends_zero (signed : Bool) (w : Nat) : least signed w ≤ 0 ∧ 0 ≤ greatest signed w := by
  have half : (0 : Int) < 2 ^ (w - 1) := Int.pow_pos (by decide)
  have whole : (0 : Int) < 2 ^ w := Int.pow_pos (by decide)
  cases signed with
  | true => simp only [least,greatest,if_pos]; omega
  | false => simp only [least,greatest,Bool.false_eq_true,if_false]; omega

theorem halved (x : Int) (d : Nat) : x / 2 ^ (d + 1) = x / 2 ^ d / 2 := by
  rw [pow_succ,Int.ediv_ediv_of_nonneg (Int.le_of_lt (Int.pow_pos (by decide)))]

theorem quotient_range (from_least : least signed w ≤ x) (to_greatest : x ≤ greatest signed w) (d : Nat) :
    least signed w ≤ x / 2 ^ d ∧ x / 2 ^ d ≤ greatest signed w := by
  have zero := ends_zero signed w
  induction d with
  | zero => rw [pow_zero,Int.ediv_one]; exact ⟨from_least,to_greatest⟩
  | succ d ih => rw [halved]; omega

theorem quotient_room (wide : 2 ≤ w) (from_least : least signed w ≤ x) (to_greatest : x ≤ greatest signed w) (d : Nat) :
    x / 2 ^ (d + 1) + 1 ≤ greatest signed w := by
  have inside := quotient_range from_least to_greatest d
  have zero := ends_zero signed w
  have odd := (ends_parity signed wide).2
  rw [halved]
  omega

theorem setWidth_ofInt {n : Nat} (signed : Bool) (a : BitVec w) (narrow : n ≤ w) :
    a.setWidth n = BitVec.ofInt n (reading signed a) := by
  cases signed with
  | true => exact (BitVec.signExtend_eq_setWidth_of_le a narrow).symm
  | false =>
    rw [reading,if_neg Bool.false_ne_true,BitVec.ofInt_natCast,BitVec.ofNat_toNat]

theorem intMax_ofInt (w : Nat) : BitVec.intMax w = BitVec.ofInt w (greatest true w) := by
  rw [greatest,if_pos rfl,← BitVec.toInt_intMax,BitVec.ofInt_toInt]

theorem intMin_ofInt (positive : 0 < w) : BitVec.intMin w = BitVec.ofInt w (least true w) := by
  rw [least,if_pos rfl,← BitVec.toInt_intMin_of_pos positive,BitVec.ofInt_toInt]

theorem allOnes_ofInt (w : Nat) : BitVec.allOnes w = BitVec.ofInt w (greatest false w) := by
  have same : greatest false w = reading false (BitVec.allOnes w) := by
    have positive := Nat.two_pow_pos w
    have cast : ((2 ^ w : Nat) : Int) = 2 ^ w := by norm_cast
    simp only [greatest,reading,Bool.false_eq_true,if_false,BitVec.toNat_allOnes]
    omega
  rw [same,ofInt_reading]

end Sargantana.Saturation
