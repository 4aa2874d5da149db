import Sargantana.Lib.Saturation
import Sargantana.Vaddsub
import Sargantana.Vshift

-- vsmul: the products of vmul, cut to their upper half without one of the two sign bits, rounded
-- and clipped.
namespace Sargantana.Vsmul
open DracPkg Sargantana.Packed CarryChain FixedPoint Saturation
open Vdiv (bits count)
open Vaddsub (bytes topByte row_bytes)
open Vshift (flag)

structure Input where
  sew : Fin 4
  vxrm : Vxrm
  data : BitVec 128

-- The bits from SEW - 1 on of the product k
def shifted (i : Input) (k : Nat) : BitVec (bits i.sew) :=
  i.data.extractLsb' (k * (bits i.sew + bits i.sew) + (bits i.sew - 1)) (bits i.sew)

def dataShifted (i : Input) : BitVec 64 := pack 64 (count i.sew) (shifted i)

-- How many of the lowest bits the rounding modes test
def rneBits : Fin 4 → Nat
  | 0 => 5
  | 1 => 13
  | 2 => 29
  | 3 => 62

def rodBits : Fin 4 → Nat
  | 0 => 6
  | 1 => 14
  | 2 => 30
  | 3 => 63

def toAdd (i : Input) (k : Nat) : Bool :=
  let low := k * (bits i.sew + bits i.sew)
  match i.vxrm with
  | .rnu => i.data.getLsbD (low + (bits i.sew - 2))
  | .rne => i.data.getLsbD (low + (bits i.sew - 2)) &&
      (i.data.extractLsb' low (rneBits i.sew) != 0 || i.data.getLsbD (low + (bits i.sew - 1)))
  | .rdn => false
  | .rod => !i.data.getLsbD (low + (bits i.sew - 1)) && i.data.extractLsb' low (rodBits i.sew) != 0

-- to_add, at the lowest byte of each element
def addend (i : Input) : BitVec 64 :=
  pack 64 8 fun b => flag 8 (if b % bytes i.sew = 0 then toAdd i (b / bytes i.sew) else false)

def fresh (i : Input) : Nat → Option Bool := everyRow (bytes i.sew) fun _ => false

def results (i : Input) : BitVec 64 := sum 8 (fresh i) 8 (dataShifted i) (addend i)

def overflow (i : Input) (b : Nat) : Bool :=
  (element 8 b (dataShifted i)).msb != (element 8 b (results i)).msb && (element 8 b (results i)).msb

def dataVdO (i : Input) : BitVec 64 :=
  pack 64 (count i.sew) fun k =>
    if overflow i (topByte i.sew k) then BitVec.intMax (bits i.sew) else element (bits i.sew) k (results i)

def satOvfO (i : Input) : Bool := (List.range (count i.sew)).any fun k => overflow i (topByte i.sew k)

-- What RVV asks for, where v is the product in twice the width: the quotient by 2 to the SEW - 1 with
-- the increment of the rounding mode, in the range of the element
def roundoff (vxrm : Vxrm) {w : Nat} (x y : BitVec w) : Int :=
  x.toInt * y.toInt / 2 ^ (w - 1) + (increment vxrm (BitVec.ofInt (w + w) (x.toInt * y.toInt)).toNat (w - 1)).toNat

def fractional (vxrm : Vxrm) {w : Nat} (x y : BitVec w) : BitVec w := BitVec.ofInt w (clip true w (roundoff vxrm x y))

def fractionalSat (vxrm : Vxrm) {w : Nat} (x y : BitVec w) : Prop := saturates true w (roundoff vxrm x y)

-- The condition on the factors: not both are the least value, and no increment is missed.
def Rounds (sew : Fin 4) (vxrm : Vxrm) {w : Nat} (x y : BitVec w) : Prop :=
  ¬ (x = BitVec.intMin w ∧ y = BitVec.intMin w) ∧
    (sew ≠ 3 → missed vxrm (BitVec.ofInt (w + w) (x.toInt * y.toInt)).toNat (w - 1) = false)

instance (sew : Fin 4) (vxrm : Vxrm) {w : Nat} (x y : BitVec w) : Decidable (Rounds sew vxrm x y) :=
  inferInstanceAs (Decidable (_ ∧ _))

def product (i : Input) (k : Nat) : BitVec (bits i.sew + bits i.sew) := element (bits i.sew + bits i.sew) k i.data

section
variable {i : Input} {k : Nat}

theorem product_bit {j : Nat} (inside : j < bits i.sew + bits i.sew) :
    i.data.getLsbD (k * (bits i.sew + bits i.sew) + j) = (product i k).getLsbD j := by
  rw [product,element_bit]
  simp [inside]

theorem low_sticky {m : Nat} (inside : m ≤ bits i.sew + bits i.sew) :
    (i.data.extractLsb' (k * (bits i.sew + bits i.sew)) m != 0) = sticky (product i k).toNat m := by
  have low : i.data.extractLsb' (k * (bits i.sew + bits i.sew)) m = (product i k).setWidth m := by
    refine BitVec.eq_of_getLsbD_eq fun j below => ?_
    rw [BitVec.getLsbD_extractLsb',BitVec.getLsbD_setWidth,product_bit (by omega)]
  rw [low,sticky_rest,Bool.eq_iff_iff,bne_iff_ne,decide_eq_true_iff,ne_eq,ne_eq,not_iff_not,← BitVec.toNat_inj,
    BitVec.toNat_setWidth]
  rfl

-- In SEW_64 all bits are tested, in the others the highest one is left out.
theorem toAdd_exact (i : Input) (k : Nat) : toAdd i k =
    (increment i.vxrm (product i k).toNat (bits i.sew - 1) &&
      !(decide (i.sew ≠ 3) && missed i.vxrm (product i k).toNat (bits i.sew - 1))) := by
  have rows : ∀ sew : Fin 4, 8 ≤ bits sew ∧ rneBits sew ≤ bits sew ∧ rodBits sew ≤ bits sew ∧
    (sew = 3 → rneBits sew = bits sew - 2 ∧ rodBits sew = bits sew - 1) ∧
    (sew ≠ 3 → rneBits sew = bits sew - 3 ∧ rodBits sew = bits sew - 2) := by decide
  obtain ⟨wide,rne,rod,long,short⟩ := rows i.sew
  have bit : ∀ j, (product i k).toNat.testBit j = (product i k).getLsbD j := fun j => rfl
  obtain ⟨d,place⟩ : ∃ d, bits i.sew - 1 = d + 2 := ⟨bits i.sew - 3,by omega⟩
  have below : bits i.sew - 2 = d + 1 := by omega
  cases mode : i.vxrm with
  | rnu =>
    simp only [toAdd,mode]
    rw [product_bit (by omega),below,place,rnu_bits]
    simp [missed,bit]
  | rdn =>
    simp only [toAdd,mode]
    rfl
  | rne =>
    simp only [toAdd,mode]
    rw [product_bit (by omega),product_bit (by omega),low_sticky (by omega),below,place]
    by_cases three : i.sew = 3
    · rw [(long three).1,below,rne_bits]
      simp [three,bit]
    · have exact' := rne_short (product i k).toNat d
      have tested : rneBits i.sew = d := by rw [(short three).1]; omega
      rw [tested]
      simpa [three,bit] using exact'
  | rod =>
    simp only [toAdd,mode]
    rw [product_bit (by omega),low_sticky (by omega),place]
    by_cases three : i.sew = 3
    · rw [(long three).2,place,rod_bits]
      simp [three,bit,Bool.and_comm]
    · have exact' := rod_short (product i k).toNat (d + 1)
      rw [(short three).2,below]
      simpa [three,bit] using exact'

theorem element_dataShifted (inside : k < count i.sew) : element (bits i.sew) k (dataShifted i) = shifted i k :=
  element_pack _ inside (Nat.le_of_eq (VdivLane.bits_count i.sew))

theorem flag_extend {w : Nat} (wide : 8 ≤ w) (b : Bool) : (flag 8 b).setWidth w = flag w b := by
  refine BitVec.eq_of_getLsbD_eq fun j below => ?_
  rw [flag,flag,BitVec.getLsbD_setWidth,BitVec.getLsbD_setWidth,BitVec.getLsbD_setWidth,BitVec.getLsbD_ofBool]
  by_cases low : j = 0
  · simp [low,show 0 < w by omega]
  · simp [low]

theorem element_addend (inside : k < count i.sew) : element (bits i.sew) k (addend i) = flag (bits i.sew) (toAdd i k) := by
  have positive : 0 < bytes i.sew := Nat.two_pow_pos _
  have eight : 8 ≤ bits i.sew := VdivLane.bits_pos i.sew
  refine (element_group (row_bytes inside) (by decide) fun j some' within => ?_).trans ?_
  · have rest : (k * bytes i.sew + j) % bytes i.sew = j := by
      rw [Nat.add_comm,Nat.add_mul_mod_self_right,Nat.mod_eq_of_lt within]
    rw [rest,if_neg (Nat.ne_of_gt some')]
    rfl
  · rw [Nat.mul_mod_left,if_pos rfl,Nat.mul_div_cancel _ positive]
    exact flag_extend eight _

theorem element_results (inside : k < count i.sew) :
    element (bits i.sew) k (results i) = shifted i k + flag (bits i.sew) (toAdd i k) := by
  have positive : 0 < bytes i.sew := Nat.two_pow_pos _
  have sum' : element (bits i.sew) k (results i) = element (bits i.sew) k (dataShifted i) + element (bits i.sew) k (addend i) +
      (BitVec.ofBool false).zeroExtend (bits i.sew) :=
    element_sum positive (everyRow_start positive _ k) (everyRow_inside _ k) (row_bytes inside) (by decide)
  rw [sum',element_dataShifted inside,element_addend inside]
  simp

theorem overflow_top (inside : k < count i.sew) : overflow i (topByte i.sew k) =
    ((shifted i k).msb != (shifted i k + flag (bits i.sew) (toAdd i k)).msb &&
      (shifted i k + flag (bits i.sew) (toAdd i k)).msb) := by
  have positive : 0 < bytes i.sew := Nat.two_pow_pos _
  have first : (element 8 (topByte i.sew k) (dataShifted i)).msb = (element (bits i.sew) k (dataShifted i)).msb := msb_group positive _
  have second : (element 8 (topByte i.sew k) (results i)).msb = (element (bits i.sew) k (results i)).msb := msb_group positive _
  rw [overflow,first,second,element_dataShifted inside,element_results inside]

theorem element_dataVdO (inside : k < count i.sew) : element (bits i.sew) k (dataVdO i) =
    if overflow i (topByte i.sew k) then BitVec.intMax (bits i.sew) else shifted i k + flag (bits i.sew) (toAdd i k) := by
  rw [← element_results inside]
  exact element_pack _ inside (Nat.le_of_eq (VdivLane.bits_count i.sew))

end

section
variable {w : Nat} {x y : BitVec w}

theorem natAbs_bound (x : BitVec w) : x.toInt.natAbs ≤ 2 ^ (w - 1) := by
  have above := x.le_toInt
  have below := x.toInt_lt
  have cast : ((2 ^ (w - 1) : Nat) : Int) = 2 ^ (w - 1) := by norm_cast
  omega

theorem natAbs_other (positive : 0 < w) (other : x ≠ BitVec.intMin w) : x.toInt.natAbs ≤ 2 ^ (w - 1) - 1 := by
  have above := x.le_toInt
  have below := x.toInt_lt
  have cast : ((2 ^ (w - 1) : Nat) : Int) = 2 ^ (w - 1) := by norm_cast
  have apart : x.toInt ≠ -2 ^ (w - 1) := by
    rw [← BitVec.toInt_intMin_of_pos positive]
    exact fun same => other (BitVec.eq_of_toInt_eq same)
  omega

theorem product_range (positive : 0 < w) (apart : ¬ (x = BitVec.intMin w ∧ y = BitVec.intMin w)) :
    x.toInt * y.toInt ≤ (2 ^ (w - 1) - 1) * 2 ^ (w - 1) ∧ -((2 ^ (w - 1) - 1) * 2 ^ (w - 1)) ≤ x.toInt * y.toInt := by
  have cast : ((2 ^ (w - 1) : Nat) : Int) = 2 ^ (w - 1) := by norm_cast
  have one := Nat.one_le_two_pow (n := w - 1)
  have less : ((2 ^ (w - 1) - 1 : Nat) : Int) = 2 ^ (w - 1) - 1 := by omega
  by_cases first : x = BitVec.intMin w
  · have second := natAbs_other positive fun same => apart ⟨first,same⟩
    have upper := Int.mul_le_mul_of_natAbs_le second (natAbs_bound x)
    have lower := Int.mul_le_mul_of_natAbs_le ((Int.natAbs_neg y.toInt).trans_le second) (natAbs_bound x)
    rw [cast,less,mul_comm y.toInt] at upper
    rw [cast,less,Int.neg_mul,mul_comm y.toInt] at lower
    omega
  · have less' := natAbs_other positive first
    have upper := Int.mul_le_mul_of_natAbs_le less' (natAbs_bound y)
    have lower := Int.mul_le_mul_of_natAbs_le ((Int.natAbs_neg x.toInt).trans_le less') (natAbs_bound y)
    rw [cast,less] at upper
    rw [cast,less,Int.neg_mul] at lower
    omega

-- The quotient is in the range, and at its upper end nothing is left.
theorem quotient_inside (positive : 0 < w) (apart : ¬ (x = BitVec.intMin w ∧ y = BitVec.intMin w)) :
    least true w ≤ x.toInt * y.toInt / 2 ^ (w - 1) ∧ x.toInt * y.toInt / 2 ^ (w - 1) ≤ greatest true w ∧
      (x.toInt * y.toInt / 2 ^ (w - 1) = greatest true w → x.toInt * y.toInt % 2 ^ (w - 1) = 0) := by
  obtain ⟨upper,lower⟩ := product_range positive apart
  have half : (0 : Int) < 2 ^ (w - 1) := Int.pow_pos (by decide)
  have parts := Int.mul_ediv_add_emod (x.toInt * y.toInt) (2 ^ (w - 1))
  have rest := Int.emod_nonneg (x.toInt * y.toInt) (Int.ne_of_gt half)
  simp only [least,greatest,if_pos]
  refine ⟨?_,?_,?_⟩
  · refine Int.le_trans ?_ (Int.ediv_le_ediv half lower)
    rw [← Int.neg_mul,Int.mul_ediv_cancel _ (Int.ne_of_gt half)]
    omega
  · refine Int.le_trans (Int.ediv_le_ediv half upper) ?_
    rw [Int.mul_ediv_cancel _ (Int.ne_of_gt half)]
  · intro top
    rw [top,mul_comm (2 ^ (w - 1))] at parts
    omega

theorem low_rest (p : Int) {d : Nat} (inside : d ≤ w) : (((BitVec.ofInt w p).toNat % 2 ^ d : Nat) : Int) = p % 2 ^ d := by
  have divides : ((2 ^ d : Nat) : Int) ∣ ((2 ^ w : Nat) : Int) := Int.natCast_dvd_natCast.mpr (Nat.pow_dvd_pow 2 inside)
  have nonzero : ((2 ^ w : Nat) : Int) ≠ 0 := Int.natCast_ne_zero.mpr (Nat.ne_of_gt (Nat.two_pow_pos w))
  have whole : (((BitVec.ofInt w p).toNat : Nat) : Int) = p % (2 ^ w : Nat) := by
    rw [BitVec.toNat_ofInt]
    exact Int.toNat_of_nonneg (Int.emod_nonneg p nonzero)
  have cast : ((2 ^ d : Nat) : Int) = 2 ^ d := by norm_cast
  rw [Int.natCast_emod,whole,Int.emod_emod_of_dvd p divides,cast]

theorem toNat_inj {b c : Bool} (same : b.toNat = c.toNat) : b = c := by
  cases b <;> cases c <;> first | rfl | exact absurd same (by decide)

theorem increment_zero (vxrm : Vxrm) {v d : Nat} (zero : v % 2 ^ d = 0) : increment vxrm v d = false ∧ missed vxrm v d = false := by
  have positive := Nat.two_pow_pos d
  cases vxrm <;> simp [increment,missed,threeQuarters,tieToEven,zero] <;> omega

theorem roundoff_inside (vxrm : Vxrm) (positive : 0 < w) (apart : ¬ (x = BitVec.intMin w ∧ y = BitVec.intMin w)) (added : Bool)
    (some' : added = true → increment vxrm (BitVec.ofInt (w + w) (x.toInt * y.toInt)).toNat (w - 1) = true) :
    least true w ≤ x.toInt * y.toInt / 2 ^ (w - 1) + added.toNat ∧
      x.toInt * y.toInt / 2 ^ (w - 1) + added.toNat ≤ greatest true w := by
  obtain ⟨lower,upper,top⟩ := quotient_inside positive apart
  cases added with
  | false => simpa using ⟨lower,upper⟩
  | true =>
    have room : x.toInt * y.toInt / 2 ^ (w - 1) ≠ greatest true w := by
      intro last
      have rest := low_rest (w := w + w) (x.toInt * y.toInt) (show w - 1 ≤ w + w by omega)
      rw [top last] at rest
      have nothing := (increment_zero vxrm (Int.natCast_eq_zero.mp rest)).1
      rw [some' rfl] at nothing
      exact absurd nothing (by decide)
    rw [Bool.toNat_true]
    omega

-- The only product that leaves the range
theorem minima_roundoff (vxrm : Vxrm) (positive : 0 < w) :
    roundoff vxrm (BitVec.intMin w) (BitVec.intMin w) = 2 ^ (w - 1) ∧
      increment vxrm (BitVec.ofInt (w + w) ((BitVec.intMin w).toInt * (BitVec.intMin w).toInt)).toNat (w - 1) = false := by
  have half : (0 : Int) < 2 ^ (w - 1) := Int.pow_pos (by decide)
  have square : (BitVec.intMin w).toInt * (BitVec.intMin w).toInt = 2 ^ (w - 1) * 2 ^ (w - 1) := by
    rw [BitVec.toInt_intMin_of_pos positive,Int.neg_mul_neg]
  have rest := low_rest (w := w + w) ((BitVec.intMin w).toInt * (BitVec.intMin w).toInt) (show w - 1 ≤ w + w by omega)
  rw [square,Int.mul_emod_right,Int.natCast_eq_zero] at rest
  have nothing := (increment_zero vxrm rest).1
  rw [roundoff,square,nothing,Int.mul_ediv_cancel _ (Int.ne_of_gt half)]
  exact ⟨Int.add_zero _,rfl⟩

theorem fractionalSat_iff (vxrm : Vxrm) (positive : 0 < w) :
    fractionalSat vxrm x y ↔ x = BitVec.intMin w ∧ y = BitVec.intMin w := by
  rw [fractionalSat,saturates_iff]
  constructor
  · intro out
    by_contra apart
    have inside := roundoff_inside vxrm positive apart _ fun set => set
    rw [← roundoff] at inside
    omega
  · rintro ⟨rfl,rfl⟩
    rw [(minima_roundoff vxrm positive).1,greatest,if_pos rfl]
    omega

end

theorem shifted_product {i : Input} {k : Nat} {x y : BitVec (bits i.sew)}
    (same : product i k = BitVec.ofInt (bits i.sew + bits i.sew) (x.toInt * y.toInt)) :
    shifted i k = BitVec.ofInt (bits i.sew) (x.toInt * y.toInt / 2 ^ (bits i.sew - 1)) := by
  have eight := VdivLane.bits_pos i.sew
  rw [← MExtension.slice_ofInt (n := bits i.sew + bits i.sew) (by omega),← same]
  refine BitVec.eq_of_getLsbD_eq fun j below => ?_
  rw [shifted,BitVec.getLsbD_extractLsb',BitVec.getLsbD_extractLsb',Nat.add_assoc,product_bit (by omega)]

section
variable {i : Input} {k : Nat} {x y : BitVec (bits i.sew)} (inside : k < count i.sew)
  (same : product i k = BitVec.ofInt (bits i.sew + bits i.sew) (x.toInt * y.toInt))
include inside same

-- No product overflows: the least values have a product with a sign bit already.
theorem element_apart (apart : ¬ (x = BitVec.intMin (bits i.sew) ∧ y = BitVec.intMin (bits i.sew))) :
    overflow i (topByte i.sew k) = false ∧ element (bits i.sew) k (dataVdO i) =
      BitVec.ofInt (bits i.sew) (x.toInt * y.toInt / 2 ^ (bits i.sew - 1) + (toAdd i k).toNat) := by
  have eight := VdivLane.bits_pos i.sew
  have positive : 0 < bits i.sew := by omega
  have added := toAdd_exact i k
  rw [same] at added
  have within := roundoff_inside i.vxrm positive apart (toAdd i k) fun set => by
    rw [added,Bool.and_eq_true] at set
    exact set.1
  have quotient := quotient_inside positive apart
  have sum' : shifted i k + flag (bits i.sew) (toAdd i k) =
      BitVec.ofInt (bits i.sew) (x.toInt * y.toInt / 2 ^ (bits i.sew - 1) + (toAdd i k).toNat) := by
    rw [shifted_product same,Vshift.flag_ofInt,BitVec.ofInt_add]
  have none' : overflow i (topByte i.sew k) = false := by
    have first : (shifted i k).toInt = x.toInt * y.toInt / 2 ^ (bits i.sew - 1) := by
      rw [shifted_product same]
      exact (reading_ofInt positive quotient.1 quotient.2.1 : MExtension.reading true _ = _)
    have second : (shifted i k + flag (bits i.sew) (toAdd i k)).toInt =
        x.toInt * y.toInt / 2 ^ (bits i.sew - 1) + (toAdd i k).toNat := by
      rw [sum']
      exact (reading_ofInt positive within.1 within.2 : MExtension.reading true _ = _)
    rw [overflow_top inside,BitVec.msb_eq_toInt,BitVec.msb_eq_toInt,first,second]
    by_cases negative : x.toInt * y.toInt / 2 ^ (bits i.sew - 1) + (toAdd i k).toNat < 0
    · rw [decide_eq_true negative,decide_eq_true (by omega)]
      rfl
    · rw [decide_eq_false negative,Bool.and_false]
  refine ⟨none',?_⟩
  rw [element_dataVdO inside,none',if_neg Bool.false_ne_true,sum']

theorem element_minima (both : x = BitVec.intMin (bits i.sew) ∧ y = BitVec.intMin (bits i.sew)) :
    overflow i (topByte i.sew k) = false ∧ element (bits i.sew) k (dataVdO i) = BitVec.intMin (bits i.sew) := by
  have eight := VdivLane.bits_pos i.sew
  have positive : 0 < bits i.sew := by omega
  obtain ⟨rfl,rfl⟩ := both
  have quotient := (minima_roundoff i.vxrm positive).1
  have nothing := (minima_roundoff i.vxrm positive).2
  rw [roundoff,nothing] at quotient
  have plain : toAdd i k = false := by rw [toAdd_exact,same,nothing,Bool.false_and]
  have value : shifted i k = BitVec.intMin (bits i.sew) := by
    rw [shifted_product same,← Int.add_zero (_ / _)]
    refine (congrArg (BitVec.ofInt (bits i.sew)) quotient).trans (BitVec.eq_of_toNat_eq ?_)
    have cast : (2 : Int) ^ (bits i.sew - 1) = (2 ^ (bits i.sew - 1) : Nat) := by norm_cast
    rw [cast,BitVec.ofInt_natCast,BitVec.toNat_ofNat,BitVec.toNat_intMin]
  have whole : shifted i k + flag (bits i.sew) (toAdd i k) = BitVec.intMin (bits i.sew) := by
    rw [plain,value,Vshift.flag_ofInt]
    simp
  have none' : overflow i (topByte i.sew k) = false := by
    rw [overflow_top inside,whole,value,bne_self_eq_false,Bool.false_and]
  refine ⟨none',?_⟩
  rw [element_dataVdO inside,none',if_neg Bool.false_ne_true,whole]

theorem element_iff : element (bits i.sew) k (dataVdO i) = fractional i.vxrm x y ↔ Rounds i.sew i.vxrm x y := by
  have eight := VdivLane.bits_pos i.sew
  have positive : 0 < bits i.sew := by omega
  by_cases both : x = BitVec.intMin (bits i.sew) ∧ y = BitVec.intMin (bits i.sew)
  · refine ⟨fun answer => ?_,fun rounds => absurd both rounds.1⟩
    rw [(element_minima inside same both).2,fractional,both.1,both.2,(minima_roundoff i.vxrm positive).1,
      clip_above (by rw [greatest,if_pos rfl]; omega),← intMax_ofInt] at answer
    have half : (0 : Int) < 2 ^ (bits i.sew - 1) := Int.pow_pos (by decide)
    have read := congrArg BitVec.toInt answer
    rw [BitVec.toInt_intMin_of_pos positive,BitVec.toInt_intMax] at read
    omega
  · have added := toAdd_exact i k
    rw [same] at added
    have within := roundoff_inside i.vxrm positive both (toAdd i k) fun set => by
      rw [added,Bool.and_eq_true] at set
      exact set.1
    have owed := roundoff_inside i.vxrm positive both _ fun set => set
    have asked : clip true (bits i.sew) (roundoff i.vxrm x y) = roundoff i.vxrm x y := clip_within owed.1 owed.2
    rw [(element_apart inside same both).2,fractional,asked,roundoff]
    have compare : BitVec.ofInt (bits i.sew) (x.toInt * y.toInt / 2 ^ (bits i.sew - 1) + (toAdd i k).toNat) =
        BitVec.ofInt (bits i.sew) (x.toInt * y.toInt / 2 ^ (bits i.sew - 1) +
          (increment i.vxrm (BitVec.ofInt (bits i.sew + bits i.sew) (x.toInt * y.toInt)).toNat (bits i.sew - 1)).toNat) ↔
        toAdd i k = increment i.vxrm (BitVec.ofInt (bits i.sew + bits i.sew) (x.toInt * y.toInt)).toNat (bits i.sew - 1) := by
      refine ⟨fun answer => ?_,fun answer => by rw [answer]⟩
      have read := congrArg (MExtension.reading true) answer
      rw [reading_ofInt positive within.1 within.2,reading_ofInt positive owed.1 owed.2] at read
      exact toNat_inj (by omega)
    rw [compare,added,Rounds]
    cases miss : missed i.vxrm (BitVec.ofInt (bits i.sew + bits i.sew) (x.toInt * y.toInt)).toNat (bits i.sew - 1) with
    | false => simp [both]
    | true =>
      rw [(missed_even miss).1]
      simp [both]

end

theorem satOvfO_false {i : Input} {x y : Nat → BitVec (bits i.sew)}
    (same : ∀ k < count i.sew, product i k = BitVec.ofInt (bits i.sew + bits i.sew) ((x k).toInt * (y k).toInt)) :
    satOvfO i = false := by
  rw [satOvfO,List.any_eq_false]
  intro k row
  have inside := List.mem_range.mp row
  by_cases both : x k = BitVec.intMin (bits i.sew) ∧ y k = BitVec.intMin (bits i.sew)
  · simp [(element_minima inside (same k inside) both).1]
  · simp [(element_apart inside (same k inside) both).1]

-- A lane of products has the elements and the flag that RVV asks for where its factors allow it.
theorem lane_iff {i : Input} {x y : Nat → BitVec (bits i.sew)}
    (same : ∀ k < count i.sew, product i k = BitVec.ofInt (bits i.sew + bits i.sew) ((x k).toInt * (y k).toInt)) :
    ((satOvfO i = true ↔ ∃ k < count i.sew, fractionalSat i.vxrm (x k) (y k)) ∧
      ∀ k < count i.sew, element (bits i.sew) k (dataVdO i) = fractional i.vxrm (x k) (y k)) ↔
    ∀ k < count i.sew, Rounds i.sew i.vxrm (x k) (y k) := by
  have eight := VdivLane.bits_pos i.sew
  constructor
  · intro exact k inside
    exact (element_iff inside (same k inside)).mp (exact.2 k inside)
  · intro rounds
    refine ⟨?_,fun k inside => (element_iff inside (same k inside)).mpr (rounds k inside)⟩
    rw [satOvfO_false same]
    refine ⟨fun set => absurd set Bool.false_ne_true,fun ⟨k,inside,sat⟩ => ?_⟩
    exact absurd ((fractionalSat_iff i.vxrm (by omega)).mp sat) (rounds k inside).1

end Sargantana.Vsmul
