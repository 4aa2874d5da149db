import Sargantana.Lib.Packed
import Mathlib.Tactic.Linarith

-- A row of adders of w bits. The carry into an adder is a fresh one where an element starts,
-- and the carry out of the adder below elsewhere.
namespace Sargantana.CarryChain
open Sargantana.Packed

variable {n w : Nat}

def partialSum (x y : BitVec w) (carry : Bool) : BitVec (w + 1) :=
  x.zeroExtend (w + 1) + y.zeroExtend (w + 1) + (BitVec.ofBool carry).zeroExtend (w + 1)

def carryIn (w : Nat) (fresh : Nat → Option Bool) (x y : BitVec n) : Nat → Bool
  | 0 => (fresh 0).getD false
  | i + 1 => (fresh (i + 1)).getD (partialSum (element w i x) (element w i y) (carryIn w fresh x y i)).msb

def result (w : Nat) (fresh : Nat → Option Bool) (x y : BitVec n) (i : Nat) : BitVec (w + 1) :=
  partialSum (element w i x) (element w i y) (carryIn w fresh x y i)

def carryOut (w : Nat) (fresh : Nat → Option Bool) (x y : BitVec n) (i : Nat) : Bool := (result w fresh x y i).msb

def sum (w : Nat) (fresh : Nat → Option Bool) (k : Nat) (x y : BitVec n) : BitVec n :=
  pack n k fun i => (result w fresh x y i).truncate w

theorem partialSum_toNat (x y : BitVec w) (carry : Bool) :
    (partialSum x y carry).toNat = x.toNat + y.toNat + carry.toNat := by
  have first := x.isLt
  have second := y.isLt
  have bit : carry.toNat ≤ 1 := Bool.toNat_le carry
  have double : 2 ^ (w + 1) = 2 * 2 ^ w := Nat.pow_succ'
  have unit : 1 < 2 ^ (w + 1) := Nat.one_lt_two_pow (Nat.succ_ne_zero w)
  simp only [partialSum,BitVec.truncate_eq_setWidth,BitVec.toNat_add,BitVec.toNat_setWidth,BitVec.toNat_ofBool]
  rw [Nat.mod_eq_of_lt (by omega : x.toNat < 2 ^ (w + 1)),Nat.mod_eq_of_lt (by omega : y.toNat < 2 ^ (w + 1)),
    Nat.mod_eq_of_lt (by omega : carry.toNat < 2 ^ (w + 1)),Nat.mod_add_mod]
  exact Nat.mod_eq_of_lt (by omega)

theorem partialSum_parts (x y : BitVec w) (carry : Bool) :
    ((partialSum x y carry).truncate w : BitVec w).toNat + 2 ^ w * (partialSum x y carry).msb.toNat =
      x.toNat + y.toNat + carry.toNat := by
  have total := partialSum_toNat x y carry
  have range := (partialSum x y carry).isLt
  have double : 2 ^ (w + 1) = 2 * 2 ^ w := Nat.pow_succ'
  have positive : 0 < 2 ^ w := Nat.two_pow_pos w
  have top := BitVec.msb_eq_decide (partialSum x y carry)
  rw [Nat.add_sub_cancel] at top
  rw [BitVec.truncate_eq_setWidth,BitVec.toNat_setWidth,← total,top]
  by_cases above : 2 ^ w ≤ (partialSum x y carry).toNat
  · rw [decide_eq_true above,Nat.mod_eq_sub_mod above,Nat.mod_eq_of_lt (by omega)]
    simp only [Bool.toNat_true]
    omega
  · rw [decide_eq_false above,Nat.mod_eq_of_lt (by omega)]
    simp

-- Operands with one bit more: the sum keeps its low bits, the next one takes up the three bits of its
-- weight, and the carry is the same where the signs are extended.
theorem partialSum_extended (x y : BitVec w) (a b carry : Bool) :
    (partialSum (BitVec.cons a x) (BitVec.cons b y) carry).toNat =
      ((partialSum x y carry).truncate w : BitVec w).toNat +
        2 ^ w * ((partialSum x y carry).msb.toNat + a.toNat + b.toNat) := by
  have parts := partialSum_parts x y carry
  have first : (BitVec.cons a x).toNat = 2 ^ w * a.toNat + x.toNat := by
    rw [BitVec.toNat_cons',Nat.shiftLeft_eq,Nat.mul_comm]
  have second : (BitVec.cons b y).toNat = 2 ^ w * b.toNat + y.toNat := by
    rw [BitVec.toNat_cons',Nat.shiftLeft_eq,Nat.mul_comm]
  rw [partialSum_toNat,first,second,Nat.mul_add,Nat.mul_add]
  omega

theorem extended_low (x y : BitVec w) (a b carry : Bool) :
    ((partialSum (BitVec.cons a x) (BitVec.cons b y) carry).truncate w : BitVec w) = (partialSum x y carry).truncate w := by
  refine BitVec.eq_of_toNat_eq ?_
  rw [BitVec.truncate_eq_setWidth,BitVec.toNat_setWidth,partialSum_extended,Nat.add_mul_mod_self_left,
    Nat.mod_eq_of_lt (BitVec.isLt _)]

theorem extended_next (x y : BitVec w) (a b carry : Bool) :
    (partialSum (BitVec.cons a x) (BitVec.cons b y) carry).getLsbD w = ((partialSum x y carry).msb ^^ a ^^ b) := by
  have positive := Nat.two_pow_pos w
  change (partialSum _ _ _).toNat.testBit w = _
  rw [Nat.testBit_eq_decide_div_mod_eq,partialSum_extended,Nat.add_mul_div_left _ _ positive,
    Nat.div_eq_of_lt (BitVec.isLt _),Nat.zero_add]
  cases (partialSum x y carry).msb <;> cases a <;> cases b <;> rfl

theorem extended_carry (positive : 0 < w) (x y : BitVec w) (carry : Bool) :
    (partialSum (BitVec.cons x.msb x) (BitVec.cons y.msb y) carry).msb = (partialSum x y carry).msb := by
  have first : (BitVec.cons x.msb x).toNat = x.msb.toNat * 2 ^ w + x.toNat := by rw [BitVec.toNat_cons',Nat.shiftLeft_eq]
  have second : (BitVec.cons y.msb y).toNat = y.msb.toNat * 2 ^ w + y.toNat := by rw [BitVec.toNat_cons',Nat.shiftLeft_eq]
  have double : 2 ^ w = 2 * 2 ^ (w - 1) := by rw [← Nat.pow_succ',Nat.succ_eq_add_one,Nat.sub_add_cancel positive]
  have bound := x.isLt
  have bound' := y.isLt
  have bit := Bool.toNat_le carry
  rw [BitVec.msb_eq_decide (partialSum _ _ _),BitVec.msb_eq_decide (partialSum x y carry),partialSum_toNat,partialSum_toNat,
    first,second,Nat.add_sub_cancel,Nat.add_sub_cancel,Nat.pow_succ',decide_eq_decide]
  cases a : x.msb with
  | false =>
    rw [BitVec.msb_eq_false_iff_two_mul_lt] at a
    cases b : y.msb with
    | false => rw [BitVec.msb_eq_false_iff_two_mul_lt] at b; simp only [Bool.toNat_false]; omega
    | true => simp only [Bool.toNat_false,Bool.toNat_true]; omega
  | true =>
    rw [BitVec.msb_eq_true_iff_two_mul_ge] at a
    cases b : y.msb with
    | false => simp only [Bool.toNat_false,Bool.toNat_true]; omega
    | true => rw [BitVec.msb_eq_true_iff_two_mul_ge] at b; simp only [Bool.toNat_true]; omega

section
variable {fresh : Nat → Option Bool} {x y : BitVec n} {p m : Nat} {carry : Bool}

theorem carryIn_start (starts : fresh p = some carry) : carryIn w fresh x y p = carry := by
  cases p with
  | zero => rw [carryIn,starts]; rfl
  | succ p => rw [carryIn,starts]; rfl

theorem carryIn_inside {i : Nat} (inside : fresh (i + 1) = none) :
    carryIn w fresh x y (i + 1) = carryOut w fresh x y i := by
  rw [carryIn,inside]
  rfl

theorem element_result {k i : Nat} (inside : i < k) (fits : k * w ≤ n) :
    element w i (sum w fresh k x y) = (result w fresh x y i).truncate w := element_pack _ inside fits

-- After j adders of an element: what they hold and the carry out are the sum of as many limbs.
theorem run {k : Nat} (starts : fresh p = some carry) (inside : ∀ i, i + 1 < m → fresh (p + i + 1) = none)
    (within : p + m ≤ k) (fits : k * w ≤ n) (j : Nat) (before : j < m) :
    ((sum w fresh k x y).extractLsb' (p * w) ((j + 1) * w)).toNat +
        2 ^ ((j + 1) * w) * (carryOut w fresh x y (p + j)).toNat =
      (x.extractLsb' (p * w) ((j + 1) * w)).toNat + (y.extractLsb' (p * w) ((j + 1) * w)).toNat + carry.toNat := by
  induction j with
  | zero =>
    have parts := partialSum_parts (element w p x) (element w p y) (carryIn w fresh x y p)
    rw [slice_one,slice_one,slice_one,element_result (by omega) fits,Nat.one_mul]
    change _ + 2 ^ w * (result w fresh x y p).msb.toNat = _
    rw [carryIn_start starts] at parts
    rw [result,carryIn_start starts]
    exact parts
  | succ j ih =>
    have lower := ih (by omega)
    have parts := partialSum_parts (element w (p + j + 1) x) (element w (p + j + 1) y) (carryIn w fresh x y (p + j + 1))
    rw [carryIn_inside (inside j before)] at parts
    rw [slice_succ,slice_succ _ _ x,slice_succ _ _ y,element_result (by omega) fits]
    have top : result w fresh x y (p + (j + 1)) =
        partialSum (element w (p + j + 1) x) (element w (p + j + 1) y) (carryOut w fresh x y (p + j)) := by
      rw [result,← Nat.add_assoc,carryIn_inside (inside j before)]
    rw [carryOut,top,← Nat.add_assoc p j 1]
    have width : 2 ^ ((j + 1 + 1) * w) = 2 ^ ((j + 1) * w) * 2 ^ w := by
      rw [← Nat.pow_add,Nat.succ_mul (j + 1)]
    have scaled := congrArg (2 ^ ((j + 1) * w) * ·) parts
    simp only [Nat.mul_add] at scaled
    rw [width,Nat.mul_assoc]
    linarith only [lower,scaled]

theorem element_total {k e : Nat} (some' : 0 < m) (starts : fresh (e * m) = some carry)
    (inside : ∀ i, i + 1 < m → fresh (e * m + i + 1) = none) (within : e * m + m ≤ k) (fits : k * w ≤ n) :
    (element (w * m) e (sum w fresh k x y)).toNat + 2 ^ (w * m) * (carryOut w fresh x y (e * m + (m - 1))).toNat =
      (element (w * m) e x).toNat + (element (w * m) e y).toNat + carry.toNat := by
  rw [Nat.mul_comm w m]
  have place : e * (m * w) = e * m * w := (Nat.mul_assoc e m w).symm
  have last : m - 1 + 1 = m := by omega
  have whole := run starts inside within fits (m - 1) (by omega) (x := x) (y := y)
  rw [last,← place] at whole
  exact whole

theorem element_sum {k e : Nat} (some' : 0 < m) (starts : fresh (e * m) = some carry)
    (inside : ∀ i, i + 1 < m → fresh (e * m + i + 1) = none) (within : e * m + m ≤ k) (fits : k * w ≤ n) :
    element (w * m) e (sum w fresh k x y) =
      element (w * m) e x + element (w * m) e y + (BitVec.ofBool carry).zeroExtend (w * m) := by
  have whole := element_total some' starts inside within fits (x := x) (y := y)
  refine BitVec.eq_of_toNat_eq ?_
  rw [BitVec.toNat_add,BitVec.toNat_add,BitVec.zeroExtend_eq_setWidth,BitVec.toNat_setWidth,BitVec.toNat_ofBool,
    Nat.mod_add_mod,Nat.add_mod_mod]
  refine Eq.trans ?_ (congrArg (· % 2 ^ (w * m)) whole)
  rw [Nat.add_mul_mod_self_left]
  exact (Nat.mod_eq_of_lt (BitVec.isLt _)).symm

end

def everyRow (m : Nat) (carry : Nat → Bool) (i : Nat) : Option Bool :=
  if i % m = 0 then some (carry (i / m)) else none

theorem everyRow_start {m : Nat} (positive : 0 < m) (carry : Nat → Bool) (e : Nat) : everyRow m carry (e * m) = some (carry e) := by
  rw [everyRow,Nat.mul_mod_left,if_pos rfl,Nat.mul_div_cancel _ positive]

theorem everyRow_inside {m : Nat} (carry : Nat → Bool) (e i : Nat) (inside : i + 1 < m) : everyRow m carry (e * m + i + 1) = none := by
  have rest : (e * m + (i + 1)) % m = i + 1 := by
    rw [Nat.add_comm,Nat.add_mul_mod_self_right]
    exact Nat.mod_eq_of_lt inside
  rw [everyRow,Nat.add_assoc,rest,if_neg (Nat.succ_ne_zero _)]

end Sargantana.CarryChain
