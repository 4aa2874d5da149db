import Mathlib.Algebra.Group.Int.Defs
import Mathlib.Algebra.GroupWithZero.Nat

-- Multiplication and division of two's complement words, as the M extension defines them
-- and by magnitudes.
namespace Sargantana.MExtension

variable {w : Nat}

inductive Op where
  | mul | mulh | mulhsu | mulhu | div | divu | rem | remu
  deriving DecidableEq, Repr

def Op.func3 : Op → BitVec 3
  | .mul => 0
  | .mulh => 1
  | .mulhsu => 2
  | .mulhu => 3
  | .div => 4
  | .divu => 5
  | .rem => 6
  | .remu => 7

def reading (signed : Bool) (x : BitVec w) : Int := if signed then x.toInt else x.toNat

-- Truncated division. By zero it leaves all ones and the dividend; the quotient that
-- overflows wraps around.
def quotient (signed : Bool) (x y : BitVec w) : BitVec w :=
  if y = 0 then BitVec.allOnes w else BitVec.ofInt w ((reading signed x).tdiv (reading signed y))

def remainder (signed : Bool) (x y : BitVec w) : BitVec w :=
  if y = 0 then x else BitVec.ofInt w ((reading signed x).tmod (reading signed y))

def high (signedX signedY : Bool) (x y : BitVec w) : BitVec w :=
  BitVec.ofInt w (reading signedX x * reading signedY y / 2 ^ w)

def Op.value (op : Op) (x y : BitVec w) : BitVec w :=
  match op with
  | .mul => BitVec.ofInt w (x.toInt * y.toInt)
  | .mulh => high true true x y
  | .mulhsu => high true false x y
  | .mulhu => high false false x y
  | .div => quotient true x y
  | .divu => quotient false x y
  | .rem => remainder true x y
  | .remu => remainder false x y

-- The W forms work on the low words and extend the sign of the result.
def Op.word (op : Op) (x y : BitVec 64) : BitVec 64 :=
  (op.value (x.truncate 32 : BitVec 32) (y.truncate 32)).signExtend 64

def magnitude (signed : Bool) (x : BitVec w) : BitVec w := if signed && x.msb then -x else x

def Op.divides : Op → Bool
  | .div | .divu | .rem | .remu => true
  | _ => false

def Op.signed : Op → Bool
  | .div | .rem => true
  | _ => false

theorem ofInt_div (x y : Nat) : BitVec.ofInt w ((x : Int).tdiv y) = BitVec.ofNat w (x / y) := by
  rw [Int.tdiv_eq_ediv_of_nonneg (Int.natCast_nonneg x),← Int.natCast_ediv]
  exact BitVec.ofInt_natCast _ _

theorem ofInt_mod (x y : Nat) : BitVec.ofInt w ((x : Int).tmod y) = BitVec.ofNat w (x % y) := by
  rw [Int.tmod_eq_emod_of_nonneg (Int.natCast_nonneg x),← Int.natCast_emod]
  exact BitVec.ofInt_natCast _ _

theorem quotient_unsigned {x y : BitVec w} (positive : y ≠ 0) : quotient false x y = x / y := by
  rw [quotient,if_neg positive]
  exact (ofInt_div _ _).trans (BitVec.eq_of_toNat_eq (by simp [Nat.mod_eq_of_lt (Nat.lt_of_le_of_lt (Nat.div_le_self _ _) x.isLt)]))

theorem remainder_unsigned {x y : BitVec w} (positive : y ≠ 0) : remainder false x y = x % y := by
  rw [remainder,if_neg positive]
  exact (ofInt_mod _ _).trans (BitVec.eq_of_toNat_eq (by simp [Nat.mod_eq_of_lt (Nat.lt_of_le_of_lt (Nat.mod_le _ _) x.isLt)]))

theorem quotient_signed {x y : BitVec w} (nonzero : y ≠ 0) : quotient true x y = x.sdiv y := by
  rw [quotient,if_neg nonzero]
  refine BitVec.eq_of_toInt_eq ?_
  rw [BitVec.toInt_ofInt,BitVec.toInt_sdiv]
  rfl

theorem remainder_signed {x y : BitVec w} (nonzero : y ≠ 0) : remainder true x y = x.srem y := by
  have rest : (reading true x).tmod (reading true y) = (x.srem y).toInt := (BitVec.toInt_srem x y).symm
  rw [remainder,if_neg nonzero,rest,BitVec.ofInt_toInt]

-- Division through the magnitudes: the quotient is negative when the signs differ, the
-- remainder when the dividend is.
theorem quotient_magnitudes (signed : Bool) {x y : BitVec w} (nonzero : y ≠ 0) :
    quotient signed x y =
      if signed && (x.msb ^^ y.msb) then -(magnitude signed x / magnitude signed y)
      else magnitude signed x / magnitude signed y := by
  cases signed with
  | false => simpa [magnitude] using quotient_unsigned nonzero
  | true =>
    rw [quotient_signed nonzero,BitVec.sdiv_eq]
    cases negX : x.msb <;> cases negY : y.msb <;> simp [magnitude,negX,negY]

theorem remainder_magnitudes (signed : Bool) {x y : BitVec w} (nonzero : y ≠ 0) :
    remainder signed x y =
      if signed && x.msb then -(magnitude signed x % magnitude signed y)
      else magnitude signed x % magnitude signed y := by
  cases signed with
  | false => simpa [magnitude] using remainder_unsigned nonzero
  | true =>
    rw [remainder_signed nonzero,BitVec.srem_eq]
    cases negX : x.msb <;> cases negY : y.msb <;> simp [magnitude,negX,negY]

theorem magnitude_zero {signed : Bool} {y : BitVec w} : magnitude signed y = 0 ↔ y = 0 := by
  unfold magnitude
  split
  · simp
  · rfl

-- Division in a wider register
section
variable {v : Nat} (fits : v ≤ w)
include fits

theorem extend_toNat (a : BitVec v) : (a.zeroExtend w).toNat = a.toNat := by
  change (a.setWidth w).toNat = a.toNat
  rw [BitVec.toNat_setWidth]
  exact Nat.mod_eq_of_lt (Nat.lt_of_lt_of_le a.isLt (Nat.pow_le_pow_right (by decide) fits))

theorem extend_div (a b : BitVec v) : ((a.zeroExtend w) / (b.zeroExtend w)).truncate v = a / b := by
  refine BitVec.eq_of_toNat_eq ?_
  rw [BitVec.truncate_eq_setWidth,BitVec.toNat_setWidth,BitVec.toNat_udiv,extend_toNat fits,extend_toNat fits,
    BitVec.toNat_udiv]
  exact Nat.mod_eq_of_lt (Nat.lt_of_le_of_lt (Nat.div_le_self _ _) a.isLt)

theorem extend_mod (a b : BitVec v) : ((a.zeroExtend w) % (b.zeroExtend w)).truncate v = a % b := by
  refine BitVec.eq_of_toNat_eq ?_
  rw [BitVec.truncate_eq_setWidth,BitVec.toNat_setWidth,BitVec.toNat_umod,extend_toNat fits,extend_toNat fits,
    BitVec.toNat_umod]
  exact Nat.mod_eq_of_lt (Nat.lt_of_le_of_lt (Nat.mod_le _ _) a.isLt)

theorem extend_zero {a : BitVec v} : a.zeroExtend w = 0 ↔ a = 0 := by
  constructor
  · intro zero
    refine BitVec.eq_of_toNat_eq ?_
    rw [← extend_toNat fits,zero]
    rfl
  · intro zero
    rw [zero]
    exact BitVec.setWidth_zero _ _

end

theorem reading_magnitude (signed : Bool) (x : BitVec w) :
    reading signed x =
      if signed && x.msb then -((magnitude signed x).toNat : Int) else ((magnitude signed x).toNat : Int) := by
  unfold reading magnitude
  cases signed with
  | false => rfl
  | true =>
    have range := x.isLt
    have value := BitVec.toInt_eq_msb_cond x
    cases negative : x.msb with
    | false => simpa [negative] using value
    | true =>
      have above := BitVec.msb_eq_true_iff_two_mul_ge.mp negative
      simp only [negative,if_true] at value
      simp only [Bool.true_and,if_true,value,BitVec.toNat_neg]
      rw [Nat.mod_eq_of_lt (by omega),Int.ofNat_sub (by omega)]
      omega

theorem product_magnitudes (signedX signedY : Bool) (x y : BitVec w) :
    reading signedX x * reading signedY y =
      if (signedX && x.msb) ^^ (signedY && y.msb) then
        -(((magnitude signedX x).toNat * (magnitude signedY y).toNat : Nat) : Int)
      else (((magnitude signedX x).toNat * (magnitude signedY y).toNat : Nat) : Int) := by
  rw [reading_magnitude,reading_magnitude,Int.natCast_mul]
  cases (signedX && x.msb) <;> cases (signedY && y.msb) <;>
    simp only [Bool.xor_false,Bool.false_xor,Bool.xor_self,Bool.false_eq_true,if_true,if_false,Int.neg_mul,Int.mul_neg,Int.neg_neg]

theorem slice_ofInt {n s : Nat} (fits : s + w ≤ n) (p : Int) : (BitVec.ofInt n p).extractLsb' s w = BitVec.ofInt w (p / 2 ^ s) := by
  have positive : (0 : Int) < 2 ^ s := Int.pow_pos (by decide)
  obtain ⟨t,size⟩ : ∃ t, n = s + (w + t) := ⟨n - (s + w),by omega⟩
  subst size
  have split : ((2 ^ (s + (w + t)) : Nat) : Int) = 2 ^ s * (2 ^ w * 2 ^ t) := by
    rw [Nat.pow_add,Nat.pow_add,Int.natCast_mul,Int.natCast_mul,Int.natCast_pow,Int.natCast_pow,Int.natCast_pow]
    rfl
  have nonzero : ((2 ^ (s + (w + t)) : Nat) : Int) ≠ 0 := Int.natCast_ne_zero.mpr (Nat.ne_of_gt (Nat.two_pow_pos _))
  obtain ⟨rest,low⟩ := Int.eq_ofNat_of_zero_le (Int.emod_nonneg p nonzero)
  have whole : p = rest + 2 ^ s * (2 ^ w * (2 ^ t * (p / (2 ^ (s + (w + t)) : Nat)))) := by
    rw [← low,← Int.mul_assoc (2 ^ w),← Int.mul_assoc (2 ^ s),← split]
    exact (Int.emod_add_mul_ediv _ _).symm
  have upper : p / 2 ^ s % 2 ^ w = (rest / 2 ^ s % 2 ^ w : Nat) := by
    rw [whole,Int.add_mul_ediv_left _ _ (Int.ne_of_gt positive),Int.add_mul_emod_self_left]
    rfl
  refine BitVec.eq_of_toNat_eq ?_
  rw [BitVec.extractLsb'_toNat,BitVec.toNat_ofInt,BitVec.toNat_ofInt,low,Nat.shiftRight_eq_div_pow]
  have cast : ((2 ^ w : Nat) : Int) = 2 ^ w := by rw [Int.natCast_pow]; rfl
  rw [cast,upper]
  rfl

theorem high_half (n : Int) : (BitVec.ofInt (w + w) n).extractLsb' w w = BitVec.ofInt w (n / 2 ^ w) :=
  slice_ofInt (Nat.le_refl _) n

theorem low_half (n : Int) : (BitVec.ofInt (w + w) n).extractLsb' 0 w = BitVec.ofInt w n := by
  rw [slice_ofInt (by omega),pow_zero,Int.ediv_one]

end Sargantana.MExtension
