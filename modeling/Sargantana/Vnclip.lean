import Sargantana.Lib.Saturation
import Sargantana.Vshift

-- vnclip: elements of twice the width are shifted to the right, rounded and clipped.
namespace Sargantana.Vnclip
open DracPkg Sargantana.Packed FixedPoint Saturation
open Vdiv (bits count)
open MExtension (reading)
open Vshift (flag)

def vnclip : InstrType := .other 194

def vnclipu : InstrType := .other 195

def clips (t : InstrType) : Bool := t == vnclip || t == vnclipu

def isSigned (t : InstrType) : Bool := t == vnclip

structure Input where
  instrType : InstrType
  sew : Fin 4
  vxrm : Vxrm
  dataVs1 : BitVec 64
  dataVs2 : BitVec 64

-- The elements of a lane: none of 64 bits
def narrowed (sew : Fin 4) : Nat := count sew / 2

def amount (i : Input) (k : Nat) : Nat := (i.dataVs1.extractLsb' (k * bits i.sew) (4 + i.sew.val)).toNat

-- Amounts are computed in 32 bits.
def minus (x y : Nat) : Nat := (2 ^ 32 + x - y) % 2 ^ 32

-- vs2_truncated_value: what is left of the source behind a shift to the left
def truncatedValue {w : Nat} (a : BitVec w) (d back : Nat) : BitVec w := a <<< minus w (minus d back)

-- not_negative is always set: the difference that it tests has no sign.
def toAdd {w : Nat} (vxrm : Vxrm) (a : BitVec w) (d : Nat) : Bool :=
  match vxrm with
  | .rnu => if 0 < d then a.getLsbD (d - 1) else false
  | .rne => if 0 < d then a.getLsbD (d - 1) && (truncatedValue a d 2 != 0 || a.getLsbD d) else false
  | .rdn => false
  | .rod => !a.getLsbD d && truncatedValue a d 1 != 0

def resultRounded {w : Nat} (t : InstrType) (vxrm : Vxrm) (a : BitVec w) (d : Nat) : BitVec w :=
  if t = vnclip then a.sshiftRight d + flag w (toAdd vxrm a d)
  else if t = vnclipu then a >>> d + flag w (toAdd vxrm a d)
  else 0

def overflows {w : Nat} (t : InstrType) (n : Nat) (rounded : BitVec w) : Bool :=
  if t = vnclipu then decide (2 ^ n ≤ rounded.toNat)
  else if t = vnclip then decide ((2 ^ (n - 1) - 1 : Int) < rounded.toInt) || decide (rounded.toInt < -2 ^ (n - 1))
  else false

def clipped {w : Nat} (t : InstrType) (n : Nat) (rounded : BitVec w) : BitVec n :=
  if t = vnclipu then if 2 ^ n ≤ rounded.toNat then BitVec.allOnes n else rounded.setWidth n
  else if t = vnclip then
    if (2 ^ (n - 1) - 1 : Int) < rounded.toInt then BitVec.intMax n
    else if rounded.toInt < -2 ^ (n - 1) then BitVec.intMin n
    else rounded.setWidth n
  else 0

-- In SEW_32 the whole word is written.
def word {w : Nat} (t : InstrType) (rounded : BitVec w) : BitVec w :=
  if t = vnclipu then if 2 ^ 32 ≤ rounded.toNat then BitVec.allOnes w else rounded
  else if t = vnclip then
    if (2 ^ 31 - 1 : Int) < rounded.toInt then 0x7fffffff
    else if rounded.toInt < -2 ^ 31 then 0x80000000
    else rounded
  else 0

def source (i : Input) (k : Nat) : BitVec (bits i.sew + bits i.sew) := element (bits i.sew + bits i.sew) k i.dataVs2

def resultRoundedVd (i : Input) (k : Nat) : BitVec (bits i.sew + bits i.sew) :=
  resultRounded i.instrType i.vxrm (source i k) (amount i k)

def dataVdO (i : Input) : BitVec 64 :=
  if i.sew = 2 then word i.instrType (resultRounded i.instrType i.vxrm i.dataVs2 (amount i 0))
  else pack 64 (narrowed i.sew) fun k => clipped i.instrType (bits i.sew) (resultRoundedVd i k)

-- sat_ovf_o: one flag for the lane
def satOvfO (i : Input) : Bool :=
  (List.range (narrowed i.sew)).any fun k => overflows i.instrType (bits i.sew) (resultRoundedVd i k)

-- What RVV asks for: the quotient by a power of two, with the increment of the rounding mode, in the
-- range of the element
def quotient (i : Input) (k : Nat) : Int := reading (isSigned i.instrType) (source i k) / 2 ^ amount i k

def roundoff (i : Input) (k : Nat) : Int :=
  quotient i k + (increment i.vxrm (source i k).toNat (amount i k)).toNat

def rvv (i : Input) (k : Nat) : BitVec (bits i.sew) :=
  BitVec.ofInt (bits i.sew) (clip (isSigned i.instrType) (bits i.sew) (roundoff i k))

def rvvSat (i : Input) (k : Nat) : Prop := saturates (isSigned i.instrType) (bits i.sew) (roundoff i k)

-- The increment is not missed, or the value is out of the range with it and without it.
def Rounds (i : Input) (k : Nat) : Prop :=
  missed i.vxrm (source i k).toNat (amount i k) = true → saturates (isSigned i.instrType) (bits i.sew) (quotient i k)

instance (i : Input) (k : Nat) : Decidable (Rounds i k) := inferInstanceAs (Decidable (_ → _))

section
variable {w d : Nat} {a : BitVec w}

theorem minus_le {x y : Nat} (small : x < 2 ^ 32) (le : y ≤ x) : minus x y = x - y := by
  have back : 2 ^ 32 + x - y = x - y + 2 ^ 32 := by omega
  rw [minus,back,Nat.add_mod_right,Nat.mod_eq_of_lt (by omega)]

theorem minus_beyond {e : Nat} (small : w + e < 2 ^ 32) (positive : 0 < e) : minus w (2 ^ 32 - e) = w + e := by
  have back : 2 ^ 32 + w - (2 ^ 32 - e) = w + e := by omega
  rw [minus,back,Nat.mod_eq_of_lt small]

theorem shiftLeft_sticky {e : Nat} (fits : e ≤ w) : (a <<< (w - e) != 0) = sticky a.toNat e := by
  have split : 2 ^ w = 2 ^ e * 2 ^ (w - e) := by rw [← Nat.pow_add,Nat.add_sub_cancel' fits]
  rw [sticky_rest,Bool.eq_iff_iff,bne_iff_ne,decide_eq_true_iff,ne_eq,ne_eq,not_iff_not,← BitVec.toNat_inj,
    BitVec.toNat_shiftLeft,Nat.shiftLeft_eq,split,Nat.mul_mod_mul_right]
  simp

theorem truncatedValue_sticky {back : Nat} (wide : w < 2 ^ 31) (small : d < w) (near : back ≤ 2) :
    (truncatedValue a d back != 0) = sticky a.toNat (d - back) := by
  rw [truncatedValue]
  by_cases le : back ≤ d
  · rw [minus_le (by omega) le,minus_le (by omega) (by omega)]
    exact shiftLeft_sticky (by omega)
  · have wraps : minus d back = 2 ^ 32 - (back - d) := by
      rw [minus,Nat.mod_eq_of_lt (by omega)]
      omega
    have nothing : a <<< (w + (back - d)) = 0 := by
      rw [BitVec.shiftLeft_eq_zero (by omega)]
      rfl
    have none' : d - back = 0 := by omega
    rw [wraps,minus_beyond (by omega) (by omega),nothing,none']
    rfl

-- What is added is the increment of the mode, but for the missed rests.
theorem toAdd_exact (vxrm : Vxrm) (wide : w < 2 ^ 31) (small : d < w) :
    toAdd vxrm a d = (increment vxrm a.toNat d && !missed vxrm a.toNat d) := by
  have bit : ∀ j, a.toNat.testBit j = a.getLsbD j := fun j => rfl
  cases vxrm with
  | rnu =>
    cases d with
    | zero => simp [toAdd,increment,Nat.mod_one]
    | succ e =>
      rw [toAdd,if_pos (Nat.succ_pos e),rnu_bits]
      simp [missed,bit]
  | rdn => rfl
  | rne =>
    rcases d with _ | _ | e
    · simp [toAdd,increment,Nat.mod_one]
    · have seen : missed .rne a.toNat 1 = false := by
        rw [missed,threeQuarters]
        exact decide_eq_false (by omega)
      rw [toAdd,if_pos (by decide),truncatedValue_sticky wide small (by decide),rne_bits,seen]
      simp [sticky,bit]
    · rw [toAdd,if_pos (by omega),truncatedValue_sticky wide small (by decide)]
      exact rne_short a.toNat e
  | rod =>
    rw [toAdd,truncatedValue_sticky wide small (by decide)]
    cases d with
    | zero => simp [sticky,increment,Nat.mod_one]
    | succ e => exact rod_short a.toNat e

theorem toAdd_none (vxrm : Vxrm) (wide : w < 2 ^ 31) (positive : 0 < w) : toAdd vxrm a 0 = false := by
  have nothing : increment vxrm a.toNat 0 = false := by cases vxrm <;> simp [increment,Nat.mod_one]
  rw [toAdd_exact vxrm wide positive,nothing,Bool.false_and]

-- The value behind the rounding has not wrapped around.
theorem resultRounded_reading {t : InstrType} (kind : clips t = true) (vxrm : Vxrm) (wide : w < 2 ^ 31) (two : 2 ≤ w) (small : d < w) :
    reading (isSigned t) (resultRounded t vxrm a d) = reading (isSigned t) a / 2 ^ d + (toAdd vxrm a d).toNat := by
  have quotient' : resultRounded t vxrm a d = BitVec.ofInt w (reading (isSigned t) a / 2 ^ d) + flag w (toAdd vxrm a d) := by
    simp only [clips,Bool.or_eq_true,beq_iff_eq] at kind
    rcases kind with rfl | rfl
    · rw [resultRounded,if_pos rfl,BitVec.sshiftRight,Int.shiftRight_eq_div_pow]
      rfl
    · rw [resultRounded,if_neg (by decide),if_pos rfl,show isSigned vnclipu = false from rfl,← ofInt_reading false (a >>> d)]
      simp only [reading,Bool.false_eq_true,if_false,BitVec.toNat_ushiftRight,Nat.shiftRight_eq_div_pow]
      norm_cast
  have range := reading_range (isSigned t) a
  have inside := quotient_range range.1 range.2 d
  rw [quotient',Vshift.flag_ofInt,← BitVec.ofInt_add]
  refine reading_ofInt (by omega) (by omega) ?_
  cases d with
  | zero => rw [toAdd_none vxrm wide (by omega)]; simpa using inside.2
  | succ e =>
    have room := quotient_room two range.1 range.2 e
    have bit := Bool.toNat_le (toAdd vxrm a (e + 1))
    omega

theorem clipped_exact {t : InstrType} {n : Nat} (kind : clips t = true) (positive : 0 < n) (narrow : n ≤ w) :
    clipped t n a = BitVec.ofInt n (clip (isSigned t) n (reading (isSigned t) a)) := by
  simp only [clips,Bool.or_eq_true,beq_iff_eq] at kind
  rcases kind with rfl | rfl
  · rw [clipped,if_neg (by decide),if_pos rfl,show isSigned vnclip = true from rfl]
    change (if greatest true n < a.toInt then _ else if a.toInt < least true n then _ else _) =
      BitVec.ofInt n (clip true n a.toInt)
    by_cases above : greatest true n < a.toInt
    · rw [if_pos above,intMax_ofInt,clip_above above]
    by_cases below : a.toInt < least true n
    · rw [if_neg above,if_pos below,intMin_ofInt positive,clip_below below]
    · rw [if_neg above,if_neg below,setWidth_ofInt true a narrow,clip_within (Int.not_lt.mp below) (Int.not_lt.mp above)]
      rfl
  · have cast : ((2 ^ n : Nat) : Int) = 2 ^ n := by norm_cast
    have value : reading false a = a.toNat := rfl
    have top : greatest false n = 2 ^ n - 1 := rfl
    have bottom : least false n = 0 := rfl
    rw [clipped,if_pos rfl,show isSigned vnclipu = false from rfl]
    by_cases above : 2 ^ n ≤ a.toNat
    · rw [if_pos above,allOnes_ofInt,clip_above (by omega)]
    · rw [if_neg above,setWidth_ofInt false a narrow,clip_within (by omega) (by omega)]

theorem overflows_exact {t : InstrType} (n : Nat) (kind : clips t = true) :
    overflows t n a = true ↔ saturates (isSigned t) n (reading (isSigned t) a) := by
  rw [saturates_iff]
  simp only [clips,Bool.or_eq_true,beq_iff_eq] at kind
  rcases kind with rfl | rfl
  · rw [overflows,if_neg (by decide),if_pos rfl,Bool.or_eq_true,decide_eq_true_iff,decide_eq_true_iff,or_comm]
    rfl
  · have cast : ((2 ^ n : Nat) : Int) = 2 ^ n := by norm_cast
    have value : reading false a = a.toNat := rfl
    have top : greatest false n = 2 ^ n - 1 := rfl
    have bottom : least false n = 0 := rfl
    rw [overflows,if_pos rfl,decide_eq_true_iff,show isSigned vnclipu = false from rfl]
    omega

end

theorem bits_le_half (sew : Fin 4) : 2 ≤ bits sew ∧ bits sew ≤ 64 ∧ 2 ^ (4 + sew.val) = bits sew + bits sew := by
  revert sew
  decide

theorem narrowed_rows (sew : Fin 4) : narrowed sew * bits sew ≤ 64 := by
  revert sew
  decide

theorem narrowed_word {k : Nat} (inside : k < narrowed 2) : k = 0 := by
  have one : narrowed 2 = 1 := rfl
  omega

section
variable {i : Input} {k : Nat}

theorem amount_lt (i : Input) (k : Nat) : amount i k < bits i.sew + bits i.sew := by
  have bound := (i.dataVs1.extractLsb' (k * bits i.sew) (4 + i.sew.val)).isLt
  rw [(bits_le_half i.sew).2.2] at bound
  exact bound

theorem element_whole (x : BitVec 64) : element (32 + 32) 0 x = x := by
  refine BitVec.eq_of_getLsbD_eq fun j below => ?_
  rw [element_bit]
  simp [below]

theorem word_clipped (t : InstrType) (rounded : BitVec 64) : element 32 0 (word t rounded) = clipped t 32 rounded := by
  have low : element 32 0 rounded = rounded.setWidth 32 := by
    refine BitVec.eq_of_getLsbD_eq fun j below => ?_
    rw [element_bit]
    simp [below]
  rw [word,clipped]
  split
  · split
    · decide
    · exact low
  · split
    · split
      · decide
      · split
        · decide
        · exact low
    · decide

theorem element_dataVdO (inside : k < narrowed i.sew) :
    element (bits i.sew) k (dataVdO i) = clipped i.instrType (bits i.sew) (resultRoundedVd i k) := by
  rw [dataVdO]
  by_cases long : i.sew = 2
  · obtain ⟨t,sew,vxrm,dataVs1,dataVs2⟩ := i
    change sew = 2 at long
    subst long
    obtain rfl := narrowed_word inside
    rw [if_pos rfl,resultRoundedVd]
    have same : source ⟨t,2,vxrm,dataVs1,dataVs2⟩ 0 = dataVs2 := element_whole dataVs2
    rw [same]
    exact word_clipped t _
  · rw [if_neg long]
    exact element_pack _ inside (narrowed_rows i.sew)

theorem rounded_value (kind : clips i.instrType = true) : reading (isSigned i.instrType) (resultRoundedVd i k) =
    quotient i k + (toAdd i.vxrm (source i k) (amount i k)).toNat := by
  have wide := bits_le_half i.sew
  exact resultRounded_reading kind i.vxrm (by omega) (by omega) (amount_lt i k)

theorem added (i : Input) (k : Nat) : toAdd i.vxrm (source i k) (amount i k) =
    (increment i.vxrm (source i k).toNat (amount i k) && !missed i.vxrm (source i k).toNat (amount i k)) := by
  have wide := bits_le_half i.sew
  exact toAdd_exact i.vxrm (by omega) (amount_lt i k)

-- A power of two below the width does not see the sign.
theorem reading_parity {w d : Nat} {signed : Bool} {a : BitVec w} (small : d < w) :
    reading signed a / 2 ^ d % 2 = (a.toNat / 2 ^ d % 2 : Nat) := by
  cases signed with
  | false =>
    simp only [reading,Bool.false_eq_true,if_false]
    norm_cast
  | true =>
    have cast : ((2 ^ w : Nat) : Int) = 2 ^ (w - 1 - d) * 2 * 2 ^ d := by
      have split : w = w - 1 - d + 1 + d := by omega
      conv_lhs => rw [split]
      push_cast
      rw [pow_add,pow_succ]
    have positive : (0 : Int) < 2 ^ d := Int.pow_pos (by decide)
    simp only [reading,if_pos,BitVec.toInt_eq_toNat_cond]
    split
    · norm_cast
    · rw [cast,sub_eq_add_neg,← Int.neg_mul,Int.add_mul_ediv_right _ _ (by omega),← Int.neg_mul,Int.add_mul_emod_self_right]
      norm_cast

theorem missed_source (miss : missed i.vxrm (source i k).toNat (amount i k) = true) :
    toAdd i.vxrm (source i k) (amount i k) = false ∧ roundoff i k = quotient i k + 1 ∧ quotient i k % 2 = 0 := by
  obtain ⟨up,even⟩ := missed_even miss
  refine ⟨?_,?_,?_⟩
  · rw [added,miss,Bool.not_true,Bool.and_false]
  · rw [roundoff,up]
    rfl
  · rw [quotient,reading_parity (amount_lt i k),even]
    rfl

theorem seen_source (seen : missed i.vxrm (source i k).toNat (amount i k) = false) :
    quotient i k + (toAdd i.vxrm (source i k) (amount i k)).toNat = roundoff i k := by
  rw [added,seen,Bool.not_false,Bool.and_true]
  rfl

theorem element_iff (kind : clips i.instrType = true) (inside : k < narrowed i.sew) :
    element (bits i.sew) k (dataVdO i) = rvv i k ↔ Rounds i k := by
  have wide := bits_le_half i.sew
  rw [element_dataVdO inside,clipped_exact kind (by omega) (by omega),rounded_value kind,rvv]
  cases miss : missed i.vxrm (source i k).toNat (amount i k) with
  | false =>
    rw [seen_source miss]
    exact ⟨fun _ set => absurd (miss.symm.trans set) Bool.false_ne_true,fun _ => rfl⟩
  | true =>
    obtain ⟨none',up,even⟩ := missed_source miss
    have zero : quotient i k + ((false.toNat : Nat) : Int) = quotient i k := Int.add_zero _
    rw [none',up,zero]
    constructor
    · intro same _
      by_contra inside'
      have fits := inside'
      rw [saturates_iff] at fits
      have next : ¬ saturates (isSigned i.instrType) (bits i.sew) (quotient i k + 1) := (saturates_succ wide.1 even).not.mpr inside'
      have room := next
      rw [saturates_iff] at room
      rw [not_not.mp inside',not_not.mp next] at same
      have read := congrArg (reading (isSigned i.instrType)) same
      rw [reading_ofInt (by omega) (by omega) (by omega),reading_ofInt (by omega) (by omega) (by omega)] at read
      omega
    · intro rounds
      rw [clip_succ_saturated wide.1 even (rounds miss)]

-- The flag does not depend on the increments that are missed.
theorem overflows_iff (kind : clips i.instrType = true) :
    overflows i.instrType (bits i.sew) (resultRoundedVd i k) = true ↔ rvvSat i k := by
  have wide := bits_le_half i.sew
  rw [overflows_exact _ kind,rounded_value kind,rvvSat]
  cases miss : missed i.vxrm (source i k).toNat (amount i k) with
  | false => rw [seen_source miss]
  | true =>
    obtain ⟨none',up,even⟩ := missed_source miss
    have zero : quotient i k + ((false.toNat : Nat) : Int) = quotient i k := Int.add_zero _
    rw [none',up,zero]
    exact (saturates_succ wide.1 even).symm

theorem satOvfO_iff (kind : clips i.instrType = true) : satOvfO i = true ↔ ∃ k < narrowed i.sew, rvvSat i k := by
  simp only [satOvfO,List.any_eq_true,List.mem_range,overflows_iff kind]

end

-- A lane is clipped as RVV asks for, with its flag, where no increment inside the range is missed.
theorem clip_exact (i : Input) (kind : clips i.instrType = true) :
    ((satOvfO i = true ↔ ∃ k < narrowed i.sew, rvvSat i k) ∧ ∀ k < narrowed i.sew, element (bits i.sew) k (dataVdO i) = rvv i k) ↔
      ∀ k < narrowed i.sew, Rounds i k := by
  constructor
  · intro exact k inside
    exact (element_iff kind inside).mp (exact.2 k inside)
  · intro rounds
    exact ⟨satOvfO_iff kind,fun k inside => (element_iff kind inside).mpr (rounds k inside)⟩

-- A tie, a value below the range, the lowest of it and one above it
theorem clip_exact_bytes : element (bits 0) 1 (dataVdO ⟨vnclip,0,.rne,0x00010204,0x7f7fff0080000018⟩) =
    rvv ⟨vnclip,0,.rne,0x00010204,0x7f7fff0080000018⟩ 1 :=
  ((clip_exact ⟨vnclip,0,.rne,0x00010204,0x7f7fff0080000018⟩ rfl).mpr (by decide)).2 1 (by decide)

-- VNCLIPU of a byte, 3 by 2: three quarters are rounded to 1, the code leaves 0.
theorem clip_exact_fails : ¬ ∀ i : Input, clips i.instrType = true →
    (satOvfO i = true ↔ ∃ k < narrowed i.sew, rvvSat i k) ∧ ∀ k < narrowed i.sew, element (bits i.sew) k (dataVdO i) = rvv i k := by
  intro every
  have wrong := (every ⟨vnclipu,0,.rne,2,3⟩ rfl).2 0 (by decide)
  revert wrong
  decide

end Sargantana.Vnclip
