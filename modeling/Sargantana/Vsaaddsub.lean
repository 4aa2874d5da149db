import Sargantana.Lib.Saturation
import Sargantana.Vaddsub
import Sargantana.Vshift

-- vsaaddsub, the saturating and averaging adder of a lane: byte adders of nine bits, whose ninth bit
-- is the sign of the sum.
namespace Sargantana.Vsaaddsub
open DracPkg Sargantana.Packed CarryChain FixedPoint Saturation
open Vdiv (bits count)
open Vaddsub (bytes topByte row_bytes)
open Vshift (flag)
open MExtension (reading)

def vsadd : InstrType := .other 146
def vsaddu : InstrType := .other 147
def vssub : InstrType := .other 148
def vssubu : InstrType := .other 149
def vaadd : InstrType := .other 188
def vaaddu : InstrType := .other 189
def vasub : InstrType := .other 190
def vasubu : InstrType := .other 191

structure Input where
  instrType : InstrType
  sew : Fin 4
  vxrm : Vxrm
  dataVs1 : BitVec 64
  dataVs2 : BitVec 64

def isAveragingUnsigned (t : InstrType) : Bool := t == vaaddu || t == vasubu

def isAveraging (t : InstrType) : Bool := t == vaadd || t == vaaddu || t == vasub || t == vasubu

def isSaturating (t : InstrType) : Bool := t == vsadd || t == vsaddu || t == vssub || t == vssubu

def isSub (t : InstrType) : Bool := t == vssubu || t == vssub || t == vasub || t == vasubu

-- data_vs1
def operand1 (i : Input) : BitVec 64 := if isSub i.instrType then ~~~i.dataVs1 else i.dataVs1

-- The sign is extended, but for the highest byte of an element of the unsigned averages.
def zeroExtends (i : Input) (b : Nat) : Bool := isAveragingUnsigned i.instrType && b % bytes i.sew == bytes i.sew - 1

def dataA (i : Input) (b : Nat) : BitVec 9 :=
  let x := element 8 b (operand1 i)
  BitVec.cons (if zeroExtends i b then isSub i.instrType else x.msb) x

def dataB (i : Input) (b : Nat) : BitVec 9 :=
  let y := element 8 b i.dataVs2
  BitVec.cons (if zeroExtends i b then false else y.msb) y

def carryIn (i : Input) : Nat → Bool
  | 0 => isSub i.instrType
  | b + 1 =>
    if (b + 1) % bytes i.sew = 0 then isSub i.instrType else (partialSum (dataA i b) (dataB i b) (carryIn i b)).msb

def total (i : Input) (b : Nat) : BitVec 10 := partialSum (dataA i b) (dataB i b) (carryIn i b)

def carryOut (i : Input) (b : Nat) : Bool := (total i b).msb

def results (i : Input) (b : Nat) : BitVec 9 := (total i b).truncate 9

def overflow (i : Input) (b : Nat) : Bool :=
  if i.instrType = vsaddu then carryOut i b
  else if i.instrType = vsadd then
    ((dataA i b).getLsbD 7 ^^ (results i b).getLsbD 7) && ((dataB i b).getLsbD 7 ^^ (results i b).getLsbD 7)
  else if i.instrType = vssubu then !carryOut i b
  else if i.instrType = vssub then
    ((element 8 b i.dataVs1).getLsbD 7 ^^ (dataB i b).getLsbD 7) && ((dataB i b).getLsbD 7 ^^ (results i b).getLsbD 7)
  else false

-- The two lowest bits of the sum
def toAdd (i : Input) (e : Nat) : Bool :=
  let low := results i (e * bytes i.sew)
  match i.vxrm with
  | .rnu => low.getLsbD 0
  | .rne => low.getLsbD 0 && low.getLsbD 1
  | .rdn => false
  | .rod => !low.getLsbD 1 && low.getLsbD 0

def resultBytes (i : Input) : BitVec 64 := pack 64 8 fun b => (results i b).truncate 8

def sumElement (i : Input) (e : Nat) : BitVec (bits i.sew) := element (bits i.sew) e (resultBytes i)

-- The same with the ninth bit of the highest byte
def wideElement (i : Input) (e : Nat) : BitVec (bits i.sew + 1) :=
  BitVec.cons ((results i (topByte i.sew e)).getLsbD 8) (sumElement i e)

def elementVd (i : Input) (e : Nat) : BitVec (bits i.sew) :=
  if i.instrType = vsaddu then
    if overflow i (topByte i.sew e) then BitVec.allOnes (bits i.sew) else sumElement i e
  else if i.instrType = vsadd ∨ i.instrType = vssub then
    if overflow i (topByte i.sew e) then
      BitVec.intMax (bits i.sew) +
        flag (bits i.sew) (if i.sew = 0 then (results i (topByte i.sew e)).getLsbD 8 else carryOut i (topByte i.sew e))
    else sumElement i e
  else if i.instrType = vssubu then if overflow i (topByte i.sew e) then 0 else sumElement i e
  else if isAveraging i.instrType then (wideElement i e).extractLsb' 1 (bits i.sew) + flag (bits i.sew) (toAdd i e)
  else 0

def dataVdO (i : Input) : BitVec 64 := pack 64 (count i.sew) (elementVd i)

def satOvfO (i : Input) : Bool := (List.range (count i.sew)).any fun e => overflow i (topByte i.sew e)

-- What RVV asks for: the exact sum or difference, in the range of the element or halved with the
-- increment of the rounding mode
def isSigned (t : InstrType) : Bool := t == vsadd || t == vssub || t == vaadd || t == vasub

def exactSum (i : Input) (e : Nat) : Int :=
  let vs1 := reading (isSigned i.instrType) (element (bits i.sew) e i.dataVs1)
  let vs2 := reading (isSigned i.instrType) (element (bits i.sew) e i.dataVs2)
  if isSub i.instrType then vs2 - vs1 else vs2 + vs1

def average (vxrm : Vxrm) (w : Nat) (sum : Int) : Int := sum / 2 + (increment vxrm (BitVec.ofInt (w + 1) sum).toNat 1).toNat

def rvv (i : Input) (e : Nat) : BitVec (bits i.sew) :=
  if isAveraging i.instrType then BitVec.ofInt (bits i.sew) (average i.vxrm (bits i.sew) (exactSum i e))
  else BitVec.ofInt (bits i.sew) (clip (isSigned i.instrType) (bits i.sew) (exactSum i e))

def rvvSat (i : Input) (e : Nat) : Prop :=
  isSaturating i.instrType = true ∧ saturates (isSigned i.instrType) (bits i.sew) (exactSum i e)

section
variable {i : Input}

-- Inside of an element the carries are those of adders of eight bits.
theorem carry_next {b : Nat} (below : (b + 1) % bytes i.sew ≠ 0) (carry : Bool) :
    (partialSum (dataA i b) (dataB i b) carry).msb =
      (partialSum (element 8 b (operand1 i)) (element 8 b i.dataVs2) carry).msb := by
  have positive : 0 < bytes i.sew := Nat.two_pow_pos _
  have inside : zeroExtends i b = false := by
    have other : b % bytes i.sew ≠ bytes i.sew - 1 := by
      intro last
      have row : b + 1 = bytes i.sew * (b / bytes i.sew + 1) := by
        have parts := Nat.div_add_mod b (bytes i.sew)
        rw [Nat.mul_add]
        omega
      rw [row,Nat.mul_mod_right] at below
      exact below rfl
    simp [zeroExtends,other]
  simp only [dataA,dataB,inside]
  exact extended_carry (by decide) _ _ _

theorem carryIn_chain (i : Input) (b : Nat) :
    carryIn i b = CarryChain.carryIn 8 (everyRow (bytes i.sew) fun _ => isSub i.instrType) (operand1 i) i.dataVs2 b := by
  induction b with
  | zero => simp [carryIn,CarryChain.carryIn,everyRow]
  | succ b ih =>
    rw [carryIn,CarryChain.carryIn,everyRow]
    by_cases first : (b + 1) % bytes i.sew = 0
    · rw [if_pos first,if_pos first]
      rfl
    · rw [if_neg first,if_neg first,carry_next first,ih]
      rfl

theorem resultBytes_chain (i : Input) :
    resultBytes i = sum 8 (everyRow (bytes i.sew) fun _ => isSub i.instrType) 8 (operand1 i) i.dataVs2 := by
  have same : (fun b => ((results i b).truncate 8 : BitVec 8)) = fun b =>
      (CarryChain.result 8 (everyRow (bytes i.sew) fun _ => isSub i.instrType) (operand1 i) i.dataVs2 b).truncate 8 := by
    funext b
    have low := extended_low (element 8 b (operand1 i)) (element 8 b i.dataVs2)
      (if zeroExtends i b then isSub i.instrType else (element 8 b (operand1 i)).msb)
      (if zeroExtends i b then false else (element 8 b i.dataVs2).msb) (carryIn i b)
    rw [CarryChain.result,← carryIn_chain,← low]
    exact BitVec.setWidth_setWidth_of_le _ (by decide)
  rw [resultBytes,same]
  rfl

-- What is carried out of the eight lower bits of the highest byte
def carried (i : Input) (e : Nat) : Bool :=
  CarryChain.carryOut 8 (everyRow (bytes i.sew) fun _ => isSub i.instrType) (operand1 i) i.dataVs2 (topByte i.sew e)

theorem sumElement_total {e : Nat} (inside : e < count i.sew) :
    (sumElement i e).toNat + 2 ^ bits i.sew * (carried i e).toNat =
      (element (bits i.sew) e (operand1 i)).toNat + (element (bits i.sew) e i.dataVs2).toNat + (isSub i.instrType).toNat := by
  have positive : 0 < bytes i.sew := Nat.two_pow_pos _
  rw [sumElement,resultBytes_chain]
  exact element_total positive (everyRow_start positive _ e) (everyRow_inside _ e) (row_bytes inside) (by decide)

theorem topByte_mod (sew : Fin 4) (e : Nat) : topByte sew e % bytes sew = bytes sew - 1 := by
  have positive : 0 < bytes sew := Nat.two_pow_pos _
  rw [topByte,Nat.add_comm,Nat.add_mul_mod_self_right,Nat.mod_eq_of_lt (by omega)]

theorem top_sign (i : Input) (e : Nat) (x : BitVec 64) :
    (element 8 (topByte i.sew e) x).msb = (element (bits i.sew) e x).msb := msb_group (Nat.two_pow_pos _) x

-- The ninth bits of the operands of the highest byte
def extendA (i : Input) (e : Nat) : Bool :=
  if isAveragingUnsigned i.instrType then isSub i.instrType else (element (bits i.sew) e (operand1 i)).msb

def extendB (i : Input) (e : Nat) : Bool :=
  if isAveragingUnsigned i.instrType then false else (element (bits i.sew) e i.dataVs2).msb

theorem top_operands (i : Input) (e : Nat) :
    dataA i (topByte i.sew e) = BitVec.cons (extendA i e) (element 8 (topByte i.sew e) (operand1 i)) ∧
      dataB i (topByte i.sew e) = BitVec.cons (extendB i e) (element 8 (topByte i.sew e) i.dataVs2) := by
  have zero : zeroExtends i (topByte i.sew e) = isAveragingUnsigned i.instrType := by
    rw [zeroExtends,topByte_mod,beq_self_eq_true,Bool.and_true]
  simp only [dataA,dataB,zero,extendA,extendB,top_sign]
  exact ⟨trivial,trivial⟩

theorem ninth_bit (i : Input) (e : Nat) :
    (results i (topByte i.sew e)).getLsbD 8 = (carried i e ^^ extendA i e ^^ extendB i e) := by
  obtain ⟨first,second⟩ := top_operands i e
  have next := extended_next (element 8 (topByte i.sew e) (operand1 i)) (element 8 (topByte i.sew e) i.dataVs2)
    (extendA i e) (extendB i e) (carryIn i (topByte i.sew e))
  rw [results,BitVec.truncate_eq_setWidth,BitVec.getLsbD_setWidth,total,first,second,next,carryIn_chain]
  rfl

theorem carryOut_top {e : Nat} (other : isAveragingUnsigned i.instrType = false) : carryOut i (topByte i.sew e) = carried i e := by
  obtain ⟨first,second⟩ := top_operands i e
  rw [extendA,other,if_neg Bool.false_ne_true,← top_sign] at first
  rw [extendB,other,if_neg Bool.false_ne_true,← top_sign] at second
  rw [carryOut,total,first,second,extended_carry (by decide),carryIn_chain]
  rfl

theorem top_signs (i : Input) {e : Nat} (inside : e < count i.sew) :
    (dataA i (topByte i.sew e)).getLsbD 7 = (element (bits i.sew) e (operand1 i)).msb ∧
      (dataB i (topByte i.sew e)).getLsbD 7 = (element (bits i.sew) e i.dataVs2).msb ∧
      (results i (topByte i.sew e)).getLsbD 7 = (sumElement i e).msb := by
  obtain ⟨first,second⟩ := top_operands i e
  have within := row_bytes inside
  have positive : 0 < bytes i.sew := Nat.two_pow_pos _
  have placed : element 8 (topByte i.sew e) (resultBytes i) = (results i (topByte i.sew e)).truncate 8 :=
    element_pack _ (by rw [topByte]; omega) (by decide)
  refine ⟨?_,?_,?_⟩
  · rw [first,← top_sign,BitVec.getLsbD_cons,BitVec.msb_eq_getLsbD_last]
    rfl
  · rw [second,← top_sign,BitVec.getLsbD_cons,BitVec.msb_eq_getLsbD_last]
    rfl
  · rw [sumElement,← top_sign,placed,BitVec.msb_eq_getLsbD_last,BitVec.truncate_eq_setWidth,BitVec.getLsbD_setWidth]
    rfl

theorem wideElement_sum (i : Input) {e : Nat} (inside : e < count i.sew) :
    wideElement i e = BitVec.cons (extendA i e) (element (bits i.sew) e (operand1 i)) +
      BitVec.cons (extendB i e) (element (bits i.sew) e i.dataVs2) + flag (bits i.sew + 1) (isSub i.instrType) := by
  have whole := sumElement_total inside
  have double : 2 ^ (bits i.sew + 1) = 2 ^ bits i.sew * 2 := by rw [Nat.pow_succ]
  have single : (flag (bits i.sew + 1) (isSub i.instrType)).toNat = (isSub i.instrType).toNat := by
    have two : 1 < 2 ^ (bits i.sew + 1) := Nat.one_lt_two_pow (Nat.succ_ne_zero _)
    rw [flag,BitVec.toNat_setWidth,BitVec.toNat_ofBool,Nat.mod_eq_of_lt (Nat.lt_of_le_of_lt (Bool.toNat_le _) two)]
  refine BitVec.eq_of_toNat_eq ?_
  rw [BitVec.toNat_add,BitVec.toNat_add,single,wideElement,ninth_bit,BitVec.toNat_cons',BitVec.toNat_cons',BitVec.toNat_cons',
    Nat.mod_add_mod,Nat.shiftLeft_eq,Nat.shiftLeft_eq,Nat.shiftLeft_eq,double]
  have low := (sumElement i e).isLt
  have gathered : (extendA i e).toNat * 2 ^ bits i.sew + (element (bits i.sew) e (operand1 i)).toNat +
      ((extendB i e).toNat * 2 ^ bits i.sew + (element (bits i.sew) e i.dataVs2).toNat) + (isSub i.instrType).toNat =
      (sumElement i e).toNat + 2 ^ bits i.sew * ((carried i e).toNat + (extendA i e).toNat + (extendB i e).toNat) := by
    rw [Nat.mul_add,Nat.mul_add,Nat.mul_comm (2 ^ bits i.sew) (extendA i e).toNat,Nat.mul_comm (2 ^ bits i.sew) (extendB i e).toNat]
    omega
  rw [gathered,Nat.mod_mul,Nat.add_mul_mod_self_left,Nat.mod_eq_of_lt low,Nat.add_mul_div_left _ _ (Nat.two_pow_pos _),
    Nat.div_eq_of_lt low,Nat.zero_add,Nat.add_comm,Nat.mul_comm]
  cases carried i e <;> cases extendA i e <;> cases extendB i e <;> rfl

end

section
variable {w : Nat}

theorem extended_reading (signed : Bool) (x : BitVec w) : BitVec.cons (signed && x.msb) x = BitVec.ofInt (w + 1) (reading signed x) := by
  cases signed with
  | false =>
    rw [reading,if_neg Bool.false_ne_true,BitVec.ofInt_natCast,BitVec.ofNat_toNat,Bool.false_and]
    refine BitVec.eq_of_toNat_eq ?_
    rw [BitVec.toNat_cons',BitVec.toNat_setWidth,Bool.toNat_false,Nat.zero_shiftLeft,Nat.zero_add,Nat.mod_eq_of_lt]
    exact Nat.lt_trans x.isLt (Nat.pow_lt_pow_right (by decide) (Nat.lt_succ_self w))
  | true =>
    rw [reading,if_pos rfl,Bool.true_and]
    change _ = x.signExtend (w + 1)
    refine BitVec.eq_of_getLsbD_eq fun j below => ?_
    rw [BitVec.getLsbD_cons,BitVec.getLsbD_signExtend]
    by_cases last : j = w
    · simp [last]
    · simp [last,below,show j < w by omega]

theorem not_extended (signed : Bool) (x : BitVec w) : BitVec.cons (!(signed && x.msb)) (~~~x) = ~~~BitVec.cons (signed && x.msb) x := by
  refine BitVec.eq_of_getLsbD_eq fun j below => ?_
  rw [BitVec.getLsbD_cons,BitVec.getLsbD_not,BitVec.getLsbD_not,BitVec.getLsbD_cons]
  by_cases last : j = w
  · simp [last]
  · simp [last,below,show j < w by omega]

theorem not_toInt (positive : 0 < w) (x : BitVec w) : (~~~x).toInt = -x.toInt - 1 := by
  have bound := x.isLt
  have cast : ((2 ^ w : Nat) : Int) = 2 ^ w := by norm_cast
  rw [BitVec.toInt_eq_msb_cond,BitVec.toInt_eq_msb_cond,BitVec.msb_not,BitVec.toNat_not,decide_eq_true positive,Bool.true_and]
  cases x.msb with
  | false => simp only [Bool.not_false,Bool.false_eq_true,if_true,if_false]; omega
  | true => simp only [Bool.not_true,Bool.false_eq_true,if_true,if_false]; omega

-- A sum of two words and a carry that is read with signs overflows where both have the sign that the
-- result has not, and then the carry out is that sign.
theorem signed_overflow {x y r : BitVec w} {c k : Bool} (positive : 0 < w)
    (whole : r.toNat + 2 ^ w * k.toNat = x.toNat + y.toNat + c.toNat) :
    (((x.msb ^^ r.msb) && (y.msb ^^ r.msb)) = true ↔ saturates true w (x.toInt + y.toInt + c.toNat)) ∧
      (((x.msb ^^ r.msb) && (y.msb ^^ r.msb)) = true →
        if k then x.toInt + y.toInt + c.toNat < least true w else greatest true w < x.toInt + y.toInt + c.toNat) := by
  have double : (2 : Nat) ^ w = 2 * 2 ^ (w - 1) := by rw [← Nat.pow_succ',Nat.succ_eq_add_one,Nat.sub_add_cancel positive]
  have cast : ((2 ^ (w - 1) : Nat) : Int) = 2 ^ (w - 1) := by norm_cast
  have bit := Bool.toNat_le c
  have first := x.isLt
  have second := y.isLt
  have third := r.isLt
  rw [saturates_iff,BitVec.toInt_eq_msb_cond,BitVec.toInt_eq_msb_cond,least,greatest,if_pos rfl,if_pos rfl,← cast]
  have signs := And.intro (BitVec.msb_eq_true_iff_two_mul_ge (x := x)) (And.intro (BitVec.msb_eq_true_iff_two_mul_ge (x := y))
    (BitVec.msb_eq_true_iff_two_mul_ge (x := r)))
  rw [double] at signs whole first second third ⊢
  cases k with
  | false =>
    simp only [Bool.toNat_false,Nat.mul_zero,Nat.add_zero] at whole
    cases a : x.msb <;> cases b : y.msb <;> cases d : r.msb <;> simp [a,b,d] at signs ⊢ <;> omega
  | true =>
    simp only [Bool.toNat_true,Nat.mul_one] at whole
    cases a : x.msb <;> cases b : y.msb <;> cases d : r.msb <;> simp [a,b,d] at signs ⊢ <;> omega

end

section
variable {i : Input} {e : Nat} (inside : e < count i.sew)
include inside

theorem element_operand1 : element (bits i.sew) e (operand1 i) =
    if isSub i.instrType then ~~~element (bits i.sew) e i.dataVs1 else element (bits i.sew) e i.dataVs1 := by
  rw [operand1]
  split
  · exact Vaddsub.element_not (Vaddsub.row_inside inside)
  · rfl

theorem wideElement_exact (kind : isAveraging i.instrType = true) :
    wideElement i e = BitVec.ofInt (bits i.sew + 1) (exactSum i e) := by
  have forms : isAveragingUnsigned i.instrType = !isSigned i.instrType := by
    simp only [isAveraging,Bool.or_eq_true,beq_iff_eq] at kind
    rcases kind with ((type | type) | type) | type <;> rw [type] <;> rfl
  have second : BitVec.cons (extendB i e) (element (bits i.sew) e i.dataVs2) =
      BitVec.ofInt (bits i.sew + 1) (reading (isSigned i.instrType) (element (bits i.sew) e i.dataVs2)) := by
    rw [← extended_reading,extendB,forms]
    cases isSigned i.instrType <;> rfl
  have first := extended_reading (isSigned i.instrType) (element (bits i.sew) e i.dataVs1)
  rw [wideElement_sum i inside,second,exactSum,extendA,element_operand1 inside,forms,Vshift.flag_ofInt]
  cases subtracts : isSub i.instrType with
  | false =>
    have plain : (if (!isSigned i.instrType) = true then false else (element (bits i.sew) e i.dataVs1).msb) =
        (isSigned i.instrType && (element (bits i.sew) e i.dataVs1).msb) := by cases isSigned i.instrType <;> rfl
    simp only [Bool.false_eq_true,if_false]
    rw [plain,first,BitVec.ofInt_add,BitVec.add_comm (BitVec.ofInt _ _)]
    simp
  | true =>
    have negated : (if (!isSigned i.instrType) = true then true else (~~~element (bits i.sew) e i.dataVs1).msb) =
        !(isSigned i.instrType && (element (bits i.sew) e i.dataVs1).msb) := by
      have positive : 0 < bits i.sew := Nat.lt_of_lt_of_le (by decide) (VdivLane.bits_pos i.sew)
      cases isSigned i.instrType <;> simp [BitVec.msb_not,positive]
    have one : BitVec.ofInt (bits i.sew + 1) ((true.toNat : Nat) : Int) = 1#(bits i.sew + 1) := BitVec.ofInt_natCast _ 1
    simp only [if_true]
    rw [negated,not_extended,first,one,BitVec.add_comm (~~~_),Vaddsub.add_not_one,Int.sub_eq_add_neg,BitVec.ofInt_add,
      BitVec.ofInt_neg,BitVec.sub_eq_add_neg]

theorem low_bit {j : Nat} (below : j < 8) :
    (results i (e * bytes i.sew)).getLsbD j = (wideElement i e).toNat.testBit j := by
  have within := row_bytes inside
  have positive : 0 < bytes i.sew := Nat.two_pow_pos _
  have eight := VdivLane.bits_pos i.sew
  have placed : element 8 (e * bytes i.sew) (resultBytes i) = (results i (e * bytes i.sew)).truncate 8 :=
    element_pack _ (by omega) (by decide)
  have bit := congrArg (fun x => x.getLsbD j) placed
  have place : e * bits i.sew + j = e * bytes i.sew * 8 + j := by
    rw [Vdiv.bits,bytes,Nat.mul_assoc,Nat.mul_comm 8]
  simp only [element_bit,BitVec.truncate_eq_setWidth,BitVec.getLsbD_setWidth,below,decide_true,Bool.true_and] at bit
  change _ = (wideElement i e).getLsbD j
  rw [wideElement,BitVec.getLsbD_cons,if_neg (by omega),sumElement,element_bit,place,← bit]
  simp [show j < bits i.sew by omega]

theorem toAdd_exact : toAdd i e = increment i.vxrm (wideElement i e).toNat 1 := by
  rw [toAdd]
  cases i.vxrm with
  | rnu => simp only [low_bit inside (by decide : 0 < 8)]; rw [rnu_bits]
  | rne =>
    simp only [low_bit inside (by decide : 0 < 8),low_bit inside (by decide : 1 < 8)]
    rw [rne_bits]
    rfl
  | rdn => rfl
  | rod =>
    simp only [low_bit inside (by decide : 0 < 8),low_bit inside (by decide : 1 < 8)]
    rw [rod_bits,Bool.and_comm]
    simp [sticky]

theorem average_exact (kind : isAveraging i.instrType = true) : elementVd i e = rvv i e := by
  have others : i.instrType ≠ vsaddu ∧ i.instrType ≠ vsadd ∧ i.instrType ≠ vssub ∧ i.instrType ≠ vssubu := by
    simp only [isAveraging,Bool.or_eq_true,beq_iff_eq] at kind
    rcases kind with ((type | type) | type) | type <;> rw [type] <;> decide
  obtain ⟨notSaddu,notSadd,notSsub,notSsubu⟩ := others
  rw [elementVd,if_neg notSaddu,if_neg (not_or.mpr ⟨notSadd,notSsub⟩),if_neg notSsubu,if_pos kind,toAdd_exact inside,
    wideElement_exact inside kind,MExtension.slice_ofInt (by omega),Vshift.flag_ofInt,← BitVec.ofInt_add,rvv,if_pos kind,average]
  rfl

end

section
variable {w : Nat} {x y r : BitVec w} {c k : Bool}

theorem sum_ofInt (signed : Bool) (whole : r.toNat + 2 ^ w * k.toNat = x.toNat + y.toNat + c.toNat) :
    r = BitVec.ofInt w (reading signed x + reading signed y + c.toNat) := by
  rw [BitVec.ofInt_add,BitVec.ofInt_add,ofInt_reading,ofInt_reading,BitVec.ofInt_natCast]
  refine BitVec.eq_of_toNat_eq ?_
  rw [BitVec.toNat_add,BitVec.toNat_add,BitVec.toNat_ofNat,Nat.mod_add_mod,Nat.add_mod_mod,← whole,Nat.add_mul_mod_self_left,
    Nat.mod_eq_of_lt r.isLt]

theorem signed_saturated (positive : 0 < w) (whole : r.toNat + 2 ^ w * k.toNat = x.toNat + y.toNat + c.toNat) :
    (if ((x.msb ^^ r.msb) && (y.msb ^^ r.msb)) = true then BitVec.intMax w + flag w k else r) =
      BitVec.ofInt w (clip true w (x.toInt + y.toInt + c.toNat)) := by
  obtain ⟨spilled,side⟩ := signed_overflow positive whole
  by_cases set : ((x.msb ^^ r.msb) && (y.msb ^^ r.msb)) = true
  · have beyond := side set
    rw [if_pos set]
    cases k with
    | false =>
      rw [if_neg Bool.false_ne_true] at beyond
      rw [clip_above beyond,← intMax_ofInt,Vshift.flag_ofInt]
      simp
    | true =>
      rw [if_pos rfl] at beyond
      have one : BitVec.ofInt w ((true.toNat : Nat) : Int) = 1#w := BitVec.ofInt_natCast _ 1
      rw [clip_below beyond,← intMin_ofInt positive,Vshift.flag_ofInt,one,BitVec.intMax_add_one]
  · have within : clip true w (x.toInt + y.toInt + c.toNat) = x.toInt + y.toInt + c.toNat := not_not.mp (spilled.not.mp set)
    rw [if_neg set,within]
    exact sum_ofInt true whole

end

theorem rvv_saturating {i : Input} {e : Nat} (kind : isSaturating i.instrType = true) :
    rvv i e = BitVec.ofInt (bits i.sew) (clip (isSigned i.instrType) (bits i.sew) (exactSum i e)) := by
  have other : isAveraging i.instrType = false := by
    simp only [isSaturating,Bool.or_eq_true,beq_iff_eq] at kind
    rcases kind with ((type | type) | type) | type <;> rw [type] <;> rfl
  rw [rvv,other,if_neg Bool.false_ne_true]

section
variable {i : Input} {e : Nat} (inside : e < count i.sew)
include inside

theorem vsaddu_exact (type : i.instrType = vsaddu) :
    elementVd i e = rvv i e ∧ (overflow i (topByte i.sew e) = true ↔ rvvSat i e) := by
  have whole := sumElement_total inside
  have same : element (bits i.sew) e (operand1 i) = element (bits i.sew) e i.dataVs1 := by
    rw [element_operand1 inside,if_neg (by rw [type]; decide)]
  have plain : isSub i.instrType = false := by rw [type]; rfl
  have unsigned : isSigned i.instrType = false := by rw [type]; rfl
  have spilled : overflow i (topByte i.sew e) = carried i e := by rw [overflow,if_pos type,carryOut_top (by rw [type]; rfl)]
  rw [same,plain] at whole
  have value : exactSum i e = reading false (element (bits i.sew) e i.dataVs1) + reading false (element (bits i.sew) e i.dataVs2) +
      (false.toNat : Nat) := by
    rw [exactSum,unsigned,plain,if_neg Bool.false_ne_true,Int.add_comm]
    exact (Int.add_zero _).symm
  have natural : exactSum i e = (sumElement i e).toNat + 2 ^ bits i.sew * (carried i e).toNat := by
    rw [value]
    simp only [reading,Bool.false_eq_true,if_false]
    exact_mod_cast whole.symm
  have range := (sumElement i e).isLt
  have cast : ((2 ^ bits i.sew : Nat) : Int) = 2 ^ bits i.sew := by norm_cast
  rw [elementVd,if_pos type,rvv_saturating (by rw [type]; rfl),rvvSat,spilled,unsigned]
  cases out : carried i e with
  | false =>
    rw [out,Bool.toNat_false] at natural
    have within : clip false (bits i.sew) (exactSum i e) = exactSum i e := clip_within (by simp only [least,Bool.false_eq_true,if_false]; omega)
      (by simp only [greatest,Bool.false_eq_true,if_false]; omega)
    refine ⟨?_,fun set => absurd set Bool.false_ne_true,fun sat => absurd within sat.2⟩
    rw [if_neg Bool.false_ne_true,within,value]
    exact sum_ofInt false whole
  | true =>
    rw [out,Bool.toNat_true] at natural
    have above : greatest false (bits i.sew) < exactSum i e := by simp only [greatest,Bool.false_eq_true,if_false]; omega
    refine ⟨?_,fun _ => ⟨by rw [type]; rfl,saturates_iff.mpr (.inr above)⟩,fun _ => rfl⟩
    rw [if_pos rfl,clip_above above,allOnes_ofInt]

theorem vssubu_exact (type : i.instrType = vssubu) :
    elementVd i e = rvv i e ∧ (overflow i (topByte i.sew e) = true ↔ rvvSat i e) := by
  have whole := sumElement_total inside
  have same : element (bits i.sew) e (operand1 i) = ~~~element (bits i.sew) e i.dataVs1 := by
    rw [element_operand1 inside,if_pos (by rw [type]; rfl)]
  have subtracts : isSub i.instrType = true := by rw [type]; rfl
  have unsigned : isSigned i.instrType = false := by rw [type]; rfl
  have spilled : overflow i (topByte i.sew e) = !carried i e := by
    rw [overflow,if_neg (by rw [type]; decide),if_neg (by rw [type]; decide),if_pos type,carryOut_top (by rw [type]; rfl)]
  rw [same,subtracts,BitVec.toNat_not] at whole
  have value : exactSum i e = ((element (bits i.sew) e i.dataVs2).toNat : Int) - (element (bits i.sew) e i.dataVs1).toNat := by
    rw [exactSum,unsigned,subtracts,if_pos rfl]
    rfl
  have range := (sumElement i e).isLt
  have bound := (element (bits i.sew) e i.dataVs1).isLt
  have cast : ((2 ^ bits i.sew : Nat) : Int) = 2 ^ bits i.sew := by norm_cast
  rw [elementVd,if_neg (by rw [type]; decide),if_neg (by rw [type]; decide),if_pos type,rvv_saturating (by rw [type]; rfl),rvvSat,spilled,
    unsigned]
  cases out : carried i e with
  | true =>
    rw [out,Bool.toNat_true] at whole
    have natural : exactSum i e = (sumElement i e).toNat := by rw [value]; omega
    have within : clip false (bits i.sew) (exactSum i e) = exactSum i e := clip_within (by simp only [least,Bool.false_eq_true,if_false]; omega)
      (by simp only [greatest,Bool.false_eq_true,if_false]; omega)
    refine ⟨?_,fun set => absurd set Bool.false_ne_true,fun sat => absurd within sat.2⟩
    rw [Bool.not_true,if_neg Bool.false_ne_true,within,natural,BitVec.ofInt_natCast,BitVec.ofNat_toNat,BitVec.setWidth_eq]
  | false =>
    rw [out,Bool.toNat_false] at whole
    have below : exactSum i e < least false (bits i.sew) := by
      simp only [least,Bool.false_eq_true,if_false,value]
      simp only [Bool.toNat_true] at whole
      omega
    refine ⟨?_,fun _ => ⟨by rw [type]; rfl,saturates_iff.mpr (.inl below)⟩,fun _ => rfl⟩
    rw [Bool.not_false,if_pos rfl,clip_below below]
    rfl

-- The overflow of a subtraction is the one of the sum with the complement.
theorem overflow_signed (type : i.instrType = vsadd ∨ i.instrType = vssub) : overflow i (topByte i.sew e) =
    (((element (bits i.sew) e (operand1 i)).msb ^^ (sumElement i e).msb) &&
      ((element (bits i.sew) e i.dataVs2).msb ^^ (sumElement i e).msb)) := by
  obtain ⟨first,second,third⟩ := top_signs i inside
  rcases type with type | type
  · rw [overflow,if_neg (by rw [type]; decide),if_pos type,first,second,third]
  · have positive : 0 < bits i.sew := Nat.lt_of_lt_of_le (by decide) (VdivLane.bits_pos i.sew)
    have taken : (element 8 (topByte i.sew e) i.dataVs1).getLsbD 7 = (element (bits i.sew) e i.dataVs1).msb := by
      rw [← top_sign,BitVec.msb_eq_getLsbD_last]
    have flipped : (element (bits i.sew) e (operand1 i)).msb = !(element (bits i.sew) e i.dataVs1).msb := by
      rw [element_operand1 inside,if_pos (by rw [type]; rfl),BitVec.msb_not]
      simp [positive]
    rw [overflow,if_neg (by rw [type]; decide),if_neg (by rw [type]; decide),if_neg (by rw [type]; decide),if_pos type,second,third,
      taken,flipped]
    cases (element (bits i.sew) e i.dataVs1).msb <;> cases (element (bits i.sew) e i.dataVs2).msb <;>
      cases (sumElement i e).msb <;> rfl

theorem signed_exact (type : i.instrType = vsadd ∨ i.instrType = vssub) :
    elementVd i e = rvv i e ∧ (overflow i (topByte i.sew e) = true ↔ rvvSat i e) := by
  have positive : 0 < bits i.sew := Nat.lt_of_lt_of_le (by decide) (VdivLane.bits_pos i.sew)
  have whole := sumElement_total inside
  have kind : isSaturating i.instrType = true := by rcases type with type | type <;> rw [type] <;> rfl
  have signed : isSigned i.instrType = true := by rcases type with type | type <;> rw [type] <;> rfl
  have notAverage : isAveragingUnsigned i.instrType = false := by rcases type with type | type <;> rw [type] <;> rfl
  have value : exactSum i e = (element (bits i.sew) e (operand1 i)).toInt + (element (bits i.sew) e i.dataVs2).toInt +
      (isSub i.instrType).toNat := by
    rw [exactSum,signed,element_operand1 inside]
    simp only [reading,if_true]
    cases isSub i.instrType with
    | false => simp only [Bool.false_eq_true,if_false,Bool.toNat_false]; omega
    | true => simp only [if_true,not_toInt positive,Bool.toNat_true]; omega
  obtain ⟨spilled,side⟩ := signed_overflow positive whole
  have notUnsigned : i.instrType ≠ vsaddu := by rcases type with type | type <;> rw [type] <;> decide
  rw [elementVd,if_neg notUnsigned,if_pos type,rvv_saturating kind,rvvSat,signed,value,overflow_signed inside type]
  refine ⟨?_,spilled.trans ⟨fun sat => ⟨kind,sat⟩,fun sat => sat.2⟩⟩
  rw [← signed_saturated positive whole]
  split
  · -- Where it overflows both operands have the sign of the carry out, which is the ninth bit then.
    have set := ‹((_ ^^ _) && (_ ^^ _)) = true›
    have ninth : (results i (topByte i.sew e)).getLsbD 8 = carried i e := by
      rw [ninth_bit,extendA,extendB,notAverage,if_neg Bool.false_ne_true,if_neg Bool.false_ne_true]
      revert set
      cases (element (bits i.sew) e (operand1 i)).msb <;> cases (element (bits i.sew) e i.dataVs2).msb <;>
        cases (sumElement i e).msb <;> cases carried i e <;> decide
    rw [ninth,carryOut_top notAverage,ite_self]
  · rfl

theorem element_exact (kind : isSaturating i.instrType = true ∨ isAveraging i.instrType = true) :
    element (bits i.sew) e (dataVdO i) = rvv i e ∧ (overflow i (topByte i.sew e) = true ↔ rvvSat i e) := by
  have placed : element (bits i.sew) e (dataVdO i) = elementVd i e := element_pack _ inside (Nat.le_of_eq (VdivLane.bits_count i.sew))
  rw [placed]
  rcases kind with saturating | averaging
  · have types := saturating
    simp only [isSaturating,Bool.or_eq_true,beq_iff_eq] at types
    rcases types with ((type | type) | type) | type
    · exact signed_exact inside (.inl type)
    · exact vsaddu_exact inside type
    · exact signed_exact inside (.inr type)
    · exact vssubu_exact inside type
  · have none' : overflow i (topByte i.sew e) = false ∧ isSaturating i.instrType = false := by
      have types := averaging
      simp only [isAveraging,Bool.or_eq_true,beq_iff_eq] at types
      rw [overflow]
      rcases types with ((type | type) | type) | type <;> rw [type] <;> exact ⟨rfl,rfl⟩
    refine ⟨average_exact inside averaging,?_⟩
    rw [none'.1,rvvSat,none'.2]
    exact ⟨fun set => absurd set Bool.false_ne_true,fun sat => absurd sat.1 Bool.false_ne_true⟩

end

theorem satOvfO_iff {i : Input} (kind : isSaturating i.instrType = true ∨ isAveraging i.instrType = true) :
    satOvfO i = true ↔ ∃ e < count i.sew, rvvSat i e := by
  simp only [satOvfO,List.any_eq_true,List.mem_range]
  constructor
  · rintro ⟨e,inside,set⟩
    exact ⟨e,inside,(element_exact inside kind).2.mp set⟩
  · rintro ⟨e,inside,sat⟩
    exact ⟨e,inside,(element_exact inside kind).2.mpr sat⟩

-- The two adders of a lane give each element the sum, difference, carry, saturated or averaged value
-- that RVV asks for.
theorem adders_exact :
    (∀ (i : Vaddsub.Input) (e : Nat), e < count i.sew → (Vaddsub.sums i.instrType = true →
      element (bits i.sew) e (Vaddsub.dataVd i) = Vaddsub.rvv i e) ∧
      (Vaddsub.masks i.instrType = true → (Vaddsub.dataVd i).getLsbD e = Vaddsub.rvvMask i e)) ∧
    ∀ i : Input, isSaturating i.instrType = true ∨ isAveraging i.instrType = true →
      (∀ e < count i.sew, element (bits i.sew) e (dataVdO i) = rvv i e) ∧ (satOvfO i = true ↔ ∃ e < count i.sew, rvvSat i e) :=
  ⟨fun _ _ inside => ⟨Vaddsub.element_rvv inside,Vaddsub.mask_rvv inside⟩,
    fun _ kind => ⟨fun _ inside => (element_exact inside kind).1,satOvfO_iff kind⟩⟩

-- The largest byte and one, saturated, and a borrow that goes through a word
theorem adders_exact_bytes : element 8 0 (dataVdO ⟨vsadd,0,.rnu,1,0x7f⟩) = 0x7f#8 ∧
    element 64 0 (Vaddsub.dataVd ⟨Vaddsub.vsbc,3,0,0x100000000,1,true⟩) = 0xffffffff#64 :=
  ⟨(adders_exact.2 ⟨vsadd,0,.rnu,1,0x7f⟩ (.inl rfl)).1 0 (by decide),
    (adders_exact.1 ⟨Vaddsub.vsbc,3,0,0x100000000,1,true⟩ 0 (by decide)).1 rfl⟩

end Sargantana.Vsaaddsub
