import Sargantana.Vdiv
import Sargantana.Lib.CarryChain

-- vaddsub, the adder of a 64-bit lane: eight byte adders that are chained inside of an element.
namespace Sargantana.Vaddsub
open DracPkg Sargantana.Packed CarryChain Vdiv

def vadd : InstrType := .other 128
def vsub : InstrType := .other 129
def vrsub : InstrType := .other 130
def vadc : InstrType := .other 177
def vmadc : InstrType := .other 178
def vsbc : InstrType := .other 179
def vmsbc : InstrType := .other 180

structure Input where
  instrType : InstrType
  sew : Fin 4
  dataVs1 : BitVec 64
  dataVs2 : BitVec 64
  dataVm : BitVec 8
  useMask : Bool

def isSub (t : InstrType) : Bool := t == vsub || t == .vnmsub || t == .vnmsac

def isSubtraction (t : InstrType) : Bool := isSub t || t == vrsub || t == vmsbc

-- The carry comes from the mask.
def takesCarry (i : Input) : Bool := i.instrType == vadc || (i.instrType == vmadc && i.useMask)

-- data_vs1 and data_vs2
def operand1 (i : Input) : BitVec 64 := if isSub i.instrType || i.instrType == vsbc then ~~~i.dataVs1 else i.dataVs1

def operand2 (i : Input) : BitVec 64 := if i.instrType == vrsub then ~~~i.dataVs2 else i.dataVs2

-- carry_in[0], and the one of another adder where element e starts
def firstCarry (i : Input) : Bool :=
  if isSubtraction i.instrType then true
  else if i.instrType == vsbc then !i.dataVm.getLsbD 0
  else takesCarry i && i.dataVm.getLsbD 0

def laterCarry (i : Input) (e : Nat) : Bool :=
  if i.instrType == vsbc || (i.instrType == vmsbc && i.useMask) then !i.dataVm.getLsbD e
  else if isSubtraction i.instrType then true
  else takesCarry i && i.dataVm.getLsbD e

def bytes (sew : Fin 4) : Nat := 2 ^ sew.val

def topByte (sew : Fin 4) (e : Nat) : Nat := e * bytes sew + (bytes sew - 1)

def fresh (i : Input) (b : Nat) : Option Bool :=
  if b = 0 then some (firstCarry i)
  else if b % bytes i.sew = 0 then some (laterCarry i (b / bytes i.sew))
  else none

-- The carry out of element e, and whether it is less than what is taken from it
def carries (i : Input) (e : Nat) : Bool := carryOut 8 (fresh i) (operand2 i) (operand1 i) ((e + 1) * bytes i.sew - 1)

def borrows (i : Input) (e : Nat) : Bool :=
  decide ((element (bits i.sew) e (operand2 i)).toNat <
    (element (bits i.sew) e (operand1 i)).toNat + (i.dataVm.getLsbD e && i.useMask).toNat)

-- A mask, one bit for each element and the others set
def mask (i : Input) (bit : Nat → Bool) : BitVec 64 :=
  pack 64 64 fun e => BitVec.ofBool (if e < count i.sew then bit e else true)

def dataVd (i : Input) : BitVec 64 :=
  if i.instrType == vmadc then mask i (carries i)
  else if i.instrType == vmsbc then mask i (borrows i)
  else sum 8 (fresh i) 8 (operand2 i) (operand1 i)

def carry (i : Input) (e : Nat) : Bool := if e = 0 then firstCarry i else laterCarry i e

theorem fresh_start (i : Input) (e : Nat) : fresh i (e * bytes i.sew) = some (carry i e) := by
  have positive : 0 < bytes i.sew := Nat.two_pow_pos _
  rw [fresh,carry]
  by_cases first : e = 0
  · rw [first,Nat.zero_mul,if_pos rfl,if_pos rfl]
  · have later : e * bytes i.sew ≠ 0 := Nat.mul_ne_zero first (Nat.ne_of_gt positive)
    rw [if_neg later,if_neg first,Nat.mul_mod_left,if_pos rfl,Nat.mul_div_cancel _ positive]

theorem fresh_inside (i : Input) (e b : Nat) (inside : b + 1 < bytes i.sew) : fresh i (e * bytes i.sew + b + 1) = none := by
  have rest : (e * bytes i.sew + (b + 1)) % bytes i.sew = b + 1 := by
    rw [Nat.add_comm,Nat.add_mul_mod_self_right]
    exact Nat.mod_eq_of_lt inside
  rw [fresh,if_neg (Nat.succ_ne_zero _),Nat.add_assoc,rest,if_neg (Nat.succ_ne_zero _)]

theorem row_bytes {sew : Fin 4} {e : Nat} (inside : e < count sew) : e * bytes sew + bytes sew ≤ 8 := by
  have rows : ∀ sew : Fin 4, count sew * bytes sew = 8 := by decide
  rw [← rows sew,← Nat.succ_mul]
  exact Nat.mul_le_mul_right _ inside

-- Each element is the sum of the operands' elements and of its carry.
theorem element_dataVd (i : Input) (values : i.instrType ≠ vmadc ∧ i.instrType ≠ vmsbc) {e : Nat} (inside : e < count i.sew) :
    element (bits i.sew) e (dataVd i) =
      element (bits i.sew) e (operand2 i) + element (bits i.sew) e (operand1 i) +
        (BitVec.ofBool (carry i e)).zeroExtend (bits i.sew) := by
  rw [dataVd,if_neg (by simpa using values.1),if_neg (by simpa using values.2)]
  exact element_sum (Nat.two_pow_pos _) (fresh_start i e) (fresh_inside i e) (row_bytes inside) (by decide)

theorem element_not {w k : Nat} {x : BitVec 64} (inside : k * w + w ≤ 64) : element w k (~~~x) = ~~~element w k x := by
  refine BitVec.eq_of_getLsbD_eq fun j below => ?_
  rw [element_bit,BitVec.getLsbD_not,BitVec.getLsbD_not,element_bit]
  have place : k * w + j < 64 := by omega
  simp [below,place]

theorem row_inside {sew : Fin 4} {e : Nat} (inside : e < count sew) : e * bits sew + bits sew ≤ 64 := by
  have rows : ∀ sew : Fin 4, count sew * bits sew = 64 := by decide
  rw [← rows sew,← Nat.succ_mul]
  exact Nat.mul_le_mul_right _ inside

-- The instructions that only add, without a carry
def adds (t : InstrType) : Bool := !isSubtraction t && t != vadc && t != vmadc && t != vsbc

theorem element_add (i : Input) (plain : adds i.instrType = true) {e : Nat} (inside : e < count i.sew) :
    element (bits i.sew) e (dataVd i) = element (bits i.sew) e i.dataVs2 + element (bits i.sew) e i.dataVs1 := by
  simp only [adds,isSubtraction,Bool.and_eq_true,Bool.not_eq_true',Bool.or_eq_false_iff,bne_iff_ne,ne_eq,beq_eq_false_iff_ne] at plain
  obtain ⟨⟨⟨⟨⟨notSub,notRsub⟩,notMsbc⟩,notAdc⟩,notMadc⟩,notSbc⟩ := plain
  have none : carry i e = false := by
    simp [carry,firstCarry,laterCarry,takesCarry,isSubtraction,notSub,notRsub,notMsbc,notAdc,notMadc,notSbc]
  rw [element_dataVd i ⟨notMadc,notMsbc⟩ inside,none]
  simp [operand1,operand2,notSub,notRsub,notSbc]

theorem element_sub (i : Input) (subtracts : isSub i.instrType = true) {e : Nat} (inside : e < count i.sew) :
    element (bits i.sew) e (dataVd i) = element (bits i.sew) e i.dataVs2 - element (bits i.sew) e i.dataVs1 := by
  have others : i.instrType ≠ vmadc ∧ i.instrType ≠ vmsbc ∧ i.instrType ≠ vrsub ∧ i.instrType ≠ vsbc := by
    simp only [isSub,Bool.or_eq_true,beq_iff_eq] at subtracts
    rcases subtracts with (same | same) | same
    all_goals rw [same]; decide
  obtain ⟨notMadc,notMsbc,notRsub,notSbc⟩ := others
  have set : carry i e = true := by
    simp [carry,firstCarry,laterCarry,isSubtraction,subtracts,notMsbc,notSbc]
  have one : (BitVec.ofBool true).zeroExtend (bits i.sew) = 1#(bits i.sew) := by
    refine BitVec.eq_of_toNat_eq ?_
    simp
  have first : operand1 i = ~~~i.dataVs1 := if_pos (by rw [subtracts]; rfl)
  have second : operand2 i = i.dataVs2 := if_neg (by simpa using notRsub)
  rw [element_dataVd i ⟨notMadc,notMsbc⟩ inside,set,one,first,second,element_not (row_inside inside),
    BitVec.sub_eq_add_neg,BitVec.neg_eq_not_add,BitVec.add_assoc]

-- What RVV asks for: the sum or difference of the elements, and the carry or borrow out of it
def sums (t : InstrType) : Bool := t == vadd || t == vsub || t == vrsub || t == vadc || t == vsbc

def masks (t : InstrType) : Bool := t == vmadc || t == vmsbc

def maskBit (i : Input) (e : Nat) : BitVec (bits i.sew) := (BitVec.ofBool (i.dataVm.getLsbD e)).zeroExtend (bits i.sew)

def rvv (i : Input) (e : Nat) : BitVec (bits i.sew) :=
  let vs1 := element (bits i.sew) e i.dataVs1
  let vs2 := element (bits i.sew) e i.dataVs2
  if i.instrType = vadd then vs2 + vs1
  else if i.instrType = vsub then vs2 - vs1
  else if i.instrType = vrsub then vs1 - vs2
  else if i.instrType = vadc then vs2 + vs1 + maskBit i e
  else vs2 - vs1 - maskBit i e

def rvvMask (i : Input) (e : Nat) : Bool :=
  let vs1 := (element (bits i.sew) e i.dataVs1).toNat + (i.dataVm.getLsbD e && i.useMask).toNat
  let vs2 := (element (bits i.sew) e i.dataVs2).toNat
  if i.instrType = vmadc then decide (2 ^ bits i.sew ≤ vs2 + vs1) else decide (vs2 < vs1)

section
variable {w : Nat} (x y : BitVec w)

theorem carry_one : (BitVec.ofBool true).zeroExtend w = 1#w := by
  refine BitVec.eq_of_toNat_eq ?_
  simp

theorem add_not_one : y + ~~~x + 1#w = y - x := by
  rw [BitVec.add_assoc,← BitVec.neg_eq_not_add,← BitVec.sub_eq_add_neg]

theorem add_not_carry (borrow : Bool) :
    y + ~~~x + (BitVec.ofBool !borrow).zeroExtend w = y - x - (BitVec.ofBool borrow).zeroExtend w := by
  cases borrow with
  | false =>
    rw [Bool.not_false,carry_one,add_not_one]
    simp
  | true =>
    have none : (BitVec.ofBool !true).zeroExtend w = 0#w := by simp
    rw [none,carry_one,BitVec.add_zero,← add_not_one x y,BitVec.add_sub_cancel]

end

section
variable {i : Input} {e : Nat} (inside : e < count i.sew)
include inside

theorem element_reversed (type : i.instrType = vrsub) :
    element (bits i.sew) e (dataVd i) = element (bits i.sew) e i.dataVs1 - element (bits i.sew) e i.dataVs2 := by
  have set : carry i e = true := by
    have reverses : isSubtraction vrsub = true := rfl
    have others : (vrsub == vsbc) = false ∧ (vrsub == vmsbc) = false := by decide
    by_cases zero : e = 0
    · simp [carry,firstCarry,type,reverses,zero]
    · simp [carry,laterCarry,type,reverses,others,zero]
  have first : operand1 i = i.dataVs1 := if_neg (by rw [type]; decide)
  have second : operand2 i = ~~~i.dataVs2 := if_pos (by rw [type]; rfl)
  rw [element_dataVd i (by rw [type]; decide) inside,set,first,second,element_not (row_inside inside),carry_one,BitVec.add_comm (~~~_),
    add_not_one]

theorem element_carried (type : i.instrType = vadc) :
    element (bits i.sew) e (dataVd i) =
      element (bits i.sew) e i.dataVs2 + element (bits i.sew) e i.dataVs1 + maskBit i e := by
  have bit : carry i e = i.dataVm.getLsbD e := by
    have notSub : isSubtraction vadc = false := rfl
    have takes : takesCarry i = true := by rw [takesCarry,type]; rfl
    have others : (vadc == vsbc) = false ∧ (vadc == vmsbc) = false := by decide
    by_cases zero : e = 0
    · simp [carry,firstCarry,type,notSub,takes,others,zero]
    · simp [carry,laterCarry,type,notSub,takes,others,zero]
  have first : operand1 i = i.dataVs1 := if_neg (by rw [type]; decide)
  have second : operand2 i = i.dataVs2 := if_neg (by rw [type]; decide)
  rw [element_dataVd i (by rw [type]; decide) inside,bit,first,second]
  rfl

theorem element_borrowed (type : i.instrType = vsbc) :
    element (bits i.sew) e (dataVd i) =
      element (bits i.sew) e i.dataVs2 - element (bits i.sew) e i.dataVs1 - maskBit i e := by
  have bit : carry i e = !i.dataVm.getLsbD e := by
    have notSub : isSubtraction vsbc = false := rfl
    by_cases zero : e = 0
    · simp [carry,firstCarry,type,notSub,zero]
    · simp [carry,laterCarry,type,zero]
  have first : operand1 i = ~~~i.dataVs1 := if_pos (by rw [type]; rfl)
  have second : operand2 i = i.dataVs2 := if_neg (by rw [type]; decide)
  rw [element_dataVd i (by rw [type]; decide) inside,bit,first,second,element_not (row_inside inside),add_not_carry]
  rfl

theorem element_rvv (kind : sums i.instrType = true) : element (bits i.sew) e (dataVd i) = rvv i e := by
  simp only [sums,Bool.or_eq_true,beq_iff_eq] at kind
  rcases kind with (((type | type) | type) | type) | type
  · rw [rvv,if_pos type]
    exact element_add i (by rw [type]; rfl) inside
  · rw [rvv,if_neg (by rw [type]; decide),if_pos type]
    exact element_sub i (by rw [type]; rfl) inside
  · rw [rvv,if_neg (by rw [type]; decide),if_neg (by rw [type]; decide),if_pos type]
    exact element_reversed inside type
  · rw [rvv,if_neg (by rw [type]; decide),if_neg (by rw [type]; decide),if_neg (by rw [type]; decide),if_pos type]
    exact element_carried inside type
  · rw [rvv,if_neg (by rw [type]; decide),if_neg (by rw [type]; decide),if_neg (by rw [type]; decide),if_neg (by rw [type]; decide)]
    exact element_borrowed inside type

theorem mask_bit (bit : Nat → Bool) : (mask i bit).getLsbD e = bit e := by
  have fewer : ∀ sew : Fin 4, count sew ≤ 64 := by decide
  have below : e < 64 := Nat.lt_of_lt_of_le inside (fewer i.sew)
  have row := element_pack (n := 64) (fun e => BitVec.ofBool (if e < count i.sew then bit e else true)) below (by decide)
  have read : (element 1 e (mask i bit)).getLsbD 0 = (BitVec.ofBool (if e < count i.sew then bit e else true)).getLsbD 0 :=
    congrArg (fun x => x.getLsbD 0) row
  rw [element_bit,if_pos inside] at read
  simpa using read

theorem carries_exact : carries i e = decide (2 ^ bits i.sew ≤
    (element (bits i.sew) e (operand2 i)).toNat + (element (bits i.sew) e (operand1 i)).toNat + (carry i e).toNat) := by
  have positive : 0 < bytes i.sew := Nat.two_pow_pos _
  have total : (element (bits i.sew) e (sum 8 (fresh i) 8 (operand2 i) (operand1 i))).toNat + 2 ^ bits i.sew * (carries i e).toNat =
      (element (bits i.sew) e (operand2 i)).toNat + (element (bits i.sew) e (operand1 i)).toNat + (carry i e).toNat := by
    have last : (e + 1) * bytes i.sew - 1 = e * bytes i.sew + (bytes i.sew - 1) := by
      rw [Nat.succ_mul]
      omega
    rw [carries,last]
    exact element_total positive (fresh_start i e) (fresh_inside i e) (row_bytes inside) (by decide)
  have range := (element (bits i.sew) e (sum 8 (fresh i) 8 (operand2 i) (operand1 i))).isLt
  rw [← total]
  cases carries i e with
  | false => simp only [Bool.toNat_false,Nat.mul_zero,Nat.add_zero]; exact (decide_eq_false (by omega)).symm
  | true => simp only [Bool.toNat_true,Nat.mul_one]; exact (decide_eq_true (by omega)).symm

theorem mask_rvv (kind : masks i.instrType = true) : (dataVd i).getLsbD e = rvvMask i e := by
  simp only [masks,Bool.or_eq_true,beq_iff_eq] at kind
  rcases kind with type | type
  · have bit : carry i e = (i.dataVm.getLsbD e && i.useMask) := by
      have notSub : isSubtraction vmadc = false := rfl
      have takes : takesCarry i = i.useMask := by
        rw [takesCarry,type]
        exact Bool.false_or _
      have others : (vmadc == vsbc) = false ∧ (vmadc == vmsbc) = false := by decide
      by_cases zero : e = 0
      · simp [carry,firstCarry,type,notSub,takes,others,zero,Bool.and_comm]
      · simp [carry,laterCarry,type,notSub,takes,others,zero,Bool.and_comm]
    have first : operand1 i = i.dataVs1 := if_neg (by rw [type]; decide)
    have second : operand2 i = i.dataVs2 := if_neg (by rw [type]; decide)
    rw [dataVd,if_pos (by rw [type]; rfl),mask_bit inside,carries_exact inside,bit,first,second,rvvMask,if_pos type,Nat.add_assoc]
  · have first : operand1 i = i.dataVs1 := if_neg (by rw [type]; decide)
    have second : operand2 i = i.dataVs2 := if_neg (by rw [type]; decide)
    rw [dataVd,if_neg (by rw [type]; decide),if_pos (by rw [type]; rfl),mask_bit inside,borrows,first,second,rvvMask,
      if_neg (by rw [type]; decide)]

end

end Sargantana.Vaddsub
