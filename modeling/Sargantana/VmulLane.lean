import Sargantana.Vaddsub
import Sargantana.VdivSchedule
import Sargantana.Vmul

-- The multiplier of functional_unit, the adder behind it, and the elements that simd_unit
-- hands to the two lanes.
namespace Sargantana.VmulLane
open DracPkg ScoreBoardSimd MExtension Sargantana.Packed Vdiv

-- What is left of the vector operands
structure VecOperands where
  dataOldVd : BitVec 128
  dataVm : BitVec 16
  isOpvi : Bool
  useMask : Bool
  deriving DecidableEq, Inhabited

abbrev Instr := SimdInstr VecOperands

-- VWADD to VWSUBUW and VNSRL, VNSRA, VNCLIP, VNCLIPU
def isVw : InstrType → Bool
  | .other code => decide (150 ≤ code ∧ code ≤ 157)
  | .vwredsum | .vwredsumu | .vwmul | .vwmulu | .vwmulsu | .vwmacc | .vwmaccu | .vwmaccsu | .vwmaccus => true
  | _ => false

def isVn : InstrType → Bool
  | .other code => code == 161 || code == 162 || code == 194 || code == 195
  | _ => false

def isVww : InstrType → Bool
  | .other code => decide (154 ≤ code ∧ code ≤ 157)
  | _ => false

-- Each lane takes half as many elements of these.
def narrowed (t : InstrType) : Bool := isVw t || isVn t

def rs1Replicated (op : Instr) : BitVec 128 :=
  VdivSchedule.rs1Replicated op.instr.sew (if op.instr.isOpvx then op.dataRs1 else op.instr.imm)

def firstOperand (op : Instr) : BitVec 128 :=
  if op.instr.isOpvx || op.carried.isOpvi then rs1Replicated op else op.dataVs1

def lane (x : BitVec 128) (l : Fin 2) : BitVec 64 := x.extractLsb' (64 * l.val) 64

def halfLane (x : BitVec 128) (l : Fin 2) : BitVec 64 := (x.extractLsb' (32 * l.val) 32).zeroExtend 64

def vs1Elements (op : Instr) (l : Fin 2) : BitVec 64 :=
  if narrowed op.instr.instrType then halfLane (firstOperand op) l else lane (firstOperand op) l

def vs2Elements (op : Instr) (l : Fin 2) : BitVec 64 :=
  if narrowed op.instr.instrType && !(isVww op.instr.instrType || isVn op.instr.instrType) then halfLane op.dataVs2 l
  else lane op.dataVs2 l

def vmElements (op : Instr) (l : Fin 2) : BitVec 8 :=
  if narrowed op.instr.instrType then 0
  else (op.carried.dataVm.extractLsb' (count op.instr.sew * l.val) (count op.instr.sew)).zeroExtend 8

-- vmul and the register behind it
structure Lane where
  vmul : Vmul.State
  resultVmul2 : BitVec 64

def resetLane : Lane := ⟨Vmul.reset,0⟩

def takesOldVd (t : InstrType) : Bool := t == .vmadd || t == .vnmsub

def widensSum : InstrType → Bool
  | .vwmacc | .vwmaccu | .vwmaccus | .vwmaccsu => true
  | _ => false

def addsToOldVd (t : InstrType) : Bool := t == .vmacc || t == .vnmsac || widensSum t

def multiplyAdd (t : InstrType) : Bool := takesOldVd t || addsToOldVd t

def vmulInput (op : Instr) (l : Fin 2) : Vmul.Input where
  instrType := op.instr.instrType
  sew := op.instr.sew
  dataVs1 := vs1Elements op l
  dataVs2 := if takesOldVd op.instr.instrType then lane op.carried.dataOldVd l else vs2Elements op l

def Lane.next (s : Lane) (op : Instr) (l : Fin 2) : Lane := ⟨Vmul.next s.vmul (vmulInput op l),Vmul.dataVd s.vmul⟩

def vaddsubSew (out : Instr) : Fin 4 :=
  if widensSum out.instr.instrType then
    match out.instr.sew with
    | 0 => 1
    | 1 => 2
    | 2 | 3 => 3
  else out.instr.sew

-- The adder works on the instruction that comes out, and on the one that comes in unless that
-- is a multiply-add.
def vaddsubInput (s : Lane) (out op : Instr) (l : Fin 2) : Vaddsub.Input where
  instrType := out.instr.instrType
  sew := vaddsubSew out
  dataVs1 := if multiplyAdd out.instr.instrType then s.resultVmul2 else vs1Elements op l
  dataVs2 :=
    if takesOldVd out.instr.instrType then lane out.dataVs2 l
    else if addsToOldVd out.instr.instrType then lane out.carried.dataOldVd l
    else vs2Elements op l
  dataVm := vmElements op l
  useMask := out.carried.useMask

-- data_vd_o, where `others` is what the modules that are not here answer
def dataVd (s : Lane) (out op : Instr) (l : Fin 2) (others : BitVec 64) : BitVec 64 :=
  if isVmul out.instr.instrType then Vmul.dataVd s.vmul
  else if multiplyAdd out.instr.instrType then Vaddsub.dataVd (vaddsubInput s out op l)
  else others

def multiplies (t : InstrType) : Bool := isVmul t || multiplyAdd t

-- The decoder refuses the widening instructions where 2 * SEW is above ELEN.
def Legal (op : Instr) : Prop := Vmul.isWidened op.instr.instrType = true → op.instr.sew ≠ 3

def width (op : Instr) : Nat :=
  if Vmul.isWidened op.instr.instrType then bits op.instr.sew + bits op.instr.sew else bits op.instr.sew

def perLane (op : Instr) : Nat := 64 / width op

-- The signs of the operands, the element e of vs1 or the scalar, and the element of vs2 and of vd
def signedVs1 : InstrType → Bool
  | .vmulhu | .vmulhsu | .vwmulu | .vwmulsu | .vwmaccu | .vwmaccus => false
  | _ => true

def signedVs2 : InstrType → Bool
  | .vmulhu | .vwmulu | .vwmaccu | .vwmaccsu => false
  | _ => true

def first (op : Instr) (e : Nat) : BitVec (bits op.instr.sew) :=
  if op.instr.isOpvx then op.dataRs1.truncate (bits op.instr.sew)
  else if op.carried.isOpvi then op.instr.imm.truncate (bits op.instr.sew)
  else element (bits op.instr.sew) e op.dataVs1

def factor1 (op : Instr) (e : Nat) : Int := reading (signedVs1 op.instr.instrType) (first op e)

def factor2 (op : Instr) (e : Nat) : Int :=
  reading (signedVs2 op.instr.instrType) (element (bits op.instr.sew) e op.dataVs2)

def oldVd (op : Instr) (e : Nat) : Int := (element (width op) e op.carried.dataOldVd).toInt

-- The element e of the result that the instruction owes, before it is cut to its width
def rvv (op : Instr) (e : Nat) : Int :=
  match op.instr.instrType with
  | .vmulh | .vmulhu | .vmulhsu => factor1 op e * factor2 op e / 2 ^ bits op.instr.sew
  | .vmadd => factor1 op e * oldVd op e + factor2 op e
  | .vnmsub => factor2 op e - factor1 op e * oldVd op e
  | .vmacc | .vwmacc | .vwmaccu | .vwmaccus | .vwmaccsu => oldVd op e + factor1 op e * factor2 op e
  | .vnmsac => oldVd op e - factor1 op e * factor2 op e
  | _ => factor1 op e * factor2 op e

def inner (op : Instr) (e : Nat) : Int :=
  if takesOldVd op.instr.instrType then factor1 op e * oldVd op e else factor1 op e * factor2 op e

theorem element_extend {m n w k : Nat} (wider : n ≤ m) (x : BitVec n) : element w k (x.zeroExtend m) = element w k x := by
  refine BitVec.eq_of_getLsbD_eq fun j _ => ?_
  rw [element_bit,element_bit,BitVec.zeroExtend_eq_setWidth,BitVec.getLsbD_setWidth]
  by_cases inside : k * w + j < m
  · simp [inside]
  · have beyond : x.getLsbD (k * w + j) = false := BitVec.getLsbD_of_ge x _ (by omega)
    simp [inside,beyond]

theorem element_lane {sew : Fin 4} (x : BitVec 128) (l : Fin 2) {k : Nat} (inside : k < count sew) :
    element (bits sew) k (lane x l) = element (bits sew) (l.val * count sew + k) x :=
  element_slice (VdivLane.bits_count sew) x inside

theorem element_halfLane {sew : Fin 4} (narrow : sew ≠ 3) (x : BitVec 128) (l : Fin 2) {k : Nat} (inside : k < 32 / bits sew) :
    element (bits sew) k (halfLane x l) = element (bits sew) (l.val * (32 / bits sew) + k) x := by
  have rows : ∀ sew : Fin 4, sew ≠ 3 → 32 / bits sew * bits sew = 32 := by decide
  rw [halfLane,element_extend (by decide)]
  exact element_slice (rows sew narrow) x inside

theorem element_first (op : Instr) {e : Nat} (inside : e < 2 * count op.instr.sew) :
    element (bits op.instr.sew) e (firstOperand op) = first op e := by
  have fits : 2 * count op.instr.sew * bits op.instr.sew ≤ 128 := by rw [Nat.mul_assoc,VdivLane.bits_count]
  rw [firstOperand,first]
  cases scalar : op.instr.isOpvx with
  | true =>
    rw [Bool.true_or,if_pos rfl,if_pos rfl,rs1Replicated,scalar]
    exact element_pack _ inside fits
  | false =>
    cases immediate : op.carried.isOpvi with
    | true =>
      rw [Bool.or_true,if_pos rfl,if_neg (by decide),if_pos rfl,rs1Replicated,scalar]
      exact element_pack _ inside fits
    | false => rfl

theorem multiplies_forms {t : InstrType} (kind : multiplies t = true) :
    narrowed t = Vmul.isWidened t ∧ isVww t = false ∧ isVn t = false := by
  cases t <;> first | exact ⟨rfl,rfl,rfl⟩ | cases kind

theorem perLane_widened {op : Instr} (widened : Vmul.isWidened op.instr.instrType = true) :
    perLane op = 32 / bits op.instr.sew := by
  have rows : ∀ sew : Fin 4, 64 / (bits sew + bits sew) = 32 / bits sew := by decide
  rw [perLane,width,if_pos widened]
  exact rows op.instr.sew

theorem perLane_same {op : Instr} (same : Vmul.isWidened op.instr.instrType = false) : perLane op = count op.instr.sew := by
  rw [perLane,width,same]
  rfl

theorem perLane_count (op : Instr) : perLane op ≤ count op.instr.sew := by
  cases widened : Vmul.isWidened op.instr.instrType with
  | true =>
    have fewer : ∀ sew : Fin 4, 32 / bits sew ≤ count sew := by decide
    rw [perLane_widened widened]
    exact fewer _
  | false => rw [perLane_same widened]

section
variable {op : Instr} (kind : multiplies op.instr.instrType = true) (legal : Legal op) (l : Fin 2) {k : Nat}
  (inside : k < perLane op)
include kind legal inside

theorem element_vs1 : element (bits op.instr.sew) k (vs1Elements op l) = first op (l.val * perLane op + k) := by
  have fewer := perLane_count op
  have lower : l.val * perLane op ≤ 1 * perLane op := Nat.mul_le_mul_right _ (by omega)
  rw [← element_first op (by omega)]
  cases widened : Vmul.isWidened op.instr.instrType with
  | true =>
    rw [perLane_widened widened] at inside ⊢
    rw [vs1Elements,(multiplies_forms kind).1,widened,if_pos rfl]
    exact element_halfLane (legal widened) _ l inside
  | false =>
    rw [perLane_same widened] at inside ⊢
    rw [vs1Elements,(multiplies_forms kind).1,widened]
    exact element_lane _ l inside

theorem element_vs2 : element (bits op.instr.sew) k (vs2Elements op l) =
    element (bits op.instr.sew) (l.val * perLane op + k) op.dataVs2 := by
  obtain ⟨forms,notVww,notVn⟩ := multiplies_forms kind
  cases widened : Vmul.isWidened op.instr.instrType with
  | true =>
    rw [perLane_widened widened] at inside ⊢
    rw [vs2Elements,forms,notVww,notVn,widened]
    exact element_halfLane (legal widened) _ l inside
  | false =>
    rw [perLane_same widened] at inside ⊢
    rw [vs2Elements,forms,widened]
    exact element_lane _ l inside

end

theorem element_wide {op : Instr} (legal : Legal op) (x : BitVec 128) (l : Fin 2) {k : Nat} (inside : k < perLane op) :
    element (width op) k (lane x l) = element (width op) (l.val * perLane op + k) x := by
  have narrow : ∀ sew : Fin 4, sew ≠ 3 → 64 / (bits sew + bits sew) * (bits sew + bits sew) = 64 := by decide
  have rows : perLane op * width op = 64 := by
    rw [perLane,width]
    split
    · exact narrow _ (legal ‹_›)
    · exact VdivLane.bits_count _
  exact element_slice rows x inside

theorem signs (t : InstrType) : Vmul.src1Signed t = signedVs1 t ∧ Vmul.src2Signed t = signedVs2 t := by
  cases t <;> exact ⟨rfl,rfl⟩

theorem old_plain {t : InstrType} (old : takesOldVd t = true) : Vmul.isWidened t = false ∧ signedVs2 t = true := by
  cases t <;> first | exact ⟨rfl,rfl⟩ | cases old

theorem old_width {op : Instr} (old : takesOldVd op.instr.instrType = true) : width op = bits op.instr.sew := by
  rw [width,(old_plain old).1]
  rfl

section
variable {op : Instr} (kind : multiplies op.instr.instrType = true) (legal : Legal op) (l : Fin 2) {k : Nat}
  (inside : k < perLane op)
include kind legal inside

theorem product_inner : Vmul.product (vmulInput op l) k = inner op (l.val * perLane op + k) := by
  obtain ⟨sign1,sign2⟩ := signs op.instr.instrType
  change reading (Vmul.src1Signed op.instr.instrType) (element (bits op.instr.sew) k (vs1Elements op l)) *
    reading (Vmul.src2Signed op.instr.instrType) (element (bits op.instr.sew) k (vmulInput op l).dataVs2) = _
  rw [sign1,sign2,element_vs1 kind legal l inside,inner,vmulInput]
  cases old : takesOldVd op.instr.instrType with
  | true =>
    have wide := element_wide legal op.carried.dataOldVd l inside
    rw [old_width old] at wide
    rw [if_pos rfl,if_pos rfl,(old_plain old).2,wide,factor1,oldVd,old_width old]
    rfl
  | false =>
    rw [if_neg (by simp),if_neg (by simp),element_vs2 kind legal l inside]
    rfl

theorem value_inner : Vmul.value (vmulInput op l) k =
    if Vmul.isMulh op.instr.instrType then inner op (l.val * perLane op + k) / 2 ^ bits op.instr.sew
    else inner op (l.val * perLane op + k) := by
  rw [Vmul.value,product_inner kind legal l inside]
  rfl

end

theorem rvv_product {op : Instr} (kind : isVmul op.instr.instrType = true) (e : Nat) :
    rvv op e = if Vmul.isMulh op.instr.instrType then inner op e / 2 ^ bits op.instr.sew else inner op e := by
  unfold rvv inner
  generalize op.instr.instrType = t at kind
  cases t
  all_goals first | rfl | cases kind

def addend (op : Instr) (e : Nat) : Int := if takesOldVd op.instr.instrType then factor2 op e else oldVd op e

theorem rvv_sum {op : Instr} (kind : multiplyAdd op.instr.instrType = true) (e : Nat) :
    rvv op e = if Vaddsub.isSub op.instr.instrType then addend op e - inner op e else addend op e + inner op e := by
  unfold rvv inner addend
  generalize op.instr.instrType = t at kind
  cases t <;> first | rfl | exact Int.add_comm _ _ | cases kind

theorem sum_adds {t : InstrType} (kind : multiplyAdd t = true) (plain : Vaddsub.isSub t = false) : Vaddsub.adds t = true := by
  cases t <;> first | rfl | exact absurd plain (by decide) | cases kind

theorem sum_width {op : Instr} (kind : multiplyAdd op.instr.instrType = true) (legal : Legal op) :
    width op = bits (vaddsubSew op) ∧ perLane op = count (vaddsubSew op) := by
  have forms : Vmul.isWidened op.instr.instrType = widensSum op.instr.instrType := by
    generalize op.instr.instrType = t at kind
    cases t <;> first | rfl | cases kind
  rw [perLane,width,vaddsubSew,forms]
  cases widened : widensSum op.instr.instrType with
  | true =>
    have narrow := legal (forms.trans widened)
    match sew : op.instr.sew with
    | 0 | 1 | 2 => exact ⟨rfl,rfl⟩
    | 3 => exact absurd sew narrow
  | false => exact ⟨rfl,rfl⟩

theorem element_addend {op : Instr} (kind : multiplyAdd op.instr.instrType = true) (legal : Legal op) (s : Lane) (i : Instr)
    (l : Fin 2) {k : Nat} (inside : k < perLane op) :
    element (width op) k (vaddsubInput s op i l).dataVs2 = BitVec.ofInt (width op) (addend op (l.val * perLane op + k)) := by
  have taken : (vaddsubInput s op i l).dataVs2 = if takesOldVd op.instr.instrType then lane op.dataVs2 l
    else if addsToOldVd op.instr.instrType then lane op.carried.dataOldVd l else vs2Elements i l := rfl
  rw [taken,addend]
  cases old : takesOldVd op.instr.instrType with
  | true =>
    rw [if_pos rfl,if_pos rfl,element_wide legal _ l inside,factor2,(old_plain old).2,old_width old]
    exact (BitVec.ofInt_toInt).symm
  | false =>
    have accumulates : addsToOldVd op.instr.instrType = true := by simpa [multiplyAdd,old] using kind
    rw [if_neg Bool.false_ne_true,if_neg Bool.false_ne_true,if_pos accumulates,element_wide legal _ l inside]
    exact (BitVec.ofInt_toInt).symm

-- The adder behind the multiplier, when the product is in the register
theorem sum_exact {op : Instr} (kind : multiplyAdd op.instr.instrType = true) (legal : Legal op) (s : Lane) (i : Instr)
    (l : Fin 2) {k : Nat} (inside : k < perLane op)
    (product : element (width op) k s.resultVmul2 = BitVec.ofInt (width op) (inner op (l.val * perLane op + k))) :
    element (width op) k (Vaddsub.dataVd (vaddsubInput s op i l)) =
      BitVec.ofInt (width op) (rvv op (l.val * perLane op + k)) := by
  obtain ⟨wide,rows⟩ := sum_width kind legal
  have second := element_addend kind legal s i l inside
  have first' : (vaddsubInput s op i l).dataVs1 = s.resultVmul2 := if_pos kind
  have within : k < count (vaddsubInput s op i l).sew := rows ▸ inside
  rw [rvv_sum kind]
  rw [wide] at product second ⊢
  cases subtracts : Vaddsub.isSub op.instr.instrType with
  | true =>
    have sum : element (bits (vaddsubSew op)) k (Vaddsub.dataVd (vaddsubInput s op i l)) =
        element (bits (vaddsubSew op)) k (vaddsubInput s op i l).dataVs2 -
          element (bits (vaddsubSew op)) k (vaddsubInput s op i l).dataVs1 := Vaddsub.element_sub _ subtracts within
    rw [sum,second,first',product,if_pos rfl,Int.sub_eq_add_neg,BitVec.ofInt_add,BitVec.ofInt_neg,BitVec.sub_eq_add_neg]
  | false =>
    have sum : element (bits (vaddsubSew op)) k (Vaddsub.dataVd (vaddsubInput s op i l)) =
        element (bits (vaddsubSew op)) k (vaddsubInput s op i l).dataVs2 +
          element (bits (vaddsubSew op)) k (vaddsubInput s op i l).dataVs1 :=
      Vaddsub.element_add _ (sum_adds kind subtracts) within
    rw [sum,second,first',product,if_neg Bool.false_ne_true,BitVec.ofInt_add]

end Sargantana.VmulLane
