import Sargantana.Lib.LimbOrder
import Sargantana.Vaddsub

-- vcomp, the comparisons of a 64-bit lane: every byte is compared, and the elements by their bytes.
namespace Sargantana.Vcomp
open DracPkg Sargantana.Packed LimbOrder
open Vdiv (bits count)
open Vaddsub (bytes)
open MExtension (reading)

def vmin : InstrType := .other 131
def vminu : InstrType := .other 132
def vmax : InstrType := .other 133
def vmaxu : InstrType := .other 134
def vmseq : InstrType := .other 138
def vmsne : InstrType := .other 139
def vmsltu : InstrType := .other 140
def vmslt : InstrType := .other 141
def vmsleu : InstrType := .other 142
def vmsle : InstrType := .other 143
def vmsgtu : InstrType := .other 144
def vmsgt : InstrType := .other 145
def vcnt : InstrType := .other 252

structure Input where
  instrType : InstrType
  sew : Fin 4
  dataVs1 : BitVec 64
  dataVs2 : BitVec 64

def isSigned (t : InstrType) : Bool := t == vmax || t == vmin || t == vmslt || t == vmsle || t == vmsgt

def isMax (t : InstrType) : Bool := t == vmax || t == vmaxu

def isSeq (t : InstrType) : Bool := t == vmseq || t == vcnt

def isSne (t : InstrType) : Bool := t == vmsne

def isSlt (t : InstrType) : Bool := t == vmsltu || t == vmslt

def isSle (t : InstrType) : Bool := t == vmsleu || t == vmsle

def isSgt (t : InstrType) : Bool := t == vmsgtu || t == vmsgt

def useSignBit (sew : Fin 4) (b : Nat) : Bool := b % bytes sew == bytes sew - 1

-- A byte with the bit that is put before it
def operand (i : Input) (b : Nat) (x : BitVec 64) : BitVec 9 :=
  BitVec.cons (isSigned i.instrType && useSignBit i.sew b && (element 8 b x).msb) (element 8 b x)

def isGreater (i : Input) (b : Nat) : Bool := (operand i b i.dataVs2).slt (operand i b i.dataVs1)

def isEqual (i : Input) (b : Nat) : Bool := element 8 b i.dataVs1 == element 8 b i.dataVs2

def dataA (i : Input) : BitVec 64 := if isMax i.instrType then i.dataVs1 else i.dataVs2

def dataB (i : Input) : BitVec 64 := if isMax i.instrType then i.dataVs2 else i.dataVs1

-- The nested priorities over the bytes of element e, and the conjunction
def elementGreater (i : Input) (e : Nat) : Bool := greater (isGreater i) (isEqual i) (e * bytes i.sew) (bytes i.sew - 1)

def elementEqual (i : Input) (e : Nat) : Bool := equal (isEqual i) (e * bytes i.sew) (bytes i.sew)

def compares (t : InstrType) : Bool := isSeq t || isSne t || isSlt t || isSle t || isSgt t

def result (i : Input) (e : Nat) : Bool :=
  if isSeq i.instrType then elementEqual i e
  else if isSne i.instrType then !elementEqual i e
  else if isSlt i.instrType then elementGreater i e
  else if isSle i.instrType then elementEqual i e || elementGreater i e
  else !(elementEqual i e || elementGreater i e)

def chosen (i : Input) (e : Nat) : BitVec (bits i.sew) :=
  element (bits i.sew) e (if elementGreater i e then dataA i else dataB i)

-- All bits are set before. A comparison writes one bit for each element.
def dataVdO (i : Input) : BitVec 64 :=
  if compares i.instrType then fill (count i.sew) (fun e => BitVec.ofBool (result i e)) (BitVec.allOnes 64)
  else fill (count i.sew) (chosen i) (BitVec.allOnes 64)

-- The comparisons of an element x of the second operand with an element y of the first one
def rvvMask {w : Nat} (t : InstrType) (x y : BitVec w) : Bool :=
  if t == vmseq then x == y
  else if t == vmsne then x != y
  else if t == vmslt then x.slt y
  else if t == vmsltu then x.ult y
  else if t == vmsle then x.sle y
  else if t == vmsleu then x.ule y
  else if t == vmsgt then y.slt x
  else y.ult x

def rvv {w : Nat} (t : InstrType) (x y : BitVec w) : BitVec w :=
  if t == vmin then (if x.slt y then x else y)
  else if t == vminu then (if x.ult y then x else y)
  else if t == vmax then (if x.slt y then y else x)
  else (if x.ult y then y else x)

def masks (t : InstrType) : Bool :=
  t == vmseq || t == vmsne || t == vmslt || t == vmsltu || t == vmsle || t == vmsleu || t == vmsgt || t == vmsgtu

def selects (t : InstrType) : Bool := t == vmin || t == vminu || t == vmax || t == vmaxu

variable {i : Input} {e : Nat}

-- Only the highest byte of an element is compared with its sign.
theorem isGreater_reading (signed : Bool) (kind : isSigned i.instrType = signed) {b : Nat} (inside : b < bytes i.sew) :
    isGreater i (e * bytes i.sew + b) =
      decide (reading (signed && decide (b + 1 = bytes i.sew)) (element 8 (e * bytes i.sew + b) i.dataVs2) <
        reading (signed && decide (b + 1 = bytes i.sew)) (element 8 (e * bytes i.sew + b) i.dataVs1)) := by
  have top : useSignBit i.sew (e * bytes i.sew + b) = decide (b + 1 = bytes i.sew) := by
    rw [useSignBit,Nat.add_comm,Nat.add_mul_mod_self_right,Nat.mod_eq_of_lt inside,Bool.beq_eq_decide_eq,decide_eq_decide]
    omega
  rw [isGreater,BitVec.slt,operand,operand,cons_reading,cons_reading,kind,top]

theorem isEqual_exact (b : Nat) : isEqual i b = decide (element 8 b i.dataVs1 = element 8 b i.dataVs2) := rfl

theorem bytes_positive (sew : Fin 4) : 0 < bytes sew := Nat.two_pow_pos _

theorem elementGreater_reading (signed : Bool) (kind : isSigned i.instrType = signed) : elementGreater i e =
    decide (reading signed (element (bits i.sew) e i.dataVs2) < reading signed (element (bits i.sew) e i.dataVs1)) :=
  greater_exact (bytes_positive i.sew) signed (fun _ inside => isGreater_reading signed kind inside) fun _ _ => isEqual_exact _

theorem elementEqual_exact : elementEqual i e = decide (element (bits i.sew) e i.dataVs2 = element (bits i.sew) e i.dataVs1) := by
  have agree : elementEqual i e = decide (element (bits i.sew) e i.dataVs1 = element (bits i.sew) e i.dataVs2) :=
    equal_exact fun _ _ => isEqual_exact _
  rw [agree,decide_eq_decide,eq_comm]

theorem count_fits (sew : Fin 4) : count sew ≤ 64 ∧ count sew * bits sew = 64 := by
  revert sew
  decide

theorem result_bit (kind : compares i.instrType = true) (inside : e < count i.sew) : (dataVdO i).getLsbD e = result i e := by
  have fits := (count_fits i.sew).1
  have written := element_fill (fun k => BitVec.ofBool (result i k)) (BitVec.allOnes 64) inside (by omega)
  have bit := congrArg (fun x => x.getLsbD 0) written
  simp only [element_bit] at bit
  rw [dataVdO,if_pos kind]
  simpa using bit

theorem chosen_element (kind : compares i.instrType = false) (inside : e < count i.sew) :
    element (bits i.sew) e (dataVdO i) = chosen i e := by
  rw [dataVdO,kind,if_neg (by decide)]
  exact element_fill (chosen i) (BitVec.allOnes 64) inside (Nat.le_of_eq (count_fits i.sew).2)

theorem most_reading (signed : Bool) (kind : isSigned i.instrType = signed) : (elementEqual i e || elementGreater i e) =
    decide (reading signed (element (bits i.sew) e i.dataVs2) ≤ reading signed (element (bits i.sew) e i.dataVs1)) := by
  have same := reading_inj signed (element (bits i.sew) e i.dataVs2) (element (bits i.sew) e i.dataVs1)
  rw [elementEqual_exact,elementGreater_reading signed kind,← Bool.decide_or,decide_eq_decide,← same,Int.le_iff_lt_or_eq,or_comm]

theorem not_most (x y : Int) : (!decide (x ≤ y)) = decide (y < x) := by
  rw [← decide_not,decide_eq_decide]
  exact Int.not_le

theorem reading_slt {w : Nat} (x y : BitVec w) : decide (reading true x < reading true y) = x.slt y := rfl

theorem reading_ult {w : Nat} (x y : BitVec w) : decide (reading false x < reading false y) = x.ult y :=
  decide_eq_decide.mpr Int.ofNat_lt

theorem reading_ule {w : Nat} (x y : BitVec w) : decide (reading false x ≤ reading false y) = x.ule y :=
  decide_eq_decide.mpr Int.ofNat_le

theorem result_exact (kind : masks i.instrType = true) :
    result i e = rvvMask i.instrType (element (bits i.sew) e i.dataVs2) (element (bits i.sew) e i.dataVs1) := by
  simp only [masks,Bool.or_eq_true,beq_iff_eq] at kind
  rcases kind with ((((((type | type) | type) | type) | type) | type) | type) | type
  · have value : result i e = elementEqual i e := by rw [result,type]; rfl
    rw [value,elementEqual_exact,type]
    rfl
  · have value : result i e = !elementEqual i e := by rw [result,type]; rfl
    rw [value,elementEqual_exact,type]
    rfl
  · have value : result i e = elementGreater i e := by rw [result,type]; rfl
    rw [value,elementGreater_reading true (by rw [type]; rfl),reading_slt,type]
    rfl
  · have value : result i e = elementGreater i e := by rw [result,type]; rfl
    rw [value,elementGreater_reading false (by rw [type]; rfl),reading_ult,type]
    rfl
  · have value : result i e = (elementEqual i e || elementGreater i e) := by rw [result,type]; rfl
    rw [value,most_reading true (by rw [type]; rfl),type]
    rfl
  · have value : result i e = (elementEqual i e || elementGreater i e) := by rw [result,type]; rfl
    rw [value,most_reading false (by rw [type]; rfl),reading_ule,type]
    rfl
  · have value : result i e = !(elementEqual i e || elementGreater i e) := by rw [result,type]; rfl
    rw [value,most_reading true (by rw [type]; rfl),not_most,reading_slt,type]
    rfl
  · have value : result i e = !(elementEqual i e || elementGreater i e) := by rw [result,type]; rfl
    rw [value,most_reading false (by rw [type]; rfl),not_most,reading_ult,type]
    rfl

theorem chosen_exact (kind : selects i.instrType = true) :
    chosen i e = rvv i.instrType (element (bits i.sew) e i.dataVs2) (element (bits i.sew) e i.dataVs1) := by
  have operands : chosen i e = if elementGreater i e then element (bits i.sew) e (dataA i) else element (bits i.sew) e (dataB i) :=
    apply_ite _ _ _ _
  simp only [selects,Bool.or_eq_true,beq_iff_eq] at kind
  rw [operands]
  rcases kind with ((type | type) | type) | type
  · rw [elementGreater_reading true (by rw [type]; rfl),reading_slt,dataA,dataB,type]
    rfl
  · rw [elementGreater_reading false (by rw [type]; rfl),reading_ult,dataA,dataB,type]
    rfl
  · rw [elementGreater_reading true (by rw [type]; rfl),reading_slt,dataA,dataB,type]
    rfl
  · rw [elementGreater_reading false (by rw [type]; rfl),reading_ult,dataA,dataB,type]
    rfl

-- What the unit gives for the same operands with another type
def bitOf (i : Input) (t : InstrType) (e : Nat) : Bool := (dataVdO { i with instrType := t }).getLsbD e

def valueOf (i : Input) (t : InstrType) (e : Nat) : BitVec (bits i.sew) :=
  element (bits i.sew) e (dataVdO { i with instrType := t })

structure Ordered {w : Nat} (signed : Bool) (x y least greatest : BitVec w) : Prop where
  order : reading signed least ≤ reading signed greatest
  operands : (least = x ∧ greatest = y) ∨ (least = y ∧ greatest = x)

structure Consistent (i : Input) (e : Nat) : Prop where
  different : bitOf i vmsne e = !bitOf i vmseq e
  atMost : bitOf i vmsle e = (bitOf i vmslt e || bitOf i vmseq e)
  atMostUnsigned : bitOf i vmsleu e = (bitOf i vmsltu e || bitOf i vmseq e)
  above : bitOf i vmsgt e = !bitOf i vmsle e
  aboveUnsigned : bitOf i vmsgtu e = !bitOf i vmsleu e
  ends : Ordered true (element (bits i.sew) e i.dataVs2) (element (bits i.sew) e i.dataVs1) (valueOf i vmin e) (valueOf i vmax e)
  endsUnsigned : Ordered false (element (bits i.sew) e i.dataVs2) (element (bits i.sew) e i.dataVs1) (valueOf i vminu e)
    (valueOf i vmaxu e)

theorem bitOf_result {t : InstrType} (kind : compares t = true) (inside : e < count i.sew) :
    bitOf i t e = result { i with instrType := t } e := result_bit kind inside

theorem valueOf_chosen {t : InstrType} (kind : compares t = false) (inside : e < count i.sew) :
    valueOf i t e = chosen { i with instrType := t } e := chosen_element kind inside

theorem ordered_choice {w : Nat} (signed : Bool) (x y : BitVec w) (less : Bool)
    (order : less = decide (reading signed x < reading signed y)) :
    Ordered signed x y (if less then x else y) (if less then y else x) := by
  subst order
  by_cases below : reading signed x < reading signed y
  · simp only [decide_eq_true below,if_pos]
    exact ⟨by omega,.inl ⟨rfl,rfl⟩⟩
  · simp only [decide_eq_false below,Bool.false_eq_true,if_false]
    exact ⟨by omega,.inr ⟨rfl,rfl⟩⟩

theorem consistent (inside : e < count i.sew) : Consistent i e where
  different := by
    rw [bitOf_result rfl inside,bitOf_result rfl inside]
    rfl
  atMost := by
    rw [bitOf_result rfl inside,bitOf_result rfl inside,bitOf_result rfl inside,Bool.or_comm]
    rfl
  atMostUnsigned := by
    rw [bitOf_result rfl inside,bitOf_result rfl inside,bitOf_result rfl inside,Bool.or_comm]
    rfl
  above := by
    rw [bitOf_result rfl inside,bitOf_result rfl inside]
    rfl
  aboveUnsigned := by
    rw [bitOf_result rfl inside,bitOf_result rfl inside]
    rfl
  ends := by
    rw [valueOf_chosen rfl inside,valueOf_chosen rfl inside,chosen_exact rfl,chosen_exact rfl]
    exact ordered_choice true _ _ _ (reading_slt _ _).symm
  endsUnsigned := by
    rw [valueOf_chosen rfl inside,valueOf_chosen rfl inside,chosen_exact rfl,chosen_exact rfl]
    exact ordered_choice false _ _ _ (reading_ult _ _).symm

theorem masks_compare {t : InstrType} (kind : masks t = true) : compares t = true := by
  simp only [masks,Bool.or_eq_true,beq_iff_eq] at kind
  rcases kind with ((((((rfl | rfl) | rfl) | rfl) | rfl) | rfl) | rfl) | rfl <;> rfl

theorem selects_apart {t : InstrType} (kind : selects t = true) : compares t = false := by
  simp only [selects,Bool.or_eq_true,beq_iff_eq] at kind
  rcases kind with ((rfl | rfl) | rfl) | rfl <;> rfl

theorem compare_exact (i : Input) (e : Nat) (inside : e < count i.sew) :
    (masks i.instrType = true → (dataVdO i).getLsbD e =
      rvvMask i.instrType (element (bits i.sew) e i.dataVs2) (element (bits i.sew) e i.dataVs1)) ∧
    (selects i.instrType = true → element (bits i.sew) e (dataVdO i) =
      rvv i.instrType (element (bits i.sew) e i.dataVs2) (element (bits i.sew) e i.dataVs1)) ∧
    Consistent i e := by
  refine ⟨fun kind => ?_,fun kind => ?_,consistent inside⟩
  · rw [result_bit (masks_compare kind) inside,result_exact kind]
  · rw [chosen_element (selects_apart kind) inside,chosen_exact kind]

theorem compare_exact_words : (dataVdO ⟨vmslt,1,0x00018000ffff0102,0xffff7fff80000101⟩).getLsbD 1 = true :=
  (compare_exact ⟨vmslt,1,0x00018000ffff0102,0xffff7fff80000101⟩ 1 (by decide)).1 (by decide)

end Sargantana.Vcomp
