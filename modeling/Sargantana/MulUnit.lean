import Sargantana.DracPkg

-- mul_unit: MULW is ready after one register stage, the other products after two.
namespace Sargantana.MulUnit
open DracPkg

variable {α : Type} [Inhabited α]

-- instruction_0_q of zeros
def wbZero : ScalarWb α := ⟨false,0,.other 0,0,false,0,0,0,0,0,default⟩

-- The two's complement as the unit writes it
def negate (x : BitVec 64) : BitVec 64 := ~~~x + 1

theorem negate_neg (x : BitVec 64) : negate x = -x := (BitVec.neg_eq_not_add x).symm

-- instruction_0_d.valid
def accepts (instruction : ArithInstr α) : Bool := instruction.instr.valid && instruction.instr.unit == .mul

def sameSign (instruction : ArithInstr α) : Bool :=
  if instruction.instr.op32 then !(instruction.dataRs2.getLsbD 31 ^^ instruction.dataRs1.getLsbD 31)
  else !(instruction.dataRs2.getLsbD 63 ^^ instruction.dataRs1.getLsbD 63)

-- The registers of the first stage
structure First (α : Type) where
  instruction : ScalarWb α
  type : BitVec 3
  negDef : Bool
  int32 : Bool
  src1Def : BitVec 64
  src2Def : BitVec 64

def First.zero : First α := ⟨wbZero,7,false,false,0,0⟩

-- The source operands: (src1_def_d, src2_def_d, neg_def_0_d)
def operands (instruction : ArithInstr α) : BitVec 64 × BitVec 64 × Bool :=
  let int32 := instruction.instr.op32 && accepts instruction
  let src1 := instruction.dataRs1
  let src2 := instruction.dataRs2
  if instruction.instr.memSize.truncate 3 = (0 : BitVec 3) then
    (if src1.getLsbD 63 && !int32 || src1.getLsbD 31 && int32 then negate src1 else src1,
      if src2.getLsbD 63 && !int32 || src2.getLsbD 31 && int32 then negate src2 else src2,
      !sameSign instruction)
  else if instruction.instr.memSize.truncate 3 = (1 : BitVec 3) then
    (if src1.getLsbD 63 then negate src1 else src1,if src2.getLsbD 63 then negate src2 else src2,
      !sameSign instruction)
  else if instruction.instr.memSize.truncate 3 = (2 : BitVec 3) then
    (if src1.getLsbD 63 then negate src1 else src1,src2,src1.getLsbD 63)
  else if instruction.instr.memSize.truncate 3 = (3 : BitVec 3) then (src1,src2,false)
  else (0,0,false)

-- instruction_0_d: the immediate travels in the result
def entry (instruction : ArithInstr α) : ScalarWb α where
  valid := accepts instruction
  pc := instruction.instr.pc
  instrType := instruction.instr.instrType
  rd := instruction.instr.rd
  regfileWe := instruction.instr.regfileWe
  csrAddr := instruction.instr.imm.truncate 12
  prd := instruction.prd
  glIndex := instruction.glIndex
  resultPc := 0
  result := instruction.instr.imm
  carried := instruction.carried

def First.load (instruction : ArithInstr α) : First α where
  instruction := entry instruction
  type := instruction.instr.memSize.truncate 3
  negDef := (operands instruction).2.2
  int32 := instruction.instr.op32 && accepts instruction
  src1Def := (operands instruction).1
  src2Def := (operands instruction).2.1

def First.resultLow (first : First α) : BitVec 96 :=
  first.src1Def.zeroExtend 96 * (first.src2Def.extractLsb' 0 32).zeroExtend 96

def First.resultHigh (first : First α) : BitVec 96 :=
  first.src1Def.zeroExtend 96 * (first.src2Def.extractLsb' 32 32).zeroExtend 96

-- result_32: MULW is finished here
def First.result32 (first : First α) : BitVec 64 :=
  let low := first.resultLow.truncate 64
  let aux := if first.negDef then negate low else low
  (aux.truncate 32).signExtend 64

-- The registers of the second stage
structure Second (α : Type) where
  instruction : ScalarWb α
  type : BitVec 3
  int32 : Bool
  negDef : Bool
  resultLow : BitVec 96
  resultHigh : BitVec 96

def Second.zero : Second α := ⟨wbZero,7,false,false,0,0⟩

def Second.load (first : First α) : Second α where
  instruction := first.instruction
  type := first.type
  int32 := first.int32
  negDef := first.negDef
  resultLow := first.resultLow
  resultHigh := first.resultHigh

def Second.result64 (second : Second α) : BitVec 64 :=
  let sum : BitVec 128 := second.resultLow.zeroExtend 128 + second.resultHigh.zeroExtend 128 <<< 32
  let full := if second.negDef then ~~~sum + 1 else sum
  if second.type = 0 then full.extractLsb' 0 64
  else if second.type = 1 ∨ second.type = 2 ∨ second.type = 3 then full.extractLsb' 64 64
  else 0

structure State (α : Type) where
  first : First α
  second : Second α

def State.reset : State α := ⟨.zero,.zero⟩

def next (s : State α) (flush : Bool) (instruction : ArithInstr α) : State α where
  first := if flush || !accepts instruction then .zero else .load instruction
  second := if flush || !s.first.instruction.valid || s.first.int32 then .zero else .load s.first

-- instruction_s1 and instruction_s2: the address of the control register is cut again from
-- the immediate that travels in the result.
def outFirst (s : State α) : ScalarWb α :=
  { s.first.instruction with
    valid := s.first.instruction.valid && !s.second.int32
    csrAddr := s.first.instruction.result.truncate 12
    result := s.first.result32 }

def outSecond (s : State α) : ScalarWb α :=
  { s.second.instruction with
    valid := s.second.instruction.valid && !s.second.int32
    csrAddr := s.second.instruction.result.truncate 12
    result := s.second.result64 }

-- instruction_o
def output (s : State α) : ScalarWb α :=
  if s.first.int32 && s.first.instruction.valid then outFirst s else outSecond s

end Sargantana.MulUnit
