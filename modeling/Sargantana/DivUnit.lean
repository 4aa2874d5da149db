import Sargantana.MulUnit

-- div_unit: two dividers of two quotient bits a cycle, with a cycle counter each.
namespace Sargantana.DivUnit
open DracPkg MulUnit

variable {α : Type} [Inhabited α]

def accepts (instruction : ArithInstr α) : Bool := instruction.instr.valid && instruction.instr.unit == .div

structure Divider (α : Type) where
  instruction : ScalarWb α
  divZero : Bool
  sameSign : Bool
  op32 : Bool
  signedOp : Bool
  remanent : BitVec 64
  dividendQuotient : BitVec 64
  divisor : BitVec 64
  cyclesCounter : Nat

def Divider.reset : Divider α := ⟨wbZero,false,false,false,false,0,0,0,0⟩

-- One bit of div_4bits: (tmp_remanent_sub, tmp_dividend_quotient)
def divBit (divisor remanent dividendQuotient : BitVec 64) : BitVec 64 × BitVec 64 :=
  let tmp := remanent.shiftConcat (dividendQuotient.getLsbD 63)
  if divisor ≤ tmp then (tmp - divisor,dividendQuotient.shiftConcat true)
  else (tmp,dividendQuotient.shiftConcat false)

-- div_4bits: two of them
def div4bits (divisor remanent dividendQuotient : BitVec 64) : BitVec 64 × BitVec 64 :=
  let high := divBit divisor remanent dividendQuotient
  divBit divisor high.1 high.2

def Divider.step (d : Divider α) : Divider α :=
  { d with
    remanent := (div4bits d.divisor d.remanent d.dividendQuotient).1
    dividendQuotient := (div4bits d.divisor d.remanent d.dividendQuotient).2
    cyclesCounter := d.cyclesCounter - 1 }

-- A flush clears the valid bit and the working registers.
def Divider.flush (d : Divider α) : Divider α :=
  { (Divider.reset : Divider α) with instruction := { d.instruction with valid := false } }

-- instruction_d of the selected divider. The dividend travels in result_pc; result is
-- not a register of the unit.
def entry (instruction : ArithInstr α) : ScalarWb α where
  valid := accepts instruction
  pc := instruction.instr.pc
  instrType := instruction.instr.instrType
  rd := instruction.instr.rd
  regfileWe := instruction.instr.regfileWe
  csrAddr := instruction.instr.imm.truncate 12
  prd := instruction.prd
  glIndex := instruction.glIndex
  resultPc := instruction.dataRs1
  result := 0
  carried := instruction.carried

-- dividend_d and divisor_d
def magnitude (instr : InstrEntry) (x : BitVec 64) : BitVec 64 :=
  if x.getLsbD 63 && instr.signedOp && !instr.op32 || x.getLsbD 31 && instr.signedOp && instr.op32 then negate x else x

def Divider.load (instruction : ArithInstr α) : Divider α where
  instruction := entry instruction
  divZero := instruction.dataRs2 == 0 || instruction.instr.op32 && instruction.dataRs2.truncate 32 == (0 : BitVec 32)
  sameSign := MulUnit.sameSign instruction
  op32 := instruction.instr.op32
  signedOp := instruction.instr.signedOp
  remanent := 0
  dividendQuotient :=
    if instruction.instr.op32 then (magnitude instruction.instr instruction.dataRs1).truncate 32 ++ (0 : BitVec 32)
    else magnitude instruction.instr instruction.dataRs1
  divisor :=
    if instruction.instr.op32 then ((magnitude instruction.instr instruction.dataRs2).truncate 32 : BitVec 32).zeroExtend 64
    else magnitude instruction.instr instruction.dataRs2
  cyclesCounter := if instruction.instr.op32 then 17 else 33

abbrev State (α : Type) := Bool → Divider α

def reset : State α := fun _ => .reset

def next (s : State α) (flush sel : Bool) (instruction : ArithInstr α) : State α := fun i =>
  if flush then (s i).flush
  else if accepts instruction && i == sel then .load instruction
  else (s i).step

def Divider.quo (d : Divider α) : BitVec 64 :=
  if d.divZero then BitVec.allOnes 64
  else if d.signedOp then (if d.sameSign then d.dividendQuotient else negate d.dividendQuotient)
  else d.dividendQuotient

def Divider.rmd (d : Divider α) : BitVec 64 :=
  let dividend := d.instruction.resultPc
  if d.divZero then dividend
  else if d.signedOp then
    (if dividend.getLsbD 63 && !d.op32 || dividend.getLsbD 31 && d.op32 then negate d.remanent else d.remanent)
  else d.remanent

def word (op32 : Bool) (x : BitVec 64) : BitVec 64 := if op32 then (x.truncate 32 : BitVec 32).signExtend 64 else x

def Divider.result (d : Divider α) : BitVec 64 :=
  match d.instruction.instrType with
  | .div | .divu | .divw | .divuw => word d.op32 d.quo
  | .rem | .remu | .remw | .remuw => word d.op32 d.rmd
  | _ => 0

def Divider.output (d : Divider α) : ScalarWb α := { d.instruction with resultPc := 0, result := d.result }

def Divider.ends (d : Divider α) : Bool := d.cyclesCounter == 1

-- instruction_o: the first divider goes before the second.
def output (s : State α) : ScalarWb α :=
  if (s false).ends then (s false).output else if (s true).ends then (s true).output else wbZero

end Sargantana.DivUnit
