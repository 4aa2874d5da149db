import Sargantana.ExeStage
import Sargantana.FetchStages

-- branch_unit_sarg, and the ports of exe_stage that report a branch.
namespace Sargantana.BranchUnit
open DracPkg ExeStage FetchStages

-- The types that InstrType does not name, by their places in instr_type_t
def blt : InstrType := .other 13
def bltu : InstrType := .other 14
def bge : InstrType := .other 15
def bgeu : InstrType := .other 16
def beq : InstrType := .other 17
def bne : InstrType := .other 18
def jalr : InstrType := .other 19
def jal : InstrType := .other 20

def isConditional (t : InstrType) : Bool := t == blt || t == bltu || t == bge || t == bgeu || t == beq || t == bne

structure BranchWb (α : Type) where
  wb : ScalarWb α
  branchTaken : Bool
  ex : Exception

def target (i : ArithInstr α) : BitVec 64 :=
  if i.instr.instrType = jal then (i.instr.pc + i.instr.imm) &&& 0xFFFFFFFFFFFFFFFE
  else if i.instr.instrType = jalr then (i.dataRs1 + i.instr.imm) &&& 0xFFFFFFFFFFFFFFFE
  else if isConditional i.instr.instrType then i.instr.pc + i.instr.imm
  else 0

def branchTaken (i : ArithInstr α) : Bool :=
  if i.instr.instrType = jal then true
  else if i.instr.instrType = jalr then true
  else if i.instr.instrType = beq then i.dataRs1 == i.dataRs2
  else if i.instr.instrType = bne then !(i.dataRs1 == i.dataRs2)
  else if i.instr.instrType = blt then i.dataRs1.slt i.dataRs2
  else if i.instr.instrType = bge then !i.dataRs1.slt i.dataRs2
  else if i.instr.instrType = bltu then i.dataRs1.ult i.dataRs2
  else if i.instr.instrType = bgeu then !i.dataRs1.ult i.dataRs2
  else false

def checked (i : ArithInstr α) : BitVec 64 := if branchTaken i then target i else i.instr.pc + 4

-- INSTR_ADDR_MISALIGNED is 0x00.
def instrAddrMisaligned : Nat := 0x00

def ex (i : ArithInstr α) : Exception :=
  if i.instr.valid && (checked i).extractLsb' 0 2 != 0 && i.instr.unit == .branch &&
      (i.instr.instrType == jalr || isConditional i.instr.instrType && branchTaken i) then
    ⟨true,instrAddrMisaligned,(checked i).toNat⟩
  else ⟨false,instrAddrMisaligned,0⟩

-- instruction_o
def branchUnit (i : ArithInstr α) : BranchWb α where
  wb :=
    { valid := i.instr.valid && i.instr.unit == .branch
      pc := i.instr.pc
      instrType := i.instr.instrType
      rd := i.instr.rd
      regfileWe := i.instr.regfileWe
      csrAddr := i.instr.imm.truncate 12
      prd := i.prd
      glIndex := i.glIndex
      resultPc := target i
      result := i.instr.pc + 4
      carried := i.carried }
  branchTaken := branchTaken i
  ex := ex i

section
variable (grants : Grants) (from_rr : RrExeInstr BranchPred) (kill : Bool)

def branchToScalarWb : BranchWb BranchPred := branchUnit (arithInstr grants from_rr kill)

-- correct_branch_pred_o. What is neither jalr nor a conditional branch was put right at decode.
def correctBranchPred : Bool :=
  if (branchToScalarWb grants from_rr kill).wb.valid then
    if from_rr.instr.instrType = jal then true
    else if !isConditional from_rr.instr.instrType && from_rr.instr.instrType != jalr then true
    else if from_rr.carried.isBranch then
      from_rr.carried.decision == (branchToScalarWb grants from_rr kill).branchTaken &&
        (from_rr.carried.decision == false ||
          from_rr.carried.predAddr == (branchToScalarWb grants from_rr kill).wb.resultPc)
    else !(branchToScalarWb grants from_rr kill).branchTaken
  else true

structure ExeIfBranchPred where
  pcExecution : BitVec 64
  branchAddrResultExe : BitVec 64
  branchAddrTargetExe : BitVec 64
  branchTakenResultExe : Bool
  isBranchExe : Bool
  deriving DecidableEq

def exeIfBranchPred : ExeIfBranchPred where
  pcExecution := from_rr.instr.pc
  branchAddrResultExe :=
    if (branchToScalarWb grants from_rr kill).branchTaken then (branchToScalarWb grants from_rr kill).wb.resultPc
    else (branchToScalarWb grants from_rr kill).wb.result
  branchAddrTargetExe := (branchToScalarWb grants from_rr kill).wb.resultPc
  branchTakenResultExe := (branchToScalarWb grants from_rr kill).branchTaken
  isBranchExe :=
    (isConditional from_rr.instr.instrType || from_rr.instr.instrType == jal || from_rr.instr.instrType == jalr) &&
      (arithInstr grants from_rr kill).instr.valid

end

end Sargantana.BranchUnit
