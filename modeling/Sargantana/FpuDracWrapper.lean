import Sargantana.PendingFpOpsQueue

-- fpu_drac_wrapper: fpnew takes the operations and returns tags; the two write back
-- ports show the oldest finished operation.
namespace Sargantana.FpuDracWrapper
open DracPkg PendingFpOpsQueue

variable {α : Type}

-- exe_wb_fp_instr_t and exe_wb_scalar_instr_t, less the fields that are zero here. The
-- destination is fprd on both ports: exe_stage puts prd there for an integer register.
structure FpWb (α : Type) extends ScalarWb α where
  fpStatus : Status
  deriving DecidableEq

-- One clock cycle. in_ready_o and the results are those of fpnew.
structure Input (α : Type) where
  instruction : FpuInstr α
  flush : Bool
  stallWb : Bool
  readyFpu : Bool
  result : Option Result

def enableFpOp (s : State α) (i : Input α) : Bool :=
  i.instruction.instr.valid && i.instruction.instr.unit == .fpu && !full s i.flush

def accepts (s : State α) (i : Input α) : Bool := enableFpOp s i && i.readyFpu

def stall (s : State α) (i : Input α) : Bool := !i.readyFpu || full s i.flush

def wb (op : FpuInstr α) (valid regfileWe : Bool) (result : BitVec 64) (status : Status) : FpWb α where
  valid := valid
  pc := op.instr.pc
  instrType := op.instr.instrType
  rd := op.instr.rd
  regfileWe := regfileWe
  csrAddr := op.instr.imm.truncate 12
  prd := op.fprd
  glIndex := op.glIndex
  resultPc := 0
  result := result
  carried := op.carried
  fpStatus := status

-- instruction_o: a single precision result is boxed with ones.
def fpWb (op : FpuInstr α) (valid : Bool) (status : Status) : FpWb α :=
  wb op valid op.instr.fregfileWe
    (if op.instr.op32 then BitVec.allOnes 32 ++ (op.dataRs3.truncate 32 : BitVec 32) else op.dataRs3) status

-- instruction_scalar_o: a word is sign extended.
def scalarWb (op : FpuInstr α) (valid : Bool) (status : Status) : FpWb α :=
  wb op valid op.instr.regfileWe
    (if op.instr.op32 then (op.dataRs3.truncate 32 : BitVec 32).signExtend 64 else op.dataRs3) status

section
variable [Inhabited α]

def advanceHead (s : State α) (i : Input α) : Bool := (finishInstrFp s).instr.valid && !i.stallWb

def queueInput (s : State α) (i : Input α) : PendingFpOpsQueue.Input α where
  flush := i.flush
  valid := accepts s i
  instruction := i.instruction
  result := i.result
  advanceHead := advanceHead s i

def next (s : State α) (i : Input α) : State α := PendingFpOpsQueue.next s (queueInput s i)

-- The floating point port does not look at stall_wb_i.
def instructionO (s : State α) : FpWb α :=
  fpWb (finishInstrFp s) ((finishInstrFp s).instr.valid && (finishInstrFp s).instr.fregfileWe) (finishFpStatus s)

def instructionScalarO (s : State α) (i : Input α) : FpWb α :=
  scalarWb (finishInstrFp s) ((finishInstrFp s).instr.valid && (finishInstrFp s).instr.regfileWe && !i.stallWb)
    (finishFpStatus s)

end

end Sargantana.FpuDracWrapper
