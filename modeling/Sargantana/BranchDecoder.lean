import Sargantana.BranchUnit
import Sargantana.Lib.ControlTransfer

-- decoder_sarg: the rows of the branches and jumps, the redirections of the fetch at decode,
-- and the path that the front end is on.
namespace Sargantana.BranchDecoder
open DracPkg FetchStages BranchUnit ControlTransfer

structure Row where
  instrType : InstrType
  unit : FunctionalUnit
  usePc : Bool
  useImm : Bool

-- The rows that are missing are illegal instructions or other opcodes.
def decode (opcode : BitVec 7) (func3 : BitVec 3) : Option Row :=
  let conditional (instrType : InstrType) : Option Row := some ⟨instrType,.branch,false,false⟩
  if opcode = 0x6f then some ⟨jal,.branch,true,true⟩
  else if opcode = 0x67 then if func3 = 0 then some ⟨jalr,.branch,false,false⟩ else none
  else if opcode = 0x63 then
    match func3.toNat with
    | 0 => conditional beq
    | 1 => conditional bne
    | 4 => conditional blt
    | 5 => conditional bge
    | 6 => conditional bltu
    | 7 => conditional bgeu
    | _ => none
  else none

structure Row.Fills (row : Row) (instr : InstrEntry) : Prop where
  instrType : instr.instrType = row.instrType
  unit : instr.unit = row.unit
  usePc : instr.usePc = row.usePc
  useImm : instr.useImm = row.useImm

def Decoded (t : Transfer) (instr : InstrEntry) : Prop :=
  ∃ opcode func3 row, t.encodes opcode func3 = true ∧ decode opcode func3 = some row ∧ row.Fills instr

def typeOf : Transfer → InstrType
  | .beq => beq
  | .bne => bne
  | .blt => blt
  | .bge => bge
  | .bltu => bltu
  | .bgeu => bgeu
  | .jal => jal
  | .jalr => jalr

theorem Decoded.row {t : Transfer} {instr : InstrEntry} (decoded : Decoded t instr) :
    Row.Fills ⟨typeOf t,.branch,t == .jal,t == .jal⟩ instr := by
  obtain ⟨opcode,func3,row,encodes,found,fills⟩ := decoded
  have same : row = ⟨typeOf t,.branch,t == .jal,t == .jal⟩ := by
    cases t <;> simp only [Transfer.encodes,Bool.and_eq_true,beq_iff_eq] at encodes
    case jal =>
      subst encodes
      exact (Option.some.inj found).symm
    all_goals
      obtain ⟨rfl,rfl⟩ := encodes
      exact (Option.some.inj found).symm
  exact same ▸ fills

-- next_pc of if_stage_1 under NEXT_PC_SEL_BP_OR_PC_4, and the prediction that goes with the
-- instruction
def bpOrPc4 (pc : BitVec 64) (isBranch taken : Bool) (addr : BitVec 64) : BitVec 64 :=
  if isBranch && taken then addr else pc + 4

def fetchBpred (isBranch taken : Bool) (addr : BitVec 64) : BranchPred := ⟨isBranch,taken && isBranch,addr⟩

-- jal_id_if_o.valid of jal, with the address jump
def jalJumps (bpred : BranchPred) (jump : BitVec 64) (misaligned : Bool) : Bool :=
  !misaligned && !(jump == bpred.predAddr && bpred.decision)

-- jal_id_if_o.valid of jalr, and the prediction that decode leaves
def jalrJumps (bpred : BranchPred) (ras : BitVec 64) (pop flush stall : Bool) : Bool :=
  pop && !((ras == bpred.predAddr && bpred.decision && !flush) && !stall)

def jalrBpred (bpred : BranchPred) (ras : BitVec 64) (pop flush stall : Bool) : BranchPred where
  isBranch := true
  decision := jalrJumps bpred ras pop flush stall || bpred.decision
  predAddr := if jalrJumps bpred ras pop flush stall then ras else bpred.predAddr

-- The address that a prediction sends the fetch to
def predicted (bpred : BranchPred) : Option (BitVec 64) :=
  if bpred.isBranch && bpred.decision then some bpred.predAddr else none

theorem fetch_path (pc : BitVec 64) (isBranch taken : Bool) (addr : BitVec 64) :
    bpOrPc4 pc isBranch taken addr = path pc (predicted (fetchBpred isBranch taken addr)) := by
  cases isBranch <;> cases taken <;> rfl

-- After decode, the fetch is on the path of the prediction that a jalr carries on.
theorem jalr_path (pc : BitVec 64) (isBranch taken : Bool) (addr ras : BitVec 64) (pop flush stall : Bool) :
    (if jalrJumps (fetchBpred isBranch taken addr) ras pop flush stall then ras else bpOrPc4 pc isBranch taken addr) =
      path pc (predicted (jalrBpred (fetchBpred isBranch taken addr) ras pop flush stall)) := by
  unfold jalrBpred
  cases jalrJumps (fetchBpred isBranch taken addr) ras pop flush stall with
  | true => rfl
  | false => cases isBranch <;> cases taken <;> rfl

theorem jal_path (pc : BitVec 64) (isBranch taken : Bool) (addr jump : BitVec 64) :
    (if jalJumps (fetchBpred isBranch taken addr) jump false then jump else bpOrPc4 pc isBranch taken addr) = jump := by
  split
  · rfl
  · rename_i stays
    simp only [jalJumps,fetchBpred,Bool.not_false,Bool.true_and,Bool.not_eq_true,Bool.not_eq_false',
      Bool.and_eq_true,beq_iff_eq] at stays
    obtain ⟨same,taken,branch⟩ := stays
    rw [bpOrPc4,branch,taken,same]
    rfl

end Sargantana.BranchDecoder
