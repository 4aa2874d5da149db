import Sargantana.DracPkg
import Sargantana.ScoreBoardScalar

-- exe_stage: when the instruction of the register read stage is issued, and to which unit.
namespace Sargantana.ExeStage
open DracPkg

variable {α : Type}

structure Grants where
  readyMul32 : Bool
  readyMul64 : Bool
  readyDiv32 : Bool
  readyDivUnit : Bool
  stallMem : Bool
  stallVagu : Bool
  stallFpu : Bool
  stallSimd : Bool
  deriving DecidableEq

def ready (from_rr : RrExeInstr α) : Bool :=
  from_rr.instr.valid && ((from_rr.rdy1 || from_rr.instr.usePc) && (from_rr.rdy2 || from_rr.instr.useImm)
    && from_rr.frdy1 && from_rr.frdy2 && from_rr.frdy3 && from_rr.vrdy1 && from_rr.vrdy2
    && from_rr.vrdyOldVd && from_rr.vrdym)

structure Issue where
  stallInt : Bool
  stallSimdInt : Bool
  stallFpuInt : Bool
  sets : ScoreBoardScalar.Sets
  deriving DecidableEq

def Issue.none : Issue := ⟨false,false,false,⟨false,false,false,false⟩⟩

def issue (grants : Grants) (from_rr : RrExeInstr α) (kill : Bool) : Issue :=
  let ready := ready from_rr
  if from_rr.instr.valid && !kill then
    match from_rr.instr.unit with
    | .div =>
      if from_rr.instr.op32 then
        { Issue.none with
          stallInt := !ready || !grants.readyDiv32 || !grants.readyDivUnit
          sets := ⟨false,false,ready && grants.readyDiv32 && grants.readyDivUnit,false⟩ }
      else
        { Issue.none with
          stallInt := !ready || !grants.readyDivUnit
          sets := ⟨false,false,false,ready && grants.readyDivUnit⟩ }
    | .mul =>
      if from_rr.instr.op32 then
        { Issue.none with
          stallInt := !ready || !grants.readyMul32
          sets := ⟨ready && grants.readyMul32,false,false,false⟩ }
      else
        { Issue.none with
          stallInt := !ready || !grants.readyMul64
          sets := ⟨false,ready && grants.readyMul64,false,false⟩ }
    | .alu | .branch | .system => { Issue.none with stallInt := !ready }
    | .mem => { Issue.none with stallInt := grants.stallMem || grants.stallVagu || !ready }
    | .fpu => { Issue.none with stallFpuInt := grants.stallFpu, stallInt := !ready }
    | .simd => { Issue.none with stallSimdInt := grants.stallSimd, stallInt := !ready }
    | .control => Issue.none
  else Issue.none

def arithInstr (grants : Grants) (from_rr : RrExeInstr α) (kill : Bool) : ArithInstr α where
  instr :=
    if (issue grants from_rr kill).stallInt || kill then { from_rr.instr with valid := false } else from_rr.instr
  dataRs1 := if from_rr.instr.usePc then from_rr.instr.pc else from_rr.dataRs1
  dataRs2 := if from_rr.instr.useImm then from_rr.instr.imm else from_rr.dataRs2
  prd := from_rr.prd
  glIndex := from_rr.glIndex
  carried := from_rr.carried

-- simd_instr, whose valid bit the scoreboard does not read
def simdOperands (from_rr : RrExeInstr α) : SimdInstr α where
  instr := from_rr.instr
  dataRs1 := from_rr.dataRs1
  dataVs1 := from_rr.dataVs1
  dataVs2 := from_rr.dataVs2
  prd := from_rr.prd
  pvd := from_rr.pvd
  glIndex := from_rr.glIndex
  exeStages := 0
  carried := from_rr.carried

def simdIssues (grants : Grants) (from_rr : RrExeInstr α) (kill : Bool) : Bool :=
  let issue := issue grants from_rr kill
  !(issue.stallInt || kill) && !(issue.stallSimdInt || from_rr.instr.unit != .simd) && from_rr.instr.valid

def simdInstr (grants : Grants) (from_rr : RrExeInstr α) (kill : Bool) (simdExeStages : Nat) : SimdInstr α :=
  { simdOperands from_rr with
    instr := { from_rr.instr with valid := simdIssues grants from_rr kill }
    exeStages := simdExeStages }

-- fp_instr: the instruction is cleared when it is not ready; fprd is the integer register
-- for an instruction that writes one.
def fpInstr (from_rr : RrExeInstr α) (kill : Bool) : FpuInstr α where
  instr := if !ready from_rr || kill then InstrEntry.zero else from_rr.instr
  dataRs1 := if from_rr.instr.usePc then from_rr.instr.pc else from_rr.dataRs1
  dataRs2 := if from_rr.instr.useImm then from_rr.instr.imm else from_rr.dataRs2
  dataRs3 := from_rr.dataRs3
  fprd := if from_rr.instr.regfileWe then from_rr.prd else from_rr.fprd
  glIndex := from_rr.glIndex
  carried := from_rr.carried

-- The valid bit that the multiplier and the dividers see
def arithValid (grants : Grants) (from_rr : RrExeInstr α) (kill : Bool) : Bool :=
  from_rr.instr.valid && !((issue grants from_rr kill).stallInt || kill)

section
variable (grants : Grants) (from_rr : RrExeInstr α) (kill : Bool)

@[simp] theorem arithInstr_valid : (arithInstr grants from_rr kill).instr.valid = arithValid grants from_rr kill := by
  simp only [arithInstr,arithValid]
  cases (issue grants from_rr kill).stallInt || kill <;> simp

@[simp] theorem arithInstr_unit : (arithInstr grants from_rr kill).instr.unit = from_rr.instr.unit := by
  simp only [arithInstr]
  split <;> rfl

@[simp] theorem arithInstr_op32 : (arithInstr grants from_rr kill).instr.op32 = from_rr.instr.op32 := by
  simp only [arithInstr]
  split <;> rfl

-- The scoreboard is told of exactly the operations that the units accept.
theorem issue_sets : (issue grants from_rr kill).sets =
    ⟨arithValid grants from_rr kill && from_rr.instr.unit == .mul && from_rr.instr.op32,
      arithValid grants from_rr kill && from_rr.instr.unit == .mul && !from_rr.instr.op32,
      arithValid grants from_rr kill && from_rr.instr.unit == .div && from_rr.instr.op32,
      arithValid grants from_rr kill && from_rr.instr.unit == .div && !from_rr.instr.op32⟩ := by
  cases valid : from_rr.instr.valid <;> cases kill <;> cases unit : from_rr.instr.unit <;>
    cases op32 : from_rr.instr.op32 <;> simp [arithValid,issue,Issue.none,valid,unit,op32]

theorem simdIssues_eq : simdIssues grants from_rr kill =
    (from_rr.instr.unit == .simd && ready from_rr && !kill && !grants.stallSimd) := by
  have gated : ready from_rr = true → from_rr.instr.valid = true := by
    intro rdy
    unfold ready at rdy
    exact (Bool.and_eq_true_iff.mp rdy).1
  by_cases unit : from_rr.instr.unit = .simd
  · cases valid : from_rr.instr.valid <;> cases kill <;> cases rdy : ready from_rr <;>
      simp_all [simdIssues,issue,Issue.none]
  · have other : (from_rr.instr.unit == .simd) = false := by simpa using unit
    simp [simdIssues,bne,other]

theorem granted_mul (valid : arithValid grants from_rr kill = true) (unit : from_rr.instr.unit = .mul) :
    (if from_rr.instr.op32 then grants.readyMul32 else grants.readyMul64) = true := by
  cases there : from_rr.instr.valid <;> cases kill <;> cases op32 : from_rr.instr.op32 <;>
    simp_all [arithValid,issue,Issue.none]

theorem granted_div (valid : arithValid grants from_rr kill = true) (unit : from_rr.instr.unit = .div) :
    grants.readyDivUnit = true ∧ (from_rr.instr.op32 = true → grants.readyDiv32 = true) := by
  cases there : from_rr.instr.valid <;> cases kill <;> cases op32 : from_rr.instr.op32 <;>
    simp_all [arithValid,issue,Issue.none]

end

end Sargantana.ExeStage
