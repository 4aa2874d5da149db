import Sargantana.ScoreBoardSimd

-- simd_unit: which instruction is in which stage, and which one is written back. The
-- arithmetic of the lanes is not here.
namespace Sargantana.SimdUnit
open DracPkg ScoreBoardSimd

variable {α : Type}

-- simd_pipe[i] is row i - 2; the cells of an entry that is not valid are never read.
structure State (α : Type) where
  simdPipe : Fin 5 → Nat → Option (SimdInstr α)
  divisionPipe : Nat → Bool
  divisionInstruction : SimdInstr α
  previousDiv : PreviousDiv

def simdExeStages (s : State α) (instruction : SimdInstr α) : Nat :=
  stages s.previousDiv instruction.instr.valid instruction

def startsDivision (s : State α) (instruction : SimdInstr α) : Bool :=
  isVdiv instruction.instr.instrType && simdExeStages s instruction == 32 && instruction.instr.valid

-- The divisions take no part in a flush.
def next (s : State α) (flush : Bool) (instruction : SimdInstr α) : State α where
  simdPipe row
    | 0 =>
      if !flush && simdExeStages s instruction == row.val + 2 && instruction.instr.valid then some instruction else none
    | cell + 1 => if !flush && decide (cell + 1 < row.val + 2) then s.simdPipe row cell else none
  divisionPipe
    | 0 => startsDivision s instruction
    | cell + 1 => decide (cell + 1 < 31) && s.divisionPipe cell
  divisionInstruction := if startsDivision s instruction then instruction else s.divisionInstruction
  previousDiv :=
    if isVdiv instruction.instr.instrType && instruction.instr.valid then .of instruction else s.previousDiv

-- instr_score_board and valid_found: the first pipe that has an instruction in its last
-- stage, and the divisions after them.
def instrScoreBoard (s : State α) : Option (SimdInstr α) :=
  ((List.finRange 5).findSome? fun row => s.simdPipe row row.val).or
    (if s.divisionPipe 30 then some s.divisionInstruction else none)

section
variable [Inhabited α]

def instrZero : SimdInstr α := ⟨InstrEntry.zero,0,0,0,0,0,0,0,default⟩

def reset : State α := ⟨fun _ _ => none,fun _ => false,instrZero,.reset⟩

-- The instruction that comes in, when it has one stage
def incoming (instruction : SimdInstr α) : SimdInstr α := if instruction.exeStages == 1 then instruction else instrZero

def instrToOut (s : State α) (instruction : SimdInstr α) : SimdInstr α :=
  match instrScoreBoard s with
  | some out => if out.instr.vl != 0 then out else incoming instruction
  | none => incoming instruction

-- instruction_scalar_o.valid and instruction_simd_o.valid
def scalarValid (s : State α) (instruction : SimdInstr α) : Bool :=
  (instrToOut s instruction).instr.valid && (instrToOut s instruction).instr.unit == .simd
    && (instrToOut s instruction).instr.regfileWe

def simdValid (s : State α) (instruction : SimdInstr α) : Bool :=
  (instrToOut s instruction).instr.valid && (instrToOut s instruction).instr.unit == .simd
    && (instrToOut s instruction).instr.vregfileWe

end

end Sargantana.SimdUnit
