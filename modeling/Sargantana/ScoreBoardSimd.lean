import Sargantana.DracPkg

-- score_board_simd: how many stages a SIMD instruction takes, and whether its last one
-- is taken already.
namespace Sargantana.ScoreBoardSimd
open DracPkg

variable {α : Type}

def isVmul : InstrType → Bool
  | .vwmul | .vwmulu | .vwmulsu | .vmul | .vmulh | .vmulhu | .vmulhsu => true
  | _ => false

def isVmaddVsmul : InstrType → Bool
  | .vmadd | .vnmsub | .vmacc | .vnmsac | .vwmacc | .vwmaccu | .vwmaccus | .vwmaccsu | .vsmul => true
  | _ => false

def isVred : InstrType → Bool
  | .vredsum | .vredand | .vredor | .vredxor | .vredmaxu | .vredmax | .vredminu | .vredmin | .vwredsum | .vwredsumu => true
  | _ => false

def isVdiv : InstrType → Bool
  | .vdiv | .vdivu | .vrem | .vremu => true
  | _ => false

-- The operands of the last division
structure PreviousDiv where
  rs1 : BitVec 64
  vs1 : BitVec 128
  vs2 : BitVec 128
  isOpvx : Bool
  instrType : InstrType
  deriving DecidableEq

def PreviousDiv.reset : PreviousDiv := ⟨0,0,0,false,.other 0⟩

def PreviousDiv.of (instruction : SimdInstr α) : PreviousDiv :=
  ⟨instruction.dataRs1,instruction.dataVs1,instruction.dataVs2,instruction.instr.isOpvx,instruction.instr.instrType⟩

-- A quotient and a remainder of the same kind come out of one division.
def pairs (previous current : InstrType) : Bool :=
  previous == current || (previous == .vdiv && current == .vrem) || (previous == .vrem && current == .vdiv)
    || (previous == .vdivu && current == .vremu) || (previous == .vremu && current == .vdivu)

def isDiv1Clock (previous : PreviousDiv) (instruction : SimdInstr α) : Bool :=
  if previous.isOpvx != instruction.instr.isOpvx then false
  else if pairs previous.instrType instruction.instr.instrType then
    (if previous.isOpvx then previous.vs2 == instruction.dataVs2 && previous.rs1 == instruction.dataRs1
      else previous.vs2 == instruction.dataVs2 && previous.vs1 == instruction.dataVs1)
  else false

-- simd_exe_stages, with VLEN = 128. The scoreboard asks for a division of one clock under
-- ready_i, simd_unit under the valid bit of the instruction.
def stages (previous : PreviousDiv) (asks : Bool) (instruction : SimdInstr α) : Nat :=
  let sew := instruction.instr.sew
  if isVmul instruction.instr.instrType then (if sew = 3 then 3 else 2)
  else if isVmaddVsmul instruction.instr.instrType then (if sew = 3 then 4 else 3)
  else if isVred instruction.instr.instrType then
    (if sew = 0 then 6 else if sew = 1 then 5 else if sew = 2 then 4 else 3)
  else if isVdiv instruction.instr.instrType then (if isDiv1Clock previous instruction && asks then 1 else 32)
  else 1

-- simd_pipe[i] is row i - 2. The rows have five cells, the pipe of the divisions has 31;
-- a cell that is not there reads as false.
structure State where
  simdPipe : Fin 5 → Nat → Bool
  divisionPipe : Nat → Bool
  previousDiv : PreviousDiv

def reset : State := ⟨fun _ _ => false,fun _ => false,.reset⟩

def simdExeStages (s : State) (ready : Bool) (instruction : SimdInstr α) : Nat :=
  stages s.previousDiv ready instruction

-- The last stage of the instruction is the one of another in flight, or a division is in
-- flight before another division.
def stallSimd (s : State) (ready : Bool) (instruction : SimdInstr α) : Bool :=
  let taken := simdExeStages s ready instruction
  (List.finRange 5).any (fun row => decide (taken < row.val + 2) && s.simdPipe row (row.val + 2 - taken - 1))
    || s.divisionPipe ((32 - taken + 31) % 32)
    || isVdiv instruction.instr.instrType && (List.range 31).any s.divisionPipe

-- A reservation: ready_i is not gated by kill_i.
def reserves (s : State) (ready : Bool) (instruction : SimdInstr α) : Bool :=
  !stallSimd s ready instruction && ready && instruction.instr.unit == .simd

-- flush_i clears the pipes of the short instructions, not the one of the divisions.
def next (s : State) (flush ready : Bool) (instruction : SimdInstr α) : State where
  simdPipe row
    | 0 => !flush && simdExeStages s ready instruction == row.val + 2 && reserves s ready instruction
    | cell + 1 => !flush && decide (cell + 1 < 5) && s.simdPipe row cell
  divisionPipe
    | 0 => isVdiv instruction.instr.instrType && simdExeStages s ready instruction == 32 && reserves s ready instruction
    | cell + 1 => decide (cell + 1 < 31) && s.divisionPipe cell
  previousDiv :=
    if isVdiv instruction.instr.instrType && !stallSimd s ready instruction && ready then .of instruction
    else s.previousDiv

end Sargantana.ScoreBoardSimd
