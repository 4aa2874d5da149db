import Sargantana.DracPkg
import Mathlib.Logic.Function.Basic

-- pending_fp_ops_queue: a ring of eight entries that hands out the tags of the floating
-- point unit and gives the results back in the order of the instructions.
namespace Sargantana.PendingFpOpsQueue
open DracPkg

variable {α : Type}

-- fpnew_pkg::status_t
abbrev Status := BitVec 5

structure Result where
  tag : Reg
  data : BitVec 64
  status : Status
  deriving DecidableEq

structure State (α : Type) where
  instructionTable : Fin 8 → FpuInstr α
  statusTable : Fin 8 → Status
  tagTable : Fin 8 → Reg
  controlBitsTable : Fin 8 → Bool
  validTable : Fin 8 → Bool
  head : Fin 8
  tail : Fin 8
  num : Fin 16
  tagInt : Reg

-- The inputs of one clock cycle
structure Input (α : Type) where
  flush : Bool
  valid : Bool
  instruction : FpuInstr α
  result : Option Result
  advanceHead : Bool

section
variable [Inhabited α]

def instrZero : FpuInstr α := ⟨InstrEntry.zero,0,0,0,0,0,default⟩

def reset : State α :=
  ⟨fun _ => instrZero,fun _ => 0,fun _ => 0,fun _ => false,fun _ => false,0,0,0,0⟩

def finished (s : State α) : Bool := decide (0 < s.num) && s.controlBitsTable s.head

def finishInstrFp (s : State α) : FpuInstr α := if finished s then s.instructionTable s.head else instrZero

def finishFpStatus (s : State α) : Status := if finished s then s.statusTable s.head else 0

end

def full (s : State α) (flush : Bool) : Bool := decide (8 ≤ s.num) || flush

def writeEnable (s : State α) (i : Input α) : Bool := i.valid && i.instruction.instr.valid && decide (s.num < 8)

def advanceHeadEnable (s : State α) (i : Input α) : Bool := i.advanceHead && decide (0 < s.num)

def taken (s : State α) (i : Input α) (j : Fin 8) : Option Result :=
  match i.result with
  | none => none
  | some result => if s.tagTable j == result.tag && s.validTable j then some result else none

-- The write goes first and a result over it, as the assignments stand in the source.
def next (s : State α) (i : Input α) : State α :=
  if i.flush then
    { s with validTable := fun _ => false, head := 0, tail := 0, num := 0, tagInt := 0 }
  else
    let write := writeEnable s i
    let advance := advanceHeadEnable s i
    { instructionTable := fun j =>
        let base := if write && j == s.tail then i.instruction else s.instructionTable j
        match taken s i j with
        | none => base
        | some result => { base with dataRs3 := result.data }
      statusTable := fun j =>
        match taken s i j with
        | none => s.statusTable j
        | some result => result.status
      tagTable := fun j => if write && j == s.tail then s.tagInt else s.tagTable j
      controlBitsTable := fun j =>
        match taken s i j with
        | none => if write && j == s.tail then false else s.controlBitsTable j
        | some _ => true
      validTable := fun j =>
        if advance && j == s.head then false else if write && j == s.tail then true else s.validTable j
      head := s.head + bit advance
      tail := s.tail + bit write
      num := s.num + bit write - bit advance
      tagInt := s.tagInt + bit write }

end Sargantana.PendingFpOpsQueue
