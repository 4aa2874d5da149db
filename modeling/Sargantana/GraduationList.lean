import Sargantana.DracPkg
import Sargantana.Lib.Window

namespace Sargantana.GraduationList
open DracPkg Window

-- The fields of gl_instruction_t that stay as they were pushed. `carried` stands
-- for those that are only passed on: pc, the registers and the write enables.
structure Instr (α : Type) where
  valid : Bool
  instrType : InstrType
  memType : MemType
  stallCsrFence : Bool
  carried : α
  deriving DecidableEq

-- The fields that a writeback rewrites.
structure Status where
  exValid : Bool
  fpStatus : BitVec 5
  vsOvf : Bool
  vl : Nat
  sew : Fin 4
  lmul : Fin 8
  deriving DecidableEq

structure Entry (α : Type) where
  instr : Instr α
  status : Status

-- One cell: an element of entries_q with its valid_bit_q.
structure Cell (α : Type) where
  entry : Entry α
  validBit : Bool

structure State (α : Type) where
  head : GlIndex
  tail : GlIndex
  num : Fin 64
  cells : GlIndex → Cell α
  exception : Exception
  exceptionIndex : GlIndex

inductive Port where
  | scalar | simd | fp
  deriving DecidableEq, Repr

-- One writeback port; `data` is gl_wb_data_t without the fields that only
-- result_o and the simulation log read.
structure Writeback where
  port : Port
  enable : Bool
  index : GlIndex
  exception : Exception
  data : Status

structure Input (α : Type) where
  instruction : Entry α
  isVectorVl0 : Bool
  ex : Exception
  readHead : Fin 2 → Bool
  -- the scalar ports, then the SIMD ports, then the FP ports
  writebacks : List Writeback
  exFromExe : Exception
  exFromExeIndex : GlIndex
  flush : Bool
  flushIndex : GlIndex
  flushCommit : Bool

variable {α : Type}

def reset (zero : Cell α) : State α := ⟨0,0,0,fun _ => zero,Exception.none,0⟩

def writeEnable (s : State α) (i : Input α) : Bool :=
  i.instruction.instr.valid && decide (s.num.val < 31) && !i.flush && !i.flushCommit

def readEnable (i : Input α) : Nat := (i.readHead 1).toNat + (i.readHead 0).toNat

theorem readEnable_le (i : Input α) : readEnable i ≤ 2 := by
  have one := Bool.toNat_le (i.readHead 0)
  have two := Bool.toNat_le (i.readHead 1)
  unfold readEnable
  omega

def isStoreOrAmo (e : Entry α) : Bool :=
  e.instr.memType == .store || e.instr.memType == .amo || e.instr.instrType == .vsse || e.instr.instrType == .vsxe

-- What a port rewrites. ex_valid is taken from the entry before the cycle.
def Status.writeBack (port : Port) (w : Writeback) (before now : Status) : Status :=
  let marked := {now with exValid := w.exception.valid || before.exValid}
  match port with
  | .scalar => {marked with fpStatus := w.data.fpStatus, vl := w.data.vl, sew := w.data.sew, lmul := w.data.lmul}
  | .simd => {marked with vsOvf := w.data.vsOvf, vl := w.data.vl, sew := w.data.sew, lmul := w.data.lmul}
  | .fp => {marked with fpStatus := w.data.fpStatus, lmul := w.data.lmul}

def writeBack (before now : GlIndex → Cell α) (w : Writeback) : GlIndex → Cell α :=
  if w.enable then
    Function.update now w.index ⟨⟨(now w.index).entry.instr,
      Status.writeBack w.port w (before w.index).entry.status (now w.index).entry.status⟩,true⟩
  else now

def pushed (s : State α) (i : Input α) : GlIndex → Cell α :=
  if writeEnable s i then Function.update s.cells s.tail
    ⟨i.instruction,isStoreOrAmo i.instruction || i.instruction.status.exValid || i.isVectorVl0⟩
  else s.cells

def nextCells (s : State α) (i : Input α) : GlIndex → Cell α :=
  i.writebacks.foldl (writeBack s.cells) (pushed s i)

-- The comparison of ring indices that the exception logic makes twice.
def older (head index other : GlIndex) : Bool :=
  (decide (head ≤ index) && decide (index < other) && decide (head < other)) ||
  (decide (head ≤ index) && decide (other < index) && decide (other < head)) ||
  (decide (index < head) && decide (index < other) && decide (other < head))

def nextException (s : State α) (i : Input α) : Exception × GlIndex :=
  if !i.flushCommit && i.exFromExe.valid && !s.exception.valid then ⟨i.exFromExe,i.exFromExeIndex⟩
  else if !i.flushCommit && i.exFromExe.valid && s.exception.valid &&
      older s.head i.exFromExeIndex s.exceptionIndex then ⟨i.exFromExe,i.exFromExeIndex⟩
  else if i.flushCommit || (i.flush && s.exception.valid && older s.head i.flushIndex s.exceptionIndex) then
    ⟨Exception.none,0⟩
  else if writeEnable s i && i.instruction.status.exValid && !s.exception.valid && !i.exFromExe.valid then
    ⟨i.ex,s.tail⟩
  else if writeEnable s i && !s.exception.valid && !i.exFromExe.valid then ⟨i.ex,s.exceptionIndex⟩
  else ⟨s.exception,s.exceptionIndex⟩

-- The sums of the flush are five bits wide, the difference is six bits wide.
def flushedNum (s : State α) (flushIndex : GlIndex) (read : Nat) : Fin 64 :=
  let last := flushIndex + 1
  let first := shift s.head read
  if first ≤ last ∧ s.num ≠ 32 then Fin.ofNat 64 (last.val + 64 - first.val)
  else Fin.ofNat 64 (32 + 64 - first.val + last.val)

def next (s : State α) (i : Input α) : State α :=
  let read := readEnable i
  let updated : State α := {s with
    cells := nextCells s i
    exception := (nextException s i).1
    exceptionIndex := (nextException s i).2}
  if i.flushCommit then {updated with head := 0, tail := 0, num := 0}
  else if i.flush && decide (0 < s.num) then {updated with
    tail := i.flushIndex + 1
    head := shift s.head read
    num := flushedNum s i.flushIndex read}
  else {updated with
    tail := s.tail + bit (writeEnable s i)
    head := shift s.head read
    num := s.num + bit (writeEnable s i) - Fin.ofNat 64 read}

-- instruction_o; an output of zeros is none.
def instructionO (s : State α) (i : Input α) (port : Fin 2) : Option (Entry α) :=
  let first := (s.cells s.head).validBit
  let second := (s.cells (s.head + 1)).validBit
  if i.flushCommit then none
  else if (decide (s.num = 1) && first) || (decide (1 < s.num) && first && !second) then
    if port = 0 then some (s.cells s.head).entry else none
  else if decide (1 < s.num) && first && second then
    if port = 0 then some (s.cells s.head).entry else some (s.cells (s.head + 1)).entry
  else none

def full (s : State α) : Bool := decide (s.num.val = 31)
def empty (s : State α) : Bool := decide (s.num = 0)

end Sargantana.GraduationList
