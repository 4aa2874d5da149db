import Sargantana.DracPkg
import Sargantana.Lib.MExtension

-- decoder_sarg: the rows of the instructions that go to mul_unit and div_unit.
namespace Sargantana.MulDivDecoder
open DracPkg MExtension

-- The fields that the units read
structure Row where
  instrType : InstrType
  unit : FunctionalUnit
  signedOp : Bool
  op32 : Bool
  memSize : BitVec 4

-- The types that InstrType does not name, by their places in instr_type_t
def mul : InstrType := .other 78
def mulh : InstrType := .other 79
def mulhu : InstrType := .other 80
def mulhsu : InstrType := .other 81
def mulw : InstrType := .other 82

-- F7_MUL_DIV under OP_ALU. mem_size takes func3 whatever the instruction is.
def opAlu (func3 : BitVec 3) : Row :=
  let row (instrType : InstrType) (unit : FunctionalUnit) (signedOp : Bool) : Row :=
    ⟨instrType,unit,signedOp,false,func3.zeroExtend 4⟩
  match func3.toNat with
  | 0 => row mul .mul false
  | 1 => row mulh .mul false
  | 2 => row mulhsu .mul false
  | 3 => row mulhu .mul false
  | 4 => row .div .div true
  | 5 => row .divu .div false
  | 6 => row .rem .div true
  | _ => row .remu .div false

-- F7_MUL_DIV under OP_ALU_W. The rows that are missing are illegal instructions.
def opAluW (func3 : BitVec 3) : Option Row :=
  let row (instrType : InstrType) (unit : FunctionalUnit) (signedOp : Bool) : Option Row :=
    some ⟨instrType,unit,signedOp,true,func3.zeroExtend 4⟩
  match func3.toNat with
  | 0 => row mulw .mul false
  | 4 => row .divw .div true
  | 5 => row .divuw .div false
  | 6 => row .remw .div true
  | 7 => row .remuw .div false
  | _ => none

def decode (w : Bool) (func3 : BitVec 3) : Option Row := if w then opAluW func3 else some (opAlu func3)

structure Row.Fills (row : Row) (instr : InstrEntry) : Prop where
  instrType : instr.instrType = row.instrType
  unit : instr.unit = row.unit
  signedOp : instr.signedOp = row.signedOp
  op32 : instr.op32 = row.op32
  memSize : instr.memSize = row.memSize

-- The instruction is the one that the decoder makes of the operation, or of its W form.
def Decoded (w : Bool) (m : Op) (instr : InstrEntry) : Prop := ∃ row, decode w m.func3 = some row ∧ row.Fills instr

def owed (w : Bool) (m : Op) (x y : BitVec 64) : BitVec 64 := if w then m.word x y else m.value x y

theorem Decoded.op32 {w : Bool} {m : Op} {instr : InstrEntry} (decoded : Decoded w m instr) : instr.op32 = w := by
  obtain ⟨row,found,fills⟩ := decoded
  rw [fills.op32]
  cases w <;> cases m <;> cases found <;> rfl

theorem Decoded.signedOp {w : Bool} {m : Op} {instr : InstrEntry} (decoded : Decoded w m instr) :
    instr.signedOp = m.signed := by
  obtain ⟨row,found,fills⟩ := decoded
  rw [fills.signedOp]
  cases w <;> cases m <;> cases found <;> rfl

theorem Decoded.unit {w : Bool} {m : Op} {instr : InstrEntry} (decoded : Decoded w m instr) :
    instr.unit = if m.divides then .div else .mul := by
  obtain ⟨row,found,fills⟩ := decoded
  rw [fills.unit]
  cases w <;> cases m <;> cases found <;> rfl

theorem Decoded.memSize {w : Bool} {m : Op} {instr : InstrEntry} (decoded : Decoded w m instr) :
    instr.memSize.truncate 3 = m.func3 := by
  obtain ⟨row,found,fills⟩ := decoded
  rw [fills.memSize]
  cases w <;> cases m <;> cases found <;> rfl

end Sargantana.MulDivDecoder
