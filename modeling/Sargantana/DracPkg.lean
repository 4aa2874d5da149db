import Mathlib.Algebra.Group.Fin.Basic
import Mathlib.Algebra.GroupWithZero.Nat

-- Widths and constants of drac_pkg. Machine words are Fin of their range: their
-- sums wrap as the trunc_* functions of the modules do.
namespace Sargantana.DracPkg

-- The ranges of the machine words are positive.
instance neZeroTwo : NeZero 2 := ⟨by decide⟩
instance neZeroFour : NeZero 4 := ⟨by decide⟩
instance neZeroEight : NeZero 8 := ⟨by decide⟩
instance neZeroSixteen : NeZero 16 := ⟨by decide⟩
instance neZeroThirtyTwo : NeZero 32 := ⟨by decide⟩
instance neZeroSixtyFour : NeZero 64 := ⟨by decide⟩
instance neZeroTags : NeZero 128 := ⟨by decide⟩

-- reg_t, phreg_t (phvreg_t and phfreg_t have the same width) and checkpoint_ptr
abbrev Reg := Fin 32
abbrev Phreg := Fin 64
abbrev CheckpointPtr := Fin 4

-- NUM_PHISICAL_REGISTERS - NUM_ISA_REGISTERS, for each of the three classes
abbrev FreeListEntry := Fin 32

def numCheckpoints : Nat := 4

def bit [NeZero n] (b : Bool) : Fin n := Fin.ofNat n b.toNat

@[simp] theorem bit_false [NeZero n] : (bit false : Fin n) = 0 := rfl
@[simp] theorem bit_true [NeZero n] : (bit true : Fin n) = 1 := rfl

theorem count_val {a : Fin 16} {up down : Bool} (small : a.val ≤ 8) (within : down.toNat ≤ a.val + up.toNat) :
    (a + bit up - bit down).val = a.val + up.toNat - down.toNat := by
  cases up <;> cases down <;> simp only [bit_false,bit_true,Bool.toNat_false,Bool.toNat_true] at within ⊢ <;> omega

abbrev GlIndex := Fin 32

inductive MemType where
  | notMem | load | store | amo
  deriving DecidableEq, Repr

-- The instruction types that the modelled modules tell apart.
inductive InstrType where
  | ecall | sret | mret | uret | wfi | ebreak | fence | sfenceVma | fenceI | mrts
  | csrrw | csrrs | csrrc | csrrwi | csrrsi | csrrci | vsetvl | vsetvli | vsetivli
  | vse | vsm | vsse | vsxe | vs1r | vlm | vl1r | vleff | amoLrw | amoLrd
  | div | divu | divw | divuw | rem | remu | remw | remuw
  | vwmul | vwmulu | vwmulsu | vmul | vmulh | vmulhu | vmulhsu
  | vmadd | vnmsub | vmacc | vnmsac | vwmacc | vwmaccu | vwmaccus | vwmaccsu | vsmul
  | vredsum | vredand | vredor | vredxor | vredmaxu | vredmax | vredminu | vredmin | vwredsum | vwredsumu
  | vdiv | vdivu | vrem | vremu
  | vcnt | vmvXS | vpopc | vfirst
  | other (code : Nat)
  deriving DecidableEq, Repr

inductive FunctionalUnit where
  | alu | div | mul | branch | mem | simd | fpu | control | system
  deriving DecidableEq, Repr

structure Exception where
  valid : Bool
  cause : Nat
  origin : Nat
  deriving DecidableEq, Repr

def Exception.none : Exception := ⟨false,0,0⟩

-- rr_exe_mem_instr_t. `carried` stands for the fields that the memory pipeline
-- only passes on: the operands, registers and vector offsets.
structure MemInstr (α : Type) where
  valid : Bool
  instrType : InstrType
  memType : MemType
  memSize : BitVec 4
  dataRs1 : BitVec 64
  sew : Fin 4
  vl : Fin 32
  isAmoOrStore : Bool
  isAmo : Bool
  isStore : Bool
  translated : Bool
  ex : Exception
  glIndex : GlIndex
  vmisalignXcpt : Bool
  velemId : Fin 16
  loadMask : BitVec 16
  velemIncr : Fin 32
  carried : α
  deriving DecidableEq

-- An instruction of zeros.
def MemInstr.zero [Inhabited α] : MemInstr α :=
  ⟨false,.other 0,.notMem,0,0,0,0,false,false,false,false,Exception.none,0,false,0,0,0,default⟩

-- The fields of instr_entry_t that the issue logic and the execution units read.
structure InstrEntry where
  valid : Bool
  unit : FunctionalUnit
  instrType : InstrType
  op32 : Bool
  usePc : Bool
  useImm : Bool
  signedOp : Bool
  pc : BitVec 64
  imm : BitVec 64
  memSize : BitVec 4
  rd : Reg
  regfileWe : Bool
  vregfileWe : Bool
  fregfileWe : Bool
  isOpvx : Bool
  sew : Fin 4
  vl : Fin 32
  deriving DecidableEq

def InstrEntry.zero : InstrEntry :=
  ⟨false,.alu,.other 0,false,false,false,false,0,0,0,0,false,false,false,false,0,0⟩

-- rr_exe_instr_t. `carried` stands for the fields that the units only pass on: the
-- prediction, the checkpoint and what is left of the vector operands.
structure RrExeInstr (α : Type) where
  instr : InstrEntry
  dataRs1 : BitVec 64
  dataRs2 : BitVec 64
  dataVs1 : BitVec 128
  dataVs2 : BitVec 128
  rdy1 : Bool
  rdy2 : Bool
  frdy1 : Bool
  frdy2 : Bool
  frdy3 : Bool
  vrdy1 : Bool
  vrdy2 : Bool
  vrdyOldVd : Bool
  vrdym : Bool
  dataRs3 : BitVec 64
  prd : Phreg
  pvd : Phreg
  fprd : Phreg
  glIndex : GlIndex
  carried : α
  deriving DecidableEq

structure ArithInstr (α : Type) where
  instr : InstrEntry
  dataRs1 : BitVec 64
  dataRs2 : BitVec 64
  prd : Phreg
  glIndex : GlIndex
  carried : α
  deriving DecidableEq

-- rr_exe_fpu_instr_t; a result overwrites data_rs3.
structure FpuInstr (α : Type) where
  instr : InstrEntry
  dataRs1 : BitVec 64
  dataRs2 : BitVec 64
  dataRs3 : BitVec 64
  fprd : Phreg
  glIndex : GlIndex
  carried : α
  deriving DecidableEq

structure SimdInstr (α : Type) where
  instr : InstrEntry
  dataRs1 : BitVec 64
  dataVs1 : BitVec 128
  dataVs2 : BitVec 128
  prd : Phreg
  pvd : Phreg
  glIndex : GlIndex
  exeStages : Nat
  carried : α
  deriving DecidableEq

-- exe_wb_scalar_instr_t, less the fields that the arithmetic units set to zero.
structure ScalarWb (α : Type) where
  valid : Bool
  pc : BitVec 64
  instrType : InstrType
  rd : Reg
  regfileWe : Bool
  csrAddr : BitVec 12
  prd : Phreg
  glIndex : GlIndex
  resultPc : BitVec 64
  result : BitVec 64
  carried : α
  deriving DecidableEq

end Sargantana.DracPkg
