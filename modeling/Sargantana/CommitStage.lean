import Sargantana.RenameStage
import Sargantana.GraduationRefinement

-- The commit stage: the graduation list, csr_interface, the commit part of control_unit, the commit
-- rename tables, and the registers of the CSR file that retirement itself changes.
namespace Sargantana.CommitStage

open DracPkg GraduationList CsrInterface RenameBank RenameStage ControlUnit StateMachine Renaming

-- Of gl_instruction_t: rd, rs1, and what the instruction holds in each register class
structure Carried where
  rd : Reg
  rs1 : Reg
  destination : RegClass → Destination

-- csr_cmd_t without CSR_CMD_NOPE
inductive CsrCmd where
  | write | rw | read | set | clear | sys | vsetvl | vsetvlmax | vleff
  deriving DecidableEq

-- A command of req_cpu_csr_o; none is CSR_CMD_NOPE.
structure Request where
  addr : BitVec 12
  cmd : CsrCmd
  data : BitVec 64
  deriving DecidableEq

inductive Context where
  | off | initial | clean | dirty
  deriving DecidableEq

structure Csr where
  fflags : BitVec 5
  vxsat : Bool
  fs : Context
  vs : Context
  instret : BitVec 64
  deriving DecidableEq

-- `csrTrap` is csr_exception or the csr_eret of a return, `debugTrap` is debug_ebreak, halt_ack or the
-- csr_eret of a resume, and `inhibit` is mcountinhibit of instret. The graduation list takes its
-- read_head and flush_commit from the stage itself, the rename banks their commit ports.
structure Input (ports writebacks : RegClass → Nat) where
  gl : GraduationList.Input Carried
  csr : CsrInterface.Input
  resultGl : BitVec 64
  csrAddrGl : BitVec 12
  vsetvlVtype : BitVec 9
  halted : Bool
  csrTrap : Bool
  debugTrap : Bool
  inhibit : Bool
  rename : (c : RegClass) → RenameBank.Input (ports c) (writebacks c)

structure State (ports : RegClass → Nat) where
  gl : GraduationList.State Carried
  csr : Csr
  bank : (c : RegClass) → Bank (ports c)
  exceptionEnable : Bool

variable {ports writebacks : RegClass → Nat}

abbrev Pair := Fin 2 → Option (GraduationList.Entry Carried)

section Outputs

variable (i : Input ports writebacks)

def command (e : GraduationList.Entry Carried) : Request :=
  let rd := e.instr.carried.rd
  let rs1 := e.instr.carried.rs1
  let immediate : BitVec 64 := BitVec.ofNat 64 rs1.val
  let vl : BitVec 64 := BitVec.ofNat 64 e.status.vl
  match e.instr.instrType with
  | .csrrw => ⟨i.csrAddrGl,if rd = 0 then .write else .rw,i.resultGl⟩
  | .csrrs => ⟨i.csrAddrGl,if rs1 = 0 then .read else .set,i.resultGl⟩
  | .csrrc => ⟨i.csrAddrGl,if rs1 = 0 then .read else .clear,i.resultGl⟩
  | .csrrwi => ⟨i.csrAddrGl,if rd = 0 then .write else .rw,immediate⟩
  | .csrrsi => ⟨i.csrAddrGl,if rs1 = 0 then .read else .set,immediate⟩
  | .csrrci => ⟨i.csrAddrGl,if rs1 = 0 then .read else .clear,immediate⟩
  | .vsetvli | .vsetvl =>
      ⟨i.vsetvlVtype.setWidth 12,if rs1 = 0 then .vsetvlmax else .vsetvl,if rs1 = 0 ∧ rd = 0 then 1 else vl⟩
  | .vsetivli => ⟨i.vsetvlVtype.setWidth 12,.vsetvl,vl⟩
  | .vleff => ⟨i.csrAddrGl,.vleff,BitVec.ofNat 64 i.csr.vleffVl⟩
  | _ => ⟨i.csrAddrGl,.sys,0⟩

def request (e : GraduationList.Entry Carried) : Option Request := if csrEna i.csr e then some (command i e) else none

-- commit_xcpt of a valid instruction
def xcpt (presented : Pair) : Bool := (presented 0).any fun e => e.instr.valid && commitXcpt i.csr e

def retire (presented : Pair) : Fin 2 → Bool := retireInst i.csr presented

-- csr_retire is retire_inst_o, but for an instruction with an exception.
def csrRetire (presented : Pair) (port : Fin 2) : Bool := retire i presented port && !xcpt i presented

def fpStatus (presented : Pair) : BitVec 5 :=
  (if retire i presented 0 then ((presented 0).map (·.status.fpStatus)).getD 0 else 0) |||
    (if retire i presented 1 then ((presented 1).map (·.status.fpStatus)).getD 0 else 0)

def anyRetired (presented : Pair) (test : GraduationList.Entry Carried → Bool) : Bool :=
  (retire i presented 0 && (presented 0).any test) || (retire i presented 1 && (presented 1).any test)

def fregModified (presented : Pair) : Bool := anyRetired i presented (·.instr.carried.destination .fp |>.we)

def vregModified (presented : Pair) : Bool := anyRetired i presented (·.instr.carried.destination .simd |>.we)

def ecallTaken (e : GraduationList.Entry Carried) : Bool :=
  !i.halted && (e.instr.instrType == .ecall || e.instr.instrType == .mrts || e.instr.instrType == .ebreak)

-- The causes of exception_enable_d that come from the instruction itself
def traps (presented : Pair) : Bool :=
  xcpt i presented || i.csrTrap || (presented 0).any fun e => e.instr.valid && ecallTaken i e

def exceptionEnableD (exceptionEnable : Bool) (presented : Pair) : Bool :=
  exceptionEnableNext exceptionEnable (traps i presented || i.debugTrap)

-- commit_store_or_amo and the index that goes with it to the memory unit
def storeAck (head : GlIndex) (presented : Pair) : Option GlIndex :=
  if (presented 0).any commitStoreOrAmo then some head
  else if (presented 1).any commitStoreOrAmo && !(presented 0).any (·.status.exValid) then some (head + 1)
  else none

-- The CSR file: fcsr, vcsr and instret take what retires, then a command writes, and the dirty
-- marks come last.
def accrue (presented : Pair) (c : Csr) : Csr :=
  { c with
    fflags := if csrRetire i presented 0 || csrRetire i presented 1 then fpStatus i presented ||| c.fflags else c.fflags
    vxsat := c.vxsat || anyRetired i presented (·.status.vsOvf)
    instret :=
      if !(xcpt i presented && !i.halted) && !i.inhibit then
        c.instret + BitVec.ofNat 64 ((csrRetire i presented 0).toNat + (csrRetire i presented 1).toNat)
      else c.instret }

def vsetvlInsn (r : Request) : Bool := r.cmd == .vsetvl || r.cmd == .vsetvlmax

def mark (modified : Bool) (before after : Context) : Context := if modified && before != .off then .dirty else after

-- `execute` is what a command does to these registers: it sees them before the cycle and as they
-- come out of `accrue`.
def csrNext (execute : Request → Csr → Csr → Csr) (presented : Pair) (c : Csr) : Csr :=
  let wanted := (presented 0).bind (request i)
  let written := match wanted with
    | some r => execute r c (accrue i presented c)
    | none => accrue i presented c
  { written with
    fs := mark (fregModified i presented) c.fs written.fs
    vs := mark (wanted.any vsetvlInsn || vregModified i presented) c.vs written.vs }

def toCommit (presented : Pair) (c : RegClass) (port : Fin 2) : Destination :=
  match presented port with
  | some e => e.instr.carried.destination c
  | none => idle

def bankInput (exceptionEnable : Bool) (presented : Pair) (c : RegClass) : RenameBank.Input (ports c) (writebacks c) :=
  { i.rename c with
    command := {(i.rename c).command with recoverCommit := exceptionEnable}
    commitUpdate := fun port => enableCommitUpdate (retire i presented port) (toCommit presented c port).we
      (exceptionEnableD i exceptionEnable presented)
    commit := toCommit presented c }

end Outputs

def presented (s : State ports) (i : Input ports writebacks) : Pair :=
  instructionO s.gl {i.gl with flushCommit := s.exceptionEnable}

def glInput (s : State ports) (i : Input ports writebacks) : GraduationList.Input Carried :=
  { i.gl with
    readHead := retire i (presented s i)
    flushCommit := s.exceptionEnable }

def next (execute : Request → Csr → Csr → Csr) (s : State ports) (i : Input ports writebacks) : State ports where
  gl := GraduationList.next s.gl (glInput s i)
  csr := csrNext i execute (presented s i) s.csr
  bank := fun c => RenameBank.next (hardwiredZero c) (s.bank c) (bankInput i s.exceptionEnable (presented s i) c)
  exceptionEnable := exceptionEnableD i s.exceptionEnable (presented s i)

def zero : Cell Carried := ⟨⟨⟨false,.other 0,.notMem,false,⟨0,0,fun _ => idle⟩⟩,⟨false,0,false,0,0,0⟩⟩,false⟩

-- mstatus comes out of reset with VS dirty and FS off.
def reset : State ports := ⟨GraduationList.reset zero,⟨0,false,.off,.dirty,0⟩,fun _ => RenameBank.reset,false⟩

-- What the rest of the core promises: the decoder marks every MRTS as serialising, the memory unit
-- has shortened only a VLEFF that has elements, and the CSR file traps only in answer to a command.
structure Allowed (s : State ports) (i : Input ports writebacks) : Prop where
  decoded : i.gl.instruction.instr.instrType = .mrts → i.gl.instruction.instr.stallCsrFence = true
  trimmed : i.csr.vleffVl ≠ 0 → ∀ port e, presented s i port = some e → e.instr.instrType = .vleff → e.instr.stallCsrFence = true
  answered : i.csrTrap = true → ((presented s i 0).bind (request i)).isSome = true

-- exception_gl_i is the exception of the graduation list itself.
def wired (s : State ports) (i : Input ports writebacks) : Input ports writebacks :=
  { i with csr := {i.csr with exception := s.gl.exception} }

def machine (execute : Request → Csr → Csr → Csr) : Machine (State ports) (Input ports writebacks) where
  initial := reset
  allowed := fun s i => Allowed s (wired s i)
  step := fun s i => next execute s (wired s i)

end Sargantana.CommitStage
