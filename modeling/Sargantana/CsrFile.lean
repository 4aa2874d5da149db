import Sargantana.CsrBsc
import Sargantana.Lib.StateMachine

-- csr_bsc: the trap, interrupt and delegation registers around those of CsrBsc, with the accesses to them.
namespace Sargantana.CsrFile

open CsrBsc

@[ext] structure File extends State where
  mtvecRstLoad : Bool
  mtvec : BitVec 64
  mip : BitVec 64
  mie : BitVec 64
  mcounteren : BitVec 32
  mcountinhibit : BitVec 32
  mscratch : BitVec 64
  mepc : BitVec 64
  mcause : BitVec 64
  mtval : BitVec 64
  menvcfg : BitVec 64
  stvec : BitVec 64
  scounteren : BitVec 32
  senvcfg : BitVec 64
  sscratch : BitVec 64
  sepc : BitVec 64
  scause : BitVec 64
  stval : BitVec 64
  satp : BitVec 64
  irq : BitVec 2

-- The last four fields stand for the registers outside of this model (the FP, vector, debug, counter and
-- identification registers): what they read as, which of them can be written, whether a vset is refused, and its vl.
structure Pins where
  rwCmd : BitVec 4
  rwAddr : BitVec 12
  wDataCore : BitVec 64
  ex : Bool
  exCause : BitVec 64
  exOrigin : BitVec 64
  pc : BitVec 64
  retire : Bool
  fregModified : Bool
  vregModified : Bool
  debugHaltAck : Bool
  debugResumeAck : Bool
  timeIrq : Bool
  irq : BitVec 2
  mSoftIrq : Bool
  countOvf : Bool
  trapVectorAddr : BitVec 64
  otherRead : BitVec 12 → Option (BitVec 64)
  otherWritten : BitVec 12 → Bool
  vsetRefused : Bool
  vl : BitVec 64

def csrSie : BitVec 12 := 0x104
def csrStvec : BitVec 12 := 0x105
def csrScounteren : BitVec 12 := 0x106
def csrSenvcfg : BitVec 12 := 0x10a
def csrSscratch : BitVec 12 := 0x140
def csrSepc : BitVec 12 := 0x141
def csrScause : BitVec 12 := 0x142
def csrStval : BitVec 12 := 0x143
def csrSip : BitVec 12 := 0x144
def csrSatp : BitVec 12 := 0x180
def csrMie : BitVec 12 := 0x304
def csrMtvec : BitVec 12 := 0x305
def csrMcounteren : BitVec 12 := 0x306
def csrMenvcfg : BitVec 12 := 0x30a
def csrMcountinhibit : BitVec 12 := 0x320
def csrMscratch : BitVec 12 := 0x340
def csrMepc : BitVec 12 := 0x341
def csrMcause : BitVec 12 := 0x342
def csrMtval : BitVec 12 := 0x343
def csrMip : BitVec 12 := 0x344

-- MIP_SSIP, MIP_STIP, MIP_SEIP and MIP_LCOFIP
def supervisorMask : BitVec 64 := 0x2222
def machineMask : BitVec 64 := 0x2aaa
def softwareMask : BitVec 64 := 0x2002

def registers (f : File) : List (BitVec 12 × BitVec 64) :=
  [(csrSie,f.mie &&& f.mideleg),(csrSip,f.mip &&& f.mideleg),(csrStvec,f.stvec),(csrScounteren,f.scounteren.setWidth 64),
    (csrSenvcfg,f.senvcfg &&& 1),(csrSscratch,f.sscratch),(csrSepc,f.sepc),(csrScause,f.scause),(csrStval,f.stval),(csrSatp,f.satp),
    (csrMie,f.mie),(csrMtvec,f.mtvec),(csrMcounteren,f.mcounteren.setWidth 64),
    (csrMcountinhibit,(f.mcountinhibit &&& ~~~2).setWidth 64),(csrMscratch,f.mscratch),(csrMepc,f.mepc),(csrMcause,f.mcause),
    (csrMtval,f.mtval),(csrMip,f.mip),(csrMenvcfg,f.menvcfg &&& 1)]

def modelled (f : File) (addr : BitVec 12) : Bool :=
  [csrMstatus,csrSstatus,csrMedeleg,csrMideleg,csrDcsr].contains addr || ((registers f).lookup addr).isSome

-- The check of a counter against mcounteren and scounteren at level S or U
def counterClosed (f : File) (p : Pins) : Bool :=
  let bit := p.rwAddr.toNat % 32
  let lvl := if p.debugResumeAck then f.dcsr.prv else f.privLvl
  if lvl = privS then !f.mcounteren.getLsbD bit else !f.mcounteren.getLsbD bit && !f.scounteren.getLsbD bit

-- The inputs that decide about the privilege of an access
def command (f : File) (p : Pins) : Input where
  rwCmd := p.rwCmd
  rwAddr := p.rwAddr
  wDataCore := p.wDataCore
  ex := p.ex
  exCause := p.exCause
  retire := p.retire
  fregModified := p.fregModified
  vregModified := p.vregModified
  debugHaltAck := p.debugHaltAck
  debugResumeAck := p.debugResumeAck
  accessException := false
  counterClosed := counterClosed f p
  otherRdata := 0

-- satp is not accessible at level S when tvm is set.
def satpRefused (f : File) (p : Pins) : Bool :=
  decide (p.rwAddr = csrSatp) && decide (privLvlO f.toState (command f p) = privS) && f.mstatus.tvm

def readAccessException (f : File) (p : Pins) : Bool :=
  csrRead f.toState (command f p) && ((!modelled f p.rwAddr && (p.otherRead p.rwAddr).isNone) || satpRefused f p)

def updateAccessException (f : File) (p : Pins) : Bool :=
  csrWe f.toState (command f p) && ((!modelled f p.rwAddr && !p.otherWritten p.rwAddr) || satpRefused f p)

def otherRdata (f : File) (p : Pins) : BitVec 64 :=
  (((registers f).lookup p.rwAddr).or (p.otherRead p.rwAddr)).getD 0

def input (f : File) (p : Pins) : Input :=
  { command f p with
    accessException := updateAccessException f p || p.vsetRefused || readAccessException f p
    otherRdata := otherRdata f p }

-- r_data_core_o. SEIP reads as the register or the interrupt line, sip only when it is delegated.
def rDataCore (f : File) (p : Pins) : BitVec 64 :=
  let r := csrRdata f.toState (input f p)
  if vsetvlInsn (input f p) then p.vl
  else if p.rwAddr = csrMip then r ||| (if f.irq.getLsbD 1 then 0x200 else 0)
  else if p.rwAddr = csrSip then r ||| (if f.irq.getLsbD 1 && f.mideleg.getLsbD 9 then 0x200 else 0)
  else r

-- The bits of mip that follow the interrupt inputs
def drivenBits : List Nat := [3,7,11,13]

def mipDriven (f : File) (p : Pins) : BitVec 64 :=
  (f.mip &&& ~~~0x888) ||| (if p.countOvf then 0x2000 else 0) ||| (if f.irq.getLsbD 0 then 0x800 else 0) |||
    (if p.timeIrq then 0x80 else 0) ||| (if p.mSoftIrq then 0x8 else 0)

-- A write replaces the bits of its mask and keeps the others.
def written (mask old w : BitVec 64) : BitVec 64 := (old &&& ~~~mask) ||| (w &&& mask)

def nextMip (f : File) (p : Pins) : BitVec 64 :=
  let i := input f p
  if writes csrSip f.toState i then written (softwareMask &&& f.mideleg) f.mip (csrWdata f.toState i)
  else if writes csrMip f.toState i then written supervisorMask f.mip (csrWdata f.toState i)
  else mipDriven f p

def nextMie (f : File) (p : Pins) : BitVec 64 :=
  let i := input f p
  if writes csrSie f.toState i then written supervisorMask f.mie (csrWdata f.toState i)
  else if writes csrMie f.toState i then written machineMask f.mie (csrWdata f.toState i)
  else f.mie

-- tvec registers keep bit 1 clear; the vectored mode of mtvec aligns its base to 256 bytes.
def tvec (w : BitVec 64) : BitVec 64 := w &&& ~~~2

def nextMtvec (f : File) (p : Pins) : BitVec 64 :=
  let w := csrWdata f.toState (input f p)
  if writes csrMtvec f.toState (input f p) then (if w.getLsbD 0 then w &&& ~~~0xfe else tvec w)
  else if f.mtvecRstLoad then p.trapVectorAddr
  else f.mtvec

def asidWidth : Nat := 13

-- Only bare and Sv39 are taken, with the bits of the ASID that are implemented.
def nextSatp (f : File) (p : Pins) : BitVec 64 :=
  let w := csrWdata f.toState (input f p)
  let mode := w.extractLsb' 60 4
  if writes csrSatp f.toState (input f p) && !satpRefused f p then
    (if mode = 0 ∨ mode = 8 then mode ++ (w.extractLsb' 44 16 &&& BitVec.ofNat 16 (2 ^ asidWidth - 1)) ++ w.extractLsb' 0 44 else f.satp)
  else f.satp

-- A register that a CSR write replaces
def stored (addr : BitVec 12) (f : File) (p : Pins) (old : BitVec 64) : BitVec 64 :=
  if writes addr f.toState (input f p) then csrWdata f.toState (input f p) else old

def storedWord (addr : BitVec 12) (f : File) (p : Pins) (old : BitVec 32) : BitVec 32 :=
  if writes addr f.toState (input f p) then (csrWdata f.toState (input f p)).setWidth 32 else old

def trapsM (f : File) (p : Pins) : Bool := traps f.toState (input f p) && decide (trapTo f.toState (input f p) ≠ privS)
def trapsS (f : File) (p : Pins) : Bool := traps f.toState (input f p) && decide (trapTo f.toState (input f p) = privS)

def trapCause (f : File) (p : Pins) : BitVec 64 := (csrXcpt f.toState (input f p)).getD p.exCause

-- The address faults and misaligned accesses report where they happened.
def originCauses : List (BitVec 64) := [4,5,6,7,13,15,12,0,1]

def exTval (f : File) (p : Pins) : BitVec 64 :=
  let xcpt := csrXcpt f.toState (input f p)
  if p.ex && decide (p.exCause ∈ originCauses) then p.exOrigin
  else if (p.ex && decide (p.exCause = illegalInstr)) || decide (xcpt = some illegalInstr) then p.exOrigin
  else if xcpt = some breakpoint then p.pc
  else 0

def next (f : File) (p : Pins) : File where
  toState := CsrBsc.next f.toState (input f p)
  mtvecRstLoad := false
  mtvec := nextMtvec f p
  mip := nextMip f p
  mie := nextMie f p
  mcounteren := storedWord csrMcounteren f p f.mcounteren
  mcountinhibit := storedWord csrMcountinhibit f p f.mcountinhibit
  mscratch := stored csrMscratch f p f.mscratch
  mepc := if trapsM f p then p.pc
    else if writes csrMepc f.toState (input f p) then csrWdata f.toState (input f p) &&& ~~~3 else f.mepc
  mcause := if trapsM f p then trapCause f p else stored csrMcause f p f.mcause
  mtval := if trapsM f p then exTval f p else stored csrMtval f p f.mtval
  menvcfg := stored csrMenvcfg f p f.menvcfg
  stvec := if writes csrStvec f.toState (input f p) then tvec (csrWdata f.toState (input f p)) else f.stvec
  scounteren := storedWord csrScounteren f p f.scounteren
  senvcfg := stored csrSenvcfg f p f.senvcfg
  sscratch := stored csrSscratch f p f.sscratch
  sepc := if trapsS f p then p.pc
    else if writes csrSepc f.toState (input f p) then csrWdata f.toState (input f p) &&& ~~~1 else f.sepc
  scause := if trapsS f p then trapCause f p else stored csrScause f p f.scause
  stval := if trapsS f p then exTval f p else stored csrStval f p f.stval
  satp := nextSatp f p
  irq := p.irq

def reset : File where
  toState := CsrBsc.reset
  mtvecRstLoad := true
  mtvec := 0
  mip := 0
  mie := 0
  mcounteren := 0
  mcountinhibit := 0
  mscratch := 0
  mepc := 0
  mcause := 0
  mtval := 0
  menvcfg := 0
  stvec := 0
  scounteren := 0
  senvcfg := 0
  sscratch := 0
  sepc := 0
  scause := 0
  stval := 0
  satp := 0
  irq := 0

-- control_unit acknowledges a resume only to a hart that is halted or comes from reset.
def machine : StateMachine.Machine File Pins where
  initial := reset
  allowed f p := p.debugResumeAck = true → f.debugMode = true ∨ f.dcsr.prv = f.privLvl
  step := next

instance : ∀ f p, Decidable (machine.allowed f p) :=
  fun f p => inferInstanceAs (Decidable (p.debugResumeAck = true → f.debugMode = true ∨ f.dcsr.prv = f.privLvl))

theorem write_parts {s : State} {i : Input} {addr : BitVec 12} (write : writes addr s i = true) :
    i.rwAddr = addr ∧ i.rwCmd ∈ [1,2,3,8] ∧ privilegeViolation s i = false := by
  simp only [writes,csrWe,Bool.and_eq_true,beq_iff_eq,decide_eq_true_eq,Bool.not_eq_true'] at write
  exact ⟨write.2,write.1.1,write.1.2⟩

theorem written_bit (mask old w : BitVec 64) {b : Nat} (within : b < 64) :
    (written mask old w).getLsbD b = if mask.getLsbD b then w.getLsbD b else old.getLsbD b := by
  simp only [written,BitVec.getLsbD_or,BitVec.getLsbD_and,BitVec.getLsbD_not,within,decide_true,Bool.true_and]
  cases mask.getLsbD b <;> simp

theorem register_rdata {f : File} {p : Pins} {value : BitVec 64} (found : (registers f).lookup p.rwAddr = some value)
    (plain : p.rwAddr ∉ [csrMstatus,csrSstatus,csrMedeleg,csrMideleg,csrDcsr]) :
    csrRdata f.toState (input f p) = if csrRead f.toState (input f p) then value else 0 := by
  have addr : (input f p).rwAddr = p.rwAddr := rfl
  have data : (input f p).otherRdata = value := by simp [input,otherRdata,found]
  simp only [List.mem_cons,List.not_mem_nil,or_false,not_or] at plain
  obtain ⟨mstatus,sstatus,medeleg,mideleg,dcsr⟩ := plain
  simp only [csrRdata,addr,data,if_neg mstatus,if_neg sstatus,if_neg medeleg,if_neg mideleg,if_neg dcsr]
  cases csrRead f.toState (input f p) <;> rfl

theorem sip_rdata {f : File} {p : Pins} (here : p.rwAddr = csrSip) :
    csrRdata f.toState (input f p) = if csrRead f.toState (input f p) then f.mip &&& f.mideleg else 0 := by
  refine register_rdata ?_ ?_
  · simp [registers,here,List.lookup_cons,csrSip,csrSie]
  · rw [here]
    decide

end Sargantana.CsrFile
