import Sargantana.CsrFile

-- csr_bsc: all of the CSR file. CsrFile has the registers of privilege and of traps; here are the FP, vector, debug,
-- counter and identification registers around them, and what the accesses to these do.
namespace Sargantana.CsrRegisters

open CsrFile
open CsrBsc hiding next reset

@[ext] structure Regs extends File where
  fflags : BitVec 5
  frm : BitVec 3
  vxrm : BitVec 2
  vxsat : Bool
  vl : BitVec 64
  vtype : BitVec 64
  cycle : BitVec 64
  instret : BitVec 64
  scountovf : BitVec 32
  regTime : BitVec 64
  dpc : BitVec 64
  dscratch0 : BitVec 64
  dscratch1 : BitVec 64

-- perf_data_i is what the counter module returns for the address of the access.
structure Ports where
  rwCmd : BitVec 4
  rwAddr : BitVec 12
  wDataCore : BitVec 64
  ex : Bool
  exCause : BitVec 64
  exOrigin : BitVec 64
  pc : BitVec 64
  retire : BitVec 2
  fregModified : Bool
  fcsrFlagsValid : Bool
  fcsrFlagsBits : BitVec 5
  vregModified : Bool
  vxsat : Bool
  debugHaltAck : Bool
  debugResumeAck : Bool
  timeIrq : Bool
  irq : BitVec 2
  mSoftIrq : Bool
  countOvf : Bool
  mhpmOvfBits : BitVec 29
  perfData : BitVec 64
  time : BitVec 64
  trapVectorAddr : BitVec 64
  coreId : BitVec 64

def csrFflags : BitVec 12 := 0x001
def csrFrm : BitVec 12 := 0x002
def csrFcsr : BitVec 12 := 0x003
def csrVstart : BitVec 12 := 0x008
def csrVxsat : BitVec 12 := 0x009
def csrVxrm : BitVec 12 := 0x00a
def csrVcsr : BitVec 12 := 0x00f
def csrVl : BitVec 12 := 0xc20
def csrVtype : BitVec 12 := 0xc21
def csrVlenb : BitVec 12 := 0xc22
def csrScountovf : BitVec 12 := 0xda0
def csrMisa : BitVec 12 := 0x301
def csrMvendorid : BitVec 12 := 0xf11
def csrMarchid : BitVec 12 := 0xf12
def csrMimpid : BitVec 12 := 0xf13
def csrMhartid : BitVec 12 := 0xf14
def csrMconfigptr : BitVec 12 := 0xf15
def csrMcycle : BitVec 12 := 0xb00
def csrMinstret : BitVec 12 := 0xb02
def csrDpc : BitVec 12 := 0x7b1
def csrDscratch0 : BitVec 12 := 0x7b2
def csrDscratch1 : BitVec 12 := 0x7b3
def csrCycle : BitVec 12 := 0xc00
def csrTime : BitVec 12 := 0xc01
def csrInstret : BitVec 12 := 0xc02

def inRange (first last addr : BitVec 12) : Bool := decide (first ≤ addr) && decide (addr ≤ last)

-- CSR_MHPM_COUNTER_3 to 31, CSR_MHPM_EVENT_3 to 31 and CSR_HPM_COUNTER_3 to 31
def mhpmCounter : BitVec 12 → Bool := inRange 0xb03 0xb1f
def mhpmEvent : BitVec 12 → Bool := inRange 0x323 0x33f
def hpmCounter : BitVec 12 → Bool := inRange 0xc03 0xc1f

-- The triggers, CSR_PMPCFG_0 to 3 and CSR_PMPADDR_0 to 15: nothing is stored and zero is read.
def empty (addr : BitVec 12) : Bool := inRange 0x7a0 0x7a3 addr || inRange 0x3a0 0x3a3 addr || inRange 0x3b0 0x3bf addr

-- ISA_CODE: RV64 with A, B, D, F, I, M, S, U and V
def isaCode : BitVec 64 := 0x800000000034112b

def vlen : Nat := 128

-- The registers of this module that can be written: those of the FP unit, those of the vector unit, and the others
def fpCsrs : List (BitVec 12) := [csrFflags,csrFrm,csrFcsr]
def vectorCsrs : List (BitVec 12) := [csrVxsat,csrVxrm,csrVcsr,csrVstart]
def storedCsrs : List (BitVec 12) := [csrDpc,csrDscratch0,csrDscratch1,csrMisa,csrMcycle,csrMinstret]

-- The FP registers are there unless fs is Off, the vector registers unless vs is.
def whenFp (s : Regs) (value : BitVec 64) : Option (BitVec 64) := if s.mstatus.fs = 0 then none else some value
def whenV (s : Regs) (value : BitVec 64) : Option (BitVec 64) := if s.mstatus.vs = 0 then none else some value

def others (s : Regs) (i : Ports) : List (BitVec 12 × Option (BitVec 64)) :=
  [(csrFflags,whenFp s (s.fflags.setWidth 64)),(csrFrm,whenFp s (s.frm.setWidth 64)),
    (csrFcsr,whenFp s ((s.frm ++ s.fflags).setWidth 64)),(csrVcsr,whenV s ((s.vxrm ++ flag s.vxsat).setWidth 64)),
    (csrVxrm,whenV s (s.vxrm.setWidth 64)),(csrVxsat,whenV s ((flag s.vxsat).setWidth 64)),(csrVstart,whenV s 0),(csrVl,whenV s s.vl),
    (csrVtype,whenV s s.vtype),(csrVlenb,whenV s (BitVec.ofNat 64 (vlen / 8))),(csrDpc,some s.dpc),(csrDscratch0,some s.dscratch0),
    (csrDscratch1,some s.dscratch1),(csrMisa,some isaCode),(csrMvendorid,some 0),(csrMarchid,some 0),(csrMimpid,some 0),
    (csrMhartid,some i.coreId),(csrMconfigptr,some 0),(csrMcycle,some s.cycle),(csrMinstret,some s.instret),(csrCycle,some s.cycle),
    (csrTime,some s.regTime),(csrInstret,some s.instret),(csrScountovf,some ((s.scountovf &&& s.mcounteren).setWidth 64))]

def otherRead (s : Regs) (i : Ports) (addr : BitVec 12) : Option (BitVec 64) :=
  if mhpmCounter addr || mhpmEvent addr || hpmCounter addr then some i.perfData
  else if empty addr then some 0
  else ((others s i).lookup addr).join

-- The cases of csr_update that do not set update_access_exception
def otherWritten (s : Regs) (addr : BitVec 12) : Bool :=
  if fpCsrs.contains addr then decide (s.mstatus.fs ≠ 0)
  else if vectorCsrs.contains addr then decide (s.mstatus.vs ≠ 0)
  else storedCsrs.contains addr || mhpmCounter addr || mhpmEvent addr ||
    empty addr

-- The new vtype of a vset comes with the address, and VLMAX with it.
def vtypeNew (i : Ports) : BitVec 11 := i.rwAddr.setWidth 11

def vlmax (i : Ports) : BitVec 64 :=
  let whole := BitVec.ofNat 64 (vlen / 8) >>> ((vtypeNew i).extractLsb' 3 3).toNat
  match ((vtypeNew i).extractLsb' 0 3).toNat with
  | 5 => whole >>> 3
  | 6 => whole >>> 2
  | 7 => whole >>> 1
  | _ => whole

def vsetvl (i : Ports) : Bool := i.rwCmd == 6 || i.rwCmd == 7

def vtypeIllegal (i : Ports) : Bool :=
  decide ((vtypeNew i).extractLsb' 8 3 ≠ 0) || (vtypeNew i).getLsbD 5 ||
    (decide (0 < (vtypeNew i).extractLsb' 0 3) &&
      (decide ((vtypeNew i).extractLsb' 0 3 < 5) || decide ((vtypeNew i).extractLsb' 0 2 ≤ (vtypeNew i).extractLsb' 3 2)))

-- vl_d of a vset that is not refused
def vlSet (s : Regs) (i : Ports) : BitVec 64 :=
  if vtypeIllegal i then 0
  else if i.rwCmd = 7 then (if i.wDataCore = 1 then s.vl else vlmax i)
  else if i.wDataCore ≤ vlmax i then i.wDataCore
  else if i.wDataCore ≤ vlmax i <<< 1 then (i.wDataCore >>> 1) + (flag (i.wDataCore.getLsbD 0)).setWidth 64
  else vlmax i

def vsetRefused (s : Regs) (i : Ports) : Bool := vsetvl i && decide (s.mstatus.vs = 0)

def nextVl (s : Regs) (i : Ports) : BitVec 64 :=
  if vsetvl i then (if s.mstatus.vs = 0 then s.vl else vlSet s i)
  else if i.rwCmd = 9 then i.wDataCore
  else s.vl

def nextVtype (s : Regs) (i : Ports) : BitVec 64 :=
  if vsetvl i && decide (s.mstatus.vs ≠ 0) then (if vtypeIllegal i then 0x8000000000000000 else (vtypeNew i).setWidth 64) else s.vtype

def pins (s : Regs) (i : Ports) : Pins where
  rwCmd := i.rwCmd
  rwAddr := i.rwAddr
  wDataCore := i.wDataCore
  ex := i.ex
  exCause := i.exCause
  exOrigin := i.exOrigin
  pc := i.pc
  retire := decide (i.retire ≠ 0)
  fregModified := i.fregModified
  vregModified := i.vregModified
  debugHaltAck := i.debugHaltAck
  debugResumeAck := i.debugResumeAck
  timeIrq := i.timeIrq
  irq := i.irq
  mSoftIrq := i.mSoftIrq
  countOvf := i.countOvf
  trapVectorAddr := i.trapVectorAddr
  otherRead := otherRead s i
  otherWritten := otherWritten s
  vsetRefused := vsetRefused s i
  vl := nextVl s i

def stateInput (s : Regs) (i : Ports) : Input := input s.toFile (pins s i)

-- What the cycle writes to a register of this module, if it does
def stores (addr : BitVec 12) (s : Regs) (i : Ports) : Bool := writes addr s.toState (stateInput s i) && otherWritten s addr

def wdata (s : Regs) (i : Ports) : BitVec 64 := csrWdata s.toState (stateInput s i)

-- The address for a tvec register. In the vectored mode the cause is added to bits 7 to 2 of mtvec, for both registers.
def tvecBase (s : Regs) (i : Ports) (tvec : BitVec 64) : BitVec 64 :=
  let direct := decide (tvec.extractLsb' 0 2 = 0) || (csrXcpt s.toState (stateInput s i)).isSome || !i.exCause.getLsbD 63
  tvec.extractLsb' 8 56 ++ (if direct then tvec.extractLsb' 2 6 else s.mtvec.extractLsb' 2 6 + i.exCause.extractLsb' 0 6) ++ 0#2

-- trap_to_priv_lvl, which stays at M in a cycle without a trap
def trapToPrivLvl (s : Regs) (i : Ports) : BitVec 2 :=
  if traps s.toState (stateInput s i) then trapTo s.toState (stateInput s i) else privM

def trapVectorBase (s : Regs) (i : Ports) : BitVec 64 :=
  if trapToPrivLvl s i = privS then tvecBase s i s.stvec else tvecBase s i s.mtvec

def nextDpc (s : Regs) (i : Ports) : BitVec 64 :=
  match debugEvent s.toState (stateInput s i) with
  | .ebreak | .halt => i.pc
  | .step =>
      if i.ex || (csrXcpt s.toState (stateInput s i)).isSome then trapVectorBase s i
      else if sret s.toState (stateInput s i) then s.sepc
      else if mret s.toState (stateInput s i) then s.mepc
      else i.pc
  | .resume | .none => if stores csrDpc s i then wdata s i else s.dpc

def retireCnt (i : Ports) : BitVec 64 := (flag (i.retire.getLsbD 0)).setWidth 64 + (flag (i.retire.getLsbD 1)).setWidth 64

def nextFflags (s : Regs) (i : Ports) : BitVec 5 :=
  if stores csrFflags s i || stores csrFcsr s i then (wdata s i).setWidth 5
  else if i.fcsrFlagsValid then i.fcsrFlagsBits ||| s.fflags
  else s.fflags

def nextFrm (s : Regs) (i : Ports) : BitVec 3 :=
  if stores csrFrm s i then (wdata s i).setWidth 3
  else if stores csrFcsr s i then (wdata s i).extractLsb' 5 3
  else s.frm

def nextVxsat (s : Regs) (i : Ports) : Bool :=
  if stores csrVxsat s i || stores csrVcsr s i then (wdata s i).getLsbD 0 else i.vxsat || s.vxsat

def nextVxrm (s : Regs) (i : Ports) : BitVec 2 :=
  if stores csrVxrm s i then (wdata s i).setWidth 2
  else if stores csrVcsr s i then (wdata s i).extractLsb' 1 2
  else s.vxrm

def nextCycle (s : Regs) (i : Ports) : BitVec 64 :=
  if stores csrMcycle s i then wdata s i else s.cycle + (flag (!s.mcountinhibit.getLsbD 0)).setWidth 64

def nextInstret (s : Regs) (i : Ports) : BitVec 64 :=
  if stores csrMinstret s i then wdata s i
  else if !i.ex && !s.mcountinhibit.getLsbD 2 then s.instret + retireCnt i
  else s.instret

def perfWe (s : Regs) (i : Ports) : Bool :=
  csrWe s.toState (stateInput s i) && (mhpmCounter i.rwAddr || mhpmEvent i.rwAddr)

def next (s : Regs) (i : Ports) : Regs where
  toFile := CsrFile.next s.toFile (pins s i)
  fflags := nextFflags s i
  frm := nextFrm s i
  vxrm := nextVxrm s i
  vxsat := nextVxsat s i
  vl := nextVl s i
  vtype := nextVtype s i
  cycle := nextCycle s i
  instret := nextInstret s i
  scountovf := i.mhpmOvfBits ++ 0#3
  regTime := i.time
  dpc := nextDpc s i
  dscratch0 := if stores csrDscratch0 s i then wdata s i else s.dscratch0
  dscratch1 := if stores csrDscratch1 s i then wdata s i else s.dscratch1

def reset : Regs where
  toFile := CsrFile.reset
  fflags := 0
  frm := 0
  vxrm := 0
  vxsat := false
  vl := 0
  vtype := 0x8000000000000000
  cycle := 0
  instret := 0
  scountovf := 0
  regTime := 0
  dpc := 0
  dscratch0 := 0
  dscratch1 := 0

theorem access_exception (s : Regs) (i : Ports) : (stateInput s i).accessException =
    (updateAccessException s.toFile (pins s i) || vsetRefused s i || readAccessException s.toFile (pins s i)) := rfl

theorem written_readable {s : Regs} (i : Ports) {addr : BitVec 12} (can : otherWritten s addr = true) : (otherRead s i addr).isSome = true := by
  unfold otherRead
  split
  · rfl
  · rename_i ranges
    split
    · rfl
    · rename_i used
      simp only [Bool.or_eq_true,not_or,Bool.not_eq_true] at ranges used
      rw [otherWritten] at can
      split at can
      · rename_i listed
        have on : ¬ s.mstatus.fs = 0#2 := of_decide_eq_true can
        simp only [fpCsrs,List.contains_cons,List.contains_nil,Bool.or_false,Bool.or_eq_true,beq_iff_eq] at listed
        rcases listed with here | here | here <;> rw [here] <;>
          simp [others,List.lookup_cons,whenFp,on,csrFflags,csrFrm,csrFcsr]
      · split at can
        · rename_i listed
          have on : ¬ s.mstatus.vs = 0#2 := of_decide_eq_true can
          simp only [vectorCsrs,List.contains_cons,List.contains_nil,Bool.or_false,Bool.or_eq_true,beq_iff_eq] at listed
          rcases listed with here | here | here | here <;> rw [here] <;>
            simp [others,List.lookup_cons,whenV,on,csrFflags,csrFrm,csrFcsr,csrVcsr,csrVxrm,csrVxsat,csrVstart]
        · have listed : storedCsrs.contains addr = true := by
            rw [ranges.1.1,ranges.1.2,used,Bool.or_false,Bool.or_false,Bool.or_false] at can
            exact can
          simp only [storedCsrs,List.contains_cons,List.contains_nil,Bool.or_false,Bool.or_eq_true,beq_iff_eq] at listed
          rcases listed with here | here | here | here | here | here <;> rw [here] <;>
            simp [others,List.lookup_cons,csrFflags,csrFrm,csrFcsr,csrVcsr,csrVxrm,csrVxsat,csrVstart,csrVl,csrVtype,csrVlenb,csrDpc,
              csrDscratch0,csrDscratch1,csrMisa,csrMvendorid,csrMarchid,csrMimpid,csrMhartid,csrMconfigptr,csrMcycle,csrMinstret]

def granted (s : Regs) (addr : BitVec 12) : Bool := (modelled s.toFile addr && decide (addr ≠ csrSatp)) || otherWritten s addr

theorem granted_satp {s : Regs} {addr : BitVec 12} (can : granted s addr = true) : addr ≠ csrSatp := by
  intro here
  rw [granted,here] at can
  simp [otherWritten,fpCsrs,vectorCsrs,storedCsrs,csrSatp,csrFflags,csrFrm,csrFcsr,csrVxsat,csrVxrm,csrVcsr,csrVstart,csrDpc,csrDscratch0,csrDscratch1,csrMisa,
    csrMcycle,csrMinstret,mhpmCounter,mhpmEvent,empty,inRange] at can

theorem write_command {s : State} {i : Input} (write : csrWe s i = true) : i.rwCmd ≠ 4 ∧ i.rwCmd ≠ 6 ∧ i.rwCmd ≠ 7 := by
  have listed : i.rwCmd ∈ [1,2,3,8] := by
    rw [csrWe,Bool.and_eq_true] at write
    exact of_decide_eq_true write.1
  generalize i.rwCmd = c at listed
  revert c
  decide

theorem granted_open {s : Regs} {i : Ports} (can : granted s i.rwAddr = true) : satpRefused s.toFile (pins s i) = false := by
  have other : ¬ (pins s i).rwAddr = csrSatp := granted_satp can
  rw [satpRefused,decide_eq_false other]
  rfl

theorem granted_update {s : Regs} {i : Ports} (can : granted s i.rwAddr = true) : updateAccessException s.toFile (pins s i) = false := by
  have known : (!modelled s.toFile i.rwAddr && !otherWritten s i.rwAddr) = false := by
    rw [granted,Bool.or_eq_true,Bool.and_eq_true] at can
    rcases can with inner | outer
    · rw [inner.1]
      rfl
    · rw [outer]
      simp
  rw [updateAccessException,granted_open can]
  change (csrWe _ _ && ((!modelled s.toFile i.rwAddr && !otherWritten s i.rwAddr) || false)) = false
  rw [known]
  simp

theorem granted_read {s : Regs} {i : Ports} (can : granted s i.rwAddr = true) : readAccessException s.toFile (pins s i) = false := by
  have known : (!modelled s.toFile i.rwAddr && (otherRead s i i.rwAddr).isNone) = false := by
    rw [granted,Bool.or_eq_true,Bool.and_eq_true] at can
    rcases can with inner | outer
    · rw [inner.1]
      rfl
    · have found := written_readable i outer
      cases value : otherRead s i i.rwAddr with
      | none =>
          rw [value] at found
          cases found
      | some _ => simp
  rw [readAccessException,granted_open can]
  change (csrRead _ _ && ((!modelled s.toFile i.rwAddr && (otherRead s i i.rwAddr).isNone) || false)) = false
  rw [known]
  simp

theorem write_xcpt {s : Regs} {i : Ports} (write : csrWe s.toState (stateInput s i) = true)
    (update : updateAccessException s.toFile (pins s i) = false) (read : readAccessException s.toFile (pins s i) = false) :
    csrXcpt s.toState (stateInput s i) = none := by
  obtain ⟨four,six,seven⟩ := write_command write
  have vset : vsetRefused s i = false := by
    have other : vsetvl i = false := by
      rw [vsetvl,Bool.or_eq_false_iff]
      exact ⟨beq_eq_false_iff_ne.mpr six,beq_eq_false_iff_ne.mpr seven⟩
    rw [vsetRefused,other]
    rfl
  have access : (stateInput s i).accessException = false := by
    rw [access_exception,update,vset,read]
    rfl
  have system : systemInsn (stateInput s i) = false := beq_eq_false_iff_ne.mpr four
  have privilege : privilegeViolation s.toState (stateInput s i) = false := by
    rw [csrWe,Bool.and_eq_true] at write
    simpa using write.2
  simp [csrXcpt,access,privilege,insnCall,insnBreak,insnWfi,insnIs,system]

theorem xcpt_unwritten {s : Regs} {i : Ports} {addr : BitVec 12} (raised : (csrXcpt s.toState (stateInput s i)).isSome = true)
    (can : granted s addr = true) : writes addr s.toState (stateInput s i) = false := by
  by_contra write
  have parts := write
  rw [Bool.not_eq_false,writes,Bool.and_eq_true] at parts
  have here : i.rwAddr = addr := beq_iff_eq.mp parts.2
  rw [write_xcpt parts.1 (granted_update (here ▸ can)) (granted_read (here ▸ can))] at raised
  cases raised

theorem xcpt_stores {s : Regs} {i : Ports} (addr : BitVec 12) (raised : (csrXcpt s.toState (stateInput s i)).isSome = true) :
    stores addr s i = false := by
  rw [stores]
  cases can : otherWritten s addr with
  | false => exact Bool.and_false _
  | true => rw [xcpt_unwritten raised (by rw [granted,can,Bool.or_true]),Bool.false_and]

theorem xcpt_satp {s : Regs} {i : Ports} (raised : (csrXcpt s.toState (stateInput s i)).isSome = true) :
    (writes csrSatp s.toState (stateInput s i) && !satpRefused s.toFile (pins s i)) = false := by
  by_contra write
  rw [Bool.not_eq_false,Bool.and_eq_true,Bool.not_eq_true',writes,Bool.and_eq_true] at write
  obtain ⟨⟨we,same⟩,open'⟩ := write
  have here : i.rwAddr = csrSatp := beq_iff_eq.mp same
  have known : modelled s.toFile (pins s i).rwAddr = true := by
    change modelled s.toFile i.rwAddr = true
    rw [here]
    rfl
  have update : updateAccessException s.toFile (pins s i) = false := by
    rw [updateAccessException,open',known]
    simp
  have read : readAccessException s.toFile (pins s i) = false := by
    rw [readAccessException,open',known]
    simp
  rw [write_xcpt we update read] at raised
  cases raised

theorem idle_unwritten {s : Regs} {i : Ports} (none' : i.rwCmd = 0) (addr : BitVec 12) :
    writes addr s.toState (stateInput s i) = false := by
  rw [writes,csrWe,show (stateInput s i).rwCmd = 0 from none']
  rfl

theorem idle_stores {s : Regs} {i : Ports} (none' : i.rwCmd = 0) (addr : BitVec 12) : stores addr s i = false := by
  rw [stores,idle_unwritten none',Bool.false_and]

end Sargantana.CsrRegisters
