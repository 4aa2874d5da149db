import Mathlib.Data.BitVec

-- csr_bsc: the registers that decide about privilege, and one cycle of csr_update for them.
namespace Sargantana.CsrBsc

-- priv_lvl_t. The type has no name for 2, but the registers can hold it.
def privM : BitVec 2 := 3
def privS : BitVec 2 := 1
def privU : BitVec 2 := 0

-- status_rv64_t; the bits called wpri are never set.
structure Mstatus where
  sd : Bool
  sxl : BitVec 2
  uxl : BitVec 2
  tsr : Bool
  tw : Bool
  tvm : Bool
  mxr : Bool
  sum : Bool
  mprv : Bool
  xs : BitVec 2
  fs : BitVec 2
  mpp : BitVec 2
  vs : BitVec 2
  spp : Bool
  mpie : Bool
  spie : Bool
  upie : Bool
  mie : Bool
  sie : Bool
  uie : Bool
  deriving DecidableEq

def flag (bit : Bool) : BitVec 1 := BitVec.ofBool bit

def Mstatus.bits (m : Mstatus) : BitVec 64 :=
  flag m.sd ++ 0#27 ++ m.sxl ++ m.uxl ++ 0#9 ++ flag m.tsr ++ flag m.tw ++ flag m.tvm ++ flag m.mxr ++ flag m.sum ++ flag m.mprv ++ m.xs ++ m.fs ++
    m.mpp ++ m.vs ++ flag m.spp ++ flag m.mpie ++ 0#1 ++ flag m.spie ++ flag m.upie ++ flag m.mie ++ 0#1 ++ flag m.sie ++ flag m.uie

def Mstatus.ofBits (w : BitVec 64) : Mstatus where
  sd := w.getLsbD 63
  sxl := w.extractLsb' 34 2
  uxl := w.extractLsb' 32 2
  tsr := w.getLsbD 22
  tw := w.getLsbD 21
  tvm := w.getLsbD 20
  mxr := w.getLsbD 19
  sum := w.getLsbD 18
  mprv := w.getLsbD 17
  xs := w.extractLsb' 15 2
  fs := w.extractLsb' 13 2
  mpp := w.extractLsb' 11 2
  vs := w.extractLsb' 9 2
  spp := w.getLsbD 8
  mpie := w.getLsbD 7
  spie := w.getLsbD 5
  upie := w.getLsbD 4
  mie := w.getLsbD 3
  sie := w.getLsbD 1
  uie := w.getLsbD 0

-- dcsr_t without the fields that keep their reset values: xdebugver is 4, the others are zero.
structure Dcsr where
  ebreakm : Bool
  ebreaks : Bool
  ebreaku : Bool
  cause : BitVec 3
  mprven : Bool
  step : Bool
  prv : BitVec 2
  deriving DecidableEq

def Dcsr.bits (d : Dcsr) : BitVec 32 :=
  0x4000#16 ++ flag d.ebreakm ++ 0#1 ++ flag d.ebreaks ++ flag d.ebreaku ++ 0#3 ++ d.cause ++ 0#1 ++ flag d.mprven ++ 0#1 ++ flag d.step ++ d.prv

structure State where
  privLvl : BitVec 2
  mstatus : Mstatus
  medeleg : BitVec 64
  mideleg : BitVec 64
  dcsr : Dcsr
  debugMode : Bool
  deriving DecidableEq

-- The three last fields are what the registers outside of this model decide: whether an access
-- is refused (update_access_exception, read_access_exception), whether mcounteren and scounteren
-- close a counter, and what another register reads as.
structure Input where
  rwCmd : BitVec 4
  rwAddr : BitVec 12
  wDataCore : BitVec 64
  ex : Bool
  exCause : BitVec 64
  retire : Bool
  fregModified : Bool
  vregModified : Bool
  debugHaltAck : Bool
  debugResumeAck : Bool
  accessException : Bool
  counterClosed : Bool
  otherRdata : BitVec 64

def csrMstatus : BitVec 12 := 0x300
def csrSstatus : BitVec 12 := 0x100
def csrMedeleg : BitVec 12 := 0x302
def csrMideleg : BitVec 12 := 0x303
def csrDcsr : BitVec 12 := 0x7b0

-- MSTATUS_UIE, MSTATUS_UPIE, MSTATUS_XS and MSTATUS64_WPRI
def mstatusMask : BitVec 64 := 0x1 ||| 0x10 ||| 0x18000 ||| 0x7ffffff5ff800044
def smodeStatusReadMask : BitVec 64 := 0x80000003000de733
def medelegMask : BitVec 64 := 0xb109
def midelegMask : BitVec 64 := 0x2222

def illegalInstr : BitVec 64 := 2
def breakpoint : BitVec 64 := 3
def userEcall : BitVec 64 := 8
def debugRequest : BitVec 64 := 0x18

def addrLvl (i : Input) : BitVec 2 := i.rwAddr.extractLsb' 8 2

def systemInsn (i : Input) : Bool := i.rwCmd == 4

def privSufficient (s : State) (i : Input) : Bool := decide ((addrLvl i).toNat ≤ s.privLvl.toNat)

def insnIs (code : BitVec 10) (i : Input) : Bool := i.rwAddr.setWidth 10 == code && systemInsn i

def insnCall : Input → Bool := insnIs 0
def insnBreak : Input → Bool := insnIs 1
def insnMret (s : State) (i : Input) : Bool := insnIs 0x302 i && privSufficient s i
def insnSret (s : State) (i : Input) : Bool := insnIs 0x102 i && privSufficient s i
def insnWfi (s : State) (i : Input) : Bool := insnIs 0x105 i && privSufficient s i
def insnSfenceVm (s : State) (i : Input) : Bool := i.rwAddr.extractLsb' 5 5 == 9 && systemInsn i && privSufficient s i

def vsetvlInsn (i : Input) : Bool := i.rwCmd == 6 || i.rwCmd == 7

def privLvlO (s : State) (i : Input) : BitVec 2 := if i.debugResumeAck then s.dcsr.prv else s.privLvl

-- The counters are checked against mcounteren and scounteren instead.
def accessViolation (s : State) (i : Input) : Bool :=
  if 0xc00 ≤ i.rwAddr.toNat ∧ i.rwAddr.toNat ≤ 0xc1f then
    if privLvlO s i = privM then false
    else if privLvlO s i = privS ∨ privLvlO s i = privU then i.counterClosed
    else true
  else decide (privLvlO s i &&& addrLvl i ≠ addrLvl i) || (decide (i.rwAddr >>> 4 = 0x7b) && !s.debugMode)

def privilegeViolation (s : State) (i : Input) : Bool :=
  (decide (i.rwCmd ∈ [1,2,3,5,8]) && accessViolation s i) || (systemInsn i && !privSufficient s i) ||
    (insnSfenceVm s i && decide (s.privLvl = privS) && s.mstatus.tvm) || (insnSret s i && decide (s.privLvl = privS) && s.mstatus.tsr)

def csrRead (s : State) (i : Input) : Bool := decide (i.rwCmd ∈ [1,2,3,5]) && !privilegeViolation s i

def csrWe (s : State) (i : Input) : Bool := decide (i.rwCmd ∈ [1,2,3,8]) && !privilegeViolation s i

def csrRdata (s : State) (i : Input) : BitVec 64 :=
  if !csrRead s i then 0
  else if i.rwAddr = csrMstatus then s.mstatus.bits
  else if i.rwAddr = csrSstatus then s.mstatus.bits &&& smodeStatusReadMask
  else if i.rwAddr = csrMedeleg then s.medeleg
  else if i.rwAddr = csrMideleg then s.mideleg
  else if i.rwAddr = csrDcsr then s.dcsr.bits.setWidth 64
  else i.otherRdata

-- Write, set and clear
def csrWdata (s : State) (i : Input) : BitVec 64 :=
  if i.rwCmd = 2 then i.wDataCore ||| csrRdata s i
  else if i.rwCmd = 3 then ~~~i.wDataCore &&& csrRdata s i
  else i.wDataCore

-- The CSR write goes to this address.
def writes (addr : BitVec 12) (s : State) (i : Input) : Bool := csrWe s i && i.rwAddr == addr

def mret (s : State) (i : Input) : Bool := !insnSret s i && insnMret s i

def sret (s : State) (i : Input) : Bool := insnSret s i

-- ebreak enters the debug mode at this level.
def ebreakAt (s : State) (lvl : BitVec 2) : Bool :=
  (decide (lvl = privM) && s.dcsr.ebreakm) || (decide (lvl = privS) && s.dcsr.ebreaks) || (decide (lvl = privU) && s.dcsr.ebreaku)

-- csr_xcpt with its cause
def csrXcpt (s : State) (i : Input) : Option (BitVec 64) :=
  if i.accessException then some illegalInstr
  else if privilegeViolation s i then some illegalInstr
  else if insnCall i then some (userEcall + s.privLvl.setWidth 64)
  else if insnBreak i && !s.debugMode then
    if (decide (privLvlO s i = privM) && !s.dcsr.ebreakm) || (decide (privLvlO s i = privS) && !s.dcsr.ebreaks) ||
      (decide (privLvlO s i = privU) && !s.dcsr.ebreaku) then some breakpoint else none
  else if insnWfi s i && s.mstatus.tw then some illegalInstr
  else none

def dirtyFp (s : State) (i : Input) : Bool :=
  decide (s.mstatus.fs ≠ 0) && (i.fregModified || (csrWe s i && decide (i.rwAddr ∈ [1,2,3])))

def dirtyV (s : State) (i : Input) : Bool :=
  decide (s.mstatus.vs ≠ 0) && (vsetvlInsn i || i.vregModified || (csrWe s i && decide (i.rwAddr ∈ [9,0xa,0xf])))

-- mstatus_int. A write of mstatus takes every bit that is not masked.
def mstatusInt (s : State) (i : Input) : Mstatus :=
  let w := csrWdata s i
  if writes csrSstatus s i then
    { s.mstatus with
      sie := w.getLsbD 1
      spie := w.getLsbD 5
      spp := w.getLsbD 8
      vs := w.extractLsb' 9 2
      fs := w.extractLsb' 13 2
      sum := w.getLsbD 18
      mxr := w.getLsbD 19 }
  else if writes csrMstatus s i then Mstatus.ofBits (w &&& ~~~mstatusMask)
  else { s.mstatus with sxl := 2, uxl := 2, sd := decide (s.mstatus.xs = 3 ∨ s.mstatus.fs = 3 ∨ s.mstatus.vs = 3) }

def mstatusDirty (s : State) (i : Input) : Mstatus :=
  { mstatusInt s i with
    fs := if dirtyFp s i then 3 else (mstatusInt s i).fs
    vs := if dirtyV s i then 3 else (mstatusInt s i).vs }

def dcsrInt (s : State) (i : Input) : Dcsr :=
  let w := csrWdata s i
  if writes csrDcsr s i then
    { s.dcsr with
      ebreakm := w.getLsbD 15
      ebreaks := w.getLsbD 13
      ebreaku := w.getLsbD 12
      mprven := w.getLsbD 4
      step := w.getLsbD 2
      prv := if w.setWidth 2 = 2#2 then s.dcsr.prv else w.setWidth 2 }
  else s.dcsr

def traps (s : State) (i : Input) : Bool := ((decide (i.exCause ≠ debugRequest) && i.ex) || (csrXcpt s i).isSome) && !s.debugMode

def delegated (s : State) (cause : BitVec 64) : Bool :=
  if cause.getLsbD 63 then s.mideleg.getLsbD (cause.toNat % 64) else s.medeleg.getLsbD (cause.toNat % 64)

-- trap_to_priv_lvl
def trapTo (s : State) (i : Input) : BitVec 2 :=
  if (i.ex && delegated s i.exCause) || (csrXcpt s i).any (delegated s) then
    if privLvlO s i = privM then privM else privS
  else privM

-- mprv is cleared by a return to a level below M.
def clearsMprv (s : State) (lvl : BitVec 2) : Bool := decide (lvl ≠ privM) && decide (lvl ≠ s.privLvl)

def sppLvl (s : State) : BitVec 2 := if s.mstatus.spp then privS else privU

-- sret is not done at level S when tsr is set.
def sretDone (s : State) (i : Input) : Bool := sret s i && !(decide (s.privLvl = privS) && s.mstatus.tsr)

def returned (s : State) (i : Input) : BitVec 2 × Mstatus :=
  let m := mstatusDirty s i
  if traps s i then
    if trapTo s i = privS then (privS,{ m with sie := false, spie := s.mstatus.sie, spp := s.privLvl.getLsbD 0 })
    else (trapTo s i,{ m with mie := false, mpie := s.mstatus.mie, mpp := s.privLvl })
  else if mret s i then
    (s.mstatus.mpp,{ m with mie := s.mstatus.mpie, mpp := privU, mpie := true, mprv := m.mprv && !clearsMprv s s.mstatus.mpp })
  else if sretDone s i then
    (sppLvl s,{ m with sie := s.mstatus.spie, spp := false, spie := true, mprv := m.mprv && !clearsMprv s (sppLvl s) })
  else (s.privLvl,m)

-- What the debug mode does in a cycle, in the order of the source
inductive Debug where
  | ebreak | halt | step | resume | none
  deriving DecidableEq

def debugEvent (s : State) (i : Input) : Debug :=
  if insnBreak i && !s.debugMode then (if ebreakAt s s.privLvl then .ebreak else .none)
  else if i.debugHaltAck then .halt
  else if !s.debugMode && s.dcsr.step && (i.retire || i.ex) then .step
  else if i.debugResumeAck && s.debugMode then .resume
  else .none

-- The level that a step records in dcsr
def stepPrv (s : State) (i : Input) : BitVec 2 :=
  if i.ex || (csrXcpt s i).isSome || sret s i || mret s i then (returned s i).1 else s.privLvl

def next (s : State) (i : Input) : State :=
  let lvl := (returned s i).1
  let m := (returned s i).2
  let d := dcsrInt s i
  let medeleg := if writes csrMedeleg s i then (s.medeleg &&& ~~~medelegMask) ||| (csrWdata s i &&& medelegMask) else s.medeleg
  let mideleg := if writes csrMideleg s i then (s.mideleg &&& ~~~midelegMask) ||| (csrWdata s i &&& midelegMask) else s.mideleg
  match debugEvent s i with
  | .ebreak => ⟨privM,m,medeleg,mideleg,{ d with cause := 1, prv := s.privLvl },true⟩
  | .halt => ⟨privM,m,medeleg,mideleg,{ d with cause := 3, prv := s.privLvl },true⟩
  | .step => ⟨privM,m,medeleg,mideleg,{ d with cause := 4, prv := stepPrv s i },true⟩
  | .resume => ⟨s.dcsr.prv,{ m with mprv := m.mprv && decide (s.dcsr.prv = privM) },medeleg,mideleg,d,false⟩
  | .none => ⟨lvl,m,medeleg,mideleg,d,s.debugMode⟩

def reset : State where
  privLvl := privM
  mstatus := Mstatus.ofBits 0x600
  medeleg := 0
  mideleg := 0
  dcsr := ⟨false,false,false,0,false,false,privM⟩
  debugMode := false

end Sargantana.CsrBsc
