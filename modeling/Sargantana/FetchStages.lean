import Sargantana.ControlUnit

-- The fetch stages: the request of if_stage_1, icache_interface, the register between the stages, if_stage_2
-- and the register to decode, with the stalls, flushes and invalidations of control_unit that reach them
namespace Sargantana.FetchStages

open DracPkg

structure BranchPred where
  isBranch : Bool
  decision : Bool
  predAddr : BitVec 64
  deriving DecidableEq

structure If1If2Stage where
  pcInst : BitVec 64
  valid : Bool
  bpred : BranchPred
  ex : Exception
  deriving DecidableEq

structure IfIdStage where
  pcInst : BitVec 64
  inst : BitVec 32
  valid : Bool
  bpred : BranchPred
  ex : Exception
  deriving DecidableEq

structure RespIcacheCpu where
  valid : Bool
  data : BitVec 32
  instrPageFault : Bool
  deriving DecidableEq

def RespIcacheCpu.none : RespIcacheCpu := ⟨false,0,false⟩

def If1If2Stage.none : If1If2Stage := ⟨0,false,⟨false,false,0⟩,Exception.none⟩

def IfIdStage.none : IfIdStage := ⟨0,0,false,⟨false,false,0⟩,Exception.none⟩

-- `exceptionEnable` and `csrEnable` are registers of control_unit.
structure State where
  exceptionEnable : Bool
  csrEnable : Bool
  oldPcReq : BitVec 40
  if2 : If1If2Stage
  saved : RespIcacheCpu
  id : IfIdStage
  deriving DecidableEq

-- `stallBack` are the causes of stall_id, `held` those of stall_if_1 that are not named here, `flushOther` those
-- of flush_if, `trap` those of exception_enable_d beside halt_ack.
structure Input where
  pc : BitVec 64
  addrFault : Bool
  bpred : BranchPred
  parked : Bool
  stallBack : Bool
  held : Bool
  flushOther : Bool
  commitValid : Bool
  commitStallCsrFence : Bool
  commitFence : Bool
  commitFenceI : Bool
  haltAck : Bool
  trap : Bool
  icacheReqReady : Bool
  icacheRespValid : Bool
  tlbRespXcpIf : Bool
  icacheRespDatablock : BitVec 512

def reset : State := ⟨false,false,0,If1If2Stage.none,RespIcacheCpu.none,IfIdStage.none⟩

def retryFetch (s : State) : Bool := s.exceptionEnable || s.csrEnable

def flushIf (s : State) (i : Input) : Bool := s.exceptionEnable || s.csrEnable || i.flushOther

def respIcacheFetch (s : State) (i : Input) : RespIcacheCpu where
  valid := i.tlbRespXcpIf || i.icacheRespValid
  data :=
    if i.tlbRespXcpIf then 0
    else match s.oldPcReq.extractLsb' 2 2 with
      | 0 => i.icacheRespDatablock.extractLsb' 0 32
      | 1 => i.icacheRespDatablock.extractLsb' 32 32
      | 2 => i.icacheRespDatablock.extractLsb' 64 32
      | 3 => i.icacheRespDatablock.extractLsb' 96 32
  instrPageFault := i.tlbRespXcpIf

-- INSTR_PAGE_FAULT is 0x0C.
def instrPageFault : Nat := 0x0C

def exIfPageFault (s : State) (i : Input) : Bool :=
  if s.saved.valid && s.saved.instrPageFault then true
  else if (respIcacheFetch s i).valid && (respIcacheFetch s i).instrPageFault then true
  else false

def answered (s : State) (i : Input) : Bool := (respIcacheFetch s i).valid || s.if2.ex.valid || s.saved.valid

-- fetch_o of if_stage_2
def fetch2 (s : State) (i : Input) : IfIdStage where
  pcInst := s.if2.pcInst
  inst := if s.saved.valid then s.saved.data else (respIcacheFetch s i).data
  valid := s.if2.valid && answered s i
  bpred := s.if2.bpred
  ex :=
    if s.if2.ex.valid then ⟨true,s.if2.ex.cause,s.if2.ex.origin⟩
    else if exIfPageFault s i then ⟨true,instrPageFault,s.if2.ex.origin⟩
    else ⟨false,0,s.if2.ex.origin⟩

-- stall_o of if_stage_2
def missIcache (s : State) (i : Input) : Bool := s.if2.valid && !answered s i

def stallIf2 (s : State) (i : Input) : Bool := i.stallBack || missIcache s i

def stallIf1 (s : State) (i : Input) : Bool :=
  stallIf2 s i || (i.commitValid && i.commitStallCsrFence) || !i.icacheReqReady || i.held

def exAddrMisaligned (i : Input) : Bool := i.pc.extractLsb' 0 2 != 0

-- The causes are INSTR_ADDR_MISALIGNED, 0, and INSTR_ACCESS_FAULT, 1.
def fetch1 (s : State) (i : Input) : If1If2Stage where
  pcInst := i.pc
  valid := !i.parked && !stallIf1 s i
  bpred := i.bpred
  ex :=
    if exAddrMisaligned i then ⟨true,0,i.pc.toNat⟩
    else if i.addrFault then ⟨true,1,i.pc.toNat⟩
    else ⟨false,0,i.pc.toNat⟩

def reqValid (s : State) (i : Input) : Bool := !exAddrMisaligned i && !i.addrFault && !i.parked && !stallIf1 s i

def reqVaddr (i : Input) : BitVec 40 := i.pc.setWidth 40

-- invalidate_buffer_o of control_unit
def invalidateBuffer (s : State) (i : Input) : Bool :=
  i.commitValid && (i.commitFenceI || s.exceptionEnable || i.haltAck || (i.commitStallCsrFence && !i.commitFence))

def doIcacheRequest (s : State) (i : Input) : Bool :=
  reqValid s i && !(invalidateBuffer s i || retryFetch s) && i.icacheReqReady

def icacheReqKill (s : State) : Bool := retryFetch s

def savedNext (s : State) (i : Input) : RespIcacheCpu :=
  if flushIf s i then RespIcacheCpu.none
  else if (respIcacheFetch s i).valid && stallIf2 s i then respIcacheFetch s i
  else if s.saved.valid && !stallIf2 s i then RespIcacheCpu.none
  else s.saved

def next (s : State) (i : Input) : State where
  exceptionEnable := ControlUnit.exceptionEnableNext s.exceptionEnable (i.trap || i.haltAck)
  csrEnable := ControlUnit.csrEnableNext s.csrEnable (i.commitValid && i.commitStallCsrFence) (i.trap || i.haltAck)
  oldPcReq := if doIcacheRequest s i then reqVaddr i else s.oldPcReq
  if2 := if flushIf s i then If1If2Stage.none else if stallIf2 s i then s.if2 else fetch1 s i
  saved := savedNext s i
  id := if flushIf s i then IfIdStage.none else if i.stallBack then s.id else fetch2 s i

end Sargantana.FetchStages
