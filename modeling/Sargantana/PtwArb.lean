import Sargantana.MmuPkg

-- ptw_arb: the instruction and the data TLB share one page table walker. When both ask, the data
-- TLB is served and the request of the instruction TLB is kept.
namespace Sargantana.PtwArb
open MmuPkg

inductive Fsm where
  | idle | servingITlb | servingDTlb
  deriving DecidableEq, Repr

structure State where
  fsm : Fsm
  isReqWaiting : Bool
  itlbReqWaiting : TlbPtwReq

-- itlb_ptw_comm_i, dtlb_ptw_comm_i and ptw_tlb_comm_i
structure Input where
  itlb : TlbPtwReq
  dtlb : TlbPtwReq
  ptw : PtwTlbComm

def bothAsk (i : Input) : Bool := i.dtlb.valid && i.itlb.valid

-- A request that waits goes first, unless both ask again.
def resumes (s : State) (i : Input) : Bool := !bothAsk i && s.isReqWaiting

-- tlb_ptw_comm_o
def tlbPtwReq (s : State) (i : Input) : TlbPtwReq :=
  match s.fsm with
  | .idle =>
    if bothAsk i then i.dtlb
    else if s.isReqWaiting then .zero
    else if i.dtlb.valid then i.dtlb
    else if i.itlb.valid then i.itlb
    else .zero
  | .servingITlb => if s.isReqWaiting then s.itlbReqWaiting else i.itlb
  | .servingDTlb => i.dtlb

-- Both ports see the same ready.
def ptwReady (s : State) (i : Input) : Bool := decide (s.fsm = .idle) && !resumes s i

-- ptw_itlb_comm_o and ptw_dtlb_comm_o
def ptwTlbComm (serving : Fsm) (s : State) (i : Input) : PtwTlbComm :=
  { i.ptw with resp := if s.fsm = serving then i.ptw.resp else .zero, ptwReady := ptwReady s i }

def ptwItlbComm : State → Input → PtwTlbComm := ptwTlbComm .servingITlb

def ptwDtlbComm : State → Input → PtwTlbComm := ptwTlbComm .servingDTlb

def nextFsm (s : State) (i : Input) : Fsm :=
  match s.fsm with
  | .idle =>
    if bothAsk i then .servingDTlb
    else if s.isReqWaiting then .servingITlb
    else if i.dtlb.valid then .servingDTlb
    else if i.itlb.valid then .servingITlb
    else .idle
  | .servingITlb => if i.ptw.resp.valid then .idle else .servingITlb
  | .servingDTlb => if i.ptw.resp.valid then .idle else .servingDTlb

def nextWaiting (s : State) (i : Input) : Bool :=
  match s.fsm with
  | .idle => bothAsk i || s.isReqWaiting
  | .servingITlb => !i.ptw.resp.valid && s.isReqWaiting
  | .servingDTlb => s.isReqWaiting

def next (s : State) (i : Input) : State where
  fsm := nextFsm s i
  isReqWaiting := nextWaiting s i
  itlbReqWaiting := if s.fsm = .idle ∧ bothAsk i = true then i.itlb else s.itlbReqWaiting

def reset : State := ⟨.idle,false,.zero⟩

end Sargantana.PtwArb
