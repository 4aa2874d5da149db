import Sargantana.HpdcachePkg

-- The handler of the uncacheable and the atomic requests (hpdcache_uncached_sarg): when it is busy, when it reads the directory,
-- and its reservation. The data that it passes on and its arithmetic are left out.
namespace Sargantana.UncachedHandler

open HpdcachePkg

-- hpdcache_uc_op_t, of which at most one line is set
inductive UcOp where
  | ld | st | amoLr | amoSc | amoSwap | amoAdd | amoAnd | amoOr | amoXor | amoMax | amoMaxu | amoMin | amoMinu
  deriving DecidableEq, Repr

inductive Fsm where
  | idle | waitPending | memReq | memWReq | memWdataReq | memWaitRsp | coreRsp | amoReadDir | amoWriteData
  deriving DecidableEq, Repr

abbrev Addr (c : Cfg) := BitVec (c.tagWidth + (c.setWidth + c.clOffsetWidth))

structure Request (c : Cfg) where
  op : Option UcOp
  addr : Addr c
  size : BitVec 3
  uc : Bool
  needRsp : Bool

-- A doubleword of a line, the size of a reservation
structure Dword (c : Cfg) where
  nline : c.Nline
  word : Nat
  deriving DecidableEq

variable {c : Cfg}

def addrNline (addr : Addr c) : c.Nline := addr.extractLsb' c.clOffsetWidth (c.tagWidth + c.setWidth)

def addrOffset (addr : Addr c) : BitVec c.clOffsetWidth := addr.setWidth c.clOffsetWidth

def addrDword (addr : Addr c) : Dword c := ⟨addrNline addr,(addrOffset addr).toNat / 8⟩

-- The doublewords that a store touches, in the arithmetic of hpdcache_offset_t
def snoopWords (c : Cfg) (size : BitVec 3) : BitVec c.clOffsetWidth :=
  if size.toNat < 3 then 1 else BitVec.ofNat _ (2 ^ size.toNat % 256 / 8)

def snoopHit (reserved : Addr c) (addr : Addr c) (size : BitVec 3) : Bool :=
  let base : BitVec c.clOffsetWidth := addrOffset addr >>> 3
  let word : BitVec c.clOffsetWidth := addrOffset reserved >>> 3
  decide (addrNline reserved = addrNline addr) && decide (base ≤ word) && decide (word < base + snoopWords c size)

def isRead : Option UcOp → Bool
  | some .ld | some .amoLr => true
  | _ => false

def isWrite : Option UcOp → Bool
  | none | some .ld | some .amoLr => false
  | _ => true

structure ReadResp where
  error : Bool

structure WriteResp where
  error : Bool
  isAtomic : Bool

structure State (c : Cfg) where
  fsm : Fsm
  req : Request c
  rspError : Bool
  memRespWriteValid : Bool
  memRespReadValid : Bool
  lrscValid : Bool
  lrscAddr : Addr c

structure Input (c : Cfg) where
  wbufEmpty : Bool
  mshrEmpty : Bool
  rtabEmpty : Bool
  ctrlEmpty : Bool
  flushEmpty : Bool
  req : Option (Request c)
  rspReady : Bool
  snoop : Option (Addr c × BitVec 3)
  readReady : Bool
  readResp : Option ReadResp
  writeReady : Bool
  writeDataReady : Bool
  writeResp : Option WriteResp
  refillBusy : Bool
  refillReqValid : Bool
  cfgErrorOnCacheableAmo : Bool

def Input.noPendTrans (i : Input c) : Bool :=
  i.wbufEmpty && i.mshrEmpty && i.rtabEmpty && i.ctrlEmpty && i.flushEmpty

def reset (blank : Request c) : State c where
  fsm := .idle
  req := blank
  rspError := false
  memRespWriteValid := false
  memRespReadValid := false
  lrscValid := false
  lrscAddr := 0

variable (s : State c) (i : Input c)

namespace State

def reqReady : Bool := decide (s.fsm = .idle)

def request : Option (Request c) := if s.fsm = .idle then i.req else none

def lrscHit (r : Request c) : Bool := s.lrscValid && decide (addrDword s.lrscAddr = addrDword r.addr)

def refused (r : Request c) : Bool := !r.uc && i.cfgErrorOnCacheableAmo

def pending : Fsm := if i.noPendTrans then .memReq else .waitPending

def rdError : Bool := i.readResp.any ReadResp.error

def wrError : Bool := i.writeResp.any WriteResp.error

def accepts (r : Request c) : Fsm :=
  match r.op with
  | none => if r.needRsp then .coreRsp else .idle
  | some .ld | some .st => pending i
  | some .amoSc => if refused i r then .coreRsp else if s.lrscHit r then pending i else .coreRsp
  | some _ => if refused i r then .coreRsp else pending i

def answered : Bool :=
  i.readResp.isSome && i.writeResp.isSome || i.readResp.isSome && s.memRespWriteValid || s.memRespReadValid && i.writeResp.isSome

def isAtomic : Bool := i.writeResp.any fun r => r.isAtomic && !r.error

def waitNext : Fsm :=
  match s.req.op with
  | some .ld => if i.readResp.isSome then if s.req.needRsp then .coreRsp else .idle else .memWaitRsp
  | some .st => if i.writeResp.isSome then if s.req.needRsp then .coreRsp else .idle else .memWaitRsp
  | some .amoLr => if i.readResp.isSome then if s.req.uc || rdError i then .coreRsp else .amoReadDir else .memWaitRsp
  | some .amoSc => if i.writeResp.isSome then if s.req.uc || !isAtomic i then .coreRsp else .amoReadDir else .memWaitRsp
  | some _ =>
    if s.answered i then if s.req.uc || s.rspError || rdError i || wrError i then .coreRsp else .amoReadDir else .memWaitRsp
  | none => .memWaitRsp

def memReqNext : Fsm :=
  if isRead s.req.op then if i.readReady then .memWaitRsp else .memReq
  else if isWrite s.req.op then
    if i.writeReady && i.writeDataReady then .memWaitRsp
    else if i.writeReady then .memWdataReq
    else if i.writeDataReady then .memWReq
    else .memReq
  else .memReq

-- The directory is read when no refill has it.
def amoMatch : Bool := decide (s.fsm = .amoReadDir) && !i.refillBusy && !i.refillReqValid

def fsmNext : Fsm :=
  match s.fsm with
  | .idle => (i.req.map (s.accepts i)).getD .idle
  | .waitPending => pending i
  | .memReq => s.memReqNext i
  | .memWReq => if i.writeReady then .memWaitRsp else .memWReq
  | .memWdataReq => if i.writeDataReady then .memWaitRsp else .memWdataReq
  | .memWaitRsp => s.waitNext i
  | .coreRsp => if i.rspReady then .idle else .coreRsp
  | .amoReadDir => if s.amoMatch i then .amoWriteData else .amoReadDir
  | .amoWriteData => .coreRsp

-- The reservation
def lrscSet : Bool := decide (s.fsm = .memWaitRsp) && decide (s.req.op = some .amoLr) && i.readResp.isSome && !rdError i

def lrscReset : Bool :=
  match s.fsm with
  | .idle => i.req.any fun r =>
    match r.op with
    | none | some .ld | some .st | some .amoLr => false
    | some .amoSc => !refused i r
    | some _ => s.lrscHit r
  | .memWaitRsp => decide (s.req.op = some .amoLr) && i.readResp.isSome && rdError i
  | _ => false

def snooped : Bool := i.snoop.any fun store => s.lrscValid && snoopHit s.lrscAddr store.1 store.2

def rspErrorSet : Bool :=
  match s.fsm with
  | .idle => i.req.any fun r =>
    match r.op with
    | none => r.needRsp
    | some .ld | some .st => false
    | some _ => refused i r
  | .memWaitRsp => s.req.needRsp && (rdError i || wrError i)
  | _ => false

def waits : Bool := decide (s.fsm = .memWReq) || decide (s.fsm = .memWdataReq) || decide (s.fsm = .memWaitRsp)

end State

def next : State c where
  fsm := s.fsmNext i
  req := (s.request i).getD s.req
  rspError := !s.rspError && s.rspErrorSet i || s.rspError && !(decide (s.fsm = .coreRsp) && i.rspReady)
  memRespWriteValid := if s.fsm = .memReq then false else s.memRespWriteValid || s.waits && i.writeResp.isSome
  memRespReadValid := if s.fsm = .memReq then false else s.memRespReadValid || s.waits && i.readResp.isSome
  lrscValid := !s.lrscValid && s.lrscSet i || s.lrscValid && !(s.lrscReset i || s.snooped i)
  lrscAddr := if s.lrscSet i then s.req.addr else s.lrscAddr

end Sargantana.UncachedHandler
