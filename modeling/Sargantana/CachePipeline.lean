import Sargantana.CacheEngine
import Sargantana.ReplayTable

-- The pipeline of the data cache (hpdcache_ctrl_sarg). Stage 0 takes a request from the replay table or from a core,
-- stage 1 decides about it, and stage 2 hands over what it asks of the miss handler, the flush controller and the directory.
namespace Sargantana.CachePipeline

open Arbiters HpdcachePkg CacheEngine

structure MissAlloc (c : Cfg) (δ : Type) where
  req : Req c δ
  isPrefetch : Bool
  wback : Bool
  needRsp : Bool
  victimWay : c.Ways

structure FlushAlloc (c : Cfg) where
  nline : c.Nline
  way : c.Ways

structure DirWrite (c : Cfg) where
  set : BitVec c.setWidth
  way : c.Ways
  tag : BitVec c.tagWidth
  entry : DirUpdt

structure State (n : Nat) (c : Cfg) (δ : Type) where
  st1Valid : Bool
  st1IsError : Bool
  st1Req : Req c δ
  st1Rtab : Bool
  st1RtabPopTryPtr : Fin n
  st2MshrAlloc : Option (MissAlloc c δ)
  st2FlushAlloc : Option (FlushAlloc c)
  st2DirUpdt : Option (DirWrite c)
  rtab : ReplayTable.State n c δ

-- What the directory says about the request of stage 1
structure DirAnswer (c : Cfg) where
  hitWay : c.Ways
  hitTag : BitVec c.tagWidth
  hitWback : Bool
  hitDirty : Bool
  hitFetch : Bool
  victimWay : c.Ways
  victimTag : BitVec c.tagWidth
  victimValid : Bool
  victimWback : Bool
  victimDirty : Bool

structure CoreReq (c : Cfg) (δ : Type) where
  valid : Bool
  req : Req c δ
  -- These come with the cycle after, for a request with a virtual address.
  tag : BitVec c.tagWidth
  pma : Pma
  abort : Bool

structure Miss (c : Cfg) where
  mshrAllocReady : Bool
  mshrHit : Bool
  mshrFull : Bool
  refillReqValid : Bool
  refillBusy : Bool
  refillUpdtRtab : Bool
  refillIsError : Bool
  refillNline : c.Nline
  refillWay : c.Ways

structure Wbuf where
  writeReady : Bool
  readHit : Bool
  rtabHitOpen : Bool
  rtabHitPend : Bool
  rtabHitSent : Bool
  rtabNotReady : Bool

structure Flush (c : Cfg) where
  busy : Bool
  checkHit : Bool
  allocReady : Bool
  ack : Bool
  ackNline : c.Nline

structure Handlers where
  cmoBusy : Bool
  cmoWait : Bool
  ucBusy : Bool

structure Input (c : Cfg) (δ : Type) where
  core : CoreReq c δ
  initReady : Bool
  dir : DirAnswer c
  miss : Miss c
  wbuf : Wbuf
  flush : Flush c
  handlers : Handlers

-- cfg_*_i
structure Settings where
  enable : Bool
  prefetchUpdtPlru : Bool
  rtabSingleEntry : Bool
  defaultWb : Bool

variable {n : Nat} [NeZero n] {c : Cfg} {δ : Type}

def reset (blank : ReplayTable.Entry c δ) : State n c δ where
  st1Valid := false
  st1IsError := false
  st1Req := blank.req
  st1Rtab := false
  st1RtabPopTryPtr := 0
  st2MshrAlloc := none
  st2FlushAlloc := none
  st2DirUpdt := none
  rtab := ReplayTable.reset blank

-- A cache that is disabled takes every request as uncacheable. A write policy that is not supported gives way to the other one.
def forced (c : Cfg) (g : Settings) (pma : Pma) : Pma where
  uncacheable := !g.enable || pma.uncacheable
  wrPolicyHint := if !c.wbEn then .wt else if !c.wtEn then .wb else pma.wrPolicyHint

variable (g : Settings) (blank : ReplayTable.Entry c δ) (s : State n c δ) (i : Input c δ)

def st0Req : Req c δ :=
  if s.rtab.popTryValid then { (s.rtab.popTryReq.getD blank).req with physIndexed := true }
  else { i.core.req with pma := forced c g i.core.req.pma }

def st0IsError : Bool := s.rtab.popTryValid && s.rtab.popTryError

-- The tag and the attributes of a request of the core may come in stage 1.
def st1Req (core : CoreReq c δ) : Req c δ :=
  if s.st1Rtab then s.st1Req
  else { s.st1Req with
    addrTag := if s.st1Req.physIndexed then s.st1Req.addrTag else core.tag
    pma := forced c g (if s.st1Req.physIndexed then s.st1Req.pma else core.pma) }

def dirHit : Bool := any i.dir.hitWay

def rtabCheckHit : Bool := s.rtab.checkHitO (st1Req g s i.core).nline

def config : Config := ⟨c.lowLatency,g.prefetchUpdtPlru,g.defaultWb⟩

def stage0 : Stage0 :=
  ⟨i.core.valid,s.rtab.popTryValid,st0IsError s,(st0Req g blank s i).pma.uncacheable,(st0Req g blank s i).op⟩

def stage : Stage1 where
  valid := s.st1Valid
  abort := i.core.abort && !(st1Req g s i.core).physIndexed
  rtab := s.st1Rtab
  isError := s.st1IsError
  uncacheable := !g.enable || (st1Req g s i.core).pma.uncacheable
  needRsp := (st1Req g s i.core).needRsp
  op := (st1Req g s i.core).op
  wr := (st1Req g s i.core).pma.wrPolicyHint

def answers : Answers where
  cachedirHit := dirHit i
  dirHitWback := i.dir.hitWback
  dirHitDirty := i.dir.hitDirty
  dirHitFetch := i.dir.hitFetch
  dirVictimUnavailable := !any i.dir.victimWay
  dirVictimValid := i.dir.victimValid
  dirVictimWback := i.dir.victimWback
  dirVictimDirty := i.dir.victimDirty
  mshrAllocReady := i.miss.mshrAllocReady
  mshrHit := i.miss.mshrHit
  mshrFull := i.miss.mshrFull
  wbufWriteReady := i.wbuf.writeReady
  wbufReadHit := i.wbuf.readHit
  flushCheckHit := i.flush.checkHit
  flushAllocReady := i.flush.allocReady
  rtabCheckHit := rtabCheckHit g s i

def pipe : Pipe where
  initReady := i.initReady
  refillBusy := i.miss.refillBusy
  flushBusy := i.flush.busy
  st2MshrAlloc := s.st2MshrAlloc.isSome
  st2FlushAlloc := s.st2FlushAlloc.isSome
  st2DirUpdt := s.st2DirUpdt.isSome
  refillReqValid := i.miss.refillReqValid
  rtabFull := s.rtab.full g.rtabSingleEntry
  rtabFence := s.rtab.fence
  cmoBusy := i.handlers.cmoBusy
  cmoWait := i.handlers.cmoWait
  ucBusy := i.handlers.ucBusy

def decide1 : Decision := decision (config (c := c) g) (stage g s i) (answers g s i) (stage0 g blank s i) (pipe g s i)

def coreReady : Bool := coreReqReady (config (c := c) g) (stage g s i) (answers g s i) (stage0 g blank s i) (pipe g s i)

def rtabReady : Bool := rtabReqReady (config (c := c) g) (stage g s i) (answers g s i) (stage0 g blank s i) (pipe g s i)

def refillReady : Bool := refillReqReady (stage g s i) (pipe g s i)

def ctrlEmpty : Bool := !(s.st1Valid || s.st2MshrAlloc.isSome || s.st2DirUpdt.isSome)

def rtabInput : ReplayTable.Input n c δ where
  checkNline := (st1Req g s i.core).nline
  alloc := (decide1 g blank s i).rtabAlloc && !s.st1Rtab
  allocAndLink := (decide1 g blank s i).rtabAllocAndLink
  allocReq := ⟨st1Req g s i.core,oneHotToBinary i.dir.hitWay⟩
  allocDeps := (decide1 g blank s i).deps
  popTry := rtabReady g blank s i
  popCommit := (decide1 g blank s i).rtabCommit
  popCommitPtr := s.st1RtabPopTryPtr
  popRback := (decide1 g blank s i).rtabAlloc && s.st1Rtab
  popRbackPtr := s.st1RtabPopTryPtr
  wbufHitOpen := i.wbuf.rtabHitOpen
  wbufHitPend := i.wbuf.rtabHitPend
  wbufHitSent := i.wbuf.rtabHitSent
  wbufNotReady := i.wbuf.rtabNotReady
  missReady := i.miss.mshrAllocReady
  refill := i.miss.refillUpdtRtab
  refillIsError := i.miss.refillIsError
  refillNline := i.miss.refillNline
  refillWayIndex := oneHotToBinary i.miss.refillWay
  flushAck := i.flush.ack
  flushAckNline := i.flush.ackNline
  flushReady := i.flush.allocReady
  cfgSingleEntry := g.rtabSingleEntry

-- st2_mshr_alloc_d, st2_flush_alloc_d and st2_dir_updt_d: outside of normal operation the requests of stage 2 stay, with what
-- stands in stage 1 beside them.
def mshrAllocD : Option MshrAlloc :=
  if normal (pipe g s i) then (decide1 g blank s i).mshrAlloc else s.st2MshrAlloc.map fun old => ⟨false,old.wback⟩

def flushAllocD : Bool := if normal (pipe g s i) then (decide1 g blank s i).flushAlloc else s.st2FlushAlloc.isSome

def dirUpdtD : Option DirUpdt := if normal (pipe g s i) then (decide1 g blank s i).dirUpdt else s.st2DirUpdt.map DirWrite.entry

def missAlloc (a : MshrAlloc) : MissAlloc c δ :=
  ⟨st1Req g s i.core,(st1Req g s i.core).op.isCmoPrefetch,a.wback,a.needRsp,i.dir.victimWay⟩

def flushAlloc : FlushAlloc c :=
  if dirHit i then ⟨(st1Req g s i.core).nline,i.dir.hitWay⟩ else ⟨i.dir.victimTag ++ (st1Req g s i.core).set,i.dir.victimWay⟩

def dirWrite (entry : DirUpdt) : DirWrite c :=
  if dirHit i then ⟨(st1Req g s i.core).set,i.dir.hitWay,i.dir.hitTag,entry⟩
  else ⟨(st1Req g s i.core).set,i.dir.victimWay,i.dir.victimTag,entry⟩

def next : State n c δ where
  st1Valid := st1ReqValid (config (c := c) g) (stage g s i) (answers g s i) (stage0 g blank s i) (pipe g s i)
  st1IsError := st1ReqIsError (stage g s i) (stage0 g blank s i) (pipe g s i)
  st1Req := if coreReady g blank s i || rtabReady g blank s i then st0Req g blank s i else s.st1Req
  st1Rtab := if coreReady g blank s i || rtabReady g blank s i then rtabReady g blank s i else s.st1Rtab
  st1RtabPopTryPtr := if rtabReady g blank s i then s.rtab.popTryPtr else s.st1RtabPopTryPtr
  st2MshrAlloc := (mshrAllocD g blank s i).map (missAlloc g s i)
  st2FlushAlloc := if flushAllocD g blank s i then some (flushAlloc g s i) else none
  st2DirUpdt := (dirUpdtD g blank s i).map (dirWrite g s i)
  rtab := ReplayTable.next s.rtab (rtabInput g blank s i)

end Sargantana.CachePipeline
