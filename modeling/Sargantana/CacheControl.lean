import Sargantana.CmoCompletion
import Sargantana.FlushController
import Sargantana.MissHandler
import Sargantana.ReplayOrder
import Sargantana.UncachedHandler

-- The control of the data cache (hpdcache_sarg): its pipeline and directory with the handlers around them. The write buffer, the
-- data memory and the memory interfaces stay outside, and wdata and be with them.
namespace Sargantana.CacheControl

open Arbiters HpdcachePkg Handshake

-- size of a request; `who` holds sid and tid.
structure Carried (δ : Type) where
  size : BitVec 3
  who : δ

-- The parameters of the cache, its settings as the pipeline gets them, and its choice of victims; `ch` is the buffer behind the
-- flush controller.
structure Params (c : Cfg) (δ ν ρ ι ο : Type) where
  g : CachePipeline.Settings
  P : CacheDirectory.Policy c ν
  ch : Channel ρ ι ο
  blank : ReplayTable.Entry c (Carried δ)
  reqWords : Nat
  lastChunkWord : Nat
  memReqFlits : Nat
  refillCoreRspFeedthrough : Bool
  cfgErrorOnCacheableAmo : Bool

-- n entries of the replay table, f slots of the flush controller and d cells in the buffer of responses
structure State (n f d : Nat) (c : Cfg) (δ ν ρ : Type) where
  ctrl : CachePipeline.State n c (Carried δ)
  miss : MissHandler.State c δ
  metaFifo : RegFifo.Cells d (MissHandler.Meta c)
  coreRspBuf : RegFifo.Cells 1 (MissHandler.CoreRsp c δ)
  flush : FlushController.State f c ρ
  cmo : CmoHandler.State c δ
  uc : UncachedHandler.State c
  dir : CacheDirectory.State c ν

structure FlushSide (f : Nat) (ι : Type) where
  readData : ι
  reqReady : Bool
  dataReady : Bool
  resp : Option (Fin f)

structure UcSide where
  readReady : Bool
  readResp : Option UncachedHandler.ReadResp
  writeReady : Bool
  writeDataReady : Bool
  writeResp : Option UncachedHandler.WriteResp

-- `resp` is the last beat of a response of the memory once its data has a place, or an invalidation (HPDCACHE_OPENPITON).
structure Input (f : Nat) (c : Cfg) (δ ι : Type) where
  core : CachePipeline.CoreReq c (Carried δ)
  wbuf : CachePipeline.Wbuf
  wbufEmpty : Bool
  readReady : Bool
  resp : Option (MissHandler.Meta c)
  flush : FlushSide f ι
  uc : UcSide

variable {n f d : Nat} [NeZero n] [NeZero f] {c : Cfg} [NeZero c.mshrWays] [NeZero c.ways] {δ ν ρ ι ο : Type}

-- uc_req_op_o and cmo_req_op_o
def ucOp : Op → Option UncachedHandler.UcOp
  | .load => some .ld
  | .store => some .st
  | .amoLr => some .amoLr
  | .amoSc => some .amoSc
  | .amoSwap => some .amoSwap
  | .amoAdd => some .amoAdd
  | .amoAnd => some .amoAnd
  | .amoOr => some .amoOr
  | .amoXor => some .amoXor
  | .amoMax => some .amoMax
  | .amoMaxu => some .amoMaxu
  | .amoMin => some .amoMin
  | .amoMinu => some .amoMinu
  | _ => none

def cmoOp : Op → Option CmoHandler.CmoOp
  | .cmoFence => some .fence
  | .cmoInvalNline => some .invalByNline
  | .cmoInvalAll => some .invalAll
  | .cmoFlushNline => some .flushByNline
  | .cmoFlushAll => some .flushAll
  | .cmoFlushInvalNline => some .flushInvalByNline
  | .cmoFlushInvalAll => some .flushInvalAll
  | _ => none

-- st1_req_word
def word (r : Req c (Carried δ)) : BitVec c.clWordIdxWidth :=
  r.addrOffset.extractLsb' (c.clOffsetWidth - c.clWordIdxWidth) c.clWordIdxWidth

variable (p : Params c δ ν ρ ι ο) (s : State n f d c δ ν ρ) (x : Input f c δ ι)

-- What the memories, and the registers that are not reset, hold at first
structure Start (f : Nat) (c : Cfg) (δ ν ρ : Type) where
  mshr : Fin c.mshrWays → Sram (Mshr.Set c) (Mshr.Entry c δ)
  dir : Fin c.ways → Sram (BitVec c.setWidth) (DirEntry c)
  victim : ν
  resizer : ρ
  miss : Mshr.Entry c δ
  resp : MissHandler.Meta c
  rsp : MissHandler.CoreRsp c δ
  flush : FlushController.MemReq f c
  cmo : CmoHandler.FlushReq c
  uc : UncachedHandler.Request c

def reset (u : Start f c δ ν ρ) : State n f d c δ ν ρ where
  ctrl := CachePipeline.reset p.blank
  miss := MissHandler.reset u.miss u.mshr
  metaFifo := RegFifo.reset u.resp d
  coreRspBuf := RegFifo.reset u.rsp 1
  flush := FlushController.reset u.flush u.resizer
  cmo := CmoHandler.reset u.rsp.who u.cmo
  uc := UncachedHandler.reset u.uc
  dir := CacheDirectory.reset u.dir u.victim

namespace State

def req1 : Req c (Carried δ) := CachePipeline.st1Req p.g s.ctrl x.core

def metaFifoWdata : MissHandler.Meta c := x.resp.getD ⟨false,(0,0),false,0⟩

def respHead : Option (MissHandler.Meta c) :=
  if (RegFifo.fifo d false).rok s.metaFifo x.resp.isSome then some ((RegFifo.fifo d false).rdata s.metaFifo (metaFifoWdata x)) else none

def metaBeat : Beat (MissHandler.Meta c) := ⟨x.resp.isSome,metaFifoWdata x,false,s.miss.metaRead p.lastChunkWord⟩

def missCoreRsp : Option (MissHandler.CoreRsp c δ) := s.miss.coreRsp p.reqWords (s.respHead x)

def coreRspBeat : Beat (MissHandler.CoreRsp c δ) :=
  ⟨(s.missCoreRsp p x).isSome,(s.missCoreRsp p x).getD (s.coreRspBuf : RegFifo.Buffer _).buf,false,true⟩

def refillCoreRspValid : Bool := (RegFifo.fifo 1 p.refillCoreRspFeedthrough).rok s.coreRspBuf (s.missCoreRsp p x).isSome

def cmoAnswer : CmoHandler.DirAnswer c := CmoCompletion.answer s.cmo s.dir

-- Both the pipeline and the handler of the cache management operations may ask for a flush.
def flushAlloc : Option (CmoHandler.FlushReq c) :=
  match s.ctrl.st2FlushAlloc with
  | some a => some ⟨a.nline,a.way⟩
  | none => s.cmo.flushAlloc s.cmoAnswer

def flushIn : FlushController.Input f c ι where
  checkNline := (s.req1 p x).nline
  alloc := s.flushAlloc.isSome
  allocNline := (s.flushAlloc.map CmoHandler.FlushReq.nline).getD 0
  allocWay := (s.flushAlloc.map CmoHandler.FlushReq.way).getD fun _ => false
  readData := x.flush.readData
  reqReady := x.flush.reqReady
  dataReady := x.flush.dataReady
  resp := x.flush.resp

-- Without write back there is no flush controller.
def flushAnswer : CachePipeline.Flush c :=
  if c.wbEn then
    ⟨s.flush.busy,s.flush.checkHit (s.flushIn p x),s.flush.allocReady p.ch (s.flushIn p x),(s.flush.ack (s.flushIn p x)).isSome,
      (s.flush.ack (s.flushIn p x)).getD 0⟩
  else ⟨false,false,true,false,0⟩

def flushEmpty : Bool := !c.wbEn || s.flush.empty

def refillWay : c.Ways := fun w => decide (w.val = s.miss.entry.victimWayIdx)

def missAnswer : CachePipeline.Miss c where
  mshrAllocReady := s.miss.allocReady
  mshrHit := s.miss.mshr.hit (lineTag (s.req1 p x).nline)
  mshrFull := s.miss.mshr.allocFull
  refillReqValid := s.miss.refillReqValid (s.respHead x)
  refillBusy := s.miss.refillBusy
  refillUpdtRtab := s.miss.updtRtab p.lastChunkWord
  refillIsError := MissHandler.isError (s.respHead x)
  refillNline := s.miss.nline
  refillWay := s.refillWay

def hitWay : c.Ways := s.dir.hitWay (s.req1 p x).addrTag

def victimWay : c.Ways := p.P.way s.dir.victim s.dir.row (s.req1 p x).set

def bitOf (way : c.Ways) (bit : DirEntry c → Bool) : Bool := any fun w => way w && bit (s.dir.row w)

def dirAnswer : CachePipeline.DirAnswer c where
  hitWay := s.hitWay p x
  hitTag := s.dir.mux (s.hitWay p x)
  hitWback := s.bitOf (s.hitWay p x) DirEntry.wback
  hitDirty := s.bitOf (s.hitWay p x) DirEntry.dirty
  hitFetch := s.bitOf (s.hitWay p x) DirEntry.fetch
  victimWay := s.victimWay p x
  victimTag := s.dir.mux (s.victimWay p x)
  victimValid := s.bitOf (s.victimWay p x) DirEntry.valid
  victimWback := s.bitOf (s.victimWay p x) DirEntry.wback
  victimDirty := s.bitOf (s.victimWay p x) DirEntry.dirty

-- uc_core_rsp_ready_o and cmo_core_rsp_ready_o
def rspReady : Bool := !s.refillCoreRspValid p x

def ctrlIn : CachePipeline.Input c (Carried δ) where
  core := x.core
  initReady := s.dir.ready
  dir := s.dirAnswer p x
  miss := s.missAnswer p x
  wbuf := x.wbuf
  flush := s.flushAnswer p x
  handlers := ⟨!s.cmo.reqReady (s.rspReady p x),s.cmo.reqWait,!s.uc.reqReady⟩

def decide1 : CacheEngine.Decision := CachePipeline.decide1 p.g p.blank s.ctrl (s.ctrlIn p x)

def coreReady : Bool := CachePipeline.coreReady p.g p.blank s.ctrl (s.ctrlIn p x)

def rtabReady : Bool := CachePipeline.rtabReady p.g p.blank s.ctrl (s.ctrlIn p x)

def refillReady : Bool := CachePipeline.refillReady p.g s.ctrl (s.ctrlIn p x)

def normal : Bool := CacheEngine.normal (CachePipeline.pipe p.g s.ctrl (s.ctrlIn p x))

def req0 : Req c (Carried δ) := CachePipeline.st0Req p.g p.blank s.ctrl (s.ctrlIn p x)

-- st0_req_mshr_check_o and st0_req_cachedir_read_o
def st0Read : Bool :=
  CacheEngine.mshrCheck (CachePipeline.config (c := c) p.g) (CachePipeline.stage p.g s.ctrl (s.ctrlIn p x))
    (CachePipeline.answers p.g s.ctrl (s.ctrlIn p x)) (CachePipeline.stage0 p.g p.blank s.ctrl (s.ctrlIn p x))
    (CachePipeline.pipe p.g s.ctrl (s.ctrlIn p x))

def missIn : MissHandler.Input c δ where
  check := s.st0Read p x
  checkSet := (s.req0 p x).set
  alloc := s.ctrl.st2MshrAlloc.map fun a =>
    ⟨a.req.nline,a.req.carried.who,word a.req,oneHotToBinary a.victimWay,a.needRsp,a.isPrefetch,a.wback⟩
  allocCs := s.normal p x && s.ctrl.st2MshrAlloc.isSome
  memReqReady := x.readReady
  refillReqReady := s.refillReady p x
  resp := s.respHead x
  invalHit := any (s.dir.hitWay (lineTag ((s.respHead x).elim 0 MissHandler.Meta.invalNline)))
  prefetchUpdtSelVictim := p.g.prefetchUpdtPlru

def ucReq : Option (UncachedHandler.Request c) :=
  if (s.decide1 p x).ucReqValid then
    some ⟨ucOp (s.req1 p x).op,(s.req1 p x).addr,(s.req1 p x).carried.size,!p.g.enable || (s.req1 p x).pma.uncacheable,
      (s.req1 p x).needRsp⟩
  else none

def ctrlEmpty : Bool := CachePipeline.ctrlEmpty s.ctrl

-- The tag of the line that an atomic operation updates
def amoNline : c.Nline := UncachedHandler.addrNline s.uc.req.addr

def amoHitWay : c.Ways := s.dir.hitWay (lineTag s.amoNline)

def ucIn : UncachedHandler.Input c where
  wbufEmpty := x.wbufEmpty
  mshrEmpty := s.miss.empty
  rtabEmpty := s.ctrl.rtab.empty
  ctrlEmpty := s.ctrlEmpty
  flushEmpty := s.flushEmpty
  req := s.ucReq p x
  rspReady := s.rspReady p x
  snoop := if s.ctrl.st1Valid && (s.req1 p x).op.isStore then some ((s.req1 p x).addr,(s.req1 p x).carried.size) else none
  readReady := x.uc.readReady
  readResp := x.uc.readResp
  writeReady := x.uc.writeReady
  writeDataReady := x.uc.writeDataReady
  writeResp := x.uc.writeResp
  refillBusy := s.miss.refillBusy
  refillReqValid := s.miss.refillReqValid (s.respHead x)
  cfgErrorOnCacheableAmo := p.cfgErrorOnCacheableAmo

def cmoReq : Option (CmoHandler.Request c δ) :=
  if (s.decide1 p x).cmoReqValid then
    (cmoOp (s.req1 p x).op).map fun op => ⟨op,(s.req1 p x).nline,(s.req1 p x).carried.who,(s.req1 p x).needRsp⟩
  else none

def cmoIn : CmoHandler.Input c δ where
  wbufEmpty := x.wbufEmpty
  mshrEmpty := s.miss.empty
  rtabEmpty := s.ctrl.rtab.empty
  ctrlEmpty := s.ctrlEmpty
  req := s.cmoReq p x
  rspReady := s.rspReady p x
  dir := s.cmoAnswer
  flushEmpty := s.flushEmpty
  flushAllocReady := (s.flushAnswer p x).allocReady

-- updt_sel_victim with its way and its set
def victimUpdt : Option (CacheDirectory.VictimUpdt c) :=
  let refill := s.miss.updtSelVictim p.lastChunkWord (s.missIn p x)
  if (s.decide1 p x).cachedirUpdtSelVictim || refill || decide (s.uc.fsm = .amoWriteData) then
    some {
      set := if refill then s.miss.set (s.respHead x) else s.dir.reqSet
      way := if (s.decide1 p x).cachedirUpdtSelVictim then s.hitWay p x else if refill then s.refillWay else s.amoHitWay }
  else none

def dirIn : CacheDirectory.Input c where
  matchSet := if s.st0Read p x then some (s.req0 p x).set else none
  amoMatchSet := if s.uc.amoMatch (s.ucIn p x) then some (lineSet s.amoNline) else none
  refill :=
    if s.miss.writeDir p.lastChunkWord then some ⟨s.miss.set (s.respHead x),s.refillWay,s.miss.dirEntry (s.respHead x)⟩ else none
  invalCheck := s.miss.invalCheck (s.missIn p x)
  invalWrite := s.miss.invalWrite (s.missIn p x)
  invalNline := (s.respHead x).elim 0 MissHandler.Meta.invalNline
  cmoCheckNlineSet := s.cmo.dirCheckNline (s.cmoIn p x)
  cmoCheckEntry := s.cmo.dirCheckEntry (s.cmoIn p x)
  cmoUpdt := s.cmo.dirUpdt (s.cmoIn p x)
  updt := s.ctrl.st2DirUpdt.map fun u => ⟨u.set,u.way,u.entry.valid,u.entry.wback,u.entry.dirty,u.entry.fetch,u.tag⟩
  victimUpdt := s.victimUpdt p x
  victimSel := (s.decide1 p x).cachedirSelVictim

end State

def next : State n f d c δ ν ρ where
  ctrl := CachePipeline.next p.g p.blank s.ctrl (s.ctrlIn p x)
  miss := MissHandler.next p.lastChunkWord s.miss (s.missIn p x)
  metaFifo := (RegFifo.fifo d false).next s.metaFifo (s.metaBeat p x)
  coreRspBuf := (RegFifo.fifo 1 p.refillCoreRspFeedthrough).next s.coreRspBuf (s.coreRspBeat p x)
  flush := if c.wbEn then FlushController.next p.ch p.memReqFlits s.flush (s.flushIn p x) else s.flush
  cmo := CmoHandler.next s.cmo (s.cmoIn p x)
  uc := UncachedHandler.next s.uc (s.ucIn p x)
  dir := CacheDirectory.next p.P s.dir (s.dirIn p x)

structure World (n f d : Nat) (c : Cfg) (δ ν ρ : Type) where
  cache : State n f d c δ ν ρ
  arrived : List (Req c (Carried δ))
  executed : List (Req c (Carried δ))

-- Nothing is asked of the cores, the memory and the write buffer.
def machine (start : State n f d c δ ν ρ) :
    StateMachine.Machine (World n f d c δ ν ρ) (Input f c δ ι) where
  initial := ⟨start,[],[]⟩
  allowed _ _ := True
  step w x :=
    { cache := next p w.cache x
      arrived := w.arrived ++ (ReplayOrder.arrives p.g p.blank w.cache.ctrl (w.cache.ctrlIn p x)).toList
      executed := w.executed ++ (ReplayOrder.executes p.g p.blank w.cache.ctrl (w.cache.ctrlIn p x)).toList }

end Sargantana.CacheControl
