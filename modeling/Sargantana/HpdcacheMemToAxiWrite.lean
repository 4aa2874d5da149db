import Sargantana.HpdcacheMem

-- hpdcache_mem_to_axi_write_sarg with N_OUTSTANDING 4
namespace Sargantana.HpdcacheMemToAxiWrite

open DracPkg HpdcacheMem

-- hpdcache_mem_req_w_t: a flit of write data
structure Flit where
  data : BitVec 512
  be : BitVec 64
  deriving DecidableEq

structure DataEntry where
  txData : BitVec 512
  txStrb : BitVec 64
  totalBeats : BitVec 8
  deriving DecidableEq

inductive WState where
  | idle | send
  deriving DecidableEq, Repr

structure WChan where
  data : BitVec 64
  strb : BitVec 8
  last : Bool
  deriving DecidableEq

-- hpdcache_mem_resp_w_t
structure Resp where
  error : Bool
  id : BitVec 8
  isAtomic : Bool

structure State where
  reqQ : MemReq
  reqLatched : Bool
  txData : BitVec 512
  txStrb : BitVec 64
  dataLatched : Bool
  wordIdxQ : BitVec 3
  isUcQ : Bool
  dataFifo : Fin 4 → DataEntry
  dataWrPtr : Fin 4
  dataRdPtr : Fin 4
  respFifo : Fin 4 → BitVec 8
  respWrPtr : Fin 4
  respRdPtr : Fin 4
  wState : WState
  wData : BitVec 512
  wStrb : BitVec 64
  wTotalBeats : BitVec 8
  beatQ : BitVec 8

structure Input where
  reqValid : Bool
  req : MemReq
  reqDataValid : Bool
  reqData : Flit
  respReady : Bool
  axiAwReady : Bool
  axiWReady : Bool
  axiBValid : Bool
  axiBId : BitVec 8
  axiBResp : BitVec 2

def reset : State where
  reqQ := ⟨0,0,0,.read,false⟩
  reqLatched := false
  txData := 0
  txStrb := 0
  dataLatched := false
  wordIdxQ := 0
  isUcQ := false
  dataFifo := fun _ => ⟨0,0,0⟩
  dataWrPtr := 0
  dataRdPtr := 0
  respFifo := fun _ => 0
  respWrPtr := 0
  respRdPtr := 0
  wState := .idle
  wData := 0
  wStrb := 0
  wTotalBeats := 0
  beatQ := 0

def bothStaged (s : State) : Bool := s.reqLatched && s.dataLatched

-- data_word_idx and data_is_uc
def dataPlace (s : State) (i : Input) : BitVec 3 × Bool :=
  if s.reqLatched then (s.wordIdxQ,s.isUcQ)
  else if i.reqValid then (wordIdx i.req.addr,isUc i.req.size)
  else (0,false)

def dataFifoEmpty (s : State) : Bool := s.dataWrPtr == s.dataRdPtr
def dataFifoFull (s : State) : Bool := s.dataWrPtr + 1 == s.dataRdPtr
def respFifoEmpty (s : State) : Bool := s.respWrPtr == s.respRdPtr
def respFifoFull (s : State) : Bool := s.respWrPtr + 1 == s.respRdPtr

def canPush (s : State) : Bool := !dataFifoFull s && !respFifoFull s

def reqReady (s : State) : Bool := !s.reqLatched && canPush s

def reqDataReady (s : State) : Bool := !s.dataLatched && (canPush s || s.reqLatched)

def takesReq (s : State) (i : Input) : Bool := i.reqValid && reqReady s

def takesData (s : State) (i : Input) : Bool := i.reqDataValid && reqDataReady s

def axiAwValid (s : State) : Bool := bothStaged s && canPush s

def awFire (s : State) (i : Input) : Bool := bothStaged s && canPush s && i.axiAwReady

-- `code` are the ATOP codes of axi_pkg for the atomic operations.
def axiAtop (code : Atomic → BitVec 6) (command : Command) : BitVec 6 :=
  match command with
  | .atomic .ldex | .atomic .stex => 0
  | .atomic op => code op
  | .read | .write => 0

def awOf (code : Atomic → BitVec 6) (req : MemReq) : AxChan where
  id := req.id
  addr := req.addr
  len := axiLen req.size
  size := axiSize req.size
  lock := req.command == .atomic .stex
  cache := axiCache (req.cacheable && !(req.command == .atomic .stex))
  atop := axiAtop code req.command

def axiAw (code : Atomic → BitVec 6) (s : State) : AxChan := awOf code s.reqQ

def dataFifoPop (s : State) : Bool := decide (s.wState = .idle) && !dataFifoEmpty s

def axiWValid (s : State) : Bool := decide (s.wState = .send)

def axiW (s : State) : WChan where
  data := s.wData.setWidth 64
  strb := s.wStrb.setWidth 8
  last := s.beatQ == s.wTotalBeats - 1

def respFifoPop (s : State) (i : Input) : Bool := !respFifoEmpty s && i.axiBValid && i.respReady

def axiBReady (s : State) (i : Input) : Bool := !respFifoEmpty s && i.respReady

def respValid (s : State) (i : Input) : Bool := !respFifoEmpty s && i.axiBValid

-- RESP_EXOKAY is 1.
def resp (i : Input) : Resp := ⟨isError i.axiBResp,i.axiBId,i.axiBResp == 1⟩

-- The flit as it is staged: shifted to the first lane when it is of one beat
def staged (place : BitVec 3 × Bool) (f : Flit) : Flit :=
  if place.2 then ⟨f.data >>> (64 * place.1.toNat),f.be >>> (8 * place.1.toNat)⟩ else f

def curEntry (s : State) : DataEntry := s.dataFifo s.dataRdPtr

def next (s : State) (i : Input) : State where
  reqQ := if takesReq s i then i.req else s.reqQ
  reqLatched := if awFire s i then false else takesReq s i || s.reqLatched
  txData := if takesData s i then (staged (dataPlace s i) i.reqData).data else s.txData
  txStrb := if takesData s i then (staged (dataPlace s i) i.reqData).be else s.txStrb
  dataLatched := if awFire s i then false else takesData s i || s.dataLatched
  wordIdxQ := if takesReq s i then wordIdx i.req.addr else s.wordIdxQ
  isUcQ := if takesReq s i then isUc i.req.size else s.isUcQ
  dataFifo := if awFire s i then Function.update s.dataFifo s.dataWrPtr ⟨s.txData,s.txStrb,axiLen s.reqQ.size + 1⟩ else s.dataFifo
  dataWrPtr := if awFire s i then s.dataWrPtr + 1 else s.dataWrPtr
  dataRdPtr := if dataFifoPop s then s.dataRdPtr + 1 else s.dataRdPtr
  respFifo := if awFire s i then Function.update s.respFifo s.respWrPtr s.reqQ.id else s.respFifo
  respWrPtr := if awFire s i then s.respWrPtr + 1 else s.respWrPtr
  respRdPtr := if respFifoPop s i then s.respRdPtr + 1 else s.respRdPtr
  wState :=
    match s.wState with
    | .idle => if dataFifoEmpty s then .idle else .send
    | .send => if i.axiWReady && s.beatQ == s.wTotalBeats - 1 then .idle else .send
  wData :=
    match s.wState with
    | .idle => if dataFifoEmpty s then s.wData else (curEntry s).txData
    | .send => if i.axiWReady then s.wData >>> 64 else s.wData
  wStrb :=
    match s.wState with
    | .idle => if dataFifoEmpty s then s.wStrb else (curEntry s).txStrb
    | .send => if i.axiWReady then s.wStrb >>> 8 else s.wStrb
  wTotalBeats :=
    match s.wState with
    | .idle => if dataFifoEmpty s then s.wTotalBeats else (curEntry s).totalBeats
    | .send => s.wTotalBeats
  beatQ :=
    match s.wState with
    | .idle => if dataFifoEmpty s then s.beatQ else 0
    | .send => if i.axiWReady then s.beatQ + 1 else s.beatQ

end Sargantana.HpdcacheMemToAxiWrite
