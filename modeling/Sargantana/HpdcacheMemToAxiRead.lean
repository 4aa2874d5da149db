import Sargantana.HpdcacheMem

-- hpdcache_mem_to_axi_read_sarg with META_FIFO_DEPTH 4
namespace Sargantana.HpdcacheMemToAxiRead

open DracPkg HpdcacheMem

structure ArMeta where
  isUc : Bool
  wordIdx : BitVec 3
  deriving DecidableEq, Repr

inductive RState where
  | assemble | deliver
  deriving DecidableEq, Repr

structure State where
  metaQ : Fin 4 → ArMeta
  metaWrPtr : Fin 4
  metaRdPtr : Fin 4
  rState : RState
  line : BitVec 512
  err : Bool
  respId : BitVec 8

structure Input where
  reqValid : Bool
  req : MemReq
  respReady : Bool
  axiArReady : Bool
  axiRValid : Bool
  axiRData : BitVec 64
  axiRId : BitVec 8
  axiRResp : BitVec 2
  axiRLast : Bool

def reset : State where
  metaQ := fun _ => ⟨false,0⟩
  metaWrPtr := 0
  metaRdPtr := 0
  rState := .assemble
  line := 0
  err := false
  respId := 0

def axiAr (i : Input) : AxChan where
  id := i.req.id
  addr := i.req.addr
  len := axiLen i.req.size
  size := axiSize i.req.size
  lock := i.req.command == .atomic .ldex
  cache := axiCache i.req.cacheable
  atop := 0

def axiArValid (i : Input) : Bool := i.reqValid

def metaFull (s : State) : Bool := s.metaWrPtr + 1 == s.metaRdPtr

def reqReady (s : State) (i : Input) : Bool := i.axiArReady && !metaFull s

def metaPush (s : State) (i : Input) : Bool := i.reqValid && i.axiArReady && !metaFull s

def metaOf (req : MemReq) : ArMeta := ⟨isUc req.size,wordIdx req.addr⟩

def curMeta (s : State) : ArMeta := s.metaQ s.metaRdPtr

def metaPop (s : State) (i : Input) : Bool := decide (s.rState = .assemble) && i.axiRValid && i.axiRLast

def axiRReady (s : State) : Bool := decide (s.rState = .assemble)

def respValid (s : State) : Bool := decide (s.rState = .deliver)

-- The line after a beat: shifted to its word, or shifted in from above
def lineAfter (m : ArMeta) (line : BitVec 512) (data : BitVec 64) : BitVec 512 :=
  if m.isUc then data.setWidth 512 <<< (m.wordIdx.toNat * 64) else data ++ line.extractLsb' 64 448

def lineNext (s : State) (i : Input) : BitVec 512 :=
  if i.axiRValid && decide (s.rState = .assemble) then lineAfter (curMeta s) s.line i.axiRData else s.line

def next (s : State) (i : Input) : State where
  metaQ := if metaPush s i then Function.update s.metaQ s.metaWrPtr (metaOf i.req) else s.metaQ
  metaWrPtr := if metaPush s i then s.metaWrPtr + 1 else s.metaWrPtr
  metaRdPtr := if metaPop s i then s.metaRdPtr + 1 else s.metaRdPtr
  rState :=
    match s.rState with
    | .assemble => if i.axiRValid && i.axiRLast then .deliver else .assemble
    | .deliver => if i.respReady then .assemble else .deliver
  line :=
    match s.rState with
    | .assemble => if i.axiRValid then lineNext s i else s.line
    | .deliver => if i.respReady then 0 else s.line
  err :=
    match s.rState with
    | .assemble => if i.axiRValid && isError i.axiRResp then true else s.err
    | .deliver => if i.respReady then false else s.err
  respId :=
    match s.rState with
    | .assemble => if i.axiRValid && i.axiRLast then i.axiRId else s.respId
    | .deliver => s.respId

end Sargantana.HpdcacheMemToAxiRead
