import Sargantana.DracPkg

-- sargantana_icache_axi_wrap with PHY_ADDR_SIZE 40, AXI_DATA_WIDTH 64 and AXI_ADDR_WIDTH 64
namespace Sargantana.IcacheAxiWrap

inductive Wrap where
  | idle | sendAr | receiving | deliver
  deriving DecidableEq, Repr

structure State where
  state : Wrap
  addr : BitVec 40
  line : BitVec 512

structure Input where
  reqValid : Bool
  reqPaddr : BitVec 40
  axiArReady : Bool
  axiRValid : Bool
  axiRData : BitVec 64
  axiRLast : Bool

def reset : State where
  state := .idle
  addr := 0
  line := 0

def stateD (s : State) (i : Input) : Wrap :=
  match s.state with
  | .idle => if i.reqValid then (if i.axiArReady then .receiving else .sendAr) else .idle
  | .sendAr => if i.axiArReady then .receiving else .sendAr
  | .receiving => if i.axiRValid && i.axiRLast then .deliver else .receiving
  | .deliver => .idle

def axiArValid (s : State) (i : Input) : Bool := decide (s.state = .sendAr) || (decide (s.state = .idle) && i.reqValid)

-- The AR channel: the fields that are not zero
structure ArChan where
  addr : BitVec 64
  len : BitVec 8
  size : BitVec 3
  burst : BitVec 2
  cache : BitVec 4
  deriving DecidableEq

def axiAr (s : State) (i : Input) : ArChan where
  addr := (if s.state = .idle then i.reqPaddr else s.addr).setWidth 64
  len := 7
  size := 0b011
  burst := 0b01
  cache := 0b1011

def axiRReady (s : State) : Bool := decide (s.state = .receiving)

def respValid (s : State) : Bool := decide (s.state = .deliver)

def respData (s : State) : BitVec 512 := s.line

def next (s : State) (i : Input) : State where
  state := stateD s i
  addr :=
    match s.state with
    | .idle => if i.reqValid then i.reqPaddr else s.addr
    | _ => s.addr
  line :=
    match s.state with
    | .idle => if i.reqValid then 0 else s.line
    | .receiving => if i.axiRValid then i.axiRData ++ s.line.extractLsb' 64 448 else s.line
    | _ => s.line

end Sargantana.IcacheAxiWrap
