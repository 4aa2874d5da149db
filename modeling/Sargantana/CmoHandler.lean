import Sargantana.CacheDirectory
import Sargantana.RegFifo

-- The handler of the cache management operations (hpdcache_cmo_sarg): it waits until the cache is at rest, then goes through
-- the directory.
namespace Sargantana.CmoHandler

open Arbiters HpdcachePkg Handshake CacheDirectory

-- hpdcache_cmo_sargh_op_t, of which one line is set
inductive CmoOp where
  | fence | invalByNline | invalAll | flushByNline | flushAll | flushInvalByNline | flushInvalAll
  deriving DecidableEq, Repr

inductive Fsm where
  | idle | fenceWaitWbufRtabEmpty | waitMshrRtabEmpty | invalCheckNline | invalSet | flushAllFirst | flushAllNext | flushAllLast
  | flushNlineFirst | flushNlineNext
  deriving DecidableEq, Repr

structure FlushReq (c : Cfg) where
  nline : c.Nline
  way : c.Ways

structure Request (c : Cfg) (δ : Type) where
  op : CmoOp
  nline : c.Nline
  who : δ
  needRsp : Bool

structure State (c : Cfg) (δ : Type) where
  fsm : Fsm
  op : CmoOp
  nline : c.Nline
  way : c.Ways
  set : BitVec c.setWidth
  flushReqValid : Bool
  flushReqSet : BitVec c.setWidth
  flushReqWay : c.Ways
  flushReqInval : Bool
  rspSend : Bool
  rspBuffer : RegFifo.Cells 1 δ
  flushFifo : RegFifo.Cells 3 (FlushReq c)

structure DirAnswer (c : Cfg) where
  nlineHitWay : c.Ways
  nlineWback : Bool
  nlineDirty : Bool
  entryValid : Bool
  entryWback : Bool
  entryDirty : Bool
  entryTag : BitVec c.tagWidth

structure Input (c : Cfg) (δ : Type) where
  wbufEmpty : Bool
  mshrEmpty : Bool
  rtabEmpty : Bool
  ctrlEmpty : Bool
  req : Option (Request c δ)
  rspReady : Bool
  dir : DirAnswer c
  flushEmpty : Bool
  flushAllocReady : Bool

variable {c : Cfg} {δ : Type}

-- The operation register is read after it is written only.
def reset (who : δ) (blank : FlushReq c) : State c δ where
  fsm := .idle
  op := .fence
  nline := 0
  way _ := false
  set := 0
  flushReqValid := false
  flushReqSet := 0
  flushReqWay _ := false
  flushReqInval := false
  rspSend := false
  rspBuffer := RegFifo.reset who 1
  flushFifo := RegFifo.reset blank 3

-- Where an operation begins once the cache is at rest. A fence is not an operation on the directory.
def starts : CmoOp → Fsm
  | .fence => .waitMshrRtabEmpty
  | .invalByNline => .invalCheckNline
  | .invalAll => .invalSet
  | .flushByNline | .flushInvalByNline => .flushNlineFirst
  | .flushAll | .flushInvalAll => .flushAllFirst

def invalidates : CmoOp → Bool
  | .flushInvalByNline | .flushInvalAll => true
  | _ => false

def flushes : CmoOp → Bool
  | .flushByNline | .flushAll | .flushInvalByNline | .flushInvalAll => true
  | _ => false

def buffer (δ : Type) : Channel (RegFifo.Cells 1 δ) δ δ := RegFifo.fifo 1 false

def fifo (c : Cfg) : Channel (RegFifo.Cells 3 (FlushReq c)) (FlushReq c) (FlushReq c) := RegFifo.fifo 3 true

def Input.atRest (i : Input c δ) : Bool := i.mshrEmpty && i.rtabEmpty && i.ctrlEmpty

def Input.idleNext (i : Input c δ) (r : Request c δ) : Fsm :=
  match r.op with
  | .fence => if !i.rtabEmpty || !i.wbufEmpty then .fenceWaitWbufRtabEmpty else .idle
  | op => if i.atRest then starts op else .waitMshrRtabEmpty

variable [NeZero c.ways] (s : State c δ) (i : Input c δ) (rspReady : Bool) (dir : DirAnswer c)

namespace State

def rspRok : Bool := (buffer δ).rok s.rspBuffer false

def rspR : Bool := s.rspSend && rspReady

def reqReady : Bool := decide (s.fsm = .idle) && (!s.rspRok || s.rspR rspReady)

def reqWait : Bool := decide (s.fsm = .fenceWaitWbufRtabEmpty) || decide (s.fsm = .waitMshrRtabEmpty)

def request : Option (Request c δ) := if s.reqReady i.rspReady then i.req else none

def rspValid : Bool := s.rspRok && s.rspSend

-- The flush requests are only there where lines are written back.
def flushReqW : Bool :=
  c.wbEn && s.flushReqValid &&
    match s.fsm with
    | .flushAllNext | .flushAllLast => dir.entryValid && dir.entryDirty
    | .flushNlineNext => any dir.nlineHitWay && dir.nlineDirty
    | _ => false

def flushReqWok : Bool := !c.wbEn || (fifo c).wok s.flushFifo i.flushAllocReady

def flushReqWdata : FlushReq c :=
  match s.fsm with
  | .flushNlineNext => ⟨s.nline,dir.nlineHitWay⟩
  | _ => ⟨dir.entryTag ++ s.flushReqSet,s.flushReqWay⟩

def fifoBeat : Beat (FlushReq c) := ⟨s.flushReqW i.dir,s.flushReqWdata i.dir,false,i.flushAllocReady⟩

-- flush_alloc_o with its line and way
def flushAlloc : Option (FlushReq c) :=
  if c.wbEn && (fifo c).rok s.flushFifo (s.flushReqW dir) then some ((fifo c).rdata s.flushFifo (s.flushReqWdata dir)) else none

def checksEntry : Bool :=
  match s.fsm with
  | .flushAllFirst => c.wbEn && s.flushReqWok i
  | .flushAllNext => !s.flushReqValid && s.flushReqWok i
  | _ => false

-- dir_check_entry_o and dir_check_nline_o
def dirCheckEntry : Option (BitVec c.setWidth × c.Ways) := if s.checksEntry i then some (s.set,s.way) else none

def dirCheckNline : Option (BitVec c.setWidth) :=
  match s.fsm with
  | .invalCheckNline => some (lineSet s.nline)
  | .flushNlineFirst => if c.wbEn && s.flushReqWok i then some (lineSet s.nline) else none
  | _ => none

def entryUpdt : Option (Write c) :=
  if s.flushReqValid && (i.dir.entryValid && (i.dir.entryDirty || s.flushReqInval)) then
    some ⟨s.flushReqSet,s.flushReqWay,!s.flushReqInval,!s.flushReqInval && i.dir.entryWback,false,false,i.dir.entryTag⟩
  else none

def dirUpdt : Option (Write c) :=
  match s.fsm with
  | .invalSet =>
    match s.op with
    | .invalByNline | .flushInvalByNline => if any i.dir.nlineHitWay then some ⟨lineSet s.nline,i.dir.nlineHitWay,blankEntry⟩ else none
    | .invalAll | .flushInvalAll => some ⟨s.set,fun _ => true,blankEntry⟩
    | _ => none
  | .flushAllNext | .flushAllLast => s.entryUpdt i
  | .flushNlineNext =>
    if s.flushReqValid && any i.dir.nlineHitWay then
      some ⟨lineSet s.nline,i.dir.nlineHitWay,!s.flushReqInval,!s.flushReqInval && i.dir.nlineWback,false,false,lineTag s.nline⟩
    else none
  | _ => none

def setLast : Bool := decide (s.set = BitVec.ofNat _ (c.sets - 1))

def wayLast : Bool := s.way (-1)

-- The way before, or none for the first one
def wayShifted : c.Ways := fun w => if w = 0 then false else s.way (w - 1)

-- The end of an operation, when its flush requests are all done
def drained : Bool := i.flushEmpty && (s.flushAlloc i.dir).isNone

def invalSetNext : Fsm :=
  match s.op with
  | .invalByNline | .flushInvalByNline => .idle
  | .invalAll | .flushInvalAll => if s.setLast then .idle else .invalSet
  | _ => .invalSet

def fsmNext : Fsm :=
  match s.fsm with
  | .idle => ((s.request i).map i.idleNext).getD .idle
  | .fenceWaitWbufRtabEmpty => if i.wbufEmpty && i.rtabEmpty then .idle else .fenceWaitWbufRtabEmpty
  | .waitMshrRtabEmpty => if i.atRest then starts s.op else .waitMshrRtabEmpty
  | .invalCheckNline => .invalSet
  | .invalSet => s.invalSetNext
  | .flushAllFirst =>
    if c.wbEn then if s.flushReqWok i then .flushAllNext else .flushAllFirst
    else if s.flushReqInval then .invalSet else .idle
  | .flushAllNext => if s.checksEntry i && (s.setLast && s.wayLast) then .flushAllLast else .flushAllNext
  | .flushAllLast => if s.drained i then .idle else .flushAllLast
  | .flushNlineFirst =>
    if c.wbEn then if s.flushReqWok i then .flushNlineNext else .flushNlineFirst
    else if s.flushReqInval then .invalCheckNline else .idle
  | .flushNlineNext => if s.drained i then .idle else .flushNlineNext

def latches : Option (Request c δ) := if s.fsm = .idle then (s.request i).filter fun r => r.op ≠ .fence else none

def setIncr : Bool :=
  match s.fsm with
  | .invalSet => s.op == .invalAll || s.op == .flushInvalAll
  | .flushAllFirst | .flushAllNext => s.checksEntry i && s.wayLast
  | _ => false

def flushReqValidNext : Bool :=
  match s.fsm with
  | .flushAllFirst => s.checksEntry i || s.flushReqValid
  | .flushAllNext => s.checksEntry i
  | .flushNlineFirst => c.wbEn && s.flushReqWok i || s.flushReqValid
  | .flushAllLast | .flushNlineNext => false
  | _ => s.flushReqValid

def began : Option CmoOp :=
  match s.fsm with
  | .idle => if i.atRest then (s.latches i).map Request.op else none
  | .waitMshrRtabEmpty => if i.atRest then some s.op else none
  | _ => none

def rspSendNext : Bool :=
  match s.fsm with
  | .idle =>
    match s.request i with
    | some r => if r.op = .fence ∧ i.rtabEmpty = true ∧ i.wbufEmpty = true then r.needRsp else s.rspSend && !s.rspR i.rspReady
    | none => s.rspSend && !s.rspR i.rspReady
  | _ => if s.fsmNext i = .idle then s.rspRok else s.rspSend

end State

def next : State c δ where
  fsm := s.fsmNext i
  op := ((s.latches i).map Request.op).getD s.op
  nline := ((s.latches i).map Request.nline).getD s.nline
  way :=
    if (s.latches i).isSome then oneHot 0
    else if s.checksEntry i then if s.wayLast then oneHot 0 else s.wayShifted
    else s.way
  set :=
    if (s.latches i).isSome then 0
    else if s.setIncr i then if s.setLast then 0 else s.set + 1
    else s.set
  flushReqValid := s.flushReqValidNext i
  flushReqSet := if s.checksEntry i then s.set else s.flushReqSet
  flushReqWay := if s.checksEntry i then s.way else s.flushReqWay
  flushReqInval :=
    match s.began i with
    | some op => if flushes op then invalidates op else s.flushReqInval
    | none => s.flushReqInval
  rspSend := s.rspSendNext i
  rspBuffer := (buffer δ).next s.rspBuffer
    ⟨(s.request i).any Request.needRsp,((s.request i).map Request.who).getD (s.rspBuffer : RegFifo.Buffer δ).buf,false,s.rspR i.rspReady⟩
  flushFifo := if c.wbEn then (fifo c).next s.flushFifo (s.fifoBeat i) else s.flushFifo

variable {s i}

omit [NeZero c.ways] in
theorem drained_empty (drained : s.drained i = true) (back : c.wbEn = true) :
    RegFifo.contents 3 s.flushFifo = [] ∧ s.flushReqW i.dir = false := by
  simp only [State.drained,Bool.and_eq_true,Option.isNone_iff_eq_none,State.flushAlloc,back,Bool.true_and] at drained
  have rok := (RegFifo.fifo_ready 3 true s.flushFifo (s.flushReqW i.dir)).1
  have off : (RegFifo.fifo 3 true).rok s.flushFifo (s.flushReqW i.dir) = false := by
    by_contra on
    rw [Bool.not_eq_false] at on
    rw [if_pos (show (fifo c).rok s.flushFifo (s.flushReqW i.dir) = true from on)] at drained
    cases drained.2
  rw [off] at rok
  have clear := rok.symm
  simp only [Bool.or_eq_false_iff,Bool.true_or,Bool.true_and,decide_eq_false_iff_not] at clear
  exact ⟨List.eq_nil_of_length_eq_zero (by simpa using clear.1),clear.2⟩

end Sargantana.CmoHandler
