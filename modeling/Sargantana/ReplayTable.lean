import Sargantana.Arbiters
import Sargantana.HpdcachePkg

-- The replay table of the data cache (hpdcache_rtab_sarg): requests on hold in one linked list a cache line
namespace Sargantana.ReplayTable

open Arbiters HpdcachePkg

structure Entry (c : Cfg) (δ : Type) where
  req : Req c δ
  wayFetch : Nat

inductive PopTry where
  | head | next | nextWait
  deriving DecidableEq, Repr

structure State (n : Nat) (c : Cfg) (δ : Type) where
  valid : Fin n → Bool
  error : Fin n → Bool
  head : Fin n → Bool
  tail : Fin n → Bool
  deps : Fin n → Deps
  next : Fin n → Fin n
  req : Fin n → Entry c δ
  popTryState : PopTry
  popTryNext : Fin n → Bool
  popArb : Arbiter n
  wbufRdArb : Arbiter n
  wbufWrArb : Arbiter n
  wbufArb : Arbiter 2

structure Input (n : Nat) (c : Cfg) (δ : Type) where
  checkNline : c.Nline
  alloc : Bool
  allocAndLink : Bool
  allocReq : Entry c δ
  allocDeps : Deps
  popTry : Bool
  popCommit : Bool
  popCommitPtr : Fin n
  popRback : Bool
  popRbackPtr : Fin n
  wbufHitOpen : Bool
  wbufHitPend : Bool
  wbufHitSent : Bool
  wbufNotReady : Bool
  missReady : Bool
  refill : Bool
  refillIsError : Bool
  refillNline : c.Nline
  refillWayIndex : Nat
  flushAck : Bool
  flushAckNline : c.Nline
  flushReady : Bool
  cfgSingleEntry : Bool

variable {n : Nat} [NeZero n] {c : Cfg} {δ : Type}

def reset (blank : Entry c δ) : State n c δ where
  valid _ := false
  error _ := false
  head _ := false
  tail _ := false
  deps _ := Deps.none
  next _ := 0
  req _ := blank
  popTryState := .head
  popTryNext _ := false
  popArb := .rrReset
  wbufRdArb := .rrReset
  wbufWrArb := .rrReset
  wbufArb := .fxReset

def bvToIndex (bv : Fin n → Bool) : Fin n := ((List.finRange n).find? bv).getD 0

def indexToBv (index : Fin n) : Fin n → Bool := oneHot index

def mshrSetEqual (x y : c.Nline) : Bool :=
  if 1 < c.mshrSets then x.setWidth c.mshrSetWidth == y.setWidth c.mshrSetWidth else true

-- hpdcache_mux_sarg with ONE_HOT_SEL. Without a selection its output is zero, and nothing reads it.
def mux {α : Type} (data : Fin n → α) (sel : Fin n → Bool) : Option α := ((List.finRange n).find? sel).map data

namespace State

variable (s : State n c δ)

def ready : Fin n → Bool := fun i => s.valid i && s.head i && !(s.deps i).any

def freeAlloc : Fin n → Bool := prio fun i => !s.valid i

def nline (i : Fin n) : c.Nline := (s.req i).req.nline

def empty : Bool := !any s.valid

def full (cfgSingleEntry : Bool) : Bool := !(any fun i => !s.valid i) || (any s.valid && cfgSingleEntry)

def fence : Bool := any fun i => s.valid i && (s.req i).req.op.isAmo

def checkHit (checkNline : c.Nline) : Fin n → Bool := fun i => s.valid i && decide (checkNline = s.nline i)

def checkHitO (checkNline : c.Nline) : Bool := any (s.checkHit checkNline)

def matchCheckTail (checkNline : c.Nline) : Fin n → Bool := fun i => s.checkHit checkNline i && s.tail i

-- Write buffer: which of the heads that wait for it is looked up
def wbufRdPending : Fin n → Bool := fun i => s.valid i && s.head i && (s.deps i).wbufHit

def wbufWrPending : Fin n → Bool := fun i => s.valid i && s.head i && (s.deps i).wbufNotReady

def wbufRdGnt : Fin n → Bool := s.wbufRdArb.rrGrant s.wbufRdPending

def wbufWrGnt : Fin n → Bool := s.wbufWrArb.rrGrant s.wbufWrPending

def wbufPending : Fin 2 → Bool := fun side => if side = 0 then any s.wbufRdGnt else any s.wbufWrGnt

def wbufGnt : Fin 2 → Bool := s.wbufArb.fxGrant s.wbufPending

def wbufSel : Fin n → Bool := fun i => if s.wbufGnt 0 then s.wbufRdGnt i else s.wbufGnt 1 && s.wbufWrGnt i

-- Pop: the head of a list that is ready, or the next one of the list being replayed
def popGnt : Fin n → Bool := s.popArb.rrGrant s.ready

def popTryValid : Bool :=
  match s.popTryState with
  | .head => any s.ready
  | .next | .nextWait => true

def popSel : Fin n → Bool :=
  match s.popTryState with
  | .head => s.popGnt
  | .next | .nextWait => s.popTryNext

def popTryPtr : Fin n := bvToIndex s.popSel

def popTryReq : Option (Entry c δ) := mux s.req s.popSel

def popTryError : Bool := any fun i => s.popSel i && s.error i

-- After a pop the list goes on with the next entry, or with a new list behind its tail.
def follow : PopTry × (Fin n → Bool) :=
  if any fun i => s.popSel i && !s.tail i then ⟨.next,indexToBv (s.next s.popTryPtr)⟩ else ⟨.head,s.popTryNext⟩

def popHead (popTry popRback : Bool) : Bool := decide (s.popTryState = .head) && !popRback && s.popTryValid && popTry

def popEntrySel (popTry popRback : Bool) : PopTry × (Fin n → Bool) :=
  match s.popTryState with
  | .head => if s.popHead popTry popRback then s.follow else ⟨.head,s.popTryNext⟩
  | .next => if popRback then ⟨.head,s.popTryNext⟩ else if popTry then s.follow else ⟨.nextWait,s.popTryNext⟩
  | .nextWait => if popTry then s.follow else ⟨.nextWait,s.popTryNext⟩

def depsRst (i : Input n c δ) (k : Fin n) : Deps where
  mshrHit := i.refill && decide (i.refillNline = s.nline k)
  mshrFull := i.refill && mshrSetEqual i.refillNline (s.nline k)
  mshrReady := i.missReady
  writeMiss := i.refill && decide (i.refillNline = s.nline k)
  wbufHit := s.wbufSel k && !(i.wbufHitOpen || i.wbufHitPend || i.wbufHitSent)
  wbufNotReady := s.wbufSel k && !i.wbufNotReady
  dirUnavailable := i.refill && i.refillNline.setWidth c.setWidth == (s.nline k).setWidth c.setWidth
  dirFetch := i.refill && i.refillNline.setWidth c.setWidth == (s.nline k).setWidth c.setWidth &&
    decide (i.refillWayIndex = (s.req k).wayFetch)
  flushHit := i.flushAck && decide (i.flushAckNline = s.nline k)
  flushNotReady := i.flushReady

def validSet (i : Input n c δ) (k : Fin n) : Bool := s.freeAlloc k && (i.alloc || i.allocAndLink)

def popTryBv (i : Input n c δ) (k : Fin n) : Bool := s.popSel k && i.popTry

end State

def popCommitRst (i : Input n c δ) (k : Fin n) : Bool := i.popCommit && indexToBv i.popCommitPtr k

def popRbackBv (i : Input n c δ) (k : Fin n) : Bool := i.popRback && indexToBv i.popRbackPtr k

open Deps in
def next (s : State n c δ) (i : Input n c δ) : State n c δ where
  valid k := latch (s.valid k) (s.validSet i k) (popCommitRst i k)
  error k := latch (s.error k) (s.valid k && (s.deps k).writeMiss && decide (i.refillNline = s.nline k) && (i.refill && i.refillIsError))
    (popCommitRst i k)
  head k := latch (s.head k) (s.freeAlloc k && i.alloc || popRbackBv i k) (s.freeAlloc k && i.allocAndLink || s.popTryBv i k)
  tail k := latch (s.tail k) (s.validSet i k) (s.matchCheckTail i.checkNline k && i.allocAndLink)
  deps k := latched (s.deps k) (if s.validSet i k || popRbackBv i k then i.allocDeps else Deps.none) (s.depsRst i k)
  next k := if i.allocAndLink && s.matchCheckTail i.checkNline k then bvToIndex s.freeAlloc else s.next k
  req k := if s.validSet i k || popRbackBv i k then i.allocReq else s.req k
  popTryState := (s.popEntrySel i.popTry i.popRback).1
  popTryNext := (s.popEntrySel i.popTry i.popRback).2
  popArb := s.popArb.rrNext s.ready (s.popHead i.popTry i.popRback)
  wbufRdArb := s.wbufRdArb.rrNext s.wbufRdPending (s.wbufGnt 0 && any fun k => s.popTryBv i k && (s.wbufRdGnt k || s.wbufWrGnt k))
  wbufWrArb := s.wbufWrArb.rrNext s.wbufWrPending (s.wbufGnt 1 && any fun k => s.popTryBv i k && (s.wbufRdGnt k || s.wbufWrGnt k))
  wbufArb := s.wbufArb.fxNext s.wbufPending (any fun k => s.popTryBv i k && (s.wbufRdGnt k || s.wbufWrGnt k))

end Sargantana.ReplayTable
