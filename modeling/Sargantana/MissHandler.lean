import Sargantana.Mshr

-- The miss handler of the data cache (hpdcache_miss_handler_sarg): it requests the lines that are missed and refills them. An
-- identifier of the memory interface names a slot of the MSHR.
namespace Sargantana.MissHandler

open HpdcachePkg Mshr

inductive RefillFsm where
  | idle | write | writeDir | inval
  deriving DecidableEq, Repr

-- mem_resp_metadata_t
structure Meta (c : Cfg) where
  rError : Bool
  rId : Slot c
  isInval : Bool
  invalNline : c.Nline

-- mshr_alloc_*_i
structure Alloc (c : Cfg) (δ : Type) where
  nline : c.Nline
  who : δ
  word : BitVec c.clWordIdxWidth
  victimWay : Nat
  needRsp : Bool
  isPrefetch : Bool
  wback : Bool

structure State (c : Cfg) (δ : Type) where
  -- MISS_REQ_SEND
  send : Bool
  allocWay : Fin c.mshrWays
  allocNline : c.Nline
  refill : RefillFsm
  refillSet : BitVec c.setWidth
  refillTag : BitVec c.tagWidth
  refillEntry : Entry c δ
  refillCnt : BitVec c.clWordIdxWidth
  mshr : Mshr.State c δ

structure Input (c : Cfg) (δ : Type) where
  check : Bool
  checkSet : BitVec c.setWidth
  alloc : Option (Alloc c δ)
  allocCs : Bool
  memReqReady : Bool
  refillReqReady : Bool
  -- The head of the buffer of responses
  resp : Option (Meta c)
  invalHit : Bool
  prefetchUpdtSelVictim : Bool

-- refill_core_rsp: who it goes to, and the place of the word
structure CoreRsp (c : Cfg) (δ : Type) where
  who : δ
  error : Bool
  word : Nat

variable {c : Cfg} [NeZero c.mshrWays] {δ : Type}

def reset (blank : Entry c δ) (mem : Fin c.mshrWays → Sram (Set c) (Entry c δ)) : State c δ where
  send := false
  allocWay := 0
  allocNline := 0
  refill := .idle
  refillSet := 0
  refillTag := 0
  refillEntry := blank
  refillCnt := 0
  mshr := Mshr.reset mem

def ackSlot (resp : Option (Meta c)) : Slot c := (resp.map Meta.rId).getD (0,0)

def isError (resp : Option (Meta c)) : Bool := resp.any Meta.rError

variable (reqWords lastChunkWord : Nat) (s : State c δ) (i : Input c δ) (resp : Option (Meta c))

namespace State

def allocReady : Bool := !s.send

def mshrAlloc : Bool := !s.send && i.alloc.isSome

-- mem_req_o with its identifier
def memReq : Option (c.Nline × Slot c) := if s.send then some (s.allocNline,s.allocWay,mshrSet (lineSet s.allocNline)) else none

def refillReqValid : Bool := decide (s.refill = .idle) && resp.isSome

def refillBusy : Bool := decide (s.refill ≠ .idle)

def empty : Bool := s.mshr.empty && !s.refillBusy

-- A refill starts with the acknowledgement of the MSHR, which gives the entry a cycle later.
def starts (r : Meta c) : Bool := decide (s.refill = .idle) && i.refillReqReady && !r.isInval

def mshrAck : Bool := i.resp.any (s.starts i)

def mshrAckCs : Bool := decide (s.refill = .idle) && resp.any fun r => !r.isInval

def first : Bool := decide (s.refill = .write) && s.refillCnt == 0

-- The entry of the miss: in the first cycle of a refill it comes from the MSHR.
def entry : Entry c δ := if s.first then s.mshr.ackEntry else s.refillEntry

def set : BitVec c.setWidth := if s.first then s.mshr.ackCacheSet (ackSlot resp) else s.refillSet

def lastChunk : Bool := decide (s.refillCnt.toNat = lastChunkWord)

-- The directory is written with the last words, or in a cycle of its own where all come at once.
def writeDir : Bool := decide (s.refill = .write) && s.lastChunk lastChunkWord && decide (lastChunkWord ≠ 0) || decide (s.refill = .writeDir)

def writeData : Bool := decide (s.refill = .write) && !isError resp

def updtRtab : Bool := s.writeDir lastChunkWord

def updtSelVictim : Bool := s.writeDir lastChunkWord && !isError i.resp && (!(s.entry).isPrefetch || i.prefetchUpdtSelVictim)

def metaRead : Bool := s.writeDir lastChunkWord || decide (s.refill = .inval)

def dataRead : Bool := decide (s.refill = .write)

def nline : c.Nline := s.refillTag ++ s.refillSet

def dirEntry : DirEntry c := ⟨!isError resp,!isError resp && s.refillEntry.wback,false,false,s.refillTag⟩

def invalCheck : Bool := decide (s.refill = .idle) && i.refillReqReady && i.resp.any Meta.isInval

def invalWrite : Bool := decide (s.refill = .inval) && i.invalHit

-- The requester gets its word with the words that hold it.
def coreRsp : Option (CoreRsp c δ) :=
  if s.refill = .write ∧ s.entry.needRsp = true ∧ s.entry.wordIdx.toNat / c.accessWords = s.refillCnt.toNat / c.accessWords then
    some ⟨s.entry.who,isError resp,s.entry.wordIdx.toNat / reqWords⟩
  else none

def mshrInput : Mshr.Input c δ where
  check := i.check
  checkSet := i.checkSet
  alloc := s.mshrAlloc i
  allocCs := !s.send && i.allocCs
  allocNline := (i.alloc.map Alloc.nline).getD 0
  allocEntry := (i.alloc.map fun a => ⟨0,a.who,a.word,a.victimWay,a.wback,a.needRsp,a.isPrefetch⟩).getD s.refillEntry
  ack := s.mshrAck i
  ackCs := s.mshrAckCs i.resp
  ackSlot := ackSlot i.resp

def refillNext : RefillFsm :=
  match s.refill with
  | .idle =>
    match i.resp with
    | some r => if i.refillReqReady then if r.isInval then .inval else .write else .idle
    | none => .idle
  | .write => if s.lastChunk lastChunkWord then if lastChunkWord = 0 then .writeDir else .idle else .write
  | .writeDir => .idle
  | .inval => .idle

end State

def next : State c δ where
  send := if s.send then !i.memReqReady else i.alloc.isSome
  allocWay := if s.mshrAlloc i then s.mshr.allocWay (s.mshrInput i).allocNline else s.allocWay
  allocNline := if s.mshrAlloc i then (s.mshrInput i).allocNline else s.allocNline
  refill := s.refillNext lastChunkWord i
  refillSet := if s.first then s.set i.resp else s.refillSet
  refillTag := if s.first then s.entry.tag else s.refillTag
  refillEntry := if s.first then s.entry else s.refillEntry
  refillCnt :=
    if s.mshrAck i then 0
    else if s.refill = .write then s.refillCnt + BitVec.ofNat _ c.accessWords
    else s.refillCnt
  mshr := Mshr.next s.mshr (s.mshrInput i)

variable {lastChunkWord s i}

theorem refill_rests (idle : s.refill = .idle) (shut : i.refillReqReady = false) : (next lastChunkWord s i).refill = .idle := by
  simp only [next,State.refillNext,idle,shut]
  cases i.resp <;> rfl

end Sargantana.MissHandler
