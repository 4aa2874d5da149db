import Sargantana.HpdcachePkg
import Sargantana.Sram

-- The miss status holding registers of the data cache (hpdcache_mshr_sarg). The number of sets is a power of two.
namespace Sargantana.Mshr

open HpdcachePkg

-- mshr_entry_t; `who` holds req_id and src_id.
structure Entry (c : Cfg) (δ : Type) where
  tag : BitVec c.tagWidth
  who : δ
  wordIdx : BitVec c.clWordIdxWidth
  victimWayIdx : Nat
  wback : Bool
  needRsp : Bool
  isPrefetch : Bool

abbrev Set (c : Cfg) := BitVec c.mshrSetWidth

abbrev Slot (c : Cfg) := Fin c.mshrWays × Set c

structure State (c : Cfg) (δ : Type) where
  valid : Slot c → Bool
  cacheSet : Slot c → BitVec c.setWidth
  checkCacheSet : BitVec c.setWidth
  ackWay : Fin c.mshrWays
  mem : Fin c.mshrWays → Sram (Set c) (Entry c δ)

structure Input (c : Cfg) (δ : Type) where
  check : Bool
  checkSet : BitVec c.setWidth
  alloc : Bool
  allocCs : Bool
  allocNline : c.Nline
  -- The entry but for its tag
  allocEntry : Entry c δ
  ack : Bool
  ackCs : Bool
  ackSlot : Slot c

variable {c : Cfg} [NeZero c.mshrWays] {δ : Type}

def reset (mem : Fin c.mshrWays → Sram (Set c) (Entry c δ)) : State c δ where
  valid _ := false
  cacheSet _ := 0
  checkCacheSet := 0
  ackWay := 0
  mem := mem

-- Which set of the registers a set of the cache belongs to
def mshrSet (set : BitVec c.setWidth) : Set c := if 1 < c.mshrSets then set.setWidth c.mshrSetWidth else 0

variable (s : State c δ) (i : Input c δ)

namespace State

def empty : Bool := (List.finRange c.mshrWays).all fun w => (List.range (2 ^ c.mshrSetWidth)).all fun k => !s.valid (w,BitVec.ofNat _ k)

def allocWay (nline : c.Nline) : Fin c.mshrWays :=
  ((List.finRange c.mshrWays).find? fun w => !s.valid (w,mshrSet (lineSet nline))).getD 0

def allocSlot : Slot c := (s.allocWay i.allocNline,mshrSet (lineSet i.allocNline))

def allocFull : Bool := !(List.finRange c.mshrWays).any fun w => !s.valid (w,mshrSet s.checkCacheSet)

def hit (checkTag : BitVec c.tagWidth) : Bool := (List.finRange c.mshrWays).any fun w =>
  s.valid (w,mshrSet s.checkCacheSet) && decide ((s.mem w).out.tag = checkTag) &&
    decide (s.cacheSet (w,mshrSet s.checkCacheSet) = s.checkCacheSet)

-- The entry that is read for an acknowledgement of the cycle before
def ackEntry : Entry c δ := (s.mem s.ackWay).out

def ackCacheSet (slot : Slot c) : BitVec c.setWidth := s.cacheSet slot

end State

def next : State c δ where
  valid slot :=
    !s.valid slot && (decide (slot = s.allocSlot i) && i.alloc) || s.valid slot && !(decide (slot = i.ackSlot) && i.ack)
  cacheSet := if i.alloc then Function.update s.cacheSet (s.allocSlot i) (lineSet i.allocNline) else s.cacheSet
  checkCacheSet := if i.check && !i.alloc then i.checkSet else s.checkCacheSet
  ackWay := if i.ack then i.ackSlot.1 else s.ackWay
  mem w := (s.mem w).step (i.check || i.allocCs || i.ackCs) i.alloc (decide (s.allocWay i.allocNline = w))
    (if i.ack then i.ackSlot.2 else if i.alloc then mshrSet (lineSet i.allocNline) else mshrSet i.checkSet)
    { i.allocEntry with tag := lineTag i.allocNline }

end Sargantana.Mshr
