import Sargantana.MmuPkg
import Sargantana.PseudoLru

-- ptw: the page table walker and its cache of page table entries. Its arbiter is PtwArb.
namespace Sargantana.Ptw
open MmuPkg

instance neZeroThree : NeZero 3 := ⟨by decide⟩

inductive Fsm where
  | ready | req | wait | done | error
  deriving DecidableEq, Repr

-- ptw_ptecache_entry_t; physical addresses have SIZE_VADDR + 1 = 40 bits.
structure CacheEntry where
  valid : Bool
  tags : BitVec 40
  data : BitVec 44
  deriving DecidableEq, Repr

-- PTW_CACHE_SIZE is 3. The level count_q never passes 2.
structure State where
  fsm : Fsm
  count : Nat
  rReq : TlbPtwReq
  rPte : Pte
  cache : Fin 3 → CacheEntry
  accessHit : Bool
  plru : PseudoLru.Tree

-- The request of the arbiter, dmem_ptw_comm_i, and satp and flush of csr_ptw_comm_i
structure Input where
  req : TlbPtwReq
  dmemReady : Bool
  respValid : Bool
  respNack : Bool
  respData : BitVec 64
  satp : BitVec 44
  flush : Bool

-- The entry that the data holds, at level `count`. A leaf of a superpage is not valid when
-- low bits of its page number are set.
def pteOf (data : BitVec 64) (count : Nat) : Pte :=
  let ppn := (data >>> 10).setWidth 44
  let leaf := data.getLsbD 1 || data.getLsbD 2 || data.getLsbD 3
  { ppn := ppn
    rfs := (data >>> 8).setWidth 2
    d := data.getLsbD 7
    a := data.getLsbD 6
    g := data.getLsbD 5
    u := data.getLsbD 4
    x := data.getLsbD 3
    w := data.getLsbD 2
    r := data.getLsbD 1
    v := data.getLsbD 0 && !(leaf && decide (ppn.toNat % 2 ^ (9 * (2 - count)) ≠ 0)) }

def isPteTable (p : Pte) : Bool := p.v && !p.x && !p.w && !p.r

def isPteLeaf (p : Pte) : Bool := p.v && (p.x || p.w || p.r)

-- N, PBMT or reserved bits are set, or bits that only a leaf has
def invalidPte (data : BitVec 64) (count : Nat) : Bool :=
  decide (data >>> 54 ≠ 0) ||
    (isPteTable (pteOf data count) && ((pteOf data count).d || (pteOf data count).a || (pteOf data count).u))

-- pte_addr keeps 40 bits of the address.
def pteAddr (ppn : BitVec 44) (vpn : BitVec 27) (count : Nat) : BitVec 40 :=
  BitVec.ofNat 40 (ppn.toNat * 4096 + vpnReq vpn count * 8)

def address (s : State) : BitVec 40 := pteAddr s.rPte.ppn s.rReq.vpn s.count

def hits (s : State) (j : Fin 3) : Bool := (s.cache j).valid && (s.cache j).tags == address s

-- hit_idx, and pte_cache_hit as its presence
def hitIdx (s : State) : Option (Fin 3) := (List.finRange 3).find? (hits s)

def pteCacheHit (s : State) : Bool := (hitIdx s).isSome

def pteCacheData (s : State) : BitVec 44 := ((hitIdx s).map fun j => (s.cache j).data).getD 0

-- priorityEncoder_idx, or the victim of the pseudo LRU when the cache is full
def fillIdx (s : State) : Fin 3 :=
  ((List.finRange 3).find? fun j => !(s.cache j).valid).getD (PseudoLru.replacementIdx 3 2 s.plru)

def fills (s : State) (i : Input) : Bool :=
  i.respValid && isPteTable (pteOf i.respData s.count) && !pteCacheHit s

-- The hit that is recorded for the pseudo LRU
def touches (s : State) : Bool := pteCacheHit s && decide (s.fsm = .req)

-- A fill and a hit come before flush.
def nextCache (s : State) (i : Input) : Fin 3 → CacheEntry :=
  if fills s i then Function.update s.cache (fillIdx s) ⟨true,address s,(pteOf i.respData s.count).ppn⟩
  else if touches s then s.cache
  else if i.flush then fun j => { s.cache j with valid := false }
  else s.cache

-- The walk goes down a level without asking the memory.
def skips (s : State) : Bool := pteCacheHit s && decide (s.count < 2)

def nextFsm (s : State) (i : Input) : Fsm :=
  match s.fsm with
  | .ready => if i.req.valid then .req else .ready
  | .req => if skips s then .req else if i.dmemReady then .wait else .req
  | .wait =>
    if i.respNack then .req
    else if i.respValid then
      if invalidPte i.respData s.count then .error
      else if isPteTable (pteOf i.respData s.count) && decide (s.count < 2) then .req
      else if isPteLeaf (pteOf i.respData s.count) then .done
      else .error
    else .wait
  | .done => .ready
  | .error => .ready

def nextCount (s : State) (i : Input) : Nat :=
  match s.fsm with
  | .ready => 0
  | .req => if skips s then s.count + 1 else s.count
  | .wait =>
    if i.respNack then s.count
    else if i.respValid && !invalidPte i.respData s.count && isPteTable (pteOf i.respData s.count) && decide (s.count < 2)
    then s.count + 1 else s.count
  | _ => s.count

def nextPte (s : State) (i : Input) : Pte :=
  if s.fsm = .wait ∧ i.respValid = true then pteOf i.respData s.count
  else if s.fsm = .req ∧ skips s = true then { s.rPte with ppn := pteCacheData s }
  else if s.fsm = .ready ∧ i.req.valid = true then { s.rPte with ppn := i.satp }
  else s.rPte

def next (s : State) (i : Input) : State where
  fsm := nextFsm s i
  count := nextCount s i
  rReq := if s.fsm = .ready ∧ i.req.valid = true then i.req else s.rReq
  rPte := nextPte s i
  cache := nextCache s i
  accessHit := !fills s i && touches s
  plru := PseudoLru.next 2 s.plru s.accessHit ((hitIdx s).getD 0).val

-- resp_ppn: the page number has the width of pte_addr, and a superpage takes its low bits from
-- the virtual page.
def respPpn (ppn : BitVec 44) (vpn : BitVec 27) (count : Nat) : BitVec 44 :=
  let low := 2 ^ (9 * (2 - count))
  BitVec.ofNat 44 (ppn.toNat % 2 ^ 28 / low * low + vpn.toNat % low)

def resp (s : State) : PtwTlbResp where
  valid := decide (s.fsm = .done) || decide (s.fsm = .error)
  error := decide (s.fsm = .error)
  pte := { s.rPte with ppn := respPpn s.rPte.ppn s.rReq.vpn s.count }
  level := s.count

-- The request for the data cache
def dmemReq (s : State) : Option (BitVec 40) := if s.fsm = .req ∧ skips s = false then some (address s) else none

def reset : State :=
  ⟨.ready,0,.zero,.zero,fun _ => ⟨false,0,0⟩,false,PseudoLru.reset⟩

end Sargantana.Ptw
