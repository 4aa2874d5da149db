import Sargantana.MmuPkg
import Sargantana.PseudoLru

-- tlb: a fully associative translation cache of TLB_ENTRIES = 8 entries.
namespace Sargantana.Tlb
open MmuPkg

structure Perms where
  ur : Bool
  uw : Bool
  ux : Bool
  sr : Bool
  sw : Bool
  sx : Bool
  deriving DecidableEq

structure Entry where
  vpn : BitVec 27
  asid : BitVec 7
  ppn : BitVec 44
  level : Nat
  dirty : Bool
  access : Bool
  perms : Perms
  valid : Bool
  nempty : Bool
  deriving DecidableEq

def Entry.zero : Entry := ⟨0,0,0,0,false,false,⟨false,false,false,false,false,false⟩,false,false⟩

inductive Fsm where
  | idle | sendRequest | waitResponse | invalidatedWaitResponse
  deriving DecidableEq, Repr

structure ReqTmp where
  vpn : BitVec 27
  asid : BitVec 7
  store : Bool
  fetch : Bool
  writeIdx : Fin 8

structure State where
  entries : Fin 8 → Entry
  fsm : Fsm
  tlbReqTmp : ReqTmp
  plru : PseudoLru.Tree

-- cache_tlb_req_t; the page number of a request has a bit more than that of an entry.
structure CacheReq where
  valid : Bool
  asid : BitVec 7
  vpn : BitVec 28
  passthrough : Bool
  instruction : Bool
  store : Bool

structure Input where
  req : CacheReq
  privLvl : BitVec 2
  vmEnable : Bool
  ptw : PtwTlbComm

-- hits_g, hits_m and hits_k for levels 0, 1 and 2
def hitsAt (lvl : Nat) (e : Entry) (asid : BitVec 7) (vpn : BitVec 27) : Bool :=
  decide (vpnTag e.vpn lvl = vpnTag vpn lvl) && e.asid == asid && e.nempty && decide (e.level = lvl)

def hitsEntry (e : Entry) (asid : BitVec 7) (vpn : BitVec 27) : Bool := hitsAt 0 e asid vpn || hitsAt 1 e asid vpn || hitsAt 2 e asid vpn

def hitsCam (s : State) (i : Input) (j : Fin 8) : Bool := hitsEntry (s.entries j) i.req.asid (i.req.vpn.setWidth 27)

def hitLvl (lvl : Nat) (s : State) (i : Input) : Bool :=
  (List.finRange 8).any fun j => hitsAt lvl (s.entries j) i.req.asid (i.req.vpn.setWidth 27)

def hitCam (s : State) (i : Input) : Bool := (List.finRange 8).any (hitsCam s i)

def hitIdx (s : State) (i : Input) : Fin 8 := ((List.finRange 8).find? (hitsCam s i)).getD 0

-- Without a hit the index is zero.
def hitEntry (s : State) (i : Input) : Entry := s.entries (hitIdx s i)

-- Every level but that of users counts as supervisor.
def svPrivLvl (i : Input) : Bool := decide (i.privLvl ≠ 0)

def readOk (p : Perms) (i : Input) : Bool :=
  if svPrivLvl i then
    if i.ptw.sum then
      if i.ptw.mxr then p.sr || p.ur || p.sx || p.ux else p.sr || p.ur
    else if i.ptw.mxr then p.sr || p.sx else p.sr
  else if i.ptw.mxr then p.ur || p.ux else p.ur

def writeOk (p : Perms) (i : Input) : Bool :=
  if svPrivLvl i then (if i.ptw.sum then p.sw || p.uw else p.sw) else p.uw

def execOk (p : Perms) (i : Input) : Bool := if svPrivLvl i then p.sx else p.ux

-- A store to a page that is not dirty, with the right to write, is no hit.
def storeHit (e : Entry) (i : Input) : Bool := !i.req.store || e.dirty || !writeOk e.perms i

def tlbHit (s : State) (i : Input) : Bool := i.vmEnable && hitCam s i && storeHit (hitEntry s i) i

def tlbMiss (s : State) (i : Input) : Bool := i.vmEnable && !hitCam s i

def accessIsZero (e : Entry) : Bool := !e.access && e.valid

def dirtyIsZero (e : Entry) (i : Input) : Bool := !storeHit e i && e.valid

def xcptIf (s : State) (i : Input) : Bool :=
  i.vmEnable && ((tlbHit s i && !execOk (hitEntry s i).perms i) || accessIsZero (hitEntry s i))

def xcptSt (s : State) (i : Input) : Bool :=
  i.vmEnable && ((tlbHit s i && !writeOk (hitEntry s i).perms i) || accessIsZero (hitEntry s i) || dirtyIsZero (hitEntry s i) i)

def xcptLd (s : State) (i : Input) : Bool :=
  i.vmEnable && ((tlbHit s i && !readOk (hitEntry s i).perms i) || accessIsZero (hitEntry s i))

-- ppn_g, ppn_m and ppn_k
def ppnAt (lvl : Nat) (e : Entry) (vpn : BitVec 28) : BitVec 44 :=
  BitVec.ofNat 44 (e.ppn.toNat / 2 ^ (9 * (2 - lvl)) * 2 ^ (9 * (2 - lvl)) + vpn.toNat % 2 ^ (9 * (2 - lvl)))

def masked (b : Bool) (ppn : BitVec 44) : BitVec 44 := if b then ppn else 0

-- resp.ppn
def respPpn (s : State) (i : Input) : BitVec 44 :=
  let on := i.vmEnable && !i.req.passthrough
  (masked (hitLvl 2 s i && on) (ppnAt 2 (hitEntry s i) i.req.vpn) ||| masked (hitLvl 1 s i && on) (ppnAt 1 (hitEntry s i) i.req.vpn)) |||
    (masked (hitLvl 0 s i && on) (ppnAt 0 (hitEntry s i) i.req.vpn) ||| masked (!on) (i.req.vpn.setWidth 44))

def tlbReady (s : State) : Bool := decide (s.fsm = .idle)

def evictionIdx (s : State) : Fin 8 :=
  ((List.finRange 8).find? fun j => !(s.entries j).nempty).getD (PseudoLru.replacementIdx 8 3 s.plru)

def cleanTlb (s : State) (i : Input) : Bool := decide (s.fsm = .idle) && i.req.valid

def storeTlbReq (s : State) (i : Input) : Bool := cleanTlb s i && tlbMiss s i

def writeTlb (s : State) (i : Input) : Bool := decide (s.fsm = .waitResponse) && i.ptw.resp.valid

-- A clean removes the entries of failed walks, and the entry that a store hits without its
-- dirty bit.
def clears (s : State) (i : Input) (j : Fin 8) : Bool :=
  i.ptw.invalidateTlb ||
    (cleanTlb s i && (!(s.entries j).valid || (decide (j = hitIdx s i) && hitCam s i && !storeHit (hitEntry s i) i)))

def filled (tmp : ReqTmp) (r : PtwTlbResp) : Entry where
  vpn := tmp.vpn
  asid := tmp.asid
  ppn := r.pte.ppn
  level := r.level
  dirty := r.pte.d
  access := r.pte.a
  perms := ⟨r.pte.r && r.pte.u && r.pte.v,r.pte.w && r.pte.u && r.pte.v,r.pte.x && r.pte.u && r.pte.v,
    r.pte.r && !r.pte.u && r.pte.v,r.pte.w && !r.pte.u && r.pte.v,r.pte.x && !r.pte.u && r.pte.v⟩
  valid := !r.error
  nempty := true

-- clear_tlb comes before write_tlb.
def nextEntries (s : State) (i : Input) : Fin 8 → Entry :=
  if i.ptw.invalidateTlb || cleanTlb s i then fun j => if clears s i j then .zero else s.entries j
  else if writeTlb s i then Function.update s.entries s.tlbReqTmp.writeIdx (filled s.tlbReqTmp i.ptw.resp)
  else s.entries

def nextFsm (s : State) (i : Input) : Fsm :=
  match s.fsm with
  | .idle => if i.req.valid && tlbMiss s i then .sendRequest else .idle
  | .sendRequest =>
    if !i.ptw.ptwReady && i.ptw.invalidateTlb then .idle
    else if i.ptw.ptwReady then (if i.ptw.invalidateTlb then .invalidatedWaitResponse else .waitResponse)
    else .sendRequest
  | .waitResponse => if i.ptw.resp.valid then .idle else if i.ptw.invalidateTlb then .invalidatedWaitResponse else .waitResponse
  | .invalidatedWaitResponse => if i.ptw.resp.valid then .idle else .invalidatedWaitResponse

def next (s : State) (i : Input) : State where
  entries := nextEntries s i
  fsm := nextFsm s i
  tlbReqTmp :=
    if storeTlbReq s i then ⟨i.req.vpn.setWidth 27,i.req.asid,i.req.store,i.req.instruction,evictionIdx s⟩ else s.tlbReqTmp
  plru := PseudoLru.next 3 s.plru (tlbHit s i && i.req.valid) (hitIdx s i).val

-- tlb_ptw_comm_o
def tlbPtwReq (s : State) (i : Input) : TlbPtwReq :=
  if s.fsm = .sendRequest then ⟨true,s.tlbReqTmp.vpn,s.tlbReqTmp.asid,i.privLvl,s.tlbReqTmp.store,s.tlbReqTmp.fetch⟩ else .zero

def reset : State := ⟨fun _ => .zero,.idle,⟨0,0,false,false,0⟩,PseudoLru.reset⟩

theorem entries_shrink {s : State} {i : Input} (shrinks : (i.ptw.invalidateTlb || cleanTlb s i) = true ∨ writeTlb s i = false) (j : Fin 8) :
    (next s i).entries j = .zero ∨ (next s i).entries j = s.entries j := by
  change nextEntries s i j = _ ∨ nextEntries s i j = _
  unfold nextEntries
  split
  · dsimp only
    split
    · exact .inl rfl
    · exact .inr rfl
  · rename_i used
    rw [shrinks.resolve_left used]
    exact .inr rfl

end Sargantana.Tlb
