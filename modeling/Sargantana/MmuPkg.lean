import Sargantana.DracPkg

-- Types of mmu_pkg that the TLBs, the arbiter and the page table walker share. VPN_SIZE is 27,
-- PPN_SIZE is 44, LEVELS is 3 and PAGE_LVL_BITS is 9.
namespace Sargantana.MmuPkg

structure Pte where
  ppn : BitVec 44
  rfs : BitVec 2
  d : Bool
  a : Bool
  g : Bool
  u : Bool
  x : Bool
  w : Bool
  r : Bool
  v : Bool
  deriving DecidableEq, Repr

def Pte.zero : Pte := ⟨0,0,false,false,false,false,false,false,false,false⟩

structure TlbPtwReq where
  valid : Bool
  vpn : BitVec 27
  asid : BitVec 7
  prv : BitVec 2
  store : Bool
  fetch : Bool
  deriving DecidableEq, Repr

def TlbPtwReq.zero : TlbPtwReq := ⟨false,0,0,0,false,false⟩

-- ptw_tlb_resp_t. Level 0 is a page of 1 GiB, level 1 of 2 MiB and level 2 of 4 KiB.
structure PtwTlbResp where
  valid : Bool
  error : Bool
  pte : Pte
  level : Nat
  deriving DecidableEq, Repr

def PtwTlbResp.zero : PtwTlbResp := ⟨false,false,.zero,0⟩

-- ptw_tlb_comm_t, with the two bits of mstatus that a TLB reads
structure PtwTlbComm where
  resp : PtwTlbResp
  ptwReady : Bool
  sum : Bool
  mxr : Bool
  invalidateTlb : Bool
  deriving DecidableEq, Repr

-- The part of a virtual page number that level `lvl` is indexed with
def vpnReq (vpn : BitVec 27) (lvl : Nat) : Nat := vpn.toNat / 2 ^ (9 * (2 - lvl)) % 512

-- The virtual page numbers that one entry of level `lvl` stands for have these bits in common.
def vpnTag (vpn : BitVec 27) (lvl : Nat) : Nat := vpn.toNat / 2 ^ (9 * (2 - lvl))

end Sargantana.MmuPkg
