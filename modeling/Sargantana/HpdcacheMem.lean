import Sargantana.DracPkg

-- The memory interface of the data cache (hpdcache_pkg_sarg) and the AXI channels behind the adapters.
-- AXI_DATA_WIDTH is 64, LINE_W 512, addresses have 40 bits and ids 8.
namespace Sargantana.HpdcacheMem

-- hpdcache_mem_atomic_e
inductive Atomic where
  | add | clr | set | eor | smax | smin | umax | umin | swap | ldex | stex
  deriving DecidableEq, Repr

-- hpdcache_mem_command_e; mem_req_atomic counts for atomics only.
inductive Command where
  | read | write
  | atomic (op : Atomic)
  deriving DecidableEq, Repr

-- hpdcache_mem_req_t
structure MemReq where
  addr : BitVec 40
  size : BitVec 3
  id : BitVec 8
  command : Command
  cacheable : Bool
  deriving DecidableEq, Repr

-- The fields of the AR and AW channels that are not constant. burst is INCR.
structure AxChan where
  id : BitVec 8
  addr : BitVec 40
  len : BitVec 8
  size : BitVec 3
  lock : Bool
  cache : BitVec 4
  atop : BitVec 6
  deriving DecidableEq, Repr

-- AXI_BYTES_LOG2 is 3.
def axiLen (size : BitVec 3) : BitVec 8 := if 3 ≤ size then (1 <<< (size.toNat - 3)) - 1 else 0

def axiSize (size : BitVec 3) : BitVec 3 := if 3 ≤ size then 3 else size

-- CACHE_BUFFERABLE, CACHE_MODIFIABLE, CACHE_RD_ALLOC and CACHE_WR_ALLOC
def axiCache (cacheable : Bool) : BitVec 4 := if cacheable then 0b1111 else 0b0010

-- RESP_SLVERR and RESP_DECERR
def isError (resp : BitVec 2) : Bool := resp == 2 || resp == 3

-- Accesses of at most one beat, which the adapters place by the word of their address
def isUc (size : BitVec 3) : Bool := decide (size ≤ 3)

-- Bits 5:3 of the address
def wordIdx (addr : BitVec 40) : BitVec 3 := addr.extractLsb' 3 3

def bytes (req : MemReq) : Nat := 2 ^ req.size.toNat

-- What the data cache asks for: at most a line, naturally aligned
structure WellFormed (req : MemReq) : Prop where
  size : req.size ≤ 6
  aligned : req.addr.toNat % bytes req = 0

theorem axiLen_single (size : BitVec 3) (small : isUc size = true) : (axiLen size).toNat = 0 ∧ 2 ^ size.toNat ≤ 8 := by
  revert size
  decide

theorem axiLen_whole (size : BitVec 3) (large : isUc size = false) (fits : size ≤ 6) : 8 * ((axiLen size).toNat + 1) = 2 ^ size.toNat ∧
    2 ^ size.toNat ≤ 64 := by
  revert size
  decide

theorem bytes_inside {req : MemReq} (formed : WellFormed req) (small : isUc req.size = true) :
    req.addr.toNat % 8 + bytes req ≤ 8 := by
  have aligned := formed.aligned
  unfold bytes at *
  generalize req.addr.toNat = addr at *
  generalize req.size = size at *
  match size with
  | 0 | 1 | 2 | 3 => simp at aligned ⊢; omega
  | 4 | 5 | 6 | 7 => exact absurd small (by decide)

theorem bytes_words {req : MemReq} (formed : WellFormed req) (large : isUc req.size = false) :
    req.addr.toNat % 8 = 0 ∧ req.addr.toNat % 64 + bytes req ≤ 64 := by
  have aligned := formed.aligned
  have size' := formed.size
  unfold bytes at *
  generalize req.addr.toNat = addr at *
  generalize req.size = size at *
  match size with
  | 4 | 5 | 6 => simp at aligned ⊢; omega
  | 7 => exact absurd size' (by decide)
  | 0 | 1 | 2 | 3 => exact absurd large (by decide)

theorem wordIdx_val (addr : BitVec 40) : (wordIdx addr).toNat = addr.toNat / 8 % 8 := by
  simp [wordIdx,BitVec.extractLsb'_toNat,Nat.shiftRight_eq_div_pow]

end Sargantana.HpdcacheMem
