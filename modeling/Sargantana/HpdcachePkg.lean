import Mathlib.Data.BitVec

-- Types of the data cache (hpdcache_pkg_sarg): the request, what it may wait for, and the configuration
namespace Sargantana.HpdcachePkg

inductive Op where
  | load | store | amoLr | amoSc | amoSwap | amoAdd | amoAnd | amoOr | amoXor | amoMax | amoMaxu | amoMin | amoMinu
  | cmoFence | cmoPrefetch | cmoInvalNline | cmoInvalAll | cmoFlushNline | cmoFlushAll | cmoFlushInvalNline | cmoFlushInvalAll
  deriving DecidableEq, Repr

namespace Op

def isLoad (op : Op) : Bool := op == load

def isStore (op : Op) : Bool := op == store

def isAmo (op : Op) : Bool := op ∈ [amoLr,amoSc,amoSwap,amoAdd,amoAnd,amoOr,amoXor,amoMax,amoMaxu,amoMin,amoMinu]

def isCmoInval (op : Op) : Bool := op ∈ [cmoInvalNline,cmoInvalAll]

def isCmoFlush (op : Op) : Bool := op ∈ [cmoFlushNline,cmoFlushAll,cmoFlushInvalNline,cmoFlushInvalAll]

def isCmoFence (op : Op) : Bool := op == cmoFence

def isCmoPrefetch (op : Op) : Bool := op == cmoPrefetch

end Op

inductive WrPolicy where
  | auto | wb | wt
  deriving DecidableEq, Repr

-- hpdcache_pma_t; nothing reads io.
structure Pma where
  uncacheable : Bool
  wrPolicyHint : WrPolicy
  deriving DecidableEq, Repr

-- hpdcache_cfg_t: the widths and features that the control of the cache depends on
structure Cfg where
  tagWidth : Nat
  sets : Nat
  setWidth : Nat
  clOffsetWidth : Nat
  clWordIdxWidth : Nat
  accessWords : Nat
  ways : Nat
  mshrSets : Nat
  mshrSetWidth : Nat
  mshrWays : Nat
  wtEn : Bool
  wbEn : Bool
  lowLatency : Bool

abbrev Cfg.Nline (c : Cfg) := BitVec (c.tagWidth + c.setWidth)

-- hpdcache_way_vector_t
abbrev Cfg.Ways (c : Cfg) := Fin c.ways → Bool

structure DirEntry (c : Cfg) where
  valid : Bool
  wback : Bool
  dirty : Bool
  fetch : Bool
  tag : BitVec c.tagWidth

-- hpdcache_req_t. `carried` holds wdata, be, size, sid and tid, which the control only passes on.
structure Req (c : Cfg) (δ : Type) where
  addrOffset : BitVec (c.setWidth + c.clOffsetWidth)
  addrTag : BitVec c.tagWidth
  op : Op
  needRsp : Bool
  physIndexed : Bool
  pma : Pma
  carried : δ

variable {c : Cfg} {δ : Type}

def lineSet (nline : c.Nline) : BitVec c.setWidth := nline.setWidth c.setWidth

def lineTag (nline : c.Nline) : BitVec c.tagWidth := nline.extractLsb' c.setWidth c.tagWidth

def Req.addr (r : Req c δ) : BitVec (c.tagWidth + (c.setWidth + c.clOffsetWidth)) := r.addrTag ++ r.addrOffset

def Req.nline (r : Req c δ) : c.Nline := r.addr.extractLsb' c.clOffsetWidth (c.tagWidth + c.setWidth)

def Req.set (r : Req c δ) : BitVec c.setWidth := r.addrOffset.extractLsb' c.clOffsetWidth c.setWidth

@[simp] theorem lineSet_append (tag : BitVec c.tagWidth) (set : BitVec c.setWidth) : lineSet (tag ++ set : c.Nline) = set := by
  refine BitVec.eq_of_getLsbD_eq fun i inside => ?_
  simp [lineSet,BitVec.getLsbD_append,inside]

@[simp] theorem lineTag_append (tag : BitVec c.tagWidth) (set : BitVec c.setWidth) : lineTag (tag ++ set : c.Nline) = tag := by
  refine BitVec.eq_of_getLsbD_eq fun i inside => ?_
  simp [lineTag,BitVec.getLsbD_append,inside]

theorem line_append (nline : c.Nline) : lineTag nline ++ lineSet nline = nline := by
  refine BitVec.eq_of_getLsbD_eq fun i inside => ?_
  simp only [BitVec.getLsbD_append,lineTag,lineSet,BitVec.getLsbD_setWidth,BitVec.getLsbD_extractLsb']
  split
  · simp [*]
  · have above : i - c.setWidth < c.tagWidth := by omega
    have same : c.setWidth + (i - c.setWidth) = i := by omega
    simp [above,same]

theorem line_parts (tag : BitVec c.tagWidth) (set : BitVec c.setWidth) (nline : c.Nline) :
    tag ++ set = nline ↔ set = lineSet nline ∧ tag = lineTag nline := by
  constructor
  · rintro rfl
    simp
  · rintro ⟨rfl,rfl⟩
    exact line_append nline

-- hpdcache_rtab_sarg_deps_t: what a request on hold waits for
structure Deps where
  mshrHit : Bool
  mshrFull : Bool
  mshrReady : Bool
  writeMiss : Bool
  wbufHit : Bool
  wbufNotReady : Bool
  dirUnavailable : Bool
  dirFetch : Bool
  flushHit : Bool
  flushNotReady : Bool
  deriving DecidableEq, Repr

namespace Deps

def none : Deps := ⟨false,false,false,false,false,false,false,false,false,false⟩

def any (d : Deps) : Bool :=
  d.mshrHit || d.mshrFull || d.mshrReady || d.writeMiss || d.wbufHit || d.wbufNotReady || d.dirUnavailable || d.dirFetch ||
    d.flushHit || d.flushNotReady

-- A bit of a register with set and reset: set wins over a clear bit, reset over a bit that is set.
def latch (q set rst : Bool) : Bool := (!q && set) || (q && !rst)

def latched (q set rst : Deps) : Deps where
  mshrHit := latch q.mshrHit set.mshrHit rst.mshrHit
  mshrFull := latch q.mshrFull set.mshrFull rst.mshrFull
  mshrReady := latch q.mshrReady set.mshrReady rst.mshrReady
  writeMiss := latch q.writeMiss set.writeMiss rst.writeMiss
  wbufHit := latch q.wbufHit set.wbufHit rst.wbufHit
  wbufNotReady := latch q.wbufNotReady set.wbufNotReady rst.wbufNotReady
  dirUnavailable := latch q.dirUnavailable set.dirUnavailable rst.dirUnavailable
  dirFetch := latch q.dirFetch set.dirFetch rst.dirFetch
  flushHit := latch q.flushHit set.flushHit rst.flushHit
  flushNotReady := latch q.flushNotReady set.flushNotReady rst.flushNotReady

@[simp] theorem latch_keep (q : Bool) : latch q false false = q := by cases q <;> rfl

@[simp] theorem latch_fresh (set rst : Bool) : latch false set rst = set := by cases set <;> rfl

@[simp] theorem latch_set (q : Bool) : latch q true false = true := by cases q <;> rfl

@[simp] theorem latch_held (set rst : Bool) : latch true set rst = !rst := by cases set <;> cases rst <;> rfl

@[simp] theorem any_none : none.any = false := rfl

theorem latched_clear {q rst : Deps} (clear : q.any = false) : (latched q none rst).any = false := by
  simp only [any,Bool.or_eq_false_iff] at clear
  simp [any,latched,none,clear]

end Deps

end Sargantana.HpdcachePkg
