import Sargantana.LoadStoreQueue

namespace Sargantana.MemUnit
open DracPkg

variable {α : Type}

-- The state machine of stage 0.
inductive Stage where
  | resetState | readHead
  deriving DecidableEq, Repr

-- What stage 0 reads beside the load/store queue: the data cache, the later
-- stages, the pending request queue and the commit stage.
structure Signals where
  ordered : Bool
  ready : Bool
  storeOnFly : Bool
  amoOnFly : Bool
  memGlIndex : GlIndex
  fullPmrq : Bool
  vloadPackerFull : Bool
  vstorePackerFull : Bool
  stallAfterFlushLsq : Bool
  flushStore : Bool
  commitStoreOrAmo : Fin 2 → Bool

-- VMAXELEM is 16.
def vlToDcache (x : MemInstr α) : Nat :=
  match x.instrType with
  | .vlm | .vsm => (x.vl.val + 7) / 8
  | .vl1r | .vs1r => 16 / 2 ^ x.sew.val
  | _ => x.vl.val

def commits (sig : Signals) : Bool := sig.commitStoreOrAmo 0 || sig.commitStoreOrAmo 1

-- A request of part of a vector waits for a place in its packer.
def packerBlocked (sig : Signals) (x : MemInstr α) : Bool :=
  decide (x.velemIncr.val < vlToDcache x) &&
    ((sig.vloadPackerFull && !x.isStore) || (sig.vstorePackerFull && x.isStore))

-- req_cpu_dcache_valid_int, mem_commit_stall_s0 and whether instruction_s1_d is
-- the instruction of the queue
structure Request where
  valid : Bool
  commitStall : Bool
  advance : Bool
  deriving DecidableEq

def request (sig : Signals) (x : MemInstr α) : Request :=
  if x.valid && x.ex.valid && !sig.storeOnFly && !sig.amoOnFly then ⟨false,false,true⟩
  else if !x.valid || sig.fullPmrq || packerBlocked sig x then ⟨false,false,false⟩
  else if !x.isAmoOrStore then
    ⟨!x.ex.valid && !sig.stallAfterFlushLsq,false,sig.ready && !sig.stallAfterFlushLsq⟩
  else if !((sig.storeOnFly && x.isAmo) || sig.amoOnFly) || sig.memGlIndex == x.glIndex then
    ⟨(!x.isAmoOrStore || commits sig) && !x.ex.valid && !sig.stallAfterFlushLsq && x.loadMask.getLsbD 0,
     x.isAmoOrStore && sig.commitStoreOrAmo 0 && !sig.flushStore,
     (sig.ready && !sig.stallAfterFlushLsq && (!x.isAmoOrStore || commits sig)) ||
       (x.ex.valid && sig.memGlIndex == x.glIndex) || (commits sig && !x.loadMask.getLsbD 0)⟩
  else ⟨false,false,false⟩

def advances (sig : Signals) (x : MemInstr α) : Bool :=
  ((request sig x).valid && sig.ready && !sig.stallAfterFlushLsq) ||
  (x.ex.valid && ((!sig.storeOnFly && !sig.amoOnFly) || sig.memGlIndex == x.glIndex)) ||
  (commits sig && !x.ex.valid && x.isAmoOrStore && !x.loadMask.getLsbD 0)

-- read_next_lsq
def readNext (stage : Stage) (sig : Signals) (flush empty blockedStore : Bool) (x : MemInstr α) : Bool :=
  if flush then true
  else match stage with
    | .resetState => false
    | .readHead => if empty || blockedStore then false else advances sig x

def nextStage (stage : Stage) (sig : Signals) (flush : Bool) : Stage :=
  if flush then .resetState
  else match stage with
    | .resetState => if sig.ordered then .readHead else .resetState
    | .readHead => .readHead

-- Nothing else in flight, and the commit stage acknowledges.
def calm : Signals := ⟨true,true,false,false,0,false,false,false,false,false,fun _ => true⟩

theorem calm_advances {x : MemInstr α} (valid : x.valid = true) : advances calm x = true := by
  cases fault : x.ex.valid with
  | true => simp [advances,calm,fault]
  | false =>
      cases store : x.isAmoOrStore with
      | false => simp [advances,request,packerBlocked,calm,valid,fault,store]
      | true => simp [advances,request,packerBlocked,commits,calm,valid,fault,store]

theorem readNext_unblocked {x : MemInstr α} (reads : readNext stage sig false empty blockedStore x = true) :
    stage = .readHead ∧ empty = false ∧ blockedStore = false := by
  unfold readNext at reads
  cases stage with
  | resetState => simp at reads
  | readHead => cases empty <;> cases blockedStore <;> simp_all

end Sargantana.MemUnit
