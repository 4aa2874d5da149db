import Sargantana.VsetQueue
import Sargantana.ControlUnit
import Sargantana.Lib.StateMachine

-- The vset queue as the decoder, the commit stage and the control unit drive it, beside the
-- program order of the vsets and branches in flight.
namespace Sargantana.VsetPipeline

open VsetQueue Window StateMachine

-- A vset in flight has the entry that it was given; a branch carries the index of the youngest
-- entry of its decode cycle.
inductive Item where
  | vset (v : Vset) (e : Entry)
  | branch (index : Fin 8)
  deriving DecidableEq

inductive Decode where
  | none
  | branch
  | vset (v : Vset)

inductive Commit where
  | none
  | branches (n : Nat)
  | vset
  | vleff (vl : BitVec 5)
  deriving DecidableEq

-- A branch written back as mispredicted: the p-th item in flight, or one that an exception has
-- flushed and that still moves through the write back register.
inductive Misspredict where
  | none
  | live (p : Nat)
  | dead (index : Fin 8)
  deriving DecidableEq

-- `stall` are the causes of stall_id other than a full queue, `clear` is clear_vset_fence,
-- `exception` are the causes of exception_enable other than the vset's own csr_exception, `fence`
-- is stall_csr_fence at commit, and the first `listed` items in flight are in the graduation list.
structure Input where
  decode : Decode
  stall : Bool
  clear : Bool
  commit : Commit
  misspredict : Misspredict
  exception : Bool
  vsOff : Bool
  fence : Bool
  listed : Nat

-- `flight`, `committed`, `configured` and `stale` are what the program order says: the items in
-- flight, the entry of the last committed vset, whether there was one, and whether a load has
-- shortened vl since a vset chose it.
structure State where
  queue : VsetQueue.State
  exceptionEnable : Bool
  csrEnable : Bool
  drained : Bool
  csr : Csr
  flight : List Item
  committed : Entry
  configured : Bool
  stale : Bool

def reset : State := ⟨VsetQueue.reset,false,false,false,resetCsr,[],resetEntry,false,false⟩

def Decode.writes (stallId : Bool) (clear : Bool) : Decode → Bool
  | .vset v => (v.cycle && !stallId) || clear
  | _ => false

def Decode.entry (vl : BitVec 5) : Decode → Entry
  | .vset v => moduleEntry vl v
  | _ => resetEntry

-- The datapath's exception_enable: the vset at commit is refused while mstatus.vs is off.
def exceptionNow (i : Input) : Bool := i.exception || (decide (i.commit = .vset) && i.vsOff)

def stallId (s : State) (i : Input) : Bool := i.stall || full s.queue

def newVset (s : State) (i : Input) : Bool := i.decode.writes (stallId s i) i.clear

def carried (s : State) : Misspredict → Fin 8
  | .none => 0
  | .live p => match s.flight[p]? with
      | some (.branch index) => index
      | _ => 0
  | .dead index => index

-- is_vsetvl_to_commit does not look at the exception of the vset.
def queueInput (s : State) (i : Input) : VsetQueue.Input where
  commited := decide (i.commit = .vset)
  newVset := newVset s i
  recoverLastCommitted := exceptionNow i
  recoverLastMisspredict := decide (i.misspredict ≠ .none)
  indexMisspredict := carried s i.misspredict
  entry := i.decode.entry (youngest s.queue).vl

def Commit.count : Commit → Nat
  | .none => 0
  | .branches n => n
  | .vset => 1
  | .vleff _ => 0

-- The control unit flushes the decode stage one cycle after an exception or a fence.
def flushing (s : State) : Bool := s.exceptionEnable || s.csrEnable

-- The items that leave decode for good
def entering (s : State) (i : Input) : List Item :=
  if flushing s then []
  else match i.decode with
    | .none => []
    | .branch => [.branch s.queue.indexLast]
    | .vset v => if newVset s i then [.vset v (moduleEntry (youngest s.queue).vl v)] else []

-- The flush behind a fence empties the stages in front of the graduation list.
def held (s : State) (i : Input) : List Item := if s.csrEnable then s.flight.take i.listed else s.flight

def dropped (s : State) (i : Input) : List Item := if s.csrEnable then s.flight.drop i.listed else []

-- A mispredicted branch is in the graduation list.
def nextFlight (s : State) (i : Input) : List Item :=
  if exceptionNow i then []
  else match i.misspredict with
    | .live p => (s.flight.take (p + 1)).drop i.commit.count
    | _ => (held s i).drop i.commit.count ++ entering s i

def commits (s : State) (i : Input) : Option (Vset × Entry) :=
  if i.commit = .vset ∧ exceptionNow i = false then
    match s.flight.head? with
    | some (.vset v e) => some (v,e)
    | _ => none
  else none

def chooses (v : Vset) : Bool := !v.keep || unsupported (v.vtype.setWidth 11)

def nextStale (s : State) (i : Input) : Bool :=
  match commits s i, i.commit with
  | some (v,_), _ => s.stale && !chooses v
  | _, .vleff vl => s.stale || decide (vl ≠ 0)
  | _, _ => s.stale

def nextCsr (s : State) (i : Input) : Csr :=
  match commits s i, i.commit with
  | some (v,e), _ => commitVset v e.vl (oldest s.queue).vtype s.csr
  | _, .vleff vl => commitVleff vl s.csr
  | _, _ => s.csr

def next (s : State) (i : Input) : State where
  queue := VsetQueue.next s.queue (queueInput s i)
  exceptionEnable := ControlUnit.exceptionEnableNext s.exceptionEnable (exceptionNow i)
  csrEnable := ControlUnit.csrEnableNext s.csrEnable i.fence (exceptionNow i)
  drained := s.exceptionEnable
  csr := nextCsr s i
  flight := nextFlight s i
  committed := ((commits s i).map Prod.snd).getD s.committed
  configured := s.configured || (commits s i).isSome
  stale := nextStale s i

def Item.isBranch : Item → Bool
  | .branch _ => true
  | .vset _ _ => false

-- What the rest of the pipeline promises: instructions commit in order from the graduation list and
-- none of them together with an exception, a mispredicted branch has not committed, a flushed one is
-- gone after two cycles, decode holds the vset that reads its registers, and a load stops before its vl.
structure Allowed (s : State) (i : Input) : Prop where
  vset : i.commit = .vset → exceptionNow i = false → ∃ v e, s.flight.head? = some (.vset v e)
  branches : ∀ n, i.commit = .branches n → n ≤ s.flight.length ∧ ∀ item ∈ s.flight.take n, item.isBranch = true
  vleff : ∀ vl, i.commit = .vleff vl → vl ≠ 0 → vl.toNat < s.committed.vl.toNat
  trap : exceptionNow i = true → i.commit = .none ∨ i.commit = .vset
  live : ∀ p, i.misspredict = .live p → (i.commit.count ≤ p ∧ p < i.listed) ∧ ∃ index, s.flight[p]? = some (.branch index)
  dead : ∀ index, i.misspredict = .dead index → s.exceptionEnable = true ∨ s.drained = true
  clear : i.clear = true → ∃ v, i.decode = .vset v ∧ v.cycle = false
  listed : i.commit.count ≤ i.listed

def machine : Machine State Input where
  initial := reset
  allowed := Allowed
  step := next

def entries : List Item → List Entry
  | [] => []
  | .vset _ e :: rest => e :: entries rest
  | .branch _ :: rest => entries rest

-- The queue holds the program order: the last committed vset and the ones in flight.
structure Tracks (s : State) : Prop where
  youngest : youngest s.queue = (entries s.flight).getLastD s.committed
  committed : s.queue.buffer s.queue.lastCommitted = s.committed
  oldest : ∀ e, (entries s.flight).head? = some e → (oldest s.queue).vtype = e.vtype
  num : s.queue.num.val = (entries s.flight).length + 1
  bounds : 1 ≤ s.queue.num.val ∧ s.queue.num.val ≤ 8

-- A misprediction is signalled together with an exception, or for a branch that one has flushed.
def lateRecovery (i : Input) : Bool :=
  match i.misspredict with
  | .none => false
  | .live _ => exceptionNow i
  | .dead _ => true

def recovers (i : Input) : Bool := exceptionNow i || decide (i.misspredict ≠ .none)

-- The decoder writes a vset while the pipeline is flushed.
def flushedWrite (s : State) (i : Input) : Bool := flushing s && !recovers i && newVset s i && !full s.queue

-- A vset has read its registers and the queue has no room.
def lostWrite (s : State) (i : Input) : Bool := i.clear && full s.queue && !recovers i && !flushing s

-- The flush behind a fence drops a vset that has its entry.
def flushedVset (s : State) (i : Input) : Bool := !recovers i && (dropped s i).any fun item => !item.isBranch

def Meets (s : State) (i : Input) : Prop :=
  lateRecovery i = false ∧ flushedWrite s i = false ∧ lostWrite s i = false ∧ flushedVset s i = false

instance (s : State) (i : Input) : Decidable (Meets s i) := inferInstanceAs (Decidable (_ ∧ _ ∧ _ ∧ _))

end Sargantana.VsetPipeline
