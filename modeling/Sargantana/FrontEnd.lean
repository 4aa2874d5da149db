import Sargantana.ControlUnit
import Sargantana.Lib.StateMachine

-- From fetch to the graduation list: the registers of the front end, the instruction queue, and the
-- part of control_unit that holds younger instructions back behind a CSR instruction or a fence.
namespace Sargantana.FrontEnd

open StateMachine

-- What the control unit looks at: stall_csr_fence, stall_vset_fence, a jump taken in decode, and an
-- instruction that was predicted as a branch without being one.
structure Instr where
  fence : Bool
  vsetFence : Bool
  jal : Bool
  mistaken : Bool
  deriving DecidableEq

-- `renamed` are the instructions between the instruction queue and the graduation list. `csrStalled`
-- is csr_stall of the cycle before.
structure State where
  if2 : Bool
  id : Option Instr
  stored : Option Instr
  srcSelect : Bool
  iq : List Instr
  renamed : List Instr
  graduation : List Instr
  fenceInPipeline : Bool
  exceptionEnable : Bool
  csrEnable : Bool
  csrStalled : Bool
  deriving DecidableEq

-- `step` stands for step_inst_in_id and step_inst_in_pipeline, `commitValid` says that the first
-- instruction of the graduation list is presented, `trap` are the causes of exception_enable_d.
structure Input where
  fetch : Bool
  response : Option Instr
  fullVset : Bool
  clearVset : Bool
  csrStall : Bool
  step : Bool
  commitValid : Bool
  trap : Bool
  retire : Nat
  misspredict : Option Nat
  readHead : Bool
  push : Bool

def reset : State := ⟨false,none,none,false,[],[],[],false,false,false,false⟩

def fullIq (s : State) : Bool := decide (s.iq.length = 16)

def idFence (s : State) : Bool := s.id.any (·.fence)

def idVset (s : State) (i : Input) : Bool := s.id.any (·.vsetFence) && !i.clearVset

def commitFence (s : State) (i : Input) : Bool := i.commitValid && s.graduation.head?.any (·.fence)

-- The three causes that flush the front end and the backend alike
def flushIr (s : State) (i : Input) : Bool := s.exceptionEnable || s.csrEnable || i.misspredict.isSome

-- Decode waits for a vset. A full vset queue counts also when decode is empty.
def vsetWait (s : State) (i : Input) : Bool := (idVset s i || i.fullVset) && !fullIq s

def flushIf (s : State) (i : Input) : Bool :=
  if flushIr s i then true
  else if vsetWait s i then false
  else if (idFence s || s.fenceInPipeline || i.step || commitFence s i) && !i.csrStall then true
  else (s.id.any (·.jal) || s.id.any (·.mistaken)) && !i.csrStall

def flushId (s : State) (i : Input) : Bool := flushIr s i || vsetWait s i

def stallId (s : State) (i : Input) : Bool := i.csrStall || fullIq s || idVset s i || (s.id.isSome && i.fullVset)

-- A miss in the instruction cache holds the fetch stages only.
def stallIf2 (s : State) (i : Input) : Bool := stallId s i || (s.if2 && i.response.isNone)

def flushCsrFence (s : State) (i : Input) : Bool :=
  if s.exceptionEnable then true
  else if s.csrEnable then false
  else i.misspredict.isSome

-- selection_id_ir
def selection (s : State) : Option Instr := if s.srcSelect then s.id else s.stored

def written (s : State) : List Instr := if s.iq.length < 16 then (selection s).toList else []

def popped (s : State) (i : Input) : List Instr := s.iq.take (if i.readHead then 1 else 0)

def pushed (s : State) (i : Input) : List Instr := s.renamed.take (if i.push then 1 else 0)

def nextIq (s : State) (i : Input) : List Instr :=
  if flushIr s i then [] else s.iq.drop (if i.readHead then 1 else 0) ++ written s

def nextRenamed (s : State) (i : Input) : List Instr :=
  if flushIr s i then [] else s.renamed.drop (if i.push then 1 else 0) ++ popped s i

-- The flush of csr_enable_q leaves the graduation list alone.
def nextGraduation (s : State) (i : Input) : List Instr :=
  if s.exceptionEnable then []
  else match i.misspredict with
    | some p => (s.graduation.take (p + 1)).drop i.retire
    | none => (s.graduation ++ pushed s i).drop i.retire

def next (s : State) (i : Input) : State where
  if2 := if flushIf s i then false else if stallIf2 s i then s.if2 else i.fetch
  id := if flushIf s i then none else if stallId s i then s.id else if s.if2 then i.response else none
  stored := if flushId s i then none else selection s
  srcSelect := !stallId s i
  iq := nextIq s i
  renamed := nextRenamed s i
  graduation := nextGraduation s i
  fenceInPipeline :=
    if flushCsrFence s i then false
    else if idFence s then true
    else if commitFence s i then false
    else s.fenceInPipeline
  exceptionEnable := ControlUnit.exceptionEnableNext s.exceptionEnable i.trap
  csrEnable := ControlUnit.csrEnableNext s.csrEnable (commitFence s i) i.trap
  csrStalled := i.csrStall

-- What the rest of the core promises: a flushed graduation list presents nothing, a fence that is
-- presented retires unless it traps and is never the second to retire, a mispredicted branch is
-- still in the graduation list and no fence, and wfi stalls from the cycle after it commits.
structure Allowed (s : State) (i : Input) : Prop where
  presented : i.commitValid = true → s.exceptionEnable = false
  retired : i.retire ≤ s.graduation.length ∧ (0 < i.retire → i.commitValid = true ∧ i.trap = false)
  second : ∀ x ∈ (s.graduation.take i.retire).tail, x.fence = false
  fence : commitFence s i = true → i.trap = false → 0 < i.retire
  branch : ∀ p, i.misspredict = some p → s.exceptionEnable = false →
    i.retire ≤ p ∧ ∃ b, s.graduation[p]? = some b ∧ b.fence = false
  stall : i.csrStall = true → s.csrEnable = true ∨ s.exceptionEnable = true ∨ s.csrStalled = true

def machine : Machine State Input where
  initial := reset
  allowed := Allowed
  step := next

end Sargantana.FrontEnd
