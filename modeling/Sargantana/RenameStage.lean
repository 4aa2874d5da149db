import Sargantana.ControlUnit
import Sargantana.RenameCycle
import Sargantana.Lib.StateMachine

namespace Sargantana.RenameStage
open DracPkg RenameBank ControlUnit StateMachine Renaming Window

inductive RegClass where
  | int | simd | fp
  deriving DecidableEq, Repr

instance : Fintype RegClass := ⟨{.int,.simd,.fp},fun c => by cases c <;> decide⟩

-- HARDWIRED_ZERO of the three instances; ZERO_IS_FREEABLE is its negation.
def hardwiredZero : RegClass → Bool
  | .int => true
  | .simd => false
  | .fp => false

-- The instruction at the head of the instruction queue.
structure Instr where
  valid : Bool
  isBranch : Bool
  rd : Reg
  vd : Reg
  regfileWe : Bool
  vregfileWe : Bool
  fregfileWe : Bool

def Instr.we (instr : Instr) : RegClass → Bool
  | .int => instr.regfileWe
  | .simd => instr.vregfileWe
  | .fp => instr.fregfileWe

def Instr.dst (instr : Instr) : RegClass → Reg
  | .int => instr.rd
  | .simd => instr.vd
  | .fp => instr.rd

-- An instruction past rename, with what it holds in each class.
abbrev Entry := RegClass → Destination

-- A checkpoint that is not deleted: its label, how many instructions in flight
-- are not younger than its branch, and whether the branch is still in flight and
-- not resolved. A checkpoint can outlive its branch: the control unit always
-- deletes the oldest one, and a csr flush deletes none.
structure Branch where
  label : CheckpointPtr
  upto : Nat
  unresolved : Bool

-- The rename stage with the instructions it has renamed, oldest first: those
-- in the graduation list, then the one in the register between IR and RR.
-- `trapped` are the instructions taken out in the cycle of a trap; they are
-- dropped by the rollback of the next cycle. `retired` records all others.
structure State (ports : RegClass → Nat) where
  bank : (c : RegClass) → Bank (ports c)
  trapped : List Entry
  graduation : List Entry
  readRegister : Option Entry
  branches : List Branch
  exceptionEnable : Bool
  csrEnable : Bool
  retired : List Entry

-- The branch written back on scalar port 0, by the place of its checkpoint.
structure Resolved where
  branch : Nat
  correct : Bool

structure Input (ports writebacks : RegClass → Nat) where
  instr : Instr
  readSrc : (c : RegClass) → Fin (ports c) → Reg
  useRs : (c : RegClass) → Fin (ports c) → Bool
  writeback : (c : RegClass) → Fin (writebacks c) → RenameTable.Writeback
  resolved : Option Resolved
  csrStall : Bool
  exeStall : Bool
  -- how many instructions the graduation list gives up (retire_inst_gl)
  retire : Nat
  trap : Bool
  fence : Bool

variable {ports writebacks : RegClass → Nat}

def reset : State ports where
  bank := fun _ => RenameBank.reset
  trapped := []
  graduation := []
  readRegister := none
  branches := []
  exceptionEnable := false
  csrEnable := false
  retired := []

def inflight (s : State ports) : List Entry := s.trapped ++ s.graduation ++ s.readRegister.toList

def destinations (c : RegClass) (entries : List Entry) : List Destination := entries.map (· c)

@[simp] theorem destinations_append (c : RegClass) (one two : List Entry) :
    destinations c (one ++ two) = destinations c one ++ destinations c two := List.map_append

@[simp] theorem destinations_take (c : RegClass) (entries : List Entry) (k : Nat) :
    destinations c (entries.take k) = (destinations c entries).take k := List.map_take

@[simp] theorem destinations_drop (c : RegClass) (entries : List Entry) (k : Nat) :
    destinations c (entries.drop k) = (destinations c entries).drop k := List.map_drop

@[simp] theorem destinations_length (c : RegClass) (entries : List Entry) :
    (destinations c entries).length = entries.length := List.length_map _

def Branch.mark (branch : Branch) : Option Nat := if branch.unresolved then some branch.upto else none

def marks (s : State ports) : List (Option Nat) := s.branches.map (·.mark)

def exceptionEnableD (s : State ports) (i : Input ports writebacks) : Bool :=
  exceptionEnableNext s.exceptionEnable i.trap

def idle : Destination := ⟨false,0,0,0⟩

-- instruction_to_commit: the oldest entries of the graduation list
def instructionToCommit (s : State ports) (port : Fin 2) (c : RegClass) : Destination :=
  match s.graduation[port.val]? with
  | some entry => entry c
  | none => idle

def branchOf (s : State ports) (i : Input ports writebacks) : Option Branch :=
  i.resolved.bind fun r => s.branches[r.branch]?

def bankInput (s : State ports) (i : Input ports writebacks) (command : Command) (renames : Bool)
    (c : RegClass) : RenameBank.Input (ports c) (writebacks c) where
  command := command
  write := i.instr.we c && renames
  rd := i.instr.dst c
  readSrc := i.readSrc c
  useRs := i.useRs c
  writeback := i.writeback c
  commitUpdate := fun port => enableCommitUpdate (decide (port.val < i.retire)) (instructionToCommit s port c).we
    (exceptionEnableD s i)
  commit := fun port => instructionToCommit s port c

-- empty_o of the integer free list does not look at the read of the cycle.
def emptyFreeList (s : State ports) (i : Input ports writebacks) : Bool :=
  FreeList.empty (!hardwiredZero .int) (s.bank .int).freeList
    (freeListInput (hardwiredZero .int) (bankInput s i ⟨false,false,false,0,s.exceptionEnable⟩ false .int))

def signals (s : State ports) (i : Input ports writebacks) : Signals where
  valid := i.instr.valid
  isBranch := i.instr.isBranch
  emptyFreeList := emptyFreeList s i
  outOfCheckpoints := RenameTable.outOfCheckpoints (s.bank .int).renameTable
  csrStall := i.csrStall
  exeStall := i.exeStall
  glFull := decide (s.graduation.length = 31)
  wbValid := (branchOf s i).isSome
  wbCheckpointDone := (branchOf s i).isSome
  wbChkp := ((branchOf s i).map (·.label)).getD 0
  correctBranchPred := (i.resolved.map (·.correct)).getD true
  exceptionEnable := s.exceptionEnable
  csrEnable := s.csrEnable

-- valid & ~stall_ir & ~stall_iq
def renames (s : State ports) (i : Input ports writebacks) : Bool :=
  i.instr.valid && !stallIr (signals s i) && !stallIq (signals s i)

def classInput (s : State ports) (i : Input ports writebacks) (c : RegClass) :
    RenameBank.Input (ports c) (writebacks c) :=
  bankInput s i (command (signals s i)) (renames s i) c

def nextBank (s : State ports) (i : Input ports writebacks) (c : RegClass) : Bank (ports c) :=
  RenameBank.next (hardwiredZero c) (s.bank c) (classInput s i c)

def renamedEntry (s : State ports) (i : Input ports writebacks) : Entry :=
  fun c => {renamed (hardwiredZero c) (s.bank c) (classInput s i c) with we := i.instr.we c}

def entering (s : State ports) (i : Input ports writebacks) : List Entry :=
  if renames s i then [renamedEntry s i] else []

-- What a csr flush discards without giving anything back: the renamed
-- instruction that waits in front of the graduation list, or the one that is
-- being renamed.
def dropped (s : State ports) (i : Input ports writebacks) : List Entry :=
  if flushIr (signals s i) && !s.exceptionEnable && !doRecover (signals s i) then
    if stallIr (signals s i) then s.readRegister.toList else entering s i
  else []

def Branch.older (k : Nat) (branch : Branch) : Branch := {branch with upto := branch.upto - k}

-- A branch beyond the instructions in flight has been discarded.
def Branch.within (flying : Nat) (branch : Branch) : Branch :=
  {branch with unresolved := branch.unresolved && decide (branch.upto ≤ flying)}

-- The branch whose correct prediction is written back waits no longer.
def Branch.settle (control : Signals) (branch : Branch) : Branch :=
  {branch with unresolved := branch.unresolved && !(deleteCheckpoint control && branch.label == control.wbChkp)}

-- How many instructions leave for good. Trapping ones stay until the rollback.
def gone (s : State ports) (i : Input ports writebacks) : Nat :=
  if exceptionEnableD s i then 0 else (s.graduation.take i.retire).length

def step (s : State ports) (i : Input ports writebacks) : State ports :=
  let popped := s.graduation.take i.retire
  let kept := s.graduation.drop i.retire
  let trapping := exceptionEnableD s i
  let cleared : State ports := {s with
    bank := nextBank s i
    exceptionEnable := trapping
    csrEnable := csrEnableNext s.csrEnable i.fence i.trap
    trapped := []
    graduation := []
    readRegister := none
    branches := []}
  if s.exceptionEnable then cleared
  else
    let held : State ports := {cleared with
      trapped := if trapping then s.trapped ++ popped else s.trapped
      retired := if trapping then s.retired else s.retired ++ popped}
    if doRecover (signals s i) then
      match i.resolved, branchOf s i with
      | some r, some branch => {held with
          graduation := kept.take (branch.upto - s.trapped.length - popped.length)
          branches := (s.branches.take r.branch).map (Branch.older (gone s i))}
      | _, _ => held
    else
      let stalled := stallIr (signals s i)
      let after : State ports := {held with
        graduation := if stalled then kept else kept ++ s.readRegister.toList
        readRegister := if flushIr (signals s i) then none
          else if stalled then s.readRegister else (entering s i).head?}
      let flying := (inflight after).length
      let taken : List Branch := if doCheckpoint (signals s i) then
        [⟨(nextBank s i .int).outputs.checkpoint,flying,renames s i⟩] else []
      {after with
        branches := ((s.branches.map fun branch => (branch.settle (signals s i)).older (gone s i)) ++ taken).drop
          (deleteCheckpoint (signals s i)).toNat |>.map (Branch.within flying)}

@[simp] theorem step_bank (s : State ports) (i : Input ports writebacks) : (step s i).bank = nextBank s i := by
  unfold step
  dsimp only
  split
  · rfl
  · split
    · split <;> rfl
    · rfl

@[simp] theorem step_exceptionEnable (s : State ports) (i : Input ports writebacks) :
    (step s i).exceptionEnable = exceptionEnableD s i := by
  unfold step
  dsimp only
  split
  · rfl
  · split
    · split <;> rfl
    · rfl

-- What the rest of the pipeline keeps to. The graduation list gives up at most
-- two of its oldest entries, none of them younger than an unresolved branch and
-- none during a rollback. A branch is resolved once it is in the graduation
-- list, and correctly predicted ones in program order.
structure Allowed (s : State ports) (i : Input ports writebacks) : Prop where
  two : i.retire ≤ 2
  present : i.retire ≤ s.graduation.length
  rollBack : s.exceptionEnable = true → i.retire = 0
  unresolved : ∀ branch ∈ s.branches, branch.unresolved = true → s.trapped.length + i.retire ≤ branch.upto
  live : ∀ r, i.resolved = some r → ∃ branch, s.branches[r.branch]? = some branch ∧
    branch.unresolved = true ∧ branch.upto ≤ s.trapped.length + s.graduation.length
  oldest : ∀ r, i.resolved = some r → r.correct = true →
    ∀ branch ∈ s.branches.take r.branch, branch.unresolved = false

-- Allowed in a form that can be evaluated
theorem allowed_iff (s : State ports) (i : Input ports writebacks) : Allowed s i ↔
    i.retire ≤ 2 ∧ i.retire ≤ s.graduation.length ∧ (s.exceptionEnable = true → i.retire = 0) ∧
    (∀ branch ∈ s.branches, branch.unresolved = true → s.trapped.length + i.retire ≤ branch.upto) ∧
    ∀ r ∈ i.resolved, (∃ branch ∈ s.branches[r.branch]?, branch.unresolved = true ∧
      branch.upto ≤ s.trapped.length + s.graduation.length) ∧
      (r.correct = true → ∀ branch ∈ s.branches.take r.branch, branch.unresolved = false) := by
  constructor
  · intro allowed
    exact ⟨allowed.two,allowed.present,allowed.rollBack,allowed.unresolved,
      fun r resolved => ⟨allowed.live r resolved,allowed.oldest r resolved⟩⟩
  · rintro ⟨two,present,rollBack,unresolved,resolved⟩
    exact ⟨two,present,rollBack,unresolved,fun r here => (resolved r here).1,fun r here => (resolved r here).2⟩

instance (s : State ports) (i : Input ports writebacks) : Decidable (Allowed s i) :=
  decidable_of_iff _ (allowed_iff s i).symm

def machine (ports writebacks : RegClass → Nat) : Machine (State ports) (Input ports writebacks) :=
  ⟨reset,Allowed,step⟩

instance (s : State ports) (i : Input ports writebacks) : Decidable ((machine ports writebacks).allowed s i) :=
  inferInstanceAs (Decidable (Allowed s i))

-- No csr flush of the cycle takes a register of the class away.
def Spares (c : RegClass) (s : State ports) (i : Input ports writebacks) : Prop :=
  ∀ entry ∈ dropped s i, (entry c).takes (hardwiredZero c) = false

instance (c : RegClass) (s : State ports) (i : Input ports writebacks) : Decidable (Spares c s i) :=
  inferInstanceAs (Decidable (∀ entry ∈ dropped s i, _))

-- The stage in runs whose csr flushes take no register of the kept classes away.
def sparing (ports writebacks : RegClass → Nat) (kept : RegClass → Prop) : Machine (State ports) (Input ports writebacks) :=
  {machine ports writebacks with allowed := fun s i => Allowed s i ∧ ∀ c, kept c → Spares c s i}

instance (kept : RegClass → Prop) [DecidablePred kept] (s : State ports) (i : Input ports writebacks) :
    Decidable ((sparing ports writebacks kept).allowed s i) :=
  inferInstanceAs (Decidable (Allowed s i ∧ ∀ c, kept c → Spares c s i))

end Sargantana.RenameStage
