import Sargantana.RenameBank

namespace Sargantana.ControlUnit
open DracPkg RenameBank

-- The inputs of control_unit that reach the rename stage: ir_cu_t, the branch
-- written back on scalar port 0, the stalls, and its two delayed enables.
structure Signals where
  valid : Bool
  isBranch : Bool
  emptyFreeList : Bool
  outOfCheckpoints : Bool
  csrStall : Bool
  exeStall : Bool
  glFull : Bool
  wbValid : Bool
  wbCheckpointDone : Bool
  wbChkp : CheckpointPtr
  correctBranchPred : Bool
  exceptionEnable : Bool
  csrEnable : Bool

def flushIr (s : Signals) : Bool :=
  if s.exceptionEnable then true
  else if s.csrEnable then true
  else if s.wbValid && !s.correctBranchPred then true
  else false

-- stall_ir and stall_rr are raised by the same causes. An empty free list or a
-- missing checkpoint holds only the instruction queue.
def stallIr (s : Signals) : Bool :=
  if s.csrStall then true
  else if s.exeStall then true
  else if s.glFull then true
  else false

def stallIq (s : Signals) : Bool :=
  if s.csrStall then true
  else if s.exeStall then true
  else if s.glFull then true
  else if s.emptyFreeList then true
  else if s.outOfCheckpoints then true
  else false

def doCheckpoint (s : Signals) : Bool :=
  s.isBranch && s.valid && !s.outOfCheckpoints && !flushIr s && !stallIr s

def doRecover (s : Signals) : Bool := !s.correctBranchPred && s.wbCheckpointDone && s.wbValid

def deleteCheckpoint (s : Signals) : Bool := s.correctBranchPred && s.wbCheckpointDone && s.wbValid

def command (s : Signals) : Command where
  doCheckpoint := doCheckpoint s
  doRecover := doRecover s
  deleteCheckpoint := deleteCheckpoint s
  recoverCheckpoint := s.wbChkp
  recoverCommit := s.exceptionEnable

-- exception_enable_d and csr_enable_d; `trap` is the disjunction of the causes
-- that both of them name, `fence` is a valid CSR fence at commit.
def exceptionEnableNext (exceptionEnable trap : Bool) : Bool := if exceptionEnable then false else trap

def csrEnableNext (csrEnable fence trap : Bool) : Bool := if csrEnable then false else fence && !trap

-- enable_commit_update and its SIMD and FP counterparts
def enableCommitUpdate (retire we exceptionEnableD : Bool) : Bool := retire && we && !exceptionEnableD

theorem doCheckpoint_parts (taken : doCheckpoint s = true) :
    s.isBranch = true ∧ s.valid = true ∧ s.outOfCheckpoints = false ∧ flushIr s = false ∧ stallIr s = false := by
  simpa [doCheckpoint,and_assoc] using taken

theorem stallIr_parts (free : stallIr s = false) :
    s.csrStall = false ∧ s.exeStall = false ∧ s.glFull = false := by
  unfold stallIr at free
  split at free
  · cases free
  · split at free
    · cases free
    · split at free
      · cases free
      · simp_all

theorem stallIq_eq (s : Signals) :
    stallIq s = (stallIr s || s.emptyFreeList || s.outOfCheckpoints) := by
  unfold stallIq stallIr
  split
  · rfl
  · split
    · rfl
    · split
      · rfl
      · cases s.emptyFreeList <;> cases s.outOfCheckpoints <;> rfl

theorem recover_flushes (recover : doRecover s = true) : flushIr s = true := by
  unfold doRecover at recover
  simp at recover
  unfold flushIr
  simp [recover]

end Sargantana.ControlUnit
