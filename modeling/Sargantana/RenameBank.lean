import Sargantana.RenameTable
import Sargantana.Lib.Renaming

namespace Sargantana.RenameBank
open DracPkg Renaming

-- What one in-flight instruction holds in one register class: regfile_we, rd,
-- prd and old_prd, and their SIMD and FP counterparts.
structure Destination where
  we : Bool
  rd : Reg
  prd : Phreg
  oldPrd : Phreg

-- Register 0 of a hardwired class takes no physical register.
def Destination.takes (hardwiredZero : Bool) (d : Destination) : Bool := d.we && (!hardwiredZero || d.rd != 0)

def Destination.write (d : Destination) : Write Reg Phreg := ⟨d.rd,d.prd,d.oldPrd⟩

-- The checkpoint commands of cu_ir_t. Every free list and every rename table
-- receives the same ones.
structure Command where
  doCheckpoint : Bool
  doRecover : Bool
  deleteCheckpoint : Bool
  recoverCheckpoint : CheckpointPtr
  recoverCommit : Bool

-- The free list and the rename table of one register class, as the datapath
-- connects them. The integer class is hardwired: HARDWIRED_ZERO is 1 and
-- ZERO_IS_FREEABLE is 0; for SIMD and FP it is the other way round.
structure Bank (ports : Nat) where
  freeList : FreeList.State
  renameTable : RenameTable.State
  outputs : RenameTable.Outputs ports

structure Input (ports writebacks : Nat) where
  command : Command
  -- regfile_we & valid & ~stall_ir & ~stall_iq, and rd, of the renamed instruction
  write : Bool
  rd : Reg
  readSrc : Fin ports → Reg
  useRs : Fin ports → Bool
  writeback : Fin writebacks → RenameTable.Writeback
  -- enable_commit_update and instruction_to_commit
  commitUpdate : Fin 2 → Bool
  commit : Fin 2 → Destination

variable {ports writebacks : Nat}

def reset : Bank ports := ⟨FreeList.reset,RenameTable.reset,RenameTable.resetOutputs⟩

def freeListInput (hardwiredZero : Bool) (i : Input ports writebacks) : FreeList.Input where
  readHead := i.write && (!hardwiredZero || i.rd != 0)
  addFreeRegister := i.commitUpdate
  freeRegister := fun port => (i.commit port).oldPrd
  doCheckpoint := i.command.doCheckpoint
  doRecover := i.command.doRecover
  deleteCheckpoint := i.command.deleteCheckpoint
  recoverCheckpoint := i.command.recoverCheckpoint
  commitRollBack := i.command.recoverCommit

def freeRegisterToRename (hardwiredZero : Bool) (b : Bank ports) (i : Input ports writebacks) : Phreg :=
  FreeList.newRegister (!hardwiredZero) b.freeList (freeListInput hardwiredZero i)

def renameTableInput (hardwiredZero : Bool) (b : Bank ports) (i : Input ports writebacks) :
    RenameTable.Input ports writebacks where
  readSrc := i.readSrc
  useRs := i.useRs
  oldDst := i.rd
  writeDst := i.write
  newDst := freeRegisterToRename hardwiredZero b i
  writeback := i.writeback
  recoverCommit := i.command.recoverCommit
  commitOldDst := fun port => (i.commit port).rd
  commitWriteDst := i.commitUpdate
  commitNewDst := fun port => (i.commit port).prd
  doCheckpoint := i.command.doCheckpoint
  doRecover := i.command.doRecover
  deleteCheckpoint := i.command.deleteCheckpoint
  recoverCheckpoint := i.command.recoverCheckpoint

def next (hardwiredZero : Bool) (b : Bank ports) (i : Input ports writebacks) : Bank ports where
  freeList := FreeList.next (!hardwiredZero) b.freeList (freeListInput hardwiredZero i)
  renameTable := RenameTable.next hardwiredZero b.renameTable (renameTableInput hardwiredZero b i)
  outputs := RenameTable.nextOutputs b.renameTable b.outputs (renameTableInput hardwiredZero b i)

-- What the renamed instruction carries on: prd is registered beside it, and
-- old_prd is the registered output of the rename table.
def renamed (hardwiredZero : Bool) (b : Bank ports) (i : Input ports writebacks) : Destination where
  we := i.write
  rd := i.rd
  prd := freeRegisterToRename hardwiredZero b i
  oldPrd := (next hardwiredZero b i).outputs.oldDst

-- The part of both tables that only the commands move.
structure Versions where
  head : CheckpointPtr
  tail : CheckpointPtr
  count : Fin 8

def freeListVersions (s : FreeList.State) : Versions := ⟨s.versionHead,s.versionTail,s.numCheckpoints⟩

def renameTableVersions (s : RenameTable.State) : Versions := ⟨s.versionHead,s.versionTail,s.numCheckpoints⟩

def Versions.next (c : Command) (v : Versions) : Versions :=
  let taken := c.doCheckpoint && decide (v.count.val < DracPkg.numCheckpoints - 1) && !c.doRecover && !c.recoverCommit
  if c.recoverCommit then ⟨0,0,0⟩
  else if c.doRecover then
    ⟨c.recoverCheckpoint,v.tail + bit c.deleteCheckpoint,FreeList.recoveredCount c.recoverCheckpoint v.tail⟩
  else ⟨if taken then v.head + 1 else v.head,v.tail + bit c.deleteCheckpoint,
    v.count + bit taken - bit c.deleteCheckpoint⟩

theorem freeList_versions (hardwiredZero : Bool) (b : Bank ports) (i : Input ports writebacks) :
    freeListVersions (next hardwiredZero b i).freeList = (freeListVersions b.freeList).next i.command := by
  simp only [freeListVersions,next,FreeList.next_versionHead,FreeList.next_versionTail,FreeList.next_numCheckpoints]
  unfold Versions.next FreeList.checkpointEnable freeListInput
  cases i.command.recoverCommit <;> cases i.command.doRecover <;> rfl

end Sargantana.RenameBank
