import Sargantana.FreeList

namespace Sargantana.RenameTable
open DracPkg FreeList

-- The tables of rename_table. The output registers are kept apart: the next
-- tables never depend on them.
structure State where
  registerTable : Reg → CheckpointPtr → Phreg
  readyTable : Reg → CheckpointPtr → Bool
  commitTable : Reg → Phreg
  versionHead : CheckpointPtr
  versionTail : CheckpointPtr
  numCheckpoints : Fin 8

structure Outputs (ports : Nat) where
  src : Fin ports → Phreg
  rdy : Fin ports → Bool
  oldDst : Phreg
  rdyOldDst : Bool
  checkpoint : CheckpointPtr

-- One writeback port: ready_i, vaddr_i and paddr_i.
structure Writeback where
  ready : Bool
  vaddr : Reg
  paddr : Phreg

structure Input (ports writebacks : Nat) where
  readSrc : Fin ports → Reg
  useRs : Fin ports → Bool
  oldDst : Reg
  writeDst : Bool
  newDst : Phreg
  writeback : Fin writebacks → Writeback
  recoverCommit : Bool
  commitOldDst : Fin 2 → Reg
  commitWriteDst : Fin 2 → Bool
  commitNewDst : Fin 2 → Phreg
  doCheckpoint : Bool
  doRecover : Bool
  deleteCheckpoint : Bool
  recoverCheckpoint : CheckpointPtr

variable {ports writebacks : Nat}

def reset : State where
  registerTable := fun r _ => Fin.ofNat 64 r.val
  readyTable := fun _ _ => true
  commitTable := fun r => Fin.ofNat 64 r.val
  versionHead := 0
  versionTail := 0
  numCheckpoints := 0

def checkpointEnable (s : State) (i : Input ports writebacks) : Bool :=
  i.doCheckpoint && decide (s.numCheckpoints.val < DracPkg.numCheckpoints - 1) && !i.doRecover && !i.recoverCommit

def writeEnable (hardwiredZero : Bool) (i : Input ports writebacks) : Bool :=
  i.writeDst && !i.doRecover && (!hardwiredZero || i.oldDst != 0) && !i.recoverCommit

def commitWriteEnable (hardwiredZero : Bool) (i : Input ports writebacks) (port : Fin 2) : Bool :=
  i.commitWriteDst port && (!hardwiredZero || i.commitOldDst port != 0) && !i.recoverCommit

def readEnable (i : Input ports writebacks) : Bool := !i.doRecover && !i.recoverCommit

def setEntry (table : Reg → CheckpointPtr → α) (r : Reg) (v : CheckpointPtr) (value : α) :
    Reg → CheckpointPtr → α :=
  fun r' v' => if r' = r ∧ v' = v then value else table r' v'

def copyVersion (table : Reg → CheckpointPtr → α) (source target : CheckpointPtr) :
    Reg → CheckpointPtr → α :=
  fun r v => if v = target then table r source else table r v

def recoverCommitTable (s : State) : State :=
  {s with
    registerTable := fun r v => if v = 0 then s.commitTable r else s.registerTable r v
    readyTable := fun r v => if v = 0 then true else s.readyTable r v
    versionHead := 0
    numCheckpoints := 0
    versionTail := 0}

def commitAfter (hardwiredZero : Bool) (s : State) (i : Input ports writebacks) : Reg → Phreg :=
  let c0 := commitWriteEnable hardwiredZero i 0
  let c1 := commitWriteEnable hardwiredZero i 1
  if c0 && !c1 then Function.update s.commitTable (i.commitOldDst 0) (i.commitNewDst 0)
  else if c0 && c1 && i.commitOldDst 0 == i.commitOldDst 1 then
    Function.update s.commitTable (i.commitOldDst 1) (i.commitNewDst 1)
  else if c0 && c1 && i.commitOldDst 0 != i.commitOldDst 1 then
    Function.update (Function.update s.commitTable (i.commitOldDst 0) (i.commitNewDst 0))
      (i.commitOldDst 1) (i.commitNewDst 1)
  else if !c0 && c1 then Function.update s.commitTable (i.commitOldDst 1) (i.commitNewDst 1)
  else s.commitTable

-- A writeback raises the ready bit of its register in each version that maps
-- the register to it, also in the version created in this cycle, and not where
-- the mapping is being overwritten in this cycle.
def readyMark (hardwiredZero : Bool) (s : State) (i : Input ports writebacks) (p : Writeback)
    (r : Reg) (v : CheckpointPtr) : Bool :=
  let taken := checkpointEnable s i
  let write := writeEnable hardwiredZero i
  p.ready && !i.recoverCommit && p.vaddr == r &&
    if !taken || v != s.versionHead + 1 then
      s.registerTable p.vaddr v == p.paddr && !(write && p.vaddr == i.oldDst && v == s.versionHead)
    else s.registerTable p.vaddr s.versionHead == p.paddr && !(write && p.vaddr == i.oldDst)

def next (hardwiredZero : Bool) (s : State) (i : Input ports writebacks) : State :=
  let taken := checkpointEnable s i
  let write := writeEnable hardwiredZero i
  let nxt := s.versionHead + 1
  if i.recoverCommit then recoverCommitTable s
  else
    let moved : State :=
      if i.doRecover then {s with
        versionHead := i.recoverCheckpoint
        numCheckpoints := recoveredCount i.recoverCheckpoint s.versionTail}
      else
        let counted : State := {s with
          numCheckpoints := s.numCheckpoints + bit taken - bit i.deleteCheckpoint}
        if taken then
          let copied : State := {counted with
            registerTable := copyVersion s.registerTable s.versionHead nxt
            readyTable := copyVersion s.readyTable s.versionHead nxt
            versionHead := nxt}
          if write then {copied with
            registerTable := setEntry (setEntry copied.registerTable i.oldDst nxt i.newDst)
              i.oldDst s.versionHead i.newDst
            readyTable := setEntry (setEntry copied.readyTable i.oldDst nxt false)
              i.oldDst s.versionHead false}
          else copied
        else if write then {counted with
          registerTable := setEntry s.registerTable i.oldDst s.versionHead i.newDst
          readyTable := setEntry s.readyTable i.oldDst s.versionHead false}
        else counted
    {moved with
      versionTail := s.versionTail + bit i.deleteCheckpoint
      commitTable := commitAfter hardwiredZero s i
      readyTable := fun r v => moved.readyTable r v ||
        (List.finRange writebacks).any fun port => readyMark hardwiredZero s i (i.writeback port) r v}

-- A source read in the cycle of its writeback is ready already (rdy and rdy_old_dst).
def bypassed (s : State) (i : Input ports writebacks) (r : Reg) : Bool :=
  readEnable i && (List.finRange writebacks).any fun port =>
    (i.writeback port).ready && r == (i.writeback port).vaddr &&
      s.registerTable r s.versionHead == (i.writeback port).paddr

def nextOutputs (s : State) (o : Outputs ports) (i : Input ports writebacks) : Outputs ports :=
  if i.recoverCommit then ⟨fun _ => 0,fun _ => false,0,false,0⟩
  else
    let captured : Outputs ports :=
      if readEnable i && !i.doRecover then {o with
        src := fun p => s.registerTable (i.readSrc p) s.versionHead
        rdy := fun p => s.readyTable (i.readSrc p) s.versionHead || bypassed s i (i.readSrc p) || !i.useRs p
        oldDst := s.registerTable i.oldDst s.versionHead
        rdyOldDst := s.readyTable i.oldDst s.versionHead || bypassed s i i.oldDst}
      else o
    {captured with checkpoint := s.versionHead}

def resetOutputs : Outputs ports := ⟨fun _ => 0,fun _ => false,0,false,0⟩

def outOfCheckpoints (s : State) : Bool := decide (s.numCheckpoints.val = DracPkg.numCheckpoints - 1)

def mapping (s : State) (v : CheckpointPtr) : Reg → Phreg := fun r => s.registerTable r v

-- One cycle as operations in sequence: the writebacks and the commits, the rename,
-- the checkpoint, the delete.
def portMark (s : State) (p : Writeback) (r : Reg) (v : CheckpointPtr) : Bool :=
  p.ready && p.vaddr == r && s.registerTable r v == p.paddr

def marked (s : State) (i : Input ports writebacks) (r : Reg) (v : CheckpointPtr) : Bool :=
  (List.finRange writebacks).any fun port => portMark s (i.writeback port) r v

def writeBack (s : State) (i : Input ports writebacks) : State :=
  {s with readyTable := fun r v => s.readyTable r v || marked s i r v}

def commitPort (s : State) (enable : Bool) (r : Reg) (p : Phreg) : State :=
  if enable then {s with commitTable := Function.update s.commitTable r p} else s

def committed (hardwiredZero : Bool) (s : State) (i : Input ports writebacks) : State :=
  commitPort (commitPort s (commitWriteEnable hardwiredZero i 0) (i.commitOldDst 0) (i.commitNewDst 0))
    (commitWriteEnable hardwiredZero i 1) (i.commitOldDst 1) (i.commitNewDst 1)

def rename (s : State) (r : Reg) (p : Phreg) : State :=
  {s with
    registerTable := setEntry s.registerTable r s.versionHead p
    readyTable := setEntry s.readyTable r s.versionHead false}

def takeCheckpoint (s : State) : State :=
  {s with
    versionHead := s.versionHead + 1
    numCheckpoints := s.numCheckpoints + 1
    registerTable := copyVersion s.registerTable s.versionHead (s.versionHead + 1)
    readyTable := copyVersion s.readyTable s.versionHead (s.versionHead + 1)}

def deleteOldest (s : State) : State :=
  {s with versionTail := s.versionTail + 1, numCheckpoints := s.numCheckpoints - 1}

def recoverTo (s : State) (c : CheckpointPtr) : State :=
  {s with versionHead := c, numCheckpoints := recoveredCount c s.versionTail}

def settled (hardwiredZero : Bool) (s : State) (i : Input ports writebacks) : State :=
  let one := committed hardwiredZero (writeBack s i) i
  let two := if writeEnable hardwiredZero i then rename one i.oldDst i.newDst else one
  let three := if checkpointEnable s i then takeCheckpoint two else two
  if i.deleteCheckpoint then deleteOldest three else three

variable {hz : Bool} {s : State} {i : Input ports writebacks}

theorem mapping_rename_self : mapping (rename s r p) s.versionHead =
    Function.update (mapping s s.versionHead) r p := by
  funext r'
  simp [mapping,rename,setEntry,Function.update_apply]

theorem mapping_rename_other (apart : v ≠ s.versionHead) : mapping (rename s r p) v = mapping s v := by
  funext r'
  simp [mapping,rename,setEntry,apart]

theorem mapping_takeCheckpoint_new : mapping (takeCheckpoint s) (s.versionHead + 1) = mapping s s.versionHead := by
  funext r'
  simp [mapping,takeCheckpoint,copyVersion]

theorem mapping_takeCheckpoint_other (apart : v ≠ s.versionHead + 1) :
    mapping (takeCheckpoint s) v = mapping s v := by
  funext r'
  simp [mapping,takeCheckpoint,copyVersion,apart]

-- Two retirements in one cycle write the commit table as if one came after the other.
theorem committed_eq : committed hz s i = {s with commitTable := commitAfter hz s i} := by
  unfold committed commitPort commitAfter
  by_cases same : i.commitOldDst 0 = i.commitOldDst 1 <;>
    cases commitWriteEnable hz i 0 <;> cases commitWriteEnable hz i 1 <;> simp [same]

theorem next_recoverCommit (back : i.recoverCommit = true) : next hz s i = recoverCommitTable s := by
  simp [next,back]

theorem readyMark_eq (back : i.recoverCommit = false) (p : Writeback) (r : Reg) (v : CheckpointPtr) :
    readyMark hz s i p r v =
      if checkpointEnable s i && v == s.versionHead + 1 then
        portMark s p r s.versionHead && !(writeEnable hz i && r == i.oldDst)
      else portMark s p r v && !(writeEnable hz i && r == i.oldDst && v == s.versionHead) := by
  unfold readyMark portMark
  by_cases equal : p.vaddr = r
  · subst equal
    by_cases fresh : v = s.versionHead + 1 <;> cases checkpointEnable s i <;>
      simp [back,fresh,Bool.and_assoc]
  · have off : (p.vaddr == r) = false := beq_false_of_ne equal
    simp [off]

theorem any_and_const (list : List α) (f : α → Bool) (b : Bool) :
    (list.any fun x => f x && b) = (list.any f && b) := by
  cases b <;> simp

theorem any_readyMark (back : i.recoverCommit = false) (r : Reg) (v : CheckpointPtr) :
    ((List.finRange writebacks).any fun port => readyMark hz s i (i.writeback port) r v) =
      if checkpointEnable s i && v == s.versionHead + 1 then
        marked s i r s.versionHead && !(writeEnable hz i && r == i.oldDst)
      else marked s i r v && !(writeEnable hz i && r == i.oldDst && v == s.versionHead) := by
  simp only [readyMark_eq back,marked]
  split <;> rw [any_and_const]

theorem setEntry_copyVersion (table : Reg → CheckpointPtr → α) (r : Reg) (source target : CheckpointPtr)
    (value : α) (apart : target ≠ source) :
    setEntry (setEntry (copyVersion table source target) r target value) r source value =
      copyVersion (setEntry table r source value) source target := by
  funext r' v
  by_cases here : r' = r <;> by_cases old : v = source <;> by_cases fresh : v = target <;>
    simp_all [setEntry,copyVersion]

theorem next_recover (back : i.recoverCommit = false) (recover : i.doRecover = true)
    (alone : i.deleteCheckpoint = false) :
    next hz s i = recoverTo (committed hz (writeBack s i) i) i.recoverCheckpoint := by
  have none : checkpointEnable s i = false := by simp [checkpointEnable,recover]
  have quiet : writeEnable hz i = false := by simp [writeEnable,recover]
  rw [committed_eq]
  simp only [next,back,recover,alone,any_readyMark back,none,quiet]
  simp [recoverTo,writeBack,commitAfter]

theorem readyTable_renamed (table mark : Reg → CheckpointPtr → Bool) (r : Reg) (v : CheckpointPtr) :
    (fun r' v' => setEntry table r v false r' v' || mark r' v' && (!r' == r || !v' == v)) =
      setEntry (fun r' v' => table r' v' || mark r' v') r v false := by
  funext r' v'
  by_cases here : r' = r <;> by_cases now : v' = v
  · simp [setEntry,here,now]
  · simp [setEntry,here,now,beq_false_of_ne now]
  · simp [setEntry,here,now,beq_false_of_ne here]
  · simp [setEntry,here,now,beq_false_of_ne here]

theorem readyTable_copied (table mark : Reg → CheckpointPtr → Bool) (source target : CheckpointPtr) :
    (fun r v => copyVersion table source target r v || if v = target then mark r source else mark r v) =
      copyVersion (fun r v => table r v || mark r v) source target := by
  funext r v
  by_cases fresh : v = target <;> simp [copyVersion,fresh]

theorem readyTable_renamed_copied (table mark : Reg → CheckpointPtr → Bool) (r : Reg)
    (source target : CheckpointPtr) :
    (fun r' v => copyVersion (setEntry table r source false) source target r' v ||
        if v = target then mark r' source && !r' == r else mark r' v && (!r' == r || !v == source)) =
      copyVersion (setEntry (fun r' v => table r' v || mark r' v) r source false) source target := by
  rw [← readyTable_renamed,← readyTable_copied]
  simp

theorem next_settled (back : i.recoverCommit = false) (recover : i.doRecover = false) :
    next hz s i = settled hz s i := by
  have further : s.versionHead + 1 ≠ s.versionHead := by simp
  unfold settled
  rw [committed_eq]
  unfold next
  simp only [back,recover,Bool.false_eq_true,if_false,any_readyMark back]
  cases checkpointEnable s i <;> cases writeEnable hz i <;> cases i.deleteCheckpoint <;>
    simp [rename,takeCheckpoint,deleteOldest,writeBack,commitAfter,
      setEntry_copyVersion _ _ _ _ _ further,readyTable_renamed,readyTable_copied,readyTable_renamed_copied]

theorem next_versionHead : (next hz s i).versionHead =
    if i.recoverCommit then 0 else if i.doRecover then i.recoverCheckpoint
    else if checkpointEnable s i then s.versionHead + 1 else s.versionHead := by
  unfold next
  cases i.recoverCommit <;> cases i.doRecover <;> cases checkpointEnable s i <;> cases writeEnable hz i <;> rfl

theorem next_versionTail : (next hz s i).versionTail =
    if i.recoverCommit then 0 else s.versionTail + bit i.deleteCheckpoint := by
  unfold next
  cases i.recoverCommit <;> rfl

theorem next_numCheckpoints : (next hz s i).numCheckpoints =
    if i.recoverCommit then 0 else if i.doRecover then recoveredCount i.recoverCheckpoint s.versionTail
    else s.numCheckpoints + bit (checkpointEnable s i) - bit i.deleteCheckpoint := by
  unfold next
  cases i.recoverCommit <;> cases i.doRecover <;> cases checkpointEnable s i <;> cases writeEnable hz i <;> rfl

theorem next_mapping (back : i.recoverCommit = false)
    (apart : i.doRecover = false → v ≠ s.versionHead ∧ (checkpointEnable s i = true → v ≠ s.versionHead + 1)) :
    mapping (next hz s i) v = mapping s v := by
  funext r
  unfold next
  cases recover : i.doRecover with
  | true => simp [back,mapping]
  | false =>
      obtain ⟨current,fresh⟩ := apart recover
      cases taken : checkpointEnable s i with
      | false => cases writeEnable hz i <;> simp [back,mapping,setEntry,current]
      | true => cases writeEnable hz i <;> simp [back,mapping,setEntry,copyVersion,current,fresh taken]

-- A checkpoint keeps the current mapping, the rename of the cycle included.
theorem next_copied (back : i.recoverCommit = false) (recover : i.doRecover = false)
    (taken : checkpointEnable s i = true) :
    mapping (next hz s i) s.versionHead = mapping (next hz s i) (next hz s i).versionHead := by
  have apart : s.versionHead ≠ s.versionHead + 1 := by simp
  funext r
  unfold next
  cases writeEnable hz i <;> simp [back,recover,taken,mapping,setEntry,copyVersion,apart]

theorem nextOutputs_checkpoint (o : Outputs ports) :
    (nextOutputs s o i).checkpoint = if i.recoverCommit then 0 else s.versionHead := by
  unfold nextOutputs
  cases i.recoverCommit <;> rfl

theorem nextOutputs_rdy (o : Outputs ports) (back : i.recoverCommit = false) (recover : i.doRecover = false)
    (port : Fin ports) : (nextOutputs s o i).rdy port =
      (s.readyTable (i.readSrc port) s.versionHead || marked s i (i.readSrc port) s.versionHead || !i.useRs port) := by
  have same : bypassed s i (i.readSrc port) = marked s i (i.readSrc port) s.versionHead := by
    simp only [bypassed,marked,portMark,readEnable,back,recover]
    simp only [Bool.not_false,Bool.and_true,Bool.true_and]
    congr 1
    funext writeback
    rw [Bool.beq_comm]
  simp [nextOutputs,back,recover,readEnable,same]

end Sargantana.RenameTable
