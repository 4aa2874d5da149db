import Sargantana.RenameConservation

namespace Sargantana.RenameRecovery
open DracPkg FreeList RenameTable RenameBank RenameVersions RenameRefinement RenameCycle ControlUnit RenameStage
open RenameInvariant RenameConservation StateMachine Renaming Window

variable {ports writebacks : RegClass → Nat} {kept : RegClass → Prop} {s : RenameStage.State ports}
  {i : RenameStage.Input ports writebacks} {label : CheckpointPtr} {c : RegClass} {map : Reg → Phreg} {free : List Phreg}

-- A cycle that leaves checkpoint `label` alive: no rollback, no delete while it is
-- the oldest, and a recovery only to a younger checkpoint.
structure Keeps (label : CheckpointPtr) (s : RenameStage.State ports) (i : RenameStage.Input ports writebacks) :
    Prop where
  running : s.exceptionEnable = false
  undeleted : deleteCheckpoint (signals s i) = true → (s.bank .int).freeList.versionTail ≠ label
  nested : doRecover (signals s i) = true →
    age (s.bank .int).freeList.versionTail label < age (s.bank .int).freeList.versionTail (signals s i).wbChkp

instance (label : CheckpointPtr) (s : RenameStage.State ports) (i : RenameStage.Input ports writebacks) :
    Decidable (Keeps label s i) :=
  decidable_of_iff (s.exceptionEnable = false ∧
    (deleteCheckpoint (signals s i) = true → (s.bank .int).freeList.versionTail ≠ label) ∧
    (doRecover (signals s i) = true →
      age (s.bank .int).freeList.versionTail label < age (s.bank .int).freeList.versionTail (signals s i).wbChkp))
    ⟨fun parts => ⟨parts.1,parts.2.1,parts.2.2⟩,fun keeps => ⟨keeps.running,keeps.undeleted,keeps.nested⟩⟩

def keeping (ports writebacks : RegClass → Nat) (label : CheckpointPtr) :
    Machine (RenameStage.State ports) (RenameStage.Input ports writebacks) :=
  {machine ports writebacks with allowed := fun s i => Allowed s i ∧ Keeps label s i}

instance (label : CheckpointPtr) (s : RenameStage.State ports) (i : RenameStage.Input ports writebacks) :
    Decidable ((keeping ports writebacks label).allowed s i) :=
  inferInstanceAs (Decidable (Allowed s i ∧ Keeps label s i))

theorem retired_step (invariant : Invariant kept s) (allowed : Allowed s i) (running : s.exceptionEnable = false) :
    (step s i).retired = s.retired ++ (inflight s).take (gone s i) := by
  have taken : (if exceptionEnableD s i then s.retired else s.retired ++ s.graduation.take i.retire) =
      s.retired ++ (inflight s).take (gone s i) := by
    rw [inflight_running invariant running,gone_eq allowed]
    cases exceptionEnableD s i with
    | false => rw [List.take_append_of_le_length (by simpa using allowed.present)]; rfl
    | true => simp
  rw [← taken]
  cases straight : doRecover (signals s i) with
  | true =>
      obtain ⟨r,branch,resolved,_,_,named,_,_⟩ := recover_parts straight
      simp [step,running,straight,resolved,named]
  | false => simp [step,running,straight]

-- What a checkpoint holds in one class.
structure Holding (label : CheckpointPtr) (s : RenameStage.State ports) (c : RegClass) (map : Reg → Phreg)
    (free : List Phreg) : Prop where
  mapped : mapping (s.bank c).renameTable label = map
  window : freeWindow (s.bank c).freeList label = free

-- Checkpoint `label` is not deleted, and holds this as long as its branch can still recover to it.
def Live (label : CheckpointPtr) (s : RenameStage.State ports) (map : RegClass → Reg → Phreg)
    (free : RegClass → List Phreg) : Prop :=
  ∃ (j : Nat) (branch : Branch), s.branches[j]? = some branch ∧ branch.label = label ∧
    (branch.unresolved = true → ∀ c, Holding label s c (map c) (free c))

theorem holding_step {j : Nat} {branch : Branch} (invariant : Invariant kept s) (allowed : Allowed s i)
    (running : s.exceptionEnable = false) (found : s.branches[j]? = some branch) (waits : branch.unresolved = true)
    (holding : Holding branch.label s c map free) :
    Holding branch.label (step s i) c map (free ++ displacedRegisters c ((inflight s).take (gone s i))) := by
  have named : branch.label = shift (s.bank c).freeList.versionTail j := by
    rw [invariant.labels j branch found]
    exact congrArg (shift · j) (congrArg Versions.tail (invariant.lockstep c)).symm
  have position : (marks s)[j]? = some (some branch.upto) := by
    rw [marks,List.getElem?_map,found,Option.map_some,mark_unresolved waits]
  obtain ⟨mapped,window⟩ := checkpoint_cycle (invariant.held c) (retiring invariant allowed running c)
    (kept_marks allowed) running position
  rw [← named] at mapped window
  refine ⟨?_,?_⟩
  · rw [step_bank]
    exact mapped.trans holding.mapped
  · rw [step_bank,← holding.window,displacedRegisters,destinations_take]
    exact window

-- The checkpoint is found again, and its branch does not wait again once it is resolved or discarded.
theorem kept_found {j : Nat} {branch : Branch} (invariant : Invariant kept s) (keeps : Keeps branch.label s i)
    (found : s.branches[j]? = some branch) :
    ∃ (k : Nat) (next : Branch), (step s i).branches[k]? = some next ∧ next.label = branch.label ∧
      (next.unresolved = true → branch.unresolved = true) := by
  have running := keeps.running
  have few := (invariant.held .int).few
  obtain ⟨inside,_⟩ := List.getElem?_eq_some_iff.mp found
  simp only [marks,List.length_map] at few
  have named := invariant.labels j branch found
  cases straight : doRecover (signals s i) with
  | true =>
      obtain ⟨r,other,resolved,_,target,found',label,_⟩ := recover_parts straight
      have younger := keeps.nested straight
      obtain ⟨bound,_⟩ := List.getElem?_eq_some_iff.mp target
      rw [label,named,invariant.labels _ _ target,age_shift (by omega),age_shift (by omega)] at younger
      refine ⟨j,Branch.older (gone s i) branch,?_,rfl,fun waits => waits⟩
      simp [step,running,straight,resolved,found',younger,found]
  | false =>
      obtain ⟨held,form,shape⟩ := settled_shape running straight
      have later : (deleteCheckpoint (signals s i)).toNat ≤ j := by
        cases delete : deleteCheckpoint (signals s i) with
        | false => exact Nat.zero_le _
        | true =>
            rcases Nat.eq_zero_or_pos j with rfl | positive
            · rw [shift_zero] at named
              exact absurd named.symm (keeps.undeleted delete)
            · exact positive
      refine ⟨j - (deleteCheckpoint (signals s i)).toNat,
        ((branch.settle (signals s i)).older (gone s i)).within (inflight held).length,?_,rfl,?_⟩
      · rw [shape]
        simp only [List.getElem?_map,List.getElem?_drop]
        rw [Nat.add_sub_cancel' later,List.getElem?_append_left (by simpa using inside)]
        simp [found]
      · simp only [Branch.within,Branch.older,Branch.settle,Bool.and_eq_true]
        exact fun waits => waits.1.1

theorem live_step {map : RegClass → Reg → Phreg} {free : RegClass → List Phreg} (invariant : Invariant kept s)
    (allowed : Allowed s i) (keeps : Keeps label s i) (live : Live label s map free) :
    Live label (step s i) map (fun c => free c ++ displacedRegisters c ((inflight s).take (gone s i))) := by
  obtain ⟨j,branch,found,rfl,holding⟩ := live
  obtain ⟨k,next,here,label,still⟩ := kept_found invariant keeps found
  refine ⟨k,next,here,label,?_⟩
  intro waits c
  exact holding_step invariant allowed keeps.running found (still waits) (holding (still waits) c)

theorem taken_found (taken : doCheckpoint (signals s i) = true) :
    (step s i).branches[s.branches.length - (deleteCheckpoint (signals s i)).toNat]? =
      some ⟨(s.bank .int).renameTable.versionHead,(inflight (step s i)).length,renames s i⟩ := by
  obtain ⟨running,straight⟩ := straight_of_flush (doCheckpoint_parts taken).2.2.2.1
  obtain ⟨held,form,shape⟩ := settled_shape running straight
  have same : inflight held = inflight (step s i) := by rw [shape]; rfl
  have label : (nextBank s i .int).outputs.checkpoint = (s.bank .int).renameTable.versionHead := by
    have back : (command (signals s i)).recoverCommit = false := running
    simp [nextBank,RenameBank.next,nextOutputs_checkpoint,renameTableInput,classInput,bankInput,back]
  have few : (deleteCheckpoint (signals s i)).toNat ≤ s.branches.length := by
    cases delete : deleteCheckpoint (signals s i) with
    | false => exact Nat.zero_le _
    | true => exact List.length_pos_iff.mpr (delete_oldest delete)
  have list := congrArg RenameStage.State.branches shape
  simp only [label,if_pos taken,same] at list
  rw [list,List.getElem?_map,List.getElem?_drop,Nat.add_sub_cancel' few,List.getElem?_append_right (by simp)]
  simp [Branch.within]

theorem taken_copies (invariant : Invariant kept s) (taken : doCheckpoint (signals s i) = true) (c : RegClass) : Holding (s.bank .int).renameTable.versionHead (step s i) c
      (mapping ((step s i).bank c).renameTable ((step s i).bank c).renameTable.versionHead) (freeRegisters (step s i) c) := by
  have few := checkpoint_few invariant taken
  obtain ⟨running,straight⟩ := straight_of_flush (doCheckpoint_parts taken).2.2.2.1
  have rep := invariant.held c
  have head : (s.bank .int).renameTable.versionHead = (s.bank c).freeList.versionHead := by
    have heads := congrArg Versions.head (lockstep_tables invariant .int)
    have lists := congrArg Versions.head (invariant.lockstep c)
    simp only [renameTableVersions,freeListVersions] at heads lists
    rw [heads,lists]
  have back : (classInput s i c).command.recoverCommit = false := running
  have recover : (classInput s i c).command.doRecover = false := straight
  have point : (classInput s i c).command.doCheckpoint = true := taken
  have takesFree : FreeList.checkpointEnable (s.bank c).freeList
      (freeListInput (hardwiredZero c) (classInput s i c)) = true := by
    simp only [marks,List.length_map] at few
    simp [FreeList.checkpointEnable,freeListInput,back,recover,point,rep.counted,marks,DracPkg.numCheckpoints,few]
  have takesTable : RenameTable.checkpointEnable (s.bank c).renameTable
      (renameTableInput (hardwiredZero c) (s.bank c) (classInput s i c)) = true := by
    simp only [marks,List.length_map] at few
    simp [RenameTable.checkpointEnable,renameTableInput,back,recover,point,rep.sameCount,rep.counted,marks,
      DracPkg.numCheckpoints,few]
  rw [head]
  refine ⟨?_,?_⟩
  · rw [step_bank,← rep.sameHead]
    exact RenameTable.next_copied back recover takesTable
  · rw [step_bank,freeRegisters,step_bank]
    exact FreeList.next_copied back recover takesFree

theorem taken_live (invariant : Invariant kept s) (taken : doCheckpoint (signals s i) = true) :
    Live (s.bank .int).renameTable.versionHead (step s i)
      (fun c => mapping ((step s i).bank c).renameTable ((step s i).bank c).renameTable.versionHead)
      (fun c => freeRegisters (step s i) c) :=
  ⟨_,_,taken_found taken,rfl,fun _ => taken_copies invariant taken⟩

-- The registers displaced since a state was left, by the instructions retired since.
def Since (label : CheckpointPtr) (start s : RenameStage.State ports) : Prop :=
  Invariant (fun _ => False) s ∧ ∃ since, s.retired = start.retired ++ since ∧
    Live label s (fun c => mapping (start.bank c).renameTable (start.bank c).renameTable.versionHead)
      (fun c => freeRegisters start c ++ displacedRegisters c since)

theorem displaced_append (c : RegClass) (one two : List Entry) :
    displacedRegisters c (one ++ two) = displacedRegisters c one ++ displacedRegisters c two := by
  simp [displacedRegisters,writes_append]

theorem since_step (start : RenameStage.State ports) (kept : Since label start s) (allowed : Allowed s i)
    (keeps : Keeps label s i) : Since label start (step s i) := by
  obtain ⟨invariant,since,retired,live⟩ := kept
  refine ⟨step_invariant invariant allowed fun _ none => none.elim,since ++ (inflight s).take (gone s i),?_,?_⟩
  · rw [retired_step invariant allowed keeps.running,retired,List.append_assoc]
  · simp only [displaced_append,← List.append_assoc]
    exact live_step invariant allowed keeps live

-- The branch that is recovered to is the one whose checkpoint has been kept.
theorem recovered_holds {map : RegClass → Reg → Phreg} {free : RegClass → List Phreg} (invariant : Invariant kept s)
    (allowed : Allowed s i) (recover : doRecover (signals s i) = true) (named : (signals s i).wbChkp = label)
    (live : Live label s map free) :
    ∃ (j : Nat) (branch : Branch), s.branches[j]? = some branch ∧ branch.label = label ∧ branch.unresolved = true ∧
      ∀ c, Holding label s c (map c) (free c) := by
  obtain ⟨j,branch,found,rfl,holding⟩ := live
  obtain ⟨r,other,resolved,_,target,_,label,_⟩ := recover_parts recover
  have few := (invariant.held .int).few
  simp only [marks,List.length_map] at few
  obtain ⟨inside,_⟩ := List.getElem?_eq_some_iff.mp found
  obtain ⟨bound,_⟩ := List.getElem?_eq_some_iff.mp target
  have same : shift (s.bank .int).freeList.versionTail j = shift (s.bank .int).freeList.versionTail r.branch := by
    rw [← invariant.labels j branch found,← invariant.labels _ other target,← named,label]
  have place : j = r.branch := shift_inj (by omega) (by omega) same
  subst place
  obtain ⟨same,here,waits,_⟩ := allowed.live r resolved
  rw [found] at here
  cases Option.some.inj here
  exact ⟨r.branch,branch,found,rfl,waits,holding waits⟩

-- The registers freed by the instructions retired since follow those that were free
-- when the checkpoint was taken.
theorem recovery_precise (reached : Reached (machine ports writebacks) s) (allowed : Allowed s i)
    (taken : doCheckpoint (signals s i) = true)
    (path : Runs (keeping ports writebacks (s.bank .int).renameTable.versionHead) (step s i) inputs late)
    (last : RenameStage.Input ports writebacks) (permitted : Allowed late last)
    (running : late.exceptionEnable = false) (recover : doRecover (signals late last) = true)
    (named : (signals late last).wbChkp = (s.bank .int).renameTable.versionHead) :
    ∃ since, (step late last).retired = (step s i).retired ++ since ∧ ∀ c,
      mapping ((step late last).bank c).renameTable ((step late last).bank c).renameTable.versionHead =
        mapping ((step s i).bank c).renameTable ((step s i).bank c).renameTable.versionHead ∧
      freeRegisters (step late last) c = freeRegisters (step s i) c ++ displacedRegisters c since ∧
      (((step late last).bank c).freeList.numRegisters ((step late last).bank c).freeList.versionHead).val =
        (freeRegisters (step s i) c ++ displacedRegisters c since).length := by
  have invariant := reached_invariant reached
  have start : Since (s.bank .int).renameTable.versionHead (step s i) (step s i) := by
    refine ⟨step_invariant invariant allowed fun _ none => none.elim,[],by simp,?_⟩
    simpa [displacedRegisters,destinations] using taken_live invariant taken
  have kept : Since (s.bank .int).renameTable.versionHead (step s i) late := by
    refine path.preserves _ ?_ start
    intro state input kept both
    exact since_step _ kept both.1 both.2
  obtain ⟨before,since,retired,live⟩ := kept
  obtain ⟨j,branch,found,label,waits,held⟩ := recovered_holds before permitted recover named live
  refine ⟨since ++ (inflight late).take (gone late last),?_,?_⟩
  · rw [retired_step before permitted running,retired,List.append_assoc]
  · intro c
    have here := held c
    rw [← label] at here
    have after := holding_step before permitted running found waits here
    rw [label,List.append_assoc,← displaced_append] at after
    -- the recovered version is current
    have current : ((step late last).bank c).freeList.versionHead = (s.bank .int).renameTable.versionHead := by
      rw [← named,step_bank]
      have back : (command (signals late last)).recoverCommit = false := running
      have target : (command (signals late last)).doRecover = true := recover
      simp only [nextBank,RenameBank.next,FreeList.next_versionHead,freeListInput,classInput,bankInput,back,target]
      rfl
    have rep := (step_invariant before permitted fun _ none => none.elim).held c
    refine ⟨?_,?_,?_⟩
    · rw [rep.sameHead,current]
      exact after.mapped
    · rw [freeRegisters,current]
      exact after.window
    · rw [← after.window,current]
      simp [freeWindow]

-- A jump behind an addition takes its checkpoint, a vector instruction follows, the
-- addition retires, and the jump is found mispredicted.
def mispredicted : RenameStage.Input (fun _ => 2) (fun _ => 1) := {cycle vadd false with resolved := some ⟨0,false⟩}

def pursued : List (RenameStage.Input (fun _ => 2) (fun _ => 1)) := [cycle vadd false,{cycle vadd false with retire := 1}]

def branched : RenameStage.State (fun _ => 2) := step (runTo [cycle (add 7) false]) (cycle jalr false)

theorem recovery_precise_jalr : ∃ since,
    (step (pursued.foldl step branched) mispredicted).retired = branched.retired ++ since ∧
    freeRegisters (step (pursued.foldl step branched) mispredicted) .int =
      freeRegisters branched .int ++ displacedRegisters .int since := by
  have begun : Reached (machine (fun _ => 2) (fun _ => 1)) (runTo [cycle (add 7) false]) :=
    run_reached (by decide)
  have path : Runs (keeping (fun _ => 2) (fun _ => 1) ((runTo [cycle (add 7) false]).bank .int).renameTable.versionHead)
      branched pursued (pursued.foldl step branched) :=
    Runs.of_legal (by decide)
  obtain ⟨since,retired,classes⟩ := recovery_precise begun (i := cycle jalr false) (by decide)
    (by decide) path mispredicted (by decide) (by decide) (by decide)
    (by decide)
  exact ⟨since,retired,(classes .int).2.1⟩

end Sargantana.RenameRecovery
