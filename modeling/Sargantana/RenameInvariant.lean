import Sargantana.RenameStage

namespace Sargantana.RenameInvariant
open DracPkg FreeList RenameTable RenameBank RenameVersions RenameRefinement RenameCycle ControlUnit RenameStage StateMachine
open Renaming Window

variable {ports writebacks : RegClass → Nat} {kept : RegClass → Prop} {s : RenameStage.State ports}
  {i : RenameStage.Input ports writebacks}

-- What every state satisfies that a run reaches whose csr flushes take no register
-- of the kept classes away. `held` is the refinement of each class; `capacity` is
-- the size of the graduation list.
structure Invariant (kept : RegClass → Prop) (s : RenameStage.State ports) : Prop where
  held : ∀ c, Holds (kept c) (hardwiredZero c) (s.bank c) (destinations c (inflight s)) (marks s)
  lockstep : ∀ c, freeListVersions (s.bank c).freeList = freeListVersions (s.bank .int).freeList
  labels : ∀ j branch, s.branches[j]? = some branch →
    branch.label = shift (s.bank .int).freeList.versionTail j
  capacity : s.graduation.length ≤ 31
  ready : s.exceptionEnable = false → s.trapped = []
  history : ∀ c, (s.bank c).renameTable.commitTable =
    mapAfter RenameTable.reset.commitTable (writes (hardwiredZero c) (destinations c s.retired))

theorem reset_held (kept : Prop) (c : RegClass) :
    Represents kept (hardwiredZero c) FreeList.reset RenameTable.reset [] [] := by
  refine ⟨⟨rfl,rfl,rfl,rfl,by simp,by simp [FreeList.reset],?_,?_,?_⟩,fun _ => ⟨?_,by simp,rfl,trivial,by decide⟩⟩
  · intro j k m n _ one _
    rcases stands_cases one with ⟨inside,_⟩ | ⟨_,rfl⟩
    · cases inside
    · exact Nat.zero_le _
  · intro j m stands
    rcases stands_cases stands with ⟨inside,_⟩ | ⟨rfl,rfl⟩
    · cases inside
    · exact ⟨rfl,by simp [FreeList.reset]⟩
  · intro _
    exact ⟨by decide,by decide,by decide,by simp⟩
  · intro j m stands
    rcases stands_cases stands with ⟨inside,_⟩ | ⟨rfl,rfl⟩
    · cases inside
    · exact ⟨rfl,rfl,rfl⟩

theorem reset_invariant : Invariant kept (RenameStage.reset : RenameStage.State ports) := by
  refine ⟨?_,?_,?_,?_,?_,?_⟩
  · exact fun c => reset_held (kept c) c
  · exact fun _ => rfl
  · intro j branch found
    cases found
  · simp [RenameStage.reset]
  · exact fun _ => rfl
  · exact fun _ => rfl

theorem versions_next (s : RenameStage.State ports) (i : RenameStage.Input ports writebacks) (c : RegClass) :
    freeListVersions (nextBank s i c).freeList =
      (freeListVersions (s.bank c).freeList).next (command (signals s i)) :=
  freeList_versions _ _ _

theorem lockstep_step (invariant : Invariant kept s) (i : RenameStage.Input ports writebacks) (c : RegClass) :
    freeListVersions (nextBank s i c).freeList = freeListVersions (nextBank s i .int).freeList := by
  rw [versions_next,versions_next,invariant.lockstep c]

theorem inflight_running (invariant : Invariant kept s) (running : s.exceptionEnable = false) :
    inflight s = s.graduation ++ s.readRegister.toList := by
  rw [inflight,invariant.ready running,List.nil_append]

theorem gone_eq (allowed : Allowed s i) : gone s i = if exceptionEnableD s i then 0 else i.retire := by
  rw [gone,List.length_take,Nat.min_eq_left allowed.present]

theorem gone_le (allowed : Allowed s i) : gone s i ≤ i.retire := by
  rw [gone_eq allowed]
  split <;> omega

theorem mark_some {branch : Branch} (here : branch.mark = some m) : branch.unresolved = true ∧ branch.upto = m := by
  unfold Branch.mark at here
  split at here
  · rename_i waits
    exact ⟨waits,Option.some.inj here⟩
  · cases here

theorem mark_unresolved {branch : Branch} (waits : branch.unresolved = true) : branch.mark = some branch.upto := by
  simp [Branch.mark,waits]

theorem mark_older (k : Nat) (branch : Branch) : (branch.older k).mark = retreat k branch.mark := by
  unfold Branch.mark Branch.older
  cases branch.unresolved <;> rfl

theorem kept_marks (allowed : Allowed s i) : ∀ m, some m ∈ marks s → gone s i ≤ m := by
  intro m present
  obtain ⟨branch,live,mark⟩ := List.mem_map.mp present
  obtain ⟨waits,rfl⟩ := mark_some mark
  have below := allowed.unresolved branch live waits
  have le := gone_le allowed
  omega

theorem retiring (invariant : Invariant kept s) (allowed : Allowed s i) (running : s.exceptionEnable = false)
    (c : RegClass) : Retiring (destinations c (inflight s)) (classInput s i c) (gone s i) := by
  have le := gone_le allowed
  have two := allowed.two
  have present := allowed.present
  refine ⟨by omega,?_,?_⟩
  · intro port below
    have inside : port.val < s.graduation.length := by omega
    rw [inflight_running invariant running,destinations,List.getElem?_map,List.getElem?_append_left inside]
    simp [classInput,bankInput,instructionToCommit,inside]
  · intro port
    rw [gone_eq allowed]
    cases trapping : exceptionEnableD s i <;>
      simp [classInput,bankInput,enableCommitUpdate,trapping]

theorem drop_gone (invariant : Invariant kept s) (allowed : Allowed s i) (running : s.exceptionEnable = false) :
    (if exceptionEnableD s i then s.graduation.take i.retire else []) ++
      s.graduation.drop i.retire ++ s.readRegister.toList = (inflight s).drop (gone s i) := by
  rw [inflight_running invariant running,gone_eq allowed]
  cases exceptionEnableD s i with
  | false => simp [List.drop_append_of_le_length allowed.present]
  | true => simp

theorem rollBack_step (invariant : Invariant kept s) (back : s.exceptionEnable = true)
    (i : RenameStage.Input ports writebacks) : Invariant kept (step s i) := by
  have shape : step s i = {s with
      bank := nextBank s i
      exceptionEnable := exceptionEnableD s i
      csrEnable := csrEnableNext s.csrEnable i.fence i.trap
      trapped := []
      graduation := []
      readRegister := none
      branches := []} := by
    simp [step,back]
  rw [shape]
  refine ⟨?_,lockstep_step invariant i,?_,by simp,fun _ => rfl,?_⟩
  · exact fun c => rollBack_cycle (invariant.held c) back
  · intro j branch found
    cases found
  · intro c
    rw [← invariant.history c]
    exact rollBack_commit back

theorem history_step (invariant : Invariant kept s) (allowed : Allowed s i) (running : s.exceptionEnable = false)
    (c : RegClass) : (nextBank s i c).renameTable.commitTable =
      mapAfter RenameTable.reset.commitTable (writes (hardwiredZero c) (destinations c
        (if exceptionEnableD s i then s.retired else s.retired ++ s.graduation.take i.retire))) := by
  have table : (nextBank s i c).renameTable.commitTable = mapAfter (s.bank c).renameTable.commitTable
      (writes (hardwiredZero c) ((destinations c (inflight s)).take (gone s i))) :=
    commit_cycle (retiring invariant allowed running c) running
  rw [table,invariant.history c,← mapAfter_append,← writes_append,← destinations_take,← destinations_append,
    inflight_running invariant running,gone_eq allowed]
  cases exceptionEnableD s i with
  | false => rw [List.take_append_of_le_length (by simpa using allowed.present)]; rfl
  | true => simp

theorem recover_parts (recover : doRecover (signals s i) = true) :
    ∃ (r : Resolved) (branch : Branch), i.resolved = some r ∧ r.correct = false ∧ s.branches[r.branch]? = some branch ∧
      branchOf s i = some branch ∧ (signals s i).wbChkp = branch.label ∧ deleteCheckpoint (signals s i) = false := by
  unfold doRecover signals at recover
  cases resolved : i.resolved with
  | none => simp [resolved] at recover
  | some r =>
      cases found : s.branches[r.branch]? with
      | none => simp [branchOf,resolved,found] at recover
      | some branch =>
          have wrong : r.correct = false := by simpa [branchOf,resolved,found] using recover
          have named : branchOf s i = some branch := by simp [branchOf,resolved,found]
          refine ⟨r,branch,rfl,wrong,found,named,?_,?_⟩
          · simp [signals,named]
          · simp [deleteCheckpoint,signals,resolved,wrong]

theorem versionTail_next (running : s.exceptionEnable = false) (c : RegClass) :
    (nextBank s i c).freeList.versionTail =
      (s.bank c).freeList.versionTail + bit (deleteCheckpoint (signals s i)) := by
  rw [nextBank,RenameBank.next,FreeList.next_versionTail]
  have back : (freeListInput (hardwiredZero c) (classInput s i c)).commitRollBack = false := running
  rw [back]
  rfl

theorem recover_shape (running : s.exceptionEnable = false) (recover : doRecover (signals s i) = true)
    (resolved : i.resolved = some r) (named : branchOf s i = some branch) :
    step s i = {s with
      bank := nextBank s i
      exceptionEnable := exceptionEnableD s i
      csrEnable := csrEnableNext s.csrEnable i.fence i.trap
      trapped := if exceptionEnableD s i then s.trapped ++ s.graduation.take i.retire else s.trapped
      retired := if exceptionEnableD s i then s.retired else s.retired ++ s.graduation.take i.retire
      graduation := (s.graduation.drop i.retire).take
        (branch.upto - s.trapped.length - (s.graduation.take i.retire).length)
      readRegister := none
      branches := (s.branches.take r.branch).map (Branch.older (gone s i))} := by
  simp [step,running,recover,resolved,named]

theorem recover_inflight {r : Resolved} {branch : Branch} (invariant : Invariant kept s) (allowed : Allowed s i)
    (running : s.exceptionEnable = false) (recover : doRecover (signals s i) = true) (resolved : i.resolved = some r)
    (found : s.branches[r.branch]? = some branch) :
    inflight (step s i) = ((inflight s).drop (gone s i)).take (branch.upto - gone s i) := by
  have named : branchOf s i = some branch := by simp [branchOf,resolved,found]
  obtain ⟨same,here,waits,inside⟩ := allowed.live r resolved
  rw [found] at here
  cases Option.some.inj here
  have below := allowed.unresolved branch (List.mem_of_getElem? found) waits
  have none := invariant.ready running
  have present := allowed.present
  rw [none,List.length_nil,Nat.zero_add] at below inside
  rw [recover_shape running recover resolved named,inflight_running invariant running,gone_eq allowed]
  simp only [inflight,none,List.length_nil,Nat.sub_zero,List.nil_append,Option.toList_none,List.append_nil,
    List.length_take,Nat.min_eq_left present]
  cases exceptionEnableD s i with
  | false =>
      simp only [Bool.false_eq_true,if_false,List.nil_append]
      rw [List.drop_append_of_le_length present,List.take_append_of_le_length (by simp; omega)]
  | true =>
      simp only [if_true,List.drop_zero,Nat.sub_zero]
      rw [List.take_append_of_le_length inside]
      conv => rhs; rw [← List.take_append_drop i.retire s.graduation,List.take_append]
      simp [List.take_take,Nat.min_eq_left present,below]

theorem recover_marks {r : Resolved} {branch : Branch} (running : s.exceptionEnable = false)
    (recover : doRecover (signals s i) = true) (resolved : i.resolved = some r) (named : branchOf s i = some branch) :
    marks (step s i) = ((marks s).map (retreat (gone s i))).take r.branch := by
  rw [recover_shape running recover resolved named]
  simp [marks,mark_older,List.map_take,Function.comp_def]

theorem recover_mark (allowed : Allowed s i) (resolved : i.resolved = some r)
    (found : s.branches[r.branch]? = some branch) : (marks s)[r.branch]? = some (some branch.upto) := by
  obtain ⟨same,here,waits,_⟩ := allowed.live r resolved
  rw [found] at here
  cases Option.some.inj here
  rw [marks,List.getElem?_map,found,Option.map_some,mark_unresolved waits]

theorem recover_step (invariant : Invariant kept s) (allowed : Allowed s i) (running : s.exceptionEnable = false)
    (recover : doRecover (signals s i) = true) : Invariant kept (step s i) := by
  obtain ⟨r,branch,resolved,wrong,found,named,label,alone⟩ := recover_parts recover
  have shape := recover_shape running recover resolved named
  refine ⟨?_,?_,?_,?_,?_,?_⟩
  · intro c
    rw [recover_inflight invariant allowed running recover resolved found,
      recover_marks running recover resolved named,destinations_take,destinations_drop,step_bank]
    apply recover_cycle (invariant.held c) (retiring invariant allowed running c) (kept_marks allowed)
      running recover alone (recover_mark allowed resolved found)
    have tails := congrArg Versions.tail (invariant.lockstep c)
    change (signals s i).wbChkp = shift (s.bank c).freeList.versionTail r.branch
    rw [label,invariant.labels r.branch branch found]
    exact congrArg (shift · r.branch) tails.symm
  · rw [step_bank]
    exact lockstep_step invariant i
  · rw [shape]
    intro j other live
    simp only [List.getElem?_map,Option.map_eq_some_iff,List.getElem?_take] at live
    obtain ⟨old,early,rfl⟩ := live
    split at early
    · rw [versionTail_next running .int,alone]
      simpa [Branch.older] using invariant.labels j old early
    · cases early
  · rw [shape]
    have capacity := invariant.capacity
    simp only [List.length_take,List.length_drop]
    omega
  · rw [shape]
    intro quiet
    simp only at quiet
    simp [quiet,invariant.ready running]
  · rw [shape]
    exact history_step invariant allowed running

theorem inflight_length (invariant : Invariant kept s) (running : s.exceptionEnable = false) :
    (inflight s).length ≤ s.graduation.length + 1 := by
  rw [inflight_running invariant running,List.length_append]
  cases s.readRegister <;> simp

theorem renames_parts (enters : renames s i = true) :
    i.instr.valid = true ∧ stallIr (signals s i) = false ∧ emptyFreeList s i = false ∧ s.graduation.length ≠ 31 := by
  simp only [renames,Bool.and_eq_true,Bool.not_eq_true'] at enters
  obtain ⟨⟨valid,free⟩,queue⟩ := enters
  rw [stallIq_eq,free,Bool.false_or,Bool.or_eq_false_iff] at queue
  have full := (stallIr_parts free).2.2
  exact ⟨valid,free,queue.1,by simpa [signals] using full⟩

-- At most 30 instructions are in the graduation list and one is in front of it.
theorem room_left (invariant : Invariant kept s) (enters : renames s i = true) (running : s.exceptionEnable = false)
    (c : RegClass) :
    (writes (hardwiredZero c) ((destinations c (inflight s)).drop (gone s i))).length < 32 := by
  have full := (renames_parts enters).2.2.2
  have few := inflight_length invariant running
  have capacity := invariant.capacity
  apply Nat.lt_of_le_of_lt writes_length_le
  simp only [List.length_drop,destinations_length]
  omega

theorem served (enters : renames s i = true) (running : s.exceptionEnable = false)
    (straight : doRecover (signals s i) = false) (hard : hardwiredZero c = true)
    (takes : ((classInput s i c).write && (!hardwiredZero c || (classInput s i c).rd != 0)) = true) :
    FreeList.readEnable (!hardwiredZero c) (s.bank c).freeList
      (freeListInput (hardwiredZero c) (classInput s i c)) = true := by
  cases c with
  | simd => cases hard
  | fp => cases hard
  | int =>
      have some := (renames_parts enters).2.2.1
      have back : (freeListInput (hardwiredZero .int) (classInput s i .int)).commitRollBack = false := running
      have recover : (freeListInput (hardwiredZero .int) (classInput s i .int)).doRecover = false := straight
      have reads : (freeListInput (hardwiredZero .int) (classInput s i .int)).readHead = true := takes
      have writes : ∀ port, FreeList.writeEnable (!hardwiredZero .int)
          (freeListInput (hardwiredZero .int) (bankInput s i ⟨false,false,false,0,s.exceptionEnable⟩ false .int)) port =
          FreeList.writeEnable (!hardwiredZero .int) (freeListInput (hardwiredZero .int) (classInput s i .int)) port :=
        fun _ => rfl
      rw [emptyFreeList,FreeList.empty,writes,writes] at some
      rw [FreeList.readEnable,reads,recover,back]
      by_cases none : (s.bank .int).freeList.numRegisters (s.bank .int).freeList.versionHead = 0
      · simp only [none,decide_true,Bool.true_and] at some
        simp only [none,Bool.true_and,Bool.not_false,Bool.and_true]
        cases one : FreeList.writeEnable (!hardwiredZero .int)
            (freeListInput (hardwiredZero .int) (classInput s i .int)) 0 with
        | true => simp
        | false =>
            rw [one] at some
            simpa using some
      · have positive : 0 < (s.bank .int).freeList.numRegisters (s.bank .int).freeList.versionHead :=
          Nat.pos_of_ne_zero fun zero => none (Fin.ext zero)
        simp [positive]

theorem entering_cases (s : RenameStage.State ports) (i : RenameStage.Input ports writebacks) :
    (entering s i = [] ∧ renames s i = false) ∨ (entering s i = [renamedEntry s i] ∧ renames s i = true) := by
  unfold entering
  cases renames s i <;> simp

theorem renamedEntry_class (enters : renames s i = true) (c : RegClass) :
    renamedEntry s i c = renamed (hardwiredZero c) (s.bank c) (classInput s i c) := by
  simp [renamedEntry,renamed,classInput,bankInput,enters]

theorem settled_shape (running : s.exceptionEnable = false) (straight : doRecover (signals s i) = false) :
    ∃ held : RenameStage.State ports, held = {s with
      bank := nextBank s i
      exceptionEnable := exceptionEnableD s i
      csrEnable := csrEnableNext s.csrEnable i.fence i.trap
      trapped := if exceptionEnableD s i then s.trapped ++ s.graduation.take i.retire else s.trapped
      retired := if exceptionEnableD s i then s.retired else s.retired ++ s.graduation.take i.retire
      graduation := if stallIr (signals s i) then s.graduation.drop i.retire
        else s.graduation.drop i.retire ++ s.readRegister.toList
      readRegister := if flushIr (signals s i) then none
        else if stallIr (signals s i) then s.readRegister else (entering s i).head?
      branches := []} ∧
    step s i = {held with
      branches := ((s.branches.map fun branch => (branch.settle (signals s i)).older (gone s i)) ++
        (if doCheckpoint (signals s i) then
          [Branch.mk (nextBank s i .int).outputs.checkpoint (inflight held).length (renames s i)] else [])).drop
        (deleteCheckpoint (signals s i)).toNat |>.map (Branch.within (inflight held).length)} := by
  refine ⟨_,rfl,?_⟩
  simp [step,running,straight,inflight]

theorem settled_inflight (invariant : Invariant kept s) (allowed : Allowed s i) (running : s.exceptionEnable = false)
    (straight : doRecover (signals s i) = false) :
    (inflight s).drop (gone s i) ++ entering s i = inflight (step s i) ++ dropped s i := by
  obtain ⟨held,form,shape⟩ := settled_shape running straight
  rw [shape,← drop_gone invariant allowed running]
  change _ = inflight held ++ _
  rw [form]
  have none := invariant.ready running
  have front : (if exceptionEnableD s i then s.trapped ++ s.graduation.take i.retire else s.trapped) =
      if exceptionEnableD s i then s.graduation.take i.retire else [] := by
    rw [none,List.nil_append]
  have still : stallIr (signals s i) = true → entering s i = [] := by
    intro stalled
    simp [entering,renames,stalled]
  simp only [inflight,front,List.append_assoc]
  congr 1
  cases stalled : stallIr (signals s i) with
  | true =>
      have silent := still stalled
      cases flush : flushIr (signals s i) <;> simp [dropped,flush,stalled,running,straight,silent]
  | false =>
      cases flush : flushIr (signals s i) with
      | true => simp [dropped,flush,stalled,running,straight]
      | false =>
          rcases entering_cases s i with ⟨silent,_⟩ | ⟨new,_⟩
          · simp [dropped,flush,silent]
          · simp [dropped,flush,new]

theorem settled_whole (invariant : Invariant kept s) (allowed : Allowed s i) (running : s.exceptionEnable = false)
    (straight : doRecover (signals s i) = false) (quiet : flushIr (signals s i) = false) :
    (inflight s).drop (gone s i) ++ entering s i = inflight (step s i) := by
  rw [settled_inflight invariant allowed running straight]
  simp [dropped,quiet]

theorem checkpoint_few (invariant : Invariant kept s) (taken : doCheckpoint (signals s i) = true) :
    (marks s).length < 3 := by
  have rep := invariant.held .int
  have counted := rep.counted
  have few := rep.few
  have room := (doCheckpoint_parts taken).2.2.1
  have other : (s.bank .int).renameTable.numCheckpoints.val ≠ 3 := of_decide_eq_false room
  rw [rep.sameCount] at other
  omega

theorem settled_marks (invariant : Invariant kept s) (allowed : Allowed s i) (running : s.exceptionEnable = false)
    (straight : doRecover (signals s i) = false) :
    Forgets (marksAfter (command (signals s i)) (marks s) (gone s i)
      ((inflight s).drop (gone s i) ++ entering s i).length) (marks (step s i)) ∧
    ∀ m, some m ∈ marks (step s i) → m ≤ (inflight (step s i)).length := by
  obtain ⟨held,form,shape⟩ := settled_shape running straight
  have same : inflight held = inflight (step s i) := by rw [shape]; rfl
  refine ⟨?_,?_⟩
  · have list : marks (step s i) = (((s.branches.map fun branch => (branch.settle (signals s i)).older (gone s i)) ++
        (if doCheckpoint (signals s i) then
          [Branch.mk (nextBank s i .int).outputs.checkpoint (inflight held).length (renames s i)] else [])).map
        fun branch => (branch.within (inflight held).length).mark).drop (deleteCheckpoint (signals s i)).toNat := by
      rw [marks,shape,List.map_map,List.map_drop]
      rfl
    rw [list,marksAfter,List.map_append]
    apply List.forall₂_drop
    refine List.rel_append ?_ ?_
    · rw [marks,List.map_map,List.map_map,List.forall₂_map_left_iff,List.forall₂_map_right_iff,List.forall₂_same]
      intro branch _
      simp only [Function.comp_apply,← mark_older]
      unfold Branch.mark Branch.within Branch.older Branch.settle
      dsimp only
      split
      · rename_i waits
        simp only [Bool.and_eq_true] at waits
        simp [waits.1.1]
      · exact .inl rfl
    · by_cases taken : doCheckpoint (signals s i) = true
      · have quiet := (doCheckpoint_parts taken).2.2.2.1
        have full : (inflight held).length = ((inflight s).drop (gone s i) ++ entering s i).length := by
          rw [same,settled_whole invariant allowed running straight quiet]
        rw [if_pos taken,if_pos (by simp [command,taken,checkpoint_few invariant taken])]
        refine .cons ?_ .nil
        rw [← full]
        cases waits : renames s i
        · exact .inl (by simp [Branch.within,Branch.mark])
        · exact .inr (by simp [Branch.within,Branch.mark])
      · rw [if_neg taken,if_neg (by simp [command,taken])]
        exact .nil
  · intro m present
    rw [marks,shape] at present
    simp only [List.mem_map] at present
    obtain ⟨_,⟨branch,_,rfl⟩,mark⟩ := present
    obtain ⟨waits,upto⟩ := mark_some mark
    simp only [Branch.within,Bool.and_eq_true,decide_eq_true_eq] at waits upto
    rw [← same,← upto]
    exact waits.2

theorem delete_parts (delete : deleteCheckpoint (signals s i) = true) :
    ∃ (r : Resolved) (branch : Branch), i.resolved = some r ∧ r.correct = true ∧ s.branches[r.branch]? = some branch ∧
      (signals s i).wbChkp = branch.label := by
  unfold deleteCheckpoint signals at delete
  cases resolved : i.resolved with
  | none => simp [resolved,branchOf] at delete
  | some r =>
      cases found : s.branches[r.branch]? with
      | none => simp [branchOf,resolved,found] at delete
      | some branch =>
          have right : r.correct = true := by simpa [branchOf,resolved,found] using delete
          exact ⟨r,branch,rfl,right,found,by simp [signals,branchOf,resolved,found]⟩

theorem delete_oldest (delete : deleteCheckpoint (signals s i) = true) : s.branches ≠ [] := by
  obtain ⟨r,branch,_,_,found,_⟩ := delete_parts delete
  intro none
  rw [none] at found
  cases found

theorem settled_found (running : s.exceptionEnable = false) (straight : doRecover (signals s i) = false)
    (live : (step s i).branches[j]? = some branch) :
    (∃ old, s.branches[(deleteCheckpoint (signals s i)).toNat + j]? = some old ∧ branch.label = old.label ∧
      (branch.unresolved = true → old.unresolved = true)) ∨
    ((deleteCheckpoint (signals s i)).toNat + j = s.branches.length ∧ doCheckpoint (signals s i) = true ∧
      branch.label = (nextBank s i .int).outputs.checkpoint) := by
  obtain ⟨held,_,shape⟩ := settled_shape running straight
  rw [shape] at live
  simp only [List.getElem?_map,List.getElem?_drop,Option.map_eq_some_iff] at live
  obtain ⟨before,live,rfl⟩ := live
  rw [List.getElem?_append] at live
  split at live
  · rw [List.getElem?_map,Option.map_eq_some_iff] at live
    obtain ⟨old,found,rfl⟩ := live
    refine .inl ⟨old,found,rfl,?_⟩
    simp only [Branch.within,Branch.older,Branch.settle,Bool.and_eq_true]
    exact fun waits => waits.1.1
  · rename_i beyond
    simp only [List.length_map,Nat.not_lt] at beyond live
    by_cases taken : doCheckpoint (signals s i) = true
    · rw [if_pos taken] at live
      obtain ⟨bound,_⟩ := List.getElem?_eq_some_iff.mp live
      simp only [List.length_singleton] at bound
      have last : (deleteCheckpoint (signals s i)).toNat + j = s.branches.length := by omega
      rw [last,Nat.sub_self] at live
      cases live
      exact .inr ⟨last,taken,rfl⟩
    · simp [taken] at live

theorem settled_labels (invariant : Invariant kept s) (running : s.exceptionEnable = false)
    (straight : doRecover (signals s i) = false) (live : (step s i).branches[j]? = some branch) :
    branch.label = shift ((step s i).bank .int).freeList.versionTail j := by
  rw [step_bank,versionTail_next running .int]
  -- a delete moves the tail by one and the list by one
  have position : shift ((s.bank .int).freeList.versionTail + bit (deleteCheckpoint (signals s i))) j =
      shift (s.bank .int).freeList.versionTail ((deleteCheckpoint (signals s i)).toNat + j) := by
    rw [shift_add]
    rfl
  rw [position]
  rcases settled_found running straight live with ⟨old,found,label,_⟩ | ⟨last,taken,label⟩
  · rw [label]
    exact invariant.labels _ old found
  · rw [label,last]
    have rep := invariant.held .int
    have current := rep.current
    rw [← rep.sameHead] at current
    simpa [nextBank,RenameBank.next,nextOutputs,renameTableInput,classInput,bankInput,command,signals,running,
      marks] using current

theorem settled_held (invariant : Invariant kept s) (allowed : Allowed s i) (running : s.exceptionEnable = false)
    (straight : doRecover (signals s i) = false) (spares : ∀ c, kept c → Spares c s i) (c : RegClass) :
    Holds (kept c) (hardwiredZero c) (nextBank s i c) (destinations c (inflight (step s i))) (marks (step s i)) := by
  have enters : ((classInput s i c).write && (!hardwiredZero c || (classInput s i c).rd != 0)) = true →
      renames s i = true := by
    intro takes
    simp only [classInput,bankInput,Bool.and_eq_true] at takes
    exact takes.1.2
  have shared : Holds (kept c) (hardwiredZero c) (nextBank s i c) ((destinations c (inflight s)).drop (gone s i) ++
      destinations c (entering s i)) (marksAfter (command (signals s i)) (marks s) (gone s i)
      ((destinations c (inflight s)).drop (gone s i) ++ destinations c (entering s i)).length) := by
    apply settled_cycle (invariant.held c) (retiring invariant allowed running c) (kept_marks allowed)
      _ _ running straight
    · rcases entering_cases s i with ⟨silent,still⟩ | ⟨new,renames⟩
      · exact .inl ⟨by simp [silent,destinations],by simp [classInput,bankInput,still]⟩
      · exact .inr (by simp [new,destinations,renamedEntry_class renames])
    · intro delete
      simpa [marks] using delete_oldest delete
    · exact fun takes => room_left invariant (enters takes) running c
    · exact fun hard takes => served (enters takes) running straight hard takes
  rw [← destinations_drop,← destinations_append] at shared
  obtain ⟨forgets,within⟩ := settled_marks invariant allowed running straight
  have whole := settled_inflight invariant allowed running straight
  rw [destinations_length] at shared
  have remembered := Represents.forget shared forgets
  have front : (destinations c ((inflight s).drop (gone s i) ++ entering s i)).take (inflight (step s i)).length =
      destinations c (inflight (step s i)) := by
    rw [whole,destinations_append,List.take_left' (by simp)]
  have back : (destinations c ((inflight s).drop (gone s i) ++ entering s i)).drop (inflight (step s i)).length =
      destinations c (dropped s i) := by
    rw [whole,destinations_append,List.drop_left' (by simp)]
  rw [← front]
  apply remembered.discard within
  · rw [whole,destinations_length,List.length_append]
    omega
  · intro still
    rw [back,writes,List.map_eq_nil_iff,List.filter_eq_nil_iff]
    intro d present
    obtain ⟨entry,inside,rfl⟩ := List.mem_map.mp present
    simp [spares c still entry inside]

theorem settled_step (invariant : Invariant kept s) (allowed : Allowed s i) (running : s.exceptionEnable = false)
    (straight : doRecover (signals s i) = false) (spares : ∀ c, kept c → Spares c s i) : Invariant kept (step s i) := by
  obtain ⟨held,form,shape⟩ := settled_shape running straight
  refine ⟨?_,?_,?_,?_,?_,?_⟩
  · intro c
    rw [step_bank]
    exact settled_held invariant allowed running straight spares c
  · rw [step_bank]
    exact lockstep_step invariant i
  · exact fun j branch live => settled_labels invariant running straight live
  · rw [shape,form]
    have capacity := invariant.capacity
    simp only
    split
    · simp only [List.length_drop]
      omega
    · rename_i free
      have full := (stallIr_parts (Bool.eq_false_iff.mpr free)).2.2
      have other : s.graduation.length ≠ 31 := by simpa [signals] using full
      simp only [List.length_append,List.length_drop]
      cases s.readRegister <;> simp <;> omega
  · rw [shape,form]
    intro quiet
    simp only at quiet
    simp [quiet,invariant.ready running]
  · rw [step_bank]
    intro c
    rw [shape,form]
    exact history_step invariant allowed running c

theorem step_invariant (invariant : Invariant kept s) (allowed : Allowed s i) (spares : ∀ c, kept c → Spares c s i) :
    Invariant kept (step s i) := by
  cases running : s.exceptionEnable with
  | true => exact rollBack_step invariant running i
  | false =>
      cases straight : doRecover (signals s i) with
      | true => exact recover_step invariant allowed running straight
      | false => exact settled_step invariant allowed running straight spares

theorem spared_invariant (reached : Reached (sparing ports writebacks kept) s) : Invariant kept s :=
  Reached.invariant (m := sparing ports writebacks kept) (Invariant kept) reset_invariant
    (fun _ _ invariant both => step_invariant invariant both.1 both.2) reached

theorem reached_invariant (reached : Reached (machine ports writebacks) s) : Invariant (fun _ => False) s :=
  reached.invariant (Invariant fun _ => False) reset_invariant
    fun _ _ invariant allowed => step_invariant invariant allowed fun _ none => none.elim

end Sargantana.RenameInvariant
