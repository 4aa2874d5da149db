import Sargantana.RenameInvariant

namespace Sargantana.RenameConservation
open DracPkg FreeList RenameTable RenameBank RenameVersions RenameRefinement RenameCycle ControlUnit RenameStage RenameInvariant
open StateMachine Renaming Window

variable {ports writebacks : RegClass → Nat} {kept : RegClass → Prop} {s : RenameStage.State ports}
  {i : RenameStage.Input ports writebacks} {c : RegClass}

def mappedRegisters (s : RenameStage.State ports) (c : RegClass) : List Phreg :=
  (List.finRange 32).map (mapping (s.bank c).renameTable (s.bank c).renameTable.versionHead)

-- old_prd of the instructions that write a register of the class
def displacedRegisters (c : RegClass) (entries : List Entry) : List Phreg :=
  (writes (hardwiredZero c) (destinations c entries)).map (·.old)

def freeRegisters (s : RenameStage.State ports) (c : RegClass) : List Phreg :=
  freeWindow (s.bank c).freeList (s.bank c).freeList.versionHead

def allocates (s : RenameStage.State ports) (i : RenameStage.Input ports writebacks) (c : RegClass) : Bool :=
  renames s i && !s.exceptionEnable && !doRecover (signals s i) && i.instr.we c &&
    (!hardwiredZero c || i.instr.dst c != 0)

def allocated (s : RenameStage.State ports) (i : RenameStage.Input ports writebacks) (c : RegClass) : Phreg :=
  freeRegisterToRename (hardwiredZero c) (s.bank c) (classInput s i c)

def remaining (s : RenameStage.State ports) (i : RenameStage.Input ports writebacks) : List Entry :=
  (inflight s).drop (gone s i)

theorem conserved (invariant : Invariant kept s) (still : kept c) :
    (mappedRegisters s c ++ displacedRegisters c (inflight s) ++ freeRegisters s c).Perm (List.finRange 64) := by
  have rep := invariant.held c
  have whole := Represents.conserves rep still
  rw [← Multiset.coe_eq_coe,← Multiset.coe_add,← Multiset.coe_add]
  simp only [mappedRegisters,rep.sameHead]
  exact whole

theorem allocates_parts (takes : allocates s i c = true) :
    renames s i = true ∧ s.exceptionEnable = false ∧ doRecover (signals s i) = false ∧
      ((classInput s i c).write && (!hardwiredZero c || (classInput s i c).rd != 0)) = true := by
  simp only [allocates,Bool.and_eq_true,Bool.not_eq_true'] at takes
  obtain ⟨⟨⟨⟨enters,running⟩,straight⟩,we⟩,other⟩ := takes
  exact ⟨enters,running,straight,by simp [classInput,bankInput,enters,we,other]⟩

theorem straight_of_flush (quiet : flushIr (signals s i) = false) :
    s.exceptionEnable = false ∧ doRecover (signals s i) = false := by
  refine ⟨?_,?_⟩
  · cases back : s.exceptionEnable with
    | false => rfl
    | true => simp [flushIr,signals,back] at quiet
  · cases recover : doRecover (signals s i) with
    | false => rfl
    | true =>
        rw [recover_flushes recover] at quiet
        cases quiet

theorem allocated_apart (invariant : Invariant kept s) (still : kept c) (allowed : Allowed s i)
    (takes : allocates s i c = true) :
    allocated s i c ∉ mappedRegisters s c ∧
    (∀ r, (nextBank s i c).renameTable.commitTable r ≠ allocated s i c) ∧
    ∀ w ∈ writes (hardwiredZero c) (destinations c (remaining s i)),
      w.cell ≠ allocated s i c ∧ w.old ≠ allocated s i c := by
  obtain ⟨enters,running,straight,write⟩ := allocates_parts takes
  have rep := invariant.held c
  have unused := allocated_unused rep still (retiring invariant allowed running c) (kept_marks allowed)
    (room_left invariant enters running c) running straight write
  rw [Multiset.mem_add,Multiset.mem_add,not_or,not_or] at unused
  obtain ⟨⟨unmapped,unheld⟩,uncommitted,untaken⟩ := unused
  refine ⟨?_,?_,?_⟩
  · simp only [mappedRegisters,rep.sameHead]
    exact unmapped
  · intro r same
    apply uncommitted
    exact mem_image.mpr ⟨r,same⟩
  · intro w present
    rw [remaining,destinations_drop] at present
    refine ⟨?_,?_⟩
    · intro same
      exact untaken (mem_cells.mpr ⟨w,present,same⟩)
    · intro same
      exact unheld (mem_olds.mpr ⟨w,present,same⟩)

theorem registers_conserved (reached : Reached (sparing ports writebacks (· = c)) s) :
    (mappedRegisters s c ++ displacedRegisters c (inflight s) ++ freeRegisters s c).Perm (List.finRange 64) ∧
    ∀ i : RenameStage.Input ports writebacks, Allowed s i → allocates s i c = true →
      allocated s i c ∉ mappedRegisters s c ∧
      (∀ r, (nextBank s i c).renameTable.commitTable r ≠ allocated s i c) ∧
      ∀ w ∈ writes (hardwiredZero c) (destinations c (remaining s i)),
        w.cell ≠ allocated s i c ∧ w.old ≠ allocated s i c :=
  ⟨conserved (spared_invariant reached) rfl,fun _ => allocated_apart (spared_invariant reached) rfl⟩

-- A jump with link to x1, additions, an instruction without a destination, and a
-- cycle with one of them in a stage of two read ports and one writeback port a class.
def jalr : Instr := ⟨true,true,1,0,true,false,false⟩
def add (rd : Reg) : Instr := ⟨true,false,rd,0,true,false,false⟩
def vadd : Instr := ⟨true,false,0,3,false,true,false⟩
def plain : Instr := ⟨true,false,0,0,false,false,false⟩
def bubble : Instr := ⟨false,false,0,0,false,false,false⟩

def cycle (instr : Instr) (trap : Bool) : RenameStage.Input (fun _ => 2) (fun _ => 1) where
  instr := instr
  readSrc := fun _ _ => 0
  useRs := fun _ _ => false
  writeback := fun _ _ => ⟨false,0,0⟩
  resolved := none
  csrStall := false
  exeStall := false
  retire := 0
  trap := trap
  fence := false

def retires (count : Nat) : RenameStage.Input (fun _ => 2) (fun _ => 1) := {cycle bubble false with retire := count}

def runTo (inputs : List (RenameStage.Input (fun _ => 2) (fun _ => 1))) : RenameStage.State (fun _ => 2) :=
  inputs.foldl step RenameStage.reset

theorem run_reached (checked : legal (machine (fun _ => 2) (fun _ => 1)) RenameStage.reset inputs = true) :
    Reached (machine (fun _ => 2) (fun _ => 1)) (runTo inputs) :=
  ⟨inputs,Runs.of_legal checked⟩

theorem run_spared (kept : RegClass → Prop) [DecidablePred kept]
    (checked : legal (sparing (fun _ => 2) (fun _ => 1) kept) RenameStage.reset inputs = true) :
    Reached (sparing (fun _ => 2) (fun _ => 1) kept) (runTo inputs) :=
  ⟨inputs,Runs.of_legal checked⟩

-- A jump and a vector instruction behind it, both in flight, then the jump is
-- predicted correctly and retires beside the renaming of an addition.
def linked : List (RenameStage.Input (fun _ => 2) (fun _ => 1)) :=
  [cycle jalr false,cycle vadd false,{cycle bubble false with resolved := some ⟨0,true⟩},
    {cycle (add 5) false with retire := 1}]

theorem linked_renames : ((runTo linked).bank .int).renameTable.versionHead = 1 ∧
    displacedRegisters .int (inflight (runTo linked)) = [5] := by decide +kernel

theorem registers_conserved_linked :
    ((runTo linked).bank .int).freeList.versionTail = 1 ∧
    displacedRegisters .int (inflight (runTo linked)) = [5] ∧
    (mappedRegisters (runTo linked) .int ++ displacedRegisters .int (inflight (runTo linked)) ++
      freeRegisters (runTo linked) .int).Perm (List.finRange 64) :=
  ⟨by decide,linked_renames.2,(registers_conserved (run_spared (· = .int) (by decide))).1⟩

-- The instruction in front commits and the stage is flushed, while another one
-- that has slipped in behind it is renamed.
def slipped (instr : Instr) : List (RenameStage.Input (fun _ => 2) (fun _ => 1)) :=
  [cycle plain false,cycle bubble false,{retires 1 with fence := true},cycle instr false]

-- A later addition retires into the place of the lost register, and the next instruction traps.
def misplaced : List (RenameStage.Input (fun _ => 2) (fun _ => 1)) :=
  slipped (add 1) ++ [cycle (add 2) false,cycle plain false,cycle bubble false,retires 1,{retires 1 with trap := true}]

-- A register is missing after the flush, and one is held twice after the rollback.
theorem slipped_runs :
    (mappedRegisters (runTo (slipped (add 1))) .int ++ displacedRegisters .int (inflight (runTo (slipped (add 1)))) ++
      freeRegisters (runTo (slipped (add 1))) .int).length = 63 ∧
    legal (machine (fun _ => 2) (fun _ => 1)) RenameStage.reset misplaced = true ∧
    ¬ (mappedRegisters (step (runTo misplaced) (cycle bubble false)) .int ++
      freeRegisters (step (runTo misplaced) (cycle bubble false)) .int).Nodup := by
  decide +kernel

theorem slipped_loses : Reached (machine (fun _ => 2) (fun _ => 1)) (runTo (slipped (add 1))) ∧
    ¬ (mappedRegisters (runTo (slipped (add 1))) .int ++ displacedRegisters .int (inflight (runTo (slipped (add 1)))) ++
      freeRegisters (runTo (slipped (add 1))) .int).Perm (List.finRange 64) := by
  refine ⟨run_reached (by decide),?_⟩
  intro whole
  have fewer := slipped_runs.1
  rw [whole.length_eq] at fewer
  cases fewer

-- empty_o of the SIMD and FP lists is not connected.
theorem allocation_served (reached : Reached (sparing ports writebacks (· = c)) s) (allowed : Allowed s i)
    (takes : allocates s i c = true) :
    (0 < (s.bank c).freeList.numRegisters (s.bank c).freeList.versionHead ∨
      ∃ port, FreeList.writeEnable (!hardwiredZero c) (freeListInput (hardwiredZero c) (classInput s i c)) port = true) ∧
    FreeList.readEnable (!hardwiredZero c) (s.bank c).freeList
      (freeListInput (hardwiredZero c) (classInput s i c)) = true ∧
    (freeRegisters s c ++ displacedRegisters c ((inflight s).take (gone s i))).head? = some (allocated s i c) := by
  have invariant := spared_invariant reached
  obtain ⟨enters,running,straight,write⟩ := allocates_parts takes
  have rep := invariant.held c
  have ports := retiring invariant allowed running c
  have room := room_left invariant enters running c
  have shared := retired (b := s.bank c) (Represents.writeBack rep
    (renameTableInput (hardwiredZero c) (s.bank c) (classInput s i c))) ports (kept_marks allowed) running
  have reads := reads_kept rep shared room running straight write rfl
  refine ⟨?_,reads,?_⟩
  · simp only [FreeList.readEnable,Bool.and_eq_true,Bool.or_eq_true,decide_eq_true_eq] at reads
    rcases reads.1.1.2 with (some | one) | two
    · exact .inl some
    · exact .inr ⟨0,one⟩
    · exact .inr ⟨1,two⟩
  · obtain ⟨rest,front,_⟩ := allocated_free rep rfl ports (kept_marks allowed) room running straight write
    have whole : Bounded (hardwiredZero c) (s.bank c).freeList
        ((destinations c (inflight s)).take (inflight s).length) (s.bank c).freeList.versionHead := by
      rw [List.take_of_length_le (by simp)]
      exact rep.latest
    have within : gone s i ≤ (inflight s).length := by
      have le := gone_le allowed
      have present := allowed.present
      rw [inflight_running invariant running,List.length_append]
      omega
    have credited := freed_version rep ports (kept_marks allowed) running whole within
    rw [front] at credited
    rw [freeRegisters,displacedRegisters,destinations_take,← credited]
    rfl

-- As many vector instructions in flight as fit
def crowd : List (RenameStage.Input (fun _ => 2) (fun _ => 1)) := List.replicate 31 (cycle vadd false)

-- One register that a flush has taken away is one too few.
def drained : List (RenameStage.Input (fun _ => 2) (fun _ => 1)) := slipped vadd ++ crowd

-- What the two runs come to: the crowd has one register left for the next instruction, the drained run has none.
theorem crowd_runs :
    (legal (sparing (fun _ => 2) (fun _ => 1) (· = .simd)) RenameStage.reset crowd = true ∧
      Allowed (runTo crowd) (cycle vadd false) ∧ allocates (runTo crowd) (cycle vadd false) .simd = true ∧
      freeRegisters (runTo crowd) .simd = [63]) ∧
    legal (machine (fun _ => 2) (fun _ => 1)) RenameStage.reset drained = true ∧
      Allowed (runTo drained) (cycle vadd false) ∧ allocates (runTo drained) (cycle vadd false) .simd = true ∧
      ((runTo drained).bank .simd).freeList.numRegisters ((runTo drained).bank .simd).freeList.versionHead = 0 ∧
      allocated (runTo drained) (cycle vadd false) .simd = 0 := by
  decide +kernel

theorem allocation_served_crowd :
    freeRegisters (runTo crowd) .simd = [63] ∧
    (freeRegisters (runTo crowd) .simd ++ displacedRegisters .simd ((inflight (runTo crowd)).take 0)).head? =
      some (allocated (runTo crowd) (cycle vadd false) .simd) := by
  obtain ⟨⟨checked,allowed,takes,last⟩,_⟩ := crowd_runs
  exact ⟨last,(allocation_served (run_spared (· = .simd) checked) allowed takes).2.2⟩

theorem drained_unserved : Reached (machine (fun _ => 2) (fun _ => 1)) (runTo drained) ∧
    Allowed (runTo drained) (cycle vadd false) ∧ allocates (runTo drained) (cycle vadd false) .simd = true ∧
    ((runTo drained).bank .simd).freeList.numRegisters ((runTo drained).bank .simd).freeList.versionHead = 0 ∧
    (∀ port, FreeList.writeEnable true (freeListInput false (classInput (runTo drained) (cycle vadd false) .simd)) port =
      false) ∧
    allocated (runTo drained) (cycle vadd false) .simd = 0 := by
  obtain ⟨_,checked,allowed,takes,empty,given⟩ := crowd_runs
  exact ⟨run_reached checked,allowed,takes,empty,by decide,given⟩

theorem lockstep_tables (invariant : Invariant kept s) (c : RegClass) :
    renameTableVersions (s.bank c).renameTable = freeListVersions (s.bank .int).freeList := by
  have rep := invariant.held c
  rw [← invariant.lockstep c]
  simp only [renameTableVersions,freeListVersions,rep.sameHead,rep.sameTail,rep.sameCount]

-- checkpoint_o of all six structures
def LabelsAgree (s : RenameStage.State ports) : Prop :=
  ∀ c, (s.bank c).freeList.checkpoint = (s.bank .int).outputs.checkpoint ∧
    (s.bank c).outputs.checkpoint = (s.bank .int).outputs.checkpoint

theorem labels_step (invariant : Invariant kept s) (i : RenameStage.Input ports writebacks) : LabelsAgree (step s i) := by
  intro c
  have heads := congrArg Versions.head (lockstep_tables invariant c)
  have ints := congrArg Versions.head (lockstep_tables invariant .int)
  have lists := congrArg Versions.head (invariant.lockstep c)
  simp only [renameTableVersions,freeListVersions] at heads ints lists
  simp only [step_bank,nextBank,RenameBank.next,FreeList.next_checkpoint,nextOutputs_checkpoint]
  rw [heads,ints,lists]
  exact ⟨rfl,rfl⟩

theorem reached_labels (reached : Reached (machine ports writebacks) s) : Invariant (fun _ => False) s ∧ LabelsAgree s :=
  reached.invariant (fun s => Invariant (fun _ => False) s ∧ LabelsAgree s) ⟨reset_invariant,fun _ => ⟨rfl,rfl⟩⟩
    fun _ i valid allowed => ⟨step_invariant valid.1 allowed fun _ none => none.elim,labels_step valid.1 i⟩

theorem versions_lockstep (reached : Reached (machine ports writebacks) s) (c : RegClass) :
    freeListVersions (s.bank c).freeList = renameTableVersions (s.bank .int).renameTable ∧
    renameTableVersions (s.bank c).renameTable = renameTableVersions (s.bank .int).renameTable ∧
    (s.bank c).freeList.checkpoint = (s.bank .int).outputs.checkpoint ∧
    (s.bank c).outputs.checkpoint = (s.bank .int).outputs.checkpoint ∧
    FreeList.outOfCheckpoints (s.bank c).freeList = RenameTable.outOfCheckpoints (s.bank .int).renameTable ∧
    RenameTable.outOfCheckpoints (s.bank c).renameTable = RenameTable.outOfCheckpoints (s.bank .int).renameTable ∧
    (s.bank c).freeList.numCheckpoints.val =
      ((s.bank c).freeList.versionHead.val + 4 - (s.bank c).freeList.versionTail.val) % 4 ∧
    (s.bank c).freeList.numCheckpoints.val ≤ 3 := by
  obtain ⟨invariant,labels⟩ := reached_labels reached
  have rep := invariant.held c
  have lists : freeListVersions (s.bank c).freeList = renameTableVersions (s.bank .int).renameTable :=
    (invariant.lockstep c).trans (lockstep_tables invariant .int).symm
  have tables : renameTableVersions (s.bank c).renameTable = renameTableVersions (s.bank .int).renameTable :=
    (lockstep_tables invariant c).trans (lockstep_tables invariant .int).symm
  have counts := congrArg Versions.count lists
  have tableCounts := congrArg Versions.count tables
  simp only [freeListVersions,renameTableVersions] at counts tableCounts
  have counted := rep.counted
  have few := rep.few
  have current := congrArg Fin.val rep.current
  rw [shift_val] at current
  have tail := (s.bank c).freeList.versionTail.isLt
  refine ⟨lists,tables,(labels c).1,(labels c).2,?_,?_,by omega,by omega⟩
  · rw [FreeList.outOfCheckpoints,RenameTable.outOfCheckpoints,counts]
  · rw [RenameTable.outOfCheckpoints,RenameTable.outOfCheckpoints,tableCounts]

theorem versions_lockstep_linked :
    ((runTo linked).bank .int).renameTable.versionHead = 1 ∧
    freeListVersions ((runTo linked).bank .fp).freeList = renameTableVersions ((runTo linked).bank .int).renameTable :=
  ⟨linked_renames.1,(versions_lockstep (run_reached (by decide)) .fp).1⟩

theorem rollBack_restores (reached : Reached (sparing ports writebacks (· = c)) s) (back : s.exceptionEnable = true)
    (i : RenameStage.Input ports writebacks) :
    mapping ((step s i).bank c).renameTable ((step s i).bank c).renameTable.versionHead =
      mapAfter RenameTable.reset.commitTable (writes (hardwiredZero c) (destinations c s.retired)) ∧
    (∀ r, ((step s i).bank c).renameTable.readyTable r ((step s i).bank c).renameTable.versionHead = true) ∧
    ((step s i).bank c).renameTable.numCheckpoints = 0 ∧ ((step s i).bank c).freeList.numCheckpoints = 0 ∧
    (step s i).branches = [] ∧
    (freeRegisters (step s i) c).length = 32 ∧
    (mappedRegisters (step s i) c ++ freeRegisters (step s i) c).Perm (List.finRange 64) := by
  have after := rollBack_step (spared_invariant reached) back i
  have none : inflight (step s i) = [] := by simp [step,back,inflight]
  have kept : (step s i).retired = s.retired := by simp [step,back]
  have closed : (step s i).branches = [] := by simp [step,back]
  have rep := after.held c
  have counted := rep.counted
  have newest := Represents.newest rep rfl
  rw [none] at newest
  simp only [marks,closed,List.map_nil,List.length_nil] at counted
  have zero : ((step s i).bank c).freeList.numCheckpoints = 0 := Fin.ext counted
  refine ⟨?_,?_,?_,zero,closed,?_,?_⟩
  · rw [rep.sameHead,newest.mapping,after.history c,kept]
    rfl
  · intro r
    have table : (nextBank s i c).renameTable = recoverCommitTable (s.bank c).renameTable :=
      RenameTable.next_recoverCommit back
    rw [step_bank,table]
    rfl
  · rw [rep.sameCount,zero]
  · exact newest.freeWindow_length
  · have whole := conserved after (c := c) rfl
    rw [none] at whole
    simpa [displacedRegisters,destinations] using whole

-- The jump retires, and the vector instruction behind it traps.
def trapped : List (RenameStage.Input (fun _ => 2) (fun _ => 1)) := linked ++ [{retires 1 with trap := true}]

theorem rollBack_restores_trapped :
    (runTo trapped).retired.map (fun entry => (entry .int).rd) = [1] ∧
    mapping ((step (runTo trapped) (cycle vadd false)).bank .int).renameTable
        ((step (runTo trapped) (cycle vadd false)).bank .int).renameTable.versionHead =
      mapAfter RenameTable.reset.commitTable (writes true (destinations .int (runTo trapped).retired)) :=
  ⟨by decide,(rollBack_restores (c := .int) (run_spared (· = .int) (by decide)) (by decide)
    (cycle vadd false)).1⟩

theorem misplaced_frees_mapped : Reached (machine (fun _ => 2) (fun _ => 1)) (runTo misplaced) ∧
    (runTo misplaced).exceptionEnable = true ∧
    ¬ (mappedRegisters (step (runTo misplaced) (cycle bubble false)) .int ++
      freeRegisters (step (runTo misplaced) (cycle bubble false)) .int).Perm (List.finRange 64) := by
  obtain ⟨_,checked,twice⟩ := slipped_runs
  refine ⟨run_reached checked,by decide,?_⟩
  intro whole
  exact twice (whole.nodup_iff.mpr (List.nodup_finRange 64))

end Sargantana.RenameConservation
