import Sargantana.RenameConservation

namespace Sargantana.RenameReady
open DracPkg FreeList RenameTable RenameBank RenameVersions RenameRefinement RenameCycle ControlUnit RenameStage
open RenameInvariant RenameConservation StateMachine Renaming Window

-- The ready bits of one version say which of its registers are written.
def Sound (written : Phreg → Bool) (rt : RenameTable.State) (v : CheckpointPtr) : Prop :=
  ∀ r, rt.readyTable r v = written (rt.registerTable r v)

section Table
variable {n m : Nat} {written : Phreg → Bool} {rt : RenameTable.State} {v : CheckpointPtr}
  {i : RenameTable.Input n m} {hz : Bool}

theorem sound_writeBack (after : Phreg → Bool) (sound : Sound written rt v)
    (exact : ∀ r, (written (rt.registerTable r v) || marked rt i r v) = after (rt.registerTable r v)) :
    Sound after (writeBack rt i) v := by
  intro r
  change (rt.readyTable r v || marked rt i r v) = _
  rw [sound r]
  exact exact r

theorem sound_committed (sound : Sound written rt v) : Sound written (committed hz rt i) v := by
  rw [committed_eq]
  exact sound

theorem sound_rename (sound : Sound written rt v) (fresh : ∀ r, rt.registerTable r v ≠ p) (rd : Reg) :
    Sound (Function.update written p false) (rename rt rd p) v := by
  intro r
  simp only [rename,setEntry]
  split
  · simp
  · rw [sound r,Function.update_of_ne (fresh r)]

theorem sound_checkpoint (kept : (Sound written rt v ∧ (taken = true → v ≠ rt.versionHead + 1)) ∨
      (taken = true ∧ v = rt.versionHead + 1 ∧ Sound written rt rt.versionHead)) :
    Sound written (if taken then RenameTable.takeCheckpoint rt else rt) v := by
  cases taken with
  | false =>
      rcases kept with ⟨sound,_⟩ | ⟨none,_⟩
      · exact sound
      · cases none
  | true =>
      intro r
      rcases kept with ⟨sound,apart⟩ | ⟨_,rfl,sound⟩
      · simp only [if_true,RenameTable.takeCheckpoint,copyVersion,apart rfl,if_false]
        exact sound r
      · simp only [if_true,RenameTable.takeCheckpoint,copyVersion]
        exact sound r

theorem sound_delete (sound : Sound written rt v) (delete : Bool) :
    Sound written (if delete then RenameTable.deleteOldest rt else rt) v := by
  cases delete <;> exact sound

end Table

section Bank
variable {n m : Nat} {kept : Prop} {hz : Bool} {b : Bank n} {i : RenameBank.Input n m} {ds : List Destination}
  {marks : List (Option Nat)} {before after : Phreg → Bool}

-- What the writebacks of the cycle do to every live version.
def Exact (before after : Phreg → Bool) (rt : RenameTable.State) (i : RenameTable.Input n m) (v : CheckpointPtr) : Prop :=
  ∀ r, (before (rt.registerTable r v) || marked rt i r v) = after (rt.registerTable r v)

theorem recover_sound (back : i.command.recoverCommit = false) (recover : i.command.doRecover = true)
    (alone : i.command.deleteCheckpoint = false) (sound : Sound before b.renameTable v)
    (exact : Exact before after b.renameTable (renameTableInput hz b i) v) :
    Sound after (RenameBank.next hz b i).renameTable v := by
  have settled : Sound after (committed hz (writeBack b.renameTable (renameTableInput hz b i)) (renameTableInput hz b i)) v :=
    sound_committed (sound_writeBack after sound exact)
  unfold RenameBank.next
  rw [RenameTable.next_recover back recover alone]
  exact settled

theorem renamed_sound (back : i.command.recoverCommit = false) (recover : i.command.doRecover = false)
    (sound : Sound before b.renameTable v) (exact : Exact before after b.renameTable (renameTableInput hz b i) v)
    (fresh : (i.write && (!hz || i.rd != 0)) = true → ∀ r,
      b.renameTable.registerTable r v ≠ freeRegisterToRename hz b i) :
    Sound (if i.write && (!hz || i.rd != 0) then Function.update after (freeRegisterToRename hz b i) false else after)
      (if RenameTable.writeEnable hz (renameTableInput hz b i) then
        rename (committed hz (writeBack b.renameTable (renameTableInput hz b i)) (renameTableInput hz b i))
          (renameTableInput hz b i).oldDst (renameTableInput hz b i).newDst
        else committed hz (writeBack b.renameTable (renameTableInput hz b i)) (renameTableInput hz b i)) v := by
  have one : Sound after (committed hz (writeBack b.renameTable (renameTableInput hz b i)) (renameTableInput hz b i)) v :=
    sound_committed (sound_writeBack after sound exact)
  have writes : RenameTable.writeEnable hz (renameTableInput hz b i) = (i.write && (!hz || i.rd != 0)) := by
    simp [RenameTable.writeEnable,renameTableInput,back,recover]
  rw [writes]
  cases takes : i.write && (!hz || i.rd != 0) with
  | false => exact one
  | true =>
      apply sound_rename one
      intro r
      rw [committed_eq]
      exact fresh takes r

theorem settled_sound (rep : Holds kept hz b ds marks) (back : i.command.recoverCommit = false)
    (recover : i.command.doRecover = false)
    (sound : ∀ j ≤ marks.length, Sound before b.renameTable (shift b.freeList.versionTail j))
    (exact : ∀ j ≤ marks.length, Exact before after b.renameTable (renameTableInput hz b i) (shift b.freeList.versionTail j))
    (fresh : (i.write && (!hz || i.rd != 0)) = true → ∀ j ≤ marks.length, ∀ r,
      b.renameTable.registerTable r (shift b.freeList.versionTail j) ≠ freeRegisterToRename hz b i)
    (live : j ≤ marks.length ∨ (j = marks.length + 1 ∧ i.command.doCheckpoint = true ∧ marks.length < 3)) :
    Sound (if i.write && (!hz || i.rd != 0) then Function.update after (freeRegisterToRename hz b i) false else after)
      (RenameBank.next hz b i).renameTable (shift b.freeList.versionTail j) := by
  have two := fun j inside => renamed_sound back recover (sound j inside) (exact j inside)
    fun takes => fresh takes j inside
  have taken : RenameTable.checkpointEnable b.renameTable (renameTableInput hz b i) =
      (i.command.doCheckpoint && decide (marks.length < 3)) := by
    simp [RenameTable.checkpointEnable,renameTableInput,back,recover,rep.sameCount,rep.counted,DracPkg.numCheckpoints]
  have following : shift b.freeList.versionTail (marks.length + 1) = b.renameTable.versionHead + 1 := by
    rw [rep.following,rep.sameHead]
  have current := rep.current
  rw [← rep.sameHead] at current
  have few := rep.few
  unfold RenameBank.next
  rw [RenameTable.next_settled back recover]
  apply sound_delete
  apply sound_checkpoint
  have head : (if RenameTable.writeEnable hz (renameTableInput hz b i) then
      rename (committed hz (writeBack b.renameTable (renameTableInput hz b i)) (renameTableInput hz b i))
        (renameTableInput hz b i).oldDst (renameTableInput hz b i).newDst
      else committed hz (writeBack b.renameTable (renameTableInput hz b i)) (renameTableInput hz b i)).versionHead =
      b.renameTable.versionHead := by
    rw [committed_eq]
    split <;> rfl
  rw [head,taken]
  rcases live with inside | ⟨rfl,point,room⟩
  · left
    refine ⟨two j inside,?_⟩
    intro created same
    have room : marks.length < 3 := by
      simp only [Bool.and_eq_true,decide_eq_true_eq] at created
      exact created.2
    have equal := shift_inj (by omega) (by omega) (same.trans following.symm)
    omega
  · right
    refine ⟨by simp [point,room],following,?_⟩
    rw [current]
    exact two _ (Nat.le_refl _)

end Bank

section Stage
variable {ports writebacks : RegClass → Nat}

-- The stage with a record of the registers that wait for their result: `some r`
-- from the cycle in which the register is given out to r until a writeback names
-- it. A register is written when it does not wait. `retiring` are the registers
-- of the instructions that retired in the cycle before.
structure State (ports : RegClass → Nat) where
  stage : RenameStage.State ports
  pending : RegClass → Phreg → Option Reg
  retiring : RegClass → List Phreg

def written (s : State ports) (c : RegClass) (p : Phreg) : Bool := (s.pending c p).isNone

def writtenBack (i : RenameStage.Input ports writebacks) (c : RegClass) (p : Phreg) : Bool :=
  (List.finRange (writebacks c)).any fun port => (i.writeback c port).ready && (i.writeback c port).paddr == p

def pendingAfter (s : State ports) (i : RenameStage.Input ports writebacks) (c : RegClass) (p : Phreg) : Option Reg :=
  if allocates s.stage i c ∧ p = allocated s.stage i c then some (i.instr.dst c)
  else if writtenBack i c p then none
  else s.pending c p

def retired (s : State ports) (i : RenameStage.Input ports writebacks) (c : RegClass) : List (Write Reg Phreg) :=
  writes (hardwiredZero c) (destinations c ((inflight s.stage).take (gone s.stage i)))

def next (s : State ports) (i : RenameStage.Input ports writebacks) : State ports :=
  ⟨step s.stage i,pendingAfter s i,fun c => (retired s i c).map (·.cell)⟩

-- Each writeback names the register and the destination of an instruction that
-- waits for its result; an instruction with destination x0 may write back too.
-- An atomic memory operation retires in the cycle of its response and is written
-- back in the next one; every other instruction is written back before it retires.
structure Allowed (s : State ports) (i : RenameStage.Input ports writebacks) : Prop where
  stage : RenameStage.Allowed s.stage i
  named : ∀ c port, (i.writeback c port).ready = true →
    s.pending c (i.writeback c port).paddr = some (i.writeback c port).vaddr ∨
      (hardwiredZero c = true ∧ (i.writeback c port).paddr = 0)
  finished : ∀ c, ∀ p ∈ s.retiring c, s.pending c p = none ∨ writtenBack i c p = true

theorem allowed_iff (s : State ports) (i : RenameStage.Input ports writebacks) : Allowed s i ↔
    RenameStage.Allowed s.stage i ∧ (∀ c port, (i.writeback c port).ready = true →
      s.pending c (i.writeback c port).paddr = some (i.writeback c port).vaddr ∨
        (hardwiredZero c = true ∧ (i.writeback c port).paddr = 0)) ∧
    ∀ c, ∀ p ∈ s.retiring c, s.pending c p = none ∨ writtenBack i c p = true :=
  ⟨fun allowed => ⟨allowed.stage,allowed.named,allowed.finished⟩,fun parts => ⟨parts.1,parts.2.1,parts.2.2⟩⟩

instance (s : State ports) (i : RenameStage.Input ports writebacks) : Decidable (Allowed s i) :=
  decidable_of_iff _ (allowed_iff s i).symm

def reset : State ports := ⟨RenameStage.reset,fun _ _ => none,fun _ => []⟩

def machine (ports writebacks : RegClass → Nat) : Machine (State ports) (RenameStage.Input ports writebacks) :=
  ⟨reset,Allowed,next⟩

instance (s : State ports) (i : RenameStage.Input ports writebacks) : Decidable ((machine ports writebacks).allowed s i) :=
  inferInstanceAs (Decidable (Allowed s i))

-- Runs in which a csr flush finds nothing that has been renamed
def steady (ports writebacks : RegClass → Nat) : Machine (State ports) (RenameStage.Input ports writebacks) :=
  {machine ports writebacks with allowed := fun s i => Allowed s i ∧ dropped s.stage i = []}

structure Invariant (s : State ports) : Prop where
  stage : RenameInvariant.Invariant (fun _ => True) s.stage
  waiting : ∀ branch ∈ s.stage.branches, branch.unresolved = true
  ready : ∀ c j, j ≤ (marks s.stage).length →
    Sound (written s c) (s.stage.bank c).renameTable (shift (s.stage.bank c).freeList.versionTail j)
  flying : ∀ c, ∀ w ∈ writes (hardwiredZero c) (destinations c (inflight s.stage)),
    s.pending c w.cell = none ∨ s.pending c w.cell = some w.name
  committed : ∀ c r, s.pending c ((s.stage.bank c).renameTable.commitTable r) = none ∨
    (s.pending c ((s.stage.bank c).renameTable.commitTable r) = some r ∧
      (s.stage.bank c).renameTable.commitTable r ∈ s.retiring c)
  idle : s.stage.exceptionEnable = true → ∀ c, s.retiring c = []
  zero : ∀ c, hardwiredZero c = true → s.pending c 0 = none

variable {s : State ports} {i : RenameStage.Input ports writebacks}

theorem reset_ready : Invariant (reset : State ports) := by
  refine ⟨reset_invariant,?_,?_,?_,fun _ _ => .inl rfl,fun _ _ => rfl,fun _ _ => rfl⟩
  · intro branch inside
    cases inside
  · intro c j inside r
    rfl
  · intro c w present
    cases present

theorem spared (quiet : dropped s.stage i = []) : ∀ c, True → Spares c s.stage i := by
  intro c _ entry inside
  rw [quiet] at inside
  cases inside

theorem live_version (invariant : Invariant s) (c : RegClass) (inside : j ≤ (marks s.stage).length) :
    ∃ m, (some m ∈ marks s.stage ∨ m = (destinations c (inflight s.stage)).length) ∧
      Version (hardwiredZero c) (s.stage.bank c).freeList (s.stage.bank c).renameTable
        ((destinations c (inflight s.stage)).take m) (shift (s.stage.bank c).freeList.versionTail j) := by
  have accounted := (invariant.stage.held c).accounted trivial
  rcases Nat.lt_or_eq_of_le inside with early | rfl
  · simp only [marks,List.length_map] at early
    have found := List.getElem?_eq_getElem early
    have here : (marks s.stage)[j]? = some (some s.stage.branches[j].upto) := by
      rw [marks,List.getElem?_map,found,Option.map_some,
        mark_unresolved (invariant.waiting _ (List.getElem_mem early))]
    exact ⟨_,.inl (List.mem_of_getElem? here),accounted.versions j _ (stands_mark here)⟩
  · exact ⟨_,.inr rfl,accounted.versions _ _ stands_current⟩

theorem waits (invariant : Invariant s) (c : RegClass) (inside : j ≤ (marks s.stage).length) (r : Reg) :
    s.pending c ((s.stage.bank c).renameTable.registerTable r (shift (s.stage.bank c).freeList.versionTail j)) = none ∨
      s.pending c ((s.stage.bank c).renameTable.registerTable r (shift (s.stage.bank c).freeList.versionTail j)) =
        some r := by
  obtain ⟨m,_,version⟩ := live_version invariant c inside
  change s.pending c (mapping _ _ _) = _ ∨ s.pending c (mapping _ _ _) = _
  rcases version.source (Nat.zero_le m) r with same | ⟨w,present,rfl,cell⟩
  · rw [same]
    exact (invariant.committed c r).imp id And.left
  · rw [← cell]
    exact invariant.flying c w present

theorem writebacks_exact (invariant : Invariant s) (allowed : Allowed s i) (c : RegClass)
    (inside : j ≤ (marks s.stage).length) :
    Exact (written s c) (fun p => written s c p || writtenBack i c p) (s.stage.bank c).renameTable
      (renameTableInput (hardwiredZero c) (s.stage.bank c) (classInput s.stage i c))
      (shift (s.stage.bank c).freeList.versionTail j) := by
  intro r
  have waiting := waits invariant c inside r
  generalize shift (s.stage.bank c).freeList.versionTail j = v at waiting
  generalize target : (s.stage.bank c).renameTable.registerTable r v = p at waiting
  change (written s c p || _) = (written s c p || writtenBack i c p)
  cases done : written s c p with
  | true => rfl
  | false =>
      have mine : s.pending c p = some r := by
        rcases waiting with none | mine
        · simp [written,none] at done
        · exact mine
      simp only [Bool.false_or]
      rw [Bool.eq_iff_iff]
      simp only [marked,writtenBack,List.any_eq_true,List.mem_finRange,true_and,portMark,Bool.and_eq_true,beq_iff_eq]
      refine exists_congr fun port => ?_
      constructor
      · rintro ⟨⟨ready,_⟩,paddr⟩
        exact ⟨ready,paddr.symm.trans target⟩
      · rintro ⟨ready,paddr⟩
        rcases allowed.named c port ready with named | ⟨hard,zero⟩
        · rw [paddr,mine] at named
          exact ⟨⟨ready,(Option.some.inj named).symm⟩,target.trans paddr.symm⟩
        · have fixed := invariant.zero c hard
          rw [← zero,paddr,mine] at fixed
          cases fixed

theorem written_next (s : State ports) (i : RenameStage.Input ports writebacks) (c : RegClass) :
    written (next s i) c = if allocates s.stage i c then
      Function.update (fun p => written s c p || writtenBack i c p) (allocated s.stage i c) false
      else fun p => written s c p || writtenBack i c p := by
  funext p
  simp only [written,next,pendingAfter]
  cases allocates s.stage i c with
  | false => cases back : writtenBack i c p <;> simp [back]
  | true =>
      by_cases here : p = allocated s.stage i c
      · simp [here]
      · cases back : writtenBack i c p <;> simp [here,back]

theorem pending_other (other : allocates s.stage i c = true → p ≠ allocated s.stage i c) :
    pendingAfter s i c p = none ∨ pendingAfter s i c p = s.pending c p := by
  have kept : ¬(allocates s.stage i c = true ∧ p = allocated s.stage i c) := fun both => other both.1 both.2
  rw [pendingAfter,if_neg kept]
  cases writtenBack i c p <;> simp

theorem pending_done (other : allocates s.stage i c = true → p ≠ allocated s.stage i c)
    (done : s.pending c p = none ∨ writtenBack i c p = true) : pendingAfter s i c p = none := by
  have kept : ¬(allocates s.stage i c = true ∧ p = allocated s.stage i c) := fun both => other both.1 both.2
  rw [pendingAfter,if_neg kept]
  rcases done with none | back
  · simp [none]
  · simp [back]

theorem flying_kept (invariant : Invariant s) (allowed : Allowed s i) (c : RegClass)
    (present : w ∈ writes (hardwiredZero c) (destinations c (remaining s.stage i))) :
    pendingAfter s i c w.cell = none ∨ pendingAfter s i c w.cell = some w.name := by
  have inside : w ∈ writes (hardwiredZero c) (destinations c (inflight s.stage)) := by
    rw [writes_take_drop (gone s.stage i),← destinations_drop]
    exact List.mem_append_right _ present
  have apart : allocates s.stage i c = true → w.cell ≠ allocated s.stage i c := fun takes =>
    ((allocated_apart invariant.stage trivial allowed.stage takes).2.2 w present).1
  rcases pending_other apart with none | same
  · exact .inl none
  · rw [same]
    exact invariant.flying c w inside

theorem committed_kept (invariant : Invariant s) (allowed : Allowed s i) (running : s.stage.exceptionEnable = false)
    (c : RegClass) (r : Reg) :
    (next s i).pending c (((next s i).stage.bank c).renameTable.commitTable r) = none ∨
      ((next s i).pending c (((next s i).stage.bank c).renameTable.commitTable r) = some r ∧
        ((next s i).stage.bank c).renameTable.commitTable r ∈ (next s i).retiring c) := by
  have bank : (next s i).stage.bank c = nextBank s.stage i c := congrFun (step_bank s.stage i) c
  rw [bank]
  change pendingAfter s i c ((nextBank s.stage i c).renameTable.commitTable r) = none ∨
    (pendingAfter s i c ((nextBank s.stage i c).renameTable.commitTable r) = some r ∧
      (nextBank s.stage i c).renameTable.commitTable r ∈ (retired s i c).map (·.cell))
  have apart : allocates s.stage i c = true →
      (nextBank s.stage i c).renameTable.commitTable r ≠ allocated s.stage i c := fun takes =>
    (allocated_apart invariant.stage trivial allowed.stage takes).2.1 r
  have table : (nextBank s.stage i c).renameTable.commitTable = mapAfter (s.stage.bank c).renameTable.commitTable
      (retired s i c) := by
    rw [retired,destinations_take]
    exact commit_cycle (retiring invariant.stage allowed.stage running c) running
  rcases mapAfter_source (s.stage.bank c).renameTable.commitTable (retired s i c) r with same | ⟨w,present,name,cell⟩
  · left
    apply pending_done apart
    rw [table,same]
    rcases invariant.committed c r with none | ⟨_,recent⟩
    · exact .inl none
    · exact allowed.finished c _ recent
  · rw [← table] at cell
    have flying : w ∈ writes (hardwiredZero c) (destinations c (inflight s.stage)) := by
      rw [writes_take_drop (gone s.stage i),← destinations_take]
      exact List.mem_append_left _ present
    rcases pending_other apart with none | same
    · exact .inl none
    · rcases invariant.flying c w flying with none | waits
      · rw [cell] at none
        exact .inl (same.trans none)
      · rw [cell,name] at waits
        exact .inr ⟨same.trans waits,List.mem_map.mpr ⟨w,present,cell⟩⟩

theorem zero_kept (invariant : Invariant s) (allowed : Allowed s i) (c : RegClass) (hard : hardwiredZero c = true) :
    pendingAfter s i c 0 = none := by
  refine pending_done ?_ (.inl (invariant.zero c hard))
  intro takes same
  obtain ⟨_,running,_,_⟩ := allocates_parts takes
  have apart := (allocated_apart invariant.stage trivial allowed.stage takes).2.1 0
  have fixed := ((invariant.stage.held c).nonzero hard).commit
  apply apart
  rw [← same]
  have table : (nextBank s.stage i c).renameTable.commitTable = mapAfter (s.stage.bank c).renameTable.commitTable
      (writes (hardwiredZero c) ((destinations c (inflight s.stage)).take (gone s.stage i))) :=
    commit_cycle (retiring invariant.stage allowed.stage running c) running
  rw [table,mapAfter_untouched fun w present => writes_name hard present]
  exact (fixed 0).mpr rfl

theorem idle_next (allowed : Allowed s i) (trap : (next s i).stage.exceptionEnable = true) (c : RegClass) :
    (next s i).retiring c = [] := by
  have cause : exceptionEnableD s.stage i = true := by
    change (step s.stage i).exceptionEnable = true at trap
    rwa [step_exceptionEnable] at trap
  simp [next,retired,gone_eq allowed.stage,cause,destinations]

theorem rollBack_ready (invariant : Invariant s) (allowed : Allowed s i) (back : s.stage.exceptionEnable = true) :
    Invariant (next s i) := by
  have quiet : ∀ c, allocates s.stage i c = false := by
    intro c
    simp [allocates,back]
  have empty : inflight (step s.stage i) = [] := by simp [step,back,inflight]
  have closed : (step s.stage i).branches = [] := by simp [step,back]
  have commit : ∀ c r, pendingAfter s i c ((nextBank s.stage i c).renameTable.commitTable r) = none := by
    intro c r
    apply pending_done
    · intro takes
      rw [quiet c] at takes
      cases takes
    · left
      have table : (nextBank s.stage i c).renameTable.commitTable = (s.stage.bank c).renameTable.commitTable :=
        rollBack_commit back
      rw [table]
      rcases invariant.committed c r with none | ⟨_,recent⟩
      · exact none
      · rw [invariant.idle back c] at recent
        cases recent
  refine ⟨rollBack_step invariant.stage back i,?_,?_,?_,?_,idle_next allowed,zero_kept invariant allowed⟩
  · intro branch inside
    change branch ∈ (step s.stage i).branches at inside
    rw [closed] at inside
    cases inside
  · intro c j inside
    have table : (nextBank s.stage i c).renameTable = recoverCommitTable (s.stage.bank c).renameTable :=
      RenameTable.next_recoverCommit back
    have list : (nextBank s.stage i c).freeList = FreeList.rollBack (s.stage.bank c).freeList :=
      FreeList.next_rollBack back
    have zero : j = 0 := by
      change j ≤ (marks (step s.stage i)).length at inside
      simpa [marks,closed] using inside
    change Sound _ ((step s.stage i).bank c).renameTable (shift ((step s.stage i).bank c).freeList.versionTail j)
    rw [step_bank,list,zero,shift_zero]
    intro r
    have done := commit c r
    rw [table] at done ⊢
    change true = (pendingAfter s i c ((s.stage.bank c).renameTable.commitTable r)).isNone
    rw [show pendingAfter s i c ((s.stage.bank c).renameTable.commitTable r) = none from done]
    rfl
  · intro c w present
    change w ∈ writes _ (destinations c (inflight (step s.stage i))) at present
    rw [empty] at present
    cases present
  · intro c r
    change pendingAfter s i c (((step s.stage i).bank c).renameTable.commitTable r) = _ ∨ _
    rw [step_bank]
    exact .inl (commit c r)

theorem recover_ready (invariant : Invariant s) (allowed : Allowed s i) (running : s.stage.exceptionEnable = false)
    (recover : doRecover (signals s.stage i) = true) : Invariant (next s i) := by
  obtain ⟨r,branch,resolved,_,found,named,_,alone⟩ := recover_parts recover
  have quiet : ∀ c, allocates s.stage i c = false := by
    intro c
    simp [allocates,recover]
  have left := recover_inflight invariant.stage allowed.stage running recover resolved found
  have moved := recover_marks running recover resolved named
  refine ⟨recover_step invariant.stage allowed.stage running recover,?_,?_,?_,?_,idle_next allowed,
    zero_kept invariant allowed⟩
  · intro other inside
    change other ∈ (step s.stage i).branches at inside
    rw [recover_shape running recover resolved named] at inside
    obtain ⟨before,present,rfl⟩ := List.mem_map.mp inside
    exact invariant.waiting before (List.mem_of_mem_take present)
  · intro c j inside
    have tails : ((next s i).stage.bank c).freeList.versionTail = (s.stage.bank c).freeList.versionTail := by
      change ((step s.stage i).bank c).freeList.versionTail = _
      rw [step_bank,versionTail_next running c,alone]
      simp
    have live : j ≤ (marks s.stage).length := by
      change j ≤ (marks (step s.stage i)).length at inside
      rw [moved,List.length_take,List.length_map] at inside
      omega
    rw [tails,written_next,quiet c]
    change Sound _ ((step s.stage i).bank c).renameTable _
    rw [step_bank]
    exact recover_sound running recover alone (invariant.ready c j live) (writebacks_exact invariant allowed c live)
  · intro c w present
    apply flying_kept invariant allowed c
    change w ∈ writes _ (destinations c (inflight (step s.stage i))) at present
    rw [left,destinations_take] at present
    rw [remaining,writes_take_drop (branch.upto - gone s.stage i)]
    exact List.mem_append_left _ present
  · exact committed_kept invariant allowed running

theorem allocates_eq (running : s.stage.exceptionEnable = false) (straight : doRecover (signals s.stage i) = false)
    (c : RegClass) :
    allocates s.stage i c = ((classInput s.stage i c).write &&
      (!hardwiredZero c || (classInput s.stage i c).rd != 0)) := by
  cases enters : renames s.stage i <;> simp [allocates,classInput,bankInput,enters,running,straight]

theorem unmapped (invariant : Invariant s) (allowed : Allowed s i) (running : s.stage.exceptionEnable = false)
    (takes : allocates s.stage i c = true) (inside : j ≤ (marks s.stage).length) (r : Reg) :
    (s.stage.bank c).renameTable.registerTable r (shift (s.stage.bank c).freeList.versionTail j) ≠
      allocated s.stage i c := by
  obtain ⟨_,uncommitted,untaken⟩ := allocated_apart invariant.stage trivial allowed.stage takes
  obtain ⟨m,member,version⟩ := live_version invariant c inside
  have older : gone s.stage i ≤ m := by
    rcases member with live | rfl
    · exact kept_marks allowed.stage m live
    · have le := gone_le allowed.stage
      have present := allowed.stage.present
      rw [destinations_length,inflight_running invariant.stage running,List.length_append]
      omega
  have table : (nextBank s.stage i c).renameTable.commitTable = mapAfter (s.stage.bank c).renameTable.commitTable
      (writes (hardwiredZero c) ((destinations c (inflight s.stage)).take (gone s.stage i))) :=
    commit_cycle (retiring invariant.stage allowed.stage running c) running
  change mapping _ _ r ≠ _
  rcases version.source older r with same | ⟨w,present,_,cell⟩
  · rw [same,← table]
    exact uncommitted r
  · rw [← cell]
    exact (untaken w (by rw [remaining,destinations_drop]; exact present)).1

theorem entering_waits (running : s.stage.exceptionEnable = false) (straight : doRecover (signals s.stage i) = false)
    (c : RegClass) (present : w ∈ writes (hardwiredZero c) (destinations c (entering s.stage i))) :
    pendingAfter s i c w.cell = some w.name := by
  have eq := allocates_eq (i := i) running straight c
  rcases entering_cases s.stage i with ⟨silent,_⟩ | ⟨new,enters⟩
  · rw [silent] at present
    cases present
  · rw [new] at present
    simp only [destinations,List.map_cons,List.map_nil,renamedEntry_class enters] at present
    cases takes : (renamed (hardwiredZero c) (s.stage.bank c) (classInput s.stage i c)).takes (hardwiredZero c) with
    | false =>
        rw [writes_cons_quiet takes] at present
        cases present
    | true =>
        rw [writes_cons_takes takes,writes_nil,List.mem_singleton] at present
        subst present
        have given : allocates s.stage i c = true := by
          rw [eq]
          exact takes
        rw [pendingAfter,if_pos ⟨given,rfl⟩]
        rfl

theorem empty_full (invariant : RenameInvariant.Invariant (fun _ => True) s.stage) (running : s.stage.exceptionEnable = false)
    (empty : emptyFreeList s.stage i = true) : s.stage.graduation.length = 31 := by
  have count := (Represents.newest (invariant.held .int) trivial).count
  have none : (s.stage.bank .int).freeList.numRegisters (s.stage.bank .int).freeList.versionHead = 0 := by
    unfold emptyFreeList FreeList.empty at empty
    simp only [Bool.and_eq_true,decide_eq_true_eq] at empty
    exact empty.1.1
  have many : (writes (hardwiredZero .int) (destinations .int (inflight s.stage))).length ≤
      (destinations .int (inflight s.stage)).length := writes_length_le
  have few := inflight_length invariant running
  have capacity := invariant.capacity
  simp only [none,destinations_length] at count many
  simp only [Fin.val_zero] at count
  omega

-- A branch that takes a checkpoint leaves the instruction queue.
theorem checkpoint_renames (invariant : RenameInvariant.Invariant (fun _ => True) s.stage)
    (running : s.stage.exceptionEnable = false) (taken : doCheckpoint (signals s.stage i) = true) :
    renames s.stage i = true := by
  obtain ⟨_,valid,few,_,free⟩ := doCheckpoint_parts taken
  have full : s.stage.graduation.length ≠ 31 := by simpa [signals] using (stallIr_parts free).2.2
  have some : (signals s.stage i).emptyFreeList = false := by
    cases empty : emptyFreeList s.stage i with
    | false => exact empty
    | true => exact absurd (empty_full invariant running empty) full
  have queue : stallIq (signals s.stage i) = false := by rw [stallIq_eq,free,some,few]; rfl
  simp [renames,free,queue,show i.instr.valid = true from valid]

-- The oldest branch is the one resolved, and nothing has been discarded.
theorem settled_waiting (invariant : Invariant s) (allowed : Allowed s i) (quiet : dropped s.stage i = [])
    (running : s.stage.exceptionEnable = false) (straight : doRecover (signals s.stage i) = false) :
    ∀ branch ∈ (step s.stage i).branches, branch.unresolved = true := by
  obtain ⟨held,_,shape⟩ := settled_shape running straight
  have whole := settled_inflight invariant.stage allowed.stage running straight
  rw [quiet,List.append_nil] at whole
  have same : inflight held = inflight (step s.stage i) := by rw [shape]; rfl
  intro branch inside
  rw [shape] at inside
  obtain ⟨before,present,rfl⟩ := List.mem_map.mp inside
  obtain ⟨j,here⟩ := List.mem_iff_getElem?.mp present
  rw [List.getElem?_drop,List.getElem?_append] at here
  simp only [Branch.within,Bool.and_eq_true,decide_eq_true_eq]
  split at here
  · rename_i bound
    rw [List.length_map] at bound
    simp only [List.getElem?_map,Option.map_eq_some_iff] at here
    obtain ⟨old,found,rfl⟩ := here
    have waits := invariant.waiting old (List.mem_of_getElem? found)
    simp only [Branch.older,Branch.settle,waits,Bool.true_and,Bool.not_eq_true']
    refine ⟨?_,?_⟩
    · cases delete : deleteCheckpoint (signals s.stage i) with
      | false => rfl
      | true =>
          obtain ⟨r,target,resolved,right,first,label⟩ := delete_parts delete
          have oldest : r.branch = 0 := by
            rcases Nat.eq_zero_or_pos r.branch with zero | positive
            · exact zero
            · have head := List.getElem?_eq_getElem (show 0 < s.stage.branches.length by omega)
              have closed := allowed.stage.oldest r resolved right _
                (List.mem_of_getElem? (i := 0) (by rw [List.getElem?_take_of_lt positive,head]))
              rw [invariant.waiting _ (List.mem_of_getElem? head)] at closed
              cases closed
          have few := (invariant.stage.held .int).few
          simp only [marks,List.length_map] at few
          rw [delete] at found bound
          rw [oldest] at first
          rw [label,invariant.stage.labels _ target first,invariant.stage.labels _ old found]
          simp only [Bool.true_and,beq_eq_false_iff_ne]
          intro equal
          have collide := shift_inj (by simp at bound ⊢; omega) (by omega) equal
          simp at collide
    · have mark : (marks s.stage)[(deleteCheckpoint (signals s.stage i)).toNat + j]? = some (some old.upto) := by
        rw [marks,List.getElem?_map,found,Option.map_some,mark_unresolved waits]
      have le := (invariant.stage.held .int).mark_le mark
      rw [destinations_length] at le
      rw [same,← whole,List.length_append,List.length_drop]
      omega
  · by_cases taken : doCheckpoint (signals s.stage i) = true
    · rw [if_pos taken,List.getElem?_singleton] at here
      split at here
      · cases here
        exact ⟨checkpoint_renames invariant.stage running taken,Nat.le_refl _⟩
      · cases here
    · simp [taken] at here

theorem settled_ready (invariant : Invariant s) (allowed : Allowed s i) (quiet : dropped s.stage i = [])
    (running : s.stage.exceptionEnable = false) (straight : doRecover (signals s.stage i) = false) :
    Invariant (next s i) := by
  have total := settled_inflight invariant.stage allowed.stage running straight
  rw [quiet,List.append_nil] at total
  have moved := List.Forall₂.length_eq (settled_marks invariant.stage allowed.stage running straight).1
  have takes := allocates_eq (i := i) running straight
  refine ⟨settled_step invariant.stage allowed.stage running straight (spared quiet),
    settled_waiting invariant allowed quiet running straight,?_,?_,?_,idle_next allowed,zero_kept invariant allowed⟩
  · intro c j inside
    -- a delete moves the tail, so position j was one further before
    have place : shift ((next s i).stage.bank c).freeList.versionTail j =
        shift (s.stage.bank c).freeList.versionTail ((deleteCheckpoint (signals s.stage i)).toNat + j) := by
      change shift ((step s.stage i).bank c).freeList.versionTail j = _
      rw [step_bank,versionTail_next running c,shift_add]
      rfl
    have live : (deleteCheckpoint (signals s.stage i)).toNat + j ≤ (marks s.stage).length ∨
        ((deleteCheckpoint (signals s.stage i)).toNat + j = (marks s.stage).length + 1 ∧
          doCheckpoint (signals s.stage i) = true ∧ (marks s.stage).length < 3) := by
      change j ≤ (marks (step s.stage i)).length at inside
      rw [← moved] at inside
      exact live_before (fun delete => by simpa [marks] using delete_oldest delete) inside
    rw [place,written_next,takes c]
    change Sound _ ((step s.stage i).bank c).renameTable _
    rw [step_bank]
    apply settled_sound (invariant.stage.held c) running straight (invariant.ready c)
      (fun j => writebacks_exact invariant allowed c) _ live
    intro write j inside r
    exact unmapped invariant allowed running (by rw [takes c]; exact write) inside r
  · intro c w present
    change w ∈ writes _ (destinations c (inflight (step s.stage i))) at present
    rw [← total,destinations_append,writes_append] at present
    rcases List.mem_append.mp present with kept | new
    · exact flying_kept invariant allowed c kept
    · exact .inr (entering_waits running straight c new)
  · exact committed_kept invariant allowed running

theorem next_ready (invariant : Invariant s) (allowed : Allowed s i) (quiet : dropped s.stage i = []) :
    Invariant (next s i) := by
  cases running : s.stage.exceptionEnable with
  | true => exact rollBack_ready invariant allowed running
  | false =>
      cases straight : doRecover (signals s.stage i) with
      | true => exact recover_ready invariant allowed running straight
      | false => exact settled_ready invariant allowed quiet running straight

theorem reached_ready (reached : Reached (steady ports writebacks) s) : Invariant s :=
  Reached.invariant (m := steady ports writebacks) Invariant reset_ready
    (fun _ _ invariant both => next_ready invariant both.1 both.2) reached

def LiveVersion (rt : RenameTable.State) (v : CheckpointPtr) : Prop :=
  ∃ j ≤ rt.numCheckpoints.val, v = shift rt.versionTail j

theorem live_place (invariant : Invariant s) (c : RegClass) (live : LiveVersion (s.stage.bank c).renameTable v) :
    ∃ j ≤ (marks s.stage).length, v = shift (s.stage.bank c).freeList.versionTail j := by
  obtain ⟨j,inside,rfl⟩ := live
  have rep := invariant.stage.held c
  rw [rep.sameCount,rep.counted] at inside
  exact ⟨j,inside,by rw [rep.sameTail]⟩

theorem captured_ready (invariant : Invariant s) (allowed : Allowed s i) (running : s.stage.exceptionEnable = false)
    (straight : doRecover (signals s.stage i) = false) (c : RegClass) (port : Fin (ports c))
    (used : i.useRs c port = true) :
    ((next s i).stage.bank c).outputs.rdy port =
      (written s c (mapping (s.stage.bank c).renameTable (s.stage.bank c).renameTable.versionHead (i.readSrc c port)) ||
        writtenBack i c
          (mapping (s.stage.bank c).renameTable (s.stage.bank c).renameTable.versionHead (i.readSrc c port))) := by
  have rep := invariant.stage.held c
  have current := rep.current
  rw [← rep.sameHead] at current
  have sound := invariant.ready c _ (Nat.le_refl _) (i.readSrc c port)
  have exact := writebacks_exact invariant allowed c (Nat.le_refl _) (i.readSrc c port)
  rw [← current] at sound exact
  have back : (command (signals s.stage i)).recoverCommit = false := running
  have stay : (command (signals s.stage i)).doRecover = false := straight
  change ((step s.stage i).bank c).outputs.rdy port = _
  rw [step_bank,nextBank,RenameBank.next,nextOutputs_rdy _ back stay]
  change ((s.stage.bank c).renameTable.readyTable (i.readSrc c port) _ || _ || !i.useRs c port) = _
  rw [used,sound,Bool.not_true,Bool.or_false]
  exact exact

theorem ready_exact (reached : Reached (steady ports writebacks) s) (c : RegClass) :
    (∀ v, LiveVersion (s.stage.bank c).renameTable v → ∀ r,
      (s.stage.bank c).renameTable.readyTable r v = written s c (mapping (s.stage.bank c).renameTable v r)) ∧
    ∀ i : RenameStage.Input ports writebacks, Allowed s i → s.stage.exceptionEnable = false →
      doRecover (signals s.stage i) = false → ∀ port, i.useRs c port = true →
      ((next s i).stage.bank c).outputs.rdy port =
        (written s c (mapping (s.stage.bank c).renameTable (s.stage.bank c).renameTable.versionHead (i.readSrc c port)) ||
          writtenBack i c (mapping (s.stage.bank c).renameTable (s.stage.bank c).renameTable.versionHead
            (i.readSrc c port))) := by
  have invariant := reached_ready reached
  refine ⟨?_,fun i allowed running straight port used => captured_ready invariant allowed running straight c port used⟩
  intro v live r
  obtain ⟨j,inside,rfl⟩ := live_place invariant c live
  exact invariant.ready c j inside r

instance (s : State ports) (i : RenameStage.Input ports writebacks) : Decidable ((steady ports writebacks).allowed s i) :=
  decidable_of_iff (Allowed s i ∧ (dropped s.stage i).isEmpty = true)
    ⟨fun both => ⟨both.1,List.isEmpty_iff.mp both.2⟩,fun both => ⟨both.1,List.isEmpty_iff.mpr both.2⟩⟩

def readyAfter (inputs : List (RenameStage.Input (fun _ => 2) (fun _ => 1))) : State (fun _ => 2) := inputs.foldl next reset

-- An atomic memory operation with destination x6 retires one cycle before its
-- writeback, while a jump behind it takes a checkpoint and an addition follows.
def late : List (RenameStage.Input (fun _ => 2) (fun _ => 1)) :=
  [cycle (add 6) false,cycle jalr false,{cycle (add 5) false with retire := 1}]

def arrives (r : Reg) (p : Phreg) : RenameStage.Input (fun _ => 2) (fun _ => 1) :=
  {cycle bubble false with writeback := fun c _ => ⟨decide (c = .int),r,p⟩}

theorem late_reached : Reached (steady (fun _ => 2) (fun _ => 1)) (readyAfter (late ++ [arrives 6 32])) :=
  ⟨late ++ [arrives 6 32],Runs.of_legal (m := steady (fun _ => 2) (fun _ => 1)) (by decide)⟩

theorem ready_exact_late :
    ((readyAfter late).stage.bank .int).renameTable.commitTable 6 = 32 ∧ written (readyAfter late) .int 32 = false ∧
    ((readyAfter (late ++ [arrives 6 32])).stage.bank .int).renameTable.readyTable 6 0 = true ∧
    ((readyAfter (late ++ [arrives 6 32])).stage.bank .int).renameTable.readyTable 6 0 =
      written (readyAfter (late ++ [arrives 6 32])) .int
        (mapping ((readyAfter (late ++ [arrives 6 32])).stage.bank .int).renameTable 0 6) :=
  ⟨by decide,by decide,by decide,
    (ready_exact late_reached .int).1 0 ⟨0,by decide,by decide⟩ 6⟩

-- After the rollback of a run that has lost a register, the register of x2 is given out to x3.
def reissued : List (RenameStage.Input (fun _ => 2) (fun _ => 1)) :=
  slipped (add 1) ++ [cycle (add 2) false,cycle plain false,arrives 2 33,retires 1,{retires 1 with trap := true},
    cycle bubble false,cycle (add 3) false]

theorem reissued_ready : Reached (machine (fun _ => 2) (fun _ => 1)) (readyAfter reissued) ∧
    LiveVersion ((readyAfter reissued).stage.bank .int).renameTable 0 ∧
    ((readyAfter reissued).stage.bank .int).renameTable.readyTable 2 0 = true ∧
    written (readyAfter reissued) .int (mapping ((readyAfter reissued).stage.bank .int).renameTable 0 2) = false :=
  ⟨⟨reissued,Runs.of_legal (m := machine (fun _ => 2) (fun _ => 1)) (by decide +kernel)⟩,⟨0,by decide,by decide +kernel⟩,
    by decide +kernel,by decide +kernel⟩

end Stage

end Sargantana.RenameReady
