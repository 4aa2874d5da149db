import Sargantana.RenameRefinement

namespace Sargantana.RenameCycle
open DracPkg FreeList RenameTable RenameBank RenameVersions RenameRefinement Renaming Window

variable {ports writebacks : Nat} {kept : Prop} {hz : Bool} {b : Bank ports} {i : RenameBank.Input ports writebacks}
  {ds new : List Destination} {marks : List (Option Nat)} {k : Nat}

-- The commit ports carry the k oldest instructions in flight.
structure Retiring (ds : List Destination) (i : RenameBank.Input ports writebacks) (k : Nat) : Prop where
  two : k ≤ 2
  present : ∀ port : Fin 2, port.val < k → ds[port.val]? = some (i.commit port)
  enabled : ∀ port : Fin 2, i.commitUpdate port = (decide (port.val < k) && (i.commit port).we)

def Holds (kept : Prop) (hz : Bool) (b : Bank ports) (ds : List Destination) (marks : List (Option Nat)) : Prop :=
  Represents kept hz b.freeList b.renameTable ds marks

theorem Retiring.single (retiring : Retiring ds i 1) : ∃ rest, ds = i.commit 0 :: rest := by
  have first := retiring.present 0 (by decide)
  cases ds with
  | nil => cases first
  | cons d rest => exact ⟨rest,by simpa using first⟩

theorem Retiring.double (retiring : Retiring ds i 2) : ∃ rest, ds = i.commit 0 :: i.commit 1 :: rest := by
  have first := retiring.present 0 (by decide)
  have second := retiring.present 1 (by decide)
  match ds with
  | [] => cases first
  | [_] => cases second
  | _ :: _ :: rest =>
      refine ⟨rest,?_⟩
      simp at first second
      rw [first,second]

theorem Retiring.commits (retiring : Retiring ds i k) (back : i.command.recoverCommit = false) (port : Fin 2) :
    commitWriteEnable hz (renameTableInput hz b i) port =
      (decide (port.val < k) && (i.commit port).takes hz) := by
  simp [commitWriteEnable,renameTableInput,retiring.enabled,back,Destination.takes,Bool.and_assoc]

theorem Retiring.frees (retiring : Retiring ds i k) (back : i.command.recoverCommit = false) (port : Fin 2) :
    FreeList.writeEnable (!hz) (freeListInput hz i) port =
      (decide (port.val < k) && ((i.commit port).we && (!hz || (i.commit port).oldPrd != 0))) := by
  simp [FreeList.writeEnable,freeListInput,retiring.enabled,back,Bool.and_assoc]

theorem retired (rep : Represents kept hz fl rt ds marks) (retiring : Retiring ds i k)
    (older : ∀ m, some m ∈ marks → k ≤ m) (back : i.command.recoverCommit = false) :
    Represents kept hz (freed (!hz) fl (freeListInput hz i)) (committed hz rt (renameTableInput hz b i))
      (ds.drop k) (marks.map (retreat k)) := by
  simp only [freed,committed,retiring.frees back,retiring.commits back]
  match k, retiring.two with
  | 0, _ =>
      have same : marks.map (retreat 0) = marks := by
        conv => rhs; rw [← List.map_id marks]
        congr 1
        funext mark
        cases mark <;> rfl
      rw [same]
      simpa [freePort,commitPort] using rep
  | 1, _ =>
      obtain ⟨rest,rfl⟩ := retiring.single
      have first := rep.retire older
      simpa [freePort,commitPort,freeListInput,renameTableInput] using first
  | 2, _ =>
      obtain ⟨rest,rfl⟩ := retiring.double
      have first := rep.retire fun m inside => Nat.le_of_succ_le (older m inside)
      have second := first.retire (retreat_le older)
      rw [retreat_retreat] at second
      simpa [freePort,commitPort,freeListInput,renameTableInput] using second

theorem freedRegisters_eq (rep : Represents kept hz fl rt ds marks) (retiring : Retiring ds i k)
    (older : ∀ m, some m ∈ marks → k ≤ m) (back : i.command.recoverCommit = false) :
    freedRegisters (!hz) (freeListInput hz i) = (writes hz (ds.take k)).map (·.old) := by
  simp only [freedRegisters,retiring.frees back]
  match k, retiring.two with
  | 0, _ => simp
  | 1, _ =>
      obtain ⟨rest,rfl⟩ := retiring.single
      rw [rep.frees_eq]
      cases takes : (i.commit 0).takes hz <;> simp [writes,takes,freeListInput,Destination.write]
  | 2, _ =>
      obtain ⟨rest,rfl⟩ := retiring.double
      have first := rep.retire fun m inside => Nat.le_of_succ_le (older m inside)
      rw [rep.frees_eq,first.frees_eq]
      cases one : (i.commit 0).takes hz <;> cases two : (i.commit 1).takes hz <;>
        simp [writes,one,two,freeListInput,Destination.write]

theorem freed_version (rep : Represents kept hz fl rt ds marks) (retiring : Retiring ds i k)
    (kept : ∀ m, some m ∈ marks → k ≤ m) (back : i.command.recoverCommit = false)
    (bounded : Bounded hz fl (ds.take m) v) (older : k ≤ m) :
    freeWindow (freed (!hz) fl (freeListInput hz i)) v = freeWindow fl v ++ (writes hz (ds.take k)).map (·.old) := by
  have released := freedRegisters_eq rep retiring kept back
  rw [← released]
  apply freeWindow_freed bounded.ends
  rw [released,List.length_map]
  have room := bounded.room
  have split : ds.take m = ds.take k ++ (ds.drop k).take (m - k) := by
    conv => lhs; rw [← Nat.add_sub_cancel' older,List.take_add]
  rw [split,writes_append,List.length_append] at room
  omega

theorem rollBack_cycle (rep : Holds kept hz b ds marks) (back : i.command.recoverCommit = true) :
    Holds kept hz (RenameBank.next hz b i) [] [] := by
  unfold Holds RenameBank.next
  rw [FreeList.next_rollBack (by simpa [freeListInput] using back),
    RenameTable.next_recoverCommit (by simpa [renameTableInput] using back)]
  exact Represents.rollBack rep

theorem rollBack_commit (back : i.command.recoverCommit = true) :
    (RenameBank.next hz b i).renameTable.commitTable = b.renameTable.commitTable := by
  unfold RenameBank.next
  rw [RenameTable.next_recoverCommit (by simpa [renameTableInput] using back)]
  rfl

theorem recover_cycle {j m : Nat} (rep : Holds kept hz b ds marks) (retiring : Retiring ds i k)
    (older : ∀ m, some m ∈ marks → k ≤ m)
    (back : i.command.recoverCommit = false) (recover : i.command.doRecover = true)
    (alone : i.command.deleteCheckpoint = false) (found : marks[j]? = some (some m))
    (named : i.command.recoverCheckpoint = shift b.freeList.versionTail j) :
    Holds kept hz (RenameBank.next hz b i) ((ds.drop k).take (m - k)) ((marks.map (retreat k)).take j) := by
  have shared := retired (b := b) (Represents.writeBack rep (renameTableInput hz b i)) retiring older back
  have position : (marks.map (retreat k))[j]? = some (some (m - k)) := by simp [found,retreat]
  have recovered := shared.recoverTo position
  unfold Holds RenameBank.next
  rw [FreeList.next_recover (by simpa [freeListInput] using back) (by simpa [freeListInput] using recover)
      (by simpa [freeListInput] using alone),
    RenameTable.next_recover (by simpa [renameTableInput] using back) (by simpa [renameTableInput] using recover)
      (by simpa [renameTableInput] using alone)]
  apply Represents.labelled
  have tail : (freed (!hz) b.freeList (freeListInput hz i)).versionTail = b.freeList.versionTail := by
    rw [freed_eq]
  rw [tail,← named] at recovered
  exact recovered

theorem count_positive (count : Fin 64) (small : count.val ≤ 32) (w0 w1 : Bool) :
    (decide (0 < count) || w0 || w1) = decide (0 < (count + bit w0 + bit w1).val) := by
  have sum : (count + bit w0 + bit w1).val = count.val + w0.toNat + w1.toNat := by
    cases w0 <;> cases w1 <;> simp only [bit_false,bit_true,Bool.toNat_false,Bool.toNat_true,add_zero] <;> omega
  rw [sum,Bool.eq_iff_iff,Bool.or_eq_true,Bool.or_eq_true,decide_eq_true_iff,decide_eq_true_iff]
  change (0 < count.val ∨ _) ∨ _ ↔ _
  cases w0 <;> cases w1 <;> simp only [Bool.toNat_false,Bool.toNat_true,Bool.false_eq_true,or_false,or_true,true_iff] <;>
    omega

-- Registers freed in the cycle can be read in it, and only then is a list with none left read.
theorem reads_eq (rep : Holds kept hz b ds marks) (back : i.command.recoverCommit = false)
    (recover : i.command.doRecover = false) (takes : (i.write && (!hz || i.rd != 0)) = true) :
    FreeList.readEnable (!hz) b.freeList (freeListInput hz i) =
      decide (0 < ((freed (!hz) b.freeList (freeListInput hz i)).numRegisters b.freeList.versionHead).val) := by
  have room := rep.latest.room
  have ready : (freeListInput hz i).readHead = true := takes
  rw [freed_eq]
  simp only [FreeList.readEnable,ready,Bool.true_and,show (freeListInput hz i).doRecover = false from recover,
    show (freeListInput hz i).commitRollBack = false from back,Bool.not_false,Bool.and_true]
  exact count_positive _ (by omega) _ _

theorem freeRegisterToRename_eq (rep : Holds kept hz b ds marks)
    (shared : Represents kept hz (freed (!hz) b.freeList (freeListInput hz i)) rt (ds.drop k) remaining)
    (reads : FreeList.readEnable (!hz) b.freeList (freeListInput hz i) = true) :
    freeRegisterToRename hz b i = (freed (!hz) b.freeList (freeListInput hz i)).registerTable
      ((freed (!hz) b.freeList (freeListInput hz i)).head b.freeList.versionHead) := by
  have before := rep.latest.room
  have after := shared.latest.room
  rw [freed_versionHead] at after
  refine newRegister_freed rep.latest.ends ?_ reads
  rw [freed_eq] at after
  simp only at after
  generalize FreeList.writeEnable (!hz) (freeListInput hz i) 0 = w0 at after ⊢
  generalize FreeList.writeEnable (!hz) (freeListInput hz i) 1 = w1 at after ⊢
  cases w0 <;> cases w1 <;> simp at after ⊢ <;> omega

theorem renamed_oldPrd (back : i.command.recoverCommit = false) (recover : i.command.doRecover = false) :
    (renamed hz b i).oldPrd = mapping b.renameTable b.renameTable.versionHead i.rd := by
  simp [renamed,RenameBank.next,nextOutputs,RenameTable.readEnable,renameTableInput,back,recover,mapping]

-- Unless registers have been lost one is left.
theorem reads_kept (rep : Holds kept hz b ds marks)
    (shared : Represents kept hz (freed (!hz) b.freeList (freeListInput hz i)) rt (ds.drop k) remaining)
    (room : (writes hz (ds.drop k)).length < 32) (back : i.command.recoverCommit = false)
    (recover : i.command.doRecover = false) (takes : (i.write && (!hz || i.rd != 0)) = true) (still : kept) :
    FreeList.readEnable (!hz) b.freeList (freeListInput hz i) = true := by
  have count := (shared.newest still).count
  rw [freed_versionHead] at count
  rw [reads_eq rep back recover takes]
  simp only [decide_eq_true_eq]
  omega

theorem rename_step (rep : Holds kept hz b ds marks)
    (shared : Represents kept hz (freed (!hz) b.freeList (freeListInput hz i))
      (committed hz (writeBack b.renameTable (renameTableInput hz b i)) (renameTableInput hz b i)) (ds.drop k) remaining)
    (room : (i.write && (!hz || i.rd != 0)) = true → (writes hz (ds.drop k)).length < 32)
    (served : hz = true → (i.write && (!hz || i.rd != 0)) = true →
      FreeList.readEnable (!hz) b.freeList (freeListInput hz i) = true)
    (back : i.command.recoverCommit = false) (recover : i.command.doRecover = false)
    (shape : (new = [] ∧ i.write = false) ∨ new = [renamed hz b i]) :
    Represents kept hz
      (if FreeList.readEnable (!hz) b.freeList (freeListInput hz i) then FreeList.read (freed (!hz) b.freeList (freeListInput hz i))
        else freed (!hz) b.freeList (freeListInput hz i))
      (if RenameTable.writeEnable hz (renameTableInput hz b i) then
        RenameTable.rename (committed hz (writeBack b.renameTable (renameTableInput hz b i)) (renameTableInput hz b i))
          i.rd (freeRegisterToRename hz b i)
        else committed hz (writeBack b.renameTable (renameTableInput hz b i)) (renameTableInput hz b i))
      (ds.drop k ++ new) remaining := by
  have writes : RenameTable.writeEnable hz (renameTableInput hz b i) = (i.write && (!hz || i.rd != 0)) := by
    simp [RenameTable.writeEnable,renameTableInput,back,recover]
  have old : (renamed hz b i).oldPrd = mapping
      (committed hz (writeBack b.renameTable (renameTableInput hz b i)) (renameTableInput hz b i))
      (committed hz (writeBack b.renameTable (renameTableInput hz b i)) (renameTableInput hz b i)).versionHead i.rd := by
    rw [renamed_oldPrd back recover,committed_eq]
    rfl
  rw [writes]
  cases takes : i.write && (!hz || i.rd != 0) with
  | false =>
      have quiet : FreeList.readEnable (!hz) b.freeList (freeListInput hz i) = false := by
        simp [FreeList.readEnable,freeListInput,takes]
      rw [quiet]
      rcases shape with ⟨rfl,_⟩ | rfl
      · simpa using shared
      · exact shared.pass (d := renamed hz b i) takes old
  | true =>
      have reads := reads_eq rep back recover takes
      rcases shape with ⟨_,none⟩ | rfl
      · simp [none] at takes
      · refine shared.rename (d := renamed hz b i) (room takes) takes
          (FreeList.readEnable (!hz) b.freeList (freeListInput hz i)) ?_ ?_ ?_ ?_ old
        · intro some
          rw [reads,decide_eq_true_eq] at some
          rwa [freed_versionHead]
        · intro none
          rw [reads,decide_eq_false_iff_not] at none
          rw [freed_versionHead]
          omega
        · intro hard
          have cell := freeRegisterToRename_eq rep shared (served hard takes)
          change freeRegisterToRename hz b i ≠ 0
          rw [cell]
          exact (shared.nonzero hard).ring _
        · intro still
          have given := reads_kept rep shared (room takes) back recover takes still
          refine ⟨given,?_⟩
          rw [freed_versionHead]
          exact freeRegisterToRename_eq rep shared given

theorem checkpoint_step (rep : Represents kept hz fl rt ds marks) (few : taken = true → marks.length < 3) :
    Represents kept hz (if taken then FreeList.takeCheckpoint fl else fl)
      (if taken then RenameTable.takeCheckpoint rt else rt) ds (marks ++ if taken then [some ds.length] else []) := by
  cases taken with
  | false => simpa using rep
  | true => simpa using rep.takeCheckpoint (few rfl)

theorem delete_step (rep : Represents kept hz fl rt ds marks) (oldest : delete = true → marks ≠ []) :
    Represents kept hz (if delete then FreeList.deleteOldest fl else fl)
      (if delete then RenameTable.deleteOldest rt else rt) ds (marks.drop delete.toNat) := by
  cases delete with
  | false => simpa using rep
  | true =>
      cases marks with
      | nil => exact absurd rfl (oldest rfl)
      | cons m rest => simpa using rep.deleteOldest

def marksAfter (command : Command) (marks : List (Option Nat)) (k len : Nat) : List (Option Nat) :=
  (marks.map (retreat k) ++ if command.doCheckpoint && decide (marks.length < 3) then [some len] else []).drop
    command.deleteCheckpoint.toNat

theorem live_before {command : Command} (some : command.deleteCheckpoint = true → marks ≠ [])
    (inside : j ≤ (marksAfter command marks k len).length) :
    command.deleteCheckpoint.toNat + j ≤ marks.length ∨
      (command.deleteCheckpoint.toNat + j = marks.length + 1 ∧ command.doCheckpoint = true ∧ marks.length < 3) := by
  have positive : command.deleteCheckpoint.toNat ≤ marks.length := by
    cases delete : command.deleteCheckpoint with
    | false => exact Nat.zero_le _
    | true => exact List.length_pos_iff.mpr (some delete)
  rw [marksAfter,List.length_drop,List.length_append,List.length_map] at inside
  split at inside
  · rename_i taken
    simp only [Bool.and_eq_true,decide_eq_true_eq] at taken
    simp only [List.length_singleton] at inside
    by_cases before : command.deleteCheckpoint.toNat + j ≤ marks.length
    · exact .inl before
    · exact .inr ⟨by omega,taken⟩
  · simp only [List.length_nil] at inside
    exact .inl (by omega)

theorem settled_cycle (rep : Holds kept hz b ds marks) (retiring : Retiring ds i k)
    (older : ∀ m, some m ∈ marks → k ≤ m)
    (room : (i.write && (!hz || i.rd != 0)) = true → (writes hz (ds.drop k)).length < 32)
    (served : hz = true → (i.write && (!hz || i.rd != 0)) = true →
      FreeList.readEnable (!hz) b.freeList (freeListInput hz i) = true)
    (back : i.command.recoverCommit = false) (recover : i.command.doRecover = false)
    (shape : (new = [] ∧ i.write = false) ∨ new = [renamed hz b i])
    (oldest : i.command.deleteCheckpoint = true → marks ≠ []) :
    Holds kept hz (RenameBank.next hz b i) (ds.drop k ++ new)
      (marksAfter i.command marks k (ds.drop k ++ new).length) := by
  have shared := retired (b := b) (Represents.writeBack rep (renameTableInput hz b i)) retiring older back
  have counted := rep.counted
  have takesFree : FreeList.checkpointEnable b.freeList (freeListInput hz i) =
      (i.command.doCheckpoint && decide (marks.length < 3)) := by
    simp [FreeList.checkpointEnable,freeListInput,back,recover,counted,DracPkg.numCheckpoints]
  have takesTable : RenameTable.checkpointEnable b.renameTable (renameTableInput hz b i) =
      (i.command.doCheckpoint && decide (marks.length < 3)) := by
    simp [RenameTable.checkpointEnable,renameTableInput,back,recover,rep.sameCount,counted,
      DracPkg.numCheckpoints]
  unfold Holds RenameBank.next
  rw [FreeList.next_settled (by simpa [freeListInput] using back) (by simpa [freeListInput] using recover),
    RenameTable.next_settled (by simpa [renameTableInput] using back) (by simpa [renameTableInput] using recover)]
  apply Represents.labelled
  unfold FreeList.settled RenameTable.settled
  simp only [takesFree,takesTable]
  apply delete_step
  · apply checkpoint_step
    · exact rename_step rep shared room served back recover shape
    · simp
  · intro delete
    simp [oldest delete]

theorem checkpoint_cycle {j m : Nat} (rep : Holds kept hz b ds marks) (retiring : Retiring ds i k)
    (older : ∀ m, some m ∈ marks → k ≤ m)
    (back : i.command.recoverCommit = false) (found : marks[j]? = some (some m)) :
    mapping (RenameBank.next hz b i).renameTable (shift b.freeList.versionTail j) =
      mapping b.renameTable (shift b.freeList.versionTail j) ∧
    freeWindow (RenameBank.next hz b i).freeList (shift b.freeList.versionTail j) =
      freeWindow b.freeList (shift b.freeList.versionTail j) ++ (writes hz (ds.take k)).map (·.old) := by
  obtain ⟨inside,_⟩ := List.getElem?_eq_some_iff.mp found
  have apart := rep.older inside
  have room : ∀ {count : Fin 8}, count = b.freeList.numCheckpoints →
      (i.command.doCheckpoint && decide (count.val < DracPkg.numCheckpoints - 1) && !i.command.doRecover &&
        !i.command.recoverCommit) = true → marks.length < 3 := by
    rintro _ rfl taken
    simp only [Bool.and_eq_true,decide_eq_true_eq,rep.counted,DracPkg.numCheckpoints] at taken
    exact taken.1.1.2
  refine ⟨?_,?_⟩
  · apply RenameTable.next_mapping back
    intro _
    rw [rep.sameHead]
    exact ⟨apart,fun taken => rep.apart_new (room rep.sameCount taken) (Nat.le_of_lt inside)⟩
  · rw [← freed_version rep retiring older back (rep.bounded j m (stands_mark found))
      (older m (List.mem_of_getElem? found))]
    apply FreeList.next_freeWindow back
    intro _
    exact ⟨apart,fun taken => rep.apart_new (room rfl taken) (Nat.le_of_lt inside)⟩

theorem commitPort_commitTable (rt : RenameTable.State) (d : Destination) :
    (commitPort rt (d.takes hz) d.rd d.prd).commitTable = mapAfter rt.commitTable (writes hz [d]) := by
  cases takes : d.takes hz with
  | false => simp [commitPort,writes_cons_quiet takes]
  | true =>
      rw [writes_cons_takes takes]
      rfl

theorem next_commitTable (back : i.command.recoverCommit = false) :
    (RenameBank.next hz b i).renameTable.commitTable =
      (committed hz b.renameTable (renameTableInput hz b i)).commitTable := by
  rw [committed_eq]
  simp only [RenameBank.next,RenameTable.next]
  rw [if_neg (by simp [renameTableInput,back])]

theorem commit_cycle (retiring : Retiring ds i k) (back : i.command.recoverCommit = false) :
    (RenameBank.next hz b i).renameTable.commitTable = mapAfter b.renameTable.commitTable (writes hz (ds.take k)) := by
  rw [next_commitTable back]
  simp only [committed,retiring.commits back]
  have two := retiring.two
  obtain rfl | rfl | rfl : k = 0 ∨ k = 1 ∨ k = 2 := by omega
  · simp [commitPort]
  · obtain ⟨rest,rfl⟩ := retiring.single
    rw [List.take_succ_cons,List.take_zero,← commitPort_commitTable]
    rfl
  · obtain ⟨rest,rfl⟩ := retiring.double
    have both : (i.commit 0 :: i.commit 1 :: rest).take 2 = [i.commit 0] ++ [i.commit 1] := rfl
    rw [both,writes_append,mapAfter_append,← commitPort_commitTable,← commitPort_commitTable]
    rfl

theorem allocated_free (rep : Holds kept hz b ds marks) (still : kept) (retiring : Retiring ds i k)
    (older : ∀ m, some m ∈ marks → k ≤ m) (room : (writes hz (ds.drop k)).length < 32)
    (back : i.command.recoverCommit = false) (recover : i.command.doRecover = false)
    (takes : (i.write && (!hz || i.rd != 0)) = true) :
    ∃ rest, freeWindow (freed (!hz) b.freeList (freeListInput hz i)) b.freeList.versionHead =
        freeRegisterToRename hz b i :: rest ∧
      image (mapping b.renameTable b.freeList.versionHead) + olds (writes hz (ds.drop k)) +
        ((freeRegisterToRename hz b i :: rest : List Phreg) : Multiset Phreg) = Finset.univ.val := by
  have shared := retired (b := b) (Represents.writeBack rep (renameTableInput hz b i)) retiring older back
  have fresh := freeRegisterToRename_eq rep shared (reads_kept rep shared room back recover takes still)
  have conserves := shared.conserves still
  have count := (shared.newest still).count
  rw [freed_versionHead] at conserves count
  have front : freeWindow (freed (!hz) b.freeList (freeListInput hz i)) b.freeList.versionHead =
      freeRegisterToRename hz b i :: window (freed (!hz) b.freeList (freeListInput hz i)).registerTable
        (shift ((freed (!hz) b.freeList (freeListInput hz i)).head b.freeList.versionHead) 1)
        (((freed (!hz) b.freeList (freeListInput hz i)).numRegisters b.freeList.versionHead).val - 1) := by
    rw [fresh,← window_cons,freeWindow]
    congr 1
    omega
  refine ⟨_,front,?_⟩
  rw [← front,← conserves,committed_eq]
  rfl

theorem allocated_unused (rep : Holds kept hz b ds marks) (still : kept) (retiring : Retiring ds i k)
    (older : ∀ m, some m ∈ marks → k ≤ m) (room : (writes hz (ds.drop k)).length < 32)
    (back : i.command.recoverCommit = false) (recover : i.command.doRecover = false)
    (takes : (i.write && (!hz || i.rd != 0)) = true) :
    freeRegisterToRename hz b i ∉ image (mapping b.renameTable b.freeList.versionHead) + olds (writes hz (ds.drop k)) ∧
      freeRegisterToRename hz b i ∉ image (RenameBank.next hz b i).renameTable.commitTable +
        cells (writes hz (ds.drop k)) := by
  obtain ⟨rest,_,whole⟩ := allocated_free rep still retiring older room back recover takes
  have nodup := (Finset.univ : Finset Phreg).nodup
  rw [← whole,Multiset.nodup_add] at nodup
  have absent : freeRegisterToRename hz b i ∉ image (mapping b.renameTable b.freeList.versionHead) +
      olds (writes hz (ds.drop k)) := by
    intro present
    exact Multiset.disjoint_left.mp nodup.2.2 present (by simp)
  refine ⟨absent,?_⟩
  have shared := retired (b := b) (Represents.writeBack rep (renameTableInput hz b i)) retiring older back
  have moved := image_mapAfter (shared.accounted still).chained
  rw [← (shared.newest still).mapping,freed_versionHead] at moved
  rw [committed_eq] at moved
  rw [next_commitTable back,committed_eq]
  intro present
  apply absent
  have same : image (mapping b.renameTable b.freeList.versionHead) + olds (writes hz (ds.drop k)) =
      image (commitAfter hz b.renameTable (renameTableInput hz b i)) + cells (writes hz (ds.drop k)) := moved
  rw [same]
  exact present

end Sargantana.RenameCycle
