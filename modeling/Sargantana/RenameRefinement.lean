import Sargantana.RenameVersions
import Mathlib.Data.Multiset.Fintype

namespace Sargantana.RenameRefinement
open DracPkg FreeList RenameTable RenameBank RenameVersions Renaming Window

-- One live version stands for a prefix of the instructions in flight: its
-- mapping is the committed one with their writes, and they have taken the first
-- registers of the ring.
structure Version (hz : Bool) (fl : FreeList.State) (rt : RenameTable.State) (ds : List Destination)
    (v : CheckpointPtr) : Prop where
  head : fl.head v = shift fl.tail (writes hz ds).length
  count : (fl.numRegisters v).val + (writes hz ds).length = 32
  mapping : mapping rt v = mapAfter rt.commitTable (writes hz ds)

-- No register of the class has been lost: the ring of the free list starts at the
-- shared tail with the registers the instructions in flight hold, all that
-- follows is free, and the ring and the committed table share all registers.
structure Accounted (hz : Bool) (fl : FreeList.State) (rt : RenameTable.State) (ds : List Destination)
    (marks : List (Option Nat)) : Prop where
  versions : ∀ j m, Stands marks ds.length j m → Version hz fl rt (ds.take m) (shift fl.versionTail j)
  short : (writes hz ds).length ≤ 32
  ring : window fl.registerTable fl.tail (writes hz ds).length = (writes hz ds).map (·.cell)
  chained : Chained rt.commitTable (writes hz ds)
  conserved : image rt.commitTable + (window fl.registerTable fl.tail 32 : Multiset Phreg) = Finset.univ.val

-- The refinement of one register class. `ds` are the instructions in flight,
-- oldest first; `marks` says for every checkpoint, oldest first, how many of
-- them it includes. `kept` stands for what keeps all registers accounted for.
structure Represents (kept : Prop) (hz : Bool) (fl : FreeList.State) (rt : RenameTable.State) (ds : List Destination)
    (marks : List (Option Nat)) : Prop extends Tracks hz fl rt ds marks where
  accounted : kept → Accounted hz fl rt ds marks

variable {kept : Prop} {hz : Bool} {fl : FreeList.State} {rt : RenameTable.State} {ds : List Destination}
  {marks : List (Option Nat)} {d : Destination} {v : CheckpointPtr}

namespace Version

theorem freeWindow (version : Version hz fl rt ds v) :
    freeWindow fl v = (window fl.registerTable fl.tail 32).drop (writes hz ds).length := by
  have count := version.count
  rw [window_drop (by omega),FreeList.freeWindow,version.head]
  congr 1
  omega

theorem freeWindow_length (version : Version hz fl rt ds v) :
    (FreeList.freeWindow fl v).length + (writes hz ds).length = 32 := by
  simpa [FreeList.freeWindow] using version.count

theorem source (version : Version hz fl rt (ds.take m) v) (older : k ≤ m) (r : Reg) :
    RenameTable.mapping rt v r = mapAfter rt.commitTable (writes hz (ds.take k)) r ∨
      ∃ w ∈ writes hz (ds.drop k), w.name = r ∧ w.cell = RenameTable.mapping rt v r := by
  have split : ds.take m = ds.take k ++ (ds.drop k).take (m - k) := by
    conv => lhs; rw [← Nat.add_sub_cancel' older,List.take_add]
  rw [version.mapping,split,writes_append,mapAfter_append]
  rcases mapAfter_source (mapAfter rt.commitTable (writes hz (ds.take k)))
    (writes hz ((ds.drop k).take (m - k))) r with same | ⟨w,present,name,cell⟩
  · exact .inl same
  · refine .inr ⟨w,?_,name,cell⟩
    rw [writes_take_drop (m - k)]
    exact List.mem_append_left _ present

theorem retire (version : Version hz fl rt (d :: ds) v) (takes : d.takes hz = true) :
    Version hz (free fl d.oldPrd) (commitPort rt true d.rd d.prd) ds v := by
  obtain ⟨head,count,mapped⟩ := version
  rw [writes_cons_takes takes,List.length_cons] at head count
  rw [writes_cons_takes takes] at mapped
  refine ⟨?_,?_,mapped⟩
  · rw [Nat.add_comm,shift_add] at head
    exact head
  · change (fl.numRegisters v + 1).val + (writes hz ds).length = 32
    omega

theorem skip (version : Version hz fl rt ds v) (same : writes hz ds = writes hz other) : Version hz fl rt other v := by
  obtain ⟨head,count,mapped⟩ := version
  rw [same] at head count mapped
  exact ⟨head,count,mapped⟩

theorem frame (version : Version hz fl rt ds v) {fl' : FreeList.State} {rt' : RenameTable.State}
    (head : fl'.head v = fl.head v) (tail : fl'.tail = fl.tail) (count : fl'.numRegisters v = fl.numRegisters v)
    (mapped : RenameTable.mapping rt' v = RenameTable.mapping rt v) (commit : rt'.commitTable = rt.commitTable) :
    Version hz fl' rt' ds v := by
  refine ⟨?_,?_,?_⟩
  · rw [head,tail,version.head]
  · rw [count,version.count]
  · rw [mapped,commit,version.mapping]

end Version

namespace Accounted

theorem latest (accounted : Accounted hz fl rt ds marks) (current : fl.versionHead = shift fl.versionTail marks.length) :
    Version hz fl rt ds fl.versionHead := by
  have version := accounted.versions _ _ stands_current
  rwa [List.take_length,← current] at version

theorem head_of_takes (accounted : Accounted hz fl rt (d :: ds) marks) (takes : d.takes hz = true) :
    d.oldPrd = rt.commitTable d.rd := by
  have chained := accounted.chained
  rw [writes_cons_takes takes] at chained
  exact chained.1

theorem retire_takes (accounted : Accounted hz fl rt (d :: ds) marks) (kept : ∀ m, some m ∈ marks → 1 ≤ m)
    (takes : d.takes hz = true) :
    Accounted hz (free fl d.oldPrd) (commitPort rt true d.rd d.prd) ds (marks.map (retreat 1)) := by
  have old := accounted.head_of_takes takes
  have ring := accounted.ring
  have chained := accounted.chained
  have short := accounted.short
  rw [writes_cons_takes takes] at ring chained short
  -- the retired register leaves the front of the ring and the freed one is written in its cell
  have whole : window (free fl d.oldPrd).registerTable (free fl d.oldPrd).tail 32 =
      window fl.registerTable (shift fl.tail 1) 31 ++ [d.oldPrd] := by
    have last : shift (shift fl.tail 1) 31 = fl.tail := by rw [← shift_add,shift_ring]
    have pushed : window (Function.update fl.registerTable (shift (shift fl.tail 1) 31) d.oldPrd)
        (shift fl.tail 1) 32 = window fl.registerTable (shift fl.tail 1) 31 ++ [d.oldPrd] :=
      window_push (by decide)
    rwa [last] at pushed
  have front : window fl.registerTable fl.tail 32 =
      fl.registerTable fl.tail :: window fl.registerTable (shift fl.tail 1) 31 := window_cons
  rw [List.length_cons,window_cons,List.map_cons] at ring
  obtain ⟨first,rest⟩ := List.cons.inj ring
  have few : (writes hz ds).length ≤ 31 := Nat.le_of_succ_le_succ short
  refine ⟨?_,by omega,?_,chained.2,?_⟩
  · intro j m stands
    exact Version.retire (accounted.versions j (m + 1) (stands_retired kept stands)) takes
  · rw [← window_take (by omega : (writes hz ds).length ≤ 32),whole,
      List.take_append_of_le_length (by simpa using few),window_take few]
    exact rest
  · rw [whole,← accounted.conserved,front,old,first]
    exact image_put_ring rt.commitTable d.write _

theorem retire_quiet (accounted : Accounted hz fl rt (d :: ds) marks) (kept : ∀ m, some m ∈ marks → 1 ≤ m)
    (quiet : d.takes hz = false) : Accounted hz fl rt ds (marks.map (retreat 1)) := by
  have ring := accounted.ring
  have chained := accounted.chained
  have short := accounted.short
  rw [writes_cons_quiet quiet] at ring chained short
  refine ⟨?_,short,ring,chained,accounted.conserved⟩
  intro j m stands
  exact Version.skip (accounted.versions j (m + 1) (stands_retired kept stands)) (writes_cons_quiet quiet)

theorem rename (accounted : Accounted hz fl rt ds marks) (tracks : Tracks hz fl rt ds marks)
    (room : (writes hz ds).length < 32) (takes : d.takes hz = true)
    (fresh : d.prd = fl.registerTable (fl.head fl.versionHead)) (old : d.oldPrd = mapping rt rt.versionHead d.rd) :
    Accounted hz (FreeList.read fl) (RenameTable.rename rt d.rd d.prd) (ds ++ [d]) marks := by
  have latest := accounted.latest tracks.current
  have count := latest.count
  have last : writes hz (ds ++ [d]) = writes hz ds ++ [d.write] := by
    rw [writes_append,writes_cons_takes takes,writes_nil]
  refine ⟨?_,?_,?_,?_,accounted.conserved⟩
  · intro j m stands
    rw [List.length_append,List.length_singleton] at stands
    rcases stands_cases stands with ⟨inside,here⟩ | ⟨rfl,rfl⟩
    · have apart : shift fl.versionTail j ≠ fl.versionHead := tracks.older inside
      rw [List.take_append_of_le_length (tracks.mark_le here)]
      exact (accounted.versions j m (stands_mark here)).frame (Function.update_of_ne apart _ _) rfl
        (Function.update_of_ne apart _ _) (mapping_rename_other (by rwa [tracks.sameHead])) rfl
    · rw [List.take_of_length_le (by simp)]
      change Version hz (FreeList.read fl) _ _ (shift fl.versionTail marks.length)
      rw [← tracks.current]
      refine ⟨?_,?_,?_⟩
      · rw [last,List.length_append,shift_add]
        simp only [FreeList.read,Function.update_self,latest.head]
        rfl
      · rw [last,List.length_append]
        simp only [FreeList.read,Function.update_self,List.length_singleton]
        omega
      · rw [last,mapAfter_append,← tracks.sameHead,mapping_rename_self,tracks.sameHead,latest.mapping]
        rfl
  · rw [last,List.length_append]
    exact room
  · rw [last,List.length_append,List.map_append,window_add]
    change window fl.registerTable fl.tail _ ++ window fl.registerTable _ _ = _
    rw [accounted.ring]
    simp [window,FreeList.read,Destination.write,fresh,latest.head]
  · rw [last,chained_snoc]
    refine ⟨accounted.chained,?_⟩
    change d.oldPrd = mapAfter rt.commitTable (writes hz ds) d.rd
    rw [← latest.mapping,← tracks.sameHead]
    exact old

theorem pass (accounted : Accounted hz fl rt ds marks) (tracks : Tracks hz fl rt ds marks)
    (none : d.takes hz = false) : Accounted hz fl rt (ds ++ [d]) marks := by
  have last : writes hz (ds ++ [d]) = writes hz ds := by
    rw [writes_append,writes_cons_quiet none,writes_nil,List.append_nil]
  refine ⟨?_,?_,?_,?_,accounted.conserved⟩
  · intro j m stands
    rw [List.length_append,List.length_singleton] at stands
    rcases stands_cases stands with ⟨_,here⟩ | ⟨rfl,rfl⟩
    · rw [List.take_append_of_le_length (tracks.mark_le here)]
      exact accounted.versions j m (stands_mark here)
    · rw [List.take_of_length_le (by simp),← tracks.current]
      exact (accounted.latest tracks.current).skip last.symm
  · rw [last]
    exact accounted.short
  · rw [last]
    exact accounted.ring
  · rw [last]
    exact accounted.chained

theorem takeCheckpoint (accounted : Accounted hz fl rt ds marks) (tracks : Tracks hz fl rt ds marks)
    (room : marks.length < 3) :
    Accounted hz (FreeList.takeCheckpoint fl) (RenameTable.takeCheckpoint rt) ds (marks ++ [some ds.length]) := by
  refine ⟨?_,accounted.short,accounted.ring,accounted.chained,accounted.conserved⟩
  intro j m stands
  rcases stands_snoc stands with before | ⟨rfl,rfl⟩
  · have low : j ≤ marks.length := by
      rcases stands_cases before with ⟨inside,_⟩ | ⟨last,_⟩ <;> omega
    have apart := tracks.apart_new room low
    exact (accounted.versions j m before).frame (Function.update_of_ne apart _ _) rfl
      (Function.update_of_ne apart _ _) (mapping_takeCheckpoint_other (by rw [tracks.sameHead]; exact apart)) rfl
  · change Version hz _ _ _ (shift fl.versionTail (marks.length + 1))
    rw [List.take_length,tracks.following]
    obtain ⟨head,count,mapped⟩ := accounted.latest tracks.current
    refine ⟨?_,?_,?_⟩
    · simpa [FreeList.takeCheckpoint] using head
    · simpa [FreeList.takeCheckpoint] using count
    · rw [← tracks.sameHead,mapping_takeCheckpoint_new,tracks.sameHead]
      exact mapped

theorem deleteOldest (accounted : Accounted hz fl rt ds (m :: marks)) :
    Accounted hz (FreeList.deleteOldest fl) (RenameTable.deleteOldest rt) ds marks := by
  refine ⟨?_,accounted.short,accounted.ring,accounted.chained,accounted.conserved⟩
  intro j k stands
  simp only [FreeList.deleteOldest]
  rw [shift_further]
  exact (accounted.versions (j + 1) k stands).frame rfl rfl rfl rfl rfl

theorem recoverTo {j m : Nat} (accounted : Accounted hz fl rt ds marks) (tracks : Tracks hz fl rt ds marks)
    (found : marks[j]? = some (some m)) :
    Accounted hz (FreeList.recoverTo fl (shift fl.versionTail j)) (RenameTable.recoverTo rt (shift fl.versionTail j))
      (ds.take m) (marks.take j) := by
  have below := tracks.mark_le found
  have total : (ds.take m).length = m := by rw [List.length_take,Nat.min_eq_left below]
  have whole : writes hz ds = writes hz (ds.take m) ++ writes hz (ds.drop m) := writes_take_drop m
  have fits : (writes hz (ds.take m)).length ≤ (writes hz ds).length := writes_take_le m
  refine ⟨?_,by have := accounted.short; omega,?_,?_,accounted.conserved⟩
  · intro i k stands
    rw [total] at stands
    have version := accounted.versions i k (stands_recovered found stands)
    have le : k ≤ m := by
      rcases stands_cases stands with ⟨early,_⟩ | ⟨_,rfl⟩
      · rw [List.length_take] at early
        exact tracks.ordered (by omega) (stands_recovered found stands) (stands_mark found)
      · exact Nat.le_refl _
    rw [List.take_take,Nat.min_eq_left le]
    exact version.frame rfl rfl rfl rfl rfl
  · have front := congrArg (List.take (writes hz (ds.take m)).length) accounted.ring
    rw [window_take fits] at front
    refine front.trans ?_
    rw [whole,List.map_append,List.take_append_of_le_length (by simp)]
    simp
  · have chained := accounted.chained
    rw [whole,chained_append] at chained
    exact chained.1

theorem rollBack (accounted : Accounted hz fl rt ds marks) :
    Accounted hz (FreeList.rollBack fl) (recoverCommitTable rt) [] [] := by
  refine ⟨?_,by simp,rfl,trivial,accounted.conserved⟩
  intro j m stands
  rcases stands_cases stands with ⟨inside,_⟩ | ⟨rfl,rfl⟩
  · cases inside
  · refine ⟨?_,?_,?_⟩
    · simp [FreeList.rollBack]
    · simp [FreeList.rollBack]
    · funext r
      simp [RenameTable.mapping,recoverCommitTable,FreeList.rollBack]

theorem forget (accounted : Accounted hz fl rt ds marks) (forgets : Forgets marks after) :
    Accounted hz fl rt ds after :=
  ⟨fun j m stands => accounted.versions j m (forgets.stands stands),accounted.short,accounted.ring,accounted.chained,
    accounted.conserved⟩

theorem discard (accounted : Accounted hz fl rt ds marks) (tracks : Tracks hz fl rt ds marks)
    (within : ∀ m, some m ∈ marks → m ≤ len) (le : len ≤ ds.length) (nothing : writes hz (ds.drop len) = []) :
    Accounted hz fl rt (ds.take len) marks := by
  have total : (ds.take len).length = len := by rw [List.length_take,Nat.min_eq_left le]
  have same : writes hz (ds.take len) = writes hz ds := by
    conv => rhs; rw [writes_take_drop len,nothing,List.append_nil]
  refine ⟨?_,?_,?_,?_,accounted.conserved⟩
  · intro j m stands
    rw [total] at stands
    rcases stands_cases stands with ⟨_,here⟩ | ⟨rfl,rfl⟩
    · rw [List.take_take,Nat.min_eq_left (within m (List.mem_of_getElem? here))]
      exact accounted.versions j m (stands_mark here)
    · rw [List.take_take,Nat.min_self,← tracks.current]
      exact (accounted.latest tracks.current).skip same.symm
  · rw [same]
    exact accounted.short
  · rw [same]
    exact accounted.ring
  · rw [same]
    exact accounted.chained

end Accounted

namespace Represents

theorem newest (rep : Represents kept hz fl rt ds marks) (still : kept) : Version hz fl rt ds fl.versionHead :=
  (rep.accounted still).latest rep.current

theorem ring_parts (rep : Represents kept hz fl rt ds marks) (still : kept) :
    window fl.registerTable fl.tail 32 = (writes hz ds).map (·.cell) ++ freeWindow fl fl.versionHead := by
  have accounted := rep.accounted still
  rw [(rep.newest still).freeWindow,← accounted.ring,← window_take accounted.short,List.take_append_drop]

-- No register is in two places and none is lost.
theorem conserves (rep : Represents kept hz fl rt ds marks) (still : kept) :
    image (mapping rt fl.versionHead) + olds (writes hz ds) + (freeWindow fl fl.versionHead : Multiset Phreg) =
      Finset.univ.val := by
  have accounted := rep.accounted still
  rw [(rep.newest still).mapping,image_mapAfter accounted.chained,← accounted.conserved,rep.ring_parts still,add_assoc]
  rfl

theorem retire (rep : Represents kept hz fl rt (d :: ds) marks) (older : ∀ m, some m ∈ marks → 1 ≤ m) :
    Represents kept hz (freePort fl (d.we && (!hz || d.oldPrd != 0)) d.oldPrd)
      (commitPort rt (d.takes hz) d.rd d.prd) ds (marks.map (retreat 1)) := by
  rw [rep.frees_eq]
  cases takes : d.takes hz with
  | false => exact ⟨rep.toTracks.retire_quiet older takes,fun still => (rep.accounted still).retire_quiet older takes⟩
  | true => exact ⟨rep.toTracks.retire_takes older takes,fun still => (rep.accounted still).retire_takes older takes⟩

theorem rename (rep : Represents kept hz fl rt ds marks) (room : (writes hz ds).length < 32)
    (takes : d.takes hz = true) (reads : Bool) (some : reads = true → 0 < (fl.numRegisters fl.versionHead).val)
    (none : reads = false → (fl.numRegisters fl.versionHead).val = 0) (nonzero : hz = true → d.prd ≠ 0)
    (given : kept → reads = true ∧ d.prd = fl.registerTable (fl.head fl.versionHead))
    (old : d.oldPrd = mapping rt rt.versionHead d.rd) :
    Represents kept hz (if reads then FreeList.read fl else fl) (RenameTable.rename rt d.rd d.prd) (ds ++ [d]) marks := by
  refine ⟨rep.toTracks.rename room takes reads some none nonzero old,?_⟩
  intro still
  obtain ⟨rfl,fresh⟩ := given still
  exact (rep.accounted still).rename rep.toTracks room takes fresh old

theorem pass (rep : Represents kept hz fl rt ds marks) (none : d.takes hz = false)
    (old : d.oldPrd = mapping rt rt.versionHead d.rd) : Represents kept hz fl rt (ds ++ [d]) marks :=
  ⟨rep.toTracks.pass none old,fun still => (rep.accounted still).pass rep.toTracks none⟩

theorem takeCheckpoint (rep : Represents kept hz fl rt ds marks) (room : marks.length < 3) :
    Represents kept hz (FreeList.takeCheckpoint fl) (RenameTable.takeCheckpoint rt) ds (marks ++ [some ds.length]) :=
  ⟨rep.toTracks.takeCheckpoint room,fun still => (rep.accounted still).takeCheckpoint rep.toTracks room⟩

theorem deleteOldest (rep : Represents kept hz fl rt ds (m :: marks)) :
    Represents kept hz (FreeList.deleteOldest fl) (RenameTable.deleteOldest rt) ds marks :=
  ⟨rep.toTracks.deleteOldest,fun still => (rep.accounted still).deleteOldest⟩

theorem recoverTo {j m : Nat} (rep : Represents kept hz fl rt ds marks) (found : marks[j]? = some (some m)) :
    Represents kept hz (FreeList.recoverTo fl (shift fl.versionTail j))
      (RenameTable.recoverTo rt (shift fl.versionTail j)) (ds.take m) (marks.take j) :=
  ⟨rep.toTracks.recoverTo found,fun still => (rep.accounted still).recoverTo rep.toTracks found⟩

theorem rollBack (rep : Represents kept hz fl rt ds marks) :
    Represents kept hz (FreeList.rollBack fl) (recoverCommitTable rt) [] [] :=
  ⟨rep.toTracks.rollBack,fun still => (rep.accounted still).rollBack⟩

theorem writeBack (rep : Represents kept hz fl rt ds marks) (i : RenameTable.Input ports writebacks) :
    Represents kept hz fl (RenameTable.writeBack rt i) ds marks := by
  refine ⟨rep.toTracks.writeBack i,?_⟩
  intro still
  have accounted := rep.accounted still
  exact ⟨fun j m stands => (accounted.versions j m stands).frame rfl rfl rfl rfl rfl,accounted.short,accounted.ring,
    accounted.chained,accounted.conserved⟩

theorem forget (rep : Represents kept hz fl rt ds marks) (forgets : Forgets marks after) :
    Represents kept hz fl rt ds after :=
  ⟨rep.toTracks.forget forgets,fun still => (rep.accounted still).forget forgets⟩

theorem discard (rep : Represents kept hz fl rt ds marks) (within : ∀ m, some m ∈ marks → m ≤ len)
    (le : len ≤ ds.length) (nothing : kept → writes hz (ds.drop len) = []) :
    Represents kept hz fl rt (ds.take len) marks :=
  ⟨rep.toTracks.discard within le,fun still => (rep.accounted still).discard rep.toTracks within le (nothing still)⟩

-- checkpoint_o is no part of what the tables stand for.
theorem labelled (rep : Represents kept hz fl rt ds marks) (c : CheckpointPtr) :
    Represents kept hz {fl with checkpoint := c} rt ds marks := by
  refine ⟨⟨rep.sameHead,rep.sameTail,rep.sameCount,rep.counted,rep.few,rep.current,rep.ordered,?_,?_⟩,?_⟩
  · exact fun j m stands => (rep.bounded j m stands).frame rfl rfl rfl
  · intro hard
    obtain ⟨ring,table,commit,flying⟩ := rep.nonzero hard
    exact ⟨ring,table,commit,flying⟩
  · intro still
    have accounted := rep.accounted still
    exact ⟨fun j m stands => (accounted.versions j m stands).frame rfl rfl rfl rfl rfl,accounted.short,accounted.ring,
      accounted.chained,accounted.conserved⟩

end Represents

end Sargantana.RenameRefinement
