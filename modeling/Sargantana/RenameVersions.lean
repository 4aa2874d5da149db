import Sargantana.RenameBank
import Sargantana.Lib.Renaming
import Mathlib.Data.List.Forall2

-- What the free list and the rename table of one class keep in every run, also
-- after registers have been lost: the ring of versions, and where the registers
-- of each version that can still become current end.
namespace Sargantana.RenameVersions
open DracPkg FreeList RenameTable RenameBank Renaming Window

def writes (hz : Bool) (ds : List Destination) : List (Write Reg Phreg) :=
  (ds.filter (·.takes hz)).map (·.write)

-- Version j, counted from the oldest checkpoint, stands for the first m of the
-- instructions in flight. The current version stands for all of them; a
-- checkpoint without a branch in flight stands for none and is marked none.
def Stands (marks : List (Option Nat)) (len j m : Nat) : Prop := (marks ++ [some len])[j]? = some (some m)

def retreat (k : Nat) (mark : Option Nat) : Option Nat := mark.map (· - k)

-- The registers a version still has to give out end at the shared tail, and there
-- is room for those its instructions will free.
structure Bounded (hz : Bool) (fl : FreeList.State) (ds : List Destination) (v : CheckpointPtr) : Prop where
  ends : shift (fl.head v) (fl.numRegisters v).val = fl.tail
  room : (fl.numRegisters v).val + (writes hz ds).length ≤ 32

-- In a hardwired class register 0 and only register 0 is mapped to register 0.
structure Nonzero (fl : FreeList.State) (rt : RenameTable.State) (ds : List Destination) : Prop where
  ring : ∀ e, fl.registerTable e ≠ 0
  table : ∀ r v, rt.registerTable r v = 0 ↔ r = 0
  commit : ∀ r, rt.commitTable r = 0 ↔ r = 0
  flying : ∀ d ∈ ds, d.we = true → (d.oldPrd = 0 ↔ d.rd = 0) ∧ (d.rd ≠ 0 → d.prd ≠ 0)

structure Tracks (hz : Bool) (fl : FreeList.State) (rt : RenameTable.State) (ds : List Destination)
    (marks : List (Option Nat)) : Prop where
  sameHead : rt.versionHead = fl.versionHead
  sameTail : rt.versionTail = fl.versionTail
  sameCount : rt.numCheckpoints = fl.numCheckpoints
  counted : fl.numCheckpoints.val = marks.length
  few : marks.length ≤ 3
  current : fl.versionHead = shift fl.versionTail marks.length
  ordered : ∀ {j k m n}, j ≤ k → Stands marks ds.length j m → Stands marks ds.length k n → m ≤ n
  bounded : ∀ j m, Stands marks ds.length j m → Bounded hz fl (ds.take m) (shift fl.versionTail j)
  nonzero : hz = true → Nonzero fl rt ds

variable {hz : Bool} {fl : FreeList.State} {rt : RenameTable.State} {ds : List Destination}
  {marks : List (Option Nat)} {d : Destination} {v : CheckpointPtr}

@[simp] theorem writes_nil : writes hz [] = [] := rfl

theorem writes_append (one two : List Destination) : writes hz (one ++ two) = writes hz one ++ writes hz two := by
  simp [writes]

theorem writes_cons_takes (takes : d.takes hz = true) : writes hz (d :: ds) = d.write :: writes hz ds := by
  simp [writes,takes]

theorem writes_cons_quiet (quiet : d.takes hz = false) : writes hz (d :: ds) = writes hz ds := by
  simp [writes,quiet]

theorem writes_take_drop (m : Nat) : writes hz ds = writes hz (ds.take m) ++ writes hz (ds.drop m) := by
  rw [← writes_append,List.take_append_drop]

theorem writes_length_le : (writes hz ds).length ≤ ds.length := by
  simpa [writes] using List.length_filter_le _ ds

theorem writes_take_le (m : Nat) : (writes hz (ds.take m)).length ≤ (writes hz ds).length := by
  have whole : writes hz ds = writes hz (ds.take m) ++ writes hz (ds.drop m) := writes_take_drop m
  rw [whole,List.length_append]
  omega

theorem writes_name (hard : hz = true) (present : w ∈ writes hz ds) : w.name ≠ 0 := by
  simp only [writes,List.mem_map,List.mem_filter] at present
  obtain ⟨d,⟨_,takes⟩,rfl⟩ := present
  simpa [Destination.takes,Destination.write,hard] using (Bool.and_eq_true_iff.mp takes).2

theorem shift_ring (start : FreeListEntry) : shift start 32 = start := by
  apply Fin.ext
  rw [shift_val,Nat.add_mod_right,Nat.mod_eq_of_lt start.isLt]

theorem stands_cases (stands : Stands marks len j m) :
    (j < marks.length ∧ marks[j]? = some (some m)) ∨ (j = marks.length ∧ m = len) := by
  unfold Stands at stands
  by_cases inside : j < marks.length
  · rw [List.getElem?_append_left inside] at stands
    exact .inl ⟨inside,stands⟩
  · have last : j = marks.length := by
      obtain ⟨bound,_⟩ := List.getElem?_eq_some_iff.mp stands
      simp at bound
      omega
    subst last
    right
    simpa using stands.symm

theorem stands_current : Stands marks len marks.length len := by simp [Stands]

theorem stands_mark (found : marks[j]? = some (some m)) : Stands marks len j m := by
  obtain ⟨inside,_⟩ := List.getElem?_eq_some_iff.mp found
  rw [Stands,List.getElem?_append_left inside,found]

theorem stands_retired (kept : ∀ m, some m ∈ marks → k ≤ m) (stands : Stands (marks.map (retreat k)) len j m) :
    Stands marks (len + k) j (m + k) := by
  rcases stands_cases stands with ⟨_,here⟩ | ⟨rfl,rfl⟩
  · simp only [List.getElem?_map,Option.map_eq_some_iff,retreat] at here
    obtain ⟨_,before,n,rfl,rfl⟩ := here
    have large := kept n (List.mem_of_getElem? before)
    rw [Nat.sub_add_cancel large]
    exact stands_mark before
  · rw [List.length_map]
    exact stands_current

theorem stands_snoc (stands : Stands (marks ++ [some len]) len j m) :
    Stands marks len j m ∨ (j = marks.length + 1 ∧ m = len) := by
  rcases stands_cases stands with ⟨_,here⟩ | ⟨last,same⟩
  · exact .inl here
  · exact .inr ⟨by simpa using last,same⟩

theorem stands_recovered (found : marks[j]? = some (some m)) (stands : Stands (marks.take j) m i k) :
    Stands marks len i k := by
  obtain ⟨inside,_⟩ := List.getElem?_eq_some_iff.mp found
  rcases stands_cases stands with ⟨early,here⟩ | ⟨last,rfl⟩
  · rw [List.getElem?_take] at here
    split at here
    · exact stands_mark here
    · cases here
  · rw [List.length_take,Nat.min_eq_left (Nat.le_of_lt inside)] at last
    rw [last]
    exact stands_mark found

theorem retreat_retreat (marks : List (Option Nat)) (a b : Nat) :
    (marks.map (retreat a)).map (retreat b) = marks.map (retreat (a + b)) := by
  simp only [List.map_map]
  congr 1
  funext mark
  cases mark <;> simp [retreat,Nat.sub_sub]

theorem retreat_le (kept : ∀ m, some m ∈ marks → k + l ≤ m) : ∀ m, some m ∈ marks.map (retreat k) → l ≤ m := by
  intro m inside
  simp only [List.mem_map,retreat,Option.map_eq_some_iff] at inside
  obtain ⟨_,before,n,rfl,rfl⟩ := inside
  have large := kept n before
  omega

-- A list of marks that says less of the same versions
def Forgets (before after : List (Option Nat)) : Prop := List.Forall₂ (fun old new => new = none ∨ new = old) before after

theorem Forgets.found {j m : Nat} (forgets : Forgets before after) (found : after[j]? = some (some m)) :
    before[j]? = some (some m) := by
  obtain ⟨inside,here⟩ := List.getElem?_eq_some_iff.mp found
  have bound : j < before.length := by
    rw [List.Forall₂.length_eq forgets]
    exact inside
  have same := List.Forall₂.get forgets bound inside
  simp only [List.get_eq_getElem,here] at same
  rcases same with none | same
  · cases none
  · rw [List.getElem?_eq_getElem bound,← same]

theorem Forgets.stands (forgets : Forgets before after) (stands : Stands after len j m) : Stands before len j m := by
  rcases stands_cases stands with ⟨_,here⟩ | ⟨rfl,rfl⟩
  · exact stands_mark (forgets.found here)
  · rw [← List.Forall₂.length_eq forgets]
    exact stands_current

theorem Bounded.retire (bounded : Bounded hz fl (d :: ds) v) (takes : d.takes hz = true) :
    Bounded hz (free fl p) ds v := by
  obtain ⟨ends,room⟩ := bounded
  rw [writes_cons_takes takes,List.length_cons] at room
  refine ⟨ends_free ends (by omega),?_⟩
  change (fl.numRegisters v + 1).val + (writes hz ds).length ≤ 32
  omega

theorem Bounded.frame (bounded : Bounded hz fl ds v) {fl' : FreeList.State} (head : fl'.head v = fl.head v)
    (tail : fl'.tail = fl.tail) (count : fl'.numRegisters v = fl.numRegisters v) : Bounded hz fl' ds v := by
  refine ⟨?_,?_⟩
  · rw [head,tail,count,bounded.ends]
  · rw [count]
    exact bounded.room

theorem recoveredCount_shift (tail : CheckpointPtr) (small : j < 4) :
    (recoveredCount (shift tail j) tail).val = j := by
  have cases : ∀ j : Fin 4, (recoveredCount (shift tail j.val) tail).val = j.val := by
    revert tail
    decide
  exact cases ⟨j,small⟩

theorem shift_further (tail : CheckpointPtr) (j : Nat) : shift (tail + 1) j = shift tail (j + 1) := by
  rw [Nat.add_comm,shift_add]
  rfl

theorem writes_snoc (takes : d.takes hz = true) : (writes hz (ds ++ [d])).length = (writes hz ds).length + 1 := by
  rw [writes_append,writes_cons_takes takes,writes_nil,List.length_append,List.length_singleton]

-- A register of the version is given out.
theorem Bounded.give (bounded : Bounded hz fl ds fl.versionHead) (takes : d.takes hz = true)
    (some : 0 < (fl.numRegisters fl.versionHead).val) : Bounded hz (read fl) (ds ++ [d]) fl.versionHead := by
  have room := bounded.room
  refine ⟨?_,?_⟩
  · have split : (fl.numRegisters fl.versionHead).val = 1 + (fl.numRegisters fl.versionHead - 1).val := by omega
    change _ = fl.tail
    rw [← bounded.ends]
    simp only [FreeList.read,Function.update_self]
    conv => rhs; rw [split,shift_add]
    rfl
  · rw [writes_snoc takes]
    simp only [FreeList.read,Function.update_self]
    omega

-- An empty list gives out 0.
theorem Bounded.pass (bounded : Bounded hz fl ds v) (takes : d.takes hz = true) (none : (fl.numRegisters v).val = 0)
    (room : (writes hz ds).length < 32) : Bounded hz fl (ds ++ [d]) v := by
  refine ⟨bounded.ends,?_⟩
  rw [writes_snoc takes]
  omega

theorem Nonzero.rename (nonzero : Nonzero fl rt ds) (other : d.rd ≠ 0) (fresh : d.prd ≠ 0)
    (old : d.oldPrd = mapping rt rt.versionHead d.rd) : Nonzero fl (RenameTable.rename rt d.rd d.prd) (ds ++ [d]) := by
  obtain ⟨ring,table,commit,flying⟩ := nonzero
  refine ⟨ring,?_,commit,?_⟩
  · intro r w
    simp only [RenameTable.rename,setEntry]
    split
    · rename_i same
      rw [same.1]
      simp [fresh,other]
    · exact table r w
  · intro x present we
    rcases List.mem_append.mp present with before | new
    · exact flying x before we
    · rw [List.mem_singleton.mp new,old]
      exact ⟨table d.rd rt.versionHead,fun _ => fresh⟩

namespace Tracks

theorem latest (tracks : Tracks hz fl rt ds marks) : Bounded hz fl ds fl.versionHead := by
  have bounded := tracks.bounded _ _ stands_current
  rwa [List.take_length,← tracks.current] at bounded

theorem older (tracks : Tracks hz fl rt ds marks) (inside : j < marks.length) :
    shift fl.versionTail j ≠ fl.versionHead := by
  rw [tracks.current]
  intro same
  have few := tracks.few
  have equal := shift_inj (by omega) (by omega) same
  omega

theorem mark_le {j m : Nat} (tracks : Tracks hz fl rt ds marks) (found : marks[j]? = some (some m)) :
    m ≤ ds.length := by
  obtain ⟨inside,_⟩ := List.getElem?_eq_some_iff.mp found
  exact tracks.ordered (Nat.le_of_lt inside) (stands_mark found) stands_current

theorem frees_eq (tracks : Tracks hz fl rt (d :: ds) marks) :
    (d.we && (!hz || d.oldPrd != 0)) = d.takes hz := by
  cases we : d.we with
  | false => simp [Destination.takes,we]
  | true =>
      cases hz with
      | false => simp [Destination.takes,we]
      | true =>
          have same := ((tracks.nonzero rfl).flying d (by simp) we).1
          by_cases zero : d.rd = 0
          · simp [Destination.takes,we,zero,same.mpr zero]
          · simp [Destination.takes,we,bne_iff_ne.mpr zero,bne_iff_ne.mpr (mt same.mp zero)]

theorem retire_takes (tracks : Tracks hz fl rt (d :: ds) marks) (kept : ∀ m, some m ∈ marks → 1 ≤ m)
    (takes : d.takes hz = true) :
    Tracks hz (free fl d.oldPrd) (commitPort rt true d.rd d.prd) ds (marks.map (retreat 1)) := by
  refine ⟨tracks.sameHead,tracks.sameTail,tracks.sameCount,?_,?_,?_,?_,?_,?_⟩
  · rw [List.length_map]
    exact tracks.counted
  · rw [List.length_map]
    exact tracks.few
  · rw [List.length_map]
    exact tracks.current
  · intro j k m n le one two
    have below := tracks.ordered le (stands_retired kept one) (stands_retired kept two)
    omega
  · intro j m stands
    have bounded := tracks.bounded j (m + 1) (stands_retired kept stands)
    exact bounded.retire takes
  · intro hard
    obtain ⟨ring,table,commit,flying⟩ := tracks.nonzero hard
    simp only [Destination.takes,hard,Bool.not_true,Bool.false_or,Bool.and_eq_true,bne_iff_ne] at takes
    obtain ⟨we,other⟩ := takes
    obtain ⟨old,new⟩ := flying d (by simp) we
    refine ⟨?_,table,?_,fun x present => flying x (List.mem_cons_of_mem _ present)⟩
    · intro e
      change Function.update fl.registerTable fl.tail d.oldPrd e ≠ 0
      by_cases here : e = fl.tail
      · subst here
        simpa using mt old.mp other
      · simpa [here] using ring e
    · intro r
      change Function.update rt.commitTable d.rd d.prd r = 0 ↔ r = 0
      by_cases here : r = d.rd
      · subst here
        simp [new other,other]
      · simpa [here] using commit r

theorem retire_quiet (tracks : Tracks hz fl rt (d :: ds) marks) (kept : ∀ m, some m ∈ marks → 1 ≤ m)
    (quiet : d.takes hz = false) : Tracks hz fl rt ds (marks.map (retreat 1)) := by
  refine ⟨tracks.sameHead,tracks.sameTail,tracks.sameCount,?_,?_,?_,?_,?_,?_⟩
  · rw [List.length_map]
    exact tracks.counted
  · rw [List.length_map]
    exact tracks.few
  · rw [List.length_map]
    exact tracks.current
  · intro j k m n le one two
    have below := tracks.ordered le (stands_retired kept one) (stands_retired kept two)
    omega
  · intro j m stands
    obtain ⟨ends,room⟩ := tracks.bounded j (m + 1) (stands_retired kept stands)
    rw [List.take_succ_cons,writes_cons_quiet quiet] at room
    exact ⟨ends,room⟩
  · intro hard
    obtain ⟨ring,table,commit,flying⟩ := tracks.nonzero hard
    exact ⟨ring,table,commit,fun x present => flying x (List.mem_cons_of_mem _ present)⟩

theorem ordered_snoc (tracks : Tracks hz fl rt ds marks) {j k m n : Nat} (le : j ≤ k)
    (one : Stands marks (ds.length + 1) j m) (two : Stands marks (ds.length + 1) k n) : m ≤ n := by
  rcases stands_cases one with ⟨inside,first⟩ | ⟨rfl,rfl⟩
  · rcases stands_cases two with ⟨_,second⟩ | ⟨_,rfl⟩
    · exact tracks.ordered le (stands_mark first) (stands_mark second)
    · exact Nat.le_succ_of_le (tracks.mark_le first)
  · rcases stands_cases two with ⟨inside,_⟩ | ⟨_,rfl⟩
    · omega
    · exact Nat.le_refl _

-- A read finds a register; an empty list of a class that is not hardwired gives out 0.
theorem rename (tracks : Tracks hz fl rt ds marks) (room : (writes hz ds).length < 32)
    (takes : d.takes hz = true) (reads : Bool) (some : reads = true → 0 < (fl.numRegisters fl.versionHead).val)
    (none : reads = false → (fl.numRegisters fl.versionHead).val = 0)
    (fresh : hz = true → d.prd ≠ 0) (old : d.oldPrd = mapping rt rt.versionHead d.rd) :
    Tracks hz (if reads then read fl else fl) (RenameTable.rename rt d.rd d.prd) (ds ++ [d]) marks := by
  have shared : (if reads then read fl else fl).versionHead = fl.versionHead ∧
      (if reads then read fl else fl).versionTail = fl.versionTail ∧
      (if reads then read fl else fl).numCheckpoints = fl.numCheckpoints ∧
      (if reads then read fl else fl).tail = fl.tail ∧
      (if reads then read fl else fl).registerTable = fl.registerTable := by
    cases reads <;> simp [FreeList.read]
  obtain ⟨head,tail,count,ringTail,ring⟩ := shared
  refine ⟨?_,?_,?_,?_,tracks.few,?_,?_,?_,?_⟩
  · rw [head]
    exact tracks.sameHead
  · rw [tail]
    exact tracks.sameTail
  · rw [count]
    exact tracks.sameCount
  · rw [count]
    exact tracks.counted
  · rw [head,tail]
    exact tracks.current
  · intro j k m n le one two
    rw [List.length_append,List.length_singleton] at one two
    exact tracks.ordered_snoc le one two
  · intro j m stands
    rw [tail]
    rw [List.length_append,List.length_singleton] at stands
    rcases stands_cases stands with ⟨inside,here⟩ | ⟨rfl,rfl⟩
    · have apart : shift fl.versionTail j ≠ fl.versionHead := tracks.older inside
      rw [List.take_append_of_le_length (tracks.mark_le here)]
      apply (tracks.bounded j m (stands_mark here)).frame _ ringTail
      · cases reads <;> simp [FreeList.read,apart]
      · cases reads <;> simp [FreeList.read,apart]
    · rw [← tracks.current,List.take_of_length_le (by simp)]
      cases reads with
      | false => exact tracks.latest.pass takes (none rfl) room
      | true => exact tracks.latest.give takes (some rfl)
  · intro hard
    have other : d.rd ≠ 0 := by
      simp only [Destination.takes,hard,Bool.not_true,Bool.false_or,Bool.and_eq_true,bne_iff_ne] at takes
      exact takes.2
    obtain ⟨kept,table,commit,flying⟩ := (tracks.nonzero hard).rename other (fresh hard) old
    exact ⟨by rwa [ring],table,commit,flying⟩

theorem pass (tracks : Tracks hz fl rt ds marks) (none : d.takes hz = false)
    (old : d.oldPrd = mapping rt rt.versionHead d.rd) : Tracks hz fl rt (ds ++ [d]) marks := by
  have last : writes hz (ds ++ [d]) = writes hz ds := by
    rw [writes_append,writes_cons_quiet none,writes_nil,List.append_nil]
  refine ⟨tracks.sameHead,tracks.sameTail,tracks.sameCount,tracks.counted,tracks.few,tracks.current,?_,?_,?_⟩
  · intro j k m n le one two
    rw [List.length_append,List.length_singleton] at one two
    exact tracks.ordered_snoc le one two
  · intro j m stands
    rw [List.length_append,List.length_singleton] at stands
    rcases stands_cases stands with ⟨_,here⟩ | ⟨rfl,rfl⟩
    · rw [List.take_append_of_le_length (tracks.mark_le here)]
      exact tracks.bounded j m (stands_mark here)
    · rw [← tracks.current,List.take_of_length_le (by simp)]
      obtain ⟨ends,room⟩ := tracks.latest
      exact ⟨ends,by rwa [last]⟩
  · intro hard
    obtain ⟨ring,table,commit,flying⟩ := tracks.nonzero hard
    refine ⟨ring,table,commit,?_⟩
    intro x present we
    rcases List.mem_append.mp present with before | new
    · exact flying x before we
    · have same := List.mem_singleton.mp new
      rw [same] at we ⊢
      have zero : d.rd = 0 := by simpa [Destination.takes,hard,we] using none
      rw [old]
      exact ⟨table d.rd rt.versionHead,fun other => absurd zero other⟩

theorem following (tracks : Tracks hz fl rt ds marks) :
    shift fl.versionTail (marks.length + 1) = fl.versionHead + 1 := by
  rw [shift_add,← tracks.current]
  rfl

theorem apart_new (tracks : Tracks hz fl rt ds marks) (room : marks.length < 3) (inside : j ≤ marks.length) :
    shift fl.versionTail j ≠ fl.versionHead + 1 := by
  intro same
  have equal := shift_inj (by omega) (by omega) (same.trans tracks.following.symm)
  omega

theorem takeCheckpoint (tracks : Tracks hz fl rt ds marks) (room : marks.length < 3) :
    Tracks hz (FreeList.takeCheckpoint fl) (RenameTable.takeCheckpoint rt) ds (marks ++ [some ds.length]) := by
  have counted := tracks.counted
  refine ⟨?_,tracks.sameTail,?_,?_,?_,?_,?_,?_,?_⟩
  · simp only [RenameTable.takeCheckpoint,FreeList.takeCheckpoint,tracks.sameHead]
  · simp only [RenameTable.takeCheckpoint,FreeList.takeCheckpoint,tracks.sameCount]
  · simp only [FreeList.takeCheckpoint,List.length_append,List.length_singleton]
    omega
  · rw [List.length_append]
    exact room
  · rw [List.length_append]
    exact tracks.following.symm
  · intro j k m n le one two
    rcases stands_snoc one with before | ⟨here,rfl⟩
    · rcases stands_snoc two with later | ⟨_,rfl⟩
      · exact tracks.ordered le before later
      · rcases stands_cases before with ⟨_,found⟩ | ⟨_,rfl⟩
        · exact tracks.mark_le found
        · exact Nat.le_refl _
    · rcases stands_snoc two with later | ⟨_,rfl⟩
      · rcases stands_cases later with ⟨inside,_⟩ | ⟨last,_⟩ <;> omega
      · exact Nat.le_refl _
  · intro j m stands
    rcases stands_snoc stands with before | ⟨rfl,rfl⟩
    · have low : j ≤ marks.length := by
        rcases stands_cases before with ⟨inside,_⟩ | ⟨last,_⟩ <;> omega
      have apart := tracks.apart_new room low
      exact (tracks.bounded j m before).frame (Function.update_of_ne apart _ _) rfl (Function.update_of_ne apart _ _)
    · change Bounded hz (FreeList.takeCheckpoint fl) _ (shift fl.versionTail (marks.length + 1))
      rw [List.take_length,tracks.following]
      obtain ⟨ends,latest⟩ := tracks.latest
      refine ⟨?_,?_⟩
      · simpa [FreeList.takeCheckpoint] using ends
      · simpa [FreeList.takeCheckpoint] using latest
  · intro hard
    obtain ⟨ring,table,commit,flying⟩ := tracks.nonzero hard
    refine ⟨ring,?_,commit,flying⟩
    intro r w
    simp only [RenameTable.takeCheckpoint,copyVersion]
    split
    · exact table r _
    · exact table r w

theorem deleteOldest (tracks : Tracks hz fl rt ds (m :: marks)) :
    Tracks hz (FreeList.deleteOldest fl) (RenameTable.deleteOldest rt) ds marks := by
  have counted := tracks.counted
  have few := tracks.few
  simp only [List.length_cons] at counted few
  refine ⟨tracks.sameHead,?_,?_,?_,by omega,?_,?_,?_,?_⟩
  · simp only [RenameTable.deleteOldest,FreeList.deleteOldest,tracks.sameTail]
  · simp only [RenameTable.deleteOldest,FreeList.deleteOldest,tracks.sameCount]
  · simp only [FreeList.deleteOldest]
    omega
  · simp only [FreeList.deleteOldest]
    rw [shift_further]
    exact tracks.current
  · intro j k _ _ le one two
    exact tracks.ordered (Nat.succ_le_succ le) one two
  · intro j n stands
    simp only [FreeList.deleteOldest]
    rw [shift_further]
    exact (tracks.bounded (j + 1) n stands).frame rfl rfl rfl
  · intro hard
    obtain ⟨ring,table,commit,flying⟩ := tracks.nonzero hard
    exact ⟨ring,table,commit,flying⟩

theorem recoverTo (tracks : Tracks hz fl rt ds marks) (found : marks[j]? = some (some m)) :
    Tracks hz (FreeList.recoverTo fl (shift fl.versionTail j)) (RenameTable.recoverTo rt (shift fl.versionTail j))
      (ds.take m) (marks.take j) := by
  have few := tracks.few
  have below := tracks.mark_le found
  obtain ⟨inside,_⟩ := List.getElem?_eq_some_iff.mp found
  have length : (marks.take j).length = j := by
    rw [List.length_take]
    omega
  have total : (ds.take m).length = m := by rw [List.length_take,Nat.min_eq_left below]
  refine ⟨rfl,tracks.sameTail,?_,?_,by omega,?_,?_,?_,?_⟩
  · simp only [RenameTable.recoverTo,FreeList.recoverTo,tracks.sameTail]
  · rw [length]
    exact recoveredCount_shift _ (by omega)
  · rw [length]
    rfl
  · intro i k _ _ le one two
    rw [total] at one two
    exact tracks.ordered le (stands_recovered found one) (stands_recovered found two)
  · intro i k stands
    rw [total] at stands
    have bounded := tracks.bounded i k (stands_recovered found stands)
    have le : k ≤ m := by
      rcases stands_cases stands with ⟨early,_⟩ | ⟨_,rfl⟩
      · exact tracks.ordered (by omega) (stands_recovered found stands) (stands_mark found)
      · exact Nat.le_refl _
    rw [List.take_take,Nat.min_eq_left le]
    exact bounded.frame rfl rfl rfl
  · intro hard
    obtain ⟨ring,table,commit,flying⟩ := tracks.nonzero hard
    exact ⟨ring,table,commit,fun x present => flying x (List.mem_of_mem_take present)⟩

theorem rollBack (tracks : Tracks hz fl rt ds marks) :
    Tracks hz (FreeList.rollBack fl) (recoverCommitTable rt) [] [] := by
  refine ⟨rfl,rfl,rfl,rfl,by simp,by simp [FreeList.rollBack],?_,?_,?_⟩
  · intro j k m n _ one two
    rcases stands_cases one with ⟨inside,_⟩ | ⟨_,rfl⟩
    · cases inside
    · exact Nat.zero_le _
  · intro j m stands
    rcases stands_cases stands with ⟨inside,_⟩ | ⟨rfl,rfl⟩
    · cases inside
    · refine ⟨?_,?_⟩
      · simp only [FreeList.rollBack,List.length_nil,shift_zero,Function.update_self]
        exact shift_ring _
      · simp [FreeList.rollBack]
  · intro hard
    obtain ⟨ring,table,commit,_⟩ := tracks.nonzero hard
    refine ⟨ring,?_,commit,by simp⟩
    intro r v
    simp only [recoverCommitTable]
    split
    · exact commit r
    · exact table r v

theorem writeBack (tracks : Tracks hz fl rt ds marks) (i : RenameTable.Input ports writebacks) :
    Tracks hz fl (RenameTable.writeBack rt i) ds marks := by
  refine ⟨tracks.sameHead,tracks.sameTail,tracks.sameCount,tracks.counted,tracks.few,tracks.current,tracks.ordered,
    tracks.bounded,?_⟩
  intro hard
  obtain ⟨ring,table,commit,flying⟩ := tracks.nonzero hard
  exact ⟨ring,table,commit,flying⟩

theorem forget (tracks : Tracks hz fl rt ds marks) (forgets : Forgets marks after) : Tracks hz fl rt ds after := by
  refine ⟨tracks.sameHead,tracks.sameTail,tracks.sameCount,?_,?_,?_,?_,?_,tracks.nonzero⟩
  · rw [← List.Forall₂.length_eq forgets]
    exact tracks.counted
  · rw [← List.Forall₂.length_eq forgets]
    exact tracks.few
  · rw [← List.Forall₂.length_eq forgets]
    exact tracks.current
  · exact fun le one two => tracks.ordered le (forgets.stands one) (forgets.stands two)
  · exact fun j m stands => tracks.bounded j m (forgets.stands stands)

theorem discard (tracks : Tracks hz fl rt ds marks) (within : ∀ m, some m ∈ marks → m ≤ len) (le : len ≤ ds.length) :
    Tracks hz fl rt (ds.take len) marks := by
  have total : (ds.take len).length = len := by rw [List.length_take,Nat.min_eq_left le]
  refine ⟨tracks.sameHead,tracks.sameTail,tracks.sameCount,tracks.counted,tracks.few,tracks.current,?_,?_,?_⟩
  · intro j k m n before one two
    rw [total] at one two
    rcases stands_cases one with ⟨_,first⟩ | ⟨here,rfl⟩
    · rcases stands_cases two with ⟨_,second⟩ | ⟨_,rfl⟩
      · exact tracks.ordered before (stands_mark first) (stands_mark second)
      · exact within m (List.mem_of_getElem? first)
    · rcases stands_cases two with ⟨inside,_⟩ | ⟨_,rfl⟩
      · omega
      · exact Nat.le_refl _
  · intro j m stands
    rw [total] at stands
    rcases stands_cases stands with ⟨_,here⟩ | ⟨rfl,rfl⟩
    · rw [List.take_take,Nat.min_eq_left (within m (List.mem_of_getElem? here))]
      exact tracks.bounded j m (stands_mark here)
    · obtain ⟨ends,room⟩ := tracks.latest
      rw [← tracks.current,List.take_take,Nat.min_self]
      have fewer : (writes hz (ds.take m)).length ≤ (writes hz ds).length := writes_take_le m
      exact ⟨ends,by omega⟩
  · intro hard
    obtain ⟨ring,table,commit,flying⟩ := tracks.nonzero hard
    exact ⟨ring,table,commit,fun x present => flying x (List.mem_of_mem_take present)⟩

end Tracks

end Sargantana.RenameVersions
