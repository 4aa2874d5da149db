import Sargantana.CsrInterface
import Sargantana.Lib.StateMachine

namespace Sargantana.GraduationRefinement
open DracPkg GraduationList StateMachine Window

variable {α : Type}

-- The list that the graduation list is for: instructions in program order, each
-- with the knowledge whether it is finished.
structure Slot (α : Type) where
  instr : Instr α
  finished : Bool

def slot (cell : Cell α) : Slot α := ⟨cell.entry.instr,cell.validBit⟩

def contents (s : State α) : List (Slot α) := (window s.cells s.head s.num.val).map slot

def finish (slot : Slot α) : Slot α := {slot with finished := true}

-- A flush cuts off what is younger than the position it names.
def cut (flush : Option Nat) (list : List β) : List β :=
  match flush with
  | some k => list.take (k + 1)
  | none => list

-- One cycle of the list. Writebacks and the flush name positions from the oldest.
def listNext (list : List (Slot α)) (push : Option (Slot α)) (finished : List Nat) (read : Nat)
    (flush : Option Nat) (clear : Bool) : List (Slot α) :=
  let marked := finished.foldl (fun l k => l.modify k finish) (list ++ push.toList)
  if clear then [] else (cut flush marked).drop read

def finishedAges (s : State α) (i : GraduationList.Input α) : List Nat :=
  (i.writebacks.filter (·.enable)).map fun w => age s.head w.index

def flushAge (s : State α) (i : GraduationList.Input α) : Option Nat :=
  if i.flush then some (age s.head i.flushIndex) else none

def pushOf (list : List (Slot α)) (i : GraduationList.Input α) : Option (Slot α) :=
  if i.instruction.instr.valid && decide (list.length < 31) && !i.flush && !i.flushCommit then
    some ⟨i.instruction.instr,isStoreOrAmo i.instruction || i.instruction.status.exValid || i.isVectorVl0⟩
  else none

-- The graduation list beside the list it should be.
structure Tracked (α : Type) where
  gl : State α
  list : List (Slot α)

def trackedNext (t : Tracked α) (i : GraduationList.Input α) : Tracked α :=
  ⟨next t.gl i,listNext t.list (pushOf t.list i) (finishedAges t.gl i) (readEnable i) (flushAge t.gl i) i.flushCommit⟩

-- Only presented entries retire, and a branch flush names a live entry.
structure Presented (s : State α) (i : GraduationList.Input α) : Prop where
  retired : ∀ port, i.readHead port = true → (instructionO s i port).isSome = true
  together : i.readHead 1 = true → i.readHead 0 = true
  flushed : i.flush = true → age s.head i.flushIndex < s.num.val

-- A cycle that flushes retires nothing younger than the flushing branch.
def Bounded (s : State α) (i : GraduationList.Input α) : Prop :=
  i.flush = true → readEnable i ≤ age s.head i.flushIndex + 1

instance (s : State α) (i : GraduationList.Input α) : Decidable (Presented s i) :=
  decidable_of_iff ((∀ port, i.readHead port = true → (instructionO s i port).isSome = true) ∧
      (i.readHead 1 = true → i.readHead 0 = true) ∧ (i.flush = true → age s.head i.flushIndex < s.num.val))
    ⟨fun h => ⟨h.1,h.2.1,h.2.2⟩,fun h => ⟨h.retired,h.together,h.flushed⟩⟩

instance (s : State α) (i : GraduationList.Input α) : Decidable (Bounded s i) :=
  inferInstanceAs (Decidable (_ → _))

def unbounded (zero : Cell α) : Machine (Tracked α) (GraduationList.Input α) :=
  ⟨⟨reset zero,[]⟩,fun t i => Presented t.gl i,trackedNext⟩

def machine (zero : Cell α) : Machine (Tracked α) (GraduationList.Input α) :=
  ⟨⟨reset zero,[]⟩,fun t i => Presented t.gl i ∧ Bounded t.gl i,trackedNext⟩

instance (zero : Cell α) (t : Tracked α) (i : GraduationList.Input α) : Decidable ((unbounded zero).allowed t i) :=
  inferInstanceAs (Decidable (Presented t.gl i))

instance (zero : Cell α) (t : Tracked α) (i : GraduationList.Input α) : Decidable ((machine zero).allowed t i) :=
  inferInstanceAs (Decidable (Presented t.gl i ∧ Bounded t.gl i))

structure Valid (s : State α) : Prop where
  tail : s.tail = shift s.head s.num.val
  room : s.num.val ≤ 31

variable {s : State α} {i : GraduationList.Input α}

theorem window_writeBack (before now : GlIndex → Cell α) (w : Writeback) (full : len ≤ 32) :
    (window (writeBack before now w) head len).map slot =
      (([w].filter (·.enable)).map fun w => age head w.index).foldl (fun l k => l.modify k finish)
        ((window now head len).map slot) := by
  cases enable : w.enable with
  | false => simp [writeBack,enable]
  | true =>
      have written : writeBack before now w = Function.update now w.index ⟨⟨(now w.index).entry.instr,
          Status.writeBack w.port w (before w.index).entry.status (now w.index).entry.status⟩,true⟩ := by
        simp [writeBack,enable]
      rw [written,window_modify slot finish full rfl]
      simp [enable]

theorem window_writeBacks (before : GlIndex → Cell α) (writebacks : List Writeback) (full : len ≤ 32)
    (now : GlIndex → Cell α) :
    (window (writebacks.foldl (writeBack before) now) head len).map slot =
      ((writebacks.filter (·.enable)).map fun w => age head w.index).foldl (fun l k => l.modify k finish)
        ((window now head len).map slot) := by
  induction writebacks generalizing now with
  | nil => rfl
  | cons w rest ih =>
      have one := @window_writeBack _ _ head before now w full
      rw [List.foldl_cons,ih _,one]
      cases enable : w.enable <;> simp [enable]

theorem contents_length : (contents s).length = s.num.val := by simp [contents]

theorem window_pushed (valid : Valid s) :
    (window (pushed s i) s.head (s.num.val + (writeEnable s i).toNat)).map slot =
      contents s ++ (pushOf (contents s) i).toList := by
  have room := valid.room
  have same : pushOf (contents s) i = if writeEnable s i then
      some ⟨i.instruction.instr,isStoreOrAmo i.instruction || i.instruction.status.exValid || i.isVectorVl0⟩
      else none := by
    rw [pushOf,contents_length,writeEnable]
  rw [same]
  cases push : writeEnable s i with
  | false => simp [pushed,push,contents]
  | true =>
      simp only [pushed,push,if_true,Bool.toNat_true]
      rw [valid.tail,window_push (by omega)]
      simp [contents,slot]

theorem window_next (valid : Valid s) :
    (window (nextCells s i) s.head (s.num.val + (writeEnable s i).toNat)).map slot =
      (finishedAges s i).foldl (fun l k => l.modify k finish) (contents s ++ (pushOf (contents s) i).toList) := by
  have room := valid.room
  have few : (writeEnable s i).toNat ≤ 1 := Bool.toNat_le _
  rw [← window_pushed valid]
  exact window_writeBacks _ _ (by omega) _

theorem first_parts (shown : instructionO s i 0 = some e) :
    i.flushCommit = false ∧ 0 < s.num.val ∧ (s.cells s.head).validBit = true ∧ e = (s.cells s.head).entry := by
  unfold instructionO at shown
  cases clear : i.flushCommit with
  | true => simp [clear] at shown
  | false =>
      simp only [clear,Bool.false_eq_true,if_false] at shown
      split at shown
      · rename_i one
        simp only [Bool.or_eq_true,Bool.and_eq_true,decide_eq_true_eq] at one
        simp only [if_true,Option.some.injEq] at shown
        rcases one with ⟨single,first⟩ | ⟨⟨several,first⟩,_⟩
        · exact ⟨rfl,by omega,first,shown.symm⟩
        · exact ⟨rfl,by omega,first,shown.symm⟩
      · split at shown
        · rename_i two
          simp only [Bool.and_eq_true,decide_eq_true_eq] at two
          simp only [if_true,Option.some.injEq] at shown
          exact ⟨rfl,by omega,two.1.2,shown.symm⟩
        · cases shown

theorem second_parts (shown : instructionO s i 1 = some e) :
    1 < s.num.val ∧ (s.cells s.head).validBit = true ∧ (s.cells (s.head + 1)).validBit = true ∧
      e = (s.cells (s.head + 1)).entry ∧ instructionO s i 0 = some (s.cells s.head).entry := by
  unfold instructionO at shown ⊢
  cases clear : i.flushCommit with
  | true => simp [clear] at shown
  | false =>
      simp only [clear,Bool.false_eq_true,if_false] at shown ⊢
      split at shown
      · simp at shown
      · split at shown
        · rename_i single two
          simp only [Bool.and_eq_true,decide_eq_true_eq] at two
          rw [if_neg single]
          simp only [Fin.one_eq_zero_iff,Nat.reduceEqDiff,if_false,Option.some.injEq] at shown
          exact ⟨by omega,two.1.2,two.2,shown.symm,by simp [two]⟩
        · cases shown

theorem read_le (presented : Presented s i) : readEnable i ≤ s.num.val := by
  unfold readEnable
  cases two : i.readHead 1 with
  | true =>
      obtain ⟨e,shown⟩ := Option.isSome_iff_exists.mp (presented.retired 1 two)
      have several := (second_parts shown).1
      have one := Bool.toNat_le (i.readHead 0)
      simp only [Bool.toNat_true]
      omega
  | false =>
      cases one : i.readHead 0 with
      | true =>
          obtain ⟨e,shown⟩ := Option.isSome_iff_exists.mp (presented.retired 0 one)
          exact (first_parts shown).2.1
      | false => simp

-- The wrapped sums of the flush give the number of entries that stay.
theorem flushedNum_eq {k read : Nat} (small : k < 31) (within : read ≤ k + 1) (room : s.num.val ≤ 31) :
    (flushedNum s (shift s.head k) read).val = k + 1 - read := by
  have head := s.head.isLt
  have first := shift_val s.head read
  have last : (shift s.head k + 1).val = (s.head.val + k + 1) % 32 := by
    have moved := shift_val s.head (k + 1)
    rw [shift_add] at moved
    rw [← Nat.add_assoc] at moved
    exact moved
  have small' : s.num ≠ 32 := by
    intro same
    rw [same] at room
    exact absurd room (by decide)
  simp only [flushedNum]
  split
  · rename_i order
    have below := order.1
    rw [Fin.le_def,first,last] at below
    simp only [Fin.val_ofNat,first,last]
    omega
  · rename_i order
    have above : ¬ shift s.head read ≤ shift s.head k + 1 := fun below => order ⟨below,small'⟩
    rw [Fin.le_def,first,last] at above
    simp only [Fin.val_ofNat,first,last]
    omega

theorem flush_step (valid : Valid s) (presented : Presented s i) (bounded : Bounded s i)
    (kept : i.flushCommit = false) (flush : i.flush = true) :
    Valid (next s i) ∧ contents (next s i) =
      listNext (contents s) (pushOf (contents s) i) (finishedAges s i) (readEnable i) (flushAge s i) false := by
  have room := valid.room
  have live := presented.flushed flush
  have within := bounded flush
  have place : shift s.head (age s.head i.flushIndex) = i.flushIndex := shift_age _ _
  have some : (0 : Fin 64) < s.num := by
    rw [Fin.lt_def]
    exact Nat.lt_of_le_of_lt (Nat.zero_le _) live
  have silent : writeEnable s i = false := by simp [writeEnable,flush]
  have count : (flushedNum s i.flushIndex (readEnable i)).val = age s.head i.flushIndex + 1 - readEnable i := by
    conv => lhs; rw [← place]
    exact flushedNum_eq (by omega) within room
  have shape : next s i = {s with
      cells := nextCells s i
      exception := (nextException s i).1
      exceptionIndex := (nextException s i).2
      tail := i.flushIndex + 1
      head := shift s.head (readEnable i)
      num := flushedNum s i.flushIndex (readEnable i)} := by
    simp [next,kept,flush,some]
  have marked := window_next (i := i) valid
  rw [silent,Bool.toNat_false,Nat.add_zero] at marked
  refine ⟨⟨?_,?_⟩,?_⟩
  · rw [shape]
    change i.flushIndex + 1 = shift (shift s.head (readEnable i)) (flushedNum s i.flushIndex (readEnable i)).val
    rw [count,← shift_add,Nat.add_sub_cancel' within,shift_add,place]
    rfl
  · rw [shape]
    change (flushedNum s i.flushIndex (readEnable i)).val ≤ 31
    omega
  · unfold listNext flushAge
    rw [shape,flush]
    simp only [contents,cut,Bool.false_eq_true,if_false,if_true]
    rw [count,← window_drop within,← window_take (by omega : age s.head i.flushIndex + 1 ≤ s.num.val),
      List.map_drop,List.map_take,marked]
    rfl

theorem plain_step (valid : Valid s) (presented : Presented s i) (kept : i.flushCommit = false)
    (straight : i.flush = false) :
    Valid (next s i) ∧ contents (next s i) =
      listNext (contents s) (pushOf (contents s) i) (finishedAges s i) (readEnable i) (flushAge s i) false := by
  have room := valid.room
  have reads := read_le presented
  have marked := window_next (i := i) valid
  have count : (s.num + bit (writeEnable s i) - Fin.ofNat 64 (readEnable i)).val =
      s.num.val + (writeEnable s i).toNat - readEnable i := by
    have wrapped : (Fin.ofNat 64 (readEnable i)).val = readEnable i := by
      rw [Fin.val_ofNat,Nat.mod_eq_of_lt (by omega)]
    generalize Fin.ofNat 64 (readEnable i) = read at wrapped
    cases writeEnable s i with
    | false =>
        simp only [bit_false,Bool.toNat_false]
        omega
    | true =>
        simp only [bit_true,Bool.toNat_true]
        omega
  have full : s.num.val + (writeEnable s i).toNat ≤ 31 := by
    cases push : writeEnable s i with
    | false => exact room
    | true =>
        simp only [writeEnable,Bool.and_eq_true,decide_eq_true_eq] at push
        have below := push.1.1.2
        exact below
  have shape : next s i = {s with
      cells := nextCells s i
      exception := (nextException s i).1
      exceptionIndex := (nextException s i).2
      tail := s.tail + bit (writeEnable s i)
      head := shift s.head (readEnable i)
      num := s.num + bit (writeEnable s i) - Fin.ofNat 64 (readEnable i)} := by
    simp [next,kept,straight]
  refine ⟨⟨?_,?_⟩,?_⟩
  · rw [shape]
    change s.tail + bit (writeEnable s i) = shift (shift s.head (readEnable i)) _
    rw [count,← shift_add,Nat.add_sub_cancel' (by omega),shift_add,← valid.tail]
    rfl
  · rw [shape]
    change (s.num + bit (writeEnable s i) - Fin.ofNat 64 (readEnable i)).val ≤ 31
    omega
  · unfold listNext flushAge
    rw [shape,straight]
    simp only [contents,cut,Bool.false_eq_true,if_false]
    rw [count,← window_drop (by omega),List.map_drop,marked]
    rfl

theorem next_refines (valid : Valid s) (presented : Presented s i) (bounded : Bounded s i) :
    Valid (next s i) ∧ contents (next s i) =
      listNext (contents s) (pushOf (contents s) i) (finishedAges s i) (readEnable i) (flushAge s i) i.flushCommit := by
  cases kept : i.flushCommit with
  | true =>
      refine ⟨⟨?_,?_⟩,?_⟩
      · simp [next,kept]
      · simp [next,kept]
      · simp [next,kept,contents,listNext]
  | false =>
      cases flush : i.flush with
      | true => exact flush_step valid presented bounded kept flush
      | false => exact plain_step valid presented kept flush

theorem retire_presented (csr : CsrInterface.Input)
    (wired : i.readHead = CsrInterface.retireInst csr (instructionO s i)) :
    (∀ port, i.readHead port = true → (instructionO s i port).isSome = true) ∧
      (i.readHead 1 = true → i.readHead 0 = true) := by
  rw [wired]
  refine ⟨?_,?_⟩
  · intro port retires
    exact (CsrInterface.retires_presented csr _ port retires).1
  · intro retires
    exact (CsrInterface.retires_presented csr _ 1 retires).2

theorem marked_length (ages : List Nat) (list : List (Slot α)) :
    (ages.foldl (fun l k => l.modify k finish) list).length = list.length := by
  induction ages generalizing list with
  | nil => rfl
  | cons k rest ih => rw [List.foldl_cons,ih,List.length_modify]

theorem unfinished_stays (presented : Presented s i) (unfinished : (s.cells k).validBit = false) :
    readEnable i ≤ age s.head k := by
  by_contra passed
  have place : shift s.head (age s.head k) = k := shift_age _ _
  cases two : i.readHead 1 with
  | true =>
      obtain ⟨e,shown⟩ := Option.isSome_iff_exists.mp (presented.retired 1 two)
      obtain ⟨_,first,second,_,_⟩ := second_parts shown
      have few := readEnable_le i
      obtain zero | last : age s.head k = 0 ∨ age s.head k = 1 := by omega
      · rw [zero,shift_zero] at place
        rw [← place,first] at unfinished
        cases unfinished
      · rw [last] at place
        change s.head + 1 = k at place
        rw [← place,second] at unfinished
        cases unfinished
  | false =>
      cases one : i.readHead 0 with
      | true =>
          obtain ⟨e,shown⟩ := Option.isSome_iff_exists.mp (presented.retired 0 one)
          have zero : age s.head k = 0 := by
            simp only [readEnable,one,two,Bool.toNat_true,Bool.toNat_false] at passed
            omega
          rw [zero,shift_zero] at place
          rw [← place,(first_parts shown).2.2.1] at unfinished
          cases unfinished
      | false =>
          simp only [readEnable,one,two,Bool.toNat_false] at passed
          omega

theorem next_head (kept : i.flushCommit = false) : (next s i).head = shift s.head (readEnable i) := by
  unfold next
  rw [kept]
  dsimp only
  split
  · contradiction
  · split <;> rfl

theorem live_next (valid : Valid s) (presented : Presented s i) (bounded : Bounded s i) (kept : i.flushCommit = false)
    (inside : age s.head k < s.num.val) (stays : readEnable i ≤ age s.head k)
    (older : i.flush = true → age s.head k ≤ age s.head i.flushIndex) :
    age (next s i).head k < (next s i).num.val := by
  have refined := congrArg List.length (next_refines valid presented bounded).2
  rw [contents_length,kept,listNext,if_neg Bool.false_ne_true,List.length_drop] at refined
  rw [next_head kept,age_advance stays]
  unfold cut flushAge at refined
  cases flush : i.flush with
  | true =>
      have before := older flush
      simp only [flush,if_true,List.length_take,marked_length,List.length_append,contents_length] at refined
      omega
  | false =>
      simp only [flush,Bool.false_eq_true,if_false,marked_length,List.length_append,contents_length] at refined
      omega

theorem tail_free (valid : Valid s) : ¬ age s.head s.tail < s.num.val := by
  have room := valid.room
  rw [valid.tail,age_shift (by omega)]
  omega

def Invariant (t : Tracked α) : Prop := Valid t.gl ∧ contents t.gl = t.list

theorem reached_invariant {zero : Cell α} (reached : Reached (machine zero) t) : Invariant t := by
  refine reached.invariant Invariant ?_ ?_
  · exact ⟨⟨rfl,Nat.zero_le _⟩,rfl⟩
  · rintro t i ⟨valid,same⟩ ⟨presented,bounded⟩
    obtain ⟨kept,refined⟩ := next_refines valid presented bounded
    refine ⟨kept,?_⟩
    change contents (next t.gl i) = _
    rw [refined,same]
    rfl

theorem contents_head (some : 0 < s.num.val) :
    ∃ rest, contents s = slot (s.cells s.head) :: rest := by
  obtain ⟨len,size⟩ := Nat.exists_eq_add_of_lt some
  refine ⟨(window s.cells (shift s.head 1) len).map slot,?_⟩
  rw [contents,size,Nat.zero_add,window_cons,List.map_cons]

theorem contents_two (several : 1 < s.num.val) :
    ∃ rest, contents s = slot (s.cells s.head) :: slot (s.cells (s.head + 1)) :: rest := by
  obtain ⟨len,size⟩ := Nat.exists_eq_add_of_lt several
  refine ⟨(window s.cells (shift (shift s.head 1) 1) len).map slot,?_⟩
  have sum : s.num.val = len + 1 + 1 := by omega
  rw [contents,sum,window_cons,window_cons,List.map_cons,List.map_cons]
  rfl

-- What the graduation list promises about the list beside it.
structure Refines (t : Tracked α) : Prop where
  inOrder : contents t.gl = t.list
  num : t.gl.num.val = (t.gl.tail.val + 32 - t.gl.head.val) % 32
  room : t.gl.num.val ≤ 31
  refused : t.gl.num.val = 31 → ∀ i, writeEnable t.gl i = false
  first : ∀ i e, instructionO t.gl i 0 = some e → ∃ rest, t.list = ⟨e.instr,true⟩ :: rest
  second : ∀ i e, instructionO t.gl i 1 = some e → ∃ oldest rest,
    instructionO t.gl i 0 = some oldest ∧ t.list = ⟨oldest.instr,true⟩ :: ⟨e.instr,true⟩ :: rest

theorem list_refined (zero : Cell α) (t : Tracked α) (reached : Reached (machine zero) t) : Refines t := by
  obtain ⟨valid,same⟩ := reached_invariant reached
  have room := valid.room
  refine ⟨same,?_,room,?_,?_,?_⟩
  · have place := congrArg Fin.val valid.tail
    rw [shift_val] at place
    have head := t.gl.head.isLt
    omega
  · intro full i
    simp [writeEnable,full]
  · intro i e shown
    obtain ⟨_,some,finished,rfl⟩ := first_parts shown
    obtain ⟨rest,front⟩ := contents_head some
    refine ⟨rest,?_⟩
    rw [← same,front,slot,finished]
  · intro i e shown
    obtain ⟨several,finished,next,rfl,oldest⟩ := second_parts shown
    obtain ⟨rest,front⟩ := contents_two several
    refine ⟨_,rest,oldest,?_⟩
    rw [← same,front,slot,slot,finished,next]

def addition : Entry Unit := ⟨⟨true,.other 0,.notMem,false,()⟩,⟨false,0,false,0,0,0⟩⟩

def written (index : GlIndex) : Writeback := ⟨.scalar,true,index,Exception.none,addition.status⟩

def cycle (push : Bool) (writebacks : List Writeback) (read : Nat) (flush : Option GlIndex) :
    GraduationList.Input Unit where
  instruction := {addition with instr := {addition.instr with valid := push}}
  isVectorVl0 := false
  ex := Exception.none
  readHead port := decide (port.val < read)
  writebacks := writebacks
  exFromExe := Exception.none
  exFromExeIndex := 0
  flush := flush.isSome
  flushIndex := flush.getD 0
  flushCommit := false

def blank : Cell Unit := ⟨addition,false⟩

-- Three additions are pushed, the first two of them finish.
def addThree : List (GraduationList.Input Unit) :=
  [cycle true [] 0 none,cycle true [written 0] 0 none,cycle true [written 1] 0 none]

-- The oldest retires while a branch at position 1 flushes the third.
theorem list_refined_flush :
    Refines ((addThree ++ [cycle false [] 1 (some 1)]).foldl trackedNext ⟨reset blank,[]⟩) ∧
      ((addThree ++ [cycle false [] 1 (some 1)]).foldl trackedNext ⟨reset blank,[]⟩).list.length = 1 := by
  have path : legal (machine blank) ⟨reset blank,[]⟩ (addThree ++ [cycle false [] 1 (some 1)]) = true := by decide
  exact ⟨list_refined blank _ ⟨_,Runs.of_legal path⟩,by decide⟩

-- Without the bound the wrapped difference makes an empty list look full.
theorem overtaken_flush_resurrects : ¬ ∀ t : Tracked Unit, Reached (unbounded blank) t → Refines t := by
  intro refines
  have path : legal (unbounded blank) ⟨reset blank,[]⟩ (addThree ++ [cycle false [] 2 (some 0)]) = true := by decide
  have lengths := congrArg List.length (refines _ ⟨_,Runs.of_legal path⟩).inOrder
  rw [contents_length] at lengths
  exact absurd lengths (by decide)

end Sargantana.GraduationRefinement
