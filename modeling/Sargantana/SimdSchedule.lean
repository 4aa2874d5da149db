import Sargantana.ExeStage
import Sargantana.SimdUnit
import Sargantana.Lib.StateMachine
import Sargantana.Lib.Schedule

-- score_board_simd and simd_unit as exe_stage drives them.
namespace Sargantana.SimdSchedule
open DracPkg ExeStage ScoreBoardSimd StateMachine Schedule

variable {α : Type}

structure State (α : Type) where
  board : ScoreBoardSimd.State
  unit : SimdUnit.State α

-- One clock cycle: the instruction in the register read stage, and what the units other
-- than the SIMD one answer.
structure Input (α : Type) where
  from_rr : RrExeInstr α
  kill : Bool
  flush : Bool
  others : Grants

def stall (s : State α) (i : Input α) : Bool := stallSimd s.board (ready i.from_rr) (simdOperands i.from_rr)

-- simd_exe_stages_o
def assigned (s : State α) (i : Input α) : Nat := simdExeStages s.board (ready i.from_rr) (simdOperands i.from_rr)

def instruction (s : State α) (i : Input α) : SimdInstr α :=
  simdInstr { i.others with stallSimd := stall s i } i.from_rr i.kill (assigned s i)

def next (s : State α) (i : Input α) : State α where
  board := ScoreBoardSimd.next s.board i.flush (ready i.from_rr) (simdOperands i.from_rr)
  unit := SimdUnit.next s.unit i.flush (instruction s i)

def issued (s : State α) (i : Input α) : Option (SimdInstr α) :=
  if (instruction s i).instr.valid then some (instruction s i) else none

-- An instruction is to appear on the ports of the registers it writes.
def writes (op : SimdInstr α) : Bool := op.instr.vregfileWe || op.instr.regfileWe

def cycle (s : State α) (i : Input α) : Beat (SimdInstr α) where
  issue := (issued s i).map fun op => ⟨op,op.exeStages - 1⟩
  flush := i.flush

-- The division that is in flight, in the cell where it stands
def division (u : SimdUnit.State α) (cell : Nat) : Option (SimdInstr α) :=
  if u.divisionPipe cell then some u.divisionInstruction else none

def held (u : SimdUnit.State α) : List (Flight (SimdInstr α)) :=
  (List.finRange 5).flatMap (fun row => line (row.val + 1) (u.simdPipe row)) ++ line 31 (division u)

def completing (s : State α) (i : Input α) : List (SimdInstr α) := landed ((cycle s i).live (held s.unit))

-- No flush meets a division, no division is killed that the scoreboard takes, and what is
-- issued for more than one stage has elements when it writes a register.
structure Calm (s : State α) (i : Input α) : Prop where
  flush : i.flush = true → (∀ cell < 30, s.unit.divisionPipe cell = false) ∧
    SimdUnit.startsDivision s.unit (instruction s i) = false
  kill : i.kill = true → isVdiv i.from_rr.instr.instrType = true → ready i.from_rr = true → stall s i = true
  elements : ∀ op, issued s i = some op → op.exeStages ≠ 1 → writes op = true → op.instr.vl ≠ 0

-- The decoder sends the divisions to the SIMD unit.
def Decoded (i : Input α) : Prop :=
  i.from_rr.instr.valid = true → isVdiv i.from_rr.instr.instrType = true → i.from_rr.instr.unit = .simd

theorem instruction_valid (s : State α) (i : Input α) : (instruction s i).instr.valid =
    (i.from_rr.instr.unit == .simd && ready i.from_rr && !i.kill && !stall s i) := by
  simp only [instruction,simdInstr]
  exact simdIssues_eq _ _ _

theorem issued_cases (s : State α) (i : Input α) :
    (issued s i = none ∧ (instruction s i).instr.valid = false) ∨
    (issued s i = some (instruction s i) ∧ (instruction s i).instr.valid = true ∧ i.from_rr.instr.unit = .simd ∧
      ready i.from_rr = true ∧ i.kill = false ∧ stall s i = false) := by
  cases valid : (instruction s i).instr.valid with
  | false => exact .inl ⟨by simp [issued,valid],rfl⟩
  | true =>
    have parts := instruction_valid s i
    rw [valid] at parts
    simp only [Bool.true_eq,Bool.and_eq_true,beq_iff_eq,Bool.not_eq_true'] at parts
    exact .inr ⟨by simp [issued,valid],rfl,parts.1.1.1,parts.1.1.2,parts.1.2,parts.2⟩

theorem stages_cases (previous : PreviousDiv) (asks : Bool) (op : SimdInstr α) :
    (1 ≤ stages previous asks op ∧ stages previous asks op ≤ 6) ∨
      (stages previous asks op = 32 ∧ isVdiv op.instr.instrType = true) := by
  unfold stages
  dsimp only
  split
  · split <;> simp
  · split
    · split <;> simp
    · split
      · split
        · simp
        · split
          · simp
          · split <;> simp
      · split
        · rename_i vdiv
          split
          · simp
          · exact .inr ⟨rfl,vdiv⟩
        · simp

theorem unit_stages {s : State α} {i : Input α} (same : s.board.previousDiv = s.unit.previousDiv)
    (valid : (instruction s i).instr.valid = true) (rdy : ready i.from_rr = true) :
    SimdUnit.simdExeStages s.unit (instruction s i) = assigned s i := by
  rw [SimdUnit.simdExeStages,valid,← same,assigned,simdExeStages,rdy]
  rfl

-- The scoreboard knows of all that is in the unit, and of the last division.
structure Agrees (s : State α) : Prop where
  previous : s.board.previousDiv = s.unit.previousDiv
  rows : ∀ row : Fin 5, ∀ cell ≤ row.val, s.unit.simdPipe row cell ≠ none → s.board.simdPipe row cell = true
  divisions : ∀ cell < 31, s.unit.divisionPipe cell = true → s.board.divisionPipe cell = true
  distinct : Distinct (held s.unit)
  sound : ∀ flight ∈ held s.unit, flight.op.instr.valid = true ∧ flight.op.instr.unit = .simd ∧
    (writes flight.op = true → flight.op.instr.vl ≠ 0)

theorem held_cases {u : SimdUnit.State α} {flight : Flight (SimdInstr α)} (member : flight ∈ held u) :
    (∃ row : Fin 5, ∃ cell ≤ row.val, u.simdPipe row cell = some flight.op ∧ flight.left = row.val - cell) ∨
    (∃ cell < 31, u.divisionPipe cell = true ∧ flight.op = u.divisionInstruction ∧ flight.left = 30 - cell) := by
  rcases List.mem_append.mp member with short | long
  · obtain ⟨row,_,inside⟩ := List.mem_flatMap.mp short
    obtain ⟨cell,before,found,left⟩ := line_mem.mp inside
    exact .inl ⟨row,cell,by omega,found,by omega⟩
  · obtain ⟨cell,before,found,left⟩ := line_mem.mp long
    unfold division at found
    split at found
    · rename_i there
      exact .inr ⟨cell,before,there,(Option.some.inj found).symm,by omega⟩
    · cases found

theorem issued_free {s : State α} {i : Input α} (agrees : Agrees s) (free : stall s i = false) :
    ¬ ∃ flight ∈ held s.unit, flight.left = assigned s i - 1 := by
  rintro ⟨flight,member,left⟩
  have cases := stages_cases s.board.previousDiv (ready i.from_rr) (simdOperands i.from_rr)
  change (1 ≤ assigned s i ∧ assigned s i ≤ 6) ∨ (assigned s i = 32 ∧ _) at cases
  simp only [stall,stallSimd,Bool.or_eq_false_iff,List.any_eq_false,Bool.and_eq_false_iff] at free
  obtain ⟨⟨rows,divisions⟩,_⟩ := free
  change ∀ row ∈ List.finRange 5, ¬ (decide (assigned s i < row.val + 2) && s.board.simdPipe row (row.val + 2 - assigned s i - 1)) = true at rows
  change s.board.divisionPipe ((32 - assigned s i + 31) % 32) = false at divisions
  rcases held_cases member with ⟨row,cell,before,found,same⟩ | ⟨cell,before,found,_,same⟩
  · have taken := agrees.rows row cell before (by rw [found]; simp)
    have place : row.val + 2 - assigned s i - 1 = cell := by omega
    have later : assigned s i < row.val + 2 := by omega
    refine rows row (List.mem_finRange row) ?_
    rw [place,taken]
    simp [later]
  · have taken := agrees.divisions cell before found
    have place : (32 - assigned s i + 31) % 32 = cell := by omega
    rw [place,taken] at divisions
    cases divisions

-- What enters the unit in a cycle that is not flushed
def entering (s : State α) (i : Input α) : List (Flight (SimdInstr α)) :=
  (List.finRange 5).flatMap (fun row => (((next s i).unit.simdPipe row 0).map fun op => ⟨op,row.val⟩).toList) ++
    ((division (next s i).unit 0).map fun op => ⟨op,30⟩).toList

theorem no_division {s : State α} {i : Input α} (agrees : Agrees s) (free : stall s i = false)
    (vdiv : isVdiv i.from_rr.instr.instrType = true) {cell : Nat} (inside : cell < 31) :
    s.unit.divisionPipe cell = false := by
  rw [Bool.eq_false_iff]
  intro there
  have taken := agrees.divisions cell inside there
  simp only [stall,stallSimd,Bool.or_eq_false_iff] at free
  have none := free.2
  change (isVdiv i.from_rr.instr.instrType && (List.range 31).any s.board.divisionPipe) = false at none
  rw [vdiv,Bool.true_and,List.any_eq_false] at none
  exact none cell (List.mem_range.mpr inside) taken

theorem starts_parts {s : State α} {i : Input α} (starts : SimdUnit.startsDivision s.unit (instruction s i) = true) :
    isVdiv i.from_rr.instr.instrType = true ∧ (instruction s i).instr.valid = true := by
  simp only [SimdUnit.startsDivision,Bool.and_eq_true] at starts
  exact ⟨starts.1.1,starts.2⟩

theorem next_division {s : State α} {i : Input α} (agrees : Agrees s) {cell : Nat} (inside : cell < 30) :
    division (next s i).unit (cell + 1) = division s.unit cell := by
  have within : cell + 1 < 31 := by omega
  simp only [division,next,SimdUnit.next,within,decide_true,Bool.true_and]
  cases starts : SimdUnit.startsDivision s.unit (instruction s i) with
  | false => simp
  | true =>
    obtain ⟨vdiv,valid⟩ := starts_parts starts
    rcases issued_cases s i with ⟨_,idle⟩ | ⟨_,_,_,_,_,free⟩
    · rw [valid] at idle; cases idle
    · simp [no_division agrees free vdiv (show cell < 31 by omega)]

theorem next_held {s : State α} {i : Input α} (agrees : Agrees s) (straight : i.flush = false) :
    (held (next s i).unit).Perm ((held s.unit).filterMap Flight.tick ++ entering s i) := by
  have rows : (List.finRange 5).flatMap (fun row => line (row.val + 1) ((next s i).unit.simdPipe row)) =
      (List.finRange 5).flatMap fun row => (((next s i).unit.simdPipe row 0).map fun op => (⟨op,row.val⟩ : Flight _)).toList ++
        (line (row.val + 1) (s.unit.simdPipe row)).filterMap Flight.tick := by
    congr 1
    funext row
    refine line_shift fun cell inside => ?_
    have within : cell + 1 < row.val + 2 := by omega
    change (if !i.flush && decide (cell + 1 < row.val + 2) then s.unit.simdPipe row cell else none) = _
    rw [straight,decide_eq_true within]
    rfl
  have divisions : line 31 (division (next s i).unit) =
      ((division (next s i).unit 0).map fun op => (⟨op,30⟩ : Flight _)).toList ++ (line 31 (division s.unit)).filterMap Flight.tick :=
    line_shift fun cell inside => next_division agrees inside
  have older : (held s.unit).filterMap Flight.tick =
      (List.finRange 5).flatMap (fun row => (line (row.val + 1) (s.unit.simdPipe row)).filterMap Flight.tick) ++
        (line 31 (division s.unit)).filterMap Flight.tick := by
    rw [held,List.filterMap_append,List.filterMap_flatMap]
  rw [held,rows,divisions,older,entering]
  refine (((List.finRange 5).flatMap_append_perm _ _).symm.append_right _).trans ?_
  generalize (List.finRange 5).flatMap (fun row => (((next s i).unit.simdPipe row 0).map fun op => (⟨op,row.val⟩ : Flight _)).toList) = a
  generalize (List.finRange 5).flatMap (fun row => (line (row.val + 1) (s.unit.simdPipe row)).filterMap Flight.tick) = b
  generalize ((division (next s i).unit 0).map fun op => (⟨op,30⟩ : Flight _)).toList = c
  generalize (line 31 (division s.unit)).filterMap Flight.tick = d
  have inner : (b ++ (c ++ d)).Perm (c ++ (b ++ d)) := by
    rw [← List.append_assoc,← List.append_assoc]
    exact List.perm_append_comm.append_right d
  calc a ++ b ++ (c ++ d) = a ++ (b ++ (c ++ d)) := List.append_assoc _ _ _
    _ |>.Perm (a ++ (c ++ (b ++ d))) := inner.append_left a
    _ = (a ++ c) ++ (b ++ d) := (List.append_assoc _ _ _).symm
    _ |>.Perm ((b ++ d) ++ (a ++ c)) := List.perm_append_comm

theorem entering_eq {s : State α} {i : Input α} (agrees : Agrees s) (straight : i.flush = false) :
    entering s i = ((cycle s i).issue.toList).filterMap Flight.tick := by
  have range : List.finRange 5 = [0,1,2,3,4] := rfl
  rcases issued_cases s i with ⟨none,idle⟩ | ⟨issue,valid,_,rdy,_,_⟩
  · simp [entering,cycle,none,idle,next,SimdUnit.next,SimdUnit.startsDivision,division]
  · have count := unit_stages agrees.previous valid rdy
    have stagesEq : (instruction s i).exeStages = assigned s i := rfl
    have cases := stages_cases s.board.previousDiv (ready i.from_rr) (simdOperands i.from_rr)
    change (1 ≤ assigned s i ∧ assigned s i ≤ 6) ∨ (assigned s i = 32 ∧ isVdiv i.from_rr.instr.instrType = true) at cases
    have types : isVdiv (instruction s i).instr.instrType = isVdiv i.from_rr.instr.instrType := rfl
    rcases cases with ⟨least,most⟩ | ⟨long,vdiv⟩
    · have short : SimdUnit.startsDivision s.unit (instruction s i) = false := by
        have other : ¬ assigned s i = 32 := by omega
        simp [SimdUnit.startsDivision,count,other]
      have values : assigned s i = 1 ∨ assigned s i = 2 ∨ assigned s i = 3 ∨ assigned s i = 4 ∨ assigned s i = 5 ∨
          assigned s i = 6 := by omega
      rcases values with value | value | value | value | value | value <;>
        simp [entering,cycle,issue,valid,next,SimdUnit.next,short,division,count,stagesEq,value,range,straight,Flight.tick]
    · have starts : SimdUnit.startsDivision s.unit (instruction s i) = true := by
        simp [SimdUnit.startsDivision,count,long,valid,types,vdiv]
      simp [entering,cycle,issue,next,SimdUnit.next,starts,division,count,stagesEq,long,range,straight,Flight.tick]

theorem next_previous {s : State α} {i : Input α} (same : s.board.previousDiv = s.unit.previousDiv) (decoded : Decoded i)
    (calm : Calm s i) : (next s i).board.previousDiv = (next s i).unit.previousDiv := by
  have types : isVdiv (instruction s i).instr.instrType = isVdiv i.from_rr.instr.instrType := rfl
  have operands : PreviousDiv.of (instruction s i) = PreviousDiv.of (simdOperands i.from_rr) := rfl
  simp only [next,ScoreBoardSimd.next,SimdUnit.next,types,operands,instruction_valid,same]
  change (if isVdiv i.from_rr.instr.instrType && !stall s i && ready i.from_rr then _ else _) = _
  cases vdiv : isVdiv i.from_rr.instr.instrType with
  | false => simp
  | true =>
    cases rdy : ready i.from_rr with
    | false => simp
    | true =>
      have valid : i.from_rr.instr.valid = true := by
        unfold ready at rdy
        exact (Bool.and_eq_true_iff.mp rdy).1
      have unit := decoded valid vdiv
      cases killed : i.kill with
      | false => simp [unit]
      | true => simp [calm.kill killed vdiv rdy]

theorem flushed_held {s : State α} {i : Input α} (calm : Calm s i) (flushed : i.flush = true) :
    held (next s i).unit = [] := by
  obtain ⟨quiet,starts⟩ := calm.flush flushed
  apply List.eq_nil_iff_forall_not_mem.mpr
  intro flight member
  rcases held_cases member with ⟨row,cell,_,found,_⟩ | ⟨cell,inside,found,_,_⟩
  · cases cell <;> simp [next,SimdUnit.next,flushed] at found
  · cases cell with
    | zero => simp [next,SimdUnit.next,starts] at found
    | succ cell => simp [next,SimdUnit.next,quiet cell (by omega)] at found

theorem next_flights {s : State α} {i : Input α} (agrees : Agrees s) (calm : Calm s i) :
    (held (next s i).unit).Perm ((cycle s i).next (held s.unit)) := by
  cases straight : i.flush with
  | true => simp [flushed_held calm straight,Beat.next,cycle,straight]
  | false =>
    have after : (cycle s i).next (held s.unit) = (held s.unit).filterMap Flight.tick ++ entering s i := by
      simp [entering_eq agrees straight,Beat.next,Beat.live,cycle,straight]
    rw [after]
    exact next_held agrees straight

theorem live_distinct {s : State α} {i : Input α} (agrees : Agrees s) : Distinct ((cycle s i).live (held s.unit)) := by
  rcases issued_cases s i with ⟨none,_⟩ | ⟨issue,_,_,_,_,free⟩
  · simpa [Beat.live,cycle,none] using agrees.distinct
  · have place : (instruction s i).exeStages = assigned s i := rfl
    have apart : Distinct (held s.unit ++ [⟨instruction s i,assigned s i - 1⟩]) :=
      agrees.distinct.append_single (issued_free agrees free)
    simpa [Beat.live,cycle,issue,place] using apart

theorem issued_instruction {s : State α} {i : Input α} {op : SimdInstr α} (found : issued s i = some op) : op = instruction s i := by
  rcases issued_cases s i with ⟨none,_⟩ | ⟨issue,_⟩
  · rw [none] at found; cases found
  · exact Option.some.inj (found.symm.trans issue)

theorem issued_sound {s : State α} {i : Input α} {op : SimdInstr α} (found : issued s i = some op) :
    op.instr.valid = true ∧ op.instr.unit = .simd := by
  rcases issued_cases s i with ⟨none,_⟩ | ⟨issue,valid,unit,_⟩
  · rw [none] at found; cases found
  · obtain rfl := Option.some.inj (issue.symm.trans found)
    exact ⟨valid,unit⟩

theorem rows_next {s : State α} {i : Input α} (agrees : Agrees s) (row : Fin 5) (cell : Nat) (before : cell ≤ row.val)
    (there : (next s i).unit.simdPipe row cell ≠ none) : (next s i).board.simdPipe row cell = true := by
  cases straight : i.flush with
  | true => cases cell <;> simp [next,SimdUnit.next,straight] at there
  | false =>
    cases cell with
    | zero =>
      rcases issued_cases s i with ⟨_,idle⟩ | ⟨_,valid,unit,rdy,_,free⟩
      · simp [next,SimdUnit.next,idle] at there
      · have count := unit_stages agrees.previous valid rdy
        have same : assigned s i = row.val + 2 := by simpa [next,SimdUnit.next,straight,valid,count] using there
        change (!i.flush && assigned s i == row.val + 2 && (!stall s i && ready i.from_rr && i.from_rr.instr.unit == .simd)) = true
        simp [straight,same,free,rdy,unit]
    | succ cell =>
      have was : s.unit.simdPipe row cell ≠ none := by
        intro none
        simp [next,SimdUnit.next,none] at there
      have within : cell + 1 < 5 := by omega
      simp [next,ScoreBoardSimd.next,straight,agrees.rows row cell (by omega) was,within]

theorem divisions_next {s : State α} {i : Input α} (agrees : Agrees s) (cell : Nat) (inside : cell < 31)
    (there : (next s i).unit.divisionPipe cell = true) : (next s i).board.divisionPipe cell = true := by
  cases cell with
  | zero =>
    have starts : SimdUnit.startsDivision s.unit (instruction s i) = true := there
    obtain ⟨vdiv,valid⟩ := starts_parts starts
    rcases issued_cases s i with ⟨_,idle⟩ | ⟨_,_,unit,rdy,_,free⟩
    · rw [valid] at idle; cases idle
    · have count := unit_stages agrees.previous valid rdy
      have long : assigned s i = 32 := by
        simp only [SimdUnit.startsDivision,Bool.and_eq_true,beq_iff_eq,count] at starts
        exact starts.1.2
      change (isVdiv i.from_rr.instr.instrType && assigned s i == 32 &&
        (!stall s i && ready i.from_rr && i.from_rr.instr.unit == .simd)) = true
      simp [vdiv,long,free,rdy,unit]
  | succ cell =>
    have was : s.unit.divisionPipe cell = true := by
      simp only [next,SimdUnit.next,Bool.and_eq_true] at there
      exact there.2
    simp [next,ScoreBoardSimd.next,inside,agrees.divisions cell (by omega) was]

theorem sound_next {s : State α} {i : Input α} (agrees : Agrees s) (calm : Calm s i) (flight : Flight (SimdInstr α))
    (member : flight ∈ held (next s i).unit) : flight.op.instr.valid = true ∧ flight.op.instr.unit = .simd ∧
      (writes flight.op = true → flight.op.instr.vl ≠ 0) := by
  have came := (next_flights agrees calm).mem_iff.mp member
  unfold Beat.next at came
  split at came
  · cases came
  · obtain ⟨before,inside,ticked⟩ := List.mem_filterMap.mp came
    have same : before.op = flight.op := by
      unfold Flight.tick at ticked
      split at ticked
      · cases ticked
      · rw [← Option.some.inj ticked]
    have later := tick_left ticked
    rcases List.mem_append.mp inside with old | new
    · rw [← same]
      exact agrees.sound before old
    · obtain ⟨op,found,here⟩ : ∃ op, issued s i = some op ∧ ⟨op,op.exeStages - 1⟩ = before := by
        simpa [cycle,Option.mem_toList] using new
      obtain rfl : op = flight.op := by rw [← same,← here]
      refine ⟨(issued_sound found).1,(issued_sound found).2,calm.elements _ found ?_⟩
      rw [← here] at later
      simp only at later
      omega

theorem step_agrees {s : State α} {i : Input α} (agrees : Agrees s) (decoded : Decoded i) (calm : Calm s i) :
    Agrees (next s i) where
  previous := next_previous agrees.previous decoded calm
  rows := rows_next agrees
  divisions := divisions_next agrees
  distinct := by
    rw [Distinct.perm (next_flights agrees calm)]
    unfold Beat.next
    split
    · exact List.Pairwise.nil
    · exact (live_distinct agrees).tick
  sound := sound_next agrees calm

theorem landed_held (u : SimdUnit.State α) : landed (held u) =
    (List.finRange 5).flatMap (fun row => (u.simdPipe row row.val).toList) ++ (division u 30).toList := by
  have last : landed (line 31 (division u)) = (division u 30).toList := line_landed
  have rows : landed ((List.finRange 5).flatMap fun row => line (row.val + 1) (u.simdPipe row)) =
      (List.finRange 5).flatMap fun row => (u.simdPipe row row.val).toList := by
    rw [landed,List.filterMap_flatMap]
    congr 1
    funext row
    exact line_landed
  rw [held,landed,List.filterMap_append]
  exact congrArg₂ _ rows last

-- instr_score_board is the first of the instructions in their last stage.
theorem scoreboard_head (u : SimdUnit.State α) : SimdUnit.instrScoreBoard u = (landed (held u)).head? := by
  have first : ((List.finRange 5).flatMap fun row => (u.simdPipe row row.val).toList).head? =
      (List.finRange 5).findSome? fun row => u.simdPipe row row.val := by
    rw [List.head?_flatMap]
    congr 1
    funext row
    cases u.simdPipe row row.val <;> rfl
  rw [landed_held,List.head?_append,first,SimdUnit.instrScoreBoard,division]
  congr 1
  split <;> rfl

theorem landed_issue (s : State α) (i : Input α) : landed ((cycle s i).issue.toList) =
    if (instruction s i).instr.valid && assigned s i == 1 then [instruction s i] else [] := by
  have place : (instruction s i).exeStages = assigned s i := rfl
  rcases issued_cases s i with ⟨none,idle⟩ | ⟨issue,valid,_⟩
  · simp [cycle,none,idle,landed]
  · have cases := stages_cases s.board.previousDiv (ready i.from_rr) (simdOperands i.from_rr)
    change (1 ≤ assigned s i ∧ assigned s i ≤ 6) ∨ (assigned s i = 32 ∧ _) at cases
    by_cases one : assigned s i = 1
    · simp [cycle,issue,valid,place,one,landed,Flight.landed]
    · obtain ⟨n,more⟩ : ∃ n, assigned s i - 1 = n + 1 := ⟨assigned s i - 2,by omega⟩
      simp [cycle,issue,valid,place,one,landed,Flight.landed,more]

section
variable [Inhabited α]

def machine : Machine (State α) (Input α) where
  initial := ⟨ScoreBoardSimd.reset,SimdUnit.reset⟩
  allowed _ i := Decoded i
  step := next

-- What appears on instruction_simd_o or instruction_scalar_o
def shows (s : State α) (i : Input α) : List (SimdInstr α) :=
  if SimdUnit.simdValid s.unit (instruction s i) || SimdUnit.scalarValid s.unit (instruction s i) then
    [SimdUnit.instrToOut s.unit (instruction s i)]
  else []

theorem shows_out {s : State α} {i : Input α} {out : SimdInstr α}
    (same : SimdUnit.instrToOut s.unit (instruction s i) = out) :
    shows s i = if out.instr.valid && out.instr.unit == .simd && writes out then [out] else [] := by
  have either : (SimdUnit.simdValid s.unit (instruction s i) || SimdUnit.scalarValid s.unit (instruction s i)) =
      (out.instr.valid && out.instr.unit == .simd && writes out) := by
    simp only [SimdUnit.simdValid,SimdUnit.scalarValid,same,writes,← Bool.and_or_distrib_left]
  rw [shows,either,same]

theorem shows_completing {s : State α} {i : Input α} (agrees : Agrees s) :
    shows s i = (completing s i).filter writes := by
  have one : (completing s i).length ≤ 1 := (live_distinct agrees).one_landed
  have parts : completing s i = landed (held s.unit) ++ landed ((cycle s i).issue.toList) := by
    rw [completing,Beat.live,landed,List.filterMap_append]
    rfl
  have place : (instruction s i).exeStages = assigned s i := rfl
  have unit : (instruction s i).instr.valid = true → (instruction s i).instr.unit = .simd := by
    intro valid
    exact (issued_sound (s := s) (i := i) (by simp [issued,valid])).2
  rw [landed_issue] at parts
  -- The instruction that comes in, when no other completes
  have alone : SimdUnit.instrToOut s.unit (instruction s i) = SimdUnit.incoming (instruction s i) →
      shows s i = (if (instruction s i).instr.valid && assigned s i == 1 then [instruction s i] else []).filter writes := by
    intro same
    rw [shows_out same,SimdUnit.incoming,place]
    cases valid : (instruction s i).instr.valid <;> cases first : assigned s i == 1 <;>
      simp_all [SimdUnit.instrZero,InstrEntry.zero,List.filter_cons]
  cases found : landed (held s.unit) with
  | nil =>
    have none : SimdUnit.instrScoreBoard s.unit = none := by rw [scoreboard_head,found]; rfl
    rw [parts,found,List.nil_append]
    exact alone (by simp [SimdUnit.instrToOut,none])
  | cons out rest =>
    have some : SimdUnit.instrScoreBoard s.unit = some out := by rw [scoreboard_head,found]; rfl
    rw [found] at parts
    have counts := congrArg List.length parts
    rw [List.length_append,List.length_cons] at counts
    have tail : rest = [] := List.eq_nil_of_length_eq_zero (by omega)
    have quiet : (if (instruction s i).instr.valid && assigned s i == 1 then [instruction s i] else []) = [] :=
      List.eq_nil_of_length_eq_zero (by omega)
    obtain ⟨flight,inside,lands⟩ := List.mem_filterMap.mp (show out ∈ landed (held s.unit) by rw [found]; simp)
    have op : flight.op = out := by
      unfold Flight.landed at lands
      split at lands
      · exact Option.some.inj lands
      · cases lands
    obtain ⟨valid,simd,elements⟩ := agrees.sound flight inside
    rw [op] at valid simd elements
    rw [parts,tail,quiet,List.append_nil]
    by_cases zero : out.instr.vl = 0
    · have still : writes out = false := by
        rw [Bool.eq_false_iff]
        exact fun write => elements write zero
      rw [alone (by simp [SimdUnit.instrToOut,some,zero]),quiet]
      simp [still]
    · rw [shows_out (show SimdUnit.instrToOut s.unit (instruction s i) = out by simp [SimdUnit.instrToOut,some,zero])]
      simp [valid,simd,List.filter_cons]

theorem held_reset : held (machine : Machine (State α) (Input α)).initial.unit = [] := by
  apply List.eq_nil_iff_forall_not_mem.mpr
  intro flight member
  rcases held_cases member with ⟨row,cell,_,found,_⟩ | ⟨cell,_,found,_,_⟩
  · cases found
  · cases found

theorem agrees_reset : Agrees (machine : Machine (State α) (Input α)).initial := by
  refine ⟨rfl,?_,?_,?_,?_⟩
  · intro row cell _ there
    exact absurd rfl there
  · intro cell _ there
    cases there
  · rw [held_reset]
    exact List.Pairwise.nil
  · intro flight member
    rw [held_reset] at member
    cases member

def cycles (inputs : Nat → Input α) (t : Nat) : Beat (SimdInstr α) := cycle (trace machine inputs t) (inputs t)

-- Along every calm sequence of cycles the unit holds what the schedule has in flight.
theorem trace_held {inputs : Nat → Input α} (admits : Admits machine inputs)
    (calm : ∀ t, Calm (trace machine inputs t) (inputs t)) (u : Nat) :
    Agrees (trace machine inputs u) ∧ (held (trace machine inputs u).unit).Perm (flights (cycles inputs) u) := by
  induction u with
  | zero =>
    refine ⟨agrees_reset,?_⟩
    change (held (machine : Machine (State α) (Input α)).initial.unit).Perm []
    rw [held_reset]
  | succ u ih =>
    obtain ⟨agrees,same⟩ := ih
    exact ⟨step_agrees agrees (admits u) (calm u),(next_flights agrees (calm u)).trans (Beat.next_perm same)⟩

theorem completing_due {inputs : Nat → Input α} (admits : Admits machine inputs)
    (calm : ∀ t, Calm (trace machine inputs t) (inputs t)) (u : Nat) :
    completing (trace machine inputs u) (inputs u) = due (cycles inputs) u ∧ (due (cycles inputs) u).length ≤ 1 := by
  obtain ⟨agrees,same⟩ := trace_held admits calm u
  have shuffled : (completing (trace machine inputs u) (inputs u)).Perm (due (cycles inputs) u) := by
    rw [← landed_live]
    exact landed_perm (same.append_right _)
  have one : (due (cycles inputs) u).length ≤ 1 := by
    rw [← shuffled.length_eq]
    exact (live_distinct agrees).one_landed
  exact ⟨single_perm one shuffled,one⟩

-- Where no flush meets a division, no division is killed under its reservation and none of
-- the long instructions is without elements: one instruction completes a cycle at most, each
-- one that no flush meets appears after its stages, and nothing else appears.
theorem simd_results_exactly_once (inputs : Nat → Input α) (admits : Admits machine inputs)
    (calm : ∀ t, Calm (trace machine inputs t) (inputs t)) :
    (∀ u, (completing (trace machine inputs u) (inputs u)).length ≤ 1) ∧
    (∀ t op, issued (trace machine inputs t) (inputs t) = some op →
      (∀ v < t + (op.exeStages - 1), t ≤ v → (inputs v).flush = false) →
      completing (trace machine inputs (t + (op.exeStages - 1))) (inputs (t + (op.exeStages - 1))) = [op] ∧
      (writes op = true →
        shows (trace machine inputs (t + (op.exeStages - 1))) (inputs (t + (op.exeStages - 1))) = [op])) ∧
    (∀ u op, op ∈ shows (trace machine inputs u) (inputs u) →
      ∃! t, ∃ found, issued (trace machine inputs t) (inputs t) = some found ∧ t + (found.exeStages - 1) = u ∧
        (∀ v < u, t ≤ v → (inputs v).flush = false) ∧ op = found) := by
  have issue : ∀ t op, issued (trace machine inputs t) (inputs t) = some op →
      (cycles inputs t).issue = some ⟨op,op.exeStages - 1⟩ := by
    intro t op found
    simp [cycles,cycle,found]
  have shown : ∀ u, shows (trace machine inputs u) (inputs u) = (due (cycles inputs) u).filter writes := by
    intro u
    rw [shows_completing (trace_held admits calm u).1,(completing_due admits calm u).1]
  refine ⟨?_,?_,?_⟩
  · intro u
    rw [(completing_due admits calm u).1]
    exact (completing_due admits calm u).2
  · intro t op found quiet
    obtain ⟨completes,one⟩ := completing_due admits calm (t + (op.exeStages - 1))
    have member : op ∈ due (cycles inputs) (t + (op.exeStages - 1)) :=
      due_mem.mpr ⟨t,_,issue t op found,rfl,quiet,rfl⟩
    refine ⟨completes.trans (single_mem one member),?_⟩
    intro write
    rw [shown,single_mem one member]
    simp [write]
  · intro u op member
    rw [shown,List.mem_filter] at member
    obtain ⟨t,flight,issued,same,quiet,ends⟩ := due_mem.mp member.1
    obtain ⟨found,here,rfl⟩ := Option.map_eq_some_iff.mp issued
    refine ⟨t,⟨found,here,ends,quiet,same.symm⟩,?_⟩
    rintro other ⟨again,foundAgain,endsAgain,quietAgain,_⟩
    exact due_unique (completing_due admits calm u).2 (issue other again foundAgain) quietAgain endsAgain issued quiet ends

end

def divide : RrExeInstr Unit where
  instr := { InstrEntry.zero with valid := true, unit := .simd, instrType := .vdiv, vregfileWe := true, vl := 16 }
  dataRs1 := 0
  dataRs2 := 0
  dataVs1 := 7
  dataVs2 := 9
  rdy1 := true
  rdy2 := true
  frdy1 := true
  frdy2 := true
  frdy3 := true
  vrdy1 := true
  vrdy2 := true
  vrdyOldVd := true
  vrdym := true
  dataRs3 := 0
  prd := 0
  pvd := 3
  fprd := 0
  glIndex := 5
  carried := ()

def free : Grants := ⟨true,true,true,true,false,false,false,false⟩

def bubble (flush : Bool) : Input Unit := ⟨{ divide with instr := InstrEntry.zero },false,flush,free⟩

-- The division alone, with a flush one cycle after it or without
def sample (flush : Bool) : Nat → Input Unit
  | 0 => ⟨divide,false,false,free⟩
  | 1 => bubble flush
  | _ => bubble false

def division32 : SimdInstr Unit := { simdOperands divide with exeStages := 32 }

theorem bubble_issues (s : State Unit) (flush : Bool) : issued s (bubble flush) = none := by
  rcases issued_cases s (bubble flush) with ⟨none,_⟩ | ⟨_,_,unit,_⟩
  · exact none
  · cases unit

theorem bubble_decoded (flush : Bool) : Decoded (bubble flush) := by
  intro valid
  cases valid

theorem bubble_calm (s : State Unit) : Calm s (bubble false) where
  flush := by intro flushed; cases flushed
  kill := by intro killed; cases killed
  elements := by
    intro op found
    rw [bubble_issues] at found
    cases found

theorem sample_admits (flush : Bool) : Admits machine (sample flush) := by
  intro t
  rcases t with _ | _ | t
  · intro _ _
    rfl
  · exact bubble_decoded flush
  · exact bubble_decoded false

theorem sample_issued (flush : Bool) : issued (trace machine (sample flush) 0) (sample flush 0) = some division32 := by
  cases flush <;> decide

theorem sample_calm (t : Nat) : Calm (trace machine (sample false) t) (sample false t) := by
  rcases t with _ | _ | t
  · refine ⟨?_,?_,?_⟩
    · intro flushed; cases flushed
    · intro killed; cases killed
    · intro op found _ _
      obtain rfl := Option.some.inj ((sample_issued false).symm.trans found)
      decide
  · exact bubble_calm _
  · exact bubble_calm _

theorem sample_quiet (v : Nat) : (sample false v).flush = false := by
  rcases v with _ | _ | v <;> rfl

theorem simd_results_exactly_once_sample :
    shows (trace machine (sample false) 31) (sample false 31) = [division32] :=
  ((simd_results_exactly_once (sample false) (sample_admits false) sample_calm).2.1 0 division32 (sample_issued false)
    fun v _ _ => sample_quiet v).2 rfl

-- The flush in cycle 1 does not stop the division: it appears in cycle 31.
theorem flushed_division_shown :
    Admits machine (sample true) ∧ (sample true 1).flush = true ∧
      issued (trace machine (sample true) 0) (sample true 0) = some division32 ∧
      shows (trace machine (sample true) 31) (sample true 31) = [division32] ∧
      ¬ ∀ u op, op ∈ shows (trace machine (sample true) u) (sample true u) →
        ∃ t found, issued (trace machine (sample true) t) (sample true t) = some found ∧ t + (found.exeStages - 1) = u ∧
          (∀ v < u, t ≤ v → (sample true v).flush = false) ∧ op = found := by
  have shown : shows (trace machine (sample true) 31) (sample true 31) = [division32] := by decide
  refine ⟨sample_admits true,rfl,sample_issued true,shown,?_⟩
  intro sound
  obtain ⟨t,found,issue,ends,quiet,_⟩ := sound 31 division32 (by rw [shown]; exact List.mem_singleton.mpr rfl)
  rcases t with _ | _ | t
  · exact absurd (quiet 1 (by decide) (by decide)) (by decide)
  · cases (bubble_issues _ true).symm.trans issue
  · cases (bubble_issues _ false).symm.trans issue

end Sargantana.SimdSchedule
