import Sargantana.SimdSchedule
import Sargantana.VdivLane

-- The two lanes of vdiv under score_board_simd and simd_unit. The divisions have no
-- immediate forms, so the first operand is vs1 or the scalar register.
namespace Sargantana.VdivSchedule
open DracPkg ExeStage ScoreBoardSimd SimdSchedule StateMachine Vdiv VdivLane Sargantana.Packed

variable {α : Type}

structure State (α : Type) where
  schedule : SimdSchedule.State α
  lanes : Fin 2 → Vdiv.State

def rs1Replicated (sew : Fin 4) (dataRs1 : BitVec 64) : BitVec 128 :=
  pack 128 (2 * count sew) fun _ => (dataRs1.truncate (bits sew) : BitVec (bits sew))

-- vs1_elements and vs2_elements
def vs1Elements (op : SimdInstr α) (l : Fin 2) : BitVec 64 :=
  (if op.instr.isOpvx then rs1Replicated op.instr.sew op.dataRs1 else op.dataVs1).extractLsb' (64 * l.val) 64

def vs2Elements (op : SimdInstr α) (l : Fin 2) : BitVec 64 := op.dataVs2.extractLsb' (64 * l.val) 64

def laneInput (op : SimdInstr α) (l : Fin 2) : Vdiv.Input where
  instrType := op.instr.instrType
  instrValid := op.instr.valid
  sew := op.instr.sew
  dataVs1 := vs1Elements op l
  dataVs2 := vs2Elements op l
  exeStages := op.exeStages

def next (s : State α) (i : SimdSchedule.Input α) : State α where
  schedule := SimdSchedule.next s.schedule i
  lanes l := Vdiv.next (s.lanes l) (laneInput (instruction s.schedule i) l)

-- result_vdiv_vrem
def result (s : State α) (i : SimdSchedule.Input α) (l : Fin 2) : BitVec 64 :=
  dataVd (s.lanes l) (laneInput (instruction s.schedule i) l)

def starts (s : State α) (i : SimdSchedule.Input α) : Bool :=
  isVdiv i.from_rr.instr.instrType && (instruction s.schedule i).instr.valid

-- The width of the last division, which the divider uses in the first cycle of the next
def sameWidth (s : State α) (i : SimdSchedule.Input α) : Bool :=
  (s.lanes 0).sew == i.from_rr.instr.sew && (s.lanes 1).sew == i.from_rr.instr.sew

-- The scoreboard and simd_unit remember the same division.
def sameMemory (s : State α) : Bool := s.schedule.board.previousDiv == s.schedule.unit.previousDiv

-- The condition on a division: it has the width of the last one, and when it is to take one
-- cycle the two memories agree and the condition held since the last long division.
def steadyNext (before : Bool) (s : State α) (i : SimdSchedule.Input α) : Bool :=
  if starts s i then sameWidth s i && (assigned s.schedule i != 1 || sameMemory s && before) else before

-- The element e of the result that the instruction owes, of vs2 by vs1 or by the scalar
def divisor (op : SimdInstr α) (e : Nat) : BitVec (bits op.instr.sew) :=
  if op.instr.isOpvx then op.dataRs1.truncate (bits op.instr.sew) else element (bits op.instr.sew) e op.dataVs1

def rvv (op : SimdInstr α) (e : Nat) : BitVec (bits op.instr.sew) :=
  if isDivision op.instr.instrType then
    MExtension.quotient (isSigned op.instr.instrType) (element (bits op.instr.sew) e op.dataVs2) (divisor op e)
  else MExtension.remainder (isSigned op.instr.instrType) (element (bits op.instr.sew) e op.dataVs2) (divisor op e)

section
variable [Inhabited α]

def machine : Machine (State α) (SimdSchedule.Input α) where
  initial := ⟨⟨ScoreBoardSimd.reset,SimdUnit.reset⟩,fun _ => Vdiv.reset⟩
  allowed _ _ := True
  step := next

def steady (inputs : Nat → SimdSchedule.Input α) : Nat → Bool
  | 0 => true
  | t + 1 => steadyNext (steady inputs t) (trace machine inputs t) (inputs t)

end

theorem vdiv_kind {t : InstrType} : (isDivision t || isRemainder t) = isVdiv t := by
  cases t <;> rfl

theorem lane_starts (s : State α) (i : SimdSchedule.Input α) (l : Fin 2) :
    (laneInput (instruction s.schedule i) l).starts = starts s i := by
  rw [Input.starts,starts]
  exact congrArg (· && _) vdiv_kind

theorem lane_dividend (op : SimdInstr α) (l : Fin 2) {k : Nat} (inside : k < count op.instr.sew) :
    dividend (laneInput op l) k = element (bits op.instr.sew) (l.val * count op.instr.sew + k) op.dataVs2 :=
  element_slice (bits_count _) _ inside

theorem lane_divider (op : SimdInstr α) (l : Fin 2) {k : Nat} (inside : k < count op.instr.sew) :
    divider (laneInput op l) k = divisor op (l.val * count op.instr.sew + k) := by
  have slice := element_slice (l := l.val) (bits_count op.instr.sew)
    (if op.instr.isOpvx then rs1Replicated op.instr.sew op.dataRs1 else op.dataVs1) inside
  refine slice.trans ?_
  rw [divisor]
  cases op.instr.isOpvx with
  | false => rfl
  | true =>
    have rows := bits_count op.instr.sew
    have lane := l.isLt
    have within : l.val * count op.instr.sew + k < 2 * count op.instr.sew := by
      have most : l.val * count op.instr.sew ≤ 1 * count op.instr.sew := Nat.mul_le_mul_right _ (by omega)
      omega
    exact element_pack _ within (by rw [Nat.mul_assoc,rows])

theorem lane_owed (op : SimdInstr α) (l : Fin 2) {k : Nat} (inside : k < count op.instr.sew) :
    owed (laneInput op l) k = rvv op (l.val * count op.instr.sew + k) := by
  rw [owed,value,lane_dividend op l inside,lane_divider op l inside]
  rfl

theorem pairs_signed {previous current : InstrType} (paired : pairs previous current = true) :
    isSigned previous = isSigned current := by
  simp only [pairs,Bool.or_eq_true,Bool.and_eq_true,beq_iff_eq] at paired
  rcases paired with (((same | ⟨first,second⟩) | ⟨first,second⟩) | ⟨first,second⟩) | ⟨first,second⟩
  · rw [same]
  all_goals rw [first,second]; rfl

-- A division that the scoreboard takes for one cycle divides the same elements as the last.
theorem one_clock_operands {job op : SimdInstr α} (matched : isDiv1Clock (PreviousDiv.of job) op = true)
    (width : job.instr.sew = op.instr.sew) (l : Fin 2) : SameOperands (laneInput job l) (laneInput op l) := by
  unfold isDiv1Clock at matched
  split at matched
  · cases matched
  · rename_i same
    split at matched
    · rename_i paired
      have form : job.instr.isOpvx = op.instr.isOpvx := by simpa [PreviousDiv.of] using same
      simp only [PreviousDiv.of,form] at matched
      have operands : job.dataVs2 = op.dataVs2 ∧
          if op.instr.isOpvx then job.dataRs1 = op.dataRs1 else job.dataVs1 = op.dataVs1 := by
        cases scalar : op.instr.isOpvx <;> simpa [scalar] using matched
      refine ⟨width,?_,congrArg (fun data => data.extractLsb' (64 * l.val) 64) operands.1,pairs_signed paired⟩
      have first := operands.2
      simp only [laneInput,vs1Elements,form,width]
      split at first
      · rw [if_pos ‹_›,if_pos ‹_›,first]
      · rw [if_neg ‹_›,if_neg ‹_›,first]
    · cases matched

-- The cases of a cycle: no division comes in, one of a single clock, or a long one.
inductive Comes (s : State α) (i : SimdSchedule.Input α) : Prop where
  | none (waits : starts s i = false)
  | short (comes : starts s i = true) (one : assigned s.schedule i = 1)
      (matched : isDiv1Clock s.schedule.board.previousDiv (instruction s.schedule i) = true)
  | long (comes : starts s i = true) (stages : assigned s.schedule i = 32)

theorem starts_issued {s : State α} {i : SimdSchedule.Input α} (comes : starts s i = true) :
    isVdiv i.from_rr.instr.instrType = true ∧ i.from_rr.instr.unit = .simd ∧ ready i.from_rr = true ∧
      stall s.schedule i = false := by
  simp only [starts,Bool.and_eq_true] at comes
  rcases issued_cases s.schedule i with ⟨_,idle⟩ | ⟨_,_,unit,rdy,_,free⟩
  · rw [comes.2] at idle; cases idle
  · exact ⟨comes.1,unit,rdy,free⟩

theorem stages_vdiv {previous : PreviousDiv} {asks : Bool} {op : SimdInstr α} (vdiv : isVdiv op.instr.instrType = true) :
    stages previous asks op = if isDiv1Clock previous op && asks then 1 else 32 := by
  have others : isVmul op.instr.instrType = false ∧ isVmaddVsmul op.instr.instrType = false ∧
      isVred op.instr.instrType = false := by
    cases kind : op.instr.instrType <;> simp_all [isVdiv,isVmul,isVmaddVsmul,isVred]
  simp [stages,others,vdiv]

theorem comes (s : State α) (i : SimdSchedule.Input α) : Comes s i := by
  cases comes : starts s i with
  | false => exact .none comes
  | true =>
    obtain ⟨vdiv,_,rdy,_⟩ := starts_issued comes
    have count : assigned s.schedule i =
        if isDiv1Clock s.schedule.board.previousDiv (simdOperands i.from_rr) && ready i.from_rr then 1 else 32 :=
      stages_vdiv vdiv
    rw [rdy,Bool.and_true] at count
    cases matched : isDiv1Clock s.schedule.board.previousDiv (simdOperands i.from_rr) with
    | false => exact .long comes (by rw [count,matched]; rfl)
    | true => exact .short comes (by rw [count,matched]; rfl) matched

-- While a long division is in the pipe of the scoreboard, no other comes in.
theorem pipe_waits {s : State α} {i : SimdSchedule.Input α} {cell : Nat} (inside : cell < 31)
    (there : s.schedule.board.divisionPipe cell = true) : starts s i = false := by
  rw [Bool.eq_false_iff]
  intro comes
  obtain ⟨vdiv,_,_,free⟩ := starts_issued comes
  simp only [stall,stallSimd,Bool.or_eq_false_iff] at free
  have none := free.2
  change (isVdiv i.from_rr.instr.instrType && (List.range 31).any s.schedule.board.divisionPipe) = false at none
  rw [vdiv,Bool.true_and,List.any_eq_false] at none
  exact none cell (List.mem_range.mpr inside) there

theorem pipe_next {s : State α} {i : SimdSchedule.Input α} {cell : Nat} (inside : cell < 30)
    (there : s.schedule.board.divisionPipe cell = true) :
    (next s i).schedule.board.divisionPipe (cell + 1) = true := by
  have within : cell + 1 < 31 := by omega
  simp [next,SimdSchedule.next,ScoreBoardSimd.next,within,there]

theorem pipe_start {s : State α} {i : SimdSchedule.Input α} (comes : starts s i = true)
    (long : assigned s.schedule i = 32) : (next s i).schedule.board.divisionPipe 0 = true := by
  obtain ⟨vdiv,unit,rdy,free⟩ := starts_issued comes
  change (isVdiv i.from_rr.instr.instrType && assigned s.schedule i == 32 &&
    (!stall s.schedule i && ready i.from_rr && i.from_rr.instr.unit == .simd)) = true
  simp [vdiv,long,free,rdy,unit]

-- Both lanes are on the division, and a long one is booked as far as they are.
structure Dividing (s : State α) (job : SimdInstr α) (progress : Option Nat) : Prop where
  lanes : ∀ l, Lane (s.lanes l) (laneInput job l) progress
  booked : ∀ k, progress = some k → ∃ cell < 31, k = cell + 1 ∧ s.schedule.board.divisionPipe cell = true

theorem Dividing.waits {s : State α} {job : SimdInstr α} {k : Nat} (dividing : Dividing s job (some k))
    (i : SimdSchedule.Input α) : starts s i = false := by
  obtain ⟨cell,inside,_,there⟩ := dividing.booked k rfl
  exact pipe_waits inside there

theorem sameWidth_lane {s : State α} {i : SimdSchedule.Input α} (same : sameWidth s i = true) (l : Fin 2) :
    (s.lanes l).sew = i.from_rr.instr.sew := by
  simp only [sameWidth,Bool.and_eq_true,beq_iff_eq] at same
  match l with
  | 0 => exact same.1
  | 1 => exact same.2

theorem dividing_start {s : State α} {i : SimdSchedule.Input α} (comes : starts s i = true)
    (long : assigned s.schedule i = 32) (same : sameWidth s i = true) :
    Dividing (next s i) (instruction s.schedule i) (some 1) where
  lanes l := lane_start (i := laneInput (instruction s.schedule i) l) ((lane_starts s i l).trans comes)
    (sameWidth_lane same l)
  booked k first := by
    cases first
    exact ⟨0,by decide,rfl,pipe_start comes long⟩

theorem dividing_next {s : State α} {job : SimdInstr α} {k : Nat} (dividing : Dividing s job (some k))
    (i : SimdSchedule.Input α) (before : k < 31) : Dividing (next s i) job (some (k + 1)) where
  lanes l := lane_next (dividing.lanes l) ((lane_starts s i l).trans (dividing.waits i)) before
  booked n same := by
    cases same
    obtain ⟨cell,inside,rfl,there⟩ := dividing.booked k rfl
    exact ⟨cell + 1,before,rfl,pipe_next (by omega) there⟩

theorem dividing_end {s : State α} {job : SimdInstr α} (dividing : Dividing s job (some 31))
    (i : SimdSchedule.Input α) : Dividing (next s i) job none where
  lanes l := lane_end (dividing.lanes l) ((lane_starts s i l).trans (dividing.waits i))
  booked := by intro k none; cases none

theorem dividing_stays {s : State α} {job : SimdInstr α} {i : SimdSchedule.Input α} (dividing : Dividing s job none)
    (waits : starts s i = false) : Dividing (next s i) job none where
  lanes l := lane_stays (dividing.lanes l) ((lane_starts s i l).trans waits)
  booked := by intro k none; cases none

theorem Dividing.width {s : State α} {job : SimdInstr α} {progress : Option Nat} (dividing : Dividing s job progress) :
    (s.lanes 0).sew = job.instr.sew := by
  obtain ⟨working,_⟩ | ⟨working,_⟩ := dividing.lanes 0
  · exact working.holds.sew
  · exact working.holds.sew

theorem dividing_again {s : State α} {job : SimdInstr α} {i : SimdSchedule.Input α} (dividing : Dividing s job none)
    (comes : starts s i = true) (matched : isDiv1Clock (PreviousDiv.of job) (instruction s.schedule i) = true)
    (same : sameWidth s i = true) : Dividing (next s i) (instruction s.schedule i) none where
  lanes l := lane_again (dividing.lanes l) ((lane_starts s i l).trans comes)
    (one_clock_operands matched (dividing.width.symm.trans (sameWidth_lane same 0)) l)
  booked := by intro k none; cases none

-- The lanes are on the last division that simd_unit took, when there was one.
def Remembers (s : State α) : Prop :=
  s.schedule.unit.previousDiv = .reset ∨
    ∃ job progress, s.schedule.unit.previousDiv = PreviousDiv.of job ∧ Dividing s job progress

theorem next_previous_none {s : State α} {i : SimdSchedule.Input α} (waits : starts s i = false) :
    (next s i).schedule.unit.previousDiv = s.schedule.unit.previousDiv := by
  change (if starts s i then _ else s.schedule.unit.previousDiv) = _
  rw [waits]
  rfl

theorem next_previous_some {s : State α} {i : SimdSchedule.Input α} (comes : starts s i = true) :
    (next s i).schedule.unit.previousDiv = PreviousDiv.of (instruction s.schedule i) := by
  change (if starts s i then _ else s.schedule.unit.previousDiv) = _
  rw [comes]
  rfl

theorem reset_unmatched {op : SimdInstr α} (vdiv : isVdiv op.instr.instrType = true) :
    isDiv1Clock .reset op = false := by
  have apart : pairs PreviousDiv.reset.instrType op.instr.instrType = false := by
    cases kind : op.instr.instrType <;> simp_all [isVdiv,pairs,PreviousDiv.reset]
  unfold isDiv1Clock
  rw [apart]
  simp

theorem remembered {s : State α} {i : SimdSchedule.Input α} (remembers : Remembers s) (memory : sameMemory s = true)
    (comes : starts s i = true)
    (matched : isDiv1Clock s.schedule.board.previousDiv (instruction s.schedule i) = true) :
    ∃ job, isDiv1Clock (PreviousDiv.of job) (instruction s.schedule i) = true ∧ Dividing s job none := by
  rw [beq_iff_eq.mp memory] at matched
  rcases remembers with fresh | ⟨job,progress,same,dividing⟩
  · rw [fresh] at matched
    cases matched.symm.trans (reset_unmatched (starts_issued comes).1)
  · rw [same] at matched
    cases progress with
    | none => exact ⟨job,matched,dividing⟩
    | some k =>
      rw [dividing.waits i] at comes
      cases comes

theorem remembers_next {s : State α} {i : SimdSchedule.Input α} {before : Bool}
    (remembers : before = true → Remembers s) (steady : steadyNext before s i = true) : Remembers (next s i) := by
  unfold steadyNext at steady
  cases VdivSchedule.comes s i with
  | none waits =>
    rw [waits] at steady
    rcases remembers steady with fresh | ⟨job,progress,same,dividing⟩
    · exact .inl ((next_previous_none waits).trans fresh)
    · have kept := (next_previous_none waits).trans same
      cases progress with
      | none => exact .inr ⟨job,none,kept,dividing_stays dividing waits⟩
      | some k =>
        obtain ⟨cell,inside,_,_⟩ := dividing.booked k rfl
        by_cases before : k < 31
        · exact .inr ⟨job,_,kept,dividing_next dividing i before⟩
        · obtain rfl : k = 31 := by omega
          exact .inr ⟨job,none,kept,dividing_end dividing i⟩
  | short comes one matched =>
    rw [comes,if_pos rfl,one] at steady
    obtain ⟨width,memory,earlier⟩ : sameWidth s i = true ∧ sameMemory s = true ∧ before = true := by
      simpa using steady
    obtain ⟨job,match',dividing⟩ := remembered (remembers earlier) memory comes matched
    exact .inr ⟨_,none,next_previous_some comes,dividing_again dividing comes match' width⟩
  | long comes stages =>
    rw [comes,if_pos rfl,Bool.and_eq_true] at steady
    exact .inr ⟨_,_,next_previous_some comes,dividing_start comes stages steady.1⟩

theorem pipe_quiet {s : SimdSchedule.State α} {i : SimdSchedule.Input α} (last : s.board.divisionPipe 30 = true) :
    ((instruction s i).instr.valid && (instruction s i).exeStages == 1) = false := by
  rw [Bool.eq_false_iff]
  intro both
  obtain ⟨valid,one⟩ := Bool.and_eq_true_iff.mp both
  rcases issued_cases s i with ⟨_,idle⟩ | ⟨_,_,_,_,_,free⟩
  · rw [valid] at idle; cases idle
  · have taken : assigned s i = 1 := beq_iff_eq.mp one
    simp only [stall,stallSimd,Bool.or_eq_false_iff] at free
    have pipe := free.1.2
    change s.board.divisionPipe ((32 - assigned s i + 31) % 32) = false at pipe
    rw [taken,last] at pipe
    cases pipe

theorem issued_starts {s : State α} {i : SimdSchedule.Input α} {op : SimdInstr α} (issue : issued s.schedule i = some op)
    (vdiv : isVdiv op.instr.instrType = true) : op = instruction s.schedule i ∧ starts s i = true := by
  rcases issued_cases s.schedule i with ⟨none,_⟩ | ⟨some,valid,_⟩
  · rw [none] at issue; cases issue
  · obtain rfl : instruction s.schedule i = op := Option.some.inj (some.symm.trans issue)
    exact ⟨rfl,by rw [starts,valid,Bool.and_true]; exact vdiv⟩

section
variable [Inhabited α]

theorem trace_remembers (inputs : Nat → SimdSchedule.Input α) (t : Nat) (clean : steady inputs t = true) :
    Remembers (trace machine inputs t) := by
  induction t with
  | zero => exact .inl rfl
  | succ t ih => exact remembers_next ih clean

-- A long division is alone in the lanes for its thirty-two cycles.
theorem trace_dividing {inputs : Nat → SimdSchedule.Input α} {t : Nat}
    (comes : starts (trace machine inputs t) (inputs t) = true)
    (long : assigned (trace machine inputs t).schedule (inputs t) = 32)
    (same : sameWidth (trace machine inputs t) (inputs t) = true) (k : Nat) (before : k < 31) :
    Dividing (trace machine inputs (t + (k + 1))) (instruction (trace machine inputs t).schedule (inputs t))
      (some (k + 1)) := by
  induction k with
  | zero => exact dividing_start comes long same
  | succ k ih => exact dividing_next (ih (by omega)) (inputs (t + (k + 1))) (by omega)

theorem long_result {inputs : Nat → SimdSchedule.Input α} {t : Nat}
    (comes : starts (trace machine inputs t) (inputs t) = true)
    (long : assigned (trace machine inputs t).schedule (inputs t) = 32)
    (same : sameWidth (trace machine inputs t) (inputs t) = true) (l : Fin 2) {k : Nat}
    (inside : k < count (inputs t).from_rr.instr.sew) :
    element (bits (inputs t).from_rr.instr.sew) k (result (trace machine inputs (t + 31)) (inputs (t + 31)) l) =
      rvv (instruction (trace machine inputs t).schedule (inputs t)) (l.val * count (inputs t).from_rr.instr.sew + k) := by
  have dividing := trace_dividing comes long same 30 (by decide)
  obtain ⟨cell,_,place,there⟩ := dividing.booked 31 rfl
  obtain rfl : cell = 30 := by omega
  have shown := lane_shows (dividing.lanes l) ((lane_starts _ _ l).trans (dividing.waits (inputs (t + 31))))
    (pipe_quiet there) (k := k) inside
  exact shown.trans (lane_owed _ l inside)

theorem short_result {inputs : Nat → SimdSchedule.Input α} {t : Nat} (clean : steady inputs (t + 1) = true)
    (comes : starts (trace machine inputs t) (inputs t) = true)
    (one : assigned (trace machine inputs t).schedule (inputs t) = 1)
    (matched : isDiv1Clock (trace machine inputs t).schedule.board.previousDiv
      (instruction (trace machine inputs t).schedule (inputs t)) = true)
    (l : Fin 2) {k : Nat} (inside : k < count (inputs t).from_rr.instr.sew) :
    element (bits (inputs t).from_rr.instr.sew) k (result (trace machine inputs t) (inputs t) l) =
      rvv (instruction (trace machine inputs t).schedule (inputs t)) (l.val * count (inputs t).from_rr.instr.sew + k) := by
  rw [steady,steadyNext,comes,if_pos rfl,one] at clean
  obtain ⟨width,memory,earlier⟩ : sameWidth (trace machine inputs t) (inputs t) = true ∧
      sameMemory (trace machine inputs t) = true ∧ steady inputs t = true := by simpa using clean
  obtain ⟨job,match',dividing⟩ := remembered (trace_remembers inputs t earlier) memory comes matched
  have answered := lane_answers (dividing.lanes l) ((lane_starts _ _ l).trans comes) one
    (one_clock_operands match' (dividing.width.symm.trans (sameWidth_lane width 0)) l) (k := k) inside
  exact answered.trans (lane_owed _ l inside)

-- In every run, a division that finds the width of the last one in the divider shows the
-- result of the instruction set for its own operands. One that takes a single cycle needs the
-- same of the divisions since the last long one, and that the two memories agree.
theorem vector_divisions_exact (inputs : Nat → SimdSchedule.Input α) (t : Nat) (op : SimdInstr α)
    (issue : issued (trace machine inputs t).schedule (inputs t) = some op)
    (vdiv : isVdiv op.instr.instrType = true) (clean : steady inputs (t + 1) = true) (l : Fin 2) (k : Nat)
    (inside : k < count op.instr.sew) :
    element (bits op.instr.sew) k
        (result (trace machine inputs (t + (op.exeStages - 1))) (inputs (t + (op.exeStages - 1))) l) =
      rvv op (l.val * count op.instr.sew + k) := by
  obtain ⟨rfl,here⟩ := issued_starts issue vdiv
  have stages : (instruction (trace machine inputs t).schedule (inputs t)).exeStages =
      assigned (trace machine inputs t).schedule (inputs t) := rfl
  rw [stages]
  cases comes (trace machine inputs t) (inputs t) with
  | none waits => rw [waits] at here; cases here
  | short _ one matched =>
    rw [one]
    exact short_result clean here one matched l inside
  | long _ long =>
    rw [steady,steadyNext,here,if_pos rfl,Bool.and_eq_true] at clean
    rw [long]
    exact long_result here long clean.1 l inside

end

def dividing (type : InstrType) (vs1 vs2 : BitVec 128) : SimdSchedule.Input Unit :=
  ⟨{ divide with
    instr := { divide.instr with instrType := type }
    dataVs1 := vs1
    dataVs2 := vs2 },false,false,free⟩

def taken (i : SimdSchedule.Input Unit) (stages : Nat) : SimdInstr Unit := { simdOperands i.from_rr with exeStages := stages }

-- A division, the remainder of the same operands in the cycle behind it, and another division
def three : Nat → SimdSchedule.Input Unit
  | 0 => dividing .vdiv 0x0503 0xc864
  | 32 => dividing .vrem 0x0503 0xc864
  | 33 => dividing .vdiv 0x0402 0x1109
  | _ => bubble false

set_option maxRecDepth 1024 in
theorem vector_divisions_exact_bytes :
    element 8 1 (result (trace machine three 31) (three 31) 0) = rvv (taken (three 0) 32) 1 ∧
      element 8 1 (result (trace machine three 32) (three 32) 0) = rvv (taken (three 32) 1) 1 ∧
      element 8 1 (result (trace machine three 64) (three 64) 0) = rvv (taken (three 33) 32) 1 :=
  ⟨vector_divisions_exact three 0 (taken (three 0) 32) (by decide) rfl (by decide) 0 1 (by decide),
    vector_divisions_exact three 32 (taken (three 32) 1) (by decide) rfl (by decide) 0 1 (by decide),
    vector_divisions_exact three 33 (taken (three 33) 32) (by decide) rfl (by decide) 0 1 (by decide)⟩

-- The first division after reset, of halfwords: 0x8000 by one in the top of the lane
def widerRun (t : Nat) : SimdSchedule.Input Unit :=
  if t = 0 then
    ⟨{ divide with
      instr := { divide.instr with instrType := .vdivu, sew := 1, vl := 8 }
      dataVs1 := 0x0001000000000000
      dataVs2 := 0x8000000000000000 },false,false,free⟩
  else bubble false

set_option maxRecDepth 1024 in
-- The divider takes the width of the bytes for it, and the quotient is zero.
theorem vector_divisions_exact_fails : ¬ ∀ (inputs : Nat → SimdSchedule.Input Unit) (t : Nat) (op : SimdInstr Unit),
    issued (trace machine inputs t).schedule (inputs t) = some op → isVdiv op.instr.instrType = true →
    ∀ (l : Fin 2) (k : Nat), k < count op.instr.sew →
      element (bits op.instr.sew) k
          (result (trace machine inputs (t + (op.exeStages - 1))) (inputs (t + (op.exeStages - 1))) l) =
        rvv op (l.val * count op.instr.sew + k) := by
  intro every
  have wrong := every widerRun 0 (instruction (trace machine widerRun 0).schedule (widerRun 0)) (by decide) rfl 0 3
    (by decide)
  revert wrong
  decide

end Sargantana.VdivSchedule
