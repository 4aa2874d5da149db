import Sargantana.DivUnit
import Sargantana.ExeStage
import Sargantana.Lib.StateMachine
import Sargantana.Lib.Schedule

-- The multiplier, the two dividers and their scoreboard as exe_stage drives them: the
-- writeback port has no arbiter, so the reservations must match the latencies.
namespace Sargantana.ScalarSchedule
open DracPkg ExeStage StateMachine Schedule

variable {α : Type}

section
variable [Inhabited α]

structure State (α : Type) where
  board : ScoreBoardScalar.State
  mul : MulUnit.State α
  div : DivUnit.State α

-- One clock cycle: the instruction in the register read stage, and the signals that
-- score_board_scalar has no part in.
structure Input (α : Type) where
  from_rr : RrExeInstr α
  kill : Bool
  flush : Bool
  stallMem : Bool
  stallVagu : Bool
  stallFpu : Bool
  stallSimd : Bool

def grants (s : State α) (input : Input α) : Grants where
  readyMul32 := ScoreBoardScalar.readyMul32 s.board
  readyMul64 := ScoreBoardScalar.readyMul64 s.board
  readyDiv32 := ScoreBoardScalar.readyDiv32 s.board
  readyDivUnit := ScoreBoardScalar.readyDivUnit s.board
  stallMem := input.stallMem
  stallVagu := input.stallVagu
  stallFpu := input.stallFpu
  stallSimd := input.stallSimd

def arith (s : State α) (input : Input α) : ArithInstr α := arithInstr (grants s input) input.from_rr input.kill

def sets (s : State α) (input : Input α) : ScoreBoardScalar.Sets := (issue (grants s input) input.from_rr input.kill).sets

def next (s : State α) (input : Input α) : State α where
  board := ScoreBoardScalar.next s.board input.flush (sets s input)
  mul := MulUnit.next s.mul input.flush (arith s input)
  div := DivUnit.next s.div input.flush (ScoreBoardScalar.divUnitSel s.board) (arith s input)

-- No contract: every instruction, kill and flush may come in every cycle.
def machine : Machine (State α) (Input α) where
  initial := ⟨ScoreBoardScalar.reset,.reset,DivUnit.reset⟩
  allowed _ _ := True
  step := next

-- The operation that a cycle writes into the multiplier or into a divider
def issued (s : State α) (input : Input α) : Option (ArithInstr α) :=
  if MulUnit.accepts (arith s input) || DivUnit.accepts (arith s input) then some (arith s input) else none

def latency (op : ArithInstr α) : Nat :=
  if op.instr.unit == .mul then (if op.instr.op32 then 1 else 2) else (if op.instr.op32 then 17 else 33)

def valid (wb : ScalarWb α) : List (ScalarWb α) := if wb.valid then [wb] else []

-- What the multiplier, the first and the second divider present in a cycle
def presented (s : State α) : List (ScalarWb α) :=
  valid (MulUnit.output s.mul) ++ (if (s.div false).ends then valid (s.div false).output else []) ++
    (if (s.div true).ends then valid (s.div true).output else [])

-- mul_div_to_scalar_wb_o
def writeback (s : State α) : ScalarWb α :=
  if (MulUnit.output s.mul).valid then MulUnit.output s.mul
  else if (DivUnit.output s.div).valid then DivUnit.output s.div
  else MulUnit.wbZero

def outcome (op : ArithInstr α) : ScalarWb α :=
  if op.instr.unit == .mul then
    { MulUnit.entry op with
      result := if op.instr.op32 then (MulUnit.First.load op).result32
        else (MulUnit.Second.load (MulUnit.First.load op)).result64 }
  else (DivUnit.Divider.step^[latency op - 1] (DivUnit.Divider.load op)).output

def cycle (s : State α) (input : Input α) : Beat (ArithInstr α) where
  issue := (issued s input).map fun op => ⟨op,latency op⟩
  flush := input.flush

def cycles (inputs : Nat → Input α) (t : Nat) : Beat (ArithInstr α) := cycle (trace machine inputs t) (inputs t)

-- The cases of a cycle: nothing is issued, a product or a division.
inductive Issues (s : State α) (input : Input α) : Prop where
  | nothing (idle : issued s input = none) (mul : MulUnit.accepts (arith s input) = false)
      (div : DivUnit.accepts (arith s input) = false) (unset : sets s input = ⟨false,false,false,false⟩)
  | product (issue : issued s input = some (arith s input)) (mul : MulUnit.accepts (arith s input) = true)
      (div : DivUnit.accepts (arith s input) = false)
      (set : sets s input = ⟨(arith s input).instr.op32,!(arith s input).instr.op32,false,false⟩)
      (free : s.board.inst.getLsbD (latency (arith s input)) = false)
  | division (issue : issued s input = some (arith s input)) (mul : MulUnit.accepts (arith s input) = false)
      (div : DivUnit.accepts (arith s input) = true)
      (set : sets s input = ⟨false,false,(arith s input).instr.op32,!(arith s input).instr.op32⟩)
      (free : s.board.inst.getLsbD (latency (arith s input)) = false)
      (unit : ScoreBoardScalar.readyDivUnit s.board = true)

-- What the units hold, said by operations: the two stages of the multiplier, and in each
-- divider an operation with its cycles left.
structure Held (α : Type) where
  first : Option (ArithInstr α)
  second : Option (ArithInstr α)
  divider : Bool → Option (Flight (ArithInstr α))

def Held.flights (held : Held α) : List (Flight (ArithInstr α)) :=
  (held.first.map fun op => ⟨op,latency op - 1⟩).toList ++ (held.second.map fun op => ⟨op,0⟩).toList ++
    (held.divider false).toList ++ (held.divider true).toList

def Held.next (held : Held α) (s : State α) (input : Input α) : Held α :=
  if input.flush then ⟨none,none,fun _ => none⟩
  else
    { first := if MulUnit.accepts (arith s input) then some (arith s input) else none
      second := held.first.filter fun op => !op.instr.op32
      divider := fun i =>
        if DivUnit.accepts (arith s input) && i == ScoreBoardScalar.divUnitSel s.board then
          some ⟨arith s input,latency (arith s input) - 1⟩
        else (held.divider i).bind Flight.tick }

-- The operations that stay one more cycle: in the multiplier only a long product does.
def Held.staying (held : Held α) : List (Flight (ArithInstr α)) :=
  ((held.first.filter fun op => !op.instr.op32).map fun op => ⟨op,0⟩).toList ++
    ((held.divider false).bind Flight.tick).toList ++ ((held.divider true).bind Flight.tick).toList

-- A divider works on an operation that has `left` cycles to go.
structure Divides (d : DivUnit.Divider α) (flight : Flight (ArithInstr α)) : Prop where
  division : DivUnit.accepts flight.op = true
  within : flight.left < latency flight.op
  registers : d = DivUnit.Divider.step^[latency flight.op - 1 - flight.left] (DivUnit.Divider.load flight.op)

-- A divider is empty or works on what is held in it.
def Works (d : DivUnit.Divider α) (held : Option (Flight (ArithInstr α))) : Prop :=
  match held with
  | none => d.cyclesCounter = 0
  | some flight => Divides d flight

structure Encodes (s : State α) (held : Held α) : Prop where
  first : s.mul.first = held.first.elim .zero .load
  product : ∀ op, held.first = some op → MulUnit.accepts op = true
  second : s.mul.second = held.second.elim .zero fun op => .load (.load op)
  long : ∀ op, held.second = some op → MulUnit.accepts op = true ∧ op.instr.op32 = false
  works : ∀ i, Works (s.div i) (held.divider i)
  occupied : ∀ i, s.board.ocupDivUnit i = (held.divider i).elim 0 fun flight => BitVec.twoPow 33 flight.left
  booked : ∀ k, s.board.inst.getLsbD k = true ↔ ∃ flight ∈ held.flights, flight.left = k
  distinct : Distinct held.flights

structure Destined (wb : ScalarWb α) (op : ArithInstr α) : Prop where
  valid : wb.valid = true
  rd : wb.rd = op.instr.rd
  regfileWe : wb.regfileWe = op.instr.regfileWe
  prd : wb.prd = op.prd
  glIndex : wb.glIndex = op.glIndex
  instrType : wb.instrType = op.instr.instrType

end

theorem mul_accepts (s : State α) (input : Input α) : MulUnit.accepts (arith s input) =
    (arithValid (grants s input) input.from_rr input.kill && input.from_rr.instr.unit == .mul) := by
  simp [MulUnit.accepts,arith]

theorem div_accepts (s : State α) (input : Input α) : DivUnit.accepts (arith s input) =
    (arithValid (grants s input) input.from_rr input.kill && input.from_rr.instr.unit == .div) := by
  simp [DivUnit.accepts,arith]

theorem issues (s : State α) (input : Input α) : Issues s input := by
  have unitEq : (arith s input).instr.unit = input.from_rr.instr.unit := arithInstr_unit _ _ _
  have op32Eq : (arith s input).instr.op32 = input.from_rr.instr.op32 := arithInstr_op32 _ _ _
  have setsEq : sets s input = _ := issue_sets _ _ _
  have far : s.board.inst.getLsbD 33 = false := BitVec.getLsbD_of_ge _ _ (by decide)
  cases valid : arithValid (grants s input) input.from_rr input.kill with
  | false =>
    have mul : MulUnit.accepts (arith s input) = false := by simp [mul_accepts,valid]
    have div : DivUnit.accepts (arith s input) = false := by simp [div_accepts,valid]
    exact .nothing (by simp [issued,mul,div]) mul div (by simp [setsEq,valid])
  | true =>
    by_cases product : input.from_rr.instr.unit = .mul
    · have mul : MulUnit.accepts (arith s input) = true := by simp [mul_accepts,valid,product]
      have div : DivUnit.accepts (arith s input) = false := by simp [div_accepts,product]
      refine .product (by simp [issued,mul]) mul div (by simp [setsEq,valid,product,op32Eq]) ?_
      have granted := granted_mul _ _ _ valid product
      simp only [latency,unitEq,op32Eq,product,beq_self_eq_true,if_true]
      split <;> simp_all [grants,ScoreBoardScalar.readyMul32,ScoreBoardScalar.readyMul64]
    · by_cases division : input.from_rr.instr.unit = .div
      · have mul : MulUnit.accepts (arith s input) = false := by simp [mul_accepts,division]
        have div : DivUnit.accepts (arith s input) = true := by simp [div_accepts,valid,division]
        have granted := granted_div _ _ _ valid division
        refine .division (by simp [issued,div]) mul div (by simp [setsEq,valid,division,op32Eq]) ?_ granted.1
        have other : (FunctionalUnit.div == FunctionalUnit.mul) = false := rfl
        simp only [latency,unitEq,op32Eq,division,other,Bool.false_eq_true,if_false]
        split
        · rename_i op32
          have ready := granted.2 op32
          simpa only [grants,ScoreBoardScalar.readyDiv32,Bool.not_eq_true'] using ready
        · exact far
      · have mul : MulUnit.accepts (arith s input) = false := by simp [mul_accepts,product]
        have div : DivUnit.accepts (arith s input) = false := by simp [div_accepts,division]
        exact .nothing (by simp [issued,mul,div]) mul div (by simp [setsEq,product,division])

theorem latency_pos (op : ArithInstr α) : 0 < latency op := by
  unfold latency
  split <;> split <;> decide

theorem latency_le (op : ArithInstr α) : latency op ≤ 33 := by
  unfold latency
  split <;> split <;> decide

theorem latency_mul {op : ArithInstr α} (mul : MulUnit.accepts op = true) :
    latency op = if op.instr.op32 then 1 else 2 := by
  obtain ⟨_,unit⟩ : op.instr.valid = true ∧ op.instr.unit = .mul := by simpa [MulUnit.accepts] using mul
  simp [latency,unit]

theorem latency_div {op : ArithInstr α} (div : DivUnit.accepts op = true) :
    latency op = if op.instr.op32 then 17 else 33 := by
  obtain ⟨_,unit⟩ : op.instr.valid = true ∧ op.instr.unit = .div := by simpa [DivUnit.accepts] using div
  simp [latency,unit]

theorem step_instruction (n : Nat) (d : DivUnit.Divider α) :
    (DivUnit.Divider.step^[n] d).instruction = d.instruction := by
  induction n with
  | zero => rfl
  | succ n ih => rw [Function.iterate_succ_apply']; exact ih

theorem step_counter (n : Nat) (d : DivUnit.Divider α) :
    (DivUnit.Divider.step^[n] d).cyclesCounter = d.cyclesCounter - n := by
  induction n with
  | zero => rfl
  | succ n ih =>
    rw [Function.iterate_succ_apply']
    simp only [DivUnit.Divider.step,ih]
    omega

theorem Divides.counter {d : DivUnit.Divider α} {flight : Flight (ArithInstr α)} (divides : Divides d flight) :
    d.cyclesCounter = flight.left + 1 := by
  have start : (DivUnit.Divider.load flight.op).cyclesCounter = latency flight.op := by
    rw [latency_div divides.division]; rfl
  have within := divides.within
  rw [divides.registers,step_counter,start]
  omega

theorem Divides.valid {d : DivUnit.Divider α} {flight : Flight (ArithInstr α)} (divides : Divides d flight) :
    d.instruction.valid = true := by
  rw [divides.registers,step_instruction]
  exact divides.division

theorem Divides.step {d : DivUnit.Divider α} {flight after : Flight (ArithInstr α)} (divides : Divides d flight)
    (ticked : flight.tick = some after) : Divides d.step after := by
  obtain ⟨op,left⟩ := flight
  cases left with
  | zero => simp [Flight.tick] at ticked
  | succ left =>
    obtain rfl : ⟨op,left⟩ = after := by simpa [Flight.tick] using ticked
    have within := divides.within
    refine ⟨divides.division,Nat.lt_of_succ_lt within,?_⟩
    have more : latency op - 1 - left = (latency op - 1 - (left + 1)) + 1 := by
      simp only at within
      omega
    rw [divides.registers,more,Function.iterate_succ_apply']

theorem Divides.load {op : ArithInstr α} (division : DivUnit.accepts op = true) :
    Divides (DivUnit.Divider.load op) ⟨op,latency op - 1⟩ := by
  have positive := latency_pos op
  refine ⟨division,by simp only; omega,?_⟩
  simp

theorem Divides.outcome {d : DivUnit.Divider α} {op : ArithInstr α} (divides : Divides d ⟨op,0⟩) :
    d.output = outcome op := by
  obtain ⟨_,unit⟩ : op.instr.valid = true ∧ op.instr.unit = .div := by
    simpa [DivUnit.accepts] using divides.division
  rw [divides.registers]
  simp [ScalarSchedule.outcome,unit]

theorem Works.step {d : DivUnit.Divider α} {held : Option (Flight (ArithInstr α))} (works : Works d held) :
    Works d.step (held.bind Flight.tick) := by
  cases held with
  | none =>
    have still : d.cyclesCounter - 1 = 0 := by rw [show d.cyclesCounter = 0 from works]
    exact still
  | some flight =>
    have divides : Divides d flight := works
    cases ticked : flight.tick with
    | none =>
      obtain ⟨op,left⟩ := flight
      cases left with
      | zero =>
        have last : d.step.cyclesCounter = 0 := by simp [DivUnit.Divider.step,divides.counter]
        rw [Option.bind_some,ticked]
        exact last
      | succ left => simp [Flight.tick] at ticked
    | some after =>
      simp only [Option.bind_some,ticked]
      exact divides.step ticked

theorem tick_issue (op : ArithInstr α) : Flight.tick ⟨op,latency op⟩ = some ⟨op,latency op - 1⟩ := by
  obtain ⟨n,more⟩ := Nat.exists_eq_succ_of_ne_zero (Nat.pos_iff_ne_zero.mp (latency_pos op))
  simp [Flight.tick,more]

theorem valid_divider {d : DivUnit.Divider α} {held : Option (Flight (ArithInstr α))} (works : Works d held) :
    (if d.ends then valid d.output else []) = (landed held.toList).map outcome := by
  cases held with
  | none =>
    have idle : d.cyclesCounter = 0 := works
    simp [DivUnit.Divider.ends,idle,landed]
  | some flight =>
    have divides : Divides d flight := works
    obtain ⟨op,left⟩ := flight
    cases left with
    | zero =>
      have ends : d.ends = true := by simp [DivUnit.Divider.ends,divides.counter]
      have there : d.output.valid = true := divides.valid
      rw [if_pos ends,valid,if_pos there,divides.outcome]
      rfl
    | succ left =>
      have wait : d.ends = false := by simp [DivUnit.Divider.ends,divides.counter]
      simp [wait,landed,Flight.landed]

theorem ends_valid {d : DivUnit.Divider α} {held : Option (Flight (ArithInstr α))} (works : Works d held)
    (ends : d.ends = true) : d.output.valid = true := by
  cases held with
  | none =>
    have idle : d.cyclesCounter = 0 := works
    simp [DivUnit.Divider.ends,idle] at ends
  | some flight =>
    have divides : Divides d flight := works
    exact divides.valid

theorem outcome_long {op : ArithInstr α} {first : MulUnit.First α} (mul : MulUnit.accepts op = true)
    (long : op.instr.op32 = false) (ends : (first.int32 && first.instruction.valid) = false) :
    valid (MulUnit.output ⟨first,.load (.load op)⟩) = [outcome op] := by
  obtain ⟨_,unit⟩ : op.instr.valid = true ∧ op.instr.unit = .mul := by simpa [MulUnit.accepts] using mul
  have out : MulUnit.output ⟨first,.load (.load op)⟩ = outcome op := by
    simp [MulUnit.output,ends,MulUnit.outSecond,outcome,unit,long,MulUnit.Second.load,MulUnit.First.load,MulUnit.entry]
  have there : (outcome op).valid = true := by simp [outcome,unit,MulUnit.entry,mul]
  rw [out,valid,if_pos there]

theorem outcome_destined {s : State α} {input : Input α} {op : ArithInstr α} (found : issued s input = some op) :
    Destined (outcome op) op := by
  have product : MulUnit.accepts op = true → Destined (outcome op) op := by
    intro mul
    obtain ⟨_,unit⟩ : op.instr.valid = true ∧ op.instr.unit = .mul := by simpa [MulUnit.accepts] using mul
    constructor <;> simp [outcome,unit,MulUnit.entry,mul]
  have division : DivUnit.accepts op = true → Destined (outcome op) op := by
    intro div
    obtain ⟨_,unit⟩ : op.instr.valid = true ∧ op.instr.unit = .div := by simpa [DivUnit.accepts] using div
    constructor <;> simp [outcome,unit,DivUnit.Divider.output,step_instruction,DivUnit.Divider.load,DivUnit.entry,div]
  cases issues s input with
  | nothing idle => rw [idle] at found; cases found
  | product issue mul =>
    obtain rfl : arith s input = op := Option.some.inj (issue.symm.trans found)
    exact product mul
  | division issue _ div =>
    obtain rfl : arith s input = op := Option.some.inj (issue.symm.trans found)
    exact division div

variable [Inhabited α]

theorem Encodes.divides {s : State α} {held : Held α} (encodes : Encodes s held) {i : Bool}
    {flight : Flight (ArithInstr α)} (found : held.divider i = some flight) : Divides (s.div i) flight := by
  have works := encodes.works i
  rwa [found] at works

theorem free_iff {s : State α} {held : Held α} (encodes : Encodes s held) (i : Bool) :
    ScoreBoardScalar.freeDivUnit s.board i = true ↔ held.divider i = none := by
  rw [ScoreBoardScalar.freeDivUnit,encodes.occupied]
  cases found : held.divider i with
  | none => simp
  | some flight =>
    have divides := encodes.divides found
    have below : flight.left < 33 := Nat.lt_of_lt_of_le divides.within (latency_le _)
    have taken : ¬ BitVec.twoPow 33 flight.left = 0#33 := by
      intro zero
      have bit := congrArg (fun word => word.getLsbD flight.left) zero
      simp [below] at bit
    simp [taken]

-- The divider that is selected is free when one is.
theorem selected_free {s : State α} {held : Held α} (encodes : Encodes s held)
    (ready : ScoreBoardScalar.readyDivUnit s.board = true) :
    held.divider (ScoreBoardScalar.divUnitSel s.board) = none := by
  rw [← free_iff encodes]
  cases first : ScoreBoardScalar.freeDivUnit s.board false with
  | true => simp [ScoreBoardScalar.divUnitSel,first]
  | false => simpa [ScoreBoardScalar.divUnitSel,ScoreBoardScalar.readyDivUnit,first] using ready


theorem staying_eq {s : State α} {held : Held α} (encodes : Encodes s held) :
    held.flights.filterMap Flight.tick = held.staying := by
  have stages : ((held.first.map fun op => (⟨op,latency op - 1⟩ : Flight (ArithInstr α))).toList).filterMap Flight.tick =
      ((held.first.filter fun op => !op.instr.op32).map fun op => (⟨op,0⟩ : Flight (ArithInstr α))).toList := by
    cases found : held.first with
    | none => rfl
    | some op =>
      have wait := latency_mul (encodes.product op found)
      cases op32 : op.instr.op32 <;> simp [wait,op32,Flight.tick,Option.filter]
  have ends : ((held.second.map fun op => (⟨op,0⟩ : Flight (ArithInstr α))).toList).filterMap Flight.tick = [] := by
    cases held.second <;> simp [Flight.tick]
  have divided : ∀ i, (held.divider i).toList.filterMap Flight.tick = ((held.divider i).bind Flight.tick).toList := by
    intro i
    cases held.divider i with
    | none => rfl
    | some flight => cases ticked : flight.tick <;> simp [ticked]
  simp only [Held.flights,Held.staying,List.filterMap_append,stages,ends,divided,List.append_nil]

theorem next_flights {s : State α} {held : Held α} {input : Input α} (encodes : Encodes s held) :
    (held.next s input).flights.Perm ((cycle s input).next held.flights) := by
  cases running : input.flush with
  | true => simp [Held.next,Held.flights,Beat.next,cycle,running]
  | false =>
    cases issues s input with
    | nothing idle mul div _ =>
      have after : (cycle s input).next held.flights = held.staying := by
        simp [Beat.next,Beat.live,cycle,running,idle,staying_eq encodes]
      have now : (held.next s input).flights = held.staying := by
        simp [Held.next,Held.flights,Held.staying,running,mul,div]
      rw [after,now]
    | product issue mul div _ _ =>
      have after : (cycle s input).next held.flights =
          held.staying ++ [⟨arith s input,latency (arith s input) - 1⟩] := by
        simp [Beat.next,Beat.live,cycle,running,issue,tick_issue,staying_eq encodes]
      have now : (held.next s input).flights =
          [⟨arith s input,latency (arith s input) - 1⟩] ++ held.staying := by
        simp [Held.next,Held.flights,Held.staying,running,mul,div]
      rw [after,now]
      exact List.perm_append_comm
    | division issue mul div _ _ unit =>
      have free := selected_free encodes unit
      have after : (cycle s input).next held.flights =
          held.staying ++ [⟨arith s input,latency (arith s input) - 1⟩] := by
        simp [Beat.next,Beat.live,cycle,running,issue,tick_issue,staying_eq encodes]
      rw [after]
      cases chosen : ScoreBoardScalar.divUnitSel s.board with
      | false =>
        rw [chosen] at free
        simp only [Held.next,Held.flights,Held.staying,running,mul,div,chosen,free,Option.map_none,Option.toList_none,
          Option.toList_some,Option.bind_none,List.append_nil,List.nil_append,List.append_assoc,Bool.false_eq_true,
          if_false,if_true,Bool.true_and,beq_self_eq_true,show (true == false) = false from rfl]
        exact List.perm_append_comm.append_left _
      | true =>
        rw [chosen] at free
        simp [Held.next,Held.flights,Held.staying,running,mul,div,chosen,free]

theorem next_distinct {s : State α} {held : Held α} {input : Input α} (encodes : Encodes s held) :
    Distinct (held.next s input).flights := by
  rw [Distinct.perm (next_flights encodes)]
  have live : Distinct ((cycle s input).live held.flights) := by
    have apart : s.board.inst.getLsbD (latency (arith s input)) = false →
        Distinct (held.flights ++ [⟨arith s input,latency (arith s input)⟩]) := by
      intro free
      refine encodes.distinct.append_single ?_
      rw [← encodes.booked,free]
      decide
    cases issues s input with
    | nothing idle => simpa [Beat.live,cycle,idle] using encodes.distinct
    | product issue _ _ _ free => simpa [Beat.live,cycle,issue] using apart free
    | division issue _ _ _ free => simpa [Beat.live,cycle,issue] using apart free
  unfold Beat.next
  split
  · exact List.Pairwise.nil
  · exact live.tick

theorem next_booked {s : State α} {held : Held α} {input : Input α} (encodes : Encodes s held) (k : Nat) :
    (next s input).board.inst.getLsbD k = true ↔ ∃ flight ∈ (held.next s input).flights, flight.left = k := by
  have moved : (∃ flight ∈ (held.next s input).flights, flight.left = k) ↔
      ∃ flight ∈ (cycle s input).next held.flights, flight.left = k := by
    simp only [(next_flights encodes).mem_iff]
  rw [moved]
  cases running : input.flush with
  | true => simp [next,ScoreBoardScalar.next,ScoreBoardScalar.reset,Beat.next,cycle,running]
  | false =>
    have after : (cycle s input).next held.flights = ((cycle s input).live held.flights).filterMap Flight.tick := by
      simp [Beat.next,cycle,running]
    have board : (next s input).board.inst = ScoreBoardScalar.instD s.board (sets s input) := by
      simp [next,ScoreBoardScalar.next,running]
    rw [after,tick_booked,board,ScoreBoardScalar.instD_iff,encodes.booked]
    have grown : ∀ op : ArithInstr α, (∃ flight ∈ held.flights ++ [⟨op,latency op⟩], flight.left = k + 1) ↔
        (∃ flight ∈ held.flights, flight.left = k + 1) ∨ latency op = k + 1 := by
      intro op
      simp [or_and_right,exists_or]
    cases issues s input with
    | nothing idle _ _ unset => simp [Beat.live,cycle,idle,unset]
    | product issue mul _ set =>
      simp only [Beat.live,cycle,issue,Option.map_some,Option.toList_some,set]
      rw [grown,latency_mul mul]
      refine or_congr_right ?_
      cases (arith s input).instr.op32 <;> simp
    | division issue _ div set =>
      simp only [Beat.live,cycle,issue,Option.map_some,Option.toList_some,set]
      rw [grown,latency_div div]
      refine or_congr_right ?_
      cases (arith s input).instr.op32 <;> simp

theorem next_occupied {s : State α} {held : Held α} {input : Input α} (encodes : Encodes s held) (i : Bool) :
    (next s input).board.ocupDivUnit i =
      ((held.next s input).divider i).elim 0 fun flight => BitVec.twoPow 33 flight.left := by
  cases running : input.flush with
  | true => simp [next,ScoreBoardScalar.next,ScoreBoardScalar.reset,Held.next,running]
  | false =>
    have moved : s.board.ocupDivUnit i >>> 1 =
        ((held.divider i).bind Flight.tick).elim 0 fun flight => BitVec.twoPow 33 flight.left := by
      rw [encodes.occupied]
      cases found : held.divider i with
      | none => simp
      | some flight =>
        obtain ⟨op,left⟩ := flight
        have within : left < 33 := Nat.lt_of_lt_of_le (encodes.divides found).within (latency_le _)
        cases left with
        | zero => exact ScoreBoardScalar.mark_shift_last
        | succ left => exact ScoreBoardScalar.mark_shift within
    have board : (next s input).board.ocupDivUnit i = ScoreBoardScalar.ocupD s.board (sets s input) i := by
      simp [next,ScoreBoardScalar.next,running]
    have sel : (!ScoreBoardScalar.freeDivUnit s.board false) = ScoreBoardScalar.divUnitSel s.board := rfl
    rw [board,ScoreBoardScalar.ocupD,sel]
    cases issues s input with
    | nothing _ _ div unset => simpa [Held.next,running,div,unset] using moved
    | product _ _ div set => simpa [Held.next,running,div,set] using moved
    | division _ _ div set =>
      by_cases mine : i = ScoreBoardScalar.divUnitSel s.board
      · cases op32 : (arith s input).instr.op32 <;> simp [Held.next,running,div,set,mine,op32,latency_div div]
      · simpa [Held.next,running,div,set,mine] using moved

theorem encodes_next {s : State α} {held : Held α} (encodes : Encodes s held) (input : Input α) :
    Encodes (next s input) (held.next s input) where
  first := by
    cases running : input.flush <;> cases mul : MulUnit.accepts (arith s input) <;>
      simp [next,MulUnit.next,Held.next,running,mul]
  product := by
    intro op found
    cases running : input.flush <;> cases mul : MulUnit.accepts (arith s input) <;>
      simp [Held.next,running,mul] at found
    rw [← found,mul]
  second := by
    cases running : input.flush with
    | true => simp [next,MulUnit.next,Held.next,running]
    | false =>
      cases found : held.first with
      | none => simp [next,MulUnit.next,Held.next,running,encodes.first,found,MulUnit.First.zero,MulUnit.wbZero]
      | some op =>
        have mul := encodes.product op found
        cases op32 : op.instr.op32 <;>
          simp [next,MulUnit.next,Held.next,running,encodes.first,found,MulUnit.First.load,MulUnit.entry,mul,op32,
            Option.filter]
  long := by
    intro op found
    cases running : input.flush with
    | true => simp [Held.next,running] at found
    | false =>
      obtain ⟨before,short⟩ := Option.filter_eq_some_iff.mp (show held.first.filter (fun op => !op.instr.op32) = some op by
        simpa [Held.next,running] using found)
      exact ⟨encodes.product op before,by simpa using short⟩
  works := by
    intro i
    cases running : input.flush with
    | true => simp [next,DivUnit.next,DivUnit.Divider.flush,DivUnit.Divider.reset,Held.next,running,Works]
    | false =>
      by_cases loads : (DivUnit.accepts (arith s input) && i == ScoreBoardScalar.divUnitSel s.board) = true
      · have division : DivUnit.accepts (arith s input) = true := (Bool.and_eq_true _ _ ▸ loads).1
        simp only [next,DivUnit.next,Held.next,running,Bool.false_eq_true,if_false,loads,if_true]
        exact Divides.load division
      · simp only [next,DivUnit.next,Held.next,running,Bool.false_eq_true,if_false,loads]
        exact (encodes.works i).step
  occupied := next_occupied encodes
  booked := next_booked encodes
  distinct := next_distinct encodes

theorem encodes_reset : Encodes (machine : Machine (State α) (Input α)).initial ⟨none,none,fun _ => none⟩ where
  first := rfl
  product := by intro op found; cases found
  second := rfl
  long := by intro op found; cases found
  works := fun _ => rfl
  occupied := fun _ => rfl
  booked := by intro k; simp [machine,ScoreBoardScalar.reset,Held.flights]
  distinct := List.Pairwise.nil

-- After every sequence of cycles the units hold what the schedule has in flight.
theorem trace_held (inputs : Nat → Input α) (u : Nat) :
    ∃ held, Encodes (trace machine inputs u) held ∧ held.flights.Perm (flights (cycles inputs) u) := by
  induction u with
  | zero => exact ⟨_,encodes_reset,List.Perm.refl _⟩
  | succ u ih =>
    obtain ⟨held,encodes,same⟩ := ih
    exact ⟨_,encodes_next encodes (inputs u),(next_flights encodes).trans (Beat.next_perm same)⟩

theorem outcome_short {op : ArithInstr α} (mul : MulUnit.accepts op = true) (short : op.instr.op32 = true) :
    valid (MulUnit.output ⟨.load op,.zero⟩) = [outcome op] := by
  obtain ⟨_,unit⟩ : op.instr.valid = true ∧ op.instr.unit = .mul := by simpa [MulUnit.accepts] using mul
  have out : MulUnit.output ⟨.load op,.zero⟩ = outcome op := by
    simp [MulUnit.output,MulUnit.outFirst,outcome,unit,short,mul,MulUnit.Second.zero,MulUnit.First.load,MulUnit.entry]
  have there : (outcome op).valid = true := by simp [outcome,unit,MulUnit.entry,mul]
  rw [out,valid,if_pos there]

theorem valid_product {s : State α} {held : Held α} (encodes : Encodes s held) :
    valid (MulUnit.output s.mul) = (landed ((held.first.map fun op => ⟨op,latency op - 1⟩).toList ++
      (held.second.map fun op => ⟨op,0⟩).toList)).map outcome := by
  have registers : s.mul = ⟨s.mul.first,s.mul.second⟩ := rfl
  rw [registers,encodes.first,encodes.second]
  -- Who is in the second stage is presented, unless a short product stands in the first.
  have behind : ∀ first : MulUnit.First α, (first.int32 && first.instruction.valid) = false →
      valid (MulUnit.output ⟨first,held.second.elim .zero fun op => .load (.load op)⟩) =
        (landed (held.second.map fun op => ⟨op,0⟩).toList).map outcome := by
    intro first ends
    cases found : held.second with
    | none => simp [valid,MulUnit.output,ends,MulUnit.outSecond,MulUnit.Second.zero,MulUnit.wbZero,landed]
    | some op =>
      obtain ⟨mul,long⟩ := encodes.long op found
      exact outcome_long mul long ends
  cases found : held.first with
  | none => exact behind _ rfl
  | some op =>
    have mul := encodes.product op found
    have wait := latency_mul mul
    cases op32 : op.instr.op32 with
    | false =>
      rw [Option.elim_some,behind _ (by simp [MulUnit.First.load,op32])]
      simp [landed,List.filterMap_cons,Flight.landed,wait,op32]
    | true =>
      have alone : held.second = none := by
        cases second : held.second with
        | none => rfl
        | some other =>
          have distinct := encodes.distinct
          simp [Held.flights,found,second,Distinct,wait,op32] at distinct
      rw [alone]
      refine (outcome_short mul op32).trans ?_
      simp [landed,Flight.landed,wait,op32]

theorem presented_landed {s : State α} {held : Held α} (encodes : Encodes s held) :
    presented s = (landed held.flights).map outcome := by
  have split : landed held.flights = landed ((held.first.map fun op => ⟨op,latency op - 1⟩).toList ++
      (held.second.map fun op => ⟨op,0⟩).toList) ++ landed (held.divider false).toList ++
      landed (held.divider true).toList := by
    simp only [Held.flights,landed,List.filterMap_append]
  rw [split,List.map_append,List.map_append,← valid_product encodes,← valid_divider (encodes.works false),
    ← valid_divider (encodes.works true)]
  rfl

theorem landed_flights (inputs : Nat → Input α) (u : Nat) :
    landed (flights (cycles inputs) u) = due (cycles inputs) u := by
  rw [← landed_live,Beat.live,landed,landed,List.filterMap_append]
  have later : (cycles inputs u).issue.toList.filterMap Flight.landed = [] := by
    cases found : issued (trace machine inputs u) (inputs u) with
    | none => simp [cycles,cycle,found]
    | some op =>
      obtain ⟨n,more⟩ := Nat.exists_eq_succ_of_ne_zero (Nat.pos_iff_ne_zero.mp (latency_pos op))
      simp [cycles,cycle,found,Flight.landed,more]
  rw [later,List.append_nil]

theorem presented_due (inputs : Nat → Input α) (u : Nat) :
    presented (trace machine inputs u) = (due (cycles inputs) u).map outcome ∧ (due (cycles inputs) u).length ≤ 1 := by
  obtain ⟨held,encodes,same⟩ := trace_held inputs u
  have one : (due (cycles inputs) u).length ≤ 1 := by
    rw [← landed_flights]
    exact ((Distinct.perm same).mp encodes.distinct).one_landed
  refine ⟨?_,one⟩
  have shuffled : (landed held.flights).Perm (due (cycles inputs) u) := landed_flights inputs u ▸ landed_perm same
  rw [presented_landed encodes,single_perm one shuffled]

-- The multiplexer of the writeback drops nothing.
theorem writeback_presented (inputs : Nat → Input α) (u : Nat) :
    valid (writeback (trace machine inputs u)) = presented (trace machine inputs u) := by
  have one : (presented (trace machine inputs u)).length ≤ 1 := by
    rw [(presented_due inputs u).1,List.length_map]
    exact (presented_due inputs u).2
  obtain ⟨held,encodes,_⟩ := trace_held inputs u
  have out := ends_valid (encodes.works false)
  have other := ends_valid (encodes.works true)
  generalize trace machine inputs u = s at one out other
  unfold presented at one ⊢
  unfold writeback DivUnit.output
  cases product : (MulUnit.output s.mul).valid <;> cases first : (s.div false).ends <;>
    cases second : (s.div true).ends <;> simp_all [valid,MulUnit.wbZero]

theorem presented_outcome {inputs : Nat → Input α} {t : Nat} {op : ArithInstr α}
    (issue : issued (trace machine inputs t) (inputs t) = some op)
    (quiet : ∀ v < t + latency op, t ≤ v → (inputs v).flush = false) :
    presented (trace machine inputs (t + latency op)) = [outcome op] ∧ Destined (outcome op) op := by
  obtain ⟨shown,one⟩ := presented_due inputs (t + latency op)
  have member : op ∈ due (cycles inputs) (t + latency op) :=
    due_mem.mpr ⟨t,⟨op,latency op⟩,by simp [cycles,cycle,issue],rfl,quiet,rfl⟩
  refine ⟨?_,outcome_destined issue⟩
  rw [shown,single_mem one member]
  rfl

-- Whatever is issued, killed and flushed, the port shows at most one result a cycle; an
-- operation that no flush meets shows its own at its latency, and nothing else is shown.
theorem scalar_results_exactly_once (inputs : Nat → Input α) :
    (∀ u, (presented (trace machine inputs u)).length ≤ 1 ∧
      valid (writeback (trace machine inputs u)) = presented (trace machine inputs u)) ∧
    (∀ t op, issued (trace machine inputs t) (inputs t) = some op →
      (∀ v < t + latency op, t ≤ v → (inputs v).flush = false) →
      presented (trace machine inputs (t + latency op)) = [outcome op] ∧ Destined (outcome op) op) ∧
    (∀ u wb, wb ∈ presented (trace machine inputs u) →
      ∃! t, ∃ op, issued (trace machine inputs t) (inputs t) = some op ∧ t + latency op = u ∧
        (∀ v < u, t ≤ v → (inputs v).flush = false) ∧ wb = outcome op) ∧
    (∀ t, DivUnit.accepts (arith (trace machine inputs t) (inputs t)) = true →
      ((trace machine inputs t).div (ScoreBoardScalar.divUnitSel (trace machine inputs t).board)).cyclesCounter = 0) := by
  have issue : ∀ t op, issued (trace machine inputs t) (inputs t) = some op →
      (cycles inputs t).issue = some ⟨op,latency op⟩ := by
    intro t op found
    simp [cycles,cycle,found]
  refine ⟨fun u => ⟨?_,writeback_presented inputs u⟩,?_,?_,?_⟩
  · rw [(presented_due inputs u).1,List.length_map]
    exact (presented_due inputs u).2
  · intro t op found quiet
    exact presented_outcome found quiet
  · intro u wb member
    obtain ⟨shown,one⟩ := presented_due inputs u
    obtain ⟨op,listed,rfl⟩ := List.mem_map.mp (shown ▸ member)
    obtain ⟨t,flight,issued,rfl,quiet,ends⟩ := due_mem.mp listed
    obtain ⟨op,found,rfl⟩ := Option.map_eq_some_iff.mp issued
    refine ⟨t,⟨op,found,ends,quiet,rfl⟩,?_⟩
    rintro other ⟨again,foundAgain,endsAgain,quietAgain,_⟩
    exact due_unique one (issue other again foundAgain) quietAgain endsAgain issued quiet ends
  · intro t division
    obtain ⟨held,encodes,_⟩ := trace_held inputs t
    cases issues (trace machine inputs t) (inputs t) with
    | nothing _ _ div => rw [div] at division; cases division
    | product _ _ div => rw [div] at division; cases division
    | division _ _ _ _ _ unit =>
      have works := encodes.works (ScoreBoardScalar.divUnitSel (trace machine inputs t).board)
      rw [selected_free encodes unit] at works
      exact works

end Sargantana.ScalarSchedule
