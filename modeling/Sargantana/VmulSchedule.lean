import Sargantana.SimdDelivery
import Sargantana.VmulLane

-- The two lanes of vmul under score_board_simd and simd_unit. Each cycle an instruction comes
-- into them, also one that is not valid, and is one stage further in the next.
namespace Sargantana.VmulSchedule
open DracPkg ExeStage ScoreBoardSimd SimdSchedule SimdDelivery VmulLane StateMachine Sargantana.Packed

structure State where
  schedule : SimdSchedule.State VecOperands
  lanes : Fin 2 → Lane

abbrev Input := SimdSchedule.Input VecOperands

def incoming (s : State) (i : Input) : Instr := instruction s.schedule i

def next (s : State) (i : Input) : State where
  schedule := SimdSchedule.next s.schedule i
  lanes l := (s.lanes l).next (incoming s i) l

def machine : Machine State Input where
  initial := ⟨⟨ScoreBoardSimd.reset,SimdUnit.reset⟩,fun _ => resetLane⟩
  allowed _ _ := True
  step := next

def instrToOut (s : State) (i : Input) : Instr := SimdUnit.instrToOut s.schedule.unit (incoming s i)

def vdElements (others : BitVec 64) (s : State) (i : Input) (l : Fin 2) : BitVec 64 :=
  dataVd (s.lanes l) (instrToOut s i) (incoming s i) l others

-- The condition on a multiply of less than 64 bits: no instruction of 64 bits came before it.
def Clear (s : State) (op : Instr) : Prop := op.instr.sew = 3 ∨ ∀ l, (s.lanes l).vmul.stage1.sew ≠ 3

instance (s : State) (op : Instr) : Decidable (Clear s op) := inferInstanceAs (Decidable (_ ∨ _))

variable {inputs : Nat → Input} {t : Nat} {op : Instr}

def latency (op : Instr) : Nat := if op.instr.sew = 3 then 2 else 1

theorem issued_incoming (issue : issued (trace machine inputs t).schedule (inputs t) = some op) :
    op = incoming (trace machine inputs t) (inputs t) := issued_instruction issue

theorem stages_count (issue : issued (trace machine inputs t).schedule (inputs t) = some op)
    (kind : multiplies op.instr.instrType = true) :
    op.exeStages = if isVmul op.instr.instrType then latency op + 1 else latency op + 2 := by
  have same := issued_incoming issue
  have stages : (incoming (trace machine inputs t) (inputs t)).exeStages =
      ScoreBoardSimd.stages (trace machine inputs t).schedule.board.previousDiv (ready (inputs t).from_rr)
        (incoming (trace machine inputs t) (inputs t)) := rfl
  rw [← same] at stages
  rw [stages,ScoreBoardSimd.stages,latency]
  cases product : isVmul op.instr.instrType with
  | true =>
    rw [if_pos rfl,if_pos rfl]
    split <;> rfl
  | false =>
    have sum : isVmaddVsmul op.instr.instrType = true := by
      generalize op.instr.instrType = t at kind product
      cases t <;> first | rfl | exact absurd product (by decide) | exact absurd kind Bool.false_ne_true
    rw [if_neg Bool.false_ne_true,if_pos sum,if_neg Bool.false_ne_true]
    split <;> rfl

theorem product_exact (comes : op = incoming (trace machine inputs t) (inputs t))
    (legal : Legal op) (clear : Clear (trace machine inputs t) op) (l : Fin 2) {k : Nat} (inside : k < perLane op) :
    element (width op) k (Vmul.dataVd ((trace machine inputs (t + latency op)).lanes l).vmul) =
      BitVec.ofInt (width op) (Vmul.value (vmulInput op l) k) := by
  have captured : ((trace machine inputs (t + 1)).lanes l).vmul.stage1 = Vmul.capture (vmulInput op l) := by
    rw [comes]
    rfl
  rw [latency]
  by_cases long : op.instr.sew = 3
  · have single : Vmul.isWidened op.instr.instrType = false := by
      rw [Bool.eq_false_iff]
      exact fun widened => legal widened long
    have one : k = 0 ∧ width op = 64 := by
      rw [perLane_same single,long] at inside
      exact ⟨by change k < 1 at inside; omega,by rw [width,single,long]; rfl⟩
    have advanced : ((trace machine inputs (t + 2)).lanes l).vmul.stage2 = Vmul.advance (Vmul.capture (vmulInput op l)) := by
      rw [← captured]
      rfl
    have exact' := Vmul.dataVd2_exact (vmulInput op l) long single
    rw [if_pos long,Vmul.dataVd,advanced,if_pos (show (Vmul.advance (Vmul.capture (vmulInput op l))).sew = 3 from long),one.1,
      one.2,exact']
    exact BitVec.extractLsb'_eq_self
  · have other : ((trace machine inputs (t + 1)).lanes l).vmul.stage2.sew ≠ 3 := clear.resolve_left long l
    rw [if_neg long,Vmul.dataVd,if_neg other,captured]
    exact Vmul.dataVd1_exact (vmulInput op l) long inside

theorem schedule_trace (inputs : Nat → Input) (t : Nat) :
    (trace machine inputs t).schedule = trace SimdSchedule.machine inputs t :=
  trace_part State.schedule SimdSchedule.machine inputs rfl (fun _ => rfl) t

-- Every multiply that no instruction of 64 bits precedes by one cycle comes out with the
-- elements that it owes.
theorem vector_multiplies_exact (inputs : Nat → Input) (others : BitVec 64) (t : Nat) (op : Instr)
    (issue : issued (trace machine inputs t).schedule (inputs t) = some op)
    (kind : multiplies op.instr.instrType = true) (legal : Legal op) (elements : op.instr.vl ≠ 0)
    (straight : ∀ v, t ≤ v → v < t + (op.exeStages - 1) → (inputs v).flush = false)
    (clear : Clear (trace machine inputs t) op) :
    instrToOut (trace machine inputs (t + (op.exeStages - 1))) (inputs (t + (op.exeStages - 1))) = op ∧
    ∀ (l : Fin 2) (k : Nat), k < perLane op →
      element (width op) k
          (vdElements others (trace machine inputs (t + (op.exeStages - 1))) (inputs (t + (op.exeStages - 1))) l) =
        BitVec.ofInt (width op) (rvv op (l.val * perLane op + k)) := by
  have count := stages_count issue kind
  have short : 1 ≤ latency op ∧ latency op ≤ 2 := by
    rw [latency]
    split <;> omega
  obtain ⟨row,takes⟩ : ∃ row : Fin 5, op.exeStages = row.val + 2 := by
    cases product : isVmul op.instr.instrType with
    | true => rw [product,if_pos rfl] at count; exact ⟨⟨latency op - 1,by omega⟩,by simp only; omega⟩
    | false => rw [product,if_neg Bool.false_ne_true] at count; exact ⟨⟨latency op,by omega⟩,count⟩
  have out : instrToOut (trace machine inputs (t + (op.exeStages - 1))) (inputs (t + (op.exeStages - 1))) = op := by
    rw [schedule_trace] at issue
    rw [instrToOut,incoming,schedule_trace]
    exact comes_out issue takes straight elements
  refine ⟨out,fun l k inside => ?_⟩
  have ready := product_exact (issued_incoming issue) legal clear l inside
  rw [value_inner kind legal l inside] at ready
  rw [vdElements,out,dataVd]
  cases product : isVmul op.instr.instrType with
  | true =>
    rw [product,if_pos rfl] at count
    rw [if_pos rfl,rvv_product product,count]
    exact ready
  | false =>
    have sum : multiplyAdd op.instr.instrType = true := by simpa [multiplies,product] using kind
    have whole : Vmul.isMulh op.instr.instrType = false := by
      generalize op.instr.instrType = t at sum
      cases t <;> first | rfl | exact absurd sum Bool.false_ne_true
    rw [product,if_neg Bool.false_ne_true] at count
    rw [whole,if_neg Bool.false_ne_true] at ready
    rw [if_neg Bool.false_ne_true,if_pos sum]
    refine sum_exact sum legal _ _ l inside ?_
    rw [count]
    exact ready

-- An addition of elements of some width, and in the next cycle a multiply of bytes, two by three
def operation (t : InstrType) (sew : Fin 4) (x y : BitVec 128) : RrExeInstr VecOperands :=
  { divide with
    instr := { divide.instr with instrType := t, sew := sew }
    dataVs1 := x
    dataVs2 := y
    carried := ⟨0,0,false,false⟩ }

def pair (before : Fin 4) (t : Nat) : Input :=
  match t with
  | 0 => ⟨operation (.other 128) before 0 0,false,false,free⟩
  | 1 => ⟨operation .vmul 0 2 3,false,false,free⟩
  | _ => ⟨{ operation .vmul 0 2 3 with instr := InstrEntry.zero },false,false,free⟩

def bytes : Instr := { simdOperands (operation .vmul 0 2 3) with exeStages := 2 }

theorem pair_straight (before : Fin 4) (t : Nat) : (pair before t).flush = false := by
  match t with
  | 0 | 1 | _ + 2 => rfl

theorem vector_multiplies_exact_bytes : element 8 0 (vdElements 0 (trace machine (pair 0) 2) (pair 0 2) 0) = 6#8 :=
  ((vector_multiplies_exact (pair 0) 0 1 bytes (by decide) rfl (by unfold Legal; decide) (by decide)
    (fun v _ _ => pair_straight 0 v) (by decide)).2 0 0 (by decide)).trans (show BitVec.ofInt 8 (rvv bytes 0) = 6#8 by decide)

-- After an addition of 64 bits the multiplexer takes the product of its operands.
theorem vector_multiplies_exact_fails : ¬ ∀ (inputs : Nat → Input) (others : BitVec 64) (t : Nat) (op : Instr),
    issued (trace machine inputs t).schedule (inputs t) = some op → multiplies op.instr.instrType = true → Legal op →
    op.instr.vl ≠ 0 → (∀ v, t ≤ v → v < t + (op.exeStages - 1) → (inputs v).flush = false) →
    instrToOut (trace machine inputs (t + (op.exeStages - 1))) (inputs (t + (op.exeStages - 1))) = op ∧
    ∀ (l : Fin 2) (k : Nat), k < perLane op →
      element (width op) k
          (vdElements others (trace machine inputs (t + (op.exeStages - 1))) (inputs (t + (op.exeStages - 1))) l) =
        BitVec.ofInt (width op) (rvv op (l.val * perLane op + k)) := by
  intro every
  have wrong := (every (pair 3) 0 1 bytes (by decide) rfl (by unfold Legal; decide) (by decide)
    fun v _ _ => pair_straight 3 v).2 0 0 (by decide)
  revert wrong
  decide

end Sargantana.VmulSchedule
