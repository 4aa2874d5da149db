import Sargantana.Lib.RestoringDivision
import Sargantana.MulDivDecoder
import Sargantana.ScalarSchedule

-- div_unit computes the division of the instruction set, and so does every division that
-- passes through the schedule.
namespace Sargantana.ScalarDivision
open DracPkg DivUnit MulDivDecoder MExtension RestoringDivision ScalarSchedule StateMachine

variable {α : Type}

def registers (d : Divider α) : BitVec 64 × BitVec 64 := (d.remanent,d.dividendQuotient)

-- The operands that a W form leaves, and those of the others
def operand (w : Bool) (x : BitVec 64) : BitVec 64 := if w then (x.truncate 32 : BitVec 32).zeroExtend 64 else x

theorem step_registers (d : Divider α) : registers d.step = (restoreBit 63 d.divisor)^[2] (registers d) := rfl

-- What the steps leave alone
structure Same (d e : Divider α) : Prop where
  instruction : e.instruction = d.instruction
  divZero : e.divZero = d.divZero
  sameSign : e.sameSign = d.sameSign
  op32 : e.op32 = d.op32
  signedOp : e.signedOp = d.signedOp
  divisor : e.divisor = d.divisor

theorem steps_same (n : Nat) (d : Divider α) : Same d (Divider.step^[n] d) := by
  induction n with
  | zero => exact ⟨rfl,rfl,rfl,rfl,rfl,rfl⟩
  | succ n ih =>
    rw [Function.iterate_succ_apply']
    exact ⟨ih.instruction,ih.divZero,ih.sameSign,ih.op32,ih.signedOp,ih.divisor⟩

theorem steps_registers (n : Nat) (d : Divider α) :
    registers (Divider.step^[n] d) = (restoreBit 63 d.divisor)^[2 * n] (registers d) := by
  induction n with
  | zero => rfl
  | succ n ih =>
    rw [Function.iterate_succ_apply',step_registers,ih,(steps_same n d).divisor,← Function.iterate_add_apply]
    congr 1
    omega

theorem magnitude_operand (instr : InstrEntry) (x : BitVec 64) :
    operand instr.op32 (DivUnit.magnitude instr x) =
      if instr.op32 then (MExtension.magnitude instr.signedOp (x.truncate 32 : BitVec 32)).zeroExtend 64
      else MExtension.magnitude instr.signedOp x := by
  have top : (x.truncate 32 : BitVec 32).msb = x.getLsbD 31 := by simp [BitVec.msb_eq_getLsbD_last]
  have low : (-x).truncate 32 = -(x.truncate 32 : BitVec 32) := BitVec.setWidth_neg_of_le (by decide)
  have whole : x.msb = x.getLsbD 63 := BitVec.msb_eq_getLsbD_last x
  unfold operand DivUnit.magnitude MExtension.magnitude
  rw [MulUnit.negate_neg,top,whole]
  cases instr.op32 <;> cases instr.signedOp <;> cases x.getLsbD 63 <;> cases x.getLsbD 31 <;> simp [low]

theorem load_packed (op : ArithInstr α) :
    Packed 63 (if op.instr.op32 then 32 else 64) (operand op.instr.op32 (DivUnit.magnitude op.instr op.dataRs1)) 0
      (Divider.load op).dividendQuotient := by
  intro i below
  cases short : op.instr.op32 with
  | false => simp [Divider.load,operand,short]
  | true =>
    simp only [Divider.load,operand,short,if_true,BitVec.getLsbD_append]
    by_cases lower : i < 32
    · rw [if_pos lower,if_neg (by omega)]
      rfl
    · have upper : i - 32 < 64 := by omega
      rw [if_neg lower,if_pos (by omega)]
      simp [upper]

theorem operand_short (w : Bool) (x : BitVec 64) : (operand w x).toNat < 2 ^ (if w then 32 else 64) := by
  cases w with
  | false => exact x.isLt
  | true =>
    simp only [operand,if_true,BitVec.toNat_setWidth]
    omega

theorem load_divisor (op : ArithInstr α) :
    (Divider.load op).divisor = operand op.instr.op32 (DivUnit.magnitude op.instr op.dataRs2) := by
  simp only [Divider.load,operand]

theorem load_divided (op : ArithInstr α) (n : Nat) (steps : 2 * n = if op.instr.op32 then 32 else 64)
    (nonzero : operand op.instr.op32 (DivUnit.magnitude op.instr op.dataRs2) ≠ 0) :
    registers (Divider.step^[n] (Divider.load op)) =
      (operand op.instr.op32 (DivUnit.magnitude op.instr op.dataRs1) %
          operand op.instr.op32 (DivUnit.magnitude op.instr op.dataRs2),
        operand op.instr.op32 (DivUnit.magnitude op.instr op.dataRs1) /
          operand op.instr.op32 (DivUnit.magnitude op.instr op.dataRs2)) := by
  have positive : 0 < operand op.instr.op32 (DivUnit.magnitude op.instr op.dataRs2) :=
    BitVec.lt_def.mpr (BitVec.toNat_pos_of_ne_zero nonzero)
  have within : (if op.instr.op32 then 32 else 64) ≤ 63 + 1 := by split <;> decide
  have done := divided positive (by decide) within (operand_short _ _) (load_packed op)
  rw [steps_registers,steps,load_divisor]
  refine Prod.ext done.1 (BitVec.eq_of_getLsbD_eq fun i below => ?_)
  exact done.2 i (Nat.le_of_lt_succ below)

-- The registers at the end of a division of v-bit words
structure Settled {v : Nat} (d : Divider α) (signed : Bool) (x y : BitVec v) : Prop where
  zero : d.divZero = true ↔ y = 0
  signedOp : d.signedOp = signed
  signs : d.sameSign = !(x.msb ^^ y.msb)
  dividend : d.instruction.resultPc.truncate v = x
  negative : (d.instruction.resultPc.getLsbD 63 && !d.op32 || d.instruction.resultPc.getLsbD 31 && d.op32) = x.msb
  quotient : y ≠ 0 → d.dividendQuotient.truncate v = MExtension.magnitude signed x / MExtension.magnitude signed y
  remainder : y ≠ 0 → d.remanent.truncate v = MExtension.magnitude signed x % MExtension.magnitude signed y

theorem Settled.quo {v : Nat} {d : Divider α} {signed : Bool} {x y : BitVec v} (settled : Settled d signed x y)
    (fits : v ≤ 64) : d.quo.truncate v = MExtension.quotient signed x y := by
  have low : (-d.dividendQuotient).truncate v = -(d.dividendQuotient.truncate v : BitVec v) :=
    BitVec.setWidth_neg_of_le fits
  by_cases byZero : d.divZero = true
  · rw [Divider.quo,if_pos byZero,MExtension.quotient,if_pos (settled.zero.mp byZero)]
    refine BitVec.eq_of_getLsbD_eq fun i below => ?_
    rw [BitVec.getLsbD_setWidth,BitVec.getLsbD_allOnes,BitVec.getLsbD_allOnes]
    simp [below,Nat.lt_of_lt_of_le below fits]
  · have nonzero : y ≠ 0 := fun zero => byZero (settled.zero.mpr zero)
    rw [quotient_magnitudes _ nonzero,Divider.quo,if_neg byZero,settled.signedOp,settled.signs,MulUnit.negate_neg,
      ← settled.quotient nonzero]
    cases signed <;> cases (x.msb ^^ y.msb) <;> first | rfl | exact low

theorem Settled.rmd {v : Nat} {d : Divider α} {signed : Bool} {x y : BitVec v} (settled : Settled d signed x y)
    (fits : v ≤ 64) : d.rmd.truncate v = MExtension.remainder signed x y := by
  have low : (-d.remanent).truncate v = -(d.remanent.truncate v : BitVec v) := BitVec.setWidth_neg_of_le fits
  by_cases byZero : d.divZero = true
  · rw [Divider.rmd,if_pos byZero,MExtension.remainder,if_pos (settled.zero.mp byZero)]
    exact settled.dividend
  · have nonzero : y ≠ 0 := fun zero => byZero (settled.zero.mpr zero)
    rw [remainder_magnitudes _ nonzero,Divider.rmd,if_neg byZero,settled.signedOp,settled.negative,MulUnit.negate_neg,
      ← settled.remainder nonzero]
    cases signed <;> cases x.msb <;> first | rfl | exact low

theorem settled_long {n : Nat} (op : ArithInstr α) (long : op.instr.op32 = false) (steps : 2 * n = 64) :
    Settled (Divider.step^[n] (Divider.load op)) op.instr.signedOp op.dataRs1 op.dataRs2 := by
  have same := steps_same n (Divider.load op)
  have shifted : op.dataRs2 ≠ 0 → registers (Divider.step^[n] (Divider.load op)) =
      (MExtension.magnitude op.instr.signedOp op.dataRs1 % MExtension.magnitude op.instr.signedOp op.dataRs2,
        MExtension.magnitude op.instr.signedOp op.dataRs1 / MExtension.magnitude op.instr.signedOp op.dataRs2) := by
    intro nonzero
    have done := load_divided op n
    rw [magnitude_operand,magnitude_operand,long] at done
    exact done steps fun zero => nonzero (magnitude_zero.mp zero)
  refine ⟨?_,same.signedOp,?_,?_,?_,?_,?_⟩
  · rw [same.divZero]
    simp [Divider.load,long]
  · rw [same.sameSign]
    simp [Divider.load,MulUnit.sameSign,long,BitVec.msb_eq_getLsbD_last,Bool.xor_comm]
  · rw [same.instruction]
    exact BitVec.setWidth_eq _
  · rw [same.instruction,same.op32]
    simp [Divider.load,entry,long,BitVec.msb_eq_getLsbD_last]
  · intro nonzero
    exact (BitVec.setWidth_eq _).trans (congrArg Prod.snd (shifted nonzero))
  · intro nonzero
    exact (BitVec.setWidth_eq _).trans (congrArg Prod.fst (shifted nonzero))

theorem settled_short {n : Nat} (op : ArithInstr α) (short : op.instr.op32 = true) (steps : 2 * n = 32) :
    Settled (Divider.step^[n] (Divider.load op)) op.instr.signedOp (op.dataRs1.truncate 32 : BitVec 32)
      (op.dataRs2.truncate 32) := by
  have same := steps_same n (Divider.load op)
  have shifted : (op.dataRs2.truncate 32 : BitVec 32) ≠ 0 → registers (Divider.step^[n] (Divider.load op)) =
      ((MExtension.magnitude op.instr.signedOp (op.dataRs1.truncate 32 : BitVec 32)).zeroExtend 64 %
          (MExtension.magnitude op.instr.signedOp (op.dataRs2.truncate 32 : BitVec 32)).zeroExtend 64,
        (MExtension.magnitude op.instr.signedOp (op.dataRs1.truncate 32 : BitVec 32)).zeroExtend 64 /
          (MExtension.magnitude op.instr.signedOp (op.dataRs2.truncate 32 : BitVec 32)).zeroExtend 64) := by
    intro nonzero
    have done := load_divided op n
    rw [magnitude_operand,magnitude_operand,short] at done
    exact done steps fun zero => nonzero (magnitude_zero.mp ((extend_zero (by decide)).mp zero))
  refine ⟨?_,same.signedOp,?_,?_,?_,?_,?_⟩
  · rw [same.divZero]
    simp only [Divider.load,short,Bool.true_and,Bool.or_eq_true,beq_iff_eq]
    constructor
    · rintro (zero | zero)
      · rw [zero]
        rfl
      · exact zero
    · exact Or.inr
  · rw [same.sameSign]
    simp [Divider.load,MulUnit.sameSign,short,BitVec.msb_eq_getLsbD_last,Bool.xor_comm]
  · rw [same.instruction]
    rfl
  · rw [same.instruction,same.op32]
    simp [Divider.load,entry,short,BitVec.msb_eq_getLsbD_last]
  · intro nonzero
    exact (congrArg (BitVec.truncate 32) (congrArg Prod.snd (shifted nonzero))).trans (extend_div (by decide) _ _)
  · intro nonzero
    exact (congrArg (BitVec.truncate 32) (congrArg Prod.fst (shifted nonzero))).trans (extend_mod (by decide) _ _)

def writesQuotient (m : Op) : Bool := m == .div || m == .divu

theorem result_kind {d : Divider α} {w : Bool} {m : Op} {instr : InstrEntry} (decoded : Decoded w m instr)
    (division : m.divides = true) (kind : d.instruction.instrType = instr.instrType) :
    d.result = word d.op32 (if writesQuotient m then d.quo else d.rmd) := by
  obtain ⟨row,found,fills⟩ := decoded
  rw [Divider.result,kind,fills.instrType]
  cases w <;> cases m <;> cases division <;> cases found <;> rfl

theorem value_kind {v : Nat} {m : Op} (division : m.divides = true) (x y : BitVec v) :
    m.value x y = if writesQuotient m then quotient m.signed x y else remainder m.signed x y := by
  cases m <;> cases division <;> rfl

theorem settled_owed {d : Divider α} {w : Bool} {m : Op} {instr : InstrEntry} {x y : BitVec 64}
    (decoded : Decoded w m instr) (division : m.divides = true)
    (kind : d.instruction.instrType = instr.instrType) (wide : d.op32 = w)
    (long : w = false → Settled d m.signed x y)
    (short : w = true → Settled d m.signed (x.truncate 32 : BitVec 32) (y.truncate 32)) :
    d.result = owed w m x y := by
  rw [result_kind decoded division kind,wide]
  cases w with
  | false =>
    have settled := long rfl
    have quo := settled.quo (Nat.le_refl _)
    have rmd := settled.rmd (Nat.le_refl _)
    rw [BitVec.truncate_eq_setWidth,BitVec.setWidth_eq] at quo rmd
    change (if writesQuotient m then d.quo else d.rmd) = m.value x y
    rw [quo,rmd,value_kind division]
  | true =>
    have settled := short rfl
    have quo := settled.quo (by decide)
    have rmd := settled.rmd (by decide)
    change ((if writesQuotient m then d.quo else d.rmd).truncate 32 : BitVec 32).signExtend 64 = m.word x y
    rw [Op.word,value_kind division,apply_ite (BitVec.truncate 32),quo,rmd]

theorem outcome_owed {op : ArithInstr α} {w : Bool} {m : Op} (decoded : Decoded w m op.instr)
    (division : m.divides = true) : (outcome op).result = owed w m op.dataRs1 op.dataRs2 := by
  have width := decoded.op32
  have unit : op.instr.unit = .div := by rw [decoded.unit,if_pos division]
  have other : (FunctionalUnit.div == FunctionalUnit.mul) = false := rfl
  have same := steps_same (latency op - 1) (Divider.load op)
  have ended : (outcome op).result = (Divider.step^[latency op - 1] (Divider.load op)).result := by
    rw [outcome,unit,other,if_neg Bool.false_ne_true]
    rfl
  have steps : 2 * (latency op - 1) = if w then 32 else 64 := by
    rw [latency,unit,other,if_neg Bool.false_ne_true,width]
    cases w <;> rfl
  rw [ended]
  refine settled_owed decoded division (congrArg ScalarWb.instrType same.instruction) (same.op32.trans width) ?_ ?_
  · intro long
    rw [← decoded.signedOp]
    exact settled_long op (width.trans long) (by rw [steps,long]; rfl)
  · intro short
    rw [← decoded.signedOp]
    exact settled_short op (width.trans short) (by rw [steps,short]; rfl)

section
variable [Inhabited α]

-- In every run of the units and their scoreboard, a division that no flush meets is alone on
-- the port at its latency and shows the result of the instruction set.
theorem divisions_exact (inputs : Nat → Input α) (t : Nat) (op : ArithInstr α) (w : Bool) (m : Op)
    (division : m.divides = true) (decoded : Decoded w m op.instr)
    (issue : issued (trace machine inputs t) (inputs t) = some op)
    (quiet : ∀ v < t + (if w then 17 else 33), t ≤ v → (inputs v).flush = false) :
    ∃ wb, presented (trace machine inputs (t + if w then 17 else 33)) = [wb] ∧
      valid (writeback (trace machine inputs (t + if w then 17 else 33))) = [wb] ∧ Destined wb op ∧
      wb.result = owed w m op.dataRs1 op.dataRs2 := by
  have unit : op.instr.unit = .div := by rw [decoded.unit,if_pos division]
  have other : (FunctionalUnit.div == FunctionalUnit.mul) = false := rfl
  have fixed : latency op = if w then 17 else 33 := by
    rw [latency,unit,other,if_neg Bool.false_ne_true,decoded.op32]
  rw [← fixed] at quiet ⊢
  obtain ⟨shown,destined⟩ := presented_outcome issue quiet
  exact ⟨outcome op,shown,(writeback_presented inputs _).trans shown,destined,outcome_owed decoded division⟩

end

-- REMW of the least word by minus one, issued while the other divider works on a DIV
def division (instrType : InstrType) (op32 : Bool) (memSize : BitVec 4) (x y : BitVec 64) : RrExeInstr Unit :=
  ⟨⟨true,.div,instrType,op32,false,false,true,0,0,memSize,5,true,false,false,false,0,0⟩,x,y,0,0,
    true,true,true,true,true,true,true,true,true,0,7,0,0,0,()⟩

def overflowRun (t : Nat) : Input Unit where
  from_rr :=
    if t = 0 then division .div false 4 7 (-2) else { division .remw true 6 0x80000000 (-1) with rdy1 := t == 1 }
  kill := false
  flush := false
  stallMem := false
  stallVagu := false
  stallFpu := false
  stallSimd := false

theorem divisions_exact_overflow : ∃ wb, presented (trace machine overflowRun 18) = [wb] ∧
    valid (writeback (trace machine overflowRun 18)) = [wb] ∧
    Destined wb (arith (trace machine overflowRun 1) (overflowRun 1)) ∧ wb.result = owed true .rem 0x80000000 (-1) :=
  divisions_exact overflowRun 1 _ true .rem rfl ⟨_,rfl,rfl,rfl,rfl,rfl,rfl⟩ (by decide) fun _ _ _ => rfl

end Sargantana.ScalarDivision
