import Sargantana.MulDivDecoder
import Sargantana.ScalarSchedule

-- mul_unit computes the product of the instruction set, and so does every product that
-- passes through the schedule.
namespace Sargantana.ScalarProduct
open DracPkg MulUnit MulDivDecoder MExtension ScalarSchedule StateMachine

variable {α : Type}

def signedFirst : Op → Bool
  | .mulhu => false
  | _ => true

def signedSecond : Op → Bool
  | .mul | .mulh => true
  | _ => false

theorem mul_short {a b : Nat} (first : a < 2 ^ 64) (second : b < 2 ^ 32) : a * b < 2 ^ 96 :=
  Nat.lt_of_lt_of_eq (Nat.mul_lt_mul_of_lt_of_lt first second) (Nat.pow_add 2 64 32).symm

theorem partial_toNat (x : BitVec 64) (y : BitVec 32) :
    ((x.zeroExtend 96 * y.zeroExtend 96).zeroExtend 128).toNat = x.toNat * y.toNat := by
  have first := x.isLt
  have second := y.isLt
  have short := mul_short first second
  simp only [BitVec.truncate_eq_setWidth,BitVec.toNat_setWidth,BitVec.toNat_mul]
  rw [Nat.mod_eq_of_lt (by omega : x.toNat < 2 ^ 96),Nat.mod_eq_of_lt (by omega : y.toNat < 2 ^ 96)]
  omega

-- The products by the low and the high half of a factor make up the whole.
theorem partial_products (x y : BitVec 64) :
    (x.zeroExtend 96 * (y.extractLsb' 0 32).zeroExtend 96).zeroExtend 128 +
        (x.zeroExtend 96 * (y.extractLsb' 32 32).zeroExtend 96).zeroExtend 128 <<< 32 =
      BitVec.ofNat 128 (x.toNat * y.toNat) := by
  have below := y.isLt
  have halves : x.toNat * y.toNat = x.toNat * (y.toNat % 2 ^ 32) + x.toNat * (y.toNat / 2 ^ 32) * 2 ^ 32 := by
    rw [Nat.mul_assoc,← Nat.mul_add]
    congr 1
    omega
  refine BitVec.eq_of_toNat_eq ?_
  rw [BitVec.toNat_add,BitVec.toNat_shiftLeft,partial_toNat,partial_toNat,BitVec.toNat_ofNat,BitVec.extractLsb'_toNat,
    BitVec.extractLsb'_toNat,Nat.shiftLeft_eq,Nat.shiftRight_zero,Nat.shiftRight_eq_div_pow,
    Nat.mod_eq_of_lt (by omega : y.toNat / 2 ^ 32 < 2 ^ 32),Nat.add_mod_mod,← halves]

theorem second_full {first : First α} {signedX signedY : Bool} {x y : BitVec 64}
    (src1 : first.src1Def = magnitude signedX x) (src2 : first.src2Def = magnitude signedY y)
    (sign : first.negDef = ((signedX && x.msb) ^^ (signedY && y.msb))) :
    (let sum : BitVec 128 :=
      first.resultLow.zeroExtend 128 + first.resultHigh.zeroExtend 128 <<< 32
    if first.negDef then ~~~sum + 1 else sum) = BitVec.ofInt (64 + 64) (reading signedX x * reading signedY y) := by
  have whole : first.resultLow.zeroExtend 128 + first.resultHigh.zeroExtend 128 <<< 32 =
      BitVec.ofNat 128 ((magnitude signedX x).toNat * (magnitude signedY y).toNat) := by
    rw [← src1,← src2]
    exact partial_products _ _
  rw [product_magnitudes]
  simp only [whole,sign]
  cases (signedX && x.msb) ^^ (signedY && y.msb) with
  | false => exact (BitVec.ofInt_natCast _ _).symm
  | true =>
    simp only [if_true]
    rw [BitVec.ofInt_neg,BitVec.ofInt_natCast]
    exact (BitVec.neg_eq_not_add _).symm

theorem second_result {first : First α} {m : Op} {x y : BitVec 64} (product : m.divides = false)
    (type : first.type = m.func3) (src1 : first.src1Def = magnitude (signedFirst m) x)
    (src2 : first.src2Def = magnitude (signedSecond m) y)
    (sign : first.negDef = ((signedFirst m && x.msb) ^^ (signedSecond m && y.msb))) :
    (Second.load first).result64 = m.value x y := by
  have full := second_full src1 src2 sign
  simp only [Second.result64,Second.load,type] at full ⊢
  rw [full]
  cases m <;> cases product
  · exact low_half _
  · exact high_half _
  · exact high_half _
  · exact high_half _

-- The operands of the first stage are magnitudes.
theorem operands_long {op : ArithInstr α} {m : Op} (product : m.divides = false)
    (decoded : Decoded false m op.instr) :
    operands op = (magnitude (signedFirst m) op.dataRs1,magnitude (signedSecond m) op.dataRs2,
      (signedFirst m && op.dataRs1.msb) ^^ (signedSecond m && op.dataRs2.msb)) := by
  have width := decoded.op32
  have type := decoded.memSize
  unfold operands
  rw [type]
  cases m <;> cases product <;>
    simp [Op.func3,width,BitVec.msb_eq_getLsbD_last,negate_neg,magnitude,signedFirst,signedSecond,sameSign,Bool.xor_comm]

-- MULW needs the low words only.
theorem first_result {first : First α} {x y : BitVec 64} {negX negY : Bool}
    (src1 : first.src1Def = if negX then negate x else x) (src2 : first.src2Def = if negY then negate y else y)
    (sign : first.negDef = (negX ^^ negY)) : first.result32 = Op.mul.word x y := by
  have low : (first.resultLow.truncate 64).truncate 32 =
      (first.src1Def.truncate 32 * first.src2Def.truncate 32 : BitVec 32) := by
    have half : (first.src2Def.extractLsb' 0 32).zeroExtend 96 = (first.src2Def.truncate 32 : BitVec 32).zeroExtend 96 := by
      rw [BitVec.truncate_eq_setWidth,BitVec.setWidth_eq_extractLsb' (by decide : 32 ≤ 64)]
    rw [First.resultLow,half]
    simp only [BitVec.truncate_eq_setWidth,BitVec.setWidth_setWidth_of_le _ (by decide : 32 ≤ 64),
      BitVec.setWidth_mul _ _ (by decide : 32 ≤ 96),BitVec.setWidth_setWidth_of_le _ (by decide : 32 ≤ 96),
      BitVec.setWidth_eq]
  have opposite : ∀ z : BitVec 64, (negate z).truncate 32 = -(z.truncate 32 : BitVec 32) := fun z =>
    negate_neg z ▸ BitVec.setWidth_neg_of_le (by decide)
  have value : Op.mul.value (x.truncate 32 : BitVec 32) (y.truncate 32) = x.truncate 32 * y.truncate 32 := by
    rw [Op.value,BitVec.ofInt_mul,BitVec.ofInt_toInt,BitVec.ofInt_toInt]
  rw [First.result32,Op.word,value,sign]
  congr 1
  rw [apply_ite (BitVec.truncate 32),opposite,low,src1,src2,apply_ite (BitVec.truncate 32),
    apply_ite (BitVec.truncate 32),opposite,opposite]
  cases negX <;> cases negY <;> simp

theorem operands_short {op : ArithInstr α} {m : Op} (product : m.divides = false)
    (decoded : Decoded true m op.instr) (accepted : accepts op = true) :
    m = .mul ∧ operands op = (if op.dataRs1.getLsbD 31 then negate op.dataRs1 else op.dataRs1,
      if op.dataRs2.getLsbD 31 then negate op.dataRs2 else op.dataRs2,
      op.dataRs1.getLsbD 31 ^^ op.dataRs2.getLsbD 31) := by
  have width := decoded.op32
  have type := decoded.memSize
  obtain ⟨row,found,_⟩ := decoded
  unfold operands
  rw [type]
  cases m <;> cases product <;> cases found
  simp [Op.func3,width,accepted,sameSign,Bool.xor_comm]

theorem outcome_owed {op : ArithInstr α} {w : Bool} {m : Op} (decoded : Decoded w m op.instr)
    (product : m.divides = false) (accepted : accepts op = true) :
    (outcome op).result = owed w m op.dataRs1 op.dataRs2 := by
  have width := decoded.op32
  have unit : (op.instr.unit == .mul) = true := by rw [decoded.unit,product]; rfl
  rw [outcome,if_pos unit,width]
  cases w with
  | false =>
    have factors := operands_long product decoded
    refine second_result product decoded.memSize ?_ ?_ ?_
    · exact congrArg Prod.fst factors
    · exact congrArg (fun x => x.2.1) factors
    · exact congrArg (fun x => x.2.2) factors
  | true =>
    obtain ⟨rfl,factors⟩ := operands_short product decoded accepted
    have sign := congrArg (fun x => x.2.2) factors
    refine first_result ?_ ?_ sign
    · exact congrArg Prod.fst factors
    · exact congrArg (fun x => x.2.1) factors

theorem issued_product {s : ScalarSchedule.State α} {input : Input α} {op : ArithInstr α}
    (issue : issued s input = some op) (unit : op.instr.unit = .mul) : MulUnit.accepts op = true := by
  unfold issued at issue
  split at issue
  · rename_i accepted
    rw [Option.some.inj issue] at accepted
    rcases Bool.or_eq_true _ _ ▸ accepted with product | division
    · exact product
    · simp [DivUnit.accepts,unit] at division
  · cases issue

section
variable [Inhabited α]

-- What a divider finishes is no product.
theorem divider_landed {s : ScalarSchedule.State α} {held : Held α} (encodes : Encodes s held) {i : Bool} {op : ArithInstr α}
    (ended : op ∈ Schedule.landed (held.divider i).toList) : MulUnit.accepts op = false := by
  obtain ⟨flight,member,done⟩ := List.mem_filterMap.mp ended
  have divides := encodes.divides (Option.mem_toList.mp member)
  have same : flight.op = op := by
    unfold Schedule.Flight.landed at done
    split at done
    · exact Option.some.inj done
    · cases done
  obtain ⟨_,unit⟩ : flight.op.instr.valid = true ∧ flight.op.instr.unit = .div := by
    simpa [DivUnit.accepts] using divides.division
  rw [← same,MulUnit.accepts,unit]
  exact Bool.and_false _

theorem product_presented {inputs : Nat → Input α} {t : Nat} {op : ArithInstr α}
    (issue : issued (trace machine inputs t) (inputs t) = some op) (product : MulUnit.accepts op = true)
    (quiet : ∀ v < t + latency op, t ≤ v → (inputs v).flush = false) :
    valid (MulUnit.output (trace machine inputs (t + latency op)).mul) = [outcome op] := by
  obtain ⟨held,encodes,same⟩ := trace_held inputs (t + latency op)
  have due : op ∈ Schedule.due (cycles inputs) (t + latency op) :=
    Schedule.due_mem.mpr ⟨t,⟨op,latency op⟩,by simp [cycles,cycle,issue],rfl,quiet,rfl⟩
  have member : op ∈ Schedule.landed held.flights := by
    rw [(Schedule.landed_perm same).mem_iff,landed_flights]
    exact due
  have one := encodes.distinct.one_landed
  simp only [Held.flights,Schedule.landed,List.filterMap_append] at member one
  rw [valid_product encodes,Schedule.landed,List.filterMap_append]
  rcases List.mem_append.mp member with ahead | second
  · rcases List.mem_append.mp ahead with inside | first
    · rw [Schedule.single_mem (by simp only [List.length_append] at one ⊢; omega) inside]
      rfl
    · exact absurd product (Bool.eq_false_iff.mp (divider_landed encodes first))
  · exact absurd product (Bool.eq_false_iff.mp (divider_landed encodes second))

-- In every run of the units and their scoreboard, whatever is issued around it, a product
-- that no flush meets leaves the multiplier at its latency with the result of the
-- instruction set for its own operands.
theorem products_exact (inputs : Nat → Input α) (t : Nat) (op : ArithInstr α) (w : Bool) (m : Op)
    (product : m.divides = false) (decoded : Decoded w m op.instr)
    (issue : issued (trace machine inputs t) (inputs t) = some op)
    (quiet : ∀ v < t + (if w then 1 else 2), t ≤ v → (inputs v).flush = false) :
    ∃ wb, valid (MulUnit.output (trace machine inputs (t + if w then 1 else 2)).mul) = [wb] ∧
      valid (writeback (trace machine inputs (t + if w then 1 else 2))) = [wb] ∧ Destined wb op ∧
      wb.result = owed w m op.dataRs1 op.dataRs2 := by
  have unit : (op.instr.unit == .mul) = true := by rw [decoded.unit,product]; rfl
  have fixed : latency op = if w then 1 else 2 := by rw [latency,if_pos unit,decoded.op32]
  have accepted : MulUnit.accepts op = true := issued_product issue (beq_iff_eq.mp unit)
  rw [← fixed] at quiet ⊢
  obtain ⟨shown,destined⟩ := presented_outcome issue quiet
  exact ⟨outcome op,product_presented issue accepted quiet,(writeback_presented inputs _).trans shown,destined,
    outcome_owed decoded product accepted⟩

end

-- A MULH, and a MULW right behind the bubble that its latency asks for
def product (instrType : InstrType) (op32 : Bool) (memSize : BitVec 4) (x y : BitVec 64) : RrExeInstr Unit :=
  ⟨⟨true,.mul,instrType,op32,false,false,false,0,0,memSize,5,true,false,false,false,0,0⟩,x,y,0,0,
    true,true,true,true,true,true,true,true,true,0,7,0,0,0,()⟩

def productRun (t : Nat) : Input Unit where
  from_rr := if t = 0 then product mulh false 1 (-3) 5 else product mulw true 0 0xFFFFFFFF 0x100000003
  kill := false
  flush := false
  stallMem := false
  stallVagu := false
  stallFpu := false
  stallSimd := false

theorem products_exact_word : ∃ wb, valid (MulUnit.output (trace machine productRun 3).mul) = [wb] ∧
    valid (writeback (trace machine productRun 3)) = [wb] ∧
    Destined wb (arith (trace machine productRun 2) (productRun 2)) ∧
    wb.result = owed true .mul 0xFFFFFFFF 0x100000003 :=
  products_exact productRun 2 _ true .mul rfl ⟨_,rfl,rfl,rfl,rfl,rfl,rfl⟩ (by decide) fun _ _ _ => rfl

end Sargantana.ScalarProduct
