import Sargantana.BranchDecoder

-- What exe_stage reports of a branch against where the instruction goes.
namespace Sargantana.BranchResolution
open DracPkg ExeStage FetchStages BranchUnit BranchDecoder ControlTransfer

def outcome (t : Transfer) (from_rr : RrExeInstr BranchPred) : Option (BitVec 64) :=
  t.outcome from_rr.instr.pc from_rr.dataRs1 from_rr.dataRs2 from_rr.instr.imm

def nextPc (t : Transfer) (from_rr : RrExeInstr BranchPred) : BitVec 64 :=
  t.nextPc from_rr.instr.pc from_rr.dataRs1 from_rr.dataRs2 from_rr.instr.imm

-- Where the front end went: a jal was put right at decode.
def followed (t : Transfer) (from_rr : RrExeInstr BranchPred) : BitVec 64 :=
  if t = .jal then nextPc t from_rr else path from_rr.instr.pc (predicted from_rr.carried)

-- The fetch predicts, and decode puts right the jumps that it can: a jal that is aligned, and a jalr that pops.
structure Front where
  isBranch : Bool
  taken : Bool
  addr : BitVec 64
  ras : BitVec 64
  pop : Bool
  flush : Bool
  stall : Bool

def Front.carries (f : Front) (t : Transfer) : BranchPred :=
  let bpred := fetchBpred f.isBranch f.taken f.addr
  if t = .jalr then jalrBpred bpred f.ras f.pop f.flush f.stall else bpred

def Front.goes (f : Front) (t : Transfer) (pc offset : BitVec 64) : BitVec 64 :=
  let bpred := fetchBpred f.isBranch f.taken f.addr
  let falls := bpOrPc4 pc f.isBranch f.taken f.addr
  match t with
  | .jal => if jalJumps bpred (pc + offset) false then pc + offset else falls
  | .jalr => if jalrJumps bpred f.ras f.pop f.flush f.stall then f.ras else falls
  | _ => falls

theorem followed_front (f : Front) (t : Transfer) (from_rr : RrExeInstr BranchPred) (same : from_rr.carried = f.carries t) :
    followed t from_rr = f.goes t from_rr.instr.pc from_rr.instr.imm := by
  unfold followed
  rw [same]
  cases t
  case jal => exact (jal_path ..).symm
  case jalr => exact (jalr_path ..).symm
  all_goals exact (fetch_path ..).symm

section
variable {grants : Grants} {from_rr : RrExeInstr BranchPred} {kill : Bool} {t : Transfer}

theorem arith_type (decoded : Decoded t from_rr.instr) :
    (arithInstr grants from_rr kill).instr.instrType = typeOf t := by
  unfold arithInstr
  split <;> exact decoded.row.instrType

theorem arith_pc : (arithInstr grants from_rr kill).instr.pc = from_rr.instr.pc := by
  unfold arithInstr
  split <;> rfl

theorem arith_imm : (arithInstr grants from_rr kill).instr.imm = from_rr.instr.imm := by
  unfold arithInstr
  split <;> rfl

theorem arith_rs1 (decoded : Decoded t from_rr.instr) (other : t ≠ .jal) :
    (arithInstr grants from_rr kill).dataRs1 = from_rr.dataRs1 := by
  have register : from_rr.instr.usePc = false := decoded.row.usePc.trans (beq_eq_false_iff_ne.mpr other)
  simp [arithInstr,register]

theorem arith_rs2 (decoded : Decoded t from_rr.instr) (other : t ≠ .jal) :
    (arithInstr grants from_rr kill).dataRs2 = from_rr.dataRs2 := by
  have register : from_rr.instr.useImm = false := decoded.row.useImm.trans (beq_eq_false_iff_ne.mpr other)
  simp [arithInstr,register]

theorem taken_eq {i : ArithInstr BranchPred} (kind : i.instr.instrType = typeOf t) :
    branchTaken i = t.taken i.dataRs1 i.dataRs2 := by
  unfold branchTaken
  rw [kind]
  cases t
  case beq => exact beq_eq_decide _ _
  case bne => exact (congrArg (!·) (beq_eq_decide _ _)).trans (decide_not).symm
  case blt => rfl
  case bge => exact (decide_not).symm.trans (decide_eq_decide.mpr Int.not_lt)
  case bltu => rfl
  case bgeu => exact (decide_not).symm.trans (decide_eq_decide.mpr Nat.not_lt)
  case jal => rfl
  case jalr => rfl

theorem target_eq {i : ArithInstr BranchPred} (kind : i.instr.instrType = typeOf t) (other : t ≠ .jal) :
    target i = t.target i.instr.pc i.dataRs1 i.instr.imm := by
  unfold target
  rw [kind]
  cases t
  case jal => exact absurd rfl other
  all_goals rfl

theorem unit_outcome (decoded : Decoded t from_rr.instr) (other : t ≠ .jal) :
    outcome t from_rr = if (branchToScalarWb grants from_rr kill).branchTaken then
      some (branchToScalarWb grants from_rr kill).wb.resultPc else none := by
  have kind : (arithInstr grants from_rr kill).instr.instrType = typeOf t := arith_type decoded
  have taken : (branchToScalarWb grants from_rr kill).branchTaken = t.taken from_rr.dataRs1 from_rr.dataRs2 :=
    (taken_eq kind).trans (by rw [arith_rs1 decoded other,arith_rs2 decoded other])
  have goes : (branchToScalarWb grants from_rr kill).wb.resultPc =
      t.target from_rr.instr.pc from_rr.dataRs1 from_rr.instr.imm :=
    (target_eq kind other).trans (by rw [arith_pc,arith_rs1 decoded other,arith_imm])
  rw [outcome,Transfer.outcome,taken,goes]

theorem redirect_next (decoded : Decoded t from_rr.instr) (other : t ≠ .jal) :
    (exeIfBranchPred grants from_rr kill).branchAddrResultExe = nextPc t from_rr := by
  have falls : (branchToScalarWb grants from_rr kill).wb.result = from_rr.instr.pc + 4 :=
    congrArg (· + 4) arith_pc
  have unit : outcome t from_rr = if (branchToScalarWb grants from_rr kill).branchTaken then
      some (branchToScalarWb grants from_rr kill).wb.resultPc else none := unit_outcome decoded other
  change (if _ then _ else _) = path from_rr.instr.pc (outcome t from_rr)
  rw [unit,falls]
  split <;> rfl

theorem correct_jal (decoded : Decoded .jal from_rr.instr) : correctBranchPred grants from_rr kill = true := by
  have kind : from_rr.instr.instrType = jal := decoded.row.instrType
  unfold correctBranchPred
  rw [if_pos kind]
  split <;> rfl

theorem correct_predicted (decoded : Decoded t from_rr.instr) (other : t ≠ .jal)
    (reaches : (branchToScalarWb grants from_rr kill).wb.valid = true) :
    correctBranchPred grants from_rr kill = true ↔ predicted from_rr.carried = outcome t from_rr := by
  have kind : from_rr.instr.instrType = typeOf t := decoded.row.instrType
  have apart : ¬ from_rr.instr.instrType = jal := by
    rw [kind]
    cases t
    case jal => exact absurd rfl other
    all_goals decide
  have resolved : ¬ (!isConditional from_rr.instr.instrType && from_rr.instr.instrType != jalr) = true := by
    rw [kind]
    cases t
    case jal => exact absurd rfl other
    all_goals decide
  have unit : outcome t from_rr = if (branchToScalarWb grants from_rr kill).branchTaken then
      some (branchToScalarWb grants from_rr kill).wb.resultPc else none := unit_outcome decoded other
  rw [unit,correctBranchPred,if_pos reaches,if_neg apart,if_neg resolved,predicted]
  cases from_rr.carried.isBranch <;> cases from_rr.carried.decision <;>
    cases (branchToScalarWb grants from_rr kill).branchTaken <;> simp

end

-- A prediction is reported correct when the front end went where the instruction goes, in the
-- direction of the outcome. Otherwise the redirection is to where it goes; where the front
-- end had gone there too, that is the next instruction.
theorem branch_resolution (grants : Grants) (from_rr : RrExeInstr BranchPred) (kill : Bool) (t : Transfer)
    (decoded : Decoded t from_rr.instr) (reaches : (branchToScalarWb grants from_rr kill).wb.valid = true) :
    (correctBranchPred grants from_rr kill = true ↔ followed t from_rr = nextPc t from_rr ∧
      (t = .jal ∨ (predicted from_rr.carried).isSome = t.taken from_rr.dataRs1 from_rr.dataRs2)) ∧
    (correctBranchPred grants from_rr kill = false →
      (exeIfBranchPred grants from_rr kill).branchAddrResultExe = nextPc t from_rr ∧
      (followed t from_rr = nextPc t from_rr → nextPc t from_rr = from_rr.instr.pc + 4)) := by
  by_cases jump : t = .jal
  · subst jump
    have correct : correctBranchPred grants from_rr kill = true := correct_jal decoded
    refine ⟨iff_of_true correct ⟨if_pos rfl,.inl rfl⟩,?_⟩
    intro wrong
    rw [correct] at wrong
    cases wrong
  · have correct := correct_predicted decoded jump reaches
    have went : followed t from_rr = path from_rr.instr.pc (predicted from_rr.carried) := if_neg jump
    have direction : (outcome t from_rr).isSome = t.taken from_rr.dataRs1 from_rr.dataRs2 := by
      rw [outcome,Transfer.outcome]
      split <;> simp_all
    refine ⟨?_,?_⟩
    · rw [correct,went,← direction]
      refine (predicted_iff : _ ↔ path from_rr.instr.pc (predicted from_rr.carried) = _ ∧ _).trans ?_
      exact and_congr_right fun _ => (or_iff_right jump).symm
    · intro wrong
      have crossed : predicted from_rr.carried ≠ outcome t from_rr := by
        intro same
        rw [correct.mpr same] at wrong
        cases wrong
      refine ⟨redirect_next decoded jump,fun there => ?_⟩
      rw [went] at there
      exact crossed_path crossed there

def toNext : RrExeInstr BranchPred where
  instr := { InstrEntry.zero with valid := true, unit := .branch, instrType := beq, imm := 4 }
  dataRs1 := 0
  dataRs2 := 0
  dataVs1 := 0
  dataVs2 := 0
  rdy1 := true
  rdy2 := true
  frdy1 := true
  frdy2 := true
  frdy3 := true
  vrdy1 := true
  vrdy2 := true
  vrdyOldVd := true
  vrdym := true
  dataRs3 := 0
  prd := 0
  pvd := 0
  fprd := 0
  glIndex := 0
  carried := ⟨false,false,0⟩

def granted : Grants := ⟨true,true,true,true,false,false,false,false⟩

theorem toNext_decoded : Decoded .beq toNext.instr := ⟨0x63,0,_,rfl,rfl,rfl,rfl,rfl,rfl⟩

theorem branch_resolution_next :
    (exeIfBranchPred granted toNext false).branchAddrResultExe = nextPc .beq toNext :=
  ((branch_resolution granted toNext false .beq toNext_decoded rfl).2 (by decide)).1

theorem branch_resolution_exact_fails :
    ¬ ∀ (grants : Grants) (from_rr : RrExeInstr BranchPred) (kill : Bool) (t : Transfer),
      Decoded t from_rr.instr → (branchToScalarWb grants from_rr kill).wb.valid = true →
      (correctBranchPred grants from_rr kill = true ↔ followed t from_rr = nextPc t from_rr) := by
  intro exact
  have correct := (exact granted toNext false .beq toNext_decoded rfl).mpr (by decide)
  revert correct
  decide

end Sargantana.BranchResolution
