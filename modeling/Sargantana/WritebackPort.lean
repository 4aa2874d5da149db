import Sargantana.SimdSchedule
import Sargantana.FpuCompletion

-- The scalar writeback port that simd_unit and fpu_drac_wrapper share: exe_stage holds the
-- floating point side back by the SIMD instruction that it issues.
namespace Sargantana.WritebackPort
open DracPkg ExeStage StateMachine

variable {α : Type}

structure State (α : Type) where
  simd : SimdSchedule.State α
  fp : PendingFpOpsQueue.State α

-- One clock cycle. in_ready_o and the results of fpnew, and the scalar that the lanes of
-- simd_unit compute, come from outside; stallFpu of the other grants is not read.
structure Input (α : Type) where
  from_rr : RrExeInstr α
  kill : Bool
  flush : Bool
  others : Grants
  readyFpu : Bool
  result : Option PendingFpOpsQueue.Result
  dataRd : BitVec 64

def stallWb (instruction : SimdInstr α) : Bool :=
  instruction.instr.valid && instruction.instr.unit == .simd && instruction.instr.regfileWe

-- The wires of fpu_drac_wrapper but for stall_wb_i, which its stall_o does not read
def fpWires (i : Input α) (stallWb : Bool) : FpuDracWrapper.Input α where
  instruction := fpInstr i.from_rr i.kill
  flush := i.flush
  stallWb := stallWb
  readyFpu := i.readyFpu
  result := i.result

def simdInput (s : State α) (i : Input α) : SimdSchedule.Input α where
  from_rr := i.from_rr
  kill := i.kill
  flush := i.flush
  others := { i.others with stallFpu := FpuDracWrapper.stall s.fp (fpWires i false) }

def simdInstruction (s : State α) (i : Input α) : SimdInstr α := SimdSchedule.instruction s.simd (simdInput s i)

def fpInput (s : State α) (i : Input α) : FpuDracWrapper.Input α := fpWires i (stallWb (simdInstruction s i))

-- The instructions of UNIT_SIMD that the decoder gives an integer destination
def toScalar : InstrType → Bool
  | .vcnt | .vmvXS | .vpopc | .vfirst => true
  | _ => false

def Decoded (i : Input α) : Prop :=
  i.from_rr.instr.valid = true → i.from_rr.instr.unit = .simd → i.from_rr.instr.regfileWe = true →
    toScalar i.from_rr.instr.instrType = true

section
variable [Inhabited α]

def next (s : State α) (i : Input α) : State α where
  simd := SimdSchedule.next s.simd (simdInput s i)
  fp := FpuDracWrapper.next s.fp (fpInput s i)

def machine : Machine (State α) (Input α) where
  initial := ⟨⟨ScoreBoardSimd.reset,SimdUnit.reset⟩,PendingFpOpsQueue.reset⟩
  allowed _ i := Decoded i
  step := next

def simdToScalarWb (s : State α) (i : Input α) : FpuDracWrapper.FpWb α :=
  let out := SimdUnit.instrToOut s.simd.unit (simdInstruction s i)
  { valid := SimdUnit.scalarValid s.simd.unit (simdInstruction s i)
    pc := out.instr.pc
    instrType := out.instr.instrType
    rd := out.instr.rd
    regfileWe := out.instr.regfileWe
    csrAddr := out.instr.imm.truncate 12
    prd := out.prd
    glIndex := out.glIndex
    resultPc := 0
    result := i.dataRd
    carried := out.carried
    fpStatus := 0 }

def fpToScalarWb (s : State α) (i : Input α) : FpuDracWrapper.FpWb α :=
  FpuDracWrapper.instructionScalarO s.fp (fpInput s i)

def wbZero : FpuDracWrapper.FpWb α := FpuDracWrapper.wb PendingFpOpsQueue.instrZero false false 0 0

-- simd_to_scalar_wb_o and fp_to_scalar_wb_o
def simdToScalarWbO (s : State α) (i : Input α) : FpuDracWrapper.FpWb α :=
  if (simdToScalarWb s i).valid then simdToScalarWb s i else wbZero

def fpToScalarWbO (s : State α) (i : Input α) : FpuDracWrapper.FpWb α :=
  if (FpuDracWrapper.instructionO s.fp).valid || (fpToScalarWb s i).valid then fpToScalarWb s i else wbZero

-- exe_to_wb_scalar of the two: FP over SIMD
def exeToWbScalar (s : State α) (i : Input α) : FpuDracWrapper.FpWb α :=
  if (fpToScalarWbO s i).valid then fpToScalarWbO s i else simdToScalarWbO s i

end

-- What waits in simd_unit writes no integer register.
structure Vectors (u : SimdUnit.State α) : Prop where
  rows : ∀ row cell op, u.simdPipe row cell = some op → op.instr.regfileWe = false
  division : u.divisionInstruction.instr.regfileWe = false

theorem scalar_kinds {kind : InstrType} (scalar : toScalar kind = true) :
    kind = .vcnt ∨ kind = .vmvXS ∨ kind = .vpopc ∨ kind = .vfirst := by
  unfold toScalar at scalar
  split at scalar <;> simp_all

theorem scalar_undivided {kind : InstrType} (scalar : toScalar kind = true) : ScoreBoardSimd.isVdiv kind = false := by
  rcases scalar_kinds scalar with rfl | rfl | rfl | rfl <;> rfl

theorem scalar_stages {op : SimdInstr α} (scalar : toScalar op.instr.instrType = true)
    (previous : ScoreBoardSimd.PreviousDiv) (asks : Bool) : ScoreBoardSimd.stages previous asks op = 1 := by
  unfold ScoreBoardSimd.stages
  rcases scalar_kinds scalar with kind | kind | kind | kind <;> rw [kind] <;> rfl

-- An issued instruction with an integer destination has one stage.
theorem issued_scalar {s : State α} {i : Input α} (decoded : Decoded i)
    (valid : (simdInstruction s i).instr.valid = true) (write : (simdInstruction s i).instr.regfileWe = true) :
    toScalar (simdInstruction s i).instr.instrType = true := by
  rcases SimdSchedule.issued_cases s.simd (simdInput s i) with ⟨_,idle⟩ | ⟨_,_,unit,rdy,_,_⟩
  · cases idle.symm.trans valid
  · have came : i.from_rr.instr.valid = true := by
      change ready i.from_rr = true at rdy
      unfold ready at rdy
      exact (Bool.and_eq_true_iff.mp rdy).1
    exact decoded came unit write

theorem waiting_vector {u : SimdUnit.State α} (vectors : Vectors u) {op : SimdInstr α}
    (found : SimdUnit.instrScoreBoard u = some op) : op.instr.regfileWe = false := by
  rcases Option.or_eq_some_iff.mp found with short | ⟨_,long⟩
  · obtain ⟨_,row,_,_,inside,_⟩ := List.findSome?_eq_some_iff.mp short
    exact vectors.rows _ _ _ inside
  · split at long
    · obtain rfl := Option.some.inj long
      exact vectors.division
    · cases long

theorem step_vectors [Inhabited α] {s : State α} {i : Input α} (vectors : Vectors s.simd.unit) (decoded : Decoded i) :
    Vectors (next s i).simd.unit where
  rows := by
    intro row cell op found
    cases cell with
    | zero =>
      change (if !i.flush && SimdUnit.simdExeStages s.simd.unit (simdInstruction s i) == row.val + 2 &&
        (simdInstruction s i).instr.valid then some (simdInstruction s i) else none) = some op at found
      split at found
      · rename_i enters
        simp only [Bool.and_eq_true,beq_iff_eq] at enters
        obtain rfl := Option.some.inj found
        rw [Bool.eq_false_iff]
        intro write
        have more := enters.1.2
        rw [SimdUnit.simdExeStages,scalar_stages (issued_scalar decoded enters.2 write)] at more
        omega
      · cases found
    | succ cell =>
      change (if !i.flush && decide (cell + 1 < row.val + 2) then s.simd.unit.simdPipe row cell else none) = some op at found
      split at found
      · exact vectors.rows row cell op found
      · cases found
  division := by
    change (if SimdUnit.startsDivision s.simd.unit (simdInstruction s i) then simdInstruction s i
      else s.simd.unit.divisionInstruction).instr.regfileWe = false
    split
    · rename_i starts
      obtain ⟨vdiv,valid⟩ := SimdSchedule.starts_parts starts
      rw [Bool.eq_false_iff]
      intro write
      cases vdiv.symm.trans (scalar_undivided (issued_scalar decoded valid write))
    · exact vectors.division

section
variable [Inhabited α]

theorem reached_vectors {s : State α} (reached : Reached machine s) : Vectors s.simd.unit := by
  refine reached.invariant (fun s => Vectors s.simd.unit) ?_ ?_
  · exact ⟨fun row cell op found => (by cases found),rfl⟩
  · intro s i vectors decoded
    exact step_vectors vectors decoded

theorem scalar_issues {u : SimdUnit.State α} (vectors : Vectors u) {instruction : SimdInstr α}
    (shown : SimdUnit.scalarValid u instruction = true) :
    SimdUnit.instrToOut u instruction = instruction ∧ stallWb instruction = true := by
  have arrives : ∀ out, out = SimdUnit.incoming instruction →
      (out.instr.valid && out.instr.unit == .simd && out.instr.regfileWe) = true →
        out = instruction ∧ stallWb instruction = true := by
    rintro out rfl claims
    unfold SimdUnit.incoming at claims ⊢
    split at claims
    · rename_i one
      rw [if_pos one]
      exact ⟨rfl,claims⟩
    · cases claims
  unfold SimdUnit.scalarValid at shown
  cases found : SimdUnit.instrScoreBoard u with
  | none => exact arrives _ (by simp [SimdUnit.instrToOut,found]) shown
  | some out =>
    by_cases empty : out.instr.vl = 0
    · exact arrives _ (by simp [SimdUnit.instrToOut,found,empty]) shown
    · have same : SimdUnit.instrToOut u instruction = out := by simp [SimdUnit.instrToOut,found,empty]
      rw [same,waiting_vector vectors found,Bool.and_false] at shown
      cases shown

theorem fpToScalarWbO_valid (s : State α) (i : Input α) : (fpToScalarWbO s i).valid = (fpToScalarWb s i).valid := by
  unfold fpToScalarWbO
  cases valid : (fpToScalarWb s i).valid with
  | false =>
    split
    · exact valid
    · rfl
  | true => simp [valid]

-- In every cycle of every run at most one of the two units claims the port, and the
-- multiplexer hands on whichever does.
theorem scalar_port_claimed_once {s : State α} (reached : Reached machine s) (i : Input α) :
    ¬ ((simdToScalarWb s i).valid = true ∧ (fpToScalarWb s i).valid = true) ∧
    ¬ ((simdToScalarWbO s i).valid = true ∧ (fpToScalarWbO s i).valid = true) ∧
    ((simdToScalarWb s i).valid = true → exeToWbScalar s i = simdToScalarWb s i) ∧
    ((fpToScalarWb s i).valid = true → exeToWbScalar s i = fpToScalarWb s i) := by
  have apart : (simdToScalarWb s i).valid = true → (fpToScalarWb s i).valid = false := by
    intro shown
    obtain ⟨_,stalled⟩ := scalar_issues (reached_vectors reached) shown
    have held : (fpInput s i).stallWb = true := stalled
    simp [fpToScalarWb,FpuDracWrapper.instructionScalarO,FpuDracWrapper.scalarWb,FpuDracWrapper.wb,held]
  have fpOut := fpToScalarWbO_valid s i
  refine ⟨?_,?_,?_,?_⟩
  · rintro ⟨simd,fp⟩
    cases (apart simd).symm.trans fp
  · rintro ⟨simd,fp⟩
    unfold simdToScalarWbO at simd
    split at simd
    · cases (apart simd).symm.trans (fpOut.symm.trans fp)
    · cases simd
  · intro simd
    simp [exeToWbScalar,fpOut,apart simd,simdToScalarWbO,simd]
  · intro fp
    simp [exeToWbScalar,fp,fpToScalarWbO]

end

def comparison : RrExeInstr Unit :=
  { SimdSchedule.divide with instr := { InstrEntry.zero with valid := true, unit := .fpu, regfileWe := true }, prd := 4 }

def moveScalar : RrExeInstr Unit :=
  { SimdSchedule.divide with
    instr := { InstrEntry.zero with valid := true, unit := .simd, instrType := .vmvXS, regfileWe := true, vl := 16 }, prd := 6 }

def drives (from_rr : RrExeInstr Unit) (result : Option PendingFpOpsQueue.Result) : Input Unit :=
  ⟨from_rr,false,false,SimdSchedule.free,true,result,11⟩

-- The comparison is taken in the first cycle and answered in the second.
def answered : State Unit :=
  next (next (machine : Machine (State Unit) (Input Unit)).initial (drives comparison none))
    (drives { comparison with instr := InstrEntry.zero } (some ⟨0,1,0⟩))

theorem answered_reached : Reached machine answered := by
  have first : Decoded (drives comparison none) := by
    intro _ unit
    cases unit
  have second : Decoded (drives { comparison with instr := InstrEntry.zero } (some ⟨0,1,0⟩)) := by
    intro valid
    cases valid
  exact (Reached.start.step first).step second

-- Both have a result for the port: the move goes first, then the comparison.
theorem scalar_port_claimed_once_sample :
    (simdToScalarWb answered (drives moveScalar none)).valid = true ∧
    exeToWbScalar answered (drives moveScalar none) = simdToScalarWb answered (drives moveScalar none) ∧
    (fpToScalarWb answered (drives { comparison with instr := InstrEntry.zero } none)).valid = true := by
  have move : (simdToScalarWb answered (drives moveScalar none)).valid = true := by decide
  exact ⟨move,(scalar_port_claimed_once answered_reached (drives moveScalar none)).2.2.1 move,by decide⟩

end Sargantana.WritebackPort
