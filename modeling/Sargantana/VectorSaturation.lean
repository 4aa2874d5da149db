import Sargantana.Vnclip
import Sargantana.Vsaaddsub
import Sargantana.VsmulSchedule

-- functional_unit: the module whose saturation flag a lane answers with, against the saturation
-- of the elements of the instruction.
namespace Sargantana.VectorSaturation
open DracPkg ExeStage ScoreBoardSimd SimdSchedule VmulLane StateMachine Sargantana.Packed FixedPoint Saturation
open Vdiv (bits count)
open MExtension (reading)

def adderInput (vxrm : Vxrm) (op : Instr) (l : Fin 2) : Vsaaddsub.Input :=
  ⟨op.instr.instrType,op.instr.sew,vxrm,vs1Elements op l,vs2Elements op l⟩

def clipInput (vxrm : Vxrm) (op : Instr) (l : Fin 2) : Vnclip.Input :=
  ⟨op.instr.instrType,op.instr.sew,vxrm,vs1Elements op l,vs2Elements op l⟩

-- sat_ovf_o but for vsmul: the type of what comes out selects the module, and the modules work on
-- what comes in.
def otherSat (vxrm : Vxrm) (out op : Instr) (l : Fin 2) : Bool :=
  if Vnclip.clips out.instr.instrType then Vnclip.satOvfO (clipInput vxrm op l)
  else if Vsaaddsub.isSaturating out.instr.instrType then Vsaaddsub.satOvfO (adderInput vxrm op l)
  else false

def vSatOvf (s : VsmulSchedule.State) (i : VsmulSchedule.Input) (l : Fin 2) : Bool :=
  VsmulSchedule.satOvf (otherSat i.vxrm (VsmulSchedule.selOutInstr s i) (VmulSchedule.incoming s.mul i.mul) l) s i l

-- instruction_simd_o.vs_ovf
def vsOvf (s : VsmulSchedule.State) (i : VsmulSchedule.Input) : Bool := (List.finRange 2).any (vSatOvf s i)

-- The elements of a register; a clip has those of half of one.
def elements (op : Instr) : Nat :=
  if Vnclip.clips op.instr.instrType then 2 * Vnclip.narrowed op.instr.sew else 2 * count op.instr.sew

section
variable (vxrm : Vxrm) (op : Instr) (k : Nat)

def addSaturates : Prop :=
  let signed := Vsaaddsub.isSigned op.instr.instrType
  let vs1 := reading signed (element (bits op.instr.sew) k (firstOperand op))
  let vs2 := reading signed (element (bits op.instr.sew) k op.dataVs2)
  saturates signed (bits op.instr.sew) (if Vsaaddsub.isSub op.instr.instrType then vs2 - vs1 else vs2 + vs1)

instance : Decidable (addSaturates op k) := inferInstanceAs (Decidable (saturates _ _ _))

def clipSaturates : Prop :=
  let signed := Vnclip.isSigned op.instr.instrType
  let vs2 := element (bits op.instr.sew + bits op.instr.sew) k op.dataVs2
  let amount := (element (bits op.instr.sew) k (firstOperand op)).toNat % 2 ^ (4 + op.instr.sew.val)
  saturates signed (bits op.instr.sew) (reading signed vs2 / 2 ^ amount + (increment vxrm vs2.toNat amount).toNat)

instance : Decidable (clipSaturates vxrm op k) := inferInstanceAs (Decidable (saturates _ _ _))

def productSaturates : Prop :=
  Vsmul.fractionalSat vxrm (element (bits op.instr.sew) k (firstOperand op)) (element (bits op.instr.sew) k op.dataVs2)

instance : Decidable (productSaturates vxrm op k) := inferInstanceAs (Decidable (saturates _ _ _))

-- What RVV calls saturation, in the instructions that can saturate
def saturated : Bool :=
  if Vsaaddsub.isSaturating op.instr.instrType then decide (addSaturates op k)
  else if Vnclip.clips op.instr.instrType then decide (clipSaturates vxrm op k)
  else if op.instr.instrType = .vsmul then decide (productSaturates vxrm op k)
  else false

def active : Bool := decide (k < op.instr.vl.val) && (!op.carried.useMask || op.carried.dataVm.getLsbD k)

def activeSaturates : Bool := (List.range (elements op)).any fun k => active op k && saturated vxrm op k

def anySaturates : Bool := (List.range (elements op)).any (saturated vxrm op)

-- No inactive element saturates on its own, and no active product does.
structure Sole : Prop where
  inactive : op.instr.instrType ≠ .vsmul → anySaturates vxrm op = true → activeSaturates vxrm op = true
  product : op.instr.instrType = .vsmul → activeSaturates vxrm op = false

instance : Decidable (Sole vxrm op) :=
  decidable_of_iff ((op.instr.instrType ≠ .vsmul → anySaturates vxrm op = true → activeSaturates vxrm op = true) ∧
      (op.instr.instrType = .vsmul → activeSaturates vxrm op = false))
    ⟨fun both => ⟨both.1,both.2⟩,fun sole => ⟨sole.inactive,sole.product⟩⟩

end

theorem lanes_elements {n : Nat} (p : Nat → Prop) : (∃ l : Fin 2, ∃ e < n, p (l.val * n + e)) ↔ ∃ k < 2 * n, p k := by
  constructor
  · rintro ⟨l,e,inside,holds⟩
    refine ⟨l.val * n + e,?_,holds⟩
    have lower : l.val * n ≤ 1 * n := Nat.mul_le_mul_right _ (by omega)
    omega
  · rintro ⟨k,inside,holds⟩
    by_cases low : k < n
    · refine ⟨0,k,low,?_⟩
      have place : (0 : Fin 2).val * n + k = k := by rw [Fin.val_zero,Nat.zero_mul,Nat.zero_add]
      rwa [place]
    · refine ⟨1,k - n,by omega,?_⟩
      have place : (1 : Fin 2).val * n + (k - n) = k := by
        change 1 * n + (k - n) = k
        omega
      rwa [place]

section
variable {vxrm : Vxrm} {op : Instr}

theorem plain_adder (kind : Vsaaddsub.isSaturating op.instr.instrType = true) : narrowed op.instr.instrType = false ∧
    Vnclip.clips op.instr.instrType = false ∧ op.instr.instrType ≠ .vsmul := by
  simp only [Vsaaddsub.isSaturating,Bool.or_eq_true,beq_iff_eq] at kind
  rcases kind with ((same | same) | same) | same <;> rw [same] <;> exact ⟨rfl,rfl,by decide⟩

theorem narrow_clip (kind : Vnclip.clips op.instr.instrType = true) : narrowed op.instr.instrType = true ∧
    isVn op.instr.instrType = true ∧ Vsaaddsub.isSaturating op.instr.instrType = false ∧ op.instr.instrType ≠ .vsmul := by
  simp only [Vnclip.clips,Bool.or_eq_true,beq_iff_eq] at kind
  rcases kind with same | same <;> rw [same] <;> exact ⟨rfl,rfl,rfl,by decide⟩

-- The adders of the lanes raise a flag exactly when an element of the register saturates.
theorem adders_flag (kind : Vsaaddsub.isSaturating op.instr.instrType = true) :
    (∃ l : Fin 2, Vsaaddsub.satOvfO (adderInput vxrm op l) = true) ↔ ∃ k < elements op, saturated vxrm op k = true := by
  obtain ⟨plain,other,_⟩ := plain_adder kind
  have size : elements op = 2 * count op.instr.sew := if_neg (by rw [other]; exact Bool.false_ne_true)
  have lane_element : ∀ l : Fin 2, ∀ e < count op.instr.sew,
      Vsaaddsub.rvvSat (adderInput vxrm op l) e ↔ saturated vxrm op (l.val * count op.instr.sew + e) = true := by
    intro l e inside
    have one : (adderInput vxrm op l).dataVs1 = lane (firstOperand op) l := if_neg (by rw [plain]; exact Bool.false_ne_true)
    have two : (adderInput vxrm op l).dataVs2 = lane op.dataVs2 l := if_neg (by rw [plain]; exact Bool.false_ne_true)
    rw [saturated,if_pos kind,decide_eq_true_iff,Vsaaddsub.rvvSat,Vsaaddsub.exactSum,one,two]
    have first := element_lane (firstOperand op) l inside
    have second := element_lane op.dataVs2 l inside
    rw [addSaturates,← first,← second]
    exact ⟨fun both => both.2,fun sat => ⟨kind,sat⟩⟩
  rw [size,← lanes_elements fun k => saturated vxrm op k = true]
  refine exists_congr fun l => ?_
  rw [Vsaaddsub.satOvfO_iff (.inl kind)]
  exact exists_congr fun e => and_congr_right (lane_element l e)

theorem narrowed_rows (sew : Fin 4) : Vnclip.narrowed sew = 32 / bits sew ∧ 4 + sew.val ≤ bits sew ∧
    (0 < Vnclip.narrowed sew → sew ≠ 3 ∧ Vnclip.narrowed sew * (bits sew + bits sew) = 64) := by
  revert sew
  decide

theorem element_low {n w m : Nat} (x : BitVec n) (k : Nat) (fits : m ≤ w) :
    (x.extractLsb' (k * w) m).toNat = (element w k x).toNat % 2 ^ m := by
  rw [element,BitVec.extractLsb'_toNat,BitVec.extractLsb'_toNat,Nat.mod_mod_of_dvd _ (Nat.pow_dvd_pow 2 fits)]

theorem clips_flag (kind : Vnclip.clips op.instr.instrType = true) :
    (∃ l : Fin 2, Vnclip.satOvfO (clipInput vxrm op l) = true) ↔ ∃ k < elements op, saturated vxrm op k = true := by
  obtain ⟨narrow,vn,other,_⟩ := narrow_clip kind
  have size : elements op = 2 * Vnclip.narrowed op.instr.sew := if_pos kind
  have lane_element : ∀ l : Fin 2, ∀ e < Vnclip.narrowed op.instr.sew,
      Vnclip.rvvSat (clipInput vxrm op l) e ↔ saturated vxrm op (l.val * Vnclip.narrowed op.instr.sew + e) = true := by
    intro l e inside
    obtain ⟨half,fits,rows⟩ := narrowed_rows op.instr.sew
    obtain ⟨narrower,row⟩ := rows (by omega)
    have one : (clipInput vxrm op l).dataVs1 = halfLane (firstOperand op) l := if_pos narrow
    have two : (clipInput vxrm op l).dataVs2 = lane op.dataVs2 l := if_neg (by rw [narrow,vn]; simp)
    have amount : Vnclip.amount (clipInput vxrm op l) e =
        (element (bits op.instr.sew) (l.val * Vnclip.narrowed op.instr.sew + e) (firstOperand op)).toNat % 2 ^ (4 + op.instr.sew.val) := by
      rw [Vnclip.amount,one]
      refine (element_low _ _ fits).trans ?_
      have taken := element_halfLane narrower (firstOperand op) l (half ▸ inside)
      rw [← half] at taken
      exact congrArg (fun x : BitVec (bits op.instr.sew) => x.toNat % 2 ^ (4 + op.instr.sew.val)) taken
    have source : Vnclip.source (clipInput vxrm op l) e =
        element (bits op.instr.sew + bits op.instr.sew) (l.val * Vnclip.narrowed op.instr.sew + e) op.dataVs2 := by
      rw [Vnclip.source,two]
      exact element_slice row op.dataVs2 inside
    rw [saturated,other,if_neg Bool.false_ne_true,if_pos kind,decide_eq_true_iff,Vnclip.rvvSat,Vnclip.roundoff,Vnclip.quotient,
      amount,source]
    rfl
  rw [size,← lanes_elements fun k => saturated vxrm op k = true]
  refine exists_congr fun l => ?_
  rw [Vnclip.satOvfO_iff kind]
  exact exists_congr fun e => and_congr_right (lane_element l e)

theorem silent (adder : Vsaaddsub.isSaturating op.instr.instrType = false) (clip : Vnclip.clips op.instr.instrType = false)
    (product : op.instr.instrType ≠ .vsmul) (k : Nat) : saturated vxrm op k = false := by
  rw [saturated,adder,clip,if_neg Bool.false_ne_true,if_neg Bool.false_ne_true,if_neg product]

theorem activeSaturates_any (set : activeSaturates vxrm op = true) : anySaturates vxrm op = true := by
  rw [activeSaturates,List.any_eq_true] at set
  obtain ⟨k,inside,both⟩ := set
  rw [Bool.and_eq_true] at both
  rw [anySaturates,List.any_eq_true]
  exact ⟨k,inside,both.2⟩

theorem silent_active (adder : Vsaaddsub.isSaturating op.instr.instrType = false) (clip : Vnclip.clips op.instr.instrType = false)
    (product : op.instr.instrType ≠ .vsmul) : activeSaturates vxrm op = false := by
  rw [activeSaturates,List.any_eq_false]
  intro k _
  rw [silent adder clip product k,Bool.and_false]
  exact Bool.false_ne_true

theorem any_exists : anySaturates vxrm op = true ↔ ∃ k < elements op, saturated vxrm op k = true := by
  simp only [anySaturates,List.any_eq_true,List.mem_range]

theorem otherSat_any (product : op.instr.instrType ≠ .vsmul) :
    (∃ l : Fin 2, otherSat vxrm op op l = true) ↔ anySaturates vxrm op = true := by
  unfold otherSat
  rw [any_exists]
  cases clip : Vnclip.clips op.instr.instrType with
  | true => exact clips_flag clip
  | false =>
      cases adder : Vsaaddsub.isSaturating op.instr.instrType with
      | true => exact adders_flag adder
      | false =>
          simp only [Bool.false_eq_true,if_false,silent adder clip product]
          simp

end

section
variable {inputs : Nat → VsmulSchedule.Input} {t : Nat} {op : Instr}

theorem issue_stages (issue : issued (trace VsmulSchedule.machine inputs t).mul.schedule (inputs t).mul = some op) :
    ∃ previous asks, op.exeStages = stages previous asks op := by
  rw [VsmulSchedule.mul_trace] at issue
  have same := VmulSchedule.issued_incoming issue
  refine ⟨(trace VmulSchedule.machine (fun t => (inputs t).mul) t).schedule.board.previousDiv,ready (inputs t).mul.from_rr,?_⟩
  rw [same]
  rfl

theorem single_stage (issue : issued (trace VsmulSchedule.machine inputs t).mul.schedule (inputs t).mul = some op)
    (kind : Vsaaddsub.isSaturating op.instr.instrType = true ∨ Vnclip.clips op.instr.instrType = true) : op.exeStages = 1 := by
  obtain ⟨previous,asks,takes⟩ := issue_stages issue
  simp only [Vsaaddsub.isSaturating,Vnclip.clips,Bool.or_eq_true,beq_iff_eq] at kind
  rw [takes]
  rcases kind with (((same | same) | same) | same) | (same | same) <;> rw [stages,same] <;> rfl

-- The flags of a fractional product are never set when its products are there.
theorem product_quiet (issue : issued (trace VsmulSchedule.machine inputs t).mul.schedule (inputs t).mul = some op)
    (kind : op.instr.instrType = .vsmul) (clear : VmulSchedule.Clear (trace VsmulSchedule.machine inputs t).mul op)
    (out : VsmulSchedule.selOutInstr (trace VsmulSchedule.machine inputs (t + (op.exeStages - 1))) (inputs (t + (op.exeStages - 1))) = op)
    (l : Fin 2) : vSatOvf (trace VsmulSchedule.machine inputs (t + (op.exeStages - 1))) (inputs (t + (op.exeStages - 1))) l = false := by
  have takes := VsmulSchedule.stages_count issue kind
  have after : t + (op.exeStages - 1) = t + (VmulSchedule.latency op + 1) := by omega
  rw [after] at out ⊢
  let lane : Vsmul.Input := ⟨op.instr.sew,(inputs (t + (VmulSchedule.latency op + 1))).vxrm,
    (trace VsmulSchedule.machine inputs (t + (VmulSchedule.latency op + 1))).fullResultVmul2 l⟩
  rw [vSatOvf,VsmulSchedule.satOvf,VsmulSchedule.vsmulInput,out,if_pos kind]
  exact Vsmul.satOvfO_false (i := lane) fun k inside => VsmulSchedule.lane_products issue kind clear _ l inside

-- The unit answers with the saturation of the active elements of what comes out.
theorem out_flag (issue : issued (trace VsmulSchedule.machine inputs t).mul.schedule (inputs t).mul = some op)
    (sole : Sole (inputs t).vxrm op)
    (clear : op.instr.instrType = .vsmul → VmulSchedule.Clear (trace VsmulSchedule.machine inputs t).mul op)
    (out : VsmulSchedule.selOutInstr (trace VsmulSchedule.machine inputs (t + (op.exeStages - 1))) (inputs (t + (op.exeStages - 1))) = op) :
    vsOvf (trace VsmulSchedule.machine inputs (t + (op.exeStages - 1))) (inputs (t + (op.exeStages - 1))) =
      activeSaturates (inputs t).vxrm op := by
  by_cases product : op.instr.instrType = .vsmul
  · rw [sole.product product,vsOvf,List.any_eq_false]
    intro l _
    rw [product_quiet issue product (clear product) out l]
    exact Bool.false_ne_true
  · have lanes : ∀ l, vSatOvf (trace VsmulSchedule.machine inputs (t + (op.exeStages - 1))) (inputs (t + (op.exeStages - 1))) l =
        otherSat (inputs (t + (op.exeStages - 1))).vxrm op
          (VmulSchedule.incoming (trace VsmulSchedule.machine inputs (t + (op.exeStages - 1))).mul (inputs (t + (op.exeStages - 1))).mul) l := by
      intro l
      rw [vSatOvf,VsmulSchedule.satOvf,out,if_neg product]
    by_cases kind : Vsaaddsub.isSaturating op.instr.instrType = true ∨ Vnclip.clips op.instr.instrType = true
    · have first := single_stage issue kind
      have comes : op = VmulSchedule.incoming (trace VsmulSchedule.machine inputs t).mul (inputs t).mul := by
        rw [VsmulSchedule.mul_trace] at issue ⊢
        exact VmulSchedule.issued_incoming issue
      have now : t + (op.exeStages - 1) = t := by omega
      rw [now] at lanes ⊢
      rw [← comes] at lanes
      rw [vsOvf,Bool.eq_iff_iff,List.any_eq_true]
      simp only [lanes,List.mem_finRange,true_and,otherSat_any product]
      exact ⟨sole.inactive product,activeSaturates_any⟩
    · obtain ⟨adder,clip⟩ := not_or.mp kind
      have adder' : Vsaaddsub.isSaturating op.instr.instrType = false := Bool.not_eq_true _ ▸ adder
      have clip' : Vnclip.clips op.instr.instrType = false := Bool.not_eq_true _ ▸ clip
      rw [silent_active adder' clip' product,vsOvf,List.any_eq_false]
      intro l _
      rw [lanes,otherSat,adder',clip']
      exact Bool.false_ne_true

end

end Sargantana.VectorSaturation
