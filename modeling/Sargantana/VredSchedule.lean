import Sargantana.VmulSchedule
import Sargantana.VredLevels

-- vredtree under score_board_simd and simd_unit: it takes what comes in each cycle, and is
-- read for the instruction that comes out.
namespace Sargantana.VredSchedule
open DracPkg ExeStage SimdSchedule SimdDelivery StateMachine Sargantana.Packed ReductionTree VredLevels
open ScoreBoardSimd (isVred)
open Vdiv (bits)
open VmulLane (VecOperands Instr)

structure State where
  schedule : SimdSchedule.State VecOperands
  nodes : Vredtree.State

abbrev Input := SimdSchedule.Input VecOperands

def incoming (s : State) (i : Input) : Instr := instruction s.schedule i

def vredtreeInput (op : Instr) : Vredtree.Input where
  instrType := op.instr.instrType
  sew := op.instr.sew
  vl := op.instr.vl
  dataVs1 := op.dataVs1
  dataVs2 := op.dataVs2
  dataVm := op.carried.dataVm

def next (s : State) (i : Input) : State where
  schedule := SimdSchedule.next s.schedule i
  nodes := Vredtree.next s.nodes (vredtreeInput (incoming s i))

def machine : Machine State Input where
  initial := ⟨⟨ScoreBoardSimd.reset,SimdUnit.reset⟩,fun _ => Vredtree.reset⟩
  allowed _ _ := True
  step := next

def instrToOut (s : State) (i : Input) : Instr := SimdUnit.instrToOut s.schedule.unit (incoming s i)

-- red_data_vd, with the old vd of the instruction that comes in
def redDataVd (s : State) (i : Input) : BitVec 128 :=
  Vredtree.redDataVd s.nodes (instrToOut s i).instr.instrType (instrToOut s i).instr.sew (incoming s i).carried.dataOldVd

-- The condition on a widening sum: SEW is not 64, and in the lower half of vs2 both elements
-- of a pair are active or none is.
def PairsWhole (t : InstrType) (sew : Fin 4) (dataVm : BitVec 16) (vl : Fin 32) : Prop :=
  Vredtree.isVw t = true → sew ≠ 3 ∧
    ∀ j < 32 / bits sew, Vredtree.active dataVm vl (2 * j) = Vredtree.active dataVm vl (2 * j + 1)

instance (t : InstrType) (sew : Fin 4) (dataVm : BitVec 16) (vl : Fin 32) : Decidable (PairsWhole t sew dataVm vl) :=
  inferInstanceAs (Decidable (_ → _ ∧ _))

section
variable {inputs : Nat → Input} {t : Nat} {op : Instr}

theorem schedule_trace (inputs : Nat → Input) (t : Nat) :
    (trace machine inputs t).schedule = trace SimdSchedule.machine inputs t :=
  trace_part State.schedule SimdSchedule.machine inputs rfl (fun _ => rfl) t

theorem issued_incoming (issue : issued (trace machine inputs t).schedule (inputs t) = some op) :
    op = incoming (trace machine inputs t) (inputs t) := issued_instruction issue

theorem advance_node (s : Vredtree.State) (i : Vredtree.Input) {k : Nat} (inside : k + 1 < 5) :
    Vredtree.next s i ⟨k + 1,inside⟩ = Vredtree.advance (k + 1) (s ⟨k,Nat.lt_of_succ_lt inside⟩) := by
  match k with
  | 0 | 1 | 2 | 3 => rfl

-- What is in a register depends on one instruction, whatever comes before and after it.
theorem node_chain (inputs : Nat → Input) (t : Nat) {k : Nat} (inside : k < 5) :
    (trace machine inputs (t + 1 + k)).nodes ⟨k,inside⟩ =
      chain (vredtreeInput (incoming (trace machine inputs t) (inputs t))) k := by
  induction k with
  | zero => rfl
  | succ k ih =>
    have step := advance_node (trace machine inputs (t + 1 + k)).nodes
      (vredtreeInput (incoming (trace machine inputs (t + 1 + k)) (inputs (t + 1 + k)))) inside
    rw [ih] at step
    exact step

theorem stages_count (issue : issued (trace machine inputs t).schedule (inputs t) = some op)
    (kind : isVred op.instr.instrType = true) : op.exeStages = 4 - op.instr.sew.val + 2 := by
  have same := issued_incoming issue
  have stages : (incoming (trace machine inputs t) (inputs t)).exeStages =
      ScoreBoardSimd.stages (trace machine inputs t).schedule.board.previousDiv (ready (inputs t).from_rr)
        (incoming (trace machine inputs t) (inputs t)) := rfl
  have other : ScoreBoardSimd.isVmul op.instr.instrType = false ∧ ScoreBoardSimd.isVmaddVsmul op.instr.instrType = false := by
    generalize op.instr.instrType = type at kind
    cases type <;> first | exact ⟨rfl,rfl⟩ | exact absurd kind Bool.false_ne_true
  have rows : ∀ sew : Fin 4, (if sew = 0 then 6 else if sew = 1 then 5 else if sew = 2 then 4 else 3) = 4 - sew.val + 2 := by decide
  rw [← same] at stages
  rw [stages,ScoreBoardSimd.stages,other.1,other.2,kind]
  exact rows op.instr.sew

theorem stage_out {type : InstrType} {sew : Fin 4} (narrow : Vredtree.isVw type = true → sew ≠ 3) :
    Vredtree.stageToOut type sew = ⟨4 - sew.val,by omega⟩ := by
  rw [Vredtree.stageToOut,Vredtree.nodeSew]
  cases wide : Vredtree.isVw type with
  | true =>
    have notLast := narrow wide
    rcases sew with ⟨_ | _ | _ | _ | n,less⟩
    · rfl
    · rfl
    · rfl
    · exact absurd rfl notLast
    · omega
  | false =>
    rcases sew with ⟨_ | _ | _ | _ | n,less⟩
    · rfl
    · rfl
    · rfl
    · rfl
    · omega

theorem width_node {i : Vredtree.Input} (narrow : Vredtree.isVw i.instrType = true → i.sew ≠ 3) :
    Vredtree.width i = bits (Vredtree.nodeSew i.instrType i.sew) := by
  rw [Vredtree.width,Vredtree.nodeSew]
  have rows : ∀ sew : Fin 4, sew ≠ 3 → bits sew + bits sew = bits (Vredtree.increaseSewSize sew) := by decide
  cases wide : Vredtree.isVw i.instrType with
  | true => exact rows i.sew (narrow wide)
  | false => rfl

theorem reduction_out (issue : issued (trace machine inputs t).schedule (inputs t) = some op)
    (kind : isVred op.instr.instrType = true) (elements : op.instr.vl ≠ 0)
    (straight : ∀ v, t ≤ v → v < t + (op.exeStages - 1) → (inputs v).flush = false) :
    instrToOut (trace machine inputs (t + (op.exeStages - 1))) (inputs (t + (op.exeStages - 1))) = op := by
  have takes : op.exeStages = (⟨4 - op.instr.sew.val,by omega⟩ : Fin 5).val + 2 := stages_count issue kind
  rw [schedule_trace] at issue
  rw [instrToOut,incoming,schedule_trace]
  exact comes_out issue takes straight elements

theorem result_reduce (issue : issued (trace machine inputs t).schedule (inputs t) = some op)
    (kind : isVred op.instr.instrType = true) (elements : op.instr.vl ≠ 0)
    (straight : ∀ v, t ≤ v → v < t + (op.exeStages - 1) → (inputs v).flush = false)
    (narrow : Vredtree.isVw op.instr.instrType = true → op.instr.sew ≠ 3) :
    element (bits (Vredtree.nodeSew op.instr.instrType op.instr.sew)) 0
        (redDataVd (trace machine inputs (t + (op.exeStages - 1))) (inputs (t + (op.exeStages - 1)))) =
      reduce (Vredtree.reduction op.instr.instrType)
        (element (bits (Vredtree.nodeSew op.instr.instrType op.instr.sew)) 0 op.dataVs1)
        (values (bits (Vredtree.nodeSew op.instr.instrType op.instr.sew)) (chain (vredtreeInput op) 1))
        (2 ^ (3 - op.instr.sew.val)) := by
  have out := reduction_out issue kind elements straight
  have cycles : t + (op.exeStages - 1) = t + 1 + (4 - op.instr.sew.val) := by
    rw [stages_count issue kind]
    omega
  have here := node_chain inputs t (k := 4 - op.instr.sew.val) (by omega)
  rw [← issued_incoming issue,← cycles,← stage_out narrow] at here
  rw [redDataVd,out]
  exact output_reduce (i := vredtreeInput op) narrow kind here _

end

-- What an instruction is owed: it comes out, and element 0 is the reduction of RVV.
structure Exact (inputs : Nat → Input) (t : Nat) (op : Instr) : Prop where
  out : instrToOut (trace machine inputs (t + (op.exeStages - 1))) (inputs (t + (op.exeStages - 1))) = op
  first : element (Vredtree.width (vredtreeInput op)) 0
      (redDataVd (trace machine inputs (t + (op.exeStages - 1))) (inputs (t + (op.exeStages - 1)))) =
    Vredtree.rvv (Vredtree.width (vredtreeInput op)) (vredtreeInput op)

theorem reduction_exact {inputs : Nat → Input} {t : Nat} {op : Instr}
    (issue : issued (trace machine inputs t).schedule (inputs t) = some op)
    (kind : isVred op.instr.instrType = true) (elements : op.instr.vl ≠ 0)
    (straight : ∀ v, t ≤ v → v < t + (op.exeStages - 1) → (inputs v).flush = false)
    (whole : PairsWhole op.instr.instrType op.instr.sew op.carried.dataVm op.instr.vl) : Exact inputs t op := by
  have narrow : Vredtree.isVw op.instr.instrType = true → op.instr.sew ≠ 3 := fun wide => (whole wide).1
  have result := result_reduce issue kind elements straight narrow
  refine ⟨reduction_out issue kind elements straight,?_⟩
  rw [width_node (i := vredtreeInput op) narrow,rvv_pairs]
  refine result.trans (reduce_congr fun j inside => ?_)
  exact first_level (i := vredtreeInput op) narrow inside kind fun wide low => (whole wide).2 j low

-- The instruction that comes in after reset, and nothing after it
def lone (t : InstrType) (sew : Fin 4) (dataVm : BitVec 16) (vl : Fin 32) (vs1 vs2 : BitVec 128) (v : Nat) : Input :=
  let operation := VmulSchedule.operation t sew vs1 vs2
  match v with
  | 0 => ⟨{ operation with instr := { operation.instr with vl := vl }, carried := ⟨0,dataVm,false,false⟩ },false,false,free⟩
  | _ + 1 => ⟨{ operation with instr := InstrEntry.zero },false,false,free⟩

section
variable (t : InstrType) (sew : Fin 4) (dataVm : BitVec 16) (vl : Fin 32) (vs1 vs2 : BitVec 128)

theorem lone_flush (v : Nat) : (lone t sew dataVm vl vs1 vs2 v).flush = false := by
  cases v <;> rfl

def loneOp : Instr := incoming (trace machine (lone t sew dataVm vl vs1 vs2) 0) (lone t sew dataVm vl vs1 vs2 0)

theorem lone_issued : issued (trace machine (lone t sew dataVm vl vs1 vs2) 0).schedule (lone t sew dataVm vl vs1 vs2 0) =
    some (loneOp t sew dataVm vl vs1 vs2) := by
  have free : stall (trace machine (lone t sew dataVm vl vs1 vs2) 0).schedule (lone t sew dataVm vl vs1 vs2 0) = false := by
    change ScoreBoardSimd.stallSimd ScoreBoardSimd.reset _ _ = false
    simp [ScoreBoardSimd.stallSimd,ScoreBoardSimd.reset]
  have valid := instruction_valid (trace machine (lone t sew dataVm vl vs1 vs2) 0).schedule (lone t sew dataVm vl vs1 vs2 0)
  rw [free] at valid
  exact if_pos valid

theorem widest_output {t : InstrType} {s : Vredtree.State} (wide : Vredtree.isVw t = true)
    (idle : (s 4).mask.getLsbD 0 = false) (old : BitVec 128) :
    Vredtree.redDataVd s t 3 old = put 0 (element (bits 1) 0 (s 4).dataVs1) old := by
  obtain ⟨merged,form⟩ : ∃ merged, Vredtree.redDataVd s t 3 old =
      if (s 4).mask.getLsbD 0 then merged else put 0 (element (bits 1) 0 (s 4).dataVs1) old := by
    cases t <;> first | exact ⟨_,rfl⟩ | exact absurd wide Bool.false_ne_true
  rw [form,idle]
  rfl

-- A widening sum of SEW 64 is read from a register that it has not come to: the scalar is lost.
theorem widest_wrong (wide : Vredtree.isVw t = true) :
    ¬ Exact (lone t 3 dataVm vl 1 0) 0 (loneOp t 3 dataVm vl 1 0) := by
  intro exact'
  have kind : isVred t = true := by cases t <;> first | rfl | exact absurd wide Bool.false_ne_true
  have cycles : (loneOp t 3 dataVm vl 1 0).exeStages = 3 := stages_count (lone_issued t 3 dataVm vl 1 0) kind
  have out := exact'.out
  have first := exact'.first
  have node : (trace machine (lone t 3 dataVm vl 1 0) 2).nodes 4 =
      Vredtree.advance 4 (Vredtree.advance 3 Vredtree.reset) := rfl
  have result : Vredtree.redDataVd (trace machine (lone t 3 dataVm vl 1 0) 2).nodes t 3 0 = 0 := by
    rw [widest_output wide (by rw [node]; decide),node]
    decide
  have asked : ∀ w, Vredtree.rvv w (vredtreeInput (loneOp t 3 dataVm vl 1 0)) = element w 0 (1 : BitVec 128) := by
    intro w
    refine reduce_nothing (i := vredtreeInput (loneOp t 3 dataVm vl 1 0)) wide _ fun k v found => ?_
    have zero : element (bits 3) k (0 : BitVec 128) = 0 := BitVec.extractLsb'_zero
    change (if _ then some (BitVec.ofInt w (MExtension.reading (t != InstrType.vwredsumu) (element (bits 3) k (0 : BitVec 128)))) else none) =
      some v at found
    rw [zero] at found
    split at found
    · rw [← Option.some.inj found]
      cases t != InstrType.vwredsumu <;> simp [MExtension.reading]
    · cases found
  have span : Vredtree.width (vredtreeInput (loneOp t 3 dataVm vl 1 0)) = 128 := if_pos wide
  rw [redDataVd,out,cycles] at first
  change element _ 0 (Vredtree.redDataVd (trace machine (lone t 3 dataVm vl 1 0) 2).nodes t 3 0) = _ at first
  rw [result,asked,span] at first
  exact absurd first (by decide)

-- A widening sum with a pair that is not whole: some vs2 makes it wrong.
theorem narrow_wrong {j : Nat} (wide : Vredtree.isVw t = true) (narrow : sew ≠ 3) (elements : vl ≠ 0) (low : j < 32 / bits sew)
    (partly : ¬ Whole (vredtreeInput (loneOp t sew dataVm vl 0 0)) j) :
    ∃ vs2, ¬ Exact (lone t sew dataVm vl 0 vs2) 0 (loneOp t sew dataVm vl 0 vs2) := by
  obtain ⟨J,inside,partly,last⟩ := last_partly low partly
  let word := shown (vredtreeInput (loneOp t sew dataVm vl 0 0)) J
  refine ⟨word,fun exact' => ?_⟩
  let i := vredtreeInput (loneOp t sew dataVm vl 0 word)
  have kind : isVred t = true := by cases t <;> first | rfl | exact absurd wide Bool.false_ne_true
  have first := exact'.first
  have result := result_reduce (lone_issued t sew dataVm vl 0 word) kind elements (fun v _ _ => lone_flush t sew dataVm vl 0 word v)
    fun _ => narrow
  rw [width_node (i := i) fun _ => narrow,rvv_pairs] at first
  exact shown_differs (i := i) rfl wide narrow inside partly last _ (result.symm.trans first)

end

-- A reduction of this type, SEW, mask and vl is right, for all operands and whatever else is in
-- flight, where its pairs are whole and only there.
theorem reductions_exact (t : InstrType) (sew : Fin 4) (dataVm : BitVec 16) (vl : Fin 32) (kind : isVred t = true)
    (elements : vl ≠ 0) :
    (∀ (inputs : Nat → Input) (cycle : Nat) (op : Instr),
      issued (trace machine inputs cycle).schedule (inputs cycle) = some op → op.instr.instrType = t → op.instr.sew = sew →
      op.carried.dataVm = dataVm → op.instr.vl = vl →
      (∀ v, cycle ≤ v → v < cycle + (op.exeStages - 1) → (inputs v).flush = false) → Exact inputs cycle op) ↔
    PairsWhole t sew dataVm vl := by
  constructor
  · intro every wide
    have narrow : sew ≠ 3 := by
      rintro rfl
      exact widest_wrong t dataVm vl wide (every _ 0 _ (lone_issued t 3 dataVm vl 1 0) rfl rfl rfl rfl
        fun v _ _ => lone_flush t 3 dataVm vl 1 0 v)
    refine ⟨narrow,fun j low => ?_⟩
    refine not_not.mp fun partly => ?_
    obtain ⟨vs2,wrong⟩ := narrow_wrong t sew dataVm vl wide narrow elements low partly
    exact wrong (every _ 0 _ (lone_issued t sew dataVm vl 0 vs2) rfl rfl rfl rfl
      fun v _ _ => lone_flush t sew dataVm vl 0 vs2 v)
  · rintro whole inputs cycle op issue rfl rfl rfl rfl straight
    exact reduction_exact issue kind elements straight whole

theorem reductions_exact_bytes : Exact (lone .vwredsumu 0 0xfff0#16 16 1 0x0908070605040302) 0
    (loneOp .vwredsumu 0 0xfff0#16 16 1 0x0908070605040302) :=
  (reductions_exact .vwredsumu 0 0xfff0#16 16 rfl (by decide)).mpr (by decide) _ 0 _ (lone_issued _ _ _ _ _ _) rfl rfl rfl rfl
    fun v _ _ => lone_flush _ _ _ _ _ _ v

-- VWREDSUM of bytes where only element 0 is active: element 1 comes with it.
theorem reductions_exact_fails : ¬ ∀ (inputs : Nat → Input) (cycle : Nat) (op : Instr),
    issued (trace machine inputs cycle).schedule (inputs cycle) = some op → isVred op.instr.instrType = true →
    op.instr.vl ≠ 0 → (∀ v, cycle ≤ v → v < cycle + (op.exeStages - 1) → (inputs v).flush = false) →
    Exact inputs cycle op := by
  intro every
  have wrong := (every _ 0 _ (lone_issued .vwredsum 0 1 16 0 0x0100) rfl (by decide)
    fun v _ _ => lone_flush .vwredsum 0 1 16 0 0x0100 v).first
  revert wrong
  decide +kernel

end Sargantana.VredSchedule
