import Sargantana.VmulSchedule
import Sargantana.Vsmul

-- vsmul behind the multiplier of each lane: the products wait in a register for it.
namespace Sargantana.VsmulSchedule
open DracPkg ExeStage ScoreBoardSimd SimdSchedule SimdDelivery VmulLane StateMachine Sargantana.Packed FixedPoint
open Vdiv (bits count)

structure State where
  mul : VmulSchedule.State
  fullResultVmul2 : Fin 2 → BitVec 128

structure Input where
  mul : VmulSchedule.Input
  vxrm : Vxrm

def next (s : State) (i : Input) : State where
  mul := VmulSchedule.next s.mul i.mul
  fullResultVmul2 l := Vmul.fullData (s.mul.lanes l).vmul

def machine : Machine State Input where
  initial := ⟨VmulSchedule.machine.initial,fun _ => 0⟩
  allowed _ _ := True
  step := next

def selOutInstr (s : State) (i : Input) : Instr := VmulSchedule.instrToOut s.mul i.mul

def vsmulInput (s : State) (i : Input) (l : Fin 2) : Vsmul.Input := ⟨(selOutInstr s i).instr.sew,i.vxrm,s.fullResultVmul2 l⟩

-- data_vd_o and sat_ovf_o, where `others` and `otherSat` are what the modules that are not here answer
def dataVd (others : BitVec 64) (s : State) (i : Input) (l : Fin 2) : BitVec 64 :=
  if (selOutInstr s i).instr.instrType = .vsmul then Vsmul.dataVdO (vsmulInput s i l)
  else VmulSchedule.vdElements others s.mul i.mul l

def satOvf (otherSat : Bool) (s : State) (i : Input) (l : Fin 2) : Bool :=
  if (selOutInstr s i).instr.instrType = .vsmul then Vsmul.satOvfO (vsmulInput s i l) else otherSat

def factorVs1 (op : Instr) (e : Nat) : BitVec (bits op.instr.sew) := first op e

def factorVs2 (op : Instr) (e : Nat) : BitVec (bits op.instr.sew) := element (bits op.instr.sew) e op.dataVs2

def place (op : Instr) (l : Fin 2) (k : Nat) : Nat := l.val * count op.instr.sew + k

structure Answers (op : Instr) (vxrm : Vxrm) (l : Fin 2) (data : BitVec 64) (sat : Bool) : Prop where
  flag : sat = true ↔ ∃ k < count op.instr.sew, Vsmul.fractionalSat vxrm (factorVs1 op (place op l k)) (factorVs2 op (place op l k))
  elements : ∀ k < count op.instr.sew,
    element (bits op.instr.sew) k data = Vsmul.fractional vxrm (factorVs1 op (place op l k)) (factorVs2 op (place op l k))

variable {inputs : Nat → Input} {t : Nat} {op : Instr}

theorem mul_trace (inputs : Nat → Input) (t : Nat) :
    (trace machine inputs t).mul = trace VmulSchedule.machine (fun t => (inputs t).mul) t :=
  trace_part State.mul VmulSchedule.machine (fun t => (inputs t).mul) rfl (fun _ => rfl) t

theorem stages_count (issue : issued (trace machine inputs t).mul.schedule (inputs t).mul = some op)
    (kind : op.instr.instrType = .vsmul) : op.exeStages = VmulSchedule.latency op + 2 := by
  rw [mul_trace] at issue
  have same := VmulSchedule.issued_incoming issue
  have stages : (VmulSchedule.incoming (trace VmulSchedule.machine (fun t => (inputs t).mul) t) (inputs t).mul).exeStages =
      ScoreBoardSimd.stages (trace VmulSchedule.machine (fun t => (inputs t).mul) t).schedule.board.previousDiv
        (ready (inputs t).mul.from_rr) (VmulSchedule.incoming (trace VmulSchedule.machine (fun t => (inputs t).mul) t) (inputs t).mul) := rfl
  rw [← same] at stages
  rw [stages,ScoreBoardSimd.stages,VmulSchedule.latency,kind,if_neg (by decide),if_pos (by decide)]
  split <;> rfl

theorem product_factors (kind : op.instr.instrType = .vsmul) (l : Fin 2) {k : Nat} (inside : k < count op.instr.sew) :
    Vmul.product (vmulInput op l) k = (factorVs1 op (place op l k)).toInt * (factorVs2 op (place op l k)).toInt := by
  have lower : l.val * count op.instr.sew ≤ 1 * count op.instr.sew := Nat.mul_le_mul_right _ (by omega)
  have plain : narrowed op.instr.instrType = false := by rw [kind]; rfl
  have first' : element (bits op.instr.sew) k (vs1Elements op l) = factorVs1 op (place op l k) := by
    rw [vs1Elements,plain,if_neg Bool.false_ne_true,element_lane _ l inside,element_first op (by omega)]
    rfl
  have second' : element (bits op.instr.sew) k (vs2Elements op l) = factorVs2 op (place op l k) := by
    rw [vs2Elements,plain]
    exact element_lane _ l inside
  have taken : (vmulInput op l).dataVs2 = vs2Elements op l := if_neg (by rw [kind]; decide)
  change MExtension.reading (Vmul.src1Signed op.instr.instrType) (element (bits op.instr.sew) k (vs1Elements op l)) *
    MExtension.reading (Vmul.src2Signed op.instr.instrType) (element (bits op.instr.sew) k (vmulInput op l).dataVs2) = _
  rw [taken,first',second',kind]
  rfl

-- The products of an instruction that came in are in the register one cycle after they are selected.
theorem register_products (comes : op = VmulSchedule.incoming (trace machine inputs t).mul (inputs t).mul)
    (kind : op.instr.instrType = .vsmul) (clear : VmulSchedule.Clear (trace machine inputs t).mul op) (l : Fin 2) {k : Nat}
    (inside : k < count op.instr.sew) :
    element (bits op.instr.sew + bits op.instr.sew) k
        ((trace machine inputs (t + (VmulSchedule.latency op + 1))).fullResultVmul2 l) =
      BitVec.ofInt (bits op.instr.sew + bits op.instr.sew) (Vmul.product (vmulInput op l) k) := by
  have registered : (trace machine inputs (t + (VmulSchedule.latency op + 1))).fullResultVmul2 l =
      Vmul.fullData ((trace machine inputs (t + VmulSchedule.latency op)).mul.lanes l).vmul := rfl
  have captured : ((trace machine inputs (t + 1)).mul.lanes l).vmul.stage1 = Vmul.capture (vmulInput op l) := by
    rw [comes]
    rfl
  have single : Vmul.isWidened op.instr.instrType = false := by rw [kind]; rfl
  rw [registered,VmulSchedule.latency]
  by_cases long : op.instr.sew = 3
  · have advanced : ((trace machine inputs (t + 2)).mul.lanes l).vmul.stage2 = Vmul.advance (Vmul.capture (vmulInput op l)) := by
      rw [← captured]
      rfl
    have exact' := Vmul.fullData2_exact (vmulInput op l) long
    have one : k = 0 ∧ bits op.instr.sew + bits op.instr.sew = 128 := by
      rw [long] at inside ⊢
      exact ⟨by change k < 1 at inside; omega,rfl⟩
    rw [if_pos long,Vmul.fullData,advanced,if_pos (show (Vmul.advance (Vmul.capture (vmulInput op l))).sew = 3 from long),one.1,
      one.2,exact']
    exact BitVec.extractLsb'_eq_self
  · have other : ((trace machine inputs (t + 1)).mul.lanes l).vmul.stage2.sew ≠ 3 := clear.resolve_left long l
    rw [if_neg long,Vmul.fullData,if_neg other,captured]
    exact Vmul.fullData1_exact (vmulInput op l) long single inside

-- A fractional multiply that no instruction of 64 bits precedes by one cycle comes out. Its lanes are
-- right where its factors allow it.
-- What vsmul finds in the second register of the multiplier are the products of the factors.
theorem lane_products (issue : issued (trace machine inputs t).mul.schedule (inputs t).mul = some op)
    (kind : op.instr.instrType = .vsmul) (clear : VmulSchedule.Clear (trace machine inputs t).mul op) (vxrm : Vxrm) (l : Fin 2) {k : Nat}
    (inside : k < count op.instr.sew) :
    Vsmul.product ⟨op.instr.sew,vxrm,(trace machine inputs (t + (VmulSchedule.latency op + 1))).fullResultVmul2 l⟩ k =
      BitVec.ofInt (bits op.instr.sew + bits op.instr.sew) ((factorVs1 op (place op l k)).toInt * (factorVs2 op (place op l k)).toInt) := by
  have comes : op = VmulSchedule.incoming (trace machine inputs t).mul (inputs t).mul := issued_instruction issue
  rw [← product_factors kind l inside]
  exact register_products comes kind clear l inside

theorem fractional_multiplies_exact (inputs : Nat → Input) (others : BitVec 64) (otherSat : Bool) (t : Nat) (op : Instr)
    (issue : issued (trace machine inputs t).mul.schedule (inputs t).mul = some op)
    (kind : op.instr.instrType = .vsmul) (elements : op.instr.vl ≠ 0)
    (straight : ∀ v, t ≤ v → v < t + (op.exeStages - 1) → (inputs v).mul.flush = false)
    (clear : VmulSchedule.Clear (trace machine inputs t).mul op) :
    selOutInstr (trace machine inputs (t + (op.exeStages - 1))) (inputs (t + (op.exeStages - 1))) = op ∧
    ∀ l : Fin 2,
      Answers op (inputs (t + (op.exeStages - 1))).vxrm l
          (dataVd others (trace machine inputs (t + (op.exeStages - 1))) (inputs (t + (op.exeStages - 1))) l)
          (satOvf otherSat (trace machine inputs (t + (op.exeStages - 1))) (inputs (t + (op.exeStages - 1))) l) ↔
        ∀ k < count op.instr.sew, Vsmul.Rounds op.instr.sew (inputs (t + (op.exeStages - 1))).vxrm
          (factorVs1 op (place op l k)) (factorVs2 op (place op l k)) := by
  have takes := stages_count issue kind
  have out : selOutInstr (trace machine inputs (t + (op.exeStages - 1))) (inputs (t + (op.exeStages - 1))) = op := by
    have short : 1 ≤ VmulSchedule.latency op ∧ VmulSchedule.latency op ≤ 2 := by
      rw [VmulSchedule.latency]
      split <;> omega
    rw [mul_trace,VmulSchedule.schedule_trace] at issue
    rw [selOutInstr,VmulSchedule.instrToOut,VmulSchedule.incoming,mul_trace,VmulSchedule.schedule_trace]
    have row : op.exeStages = (⟨VmulSchedule.latency op,by omega⟩ : Fin 5).val + 2 := takes
    exact comes_out issue row straight elements
  refine ⟨out,fun l => ?_⟩
  have after : t + (op.exeStages - 1) = t + (VmulSchedule.latency op + 1) := by omega
  rw [after] at out ⊢
  let lane : Vsmul.Input := ⟨op.instr.sew,(inputs (t + (VmulSchedule.latency op + 1))).vxrm,
    (trace machine inputs (t + (VmulSchedule.latency op + 1))).fullResultVmul2 l⟩
  have exact' := Vsmul.lane_iff (i := lane) fun k inside => lane_products issue kind clear _ l inside
  rw [dataVd,satOvf,vsmulInput,out,if_pos kind,if_pos kind,← exact']
  exact ⟨fun answers => ⟨answers.flag,answers.elements⟩,fun both => ⟨both.1,both.2⟩⟩

-- A fractional multiply of bytes and nothing behind it
def alone (x y : BitVec 128) (t : Nat) : Input :=
  match t with
  | 0 => ⟨⟨VmulSchedule.operation .vsmul 0 x y,false,false,free⟩,.rnu⟩
  | _ => ⟨⟨{ VmulSchedule.operation .vsmul 0 x y with instr := InstrEntry.zero },false,false,free⟩,.rnu⟩

def fractions (x y : BitVec 128) : Instr := { simdOperands (VmulSchedule.operation .vsmul 0 x y) with exeStages := 3 }

theorem alone_straight (x y : BitVec 128) (t : Nat) : (alone x y t).mul.flush = false := by
  match t with
  | 0 | _ + 1 => rfl

theorem fractional_multiplies_exact_bytes : element 8 0 (dataVd 0 (trace machine (alone 0x40 0x40) 2) (alone 0x40 0x40 2) 0) = 0x20#8 :=
  (((fractional_multiplies_exact (alone 0x40 0x40) 0 false 0 (fractions 0x40 0x40) (by decide) rfl (by decide)
    (fun v _ _ => alone_straight 0x40 0x40 v) (by decide)).2 0).mpr (by decide)).elements 0 (by decide)

-- The least value by itself stays the least value, and no flag is set.
theorem fractional_multiplies_exact_fails : ¬ ∀ (inputs : Nat → Input) (others : BitVec 64) (otherSat : Bool) (t : Nat) (op : Instr),
    issued (trace machine inputs t).mul.schedule (inputs t).mul = some op → op.instr.instrType = .vsmul → op.instr.vl ≠ 0 →
    (∀ v, t ≤ v → v < t + (op.exeStages - 1) → (inputs v).mul.flush = false) → ∀ l : Fin 2,
      Answers op (inputs (t + (op.exeStages - 1))).vxrm l
        (dataVd others (trace machine inputs (t + (op.exeStages - 1))) (inputs (t + (op.exeStages - 1))) l)
        (satOvf otherSat (trace machine inputs (t + (op.exeStages - 1))) (inputs (t + (op.exeStages - 1))) l) := by
  intro every
  have answers := every (alone 0x80 0x80) 0 false 0 (fractions 0x80 0x80) (by decide) rfl (by decide)
    (fun v _ _ => alone_straight 0x80 0x80 v) 0
  have wrong := answers.elements 0 (by decide)
  revert wrong
  decide

end Sargantana.VsmulSchedule
