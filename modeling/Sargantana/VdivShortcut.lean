import Sargantana.VdivSchedule

-- A division that the scoreboard takes for one cycle against the same division at its full
-- latency.
namespace Sargantana.VdivShortcut
open DracPkg ExeStage ScoreBoardSimd StateMachine Vdiv VdivLane VdivSchedule Sargantana.Packed
open SimdSchedule hiding machine

def rested (job : Vdiv.Input) : Vdiv.State := { Vdiv.reset with sew := job.sew }

def idle (job : Vdiv.Input) : Vdiv.Input := { job with instrValid := false }

-- The division comes in, and no other for the cycles after it.
def underway (job : Vdiv.Input) (cycles : Nat) : Vdiv.State :=
  (fun s => Vdiv.next s (idle job))^[cycles] (Vdiv.next (rested job) job)

def fullLatency (job : Vdiv.Input) : BitVec 64 := dataVd (underway job 30) (idle job)

theorem idle_waits (job : Vdiv.Input) : (idle job).starts = false := by
  rw [Vdiv.Input.starts,idle,Bool.and_false]

theorem underway_lane {job : Vdiv.Input} (starts : job.starts = true) (k : Nat) (before : k < 31) :
    Lane (underway job k) job (some (k + 1)) := by
  induction k with
  | zero => exact lane_start starts rfl
  | succ k ih =>
    rw [underway,Function.iterate_succ_apply']
    exact lane_next (ih (by omega)) (idle_waits job) before

theorem full_latency_owed {job : Vdiv.Input} (starts : job.starts = true) {k : Nat} (inside : k < count job.sew) :
    element (bits job.sew) k (fullLatency job) = owed job k :=
  lane_shows (underway_lane starts 30 (by decide)) (idle_waits job) rfl inside

variable {α : Type} [Inhabited α]

-- In every run, a division that takes one cycle shows what it would show after thirty-two,
-- when it and those since the last long one found their own width in the divider, and the
-- scoreboard and simd_unit remembered the same division.
theorem one_cycle_division_sound (inputs : Nat → SimdSchedule.Input α) (t : Nat) (op : SimdInstr α)
    (issue : issued (trace machine inputs t).schedule (inputs t) = some op)
    (vdiv : isVdiv op.instr.instrType = true) (one : op.exeStages = 1) (clean : steady inputs (t + 1) = true)
    (l : Fin 2) : result (trace machine inputs t) (inputs t) l = fullLatency (laneInput op l) := by
  obtain ⟨rfl,here⟩ := issued_starts issue vdiv
  have job := (lane_starts (trace machine inputs t) (inputs t) l).trans here
  refine elements_ext (Nat.le_of_eq (bits_count (inputs t).from_rr.instr.sew).symm) fun k inside => ?_
  refine Eq.trans ?_ ((full_latency_owed job inside).trans (lane_owed _ l inside)).symm
  cases comes (trace machine inputs t) (inputs t) with
  | none waits => rw [waits] at here; cases here
  | short _ assigned matched => exact short_result clean here assigned matched l inside
  | long _ long => cases one.symm.trans long

-- A division of bytes, and after it the remainder of the same registers
def twice (sew : Fin 4) (second : InstrType) (t : Nat) : SimdSchedule.Input Unit :=
  if t = 0 then ⟨divide,false,false,free⟩
  else if t = 32 then
    ⟨{ divide with instr := { divide.instr with instrType := second, sew := sew } },false,false,free⟩
  else bubble false

set_option maxRecDepth 1024 in
theorem one_cycle_division_sound_remainder :
    result (trace machine (twice 0 .vrem) 32) (twice 0 .vrem 32) 0 =
      fullLatency (laneInput (instruction (trace machine (twice 0 .vrem) 32).schedule (twice 0 .vrem 32)) 0) :=
  one_cycle_division_sound (twice 0 .vrem) 32 _ (by decide) rfl (by decide) (by decide) 0

set_option maxRecDepth 1024 in
-- The same division of halfwords is taken for one cycle, and shows the quotients of the bytes.
theorem one_cycle_division_sound_fails :
    ¬ ∀ (inputs : Nat → SimdSchedule.Input Unit) (t : Nat) (op : SimdInstr Unit),
      issued (trace machine inputs t).schedule (inputs t) = some op → isVdiv op.instr.instrType = true →
      op.exeStages = 1 → ∀ l : Fin 2,
        result (trace machine inputs t) (inputs t) l = fullLatency (laneInput op l) := by
  intro every
  have wrong := every (twice 1 .vdiv) 32
    (instruction (trace machine (twice 1 .vdiv) 32).schedule (twice 1 .vdiv 32)) (by decide) rfl
    (by decide) 0
  revert wrong
  decide

end Sargantana.VdivShortcut
