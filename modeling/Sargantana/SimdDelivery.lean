import Sargantana.SimdSchedule

-- The instructions of two to six stages: where what is in the pipes comes from, and that each
-- one comes out after its stages.
namespace Sargantana.SimdDelivery
open DracPkg ExeStage ScoreBoardSimd SimdSchedule StateMachine

variable {α : Type}

-- The memory of the last division decides between one stage and thirty-two.
theorem stages_same {p q : PreviousDiv} {a b : Bool} {op other : SimdInstr α} {row : Fin 5}
    (type : op.instr.instrType = other.instr.instrType) (sew : op.instr.sew = other.instr.sew)
    (takes : stages p a op = row.val + 2) : stages q b other = row.val + 2 := by
  unfold stages at takes ⊢
  dsimp only at takes ⊢
  rw [type,sew] at takes
  by_cases product : isVmul other.instr.instrType = true
  · rw [if_pos product] at takes ⊢
    exact takes
  rw [if_neg product] at takes ⊢
  by_cases sum : isVmaddVsmul other.instr.instrType = true
  · rw [if_pos sum] at takes ⊢
    exact takes
  rw [if_neg sum] at takes ⊢
  by_cases reduction : isVred other.instr.instrType = true
  · rw [if_pos reduction] at takes ⊢
    exact takes
  rw [if_neg reduction] at takes
  split at takes
  · split at takes <;> omega
  · omega

theorem assigned_stages {s : State α} {i : Input α} {row : Fin 5} :
    SimdUnit.simdExeStages s.unit (instruction s i) = row.val + 2 ↔ assigned s i = row.val + 2 :=
  ⟨stages_same rfl rfl,stages_same rfl rfl⟩

section
variable [Inhabited α] {inputs : Nat → Input α}

-- What is in a pipe was issued as many cycles before as it has gone through.
theorem unit_origin {t cell : Nat} {row : Fin 5} {op : SimdInstr α}
    (found : (trace machine inputs t).unit.simdPipe row cell = some op) :
    ∃ v, v + cell + 1 = t ∧ issued (trace machine inputs v) (inputs v) = some op ∧ op.exeStages = row.val + 2 := by
  induction cell generalizing t with
  | zero =>
    cases t with
    | zero => cases found
    | succ t =>
      refine ⟨t,rfl,?_⟩
      change (if _ then some (instruction (trace machine inputs t) (inputs t)) else none) = some op at found
      split at found
      · rename_i enters
        simp only [Bool.and_eq_true,beq_iff_eq] at enters
        rw [← Option.some.inj found]
        exact ⟨if_pos enters.2,assigned_stages.mp enters.1.2⟩
      · cases found
  | succ cell ih =>
    cases t with
    | zero => cases found
    | succ t =>
      change (if _ then (trace machine inputs t).unit.simdPipe row cell else none) = some op at found
      split at found
      · obtain ⟨v,place,issue,takes⟩ := ih found
        exact ⟨v,by omega,issue,takes⟩
      · cases found

section
variable {t : Nat} {op : SimdInstr α} {row : Fin 5} (issue : issued (trace machine inputs t) (inputs t) = some op)
  (takes : op.exeStages = row.val + 2)
include issue takes

theorem issue_parts : op = instruction (trace machine inputs t) (inputs t) ∧ op.instr.valid = true ∧
    assigned (trace machine inputs t) (inputs t) = row.val + 2 := by
  rcases issued_cases (trace machine inputs t) (inputs t) with ⟨none,_⟩ | ⟨found,valid,_⟩
  · rw [none] at issue; cases issue
  · have same := Option.some.inj (issue.symm.trans found)
    refine ⟨same,by rw [same]; exact valid,?_⟩
    rw [same] at takes
    exact takes

theorem unit_keeps {cell : Nat} (within : cell ≤ row.val) (straight : ∀ v, t ≤ v → v ≤ t + cell → (inputs v).flush = false) :
    (trace machine inputs (t + cell + 1)).unit.simdPipe row cell = some op := by
  obtain ⟨same,valid,count⟩ := issue_parts issue takes
  induction cell with
  | zero =>
    have stages := assigned_stages.mpr count
    change (if _ then some (instruction (trace machine inputs t) (inputs t)) else none) = some op
    rw [same] at valid
    rw [straight t (Nat.le_refl t) (Nat.le_refl t),stages,valid,same]
    simp
  | succ cell ih =>
    have before := ih (by omega) fun v after' inside => straight v after' (by omega)
    have quiet := straight (t + cell + 1) (by omega) (by omega)
    have room : cell + 1 < row.val + 2 := by omega
    change (if !(inputs (t + cell + 1)).flush && decide (cell + 1 < row.val + 2) then
      (trace machine inputs (t + cell + 1)).unit.simdPipe row cell else none) = some op
    rw [quiet,decide_eq_true room]
    exact before

theorem board_keeps {cell : Nat} (within : cell ≤ row.val) (straight : ∀ v, t ≤ v → v ≤ t + cell → (inputs v).flush = false) :
    (trace machine inputs (t + cell + 1)).board.simdPipe row cell = true := by
  obtain ⟨_,_,count⟩ := issue_parts issue takes
  induction cell with
  | zero =>
    rcases issued_cases (trace machine inputs t) (inputs t) with ⟨none,_⟩ | ⟨_,_,unit,rdy,_,free⟩
    · rw [none] at issue; cases issue
    · change (!(inputs t).flush && assigned (trace machine inputs t) (inputs t) == row.val + 2 &&
        (!stall (trace machine inputs t) (inputs t) && ready (inputs t).from_rr && (inputs t).from_rr.instr.unit == .simd)) = true
      simp [straight t (Nat.le_refl t) (Nat.le_refl t),count,free,rdy,unit]
  | succ cell ih =>
    have before := ih (by omega) fun v after' inside => straight v after' (by omega)
    have quiet := straight (t + cell + 1) (by omega) (by omega)
    have room : cell + 1 < 5 := by omega
    change (!(inputs (t + cell + 1)).flush && decide (cell + 1 < 5) &&
      (trace machine inputs (t + cell + 1)).board.simdPipe row cell) = true
    rw [quiet,decide_eq_true room,before]
    rfl

-- No instruction of fewer stages ends with another one: the scoreboard stalls it.
theorem alone (straight : ∀ v, t ≤ v → v < t + (row.val + 1) → (inputs v).flush = false) {lower : Fin 5} (before : lower < row) :
    (trace machine inputs (t + (row.val + 1))).unit.simdPipe lower lower.val = none := by
  rw [Option.eq_none_iff_forall_not_mem]
  intro other found
  obtain ⟨v,place,issue',takes'⟩ := unit_origin found
  have smaller : lower.val < row.val := before
  have later : v = t + (row.val - lower.val - 1) + 1 := by omega
  have booked := board_keeps issue takes (show row.val - lower.val - 1 ≤ row.val by omega) fun u after' inside =>
    straight u after' (by omega)
  rw [← later] at booked
  rcases issued_cases (trace machine inputs v) (inputs v) with ⟨none,_⟩ | ⟨_,_,_,_,_,free⟩
  · rw [none] at issue'; cases issue'
  · obtain ⟨_,_,count⟩ := issue_parts issue' takes'
    simp only [stall,stallSimd,Bool.or_eq_false_iff,List.any_eq_false] at free
    have idle := free.1.1 row (List.mem_finRange row)
    change ¬ (decide (assigned (trace machine inputs v) (inputs v) < row.val + 2) &&
      (trace machine inputs v).board.simdPipe row (row.val + 2 - assigned (trace machine inputs v) (inputs v) - 1)) = true at idle
    have cell : row.val + 2 - (lower.val + 2) - 1 = row.val - lower.val - 1 := by omega
    rw [count,cell,booked] at idle
    exact idle (by simp [smaller])

theorem comes_out (straight : ∀ v, t ≤ v → v < t + (op.exeStages - 1) → (inputs v).flush = false) (elements : op.instr.vl ≠ 0) :
    SimdUnit.instrToOut (trace machine inputs (t + (op.exeStages - 1))).unit
      (instruction (trace machine inputs (t + (op.exeStages - 1))) (inputs (t + (op.exeStages - 1)))) = op := by
  have count : op.exeStages - 1 = row.val + 1 := by omega
  rw [count] at straight ⊢
  have here : (trace machine inputs (t + (row.val + 1))).unit.simdPipe row row.val = some op :=
    unit_keeps issue takes (Nat.le_refl _) fun v after' inside => straight v after' (by omega)
  have none : ∀ lower < row, (trace machine inputs (t + (row.val + 1))).unit.simdPipe lower lower.val = none :=
    fun lower before => alone issue takes straight before
  have first : SimdUnit.instrScoreBoard (trace machine inputs (t + (row.val + 1))).unit = some op := by
    have parts : ∀ r : Fin 5, List.finRange 5 = (List.finRange 5).take r.val ++ r :: (List.finRange 5).drop (r.val + 1) ∧
      ∀ lower ∈ (List.finRange 5).take r.val, lower < r := by decide
    have finds : (List.finRange 5).findSome? (fun r => (trace machine inputs (t + (row.val + 1))).unit.simdPipe r r.val) =
        some op :=
      List.findSome?_eq_some_iff.mpr ⟨_,row,_,(parts row).1,here,fun lower before => none lower ((parts row).2 lower before)⟩
    rw [SimdUnit.instrScoreBoard,finds]
    rfl
  rw [SimdUnit.instrToOut,first]
  simp [elements]

end

end

end Sargantana.SimdDelivery
