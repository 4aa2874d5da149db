import Sargantana.Lib.MExtension
import Sargantana.Vdiv

-- What a lane of vdiv holds while it divides, and what it shows at the end.
namespace Sargantana.VdivLane
open DracPkg Sargantana.Packed RestoringDivision Vdiv

-- The elements of the two operands, and their magnitudes in the registers of the divider
def dividend (job : Input) (k : Nat) : BitVec (bits job.sew) := element (bits job.sew) k job.dataVs2

def divider (job : Input) (k : Nat) : BitVec (bits job.sew) := element (bits job.sew) k job.dataVs1

def numerator (job : Input) (k : Nat) : BitVec 64 := (Vdiv.magnitude job.instrType (dividend job k)).zeroExtend 64

def denominator (job : Input) (k : Nat) : BitVec 64 := (Vdiv.magnitude job.instrType (divider job k)).zeroExtend 64

def shifted (job : Input) (k j : Nat) : BitVec 64 × BitVec 64 :=
  (restoreBit (bits job.sew - 1) (denominator job k))^[j] (0,numerator job k)

def value (job : Input) (division : Bool) (k : Nat) : BitVec (bits job.sew) :=
  if division then MExtension.quotient (isSigned job.instrType) (dividend job k) (divider job k)
  else MExtension.remainder (isSigned job.instrType) (dividend job k) (divider job k)

def owed (job : Input) (k : Nat) : BitVec (bits job.sew) := value job (isDivision job.instrType) k

def Finished (s : State) (job : Input) (k : Nat) : Prop :=
  divider job k ≠ 0 →
    element (bits job.sew) k s.quotients =
      Vdiv.magnitude job.instrType (dividend job k) / Vdiv.magnitude job.instrType (divider job k) ∧
    element (bits job.sew) k s.remnants =
      Vdiv.magnitude job.instrType (dividend job k) % Vdiv.magnitude job.instrType (divider job k)

structure Holds (s : State) (job : Input) : Prop where
  sew : s.sew = job.sew
  instrType : s.instrType = job.instrType
  magnitudesVs1 : s.magnitudesVs1 = magnitudes job.instrType job.sew job.dataVs1
  magnitudesVs2 : s.magnitudesVs2 = magnitudes job.instrType job.sew job.dataVs2
  dividenedElements : s.dividenedElements = job.dataVs2
  resultSigns : ∀ k < count job.sew,
    s.resultSigns k = (isSigned job.instrType && ((divider job k).msb ^^ (dividend job k).msb))
  divisionByZero : ∀ k < count job.sew, s.divisionByZero k = (divider job k == 0)

-- Element e is in hand, j bits of it are done, and the elements above are finished.
structure Working (s : State) (job : Input) (e j : Nat) : Prop where
  holds : Holds s job
  inside : e < count job.sew
  number : s.numberOfDivisions = e
  cycles : j + 2 * s.cyclesCounter + 2 = bits job.sew
  divisor : s.divisor = denominator job e
  registers : (s.remnant,s.dividendQuotient) = shifted job e j
  done : ∀ k < count job.sew, e < k → Finished s job k

theorem bits_count (sew : Fin 4) : count sew * bits sew = 64 := by
  revert sew
  decide

theorem bits_pos (sew : Fin 4) : 8 ≤ bits sew := by
  revert sew
  decide

theorem count_pos (sew : Fin 4) : 0 < count sew := by
  revert sew
  decide

theorem bits_le (sew : Fin 4) : bits sew ≤ 64 := by
  revert sew
  decide

theorem half_bits (sew : Fin 4) : 2 * (bits sew / 2) = bits sew := by
  revert sew
  decide

theorem negate_neg {w : Nat} (x : BitVec w) : Vdiv.negate x = -x := (BitVec.neg_eq_not_add x).symm

theorem magnitude_eq {w : Nat} (instrType : InstrType) (x : BitVec w) :
    Vdiv.magnitude instrType x = MExtension.magnitude (isSigned instrType) x := by
  rw [Vdiv.magnitude,MExtension.magnitude,negate_neg]

theorem alone_magnitudes {instrType : InstrType} {sew : Fin 4} {k : Nat} (data : BitVec 64) (inside : k < count sew) :
    alone sew k (magnitudes instrType sew data) =
      (Vdiv.magnitude instrType (element (bits sew) k data)).zeroExtend 64 := by
  rw [alone,magnitudes,element_pack _ inside (Nat.le_of_eq (bits_count sew))]

theorem shifted_divided {job : Input} {k : Nat} (nonzero : divider job k ≠ 0) :
    (shifted job k (bits job.sew)).2.truncate (bits job.sew) =
        Vdiv.magnitude job.instrType (dividend job k) / Vdiv.magnitude job.instrType (divider job k) ∧
      (shifted job k (bits job.sew)).1.truncate (bits job.sew) =
        Vdiv.magnitude job.instrType (dividend job k) % Vdiv.magnitude job.instrType (divider job k) := by
  have positive := bits_pos job.sew
  have fits := bits_le job.sew
  have signless : denominator job k ≠ 0 := by
    intro zero
    have small := (MExtension.extend_zero fits).mp zero
    rw [magnitude_eq] at small
    exact nonzero (MExtension.magnitude_zero.mp small)
  have short : (numerator job k).toNat < 2 ^ bits job.sew := by
    rw [numerator,MExtension.extend_toNat fits]
    exact BitVec.isLt _
  have loaded : Packed (bits job.sew - 1) (bits job.sew) (numerator job k) 0 (numerator job k) := by
    intro i below
    have start : bits job.sew - 1 + 1 - bits job.sew = 0 := by omega
    rw [start,if_pos (Nat.zero_le _),Nat.sub_zero]
  have done := divided (BitVec.lt_def.mpr (BitVec.toNat_pos_of_ne_zero signless)) (by omega) (by omega) short loaded
  refine ⟨?_,?_⟩
  · refine Eq.trans ?_ (MExtension.extend_div fits _ _)
    refine BitVec.eq_of_getLsbD_eq fun i below => ?_
    have bit := done.2 i (by omega)
    simp only [BitVec.truncate_eq_setWidth,BitVec.getLsbD_setWidth,below,decide_true,Bool.true_and]
    exact bit
  · exact Eq.trans (congrArg _ done.1) (MExtension.extend_mod fits _ _)

theorem shifted_more (job : Input) (k j : Nat) :
    shifted job k (j + 2) = div2bits job.sew (denominator job k) (shifted job k j) := by
  rw [shifted,shifted,div2bits,Nat.add_comm,Function.iterate_add_apply]

theorem Working.out {s : State} {job i : Input} {e j : Nat} (working : Working s job e j) (waits : i.starts = false) :
    out s i = shifted job e (j + 2) := by
  have still : ¬ i.starts = true := by simp [waits]
  rw [shifted_more,Vdiv.out,firstDivisor,firstRegisters,if_neg still,if_neg still,working.registers,working.divisor,
    working.holds.sew]

theorem start_working {s : State} {i : Input} (starts : i.starts = true) (width : s.sew = i.sew) :
    Working (next s i) i (count i.sew - 1) 2 := by
  have last : count i.sew - 1 < count i.sew := Nat.sub_lt (count_pos _) Nat.one_pos
  have first : firstRegisters s i = shifted i (count i.sew - 1) 0 := by
    rw [firstRegisters,if_pos starts,alone_magnitudes _ last]
    rfl
  have divides : firstDivisor s i = denominator i (count i.sew - 1) := by
    rw [firstDivisor,if_pos starts,alone_magnitudes _ last]
    rfl
  have worked : out s i = shifted i (count i.sew - 1) 2 := by
    rw [shifted_more i _ 0,← first,← divides,Vdiv.out,width]
  have positive := bits_pos i.sew
  have even := half_bits i.sew
  rw [next,if_pos starts]
  refine ⟨⟨rfl,rfl,rfl,rfl,rfl,?_,?_⟩,last,rfl,?_,divides,worked,?_⟩
  · intro k inside
    simp [start,inside,divider,dividend]
  · intro k inside
    simp [start,inside,divider]
  · simp only [start]
    omega
  · intro k inside above
    omega

theorem row_fits {sew : Fin 4} {k : Nat} (inside : k < count sew) : k * bits sew + bits sew ≤ 64 := by
  have row : (k + 1) * bits sew ≤ count sew * bits sew := Nat.mul_le_mul_right _ inside
  rw [bits_count,Nat.add_mul,Nat.one_mul] at row
  exact row

theorem store_finished {s : State} {job i : Input} {e j : Nat} (working : Working s job e j) (waits : i.starts = false)
    (last : j + 2 = bits job.sew) {k : Nat} (known : k = e ∨ Finished s job k) : Finished (store s i) job k := by
  intro nonzero
  have worked := working.out waits
  rw [last] at worked
  simp only [store,worked,working.number]
  rw [working.holds.sew]
  by_cases same : k = e
  · rw [same] at nonzero ⊢
    rw [element_put_same _ _ (row_fits working.inside),element_put_same _ _ (row_fits working.inside)]
    exact shifted_divided nonzero
  · rw [element_put_other _ _ same,element_put_other _ _ same]
    exact (known.resolve_left same) nonzero

theorem Holds.next {s : State} {job i : Input} (holds : Holds s job) (waits : i.starts = false) :
    Holds (next s i) job := by
  have still : ¬ i.starts = true := by simp [waits]
  have kept : ∀ after : State, after.sew = s.sew → after.instrType = s.instrType →
      after.magnitudesVs1 = s.magnitudesVs1 → after.magnitudesVs2 = s.magnitudesVs2 →
      after.dividenedElements = s.dividenedElements → after.resultSigns = s.resultSigns →
      after.divisionByZero = s.divisionByZero → Holds after job := by
    intro after sew kind first second elements signs zero
    exact ⟨sew.trans holds.sew,kind.trans holds.instrType,first.trans holds.magnitudesVs1,
      second.trans holds.magnitudesVs2,elements.trans holds.dividenedElements,signs ▸ holds.resultSigns,
      zero ▸ holds.divisionByZero⟩
  rw [Vdiv.next,if_neg still]
  split
  · exact kept _ rfl rfl rfl rfl rfl rfl rfl
  · split
    · exact kept _ rfl rfl rfl rfl rfl rfl rfl
    · exact kept _ rfl rfl rfl rfl rfl rfl rfl

-- The cycles in which no division comes in: the element in hand goes on, the next one is
-- taken, or the last one stays.
theorem working_goes_on {s : State} {job i : Input} {e j : Nat} (working : Working s job e j)
    (waits : i.starts = false) (more : j + 2 < bits job.sew) : Working (next s i) job e (j + 2) := by
  have still : ¬ i.starts = true := by simp [waits]
  have counts := working.cycles
  have left : s.cyclesCounter ≠ 0 := by omega
  have holds := working.holds.next waits
  rw [next,if_neg still,if_pos left] at holds ⊢
  refine ⟨holds,working.inside,working.number,?_,working.divisor,?_,working.done⟩
  · simp only
    omega
  · exact working.out waits

theorem working_takes_next {s : State} {job i : Input} {e j : Nat} (working : Working s job (e + 1) j)
    (waits : i.starts = false) (last : j + 2 = bits job.sew) : Working (next s i) job e 0 := by
  have still : ¬ i.starts = true := by simp [waits]
  have counts := working.cycles
  have ended : ¬ s.cyclesCounter ≠ 0 := by omega
  have more : s.numberOfDivisions ≠ 0 := by rw [working.number]; exact Nat.succ_ne_zero e
  have inside : e < count job.sew := Nat.lt_of_succ_lt working.inside
  have holds := working.holds
  have after := holds.next waits
  rw [next,if_neg still,if_neg ended,if_pos more] at after ⊢
  refine ⟨after,inside,?_,?_,?_,?_,?_⟩
  · simp only [working.number]
    omega
  · have even := half_bits job.sew
    have positive := bits_pos job.sew
    simp only [holds.sew]
    omega
  · simp only [holds.sew,holds.magnitudesVs1,working.number,Nat.add_sub_cancel]
    exact alone_magnitudes _ inside
  · simp only [holds.sew,holds.magnitudesVs2,working.number,Nat.add_sub_cancel]
    exact congrArg (Prod.mk 0) (alone_magnitudes _ inside)
  · intro k within above
    refine store_finished working waits last ?_
    by_cases same : k = e + 1
    · exact .inl same
    · exact .inr (working.done k within (by omega))

theorem working_stays {s : State} {job i : Input} {j : Nat} (working : Working s job 0 j)
    (waits : i.starts = false) (last : j + 2 = bits job.sew) :
    Working (next s i) job 0 j ∧ ∀ k < count job.sew, Finished (next s i) job k := by
  have still : ¬ i.starts = true := by simp [waits]
  have counts := working.cycles
  have ended : ¬ s.cyclesCounter ≠ 0 := by omega
  have none : ¬ s.numberOfDivisions ≠ 0 := by rw [working.number]; exact not_not.mpr rfl
  have stored : next s i = store s i := by rw [next,if_neg still,if_neg ended,if_neg none]
  have all : ∀ k < count job.sew, Finished (store s i) job k := by
    intro k within
    refine store_finished working waits last ?_
    by_cases same : k = 0
    · exact .inl same
    · exact .inr (working.done k within (by omega))
  have holds := working.holds.next waits
  rw [stored] at holds ⊢
  exact ⟨⟨holds,working.inside,working.number,working.cycles,working.divisor,working.registers,
    fun k within _ => all k within⟩,all⟩

theorem next_finished {s : State} {job i : Input} {e j : Nat} (working : Working s job e j)
    (waits : i.starts = false) (all : ∀ k < count job.sew, Finished s job k) {k : Nat} (inside : k < count job.sew) :
    Finished (next s i) job k := by
  have still : ¬ i.starts = true := by simp [waits]
  have counts := working.cycles
  rw [next,if_neg still]
  split
  · exact all k inside
  · rename_i ended
    have last : j + 2 = bits job.sew := by omega
    have stored := store_finished working waits last (.inr (all k inside))
    split
    · exact stored
    · exact stored

-- How far a lane is: some k when it has divided for k cycles of a long division, none when
-- all elements have been finished since.
inductive Lane (s : State) (job : Input) : Option Nat → Prop where
  | running {e j k : Nat} (working : Working s job e j) (elapsed : 2 * k + e * bits job.sew + bits job.sew = 64 + j) :
      Lane s job (some k)
  | settled {e j : Nat} (working : Working s job e j) (all : ∀ k < count job.sew, Finished s job k) : Lane s job none

theorem lane_start {s : State} {i : Input} (starts : i.starts = true) (width : s.sew = i.sew) :
    Lane (next s i) i (some 1) := by
  refine .running (start_working starts width) ?_
  have rows : (count i.sew - 1) * bits i.sew + bits i.sew = 64 := by
    generalize i.sew = sew
    revert sew
    decide
  omega

theorem lane_next {s : State} {job i : Input} {k : Nat} (lane : Lane s job (some k)) (waits : i.starts = false)
    (before : k < 31) : Lane (next s i) job (some (k + 1)) := by
  obtain ⟨working,elapsed⟩ := lane
  rename_i e j
  have counts := working.cycles
  by_cases more : j + 2 < bits job.sew
  · exact .running (working_goes_on working waits more) (by omega)
  · have last : j + 2 = bits job.sew := by omega
    cases e with
    | zero => omega
    | succ e =>
      rw [Nat.add_mul,Nat.one_mul] at elapsed
      exact .running (working_takes_next working waits last) (by omega)

theorem lane_last {s : State} {job : Input} (lane : Lane s job (some 31)) :
    ∃ j, Working s job 0 j ∧ j + 2 = bits job.sew := by
  obtain ⟨working,elapsed⟩ := lane
  rename_i e j
  have counts := working.cycles
  cases e with
  | zero => exact ⟨j,working,by omega⟩
  | succ e =>
    rw [Nat.add_mul,Nat.one_mul] at elapsed
    omega

theorem lane_end {s : State} {job i : Input} (lane : Lane s job (some 31)) (waits : i.starts = false) :
    Lane (next s i) job none := by
  obtain ⟨j,working,last⟩ := lane_last lane
  obtain ⟨after,all⟩ := working_stays working waits last
  exact .settled after all

theorem lane_stays {s : State} {job i : Input} (lane : Lane s job none) (waits : i.starts = false) :
    Lane (next s i) job none := by
  obtain ⟨_,_⟩ | ⟨working,all⟩ := lane
  rename_i e j
  have counts := working.cycles
  have kept := fun k inside => next_finished (k := k) working waits all inside
  by_cases more : j + 2 < bits job.sew
  · exact .settled (working_goes_on working waits more) kept
  · have last : j + 2 = bits job.sew := by omega
    cases e with
    | zero => exact .settled (working_stays working waits last).1 kept
    | succ e => exact .settled (working_takes_next working waits last) kept

-- Two instructions that divide the same elements the same way
structure SameOperands (job i : Input) : Prop where
  sew : job.sew = i.sew
  dataVs1 : job.dataVs1 = i.dataVs1
  dataVs2 : job.dataVs2 = i.dataVs2
  isSigned : isSigned job.instrType = isSigned i.instrType

theorem finished_same {s : State} {job i : Input} {k : Nat} (same : SameOperands job i) (finished : Finished s job k) :
    Finished s i k := by
  obtain ⟨type,valid,sew,vs1,vs2,stages⟩ := job
  obtain ⟨type',valid',sew',vs1',vs2',stages'⟩ := i
  obtain ⟨rfl,rfl,rfl,signed⟩ := same
  simp only [Finished,magnitude_eq,dividend,divider] at finished signed ⊢
  rwa [signed] at finished

theorem value_same {job i : Input} (same : SameOperands job i) (division : Bool) (k : Nat) :
    (value job division k).cast (congrArg bits same.sew) = value i division k := by
  have signed := same.isSigned
  have width := same.sew
  have first := same.dataVs1
  have second := same.dataVs2
  obtain ⟨type,valid,sew,vs1,vs2,stages⟩ := job
  obtain ⟨type',valid',sew',vs1',vs2',stages'⟩ := i
  simp only at width first second signed
  subst width first second
  simp only [value,dividend,divider,BitVec.cast_eq,signed]

-- A division that repeats the last one starts it over; what is stored stays right.
theorem lane_again {s : State} {job i : Input} (lane : Lane s job none) (starts : i.starts = true)
    (same : SameOperands job i) : Lane (next s i) i none := by
  obtain ⟨_,_⟩ | ⟨working,all⟩ := lane
  refine .settled (start_working starts (working.holds.sew.trans same.sew)) fun k inside => ?_
  have before := finished_same same (all k (same.sew ▸ inside))
  rw [next,if_pos starts]
  exact before

theorem element_value {s : State} {job i : Input} {k : Nat} {division : Bool} (holds : Holds s job)
    (inside : k < count job.sew) (signed : isSigned (parts s i k).1 = isSigned job.instrType)
    (values : divider job k ≠ 0 →
      (parts s i k).2.1 = (Vdiv.magnitude job.instrType (dividend job k) /
        Vdiv.magnitude job.instrType (divider job k)).cast (congrArg bits holds.sew.symm) ∧
      (parts s i k).2.2 = (Vdiv.magnitude job.instrType (dividend job k) %
        Vdiv.magnitude job.instrType (divider job k)).cast (congrArg bits holds.sew.symm)) :
    (if division then quotientOut s i k else remnantOut s i k).cast (congrArg bits holds.sew) = value job division k := by
  obtain ⟨type,valid,sew,vs1,vs2,stages⟩ := job
  obtain rfl : s.sew = sew := holds.sew
  have zero := holds.divisionByZero k inside
  have signs := holds.resultSigns k inside
  have elements : element (bits s.sew) k s.dividenedElements = dividend ⟨type,valid,s.sew,vs1,vs2,stages⟩ k :=
    congrArg (element (bits s.sew) k) holds.dividenedElements
  simp only [BitVec.cast_eq,magnitude_eq] at values signed signs ⊢
  rw [value,quotientOut,remnantOut,signed,zero,signs,elements]
  by_cases byZero : divider ⟨type,valid,s.sew,vs1,vs2,stages⟩ k = 0
  · rw [byZero]
    simp [MExtension.quotient,MExtension.remainder]
  · obtain ⟨quotient,remainder⟩ := values byZero
    have other : (divider ⟨type,valid,s.sew,vs1,vs2,stages⟩ k == 0) = false := beq_eq_false_iff_ne.mpr byZero
    rw [quotient,remainder,MExtension.quotient_magnitudes _ byZero,MExtension.remainder_magnitudes _ byZero,
      negate_neg,negate_neg,other,Bool.xor_comm]
    cases isSigned type <;> simp

theorem element_dataVd {s : State} {sew : Fin 4} {k : Nat} (i : Input) (same : s.sew = sew) (inside : k < count sew) :
    element (bits sew) k (dataVd s i) =
      (if isDivision (if i.instrValid && i.exeStages == 1 then i.instrType else s.instrType) then quotientOut s i k
        else remnantOut s i k).cast (congrArg bits same) := by
  subst same
  rw [dataVd,element_pack _ inside (Nat.le_of_eq (bits_count _))]
  rfl

theorem element_cast {v w k : Nat} (same : v = w) (x : BitVec 64) : element v k x = (element w k x).cast same.symm := by
  subst same
  rfl

-- The end of a long division: the lowest element comes from the divider itself.
theorem lane_shows {s : State} {job i : Input} {k : Nat} (lane : Lane s job (some 31)) (waits : i.starts = false)
    (quiet : (i.instrValid && i.exeStages == 1) = false) (inside : k < count job.sew) :
    element (bits job.sew) k (dataVd s i) = owed job k := by
  obtain ⟨j,working,last⟩ := lane_last lane
  have holds := working.holds
  have still : ¬ oneClock i = true := by simp [oneClock,waits]
  have worked := working.out waits
  rw [last] at worked
  rw [element_dataVd i holds.sew inside,quiet,if_neg Bool.false_ne_true,holds.instrType]
  refine element_value holds inside ?_ fun nonzero => ?_
  · unfold parts
    rw [if_neg still]
    split <;> exact congrArg isSigned holds.instrType
  · unfold parts
    rw [if_neg still,worked,element_cast (congrArg bits holds.sew),element_cast (congrArg bits holds.sew),
      element_cast (congrArg bits holds.sew),element_cast (congrArg bits holds.sew)]
    by_cases upper : 0 < k
    · obtain ⟨quotient,remainder⟩ := working.done k inside upper nonzero
      rw [if_pos upper]
      exact ⟨congrArg (BitVec.cast _) quotient,congrArg (BitVec.cast _) remainder⟩
    · obtain rfl : k = 0 := by omega
      obtain ⟨quotient,remainder⟩ := shifted_divided nonzero
      have low : ∀ x : BitVec 64, element (bits job.sew) 0 x = x.truncate (bits job.sew) := fun x => by
        rw [element,Nat.zero_mul,BitVec.truncate_eq_setWidth,BitVec.setWidth_eq_extractLsb' (bits_le _)]
      rw [if_neg upper,low,low]
      exact ⟨congrArg (BitVec.cast _) quotient,congrArg (BitVec.cast _) remainder⟩

theorem lane_answers {s : State} {job i : Input} {k : Nat} (lane : Lane s job none) (starts : i.starts = true)
    (stages : i.exeStages = 1) (same : SameOperands job i) (inside : k < count i.sew) :
    element (bits i.sew) k (dataVd s i) = owed i k := by
  obtain ⟨_,_⟩ | ⟨working,all⟩ := lane
  have holds := working.holds
  have within : k < count job.sew := same.sew ▸ inside
  have one : oneClock i = true := by simp [oneClock,starts,stages]
  have valid : (i.instrValid && i.exeStages == 1) = true := by
    simp only [Input.starts,Bool.and_eq_true] at starts
    simp [starts.2,stages]
  have answer : (if isDivision i.instrType then quotientOut s i k else remnantOut s i k).cast (congrArg bits holds.sew) =
      value job (isDivision i.instrType) k := by
    refine element_value holds within ?_ fun nonzero => ?_
    · unfold parts
      rw [if_pos one]
      split
      · exact congrArg isSigned holds.instrType
      · exact same.isSigned.symm
    · obtain ⟨quotient,remainder⟩ := all k within nonzero
      unfold parts
      rw [if_pos one,element_cast (congrArg bits holds.sew),element_cast (congrArg bits holds.sew)]
      split <;> exact ⟨congrArg (BitVec.cast _) quotient,congrArg (BitVec.cast _) remainder⟩
  rw [element_dataVd i (holds.sew.trans same.sew) inside,valid,if_pos rfl,owed,← value_same same,← answer]
  exact (BitVec.cast_cast _ _ _).symm

end Sargantana.VdivLane
