import Mathlib.Data.Nat.Basic

-- score_board_scalar: the cycles in which the result port is taken, and for each divider
-- the cycles until it is free.
namespace Sargantana.ScoreBoardScalar

structure State where
  inst : BitVec 33
  ocupDivUnit : Bool → BitVec 33

structure Sets where
  mul32 : Bool
  mul64 : Bool
  div32 : Bool
  div64 : Bool
  deriving DecidableEq

def reset : State := ⟨0,fun _ => 0⟩

def freeDivUnit (s : State) (i : Bool) : Bool := s.ocupDivUnit i == 0

def readyMul32 (s : State) : Bool := !s.inst.getLsbD 1
def readyMul64 (s : State) : Bool := !s.inst.getLsbD 2
def readyDiv32 (s : State) : Bool := !s.inst.getLsbD 17
def divUnitSel (s : State) : Bool := !freeDivUnit s false
def readyDivUnit (s : State) : Bool := freeDivUnit s false || freeDivUnit s true

def setBit (word : BitVec 33) (k : Nat) (set : Bool) : BitVec 33 := if set then word ||| BitVec.twoPow 33 k else word

-- inst_d: the top bit is set or cleared last.
def instD (s : State) (sets : Sets) : BitVec 33 :=
  let moved := setBit (setBit (setBit (s.inst >>> 1) 0 sets.mul32) 1 sets.mul64) 16 sets.div32
  if sets.div64 then moved ||| BitVec.twoPow 33 32 else moved &&& ~~~(BitVec.twoPow 33 32)

def ocupD (s : State) (sets : Sets) (i : Bool) : BitVec 33 :=
  let mine := i == !freeDivUnit s false
  if sets.div64 && mine then BitVec.twoPow 33 32
  else if sets.div32 && mine then BitVec.twoPow 33 16
  else s.ocupDivUnit i >>> 1

def next (s : State) (flush : Bool) (sets : Sets) : State :=
  if flush then reset else ⟨instD s sets,ocupD s sets⟩

theorem setBit_iff {word : BitVec 33} {k i : Nat} {set : Bool} (within : k < 33) :
    (setBit word k set).getLsbD i = true ↔ word.getLsbD i = true ∨ (i = k ∧ set = true) := by
  cases set with
  | false => simp [setBit]
  | true => simp [setBit,BitVec.getLsbD_twoPow,within,eq_comm (a := k)]

theorem instD_iff (s : State) (sets : Sets) (k : Nat) :
    (instD s sets).getLsbD k = true ↔ s.inst.getLsbD (k + 1) = true ∨ (k = 0 ∧ sets.mul32 = true) ∨
      (k = 1 ∧ sets.mul64 = true) ∨ (k = 16 ∧ sets.div32 = true) ∨ (k = 32 ∧ sets.div64 = true) := by
  have moved : (setBit (setBit (setBit (s.inst >>> 1) 0 sets.mul32) 1 sets.mul64) 16 sets.div32).getLsbD k = true ↔
      s.inst.getLsbD (k + 1) = true ∨ (k = 0 ∧ sets.mul32 = true) ∨ (k = 1 ∧ sets.mul64 = true) ∨
        (k = 16 ∧ sets.div32 = true) := by
    rw [setBit_iff (by decide),setBit_iff (by decide),setBit_iff (by decide),BitVec.getLsbD_ushiftRight,Nat.add_comm 1]
    simp only [or_assoc]
  unfold instD
  cases sets.div64 with
  | true =>
    have last : (BitVec.twoPow 33 32).getLsbD k = true ↔ k = 32 := by simp [BitVec.getLsbD_twoPow,eq_comm (a := 32)]
    simp only [if_true,BitVec.getLsbD_or,Bool.or_eq_true,moved,last,or_assoc,and_true]
  | false =>
    have clear : (~~~(BitVec.twoPow 33 32)).getLsbD k = true ↔ k < 32 := by
      simp only [BitVec.getLsbD_not,BitVec.getLsbD_twoPow,Bool.and_eq_true,Bool.not_eq_true',decide_eq_true_eq,
        Bool.and_eq_false_iff,decide_eq_false_iff_not]
      omega
    simp only [Bool.false_eq_true,if_false,BitVec.getLsbD_and,Bool.and_eq_true,moved,clear,and_false,or_false]
    constructor
    · exact fun both => both.1
    · intro set
      refine ⟨set,?_⟩
      rcases set with bit | ⟨rfl,_⟩ | ⟨rfl,_⟩ | ⟨rfl,_⟩
      · have below := BitVec.lt_of_getLsbD bit
        omega
      all_goals decide
-- The mark of a busy divider moves down one place a cycle.
theorem mark_shift_last : BitVec.twoPow 33 0 >>> 1 = 0#33 := by decide

theorem mark_shift {k : Nat} (within : k + 1 < 33) : BitVec.twoPow 33 (k + 1) >>> 1 = BitVec.twoPow 33 k := by
  apply BitVec.eq_of_getLsbD_eq
  intro i _
  have below : k < 33 := by omega
  simp [BitVec.getLsbD_twoPow,Nat.add_comm 1,within,below]

end Sargantana.ScoreBoardScalar
