import Mathlib.Algebra.GroupWithZero.Nat

-- The rounding modes of a right shift: what is added to the quotient, from the rest of the
-- division and from the bits that are shifted out.
namespace Sargantana.FixedPoint

-- To the nearest with halves up, to the nearest with halves to even, down, and to odd
inductive Vxrm where
  | rnu
  | rne
  | rdn
  | rod
  deriving DecidableEq

def increment (mode : Vxrm) (v d : Nat) : Bool :=
  match mode with
  | .rnu => decide (2 ^ d ≤ 2 * (v % 2 ^ d))
  | .rne => decide (2 ^ d < 2 * (v % 2 ^ d)) || decide (2 * (v % 2 ^ d) = 2 ^ d ∧ v / 2 ^ d % 2 = 1)
  | .rdn => false
  | .rod => decide (v % 2 ^ d ≠ 0 ∧ v / 2 ^ d % 2 = 0)

-- Halfway between an even quotient and the next one
def tieToEven (v d : Nat) : Bool := decide (2 * (v % 2 ^ d) = 2 ^ d ∧ v / 2 ^ d % 2 = 0)

-- Three quarters of the way from an even quotient to the next one
def threeQuarters (v d : Nat) : Bool := decide (4 * (v % 2 ^ d) = 3 * 2 ^ d ∧ v / 2 ^ d % 2 = 0)

-- The rests that are not rounded up where the highest one of the tested bits is left out
def missed (mode : Vxrm) (v d : Nat) : Bool :=
  match mode with
  | .rne => threeQuarters v d
  | .rod => tieToEven v d
  | _ => false

def sticky (v d : Nat) : Bool := (List.range d).any v.testBit

theorem sticky_succ (v d : Nat) : sticky v (d + 1) = (sticky v d || v.testBit d) := by
  simp [sticky,List.range_succ]

theorem rest_succ (v d : Nat) : v % 2 ^ (d + 1) = v % 2 ^ d + 2 ^ d * (v.testBit d).toNat := by
  rw [Nat.mod_pow_succ,Nat.toNat_testBit]

theorem sticky_rest (v d : Nat) : sticky v d = decide (v % 2 ^ d ≠ 0) := by
  induction d with
  | zero => simp [sticky,Nat.mod_one]
  | succ d ih =>
    have positive := Nat.two_pow_pos d
    rw [sticky_succ,ih,rest_succ]
    cases v.testBit d with
    | true => simp
    | false => simp

theorem parity (v d : Nat) : v.testBit d = decide (v / 2 ^ d % 2 = 1) := Nat.testBit_eq_decide_div_mod_eq

theorem rest_half (v d : Nat) : 2 * (v % 2 ^ (d + 1)) = 2 ^ (d + 1) ↔ v.testBit d = true ∧ v % 2 ^ d = 0 := by
  have below := Nat.mod_lt v (Nat.two_pow_pos d)
  have double : 2 ^ (d + 1) = 2 * 2 ^ d := Nat.pow_succ'
  rw [rest_succ,double]
  cases v.testBit d with
  | true => simp only [Bool.toNat_true,true_and]; omega
  | false => simp only [Bool.toNat_false,Bool.false_eq_true,false_and,iff_false]; omega

theorem rest_above (v d : Nat) : 2 ^ (d + 1) < 2 * (v % 2 ^ (d + 1)) ↔ v.testBit d = true ∧ v % 2 ^ d ≠ 0 := by
  have below := Nat.mod_lt v (Nat.two_pow_pos d)
  have double : 2 ^ (d + 1) = 2 * 2 ^ d := Nat.pow_succ'
  rw [rest_succ,double]
  cases v.testBit d with
  | true => simp only [Bool.toNat_true,true_and]; omega
  | false => simp only [Bool.toNat_false,Bool.false_eq_true,false_and,iff_false]; omega

theorem rest_threeQuarters (v d : Nat) :
    4 * (v % 2 ^ (d + 2)) = 3 * 2 ^ (d + 2) ↔ v.testBit (d + 1) = true ∧ v.testBit d = true ∧ v % 2 ^ d = 0 := by
  have below := Nat.mod_lt v (Nat.two_pow_pos d)
  have double : 2 ^ (d + 1) = 2 * 2 ^ d := Nat.pow_succ'
  have again : 2 ^ (d + 2) = 2 * (2 * 2 ^ d) := by rw [Nat.pow_succ',double]
  rw [rest_succ v (d + 1),rest_succ v d,again,double]
  cases v.testBit (d + 1) with
  | false => cases v.testBit d <;> simp <;> omega
  | true => cases v.testBit d <;> simp <;> omega

theorem rnu_bits (v d : Nat) : increment .rnu v (d + 1) = v.testBit d := by
  rw [increment,Bool.eq_iff_iff,decide_eq_true_iff,Nat.le_iff_lt_or_eq,eq_comm,rest_half,rest_above]
  by_cases zero : v % 2 ^ d = 0 <;> simp [zero]

theorem rne_bits (v d : Nat) : increment .rne v (d + 1) = (v.testBit d && (sticky v d || v.testBit (d + 1))) := by
  rw [Bool.eq_iff_iff]
  simp only [increment,Bool.or_eq_true,Bool.and_eq_true,decide_eq_true_iff,rest_above,rest_half,sticky_rest,parity v (d + 1)]
  by_cases zero : v % 2 ^ d = 0 <;> simp [zero]

theorem rod_bits (v d : Nat) : increment .rod v d = (sticky v d && !v.testBit d) := by
  rw [increment,sticky_rest,parity]
  rcases Nat.mod_two_eq_zero_or_one (v / 2 ^ d) with even | odd
  · simp [even]
  · simp [odd]

theorem tie_bits (v d : Nat) : tieToEven v (d + 1) = (v.testBit d && !sticky v d && !v.testBit (d + 1)) := by
  rw [Bool.eq_iff_iff]
  simp only [tieToEven,Bool.and_eq_true,Bool.not_eq_true',decide_eq_true_iff,decide_eq_false_iff_not,rest_half,sticky_rest,
    parity v (d + 1)]
  rcases Nat.mod_two_eq_zero_or_one (v / 2 ^ (d + 1)) with even | odd
  · by_cases zero : v % 2 ^ d = 0 <;> simp [zero,even]
  · simp [odd]

theorem threeQuarters_bits (v d : Nat) :
    threeQuarters v (d + 2) = (v.testBit (d + 1) && v.testBit d && !sticky v d && !v.testBit (d + 2)) := by
  rw [Bool.eq_iff_iff]
  simp only [threeQuarters,Bool.and_eq_true,Bool.not_eq_true',decide_eq_true_iff,decide_eq_false_iff_not,rest_threeQuarters,
    sticky_rest,parity v (d + 2),Decidable.not_not,and_assoc]
  rcases Nat.mod_two_eq_zero_or_one (v / 2 ^ (d + 2)) with even | odd
  · simp [even]
  · simp [odd]

theorem rne_short (v d : Nat) : (v.testBit (d + 1) && (sticky v d || v.testBit (d + 2))) =
    (increment .rne v (d + 2) && !missed .rne v (d + 2)) := by
  rw [rne_bits,missed,threeQuarters_bits,sticky_succ]
  cases v.testBit (d + 1) <;> cases v.testBit d <;> cases sticky v d <;> simp

theorem rod_short (v d : Nat) : (!v.testBit (d + 1) && sticky v d) =
    (increment .rod v (d + 1) && !missed .rod v (d + 1)) := by
  rw [rod_bits,missed,tie_bits,sticky_succ]
  cases v.testBit (d + 1) <;> cases v.testBit d <;> cases sticky v d <;> simp

-- A rest that is missed is rounded up from an even quotient.
theorem missed_even {mode : Vxrm} {v d : Nat} (miss : missed mode v d = true) :
    increment mode v d = true ∧ v / 2 ^ d % 2 = 0 := by
  have positive := Nat.two_pow_pos d
  cases mode with
  | rnu => exact absurd miss Bool.false_ne_true
  | rdn => exact absurd miss Bool.false_ne_true
  | rne =>
    simp only [missed,threeQuarters,decide_eq_true_iff] at miss
    refine ⟨?_,miss.2⟩
    simp only [increment,Bool.or_eq_true,decide_eq_true_iff]
    omega
  | rod =>
    simp only [missed,tieToEven,decide_eq_true_iff] at miss
    refine ⟨?_,miss.2⟩
    simp only [increment,decide_eq_true_iff]
    omega

end Sargantana.FixedPoint
