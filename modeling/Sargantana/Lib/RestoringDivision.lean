import Mathlib.Algebra.GroupWithZero.Nat
import Mathlib.Logic.Function.Iterate

-- Division by shifting and subtracting, one quotient bit at a time, with the dividend and
-- the quotient in one shift register. The arithmetic is that of `BitVec.DivModState`.
namespace Sargantana.RestoringDivision

variable {w : Nat}

-- The next bit of the dividend is read at `top`; the quotient grows from below.
def restoreBit (top : Nat) (divisor : BitVec w) (registers : BitVec w × BitVec w) : BitVec w × BitVec w :=
  let remanent := registers.1.shiftConcat (registers.2.getLsbD top)
  if divisor ≤ remanent then (remanent - divisor,registers.2.shiftConcat true)
  else (remanent,registers.2.shiftConcat false)

-- The rest of the dividend `n`, `k` bits, above the quotient `q`, up to bit `top`
def Packed (top k : Nat) (n q register : BitVec w) : Prop :=
  ∀ i ≤ top, register.getLsbD i = if top + 1 - k ≤ i then n.getLsbD (i - (top + 1 - k)) else q.getLsbD i

-- The registers hold a lawful state of the division.
structure Divides (top : Nat) (args : BitVec.DivModArgs w) (state : BitVec.DivModState w)
    (registers : BitVec w × BitVec w) : Prop where
  lawful : state.Lawful args
  within : state.wn ≤ top + 1
  remanent : registers.1 = state.r
  packed : Packed top state.wn args.n state.q registers.2

theorem Packed.next {top k : Nat} {n q register : BitVec w} (packed : Packed top k n q register) (positive : 0 < k)
    (within : k ≤ top + 1) : register.getLsbD top = n.getLsbD (k - 1) := by
  have read := packed top (Nat.le_refl _)
  rw [if_pos (by omega)] at read
  rw [read]
  congr 1
  omega

theorem Packed.shift {top k : Nat} {n q register : BitVec w} (packed : Packed top k n q register) (inside : top < w)
    (positive : 0 < k) (within : k ≤ top + 1) (b : Bool) :
    Packed top (k - 1) n (q.shiftConcat b) (register.shiftConcat b) := by
  intro i below
  have far : i < w := by omega
  cases i with
  | zero =>
    rw [if_neg (by omega)]
    simp [BitVec.getLsbD_shiftConcat]
  | succ i =>
    have moved := packed i (by omega)
    simp only [BitVec.getLsbD_shiftConcat,far,decide_true,Bool.true_and,Nat.add_one_ne_zero,if_false,
      Nat.add_sub_cancel,moved]
    by_cases old : top + 1 - k ≤ i
    · rw [if_pos old,if_pos (by omega)]
      congr 1
      omega
    · rw [if_neg old,if_neg (by omega)]

theorem Divides.step {top : Nat} {args : BitVec.DivModArgs w} {state : BitVec.DivModState w}
    {registers : BitVec w × BitVec w} (divides : Divides top args state registers) (inside : top < w)
    (positive : 0 < state.wn) :
    Divides top args (BitVec.divSubtractShift args state) (restoreBit top args.d registers) := by
  have read := divides.packed.next positive divides.within
  have less := divides.within
  have shifted := divides.packed.shift inside positive divides.within
  refine ⟨BitVec.lawful_divSubtractShift _ ⟨divides.lawful,positive⟩,?_,?_,?_⟩
  all_goals
    simp only [BitVec.divSubtractShift,restoreBit,read,divides.remanent]
    by_cases small : state.r.shiftConcat (args.n.getLsbD (state.wn - 1)) < args.d
  · rw [if_pos small]
    exact Nat.le_trans (Nat.sub_le _ _) less
  · rw [if_neg small]
    exact Nat.le_trans (Nat.sub_le _ _) less
  · rw [if_pos small,if_neg (BitVec.not_le.mpr small)]
  · rw [if_neg small,if_pos (BitVec.not_lt.mp small)]
  · rw [if_pos small,if_neg (BitVec.not_le.mpr small)]
    exact shifted false
  · rw [if_neg small,if_pos (BitVec.not_lt.mp small)]
    exact shifted true

-- Run lemma: after k bits the rest of the dividend is k bits shorter.
theorem Divides.steps {top : Nat} {args : BitVec.DivModArgs w} {state : BitVec.DivModState w}
    {registers : BitVec w × BitVec w} (divides : Divides top args state registers) (inside : top < w) (k : Nat)
    (enough : k ≤ state.wn) :
    ∃ after, after.wn = state.wn - k ∧ Divides top args after ((restoreBit top args.d)^[k] registers) := by
  induction k with
  | zero => exact ⟨state,rfl,divides⟩
  | succ k ih =>
    obtain ⟨after,left,running⟩ := ih (by omega)
    refine ⟨_,?_,Function.iterate_succ_apply' (restoreBit top args.d) k registers ▸
      running.step inside (by omega)⟩
    simp only [BitVec.divSubtractShift]
    split <;> (simp only [left]; omega)

theorem Divides.start {top k : Nat} {n d register : BitVec w} (positive : 0 < d) (inside : top < w)
    (within : k ≤ top + 1) (short : n.toNat < 2 ^ k) (loaded : Packed top k n 0 register) :
    Divides top ⟨n,d⟩ ⟨k,w - k,0,0⟩ (0,register) where
  lawful := {
    hwrn := by simp only; omega
    hdPos := positive
    hrLtDivisor := positive
    hrWidth := Nat.two_pow_pos _
    hqWidth := Nat.two_pow_pos _
    hdiv := by simp [Nat.shiftRight_eq_div_pow,Nat.div_eq_of_lt short] }
  within := within
  remanent := rfl
  packed := loaded

theorem divided {top k : Nat} {n d register : BitVec w} (positive : 0 < d) (inside : top < w) (within : k ≤ top + 1)
    (short : n.toNat < 2 ^ k) (loaded : Packed top k n 0 register) :
    ((restoreBit top d)^[k] (0,register)).1 = n % d ∧
      ∀ i ≤ top, ((restoreBit top d)^[k] (0,register)).2.getLsbD i = (n / d).getLsbD i := by
  obtain ⟨after,left,divides⟩ := (Divides.start positive inside within short loaded).steps inside k (Nat.le_refl _)
  have finished : after.wn = 0 := by simp only [left]; omega
  rw [BitVec.DivModState.udiv_eq_of_lawful divides.lawful finished,
    BitVec.DivModState.umod_eq_of_lawful divides.lawful finished]
  refine ⟨divides.remanent,?_⟩
  intro i below
  have bit := divides.packed i below
  rw [finished,if_neg (by omega)] at bit
  exact bit

end Sargantana.RestoringDivision
