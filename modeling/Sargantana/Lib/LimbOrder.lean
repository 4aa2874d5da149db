import Sargantana.Lib.MExtension
import Sargantana.Lib.Packed
import Mathlib.Tactic.Linarith

-- Words compared by their limbs, the highest limb first.
namespace Sargantana.LimbOrder
open Sargantana.Packed MExtension

variable {n w : Nat}

-- Of the limbs p, …, p + j: above tells where the first word has the greater one and same where they agree.
def greater (above same : Nat → Bool) (p : Nat) : Nat → Bool
  | 0 => above p
  | j + 1 => above (p + (j + 1)) || (same (p + (j + 1)) && greater above same p j)

def equal (same : Nat → Bool) (p m : Nat) : Bool := (List.range m).all fun j => same (p + j)

-- The top decides, and what is below of it where the tops agree.
theorem digit_lt {P low low' : Int} {t t' : Int} (positive : 0 ≤ low ∧ 0 ≤ low') (small : low < P ∧ low' < P) :
    low' + P * t' < low + P * t ↔ t' < t ∨ t = t' ∧ low' < low := by
  obtain ⟨first,second⟩ := positive
  obtain ⟨small,small'⟩ := small
  rcases Int.lt_trichotomy t t' with less | rfl | more
  · have row : P * (t + 1) ≤ P * t' := Int.mul_le_mul_of_nonneg_left less (by omega)
    rw [Int.mul_add,Int.mul_one] at row
    constructor
    · intro order
      omega
    · rintro (order | order) <;> omega
  · simp
  · have row : P * (t' + 1) ≤ P * t := Int.mul_le_mul_of_nonneg_left more (by omega)
    rw [Int.mul_add,Int.mul_one] at row
    constructor
    · exact fun _ => .inl more
    · intro _
      omega

theorem slice_digit (p j : Nat) (x y : BitVec n) (t t' : Int) :
    ((y.extractLsb' (p * w) (j * w)).toNat : Int) + 2 ^ (j * w) * t' <
        (x.extractLsb' (p * w) (j * w)).toNat + 2 ^ (j * w) * t ↔
      t' < t ∨ t = t' ∧ (y.extractLsb' (p * w) (j * w)).toNat < (x.extractLsb' (p * w) (j * w)).toNat := by
  have first := (x.extractLsb' (p * w) (j * w)).isLt
  have second := (y.extractLsb' (p * w) (j * w)).isLt
  have power : ((2 ^ (j * w) : Nat) : Int) = 2 ^ (j * w) := by norm_cast
  rw [digit_lt ⟨by omega,by omega⟩ ⟨by omega,by omega⟩]
  omega

section
variable {x y : BitVec n} {above same : Nat → Bool} {p j : Nat}

theorem greater_low (larger : ∀ b ≤ j, above (p + b) = decide ((element w (p + b) y).toNat < (element w (p + b) x).toNat))
    (agree : ∀ b ≤ j, same (p + b) = decide (element w (p + b) x = element w (p + b) y)) :
    greater above same p j =
      decide ((y.extractLsb' (p * w) ((j + 1) * w)).toNat < (x.extractLsb' (p * w) ((j + 1) * w)).toNat) := by
  induction j with
  | zero =>
    rw [slice_one,slice_one]
    exact larger 0 (Nat.le_refl 0)
  | succ j ih =>
    have lower := ih (fun b within => larger b (by omega)) (fun b within => agree b (by omega))
    have order := slice_digit (w := w) p (j + 1) x y (element w (p + (j + 1)) x).toNat (element w (p + (j + 1)) y).toNat
    rw [greater,larger (j + 1) (Nat.le_refl _),agree (j + 1) (Nat.le_refl _),lower,slice_succ p (j + 1),slice_succ p (j + 1),
      ← Bool.decide_and,← Bool.decide_or,decide_eq_decide,← BitVec.toNat_inj]
    norm_cast at order
    exact order.symm

end

theorem reading_msb (signed : Bool) (x : BitVec w) : reading signed x = (x.toNat : Int) - 2 ^ w * (signed && x.msb).toNat := by
  rw [reading,BitVec.toInt_eq_msb_cond]
  cases signed <;> cases x.msb <;> simp

-- One more bit in front of a word lets both readings be compared as signed ones.
theorem cons_reading (signed : Bool) (x : BitVec w) : (BitVec.cons (signed && x.msb) x).toInt = reading signed x := by
  rw [reading_msb,BitVec.toInt_eq_msb_cond,BitVec.msb_cons,BitVec.toNat_cons',Nat.shiftLeft_eq]
  cases signed && x.msb with
  | true =>
    have double : 2 ^ (w + 1) = 2 ^ w * 2 := Nat.pow_succ 2 w
    rw [if_pos rfl,double]
    push_cast
    simp only [Bool.toNat_true]
    omega
  | false => simp

theorem reading_inj (signed : Bool) (x y : BitVec w) : reading signed x = reading signed y ↔ x = y := by
  cases signed with
  | true => exact BitVec.toInt_inj
  | false => exact Int.ofNat_inj.trans BitVec.toNat_inj

theorem toNat_top {m e : Nat} (some' : 0 < m) (x : BitVec n) :
    (element (w * m) e x).toNat =
      (x.extractLsb' (e * m * w) ((m - 1) * w)).toNat + 2 ^ ((m - 1) * w) * (element w (e * m + (m - 1)) x).toNat := by
  have place : e * (m * w) = e * m * w := (Nat.mul_assoc e m w).symm
  have last : m - 1 + 1 = m := by omega
  rw [← slice_succ,last,Nat.mul_comm w m,element,place]

theorem reading_top {m e : Nat} (some' : 0 < m) (signed : Bool) (x : BitVec n) :
    reading signed (element (w * m) e x) =
      ((x.extractLsb' (e * m * w) ((m - 1) * w)).toNat : Int) +
        2 ^ ((m - 1) * w) * reading signed (element w (e * m + (m - 1)) x) := by
  have width : w * m = (m - 1) * w + w := by
    rw [← Nat.succ_mul,Nat.succ_eq_add_one,Nat.sub_add_cancel some',Nat.mul_comm]
  have power : (2 : Int) ^ (w * m) = 2 ^ ((m - 1) * w) * 2 ^ w := by rw [width,pow_add]
  rw [reading_msb,reading_msb,msb_group some',toNat_top some',power]
  push_cast
  rw [Int.mul_sub,Int.mul_assoc]
  omega

section
variable {x y : BitVec n} {above same : Nat → Bool} {m e : Nat}

-- Only the top limbs of two signed words are compared with their signs.
theorem greater_exact (some' : 0 < m) (signed : Bool)
    (larger : ∀ b < m, above (e * m + b) = decide (reading (signed && decide (b + 1 = m)) (element w (e * m + b) y) <
      reading (signed && decide (b + 1 = m)) (element w (e * m + b) x)))
    (agree : ∀ b < m, same (e * m + b) = decide (element w (e * m + b) x = element w (e * m + b) y)) :
    greater above same (e * m) (m - 1) =
      decide (reading signed (element (w * m) e y) < reading signed (element (w * m) e x)) := by
  obtain ⟨k,rfl⟩ : ∃ k, m = k + 1 := ⟨m - 1,by omega⟩
  have top := larger k (by omega)
  rw [decide_eq_true rfl,Bool.and_true] at top
  rw [reading_top some' signed x,reading_top some' signed y,Nat.add_sub_cancel]
  have order := slice_digit (w := w) (e * (k + 1)) k x y (reading signed (element w (e * (k + 1) + k) x))
    (reading signed (element w (e * (k + 1) + k) y))
  rw [Bool.eq_iff_iff,decide_eq_true_iff,order,reading_inj]
  cases k with
  | zero =>
    rw [greater]
    simpa [Nat.mod_one] using Bool.eq_iff_iff.mp top
  | succ k =>
    have low : ∀ b ≤ k, above (e * (k + 1 + 1) + b) =
        decide ((element w (e * (k + 1 + 1) + b) y).toNat < (element w (e * (k + 1 + 1) + b) x).toNat) := by
      intro b within
      have inner : ¬ b + 1 = k + 1 + 1 := by omega
      rw [larger b (by omega),decide_eq_false inner,Bool.and_false]
      exact decide_eq_decide.mpr Int.ofNat_lt
    rw [greater,top,agree (k + 1) (by omega),greater_low low fun b within => agree b (by omega),Bool.or_eq_true,
      Bool.and_eq_true,decide_eq_true_iff,decide_eq_true_iff,decide_eq_true_iff]

theorem equal_exact
    (agree : ∀ b < m, same (e * m + b) = decide (element w (e * m + b) x = element w (e * m + b) y)) :
    equal same (e * m) m = decide (element (w * m) e x = element (w * m) e y) := by
  have rows : m * w = w * m := Nat.mul_comm m w
  have limb : ∀ b < m, ∀ z : BitVec n, element w b (element (w * m) e z) = element w (e * m + b) z := by
    intro b inside z
    have whole : element (w * m) e z = z.extractLsb' (w * m * e) (w * m) := by rw [element,Nat.mul_comm e]
    rw [whole]
    exact element_slice rows z inside
  rw [equal,Bool.eq_iff_iff,List.all_eq_true,decide_eq_true_iff]
  constructor
  · intro every
    refine elements_ext (w := w) (k := m) (Nat.le_of_eq rows.symm) fun b inside => ?_
    have limbs := every b (List.mem_range.mpr inside)
    rw [agree b inside,decide_eq_true_iff] at limbs
    rw [limb b inside,limb b inside,limbs]
  · intro whole b inside
    have inside := List.mem_range.mp inside
    rw [agree b inside,decide_eq_true_iff,← limb b inside,← limb b inside,whole]

end

end Sargantana.LimbOrder
