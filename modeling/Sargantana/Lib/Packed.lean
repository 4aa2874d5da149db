import Mathlib.Algebra.GroupWithZero.Nat

-- A word that is a row of elements of one width.
namespace Sargantana.Packed

variable {n w : Nat}

def element (w i : Nat) (x : BitVec n) : BitVec w := x.extractLsb' (i * w) w

def put (i : Nat) (v : BitVec w) (x : BitVec n) : BitVec n :=
  x &&& ~~~((BitVec.allOnes w).zeroExtend n <<< (i * w)) ||| v.zeroExtend n <<< (i * w)

def fill (k : Nat) (f : Nat → BitVec w) (x : BitVec n) : BitVec n :=
  (List.range k).foldl (fun word i => put i (f i) word) x

def pack (n k : Nat) (f : Nat → BitVec w) : BitVec n := fill k f 0

theorem element_bit (i j : Nat) (x : BitVec n) :
    (element w i x).getLsbD j = (decide (j < w) && x.getLsbD (i * w + j)) := by
  simp [element,BitVec.getLsbD_extractLsb']

theorem put_bit {i j : Nat} (v : BitVec w) (x : BitVec n) (inside : j < n) :
    (put i v x).getLsbD j = if i * w ≤ j ∧ j < i * w + w then v.getLsbD (j - i * w) else x.getLsbD j := by
  simp only [put,BitVec.getLsbD_or,BitVec.getLsbD_and,BitVec.getLsbD_not,BitVec.getLsbD_shiftLeft,
    BitVec.truncate_eq_setWidth,BitVec.getLsbD_setWidth,BitVec.getLsbD_allOnes,inside,decide_true,Bool.true_and]
  by_cases below : j < i * w
  · simp [below,Nat.not_le.mpr below]
  · have near : j - i * w < n := by omega
    by_cases within : j < i * w + w
    · have offset : j - i * w < w := by omega
      simp [below,within,near,offset,Nat.le_of_not_lt below]
    · have offset : ¬ j - i * w < w := by omega
      have beyond : v.getLsbD (j - i * w) = false := BitVec.getLsbD_of_ge _ _ (by omega)
      simp [within,offset,beyond]

theorem element_put_same {i : Nat} (v : BitVec w) (x : BitVec n) (fits : i * w + w ≤ n) :
    element w i (put i v x) = v := by
  refine BitVec.eq_of_getLsbD_eq fun j below => ?_
  rw [element_bit,put_bit _ _ (by omega),if_pos (by omega)]
  simp [below]

theorem rows_apart {i k j : Nat} (other : k ≠ i) (below : j < w) :
    ¬ (i * w ≤ k * w + j ∧ k * w + j < i * w + w) := by
  rintro ⟨above,under⟩
  rcases Nat.lt_or_gt_of_ne other with before | behind
  · have row : (k + 1) * w ≤ i * w := Nat.mul_le_mul_right w before
    rw [Nat.add_mul,Nat.one_mul] at row
    omega
  · have row : (i + 1) * w ≤ k * w := Nat.mul_le_mul_right w behind
    rw [Nat.add_mul,Nat.one_mul] at row
    omega

theorem element_put_other {i k : Nat} (v : BitVec w) (x : BitVec n) (other : k ≠ i) :
    element w k (put i v x) = element w k x := by
  refine BitVec.eq_of_getLsbD_eq fun j below => ?_
  rw [element_bit,element_bit]
  by_cases inside : k * w + j < n
  · rw [put_bit _ _ inside,if_neg (rows_apart other below)]
  · rw [BitVec.getLsbD_of_ge _ _ (Nat.le_of_not_lt inside),BitVec.getLsbD_of_ge _ _ (Nat.le_of_not_lt inside)]

theorem fill_succ (k : Nat) (f : Nat → BitVec w) (x : BitVec n) : fill (k + 1) f x = put k (f k) (fill k f x) := by
  simp [fill,List.range_succ]

theorem element_fill {k i : Nat} (f : Nat → BitVec w) (x : BitVec n) (inside : i < k) (fits : k * w ≤ n) :
    element w i (fill k f x) = f i := by
  induction k with
  | zero => omega
  | succ k ih =>
    rw [Nat.add_mul,Nat.one_mul] at fits
    rw [fill_succ]
    by_cases last : i = k
    · rw [last,element_put_same _ _ fits]
    · rw [element_put_other _ _ last,ih (by omega) (by omega)]

-- A loop that writes an element in some of its turns, wherever it wants
def scatter (m : Nat) (write : Nat → Option (Nat × BitVec w)) (x : BitVec n) : BitVec n :=
  (List.range m).foldl (fun word i => (write i).elim word fun p => put p.1 p.2 word) x

theorem scatter_succ (m : Nat) (write : Nat → Option (Nat × BitVec w)) (x : BitVec n) :
    scatter (m + 1) write x = (write m).elim (scatter m write x) fun p => put p.1 p.2 (scatter m write x) := by
  simp [scatter,List.range_succ]

theorem scatter_silent {m : Nat} {write : Nat → Option (Nat × BitVec w)} (x : BitVec n) {k : Nat}
    (silent : ∀ v, write m ≠ some (k,v)) : element w k (scatter (m + 1) write x) = element w k (scatter m write x) := by
  rw [scatter_succ]
  cases written : write m with
  | none => rfl
  | some p =>
    refine element_put_other _ _ ?_
    rintro rfl
    exact silent p.2 written

theorem element_scatter_other {m k : Nat} {write : Nat → Option (Nat × BitVec w)} (x : BitVec n)
    (never : ∀ i < m, ∀ v, write i ≠ some (k,v)) : element w k (scatter m write x) = element w k x := by
  induction m with
  | zero => rfl
  | succ m ih => rw [scatter_silent x (never m (by omega)),ih fun i before => never i (by omega)]

-- The last turn that writes an element decides it.
theorem element_scatter {m i k : Nat} {v : BitVec w} {write : Nat → Option (Nat × BitVec w)} (x : BitVec n) (inside : i < m)
    (here : write i = some (k,v)) (last : ∀ j < m, i < j → ∀ u, write j ≠ some (k,u)) (fits : k * w + w ≤ n) :
    element w k (scatter m write x) = v := by
  induction m with
  | zero => omega
  | succ m ih =>
    by_cases now : i = m
    · subst now
      rw [scatter_succ,here]
      exact element_put_same _ _ fits
    · rw [scatter_silent x (last m (by omega) (by omega))]
      exact ih (by omega) fun j before => last j (by omega)

theorem element_pack {k i : Nat} (f : Nat → BitVec w) (inside : i < k) (fits : k * w ≤ n) :
    element w i (pack n k f) = f i := element_fill f 0 inside fits

theorem element_slice {k l m slice : Nat} (rows : m * w = slice) (x : BitVec n) (inside : k < m) :
    element w k (x.extractLsb' (slice * l) slice) = element w (l * m + k) x := by
  have row : (k + 1) * w ≤ m * w := Nat.mul_le_mul_right w inside
  have place : (l * m + k) * w = slice * l + k * w := by
    rw [Nat.add_mul,Nat.mul_assoc,rows,Nat.mul_comm]
  rw [Nat.add_mul,Nat.one_mul,rows] at row
  refine BitVec.eq_of_getLsbD_eq fun j below => ?_
  have within : k * w + j < slice := by omega
  rw [element_bit,element_bit,BitVec.getLsbD_extractLsb',place,Nat.add_assoc]
  simp [within]

theorem element_setWidth {m k : Nat} (x : BitVec m) (fits : k * w + w ≤ n) : element w k (x.setWidth n) = element w k x := by
  refine BitVec.eq_of_getLsbD_eq fun j below => ?_
  have inside : k * w + j < n := by omega
  simp [element_bit,inside]

theorem element_low {v k : Nat} (x : BitVec n) (fits : k * w + w ≤ v) : element w k (x.extractLsb' 0 v) = element w k x := by
  refine BitVec.eq_of_getLsbD_eq fun j below => ?_
  have inside : k * w + j < v := by omega
  simp [element_bit,inside]

theorem element_shiftLeft {m k : Nat} (x : BitVec n) (fits : (m + k) * w + w ≤ n) :
    element w (m + k) (x <<< (m * w)) = element w k x := by
  refine BitVec.eq_of_getLsbD_eq fun j below => ?_
  have place : (m + k) * w = m * w + k * w := Nat.add_mul m k w
  have inside : (m + k) * w + j < n := by omega
  have above : ¬ (m + k) * w + j < m * w := by omega
  have rest : (m + k) * w + j - m * w = k * w + j := by omega
  rw [element_bit,BitVec.getLsbD_shiftLeft,rest,element_bit]
  simp only [inside,above,decide_true,decide_false,Bool.true_and,Bool.not_false]

theorem slice_succ (p j : Nat) (x : BitVec n) :
    (x.extractLsb' (p * w) ((j + 1) * w)).toNat =
      (x.extractLsb' (p * w) (j * w)).toNat + 2 ^ (j * w) * (element w (p + j) x).toNat := by
  have width : (j + 1) * w = j * w + w := by rw [Nat.add_mul,Nat.one_mul]
  have place : (p + j) * w = p * w + j * w := Nat.add_mul p j w
  simp only [element,BitVec.extractLsb'_toNat,Nat.shiftRight_eq_div_pow]
  rw [place,width,Nat.pow_add 2 (p * w),← Nat.div_div_eq_div_mul,Nat.pow_add 2 (j * w)]
  exact Nat.mod_mul

theorem slice_one (p : Nat) (x : BitVec n) : (x.extractLsb' (p * w) (1 * w)).toNat = (element w p x).toNat := by
  rw [Nat.one_mul]
  rfl

theorem element_group {m k e : Nat} {f : Nat → BitVec w} (within : e * m + m ≤ k) (fits : k * w ≤ n)
    (zero : ∀ j, 0 < j → j < m → f (e * m + j) = 0) :
    element (w * m) e (pack n k f) = (f (e * m)).setWidth (w * m) := by
  refine BitVec.eq_of_getLsbD_eq fun j below => ?_
  have positive : 0 < w := Nat.pos_of_ne_zero (by rintro rfl; omega)
  have row : j / w < m := Nat.div_lt_of_lt_mul below
  have offset := Nat.mod_lt j positive
  have place : e * (w * m) + j = (e * m + j / w) * w + j % w := by
    rw [Nat.add_mul,Nat.add_assoc,Nat.div_add_mod',Nat.mul_comm w m,Nat.mul_assoc]
  have bit := congrArg (fun x => x.getLsbD (j % w)) (element_pack f (by omega : e * m + j / w < k) fits)
  simp only [element_bit,offset,decide_true,Bool.true_and] at bit
  rw [element_bit,place,bit,BitVec.getLsbD_setWidth]
  by_cases first : j / w = 0
  · have small : j < w := by
      rcases (Nat.div_eq_zero_iff).mp first with none' | small
      · omega
      · exact small
    rw [first,Nat.mod_eq_of_lt small]
    rfl
  · have beyond : w ≤ j := by
      rcases Nat.lt_or_ge j w with small | beyond
      · exact absurd (Nat.div_eq_of_lt small) first
      · exact beyond
    rw [zero _ (Nat.pos_of_ne_zero first) row,BitVec.getLsbD_of_ge _ j beyond]
    simp

theorem msb_group {m e : Nat} (some' : 0 < m) (x : BitVec n) :
    (element w (e * m + (m - 1)) x).msb = (element (w * m) e x).msb := by
  rcases Nat.eq_zero_or_pos w with zero | positive
  · subst zero
    simp [BitVec.msb_eq_getLsbD_last]
  · have size : w * m = (m - 1) * w + w := by
      rw [← Nat.succ_mul,Nat.succ_eq_add_one,Nat.sub_add_cancel some',Nat.mul_comm]
    have place : (e * m + (m - 1)) * w + (w - 1) = e * (w * m) + (w * m - 1) := by
      rw [Nat.add_mul,Nat.mul_assoc,Nat.mul_comm m w,Nat.add_assoc]
      omega
    rw [BitVec.msb_eq_getLsbD_last,BitVec.msb_eq_getLsbD_last,element_bit,element_bit,place]
    simp [show w - 1 < w by omega,show w * m - 1 < w * m by omega]

theorem elements_ext {k : Nat} {x y : BitVec n} (covers : n ≤ k * w)
    (same : ∀ i < k, element w i x = element w i y) : x = y := by
  refine BitVec.eq_of_getLsbD_eq fun j below => ?_
  have positive : 0 < w := Nat.pos_of_ne_zero (by rintro rfl; omega)
  have row : j / w < k := Nat.div_lt_of_lt_mul (by rw [Nat.mul_comm]; omega)
  have offset := Nat.mod_lt j positive
  have place : j / w * w + j % w = j := Nat.div_add_mod' j w
  have bit := congrArg (fun e => e.getLsbD (j % w)) (same _ row)
  simpa only [element_bit,offset,decide_true,Bool.true_and,place] using bit

end Sargantana.Packed
