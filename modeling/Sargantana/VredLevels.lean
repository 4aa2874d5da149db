import Sargantana.Vredtree
import Mathlib.Data.Nat.Find

-- The registers of vredtree are the levels of a tree over the elements of vs2.
namespace Sargantana.VredLevels
open DracPkg MExtension Sargantana.Packed ReductionTree Vredtree
open ScoreBoardSimd (isVred)
open Vdiv (bits)

theorem flag_pack {n k j : Nat} (f : Nat → Bool) (inside : j < k) (fits : k ≤ n) :
    (pack n k fun j => BitVec.ofBool (f j)).getLsbD j = f j := by
  have bit := congrArg (fun e => e.getLsbD 0) (element_pack (n := n) (fun j => BitVec.ofBool (f j)) inside (by omega))
  rw [element_bit] at bit
  simpa using bit

def operand (i : Nat) (q : Node) (k : Nat) : BitVec (bits q.sew) :=
  if isVw q.instrType = true ∧ i = 1 then half q k else whole q k

def operands (i : Nat) (q : Node) (k : Nat) : Option (BitVec (bits q.sew)) :=
  if q.mask.getLsbD k then some (operand i q k) else none

def values (w : Nat) (q : Node) (k : Nat) : Option (BitVec w) :=
  if q.mask.getLsbD k then some (element w k q.intermediate) else none

structure Known (q : Node) : Prop where
  kind : isVred q.instrType = true
  wide : isVw q.instrType = true → q.sew ≠ 0

def stored (i : Nat) (q : Node) (j : Nat) : BitVec (bits q.sew) :=
  match left q j, right q j with
  | false, false => 0
  | true, false => single i q j (2 * j)
  | false, true => single i q j (2 * j + 1)
  | true, true => reduction q.instrType (operand i q (2 * j)) (operand i q (2 * j + 1))

section
variable {i j : Nat} {q : Node} (known : Known q)
include known

theorem both_exact : both i q j = some (reduction q.instrType (operand i q (2 * j)) (operand i q (2 * j + 1))) := by
  have exact' : ∀ x y : BitVec (bits q.sew), combineOut q.instrType x y = some (reduction q.instrType x y) :=
    combineOut_exact known.kind
  rw [both,← exact',combineOut,operand,operand]
  cases wide : isVw q.instrType with
  | true =>
    rw [if_pos rfl,if_pos rfl,if_neg (known.wide wide)]
    by_cases first : i = 1
    · rw [if_pos first,if_pos ⟨rfl,first⟩,if_pos ⟨rfl,first⟩]
    · rw [if_neg first,if_neg fun both => first both.2,if_neg fun both => first both.2]
  | false => simp

theorem store_exact (word : BitVec 128) :
    store i q word j = if inRange i q j then put j (stored i q j) word else word := by
  rw [store,both_exact known,stored]
  cases left q j <;> cases right q j <;> rfl

theorem element_stores {n : Nat} (inside : j < n) (range : inRange i q j = true)
    (fits : j * bits q.sew + bits q.sew ≤ 128) :
    element (bits q.sew) j ((List.range n).foldl (store i q) 0) = stored i q j := by
  induction n with
  | zero => omega
  | succ n ih =>
    rw [List.range_succ,List.foldl_append,List.foldl_cons,List.foldl_nil,store_exact known]
    by_cases last : j = n
    · rw [← last,if_pos range,element_put_same _ _ fits]
    · have before := ih (by omega)
      cases inRange i q n with
      | true => rw [if_pos rfl,element_put_other _ _ last,before]
      | false => rw [if_neg Bool.false_ne_true,before]

end

theorem range_fits {i j : Nat} {q : Node} (later : 1 ≤ i) (inside : j < 8) (range : inRange i q j = true) :
    j * bits q.sew + bits q.sew ≤ 128 := by
  have halves : 128 >>> i ≤ 64 := by
    rw [Nat.shiftRight_eq_div_pow]
    exact Nat.div_le_of_le_mul (by have := Nat.pow_le_pow_right (show 0 < 2 by decide) later; omega)
  have rows : ∀ (sew : Fin 4) (j : Fin 8), (j.val * bits sew < 64 ∨ j.val * (bits sew / 2) < 64) →
    j.val * bits sew + bits sew ≤ 128 := by decide
  refine rows q.sew ⟨j,inside⟩ ?_
  simp only [inRange,lower,upper,Bool.or_eq_true,Bool.and_eq_true,decide_eq_true_eq] at range
  rcases range with low | ⟨⟨_,high⟩,_⟩
  · exact .inl (Nat.lt_of_lt_of_le low halves)
  · exact .inr (Nat.lt_of_lt_of_le high halves)

-- An element that comes alone is the operand, or both come.
def Sound (i : Nat) (q : Node) (j : Nat) : Prop := left q j = right q j ∨ ∀ k, single i q j k = operand i q k

section
variable {i j : Nat} {q : Node} (later : 1 ≤ i) (inside : j < 8) (range : inRange i q j = true)
include later inside range

theorem values_advance (known : Known q) : values (bits q.sew) (advance i q) j =
    if left q j || right q j then some (stored i q j) else none := by
  have word : element (bits q.sew) j (advance i q).intermediate = stored i q j :=
    element_stores known inside range (range_fits later inside range)
  have flag : (advance i q).mask.getLsbD j = (inRange i q j && (left q j || right q j)) := flag_pack _ inside (by decide)
  rw [values,flag,word,range,Bool.true_and]

-- One stage is one level of the tree.
theorem level_advance (known : Known q) (sound : Sound i q j) :
    values (bits q.sew) (advance i q) j = level (reduction q.instrType) (operands i q) j := by
  rw [values_advance later inside range known,stored,level,operands,operands,← left,← right]
  cases first : left q j <;> cases second : right q j
  · rfl
  · have same := sound.resolve_left (by rw [first,second]; decide)
    exact congrArg some (same _)
  · have same := sound.resolve_left (by rw [first,second]; decide)
    exact congrArg some (same _)
  · rfl

end

def chain (i : Input) : Nat → Node
  | 0 => first i
  | k + 1 => advance (k + 1) (chain i k)

theorem chain_keeps (i : Input) (k : Nat) : (chain i k).sew = nodeSew i.instrType i.sew ∧
    (chain i k).instrType = i.instrType ∧ (chain i k).dataVs1 = i.dataVs1 := by
  induction k with
  | zero => exact ⟨rfl,rfl,rfl⟩
  | succ k ih => exact ih

theorem increase_half {sew : Fin 4} (narrow : sew ≠ 3) : bits (increaseSewSize sew) / 2 = bits sew := by
  have rows : ∀ sew : Fin 4, sew ≠ 3 → bits (increaseSewSize sew) / 2 = bits sew := by decide
  exact rows sew narrow

theorem increase_positive (sew : Fin 4) : increaseSewSize sew ≠ 0 := by
  have rows : ∀ sew : Fin 4, increaseSewSize sew ≠ 0 := by decide
  exact rows sew

theorem chain_known {i : Input} (kind : isVred i.instrType = true) (k : Nat) : Known (chain i k) := by
  obtain ⟨sew,type,_⟩ := chain_keeps i k
  constructor
  · rw [type]; exact kind
  · rw [type,sew,nodeSew]
    intro wide
    rw [if_pos wide]
    exact increase_positive i.sew

section
variable {i : Input} (narrow : isVw i.instrType = true → i.sew ≠ 3)
include narrow

-- The registers are wide enough for the elements that are left.
theorem chain_range {k j : Nat} (stages : k + 1 ≤ 4 - i.sew.val) (inside : j < 2 ^ (4 - i.sew.val - (k + 1))) :
    j < 8 ∧ inRange (k + 1) (chain i k) j = true := by
  obtain ⟨sew,type,_⟩ := chain_keeps i k
  have few : 2 ^ (4 - i.sew.val - (k + 1)) ≤ 2 ^ 3 := Nat.pow_le_pow_right (by decide) (by omega)
  have eight : j < 8 := by omega
  have rows : ∀ (sew k : Fin 4) (j : Fin 8), k.val + 1 ≤ 4 - sew.val → j.val < 2 ^ (4 - sew.val - (k.val + 1)) →
    j.val * bits sew < 128 >>> (k.val + 1) := by decide
  have row := rows i.sew ⟨k,by omega⟩ ⟨j,eight⟩ stages inside
  refine ⟨eight,?_⟩
  rw [inRange,lower,upper,sew,type,nodeSew]
  cases wide : isVw i.instrType with
  | true =>
    rw [if_pos rfl,increase_half (narrow wide),decide_eq_true row,Bool.and_true,Bool.and_true,bne_iff_ne.mpr (increase_positive i.sew),
      Bool.or_true]
  | false => rw [if_neg Bool.false_ne_true,decide_eq_true row,Bool.true_or]

variable (kind : isVred i.instrType = true)
include kind

-- After the first stage nothing is extended.
theorem chain_level {k j : Nat} (stages : k + 2 ≤ 4 - i.sew.val) (inside : j < 2 ^ (4 - i.sew.val - (k + 2))) :
    values (bits (nodeSew i.instrType i.sew)) (chain i (k + 2)) j =
      level (reduction i.instrType) (values (bits (nodeSew i.instrType i.sew)) (chain i (k + 1))) j := by
  obtain ⟨eight,range⟩ := chain_range (k := k + 1) narrow stages inside
  obtain ⟨sew,type,_⟩ := chain_keeps i (k + 1)
  have plain : ∀ m, operand (k + 2) (chain i (k + 1)) m = whole (chain i (k + 1)) m :=
    fun m => if_neg fun both => absurd both.2 (by omega)
  have sound : Sound (k + 2) (chain i (k + 1)) j := by
    refine .inr fun m => ?_
    rw [plain,single,if_neg (show ¬ k + 2 = 1 by omega),ite_self]
  have step := level_advance (by omega) eight range (chain_known kind (k + 1)) sound
  have read : operands (k + 2) (chain i (k + 1)) = values (bits (chain i (k + 1)).sew) (chain i (k + 1)) := by
    funext m
    rw [operands,values,plain]
    rfl
  rw [read,type,sew] at step
  exact step

theorem chain_levels {m j : Nat} (stages : m + 1 ≤ 4 - i.sew.val) (inside : j < 2 ^ (4 - i.sew.val - (m + 1))) :
    values (bits (nodeSew i.instrType i.sew)) (chain i (m + 1)) j =
      (level (reduction i.instrType))^[m] (values (bits (nodeSew i.instrType i.sew)) (chain i 1)) j := by
  induction m generalizing j with
  | zero => rfl
  | succ m ih =>
    have double : 2 ^ (4 - i.sew.val - (m + 1)) = 2 * 2 ^ (4 - i.sew.val - (m + 1 + 1)) := by
      rw [← Nat.pow_succ']
      congr 1
      omega
    rw [chain_level narrow kind stages inside,Function.iterate_succ_apply',level,level,ih (by omega) (by omega),
      ih (by omega) (by omega)]

theorem chain_root : values (bits (nodeSew i.instrType i.sew)) (chain i (4 - i.sew.val)) 0 =
    total (reduction i.instrType) (values (bits (nodeSew i.instrType i.sew)) (chain i 1)) (2 ^ (3 - i.sew.val)) := by
  have last : 4 - i.sew.val = 3 - i.sew.val + 1 := by have := i.sew.isLt; omega
  rw [last,chain_levels narrow kind (by omega) (Nat.two_pow_pos _),root_total]

end

section
variable {i : Input} (narrow : isVw i.instrType = true → i.sew ≠ 3) (kind : isVred i.instrType = true)
include narrow kind

-- The output of the register that the instruction is in is the reduction of what the first
-- stage left.
theorem output_reduce {s : State} (here : s (stageToOut i.instrType i.sew) = chain i (4 - i.sew.val)) (old : BitVec 128) :
    element (bits (nodeSew i.instrType i.sew)) 0 (redDataVd s i.instrType i.sew old) =
      reduce (reduction i.instrType) (element (bits (nodeSew i.instrType i.sew)) 0 i.dataVs1)
        (values (bits (nodeSew i.instrType i.sew)) (chain i 1)) (2 ^ (3 - i.sew.val)) := by
  obtain ⟨_,type,scalar⟩ := chain_keeps i (4 - i.sew.val)
  have root := chain_root narrow kind
  rw [redDataVd,here,type,scalar]
  generalize nodeSew i.instrType i.sew = sew at root
  have fits : 0 * bits sew + bits sew ≤ 128 := by
    have rows : ∀ sew : Fin 4, 0 * bits sew + bits sew ≤ 128 := by decide
    exact rows sew
  refine Option.some.inj ?_
  rw [reduce_total,← root,values]
  cases flag : (chain i (4 - i.sew.val)).mask.getLsbD 0 with
  | true =>
    rw [if_pos rfl,combineOut_exact kind,if_pos rfl,Option.merge_some_some,reduction_comm]
    exact congrArg some (element_put_same _ _ fits)
  | false =>
    rw [if_neg Bool.false_ne_true,if_neg Bool.false_ne_true,Option.merge_none_right]
    exact congrArg some (element_put_same _ _ fits)

end

theorem extend_reading {n : Nat} (t : InstrType) (w : Nat) (x : BitVec n) :
    extend t w x = BitVec.ofInt w (reading (t != .vwredsumu) x) := by
  cases unsigned : t == .vwredsumu with
  | true =>
    rw [extend,unsigned,if_pos rfl,bne,unsigned]
    exact ((BitVec.ofInt_natCast w x.toNat).trans (BitVec.ofNat_toNat w x)).symm
  | false =>
    rw [extend,unsigned,if_neg Bool.false_ne_true,bne,unsigned]
    rfl

section
variable {i : Input} (narrow : isVw i.instrType = true → i.sew ≠ 3)
include narrow

theorem first_operands {k : Nat} (inside : k < 16) : operands 1 (first i) k = leaf (bits (nodeSew i.instrType i.sew)) i k := by
  have flag : (first i).mask.getLsbD k = active i.dataVm i.vl k := flag_pack _ inside (by decide)
  have reads : operand 1 (first i) k = BitVec.ofInt (bits (nodeSew i.instrType i.sew))
      (reading (i.instrType != .vwredsumu) (element (bits i.sew) k i.dataVs2)) := by
    by_cases wide : isVw i.instrType = true
    · have same : bits (nodeSew i.instrType i.sew) / 2 = bits i.sew := by
        rw [nodeSew,if_pos wide]
        exact increase_half (narrow wide)
      have extended : extend i.instrType (bits (nodeSew i.instrType i.sew))
          (element (bits (nodeSew i.instrType i.sew) / 2) k i.dataVs2) = BitVec.ofInt (bits (nodeSew i.instrType i.sew))
            (reading (i.instrType != .vwredsumu) (element (bits i.sew) k i.dataVs2)) := by rw [same,extend_reading]
      exact Eq.trans (if_pos ⟨wide,rfl⟩) extended
    · have same : nodeSew i.instrType i.sew = i.sew := if_neg wide
      have plain : element (bits (nodeSew i.instrType i.sew)) k i.dataVs2 = BitVec.ofInt (bits (nodeSew i.instrType i.sew))
          (reading (i.instrType != .vwredsumu) (element (bits i.sew) k i.dataVs2)) := by rw [same,Saturation.ofInt_reading]
      exact Eq.trans (if_neg fun both => wide both.1) plain
  rw [operands,flag,leaf,reads]
  rfl

end

theorem rvv_pairs (w : Nat) (i : Input) : rvv w i =
    reduce (reduction i.instrType) (element w 0 i.dataVs1) (level (reduction i.instrType) (leaf w i)) (2 ^ (3 - i.sew.val)) := by
  have rows : ∀ sew : Fin 4, 128 / bits sew = 2 * 2 ^ (3 - sew.val) := by decide
  rw [rvv,reduce_level,rows]

-- Both elements of a pair are active or none is.
def Whole (i : Input) (j : Nat) : Prop := active i.dataVm i.vl (2 * j) = active i.dataVm i.vl (2 * j + 1)

section
variable {i : Input} (narrow : isVw i.instrType = true → i.sew ≠ 3) {j : Nat} (inside : j < 2 ^ (3 - i.sew.val))
include narrow inside

theorem first_range : j < 8 ∧ inRange 1 (first i) j = true := by
  have count : 4 - i.sew.val - (0 + 1) = 3 - i.sew.val := by omega
  exact chain_range (k := 0) narrow (by omega) (count ▸ inside)

-- A widening sum takes the elements of its lower half as they are read where the pairs are whole.
theorem first_level (kind : isVred i.instrType = true)
    (whole : isVw i.instrType = true → j < 32 / bits i.sew → Whole i j) :
    values (bits (nodeSew i.instrType i.sew)) (chain i 1) j =
      level (reduction i.instrType) (leaf (bits (nodeSew i.instrType i.sew)) i) j := by
  obtain ⟨eight,range⟩ := first_range narrow inside
  have rows : ∀ (sew : Fin 4) (j : Fin 8), sew ≠ 3 → ¬ j.val < 32 / bits sew → ¬ j.val * bits (increaseSewSize sew) < 128 >>> 1 := by
    decide
  have sound : Sound 1 (first i) j := by
    by_cases wide : isVw i.instrType = true
    · by_cases low : j < 32 / bits i.sew
      · refine .inl ?_
        rw [left,right,show (first i).mask.getLsbD (2 * j) = _ from flag_pack _ (by omega) (by decide),
          show (first i).mask.getLsbD (2 * j + 1) = _ from flag_pack _ (by omega) (by decide)]
        exact whole wide low
      · refine .inr fun k => ?_
        have high : lower 1 (first i) j = false := by
          rw [lower,show (first i).sew = nodeSew i.instrType i.sew from rfl,nodeSew,if_pos wide]
          exact decide_eq_false (rows i.sew ⟨j,eight⟩ (narrow wide) low)
        rw [single,high,if_neg Bool.false_ne_true,if_pos rfl]
        exact (if_pos ⟨wide,rfl⟩).symm
    · refine .inr fun k => ?_
      have plain : operand 1 (first i) k = Vredtree.whole (first i) k := if_neg fun both => wide both.1
      have low : lower 1 (first i) j = true := by
        rw [inRange,upper,show isVw (first i).instrType = false from Bool.eq_false_iff.mpr wide,Bool.and_false,Bool.or_false] at range
        exact range
      rw [single,low,if_pos rfl,plain]
  have step := level_advance (Nat.le_refl 1) eight range (chain_known kind 0) sound
  refine step.trans ?_
  rw [level,level,first_operands narrow (by omega),first_operands narrow (by omega)]
  rfl

end

section
variable {i : Input} (wide : isVw i.instrType = true) (narrow : i.sew ≠ 3)
include wide

theorem widening_adds {w : Nat} (x y : BitVec w) : reduction i.instrType x y = x + y := by
  generalize i.instrType = t at wide
  cases t <;> first | rfl | exact absurd wide Bool.false_ne_true

theorem reduce_nothing {w n : Nat} (a : BitVec w) {f : Nat → Option (BitVec w)} (nothing : ∀ k v, f k = some v → v = 0) :
    reduce (reduction i.instrType) a f n = a := by
  induction n with
  | zero => rfl
  | succ n ih =>
    rw [reduce,ih]
    cases value : f n with
    | none => rfl
    | some v =>
      rw [nothing n v value,Option.elim_some,widening_adds wide]
      exact BitVec.add_zero a

def lone (i : Input) (j : Nat) : Nat := if active i.dataVm i.vl (2 * j) then 2 * j else 2 * j + 1

include narrow

-- The active one of a pair that is not whole is taken with its neighbour as one element of the result.
theorem lone_taken {j : Nat} (low : j < 32 / bits i.sew) (partly : ¬ Whole i j) :
    values (bits (nodeSew i.instrType i.sew)) (chain i 1) j =
      some (element (bits (nodeSew i.instrType i.sew)) (lone i j) i.dataVs2) := by
  have rows : ∀ (sew : Fin 4), sew ≠ 3 → 32 / bits sew ≤ 2 ^ (3 - sew.val) ∧
    ∀ j < 32 / bits sew, j * bits (increaseSewSize sew) < 128 >>> 1 := by decide
  obtain ⟨few,below⟩ := rows i.sew narrow
  obtain ⟨eight,range⟩ := first_range (fun _ => narrow) (Nat.lt_of_lt_of_le low few)
  have kind : isVred i.instrType = true := by
    generalize i.instrType = t at wide
    cases t <;> first | rfl | exact absurd wide Bool.false_ne_true
  have lower' : lower 1 (first i) j = true := by
    rw [lower,show (first i).sew = nodeSew i.instrType i.sew from rfl,nodeSew,if_pos wide]
    exact decide_eq_true (below j low)
  have flags : left (first i) j = active i.dataVm i.vl (2 * j) ∧ right (first i) j = active i.dataVm i.vl (2 * j + 1) :=
    ⟨flag_pack _ (by omega) (by decide),flag_pack _ (by omega) (by decide)⟩
  have step := values_advance (Nat.le_refl 1) eight range (chain_known kind 0)
  refine step.trans ?_
  rw [stored,single,single,lower',if_pos rfl,if_pos rfl,flags.1,flags.2,lone]
  unfold Whole at partly
  cases one : active i.dataVm i.vl (2 * j) <;> cases two : active i.dataVm i.vl (2 * j + 1)
  · exact absurd (one.trans two.symm) partly
  · rfl
  · rfl
  · exact absurd (one.trans two.symm) partly

end

theorem lone_read (w : Nat) (i : Input) {j : Nat} (partly : ¬ Whole i j) : level (reduction i.instrType) (leaf w i) j =
    some (BitVec.ofInt w (reading (i.instrType != .vwredsumu) (element (bits i.sew) (lone i j) i.dataVs2))) := by
  unfold Whole at partly
  rw [level,leaf,leaf,lone]
  cases one : active i.dataVm i.vl (2 * j) <;> cases two : active i.dataVm i.vl (2 * j + 1)
  · exact absurd (one.trans two.symm) partly
  · rfl
  · rfl
  · exact absurd (one.trans two.symm) partly

theorem element_double {n b w : Nat} (same : w = b + b) (k : Nat) (x : BitVec n) :
    (element w k x).toNat = (element b (2 * k) x).toNat + 2 ^ b * (element b (2 * k + 1) x).toNat := by
  have parts := slice_succ (w := b) (2 * k) 1 x
  rw [slice_one,Nat.one_mul] at parts
  rw [← parts]
  have place : k * w = 2 * k * b := by rw [same,Nat.mul_add,Nat.mul_comm 2 k,Nat.mul_assoc,Nat.two_mul,Nat.mul_add]
  have span : w = (1 + 1) * b := by rw [same,Nat.add_mul,Nat.one_mul]
  simp only [element,BitVec.extractLsb'_toNat]
  rw [place,span]

theorem last_partly {i : Input} {j : Nat} (low : j < 32 / bits i.sew) (partly : ¬ Whole i j) :
    ∃ J < 32 / bits i.sew, ¬ Whole i J ∧ ∀ j, J < j → j < 32 / bits i.sew → Whole i j := by
  classical
  have greatest := Nat.findGreatest_spec (P := fun j => j < 32 / bits i.sew ∧ ¬ Whole i j) (Nat.le_of_lt low) ⟨low,partly⟩
  refine ⟨_,greatest.1,greatest.2,fun j behind inside => ?_⟩
  have none := Nat.findGreatest_is_greatest (P := fun j => j < 32 / bits i.sew ∧ ¬ Whole i j) behind (Nat.le_of_lt inside)
  exact not_not.mp fun partly' => none ⟨inside,partly'⟩

-- One bit of vs2 above the last pair that is not whole
def above (i : Input) (J : Nat) : Nat := 2 * lone i J + 1

def shown (i : Input) (J : Nat) : BitVec 128 := put (above i J) (1 : BitVec (bits i.sew)) 0

theorem lone_bounds (i : Input) (j : Nat) : 2 * j ≤ lone i j ∧ lone i j ≤ 2 * j + 1 := by
  rw [lone]
  split <;> omega

section
variable {i : Input} {J : Nat} (word : i.dataVs2 = shown i J)
include word

theorem shown_other {e : Nat} (other : e ≠ above i J) : element (bits i.sew) e i.dataVs2 = 0 := by
  rw [word,shown,element_put_other _ _ other]
  exact BitVec.extractLsb'_zero

theorem shown_same (narrow : i.sew ≠ 3) (low : J < 32 / bits i.sew) : element (bits i.sew) (above i J) i.dataVs2 = 1 := by
  have rows : ∀ sew : Fin 4, sew ≠ 3 → 4 * (32 / bits sew) * bits sew = 128 := by decide
  have last : above i J + 1 ≤ 4 * (32 / bits i.sew) := by
    have := lone_bounds i J
    rw [above]
    omega
  have fits : (above i J + 1) * bits i.sew ≤ 128 := rows i.sew narrow ▸ Nat.mul_le_mul_right (bits i.sew) last
  rw [Nat.add_mul,Nat.one_mul] at fits
  rw [word]
  exact element_put_same _ _ fits

-- The sum that the stages leave is above the one that is asked for.
theorem shown_differs (wide : isVw i.instrType = true) (narrow : i.sew ≠ 3) (low : J < 32 / bits i.sew) (partly : ¬ Whole i J)
    (last : ∀ j, J < j → j < 32 / bits i.sew → Whole i j) (a : BitVec (bits (nodeSew i.instrType i.sew))) :
    reduce (reduction i.instrType) a (values (bits (nodeSew i.instrType i.sew)) (chain i 1)) (2 ^ (3 - i.sew.val)) ≠
      reduce (reduction i.instrType) a (level (reduction i.instrType) (leaf (bits (nodeSew i.instrType i.sew)) i))
        (2 ^ (3 - i.sew.val)) := by
  have double : bits (nodeSew i.instrType i.sew) = bits i.sew + bits i.sew := by
    have rows : ∀ sew : Fin 4, sew ≠ 3 → bits (increaseSewSize sew) = bits sew + bits sew := by decide
    rw [nodeSew,if_pos wide,rows i.sew narrow]
  have few : 32 / bits i.sew ≤ 2 ^ (3 - i.sew.val) := by
    have rows : ∀ sew : Fin 4, 32 / bits sew ≤ 2 ^ (3 - sew.val) := by decide
    exact rows i.sew
  have kind : isVred i.instrType = true := by
    generalize i.instrType = t at wide
    cases t <;> first | rfl | exact absurd wide Bool.false_ne_true
  have nothing : ∀ {k}, k ≠ above i J → BitVec.ofInt (bits (nodeSew i.instrType i.sew))
      (reading (i.instrType != .vwredsumu) (element (bits i.sew) k i.dataVs2)) = 0 := by
    intro k other
    rw [shown_other word other]
    cases i.instrType != .vwredsumu <;> simp [reading]
  have bounds := lone_bounds i J
  have more : (element (bits (nodeSew i.instrType i.sew)) (lone i J) i.dataVs2).toNat = 2 ^ bits i.sew := by
    rw [element_double double,shown_other word (by rw [above]; omega),← above,shown_same word narrow low]
    have positive : ∀ sew : Fin 4, (1 : BitVec (bits sew)).toNat = 1 := by decide
    rw [positive]
    simp
  have here : values (bits (nodeSew i.instrType i.sew)) (chain i 1) J =
      some (reduction i.instrType 0 (element (bits (nodeSew i.instrType i.sew)) (lone i J) i.dataVs2)) := by
    rw [lone_taken wide narrow low partly,widening_adds wide]
    simp
  have there : level (reduction i.instrType) (leaf (bits (nodeSew i.instrType i.sew)) i) J = some 0 := by
    rw [lone_read _ i partly,nothing (by rw [above]; omega)]
  have same : ∀ j < 2 ^ (3 - i.sew.val), j ≠ J → values (bits (nodeSew i.instrType i.sew)) (chain i 1) j =
      level (reduction i.instrType) (leaf (bits (nodeSew i.instrType i.sew)) i) j := by
    intro j inside other
    by_cases bad : j < 32 / bits i.sew ∧ ¬ Whole i j
    · have before : j < J := by
        rcases Nat.lt_or_gt_of_ne other with lower | higher
        · exact lower
        · exact absurd (last j higher bad.1) bad.2
      have near := lone_bounds i j
      have zero : element (bits (nodeSew i.instrType i.sew)) (lone i j) i.dataVs2 = 0 := by
        refine BitVec.eq_of_toNat_eq ?_
        rw [element_double double,shown_other word (by rw [above]; omega),shown_other word (by rw [above]; omega)]
        simp
      rw [lone_taken wide narrow bad.1 bad.2,lone_read _ i bad.2,nothing (by rw [above]; omega),zero]
    · exact first_level (fun _ => narrow) inside kind fun _ under => not_not.mp fun partly' => bad ⟨under,partly'⟩
  rw [reduce_differs (Nat.lt_of_lt_of_le low few) here there same,widening_adds wide]
  intro equal
  rw [BitVec.add_right_eq_self.mp equal] at more
  have positive := Nat.two_pow_pos (bits i.sew)
  rw [BitVec.toNat_ofNat,Nat.zero_mod] at more
  omega

end

end Sargantana.VredLevels
