import Mathlib.Data.Nat.Log
import Mathlib.Data.List.Induction
import Sargantana.PseudoLru

-- Where the bits of pseudoLRU lead, and which entry it replaces.
namespace Sargantana.PlruReplacement
open PseudoLru

-- Down the tree, by its bits, from the node that stands at a place of a level
def follow (tree : Tree) : Nat → Nat → Nat → Nat
  | _, place, 0 => place
  | lvl, place, steps + 1 => follow tree (lvl + 1) (2 * place + (tree (2 ^ lvl - 1 + place)).toNat) steps

variable {levels : Nat} {tree : Tree}

theorem side_bit (levels : Nat) {lvl : Nat} (inside : lvl < levels) (i : Nat) :
    i / 2 ^ (levels - (lvl + 1)) = 2 * (i / 2 ^ (levels - lvl)) + (side levels lvl i).toNat := by
  have depth : levels - lvl = levels - (lvl + 1) + 1 := by omega
  have bit : (side levels lvl i).toNat = i / 2 ^ (levels - lvl - 1) % 2 := by
    rw [side]
    have small := Nat.mod_lt (i / 2 ^ (levels - lvl - 1)) (by decide : 0 < 2)
    by_cases one : i / 2 ^ (levels - lvl - 1) % 2 = 1
    · rw [decide_eq_true one,one]
      rfl
    · rw [decide_eq_false one]
      change 0 = _
      omega
  have next' : levels - lvl - 1 = levels - (lvl + 1) := by omega
  rw [bit,next',depth,Nat.pow_succ,← Nat.div_div_eq_div_mul]
  omega

theorem follow_agrees (tree : Tree) {i lvl : Nat} (steps : Nat) (depth : lvl + steps = levels)
    (agrees : ∀ l, lvl ≤ l → l < levels → tree (node levels l i) = side levels l i) :
    follow tree lvl (i / 2 ^ (levels - lvl)) steps = i := by
  induction steps generalizing lvl with
  | zero =>
      have last : levels - lvl = 0 := by omega
      rw [follow,last,Nat.pow_zero,Nat.div_one]
  | succ steps ih =>
      have here := agrees lvl (Nat.le_refl lvl) (by omega)
      have down := side_bit levels (by omega : lvl < levels) i
      rw [node] at here
      rw [follow,here,← down]
      exact ih (by omega) fun l after inside => agrees l (by omega) inside

theorem agrees_follow {i lvl place : Nat} (steps : Nat) (depth : lvl + steps = levels)
    (leads : follow tree lvl place steps = i) :
    i / 2 ^ steps = place ∧ ∀ l, lvl ≤ l → l < levels → tree (node levels l i) = side levels l i := by
  induction steps generalizing lvl place with
  | zero =>
      refine ⟨?_,?_⟩
      · rw [Nat.pow_zero,Nat.div_one]
        exact leads.symm
      · intro l after inside
        omega
  | succ steps ih =>
      obtain ⟨under,agrees⟩ := ih (by omega) leads
      have up : i / 2 ^ (steps + 1) = place := by
        rw [Nat.pow_succ,← Nat.div_div_eq_div_mul,under]
        cases tree (2 ^ lvl - 1 + place)
        · exact Nat.mul_div_cancel_left _ (by decide)
        · change (2 * place + 1) / 2 = place
          omega
      refine ⟨up,?_⟩
      intro l after inside
      obtain rfl | later := Nat.eq_or_lt_of_le after
      · have rows : levels - lvl = steps + 1 := by omega
        have low : levels - lvl - 1 = steps := by omega
        rw [node,side,rows,up,Nat.add_sub_cancel,under]
        cases tree (2 ^ lvl - 1 + place)
        · change false = decide ((2 * place + 0) % 2 = 1)
          rw [decide_eq_false (by omega)]
        · change true = decide ((2 * place + 1) % 2 = 1)
          rw [decide_eq_true (by omega)]
      · exact agrees l later inside

theorem replaceEn_follow {i : Nat} (inside : i < 2 ^ levels) : replaceEn levels tree i = true ↔ follow tree 0 0 levels = i := by
  have root : i / 2 ^ (levels - 0) = 0 := Nat.div_eq_of_lt inside
  rw [replaceEn,List.all_eq_true]
  constructor
  · intro all
    have leads := follow_agrees tree (i := i) levels (Nat.zero_add levels) fun l _ below =>
      beq_iff_eq.mp (all l (List.mem_range.mpr below))
    rwa [root] at leads
  · intro leads l below
    exact beq_iff_eq.mpr ((agrees_follow levels (Nat.zero_add levels) leads).2 l (Nat.zero_le l) (List.mem_range.mp below))

theorem replacement_follow {n : Nat} (fits : n ≤ 2 ^ levels) :
    ((List.range n).find? (replaceEn levels tree)).getD 0 = if follow tree 0 0 levels < n then follow tree 0 0 levels else 0 := by
  split
  · rename_i inside
    have found : (List.range n).find? (replaceEn levels tree) = some (follow tree 0 0 levels) := by
      rw [List.find?_range_eq_some]
      refine ⟨(replaceEn_follow (Nat.lt_of_lt_of_le inside fits)).mpr rfl,List.mem_range.mpr inside,?_⟩
      intro j before
      rw [Bool.not_eq_true',Bool.eq_false_iff,ne_eq,replaceEn_follow (by omega)]
      omega
    rw [found]
    rfl
  · rename_i outside
    have none' : (List.range n).find? (replaceEn levels tree) = none := by
      rw [List.find?_eq_none]
      intro j inside enabled
      rw [List.mem_range] at inside
      rw [replaceEn_follow (by omega)] at enabled
      omega
    rw [none']
    rfl

theorem replacement_val {n : Nat} [NeZero n] (fits : n ≤ 2 ^ levels) : (replacementIdx n levels tree).val =
    if follow tree 0 0 levels < n then follow tree 0 0 levels else 0 := by
  have positive := Nat.pos_of_neZero n
  rw [replacementIdx,replacement_follow fits,Fin.val_ofNat]
  refine Nat.mod_eq_of_lt ?_
  split
  · assumption
  · exact positive

-- The nodes of an entry lie on different levels of the tree.
theorem node_bounds {i lvl : Nat} (small : i < 2 ^ levels) (inside : lvl < levels) :
    2 ^ lvl - 1 ≤ node levels lvl i ∧ node levels lvl i < 2 ^ (lvl + 1) - 1 := by
  have place : i / 2 ^ (levels - lvl) < 2 ^ lvl := by
    rw [Nat.div_lt_iff_lt_mul (Nat.two_pow_pos _),← Nat.pow_add,Nat.add_sub_cancel' (Nat.le_of_lt inside)]
    exact small
  have positive := Nat.two_pow_pos lvl
  rw [node,Nat.pow_succ]
  generalize i / 2 ^ (levels - lvl) = side at place ⊢
  omega

theorem node_level {i a b : Nat} (small : i < 2 ^ levels) (one : a < levels) (two : b < levels)
    (same : node levels a i = node levels b i) : a = b := by
  obtain ⟨lowA,highA⟩ := node_bounds small one
  obtain ⟨lowB,highB⟩ := node_bounds small two
  have below : ∀ x y : Nat, x < y → 2 ^ (x + 1) ≤ 2 ^ y := fun x y less => Nat.pow_le_pow_right (by decide) less
  rcases Nat.lt_trichotomy a b with less | equal | more
  · have apart := below a b less
    omega
  · exact equal
  · have apart := below b a more
    omega

-- A hit turns every node of its entry away from it, and no other node.
theorem touch_node (tree : Tree) {i lvl : Nat} (small : i < 2 ^ levels) (inside : lvl < levels) :
    touch levels tree i (node levels lvl i) = !side levels lvl i := by
  have found : (List.range levels).find? (fun l => node levels l i == node levels lvl i) = some lvl := by
    rw [List.find?_range_eq_some]
    refine ⟨beq_self_eq_true _,List.mem_range.mpr inside,?_⟩
    intro l before
    rw [Bool.not_eq_true',beq_eq_false_iff_ne]
    intro same
    exact Nat.ne_of_lt before (node_level small (by omega) inside same)
  rw [touch,found]

theorem touch_other {i k : Nat} (away : ∀ l < levels, node levels l i ≠ k) : touch levels tree i k = tree k := by
  have none' : (List.range levels).find? (fun l => node levels l i == k) = none := by
    rw [List.find?_eq_none]
    intro l inside same
    exact away l (List.mem_range.mp inside) (beq_iff_eq.mp same)
  rw [touch,none']

theorem follow_touch (tree : Tree) {i : Nat} (some' : 0 < levels) (small : i < 2 ^ levels) : follow (touch levels tree i) 0 0 levels ≠ i := by
  intro leads
  have agrees := (agrees_follow levels (Nat.zero_add levels) leads).2 0 (Nat.le_refl 0) some'
  rw [touch_node tree small some'] at agrees
  cases bit : side levels 0 i <;> rw [bit] at agrees <;> cases agrees

theorem follow_right (steps lvl place : Nat) (right : 0 < place) (under : place < 2 ^ lvl) :
    follow (touch levels tree 0) lvl place steps = follow tree lvl place steps := by
  induction steps generalizing lvl place with
  | zero => rfl
  | succ steps ih =>
      have kept : touch levels tree 0 (2 ^ lvl - 1 + place) = tree (2 ^ lvl - 1 + place) := by
        apply touch_other
        intro l _ same
        rw [node,Nat.zero_div,Nat.add_zero] at same
        have positive := Nat.two_pow_pos l
        have more : 2 ^ lvl < 2 ^ l := by omega
        have above : lvl < l := (Nat.pow_lt_pow_iff_right (by decide)).mp more
        have far : 2 ^ (lvl + 1) ≤ 2 ^ l := Nat.pow_le_pow_right (by decide) above
        rw [Nat.pow_succ] at far
        omega
      have bit := Bool.toNat_le (tree (2 ^ lvl - 1 + place))
      rw [follow,kept,follow]
      exact ih (lvl + 1) _ (by omega) (by rw [Nat.pow_succ]; omega)

theorem follow_zero (some' : 0 < levels) : follow (touch levels tree 0) 0 0 levels = follow tree 1 1 (levels - 1) := by
  obtain ⟨steps,rfl⟩ := Nat.exists_eq_add_of_lt some'
  have root : touch (0 + steps + 1) tree 0 (2 ^ 0 - 1 + 0) = true := by
    have turned := touch_node tree (Nat.two_pow_pos (0 + steps + 1)) (Nat.succ_pos (0 + steps))
    rw [node,side,Nat.zero_div,Nat.zero_div] at turned
    exact turned
  rw [follow,root,Nat.add_sub_cancel]
  exact follow_right (0 + steps) 1 1 (by decide) (by decide)

-- One cycle: whether the storage has a hit, and which entry
structure Cycle (n : Nat) where
  hit : Bool
  idx : Fin n

-- The tree, the entry that was hit last, and the tree before that
structure Watched (n : Nat) where
  tree : Tree
  latest : Option (Fin n)
  before : Tree

def step (n : Nat) (w : Watched n) (c : Cycle n) : Watched n where
  tree := next (Nat.clog 2 n) w.tree c.hit c.idx.val
  latest := if c.hit then some c.idx else w.latest
  before := if c.hit then w.tree else w.before

def run (n : Nat) (tree : Tree) (cycles : List (Cycle n)) : Watched n := cycles.foldl (step n) ⟨tree,none,tree⟩

-- An entry other than 0 was hit last, or the bits on the right of the root led to an entry.
def Leads (n : Nat) (w : Watched n) (i : Fin n) : Prop := i.val ≠ 0 ∨ follow w.before 1 1 (Nat.clog 2 n - 1) < n

theorem run_latest (n : Nat) (tree : Tree) (cycles : List (Cycle n)) (i : Fin n) (last : (run n tree cycles).latest = some i) :
    (run n tree cycles).tree = touch (Nat.clog 2 n) (run n tree cycles).before i.val := by
  induction cycles using List.reverseRecOn with
  | nil => cases last
  | append_singleton cycles c ih =>
      rw [run,List.foldl_append] at last ⊢
      change (step n (run n tree cycles) c).latest = some i at last
      change (step n (run n tree cycles) c).tree = touch _ (step n (run n tree cycles) c).before i.val
      unfold step at last ⊢
      cases hit : c.hit with
      | true =>
          rw [hit,if_pos rfl] at last
          rw [if_pos rfl,next,if_pos rfl,Option.some.inj last]
          rfl
      | false =>
          rw [hit,if_neg Bool.false_ne_true] at last
          rw [if_neg Bool.false_ne_true,next,if_neg Bool.false_ne_true]
          exact ih last

-- Where the tree is full the bits always lead to an entry.
theorem full_leads {n : Nat} (full : n = 2 ^ Nat.clog 2 n) (several : 2 ≤ n) (w : Watched n) (i : Fin n) : Leads n w i := by
  refine .inr ?_
  have some' : 0 < Nat.clog 2 n := Nat.clog_pos (by decide) several
  have leads : follow w.before 1 1 (Nat.clog 2 n - 1) = follow w.before 1 1 (Nat.clog 2 n - 1) := rfl
  obtain ⟨under,_⟩ := agrees_follow _ (Nat.add_sub_cancel' some') leads
  have bound : follow w.before 1 1 (Nat.clog 2 n - 1) < 2 * 2 ^ (Nat.clog 2 n - 1) := by
    rw [← Nat.div_lt_iff_lt_mul (Nat.two_pow_pos _),under]
    decide
  have whole : 2 * 2 ^ (Nat.clog 2 n - 1) = 2 ^ Nat.clog 2 n := by
    rw [Nat.mul_comm,← Nat.pow_succ,Nat.succ_eq_add_one,Nat.sub_add_cancel some']
  omega

-- The replaced entry exists, and it is not the one that was hit last exactly when the bits lead to an entry.
theorem replacement_fresh (n : Nat) [NeZero n] (several : 2 ≤ n) (tree : Tree) (cycles : List (Cycle n)) :
    ((List.range n).find? (replaceEn (Nat.clog 2 n) (run n tree cycles).tree)).getD 0 < n ∧
      ∀ i, (run n tree cycles).latest = some i →
        (replacementIdx n (Nat.clog 2 n) (run n tree cycles).tree ≠ i ↔ Leads n (run n tree cycles) i) := by
  have fits : n ≤ 2 ^ Nat.clog 2 n := Nat.le_pow_clog (by decide) n
  have some' : 0 < Nat.clog 2 n := Nat.clog_pos (by decide) several
  refine ⟨?_,?_⟩
  · rw [replacement_follow fits]
    split
    · assumption
    · omega
  · intro i last
    have small : i.val < 2 ^ Nat.clog 2 n := Nat.lt_of_lt_of_le i.isLt fits
    rw [run_latest n tree cycles i last,ne_eq,Fin.ext_iff,replacement_val fits,Leads]
    by_cases zero : i.val = 0
    · rw [zero,follow_zero some']
      have away := follow_touch (run n tree cycles).before some' small
      rw [zero,follow_zero some'] at away
      split
      · rename_i inside
        exact iff_of_true away (.inr inside)
      · rename_i outside
        refine iff_of_false (fun other => other rfl) ?_
        rintro (other | inside)
        · exact other rfl
        · exact outside inside
    · refine iff_of_true ?_ (.inl zero)
      have away := follow_touch (run n tree cycles).before some' small
      split
      · exact away
      · exact fun same => zero same.symm

theorem clog_three : Nat.clog 2 3 = 2 := by decide

-- Entry 1 of three, then entry 0
theorem replacement_fresh_three : replacementIdx 3 (Nat.clog 2 3) (run 3 reset [⟨true,1⟩,⟨true,0⟩]).tree ≠ 0 := by
  refine ((replacement_fresh 3 (by decide) reset [⟨true,1⟩,⟨true,0⟩]).2 0 rfl).mpr (.inr ?_)
  change follow (next (Nat.clog 2 3) reset true 1) 1 1 (Nat.clog 2 3 - 1) < 3
  rw [clog_three]
  decide

-- Entry 2 of three, then entry 0: the bits lead past the last entry.
theorem latest_replaced : ¬ ∀ (n : Nat) [NeZero n], 2 ≤ n → ∀ (tree : Tree) (cycles : List (Cycle n)) (i : Fin n),
    (run n tree cycles).latest = some i → replacementIdx n (Nat.clog 2 n) (run n tree cycles).tree ≠ i := by
  intro every
  have other := every 3 (by decide) reset [⟨true,2⟩,⟨true,0⟩] 0 rfl
  change replacementIdx 3 (Nat.clog 2 3) (next (Nat.clog 2 3) (next (Nat.clog 2 3) reset true 2) true 0) ≠ 0 at other
  rw [clog_three] at other
  revert other
  decide

end Sargantana.PlruReplacement
