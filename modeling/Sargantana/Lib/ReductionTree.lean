import Mathlib.Algebra.GroupWithZero.Nat
import Mathlib.Logic.Function.Iterate

-- Values of which some are missing, reduced by a tree that halves their number at each level.
namespace Sargantana.ReductionTree

variable {α : Type} (op : α → α → α)

-- Two neighbours become one; where one is missing the other is taken as it is.
def level (f : Nat → Option α) (j : Nat) : Option α := Option.merge op (f (2 * j)) (f (2 * j + 1))

def total (f : Nat → Option α) : Nat → Option α
  | 0 => none
  | n + 1 => Option.merge op (total f n) (f n)

-- The same with a value that is always there before them
def reduce (a : α) (f : Nat → Option α) : Nat → α
  | 0 => a
  | n + 1 => (f n).elim (reduce a f n) (op (reduce a f n))

variable {op} {f g : Nat → Option α} {a d : α} {n : Nat}

theorem total_one : total op f 1 = f 0 := Option.merge_none_left

section
variable [Std.Associative op]

theorem merge_assoc (x y z : Option α) :
    Option.merge op (Option.merge op x y) z = Option.merge op x (Option.merge op y z) := Std.Associative.assoc x y z

theorem total_level (n : Nat) : total op (level op f) n = total op f (2 * n) := by
  induction n with
  | zero => rfl
  | succ n ih =>
    change Option.merge op (total op (level op f) n) (Option.merge op (f (2 * n)) (f (2 * n + 1))) =
      Option.merge op (Option.merge op (total op f (2 * n)) (f (2 * n))) (f (2 * n + 1))
    rw [ih,merge_assoc]

-- The root of the tree is the total of its leaves.
theorem root_total (k : Nat) : (level op)^[k] f 0 = total op f (2 ^ k) := by
  induction k generalizing f with
  | zero => exact total_one.symm
  | succ k ih => rw [Function.iterate_succ_apply,ih,total_level,Nat.pow_succ']

theorem reduce_total (n : Nat) : some (reduce op a f n) = Option.merge op (some a) (total op f n) := by
  induction n with
  | zero => rfl
  | succ n ih =>
    rw [total,← merge_assoc,← ih,reduce]
    cases f n <;> rfl

theorem reduce_level (n : Nat) : reduce op a (level op f) n = reduce op a f (2 * n) := by
  refine Option.some.inj ?_
  rw [reduce_total,reduce_total,total_level]

end

theorem reduce_congr (same : ∀ j < n, f j = g j) : reduce op a f n = reduce op a g n := by
  induction n with
  | zero => rfl
  | succ n ih => rw [reduce,reduce,ih fun j inside => same j (by omega),same n (Nat.lt_succ_self n)]

theorem reduce_differs [Std.Associative op] [Std.Commutative op] {J : Nat} {v : α} (inside : J < n)
    (here : f J = some (op v d)) (there : g J = some v) (same : ∀ j < n, j ≠ J → f j = g j) :
    reduce op a f n = op (reduce op a g n) d := by
  induction n with
  | zero => omega
  | succ n ih =>
    rw [reduce,reduce]
    by_cases last : J = n
    · have before : reduce op a f n = reduce op a g n := reduce_congr fun j lower => same j (by omega) (by omega)
      rw [← last,here,there,last,before]
      exact (Std.Associative.assoc _ _ _).symm
    · rw [same n (Nat.lt_succ_self n) (Ne.symm last),ih (by omega) fun j lower => same j (by omega)]
      cases g n with
      | none => rfl
      | some w =>
        have turn : op d w = op w d := Std.Commutative.comm d w
        calc op (op (reduce op a g n) d) w = op (reduce op a g n) (op d w) := Std.Associative.assoc _ _ _
          _ = op (reduce op a g n) (op w d) := by rw [turn]
          _ = op (op (reduce op a g n) w) d := (Std.Associative.assoc _ _ _).symm

end Sargantana.ReductionTree
