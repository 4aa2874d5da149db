import Mathlib.Algebra.Group.Fin.Basic
import Sargantana.Lib.Window

-- A stack of bounded depth in a ring of cells: a push beyond the ring forgets the oldest.
namespace Sargantana.RingStack
open Window

variable {α : Type} {n : Nat}

def push (n : Nat) (x : α) (stack : List α) : List α := (x :: stack).take n

section
variable [NeZero n] {table : Fin n → α} {head : Fin n} {stack : List α} {x : α}

-- The cell that lies k places under the top; the head points past the top.
def below (head : Fin n) (k : Nat) : Fin n := head - Fin.ofNat n (k + 1)

structure Represents (table : Fin n → α) (head : Fin n) (stack : List α) : Prop where
  fits : stack.length ≤ n
  cells : ∀ k x, stack[k]? = some x → table (below head k) = x

theorem below_val (head : Fin n) (k : Nat) : (below head k).val = (n - (k + 1) % n + head.val) % n := by
  rw [below,Fin.val_sub,Fin.val_ofNat]

theorem below_head (small : k < n) : below head k = head ↔ k + 1 = n := by
  have inside := head.isLt
  rw [Fin.ext_iff,below_val]
  by_cases whole : k + 1 = n
  · rw [whole,Nat.mod_self,Nat.sub_zero,Nat.add_mod_left,Nat.mod_eq_of_lt inside]
    exact iff_of_true rfl rfl
  · rw [Nat.mod_eq_of_lt (by omega : k + 1 < n)]
    refine iff_of_false ?_ whole
    by_cases wraps : n - (k + 1) + head.val < n
    · rw [Nat.mod_eq_of_lt wraps]
      omega
    · rw [Nat.mod_eq_sub_mod (by omega),Nat.mod_eq_of_lt (by omega)]
      omega

theorem below_next (head : Fin n) (k : Nat) : below (head + 1) (k + 1) = below head k := by
  have one : (Fin.ofNat n (k + 1 + 1)) = Fin.ofNat n (k + 1) + 1 := by
    apply Fin.ext
    rw [Fin.val_add,Fin.val_ofNat,Fin.val_ofNat,Fin.val_one']
    exact Nat.add_mod _ _ _
  rw [below,below,one,add_sub_add_right_eq_sub]

theorem below_top (head : Fin n) : below (head + 1) 0 = head := by
  have one : Fin.ofNat n (0 + 1) = (1 : Fin n) := rfl
  rw [below,one,add_sub_cancel_right]

theorem Represents.push (held : Represents table head stack) (x : α) :
    Represents (Function.update table head x) (head + 1) (push n x stack) where
  fits := List.length_take_le _ _
  cells := by
    intro k y inside
    rw [RingStack.push,List.getElem?_take] at inside
    split at inside
    · rename_i small
      cases k with
      | zero =>
          rw [below_top,Function.update_self]
          exact Option.some.inj inside
      | succ k =>
          rw [below_next]
          have apart : below head k ≠ head := by
            intro same
            have full := (below_head (by omega)).mp same
            omega
          rw [Function.update_of_ne apart]
          exact held.cells k y inside
    · cases inside

theorem Represents.pop (held : Represents table head stack) : Represents table (head - 1) stack.tail where
  fits := Nat.le_trans (by rw [List.length_tail]; exact Nat.sub_le _ _) held.fits
  cells := by
    intro k x inside
    have deeper : below (head - 1) k = below head (k + 1) := by
      rw [← below_next (head - 1) k,sub_add_cancel]
    rw [deeper]
    refine held.cells (k + 1) x ?_
    rwa [List.getElem?_tail] at inside

theorem Represents.top (held : Represents table head stack) (some' : stack.head? = some x) : table (head - 1) = x := by
  refine held.cells 0 x ?_
  rwa [List.head?_eq_getElem?] at some'

-- A write to the cell of the head replaces no top: it does what a replacement does only where the top is
-- the written one already, and so is the oldest of a full ring.
theorem Represents.write_head (several : 1 < n) (held : Represents table head stack) (x : α) (some' : stack ≠ []) :
    Represents (Function.update table head x) head (x :: stack.tail) ↔
      stack.head? = some x ∧ (stack.length = n → stack.getLast? = some x) := by
  obtain ⟨y,rest,rfl⟩ := List.exists_cons_of_ne_nil some'
  have size : (y :: rest).length = rest.length + 1 := rfl
  have fits := held.fits
  have top := held.cells 0 y rfl
  have away : below head 0 ≠ head := fun same => by
    have full := (below_head (by omega)).mp same
    omega
  constructor
  · intro after
    have now := after.cells 0 x rfl
    rw [Function.update_of_ne away,top] at now
    subst now
    refine ⟨rfl,?_⟩
    intro full
    have last : (y :: rest)[rest.length]? = some ((y :: rest).getLast some') := by
      rw [List.getLast_eq_getElem,List.getElem?_eq_getElem (by omega)]
      rfl
    have place : below head rest.length = head := (below_head (by omega)).mpr (by omega)
    have written := after.cells rest.length _ last
    rw [place,Function.update_self] at written
    rw [List.getLast?_eq_some_getLast some']
    exact congrArg some written.symm
  · rintro ⟨same,oldest⟩
    obtain rfl := Option.some.inj same
    refine ⟨fits,?_⟩
    intro k z inside
    have bound : k < rest.length + 1 := (List.getElem?_eq_some_iff.mp inside).1
    by_cases here : below head k = head
    · have full := (below_head (by omega)).mp here
      have last := oldest (by omega)
      rw [List.getLast?_eq_getElem?] at last
      have index : (y :: rest).length - 1 = k := by omega
      rw [index] at last
      change (y :: rest)[k]? = some z at inside
      rw [here,Function.update_self]
      exact Option.some.inj (last.symm.trans inside)
    · rw [Function.update_of_ne here]
      exact held.cells k z inside

end

end Sargantana.RingStack
