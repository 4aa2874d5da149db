import Mathlib.Data.Fin.Basic
import Mathlib.Logic.Function.Basic
import Mathlib.Data.List.Basic
import Mathlib.Data.Nat.ModEq
import Mathlib.Algebra.GroupWithZero.Nat

namespace Sargantana.Window

-- A pointer of a ring of size n moved forward by k cells.
def shift [NeZero n] (start : Fin n) (k : Nat) : Fin n := start + Fin.ofNat n k

-- A ring buffer holds its contents in the cells from a start pointer on, in
-- order and modulo the ring size. Only this list is meaningful; the other cells
-- of the table are unrestricted.
def window [NeZero n] (table : Fin n → α) (start : Fin n) (len : Nat) : List α :=
  (List.range len).map fun k => table (shift start k)

-- The age of a cell: how far it lies behind the start pointer.
def age (start cell : Fin n) : Nat := (cell - start).val

theorem age_lt (start cell : Fin n) : age start cell < n := (cell - start).isLt

variable {n : Nat} [NeZero n] {table : Fin n → α} {start : Fin n}

theorem shift_val (start : Fin n) (k : Nat) : (shift start k).val = (start.val + k) % n := by
  simp [shift,Fin.val_add]

@[simp] theorem shift_zero (start : Fin n) : shift start 0 = start := by
  apply Fin.ext
  rw [shift_val,Nat.add_zero,Nat.mod_eq_of_lt start.isLt]

theorem shift_add (start : Fin n) (a b : Nat) : shift start (a + b) = shift (shift start a) b := by
  apply Fin.ext
  simp [shift_val,Nat.add_assoc]

theorem shift_inj (one : a < n) (two : b < n) (same : shift start a = shift start b) : a = b := by
  have equal := congrArg Fin.val same
  rw [shift_val,shift_val] at equal
  have congruent : a ≡ b [MOD n] := Nat.ModEq.add_left_cancel' start.val equal
  exact Nat.ModEq.eq_of_lt_of_lt congruent one two

theorem shift_age (start cell : Fin n) : shift start (age start cell) = cell := by
  apply Fin.ext
  simp only [age,shift_val,Fin.val_sub,Nat.add_mod_mod]
  have one := start.isLt
  have two := cell.isLt
  have whole : start.val + (n - start.val + cell.val) = cell.val + n := by omega
  rw [whole,Nat.add_mod_right,Nat.mod_eq_of_lt two]

theorem age_shift (small : k < n) : age start (shift start k) = k :=
  shift_inj (age_lt _ _) small (shift_age start (shift start k))

theorem age_advance (within : k ≤ age start cell) : age (shift start k) cell = age start cell - k := by
  have bound : age start cell - k < n := Nat.lt_of_le_of_lt (Nat.sub_le _ _) (age_lt start cell)
  have place : shift (shift start k) (age start cell - k) = cell := by
    rw [← shift_add,Nat.add_sub_cancel' within,shift_age]
  conv => lhs; rw [← place]
  exact age_shift bound

@[simp] theorem window_length : (window table start len).length = len := by simp [window]

@[simp] theorem window_zero : window table start 0 = [] := rfl

theorem window_getElem (inside : i < (window table start len).length) :
    (window table start len)[i] = table (shift start i) := by simp [window]

theorem window_add : window table start (a + b) =
    window table start a ++ window table (shift start a) b := by
  simp [window,List.range_add,shift_add,Function.comp_def]

theorem window_snoc : window table start (len + 1) =
    window table start len ++ [table (shift start len)] := by
  simp [window,List.range_succ]

theorem window_cons : window table start (len + 1) =
    table start :: window table (shift start 1) len := by
  rw [Nat.add_comm,window_add]
  simp [window]

theorem window_take (fits : k ≤ len) : (window table start len).take k = window table start k := by
  conv => lhs; rw [← Nat.add_sub_cancel' fits,window_add]
  rw [List.take_append_of_le_length (by simp)]
  exact List.take_of_length_le (by simp)

theorem window_drop (fits : k ≤ len) : (window table start len).drop k =
    window table (shift start k) (len - k) := by
  conv => lhs; rw [← Nat.add_sub_cancel' fits,window_add]
  rw [List.drop_append_of_le_length (by simp)]
  simp

theorem window_outside (apart : ∀ i < len, shift start i ≠ cell) :
    window (Function.update table cell value) start len = window table start len := by
  apply List.map_congr_left
  intro i present
  exact Function.update_of_ne (apart i (List.mem_range.mp present)) _ _

theorem window_beyond (room : len ≤ k) (small : k < n) :
    window (Function.update table (shift start k) value) start len = window table start len := by
  apply window_outside
  intro i inside same
  have equal := shift_inj (by omega) small same
  omega

theorem window_push (room : len < n) :
    window (Function.update table (shift start len) value) start (len + 1) =
      window table start len ++ [value] := by
  rw [window_snoc,window_beyond (Nat.le_refl _) room]
  simp

theorem window_set (inside : k < len) (full : len ≤ n) :
    window (Function.update table (shift start k) value) start len =
      (window table start len).set k value := by
  apply List.ext_getElem (by simp)
  intro i left right
  simp only [window_length] at left
  rw [window_getElem,List.getElem_set]
  split
  · rename_i same
    subst same
    simp
  · rename_i other
    rw [window_getElem,Function.update_of_ne]
    intro same
    exact other (shift_inj (by omega) (by omega) same).symm

theorem window_modify (f : α → β) (g : β → β) (full : len ≤ n) (same : f value = g (f (table cell))) :
    (window (Function.update table cell value) start len).map f =
      ((window table start len).map f).modify (age start cell) g := by
  have place : shift start (age start cell) = cell := shift_age start cell
  by_cases inside : age start cell < len
  · have written : window (Function.update table cell value) start len =
        (window table start len).set (age start cell) value := by
      conv => lhs; rw [← place]
      exact window_set inside full
    rw [written]
    apply List.ext_getElem?
    intro k
    rw [List.getElem?_map,List.getElem?_set,List.getElem?_modify,List.getElem?_map]
    by_cases here : age start cell = k
    · subst here
      simp [inside,same,window_getElem,place]
    · simp [here]
  · have untouched : window (Function.update table cell value) start len = window table start len := by
      conv => lhs; rw [← place]
      exact window_beyond (by omega) (age_lt _ _)
    rw [untouched,List.modify_eq_self (by simpa using inside)]

end Sargantana.Window
