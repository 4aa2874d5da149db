import Sargantana.Lib.Window
import Mathlib.Algebra.Group.Fin.Basic

namespace Sargantana.PointerFifo

open Window

-- A queue in a ring with a write and a read pointer. Equal pointers mean that it is empty, so that one cell
-- always stays free.
structure Fifo (n : Nat) (α : Type) where
  table : Fin n → α
  wr : Fin n
  rd : Fin n

variable {n : Nat} [NeZero n] {α : Type}

def Fifo.contents (r : Fifo n α) : List α := window r.table r.rd (age r.rd r.wr)

def Fifo.step (r : Fifo n α) (push : Option α) (pop : Bool) : Fifo n α where
  table := push.elim r.table (Function.update r.table r.wr)
  wr := if push.isSome then r.wr + 1 else r.wr
  rd := if pop then r.rd + 1 else r.rd

def Fifo.Full (r : Fifo n α) : Prop := r.wr + 1 = r.rd

def Fifo.Empty (r : Fifo n α) : Prop := r.wr = r.rd

variable {r : Fifo n α}

theorem contents_length : r.contents.length = age r.rd r.wr := by simp [Fifo.contents]

theorem shift_one (p : Fin n) : shift p 1 = p + 1 := rfl

theorem shift_next (p : Fin n) (k : Nat) : shift p k + 1 = shift p (k + 1) := by rw [shift_add,shift_one]

theorem shift_whole (p : Fin n) : shift p n = p := by
  apply Fin.ext
  rw [shift_val,Nat.add_mod_right,Nat.mod_eq_of_lt p.isLt]

theorem succ_zero (p : Fin n) : p + 1 = 0 ↔ p.val + 1 = n := by
  have small := p.isLt
  have val : (p + 1).val = (p.val + 1) % n := shift_val p 1
  rw [Fin.ext_iff,val]
  constructor
  · intro zero
    by_contra inside
    rw [Nat.mod_eq_of_lt (by omega)] at zero
    simp at zero
  · intro last
    rw [last,Nat.mod_self]
    rfl

theorem succ_val (p : Fin n) : (p + 1).val = if p.val + 1 = n then 0 else p.val + 1 := by
  have small := p.isLt
  have val : (p + 1).val = (p.val + 1) % n := shift_val p 1
  rw [val]
  split
  · rename_i last
    rw [last,Nat.mod_self]
  · exact Nat.mod_eq_of_lt (by omega)

theorem last_val : (-1 : Fin n).val + 1 = n := (succ_zero _).mp (neg_add_cancel (1 : Fin n))

theorem age_self (p : Fin n) : age p p = 0 := by
  have none' : age p (shift p 0) = 0 := age_shift (Nat.pos_of_ne_zero (NeZero.ne n))
  rwa [shift_zero] at none'

theorem wr_shift : shift r.rd (age r.rd r.wr) = r.wr := shift_age _ _

theorem full_length : r.Full ↔ r.contents.length + 1 = n := by
  have small := age_lt r.rd r.wr
  have next : r.wr + 1 = shift r.rd (age r.rd r.wr + 1) := by rw [← shift_next,wr_shift]
  rw [contents_length,Fifo.Full,next]
  constructor
  · intro same
    by_contra room
    have place : age r.rd (shift r.rd (age r.rd r.wr + 1)) = age r.rd r.wr + 1 := age_shift (by omega)
    rw [same,age_self] at place
    omega
  · intro whole
    rw [whole,shift_whole]

theorem empty_length : r.Empty ↔ r.contents.length = 0 := by
  rw [contents_length,Fifo.Empty]
  constructor
  · intro same
    rw [same,age_self]
  · intro none'
    have place := wr_shift (r := r)
    rw [none',shift_zero] at place
    exact place.symm

theorem contents_head (some' : ¬ r.Empty) : ∃ rest, r.contents = r.table r.rd :: rest := by
  rw [empty_length,contents_length] at some'
  obtain ⟨len,size⟩ := Nat.exists_eq_succ_of_ne_zero some'
  exact ⟨_,by rw [Fifo.contents,size,window_cons]⟩

theorem contents_push (room : ¬ r.Full) (value : α) : (r.step (some value) false).contents = r.contents ++ [value] := by
  have small := age_lt r.rd r.wr
  rw [full_length,contents_length] at room
  have wr : r.wr + 1 = shift r.rd (age r.rd r.wr + 1) := by rw [← shift_next,wr_shift]
  have place : age r.rd (r.wr + 1) = age r.rd r.wr + 1 := by rw [wr,age_shift (by omega)]
  change window (Function.update r.table r.wr value) r.rd (age r.rd (r.wr + 1)) = _
  rw [place]
  conv => lhs; rw [← wr_shift (r := r)]
  rw [wr_shift,← wr_shift (r := r)]
  refine Eq.trans ?_ (window_push small)
  rw [wr_shift]

theorem contents_pop (some' : ¬ r.Empty) : (r.step none true).contents = r.contents.drop 1 := by
  rw [empty_length,contents_length] at some'
  change window r.table (r.rd + 1) (age (r.rd + 1) r.wr) = _
  rw [← shift_one,age_advance (by omega)]
  exact (window_drop (by omega)).symm

theorem step_both (value : α) : r.step (some value) true = (r.step (some value) false).step none true := rfl

theorem contents_step {push : Option α} {pop : Bool} (room : push.isSome = true → ¬ r.Full) (some' : pop = true → ¬ r.Empty) :
    (r.step push pop).contents = r.contents.drop (if pop then 1 else 0) ++ push.toList := by
  match push, pop with
  | none, false => simp [Fifo.step,Fifo.contents]
  | none, true => simpa using contents_pop (some' rfl)
  | some value, false => simpa using contents_push (room rfl) value
  | some value, true =>
      have grown := contents_push (room rfl) value
      have nonempty : ¬ (r.step (some value) false).Empty := by
        rw [empty_length,grown]
        simp
      have few : 1 ≤ r.contents.length := by
        have stays := some' rfl
        rw [empty_length] at stays
        omega
      rw [step_both,contents_pop nonempty,grown,List.drop_append_of_le_length few]
      simp

end Sargantana.PointerFifo
