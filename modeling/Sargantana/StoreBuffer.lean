import Sargantana.DracPkg
import Sargantana.Lib.Window

namespace Sargantana.StoreBuffer
open DracPkg Window

variable {α : Type}

-- ST_BUF_NUM_ENTRIES is 8.
structure State (α : Type) where
  head : Fin 8
  tail : Fin 8
  num : Fin 16
  validTable : Fin 8 → Bool
  instructionTable : Fin 8 → MemInstr α

def reset [Inhabited α] : State α := ⟨0,0,0,fun _ => false,fun _ => MemInstr.zero⟩

structure Input (α : Type) where
  writeEnable : Bool
  instruction : MemInstr α
  flush : Bool
  advanceHead : Bool

def writes (s : State α) (i : Input α) : Bool :=
  i.instruction.valid && decide (s.num.val < 8) && i.writeEnable

def advances (s : State α) (i : Input α) : Bool := i.advanceHead && decide (0 < s.num)

def next (s : State α) (i : Input α) : State α :=
  if i.flush then {s with head := 0, tail := 0, num := 0, validTable := fun _ => false}
  else
    let marked := if writes s i then Function.update s.validTable s.tail true else s.validTable
    {head := s.head + bit (advances s i)
     tail := s.tail + bit (writes s i)
     num := s.num + bit (writes s i) - bit (advances s i)
     validTable := if advances s i then Function.update marked s.head false else marked
     instructionTable := if writes s i then Function.update s.instructionTable s.tail i.instruction
       else s.instructionTable}

-- Bits 11 down to `low` of two addresses agree.
def sameBlock (low : Nat) (one two : BitVec 64) : Bool := one.extractLsb' low (12 - low) == two.extractLsb' low (12 - low)

-- The widest of the two accesses decides how many low bits are ignored.
def collides (loadAddr : BitVec 64) (loadSize : BitVec 4) (store : MemInstr α) : Bool :=
  let size := store.memSize
  let either (code : BitVec 4) := loadSize == code || size == code
  let low (code : BitVec 2) := loadSize.extractLsb' 0 2 == code || size.extractLsb' 0 2 == code
  if either 10 then sameBlock 6 store.dataRs1 loadAddr
  else if either 9 then sameBlock 5 store.dataRs1 loadAddr
  else if either 8 then sameBlock 4 store.dataRs1 loadAddr
  else if either 3 then sameBlock 3 store.dataRs1 loadAddr
  else if low 2 then sameBlock 2 store.dataRs1 loadAddr
  else if low 1 then sameBlock 1 store.dataRs1 loadAddr
  else if low 0 then sameBlock 0 store.dataRs1 loadAddr
  else false

def collision (s : State α) (loadAddr : BitVec 64) (loadSize : BitVec 4) : Bool :=
  (List.finRange 8).any fun j => s.validTable j && collides loadAddr loadSize (s.instructionTable j)

def finishInstr [Inhabited α] (s : State α) : MemInstr α :=
  if 0 < s.num then s.instructionTable s.head else MemInstr.zero

def empty (s : State α) : Bool := decide (s.num = 0)

-- One entry is never used.
def full (s : State α) (flush : Bool) : Bool := decide (7 ≤ s.num.val) || flush

structure Valid (s : State α) : Prop where
  tail : s.tail = shift s.head s.num.val
  room : s.num.val ≤ 8
  marks : ∀ cell, s.validTable cell = decide (age s.head cell < s.num.val)

def contents (s : State α) : List (MemInstr α) := window s.instructionTable s.head s.num.val

variable {s : State α} {i : Input α}

theorem reset_valid [Inhabited α] : Valid (reset : State α) := by
  refine ⟨rfl,Nat.zero_le _,?_⟩
  intro cell
  simp [reset]

theorem empty_collision (valid : Valid s) (none : s.num = 0) : collision s addr size = false := by
  have unmarked : ∀ cell, s.validTable cell = false := by
    intro cell
    rw [valid.marks,none]
    simp
  simp [collision,unmarked]

theorem flush_valid (flush : i.flush = true) : Valid (next s i) := by
  refine ⟨?_,?_,?_⟩
  · simp [next,flush]
  · simp [next,flush]
  · intro cell
    simp [next,flush]

theorem flush_contents (flush : i.flush = true) : contents (next s i) = [] := by
  simp [contents,next,flush]

theorem writes_room (write : writes s i = true) : s.num.val < 8 := by
  simp only [writes,Bool.and_eq_true,decide_eq_true_eq] at write
  exact write.1.2

theorem advances_some (advance : advances s i = true) : 0 < s.num.val := by
  simp only [advances,Bool.and_eq_true,decide_eq_true_eq] at advance
  exact advance.2

theorem advances_le : (advances s i).toNat ≤ s.num.val := by
  cases advance : advances s i with
  | false => exact Nat.zero_le _
  | true => exact advances_some advance

theorem next_num (valid : Valid s) (straight : i.flush = false) :
    (next s i).num.val = s.num.val + (writes s i).toNat - (advances s i).toNat := by
  have shape : (next s i).num = s.num + bit (writes s i) - bit (advances s i) := by simp [next,straight]
  rw [shape,count_val valid.room (Nat.le_trans advances_le (Nat.le_add_right _ _))]

theorem writes_le (valid : Valid s) : s.num.val + (writes s i).toNat ≤ 8 := by
  cases write : writes s i with
  | false => exact valid.room
  | true => exact writes_room write

theorem next_head (straight : i.flush = false) : (next s i).head = shift s.head (advances s i).toNat := by
  simp only [next,straight,Bool.false_eq_true,if_false,shift,bit]

theorem age_passed (head : Fin 8) : age (shift head 1) head = 7 := by
  simp only [age,shift,Fin.val_sub,Fin.val_add,Fin.val_ofNat]
  omega

theorem next_marks (valid : Valid s) (straight : i.flush = false) (cell : Fin 8) :
    (next s i).validTable cell = decide (age (next s i).head cell < (next s i).num.val) := by
  have count := next_num valid straight
  have bound := @writes_le _ s i valid
  have shape : (next s i).validTable cell =
      if advances s i && decide (cell = s.head) then false
      else if writes s i && decide (cell = s.tail) then true else s.validTable cell := by
    simp only [next,straight,Bool.false_eq_true,if_false]
    cases advances s i <;> cases writes s i <;> simp [Function.update_apply]
  have atHead : cell = s.head ↔ age s.head cell = 0 := by
    refine ⟨?_,?_⟩
    · rintro rfl
      simp [age]
    · intro zero
      rw [← shift_age s.head cell,zero,shift_zero]
  have atTail (room : s.num.val < 8) : cell = s.tail ↔ age s.head cell = s.num.val := by
    refine ⟨?_,?_⟩
    · rintro rfl
      rw [valid.tail,age_shift room]
    · intro same
      rw [← shift_age s.head cell,same,valid.tail]
  rw [shape,count,next_head straight,valid.marks,Bool.eq_iff_iff]
  cases advance : advances s i with
  | false =>
      cases write : writes s i with
      | false => simp
      | true =>
          have free := writes_room write
          simp only [atTail free,Bool.false_and,Bool.false_eq_true,if_false,Bool.true_and,Bool.toNat_false,
            Bool.toNat_true,shift_zero,decide_eq_true_eq]
          split <;> simp <;> omega
  | true =>
      have some := advances_some advance
      rw [advance,Bool.toNat_true] at *
      by_cases first : age s.head cell = 0
      · have same := atHead.mpr first
        subst same
        rw [age_passed]
        simp
        omega
      · have within : 1 ≤ age s.head cell := by omega
        have other : cell ≠ s.head := fun same => first (atHead.mp same)
        rw [age_advance within]
        cases write : writes s i with
        | false =>
            simp [other]
            omega
        | true =>
            have free := writes_room write
            simp only [other,atTail free,decide_false,Bool.and_false,Bool.false_eq_true,if_false,Bool.true_and,
              Bool.toNat_true,decide_eq_true_eq]
            split <;> simp <;> omega

theorem next_valid (valid : Valid s) : Valid (next s i) := by
  cases straight : i.flush with
  | true => exact flush_valid straight
  | false =>
      have count := next_num valid straight
      have bound := @writes_le _ s i valid
      have fits := @advances_le _ s i
      refine ⟨?_,by omega,next_marks valid straight⟩
      have last : (next s i).tail = shift s.tail (writes s i).toNat := by
        simp only [next,straight,Bool.false_eq_true,if_false,shift,bit]
      rw [last,next_head straight,count,valid.tail,← shift_add,← shift_add,Nat.add_sub_cancel' (by omega)]

theorem next_contents (valid : Valid s) (straight : i.flush = false) :
    contents (next s i) = (contents s ++ if writes s i then [i.instruction] else []).drop (advances s i).toNat := by
  have fits := @advances_le _ s i
  have stored : window (next s i).instructionTable s.head (s.num.val + (writes s i).toNat) =
      contents s ++ if writes s i then [i.instruction] else [] := by
    cases write : writes s i with
    | false => simp [next,straight,write,contents]
    | true =>
        simp only [next,straight,write,Bool.false_eq_true,if_false,if_true,Bool.toNat_true]
        rw [valid.tail,window_push (writes_room write)]
        rfl
  rw [← stored,window_drop (by omega),contents,next_head straight,next_num valid straight]

end Sargantana.StoreBuffer
