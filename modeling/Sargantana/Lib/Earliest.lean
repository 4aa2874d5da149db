import Mathlib.Data.List.Basic

namespace Sargantana.Earliest

variable {β : Type}

def earliest : List (Option β) → Option (Nat × β)
  | [] => none
  | some report :: _ => some ⟨0,report⟩
  | none :: rest => (earliest rest).map fun found => ⟨found.1 + 1,found.2⟩

-- A cell keeps the first report made about it.
def report (value : β) (cell : Option β) : Option β := cell.or (some value)

def takeOver (k : Nat) (value : β) : Option (Nat × β) → Option (Nat × β)
  | none => some ⟨k,value⟩
  | some found => if k < found.1 then some ⟨k,value⟩ else some found

@[simp] theorem earliest_nil : earliest ([] : List (Option β)) = none := rfl

@[simp] theorem earliest_some (value : β) (rest : List (Option β)) :
    earliest (some value :: rest) = some ⟨0,value⟩ := rfl

@[simp] theorem earliest_blank (rest : List (Option β)) :
    earliest (none :: rest) = (earliest rest).map fun found => ⟨found.1 + 1,found.2⟩ := rfl

theorem earliest_append (cells : List (Option β)) (last : Option β) :
    earliest (cells ++ [last]) = (earliest cells).or (last.map fun value => ⟨cells.length,value⟩) := by
  induction cells with
  | nil => cases last <;> rfl
  | cons cell rest ih =>
      cases cell with
      | some value => rfl
      | none =>
          rw [List.cons_append,earliest_blank,earliest_blank,ih]
          cases earliest rest <;> cases last <;> rfl

theorem earliest_zero (cells : List (Option β)) (value : β) :
    earliest cells = some ⟨0,value⟩ ↔ cells.head?.join = some value := by
  cases cells with
  | nil => simp
  | cons cell rest => cases cell <;> simp

theorem earliest_report (cells : List (Option β)) (inside : k < cells.length) (value : β) :
    earliest (cells.modify k (report value)) = takeOver k value (earliest cells) := by
  induction cells generalizing k with
  | nil => simp at inside
  | cons cell rest ih =>
      cases k with
      | zero =>
          cases cell with
          | some first => simp [report,takeOver]
          | none =>
              rw [earliest_blank]
              cases earliest rest <;> simp [report,takeOver]
      | succ k =>
          cases cell with
          | some first => simp [takeOver]
          | none =>
              rw [List.modify_succ_cons,earliest_blank,earliest_blank,ih (by simpa using inside)]
              cases earliest rest with
              | none => rfl
              | some found =>
                  by_cases before : k < found.1 <;> simp [takeOver,before]

theorem earliest_take (cells : List (Option β)) (k : Nat) :
    earliest (cells.take k) = (earliest cells).filter fun found => decide (found.1 < k) := by
  induction cells generalizing k with
  | nil => simp
  | cons cell rest ih =>
      cases k with
      | zero => cases earliest (cell :: rest) <;> simp [Option.filter]
      | succ k =>
          cases cell with
          | some first => simp [Option.filter]
          | none =>
              rw [List.take_succ_cons,earliest_blank,earliest_blank,ih]
              cases earliest rest with
              | none => rfl
              | some found => by_cases before : found.1 < k <;> simp [Option.filter,before]

theorem earliest_drop (cells : List (Option β)) (k : Nat) (clear : ∀ found ∈ earliest cells, k ≤ found.1) :
    earliest (cells.drop k) = (earliest cells).map fun found => ⟨found.1 - k,found.2⟩ := by
  induction cells generalizing k with
  | nil => simp
  | cons cell rest ih =>
      cases k with
      | zero => simp
      | succ k =>
          cases cell with
          | some first => simp at clear
          | none =>
              rw [earliest_blank] at clear ⊢
              rw [List.drop_succ_cons,ih]
              · cases earliest rest with
                | none => rfl
                | some found => simp
              · intro found inside
                have bound := clear ⟨found.1 + 1,found.2⟩ (by simp [Option.mem_def.mp inside])
                exact Nat.le_of_succ_le_succ bound

end Sargantana.Earliest
