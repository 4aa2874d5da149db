import Mathlib.Data.List.Basic

-- A list read from left to right with a value that every element moves on.
namespace Sargantana.Scan

variable {α σ : Type}

def Along (move : σ → α → σ) (fits : σ → α → Prop) : σ → List α → Prop
  | _, [] => True
  | start, a :: rest => fits start a ∧ Along move fits (move start a) rest

variable {move : σ → α → σ} {fits : σ → α → Prop} {start : σ} {items more : List α}

theorem along_append : Along move fits start (items ++ more) ↔
    Along move fits start items ∧ Along move fits (items.foldl move start) more := by
  induction items generalizing start with
  | nil => simp [Along]
  | cons a rest ih => simp [Along,ih,and_assoc]

theorem Along.take (along : Along move fits start items) (n : Nat) : Along move fits start (items.take n) := by
  rw [← List.take_append_drop n items,along_append] at along
  exact along.1

theorem Along.drop (along : Along move fits start items) (n : Nat) :
    Along move fits ((items.take n).foldl move start) (items.drop n) := by
  rw [← List.take_append_drop n items,along_append] at along
  exact along.2

theorem Along.element (along : Along move fits start items) (here : items[p]? = some a) :
    fits ((items.take p).foldl move start) a := by
  have rest := along.drop p
  obtain ⟨inside,found⟩ := List.getElem?_eq_some_iff.mp here
  rw [List.drop_eq_getElem_cons inside,found] at rest
  exact rest.1

theorem Along.drop_still (along : Along move fits start items) (still : ∀ a ∈ items.take n, ∀ value, move value a = value) :
    Along move fits start (items.drop n) := by
  have same : (items.take n).foldl move start = start := by
    generalize items.take n = front at still
    induction front with
    | nil => rfl
    | cons a rest ih =>
        rw [List.foldl_cons,still a (List.mem_cons_self ..)]
        exact ih fun b inside => still b (List.mem_cons_of_mem _ inside)
  have rest := along.drop n
  rwa [same] at rest

end Sargantana.Scan
