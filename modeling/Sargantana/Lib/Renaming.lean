import Mathlib.Data.Fintype.Basic
import Mathlib.Data.Multiset.MapFold
import Mathlib.Data.Multiset.AddSub
import Mathlib.Algebra.Order.Group.Multiset
import Mathlib.Logic.Function.Basic

namespace Sargantana.Renaming

-- Register renaming in its own terms: a committed map from names to cells, the
-- writes in flight in program order, and the cells free for the next write.
structure Write (Name Cell : Type) where
  name : Name
  cell : Cell
  old : Cell
  deriving DecidableEq, Repr

variable {Name Cell : Type} [DecidableEq Name] {map : Name → Cell} {name : Name}
  {w : Write Name Cell} {writes one two : List (Write Name Cell)}

def put (map : Name → Cell) (w : Write Name Cell) : Name → Cell := Function.update map w.name w.cell

def mapAfter (map : Name → Cell) (writes : List (Write Name Cell)) : Name → Cell := writes.foldl put map

-- Every write displaces the cell its name had just before it.
def Chained (map : Name → Cell) : List (Write Name Cell) → Prop
  | [] => True
  | w :: rest => w.old = map w.name ∧ Chained (put map w) rest

@[simp] theorem mapAfter_nil (map : Name → Cell) : mapAfter map [] = map := rfl

@[simp] theorem mapAfter_cons (map : Name → Cell) (w : Write Name Cell) (rest : List (Write Name Cell)) :
    mapAfter map (w :: rest) = mapAfter (put map w) rest := rfl

theorem mapAfter_append (map : Name → Cell) (one two : List (Write Name Cell)) :
    mapAfter map (one ++ two) = mapAfter (mapAfter map one) two := List.foldl_append

theorem chained_append : Chained map (one ++ two) ↔ Chained map one ∧ Chained (mapAfter map one) two := by
  induction one generalizing map with
  | nil => simp [Chained]
  | cons w rest ih => simp [Chained,ih,and_assoc]

theorem chained_snoc : Chained map (writes ++ [w]) ↔
    Chained map writes ∧ w.old = mapAfter map writes w.name := by
  simp [chained_append,Chained]

theorem mapAfter_untouched (apart : ∀ w ∈ writes, w.name ≠ name) : mapAfter map writes name = map name := by
  induction writes generalizing map with
  | nil => rfl
  | cons w rest ih =>
      rw [mapAfter_cons,ih (fun x present => apart x (List.mem_cons_of_mem _ present))]
      exact Function.update_of_ne (Ne.symm (apart w (by simp))) _ _

theorem mapAfter_source (map : Name → Cell) (writes : List (Write Name Cell)) (name : Name) :
    mapAfter map writes name = map name ∨ ∃ w ∈ writes, w.name = name ∧ w.cell = mapAfter map writes name := by
  induction writes generalizing map with
  | nil => exact .inl rfl
  | cons w rest ih =>
      rcases ih (put map w) with kept | ⟨x,present,same,cell⟩
      · by_cases equal : w.name = name
        · subst equal
          right
          refine ⟨w,by simp,rfl,?_⟩
          rw [mapAfter_cons,kept]
          simp [put]
        · left
          rw [mapAfter_cons,kept]
          exact Function.update_of_ne (Ne.symm equal) _ _
      · exact .inr ⟨x,by simp [present],same,cell⟩

variable [Fintype Name]

def image (map : Name → Cell) : Multiset Cell := Finset.univ.val.map map

def cells (writes : List (Write Name Cell)) : Multiset Cell := writes.map (·.cell)
def olds (writes : List (Write Name Cell)) : Multiset Cell := writes.map (·.old)

omit [DecidableEq Name] in
theorem mem_image : x ∈ image map ↔ ∃ name, map name = x := by simp [image]

omit [DecidableEq Name] [Fintype Name] in
theorem mem_cells : x ∈ cells writes ↔ ∃ w ∈ writes, w.cell = x := by simp [cells]

omit [DecidableEq Name] [Fintype Name] in
theorem mem_olds : x ∈ olds writes ↔ ∃ w ∈ writes, w.old = x := by simp [olds]

theorem image_put (map : Name → Cell) (w : Write Name Cell) :
    image (put map w) + {map w.name} = image map + {w.cell} := by
  have whole : (Finset.univ : Finset Name).val = w.name ::ₘ (Finset.univ.erase w.name).val := by
    rw [Finset.erase_val]
    exact (Multiset.cons_erase (Finset.mem_univ w.name)).symm
  have rest : (Finset.univ.erase w.name).val.map (put map w) = (Finset.univ.erase w.name).val.map map := by
    apply Multiset.map_congr rfl
    intro name present
    exact Function.update_of_ne (Finset.ne_of_mem_erase present) _ _
  simp only [image,whole,Multiset.map_cons,rest]
  simp only [put,Function.update_self,← Multiset.singleton_add]
  simp only [add_comm,add_left_comm,add_assoc]

theorem image_put_ring (map : Name → Cell) (w : Write Name Cell) (ring : List Cell) :
    image (put map w) + ((ring ++ [map w.name] : List Cell) : Multiset Cell) =
      image map + ((w.cell :: ring : List Cell) : Multiset Cell) := by
  have split : ((ring ++ [map w.name] : List Cell) : Multiset Cell) = {map w.name} + ring := by
    rw [← Multiset.coe_add,add_comm]
    rfl
  have front : ((w.cell :: ring : List Cell) : Multiset Cell) = {w.cell} + ring := rfl
  rw [split,front,← add_assoc,image_put,add_assoc]

theorem image_mapAfter (chained : Chained map writes) :
    image (mapAfter map writes) + olds writes = image map + cells writes := by
  induction writes generalizing map with
  | nil => rfl
  | cons w rest ih =>
      obtain ⟨first,later⟩ := chained
      have tail := ih later
      have step := image_put map w
      rw [← first] at step
      have oldsCons : olds (w :: rest) = {w.old} + olds rest := rfl
      have cellsCons : cells (w :: rest) = {w.cell} + cells rest := rfl
      rw [mapAfter_cons,oldsCons,cellsCons]
      calc image (mapAfter (put map w) rest) + ({w.old} + olds rest)
          = (image (mapAfter (put map w) rest) + olds rest) + {w.old} := by
            simp only [add_comm,add_assoc]
        _ = (image (put map w) + {w.old}) + cells rest := by rw [tail,add_right_comm]
        _ = image map + ({w.cell} + cells rest) := by rw [step,add_assoc]

end Sargantana.Renaming
