import Mathlib.Data.List.Chain
import Mathlib.Data.List.Nodup
import Mathlib.Logic.Function.Basic

-- A table of cells that holds one singly linked list for each key
namespace Sargantana.LinkedList

variable {ι κ : Type}

def Linked (next : ι → ι) (items : List ι) : Prop := items.IsChain fun a b => next a = b

variable {next after : ι → ι} {items rest : List ι} {a b : ι}

theorem linked_single (next : ι → ι) (a : ι) : Linked next [a] := List.isChain_singleton a

theorem Linked.behind (linked : Linked next (a :: rest)) : Linked next rest := linked.tail

theorem Linked.second (linked : Linked next (a :: b :: rest)) : next a = b := (List.isChain_cons_cons.mp linked).1

theorem Linked.congr (linked : Linked next items) (same : ∀ k ∈ items, after k = next k) : Linked after items := by
  induction items with
  | nil => exact List.isChain_nil
  | cons a rest ih =>
    cases rest with
    | nil => exact linked_single after a
    | cons b rest =>
      obtain ⟨first,behind⟩ := List.isChain_cons_cons.mp linked
      refine List.isChain_cons_cons.mpr ⟨?_,ih behind fun k inside => same k (List.mem_cons_of_mem _ inside)⟩
      rw [same a (List.mem_cons_self ..),first]

theorem Linked.push (linked : Linked next items) (distinct : items.Nodup) (last : items.getLast? = some a)
    (same : ∀ k ∈ items, k ≠ a → after k = next k) (joins : after a = b) : Linked after (items ++ [b]) := by
  induction items with
  | nil => cases last
  | cons first rest ih =>
    cases rest with
    | nil =>
      cases last
      exact List.isChain_cons_cons.mpr ⟨joins,linked_single after b⟩
    | cons second rest =>
      have behind : (second :: rest).getLast? = some a := by simpa using last
      have apart : first ≠ a := by
        rintro rfl
        exact (List.nodup_cons.mp distinct).1 (List.mem_of_getLast? behind)
      refine List.isChain_cons_cons.mpr ⟨?_,ih linked.behind (List.nodup_cons.mp distinct).2 behind fun k inside =>
        same k (List.mem_cons_of_mem _ inside)⟩
      rw [same first (List.mem_cons_self ..) apart,linked.second]

-- The lists of the cells that are in use, each with its key, its successor and a mark on the last cell of a list
structure Lists (valid : ι → Prop) (key : ι → κ) (next : ι → ι) (tail : ι → Prop) (lists : κ → List ι) : Prop where
  member : ∀ i k, i ∈ lists k ↔ valid i ∧ key i = k
  nodup : ∀ k, (lists k).Nodup
  linked : ∀ k, Linked next (lists k)
  last : ∀ k i, i ∈ lists k → (tail i ↔ (lists k).getLast? = some i)

variable {valid valid' : ι → Prop} {key key' : ι → κ} {tail tail' : ι → Prop} {lists : κ → List ι}

namespace Lists

theorem own (whole : Lists valid key next tail lists) (here : valid a) : a ∈ lists (key a) := (whole.member a _).mpr ⟨here,rfl⟩

theorem marked (whole : Lists valid key next tail lists) (here : valid a) (mark : tail a) : (lists (key a)).getLast? = some a :=
  (whole.last _ a (whole.own here)).mp mark

theorem has_mark (whole : Lists valid key next tail lists) (here : valid a) : ∃ b, valid b ∧ key b = key a ∧ tail b := by
  obtain ⟨front,b,split⟩ := List.eq_nil_or_concat (lists (key a)) |>.resolve_left (List.ne_nil_of_mem (whole.own here))
  have inside : b ∈ lists (key a) := by simp [split]
  obtain ⟨there,same⟩ := (whole.member b _).mp inside
  exact ⟨b,there,same,(whole.last _ b inside).mpr (by simp [split])⟩

theorem congr (whole : Lists valid key next tail lists) (used : ∀ i, valid' i ↔ valid i) (keys : ∀ i, valid i → key' i = key i)
    (links : ∀ i, valid i → after i = next i) (marks : ∀ i, valid i → (tail' i ↔ tail i)) : Lists valid' key' after tail' lists where
  member i k := by
    rw [whole.member,used]
    exact and_congr_right fun here => by rw [keys i here]
  nodup := whole.nodup
  linked k := (whole.linked k).congr fun i inside => links i ((whole.member i k).mp inside).1
  last k i inside := by rw [marks i ((whole.member i k).mp inside).1,whole.last k i inside]

variable [DecidableEq κ]

theorem fresh (whole : Lists valid key next tail lists) (free : ¬ valid b) (none' : lists (key' b) = [])
    (used : ∀ i, valid' i ↔ valid i ∨ i = b) (keys : ∀ i, valid i → key' i = key i) (links : ∀ i, valid i → after i = next i)
    (marks : ∀ i, valid i → (tail' i ↔ tail i)) (mark : tail' b) :
    Lists valid' key' after tail' (Function.update lists (key' b) [b]) where
  member i k := by
    by_cases same : k = key' b
    · subst same
      rw [Function.update_self,List.mem_singleton,used]
      constructor
      · rintro rfl
        exact ⟨.inr rfl,rfl⟩
      · rintro ⟨here | rfl,place⟩
        · have inside := whole.own here
          rw [← keys i here,place,none'] at inside
          cases inside
        · rfl
    · rw [Function.update_of_ne same,whole.member,used]
      constructor
      · rintro ⟨here,place⟩
        exact ⟨.inl here,by rw [keys i here,place]⟩
      · rintro ⟨here | rfl,place⟩
        · exact ⟨here,by rw [← keys i here,place]⟩
        · exact absurd place.symm same
  nodup k := by
    by_cases same : k = key' b
    · subst same
      simp
    · rw [Function.update_of_ne same]
      exact whole.nodup k
  linked k := by
    by_cases same : k = key' b
    · subst same
      rw [Function.update_self]
      exact linked_single after b
    · rw [Function.update_of_ne same]
      exact (whole.linked k).congr fun i inside => links i ((whole.member i k).mp inside).1
  last k i inside := by
    by_cases same : k = key' b
    · subst same
      rw [Function.update_self,List.mem_singleton] at inside
      subst inside
      simpa using mark
    · rw [Function.update_of_ne same] at inside ⊢
      rw [marks i ((whole.member i k).mp inside).1,whole.last k i inside]

theorem link (whole : Lists valid key next tail lists) (free : ¬ valid b) (here : valid a) (place : key a = key' b) (mark : tail a)
    (used : ∀ i, valid' i ↔ valid i ∨ i = b) (keys : ∀ i, valid i → key' i = key i)
    (links : ∀ i, valid i → i ≠ a → after i = next i) (joins : after a = b)
    (marks : ∀ i, valid i → i ≠ a → (tail' i ↔ tail i)) (unmarked : ¬ tail' a) (mark' : tail' b) :
    Lists valid' key' after tail' (Function.update lists (key' b) (lists (key' b) ++ [b])) where
  member i k := by
    by_cases same : k = key' b
    · subst same
      rw [Function.update_self,List.mem_append,List.mem_singleton,used,whole.member]
      constructor
      · rintro (⟨inside,equal⟩ | rfl)
        · exact ⟨.inl inside,by rw [keys i inside,equal]⟩
        · exact ⟨.inr rfl,rfl⟩
      · rintro ⟨inside | rfl,equal⟩
        · exact .inl ⟨inside,by rw [← keys i inside,equal]⟩
        · exact .inr rfl
    · rw [Function.update_of_ne same,whole.member,used]
      constructor
      · rintro ⟨inside,equal⟩
        exact ⟨.inl inside,by rw [keys i inside,equal]⟩
      · rintro ⟨inside | rfl,equal⟩
        · exact ⟨inside,by rw [← keys i inside,equal]⟩
        · exact absurd equal.symm same
  nodup k := by
    by_cases same : k = key' b
    · subst same
      rw [Function.update_self]
      refine List.nodup_append.mpr ⟨whole.nodup _,by simp,?_⟩
      intro i inside j new equal
      rw [List.mem_singleton] at new
      subst new equal
      exact free ((whole.member i _).mp inside).1
    · rw [Function.update_of_ne same]
      exact whole.nodup k
  linked k := by
    by_cases same : k = key' b
    · subst same
      rw [Function.update_self]
      have end' := whole.marked here mark
      rw [place] at end'
      exact (whole.linked _).push (whole.nodup _) end' (fun i inside other => links i ((whole.member i _).mp inside).1 other) joins
    · rw [Function.update_of_ne same]
      refine (whole.linked k).congr fun i inside => links i ((whole.member i k).mp inside).1 ?_
      rintro rfl
      exact same (by rw [← place,((whole.member i k).mp inside).2])
  last k i inside := by
    by_cases same : k = key' b
    · subst same
      rw [Function.update_self,List.mem_append,List.mem_singleton] at inside
      rw [Function.update_self,List.getLast?_append,List.getLast?_singleton,Option.some_or,Option.some_inj]
      rcases inside with old | rfl
      · have there := ((whole.member i _).mp old).1
        have apart : b ≠ i := by
          rintro rfl
          exact free there
        refine iff_of_false ?_ apart
        by_cases other : i = a
        · subst other
          exact unmarked
        · rw [marks i there other,whole.last _ i old]
          intro end'
          have equal := whole.marked here mark
          rw [place,end'] at equal
          exact other (Option.some.inj equal)
      · exact iff_of_true mark' rfl
    · rw [Function.update_of_ne same] at inside ⊢
      have there := ((whole.member i k).mp inside)
      have apart : i ≠ a := by
        rintro rfl
        exact same (by rw [← place,there.2])
      rw [marks i there.1 apart,whole.last k i inside]

theorem drop (whole : Lists valid key next tail lists) (first : lists k₀ = a :: rest) (used : ∀ i, valid' i ↔ valid i ∧ i ≠ a)
    (keys : ∀ i, valid' i → key' i = key i) (links : ∀ i, valid' i → after i = next i) (marks : ∀ i, valid' i → (tail' i ↔ tail i)) :
    Lists valid' key' after tail' (Function.update lists k₀ rest) := by
  have whole₀ := whole.nodup k₀
  have chain := whole.linked k₀
  rw [first] at whole₀ chain
  obtain ⟨unlike,distinct⟩ := List.nodup_cons.mp whole₀
  have place : key a = k₀ := ((whole.member a k₀).mp (by simp [first])).2
  have stays : ∀ i k, i ∈ Function.update lists k₀ rest k → i ∈ lists k ∧ i ≠ a := by
    intro i k inside
    by_cases same : k = k₀
    · subst same
      rw [Function.update_self] at inside
      refine ⟨by simp [first,inside],?_⟩
      rintro rfl
      exact unlike inside
    · rw [Function.update_of_ne same] at inside
      refine ⟨inside,?_⟩
      rintro rfl
      exact same (by rw [← ((whole.member i k).mp inside).2,place])
  have valids : ∀ i k, i ∈ Function.update lists k₀ rest k → valid' i := fun i k inside =>
    (used i).mpr ⟨((whole.member i k).mp (stays i k inside).1).1,(stays i k inside).2⟩
  refine ⟨?_,?_,?_,?_⟩
  · intro i k
    constructor
    · intro inside
      have here := valids i k inside
      exact ⟨here,by rw [keys i here,((whole.member i k).mp (stays i k inside).1).2]⟩
    · rintro ⟨here,equal⟩
      have old := (used i).mp here
      have inside : i ∈ lists k := (whole.member i k).mpr ⟨old.1,by rw [← keys i here,equal]⟩
      by_cases same : k = k₀
      · subst same
        rw [Function.update_self]
        rw [first,List.mem_cons] at inside
        exact inside.resolve_left old.2
      · rwa [Function.update_of_ne same]
  · intro k
    by_cases same : k = k₀
    · subst same
      rwa [Function.update_self]
    · rw [Function.update_of_ne same]
      exact whole.nodup k
  · intro k
    by_cases same : k = k₀
    · subst same
      rw [Function.update_self]
      exact chain.behind.congr fun i inside => links i (valids i k (by rwa [Function.update_self]))
    · have inner : ∀ i, i ∈ lists k → i ∈ Function.update lists k₀ rest k := fun i inside => by rwa [Function.update_of_ne same]
      rw [Function.update_of_ne same]
      exact (whole.linked k).congr fun i inside => links i (valids i k (inner i inside))
  · intro k i inside
    rw [marks i (valids i k inside),whole.last k i (stays i k inside).1]
    by_cases same : k = k₀
    · subst same
      rw [Function.update_self] at inside ⊢
      rw [first]
      cases rest with
      | nil => cases inside
      | cons b rest => simp
    · rw [Function.update_of_ne same]

end Lists

end Sargantana.LinkedList
