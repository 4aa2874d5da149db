import Mathlib.Data.List.Nodup
import Mathlib.Data.List.Perm.Basic

-- Requests in flight, each with a slot of a table as its name
namespace Sargantana.SlotTable

variable {ι ε α : Type} [DecidableEq ι] {key : ε → ι} {value : ε → α} {valid after : ι → Prop} {data later : ι → α}
  {flight more : List ε}

-- The slots that are taken are those of the requests in flight, and hold what these carry.
structure Inflight (key : ε → ι) (value : ε → α) (valid : ι → Prop) (data : ι → α) (flight : List ε) : Prop where
  distinct : (flight.map key).Nodup
  exact : ∀ k, valid k ↔ k ∈ flight.map key
  same : ∀ e ∈ flight, data (key e) = value e

namespace Inflight

omit [DecidableEq ι] in
theorem empty (none' : ∀ k, ¬ valid k) : Inflight key value valid data [] where
  distinct := List.nodup_nil
  exact k := by simp [none' k]
  same := nofun

omit [DecidableEq ι] in
theorem perm (inflight : Inflight key value valid data flight) (moves : flight.Perm more) : Inflight key value valid data more where
  distinct := (moves.map key).nodup inflight.distinct
  exact k := (inflight.exact k).trans ((moves.map key).mem_iff)
  same e inside := inflight.same e (moves.mem_iff.mpr inside)

omit [DecidableEq ι] in
theorem congr (inflight : Inflight key value valid data flight) (slots : ∀ k, after k ↔ valid k) (kept : ∀ k, valid k → later k = data k) :
    Inflight key value after later flight where
  distinct := inflight.distinct
  exact k := (slots k).trans (inflight.exact k)
  same e inside := by
    rw [kept _ ((inflight.exact _).mpr (List.mem_map_of_mem inside)),inflight.same e inside]

omit [DecidableEq ι] in
theorem add (inflight : Inflight key value valid data flight) {e : ε} (free : ¬ valid (key e))
    (slots : ∀ k, after k ↔ valid k ∨ k = key e) (holds : later (key e) = value e) (kept : ∀ k, valid k → later k = data k) :
    Inflight key value after later (flight ++ [e]) where
  distinct := by
    rw [List.map_append,List.map_singleton,List.nodup_append]
    refine ⟨inflight.distinct,List.nodup_singleton _,?_⟩
    rintro a inside b new rfl
    rw [List.mem_singleton.mp new] at inside
    exact free ((inflight.exact _).mpr inside)
  exact k := by
    rw [slots,inflight.exact,List.map_append,List.mem_append,List.map_singleton,List.mem_singleton]
  same a inside := by
    rcases List.mem_append.mp inside with old | new
    · rw [kept _ ((inflight.exact _).mpr (List.mem_map_of_mem old)),inflight.same a old]
    · rw [List.mem_singleton.mp new,holds]

theorem remove (inflight : Inflight key value valid data flight) (gone : ι) (slots : ∀ k, after k ↔ valid k ∧ k ≠ gone) :
    Inflight key value after data (flight.filter fun e => key e ≠ gone) where
  distinct := inflight.distinct.sublist (List.filter_sublist.map key)
  exact k := by
    rw [slots,inflight.exact]
    simp only [List.mem_map,List.mem_filter,decide_eq_true_eq]
    constructor
    · rintro ⟨⟨e,inside,rfl⟩,stays⟩
      exact ⟨e,⟨inside,stays⟩,rfl⟩
    · rintro ⟨e,⟨inside,stays⟩,rfl⟩
      exact ⟨⟨e,inside,rfl⟩,stays⟩
  same e inside := inflight.same e (List.mem_of_mem_filter inside)

omit [DecidableEq ι] in
theorem unique (inflight : Inflight key value valid data flight) {a b : ε} (one : a ∈ flight) (two : b ∈ flight) (same : key a = key b) :
    a = b := List.inj_on_of_nodup_map inflight.distinct one two same

omit [DecidableEq ι] in
theorem find (inflight : Inflight key value valid data flight) {k : ι} (taken : valid k) : ∃ e ∈ flight, key e = k ∧ data k = value e := by
  obtain ⟨e,inside,rfl⟩ := List.mem_map.mp ((inflight.exact k).mp taken)
  exact ⟨e,inside,rfl,inflight.same e inside⟩

end Inflight

end Sargantana.SlotTable
