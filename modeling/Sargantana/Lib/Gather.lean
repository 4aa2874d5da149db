import Mathlib.Data.Nat.Count
import Mathlib.Logic.Function.Iterate

-- Places of a row picked by a test, from the lowest on, and put one by one where a counter
-- stands.
namespace Sargantana.Gather

variable {σ : Type} (bump : σ → σ) (slot : σ → Nat) (chosen : Nat → Bool)

def take (now : σ × (Nat → Option Nat)) (i : Nat) : σ × (Nat → Option Nat) :=
  if chosen i then (bump now.1,fun k => if k = slot now.1 then some i else now.2 k) else now

def pick (start : σ) (m : Nat) : σ × (Nat → Option Nat) :=
  (List.range m).foldl (take bump slot chosen) (start,fun _ => none)

def rank (i : Nat) : Nat := Nat.count (fun k => chosen k = true) i

variable {bump slot chosen}

theorem pick_succ (start : σ) (m : Nat) :
    pick bump slot chosen start (m + 1) = take bump slot chosen (pick bump slot chosen start m) m := by
  simp [pick,List.range_succ]

theorem rank_succ {m : Nat} (here : chosen m = true) : rank chosen (m + 1) = rank chosen m + 1 := by
  rw [rank,Nat.count_succ,if_pos here]
  rfl

theorem rank_skip {m : Nat} (none : chosen m = false) : rank chosen (m + 1) = rank chosen m := by
  rw [rank,Nat.count_succ,if_neg (by rw [none]; exact Bool.false_ne_true)]
  rfl

theorem pick_counter (start : σ) (m : Nat) : (pick bump slot chosen start m).1 = bump^[rank chosen m] start := by
  induction m with
  | zero => rfl
  | succ m ih =>
    rw [pick_succ,take]
    cases here : chosen m with
    | true => rw [if_pos rfl,rank_succ here,Function.iterate_succ_apply',← ih]
    | false => rw [if_neg Bool.false_ne_true,rank_skip here,ih]

theorem pick_taken {start : σ} {m : Nat}
    (apart : ∀ a < m, ∀ b < m, chosen a = true → chosen b = true →
      slot (bump^[rank chosen a] start) = slot (bump^[rank chosen b] start) → a = b) (k i : Nat) :
    (pick bump slot chosen start m).2 k = some i ↔
      i < m ∧ chosen i = true ∧ slot (bump^[rank chosen i] start) = k := by
  induction m with
  | zero => simp [pick]
  | succ m ih =>
    have before := ih fun a lower b below => apart a (by omega) b (by omega)
    rw [pick_succ,take]
    cases here : chosen m with
    | false =>
      rw [if_neg Bool.false_ne_true,before]
      refine ⟨fun ⟨before,live,place⟩ => ⟨by omega,live,place⟩,fun ⟨before,live,place⟩ => ⟨?_,live,place⟩⟩
      have other : i ≠ m := by
        rintro rfl
        rw [here] at live
        cases live
      omega
    | true =>
      rw [if_pos rfl]
      simp only [pick_counter]
      by_cases last : k = slot (bump^[rank chosen m] start)
      · rw [if_pos last]
        constructor
        · rintro same
          obtain rfl := Option.some.inj same
          exact ⟨Nat.lt_succ_self _,here,last.symm⟩
        · rintro ⟨inside,live,place⟩
          rw [apart i inside m (Nat.lt_succ_self m) live here (place.trans last)]
      · rw [if_neg last,before]
        refine ⟨fun ⟨before,live,place⟩ => ⟨by omega,live,place⟩,fun ⟨before,live,place⟩ => ⟨?_,live,place⟩⟩
        have other : i ≠ m := by
          rintro rfl
          exact last place.symm
        omega

theorem rank_enumerated {f : Nat → Nat} {n : Nat} (rising : ∀ a b, a < b → b < n → f a < f b)
    (places : ∀ i, chosen i = true ↔ ∃ q < n, f q = i) {q : Nat} (inside : q < n) : rank chosen (f q) = q := by
  have below : (Finset.range (f q)).filter (fun i => chosen i = true) = (Finset.range q).image f := by
    ext i
    simp only [Finset.mem_filter,Finset.mem_range,Finset.mem_image,places]
    constructor
    · rintro ⟨before,a,small,rfl⟩
      refine ⟨a,?_,rfl⟩
      by_contra more
      rcases Nat.lt_or_ge q a with after | same
      · have := rising q a after small
        omega
      · obtain rfl : a = q := by omega
        omega
    · rintro ⟨a,small,rfl⟩
      exact ⟨rising a q small inside,a,by omega,rfl⟩
  rw [rank,Nat.count_eq_card_filter_range,below,Finset.card_image_of_injOn,Finset.card_range]
  intro a small b less same
  simp only [Finset.coe_range,Set.mem_Iio] at small less
  rcases Nat.lt_trichotomy a b with lower | equal | higher
  · have := rising a b lower (by omega)
    omega
  · exact equal
  · have := rising b a higher (by omega)
    omega

theorem pick_enumerated {f : Nat → Nat} {n m : Nat} {start : σ} (rising : ∀ a b, a < b → b < n → f a < f b)
    (places : ∀ i, chosen i = true ↔ ∃ q < n, f q = i) (below : ∀ q < n, f q < m)
    (apart : ∀ a < n, ∀ b < n, slot (bump^[a] start) = slot (bump^[b] start) → a = b) (k i : Nat) :
    (pick bump slot chosen start m).2 k = some i ↔ ∃ q < n, slot (bump^[q] start) = k ∧ f q = i := by
  rw [pick_taken]
  · constructor
    · rintro ⟨_,live,place⟩
      obtain ⟨q,inside,rfl⟩ := (places i).mp live
      rw [rank_enumerated rising places inside] at place
      exact ⟨q,inside,place,rfl⟩
    · rintro ⟨q,inside,place,rfl⟩
      rw [rank_enumerated rising places inside]
      exact ⟨below q inside,(places _).mpr ⟨q,inside,rfl⟩,place⟩
  · intro a _ b _ first second same
    obtain ⟨p,small,rfl⟩ := (places a).mp first
    obtain ⟨q,less,rfl⟩ := (places b).mp second
    rw [rank_enumerated rising places small,rank_enumerated rising places less] at same
    rw [apart p small q less same]

end Sargantana.Gather
