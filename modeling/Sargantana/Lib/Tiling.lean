import Mathlib.Data.List.Basic
import Mathlib.Algebra.GroupWithZero.Nat

-- A range cut into consecutive pieces, each served by one request. A request may also
-- count for places before its own that no request was made for.
namespace Sargantana.Tiling

section
variable {ρ : Type} (first count : ρ → Nat)

def Member (r : ρ) (i : Nat) : Prop := first r ≤ i ∧ i < first r + count r

instance (r : ρ) (i : Nat) : Decidable (Member first count r i) := inferInstanceAs (Decidable (_ ∧ _))

end

-- From place `at` on, with `backlog` places before it still to be counted
inductive Pieces {ρ : Type} (first count counted : ρ → Nat) (active : Nat → Prop) (serves : ρ → Nat → Prop) (total : Nat) :
    Nat → Nat → List ρ → Prop where
  | done : Pieces first count counted active serves total total 0 []
  | send : first r = start → 0 < n → start + n ≤ total → counted r = backlog + n →
      (count r = n ∧ (∀ i, start ≤ i → i < start + n → serves r i)) ∨
        (count r = 0 ∧ ∀ i, start ≤ i → i < start + n → ¬ active i) →
      Pieces first count counted active serves total (start + n) 0 rest →
      Pieces first count counted active serves total start backlog (r :: rest)
  | skip : ¬ active start → start + 1 < total →
      Pieces first count counted active serves total (start + 1) (backlog + 1) rest →
      Pieces first count counted active serves total start backlog rest

variable {ρ : Type} {first count counted : ρ → Nat} {active : Nat → Prop} {serves : ρ → Nat → Prop} {total start backlog : Nat}
  {rs : List ρ}

theorem Pieces.sum (tiling : Pieces first count counted active serves total start backlog rs) :
    (rs.map counted).sum + start = total + backlog := by
  induction tiling with
  | done => simp
  | send _ _ _ counts _ _ ih =>
    rw [List.map_cons,List.sum_cons,counts]
    omega
  | skip _ _ _ ih => omega

theorem Pieces.within (tiling : Pieces first count counted active serves total start backlog rs) {r : ρ} (inside : r ∈ rs) {i : Nat}
    (member : Member first count r i) : start ≤ i ∧ i < total ∧ serves r i := by
  induction tiling with
  | done => cases inside
  | send place _ fits _ piece _ ih =>
    rcases List.mem_cons.mp inside with rfl | later
    · unfold Member at member
      rcases piece with ⟨whole,serve⟩ | ⟨none,_⟩
      · exact ⟨by omega,by omega,serve i (by omega) (by omega)⟩
      · omega
    · obtain ⟨after,rest⟩ := ih later
      exact ⟨by omega,rest⟩
  | skip _ _ _ ih =>
    obtain ⟨after,rest⟩ := ih inside
    exact ⟨by omega,rest⟩

theorem Pieces.before (tiling : Pieces first count counted active serves total start backlog rs) {i : Nat} (before : i < start) :
    rs.countP (fun r => decide (Member first count r i)) = 0 := by
  rw [List.countP_eq_zero]
  intro r inside member
  have after := (tiling.within inside (of_decide_eq_true member)).1
  omega

-- An active place is served exactly once.
theorem Pieces.once (tiling : Pieces first count counted active serves total start backlog rs) {i : Nat} (after : start ≤ i)
    (small : i < total) (live : active i) : rs.countP (fun r => decide (Member first count r i)) = 1 := by
  induction tiling with
  | done => omega
  | @send r at_ n _ rest place _ fits _ piece later ih =>
    rw [List.countP_cons]
    by_cases here : i < at_ + n
    · rcases piece with ⟨whole,_⟩ | ⟨_,idle⟩
      · have member : Member first count r i := ⟨by omega,by omega⟩
        rw [later.before here,if_pos (decide_eq_true member)]
      · exact absurd live (idle i after here)
    · have outside : ¬ Member first count r i := by
        rintro ⟨_,small⟩
        rcases piece with ⟨whole,_⟩ | ⟨none,_⟩ <;> omega
      rw [ih (by omega),if_neg (by simpa using outside)]
  | @skip at_ _ _ idle _ _ ih =>
    have other : i ≠ at_ := fun same => idle (same ▸ live)
    exact ih (by omega)

end Sargantana.Tiling
