import Mathlib.Data.Nat.Find

namespace Sargantana.Ticket

-- Tickets are numbered in the order of issue. Each is in flight from the step after its issue to the step in
-- which it finishes.
structure Tickets where
  issues : Nat → Prop
  count : Nat → Nat
  inflight : Nat → Nat → Prop
  finishes : Nat → Nat → Prop

structure Lawful (s : Tickets) : Prop where
  empty : s.count 0 = 0
  issued : ∀ t, s.issues t → s.count (t + 1) = s.count t + 1
  kept : ∀ t, ¬ s.issues t → s.count (t + 1) = s.count t
  below : ∀ t n, s.inflight t n → n < s.count t
  step : ∀ t n, s.inflight (t + 1) n ↔ (s.inflight t n ∧ ¬ s.finishes t n) ∨ (s.issues t ∧ n = s.count t)
  finish : ∀ t n, s.finishes t n → s.inflight t n

variable {s : Tickets} (lawful : Lawful s)
include lawful

theorem count_step (t : Nat) : s.count t ≤ s.count (t + 1) := by
  by_cases issue : s.issues t
  · have more := lawful.issued t issue
    omega
  · exact Nat.le_of_eq (lawful.kept t issue).symm

theorem count_mono {t u : Nat} (later : t ≤ u) : s.count t ≤ s.count u := by
  induction later with
  | refl => exact Nat.le_refl _
  | step _ ih => exact Nat.le_trans ih (count_step lawful _)

theorem issue_inj {t u : Nat} (one : s.issues t) (two : s.issues u) (same : s.count t = s.count u) : t = u := by
  rcases Nat.lt_trichotomy t u with before | equal | after
  · have grown := count_mono lawful (Nat.succ_le_of_lt before)
    rw [lawful.issued t one] at grown
    omega
  · exact equal
  · have grown := count_mono lawful (Nat.succ_le_of_lt after)
    rw [lawful.issued u two] at grown
    omega

theorem finished_gone {t u n : Nat} (finished : s.finishes t n) (later : t < u) : ¬ s.inflight u n := by
  have old := lawful.below t n (lawful.finish t n finished)
  induction later with
  | refl =>
    intro again
    rcases (lawful.step t n).mp again with ⟨_,unfinished⟩ | ⟨_,fresh⟩
    · exact unfinished finished
    · omega
  | step later ih =>
    intro again
    rcases (lawful.step _ n).mp again with ⟨before,_⟩ | ⟨_,fresh⟩
    · exact ih before
    · have grown := count_mono lawful (Nat.le_of_lt later)
      omega

theorem finish_once {t u n : Nat} (one : s.finishes t n) (two : s.finishes u n) : t = u := by
  rcases Nat.lt_trichotomy t u with before | same | after
  · exact absurd (lawful.finish u n two) (finished_gone lawful one before)
  · exact same
  · exact absurd (lawful.finish t n one) (finished_gone lawful two after)

theorem inflight_lasts {t u n : Nat} (now : s.inflight t n) (later : t ≤ u) (unfinished : ∀ v, t ≤ v → v < u → ¬ s.finishes v n) :
    s.inflight u n := by
  induction later with
  | refl => exact now
  | step later ih =>
    refine (lawful.step _ n).mpr (.inl ⟨ih fun v after before => unfinished v after (by omega),unfinished _ later (by omega)⟩)

theorem inflight_issued {u n : Nat} (now : s.inflight u n) : ∃ t, t < u ∧ s.issues t ∧ s.count t = n := by
  induction u with
  | zero =>
    have small := lawful.below 0 n now
    rw [lawful.empty] at small
    omega
  | succ u ih =>
    rcases (lawful.step u n).mp now with ⟨before,_⟩ | ⟨issue,fresh⟩
    · obtain ⟨t,earlier,issue,number⟩ := ih before
      exact ⟨t,by omega,issue,number⟩
    · exact ⟨u,by omega,issue,fresh.symm⟩

-- If no ticket stays in flight for ever, each finishes exactly once after its issue.
theorem served_once (ends : ∀ t n, s.inflight t n → ∃ u, t ≤ u ∧ s.finishes u n) {t : Nat} (issue : s.issues t) :
    ∃ u, t < u ∧ s.finishes u (s.count t) ∧ ∀ v, s.finishes v (s.count t) → v = u := by
  obtain ⟨u,later,finish⟩ := ends (t + 1) (s.count t) ((lawful.step t _).mpr (.inr ⟨issue,rfl⟩))
  exact ⟨u,by omega,finish,fun v again => finish_once lawful again finish⟩

end Sargantana.Ticket
