namespace Sargantana.StateMachine

-- A clocked circuit: one step per clock edge. `allowed` is the contract its
-- environment keeps; it is a premise of a step, never part of the step itself.
structure Machine (State Input : Type) where
  initial : State
  allowed : State → Input → Prop
  step : State → Input → State

variable {State Input : Type} {m : Machine State Input}

inductive Runs (m : Machine State Input) : State → List Input → State → Prop where
  | nil : Runs m s [] s
  | cons : m.allowed s input → Runs m (m.step s input) rest next → Runs m s (input :: rest) next

def Reached (m : Machine State Input) (s : State) : Prop := ∃ inputs, Runs m m.initial inputs s

theorem Runs.append (one : Runs m s first middle) (two : Runs m middle second next) :
    Runs m s (first ++ second) next := by
  induction one with
  | nil => exact two
  | cons allowed _ ih => exact .cons allowed (ih two)

theorem Runs.single (allowed : m.allowed s input) : Runs m s [input] (m.step s input) :=
  .cons allowed .nil

-- What every allowed step preserves is preserved by every run.
theorem Runs.preserves (invariant : State → Prop)
    (preserved : ∀ s input, invariant s → m.allowed s input → invariant (m.step s input))
    (path : Runs m s inputs next) (start : invariant s) : invariant next := by
  induction path with
  | nil => exact start
  | cons allowed _ ih => exact ih (preserved _ _ start allowed)

-- A contract that is decidable can be checked along a list of inputs.
def legal (m : Machine State Input) [∀ s input, Decidable (m.allowed s input)] : State → List Input → Bool
  | _, [] => true
  | s, input :: rest => decide (m.allowed s input) && legal m (m.step s input) rest

theorem Runs.of_legal [∀ s input, Decidable (m.allowed s input)] (checked : legal m s inputs = true) :
    Runs m s inputs (inputs.foldl m.step s) := by
  induction inputs generalizing s with
  | nil => exact .nil
  | cons input rest ih =>
      simp only [legal,Bool.and_eq_true,decide_eq_true_eq] at checked
      exact .cons checked.1 (ih checked.2)

theorem Reached.start : Reached m m.initial := ⟨[],.nil⟩

theorem Reached.extend (reached : Reached m s) (path : Runs m s inputs next) : Reached m next := by
  obtain ⟨before,prior⟩ := reached
  exact ⟨before ++ inputs,prior.append path⟩

theorem Reached.step (reached : Reached m s) (allowed : m.allowed s input) : Reached m (m.step s input) :=
  reached.extend (.single allowed)

theorem Reached.invariant (invariant : State → Prop) (start : invariant m.initial)
    (preserved : ∀ s input, invariant s → m.allowed s input → invariant (m.step s input))
    (reached : Reached m s) : invariant s := by
  obtain ⟨inputs,path⟩ := reached
  exact path.preserves invariant preserved start

def trace (m : Machine State Input) (inputs : Nat → Input) : Nat → State
  | 0 => m.initial
  | t + 1 => m.step (trace m inputs t) (inputs t)

-- A part that steps on its own, with its inputs `feed`, runs as a circuit of its own.
theorem trace_part {Part Feed : Type} (part : State → Part) (inner : Machine Part Feed) {inputs : Nat → Input} (feed : Nat → Feed)
    (start : part m.initial = inner.initial)
    (steps : ∀ t, part (m.step (trace m inputs t) (inputs t)) = inner.step (part (trace m inputs t)) (feed t)) (t : Nat) :
    part (trace m inputs t) = trace inner feed t := by
  induction t with
  | zero => exact start
  | succ t ih =>
      have step : part (trace m inputs (t + 1)) = inner.step (part (trace m inputs t)) (feed t) := steps t
      rw [step,ih]
      rfl

def Admits (m : Machine State Input) (inputs : Nat → Input) : Prop := ∀ t, m.allowed (trace m inputs t) (inputs t)

theorem Admits.reached {inputs : Nat → Input} (admits : Admits m inputs) (t : Nat) : Reached m (trace m inputs t) := by
  induction t with
  | zero => exact .start
  | succ t ih => exact ih.step (admits t)

theorem holds_until (holds event : Nat → Prop) {t : Nat} (now : holds t)
    (stays : ∀ u, t ≤ u → holds u → ¬ event u → holds (u + 1)) (comes : ∃ u, t ≤ u ∧ event u) :
    ∃ u, t ≤ u ∧ holds u ∧ event u := by
  obtain ⟨u,later,happens⟩ := comes
  induction u using Nat.strongRecOn with
  | ind u first =>
    by_cases earlier : ∃ v, t ≤ v ∧ v < u ∧ event v
    · obtain ⟨v,after,before,sooner⟩ := earlier
      exact first v before after sooner
    · refine ⟨u,later,?_,happens⟩
      have along : ∀ d, t + d ≤ u → holds (t + d) := by
        intro d within
        induction d with
        | zero => exact now
        | succ d ih =>
          refine stays (t + d) (by omega) (ih (by omega)) fun happened => earlier ⟨t + d,by omega,by omega,happened⟩
      have same : t + (u - t) = u := by omega
      exact same ▸ along (u - t) (by omega)

end Sargantana.StateMachine
