import Mathlib.Algebra.GroupWithZero.Nat

-- Branches and jumps of the base instruction set, and the paths that a prediction and an
-- outcome lead to.
namespace Sargantana.ControlTransfer

variable {w : Nat}

inductive Transfer where
  | beq | bne | blt | bge | bltu | bgeu | jal | jalr
  deriving DecidableEq, Repr

-- The opcode and func3 of its instructions; jal has no func3.
def Transfer.encodes (t : Transfer) (opcode : BitVec 7) (func3 : BitVec 3) : Bool :=
  match t with
  | .beq => opcode == 0x63 && func3 == 0
  | .bne => opcode == 0x63 && func3 == 1
  | .blt => opcode == 0x63 && func3 == 4
  | .bge => opcode == 0x63 && func3 == 5
  | .bltu => opcode == 0x63 && func3 == 6
  | .bgeu => opcode == 0x63 && func3 == 7
  | .jal => opcode == 0x6f
  | .jalr => opcode == 0x67 && func3 == 0

def Transfer.taken (t : Transfer) (x y : BitVec w) : Bool :=
  match t with
  | .beq => x = y
  | .bne => x ≠ y
  | .blt => x.toInt < y.toInt
  | .bge => y.toInt ≤ x.toInt
  | .bltu => x.toNat < y.toNat
  | .bgeu => y.toNat ≤ x.toNat
  | .jal | .jalr => true

-- The lowest bit of the target of jalr is cleared.
def Transfer.target (t : Transfer) (pc x offset : BitVec w) : BitVec w :=
  match t with
  | .jalr => (x + offset) &&& ~~~1
  | _ => pc + offset

-- Where it goes: to an address, or on
def Transfer.outcome (t : Transfer) (pc x y offset : BitVec w) : Option (BitVec w) :=
  if t.taken x y then some (t.target pc x offset) else none

def path (pc : BitVec w) (goes : Option (BitVec w)) : BitVec w := goes.getD (pc + 4)

def Transfer.nextPc (t : Transfer) (pc x y offset : BitVec w) : BitVec w := path pc (t.outcome pc x y offset)

theorem predicted_iff {pc : BitVec w} {predicted outcome : Option (BitVec w)} :
    predicted = outcome ↔ path pc predicted = path pc outcome ∧ predicted.isSome = outcome.isSome := by
  constructor
  · rintro rfl
    exact ⟨rfl,rfl⟩
  · rintro ⟨same,direction⟩
    cases predicted <;> cases outcome
    · rfl
    · cases direction
    · cases direction
    · exact congrArg some same

theorem crossed_path {pc : BitVec w} {predicted outcome : Option (BitVec w)} (wrong : predicted ≠ outcome)
    (same : path pc predicted = path pc outcome) : path pc outcome = pc + 4 := by
  have direction : predicted.isSome ≠ outcome.isSome := fun equal => wrong (predicted_iff.mpr ⟨same,equal⟩)
  cases predicted with
  | none => exact same.symm
  | some there =>
    cases outcome with
    | none => rfl
    | some here => exact absurd rfl direction

end Sargantana.ControlTransfer
