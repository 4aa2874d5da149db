import Sargantana.DracPkg
import Sargantana.Lib.StateMachine
import Sargantana.Lib.RingStack

-- return_address_stack: the addresses that the decoder expects returns to go to.
namespace Sargantana.ReturnAddressStack
open DracPkg StateMachine RingStack

-- _NUM_RAS_ENTRIES_ is 16.
structure State where
  addressStack : Fin 16 → BitVec 64
  headPointer : Fin 16

structure Input where
  pcExecution : BitVec 64
  push : Bool
  pop : Bool

def reset : State := ⟨fun _ => 0,0⟩

def next (s : State) (i : Input) : State :=
  if i.push && i.pop then { s with addressStack := Function.update s.addressStack s.headPointer i.pcExecution }
  else if i.push then ⟨Function.update s.addressStack s.headPointer i.pcExecution,s.headPointer + 1⟩
  else if i.pop then { s with headPointer := s.headPointer - 1 }
  else s

def returnAddress (s : State) : BitVec 64 := s.addressStack (s.headPointer - 1)

-- The jumps of the decoder, with the registers that may hold a link
inductive Jump where
  | jal (rd : Reg)
  | jalr (rd rs1 : Reg)
  deriving DecidableEq

def rasLink (r : Reg) : Bool := decide (r = 1) || decide (r = 5)

-- ras_push_int and ras_pop_int of a jump that raises no exception
def rasPush : Jump → Bool
  | .jal rd => rasLink rd
  | .jalr rd rs1 =>
    if !rasLink rd && rasLink rs1 then false
    else rasLink rd

def rasPop : Jump → Bool
  | .jal _ => false
  | .jalr rd rs1 =>
    if !rasLink rd && rasLink rs1 then true
    else if rasLink rd && !rasLink rs1 then false
    else if rasLink rd && rasLink rs1 && decide (rs1 = rd) then false
    else rasLink rd && rasLink rs1

-- A jump at a pc, when the stage neither stalls nor flushes
def jumps (pc : BitVec 64) (j : Jump) : Input := ⟨pc + 4,rasPush j,rasPop j⟩

-- A pop and a push in one cycle come from the jumps between coroutines.
theorem coroutine_jumps (j : Jump) : (rasPush j && rasPop j) = true ↔
    ∃ rd rs1, j = .jalr rd rs1 ∧ rasLink rd = true ∧ rasLink rs1 = true ∧ rs1 ≠ rd := by
  cases j with
  | jal rd =>
      rw [rasPop,Bool.and_false]
      refine iff_of_false Bool.false_ne_true ?_
      rintro ⟨_,_,same,_⟩
      cases same
  | jalr rd rs1 =>
      constructor
      · intro both
        refine ⟨rd,rs1,rfl,?_⟩
        revert both
        simp only [rasPush,rasPop]
        cases rasLink rd <;> cases rasLink rs1 <;> simp
      · rintro ⟨_,_,same,link,target,other⟩
        obtain ⟨rfl,rfl⟩ := Jump.jalr.inj same
        simp [rasPush,rasPop,link,target,other]

-- The stack beside the one that it is for: the sixteen latest addresses.
structure Watched where
  ras : State
  stack : List (BitVec 64)

def stackNext (stack : List (BitVec 64)) (i : Input) : List (BitVec 64) :=
  if i.push && i.pop then i.pcExecution :: stack.tail
  else if i.push then push 16 i.pcExecution stack
  else if i.pop then stack.tail
  else stack

-- No pop goes below the addresses that are remembered.
def machine : Machine Watched Input where
  initial := ⟨reset,[]⟩
  allowed w i := i.pop = true → w.stack ≠ []
  step w i := ⟨next w.ras i,stackNext w.stack i⟩

-- The condition on a step
def Replaces (w : Watched) (i : Input) : Prop :=
  i.push = true → i.pop = true → w.stack.head? = some i.pcExecution ∧ (w.stack.length = 16 → w.stack.getLast? = some i.pcExecution)

def Holds (w : Watched) : Prop := Represents w.ras.addressStack w.ras.headPointer w.stack

-- One cycle keeps the stack exactly if it meets the condition.
theorem holds_next {w : Watched} {i : Input} (holds : Holds w) (allowed : machine.allowed w i) :
    Holds (machine.step w i) ↔ Replaces w i := by
  change Represents (next w.ras i).addressStack (next w.ras i).headPointer (stackNext w.stack i) ↔ _
  unfold next stackNext Replaces
  cases pushes : i.push with
  | true =>
      cases pops : i.pop with
      | true =>
          rw [Bool.and_self,if_pos rfl,if_pos rfl]
          exact (holds.write_head (by decide) i.pcExecution (allowed pops)).trans ⟨fun same _ _ => same,fun same => same rfl rfl⟩
      | false =>
          rw [Bool.and_false,if_neg Bool.false_ne_true,if_neg Bool.false_ne_true,if_pos rfl,if_pos rfl]
          refine iff_of_true (holds.push i.pcExecution) ?_
          intro _ no
          cases no
  | false =>
      cases pops : i.pop with
      | true =>
          rw [Bool.false_and,if_neg Bool.false_ne_true,if_neg Bool.false_ne_true,if_neg Bool.false_ne_true,if_pos rfl,if_pos rfl,
            if_neg Bool.false_ne_true]
          refine iff_of_true holds.pop ?_
          intro no
          cases no
      | false =>
          rw [Bool.false_and]
          simp only [Bool.false_eq_true,if_false]
          refine iff_of_true holds ?_
          intro no
          cases no

theorem holds_reset : Holds machine.initial where
  fits := Nat.zero_le _
  cells := by
    intro k x inside
    cases inside

theorem holds_run {inputs : Nat → Input} (admits : Admits machine inputs)
    (replaces : ∀ u, Replaces (trace machine inputs u) (inputs u)) (t : Nat) : Holds (trace machine inputs t) := by
  induction t with
  | zero => exact holds_reset
  | succ t ih => exact (holds_next ih (admits t)).mpr (replaces t)

theorem return_address_top (inputs : Nat → Input) (admits : Admits machine inputs)
    (replaces : ∀ u, Replaces (trace machine inputs u) (inputs u)) (t : Nat) (x : BitVec 64)
    (top : (trace machine inputs t).stack.head? = some x) : returnAddress (trace machine inputs t).ras = x :=
  (holds_run admits replaces t).top top

-- A call from 0x100, a call from 0x200 and a return
def calls : Nat → Input
  | 0 => jumps 0x100 (.jal 1)
  | 1 => jumps 0x200 (.jal 1)
  | 2 => jumps 0x300 (.jalr 0 1)
  | _ => ⟨0,false,false⟩

theorem calls_admits : Admits machine calls := by
  intro t
  match t with
  | 0 | 1 | _ + 3 =>
      intro pops
      cases pops
  | 2 =>
      intro _ empty
      cases empty

theorem return_address_top_calls : returnAddress (trace machine calls 3).ras = 0x104 := by
  refine return_address_top calls calls_admits ?_ 3 0x104 rfl
  intro u
  match u with
  | 0 | 1 | _ + 3 =>
      intro _ pops
      cases pops
  | 2 =>
      intro pushes
      cases pushes

-- A call from 0x100, and a coroutine jump from 0x200: the address behind the jump is not the one
-- to return to.
def coroutine : Nat → Input
  | 0 => jumps 0x100 (.jal 1)
  | 1 => jumps 0x200 (.jalr 1 5)
  | _ => ⟨0,false,false⟩

theorem coroutine_missed : ¬ ∀ inputs, Admits machine inputs → ∀ t x, (trace machine inputs t).stack.head? = some x →
    returnAddress (trace machine inputs t).ras = x := by
  intro every
  have admits : Admits machine coroutine := by
    intro t
    match t with
    | 0 | _ + 2 =>
        intro pops
        cases pops
    | 1 =>
        intro _ empty
        cases empty
  have same := every coroutine admits 2 0x204 rfl
  revert same
  decide

end Sargantana.ReturnAddressStack
