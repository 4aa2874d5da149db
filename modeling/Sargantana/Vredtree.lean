import Sargantana.Lib.MExtension
import Sargantana.Lib.Packed
import Sargantana.Lib.ReductionTree
import Sargantana.Lib.Saturation
import Sargantana.ScoreBoardSimd
import Sargantana.Vdiv
import Mathlib.Data.Int.Order.Basic
import Mathlib.Order.MinMax

-- vredtree: five registers, each with half as many elements as the one before.
namespace Sargantana.Vredtree
open DracPkg ScoreBoardSimd MExtension Sargantana.Packed ReductionTree Vdiv
open Saturation (ofInt_reading)

def increaseSewSize (sew : Fin 4) : Fin 4 :=
  match sew with
  | 0 => 1
  | 1 => 2
  | 2 => 3
  | 3 => 1

def isVw (t : InstrType) : Bool := t == .vwredsum || t == .vwredsumu

structure Input where
  instrType : InstrType
  sew : Fin 4
  vl : Fin 32
  dataVs1 : BitVec 128
  dataVs2 : BitVec 128
  dataVm : BitVec 16

structure Node where
  sew : Fin 4
  mask : BitVec 16
  instrType : InstrType
  dataVs1 : BitVec 128
  intermediate : BitVec 128
  deriving DecidableEq

def reset : Node := ⟨0,0,.other 0,0,0⟩

-- sew_to_out is the same function of the instruction that comes out.
def nodeSew (t : InstrType) (sew : Fin 4) : Fin 4 := if isVw t then increaseSewSize sew else sew

def active (dataVm : BitVec 16) (vl : Fin 32) (k : Nat) : Bool := decide (k < vl.val) && dataVm.getLsbD k

def dataVm (i : Input) : BitVec 16 := pack 16 16 fun k => BitVec.ofBool (active i.dataVm i.vl k)

-- gen_intermediate_d[0]
def first (i : Input) : Node := ⟨nodeSew i.instrType i.sew,dataVm i,i.instrType,i.dataVs1,i.dataVs2⟩

def combine {w : Nat} (t : InstrType) (x y : BitVec w) : Option (BitVec w) :=
  match t with
  | .vredsum => some (x + y)
  | .vredand => some (x &&& y)
  | .vredor => some (x ||| y)
  | .vredxor => some (x ^^^ y)
  | .vredmax => some (if x.slt y then y else x)
  | .vredmaxu => some (if x.ult y then y else x)
  | .vredmin => some (if x.slt y then x else y)
  | .vredminu => some (if x.ult y then x else y)
  | _ => none

def extend {n : Nat} (t : InstrType) (w : Nat) (x : BitVec n) : BitVec w :=
  if t == .vwredsumu then x.zeroExtend w else x.signExtend w

def whole (q : Node) (k : Nat) : BitVec (bits q.sew) := element (bits q.sew) k q.intermediate

def half (q : Node) (k : Nat) : BitVec (bits q.sew) :=
  extend q.instrType (bits q.sew) (element (bits q.sew / 2) k q.intermediate)

-- The two conditions of the loop on j: the second one is there for all widths but SEW_8.
def lower (i : Nat) (q : Node) (j : Nat) : Bool := decide (j * bits q.sew < 128 >>> i)

def upper (i : Nat) (q : Node) (j : Nat) : Bool :=
  q.sew != 0 && decide (j * (bits q.sew / 2) < 128 >>> i) && isVw q.instrType

def inRange (i : Nat) (q : Node) (j : Nat) : Bool := lower i q j || upper i q j

-- Both elements are active; there is no case for the widening sums of SEW_8.
def both (i : Nat) (q : Node) (j : Nat) : Option (BitVec (bits q.sew)) :=
  if isVw q.instrType then
    if q.sew = 0 then none
    else if i = 1 then some (half q (2 * j) + half q (2 * j + 1))
    else some (whole q (2 * j) + whole q (2 * j + 1))
  else combine q.instrType (whole q (2 * j)) (whole q (2 * j + 1))

-- One is. Where the element of the result is in the lower half of its range it is not extended.
def single (i : Nat) (q : Node) (j k : Nat) : BitVec (bits q.sew) :=
  if lower i q j then whole q k else if i = 1 then half q k else whole q k

def left (q : Node) (j : Nat) : Bool := q.mask.getLsbD (2 * j)

def right (q : Node) (j : Nat) : Bool := q.mask.getLsbD (2 * j + 1)

def store (i : Nat) (q : Node) (word : BitVec 128) (j : Nat) : BitVec 128 :=
  if inRange i q j then
    match left q j, right q j with
    | false, false => put j (0 : BitVec (bits q.sew)) word
    | true, false => put j (single i q j (2 * j)) word
    | false, true => put j (single i q j (2 * j + 1)) word
    | true, true => match both i q j with
      | some v => put j v word
      | none => 0
  else word

-- gen_intermediate_d[i] from the node before it
def advance (i : Nat) (q : Node) : Node where
  sew := q.sew
  mask := pack 16 8 fun j => BitVec.ofBool (inRange i q j && (left q j || right q j))
  instrType := q.instrType
  dataVs1 := q.dataVs1
  intermediate := (List.range 8).foldl (store i q) 0

abbrev State := Fin 5 → Node

def next (s : State) (input : Input) : State
  | 0 => first input
  | 1 => advance 1 (s 0)
  | 2 => advance 2 (s 1)
  | 3 => advance 3 (s 2)
  | 4 => advance 4 (s 3)

def stageToOut (t : InstrType) (sew : Fin 4) : Fin 5 :=
  match nodeSew t sew with
  | 0 => 4
  | 1 => if isVw t then 4 else 3
  | 2 => if isVw t then 3 else 2
  | 3 => if isVw t then 2 else 1

-- The last operation, with the scalar
def combineOut {w : Nat} (t : InstrType) (x y : BitVec w) : Option (BitVec w) :=
  if isVw t then some (x + y) else combine t x y

def redDataVd (s : State) (outType : InstrType) (outSew : Fin 4) (dataOldVd : BitVec 128) : BitVec 128 :=
  let q := s (stageToOut outType outSew)
  let w := bits (nodeSew outType outSew)
  if q.mask.getLsbD 0 then
    match combineOut q.instrType (element w 0 q.intermediate) (element w 0 q.dataVs1) with
    | some v => put 0 v dataOldVd
    | none => 0
  else put 0 (element w 0 q.dataVs1) dataOldVd

-- What the instruction asks for: its operation on two elements
def reduction {w : Nat} (t : InstrType) (x y : BitVec w) : BitVec w :=
  match t with
  | .vredand => x &&& y
  | .vredor => x ||| y
  | .vredxor => x ^^^ y
  | .vredmax => BitVec.ofInt w (max (reading true x) (reading true y))
  | .vredmaxu => BitVec.ofInt w (max (reading false x) (reading false y))
  | .vredmin => BitVec.ofInt w (min (reading true x) (reading true y))
  | .vredminu => BitVec.ofInt w (min (reading false x) (reading false y))
  | _ => x + y

def leaf (w : Nat) (i : Input) (k : Nat) : Option (BitVec w) :=
  if active i.dataVm i.vl k then
    some (BitVec.ofInt w (reading (i.instrType != .vwredsumu) (element (bits i.sew) k i.dataVs2)))
  else none

def width (i : Input) : Nat := if isVw i.instrType then bits i.sew + bits i.sew else bits i.sew

def rvv (w : Nat) (i : Input) : BitVec w :=
  reduce (reduction i.instrType) (element w 0 i.dataVs1) (leaf w i) (128 / bits i.sew)

section
variable {w : Nat}

theorem max_assoc_reading (signed : Bool) (x y z : BitVec w) :
    BitVec.ofInt w (max (reading signed (BitVec.ofInt w (max (reading signed x) (reading signed y)))) (reading signed z)) =
      BitVec.ofInt w (max (reading signed x) (reading signed (BitVec.ofInt w (max (reading signed y) (reading signed z))))) := by
  have exact' : ∀ a b : BitVec w, reading signed (BitVec.ofInt w (max (reading signed a) (reading signed b))) =
      max (reading signed a) (reading signed b) := by
    intro a b
    rcases max_choice (reading signed a) (reading signed b) with first | second
    · rw [first,ofInt_reading]
    · rw [second,ofInt_reading]
  rw [exact',exact',max_assoc]

theorem min_assoc_reading (signed : Bool) (x y z : BitVec w) :
    BitVec.ofInt w (min (reading signed (BitVec.ofInt w (min (reading signed x) (reading signed y)))) (reading signed z)) =
      BitVec.ofInt w (min (reading signed x) (reading signed (BitVec.ofInt w (min (reading signed y) (reading signed z))))) := by
  have exact' : ∀ a b : BitVec w, reading signed (BitVec.ofInt w (min (reading signed a) (reading signed b))) =
      min (reading signed a) (reading signed b) := by
    intro a b
    rcases min_choice (reading signed a) (reading signed b) with first | second
    · rw [first,ofInt_reading]
    · rw [second,ofInt_reading]
  rw [exact',exact',min_assoc]

theorem reduction_comm (t : InstrType) (x y : BitVec w) : reduction t x y = reduction t y x := by
  cases t
  case vredand => exact BitVec.and_comm x y
  case vredor => exact BitVec.or_comm x y
  case vredxor => exact BitVec.xor_comm x y
  case vredmax | vredmaxu => exact congrArg (BitVec.ofInt w) (max_comm _ _)
  case vredmin | vredminu => exact congrArg (BitVec.ofInt w) (min_comm _ _)
  all_goals exact BitVec.add_comm x y

theorem reduction_assoc (t : InstrType) (x y z : BitVec w) :
    reduction t (reduction t x y) z = reduction t x (reduction t y z) := by
  cases t
  case vredand => exact BitVec.and_assoc x y z
  case vredor => exact BitVec.or_assoc x y z
  case vredxor => exact BitVec.xor_assoc x y z
  case vredmax => exact max_assoc_reading true x y z
  case vredmaxu => exact max_assoc_reading false x y z
  case vredmin => exact min_assoc_reading true x y z
  case vredminu => exact min_assoc_reading false x y z
  all_goals exact BitVec.add_assoc x y z

instance (t : InstrType) : Std.Associative (reduction (w := w) t) := ⟨reduction_assoc t⟩

instance (t : InstrType) : Std.Commutative (reduction (w := w) t) := ⟨reduction_comm t⟩

theorem select_max {signed : Bool} {x y : BitVec w} {less : Bool} (compares : less = decide (reading signed x < reading signed y)) :
    (if less then y else x) = BitVec.ofInt w (max (reading signed x) (reading signed y)) := by
  rw [compares]
  by_cases below : reading signed x < reading signed y
  · rw [decide_eq_true below,if_pos rfl,max_eq_right (le_of_lt below),ofInt_reading]
  · rw [decide_eq_false below,if_neg Bool.false_ne_true,max_eq_left (not_lt.mp below),ofInt_reading]

theorem select_min {signed : Bool} {x y : BitVec w} {less : Bool} (compares : less = decide (reading signed x < reading signed y)) :
    (if less then x else y) = BitVec.ofInt w (min (reading signed x) (reading signed y)) := by
  rw [compares]
  by_cases below : reading signed x < reading signed y
  · rw [decide_eq_true below,if_pos rfl,min_eq_left (le_of_lt below),ofInt_reading]
  · rw [decide_eq_false below,if_neg Bool.false_ne_true,min_eq_right (not_lt.mp below),ofInt_reading]

theorem slt_reading (x y : BitVec w) : x.slt y = decide (reading true x < reading true y) := rfl

theorem ult_reading (x y : BitVec w) : x.ult y = decide (reading false x < reading false y) := by
  simp [reading,BitVec.ult]

theorem combineOut_exact {t : InstrType} (kind : isVred t = true) (x y : BitVec w) : combineOut t x y = some (reduction t x y) := by
  cases t <;> first
    | rfl
    | exact congrArg some (select_max (slt_reading x y))
    | exact congrArg some (select_max (ult_reading x y))
    | exact congrArg some (select_min (slt_reading x y))
    | exact congrArg some (select_min (ult_reading x y))
    | exact absurd kind Bool.false_ne_true

end

end Sargantana.Vredtree
