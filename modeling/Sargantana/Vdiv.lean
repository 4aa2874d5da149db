import Sargantana.DracPkg
import Sargantana.Lib.Packed
import Sargantana.Lib.RestoringDivision

-- vdiv, the divider of a 64-bit lane. It divides the elements one after the other, from the
-- top one down, two quotient bits a cycle.
namespace Sargantana.Vdiv
open DracPkg Packed RestoringDivision

def bits (sew : Fin 4) : Nat := 8 * 2 ^ sew.val

def count (sew : Fin 4) : Nat := 64 / bits sew

def isSigned : InstrType → Bool
  | .vdiv | .vrem => true
  | _ => false

def isDivision : InstrType → Bool
  | .vdiv | .vdivu => true
  | _ => false

def isRemainder : InstrType → Bool
  | .vrem | .vremu => true
  | _ => false

structure Input where
  instrType : InstrType
  instrValid : Bool
  sew : Fin 4
  dataVs1 : BitVec 64
  dataVs2 : BitVec 64
  exeStages : Nat

def Input.starts (i : Input) : Bool := (isDivision i.instrType || isRemainder i.instrType) && i.instrValid

structure State where
  remnant : BitVec 64
  dividendQuotient : BitVec 64
  divisor : BitVec 64
  magnitudesVs1 : BitVec 64
  magnitudesVs2 : BitVec 64
  resultSigns : Nat → Bool
  divisionByZero : Nat → Bool
  dividenedElements : BitVec 64
  cyclesCounter : Nat
  numberOfDivisions : Nat
  remnants : BitVec 64
  quotients : BitVec 64
  sew : Fin 4
  instrType : InstrType

def reset : State := ⟨0,0,0,0,0,fun _ => false,fun _ => false,0,0,0,0,0,0,.other 0⟩

-- trunc_sum(~x + 1)
def negate {w : Nat} (x : BitVec w) : BitVec w := ~~~x + 1

def magnitude {w : Nat} (instrType : InstrType) (x : BitVec w) : BitVec w :=
  if isSigned instrType && x.msb then negate x else x

-- magnitudes_vs1_d and magnitudes_vs2_d of a division that comes in
def magnitudes (instrType : InstrType) (sew : Fin 4) (data : BitVec 64) : BitVec 64 :=
  pack 64 (count sew) fun i => magnitude instrType (element (bits sew) i data)

def alone (sew : Fin 4) (i : Nat) (x : BitVec 64) : BitVec 64 := (element (bits sew) i x).zeroExtend 64

-- div_2bits: (remanent_o, dividend_quotient_o)
def div2bits (sew : Fin 4) (divisor : BitVec 64) (registers : BitVec 64 × BitVec 64) : BitVec 64 × BitVec 64 :=
  (restoreBit (bits sew - 1) divisor)^[2] registers

-- remnant_i and dividend_quotient_i, with divisor_i
def firstRegisters (s : State) (i : Input) : BitVec 64 × BitVec 64 :=
  if i.starts then (0,alone i.sew (count i.sew - 1) (magnitudes i.instrType i.sew i.dataVs2))
  else (s.remnant,s.dividendQuotient)

def firstDivisor (s : State) (i : Input) : BitVec 64 :=
  if i.starts then alone i.sew (count i.sew - 1) (magnitudes i.instrType i.sew i.dataVs1) else s.divisor

-- remnant_out and dividend_quotient_out. The instance takes sew_q; sew_input is assigned and
-- goes nowhere.
def out (s : State) (i : Input) : BitVec 64 × BitVec 64 := div2bits s.sew (firstDivisor s i) (firstRegisters s i)

def start (s : State) (i : Input) : State :=
  { s with
    sew := i.sew
    instrType := i.instrType
    dividenedElements := i.dataVs2
    magnitudesVs1 := magnitudes i.instrType i.sew i.dataVs1
    magnitudesVs2 := magnitudes i.instrType i.sew i.dataVs2
    resultSigns := fun k => decide (k < count i.sew) && isSigned i.instrType &&
      ((element (bits i.sew) k i.dataVs1).msb ^^ (element (bits i.sew) k i.dataVs2).msb)
    divisionByZero := fun k => decide (k < count i.sew) && element (bits i.sew) k i.dataVs1 == 0
    remnant := (out s i).1
    dividendQuotient := (out s i).2
    divisor := firstDivisor s i
    numberOfDivisions := count i.sew - 1
    cyclesCounter := bits i.sew / 2 - 2 }

-- The element in hand is finished: it is stored, and the next one is loaded.
def store (s : State) (i : Input) : State :=
  { s with
    quotients := put s.numberOfDivisions ((out s i).2.truncate (bits s.sew)) s.quotients
    remnants := put s.numberOfDivisions ((out s i).1.truncate (bits s.sew)) s.remnants }

def next (s : State) (i : Input) : State :=
  if i.starts then start s i
  else if s.cyclesCounter ≠ 0 then
    { s with
      remnant := (out s i).1
      dividendQuotient := (out s i).2
      cyclesCounter := s.cyclesCounter - 1 }
  else if s.numberOfDivisions ≠ 0 then
    { store s i with
      remnant := 0
      dividendQuotient := alone s.sew (s.numberOfDivisions - 1) s.magnitudesVs2
      divisor := alone s.sew (s.numberOfDivisions - 1) s.magnitudesVs1
      cyclesCounter := bits s.sew / 2 - 1
      numberOfDivisions := s.numberOfDivisions - 1 }
  else store s i

-- A division of one clock is answered from the registers of the last one.
def oneClock (i : Input) : Bool := i.starts && i.exeStages == 1

-- The type, the quotient and the remainder that make up an element of the result
def parts (s : State) (i : Input) (k : Nat) : InstrType × BitVec (bits s.sew) × BitVec (bits s.sew) :=
  if 0 < k then (s.instrType,element (bits s.sew) k s.quotients,element (bits s.sew) k s.remnants)
  else if oneClock i then (i.instrType,element (bits s.sew) k s.quotients,element (bits s.sew) k s.remnants)
  else (s.instrType,element (bits s.sew) k (out s i).2,element (bits s.sew) k (out s i).1)

-- quotients_out and remnants_out
def quotientOut (s : State) (i : Input) (k : Nat) : BitVec (bits s.sew) :=
  if s.divisionByZero k then BitVec.allOnes _
  else if isSigned (parts s i k).1 && s.resultSigns k then negate (parts s i k).2.1 else (parts s i k).2.1

def remnantOut (s : State) (i : Input) (k : Nat) : BitVec (bits s.sew) :=
  if s.divisionByZero k then element (bits s.sew) k s.dividenedElements
  else if isSigned (parts s i k).1 && (element (bits s.sew) k s.dividenedElements).msb then negate (parts s i k).2.2
  else (parts s i k).2.2

def dataVd (s : State) (i : Input) : BitVec 64 :=
  pack 64 (count s.sew) fun k =>
    if isDivision (if i.instrValid && i.exeStages == 1 then i.instrType else s.instrType) then quotientOut s i k
    else remnantOut s i k

end Sargantana.Vdiv
