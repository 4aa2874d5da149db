import Sargantana.DracPkg

-- decoder_sarg: the floating point instructions, which one flag accepts or refuses.
namespace Sargantana.FpDecoder
open DracPkg

-- The types that InstrType does not name, by their places in instr_type_t
def add : InstrType := .other 0
def addw : InstrType := .other 2
def fld : InstrType := .other 91
def flw : InstrType := .other 92
def fsd : InstrType := .other 93
def fsw : InstrType := .other 94
def fadd : InstrType := .other 95
def fsub : InstrType := .other 96
def fmul : InstrType := .other 97
def fdiv : InstrType := .other 98
def fminMax : InstrType := .other 99
def fsqrt : InstrType := .other 100
def fmadd : InstrType := .other 101
def fmsub : InstrType := .other 102
def fnmsub : InstrType := .other 103
def fnmadd : InstrType := .other 104
def fcvtF2I : InstrType := .other 105
def fcvtI2F : InstrType := .other 106
def fcvtF2F : InstrType := .other 107
def fsgnj : InstrType := .other 108
def fmvX2F : InstrType := .other 110
def fcmp : InstrType := .other 111
def fclass : InstrType := .other 112

structure Input where
  inst : BitVec 32
  valid : Bool
  ex : Exception
  frm : BitVec 3
  csrFs : BitVec 2

def opcode (w : BitVec 32) : Nat := (w.extractLsb' 0 7).toNat

def opLoadFp : Nat := 0b0000111
def opStoreFp : Nat := 0b0100111
def opFp : Nat := 0b1010011
def opFmadd : Nat := 0b1000011
def opFmsub : Nat := 0b1000111
def opFnmsub : Nat := 0b1001011
def opFnmadd : Nat := 0b1001111

def func5 (w : BitVec 32) : Nat := (w.extractLsb' 27 5).toNat

def fmt (w : BitVec 32) : Nat := (w.extractLsb' 25 2).toNat

-- The rounding mode, and the width of a load or a store
def rm (w : BitVec 32) : BitVec 3 := w.extractLsb' 12 3

structure Decoder where
  illegal : Bool
  checkFrm : Bool
  instrType : InstrType
  unit : FunctionalUnit
  memType : MemType
  memSize : BitVec 4
  rs2 : BitVec 5
  useRs1 : Bool
  useRs2 : Bool
  useFs1 : Bool
  useFs2 : Bool
  useFs3 : Bool
  useImm : Bool
  regfileWe : Bool
  fregfileWe : Bool
  op32 : Bool
  fmt : Bool
  frm : BitVec 3
  deriving DecidableEq

def initial (w : BitVec 32) : Decoder where
  illegal := false
  checkFrm := false
  instrType := add
  unit := .alu
  memType := .notMem
  memSize := 0#1 ++ rm w
  rs2 := w.extractLsb' 20 5
  useRs1 := false
  useRs2 := false
  useFs1 := false
  useFs2 := false
  useFs3 := false
  useImm := false
  regfileWe := false
  fregfileWe := false
  op32 := false
  fmt := false
  frm := rm w

-- if (check_frm): FRM_INV_1 and FRM_INV_2 are 5 and 6, FRM_DYN is 7.
def roundingMode (i : Input) (d : Decoder) : Decoder :=
  if d.checkFrm then
    if (rm i.inst).toNat = 5 ∨ (rm i.inst).toNat = 6 then { d with illegal := true }
    else if (rm i.inst).toNat = 7 then
      if i.frm.toNat = 5 ∨ i.frm.toNat = 6 ∨ i.frm.toNat = 7 then { d with illegal := true }
      else { d with frm := i.frm }
    else { d with frm := rm i.inst }
  else d

def fusedType (w : BitVec 32) : InstrType :=
  if opcode w = opFmadd then fmadd
  else if opcode w = opFmsub then fmsub
  else if opcode w = opFnmsub then fnmsub
  else fnmadd

def fusedFormat (w : BitVec 32) (d : Decoder) : Decoder :=
  match fmt w with
  | 0 => { d with fmt := false }
  | 1 => { d with fmt := true }
  | _ => { d with illegal := true }

def fused (i : Input) (d : Decoder) : Decoder :=
  if i.csrFs = 0 then { d with illegal := true }
  else
    roundingMode i (fusedFormat i.inst { d with
      unit := .fpu
      fregfileWe := true
      useImm := false
      useFs1 := true
      useFs2 := true
      useFs3 := true
      checkFrm := true
      instrType := fusedType i.inst })

-- F5_FP_FMV_F2I_FCLASS. A move is a sum with x0.
def moveOrClassify (w : BitVec 32) (d : Decoder) : Decoder :=
  match (rm w).toNat with
  | 0 => { d with
      instrType := if fmt w = 0 then addw else add
      op32 := decide (fmt w = 0)
      regfileWe := true
      unit := .alu
      rs2 := 0
      fregfileWe := false
      useImm := false
      useRs1 := false
      useRs2 := true
      useFs1 := true
      useFs2 := false }
  | 1 => { d with instrType := fclass }
  | _ => { d with illegal := true }

-- The case on func5
def operate (w : BitVec 32) (d : Decoder) : Decoder :=
  match func5 w with
  | 0b00000 => { d with instrType := fadd, checkFrm := true }
  | 0b00001 => { d with instrType := fsub, checkFrm := true }
  | 0b00010 => { d with instrType := fmul, checkFrm := true }
  | 0b00011 => { d with instrType := fdiv, checkFrm := true }
  | 0b01011 => { d with instrType := fsqrt, checkFrm := true, useFs2 := false }
  | 0b00100 => { d with instrType := fsgnj, illegal := if 2 < (rm w).toNat then true else d.illegal }
  | 0b00101 => { d with instrType := fminMax, illegal := if 1 < (rm w).toNat then true else d.illegal }
  | 0b11000 => { d with
      instrType := fcvtF2I
      checkFrm := true
      useFs2 := false
      fregfileWe := false
      regfileWe := true
      op32 := !d.rs2.getLsbD 1 }
  | 0b11100 => moveOrClassify w { d with fregfileWe := false, regfileWe := true, useFs2 := false }
  | 0b10100 => { d with
      instrType := fcmp
      fregfileWe := false
      regfileWe := true
      illegal := if 2 < (rm w).toNat then true else d.illegal }
  | 0b11010 => { d with
      instrType := fcvtI2F
      useFs1 := false
      useFs2 := false
      useRs1 := true
      fregfileWe := true
      regfileWe := false
      checkFrm := true }
  | 0b11110 => { d with
      instrType := fmvX2F
      useFs1 := false
      useFs2 := false
      useRs1 := true
      useRs2 := false
      op32 := decide (fmt w = 0)
      illegal := if (rm w).toNat ≠ 0 then true else d.illegal }
  | 0b01000 => { d with instrType := fcvtF2F, useFs2 := false, checkFrm := true }
  | _ => { d with illegal := true }

-- The case on fmt: its default clears the flag.
def format (w : BitVec 32) (d : Decoder) : Decoder :=
  match fmt w with
  | 0 => { d with fmt := false }
  | 1 => { d with fmt := true }
  | _ => { d with illegal := false }

def arithmetic (i : Input) (d : Decoder) : Decoder :=
  let e := { d with unit := .fpu, fregfileWe := true, useImm := false, useFs1 := true, useFs2 := true }
  if i.csrFs = 0 then { e with illegal := true } else roundingMode i (format i.inst (operate i.inst e))

-- The widths 0, 5, 6 and 7 are the ones of the vectors, which are not decoded here.
def load (i : Input) (d : Decoder) : Option Decoder :=
  let e := { d with memType := .load, useImm := false, unit := .mem, useRs1 := true }
  match (rm i.inst).toNat with
  | 2 => some (if i.csrFs = 0 then { e with illegal := true } else { e with instrType := flw, fregfileWe := true })
  | 3 => some (if i.csrFs = 0 then { e with illegal := true } else { e with instrType := fld, fregfileWe := true })
  | 1 | 4 => some { e with illegal := true }
  | _ => none

def store (i : Input) (d : Decoder) : Option Decoder :=
  let e := { d with memType := .store, unit := .mem, useImm := false, useRs1 := true }
  match (rm i.inst).toNat with
  | 2 => some (if i.csrFs = 0 then { e with illegal := true } else { e with instrType := fsw, useFs2 := true })
  | 3 => some (if i.csrFs = 0 then { e with illegal := true } else { e with instrType := fsd, useFs2 := true })
  | 1 | 4 => some { e with illegal := true }
  | _ => none

-- Nothing is decoded where the fetch has an exception or no instruction.
def decode (i : Input) : Option Decoder :=
  if i.ex.valid || !i.valid then some (initial i.inst)
  else if opcode i.inst = opLoadFp then load i (initial i.inst)
  else if opcode i.inst = opStoreFp then store i (initial i.inst)
  else if opcode i.inst = opFmadd ∨ opcode i.inst = opFmsub ∨ opcode i.inst = opFnmsub ∨ opcode i.inst = opFnmadd then
    some (fused i (initial i.inst))
  else if opcode i.inst = opFp then some (arithmetic i (initial i.inst))
  else none

-- decode_instr_o.ex. These instructions do not set xcpt_addr_misaligned_int.
def exO (i : Input) (d : Decoder) : Exception :=
  if i.ex.valid then i.ex
  else if d.illegal then ⟨true,0x02,i.inst.toNat⟩
  else ⟨false,0xff,i.inst.toNat⟩

-- The instructions as the architecture defines them
inductive Operation where
  | fusedAdd | fusedSub | fusedNegSub | fusedNegAdd
  | sum | difference | product | quotient | root | sign | extremum
  | toInteger | moveOut | comparison | fromInteger | moveIn | between
  | load | store
  deriving DecidableEq

def operations : List (Nat × Operation) :=
  [(0b00000,.sum),(0b00001,.difference),(0b00010,.product),(0b00011,.quotient),(0b01011,.root),(0b00100,.sign),
   (0b00101,.extremum),(0b11000,.toInteger),(0b11100,.moveOut),(0b10100,.comparison),(0b11010,.fromInteger),
   (0b11110,.moveIn),(0b01000,.between)]

def implemented (w : BitVec 32) : Option Operation := ((operations.find? fun row => row.1 == func5 w)).map Prod.snd

def operation (w : BitVec 32) : Option Operation :=
  if opcode w = opLoadFp then some .load
  else if opcode w = opStoreFp then some .store
  else if opcode w = opFmadd then some .fusedAdd
  else if opcode w = opFmsub then some .fusedSub
  else if opcode w = opFnmsub then some .fusedNegSub
  else if opcode w = opFnmadd then some .fusedNegAdd
  else implemented w

def Operation.rounds : Operation → Bool
  | .fusedAdd | .fusedSub | .fusedNegSub | .fusedNegAdd | .sum | .difference | .product | .quotient | .root => true
  | .toInteger | .fromInteger | .between => true
  | _ => false

-- Where rm does not round it selects one of so many.
def Operation.selections : Operation → Nat
  | .sign | .comparison => 3
  | .extremum | .moveOut => 2
  | .moveIn => 1
  | _ => 8

def isMemory (w : BitVec 32) : Bool := decide (opcode w = opLoadFp) || decide (opcode w = opStoreFp)

-- The format, S or D
def double (w : BitVec 32) : Option Bool :=
  if isMemory w then
    if (rm w).toNat = 2 then some false else if (rm w).toNat = 3 then some true else none
  else if fmt w = 0 then some false
  else if fmt w = 1 then some true
  else none

def mode (i : Input) : BitVec 3 := if (rm i.inst).toNat = 7 then i.frm else rm i.inst

def reserved (i : Input) : Bool := decide (5 ≤ (mode i).toNat)

def badSelection (w : BitVec 32) (o : Operation) : Bool := decide (o.selections ≤ (rm w).toNat)

-- The instruction has to raise an exception.
def required (i : Input) : Bool :=
  decide (i.csrFs = 0) || (double i.inst).isNone ||
    (operation i.inst).elim true fun o => badSelection i.inst o || (o.rounds && reserved i)

def Operation.instrType (o : Operation) (isDouble : Bool) (rm : BitVec 3) : InstrType :=
  match o with
  | .fusedAdd => fmadd
  | .fusedSub => fmsub
  | .fusedNegSub => fnmsub
  | .fusedNegAdd => fnmadd
  | .sum => fadd
  | .difference => fsub
  | .product => fmul
  | .quotient => fdiv
  | .root => fsqrt
  | .sign => fsgnj
  | .extremum => fminMax
  | .toInteger => fcvtF2I
  | .moveOut => if rm = 1 then fclass else if isDouble then add else addw
  | .comparison => fcmp
  | .fromInteger => fcvtI2F
  | .moveIn => fmvX2F
  | .between => fcvtF2F
  | .load => if isDouble then fld else flw
  | .store => if isDouble then fsd else fsw

def Operation.unit (o : Operation) (rm : BitVec 3) : FunctionalUnit :=
  match o with
  | .load | .store => .mem
  | .moveOut => if rm = 1 then .fpu else .alu
  | _ => .fpu

structure Faithful (i : Input) (d : Decoder) (o : Operation) (isDouble : Bool) : Prop where
  instrType : d.instrType = o.instrType isDouble (rm i.inst)
  unit : d.unit = o.unit (rm i.inst)
  format : if isMemory i.inst then d.memSize.toNat = (if isDouble then 3 else 2) else d.fmt = isDouble
  mode : d.frm = if o.rounds then mode i else rm i.inst
  summand : o = .moveOut → rm i.inst ≠ 1 → d.rs2 = 0 ∧ d.useFs1 = true ∧ d.useRs2 = true

def Meets (i : Input) (d : Decoder) : Prop :=
  (required i = true → exO i d = ⟨true,0x02,i.inst.toNat⟩) ∧
  ((exO i d).valid = false → ∃ o isDouble, operation i.inst = some o ∧ double i.inst = some isDouble ∧ Faithful i d o isDouble)

structure Presented (i : Input) : Prop where
  valid : i.valid = true
  fresh : i.ex.valid = false

instance (i : Input) : Decidable (Presented i) :=
  decidable_of_iff (i.valid = true ∧ i.ex.valid = false) ⟨fun both => ⟨both.1,both.2⟩,fun presented => ⟨presented.valid,presented.fresh⟩⟩

def IsFp (w : BitVec 32) : Prop :=
  opcode w ∈ [opFp,opFmadd,opFmsub,opFnmsub,opFnmadd] ∨
    (isMemory w = true ∧ (rm w).toNat ∈ [1,2,3,4])

instance (w : BitVec 32) : Decidable (IsFp w) := inferInstanceAs (Decidable (_ ∨ _))

-- The format is refused and nothing after it refuses again.
def slips (i : Input) : Bool :=
  decide (opcode i.inst = opFp) && decide (i.csrFs ≠ 0) && decide (2 ≤ fmt i.inst) &&
    !((implemented i.inst).elim false fun o => o.rounds && reserved i)

section
variable {i : Input} {w : BitVec 32} {d : Decoder} {o : Operation}

theorem rm_bound (w : BitVec 32) : (rm w).toNat < 8 := (rm w).isLt

theorem roundingMode_refuses (reserves : (d.checkFrm && reserved i) = true) : roundingMode i d = { d with illegal := true } := by
  rw [Bool.and_eq_true,reserved,decide_eq_true_iff,mode] at reserves
  obtain ⟨checks,above⟩ := reserves
  have small := rm_bound i.inst
  have bound := i.frm.isLt
  rw [roundingMode,if_pos checks]
  by_cases dynamic : (rm i.inst).toNat = 7
  · rw [if_pos dynamic] at above
    rw [if_neg (by omega),if_pos dynamic,if_pos (by omega)]
  · rw [if_neg dynamic] at above
    rw [if_pos (by omega)]

theorem roundingMode_takes (usable : (d.checkFrm && reserved i) = false) :
    roundingMode i d = { d with frm := if d.checkFrm then mode i else d.frm } := by
  rw [roundingMode]
  by_cases checks : d.checkFrm = true
  · rw [checks,Bool.true_and,reserved,decide_eq_false_iff_not,mode] at usable
    rw [if_pos checks,if_pos checks,mode]
    by_cases dynamic : (rm i.inst).toNat = 7
    · rw [if_pos dynamic] at usable ⊢
      rw [if_neg (by omega),if_pos dynamic,if_neg (by omega)]
    · rw [if_neg dynamic] at usable ⊢
      rw [if_neg (by omega),if_neg dynamic]
  · rw [if_neg checks,if_neg checks]

-- What the case on func5 does for an operation that there is
structure Operated (w : BitVec 32) (d : Decoder) (o : Operation) (e : Decoder) : Prop where
  illegal : e.illegal = badSelection w o
  checkFrm : e.checkFrm = o.rounds
  frm : e.frm = d.frm
  instrType : badSelection w o = false → e.instrType = o.instrType (decide (fmt w ≠ 0)) (rm w)
  unit : badSelection w o = false → e.unit = o.unit (rm w)
  summand : o = .moveOut → badSelection w o = false → rm w ≠ 1 → e.rs2 = 0 ∧ e.useFs1 = true ∧ e.useRs2 = true

theorem implemented_row (known : implemented w = some o) : (func5 w,o) ∈ operations := by
  obtain ⟨row,found,rfl⟩ := Option.map_eq_some_iff.mp known
  have same := List.find?_some found
  rw [beq_iff_eq] at same
  rw [← same]
  exact List.mem_of_find?_eq_some found

theorem operated_rounds {e : Decoder} (rounds : o.rounds = true) (checks : e.checkFrm = true) (accepted : e.illegal = false)
    (frm : e.frm = d.frm) (type : ∀ isDouble m, e.instrType = o.instrType isDouble m) (unit : ∀ m, e.unit = o.unit m) :
    Operated w d o e where
  illegal := by
    have small := rm_bound w
    have whole : o.selections = 8 := by cases o <;> first | rfl | cases rounds
    rw [accepted,badSelection,whole,decide_eq_false (by omega)]
  checkFrm := checks.trans rounds.symm
  frm := frm
  instrType := fun _ => type _ _
  unit := fun _ => unit _
  summand := by
    rintro rfl
    cases rounds

theorem operated_selects {e : Decoder} (still : o.rounds = false) (unchecked : e.checkFrm = false)
    (refuses : e.illegal = badSelection w o) (frm : e.frm = d.frm) (type : ∀ isDouble m, e.instrType = o.instrType isDouble m)
    (unit : ∀ m, e.unit = o.unit m) (other : o ≠ .moveOut) : Operated w d o e where
  illegal := refuses
  checkFrm := unchecked.trans still.symm
  frm := frm
  instrType := fun _ => type _ _
  unit := fun _ => unit _
  summand := fun same => absurd same other

theorem refuses_selection {P : Prop} [Decidable P] (accepted : d.illegal = false) (same : P ↔ o.selections ≤ (rm w).toNat) :
    (if P then true else d.illegal) = badSelection w o := by
  rw [badSelection,accepted,decide_eq_decide.mpr same.symm]
  by_cases outside : P
  · rw [if_pos outside,decide_eq_true outside]
  · rw [if_neg outside,decide_eq_false outside]

theorem rm_eq {k : BitVec 3} : rm w = k ↔ (rm w).toNat = k.toNat := BitVec.toNat_inj.symm

theorem operated_moves {e : Decoder} (accepted : e.illegal = false) (unchecked : e.checkFrm = false) (unit : e.unit = .fpu)
    (frm : e.frm = d.frm) : Operated w d .moveOut (moveOrClassify w e) := by
  have selects : badSelection w .moveOut = decide (2 ≤ (rm w).toNat) := rfl
  have chosen : (rm w).toNat = 0 ∨ (rm w).toNat = 1 ∨ 2 ≤ (rm w).toNat := by omega
  rcases chosen with moves | classifies | outside
  · have zero : rm w = 0 := rm_eq.mpr moves
    rw [moves] at selects
    rw [moveOrClassify,moves]
    refine ⟨accepted.trans selects.symm,unchecked,frm,fun _ => ?_,fun _ => ?_,fun _ _ _ => ⟨rfl,rfl,rfl⟩⟩
    · rw [zero]
      by_cases single : fmt w = 0
      · simp [Operation.instrType,single]
      · simp [Operation.instrType,single]
    · rw [zero]
      rfl
  · have one : rm w = 1 := rm_eq.mpr classifies
    rw [classifies] at selects
    rw [moveOrClassify,classifies]
    refine ⟨accepted.trans selects.symm,unchecked,frm,fun _ => ?_,fun _ => ?_,fun _ _ other => absurd one other⟩
    · rw [one]
      rfl
    · rw [one]
      exact unit
  · rw [decide_eq_true outside] at selects
    have refused : moveOrClassify w e = { e with illegal := true } := by
      rw [moveOrClassify]
      split
      · omega
      · omega
      · rfl
    rw [refused]
    refine ⟨selects.symm,unchecked,frm,fun taken => ?_,fun taken => ?_,fun _ taken => ?_⟩ <;>
      exact absurd (selects.symm.trans taken) (by decide)

theorem operate_some (known : implemented w = some o) (accepted : d.illegal = false) (unchecked : d.checkFrm = false)
    (unit : d.unit = .fpu) : Operated w d o (operate w d) := by
  have row := implemented_row known
  simp only [operations,List.mem_cons,Prod.mk.injEq,List.not_mem_nil,or_false] at row
  rcases row with ⟨code,rfl⟩ | ⟨code,rfl⟩ | ⟨code,rfl⟩ | ⟨code,rfl⟩ | ⟨code,rfl⟩ | ⟨code,rfl⟩ | ⟨code,rfl⟩ | ⟨code,rfl⟩ |
    ⟨code,rfl⟩ | ⟨code,rfl⟩ | ⟨code,rfl⟩ | ⟨code,rfl⟩ | ⟨code,rfl⟩ <;> rw [operate,code]
  · exact operated_rounds rfl rfl accepted rfl (fun _ _ => rfl) fun _ => unit
  · exact operated_rounds rfl rfl accepted rfl (fun _ _ => rfl) fun _ => unit
  · exact operated_rounds rfl rfl accepted rfl (fun _ _ => rfl) fun _ => unit
  · exact operated_rounds rfl rfl accepted rfl (fun _ _ => rfl) fun _ => unit
  · exact operated_rounds rfl rfl accepted rfl (fun _ _ => rfl) fun _ => unit
  · exact operated_selects rfl unchecked (refuses_selection accepted Iff.rfl) rfl (fun _ _ => rfl) (fun _ => unit) (by decide)
  · exact operated_selects rfl unchecked (refuses_selection accepted Iff.rfl) rfl (fun _ _ => rfl) (fun _ => unit) (by decide)
  · exact operated_rounds rfl rfl accepted rfl (fun _ _ => rfl) fun _ => unit
  · exact operated_moves accepted unchecked unit rfl
  · exact operated_selects rfl unchecked (refuses_selection accepted Iff.rfl) rfl (fun _ _ => rfl) (fun _ => unit) (by decide)
  · exact operated_rounds rfl rfl accepted rfl (fun _ _ => rfl) fun _ => unit
  · exact operated_selects rfl unchecked (refuses_selection accepted Nat.pos_iff_ne_zero.symm) rfl (fun _ _ => rfl) (fun _ => unit)
      (by decide)
  · exact operated_rounds rfl rfl accepted rfl (fun _ _ => rfl) fun _ => unit

theorem operate_none (unknown : implemented w = none) : operate w d = { d with illegal := true } := by
  rw [implemented,Option.map_eq_none_iff,List.find?_eq_none] at unknown
  have other : ∀ f ∈ operations.map Prod.fst, func5 w ≠ f := by
    intro f member
    obtain ⟨row,inside,rfl⟩ := List.mem_map.mp member
    exact fun same => unknown row inside (beq_iff_eq.mpr same.symm)
  simp only [operations,List.map_cons,List.map_nil,List.forall_mem_cons] at other
  unfold operate
  split <;> simp_all

theorem roundingMode_illegal (i : Input) (d : Decoder) : (roundingMode i d).illegal = (d.illegal || (d.checkFrm && reserved i)) := by
  cases usable : d.checkFrm && reserved i with
  | true => rw [roundingMode_refuses usable,Bool.or_true]
  | false => rw [roundingMode_takes usable,Bool.or_false]

theorem refused_meets (fresh : i.ex.valid = false) (refused : d.illegal = true) : Meets i d := by
  have raised : exO i d = ⟨true,0x02,i.inst.toNat⟩ := by rw [exO,fresh,refused,if_neg (by decide),if_pos rfl]
  exact ⟨fun _ => raised,fun accepted => Bool.noConfusion ((congrArg Exception.valid raised).symm.trans accepted)⟩

theorem accepted_valid (fresh : i.ex.valid = false) (accepted : d.illegal = false) : (exO i d).valid = false := by
  rw [exO,fresh,accepted,if_neg (by decide),if_neg (by decide)]

theorem accepted_fails (fresh : i.ex.valid = false) (accepted : d.illegal = false) (requires : required i = true) : ¬ Meets i d := by
  intro meets
  have raised := meets.1 requires
  have silent := accepted_valid fresh accepted
  rw [raised] at silent
  cases silent

theorem faithful_meets {isDouble : Bool} (legal : required i = false) (named : operation i.inst = some o)
    (format : double i.inst = some isDouble) (faithful : Faithful i d o isDouble) : Meets i d :=
  ⟨fun requires => absurd (legal.symm.trans requires) (by decide),fun _ => ⟨o,isDouble,named,format,faithful⟩⟩

-- What the decoder leaves of an instruction: it meets the specification but for the slip, and never refuses
-- an instruction that is legal.
structure Settled (i : Input) (d : Decoder) : Prop where
  exact : Meets i d ↔ slips i = false
  legal : required i = false → d.illegal = false

theorem other_slips (other : opcode i.inst ≠ opFp) : slips i = false := by
  rw [slips,decide_eq_false other,Bool.false_and,Bool.false_and,Bool.false_and]

theorem refused_settled (fresh : i.ex.valid = false) (requires : required i = true) (refused : d.illegal = true)
    (safe : slips i = false) : Settled i d where
  exact := ⟨fun _ => safe,fun _ => refused_meets fresh refused⟩
  legal := fun legal => absurd (legal.symm.trans requires) (by decide)

theorem taken_settled {isDouble : Bool} (accepted : d.illegal = false) (legal : required i = false)
    (named : operation i.inst = some o) (format : double i.inst = some isDouble) (faithful : Faithful i d o isDouble)
    (safe : slips i = false) : Settled i d where
  exact := ⟨fun _ => safe,fun _ => faithful_meets legal named format faithful⟩
  legal := fun _ => accepted

theorem off_required (off : i.csrFs = 0) : required i = true := by
  rw [required,decide_eq_true off,Bool.true_or,Bool.true_or]

theorem memory_required (on : i.csrFs ≠ 0) (named : operation i.inst = some o)
    (moves : o = .load ∨ o = .store) : required i = (double i.inst).isNone := by
  have small := rm_bound i.inst
  have still : o.rounds = false ∧ o.selections = 8 := by rcases moves with rfl | rfl <;> exact ⟨rfl,rfl⟩
  rw [required,decide_eq_false on,named,Option.elim_some,badSelection,still.1,still.2,decide_eq_false (by omega)]
  simp

theorem memSize_initial (w : BitVec 32) : (initial w).memSize.toNat = (rm w).toNat := by
  have small := rm_bound w
  change (0#1 ++ rm w).toNat = _
  rw [BitVec.toNat_append]
  simp

theorem unsized_settled (fresh : i.ex.valid = false) (memory : isMemory i.inst = true) (safe : slips i = false)
    (width : (rm i.inst).toNat = 1 ∨ (rm i.inst).toNat = 4) (refused : d.illegal = true) : Settled i d := by
  have format : double i.inst = none := by rw [double,if_pos memory,if_neg (by omega),if_neg (by omega)]
  refine refused_settled fresh ?_ refused safe
  rw [required,format,Option.isNone_none,Bool.or_true,Bool.true_or]

theorem sized_settled {taken : Decoder} {isDouble : Bool} (fresh : i.ex.valid = false) (memory : isMemory i.inst = true)
    (safe : slips i = false) (named : operation i.inst = some o) (moves : o = .load ∨ o = .store)
    (format : double i.inst = some isDouble) (refused : d.illegal = true) (accepted : taken.illegal = false)
    (type : taken.instrType = o.instrType isDouble (rm i.inst)) (unit : taken.unit = .mem)
    (size : taken.memSize.toNat = if isDouble then 3 else 2) (frm : taken.frm = rm i.inst) :
    Settled i (if i.csrFs = 0 then d else taken) := by
  by_cases off : i.csrFs = 0
  · rw [if_pos off]
    exact refused_settled fresh (off_required off) refused safe
  · have requires := memory_required off named moves
    rw [format,Option.isNone_some] at requires
    rw [if_neg off]
    refine taken_settled accepted requires named format ⟨type,?_,?_,?_,?_⟩ safe
    · rcases moves with rfl | rfl <;> exact unit
    · rw [if_pos memory,size]
    · rcases moves with rfl | rfl <;> exact frm
    · rcases moves with rfl | rfl <;> exact fun same => Operation.noConfusion same

theorem double_memory (memory : isMemory i.inst = true) :
    ((rm i.inst).toNat = 2 → double i.inst = some false) ∧ ((rm i.inst).toNat = 3 → double i.inst = some true) := by
  constructor
  · intro width
    rw [double,if_pos memory,if_pos width]
  · intro width
    rw [double,if_pos memory,if_neg (by omega),if_pos width]

theorem load_settled (fresh : i.ex.valid = false) (here : opcode i.inst = opLoadFp) (width : (rm i.inst).toNat ∈ [1,2,3,4]) :
    ∃ d, load i (initial i.inst) = some d ∧ Settled i d := by
  have memory : isMemory i.inst = true := by rw [isMemory,decide_eq_true here,Bool.true_or]
  have named : operation i.inst = some .load := by rw [operation,if_pos here]
  have safe : slips i = false := other_slips (by rw [here]; decide)
  have sizes := memSize_initial i.inst
  simp only [List.mem_cons,List.not_mem_nil,or_false] at width
  unfold load
  rcases width with width | width | width | width <;> rw [width]
  · exact ⟨_,rfl,unsized_settled fresh memory safe (.inl width) rfl⟩
  · exact ⟨_,rfl,sized_settled fresh memory safe named (.inl rfl) ((double_memory memory).1 width) rfl rfl rfl rfl (sizes.trans width) rfl⟩
  · exact ⟨_,rfl,sized_settled fresh memory safe named (.inl rfl) ((double_memory memory).2 width) rfl rfl rfl rfl (sizes.trans width) rfl⟩
  · exact ⟨_,rfl,unsized_settled fresh memory safe (.inr width) rfl⟩

theorem store_settled (fresh : i.ex.valid = false) (here : opcode i.inst = opStoreFp) (width : (rm i.inst).toNat ∈ [1,2,3,4]) :
    ∃ d, store i (initial i.inst) = some d ∧ Settled i d := by
  have memory : isMemory i.inst = true := by rw [isMemory,decide_eq_true here,Bool.or_true]
  have named : operation i.inst = some .store := by rw [operation,here]; rfl
  have safe : slips i = false := other_slips (by rw [here]; decide)
  have sizes := memSize_initial i.inst
  simp only [List.mem_cons,List.not_mem_nil,or_false] at width
  unfold store
  rcases width with width | width | width | width <;> rw [width]
  · exact ⟨_,rfl,unsized_settled fresh memory safe (.inl width) rfl⟩
  · exact ⟨_,rfl,sized_settled fresh memory safe named (.inr rfl) ((double_memory memory).1 width) rfl rfl rfl rfl (sizes.trans width) rfl⟩
  · exact ⟨_,rfl,sized_settled fresh memory safe named (.inr rfl) ((double_memory memory).2 width) rfl rfl rfl rfl (sizes.trans width) rfl⟩
  · exact ⟨_,rfl,unsized_settled fresh memory safe (.inr width) rfl⟩

theorem double_cases (other : isMemory i.inst = false) :
    (fmt i.inst ≤ 1 ∧ double i.inst = some (decide (fmt i.inst ≠ 0))) ∨ (2 ≤ fmt i.inst ∧ double i.inst = none) := by
  rw [double,other,if_neg (by decide)]
  have small : fmt i.inst < 4 := (i.inst.extractLsb' 25 2).isLt
  have kinds : fmt i.inst = 0 ∨ fmt i.inst = 1 ∨ 2 ≤ fmt i.inst := by omega
  rcases kinds with zero | one | more
  · left
    simp [zero]
  · left
    simp [one]
  · right
    rw [if_neg (by omega),if_neg (by omega)]
    exact ⟨more,rfl⟩

theorem format_near (near : fmt w ≤ 1) (d : Decoder) :
    format w d = { d with fmt := decide (fmt w ≠ 0) } ∧ fusedFormat w d = { d with fmt := decide (fmt w ≠ 0) } := by
  rw [format,fusedFormat]
  have single : fmt w = 0 ∨ fmt w = 1 := by omega
  rcases single with zero | one
  · rw [zero]
    exact ⟨rfl,rfl⟩
  · rw [one]
    exact ⟨rfl,rfl⟩

theorem format_other (far : 2 ≤ fmt w) (d : Decoder) :
    format w d = { d with illegal := false } ∧ fusedFormat w d = { d with illegal := true } := by
  rw [format,fusedFormat]
  split
  · omega
  · omega
  · exact ⟨rfl,rfl⟩

theorem plain_memory (other : opcode i.inst ≠ opLoadFp ∧ opcode i.inst ≠ opStoreFp) : isMemory i.inst = false := by
  rw [isMemory,decide_eq_false other.1,decide_eq_false other.2]
  rfl

theorem fusedType_named (here : opcode i.inst ∈ [opFmadd,opFmsub,opFnmsub,opFnmadd]) :
    ∃ o, operation i.inst = some o ∧ o.rounds = true ∧ (∀ w, badSelection w o = false) ∧
      (∀ isDouble m, fusedType i.inst = o.instrType isDouble m) ∧ (∀ m, o.unit m = .fpu) ∧ o ≠ .moveOut := by
  have whole : ∀ w, decide (8 ≤ (rm w).toNat) = false := by
    intro w
    have small := rm_bound w
    exact decide_eq_false (by omega)
  simp only [List.mem_cons,List.not_mem_nil,or_false] at here
  rw [operation,fusedType]
  rcases here with here | here | here | here <;> rw [here]
  · exact ⟨.fusedAdd,rfl,rfl,whole,fun _ _ => rfl,fun _ => rfl,by decide⟩
  · exact ⟨.fusedSub,rfl,rfl,whole,fun _ _ => rfl,fun _ => rfl,by decide⟩
  · exact ⟨.fusedNegSub,rfl,rfl,whole,fun _ _ => rfl,fun _ => rfl,by decide⟩
  · exact ⟨.fusedNegAdd,rfl,rfl,whole,fun _ _ => rfl,fun _ => rfl,by decide⟩

theorem fused_settled (fresh : i.ex.valid = false) (here : opcode i.inst ∈ [opFmadd,opFmsub,opFnmsub,opFnmadd]) :
    Settled i (fused i (initial i.inst)) := by
  have apart : ∀ c ∈ [opFmadd,opFmsub,opFnmsub,opFnmadd], c ≠ opLoadFp ∧ c ≠ opStoreFp ∧ c ≠ opFp := by decide
  obtain ⟨noLoad,noStore,noFp⟩ := apart _ here
  have memory := plain_memory ⟨noLoad,noStore⟩
  have safe := other_slips noFp
  obtain ⟨o,named,rounds,free,type,unit,other⟩ := fusedType_named here
  rw [fused]
  by_cases off : i.csrFs = 0
  · rw [if_pos off]
    exact refused_settled fresh (off_required off) rfl safe
  · rw [if_neg off]
    have requires : required i = ((double i.inst).isNone || reserved i) := by
      rw [required,decide_eq_false off,named,Option.elim_some,free,rounds,Bool.false_or,Bool.false_or,Bool.true_and]
    rcases double_cases memory with ⟨near,format⟩ | ⟨far,format⟩
    · rw [format,Option.isNone_some,Bool.false_or] at requires
      rw [(format_near near _).2]
      cases mode' : reserved i with
      | true =>
        rw [mode'] at requires
        refine refused_settled fresh requires ?_ safe
        rw [roundingMode_illegal,mode',Bool.and_true,Bool.or_true]
      | false =>
        rw [mode'] at requires
        rw [roundingMode_takes (by rw [mode',Bool.and_false])]
        refine taken_settled rfl requires named format ⟨type _ _,(unit _).symm,?_,?_,fun same => absurd same other⟩ safe
        · rw [memory,if_neg (by decide)]
        · rw [rounds]
          rfl
    · rw [format,Option.isNone_none,Bool.true_or] at requires
      refine refused_settled fresh requires ?_ safe
      rw [roundingMode_illegal,(format_other far _).2,Bool.true_or]

theorem near_safe (near : fmt i.inst ≤ 1) : slips i = false := by
  have single : decide (2 ≤ fmt i.inst) = false := decide_eq_false (by omega)
  rw [slips,single,Bool.and_false,Bool.false_and]

-- With a format that there is the flag is what the case on func5 and the check of the mode make of it.
theorem near_settled (fresh : i.ex.valid = false) (on : i.csrFs ≠ 0) (near : fmt i.inst ≤ 1)
    (format : double i.inst = some (decide (fmt i.inst ≠ 0))) (memory : isMemory i.inst = false)
    (named : operation i.inst = implemented i.inst) {e : Decoder} (accepted : e.illegal = false) (unchecked : e.checkFrm = false)
    (unit : e.unit = .fpu) (frm : e.frm = rm i.inst) :
    Settled i (roundingMode i (FpDecoder.format i.inst (operate i.inst e))) := by
  have safe := near_safe near
  rw [(format_near near _).1]
  cases known : implemented i.inst with
  | none =>
    have requires : required i = true := by rw [required,named,known,Option.elim_none,Bool.or_true]
    refine refused_settled fresh requires ?_ safe
    rw [roundingMode_illegal,operate_none known,Bool.true_or]
  | some o =>
    have operated := operate_some known accepted unchecked unit
    have requires : required i = (badSelection i.inst o || (o.rounds && reserved i)) := by
      rw [required,decide_eq_false on,format,Option.isNone_some,named,known,Option.elim_some,Bool.false_or,Bool.false_or]
    cases refuses : badSelection i.inst o || (o.rounds && reserved i) with
    | true =>
      refine refused_settled fresh (requires.trans refuses) ?_ safe
      rw [roundingMode_illegal]
      change ((operate i.inst e).illegal || ((operate i.inst e).checkFrm && reserved i)) = true
      rw [operated.illegal,operated.checkFrm,refuses]
    | false =>
      obtain ⟨selected,rounded⟩ := Bool.or_eq_false_iff.mp refuses
      have usable : ({ operate i.inst e with fmt := decide (fmt i.inst ≠ 0) }.checkFrm && reserved i) = false := by
        change ((operate i.inst e).checkFrm && reserved i) = false
        rw [operated.checkFrm,rounded]
      rw [roundingMode_takes usable]
      refine taken_settled (operated.illegal.trans selected) (requires.trans refuses) (named.trans known) format
        ⟨operated.instrType selected,operated.unit selected,?_,?_,fun same => operated.summand same selected⟩ safe
      · rw [memory,if_neg (by decide)]
      · change (if (operate i.inst e).checkFrm then mode i else (operate i.inst e).frm) = _
        rw [operated.checkFrm,operated.frm,frm]

theorem far_settled (fresh : i.ex.valid = false) (here : opcode i.inst = opFp) (on : i.csrFs ≠ 0) (far : 2 ≤ fmt i.inst)
    (format : double i.inst = none) {e : Decoder} (accepted : e.illegal = false) (unchecked : e.checkFrm = false)
    (unit : e.unit = .fpu) : Settled i (roundingMode i (FpDecoder.format i.inst (operate i.inst e))) := by
  have requires : required i = true := by rw [required,format,Option.isNone_none,Bool.or_true,Bool.true_or]
  have kept : (operate i.inst e).checkFrm = (implemented i.inst).elim false Operation.rounds := by
    cases known : implemented i.inst with
    | none =>
      rw [operate_none known]
      exact unchecked
    | some o => exact (operate_some known accepted unchecked unit).checkFrm
  have slip : slips i = !((operate i.inst e).checkFrm && reserved i) := by
    rw [slips,decide_eq_true here,decide_eq_true on,decide_eq_true far,kept]
    cases implemented i.inst with
    | none => rfl
    | some o => rfl
  have flag : (roundingMode i (FpDecoder.format i.inst (operate i.inst e))).illegal = ((operate i.inst e).checkFrm && reserved i) := by
    rw [roundingMode_illegal,(format_other far _).1,Bool.false_or]
  cases refuses : (operate i.inst e).checkFrm && reserved i with
  | true => exact refused_settled fresh requires (flag.trans refuses) (by rw [slip,refuses]; rfl)
  | false =>
    have slipped : slips i = true := by rw [slip,refuses]; rfl
    refine ⟨⟨fun meets => absurd meets (accepted_fails fresh (flag.trans refuses) requires),fun safe => ?_⟩,fun legal => ?_⟩
    · exact Bool.noConfusion (safe.symm.trans slipped)
    · exact Bool.noConfusion (legal.symm.trans requires)

theorem arithmetic_settled (fresh : i.ex.valid = false) (here : opcode i.inst = opFp) : Settled i (arithmetic i (initial i.inst)) := by
  have memory := plain_memory (i := i) (by rw [here]; decide)
  have named : operation i.inst = implemented i.inst := by rw [operation,here]; rfl
  rw [arithmetic]
  by_cases off : i.csrFs = 0
  · have safe : slips i = false := by rw [slips,decide_eq_false (not_not.mpr off),Bool.and_false,Bool.false_and,Bool.false_and]
    rw [if_pos off]
    exact refused_settled fresh (off_required off) rfl safe
  · rw [if_neg off]
    rcases double_cases memory with ⟨near,format⟩ | ⟨far,format⟩
    · exact near_settled fresh off near format memory named rfl rfl rfl rfl
    · exact far_settled fresh here off far format rfl rfl rfl

theorem decode_settled (presented : Presented i) (here : IsFp i.inst) : ∃ d, decode i = some d ∧ Settled i d := by
  have fresh := presented.fresh
  have opens : (i.ex.valid || !i.valid) = false := by rw [fresh,presented.valid]; rfl
  rw [decode,opens,if_neg (by decide)]
  rcases here with arith | ⟨memory,width⟩
  · simp only [List.mem_cons,List.not_mem_nil,or_false] at arith
    by_cases fp : opcode i.inst = opFp
    · rw [fp]
      exact ⟨_,rfl,arithmetic_settled fresh fp⟩
    · have fuses : opcode i.inst = opFmadd ∨ opcode i.inst = opFmsub ∨ opcode i.inst = opFnmsub ∨ opcode i.inst = opFnmadd :=
        arith.resolve_left fp
      have apart : ∀ c, c = opFmadd ∨ c = opFmsub ∨ c = opFnmsub ∨ c = opFnmadd → c ≠ opLoadFp ∧ c ≠ opStoreFp := by
        rintro c (rfl | rfl | rfl | rfl) <;> decide
      obtain ⟨noLoad,noStore⟩ := apart _ fuses
      rw [if_neg noLoad,if_neg noStore,if_pos fuses]
      exact ⟨_,rfl,fused_settled fresh (by simpa using fuses)⟩
  · rw [isMemory,Bool.or_eq_true,decide_eq_true_iff,decide_eq_true_iff] at memory
    by_cases loads : opcode i.inst = opLoadFp
    · rw [if_pos loads]
      exact load_settled fresh loads width
    · have stores := memory.resolve_left loads
      rw [if_neg loads,if_pos stores]
      exact store_settled fresh stores width

end

theorem fp_decode_exact (i : Input) (presented : Presented i) (here : IsFp i.inst) :
    ∃ d, decode i = some d ∧ (Meets i d ↔ slips i = false) ∧ (required i = false → (exO i d).valid = false) := by
  obtain ⟨d,decoded,settled⟩ := decode_settled presented here
  exact ⟨d,decoded,settled.exact,fun legal => accepted_valid presented.fresh (settled.legal legal)⟩

-- fadd.s with the mode of frm, and fadd.h
theorem fp_decode_exact_sum : ∃ d, decode ⟨0x00007053,true,Exception.none,2,1⟩ = some d ∧
    Meets ⟨0x00007053,true,Exception.none,2,1⟩ d := by
  obtain ⟨d,decoded,exact,_⟩ := fp_decode_exact ⟨0x00007053,true,Exception.none,2,1⟩ (by decide) (by decide)
  exact ⟨d,decoded,exact.mpr (by decide)⟩

theorem half_accepted : ¬ ∀ (i : Input), Presented i → IsFp i.inst → ∃ d, decode i = some d ∧ Meets i d := by
  intro exact
  obtain ⟨d,decoded,meets⟩ := exact ⟨0x04000053,true,Exception.none,0,1⟩ (by decide) (by decide)
  have refused := meets.1 (by decide)
  have taken : d = arithmetic ⟨0x04000053,true,Exception.none,0,1⟩ (initial 0x04000053) := (Option.some.inj decoded).symm
  rw [taken] at refused
  exact absurd refused (by decide)

end Sargantana.FpDecoder
