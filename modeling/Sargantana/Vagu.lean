import Sargantana.DracPkg

-- vagu, which cuts a vector memory instruction into requests. DCACHE_RESP_DATA_WIDTH is 128
-- and MAX_VELEM is 16, so the branches for wider responses are never taken. The seven-bit
-- counters stay below 64 and are natural numbers here.
namespace Sargantana.Vagu
open DracPkg

variable {α : Type}

-- vmem_ops_state_q
inductive Mode where
  | scalar | vlUnit | vsUnit | vlStrided | vsStrided | vlIndexed | vsIndexed
  deriving DecidableEq, Repr

-- The types that InstrType does not name, by their places in instr_type_t
def vle : InstrType := .other 241
def vlse : InstrType := .other 247
def vlxe : InstrType := .other 249

-- LB, LH, LW and LD, and SB, SH, SW and SD
def loadType : Nat → InstrType
  | 0 => .other 53
  | 1 => .other 50
  | 2 => .other 47
  | _ => .other 45

def storeType : Nat → InstrType
  | 0 => .other 54
  | 1 => .other 52
  | 2 => .other 49
  | _ => .other 46

def isVector (t : InstrType) : Bool :=
  decide (t ∈ [vle,.vlm,.vl1r,.vse,.vsm,.vs1r,vlse,.vleff,.vsse,vlxe,.vsxe])

structure State (α : Type) where
  mode : Mode
  vaddr : BitVec 64
  velemCnt : Nat
  mask : BitVec 16
  index : BitVec 128
  vstoreBuffer : BitVec 128
  maskedOp : Bool
  stride : BitVec 64
  logStride : Nat
  reqTag : Fin 16
  instr : MemInstr α
  dataRs2 : BitVec 128
  vl : Nat
  vsew : Nat
  acumVelemIncr : Nat
  group : Bool
  groupNeg : Bool
  negStride : Bool

-- ovi_mask_idx_item_i holds the mask and, above it, the indices.
structure Input (α : Type) where
  instr : MemInstr α
  dataRs2 : BitVec 128
  flush : Bool
  stall : Bool
  maskValid : Bool
  mask : BitVec 16
  index : BitVec 128
  mop : BitVec 3
  vl : Nat
  stride : BitVec 64
  maskedOp : Bool
  vstoreDataValid : Bool
  vstoreData : BitVec 128

structure Output (α : Type) where
  instr : MemInstr α
  velemOff : Nat
  negStride : Bool
  aguReqTag : Fin 16
  dataRs2 : BitVec 128

-- The sizes of vector accesses are 0000, 0101, 0110 and 0111.
def elemLog (memSize : BitVec 4) : Nat := memSize.toNat % 4

-- Bytes from the start of the line, in elements
def lineOff (e : Nat) (vaddr : BitVec 64) : Nat := vaddr.toNat % 16 / 2 ^ e

def lineAddr (vaddr : BitVec 64) : BitVec 64 := (vaddr >>> 4) <<< 4

def misaligned (e : Nat) (vaddr : BitVec 64) : Bool := decide (vaddr.toNat % 2 ^ e ≠ 0)

-- The mask of n elements, `step` places apart
def spread (step : Nat) (place : Nat → Nat) : Nat → BitVec 16
  | 0 => 0
  | n + 1 => spread step place n ||| (1#16 <<< place (n * step))

def lowOnes (n : Nat) : BitVec 16 := BitVec.allOnes 16 >>> (16 - n)

-- What a state of the unit asks for in a cycle without stall or flush: the elements that it
-- counts, the next address and the fields of the request
structure Piece where
  velemIncr : Nat
  vaddrNext : BitVec 64
  dataRs1 : BitVec 64
  memSize : BitVec 4
  velemOff : Nat
  loadMask : BitVec 16
  misalign : Bool
  negStride : Bool
  makeReq : Bool

-- A request is for a whole line, as far as its elements go.
def lineSize : BitVec 4 := 8

def vlUnit (e : Nat) (s : State α) : Piece :=
  let room := 16 / 2 ^ e - lineOff e s.vaddr
  let incr := if room + s.velemCnt ≤ s.vl then room else s.vl - s.velemCnt
  { velemIncr := incr
    vaddrNext := s.vaddr + BitVec.ofNat 64 (incr * 2 ^ e)
    dataRs1 := if misaligned e s.vaddr then s.vaddr else lineAddr s.vaddr
    memSize := lineSize
    velemOff := lineOff e s.vaddr
    loadMask := if s.mask &&& lowOnes s.vl ≠ 0 ∨ s.maskedOp = false then lowOnes incr else 0
    misalign := misaligned e s.vaddr
    negStride := false
    makeReq := true }

-- The widest access, of at most 2 ^ b bytes, that the address and the elements left allow
def storeWidth (e : Nat) (s : State α) : Nat → Nat
  | 0 => e
  | b + 1 =>
    if e < b + 1 ∧ s.velemCnt + 2 ^ (b + 1 - e) ≤ s.vl ∧ s.vaddr.toNat % 2 ^ (b + 1) = 0 then b + 1 else storeWidth e s b

def sizeCode (b : Nat) : BitVec 4 := if b = 4 then lineSize else BitVec.ofNat 4 b

def vsUnit (e : Nat) (s : State α) : Piece :=
  let b := storeWidth e s 4
  { velemIncr := 2 ^ (b - e)
    vaddrNext := s.vaddr + BitVec.ofNat 64 (2 ^ b)
    dataRs1 := s.vaddr
    memSize := sizeCode b
    velemOff := 0
    loadMask := BitVec.allOnes 16
    misalign := misaligned e s.vaddr
    negStride := false
    makeReq := true }

-- Elements that a line holds from its offset on, for a stride that is a power of two
def groupRoom (e : Nat) (s : State α) (off : Nat) : Nat :=
  (16 / 2 ^ e - off + s.stride.toNat % 128 / 2 ^ e - 1) >>> (s.logStride - e)

def groupIncr (e : Nat) (s : State α) (off : Nat) : Nat :=
  if groupRoom e s off + s.velemCnt ≤ s.vl then groupRoom e s off else s.vl - s.velemCnt

-- group_mask and the test for an active element
def groupActive (s : State α) (incr : Nat) : Bool :=
  decide ((s.mask >>> s.velemCnt) &&& BitVec.ofNat 16 (2 ^ incr - 1) &&& lowOnes s.vl ≠ 0) || !s.maskedOp

def vlGroup (e : Nat) (s : State α) : Piece :=
  let off := lineOff e s.vaddr
  let incr := groupIncr e s off
  { velemIncr := incr
    vaddrNext := s.vaddr + BitVec.ofNat 64 (incr * 2 ^ s.logStride)
    dataRs1 := if misaligned e s.vaddr then s.vaddr else lineAddr s.vaddr
    memSize := lineSize
    velemOff := off
    loadMask := if groupActive s incr then spread (2 ^ (s.logStride - e)) id incr else 0
    misalign := misaligned e s.vaddr
    negStride := false
    makeReq := true }

def vlGroupNeg (e : Nat) (s : State α) : Piece :=
  let off := 16 / 2 ^ e - lineOff e s.vaddr - 1
  let incr := groupIncr e s off
  { velemIncr := incr
    vaddrNext := s.vaddr - BitVec.ofNat 64 (incr * 2 ^ s.logStride)
    dataRs1 := if misaligned e s.vaddr then s.vaddr else lineAddr s.vaddr
    memSize := lineSize
    velemOff := 0
    loadMask := if groupActive s incr then spread (2 ^ (s.logStride - e)) (fun i => 16 / 2 ^ e - 1 - i - off) incr else 0
    misalign := misaligned e s.vaddr
    negStride := true
    makeReq := true }

def active (s : State α) : Bool := !s.maskedOp || s.mask.getLsbD s.velemCnt

def vlSingle (e : Nat) (s : State α) : Piece where
  velemIncr := 1
  vaddrNext := if s.negStride then s.vaddr - s.stride else s.vaddr + s.stride
  dataRs1 := s.vaddr
  memSize := BitVec.ofNat 4 e
  velemOff := 0
  loadMask := if active s then 1 else 0
  misalign := misaligned e s.vaddr
  negStride := false
  makeReq := active s || decide (s.vl ≤ s.velemCnt + 1)

def vlStrided (e : Nat) (s : State α) : Piece :=
  if s.group && decide (e ≤ s.logStride) then vlGroup e s
  else if s.groupNeg && decide (e ≤ s.logStride) then vlGroupNeg e s
  else vlSingle e s

def vsStrided (e : Nat) (s : State α) : Piece :=
  { vlSingle e s with makeReq := true }

def indexAt (index : BitVec 128) (w i : Nat) : Nat := (index >>> (i * (8 * 2 ^ w))).toNat % 2 ^ (8 * 2 ^ w)

-- An index is read with at most the width of an element.
def indexed (e : Nat) (s : State α) : Piece where
  velemIncr := 1
  vaddrNext := s.vaddr
  dataRs1 := s.vaddr + BitVec.ofNat 64 (indexAt s.index (min e s.vsew) s.velemCnt)
  memSize := BitVec.ofNat 4 s.vsew
  velemOff := 0
  loadMask := if active s then 1 else 0
  misalign := false
  negStride := false
  makeReq := true

def vlIndexed (e : Nat) (s : State α) : Piece :=
  let live := s.mask.getLsbD s.velemCnt
  { indexed e s with loadMask := if live then 1 else 0, makeReq := live || decide (s.vl ≤ s.velemCnt + 1) }

def piece (s : State α) : Piece :=
  let e := elemLog s.instr.memSize
  match s.mode with
  | .vsUnit => vsUnit e s
  | .vlStrided => vlStrided e s
  | .vsStrided => vsStrided e s
  | .vlIndexed => vlIndexed e s
  | .vsIndexed => indexed e s
  | _ => vlUnit e s

-- instr_type and sew of the request
def pieceType (s : State α) : InstrType :=
  match s.mode with
  | .vsStrided => storeType (elemLog s.instr.memSize)
  | .vlIndexed => loadType s.vsew
  | .vsIndexed => storeType s.vsew
  | _ => s.instr.instrType

def pieceSew (s : State α) : Fin 4 :=
  match s.mode with
  | .vlIndexed | .vsIndexed => s.instr.sew
  | _ => Fin.ofNat 4 (elemLog s.instr.memSize)

-- The places of the elements in vstore_buffer_q
def storeShift (s : State α) : Nat :=
  let e := match s.mode with
    | .vsIndexed => s.vsew
    | _ => elemLog s.instr.memSize
  s.velemCnt % (16 / 2 ^ e) * (8 * 2 ^ e)

-- Between vector instructions the counters still hold what the last one left.
def passes (s : State α) (i : Input α) : Output α where
  instr := { i.instr with
    valid := i.instr.valid && !isVector i.instr.instrType
    vmisalignXcpt := false
    velemId := Fin.ofNat 16 s.velemCnt
    loadMask := if i.instr.valid && i.instr.vl == 0 && isVector i.instr.instrType then 0 else BitVec.allOnes 16
    velemIncr := Fin.ofNat 32 (s.acumVelemIncr + 31) }
  velemOff := 0
  negStride := false
  aguReqTag := 0
  dataRs2 := i.dataRs2

def request (s : State α) : Output α :=
  let p := piece s
  { instr := { s.instr with
      valid := s.instr.valid && p.makeReq
      instrType := pieceType s
      memSize := p.memSize
      dataRs1 := p.dataRs1
      sew := pieceSew s
      vmisalignXcpt := p.misalign
      velemId := Fin.ofNat 16 s.velemCnt
      loadMask := p.loadMask
      velemIncr := Fin.ofNat 32 (s.acumVelemIncr + p.velemIncr) }
    velemOff := p.velemOff
    negStride := p.negStride
    aguReqTag := s.reqTag
    dataRs2 := if s.mode ∈ [.vsUnit,.vsStrided,.vsIndexed] then s.vstoreBuffer >>> storeShift s else s.dataRs2 }

def output (s : State α) (i : Input α) : Output α :=
  if s.mode = .scalar then passes s i
  else { request s with instr := { (request s).instr with valid := (request s).instr.valid && !i.flush && !i.stall } }

def startMode (i : Input α) : Mode :=
  let t := i.instr.instrType
  if !(i.instr.valid && i.instr.vl != 0) then .scalar
  else if t ∈ [vle,.vlm,.vl1r] then .vlUnit
  else if t ∈ [.vse,.vsm,.vs1r] ∧ i.maskedOp = false then .vsUnit
  else if t ∈ [vlse,.vleff] ∧ i.mop.getLsbD 0 = false ∧ i.mop.getLsbD 2 = false then .vlStrided
  else if t ∈ [.vse,.vsse] ∧ i.mop.getLsbD 0 = false ∧ i.mop.getLsbD 2 = false then .vsStrided
  else if t = vlxe ∧ i.mop = 3 then .vlIndexed
  else if t = .vsxe ∧ i.mop.getLsbD 0 = true ∧ i.mop.getLsbD 1 = true then .vsIndexed
  else .scalar

-- A stride of at most eight bytes that is a power of two is served line by line.
def groups (stride : BitVec 64) (t : InstrType) : Bool :=
  decide (stride.toNat ∈ [1,2,4,8]) && decide (t ≠ .vleff)

-- The highest one of stride_d[5:0]; the register keeps its value when there is none.
def logOf (old : Nat) (stride : BitVec 64) : Nat :=
  (List.range 6).foldl (fun log j => if stride.getLsbD j then j else log) old

def accept (s : State α) (i : Input α) : State α :=
  let magnitude := if i.stride.getLsbD 63 then -i.stride else i.stride
  { s with
    mode := startMode i
    vaddr := i.instr.dataRs1
    velemCnt := 0
    maskedOp := i.maskedOp
    stride := magnitude
    logStride := logOf s.logStride magnitude
    instr := i.instr
    dataRs2 := i.dataRs2
    vl := i.vl
    vsew := i.instr.sew.val
    acumVelemIncr := 0
    group := groups i.stride i.instr.instrType
    groupNeg := !groups i.stride i.instr.instrType && groups (-i.stride) i.instr.instrType
    negStride := i.stride.getLsbD 63 }

-- The counter of the elements that no request was made for; a request for a line does not
-- touch it.
def nextAcum (s : State α) (p : Piece) : Nat :=
  match s.mode with
  | .vlStrided => if p.memSize = lineSize then s.acumVelemIncr else if active s then 0 else s.acumVelemIncr + p.velemIncr
  | .vsStrided | .vlIndexed | .vsIndexed => if p.makeReq then 0 else s.acumVelemIncr + p.velemIncr
  | _ => s.acumVelemIncr

def ends (s : State α) (cnt : Nat) : Bool :=
  match s.mode with
  | .vlStrided => decide (s.vl ≤ cnt)
  | _ => decide (cnt = s.vl)

def advance (s : State α) (flush : Bool) : State α :=
  let p := piece s
  { s with
    mode := if ends s (s.velemCnt + p.velemIncr) || flush || p.misalign then .scalar else s.mode
    vaddr := p.vaddrNext
    velemCnt := s.velemCnt + p.velemIncr
    acumVelemIncr := nextAcum s p
    reqTag := if s.instr.valid && !flush && p.makeReq then s.reqTag + 1 else s.reqTag }

def next (s : State α) (i : Input α) : State α :=
  let moved := if i.stall && !i.flush then s else if s.mode = .scalar then accept s i else advance s i.flush
  { moved with
    mask := if i.maskValid then i.mask else s.mask
    index := if i.maskValid then i.index else s.index
    vstoreBuffer := if i.vstoreDataValid || decide (s.mode = .scalar) then i.vstoreData else s.vstoreBuffer }

-- A vector memory instruction in exe_stage, with the operands that vagu is given
structure VectorInstr (α : Type) where
  instr : MemInstr α
  useMask : Bool
  dataVm : BitVec 16
  dataRs2 : BitVec 64
  dataVs1 : BitVec 128
  dataVs2 : BitVec 128

def vaguVl (v : VectorInstr α) : Nat :=
  if v.instr.instrType ∈ [.vlm,.vsm] then (v.instr.vl.val + 7) / 8
  else if v.instr.instrType ∈ [.vl1r,.vs1r] then 16 / 2 ^ elemLog v.instr.memSize
  else v.instr.vl.val

def vaguMop (v : VectorInstr α) : BitVec 3 :=
  if v.instr.instrType ∈ [vlse,.vsse] then 2 else if v.instr.instrType ∈ [vlxe,.vsxe] then 3 else 0

def vaguStride (v : VectorInstr α) : BitVec 64 :=
  if v.instr.instrType ∈ [.vse,.vsm,.vs1r,.vleff] then BitVec.ofNat 64 (2 ^ elemLog v.instr.memSize) else v.dataRs2

def vaguIndex (v : VectorInstr α) : BitVec 128 := if v.instr.instrType = vlxe then v.dataVs2 else v.dataVs1

-- The inputs of vagu for an instruction, while it is not busy
def wired (v : VectorInstr α) (flush stall : Bool) : Input α where
  instr := v.instr
  dataRs2 := v.dataRs2.zeroExtend 128
  flush := flush
  stall := stall
  maskValid := v.useMask || decide (v.instr.instrType ∈ [vlxe,.vsxe])
  mask := v.dataVm &&& lowOnes (16 / 2 ^ v.instr.sew.val)
  index := vaguIndex v
  mop := vaguMop v
  vl := vaguVl v
  stride := vaguStride v
  maskedOp := v.useMask
  vstoreDataValid := v.instr.valid && decide (v.instr.instrType ∈ [.vse,.vsm,.vs1r,.vsse,.vsxe])
  vstoreData := v.dataVs2

-- A busy unit (stall_o) is given no mask and no store data.
def fed (s : State α) (v : VectorInstr α) (flush stall : Bool) : Input α :=
  let i := wired v flush stall
  { i with
    maskValid := i.maskValid && decide (s.mode = .scalar)
    vstoreDataValid := i.vstoreDataValid && decide (s.mode = .scalar) }

-- What the decoder, vsetvl and the register read promise of a vector access; LMUL is at most one.
structure Decoded (v : VectorInstr α) : Prop where
  valid : v.instr.valid = true
  vector : isVector v.instr.instrType = true
  size : v.instr.memSize ∈ [0,5,6,7]
  some : 0 < v.instr.vl.val
  register : v.instr.vl.val * 2 ^ v.instr.sew.val ≤ 16
  unmasked : v.useMask = false → v.dataVm = BitVec.allOnes 16

end Sargantana.Vagu
