import Sargantana.StoreBuffer

namespace Sargantana.LoadStoreQueue
open DracPkg Window

variable {α : Type}

-- The defines SARG_BYPASS_LSQ and SIM_COMMIT_LOG, and the sections of DracCfg as
-- pairs of base and end.
structure Config where
  bypass : Bool
  simCommitLog : Bool
  ioSections : List (BitVec 48 × BitVec 48)
  mappedSections : List (BitVec 48 × BitVec 48)

-- tlb_cache_comm_t
structure TlbComm where
  tlbReady : Bool
  miss : Bool
  ppn : BitVec 44
  xcptLoad : Bool
  xcptStore : Bool

-- LSQ_NUM_ENTRIES is 8.
structure State (α : Type) where
  head : Fin 8
  tail : Fin 8
  tlbTail : Fin 8
  numToExe : Fin 16
  numToTranslate : Fin 16
  controlTable : Fin 8 → MemInstr α
  exReg : Bool
  exGlIndex : GlIndex
  storeBuffer : StoreBuffer.State α

structure Input (α : Type) where
  instruction : MemInstr α
  enLdStTranslation : Bool
  flush : Bool
  readNext : Bool
  robStoreAck : Bool
  robStoreGlIdx : GlIndex
  dtlb : TlbComm

def reset [Inhabited α] : State α := ⟨0,0,0,0,0,fun _ => MemInstr.zero,false,0,StoreBuffer.reset⟩

def rangeCheck (bounds : BitVec 48 × BitVec 48) (address : BitVec 64) : Bool :=
  decide (bounds.1.setWidth 64 ≤ address) && decide (address < bounds.2.setWidth 64)

def isInsideIOSections (cfg : Config) (address : BitVec 64) : Bool :=
  cfg.ioSections.any fun bounds => rangeCheck bounds address

def isInsideMappedSections (cfg : Config) (address : BitVec 64) : Bool :=
  cfg.mappedSections.any fun bounds => rangeCheck bounds address

def phisicMemLimit : BitVec 64 := (1 <<< 48) - 1

-- What the translation of an instruction reads beside the instruction.
structure Lookup where
  dtlb : TlbComm
  enable : Bool
  enLdStTranslation : Bool
  exReg : Bool
  exGlIndex : GlIndex

def isLoadReserved (x : MemInstr α) : Bool := x.instrType == .amoLrw || x.instrType == .amoLrd

def misaligned (x : MemInstr α) : Bool :=
  (x.memSize == 1 && x.dataRs1.extractLsb' 0 1 != 0) || (x.memSize == 2 && x.dataRs1.extractLsb' 0 2 != 0) ||
  (x.memSize == 3 && x.dataRs1.extractLsb' 0 3 != 0) || (x.memSize == 5 && x.dataRs1.extractLsb' 0 1 != 0) ||
  (x.memSize == 6 && x.dataRs1.extractLsb' 0 2 != 0) || (x.memSize == 7 && x.dataRs1.extractLsb' 0 3 != 0) ||
  x.vmisalignXcpt

-- VIRT_ADDR_SIZE is 39: the upper bits must repeat bit 38.
def notCanonical (address : BitVec 64) : Bool :=
  if address.getLsbD 38 then address.extractLsb' 39 25 != BitVec.allOnes 25 else address.extractLsb' 39 25 != 0

def unmapped (cfg : Config) (address : BitVec 64) : Bool :=
  !isInsideMappedSections cfg address || decide (phisicMemLimit ≤ address)

def invalidAddress (cfg : Config) (l : Lookup) (address physical : BitVec 64) : Bool :=
  (l.enLdStTranslation && notCanonical address) || (!l.enLdStTranslation && unmapped cfg address) ||
  (cfg.simCommitLog && l.enLdStTranslation && l.enable && unmapped cfg physical)

def physicalAddress (l : Lookup) (x : MemInstr α) : BitVec 64 :=
  (l.dtlb.ppn ++ x.dataRs1.extractLsb' 0 12).setWidth 64

-- The cases of the exception treatment, with the causes of riscv_pkg.
def translationException (cfg : Config) (l : Lookup) (x : MemInstr α) : Exception :=
  let storeLike := x.isAmoOrStore && !isLoadReserved x
  let raised (cause : Nat) : Exception := ⟨true,cause,x.dataRs1.toNat⟩
  if l.exReg && x.glIndex == l.exGlIndex then {x.ex with valid := true}
  else if x.loadMask == 0 then Exception.none
  else if misaligned x then raised (if storeLike then 6 else 4)
  else if l.dtlb.xcptStore && x.isAmoOrStore && !isLoadReserved x then raised 15
  else if l.dtlb.xcptLoad then raised 13
  else if invalidAddress cfg l x.dataRs1 (physicalAddress l x) then raised (if storeLike then 7 else 5)
  else Exception.none

def translate (cfg : Config) (l : Lookup) (x : MemInstr α) : MemInstr α :=
  {x with translated := l.enable, dataRs1 := physicalAddress l x, ex := translationException cfg l x}

def stBuffEmpty (s : State α) : Bool := StoreBuffer.empty s.storeBuffer

def emptyInt (s : State α) : Bool := decide (s.numToExe = 0) && stBuffEmpty s && decide (s.numToTranslate = 0)

def full (s : State α) (i : Input α) : Bool := decide (s.numToExe.val + s.numToTranslate.val = 8) || i.flush

def isLoad (x : MemInstr α) : Bool := x.memType == .load

def isStoreOrAmo (x : MemInstr α) : Bool := x.memType == .store || x.memType == .amo

def translateIncoming (s : State α) (i : Input α) : Bool :=
  i.instruction.valid && decide (s.numToTranslate = 0) && !full s i

def instrToTranslate (s : State α) (i : Input α) : MemInstr α :=
  if translateIncoming s i then i.instruction else s.controlTable s.tlbTail

def translateEnable (s : State α) (i : Input α) : Bool :=
  i.dtlb.tlbReady && !i.dtlb.miss && (instrToTranslate s i).valid

def lookup (s : State α) (i : Input α) : Lookup :=
  ⟨i.dtlb,translateEnable s i,i.enLdStTranslation,s.exReg,s.exGlIndex⟩

def translatedInstr (cfg : Config) (s : State α) (i : Input α) : MemInstr α :=
  translate cfg (lookup s i) (instrToTranslate s i)

-- dtlb_comm_o.req.vpn is 28 bits wide.
def requestVpn (s : State α) (i : Input α) : BitVec 28 := (instrToTranslate s i).dataRs1.extractLsb' 12 28

-- A load reaches an empty queue and hits in the TLB.
def arrivesAtEmpty (s : State α) (i : Input α) : Bool :=
  emptyInt s && (i.instruction.valid && isLoad i.instruction) && translateIncoming s i && translateEnable s i

-- bypass_lsq exists only with the define.
def bypassLsq (cfg : Config) (s : State α) (i : Input α) : Bool := cfg.bypass && arrivesAtEmpty s i

def readEnable (s : State α) (i : Input α) : Bool := i.readNext && (!emptyInt s || arrivesAtEmpty s i)

def writeEnable (s : State α) (i : Input α) : Bool :=
  i.instruction.valid && decide (s.numToExe.val < 8) && !((emptyInt s && isLoad i.instruction) && readEnable s i)

-- What leaves the group of entries to translate in this cycle.
def translates (cfg : Config) (s : State α) (i : Input α) : Bool :=
  let bypass := bypassLsq cfg s i
  if cfg.bypass then translateEnable s i &&
    ((translateIncoming s i && (!bypass || (bypass && !i.readNext))) || decide (0 < s.numToTranslate))
  else translateEnable s i && (translateIncoming s i || decide (0 < s.numToTranslate))

def headInstr (s : State α) : MemInstr α := s.controlTable s.head

def isNextLoad (s : State α) : Bool := decide (0 < s.numToExe) && isLoad (headInstr s)

def isNextStore (s : State α) : Bool := decide (0 < s.numToExe) && isStoreOrAmo (headInstr s)

def stBuffInstOut [Inhabited α] (s : State α) : MemInstr α := StoreBuffer.finishInstr s.storeBuffer

def stBuffCollision (s : State α) : Bool :=
  StoreBuffer.collision s.storeBuffer (headInstr s).dataRs1 (headInstr s).memSize

def ioAddressSpace (cfg : Config) (s : State α) : Bool := isInsideIOSections cfg (headInstr s).dataRs1

-- The commit stage names this instruction or the one before it.
def acknowledged (i : Input α) (x : MemInstr α) : Bool :=
  x.glIndex == i.robStoreGlIdx || x.glIndex == i.robStoreGlIdx + 1

-- The four cases in which the data cache can be given an instruction that is
-- held: a load or an acknowledged store at the head of the queue, an acknowledged
-- store at the head of the store buffer, a load of the IO space.
def loadInLsq (cfg : Config) (s : State α) : Bool := isNextLoad s && !stBuffCollision s && !ioAddressSpace cfg s

def storeInSb [Inhabited α] (s : State α) (i : Input α) : Bool :=
  i.robStoreAck && !stBuffEmpty s && acknowledged i (stBuffInstOut s)

def storeInLsq (s : State α) (i : Input α) : Bool := i.robStoreAck && isNextStore s && acknowledged i (headInstr s)

def ioLoadInLsq (cfg : Config) (s : State α) : Bool := isNextLoad s && !stBuffCollision s && ioAddressSpace cfg s

-- read_enable_lsq, read_enable_sb and sb_write_enable
structure Reads where
  lsq : Bool
  sb : Bool
  sbWrite : Bool
  deriving DecidableEq

def reads [Inhabited α] (cfg : Config) (s : State α) (i : Input α) : Reads :=
  if readEnable s i && loadInLsq cfg s then ⟨true,false,false⟩
  else if readEnable s i && storeInSb s i then ⟨false,true,false⟩
  else if readEnable s i && storeInLsq s i then ⟨true,false,false⟩
  else if readEnable s i && ioLoadInLsq cfg s then ⟨true,false,false⟩
  else if (!readEnable s i || !i.robStoreAck || !acknowledged i (headInstr s)) && isNextStore s &&
      !StoreBuffer.full s.storeBuffer i.flush then ⟨true,false,true⟩
  else ⟨false,false,false⟩

def nextInstrExe [Inhabited α] (cfg : Config) (s : State α) (i : Input α) : MemInstr α :=
  if bypassLsq cfg s i then translatedInstr cfg s i
  else if loadInLsq cfg s && (headInstr s).translated then headInstr s
  else if storeInSb s i then stBuffInstOut s
  else if storeInLsq s i && (headInstr s).translated then headInstr s
  else if ioLoadInLsq cfg s && (headInstr s).translated then headInstr s
  else MemInstr.zero

def blockedStore [Inhabited α] (cfg : Config) (s : State α) (i : Input α) : Bool :=
  if bypassLsq cfg s i then false
  else if loadInLsq cfg s then false
  else if storeInSb s i then false
  else if stBuffEmpty s && storeInLsq s i then false
  else if isNextLoad s && stBuffEmpty s && ioAddressSpace cfg s then false
  else true

def empty (cfg : Config) (s : State α) (i : Input α) : Bool := emptyInt s && !bypassLsq cfg s i

-- The exception of an element of a fault-only-first load is kept for the
-- elements of the same instruction that follow.
def nextEx (cfg : Config) (s : State α) (i : Input α) : Bool × GlIndex :=
  let x := translatedInstr cfg s i
  if i.flush then ⟨false,0⟩
  else if x.ex.valid && x.instrType == .vleff && x.velemId != 0 then ⟨true,x.glIndex⟩
  else if x.valid && x.glIndex != s.exGlIndex then ⟨false,0⟩
  else ⟨s.exReg,s.exGlIndex⟩

def nextTable (cfg : Config) (s : State α) (i : Input α) : Fin 8 → MemInstr α :=
  let written := if writeEnable s i then Function.update s.controlTable s.tail
      (if translateEnable s i && translateIncoming s i then translatedInstr cfg s i else i.instruction)
    else s.controlTable
  if translateEnable s i && !translateIncoming s i && decide (0 < s.numToTranslate) then
    Function.update written s.tlbTail (translatedInstr cfg s i)
  else written

def next [Inhabited α] (cfg : Config) (s : State α) (i : Input α) : State α :=
  let r := reads cfg s i
  let updated : State α := {s with
    controlTable := nextTable cfg s i
    exReg := (nextEx cfg s i).1
    exGlIndex := (nextEx cfg s i).2
    storeBuffer := StoreBuffer.next s.storeBuffer ⟨r.sbWrite,headInstr s,i.flush,r.sb⟩}
  if i.flush then {updated with head := 0, tail := 0, tlbTail := 0, numToExe := 0, numToTranslate := 0}
  else {updated with
    head := s.head + bit r.lsq
    tail := s.tail + bit (writeEnable s i)
    tlbTail := s.tlbTail + bit (translates cfg s i)
    numToExe := s.numToExe + bit (translates cfg s i) - bit r.lsq
    numToTranslate := s.numToTranslate + bit (writeEnable s i) - bit (translates cfg s i)}

end Sargantana.LoadStoreQueue
