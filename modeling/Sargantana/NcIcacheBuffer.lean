import Sargantana.DracPkg

-- nc_icache_buffer: the one-word buffer for fetches from regions that are not cached. PHY_ADDR_SIZE is 40,
-- as the registers of the module are.
namespace Sargantana.NcIcacheBuffer

-- The fields of drac_cfg_t that the module reads
structure DracCfg where
  ioSections : List (BitVec 40 × BitVec 40)
  mappedSections : List (BitVec 40 × BitVec 40)
  initBROM : BitVec 40 × BitVec 40
  debugProgramBuffer : BitVec 40 × BitVec 40

def rangeCheck (bounds : BitVec 40 × BitVec 40) (address : BitVec 40) : Bool :=
  decide (bounds.1.toNat ≤ address.toNat) && decide (address.toNat < bounds.2.toNat)

def isInsideIOSections (cfg : DracCfg) (address : BitVec 40) : Bool := cfg.ioSections.any (rangeCheck · address)

def isInsideMappedSections (cfg : DracCfg) (address : BitVec 40) : Bool := cfg.mappedSections.any (rangeCheck · address)

def addrIsNc (cfg : DracCfg) (address : BitVec 40) : Bool :=
  isInsideIOSections cfg address || rangeCheck cfg.initBROM address || rangeCheck cfg.debugProgramBuffer address

inductive NcState where
  | idle | wait | kill
  deriving DecidableEq, Repr

structure State where
  stateNc : NcState
  icacheNcline : BitVec 64
  bufferPaddr : BitVec 40
  paddrInfly : BitVec 40
  ncRspValid : Bool
  reqNcValid : Bool
  ncKill : Bool
  deriving DecidableEq, Repr

structure Input where
  enTranslation : Bool
  coreReqValid : Bool
  coreReqAddr : BitVec 40
  coreReqInvalidate : Bool
  coreReqKill : Bool
  l2GrantValid : Bool
  l2RespData : BitVec 512

def reset : State where
  stateNc := .idle
  icacheNcline := 0
  bufferPaddr := 0
  paddrInfly := 0
  ncRspValid := false
  reqNcValid := false
  ncKill := false

-- Bits 39:3 of an address
def wordOf (address : BitVec 40) : BitVec 37 := address.extractLsb' 3 37

def icacheReqValid (cfg : DracCfg) (i : Input) : Bool :=
  if addrIsNc cfg i.coreReqAddr && !i.enTranslation then false else i.coreReqValid

def ncKillD (i : Input) : Bool := i.coreReqKill || i.coreReqInvalidate

def reqNcValidD (cfg : DracCfg) (i : Input) : Bool :=
  if addrIsNc cfg i.coreReqAddr && !i.enTranslation && isInsideMappedSections cfg i.coreReqAddr && !ncKillD i then i.coreReqValid else false

def paddrInflyD (cfg : DracCfg) (s : State) (i : Input) : BitVec 40 := if reqNcValidD cfg i then i.coreReqAddr else s.paddrInfly

def sameAddrReq (s : State) : Bool := wordOf s.paddrInfly == wordOf s.bufferPaddr

def isInBuffer (s : State) : Bool := s.reqNcValid && sameAddrReq s

structure Control where
  reqNcValidO : Bool
  next : NcState
  waiting : Bool
  ncRspValidD : Bool

def control (s : State) (i : Input) : Control :=
  match s.stateNc with
  | .idle =>
    { reqNcValidO := s.reqNcValid && !sameAddrReq s
      next := if s.reqNcValid && !sameAddrReq s then .wait else .idle
      waiting := s.reqNcValid && !sameAddrReq s
      ncRspValidD := false }
  | .wait =>
    { reqNcValidO := false
      next := if i.l2GrantValid then .idle else if s.ncKill then .kill else .wait
      waiting := true
      ncRspValidD := !s.ncKill && i.l2GrantValid }
  | .kill =>
    { reqNcValidO := false
      next := if i.l2GrantValid then .idle else .kill
      waiting := true
      ncRspValidD := false }

-- req_nc_vaddr_o without its three zero bits
def reqNcVaddr (s : State) : BitVec 37 := wordOf s.paddrInfly

def coreRspNcBusy (s : State) (i : Input) : Bool := (control s i).waiting

def coreRspValid (s : State) : Bool := s.ncRspValid || isInBuffer s

def coreRspData (s : State) : BitVec 512 := BitVec.replicate 8 s.icacheNcline

def next (cfg : DracCfg) (s : State) (i : Input) : State where
  stateNc := (control s i).next
  icacheNcline := if (control s i).ncRspValidD then i.l2RespData.setWidth 64 else s.icacheNcline
  bufferPaddr := if s.ncKill then 0 else if (control s i).ncRspValidD then s.paddrInfly else s.bufferPaddr
  paddrInfly := paddrInflyD cfg s i
  ncRspValid := (control s i).ncRspValidD
  reqNcValid := reqNcValidD cfg i
  ncKill := ncKillD i

-- What a cycle of the FSM can be
inductive Cycle (s : State) (i : Input) : Prop where
  | rests (state : s.stateNc = .idle) (free : s.reqNcValid = true → sameAddrReq s = true) (controls : control s i = ⟨false,.idle,false,false⟩)
  | issues (state : s.stateNc = .idle) (asked : s.reqNcValid = true) (other : sameAddrReq s = false)
      (controls : control s i = ⟨true,.wait,true,false⟩)
  | answers (state : s.stateNc = .wait) (lives : s.ncKill = false) (grant : i.l2GrantValid = true)
      (controls : control s i = ⟨false,.idle,true,true⟩)
  | drops (state : s.stateNc = .wait ∧ s.ncKill = true ∨ s.stateNc = .kill) (grant : i.l2GrantValid = true)
      (controls : control s i = ⟨false,.idle,true,false⟩)
  | holds (state : s.stateNc = .wait) (lives : s.ncKill = false) (quiet : i.l2GrantValid = false)
      (controls : control s i = ⟨false,.wait,true,false⟩)
  | dies (state : s.stateNc = .wait ∧ s.ncKill = true ∨ s.stateNc = .kill) (quiet : i.l2GrantValid = false)
      (controls : control s i = ⟨false,.kill,true,false⟩)

theorem cycle (s : State) (i : Input) : Cycle s i := by
  cases state : s.stateNc with
  | idle =>
    cases asked : s.reqNcValid with
    | false => exact .rests state (by simp [asked]) (by simp [control,state,asked])
    | true =>
      cases other : sameAddrReq s with
      | true => exact .rests state (fun _ => other) (by simp [control,state,asked,other])
      | false => exact .issues state asked other (by simp [control,state,asked,other])
  | wait =>
    cases lives : s.ncKill <;> cases grant : i.l2GrantValid
    · exact .holds state lives grant (by simp [control,state,lives,grant])
    · exact .answers state lives grant (by simp [control,state,lives,grant])
    · exact .dies (.inl ⟨state,lives⟩) grant (by simp [control,state,lives,grant])
    · exact .drops (.inl ⟨state,lives⟩) grant (by simp [control,state,lives,grant])
  | kill =>
    cases grant : i.l2GrantValid
    · exact .dies (.inr state) grant (by simp [control,state,grant])
    · exact .drops (.inr state) grant (by simp [control,state,grant])

theorem reqNcValidD_iff {cfg : DracCfg} {i : Input} : reqNcValidD cfg i = true ↔
    i.coreReqValid = true ∧ addrIsNc cfg i.coreReqAddr = true ∧ i.enTranslation = false ∧
      isInsideMappedSections cfg i.coreReqAddr = true ∧ ncKillD i = false := by
  unfold reqNcValidD
  constructor
  · intro takes
    split at takes
    next region =>
      simp only [Bool.and_eq_true,Bool.not_eq_true'] at region
      exact ⟨takes,region.1.1.1,region.1.1.2,region.1.2,region.2⟩
    · cases takes
  · rintro ⟨valid,region,bare,mapped,lives⟩
    simp [valid,region,bare,mapped,lives]

theorem icacheReqValid_excludes {cfg : DracCfg} {i : Input} (takes : reqNcValidD cfg i = true) : icacheReqValid cfg i = false := by
  obtain ⟨_,region,bare,_⟩ := reqNcValidD_iff.mp takes
  simp [icacheReqValid,region,bare]

end Sargantana.NcIcacheBuffer
