import Sargantana.DracPkg

-- sargantana_top_icache: the controller, the replacement unit and the arrays. ITLB_CYCLE is 0, KILL_RESP is 1,
-- LINES_256 is 0; four ways of 64 sets with lines of 64 bytes.
namespace Sargantana.Icache

abbrev Way := Fin 4
abbrev Index := BitVec 6
abbrev Tag := BitVec 28
abbrev Line := BitVec 512

inductive Ctrl where
  | noReq | read | miss | tlbMiss | replay | kill | replayTlb | killTlb
  deriving DecidableEq, Repr

-- The inputs of sargantana_icache_ctrl. cache_enable_i is 1, flush_done_i is not used.
structure CtrlIn where
  flush : Bool
  invalidation : Bool
  ireqValid : Bool
  ireqKill : Bool
  ireqKillD : Bool
  mmuEx : Bool
  mmuMiss : Bool
  mmuPtwValid : Bool
  ifillRespValid : Bool
  ifillSentAck : Bool
  isHit : Bool

structure CtrlOut where
  state : Ctrl
  cmpEnable : Bool := false
  cacheRdEna : Bool := false
  cacheWrEna : Bool := false
  irespReady : Bool := false
  irespValid : Bool := false
  treqValid : Bool := false
  ifillReqValid : Bool := false
  replayValid : Bool := false
  flushEn : Bool := false

def CtrlIn.newRequest (c : CtrlIn) : Bool := !c.ifillRespValid && c.ireqValid
def CtrlIn.hitOrExcpt (c : CtrlIn) : Bool := c.isHit || c.mmuEx
def CtrlIn.flushOrKill (c : CtrlIn) : Bool := c.flush || c.ireqKill

-- The FSM of sargantana_icache_ctrl without its PMU outputs
def ctrl (state : Ctrl) (c : CtrlIn) : CtrlOut :=
  match state with
  | .read =>
    { state :=
        if c.flushOrKill || !c.newRequest then .read
        else if !c.hitOrExcpt && !c.mmuMiss then .miss
        else if c.hitOrExcpt && !c.mmuMiss then .read
        else .tlbMiss
      cmpEnable := true
      irespReady := (c.flushOrKill || !c.newRequest) || ((c.hitOrExcpt && !c.mmuMiss) && c.newRequest)
      ifillReqValid := !c.hitOrExcpt && !c.mmuMiss && !c.flushOrKill && c.newRequest && !c.ireqKillD
      irespValid := ((c.isHit && !c.mmuMiss) || c.mmuEx) && !c.flushOrKill && c.newRequest
      flushEn := c.flush }
  | .miss =>
    { state := if c.flushOrKill || c.mmuEx then .kill else if c.ifillRespValid then .replay else .miss
      cacheWrEna := c.ifillRespValid && !c.flushOrKill
      flushEn := c.flush }
  | .tlbMiss =>
    { state :=
        if c.flushOrKill && !c.mmuPtwValid then .killTlb
        else if c.mmuEx || c.flushOrKill then .read
        else if c.mmuPtwValid then .replayTlb
        else .tlbMiss
      irespValid := c.mmuEx
      flushEn := c.flush }
  | .replay =>
    { state := .read
      cmpEnable := true
      irespValid := c.mmuEx
      cacheRdEna := !c.flushOrKill && !c.mmuEx
      flushEn := c.flush
      replayValid := !c.flushOrKill && !c.mmuEx }
  | .kill => { state := if !c.ifillSentAck then .read else .kill }
  | .replayTlb =>
    { state := if c.invalidation && !c.mmuEx then .replayTlb else .read
      cmpEnable := !c.invalidation
      irespValid := c.mmuEx
      cacheRdEna := !c.mmuMiss && !c.mmuEx && !c.flushOrKill && !c.invalidation
      treqValid := !c.mmuMiss && !c.mmuEx && !c.flushOrKill && !c.invalidation
      flushEn := c.flush
      replayValid := !c.flushOrKill && !c.invalidation }
  | .killTlb => { state := if c.mmuPtwValid then .read else .killTlb }
  | .noReq => { state := .read }

-- What each output of the controller says about its state
theorem ctrl_write {state : Ctrl} {c : CtrlIn} (write : (ctrl state c).cacheWrEna = true) :
    state = .miss ∧ c.ifillRespValid = true ∧ c.flushOrKill = false := by
  cases state <;> simp [ctrl] at write
  exact ⟨rfl,write.1,write.2⟩

theorem ctrl_read {state : Ctrl} {c : CtrlIn} (ready : (ctrl state c).irespReady = true) : state = .read ∧ (ctrl state c).state = .read := by
  cases state <;> simp [ctrl] at ready
  refine ⟨rfl,?_⟩
  simp only [ctrl]
  split
  · rfl
  next busy =>
    simp only [Bool.or_eq_true,not_or,Bool.not_eq_true,Bool.not_eq_false'] at busy
    have found := ready.resolve_left (by simp [busy.1,busy.2])
    simp [found.1.1,found.1.2]

theorem ctrl_replay {state : Ctrl} {c : CtrlIn} (replays : (ctrl state c).replayValid = true) :
    c.flushOrKill = false ∧ (state = .replay ∧ c.mmuEx = false ∨ state = .replayTlb ∧ c.invalidation = false) := by
  cases state <;> simp [ctrl] at replays
  · exact ⟨replays.1,.inl ⟨rfl,replays.2⟩⟩
  · exact ⟨replays.1,.inr ⟨rfl,replays.2⟩⟩

-- A comparison of a living request that found nothing
structure CtrlIn.Missed (c : CtrlIn) : Prop where
  living : c.flushOrKill = false
  compares : c.newRequest = true
  nothing : c.hitOrExcpt = false
  translated : c.mmuMiss = false

theorem ctrl_request {state : Ctrl} {c : CtrlIn} :
    (ctrl state c).ifillReqValid = true ↔ state = .read ∧ c.Missed ∧ c.ireqKillD = false := by
  constructor
  · intro request
    cases state <;> simp [ctrl] at request
    exact ⟨rfl,⟨request.1.1.2,request.1.2,request.1.1.1.1,request.1.1.1.2⟩,request.2⟩
  · rintro ⟨rfl,missed,lives⟩
    simp [ctrl,missed.living,missed.compares,missed.nothing,missed.translated,lives]

theorem ctrl_missed {state : Ctrl} {c : CtrlIn} : (ctrl state c).state = .miss ↔
    (state = .miss ∧ c.flushOrKill = false ∧ c.mmuEx = false ∧ c.ifillRespValid = false) ∨ (state = .read ∧ c.Missed) := by
  constructor
  · intro missed
    cases state with
    | noReq => cases missed
    | replay => cases missed
    | tlbMiss =>
        simp only [ctrl] at missed
        split at missed
        · cases missed
        · split at missed
          · cases missed
          · split at missed <;> cases missed
    | kill =>
        simp only [ctrl] at missed
        split at missed <;> cases missed
    | replayTlb =>
        simp only [ctrl] at missed
        split at missed <;> cases missed
    | killTlb =>
        simp only [ctrl] at missed
        split at missed <;> cases missed
    | miss =>
        simp only [ctrl] at missed
        split at missed
        · cases missed
        next living =>
          split at missed
          · cases missed
          next silent =>
            simp only [Bool.or_eq_true,not_or,Bool.not_eq_true] at living silent
            exact .inl ⟨rfl,living.1,living.2,silent⟩
    | read =>
        simp only [ctrl] at missed
        split at missed
        · cases missed
        next busy =>
          split at missed
          next found =>
            simp only [Bool.or_eq_true,not_or,Bool.not_eq_true,Bool.not_eq_false,Bool.and_eq_true,Bool.not_eq_true'] at busy found
            exact .inr ⟨rfl,⟨busy.1,busy.2,found.1,found.2⟩⟩
          · split at missed <;> cases missed
  · rintro (⟨rfl,living,fine,silent⟩ | ⟨rfl,missed⟩)
    · simp [ctrl,living,fine,silent]
    · simp [ctrl,missed.living,missed.compares,missed.nothing,missed.translated]

theorem ctrl_progress {state : Ctrl} {c : CtrlIn} (goes : (ctrl state c).state ∈ [.miss,.tlbMiss,.replay,.replayTlb]) :
    (c.flushOrKill = false ∧ (state = .miss ∨ state = .tlbMiss ∨ (state = .read ∧ c.newRequest = true))) ∨
      (state = .replayTlb ∧ c.invalidation = true ∧ c.mmuEx = false) := by
  cases state with
  | noReq => simp [ctrl] at goes
  | replay => simp [ctrl] at goes
  | kill =>
      simp only [ctrl] at goes
      split at goes <;> simp at goes
  | killTlb =>
      simp only [ctrl] at goes
      split at goes <;> simp at goes
  | miss =>
      simp only [ctrl] at goes
      split at goes
      · simp at goes
      next living =>
        simp only [Bool.or_eq_true,not_or,Bool.not_eq_true] at living
        exact .inl ⟨living.1,.inl rfl⟩
  | tlbMiss =>
      simp only [ctrl] at goes
      split at goes
      · simp at goes
      · split at goes
        · simp at goes
        next living =>
          simp only [Bool.or_eq_true,not_or,Bool.not_eq_true] at living
          exact .inl ⟨living.2,.inr (.inl rfl)⟩
  | read =>
      simp only [ctrl] at goes
      split at goes
      · simp at goes
      next busy =>
        simp only [Bool.or_eq_true,not_or,Bool.not_eq_true,Bool.not_eq_false'] at busy
        exact .inl ⟨busy.1,.inr (.inr ⟨rfl,busy.2⟩)⟩
  | replayTlb =>
      simp only [ctrl] at goes ⊢
      split at goes
      next held =>
        simp only [Bool.and_eq_true,Bool.not_eq_true'] at held
        exact .inr ⟨trivial,held.1,held.2⟩
      · simp at goes

-- What the MMU answers for a page
structure Tresp where
  miss : Bool
  ptwV : Bool
  ppn : Tag
  xcpt : Bool
  deriving DecidableEq, Repr

structure State where
  ctrl : Ctrl
  idx : BitVec 12
  vpn : BitVec 28
  flush : Bool
  kill : Bool
  validIreq : Bool
  cmpEnable : Bool
  clineTag : Tag
  wayToReplace : Way
  tresp : Tresp
  ifillReqWasSent : Bool
  lfsr : BitVec 8
  -- the arrays and their output registers
  vbitVec : Way → Index → Bool
  tagRam : Way → Index → Tag
  dataRam : Way → Index → Line
  vbitO : Way → Bool
  tagO : Way → Tag
  dataO : Way → Line

structure Input where
  flush : Bool
  ireqValid : Bool
  ireqKill : Bool
  ireqIdx : BitVec 12
  ireqVpn : BitVec 28
  tresp : Tresp
  ifillRespValid : Bool
  ifillRespData : Line
  ifillRespInvValid : Bool
  ifillRespInvPaddr : BitVec 12

def validInv (i : Input) : Bool := i.ifillRespValid && i.ifillRespInvValid
def validIfillResp (i : Input) : Bool := i.ifillRespValid && !i.ifillRespInvValid

def indexOf (idx : BitVec 12) : Index := idx.extractLsb' 6 6

-- The set that an invalidation names
def invIndex (i : Input) : Index := i.ifillRespInvPaddr.extractLsb' 1 6

def vpnD (s : State) (i : Input) : BitVec 28 := if i.ireqValid then i.ireqVpn else s.vpn
def idxD (s : State) (i : Input) : BitVec 12 := if i.ireqValid then i.ireqIdx else s.idx

-- sargantana_icache_checker
def clineHit (s : State) (w : Way) : Bool := s.tagO w == s.tresp.ppn && s.vbitO w

def isHit (s : State) : Bool := clineHit s 0 || clineHit s 1 || clineHit s 2 || clineHit s 3

def firstHit (s : State) : Way := if clineHit s 0 then 0 else if clineHit s 1 then 1 else if clineHit s 2 then 2 else if clineHit s 3 then 3 else 0

def chunkSel (line : Line) (offset : BitVec 2) : BitVec 128 := line.extractLsb' (128 * offset.toNat) 128

def respData (s : State) : BitVec 128 :=
  if clineHit s (firstHit s) then chunkSel (s.dataO (firstHit s)) (s.idx.extractLsb' 4 2) else 0

def ctrlIn (s : State) (i : Input) (sent : Bool) : CtrlIn where
  flush := s.flush
  invalidation := validInv i
  ireqValid := s.validIreq
  ireqKill := s.kill
  ireqKillD := i.ireqKill
  mmuEx := s.tresp.xcpt
  mmuMiss := s.tresp.miss
  mmuPtwValid := s.tresp.ptwV
  ifillRespValid := validIfillResp i
  ifillSentAck := sent
  isHit := isHit s

-- icache_ifill_req_valid_o. The controller decides it without looking at ifill_sent_ack_i.
def ifillReqValid (s : State) (i : Input) : Bool := (ctrl s.ctrl (ctrlIn s i false)).ifillReqValid && !i.ireqKill

def ifillReqWasSentD (s : State) (i : Input) : Bool := ifillReqValid s i || (s.ifillReqWasSent && !validIfillResp i)

def out (s : State) (i : Input) : CtrlOut := ctrl s.ctrl (ctrlIn s i (ifillReqWasSentD s i))

-- icache_ifill_req_paddr_o without the offset
def ifillReqTag (s : State) : Tag := s.tresp.ppn
def ifillReqIndex (s : State) : Index := indexOf s.idx

def respReady (s : State) (i : Input) : Bool := (out s i).irespReady && !validInv i

def respValid (s : State) (i : Input) : Bool := (out s i).irespValid && !i.ireqKill

def respXcpt (s : State) (i : Input) : Bool := s.tresp.xcpt && (out s i).irespValid

def validIreqD (s : State) (i : Input) : Bool := i.ireqValid || (out s i).replayValid

def treqValid (s : State) (i : Input) : Bool := (out s i).treqValid || validIreqD s i

-- sargantana_icache_replace_unit
def invalReq (s : State) (i : Input) : Bool := !(out s i).flushEn && validInv i

def allWaysValid (s : State) : Bool := s.vbitO 0 && s.vbitO 1 && s.vbitO 2 && s.vbitO 3

def invalWay (s : State) : Way := if !s.vbitO 0 then 0 else if !s.vbitO 1 then 1 else if !s.vbitO 2 then 2 else if !s.vbitO 3 then 3 else 0

def wayToReplaceD (s : State) : Way :=
  if s.cmpEnable then (if allWaysValid s then (s.lfsr.setWidth 2).toFin else invalWay s) else s.wayToReplace

def lfsrD (s : State) (i : Input) : BitVec 8 :=
  if (out s i).cacheWrEna && allWaysValid s then
    s.lfsr.setWidth 7 ++ BitVec.ofBool (!(s.lfsr.getLsbD 7 ^^ s.lfsr.getLsbD 3 ^^ s.lfsr.getLsbD 2 ^^ s.lfsr.getLsbD 1))
  else s.lfsr

def vaddrIndex (s : State) (i : Input) : Index := if validInv i then invIndex i else indexOf (idxD s i)

def cacheRdValid (s : State) (i : Input) : Bool := validIreqD s i || (out s i).cacheRdEna

def tagReq (s : State) (i : Input) (w : Way) : Bool := cacheRdValid s i || invalReq s i || w == s.wayToReplace

def dataReq (s : State) (i : Input) (w : Way) : Bool :=
  if cacheRdValid s i then true else if (out s i).cacheWrEna then w == s.wayToReplace else false

def tagWe (s : State) (i : Input) : Bool := (out s i).cacheWrEna || invalReq s i

def validBit (s : State) (i : Input) : Bool := if validInv i then false else tagWe s i && !i.ireqKill && !s.kill

-- sargantana_itag_memory_sram and sargantana_idata_memory. A write keeps the output registers.
def vbitVecD (s : State) (i : Input) (w : Way) (x : Index) : Bool :=
  if i.flush then false
  else if tagReq s i w && tagWe s i && x == vaddrIndex s i then validBit s i
  else s.vbitVec w x

def vbitOD (s : State) (i : Input) (w : Way) : Bool :=
  if i.flush then false
  else if tagReq s i w && !tagWe s i then s.vbitVec w (vaddrIndex s i)
  else s.vbitO w

def tagRamD (s : State) (i : Input) (w : Way) (x : Index) : Tag :=
  if tagReq s i w && tagWe s i && x == vaddrIndex s i then s.clineTag else s.tagRam w x

-- Some way is always requested, and a read takes the tags of all.
def tagOD (s : State) (i : Input) (w : Way) : Tag := if tagWe s i then s.tagO w else s.tagRam w (vaddrIndex s i)

def dataRamD (s : State) (i : Input) (w : Way) (x : Index) : Line :=
  if dataReq s i w && (out s i).cacheWrEna && x == vaddrIndex s i then i.ifillRespData else s.dataRam w x

def dataOD (s : State) (i : Input) (w : Way) : Line :=
  if dataReq s i w && !(out s i).cacheWrEna then s.dataRam w (vaddrIndex s i) else s.dataO w

def next (s : State) (i : Input) : State where
  ctrl := (out s i).state
  idx := idxD s i
  vpn := vpnD s i
  flush := i.flush
  kill := i.ireqKill
  validIreq := validIreqD s i
  cmpEnable := (out s i).cmpEnable
  clineTag := s.tresp.ppn
  wayToReplace := wayToReplaceD s
  tresp := i.tresp
  ifillReqWasSent := ifillReqWasSentD s i
  lfsr := lfsrD s i
  vbitVec := vbitVecD s i
  tagRam := tagRamD s i
  dataRam := dataRamD s i
  vbitO := vbitOD s i
  tagO := tagOD s i
  dataO := dataOD s i

-- The reset does not touch the tag and data arrays.
def reset (tagRam : Way → Index → Tag) (dataRam : Way → Index → Line) : State where
  ctrl := .noReq
  idx := 0
  vpn := 0
  flush := false
  kill := false
  validIreq := false
  cmpEnable := false
  clineTag := 0
  wayToReplace := 0
  tresp := ⟨false,false,0,false⟩
  ifillReqWasSent := false
  lfsr := 0
  vbitVec := fun _ _ => false
  tagRam := tagRam
  dataRam := dataRam
  vbitO := fun _ => false
  tagO := fun _ => 0
  dataO := fun _ => 0

end Sargantana.Icache
