import Sargantana.Icache
import Sargantana.Lib.StateMachine

-- The instruction cache against the memory level and the MMU: what its lines and its answers are.
namespace Sargantana.IcacheSoundness

open Icache StateMachine

-- The cache with what surrounds it. `epoch` counts the flushes, `due` is the fill that the memory level owes
-- with the epoch of its request, `born` the epoch of the request behind each line, `asked` and `killed` are
-- about the last request.
structure World where
  cache : State
  mem : Tag → Index → Line
  translation : BitVec 28 → Tag
  due : Option (Tag × Index × Nat)
  epoch : Nat
  born : Way → Index → Nat
  asked : BitVec 28 × BitVec 12
  killed : Bool

-- The pins of a cycle, and the memory and the translations after it
structure Step where
  pins : Input
  mem : Tag → Index → Line
  translation : BitVec 28 → Tag

def after (w : World) (p : Step) : World where
  cache := next w.cache p.pins
  mem := p.mem
  translation := p.translation
  due :=
    if ifillReqValid w.cache p.pins then some (ifillReqTag w.cache,ifillReqIndex w.cache,w.epoch)
    else if validIfillResp p.pins then none
    else w.due
  epoch := if p.pins.flush then w.epoch + 1 else w.epoch
  born := fun way x =>
    if (out w.cache p.pins).cacheWrEna && way == w.cache.wayToReplace && x == vaddrIndex w.cache p.pins then
      (w.due.map fun d => d.2.2).getD 0
    else w.born way x
  asked := if p.pins.ireqValid then (p.pins.ireqVpn,p.pins.ireqIdx) else w.asked
  killed := p.pins.ireqKill || (!p.pins.ireqValid && w.killed)

structure Contract (w : World) (p : Step) : Prop where
  ready : p.pins.ireqValid = true → respReady w.cache p.pins = true
  -- each fill request is answered once, with the line of its address
  fill : validIfillResp p.pins = true → ∃ tag x epoch, w.due = some (tag,x,epoch) ∧ p.pins.ifillRespData = w.mem tag x
  page : p.pins.tresp.miss = false → p.pins.tresp.xcpt = false → p.pins.tresp.ppn = w.translation (vpnD w.cache p.pins)
  -- a page that was translated for the request in progress stays so
  stable : w.cache.ctrl = .miss ∨ w.cache.validIreq = true → w.cache.flush = false → w.cache.kill = false →
    vpnD w.cache p.pins = w.cache.vpn → w.cache.tresp.miss = false → w.cache.tresp.xcpt = false →
    p.pins.tresp.miss = false ∧ p.pins.tresp.xcpt = false
  memory : ∀ tag x, p.mem tag x ≠ w.mem tag x → p.pins.flush = true ∨ (validInv p.pins = true ∧ x = invIndex p.pins)
  pages : ∀ vpn, p.translation vpn ≠ w.translation vpn → p.pins.flush = true

def start (tagRam : Way → Index → Tag) (dataRam : Way → Index → Line) (mem : Tag → Index → Line) (translation : BitVec 28 → Tag) : World where
  cache := reset tagRam dataRam
  mem := mem
  translation := translation
  due := none
  epoch := 0
  born := fun _ _ => 0
  asked := (0,0)
  killed := false

def machine (initial : World) : Machine World Step where
  initial := initial
  allowed := Contract
  step := after

structure Sound (w : World) (p : Step) : Prop where
  lines : ∀ way x, w.cache.vbitVec way x = true → w.cache.dataRam way x = w.mem (w.cache.tagRam way x) x
  recent : ∀ way x, w.cache.vbitVec way x = true → w.born way x = w.epoch
  unique : ∀ one two x, w.cache.vbitVec one x = true → w.cache.vbitVec two x = true →
    w.cache.tagRam one x = w.cache.tagRam two x → one = two
  answer : respValid w.cache p.pins = true → respXcpt w.cache p.pins = false →
    respData w.cache = chunkSel (w.mem (w.translation w.asked.1) (indexOf w.asked.2)) (w.asked.2.extractLsb' 4 2)
  live : respValid w.cache p.pins = true → w.killed = false

-- An invalidation takes the array address in the cycle of a replay after a fill.
def stolenReplay (s : State) (i : Input) : Bool :=
  decide (s.ctrl = .replay) && validInv i && !s.flush && !s.kill && !s.tresp.xcpt

-- An invalidation holds the replay after a walk in the cycle in which a kill is seen.
def lostKill (s : State) (i : Input) : Bool := decide (s.ctrl = .replayTlb) && validInv i && s.kill && !s.tresp.xcpt

-- The MMU reports a fault in the cycle of the kill.
def strayFault (s : State) (i : Input) : Bool :=
  decide (s.ctrl = .tlbMiss ∨ s.ctrl = .replay ∨ s.ctrl = .replayTlb) && s.tresp.xcpt && s.kill && !i.ireqKill

def Meets (w : World) (p : Step) : Prop :=
  stolenReplay w.cache p.pins = false ∧ lostKill w.cache p.pins = false ∧ strayFault w.cache p.pins = false

theorem write_parts {s : State} {i : Input} (write : (out s i).cacheWrEna = true) :
    s.ctrl = .miss ∧ validIfillResp i = true ∧ s.flush = false ∧ s.kill = false := by
  obtain ⟨state,answered,living⟩ := ctrl_write write
  simp only [CtrlIn.flushOrKill,Bool.or_eq_false_iff] at living
  exact ⟨state,answered,living.1,living.2⟩

theorem ready_parts {s : State} {i : Input} (ready : respReady s i = true) :
    s.ctrl = .read ∧ (out s i).state = .read ∧ validInv i = false := by
  simp only [respReady,Bool.and_eq_true,Bool.not_eq_true'] at ready
  exact ⟨(ctrl_read ready.1).1,(ctrl_read ready.1).2,ready.2⟩

theorem replay_parts {s : State} {i : Input} (replays : (out s i).replayValid = true) :
    s.flush = false ∧ s.kill = false ∧ (s.ctrl = .replay ∧ s.tresp.xcpt = false ∨ s.ctrl = .replayTlb ∧ validInv i = false) := by
  obtain ⟨living,state⟩ := ctrl_replay replays
  simp only [CtrlIn.flushOrKill,Bool.or_eq_false_iff] at living
  exact ⟨living.1,living.2,state⟩

-- A comparison of a living request that found nothing
structure Missed (s : State) (i : Input) : Prop where
  flush : s.flush = false
  kill : s.kill = false
  silent : validIfillResp i = false
  compares : s.validIreq = true
  nothing : isHit s = false
  fine : s.tresp.xcpt = false
  translated : s.tresp.miss = false

theorem missed_iff {s : State} {i : Input} {sent : Bool} : (ctrlIn s i sent).Missed ↔ Missed s i := by
  constructor
  · rintro ⟨living,compares,nothing,translated⟩
    simp only [CtrlIn.flushOrKill,CtrlIn.newRequest,CtrlIn.hitOrExcpt,Bool.or_eq_false_iff,Bool.and_eq_true,Bool.not_eq_true'] at living compares nothing
    exact ⟨living.1,living.2,compares.1,compares.2,nothing.1,nothing.2,translated⟩
  · rintro ⟨flush,kill,silent,compares,nothing,fine,translated⟩
    refine ⟨?_,?_,?_,translated⟩
    · simp [CtrlIn.flushOrKill,ctrlIn,flush,kill]
    · simp [CtrlIn.newRequest,ctrlIn,silent,compares]
    · simp [CtrlIn.hitOrExcpt,ctrlIn,nothing,fine]

theorem request_iff {s : State} {i : Input} : ifillReqValid s i = true ↔ s.ctrl = .read ∧ Missed s i ∧ i.ireqKill = false := by
  rw [ifillReqValid,Bool.and_eq_true,ctrl_request,missed_iff]
  simp only [ctrlIn,Bool.not_eq_true']
  tauto

theorem miss_iff {s : State} {i : Input} : (out s i).state = .miss ↔
    (s.ctrl = .miss ∧ s.flush = false ∧ s.kill = false ∧ s.tresp.xcpt = false ∧ validIfillResp i = false) ∨
      (s.ctrl = .read ∧ Missed s i) := by
  rw [out,ctrl_missed,missed_iff]
  simp only [ctrlIn,CtrlIn.flushOrKill,Bool.or_eq_false_iff]
  tauto

theorem progress_parts {s : State} {i : Input} (goes : (out s i).state ∈ [.miss,.tlbMiss,.replay,.replayTlb]) :
    (s.flush = false ∧ s.kill = false ∧ (s.ctrl = .miss ∨ s.ctrl = .tlbMiss ∨ (s.ctrl = .read ∧ s.validIreq = true))) ∨
      (s.ctrl = .replayTlb ∧ validInv i = true ∧ s.tresp.xcpt = false) := by
  rcases ctrl_progress goes with ⟨living,state⟩ | held
  · simp only [CtrlIn.flushOrKill,CtrlIn.newRequest,Bool.or_eq_false_iff,Bool.and_eq_true] at living state
    refine .inl ⟨living.1,living.2,?_⟩
    rcases state with miss | walk | ⟨read,_,compares⟩
    · exact .inl miss
    · exact .inr (.inl walk)
    · exact .inr (.inr ⟨read,compares⟩)
  · exact .inr held

inductive Change (s : State) (i : Input) : Prop where
  | flushed (flush : i.flush = true)
  | filled (flush : i.flush = false) (write : (out s i).cacheWrEna = true)
      (vbits : ∀ way x, vbitVecD s i way x = if way = s.wayToReplace ∧ x = vaddrIndex s i then !i.ireqKill else s.vbitVec way x)
      (tags : ∀ way x, tagRamD s i way x = if way = s.wayToReplace ∧ x = vaddrIndex s i then s.clineTag else s.tagRam way x)
      (data : ∀ way x, dataRamD s i way x = if way = s.wayToReplace ∧ x = vaddrIndex s i then i.ifillRespData else s.dataRam way x)
  | cleared (flush : i.flush = false) (write : (out s i).cacheWrEna = false)
      (vbits : ∀ way x, vbitVecD s i way x = if x = invIndex i then false else s.vbitVec way x)
      (tags : ∀ way x, x ≠ invIndex i → tagRamD s i way x = s.tagRam way x)
      (data : ∀ way x, dataRamD s i way x = s.dataRam way x)
  | kept (flush : i.flush = false) (write : (out s i).cacheWrEna = false) (quiet : validInv i = false ∨ s.flush = true)
      (vbits : ∀ way x, vbitVecD s i way x = s.vbitVec way x) (tags : ∀ way x, tagRamD s i way x = s.tagRam way x)
      (data : ∀ way x, dataRamD s i way x = s.dataRam way x)

theorem flushEn_parts {s : State} {i : Input} (flushes : (out s i).flushEn = true) : s.flush = true := by
  cases state : s.ctrl <;> simp [out,Icache.ctrl,ctrlIn,state] at flushes <;> exact flushes

theorem resp_excludes {i : Input} (answered : validIfillResp i = true) : validInv i = false := by
  simp only [validIfillResp,Bool.and_eq_true,Bool.not_eq_true'] at answered
  simp [validInv,answered.2]

theorem write_alone {s : State} {i : Input} (write : (out s i).cacheWrEna = true)
    (ready : i.ireqValid = true → respReady s i = true) : cacheRdValid s i = false ∧ i.ireqValid = false := by
  obtain ⟨state,_⟩ := write_parts write
  have unasked : i.ireqValid = false := by
    by_contra asks
    have read := (ready_parts (ready (by simpa using asks))).1
    rw [state] at read
    cases read
  refine ⟨?_,unasked⟩
  simp [cacheRdValid,validIreqD,unasked,out,Icache.ctrl,state]

theorem change {s : State} {i : Input} (ready : i.ireqValid = true → respReady s i = true) : Change s i := by
  cases flush : i.flush with
  | true => exact .flushed flush
  | false =>
    cases write : (out s i).cacheWrEna with
    | true =>
      obtain ⟨_,answered,_,kill⟩ := write_parts write
      have quiet := resp_excludes answered
      have still := (write_alone write ready).1
      have inval : invalReq s i = false := by simp [invalReq,quiet]
      refine .filled flush write ?_ ?_ ?_
      · intro way x
        simp only [vbitVecD,flush,tagReq,still,inval,tagWe,write,validBit,quiet,kill,Bool.false_or,Bool.or_false,Bool.and_true,
          Bool.true_and,Bool.not_false,Bool.and_eq_true,beq_iff_eq,Bool.false_eq_true,if_false]
      · intro way x
        simp only [tagRamD,tagReq,still,inval,tagWe,write,Bool.false_or,Bool.or_false,Bool.and_true,Bool.and_eq_true,beq_iff_eq]
      · intro way x
        simp only [dataRamD,dataReq,still,write,Bool.false_eq_true,if_false,if_true,Bool.and_true,Bool.and_eq_true,beq_iff_eq]
    | false =>
      have data : ∀ way x, dataRamD s i way x = s.dataRam way x := by
        intro way x
        simp [dataRamD,write]
      cases inval : invalReq s i with
      | true =>
        have named : validInv i = true := by
          simp only [invalReq,Bool.and_eq_true] at inval
          exact inval.2
        refine .cleared flush write ?_ ?_ data
        · intro way x
          simp only [vbitVecD,flush,tagReq,inval,tagWe,write,validBit,named,vaddrIndex,Bool.or_true,Bool.true_or,Bool.true_and,
            beq_iff_eq,Bool.false_eq_true,if_false,if_true]
        · intro way x other
          simp only [tagRamD,vaddrIndex,named,if_true,beq_eq_false_iff_ne.mpr other,Bool.and_false,Bool.false_eq_true,if_false]
      | false =>
        have idle : tagWe s i = false := by simp [tagWe,write,inval]
        refine .kept flush write ?_ ?_ ?_ data
        · by_cases named : validInv i = true
          · right
            simp only [invalReq,named,Bool.and_true,Bool.not_eq_false'] at inval
            exact flushEn_parts inval
          · exact .inl (by simpa using named)
        · intro way x
          simp [vbitVecD,flush,idle]
        · intro way x
          simp [tagRamD,idle]

structure Invariant (w : World) : Prop where
  asked : w.asked = (w.cache.vpn,w.cache.idx)
  lines : ∀ way x, w.cache.vbitVec way x = true → w.cache.dataRam way x = w.mem (w.cache.tagRam way x) x
  recent : ∀ way x, w.cache.vbitVec way x = true → w.born way x = w.epoch
  unique : ∀ one two x, w.cache.vbitVec one x = true → w.cache.vbitVec two x = true →
    w.cache.tagRam one x = w.cache.tagRam two x → one = two
  flushed : w.cache.flush = true → ∀ way x, w.cache.vbitVec way x = false
  page : w.cache.ctrl = .miss ∨ w.cache.validIreq = true → w.cache.flush = false → w.cache.tresp.miss = false → w.cache.tresp.xcpt = false → w.cache.tresp.ppn = w.translation w.cache.vpn
  sent : w.cache.ifillReqWasSent = w.due.isSome
  owed : w.due.isSome = true → w.cache.ctrl = .miss ∨ w.cache.ctrl = .kill
  waiting : w.cache.ctrl = .miss → w.cache.flush = false → w.cache.kill = false →
    w.due = some (w.translation w.cache.vpn,indexOf w.cache.idx,w.epoch) ∧ w.cache.tresp.miss = false ∧ w.cache.tresp.xcpt = false ∧
      w.cache.clineTag = w.translation w.cache.vpn ∧
      ∀ way, w.cache.vbitVec way (indexOf w.cache.idx) = true → w.cache.tagRam way (indexOf w.cache.idx) ≠ w.translation w.cache.vpn
  fresh : w.cache.ctrl = .read → w.cache.validIreq = true → w.cache.flush = false → w.cache.kill = false → ∀ way,
    w.cache.vbitO way = w.cache.vbitVec way (indexOf w.cache.idx) ∧ w.cache.tagO way = w.cache.tagRam way (indexOf w.cache.idx) ∧
      w.cache.dataO way = w.cache.dataRam way (indexOf w.cache.idx)
  live : w.cache.kill = false → (w.cache.ctrl = .read ∧ w.cache.validIreq = true) ∨ w.cache.ctrl ∈ [.miss,.tlbMiss,.replay,.replayTlb] →
    w.killed = false

theorem memory_kept {w : World} {p : Step} (contract : Contract w p) (flush : p.pins.flush = false) {x : Index} (other : validInv p.pins = false ∨ x ≠ invIndex p.pins) (tag : Tag) :
    p.mem tag x = w.mem tag x := by
  by_contra changed
  rcases contract.memory tag x changed with flushed | ⟨named,here⟩
  · simp [flush] at flushed
  · rcases other with quiet | apart
    · simp [quiet] at named
    · exact apart here

theorem absent_next {w : World} {p : Step} (contract : Contract w p) (flush : p.pins.flush = false) {x : Index} {tag : Tag}
    (alone : ∀ way, w.cache.vbitVec way x = true → w.cache.tagRam way x ≠ tag) (still : (out w.cache p.pins).cacheWrEna = false) (way : Way)
    (valid : (after w p).cache.vbitVec way x = true) : (after w p).cache.tagRam way x ≠ tag := by
  change vbitVecD w.cache p.pins way x = true at valid
  change tagRamD w.cache p.pins way x ≠ _
  cases change contract.ready with
  | flushed flushes => simp [flush] at flushes
  | filled _ write => simp [still] at write
  | cleared _ _ vbits tags _ =>
      rw [vbits] at valid
      have other : x ≠ invIndex p.pins := by
        intro here
        simp [here] at valid
      rw [if_neg other] at valid
      rw [tags way _ other]
      exact alone way valid
  | kept _ _ _ vbits tags _ =>
      rw [vbits] at valid
      rw [tags]
      exact alone way valid

theorem address_kept {w : World} {p : Step} (unasked : p.pins.ireqValid = false) :
    (after w p).cache.vpn = w.cache.vpn ∧ (after w p).cache.idx = w.cache.idx := by
  simp [after,next,vpnD,idxD,unasked]

theorem sent_waits {s : State} {i : Input} (before : s.ifillReqWasSent = true → s.ctrl = .miss ∨ s.ctrl = .kill)
    (sent : (next s i).ifillReqWasSent = true) : (next s i).ctrl = .miss ∨ (next s i).ctrl = .kill := by
  have acks : ifillReqWasSentD s i = true := sent
  change (out s i).state = .miss ∨ (out s i).state = .kill
  by_cases request : ifillReqValid s i = true
  · obtain ⟨reads,missed,_⟩ := request_iff.mp request
    exact .inl (miss_iff.mpr (.inr ⟨reads,missed⟩))
  · have both : s.ifillReqWasSent = true ∧ validIfillResp i = false := by simpa [ifillReqWasSentD,request] using acks
    rcases before both.1 with waits | killed
    · by_cases dead : s.flush = true ∨ s.kill = true ∨ s.tresp.xcpt = true
      · right
        simp only [out,Icache.ctrl,waits,ctrlIn,CtrlIn.flushOrKill]
        exact if_pos (by simpa [or_assoc] using dead)
      · left
        simp only [not_or,Bool.not_eq_true] at dead
        exact miss_iff.mpr (.inl ⟨waits,dead.1,dead.2.1,dead.2.2,both.2⟩)
    · right
      simp [out,Icache.ctrl,killed,ctrlIn,acks]

theorem owed_next {w : World} {p : Step} (invariant : Invariant w) : (after w p).cache.ifillReqWasSent = (after w p).due.isSome ∧
    ((after w p).due.isSome = true → (after w p).cache.ctrl = .miss ∨ (after w p).cache.ctrl = .kill) := by
  have sent : (after w p).cache.ifillReqWasSent = (after w p).due.isSome := by
    change (ifillReqValid w.cache p.pins || (w.cache.ifillReqWasSent && !validIfillResp p.pins)) = _
    rw [invariant.sent]
    cases request : ifillReqValid w.cache p.pins <;> cases answered : validIfillResp p.pins <;> simp [after,request,answered]
  refine ⟨sent,fun due => sent_waits ?_ (sent.trans due)⟩
  intro now
  exact invariant.owed (invariant.sent ▸ now)

theorem fresh_next {w : World} {p : Step} (contract : Contract w p) (unstolen : stolenReplay w.cache p.pins = false) (compares : (after w p).cache.validIreq = true)
    (flush : p.pins.flush = false) (way : Way) :
    (after w p).cache.vbitO way = (after w p).cache.vbitVec way (indexOf (after w p).cache.idx) ∧
      (after w p).cache.tagO way = (after w p).cache.tagRam way (indexOf (after w p).cache.idx) ∧
        (after w p).cache.dataO way = (after w p).cache.dataRam way (indexOf (after w p).cache.idx) := by
  change validIreqD w.cache p.pins = true at compares
  have silent : validInv p.pins = false ∧ w.cache.ctrl ≠ .miss := by
    simp only [validIreqD,Bool.or_eq_true] at compares
    rcases compares with asks | replays
    · obtain ⟨reads,_,silent⟩ := ready_parts (contract.ready asks)
      exact ⟨silent,by simp [reads]⟩
    · obtain ⟨quiet,lives,⟨replay,fine⟩ | ⟨replay,silent⟩⟩ := replay_parts replays
      · refine ⟨?_,by simp [replay]⟩
        simpa [stolenReplay,replay,quiet,lives,fine] using unstolen
      · exact ⟨silent,by simp [replay]⟩
  obtain ⟨quiet,other⟩ := silent
  have still : (out w.cache p.pins).cacheWrEna = false := by
    by_contra write
    exact other (write_parts (by simpa using write)).1
  have idle : tagWe w.cache p.pins = false := by simp [tagWe,still,invalReq,quiet]
  have reading : cacheRdValid w.cache p.pins = true := by simp [cacheRdValid,compares]
  have index : vaddrIndex w.cache p.pins = indexOf (after w p).cache.idx := by simp [vaddrIndex,quiet,after,next]
  refine ⟨?_,?_,?_⟩
  · change vbitOD w.cache p.pins way = vbitVecD w.cache p.pins way _
    simp only [vbitOD,vbitVecD,flush,tagReq,reading,idle,index,Bool.false_eq_true,if_false,Bool.true_or,Bool.not_false,Bool.and_true,
      Bool.and_false,Bool.false_and,if_true]
  · change tagOD w.cache p.pins way = tagRamD w.cache p.pins way _
    simp only [tagOD,tagRamD,idle,index,Bool.false_eq_true,if_false,Bool.and_false,Bool.false_and]
  · change dataOD w.cache p.pins way = dataRamD w.cache p.pins way _
    simp only [dataOD,dataRamD,dataReq,reading,still,index,Bool.false_eq_true,if_false,if_true,Bool.not_false,Bool.and_true,Bool.and_false,
      Bool.false_and]

theorem progress_before {s : State} {i : Input} (unlost : lostKill s i = false) (unasked : i.ireqValid = false)
    (busy : ((next s i).ctrl = .read ∧ (next s i).validIreq = true) ∨ (next s i).ctrl ∈ [.miss,.tlbMiss,.replay,.replayTlb]) :
    s.kill = false ∧ ((s.ctrl = .read ∧ s.validIreq = true) ∨ s.ctrl ∈ [.miss,.tlbMiss,.replay,.replayTlb]) := by
  rcases busy with ⟨_,compares⟩ | goes
  · have replays : (out s i).replayValid = true := by
      have either : validIreqD s i = true := compares
      simpa [validIreqD,unasked] using either
    obtain ⟨_,lives,state⟩ := replay_parts replays
    refine ⟨lives,.inr ?_⟩
    rcases state with ⟨replay,_⟩ | ⟨replay,_⟩ <;> simp [replay]
  · rcases progress_parts goes with ⟨_,lives,state⟩ | ⟨held,named,fine⟩
    · refine ⟨lives,?_⟩
      rcases state with miss | walk | reads
      · exact .inr (by simp [miss])
      · exact .inr (by simp [walk])
      · exact .inl reads
    · exact ⟨by simpa [lostKill,held,named,fine] using unlost,.inr (by simp [held])⟩

theorem live_next {w : World} {p : Step} (invariant : Invariant w) (unlost : lostKill w.cache p.pins = false) (kill : p.pins.ireqKill = false)
    (busy : ((after w p).cache.ctrl = .read ∧ (after w p).cache.validIreq = true) ∨ (after w p).cache.ctrl ∈ [.miss,.tlbMiss,.replay,.replayTlb]) :
    (after w p).killed = false := by
  have killed : (after w p).killed = (p.pins.ireqKill || (!p.pins.ireqValid && w.killed)) := rfl
  cases asks : p.pins.ireqValid with
  | true => simp [killed,kill,asks]
  | false =>
    obtain ⟨lives,before⟩ := progress_before unlost asks busy
    simp [killed,kill,asks,invariant.live lives before]

section step

variable {w : World} {p : Step} (invariant : Invariant w) (contract : Contract w p)
include invariant contract

-- What a fill writes: the line that was asked for, under its tag, beside no other way with that tag
structure Fill (w : World) (p : Step) : Prop where
  quiet : validInv p.pins = false
  index : vaddrIndex w.cache p.pins = indexOf w.cache.idx
  tag : w.cache.clineTag = w.translation w.cache.vpn
  line : p.pins.ifillRespData = w.mem (w.translation w.cache.vpn) (indexOf w.cache.idx)
  epoch : (w.due.map fun d => d.2.2).getD 0 = w.epoch
  alone : ∀ way, w.cache.vbitVec way (indexOf w.cache.idx) = true → w.cache.tagRam way (indexOf w.cache.idx) ≠ w.translation w.cache.vpn

theorem fill_parts (write : (out w.cache p.pins).cacheWrEna = true) : Fill w p := by
  obtain ⟨state,answered,flush,kill⟩ := write_parts write
  obtain ⟨due,_,_,tag,alone⟩ := invariant.waiting state flush kill
  obtain ⟨named,x,epoch,owed,line⟩ := contract.fill answered
  rw [due] at owed
  cases owed
  have quiet := resp_excludes answered
  have unasked := (write_alone write contract.ready).2
  refine ⟨quiet,?_,tag,line,by simp [due],alone⟩
  simp [vaddrIndex,quiet,idxD,unasked]

theorem lines_next (way : Way) (x : Index) (valid : (after w p).cache.vbitVec way x = true) :
    (after w p).cache.dataRam way x = (after w p).mem ((after w p).cache.tagRam way x) x ∧ (after w p).born way x = (after w p).epoch := by
  have born : (after w p).born way x = if (out w.cache p.pins).cacheWrEna && way == w.cache.wayToReplace && x == vaddrIndex w.cache p.pins then
      (w.due.map fun d => d.2.2).getD 0 else w.born way x := rfl
  change vbitVecD w.cache p.pins way x = true at valid
  change dataRamD w.cache p.pins way x = p.mem (tagRamD w.cache p.pins way x) x ∧ _
  cases change contract.ready with
  | flushed flush => simp [vbitVecD,flush] at valid
  | filled flush write vbits tags data =>
      have fill := fill_parts invariant contract write
      have epoch : (after w p).epoch = w.epoch := by simp [after,flush]
      have same := memory_kept contract flush (x := x) (.inl fill.quiet)
      rw [vbits] at valid
      rw [data,tags,same,born,epoch,write]
      by_cases here : way = w.cache.wayToReplace ∧ x = vaddrIndex w.cache p.pins
      · rw [if_pos here,if_pos here,if_pos (by simp [here]),fill.tag,fill.line,fill.epoch,here.2,fill.index]
        exact ⟨rfl,rfl⟩
      · rw [if_neg here] at valid
        rw [if_neg here,if_neg here,if_neg (by simpa using here)]
        exact ⟨invariant.lines way x valid,invariant.recent way x valid⟩
  | cleared flush write vbits tags data =>
      have epoch : (after w p).epoch = w.epoch := by simp [after,flush]
      rw [vbits] at valid
      have other : x ≠ invIndex p.pins := by
        intro here
        simp [here] at valid
      rw [if_neg other] at valid
      rw [data,tags way x other,memory_kept contract flush (.inr other),born,write,epoch]
      exact ⟨invariant.lines way x valid,invariant.recent way x valid⟩
  | kept flush write quiet vbits tags data =>
      have epoch : (after w p).epoch = w.epoch := by simp [after,flush]
      rw [vbits] at valid
      have silent : validInv p.pins = false := by
        rcases quiet with silent | flushed
        · exact silent
        · simp [invariant.flushed flushed way x] at valid
      rw [data,tags,memory_kept contract flush (.inl silent),born,write,epoch]
      exact ⟨invariant.lines way x valid,invariant.recent way x valid⟩

theorem unique_next (one two : Way) (x : Index) (first : (after w p).cache.vbitVec one x = true)
    (second : (after w p).cache.vbitVec two x = true) (same : (after w p).cache.tagRam one x = (after w p).cache.tagRam two x) : one = two := by
  change vbitVecD w.cache p.pins one x = true at first
  change vbitVecD w.cache p.pins two x = true at second
  change tagRamD w.cache p.pins one x = tagRamD w.cache p.pins two x at same
  cases change contract.ready with
  | flushed flush => simp [vbitVecD,flush] at first
  | filled flush write vbits tags data =>
      have fill := fill_parts invariant contract write
      rw [vbits] at first second
      rw [tags,tags] at same
      by_cases here : one = w.cache.wayToReplace ∧ x = vaddrIndex w.cache p.pins
      · by_cases there : two = w.cache.wayToReplace ∧ x = vaddrIndex w.cache p.pins
        · exact here.1.trans there.1.symm
        · rw [if_neg there] at second
          rw [if_pos here,if_neg there,fill.tag] at same
          rw [here.2,fill.index] at second same
          exact absurd same.symm (fill.alone two second)
      · rw [if_neg here] at first
        by_cases there : two = w.cache.wayToReplace ∧ x = vaddrIndex w.cache p.pins
        · rw [if_neg here,if_pos there,fill.tag] at same
          rw [there.2,fill.index] at first same
          exact absurd same (fill.alone one first)
        · rw [if_neg there] at second
          rw [if_neg here,if_neg there] at same
          exact invariant.unique one two x first second same
  | cleared flush write vbits tags data =>
      rw [vbits] at first second
      have other : x ≠ invIndex p.pins := by
        intro here
        simp [here] at first
      rw [if_neg other] at first second
      rw [tags one x other,tags two x other] at same
      exact invariant.unique one two x first second same
  | kept flush write quiet vbits tags data =>
      rw [vbits] at first second
      rw [tags,tags] at same
      exact invariant.unique one two x first second same

theorem waiting_next (state : (after w p).cache.ctrl = .miss) (flush : p.pins.flush = false) (kill : p.pins.ireqKill = false) :
    (after w p).due = some ((after w p).translation (after w p).cache.vpn,indexOf (after w p).cache.idx,(after w p).epoch) ∧
      (after w p).cache.tresp.miss = false ∧ (after w p).cache.tresp.xcpt = false ∧
      (after w p).cache.clineTag = (after w p).translation (after w p).cache.vpn ∧
      ∀ way, (after w p).cache.vbitVec way (indexOf (after w p).cache.idx) = true →
        (after w p).cache.tagRam way (indexOf (after w p).cache.idx) ≠ (after w p).translation (after w p).cache.vpn := by
  have moved : (out w.cache p.pins).state = .miss := state
  have unasked : p.pins.ireqValid = false := by
    by_contra asks
    have stays := (ready_parts (contract.ready (by simpa using asks))).2.1
    rw [moved] at stays
    cases stays
  obtain ⟨vpn,idx⟩ := address_kept (w := w) unasked
  have epoch : (after w p).epoch = w.epoch := by simp [after,flush]
  have pages : (after w p).translation w.cache.vpn = w.translation w.cache.vpn := by
    by_contra changed
    have flushed := contract.pages _ changed
    simp [flush] at flushed
  have same : vpnD w.cache p.pins = w.cache.vpn := by simp [vpnD,unasked]
  have tag : (after w p).cache.clineTag = w.cache.tresp.ppn := rfl
  have tresp : (after w p).cache.tresp = p.pins.tresp := rfl
  rw [vpn,idx,epoch,pages,tag,tresp]
  rcases miss_iff.mp moved with ⟨waits,quiet,lives,fine,silent⟩ | ⟨reads,missed⟩
  · obtain ⟨due,translated,_,_,alone⟩ := invariant.waiting waits quiet lives
    have unsent : ifillReqValid w.cache p.pins = false := by
      by_contra request
      have read := (request_iff.mp (by simpa using request)).1
      rw [waits] at read
      cases read
    have still : (out w.cache p.pins).cacheWrEna = false := by
      by_contra write
      have answered := (write_parts (by simpa using write)).2.1
      simp [silent] at answered
    obtain ⟨stays,sound⟩ := contract.stable (.inl waits) quiet lives same translated fine
    refine ⟨?_,stays,sound,invariant.page (.inl waits) quiet translated fine,absent_next contract flush alone still⟩
    simp [after,unsent,silent,due]
  · have sent : ifillReqValid w.cache p.pins = true := request_iff.mpr ⟨reads,missed,kill⟩
    have still : (out w.cache p.pins).cacheWrEna = false := by
      by_contra write
      have answered := (write_parts (by simpa using write)).2.1
      simp [missed.silent] at answered
    have page := invariant.page (.inr missed.compares) missed.flush missed.translated missed.fine
    obtain ⟨stays,sound⟩ := contract.stable (.inr missed.compares) missed.flush missed.kill same missed.translated missed.fine
    refine ⟨?_,stays,sound,page,absent_next contract flush ?_ still⟩
    · simp [after,sent,ifillReqTag,ifillReqIndex,page]
    · intro way valid equal
      obtain ⟨vbit,ram,_⟩ := invariant.fresh reads missed.compares missed.flush missed.kill way
      have hit : clineHit w.cache way = true := by simp [clineHit,vbit,valid,ram,equal,page]
      have nothing := missed.nothing
      simp only [isHit,Bool.or_eq_false_iff] at nothing
      match way with
      | 0 => simp [nothing.1.1.1] at hit
      | 1 => simp [nothing.1.1.2] at hit
      | 2 => simp [nothing.1.2] at hit
      | 3 => simp [nothing.2] at hit

theorem invariant_next (meets : Meets w p) : Invariant (after w p) where
  asked := by
    simp only [after,next,vpnD,idxD,invariant.asked]
    split <;> rfl
  lines way x valid := (lines_next invariant contract way x valid).1
  recent way x valid := (lines_next invariant contract way x valid).2
  unique := unique_next invariant contract
  flushed := by
    intro flush way x
    have now : p.pins.flush = true := flush
    change vbitVecD w.cache p.pins way x = false
    simp [vbitVecD,now]
  page := by
    intro _ flush translated fine
    have now : p.pins.flush = false := flush
    have kept : p.translation (vpnD w.cache p.pins) = w.translation (vpnD w.cache p.pins) := by
      by_contra changed
      have flushed := contract.pages _ changed
      simp [now] at flushed
    exact (contract.page translated fine).trans kept.symm
  sent := (owed_next invariant).1
  owed := (owed_next invariant).2
  waiting := waiting_next invariant contract
  fresh := fun _ compares flush _ => fresh_next contract meets.1 compares flush
  live := fun kill busy => live_next invariant meets.2.1 kill busy

end step

theorem invariant_start (tagRam : Way → Index → Tag) (dataRam : Way → Index → Line) (mem : Tag → Index → Line)
    (translation : BitVec 28 → Tag) : Invariant (start tagRam dataRam mem translation) where
  asked := rfl
  lines _ _ valid := by cases valid
  recent _ _ valid := by cases valid
  unique _ _ _ valid := by cases valid
  flushed flush := by cases flush
  page busy := by rcases busy with state | compares <;> simp [start,reset] at *
  sent := rfl
  owed due := by cases due
  waiting state := by cases state
  fresh state := by cases state
  live _ busy := by rcases busy with ⟨state,_⟩ | state <;> simp [start,reset] at state

theorem invariant_kept {tagRam : Way → Index → Tag} {dataRam : Way → Index → Line} {mem : Tag → Index → Line} {translation : BitVec 28 → Tag}
    {inputs : Nat → Step} (admits : Admits (machine (start tagRam dataRam mem translation)) inputs) (t : Nat)
    (meets : ∀ u < t, Meets (trace (machine (start tagRam dataRam mem translation)) inputs u) (inputs u)) :
    Invariant (trace (machine (start tagRam dataRam mem translation)) inputs t) := by
  induction t with
  | zero => exact invariant_start tagRam dataRam mem translation
  | succ t ih => exact invariant_next (ih fun u earlier => meets u (by omega)) (admits t) (meets t (by omega))

theorem resp_parts {s : State} {i : Input} (answers : respValid s i = true) : i.ireqKill = false ∧
    ((s.ctrl = .read ∧ s.flush = false ∧ s.kill = false ∧ s.validIreq = true ∧ ((isHit s = true ∧ s.tresp.miss = false) ∨ s.tresp.xcpt = true)) ∨
      ((s.ctrl = .tlbMiss ∨ s.ctrl = .replay ∨ s.ctrl = .replayTlb) ∧ s.tresp.xcpt = true)) := by
  simp only [respValid,Bool.and_eq_true,Bool.not_eq_true'] at answers
  obtain ⟨valid,lives⟩ := answers
  refine ⟨lives,?_⟩
  cases state : s.ctrl with
  | read =>
      simp only [out,Icache.ctrl,state,ctrlIn,CtrlIn.flushOrKill,CtrlIn.newRequest,Bool.and_eq_true,Bool.or_eq_true,Bool.not_eq_true',
        Bool.or_eq_false_iff] at valid
      exact .inl ⟨rfl,valid.1.2.1,valid.1.2.2,valid.2.2,valid.1.1⟩
  | tlbMiss => exact .inr ⟨.inl rfl,by simpa [out,Icache.ctrl,state,ctrlIn] using valid⟩
  | replay => exact .inr ⟨.inr (.inl rfl),by simpa [out,Icache.ctrl,state,ctrlIn] using valid⟩
  | replayTlb => exact .inr ⟨.inr (.inr rfl),by simpa [out,Icache.ctrl,state,ctrlIn] using valid⟩
  | noReq | miss | kill | killTlb => simp [out,Icache.ctrl,state] at valid

theorem firstHit_hits {s : State} (hit : isHit s = true) : clineHit s (firstHit s) = true := by
  simp only [isHit,Bool.or_eq_true] at hit
  unfold firstHit
  split
  · assumption
  split
  · assumption
  split
  · assumption
  split
  · assumption
  · simp_all

-- Without a fault the answer is the line of a way that was read for this request.
theorem answer_line {w : World} {p : Step} (invariant : Invariant w) (answers : respValid w.cache p.pins = true)
    (fine : respXcpt w.cache p.pins = false) :
    respData w.cache = chunkSel (w.mem (w.translation w.asked.1) (indexOf w.asked.2)) (w.asked.2.extractLsb' 4 2) := by
  have valid : (out w.cache p.pins).irespValid = true := by
    simp only [respValid,Bool.and_eq_true] at answers
    exact answers.1
  have sound : w.cache.tresp.xcpt = false := by simpa [respXcpt,valid] using fine
  rcases (resp_parts answers).2 with ⟨reads,flush,kill,compares,found⟩ | ⟨_,faulty⟩
  · obtain ⟨hit,translated⟩ := found.resolve_right (by simp [sound])
    have chosen := firstHit_hits hit
    obtain ⟨vbit,ram,data⟩ := invariant.fresh reads compares flush kill (firstHit w.cache)
    have held := chosen
    simp only [clineHit,Bool.and_eq_true,beq_iff_eq] at held
    have line := invariant.lines _ _ (vbit.symm.trans held.2)
    rw [respData,if_pos chosen,invariant.asked,data,line,← ram,held.1,invariant.page (.inr compares) flush translated sound]
  · simp [sound] at faulty

theorem answer_live {w : World} {p : Step} (invariant : Invariant w) (unstray : strayFault w.cache p.pins = false)
    (answers : respValid w.cache p.pins = true) : w.killed = false := by
  obtain ⟨now,⟨reads,_,kill,compares,_⟩ | ⟨state,faulty⟩⟩ := resp_parts answers
  · exact invariant.live kill (.inl ⟨reads,compares⟩)
  · have kill : w.cache.kill = false := by simpa [strayFault,state,faulty,now] using unstray
    refine invariant.live kill (.inr ?_)
    rcases state with state | state | state <;> simp [state]

-- While no invalidation takes the cycle of a replay and no fault meets a kill, the cache is sound.
theorem cache_sound {tagRam : Way → Index → Tag} {dataRam : Way → Index → Line} {mem : Tag → Index → Line} {translation : BitVec 28 → Tag}
    {inputs : Nat → Step} (admits : Admits (machine (start tagRam dataRam mem translation)) inputs) (t : Nat)
    (meets : ∀ u ≤ t, Meets (trace (machine (start tagRam dataRam mem translation)) inputs u) (inputs u)) :
    Sound (trace (machine (start tagRam dataRam mem translation)) inputs t) (inputs t) := by
  have invariant := invariant_kept admits t fun u earlier => meets u (by omega)
  exact ⟨invariant.lines,invariant.recent,invariant.unique,answer_line invariant,answer_live invariant (meets t (by omega)).2.2⟩

-- A cycle without requests over a memory of zeros, with every page at 0
def still : Step where
  pins :=
    { flush := false
      ireqValid := false
      ireqKill := false
      ireqIdx := 0
      ireqVpn := 0
      tresp := ⟨false,true,0,false⟩
      ifillRespValid := false
      ifillRespData := 0
      ifillRespInvValid := false
      ifillRespInvPaddr := 0 }
  mem := fun _ _ => 0
  translation := fun _ => 0

def asking : Step := { still with pins := { still.pins with ireqValid := true } }

def filling : Step := { still with pins := { still.pins with ifillRespValid := true } }

def invalidating : Step := { filling with pins := { filling.pins with ifillRespInvValid := true, ifillRespInvPaddr := 2 } }

def zeros : World := start (fun _ _ => 0) (fun _ _ => 0) (fun _ _ => 0) (fun _ => 0)

def filled : Nat → Step
  | 1 => asking
  | 3 => filling
  | _ => still

-- A miss with an invalidation in the cycle of its replay, so that the line is fetched again
def stolen : Nat → Step
  | 1 => asking
  | 3 => filling
  | 4 => invalidating
  | 7 => filling
  | _ => still

def Plain (inputs : Nat → Step) : Prop := ∀ t, (inputs t).mem = zeros.mem ∧ (inputs t).translation = zeros.translation ∧
  (inputs t).pins.tresp = still.pins.tresp ∧ (validIfillResp (inputs t).pins = true → (inputs t).pins.ifillRespData = 0)

theorem plain_worlds {inputs : Nat → Step} (plain : Plain inputs) (t : Nat) :
    (trace (machine zeros) inputs t).mem = zeros.mem ∧ (trace (machine zeros) inputs t).translation = zeros.translation := by
  cases t with
  | zero => exact ⟨rfl,rfl⟩
  | succ t => exact ⟨(plain t).1,(plain t).2.1⟩

theorem plain_admits {inputs : Nat → Step} (plain : Plain inputs)
    (ready : ∀ t, (inputs t).pins.ireqValid = true → respReady (trace (machine zeros) inputs t).cache (inputs t).pins = true)
    (owed : ∀ t, validIfillResp (inputs t).pins = true → (trace (machine zeros) inputs t).due.isSome = true) :
    Admits (machine zeros) inputs := by
  intro t
  obtain ⟨mem,translation⟩ := plain_worlds plain t
  obtain ⟨memNext,translationNext,tresp,line⟩ := plain t
  refine ⟨ready t,?_,?_,?_,?_,?_⟩
  · intro answered
    obtain ⟨⟨tag,x,epoch⟩,due⟩ := Option.isSome_iff_exists.mp (owed t answered)
    exact ⟨tag,x,epoch,due,by rw [mem,line answered]; rfl⟩
  · intro _ _
    rw [tresp,translation]
    rfl
  · intro _ _ _ _ _ _
    rw [tresp]
    exact ⟨rfl,rfl⟩
  · intro tag x changed
    rw [mem,memNext] at changed
    exact absurd rfl changed
  · intro vpn changed
    rw [translation,translationNext] at changed
    exact absurd rfl changed

theorem filled_admits : Admits (machine zeros) filled := by
  refine plain_admits ?_ ?_ ?_
  · intro t
    unfold filled
    split <;> exact ⟨rfl,rfl,rfl,fun _ => rfl⟩
  · intro t asks
    match t with
    | 1 => decide
    | 0 | 2 | 3 | t + 4 => cases asks
  · intro t answered
    match t with
    | 3 => decide
    | 0 | 1 | 2 | t + 4 => cases answered

theorem stolen_admits : Admits (machine zeros) stolen := by
  refine plain_admits ?_ ?_ ?_
  · intro t
    unfold stolen
    split <;> exact ⟨rfl,rfl,rfl,fun _ => rfl⟩
  · intro t asks
    match t with
    | 1 => decide
    | 0 | 2 | 3 | 4 | 5 | 6 | 7 | t + 8 => cases asks
  · intro t answered
    match t with
    | 3 => decide
    | 7 => decide
    | 0 | 1 | 2 | 4 | 5 | 6 | t + 8 => cases answered

theorem cache_sound_filled : respValid (trace (machine zeros) filled 5).cache (filled 5).pins = true ∧
    Sound (trace (machine zeros) filled 5) (filled 5) := by
  refine ⟨by decide,cache_sound filled_admits 5 ?_⟩
  intro u within
  match u, within with
  | 0, _ | 1, _ | 2, _ | 3, _ | 4, _ | 5, _ => exact ⟨by decide,by decide,by decide⟩

-- Ways 0 and 1 then hold the same line.
theorem fill_repeated : ¬ ∀ tagRam dataRam mem translation inputs, Admits (machine (start tagRam dataRam mem translation)) inputs →
    ∀ t, Sound (trace (machine (start tagRam dataRam mem translation)) inputs t) (inputs t) := by
  intro sound
  have unique := (sound _ _ _ _ stolen stolen_admits 8).unique 0 1 0 (by decide) (by decide) (by decide)
  exact absurd unique (by decide)

end Sargantana.IcacheSoundness
