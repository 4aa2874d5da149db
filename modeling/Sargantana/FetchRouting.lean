import Sargantana.NcIcacheBuffer
import Sargantana.IcacheSoundness

-- top_tile: the instruction cache and the buffer for fetches that are not cached share the port of the core and
-- one grant channel.
namespace Sargantana.FetchRouting

open StateMachine
open Icache (Way Index Tag Line Tresp respReady respValid respData ifillReqValid validIfillResp validInv)
open NcIcacheBuffer (DracCfg icacheReqValid reqNcValidD coreRspNcBusy coreRspValid coreRspData control)
open IcacheSoundness (lostKill strayFault)

-- The unit behind a fetch or a request to the next level
inductive Owner where
  | cache | buffer
  deriving DecidableEq

-- The pins of core, MMU and next level in a cycle. `grantFull` is &io_mem_grant_bits_addr_beat, `answers` the unit
-- whose request a grant answers.
structure Step where
  flush : Bool
  reqValid : Bool
  kill : Bool
  idx : BitVec 12
  vpn : BitVec 28
  enTranslation : Bool
  tresp : Tresp
  grantValid : Bool
  grantFull : Bool
  grantData : BitVec 512
  grantInval : Bool
  grantInvalAddr : BitVec 12
  answers : Owner

structure Fetch where
  address : BitVec 40
  owner : Owner
  killed : Bool
  deriving DecidableEq

-- `fetch` is the last fetch of the core, `owed` are the units whose request the next level has not answered.
structure World where
  cache : Icache.State
  buffer : NcIcacheBuffer.State
  fetch : Option Fetch
  owed : Owner → Bool

def granted (p : Step) : Bool := p.grantValid && !p.grantInval

def ungranted (p : Step) : Step := { p with grantValid := false }

def corePins (p : Step) : NcIcacheBuffer.Input where
  enTranslation := p.enTranslation
  coreReqValid := p.reqValid
  coreReqAddr := p.vpn ++ p.idx
  coreReqInvalidate := p.flush
  coreReqKill := p.kill
  l2GrantValid := granted p
  l2RespData := p.grantData

-- icache_nc_busy, which does not depend on the kill
def ncBusy (w : World) (p : Step) : Bool := coreRspNcBusy w.buffer (corePins p)

-- The buffer gets icache_req_kill & ~icache_nc_busy.
def bufferPins (w : World) (p : Step) : NcIcacheBuffer.Input := { corePins p with coreReqKill := p.kill && !ncBusy w p }

variable (cfg : DracCfg)

def cachePins (p : Step) : Icache.Input where
  flush := p.flush
  ireqValid := icacheReqValid cfg (corePins p)
  ireqKill := p.kill
  ireqIdx := p.idx
  ireqVpn := p.vpn
  tresp := p.tresp
  ifillRespValid := p.grantValid && p.grantFull
  ifillRespData := p.grantData
  ifillRespInvValid := p.grantInval
  ifillRespInvPaddr := p.grantInvalAddr

-- icache_resp_ready & ~icache_nc_busy
def coreReady (w : World) (p : Step) : Bool := respReady w.cache (cachePins cfg p) && !ncBusy w p

def cacheValid (w : World) (p : Step) : Bool := respValid w.cache (cachePins cfg p)

def bufferValid (w : World) : Bool := coreRspValid w.buffer

def coreValid (w : World) (p : Step) : Bool := cacheValid cfg w p || bufferValid w

def coreData (w : World) : BitVec 128 := if bufferValid w then (coreRspData w.buffer).setWidth 128 else respData w.cache

def request (w : World) (p : Step) : Owner → Bool
  | .cache => ifillReqValid w.cache (cachePins cfg p)
  | .buffer => (control w.buffer (bufferPins w p)).reqNcValidO

def after (w : World) (p : Step) : World where
  cache := Icache.next w.cache (cachePins cfg p)
  buffer := NcIcacheBuffer.next cfg w.buffer (bufferPins w p)
  fetch :=
    if p.reqValid then some ⟨p.vpn ++ p.idx,if icacheReqValid cfg (corePins p) then .cache else .buffer,p.kill⟩
    else w.fetch.map fun f => { f with killed := f.killed || p.kill }
  owed := fun owner => request cfg w p owner || (w.owed owner && !(granted p && p.answers == owner))

-- The next level answers each request once; a fill comes with its last beat.
structure Contract (w : World) (p : Step) : Prop where
  ready : p.reqValid = true → coreReady cfg w p = true
  grant : granted p = true → w.owed p.answers = true ∧ (p.answers = .cache → p.grantFull = true)

def machine (tagRam : Way → Index → Tag) (dataRam : Way → Index → Line) : Machine World Step where
  initial := ⟨Icache.reset tagRam dataRam,NcIcacheBuffer.reset,none,fun _ => false⟩
  allowed := Contract cfg
  step := after cfg

-- A grant changes the unit that it answers, and only that one; the two units never answer together.
structure Exclusive (w : World) (p : Step) : Prop where
  fill : granted p = true → p.answers = .cache →
    (after cfg w p).cache.ifillReqWasSent = false ∧ (after cfg w p).buffer = (after cfg w (ungranted p)).buffer
  word : granted p = true → p.answers = .buffer →
    (after cfg w p).buffer.stateNc = .idle ∧ (after cfg w p).cache = (after cfg w (ungranted p)).cache
  single : ¬ (cacheValid cfg w p = true ∧ bufferValid w = true)

-- A response is about the last fetch, which is not killed, and comes from its unit.
structure Delivered (w : World) (p : Step) (f : Fetch) : Prop where
  last : w.fetch = some f
  lives : f.killed = false
  data : coreData w = if f.owner = .buffer then (coreRspData w.buffer).setWidth 128 else respData w.cache
  cache : cacheValid cfg w p = true → f.owner = .cache ∧ w.cache.vpn ++ w.cache.idx = f.address
  buffer : bufferValid w = true → f.owner = .buffer ∧ w.buffer.paddrInfly = f.address

-- The fetch in the buffer is invalidated already.
def dying (s : NcIcacheBuffer.State) : Bool := decide (s.stateNc = .kill) || (decide (s.stateNc = .wait) && s.ncKill)

-- The tile keeps a kill from the fetch that the buffer has in progress.
def withheld (w : World) (p : Step) : Bool := p.kill && ncBusy w p && !dying w.buffer

structure Meets (w : World) (p : Step) : Prop where
  passed : withheld w p = false
  kept : lostKill w.cache (cachePins cfg p) = false
  fine : strayFault w.cache (cachePins cfg p) = false

def occupied (s : NcIcacheBuffer.State) : Bool := !decide (s.stateNc = .idle) || s.reqNcValid || s.ncRspValid

def Busy (s : Icache.State) : Prop := (s.ctrl = .read ∧ s.validIreq = true) ∨ s.ctrl ∈ [.miss,.tlbMiss,.replay,.replayTlb]

structure Invariant (w : World) : Prop where
  sent : w.cache.ifillReqWasSent = w.owed .cache
  fill : w.owed .cache = true → w.cache.ctrl = .miss ∨ w.cache.ctrl = .kill
  word : w.owed .buffer = !decide (w.buffer.stateNc = .idle)
  registered : w.buffer.reqNcValid = true → w.buffer.stateNc = .idle
  apart : occupied w.buffer = true → w.cache.ctrl = .read ∧ w.cache.validIreq = false

def Living (s : NcIcacheBuffer.State) : Prop := s.reqNcValid = true ∨ (s.stateNc = .wait ∧ s.ncKill = false) ∨ s.ncRspValid = true

structure Alive (w : World) : Prop where
  cache : Busy w.cache → ∃ f, w.fetch = some f ∧ f.owner = .cache ∧ w.cache.vpn ++ w.cache.idx = f.address ∧ (w.cache.kill = false → f.killed = false)
  buffer : Living w.buffer → ∃ f, w.fetch = some f ∧ f.owner = .buffer ∧ w.buffer.paddrInfly = f.address ∧ f.killed = false

variable {cfg : DracCfg} {w : World} {p : Step}

theorem invariant_start (tagRam : Way → Index → Tag) (dataRam : Way → Index → Line) : Invariant (machine cfg tagRam dataRam).initial where
  sent := rfl
  fill owed := by cases owed
  word := rfl
  registered valid := by cases valid
  apart used := by cases used

theorem control_pins : control w.buffer (bufferPins w p) = control w.buffer (corePins p) := by
  unfold NcIcacheBuffer.control
  cases w.buffer.stateNc <;> rfl

theorem busy_waits (other : w.buffer.stateNc ≠ .idle) : ncBusy w p = true := by
  unfold ncBusy coreRspNcBusy NcIcacheBuffer.control
  cases state : w.buffer.stateNc with
  | idle => exact absurd state other
  | wait => rfl
  | kill => rfl

theorem ready_parts (contract : Contract cfg w p) (asks : p.reqValid = true) :
    w.cache.ctrl = .read ∧ (Icache.out w.cache (cachePins cfg p)).state = .read ∧ ncBusy w p = false := by
  have ready := contract.ready asks
  rw [coreReady,Bool.and_eq_true,Bool.not_eq_true'] at ready
  obtain ⟨state,stays,_⟩ := IcacheSoundness.ready_parts ready.1
  exact ⟨state,stays,ready.2⟩

theorem cache_asked (asks : (cachePins cfg p).ireqValid = true) : p.reqValid = true := by
  change icacheReqValid cfg (corePins p) = true at asks
  unfold icacheReqValid at asks
  split at asks
  · cases asks
  · exact asks

theorem cache_unasked (still : p.reqValid = false) : (cachePins cfg p).ireqValid = false := by
  by_contra asks
  have valid := cache_asked (by simpa using asks)
  rw [still] at valid
  cases valid

theorem buffer_asked (takes : reqNcValidD cfg (bufferPins w p) = true) : p.reqValid = true := (NcIcacheBuffer.reqNcValidD_iff.mp takes).1

theorem rests_next (reads : w.cache.ctrl = .read) (idle : w.cache.validIreq = false) (unasked : (cachePins cfg p).ireqValid = false) :
    (after cfg w p).cache.ctrl = .read ∧ (after cfg w p).cache.validIreq = false := by
  have controls : (after cfg w p).cache.ctrl = (Icache.out w.cache (cachePins cfg p)).state := rfl
  have valid : (after cfg w p).cache.validIreq = ((cachePins cfg p).ireqValid || (Icache.out w.cache (cachePins cfg p)).replayValid) := rfl
  rw [controls,valid,unasked]
  simp [Icache.out,Icache.ctrl,reads,Icache.ctrlIn,Icache.CtrlIn.newRequest,idle]

theorem busy_unasked (contract : Contract cfg w p) (busy : ncBusy w p = true) : p.reqValid = false := by
  by_contra asks
  obtain ⟨_,_,free⟩ := ready_parts contract (by simpa using asks)
  rw [busy] at free
  cases free

theorem free_rests (free : ncBusy w p = false) : control w.buffer (bufferPins w p) = ⟨false,.idle,false,false⟩ := by
  have quiet : (control w.buffer (bufferPins w p)).waiting = false := control_pins ▸ free
  cases NcIcacheBuffer.cycle w.buffer (bufferPins w p) with
  | rests _ _ controls => exact controls
  | issues _ _ _ controls | answers _ _ _ controls | drops _ _ controls | holds _ _ _ controls | dies _ _ controls =>
      simp [controls] at quiet

theorem taken_rests (contract : Contract cfg w p) (takes : reqNcValidD cfg (bufferPins w p) = true) : (after cfg w p).buffer.stateNc = .idle ∧
    (after cfg w p).buffer.ncRspValid = false ∧ (after cfg w p).cache.ctrl = .read ∧ (after cfg w p).cache.validIreq = false := by
  obtain ⟨reads,stays,free⟩ := ready_parts contract (buffer_asked takes)
  have controls := free_rests free
  have excluded : icacheReqValid cfg (bufferPins w p) = false := NcIcacheBuffer.icacheReqValid_excludes takes
  have unasked : (cachePins cfg p).ireqValid = false := excluded
  have valid : (after cfg w p).cache.validIreq = ((cachePins cfg p).ireqValid || (Icache.out w.cache (cachePins cfg p)).replayValid) := rfl
  refine ⟨?_,?_,stays,?_⟩
  · exact congrArg NcIcacheBuffer.Control.next controls
  · exact congrArg NcIcacheBuffer.Control.ncRspValidD controls
  · rw [valid,unasked]
    simp [Icache.out,Icache.ctrl,reads]

theorem rest_unmoved {s : Icache.State} {i : Icache.Input} (reads : s.ctrl = .read) (idle : s.validIreq = false)
    (unsent : s.ifillReqWasSent = false) (answer : i.ifillRespInvValid = false) : Icache.next s i = Icache.next s { i with ifillRespValid := false } := by
  have one : validInv i = false := by simp [validInv,answer]
  have two : validInv { i with ifillRespValid := false } = false := rfl
  have out : ∀ j, Icache.out s j = { state := .read, cmpEnable := true, irespReady := true, flushEn := s.flush } := by
    intro j
    simp [Icache.out,Icache.ctrl,reads,Icache.ctrlIn,Icache.CtrlIn.newRequest,idle]
  have sent : ∀ j, Icache.ifillReqWasSentD s j = false := by
    intro j
    have quiet : ifillReqValid s j = false := by
      by_contra asks
      have missed := (IcacheSoundness.request_iff.mp (by simpa using asks)).2.1
      rw [missed.compares] at idle
      cases idle
    rw [Icache.ifillReqWasSentD,quiet,unsent]
    rfl
  have vbits : Icache.vbitVecD s i = Icache.vbitVecD s { i with ifillRespValid := false } := by
    funext way x
    simp only [Icache.vbitVecD,Icache.tagReq,Icache.tagWe,Icache.invalReq,Icache.cacheRdValid,Icache.validIreqD,Icache.vaddrIndex,Icache.idxD,
      Icache.validBit,out,one,two]
    rfl
  have tags : Icache.tagRamD s i = Icache.tagRamD s { i with ifillRespValid := false } := by
    funext way x
    simp only [Icache.tagRamD,Icache.tagReq,Icache.tagWe,Icache.invalReq,Icache.cacheRdValid,Icache.validIreqD,Icache.vaddrIndex,Icache.idxD,
      out,one,two]
    rfl
  have data : Icache.dataRamD s i = Icache.dataRamD s { i with ifillRespValid := false } := by
    funext way x
    simp only [Icache.dataRamD,out,Bool.and_false,Bool.false_and]
  have read : Icache.vbitOD s i = Icache.vbitOD s { i with ifillRespValid := false } ∧
      Icache.tagOD s i = Icache.tagOD s { i with ifillRespValid := false } ∧
      Icache.dataOD s i = Icache.dataOD s { i with ifillRespValid := false } := by
    refine ⟨funext fun way => ?_,funext fun way => ?_,funext fun way => ?_⟩
    · simp only [Icache.vbitOD,Icache.tagReq,Icache.tagWe,Icache.invalReq,Icache.cacheRdValid,Icache.validIreqD,Icache.vaddrIndex,Icache.idxD,out,one,two]
      rfl
    · simp only [Icache.tagOD,Icache.tagWe,Icache.invalReq,Icache.vaddrIndex,Icache.idxD,out,one,two]
      rfl
    · simp only [Icache.dataOD,Icache.dataReq,Icache.cacheRdValid,Icache.validIreqD,Icache.vaddrIndex,Icache.idxD,out,one,two]
      rfl
  simp only [Icache.next,vbits,tags,data,read,sent,out,Icache.validIreqD,Icache.lfsrD,Icache.vpnD,Icache.idxD]

theorem idle_unmoved (rest : w.buffer.stateNc = .idle) : (after cfg w p).buffer = (after cfg w (ungranted p)).buffer := by
  have same : control w.buffer (bufferPins w p) = control w.buffer (bufferPins w (ungranted p)) := by
    simp [NcIcacheBuffer.control,rest]
  have busy : ncBusy w p = ncBusy w (ungranted p) := by simp [ncBusy,coreRspNcBusy,NcIcacheBuffer.control,rest]
  simp only [after,NcIcacheBuffer.next,same]
  simp only [bufferPins,busy,NcIcacheBuffer.ncKillD,NcIcacheBuffer.paddrInflyD,reqNcValidD]
  rfl

section step

variable (invariant : Invariant w) (contract : Contract cfg w p)
include invariant

theorem owes_one (fill : w.owed .cache = true) : w.owed .buffer = false := by
  by_contra both
  have used : occupied w.buffer = true := by
    rw [Bool.not_eq_false,invariant.word] at both
    rw [occupied,both]
    rfl
  have reads := (invariant.apart used).1
  rcases invariant.fill fill with miss | kill
  · rw [reads] at miss
    cases miss
  · rw [reads] at kill
    cases kill

include contract

theorem granted_cache (fill : w.owed .cache = true) : validIfillResp (cachePins cfg p) = (granted p && p.answers == .cache) := by
  have seen : validIfillResp (cachePins cfg p) = (p.grantValid && p.grantFull && !p.grantInval) := rfl
  rw [seen]
  cases grant : granted p with
  | false =>
      rw [granted] at grant
      cases valid : p.grantValid with
      | false => rfl
      | true =>
          have inval : p.grantInval = true := by simpa [valid] using grant
          simp [inval]
  | true =>
      obtain ⟨owed,full⟩ := contract.grant grant
      have here : p.answers = .cache := by
        cases owner : p.answers with
        | cache => rfl
        | buffer =>
            rw [owner,owes_one invariant fill] at owed
            cases owed
      rw [granted,Bool.and_eq_true] at grant
      rw [full here,here,grant.1,grant.2]
      rfl

theorem granted_buffer (word : w.owed .buffer = true) (grant : granted p = true) : p.answers = .buffer := by
  cases owner : p.answers with
  | buffer => rfl
  | cache =>
      have owed := (contract.grant grant).1
      rw [owner] at owed
      rw [owes_one invariant owed] at word
      cases word

theorem sent_next : (after cfg w p).cache.ifillReqWasSent = (after cfg w p).owed .cache := by
  change (ifillReqValid w.cache (cachePins cfg p) || (w.cache.ifillReqWasSent && !validIfillResp (cachePins cfg p))) =
    (ifillReqValid w.cache (cachePins cfg p) || (w.owed .cache && !(granted p && p.answers == .cache)))
  rw [invariant.sent]
  cases fill : w.owed .cache with
  | false => rfl
  | true => rw [granted_cache invariant contract fill]

theorem word_next : (after cfg w p).owed .buffer = !decide ((after cfg w p).buffer.stateNc = .idle) := by
  have owed : (after cfg w p).owed .buffer =
      ((control w.buffer (bufferPins w p)).reqNcValidO || (w.owed .buffer && !(granted p && p.answers == .buffer))) := rfl
  have state : (after cfg w p).buffer.stateNc = (control w.buffer (bufferPins w p)).next := rfl
  have working (other : w.buffer.stateNc ≠ .idle) : w.owed .buffer = true := by rw [invariant.word,decide_eq_false other]; rfl
  have ends (other : w.buffer.stateNc ≠ .idle) (grant : (bufferPins w p).l2GrantValid = true) :
      (w.owed .buffer && !(granted p && p.answers == .buffer)) = false := by
    have now : granted p = true := grant
    rw [granted_buffer invariant contract (working other) now,now]
    simp
  have goes (other : w.buffer.stateNc ≠ .idle) (quiet : (bufferPins w p).l2GrantValid = false) :
      (w.owed .buffer && !(granted p && p.answers == .buffer)) = true := by
    have now : granted p = false := quiet
    rw [working other,now]
    rfl
  rw [owed,state]
  cases NcIcacheBuffer.cycle w.buffer (bufferPins w p) with
  | rests rest _ controls =>
      rw [controls,invariant.word,rest]
      rfl
  | issues _ _ _ controls =>
      rw [controls]
      rfl
  | answers waits _ grant controls =>
      rw [controls,ends (by rw [waits]; decide) grant]
      rfl
  | drops state' grant controls =>
      rw [controls,ends (by rcases state' with ⟨waits,_⟩ | kill <;> simp_all) grant]
      rfl
  | holds waits _ quiet controls =>
      rw [controls,goes (by rw [waits]; decide) quiet]
      rfl
  | dies state' quiet controls =>
      rw [controls,goes (by rcases state' with ⟨waits,_⟩ | kill <;> simp_all) quiet]
      rfl

theorem apart_next (used : occupied (after cfg w p).buffer = true) :
    (after cfg w p).cache.ctrl = .read ∧ (after cfg w p).cache.validIreq = false := by
  by_cases takes : reqNcValidD cfg (bufferPins w p) = true
  · exact (taken_rests contract takes).2.2
  · cases busy : ncBusy w p with
    | false =>
        have controls := free_rests busy
        have idle : (after cfg w p).buffer.stateNc = .idle := congrArg NcIcacheBuffer.Control.next controls
        have silent : (after cfg w p).buffer.ncRspValid = false := congrArg NcIcacheBuffer.Control.ncRspValidD controls
        have none' : (after cfg w p).buffer.reqNcValid = false := Bool.eq_false_of_not_eq_true takes
        simp [occupied,idle,silent,none'] at used
    | true =>
        have before : occupied w.buffer = true := by
          by_contra free
          simp only [occupied,Bool.not_eq_true,Bool.or_eq_false_iff,Bool.not_eq_false',decide_eq_true_eq] at free
          simp [ncBusy,coreRspNcBusy,NcIcacheBuffer.control,free.1.1,free.1.2] at busy
        obtain ⟨reads,idle⟩ := invariant.apart before
        exact rests_next reads idle (cache_unasked (busy_unasked contract busy))

theorem invariant_next : Invariant (after cfg w p) where
  sent := sent_next invariant contract
  fill := by
    intro owed
    refine IcacheSoundness.sent_waits (fun sent => invariant.fill (invariant.sent ▸ sent)) ?_
    exact (sent_next invariant contract).trans owed
  word := word_next invariant contract
  registered := fun takes => (taken_rests contract takes).1
  apart := apart_next invariant contract

theorem exclusive : Exclusive cfg w p where
  fill := by
    intro grant here
    have owed := (contract.grant grant).1
    rw [here] at owed
    refine ⟨?_,idle_unmoved ?_⟩
    · have quiet : ifillReqValid w.cache (cachePins cfg p) = false := by
        by_contra asks
        have reads := (IcacheSoundness.request_iff.mp (by simpa using asks)).1
        rcases invariant.fill owed with other | other <;> rw [other] at reads <;> cases reads
      rw [sent_next invariant contract]
      change (ifillReqValid w.cache (cachePins cfg p) || (w.owed .cache && !(granted p && p.answers == .cache))) = false
      rw [quiet,grant,here]
      simp
    · have free := owes_one invariant owed
      rw [invariant.word] at free
      simpa using free
  word := by
    intro grant here
    have owed := (contract.grant grant).1
    rw [here] at owed
    have other : w.buffer.stateNc ≠ .idle := by
      rw [invariant.word] at owed
      simpa using owed
    have now : (bufferPins w p).l2GrantValid = true := grant
    refine ⟨?_,?_⟩
    · change (control w.buffer (bufferPins w p)).next = .idle
      unfold NcIcacheBuffer.control
      cases state : w.buffer.stateNc with
      | idle => exact absurd state other
      | wait => simp [now]
      | kill => simp [now]
    · obtain ⟨reads,idle⟩ := invariant.apart (by simp [occupied,other])
      have unsent : w.cache.ifillReqWasSent = false := by
        by_contra sent
        rw [Bool.not_eq_false,invariant.sent] at sent
        rcases invariant.fill sent with state | state <;> rw [reads] at state <;> cases state
      have answer : p.grantInval = false := by
        rw [granted,Bool.and_eq_true,Bool.not_eq_true'] at grant
        exact grant.2
      exact rest_unmoved (i := cachePins cfg p) reads idle unsent answer
  single := by
    rintro ⟨answers,presents⟩
    have used : occupied w.buffer = true := by
      simp only [bufferValid,coreRspValid,NcIcacheBuffer.isInBuffer,Bool.or_eq_true,Bool.and_eq_true] at presents
      rcases presents with answered | ⟨registered,_⟩
      · simp [occupied,answered]
      · simp [occupied,registered]
    obtain ⟨reads,idle⟩ := invariant.apart used
    rcases (IcacheSoundness.resp_parts answers).2 with ⟨_,_,_,compares,_⟩ | ⟨state,_⟩
    · rw [idle] at compares
      cases compares
    · rcases state with state | state | state <;> rw [reads] at state <;> cases state

end step

theorem alive_start (tagRam : Way → Index → Tag) (dataRam : Way → Index → Line) : Alive (machine cfg tagRam dataRam).initial where
  cache busy := by rcases busy with ⟨state,_⟩ | state <;> simp [machine,Icache.reset] at state
  buffer living := by rcases living with asked | ⟨state,_⟩ | answered <;> simp [machine,NcIcacheBuffer.reset] at *

theorem living_before (contract : Contract cfg w p) (meets : Meets cfg w p) (untaken : reqNcValidD cfg (bufferPins w p) = false) (living : Living (after cfg w p).buffer) :
    Living w.buffer ∧ p.reqValid = false ∧ p.kill = false := by
  have reqs : (after cfg w p).buffer.reqNcValid = false := untaken
  have state : (after cfg w p).buffer.stateNc = (control w.buffer (bufferPins w p)).next := rfl
  have fetched : (after cfg w p).buffer.ncRspValid = (control w.buffer (bufferPins w p)).ncRspValidD := rfl
  have goes : (control w.buffer (bufferPins w p)).next = .wait ∨ (control w.buffer (bufferPins w p)).ncRspValidD = true := by
    rcases living with asked | ⟨waits,_⟩ | answered
    · rw [reqs] at asked
      cases asked
    · exact .inl (state ▸ waits)
    · exact .inr (fetched ▸ answered)
  have ends (busy : ncBusy w p = true) (lives : dying w.buffer = false) : p.reqValid = false ∧ p.kill = false := by
    refine ⟨busy_unasked contract busy,?_⟩
    simpa [withheld,busy,lives] using meets.passed
  cases NcIcacheBuffer.cycle w.buffer (bufferPins w p) with
  | rests _ _ controls | drops _ _ controls | dies _ _ controls => simp [controls] at goes
  | issues rest asked other controls =>
      have busy : ncBusy w p = true := by
        rw [ncBusy,coreRspNcBusy,← control_pins,controls]
      exact ⟨.inl asked,ends busy (by simp [dying,rest])⟩
  | answers waits lives _ _ | holds waits lives _ _ =>
      have other : w.buffer.stateNc ≠ .idle := by
        rw [waits]
        decide
      exact ⟨.inr (.inl ⟨waits,lives⟩),ends (busy_waits other) (by simp [dying,waits,lives])⟩

section alive

variable (alive : Alive w) (contract : Contract cfg w p) (meets : Meets cfg w p)
include alive contract meets

theorem cache_next (busy : Busy (after cfg w p).cache) : ∃ f, (after cfg w p).fetch = some f ∧ f.owner = .cache ∧
    (after cfg w p).cache.vpn ++ (after cfg w p).cache.idx = f.address ∧ ((after cfg w p).cache.kill = false → f.killed = false) := by
  have kill : (after cfg w p).cache.kill = p.kill := rfl
  cases asks : p.reqValid with
  | true =>
      obtain ⟨reads,stays,_⟩ := ready_parts contract asks
      have new : (cachePins cfg p).ireqValid = true := by
        rcases busy with ⟨_,compares⟩ | goes
        · have either : ((cachePins cfg p).ireqValid || (Icache.out w.cache (cachePins cfg p)).replayValid) = true := compares
          simpa [Icache.out,Icache.ctrl,reads] using either
        · have state : (after cfg w p).cache.ctrl = .read := stays
          simp [state] at goes
      have goes : icacheReqValid cfg (corePins p) = true := new
      refine ⟨⟨p.vpn ++ p.idx,.cache,p.kill⟩,by simp [after,asks,goes],rfl,?_,?_⟩
      · change Icache.vpnD w.cache (cachePins cfg p) ++ Icache.idxD w.cache (cachePins cfg p) = p.vpn ++ p.idx
        rw [Icache.vpnD,Icache.idxD,if_pos new,if_pos new]
        rfl
      · exact fun lives => lives
  | false =>
      have unasked : (cachePins cfg p).ireqValid = false := cache_unasked asks
      obtain ⟨lives,before⟩ := IcacheSoundness.progress_before meets.kept unasked busy
      obtain ⟨f,last,owner,address,spared⟩ := alive.cache before
      refine ⟨{ f with killed := f.killed || p.kill },by simp [after,asks,last],owner,?_,?_⟩
      · change Icache.vpnD w.cache (cachePins cfg p) ++ Icache.idxD w.cache (cachePins cfg p) = f.address
        rw [Icache.vpnD,Icache.idxD,unasked]
        exact address
      · intro now
        rw [kill] at now
        simp [spared lives,now]

theorem buffer_next (living : Living (after cfg w p).buffer) : ∃ f, (after cfg w p).fetch = some f ∧ f.owner = .buffer ∧
    (after cfg w p).buffer.paddrInfly = f.address ∧ f.killed = false := by
  have infly : (after cfg w p).buffer.paddrInfly = NcIcacheBuffer.paddrInflyD cfg w.buffer (bufferPins w p) := rfl
  cases takes : reqNcValidD cfg (bufferPins w p) with
  | true =>
      have asks := buffer_asked takes
      obtain ⟨_,_,free⟩ := ready_parts contract asks
      have excluded : icacheReqValid cfg (corePins p) = false := NcIcacheBuffer.icacheReqValid_excludes (i := bufferPins w p) takes
      have spared : (p.kill && !ncBusy w p || p.flush) = false := (NcIcacheBuffer.reqNcValidD_iff.mp takes).2.2.2.2
      refine ⟨⟨p.vpn ++ p.idx,.buffer,p.kill⟩,by simp [after,asks,excluded],rfl,?_,?_⟩
      · rw [infly,NcIcacheBuffer.paddrInflyD,takes]
        rfl
      · rw [free] at spared
        simp only [Bool.not_false,Bool.and_true,Bool.or_eq_false_iff] at spared
        exact spared.1
  | false =>
      obtain ⟨before,still,spared⟩ := living_before contract meets takes living
      obtain ⟨f,last,owner,address,lives⟩ := alive.buffer before
      refine ⟨{ f with killed := f.killed || p.kill },by simp [after,still,last],owner,?_,by simp [lives,spared]⟩
      rw [infly,NcIcacheBuffer.paddrInflyD,takes]
      exact address

theorem alive_next : Alive (after cfg w p) := ⟨cache_next alive contract meets,buffer_next alive contract meets⟩

end alive

-- The response of a cycle finds its fetch alive.
theorem delivered (invariant : Invariant w) (contract : Contract cfg w p) (alive : Alive w) (meets : Meets cfg w p)
    (answers : coreValid cfg w p = true) : ∃ f, Delivered cfg w p f := by
  have single := (exclusive invariant contract).single
  cases presents : bufferValid w with
  | true =>
      have living : Living w.buffer := by
        simp only [bufferValid,coreRspValid,NcIcacheBuffer.isInBuffer,Bool.or_eq_true,Bool.and_eq_true] at presents
        rcases presents with answered | ⟨registered,_⟩
        · exact .inr (.inr answered)
        · exact .inl registered
      obtain ⟨f,last,owner,address,lives⟩ := alive.buffer living
      exact ⟨f,last,lives,by rw [coreData,presents,owner]; rfl,fun both => absurd ⟨both,presents⟩ single,fun _ => ⟨owner,address⟩⟩
  | false =>
      have valid : cacheValid cfg w p = true := by simpa [coreValid,presents] using answers
      have busy : Busy w.cache ∧ w.cache.kill = false := by
        obtain ⟨now,⟨reads,_,kill,compares,_⟩ | ⟨state,faulty⟩⟩ := IcacheSoundness.resp_parts valid
        · exact ⟨.inl ⟨reads,compares⟩,kill⟩
        · refine ⟨.inr ?_,by simpa [strayFault,state,faulty,now] using meets.fine⟩
          rcases state with state | state | state <;> simp [state]
      obtain ⟨f,last,owner,address,spared⟩ := alive.cache busy.1
      refine ⟨f,last,spared busy.2,?_,fun _ => ⟨owner,address⟩,fun both => absurd both (by simp [presents])⟩
      rw [coreData,presents,owner]
      rfl

section run

variable {tagRam : Way → Index → Tag} {dataRam : Way → Index → Line} {inputs : Nat → Step}
  (admits : Admits (machine cfg tagRam dataRam) inputs)
include admits

theorem invariant_run (t : Nat) : Invariant (trace (machine cfg tagRam dataRam) inputs t) := by
  induction t with
  | zero => exact invariant_start tagRam dataRam
  | succ t ih => exact invariant_next ih (admits t)

theorem alive_run (t : Nat) (meets : ∀ u < t, Meets cfg (trace (machine cfg tagRam dataRam) inputs u) (inputs u)) :
    Alive (trace (machine cfg tagRam dataRam) inputs t) := by
  induction t with
  | zero => exact alive_start tagRam dataRam
  | succ t ih => exact alive_next (ih fun u earlier => meets u (by omega)) (admits t) (meets t (by omega))

-- Grants and responses keep apart in every run; the kills need the two units to see them.
theorem fetch_routed (t : Nat) : Exclusive cfg (trace (machine cfg tagRam dataRam) inputs t) (inputs t) ∧
    ((∀ u ≤ t, Meets cfg (trace (machine cfg tagRam dataRam) inputs u) (inputs u)) →
      coreValid cfg (trace (machine cfg tagRam dataRam) inputs t) (inputs t) = true →
        ∃ f, Delivered cfg (trace (machine cfg tagRam dataRam) inputs t) (inputs t) f) := by
  refine ⟨exclusive (invariant_run admits t) (admits t),fun meets => ?_⟩
  have alive := alive_run admits t fun u earlier => meets u (by omega)
  exact delivered (invariant_run admits t) (admits t) alive (meets t (by omega))

end run

-- A fetch from the boot ROM, with or without a kill while the buffer waits for its word
def rom : DracCfg where
  ioSections := []
  mappedSections := [(0x1000,0x2000)]
  initBROM := (0x1000,0x2000)
  debugProgramBuffer := (0,0)

def still : Step where
  flush := false
  reqValid := false
  kill := false
  idx := 0
  vpn := 0
  enTranslation := false
  tresp := ⟨false,false,0,false⟩
  grantValid := false
  grantFull := false
  grantData := 0
  grantInval := false
  grantInvalAddr := 0
  answers := .buffer

def booting (kill : Bool) : Nat → Step
  | 1 => { still with reqValid := true, vpn := 1 }
  | 3 => { still with kill := kill }
  | 4 => { still with grantValid := true }
  | _ => still

def romMachine : Machine World Step := machine rom (fun _ _ => 0) (fun _ _ => 0)

theorem booting_admits (kill : Bool) : Admits romMachine (booting kill) := by
  intro t
  refine ⟨?_,?_⟩
  · intro asks
    match t with
    | 1 => cases kill <;> decide
    | 0 | 2 | 3 | 4 | t + 5 => cases asks
  · intro grant
    match t with
    | 4 => exact ⟨by cases kill <;> decide,fun here => by cases here⟩
    | 0 | 1 | 2 | 3 | t + 5 => cases grant

theorem fetch_routed_rom : Exclusive rom (trace romMachine (booting false) 5) (booting false 5) ∧
    coreValid rom (trace romMachine (booting false) 5) (booting false 5) = true ∧
    ∃ f, Delivered rom (trace romMachine (booting false) 5) (booting false 5) f := by
  have valid : coreValid rom (trace romMachine (booting false) 5) (booting false 5) = true := by decide
  obtain ⟨exclusive',delivers⟩ := fetch_routed (booting_admits false) 5
  refine ⟨exclusive',valid,delivers ?_ valid⟩
  intro u within
  match u, within with
  | 0, _ | 1, _ | 2, _ | 3, _ | 4, _ | 5, _ => exact ⟨by decide,by decide,by decide⟩

-- The buffer does not see the kill, and its word is presented.
theorem killed_delivered : ¬ ∀ cfg tagRam dataRam inputs, Admits (machine cfg tagRam dataRam) inputs → ∀ t,
    coreValid cfg (trace (machine cfg tagRam dataRam) inputs t) (inputs t) = true →
      ∃ f, Delivered cfg (trace (machine cfg tagRam dataRam) inputs t) (inputs t) f := by
  intro delivers
  obtain ⟨f,delivered'⟩ := delivers rom _ _ (booting true) (booting_admits true) 5 (by decide)
  have last : (trace romMachine (booting true) 5).fetch = some ⟨0x1000,.buffer,true⟩ := by decide
  have same := delivered'.last.symm.trans last
  have lives := delivered'.lives
  rw [Option.some.inj same] at lives
  cases lives

end Sargantana.FetchRouting
