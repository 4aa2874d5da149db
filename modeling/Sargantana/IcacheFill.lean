import Sargantana.IcacheAxiWrap
import Sargantana.IcacheSoundness
import Sargantana.Lib.Bytes
import Sargantana.Lib.Ticket

-- The instruction cache on its AXI bridge: no fill is lost.
namespace Sargantana.IcacheFill

open StateMachine Bytes
open Icache hiding State Input next reset respValid respData
open IcacheAxiWrap (Wrap axiAr axiArValid axiRReady respValid respData)

-- `requests` and `addresses` count the fill requests and the accepted addresses, `burst` are the beats so far of an
-- accepted address whose burst has not ended, `done` those of the last burst that has.
structure World where
  cache : Icache.State
  wrap : IcacheAxiWrap.State
  requests : Nat
  addresses : Nat
  burst : Option (List (BitVec 64))
  done : List (BitVec 64)

-- The pins of core, MMU and AXI in a cycle
structure Step where
  flush : Bool
  ireqValid : Bool
  ireqKill : Bool
  ireqIdx : BitVec 12
  ireqVpn : BitVec 28
  tresp : Tresp
  axiArReady : Bool
  axiRValid : Bool
  axiRData : BitVec 64
  axiRLast : Bool

-- As in sargantana_soc_axi_wrap: the fill response comes from the bridge, and there are no invalidations.
def cachePins (w : World) (p : Step) : Icache.Input where
  flush := p.flush
  ireqValid := p.ireqValid
  ireqKill := p.ireqKill
  ireqIdx := p.ireqIdx
  ireqVpn := p.ireqVpn
  tresp := p.tresp
  ifillRespValid := respValid w.wrap
  ifillRespData := respData w.wrap
  ifillRespInvValid := false
  ifillRespInvPaddr := 0

-- icache_ifill_req_valid_o and icache_ifill_req_paddr_o
def request (w : World) (p : Step) : Bool := ifillReqValid w.cache (cachePins w p)

def requestPaddr (w : World) : BitVec 40 := ifillReqTag w.cache ++ ifillReqIndex w.cache ++ (0 : BitVec 6)

def wrapPins (w : World) (p : Step) : IcacheAxiWrap.Input where
  reqValid := request w p
  reqPaddr := requestPaddr w
  axiArReady := p.axiArReady
  axiRValid := p.axiRValid
  axiRData := p.axiRData
  axiRLast := p.axiRLast

def arFire (w : World) (p : Step) : Bool := axiArValid w.wrap (wrapPins w p) && p.axiArReady

def rFire (w : World) (p : Step) : Bool := p.axiRValid && axiRReady w.wrap

def after (w : World) (p : Step) : World where
  cache := Icache.next w.cache (cachePins w p)
  wrap := IcacheAxiWrap.next w.wrap (wrapPins w p)
  requests := if request w p then w.requests + 1 else w.requests
  addresses := if arFire w p then w.addresses + 1 else w.addresses
  burst := if arFire w p then some [] else if rFire w p then (if p.axiRLast then none else w.burst.map (· ++ [p.axiRData])) else w.burst
  done := if rFire w p && p.axiRLast then w.burst.getD [] ++ [p.axiRData] else w.done

-- One burst of eight beats for each accepted address, and no beat besides
def Contract (w : World) (p : Step) : Prop :=
  p.axiRValid = true → ∃ beats, w.burst = some beats ∧ (p.axiRLast = true ↔ beats.length = 7)

def machine (tagRam : Way → Index → Tag) (dataRam : Way → Index → Line) : Machine World Step where
  initial :=
    { cache := Icache.reset tagRam dataRam
      wrap := IcacheAxiWrap.reset
      requests := 0
      addresses := 0
      burst := none
      done := [] }
  allowed := Contract
  step := after

-- The response of the cycle ends the miss of the controller: the line is written or the request is replayed.
def Completes (w : World) (p : Step) : Prop :=
  (out w.cache (cachePins w p)).state = .replay ∨ (out w.cache (cachePins w p)).cacheWrEna = true

structure Invariant (w : World) : Prop where
  sent : w.cache.ifillReqWasSent = true ↔ w.wrap.state ≠ .idle
  owed : w.wrap.state ≠ .idle → w.cache.ctrl = .miss ∨ w.cache.ctrl = .kill
  count : w.requests = w.addresses + if w.wrap.state = .sendAr then 1 else 0
  cleared : w.wrap.state = .sendAr → w.wrap.line = 0
  receiving : w.wrap.state = .receiving ↔ w.burst.isSome = true
  line : ∀ beats, w.burst = some beats → beats.length ≤ 7 ∧ w.wrap.line = gather beats
  done : w.wrap.state = .deliver → w.done.length = 8 ∧ w.wrap.line = gather w.done

theorem invariant_start (tagRam : Way → Index → Tag) (dataRam : Way → Index → Line) : Invariant (machine tagRam dataRam).initial where
  sent := ⟨nofun,fun busy => absurd rfl busy⟩
  owed busy := absurd rfl busy
  count := rfl
  cleared state := by cases state
  receiving := ⟨nofun,nofun⟩
  line _ inside := by cases inside
  done state := by cases state

theorem silent_pins (w : World) (p : Step) : validIfillResp (cachePins w p) = respValid w.wrap ∧ validInv (cachePins w p) = false := by
  simp [validIfillResp,validInv,cachePins]

section step

variable {w : World} {p : Step} (invariant : Invariant w)
include invariant

theorem request_idle (requested : request w p = true) : w.wrap.state = .idle := by
  have reads := (IcacheSoundness.request_iff.mp requested).1
  by_contra busy
  rcases invariant.owed busy with miss | kill
  · rw [reads] at miss
    cases miss
  · rw [reads] at kill
    cases kill

inductive Move (w : World) (p : Step) : Prop where
  | rests (state : w.wrap.state = .idle) (quiet : request w p = false) (still : (after w p).wrap.state = .idle)
      (unaddressed : arFire w p = false) (unread : rFire w p = false)
  | asks (state : w.wrap.state = .idle) (requested : request w p = true)
      (moves : (after w p).wrap.state = if p.axiArReady then .receiving else .sendAr)
      (addressed : arFire w p = p.axiArReady) (unread : rFire w p = false) (line : (after w p).wrap.line = 0)
      (addr : (after w p).wrap.addr = requestPaddr w)
  | sends (state : w.wrap.state = .sendAr) (quiet : request w p = false)
      (moves : (after w p).wrap.state = if p.axiArReady then .receiving else .sendAr)
      (addressed : arFire w p = p.axiArReady) (unread : rFire w p = false) (line : (after w p).wrap.line = w.wrap.line)
      (addr : (after w p).wrap.addr = w.wrap.addr)
  | reads (state : w.wrap.state = .receiving) (quiet : request w p = false)
      (moves : (after w p).wrap.state = if p.axiRValid && p.axiRLast then .deliver else .receiving)
      (unaddressed : arFire w p = false) (read : rFire w p = p.axiRValid)
      (line : (after w p).wrap.line = if p.axiRValid then shiftIn w.wrap.line p.axiRData else w.wrap.line)
  | delivers (state : w.wrap.state = .deliver) (quiet : request w p = false) (moves : (after w p).wrap.state = .idle)
      (unaddressed : arFire w p = false) (unread : rFire w p = false)

theorem move : Move w p := by
  have quiet (busy : w.wrap.state ≠ .idle) : request w p = false := by
    by_contra requested
    exact busy (request_idle invariant (by simpa using requested))
  cases state : w.wrap.state with
  | idle =>
      have unread : rFire w p = false := by simp [rFire,axiRReady,state]
      cases requested : request w p with
      | false =>
          refine .rests state requested ?_ ?_ unread
          · simp [after,IcacheAxiWrap.next,IcacheAxiWrap.stateD,state,wrapPins,requested]
          · simp [arFire,axiArValid,state,wrapPins,requested]
      | true =>
          refine .asks state requested ?_ ?_ unread ?_ ?_
          · simp [after,IcacheAxiWrap.next,IcacheAxiWrap.stateD,state,wrapPins,requested]
          · simp [arFire,axiArValid,state,wrapPins,requested]
          · simp only [after,IcacheAxiWrap.next,state,wrapPins,requested,if_true]
          · simp only [after,IcacheAxiWrap.next,state,wrapPins,requested,if_true]
  | sendAr =>
      refine .sends state (quiet (by simp [state])) ?_ ?_ (by simp [rFire,axiRReady,state]) ?_ ?_
      · simp only [after,IcacheAxiWrap.next,IcacheAxiWrap.stateD,state,wrapPins]
        rfl
      · simp [arFire,axiArValid,state]
      · simp only [after,IcacheAxiWrap.next,state]
      · simp only [after,IcacheAxiWrap.next,state]
  | receiving =>
      refine .reads state (quiet (by simp [state])) ?_ ?_ (by simp [rFire,axiRReady,state]) ?_
      · simp [after,IcacheAxiWrap.next,IcacheAxiWrap.stateD,state,wrapPins]
      · simp [arFire,axiArValid,state]
      · rw [← shiftIn_append (r := 448)]
        simp only [after,IcacheAxiWrap.next,state,wrapPins]
        rfl
  | deliver =>
      refine .delivers state (quiet (by simp [state])) ?_ ?_ (by simp [rFire,axiRReady,state])
      · simp [after,IcacheAxiWrap.next,IcacheAxiWrap.stateD,state]
      · simp [arFire,axiArValid,state]

theorem sent_next : (after w p).cache.ifillReqWasSent = true ↔ (after w p).wrap.state ≠ .idle := by
  have sent : (after w p).cache.ifillReqWasSent = (request w p || (w.cache.ifillReqWasSent && !respValid w.wrap)) := by
    change ifillReqWasSentD w.cache (cachePins w p) = _
    rw [ifillReqWasSentD,(silent_pins w p).1,request]
  have before := invariant.sent
  rw [sent]
  cases move invariant (p := p) with
  | rests state quiet still =>
      have unsent : w.cache.ifillReqWasSent = false := by simpa [state] using before
      simp [quiet,unsent,still]
  | asks _ requested moves =>
      rw [moves]
      split <;> simp [requested]
  | sends state quiet moves =>
      have sent : w.cache.ifillReqWasSent = true := by simpa [state] using before
      rw [moves]
      split <;> simp [sent,respValid,state]
  | reads state quiet moves =>
      have sent : w.cache.ifillReqWasSent = true := by simpa [state] using before
      rw [moves]
      split <;> simp [sent,respValid,state]
  | delivers state quiet moves => simp [quiet,respValid,state,moves]

theorem owed_next (busy : (after w p).wrap.state ≠ .idle) : (after w p).cache.ctrl = .miss ∨ (after w p).cache.ctrl = .kill :=
  IcacheSoundness.sent_waits (fun sent => invariant.owed (invariant.sent.mp sent)) ((sent_next invariant (p := p)).mpr busy)

theorem count_next : (after w p).requests = (after w p).addresses + if (after w p).wrap.state = .sendAr then 1 else 0 := by
  have before := invariant.count
  have requests : (after w p).requests = if request w p then w.requests + 1 else w.requests := rfl
  have addresses : (after w p).addresses = if arFire w p then w.addresses + 1 else w.addresses := rfl
  rw [requests,addresses]
  cases move invariant (p := p) with
  | rests state quiet still unaddressed => simpa [quiet,unaddressed,still,state] using before
  | asks state requested moves addressed =>
      rw [moves,addressed]
      rw [state] at before
      cases p.axiArReady <;> simp [requested,before]
  | sends state quiet moves addressed =>
      rw [moves,addressed]
      rw [state] at before
      cases p.axiArReady <;> simp [quiet,before]
  | reads state quiet moves unaddressed =>
      rw [moves,quiet,unaddressed]
      rw [state] at before
      cases p.axiRValid && p.axiRLast <;> simpa using before
  | delivers state quiet moves unaddressed => simpa [quiet,unaddressed,moves,state] using before

theorem cleared_next (state : (after w p).wrap.state = .sendAr) : (after w p).wrap.line = 0 := by
  cases move invariant (p := p) with
  | rests _ _ still =>
      rw [still] at state
      cases state
  | asks _ _ _ _ _ line => exact line
  | sends before _ _ _ _ line => exact line.trans (invariant.cleared before)
  | reads _ _ moves =>
      rw [moves] at state
      split at state <;> cases state
  | delivers _ _ moves =>
      rw [moves] at state
      cases state

theorem opened_next (fires : arFire w p = true) (before : w.wrap.state = .idle ∨ w.wrap.state = .sendAr) :
    (after w p).wrap.state = .receiving ∧ (after w p).burst = some [] ∧ (after w p).wrap.line = 0 := by
  have burst : (after w p).burst = some [] := by simp [after,fires]
  cases move invariant (p := p) with
  | rests _ _ _ unaddressed =>
      rw [fires] at unaddressed
      cases unaddressed
  | asks _ _ moves addressed _ line =>
      rw [← addressed,fires] at moves
      exact ⟨moves,burst,line⟩
  | sends state _ moves addressed _ line =>
      rw [← addressed,fires] at moves
      exact ⟨moves,burst,line.trans (invariant.cleared state)⟩
  | reads state => rcases before with other | other <;> rw [state] at other <;> cases other
  | delivers state => rcases before with other | other <;> rw [state] at other <;> cases other

theorem closed_stays (state : w.wrap.state ≠ .receiving) (unaddressed : arFire w p = false) (unread : rFire w p = false) : (after w p).burst = none := by
  have none' : w.burst = none := by simpa using mt invariant.receiving.mpr state
  simp [after,unaddressed,unread,none']

variable (contract : Contract w p)
include contract

-- The burst and the line after a cycle
structure Bursts (w : World) : Prop where
  receiving : w.wrap.state = .receiving ↔ w.burst.isSome = true
  line : ∀ beats, w.burst = some beats → beats.length ≤ 7 ∧ w.wrap.line = gather beats
  done : w.wrap.state = .deliver → w.done.length = 8 ∧ w.wrap.line = gather w.done

theorem bursts_next : Bursts (after w p) := by
  have closed (none' : (after w p).burst = none) (idle : (after w p).wrap.state = .idle ∨ (after w p).wrap.state = .sendAr) : Bursts (after w p) := by
    refine ⟨?_,?_,?_⟩
    · rw [none']
      rcases idle with state | state <;> simp [state]
    · intro beats inside
      rw [none'] at inside
      cases inside
    · intro state
      rcases idle with other | other <;> rw [other] at state <;> cases state
  have opened (before : w.wrap.state = .idle ∨ w.wrap.state = .sendAr) (fires : arFire w p = true) : Bursts (after w p) := by
    obtain ⟨state,burst,line⟩ := opened_next invariant fires before
    refine ⟨by simp [state,burst],?_,fun other => by rw [state] at other; cases other⟩
    intro beats inside
    rw [burst,Option.some.injEq] at inside
    rw [← inside]
    exact ⟨Nat.zero_le _,line⟩
  cases move invariant (p := p) with
  | rests state _ still unaddressed unread => exact closed (closed_stays invariant (by simp [state]) unaddressed unread) (.inl still)
  | delivers state _ moves unaddressed unread => exact closed (closed_stays invariant (by simp [state]) unaddressed unread) (.inl moves)
  | asks state _ moves addressed unread =>
      cases ready : p.axiArReady with
      | true => exact opened (.inl state) (addressed.trans ready)
      | false =>
        rw [ready] at moves addressed
        exact closed (closed_stays invariant (by simp [state]) addressed unread) (.inr moves)
  | sends state _ moves addressed unread =>
      cases ready : p.axiArReady with
      | true => exact opened (.inr state) (addressed.trans ready)
      | false =>
        rw [ready] at moves addressed
        exact closed (closed_stays invariant (by simp [state]) addressed unread) (.inr moves)
  | reads state _ moves unaddressed read line =>
      obtain ⟨beats,burst⟩ := Option.isSome_iff_exists.mp (invariant.receiving.mp state)
      obtain ⟨short,words⟩ := invariant.line beats burst
      cases valid : p.axiRValid with
      | false =>
        rw [valid] at moves read line
        have same : (after w p).burst = some beats := by simp [after,unaddressed,read,burst]
        refine ⟨by simp [moves,same],?_,fun other => by rw [moves] at other; cases other⟩
        intro others inside
        rw [same,Option.some.injEq] at inside
        rw [← inside]
        exact ⟨short,line.trans words⟩
      | true =>
        obtain ⟨known,now,last⟩ := contract valid
        rw [burst,Option.some.injEq] at now
        subst now
        rw [valid] at moves read line
        have grown : (after w p).wrap.line = gather (beats ++ [p.axiRData]) := by rw [gather_snoc,← words]; exact line
        cases ends : p.axiRLast with
        | false =>
          rw [ends] at moves
          have same : (after w p).burst = some (beats ++ [p.axiRData]) := by simp [after,unaddressed,read,ends,burst]
          have more : beats.length ≠ 7 := fun whole => by simp [last.mpr whole] at ends
          refine ⟨by simp [moves,same],?_,fun other => by rw [moves] at other; cases other⟩
          intro others inside
          rw [same,Option.some.injEq] at inside
          rw [← inside,List.length_append,List.length_singleton]
          exact ⟨by omega,grown⟩
        | true =>
          rw [ends] at moves
          have none' : (after w p).burst = none := by simp [after,unaddressed,read,ends]
          have done : (after w p).done = beats ++ [p.axiRData] := by simp [after,read,ends,burst]
          refine ⟨by simp [moves,none'],?_,fun _ => ?_⟩
          · intro others inside
            rw [none'] at inside
            cases inside
          · rw [done,List.length_append,List.length_singleton,last.mp ends]
            exact ⟨rfl,grown⟩

theorem invariant_next : Invariant (after w p) where
  sent := sent_next invariant
  owed := owed_next invariant
  count := count_next invariant
  cleared := cleared_next invariant
  receiving := (bursts_next invariant contract).receiving
  line := (bursts_next invariant contract).line
  done := (bursts_next invariant contract).done

end step

theorem replayed_parts {state : Ctrl} {c : CtrlIn} (replays : (ctrl state c).state = .replay) : state = .miss ∧ c.flushOrKill = false := by
  cases state with
  | noReq => cases replays
  | replay => cases replays
  | kill | killTlb | replayTlb =>
      simp only [ctrl] at replays
      split at replays <;> cases replays
  | read | tlbMiss =>
      simp only [ctrl] at replays
      split at replays
      · cases replays
      · split at replays
        · cases replays
        · split at replays <;> cases replays
  | miss =>
      simp only [ctrl] at replays
      split at replays
      · cases replays
      next living =>
        simp only [Bool.or_eq_true,not_or,Bool.not_eq_true] at living
        exact ⟨rfl,living.1⟩

theorem completes_parts {w : World} {p : Step} (completes : Completes w p) :
    w.cache.ctrl = .miss ∧ w.cache.flush = false ∧ w.cache.kill = false := by
  rcases completes with replay | write
  · obtain ⟨state,living⟩ := replayed_parts replay
    simp only [ctrlIn,CtrlIn.flushOrKill,Bool.or_eq_false_iff] at living
    exact ⟨state,living⟩
  · obtain ⟨state,_,flush,kill⟩ := IcacheSoundness.write_parts write
    exact ⟨state,flush,kill⟩

-- A run from the reset, which does not touch the arrays
structure Run where
  tagRam : Way → Index → Tag
  dataRam : Way → Index → Line
  inputs : Nat → Step

def world (r : Run) (t : Nat) : World := trace (machine r.tagRam r.dataRam) r.inputs t

section run

variable (r : Run)

-- The fill requests and the accepted addresses are numbered in their order.
def Requested (t : Nat) : Prop := request (world r t) (r.inputs t) = true

def Addressed (t n : Nat) : Prop := arFire (world r t) (r.inputs t) = true ∧ n = (world r t).addresses

def Responded (t n : Nat) : Prop := respValid (world r t).wrap = true ∧ n + 1 = (world r t).requests

-- The crossbar takes addresses, and the slave sends the beats of an open burst.
structure Fair : Prop where
  address : ∀ t, axiArValid (world r t).wrap (wrapPins (world r t) (r.inputs t)) = true →
    ∃ u, t ≤ u ∧ (r.inputs u).axiArReady = true
  beats : ∀ t, (world r t).burst.isSome = true → ∃ u, t ≤ u ∧ (r.inputs u).axiRValid = true

-- The beats in the line of a response, the first at the lowest address
structure Carries (w : World) : Prop where
  length : w.done.length = 8
  word : ∀ k b, w.done[k]? = some b → ∀ l < 8, byteAt (respData w.wrap) (8 * k + l) = byteAt b l

structure Served : Prop where
  idle : ∀ t, Requested r t → (world r t).wrap.state = .idle ∧ ¬ Requested r (t + 1)
  -- each request has exactly one address handshake, for its address, and after it exactly one response with the beats
  once : ∀ t, Requested r t → ∃ a u, t ≤ a ∧ a < u ∧
    (Addressed r a (world r t).requests ∧
      ∀ v, Addressed r v (world r t).requests → v = a) ∧
    (axiAr (world r a).wrap (wrapPins (world r a) (r.inputs a))).addr =
      (requestPaddr (world r t)).setWidth 64 ∧
    (Responded r u (world r t).requests ∧
      ∀ v, Responded r v (world r t).requests → v = u) ∧
    Carries (world r u)
  -- and there are no others
  only : ∀ u n, Addressed r u n ∨ Responded r u n →
    ∃ t, t ≤ u ∧ Requested r t ∧ (world r t).requests = n
  -- a response completes only the miss of its own request, and only if that was neither killed nor flushed before
  own : ∀ t u, Requested r t → Responded r u (world r t).requests →
    Completes (world r u) (r.inputs u) →
    ∀ v, t ≤ v → v < u → (r.inputs v).ireqKill = false ∧ (r.inputs v).flush = false ∧ (world r (v + 1)).cache.ctrl = .miss

def fills : Ticket.Tickets where
  issues := Requested r
  count t := (world r t).requests
  inflight t n := (world r t).wrap.state ≠ .idle ∧ n + 1 = (world r t).requests
  finishes := Responded r

def bursts : Ticket.Tickets where
  issues t := arFire (world r t) (r.inputs t) = true
  count t := (world r t).addresses
  inflight t n := ((world r t).wrap.state = .receiving ∨ (world r t).wrap.state = .deliver) ∧ n + 1 = (world r t).addresses
  finishes := Responded r

variable {r}

theorem invariant_kept (admits : Admits (machine r.tagRam r.dataRam) r.inputs) (t : Nat) : Invariant (world r t) := by
  induction t with
  | zero => exact invariant_start r.tagRam r.dataRam
  | succ t ih => exact invariant_next ih (admits t)

theorem world_next (t : Nat) : world r (t + 1) = after (world r t) (r.inputs t) := rfl

theorem requests_next (t : Nat) : (world r (t + 1)).requests = if request (world r t) (r.inputs t) then (world r t).requests + 1 else (world r t).requests := rfl

theorem addresses_next (t : Nat) : (world r (t + 1)).addresses = if arFire (world r t) (r.inputs t) then (world r t).addresses + 1 else (world r t).addresses := rfl

theorem responded_state {t n : Nat} (responded : Responded r t n) : (world r t).wrap.state = .deliver := by
  simpa [respValid] using responded.1

section served

variable (admits : Admits (machine r.tagRam r.dataRam) r.inputs)
include admits

theorem fills_lawful : Ticket.Lawful (fills r) where
  empty := rfl
  issued t requested := by
    have now : request (world r t) (r.inputs t) = true := requested
    simp [fills,requests_next,now]
  kept t quiet := by
    have now : request (world r t) (r.inputs t) = false := by simpa [fills,Requested] using quiet
    simp [fills,requests_next,now]
  below := by
    rintro t n ⟨_,number⟩
    change n < (world r t).requests
    omega
  finish t n responded := ⟨by simp [responded_state responded],responded.2⟩
  step t n := by
    change (after (world r t) (r.inputs t)).wrap.state ≠ .idle ∧ n + 1 = (world r (t + 1)).requests ↔
      ((world r t).wrap.state ≠ .idle ∧ n + 1 = (world r t).requests) ∧ ¬ Responded r t n ∨
        request (world r t) (r.inputs t) = true ∧ n = (world r t).requests
    rw [requests_next]
    cases move (invariant_kept admits t) (p := r.inputs t) with
    | rests state quiet still => simp [state,quiet,still]
    | asks state requested moves =>
        rw [moves]
        cases (r.inputs t).axiArReady <;> simp [state,requested]
    | sends state quiet moves =>
        rw [moves]
        cases (r.inputs t).axiArReady <;> simp [state,quiet,Responded,respValid]
    | reads state quiet moves =>
        rw [moves]
        cases (r.inputs t).axiRValid && (r.inputs t).axiRLast <;> simp [state,quiet,Responded,respValid]
    | delivers state quiet moves => simp [state,quiet,moves,Responded,respValid]

theorem bursts_lawful : Ticket.Lawful (bursts r) where
  empty := rfl
  issued t fires := by
    have now : arFire (world r t) (r.inputs t) = true := fires
    simp [bursts,addresses_next,now]
  kept t quiet := by
    have now : arFire (world r t) (r.inputs t) = false := by simpa [bursts] using quiet
    simp [bursts,addresses_next,now]
  below := by
    rintro t n ⟨_,number⟩
    change n < (world r t).addresses
    omega
  finish t n responded := by
    have state := responded_state responded
    have count := (invariant_kept admits t).count
    rw [state] at count
    refine ⟨.inr state,?_⟩
    rw [responded.2,count]
    rfl
  step t n := by
    have count := (invariant_kept admits t).count
    change ((after (world r t) (r.inputs t)).wrap.state = .receiving ∨ (after (world r t) (r.inputs t)).wrap.state = .deliver) ∧
        n + 1 = (world r (t + 1)).addresses ↔
      (((world r t).wrap.state = .receiving ∨ (world r t).wrap.state = .deliver) ∧ n + 1 = (world r t).addresses) ∧ ¬ Responded r t n ∨
        arFire (world r t) (r.inputs t) = true ∧ n = (world r t).addresses
    rw [addresses_next]
    unfold Responded
    cases move (invariant_kept admits t) (p := r.inputs t) with
    | rests state _ still unaddressed => simp [state,unaddressed,still]
    | asks state _ moves addressed =>
        rw [moves,addressed]
        cases (r.inputs t).axiArReady <;> simp [state]
    | sends state _ moves addressed =>
        rw [moves,addressed]
        cases (r.inputs t).axiArReady <;> simp [state]
    | reads state _ moves unaddressed =>
        rw [moves]
        cases (r.inputs t).axiRValid && (r.inputs t).axiRLast <;> simp [state,unaddressed,respValid]
    | delivers state _ moves unaddressed =>
        rw [state] at count
        simp only [reduceCtorEq,if_false,Nat.add_zero] at count
        simp [state,unaddressed,moves,respValid,count]

theorem busy_between {t u : Nat} (requested : Requested r t) (responded : Responded r u (world r t).requests) {v : Nat} (later : t < v) (within : v ≤ u) :
    (world r v).wrap.state ≠ .idle := by
  have lawful := fills_lawful admits
  have first : (fills r).inflight (t + 1) (world r t).requests := (lawful.step t _).mpr (.inr ⟨requested,rfl⟩)
  have still := Ticket.inflight_lasts lawful first later (by
    intro x _ before earlier
    have same := Ticket.finish_once lawful earlier responded
    omega)
  exact still.1

-- A miss that its response completes was a living miss in all cycles before: the induction goes back from the response.
theorem living_since {t u : Nat} (requested : Requested r t) (responded : Responded r u (world r t).requests)
    (completes : Completes (world r u) (r.inputs u)) (d v : Nat) (place : v + d = u) (later : t < v) :
    (world r v).cache.ctrl = .miss ∧ (world r v).cache.flush = false ∧ (world r v).cache.kill = false := by
  induction d generalizing v with
  | zero =>
    obtain rfl : v = u := by omega
    exact completes_parts completes
  | succ d ih =>
    have missed : (out (world r v).cache (cachePins (world r v) (r.inputs v))).state = .miss := (ih (v + 1) (by omega) (by omega)).1
    rcases IcacheSoundness.miss_iff.mp missed with ⟨state,flush,kill,_⟩ | ⟨reads,_⟩
    · exact ⟨state,flush,kill⟩
    · have busy := busy_between admits requested responded later (by omega)
      rcases (invariant_kept admits v).owed busy with miss | killed
      · rw [reads] at miss
        cases miss
      · rw [reads] at killed
        cases killed

theorem requests_stay {t : Nat} (busy : (world r t).wrap.state ≠ .idle) : (world r (t + 1)).requests = (world r t).requests := by
  have quiet : request (world r t) (r.inputs t) = false := by
    by_contra requested
    exact busy (request_idle (invariant_kept admits t) (by simpa using requested))
  rw [requests_next,quiet]
  rfl

variable (fair : Fair r)
include fair

theorem address_comes {t : Nat} (requested : Requested r t) : ∃ a, t ≤ a ∧ Addressed r a (world r t).requests ∧
    (axiAr (world r a).wrap (wrapPins (world r a) (r.inputs a))).addr = (requestPaddr (world r t)).setWidth 64 := by
  have idle := request_idle (invariant_kept admits t) requested
  have count := (invariant_kept admits t).count
  rw [idle] at count
  have number : (world r t).requests = (world r t).addresses := by simpa using count
  cases move (invariant_kept admits t) (p := r.inputs t) with
  | rests _ quiet =>
      rw [requested] at quiet
      cases quiet
  | sends state | reads state | delivers state =>
      rw [idle] at state
      cases state
  | asks _ _ moves addressed _ _ addr =>
      cases ready : (r.inputs t).axiArReady with
      | true => exact ⟨t,Nat.le_refl t,⟨addressed.trans ready,number⟩,by simp [axiAr,idle,wrapPins]⟩
      | false =>
        rw [ready] at moves addressed
        have same : (world r (t + 1)).addresses = (world r t).addresses := by rw [addresses_next,addressed]; rfl
        have valid : axiArValid (world r (t + 1)).wrap (wrapPins (world r (t + 1)) (r.inputs (t + 1))) = true := by
          rw [world_next]
          simp [axiArValid,moves]
        obtain ⟨a,later,⟨state,held,issued⟩,ready'⟩ := holds_until
          (fun u => (world r u).wrap.state = .sendAr ∧ (world r u).wrap.addr = requestPaddr (world r t) ∧ (world r u).addresses = (world r t).addresses)
          (fun u => (r.inputs u).axiArReady = true) (t := t + 1) ⟨moves,addr,same⟩ (by
            rintro u _ ⟨state,held,issued⟩ unready
            rw [Bool.not_eq_true] at unready
            cases move (invariant_kept admits u) (p := r.inputs u) with
            | sends _ _ moves addressed _ _ addr =>
                rw [unready] at moves addressed
                exact ⟨moves,addr.trans held,by rw [addresses_next,addressed]; exact issued⟩
            | rests other | asks other | reads other | delivers other =>
                rw [state] at other
                cases other) (fair.address (t + 1) valid)
        refine ⟨a,by omega,⟨?_,by rw [number,issued]⟩,?_⟩
        · simp [arFire,axiArValid,state,ready']
        · simp [axiAr,state,held]

theorem sending_ends {t : Nat} (state : (world r t).wrap.state = .sendAr) :
    ∃ u, t ≤ u ∧ (world r u).wrap.state = .receiving ∧ (world r u).requests = (world r t).requests := by
  obtain ⟨u,later,⟨sends,same⟩,ready⟩ := holds_until
    (fun u => (world r u).wrap.state = .sendAr ∧ (world r u).requests = (world r t).requests) (fun u => (r.inputs u).axiArReady = true) ⟨state,rfl⟩ (by
      rintro u _ ⟨sends,same⟩ unready
      rw [Bool.not_eq_true] at unready
      refine ⟨?_,(requests_stay admits (by simp [sends])).trans same⟩
      simp [world_next,after,IcacheAxiWrap.next,IcacheAxiWrap.stateD,sends,wrapPins,unready]) (fair.address t (by simp [axiArValid,state]))
  refine ⟨u + 1,by omega,?_,(requests_stay admits (by simp [sends])).trans same⟩
  simp [world_next,after,IcacheAxiWrap.next,IcacheAxiWrap.stateD,sends,wrapPins,ready]

theorem beat_taken {t : Nat} {beats : List (BitVec 64)} (burst : (world r t).burst = some beats) :
    ∃ u, t ≤ u ∧ (world r (u + 1)).requests = (world r t).requests ∧ ((world r (u + 1)).wrap.state = .deliver ∨
      ∃ more, (world r (u + 1)).burst = some more ∧ more.length = beats.length + 1) := by
  have receiving (u : Nat) (open' : (world r u).burst = some beats) : (world r u).wrap.state = .receiving :=
    (invariant_kept admits u).receiving.mpr (by simp [open'])
  obtain ⟨u,later,⟨open',same⟩,valid⟩ := holds_until
    (fun u => (world r u).burst = some beats ∧ (world r u).requests = (world r t).requests) (fun u => (r.inputs u).axiRValid = true) ⟨burst,rfl⟩ (by
      rintro u _ ⟨open',same⟩ silent
      have state := receiving u open'
      refine ⟨?_,(requests_stay admits (by simp [state])).trans same⟩
      simp [world_next,after,arFire,axiArValid,rFire,state,silent,open']) (fair.beats t (by simp [burst]))
  have state := receiving u open'
  refine ⟨u,later,(requests_stay admits (by simp [state])).trans same,?_⟩
  cases last : (r.inputs u).axiRLast with
  | true =>
      left
      simp [world_next,after,IcacheAxiWrap.next,IcacheAxiWrap.stateD,state,wrapPins,valid,last]
  | false =>
      right
      refine ⟨beats ++ [(r.inputs u).axiRData],?_,by simp⟩
      simp [world_next,after,arFire,axiArValid,rFire,axiRReady,state,valid,last,open']

theorem receiving_ends {d t : Nat} {beats : List (BitVec 64)} (burst : (world r t).burst = some beats) (left' : 8 ≤ beats.length + d) :
    ∃ u, t ≤ u ∧ (world r u).wrap.state = .deliver ∧ (world r u).requests = (world r t).requests := by
  induction d generalizing t beats with
  | zero =>
    have short := ((invariant_kept admits t).line beats burst).1
    omega
  | succ d ih =>
    obtain ⟨u,later,same,delivers | ⟨more,open',length⟩⟩ := beat_taken admits fair burst
    · exact ⟨u + 1,by omega,delivers,same⟩
    · obtain ⟨v,after',delivers,kept⟩ := ih open' (by omega)
      exact ⟨v,by omega,delivers,kept.trans same⟩

theorem fills_end (t n : Nat) (waits : (world r t).wrap.state ≠ .idle ∧ n + 1 = (world r t).requests) : ∃ u, t ≤ u ∧ Responded r u n := by
  have received (u : Nat) (later : t ≤ u) (state : (world r u).wrap.state = .receiving) (same : (world r u).requests = (world r t).requests) :
      ∃ v, t ≤ v ∧ Responded r v n := by
    obtain ⟨beats,burst⟩ := Option.isSome_iff_exists.mp ((invariant_kept admits u).receiving.mp state)
    obtain ⟨v,after',delivers,kept⟩ := receiving_ends admits fair burst (Nat.le_add_left 8 _)
    exact ⟨v,by omega,by simp [respValid,delivers],by rw [kept,same]; exact waits.2⟩
  cases state : (world r t).wrap.state with
  | idle => exact absurd state waits.1
  | deliver => exact ⟨t,Nat.le_refl t,by simp [respValid,state],waits.2⟩
  | receiving => exact received t (Nat.le_refl t) state rfl
  | sendAr =>
      obtain ⟨u,later,receives,same⟩ := sending_ends admits fair state
      exact received u later receives same

-- The bridge loses no fill of the instruction cache.
theorem fills_served : Served r where
  idle := by
    intro t requested
    refine ⟨request_idle (invariant_kept admits t) requested,fun again => ?_⟩
    have idle := request_idle (invariant_kept admits (t + 1)) again
    have lawful := fills_lawful admits
    exact ((lawful.step t _).mpr (.inr ⟨requested,rfl⟩)).1 idle
  once := by
    intro t requested
    obtain ⟨a,later,addressed,addr⟩ := address_comes admits fair requested
    obtain ⟨u,_,responded,unique⟩ := Ticket.served_once (fills_lawful admits) (fills_end admits fair) (t := t) requested
    have state := responded_state responded
    have count := (invariant_kept admits u).count
    rw [state] at count
    refine ⟨a,u,later,?_,⟨addressed,?_⟩,addr,⟨responded,unique⟩,?_⟩
    · by_contra before
      have more := Ticket.count_mono (bursts_lawful admits) (by omega : u ≤ a)
      change (world r u).addresses ≤ (world r a).addresses at more
      have number := addressed.2
      have last := responded.2
      simp only [reduceCtorEq,if_false,Nat.add_zero] at count
      change (world r t).requests + 1 = (world r u).requests at last
      omega
    · intro v again
      exact Ticket.issue_inj (bursts_lawful admits) again.1 addressed.1 (again.2.symm.trans addressed.2)
    · obtain ⟨length,line⟩ := (invariant_kept admits u).done state
      refine ⟨length,?_⟩
      intro k b word l lane
      have placed := gather_byte (m := 8) (n := 64) (by omega) word lane
      rw [length] at placed
      rw [respData,line]
      simpa using placed
  only := by
    rintro u n (addressed | responded)
    · cases move (invariant_kept admits u) (p := r.inputs u) with
      | asks state requested =>
          have count := (invariant_kept admits u).count
          rw [state] at count
          refine ⟨u,Nat.le_refl u,requested,?_⟩
          rw [addressed.2,count]
          rfl
      | sends state =>
          have count := (invariant_kept admits u).count
          rw [state] at count
          obtain ⟨t,before,requested,number⟩ := Ticket.inflight_issued (fills_lawful admits) (u := u) (n := n)
            ⟨by simp [state],by rw [addressed.2,count]; rfl⟩
          exact ⟨t,by omega,requested,number⟩
      | rests _ _ _ unaddressed | reads _ _ _ unaddressed | delivers _ _ _ unaddressed =>
          rw [addressed.1] at unaddressed
          cases unaddressed
    · obtain ⟨t,before,requested,number⟩ := Ticket.inflight_issued (fills_lawful admits) ((fills_lawful admits).finish u n responded)
      exact ⟨t,by omega,requested,number⟩
  own := by
    intro t u requested responded completes v later before
    obtain ⟨state,flush,kill⟩ := living_since admits requested responded completes (u - (v + 1)) (v + 1) (by omega) (by omega)
    exact ⟨kill,flush,state⟩

end served

end run

def idle : Step where
  flush := false
  ireqValid := false
  ireqKill := false
  ireqIdx := 0
  ireqVpn := 0
  tresp := ⟨false,false,0,false⟩
  axiArReady := true
  axiRValid := false
  axiRData := 0
  axiRLast := false

def filling (t : Nat) : Step :=
  { idle with
    ireqValid := t == 1
    axiRValid := decide (3 ≤ t) && decide (t ≤ 10)
    axiRLast := t == 10 }

def filled : Run := ⟨fun _ _ => 0,fun _ _ => 0,filling⟩

theorem filling_quiet (t : Nat) : filling (t + 14) = idle := by
  have one : (t + 14 == 1) = false := by simp
  have late : decide (t + 14 ≤ 10) = false := by simp
  have ten : (t + 14 == 10) = false := by simp
  rw [filling,one,late,ten,Bool.and_false]
  rfl

theorem filled_quiet (t : Nat) : (world filled (t + 14)).cache.ctrl = .read ∧ (world filled (t + 14)).cache.validIreq = false ∧
    (world filled (t + 14)).wrap.state = .idle ∧ (world filled (t + 14)).burst = none := by
  induction t with
  | zero => decide
  | succ t ih =>
    obtain ⟨ctrl,quiet,bridge,burst⟩ := ih
    have unasked : request (world filled (t + 14)) idle = false := by
      by_contra requested
      have compares := (IcacheSoundness.request_iff.mp (by simpa using requested : request _ _ = true)).2.1.compares
      rw [quiet] at compares
      cases compares
    have step : world filled (t + 1 + 14) = after (world filled (t + 14)) idle := by
      rw [← filling_quiet t]
      rfl
    have stays : (out (world filled (t + 14)).cache (cachePins (world filled (t + 14)) idle)).state = .read ∧
        (out (world filled (t + 14)).cache (cachePins (world filled (t + 14)) idle)).replayValid = false := by
      simp [out,Icache.ctrl,ctrl,ctrlIn,CtrlIn.newRequest,quiet]
    rw [step]
    refine ⟨stays.1,?_,?_,?_⟩
    · have none' : (cachePins (world filled (t + 14)) idle).ireqValid = false := rfl
      change validIreqD (world filled (t + 14)).cache (cachePins (world filled (t + 14)) idle) = false
      rw [validIreqD,stays.2,none']
      rfl
    · simp [after,IcacheAxiWrap.next,IcacheAxiWrap.stateD,bridge,wrapPins,unasked]
    · have unaddressed : arFire (world filled (t + 14)) idle = false := by simp [arFire,axiArValid,bridge,wrapPins,unasked]
      have unread : rFire (world filled (t + 14)) idle = false := rfl
      simp [after,unaddressed,unread,burst]

theorem filled_bursts : ∀ t < 14, ((world filled t).burst.isSome = true → 3 ≤ t ∧ t ≤ 10) ∧
    (3 ≤ t → t ≤ 10 → (world filled t).burst = some (List.replicate (t - 3) 0)) := by
  decide

theorem filled_admits : Admits (machine filled.tagRam filled.dataRam) filled.inputs := by
  intro t valid
  change (filling t).axiRValid = true at valid
  simp only [filling,Bool.and_eq_true,decide_eq_true_eq] at valid
  refine ⟨_,(filled_bursts t (by omega)).2 valid.1 valid.2,?_⟩
  change (t == 10) = true ↔ _
  rw [List.length_replicate,beq_iff_eq]
  omega

theorem filled_fair : Fair filled where
  address t _ := ⟨t,Nat.le_refl t,rfl⟩
  beats := by
    intro t some'
    refine ⟨t,Nat.le_refl t,?_⟩
    by_cases early : t < 14
    · have within := (filled_bursts t early).1 some'
      change (filling t).axiRValid = true
      simp [filling,within]
    · obtain ⟨d,rfl⟩ := Nat.exists_eq_add_of_le (Nat.not_lt.mp early)
      rw [Nat.add_comm,(filled_quiet d).2.2.2] at some'
      cases some'

theorem fills_served_line : Responded filled 11 0 ∧ Completes (world filled 11) (filling 11) ∧ Served filled :=
  ⟨⟨by decide,by decide⟩,.inl (by decide),fills_served filled_admits filled_fair⟩

end Sargantana.IcacheFill
