import Sargantana.Tlb
import Sargantana.PtwArb
import Sargantana.PtwCache

-- bsc_mmu: the two TLBs, the arbiter and the page table walker in one cycle.
namespace Sargantana.BscMmu
open MmuPkg StateMachine

structure State where
  itlb : Tlb.State
  dtlb : Tlb.State
  arb : PtwArb.State
  ptw : Ptw.State

structure Port where
  req : Tlb.CacheReq
  privLvl : BitVec 2
  vmEnable : Bool

-- icache_itlb_comm_i, core_dtlb_comm_i, dmem_ptw_comm_i and csr_ptw_comm_i
structure Input where
  icache : Port
  core : Port
  dmemReady : Bool
  respValid : Bool
  respNack : Bool
  respData : BitVec 64
  satp : BitVec 44
  flush : Bool
  sum : Bool
  mxr : Bool

def Port.input (p : Port) (ptw : PtwTlbComm) : Tlb.Input := ⟨p.req,p.privLvl,p.vmEnable,ptw⟩

-- ptw_tlb_comm, the answer of the walker to the arbiter. The arbiter does not read its ready.
def ptwTlbComm (s : State) (i : Input) : PtwTlbComm := ⟨Ptw.resp s.ptw,decide (s.ptw.fsm = .ready),i.sum,i.mxr,i.flush⟩

-- The requests of the TLBs do not depend on what the walker sends.
def arbInput (s : State) (i : Input) : PtwArb.Input where
  itlb := Tlb.tlbPtwReq s.itlb (i.icache.input (ptwTlbComm s i))
  dtlb := Tlb.tlbPtwReq s.dtlb (i.core.input (ptwTlbComm s i))
  ptw := ptwTlbComm s i

def itlbInput (s : State) (i : Input) : Tlb.Input := i.icache.input (PtwArb.ptwItlbComm s.arb (arbInput s i))

def dtlbInput (s : State) (i : Input) : Tlb.Input := i.core.input (PtwArb.ptwDtlbComm s.arb (arbInput s i))

def ptwInput (s : State) (i : Input) : Ptw.Input :=
  ⟨PtwArb.tlbPtwReq s.arb (arbInput s i),i.dmemReady,i.respValid,i.respNack,i.respData,i.satp,i.flush⟩

def next (s : State) (i : Input) : State where
  itlb := Tlb.next s.itlb (itlbInput s i)
  dtlb := Tlb.next s.dtlb (dtlbInput s i)
  arb := PtwArb.next s.arb (arbInput s i)
  ptw := Ptw.next s.ptw (ptwInput s i)

def reset : State := ⟨Tlb.reset,Tlb.reset,PtwArb.reset,Ptw.reset⟩

-- Any requests, any memory and any invalidations
def machine : Machine State Input := ⟨reset,fun _ _ => True,next⟩

inductive Side where
  | itlb | dtlb
  deriving DecidableEq

def Side.other : Side → Side
  | .itlb => .dtlb
  | .dtlb => .itlb

def serving : Side → PtwArb.Fsm
  | .itlb => .servingITlb
  | .dtlb => .servingDTlb

def tlb (s : State) : Side → Tlb.State
  | .itlb => s.itlb
  | .dtlb => s.dtlb

def tlbInput (s : State) (i : Input) : Side → Tlb.Input
  | .itlb => itlbInput s i
  | .dtlb => dtlbInput s i

def request (s : State) (i : Input) : Side → TlbPtwReq
  | .itlb => (arbInput s i).itlb
  | .dtlb => (arbInput s i).dtlb

def accepts (s : State) (i : Input) (side : Side) : Bool := (request s i side).valid && (tlbInput s i side).ptw.ptwReady

def responds (s : State) (i : Input) (side : Side) : Bool := (tlbInput s i side).ptw.resp.valid

def waits (t : Tlb.State) : Bool := decide (t.fsm = .waitResponse) || decide (t.fsm = .invalidatedWaitResponse)

-- What the four state machines say about each other
structure Coupled (s : State) : Prop where
  idle : s.arb.fsm = .idle → s.ptw.fsm = .ready
  data : s.arb.fsm = .servingDTlb → s.ptw.fsm ≠ .ready
  fresh : s.arb.fsm = .servingITlb → s.ptw.fsm = .ready → s.arb.isReqWaiting = true
  saved : s.arb.isReqWaiting = true → s.arb.itlbReqWaiting.valid = true
  itlb : waits s.itlb = (decide (s.arb.fsm = .servingITlb) || s.arb.isReqWaiting)
  dtlb : waits s.dtlb = decide (s.arb.fsm = .servingDTlb)

theorem waits_next (t : Tlb.State) (i : Tlb.Input) :
    waits (Tlb.next t i) = (decide (t.fsm = .sendRequest) && i.ptw.ptwReady || waits t && !i.ptw.resp.valid) := by
  change (decide (Tlb.nextFsm t i = _) || decide (Tlb.nextFsm t i = _)) = _
  unfold waits
  cases fsm : t.fsm with
  | idle =>
    simp only [Tlb.nextFsm,fsm]
    split <;> rfl
  | sendRequest =>
    simp only [Tlb.nextFsm,fsm]
    cases i.ptw.ptwReady <;> cases i.ptw.invalidateTlb <;> rfl
  | waitResponse =>
    simp only [Tlb.nextFsm,fsm]
    cases i.ptw.ptwReady <;> cases i.ptw.resp.valid <;> cases i.ptw.invalidateTlb <;> rfl
  | invalidatedWaitResponse =>
    simp only [Tlb.nextFsm,fsm]
    cases i.ptw.ptwReady <;> cases i.ptw.resp.valid <;> rfl

theorem request_valid (t : Tlb.State) (i : Tlb.Input) : (Tlb.tlbPtwReq t i).valid = decide (t.fsm = .sendRequest) := by
  unfold Tlb.tlbPtwReq
  split
  · rename_i sends
    rw [sends]
    rfl
  · rename_i quiet
    rw [decide_eq_false quiet]
    rfl

theorem busy_next (s : Ptw.State) (i : Ptw.Input) : decide ((Ptw.next s i).fsm ≠ .ready) =
    (decide (s.fsm = .ready) && i.req.valid || decide (s.fsm ≠ .ready) && !(Ptw.resp s).valid) := by
  by_cases ready : s.fsm = .ready
  · change decide (Ptw.nextFsm s i ≠ .ready) = _
    simp only [Ptw.nextFsm,ready]
    cases i.req.valid <;> rfl
  · cases answer : (Ptw.resp s).valid with
    | false =>
      have busy := (PtwCache.busy_next (i := i) ready answer).1
      simp [busy,ready]
    | true =>
      have back : Ptw.nextFsm s i = .ready := by
        cases fsm : s.fsm <;> simp [Ptw.resp,fsm] at answer <;> simp [Ptw.nextFsm,fsm]
      have free : (Ptw.next s i).fsm = .ready := back
      simp [free,ready]

variable {s : State} {i : Input}

theorem tlb_next (side : Side) : tlb (next s i) side = Tlb.next (tlb s side) (tlbInput s i side) := by
  cases side <;> rfl

theorem accepts_eq (side : Side) : accepts s i side = (decide ((tlb s side).fsm = .sendRequest) && (tlbInput s i side).ptw.ptwReady) := by
  unfold accepts
  cases side with
  | itlb =>
    change ((Tlb.tlbPtwReq s.itlb _).valid && _) = _
    rw [request_valid]
    rfl
  | dtlb =>
    change ((Tlb.tlbPtwReq s.dtlb _).valid && _) = _
    rw [request_valid]
    rfl

theorem responds_eq (side : Side) : responds s i side = (decide (s.arb.fsm = serving side) && (Ptw.resp s.ptw).valid) := by
  have port : (tlbInput s i side).ptw.resp = if s.arb.fsm = serving side then Ptw.resp s.ptw else .zero := by cases side <;> rfl
  rw [responds,port]
  by_cases here : s.arb.fsm = serving side
  · rw [if_pos here,decide_eq_true here,Bool.true_and]
  · rw [if_neg here,decide_eq_false here]
    rfl

theorem side_waits_next (side : Side) : waits (tlb (next s i) side) = (accepts s i side || waits (tlb s side) && !responds s i side) := by
  rw [tlb_next,waits_next,accepts_eq]
  rfl

theorem ready_eq (side : Side) : (tlbInput s i side).ptw.ptwReady = PtwArb.ptwReady s.arb (arbInput s i) := by
  cases side <;> rfl

theorem waits_quiet {side : Side} (waiting : waits (tlb s side) = true) : (request s i side).valid = false := by
  have quiet : decide ((tlb s side).fsm = .sendRequest) = false := by
    unfold waits at waiting
    cases fsm : (tlb s side).fsm <;> rw [fsm] at waiting <;> first | rfl | cases waiting
  cases side with
  | itlb => exact (request_valid _ _).trans quiet
  | dtlb => exact (request_valid _ _).trans quiet

theorem accepts_ask (side : Side) : accepts s i side = ((request s i side).valid && PtwArb.ptwReady s.arb (arbInput s i)) := by
  rw [accepts,ready_eq]

theorem ready_silent (ready : s.ptw.fsm = .ready) : (Ptw.resp s.ptw).valid = false := by simp [Ptw.resp,ready]

-- The signals between the four machines, in terms of their states
structure Signals (s : State) (i : Input) : Prop where
  busy : decide ((next s i).ptw.fsm ≠ .ready) =
    (decide (s.ptw.fsm = .ready) && (PtwArb.tlbPtwReq s.arb (arbInput s i)).valid || decide (s.ptw.fsm ≠ .ready) && !(Ptw.resp s.ptw).valid)
  itlb : waits (next s i).itlb = ((arbInput s i).itlb.valid && PtwArb.ptwReady s.arb (arbInput s i) ||
    waits s.itlb && !(decide (s.arb.fsm = .servingITlb) && (Ptw.resp s.ptw).valid))
  dtlb : waits (next s i).dtlb = ((arbInput s i).dtlb.valid && PtwArb.ptwReady s.arb (arbInput s i) ||
    waits s.dtlb && !(decide (s.arb.fsm = .servingDTlb) && (Ptw.resp s.ptw).valid))

theorem signals (s : State) (i : Input) : Signals s i := by
  refine ⟨busy_next s.ptw (ptwInput s i),?_,?_⟩
  · have now : waits (next s i).itlb = _ := side_waits_next .itlb
    rw [now,accepts_ask,responds_eq]
    rfl
  · have now : waits (next s i).dtlb = _ := side_waits_next .dtlb
    rw [now,accepts_ask,responds_eq]
    rfl

theorem coupled_next (c : Coupled s) : Coupled (next s i) := by
  obtain ⟨busy,itlb,dtlb⟩ := signals s i
  have fsm : (next s i).arb.fsm = PtwArb.nextFsm s.arb (arbInput s i) := rfl
  have waiting : (next s i).arb.isReqWaiting = PtwArb.nextWaiting s.arb (arbInput s i) := rfl
  have kept : (next s i).arb.itlbReqWaiting = if s.arb.fsm = .idle ∧ PtwArb.bothAsk (arbInput s i) = true then (arbInput s i).itlb
    else s.arb.itlbReqWaiting := rfl
  have answer : (arbInput s i).ptw.resp = Ptw.resp s.ptw := rfl
  obtain ⟨idle,data,fresh,saved,itlbWaits,dtlbWaits⟩ := c
  have quiet : s.arb.isReqWaiting = true → (arbInput s i).itlb.valid = false := by
    intro keeps
    have waits : waits (tlb s .itlb) = true := by rw [tlb,itlbWaits,keeps,Bool.or_true]
    exact waits_quiet waits
  simp only [PtwArb.nextFsm,PtwArb.nextWaiting,PtwArb.ptwReady,PtwArb.tlbPtwReq,PtwArb.resumes,PtwArb.bothAsk,answer] at *
  have silent : s.ptw.fsm = .ready → (Ptw.resp s.ptw).valid = false := ready_silent
  cases serves : s.arb.fsm with
  | idle =>
    cases asksD : (arbInput s i).dtlb.valid <;> cases asksI : (arbInput s i).itlb.valid <;> cases keeps : s.arb.isReqWaiting <;>
      simp_all <;> constructor <;> simp_all [TlbPtwReq.zero]
  | servingITlb =>
    cases responds : (Ptw.resp s.ptw).valid <;> cases keeps : s.arb.isReqWaiting <;>
      by_cases ready : s.ptw.fsm = .ready <;> simp_all <;> constructor <;> simp_all
  | servingDTlb =>
    cases responds : (Ptw.resp s.ptw).valid <;> cases keeps : s.arb.isReqWaiting <;> simp_all <;> constructor <;> simp_all

def Owns (s : State) (r : TlbPtwReq) : Side → Prop
  | .dtlb => s.ptw.rReq = r
  | .itlb => (s.arb.isReqWaiting = true → s.arb.itlbReqWaiting = r) ∧
    (s.arb.fsm = .servingITlb → s.ptw.fsm ≠ .ready → s.ptw.rReq = r)

theorem rReq_busy (busy : s.ptw.fsm ≠ .ready) : (next s i).ptw.rReq = s.ptw.rReq := by
  change (if s.ptw.fsm = .ready ∧ _ then _ else _) = _
  rw [if_neg (fun both => busy both.1)]

theorem rReq_taken (ready : s.ptw.fsm = .ready) (asks : (PtwArb.tlbPtwReq s.arb (arbInput s i)).valid = true) :
    (next s i).ptw.rReq = PtwArb.tlbPtwReq s.arb (arbInput s i) := by
  change (if s.ptw.fsm = .ready ∧ _ then _ else _) = _
  exact if_pos ⟨ready,asks⟩

theorem accepts_owns (c : Coupled s) {side : Side} (accepted : accepts s i side = true) : Owns (next s i) (request s i side) side := by
  rw [accepts_ask,Bool.and_eq_true] at accepted
  obtain ⟨asks,open'⟩ := accepted
  simp only [PtwArb.ptwReady,PtwArb.resumes,Bool.and_eq_true,decide_eq_true_eq,Bool.not_eq_true'] at open'
  obtain ⟨idle,free⟩ := open'
  have ready := c.idle idle
  cases side with
  | dtlb =>
    change (arbInput s i).dtlb.valid = true at asks
    have sends : PtwArb.tlbPtwReq s.arb (arbInput s i) = (arbInput s i).dtlb := by
      simp only [PtwArb.tlbPtwReq,idle]
      split
      · rfl
      · rename_i alone
        simp only [alone,Bool.not_false,Bool.true_and] at free
        simp [free]
    change (next s i).ptw.rReq = (arbInput s i).dtlb
    rw [rReq_taken ready (by rw [sends]; exact asks),sends]
  | itlb =>
    change (arbInput s i).itlb.valid = true at asks
    cases both : PtwArb.bothAsk (arbInput s i) with
    | true =>
      refine ⟨fun _ => ?_,fun serves => ?_⟩
      · change (if s.arb.fsm = .idle ∧ _ then _ else _) = _
        exact if_pos ⟨idle,both⟩
      · change PtwArb.nextFsm s.arb (arbInput s i) = _ at serves
        simp [PtwArb.nextFsm,idle,both] at serves
    | false =>
      have away : s.arb.isReqWaiting = false := by simpa [both] using free
      have alone : (arbInput s i).dtlb.valid = false := by simpa [PtwArb.bothAsk,asks] using both
      have sends : PtwArb.tlbPtwReq s.arb (arbInput s i) = (arbInput s i).itlb := by
        simp [PtwArb.tlbPtwReq,idle,both,away,alone,asks]
      refine ⟨fun keeps => ?_,fun _ _ => ?_⟩
      · change PtwArb.nextWaiting s.arb (arbInput s i) = true at keeps
        simp [PtwArb.nextWaiting,idle,both,away] at keeps
      · change (next s i).ptw.rReq = (arbInput s i).itlb
        rw [rReq_taken ready (by rw [sends]; exact asks),sends]

theorem waits_owns (c : Coupled s) {side : Side} (waiting : waits (tlb s side) = true) (silent : responds s i side = false)
    {r : TlbPtwReq} (owns : Owns s r side) : Owns (next s i) r side := by
  have quiet := waits_quiet (i := i) waiting
  rw [responds_eq] at silent
  cases side with
  | dtlb =>
    have serves : s.arb.fsm = .servingDTlb := by
      have data : waits s.dtlb = true := waiting
      rw [c.dtlb] at data
      exact of_decide_eq_true data
    exact (rReq_busy (c.data serves)).trans owns
  | itlb =>
    change (arbInput s i).itlb.valid = false at quiet
    have alone : PtwArb.bothAsk (arbInput s i) = false := by simp [PtwArb.bothAsk,quiet]
    have kept : (next s i).arb.itlbReqWaiting = s.arb.itlbReqWaiting := by
      change (if _ ∧ PtwArb.bothAsk (arbInput s i) = true then _ else _) = _
      rw [if_neg (by simp [alone])]
    obtain ⟨saved,walked⟩ := owns
    have known : waits s.itlb = true := waiting
    rw [c.itlb] at known
    refine ⟨fun keeps => ?_,fun serves busy => ?_⟩
    · change PtwArb.nextWaiting s.arb (arbInput s i) = true at keeps
      rw [kept]
      apply saved
      unfold PtwArb.nextWaiting at keeps
      split at keeps
      · simpa [alone] using keeps
      · simp only [Bool.and_eq_true] at keeps
        exact keeps.2
      · exact keeps
    · change PtwArb.nextFsm s.arb (arbInput s i) = _ at serves
      have later := (signals s i).busy
      rw [decide_eq_true busy] at later
      cases fsm : s.arb.fsm with
      | idle =>
        rw [fsm] at known
        have keeps : s.arb.isReqWaiting = true := by simpa using known
        simp [PtwArb.tlbPtwReq,fsm,alone,keeps,TlbPtwReq.zero,c.idle fsm] at later
      | servingITlb =>
        by_cases ready : s.ptw.fsm = .ready
        · have keeps := c.fresh fsm ready
          have sends : PtwArb.tlbPtwReq s.arb (arbInput s i) = s.arb.itlbReqWaiting := by simp [PtwArb.tlbPtwReq,fsm,keeps]
          rw [rReq_taken ready (by rw [sends]; exact c.saved keeps),sends]
          exact saved keeps
        · rw [rReq_busy ready]
          exact walked fsm ready
      | servingDTlb =>
        simp only [PtwArb.nextFsm,fsm] at serves
        split at serves <;> cases serves

end Sargantana.BscMmu
