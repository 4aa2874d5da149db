import Sargantana.BscMmu

-- Every request that a TLB hands over gets its own response.
namespace Sargantana.WalkService
open MmuPkg StateMachine BscMmu

variable {s : State} {i : Input} {inputs : Nat → Input}

theorem trace_coupled (inputs : Nat → Input) (u : Nat) : Coupled (trace machine inputs u) := by
  induction u with
  | zero => exact ⟨fun _ => rfl,fun no => (by cases no),fun no => (by cases no),fun no => (by cases no),rfl,rfl⟩
  | succ u ih => exact coupled_next ih

def acceptsAt (inputs : Nat → Input) (side : Side) (t : Nat) : Bool := accepts (trace machine inputs t) (inputs t) side

def respondsAt (inputs : Nat → Input) (side : Side) (t : Nat) : Bool := responds (trace machine inputs t) (inputs t) side

def requestAt (inputs : Nat → Input) (side : Side) (t : Nat) : TlbPtwReq := request (trace machine inputs t) (inputs t) side

def tlbAt (inputs : Nat → Input) (side : Side) (t : Nat) : Tlb.State := tlb (trace machine inputs t) side

-- The request of cycle a is the last one that was accepted, and has no response before cycle t.
structure Pending (inputs : Nat → Input) (side : Side) (a t : Nat) : Prop where
  before : a < t
  accepted : acceptsAt inputs side a = true
  alone : ∀ w, a < w → w < t → acceptsAt inputs side w = false
  open' : ∀ w, a < w → w < t → respondsAt inputs side w = false
  owns : Owns (trace machine inputs t) (requestAt inputs side a) side
  -- An invalidation since then is not forgotten.
  fresh : (tlbAt inputs side t).fsm = .waitResponse → ∀ w, a ≤ w → w < t → (inputs w).flush = false

theorem waits_accepts {side : Side} (waiting : waits (tlb s side) = true) : accepts s i side = false := by
  rw [accepts_ask,waits_quiet waiting,Bool.false_and]

theorem flush_port (side : Side) : (tlbInput s i side).ptw.invalidateTlb = i.flush := by
  cases side <;> rfl

theorem accepted_fresh {side : Side} (accepted : accepts s i side = true) (clean : (tlb (next s i) side).fsm = .waitResponse) : i.flush = false := by
  rw [accepts_eq,Bool.and_eq_true,decide_eq_true_eq] at accepted
  rw [tlb_next] at clean
  change Tlb.nextFsm _ _ = _ at clean
  simp only [Tlb.nextFsm,accepted,flush_port] at clean
  cases flush : i.flush
  · rfl
  · simp [flush] at clean

theorem waiting_fresh {side : Side} (waiting : waits (tlb s side) = true) (clean : (tlb (next s i) side).fsm = .waitResponse) :
    (tlb s side).fsm = .waitResponse ∧ i.flush = false := by
  rw [tlb_next] at clean
  change Tlb.nextFsm _ _ = _ at clean
  unfold waits at waiting
  cases fsm : (tlb s side).fsm with
  | idle => simp [fsm] at waiting
  | sendRequest => simp [fsm] at waiting
  | waitResponse =>
    refine ⟨rfl,?_⟩
    simp only [Tlb.nextFsm,fsm,flush_port] at clean
    split at clean
    · cases clean
    · split at clean
      · cases clean
      · rename_i quiet
        rwa [Bool.not_eq_true] at quiet
  | invalidatedWaitResponse =>
    simp only [Tlb.nextFsm,fsm] at clean
    split at clean <;> cases clean

theorem waits_pending {side : Side} {t : Nat} (waiting : waits (tlbAt inputs side t) = true) : ∃ a, Pending inputs side a t := by
  induction t with
  | zero =>
    change waits (tlb reset side) = true at waiting
    cases side <;> cases waiting
  | succ t ih =>
    have c := trace_coupled inputs t
    cases accepted : acceptsAt inputs side t with
    | true =>
      refine ⟨t,Nat.lt_succ_self t,accepted,?_,?_,accepts_owns c accepted,?_⟩
      · intro w after before
        omega
      · intro w after before
        omega
      · intro clean w from' before
        obtain rfl : w = t := by omega
        exact accepted_fresh accepted clean
    | false =>
      have still : waits (tlbAt inputs side t) = true ∧ respondsAt inputs side t = false := by
        have now : waits (tlb (next (trace machine inputs t) (inputs t)) side) = true := waiting
        rw [side_waits_next] at now
        change (acceptsAt inputs side t || waits (tlbAt inputs side t) && !respondsAt inputs side t) = true at now
        simpa [accepted] using now
      obtain ⟨a,before,taken,alone,silent,owns,fresh⟩ := ih still.1
      refine ⟨a,by omega,taken,?_,?_,waits_owns c still.1 still.2 owns,?_⟩
      · intro w after within
        rcases Nat.lt_succ_iff_lt_or_eq.mp within with earlier | rfl
        · exact alone w after earlier
        · exact accepted
      · intro w after within
        rcases Nat.lt_succ_iff_lt_or_eq.mp within with earlier | rfl
        · exact silent w after earlier
        · exact still.2
      · intro clean w from' within
        obtain ⟨same,flush⟩ := waiting_fresh still.1 clean
        rcases Nat.lt_succ_iff_lt_or_eq.mp within with earlier | rfl
        · exact fresh same w from' earlier
        · exact flush

-- The response of cycle u is the one to the request that was accepted in cycle a.
structure Answers (inputs : Nat → Input) (side : Side) (a u : Nat) : Prop where
  accepted : acceptsAt inputs side a = true
  later : a < u
  answer : respondsAt inputs side u = true
  alone : ∀ w, a < w → w < u → acceptsAt inputs side w = false

theorem responds_waits {side : Side} (c : Coupled s) (answer : responds s i side = true) : waits (tlb s side) = true := by
  rw [responds_eq,Bool.and_eq_true,decide_eq_true_eq] at answer
  cases side with
  | itlb =>
    change waits s.itlb = true
    rw [c.itlb,answer.1]
    rfl
  | dtlb =>
    change waits s.dtlb = true
    rw [c.dtlb,answer.1]
    rfl

theorem responds_owner {side : Side} (answer : responds s i side = true) {r : TlbPtwReq} (owns : Owns s r side) : s.ptw.rReq = r := by
  rw [responds_eq,Bool.and_eq_true,decide_eq_true_eq] at answer
  cases side with
  | itlb =>
    refine owns.2 answer.1 ?_
    intro ready
    rw [ready_silent ready] at answer
    cases answer.2
  | dtlb => exact owns

theorem responds_other {side : Side} (answer : responds s i side = true) : responds s i side.other = false := by
  rw [responds_eq,Bool.and_eq_true,decide_eq_true_eq] at answer
  rw [responds_eq,answer.1]
  cases side <;> rfl

theorem response_pending {side : Side} {u : Nat} (answer : respondsAt inputs side u = true) : ∃ a, Pending inputs side a u :=
  waits_pending (responds_waits (trace_coupled inputs u) answer)

theorem Pending.answers {side : Side} {a u : Nat} (pending : Pending inputs side a u) (answer : respondsAt inputs side u = true) :
    Answers inputs side a u := ⟨pending.accepted,pending.before,answer,pending.alone⟩

theorem idle_until {side : Side} {t : Nat} (free : waits (tlbAt inputs side t) = false) {d : Nat}
    (quiet : ∀ w, t ≤ w → w < t + d → acceptsAt inputs side w = false) : waits (tlbAt inputs side (t + d)) = false := by
  induction d with
  | zero => exact free
  | succ d ih =>
    have still := ih fun w from' before => quiet w from' (by omega)
    change waits (tlb (next (trace machine inputs (t + d)) (inputs (t + d))) side) = false
    rw [side_waits_next]
    change (acceptsAt inputs side (t + d) || waits (tlbAt inputs side (t + d)) && _) = false
    rw [still,quiet (t + d) (by omega) (by omega)]
    rfl

theorem answered_free {side : Side} {u : Nat} (answer : respondsAt inputs side u = true) : waits (tlbAt inputs side (u + 1)) = false := by
  have waiting := responds_waits (trace_coupled inputs u) answer
  change waits (tlb (next (trace machine inputs u) (inputs u)) side) = false
  rw [side_waits_next,waits_accepts waiting,waiting]
  change (false || true && !respondsAt inputs side u) = false
  rw [answer]
  rfl

theorem answers_ordered {side : Side} {a u v : Nat} (one : Answers inputs side a u) (two : Answers inputs side a v) : v ≤ u := by
  by_contra before
  have free := answered_free one.answer
  have still : waits (tlbAt inputs side (u + 1 + (v - (u + 1)))) = false := by
    apply idle_until free
    intro w from' within
    have first := one.later
    exact two.alone w (by omega) (by omega)
  have same : u + 1 + (v - (u + 1)) = v := by omega
  rw [same] at still
  have waiting : waits (tlbAt inputs side v) = true := responds_waits (trace_coupled inputs v) two.answer
  rw [still] at waiting
  cases waiting

-- The memory takes every read and answers it, without nacks, as bsc_mmu_hpdc_adapter does.
structure Fair (inputs : Nat → Input) : Prop where
  ready : ∀ t, (trace machine inputs t).ptw.fsm = .req → ∃ u, t ≤ u ∧ (inputs u).dmemReady = true
  answer : ∀ t, (trace machine inputs t).ptw.fsm = .wait → ∃ u, t ≤ u ∧ (inputs u).respValid = true
  nack : ∀ t, (inputs t).respNack = false

theorem count_next (small : s.ptw.count ≤ 2) : (next s i).ptw.count ≤ 2 := by
  change Ptw.nextCount s.ptw (ptwInput s i) ≤ 2
  unfold Ptw.nextCount
  split
  · omega
  · split
    · rename_i skip
      simp only [Ptw.skips,Bool.and_eq_true,decide_eq_true_eq] at skip
      omega
    · exact small
  · split
    · exact small
    · split
      · rename_i down
        simp only [Bool.and_eq_true,decide_eq_true_eq] at down
        omega
      · exact small
  · exact small

theorem trace_count (inputs : Nat → Input) (u : Nat) : (trace machine inputs u).ptw.count ≤ 2 := by
  induction u with
  | zero => exact Nat.zero_le 2
  | succ u ih => exact count_next ih

theorem req_stays (asks : s.ptw.fsm = .req) (quiet : ¬ (Ptw.skips s.ptw = true ∨ i.dmemReady = true)) :
    (next s i).ptw.fsm = .req ∧ (next s i).ptw.count = s.ptw.count := by
  obtain ⟨cold,closed⟩ := not_or.mp quiet
  change Ptw.nextFsm s.ptw (ptwInput s i) = .req ∧ Ptw.nextCount s.ptw (ptwInput s i) = s.ptw.count
  simp only [Ptw.nextFsm,Ptw.nextCount,asks]
  rw [if_neg cold,if_neg cold]
  exact ⟨if_neg closed,rfl⟩

theorem req_goes (asks : s.ptw.fsm = .req) (moves : Ptw.skips s.ptw = true ∨ i.dmemReady = true) :
    ((next s i).ptw.fsm = .req ∧ (next s i).ptw.count = s.ptw.count + 1) ∨
      ((next s i).ptw.fsm = .wait ∧ (next s i).ptw.count = s.ptw.count) := by
  change (Ptw.nextFsm s.ptw (ptwInput s i) = .req ∧ Ptw.nextCount s.ptw (ptwInput s i) = s.ptw.count + 1) ∨
    (Ptw.nextFsm s.ptw (ptwInput s i) = .wait ∧ Ptw.nextCount s.ptw (ptwInput s i) = s.ptw.count)
  simp only [Ptw.nextFsm,Ptw.nextCount,asks]
  by_cases skip : Ptw.skips s.ptw = true
  · rw [if_pos skip,if_pos skip]
    exact .inl ⟨rfl,rfl⟩
  · rw [if_neg skip,if_neg skip]
    exact .inr ⟨if_pos (moves.resolve_left skip),rfl⟩

theorem wait_stays (waits : s.ptw.fsm = .wait) (nack : i.respNack = false) (quiet : ¬ i.respValid = true) :
    (next s i).ptw.fsm = .wait ∧ (next s i).ptw.count = s.ptw.count := by
  change Ptw.nextFsm s.ptw (ptwInput s i) = .wait ∧ Ptw.nextCount s.ptw (ptwInput s i) = s.ptw.count
  have silent : (ptwInput s i).respValid = false := (Bool.not_eq_true _).mp quiet
  have kind : (ptwInput s i).respNack = false := nack
  simp only [Ptw.nextFsm,Ptw.nextCount,waits,silent,kind]
  exact ⟨rfl,rfl⟩

theorem wait_goes (waits : s.ptw.fsm = .wait) (nack : i.respNack = false) (came : i.respValid = true) :
    (Ptw.resp (next s i).ptw).valid = true ∨ ((next s i).ptw.fsm = .req ∧ (next s i).ptw.count = s.ptw.count + 1) := by
  have kind : (ptwInput s i).respNack = false := nack
  have here : (ptwInput s i).respValid = true := came
  change (decide (Ptw.nextFsm s.ptw (ptwInput s i) = .done) || decide (Ptw.nextFsm s.ptw (ptwInput s i) = .error)) = true ∨
    (Ptw.nextFsm s.ptw (ptwInput s i) = .req ∧ Ptw.nextCount s.ptw (ptwInput s i) = s.ptw.count + 1)
  simp only [Ptw.nextFsm,Ptw.nextCount,waits,kind,here]
  cases Ptw.invalidPte (ptwInput s i).respData s.ptw.count <;> cases Ptw.isPteTable (Ptw.pteOf (ptwInput s i).respData s.ptw.count) <;>
    cases decide (s.ptw.count < 2) <;> cases Ptw.isPteLeaf (Ptw.pteOf (ptwInput s i).respData s.ptw.count) <;> simp

-- The induction is on the levels below that of the walk.
theorem walk_ends (fair : Fair inputs) (left : Nat) : ∀ t, 2 - (trace machine inputs t).ptw.count = left →
    (trace machine inputs t).ptw.fsm = .req ∨ (trace machine inputs t).ptw.fsm = .wait →
    ∃ u, t ≤ u ∧ (Ptw.resp (trace machine inputs u).ptw).valid = true := by
  induction left using Nat.strongRecOn with
  | ind left ih =>
    -- One level down
    have lower : ∀ t u, 2 - (trace machine inputs t).ptw.count = left → t ≤ u → (trace machine inputs u).ptw.fsm = .req →
        (trace machine inputs u).ptw.count = (trace machine inputs t).ptw.count + 1 →
        ∃ v, t ≤ v ∧ (Ptw.resp (trace machine inputs v).ptw).valid = true := by
      intro t u level later asks deeper
      have small := trace_count inputs u
      obtain ⟨v,after,ends⟩ := ih (2 - (trace machine inputs u).ptw.count) (by omega) u rfl (.inl asks)
      exact ⟨v,by omega,ends⟩
    have waiting : ∀ t, 2 - (trace machine inputs t).ptw.count = left → (trace machine inputs t).ptw.fsm = .wait →
        ∃ u, t ≤ u ∧ (Ptw.resp (trace machine inputs u).ptw).valid = true := by
      intro t level waits
      obtain ⟨u,later,⟨still,same⟩,came⟩ := holds_until
        (fun u => (trace machine inputs u).ptw.fsm = .wait ∧ (trace machine inputs u).ptw.count = (trace machine inputs t).ptw.count)
        (fun u => (inputs u).respValid = true) ⟨waits,rfl⟩
        (fun u _ holds quiet => ⟨(wait_stays holds.1 (fair.nack u) quiet).1,(wait_stays holds.1 (fair.nack u) quiet).2.trans holds.2⟩)
        (fair.answer t waits)
      rcases wait_goes still (fair.nack u) came with ends | ⟨asks,deeper⟩
      · exact ⟨u + 1,by omega,ends⟩
      · exact lower t (u + 1) level (by omega) asks (deeper.trans (congrArg (· + 1) same))
    rintro t level (asks | waits)
    · have moves : ∃ u, t ≤ u ∧ (Ptw.skips (trace machine inputs u).ptw = true ∨ (inputs u).dmemReady = true) := by
        obtain ⟨u,later,open'⟩ := fair.ready t asks
        exact ⟨u,later,.inr open'⟩
      obtain ⟨u,later,⟨still,same⟩,goes⟩ := holds_until
        (fun u => (trace machine inputs u).ptw.fsm = .req ∧ (trace machine inputs u).ptw.count = (trace machine inputs t).ptw.count)
        (fun u => Ptw.skips (trace machine inputs u).ptw = true ∨ (inputs u).dmemReady = true) ⟨asks,rfl⟩
        (fun u _ holds quiet => ⟨(req_stays holds.1 quiet).1,(req_stays holds.1 quiet).2.trans holds.2⟩) moves
      rcases req_goes still goes with ⟨again,deeper⟩ | ⟨waits,level'⟩
      · exact lower t (u + 1) level (by omega) again (deeper.trans (congrArg (· + 1) same))
      · have here : (trace machine inputs (u + 1)).ptw.count = (trace machine inputs t).ptw.count := level'.trans same
        obtain ⟨v,after,ends⟩ := waiting (u + 1) (by omega) waits
        exact ⟨v,by omega,ends⟩
    · exact waiting t level waits

theorem walker_ends (fair : Fair inputs) {t : Nat} (busy : (trace machine inputs t).ptw.fsm ≠ .ready) :
    ∃ u, t ≤ u ∧ (Ptw.resp (trace machine inputs u).ptw).valid = true := by
  cases fsm : (trace machine inputs t).ptw.fsm with
  | ready => exact absurd fsm busy
  | req => exact walk_ends fair _ t rfl (.inl fsm)
  | wait => exact walk_ends fair _ t rfl (.inr fsm)
  | done => exact ⟨t,Nat.le_refl t,by simp [Ptw.resp,fsm]⟩
  | error => exact ⟨t,Nat.le_refl t,by simp [Ptw.resp,fsm]⟩

theorem arb_next (inputs : Nat → Input) (u : Nat) : (trace machine inputs (u + 1)).arb =
    PtwArb.next (trace machine inputs u).arb (arbInput (trace machine inputs u) (inputs u)) := rfl

-- The arbiter serves a TLB until the walker has its response.
theorem serving_stays (side : Side) {u : Nat} (serves : (trace machine inputs u).arb.fsm = serving side)
    (silent : ¬ (Ptw.resp (trace machine inputs u).ptw).valid = true) : (trace machine inputs (u + 1)).arb.fsm = serving side := by
  have quiet : (arbInput (trace machine inputs u) (inputs u)).ptw.resp.valid = false := (Bool.not_eq_true _).mp silent
  rw [arb_next]
  change PtwArb.nextFsm _ _ = _
  cases side <;> simp only [serving] at serves <;> simp only [PtwArb.nextFsm,serves,quiet] <;> rfl

theorem serving_responds (fair : Fair inputs) (side : Side) {t : Nat} (serves : (trace machine inputs t).arb.fsm = serving side)
    (busy : (trace machine inputs t).ptw.fsm ≠ .ready) : ∃ u, t ≤ u ∧ respondsAt inputs side u = true := by
  obtain ⟨u,later,still,ends⟩ := holds_until (fun u => (trace machine inputs u).arb.fsm = serving side)
    (fun u => (Ptw.resp (trace machine inputs u).ptw).valid = true) serves (fun u _ holds silent => serving_stays side holds silent) (walker_ends fair busy)
  refine ⟨u,later,?_⟩
  rw [respondsAt,responds_eq,decide_eq_true still,ends]
  rfl

theorem itlb_serving (fair : Fair inputs) {t : Nat} (serves : (trace machine inputs t).arb.fsm = .servingITlb) :
    ∃ u, t ≤ u ∧ respondsAt inputs .itlb u = true := by
  by_cases ready : (trace machine inputs t).ptw.fsm = .ready
  · -- The walker takes the request that was kept.
    have c := trace_coupled inputs t
    have keeps := c.fresh serves ready
    have still := serving_stays .itlb serves (by rw [ready_silent ready]; decide)
    have busy : (trace machine inputs (t + 1)).ptw.fsm ≠ .ready := by
      have later := (signals (trace machine inputs t) (inputs t)).busy
      have sends : PtwArb.tlbPtwReq (trace machine inputs t).arb (arbInput (trace machine inputs t) (inputs t)) =
          (trace machine inputs t).arb.itlbReqWaiting := by simp [PtwArb.tlbPtwReq,serves,keeps]
      rw [sends,c.saved keeps,decide_eq_true ready] at later
      exact of_decide_eq_true later
    obtain ⟨u,later,answer⟩ := serving_responds fair .itlb still busy
    exact ⟨u,by omega,answer⟩
  · exact serving_responds fair .itlb serves ready

theorem itlb_kept (fair : Fair inputs) {t : Nat} (idle : (trace machine inputs t).arb.fsm = .idle)
    (keeps : (trace machine inputs t).arb.isReqWaiting = true) : ∃ u, t ≤ u ∧ respondsAt inputs .itlb u = true := by
  have c := trace_coupled inputs t
  have waiting : waits (tlb (trace machine inputs t) .itlb) = true := by
    change waits (trace machine inputs t).itlb = true
    rw [c.itlb,keeps,Bool.or_true]
  have quiet : (arbInput (trace machine inputs t) (inputs t)).itlb.valid = false := waits_quiet waiting
  have next : (trace machine inputs (t + 1)).arb.fsm = .servingITlb := by
    rw [arb_next]
    change PtwArb.nextFsm _ _ = _
    simp [PtwArb.nextFsm,PtwArb.bothAsk,idle,quiet,keeps]
  obtain ⟨u,later,answer⟩ := itlb_serving fair next
  exact ⟨u,by omega,answer⟩

theorem waits_answered (fair : Fair inputs) {side : Side} {t : Nat} (waiting : waits (tlbAt inputs side t) = true) :
    ∃ u, t ≤ u ∧ respondsAt inputs side u = true := by
  have c := trace_coupled inputs t
  cases side with
  | dtlb =>
    have serves : (trace machine inputs t).arb.fsm = .servingDTlb := by
      have data : waits (trace machine inputs t).dtlb = true := waiting
      rw [c.dtlb] at data
      exact of_decide_eq_true data
    exact serving_responds fair .dtlb serves (c.data serves)
  | itlb =>
    have known : waits (trace machine inputs t).itlb = true := waiting
    rw [c.itlb] at known
    cases fsm : (trace machine inputs t).arb.fsm with
    | idle => exact itlb_kept fair fsm (by simpa [fsm] using known)
    | servingITlb => exact itlb_serving fair fsm
    | servingDTlb =>
      -- The data TLB is served first.
      have keeps : (trace machine inputs t).arb.isReqWaiting = true := by simpa [fsm] using known
      obtain ⟨u,later,⟨still,kept⟩,ends⟩ := holds_until
        (fun u => (trace machine inputs u).arb.fsm = .servingDTlb ∧ (trace machine inputs u).arb.isReqWaiting = true)
        (fun u => (Ptw.resp (trace machine inputs u).ptw).valid = true) ⟨fsm,keeps⟩
        (fun u _ holds silent => ⟨serving_stays .dtlb holds.1 silent,by
          rw [arb_next]
          change PtwArb.nextWaiting _ _ = _
          simp [PtwArb.nextWaiting,holds.1,holds.2]⟩) (walker_ends fair (c.data fsm))
      have answer : (arbInput (trace machine inputs u) (inputs u)).ptw.resp.valid = true := ends
      have idle : (trace machine inputs (u + 1)).arb.fsm = .idle := by
        rw [arb_next]
        change PtwArb.nextFsm _ _ = _
        simp [PtwArb.nextFsm,still,answer]
      have waits' : (trace machine inputs (u + 1)).arb.isReqWaiting = true := by
        rw [arb_next]
        change PtwArb.nextWaiting _ _ = _
        simp [PtwArb.nextWaiting,still,kept]
      obtain ⟨v,after,responds⟩ := itlb_kept fair idle waits'
      exact ⟨v,by omega,responds⟩

theorem accepted_waits {side : Side} {a : Nat} (accepted : acceptsAt inputs side a = true) : waits (tlbAt inputs side (a + 1)) = true := by
  change waits (tlb (next (trace machine inputs a) (inputs a)) side) = true
  rw [side_waits_next]
  change (acceptsAt inputs side a || _) = true
  rw [accepted]
  rfl

theorem accepted_answered (fair : Fair inputs) {side : Side} {a : Nat} (accepted : acceptsAt inputs side a = true) :
    ∃ u, Answers inputs side a u := by
  obtain ⟨u,later,⟨_,alone⟩,answer⟩ := holds_until
    (fun u => waits (tlbAt inputs side u) = true ∧ ∀ w, a < w → w < u → acceptsAt inputs side w = false)
    (fun u => respondsAt inputs side u = true) ⟨accepted_waits accepted,fun w after before => by omega⟩
    (fun u _ holds silent => by
      have quiet : acceptsAt inputs side u = false := waits_accepts holds.1
      have none : respondsAt inputs side u = false := (Bool.not_eq_true _).mp silent
      refine ⟨?_,?_⟩
      · change waits (tlb (next (trace machine inputs u) (inputs u)) side) = true
        rw [side_waits_next]
        change (acceptsAt inputs side u || waits (tlbAt inputs side u) && !respondsAt inputs side u) = true
        rw [quiet,none,holds.1]
        rfl
      · intro w after before
        rcases Nat.lt_succ_iff_lt_or_eq.mp before with earlier | rfl
        · exact holds.2 w after earlier
        · exact quiet) (waits_answered fair (accepted_waits accepted))
  exact ⟨u,accepted,by omega,answer,alone⟩

-- The response of the walker is for the request that the TLB sent.
theorem response_request {side : Side} {u : Nat} (answer : respondsAt inputs side u = true) :
    ∃ a, Answers inputs side a u ∧ (trace machine inputs u).ptw.rReq = requestAt inputs side a ∧
      (tlbInput (trace machine inputs u) (inputs u) side).ptw.resp = Ptw.resp (trace machine inputs u).ptw := by
  obtain ⟨a,pending⟩ := response_pending answer
  refine ⟨a,pending.answers answer,responds_owner answer pending.owns,?_⟩
  have serves : (trace machine inputs u).arb.fsm = serving side := by
    rw [respondsAt,responds_eq,Bool.and_eq_true,decide_eq_true_eq] at answer
    exact answer.1
  cases side <;> exact if_pos serves

def installs (inputs : Nat → Input) (side : Side) (u : Nat) (j : Fin 8) : Prop :=
  (tlbAt inputs side (u + 1)).entries j ≠ .zero ∧ (tlbAt inputs side (u + 1)).entries j ≠ (tlbAt inputs side u).entries j

theorem install_fresh {side : Side} {u : Nat} {j : Fin 8} (new : installs inputs side u j) :
    ∃ a, Answers inputs side a u ∧ ∀ w, a ≤ w → w ≤ u → (inputs w).flush = false := by
  have write : ¬ (((tlbInput (trace machine inputs u) (inputs u) side).ptw.invalidateTlb ||
      Tlb.cleanTlb (tlbAt inputs side u) (tlbInput (trace machine inputs u) (inputs u) side)) = true ∨
      Tlb.writeTlb (tlbAt inputs side u) (tlbInput (trace machine inputs u) (inputs u) side) = false) := by
    intro shrinks
    have cells := Tlb.entries_shrink shrinks j
    unfold tlbAt at cells
    rw [← tlb_next] at cells
    exact cells.elim new.1 new.2
  obtain ⟨used,writes⟩ := not_or.mp write
  have quiet : (inputs u).flush = false := by
    rw [flush_port] at used
    cases flush : (inputs u).flush
    · rfl
    · simp [flush] at used
  have hit : (tlbAt inputs side u).fsm = .waitResponse ∧ respondsAt inputs side u = true := by
    simpa [Tlb.writeTlb,respondsAt,responds] using writes
  obtain ⟨a,pending⟩ := response_pending hit.2
  refine ⟨a,pending.answers hit.2,?_⟩
  intro w from' upto
  rcases Nat.lt_or_eq_of_le upto with earlier | rfl
  · exact pending.fresh hit.1 w from' earlier
  · exact quiet

theorem walks_served (inputs : Nat → Input) :
    (Fair inputs → ∀ side a, acceptsAt inputs side a = true → ∃ u, Answers inputs side a u ∧ ∀ v, Answers inputs side a v → v = u) ∧
    (∀ side u, respondsAt inputs side u = true → respondsAt inputs side.other u = false ∧
      ∃ a, Answers inputs side a u ∧ (trace machine inputs u).ptw.rReq = requestAt inputs side a ∧
        (tlbInput (trace machine inputs u) (inputs u) side).ptw.resp = Ptw.resp (trace machine inputs u).ptw) ∧
    ∀ side u j, installs inputs side u j → ∃ a, Answers inputs side a u ∧ ∀ w, a ≤ w → w ≤ u → (inputs w).flush = false := by
  refine ⟨?_,?_,fun side u j new => install_fresh new⟩
  · intro fair side a accepted
    obtain ⟨u,answers⟩ := accepted_answered fair accepted
    exact ⟨u,answers,fun v other => Nat.le_antisymm (answers_ordered answers other) (answers_ordered other answers)⟩
  · intro side u answer
    exact ⟨responds_other answer,response_request answer⟩

-- Both TLBs miss in cycle 0 and ask in cycle 1, the instruction TLB for page 5 and the data TLB for
-- page 7; every read gives the same leaf.
def bothMiss (_ : Nat) : Input where
  icache := ⟨⟨true,0,5,false,true,false⟩,1,true⟩
  core := ⟨⟨true,0,7,false,false,false⟩,1,true⟩
  dmemReady := true
  respValid := true
  respNack := false
  respData := 0xcf
  satp := 1
  flush := false
  sum := false
  mxr := false

theorem bothMiss_fair : Fair bothMiss := ⟨fun t _ => ⟨t,Nat.le_refl t,rfl⟩,fun t _ => ⟨t,Nat.le_refl t,rfl⟩,fun _ => rfl⟩

theorem walks_served_both : acceptsAt bothMiss .dtlb 1 = true ∧ respondsAt bothMiss .dtlb 4 = true ∧
    (requestAt bothMiss .itlb 1).vpn = 5 ∧ (trace machine bothMiss 9).ptw.rReq.vpn = 5 ∧ respondsAt bothMiss .itlb 9 = true ∧
    respondsAt bothMiss .dtlb 9 = false ∧ ∃ u, Answers bothMiss .itlb 1 u ∧ ∀ v, Answers bothMiss .itlb 1 v → v = u := by
  have answer : respondsAt bothMiss .itlb 9 = true := by decide
  obtain ⟨served,own,_⟩ := walks_served bothMiss
  refine ⟨by decide,by decide,by decide,by decide,answer,(own .itlb 9 answer).1,?_⟩
  exact served bothMiss_fair .itlb 1 (by decide)

end Sargantana.WalkService
