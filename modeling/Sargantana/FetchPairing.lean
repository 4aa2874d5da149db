import Sargantana.FetchStages
import Sargantana.Lib.StateMachine
import Mathlib.Data.Nat.Find

-- Each word that reaches decode belongs to its program counter, over every run against the instruction cache.
namespace Sargantana.FetchPairing

open FetchStages StateMachine

-- `outstanding` says that an accepted request is neither answered nor killed.
structure World where
  fetch : State
  outstanding : Bool
  deriving DecidableEq

def after (w : World) (i : Input) : World where
  fetch := next w.fetch i
  outstanding :=
    if icacheReqKill w.fetch then false
    else if doIcacheRequest w.fetch i then true
    else if (respIcacheFetch w.fetch i).valid then false
    else w.outstanding

structure Contract (w : World) (i : Input) : Prop where
  -- the cache works on one request: it is ready when that is answered
  ready : i.icacheReqReady = true → w.outstanding = true → (respIcacheFetch w.fetch i).valid = true
  answer : (respIcacheFetch w.fetch i).valid = true → w.outstanding = true
  -- fence.i and sfence.vma are decoded with stall_csr_fence
  fence : i.commitValid = true → i.commitFenceI = true → i.commitStallCsrFence = true

def machine : Machine World Input where
  initial := ⟨reset,false⟩
  allowed := Contract
  step := after

-- The word at an address in the block of a response
def wordAt (i : Input) (pc : BitVec 64) : BitVec 32 :=
  if i.tlbRespXcpIf then 0 else i.icacheRespDatablock.extractLsb' (32 * (pc.extractLsb' 2 2).toNat) 32

theorem respIcacheFetch_word {s : State} {i : Input} {pc : BitVec 64} (last : s.oldPcReq = pc.setWidth 40) :
    (respIcacheFetch s i).data = wordAt i pc := by
  have chunk : s.oldPcReq.extractLsb' 2 2 = pc.extractLsb' 2 2 := by
    rw [last]
    apply BitVec.eq_of_getLsbD_eq
    intro k small
    simp only [BitVec.getLsbD_extractLsb',BitVec.getLsbD_setWidth]
    have inside : 2 + k < 40 := by omega
    simp [inside]
  unfold respIcacheFetch wordAt
  simp only [chunk]
  split
  · rfl
  · generalize pc.extractLsb' 2 2 = offset
    match offset with
    | 0 | 1 | 2 | 3 => rfl

theorem stallIf2_parts {s : State} {i : Input} : stallIf2 s i = false ↔ i.stallBack = false ∧ (s.if2.valid = true → answered s i = true) := by
  simp only [stallIf2,missIcache,Bool.or_eq_false_iff,Bool.and_eq_false_iff,Bool.not_eq_false']
  cases s.if2.valid <;> simp

theorem stalled_asks_nothing {s : State} {i : Input} (stall : stallIf2 s i = true) :
    doIcacheRequest s i = false ∧ (fetch1 s i).valid = false := by
  simp [doIcacheRequest,reqValid,fetch1,stallIf1,stall]

theorem fetch1_parts {s : State} {i : Input} (valid : (fetch1 s i).valid = true) :
    i.parked = false ∧ stallIf1 s i = false ∧ i.icacheReqReady = true ∧ (i.commitValid && i.commitStallCsrFence) = false := by
  simp only [fetch1,Bool.and_eq_true,Bool.not_eq_true'] at valid
  obtain ⟨awake,free⟩ := valid
  refine ⟨awake,free,?_,?_⟩
  · simp only [stallIf1,Bool.or_eq_false_iff,Bool.not_eq_false'] at free
    exact free.1.2
  · simp only [stallIf1,Bool.or_eq_false_iff] at free
    exact free.1.1.2

theorem fetch1_asks {s : State} {i : Input} (valid : (fetch1 s i).valid = true) (kept : flushIf s i = false)
    (fence : i.commitValid = true → i.commitFenceI = true → i.commitStallCsrFence = true) (fine : (fetch1 s i).ex.valid = false) :
    doIcacheRequest s i = true ∨ (next s i).exceptionEnable = true := by
  obtain ⟨awake,free,ready,unfenced⟩ := fetch1_parts valid
  have asks : reqValid s i = true := by
    have aligned : exAddrMisaligned i = false ∧ i.addrFault = false := by
      simp only [fetch1] at fine
      split at fine
      · cases fine
      next aligned =>
        split at fine
        · cases fine
        next sound => exact ⟨by simpa using aligned,by simpa using sound⟩
    simp [reqValid,aligned,awake,free]
  simp only [flushIf,Bool.or_eq_false_iff] at kept
  cases buffer : invalidateBuffer s i with
  | false => exact .inl (by simp [doIcacheRequest,asks,buffer,ready,retryFetch,kept])
  | true =>
    right
    simp only [invalidateBuffer,kept,Bool.or_false,Bool.and_eq_true,Bool.or_eq_true] at buffer
    obtain ⟨valid,(named | halts) | ⟨stalls,_⟩⟩ := buffer
    · simp [valid,fence valid named] at unfenced
    · simp [next,ControlUnit.exceptionEnableNext,kept,halts]
    · simp [valid,stalls] at unfenced

theorem faulty_asks_nothing {s : State} {i : Input} (faulty : (fetch1 s i).ex.valid = true) : doIcacheRequest s i = false := by
  simp only [fetch1] at faulty
  split at faulty
  next misaligned => simp [doIcacheRequest,reqValid,misaligned]
  · split at faulty
    next fault => simp [doIcacheRequest,reqValid,fault]
    · cases faulty

section run

variable (inputs : Nat → Input)

def world (t : Nat) : World := trace machine inputs t

def stage (t : Nat) : State := (world inputs t).fetch

def Fetched (t : Nat) : Prop :=
  (fetch1 (stage inputs t) (inputs t)).valid = true ∧ stallIf2 (stage inputs t) (inputs t) = false ∧ flushIf (stage inputs t) (inputs t) = false

def Handed (t : Nat) : Prop :=
  (fetch2 (stage inputs t) (inputs t)).valid = true ∧ (inputs t).stallBack = false ∧ flushIf (stage inputs t) (inputs t) = false

def Requested (t : Nat) : Prop := doIcacheRequest (stage inputs t) (inputs t) = true

def Responds (t : Nat) : Prop := (respIcacheFetch (stage inputs t) (inputs t)).valid = true

def Killed (t : Nat) : Prop := icacheReqKill (stage inputs t) = true

-- The cache answers the requests in order: the response of cycle r is that of the request of cycle s.
structure AnswerOf (s r : Nat) : Prop where
  requested : Requested inputs s
  later : s < r
  responds : Responds inputs r
  between : ∀ v, s < v → v < r → ¬ Responds inputs v ∧ ¬ Killed inputs v ∧ ¬ Requested inputs v

-- What was fetched in cycle s waits in if_stage_2 up to cycle u.
structure Carried (s u : Nat) : Prop where
  fetched : Fetched inputs s
  later : s < u
  between : ∀ v, s < v → v < u → ¬ Handed inputs v ∧ flushIf (stage inputs v) (inputs v) = false ∧ ¬ Fetched inputs v
  pending : ∀ v, s < v → v ≤ u → (stage inputs v).if2 = fetch1 (stage inputs s) (inputs s)

-- The instruction of cycle u is that of the program counter fetched in cycle s: a fault of its own, or the
-- word of the response to its request, which comes while it waits.
structure Paired (s u : Nat) : Prop where
  carried : Carried inputs s u
  counter : (fetch2 (stage inputs u) (inputs u)).pcInst = (inputs s).pc
  content :
    ((fetch1 (stage inputs s) (inputs s)).ex.valid = true ∧
      (fetch2 (stage inputs u) (inputs u)).ex = (fetch1 (stage inputs s) (inputs s)).ex) ∨
    ((fetch1 (stage inputs s) (inputs s)).ex.valid = false ∧ ∃ r, AnswerOf inputs s r ∧ r ≤ u ∧
      (fetch2 (stage inputs u) (inputs u)).inst = wordAt (inputs r) (inputs s).pc ∧
      (fetch2 (stage inputs u) (inputs u)).ex.valid = (inputs r).tlbRespXcpIf)

-- The cache answers what is not killed, and no stall lasts for ever.
structure Fair : Prop where
  answers : ∀ t, (world inputs t).outstanding = true → ∃ u, t ≤ u ∧ (Responds inputs u ∨ Killed inputs u)
  unstalls : ∀ t, ∃ u, t ≤ u ∧ (inputs u).stallBack = false

-- How the request of what waits stands
inductive Standing (s u : Nat) : Prop where
  | own (faulty : (fetch1 (stage inputs s) (inputs s)).ex.valid = true) (none' : (world inputs u).outstanding = false)
      (empty : (stage inputs u).saved.valid = false)
  | asked (fine : (fetch1 (stage inputs s) (inputs s)).ex.valid = false) (requested : Requested inputs s)
      (between : ∀ v, s < v → v < u → ¬ Responds inputs v ∧ ¬ Killed inputs v ∧ ¬ Requested inputs v)
      (waits : (world inputs u).outstanding = true) (last : (stage inputs u).oldPcReq = (inputs s).pc.setWidth 40)
      (empty : (stage inputs u).saved.valid = false)
  | answered (fine : (fetch1 (stage inputs s) (inputs s)).ex.valid = false) (r : Nat) (answer : AnswerOf inputs s r) (before : r < u)
      (none' : (world inputs u).outstanding = false) (valid : (stage inputs u).saved.valid = true)
      (data : (stage inputs u).saved.data = wordAt (inputs r) (inputs s).pc)
      (fault : (stage inputs u).saved.instrPageFault = (inputs r).tlbRespXcpIf)
  | dying (flush : (stage inputs u).exceptionEnable = true)

variable {inputs}

theorem handed_moves {u : Nat} (handed : Handed inputs u) : stallIf2 (stage inputs u) (inputs u) = false := by
  obtain ⟨valid,moves,_⟩ := handed
  simp only [fetch2,Bool.and_eq_true] at valid
  exact stallIf2_parts.mpr ⟨moves,fun _ => valid.2⟩

theorem carried_next {s u : Nat} (carried : Carried inputs s u) (stall : stallIf2 (stage inputs u) (inputs u) = true)
    (kept : flushIf (stage inputs u) (inputs u) = false) : Carried inputs s (u + 1) := by
  have last : (stage inputs (u + 1)).if2 = (stage inputs u).if2 := by
    change (next (stage inputs u) (inputs u)).if2 = _
    simp [next,kept,stall]
  refine ⟨carried.fetched,by have := carried.later; omega,?_,?_⟩
  · intro v after before
    rcases Nat.lt_succ_iff_lt_or_eq.mp before with earlier | rfl
    · exact carried.between v after earlier
    · refine ⟨?_,kept,?_⟩
      · intro handed
        simp [handed_moves handed] at stall
      · rintro ⟨_,free,_⟩
        simp [free] at stall
  · intro v after before
    rcases Nat.le_succ_iff.mp before with earlier | rfl
    · exact carried.pending v after earlier
    · exact last.trans (carried.pending u carried.later (Nat.le_refl u))

theorem carried_start {s : Nat} (fetched : Fetched inputs s) : Carried inputs s (s + 1) := by
  refine ⟨fetched,by omega,fun v after before => by omega,?_⟩
  intro v after before
  obtain rfl : v = s + 1 := by omega
  change (next (stage inputs s) (inputs s)).if2 = _
  simp [next,fetched.2.1,fetched.2.2]

section admitted

variable (admits : Admits machine inputs)
include admits

theorem standing_start {s : Nat} (fetched : Fetched inputs s) : Standing inputs s (s + 1) := by
  obtain ⟨valid,free,kept⟩ := fetched
  have contract : Contract (world inputs s) (inputs s) := admits s
  obtain ⟨_,_,ready,_⟩ := fetch1_parts valid
  have unkilled : icacheReqKill (stage inputs s) = false := by
    simp only [flushIf,Bool.or_eq_false_iff] at kept
    simp [icacheReqKill,retryFetch,kept]
  have outstanding : (world inputs (s + 1)).outstanding = doIcacheRequest (stage inputs s) (inputs s) := by
    change (after (world inputs s) (inputs s)).outstanding = _
    change icacheReqKill (world inputs s).fetch = false at unkilled
    change _ = doIcacheRequest (world inputs s).fetch (inputs s)
    simp only [after,unkilled]
    cases doIcacheRequest (world inputs s).fetch (inputs s) with
    | true => rfl
    | false =>
      cases responds : (respIcacheFetch (world inputs s).fetch (inputs s)).valid with
      | true => rfl
      | false =>
        have idle : (world inputs s).outstanding = false := by
          by_contra waits
          have answered := contract.ready ready (by simpa using waits)
          simp [responds] at answered
        simpa using idle
  have empty : (stage inputs (s + 1)).saved.valid = false := by
    change (savedNext (stage inputs s) (inputs s)).valid = false
    simp only [savedNext,kept,free,Bool.and_false,Bool.not_false,Bool.and_true,Bool.false_eq_true,if_false]
    split
    · rfl
    next empty => simpa using empty
  cases faulty : (fetch1 (stage inputs s) (inputs s)).ex.valid with
  | true => exact .own faulty (outstanding.trans (faulty_asks_nothing faulty)) empty
  | false =>
    rcases fetch1_asks valid kept contract.fence faulty with asks | dies
    · refine .asked faulty asks (fun v after before => by omega) (outstanding.trans asks) ?_ empty
      change (next (stage inputs s) (inputs s)).oldPcReq = _
      simp [next,asks,reqVaddr]
    · exact .dying dies

theorem unowed_silent {u : Nat} (none' : (world inputs u).outstanding = false) :
    (respIcacheFetch (stage inputs u) (inputs u)).valid = false := by
  by_contra responds
  have owed := (admits u).answer (Bool.not_eq_false _ ▸ responds)
  change (world inputs u).outstanding = true at owed
  simp [none'] at owed

-- Whatever waits asks for nothing more, and its answer is saved.
theorem standing_next {s u : Nat} (later : s < u)
    (stall : stallIf2 (stage inputs u) (inputs u) = true) (kept : flushIf (stage inputs u) (inputs u) = false)
    (standing : Standing inputs s u) : Standing inputs s (u + 1) := by
  have silent := (stalled_asks_nothing stall).1
  have enables := kept
  simp only [flushIf,Bool.or_eq_false_iff] at enables
  have unkilled : icacheReqKill (stage inputs u) = false := by simp [icacheReqKill,retryFetch,enables]
  have outstanding : (world inputs (u + 1)).outstanding =
      if (respIcacheFetch (stage inputs u) (inputs u)).valid then false else (world inputs u).outstanding := by
    change (after (world inputs u) (inputs u)).outstanding = _
    change icacheReqKill (world inputs u).fetch = false at unkilled
    change doIcacheRequest (world inputs u).fetch (inputs u) = false at silent
    simp only [after,unkilled,silent,Bool.false_eq_true,if_false]
    rfl
  have saved : (stage inputs (u + 1)).saved =
      if (respIcacheFetch (stage inputs u) (inputs u)).valid then respIcacheFetch (stage inputs u) (inputs u) else (stage inputs u).saved := by
    change savedNext (stage inputs u) (inputs u) = _
    simp [savedNext,kept,stall]
  have last : (stage inputs (u + 1)).oldPcReq = (stage inputs u).oldPcReq := by
    change (next (stage inputs u) (inputs u)).oldPcReq = _
    simp [next,silent]
  cases standing with
  | own faulty none' empty =>
      have quiet := unowed_silent admits none'
      exact .own faulty (by rw [outstanding,quiet]; exact none') (by rw [saved,quiet]; exact empty)
  | asked fine requested between waits old empty =>
      cases responds : (respIcacheFetch (stage inputs u) (inputs u)).valid with
      | true =>
        have answer : AnswerOf inputs s u := ⟨requested,later,responds,between⟩
        refine .answered fine u answer (by omega) (by rw [outstanding,responds]; rfl) ?_ ?_ ?_
        · rw [saved,if_pos responds]
          exact responds
        · rw [saved,if_pos responds]
          exact respIcacheFetch_word old
        · rw [saved,if_pos responds]
          rfl
      | false =>
        refine .asked fine requested ?_ (by rw [outstanding,responds]; exact waits) (last.trans old) (by rw [saved,responds]; exact empty)
        intro v after before
        rcases Nat.lt_succ_iff_lt_or_eq.mp before with earlier | rfl
        · exact between v after earlier
        · exact ⟨by simp [Responds,responds],by simp [Killed,unkilled],by simp [Requested,silent]⟩
  | answered fine r answer before none' valid data fault =>
      have quiet := unowed_silent admits none'
      have same : (stage inputs (u + 1)).saved = (stage inputs u).saved := by rw [saved,quiet]; rfl
      exact .answered fine r answer (by omega) (by rw [outstanding,quiet]; exact none') (by rw [same]; exact valid)
        (by rw [same]; exact data) (by rw [same]; exact fault)
  | dying flush => simp [flush] at enables

-- What waits in if_stage_2 was fetched, and its request stands as it should.
theorem waiting_stands {u : Nat} (waits : (stage inputs u).if2.valid = true) : ∃ s, Carried inputs s u ∧ Standing inputs s u := by
  induction u with
  | zero => cases waits
  | succ u ih =>
    have moved : (stage inputs (u + 1)).if2 = (next (stage inputs u) (inputs u)).if2 := rfl
    rw [moved] at waits
    cases kept : flushIf (stage inputs u) (inputs u) with
    | true => simp [next,kept,If1If2Stage.none] at waits
    | false =>
      cases stall : stallIf2 (stage inputs u) (inputs u) with
      | true =>
        obtain ⟨s,carried,standing⟩ := ih (by simpa [next,kept,stall] using waits)
        exact ⟨s,carried_next carried stall kept,standing_next admits carried.later stall kept standing⟩
      | false =>
        have fetched : Fetched inputs u := ⟨by simpa [next,kept,stall] using waits,stall,kept⟩
        exact ⟨u,carried_start fetched,standing_start admits fetched⟩

theorem handed_paired {u : Nat} (handed : Handed inputs u) : ∃ s, Paired inputs s u := by
  obtain ⟨valid,moves,kept⟩ := handed
  have parts := valid
  simp only [fetch2,Bool.and_eq_true] at parts
  obtain ⟨s,carried,standing⟩ := waiting_stands admits parts.1
  have here := carried.pending u carried.later (Nat.le_refl u)
  refine ⟨s,carried,by simp [fetch2,here,fetch1],?_⟩
  cases standing with
  | own faulty _ _ =>
      left
      refine ⟨faulty,?_⟩
      simp only [fetch2,here,faulty,if_true]
      rw [← faulty]
  | asked fine requested between waits last empty =>
      have responds : (respIcacheFetch (stage inputs u) (inputs u)).valid = true := by
        simpa [answered,here,fine,empty] using parts.2
      refine .inr ⟨fine,u,⟨requested,carried.later,responds,between⟩,Nat.le_refl u,?_,?_⟩
      · simp only [fetch2,empty,Bool.false_eq_true,if_false]
        exact respIcacheFetch_word last
      · cases fault : (inputs u).tlbRespXcpIf <;>
          simp [fetch2,here,fine,exIfPageFault,empty,respIcacheFetch,fault]
  | answered fine r answer before none' filled data fault =>
      have quiet := unowed_silent admits none'
      refine .inr ⟨fine,r,answer,by omega,by simp [fetch2,filled,data],?_⟩
      cases faulty : (inputs r).tlbRespXcpIf <;> simp [fetch2,here,fine,exIfPageFault,filled,quiet,fault,faulty]
  | dying flush => simp [flushIf,flush] at kept

theorem carried_ends (fair : Fair inputs) {s : Nat} (fetched : Fetched inputs s) :
    ∃ u, s < u ∧ (Handed inputs u ∨ flushIf (stage inputs u) (inputs u) = true) := by
  by_contra never
  have unhanded : ∀ u, s < u → ¬ Handed inputs u := fun u later handed => never ⟨u,later,.inl handed⟩
  have kept : ∀ u, s < u → flushIf (stage inputs u) (inputs u) = false := by
    intro u later
    by_contra flush
    exact never ⟨u,later,.inr (by simpa using flush)⟩
  -- nothing moves while the instruction is not handed on
  have stays : ∀ u, s < u → (stage inputs u).if2 = fetch1 (stage inputs s) (inputs s) → stallIf2 (stage inputs u) (inputs u) = true := by
    intro u later here
    by_contra moves
    obtain ⟨free,response⟩ := stallIf2_parts.mp (by simpa using moves)
    have valid : (stage inputs u).if2.valid = true := by rw [here]; exact fetched.1
    exact unhanded u later ⟨by simp [fetch2,valid,response valid],free,kept u later⟩
  have along : ∀ d, Carried inputs s (s + 1 + d) ∧ Standing inputs s (s + 1 + d) := by
    intro d
    induction d with
    | zero => exact ⟨carried_start fetched,standing_start admits fetched⟩
    | succ d ih =>
      have later := ih.1.later
      have stall := stays _ later (ih.1.pending _ later (Nat.le_refl _))
      exact ⟨carried_next ih.1 stall (kept _ later),standing_next admits later stall (kept _ later) ih.2⟩
  have standing : ∀ u, s < u → Carried inputs s u ∧ Standing inputs s u := by
    intro u later
    have shift : s + 1 + (u - s - 1) = u := by omega
    exact shift ▸ along (u - s - 1)
  -- from some cycle on the answer is there
  have settled : ∃ r, s < r ∧ ∀ u, r ≤ u → answered (stage inputs u) (inputs u) = true := by
    cases faulty : (fetch1 (stage inputs s) (inputs s)).ex.valid with
    | true =>
      refine ⟨s + 1,by omega,?_⟩
      intro u later
      simp [answered,(standing u (by omega)).1.pending u (by omega) (Nat.le_refl u),faulty]
    | false =>
      have responds : ∃ r, s < r ∧ Responds inputs r := by
        cases (standing (s + 1) (by omega)).2 with
        | own other => simp [faulty] at other
        | asked _ _ _ waits =>
            obtain ⟨r,later,responds | killed⟩ := fair.answers (s + 1) waits
            · exact ⟨r,by omega,responds⟩
            · have flush := kept r (by omega)
              have kill : retryFetch (stage inputs r) = true := killed
              simp only [retryFetch,Bool.or_eq_true] at kill
              simp only [flushIf,Bool.or_eq_false_iff] at flush
              simp [flush] at kill
        | answered _ r answer => exact ⟨r,answer.later,answer.responds⟩
        | dying flush => simpa [flushIf,flush] using kept (s + 1) (by omega)
      obtain ⟨r,later,responds⟩ := responds
      refine ⟨r + 1,by omega,?_⟩
      intro u after
      cases (standing u (by omega)).2 with
      | own other => simp [faulty] at other
      | asked _ _ between => exact absurd responds (between r later (by omega)).1
      | answered _ _ _ _ _ valid => simp [answered,valid]
      | dying flush => simpa [flushIf,flush] using kept u (by omega)
  obtain ⟨r,later,ready⟩ := settled
  obtain ⟨u,after,free⟩ := fair.unstalls r
  have here := (standing u (by omega)).1.pending u (by omega) (Nat.le_refl u)
  exact unhanded u (by omega) ⟨by simp [fetch2,here,fetched.1,ready u after],free,kept u (by omega)⟩

end admitted

theorem carried_until {s u : Nat} (fetched : Fetched inputs s) (later : s < u)
    (quiet : ∀ v, s < v → v < u → ¬ Handed inputs v ∧ flushIf (stage inputs v) (inputs v) = false) : Carried inputs s u := by
  induction u with
  | zero => omega
  | succ u ih =>
    rcases Nat.lt_succ_iff_lt_or_eq.mp later with earlier | rfl
    · have before := ih earlier fun v after sooner => quiet v after (by omega)
      obtain ⟨unhanded,kept⟩ := quiet u earlier (by omega)
      refine carried_next before ?_ kept
      by_contra moves
      obtain ⟨free,response⟩ := stallIf2_parts.mp (by simpa using moves)
      have valid : (stage inputs u).if2.valid = true := by
        rw [before.pending u earlier (Nat.le_refl u)]
        exact fetched.1
      exact unhanded ⟨by simp [fetch2,valid,response valid],free,kept⟩
    · exact carried_start fetched

structure Pairing (inputs : Nat → Input) : Prop where
  paired : ∀ u, Handed inputs u → ∃ s, Paired inputs s u
  -- what is fetched is handed on once, unless it is flushed
  once : ∀ s, Fetched inputs s → ∃ u, Carried inputs s u ∧ (Handed inputs u ∨ flushIf (stage inputs u) (inputs u) = true) ∧
    ∀ other, Carried inputs s other → Handed inputs other → other = u
  -- a response to which nothing waits, or that meets a flush, is never used
  stale : ∀ r, (stage inputs r).if2.valid = false ∨ flushIf (stage inputs r) (inputs r) = true → ∀ s u, Handed inputs u → Paired inputs s u →
    AnswerOf inputs s r → u < r

theorem fetch_paired (admits : Admits machine inputs) (fair : Fair inputs) : Pairing inputs where
  paired := fun _ handed => handed_paired admits handed
  once := by
    classical
    intro s fetched
    have ends := carried_ends admits fair fetched
    obtain ⟨later,event⟩ := Nat.find_spec ends
    have carried : Carried inputs s (Nat.find ends) := by
      refine carried_until fetched later ?_
      intro v after before
      have none_yet := Nat.find_min ends before
      simp only [not_and,not_or,Bool.not_eq_true] at none_yet
      exact none_yet after
    refine ⟨_,carried,event,?_⟩
    intro other again handed
    rcases Nat.lt_trichotomy other (Nat.find ends) with before | same | past
    · exact absurd handed (carried.between other again.later before).1
    · exact same
    · obtain ⟨unhanded,kept,_⟩ := again.between _ later past
      rcases event with now | flush
      · exact absurd now unhanded
      · simp [kept] at flush
  stale := by
    intro r missing s u handed paired answer
    by_contra used
    have waits := paired.carried.pending r answer.later (by omega)
    have kept : flushIf (stage inputs r) (inputs r) = false := by
      rcases Nat.lt_or_eq_of_le (Nat.le_of_not_lt used) with before | rfl
      · exact (paired.carried.between r answer.later before).2.1
      · exact handed.2.2
    rcases missing with empty | flush
    · rw [waits] at empty
      simp [paired.carried.fetched.1] at empty
    · simp [kept] at flush

end run

def resting : Input where
  pc := 0x100
  addrFault := false
  bpred := ⟨false,false,0⟩
  parked := false
  stallBack := false
  held := true
  flushOther := false
  commitValid := false
  commitStallCsrFence := false
  commitFence := false
  commitFenceI := false
  haltAck := false
  trap := false
  icacheReqReady := true
  icacheRespValid := false
  tlbRespXcpIf := false
  icacheRespDatablock := 0

-- One fetch, whose response meets a stall of decode
def saving : Nat → Input
  | 0 => { resting with held := false }
  | 1 =>
    { resting with
      stallBack := true
      icacheRespValid := true
      icacheRespDatablock := 0x13 }
  | _ => resting

theorem saving_idle (t : Nat) : (world saving (t + 2)).outstanding = false := by
  induction t with
  | zero => decide
  | succ t ih =>
    change (after (world saving (t + 2)) resting).outstanding = false
    have held : resting.held = true := rfl
    simp [after,ih,doIcacheRequest,reqValid,stallIf1,held]

theorem saving_admits : Admits machine saving := by
  intro t
  refine ⟨?_,?_,?_⟩
  · intro _ waits
    match t with
    | 0 => cases waits
    | 1 => rfl
    | t + 2 =>
        have idle : (trace machine saving (t + 2)).outstanding = false := saving_idle t
        simp [idle] at waits
  · intro responds
    match t with
    | 1 => decide
    | 0 => exact absurd responds Bool.false_ne_true
    | t + 2 => exact absurd responds Bool.false_ne_true
  · intro valid
    match t with
    | 0 | 1 | t + 2 => cases valid

theorem saving_fair : Fair saving where
  answers := by
    intro t waits
    match t with
    | 0 => cases waits
    | 1 => exact ⟨1,Nat.le_refl 1,.inl rfl⟩
    | t + 2 => simp [saving_idle t] at waits
  unstalls t := ⟨t + 2,by omega,rfl⟩

theorem fetch_paired_saving : Handed saving 2 ∧ Pairing saving :=
  ⟨⟨by decide,rfl,by decide⟩,fetch_paired saving_admits saving_fair⟩

end Sargantana.FetchPairing
