import Sargantana.Lib.StateMachine
import Sargantana.MemPipeline

-- dcache_interface between the requests of mem_unit and the data cache: the table of the tags
-- that are in flight.
namespace Sargantana.DcacheInterface
open DracPkg StateMachine
open MemRequest (Handshake)
open MemPipeline (needRsp)

inductive CheckerState where
  | idle
  | pending
  deriving DecidableEq

variable {α : Type}

-- The registers of mem_unit, transaction_table, and the tids of what the cache has taken and not
-- answered
structure State where
  handshake : Handshake
  transactionTable : Fin 128 → CheckerState
  unanswered : List (Fin 128)

-- One clock cycle: what mem_unit shows, whether stage 0 asks for it, the flush of the queue, and
-- what the cache drives.
structure Input (α : Type) where
  shown : MemInstr α
  validInt : Bool
  flush : Bool
  dcacheReady : Bool
  response : Option (Fin 128)

def req (s : State) (i : Input α) : MemRequest.ReqCpuDcache := MemRequest.reqCpuDcache s.handshake i.validInt i.shown

def waitRespSameTag (s : State) (i : Input α) : Bool := s.transactionTable (req s i).rd == .pending

def coreReqValid (s : State) (i : Input α) : Bool := (req s i).valid && !waitRespSameTag s i

-- resp_dcache_cpu_o.ready
def ready (s : State) (i : Input α) : Bool := i.dcacheReady && !waitRespSameTag s i

-- Where mem_unit goes on to the next tag, and where the cache takes a request
def coreAccepts (s : State) (i : Input α) : Bool := (req s i).valid && ready s i

def cacheAccepts (s : State) (i : Input α) : Bool := coreReqValid s i && i.dcacheReady

def send (s : State) (i : Input α) : Bool := coreReqValid s i && i.dcacheReady && needRsp (req s i).instrType

-- The cache is to answer what it takes with need_rsp.
def taken (s : State) (i : Input α) : List (Fin 128) :=
  if cacheAccepts s i && needRsp (req s i).instrType then (req s i).rd :: s.unanswered else s.unanswered

def next (s : State) (i : Input α) : State where
  handshake := MemRequest.next s.handshake i.validInt (ready s i) i.flush
  transactionTable t :=
    if i.response = some t then .idle else if send s i = true ∧ (req s i).rd = t then .pending else s.transactionTable t
  unanswered := i.response.elim (taken s i) (taken s i).erase

-- The cache answers with the tid of a request that it took and did not answer before.
def Answers (s : State) (i : Input α) : Prop := ∀ t, i.response = some t → t ∈ taken s i

instance (s : State) (i : Input α) : Decidable (Answers s i) :=
  inferInstanceAs (Decidable (∀ t ∈ i.response, t ∈ taken s i))

def reset : State := ⟨MemRequest.reset,fun _ => .idle,[]⟩

def machine : Machine State (Input α) where
  initial := reset
  allowed := Answers
  step := next

instance (s : State) (i : Input α) : Decidable (machine.allowed s i) := inferInstanceAs (Decidable (Answers s i))

structure Invariant (s : State) : Prop where
  apart : s.unanswered.Nodup
  table : ∀ t, s.transactionTable t = .pending ↔ t ∈ s.unanswered

variable {s : State} {i : Input α}

theorem accepts_same (s : State) (i : Input α) : coreAccepts s i = cacheAccepts s i := by
  rw [coreAccepts,cacheAccepts,ready,coreReqValid,Bool.and_comm i.dcacheReady,Bool.and_assoc]

theorem accepted_idle (invariant : Invariant s) (accepted : cacheAccepts s i = true) : (req s i).rd ∉ s.unanswered := by
  intro waits
  have busy : waitRespSameTag s i = true := beq_iff_eq.mpr ((invariant.table _).mpr waits)
  rw [cacheAccepts,coreReqValid,busy] at accepted
  simp at accepted

theorem taken_apart (invariant : Invariant s) : (taken s i).Nodup := by
  rw [taken]
  split
  · rename_i accepted
    simp only [Bool.and_eq_true] at accepted
    exact List.nodup_cons.mpr ⟨accepted_idle invariant accepted.1,invariant.apart⟩
  · exact invariant.apart

theorem taken_table (invariant : Invariant s) (t : Fin 128) :
    (if send s i = true ∧ (req s i).rd = t then CheckerState.pending else s.transactionTable t) = .pending ↔ t ∈ taken s i := by
  have sends : send s i = (cacheAccepts s i && needRsp (req s i).instrType) := rfl
  rw [taken,← sends]
  cases sent : send s i with
  | true =>
    by_cases here : (req s i).rd = t
    · simp [here]
    · simp [here,Ne.symm here,invariant.table]
  | false => simp [invariant.table]

theorem invariant_next (invariant : Invariant s) : Invariant (next s i) := by
  have apart := taken_apart (i := i) invariant
  constructor
  · cases answer : i.response with
    | none => simpa [next,answer] using apart
    | some t => simpa [next,answer] using apart.erase t
  · intro t
    have table := taken_table (i := i) invariant t
    cases answer : i.response with
    | none => simpa [next,answer] using table
    | some other =>
      by_cases same : other = t
      · simp [next,answer,same,apart.mem_erase_iff]
      · simpa [next,answer,same,apart.mem_erase_iff,Ne.symm same] using table

theorem reached_invariant (reached : Reached (machine (α := α)) s) : Invariant s :=
  reached.invariant Invariant ⟨List.nodup_nil,fun _ => by simp [machine,reset]⟩ fun _ _ invariant _ => invariant_next invariant

-- In every run no two requests in flight have one tag, the table is what is in flight, and in
-- each cycle mem_unit and the cache agree on what is taken, also with what the cache answers.
theorem tags_unique (reached : Reached (machine (α := α)) s) :
    s.unanswered.Nodup ∧ (∀ t, s.transactionTable t = .pending ↔ t ∈ s.unanswered) ∧
    ∀ i : Input α, coreAccepts s i = cacheAccepts s i ∧ (cacheAccepts s i = true → (req s i).rd ∉ s.unanswered) := by
  have invariant := reached_invariant reached
  exact ⟨invariant.apart,invariant.table,fun i => ⟨accepts_same s i,accepted_idle invariant⟩⟩

-- Two loads, of which the second one comes back first
def load (response : Option (Fin 128)) : Input Unit :=
  ⟨{ MemInstr.zero with valid := true, instrType := .other 45 },true,false,true,response⟩

def crossed : State := [load none,load (some 1)].foldl next reset

theorem tags_unique_crossed : crossed.unanswered.Nodup ∧ (∀ t, crossed.transactionTable t = .pending ↔ t ∈ crossed.unanswered) ∧
    ∀ i : Input Unit, coreAccepts crossed i = cacheAccepts crossed i ∧
      (cacheAccepts crossed i = true → (req crossed i).rd ∉ crossed.unanswered) :=
  tags_unique ⟨[load none,load (some 1)],Runs.of_legal (by decide)⟩

end Sargantana.DcacheInterface
