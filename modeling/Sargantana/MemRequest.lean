import Sargantana.MemUnit

-- The request of mem_unit to the data cache. A request that was not taken must not be
-- withdrawn: it is completed as a dummy.
namespace Sargantana.MemRequest
open DracPkg MemUnit

variable {α : Type}

structure Handshake where
  tagId : Fin 128
  regReadyResp : Bool
  regValidReq : Bool
  killedDcacheReq : Bool
  stallAfterFlushLsq : Bool
  deriving DecidableEq

def reset : Handshake := ⟨0,false,false,false,false⟩

-- req_cpu_dcache_valid_int
def validInt (stage : Stage) (sig : Signals) (flush empty blockedStore : Bool) (x : MemInstr α) : Bool :=
  if flush then false
  else match stage with
    | .resetState => false
    | .readHead => if empty || blockedStore then false else (request sig x).valid

-- killed_dcache_req_d
def killedD (h : Handshake) (validInt : Bool) : Bool := !h.regReadyResp && h.regValidReq && !validInt

def reqValid (h : Handshake) (validInt : Bool) : Bool := validInt || killedD h validInt || h.killedDcacheReq

-- req_cpu_dcache_t, less data_rs2, which is carried. The dummy is an ADD.
structure ReqCpuDcache where
  valid : Bool
  dataRs1 : BitVec 64
  instrType : InstrType
  memSize : BitVec 4
  rd : Fin 128
  isAmoOrStore : Bool
  isAmo : Bool
  isStore : Bool

def reqCpuDcache (h : Handshake) (validInt : Bool) (x : MemInstr α) : ReqCpuDcache where
  valid := reqValid h validInt
  dataRs1 := x.dataRs1
  instrType := if killedD h validInt then .other 0 else x.instrType
  memSize := x.memSize
  rd := h.tagId
  isAmoOrStore := x.isAmoOrStore
  isAmo := x.isAmo
  isStore := x.isStore

def next (h : Handshake) (validInt ready flush : Bool) : Handshake :=
  let sent := reqValid h validInt && ready
  { tagId := if sent then h.tagId + 1 else h.tagId
    regReadyResp := ready
    regValidReq := reqValid h validInt
    killedDcacheReq := if sent then false else if killedD h validInt then true else h.killedDcacheReq
    stallAfterFlushLsq :=
      if sent then false else if killedD h validInt then flush else h.stallAfterFlushLsq }

-- A dummy that is not taken stays asserted.
def Pending (h : Handshake) : Prop := h.killedDcacheReq = true → h.regValidReq = true ∧ h.regReadyResp = false

theorem reset_pending : Pending reset := by
  intro killed
  cases killed

theorem next_pending (h : Handshake) (validInt ready flush : Bool) : Pending (next h validInt ready flush) := by
  intro killed
  simp only [next] at killed ⊢
  cases sent : reqValid h validInt && ready with
  | true => simp [sent] at killed
  | false =>
    have asserted : reqValid h validInt = true := by
      simp only [sent,Bool.false_eq_true,if_false] at killed
      split at killed
      · rename_i dummy
        simp [reqValid,dummy]
      · simp [reqValid,killed]
    rw [asserted,Bool.true_and] at sent
    exact ⟨asserted,sent⟩

theorem valid_genuine {h : Handshake} (pending : Pending h) {validInt : Bool} (asserted : reqValid h validInt = true)
    (genuine : killedD h validInt = false) : validInt = true := by
  cases int : validInt with
  | true => rfl
  | false =>
    rw [int] at asserted genuine
    have killed : h.killedDcacheReq = true := by simpa [reqValid,genuine] using asserted
    obtain ⟨valid,waits⟩ := pending killed
    simp [killedD,valid,waits] at genuine

theorem validInt_parts {stage : Stage} {sig : Signals} {flush empty blockedStore : Bool} {x : MemInstr α}
    (valid : validInt stage sig flush empty blockedStore x = true) :
    flush = false ∧ stage = .readHead ∧ empty = false ∧ blockedStore = false ∧ (request sig x).valid = true := by
  unfold validInt at valid
  cases flush with
  | true => simp at valid
  | false =>
    cases stage with
    | resetState => simp at valid
    | readHead => cases empty <;> cases blockedStore <;> simp_all

-- The cache is asked only for a valid instruction, and for a store under the acknowledgement.
theorem request_parts {sig : Signals} {x : MemInstr α} (valid : (request sig x).valid = true) :
    x.valid = true ∧ sig.stallAfterFlushLsq = false ∧ (x.isAmoOrStore = true → commits sig = true) := by
  unfold request at valid
  split at valid
  · cases valid
  · split at valid
    · cases valid
    · rename_i free
      have present : x.valid = true := by
        simp only [Bool.or_eq_true,Bool.not_eq_true',not_or] at free
        exact Bool.not_eq_false _ ▸ free.1.1
      split at valid
      · rename_i load
        simp only [Bool.and_eq_true,Bool.not_eq_true'] at valid load
        exact ⟨present,valid.2,fun store => (by rw [load] at store; cases store)⟩
      · split at valid
        · simp only [Bool.and_eq_true,Bool.or_eq_true,Bool.not_eq_true'] at valid
          refine ⟨present,valid.1.2,fun store => ?_⟩
          rcases valid.1.1.1 with load | commit
          · rw [load] at store; cases store
          · exact commit
        · cases valid

end Sargantana.MemRequest
