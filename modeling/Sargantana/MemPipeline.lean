import Sargantana.MemRequest
import Sargantana.PendingMemReqQueue

-- mem_unit behind the load/store queue: the request of stage 0, the registers of the next
-- stages, the pending requests and the choice of the instruction to write back.
namespace Sargantana.MemPipeline
open DracPkg PendingMemReqQueue

variable {α δ : Type}

-- instruction_s1_q, is_STORE_or_AMO_s1_q, is_STORE_s1_q, io_s1_q and tag_id_s1_q, or
-- those of s2
structure StageReg (α : Type) where
  instruction : MemInstr α
  isStoreOrAmo : Bool
  isStore : Bool
  io : Bool
  tagId : Fin 128

-- s2 and resp_dcache_cpu_q are there with REGISTER_HPDC_OUTPUT only.
@[ext]
structure State (α δ : Type) where
  handshake : MemRequest.Handshake
  s1 : StageReg α
  s2 : StageReg α
  respQ : Option (Response δ)
  fullPmrqQ : Bool
  pmrq : PendingMemReqQueue.State α δ

-- One clock cycle: what the load/store queue shows, whether stage 0 reads it (it is in
-- ReadHead, the queue is neither empty nor blocked), and what the data cache answers.
-- `signals` gives the signals of the commit stage and of the vector packers.
structure Input (α δ : Type) where
  shown : MemInstr α
  reads : Bool
  flush : Bool
  signals : MemUnit.Signals
  io : Bool
  response : Option (Response δ)

def wired (s : State α δ) (i : Input α δ) : MemUnit.Signals :=
  { i.signals with fullPmrq := s.fullPmrqQ, stallAfterFlushLsq := s.handshake.stallAfterFlushLsq }

def request (s : State α δ) (i : Input α δ) : MemUnit.Request :=
  if i.flush || !i.reads then ⟨false,false,false⟩ else MemUnit.request (wired s i) i.shown

-- A request, or the dummy for one that was killed, is taken by the data cache.
def sent (s : State α δ) (i : Input α δ) : Bool :=
  MemRequest.reqValid s.handshake (request s i).valid && i.signals.ready

-- need_rsp of dcache_interface, which sends a type that it does not know as a load. SD, SW,
-- SH, SB, FSD and FSW stand here by their places in instr_type_t.
def needRsp : InstrType → Bool
  | .vse | .vsm | .vs1r => false
  | .other code => !decide (code ∈ [46,49,52,54,93,94])
  | _ => true

def expects (s : State α δ) (i : Input α δ) : Bool :=
  sent s i && needRsp (MemRequest.reqCpuDcache s.handshake (request s i).valid i.shown).instrType

-- The stage that the responses are compared with, and the response that reaches it
def last (reg : Bool) (s : State α δ) : StageReg α := if reg then s.s2 else s.s1

def delivered (reg : Bool) (s : State α δ) (i : Input α δ) : Option (Response δ) := if reg then s.respQ else i.response

def answers (reg : Bool) (s : State α δ) (i : Input α δ) : Bool :=
  (last reg s).instruction.valid && (delivered reg s i).any fun r => r.rd == (last reg s).tagId

inductive Source where
  | response | exception | io | queue
  deriving DecidableEq

-- The cases in which the last stage writes back
def stageWb (reg : Bool) (s : State α δ) (i : Input α δ) : Option Source :=
  if !(last reg s).instruction.valid then none
  else if answers reg s i && !(last reg s).isStore then some .response
  else if (last reg s).instruction.ex.valid then some .exception
  else if (last reg s).io && (last reg s).isStoreOrAmo then some .io
  else none

def pushes (reg : Bool) (s : State α δ) (i : Input α δ) : Bool :=
  (last reg s).instruction.valid && !answers reg s i && !(last reg s).instruction.ex.valid
    && !((last reg s).io && (last reg s).isStoreOrAmo) && !(last reg s).isStore

def replay (reg : Bool) (s : State α δ) (i : Input α δ) : Option (Response δ) :=
  if answers reg s i then none else delivered reg s i

-- advance_head_prmq
def popsQueue (reg : Bool) (s : State α δ) (i : Input α δ) : Bool :=
  (stageWb reg s i).isNone && (finishInstr s.pmrq).any (·.instruction.valid)

section
variable [Inhabited α]

def StageReg.zero : StageReg α := ⟨MemInstr.zero,false,false,false,0⟩

-- instruction_s1_d
def s1D (s : State α δ) (i : Input α δ) : MemInstr α := if (request s i).advance then i.shown else MemInstr.zero

variable [Inhabited δ]

-- instruction_to_wb and data_dcache
def writeback (reg : Bool) (s : State α δ) (i : Input α δ) : Option (Source × MemInstr α × δ) :=
  match stageWb reg s i with
  | some .response => some (.response,(last reg s).instruction,((delivered reg s i).map (·.data)).getD default)
  | some source => some (source,(last reg s).instruction,default)
  | none => ((finishInstr s.pmrq).filter (·.instruction.valid)).map fun slot => (.queue,slot.instruction,slot.data)

def pmrqInput (reg : Bool) (s : State α δ) (i : Input α δ) : PendingMemReqQueue.Input α δ where
  instruction := if pushes reg s i then (last reg s).instruction else MemInstr.zero
  tag := (last reg s).tagId
  replay := replay reg s i
  flush := i.flush
  advanceHead := popsQueue reg s i

def nextS1 (s : State α δ) (i : Input α δ) : StageReg α :=
  if i.flush then .zero else ⟨s1D s i,i.shown.isAmoOrStore,i.shown.isStore,i.io,s.handshake.tagId⟩

def next (reg : Bool) (s : State α δ) (i : Input α δ) : State α δ where
  handshake := MemRequest.next s.handshake (request s i).valid i.signals.ready i.flush
  s1 := nextS1 s i
  s2 := if i.flush || !reg then .zero else s.s1
  respQ := if i.flush || !reg then none else i.response
  fullPmrqQ :=
    if i.flush then false
    else if i.signals.ready || !full s.pmrq i.flush then full s.pmrq i.flush else s.fullPmrqQ
  pmrq := PendingMemReqQueue.next s.pmrq (pmrqInput reg s i)

def reset : State α δ := ⟨MemRequest.reset,.zero,.zero,none,false,PendingMemReqQueue.reset⟩

end

-- An instruction of the queue asks the data cache when it has no exception and, for a
-- store or an AMO, its element is not masked off.
def asks (x : MemInstr α) : Bool := !x.ex.valid && (!x.isAmoOrStore || x.loadMask.getLsbD 0)

theorem request_cases (sig : MemUnit.Signals) (x : MemInstr α) :
    let r := MemUnit.request sig x
    (r.advance = true → x.valid = true) ∧
    ((r.valid && sig.ready) = (r.advance && asks x)) ∧
    ((r.advance && asks x) = true → sig.fullPmrq = false) := by
  unfold MemUnit.request asks
  dsimp only
  split
  · rename_i fault
    simp only [Bool.and_eq_true] at fault
    simp [fault.1.1]
  · split
    · simp
    · rename_i free
      simp only [Bool.or_eq_true,Bool.not_eq_true',not_or,Bool.not_eq_false,Bool.not_eq_true] at free
      obtain ⟨⟨present,room⟩,_⟩ := free
      split
      · rename_i load
        cases fault : x.ex.valid <;> cases sig.ready <;> cases sig.stallAfterFlushLsq <;> simp_all
      · split
        · rename_i store _
          cases fault : x.ex.valid <;> cases MemUnit.commits sig <;> cases sig.stallAfterFlushLsq <;>
            cases sig.ready <;> cases x.loadMask.getLsbD 0 <;> simp_all
        · simp

theorem answers_iff (reg : Bool) (s : State α δ) (i : Input α δ) : answers reg s i = true ↔
    (last reg s).instruction.valid = true ∧ ∃ r, delivered reg s i = some r ∧ r.rd = (last reg s).tagId := by
  cases came : delivered reg s i with
  | none => simp [answers,came]
  | some r => simp [answers,came]

theorem stageWb_response {reg : Bool} {s : State α δ} {i : Input α δ} : stageWb reg s i = some .response ↔
    answers reg s i = true ∧ (last reg s).isStore = false := by
  unfold stageWb
  cases valid : (last reg s).instruction.valid with
  | false => simp [answers,valid]
  | true =>
    simp only [Bool.not_true,Bool.false_eq_true,if_false,Bool.and_eq_true,Bool.not_eq_true']
    split
    · simp_all
    · rename_i other
      simp only [other,iff_false]
      split <;> simp

theorem stageWb_queue {reg : Bool} {s : State α δ} {i : Input α δ} : stageWb reg s i ≠ some .queue := by
  unfold stageWb
  repeat (split; simp)
  simp

section
variable [Inhabited δ] {reg : Bool} {s : State α δ} {i : Input α δ} {x : MemInstr α} {data : δ}

theorem writeback_response : writeback reg s i = some (.response,x,data) ↔
    stageWb reg s i = some .response ∧ (last reg s).instruction = x ∧ ((delivered reg s i).map (·.data)).getD default = data := by
  unfold writeback
  split
  · rename_i found
    simp [found]
  · rename_i source other found
    simp [found]
    intro same
    exact absurd same other
  · rename_i found
    simp [found]

-- The queue writes back when the last stage does not.
theorem writeback_queue : writeback reg s i = some (.queue,x,data) ↔
    stageWb reg s i = none ∧ ∃ slot, (contents s.pmrq).head? = some slot ∧ slot.finishBit = true ∧
      slot.instruction.valid = true ∧ slot.instruction = x ∧ slot.data = data := by
  unfold writeback
  split
  · rename_i found
    simp [found]
  · rename_i source other found
    have real : source ≠ .queue := fun same => stageWb_queue (same ▸ found)
    simp [found,real]
  · rename_i found
    rw [finishInstr_head]
    cases (contents s.pmrq).head? with
    | none => simp
    | some slot =>
      cases finished : slot.finishBit <;> cases valid : slot.instruction.valid <;>
        simp [found,finished,valid,Option.filter]

end

end Sargantana.MemPipeline
