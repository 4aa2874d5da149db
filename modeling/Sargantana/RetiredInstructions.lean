import Sargantana.DualRetirement
import Sargantana.TrapDestination

-- The commit stage with the CSR file: which instructions minstret counts.
namespace Sargantana.RetiredInstructions

open DracPkg GraduationList CsrInterface CommitStage DualRetirement StateMachine
open RenameStage (RegClass)
open CsrRegisters (Regs Ports stateInput stores csrMinstret nextInstret retireCnt)
open CsrBsc (csrXcpt flag)

variable {ports writebacks : RegClass → Nat}

-- `rest` has the ports of csr_bsc that do not come from csr_interface.
structure Cycle (ports writebacks : RegClass → Nat) where
  stage : CommitStage.Input ports writebacks
  rest : Ports

-- The CSR file is `regs`: nothing reads the registers inside of `stage`.
structure State (ports : RegClass → Nat) where
  stage : CommitStage.State ports
  regs : Regs

def csrCmd : CsrCmd → BitVec 4
  | .rw => 1
  | .set => 2
  | .clear => 3
  | .sys => 4
  | .read => 5
  | .vsetvl => 6
  | .vsetvlmax => 7
  | .write => 8
  | .vleff => 9

section Interface

variable (i : CommitStage.Input ports writebacks) (pair : Pair)

-- exception_gl_i or exception_mem_commit_i
def reported : Exception := if (pair 0).any commitStoreOrAmo then i.csr.exceptionMemCommit else i.csr.exception

-- req_cpu_csr_o, and csr_retire once more as fcsr_flags_valid
def csrPorts (rest : Ports) : Ports :=
  let wanted := (pair 0).bind (request i)
  { rest with
    rwCmd := (wanted.map fun r => csrCmd r.cmd).getD 0
    rwAddr := (wanted.map (·.addr)).getD 0
    wDataCore := (wanted.map (·.data)).getD 0
    ex := xcpt i pair && !i.halted
    exCause := BitVec.ofNat 64 (reported i pair).cause
    exOrigin := BitVec.ofNat 64 (reported i pair).origin
    retire := flag (csrRetire i pair 1) ++ flag (csrRetire i pair 0)
    fregModified := fregModified i pair
    fcsrFlagsValid := csrRetire i pair 0 || csrRetire i pair 1
    fcsrFlagsBits := fpStatus i pair
    vregModified := vregModified i pair
    vxsat := anyRetired i pair (·.status.vsOvf) }

end Interface

section Wires

variable (s : State ports) (c : Cycle ports writebacks)

def commitInput : CommitStage.Input ports writebacks :=
  { wired s.stage c.stage with inhibit := s.regs.mcountinhibit.getLsbD 2 }

def shown : Pair := presented s.stage (commitInput s c)

def portsOf : Ports := csrPorts (commitInput s c) (shown s c) c.rest

def csrXcptO : Bool := (csrXcpt s.regs.toState (stateInput s.regs (portsOf s c))).isSome

-- csr_eret of a return
def csrEret : Bool :=
  let i := stateInput s.regs (portsOf s c)
  !CsrBsc.traps s.regs.toState i && (CsrBsc.mret s.regs.toState i || CsrBsc.sretDone s.regs.toState i)

def stageInput : CommitStage.Input ports writebacks :=
  { commitInput s c with csrTrap := csrXcptO s c || csrEret s c }

def next : State ports := ⟨CommitStage.next keep s.stage (stageInput s c),CsrRegisters.next s.regs (portsOf s c)⟩

-- The first instruction traps: the core reports it, or the CSR file detects it.
def trapped : Bool := xcpt (stageInput s c) (shown s c) || csrXcptO s c

def completed : List (GraduationList.Entry Carried) :=
  (if retire (stageInput s c) (shown s c) 0 && !trapped s c then (shown s c 0).toList else []) ++
    (if retire (stageInput s c) (shown s c) 1 then (shown s c 1).toList else [])

-- The CSR file raises an exception for an instruction that csr_interface retires.
def refused : Bool := csrRetire (stageInput s c) (shown s c) 0 && csrXcptO s c

-- minstret is neither written nor inhibited.
structure Steady : Prop where
  unwritten : stores csrMinstret s.regs (portsOf s c) = false
  counting : s.regs.mcountinhibit.getLsbD 2 = false

end Wires

def machine : Machine (State ports) (Cycle ports writebacks) where
  initial := ⟨CommitStage.reset,CsrRegisters.reset⟩
  allowed := Steady
  step := next

def done (inputs : Nat → Cycle ports writebacks) (t : Nat) : List (GraduationList.Entry Carried) :=
  (List.range t).flatMap fun u => completed (trace machine inputs u) (inputs u)

def miscounts (inputs : Nat → Cycle ports writebacks) (t : Nat) : Nat :=
  ((List.range t).filter fun u => refused (trace machine inputs u) (inputs u)).length

variable {s : State ports} {c : Cycle ports writebacks}

-- Two instructions leave in a cycle only when the first sends no command.
theorem pair_silent (both : retire (stageInput s c) (shown s c) 1 = true) :
    xcpt (stageInput s c) (shown s c) = false ∧ csrXcptO s c = false := by
  obtain ⟨first,second,one,two,joined⟩ := retire_both both
  have calm : xcpt (stageInput s c) (shown s c) = false := by simp [xcpt,one,joined.calm]
  have silent : csrEna (commitInput s c).csr first = false := joined.silent
  have command : (portsOf s c).rwCmd = 0 := by simp [portsOf,csrPorts,one,request,silent]
  refine ⟨calm,?_⟩
  rw [csrXcptO,TrapDestination.idle_xcpt command]
  rfl

theorem trap_alone (trap : trapped s c = true) : retire (stageInput s c) (shown s c) 1 = false := by
  by_contra both
  obtain ⟨calm,quiet⟩ := pair_silent (by simpa using both)
  simp [trapped,calm,quiet] at trap

theorem retire_first (both : retire (stageInput s c) (shown s c) 1 = true) : retire (stageInput s c) (shown s c) 0 = true :=
  (retires_presented (stageInput s c).csr (shown s c) 1 both).2

theorem leaving_length {goes : Bool} {e : Option (GraduationList.Entry Carried)} (present : goes = true → e.isSome = true) :
    (if goes then e.toList else []).length = goes.toNat := by
  cases goes with
  | false => rfl
  | true =>
      obtain ⟨_,here⟩ := Option.isSome_iff_exists.mp (present rfl)
      rw [here]
      rfl

theorem completed_length : (completed s c).length =
    (retire (stageInput s c) (shown s c) 0 && !trapped s c).toNat + (retire (stageInput s c) (shown s c) 1).toNat := by
  have present : ∀ port, retire (stageInput s c) (shown s c) port = true → (shown s c port).isSome = true :=
    fun port retires => (retires_presented (stageInput s c).csr (shown s c) port retires).1
  rw [completed,List.length_append,leaving_length (present 1),leaving_length]
  intro goes
  rw [Bool.and_eq_true] at goes
  exact present 0 goes.1

-- The counter takes what retires without an exception of the core: the exceptions of the CSR file are among it.
theorem counted : (csrRetire (stageInput s c) (shown s c) 0).toNat + (csrRetire (stageInput s c) (shown s c) 1).toNat =
    (completed s c).length + (refused s c).toNat := by
  rw [completed_length,refused]
  simp only [csrRetire]
  cases both : retire (stageInput s c) (shown s c) 1 with
  | true =>
      obtain ⟨calm,quiet⟩ := pair_silent both
      simp [trapped,calm,quiet,retire_first both]
  | false =>
      simp only [trapped]
      cases retire (stageInput s c) (shown s c) 0 <;> cases xcpt (stageInput s c) (shown s c) <;> cases csrXcptO s c <;> rfl

theorem retireCnt_flags (one two : Bool) (p : Ports) (pulses : p.retire = flag two ++ flag one) :
    retireCnt p = BitVec.ofNat 64 (one.toNat + two.toNat) := by
  rw [retireCnt,pulses]
  cases one <;> cases two <;> decide

theorem instret_next (steady : Steady s c) :
    (next s c).regs.instret = s.regs.instret + BitVec.ofNat 64 ((completed s c).length + (refused s c).toNat) := by
  have value : (next s c).regs.instret = nextInstret s.regs (portsOf s c) := rfl
  have pulses : retireCnt (portsOf s c) =
      BitVec.ofNat 64 ((csrRetire (stageInput s c) (shown s c) 0).toNat + (csrRetire (stageInput s c) (shown s c) 1).toNat) :=
    retireCnt_flags _ _ (portsOf s c) rfl
  rw [value,nextInstret,if_neg (by rw [steady.unwritten]; exact Bool.false_ne_true),steady.counting,← counted,← pulses]
  cases core : (portsOf s c).ex with
  | false => simp
  | true =>
      -- The core has reported it, so that csr_retire is low.
      have both : (xcpt (stageInput s c) (shown s c) && !(stageInput s c).halted) = true := core
      rw [Bool.and_eq_true] at both
      rw [pulses]
      simp [csrRetire,both.1]

-- What a cycle counts leaves the graduation list in that cycle, and only then. An instruction that traps has no company,
-- a stalled one stays, and an exception of the core counts nothing.
structure Accounted (s : State ports) (c : Cycle ports writebacks) : Prop where
  removed : (retired (stageInput s c) (shown s c)).map (·.instr) =
    ((GraduationRefinement.contents s.stage.gl).take (readEnable (glInput s.stage (stageInput s c)))).map (·.instr)
  split : retired (stageInput s c) (shown s c) = if trapped s c then (if retire (stageInput s c) (shown s c) 0 then (shown s c 0).toList else [])
    else completed s c
  alone : trapped s c = true → completed s c = []
  stalled : c.stage.csr.memCommitStall = true → xcpt (stageInput s c) (shown s c) = false → retired (stageInput s c) (shown s c) = []
  uncounted : xcpt (stageInput s c) (shown s c) = true → (next s c).regs.instret = s.regs.instret

theorem completed_trap (trap : trapped s c = true) : completed s c = [] := by
  simp [completed,trap,trap_alone trap]

theorem accounted (steady : Steady s c) : Accounted s c where
  removed := removed_oldest
  split := by
    cases trap : trapped s c with
    | true => simp [retired,trap_alone trap]
    | false => simp [retired,completed,trap]
  alone := completed_trap
  stalled := by
    intro stall calm
    cases one : shown s c 0 with
    | none => simp [retired,retire_none one]
    | some first =>
        have waits : retire (stageInput s c) (shown s c) 0 = false := by
          rw [retire_zero one]
          have running : (stageInput s c).csr.memCommitStall = true := stall
          cases valid : first.instr.valid with
          | false => rfl
          | true =>
              have quiet : commitXcpt (stageInput s c).csr first = false := by simpa [xcpt,one,valid] using calm
              rw [quiet,running]
              rfl
        have second : retire (stageInput s c) (shown s c) 1 = false := by
          by_contra both
          have goes := retire_first (by simpa using both)
          rw [waits] at goes
          cases goes
        simp [retired,waits,second]
  uncounted := by
    intro raised
    have none' : completed s c = [] := completed_trap (by rw [trapped,raised,Bool.true_or])
    rw [instret_next steady,none',refused,csrRetire,raised]
    simp

theorem done_next (inputs : Nat → Cycle ports writebacks) (t : Nat) :
    (done inputs (t + 1)).length = (done inputs t).length + (completed (trace machine inputs t) (inputs t)).length := by
  simp [done,List.range_succ]

theorem miscounts_next (inputs : Nat → Cycle ports writebacks) (t : Nat) :
    miscounts inputs (t + 1) = miscounts inputs t + (refused (trace machine inputs t) (inputs t)).toNat := by
  rw [miscounts,List.range_succ,List.filter_append,List.length_append]
  cases now : refused (trace machine inputs t) (inputs t) <;> simp [miscounts,now]

theorem miscounts_silent {inputs : Nat → Cycle ports writebacks} (silent : ∀ t, refused (trace machine inputs t) (inputs t) = false)
    (t : Nat) : miscounts inputs t = 0 := by
  induction t with
  | zero => rfl
  | succ t ih => rw [miscounts_next,ih,silent t]; rfl

theorem instret_run (inputs : Nat → Cycle ports writebacks) (admits : Admits machine inputs) (t : Nat) :
    (trace machine inputs t).regs.instret = BitVec.ofNat 64 ((done inputs t).length + miscounts inputs t) := by
  induction t with
  | zero => rfl
  | succ t ih =>
      have step : trace machine inputs (t + 1) = next (trace machine inputs t) (inputs t) := rfl
      rw [step,instret_next (admits t),ih,← BitVec.ofNat_add]
      congr 1
      rw [done_next,miscounts_next]
      omega

-- One miscount is enough: from then on the counter is ahead, and it shows at once.
theorem minstret_exact (inputs : Nat → Cycle ports writebacks) (admits : Admits machine inputs) :
    ((∀ t, (trace machine inputs t).regs.instret = BitVec.ofNat 64 (done inputs t).length) ↔
        ∀ t, refused (trace machine inputs t) (inputs t) = false) ∧
      ∀ t, Accounted (trace machine inputs t) (inputs t) := by
  refine ⟨⟨?_,?_⟩,fun t => accounted (admits t)⟩
  · intro agrees t
    have step : trace machine inputs (t + 1) = next (trace machine inputs t) (inputs t) := rfl
    have later := agrees (t + 1)
    rw [step,instret_next (admits t),agrees t,done_next,← BitVec.ofNat_add,← Nat.add_assoc,BitVec.ofNat_add] at later
    cases ahead : refused (trace machine inputs t) (inputs t) with
    | false => rfl
    | true =>
        rw [ahead] at later
        simp at later
  · intro silent t
    rw [instret_run inputs admits t,miscounts_silent silent]
    rfl

theorem address_zero (addr : c.stage.csrAddrGl = 0) (vtype : c.stage.vsetvlVtype = 0) : (portsOf s c).rwAddr = 0 := by
  have command' : ∀ e, (command (commitInput s c) e).addr = 0 := by
    intro e
    have one : (commitInput s c).csrAddrGl = 0 := addr
    have two : (commitInput s c).vsetvlVtype = 0 := vtype
    unfold command
    cases e.instr.instrType <;> simp only [one,two] <;> rfl
  have wanted : (portsOf s c).rwAddr = (((shown s c 0).bind (request (commitInput s c))).map (·.addr)).getD 0 := rfl
  rw [wanted]
  cases shown s c 0 with
  | none => rfl
  | some first =>
      rw [Option.bind_some,request]
      split
      · exact command' first
      · rfl

theorem unaddressed (zero : (portsOf s c).rwAddr = 0) (addr : BitVec 12) (other : addr ≠ 0) :
    CsrBsc.writes addr s.regs.toState (stateInput s.regs (portsOf s c)) = false := by
  have here : (stateInput s.regs (portsOf s c)).rwAddr = 0 := zero
  rw [CsrBsc.writes,here,beq_eq_false_iff_ne.mpr other.symm,Bool.and_false]

theorem inhibit_kept (zero : (portsOf s c).rwAddr = 0) : (next s c).regs.mcountinhibit = s.regs.mcountinhibit := by
  have idle := unaddressed zero CsrFile.csrMcountinhibit (by decide)
  have word : (next s c).regs.mcountinhibit = CsrFile.storedWord CsrFile.csrMcountinhibit s.regs.toFile
    (CsrRegisters.pins s.regs (portsOf s c)) s.regs.mcountinhibit := rfl
  rw [word,CsrFile.storedWord]
  exact if_neg (by rw [show CsrBsc.writes _ _ (CsrFile.input _ _) = false from idle]; exact Bool.false_ne_true)

theorem admits_unaddressed (inputs : Nat → Cycle ports writebacks)
    (zero : ∀ t, (inputs t).stage.csrAddrGl = 0 ∧ (inputs t).stage.vsetvlVtype = 0) : Admits machine inputs := by
  have address : ∀ t, (portsOf (trace machine inputs t) (inputs t)).rwAddr = 0 := fun t => address_zero (zero t).1 (zero t).2
  have counting : ∀ t, (trace machine inputs t).regs.mcountinhibit = 0 := by
    intro t
    induction t with
    | zero => rfl
    | succ t ih => exact (inhibit_kept (address t)).trans ih
  intro t
  refine ⟨?_,?_⟩
  · rw [stores,unaddressed (address t) csrMinstret (by decide)]
    rfl
  · rw [counting t]
    rfl

def restPorts : Ports where
  rwCmd := 0
  rwAddr := 0
  wDataCore := 0
  ex := false
  exCause := 0
  exOrigin := 0
  pc := 0
  retire := 0
  fregModified := false
  fcsrFlagsValid := false
  fcsrFlagsBits := 0
  vregModified := false
  vxsat := false
  debugHaltAck := false
  debugResumeAck := false
  timeIrq := false
  irq := 0
  mSoftIrq := false
  countOvf := false
  mhpmOvfBits := 0
  perfData := 0
  time := 0
  trapVectorAddr := 0
  coreId := 0

def waitingRun (t : Nat) : Cycle one one := ⟨vleffRun t,restPorts⟩

theorem minstret_exact_waiting :
    (((∀ t, (trace machine waitingRun t).regs.instret = BitVec.ofNat 64 (done waitingRun t).length) ↔
          ∀ t, refused (trace machine waitingRun t) (waitingRun t) = false) ∧
        ∀ t, Accounted (trace machine waitingRun t) (waitingRun t)) ∧
      (trace machine waitingRun 2).regs.instret = 0 ∧ (trace machine waitingRun 3).regs.instret = 2 :=
  ⟨minstret_exact waitingRun (admits_unaddressed waitingRun fun _ => ⟨rfl,rfl⟩),by decide,by decide⟩

def ecallRun (t : Nat) : Cycle one one :=
  ⟨pairRun (entry .ecall .notMem true false) zero.entry [⟨.scalar,true,0,Exception.none,⟨false,0,false,0,0,0⟩⟩] t,restPorts⟩

theorem ecall_counted : ¬ ∀ inputs : Nat → Cycle one one, Admits machine inputs →
    ∀ t, (trace machine inputs t).regs.instret = BitVec.ofNat 64 (done inputs t).length := by
  intro all
  have counts := all ecallRun (admits_unaddressed ecallRun fun _ => ⟨rfl,rfl⟩) 3
  exact absurd counts (by decide)

end Sargantana.RetiredInstructions
