import Sargantana.CsrRegisters
import Sargantana.CsrIsolation
import Mathlib.Algebra.GroupWithZero.Nat

-- csr_bsc: where a trap goes, and what it leaves in the registers of its level.
namespace Sargantana.TrapDestination

open CsrFile CsrRegisters
open CsrBsc hiding next reset

def debugEbreakD (s : Regs) (i : Ports) : Bool :=
  match debugEvent s.toState (stateInput s i) with
  | .ebreak | .step => true
  | .halt | .resume => false
  | .none => insnBreak (stateInput s i) && s.debugMode

-- evec_o; programBuffer is PROGRAM_BUFFER_ADDR.
def evecO (programBuffer : BitVec 64) (s : Regs) (i : Ports) : BitVec 64 :=
  if (i.ex || (csrXcpt s.toState (stateInput s i)).isSome) && !s.debugMode then
    (if s.dcsr.step then programBuffer else trapVectorBase s i)
  else if sret s.toState (stateInput s i) then (if s.dcsr.step then programBuffer else s.sepc)
  else if mret s.toState (stateInput s i) then (if s.dcsr.step then programBuffer else s.mepc)
  else if i.debugHaltAck then programBuffer
  else if i.debugResumeAck then s.dpc
  else if s.debugMode then programBuffer
  else if debugEbreakD s i then programBuffer
  else s.mepc

-- The cause of a trap: its code below bit 63, which says that it is an interrupt.
def cause (s : Regs) (i : Ports) : BitVec 64 := trapCause s.toFile (pins s i)

def isInterrupt (cause : BitVec 64) : Bool := cause.getLsbD 63
def code (cause : BitVec 64) : Nat := (cause.setWidth 63).toNat

def isDelegated (s : Regs) (cause : BitVec 64) : Bool :=
  if isInterrupt cause then s.mideleg.getLsbD (code cause) else s.medeleg.getLsbD (code cause)

def handler (s : Regs) (i : Ports) : BitVec 2 := if isDelegated s (cause s i) && decide (s.privLvl ≠ privM) then privS else privM

-- A tvec register holds BASE above its two bits of MODE; mode 1 is the vectored one.
def destination (tvec cause : BitVec 64) : BitVec 64 :=
  (tvec &&& ~~~3#64) + if tvec.getLsbD 0 && isInterrupt cause then 4 * BitVec.ofNat 64 (code cause) else 0

structure SavedS (s t : Regs) (i : Ports) : Prop where
  cause : t.scause = cause s i
  epc : t.sepc = i.pc
  tval : t.stval = exTval s.toFile (pins s i)
  level : t.mstatus.spp = s.privLvl.getLsbD 0
  enable : t.mstatus.sie = false ∧ t.mstatus.spie = s.mstatus.sie
  others : t.mcause = s.mcause ∧ t.mepc = s.mepc ∧ t.mtval = s.mtval
  stack : t.mstatus.mpp = s.mstatus.mpp ∧ t.mstatus.mie = s.mstatus.mie ∧ t.mstatus.mpie = s.mstatus.mpie

structure SavedM (s t : Regs) (i : Ports) : Prop where
  cause : t.mcause = cause s i
  epc : t.mepc = i.pc
  tval : t.mtval = exTval s.toFile (pins s i)
  level : t.mstatus.mpp = s.privLvl
  enable : t.mstatus.mie = false ∧ t.mstatus.mpie = s.mstatus.mie
  others : t.scause = s.scause ∧ t.sepc = s.sepc ∧ t.stval = s.stval
  stack : t.mstatus.spp = s.mstatus.spp ∧ t.mstatus.sie = s.mstatus.sie ∧ t.mstatus.spie = s.mstatus.spie

structure Delivered (programBuffer : BitVec 64) (s : Regs) (i : Ports) : Prop where
  level : trapToPrivLvl s i = handler s i
  reached : (next s i).debugMode = false → (next s i).privLvl = handler s i
  vector : evecO programBuffer s i = destination (if handler s i = privS then s.stvec else s.mtvec) (cause s i)
  supervisor : handler s i = privS → SavedS s (next s i) i
  machine : handler s i = privM → SavedM s (next s i) i

def mtvecValue (w : BitVec 64) : BitVec 64 := if w.getLsbD 0 then w &&& ~~~0xfe#64 else tvec w

structure Trap (s : Regs) (i : Ports) : Prop where
  taken : traps s.toState (stateInput s i) = true
  single : s.dcsr.step = false
  resume : i.debugResumeAck = true → s.debugMode = true ∨ s.dcsr.prv = s.privLvl
  -- csr_interface gives no command with an exception of the core, and causes have six bits.
  alone : i.ex = true → i.rwCmd = 0
  codes : code i.exCause < 64
  mtvec : ∃ w, s.mtvec = mtvecValue w
  stvec : ∃ w, s.stvec = tvec w

def vectoredSupervisor (s : Regs) (i : Ports) : Bool :=
  i.ex && isInterrupt i.exCause && s.mideleg.getLsbD (code i.exCause) && decide (s.privLvl ≠ privM) && s.stvec.getLsbD 0

-- Bits 7 to 2 of the two registers agree, and the cause does not carry out of them.
def Straight (s : Regs) (i : Ports) : Prop :=
  vectoredSupervisor s i = true →
    s.mtvec.extractLsb' 2 6 = s.stvec.extractLsb' 2 6 ∧ (s.stvec.extractLsb' 2 6).toNat + code i.exCause < 64

theorem running {s : Regs} {i : Ports} (trap : Trap s i) : s.debugMode = false := by
  have taken := trap.taken
  rw [traps,Bool.and_eq_true] at taken
  simpa using taken.2

theorem seen_level {s : Regs} {i : Ports} (trap : Trap s i) : privLvlO s.toState (stateInput s i) = s.privLvl := by
  rw [privLvlO]
  split
  · rename_i ack
    exact (trap.resume ack).resolve_left (by rw [running trap]; exact Bool.false_ne_true)
  · rfl

theorem idle_xcpt {s : Regs} {i : Ports} (none' : i.rwCmd = 0) : csrXcpt s.toState (stateInput s i) = none := by
  have cmd : (stateInput s i).rwCmd = 0 := none'
  have we : csrWe s.toState (stateInput s i) = false := by
    rw [csrWe,cmd]
    rfl
  have read : csrRead s.toState (stateInput s i) = false := by
    rw [csrRead,cmd]
    rfl
  have system : systemInsn (stateInput s i) = false := by
    rw [systemInsn,cmd]
    rfl
  have access : (stateInput s i).accessException = false := by
    have update : updateAccessException s.toFile (pins s i) = false := by
      rw [updateAccessException,show csrWe s.toState (command s.toFile (pins s i)) = false from we,Bool.false_and]
    have read' : readAccessException s.toFile (pins s i) = false := by
      rw [readAccessException,show csrRead s.toState (command s.toFile (pins s i)) = false from read,Bool.false_and]
    rw [access_exception,update,read',vsetRefused,vsetvl,none']
    rfl
  have privilege : privilegeViolation s.toState (stateInput s i) = false := by
    rw [privilegeViolation,cmd,system]
    simp [insnSfenceVm,insnSret,insnIs,system]
  simp [csrXcpt,access,privilege,insnCall,insnBreak,insnWfi,insnIs,system]

theorem sole {s : Regs} {i : Ports} (trap : Trap s i) (ex : i.ex = true) : csrXcpt s.toState (stateInput s i) = none :=
  idle_xcpt (trap.alone ex)

-- The exceptions of the CSR file are illegal instructions, breakpoints and environment calls.
theorem xcpt_plain {s : State} {i : Input} {c : BitVec 64} (raised : csrXcpt s i = some c) : isInterrupt c = false ∧ code c < 64 := by
  have calls : ∀ lvl : BitVec 2, isInterrupt (userEcall + lvl.setWidth 64) = false ∧ code (userEcall + lvl.setWidth 64) < 64 := by decide
  unfold csrXcpt at raised
  split at raised
  · cases raised
    decide
  · split at raised
    · cases raised
      decide
    · split at raised
      · cases raised
        exact calls s.privLvl
      · split at raised
        · split at raised
          · cases raised
            decide
          · cases raised
        · split at raised
          · cases raised
            decide
          · cases raised

theorem cause_raised {s : Regs} {i : Ports} {c : BitVec 64} (raised : csrXcpt s.toState (stateInput s i) = some c) : cause s i = c := by
  change (csrXcpt s.toState (stateInput s i)).getD i.exCause = c
  rw [raised]
  rfl

theorem cause_reported {s : Regs} {i : Ports} (quiet : csrXcpt s.toState (stateInput s i) = none) : cause s i = i.exCause := by
  change (csrXcpt s.toState (stateInput s i)).getD i.exCause = i.exCause
  rw [quiet]
  rfl

-- A code of six bits selects its own bit of the delegation registers.
theorem delegated_code {s : Regs} {c : BitVec 64} (short : code c < 64) : delegated s.toState c = isDelegated s c := by
  have low : c.toNat % 64 = code c := by
    have narrow : code c = c.toNat % 2 ^ 63 := by rw [code,BitVec.toNat_setWidth]
    omega
  rw [delegated,isDelegated,isInterrupt,low]

theorem trap_cause {s : Regs} {i : Ports} (trap : Trap s i) :
    (i.ex = true ∧ csrXcpt s.toState (stateInput s i) = none) ∨
      (i.ex = false ∧ ∃ c, csrXcpt s.toState (stateInput s i) = some c) := by
  cases ex : i.ex with
  | true => exact .inl ⟨rfl,sole trap ex⟩
  | false =>
      have taken := trap.taken
      have core : (stateInput s i).ex = false := ex
      rw [traps,core,Bool.and_false,Bool.false_or,Bool.and_eq_true] at taken
      exact .inr ⟨rfl,Option.isSome_iff_exists.mp taken.1⟩

theorem trap_handler {s : Regs} {i : Ports} (trap : Trap s i) : trapToPrivLvl s i = handler s i := by
  have deleg : ((stateInput s i).ex && delegated s.toState (stateInput s i).exCause ||
      (csrXcpt s.toState (stateInput s i)).any (delegated s.toState)) = isDelegated s (cause s i) := by
    change (i.ex && delegated s.toState i.exCause || _) = _
    rcases trap_cause trap with ⟨ex,quiet⟩ | ⟨ex,c,raised⟩
    · rw [ex,quiet,cause_reported quiet,delegated_code trap.codes]
      simp
    · rw [ex,raised,cause_raised raised]
      simp [delegated_code (xcpt_plain raised).2]
  rw [trapToPrivLvl,if_pos trap.taken,trapTo,deleg,seen_level trap,handler]
  cases isDelegated s (cause s i) with
  | false => rfl
  | true => by_cases top : s.privLvl = privM <;> simp [top]

theorem evec_trap {s : Regs} {i : Ports} (programBuffer : BitVec 64) (trap : Trap s i) : evecO programBuffer s i = trapVectorBase s i := by
  have some' : (i.ex || (csrXcpt s.toState (stateInput s i)).isSome) = true := by
    rcases trap_cause trap with ⟨ex,-⟩ | ⟨-,c,raised⟩
    · rw [ex]
      rfl
    · rw [raised]
      simp
  rw [evecO,some',running trap,trap.single]
  rfl

theorem joined_toNat (v : BitVec 64) (m : BitVec 6) :
    (v.extractLsb' 8 56 ++ m ++ 0#2).toNat = v.toNat / 256 * 256 + m.toNat * 4 := by
  have low := m.isLt
  have word := v.isLt
  rw [BitVec.toNat_append,BitVec.toNat_append,BitVec.extractLsb'_toNat,Nat.shiftLeft_eq,Nat.shiftLeft_eq]
  simp only [BitVec.toNat_ofNat,Nat.zero_mod,Nat.or_zero,Nat.shiftRight_eq_div_pow]
  have top : v.toNat / 2 ^ 8 % 2 ^ 56 = v.toNat / 256 := by omega
  rw [top,Nat.mul_comm (v.toNat / 256),← Nat.two_pow_add_eq_or_of_lt low]
  omega

theorem base_toNat (v : BitVec 64) : (v &&& ~~~3#64).toNat = v.toNat / 4 * 4 := by
  have word := v.isLt
  have cleared : v &&& ~~~3#64 = (v >>> 2) <<< 2 := by
    ext k inside
    simp only [BitVec.getElem_and,BitVec.getElem_not,BitVec.getElem_shiftLeft,BitVec.getElem_ushiftRight]
    by_cases low : k < 2
    · obtain rfl | rfl : k = 0 ∨ k = 1 := by omega
      · simp
      · simp
    · have clear : (3#64)[k] = false := by
        rw [← BitVec.getLsbD_eq_getElem]
        have small : (3#64).toNat < 2 ^ k := lt_of_lt_of_le (by decide : 3 < 2 ^ 2) (Nat.pow_le_pow_right (by decide) (by omega))
        rw [BitVec.getLsbD,Nat.testBit_lt_two_pow small]
      rw [clear,decide_eq_false low,BitVec.getLsbD_eq_getElem (by omega)]
      simp [show 2 + (k - 2) = k by omega]
  rw [cleared,BitVec.toNat_shiftLeft,BitVec.toNat_ushiftRight,Nat.shiftLeft_eq,Nat.shiftRight_eq_div_pow]
  omega

theorem direct_base (v : BitVec 64) : v.extractLsb' 8 56 ++ v.extractLsb' 2 6 ++ 0#2 = v &&& ~~~3#64 := by
  apply BitVec.eq_of_toNat_eq
  rw [joined_toNat,base_toNat,BitVec.extractLsb'_toNat,Nat.shiftRight_eq_div_pow]
  omega

theorem sum_base (v m : BitVec 64) (c : BitVec 64) (short : code c < 64) :
    v.extractLsb' 8 56 ++ (m.extractLsb' 2 6 + c.extractLsb' 0 6) ++ 0#2 = (v &&& ~~~3#64) + 4 * BitVec.ofNat 64 (code c) ↔
      m.extractLsb' 2 6 = v.extractLsb' 2 6 ∧ (v.extractLsb' 2 6).toNat + code c < 64 := by
  have word := v.isLt
  have low : c.toNat % 64 = code c := by
    have narrow : code c = c.toNat % 2 ^ 63 := by rw [code,BitVec.toNat_setWidth]
    omega
  have four : (4 : BitVec 64).toNat = 4 := rfl
  rw [← BitVec.toNat_inj,joined_toNat,← BitVec.toNat_inj]
  simp only [BitVec.toNat_add,BitVec.toNat_mul,BitVec.toNat_ofNat,base_toNat,BitVec.extractLsb'_toNat,Nat.shiftRight_eq_div_pow,
    Nat.pow_zero,Nat.div_one,four]
  rw [show c.toNat % 2 ^ 6 = code c from low]
  omega

theorem mode_zero {v : BitVec 64} (reserved : v.getLsbD 1 = false) : decide (v.extractLsb' 0 2 = 0) = !v.getLsbD 0 := by
  have two : ∀ m : BitVec 2, m.getLsbD 1 = false → decide (m = 0) = !m.getLsbD 0 := by decide
  have second : (v.extractLsb' 0 2).getLsbD 1 = false := by simpa using reserved
  rw [two _ second]
  simp

theorem mtvec_value (w : BitVec 64) : (mtvecValue w).getLsbD 1 = false ∧
    ((mtvecValue w).getLsbD 0 = true → (mtvecValue w).extractLsb' 2 6 = 0) := by
  have clears : ∀ k, k < 64 → (0xfe#64).getLsbD k = true → (w &&& ~~~0xfe#64).getLsbD k = false := by
    intro k inside set
    rw [BitVec.getLsbD_and,BitVec.getLsbD_not,set,decide_eq_true inside]
    simp
  unfold mtvecValue
  split
  · refine ⟨clears 1 (by decide) (by decide),fun _ => ?_⟩
    apply BitVec.eq_of_getLsbD_eq
    intro k inside
    have middle : ∀ k < 6, (0xfe#64).getLsbD (2 + k) = true := by decide
    rw [BitVec.getLsbD_extractLsb',decide_eq_true inside,clears (2 + k) (by omega) (middle k inside)]
    simp
  · rename_i direct
    refine ⟨by simp [tvec],fun vectored => absurd ?_ direct⟩
    simpa [tvec] using vectored

theorem stvec_value (w : BitVec 64) : (tvec w).getLsbD 1 = false := by simp [tvec]

-- The address for a tvec register is the one that its mode asks for, unless the sum in bits 7 to 2 misses it.
theorem tvec_base {s : Regs} {i : Ports} (trap : Trap s i) {v : BitVec 64} (reserved : v.getLsbD 1 = false) :
    tvecBase s i v = destination v (cause s i) ↔
      (i.ex = true → isInterrupt i.exCause = true → v.getLsbD 0 = true →
        s.mtvec.extractLsb' 2 6 = v.extractLsb' 2 6 ∧ (v.extractLsb' 2 6).toNat + code i.exCause < 64) := by
  have direct : ∀ c, (v.getLsbD 0 && isInterrupt c) = false →
      v.extractLsb' 8 56 ++ v.extractLsb' 2 6 ++ 0#2 = destination v c := by
    intro c plain
    rw [destination,plain,direct_base,if_neg Bool.false_ne_true]
    exact (BitVec.add_zero _).symm
  rw [tvecBase,mode_zero reserved]
  rcases trap_cause trap with ⟨ex,quiet⟩ | ⟨ex,c,raised⟩
  · rw [quiet,cause_reported quiet,ex]
    cases interrupt : isInterrupt i.exCause with
    | false =>
        have clear : i.exCause.getLsbD 63 = false := interrupt
        rw [clear,Bool.not_false,Bool.or_true,if_pos rfl]
        exact iff_of_true (direct _ (by rw [interrupt,Bool.and_false])) (fun _ absurd' => Bool.noConfusion absurd')
    | true =>
        have set : i.exCause.getLsbD 63 = true := interrupt
        cases mode : v.getLsbD 0 with
        | false =>
            exact iff_of_true (direct _ (by rw [mode,Bool.false_and])) (fun _ _ absurd' => Bool.noConfusion absurd')
        | true =>
            rw [set,destination,mode,interrupt]
            refine (sum_base v s.mtvec i.exCause trap.codes).trans ?_
            exact ⟨fun both _ _ _ => both,fun both => both rfl rfl rfl⟩
  · have plain := (xcpt_plain raised).1
    rw [raised,cause_raised raised,ex,Option.isSome_some,Bool.or_true,Bool.true_or,if_pos rfl]
    exact iff_of_true (direct _ (by rw [plain,Bool.and_false])) (fun absurd' => Bool.noConfusion absurd')

theorem vector_exact {s : Regs} {i : Ports} (programBuffer : BitVec 64) (trap : Trap s i) :
    evecO programBuffer s i = destination (if handler s i = privS then s.stvec else s.mtvec) (cause s i) ↔ Straight s i := by
  obtain ⟨w,written⟩ := trap.mtvec
  obtain ⟨x,written'⟩ := trap.stvec
  rw [evec_trap programBuffer trap,trapVectorBase,trap_handler trap,Straight]
  have reported : i.ex = true → cause s i = i.exCause := fun ex => cause_reported (sole trap ex)
  by_cases supervisor : handler s i = privS
  · rw [if_pos supervisor,if_pos supervisor,tvec_base trap (written' ▸ stvec_value x)]
    have below : isDelegated s (cause s i) = true ∧ s.privLvl ≠ privM := by
      rw [handler] at supervisor
      split at supervisor
      · rename_i both
        simpa using both
      · cases supervisor
    constructor
    · intro every vectored
      rw [vectoredSupervisor] at vectored
      simp only [Bool.and_eq_true] at vectored
      exact every vectored.1.1.1.1 vectored.1.1.1.2 vectored.2
    · intro every ex interrupt mode
      have deleg := below.1
      rw [reported ex,isDelegated,if_pos interrupt] at deleg
      exact every (by rw [vectoredSupervisor,ex,interrupt,deleg,mode,decide_eq_true below.2]; rfl)
  · rw [if_neg supervisor,if_neg supervisor,tvec_base trap (written ▸ (mtvec_value w).1)]
    constructor
    · intro _ vectored
      refine absurd ?_ supervisor
      rw [vectoredSupervisor] at vectored
      simp only [Bool.and_eq_true] at vectored
      have deleg : isDelegated s (cause s i) = true := by
        rw [reported vectored.1.1.1.1,isDelegated,if_pos vectored.1.1.1.2]
        exact vectored.1.1.2
      rw [handler,deleg,vectored.1.2]
      rfl
    · intro _ _ _ mode
      have zero : s.mtvec.extractLsb' 2 6 = 0 := by
        rw [written] at mode ⊢
        exact (mtvec_value w).2 mode
      refine ⟨rfl,?_⟩
      rw [zero]
      simpa using trap.codes

theorem trap_unwritten {s : Regs} {i : Ports} (trap : Trap s i) {addr : BitVec 12} (can : granted s addr = true) :
    writes addr s.toState (stateInput s i) = false := by
  rcases trap_cause trap with ⟨ex,-⟩ | ⟨-,c,raised⟩
  · have cmd : (stateInput s i).rwCmd = 0 := trap.alone ex
    rw [writes,csrWe,cmd]
    rfl
  · exact xcpt_unwritten (by rw [raised]; rfl) can

theorem trap_mstatus {s : Regs} {i : Ports} (trap : Trap s i) :
    (mstatusDirty s.toState (stateInput s i)).mie = s.mstatus.mie ∧ (mstatusDirty s.toState (stateInput s i)).mpie = s.mstatus.mpie ∧
    (mstatusDirty s.toState (stateInput s i)).mpp = s.mstatus.mpp ∧ (mstatusDirty s.toState (stateInput s i)).sie = s.mstatus.sie ∧
    (mstatusDirty s.toState (stateInput s i)).spie = s.mstatus.spie ∧ (mstatusDirty s.toState (stateInput s i)).spp = s.mstatus.spp := by
  have whole : writes csrMstatus s.toState (stateInput s i) = false := trap_unwritten trap rfl
  have part : writes csrSstatus s.toState (stateInput s i) = false := trap_unwritten trap rfl
  simp [mstatusDirty,mstatusInt,whole,part]

theorem trap_to {s : Regs} {i : Ports} (trap : Trap s i) : trapTo s.toState (stateInput s i) = handler s i := by
  rw [← trap_handler trap,trapToPrivLvl,if_pos trap.taken]

theorem saved_supervisor {s : Regs} {i : Ports} (trap : Trap s i) (supervisor : handler s i = privS) : SavedS s (next s i) i := by
  obtain ⟨mie,mpie,mpp,sie,spie,spp⟩ := trap_mstatus trap
  have goes := (trap_to trap).trans supervisor
  have here : trapsS s.toFile (pins s i) = true := by
    change (traps s.toState (stateInput s i) && decide (trapTo s.toState (stateInput s i) = privS)) = true
    rw [trap.taken,goes]
    rfl
  have there : trapsM s.toFile (pins s i) = false := by
    change (traps s.toState (stateInput s i) && decide (trapTo s.toState (stateInput s i) ≠ privS)) = false
    rw [goes]
    simp
  have status : (next s i).mstatus = { mstatusDirty s.toState (stateInput s i) with
      sie := false, spie := s.mstatus.sie, spp := s.privLvl.getLsbD 0 } := by
    change (CsrBsc.next s.toState (stateInput s i)).mstatus = _
    rw [CsrIsolation.next_mstatus (running trap),returned,if_pos trap.taken,if_pos goes]
  have kept : ∀ addr, granted s addr = true → writes addr s.toState (input s.toFile (pins s i)) = false :=
    fun addr can => trap_unwritten trap can
  refine ⟨?_,?_,?_,by rw [status],by rw [status]; exact ⟨rfl,rfl⟩,⟨?_,?_,?_⟩,by rw [status]; exact ⟨mpp,mie,mpie⟩⟩
  · change (if trapsS s.toFile (pins s i) then _ else _) = _
    rw [here]
    rfl
  · change (if trapsS s.toFile (pins s i) then _ else _) = _
    rw [here]
    rfl
  · change (if trapsS s.toFile (pins s i) then _ else _) = _
    rw [here]
    rfl
  · change (if trapsM s.toFile (pins s i) then _ else stored _ _ _ _) = _
    rw [there,if_neg Bool.false_ne_true,stored,kept csrMcause rfl,if_neg Bool.false_ne_true]
  · change (if trapsM s.toFile (pins s i) then _ else if writes csrMepc s.toState (input s.toFile (pins s i)) then _ else _) = _
    rw [there,if_neg Bool.false_ne_true,kept csrMepc rfl,if_neg Bool.false_ne_true]
  · change (if trapsM s.toFile (pins s i) then _ else stored _ _ _ _) = _
    rw [there,if_neg Bool.false_ne_true,stored,kept csrMtval rfl,if_neg Bool.false_ne_true]

theorem saved_machine {s : Regs} {i : Ports} (trap : Trap s i) (top : handler s i = privM) : SavedM s (next s i) i := by
  obtain ⟨mie,mpie,mpp,sie,spie,spp⟩ := trap_mstatus trap
  have goes := (trap_to trap).trans top
  have other : ¬ privM = privS := by decide
  have here : trapsM s.toFile (pins s i) = true := by
    change (traps s.toState (stateInput s i) && decide (trapTo s.toState (stateInput s i) ≠ privS)) = true
    rw [trap.taken,goes]
    rfl
  have there : trapsS s.toFile (pins s i) = false := by
    change (traps s.toState (stateInput s i) && decide (trapTo s.toState (stateInput s i) = privS)) = false
    rw [goes]
    exact Bool.and_false _
  have status : (next s i).mstatus = { mstatusDirty s.toState (stateInput s i) with
      mie := false, mpie := s.mstatus.mie, mpp := s.privLvl } := by
    change (CsrBsc.next s.toState (stateInput s i)).mstatus = _
    rw [CsrIsolation.next_mstatus (running trap),returned,if_pos trap.taken,goes,if_neg other]
  have kept : ∀ addr, granted s addr = true → writes addr s.toState (input s.toFile (pins s i)) = false :=
    fun addr can => trap_unwritten trap can
  refine ⟨?_,?_,?_,by rw [status],by rw [status]; exact ⟨rfl,rfl⟩,⟨?_,?_,?_⟩,by rw [status]; exact ⟨spp,sie,spie⟩⟩
  · change (if trapsM s.toFile (pins s i) then _ else _) = _
    rw [here]
    rfl
  · change (if trapsM s.toFile (pins s i) then _ else _) = _
    rw [here]
    rfl
  · change (if trapsM s.toFile (pins s i) then _ else _) = _
    rw [here]
    rfl
  · change (if trapsS s.toFile (pins s i) then _ else stored _ _ _ _) = _
    rw [there,if_neg Bool.false_ne_true,stored,kept csrScause rfl,if_neg Bool.false_ne_true]
  · change (if trapsS s.toFile (pins s i) then _ else if writes csrSepc s.toState (input s.toFile (pins s i)) then _ else _) = _
    rw [there,if_neg Bool.false_ne_true,kept csrSepc rfl,if_neg Bool.false_ne_true]
  · change (if trapsS s.toFile (pins s i) then _ else stored _ _ _ _) = _
    rw [there,if_neg Bool.false_ne_true,stored,kept csrStval rfl,if_neg Bool.false_ne_true]

theorem trap_reached {s : Regs} {i : Ports} (trap : Trap s i) (outside : (next s i).debugMode = false) :
    (next s i).privLvl = handler s i := by
  have level : (returned s.toState (stateInput s i)).1 = handler s i := by
    rw [returned,if_pos trap.taken,← trap_to trap]
    split
    · rename_i supervisor
      exact supervisor.symm
    · rfl
  change (CsrBsc.next s.toState (stateInput s i)).debugMode = false at outside
  change (CsrBsc.next s.toState (stateInput s i)).privLvl = _
  unfold CsrBsc.next at outside ⊢
  cases event : debugEvent s.toState (stateInput s i) with
  | ebreak | halt | step =>
      rw [event] at outside
      cases outside
  | resume =>
      have stopped := CsrPrivilege.resume_debug event
      rw [running trap] at stopped
      exact absurd stopped (by simp)
  | none => exact level

theorem trap_delivered (programBuffer : BitVec 64) (s : Regs) (i : Ports) (trap : Trap s i) :
    Delivered programBuffer s i ↔ Straight s i := by
  constructor
  · intro delivered
    exact (vector_exact programBuffer trap).mp delivered.vector
  · intro straight
    exact ⟨trap_handler trap,trap_reached trap,(vector_exact programBuffer trap).mpr straight,saved_supervisor trap,saved_machine trap⟩

def supervised (mtvec : BitVec 64) : Regs :=
  { CsrRegisters.reset with
    toFile := { CsrFile.reset with privLvl := privU, mideleg := 2, mtvecRstLoad := false, mtvec := mtvec, stvec := 0x80000001 } }

def softwareInterrupt : Ports where
  rwCmd := 0
  rwAddr := 0
  wDataCore := 0
  ex := true
  exCause := 0x8000000000000001
  exOrigin := 0
  pc := 0x100
  retire := 0
  fregModified := false
  fcsrFlagsValid := false
  fcsrFlagsBits := 0
  vregModified := false
  vxsat := false
  debugHaltAck := false
  debugResumeAck := false
  timeIrq := false
  irq := 0
  mSoftIrq := false
  countOvf := false
  mhpmOvfBits := 0
  perfData := 0
  time := 0
  trapVectorAddr := 0
  coreId := 0

theorem supervised_trap (mtvec : BitVec 64) (value : ∃ w, mtvec = mtvecValue w) : Trap (supervised mtvec) softwareInterrupt where
  taken := by
    have quiet : csrXcpt (supervised mtvec).toState (stateInput (supervised mtvec) softwareInterrupt) = none := idle_xcpt rfl
    rw [traps,quiet]
    rfl
  single := rfl
  resume := fun ack => Bool.noConfusion ack
  alone := fun _ => rfl
  codes := by decide
  mtvec := value
  stvec := ⟨0x80000001,(by decide : (0x80000001 : BitVec 64) = tvec 0x80000001)⟩

theorem trap_delivered_aligned : Delivered 0x400 (supervised 0x1000) softwareInterrupt :=
  (trap_delivered 0x400 (supervised 0x1000) softwareInterrupt (supervised_trap 0x1000 ⟨0x1000,by decide⟩)).mpr
    fun _ => ⟨by decide,by decide⟩

-- With mtvec at 0x1040 the supervisor's handler of the interrupt is missed by 0x40.
theorem trap_delivered_fails : ¬ ∀ programBuffer s i, Trap s i → Delivered programBuffer s i := by
  intro every
  have missed := (every 0x400 (supervised 0x1040) softwareInterrupt (supervised_trap 0x1040 ⟨0x1040,by decide⟩)).vector
  rw [evec_trap _ (supervised_trap 0x1040 ⟨0x1040,by decide⟩)] at missed
  revert missed
  decide

end Sargantana.TrapDestination
