import Sargantana.CsrFile

-- csr_bsc: the pending interrupts under a write of software, and the interrupt that the core is asked to take.
namespace Sargantana.CsrInterrupts

open CsrFile
open CsrBsc hiding next reset

def writesMip (f : File) (p : Pins) : Bool := writes csrMip f.toState (input f p) || writes csrSip f.toState (input f p)

-- The bits of mip that software can write through the address of the access
def writable (f : File) (p : Pins) : BitVec 64 := if p.rwAddr = csrSip then softwareMask &&& f.mideleg else supervisorMask

def selects (f : File) (p : Pins) (k : Nat) : Bool :=
  (writable f p).getLsbD k && (!(p.rwCmd == 2 || p.rwCmd == 3) || p.wDataCore.getLsbD k)

def asked (p : Pins) (k : Nat) : Bool := if p.rwCmd = 2 then true else if p.rwCmd = 3 then false else p.wDataCore.getLsbD k

-- The inputs that make an interrupt pending: irq_q[0], time_irq_i, m_soft_irq_i and perf_count_ovf_int_req_i
def arrives (f : File) (p : Pins) : Nat → Bool
  | 11 => f.irq.getLsbD 0
  | 7 => p.timeIrq
  | 3 => p.mSoftIrq
  | 13 => p.countOvf
  | _ => false

structure Kept (f : File) (p : Pins) : Prop where
  external : (next f p).mip.getLsbD 11 = arrives f p 11
  timer : (next f p).mip.getLsbD 7 = arrives f p 7
  software : (next f p).mip.getLsbD 3 = arrives f p 3
  data : ∀ k, selects f p k = true → (next f p).mip.getLsbD k = asked p k
  overflow : arrives f p 13 = true → (next f p).mip.getLsbD 13 = true
  event : ∀ k, arrives f p k = true → selects f p k = false → (next f p).mip.getLsbD k = true

-- The lines that a write of mip overwrites already read as they are driven.
structure Settled (f : File) (p : Pins) : Prop where
  external : f.mip.getLsbD 11 = f.irq.getLsbD 0
  timer : f.mip.getLsbD 7 = p.timeIrq
  software : f.mip.getLsbD 3 = p.mSoftIrq
  overflow : p.countOvf = true → (if selects f p 13 then asked p 13 else f.mip.getLsbD 13) = true

theorem reads_written {f : File} {p : Pins} (write : csrWe f.toState (input f p) = true) (command : p.rwCmd ∈ [2,3]) :
    csrRead f.toState (input f p) = true := by
  simp only [csrWe,csrRead,Bool.and_eq_true,decide_eq_true_eq] at write ⊢
  refine ⟨?_,write.2⟩
  have same : (input f p).rwCmd = p.rwCmd := rfl
  rw [same]
  rcases List.mem_cons.mp command with two | rest
  · rw [two]
    decide
  · rw [List.mem_singleton.mp rest]
    decide

theorem mip_rdata {f : File} {p : Pins} (here : p.rwAddr = csrMip) :
    csrRdata f.toState (input f p) = if csrRead f.toState (input f p) then f.mip else 0 := by
  refine register_rdata ?_ ?_
  · rw [here]
    rfl
  · rw [here]
    decide

theorem rdata_bit {f : File} {p : Pins} {k : Nat} (write : writesMip f p = true) (command : p.rwCmd ∈ [2,3])
    (can : (writable f p).getLsbD k = true) : (csrRdata f.toState (input f p)).getLsbD k = f.mip.getLsbD k := by
  rw [writesMip,Bool.or_eq_true] at write
  rcases write with mip | sip
  · have read : csrRead f.toState (input f p) = true := by
      rw [writes,Bool.and_eq_true] at mip
      exact reads_written mip.1 command
    rw [mip_rdata (write_parts mip).1,if_pos read]
  · have read : csrRead f.toState (input f p) = true := by
      rw [writes,Bool.and_eq_true] at sip
      exact reads_written sip.1 command
    have here : p.rwAddr = csrSip := (write_parts sip).1
    rw [writable,if_pos here,BitVec.getLsbD_and,Bool.and_eq_true] at can
    rw [sip_rdata here,if_pos read,BitVec.getLsbD_and,can.2,Bool.and_true]

-- A write replaces the bits that it selects and takes all the others from the register as it was.
theorem mip_bit {f : File} {p : Pins} (k : Nat) (inside : k < 64) (write : writesMip f p = true) :
    (next f p).mip.getLsbD k = if selects f p k then asked p k else f.mip.getLsbD k := by
  have whole : (next f p).mip = written (writable f p) f.mip (csrWdata f.toState (input f p)) := by
    change nextMip f p = _
    simp only [writesMip,Bool.or_eq_true] at write
    simp only [nextMip]
    by_cases sip : writes csrSip f.toState (input f p) = true
    · have here : p.rwAddr = csrSip := (write_parts sip).1
      rw [if_pos sip,writable,if_pos here]
    · have mip := write.resolve_right sip
      have here : p.rwAddr = csrMip := (write_parts mip).1
      rw [if_neg sip,if_pos mip,writable,here,if_neg (by decide)]
  rw [whole,written_bit _ _ _ inside,selects]
  cases can : (writable f p).getLsbD k with
  | false => rfl
  | true =>
      have cmd : (input f p).rwCmd = p.rwCmd := rfl
      have data : (input f p).wDataCore = p.wDataCore := rfl
      by_cases two : p.rwCmd = 2
      · have listed : p.rwCmd ∈ [2,3] := by rw [two]; decide
        have set : (p.rwCmd == 2 || p.rwCmd == 3) = true := by rw [two]; rfl
        rw [csrWdata,cmd,if_pos two,data,BitVec.getLsbD_or,rdata_bit write listed can,set,asked,if_pos two]
        cases p.wDataCore.getLsbD k <;> simp
      · by_cases three : p.rwCmd = 3
        · have listed : p.rwCmd ∈ [2,3] := by rw [three]; decide
          have set : (p.rwCmd == 2 || p.rwCmd == 3) = true := by rw [three]; rfl
          rw [csrWdata,cmd,if_neg two,if_pos three,data,BitVec.getLsbD_and,BitVec.getLsbD_not,decide_eq_true inside,
            rdata_bit write listed can,set,asked,if_neg two,if_pos three]
          cases p.wDataCore.getLsbD k <;> simp
        · have unset : (p.rwCmd == 2 || p.rwCmd == 3) = false := by
            rw [beq_eq_false_iff_ne.mpr two,beq_eq_false_iff_ne.mpr three]
            rfl
          rw [csrWdata,cmd,if_neg two,if_neg three,data,unset,asked,if_neg two,if_neg three]
          rfl

theorem selects_writable {f : File} {p : Pins} {k : Nat} (selected : selects f p k = true) : supervisorMask.getLsbD k = true := by
  rw [selects,Bool.and_eq_true,writable] at selected
  have can := selected.1
  split at can
  · rw [BitVec.getLsbD_and,Bool.and_eq_true] at can
    have low := BitVec.lt_of_getLsbD can.1
    have part : softwareMask &&& supervisorMask = softwareMask := by decide
    rw [← part,BitVec.getLsbD_and,Bool.and_eq_true] at can
    exact can.1.2
  · exact can

theorem levels_unselected (f : File) (p : Pins) : selects f p 11 = false ∧ selects f p 7 = false ∧ selects f p 3 = false := by
  have closed : ∀ k, supervisorMask.getLsbD k = false → selects f p k = false := by
    intro k clear
    by_contra selected
    rw [selects_writable (Bool.not_eq_false _ ▸ selected)] at clear
    cases clear
  exact ⟨closed 11 (by decide),closed 7 (by decide),closed 3 (by decide)⟩

theorem pending_kept (f : File) (p : Pins) (write : writesMip f p = true) : Kept f p ↔ Settled f p := by
  obtain ⟨eleven,seven,three⟩ := levels_unselected f p
  have bit := fun k inside => mip_bit (f := f) (p := p) k inside write
  constructor
  · intro kept
    refine ⟨?_,?_,?_,fun arrived => ?_⟩
    · have level := kept.external
      rwa [bit 11 (by decide),eleven,if_neg Bool.false_ne_true] at level
    · have level := kept.timer
      rwa [bit 7 (by decide),seven,if_neg Bool.false_ne_true] at level
    · have level := kept.software
      rwa [bit 3 (by decide),three,if_neg Bool.false_ne_true] at level
    · have set := kept.overflow arrived
      rwa [bit 13 (by decide)] at set
  · intro settled
    have external : (next f p).mip.getLsbD 11 = arrives f p 11 := by
      rw [bit 11 (by decide),eleven,if_neg Bool.false_ne_true,settled.external,arrives]
    have timer : (next f p).mip.getLsbD 7 = arrives f p 7 := by
      rw [bit 7 (by decide),seven,if_neg Bool.false_ne_true,settled.timer,arrives]
    have software : (next f p).mip.getLsbD 3 = arrives f p 3 := by
      rw [bit 3 (by decide),three,if_neg Bool.false_ne_true,settled.software,arrives]
    have overflow : arrives f p 13 = true → (next f p).mip.getLsbD 13 = true := by
      intro arrived
      rw [bit 13 (by decide)]
      exact settled.overflow arrived
    refine ⟨external,timer,software,fun k selected => ?_,overflow,fun k arrived free => ?_⟩
    · have inside : k < 64 := BitVec.lt_of_getLsbD (selects_writable selected)
      rw [bit k inside,if_pos selected]
    · unfold arrives at arrived
      split at arrived
      · exact external.trans arrived
      · exact timer.trans arrived
      · exact software.trans arrived
      · exact overflow arrived
      · cases arrived

def setsSsip (timer overflow : Bool) : Pins where
  rwCmd := 2
  rwAddr := csrMip
  wDataCore := 2
  ex := false
  exCause := 0
  exOrigin := 0
  pc := 0
  retire := true
  fregModified := false
  vregModified := false
  debugHaltAck := false
  debugResumeAck := false
  timeIrq := timer
  irq := 0
  mSoftIrq := false
  countOvf := overflow
  trapVectorAddr := 0
  otherRead := fun _ => none
  otherWritten := fun _ => false
  vsetRefused := false
  vl := 0

theorem pending_kept_set : Kept { reset with mip := 0x80 } (setsSsip true false) :=
  (pending_kept { reset with mip := 0x80 } (setsSsip true false) (by decide)).mpr
    ⟨by decide,by decide,by decide,by decide⟩

-- A counter that overflows in the cycle of the set is lost.
theorem pending_kept_fails : ¬ ∀ f p, writesMip f p = true → Kept f p := by
  intro every
  have lost := (every reset (setsSsip false true) (by decide)).overflow rfl
  revert lost
  decide

-- MEI, MSI, MTI, SEI, SSI, STI and LCOFI, in the order in which csr_update asks for them
def sources : List Nat := [11,3,7,9,1,5,13]

-- mip_q and mie_q at a source; the line of SEI counts like its bit.
def pending (f : File) (k : Nat) : Bool := f.mie.getLsbD k && (f.mip.getLsbD k || (decide (k = 9) && f.irq.getLsbD 1))

-- interrupt_cause, by the number of its source
def interruptCause (f : File) : Option Nat := sources.find? (pending f)

def causeOf (k : Nat) : BitVec 64 := 1#1 ++ BitVec.ofNat 63 k

def globalEnable (f : File) (p : Pins) : Bool :=
  let lvl := privLvlO f.toState (input f p)
  ((f.mstatus.mie && decide (lvl = privM)) || decide (lvl ≠ privM)) && !f.debugMode && !f.dcsr.step

def delegatedEnable (f : File) (k : Nat) : Bool :=
  !f.mideleg.getLsbD k || (f.mstatus.sie && decide (f.privLvl = privS)) || decide (f.privLvl = privU)

structure Request where
  interrupt : Bool
  cause : BitVec 64

def nextRequest (f : File) (p : Pins) (r : Request) : Request :=
  match interruptCause f with
  | some k => if globalEnable f p && delegatedEnable f k then ⟨true,causeOf k⟩ else ⟨false,r.cause⟩
  | none => ⟨false,r.cause⟩

def takeable (f : File) (lvl : BitVec 2) (k : Nat) : Bool :=
  !f.debugMode && !f.dcsr.step &&
    if f.mideleg.getLsbD k then decide (lvl = privU) || (decide (lvl = privS) && f.mstatus.sie)
    else decide (lvl.toNat < privM.toNat) || f.mstatus.mie

def due (f : File) (lvl : BitVec 2) (k : Nat) : Bool := pending f k && takeable f lvl k

structure Selected (f : File) (p : Pins) (r : Request) : Prop where
  raised : (nextRequest f p r).interrupt = true ↔ ∃ k ∈ sources, due f f.privLvl k = true
  highest : (nextRequest f p r).interrupt = true → some (nextRequest f p r).cause = (sources.find? (due f f.privLvl)).map causeOf

-- The first pending interrupt cannot be taken, and one behind it has to be.
def Hides (f : File) : Prop :=
  ∃ top, interruptCause f = some top ∧ takeable f f.privLvl top = false ∧ ∃ k ∈ sources, due f f.privLvl k = true

theorem find_both {α : Type} {xs : List α} {p q : α → Bool} {a : α} (first : xs.find? p = some a) (both : q a = true) :
    xs.find? (fun x => p x && q x) = some a := by
  induction xs with
  | nil => cases first
  | cons x rest ih =>
      cases here : p x with
      | true =>
          rw [List.find?_cons_of_pos here] at first
          cases first
          rw [List.find?_cons_of_pos (by rw [here,both]; rfl)]
      | false =>
          rw [List.find?_cons_of_neg (by rw [here]; exact Bool.false_ne_true)] at first
          rw [List.find?_cons_of_neg (by rw [here]; exact Bool.false_ne_true)]
          exact ih first

-- The two enables together ask for exactly what makes an interrupt takeable.
theorem enables_takeable {f : File} {p : Pins} (resume : machine.allowed f p) (k : Nat) :
    (globalEnable f p && delegatedEnable f k) = takeable f f.privLvl k := by
  cases debug : f.debugMode with
  | true => simp [globalEnable,takeable,debug]
  | false =>
      have here : privLvlO f.toState (input f p) = f.privLvl := by
        rw [privLvlO]
        split
        · rename_i ack
          exact (resume ack).resolve_left (by rw [debug]; exact Bool.false_ne_true)
        · rfl
      rw [globalEnable,here,delegatedEnable,takeable,debug]
      have levels : ∀ (lvl : BitVec 2) (mie sie deleg step : Bool),
          ((((mie && decide (lvl = privM)) || decide (lvl ≠ privM)) && !false && !step) &&
            (!deleg || (sie && decide (lvl = privS)) || decide (lvl = privU))) =
          (!false && !step && if deleg then decide (lvl = privU) || (decide (lvl = privS) && sie)
            else decide (lvl.toNat < privM.toNat) || mie) := by decide
      exact levels f.privLvl f.mstatus.mie f.mstatus.sie (f.mideleg.getLsbD k) f.dcsr.step

theorem next_request {f : File} {p : Pins} (resume : machine.allowed f p) (r : Request) :
    nextRequest f p r = match interruptCause f with
      | some k => if takeable f f.privLvl k then ⟨true,causeOf k⟩ else ⟨false,r.cause⟩
      | none => ⟨false,r.cause⟩ := by
  rw [nextRequest]
  cases interruptCause f with
  | none => rfl
  | some k => simp only [enables_takeable resume k]

theorem interrupt_selected (f : File) (p : Pins) (r : Request) (resume : machine.allowed f p) :
    Selected f p r ↔ ¬ Hides f := by
  have step := next_request resume r
  cases first : interruptCause f with
  | none =>
      rw [first] at step
      have idle : ∀ k ∈ sources, due f f.privLvl k = false := by
        intro k source
        have quiet := List.find?_eq_none.mp first k source
        rw [due,Bool.eq_false_iff.mpr quiet,Bool.false_and]
      constructor
      · rintro - ⟨top,found,-⟩
        rw [first] at found
        cases found
      · intro
        refine ⟨?_,?_⟩
        · rw [step]
          refine ⟨fun raised => absurd raised Bool.false_ne_true,?_⟩
          rintro ⟨k,source,now⟩
          rw [idle k source] at now
          cases now
        · rw [step]
          intro raised
          cases raised
  | some top =>
      rw [first] at step
      have source : top ∈ sources := List.mem_of_find?_eq_some first
      have pends : pending f top = true := List.find?_some first
      cases take : takeable f f.privLvl top with
      | true =>
          simp only [take,if_true] at step
          have here : due f f.privLvl top = true := by rw [due,pends,take]; rfl
          refine ⟨?_,fun _ => ⟨?_,?_⟩⟩
          · rintro - ⟨other,found,refused,-⟩
            rw [first] at found
            cases found
            rw [take] at refused
            cases refused
          · rw [step]
            exact ⟨fun _ => ⟨top,source,here⟩,fun _ => rfl⟩
          · intro
            rw [step,show sources.find? (due f f.privLvl) = some top from find_both first take]
            rfl
      | false =>
          simp only [take] at step
          rw [if_neg Bool.false_ne_true] at step
          constructor
          · rintro selected ⟨-,-,-,now⟩
            have raised := selected.raised.mpr now
            rw [step] at raised
            cases raised
          · intro open'
            refine ⟨?_,?_⟩
            · rw [step]
              exact ⟨fun raised => absurd raised Bool.false_ne_true,fun now => absurd ⟨top,first,take,now⟩ open'⟩
            · rw [step]
              intro raised
              cases raised

def twoPending (deleg : BitVec 64) : File :=
  { CsrFile.reset with mstatus := { CsrFile.reset.mstatus with mie := true }, mideleg := deleg, mie := 0x2200, mip := 0x2200 }

theorem interrupt_selected_open : Selected (twoPending 0) (setsSsip false false) ⟨false,0⟩ :=
  (interrupt_selected (twoPending 0) (setsSsip false false) ⟨false,0⟩ (by decide)).mpr (by
    rintro ⟨top,first,refused,-⟩
    have nine : some 9 = some top := first
    cases nine
    revert refused
    decide)

-- The delegated interrupt of the supervisor hides the counter overflow at level M.
theorem interrupt_selected_fails : ¬ ∀ f p r, machine.allowed f p → Selected f p r := by
  intro every
  have missed := (every (twoPending 0x200) (setsSsip false false) ⟨false,0⟩ (by decide)).raised.mpr ⟨13,by decide,by decide⟩
  revert missed
  decide

end Sargantana.CsrInterrupts
