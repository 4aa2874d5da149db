import Sargantana.CsrRegisters

-- csr_bsc: the accesses and system instructions that the architecture refuses, those that the code refuses, and what a
-- refused one leaves behind.
namespace Sargantana.CsrAccess

open CsrFile CsrRegisters
open CsrBsc hiding next reset

def isAccess (i : Ports) : Bool := [1,2,3,5,8].contains i.rwCmd
def isWrite (i : Ports) : Bool := [1,2,3,8].contains i.rwCmd

-- The registers of CsrFile, and those of the others that are only read
def privilegeCsrs : List (BitVec 12) :=
  [csrMstatus,csrSstatus,csrMedeleg,csrMideleg,csrDcsr,csrSie,csrSip,csrStvec,csrScounteren,csrSenvcfg,csrSscratch,csrSepc,csrScause,
    csrStval,csrSatp,csrMie,csrMtvec,csrMcounteren,csrMcountinhibit,csrMscratch,csrMepc,csrMcause,csrMtval,csrMip,csrMenvcfg]
def vectorReads : List (BitVec 12) := [csrVl,csrVtype,csrVlenb]
def plainReads : List (BitVec 12) :=
  [csrMvendorid,csrMarchid,csrMimpid,csrMhartid,csrMconfigptr,csrCycle,csrTime,csrInstret,csrScountovf]

def isVector (addr : BitVec 12) : Bool := vectorCsrs.contains addr || vectorReads.contains addr

def implemented (addr : BitVec 12) : Bool :=
  privilegeCsrs.contains addr || fpCsrs.contains addr || isVector addr || storedCsrs.contains addr || plainReads.contains addr ||
    mhpmCounter addr || mhpmEvent addr || hpmCounter addr || empty addr

-- What an address says about itself: that it is read-only, a user counter, or one of the debug mode
def readOnly (addr : BitVec 12) : Bool := decide (addr.extractLsb' 10 2 = 3)
def userCounter : BitVec 12 → Bool := inRange 0xc00 0xc1f
def debugOnly (addr : BitVec 12) : Bool := decide (addr >>> 4 = 0x7b)

def counterBit (i : Ports) : Nat := i.rwAddr.toNat % 32

-- A counter is read at level S with its bit of mcounteren, at level U with those of mcounteren and scounteren.
def counterRefused (s : Regs) (i : Ports) (lvl : BitVec 2) : Bool :=
  (decide (lvl = privS) && !s.mcounteren.getLsbD (counterBit i)) ||
    (decide (lvl = privU) && !(s.mcounteren.getLsbD (counterBit i) && s.scounteren.getLsbD (counterBit i)))

def accessRequired (s : Regs) (i : Ports) (lvl : BitVec 2) : Bool :=
  decide (lvl.toNat < (i.rwAddr.extractLsb' 8 2).toNat) || (isWrite i && readOnly i.rwAddr) || !implemented i.rwAddr ||
    (fpCsrs.contains i.rwAddr && decide (s.mstatus.fs = 0)) || (isVector i.rwAddr && decide (s.mstatus.vs = 0)) ||
    (decide (i.rwAddr = csrSatp) && decide (lvl = privS) && s.mstatus.tvm) || (userCounter i.rwAddr && counterRefused s i lvl) ||
    (debugOnly i.rwAddr && !s.debugMode)

-- The encodings of the system instructions
def ecall : BitVec 12 := 0x000
def ebreak : BitVec 12 := 0x001
def sretCode : BitVec 12 := 0x102
def mretCode : BitVec 12 := 0x302
def wfi : BitVec 12 := 0x105
def sfenceVma (addr : BitVec 12) : Bool := decide (addr >>> 5 = 0x9)

def defined (addr : BitVec 12) : Bool := [ecall,ebreak,sretCode,mretCode,wfi].contains addr || sfenceVma addr

def systemRequired (s : Regs) (i : Ports) (lvl : BitVec 2) : Bool :=
  decide (lvl.toNat < (i.rwAddr.extractLsb' 8 2).toNat) || !defined i.rwAddr ||
    (sfenceVma i.rwAddr && decide (lvl = privS) && s.mstatus.tvm) || (decide (i.rwAddr = sretCode) && decide (lvl = privS) && s.mstatus.tsr) ||
    (decide (i.rwAddr = wfi) && decide (lvl.toNat < privM.toNat) && s.mstatus.tw)

-- The level of the hart: priv_lvl_o for an access, which follows a resume from the debug mode already in its cycle, and
-- priv_lvl_q for a system instruction.
def level (s : Regs) (i : Ports) : BitVec 2 := if i.rwCmd = 4 then s.privLvl else privLvlO s.toState (stateInput s i)

-- The command has to raise an illegal instruction exception.
def required (s : Regs) (i : Ports) : Bool :=
  if isAccess i then accessRequired s i (level s i)
  else if i.rwCmd = 4 then systemRequired s i (level s i)
  else vsetvl i && decide (s.mstatus.vs = 0)

def raises (s : Regs) (i : Ports) : Prop := csrXcpt s.toState (stateInput s i) = some illegalInstr

-- The registers that no trap writes. Those that the inputs of the cycle change too are as after a cycle without a command.
structure Untouched (s : Regs) (i : Ports) : Prop where
  medeleg : (next s i).medeleg = s.medeleg
  mideleg : (next s i).mideleg = s.mideleg
  mie : (next s i).mie = s.mie
  mcounteren : (next s i).mcounteren = s.mcounteren
  mcountinhibit : (next s i).mcountinhibit = s.mcountinhibit
  mscratch : (next s i).mscratch = s.mscratch
  menvcfg : (next s i).menvcfg = s.menvcfg
  stvec : (next s i).stvec = s.stvec
  scounteren : (next s i).scounteren = s.scounteren
  senvcfg : (next s i).senvcfg = s.senvcfg
  sscratch : (next s i).sscratch = s.sscratch
  satp : (next s i).satp = s.satp
  frm : (next s i).frm = s.frm
  vxrm : (next s i).vxrm = s.vxrm
  vl : (next s i).vl = s.vl
  vtype : (next s i).vtype = s.vtype
  dscratch : (next s i).dscratch0 = s.dscratch0 ∧ (next s i).dscratch1 = s.dscratch1
  counters : perfWe s i = false
  mtvec : (next s i).mtvec = (next s { i with rwCmd := 0 }).mtvec
  mip : (next s i).mip = (next s { i with rwCmd := 0 }).mip
  fflags : (next s i).fflags = (next s { i with rwCmd := 0 }).fflags
  vxsat : (next s i).vxsat = (next s { i with rwCmd := 0 }).vxsat
  cycle : (next s i).cycle = (next s { i with rwCmd := 0 }).cycle
  instret : (next s i).instret = (next s { i with rwCmd := 0 }).instret
  scountovf : (next s i).scountovf = (next s { i with rwCmd := 0 }).scountovf
  regTime : (next s i).regTime = (next s { i with rwCmd := 0 }).regTime
  debug : s.dcsr.step = false → (next s i).dcsr = (next s { i with rwCmd := 0 }).dcsr ∧ (next s i).dpc = (next s { i with rwCmd := 0 }).dpc

structure Controlled (s : Regs) (i : Ports) : Prop where
  exact : raises s i ↔ required s i = true
  atomic : raises s i → Untouched s i

-- A read of a counter at level U asks for one of the two bits only, and no level but the three named ones may read it.
def slipsCounter (s : Regs) (i : Ports) : Bool :=
  decide (i.rwCmd = 5) && userCounter i.rwAddr &&
    ((decide (level s i = privU) && (s.mcounteren.getLsbD (counterBit i) != s.scounteren.getLsbD (counterBit i))) || decide (level s i = 2))

-- The level without a name does not pass the check of the addresses of level S.
def slipsLevel (s : Regs) (i : Ports) : Bool :=
  isAccess i && !userCounter i.rwAddr && decide (level s i = 2) && decide (i.rwAddr.extractLsb' 8 2 = 1) && implemented i.rwAddr &&
    !(isWrite i && readOnly i.rwAddr)

-- wfi is refused at level M as well.
def slipsWfi (s : Regs) (i : Ports) : Bool :=
  decide (i.rwCmd = 4) && decide (i.rwAddr = wfi) && decide (s.privLvl = privM) && s.mstatus.tw

-- The bits of an encoding that select sfence.vma, sret or wfi, and a reason to refuse it
def aliasRefused (s : Regs) (addr : BitVec 12) : Bool :=
  (decide (addr.extractLsb' 5 5 = 9) && decide (s.privLvl = privS) && s.mstatus.tvm) ||
    (decide (addr.setWidth 10 = 0x102#10) && decide (s.privLvl = privS) && s.mstatus.tsr) ||
    (decide (addr.setWidth 10 = 0x105#10) && s.mstatus.tw)

-- An undefined encoding is refused for its level only, or when it passes for one that is refused.
def slipsUndefined (s : Regs) (i : Ports) : Bool :=
  decide (i.rwCmd = 4) && !defined i.rwAddr && decide ((i.rwAddr.extractLsb' 8 2).toNat ≤ s.privLvl.toNat) && !aliasRefused s i.rwAddr

def slips (s : Regs) (i : Ports) : Bool := slipsCounter s i || slipsLevel s i || slipsWfi s i || slipsUndefined s i

theorem lookup_contains {β : Type} (table : List (BitVec 12 × β)) (addr : BitVec 12) :
    (table.lookup addr).isSome = (table.map Prod.fst).contains addr := by
  induction table with
  | nil => rfl
  | cons entry rest ih =>
      rw [List.lookup_cons,List.map_cons,List.contains_cons]
      cases addr == entry.1 with
      | true => rfl
      | false => exact ih

theorem modelled_listed (s : Regs) (addr : BitVec 12) : modelled s.toFile addr = privilegeCsrs.contains addr := by
  rw [modelled,lookup_contains,← List.contains_append]
  rfl

theorem listed {l : List (BitVec 12)} {p : BitVec 12 → Prop} [DecidablePred p] (all : (l.all fun a => decide (p a)) = true) :
    ∀ a ∈ l, p a := fun a member => of_decide_eq_true (List.all_eq_true.mp all a member)

theorem outside {l : List (BitVec 12)} {p : BitVec 12 → Bool} {addr : BitVec 12} (apart : ∀ a ∈ l, p a = false) (here : p addr = true) :
    l.contains addr = false := by
  by_contra listed
  rw [Bool.not_eq_false,List.contains_iff_mem] at listed
  rw [apart addr listed] at here
  cases here

theorem inside {l : List (BitVec 12)} {p : BitVec 12 → Prop} {addr : BitVec 12} (every : ∀ a ∈ l, p a) (here : l.contains addr = true) :
    p addr := every addr (List.contains_iff_mem.mp here)

theorem range_bounds {first last addr : BitVec 12} (within : inRange first last addr = true) :
    first.toNat ≤ addr.toNat ∧ addr.toNat ≤ last.toNat := by
  simpa [inRange,BitVec.le_def] using within

theorem readOnly_top (addr : BitVec 12) : readOnly addr = true ↔ 0xc00 ≤ addr.toNat := by
  have width := addr.isLt
  rw [readOnly,decide_eq_true_iff,← BitVec.toNat_inj,BitVec.extractLsb'_toNat,Nat.shiftRight_eq_div_pow]
  have three : (3 : BitVec 2).toNat = 3 := rfl
  rw [three]
  omega

theorem ranges_apart {addr : BitVec 12} :
    (hpmCounter addr = true → readOnly addr = true ∧ mhpmCounter addr = false ∧ mhpmEvent addr = false ∧ empty addr = false) ∧
    (mhpmCounter addr = true → readOnly addr = false) ∧ (mhpmEvent addr = true → readOnly addr = false) ∧
    (empty addr = true → readOnly addr = false) := by
  have closed : ∀ {first last : BitVec 12}, (addr.toNat < first.toNat ∨ last.toNat < addr.toNat) → inRange first last addr = false := by
    intro first last out
    by_contra within
    have bounds := range_bounds (Bool.not_eq_false _ ▸ within)
    omega
  have low : addr.toNat < 0xc00 → readOnly addr = false := by
    intro below
    by_contra top
    have above := (readOnly_top addr).mp (Bool.not_eq_false _ ▸ top)
    omega
  refine ⟨fun within => ?_,fun within => ?_,fun within => ?_,fun within => ?_⟩
  · have bounds : 0xc03 ≤ addr.toNat ∧ addr.toNat ≤ 0xc1f := range_bounds within
    have away : ∀ {first last : BitVec 12}, last.toNat < 0xc03 → inRange first last addr = false := fun below => closed (.inr (by omega))
    refine ⟨(readOnly_top addr).mpr (by omega),away (by decide),away (by decide),?_⟩
    rw [empty,away (by decide),away (by decide),away (by decide)]
    rfl
  · have bounds : 0xb03 ≤ addr.toNat ∧ addr.toNat ≤ 0xb1f := range_bounds within
    exact low (by omega)
  · have bounds : 0x323 ≤ addr.toNat ∧ addr.toNat ≤ 0x33f := range_bounds within
    exact low (by omega)
  · rw [empty,Bool.or_eq_true,Bool.or_eq_true] at within
    rcases within with (trigger | config) | address
    · have bounds : 0x7a0 ≤ addr.toNat ∧ addr.toNat ≤ 0x7a3 := range_bounds trigger
      exact low (by omega)
    · have bounds : 0x3a0 ≤ addr.toNat ∧ addr.toNat ≤ 0x3a3 := range_bounds config
      exact low (by omega)
    · have bounds : 0x3b0 ≤ addr.toNat ∧ addr.toNat ≤ 0x3bf := range_bounds address
      exact low (by omega)

theorem fp_apart : ∀ a ∈ fpCsrs, (mhpmCounter a || mhpmEvent a || hpmCounter a) = false ∧ empty a = false ∧ privilegeCsrs.contains a = false ∧
    isVector a = false ∧ readOnly a = false := listed (by decide)

theorem vector_apart : ∀ a ∈ vectorCsrs, (mhpmCounter a || mhpmEvent a || hpmCounter a) = false ∧ empty a = false ∧
    privilegeCsrs.contains a = false ∧ fpCsrs.contains a = false ∧ readOnly a = false := listed (by decide)

theorem vectorReads_apart : ∀ a ∈ vectorReads, (mhpmCounter a || mhpmEvent a || hpmCounter a) = false ∧ empty a = false ∧
    privilegeCsrs.contains a = false ∧ fpCsrs.contains a = false ∧ vectorCsrs.contains a = false ∧ storedCsrs.contains a = false ∧
    readOnly a = true := listed (by decide)

theorem privilege_plain : ∀ a ∈ privilegeCsrs, fpCsrs.contains a = false ∧ isVector a = false ∧ readOnly a = false := listed (by decide)

theorem stored_plain : ∀ a ∈ storedCsrs, fpCsrs.contains a = false ∧ isVector a = false ∧ readOnly a = false := listed (by decide)

theorem reads_apart : ∀ a ∈ plainReads, (mhpmCounter a || mhpmEvent a) = false ∧ empty a = false ∧ privilegeCsrs.contains a = false ∧
    fpCsrs.contains a = false ∧ isVector a = false ∧ storedCsrs.contains a = false ∧ readOnly a = true := listed (by decide)

theorem others_listed (s : Regs) (i : Ports) (addr : BitVec 12) : ((others s i).lookup addr).join.isNone =
    if fpCsrs.contains addr then decide (s.mstatus.fs = 0)
    else if isVector addr then decide (s.mstatus.vs = 0)
    else !(storedCsrs.contains addr || plainReads.contains addr) := by
  have fp : ∀ value, (whenFp s value).isNone = decide (s.mstatus.fs = 0) := by
    intro value
    rw [whenFp]
    split
    · rename_i off
      rw [decide_eq_true off]
      rfl
    · rename_i on
      rw [decide_eq_false on]
      rfl
  have vector : ∀ value, (whenV s value).isNone = decide (s.mstatus.vs = 0) := by
    intro value
    rw [whenV]
    split
    · rename_i off
      rw [decide_eq_true off]
      rfl
    · rename_i on
      rw [decide_eq_false on]
      rfl
  by_cases first : fpCsrs.contains addr = true
  · rw [if_pos first]
    refine inside (p := fun a => ((others s i).lookup a).join.isNone = decide (s.mstatus.fs = 0)) ?_ first
    simp only [fpCsrs,List.forall_mem_cons]
    exact ⟨fp _,fp _,fp _,fun _ none' => absurd none' List.not_mem_nil⟩
  · rw [if_neg first]
    by_cases second : isVector addr = true
    · rw [if_pos second]
      rw [isVector,← List.contains_append] at second
      refine inside (p := fun a => ((others s i).lookup a).join.isNone = decide (s.mstatus.vs = 0)) ?_ second
      simp only [vectorCsrs,vectorReads,List.cons_append,List.nil_append,List.forall_mem_cons]
      exact ⟨vector _,vector _,vector _,vector _,vector _,vector _,vector _,fun _ none' => absurd none' List.not_mem_nil⟩
    · rw [if_neg second]
      cases third : storedCsrs.contains addr || plainReads.contains addr with
      | true =>
          rw [← List.contains_append] at third
          refine inside (p := fun a => ((others s i).lookup a).join.isNone = !true) ?_ third
          simp only [storedCsrs,plainReads,List.cons_append,List.nil_append,List.forall_mem_cons]
          exact ⟨rfl,rfl,rfl,rfl,rfl,rfl,rfl,rfl,rfl,rfl,rfl,rfl,rfl,rfl,rfl,fun _ none' => absurd none' List.not_mem_nil⟩
      | false =>
          have absent : ((others s i).lookup addr).isSome = false := by
            have keys : (others s i).map Prod.fst = [csrFflags,csrFrm,csrFcsr,csrVcsr,csrVxrm,csrVxsat,csrVstart,csrVl,csrVtype,
                csrVlenb,csrDpc,csrDscratch0,csrDscratch1,csrMisa,csrMvendorid,csrMarchid,csrMimpid,csrMhartid,csrMconfigptr,csrMcycle,
                csrMinstret,csrCycle,csrTime,csrInstret,csrScountovf] := rfl
            rw [lookup_contains,keys]
            rw [Bool.or_eq_false_iff] at third
            simp only [Bool.not_eq_true,isVector,fpCsrs,vectorCsrs,vectorReads,storedCsrs,plainReads,List.contains_cons,List.contains_nil,
              Bool.or_false,Bool.or_eq_false_iff] at first second third ⊢
            tauto
          have gone : (others s i).lookup addr = none :=
            Option.not_isSome_iff_eq_none.mp (by rw [absent]; exact Bool.false_ne_true)
          rw [gone]
          rfl

def unreadable (s : Regs) (i : Ports) : Bool := !modelled s.toFile i.rwAddr && (otherRead s i i.rwAddr).isNone
def unwritable (s : Regs) (i : Ports) : Bool := !modelled s.toFile i.rwAddr && !otherWritten s i.rwAddr

-- The register is not there, or its unit is off.
def absent (s : Regs) (addr : BitVec 12) : Bool :=
  !implemented addr || (fpCsrs.contains addr && decide (s.mstatus.fs = 0)) || (isVector addr && decide (s.mstatus.vs = 0))

theorem vector_kind {addr : BitVec 12} (here : isVector addr = true) : (mhpmCounter addr || mhpmEvent addr || hpmCounter addr) = false ∧
    empty addr = false ∧ privilegeCsrs.contains addr = false ∧ fpCsrs.contains addr = false := by
  rw [isVector,Bool.or_eq_true] at here
  rcases here with stored | read
  · obtain ⟨ranges,blank,privilege,fp,-⟩ := inside vector_apart stored
    exact ⟨ranges,blank,privilege,fp⟩
  · obtain ⟨ranges,blank,privilege,fp,-⟩ := inside vectorReads_apart read
    exact ⟨ranges,blank,privilege,fp⟩

theorem unreadable_absent (s : Regs) (i : Ports) : unreadable s i = absent s i.rwAddr := by
  rw [unreadable,absent,implemented,modelled_listed,otherRead]
  by_cases fp : fpCsrs.contains i.rwAddr = true
  · obtain ⟨ranges,blank,privilege,vector,-⟩ := inside fp_apart fp
    rw [ranges,blank,privilege,vector,fp,if_neg Bool.false_ne_true,if_neg Bool.false_ne_true,others_listed,if_pos fp]
    simp
  · by_cases vector : isVector i.rwAddr = true
    · obtain ⟨ranges,blank,privilege,other⟩ := vector_kind vector
      rw [ranges,blank,privilege,vector,other,if_neg Bool.false_ne_true,if_neg Bool.false_ne_true,others_listed,if_neg fp,if_pos vector]
      simp
    · have table := others_listed s i i.rwAddr
      rw [if_neg fp,if_neg vector] at table
      rw [Bool.eq_false_iff.mpr fp,Bool.eq_false_iff.mpr vector]
      cases privilegeCsrs.contains i.rwAddr with
      | true => rfl
      | false =>
          cases ranges : mhpmCounter i.rwAddr || mhpmEvent i.rwAddr || hpmCounter i.rwAddr with
          | true =>
              rw [if_pos rfl]
              revert ranges
              cases mhpmCounter i.rwAddr <;> cases mhpmEvent i.rwAddr <;> cases hpmCounter i.rwAddr <;> simp
          | false =>
              simp only [Bool.or_eq_false_iff] at ranges
              rw [if_neg Bool.false_ne_true,ranges.1.1,ranges.1.2,ranges.2]
              cases empty i.rwAddr with
              | true => simp
              | false =>
                  rw [if_neg Bool.false_ne_true,table]
                  simp

theorem unwritable_absent (s : Regs) (i : Ports) : unwritable s i = (absent s i.rwAddr || readOnly i.rwAddr) := by
  rw [unwritable,absent,implemented,modelled_listed,otherWritten]
  by_cases fp : fpCsrs.contains i.rwAddr = true
  · obtain ⟨-,-,privilege,vector,low⟩ := inside fp_apart fp
    rw [privilege,vector,low,fp,if_pos rfl]
    by_cases off : s.mstatus.fs = 0 <;> simp [off]
  · by_cases vector : vectorCsrs.contains i.rwAddr = true
    · obtain ⟨-,-,privilege,-,low⟩ := inside vector_apart vector
      have kind : isVector i.rwAddr = true := by rw [isVector,vector]; rfl
      rw [privilege,low,kind,if_neg fp,if_pos vector,Bool.eq_false_iff.mpr fp]
      by_cases off : s.mstatus.vs = 0 <;> simp [off]
    · rw [if_neg fp,if_neg vector,Bool.eq_false_iff.mpr fp]
      by_cases read : vectorReads.contains i.rwAddr = true
      · obtain ⟨ranges,blank,privilege,-,-,stored,top⟩ := inside vectorReads_apart read
        simp only [Bool.or_eq_false_iff] at ranges
        rw [privilege,stored,ranges.1.1,ranges.1.2,blank,top]
        simp
      · have kind : isVector i.rwAddr = false := by
          rw [isVector,Bool.eq_false_iff.mpr vector,Bool.eq_false_iff.mpr read]
          rfl
        rw [kind]
        by_cases plain : plainReads.contains i.rwAddr = true
        · obtain ⟨ranges,blank,privilege,-,-,stored,top⟩ := inside reads_apart plain
          simp only [Bool.or_eq_false_iff] at ranges
          rw [privilege,stored,ranges.1,ranges.2,blank,top]
          simp
        · rw [Bool.eq_false_iff.mpr plain]
          have apart := @ranges_apart i.rwAddr
          obtain ⟨hpm,counter,event,blank⟩ := apart
          by_cases shadow : hpmCounter i.rwAddr = true
          · obtain ⟨top,noCounter,noEvent,noBlank⟩ := hpm shadow
            have outer : privilegeCsrs.contains i.rwAddr = false ∧ storedCsrs.contains i.rwAddr = false := by
              refine ⟨?_,?_⟩
              · by_contra listed'
                rw [(inside privilege_plain (Bool.not_eq_false _ ▸ listed')).2.2] at top
                cases top
              · by_contra listed'
                rw [(inside stored_plain (Bool.not_eq_false _ ▸ listed')).2.2] at top
                cases top
            rw [outer.1,outer.2,noCounter,noEvent,noBlank,top]
            simp
          · rw [Bool.eq_false_iff.mpr shadow]
            have writable : (privilegeCsrs.contains i.rwAddr || storedCsrs.contains i.rwAddr || mhpmCounter i.rwAddr ||
                mhpmEvent i.rwAddr || empty i.rwAddr) = true → readOnly i.rwAddr = false := by
              simp only [Bool.or_eq_true]
              rintro ((((privilege | stored) | counted) | selected) | none')
              · exact (inside privilege_plain privilege).2.2
              · exact (inside stored_plain stored).2.2
              · exact counter counted
              · exact event selected
              · exact blank none'
            revert writable
            cases privilegeCsrs.contains i.rwAddr <;> cases storedCsrs.contains i.rwAddr <;> cases mhpmCounter i.rwAddr <;>
              cases mhpmEvent i.rwAddr <;> cases empty i.rwAddr <;> simp

theorem isAccess_iff (i : Ports) : isAccess i = true ↔ i.rwCmd ∈ [1,2,3,5,8] := List.contains_iff_mem

theorem access_commands {c : BitVec 4} (access : c ∈ [1,2,3,5,8]) : c ≠ 4 ∧ c ≠ 6 ∧ c ≠ 7 ∧ (c ∉ [1,2,3,8] → c = 5) ∧
    (c ∈ [1,2,3,8] ∨ c ∈ [1,2,3,5]) := by
  revert c
  decide

theorem access_plain {s : Regs} {i : Ports} (access : isAccess i = true) :
    systemInsn (stateInput s i) = false ∧ vsetRefused s i = false ∧
      privilegeViolation s.toState (stateInput s i) = accessViolation s.toState (stateInput s i) := by
  obtain ⟨four,six,seven,-⟩ := access_commands ((isAccess_iff i).mp access)
  have system : systemInsn (stateInput s i) = false := beq_eq_false_iff_ne.mpr four
  refine ⟨system,?_,?_⟩
  · rw [vsetRefused,vsetvl,beq_eq_false_iff_ne.mpr six,beq_eq_false_iff_ne.mpr seven]
    rfl
  · rw [privilegeViolation,system,decide_eq_true (show (stateInput s i).rwCmd ∈ [1,2,3,5,8] from (isAccess_iff i).mp access)]
    simp [insnSfenceVm,insnSret,insnIs,system]

def isRead (i : Ports) : Bool := [1,2,3,5].contains i.rwCmd

-- An access is refused for its address and level, by the write case or by the read case.
theorem raises_access {s : Regs} {i : Ports} (access : isAccess i = true) :
    raises s i ↔ (accessViolation s.toState (stateInput s i) || (isWrite i && (unwritable s i || satpRefused s.toFile (pins s i))) ||
      (isRead i && (unreadable s i || satpRefused s.toFile (pins s i)))) = true := by
  obtain ⟨system,vset,violation⟩ := access_plain (s := s) access
  have calls : insnCall (stateInput s i) = false ∧ insnBreak (stateInput s i) = false ∧ insnWfi s.toState (stateInput s i) = false := by
    simp [insnCall,insnBreak,insnWfi,insnIs,system]
  have update : updateAccessException s.toFile (pins s i) =
      (isWrite i && !accessViolation s.toState (stateInput s i) && (unwritable s i || satpRefused s.toFile (pins s i))) := by
    rw [← violation,isWrite,List.contains_eq_mem]
    rfl
  have read : readAccessException s.toFile (pins s i) =
      (isRead i && !accessViolation s.toState (stateInput s i) && (unreadable s i || satpRefused s.toFile (pins s i))) := by
    rw [← violation,isRead,List.contains_eq_mem]
    rfl
  rw [raises,csrXcpt,access_exception,update,read,vset,violation,calls.1,calls.2.1,calls.2.2]
  cases accessViolation s.toState (stateInput s i) with
  | true => simp
  | false =>
      simp only [Bool.not_false,Bool.and_true,Bool.false_or,Bool.or_false]
      cases isWrite i && (unwritable s i || satpRefused s.toFile (pins s i)) <;>
        cases isRead i && (unreadable s i || satpRefused s.toFile (pins s i)) <;> simp

theorem refused_cases {s : Regs} {i : Ports} (access : isAccess i = true) :
    ((isWrite i && (unwritable s i || satpRefused s.toFile (pins s i))) || (isRead i && (unreadable s i || satpRefused s.toFile (pins s i)))) =
      ((isWrite i && readOnly i.rwAddr) || absent s i.rwAddr || satpRefused s.toFile (pins s i)) := by
  have either : isWrite i = true ∨ isRead i = true := by
    rcases (access_commands ((isAccess_iff i).mp access)).2.2.2.2 with write | read
    · exact .inl (List.contains_iff_mem.mpr write)
    · exact .inr (List.contains_iff_mem.mpr read)
  rw [unwritable_absent,unreadable_absent]
  revert either
  cases isWrite i <;> cases isRead i <;> cases absent s i.rwAddr <;> cases readOnly i.rwAddr <;>
    cases satpRefused s.toFile (pins s i) <;> simp

theorem satp_refused (s : Regs) (i : Ports) : satpRefused s.toFile (pins s i) =
    (decide (i.rwAddr = csrSatp) && decide (privLvlO s.toState (stateInput s i) = privS) && s.mstatus.tvm) := rfl

theorem level_access {s : Regs} {i : Ports} (access : isAccess i = true) : level s i = privLvlO s.toState (stateInput s i) := by
  rw [level,if_neg (access_commands ((isAccess_iff i).mp access)).1]

theorem required_access {s : Regs} {i : Ports} (access : isAccess i = true) : required s i =
    (decide ((level s i).toNat < (i.rwAddr.extractLsb' 8 2).toNat) || (isWrite i && readOnly i.rwAddr) || absent s i.rwAddr ||
      satpRefused s.toFile (pins s i) || (userCounter i.rwAddr && counterRefused s i (level s i)) ||
      (debugOnly i.rwAddr && !s.debugMode)) := by
  rw [required,if_pos access,accessRequired,satp_refused,level_access access,absent]
  simp only [Bool.or_assoc]

theorem slips_access {s : Regs} {i : Ports} (access : isAccess i = true) : slips s i = (slipsCounter s i || slipsLevel s i) := by
  have other := decide_eq_false (access_commands ((isAccess_iff i).mp access)).1
  rw [slips,slipsWfi,slipsUndefined,other]
  simp

theorem counter_address {addr : BitVec 12} (here : userCounter addr = true) : readOnly addr = true ∧ fpCsrs.contains addr = false ∧
    isVector addr = false ∧ implemented addr = true ∧ addr ≠ csrSatp ∧ addr.extractLsb' 8 2 = 0 ∧ debugOnly addr = false := by
  have bounds : 0xc00 ≤ addr.toNat ∧ addr.toNat ≤ 0xc1f := range_bounds here
  have width := addr.isLt
  have away : ∀ l : List (BitVec 12), (∀ a ∈ l, userCounter a = false) → l.contains addr = false := fun l apart => outside apart here
  have fp : fpCsrs.contains addr = false := away _ (listed (by decide))
  have stored : vectorCsrs.contains addr = false := away _ (listed (by decide))
  have read : vectorReads.contains addr = false := away _ (listed (by decide))
  have there : implemented addr = true := by
    have found : plainReads.contains addr = true ∨ hpmCounter addr = true := by
      by_cases low : addr.toNat < 0xc03
      · have three : addr = csrCycle ∨ addr = csrTime ∨ addr = csrInstret := by
          have numbers : addr.toNat = 0xc00 ∨ addr.toNat = 0xc01 ∨ addr.toNat = 0xc02 := by omega
          refine numbers.imp ?_ (Or.imp ?_ ?_) <;> exact fun n => BitVec.eq_of_toNat_eq n
        left
        rcases three with here | here | here <;> rw [here] <;> decide
      · right
        have first : (0xc03 : BitVec 12) ≤ addr := by
          rw [BitVec.le_def]
          change 0xc03 ≤ addr.toNat
          omega
        have last : addr ≤ (0xc1f : BitVec 12) := by
          rw [BitVec.le_def]
          exact bounds.2
        rw [hpmCounter,inRange,decide_eq_true first,decide_eq_true last]
        rfl
    rw [implemented]
    rcases found with plain | counted
    · rw [plain]
      simp
    · rw [counted]
      simp
  refine ⟨(readOnly_top addr).mpr (by omega),fp,by rw [isVector,stored,read]; rfl,there,?_,?_,?_⟩
  · intro same
    rw [same] at bounds
    have number : csrSatp.toNat = 0x180 := rfl
    omega
  · apply BitVec.eq_of_toNat_eq
    rw [BitVec.extractLsb'_toNat,Nat.shiftRight_eq_div_pow]
    change addr.toNat / 2 ^ 8 % 2 ^ 2 = 0
    omega
  · rw [debugOnly,decide_eq_false_iff_not,← BitVec.toNat_inj,BitVec.toNat_ushiftRight,Nat.shiftRight_eq_div_pow]
    change ¬ addr.toNat / 2 ^ 4 = 0x7b
    omega

theorem violation_counter {s : Regs} {i : Ports} (here : userCounter i.rwAddr = true) :
    accessViolation s.toState (stateInput s i) =
      if privLvlO s.toState (stateInput s i) = privM then false
      else if privLvlO s.toState (stateInput s i) = privS ∨ privLvlO s.toState (stateInput s i) = privU then
        counterClosed s.toFile (pins s i)
      else true := by
  have bounds : 0xc00 ≤ i.rwAddr.toNat ∧ i.rwAddr.toNat ≤ 0xc1f := range_bounds here
  rw [accessViolation,if_pos (show 0xc00 ≤ (stateInput s i).rwAddr.toNat ∧ (stateInput s i).rwAddr.toNat ≤ 0xc1f from bounds)]
  rfl

theorem counter_exact {s : Regs} {i : Ports} (access : isAccess i = true) (here : userCounter i.rwAddr = true) :
    (raises s i ↔ required s i = true) ↔ slips s i = false := by
  obtain ⟨top,fp,vector,there,other,user,free⟩ := counter_address here
  have present : absent s i.rwAddr = false := by
    rw [absent,there,fp,vector]
    rfl
  have open' : satpRefused s.toFile (pins s i) = false := by
    rw [satp_refused,decide_eq_false other]
    rfl
  have command : isWrite i = !decide (i.rwCmd = 5) := by
    have parts := access_commands ((isAccess_iff i).mp access)
    rw [isWrite,List.contains_eq_mem]
    by_cases write : i.rwCmd ∈ [1,2,3,8]
    · have five : ¬ i.rwCmd = 5 := by
        intro read
        rw [read] at write
        exact absurd write (by decide)
      rw [decide_eq_true write,decide_eq_false five]
      rfl
    · rw [decide_eq_false write,decide_eq_true (parts.2.2.2.1 write)]
      rfl
  have closed : counterClosed s.toFile (pins s i) = if privLvlO s.toState (stateInput s i) = privS then
      !s.mcounteren.getLsbD (counterBit i) else !s.mcounteren.getLsbD (counterBit i) && !s.scounteren.getLsbD (counterBit i) := rfl
  have quiet : slipsLevel s i = false := by
    rw [slipsLevel,here]
    simp
  rw [raises_access access,Bool.or_assoc,refused_cases access,required_access access,slips_access access,quiet,slipsCounter,present,open',
    top,here,user,free,command,violation_counter here,closed,counterRefused,level_access access]
  have table : ∀ (lvl : BitVec 2) (five m c : Bool),
      (((if lvl = privM then false else if lvl = privS ∨ lvl = privU then (if lvl = privS then !m else !m && !c) else true) ||
          (!five && true || false || false)) = true ↔
        (decide (lvl.toNat < (0 : BitVec 2).toNat) || (!five && true) || false || false ||
          (true && (decide (lvl = privS) && !m || decide (lvl = privU) && !(m && c))) || (false && !s.debugMode)) = true) ↔
      (five && true && ((decide (lvl = privU) && (m != c)) || decide (lvl = 2)) || false) = false := by
    cases s.debugMode <;> decide
  exact table _ _ _ _

theorem mask_level : ∀ lvl a : BitVec 2, decide (lvl &&& a ≠ a) = (decide (lvl.toNat < a.toNat) || (decide (lvl = 2) && decide (a = 1))) := by
  decide

theorem supervisor_address {addr : BitVec 12} (here : addr.extractLsb' 8 2 = 1) : fpCsrs.contains addr = false ∧ isVector addr = false ∧
    debugOnly addr = false := by
  have set : (fun a : BitVec 12 => decide (a.extractLsb' 8 2 = 1)) addr = true := decide_eq_true here
  have away : ∀ l : List (BitVec 12), (∀ a ∈ l, decide (a.extractLsb' 8 2 = 1) = false) → l.contains addr = false :=
    fun l apart => outside apart set
  have stored : vectorCsrs.contains addr = false := away _ (listed (by decide))
  have read : vectorReads.contains addr = false := away _ (listed (by decide))
  refine ⟨away _ (listed (by decide)),by rw [isVector,stored,read]; rfl,?_⟩
  rw [debugOnly,decide_eq_false_iff_not]
  intro debug
  rw [← BitVec.toNat_inj,BitVec.extractLsb'_toNat,Nat.shiftRight_eq_div_pow] at here
  rw [← BitVec.toNat_inj,BitVec.toNat_ushiftRight,Nat.shiftRight_eq_div_pow] at debug
  change addr.toNat / 2 ^ 8 % 2 ^ 2 = 1 at here
  change addr.toNat / 2 ^ 4 = 0x7b at debug
  omega

theorem violation_plain {s : Regs} {i : Ports} (away : userCounter i.rwAddr = false) :
    accessViolation s.toState (stateInput s i) =
      (decide (privLvlO s.toState (stateInput s i) &&& i.rwAddr.extractLsb' 8 2 ≠ i.rwAddr.extractLsb' 8 2) ||
        (debugOnly i.rwAddr && !s.debugMode)) := by
  have none' : ¬ (0xc00 ≤ (stateInput s i).rwAddr.toNat ∧ (stateInput s i).rwAddr.toNat ≤ 0xc1f) := by
    intro bounds
    have within : userCounter i.rwAddr = true := by
      have first : (0xc00 : BitVec 12) ≤ i.rwAddr := by
        rw [BitVec.le_def]
        exact bounds.1
      have last : i.rwAddr ≤ (0xc1f : BitVec 12) := by
        rw [BitVec.le_def]
        exact bounds.2
      rw [userCounter,inRange,decide_eq_true first,decide_eq_true last]
      rfl
    rw [away] at within
    cases within
  rw [accessViolation,if_neg none']
  rfl

theorem plain_exact {s : Regs} {i : Ports} (access : isAccess i = true) (away : userCounter i.rwAddr = false) :
    (raises s i ↔ required s i = true) ↔ slips s i = false := by
  have quiet : slipsCounter s i = false := by
    rw [slipsCounter,away]
    simp
  rw [raises_access access,Bool.or_assoc,refused_cases access,required_access access,slips_access access,quiet,slipsLevel,access,away,
    violation_plain away,← level_access access,mask_level]
  by_cases both : level s i = 2 ∧ i.rwAddr.extractLsb' 8 2 = 1
  · obtain ⟨two,one⟩ := both
    obtain ⟨fp,vector,debug⟩ := supervisor_address one
    have open' : satpRefused s.toFile (pins s i) = false := by
      have other : ¬ privLvlO s.toState (stateInput s i) = privS := by
        rw [← level_access access,two]
        decide
      rw [satp_refused,decide_eq_false other]
      simp
    rw [open',absent,fp,vector,debug,two,one]
    cases implemented i.rwAddr <;> cases isWrite i <;> cases readOnly i.rwAddr <;> simp
  · have apart : (decide (level s i = 2) && decide (i.rwAddr.extractLsb' 8 2 = 1)) = false := by
      rw [← Bool.decide_and]
      exact decide_eq_false both
    have silent : (true && !false && decide (level s i = 2) && decide (i.rwAddr.extractLsb' 8 2 = 1) && implemented i.rwAddr &&
        !(isWrite i && readOnly i.rwAddr)) = false := by
      rw [Bool.not_false,Bool.and_true,Bool.true_and,apart]
      simp
    rw [silent,apart]
    refine iff_of_true ?_ rfl
    rw [Bool.coe_iff_coe]
    cases decide ((level s i).toNat < (i.rwAddr.extractLsb' 8 2).toNat) <;> cases debugOnly i.rwAddr <;> cases s.debugMode <;>
      cases isWrite i && readOnly i.rwAddr <;> cases absent s i.rwAddr <;> cases satpRefused s.toFile (pins s i) <;> rfl

theorem raises_system {s : Regs} {i : Ports} (system : i.rwCmd = 4) :
    raises s i ↔ (decide (s.privLvl.toNat < (i.rwAddr.extractLsb' 8 2).toNat) || aliasRefused s i.rwAddr) = true := by
  have cmd : (stateInput s i).rwCmd = 4 := system
  have insn : systemInsn (stateInput s i) = true := beq_iff_eq.mpr cmd
  have quiet : (stateInput s i).accessException = false := by
    have update : updateAccessException s.toFile (pins s i) = false := by
      rw [updateAccessException,csrWe,show (command s.toFile (pins s i)).rwCmd = 4 from system]
      rfl
    have read : readAccessException s.toFile (pins s i) = false := by
      rw [readAccessException,csrRead,show (command s.toFile (pins s i)).rwCmd = 4 from system]
      rfl
    rw [access_exception,update,read,vsetRefused,vsetvl,system]
    rfl
  have suff : privSufficient s.toState (stateInput s i) = !decide (s.privLvl.toNat < (i.rwAddr.extractLsb' 8 2).toNat) := by
    rw [privSufficient,← decide_not]
    exact decide_eq_decide.mpr Nat.not_lt.symm
  have addr : (stateInput s i).rwAddr = i.rwAddr := rfl
  have violation : privilegeViolation s.toState (stateInput s i) = (decide (s.privLvl.toNat < (i.rwAddr.extractLsb' 8 2).toNat) ||
      (decide (i.rwAddr.extractLsb' 5 5 = 9) && decide (s.privLvl = privS) && s.mstatus.tvm) ||
      (decide (i.rwAddr.setWidth 10 = 0x102#10) && decide (s.privLvl = privS) && s.mstatus.tsr)) := by
    rw [privilegeViolation,insn,cmd,insnSfenceVm,insnSret,insnIs,insn,suff,addr]
    cases decide (s.privLvl.toNat < (i.rwAddr.extractLsb' 8 2).toNat) <;> simp [BEq.beq]
  have calls : ∀ lvl : BitVec 2, userEcall + lvl.setWidth 64 ≠ illegalInstr := by decide
  rw [raises,csrXcpt,quiet,violation,if_neg Bool.false_ne_true,aliasRefused,← Bool.or_assoc,← Bool.or_assoc]
  cases refused : decide (s.privLvl.toNat < (i.rwAddr.extractLsb' 8 2).toNat) ||
      (decide (i.rwAddr.extractLsb' 5 5 = 9) && decide (s.privLvl = privS) && s.mstatus.tvm) ||
      (decide (i.rwAddr.setWidth 10 = 0x102#10) && decide (s.privLvl = privS) && s.mstatus.tsr) with
  | true => simp
  | false =>
      have high : decide (s.privLvl.toNat < (i.rwAddr.extractLsb' 8 2).toNat) = false := by
        rw [Bool.or_eq_false_iff,Bool.or_eq_false_iff] at refused
        exact refused.1.1
      have waits : insnWfi s.toState (stateInput s i) = decide (i.rwAddr.setWidth 10 = 0x105#10) := by
        rw [insnWfi,insnIs,insn,suff,high,Bool.and_true,Bool.not_false,Bool.and_true]
        rfl
      rw [waits,if_neg Bool.false_ne_true,Bool.false_or]
      by_cases here : i.rwAddr.setWidth 10 = 0x105#10
      · have other : ∀ code : BitVec 10, code ≠ 0x105#10 → insnIs code (stateInput s i) = false := by
          intro code apart
          rw [insnIs,addr,here,beq_eq_false_iff_ne.mpr apart.symm]
          rfl
        rw [insnCall,other 0 (by decide),insnBreak,other 1 (by decide),decide_eq_true here]
        cases s.mstatus.tw <;> simp
      · rw [decide_eq_false here]
        constructor
        · intro raised
          split at raised
          · exact absurd (Option.some.inj raised) (calls s.privLvl)
          · split at raised
            · split at raised
              · exact absurd (Option.some.inj raised) (by decide)
              · cases raised
            · rw [Bool.false_and,if_neg Bool.false_ne_true] at raised
              cases raised
        · intro never
          cases never

-- The encodings that the code takes for sfence.vma, sret and wfi are those, when they are defined at all.
theorem defined_alias {addr : BitVec 12} (known : defined addr = true) :
    decide (addr.extractLsb' 5 5 = 9) = sfenceVma addr ∧ decide (addr.setWidth 10 = 0x102#10) = decide (addr = sretCode) ∧
      decide (addr.setWidth 10 = 0x105#10) = decide (addr = wfi) ∧ (addr = wfi → sfenceVma addr = false ∧ addr ≠ sretCode) := by
  rw [defined,Bool.or_eq_true] at known
  rcases known with code | fence
  · refine inside (p := fun addr => decide (addr.extractLsb' 5 5 = 9) = sfenceVma addr ∧
      decide (addr.setWidth 10 = 0x102#10) = decide (addr = sretCode) ∧ decide (addr.setWidth 10 = 0x105#10) = decide (addr = wfi) ∧
      (addr = wfi → sfenceVma addr = false ∧ addr ≠ sretCode)) (listed ?_) code
    decide
  · have number : addr.toNat / 2 ^ 5 = 9 := by
      have same := of_decide_eq_true fence
      rw [← BitVec.toNat_inj,BitVec.toNat_ushiftRight,Nat.shiftRight_eq_div_pow] at same
      exact same
    have middle : addr.extractLsb' 5 5 = 9 := by
      rw [← BitVec.toNat_inj,BitVec.extractLsb'_toNat,Nat.shiftRight_eq_div_pow,number]
      rfl
    have low : ∀ code : BitVec 12, code.toNat / 2 ^ 5 ≠ 9 → code.toNat < 1024 → addr.setWidth 10 ≠ code.setWidth 10 ∧ addr ≠ code := by
      intro code apart small
      refine ⟨fun same => ?_,fun same => apart (same ▸ number)⟩
      rw [← BitVec.toNat_inj,BitVec.toNat_setWidth,BitVec.toNat_setWidth] at same
      omega
    have ret := low sretCode (by decide) (by decide)
    have wait := low wfi (by decide) (by decide)
    refine ⟨by rw [fence,decide_eq_true middle],?_,?_,fun same => absurd same wait.2⟩
    · rw [decide_eq_false ret.2]
      exact decide_eq_false ret.1
    · rw [decide_eq_false wait.2]
      exact decide_eq_false wait.1

theorem system_exact {s : Regs} {i : Ports} (system : i.rwCmd = 4) : (raises s i ↔ required s i = true) ↔ slips s i = false := by
  have none' : isAccess i = false := by
    rw [isAccess,system]
    rfl
  have here : level s i = s.privLvl := if_pos system
  have fewer : slips s i = (slipsWfi s i || slipsUndefined s i) := by
    rw [slips,slipsCounter,slipsLevel,none',system]
    rfl
  have needs : required s i = systemRequired s i s.privLvl := by
    rw [required,none',if_neg Bool.false_ne_true,if_pos system,here]
  rw [raises_system system,fewer,needs,systemRequired,slipsWfi,slipsUndefined,decide_eq_true system]
  have suff : decide ((i.rwAddr.extractLsb' 8 2).toNat ≤ s.privLvl.toNat) = !decide (s.privLvl.toNat < (i.rwAddr.extractLsb' 8 2).toNat) := by
    rw [← decide_not]
    exact decide_eq_decide.mpr Nat.not_lt.symm
  rw [suff]
  cases known : defined i.rwAddr with
  | false =>
      have other : i.rwAddr ≠ wfi := by
        intro same
        rw [same] at known
        exact absurd known (by decide)
      rw [decide_eq_false other]
      cases decide (s.privLvl.toNat < (i.rwAddr.extractLsb' 8 2).toNat) <;> cases aliasRefused s i.rwAddr <;> simp
  | true =>
      obtain ⟨fence,ret,wait,alone⟩ := defined_alias known
      rw [aliasRefused,fence,ret,wait]
      by_cases waits : i.rwAddr = wfi
      · obtain ⟨noFence,noRet⟩ := alone waits
        rw [noFence,decide_eq_false noRet,decide_eq_true waits,waits]
        have table : ∀ (lvl : BitVec 2) (tw : Bool),
            ((decide (lvl.toNat < (wfi.extractLsb' 8 2).toNat) || (false && decide (lvl = privS) && s.mstatus.tvm ||
                false && decide (lvl = privS) && s.mstatus.tsr || true && tw)) = true ↔
              (decide (lvl.toNat < (wfi.extractLsb' 8 2).toNat) || !true || false && decide (lvl = privS) && s.mstatus.tvm ||
                false && decide (lvl = privS) && s.mstatus.tsr || true && decide (lvl.toNat < privM.toNat) && tw) = true) ↔
            (true && true && decide (lvl = privM) && tw || true && !true && !decide (lvl.toNat < (wfi.extractLsb' 8 2).toNat) &&
              !(false && decide (lvl = privS) && s.mstatus.tvm || false && decide (lvl = privS) && s.mstatus.tsr || true && tw)) = false := by
          simp only [Bool.false_and]
          decide
        exact table s.privLvl s.mstatus.tw
      · rw [decide_eq_false waits]
        simp [or_assoc]

theorem raises_vset {s : Regs} {i : Ports} (access : isAccess i = false) (system : i.rwCmd ≠ 4) : raises s i ↔ vsetRefused s i = true := by
  have none' : ¬ i.rwCmd ∈ [1,2,3,5,8] := by
    intro listed'
    rw [(isAccess_iff i).mpr listed'] at access
    cases access
  have outer : decide (i.rwCmd ∈ [1,2,3,8]) = false ∧ decide (i.rwCmd ∈ [1,2,3,5]) = false := by
    have few : ∀ c : BitVec 4, ¬ c ∈ [1,2,3,5,8] → decide (c ∈ [1,2,3,8]) = false ∧ decide (c ∈ [1,2,3,5]) = false := by
      decide
    exact few _ none'
  have update : updateAccessException s.toFile (pins s i) = false := by
    rw [updateAccessException,csrWe,show decide ((command s.toFile (pins s i)).rwCmd ∈ [1,2,3,8]) = false from outer.1]
    rfl
  have read : readAccessException s.toFile (pins s i) = false := by
    rw [readAccessException,csrRead,show decide ((command s.toFile (pins s i)).rwCmd ∈ [1,2,3,5]) = false from outer.2]
    rfl
  have insn : systemInsn (stateInput s i) = false := beq_eq_false_iff_ne.mpr system
  have privilege : privilegeViolation s.toState (stateInput s i) = false := by
    rw [privilegeViolation,decide_eq_false (show ¬ (stateInput s i).rwCmd ∈ [1,2,3,5,8] from none'),insn]
    simp [insnSfenceVm,insnSret,insnIs,insn]
  rw [raises,csrXcpt,access_exception,update,read,privilege]
  cases vsetRefused s i <;> simp [insnCall,insnBreak,insnWfi,insnIs,insn]

theorem vset_exact {s : Regs} {i : Ports} (access : isAccess i = false) (system : i.rwCmd ≠ 4) :
    (raises s i ↔ required s i = true) ↔ slips s i = false := by
  have quiet : slips s i = false := by
    have five : ¬ i.rwCmd = 5 := by
      intro read
      rw [isAccess,read] at access
      cases access
    rw [slips,slipsCounter,slipsLevel,slipsWfi,slipsUndefined,access,decide_eq_false system,decide_eq_false five]
    rfl
  have needs : required s i = vsetRefused s i := by
    rw [required,access,if_neg Bool.false_ne_true,if_neg system]
    rfl
  exact iff_of_true (needs ▸ raises_vset access system) quiet

theorem raised_exactly (s : Regs) (i : Ports) : (raises s i ↔ required s i = true) ↔ slips s i = false := by
  cases access : isAccess i with
  | true =>
      cases counter : userCounter i.rwAddr with
      | true => exact counter_exact access counter
      | false => exact plain_exact access counter
  | false =>
      by_cases system : i.rwCmd = 4
      · exact system_exact system
      · exact vset_exact access system

theorem raised_some {s : Regs} {i : Ports} (raised : raises s i) : (csrXcpt s.toState (stateInput s i)).isSome = true := by
  rw [raised]
  rfl

theorem raised_vset {s : Regs} {i : Ports} (raised : raises s i) : (vsetvl i = true → s.mstatus.vs = 0) ∧ i.rwCmd ≠ 9 := by
  have others : ∀ c : BitVec 4, (c == 6 || c == 7) = true ∨ c = 9 → [1,2,3,5,8].contains c = false ∧ c ≠ 4 := by decide
  refine ⟨fun vset => ?_,fun nine => ?_⟩
  · obtain ⟨access,system⟩ := others i.rwCmd (.inl vset)
    have refused := (raises_vset access system).mp raised
    rw [vsetRefused,vset,Bool.true_and] at refused
    exact of_decide_eq_true refused
  · obtain ⟨access,system⟩ := others i.rwCmd (.inr nine)
    have refused := (raises_vset access system).mp raised
    rw [vsetRefused,vsetvl,nine] at refused
    cases refused

theorem raised_break {s : Regs} {i : Ports} (raised : raises s i) : insnBreak (stateInput s i) = false := by
  by_contra breaks
  rw [Bool.not_eq_false,insnBreak,insnIs,Bool.and_eq_true] at breaks
  have system : i.rwCmd = 4 := beq_iff_eq.mp breaks.2
  have low : i.rwAddr.setWidth 10 = 1#10 := beq_iff_eq.mp breaks.1
  have number : i.rwAddr.toNat % 2 ^ 10 = 1 := by
    rw [← BitVec.toNat_inj,BitVec.toNat_setWidth] at low
    exact low
  have user : (i.rwAddr.extractLsb' 8 2).toNat = 0 := by
    rw [BitVec.extractLsb'_toNat,Nat.shiftRight_eq_div_pow]
    omega
  have fence : ¬ i.rwAddr.extractLsb' 5 5 = 9 := by
    rw [← BitVec.toNat_inj,BitVec.extractLsb'_toNat,Nat.shiftRight_eq_div_pow]
    change ¬ i.rwAddr.toNat / 2 ^ 5 % 2 ^ 5 = 9
    omega
  have refused := (raises_system system).mp raised
  rw [user,aliasRefused,decide_eq_false fence,low] at refused
  revert refused
  simp

theorem idle_break (s : Regs) (i : Ports) : insnBreak (stateInput s { i with rwCmd := 0 }) = false := by
  rw [insnBreak,insnIs,systemInsn]
  exact Bool.and_false _

theorem raised_event {s : Regs} {i : Ports} (raised : raises s i) (single : s.dcsr.step = false) :
    debugEvent s.toState (stateInput s i) = debugEvent s.toState (stateInput s { i with rwCmd := 0 }) ∧
      (debugEvent s.toState (stateInput s i) = .halt ∨ debugEvent s.toState (stateInput s i) = .resume ∨
        debugEvent s.toState (stateInput s i) = .none) := by
  have here : debugEvent s.toState (stateInput s i) =
      if i.debugHaltAck then .halt else if i.debugResumeAck && s.debugMode then .resume else .none := by
    rw [debugEvent,raised_break raised,single]
    simp only [Bool.false_and,Bool.and_false,Bool.false_eq_true,if_false]
    rfl
  have there : debugEvent s.toState (stateInput s { i with rwCmd := 0 }) =
      if i.debugHaltAck then .halt else if i.debugResumeAck && s.debugMode then .resume else .none := by
    rw [debugEvent,idle_break,single]
    simp only [Bool.false_and,Bool.and_false,Bool.false_eq_true,if_false]
    rfl
  refine ⟨here.trans there.symm,?_⟩
  rw [here]
  split
  · exact .inl rfl
  · split
    · exact .inr (.inl rfl)
    · exact .inr (.inr rfl)

theorem raised_debug {s : Regs} {i : Ports} (raised : raises s i) (single : s.dcsr.step = false) :
    (next s i).dcsr = (next s { i with rwCmd := 0 }).dcsr ∧ (next s i).dpc = (next s { i with rwCmd := 0 }).dpc := by
  obtain ⟨same,which⟩ := raised_event raised single
  have kept : dcsrInt s.toState (stateInput s i) = s.dcsr := by
    rw [dcsrInt,xcpt_unwritten (raised_some raised) rfl,if_neg Bool.false_ne_true]
  have kept' : dcsrInt s.toState (stateInput s { i with rwCmd := 0 }) = s.dcsr := by
    rw [dcsrInt,idle_unwritten rfl,if_neg Bool.false_ne_true]
  constructor
  · change (CsrBsc.next s.toState (stateInput s i)).dcsr = (CsrBsc.next s.toState (stateInput s { i with rwCmd := 0 })).dcsr
    rw [CsrBsc.next,CsrBsc.next,← same,kept,kept']
    rcases which with halt | resume | quiet
    · rw [halt]
    · rw [resume]
    · rw [quiet]
  · change nextDpc s i = nextDpc s { i with rwCmd := 0 }
    rw [nextDpc,nextDpc,← same,xcpt_stores csrDpc (raised_some raised),idle_stores rfl]
    rcases which with halt | resume | quiet
    · rw [halt]
    · rw [resume]
      rfl
    · rw [quiet]
      rfl

theorem performance_written (s : Regs) {addr : BitVec 12} (here : (mhpmCounter addr || mhpmEvent addr) = true) :
    otherWritten s addr = true := by
  have fp : fpCsrs.contains addr = false := outside (p := fun a => mhpmCounter a || mhpmEvent a) (listed (by decide)) here
  have vector : vectorCsrs.contains addr = false := outside (p := fun a => mhpmCounter a || mhpmEvent a) (listed (by decide)) here
  rw [otherWritten,fp,vector,if_neg Bool.false_ne_true,if_neg Bool.false_ne_true,Bool.or_assoc (storedCsrs.contains addr),here]
  simp

-- What a refused command leaves of each kind of register
section Refused

variable {s : Regs} {i : Ports} (raised : raises s i)
include raised

theorem raised_unwritten {addr : BitVec 12} (can : granted s addr = true) :
    writes addr s.toState (input s.toFile (pins s i)) = false := xcpt_unwritten (raised_some raised) can

theorem raised_stored {addr : BitVec 12} (can : granted s addr = true) (old : BitVec 64) : stored addr s.toFile (pins s i) old = old := by
  rw [stored,raised_unwritten raised can,if_neg Bool.false_ne_true]

theorem raised_word {addr : BitVec 12} (can : granted s addr = true) (old : BitVec 32) :
    storedWord addr s.toFile (pins s i) old = old := by
  rw [storedWord,raised_unwritten raised can,if_neg Bool.false_ne_true]

theorem raised_deleg : (next s i).medeleg = s.medeleg ∧ (next s i).mideleg = s.mideleg := by
  change (CsrBsc.next s.toState (stateInput s i)).medeleg = s.medeleg ∧ (CsrBsc.next s.toState (stateInput s i)).mideleg = s.mideleg
  rw [CsrBsc.next,xcpt_unwritten (raised_some raised) rfl,xcpt_unwritten (raised_some raised) rfl]
  cases debugEvent s.toState (stateInput s i) <;> exact ⟨rfl,rfl⟩

theorem raised_vector : (next s i).vl = s.vl ∧ (next s i).vtype = s.vtype := by
  obtain ⟨kept,none'⟩ := raised_vset raised
  change nextVl s i = s.vl ∧ nextVtype s i = s.vtype
  rw [nextVl,nextVtype,if_neg none']
  cases vset : vsetvl i with
  | false => exact ⟨rfl,rfl⟩
  | true =>
      rw [kept vset]
      exact ⟨rfl,rfl⟩

theorem raised_counters : perfWe s i = false := by
  by_contra writing
  rw [Bool.not_eq_false,perfWe,Bool.and_eq_true] at writing
  have can := performance_written s writing.2
  have write : writes i.rwAddr s.toState (stateInput s i) = true := by
    rw [writes,writing.1]
    exact beq_self_eq_true _
  rw [xcpt_unwritten (raised_some raised) (by rw [granted,can,Bool.or_true])] at write
  cases write

theorem raised_interrupts : (next s i).mtvec = (next s { i with rwCmd := 0 }).mtvec ∧ (next s i).mip = (next s { i with rwCmd := 0 }).mip := by
  have idle : ∀ addr, writes addr s.toState (input s.toFile (pins s { i with rwCmd := 0 })) = false := fun addr => idle_unwritten rfl addr
  change nextMtvec s.toFile (pins s i) = nextMtvec s.toFile (pins s { i with rwCmd := 0 }) ∧
    nextMip s.toFile (pins s i) = nextMip s.toFile (pins s { i with rwCmd := 0 })
  simp only [nextMtvec,nextMip,raised_unwritten raised (show granted s csrMtvec = true from rfl),
    raised_unwritten raised (show granted s csrSip = true from rfl),raised_unwritten raised (show granted s csrMip = true from rfl),
    idle,Bool.false_eq_true,if_false]
  exact ⟨rfl,rfl⟩

theorem raised_accrued : (next s i).fflags = (next s { i with rwCmd := 0 }).fflags ∧ (next s i).vxsat = (next s { i with rwCmd := 0 }).vxsat ∧
    (next s i).cycle = (next s { i with rwCmd := 0 }).cycle ∧ (next s i).instret = (next s { i with rwCmd := 0 }).instret := by
  have closed := fun addr => xcpt_stores (s := s) (i := i) addr (raised_some raised)
  have empty' := fun addr => idle_stores (s := s) (i := { i with rwCmd := 0 }) rfl addr
  refine ⟨?_,?_,?_,?_⟩
  · change nextFflags s i = nextFflags s { i with rwCmd := 0 }
    simp only [nextFflags,closed,empty',Bool.or_false,Bool.false_eq_true,if_false]
  · change nextVxsat s i = nextVxsat s { i with rwCmd := 0 }
    simp only [nextVxsat,closed,empty',Bool.or_false,Bool.false_eq_true,if_false]
  · change nextCycle s i = nextCycle s { i with rwCmd := 0 }
    simp only [nextCycle,closed,empty',Bool.false_eq_true,if_false]
  · change nextInstret s i = nextInstret s { i with rwCmd := 0 }
    simp only [nextInstret,closed,empty',Bool.false_eq_true,if_false]
    rfl

theorem raised_untouched : Untouched s i := by
  have closed := fun addr => xcpt_stores (s := s) (i := i) addr (raised_some raised)
  obtain ⟨medeleg,mideleg⟩ := raised_deleg raised
  obtain ⟨vl,vtype⟩ := raised_vector raised
  obtain ⟨mtvec,mip⟩ := raised_interrupts raised
  obtain ⟨fflags,vxsat,cycle,instret⟩ := raised_accrued raised
  exact {
    medeleg := medeleg
    mideleg := mideleg
    mie := by
      change nextMie s.toFile (pins s i) = s.mie
      simp only [nextMie,raised_unwritten raised (show granted s csrSie = true from rfl),
        raised_unwritten raised (show granted s csrMie = true from rfl),Bool.false_eq_true,if_false]
    mcounteren := raised_word raised rfl _
    mcountinhibit := raised_word raised rfl _
    mscratch := raised_stored raised rfl _
    menvcfg := raised_stored raised rfl _
    stvec := by
      change (if writes csrStvec s.toState (input s.toFile (pins s i)) then _ else s.stvec) = s.stvec
      rw [raised_unwritten raised rfl,if_neg Bool.false_ne_true]
    scounteren := raised_word raised rfl _
    senvcfg := raised_stored raised rfl _
    sscratch := raised_stored raised rfl _
    satp := by
      change nextSatp s.toFile (pins s i) = s.satp
      have write : (writes csrSatp s.toState (input s.toFile (pins s i)) && !satpRefused s.toFile (pins s i)) = false := xcpt_satp (raised_some raised)
      simp only [nextSatp,write,Bool.false_eq_true,if_false]
    frm := by
      change nextFrm s i = s.frm
      simp only [nextFrm,closed,Bool.false_eq_true,if_false]
    vxrm := by
      change nextVxrm s i = s.vxrm
      simp only [nextVxrm,closed,Bool.false_eq_true,if_false]
    vl := vl
    vtype := vtype
    dscratch := by
      change (if stores csrDscratch0 s i then _ else s.dscratch0) = s.dscratch0 ∧ (if stores csrDscratch1 s i then _ else s.dscratch1) = s.dscratch1
      rw [closed,closed,if_neg Bool.false_ne_true,if_neg Bool.false_ne_true]
      exact ⟨rfl,rfl⟩
    counters := raised_counters raised
    mtvec := mtvec
    mip := mip
    fflags := fflags
    vxsat := vxsat
    cycle := cycle
    instret := instret
    scountovf := rfl
    regTime := rfl
    debug := raised_debug raised }

end Refused

-- The code refuses what the architecture refuses, and a refused command leaves nothing behind, but for the four slips.
theorem access_controlled (s : Regs) (i : Ports) : Controlled s i ↔ slips s i = false := by
  constructor
  · intro controlled
    exact (raised_exactly s i).mp controlled.exact
  · intro none'
    exact ⟨(raised_exactly s i).mpr none',raised_untouched⟩

-- A hart at level U whose machine level has opened the cycle counter to the supervisor
def user : Regs := { CsrRegisters.reset with toFile := { CsrFile.reset with privLvl := privU, mcounteren := 1 } }

def readsCycle : Ports where
  rwCmd := 5
  rwAddr := csrCycle
  wDataCore := 0
  ex := false
  exCause := 0
  exOrigin := 0
  pc := 0
  retire := 1
  fregModified := false
  fcsrFlagsValid := false
  fcsrFlagsBits := 0
  vregModified := false
  vxsat := false
  debugHaltAck := false
  debugResumeAck := false
  timeIrq := false
  irq := 0
  mSoftIrq := false
  countOvf := false
  mhpmOvfBits := 0
  perfData := 0
  time := 0
  trapVectorAddr := 0
  coreId := 0

-- scounteren does not open it to level U, and the read is not refused.
theorem access_controlled_fails : ¬ ∀ s i, Controlled s i := by
  intro every
  have raised := (every user readsCycle).exact.mpr (by decide)
  revert raised
  unfold raises
  decide

end Sargantana.CsrAccess
