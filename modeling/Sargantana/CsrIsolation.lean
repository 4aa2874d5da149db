import Sargantana.CsrFile
import Sargantana.CsrPrivilege

-- What the levels S and U can do to the state of level M, and what S reads of it.
namespace Sargantana.CsrIsolation

open CsrBsc hiding next reset
open CsrFile StateMachine

-- What every run keeps whatever software does
structure Settled (f : File) : Prop where
  loaded : f.mtvecRstLoad = true → f.privLvl = privM
  mprv : f.debugMode = false → f.mstatus.mprv = true → f.privLvl = privM
  medeleg : ∀ b, medelegMask.getLsbD b = false → f.medeleg.getLsbD b = false

-- The hart runs at level S or U.
structure Lower (f : File) : Prop where
  level : f.privLvl = privS ∨ f.privLvl = privU
  running : f.debugMode = false

-- The fields of mstatus that belong to level M, and the others
def machineFields (m : Mstatus) := (m.mie,m.mpie,m.mpp,m.mprv,m.tvm,m.tw,m.tsr)
def otherFields (m : Mstatus) := (m.sd,m.sxl,m.uxl,m.mxr,m.sum,m.xs,m.fs,m.vs,m.spp,m.spie,m.upie,m.sie,m.uie)

structure MachineKept (f g : File) : Prop where
  medeleg : g.medeleg = f.medeleg
  mideleg : g.mideleg = f.mideleg
  mtvec : g.mtvec = f.mtvec
  mepc : g.mepc = f.mepc
  mcause : g.mcause = f.mcause
  mtval : g.mtval = f.mtval
  mscratch : g.mscratch = f.mscratch
  mcounteren : g.mcounteren = f.mcounteren
  mcountinhibit : g.mcountinhibit = f.mcountinhibit
  mstatus : machineFields g.mstatus = machineFields f.mstatus
  mie : ∀ b, f.mideleg.getLsbD b = false → g.mie.getLsbD b = f.mie.getLsbD b
  mip : ∀ b, f.mideleg.getLsbD b = false → b ∉ drivenBits → g.mip.getLsbD b = f.mip.getLsbD b

-- Two files that differ only in the state of level M
structure Alike (f g : File) : Prop where
  privLvl : g.privLvl = f.privLvl
  debugMode : g.debugMode = f.debugMode
  dcsr : g.dcsr = f.dcsr
  mstatus : otherFields g.mstatus = otherFields f.mstatus
  mie : ∀ b, f.mideleg.getLsbD b = true → g.mideleg.getLsbD b = true → g.mie.getLsbD b = f.mie.getLsbD b
  mip : ∀ b, f.mideleg.getLsbD b = true → g.mideleg.getLsbD b = true → g.mip.getLsbD b = f.mip.getLsbD b
  irq : g.irq = f.irq
  mtvecRstLoad : g.mtvecRstLoad = f.mtvecRstLoad
  menvcfg : g.menvcfg = f.menvcfg
  stvec : g.stvec = f.stvec
  scounteren : g.scounteren = f.scounteren
  senvcfg : g.senvcfg = f.senvcfg
  sscratch : g.sscratch = f.sscratch
  sepc : g.sepc = f.sepc
  scause : g.scause = f.scause
  stval : g.stval = f.stval
  satp : g.satp = f.satp

-- Every read of sstatus, and every read of sie and sip in the bits that are delegated alike, gives the same.
def SameReads (f g : File) : Prop :=
  ∀ p, p.rwAddr ∈ [csrSstatus,csrSie,csrSip] → ∀ b, (p.rwAddr = csrSstatus ∨ g.mideleg.getLsbD b = f.mideleg.getLsbD b) →
    (rDataCore g p).getLsbD b = (rDataCore f p).getLsbD b

-- The write of sie is not masked with mideleg: a write, a set or a clear at level S leaves a bit that is not
-- delegated with the written data, and mie has something else there.
def changesUndelegated (f : File) (p : Pins) : Prop :=
  f.privLvl = privS ∧ p.rwAddr = csrSie ∧ ∃ b ∈ [1,5,9,13], f.mideleg.getLsbD b = false ∧
    (p.rwCmd = 3 ∧ f.mie.getLsbD b = true ∨ p.rwCmd ∈ [1,2,8] ∧ p.wDataCore.getLsbD b ≠ f.mie.getLsbD b)

theorem level_seen {f : File} {p : Pins} (allowed : machine.allowed f p) (lower : Lower f) :
    privLvlO f.toState (input f p) = f.privLvl :=
  CsrPrivilege.level_seen (s := f.toState) (i := input f p) allowed lower.running

theorem lower_level {f : File} (lower : Lower f) : f.privLvl ≠ privM := by
  rcases lower.level with supervisor | user
  · rw [supervisor]
    decide
  · rw [user]
    decide

-- The registers of level M and of the debug mode are not written below level M.
def machineAddrs : List (BitVec 12) :=
  [csrMstatus,csrMedeleg,csrMideleg,csrMie,csrMtvec,csrMcounteren,csrMenvcfg,csrMcountinhibit,csrMscratch,csrMepc,csrMcause,csrMtval,csrMip,csrDcsr]

theorem machine_addr : ∀ addr ∈ machineAddrs, addr.extractLsb' 8 2 = 3 ∧ ¬ (0xc00 ≤ addr.toNat ∧ addr.toNat ≤ 0xc1f) := by
  simp only [machineAddrs,List.forall_mem_cons,List.not_mem_nil,false_implies,implies_true]
  decide

theorem machine_write {f : File} {p : Pins} {addr : BitVec 12} (listed : addr ∈ machineAddrs) (allowed : machine.allowed f p)
    (lower : Lower f) : writes addr f.toState (input f p) = false := by
  obtain ⟨high,plain⟩ := machine_addr addr listed
  by_contra write
  have access := (CsrPrivilege.write_access (by simpa using write) plain).1
  rw [high] at access
  exact lower_level lower ((level_seen allowed lower).symm.trans (CsrPrivilege.top_level _ access))

theorem settled_next {f : File} {p : Pins} (settled : Settled f) (allowed : machine.allowed f p) : Settled (next f p) := by
  refine ⟨fun loads => absurd loads (by simp [next]),?_,?_⟩
  · exact CsrPrivilege.mprv_next (s := f.toState) (i := input f p) allowed settled.mprv
  · intro b outside
    have kept := settled.medeleg b outside
    have registers : (next f p).medeleg = if writes csrMedeleg f.toState (input f p) then
        (f.medeleg &&& ~~~medelegMask) ||| (csrWdata f.toState (input f p) &&& medelegMask) else f.medeleg := by
      simp only [next,CsrBsc.next]
      cases debugEvent f.toState (input f p) <;> rfl
    rw [registers]
    split
    · simp [kept,outside]
    · exact kept

theorem reached_settled {f : File} (reached : Reached machine f) : Settled f := by
  refine reached.invariant Settled ⟨?_,?_,?_⟩ fun _ _ settled allowed => settled_next settled allowed
  · exact fun _ => rfl
  · exact fun _ set => absurd set (by decide)
  · intro b _
    simp [machine,CsrFile.reset,CsrBsc.reset]

theorem lower_mret {f : File} {p : Pins} (lower : Lower f) : mret f.toState (input f p) = false := by
  by_contra returns
  exact lower_level lower (CsrPrivilege.mret_parts (by simpa using returns)).2

theorem quiet_supervisor {f : File} {p : Pins} (quiet : trapsM f p = false) (trap : traps f.toState (input f p) = true) :
    trapTo f.toState (input f p) = privS := by
  simpa [trapsM,trap] using quiet

theorem next_mstatus {s : State} {i : Input} (running : s.debugMode = false) : (CsrBsc.next s i).mstatus = (returned s i).2 := by
  unfold CsrBsc.next
  cases event : debugEvent s i with
  | resume =>
      have stopped := CsrPrivilege.resume_debug event
      simp [running] at stopped
  | ebreak => rfl
  | halt => rfl
  | step => rfl
  | none => rfl

theorem returned_lower {f : File} {p : Pins} (lower : Lower f) (quiet : trapsM f p = false) :
    returned f.toState (input f p) =
      if traps f.toState (input f p) then
        (privS,{ mstatusDirty f.toState (input f p) with sie := false, spie := f.mstatus.sie, spp := f.privLvl.getLsbD 0 })
      else if sretDone f.toState (input f p) then
        (sppLvl f.toState,{ mstatusDirty f.toState (input f p) with
          sie := f.mstatus.spie
          spp := false
          spie := true
          mprv := (mstatusDirty f.toState (input f p)).mprv && !clearsMprv f.toState (sppLvl f.toState) })
      else (f.privLvl,mstatusDirty f.toState (input f p)) := by
  unfold returned
  simp only [lower_mret lower,Bool.false_eq_true,if_false]
  split
  next trap => rw [if_pos (quiet_supervisor quiet trap)]
  next => rfl

theorem dirty_machine {s : State} {i : Input} (kept : writes csrMstatus s i = false) :
    machineFields (mstatusDirty s i) = machineFields s.mstatus := by
  simp only [machineFields,mstatusDirty,mstatusInt,kept]
  split <;> rfl

theorem machine_fields {f : File} {p : Pins} (settled : Settled f) (allowed : machine.allowed f p) (lower : Lower f)
    (quiet : trapsM f p = false) : machineFields (next f p).mstatus = machineFields f.mstatus := by
  have dirty := dirty_machine (machine_write (by decide : csrMstatus ∈ machineAddrs) allowed lower)
  have clear : f.mstatus.mprv = false := by
    by_contra set
    exact lower_level lower (settled.mprv lower.running (by simpa using set))
  have status : (next f p).mstatus = (returned f.toState (input f p)).2 := next_mstatus lower.running
  rw [status,returned_lower lower quiet]
  simp only [machineFields,Prod.mk.injEq] at dirty
  obtain ⟨mie,mpie,mpp,mprv,tvm,tw,tsr⟩ := dirty
  split
  · simp only [machineFields,mie,mpie,mpp,mprv,tvm,tw,tsr]
  · split
    · simp only [machineFields,mie,mpie,mpp,mprv,tvm,tw,tsr,clear,Bool.false_and]
    · simp only [machineFields,mie,mpie,mpp,mprv,tvm,tw,tsr]

theorem supervisor_bits {b : Nat} : supervisorMask.getLsbD b = true ↔ b ∈ [1,5,9,13] := by
  by_cases within : b < 64
  · revert within
    revert b
    decide
  · have outside : supervisorMask.getLsbD b = false := BitVec.getLsbD_of_ge _ _ (by omega)
    simp only [outside,Bool.false_eq_true,false_iff,List.mem_cons,List.not_mem_nil,or_false]
    omega

theorem sie_rdata {f : File} {p : Pins} (here : p.rwAddr = csrSie) :
    csrRdata f.toState (input f p) = if csrRead f.toState (input f p) then f.mie &&& f.mideleg else 0 := by
  refine register_rdata ?_ ?_
  · simp [registers,here]
  · rw [here]
    decide

def isCounter (addr : BitVec 12) : Prop := 0xc00 ≤ addr.toNat ∧ addr.toNat ≤ 0xc1f

-- Away from the counters an access is granted by its address, the level and the debug mode alone.
theorem plain_access {s : State} {i : Input} (command : i.rwCmd ∈ [1,2,3,5,8]) (plain : ¬ isCounter i.rwAddr) :
    privilegeViolation s i =
      (decide (privLvlO s i &&& addrLvl i ≠ addrLvl i) || (decide (i.rwAddr >>> 4 = 0x7b) && !s.debugMode)) := by
  have system : systemInsn i = false := by
    simp only [systemInsn,beq_eq_false_iff_ne,ne_eq]
    intro system
    rw [system] at command
    exact absurd command (by decide)
  have sfence : insnSfenceVm s i = false := by simp [insnSfenceVm,system]
  have sret : insnSret s i = false := by simp [insnSret,insnIs,system]
  rw [isCounter] at plain
  simp only [privilegeViolation,accessViolation,command,decide_true,Bool.true_and,system,sfence,sret,Bool.false_and,Bool.or_false,
    if_neg plain]

-- At level S the registers of S are accessible, whatever level M has in its own state.
def supervisorAddrs : List (BitVec 12) := [csrSstatus,csrSie,csrSip]

theorem supervisor_plain {addr : BitVec 12} (listed : addr ∈ supervisorAddrs) : ¬ isCounter addr := by
  have parts : ∀ addr ∈ supervisorAddrs, ¬ (0xc00 ≤ addr.toNat ∧ addr.toNat ≤ 0xc1f) := by
    simp only [supervisorAddrs,List.forall_mem_cons,List.not_mem_nil,false_implies,implies_true]
    decide
  exact parts addr listed

theorem supervisor_access {f : File} {p : Pins} (listed : p.rwAddr ∈ supervisorAddrs) (command : p.rwCmd ∈ [1,2,3,5,8]) :
    privilegeViolation f.toState (input f p) = decide (privLvlO f.toState (input f p) &&& 1 ≠ 1) := by
  have parts : ∀ addr ∈ supervisorAddrs, addr.extractLsb' 8 2 = 1 ∧ addr >>> 4 ≠ 0x7b := by
    simp only [supervisorAddrs,List.forall_mem_cons,List.not_mem_nil,false_implies,implies_true]
    decide
  obtain ⟨level,debug⟩ := parts p.rwAddr listed
  have addr : (input f p).rwAddr = p.rwAddr := rfl
  rw [plain_access (i := input f p) command (supervisor_plain listed)]
  simp only [addrLvl,addr,level,debug,decide_false,Bool.false_and,Bool.or_false]

theorem lower_access {f : File} {p : Pins} (allowed : machine.allowed f p) (lower : Lower f) (listed : p.rwAddr ∈ supervisorAddrs)
    (command : p.rwCmd ∈ [1,2,3,5,8]) : privilegeViolation f.toState (input f p) = false ↔ f.privLvl = privS := by
  rw [supervisor_access listed command,level_seen allowed lower]
  rcases lower.level with supervisor | user
  · simp [supervisor,privS]
  · simp [user,privU,privS]

theorem sie_written {f : File} {p : Pins} (allowed : machine.allowed f p) (lower : Lower f) :
    writes csrSie f.toState (input f p) = true ↔ f.privLvl = privS ∧ p.rwAddr = csrSie ∧ p.rwCmd ∈ [1,2,3,8] := by
  have wider : p.rwCmd ∈ [1,2,3,8] → p.rwCmd ∈ [1,2,3,5,8] := by
    simp only [List.mem_cons,List.not_mem_nil,or_false]
    tauto
  constructor
  · intro write
    obtain ⟨here,command,granted⟩ := write_parts write
    have listed : p.rwAddr ∈ supervisorAddrs := by
      have addr : p.rwAddr = csrSie := here
      rw [addr]
      decide
    exact ⟨(lower_access allowed lower listed (wider command)).mp granted,here,command⟩
  · rintro ⟨supervisor,here,command⟩
    have granted := (lower_access allowed lower (by rw [here]; decide) (wider command)).mpr supervisor
    have addr : (input f p).rwAddr = csrSie := here
    have cmd : (input f p).rwCmd ∈ [1,2,3,8] := command
    simp only [writes,csrWe,addr,cmd,granted,decide_true,Bool.not_false,Bool.and_true,beq_self_eq_true]

theorem sie_wdata {f : File} {p : Pins} (write : writes csrSie f.toState (input f p) = true) {b : Nat}
    (undelegated : f.mideleg.getLsbD b = false) :
    (csrWdata f.toState (input f p)).getLsbD b = (decide (p.rwCmd ≠ 3) && p.wDataCore.getLsbD b) := by
  obtain ⟨here,command,granted⟩ := write_parts write
  have cmd : (input f p).rwCmd = p.rwCmd := rfl
  have data : (input f p).wDataCore = p.wDataCore := rfl
  have read : p.rwCmd ≠ 8 → (csrRdata f.toState (input f p)).getLsbD b = false := by
    intro other
    have reads : csrRead f.toState (input f p) = true := by
      rw [cmd] at command
      have listed : p.rwCmd ∈ [1,2,3,5] := by
        simp only [List.mem_cons,List.not_mem_nil,or_false] at command ⊢
        tauto
      simp only [csrRead,cmd,listed,granted,decide_true,Bool.not_false,Bool.and_true]
    rw [sie_rdata here,if_pos reads]
    simp [undelegated]
  simp only [csrWdata,cmd,data]
  split
  next set =>
    have other : p.rwCmd ≠ 8 := by
      rw [set]
      decide
    simp [set,read other]
  next =>
    split
    next clear =>
      have other : p.rwCmd ≠ 8 := by
        rw [clear]
        decide
      simp [clear,read other]
    next other => rw [decide_eq_true other,Bool.true_and]

theorem mie_kept {f : File} {p : Pins} (allowed : machine.allowed f p) (lower : Lower f) :
    (∀ b, f.mideleg.getLsbD b = false → (nextMie f p).getLsbD b = f.mie.getLsbD b) ↔ ¬ changesUndelegated f p := by
  have mie := machine_write (by decide : csrMie ∈ machineAddrs) allowed lower
  by_cases write : writes csrSie f.toState (input f p) = true
  · have updated : nextMie f p = written supervisorMask f.mie (csrWdata f.toState (input f p)) := by simp [nextMie,write]
    obtain ⟨supervisor,here,command⟩ := (sie_written allowed lower).mp write
    have bits : ∀ b ∈ [1,5,9,13], b < 64 ∧ supervisorMask.getLsbD b = true := by decide
    rw [updated]
    constructor
    · rintro kept ⟨_,_,b,listed,undelegated,differs⟩
      obtain ⟨within,masked⟩ := bits b listed
      have same := kept b undelegated
      rw [written_bit _ _ _ within,if_pos masked,sie_wdata write undelegated] at same
      rcases differs with ⟨clear,set⟩ | ⟨other,changed⟩
      · simp [clear,set] at same
      · have plain : p.rwCmd ≠ 3 := by
          intro clear
          rw [clear] at other
          exact absurd other (by decide)
        simp only [plain,ne_eq,not_false_iff,decide_true,Bool.true_and] at same
        exact changed same
    · intro fine b undelegated
      by_cases within : b < 64
      · rw [written_bit _ _ _ within]
        split
        next masked =>
          rw [sie_wdata write undelegated]
          by_contra differs
          refine fine ⟨supervisor,here,b,supervisor_bits.mp masked,undelegated,?_⟩
          by_cases clear : p.rwCmd = 3
          · exact .inl ⟨clear,by simpa [clear] using differs⟩
          · rw [decide_eq_true clear,Bool.true_and] at differs
            refine .inr ⟨?_,differs⟩
            simp only [List.mem_cons,List.not_mem_nil,or_false] at command ⊢
            tauto
        next => rfl
      · rw [BitVec.getLsbD_of_ge _ _ (by omega),BitVec.getLsbD_of_ge _ _ (by omega)]
  · have updated : nextMie f p = f.mie := by simp [nextMie,write,mie]
    rw [updated]
    refine iff_of_true (fun _ _ => rfl) ?_
    rintro ⟨supervisor,here,_,_,_,differs⟩
    refine write ((sie_written allowed lower).mpr ⟨supervisor,here,?_⟩)
    rcases differs with ⟨clear,_⟩ | ⟨other,_⟩
    · rw [clear]
      decide
    · simp only [List.mem_cons,List.not_mem_nil,or_false] at other ⊢
      tauto

theorem mip_kept {f : File} {p : Pins} (allowed : machine.allowed f p) (lower : Lower f) {b : Nat}
    (undelegated : f.mideleg.getLsbD b = false) (free : b ∉ drivenBits) : (nextMip f p).getLsbD b = f.mip.getLsbD b := by
  have mip := machine_write (by decide : csrMip ∈ machineAddrs) allowed lower
  by_cases within : b < 64
  · unfold nextMip
    simp only [mip,Bool.false_eq_true,if_false]
    split
    · rw [written_bit _ _ _ within,if_neg (by simp [undelegated])]
    · have bits : ∀ c < 64, c ∉ drivenBits → [0x888,0x2000,0x800,0x80,0x8].all (fun mask : BitVec 64 => !mask.getLsbD c) = true := by
        decide
      have clear : ∀ mask ∈ ([0x888,0x2000,0x800,0x80,0x8] : List (BitVec 64)), mask.getLsbD b = false := by
        intro mask listed
        simpa using List.all_eq_true.mp (bits b within free) mask listed
      have zero : ∀ (one : Bool) (mask : BitVec 64), mask ∈ [0x888,0x2000,0x800,0x80,0x8] →
          (if one = true then mask else 0).getLsbD b = false := by
        intro one mask listed
        cases one
        · exact BitVec.getLsbD_zero
        · exact clear mask listed
      simp only [mipDriven,BitVec.getLsbD_or,BitVec.getLsbD_and,BitVec.getLsbD_not,within,decide_true,
        clear 0x888 (by decide),zero _ 0x2000 (by decide),zero _ 0x800 (by decide),zero _ 0x80 (by decide),zero _ 0x8 (by decide),
        Bool.not_false,Bool.and_true,Bool.or_false]
  · rw [BitVec.getLsbD_of_ge _ _ (by omega),BitVec.getLsbD_of_ge _ _ (by omega)]

theorem delegation_kept {f : File} {p : Pins} (allowed : machine.allowed f p) (lower : Lower f) :
    (next f p).medeleg = f.medeleg ∧ (next f p).mideleg = f.mideleg := by
  have medeleg := machine_write (by decide : csrMedeleg ∈ machineAddrs) allowed lower
  have mideleg := machine_write (by decide : csrMideleg ∈ machineAddrs) allowed lower
  have exceptions : (next f p).medeleg = (CsrBsc.next f.toState (input f p)).medeleg := rfl
  have interrupts : (next f p).mideleg = (CsrBsc.next f.toState (input f p)).mideleg := rfl
  rw [exceptions,interrupts]
  simp only [CsrBsc.next,medeleg,mideleg]
  cases debugEvent f.toState (input f p) <;> exact ⟨rfl,rfl⟩

theorem machine_kept {f : File} {p : Pins} (settled : Settled f) (allowed : machine.allowed f p) (lower : Lower f)
    (quiet : trapsM f p = false) : MachineKept f (next f p) ↔ ¬ changesUndelegated f p := by
  have unwritten : ∀ addr ∈ machineAddrs, writes addr f.toState (input f p) = false := fun addr listed =>
    machine_write listed allowed lower
  have loaded : f.mtvecRstLoad = false := by
    by_contra loads
    exact lower_level lower (settled.loaded (by simpa using loads))
  constructor
  · exact fun kept => (mie_kept allowed lower).mp kept.mie
  · intro fine
    refine ⟨(delegation_kept allowed lower).1,(delegation_kept allowed lower).2,?_,?_,?_,?_,?_,?_,?_,?_,?_,?_⟩
    · simp [next,nextMtvec,unwritten csrMtvec (by decide),loaded]
    · simp [next,quiet,unwritten csrMepc (by decide)]
    · simp [next,stored,quiet,unwritten csrMcause (by decide)]
    · simp [next,stored,quiet,unwritten csrMtval (by decide)]
    · simp [next,stored,unwritten csrMscratch (by decide)]
    · simp [next,storedWord,unwritten csrMcounteren (by decide)]
    · simp [next,storedWord,unwritten csrMcountinhibit (by decide)]
    · exact machine_fields settled allowed lower quiet
    · exact (mie_kept allowed lower).mpr fine
    · exact fun b undelegated free => mip_kept allowed lower undelegated free

-- What S sees: two files with the same view are read alike and stay so.
structure View (f g : File) : Prop where
  privLvl : g.privLvl = f.privLvl
  debugMode : g.debugMode = f.debugMode
  dcsr : g.dcsr = f.dcsr
  mstatus : otherFields g.mstatus = otherFields f.mstatus
  mie : ∀ b, f.mideleg.getLsbD b = true → g.mideleg.getLsbD b = true → g.mie.getLsbD b = f.mie.getLsbD b
  mip : ∀ b, f.mideleg.getLsbD b = true → g.mideleg.getLsbD b = true → g.mip.getLsbD b = f.mip.getLsbD b
  irq : g.irq = f.irq

theorem view_alike {f g : File} (alike : Alike f g) : View f g :=
  ⟨alike.privLvl,alike.debugMode,alike.dcsr,alike.mstatus,alike.mie,alike.mip,alike.irq⟩

theorem sstatus_bits (m : Mstatus) : m.bits &&& smodeStatusReadMask =
    flag m.sd ++ 0#27 ++ 0#2 ++ m.uxl ++ 0#9 ++ 0#1 ++ 0#1 ++ 0#1 ++ flag m.mxr ++ flag m.sum ++ 0#1 ++ m.xs ++ m.fs ++
      0#2 ++ m.vs ++ flag m.spp ++ 0#1 ++ 0#1 ++ flag m.spie ++ flag m.upie ++ 0#1 ++ 0#1 ++ flag m.sie ++ flag m.uie := by
  have mask : smodeStatusReadMask = 1#1 ++ 0#27 ++ 0#2 ++ 3#2 ++ 0#9 ++ 0#1 ++ 0#1 ++ 0#1 ++ 1#1 ++ 1#1 ++ 0#1 ++ 3#2 ++ 3#2 ++
      0#2 ++ 3#2 ++ 1#1 ++ 0#1 ++ 0#1 ++ 1#1 ++ 1#1 ++ 0#1 ++ 0#1 ++ 1#1 ++ 1#1 := by decide
  have one : ∀ x : BitVec 1, x &&& 1#1 = x := by decide
  have two : ∀ x : BitVec 2, x &&& 3#2 = x := by decide
  rw [mask,Mstatus.bits]
  repeat erw [BitVec.and_append]
  simp only [one,two,BitVec.and_zero]

theorem sstatus_alike {m n : Mstatus} (same : otherFields n = otherFields m) :
    n.bits &&& smodeStatusReadMask = m.bits &&& smodeStatusReadMask := by
  simp only [otherFields,Prod.mk.injEq] at same
  obtain ⟨sd,sxl,uxl,mxr,sum,xs,fs,vs,spp,spie,upie,sie,uie⟩ := same
  rw [sstatus_bits,sstatus_bits,sd,uxl,mxr,sum,xs,fs,vs,spp,spie,upie,sie,uie]

theorem seen_alike {f g : File} (view : View f g) (p : Pins) :
    privLvlO g.toState (input g p) = privLvlO f.toState (input f p) := by
  have prv : g.dcsr.prv = f.dcsr.prv := by rw [view.dcsr]
  simp only [privLvlO,view.privLvl,prv]
  rfl

theorem violation_alike {f g : File} (view : View f g) {p : Pins} (plain : ¬ isCounter p.rwAddr)
    (command : p.rwCmd ∈ [1,2,3,5,8]) :
    privilegeViolation g.toState (input g p) = privilegeViolation f.toState (input f p) := by
  rw [plain_access (i := input g p) command plain,plain_access (i := input f p) command plain,seen_alike view,view.debugMode]
  rfl

theorem read_alike {f g : File} (view : View f g) {p : Pins} (plain : ¬ isCounter p.rwAddr) :
    csrRead g.toState (input g p) = csrRead f.toState (input f p) := by
  have cmds : ∀ h : File, csrRead h.toState (input h p) = (decide (p.rwCmd ∈ [1,2,3,5]) && !privilegeViolation h.toState (input h p)) :=
    fun _ => rfl
  by_cases reads : p.rwCmd ∈ [1,2,3,5]
  · have command : p.rwCmd ∈ [1,2,3,5,8] := by
      simp only [List.mem_cons,List.not_mem_nil,or_false] at reads ⊢
      tauto
    rw [cmds,cmds,violation_alike view plain command]
  · rw [cmds,cmds,decide_eq_false reads,Bool.false_and,Bool.false_and]

theorem write_alike {f g : File} (view : View f g) {p : Pins} (plain : ¬ isCounter p.rwAddr) :
    csrWe g.toState (input g p) = csrWe f.toState (input f p) := by
  have cmds : ∀ h : File, csrWe h.toState (input h p) = (decide (p.rwCmd ∈ [1,2,3,8]) && !privilegeViolation h.toState (input h p)) :=
    fun _ => rfl
  by_cases write : p.rwCmd ∈ [1,2,3,8]
  · have command : p.rwCmd ∈ [1,2,3,5,8] := by
      simp only [List.mem_cons,List.not_mem_nil,or_false] at write ⊢
      tauto
    rw [cmds,cmds,violation_alike view plain command]
  · rw [cmds,cmds,decide_eq_false write,Bool.false_and,Bool.false_and]

theorem sstatus_rdata {f : File} {p : Pins} (here : p.rwAddr = csrSstatus) :
    csrRdata f.toState (input f p) = if csrRead f.toState (input f p) then f.mstatus.bits &&& smodeStatusReadMask else 0 := by
  have addr : (input f p).rwAddr = csrSstatus := here
  unfold csrRdata
  rw [addr]
  cases csrRead f.toState (input f p) <;> rfl

theorem delegated_bits {mie mie' mideleg mideleg' : BitVec 64} {b : Nat} (same : mideleg'.getLsbD b = mideleg.getLsbD b)
    (equal : mideleg.getLsbD b = true → mideleg'.getLsbD b = true → mie'.getLsbD b = mie.getLsbD b) :
    (mie' &&& mideleg').getLsbD b = (mie &&& mideleg).getLsbD b := by
  rw [BitVec.getLsbD_and,BitVec.getLsbD_and,same]
  cases delegated : mideleg.getLsbD b with
  | false => simp
  | true => rw [equal delegated (same.trans delegated)]

theorem seip_bit (line : Bool) (b : Nat) : (if line = true then (0x200 : BitVec 64) else 0).getLsbD b = (line && decide (b = 9)) := by
  cases line
  · simp
  · by_cases within : b < 64
    · have bits : ∀ c < 64, (0x200 : BitVec 64).getLsbD c = decide (c = 9) := by decide
      simpa using bits b within
    · have outside : ((0x200 : BitVec 64)).getLsbD b = false := BitVec.getLsbD_of_ge _ _ (by omega)
      have other : b ≠ 9 := by omega
      simpa [other] using outside

theorem view_reads {f g : File} (view : View f g) : SameReads f g := by
  intro p listed b same
  have vset : ∀ h : File, vsetvlInsn (input h p) = (p.rwCmd == 6 || p.rwCmd == 7) := fun _ => rfl
  have plain : p.rwAddr ≠ csrMip := by
    intro mip
    rw [mip] at listed
    exact absurd listed (by decide)
  have reads := read_alike view (supervisor_plain listed)
  simp only [rDataCore,vset,if_neg plain]
  split
  · rfl
  · simp only [List.mem_cons,List.not_mem_nil,or_false] at listed
    rcases listed with status | sie | sip
    · have other : p.rwAddr ≠ csrSip := by
        rw [status]
        decide
      rw [if_neg other,if_neg other,sstatus_rdata status,sstatus_rdata status,reads,sstatus_alike view.mstatus]
    · have other : p.rwAddr ≠ csrSip := by
        rw [sie]
        decide
      have deleg := same.resolve_left (by rw [sie]; decide)
      rw [if_neg other,if_neg other,sie_rdata sie,sie_rdata sie,reads]
      split
      · exact delegated_bits deleg (view.mie b)
      · rfl
    · have deleg := same.resolve_left (by rw [sip]; decide)
      rw [if_pos sip,if_pos sip,sip_rdata sip,sip_rdata sip,reads,BitVec.getLsbD_or,BitVec.getLsbD_or,
        seip_bit,seip_bit,view.irq]
      have line : (f.irq.getLsbD 1 && g.mideleg.getLsbD 9 && decide (b = 9)) = (f.irq.getLsbD 1 && f.mideleg.getLsbD 9 && decide (b = 9)) := by
        by_cases nine : b = 9
        · rw [← nine,deleg]
        · simp [nine]
      rw [line]
      cases csrRead f.toState (input f p)
      · rfl
      · simp only [if_true,delegated_bits deleg (view.mip b)]

theorem View.symm {f g : File} (view : View f g) : View g f :=
  ⟨view.privLvl.symm,view.debugMode.symm,view.dcsr.symm,view.mstatus.symm,fun b one two => (view.mie b two one).symm,
    fun b one two => (view.mip b two one).symm,view.irq.symm⟩

-- A trap to S is never one for an illegal instruction; the others do not depend on the state of level M.
theorem illegal_undelegated {f : File} (settled : Settled f) : delegated f.toState illegalInstr = false :=
  settled.medeleg 2 (by decide)

theorem request_undelegated {f : File} (settled : Settled f) : delegated f.toState debugRequest = false :=
  settled.medeleg 24 (by decide)

theorem delegated_xcpt {f g : File} {p : Pins} {cause : BitVec 64} (settled : Settled f) (view : View f g)
    (xcpt : csrXcpt f.toState (input f p) = some cause) (deleg : delegated f.toState cause = true) :
    (csrXcpt g.toState (input g p)).isSome = true := by
  have legal : cause ≠ illegalInstr := by
    rintro rfl
    simp [illegal_undelegated settled] at deleg
  have seen := seen_alike view p
  have calls : insnCall (input g p) = insnCall (input f p) := rfl
  have breaks : insnBreak (input g p) = insnBreak (input f p) := rfl
  unfold csrXcpt at xcpt ⊢
  split
  · rfl
  · split
    · rfl
    · split at xcpt
      · cases xcpt
        exact absurd rfl legal
      · split at xcpt
        · cases xcpt
          exact absurd rfl legal
        · rw [calls,breaks,seen,view.debugMode,view.dcsr]
          split at xcpt
          next call => simp [call]
          next call =>
            rw [if_neg call]
            split at xcpt
            next stop =>
              rw [if_pos stop]
              split at xcpt
              next here => simp [here]
              next => cases xcpt
            next stop =>
              split at xcpt
              · cases xcpt
                exact absurd rfl legal
              · cases xcpt

theorem traps_along {f g : File} {p : Pins} (settled : Settled f) (view : View f g) (lower : Lower f) (quiet : trapsM f p = false)
    (trap : traps f.toState (input f p) = true) : traps g.toState (input g p) = true := by
  have destination := quiet_supervisor quiet trap
  have running : g.debugMode = false := view.debugMode.trans lower.running
  have cause : (p.ex && delegated f.toState p.exCause) = true ∨ (csrXcpt f.toState (input f p)).any (delegated f.toState) = true := by
    unfold trapTo at destination
    split at destination
    next deleg => exact (Bool.or_eq_true _ _).mp deleg
    next => exact absurd destination (by decide)
  simp only [traps,running,Bool.not_false,Bool.and_true,Bool.or_eq_true,Bool.and_eq_true,decide_eq_true_eq]
  rcases cause with outer | inner
  · simp only [Bool.and_eq_true] at outer
    refine .inl ⟨?_,outer.1⟩
    intro request
    have same : p.exCause = debugRequest := request
    rw [same,request_undelegated settled] at outer
    exact absurd outer.2 (by decide)
  · refine .inr ?_
    cases xcpt : csrXcpt f.toState (input f p) with
    | none => simp [xcpt] at inner
    | some found => exact delegated_xcpt settled view xcpt (by simpa [xcpt] using inner)

theorem traps_alike {f g : File} {p : Pins} (settled : Settled f) (settled' : Settled g) (view : View f g) (lower : Lower f)
    (lower' : Lower g) (quiet : trapsM f p = false) (quiet' : trapsM g p = false) :
    traps g.toState (input g p) = traps f.toState (input f p) := by
  rw [Bool.eq_iff_iff]
  exact ⟨traps_along settled' view.symm lower' quiet',traps_along settled view lower quiet⟩

theorem violation_quiet {s : State} {i : Input} (running : s.debugMode = false) (none' : traps s i = false) :
    privilegeViolation s i = false := by
  by_contra violation
  have refused : (csrXcpt s i).isSome = true := by
    unfold csrXcpt
    split
    · rfl
    · rw [if_pos (by simpa using violation)]
      rfl
  simp [traps,refused,running] at none'

-- Without a trap sret is done, since tsr at level S would be a violation.
theorem sret_quiet {s : State} {i : Input} (running : s.debugMode = false) (none' : traps s i = false) : sretDone s i = sret s i := by
  have granted := violation_quiet running none'
  simp only [privilegeViolation,Bool.or_eq_false_iff] at granted
  cases returns : sret s i with
  | false => simp [sretDone,returns]
  | true =>
      have trapped := granted.2
      have insn : insnSret s i = true := returns
      simp only [insn,Bool.true_and] at trapped
      simp [sretDone,returns,trapped]

theorem sret_alike {f g : File} {p : Pins} (view : View f g) : sret g.toState (input g p) = sret f.toState (input f p) := by
  simp only [sret,insnSret,privSufficient,view.privLvl]
  rfl

theorem writes_alike {f g : File} (view : View f g) {p : Pins} {addr : BitVec 12} (plain : ¬ isCounter addr) :
    writes addr g.toState (input g p) = writes addr f.toState (input f p) := by
  have same : (input g p).rwAddr = (input f p).rwAddr := rfl
  by_cases here : p.rwAddr = addr
  · rw [writes,writes,write_alike view (by rwa [here]),same]
  · have other : (p.rwAddr == addr) = false := beq_eq_false_iff_ne.mpr here
    have both : ∀ h : File, writes addr h.toState (input h p) = (csrWe h.toState (input h p) && (p.rwAddr == addr)) := fun _ => rfl
    rw [both,both,other,Bool.and_false,Bool.and_false]

theorem wdata_bits {f g : File} {p : Pins} {b : Nat}
    (same : (csrRdata g.toState (input g p)).getLsbD b = (csrRdata f.toState (input f p)).getLsbD b) :
    (csrWdata g.toState (input g p)).getLsbD b = (csrWdata f.toState (input f p)).getLsbD b := by
  have cmd : (input g p).rwCmd = (input f p).rwCmd := rfl
  have data : (input g p).wDataCore = (input f p).wDataCore := rfl
  simp only [csrWdata,cmd,data]
  split
  · rw [BitVec.getLsbD_or,BitVec.getLsbD_or,same]
  · split
    · rw [BitVec.getLsbD_and,BitVec.getLsbD_and,same]
    · rfl

theorem sstatus_wdata {f g : File} (view : View f g) {p : Pins} (here : p.rwAddr = csrSstatus) :
    csrWdata g.toState (input g p) = csrWdata f.toState (input f p) := by
  refine BitVec.eq_of_getLsbD_eq fun b _ => wdata_bits ?_
  rw [sstatus_rdata here,sstatus_rdata here,read_alike view (supervisor_plain (by rw [here]; decide)),sstatus_alike view.mstatus]

theorem dirty_alike {f g : File} (view : View f g) (p : Pins) :
    dirtyFp g.toState (input g p) = dirtyFp f.toState (input f p) ∧ dirtyV g.toState (input g p) = dirtyV f.toState (input f p) := by
  have fields := view.mstatus
  simp only [otherFields,Prod.mk.injEq] at fields
  obtain ⟨_,_,_,_,_,_,fs,vs,_⟩ := fields
  have pins : ∀ (h : File) (list : List (BitVec 12)), (csrWe h.toState (input h p) && decide ((input h p).rwAddr ∈ list)) =
      (csrWe h.toState (input h p) && decide (p.rwAddr ∈ list)) := fun _ _ => rfl
  have both : ∀ list : List (BitVec 12), (∀ addr ∈ list, ¬ isCounter addr) →
      (csrWe g.toState (input g p) && decide (p.rwAddr ∈ list)) = (csrWe f.toState (input f p) && decide (p.rwAddr ∈ list)) := by
    intro list plain
    by_cases listed : p.rwAddr ∈ list
    · rw [write_alike view (plain _ listed)]
    · simp [listed]
  have fp := both [1,2,3] (by simp only [List.forall_mem_cons,List.not_mem_nil,false_implies,implies_true,isCounter]; decide)
  have vector := both [9,0xa,0xf] (by simp only [List.forall_mem_cons,List.not_mem_nil,false_implies,implies_true,isCounter]; decide)
  refine ⟨?_,?_⟩
  · rw [dirtyFp,dirtyFp,pins,pins,fp,fs]
    rfl
  · rw [dirtyV,dirtyV,pins,pins,vector,vs]
    rfl

theorem status_alike {f g : File} {p : Pins} (view : View f g) (allowed : machine.allowed f p) (allowed' : machine.allowed g p)
    (lower : Lower f) (lower' : Lower g) :
    otherFields (mstatusDirty g.toState (input g p)) = otherFields (mstatusDirty f.toState (input f p)) := by
  have unwritten := machine_write (by decide : csrMstatus ∈ machineAddrs) allowed lower
  have unwritten' := machine_write (by decide : csrMstatus ∈ machineAddrs) allowed' lower'
  have same := writes_alike view (p := p) (supervisor_plain (by decide : csrSstatus ∈ supervisorAddrs))
  obtain ⟨fp,vector⟩ := dirty_alike view p
  have fields := view.mstatus
  simp only [otherFields,Prod.mk.injEq] at fields
  obtain ⟨sd,sxl,uxl,mxr,sum,xs,fs,vs,spp,spie,upie,sie,uie⟩ := fields
  by_cases write : writes csrSstatus f.toState (input f p) = true
  · have data := sstatus_wdata view (write_parts write).1
    simp only [mstatusDirty,mstatusInt,same,write,if_true,data,fp,vector,otherFields,sd,sxl,uxl,xs,upie,uie]
  · simp only [mstatusDirty,mstatusInt,same,write,unwritten,unwritten',Bool.false_eq_true,if_false,fp,vector,otherFields,
      mxr,sum,xs,fs,vs,spp,spie,upie,sie,uie]

theorem returned_alike {f g : File} {p : Pins} (settled : Settled f) (settled' : Settled g) (view : View f g)
    (allowed : machine.allowed f p) (allowed' : machine.allowed g p) (lower : Lower f) (lower' : Lower g)
    (quiet : trapsM f p = false) (quiet' : trapsM g p = false) :
    (returned g.toState (input g p)).1 = (returned f.toState (input f p)).1 ∧
      otherFields (returned g.toState (input g p)).2 = otherFields (returned f.toState (input f p)).2 := by
  have status := status_alike view allowed allowed' lower lower'
  have traps' := traps_alike settled settled' view lower lower' quiet quiet'
  have fields := view.mstatus
  simp only [otherFields,Prod.mk.injEq] at status fields
  obtain ⟨_,_,_,_,_,_,_,_,spp,spie,_,sie,_⟩ := fields
  rw [returned_lower lower quiet,returned_lower lower' quiet',traps']
  split
  · simp only [otherFields,status,sie,view.privLvl,true_and]
  next none' =>
    have returns : sretDone g.toState (input g p) = sretDone f.toState (input f p) := by
      rw [sret_quiet lower.running (by simpa using none'),sret_quiet lower'.running (by simpa [traps'] using none'),sret_alike view]
    have level : sppLvl g.toState = sppLvl f.toState := by rw [sppLvl,sppLvl,spp]
    rw [returns]
    split
    · simp only [otherFields,status,spie,level,true_and]
    · simp only [otherFields,status,view.privLvl,true_and]

theorem stepPrv_lower {f : File} {p : Pins} (lower : Lower f) (quiet : trapsM f p = false) :
    stepPrv f.toState (input f p) = (returned f.toState (input f p)).1 := by
  unfold stepPrv
  split
  · rfl
  next still =>
    simp only [Bool.or_eq_true,not_or,Bool.not_eq_true] at still
    obtain ⟨⟨⟨calm,accepted⟩,stays⟩,_⟩ := still
    have none' : traps f.toState (input f p) = false := by simp [traps,calm,accepted]
    have returns : sretDone f.toState (input f p) = false := by simp [sretDone,stays]
    rw [returned_lower lower quiet,if_neg (by simp [none']),if_neg (by simp [returns])]

theorem event_alike {f g : File} (view : View f g) (p : Pins) :
    debugEvent g.toState (input g p) = debugEvent f.toState (input f p) := by
  simp only [debugEvent,ebreakAt,view.privLvl,view.debugMode,view.dcsr]
  rfl

theorem core_alike {f g : File} {p : Pins} (settled : Settled f) (settled' : Settled g) (view : View f g)
    (allowed : machine.allowed f p) (allowed' : machine.allowed g p) (lower : Lower f) (lower' : Lower g)
    (quiet : trapsM f p = false) (quiet' : trapsM g p = false) :
    (next g p).privLvl = (next f p).privLvl ∧ (next g p).debugMode = (next f p).debugMode ∧ (next g p).dcsr = (next f p).dcsr ∧
      otherFields (next g p).mstatus = otherFields (next f p).mstatus := by
  obtain ⟨level,status⟩ := returned_alike settled settled' view allowed allowed' lower lower' quiet quiet'
  have event := event_alike view p
  have debug : dcsrInt g.toState (input g p) = dcsrInt f.toState (input f p) := by
    simp [dcsrInt,machine_write (by decide : csrDcsr ∈ machineAddrs) allowed lower,
      machine_write (by decide : csrDcsr ∈ machineAddrs) allowed' lower',view.dcsr]
  have steps : stepPrv g.toState (input g p) = stepPrv f.toState (input f p) := by
    rw [stepPrv_lower lower quiet,stepPrv_lower lower' quiet',level]
  have mstatus : otherFields (next g p).mstatus = otherFields (next f p).mstatus := by
    have here : (next f p).mstatus = (returned f.toState (input f p)).2 := next_mstatus lower.running
    have there : (next g p).mstatus = (returned g.toState (input g p)).2 := next_mstatus lower'.running
    rw [here,there,status]
  simp only [next,CsrBsc.next,event,debug] at mstatus ⊢
  refine ⟨?_,?_,?_,mstatus⟩
  · cases debugEvent f.toState (input f p) with
    | ebreak => rfl
    | halt => rfl
    | step => rfl
    | resume => simp only [view.dcsr]
    | none => exact level
  · cases debugEvent f.toState (input f p) with
    | ebreak => rfl
    | halt => rfl
    | step => rfl
    | resume => rfl
    | none => exact view.debugMode
  · cases debugEvent f.toState (input f p) with
    | ebreak => simp only [view.privLvl]
    | halt => simp only [view.privLvl]
    | step => simp only [steps]
    | resume => rfl
    | none => rfl

theorem written_alike {mask mask' old old' w w' : BitVec 64} {b : Nat} (masks : mask'.getLsbD b = mask.getLsbD b)
    (olds : old'.getLsbD b = old.getLsbD b) (data : w'.getLsbD b = w.getLsbD b) :
    (written mask' old' w').getLsbD b = (written mask old w).getLsbD b := by
  by_cases within : b < 64
  · rw [written_bit _ _ _ within,written_bit _ _ _ within,masks,olds,data]
  · rw [BitVec.getLsbD_of_ge _ _ (by omega),BitVec.getLsbD_of_ge _ _ (by omega)]

theorem mie_alike {f g : File} {p : Pins} (view : View f g) (allowed : machine.allowed f p) (allowed' : machine.allowed g p)
    (lower : Lower f) (lower' : Lower g) {b : Nat} (one : f.mideleg.getLsbD b = true) (two : g.mideleg.getLsbD b = true) :
    (nextMie g p).getLsbD b = (nextMie f p).getLsbD b := by
  have mie := machine_write (by decide : csrMie ∈ machineAddrs) allowed lower
  have mie' := machine_write (by decide : csrMie ∈ machineAddrs) allowed' lower'
  have same := writes_alike view (p := p) (supervisor_plain (by decide : csrSie ∈ supervisorAddrs))
  simp only [nextMie,same,mie,mie',Bool.false_eq_true,if_false]
  split
  next write =>
    have here : p.rwAddr = csrSie := (write_parts write).1
    refine written_alike rfl (view.mie b one two) (wdata_bits ?_)
    rw [sie_rdata here,sie_rdata here,read_alike view (supervisor_plain (by rw [here]; decide))]
    split
    · exact delegated_bits (two.trans one.symm) (view.mie b)
    · rfl
  next => exact view.mie b one two

theorem mip_alike {f g : File} {p : Pins} (view : View f g) (allowed : machine.allowed f p) (allowed' : machine.allowed g p)
    (lower : Lower f) (lower' : Lower g) {b : Nat} (one : f.mideleg.getLsbD b = true) (two : g.mideleg.getLsbD b = true) :
    (nextMip g p).getLsbD b = (nextMip f p).getLsbD b := by
  have mip := machine_write (by decide : csrMip ∈ machineAddrs) allowed lower
  have mip' := machine_write (by decide : csrMip ∈ machineAddrs) allowed' lower'
  have same := writes_alike view (p := p) (supervisor_plain (by decide : csrSip ∈ supervisorAddrs))
  simp only [nextMip,same,mip,mip',Bool.false_eq_true,if_false]
  split
  next write =>
    have here : p.rwAddr = csrSip := (write_parts write).1
    refine written_alike ?_ (view.mip b one two) (wdata_bits ?_)
    · rw [BitVec.getLsbD_and,BitVec.getLsbD_and,one,two]
    · rw [sip_rdata here,sip_rdata here,read_alike view (supervisor_plain (by rw [here]; decide))]
      split
      · exact delegated_bits (two.trans one.symm) (view.mip b)
      · rfl
  next =>
    simp only [mipDriven,view.irq,BitVec.getLsbD_or,BitVec.getLsbD_and,view.mip b one two]

theorem view_next {f g : File} {p : Pins} (settled : Settled f) (settled' : Settled g) (view : View f g)
    (allowed : machine.allowed f p) (allowed' : machine.allowed g p) (lower : Lower f) (lower' : Lower g)
    (quiet : trapsM f p = false) (quiet' : trapsM g p = false) : View (next f p) (next g p) := by
  obtain ⟨level,debug,dcsr,status⟩ := core_alike settled settled' view allowed allowed' lower lower' quiet quiet'
  have deleg := (delegation_kept allowed lower).2
  have deleg' := (delegation_kept allowed' lower').2
  refine ⟨level,debug,dcsr,status,?_,?_,rfl⟩
  · intro b one two
    rw [deleg] at one
    rw [deleg'] at two
    exact mie_alike view allowed allowed' lower lower' one two
  · intro b one two
    rw [deleg] at one
    rw [deleg'] at two
    exact mip_alike view allowed allowed' lower lower' one two

theorem lower_alike {f g : File} (view : View f g) (lower : Lower f) : Lower g :=
  ⟨by rw [view.privLvl]; exact lower.level,view.debugMode.trans lower.running⟩

theorem allowed_alike {f g : File} {p : Pins} (view : View f g) (allowed : machine.allowed f p) : machine.allowed g p := by
  intro resumed
  rw [view.debugMode,view.privLvl,view.dcsr]
  exact allowed resumed

theorem lower_isolated {f : File} {p : Pins} (reached : Reached machine f) (allowed : machine.allowed f p) (lower : Lower f)
    (quiet : trapsM f p = false) :
    (MachineKept f (next f p) ↔ ¬ changesUndelegated f p) ∧
      ∀ g, Reached machine g → Alike f g → trapsM g p = false → SameReads f g ∧ SameReads (next f p) (next g p) := by
  have settled := reached_settled reached
  refine ⟨machine_kept settled allowed lower quiet,?_⟩
  intro g reached' alike quiet'
  have view := view_alike alike
  have after := view_next settled (reached_settled reached') view allowed (allowed_alike view allowed) lower (lower_alike view lower)
    quiet quiet'
  exact ⟨view_reads view,view_reads after⟩

def idle : Pins where
  rwCmd := 0
  rwAddr := 0
  wDataCore := 0
  ex := false
  exCause := 0
  exOrigin := 0
  pc := 0
  retire := false
  fregModified := false
  vregModified := false
  debugHaltAck := false
  debugResumeAck := false
  timeIrq := false
  irq := 0
  mSoftIrq := false
  countOvf := false
  trapVectorAddr := 0x40
  otherRead := fun _ => none
  otherWritten := fun _ => false
  vsetRefused := false
  vl := 0

def csrWrite (addr : BitVec 12) (data : BitVec 64) : Pins :=
  { idle with
    rwCmd := 1
    rwAddr := addr
    wDataCore := data }

-- mret to S, with a word in mscratch
def preparing : File :=
  { CsrFile.reset with
    mstatus := Mstatus.ofBits 0x800
    mtvecRstLoad := false
    mtvec := 0x40 }

def prepared (word : BitVec 64) : File :=
  { preparing with
    mstatus := Mstatus.ofBits 0xa00000800
    mscratch := word }

def entered (word : BitVec 64) : File :=
  { prepared word with
    privLvl := privS
    mstatus := Mstatus.ofBits 0xa00000080 }

theorem entered_reached : Reached machine (entered 1) ∧ Reached machine (entered 2) := by
  have first : machine.step machine.initial (csrWrite csrMstatus 0x800) = preparing := by
    apply File.ext <;> decide
  have second : machine.step preparing (csrWrite csrMscratch 1) = prepared 1 ∧
      machine.step preparing (csrWrite csrMscratch 2) = prepared 2 := by
    constructor <;> apply File.ext <;> decide
  have third : machine.step (prepared 1) { idle with rwCmd := 4, rwAddr := 0x302 } = entered 1 ∧
      machine.step (prepared 2) { idle with rwCmd := 4, rwAddr := 0x302 } = entered 2 := by
    constructor <;> apply File.ext <;> decide
  have asked : ∀ f p, p.debugResumeAck = false → machine.allowed f p := by
    intro f p none' resumed
    simp [none'] at resumed
  have start : Reached machine preparing := first ▸ Reached.start.step (asked _ _ rfl)
  have one : Reached machine (prepared 1) := second.1 ▸ start.step (asked _ _ rfl)
  have two : Reached machine (prepared 2) := second.2 ▸ start.step (asked _ _ rfl)
  exact ⟨third.1 ▸ one.step (asked _ _ rfl),third.2 ▸ two.step (asked _ _ rfl)⟩

theorem entered_lower : Lower (entered 1) := ⟨.inl rfl,rfl⟩

theorem entered_alike : Alike (entered 1) (entered 2) :=
  ⟨rfl,rfl,rfl,rfl,fun _ _ _ => rfl,fun _ _ _ => rfl,rfl,rfl,rfl,rfl,rfl,rfl,rfl,rfl,rfl,rfl,rfl⟩

theorem lower_isolated_sstatus : (entered 1).mscratch ≠ (entered 2).mscratch ∧
    MachineKept (entered 1) (next (entered 1) (csrWrite csrSstatus 0x2)) ∧
      SameReads (next (entered 1) (csrWrite csrSstatus 0x2)) (next (entered 2) (csrWrite csrSstatus 0x2)) := by
  have isolated := lower_isolated entered_reached.1 (p := csrWrite csrSstatus 0x2) (by decide) entered_lower (by decide)
  refine ⟨by decide,isolated.1.mpr ?_,(isolated.2 _ entered_reached.2 entered_alike (by decide)).2⟩
  rintro ⟨_,here,_⟩
  exact absurd here (by decide)

-- With mideleg clear a write of sie at level S sets SSIE, the enable of a machine interrupt.
theorem sie_ungated : ¬ ∀ f p, Reached machine f → machine.allowed f p → Lower f → trapsM f p = false → MachineKept f (next f p) := by
  intro kept
  have enables := (kept (entered 1) (csrWrite csrSie 0x2) entered_reached.1 (by decide) entered_lower (by decide)).mie
    1 (by decide)
  exact absurd enables (by decide)

end Sargantana.CsrIsolation
