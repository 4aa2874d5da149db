import Sargantana.CsrBsc
import Sargantana.Lib.StateMachine

-- What the privilege registers keep over every run, and which events move the level.
namespace Sargantana.CsrPrivilege

open CsrBsc StateMachine

-- control_unit acknowledges a resume only to a hart that is halted or comes from reset.
def machine : Machine State Input where
  initial := reset
  allowed s i := i.debugResumeAck = true → s.debugMode = true ∨ s.dcsr.prv = s.privLvl
  step := next

instance : ∀ s i, Decidable (machine.allowed s i) :=
  fun s i => inferInstanceAs (Decidable (i.debugResumeAck = true → s.debugMode = true ∨ s.dcsr.prv = s.privLvl))

def Named (lvl : BitVec 2) : Prop := lvl = privU ∨ lvl = privS ∨ lvl = privM

instance (lvl : BitVec 2) : Decidable (Named lvl) := inferInstanceAs (Decidable (_ ∨ _))

structure Kept (s : State) : Prop where
  lvl : Named s.privLvl
  mpp : Named s.mstatus.mpp
  prv : Named s.dcsr.prv
  mprv : s.debugMode = false → s.mstatus.mprv = true → s.privLvl = privM

def entersDebug (s : State) (i : Input) : Prop :=
  debugEvent s i = .ebreak ∨ debugEvent s i = .halt ∨ debugEvent s i = .step

structure Moves (s : State) (i : Input) : Prop where
  rises : s.privLvl < (next s i).privLvl → traps s i = true ∨ entersDebug s i
  falls : (next s i).privLvl < s.privLvl →
    (mret s i = true ∧ (next s i).privLvl = s.mstatus.mpp) ∨ (sretDone s i = true ∧ (next s i).privLvl = sppLvl s) ∨
      (debugEvent s i = .resume ∧ (next s i).privLvl = s.dcsr.prv)

-- Software writes the level without a name to mpp and no trap of the same cycle writes it again.
def unnamedMpp (s : State) (i : Input) : Bool :=
  writes csrMstatus s i && decide ((csrWdata s i).extractLsb' 11 2 = 2) && !traps s i

-- A resume comes after mret or sret was executed in the debug mode and left a level below dcsr.prv.
def lowResume (s : State) (i : Input) : Bool := decide (debugEvent s i = .resume) && decide (s.privLvl < s.dcsr.prv)

def Meets (s : State) (i : Input) : Prop := unnamedMpp s i = false ∧ lowResume s i = false

theorem named_iff (lvl : BitVec 2) : Named lvl ↔ lvl ≠ 2 := by
  revert lvl
  decide

theorem named_priv : Named privM ∧ Named privS ∧ Named privU := by decide

theorem named_spp (s : State) : Named (sppLvl s) := by
  unfold sppLvl
  split
  · exact named_priv.2.1
  · exact named_priv.2.2

theorem write_access {s : State} {i : Input} {addr : BitVec 12} (write : writes addr s i = true)
    (plain : ¬ (0xc00 ≤ addr.toNat ∧ addr.toNat ≤ 0xc1f)) :
    privLvlO s i &&& addr.extractLsb' 8 2 = addr.extractLsb' 8 2 ∧ (addr >>> 4 = 0x7b → s.debugMode = true) := by
  have here : i.rwAddr = addr := by
    have both := write
    simp only [writes,Bool.and_eq_true,beq_iff_eq] at both
    exact both.2
  have unlocked : accessViolation s i = false := by
    simp only [writes,csrWe,privilegeViolation,Bool.and_eq_true,Bool.not_eq_true',Bool.or_eq_false_iff,decide_eq_true_eq] at write
    have listed : i.rwCmd ∈ [1,2,3,5,8] := by
      have command := write.1.1
      simp only [List.mem_cons,List.not_mem_nil,or_false] at command ⊢
      tauto
    have refused := write.1.2.1.1.1
    rwa [decide_eq_true listed,Bool.true_and] at refused
  rw [accessViolation,here,if_neg plain] at unlocked
  simp only [addrLvl,here,Bool.or_eq_false_iff,decide_eq_false_iff_not,not_not,Bool.and_eq_false_iff,Bool.not_eq_false'] at unlocked
  exact ⟨unlocked.1,fun debug => unlocked.2.resolve_left (not_not.mpr debug)⟩

theorem top_level (lvl : BitVec 2) (all : lvl &&& 3 = 3) : lvl = privM := by
  revert lvl
  decide

theorem write_level {s : State} {i : Input} (write : writes csrMstatus s i = true) : privLvlO s i = privM :=
  top_level _ (write_access write (by decide)).1

theorem system_writes {s : State} {i : Input} (system : systemInsn i = true) (addr : BitVec 12) : writes addr s i = false := by
  have command : i.rwCmd = 4 := by simpa [systemInsn] using system
  simp [writes,csrWe,command]

theorem addrLvl_code (i : Input) : addrLvl i = (i.rwAddr.setWidth 10).extractLsb' 8 2 := by
  unfold addrLvl
  ext j
  simp
  omega

theorem mret_parts {s : State} {i : Input} (returns : mret s i = true) :
    systemInsn i = true ∧ s.privLvl = privM := by
  simp only [mret,insnMret,insnIs,Bool.and_eq_true,beq_iff_eq] at returns
  obtain ⟨_,⟨code,system⟩,sufficient⟩ := returns
  refine ⟨system,?_⟩
  have lvl : addrLvl i = 3 := by
    rw [addrLvl_code,code]
    decide
  have least : 3 ≤ s.privLvl.toNat := by simpa [privSufficient,lvl] using sufficient
  revert least
  generalize s.privLvl = lvl
  revert lvl
  decide

theorem sret_parts {s : State} {i : Input} (returns : sret s i = true) :
    systemInsn i = true ∧ (s.privLvl = privM ∨ s.privLvl = privS ∨ s.privLvl = 2) := by
  simp only [sret,insnSret,insnIs,Bool.and_eq_true,beq_iff_eq] at returns
  obtain ⟨⟨code,system⟩,sufficient⟩ := returns
  refine ⟨system,?_⟩
  have lvl : addrLvl i = 1 := by
    rw [addrLvl_code,code]
    decide
  have least : 1 ≤ s.privLvl.toNat := by simpa [privSufficient,lvl] using sufficient
  revert least
  generalize s.privLvl = lvl
  revert lvl
  decide

theorem sretDone_parts {s : State} {i : Input} (returns : sretDone s i = true) :
    systemInsn i = true ∧ (s.privLvl = privM ∨ s.privLvl = privS ∨ s.privLvl = 2) := by
  simp only [sretDone,Bool.and_eq_true] at returns
  exact sret_parts returns.1

theorem traps_running {s : State} {i : Input} (trap : traps s i = true) : s.debugMode = false := by
  simp only [traps,Bool.and_eq_true,Bool.not_eq_true'] at trap
  exact trap.2

-- The level that the checks see is the hart's own level outside of the debug mode.
theorem level_seen {s : State} {i : Input} (allowed : machine.allowed s i) (running : s.debugMode = false) : privLvlO s i = s.privLvl := by
  unfold privLvlO
  split
  next resumed => simpa [running] using allowed resumed
  next => rfl

theorem mstatusInt_mpp (s : State) (i : Input) :
    (mstatusDirty s i).mpp = if writes csrMstatus s i then (csrWdata s i).extractLsb' 11 2 else s.mstatus.mpp := by
  simp only [mstatusDirty,mstatusInt]
  by_cases status : writes csrSstatus s i = true
  · have other : writes csrMstatus s i = false := by
      simp only [writes,Bool.and_eq_true,beq_iff_eq] at status
      simp [writes,status.2,csrSstatus,csrMstatus]
    simp [status,other]
  · by_cases write : writes csrMstatus s i = true
    · have field : (Mstatus.ofBits (csrWdata s i &&& ~~~mstatusMask)).mpp = (csrWdata s i &&& ~~~mstatusMask).extractLsb' 11 2 := rfl
      rw [if_neg status,if_pos write,if_pos write,field]
      have clear : (~~~mstatusMask).extractLsb' 11 2 = 3 := by decide
      have all : ∀ two : BitVec 2, two &&& 3 = two := by decide
      rw [BitVec.extractLsb'_and,clear,all]
    · simp [status,write]

theorem mstatusDirty_mprv {s : State} {i : Input} (set : (mstatusDirty s i).mprv = true) : writes csrMstatus s i = true ∨ s.mstatus.mprv = true := by
  by_cases write : writes csrMstatus s i = true
  · exact .inl write
  · right
    simp only [mstatusDirty,mstatusInt,write] at set
    split at set <;> exact set

theorem trapTo_cases {s : State} {i : Input} (seen : privLvlO s i = s.privLvl) :
    trapTo s i = privM ∨ (trapTo s i = privS ∧ s.privLvl ≠ privM) := by
  unfold trapTo
  rw [seen]
  split
  · split
    next => exact .inl rfl
    next below => exact .inr ⟨rfl,below⟩
  · exact .inl rfl

-- What a trap or a return leaves, for every cycle
inductive Outcome (s : State) (i : Input) : BitVec 2 × Mstatus → Prop where
  | trapS (trap : traps s i = true) (below : s.privLvl ≠ privM) (m : Mstatus) (mpp : m.mpp = (mstatusDirty s i).mpp)
      (mprv : m.mprv = (mstatusDirty s i).mprv) : Outcome s i (privS,m)
  | trapM (trap : traps s i = true) (m : Mstatus) (mpp : m.mpp = s.privLvl) : Outcome s i (privM,m)
  | mret (quiet : traps s i = false) (returns : mret s i = true) (m : Mstatus) (mpp : m.mpp = privU)
      (mprv : m.mprv = true → s.mstatus.mpp = privM) : Outcome s i (s.mstatus.mpp,m)
  | sret (quiet : traps s i = false) (returns : sretDone s i = true) (m : Mstatus) (mpp : m.mpp = s.mstatus.mpp)
      (mprv : m.mprv = true → s.mstatus.mprv = true ∧ sppLvl s = s.privLvl) : Outcome s i (sppLvl s,m)
  | stays (quiet : traps s i = false) : Outcome s i (s.privLvl,mstatusDirty s i)

theorem returned_outcome {s : State} {i : Input} (allowed : machine.allowed s i) : Outcome s i (returned s i) := by
  unfold returned
  simp only
  split
  next trap =>
    rcases trapTo_cases (level_seen allowed (traps_running trap)) with machineLevel | ⟨supervisor,below⟩
    · have other : trapTo s i ≠ privS := by simp [machineLevel,privM,privS]
      rw [if_neg other,machineLevel]
      exact .trapM trap _ rfl
    · rw [if_pos supervisor]
      exact .trapS trap below _ rfl rfl
  next quiet =>
    have none' : traps s i = false := by simpa using quiet
    split
    next returns =>
      refine .mret none' returns _ rfl ?_
      intro kept
      have lvl := (mret_parts returns).2
      simp only [Bool.and_eq_true,Bool.not_eq_true',clearsMprv,lvl,Bool.and_eq_false_iff,decide_eq_false_iff_not] at kept
      simpa using kept.2
    next =>
      split
      next returns =>
        have system := (sretDone_parts returns).1
        refine .sret none' returns _ ?_ ?_
        · simp [mstatusInt_mpp,system_writes system]
        · intro kept
          simp only [Bool.and_eq_true,Bool.not_eq_true',clearsMprv,Bool.and_eq_false_iff,decide_eq_false_iff_not] at kept
          refine ⟨?_,?_⟩
          · rcases mstatusDirty_mprv kept.1 with write | old
            · simp [system_writes system] at write
            · exact old
          · rcases kept.2 with top | same
            · exfalso
              apply top
              unfold sppLvl
              split <;> decide
            · simpa using same
      next => exact .stays none'

theorem outcome_lvl {s : State} {i : Input} {out : BitVec 2 × Mstatus} (outcome : Outcome s i out) (kept : Kept s) : Named out.1 := by
  cases outcome with
  | trapS => exact named_priv.2.1
  | trapM => exact named_priv.1
  | mret => exact kept.mpp
  | sret => exact named_spp s
  | stays => exact kept.lvl

theorem outcome_mpp {s : State} {i : Input} {out : BitVec 2 × Mstatus} (outcome : Outcome s i out) (allowed : machine.allowed s i)
    (kept : Kept s) : Named out.2.mpp ↔ unnamedMpp s i = false := by
  cases outcome with
  | trapS trap below m mpp _ =>
      have other : ¬ writes csrMstatus s i = true := by
        intro write
        exact below ((level_seen allowed (traps_running trap)).symm.trans (write_level write))
      have same : m.mpp = s.mstatus.mpp := by rw [mpp,mstatusInt_mpp,if_neg other]
      simp [same,kept.mpp,unnamedMpp,trap]
  | trapM trap m mpp => simp [mpp,kept.lvl,unnamedMpp,trap]
  | mret _ returns m mpp _ => simp [mpp,named_priv,unnamedMpp,system_writes (mret_parts returns).1]
  | sret _ returns m mpp _ => simp [mpp,kept.mpp,unnamedMpp,system_writes (sretDone_parts returns).1]
  | stays quiet =>
      by_cases write : writes csrMstatus s i = true
      · simp [mstatusInt_mpp,write,unnamedMpp,quiet,named_iff]
      · simp [mstatusInt_mpp,write,unnamedMpp,kept.mpp]

theorem outcome_mprv {s : State} {i : Input} {out : BitVec 2 × Mstatus} (outcome : Outcome s i out) (allowed : machine.allowed s i)
    (held : s.mstatus.mprv = true → s.privLvl = privM) (running : s.debugMode = false) (set : out.2.mprv = true) : out.1 = privM := by
  have seen := level_seen allowed running
  have atM : (mstatusDirty s i).mprv = true → s.privLvl = privM := by
    intro dirty
    rcases mstatusDirty_mprv dirty with write | old
    · exact seen ▸ write_level write
    · exact held old
  cases outcome with
  | trapS _ below m _ mprv => exact absurd (atM (mprv ▸ set)) below
  | trapM => rfl
  | mret _ _ m _ mprv => exact mprv set
  | sret _ _ m _ mprv =>
      obtain ⟨old,same⟩ := mprv set
      exact same.trans (held old)
  | stays => exact atM set

theorem none_above_M (lvl : BitVec 2) : ¬ privM < lvl := by
  revert lvl
  decide

theorem none_below_U (lvl : BitVec 2) : ¬ lvl < privU := by
  revert lvl
  decide

theorem spp_not_above {s : State} {i : Input} (returns : sretDone s i = true) : ¬ s.privLvl < sppLvl s := by
  unfold sppLvl
  rcases (sretDone_parts returns).2 with top | supervisor | unnamed
  · rw [top]
    split <;> decide
  · rw [supervisor]
    split <;> decide
  · rw [unnamed]
    split <;> decide

theorem outcome_rises {s : State} {i : Input} {out : BitVec 2 × Mstatus} (outcome : Outcome s i out) (up : s.privLvl < out.1) :
    traps s i = true := by
  cases outcome with
  | trapS trap => exact trap
  | trapM trap => exact trap
  | mret _ returns =>
      rw [(mret_parts returns).2] at up
      exact absurd up (none_above_M _)
  | sret _ returns => exact absurd up (spp_not_above returns)
  | stays => exact absurd up (BitVec.lt_irrefl _)

theorem outcome_falls {s : State} {i : Input} {out : BitVec 2 × Mstatus} (outcome : Outcome s i out) (kept : Kept s) (down : out.1 < s.privLvl) :
    (mret s i = true ∧ out.1 = s.mstatus.mpp) ∨ (sretDone s i = true ∧ out.1 = sppLvl s) := by
  cases outcome with
  | trapS _ below =>
      rcases kept.lvl with user | supervisor | top
      · rw [user] at down
        exact absurd down (none_below_U _)
      · rw [supervisor] at down
        exact absurd down (BitVec.lt_irrefl _)
      · exact absurd top below
  | trapM => exact absurd down (none_above_M _)
  | mret _ returns => exact .inl ⟨returns,rfl⟩
  | sret _ returns => exact .inr ⟨returns,rfl⟩
  | stays => exact absurd down (BitVec.lt_irrefl _)

theorem dcsrInt_prv {s : State} (i : Input) (kept : Kept s) : Named (dcsrInt s i).prv := by
  unfold dcsrInt
  simp only
  split
  · simp only
    split
    next => exact kept.prv
    next other => exact (named_iff _).mpr other
  · exact kept.prv

theorem stepPrv_named {s : State} {i : Input} (allowed : machine.allowed s i) (kept : Kept s) : Named (stepPrv s i) := by
  unfold stepPrv
  split
  · exact outcome_lvl (returned_outcome allowed) kept
  · exact kept.lvl

theorem next_mpp (s : State) (i : Input) : (next s i).mstatus.mpp = (returned s i).2.mpp := by
  unfold next
  cases debugEvent s i <;> rfl

theorem resume_debug {s : State} {i : Input} (resume : debugEvent s i = .resume) : s.debugMode = true := by
  unfold debugEvent at resume
  split at resume
  · split at resume <;> cases resume
  · split at resume
    · cases resume
    · split at resume
      · cases resume
      · split at resume
        next both =>
          simp only [Bool.and_eq_true] at both
          exact both.2
        next => cases resume

theorem mprv_next {s : State} {i : Input} (allowed : machine.allowed s i)
    (held : s.debugMode = false → s.mstatus.mprv = true → s.privLvl = privM) (running : (next s i).debugMode = false)
    (set : (next s i).mstatus.mprv = true) : (next s i).privLvl = privM := by
  cases event : debugEvent s i with
  | ebreak => simp [next,event] at running
  | halt => simp [next,event] at running
  | step => simp [next,event] at running
  | resume =>
      simp only [next,event,Bool.and_eq_true,decide_eq_true_eq] at set ⊢
      exact set.2
  | none =>
      simp only [next,event] at running set ⊢
      exact outcome_mprv (returned_outcome allowed) allowed (held running) running set

theorem kept_next {s : State} {i : Input} (kept : Kept s) (allowed : machine.allowed s i) (meets : unnamedMpp s i = false) :
    Kept (next s i) := by
  have outcome := returned_outcome allowed
  have mpp : Named (next s i).mstatus.mpp := by
    rw [next_mpp]
    exact (outcome_mpp outcome allowed kept).mpr meets
  have mprv := mprv_next allowed kept.mprv
  cases event : debugEvent s i with
  | ebreak => exact ⟨by simp [next,event,named_priv],mpp,by simp [next,event,kept.lvl],mprv⟩
  | halt => exact ⟨by simp [next,event,named_priv],mpp,by simp [next,event,kept.lvl],mprv⟩
  | step => exact ⟨by simp [next,event,named_priv],mpp,by simp [next,event,stepPrv_named allowed kept],mprv⟩
  | resume => exact ⟨by simp [next,event,kept.prv],mpp,by simp [next,event,dcsrInt_prv i kept],mprv⟩
  | none =>
      refine ⟨?_,mpp,by simp [next,event,dcsrInt_prv i kept],mprv⟩
      simpa [next,event] using outcome_lvl outcome kept

theorem moves_entering {s : State} {i : Input} (enters : entersDebug s i) (top : (next s i).privLvl = privM) : Moves s i := by
  refine ⟨fun _ => .inr enters,?_⟩
  intro down
  rw [top] at down
  exact absurd down (none_above_M _)

theorem moves_next {s : State} {i : Input} (kept : Kept s) (allowed : machine.allowed s i) : Moves s i ↔ lowResume s i = false := by
  have outcome := returned_outcome allowed
  cases event : debugEvent s i with
  | ebreak =>
      simp only [lowResume,event]
      exact ⟨fun _ => rfl,fun _ => moves_entering (.inl event) (by simp [next,event])⟩
  | halt =>
      simp only [lowResume,event]
      exact ⟨fun _ => rfl,fun _ => moves_entering (.inr (.inl event)) (by simp [next,event])⟩
  | step =>
      simp only [lowResume,event]
      exact ⟨fun _ => rfl,fun _ => moves_entering (.inr (.inr event)) (by simp [next,event])⟩
  | resume =>
      have quiet : traps s i = false := by simp [traps,resume_debug event]
      have level : (next s i).privLvl = s.dcsr.prv := by simp [next,event]
      simp only [lowResume,event,decide_true,Bool.true_and,decide_eq_false_iff_not]
      refine ⟨?_,?_⟩
      · intro moves up
        rcases moves.rises (level ▸ up) with trap | enters
        · simp [quiet] at trap
        · simp [entersDebug,event] at enters
      · intro low
        exact ⟨fun up => absurd (level ▸ up) low,fun _ => .inr (.inr ⟨event,level⟩)⟩
  | none =>
      have level : (next s i).privLvl = (returned s i).1 := by simp [next,event]
      simp only [lowResume,event]
      refine ⟨fun _ => rfl,fun _ => ⟨?_,?_⟩⟩
      · intro up
        exact .inl (outcome_rises outcome (level ▸ up))
      · intro down
        rcases outcome_falls outcome kept (level ▸ down) with ⟨returns,recorded⟩ | ⟨returns,recorded⟩
        · exact .inl ⟨returns,level.trans recorded⟩
        · exact .inr (.inl ⟨returns,level.trans recorded⟩)

theorem kept_reset : Kept reset := ⟨by decide,by decide,by decide,by decide⟩

theorem privilege_kept (inputs : Nat → Input) (admits : Admits machine inputs) :
    (∀ t, Kept (trace machine inputs t) ∧ Moves (trace machine inputs t) (inputs t)) ↔
      ∀ t, Meets (trace machine inputs t) (inputs t) := by
  refine ⟨?_,?_⟩
  · intro holds t
    refine ⟨?_,(moves_next (holds t).1 (admits t)).mp (holds t).2⟩
    have later : Named (next (trace machine inputs t) (inputs t)).mstatus.mpp := (holds (t + 1)).1.mpp
    rw [next_mpp] at later
    exact (outcome_mpp (returned_outcome (admits t)) (admits t) (holds t).1).mp later
  · intro meets
    have kept : ∀ t, Kept (trace machine inputs t) := by
      intro t
      induction t with
      | zero => exact kept_reset
      | succ t ih => exact kept_next ih (admits t) (meets t).1
    intro t
    exact ⟨kept t,(moves_next (kept t) (admits t)).mpr (meets t).2⟩

def idle : Input := ⟨0,0,0,false,0,false,false,false,false,false,false,false,0⟩

-- A write of mstatus sets mprv and mpp, mret takes the level of mpp, and an ecall traps.
def visit (mstatus : BitVec 64) : Nat → Input
  | 0 => { idle with rwCmd := 1, rwAddr := 0x300, wDataCore := mstatus }
  | 1 => { idle with rwCmd := 4, rwAddr := 0x302 }
  | 2 => { idle with rwCmd := 4, rwAddr := 0 }
  | _ => idle

theorem visit_admits (mstatus : BitVec 64) : Admits machine (visit mstatus) := by
  intro t resumed
  exfalso
  match t with
  | 0 => cases resumed
  | 1 => cases resumed
  | 2 => cases resumed
  | t + 3 => cases resumed

theorem meets_idle (s : State) : Meets s idle := by
  refine ⟨by simp [unnamedMpp,writes,csrWe,idle],?_⟩
  simp [lowResume,debugEvent,insnBreak,insnIs,systemInsn,idle]

theorem privilege_kept_visit : (trace machine (visit 0x20800) 1).mstatus.mprv = true ∧
    (trace machine (visit 0x20800) 2).privLvl = privS ∧ (trace machine (visit 0x20800) 3).privLvl = privM ∧
    ∀ t, Kept (trace machine (visit 0x20800) t) ∧ Moves (trace machine (visit 0x20800) t) (visit 0x20800 t) := by
  refine ⟨by decide,by decide,by decide,?_⟩
  refine (privilege_kept (visit 0x20800) (visit_admits 0x20800)).mpr ?_
  intro t
  match t with
  | 0 => exact ⟨by decide,by decide⟩
  | 1 => exact ⟨by decide,by decide⟩
  | 2 => exact ⟨by decide,by decide⟩
  | t + 3 => exact meets_idle _

-- dcsr keeps the old level when a write has 2 for prv; mstatus takes it for mpp.
theorem unnamed_level : Admits machine (visit 0x1000) ∧ ¬ Named (trace machine (visit 0x1000) 1).mstatus.mpp ∧
    ¬ Named (trace machine (visit 0x1000) 2).privLvl := by
  refine ⟨visit_admits 0x1000,by decide,by decide⟩

end Sargantana.CsrPrivilege
