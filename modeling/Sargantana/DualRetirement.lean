import Sargantana.CommitStage

-- Retiring two instructions in a cycle is retiring them one after the other.
namespace Sargantana.DualRetirement

open DracPkg GraduationList CsrInterface RenameBank RenameVersions ControlUnit StateMachine Renaming Window CommitStage
open RenameStage (RegClass hardwiredZero)

variable {ports writebacks : RegClass → Nat} {i : CommitStage.Input ports writebacks} {pair : Pair}
  {first second : GraduationList.Entry Carried} {execute : Request → Csr → Csr → Csr}

-- The architectural state that retirement changes
structure Arch where
  csr : Csr
  table : RegClass → Reg → Phreg

def arch (s : CommitStage.State ports) : Arch := ⟨s.csr,fun c => (s.bank c).renameTable.commitTable⟩

def retired (i : CommitStage.Input ports writebacks) (pair : Pair) : List (GraduationList.Entry Carried) :=
  (if retire i pair 0 then (pair 0).toList else []) ++ (if retire i pair 1 then (pair 1).toList else [])

-- The instructions whose registers reach the commit tables
def updates (i : CommitStage.Input ports writebacks) (exceptionEnable : Bool) (pair : Pair) (c : RegClass) : List Destination :=
  if exceptionEnableD i exceptionEnable pair then [] else (retired i pair).map (·.instr.carried.destination c)

def archNext (execute : Request → Csr → Csr → Csr) (i : CommitStage.Input ports writebacks) (exceptionEnable : Bool) (pair : Pair)
    (a : Arch) : Arch :=
  ⟨csrNext i execute pair a.csr,fun c => mapAfter (a.table c) (writes (hardwiredZero c) (updates i exceptionEnable pair c))⟩

def only (e : GraduationList.Entry Carried) : Pair := fun port => if port = 0 then some e else none

def alone (execute : Request → Csr → Csr → Csr) (i : CommitStage.Input ports writebacks) (a : Arch) (e : GraduationList.Entry Carried) : Arch :=
  archNext execute i false (only e) a

def serial (i : CommitStage.Input ports writebacks) (pair : Pair) : List (GraduationList.Entry Carried) :=
  (pair 0).toList ++ (if retire i pair 1 then (pair 1).toList else [])

@[simp] theorem only_zero : only first 0 = some first := rfl

@[simp] theorem only_one : only first 1 = none := rfl

structure Joined (i : CommitStage.Input ports writebacks) (first second : GraduationList.Entry Carried) : Prop where
  valid : first.instr.valid = true
  calm : commitXcpt i.csr first = false
  running : i.csr.memCommitStall = false
  clean : first.status.exValid = false
  silent : csrEna i.csr first = false
  secondValid : second.instr.valid = true
  secondKind : commitsAlone second.instr.instrType = false
  secondStore : second.instr.memType ≠ .store
  secondAmo : second.instr.memType ≠ .amo
  secondFree : second.instr.stallCsrFence = false
  secondClean : second.status.exValid = false

theorem retire_both (both : retire i pair 1 = true) :
    ∃ first second, pair 0 = some first ∧ pair 1 = some second ∧ Joined i first second := by
  unfold retire retireInst at both
  cases one : pair 0 with
  | none => simp [one] at both
  | some first =>
      simp only [one] at both
      split at both
      · cases both
      · split at both
        · cases both
        · split at both
          · rename_i joins
            cases two : pair 1 with
            | none => simp [commit2Blocked,two] at joins
            | some second =>
                simp only [two,commit2Blocked,Bool.and_eq_true,Bool.not_eq_true',Bool.or_eq_false_iff,Bool.not_eq_false'] at joins
                obtain ⟨⟨⟨valid,calm⟩,running⟩,⟨⟨⟨⟨_,clean⟩,silent⟩,secondValid⟩,kinds⟩,secondClean⟩ := joins
                simp only [secondValid,Bool.true_and,Bool.or_eq_false_iff,beq_eq_false_iff_ne] at kinds secondClean
                obtain ⟨⟨⟨kind,store⟩,amo⟩,free⟩ := kinds
                exact ⟨first,second,rfl,rfl,valid,calm,running,clean,silent,secondValid,kind,store,amo,free,secondClean⟩
          · cases both

theorem retire_beside (shown : pair 0 = some first) (both : retire i pair 1 = true) :
    ∃ second, pair 1 = some second ∧ Joined i first second := by
  obtain ⟨one,second,here,two,joined⟩ := retire_both both
  have same : one = first := by simpa [shown] using here.symm
  subst same
  exact ⟨second,two,joined⟩

theorem retire_zero (shown : pair 0 = some first) :
    retire i pair 0 = (first.instr.valid && (commitXcpt i.csr first || !i.csr.memCommitStall)) := by
  unfold retire retireInst
  simp only [shown]
  cases first.instr.valid <;> cases commitXcpt i.csr first <;> cases i.csr.memCommitStall <;>
    cases commit2Blocked i.csr first (pair 1) <;> rfl

theorem retire_none (hidden : pair 0 = none) (port : Fin 2) : retire i pair port = false := by
  simp [retire,retireInst,hidden]

theorem retire_only_one : retire i (only first) 1 = false := by
  by_contra both
  obtain ⟨_,_,_,two,_⟩ := retire_both (by simpa using both)
  simp at two

theorem archNext_none (hidden : pair 0 = none) (a : Arch) : archNext execute i exceptionEnable pair a = a := by
  have zero := retire_none (i := i) hidden 0
  have one := retire_none (i := i) hidden 1
  simp [archNext,csrNext,accrue,csrRetire,fregModified,vregModified,anyRetired,mark,updates,retired,zero,one,hidden]

theorem archNext_first (shown : pair 0 = some first) (lonely : retire i pair 1 = false) (a : Arch) :
    archNext execute i false pair a = alone execute i a first := by
  have zero : retire i pair 0 = retire i (only first) 0 := by rw [retire_zero shown,retire_zero only_zero]
  have trapped : xcpt i pair = xcpt i (only first) := by simp [xcpt,shown]
  have enable : exceptionEnableD i false pair = exceptionEnableD i false (only first) := by
    simp [exceptionEnableD,traps,trapped,shown]
  simp only [alone,archNext]
  congr 1
  · simp [csrNext,accrue,csrRetire,fpStatus,fregModified,vregModified,anyRetired,zero,lonely,retire_only_one,trapped,shown]
  · simp [updates,enable,retired,zero,lonely,retire_only_one,shown]

section Company

variable (joined : Joined i first second)
include joined

theorem Joined.retires_pair (one : pair 0 = some first) : retire i pair 0 = true := by
  simp [retire_zero one,joined.valid,joined.running]

theorem Joined.retires_first : retire i (only first) 0 = true := joined.retires_pair only_zero

theorem Joined.no_store : commitStoreOrAmo second = false := by
  simp [commitStoreOrAmo,joined.secondStore,joined.secondAmo]

theorem Joined.secondCalm : commitXcpt i.csr second = false := by
  simp [commitXcpt,joined.no_store,joined.secondClean]

theorem Joined.retires_second : retire i (only second) 0 = true := by
  simp [retire_zero only_zero,joined.secondValid,joined.running]

-- The first has issued no command, so it is none of the kinds that take a trap of their own.
theorem Joined.no_ecall : ecallTaken i first = false := by
  have silent := joined.silent
  simp only [csrEna,joined.valid,joined.clean,Bool.true_and,Bool.not_false] at silent
  unfold ecallTaken
  cases kind : first.instr.instrType <;> simp_all

theorem Joined.second_silent (decoded : second.instr.instrType = .mrts → second.instr.stallCsrFence = true)
    (trimmed : i.csr.vleffVl ≠ 0 → second.instr.instrType = .vleff → second.instr.stallCsrFence = true) :
    csrEna i.csr second = false ∧ ecallTaken i second = false := by
  have kind := joined.secondKind
  have free := joined.secondFree
  unfold csrEna ecallTaken
  cases type : second.instr.instrType <;> simp_all [commitsAlone]

end Company

theorem mark_mark (one two : Bool) (c : Context) : mark (one || two) c c = mark two (mark one c c) (mark one c c) := by
  cases one <;> cases two <;> cases c <;> rfl

-- No cause of a trap comes from the two: what is left is the debugger.
theorem exceptionEnableD_both (joined : Joined i first second) (one : pair 0 = some first) (alarm : i.csrTrap = false)
    (calls : ecallTaken i second = false) :
    exceptionEnableD i false pair = i.debugTrap ∧ exceptionEnableD i false (only first) = i.debugTrap ∧
      exceptionEnableD i false (only second) = i.debugTrap := by
  have firstCalls := joined.no_ecall
  simp [exceptionEnableD,exceptionEnableNext,traps,xcpt,one,joined.calm,joined.secondCalm,alarm,firstCalls,calls]

section Together

variable (joined : Joined i first second) (one : pair 0 = some first) (two : pair 1 = some second) (both : retire i pair 1 = true)
include joined one two both

theorem accrue_both (c : Csr) : accrue i pair c = accrue i (only second) (accrue i (only first) c) := by
  have zero := joined.retires_pair one
  have calm : xcpt i pair = false := by simp [xcpt,one,joined.calm]
  have firstCalm : xcpt i (only first) = false := by simp [xcpt,joined.calm]
  have secondCalm : xcpt i (only second) = false := by simp [xcpt,joined.secondCalm]
  simp only [accrue,csrRetire,fpStatus,anyRetired,zero,both,calm,firstCalm,secondCalm,joined.retires_first,
    joined.retires_second,retire_only_one,one,two,only_zero,Csr.mk.injEq]
  refine ⟨?_,?_,trivial,trivial,?_⟩
  · simp only [Bool.not_false,Bool.and_true,Bool.or_true,Bool.or_false,if_true,Bool.false_eq_true,if_false,
      Option.map_some,Option.getD_some]
    rw [BitVec.or_comm first.status.fpStatus,BitVec.or_assoc]
    simp
  · simp [Bool.or_assoc]
  · cases i.inhibit with
    | true => simp
    | false =>
        simp only [Bool.false_and,Bool.not_false,Bool.and_true,if_true,Bool.toNat_true,Bool.toNat_false]
        rw [BitVec.add_assoc]
        rfl

theorem csrNext_both (quiet : csrEna i.csr second = false) (c : Csr) :
    csrNext i execute pair c = csrNext i execute (only second) (csrNext i execute (only first) c) := by
  have zero := joined.retires_pair one
  have freg : fregModified i pair = (fregModified i (only first) || fregModified i (only second)) := by
    simp [fregModified,anyRetired,zero,both,joined.retires_first,joined.retires_second,retire_only_one,one,two]
  have vreg : vregModified i pair = (vregModified i (only first) || vregModified i (only second)) := by
    simp [vregModified,anyRetired,zero,both,joined.retires_first,joined.retires_second,retire_only_one,one,two]
  have none : request i first = none ∧ request i second = none := by simp [request,joined.silent,quiet]
  simp only [csrNext,one,only_zero,Option.bind_some,none.1,none.2,Option.any_none,Bool.false_or,freg,vreg]
  rw [accrue_both joined one two both]
  have fs := mark_mark (fregModified i (only first)) (fregModified i (only second)) c.fs
  have vs := mark_mark (vregModified i (only first)) (vregModified i (only second)) c.vs
  simp only [accrue] at fs vs ⊢
  simp only [fs,vs]

theorem archNext_both (quiet : csrEna i.csr second = false) (alarm : i.csrTrap = false) (calls : ecallTaken i second = false) (a : Arch) :
    archNext execute i false pair a = alone execute i (alone execute i a first) second := by
  have zero := joined.retires_pair one
  obtain ⟨pairEnable,firstEnable,secondEnable⟩ := exceptionEnableD_both joined one alarm calls
  simp only [alone,archNext]
  congr 1
  · exact csrNext_both joined one two both quiet a.csr
  · funext c
    simp only [updates,pairEnable,firstEnable,secondEnable]
    cases i.debugTrap with
    | true => simp
    | false =>
        simp only [Bool.false_eq_true,if_false,retired,zero,both,joined.retires_first,joined.retires_second,retire_only_one,
          one,two,only_zero,if_true,Option.toList_some,List.append_nil,List.map_append,List.map_cons,List.map_nil]
        rw [writes_append,mapAfter_append]

end Together

section Stage

variable {s : CommitStage.State ports}

theorem presented_enable (shown : presented s i 0 = some first) : s.exceptionEnable = false :=
  (GraduationRefinement.first_parts shown).1

theorem presented_second (shown : presented s i 1 = some second) : ∃ first, presented s i 0 = some first :=
  ⟨_,(GraduationRefinement.second_parts shown).2.2.2.2⟩

theorem commitPort_enabled (table : RenameTable.State) (enable : Bool) (d : Destination) :
    (RenameTable.commitPort table (enable && d.takes hz) d.rd d.prd).commitTable =
      mapAfter table.commitTable (writes hz (if enable then [d] else [])) := by
  cases enable with
  | false => simp [RenameTable.commitPort]
  | true => exact RenameCycle.commitPort_commitTable table d

theorem port_destination (c : RegClass) (port : Fin 2) (stopped : Bool) :
    (if retire i pair port && !stopped then [toCommit pair c port] else []) =
      if stopped then [] else (if retire i pair port then (pair port).toList else []).map (·.instr.carried.destination c) := by
  cases stopped with
  | true => simp
  | false =>
      cases retires : retire i pair port with
      | false => simp
      | true =>
          obtain ⟨e,shown⟩ := Option.isSome_iff_exists.mp (retires_presented i.csr pair port retires).1
          simp [toCommit,shown]

theorem commitWriteEnable_port (c : RegClass) (b : Bank (ports c)) (port : Fin 2) :
    RenameTable.commitWriteEnable (hardwiredZero c) (renameTableInput (hardwiredZero c) b (bankInput i false pair c)) port =
      ((retire i pair port && !exceptionEnableD i false pair) && (toCommit pair c port).takes (hardwiredZero c)) := by
  simp only [RenameTable.commitWriteEnable,renameTableInput,bankInput,enableCommitUpdate,Destination.takes,Bool.not_false,Bool.and_true]
  cases retire i pair port <;> cases (toCommit pair c port).we <;> cases exceptionEnableD i false pair <;> rfl

theorem table_next (c : RegClass) :
    ((next execute s i).bank c).renameTable.commitTable =
      mapAfter (s.bank c).renameTable.commitTable (writes (hardwiredZero c) (updates i s.exceptionEnable (presented s i) c)) := by
  cases back : s.exceptionEnable with
  | true =>
      have hidden : presented s i 0 = none := by simp [presented,instructionO,back]
      have zero := retire_none (i := i) hidden 0
      have one := retire_none (i := i) hidden 1
      simp only [CommitStage.next]
      rw [RenameCycle.rollBack_commit (by simp [bankInput,back])]
      simp [updates,retired,zero,one]
  | false =>
      simp only [CommitStage.next,back]
      rw [RenameCycle.next_commitTable (by simp [bankInput])]
      simp only [RenameTable.committed,commitWriteEnable_port]
      have split : updates i false (presented s i) c =
          (if retire i (presented s i) 0 && !exceptionEnableD i false (presented s i) then [toCommit (presented s i) c 0] else []) ++
            (if retire i (presented s i) 1 && !exceptionEnableD i false (presented s i) then [toCommit (presented s i) c 1] else []) := by
        rw [port_destination,port_destination,updates,retired]
        cases exceptionEnableD i false (presented s i) <;> simp
      rw [split,writes_append,mapAfter_append,← commitPort_enabled,← commitPort_enabled]
      rfl

theorem arch_next : arch (next execute s i) = archNext execute i s.exceptionEnable (presented s i) (arch s) := by
  simp only [arch,archNext]
  congr 1
  funext c
  exact table_next c

-- The stage in one cycle does what it would do with one instruction after the other.
theorem arch_serial (decoded : ∀ e, presented s i 1 = some e → e.instr.instrType = .mrts → e.instr.stallCsrFence = true) (allowed : Allowed s i) :
    arch (next execute s i) = (serial i (presented s i)).foldl (alone execute i) (arch s) := by
  rw [arch_next]
  cases shown : presented s i 0 with
  | none =>
      have zero := retire_none (i := i) shown 1
      rw [archNext_none shown]
      simp [serial,shown,zero]
  | some first =>
      rw [presented_enable shown]
      cases both : retire i (presented s i) 1 with
      | false =>
          rw [archNext_first shown both]
          simp [serial,shown,both]
      | true =>
          obtain ⟨second,two,joined⟩ := retire_beside shown both
          obtain ⟨quiet,calls⟩ := joined.second_silent (decoded second two) (fun short => allowed.trimmed short 1 second two)
          have alarm : i.csrTrap = false := by
            by_contra raised
            have answer := allowed.answered (by simpa using raised)
            simp [shown,request,joined.silent] at answer
          rw [archNext_both joined shown two both quiet alarm calls]
          simp [serial,shown,two,both]

def acks (i : CommitStage.Input ports writebacks) (head : GlIndex) (pair : Pair) : List GlIndex :=
  (serial i pair).zipIdx.flatMap fun place => (storeAck (shift head place.2) (only place.1)).toList

-- A store or an AMO behind an instruction that needs no acknowledgement has its own ahead of its turn.
def ahead (i : CommitStage.Input ports writebacks) (head : GlIndex) (pair : Pair) : Option GlIndex :=
  if retire i pair 1 || (pair 0).any commitStoreOrAmo then none
  else if (pair 1).any commitStoreOrAmo && !(pair 0).any (·.status.exValid) then some (head + 1)
  else none

theorem storeAck_only (head : GlIndex) (e : GraduationList.Entry Carried) :
    storeAck head (only e) = if commitStoreOrAmo e then some head else none := by
  simp [storeAck]

theorem storeAck_serial (head : GlIndex) (together : pair 0 = none → pair 1 = none) :
    (storeAck head pair).toList = acks i head pair ++ (ahead i head pair).toList := by
  cases shown : pair 0 with
  | none =>
      have zero := retire_none (i := i) shown 1
      simp [storeAck,acks,serial,ahead,shown,together shown,zero]
  | some first =>
      cases both : retire i pair 1 with
      | false =>
          have list : acks i head pair = (storeAck head (only first)).toList := by simp [acks,serial,shown,both]
          rw [list,storeAck_only]
          cases needs : commitStoreOrAmo first <;> simp [storeAck,ahead,shown,both,needs]
      | true =>
          obtain ⟨second,two,joined⟩ := retire_beside shown both
          have list : acks i head pair = (storeAck head (only first)).toList := by
            simp [acks,serial,shown,two,both,storeAck_only,joined.no_store]
          rw [list,storeAck_only]
          cases needs : commitStoreOrAmo first <;> simp [storeAck,ahead,shown,two,both,needs,joined.no_store]

theorem removed_oldest :
    (retired i (presented s i)).map (·.instr) =
      ((GraduationRefinement.contents s.gl).take (readEnable (glInput s i))).map (·.instr) := by
  have count : readEnable (glInput s i) = (retire i (presented s i) 1).toNat + (retire i (presented s i) 0).toNat := rfl
  rw [count]
  cases both : retire i (presented s i) 1 with
  | true =>
      have zero := (retires_presented i.csr _ 1 both).2
      obtain ⟨second,two⟩ := Option.isSome_iff_exists.mp (retires_presented i.csr _ 1 both).1
      obtain ⟨several,_,_,same,one⟩ := GraduationRefinement.second_parts two
      have first : presented s i 0 = some (s.gl.cells s.gl.head).entry := one
      have oldest : (window s.gl.cells s.gl.head s.gl.num.val).take 2 = [s.gl.cells s.gl.head,s.gl.cells (s.gl.head + 1)] := by
        rw [window_take (by omega)]
        simp only [window,List.range_succ,List.range_zero,List.nil_append,List.map_cons,List.map_nil,List.cons_append,shift_zero]
        rfl
      simp only [GraduationRefinement.contents,← List.map_take,Bool.toNat_true,show retire i (presented s i) 0 = true from zero,
        oldest,retired,both,if_true,two,first,same]
      rfl
  | false =>
      cases one : retire i (presented s i) 0 with
      | false => simp [retired,one,both]
      | true =>
          obtain ⟨first,shown⟩ := Option.isSome_iff_exists.mp (retires_presented i.csr _ 0 one).1
          obtain ⟨_,some,_,same⟩ := GraduationRefinement.first_parts shown
          have oldest : (window s.gl.cells s.gl.head s.gl.num.val).take 1 = [s.gl.cells s.gl.head] := by
            rw [window_take (by omega)]
            simp [window,List.range_succ]
          have here : presented s i 0 = Option.some first := shown
          simp only [GraduationRefinement.contents,← List.map_take,Bool.toNat_true,Bool.toNat_false,Nat.zero_add,oldest,retired,both,one,
            if_true,here,same]
          rfl

-- The second instruction may retire only beside a first that takes no trap.
theorem traps_single (allowed : Allowed s i) (trap : traps i (presented s i) = true) : retire i (presented s i) 1 = false := by
  by_contra both
  obtain ⟨first,second,one,_,joined⟩ := retire_both (by simpa using both)
  simp only [traps,xcpt,one,Option.any_some,joined.calm,joined.no_ecall,Bool.and_false,Bool.false_or,Bool.or_false] at trap
  have answer := allowed.answered trap
  simp [one,request,joined.silent] at answer

end Stage

-- Every instruction in the graduation list came through the decoder.
def Decoded (s : CommitStage.State ports) : Prop :=
  ∀ index, (s.gl.cells index).entry.instr.instrType = .mrts → (s.gl.cells index).entry.instr.stallCsrFence = true

theorem writeBacks_instr (before : GlIndex → Cell Carried) (list : List GraduationList.Writeback) (now : GlIndex → Cell Carried) (index : GlIndex) :
    (list.foldl (writeBack before) now index).entry.instr = (now index).entry.instr := by
  induction list generalizing now with
  | nil => rfl
  | cons w rest ih =>
      rw [List.foldl_cons,ih]
      unfold writeBack
      split
      · by_cases same : index = w.index
        · subst same
          simp
        · rw [Function.update_of_ne same]
      · rfl

theorem nextCells_instr (gl : GraduationList.State Carried) (input : GraduationList.Input Carried) (index : GlIndex) :
    (nextCells gl input index).entry.instr = (gl.cells index).entry.instr ∨ (nextCells gl input index).entry.instr = input.instruction.instr := by
  rw [nextCells,writeBacks_instr]
  unfold pushed
  split
  · by_cases same : index = gl.tail
    · subst same
      right
      simp
    · left
      rw [Function.update_of_ne same]
  · exact .inl rfl

theorem next_cells (gl : GraduationList.State Carried) (input : GraduationList.Input Carried) :
    (GraduationList.next gl input).cells = nextCells gl input := by
  unfold GraduationList.next
  dsimp only
  split
  · rfl
  · split <;> rfl

theorem decoded_next {s : CommitStage.State ports} (decoded : Decoded s) (allowed : Allowed s i) : Decoded (next execute s i) := by
  intro index kind
  have cells : (next execute s i).gl.cells = nextCells s.gl (glInput s i) := next_cells s.gl (glInput s i)
  rw [cells] at kind ⊢
  rcases nextCells_instr s.gl (glInput s i) index with kept | fresh
  · rw [kept] at kind ⊢
    exact decoded index kind
  · rw [fresh] at kind ⊢
    exact allowed.decoded kind

theorem decoded_run (inputs : Nat → CommitStage.Input ports writebacks) (admits : Admits (machine execute) inputs) (t : Nat) :
    Decoded (trace (machine execute) inputs t) := by
  induction t with
  | zero =>
      intro index kind
      cases kind
  | succ t ih => exact decoded_next ih (admits t)

theorem presented_decoded {s : CommitStage.State ports} (decoded : Decoded s) (shown : presented s i 1 = some second)
    (kind : second.instr.instrType = .mrts) : second.instr.stallCsrFence = true := by
  have same := (GraduationRefinement.second_parts shown).2.2.2.1
  rw [same] at kind ⊢
  exact decoded _ kind

-- One cycle of the stage as retirement in program order. `single`: an instruction that traps has no
-- company. `uncounted`: an exception of the core counts no instruction and passes no flags on.
structure Serial (execute : Request → Csr → Csr → Csr) (s : CommitStage.State ports) (i : CommitStage.Input ports writebacks) : Prop where
  removed : (retired i (presented s i)).map (·.instr) =
    ((GraduationRefinement.contents s.gl).take (readEnable (glInput s i))).map (·.instr)
  changed : arch (next execute s i) = (serial i (presented s i)).foldl (alone execute i) (arch s)
  requested : ((presented s i 0).bind (request i)).toList = (serial i (presented s i)).flatMap fun e => (request i e).toList
  acknowledged : (storeAck s.gl.head (presented s i)).toList = acks i s.gl.head (presented s i) ++ (ahead i s.gl.head (presented s i)).toList
  joined : retire i (presented s i) 1 = true → ∃ first second, presented s i 0 = some first ∧ presented s i 1 = some second ∧
    Joined i first second ∧ request i second = none
  trapped : exceptionEnableD i s.exceptionEnable (presented s i) = true → (arch (next execute s i)).table = (arch s).table
  single : traps i (presented s i) = true → retire i (presented s i) 1 = false
  uncounted : xcpt i (presented s i) = true → ∀ port, csrRetire i (presented s i) port = false

theorem second_quiet {s : CommitStage.State ports} (decoded : Decoded s) (allowed : Allowed s i) (joined : Joined i first second)
    (shown : presented s i 1 = some second) : request i second = none := by
  have quiet := joined.second_silent (presented_decoded decoded shown) (fun short => allowed.trimmed short 1 second shown)
  simp [request,quiet.1]

theorem requested_serial {s : CommitStage.State ports} (decoded : Decoded s) (allowed : Allowed s i) :
    ((presented s i 0).bind (request i)).toList = (serial i (presented s i)).flatMap fun e => (request i e).toList := by
  cases shown : presented s i 0 with
  | none =>
      have zero := retire_none (i := i) shown 1
      simp [serial,shown,zero]
  | some first =>
      cases both : retire i (presented s i) 1 with
      | false => simp [serial,shown,both]
      | true =>
          obtain ⟨second,two,joined⟩ := retire_beside shown both
          simp [serial,shown,both,two,second_quiet decoded allowed joined two]

theorem serial_cycle {s : CommitStage.State ports} (decoded : Decoded s) (allowed : Allowed s i) : Serial execute s i where
  removed := removed_oldest
  changed := arch_serial (fun _ shown => presented_decoded decoded shown) allowed
  requested := requested_serial decoded allowed
  acknowledged := by
    apply storeAck_serial
    intro hidden
    cases shown : presented s i 1 with
    | none => rfl
    | some second =>
        obtain ⟨first,some⟩ := presented_second shown
        simp [hidden] at some
  joined := by
    intro both
    obtain ⟨first,second,one,two,joined⟩ := retire_both both
    exact ⟨first,second,one,two,joined,second_quiet decoded allowed joined two⟩
  trapped := by
    intro trap
    funext c
    have table : (arch (next execute s i)).table c =
        mapAfter ((arch s).table c) (writes (hardwiredZero c) (updates i s.exceptionEnable (presented s i) c)) := table_next c
    simpa [updates,trap] using table
  single := traps_single allowed
  uncounted := by
    intro raised port
    simp [csrRetire,raised]

def cycleInput (execute : Request → Csr → Csr → Csr) (inputs : Nat → CommitStage.Input ports writebacks) (u : Nat) :
    CommitStage.Input ports writebacks :=
  wired (trace (machine execute) inputs u) (inputs u)

def schedule (execute : Request → Csr → Csr → Csr) (inputs : Nat → CommitStage.Input ports writebacks) (t : Nat) :
    List (CommitStage.Input ports writebacks × GraduationList.Entry Carried) :=
  (List.range t).flatMap fun u =>
    (serial (cycleInput execute inputs u) (presented (trace (machine execute) inputs u) (cycleInput execute inputs u))).map
      fun e => (cycleInput execute inputs u,e)

theorem arch_run (inputs : Nat → CommitStage.Input ports writebacks) (admits : Admits (machine execute) inputs) (t : Nat) :
    arch (trace (machine execute) inputs t) =
      (schedule execute inputs t).foldl (fun a step => alone execute step.1 a step.2) (arch (reset : CommitStage.State ports)) := by
  induction t with
  | zero => rfl
  | succ t ih =>
      have cycle : Serial execute (trace (machine execute) inputs t) (cycleInput execute inputs t) :=
        serial_cycle (decoded_run inputs admits t) (admits t)
      have step : trace (machine execute) inputs (t + 1) = next execute (trace (machine execute) inputs t) (cycleInput execute inputs t) := rfl
      rw [step,cycle.changed,ih]
      simp [schedule,List.range_succ,List.foldl_map]

theorem dual_retirement (execute : Request → Csr → Csr → Csr) (inputs : Nat → CommitStage.Input ports writebacks)
    (admits : Admits (machine execute) inputs) (t : Nat) :
    arch (trace (machine execute) inputs t) =
        (schedule execute inputs t).foldl (fun a step => alone execute step.1 a step.2) (arch (reset : CommitStage.State ports)) ∧
      Serial execute (trace (machine execute) inputs t) (cycleInput execute inputs t) :=
  ⟨arch_run inputs admits t,serial_cycle (decoded_run inputs admits t) (admits t)⟩

-- Runs with one port for each class: two instructions, each ready when it is pushed. The memory unit
-- stalls the first until the second is there.
def one : RegClass → Nat := fun _ => 1

def quietRename (c : RegClass) : RenameBank.Input (one c) (one c) where
  command := ⟨false,false,false,0,false⟩
  write := false
  rd := 0
  readSrc := fun _ => 0
  useRs := fun _ => false
  writeback := fun _ => ⟨false,0,0⟩
  commitUpdate := fun _ => false
  commit := fun _ => RenameStage.idle

def entry (kind : InstrType) (memory : MemType) (fence exValid : Bool) : GraduationList.Entry Carried :=
  ⟨⟨true,kind,memory,fence,⟨0,0,fun _ => RenameStage.idle⟩⟩,⟨exValid,0,false,0,0,0⟩⟩

-- A vector load of length 0 is ready when it is pushed, as are stores and exceptions.
def vectorLoad (kind : InstrType) (exValid : Bool) : GraduationList.Entry Carried := entry kind .load false exValid

def pushes (instruction : GraduationList.Entry Carried) (writebacks : List GraduationList.Writeback) : GraduationList.Input Carried where
  instruction := instruction
  isVectorVl0 := instruction.instr.memType == .load
  ex := ⟨instruction.status.exValid,2,0⟩
  readHead := fun _ => false
  writebacks := writebacks
  exFromExe := Exception.none
  exFromExeIndex := 0
  flush := false
  flushIndex := 0
  flushCommit := false

def pairRun (first second : GraduationList.Entry Carried) (writebacks : List GraduationList.Writeback) (u : Nat) : CommitStage.Input one one where
  gl := pushes (if u = 0 then first else if u = 1 then second else zero.entry) (if u = 1 then writebacks else [])
  csr := ⟨Exception.none,Exception.none,decide (u = 1),0⟩
  resultGl := 0
  csrAddrGl := 0
  vsetvlVtype := 0
  halted := false
  csrTrap := false
  debugTrap := false
  inhibit := false
  rename := quietRename

def keep : Request → Csr → Csr → Csr := fun _ _ after => after

theorem admits_pairRun (one : first.instr.instrType ≠ .mrts) (two : second.instr.instrType ≠ .mrts) (writebacks : List GraduationList.Writeback) :
    Admits (machine keep) (pairRun first second writebacks) := by
  intro u
  refine ⟨?_,?_,?_⟩
  · intro kind
    change (if u = 0 then first else if u = 1 then second else zero.entry).instr.instrType = .mrts at kind
    split at kind
    · exact absurd kind one
    · split at kind
      · exact absurd kind two
      · cases kind
  · intro short
    exact absurd rfl short
  · intro alarm
    cases alarm

-- A CSR instruction turns both units on. Then a floating point instruction that is inexact and a vector instruction that
-- saturates retire together, each with a register to write.
def turnOn : Request → Csr → Csr → Csr := fun _ _ after => { after with fs := .clean, vs := .clean }

def holding (c : RegClass) (rd : Reg) (prd : Phreg) : GraduationList.Entry Carried :=
  ⟨⟨true,.other 0,.notMem,false,⟨rd,0,fun d => if d = c then ⟨true,rd,prd,0⟩ else RenameStage.idle⟩⟩,⟨false,0,false,0,0,0⟩⟩

def effectsRun (u : Nat) : CommitStage.Input one one :=
  { pairRun zero.entry zero.entry [] u with
    gl := match u with
      | 0 => pushes (entry .csrrw .notMem true false) []
      | 1 => pushes zero.entry [⟨.scalar,true,0,Exception.none,⟨false,0,false,0,0,0⟩⟩]
      | 2 => pushes (holding .fp 3 33) []
      | 3 => pushes (holding .simd 4 34) []
      | 4 => pushes zero.entry
          [⟨.simd,true,2,Exception.none,⟨false,0,true,0,0,0⟩⟩,⟨.fp,true,1,Exception.none,⟨false,1,false,0,0,0⟩⟩]
      | _ => pushes zero.entry [] }

theorem admits_effectsRun : Admits (machine turnOn) effectsRun := by
  intro u
  refine ⟨?_,fun short => absurd rfl short,nofun⟩
  rcases u with _ | _ | _ | _ | _ | u <;> exact nofun

theorem dual_retirement_pair :
    retire (cycleInput turnOn effectsRun 5) (presented (trace (machine turnOn) effectsRun 5) (cycleInput turnOn effectsRun 5)) 1 = true ∧
      (arch (trace (machine turnOn) effectsRun 5)).csr = ⟨0,false,.clean,.clean,1⟩ ∧
      (arch (trace (machine turnOn) effectsRun 6)).csr = ⟨1,true,.dirty,.dirty,3⟩ ∧
      ((arch (trace (machine turnOn) effectsRun 6)).table .fp 3,(arch (trace (machine turnOn) effectsRun 6)).table .simd 4) = (33,34) ∧
      arch (trace (machine turnOn) effectsRun 6) =
        (schedule turnOn effectsRun 6).foldl (fun a step => alone turnOn step.1 a step.2) (arch (reset : CommitStage.State one)) ∧
      Serial turnOn (trace (machine turnOn) effectsRun 5) (cycleInput turnOn effectsRun 5) :=
  ⟨by decide,by decide,by decide,by decide,
    (dual_retirement turnOn effectsRun admits_effectsRun 6).1,(dual_retirement turnOn effectsRun admits_effectsRun 5).2⟩

-- Stronger than `Serial`: no acknowledgement ahead of its turn, no company for a fence, no VLEFF as
-- company, and nothing leaves the graduation list with a trap.
structure Strict (s : CommitStage.State ports) (i : CommitStage.Input ports writebacks) : Prop where
  acknowledged : (storeAck s.gl.head (presented s i)).toList = acks i s.gl.head (presented s i)
  fence : retire i (presented s i) 1 = true → (presented s i 0).any (·.instr.instrType == .fence) = false
  vleff : retire i (presented s i) 1 = true → (presented s i 1).any (·.instr.instrType == .vleff) = false
  trapped : traps i (presented s i) = true → ∀ port, retire i (presented s i) port = false

def vleffRun : Nat → CommitStage.Input one one := pairRun (vectorLoad (.other 0) false) (vectorLoad .vleff false) []

def storeRun : Nat → CommitStage.Input one one := pairRun (vectorLoad (.other 0) false) (entry (.other 1) .store false false) []

def fenceRun : Nat → CommitStage.Input one one :=
  pairRun (entry .fence .notMem true false) (vectorLoad (.other 0) false) [⟨.scalar,true,0,Exception.none,⟨false,0,false,0,0,0⟩⟩]

def trapRun : Nat → CommitStage.Input one one := pairRun (vectorLoad (.other 0) true) (vectorLoad (.other 0) false) []

theorem not_strict :
    (Admits (machine keep) vleffRun ∧ ¬ Strict (trace (machine keep) vleffRun 2) (cycleInput keep vleffRun 2)) ∧
      (Admits (machine keep) storeRun ∧ ¬ Strict (trace (machine keep) storeRun 2) (cycleInput keep storeRun 2)) ∧
      (Admits (machine keep) fenceRun ∧ ¬ Strict (trace (machine keep) fenceRun 2) (cycleInput keep fenceRun 2)) ∧
      (Admits (machine keep) trapRun ∧ ¬ Strict (trace (machine keep) trapRun 1) (cycleInput keep trapRun 1)) := by
  refine ⟨⟨admits_pairRun (by decide) (by decide) _,?_⟩,⟨admits_pairRun (by decide) (by decide) _,?_⟩,
    ⟨admits_pairRun (by decide) (by decide) _,?_⟩,⟨admits_pairRun (by decide) (by decide) _,?_⟩⟩
  · intro strict
    exact absurd (strict.vleff (by decide)) (by decide)
  · intro strict
    exact absurd strict.acknowledged (by decide)
  · intro strict
    exact absurd (strict.fence (by decide)) (by decide)
  · intro strict
    exact absurd (strict.trapped (by decide) 0) (by decide)

end Sargantana.DualRetirement
