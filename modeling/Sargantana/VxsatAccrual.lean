import Sargantana.DualRetirement
import Sargantana.VectorSaturation

-- vxsat from the lanes to the CSR file: simd_unit, the register behind it, the graduation list and
-- the commit stage.
namespace Sargantana.VxsatAccrual
open DracPkg ExeStage ScoreBoardSimd SimdSchedule VmulLane GraduationList CommitStage StateMachine Window FixedPoint VectorSaturation
open RenameStage (RegClass)

-- What the graduation list takes of wb_simd[0]
structure SimdWb where
  glIndex : GlIndex
  vsOvf : Bool
  vl : Nat
  sew : Fin 4

-- The instruction of an entry that went to the SIMD unit, the cycle in which it did, and whether one
-- of its active elements saturates
structure Owned where
  op : Instr
  since : Nat
  saturates : Bool

-- `owner` and `now` only watch.
structure State (ports : RegClass → Nat) where
  simd : VsmulSchedule.State
  wbSimd : Option SimdWb
  commit : CommitStage.State ports
  owner : GlIndex → Option Owned
  now : Nat

-- `before` and `behind` are the writebacks of the ports around the one of simd_unit: the scalar ones,
-- and those of vector loads and of the FPU.
structure Input (ports writebacks : RegClass → Nat) where
  from_rr : RrExeInstr VecOperands
  kill : Bool
  grants : Grants
  vxrm : Vxrm
  csrEnable : Bool
  lmul : Fin 8
  before : List Writeback
  behind : List Writeback
  commit : CommitStage.Input ports writebacks

variable {ports writebacks : RegClass → Nat}

def flushExe (s : State ports) (i : Input ports writebacks) : Bool := s.commit.exceptionEnable || i.csrEnable

def simdInput (s : State ports) (i : Input ports writebacks) : VsmulSchedule.Input := ⟨⟨i.from_rr,i.kill,flushExe s i,i.grants⟩,i.vxrm⟩

def issue (s : State ports) (i : Input ports writebacks) : Option Instr := issued s.simd.mul.schedule (simdInput s i).mul

def out (s : State ports) (i : Input ports writebacks) : Instr := VsmulSchedule.selOutInstr s.simd (simdInput s i)

-- instruction_simd_o.valid
def valid (s : State ports) (i : Input ports writebacks) : Bool :=
  SimdUnit.simdValid s.simd.mul.schedule.unit (VmulSchedule.incoming s.simd.mul (simdInput s i).mul)

def nextWbSimd (s : State ports) (i : Input ports writebacks) : Option SimdWb :=
  if flushExe s i then none
  else if valid s i then
    some ⟨(out s i).glIndex,vsOvf s.simd (simdInput s i),(out s i).instr.vl.val,(out s i).instr.sew⟩
  else none

def simdWriteback (s : State ports) (i : Input ports writebacks) : List Writeback :=
  match s.wbSimd with
  | some w => [⟨.simd,true,w.glIndex,Exception.none,⟨false,0,w.vsOvf,w.vl,w.sew,i.lmul⟩⟩]
  | none => []

-- An instruction is pushed without an overflow.
def commitInput (s : State ports) (i : Input ports writebacks) : CommitStage.Input ports writebacks :=
  CommitStage.wired s.commit
    { i.commit with
      gl :=
        { i.commit.gl with
          instruction :=
            { i.commit.gl.instruction with
              status := { i.commit.gl.instruction.status with vsOvf := false } }
          writebacks := i.before ++ simdWriteback s i ++ i.behind } }

def glIn (s : State ports) (i : Input ports writebacks) : GraduationList.Input Carried := glInput s.commit (commitInput s i)

-- The owner of an entry behind the push and the issue of the cycle
def claimed (s : State ports) (i : Input ports writebacks) (k : GlIndex) : Option Owned :=
  match issue s i with
  | some op =>
      if op.instr.vregfileWe && op.glIndex == k then some ⟨op,s.now,activeSaturates i.vxrm op⟩
      else if writeEnable s.commit.gl (glIn s i) && s.commit.gl.tail == k then none
      else s.owner k
  | none => if writeEnable s.commit.gl (glIn s i) && s.commit.gl.tail == k then none else s.owner k

-- A flush drops what has not been written back.
def nextOwner (s : State ports) (i : Input ports writebacks) (k : GlIndex) : Option Owned :=
  (claimed s i k).filter fun o => !flushExe s i || decide (o.since + o.op.exeStages ≤ s.now)

def next (execute : Request → Csr → Csr → Csr) (s : State ports) (i : Input ports writebacks) : State ports where
  simd := VsmulSchedule.next s.simd (simdInput s i)
  wbSimd := nextWbSimd s i
  commit := CommitStage.next execute s.commit (commitInput s i)
  owner := nextOwner s i
  now := s.now + 1

-- An instruction is in flight until it is written back, one cycle after its last stage.
def Flying (s : State ports) (o : Owned) : Prop := s.now ≤ o.since + o.op.exeStages

def live (s : State ports) (k : GlIndex) : Prop := age s.commit.gl.head k < s.commit.gl.num.val

-- What the rest of the core promises: an instruction is issued once, under the index of its own entry;
-- the other units write back their own instructions; a misspredicted branch is younger than what is
-- in flight.
structure Allowed (s : State ports) (i : Input ports writebacks) : Prop where
  divisions : SimdSchedule.Decoded (simdInput s i).mul
  own : ∀ op, issue s i = some op → op.instr.vregfileWe = true →
    live s op.glIndex ∧ (s.commit.gl.cells op.glIndex).validBit = false ∧
    (s.commit.gl.cells op.glIndex).entry.instr.instrType = op.instr.instrType ∧
    ∀ o, s.owner op.glIndex = some o → ¬ Flying s o
  others : ∀ w ∈ i.before ++ i.behind, w.enable = true →
    claimed s i w.index = none ∧ (w.port = .simd → w.data.vsOvf = false)
  branch : i.commit.gl.flush = true → live s i.commit.gl.flushIndex ∧
    ∀ k o, claimed s i k = some o → Flying s o → age s.commit.gl.head k ≤ age s.commit.gl.head i.commit.gl.flushIndex

structure Meets (s : State ports) (i : Input ports writebacks) : Prop where
  calm : Calm s.simd.mul.schedule (simdInput s i).mul
  bounded : GraduationRefinement.Bounded s.commit.gl (glIn s i)
  sole : ∀ op, issue s i = some op → op.instr.vregfileWe = true → Sole i.vxrm op
  clear : ∀ op, issue s i = some op → op.instr.vregfileWe = true → op.instr.instrType = .vsmul → VmulSchedule.Clear s.simd.mul op

def reset : State ports := ⟨VsmulSchedule.machine.initial,none,CommitStage.reset,fun _ => none,0⟩

def machine (execute : Request → Csr → Csr → Csr) : Machine (State ports) (Input ports writebacks) where
  initial := reset
  allowed := Allowed
  step := next execute

def shown (s : State ports) (i : Input ports writebacks) : Pair := presented s.commit (commitInput s i)

-- Whether the instruction of an entry saturates in one of its active elements
def saturates (s : State ports) (k : GlIndex) : Bool := (s.owner k).any (·.saturates)

def retiresSaturated (s : State ports) (i : Input ports writebacks) (port : Fin 2) : Bool :=
  retire (commitInput s i) (shown s i) port && saturates s (shift s.commit.gl.head port.val)

structure Accrues (execute : Request → Csr → Csr → Csr) (s : State ports) (i : Input ports writebacks) : Prop where
  -- the instruction of an entry with an owner is the one that was issued
  owned : ∀ port e o, shown s i port = some e → s.owner (shift s.commit.gl.head port.val) = some o →
    e.instr.instrType = o.op.instr.instrType ∧ ¬ Flying s o
  accrued : (accrue (commitInput s i) (shown s i) s.commit.csr).vxsat =
    (s.commit.csr.vxsat || (retiresSaturated s i 0 || retiresSaturated s i 1))
  kept : ∀ port, retiresSaturated s i port = true → (next execute s i).commit.csr.vxsat = true

section
variable {execute : Request → Csr → Csr → Csr} {s : State ports} {i : Input ports writebacks} {k : GlIndex} {o : Owned}

def pushes (s : State ports) (i : Input ports writebacks) (k : GlIndex) : Prop :=
  writeEnable s.commit.gl (glIn s i) = true ∧ s.commit.gl.tail = k

theorem claimed_cases (found : claimed s i k = some o) :
    (∃ op, issue s i = some op ∧ op.instr.vregfileWe = true ∧ op.glIndex = k ∧ o = ⟨op,s.now,activeSaturates i.vxrm op⟩) ∨
      (s.owner k = some o ∧ ¬ pushes s i k) := by
  have old : (if writeEnable s.commit.gl (glIn s i) && s.commit.gl.tail == k then none else s.owner k) = some o →
      s.owner k = some o ∧ ¬ pushes s i k := by
    intro kept
    split at kept
    · cases kept
    · rename_i quiet
      rw [Bool.and_eq_true,beq_iff_eq] at quiet
      exact ⟨kept,quiet⟩
  unfold claimed at found
  cases fresh : issue s i with
  | none =>
      rw [fresh] at found
      exact .inr (old found)
  | some op =>
      rw [fresh] at found
      dsimp only at found
      split at found
      · rename_i here
        rw [Bool.and_eq_true,beq_iff_eq] at here
        exact .inl ⟨op,rfl,here.1,here.2,(Option.some.inj found).symm⟩
      · exact .inr (old found)

theorem claimed_issued {op : Instr} (fresh : issue s i = some op) (write : op.instr.vregfileWe = true) :
    claimed s i op.glIndex = some ⟨op,s.now,activeSaturates i.vxrm op⟩ := by
  unfold claimed
  rw [fresh]
  dsimp only
  rw [write,beq_self_eq_true,Bool.and_true,if_pos rfl]

theorem claimed_kept (other : ∀ op, issue s i = some op → op.instr.vregfileWe = true → op.glIndex ≠ k) (quiet : ¬ pushes s i k) :
    claimed s i k = s.owner k := by
  have still : (writeEnable s.commit.gl (glIn s i) && s.commit.gl.tail == k) = false := by
    rw [Bool.eq_false_iff,ne_eq,Bool.and_eq_true,beq_iff_eq]
    exact quiet
  unfold claimed
  rw [still]
  cases fresh : issue s i with
  | none => rfl
  | some op =>
      dsimp only
      have apart : (op.instr.vregfileWe && op.glIndex == k) = false := by
        rw [Bool.eq_false_iff,ne_eq,Bool.and_eq_true,beq_iff_eq]
        exact fun both => other op fresh both.1 both.2
      rw [apart]
      rfl

theorem claimed_none (free : claimed s i k = none) : pushes s i k ∨ s.owner k = none := by
  by_cases push : pushes s i k
  · exact .inl push
  · refine .inr ?_
    rw [← free]
    refine (claimed_kept ?_ push).symm
    intro op fresh write same
    rw [← same,claimed_issued fresh write] at free
    cases free

theorem owner_next : (next execute s i).owner k = some o ↔
    claimed s i k = some o ∧ (flushExe s i = true → o.since + o.op.exeStages ≤ s.now) := by
  change (claimed s i k).filter _ = some o ↔ _
  rw [Option.filter_eq_some_iff]
  refine and_congr_right fun _ => ?_
  cases flushExe s i <;> simp

theorem stages_positive {op : Instr} (fresh : issue s i = some op) : 1 ≤ op.exeStages := by
  unfold issue at fresh
  rcases issued_cases s.simd.mul.schedule (simdInput s i).mul with ⟨none,_⟩ | ⟨found,_⟩
  · rw [none] at fresh
    cases fresh
  · obtain rfl := Option.some.inj (found.symm.trans fresh)
    have cases := stages_cases s.simd.mul.schedule.board.previousDiv (ready i.from_rr) (simdOperands i.from_rr)
    change 1 ≤ assigned s.simd.mul.schedule (simdInput s i).mul
    change (1 ≤ assigned s.simd.mul.schedule (simdInput s i).mul ∧ _) ∨ (assigned s.simd.mul.schedule (simdInput s i).mul = 32 ∧ _) at cases
    omega

theorem writeBacks_other (before : GlIndex → Cell Carried) (list : List Writeback) (now : GlIndex → Cell Carried)
    (apart : ∀ w ∈ list, w.enable = true → w.index ≠ k) : list.foldl (writeBack before) now k = now k := by
  induction list generalizing now with
  | nil => rfl
  | cons w rest ih =>
      rw [List.foldl_cons,ih _ fun other inside => apart other (List.mem_cons_of_mem _ inside)]
      unfold writeBack
      split
      · rename_i enable
        exact Function.update_of_ne (apart w List.mem_cons_self enable).symm _ _
      · rfl

theorem writeBacks_quiet (before : GlIndex → Cell Carried) (list : List Writeback) (now : GlIndex → Cell Carried)
    (clean : ∀ w ∈ list, w.enable = true → w.index = k → w.port = .simd → w.data.vsOvf = false)
    (start : (now k).entry.status.vsOvf = false) : (list.foldl (writeBack before) now k).entry.status.vsOvf = false := by
  induction list generalizing now with
  | nil => exact start
  | cons w rest ih =>
      rw [List.foldl_cons]
      refine ih _ (fun other inside => clean other (List.mem_cons_of_mem _ inside)) ?_
      unfold writeBack
      split
      · rename_i enable
        by_cases here : w.index = k
        · subst here
          rw [Function.update_self]
          cases port : w.port with
          | simd => exact clean w List.mem_cons_self enable rfl port
          | scalar => exact start
          | fp => exact start
        · rw [Function.update_of_ne (Ne.symm here)]
          exact start
      · exact start

end

-- What the graduation list and the owners of its entries agree on
structure Holds (s : State ports) : Prop where
  valid : GraduationRefinement.Valid s.commit.gl
  flying : ∀ k o, s.owner k = some o → Flying s o →
    live s k ∧ (s.commit.gl.cells k).validBit = false ∧ (s.commit.gl.cells k).entry.status.vsOvf = false
  landed : ∀ k o, s.owner k = some o → ¬ Flying s o →
    (s.commit.gl.cells k).validBit = true ∧ (s.commit.gl.cells k).entry.status.vsOvf = o.saturates
  idle : ∀ k, s.owner k = none → (s.commit.gl.cells k).entry.status.vsOvf = false
  kind : ∀ k o, s.owner k = some o → (s.commit.gl.cells k).entry.instr.instrType = o.op.instr.instrType

-- What stands in wb_simd is what is to be written back in this cycle.
structure Written (s : State ports) : Prop where
  known : ∀ w, s.wbSimd = some w →
    ∃ o, s.owner w.glIndex = some o ∧ o.since + o.op.exeStages = s.now ∧ w.vsOvf = o.saturates
  comes : ∀ k o, s.owner k = some o → o.since + o.op.exeStages = s.now → ∃ w, s.wbSimd = some w ∧ w.glIndex = k

section
variable {execute : Request → Csr → Csr → Csr} {s : State ports} {i : Input ports writebacks} {k : GlIndex} {o : Owned}

theorem cells_next : (next execute s i).commit.gl.cells = nextCells s.commit.gl (glIn s i) :=
  DualRetirement.next_cells s.commit.gl (glIn s i)

theorem live_unpushed (holds : Holds s) (here : live s k) : ¬ pushes s i k := by
  rintro ⟨_,same⟩
  rw [← same] at here
  exact GraduationRefinement.tail_free holds.valid here

theorem claimed_flying (holds : Holds s) (allowed : Allowed s i) (owner : claimed s i k = some o) (flying : Flying s o) :
    live s k ∧ (s.commit.gl.cells k).validBit = false ∧ (s.commit.gl.cells k).entry.status.vsOvf = false ∧ ¬ pushes s i k := by
  rcases claimed_cases owner with ⟨op,fresh,write,rfl,rfl⟩ | ⟨old,quiet⟩
  · obtain ⟨here,unfinished,_,apart⟩ := allowed.own op fresh write
    refine ⟨here,unfinished,?_,live_unpushed holds here⟩
    cases before : s.owner op.glIndex with
    | none => exact holds.idle _ before
    | some o =>
        have finished := (holds.landed _ o before (apart o before)).1
        rw [unfinished] at finished
        cases finished
  · obtain ⟨here,unfinished,clean⟩ := holds.flying k o old flying
    exact ⟨here,unfinished,clean,quiet⟩

theorem flying_claimed (holds : Holds s) (allowed : Allowed s i) (owner : s.owner k = some o) (flying : Flying s o) :
    claimed s i k = some o := by
  rw [← owner]
  refine claimed_kept ?_ (live_unpushed holds (holds.flying k o owner flying).1)
  intro op fresh write same
  subst same
  exact (allowed.own op fresh write).2.2.2 o owner flying

-- The entry of an owner takes only the writeback of the SIMD unit.
theorem owned_cell (allowed : Allowed s i) (owner : claimed s i k = some o) (quiet : ¬ pushes s i k) :
    (next execute s i).commit.gl.cells k = (simdWriteback s i).foldl (writeBack s.commit.gl.cells) s.commit.gl.cells k := by
  have apart : ∀ w ∈ i.before ++ i.behind, w.enable = true → w.index ≠ k := by
    intro w inside enable same
    have free := (allowed.others w inside enable).1
    rw [same,owner] at free
    cases free
  have kept : pushed s.commit.gl (glIn s i) k = s.commit.gl.cells k := by
    unfold pushed
    split
    · rename_i push
      exact Function.update_of_ne (fun same => quiet ⟨push,same.symm⟩) _ _
    · rfl
  have first : i.before.foldl (writeBack s.commit.gl.cells) (pushed s.commit.gl (glIn s i)) k = s.commit.gl.cells k := by
    rw [writeBacks_other _ _ _ fun w inside => apart w (List.mem_append_left _ inside),kept]
  have list : (glIn s i).writebacks = i.before ++ simdWriteback s i ++ i.behind := rfl
  rw [cells_next,nextCells,list,List.foldl_append,List.foldl_append,
    writeBacks_other _ _ _ fun w inside => apart w (List.mem_append_right _ inside)]
  unfold simdWriteback
  cases s.wbSimd with
  | none => exact first
  | some w =>
      simp only [List.foldl_cons,List.foldl_nil,writeBack,if_true]
      by_cases here : k = w.glIndex
      · subst here
        rw [Function.update_self,Function.update_self,first]
      · rw [Function.update_of_ne here,Function.update_of_ne here,first]

theorem due_cell (back : Written s) (allowed : Allowed s i) (owner : claimed s i k = some o)
    (due : o.since + o.op.exeStages = s.now) :
    ((next execute s i).commit.gl.cells k).validBit = true ∧
      ((next execute s i).commit.gl.cells k).entry.status.vsOvf = o.saturates := by
  rcases claimed_cases owner with ⟨op,fresh,_,_,rfl⟩ | ⟨old,quiet⟩
  · have positive := stages_positive fresh
    change s.now + op.exeStages = s.now at due
    omega
  · obtain ⟨w,stands,rfl⟩ := back.comes k o old due
    obtain ⟨same,owns,_,overflow⟩ := back.known w stands
    obtain rfl := Option.some.inj (old.symm.trans owns)
    rw [owned_cell allowed owner quiet]
    simp only [simdWriteback,stands,List.foldl_cons,List.foldl_nil,writeBack,if_true,Function.update_self]
    exact ⟨trivial,overflow⟩

theorem waiting_cell (holds : Holds s) (back : Written s) (allowed : Allowed s i) (owner : claimed s i k = some o)
    (later : o.since + o.op.exeStages ≠ s.now) (quiet : ¬ pushes s i k) :
    (next execute s i).commit.gl.cells k = s.commit.gl.cells k := by
  rw [owned_cell allowed owner quiet]
  refine writeBacks_other _ _ _ ?_
  intro w inside _ same
  unfold simdWriteback at inside
  cases stands : s.wbSimd with
  | none =>
      rw [stands] at inside
      cases inside
  | some w' =>
      rw [stands] at inside
      obtain rfl := List.mem_singleton.mp inside
      obtain ⟨o',owns,due,_⟩ := back.known w' stands
      change w'.glIndex = k at same
      rw [same] at owns
      have kept := flying_claimed holds allowed owns (Nat.le_of_eq due.symm)
      obtain rfl := Option.some.inj (kept.symm.trans owner)
      exact later due

theorem free_cell (holds : Holds s) (back : Written s) (allowed : Allowed s i) (free : claimed s i k = none) :
    ((next execute s i).commit.gl.cells k).entry.status.vsOvf = false := by
  rw [cells_next,nextCells]
  refine writeBacks_quiet _ _ _ ?_ ?_
  · intro w inside enable here port
    change w ∈ i.before ++ simdWriteback s i ++ i.behind at inside
    rw [List.append_assoc,List.mem_append,List.mem_append] at inside
    rcases inside with first | own | last
    · exact (allowed.others w (List.mem_append_left _ first) enable).2 port
    · unfold simdWriteback at own
      cases stands : s.wbSimd with
      | none =>
          rw [stands] at own
          cases own
      | some w' =>
          rw [stands] at own
          obtain rfl := List.mem_singleton.mp own
          obtain ⟨o',owns,due,_⟩ := back.known w' stands
          change w'.glIndex = k at here
          rw [here] at owns
          rw [flying_claimed holds allowed owns (Nat.le_of_eq due.symm)] at free
          cases free
    · exact (allowed.others w (List.mem_append_right _ last) enable).2 port
  · unfold pushed
    split
    · rename_i push
      by_cases here : k = s.commit.gl.tail
      · rw [here,Function.update_self]
        rfl
      · rw [Function.update_of_ne here]
        rcases claimed_none free with pushing | idle
        · exact absurd pushing.2.symm here
        · exact holds.idle k idle
    · rename_i quiet
      rcases claimed_none free with pushing | idle
      · exact absurd pushing.1 quiet
      · exact holds.idle k idle

end

theorem presented_next (s : State ports) (i : Input ports writebacks) (allowed : Allowed s i) :
    GraduationRefinement.Presented s.commit.gl (glIn s i) := by
  obtain ⟨retired,together⟩ := GraduationRefinement.retire_presented (s := s.commit.gl) (i := glIn s i) (commitInput s i).csr rfl
  exact ⟨retired,together,fun flush => (allowed.branch flush).1⟩

section
variable {execute : Request → Csr → Csr → Csr} {s : State ports} {i : Input ports writebacks} {k : GlIndex} {o : Owned}

theorem valid_next (holds : Holds s) (allowed : Allowed s i) (meets : Meets s i) :
    GraduationRefinement.Valid (next execute s i).commit.gl :=
  (GraduationRefinement.next_refines holds.valid (presented_next s i allowed) meets.bounded).1

theorem flying_next (kept : (next execute s i).owner k = some o) (flying : Flying (next execute s i) o) :
    claimed s i k = some o ∧ Flying s o ∧ o.since + o.op.exeStages ≠ s.now ∧ s.commit.exceptionEnable = false := by
  obtain ⟨owner,dropped⟩ := owner_next.mp kept
  change s.now + 1 ≤ o.since + o.op.exeStages at flying
  refine ⟨owner,?_,?_,?_⟩
  · change s.now ≤ o.since + o.op.exeStages
    omega
  · omega
  · rw [Bool.eq_false_iff]
    intro trap
    have past := dropped (by rw [flushExe,trap,Bool.true_or])
    omega

theorem landed_next (holds : Holds s) (back : Written s) (allowed : Allowed s i) (kept : (next execute s i).owner k = some o)
    (grounded : ¬ Flying (next execute s i) o) : ((next execute s i).commit.gl.cells k).validBit = true ∧
      ((next execute s i).commit.gl.cells k).entry.status.vsOvf = o.saturates := by
  obtain ⟨owner,_⟩ := owner_next.mp kept
  change ¬ s.now + 1 ≤ o.since + o.op.exeStages at grounded
  by_cases due : o.since + o.op.exeStages = s.now
  · exact due_cell back allowed owner due
  · rcases claimed_cases owner with ⟨op,fresh,_,_,rfl⟩ | ⟨old,quiet⟩
    · have positive := stages_positive fresh
      change ¬ s.now + 1 ≤ s.now + op.exeStages at grounded
      omega
    · rw [waiting_cell holds back allowed owner due quiet]
      refine holds.landed k o old ?_
      intro flying
      change s.now ≤ o.since + o.op.exeStages at flying
      omega

theorem idle_next (holds : Holds s) (back : Written s) (allowed : Allowed s i) (free : (next execute s i).owner k = none) :
    ((next execute s i).commit.gl.cells k).entry.status.vsOvf = false := by
  cases owner : claimed s i k with
  | none => exact free_cell holds back allowed owner
  | some o =>
      -- a flush drops the owner before its writeback
      have waits : s.now < o.since + o.op.exeStages := by
        by_contra past
        have kept : (next execute s i).owner k = some o := owner_next.mpr ⟨owner,fun _ => Nat.le_of_not_lt past⟩
        rw [free] at kept
        cases kept
      obtain ⟨_,_,clean,quiet⟩ := claimed_flying holds allowed owner (Nat.le_of_lt waits)
      rw [waiting_cell holds back allowed owner (Nat.ne_of_gt waits) quiet]
      exact clean

theorem kind_next (holds : Holds s) (allowed : Allowed s i) (kept : (next execute s i).owner k = some o) :
    ((next execute s i).commit.gl.cells k).entry.instr.instrType = o.op.instr.instrType := by
  obtain ⟨owner,_⟩ := owner_next.mp kept
  have quiet : ¬ pushes s i k ∧ (s.commit.gl.cells k).entry.instr.instrType = o.op.instr.instrType := by
    rcases claimed_cases owner with ⟨op,fresh,write,rfl,rfl⟩ | ⟨old,quiet⟩
    · obtain ⟨here,_,same,_⟩ := allowed.own op fresh write
      exact ⟨live_unpushed holds here,same⟩
    · exact ⟨quiet,holds.kind k o old⟩
  rw [cells_next,nextCells,DualRetirement.writeBacks_instr,pushed]
  split
  · rename_i push
    rw [Function.update_of_ne fun same => quiet.1 ⟨push,same.symm⟩]
    exact quiet.2
  · exact quiet.2

theorem holds_next (holds : Holds s) (back : Written s) (allowed : Allowed s i) (meets : Meets s i) : Holds (next execute s i) where
  valid := valid_next holds allowed meets
  flying := by
    intro k o kept flying
    obtain ⟨owner,before,waits,calm⟩ := flying_next kept flying
    obtain ⟨here,unfinished,clean,quiet⟩ := claimed_flying holds allowed owner before
    rw [waiting_cell holds back allowed owner waits quiet]
    refine ⟨?_,unfinished,clean⟩
    have presents := presented_next s i allowed
    exact GraduationRefinement.live_next holds.valid presents meets.bounded calm here
      (GraduationRefinement.unfinished_stays presents unfinished) fun flush => (allowed.branch flush).2 k o owner before
  landed := fun _ _ kept grounded => landed_next holds back allowed kept grounded
  idle := fun _ free => idle_next holds back allowed free
  kind := fun _ _ kept => kind_next holds allowed kept

end

theorem holds_reset : Holds (reset : State ports) where
  valid := ⟨rfl,Nat.zero_le _⟩
  flying := by
    intro k o owner
    cases owner
  landed := by
    intro k o owner
    cases owner
  idle := fun _ _ => rfl
  kind := by
    intro k o owner
    cases owner

section
variable {execute : Request → Csr → Csr → Csr} {inputs : Nat → Input ports writebacks} {t : Nat} {k : GlIndex} {o : Owned}

def simdInputs (execute : Request → Csr → Csr → Csr) (inputs : Nat → Input ports writebacks) (t : Nat) : VsmulSchedule.Input :=
  simdInput (trace (machine execute) inputs t) (inputs t)

def mulInputs (execute : Request → Csr → Csr → Csr) (inputs : Nat → Input ports writebacks) (t : Nat) : SimdSchedule.Input VecOperands :=
  (simdInputs execute inputs t).mul

theorem simd_trace (execute : Request → Csr → Csr → Csr) (inputs : Nat → Input ports writebacks) (t : Nat) :
    (trace (machine execute) inputs t).simd = trace VsmulSchedule.machine (simdInputs execute inputs) t :=
  trace_part State.simd VsmulSchedule.machine (simdInputs execute inputs) rfl (fun _ => rfl) t

theorem schedule_trace (execute : Request → Csr → Csr → Csr) (inputs : Nat → Input ports writebacks) (t : Nat) :
    (trace (machine execute) inputs t).simd.mul.schedule = trace SimdSchedule.machine (mulInputs execute inputs) t := by
  rw [simd_trace,VsmulSchedule.mul_trace,VmulSchedule.schedule_trace]
  rfl

theorem now_trace (execute : Request → Csr → Csr → Csr) (inputs : Nat → Input ports writebacks) (t : Nat) :
    (trace (machine execute) inputs t).now = t := by
  induction t with
  | zero => rfl
  | succ t ih => exact congrArg (· + 1) ih

structure Origin (execute : Request → Csr → Csr → Csr) (inputs : Nat → Input ports writebacks) (t : Nat) (k : GlIndex) (o : Owned) : Prop where
  before : o.since < t
  issued : issue (trace (machine execute) inputs o.since) (inputs o.since) = some o.op
  write : o.op.instr.vregfileWe = true
  place : o.op.glIndex = k
  saturates : o.saturates = activeSaturates (inputs o.since).vxrm o.op
  straight : ∀ v, o.since ≤ v → v < t → v < o.since + o.op.exeStages →
    flushExe (trace (machine execute) inputs v) (inputs v) = false

theorem owner_origin (owner : (trace (machine execute) inputs t).owner k = some o) : Origin execute inputs t k o := by
  induction t generalizing o with
  | zero => cases owner
  | succ t ih =>
      obtain ⟨held,dropped⟩ := owner_next.mp owner
      rw [now_trace] at dropped
      have calm : t < o.since + o.op.exeStages → flushExe (trace (machine execute) inputs t) (inputs t) = false := by
        intro waits
        rw [Bool.eq_false_iff]
        intro flush
        have past := dropped flush
        omega
      rcases claimed_cases held with ⟨op,fresh,write,place,rfl⟩ | ⟨old,_⟩
      · rw [now_trace] at calm ⊢
        refine ⟨Nat.lt_succ_self t,fresh,write,place,rfl,?_⟩
        intro v after before waits
        obtain rfl : v = t := Nat.le_antisymm (Nat.le_of_lt_succ before) after
        exact calm waits
      · obtain ⟨before,fresh,write,place,same,straight⟩ := ih old
        refine ⟨Nat.lt_succ_of_lt before,fresh,write,place,same,?_⟩
        intro v after until' waits
        obtain earlier | rfl := Nat.lt_succ_iff_lt_or_eq.mp until'
        · exact straight v after earlier waits
        · exact calm waits

-- An instruction that no flush meets owns its entry until it is written back.
theorem issued_owner {v : Nat} {op : Instr} (admits : Admits (machine execute) inputs)
    (holds : ∀ u ≤ t, Holds (trace (machine execute) inputs u))
    (fresh : issue (trace (machine execute) inputs v) (inputs v) = some op) (write : op.instr.vregfileWe = true)
    (before : v < t) (flies : t ≤ v + op.exeStages)
    (straight : ∀ u, v ≤ u → u < t → flushExe (trace (machine execute) inputs u) (inputs u) = false) :
    (trace (machine execute) inputs t).owner op.glIndex = some ⟨op,v,activeSaturates (inputs v).vxrm op⟩ := by
  induction t with
  | zero => cases before
  | succ t ih =>
      have quiet := straight t (Nat.le_of_lt_succ before) (Nat.lt_succ_self t)
      refine owner_next.mpr ⟨?_,fun flush => absurd flush (by rw [quiet]; exact Bool.false_ne_true)⟩
      obtain earlier | rfl := Nat.lt_succ_iff_lt_or_eq.mp before
      · have owner := ih (fun u inside => holds u (Nat.le_succ_of_le inside)) earlier (Nat.le_of_succ_le flies)
          fun u after inside => straight u after (Nat.lt_succ_of_lt inside)
        refine flying_claimed (holds t (Nat.le_succ t)) (admits t) owner ?_
        change (trace (machine execute) inputs t).now ≤ v + op.exeStages
        rw [now_trace]
        omega
      · have owner := claimed_issued fresh write
        rw [now_trace] at owner
        exact owner

end

section
variable {s : State ports} {i : Input ports writebacks} {op : Instr}

theorem valid_parts : valid s i = true ↔ (out s i).instr.valid = true ∧ (out s i).instr.unit = .simd ∧ (out s i).instr.vregfileWe = true := by
  change ((out s i).instr.valid && (out s i).instr.unit == .simd && (out s i).instr.vregfileWe) = true ↔ _
  rw [Bool.and_eq_true,Bool.and_eq_true,beq_iff_eq,and_assoc]

theorem valid_shown (answers : valid s i = true) : shows s.simd.mul.schedule (simdInput s i).mul = [out s i] := by
  obtain ⟨there,unit,write⟩ := valid_parts.mp answers
  have same : SimdUnit.instrToOut s.simd.mul.schedule.unit (instruction s.simd.mul.schedule (simdInput s i).mul) = out s i := rfl
  rw [shows_out same,there,unit,writes,write]
  rfl

theorem taken (quiet : flushExe s i = false) (answers : valid s i = true) :
    nextWbSimd s i = some ⟨(out s i).glIndex,vsOvf s.simd (simdInput s i),(out s i).instr.vl.val,(out s i).instr.sew⟩ := by
  rw [nextWbSimd,quiet,if_neg Bool.false_ne_true,answers,if_pos rfl]

theorem shown_out (shown : shows s.simd.mul.schedule (simdInput s i).mul = [op]) : out s i = op := by
  unfold shows at shown
  split at shown
  · exact List.singleton_inj.mp shown
  · cases shown

end

section
variable {execute : Request → Csr → Csr → Csr} {inputs : Nat → Input ports writebacks} {t : Nat}

theorem admits_schedule (admits : Admits (machine execute) inputs) : Admits SimdSchedule.machine (mulInputs execute inputs) :=
  fun u => (admits u).divisions

theorem calm_schedule (meets : ∀ u, Meets (trace (machine execute) inputs u) (inputs u)) (u : Nat) :
    Calm (trace SimdSchedule.machine (mulInputs execute inputs) u) (mulInputs execute inputs u) := by
  rw [← schedule_trace]
  exact (meets u).calm

-- What comes out of the unit was issued so many cycles ago, and its flag is the one that it owes.
theorem out_issued (admits : Admits (machine execute) inputs) (meets : ∀ u, Meets (trace (machine execute) inputs u) (inputs u))
    (answers : valid (trace (machine execute) inputs t) (inputs t) = true) :
    ∃ v op, issue (trace (machine execute) inputs v) (inputs v) = some op ∧ v + op.exeStages = t + 1 ∧
      (∀ u, v ≤ u → u < t → flushExe (trace (machine execute) inputs u) (inputs u) = false) ∧
      out (trace (machine execute) inputs t) (inputs t) = op ∧ op.instr.vregfileWe = true ∧
      vsOvf (trace (machine execute) inputs t).simd (simdInputs execute inputs t) = activeSaturates (inputs v).vxrm op := by
  have shown := valid_shown answers
  have member : out (trace (machine execute) inputs t) (inputs t) ∈
      shows (trace SimdSchedule.machine (mulInputs execute inputs) t) (mulInputs execute inputs t) := by
    rw [← schedule_trace]
    exact shown ▸ List.mem_singleton.mpr rfl
  obtain ⟨v,⟨op,fresh,due,straight,same⟩,_⟩ :=
    (simd_results_exactly_once _ (admits_schedule admits) (calm_schedule meets)).2.2 t _ member
  have write := (valid_parts.mp answers).2.2
  rw [same] at write
  rw [← schedule_trace] at fresh
  have positive : 1 ≤ op.exeStages := stages_positive fresh
  have flag := @out_flag (simdInputs execute inputs) v op
  rw [← simd_trace,← simd_trace,due] at flag
  exact ⟨v,op,fresh,by omega,fun u after before => straight u before after,same,write,
    flag fresh ((meets v).sole op fresh write) ((meets v).clear op fresh write) same⟩

theorem due_shown {v : Nat} {op : Instr} (admits : Admits (machine execute) inputs)
    (meets : ∀ u, Meets (trace (machine execute) inputs u) (inputs u))
    (fresh : issue (trace (machine execute) inputs v) (inputs v) = some op) (write : op.instr.vregfileWe = true)
    (due : v + op.exeStages = t + 1)
    (straight : ∀ u, v ≤ u → u < t → flushExe (trace (machine execute) inputs u) (inputs u) = false) :
    valid (trace (machine execute) inputs t) (inputs t) = true ∧ out (trace (machine execute) inputs t) (inputs t) = op := by
  have positive := stages_positive fresh
  have last : v + (op.exeStages - 1) = t := by omega
  have issue' := fresh
  unfold issue at issue'
  rw [schedule_trace] at issue'
  have shown := ((simd_results_exactly_once _ (admits_schedule admits) (calm_schedule meets)).2.1 v op issue'
    fun u before after => straight u after (by omega)).2 (by rw [writes,write,Bool.true_or])
  rw [last,← schedule_trace] at shown
  have same := shown_out shown
  obtain ⟨there,unit⟩ := issued_sound fresh
  exact ⟨valid_parts.mpr (by rw [same]; exact ⟨there,unit,write⟩),same⟩

theorem written_next (admits : Admits (machine execute) inputs) (meets : ∀ u, Meets (trace (machine execute) inputs u) (inputs u))
    (holds : ∀ u ≤ t + 1, Holds (trace (machine execute) inputs u)) : Written (trace (machine execute) inputs (t + 1)) where
  known := by
    intro w stands
    change nextWbSimd (trace (machine execute) inputs t) (inputs t) = some w at stands
    unfold nextWbSimd at stands
    cases flush : flushExe (trace (machine execute) inputs t) (inputs t) with
    | true =>
        rw [flush] at stands
        cases stands
    | false =>
        rw [flush,if_neg Bool.false_ne_true] at stands
        cases answers : valid (trace (machine execute) inputs t) (inputs t) with
        | false =>
            rw [answers] at stands
            cases stands
        | true =>
            rw [answers,if_pos rfl] at stands
            obtain rfl := Option.some.inj stands
            obtain ⟨v,op,fresh,due,straight,same,write,flag⟩ := out_issued admits meets answers
            have positive := stages_positive fresh
            have owner := issued_owner (t := t + 1) admits holds fresh write (by omega) (Nat.le_of_eq due.symm) (by
              intro u after before
              obtain earlier | rfl := Nat.lt_succ_iff_lt_or_eq.mp before
              · exact straight u after earlier
              · exact flush)
            rw [← same] at owner
            refine ⟨_,owner,?_,?_⟩
            · rw [now_trace,same]
              exact due
            · rw [same]
              exact flag
  comes := by
    intro k o owner due
    obtain ⟨before,fresh,write,place,_,straight⟩ := owner_origin owner
    rw [now_trace] at due
    have calm : ∀ u, o.since ≤ u → u < t + 1 → flushExe (trace (machine execute) inputs u) (inputs u) = false :=
      fun u after until' => straight u after until' (by omega)
    obtain ⟨answers,same⟩ := due_shown admits meets fresh write due fun u after inside => calm u after (by omega)
    have stands := taken (calm t (Nat.le_of_lt_succ before) (Nat.lt_succ_self t)) answers
    exact ⟨_,stands,same ▸ place⟩

theorem written_reset : Written (reset : State ports) where
  known := by
    intro w stands
    cases stands
  comes := by
    intro k o owner
    cases owner

theorem holds_run (admits : Admits (machine execute) inputs) (meets : ∀ u, Meets (trace (machine execute) inputs u) (inputs u))
    (t : Nat) : ∀ u ≤ t, Holds (trace (machine execute) inputs u) := by
  induction t with
  | zero =>
      intro u start
      obtain rfl := Nat.le_zero.mp start
      exact holds_reset
  | succ t ih =>
      intro u inside
      obtain before | rfl := Nat.le_succ_iff.mp inside
      · exact ih u before
      · refine holds_next (ih t (Nat.le_refl t)) ?_ (admits t) (meets t)
        cases t with
        | zero => exact written_reset
        | succ t => exact written_next admits meets ih

end

section
variable {execute : Request → Csr → Csr → Csr} {s : State ports} {i : Input ports writebacks} {k : GlIndex} {o : Owned}

theorem shown_cell {port : Fin 2} {e : Entry Carried} (shows : shown s i port = some e) :
    (s.commit.gl.cells (shift s.commit.gl.head port.val)).validBit = true ∧
      e = (s.commit.gl.cells (shift s.commit.gl.head port.val)).entry := by
  obtain rfl | rfl : port = 0 ∨ port = 1 := by omega
  · obtain ⟨_,_,finished,same⟩ := GraduationRefinement.first_parts shows
    rw [Fin.val_zero,shift_zero]
    exact ⟨finished,same⟩
  · obtain ⟨_,_,finished,same,_⟩ := GraduationRefinement.second_parts shows
    exact ⟨finished,same⟩

theorem finished_landed (holds : Holds s) (finished : (s.commit.gl.cells k).validBit = true) (owner : s.owner k = some o) :
    ¬ Flying s o := by
  intro flying
  rw [(holds.flying k o owner flying).2.1] at finished
  cases finished

theorem finished_flag (holds : Holds s) (finished : (s.commit.gl.cells k).validBit = true) :
    (s.commit.gl.cells k).entry.status.vsOvf = saturates s k := by
  cases owner : s.owner k with
  | none => rw [holds.idle k owner,saturates,owner,Option.any_none]
  | some o =>
      rw [(holds.landed k o owner (finished_landed holds finished owner)).2,saturates,owner]
      rfl

theorem retired_flag (holds : Holds s) (port : Fin 2) :
    (retire (commitInput s i) (shown s i) port && (shown s i port).any (·.status.vsOvf)) = retiresSaturated s i port := by
  unfold retiresSaturated
  cases retires : retire (commitInput s i) (shown s i) port with
  | false => rfl
  | true =>
      obtain ⟨e,shows⟩ := Option.isSome_iff_exists.mp (CsrInterface.retires_presented _ _ port retires).1
      obtain ⟨finished,same⟩ := shown_cell shows
      rw [shows,Bool.true_and,Bool.true_and,Option.any_some,same]
      exact finished_flag holds finished

-- Nothing that saturates needs the CSR file.
theorem saturating_quiet {vxrm : Vxrm} {op : Instr} (set : activeSaturates vxrm op = true) (csr : CsrInterface.Input)
    {e : Entry Carried} (same : e.instr.instrType = op.instr.instrType) : CsrInterface.csrEna csr e = false := by
  have kind : Vsaaddsub.isSaturating op.instr.instrType = true ∨ Vnclip.clips op.instr.instrType = true ∨
      op.instr.instrType = .vsmul := by
    by_contra none'
    obtain ⟨adder,clip,product⟩ := not_or.mp none' |>.imp_right not_or.mp
    rw [silent_active (Bool.not_eq_true _ ▸ adder) (Bool.not_eq_true _ ▸ clip) product] at set
    cases set
  simp only [Vsaaddsub.isSaturating,Vnclip.clips,Bool.or_eq_true,beq_iff_eq,← same] at kind
  rw [CsrInterface.csrEna]
  rcases kind with (((kind | kind) | kind) | kind) | (kind | kind) | kind <;>
    rw [kind] <;> exact Bool.and_false _

theorem saturating_owner (set : saturates s k = true) : ∃ o, s.owner k = some o ∧ o.saturates = true := by
  unfold saturates at set
  cases owner : s.owner k with
  | none =>
      rw [owner] at set
      cases set
  | some o =>
      rw [owner] at set
      exact ⟨o,rfl,set⟩

end

theorem vxsat_accrued (execute : Request → Csr → Csr → Csr) (inputs : Nat → Input ports writebacks)
    (admits : Admits (machine execute) inputs) (meets : ∀ u, Meets (trace (machine execute) inputs u) (inputs u)) (t : Nat) :
    Accrues execute (trace (machine execute) inputs t) (inputs t) := by
  have holds := holds_run admits meets t t (Nat.le_refl t)
  have owned : ∀ port e o, shown (trace (machine execute) inputs t) (inputs t) port = some e →
      (trace (machine execute) inputs t).owner (shift (trace (machine execute) inputs t).commit.gl.head port.val) = some o →
      e.instr.instrType = o.op.instr.instrType ∧ ¬ Flying (trace (machine execute) inputs t) o := by
    intro port e o shows owner
    obtain ⟨finished,same⟩ := shown_cell shows
    rw [same]
    exact ⟨holds.kind _ o owner,finished_landed holds finished owner⟩
  have accrued : (accrue (commitInput (trace (machine execute) inputs t) (inputs t)) (shown (trace (machine execute) inputs t) (inputs t))
      (trace (machine execute) inputs t).commit.csr).vxsat = ((trace (machine execute) inputs t).commit.csr.vxsat ||
        (retiresSaturated (trace (machine execute) inputs t) (inputs t) 0 ||
          retiresSaturated (trace (machine execute) inputs t) (inputs t) 1)) := by
    rw [← retired_flag holds 0,← retired_flag holds 1]
    rfl
  refine ⟨owned,accrued,?_⟩
  intro port saturated
  have set : (accrue (commitInput (trace (machine execute) inputs t) (inputs t)) (shown (trace (machine execute) inputs t) (inputs t))
      (trace (machine execute) inputs t).commit.csr).vxsat = true := by
    rw [accrued]
    obtain rfl | rfl : port = 0 ∨ port = 1 := by omega
    · rw [saturated,Bool.true_or,Bool.or_true]
    · rw [saturated,Bool.or_true,Bool.or_true]
  -- no command runs beside what saturates
  have quiet : (shown (trace (machine execute) inputs t) (inputs t) 0).bind
      (request (commitInput (trace (machine execute) inputs t) (inputs t))) = none := by
    unfold retiresSaturated at saturated
    rw [Bool.and_eq_true] at saturated
    obtain ⟨retires,overflow⟩ := saturated
    obtain rfl | rfl : port = 0 ∨ port = 1 := by omega
    · obtain ⟨e,shows⟩ := Option.isSome_iff_exists.mp (CsrInterface.retires_presented _ _ 0 retires).1
      obtain ⟨o,owner,flag⟩ := saturating_owner overflow
      have origin := owner_origin owner
      rw [shows,Option.bind_some,request,
        saturating_quiet (origin.saturates ▸ flag) _ (owned 0 e o shows owner).1]
      rfl
    · obtain ⟨first,_,shows,_,joined⟩ := DualRetirement.retire_both retires
      rw [shows,Option.bind_some,request,joined.silent]
      rfl
  change (csrNext (commitInput (trace (machine execute) inputs t) (inputs t)) execute
    (shown (trace (machine execute) inputs t) (inputs t)) (trace (machine execute) inputs t).commit.csr).vxsat = true
  rw [csrNext,quiet]
  exact set

-- One addition of bytes: it is pushed, issued, written back and retired.
def addition (vl : Fin 32) (x : BitVec 128) : RrExeInstr VecOperands :=
  let bytes := VmulSchedule.operation Vsaaddsub.vsadd 0 x x
  { bytes with
    instr := { bytes.instr with vl := vl }
    glIndex := 0 }

def single (vl : Fin 32) (x : BitVec 128) (u : Nat) : Input DualRetirement.one DualRetirement.one where
  from_rr := if u = 1 then addition vl x else { addition vl x with instr := InstrEntry.zero }
  kill := false
  grants := free
  vxrm := .rnu
  csrEnable := false
  lmul := 0
  before := []
  behind := []
  commit := DualRetirement.pairRun (DualRetirement.entry Vsaaddsub.vsadd .notMem false false) zero.entry [] u

def sum (vl : Fin 32) (x : BitVec 128) : Instr := { simdOperands (addition vl x) with exeStages := 1 }

section
variable {vl : Fin 32} {x : BitVec 128}

theorem single_issue (fresh : issue (trace (machine DualRetirement.keep) (single vl x) 1) (single vl x 1) = some (sum vl x)) {u : Nat}
    {op : Instr} (found : issue (trace (machine DualRetirement.keep) (single vl x) u) (single vl x u) = some op) :
    u = 1 ∧ op = sum vl x := by
  by_cases one : u = 1
  · subst one
    exact ⟨rfl,Option.some.inj (found.symm.trans fresh)⟩
  · rcases issued_cases (trace (machine DualRetirement.keep) (single vl x) u).simd.mul.schedule
      (simdInput (trace (machine DualRetirement.keep) (single vl x) u) (single vl x u)).mul with ⟨idle,_⟩ | ⟨_,_,unit,_⟩
    · exact absurd (idle.symm.trans found) (Option.some_ne_none op).symm
    · change (single vl x u).from_rr.instr.unit = .simd at unit
      rw [single,if_neg one] at unit
      cases unit

theorem single_plain (u : Nat) : isVdiv (single vl x u).from_rr.instr.instrType = false := by
  unfold single
  dsimp only
  split <;> rfl

theorem single_starts (u : Nat) (unit : SimdUnit.State VecOperands) (s : SimdSchedule.State VecOperands) :
    SimdUnit.startsDivision unit (instruction s (simdInput (trace (machine DualRetirement.keep) (single vl x) u) (single vl x u)).mul) = false := by
  change (isVdiv (single vl x u).from_rr.instr.instrType && _ && _) = false
  rw [single_plain,Bool.false_and,Bool.false_and]

theorem single_divisions (u : Nat) : ∀ cell,
    (trace (machine DualRetirement.keep) (single vl x) u).simd.mul.schedule.unit.divisionPipe cell = false := by
  induction u with
  | zero => exact fun _ => rfl
  | succ u ih =>
      intro cell
      cases cell with
      | zero => exact single_starts u _ _
      | succ cell =>
          change (decide (cell + 1 < 31) && _) = false
          rw [ih cell,Bool.and_false]

theorem single_calm (fresh : issue (trace (machine DualRetirement.keep) (single vl x) 1) (single vl x 1) = some (sum vl x)) (u : Nat) :
    Calm (trace (machine DualRetirement.keep) (single vl x) u).simd.mul.schedule
      (simdInput (trace (machine DualRetirement.keep) (single vl x) u) (single vl x u)).mul where
  flush := fun _ => ⟨fun cell _ => single_divisions u cell,single_starts u _ _⟩
  kill := by
    intro killed
    cases killed
  elements := by
    intro op found several
    obtain rfl := (single_issue fresh found).2
    exact absurd rfl several

theorem admits_single (fresh : issue (trace (machine DualRetirement.keep) (single vl x) 1) (single vl x 1) = some (sum vl x))
    (own : live (trace (machine DualRetirement.keep) (single vl x) 1) 0 ∧
      ((trace (machine DualRetirement.keep) (single vl x) 1).commit.gl.cells 0).validBit = false ∧
      ((trace (machine DualRetirement.keep) (single vl x) 1).commit.gl.cells 0).entry.instr.instrType = Vsaaddsub.vsadd ∧
      ((trace (machine DualRetirement.keep) (single vl x) 1).owner 0).isNone) : Admits (machine DualRetirement.keep) (single vl x) := by
  intro u
  refine ⟨?_,?_,?_,?_⟩
  · intro _ vdiv
    change isVdiv (single vl x u).from_rr.instr.instrType = true at vdiv
    rw [single_plain] at vdiv
    cases vdiv
  · intro op found _
    obtain ⟨rfl,rfl⟩ := single_issue fresh found
    refine ⟨own.1,own.2.1,own.2.2.1,?_⟩
    intro o owner
    change (trace (machine DualRetirement.keep) (single vl x) 1).owner 0 = some o at owner
    rw [owner] at own
    exact absurd own.2.2.2 Bool.false_ne_true
  · intro w inside
    cases inside
  · intro flush
    cases flush

theorem meets_single (fresh : issue (trace (machine DualRetirement.keep) (single vl x) 1) (single vl x 1) = some (sum vl x))
    (sole : Sole .rnu (sum vl x)) (u : Nat) : Meets (trace (machine DualRetirement.keep) (single vl x) u) (single vl x u) where
  calm := single_calm fresh u
  bounded := by
    intro flush
    cases flush
  sole := by
    intro op found _
    obtain ⟨rfl,rfl⟩ := single_issue fresh found
    exact sole
  clear := by
    intro op found _ product
    obtain ⟨rfl,rfl⟩ := single_issue fresh found
    cases product

end

-- Sixteen bytes, the first of which saturates
theorem vxsat_accrued_single :
    (next DualRetirement.keep (trace (machine DualRetirement.keep) (single 16 0x7f) 3) (single 16 0x7f 3)).commit.csr.vxsat = true :=
  (vxsat_accrued DualRetirement.keep (single 16 0x7f) (admits_single (by decide) (by unfold live; decide))
    (meets_single (by decide) (by decide)) 3).kept 0 (by decide)

-- The second byte saturates, which is behind the last element.
theorem tail_accrues : ¬ ∀ inputs : Nat → Input DualRetirement.one DualRetirement.one, Admits (machine DualRetirement.keep) inputs →
    ∀ t, Accrues DualRetirement.keep (trace (machine DualRetirement.keep) inputs t) (inputs t) := by
  intro every
  have accrued := (every (single 1 0x7f00) (admits_single (by decide) (by unfold live; decide)) 3).accrued
  revert accrued
  decide

end Sargantana.VxsatAccrual
