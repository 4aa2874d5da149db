import Sargantana.FrontEnd

-- A CSR instruction or a fence is the youngest instruction in the pipeline until it commits.
namespace Sargantana.FenceAlone

open FrontEnd StateMachine

-- A fence that commits has nothing renamed behind it, and the flush after it discards nothing that
-- the rename stage would have to give back.
structure Alone (s : State) (i : Input) : Prop where
  commits : commitFence s i = true → i.trap = false → s.graduation.length = 1 ∧ s.renamed = []
  flushed : s.csrEnable = true → s.graduation = [] ∧ s.renamed = []

-- The vset queue is full while decode is empty behind a fence: the fetched instructions are not
-- flushed then.
def slips (s : State) (i : Input) : Bool :=
  s.fenceInPipeline && s.id.isNone && i.fullVset && !fullIq s && !flushIr s i && !i.csrStall

def front (s : State) : List Instr := (selection s).toList

def order (s : State) : List Instr := s.graduation ++ s.renamed ++ s.iq ++ front s

structure Invariant (s : State) : Prop where
  last : ∀ x ∈ (order s).dropLast, x.fence = false
  flagged : (∃ x ∈ order s, x.fence = true) → s.exceptionEnable = true ∨ s.fenceInPipeline = true ∨ (s.srcSelect = true ∧ idFence s = true)
  closed : s.fenceInPipeline = true → ∀ d, s.id = some d → d.fence = true ∧ s.srcSelect = false
  drained : s.csrEnable = true → order s = []
  stalled : s.csrStalled = true → s.id = none ∧ s.stored = none ∧ s.srcSelect = false
  room : s.iq.length ≤ 16

theorem invariant_reset : Invariant reset :=
  ⟨by simp [order,front,selection,reset],by simp [order,front,selection,reset],by simp [reset],by simp [reset],by simp [reset],by simp [reset]⟩

theorem take_drop_one (list : List Instr) (more : List Instr) (k : Nat) : list.take k ++ (list.drop k ++ more) = list ++ more := by
  rw [← List.append_assoc,List.take_append_drop]

section Step

variable {s : State} {i : Input}

theorem stall_empty (inv : Invariant s) (allowed : Allowed s i) (calm : flushIr s i = false) (stall : i.csrStall = true) :
    selection s = none ∧ s.id = none := by
  simp only [flushIr,Bool.or_eq_false_iff] at calm
  rcases allowed.stall stall with csr | exception | before
  · simp [calm.1.2] at csr
  · simp [calm.1.1] at exception
  · obtain ⟨id,stored,select⟩ := inv.stalled before
    simp [selection,id,stored,select]

def entered (s : State) (i : Input) : List Instr :=
  if flushIf s i || stallId s i then [] else (next s i).id.toList

theorem front_next (inv : Invariant s) (allowed : Allowed s i) (calm : flushIr s i = false) :
    written s ++ front (next s i) = front s ++ entered s i := by
  have room := inv.room
  by_cases full : s.iq.length = 16
  · have stall : stallId s i = true := by simp [stallId,fullIq,full]
    have keep : flushId s i = false := by simp [flushId,calm,vsetWait,fullIq,full]
    simp [written,full,front,selection,next,stall,keep,entered]
  · have free : fullIq s = false := by simp [fullIq,full]
    have fits : s.iq.length < 16 := by omega
    cases stall : stallId s i with
    | false =>
        cases flush : flushIf s i with
        | true => simp [written,fits,front,selection,next,stall,flush,entered]
        | false => simp [written,fits,front,selection,next,stall,flush,entered]
    | true =>
        have gone : (next s i).stored = none := by
          cases wait : vsetWait s i with
          | true => simp [next,flushId,wait]
          | false =>
              have causes : i.csrStall = true := by
                simp only [vsetWait,free,Bool.not_false,Bool.and_true,Bool.or_eq_false_iff] at wait
                simpa [stallId,free,wait.1,wait.2] using stall
              simp [next,flushId,calm,wait,(stall_empty inv allowed calm causes).1]
        have select : (next s i).srcSelect = false := by simp [next,stall]
        simp [written,fits,front,selection,select,gone,entered,stall]

theorem order_next (inv : Invariant s) (allowed : Allowed s i) (calm : flushIr s i = false) :
    order (next s i) = (order s).drop i.retire ++ entered s i := by
  have quiet := calm
  simp only [flushIr,Bool.or_eq_false_iff] at quiet
  have none : i.misspredict = none := by simpa using quiet.2
  have graduation : (next s i).graduation = s.graduation.drop i.retire ++ pushed s i := by
    simp [next,nextGraduation,quiet.1.1,none,List.drop_append_of_le_length allowed.retired.1]
  have renamed : pushed s i ++ (next s i).renamed = s.renamed ++ popped s i := by
    simp only [next,nextRenamed,calm,Bool.false_eq_true,if_false,pushed]
    exact take_drop_one _ _ _
  have iq : popped s i ++ (next s i).iq = s.iq ++ written s := by
    simp only [next,nextIq,calm,Bool.false_eq_true,if_false,popped]
    exact take_drop_one _ _ _
  have front := front_next inv allowed calm
  calc order (next s i)
      = s.graduation.drop i.retire ++ (pushed s i ++ (next s i).renamed) ++ (next s i).iq ++ FenceAlone.front (next s i) := by
        simp only [order,graduation,List.append_assoc]
    _ = s.graduation.drop i.retire ++ s.renamed ++ (popped s i ++ (next s i).iq) ++ FenceAlone.front (next s i) := by
        rw [renamed]
        simp only [List.append_assoc]
    _ = s.graduation.drop i.retire ++ s.renamed ++ s.iq ++ (written s ++ FenceAlone.front (next s i)) := by
        rw [iq]
        simp only [List.append_assoc]
    _ = (order s).drop i.retire ++ entered s i := by
        rw [front]
        simp only [order,List.append_assoc,List.drop_append_of_le_length allowed.retired.1]

-- An instruction enters decode only while no fence is in the pipeline.
theorem entered_free (inv : Invariant s) (meets : slips s i = false) (calm : flushIr s i = false) (enters : entered s i ≠ []) :
    s.fenceInPipeline = false ∧ idFence s = false ∧ ∀ x ∈ order s, x.fence = false := by
  have both : flushIf s i = false ∧ stallId s i = false := by
    by_contra other
    apply enters
    unfold entered
    rw [if_pos]
    cases flush : flushIf s i <;> cases stall : stallId s i <;> simp_all
  obtain ⟨flush,stall⟩ := both
  have go : i.csrStall = false ∧ fullIq s = false ∧ idVset s i = false ∧ (s.id.isSome && i.fullVset) = false := by
    simpa [stallId,and_assoc] using stall
  have flags : s.fenceInPipeline = false ∧ idFence s = false := by
    cases wait : vsetWait s i with
    | true =>
        have queue : i.fullVset = true := by simpa [vsetWait,go.2.2.1,go.2.1] using wait
        have empty : s.id = none := by simpa [queue] using go.2.2.2
        refine ⟨?_,by simp [idFence,empty]⟩
        simpa [slips,empty,queue,go.1,go.2.1,calm] using meets
    | false =>
        simp only [flushIf,calm,wait,Bool.false_eq_true,if_false,go.1,Bool.not_false,Bool.and_true] at flush
        split at flush
        · cases flush
        next quiet =>
          simp only [Bool.or_eq_true,not_or,Bool.not_eq_true] at quiet
          exact ⟨quiet.1.1.2,quiet.1.1.1⟩
  refine ⟨flags.1,flags.2,?_⟩
  intro x inside
  by_contra fence
  have exception : s.exceptionEnable = false := by
    simp only [flushIr,Bool.or_eq_false_iff] at calm
    exact calm.1.1
  rcases inv.flagged ⟨x,inside,by simpa using fence⟩ with other | other | other
  · simp [exception] at other
  · simp [flags.1] at other
  · simp [flags.2] at other

-- A fence that is presented is the only instruction in the pipeline.
theorem commit_order (inv : Invariant s) (commit : commitFence s i = true) : ∃ x, order s = [x] ∧ s.graduation = [x] ∧ x.fence = true := by
  simp only [commitFence,Bool.and_eq_true] at commit
  obtain ⟨_,first⟩ := commit
  cases list : s.graduation with
  | nil => simp [list] at first
  | cons x rest =>
      have fence : x.fence = true := by simpa [list] using first
      have whole : order s = x :: (rest ++ s.renamed ++ s.iq ++ front s) := by simp [order,list]
      have alone : rest ++ s.renamed ++ s.iq ++ front s = [] := by
        by_contra more
        obtain ⟨y,ys,cons⟩ := List.exists_cons_of_ne_nil more
        have early := inv.last x (by rw [whole,cons]; simp)
        simp [fence] at early
      have none : rest = [] := by
        simp only [List.append_eq_nil_iff] at alone
        exact alone.1.1.1
      exact ⟨x,by rw [whole,alone],by rw [none],fence⟩

theorem mem_dropLast_drop {list : List Instr} (inside : x ∈ (list.drop n).dropLast) : x ∈ list.dropLast := by
  induction n generalizing list with
  | zero => exact inside
  | succ n ih =>
      cases list with
      | nil => simp at inside
      | cons first rest =>
          have later : x ∈ rest.dropLast := ih inside
          cases rest with
          | nil => simp at later
          | cons second more => exact List.mem_cons_of_mem _ later

theorem calm_parts (calm : flushIr s i = false) : s.exceptionEnable = false ∧ s.csrEnable = false ∧ i.misspredict = none := by
  simp only [flushIr,Bool.or_eq_false_iff] at calm
  exact ⟨calm.1.1,calm.1.2,by simpa using calm.2⟩

theorem flag_next (calm : flushIr s i = false) :
    (next s i).fenceInPipeline = if idFence s then true else if commitFence s i then false else s.fenceInPipeline := by
  obtain ⟨exception,csr,branch⟩ := calm_parts calm
  simp [next,flushCsrFence,exception,csr,branch]

theorem entered_id (enters : entered s i ≠ []) : ∃ d, entered s i = [d] ∧ (next s i).id = some d ∧ (next s i).srcSelect = true := by
  unfold entered at enters ⊢
  split at enters
  · exact absurd rfl enters
  next go =>
    have moves : stallId s i = false := by
      simp only [Bool.or_eq_true,not_or,Bool.not_eq_true] at go
      exact go.2
    rw [if_neg go]
    cases id : (next s i).id with
    | none => simp [id] at enters
    | some d => exact ⟨d,rfl,rfl,by simp [next,moves]⟩

theorem last_next (inv : Invariant s) (allowed : Allowed s i) (meets : slips s i = false) (calm : flushIr s i = false) :
    ∀ x ∈ (order (next s i)).dropLast, x.fence = false := by
  rw [order_next inv allowed calm]
  intro x inside
  by_cases enters : entered s i = []
  · rw [enters,List.append_nil] at inside
    exact inv.last x (mem_dropLast_drop inside)
  · obtain ⟨d,one,_⟩ := entered_id enters
    rw [one,List.dropLast_concat] at inside
    exact (entered_free inv meets calm enters).2.2 x (List.mem_of_mem_drop inside)

theorem flagged_next (inv : Invariant s) (allowed : Allowed s i) (calm : flushIr s i = false)
    (fence : ∃ x ∈ order (next s i), x.fence = true) :
    (next s i).exceptionEnable = true ∨ (next s i).fenceInPipeline = true ∨ ((next s i).srcSelect = true ∧ idFence (next s i) = true) := by
  obtain ⟨x,inside,isFence⟩ := fence
  obtain ⟨exception,_,_⟩ := calm_parts calm
  rw [order_next inv allowed calm] at inside
  rcases List.mem_append.mp inside with old | new
  · have before := List.mem_of_mem_drop old
    cases commit : commitFence s i with
    | true =>
        cases trap : i.trap with
        | true => exact .inl (by simp [next,ControlUnit.exceptionEnableNext,exception,trap])
        | false =>
            obtain ⟨y,whole,_⟩ := commit_order inv commit
            have gone := allowed.fence commit trap
            rw [whole,List.drop_of_length_le (by exact gone)] at old
            simp at old
    | false =>
        right
        left
        rw [flag_next calm,commit]
        rcases inv.flagged ⟨x,before,isFence⟩ with other | flag | fresh
        · simp [exception] at other
        · simp [flag]
        · simp [fresh.2]
  · right
    right
    obtain ⟨d,one,id,select⟩ := entered_id (List.ne_nil_of_mem new)
    rw [one,List.mem_singleton] at new
    exact ⟨select,by simp [idFence,id,← new,isFence]⟩

theorem closed_next (inv : Invariant s) (meets : slips s i = false) (calm : flushIr s i = false) (flag : (next s i).fenceInPipeline = true) :
    ∀ d, (next s i).id = some d → d.fence = true ∧ (next s i).srcSelect = false := by
  intro d id
  have kept : flushIf s i = false := by
    by_contra flush
    simp [next,flush] at id
  rw [flag_next calm] at flag
  cases stall : stallId s i with
  | true =>
      have held : s.id = some d := by simpa [next,kept,stall] using id
      refine ⟨?_,by simp [next,stall]⟩
      cases now : idFence s with
      | true => simpa [idFence,held] using now
      | false =>
          have before : s.fenceInPipeline = true := by
            simp only [now,Bool.false_eq_true,if_false] at flag
            split at flag
            · cases flag
            · exact flag
          exact (inv.closed before d held).1
  | false =>
      have enters : entered s i ≠ [] := by simp [entered,kept,stall,id]
      obtain ⟨noFlag,noFence,_⟩ := entered_free inv meets calm enters
      simp [noFlag,noFence] at flag

theorem csrEnable_parts (allowed : Allowed s i) (csr : (next s i).csrEnable = true) :
    s.csrEnable = false ∧ s.exceptionEnable = false ∧ commitFence s i = true ∧ i.trap = false := by
  simp only [next,ControlUnit.csrEnableNext] at csr
  split at csr
  · cases csr
  next before =>
    simp only [Bool.and_eq_true,Bool.not_eq_true'] at csr
    have valid : i.commitValid = true := by
      have both := csr.1
      simp only [commitFence,Bool.and_eq_true] at both
      exact both.1
    exact ⟨by simpa using before,allowed.presented valid,csr.1,csr.2⟩

theorem drained_next (inv : Invariant s) (allowed : Allowed s i) (meets : slips s i = false) (calm : flushIr s i = false)
    (csr : (next s i).csrEnable = true) : order (next s i) = [] := by
  obtain ⟨_,_,commit,noTrap⟩ := csrEnable_parts allowed csr
  obtain ⟨x,whole,_,fence⟩ := commit_order inv commit
  have gone := allowed.fence commit noTrap
  have nothing : entered s i = [] := by
    by_contra enters
    have free := (entered_free inv meets calm enters).2.2 x (by rw [whole]; simp)
    simp [fence] at free
  rw [order_next inv allowed calm,whole,nothing,List.drop_of_length_le (by exact gone)]
  rfl

theorem stalled_next (inv : Invariant s) (allowed : Allowed s i) (stall : i.csrStall = true) :
    (next s i).id = none ∧ (next s i).stored = none ∧ (next s i).srcSelect = false := by
  have holds : stallId s i = true := by simp [stallId,stall]
  cases calm : flushIr s i with
  | true => simp [next,flushIf,flushId,calm,holds]
  | false =>
      obtain ⟨selected,id⟩ := stall_empty inv allowed calm stall
      simp [next,holds,selected,id]

theorem room_next (inv : Invariant s) : (next s i).iq.length ≤ 16 := by
  have room := inv.room
  simp only [next,nextIq]
  split
  · simp
  · have some : (written s).length ≤ if s.iq.length < 16 then 1 else 0 := by
      unfold written
      split
      · cases selection s <;> simp
      · simp
    simp only [List.length_append,List.length_drop]
    split at some <;> omega

theorem order_flushed (flush : flushIr s i = true) : order (next s i) = nextGraduation s i := by
  simp [order,front,selection,next,nextIq,nextRenamed,flushIf,flushId,flush]

theorem graduation_flushed (inv : Invariant s) (allowed : Allowed s i) (flush : flushIr s i = true) :
    ∀ x ∈ nextGraduation s i, x.fence = false := by
  intro x inside
  unfold nextGraduation at inside
  cases exception : s.exceptionEnable with
  | true => simp [exception] at inside
  | false =>
      simp only [exception,Bool.false_eq_true,if_false] at inside
      cases branch : i.misspredict with
      | none =>
          have csr : s.csrEnable = true := by simpa [flushIr,exception,branch] using flush
          have empty := inv.drained csr
          simp only [order,List.append_eq_nil_iff] at empty
          simp [branch,empty.1.1.1,pushed,empty.1.1.2] at inside
      | some p =>
          obtain ⟨_,b,here,noFence⟩ := allowed.branch p branch exception
          simp only [branch] at inside
          have within := List.mem_of_mem_drop inside
          rw [List.take_add_one,here,List.mem_append] at within
          rcases within with older | same
          · refine inv.last x ?_
            obtain ⟨bound,_⟩ := List.getElem?_eq_some_iff.mp here
            have whole : s.graduation.take p = (order s).take p := by
              simp only [order,List.append_assoc]
              rw [List.take_append_of_le_length (by omega)]
            rw [whole] at older
            rw [List.dropLast_eq_take]
            refine List.take_subset_take_left _ ?_ older
            simp only [order,List.length_append]
            omega
          · have equal : x = b := by simpa using same
            rw [equal]
            exact noFence

theorem invariant_next (inv : Invariant s) (allowed : Allowed s i) (meets : slips s i = false) : Invariant (next s i) := by
  cases calm : flushIr s i with
  | false =>
      exact ⟨last_next inv allowed meets calm,flagged_next inv allowed calm,closed_next inv meets calm,
        drained_next inv allowed meets calm,stalled_next inv allowed,room_next inv⟩
  | true =>
      have flushed := order_flushed calm
      have free := graduation_flushed inv allowed calm
      refine ⟨?_,?_,?_,?_,stalled_next inv allowed,room_next inv⟩
      · rw [flushed]
        exact fun x inside => free x (List.mem_of_mem_dropLast inside)
      · rintro ⟨x,inside,fence⟩
        rw [flushed] at inside
        simp [free x inside] at fence
      · intro _ d id
        simp [next,flushIf,calm] at id
      · intro csr
        obtain ⟨noCsr,exception,commit,_⟩ := csrEnable_parts allowed csr
        obtain ⟨x,_,graduation,fence⟩ := commit_order inv commit
        have branch : i.misspredict.isSome = true := by simpa [flushIr,noCsr,exception] using calm
        obtain ⟨p,some⟩ := Option.isSome_iff_exists.mp branch
        obtain ⟨_,b,here,noFence⟩ := allowed.branch p some exception
        rw [graduation] at here
        cases p with
        | zero =>
            have same : x = b := by simpa using here
            rw [same] at fence
            simp [noFence] at fence
        | succ p => simp at here

theorem Invariant.alone (inv : Invariant s) : Alone s i := by
  refine ⟨?_,?_⟩
  · intro commit _
    obtain ⟨x,whole,graduation,_⟩ := commit_order inv commit
    have rest : s.renamed = [] := by
      have lengths := congrArg List.length whole
      simp only [order,graduation,List.length_append,List.length_singleton] at lengths
      exact List.length_eq_zero_iff.mp (by omega)
    exact ⟨by rw [graduation]; rfl,rest⟩
  · intro csr
    have empty := inv.drained csr
    simp only [order,List.append_eq_nil_iff] at empty
    exact empty.1.1

end Step

theorem fence_alone (inputs : Nat → Input) (admits : Admits machine inputs) (t : Nat)
    (meets : ∀ u < t, slips (trace machine inputs u) (inputs u) = false) : Alone (trace machine inputs t) (inputs t) := by
  have invariant : ∀ u, u ≤ t → Invariant (trace machine inputs u) := by
    intro u before
    induction u with
    | zero => exact invariant_reset
    | succ u ih => exact invariant_next (ih (by omega)) (admits u) (meets u (by omega))
  exact (invariant t (Nat.le_refl t)).alone

theorem allowed_one {s : State} {i : Input} (calm : i.misspredict = none ∧ i.csrStall = false ∧ i.trap = false)
    (retires : if i.commitValid then s.exceptionEnable = false ∧ i.retire = 1 ∧ 0 < s.graduation.length else i.retire = 0) :
    Allowed s i := by
  obtain ⟨branch,stall,trap⟩ := calm
  cases valid : i.commitValid with
  | true =>
      obtain ⟨exception,one,some⟩ : s.exceptionEnable = false ∧ i.retire = 1 ∧ 0 < s.graduation.length := by simpa [valid] using retires
      refine ⟨fun _ => exception,⟨by omega,fun _ => ⟨valid,trap⟩⟩,?_,fun _ _ => by omega,by simp [branch],by simp [stall]⟩
      cases list : s.graduation with
      | nil => simp [list] at some
      | cons first rest => simp [one]
  | false =>
      have zero : i.retire = 0 := by simpa [valid] using retires
      refine ⟨by simp [valid],⟨by omega,by omega⟩,by simp [zero],?_,by simp [branch],by simp [stall]⟩
      intro commit
      simp [commitFence,valid] at commit

def plain : Instr := ⟨false,false,false,false⟩

def serial : Instr := ⟨true,false,false,false⟩

def idle : Input := ⟨true,some plain,false,false,false,false,false,false,0,none,true,true⟩

-- A fence is fetched in the second cycle and commits in the sixth.
def visit (u : Nat) : Input :=
  { idle with
    response := some (if u = 1 then serial else plain)
    commitValid := decide (u = 5)
    retire := if u = 5 then 1 else 0 }

theorem admits_visit : Admits machine visit := by
  intro u
  refine allowed_one ⟨rfl,rfl,rfl⟩ ?_
  by_cases five : u = 5
  · subst five
    decide
  · simp [visit,five]

theorem fence_alone_visit :
    (commitFence (trace machine visit 5) (visit 5) = true ∧ (trace machine visit 6).csrEnable = true) ∧
      Alone (trace machine visit 5) (visit 5) ∧ Alone (trace machine visit 6) (visit 6) :=
  ⟨by decide,fence_alone visit admits_visit 5 (by decide),fence_alone visit admits_visit 6 (by decide)⟩

-- The fence reaches decode when the instruction queue and the vset queue are full. The instruction
-- queue drains first, and the instruction after the fence follows it.
def crowded (u : Nat) : Input :=
  { idle with
    response := some (if u = 17 then serial else plain)
    fullVset := decide (18 ≤ u ∧ u < 24)
    readHead := decide (19 ≤ u)
    commitValid := decide (24 ≤ u ∧ u < 41)
    retire := if 24 ≤ u ∧ u < 41 then 1 else 0 }

theorem admits_crowded : Admits machine crowded := by
  intro u
  refine allowed_one ⟨rfl,rfl,rfl⟩ ?_
  by_cases window : 24 ≤ u ∧ u < 41
  · have every : ∀ k < 41, 24 ≤ k → (trace machine crowded k).exceptionEnable = false ∧ 0 < (trace machine crowded k).graduation.length := by
      decide
    have here := every u window.2 window.1
    simp [crowded,window,here]
  · simp [crowded,window]

theorem younger_follows_fence :
    ¬ (∀ inputs, Admits machine inputs → ∀ t, Alone (trace machine inputs t) (inputs t)) := by
  intro claim
  have alone := (claim crowded admits_crowded 40).commits (by decide) (by decide)
  have two : (trace machine crowded 40).graduation.length = 2 := by decide
  omega

end Sargantana.FenceAlone
