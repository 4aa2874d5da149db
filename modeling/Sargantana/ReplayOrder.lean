import Sargantana.CachePipeline
import Sargantana.ReplayChains

-- The requests of a cache line are done in the order in which they came to stage 1. The pipeline keeps the contract of the
-- replay table as long as nothing else runs while a request stands in stage 1.
namespace Sargantana.ReplayOrder

open HpdcachePkg CacheEngine CachePipeline ReplayChains Arbiters

variable {n : Nat} [NeZero n] {c : Cfg} {δ : Type}

-- A request as it is kept: from stage 1 on its address is physical.
def settle (r : Req c δ) : Req c δ := { r with physIndexed := true }

@[simp] theorem settle_nline (r : Req c δ) : (settle r).nline = r.nline := rfl

@[simp] theorem settle_settle (r : Req c δ) : settle (settle r) = settle r := rfl

-- Requests that the replay table may hold
def Replayable (g : Settings) (r : Req c δ) : Prop :=
  g.enable = true ∧ r.pma.uncacheable = false ∧ r.op.isCmoFence = false ∧ r.op.isCmoInval = false ∧ r.op.isCmoFlush = false

section

variable (g : Settings) (b : ReplayTable.Entry c δ) (s : State n c δ) (i : Input c δ)

def result : Outcome :=
  if normal (pipe g s i) then outcome (config (c := c) g) (stage g s i) (answers g s i) (stage0 g b s i) else .empty

-- The request that comes to stage 1 from a core and is one of its cache line
def arrives : Option (Req c δ) :=
  if s.st1Rtab = false ∧ (result g b s i = .linked ∨ result g b s i = .onHold ∨ result g b s i = .executed) then
    some (settle (st1Req g s i.core))
  else none

-- The request that is done in this cycle
def executes : Option (Req c δ) := if result g b s i = .executed then some (settle (st1Req g s i.core)) else none

def flying (s : State n c δ) : Option (Fin n) := if s.st1Valid && s.st1Rtab then some s.st1RtabPopTryPtr else none

def ofLine (line : c.Nline) (requests : List (Req c δ)) : List (Req c δ) := requests.filter fun r => r.nline = line

def held (s : State n c δ) (k : Fin n) : Req c δ := settle (s.rtab.req k).req

-- What has come is what is done and then what is on hold.
structure Ordered (s : State n c δ) (arrived executed : List (Req c δ)) (q : c.Nline → List (Fin n)) : Prop where
  lists : Held s.rtab q
  popping : Popping s.rtab q (flying s)
  log : ∀ line, ofLine line arrived = ofLine line executed ++ (q line).map (held s)
  kept : ∀ k, s.rtab.valid k = true → Replayable g (s.rtab.req k).req
  replayed : s.st1Valid = true → s.st1Rtab = true → settle s.st1Req = held s s.st1RtabPopTryPtr
  room : s.st1Valid = true → s.st1Rtab = false → ∃ k, s.rtab.valid k = false
  error : s.st1Valid = true → s.st1IsError = true → s.st1Rtab = true

end

variable {g : Settings} {b : ReplayTable.Entry c δ} {s : State n c δ} {i : Input c δ}
variable {arrived executed : List (Req c δ)} {q : c.Nline → List (Fin n)}

omit [NeZero n] in
theorem fence_replayable : st1Fence (stage g s i) = false ↔ Replayable g (st1Req g s i.core) := by
  simp only [st1Fence,stage,Replayable,Bool.or_eq_false_iff,Bool.not_eq_false']
  tauto

omit [NeZero n] in
theorem rtabCheck_stage (plain : st1Fence (stage g s i) = false) : rtabCheck (stage g s i) = (s.st1Valid && !s.st1Rtab) := by
  rw [rtabCheck,plain,Bool.not_false,Bool.and_true]
  rfl

theorem ofLine_nil (line : c.Nline) : ofLine (δ := δ) line [] = [] := rfl

theorem ofLine_append (line : c.Nline) (one two : List (Req c δ)) : ofLine line (one ++ two) = ofLine line one ++ ofLine line two :=
  List.filter_append ..

theorem ofLine_mine {r : Req c δ} {line : c.Nline} (mine : r.nline = line) : ofLine line [r] = [r] := by simp [ofLine,mine]

theorem ofLine_other {r : Req c δ} {line : c.Nline} (other : r.nline ≠ line) : ofLine line [r] = [] := by simp [ofLine,other]

theorem decide1_sound : Sound (decide1 g b s i) (result g b s i) s.st1Rtab := by
  unfold decide1 decision result
  split
  · exact stage1_sound
  · exact ⟨rfl,rfl,rfl,by simp [Decision.idle]⟩

theorem result_valid (some' : result g b s i ≠ .empty) : s.st1Valid = true := by
  unfold result at some'
  split at some'
  · rw [Ne,outcome_empty] at some'
    simpa [stage] using some'
  · exact absurd rfl some'

theorem result_linked (linked : result g b s i = .linked) :
    s.st1Rtab = false ∧ rtabCheckHit g s i = true ∧ Replayable g (st1Req g s i.core) := by
  unfold result at linked
  split at linked
  · obtain ⟨_,checked,hit⟩ := outcome_linked linked
    simp only [rtabCheck,Bool.and_eq_true,Bool.not_eq_true'] at checked
    exact ⟨checked.1.2,hit,fence_replayable.mp checked.2⟩
  · cases linked

theorem result_onHold (waits : result g b s i = .onHold) :
    Replayable g (st1Req g s i.core) ∧ (s.st1Rtab = false → rtabCheckHit g s i = false) := by
  have here : s.st1Valid = true := result_valid (by rw [waits]; decide)
  unfold result at waits
  split at waits
  · obtain ⟨_,plain,clear⟩ := outcome_onHold waits
    refine ⟨fence_replayable.mp plain,fun fresh => ?_⟩
    rw [rtabCheck_stage plain,here,fresh] at clear
    exact clear
  · cases waits

theorem result_executed (ends : result g b s i = .executed) (fresh : s.st1Rtab = false) (sane : s.st1IsError = false) :
    rtabCheckHit g s i = false := by
  have here : s.st1Valid = true := result_valid (by rw [ends]; decide)
  unfold result at ends
  split at ends
  · obtain ⟨_,error | ⟨plain,clear⟩⟩ := outcome_executed ends
    · exact absurd error (by simp [stage,sane])
    · rw [rtabCheck_stage plain,here,fresh] at clear
      exact clear
  · cases ends

theorem nop_stalls (nop' : (decide1 g b s i).nop = true) : coreReady g b s i = false ∧ rtabReady g b s i = false := by
  have stalls : CacheEngine.nop (config (c := c) g) (stage g s i) (answers g s i) (stage0 g b s i) (pipe g s i) = true := by
    unfold CacheEngine.nop
    rw [show (decision (config (c := c) g) (stage g s i) (answers g s i) (stage0 g b s i) (pipe g s i)).nop = true from nop']
    rfl
  simp [coreReady,rtabReady,coreReqReady,rtabReqReady,stalls]

theorem rtabReady_valid (ready : rtabReady g b s i = true) : s.rtab.popTryValid = true := by
  simp only [rtabReady,rtabReqReady,stage0,Bool.and_eq_true] at ready
  exact ready.2.1.1.1

theorem coreReady_facts (ready : coreReady g b s i = true) :
    s.rtab.popTryValid = false ∧ s.rtab.full g.rtabSingleEntry = false := by
  simp only [coreReady,coreReqReady,stage0,pipe,Bool.and_eq_true,Bool.not_eq_true'] at ready
  exact ⟨ready.2.1.1.1.1.1.1.2,ready.2.1.1.1.1.2⟩

theorem next_valid (calm : s.st1Valid = true → normal (pipe g s i) = true) :
    (next g b s i).st1Valid = (coreReady g b s i || rtabReady g b s i) := by
  simp only [next,st1ReqValid]
  split
  · rfl
  · rename_i busy
    have none' : s.st1Valid = false := by
      by_contra here
      exact busy (calm (by simpa using here))
    simp [stage,none',coreReady,rtabReady,coreReqReady,rtabReqReady,busy]

theorem flying_next (calm : s.st1Valid = true → normal (pipe g s i) = true) :
    flying (next g b s i) = flown s.rtab (rtabInput g b s i) := by
  rw [flying,next_valid calm,flown]
  cases core : coreReady g b s i <;> cases rtab : rtabReady g b s i <;> simp [next,rtabInput,core,rtab]

omit [NeZero n] in
theorem flying_some {f : Fin n} (flew : flying s = some f) : s.st1Valid = true ∧ s.st1Rtab = true ∧ s.st1RtabPopTryPtr = f := by
  unfold flying at flew
  split at flew
  · rename_i both
    rw [Bool.and_eq_true] at both
    exact ⟨both.1,both.2,Option.some.inj flew⟩
  · cases flew

omit [NeZero n] in
theorem flying_none (none' : flying s = none) : s.st1Valid = false ∨ s.st1Rtab = false := by
  unfold flying at none'
  split at none'
  · cases none'
  · rename_i one
    simpa only [Bool.and_eq_true,not_and_or,Bool.not_eq_true] using one

section Step

variable (calm : s.st1Valid = true → normal (pipe g s i) = true) (ordered : Ordered g s arrived executed q)
include calm ordered

theorem result_replayed (here : s.st1Valid = true) (replayed : s.st1Rtab = true) :
    result g b s i = .executed ∨ result g b s i = .onHold := by
  have kept : Replayable g s.st1Req := by
    have same := ordered.replayed here replayed
    obtain ⟨_,_,_,flew⟩ : s.st1Valid = true ∧ s.st1Rtab = true ∧ True ∧ flying s = some s.st1RtabPopTryPtr :=
      ⟨here,replayed,trivial,by simp [flying,here,replayed]⟩
    obtain ⟨_,rest,first⟩ := ordered.popping.first _ flew
    have inside : s.rtab.valid s.st1RtabPopTryPtr = true :=
      ((ordered.lists.member _ _).mp (by rw [first]; exact List.mem_cons_self ..)).1
    obtain ⟨enable,plain,fence,inval,flush⟩ := ordered.kept _ inside
    have pma : s.st1Req.pma = (s.rtab.req s.st1RtabPopTryPtr).req.pma := by
      simpa [settle,held] using congrArg Req.pma same
    have op : s.st1Req.op = (s.rtab.req s.st1RtabPopTryPtr).req.op := by
      simpa [settle,held] using congrArg Req.op same
    exact ⟨enable,by rw [pma,plain],by rw [op,fence],by rw [op,inval],by rw [op,flush]⟩
  have plain : st1Fence (stage g s i) = false := by
    rw [fence_replayable,st1Req,if_pos replayed]
    exact kept
  unfold result
  rw [if_pos (calm here)]
  exact outcome_replayed here replayed plain

omit [NeZero n] calm in
theorem st1Req_replayed (here : s.st1Valid = true) (replayed : s.st1Rtab = true) :
    settle (st1Req g s i.core) = held s s.st1RtabPopTryPtr := by
  rw [st1Req,if_pos replayed]
  exact ordered.replayed here replayed

theorem allowed_now : Allowed s.rtab (flying s) (rtabInput g b s i) := by
  have sound := decide1_sound (g := g) (b := b) (s := s) (i := i)
  refine ⟨rtabReady_valid,?_,?_,?_,?_,?_,?_⟩
  · intro none'
    have still : result g b s i ≠ .executed ∨ s.st1Rtab = false := by
      refine (flying_none none').imp (fun gone ends => ?_) id
      rw [result_valid (by rw [ends]; decide)] at gone
      cases gone
    have back : result g b s i ≠ .onHold ∨ s.st1Rtab = false := by
      refine (flying_none none').imp (fun gone ends => ?_) id
      rw [result_valid (by rw [ends]; decide)] at gone
      cases gone
    simp only [rtabInput,sound.commit,sound.alloc,Bool.and_eq_false_iff,decide_eq_false_iff_not]
    exact ⟨still,back⟩
  · intro f flew
    obtain ⟨here,replayed,ptr⟩ := flying_some flew
    rcases result_replayed calm ordered (b := b) here replayed with ends | back
    · left
      refine ⟨?_,ptr,?_⟩
      · simp [rtabInput,sound.commit,ends,replayed]
      · simp [rtabInput,sound.alloc,ends]
    · right
      have stalls : (decide1 g b s i).nop = true := sound.stalls (.inl (by rw [sound.alloc,back]; rfl))
      refine ⟨?_,ptr,?_,(nop_stalls stalls).2,?_⟩
      · simp [rtabInput,sound.alloc,back,replayed]
      · simp [rtabInput,sound.commit,back]
      · have same := st1Req_replayed ordered (i := i) here replayed
        rw [← ptr]
        exact (congrArg Req.nline same : (settle (st1Req g s i.core)).nline = (held s s.st1RtabPopTryPtr).nline)
  · intro fills
    have arrives' : s.st1Rtab = false ∧ (decide1 g b s i).nop = true ∧ s.st1Valid = true := by
      rcases fills with alloc | link
      · simp only [rtabInput,Bool.and_eq_true,Bool.not_eq_true'] at alloc
        have waits : result g b s i = .onHold := by simpa [sound.alloc] using alloc.1
        exact ⟨alloc.2,sound.stalls (.inl alloc.1),result_valid (by rw [waits]; decide)⟩
      · have linked : result g b s i = .linked := by simpa [rtabInput,sound.link] using link
        exact ⟨(result_linked linked).1,sound.stalls (.inr (.inl link)),result_valid (by rw [linked]; decide)⟩
    refine ⟨?_,(nop_stalls arrives'.2.1).2,ordered.room arrives'.2.2 arrives'.1⟩
    simp [flying,arrives'.1]
  · intro alloc
    simp only [rtabInput,sound.alloc,Bool.and_eq_true,decide_eq_true_eq] at alloc
    simp [rtabInput,sound.link,alloc.1]
  · intro alloc
    simp only [rtabInput,sound.alloc,Bool.and_eq_true,decide_eq_true_eq,Bool.not_eq_true'] at alloc
    exact (result_onHold alloc.1).2 alloc.2
  · intro link
    have linked : result g b s i = .linked := by simpa [rtabInput,sound.link] using link
    exact ⟨(result_linked linked).2.1,rfl⟩

theorem held_next (k : Fin n) (here : s.rtab.valid k = true) :
    held (next g b s i) k = held s k := by
  have allowed := allowed_now calm ordered (b := b) (i := i)
  by_cases fills : (rtabInput g b s i).alloc = true ∨ (rtabInput g b s i).allocAndLink = true
  · have other : k ≠ newest s.rtab := by
      rintro rfl
      exact fill_new allowed fills here
    rw [held,next,fill_req allowed fills,if_neg other]
    rfl
  · rw [not_or,Bool.not_eq_true,Bool.not_eq_true] at fills
    rw [held,next,quiet_req fills]
    split
    · rename_i back
      simp only [ReplayTable.popRbackBv,ReplayTable.indexToBv,rtabInput,Bool.and_eq_true,oneHot_true] at back
      have sound := decide1_sound (g := g) (b := b) (s := s) (i := i)
      rw [sound.alloc,decide_eq_true_eq] at back
      have stage := result_valid (by rw [back.1.1]; decide)
      rw [back.2]
      exact st1Req_replayed ordered stage back.1.2
    · rfl

theorem map_held (line : c.Nline) : (q line).map (held (next g b s i)) = (q line).map (held s) := by
  refine List.map_congr_left fun k inside => held_next calm ordered k ((ordered.lists.member k line).mp inside).1

theorem log_fill (fills : (rtabInput g b s i).alloc = true ∨ (rtabInput g b s i).allocAndLink = true) (line : c.Nline) :
    ofLine line (arrived ++ (arrives g b s i).toList) = ofLine line (executed ++ (executes g b s i).toList) ++
      (requeue s.rtab (rtabInput g b s i) q line).map (held (next g b s i)) := by
  have allowed := allowed_now calm ordered (b := b) (i := i)
  have sound := decide1_sound (g := g) (b := b) (s := s) (i := i)
  have waits : s.st1Rtab = false ∧ (result g b s i = .linked ∨ result g b s i = .onHold) := by
    rcases fills with alloc | link
    · simp only [rtabInput,sound.alloc,Bool.and_eq_true,decide_eq_true_eq,Bool.not_eq_true'] at alloc
      exact ⟨alloc.2,.inr alloc.1⟩
    · have linked : result g b s i = .linked := by simpa [rtabInput,sound.link] using link
      exact ⟨(result_linked linked).1,.inl linked⟩
  have comes : arrives g b s i = some (settle (st1Req g s i.core)) := if_pos ⟨waits.1,waits.2.imp_right .inl⟩
  have stays : executes g b s i = none := if_neg (by rcases waits.2 with one | one <;> simp [one])
  have more : ((rtabInput g b s i).alloc || (rtabInput g b s i).allocAndLink) = true := by simpa using fills
  have fresh : held (next g b s i) (newest s.rtab) = settle (st1Req g s i.core) := by
    rw [held,next,fill_req allowed fills,if_pos rfl]
    rfl
  have place : (rtabInput g b s i).allocReq.req.nline = (settle (st1Req g s i.core)).nline := rfl
  rw [comes,stays,requeue,if_pos more,Option.toList_none,List.append_nil,Option.toList_some,ofLine_append,ordered.log line,place]
  by_cases same : line = (settle (st1Req g s i.core)).nline
  · subst same
    rw [Function.update_self,List.map_append,map_held calm ordered,ofLine_mine rfl,List.append_assoc,List.map_singleton,fresh]
  · rw [Function.update_of_ne same,map_held calm ordered,ofLine_other (Ne.symm same),List.append_nil]

theorem log_commit (commit : (rtabInput g b s i).popCommit = true)
    (quiet : (rtabInput g b s i).alloc = false ∧ (rtabInput g b s i).allocAndLink = false) (line : c.Nline) :
    ofLine line (arrived ++ (arrives g b s i).toList) = ofLine line (executed ++ (executes g b s i).toList) ++
      (requeue s.rtab (rtabInput g b s i) q line).map (held (next g b s i)) := by
  have sound := decide1_sound (g := g) (b := b) (s := s) (i := i)
  simp only [rtabInput,sound.commit,Bool.and_eq_true,decide_eq_true_eq] at commit
  have here : s.st1Valid = true := result_valid (by rw [commit.1]; decide)
  have comes : arrives g b s i = none := if_neg (by simp [commit.2])
  have leaves : executes g b s i = some (held s s.st1RtabPopTryPtr) := by
    rw [executes,if_pos commit.1,st1Req_replayed ordered here commit.2]
  obtain ⟨_,rest,first⟩ := ordered.popping.first s.st1RtabPopTryPtr (by simp [flying,here,commit.2])
  have front : (held s s.st1RtabPopTryPtr).nline = s.rtab.nline s.st1RtabPopTryPtr := rfl
  have lists : requeue s.rtab (rtabInput g b s i) q = Function.update q (s.rtab.nline s.st1RtabPopTryPtr) rest := by
    rw [requeue,if_neg (by simp [quiet.1,quiet.2]),if_pos (by simp [rtabInput,sound.commit,commit.1,commit.2])]
    rw [show (rtabInput g b s i).popCommitPtr = s.st1RtabPopTryPtr from rfl,first,List.tail_cons]
  have tail : rest.map (held (next g b s i)) = rest.map (held s) := by
    have whole := map_held calm ordered (b := b) (i := i) (s.rtab.nline s.st1RtabPopTryPtr)
    rw [first,List.map_cons,List.map_cons] at whole
    exact (List.cons.inj whole).2
  rw [comes,leaves,lists,Option.toList_none,List.append_nil,Option.toList_some,ofLine_append,ordered.log line]
  by_cases same : line = s.rtab.nline s.st1RtabPopTryPtr
  · subst same
    rw [Function.update_self,first,ofLine_mine front,List.map_cons,tail,List.append_assoc,List.singleton_append]
  · rw [Function.update_of_ne same,map_held calm ordered,ofLine_other (by rw [front]; exact Ne.symm same),List.append_nil]

theorem log_rest (keeps : (rtabInput g b s i).popCommit = false)
    (quiet : (rtabInput g b s i).alloc = false ∧ (rtabInput g b s i).allocAndLink = false) (line : c.Nline) :
    ofLine line (arrived ++ (arrives g b s i).toList) = ofLine line (executed ++ (executes g b s i).toList) ++
      (requeue s.rtab (rtabInput g b s i) q line).map (held (next g b s i)) := by
  have sound := decide1_sound (g := g) (b := b) (s := s) (i := i)
  have lists : requeue s.rtab (rtabInput g b s i) q = q := by simp [requeue,quiet.1,quiet.2,keeps]
  simp only [rtabInput,sound.commit,sound.alloc,sound.link,Bool.and_eq_false_iff,decide_eq_false_iff_not,
    Bool.not_eq_false'] at keeps quiet
  rw [lists,map_held calm ordered,ofLine_append,ofLine_append,ordered.log line]
  by_cases ends : result g b s i = .executed
  · have fresh : s.st1Rtab = false := keeps.resolve_left (not_not.mpr ends)
    have here : s.st1Valid = true := result_valid (by rw [ends]; decide)
    have sane : s.st1IsError = false := by
      by_contra error
      rw [ordered.error here (by simpa using error)] at fresh
      cases fresh
    have comes : arrives g b s i = some (settle (st1Req g s i.core)) := if_pos ⟨fresh,.inr (.inr ends)⟩
    have leaves : executes g b s i = some (settle (st1Req g s i.core)) := if_pos ends
    rw [comes,leaves]
    by_cases same : line = (settle (st1Req g s i.core)).nline
    · have alone : q line = [] := by
        rw [same]
        exact (checkHit_none ordered.lists).mp (result_executed ends fresh sane)
      rw [alone,List.map_nil,List.append_nil,List.append_nil]
    · rw [Option.toList_some,ofLine_other (Ne.symm same),List.append_nil,List.append_nil]
  · have comes : arrives g b s i = none := by
      refine if_neg fun both => ?_
      rcases both.2 with linked | waits | ends'
      · exact quiet.2 linked
      · rcases quiet.1 with other | replayed
        · exact other waits
        · rw [both.1] at replayed
          cases replayed
      · exact ends ends'
    rw [comes,executes,if_neg ends,Option.toList_none,ofLine_nil,List.append_nil,List.append_nil]

theorem log_next (line : c.Nline) :
    ofLine line (arrived ++ (arrives g b s i).toList) = ofLine line (executed ++ (executes g b s i).toList) ++
      (requeue s.rtab (rtabInput g b s i) q line).map (held (next g b s i)) := by
  by_cases fills : (rtabInput g b s i).alloc = true ∨ (rtabInput g b s i).allocAndLink = true
  · exact log_fill calm ordered fills line
  · rw [not_or,Bool.not_eq_true,Bool.not_eq_true] at fills
    cases commit : (rtabInput g b s i).popCommit with
    | true => exact log_commit calm ordered commit fills line
    | false => exact log_rest calm ordered commit fills line

-- What stands in the table may be replayed, also what this cycle puts there.
theorem kept_next (k : Fin n) (here : (next g b s i).rtab.valid k = true) :
    Replayable g ((next g b s i).rtab.req k).req := by
  have allowed := allowed_now calm ordered (b := b) (i := i)
  have sound := decide1_sound (g := g) (b := b) (s := s) (i := i)
  have same : ∀ j, s.rtab.valid j = true → Replayable g ((next g b s i).rtab.req j).req := by
    intro j there
    have keeps : held (next g b s i) j = held s j := held_next calm ordered j there
    obtain ⟨enable,plain,fence,inval,flush⟩ := ordered.kept j there
    have pma : ((next g b s i).rtab.req j).req.pma = (s.rtab.req j).req.pma := by simpa [settle,held] using congrArg Req.pma keeps
    have op : ((next g b s i).rtab.req j).req.op = (s.rtab.req j).req.op := by simpa [settle,held] using congrArg Req.op keeps
    exact ⟨enable,by rw [pma,plain],by rw [op,fence],by rw [op,inval],by rw [op,flush]⟩
  by_cases fills : (rtabInput g b s i).alloc = true ∨ (rtabInput g b s i).allocAndLink = true
  · rcases (fill_valid allowed fills k).mp here with there | fresh
    · exact same k there
    · rw [next,fill_req allowed fills,if_pos fresh]
      rcases fills with alloc | link
      · have waits : result g b s i = .onHold := by
          simp only [rtabInput,sound.alloc,Bool.and_eq_true,decide_eq_true_eq] at alloc
          exact alloc.1
        exact (result_onHold waits).1
      · exact (result_linked (by simpa [rtabInput,sound.link] using link)).2.2
  · rw [not_or,Bool.not_eq_true,Bool.not_eq_true] at fills
    exact same k ((quiet_valid fills k).mp here).1

theorem replayed_next (ready : rtabReady g b s i = true) :
    settle (next g b s i).st1Req = held (next g b s i) (next g b s i).st1RtabPopTryPtr := by
  have allowed := allowed_now calm ordered (b := b) (i := i)
  obtain ⟨p,_,sel,ptr,_,here,_⟩ := pop_first ordered.popping ordered.lists allowed ready
  have taken : s.rtab.popTryReq = some (s.rtab.req p) := by
    rw [ReplayTable.State.popTryReq,ReplayTable.mux,sel,find_oneHot]
    rfl
  have ptr' : (next g b s i).st1RtabPopTryPtr = p := by simp [next,ready,ptr]
  have req' : (next g b s i).st1Req = settle (s.rtab.req p).req := by
    simp only [next,ready,Bool.or_true,if_true,st0Req,rtabReady_valid ready,taken]
    rfl
  rw [ptr',req',held_next calm ordered p here]
  rfl

omit calm ordered in
theorem room_next (ready : coreReady g b s i = true) : ∃ k, (next g b s i).rtab.valid k = false := by
  have sound := decide1_sound (g := g) (b := b) (s := s) (i := i)
  have free := (coreReady_facts ready).2
  simp only [ReplayTable.State.full,Bool.or_eq_false_iff,Bool.not_eq_false',any_true,Bool.not_eq_true'] at free
  obtain ⟨⟨k,clear⟩,_⟩ := free
  have moves : (decide1 g b s i).nop = false := by
    by_contra stalls
    rw [(nop_stalls (by simpa using stalls)).1] at ready
    cases ready
  have quiet : (rtabInput g b s i).alloc = false ∧ (rtabInput g b s i).allocAndLink = false := by
    constructor
    · by_contra alloc
      simp only [rtabInput,Bool.not_eq_false,Bool.and_eq_true] at alloc
      rw [sound.stalls (.inl alloc.1)] at moves
      cases moves
    · by_contra link
      rw [sound.stalls (.inr (.inl (by simpa [rtabInput] using link)))] at moves
      cases moves
  refine ⟨k,?_⟩
  rw [← Bool.not_eq_true,next,quiet_valid quiet]
  rintro ⟨here,_⟩
  rw [clear] at here
  cases here

theorem order_next : ∃ q', Ordered g (next g b s i) (arrived ++ (arrives g b s i).toList)
    (executed ++ (executes g b s i).toList) q' := by
  have allowed := allowed_now calm ordered (b := b) (i := i)
  obtain ⟨lists,popping⟩ := chains_next ordered.popping ordered.lists allowed
  have valid := next_valid calm (b := b)
  refine ⟨requeue s.rtab (rtabInput g b s i) q,lists,?_,log_next calm ordered,kept_next calm ordered,?_,?_,?_⟩
  · rw [flying_next calm]
    exact popping
  · intro here replayed
    refine replayed_next calm ordered ?_
    rw [valid] at here
    simpa [next,here] using replayed
  · intro here fresh
    rw [valid] at here
    have ready : rtabReady g b s i = false := by simpa [next,here] using fresh
    rw [ready,Bool.or_false] at here
    exact room_next here
  · intro here error
    rw [valid] at here
    cases ready : rtabReady g b s i with
    | true => simp [next,ready]
    | false =>
      rw [ready,Bool.or_false] at here
      have none' := (coreReady_facts here).1
      have run : normal (pipe g s i) = true := by
        simp only [coreReady,coreReqReady,Bool.and_eq_true] at here
        exact here.1
      simp [next,st1ReqIsError,run,stage0,st0IsError,none'] at error

end Step

theorem order_reset (g : Settings) (b : ReplayTable.Entry c δ) : Ordered g (reset (n := n) b) [] [] (fun _ => []) where
  lists := (chains_reset b).1
  popping := (chains_reset b).2
  log _ := rfl
  kept _ here := by cases here
  replayed here := by cases here
  room here := by cases here
  error here := by cases here

end Sargantana.ReplayOrder
