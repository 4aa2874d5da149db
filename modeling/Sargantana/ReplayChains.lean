import Sargantana.ReplayTable
import Sargantana.Lib.LinkedList

-- The lists of the replay table under the contract of the cache controller
namespace Sargantana.ReplayChains

open Arbiters HpdcachePkg ReplayTable LinkedList

variable {n : Nat} [NeZero n] {c : Cfg} {δ : Type}

-- The requests on hold of each line, the oldest first
def Held (s : State n c δ) (q : c.Nline → List (Fin n)) : Prop :=
  Lists (fun k => s.valid k = true) s.nline s.next (fun k => s.tail k = true) q

-- What the assertions of the table ask of the controller. `flying` is the entry that was popped in the cycle before.
structure Allowed (s : State n c δ) (flying : Option (Fin n)) (i : Input n c δ) : Prop where
  pops : i.popTry = true → s.popTryValid = true
  silent : flying = none → i.popCommit = false ∧ i.popRback = false
  answer : ∀ f, flying = some f → (i.popCommit = true ∧ i.popCommitPtr = f ∧ i.popRback = false) ∨
    (i.popRback = true ∧ i.popRbackPtr = f ∧ i.popCommit = false ∧ i.popTry = false ∧ i.allocReq.req.nline = s.nline f)
  fills : i.alloc = true ∨ i.allocAndLink = true → flying = none ∧ i.popTry = false ∧ ∃ k, s.valid k = false
  alone : i.alloc = true → i.allocAndLink = false
  fresh : i.alloc = true → s.checkHitO i.allocReq.req.nline = false
  links : i.allocAndLink = true → s.checkHitO i.checkNline = true ∧ i.allocReq.req.nline = i.checkNline

def flown (s : State n c δ) (i : Input n c δ) : Option (Fin n) := if i.popTry then some s.popTryPtr else none

def newest (s : State n c δ) : Fin n := bvToIndex s.freeAlloc

-- A new request goes behind those of its line, a committed one leaves the front.
def requeue (s : State n c δ) (i : Input n c δ) (q : c.Nline → List (Fin n)) : c.Nline → List (Fin n) :=
  if i.alloc || i.allocAndLink then Function.update q i.allocReq.req.nline (q i.allocReq.req.nline ++ [newest s])
  else if i.popCommit then Function.update q (s.nline i.popCommitPtr) (q (s.nline i.popCommitPtr)).tail
  else q

-- Every first request is a head, but for the list that is being replayed.
def Phase (s : State n c δ) (q : c.Nline → List (Fin n)) (flying : Option (Fin n)) : Prop :=
  match s.popTryState with
  | .head => ∀ line k rest, q line = k :: rest → s.head k = true ∨ (flying = some k ∧ rest = [])
  | .next => ∃ f p rest, flying = some f ∧ q (s.nline f) = f :: p :: rest ∧ s.popTryNext = oneHot p ∧
      ∀ line k rest, q line = k :: rest → k ≠ f → s.head k = true
  | .nextWait => flying = none ∧ ∃ p rest, q (s.nline p) = p :: rest ∧ s.popTryNext = oneHot p ∧ s.head p = false ∧
      ∀ line k rest, q line = k :: rest → k ≠ p → s.head k = true

structure Popping (s : State n c δ) (q : c.Nline → List (Fin n)) (flying : Option (Fin n)) : Prop where
  granted : Granted s.popArb
  steady : Steady s.popArb s.ready
  first : ∀ f, flying = some f → s.head f = false ∧ ∃ rest, q (s.nline f) = f :: rest
  later : ∀ line k rest, q line = k :: rest → ∀ j ∈ rest, s.head j = false
  phase : Phase s q flying

theorem bvToIndex_oneHot (k : Fin n) : bvToIndex (oneHot k) = k := by rw [bvToIndex,find_oneHot,Option.getD_some]

variable {s : State n c δ} {q : c.Nline → List (Fin n)} {flying : Option (Fin n)} {i : Input n c δ}

theorem newest_free (room : ∃ k, s.valid k = false) : s.valid (newest s) = false ∧ s.freeAlloc = oneHot (newest s) := by
  obtain ⟨k,free⟩ := room
  have some' : any (fun k => !s.valid k) = true := any_true.mpr ⟨k,by simp [free]⟩
  obtain ⟨j,clear,_,chosen⟩ := prio_first some'
  have same : newest s = j := by
    rw [newest,State.freeAlloc,chosen]
    exact bvToIndex_oneHot j
  refine ⟨by simpa [same] using clear,?_⟩
  rw [same]
  exact chosen

omit [NeZero n] in
theorem checkHit_none {line : c.Nline} (held : Held s q) : s.checkHitO line = false ↔ q line = [] := by
  rw [State.checkHitO,any_false]
  constructor
  · intro clear
    refine List.eq_nil_iff_forall_not_mem.mpr fun k inside => ?_
    obtain ⟨here,place⟩ := (held.member k line).mp inside
    have hit := clear k
    simp only [State.checkHit,Bool.and_eq_false_iff,decide_eq_false_iff_not] at hit
    rcases hit with gone | other
    · rw [gone] at here
      cases here
    · exact other place.symm
  · intro none' k
    simp only [State.checkHit,Bool.and_eq_false_iff,decide_eq_false_iff_not]
    by_contra both
    rw [not_or,not_not,Bool.not_eq_false] at both
    have inside := (held.member k line).mpr ⟨both.1,both.2.symm⟩
    rw [none'] at inside
    cases inside

omit [NeZero n] in
theorem tail_found (held : Held s q) {line : c.Nline} (hit : s.checkHitO line = true) :
    ∃ a, s.valid a = true ∧ s.nline a = line ∧ s.tail a = true ∧ ∀ k, s.matchCheckTail line k = decide (k = a) := by
  obtain ⟨k,there⟩ := any_true.mp hit
  simp only [State.checkHit,Bool.and_eq_true,decide_eq_true_eq] at there
  obtain ⟨a,here,place,mark⟩ := held.has_mark there.1
  have line' : s.nline a = line := by rw [place,there.2]
  refine ⟨a,here,line',mark,?_⟩
  intro j
  rw [Bool.eq_iff_iff,decide_eq_true_eq]
  constructor
  · intro matched
    simp only [State.matchCheckTail,State.checkHit,Bool.and_eq_true,decide_eq_true_eq] at matched
    have one := held.marked matched.1.1 matched.2
    have two := held.marked here mark
    rw [← matched.1.2,← line',two] at one
    exact (Option.some.inj one).symm
  · rintro rfl
    simp [State.matchCheckTail,State.checkHit,here,line',mark]

-- A cycle without a new request
section Quiet

variable (quiet : i.alloc = false ∧ i.allocAndLink = false)
include quiet

theorem quiet_valid (k : Fin n) : (next s i).valid k = true ↔ s.valid k = true ∧ ¬ (i.popCommit = true ∧ k = i.popCommitPtr) := by
  simp only [next,State.validSet,quiet.1,quiet.2,Bool.or_self,Bool.and_false,popCommitRst,indexToBv]
  cases s.valid k <;> cases i.popCommit <;> simp [Deps.latch]

theorem quiet_head (k : Fin n) : (next s i).head k = Deps.latch (s.head k) (popRbackBv i k) (s.popTryBv i k) := by
  simp [next,quiet.1,quiet.2]

theorem quiet_tail (k : Fin n) : (next s i).tail k = s.tail k := by
  simp [next,State.validSet,quiet.1,quiet.2]

theorem quiet_next (k : Fin n) : (next s i).next k = s.next k := by simp [next,quiet.2]

theorem quiet_req (k : Fin n) : (next s i).req k = if popRbackBv i k then i.allocReq else s.req k := by
  simp [next,State.validSet,quiet.1,quiet.2]

theorem quiet_nline (allowed : Allowed s flying i) (k : Fin n) : (next s i).nline k = s.nline k := by
  rw [State.nline,quiet_req quiet]
  split
  · rename_i back
    simp only [popRbackBv,indexToBv,Bool.and_eq_true,oneHot_true] at back
    cases flew : flying with
    | none =>
      rw [(allowed.silent flew).2] at back
      cases back.1
    | some f =>
      rcases allowed.answer f flew with ⟨_,_,stays⟩ | ⟨_,ptr,_,_,place⟩
      · rw [stays] at back
        cases back.1
      · rw [place,back.2,ptr]
  · rfl

theorem quiet_held (allowed : Allowed s flying i) (held : Held s q) (popping : Popping s q flying) : Held (next s i) (requeue s i q) := by
  unfold requeue
  rw [quiet.1,quiet.2,Bool.or_self,if_neg Bool.false_ne_true]
  cases commit : i.popCommit with
  | false =>
    rw [if_neg Bool.false_ne_true]
    refine held.congr ?_ (fun k _ => quiet_nline quiet allowed k) (fun k _ => quiet_next quiet k) fun k _ => by rw [quiet_tail quiet]
    intro k
    rw [quiet_valid quiet,commit]
    simp
  | true =>
    rw [if_pos rfl]
    cases flew : flying with
    | none =>
      rw [(allowed.silent flew).1] at commit
      cases commit
    | some f =>
      rcases allowed.answer f flew with ⟨_,ptr,_⟩ | ⟨_,_,stays,_⟩
      · obtain ⟨_,rest,first⟩ := popping.first f flew
        rw [ptr,first,List.tail_cons]
        refine held.drop first ?_ (fun k _ => quiet_nline quiet allowed k) (fun k _ => quiet_next quiet k) fun k _ => by rw [quiet_tail quiet]
        intro k
        rw [quiet_valid quiet,commit,ptr]
        simp
      · rw [commit] at stays
        cases stays

end Quiet

-- A cycle with a new request
section Filling

variable (allowed : Allowed s flying i) (fills : i.alloc = true ∨ i.allocAndLink = true)
include allowed fills

theorem fill_set (k : Fin n) : s.validSet i k = decide (k = newest s) := by
  obtain ⟨_,_,room⟩ := allowed.fills fills
  rw [State.validSet,(newest_free room).2]
  rcases fills with one | two
  · simp [one,oneHot]
  · simp [two,oneHot]

omit [NeZero n] in
theorem fill_silent : i.popCommit = false ∧ i.popRback = false ∧ i.popTry = false := by
  obtain ⟨flew,still,_⟩ := allowed.fills fills
  exact ⟨(allowed.silent flew).1,(allowed.silent flew).2,still⟩

theorem fill_valid (k : Fin n) : (next s i).valid k = true ↔ s.valid k = true ∨ k = newest s := by
  obtain ⟨stays,_,_⟩ := fill_silent allowed fills
  simp only [next,fill_set allowed fills,popCommitRst,stays,Bool.false_and]
  cases s.valid k <;> simp [Deps.latch]

theorem fill_req (k : Fin n) : (next s i).req k = if k = newest s then i.allocReq else s.req k := by
  obtain ⟨_,stays,_⟩ := fill_silent allowed fills
  simp [next,fill_set allowed fills,popRbackBv,stays]

theorem fill_new : ¬ s.valid (newest s) = true := by
  obtain ⟨_,_,room⟩ := allowed.fills fills
  rw [(newest_free room).1]
  exact Bool.false_ne_true

theorem fill_nline (k : Fin n) (here : s.valid k = true) : (next s i).nline k = s.nline k := by
  have other : k ≠ newest s := by
    rintro rfl
    exact fill_new allowed fills here
  rw [State.nline,fill_req allowed fills,if_neg other,State.nline]

theorem fill_tail (k : Fin n) : (next s i).tail k =
    if k = newest s then true else s.tail k && !(s.matchCheckTail i.checkNline k && i.allocAndLink) := by
  simp only [next,fill_set allowed fills]
  split
  · rename_i same
    have unmatched : s.matchCheckTail i.checkNline k = false := by
      have free := fill_new allowed fills
      rw [← same,Bool.not_eq_true] at free
      simp [State.matchCheckTail,State.checkHit,free]
    simp [same,same ▸ unmatched]
  · rename_i other
    cases s.tail k <;> simp [Deps.latch,other]

theorem fill_held (held : Held s q) : Held (next s i) (requeue s i q) := by
  have new' : (next s i).nline (newest s) = i.allocReq.req.nline := by
    rw [State.nline,fill_req allowed fills,if_pos rfl]
  have more : (i.alloc || i.allocAndLink) = true := by simpa using fills
  have other : ∀ k, s.valid k = true → k ≠ newest s := by
    rintro k here rfl
    exact fill_new allowed fills here
  unfold requeue
  rw [if_pos more,← new']
  cases joins : i.allocAndLink with
  | false =>
    have starts : i.alloc = true := by simpa [joins] using fills
    have clear : q ((next s i).nline (newest s)) = [] := by
      rw [new']
      exact (checkHit_none held).mp (allowed.fresh starts)
    rw [clear,List.nil_append]
    refine held.fresh (fill_new allowed fills) clear (fill_valid allowed fills) (fill_nline allowed fills) ?_ ?_ ?_
    · intro k _
      simp [next,joins]
    · intro k here
      rw [fill_tail allowed fills,if_neg (other k here),joins,Bool.and_false,Bool.not_false,Bool.and_true]
    · rw [fill_tail allowed fills,if_pos rfl]
  | true =>
    obtain ⟨hit,place⟩ := allowed.links joins
    obtain ⟨a,here,line,mark,found⟩ := tail_found held hit
    refine held.link (fill_new allowed fills) here (by rw [line,new',place]) mark (fill_valid allowed fills) (fill_nline allowed fills)
      ?_ ?_ ?_ ?_ ?_
    · intro k _ apart
      simp [next,found,apart]
    · simp [next,found,joins,newest]
    · intro k there apart
      rw [fill_tail allowed fills,if_neg (other k there),found]
      simp [apart]
    · rw [fill_tail allowed fills,if_neg (other a here),found,joins]
      simp
    · rw [fill_tail allowed fills,if_pos rfl]

end Filling

theorem fill_head (allowed : Allowed s flying i) (fills : i.alloc = true ∨ i.allocAndLink = true) (k : Fin n) :
    (next s i).head k = if k = newest s then i.alloc else s.head k := by
  obtain ⟨_,stays,still⟩ := fill_silent allowed fills
  obtain ⟨_,_,room⟩ := allowed.fills fills
  simp only [next,popRbackBv,stays,State.popTryBv,still,(newest_free room).2,Bool.false_and,Bool.and_false,Bool.or_false]
  by_cases same : k = newest s
  · have hot : oneHot (newest s) k = true := oneHot_true.mpr same
    rw [if_pos same,hot]
    cases starts : i.alloc with
    | true => simp [allowed.alone starts]
    | false => simp [(fills.resolve_left (by simp [starts])),Deps.latch]
  · have cold : oneHot (newest s) k = false := oneHot_false.mpr same
    rw [if_neg same,cold]
    simp

-- In a quiet cycle a list loses the request in flight at most.
theorem requeue_quiet (allowed : Allowed s flying i) (popping : Popping s q flying) (quiet : i.alloc = false ∧ i.allocAndLink = false)
    (line : c.Nline) : (requeue s i q line = q line ∧ (i.popCommit = true → ∀ f, flying = some f → line ≠ s.nline f)) ∨
      ∃ f, flying = some f ∧ i.popCommit = true ∧ line = s.nline f ∧ q line = f :: requeue s i q line := by
  unfold requeue
  rw [quiet.1,quiet.2,Bool.or_self,if_neg Bool.false_ne_true]
  cases commit : i.popCommit with
  | false => exact .inl ⟨rfl,by intro wrong; cases wrong⟩
  | true =>
    rw [if_pos rfl]
    cases flew : flying with
    | none =>
      rw [(allowed.silent flew).1] at commit
      cases commit
    | some f =>
      rcases allowed.answer f flew with ⟨_,ptr,_⟩ | ⟨_,_,stays,_⟩
      · obtain ⟨_,rest,first⟩ := popping.first f flew
        rw [ptr]
        by_cases same : line = s.nline f
        · subst same
          exact .inr ⟨f,rfl,rfl,rfl,by rw [Function.update_self,first,List.tail_cons]⟩
        · refine .inl ⟨by rw [Function.update_of_ne same],?_⟩
          intro _ g equal
          cases equal
          exact same
      · rw [commit] at stays
        cases stays

theorem quiet_later (allowed : Allowed s flying i) (popping : Popping s q flying) (quiet : i.alloc = false ∧ i.allocAndLink = false)
    {line : c.Nline} {k : Fin n} {rest : List (Fin n)} (first : requeue s i q line = k :: rest) {j : Fin n} (inside : j ∈ rest) :
    s.head j = false := by
  rcases requeue_quiet allowed popping quiet line with ⟨same,_⟩ | ⟨f,_,_,_,old⟩
  · exact popping.later line k rest (by rw [← same,first]) j inside
  · rw [first] at old
    exact popping.later line f (k :: rest) old j (List.mem_cons_of_mem _ inside)

omit [NeZero n] in
theorem pop_quiet (allowed : Allowed s flying i) (pops : i.popTry = true) : i.alloc = false ∧ i.allocAndLink = false := by
  constructor
  · by_contra fills
    rw [Bool.not_eq_false] at fills
    rw [(allowed.fills (.inl fills)).2.1] at pops
    cases pops
  · by_contra fills
    rw [Bool.not_eq_false] at fills
    rw [(allowed.fills (.inr fills)).2.1] at pops
    cases pops

omit [NeZero n] in
theorem pop_commits (allowed : Allowed s flying i) (pops : i.popTry = true) (flew : flying = some f) : i.popCommit = true := by
  rcases allowed.answer f flew with ⟨commit,_⟩ | ⟨_,_,_,still,_⟩
  · exact commit
  · rw [still] at pops
    cases pops

omit [NeZero n] in
theorem pop_keeps (allowed : Allowed s flying i) (pops : i.popTry = true) : i.popRback = false := by
  cases flew : flying with
  | none => exact (allowed.silent flew).2
  | some f =>
    rcases allowed.answer f flew with ⟨_,_,stays⟩ | ⟨_,_,_,still,_⟩
    · exact stays
    · rw [still] at pops
      cases pops

-- Outside a list that is replayed all first requests are heads, and a head that is ready is popped.
theorem pop_ready (popping : Popping s q flying) (held : Held s q) (allowed : Allowed s flying i) (pops : i.popTry = true)
    (state : s.popTryState = .head) :
    ∃ p rest, s.popSel = oneHot p ∧ requeue s i q (s.nline p) = p :: rest ∧ s.valid p = true ∧
      ∀ line k rest, requeue s i q line = k :: rest → s.head k = true := by
  have quiet := pop_quiet allowed pops
  have phase := popping.phase
  unfold Phase at phase
  simp only [state] at phase
  have some' : any s.ready = true := by simpa [State.popTryValid,state] using allowed.pops pops
  obtain ⟨p,ready,grant⟩ := rrGrant_some popping.granted popping.steady some'
  have sel : s.popSel = oneHot p := by simpa [State.popSel,state,State.popGnt] using grant
  simp only [State.ready,Bool.and_eq_true] at ready
  obtain ⟨⟨here,head⟩,_⟩ := ready
  have heads : ∀ line k rest, requeue s i q line = k :: rest → s.head k = true := by
    intro line k rest first
    rcases requeue_quiet allowed popping quiet line with ⟨same,apart⟩ | ⟨f,flew,_,_,old⟩
    · rcases phase line k rest (by rw [← same,first]) with good | ⟨flew,_⟩
      · exact good
      · exact absurd ((held.member k line).mp (by rw [← same,first]; simp)).2.symm (apart (pop_commits allowed pops flew) k flew)
    · rw [first] at old
      rcases phase line f (k :: rest) old with good | ⟨_,short⟩
      · rw [(popping.first f flew).1] at good
        cases good
      · cases short
  have inside : p ∈ requeue s i q (s.nline p) := by
    rcases requeue_quiet allowed popping quiet (s.nline p) with ⟨same,_⟩ | ⟨f,flew,_,_,old⟩
    · rw [same]
      exact held.own here
    · have mine : p ∈ f :: requeue s i q (s.nline p) := old ▸ held.own here
      refine (List.mem_cons.mp mine).resolve_left ?_
      rintro rfl
      rw [(popping.first p flew).1] at head
      cases head
  cases first : requeue s i q (s.nline p) with
  | nil =>
    rw [first] at inside
    cases inside
  | cons k rest =>
    have same : p = k := by
      rw [first] at inside
      refine (List.mem_cons.mp inside).resolve_right fun behind => ?_
      rw [quiet_later allowed popping quiet first behind] at head
      cases head
    exact ⟨p,rest,sel,by rw [first,same],here,heads⟩

-- What is popped is the first request of its line, and the lists of all other lines have their heads.
theorem pop_first (popping : Popping s q flying) (held : Held s q) (allowed : Allowed s flying i) (pops : i.popTry = true) :
    ∃ p rest, s.popSel = oneHot p ∧ s.popTryPtr = p ∧ requeue s i q (s.nline p) = p :: rest ∧ s.valid p = true ∧
      ∀ line k rest, requeue s i q line = k :: rest → k ≠ p → s.head k = true := by
  have quiet := pop_quiet allowed pops
  have phase := popping.phase
  unfold Phase at phase
  cases state : s.popTryState with
  | head =>
    obtain ⟨p,rest,sel,first,here,heads⟩ := pop_ready popping held allowed pops state
    exact ⟨p,rest,sel,by rw [State.popTryPtr,sel,bvToIndex_oneHot],first,here,fun line k more begins _ => heads line k more begins⟩
  | next =>
    simp only [state] at phase
    obtain ⟨f,p,rest,flew,begins,cursor,heads⟩ := phase
    have sel : s.popSel = oneHot p := by simpa [State.popSel,state] using cursor
    obtain ⟨here,line'⟩ := (held.member p (s.nline f)).mp (by simp [begins])
    have front : requeue s i q (s.nline f) = p :: rest := by
      rcases requeue_quiet allowed popping quiet (s.nline f) with ⟨_,apart⟩ | ⟨g,also,_,_,old⟩
      · exact absurd rfl (apart (pop_commits allowed pops flew) f flew)
      · rw [begins] at old
        exact (List.cons.inj old).2.symm
    refine ⟨p,rest,sel,by rw [State.popTryPtr,sel,bvToIndex_oneHot],by rw [line',front],here,?_⟩
    intro line k more first other
    rcases requeue_quiet allowed popping quiet line with ⟨same,apart⟩ | ⟨g,also,_,place,old⟩
    · refine heads line k more (by rw [← same,first]) ?_
      rintro rfl
      exact absurd ((held.member k line).mp (by rw [← same,first]; simp)).2.symm (apart (pop_commits allowed pops flew) k flew)
    · cases flew.symm.trans also
      rw [place,front] at first
      exact absurd (List.cons.inj first).1.symm other
  | nextWait =>
    simp only [state] at phase
    obtain ⟨flew,p,rest,begins,cursor,_,heads⟩ := phase
    have sel : s.popSel = oneHot p := by simpa [State.popSel,state] using cursor
    have inside : p ∈ q (s.nline p) := by
      rw [begins]
      exact List.mem_cons_self ..
    have here : s.valid p = true := ((held.member p _).mp inside).1
    have stays : requeue s i q = q := by
      unfold requeue
      rw [quiet.1,quiet.2,(allowed.silent flew).1]
      simp
    rw [stays]
    exact ⟨p,rest,sel,by rw [State.popTryPtr,sel,bvToIndex_oneHot],begins,here,heads⟩

theorem quiet_stays (allowed : Allowed s flying i) (popping : Popping s q flying) {k : Fin n} (ready : s.ready k = true)
    (unpopped : s.popTryBv i k = false) : (next s i).ready k = true := by
  simp only [State.ready,Bool.and_eq_true,Bool.not_eq_true'] at ready
  obtain ⟨⟨here,head⟩,clear⟩ := ready
  have apart : ∀ f, flying = some f → k ≠ f := by
    rintro f flew rfl
    rw [(popping.first k flew).1] at head
    cases head
  have uncommitted : popCommitRst i k = false := by
    by_contra commit
    simp only [popCommitRst,indexToBv,Bool.not_eq_false,Bool.and_eq_true,oneHot_true] at commit
    cases flew : flying with
    | none =>
      rw [(allowed.silent flew).1] at commit
      cases commit.1
    | some f =>
      rcases allowed.answer f flew with ⟨_,ptr,_⟩ | ⟨_,_,stays,_⟩
      · exact apart f flew (commit.2.trans ptr)
      · rw [stays] at commit
        cases commit.1
  have unreturned : popRbackBv i k = false := by
    by_contra back
    simp only [popRbackBv,indexToBv,Bool.not_eq_false,Bool.and_eq_true,oneHot_true] at back
    cases flew : flying with
    | none =>
      rw [(allowed.silent flew).2] at back
      cases back.1
    | some f =>
      rcases allowed.answer f flew with ⟨_,_,stays⟩ | ⟨_,ptr,_⟩
      · rw [stays] at back
        cases back.1
      · exact apart f flew (back.2.trans ptr)
  have used : s.freeAlloc k = false := by simp [State.freeAlloc,prio,here]
  have unset : s.validSet i k = false := by simp [State.validSet,used]
  simp only [State.ready,next,uncommitted,unreturned,unset,used,unpopped,here,head,Bool.false_and,Bool.or_self,Deps.latch_held,
    Bool.not_false,Bool.true_and,Bool.false_eq_true,if_false,Deps.latched_clear clear]

theorem popArb_next (allowed : Allowed s flying i) (popping : Popping s q flying) (held : Held s q) :
    Granted (next s i).popArb ∧ Steady (next s i).popArb (next s i).ready := by
  refine ⟨rrNext_granted popping.granted _ _,rrNext_steady popping.granted popping.steady ?_⟩
  intro waits k ready _
  refine quiet_stays allowed popping ready ?_
  cases pops : i.popTry with
  | false => simp [State.popTryBv,pops]
  | true =>
    obtain ⟨p,rest,sel,_,first,_,_⟩ := pop_first popping held allowed pops
    have other : k ≠ p := by
      rintro rfl
      have head : s.head k = true := by simp only [State.ready,Bool.and_eq_true] at ready; exact ready.1.2
      have phase := popping.phase
      unfold Phase at phase
      cases state : s.popTryState with
      | head =>
        have back : i.popRback = false := by
          cases flew : flying with
          | none => exact (allowed.silent flew).2
          | some f =>
            rcases allowed.answer f flew with ⟨_,_,stays⟩ | ⟨_,_,_,still,_⟩
            · exact stays
            · rw [still] at pops
              cases pops
        have takes : s.popHead i.popTry i.popRback = true := by
          simp [State.popHead,state,back,pops,allowed.pops pops]
        rw [takes] at waits
        cases waits
      | next =>
        simp only [state] at phase
        obtain ⟨f,p,more,_,begins,cursor,_⟩ := phase
        have same : k = p := by
          have hot : oneHot k = oneHot p := by rw [← sel,← cursor,State.popSel,state]
          exact oneHot_inj hot
        rw [popping.later _ f (p :: more) begins k (by simp [same])] at head
        cases head
      | nextWait =>
        simp only [state] at phase
        obtain ⟨_,p,more,_,cursor,cold,_⟩ := phase
        have same : k = p := by
          have hot : oneHot k = oneHot p := by rw [← sel,← cursor,State.popSel,state]
          exact oneHot_inj hot
        rw [same,cold] at head
        cases head
    simp [State.popTryBv,sel,other]

section Pop

variable (allowed : Allowed s flying i) (pops : i.popTry = true)
include allowed pops

theorem pop_follows : s.popEntrySel i.popTry i.popRback = s.follow := by
  have stays := pop_keeps allowed pops
  unfold State.popEntrySel
  cases state : s.popTryState with
  | head => simp [State.popHead,state,stays,pops,allowed.pops pops]
  | next => simp [stays,pops]
  | nextWait => simp [pops]

theorem pop_heads {p : Fin n} (sel : s.popSel = oneHot p) (k : Fin n) : (next s i).head k = (s.head k && decide (k ≠ p)) := by
  have back : popRbackBv i k = false := by simp [popRbackBv,pop_keeps allowed pops]
  rw [quiet_head (pop_quiet allowed pops),back,State.popTryBv,sel,pops]
  cases s.head k <;> simp [Deps.latch,oneHot]

-- After a pop the request is in flight, and the list goes on behind it.
theorem pop_phase (held' : Held (next s i) (requeue s i q)) {p : Fin n} {rest : List (Fin n)} (sel : s.popSel = oneHot p)
    (ptr : s.popTryPtr = p) (first : requeue s i q (s.nline p) = p :: rest)
    (heads : ∀ line k rest, requeue s i q line = k :: rest → k ≠ p → s.head k = true) :
    Phase (next s i) (requeue s i q) (flown s i) := by
  have quiet := pop_quiet allowed pops
  have line' : ∀ k, (next s i).nline k = s.nline k := quiet_nline quiet allowed
  have flew' : flown s i = some p := by rw [flown,if_pos pops,ptr]
  have others : ∀ line k more, requeue s i q line = k :: more → k ≠ p → (next s i).head k = true := by
    intro line k more begins other
    rw [pop_heads allowed pops sel,heads line k more begins other]
    simp [other]
  have ends := (held'.last (s.nline p) p (by simp [first]))
  rw [quiet_tail quiet,first] at ends
  have state' : (next s i).popTryState = s.follow.1 := by rw [← pop_follows allowed pops]; rfl
  have next' : (next s i).popTryNext = s.follow.2 := by rw [← pop_follows allowed pops]; rfl
  unfold Phase
  rw [state',next']
  cases rest with
  | nil =>
    have mark : s.tail p = true := ends.mpr rfl
    have stops : (any fun k => s.popSel k && !s.tail k) = false := by
      refine any_false.mpr fun k => ?_
      rw [sel]
      by_cases same : k = p
      · simp [same,mark]
      · simp [oneHot,same]
    simp only [State.follow,stops,Bool.false_eq_true,if_false]
    intro line k more begins
    by_cases same : k = p
    · subst same
      have place : line = s.nline k := by rw [← line',((held'.member k line).mp (by simp [begins])).2]
      rw [place,first] at begins
      exact .inr ⟨flew',(List.cons.inj begins).2.symm⟩
    · exact .inl (others line k more begins same)
  | cons r rest =>
    have unmarked : s.tail p = false := by
      have distinct := held'.nodup (s.nline p)
      rw [first] at distinct
      rw [← Bool.not_eq_true,ends,List.getLast?_cons_cons]
      intro last
      exact (List.nodup_cons.mp distinct).1 (List.mem_of_getLast? last)
    have goes : (any fun k => s.popSel k && !s.tail k) = true := any_true.mpr ⟨p,by simp [sel,unmarked]⟩
    have link : s.next p = r := by
      have chain := held'.linked (s.nline p)
      rw [first] at chain
      rw [← chain.second,quiet_next quiet]
    simp only [State.follow,goes,if_true]
    exact ⟨p,r,rest,flew',by rw [line',first],by rw [ptr,link,indexToBv],others⟩

theorem popping_pop (popping : Popping s q flying) (held : Held s q) : Popping (next s i) (requeue s i q) (flown s i) := by
  obtain ⟨p,rest,sel,ptr,first,here,heads⟩ := pop_first popping held allowed pops
  have quiet := pop_quiet allowed pops
  obtain ⟨granted,steady⟩ := popArb_next allowed popping held
  refine ⟨granted,steady,?_,?_,pop_phase allowed pops (quiet_held quiet allowed held popping) sel ptr first heads⟩
  · intro f flew
    rw [flown,if_pos pops,ptr,Option.some_inj] at flew
    subst flew
    exact ⟨by simp [pop_heads allowed pops sel],rest,by rw [quiet_nline quiet allowed,first]⟩
  · intro line k more begins j inside
    rw [pop_heads allowed pops sel,quiet_later allowed popping quiet begins inside,Bool.false_and]

end Pop

-- Without a pop a request in flight leaves the table or is put back as the head of its list.
section Still

variable (popping : Popping s q flying) (held : Held s q) (allowed : Allowed s flying i)
  (quiet : i.alloc = false ∧ i.allocAndLink = false) (still : i.popTry = false)

include still in
theorem unflown : flown s i = none := by rw [flown,still,if_neg Bool.false_ne_true]

include quiet still in
theorem still_heads (k : Fin n) : (next s i).head k = (s.head k || popRbackBv i k) := by
  rw [quiet_head quiet,State.popTryBv,still,Bool.and_false]
  cases s.head k <;> simp [Deps.latch]

include allowed in
omit [NeZero n] in
theorem put_back {k : Fin n} (back : popRbackBv i k = true) : flying = some k ∧ i.popCommit = false := by
  simp only [popRbackBv,indexToBv,Bool.and_eq_true,oneHot_true] at back
  cases flew : flying with
  | none =>
    rw [(allowed.silent flew).2] at back
    cases back.1
  | some f =>
    rcases allowed.answer f flew with ⟨_,_,stays⟩ | ⟨_,ptr,keeps,_⟩
    · rw [stays] at back
      cases back.1
    · exact ⟨congrArg some (back.2.trans ptr).symm,keeps⟩

include popping held allowed quiet still

theorem still_later {line : c.Nline} {k : Fin n} {rest : List (Fin n)} (begins : requeue s i q line = k :: rest) {j : Fin n}
    (inside : j ∈ rest) : (next s i).head j = false := by
  rw [still_heads quiet still,quiet_later allowed popping quiet begins inside,Bool.false_or]
  by_contra back
  rw [Bool.not_eq_false] at back
  obtain ⟨flew,keeps⟩ := put_back allowed back
  obtain ⟨_,more,first⟩ := popping.first j flew
  have same : requeue s i q = q := by simp [requeue,quiet.1,quiet.2,keeps]
  rw [same] at begins
  have place : line = s.nline j := ((held.member j line).mp (by rw [begins]; exact List.mem_cons_of_mem _ inside)).2.symm
  have distinct := held.nodup (s.nline j)
  rw [place,first] at begins
  rw [first,(List.cons.inj begins).2] at distinct
  exact (List.nodup_cons.mp distinct).1 inside

theorem still_head (state : s.popTryState = .head) : Phase (next s i) (requeue s i q) (flown s i) := by
  have phase := popping.phase
  have state' : (next s i).popTryState = .head := by simp [next,State.popEntrySel,State.popHead,state,still]
  unfold Phase at phase ⊢
  simp only [state] at phase
  simp only [state']
  intro line k rest begins
  left
  rcases requeue_quiet allowed popping quiet line with ⟨same,apart⟩ | ⟨f,flew,_,_,old⟩
  · rw [same] at begins
    rw [still_heads quiet still]
    rcases phase line k rest begins with set | ⟨flew,_⟩
    · rw [set,Bool.true_or]
    · have place : line = s.nline k := ((held.member k line).mp (by rw [begins]; exact List.mem_cons_self ..)).2.symm
      rcases allowed.answer k flew with ⟨commit,_⟩ | ⟨back,ptr,_⟩
      · exact absurd place (apart commit k flew)
      · simp [popRbackBv,indexToBv,back,ptr]
  · rw [begins] at old
    rcases phase line f (k :: rest) old with set | ⟨_,short⟩
    · rw [(popping.first f flew).1] at set
      cases set
    · cases short

-- The second request of the list waits once the first is done.
theorem still_next (state : s.popTryState = .next) : Phase (next s i) (requeue s i q) (flown s i) := by
  have phase := popping.phase
  unfold Phase at phase ⊢
  simp only [state] at phase
  obtain ⟨f,p,rest,flew,begins,cursor,heads⟩ := phase
  have line_p : s.nline p = s.nline f := ((held.member p _).mp (by rw [begins]; simp)).2
  rcases allowed.answer f flew with ⟨commit,_,stays⟩ | ⟨back,ptr,keeps,_⟩
  · have state' : s.popEntrySel i.popTry i.popRback = ⟨.nextWait,s.popTryNext⟩ := by simp [State.popEntrySel,state,still,stays]
    have phase' : (next s i).popTryState = .nextWait := congrArg Prod.fst state'
    have cursor' : (next s i).popTryNext = s.popTryNext := congrArg Prod.snd state'
    simp only [phase']
    have front : requeue s i q (s.nline f) = p :: rest := by
      rcases requeue_quiet allowed popping quiet (s.nline f) with ⟨_,apart⟩ | ⟨g,also,_,_,old⟩
      · exact absurd rfl (apart commit f flew)
      · rw [begins] at old
        exact (List.cons.inj old).2.symm
    refine ⟨unflown still,p,rest,by rw [quiet_nline quiet allowed,line_p,front],by rw [cursor',cursor],?_,?_⟩
    · rw [still_heads quiet still,popping.later _ f (p :: rest) begins p (List.mem_cons_self ..)]
      simp [popRbackBv,stays]
    · intro line k more first other
      rcases requeue_quiet allowed popping quiet line with ⟨same,apart⟩ | ⟨g,also,_,place,_⟩
      · rw [same] at first
        rw [still_heads quiet still,heads line k more first,Bool.true_or]
        rintro rfl
        exact apart commit k flew ((held.member k line).mp (by rw [first]; exact List.mem_cons_self ..)).2.symm
      · cases flew.symm.trans also
        rw [place,front] at first
        exact absurd (List.cons.inj first).1.symm other
  · have state' : (next s i).popTryState = .head := by simp [next,State.popEntrySel,state,back]
    have same : requeue s i q = q := by simp [requeue,quiet.1,quiet.2,keeps]
    simp only [state']
    rw [same]
    intro line k more first
    left
    rw [still_heads quiet still]
    by_cases mine : k = f
    · simp [popRbackBv,indexToBv,back,ptr,mine]
    · rw [heads line k more first mine,Bool.true_or]

omit held in
theorem still_nextWait (state : s.popTryState = .nextWait) : Phase (next s i) (requeue s i q) (flown s i) := by
  have phase := popping.phase
  unfold Phase at phase ⊢
  simp only [state] at phase
  obtain ⟨flew,p,rest,begins,cursor,cold,heads⟩ := phase
  have state' : s.popEntrySel i.popTry i.popRback = ⟨.nextWait,s.popTryNext⟩ := by simp [State.popEntrySel,state,still]
  have phase' : (next s i).popTryState = .nextWait := congrArg Prod.fst state'
  have cursor' : (next s i).popTryNext = s.popTryNext := congrArg Prod.snd state'
  have same : requeue s i q = q := by simp [requeue,quiet.1,quiet.2,(allowed.silent flew).1]
  simp only [phase',same]
  refine ⟨unflown still,p,rest,by rw [quiet_nline quiet allowed,begins],by rw [cursor',cursor],?_,?_⟩
  · rw [still_heads quiet still,cold]
    simp [popRbackBv,(allowed.silent flew).2]
  · intro line k more first other
    rw [still_heads quiet still,heads line k more first other,Bool.true_or]

theorem popping_still : Popping (next s i) (requeue s i q) (flown s i) := by
  obtain ⟨granted,steady⟩ := popArb_next allowed popping held
  refine ⟨granted,steady,?_,fun line k rest begins j inside => still_later popping held allowed quiet still begins inside,?_⟩
  · intro f flew
    rw [unflown still] at flew
    cases flew
  · cases state : s.popTryState with
    | head => exact still_head popping held allowed quiet still state
    | next => exact still_next popping held allowed quiet still state
    | nextWait => exact still_nextWait popping allowed quiet still state

end Still

section Fill

variable (popping : Popping s q flying) (held : Held s q) (allowed : Allowed s flying i) (fills : i.alloc = true ∨ i.allocAndLink = true)

include fills in
theorem fill_lists : requeue s i q = Function.update q i.allocReq.req.nline (q i.allocReq.req.nline ++ [newest s]) := by
  have more : (i.alloc || i.allocAndLink) = true := by simpa using fills
  rw [requeue,if_pos more]

include held allowed fills

theorem fill_old {line : c.Nline} {k : Fin n} (inside : k ∈ q line) : (next s i).head k = s.head k := by
  rw [fill_head allowed fills,if_neg]
  rintro rfl
  exact fill_new allowed fills ((held.member _ line).mp inside).1

-- A new list starts with a head, and a request that joins a list is none.
theorem fill_front {line : c.Nline} {k : Fin n} {rest : List (Fin n)} (begins : requeue s i q line = k :: rest) :
    (∃ before, q line = k :: before) ∨ (next s i).head k = true := by
  rw [fill_lists fills] at begins
  by_cases same : line = i.allocReq.req.nline
  · subst same
    rw [Function.update_self] at begins
    cases before : q i.allocReq.req.nline with
    | nil =>
      rw [before,List.nil_append] at begins
      cases begins
      have starts : i.alloc = true := by
        refine fills.resolve_right fun joins => ?_
        obtain ⟨hit,place⟩ := allowed.links joins
        rw [← place] at hit
        rw [(checkHit_none held).mpr before] at hit
        cases hit
      exact .inr (by rw [fill_head allowed fills,if_pos rfl,starts])
    | cons a before' =>
      rw [before,List.cons_append] at begins
      cases begins
      exact .inl ⟨before',rfl⟩
  · rw [Function.update_of_ne same] at begins
    exact .inl ⟨rest,begins⟩

include popping

theorem fill_later {line : c.Nline} {k : Fin n} {rest : List (Fin n)} (begins : requeue s i q line = k :: rest) {j : Fin n}
    (inside : j ∈ rest) : (next s i).head j = false := by
  rw [fill_lists fills] at begins
  by_cases same : line = i.allocReq.req.nline
  · subst same
    rw [Function.update_self] at begins
    cases before : q i.allocReq.req.nline with
    | nil =>
      rw [before,List.nil_append] at begins
      cases begins
      cases inside
    | cons a before' =>
      rw [before,List.cons_append] at begins
      cases begins
      rcases List.mem_append.mp inside with earlier | new
      · have here : j ∈ q i.allocReq.req.nline := by
          rw [before]
          exact List.mem_cons_of_mem _ earlier
        rw [fill_old held allowed fills here]
        exact popping.later _ k before' before j earlier
      · rw [List.mem_singleton] at new
        have joins : i.alloc = false := by
          by_contra starts
          rw [Bool.not_eq_false] at starts
          rw [(checkHit_none held).mp (allowed.fresh starts)] at before
          cases before
        rw [fill_head allowed fills,if_pos new,joins]
  · rw [Function.update_of_ne same] at begins
    have here : j ∈ q line := by
      rw [begins]
      exact List.mem_cons_of_mem _ inside
    rw [fill_old held allowed fills here]
    exact popping.later line k rest begins j inside

theorem fill_phase : Phase (next s i) (requeue s i q) (flown s i) := by
  obtain ⟨flew,still,_⟩ := allowed.fills fills
  have phase := popping.phase
  unfold Phase at phase ⊢
  cases state : s.popTryState with
  | head =>
    simp only [state] at phase
    have state' : (next s i).popTryState = .head := by simp [next,State.popEntrySel,State.popHead,state,still]
    simp only [state']
    intro line k rest begins
    left
    rcases fill_front held allowed fills begins with ⟨before,first⟩ | set
    · rw [fill_old held allowed fills (by rw [first]; exact List.mem_cons_self ..)]
      refine (phase line k before first).resolve_right ?_
      rw [flew]
      rintro ⟨wrong,_⟩
      cases wrong
    · exact set
  | next =>
    simp only [state] at phase
    obtain ⟨f,_,_,wrong,_⟩ := phase
    rw [flew] at wrong
    cases wrong
  | nextWait =>
    simp only [state] at phase
    obtain ⟨_,p,rest,begins,cursor,cold,heads⟩ := phase
    have state' : s.popEntrySel i.popTry i.popRback = ⟨.nextWait,s.popTryNext⟩ := by simp [State.popEntrySel,state,still]
    have phase' : (next s i).popTryState = .nextWait := congrArg Prod.fst state'
    have cursor' : (next s i).popTryNext = s.popTryNext := congrArg Prod.snd state'
    have inside : p ∈ q (s.nline p) := by
      rw [begins]
      exact List.mem_cons_self ..
    have here : s.valid p = true := ((held.member p _).mp inside).1
    simp only [phase']
    have stays : ∃ more, requeue s i q (s.nline p) = p :: more := by
      rw [fill_lists fills]
      by_cases same : s.nline p = i.allocReq.req.nline
      · rw [← same,Function.update_self,begins]
        exact ⟨_,rfl⟩
      · rw [Function.update_of_ne same,begins]
        exact ⟨_,rfl⟩
    obtain ⟨after,first⟩ := stays
    refine ⟨unflown still,p,after,by rw [fill_nline allowed fills p here,first],by rw [cursor',cursor],?_,?_⟩
    · rw [fill_old held allowed fills inside,cold]
    · intro line k more begins' other
      rcases fill_front held allowed fills begins' with ⟨before,first'⟩ | set
      · rw [fill_old held allowed fills (by rw [first']; exact List.mem_cons_self ..)]
        exact heads line k before first' other
      · exact set

theorem popping_fill : Popping (next s i) (requeue s i q) (flown s i) := by
  obtain ⟨granted,steady⟩ := popArb_next allowed popping held
  refine ⟨granted,steady,?_,fun line k rest begins j inside => fill_later popping held allowed fills begins inside,
    fill_phase popping held allowed fills⟩
  intro f flew
  rw [unflown (allowed.fills fills).2.1] at flew
  cases flew

end Fill

-- One cycle under the contract keeps the lists, with the request in flight at the front of its own.
theorem chains_next (popping : Popping s q flying) (held : Held s q) (allowed : Allowed s flying i) :
    Held (next s i) (requeue s i q) ∧ Popping (next s i) (requeue s i q) (flown s i) := by
  by_cases fills : i.alloc = true ∨ i.allocAndLink = true
  · exact ⟨fill_held allowed fills held,popping_fill popping held allowed fills⟩
  · rw [not_or,Bool.not_eq_true,Bool.not_eq_true] at fills
    refine ⟨quiet_held fills allowed held popping,?_⟩
    cases pops : i.popTry with
    | true => exact popping_pop allowed pops popping held
    | false => exact popping_still popping held allowed fills pops

theorem chains_reset (blank : Entry c δ) : Held (n := n) (reset blank) (fun _ => []) ∧ Popping (n := n) (reset blank) (fun _ => []) none := by
  refine ⟨⟨?_,fun _ => List.nodup_nil,fun _ => List.isChain_nil,?_⟩,granted_reset,⟨?_⟩,?_,?_,?_⟩
  · intro k line
    simp [reset]
  · intro _ _ wrong
    cases wrong
  · intro waits
    cases waits
  · intro f wrong
    cases wrong
  · intro _ _ _ wrong
    cases wrong
  · intro _ _ _ wrong
    cases wrong

end Sargantana.ReplayChains
