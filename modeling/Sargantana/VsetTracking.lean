import Sargantana.VsetPipeline
import Sargantana.Lib.Scan

-- The queue holds the program order of the vsets, cycle after cycle.
namespace Sargantana.VsetTracking

open VsetQueue VsetPipeline Window StateMachine Scan

-- The queue with the last committed entry and the uncommitted ones behind it
structure Holds (q : VsetQueue.State) (committed : Entry) (es : List Entry) : Prop where
  held : window q.buffer q.lastCommitted (es.length + 1) = committed :: es
  index : q.indexLast = shift q.lastCommitted es.length
  tail : q.tail = shift q.lastCommitted (es.length + 1)
  num : q.num.val = es.length + 1
  room : es.length + 1 ≤ 8

theorem holds_reset : Holds VsetQueue.reset resetEntry [] := ⟨rfl,by decide,by decide,rfl,by decide⟩

theorem next_pointer (p : Fin 8) : p + 1 = shift p 1 := rfl

theorem misspred_num (last : Fin 8) (k : Nat) (small : k < 8) : (numInMisspred last (shift last k)).val = k + 1 := by
  have every : ∀ (last k : Fin 8), (numInMisspred last (shift last k.val)).val = k.val + 1 := by decide
  exact every last ⟨k,small⟩

-- A write leaves the entries alone: it goes to the cell behind them.
theorem buffer_kept {q : VsetQueue.State} {i : VsetQueue.Input} (holds : Holds q committed es) (short : k ≤ es.length + 1) :
    window (nextBuffer q i) q.lastCommitted k = (committed :: es).take k := by
  have before : window q.buffer q.lastCommitted k = (committed :: es).take k := by
    rw [← holds.held,window_take short]
  unfold nextBuffer
  split
  next write =>
    have place : es.length + 1 < 8 := by
      simp only [writeNewVset,Bool.and_eq_true,decide_eq_true_eq] at write
      have num := holds.num
      omega
    rw [holds.tail,window_beyond short place,before]
  next => exact before

theorem buffer_written {q : VsetQueue.State} {i : VsetQueue.Input} (holds : Holds q committed es) (write : writeNewVset q i = true) :
    window (nextBuffer q i) q.lastCommitted (es.length + 2) = committed :: (es ++ [i.entry]) := by
  have place : es.length + 1 < 8 := by
    simp only [writeNewVset,Bool.and_eq_true,decide_eq_true_eq] at write
    have num := holds.num
    omega
  unfold nextBuffer
  rw [if_pos write,holds.tail,window_push place,holds.held]
  rfl

theorem window_advance {table : Fin 8 → Entry} {start : Fin 8} (held : window table start (len + 1) = e :: es) :
    window table (shift start 1) len = es := by
  rw [window_cons] at held
  exact (List.cons.inj held).2

theorem holds_recover {q : VsetQueue.State} {i : VsetQueue.Input} (holds : Holds q committed es)
    (noBranch : i.recoverLastMisspredict = false) (recover : i.recoverLastCommitted = true) : Holds (VsetQueue.next q i) committed [] := by
  have head := buffer_kept (i := i) holds (k := 1) (by omega)
  simp only [VsetQueue.next,noBranch,recover]
  exact ⟨head,(shift_zero _).symm,next_pointer _,rfl,by decide⟩

theorem holds_misspredict {q : VsetQueue.State} {i : VsetQueue.Input} (holds : Holds q committed es)
    (recover : i.recoverLastMisspredict = true) (quiet : i.commited = false) (within : k ≤ es.length)
    (index : i.indexMisspredict = shift q.lastCommitted k) : Holds (VsetQueue.next q i) committed (es.take k) := by
  have room := holds.room
  have kept := buffer_kept (i := i) holds (k := k + 1) (by omega)
  have len : (es.take k).length = k := by simp [within]
  have stays : nextCommitted q i = false := by simp [nextCommitted,quiet]
  simp only [VsetQueue.next,recover,stays]
  refine ⟨?_,?_,?_,?_,?_⟩
  · rw [len]
    exact kept
  · rw [len]
    exact index
  · rw [len,shift_add]
    exact congrArg (· + 1) index
  · rw [len]
    exact index ▸ misspred_num q.lastCommitted k (by omega)
  · omega

theorem holds_misspredict_commit {q : VsetQueue.State} {i : VsetQueue.Input} (holds : Holds q committed (e :: es))
    (recover : i.recoverLastMisspredict = true) (commit : i.commited = true) (within : k ≤ es.length)
    (index : i.indexMisspredict = shift q.lastCommitted (k + 1)) : Holds (VsetQueue.next q i) e (es.take k) := by
  have room := holds.room
  have num := holds.num
  simp only [List.length_cons] at room num
  have kept := buffer_kept (i := i) holds (k := k + 2) (by simp; omega)
  have len : (es.take k).length = k := by simp [within]
  have moves : nextCommitted q i = true := by
    simp only [nextCommitted,commit,Bool.true_and,decide_eq_true_eq]
    omega
  have count := misspred_num q.lastCommitted (k + 1) (by omega)
  simp only [VsetQueue.next,recover,moves,Bool.and_self,if_true]
  refine ⟨?_,?_,?_,?_,?_⟩
  · rw [len]
    exact window_advance (e := committed) kept
  · rw [len]
    exact index.trans (by rw [Nat.add_comm,shift_add]; rfl)
  · rw [len]
    refine (congrArg (· + 1) index).trans ?_
    rw [next_pointer,← shift_add,Nat.add_comm (k + 1) 1,shift_add]
    rfl
  · rw [len,index]
    simp only [Fin.sub_def,count]
    simp only [Fin.val_one]
    omega
  · omega

-- Without a recovery a write and a commit act at the two ends.
def written (q : VsetQueue.State) (i : VsetQueue.Input) : VsetQueue.State :=
  ⟨q.lastCommitted,shift q.indexLast (one (writeNewVset q i)),shift q.tail (one (writeNewVset q i)),
    q.num + Fin.ofNat 16 (one (writeNewVset q i)),nextBuffer q i⟩

theorem holds_written {q : VsetQueue.State} {i : VsetQueue.Input} (holds : Holds q committed es) :
    Holds (written q i) committed (es ++ if writeNewVset q i then [i.entry] else []) := by
  have room := holds.room
  have num := holds.num
  by_cases write : writeNewVset q i = true
  · have small : q.num.val < 8 := by
      simp only [writeNewVset,Bool.and_eq_true,decide_eq_true_eq] at write
      exact write.2
    simp only [written,write,if_true,one]
    refine ⟨?_,?_,?_,?_,?_⟩
    · rw [List.length_append]
      exact buffer_written holds write
    · simp only [holds.index,List.length_append,List.length_singleton,← shift_add]
    · simp only [holds.tail,List.length_append,List.length_singleton,← shift_add]
    · simp only [Fin.add_def,List.length_append,List.length_singleton,Fin.ofNat,num]
      omega
    · simp only [List.length_append,List.length_singleton]
      omega
  · have kept := buffer_kept (i := i) holds (k := es.length + 1) (Nat.le_refl _)
    simp only [written,write,one,Bool.false_eq_true,if_false,List.append_nil,shift_zero]
    refine ⟨?_,holds.index,holds.tail,?_,room⟩
    · refine kept.trans ?_
      simp
    · simp only [Fin.add_def,Fin.ofNat,num]
      omega

theorem Holds.advance {q : VsetQueue.State} (holds : Holds q committed (e :: es)) :
    Holds ⟨shift q.lastCommitted 1,q.indexLast,q.tail,q.num - 1,q.buffer⟩ e es := by
  have room := holds.room
  have num := holds.num
  simp only [List.length_cons] at room num
  refine ⟨window_advance holds.held,?_,?_,?_,by omega⟩
  · rw [holds.index,List.length_cons,Nat.add_comm]
    exact shift_add _ _ _
  · rw [holds.tail,List.length_cons,Nat.add_comm]
    exact shift_add _ _ _
  · simp only [Fin.sub_def,num,Fin.val_one]
    omega

theorem holds_write {q : VsetQueue.State} {i : VsetQueue.Input} (holds : Holds q committed es)
    (noBranch : i.recoverLastMisspredict = false) (noTrap : i.recoverLastCommitted = false) (quiet : i.commited = false) :
    Holds (VsetQueue.next q i) committed (es ++ if writeNewVset q i then [i.entry] else []) := by
  have stays : nextCommitted q i = false := by simp [nextCommitted,quiet]
  have same : VsetQueue.next q i = written q i := by
    simp [VsetQueue.next,noBranch,noTrap,stays,written,one]
  rw [same]
  exact holds_written holds

theorem holds_commit {q : VsetQueue.State} {i : VsetQueue.Input} (holds : Holds q committed (e :: es))
    (noBranch : i.recoverLastMisspredict = false) (noTrap : i.recoverLastCommitted = false) (commit : i.commited = true) :
    Holds (VsetQueue.next q i) e (es ++ if writeNewVset q i then [i.entry] else []) := by
  have num := holds.num
  simp only [List.length_cons] at num
  have moves : nextCommitted q i = true := by
    simp only [nextCommitted,commit,Bool.true_and,decide_eq_true_eq]
    omega
  simp only [VsetQueue.next,noBranch,noTrap,moves,Bool.false_and,Bool.false_eq_true,if_false]
  exact (holds_written (i := i) holds).advance

-- Every branch in flight carries the index of the vset before it.
def pass (last : Fin 8) : Item → Fin 8
  | .vset _ _ => shift last 1
  | .branch _ => last

def carries (last : Fin 8) : Item → Prop
  | .vset _ _ => True
  | .branch index => index = last

def Marked (last : Fin 8) (items : List Item) : Prop := Along pass carries last items

theorem entries_append (one two : List Item) : entries (one ++ two) = entries one ++ entries two := by
  induction one with
  | nil => rfl
  | cons item rest ih => cases item <;> simp [entries,ih]

theorem entries_branches (only : ∀ item ∈ items, item.isBranch = true) : entries items = [] := by
  induction items with
  | nil => rfl
  | cons item rest ih =>
      have branch := only item (List.mem_cons_self ..)
      cases item with
      | vset => cases branch
      | branch => exact ih fun other inside => only other (List.mem_cons_of_mem _ inside)

theorem entries_drop (only : ∀ item ∈ items.take n, item.isBranch = true) : entries (items.drop n) = entries items := by
  conv => rhs; rw [← List.take_append_drop n items,entries_append,entries_branches only]
  rfl

theorem entries_take (items : List Item) (n : Nat) : entries (items.take n) = (entries items).take (entries (items.take n)).length := by
  have whole := congrArg entries (List.take_append_drop n items)
  rw [entries_append] at whole
  rw [← whole,List.take_left]

theorem entries_through {items : List Item} (here : items[p]? = some (.branch index)) : entries (items.take (p + 1)) = entries (items.take p) := by
  rw [List.take_add_one,here,entries_append]
  simp [entries]

theorem pass_entries (items : List Item) (last : Fin 8) : items.foldl pass last = shift last (entries items).length := by
  induction items generalizing last with
  | nil => exact (shift_zero last).symm
  | cons item rest ih =>
      cases item with
      | vset v e =>
          rw [List.foldl_cons,ih,entries,List.length_cons,Nat.add_comm,shift_add]
          rfl
      | branch index => exact ih last

theorem branch_still (item : Item) (branch : item.isBranch = true) (last : Fin 8) : pass last item = last := by
  cases item with
  | vset => cases branch
  | branch => rfl

theorem Marked.drop_branches (marked : Marked last items) (only : ∀ item ∈ items.take n, item.isBranch = true) : Marked last (items.drop n) :=
  Along.drop_still marked fun item inside => branch_still item (only item inside)

theorem Marked.carried (marked : Marked last items) (here : items[p]? = some (.branch index)) :
    index = shift last (entries (items.take p)).length := by
  have place : index = (items.take p).foldl pass last := Along.element marked here
  rwa [pass_entries] at place

structure Invariant (s : VsetPipeline.State) : Prop where
  holds : Holds s.queue s.committed (entries s.flight)
  marked : Marked s.queue.lastCommitted s.flight

theorem invariant_reset : Invariant VsetPipeline.reset := ⟨holds_reset,trivial⟩

theorem getLastD_eq (es : List Entry) (e : Entry) : (e :: es)[es.length]? = some (es.getLastD e) := by
  induction es generalizing e with
  | nil => rfl
  | cons f rest ih =>
      rw [List.length_cons,List.getElem?_cons_succ,ih f]
      cases rest <;> rfl

theorem holds_cell {q : VsetQueue.State} (holds : Holds q committed es) (inside : (committed :: es)[k]? = some e) :
    q.buffer (shift q.lastCommitted k) = e := by
  rw [← holds.held] at inside
  obtain ⟨bound,found⟩ := List.getElem?_eq_some_iff.mp inside
  rw [window_getElem] at found
  exact found

theorem Invariant.tracks {s : VsetPipeline.State} (invariant : Invariant s) : Tracks s := by
  obtain ⟨holds,marked⟩ := invariant
  have num := holds.num
  have room := holds.room
  refine ⟨?_,?_,?_,num,by omega⟩
  · unfold youngest
    rw [holds.index]
    exact holds_cell holds (getLastD_eq _ _)
  · have first := holds_cell holds (k := 0) (e := s.committed) rfl
    rwa [shift_zero] at first
  · intro e head
    have second := holds_cell holds (k := 1) (e := e) (by rw [List.getElem?_cons_succ,← List.head?_eq_getElem?,head])
    exact congrArg Entry.vtype second

theorem next_lastCommitted (q : VsetQueue.State) (i : VsetQueue.Input) (noTrap : i.recoverLastCommitted = false) :
    (VsetQueue.next q i).lastCommitted = shift q.lastCommitted (one (nextCommitted q i)) := by
  unfold VsetQueue.next
  cases recover : i.recoverLastMisspredict <;> cases moves : nextCommitted q i <;> simp [one,noTrap]

-- In a cycle without a recovery the queue takes exactly the vsets that stay.
theorem entering_entries {s : VsetPipeline.State} {i : VsetPipeline.Input} (invariant : Invariant s) (noTrap : exceptionNow i = false)
    (noBranch : i.misspredict = .none) (meets : Meets s i) :
    entries (entering s i) = if writeNewVset s.queue (queueInput s i) then [(queueInput s i).entry] else [] := by
  obtain ⟨_,flushed,lost,_⟩ := meets
  have quiet : recovers i = false := by simp [recovers,noTrap,noBranch]
  have num := invariant.holds.num
  have room := invariant.holds.room
  have fits : full s.queue = false → s.queue.num.val < 8 := by
    intro free
    have other : s.queue.num.val ≠ 8 := by simpa [full] using free
    omega
  have write : writeNewVset s.queue (queueInput s i) = (newVset s i && decide (s.queue.num.val < 8)) := rfl
  rw [write]
  unfold entering
  cases flush : flushing s with
  | true =>
      have refused : (newVset s i && decide (s.queue.num.val < 8)) = false := by
        simp only [flushedWrite,flush,quiet,Bool.not_false,Bool.true_and,Bool.and_eq_false_iff,Bool.not_eq_false'] at flushed
        rcases flushed with quiet | packed
        · simp [quiet]
        · have eight : s.queue.num.val = 8 := by simpa [full] using packed
          simp [eight]
      simp [refused,entries]
  | false =>
      cases decode : i.decode with
      | none => simp [newVset,decode,Decode.writes,entries]
      | branch => simp [newVset,decode,Decode.writes,entries]
      | vset v =>
          cases new : newVset s i with
          | false => simp [entries]
          | true =>
              have free : full s.queue = false := by
                simp only [newVset,decode,Decode.writes,Bool.or_eq_true,Bool.and_eq_true,Bool.not_eq_true',stallId,Bool.or_eq_false_iff] at new
                rcases new with ⟨_,_,free⟩ | clear
                · exact free
                · simpa [lostWrite,clear,quiet,flush] using lost
              simp [fits free,entries,queueInput,decode,Decode.entry]

theorem entering_marked {s : VsetPipeline.State} (invariant : Invariant s) (i : VsetPipeline.Input) :
    Marked (shift s.queue.lastCommitted (entries s.flight).length) (entering s i) := by
  unfold entering
  split
  · trivial
  · split
    · trivial
    · exact ⟨invariant.holds.index,trivial⟩
    · split
      · exact ⟨trivial,trivial⟩
      · trivial

theorem head_split {flight : List Item} (head : flight.head? = some item) : ∃ rest, flight = item :: rest := by
  cases flight with
  | nil => cases head
  | cons first rest =>
      cases head
      exact ⟨rest,rfl⟩

theorem quiet_commit {s : VsetPipeline.State} {i : VsetPipeline.Input} (allowed : Allowed s i) (quiet : i.commit ≠ .vset) :
    ∀ item ∈ s.flight.take i.commit.count, item.isBranch = true := by
  cases commit : i.commit with
  | none => simp [Commit.count]
  | branches n => exact (allowed.branches n commit).2
  | vset => exact absurd commit quiet
  | vleff vl => simp [Commit.count]

-- What a flush behind a fence drops are branches, and what commits is kept.
theorem dropped_branches {s : VsetPipeline.State} {i : VsetPipeline.Input} (noTrap : exceptionNow i = false)
    (noBranch : i.misspredict = .none) (meets : Meets s i) : ∀ item ∈ dropped s i, item.isBranch = true := by
  obtain ⟨_,_,_,kept⟩ := meets
  simpa [flushedVset,recovers,noTrap,noBranch] using kept

theorem held_dropped (s : VsetPipeline.State) (i : VsetPipeline.Input) : held s i ++ dropped s i = s.flight := by
  cases flush : s.csrEnable <;> simp [held,dropped,flush]

theorem entries_held {s : VsetPipeline.State} {i : VsetPipeline.Input} (noTrap : exceptionNow i = false)
    (noBranch : i.misspredict = .none) (meets : Meets s i) : entries (held s i) = entries s.flight := by
  conv => rhs; rw [← held_dropped s i,entries_append,entries_branches (dropped_branches noTrap noBranch meets),List.append_nil]

theorem held_along {s : VsetPipeline.State} (along : Along move fits start s.flight) (i : VsetPipeline.Input) :
    Along move fits start (held s i) := by
  rw [← held_dropped s i] at along
  exact (along_append.mp along).1

theorem held_commit {s : VsetPipeline.State} {i : VsetPipeline.Input} (allowed : Allowed s i) :
    (held s i).take i.commit.count = s.flight.take i.commit.count := by
  cases flush : s.csrEnable with
  | true => rw [held,flush,if_pos rfl,List.take_take,Nat.min_eq_left allowed.listed]
  | false => rw [held,flush]; rfl

theorem held_head {s : VsetPipeline.State} {i : VsetPipeline.Input} (allowed : Allowed s i) (commit : i.commit = .vset)
    (head : s.flight = item :: rest) : ∃ behind, held s i = item :: behind := by
  have same := held_commit allowed
  rw [commit,head] at same
  cases front : held s i with
  | nil => simp [front,Commit.count] at same
  | cons first behind =>
      simp only [front,Commit.count,List.take_succ_cons,List.take_zero,List.cons.injEq,and_true] at same
      exact ⟨behind,by rw [same]⟩

theorem commits_none {s : VsetPipeline.State} {i : VsetPipeline.Input} (quiet : i.commit ≠ .vset ∨ exceptionNow i = true) : commits s i = none := by
  unfold commits
  rw [if_neg]
  rintro ⟨vset,noTrap⟩
  rcases quiet with other | trap
  · exact other vset
  · simp [noTrap] at trap

theorem commits_head {s : VsetPipeline.State} {i : VsetPipeline.Input} (commit : i.commit = .vset) (noTrap : exceptionNow i = false)
    (head : s.flight = .vset v e :: rest) : commits s i = some (v,e) := by
  simp [commits,commit,noTrap,head]

section Step

variable {s : VsetPipeline.State} {i : VsetPipeline.Input}

theorem invariant_trap (invariant : Invariant s) (trap : exceptionNow i = true) (noBranch : i.misspredict = .none) :
    Invariant (VsetPipeline.next s i) := by
  have same : (VsetPipeline.next s i).committed = s.committed := by simp [VsetPipeline.next,commits_none (.inr trap)]
  have gone : (VsetPipeline.next s i).flight = [] := by simp [VsetPipeline.next,nextFlight,trap]
  refine ⟨?_,?_⟩
  · rw [same,gone]
    exact holds_recover invariant.holds (by simp [queueInput,noBranch]) trap
  · rw [gone]
    trivial

theorem last_quiet (quiet : i.commit ≠ .vset) (noTrap : exceptionNow i = false) :
    (VsetPipeline.next s i).queue.lastCommitted = s.queue.lastCommitted := by
  refine (next_lastCommitted _ _ noTrap).trans ?_
  simp [nextCommitted,queueInput,quiet,one]

theorem last_commit (invariant : Invariant s) (commit : i.commit = .vset) (noTrap : exceptionNow i = false)
    (head : s.flight = .vset v e :: rest) : (VsetPipeline.next s i).queue.lastCommitted = shift s.queue.lastCommitted 1 := by
  refine (next_lastCommitted _ _ noTrap).trans ?_
  have num := invariant.holds.num
  simp only [head,entries,List.length_cons] at num
  simp [nextCommitted,queueInput,commit,one,num]

theorem invariant_quiet (invariant : Invariant s) (allowed : Allowed s i) (meets : Meets s i) (noTrap : exceptionNow i = false)
    (noBranch : i.misspredict = .none) (quiet : i.commit ≠ .vset) : Invariant (VsetPipeline.next s i) := by
  have only := quiet_commit allowed quiet
  have same : (VsetPipeline.next s i).committed = s.committed := by simp [VsetPipeline.next,commits_none (.inl quiet)]
  have flight : (VsetPipeline.next s i).flight = (held s i).drop i.commit.count ++ entering s i := by
    simp [VsetPipeline.next,nextFlight,noTrap,noBranch]
  have kept := entries_held noTrap noBranch meets
  have marked : Marked s.queue.lastCommitted (held s i) := held_along invariant.marked i
  rw [← held_commit allowed] at only
  refine ⟨?_,?_⟩
  · rw [same,flight,entries_append,entries_drop only,kept,entering_entries invariant noTrap noBranch meets]
    exact holds_write invariant.holds (by simp [queueInput,noBranch]) noTrap (by simp [queueInput,quiet])
  · rw [flight,last_quiet quiet noTrap]
    refine along_append.mpr ⟨marked.drop_branches only,?_⟩
    rw [pass_entries,entries_drop only,kept]
    exact entering_marked invariant i

theorem invariant_commit (invariant : Invariant s) (allowed : Allowed s i) (meets : Meets s i)
    (noTrap : exceptionNow i = false) (noBranch : i.misspredict = .none) (commit : i.commit = .vset)
    (head : s.flight = .vset v e :: rest) : Invariant (VsetPipeline.next s i) := by
  obtain ⟨behind,front⟩ := held_head allowed commit head
  have holds := invariant.holds
  have marked : Marked s.queue.lastCommitted (held s i) := held_along invariant.marked i
  have entered := entering_marked invariant i
  have taken : (VsetPipeline.next s i).committed = e := by simp [VsetPipeline.next,commits_head commit noTrap head]
  have flight : (VsetPipeline.next s i).flight = behind ++ entering s i := by
    simp [VsetPipeline.next,nextFlight,noTrap,noBranch,commit,Commit.count,front]
  rw [← entries_held noTrap noBranch meets,front] at holds entered
  rw [front] at marked
  refine ⟨?_,?_⟩
  · rw [taken,flight,entries_append,entering_entries invariant noTrap noBranch meets]
    exact holds_commit holds (by simp [queueInput,noBranch]) noTrap (by simp [queueInput,commit])
  · rw [flight,last_commit invariant commit noTrap head]
    refine along_append.mpr ⟨marked.2,?_⟩
    rw [pass_entries,← shift_add,Nat.add_comm]
    exact entered

theorem carried_live (here : s.flight[p]? = some (.branch index)) (live : i.misspredict = .live p) :
    (queueInput s i).indexMisspredict = index := by
  simp [queueInput,live,carried,here]

theorem invariant_live_quiet (invariant : Invariant s) (allowed : Allowed s i) (noTrap : exceptionNow i = false)
    (live : i.misspredict = .live p) (quiet : i.commit ≠ .vset) : Invariant (VsetPipeline.next s i) := by
  obtain ⟨⟨retired,_⟩,index,here⟩ := allowed.live p live
  have only := quiet_commit allowed quiet
  have shorter : ∀ item ∈ (s.flight.take (p + 1)).take i.commit.count, item.isBranch = true := by
    rw [List.take_take,Nat.min_eq_left (by omega)]
    exact only
  have same : (VsetPipeline.next s i).committed = s.committed := by simp [VsetPipeline.next,commits_none (.inl quiet)]
  have flight : (VsetPipeline.next s i).flight = (s.flight.take (p + 1)).drop i.commit.count := by
    simp [VsetPipeline.next,nextFlight,noTrap,live]
  have place := invariant.marked.carried here
  refine ⟨?_,?_⟩
  · rw [same,flight,entries_drop shorter,entries_through here,entries_take]
    refine holds_misspredict invariant.holds (by simp [queueInput,live]) (by simp [queueInput,quiet]) ?_ ?_
    · rw [entries_take]
      exact List.length_take_le' ..
    · rw [carried_live here live]
      exact place
  · rw [flight,last_quiet quiet noTrap]
    exact Marked.drop_branches (Along.take invariant.marked _) shorter

theorem invariant_live_commit (invariant : Invariant s) (allowed : Allowed s i) (noTrap : exceptionNow i = false)
    (live : i.misspredict = .live p) (commit : i.commit = .vset) (head : s.flight = .vset v e :: rest) :
    Invariant (VsetPipeline.next s i) := by
  obtain ⟨⟨retired,_⟩,index,here⟩ := allowed.live p live
  have holds := invariant.holds
  have marked := invariant.marked
  have place := marked.carried here
  have taken : (VsetPipeline.next s i).committed = e := by simp [VsetPipeline.next,commits_head commit noTrap head]
  have flight : (VsetPipeline.next s i).flight = rest.take p := by
    simp [VsetPipeline.next,nextFlight,noTrap,live,commit,Commit.count,head]
  obtain ⟨q,rfl⟩ : ∃ q, p = q + 1 := ⟨p - 1,by simp [commit,Commit.count] at retired; omega⟩
  have carries := carried_live here live
  rw [head] at holds marked
  simp only [head,List.take_succ_cons,entries,List.length_cons,List.getElem?_cons_succ] at place here
  refine ⟨?_,?_⟩
  · rw [taken,flight,entries_through here,entries_take]
    refine holds_misspredict_commit holds (by simp [queueInput,live]) (by simp [queueInput,commit]) ?_ ?_
    · rw [entries_take]
      exact List.length_take_le' ..
    · rw [carries]
      exact place
  · rw [flight,last_commit invariant commit noTrap head]
    exact Along.take marked.2 _

theorem invariant_next (invariant : Invariant s) (allowed : Allowed s i) (meets : Meets s i) : Invariant (VsetPipeline.next s i) := by
  cases trap : exceptionNow i with
  | true =>
      have noBranch : i.misspredict = .none := by
        have late := meets.1
        cases recovery : i.misspredict with
        | none => rfl
        | live p => simp [lateRecovery,recovery,trap] at late
        | dead index => simp [lateRecovery,recovery] at late
      exact invariant_trap invariant trap noBranch
  | false =>
      have split : i.commit ≠ .vset ∨ ∃ v e rest, i.commit = .vset ∧ s.flight = .vset v e :: rest := by
        by_cases commit : i.commit = .vset
        · obtain ⟨v,e,head⟩ := allowed.vset commit trap
          obtain ⟨rest,cons⟩ := head_split head
          exact .inr ⟨v,e,rest,commit,cons⟩
        · exact .inl commit
      cases recovery : i.misspredict with
      | none =>
          rcases split with quiet | ⟨v,e,rest,commit,head⟩
          · exact invariant_quiet invariant allowed meets trap recovery quiet
          · exact invariant_commit invariant allowed meets trap recovery commit head
      | live p =>
          rcases split with quiet | ⟨v,e,rest,commit,head⟩
          · exact invariant_live_quiet invariant allowed trap recovery quiet
          · exact invariant_live_commit invariant allowed trap recovery commit head
      | dead index =>
          have late := meets.1
          simp [lateRecovery,recovery] at late

end Step

theorem invariant_along {inputs : Nat → VsetPipeline.Input} (admits : Admits machine inputs) {t : Nat}
    (meets : ∀ u < t, Meets (trace machine inputs u) (inputs u)) : Invariant (trace machine inputs t) := by
  induction t with
  | zero => exact invariant_reset
  | succ t ih => exact invariant_next (ih fun u before => meets u (by omega)) (admits t) (meets t (by omega))

theorem vset_queue_tracks (inputs : Nat → VsetPipeline.Input) (admits : Admits machine inputs) (t : Nat)
    (meets : ∀ u < t, Meets (trace machine inputs u) (inputs u)) : Tracks (trace machine inputs t) :=
  (invariant_along admits meets).tracks

def idle : VsetPipeline.Input := ⟨.none,false,false,.none,.none,false,false,false,2⟩

-- vsetivli with SEW 8
def setTo (avl : BitVec 5) : Vset := ⟨.vsetivli,1,avl,0,0,0⟩

-- A vset, a branch behind it, and one more cycle
def speculate (last : VsetPipeline.Input) : Nat → VsetPipeline.Input
  | 0 => { idle with decode := .vset (setTo 4) }
  | 1 => { idle with decode := .branch }
  | 2 => last
  | _ => idle

theorem allowed_quiet (s : VsetPipeline.State) (decode : Decode) (fence : Bool) (listed : Nat) :
    Allowed s { idle with decode := decode, fence := fence, listed := listed } := by
  refine ⟨?_,?_,?_,?_,?_,?_,?_,?_⟩ <;> simp [idle,exceptionNow,Commit.count]

theorem speculate_flight (last : VsetPipeline.Input) :
    (trace machine (speculate last) 2).flight = [.vset (setTo 4) (moduleEntry 0 (setTo 4)),.branch 1] := rfl

theorem speculate_admits (last : VsetPipeline.Input) (third : Allowed (trace machine (speculate last) 2) last) :
    Admits machine (speculate last) := by
  intro t
  match t with
  | 0 => exact allowed_quiet _ _ false 2
  | 1 => exact allowed_quiet _ _ false 2
  | 2 => exact third
  | t + 3 => exact allowed_quiet _ .none false 2

-- The branch is mispredicted while the vset before it commits and the one behind it is decoded.
def recover : VsetPipeline.Input := { idle with decode := .vset (setTo 8), commit := .vset, misspredict := .live 1 }

theorem recover_admits : Admits machine (speculate recover) := by
  refine speculate_admits recover ?_
  refine ⟨?_,?_,?_,?_,?_,?_,?_,?_⟩ <;> simp [recover,idle,exceptionNow,speculate_flight,Commit.count]

theorem vset_queue_tracks_recover : Admits machine (speculate recover) ∧ (trace machine (speculate recover) 3).committed.vl = 4 ∧
    (trace machine (speculate recover) 3).flight = [.branch 1] ∧ Tracks (trace machine (speculate recover) 3) := by
  refine ⟨recover_admits,by decide,by decide,vset_queue_tracks (speculate recover) recover_admits 3 ?_⟩
  intro u before
  match u, before with
  | 0, _ => decide
  | 1, _ => decide
  | 2, _ => decide

-- An older instruction traps in the same cycle as the branch is mispredicted.
def clash : VsetPipeline.Input := { idle with misspredict := .live 1, exception := true }

-- A fence commits in front of the vset, which is not in the graduation list yet.
def fenced : Nat → VsetPipeline.Input
  | 0 => { idle with decode := .vset (setTo 4) }
  | 1 => { idle with fence := true }
  | 2 => { idle with listed := 0 }
  | _ => idle

theorem fenced_admits : Admits machine fenced := by
  intro t
  match t with
  | 0 => exact allowed_quiet _ _ false 2
  | 1 => exact allowed_quiet _ .none true 2
  | 2 => exact allowed_quiet _ .none false 0
  | t + 3 => exact allowed_quiet _ .none false 2

theorem flushed_vset_stays :
    (Admits machine (speculate clash) ∧ (trace machine (speculate clash) 3).flight = [] ∧
      (youngest (trace machine (speculate clash) 3).queue).vl = 4 ∧ ¬ Tracks (trace machine (speculate clash) 3)) ∧
    Admits machine fenced ∧ (trace machine fenced 3).flight = [] ∧
      (youngest (trace machine fenced 3).queue).vl = 4 ∧ ¬ Tracks (trace machine fenced 3) := by
  refine ⟨⟨?_,by decide,by decide,?_⟩,fenced_admits,by decide,by decide,?_⟩
  · refine speculate_admits clash ?_
    refine ⟨?_,?_,?_,?_,?_,?_,?_,?_⟩ <;> simp [clash,idle,exceptionNow,speculate_flight,Commit.count]
  · intro tracks
    have one := tracks.num
    revert one
    decide
  · intro tracks
    have one := tracks.num
    revert one
    decide

end Sargantana.VsetTracking
