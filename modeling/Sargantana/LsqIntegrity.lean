import Sargantana.LsqTraffic
import Sargantana.LsqTranslation

namespace Sargantana.LsqIntegrity
open DracPkg LoadStoreQueue LsqRefinement LsqTraffic LsqTranslation Window QueueTraffic StateMachine

variable {α : Type}

-- The queue under stage 0 of the memory unit, beside what came and went since the
-- last flush, the queued instructions as they came and their translations.
structure Tracked (α : Type) where
  lsq : State α
  stage : MemUnit.Stage
  came : List (MemInstr α)
  went : List (MemInstr α)
  arrivals : List (MemInstr α)
  answers : List Answer

-- The memory unit drives read_next_i and rob_store_ack_i of `queue`.
structure Input (α : Type) where
  queue : LoadStoreQueue.Input α
  signals : MemUnit.Signals

def acknowledging (i : Input α) : LoadStoreQueue.Input α :=
  {i.queue with robStoreAck := MemUnit.commits i.signals}

structure Invariant (cfg : Config) (t : Tracked α) : Prop where
  valid : Valid t.lsq
  memory : ∀ k < held t.lsq, (cell t.lsq k).memType ≠ .notMem
  ordered : Ordered isLoad (trafficOf t.came t.went t.lsq)
  conserved : Conserved (trafficOf t.came t.went t.lsq)
  owned : Owned cfg t.lsq t.arrivals t.answers
  latest : t.arrivals <:+ t.came

-- What the queue promises in every state.
structure Integrity (cfg : Config) (t : Tracked α) : Prop where
  room : t.lsq.numToExe.val + t.lsq.numToTranslate.val ≤ 8
  count : ∀ i : LoadStoreQueue.Input α, i.flush = false → if full t.lsq i then
      t.lsq.numToExe.val + t.lsq.numToTranslate.val = 8 ∧ t.lsq.tail = t.lsq.head
    else t.lsq.numToExe.val + t.lsq.numToTranslate.val = (t.lsq.tail.val + 8 - t.lsq.head.val) % 8
  tlbTail : t.lsq.tlbTail.val = (t.lsq.head.val + t.lsq.numToExe.val) % 8
  own : ∀ k < t.lsq.numToExe.val, ∃ x a, t.arrivals[k]? = some x ∧ t.answers[k]? = some a ∧
    a.vpn = x.dataRs1.extractLsb' 12 28 ∧ cell t.lsq k = translate cfg a.lookup x ∧ (cell t.lsq k).translated = true
  arrivals : t.arrivals <:+ t.came ∧ t.arrivals.length = held t.lsq
  once : (t.came.map erase).Perm
    ((t.went ++ StoreBuffer.contents t.lsq.storeBuffer ++ contents t.lsq).map erase)
  loads : (t.came.map erase).filter isLoad = ((t.went ++ contents t.lsq).map erase).filter isLoad
  stores : (t.came.map erase).filter (!isLoad ·) =
    ((t.went ++ StoreBuffer.contents t.lsq.storeBuffer ++ contents t.lsq).map erase).filter (!isLoad ·)

variable {cfg : Config} {t : Tracked α} {i : Input α}

theorem integrity (inv : Invariant cfg t) : Integrity cfg t := by
  have room := inv.valid.room
  have place := congrArg Fin.val inv.valid.tail
  have asked := congrArg Fin.val inv.valid.tlbTail
  have head := t.lsq.head.isLt
  rw [shift_val] at place asked
  unfold held at room place
  refine ⟨room,?_,asked,?_,⟨inv.latest,inv.owned.arrived⟩,?_,?_,?_⟩
  · intro i straight
    split
    · rename_i full
      simp only [LoadStoreQueue.full,straight,Bool.or_false,decide_eq_true_eq] at full
      exact ⟨full,Fin.ext (by omega)⟩
    · rename_i free
      simp only [LoadStoreQueue.full,straight,Bool.or_false,decide_eq_true_eq] at free
      omega
  · intro k inside
    obtain ⟨x,arrival,translation⟩ := inv.owned.own k (Nat.lt_of_lt_of_le inside (Nat.le_add_right _ _))
    rw [if_pos inside] at translation
    obtain ⟨a,answer,page,_,same⟩ := translation
    exact ⟨x,a,arrival,answer,page,same,inv.valid.translated k inside⟩
  · simpa [trafficOf,Conserved] using inv.conserved
  · simpa [trafficOf] using inv.ordered.earlies
  · simpa [trafficOf] using inv.ordered.lates

variable [Inhabited α]

def driven (cfg : Config) (t : Tracked α) (i : Input α) : LoadStoreQueue.Input α :=
  let q := acknowledging i
  let next := MemUnit.readNext t.stage i.signals q.flush (empty cfg t.lsq q) (blockedStore cfg t.lsq q)
    (nextInstrExe cfg t.lsq q)
  {q with readNext := next}

def trackedNext (cfg : Config) (t : Tracked α) (i : Input α) : Tracked α :=
  let q := driven cfg t i
  let stage := MemUnit.nextStage t.stage i.signals q.flush
  if q.flush then ⟨next cfg t.lsq q,stage,[],[],[],[]⟩
  else ⟨next cfg t.lsq q,stage,t.came ++ (accepted t.lsq q).toList,t.went ++ (issued cfg t.lsq q).toList,
    nextArrivals cfg t.lsq q t.arrivals,nextAnswers cfg t.lsq q t.answers⟩

-- Memory instructions, presented only while full_o is low
structure Presented (cfg : Config) (t : Tracked α) (i : Input α) : Prop where
  room : i.queue.instruction.valid = true → full t.lsq (driven cfg t i) = false
  memory : i.queue.instruction.valid = true → i.queue.instruction.memType ≠ .notMem

instance (cfg : Config) (t : Tracked α) (i : Input α) : Decidable (Presented cfg t i) :=
  decidable_of_iff ((i.queue.instruction.valid = true → full t.lsq (driven cfg t i) = false) ∧
      (i.queue.instruction.valid = true → i.queue.instruction.memType ≠ .notMem))
    ⟨fun h => ⟨h.1,h.2⟩,fun h => ⟨h.room,h.memory⟩⟩

def start : Tracked α := ⟨reset,.resetState,[],[],[],[]⟩

def machine (cfg : Config) : Machine (Tracked α) (Input α) := ⟨start,Presented cfg,trackedNext cfg⟩

instance (cfg : Config) (t : Tracked α) (i : Input α) : Decidable ((machine cfg).allowed t i) :=
  inferInstanceAs (Decidable (Presented cfg t i))

theorem driven_reads (straight : (driven cfg t i).flush = false) (next : (driven cfg t i).readNext = true) :
    empty cfg t.lsq (driven cfg t i) = false ∧ blockedStore cfg t.lsq (driven cfg t i) = false := by
  have flush : (acknowledging i).flush = false := straight
  have reads : MemUnit.readNext t.stage i.signals false (empty cfg t.lsq (acknowledging i))
      (blockedStore cfg t.lsq (acknowledging i)) (nextInstrExe cfg t.lsq (acknowledging i)) = true := by
    rw [← flush]
    exact next
  exact (MemUnit.readNext_unblocked reads).2

-- mem_unit never reads an empty queue that has no bypass.
theorem driven_offered (presented : Presented cfg t i) : Offered cfg t.lsq (driven cfg t i) := by
  refine ⟨presented.room,?_⟩
  intro define next
  rw [Bool.eq_false_iff]
  intro arrives
  obtain ⟨none,_,incoming,_⟩ := arrives_parts arrives
  have straight := (full_parts (incoming_parts incoming).2.2).2
  have some := (driven_reads straight next).1
  simp [empty,bypassLsq,define,none] at some

theorem next_memory (inv : Invariant cfg t) (offered : Offered cfg t.lsq (driven cfg t i))
    (presented : Presented cfg t i) (straight : (driven cfg t i).flush = false)
    (k : Nat) (inside : k < held (next cfg t.lsq (driven cfg t i))) :
    (cell (next cfg t.lsq (driven cfg t i)) k).memType ≠ .notMem := by
  rcases next_cell inv.valid offered straight inside with ⟨within,same⟩ | ⟨_,write,same⟩
  · have old := inv.memory _ within
    rw [same]
    split <;> exact old
  · rw [writeEnable_eq inv.valid offered,Bool.and_eq_true] at write
    have new := presented.memory write.1
    rw [same]
    split <;> exact new

-- A load that passes by an empty queue leaves no arrival behind.
theorem next_latest (inv : Invariant cfg t) (offered : Offered cfg t.lsq q) :
    nextArrivals cfg t.lsq q t.arrivals <:+ t.came ++ (accepted t.lsq q).toList := by
  refine (List.drop_suffix _ _).trans ?_
  rw [accepted_eq offered,writeEnable_eq inv.valid offered]
  cases present : q.instruction.valid with
  | false => simpa using inv.latest
  | true =>
      cases pass : arrivesAtEmpty t.lsq q && q.readNext with
      | false =>
          obtain ⟨before,same⟩ := inv.latest
          exact ⟨before,by simp [← same]⟩
      | true =>
          obtain ⟨noExe,noTranslate,_⟩ := empty_parts (arrives_parts (Bool.and_eq_true_iff.mp pass).1).1
          have none : t.arrivals = [] := List.eq_nil_of_length_eq_zero (by rw [inv.owned.arrived,held,noExe,noTranslate])
          simp [none]

theorem step_invariant (inv : Invariant cfg t) (presented : Presented cfg t i) :
    Invariant cfg (trackedNext cfg t i) := by
  have offered := driven_offered presented
  have valid := next_valid inv.valid offered
  cases straight : (driven cfg t i).flush with
  | true =>
      have none : held (next cfg t.lsq (driven cfg t i)) = 0 := by simp [next,straight,held]
      have drained : StoreBuffer.contents (next cfg t.lsq (driven cfg t i)).storeBuffer = [] := by
        rw [next_storeBuffer,StoreBuffer.flush_contents straight]
      have exe : (next cfg t.lsq (driven cfg t i)).numToExe.val = 0 := by simp [next,straight]
      simp only [trackedNext,straight,if_true]
      refine ⟨valid,?_,?_,?_,⟨none.symm,exe.symm,?_⟩,List.suffix_refl _⟩
      · intro k inside
        exact absurd inside (by simp [none])
      · rw [empty_traffic none drained]
        exact ⟨rfl,rfl,rfl⟩
      · rw [empty_traffic none drained]
        exact List.Perm.refl _
      · intro k inside
        exact absurd inside (by simp [none])
  | false =>
      have traffic := next_traffic inv.valid offered straight t.came t.went
      simp only [trackedNext,straight,Bool.false_eq_true,if_false]
      refine ⟨valid,next_memory inv offered presented straight,?_,?_,next_owned inv.valid inv.owned offered straight,
        next_latest inv offered⟩
      · rw [traffic]
        exact step_ordered inv.ordered _ (move_legal (fun next => (driven_reads straight next).2) _ _)
      · rw [traffic]
        exact step_conserved inv.conserved _ _

theorem reached_invariant (reached : Reached (machine cfg) t) : Invariant cfg t := by
  refine reached.invariant (Invariant cfg) ?_ ?_
  · refine ⟨reset_valid,?_,⟨rfl,rfl,rfl⟩,List.Perm.refl _,⟨rfl,rfl,?_⟩,List.suffix_refl _⟩
    · intro k inside
      exact absurd inside (Nat.not_lt_zero _)
    · intro k inside
      exact absurd inside (Nat.not_lt_zero _)
  · intro t i inv presented
    exact step_invariant inv presented

-- A cycle that helps the queue to empty: the TLB hits, the data cache accepts and
-- the commit stage acknowledges the oldest store.
def draining (s : State α) : Input α where
  queue :=
    {instruction := MemInstr.zero
     enLdStTranslation := false
     flush := false
     readNext := false
     robStoreAck := false
     robStoreGlIdx := if s.storeBuffer.num = 0 then (headInstr s).glIndex else (stBuffInstOut s).glIndex
     dtlb := ⟨true,false,0,false,false⟩}
  signals := MemUnit.calm

def burden (t : Tracked α) : Nat :=
  3 * t.lsq.numToTranslate.val + 2 * t.lsq.numToExe.val + t.lsq.storeBuffer.num.val +
    (if t.stage = .resetState then 1 else 0)

theorem draining_presented : Presented cfg t (draining t.lsq) := by
  refine ⟨?_,?_⟩ <;> intro present <;> cases present

theorem draining_unblocked (inv : Invariant cfg t)
    (some : 0 < t.lsq.numToExe.val ∨ 0 < t.lsq.storeBuffer.num.val) :
    (loadInLsq cfg t.lsq = true ∨ storeInSb t.lsq (acknowledging (draining t.lsq)) = true ∨
      storeInLsq t.lsq (acknowledging (draining t.lsq)) = true ∨ ioLoadInLsq cfg t.lsq = true) ∧
    blockedStore cfg t.lsq (acknowledging (draining t.lsq)) = false := by
  by_cases buffered : t.lsq.storeBuffer.num = 0
  · have exe : 0 < t.lsq.numToExe.val := by
      rcases some with exe | store
      · exact exe
      · simp [buffered] at store
    have empty : stBuffEmpty t.lsq = true := by simp [stBuffEmpty,StoreBuffer.empty,buffered]
    have free : stBuffCollision t.lsq = false := StoreBuffer.empty_collision inv.valid.buffer buffered
    have kind := inv.memory 0 (Nat.lt_of_lt_of_le exe (Nat.le_add_right _ _))
    rw [← headInstr_eq] at kind
    have here : (0 : Fin 16) < t.lsq.numToExe := exe
    cases load : isLoad (headInstr t.lsq) with
    | true =>
        have next : isNextLoad t.lsq = true := by simp [isNextLoad,here,load]
        cases io : ioAddressSpace cfg t.lsq with
        | false =>
            have first : loadInLsq cfg t.lsq = true := by simp [loadInLsq,next,free,io]
            exact ⟨.inl first,by simp [blockedStore,first]⟩
        | true =>
            have last : ioLoadInLsq cfg t.lsq = true := by simp [ioLoadInLsq,next,free,io]
            exact ⟨.inr (.inr (.inr last)),by simp [blockedStore,next,empty,io]⟩
    | false =>
        have store : isStoreOrAmo (headInstr t.lsq) = true := by
          unfold isLoad at load
          unfold isStoreOrAmo
          cases type : (headInstr t.lsq).memType with
          | notMem => exact absurd type kind
          | load => simp [type] at load
          | store => rfl
          | amo => rfl
        have third : storeInLsq t.lsq (acknowledging (draining t.lsq)) = true := by
          simp [storeInLsq,isNextStore,acknowledged,acknowledging,draining,MemUnit.commits,MemUnit.calm,here,store,
            buffered]
        exact ⟨.inr (.inr (.inl third)),by simp [blockedStore,empty,third]⟩
  · have second : storeInSb t.lsq (acknowledging (draining t.lsq)) = true := by
      simp [storeInSb,stBuffEmpty,StoreBuffer.empty,acknowledged,acknowledging,draining,MemUnit.commits,MemUnit.calm,
        buffered]
    exact ⟨.inr (.inl second),by simp [blockedStore,second]⟩

theorem draining_reads (inv : Invariant cfg t) (ready : t.stage = .readHead)
    (some : 0 < t.lsq.numToExe.val ∨ 0 < t.lsq.storeBuffer.num.val) :
    (driven cfg t (draining t.lsq)).readNext = true := by
  obtain ⟨applies,clear⟩ := draining_unblocked inv some
  have away : arrivesAtEmpty t.lsq (acknowledging (draining t.lsq)) = false := by
    simp [arrivesAtEmpty,acknowledging,draining,MemInstr.zero]
  have quiet : bypassLsq cfg t.lsq (acknowledging (draining t.lsq)) = false := by simp [bypassLsq,away]
  have inside : emptyInt t.lsq = false := by
    rw [Bool.eq_false_iff]
    intro none
    obtain ⟨noExe,_,noStore⟩ := empty_parts none
    simp [noExe,noStore] at some
  have shown := shown_valid inv.valid quiet applies
  change MemUnit.readNext t.stage MemUnit.calm false (empty cfg t.lsq (acknowledging (draining t.lsq)))
    (blockedStore cfg t.lsq (acknowledging (draining t.lsq))) (nextInstrExe cfg t.lsq (acknowledging (draining t.lsq))) = true
  simp [MemUnit.readNext,ready,empty,inside,clear,MemUnit.calm_advances shown]

def helping (cfg : Config) (t : Tracked α) : LoadStoreQueue.Input α := driven cfg t (draining t.lsq)

theorem helping_silent : translateIncoming t.lsq (helping cfg t) = false ∧ writeEnable t.lsq (helping cfg t) = false := by
  refine ⟨?_,?_⟩
  · simp [translateIncoming,helping,driven,acknowledging,draining,MemInstr.zero]
  · simp [writeEnable,helping,driven,acknowledging,draining,MemInstr.zero]

theorem helping_moves (inv : Invariant cfg t) (offered : Offered cfg t.lsq (helping cfg t))
    (heavy : 0 < burden t) (ready : t.stage = .readHead) :
    0 < (translates cfg t.lsq (helping cfg t)).toNat ∨ 0 < popped cfg t.lsq (helping cfg t) ∨
      0 < (reads cfg t.lsq (helping cfg t)).sb.toNat := by
  by_cases waiting : 0 < t.lsq.numToTranslate.val
  · have present : (t.lsq.controlTable t.lsq.tlbTail).valid = true := by
      rw [inv.valid.tlbTail]
      exact inv.valid.valid _ (by unfold held; omega)
    have enable : translateEnable t.lsq (helping cfg t) = true := by
      rw [translateEnable,instrToTranslate,helping_silent.1,if_neg (by decide),present]
      rfl
    have queued : translatesQueued t.lsq (helping cfg t) = true := by simp [translatesQueued,enable,waiting]
    exact .inl (by rw [queued_translates inv.valid offered queued]; decide)
  · have some : 0 < t.lsq.numToExe.val ∨ 0 < t.lsq.storeBuffer.num.val := by
      simp only [burden,ready,reduceCtorEq,if_false] at heavy
      omega
    have inside : emptyInt t.lsq = false := by
      rw [Bool.eq_false_iff]
      intro none
      obtain ⟨noExe,_,noStore⟩ := empty_parts none
      simp [noExe,noStore] at some
    have enable : readEnable t.lsq (helping cfg t) = true := by
      have next : (helping cfg t).readNext = true := draining_reads inv ready some
      simp [readEnable,next,inside]
    rcases reads_progress enable (draining_unblocked inv some).1 with queue | buffer
    · exact .inr (.inl (by rw [popped,queue]; decide))
    · exact .inr (.inr (by rw [buffer]; decide))

theorem draining_lighter (inv : Invariant cfg t) (heavy : 0 < burden t) :
    burden (trackedNext cfg t (draining t.lsq)) < burden t := by
  have offered : Offered cfg t.lsq (helping cfg t) := driven_offered draining_presented
  have straight : (helping cfg t).flush = false := rfl
  have exe := @next_numToExe _ cfg t.lsq (helping cfg t) _ inv.valid straight
  have waiting := next_numToTranslate inv.valid offered straight
  have stores := @next_sbNum _ cfg t.lsq (helping cfg t) _ inv.valid straight
  have fits := translates_le inv.valid offered
  have pops := @popped_le _ cfg t.lsq (helping cfg t) _
  have parks := @parked_le _ cfg t.lsq (helping cfg t) _
  have buffered := @unbuffered_le _ cfg t.lsq (helping cfg t) _
  rw [helping_silent.2,Bool.toNat_false] at waiting fits
  have after : burden (trackedNext cfg t (draining t.lsq)) = 3 * (next cfg t.lsq (helping cfg t)).numToTranslate.val +
      2 * (next cfg t.lsq (helping cfg t)).numToExe.val + (next cfg t.lsq (helping cfg t)).storeBuffer.num.val := by
    cases stage : t.stage <;>
      simp [burden,trackedNext,helping,driven,acknowledging,draining,MemUnit.nextStage,MemUnit.calm,stage]
  rw [after]
  cases stage : t.stage with
  | resetState =>
      simp only [burden,stage,if_true]
      omega
  | readHead =>
      have moves := helping_moves inv offered heavy stage
      simp only [burden,stage,reduceCtorEq,if_false]
      omega

theorem drains (inv : Invariant cfg t) :
    ∃ inputs last, Runs (machine cfg) t inputs last ∧ (∀ i ∈ inputs, i.queue.flush = false) ∧ Invariant cfg last ∧
      last.came = t.came ∧ burden last = 0 := by
  induction weight : burden t using Nat.strong_induction_on generalizing t with
  | h n ih =>
      by_cases heavy : 0 < burden t
      · have presented : Presented cfg t (draining t.lsq) := draining_presented
        have lighter := draining_lighter inv heavy
        obtain ⟨inputs,last,path,quiet,kept,same,done⟩ :=
          ih _ (weight ▸ lighter) (step_invariant inv presented) rfl
        refine ⟨draining t.lsq :: inputs,last,.cons presented path,?_,kept,?_,done⟩
        · simpa [draining] using quiet
        · rw [same]
          simp [trackedNext,driven,acknowledging,draining,accepted,MemInstr.zero]
      · exact ⟨[],t,.nil,by simp,inv,rfl,by omega⟩

theorem queue_integrity (cfg : Config) (t : Tracked α)
    (reached : Reached (machine cfg) t) :
    Integrity cfg t ∧ ∃ inputs last, Runs (machine cfg) t inputs last ∧ (∀ i ∈ inputs, i.queue.flush = false) ∧
      last.came = t.came ∧ (t.came.map erase).Perm (last.went.map erase) ∧
      (t.came.map erase).filter isLoad = (last.went.map erase).filter isLoad ∧
      (t.came.map erase).filter (!isLoad ·) = (last.went.map erase).filter (!isLoad ·) := by
  have inv := reached_invariant reached
  obtain ⟨inputs,last,path,quiet,kept,same,done⟩ := drains inv
  obtain ⟨_,_,_,_,_,once,loads,stores⟩ := integrity kept
  have empty : contents last.lsq = [] ∧ StoreBuffer.contents last.lsq.storeBuffer = [] := by
    unfold burden at done
    refine ⟨?_,?_⟩
    · apply List.eq_nil_of_length_eq_zero
      simp only [contents,window_length,held]
      omega
    · apply List.eq_nil_of_length_eq_zero
      simp only [StoreBuffer.contents,window_length]
      omega
  rw [empty.1,empty.2,same] at once stores
  rw [empty.1,same] at loads
  simp only [List.append_nil] at once loads stores
  exact ⟨integrity inv,inputs,last,path,quiet,same,once,loads,stores⟩

-- A store misses in the TLB, a load follows it; the store moves to the buffer and
-- the load overtakes it.
def access (kind : MemType) (address : BitVec 64) (index : GlIndex) : MemInstr Unit :=
  {MemInstr.zero with
    valid := true
    memType := kind
    memSize := 3
    dataRs1 := address
    isAmoOrStore := kind != .load
    isStore := kind == .store
    glIndex := index
    loadMask := 1}

def cycle (x : MemInstr Unit) (hit : Bool) : Input Unit :=
  {queue := ⟨x,true,false,false,false,7,⟨true,!hit,5,false,false⟩⟩, signals := MemUnit.calm}

def simulation : Config := ⟨true,true,[],[(0,4096)]⟩

def overtaking : List (Input Unit) :=
  [cycle (access .store 4096 0) false,cycle (access .load 8200 1) true,cycle MemInstr.zero true,
    cycle MemInstr.zero true]

theorem queue_integrity_overtaking :
    Integrity simulation (overtaking.foldl (trackedNext simulation) start) ∧
      (overtaking.foldl (trackedNext simulation) start).went.map (·.glIndex) = [1] ∧
      (overtaking.foldl (trackedNext simulation) start).came.map (·.glIndex) = [0,1] := by
  have path : legal (machine simulation) start overtaking = true := by decide
  exact ⟨(queue_integrity simulation _ ⟨_,Runs.of_legal path⟩).1,by decide,by decide⟩

end Sargantana.LsqIntegrity
