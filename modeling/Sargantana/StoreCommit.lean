import Sargantana.LsqIntegrity
import Sargantana.MemRequest

-- Stores are sent to the data cache as the commit stage acknowledges them.
namespace Sargantana.StoreCommit
open DracPkg LoadStoreQueue LsqRefinement LsqTraffic LsqIntegrity QueueTraffic StateMachine

variable {α : Type}

-- The queue under stage 0 with its handshake, beside the stores that the data cache has
-- taken since the last flush
structure State (α : Type) where
  tracked : Tracked α
  handshake : MemRequest.Handshake
  sent : List (MemInstr α)

-- stall_after_flush_lsq is a register of the handshake; the later stages are any.
def wired (t : State α) (i : LsqIntegrity.Input α) : LsqIntegrity.Input α :=
  { i with signals := { i.signals with stallAfterFlushLsq := t.handshake.stallAfterFlushLsq } }

-- is_amo_or_store is computed in exe_stage.
structure Contract (cfg : Config) [Inhabited α] (t : State α) (i : LsqIntegrity.Input α) : Prop where
  presented : Presented cfg t.tracked (wired t i)
  kind : i.queue.instruction.valid = true → i.queue.instruction.isAmoOrStore = isStoreOrAmo i.queue.instruction

section
variable [Inhabited α]

-- instruction_to_dcache
def shown (cfg : Config) (t : State α) (i : LsqIntegrity.Input α) : MemInstr α :=
  nextInstrExe cfg t.tracked.lsq (driven cfg t.tracked (wired t i))

def validInt (cfg : Config) (t : State α) (i : LsqIntegrity.Input α) : Bool :=
  let q := driven cfg t.tracked (wired t i)
  MemRequest.validInt t.tracked.stage (wired t i).signals q.flush (empty cfg t.tracked.lsq q)
    (blockedStore cfg t.tracked.lsq q) (shown cfg t i)

def req (cfg : Config) (t : State α) (i : LsqIntegrity.Input α) : MemRequest.ReqCpuDcache :=
  MemRequest.reqCpuDcache t.handshake (validInt cfg t i) (shown cfg t i)

-- A store or AMO is asserted, and not the dummy.
def StoreRequest (cfg : Config) (t : State α) (i : LsqIntegrity.Input α) : Prop :=
  (req cfg t i).valid = true ∧ (req cfg t i).isAmoOrStore = true ∧
    MemRequest.killedD t.handshake (validInt cfg t i) = false

def taken (cfg : Config) (t : State α) (i : LsqIntegrity.Input α) : List (MemInstr α) :=
  if validInt cfg t i && (shown cfg t i).isAmoOrStore && i.signals.ready then [shown cfg t i] else []

def next (cfg : Config) (t : State α) (i : LsqIntegrity.Input α) : State α where
  tracked := trackedNext cfg t.tracked (wired t i)
  handshake := MemRequest.next t.handshake (validInt cfg t i) i.signals.ready i.queue.flush
  sent := if i.queue.flush then [] else t.sent ++ taken cfg t i

def machine (cfg : Config) : Machine (State α) (LsqIntegrity.Input α) where
  initial := ⟨start,MemRequest.reset,[]⟩
  allowed := Contract cfg
  step := next cfg

end

def stores (items : List (MemInstr α)) : List (MemInstr α) := (items.map erase).filter (!isLoad ·)

structure Invariant (cfg : Config) (t : State α) : Prop where
  tracked : LsqIntegrity.Invariant cfg t.tracked
  pending : MemRequest.Pending t.handshake
  kinds : ∀ x ∈ t.tracked.came, x.isAmoOrStore = isStoreOrAmo x
  sent : (t.sent.map erase).Sublist (stores t.tracked.went)

variable {cfg : Config}

theorem held_kind {t : State α} (inv : Invariant cfg t) {x : MemInstr α}
    (inside : x ∈ StoreBuffer.contents t.tracked.lsq.storeBuffer ∨ x ∈ contents t.tracked.lsq) :
    x.isAmoOrStore = isStoreOrAmo x := by
  have moved : erase x ∈ t.tracked.came.map erase := by
    refine inv.tracked.conserved.mem_iff.mpr ?_
    simp only [trafficOf,List.mem_append]
    rcases inside with buffered | queued
    · exact .inl (.inr (List.mem_map_of_mem buffered))
    · exact .inr (List.mem_map_of_mem queued)
  obtain ⟨y,came,same⟩ := List.mem_map.mp moved
  have kind := inv.kinds y came
  have equal : (erase y).isAmoOrStore = (erase x).isAmoOrStore := congrArg MemInstr.isAmoOrStore same
  have type : (erase y).memType = (erase x).memType := congrArg MemInstr.memType same
  change y.isAmoOrStore = x.isAmoOrStore at equal
  change y.memType = x.memType at type
  rw [← equal,kind,isStoreOrAmo,isStoreOrAmo,type]

theorem stores_came {t : State α} (inv : Invariant cfg t) : stores t.tracked.came = stores t.tracked.went ++
    stores (StoreBuffer.contents t.tracked.lsq.storeBuffer) ++ stores (contents t.tracked.lsq) := by
  have lates := inv.tracked.ordered.lates
  simpa [trafficOf,stores] using lates

section
variable [Inhabited α]

-- A store that may be sent is the oldest: at the head of the buffer, or at the head of the
-- queue before an empty buffer.
theorem shown_store {t : State α} {i : LsqIntegrity.Input α} (inv : Invariant cfg t) (contract : Contract cfg t i)
    (clear : blockedStore cfg t.tracked.lsq (driven cfg t.tracked (wired t i)) = false)
    (valid : (shown cfg t i).valid = true) (store : (shown cfg t i).isAmoOrStore = true) :
    (storeInSb t.tracked.lsq (driven cfg t.tracked (wired t i)) = true ∧ shown cfg t i = stBuffInstOut t.tracked.lsq) ∨
    (stBuffEmpty t.tracked.lsq = true ∧ storeInLsq t.tracked.lsq (driven cfg t.tracked (wired t i)) = true ∧
      shown cfg t i = headInstr t.tracked.lsq) := by
  have loaded : ∀ x : MemInstr α, isLoad x = true → isStoreOrAmo x = false := by
    intro x load
    rw [Bool.eq_false_iff]
    intro both
    cases (store_not_load both).symm.trans load
  unfold shown at valid store ⊢
  cases shows cfg t.tracked.lsq (driven cfg t.tracked (wired t i)) with
  | bypass arrives same =>
    obtain ⟨_,load,incoming,_⟩ := arrives_parts (Bool.and_eq_true_iff.mp arrives).2
    have kind := contract.kind (incoming_parts incoming).1
    have came : (nextInstrExe cfg t.tracked.lsq (driven cfg t.tracked (wired t i))).isAmoOrStore =
        i.queue.instruction.isAmoOrStore := by
      rw [same,translatedInstr,instrToTranslate,incoming,if_pos rfl]
      rfl
    rw [came,kind,loaded i.queue.instruction load] at store
    cases store
  | load _ next _ same =>
    have kind := held_kind inv (.inr (head_member (isNextLoad_some next)))
    rw [same,kind,loaded _ (Bool.and_eq_true_iff.mp next).2] at store
    cases store
  | buffered _ front same => exact .inl ⟨front,same⟩
  | store away none front same =>
    have unloaded : isNextLoad t.tracked.lsq = false := by
      simp only [storeInLsq,isNextStore,Bool.and_eq_true] at front
      simp [isNextLoad,store_not_load front.1.2.2]
    refine .inr ⟨?_,front,same⟩
    simpa [blockedStore,away,loadInLsq,unloaded,none,front] using clear
  | nothing same =>
    rw [same] at valid
    cases valid

theorem shown_next {t : State α} {i : LsqIntegrity.Input α} (inv : Invariant cfg t) (contract : Contract cfg t i)
    (clear : blockedStore cfg t.tracked.lsq (driven cfg t.tracked (wired t i)) = false)
    (valid : (shown cfg t i).valid = true) (store : (shown cfg t i).isAmoOrStore = true) :
    ∃ rest, stores t.tracked.came = stores t.tracked.went ++ erase (shown cfg t i) :: rest := by
  have order := stores_came inv
  have split : ∀ items : List (MemInstr α), items = items.take 1 ++ items.drop 1 :=
    fun items => (List.take_append_drop 1 items).symm
  rcases shown_store inv contract clear valid store with ⟨front,same⟩ | ⟨empty,front,same⟩
  · have some := storeInSb_some front
    have kind : isLoad (erase (stBuffInstOut t.tracked.lsq)) = false := by
      refine store_not_load ?_
      rw [same,held_kind inv (.inl (buffer_member some))] at store
      exact store
    refine ⟨stores ((StoreBuffer.contents t.tracked.lsq.storeBuffer).drop 1) ++ stores (contents t.tracked.lsq),?_⟩
    rw [order,split (StoreBuffer.contents _),buffer_front some,same]
    simp [stores,kind]
  · have some := storeInLsq_some front
    have kind : isLoad (erase (headInstr t.tracked.lsq)) = false := by
      refine store_not_load ?_
      rw [same,held_kind inv (.inr (head_member some))] at store
      exact store
    have drained : StoreBuffer.contents t.tracked.lsq.storeBuffer = [] := by
      simp only [stBuffEmpty,StoreBuffer.empty,decide_eq_true_eq] at empty
      simp [StoreBuffer.contents,empty]
    refine ⟨stores ((contents t.tracked.lsq).drop 1),?_⟩
    rw [order,drained,split (contents _),contents_front some,← headInstr_eq,same]
    simp [stores,kind]

theorem valid_parts {t : State α} {i : LsqIntegrity.Input α} (valid : validInt cfg t i = true) :
    i.queue.flush = false ∧ blockedStore cfg t.tracked.lsq (driven cfg t.tracked (wired t i)) = false ∧
      (shown cfg t i).valid = true ∧ t.handshake.stallAfterFlushLsq = false ∧
      ((shown cfg t i).isAmoOrStore = true → MemUnit.commits i.signals = true) := by
  obtain ⟨straight,_,_,clear,asks⟩ := MemRequest.validInt_parts valid
  obtain ⟨present,still,commit⟩ := MemRequest.request_parts asks
  exact ⟨straight,clear,present,still,commit⟩

theorem taken_issued {t : State α} {i : LsqIntegrity.Input α} {x : MemInstr α} (found : x ∈ taken cfg t i) :
    issued cfg t.tracked.lsq (driven cfg t.tracked (wired t i)) = some x ∧ x = shown cfg t i ∧
      validInt cfg t i = true ∧ x.isAmoOrStore = true := by
  unfold taken at found
  split at found
  · rename_i goes
    simp only [Bool.and_eq_true] at goes
    obtain ⟨⟨valid,store⟩,ready⟩ := goes
    have same := List.mem_singleton.mp found
    obtain ⟨straight,stage,inside,clear,asks⟩ := MemRequest.validInt_parts valid
    obtain ⟨_,_,present,still,_⟩ := valid_parts valid
    have advances : MemUnit.advances (wired t i).signals (shown cfg t i) = true := by
      have free : (wired t i).signals.stallAfterFlushLsq = false := still
      have accepts : (wired t i).signals.ready = true := ready
      simp [MemUnit.advances,asks,free,accepts]
    have reads : (driven cfg t.tracked (wired t i)).readNext = true := by
      change MemUnit.readNext t.tracked.stage (wired t i).signals (driven cfg t.tracked (wired t i)).flush
        (empty cfg t.tracked.lsq (driven cfg t.tracked (wired t i)))
        (blockedStore cfg t.tracked.lsq (driven cfg t.tracked (wired t i))) (shown cfg t i) = true
      simp [MemUnit.readNext,straight,stage,inside,clear,advances]
    refine ⟨?_,same,valid,same ▸ store⟩
    rw [same]
    change (nextInstrExe cfg t.tracked.lsq (driven cfg t.tracked (wired t i))).valid = true at present
    simp [issued,straight,reads,present,shown]
  · cases found

theorem came_next (t : State α) (i : LsqIntegrity.Input α) : (next cfg t i).tracked.came =
    if i.queue.flush then []
    else t.tracked.came ++ (accepted t.tracked.lsq (driven cfg t.tracked (wired t i))).toList := by
  change (trackedNext cfg t.tracked (wired t i)).came = _
  unfold trackedNext
  change (if i.queue.flush then _ else _ : Tracked α).came = _
  split <;> rfl

theorem accepted_kind {t : State α} {i : LsqIntegrity.Input α} (contract : Contract cfg t i) {x : MemInstr α}
    (found : accepted t.tracked.lsq (driven cfg t.tracked (wired t i)) = some x) :
    x.isAmoOrStore = isStoreOrAmo x := by
  unfold accepted at found
  split at found
  · rename_i takes
    obtain rfl := Option.some.inj found
    exact contract.kind (Bool.and_eq_true_iff.mp takes).1
  · cases found

theorem next_sent {t : State α} {i : LsqIntegrity.Input α} (inv : Invariant cfg t) (contract : Contract cfg t i) :
    ((next cfg t i).sent.map erase).Sublist (stores (next cfg t i).tracked.went) := by
  cases straight : i.queue.flush with
  | true => simp [next,straight]
  | false =>
    have went : (next cfg t i).tracked.went = t.tracked.went ++
        (issued cfg t.tracked.lsq (driven cfg t.tracked (wired t i))).toList := by
      change (trackedNext cfg t.tracked (wired t i)).went = _
      unfold trackedNext
      change (if i.queue.flush then _ else _ : Tracked α).went = _
      rw [if_neg (by simp [straight])]
    have sent : (next cfg t i).sent = t.sent ++ taken cfg t i := by simp [next,straight]
    have now : ((taken cfg t i).map erase).Sublist
        (stores (issued cfg t.tracked.lsq (driven cfg t.tracked (wired t i))).toList) := by
      cases found : taken cfg t i with
      | nil => exact List.nil_sublist _
      | cons x rest =>
        have member : x ∈ taken cfg t i := by rw [found]; exact List.mem_cons_self
        obtain ⟨leaves,same,valid,store⟩ := taken_issued member
        have alone : rest = [] := by
          unfold taken at found
          split at found
          · exact (List.cons.inj found).2.symm
          · cases found
        obtain ⟨_,clear,present,_⟩ := valid_parts valid
        obtain ⟨_,order⟩ := shown_next inv contract clear present (same ▸ store)
        have late : isLoad (erase x) = false := by
          have inside : erase x ∈ stores t.tracked.came := by
            rw [order,same]
            exact List.mem_append_right _ List.mem_cons_self
          simpa using (List.mem_filter.mp inside).2
        rw [leaves,alone]
        simp [stores,late]
    have joined : stores (t.tracked.went ++ (issued cfg t.tracked.lsq (driven cfg t.tracked (wired t i))).toList) =
        stores t.tracked.went ++ stores (issued cfg t.tracked.lsq (driven cfg t.tracked (wired t i))).toList := by
      simp [stores]
    rw [went,sent,List.map_append,joined]
    exact inv.sent.append now

theorem step_invariant {t : State α} {i : LsqIntegrity.Input α} (inv : Invariant cfg t) (contract : Contract cfg t i) :
    Invariant cfg (next cfg t i) where
  tracked := LsqIntegrity.step_invariant inv.tracked contract.presented
  pending := MemRequest.next_pending _ _ _ _
  kinds := by
    intro x inside
    rw [came_next] at inside
    split at inside
    · cases inside
    · rcases List.mem_append.mp inside with old | new
      · exact inv.kinds x old
      · exact accepted_kind contract (Option.mem_toList.mp new)
  sent := next_sent inv contract

theorem trace_invariant {inputs : Nat → LsqIntegrity.Input α} (admits : Admits (machine cfg) inputs) (u : Nat) :
    Invariant cfg (trace (machine cfg) inputs u) := by
  refine (admits.reached u).invariant (Invariant cfg) ?_ ?_
  · refine ⟨LsqIntegrity.reached_invariant Reached.start,MemRequest.reset_pending,?_,List.Sublist.refl _⟩
    intro x inside
    cases inside
  · intro t i inv contract
    exact step_invariant inv contract

theorem came_recent (inputs : Nat → LsqIntegrity.Input α) (u : Nat) {x : MemInstr α}
    (inside : x ∈ (trace (machine cfg) inputs u).tracked.came) :
    ∃ w < u, (let t := trace (machine cfg) inputs w
        accepted t.tracked.lsq (driven cfg t.tracked (wired t (inputs w))) = some x) ∧
      ∀ v, w ≤ v → v < u → (inputs v).queue.flush = false := by
  induction u with
  | zero => cases inside
  | succ u ih =>
    change x ∈ (next cfg (trace (machine cfg) inputs u) (inputs u)).tracked.came at inside
    rw [came_next] at inside
    cases straight : (inputs u).queue.flush with
    | true => simp [straight] at inside
    | false =>
      rw [straight,if_neg (by decide)] at inside
      rcases List.mem_append.mp inside with old | new
      · obtain ⟨w,before,came,quiet⟩ := ih old
        refine ⟨w,by omega,came,?_⟩
        intro v after within
        by_cases last : v = u
        · rw [last]; exact straight
        · exact quiet v after (by omega)
      · refine ⟨u,by omega,Option.mem_toList.mp new,?_⟩
        intro v after within
        have last : v = u := by omega
        rw [last]
        exact straight

-- A store or AMO is asserted only in a cycle of its acknowledgement, next in the order of
-- arrival, and after it no flush; the data cache takes the stores in that order.
theorem no_speculative_store (inputs : Nat → LsqIntegrity.Input α) (admits : Admits (machine cfg) inputs) (u : Nat) :
    (StoreRequest cfg (trace (machine cfg) inputs u) (inputs u) →
      MemUnit.commits (inputs u).signals = true ∧
      ((shown cfg (trace (machine cfg) inputs u) (inputs u)).glIndex = (inputs u).queue.robStoreGlIdx ∨
        (shown cfg (trace (machine cfg) inputs u) (inputs u)).glIndex = (inputs u).queue.robStoreGlIdx + 1) ∧
      (∃ rest, stores (trace (machine cfg) inputs u).tracked.came = stores (trace (machine cfg) inputs u).tracked.went ++
        erase (shown cfg (trace (machine cfg) inputs u) (inputs u)) :: rest) ∧
      ∃ w < u, ∃ x, (let t := trace (machine cfg) inputs w
          accepted t.tracked.lsq (driven cfg t.tracked (wired t (inputs w))) = some x) ∧
        erase x = erase (shown cfg (trace (machine cfg) inputs u) (inputs u)) ∧
        ∀ v, w ≤ v → v ≤ u → (inputs v).queue.flush = false) ∧
    ((trace (machine cfg) inputs u).sent.map erase).Sublist (stores (trace (machine cfg) inputs u).tracked.came) := by
  have inv := trace_invariant admits u
  have contract := admits u
  generalize now : trace (machine cfg) inputs u = t at inv contract ⊢
  refine ⟨?_,?_⟩
  · rintro ⟨asserted,store,genuine⟩
    change (shown cfg t (inputs u)).isAmoOrStore = true at store
    have valid := MemRequest.valid_genuine inv.pending asserted genuine
    obtain ⟨straight,clear,present,_,commit⟩ := valid_parts valid
    obtain ⟨rest,order⟩ := shown_next inv contract clear present store
    refine ⟨commit store,?_,⟨rest,order⟩,?_⟩
    · have matching : acknowledged (driven cfg t.tracked (wired t (inputs u))) (shown cfg t (inputs u)) = true := by
        rcases shown_store inv contract clear present store with ⟨front,same⟩ | ⟨_,front,same⟩
        · rw [same]
          exact (Bool.and_eq_true_iff.mp front).2
        · rw [same]
          exact (Bool.and_eq_true_iff.mp front).2
      simp only [acknowledged,Bool.or_eq_true,beq_iff_eq] at matching
      exact matching
    · have inside : erase (shown cfg t (inputs u)) ∈ stores t.tracked.came := by
        rw [order]
        exact List.mem_append_right _ List.mem_cons_self
      obtain ⟨x,came,same⟩ := List.mem_map.mp (List.mem_filter.mp inside).1
      obtain ⟨w,before,arrived,quiet⟩ := came_recent inputs u (now ▸ came)
      refine ⟨w,before,x,arrived,same,?_⟩
      intro v after within
      by_cases last : v = u
      · rw [last]; exact straight
      · exact quiet v after (by omega)
  · rw [stores_came inv,List.append_assoc]
    exact inv.sent.trans (List.sublist_append_left _ _)

end

-- The store of index 7 comes in the first cycle and is acknowledged in the second.
def mapped : Config := ⟨true,false,[],[(0,1048576)]⟩

def acknowledges (x : MemInstr Unit) : LsqIntegrity.Input Unit :=
  { queue := ⟨x,true,false,false,false,7,⟨true,false,5,false,false⟩⟩, signals := MemUnit.calm }

def sample : Nat → LsqIntegrity.Input Unit
  | 0 => acknowledges (access .store 4096 7)
  | _ => acknowledges MemInstr.zero

theorem sample_admits : Admits (machine mapped) sample := by
  intro t
  cases t with
  | zero => exact ⟨⟨by decide,by decide⟩,by decide⟩
  | succ t =>
    refine ⟨⟨?_,?_⟩,?_⟩ <;> intro present <;> cases present

theorem no_speculative_store_sample :
    StoreRequest mapped (trace (machine mapped) sample 1) (sample 1) ∧
      MemUnit.commits (sample 1).signals = true ∧
      ((shown mapped (trace (machine mapped) sample 1) (sample 1)).glIndex = 7 ∨
        (shown mapped (trace (machine mapped) sample 1) (sample 1)).glIndex = 7 + 1) := by
  have asserted : StoreRequest mapped (trace (machine mapped) sample 1) (sample 1) := ⟨by decide,by decide,by decide⟩
  obtain ⟨commit,index,_⟩ := (no_speculative_store sample sample_admits 1).1 asserted
  exact ⟨asserted,commit,index⟩

end Sargantana.StoreCommit
