import Sargantana.LoadCompletion

-- What mem_unit presents to the write back stage, over whole runs.
namespace Sargantana.LoadDelivery
open DracPkg MemPipeline StateMachine LoadCompletion
open PendingMemReqQueue (Response Slot contents finishInstr)

variable {α δ : Type}

def Held (t : Tracked α δ) (n : Nat) : Prop := n ∈ t.queue ∨ t.born2 = some n ∨ t.born1 = some n

variable [Inhabited α] [Inhabited δ]

def Presented (reg : Bool) (inputs : Nat → Input α δ) (u n : Nat) (x : MemInstr α) (data : δ) : Prop :=
  presents reg (trace (machine reg) inputs u) (inputs u) = some (n,x,data)

-- The cache takes a load or an AMO of cacheable memory.
structure Accepted (reg : Bool) (inputs : Nat → Input α δ) (n : Nat) : Prop where
  taken : taken (trace (machine reg) inputs n).core (inputs n) = true
  reads : (inputs n).shown.isStore = false
  cacheable : ((inputs n).io && (inputs n).shown.isAmoOrStore) = false

-- The cache answers every request, and the last stage does not write back in every cycle:
-- the graduation list bounds the instructions that follow one that has not finished.
structure Fair (reg : Bool) (inputs : Nat → Input α δ) : Prop where
  answers : ∀ u tag n, (trace (machine reg) inputs u).outstanding tag = some n →
    ∃ v r, u ≤ v ∧ (inputs v).response = some r ∧ (trace (machine reg) inputs v).outstanding r.rd = some n
  drains : ∀ u, ∃ v, u ≤ v ∧ stageWb reg (trace (machine reg) inputs v).core (inputs v) = none

variable {reg : Bool} {inputs : Nat → Input α δ} {u v n : Nat}

theorem queue_step (straight : (inputs u).flush = false) : (trace (machine reg) inputs (u + 1)).queue =
    ((trace (machine reg) inputs u).queue ++ if pushes reg (trace (machine reg) inputs u).core (inputs u)
      then (lastBorn reg (trace (machine reg) inputs u)).toList else []).drop
        (popsQueue reg (trace (machine reg) inputs u).core (inputs u)).toNat := by
  change (trackedNext reg _ _).queue = _
  simp only [trackedNext,straight,Bool.false_eq_true,if_false]

theorem queue_index (straight : (inputs u).flush = false) {k : Nat} (place : (trace (machine reg) inputs u).queue[k]? = some n)
    (keeps : popsQueue reg (trace (machine reg) inputs u).core (inputs u) = false) :
    (trace (machine reg) inputs (u + 1)).queue[k]? = some n := by
  have inside := (List.getElem?_eq_some_iff.mp place).1
  rw [queue_step straight,keeps,Bool.toNat_false,List.drop_zero,List.getElem?_append_left inside]
  exact place

theorem presented_cases {x : MemInstr α} {data : δ} (shown : Presented reg inputs u n x data) :
    (writeback reg (trace (machine reg) inputs u).core (inputs u) = some (.response,x,data) ∧
      lastBorn reg (trace (machine reg) inputs u) = some n) ∨
    (writeback reg (trace (machine reg) inputs u).core (inputs u) = some (.queue,x,data) ∧
      (trace (machine reg) inputs u).queue.head? = some n) := by
  unfold Presented presents at shown
  split at shown
  · rename_i x' data' found
    obtain ⟨m,born,same⟩ := Option.map_eq_some_iff.mp shown
    cases same
    exact .inl ⟨found,born⟩
  · rename_i x' data' found
    obtain ⟨m,head,same⟩ := Option.map_eq_some_iff.mp shown
    cases same
    exact .inr ⟨found,head⟩
  · cases shown

theorem presented_response {x : MemInstr α} {data : δ} (born : lastBorn reg (trace (machine reg) inputs u) = some n)
    (found : writeback reg (trace (machine reg) inputs u).core (inputs u) = some (.response,x,data)) :
    Presented reg inputs u n x data := by
  simp [Presented,presents,found,born]

theorem presented_queue {x : MemInstr α} {data : δ} (head : (trace (machine reg) inputs u).queue.head? = some n)
    (found : writeback reg (trace (machine reg) inputs u).core (inputs u) = some (.queue,x,data)) :
    Presented reg inputs u n x data := by
  simp only [Presented,presents,found,head]
  rfl

theorem pops_writeback : popsQueue reg (trace (machine reg) inputs u).core (inputs u) = true ↔
    ∃ x data, writeback reg (trace (machine reg) inputs u).core (inputs u) = some (.queue,x,data) := by
  generalize (trace (machine reg) inputs u).core = s
  simp only [writeback_queue,popsQueue,Bool.and_eq_true,Option.isNone_iff_eq_none]
  rw [PendingMemReqQueue.finishInstr_head]
  cases (contents s.pmrq).head? with
  | none => simp
  | some slot => cases finished : slot.finishBit <;> simp [finished,Option.filter]

section
variable (inv : Invariant reg inputs u (trace (machine reg) inputs u))
include inv

theorem held_before (held : Held (trace (machine reg) inputs u) n) : n < u := by
  rcases held with waiting | second | first
  · have older := queue_older inv waiting
    omega
  · have place := (inv.born2 n second).1
    omega
  · have place := (inv.born1 n first).1
    omega

theorem last_held (born : lastBorn reg (trace (machine reg) inputs u) = some n) : Held (trace (machine reg) inputs u) n := by
  cases reg with
  | false => exact .inr (.inr born)
  | true => exact .inr (.inl born)

theorem last_not_queued (born : lastBorn reg (trace (machine reg) inputs u) = some n) : n ∉ (trace (machine reg) inputs u).queue := by
  intro waiting
  have older := queue_older inv waiting
  have place := (last_born inv born).1
  omega

theorem head_least {m : Nat} (head : (trace (machine reg) inputs u).queue.head? = some m)
    (held : Held (trace (machine reg) inputs u) n) (other : n ≠ m) : m < n := by
  obtain ⟨rest,queue⟩ : ∃ rest, (trace (machine reg) inputs u).queue = m :: rest := List.head?_eq_some_iff.mp head
  have sorted := inv.sorted
  have old := queue_older inv (queue ▸ List.mem_cons_self)
  rw [queue,List.pairwise_cons] at sorted
  rcases held with waiting | second | first
  · rw [queue] at waiting
    rcases List.mem_cons.mp waiting with same | behind
    · exact absurd same other
    · exact sorted.1 n behind
  · have place := (inv.born2 n second).1
    cases reg with
    | false => rw [(inv.single rfl).1] at second; cases second
    | true =>
      simp only [depth,if_true] at old
      omega
  · have place := (inv.born1 n first).1
    omega

theorem held_back (held : Held (trace (machine reg) inputs (u + 1)) n) : Held (trace (machine reg) inputs u) n ∨ n = u := by
  change Held (trackedNext reg (trace (machine reg) inputs u) (inputs u)) n at held
  unfold Held trackedNext at held
  cases straight : (inputs u).flush with
  | true => simp [straight] at held
  | false =>
    simp only [straight,Bool.false_or,Bool.false_eq_true,if_false] at held
    rcases held with waiting | second | first
    · left
      rcases List.mem_append.mp (List.mem_of_mem_drop waiting) with before | pushed
      · exact .inl before
      · split at pushed
        · exact last_held inv (Option.mem_toList.mp pushed)
        · cases pushed
    · left
      split at second
      · cases second
      · exact .inr (.inr second)
    · right
      split at first
      · rw [← Option.some.inj first,inv.time]
      · cases first

theorem presented_held {x : MemInstr α} {data : δ} (shown : Presented reg inputs u n x data) : Held (trace (machine reg) inputs u) n := by
  rcases presented_cases shown with ⟨_,born⟩ | ⟨_,head⟩
  · exact last_held inv born
  · exact .inl (List.mem_of_mem_head? head)

theorem presented_leaves {x : MemInstr α} {data : δ} (shown : Presented reg inputs u n x data) :
    ¬ Held (trace (machine reg) inputs (u + 1)) n := by
  intro held
  change Held (trackedNext reg (trace (machine reg) inputs u) (inputs u)) n at held
  have before := held_before inv (presented_held inv shown)
  unfold Held trackedNext at held
  cases straight : (inputs u).flush with
  | true => simp [straight] at held
  | false =>
    simp only [straight,Bool.false_or,Bool.false_eq_true,if_false] at held
    rcases held with waiting | second | first
    · rcases presented_cases shown with ⟨found,born⟩ | ⟨found,head⟩
      · have hit := (stageWb_response.mp (writeback_response.mp found).1).1
        have still : pushes reg (trace (machine reg) inputs u).core (inputs u) = false := by simp [pushes,hit]
        rw [still] at waiting
        simp only [Bool.false_eq_true,if_false,List.append_nil] at waiting
        exact last_not_queued inv born (List.mem_of_mem_drop waiting)
      · have pop := pops_writeback.mpr ⟨x,data,found⟩
        obtain ⟨rest,queue⟩ : ∃ rest, (trace (machine reg) inputs u).queue = n :: rest := List.head?_eq_some_iff.mp head
        rw [pop,queue,Bool.toNat_true,List.cons_append,List.drop_succ_cons,List.drop_zero] at waiting
        have sorted := inv.sorted
        rw [queue,List.pairwise_cons] at sorted
        rcases List.mem_append.mp waiting with behind | pushed
        · exact absurd (sorted.1 n behind) (Nat.lt_irrefl n)
        · split at pushed
          · exact last_not_queued inv (Option.mem_toList.mp pushed) (List.mem_of_mem_head? head)
          · cases pushed
    · split at second
      · cases second
      · rename_i registered
        rw [Bool.not_eq_true',Bool.not_eq_false] at registered
        have place := (inv.born1 n second).1
        rcases presented_cases shown with ⟨_,born⟩ | ⟨_,head⟩
        · have late := (last_born inv born).1
          rw [registered,depth,if_pos rfl] at late
          omega
        · have old := queue_older inv (List.mem_of_mem_head? head)
          rw [registered,depth,if_pos rfl] at old
          omega
    · split at first
      · rw [inv.time] at first
        have now := Option.some.inj first
        omega
      · cases first

theorem presented_sound {x : MemInstr α} {data : δ} (shown : Presented reg inputs u n x data) :
    Live reg inputs u n x ∧ Answered reg inputs (u + 1) n data := by
  rcases presented_cases shown with ⟨found,born⟩ | ⟨found,head⟩
  · obtain ⟨chosen,rfl,value⟩ := writeback_response.mp found
    obtain ⟨place,owns⟩ := last_born inv born
    obtain ⟨hit,store⟩ := stageWb_response.mp chosen
    obtain ⟨valid,r,came,here⟩ := (answers_iff _ _ _).mp hit
    have stage := last_stage inv
    have waits := owns.asked (stage.reads ((stage.kind valid).2 ▸ store))
    rw [came,Option.map_some,Option.getD_some] at value
    exact ⟨owns.live,value ▸ delivered_owner inv came here (Nat.le_of_eq place) waits⟩
  · obtain ⟨_,slot,first,finished,_,rfl,rfl⟩ := writeback_queue.mp found
    obtain ⟨rest,queue⟩ := List.head?_eq_some_iff.mp head
    obtain ⟨slots,table⟩ := List.head?_eq_some_iff.mp first
    have pairs := inv.queue
    rw [queue,table,List.forall₂_cons] at pairs
    refine ⟨pairs.1.live,?_⟩
    rcases pairs.1.state with ⟨_,_,answered⟩ | ⟨waiting,_⟩
    · exact answered.later
    · rw [finished] at waiting
      cases waiting

theorem waiting_or_presented (straight : (inputs u).flush = false)
    (waiting : n ∈ (trace (machine reg) inputs u).queue) :
    n ∈ (trace (machine reg) inputs (u + 1)).queue ∨ ∃ data, Presented reg inputs u n (inputs n).shown data := by
  have queue := @queue_step _ _ _ _ reg inputs u straight
  cases pop : popsQueue reg (trace (machine reg) inputs u).core (inputs u) with
  | false =>
    rw [pop,Bool.toNat_false,List.drop_zero] at queue
    exact .inl (queue ▸ List.mem_append_left _ waiting)
  | true =>
    obtain ⟨m,rest,shape⟩ := List.exists_cons_of_ne_nil (List.ne_nil_of_mem waiting)
    rw [shape] at waiting
    rcases List.mem_cons.mp waiting with rfl | behind
    · obtain ⟨x,data,found⟩ := pops_writeback.mp pop
      have shown : Presented reg inputs u n x data := presented_queue (by rw [shape]; rfl) found
      exact .inr ⟨data,(presented_sound inv shown).1.op ▸ shown⟩
    · rw [pop,shape,Bool.toNat_true,List.cons_append,List.drop_succ_cons,List.drop_zero] at queue
      exact .inl (queue ▸ List.mem_append_left _ behind)

theorem last_or_presented (accepted : Accepted reg inputs n) (straight : (inputs u).flush = false)
    (here : lastBorn reg (trace (machine reg) inputs u) = some n) :
    n ∈ (trace (machine reg) inputs (u + 1)).queue ∨ ∃ data, Presented reg inputs u n (inputs n).shown data := by
  have queue := @queue_step _ _ _ _ reg inputs u straight
  obtain ⟨_,live,_,_,io⟩ := last_born inv here
  have stage := last_stage inv
  have asked := stage.born
  rw [here,Option.isSome_some,eq_comm,Bool.and_eq_true] at asked
  obtain ⟨kind,store⟩ := stage.kind asked.1
  rw [← live.op,accepted.reads] at store
  have clean : (last reg (trace (machine reg) inputs u).core).instruction.ex.valid = false := by
    have ask := asked.2
    simp only [asks,Bool.and_eq_true,Bool.not_eq_true'] at ask
    exact ask.1
  have cacheable : ((last reg (trace (machine reg) inputs u).core).io && (last reg (trace (machine reg) inputs u).core).isStoreOrAmo) = false := by
    rw [io,kind,← live.op]
    exact accepted.cacheable
  cases hit : answers reg (trace (machine reg) inputs u).core (inputs u) with
  | true =>
    right
    have chosen := stageWb_response.mpr ⟨hit,store⟩
    have found := writeback_response.mpr ⟨chosen,live.op.symm,rfl⟩
    exact ⟨_,presented_response here found⟩
  | false =>
    left
    have push : pushes reg (trace (machine reg) inputs u).core (inputs u) = true := by
      simp [pushes,asked.1,hit,clean,cacheable,store]
    rw [queue,push,if_pos rfl,here,Option.toList_some]
    cases pop : popsQueue reg (trace (machine reg) inputs u).core (inputs u) with
    | false => simp
    | true =>
      have some := pops_some pop
      have length := inv.queue.length_eq
      rw [PendingMemReqQueue.contents_length] at length
      rw [Bool.toNat_true,List.drop_append_of_le_length (by omega)]
      simp

theorem held_or_presented (accepted : Accepted reg inputs n) (straight : (inputs u).flush = false)
    (held : Held (trace (machine reg) inputs u) n) :
    Held (trace (machine reg) inputs (u + 1)) n ∨ ∃ data, Presented reg inputs u n (inputs n).shown data := by
  rcases held with waiting | other
  · exact (waiting_or_presented inv straight waiting).imp_left .inl
  · by_cases here : lastBorn reg (trace (machine reg) inputs u) = some n
    · exact (last_or_presented inv accepted straight here).imp_left .inl
    · left; right; left
      cases reg with
      | false =>
        rcases other with second | first
        · rw [(inv.single rfl).1] at second
          cases second
        · exact absurd first here
      | true =>
        rcases other with second | first
        · exact absurd second here
        · change (trackedNext true _ _).born2 = some n
          simp [trackedNext,straight,first]

end

section
variable (admits : Admits (machine reg) inputs) (calm : ∀ u, Calm reg (trace (machine reg) inputs u) (inputs u))
include admits calm

theorem presented_gone {x : MemInstr α} {data : δ} (shown : Presented reg inputs u n x data) (later : u < v) :
    ¬ Held (trace (machine reg) inputs v) n := by
  have inv := trace_invariant admits calm
  have before := held_before (inv u) (presented_held (inv u) shown)
  induction v with
  | zero => omega
  | succ v ih =>
    intro held
    by_cases now : u = v
    · subst now
      exact presented_leaves (inv u) shown held
    · rcases held_back (inv v) held with earlier | new
      · exact ih (by omega) earlier
      · omega

theorem presented_once {x y : MemInstr α} {data other : δ} (one : Presented reg inputs u n x data)
    (two : Presented reg inputs v n y other) : u = v := by
  have inv := trace_invariant admits calm
  rcases Nat.lt_trichotomy u v with before | same | after
  · exact absurd (presented_held (inv v) two) (presented_gone admits calm one before)
  · exact same
  · exact absurd (presented_held (inv u) one) (presented_gone admits calm two after)

theorem held_earlier (held : Held (trace (machine reg) inputs u) n) (before : v ≤ u) (old : n < v) :
    Held (trace (machine reg) inputs v) n := by
  have inv := trace_invariant admits calm
  induction u with
  | zero => omega
  | succ u ih =>
    by_cases now : v = u + 1
    · exact now ▸ held
    · rcases held_back (inv u) held with earlier | new
      · exact ih earlier (by omega)
      · omega

theorem queue_ordered {x y : MemInstr α} {data other : δ} {m : Nat} (one : Presented reg inputs u n x data)
    (two : Presented reg inputs v m y other) (queued : fromQueue reg (trace (machine reg) inputs v) (inputs v) = true)
    (older : n < m) : u < v := by
  have inv := trace_invariant admits calm
  have head : (trace (machine reg) inputs v).queue.head? = some m := by
    rcases presented_cases two with ⟨found,_⟩ | ⟨_,head⟩
    · simp [fromQueue,found] at queued
    · exact head
  by_contra late
  have old := held_before (inv v) (presented_held (inv v) two)
  have held := held_earlier admits calm (presented_held (inv u) one) (by omega : v ≤ u) (by omega)
  have least := head_least (inv v) head held (by omega)
  omega

theorem accepted_held (accepted : Accepted reg inputs n) (straight : (inputs n).flush = false) :
    Held (trace (machine reg) inputs (n + 1)) n := by
  have time := (trace_invariant admits calm n).time
  right; right
  change (trackedNext reg _ _).born1 = some n
  simp [trackedNext,straight,accepted.taken,time]

-- No load is lost.
theorem held_until_presented (accepted : Accepted reg inputs n) (later : n < u)
    (quiet : ∀ v, n ≤ v → v < u → (inputs v).flush = false) :
    Held (trace (machine reg) inputs u) n ∨ ∃ v data, n < v ∧ v < u ∧ Presented reg inputs v n (inputs n).shown data := by
  induction u with
  | zero => omega
  | succ u ih =>
    by_cases now : n = u
    · subst now
      exact .inl (accepted_held admits calm accepted (quiet n (Nat.le_refl n) (Nat.lt_succ_self n)))
    · rcases ih (by omega) (fun v after before => quiet v after (by omega)) with held | ⟨v,data,after,before,shown⟩
      · rcases held_or_presented (trace_invariant admits calm u) accepted (quiet u (by omega) (by omega)) held with still | ⟨data,shown⟩
        · exact .inl still
        · exact .inr ⟨u,data,by omega,by omega,shown⟩
      · exact .inr ⟨v,data,after,by omega,shown⟩

theorem outstanding_back {tag : Fin 128} (asked : (trace (machine reg) inputs (u + 1)).outstanding tag = some n) :
    (n = u ∧ tag = (trace (machine reg) inputs u).core.handshake.tagId) ∨
      ((trace (machine reg) inputs u).outstanding tag = some n ∧ ∀ r, (inputs u).response = some r → r.rd ≠ tag) := by
  have time := (trace_invariant admits calm u).time
  change (trackedNext reg _ _).outstanding tag = some n at asked
  simp only [trackedNext] at asked
  split at asked
  · rename_i goes
    exact .inl ⟨(Option.some.inj asked).symm.trans time,goes.2⟩
  · split at asked
    · cases asked
    · rename_i silent
      refine .inr ⟨asked,?_⟩
      rintro r came rfl
      exact silent (by simp [came])

theorem outstanding_tag {tag : Fin 128} (asked : (trace (machine reg) inputs u).outstanding tag = some n) :
    tag = (trace (machine reg) inputs n).core.handshake.tagId := by
  induction u with
  | zero => cases asked
  | succ u ih =>
    rcases outstanding_back admits calm asked with ⟨rfl,same⟩ | ⟨before,_⟩
    · exact same
    · exact ih before

theorem served_gone {r : Response δ} (came : (inputs u).response = some r)
    (mine : (trace (machine reg) inputs u).outstanding r.rd = some n) (later : u < v) (tag : Fin 128) :
    (trace (machine reg) inputs v).outstanding tag ≠ some n := by
  have old := (trace_invariant admits calm u).past _ _ mine
  induction v with
  | zero => omega
  | succ v ih =>
    intro asked
    rcases outstanding_back admits calm asked with ⟨rfl,_⟩ | ⟨before,missed⟩
    · omega
    · by_cases now : u = v
      · subst now
        refine missed r came ?_
        rw [outstanding_tag admits calm mine,outstanding_tag admits calm before]
      · exact ih (by omega) before

theorem served_settled {r : Response δ} (came : (inputs u).response = some r)
    (mine : (trace (machine reg) inputs u).outstanding r.rd = some n) (later : u + 2 ≤ v) (tag : Fin 128) :
    ¬ Awaits (trace (machine reg) inputs v) tag n := by
  rintro (asked | ⟨born,_⟩)
  · exact served_gone admits calm came mine (by omega) tag asked
  · obtain ⟨w,rfl⟩ : ∃ w, v = w + 1 := ⟨v - 1,by omega⟩
    change (trackedNext reg _ _).respBorn = some n at born
    simp only [trackedNext] at born
    split at born
    · cases born
    · obtain ⟨r',_,asked⟩ := Option.bind_eq_some_iff.mp born
      exact served_gone admits calm came mine (by omega) r'.rd asked

theorem queued_served (fair : Fair reg inputs) (waiting : n ∈ (trace (machine reg) inputs u).queue) :
    ∃ v r, (inputs v).response = some r ∧ (trace (machine reg) inputs v).outstanding r.rd = some n := by
  have inv := trace_invariant admits calm u
  have each : ∀ n ∈ (trace (machine reg) inputs u).queue, ∃ slot, Holds reg inputs u (trace (machine reg) inputs u) n slot :=
    ((List.forall₂_and_left _ _).mp (inv.queue.imp fun _ slot holds => ⟨⟨slot,holds⟩,holds⟩)).1
  have answered : ∀ data, Answered reg inputs u n data →
      ∃ v r, (inputs v).response = some r ∧ (trace (machine reg) inputs v).outstanding r.rd = some n := by
    rintro data ⟨v,r,_,_,came,mine,_⟩
    exact ⟨v,r,came,mine⟩
  obtain ⟨slot,holds⟩ := each n waiting
  rcases holds.state with ⟨_,_,done⟩ | ⟨_,tag,_,asked | ⟨born,r,there,_⟩⟩
  · exact answered _ done
  · obtain ⟨v,r,_,rest⟩ := fair.answers u tag n asked
    exact ⟨v,r,rest⟩
  · obtain ⟨⟨m,owner,done⟩,_⟩ := inv.resp r there
    obtain rfl := Option.some.inj (owner.symm.trans born)
    exact answered _ done

theorem settled_pops {m : Nat} (head : (trace (machine reg) inputs u).queue.head? = some m)
    (settled : ∀ tag, ¬ Awaits (trace (machine reg) inputs u) tag m)
    (idle : stageWb reg (trace (machine reg) inputs u).core (inputs u) = none) :
    popsQueue reg (trace (machine reg) inputs u).core (inputs u) = true := by
  have pairs := (trace_invariant admits calm u).queue
  obtain ⟨rest,queue⟩ := List.head?_eq_some_iff.mp head
  rw [queue,List.forall₂_cons_left_iff] at pairs
  obtain ⟨slot,slots,holds,_,table⟩ := pairs
  have finished : slot.finishBit = true := by
    rcases holds.state with ⟨finished,_⟩ | ⟨_,tag,_,waits⟩
    · exact finished
    · exact absurd waits (settled tag)
  exact pops_writeback.mpr ⟨_,_,writeback_queue.mpr ⟨idle,slot,by rw [table]; rfl,finished,holds.valid,rfl,rfl⟩⟩

theorem head_pops (fair : Fair reg inputs) (quiet : ∀ v, u ≤ v → (inputs v).flush = false) {m : Nat}
    (head : (trace (machine reg) inputs u).queue[0]? = some m) :
    ∃ v, u ≤ v ∧ popsQueue reg (trace (machine reg) inputs v).core (inputs v) = true := by
  by_contra never
  have keeps : ∀ v, u ≤ v → popsQueue reg (trace (machine reg) inputs v).core (inputs v) = false := by
    intro v later
    rw [← Bool.not_eq_true]
    exact fun pop => never ⟨v,later,pop⟩
  have stays : ∀ d, (trace (machine reg) inputs (u + d)).queue[0]? = some m := by
    intro d
    induction d with
    | zero => exact head
    | succ d ih => exact queue_index (quiet (u + d) (by omega)) ih (keeps (u + d) (by omega))
  obtain ⟨w,r,came,mine⟩ := queued_served admits calm fair (List.mem_of_getElem? head)
  obtain ⟨v,later,idle⟩ := fair.drains (max u (w + 2))
  have here : (trace (machine reg) inputs v).queue.head? = some m := by
    have same : u + (v - u) = v := by omega
    rw [List.head?_eq_getElem?,← same]
    exact stays (v - u)
  have settled := served_settled admits calm came mine (v := v) (by omega)
  have pop := settled_pops admits calm here settled idle
  rw [keeps v (by omega)] at pop
  cases pop

-- The induction is on the place in the queue.
theorem queued_presented (fair : Fair reg inputs) (quiet : ∀ v, u ≤ v → (inputs v).flush = false) {k : Nat}
    (place : (trace (machine reg) inputs u).queue[k]? = some n) : ∃ v x data, Presented reg inputs v n x data := by
  induction k generalizing u with
  | zero =>
    obtain ⟨v,_,here,pop⟩ := holds_until (fun v => (trace (machine reg) inputs v).queue[0]? = some n)
      (fun v => popsQueue reg (trace (machine reg) inputs v).core (inputs v) = true) place
      (fun v later place keeps => queue_index (quiet v later) place (by simpa using keeps))
      (head_pops admits calm fair quiet place)
    obtain ⟨x,data,found⟩ := pops_writeback.mp pop
    exact ⟨v,x,data,presented_queue (by rw [List.head?_eq_getElem?]; exact here) found⟩
  | succ k ih =>
    have inside := (List.getElem?_eq_some_iff.mp place).1
    have first := List.getElem?_eq_getElem (by omega : 0 < (trace (machine reg) inputs u).queue.length)
    obtain ⟨v,later,here,pop⟩ := holds_until (fun v => (trace (machine reg) inputs v).queue[k + 1]? = some n)
      (fun v => popsQueue reg (trace (machine reg) inputs v).core (inputs v) = true) place
      (fun v later place keeps => queue_index (quiet v later) place (by simpa using keeps))
      (head_pops admits calm fair quiet first)
    refine ih (u := v + 1) (fun w after => quiet w (by omega)) ?_
    have within := (List.getElem?_eq_some_iff.mp here).1
    rw [queue_step (quiet v later),pop,Bool.toNat_true,List.getElem?_drop,Nat.add_comm 1 k,List.getElem?_append_left within]
    exact here

theorem accepted_presented (fair : Fair reg inputs) (accepted : Accepted reg inputs n)
    (quiet : ∀ v, n ≤ v → (inputs v).flush = false) : ∃ u data, Presented reg inputs u n (inputs n).shown data := by
  have inv := trace_invariant admits calm
  rcases held_until_presented admits calm accepted (by omega : n < n + 3) (fun v after _ => quiet v after) with held | ⟨u,data,_,_,shown⟩
  · rcases held with waiting | second | first
    · obtain ⟨k,place⟩ := List.mem_iff_getElem?.mp waiting
      obtain ⟨u,x,data,shown⟩ := queued_presented admits calm fair (fun v after => quiet v (by omega)) place
      exact ⟨u,data,(presented_sound (inv u) shown).1.op ▸ shown⟩
    · have place := ((inv (n + 3)).born2 n second).1
      omega
    · have place := ((inv (n + 3)).born1 n first).1
      omega
  · exact ⟨u,data,shown⟩

theorem writeback_presented {source : Source} {x : MemInstr α} {data : δ}
    (found : writeback reg (trace (machine reg) inputs u).core (inputs u) = some (source,x,data))
    (carries : source = .response ∨ source = .queue) (clean : x.ex.valid = false) : ∃ n, Presented reg inputs u n x data := by
  have inv := trace_invariant admits calm u
  rcases carries with rfl | rfl
  · obtain ⟨chosen,rfl,_⟩ := writeback_response.mp found
    obtain ⟨hit,store⟩ := stageWb_response.mp chosen
    have valid := ((answers_iff _ _ _).mp hit).1
    have stage := last_stage inv
    have ask : asks (last reg (trace (machine reg) inputs u).core).instruction = true := by
      cases kind : (last reg (trace (machine reg) inputs u).core).instruction.isAmoOrStore with
      | false => simp [asks,clean,kind]
      | true =>
        have mask := stage.amo kind ((stage.kind valid).2 ▸ store)
        simp only [asks,clean,kind,mask]
        rfl
    obtain ⟨n,born⟩ : ∃ n, lastBorn reg (trace (machine reg) inputs u) = some n := by
      apply Option.isSome_iff_exists.mp
      rw [stage.born,valid,ask]
      rfl
    exact ⟨n,presented_response born found⟩
  · obtain ⟨_,slot,first,_⟩ := writeback_queue.mp found
    obtain ⟨slots,table⟩ := List.head?_eq_some_iff.mp first
    have pairs := inv.queue
    rw [table,List.forall₂_cons_right_iff] at pairs
    obtain ⟨n,rest,_,_,queue⟩ := pairs
    exact ⟨n,presented_queue (by rw [queue]; rfl) found⟩

end

-- Loads and cacheable AMOs complete exactly once, with their own data and, through the
-- pending queue, in the order of their acceptance.
structure CompletesOnce (reg : Bool) (inputs : Nat → Input α δ) : Prop where
  pushed : ∀ u, pushes reg (trace (machine reg) inputs u).core (inputs u) = true →
    PendingMemReqQueue.writeEnable (trace (machine reg) inputs u).core.pmrq (pmrqInput reg (trace (machine reg) inputs u).core (inputs u)) = true
  own : ∀ u n x data, Presented reg inputs u n x data → Live reg inputs u n x ∧ Answered reg inputs (u + 1) n data
  known : ∀ u source x data, writeback reg (trace (machine reg) inputs u).core (inputs u) = some (source,x,data) →
    source = .response ∨ source = .queue → x.ex.valid = false → ∃ n, Presented reg inputs u n x data
  once : ∀ u v n x y data other, Presented reg inputs u n x data → Presented reg inputs v n y other → u = v
  ordered : ∀ u v n m x y data other, Presented reg inputs u n x data → Presented reg inputs v m y other →
    fromQueue reg (trace (machine reg) inputs u) (inputs u) = true → fromQueue reg (trace (machine reg) inputs v) (inputs v) = true →
    n < m → u < v
  kept : ∀ n u, Accepted reg inputs n → n < u → (∀ v, n ≤ v → v < u → (inputs v).flush = false) →
    Held (trace (machine reg) inputs u) n ∨ ∃ v data, n < v ∧ v < u ∧ Presented reg inputs v n (inputs n).shown data
  completes : Fair reg inputs → ∀ n, Accepted reg inputs n → (∀ v, n ≤ v → (inputs v).flush = false) →
    ∃! u, ∃ data, Presented reg inputs u n (inputs n).shown data

theorem loads_complete_once (reg : Bool) (inputs : Nat → Input α δ) (admits : Admits (machine reg) inputs)
    (calm : ∀ u, Calm reg (trace (machine reg) inputs u) (inputs u)) : CompletesOnce reg inputs where
  pushed := by
    intro u push
    rw [write_pushes (trace_invariant admits calm u)]
    exact push
  own := fun u _ _ _ shown => presented_sound (trace_invariant admits calm u) shown
  known := fun _ _ _ _ found carries clean => writeback_presented admits calm found carries clean
  once := fun _ _ _ _ _ _ _ one two => presented_once admits calm one two
  ordered := fun _ _ _ _ _ _ _ _ one two _ queued older => queue_ordered admits calm one two queued older
  kept := fun _ _ accepted later quiet => held_until_presented admits calm accepted later quiet
  completes := by
    intro fair n accepted quiet
    obtain ⟨u,data,shown⟩ := accepted_presented admits calm fair accepted quiet
    refine ⟨u,⟨data,shown⟩,?_⟩
    rintro v ⟨other,again⟩
    exact presented_once admits calm again shown

-- A load, and a load that faults; LW stands at 47 in instr_type_t.
def load (fault : Bool) : MemInstr Unit :=
  { (MemInstr.zero : MemInstr Unit) with valid := true, instrType := .other 47, memType := .load, vl := 1, velemIncr := 1, ex := ⟨fault,13,0⟩ }

def steady (shown : MemInstr Unit) (response : Option (Response Nat)) : Input Unit Nat :=
  ⟨shown,true,false,MemUnit.calm,false,response⟩

theorem steady_handshake {α δ : Type} [Inhabited α] [Inhabited δ] (reg : Bool) (stream : Nat → Input α δ)
    (ready : ∀ u, (stream u).signals.ready = true) (u : Nat) :
    (trace (machine reg) stream (u + 1)).core.handshake.regReadyResp = true ∧
      (trace (machine reg) stream (u + 1)).core.handshake.killedDcacheReq = false := by
  induction u with
  | zero =>
    refine ⟨ready 0,?_⟩
    change (MemRequest.next MemRequest.reset _ (stream 0).signals.ready _).killedDcacheReq = false
    simp [MemRequest.next,MemRequest.reset,MemRequest.reqValid,MemRequest.killedD]
  | succ u ih =>
    refine ⟨ready (u + 1),?_⟩
    change (MemRequest.next (trace (machine reg) stream (u + 1)).core.handshake _ (stream (u + 1)).signals.ready _).killedDcacheReq = false
    simp [MemRequest.next,MemRequest.reqValid,MemRequest.killedD,ih]

-- One load; the response comes when it waits in the pending queue.
def sample (u : Nat) : Input Unit Nat :=
  steady (if u = 0 then load false else MemInstr.zero) (if u = 3 then some ⟨0,7⟩ else none)

theorem sample_silent (u : Nat) : sent (trace (machine true) sample (u + 1)).core (sample (u + 1)) = false := by
  obtain ⟨ready,killed⟩ := steady_handshake true sample (fun _ => rfl) u
  have quiet : (request (trace (machine true) sample (u + 1)).core (sample (u + 1))).valid = false := by
    simp [request,MemUnit.request,MemInstr.zero,sample,steady]
  simp [sent,MemRequest.reqValid,MemRequest.killedD,quiet,ready,killed]

theorem sample_admits : Admits (machine true) sample := by
  intro u
  refine ⟨?_,?_,?_,?_,?_⟩
  · intro r came
    by_cases third : u = 3
    · subst third
      cases came
      decide
    · simp [sample,steady,third] at came
  · intro goes
    cases u with
    | zero => exact .inl rfl
    | succ u =>
      rw [sample_silent u] at goes
      cases goes
  · intro store
    by_cases first : u = 0 <;> simp [sample,steady,first,load,MemInstr.zero] at store
  · intro amo
    by_cases first : u = 0 <;> simp [sample,steady,first,load,MemInstr.zero] at amo
  · intro _
    by_cases first : u = 0 <;> simp [sample,steady,first,load,MemInstr.zero,needRsp]

theorem sample_calm (u : Nat) : Calm true (trace (machine true) sample u) (sample u) := by
  intro r came valid
  cases u with
  | zero => cases came
  | succ u =>
    by_cases third : u = 3
    · subst third
      exact absurd valid (by decide)
    · change (sample u).response = some r at came
      simp [sample,steady,third] at came

theorem loads_complete_once_sample : Admits (machine true) sample ∧ CompletesOnce true sample ∧
    Presented true sample 5 0 (load false) 7 :=
  ⟨sample_admits,loads_complete_once true sample sample_admits sample_calm,rfl⟩

-- The first load waits. The tags have gone round when a load faults, which takes no tag
-- but is compared with that of the next request.
def wrapped (u : Nat) : Input Unit Nat :=
  steady (if u < 128 then load false else if u = 128 then load true else MemInstr.zero)
    (if 2 ≤ u ∧ u ≤ 128 then some ⟨Fin.ofNat 128 (u - 1),7⟩ else if u = 129 then some ⟨0,7⟩ else none)

def waitingQueue : PendingMemReqQueue.State Unit Nat :=
  ⟨Function.update (fun _ => ⟨MemInstr.zero,0,none,false⟩) 0 ⟨load false,0,some 0,false⟩,0,1,1⟩

def crowded (u : Nat) : Tracked Unit Nat where
  core :=
    { handshake := ⟨Fin.ofNat 128 (min u 128),true,decide (u ≤ 128),false,false⟩
      s1 := ⟨if u ≤ 128 then load false else if u = 129 then load true else MemInstr.zero,false,false,false,
        if u ≤ 128 then Fin.ofNat 128 (u - 1) else 0⟩
      s2 := .zero
      respQ := none
      fullPmrqQ := false
      pmrq := waitingQueue }
  time := u
  outstanding := fun tag =>
    if tag = 0 ∧ u ≤ 129 then some 0 else if tag.val + 1 = u ∧ u ≤ 128 then some tag.val else none
  born1 := if u ≤ 128 then some (u - 1) else none
  born2 := none
  respBorn := none
  queue := [0]

theorem steady_request {s : State Unit Nat} {shown : MemInstr Unit} {response : Option (Response Nat)}
    (room : s.fullPmrqQ = false) (free : s.handshake.stallAfterFlushLsq = false) :
    request s (steady shown response) = MemUnit.request MemUnit.calm shown := by
  have same : wired s (steady shown response) = MemUnit.calm := by
    simp only [wired,steady,room,free]
    rfl
  simp only [request,same]
  rfl

theorem crowded_request (u : Nat) : request (crowded u).core (wrapped u) =
    if u < 128 then ⟨true,false,true⟩ else if u = 128 then ⟨false,false,true⟩ else ⟨false,false,false⟩ := by
  rw [wrapped,steady_request rfl rfl]
  by_cases early : u < 128
  · simp only [early,if_true]
    rfl
  · by_cases now : u = 128
    · simp only [now,if_true]
      rfl
    · simp only [early,now,if_false]
      rfl

theorem crowded_answers {u : Nat} (start : 2 ≤ u) : answers false (crowded u).core (wrapped u) = decide (u ≤ 129) := by
  by_cases early : u ≤ 128
  · simp [answers,last,delivered,crowded,wrapped,steady,early,start,load]
    omega
  · by_cases now : u = 129
    · simp [now,answers,last,delivered,crowded,wrapped,steady,load]
    · simp [early,now,answers,last,crowded,MemInstr.zero]
      omega

theorem crowded_stageWb {u : Nat} (start : 2 ≤ u) : stageWb false (crowded u).core (wrapped u) =
    if u ≤ 129 then some .response else none := by
  by_cases early : u ≤ 129
  · rw [if_pos early]
    exact stageWb_response.mpr ⟨by rw [crowded_answers start,decide_eq_true early],rfl⟩
  · have empty : (last false (crowded u).core).instruction.valid = false := by
      simp only [last,crowded,Bool.false_eq_true,if_false,if_neg (show ¬ u ≤ 128 by omega),if_neg (show ¬ u = 129 by omega)]
      rfl
    simp [stageWb,empty,early]

theorem waiting_head : finishInstr waitingQueue = none := rfl

theorem crowded_pushes {u : Nat} (start : 2 ≤ u) : pushes false (crowded u).core (wrapped u) = false := by
  by_cases early : u ≤ 129
  · simp [pushes,crowded_answers start,early]
  · simp only [pushes,last,crowded,Bool.false_eq_true,if_false,if_neg (show ¬ u ≤ 128 by omega),if_neg (show ¬ u = 129 by omega)]
    rfl

theorem crowded_pops {u : Nat} : popsQueue false (crowded u).core (wrapped u) = false := by
  simp [popsQueue,show (crowded u).core.pmrq = waitingQueue from rfl,waiting_head]

theorem crowded_pmrq {u : Nat} (start : 2 ≤ u) :
    PendingMemReqQueue.next waitingQueue (pmrqInput false (crowded u).core (wrapped u)) = waitingQueue := by
  have lost : replay false (crowded u).core (wrapped u) = none := by
    by_cases early : u ≤ 129
    · simp [replay,crowded_answers start,early]
    · simp [replay,delivered,wrapped,steady,show ¬ u ≤ 128 by omega,show ¬ u = 129 by omega]
  refine PendingMemReqQueue.next_idle ?_ lost rfl crowded_pops
  simp [pmrqInput,crowded_pushes start,MemInstr.zero]

theorem crowded_valid (u : Nat) : (request (crowded u).core (wrapped u)).valid = decide (u < 128) := by
  rw [crowded_request]
  by_cases early : u < 128
  · simp [early]
  · by_cases now : u = 128 <;> simp [early,now]

theorem crowded_handshake (u : Nat) : MemRequest.next (crowded u).core.handshake (request (crowded u).core (wrapped u)).valid true false =
    (crowded (u + 1)).core.handshake := by
  rw [crowded_valid]
  by_cases early : u < 128
  · have tag : Fin.ofNat 128 (min u 128) + 1 = Fin.ofNat 128 (min (u + 1) 128) := by
      apply Fin.ext
      simp [Fin.val_add,Nat.min_eq_left (show u ≤ 128 by omega),Nat.min_eq_left (show u + 1 ≤ 128 by omega)]
    have value : MemRequest.next (crowded u).core.handshake true true false = ⟨Fin.ofNat 128 (min u 128) + 1,true,true,false,false⟩ := rfl
    rw [decide_eq_true early,value,tag,crowded,decide_eq_true (show u + 1 ≤ 128 by omega)]
  · have tag : min u 128 = min (u + 1) 128 := by omega
    have value : MemRequest.next (crowded u).core.handshake false true false = ⟨Fin.ofNat 128 (min u 128),true,false,false,false⟩ := rfl
    rw [decide_eq_false early,value,tag,crowded,decide_eq_false (show ¬ u + 1 ≤ 128 by omega)]

theorem crowded_s1 (u : Nat) : nextS1 (crowded u).core (wrapped u) = (crowded (u + 1)).core.s1 := by
  have straight : (wrapped u).flush = false := rfl
  simp only [nextS1,s1D,straight,Bool.false_eq_true,if_false,crowded_request]
  by_cases early : u < 128
  · simp only [early,if_true,wrapped,steady,crowded,Nat.min_eq_left (show u ≤ 128 by omega),if_pos (show u + 1 ≤ 128 by omega)]
    rfl
  · by_cases now : u = 128
    · subst now
      rfl
    · simp only [early,now,if_false,Bool.false_eq_true,wrapped,steady,crowded,Nat.min_eq_right (show 128 ≤ u by omega),
        if_neg (show ¬ u + 1 ≤ 128 by omega),if_neg (show ¬ u + 1 = 129 by omega)]
      rfl

theorem crowded_expects (u : Nat) : expects (crowded u).core (wrapped u) = decide (u < 128) := by
  by_cases early : u < 128
  · have goes : taken (crowded u).core (wrapped u) = true := by
      rw [taken,crowded_valid,decide_eq_true early]
      rfl
    have kind : (wrapped u).shown = load false := if_pos early
    rw [taken_expects goes,kind,decide_eq_true early]
    rfl
  · have silent : sent (crowded u).core (wrapped u) = false := by
      rw [sent,crowded_valid,decide_eq_false early]
      rfl
    simp [expects,silent,early]

theorem tag_named {tag : Fin 128} {k : Nat} (small : k < 128) : Fin.ofNat 128 k = tag ↔ k = tag.val := by
  rw [Fin.ext_iff,Fin.val_ofNat,Nat.mod_eq_of_lt small]

theorem wrapped_response {u : Nat} {tag : Fin 128} : (wrapped u).response.any (fun r => r.rd == tag) =
    decide ((2 ≤ u ∧ u ≤ 128 ∧ tag.val + 1 = u) ∨ (u = 129 ∧ tag = 0)) := by
  unfold wrapped steady
  by_cases early : 2 ≤ u ∧ u ≤ 128
  · rw [if_pos early,Option.any_some,beq_eq_decide]
    refine decide_eq_decide.mpr ((tag_named (by omega)).trans ?_)
    constructor
    · intro same
      exact .inl ⟨early.1,early.2,by omega⟩
    · rintro (⟨_,_,same⟩ | ⟨late,_⟩) <;> omega
  · by_cases now : u = 129
    · rw [if_neg early,if_pos now,Option.any_some,beq_eq_decide]
      refine decide_eq_decide.mpr ⟨fun same => .inr ⟨now,same.symm⟩,?_⟩
      rintro (⟨_,_,_⟩ | ⟨_,same⟩)
      · omega
      · exact same.symm
    · simp [early,now]
      omega

theorem crowded_outstanding {u : Nat} (start : 2 ≤ u) (tag : Fin 128) :
    (trackedNext false (crowded u) (wrapped u)).outstanding tag = (crowded (u + 1)).outstanding tag := by
  have tagId : (crowded u).core.handshake.tagId = Fin.ofNat 128 (min u 128) := rfl
  have small := tag.isLt
  have zero : tag = 0 ↔ tag.val = 0 := Fin.ext_iff
  simp only [trackedNext,crowded_expects,wrapped_response,decide_eq_true_eq,tagId,zero]
  by_cases now : u < 128 ∧ u = tag.val
  · have here : tag = Fin.ofNat 128 (min u 128) := by
      rw [Nat.min_eq_left (by omega),eq_comm,tag_named now.1]
      exact now.2
    rw [if_pos ⟨now.1,here⟩]
    simp only [crowded,zero]
    rw [if_neg (by omega),if_pos (by omega),now.2]
  · have other : ¬ (u < 128 ∧ tag = Fin.ofNat 128 (min u 128)) := by
      rintro ⟨early,here⟩
      rw [Nat.min_eq_left (by omega),eq_comm,tag_named early] at here
      exact now ⟨early,here⟩
    rw [if_neg other]
    simp only [crowded,zero]
    split_ifs <;> first | rfl | omega

theorem crowded_next {u : Nat} (start : 2 ≤ u) : trackedNext false (crowded u) (wrapped u) = crowded (u + 1) := by
  have straight : (wrapped u).flush = false := rfl
  ext1
  · ext1
    · exact crowded_handshake u
    · exact crowded_s1 u
    · rfl
    · rfl
    · rfl
    · exact crowded_pmrq start
  · rfl
  · exact funext (crowded_outstanding start)
  · have goes : taken (crowded u).core (wrapped u) = decide (u < 128) := by
      rw [taken,crowded_valid]
      exact Bool.and_true _
    simp only [trackedNext,straight,Bool.false_eq_true,if_false,goes,decide_eq_true_eq]
    rfl
  · rfl
  · rfl
  · simp only [trackedNext,straight,crowded_pushes start,crowded_pops,Bool.false_eq_true,if_false]
    rfl

theorem crowded_start : trace (machine false) wrapped 2 = crowded 2 := by
  ext1
  · ext1
    · rfl
    · rfl
    · rfl
    · rfl
    · rfl
    · change PendingMemReqQueue.next (PendingMemReqQueue.next PendingMemReqQueue.reset _) _ = _
      rw [show PendingMemReqQueue.next PendingMemReqQueue.reset _ = PendingMemReqQueue.reset from PendingMemReqQueue.next_idle rfl rfl rfl rfl]
      rfl
  · rfl
  · funext tag
    revert tag
    decide
  · rfl
  · rfl
  · rfl
  · rfl

theorem crowded_trace {u : Nat} (start : 2 ≤ u) : trace (machine false) wrapped u = crowded u := by
  induction u, start using Nat.le_induction with
  | base => exact crowded_start
  | succ u start ih =>
    change trackedNext false (trace (machine false) wrapped u) (wrapped u) = _
    rw [ih]
    exact crowded_next start

theorem wrapped_shown (u : Nat) : (wrapped u).shown = load false ∨ (wrapped u).shown = load true ∨ (wrapped u).shown = MemInstr.zero := by
  unfold wrapped steady
  by_cases early : u < 128
  · simp [early]
  · by_cases now : u = 128 <;> simp [early,now]

theorem wrapped_answered {u : Nat} {r : Response Nat} (came : (wrapped u).response = some r) :
    2 ≤ u ∧ (trace (machine false) wrapped u).outstanding r.rd ≠ none := by
  have hit := @wrapped_response u r.rd
  rw [came,Option.any_some,beq_self_eq_true,eq_comm,decide_eq_true_eq] at hit
  refine ⟨by omega,?_⟩
  rw [crowded_trace (by omega)]
  simp only [crowded]
  rcases hit with ⟨_,_,named⟩ | ⟨late,zero⟩
  · split_ifs <;> simp_all
  · rw [if_pos ⟨zero,by omega⟩]
    simp

theorem wrapped_free {u : Nat} (goes : sent (trace (machine false) wrapped u).core (wrapped u) = true) :
    (trace (machine false) wrapped u).outstanding (trace (machine false) wrapped u).core.handshake.tagId = none := by
  rcases Nat.lt_or_ge u 2 with first | start
  · obtain rfl | rfl : u = 0 ∨ u = 1 := by omega
    · rfl
    · rfl
  · rw [crowded_trace start] at goes ⊢
    have early : u < 128 := by
      by_contra late
      rw [sent,crowded_valid,decide_eq_false late] at goes
      cases goes
    have tag : (crowded u).core.handshake.tagId = Fin.ofNat 128 u := by rw [crowded,Nat.min_eq_left (by omega)]
    have place : (Fin.ofNat 128 u).val = u := Nat.mod_eq_of_lt early
    rw [tag]
    simp only [crowded,Fin.ext_iff,place]
    rw [if_neg (by simp; omega),if_neg (by omega)]

theorem wrapped_admits : Admits (machine false) wrapped := by
  intro u
  refine ⟨fun r came => (wrapped_answered came).2,fun goes => .inl (wrapped_free goes),?_,?_,?_⟩
  · rcases wrapped_shown u with shown | shown | shown <;> simp [shown,load,MemInstr.zero]
  · rcases wrapped_shown u with shown | shown | shown <;> simp [shown,load,MemInstr.zero]
  · rcases wrapped_shown u with shown | shown | shown <;> simp [shown,load,MemInstr.zero,needRsp]

theorem wrapped_fair : Fair false wrapped where
  answers := by
    intro u tag n asked
    rcases Nat.lt_or_ge u 2 with first | start
    · have only : n = 0 := by
        obtain rfl | rfl : u = 0 ∨ u = 1 := by omega
        · cases asked
        · change (if _ then some 0 else if _ then none else none) = some n at asked
          split_ifs at asked
          exact (Option.some.inj asked).symm
      subst only
      refine ⟨129,⟨0,7⟩,by omega,rfl,?_⟩
      rw [crowded_trace (by omega)]
      rfl
    · rw [crowded_trace start] at asked
      simp only [crowded] at asked
      split_ifs at asked with old new
      · obtain rfl := Option.some.inj asked
        refine ⟨129,⟨0,7⟩,old.2,rfl,?_⟩
        rw [crowded_trace (by omega)]
        rfl
      · obtain rfl := Option.some.inj asked
        refine ⟨u,⟨tag,7⟩,Nat.le_refl u,?_,?_⟩
        · have named : Fin.ofNat 128 (u - 1) = tag := (tag_named (by omega)).mpr (by omega)
          change (if 2 ≤ u ∧ u ≤ 128 then _ else _) = _
          rw [if_pos ⟨start,new.2⟩,named]
        · rw [crowded_trace start]
          simp only [crowded]
          rw [if_neg old,if_pos new]
  drains := by
    intro u
    refine ⟨max u 130,Nat.le_max_left _ _,?_⟩
    rw [crowded_trace (by omega),crowded_stageWb (by omega),if_neg (by omega)]

theorem wrapped_lost {u : Nat} {x : MemInstr Unit} {data : Nat} : ¬ Presented false wrapped u 0 x data := by
  intro shown
  rcases Nat.lt_or_ge u 2 with first | start
  · obtain rfl | rfl : u = 0 ∨ u = 1 := by omega
    · cases shown
    · cases shown
  · rcases presented_cases shown with ⟨_,born⟩ | ⟨found,_⟩
    · rw [crowded_trace start] at born
      change (if u ≤ 128 then some (u - 1) else none) = some 0 at born
      split at born
      · have place := Option.some.inj born
        omega
      · cases born
    · rw [crowded_trace start] at found
      obtain ⟨_,slot,first,finished,_⟩ := writeback_queue.mp found
      have head : (contents (crowded u).core.pmrq).head? = some ⟨load false,0,some 0,false⟩ := rfl
      rw [head] at first
      cases first
      cases finished

-- The response of the first load is taken for that of the load that faults.
theorem swallowed_response : Admits (machine false) wrapped ∧ Fair false wrapped ∧ Accepted false wrapped 0 ∧
    (∀ u, (wrapped u).flush = false) ∧ (∀ u x data, ¬ Presented false wrapped u 0 x data) ∧ ¬ CompletesOnce false wrapped := by
  have accepted : Accepted false wrapped 0 := ⟨rfl,rfl,rfl⟩
  have straight : ∀ u, (wrapped u).flush = false := fun _ => rfl
  refine ⟨wrapped_admits,wrapped_fair,accepted,straight,fun _ _ _ => wrapped_lost,?_⟩
  intro good
  obtain ⟨u,⟨data,shown⟩,_⟩ := good.completes wrapped_fair 0 accepted (fun v _ => straight v)
  exact wrapped_lost shown

end Sargantana.LoadDelivery
