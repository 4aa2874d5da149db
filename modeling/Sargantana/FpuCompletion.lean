import Sargantana.FpuDracWrapper
import Sargantana.Lib.StateMachine
import Mathlib.Data.List.Basic

-- The floating point operations since the last flush, beside the queue that orders them.
namespace Sargantana.FpuCompletion
open DracPkg PendingFpOpsQueue FpuDracWrapper StateMachine

variable {α : Type}

structure Answer where
  data : BitVec 64
  status : Status
  deriving DecidableEq

structure Entry (α : Type) where
  op : FpuInstr α
  tag : Reg
  answer : Option Answer
  deriving DecidableEq

inductive Port where
  | fp | scalar
  deriving DecidableEq

structure Tracked (α : Type) where
  queue : State α
  log : List (Entry α)
  shown : List (Port × FpWb α)

-- `owner` is the operation that fpnew answers, by its place in the log; the circuit
-- only sees the tag.
structure Input (α : Type) where
  wires : FpuDracWrapper.Input α
  owner : Nat

def Entry.settled (e : Entry α) : FpuInstr α :=
  match e.answer with
  | none => e.op
  | some answer => { e.op with dataRs3 := answer.data }

def Entry.status (e : Entry α) : Status :=
  match e.answer with
  | none => 0
  | some answer => answer.status

def Entry.outcome (e : Entry α) : Port × FpWb α :=
  if e.op.instr.fregfileWe then (.fp,fpWb e.settled true e.status) else (.scalar,scalarWb e.settled true e.status)

def answered (i : Input α) (log : List (Entry α)) : List (Entry α) :=
  match i.wires.result with
  | none => log
  | some result => log.modify i.owner fun e => { e with answer := some ⟨result.data,result.status⟩ }

def arrival (s : State α) (i : Input α) : List (Entry α) :=
  if accepts s i.wires then [⟨i.wires.instruction,s.tagInt,none⟩] else []

-- fpnew answers an operation that it accepted in an earlier cycle, with its tag and once;
-- the decoder gives a floating point instruction one of the two destinations.
structure Allowed (t : Tracked α) (i : Input α) : Prop where
  owned : ∀ result, i.wires.result = some result →
    ∃ e, t.log[i.owner]? = some e ∧ e.answer = none ∧ e.tag = result.tag
  decoded : accepts t.queue i.wires = true →
    i.wires.instruction.instr.regfileWe = !i.wires.instruction.instr.fregfileWe

section
variable [Inhabited α]

def shows (s : State α) (i : Input α) : List (Port × FpWb α) :=
  (if (instructionO s).valid then [(.fp,instructionO s)] else []) ++
    (if (instructionScalarO s i.wires).valid then [(.scalar,instructionScalarO s i.wires)] else [])

def trackedNext (t : Tracked α) (i : Input α) : Tracked α :=
  if i.wires.flush then ⟨next t.queue i.wires,[],[]⟩
  else ⟨next t.queue i.wires,answered i t.log ++ arrival t.queue i,t.shown ++ shows t.queue i⟩

def machine : Machine (Tracked α) (Input α) := ⟨⟨reset,[],[]⟩,Allowed,trackedNext⟩

-- The write back is not stalled while the floating point port shows an operation.
def Calm (t : Tracked α) (i : Input α) : Prop :=
  i.wires.stallWb = true → finished t.queue = true → (finishInstrFp t.queue).instr.fregfileWe = false

end

def slot (k : Nat) : Fin 8 := Fin.ofNat 8 k

structure Holds (s : State α) (k : Nat) (e : Entry α) : Prop where
  valid : s.validTable (slot k) = true
  tag : s.tagTable (slot k) = e.tag
  control : s.controlBitsTable (slot k) = e.answer.isSome
  instruction : s.instructionTable (slot k) = e.settled
  status : e.answer ≠ none → s.statusTable (slot k) = e.status

structure Invariant (t : Tracked α) : Prop where
  count : t.log.length = t.shown.length + t.queue.num.val
  room : t.queue.num.val ≤ 8
  head : t.queue.head = slot t.shown.length
  tail : t.queue.tail = slot t.log.length
  tagInt : t.queue.tagInt = Fin.ofNat 32 t.log.length
  tags : ∀ k e, t.log[k]? = some e → e.tag = Fin.ofNat 32 k
  decoded : ∀ e ∈ t.log, e.op.instr.valid = true ∧ e.op.instr.regfileWe = !e.op.instr.fregfileWe
  holds : ∀ k e, t.shown.length ≤ k → t.log[k]? = some e → Holds t.queue k e
  free : ∀ j, (∀ k, t.shown.length ≤ k → k < t.log.length → slot k ≠ j) → t.queue.validTable j = false
  done : ∀ k e, k < t.shown.length → t.log[k]? = some e → e.answer ≠ none
  shown : t.shown = (t.log.take t.shown.length).map Entry.outcome

theorem slot_inj {a b p : Nat} (fromA : p ≤ a) (toA : a < p + 8) (fromB : p ≤ b) (toB : b < p + 8)
    (same : slot a = slot b) : a = b := by
  have equal := congrArg Fin.val same
  simp only [slot,Fin.val_ofNat] at equal
  omega

theorem tag_inj {a b p : Nat} (fromA : p ≤ a) (toA : a < p + 8) (fromB : p ≤ b) (toB : b < p + 8)
    (same : (Fin.ofNat 32 a : Reg) = Fin.ofNat 32 b) : a = b := by
  have equal := congrArg Fin.val same
  simp only [Fin.val_ofNat] at equal
  omega

theorem slot_succ (k : Nat) : slot (k + 1) = slot k + 1 := by
  apply Fin.ext
  simp [slot,Fin.val_add]

variable {t : Tracked α} {i : Input α}

theorem head_entry (inv : Invariant t) (busy : 0 < t.queue.num.val) :
    ∃ e, t.log[t.shown.length]? = some e ∧ Holds t.queue t.shown.length e := by
  have count := inv.count
  obtain ⟨e,found⟩ : ∃ e, t.log[t.shown.length]? = some e :=
    ⟨_,List.getElem?_eq_getElem (by omega)⟩
  exact ⟨e,found,inv.holds _ e (Nat.le_refl _) found⟩

theorem settled_instr (e : Entry α) : e.settled.instr = e.op.instr := by
  unfold Entry.settled
  split <;> rfl

theorem accepts_parts {s : State α} {i : FpuDracWrapper.Input α} (accepted : accepts s i = true) :
    i.instruction.instr.valid = true ∧ s.num.val < 8 ∧ i.flush = false := by
  simp only [accepts,enableFpOp,full,Bool.and_eq_true,Bool.not_eq_true',Bool.or_eq_false_iff,
    decide_eq_false_iff_not] at accepted
  refine ⟨accepted.1.1.1,?_,accepted.1.2.2⟩
  have room := accepted.1.2.1
  rw [Fin.le_def] at room
  simpa using room

def Entry.after (i : Input α) (k : Nat) (e : Entry α) : Entry α :=
  match i.wires.result with
  | none => e
  | some result => if k = i.owner then { e with answer := some ⟨result.data,result.status⟩ } else e

theorem answered_get (k : Nat) : (answered i t.log)[k]? = t.log[k]?.map (Entry.after i k) := by
  unfold answered Entry.after
  split
  · simp
  · rw [List.getElem?_modify]
    by_cases same : i.owner = k
    · simp [same]
    · have other : ¬ k = i.owner := fun equal => same equal.symm
      simp [same,other]

theorem answered_length : (answered i t.log).length = t.log.length := by
  unfold answered
  split <;> simp

theorem after_op (k : Nat) (e : Entry α) : (e.after i k).op = e.op ∧ (e.after i k).tag = e.tag := by
  unfold Entry.after
  split
  · exact ⟨rfl,rfl⟩
  · split <;> exact ⟨rfl,rfl⟩

theorem after_done (allowed : Allowed t i) {k : Nat} {e : Entry α} (found : t.log[k]? = some e)
    (done : e.answer ≠ none) : e.after i k = e := by
  unfold Entry.after
  split
  · rfl
  · rename_i result came
    obtain ⟨f,owned,unanswered,_⟩ := allowed.owned result came
    split
    · rename_i same
      rw [same] at found
      have equal := Option.some.inj (found.symm.trans owned)
      exact absurd (equal ▸ unanswered) done
    · rfl

theorem log_cases {k : Nat} {e : Entry α} (found : (answered i t.log ++ arrival t.queue i)[k]? = some e) :
    (∃ old, t.log[k]? = some old ∧ e = old.after i k) ∨
    (k = t.log.length ∧ accepts t.queue i.wires = true ∧ e = ⟨i.wires.instruction,t.queue.tagInt,none⟩) := by
  by_cases inside : k < t.log.length
  · rw [List.getElem?_append_left (by rw [answered_length]; exact inside),answered_get] at found
    obtain ⟨old,present,same⟩ := Option.map_eq_some_iff.mp found
    exact .inl ⟨old,present,same.symm⟩
  · rw [List.getElem?_append_right (by rw [answered_length]; omega),answered_length] at found
    unfold arrival at found
    split at found
    · rename_i accepted
      rw [List.getElem?_singleton] at found
      split at found
      · rename_i first
        exact .inr ⟨by omega,accepted,(Option.some.inj found).symm⟩
      · cases found
    · simp at found

theorem answered_kept (allowed : Allowed t i) {k : Nat} {e old : Entry α} (found : (answered i t.log ++ arrival t.queue i)[k]? = some e)
    (present : t.log[k]? = some old) (done : old.answer ≠ none) : e.answer ≠ none := by
  rcases log_cases found with ⟨again,same,rfl⟩ | ⟨rfl,_,_⟩
  · obtain rfl := Option.some.inj (present.symm.trans same)
    rwa [after_done allowed present done]
  · exact absurd (List.getElem?_eq_some_iff.mp present).1 (by omega)

theorem log_length : (answered i t.log ++ arrival t.queue i).length = t.log.length + (accepts t.queue i.wires).toNat := by
  rw [List.length_append,answered_length]
  unfold arrival
  split <;> simp_all

theorem accepts_fits (inv : Invariant t) : t.queue.num.val + (accepts t.queue i.wires).toNat ≤ 8 := by
  cases accepted : accepts t.queue i.wires with
  | false => exact inv.room
  | true => exact (accepts_parts accepted).2.1

theorem shown_kept (inv : Invariant t) (allowed : Allowed t i) :
    (answered i t.log ++ arrival t.queue i).take t.shown.length = t.log.take t.shown.length := by
  have count := inv.count
  apply List.ext_getElem?
  intro k
  rw [List.getElem?_take,List.getElem?_take]
  split
  · rename_i below
    rw [List.getElem?_append_left (by rw [answered_length]; omega),answered_get]
    obtain ⟨e,found⟩ : ∃ e, t.log[k]? = some e := ⟨_,List.getElem?_eq_getElem (by omega)⟩
    rw [found,Option.map_some,after_done allowed found (inv.done k e below found)]
  · rfl

theorem finished_iff (inv : Invariant t) {e : Entry α} (found : t.log[t.shown.length]? = some e) :
    finished t.queue = true ↔ e.answer ≠ none := by
  have count := inv.count
  have inside := (List.getElem?_eq_some_iff.mp found).1
  have busy : 0 < t.queue.num := by
    rw [Fin.lt_def]
    simp only [Fin.val_zero]
    omega
  have holds := inv.holds _ e (Nat.le_refl _) found
  simp only [finished,busy,decide_true,Bool.true_and,inv.head,holds.control]
  cases e.answer <;> simp

variable [Inhabited α]

theorem finished_entry (inv : Invariant t) (ended : finished t.queue = true) :
    ∃ e, t.log[t.shown.length]? = some e ∧ e.answer ≠ none ∧ finishInstrFp t.queue = e.settled ∧
      finishFpStatus t.queue = e.status := by
  obtain ⟨busy,control⟩ : 0 < t.queue.num ∧ t.queue.controlBitsTable t.queue.head = true := by
    simpa [finished] using ended
  obtain ⟨e,found,holds⟩ := head_entry inv busy
  have answer : e.answer ≠ none := by
    intro none
    rw [inv.head,holds.control,none] at control
    cases control
  refine ⟨e,found,answer,?_,?_⟩
  · rw [finishInstrFp,if_pos ended,inv.head,holds.instruction]
  · rw [finishFpStatus,if_pos ended,inv.head,holds.status answer]

theorem advance_eq (inv : Invariant t) :
    advanceHeadEnable t.queue (queueInput t.queue i.wires) = (finished t.queue && !i.wires.stallWb) := by
  cases ended : finished t.queue with
  | false => simp [advanceHeadEnable,queueInput,advanceHead,finishInstrFp,ended,instrZero,InstrEntry.zero]
  | true =>
    obtain ⟨e,found,_,same,_⟩ := finished_entry inv ended
    have busy : 0 < t.queue.num := by
      simp only [finished,Bool.and_eq_true,decide_eq_true_eq] at ended
      exact ended.1
    have valid : (finishInstrFp t.queue).instr.valid = true := by
      rw [same,settled_instr]
      exact (inv.decoded e (List.mem_of_getElem? found)).1
    simp [advanceHeadEnable,queueInput,advanceHead,valid,busy]

-- Without a stalled floating point port, the ports show what leaves the queue.
theorem shows_eq (inv : Invariant t) (calm : Calm t i) :
    (finished t.queue = false ∨ i.wires.stallWb = true) ∧ shows t.queue i = [] ∨
    ∃ e, finished t.queue = true ∧ i.wires.stallWb = false ∧ t.log[t.shown.length]? = some e ∧ e.answer ≠ none ∧
      shows t.queue i = [e.outcome] := by
  cases ended : finished t.queue with
  | false =>
    refine .inl ⟨.inl rfl,?_⟩
    simp [shows,instructionO,instructionScalarO,fpWb,scalarWb,wb,finishInstrFp,ended,instrZero,InstrEntry.zero]
  | true =>
    obtain ⟨e,found,answer,instr,status⟩ := finished_entry inv ended
    obtain ⟨valid,other⟩ := inv.decoded e (List.mem_of_getElem? found)
    cases stall : i.wires.stallWb with
    | true =>
      have quiet := calm stall ended
      refine .inl ⟨.inr rfl,?_⟩
      simp [shows,instructionO,instructionScalarO,fpWb,scalarWb,wb,quiet,stall]
    | false =>
      refine .inr ⟨e,rfl,rfl,found,answer,?_⟩
      cases port : e.op.instr.fregfileWe <;>
        simp [shows,instructionO,instructionScalarO,fpWb,scalarWb,wb,instr,status,settled_instr,valid,other,port,stall,
          Entry.outcome]

theorem write_eq : writeEnable t.queue (queueInput t.queue i.wires) = accepts t.queue i.wires := by
  cases accepted : accepts t.queue i.wires with
  | false => simp [writeEnable,queueInput,accepted]
  | true =>
    obtain ⟨valid,room,_⟩ := accepts_parts accepted
    have below : t.queue.num < 8 := room
    simp [writeEnable,queueInput,accepted,valid,below]

theorem taken_eq (inv : Invariant t) (allowed : Allowed t i) {k : Nat} {e : Entry α} (from_head : t.shown.length ≤ k)
    (found : t.log[k]? = some e) :
    taken t.queue (queueInput t.queue i.wires) (slot k) = if k = i.owner then i.wires.result else none := by
  have holds := inv.holds k e from_head found
  have count := inv.count
  have room := inv.room
  cases came : i.wires.result with
  | none => simp [taken,queueInput,came]
  | some result =>
    obtain ⟨f,owned,unanswered,tag⟩ := allowed.owned result came
    have later : t.shown.length ≤ i.owner := by
      apply Nat.le_of_not_lt
      intro before
      exact inv.done _ _ before owned unanswered
    have inside := (List.getElem?_eq_some_iff.mp owned).1
    have within := (List.getElem?_eq_some_iff.mp found).1
    by_cases same : k = i.owner
    · have cell : t.queue.tagTable (slot i.owner) = result.tag := by
        rw [← same,holds.tag,inv.tags _ _ found,← tag,inv.tags _ _ owned,same]
      rw [same] at holds
      simp [taken,queueInput,same,holds.valid,cell,came]
    · have apart : ¬ t.queue.tagTable (slot k) = result.tag := by
        rw [holds.tag,← tag,inv.tags _ _ found,inv.tags _ _ owned]
        intro equal
        exact same (tag_inj from_head (by omega) later (by omega) equal)
      simp [taken,queueInput,same,apart,came]

theorem taken_free {j : Fin 8} (free : t.queue.validTable j = false) :
    taken t.queue (queueInput t.queue i.wires) j = none := by
  unfold taken
  split
  · rfl
  · simp [free]

theorem holds_next (inv : Invariant t) (allowed : Allowed t i) (straight : i.wires.flush = false) {k : Nat}
    {e : Entry α} (found : t.log[k]? = some e)
    (stays : t.shown.length + (advanceHeadEnable t.queue (queueInput t.queue i.wires)).toNat ≤ k) :
    Holds (FpuDracWrapper.next t.queue i.wires) k (e.after i k) := by
  have from_head : t.shown.length ≤ k := by omega
  have within := (List.getElem?_eq_some_iff.mp found).1
  have count := inv.count
  have holds := inv.holds k e from_head found
  have take := taken_eq inv allowed from_head found
  have untouched : (accepts t.queue i.wires && slot k == t.queue.tail) = false := by
    cases accepted : accepts t.queue i.wires with
    | false => rfl
    | true =>
      obtain ⟨_,room,_⟩ := accepts_parts accepted
      have apart : slot k ≠ slot t.log.length := fun same => by
        have equal := slot_inj (p := t.shown.length) from_head (by omega) (by omega) (by omega) same
        omega
      simp [inv.tail,apart]
  have left : (advanceHeadEnable t.queue (queueInput t.queue i.wires) && slot k == t.queue.head) = false := by
    cases advance : advanceHeadEnable t.queue (queueInput t.queue i.wires) with
    | false => rfl
    | true =>
      have room := inv.room
      rw [advance,Bool.toNat_true] at stays
      have apart : slot k ≠ slot t.shown.length := fun same => by
        have equal := slot_inj (p := t.shown.length) from_head (by omega) (by omega) (by omega) same
        omega
      simp [inv.head,apart]
  have quiet : (queueInput t.queue i.wires).flush = false := straight
  constructor
  · simp only [FpuDracWrapper.next,PendingFpOpsQueue.next,quiet,write_eq,Bool.false_eq_true,if_false,left,untouched,holds.valid]
  · simp only [FpuDracWrapper.next,PendingFpOpsQueue.next,quiet,write_eq,Bool.false_eq_true,if_false,untouched,holds.tag,(after_op k e).2]
  · simp only [FpuDracWrapper.next,PendingFpOpsQueue.next,quiet,write_eq,Bool.false_eq_true,if_false,untouched,take,holds.control,Entry.after]
    cases i.wires.result with
    | none => simp
    | some result => by_cases same : k = i.owner <;> simp [same]
  · simp only [FpuDracWrapper.next,PendingFpOpsQueue.next,quiet,write_eq,Bool.false_eq_true,if_false,untouched,take,holds.instruction,
      Entry.after]
    cases i.wires.result with
    | none => simp
    | some result =>
      by_cases same : k = i.owner
      · simp only [same,if_true,Entry.settled]
        cases e.answer <;> rfl
      · simp [same]
  · intro done
    simp only [FpuDracWrapper.next,PendingFpOpsQueue.next,quiet,Bool.false_eq_true,if_false,take]
    unfold Entry.after at done ⊢
    cases came : i.wires.result with
    | none =>
      simp only [came] at done
      simpa using holds.status done
    | some result =>
      by_cases same : k = i.owner
      · simp [same,Entry.status]
      · simp only [came,same,if_false] at done
        simpa [same] using holds.status done

theorem shown_length (inv : Invariant t) (calm : Calm t i) : (t.shown ++ shows t.queue i).length =
    t.shown.length + (advanceHeadEnable t.queue (queueInput t.queue i.wires)).toNat := by
  rw [advance_eq inv]
  rcases shows_eq inv calm with ⟨waits,none⟩ | ⟨e,ended,free,_,_,out⟩
  · rcases waits with waits | waits <;> simp [none,waits]
  · simp [ended,free,out]

theorem advance_le : (advanceHeadEnable t.queue (queueInput t.queue i.wires)).toNat ≤ t.queue.num.val := by
  cases advance : advanceHeadEnable t.queue (queueInput t.queue i.wires) with
  | false => exact Nat.zero_le _
  | true =>
    simp only [advanceHeadEnable,Bool.and_eq_true,decide_eq_true_eq] at advance
    exact advance.2

theorem next_num (inv : Invariant t) (straight : i.wires.flush = false) :
    (FpuDracWrapper.next t.queue i.wires).num.val = t.queue.num.val + (accepts t.queue i.wires).toNat -
      (advanceHeadEnable t.queue (queueInput t.queue i.wires)).toNat := by
  have quiet : (queueInput t.queue i.wires).flush = false := straight
  simp only [FpuDracWrapper.next,PendingFpOpsQueue.next,quiet,Bool.false_eq_true,if_false,write_eq]
  exact count_val inv.room (Nat.le_trans advance_le (Nat.le_add_right _ _))

theorem holds_arrival (inv : Invariant t) (accepted : accepts t.queue i.wires = true) :
    Holds (FpuDracWrapper.next t.queue i.wires) t.log.length ⟨i.wires.instruction,t.queue.tagInt,none⟩ := by
  obtain ⟨_,below,straight⟩ := accepts_parts accepted
  have count := inv.count
  have quiet : (queueInput t.queue i.wires).flush = false := straight
  have empty : t.queue.validTable (slot t.log.length) = false := by
    refine inv.free _ fun k from_head within same => ?_
    have equal := slot_inj (p := t.shown.length) from_head (by omega) (by omega) (by omega) same
    omega
  have take := taken_free (i := i) empty
  have left : (advanceHeadEnable t.queue (queueInput t.queue i.wires) && slot t.log.length == t.queue.head) = false := by
    cases advance : advanceHeadEnable t.queue (queueInput t.queue i.wires) with
    | false => rfl
    | true =>
      have busy : 0 < t.queue.num.val := Nat.lt_of_lt_of_le (by rw [advance]; decide) (advance_le (i := i))
      have apart : slot t.log.length ≠ slot t.shown.length := fun same => by
        have equal := slot_inj (p := t.shown.length) (by omega) (by omega) (by omega) (by omega) same
        omega
      simp [inv.head,apart]
  constructor
  · simp only [FpuDracWrapper.next,PendingFpOpsQueue.next,quiet,write_eq,Bool.false_eq_true,if_false,left,accepted,inv.tail,
      beq_self_eq_true,Bool.and_self,if_true]
  · simp [FpuDracWrapper.next,PendingFpOpsQueue.next,quiet,write_eq,accepted,inv.tail]
  · simp [FpuDracWrapper.next,PendingFpOpsQueue.next,quiet,write_eq,accepted,inv.tail,take]
  · simp only [FpuDracWrapper.next,PendingFpOpsQueue.next,quiet,write_eq,Bool.false_eq_true,if_false,accepted,inv.tail,take,
      beq_self_eq_true,Bool.and_self,if_true,Entry.settled]
    rfl
  · intro done
    exact absurd rfl done

theorem free_next (inv : Invariant t) (calm : Calm t i) (straight : i.wires.flush = false) (j : Fin 8)
    (apart : ∀ k, (t.shown ++ shows t.queue i).length ≤ k → k < (answered i t.log ++ arrival t.queue i).length → slot k ≠ j) :
    (FpuDracWrapper.next t.queue i.wires).validTable j = false := by
  have quiet : (queueInput t.queue i.wires).flush = false := straight
  rw [shown_length inv calm,log_length] at apart
  have fresh : (accepts t.queue i.wires && j == t.queue.tail) = false := by
    cases accepted : accepts t.queue i.wires with
    | false => rfl
    | true =>
        have drawn := advance_le (t := t) (i := i)
        have count := inv.count
        have other : j ≠ slot t.log.length := fun same => apart t.log.length (by omega) (by simp [accepted]) same.symm
        simp [inv.tail,other]
  simp only [FpuDracWrapper.next,PendingFpOpsQueue.next,quiet,Bool.false_eq_true,if_false,write_eq,fresh]
  split
  · rfl
  · rename_i stays
    refine inv.free j fun k from_head within same => ?_
    by_cases ahead : t.shown.length + (advanceHeadEnable t.queue (queueInput t.queue i.wires)).toNat ≤ k
    · exact apart k ahead (by omega) same
    · cases advance : advanceHeadEnable t.queue (queueInput t.queue i.wires) with
      | false => simp [advance] at ahead; omega
      | true =>
        have first : k = t.shown.length := by simp only [advance,Bool.toNat_true] at ahead; omega
        exact stays (by simp [advance,inv.head,← same,first])

theorem done_next (inv : Invariant t) (allowed : Allowed t i) (calm : Calm t i) {k : Nat} {e : Entry α}
    (below : k < (t.shown ++ shows t.queue i).length) (found : (answered i t.log ++ arrival t.queue i)[k]? = some e) : e.answer ≠ none := by
  have count := inv.count
  have earlier : k < t.shown.length → e.answer ≠ none := by
    intro before
    obtain ⟨old,present⟩ : ∃ old, t.log[k]? = some old := ⟨_,List.getElem?_eq_getElem (by omega)⟩
    exact answered_kept allowed found present (inv.done k old before present)
  rcases shows_eq inv calm with ⟨_,none⟩ | ⟨first,_,_,head,done,out⟩
  · rw [none,List.append_nil] at below
    exact earlier below
  · by_cases last : k = t.shown.length
    · exact answered_kept allowed found (by rw [last]; exact head) done
    · rw [out,List.length_append,List.length_singleton] at below
      exact earlier (by omega)

theorem shown_next (inv : Invariant t) (allowed : Allowed t i) (calm : Calm t i) :
    t.shown ++ shows t.queue i =
      ((answered i t.log ++ arrival t.queue i).take (t.shown ++ shows t.queue i).length).map Entry.outcome := by
  have kept := shown_kept inv allowed
  rcases shows_eq inv calm with ⟨_,none⟩ | ⟨first,_,_,head,done,out⟩
  · rw [none,List.append_nil,kept]
    exact inv.shown
  · have place : (answered i t.log ++ arrival t.queue i)[t.shown.length]? = some first := by
      have inside := (List.getElem?_eq_some_iff.mp head).1
      rw [List.getElem?_append_left (by rw [answered_length]; exact inside),answered_get,head,Option.map_some,
        after_done allowed head done]
    rw [out,List.length_append,List.length_singleton,List.take_add_one,kept,place,List.map_append,← inv.shown]
    rfl

theorem step_invariant (inv : Invariant t) (allowed : Allowed t i) (calm : Calm t i) : Invariant (trackedNext t i) := by
  cases straight : i.wires.flush with
  | true =>
    have quiet : (queueInput t.queue i.wires).flush = true := straight
    have emptied : (FpuDracWrapper.next t.queue i.wires) =
        { t.queue with validTable := fun _ => false, head := 0, tail := 0, num := 0, tagInt := 0 } := by
      simp [FpuDracWrapper.next,PendingFpOpsQueue.next,quiet]
    simp only [trackedNext,straight,if_true,emptied]
    constructor <;> simp [slot]
  | false =>
    have quiet : (queueInput t.queue i.wires).flush = false := straight
    have count := inv.count
    have leaves := shown_length inv calm
    have comes := log_length (t := t) (i := i)
    have fits := accepts_fits (i := i) inv
    have drawn := advance_le (t := t) (i := i)
    have num := next_num inv straight
    simp only [trackedNext,straight,Bool.false_eq_true,if_false]
    refine ⟨by simp only [leaves,comes]; omega,by simp only [num]; omega,?_,?_,?_,?_,?_,?_,?_,?_,?_⟩
    · rw [leaves]
      cases advance : advanceHeadEnable t.queue (queueInput t.queue i.wires) <;>
        simp [FpuDracWrapper.next,PendingFpOpsQueue.next,quiet,advance,inv.head,slot_succ]
    · rw [comes]
      cases accepted : accepts t.queue i.wires <;>
        simp [FpuDracWrapper.next,PendingFpOpsQueue.next,quiet,write_eq,accepted,inv.tail,slot_succ]
    · rw [comes]
      cases accepted : accepts t.queue i.wires
      · simp [FpuDracWrapper.next,PendingFpOpsQueue.next,quiet,write_eq,accepted,inv.tagInt]
      · apply Fin.ext
        simp [FpuDracWrapper.next,PendingFpOpsQueue.next,quiet,write_eq,accepted,inv.tagInt,Fin.val_add]
    · intro k e found
      rcases log_cases found with ⟨old,present,rfl⟩ | ⟨rfl,_,rfl⟩
      · rw [(after_op k old).2]
        exact inv.tags k old present
      · exact inv.tagInt
    · intro e member
      obtain ⟨k,found⟩ := List.getElem?_of_mem member
      rcases log_cases found with ⟨old,present,rfl⟩ | ⟨rfl,accepted,rfl⟩
      · rw [(after_op k old).1]
        exact inv.decoded old (List.mem_of_getElem? present)
      · exact ⟨(accepts_parts accepted).1,allowed.decoded accepted⟩
    · intro k e stays found
      rw [leaves] at stays
      rcases log_cases found with ⟨old,present,rfl⟩ | ⟨rfl,accepted,rfl⟩
      · exact holds_next inv allowed straight present stays
      · exact holds_arrival inv accepted
    · exact free_next inv calm straight
    · exact fun k e below found => done_next inv allowed calm below found
    · exact shown_next inv allowed calm

theorem initial_invariant : Invariant (machine : Machine (Tracked α) (Input α)).initial := by
  constructor <;> simp [machine,reset,slot]

section Runs
variable {inputs : Nat → Input α}

theorem trace_invariant (admits : Admits machine inputs) (calm : ∀ t, Calm (trace machine inputs t) (inputs t)) (t : Nat) :
    Invariant (trace machine inputs t) := by
  induction t with
  | zero => exact initial_invariant
  | succ t ih => exact step_invariant ih (admits t) (calm t)

theorem trace_shown {t : Nat} (straight : (inputs t).wires.flush = false) :
    (trace machine inputs (t + 1)).shown = (trace machine inputs t).shown ++ shows (trace machine inputs t).queue (inputs t) := by
  simp [trace,machine,trackedNext,straight]

theorem trace_log {t : Nat} (straight : (inputs t).wires.flush = false) :
    (trace machine inputs (t + 1)).log =
      answered (inputs t) (trace machine inputs t).log ++ arrival (trace machine inputs t).queue (inputs t) := by
  simp [trace,machine,trackedNext,straight]

theorem log_grows {t u : Nat} (quiet : ∀ v, t ≤ v → v < u → (inputs v).wires.flush = false) (later : t ≤ u) :
    (trace machine inputs t).log.length ≤ (trace machine inputs u).log.length ∧
      (trace machine inputs t).shown.length ≤ (trace machine inputs u).shown.length := by
  induction u with
  | zero =>
    obtain rfl : t = 0 := by omega
    exact ⟨Nat.le_refl _,Nat.le_refl _⟩
  | succ u ih =>
    by_cases last : t = u + 1
    · rw [last]; exact ⟨Nat.le_refl _,Nat.le_refl _⟩
    · obtain ⟨log,shown⟩ := ih (fun v after before => quiet v after (by omega)) (by omega)
      have straight := quiet u (by omega) (by omega)
      rw [trace_log straight,trace_shown straight,List.length_append,List.length_append,answered_length]
      omega

theorem log_keeps {t u : Nat} (accepted : accepts (trace machine inputs t).queue (inputs t).wires = true) (later : t < u)
    (quiet : ∀ v, t < v → v < u → (inputs v).wires.flush = false) :
    ∃ e, (trace machine inputs u).log[(trace machine inputs t).log.length]? = some e ∧
      e.op = (inputs t).wires.instruction := by
  induction u with
  | zero => omega
  | succ u ih =>
    by_cases now : u = t
    · rw [now,trace_log (accepts_parts accepted).2.2,List.getElem?_append_right (by rw [answered_length]),
        answered_length,arrival,if_pos accepted,Nat.sub_self]
      exact ⟨_,rfl,rfl⟩
    · obtain ⟨e,found,op⟩ := ih (by omega) fun v after before => quiet v after (by omega)
      have inside := (List.getElem?_eq_some_iff.mp found).1
      refine ⟨e.after (inputs u) (trace machine inputs t).log.length,?_,(after_op _ e).1.trans op⟩
      rw [trace_log (quiet u (by omega) (by omega)),List.getElem?_append_left (by rw [answered_length]; exact inside),
        answered_get,found,Option.map_some]

-- fpnew answers every operation that is not flushed, and the write back is not
-- stalled for ever.
structure Fair (inputs : Nat → Input α) : Prop where
  answers : ∀ t k e, (trace machine inputs t).log[k]? = some e → e.answer = none →
    ∃ u, t ≤ u ∧ ((inputs u).wires.flush = true ∨ ((inputs u).owner = k ∧ (inputs u).wires.result ≠ none))
  unstalls : ∀ t, ∃ u, t ≤ u ∧ (inputs u).wires.stallWb = false

variable (admits : Admits machine inputs) (calm : ∀ t, Calm (trace machine inputs t) (inputs t))
include admits calm

theorem head_waits {u p : Nat} {e : Entry α} (straight : (inputs u).wires.flush = false)
    (same : (trace machine inputs u).shown.length = p) (there : (trace machine inputs u).log[p]? = some e)
    (waiting : e.answer = none) :
    (trace machine inputs (u + 1)).shown.length = p ∧
      (trace machine inputs (u + 1)).log[p]? = some (e.after (inputs u) p) := by
  have inv := trace_invariant admits calm u
  refine ⟨?_,?_⟩
  · rw [trace_shown straight]
    rcases shows_eq inv (calm u) with ⟨_,none⟩ | ⟨_,ended,_⟩
    · simpa [none] using same
    · exact absurd waiting ((finished_iff inv (same ▸ there)).mp ended)
  · have inside := (List.getElem?_eq_some_iff.mp there).1
    rw [trace_log straight,List.getElem?_append_left (by rw [answered_length]; exact inside),answered_get,there,
      Option.map_some]

variable (fair : Fair inputs)
include fair

theorem head_finishes {t : Nat} (quiet : ∀ v, t ≤ v → (inputs v).wires.flush = false) {e : Entry α}
    (found : (trace machine inputs t).log[(trace machine inputs t).shown.length]? = some e) :
    ∃ u, t ≤ u ∧ (trace machine inputs u).shown.length = (trace machine inputs t).shown.length ∧
      finished (trace machine inputs u).queue = true := by
  generalize place : (trace machine inputs t).shown.length = p at found
  by_cases waiting : e.answer = none
  · have comes : ∃ u, t ≤ u ∧ (inputs u).owner = p ∧ (inputs u).wires.result ≠ none := by
      obtain ⟨u,later,flushed | answer⟩ := fair.answers t p e found waiting
      · rw [quiet u later] at flushed; cases flushed
      · exact ⟨u,later,answer⟩
    obtain ⟨u,later,⟨same,there⟩,owner,came⟩ := holds_until
      (fun u => (trace machine inputs u).shown.length = p ∧ (trace machine inputs u).log[p]? = some e)
      (fun u => (inputs u).owner = p ∧ (inputs u).wires.result ≠ none) ⟨place,found⟩ (by
        rintro u later ⟨same,there⟩ silent
        obtain ⟨still,after⟩ := head_waits admits calm (quiet u later) same there waiting
        refine ⟨still,after.trans ?_⟩
        unfold Entry.after
        split
        · rfl
        · rename_i result came
          rw [if_neg fun owner => silent ⟨owner.symm,by rw [came]; simp⟩]) comes
    obtain ⟨still,after⟩ := head_waits admits calm (quiet u later) same there waiting
    obtain ⟨result,here⟩ := Option.ne_none_iff_exists'.mp came
    have done : (e.after (inputs u) p).answer ≠ none := by simp [Entry.after,here,owner]
    exact ⟨u + 1,by omega,still,(finished_iff (trace_invariant admits calm (u + 1)) (by rw [still]; exact after)).mpr done⟩
  · exact ⟨t,Nat.le_refl _,place,(finished_iff (trace_invariant admits calm t) (place ▸ found)).mpr waiting⟩

theorem head_shows {t : Nat} (quiet : ∀ v, t ≤ v → (inputs v).wires.flush = false) {e : Entry α}
    (found : (trace machine inputs t).log[(trace machine inputs t).shown.length]? = some e) :
    ∃ u, t ≤ u ∧ (trace machine inputs u).shown.length = (trace machine inputs t).shown.length ∧
      shows (trace machine inputs u).queue (inputs u) ≠ [] := by
  obtain ⟨u,later,same,ended⟩ := head_finishes admits calm fair quiet found
  obtain ⟨v,after,⟨still,ready⟩,free⟩ := holds_until
    (fun v => (trace machine inputs v).shown.length = (trace machine inputs t).shown.length ∧
      finished (trace machine inputs v).queue = true)
    (fun v => (inputs v).wires.stallWb = false) ⟨same,ended⟩ (by
      rintro v after ⟨still,ready⟩ stalled
      have inv := trace_invariant admits calm v
      have none : shows (trace machine inputs v).queue (inputs v) = [] := by
        rcases shows_eq inv (calm v) with ⟨_,none⟩ | ⟨_,_,free,_⟩
        · exact none
        · exact absurd free stalled
      obtain ⟨f,head,done,_⟩ := finished_entry inv ready
      have shown := trace_shown (quiet v (by omega))
      rw [none,List.append_nil] at shown
      have inside := (List.getElem?_eq_some_iff.mp head).1
      refine ⟨by rw [shown]; exact still,?_⟩
      refine (finished_iff (e := f) (trace_invariant admits calm (v + 1)) ?_).mpr done
      rw [shown,trace_log (quiet v (by omega)),List.getElem?_append_left (by rw [answered_length]; exact inside),
        answered_get,head,Option.map_some,after_done (admits v) head done]) (fair.unstalls u)
  refine ⟨v,by omega,still,?_⟩
  rcases shows_eq (trace_invariant admits calm v) (calm v) with ⟨waits,_⟩ | ⟨f,_,_,_,_,out⟩
  · rcases waits with waits | waits
    · rw [ready] at waits; cases waits
    · rw [free] at waits; cases waits
  · simp [out]

theorem each_shows {t k : Nat} (quiet : ∀ v, t ≤ v → (inputs v).wires.flush = false)
    (ahead : (trace machine inputs t).shown.length ≤ k) (inside : k < (trace machine inputs t).log.length) :
    ∃ u, t ≤ u ∧ (trace machine inputs u).shown.length = k ∧ shows (trace machine inputs u).queue (inputs u) ≠ [] := by
  induction wait : k - (trace machine inputs t).shown.length generalizing t with
  | zero =>
    have first : k = (trace machine inputs t).shown.length := by omega
    obtain ⟨u,later,same,some⟩ := head_shows admits calm fair quiet
      (List.getElem?_eq_getElem (by omega : (trace machine inputs t).shown.length < (trace machine inputs t).log.length))
    exact ⟨u,later,by omega,some⟩
  | succ n ih =>
    obtain ⟨u,later,same,some⟩ := head_shows admits calm fair quiet
      (List.getElem?_eq_getElem (by omega : (trace machine inputs t).shown.length < (trace machine inputs t).log.length))
    have more : (trace machine inputs (u + 1)).shown.length = (trace machine inputs t).shown.length + 1 := by
      rw [trace_shown (quiet u later),List.length_append,same]
      rcases shows_eq (trace_invariant admits calm u) (calm u) with ⟨_,none⟩ | ⟨f,_,_,_,_,out⟩
      · exact absurd none some
      · rw [out]; rfl
    have grown := (log_grows (fun v after _ => quiet v after) (show t ≤ u + 1 by omega)).1
    obtain ⟨v,after,there,shown⟩ := ih (t := u + 1) (fun v after => quiet v (by omega)) (by omega) (by omega) (by omega)
    exact ⟨v,by omega,there,shown⟩

end Runs

-- In every state what was shown since the last flush is the first of the accepted
-- operations, each once and with its own answer; a cycle shows the next one or nothing.
structure InOrder (t : Tracked α) (i : Input α) : Prop where
  first : t.shown = (t.log.take t.shown.length).map Entry.outcome ∧ t.shown.length ≤ t.log.length
  answered : ∀ e ∈ t.log.take t.shown.length, e.answer ≠ none
  next : shows t.queue i = [] ∨
    ∃ e, t.log[t.shown.length]? = some e ∧ e.answer ≠ none ∧ shows t.queue i = [e.outcome]

def ShownAt (inputs : Nat → Input α) (k u : Nat) : Prop :=
  (trace machine inputs u).shown.length = k ∧ shows (trace machine inputs u).queue (inputs u) ≠ []

theorem shown_earlier {inputs : Nat → Input α} {t k u w : Nat} (later : t < u) (shown : ShownAt inputs k u)
    (quiet : ∀ v, t < v → v < w → (inputs v).wires.flush = false) (again : ShownAt inputs k w) : w ≤ u := by
  apply Nat.le_of_not_lt
  intro after
  have grown := (log_grows (fun v from_u before => quiet v (by omega) before) (show u + 1 ≤ w by omega)).2
  have more : (trace machine inputs (u + 1)).shown.length > k := by
    rw [trace_shown (quiet u later after),List.length_append,shown.1]
    have some := List.length_pos_iff.mpr shown.2
    omega
  have same := again.1
  omega

theorem shows_in_order {t : Tracked α} {i : Input α} (inv : Invariant t) (calm : Calm t i) : InOrder t i := by
  refine ⟨⟨inv.shown,by rw [inv.count]; omega⟩,?_,?_⟩
  · intro e member
    obtain ⟨k,found⟩ := List.getElem?_of_mem member
    rw [List.getElem?_take] at found
    split at found
    · rename_i below
      exact inv.done k e below found
    · cases found
  · rcases shows_eq inv calm with ⟨_,none⟩ | ⟨e,_,_,head,done,out⟩
    · exact .inl none
    · exact .inr ⟨e,head,done,out⟩

theorem accepted_shown {inputs : Nat → Input α} (admits : Admits machine inputs) (calm : ∀ t, Calm (trace machine inputs t) (inputs t))
    (fair : Fair inputs) {t : Nat} (accepted : accepts (trace machine inputs t).queue (inputs t).wires = true) :
    ∃ u, t < u ∧ (∀ v, t < v → v < u → (inputs v).wires.flush = false) ∧
      ((inputs u).wires.flush = true ∨ ShownAt inputs (trace machine inputs t).log.length u) := by
  by_cases flushed : ∃ u, t + 1 ≤ u ∧ (inputs u).wires.flush = true
  · obtain ⟨u,later,quiet,last⟩ := holds_until
      (fun u => ∀ v, t < v → v < u → (inputs v).wires.flush = false) (fun u => (inputs u).wires.flush = true)
      (t := t + 1) (by intro v after before; omega) (by
        intro u later quiet still v after before
        by_cases same : v = u
        · rw [same]; simpa using still
        · exact quiet v after (by omega)) flushed
    exact ⟨u,by omega,quiet,.inl last⟩
  · have quiet : ∀ v, t + 1 ≤ v → (inputs v).wires.flush = false := by
      intro v after
      rw [← Bool.not_eq_true]
      exact fun flush => flushed ⟨v,after,flush⟩
    have invariant := trace_invariant admits calm
    have straight := (accepts_parts accepted).2.2
    have count := (invariant t).count
    have logged : (trace machine inputs (t + 1)).log.length = (trace machine inputs t).log.length + 1 := by
      rw [trace_log straight,log_length,accepted]
      rfl
    have shown := (invariant (t + 1)).count
    have ahead : (trace machine inputs (t + 1)).shown.length ≤ (trace machine inputs t).log.length := by
      rw [trace_shown straight,shown_length (invariant t) (calm t)]
      have drawn := advance_le (t := trace machine inputs t) (i := inputs t)
      omega
    obtain ⟨u,later,there,some⟩ := each_shows admits calm fair quiet ahead (by omega)
    exact ⟨u,by omega,fun v after _ => quiet v after,.inr ⟨there,some⟩⟩

theorem fp_results_exactly_once (inputs : Nat → Input α) (admits : Admits machine inputs)
    (calm : ∀ t, Calm (trace machine inputs t) (inputs t)) (fair : Fair inputs) :
    (∀ t, InOrder (trace machine inputs t) (inputs t)) ∧
    ∀ t, accepts (trace machine inputs t).queue (inputs t).wires = true →
      (∃ u, t < u ∧ (∀ v, t < v → v < u → (inputs v).wires.flush = false) ∧
        ((inputs u).wires.flush = true ∨ ShownAt inputs (trace machine inputs t).log.length u)) ∧
      ∀ u, t < u → (∀ v, t < v → v < u → (inputs v).wires.flush = false) →
        ShownAt inputs (trace machine inputs t).log.length u →
        (∃ e, (trace machine inputs u).log[(trace machine inputs t).log.length]? = some e ∧
          e.op = (inputs t).wires.instruction ∧ shows (trace machine inputs u).queue (inputs u) = [e.outcome]) ∧
        ∀ w, t < w → (∀ v, t < v → v < w → (inputs v).wires.flush = false) →
          ShownAt inputs (trace machine inputs t).log.length w → w = u := by
  have invariant := trace_invariant admits calm
  refine ⟨fun t => shows_in_order (invariant t) (calm t),?_⟩
  intro t accepted
  refine ⟨accepted_shown admits calm fair accepted,?_⟩
  rintro u later quiet ⟨there,some⟩
  refine ⟨?_,?_⟩
  · obtain ⟨e,found,op⟩ := log_keeps accepted later quiet
    rcases shows_eq (invariant u) (calm u) with ⟨_,none⟩ | ⟨f,_,_,head,_,out⟩
    · exact absurd none some
    · rw [there] at head
      obtain rfl := Option.some.inj (found.symm.trans head)
      exact ⟨e,found,op,out⟩
  · intro w after calmly again
    exact Nat.le_antisymm (shown_earlier later ⟨there,some⟩ calmly again) (shown_earlier after again quiet ⟨there,some⟩)

-- An addition that writes floating point register 7.
def addition : FpuInstr Unit :=
  { instrZero with
    instr := { InstrEntry.zero with valid := true, unit := .fpu, rd := 7, fregfileWe := true }
    fprd := 40 }

-- A comparison that writes integer register 9.
def comparison : FpuInstr Unit :=
  { instrZero with
    instr := { InstrEntry.zero with valid := true, unit := .fpu, rd := 9, regfileWe := true }
    fprd := 41 }

def ask (op : FpuInstr Unit) : Input Unit := ⟨⟨op,false,false,true,none⟩,0⟩

def answer (owner : Nat) (result : Result) : Input Unit := ⟨⟨instrZero,false,false,true,some result⟩,owner⟩

def idle (flush stall : Bool) : Input Unit := ⟨⟨instrZero,flush,stall,true,none⟩,0⟩

theorem ask_allowed (t : Tracked Unit) {op : FpuInstr Unit} (decoded : op.instr.regfileWe = !op.instr.fregfileWe) : Allowed t (ask op) := by
  refine ⟨?_,fun _ => decoded⟩
  intro result came
  cases came

theorem answer_allowed {t : Tracked Unit} {owner : Nat} {result : Result} (op : FpuInstr Unit)
    (waits : t.log[owner]? = some ⟨op,result.tag,none⟩) : Allowed t (answer owner result) := by
  refine ⟨?_,?_⟩
  · intro came same
    obtain rfl := Option.some.inj same
    exact ⟨_,waits,rfl,rfl⟩
  · intro accepted
    cases (accepts_parts accepted).1

theorem idle_allowed (t : Tracked Unit) (flush stall : Bool) : Allowed t (idle flush stall) := by
  refine ⟨?_,?_⟩
  · intro result came
    cases came
  · intro accepted
    cases (accepts_parts accepted).1

theorem flushed_fair {inputs : Nat → Input Unit} (n : Nat) (ends : ∀ t, inputs (t + n) = idle true false) : Fair inputs where
  answers := by
    intro t _ _ _ _
    exact ⟨t + n,Nat.le_add_right t n,.inl (by rw [ends]; rfl)⟩
  unstalls := by
    intro t
    exact ⟨t + n,Nat.le_add_right t n,by rw [ends]; rfl⟩

-- The comparison is answered before the addition, and is stalled in cycle 5.
def sample : Nat → Input Unit
  | 0 => ask addition
  | 1 => ask comparison
  | 2 => answer 1 ⟨1,1,0⟩
  | 3 => answer 0 ⟨0,5,1⟩
  | 4 => idle false false
  | 5 => idle false true
  | 6 => idle false false
  | _ => idle true false

theorem sample_admits : Admits machine sample := by
  intro t
  rcases t with _ | _ | _ | _ | _ | _ | _ | t
  · exact ask_allowed _ rfl
  · exact ask_allowed _ rfl
  · exact answer_allowed comparison rfl
  · exact answer_allowed addition rfl
  iterate 4 exact idle_allowed _ _ _

theorem sample_calm (t : Nat) : Calm (trace machine sample t) (sample t) := by
  intro stalled
  rcases t with _ | _ | _ | _ | _ | _ | _ | t
  case succ.succ.succ.succ.succ.zero =>
    intro _
    rfl
  all_goals cases stalled

theorem fp_results_exactly_once_sample :
    (trace machine sample 7).shown =
        [(.fp,fpWb { addition with dataRs3 := 5 } true 1),(.scalar,scalarWb { comparison with dataRs3 := 1 } true 0)] ∧
      InOrder (trace machine sample 7) (sample 7) ∧
      (∃ u, 1 < u ∧ (∀ v, 1 < v → v < u → (sample v).wires.flush = false) ∧
        ((sample u).wires.flush = true ∨ ShownAt sample 1 u)) ∧
      ShownAt sample 1 6 ∧
      ∀ w, 1 < w → (∀ v, 1 < v → v < w → (sample v).wires.flush = false) → ShownAt sample 1 w → w = 6 := by
  obtain ⟨order,each⟩ := fp_results_exactly_once sample sample_admits sample_calm (flushed_fair 7 fun _ => rfl)
  obtain ⟨comes,once⟩ := each 1 (by decide)
  have quiet : ∀ v < 6, 1 < v → (sample v).wires.flush = false := by decide
  have shown : ShownAt sample 1 6 := ⟨by decide,by decide⟩
  exact ⟨by decide,order 7,comes,shown,(once 6 (by decide) (fun v later before => quiet v before later) shown).2⟩

-- The addition alone: with a stall in cycle 2 it is shown, stays, and is shown again.
def stalled : Nat → Input Unit
  | 0 => ask addition
  | 1 => answer 0 ⟨0,5,1⟩
  | 2 => idle false true
  | 3 => idle false false
  | _ => idle true false

theorem stalled_admits : Admits machine stalled := by
  intro t
  rcases t with _ | _ | _ | _ | t
  · exact ask_allowed _ rfl
  · exact answer_allowed addition rfl
  iterate 3 exact idle_allowed _ _ _

theorem fp_result_shown_twice :
    Admits machine stalled ∧ Fair stalled ∧ (trace machine stalled 4).log.length = 1 ∧
      (trace machine stalled 4).shown =
        [(.fp,fpWb { addition with dataRs3 := 5 } true 1),(.fp,fpWb { addition with dataRs3 := 5 } true 1)] ∧
      ¬ InOrder (trace machine stalled 4) (stalled 4) := by
  refine ⟨stalled_admits,flushed_fair 4 fun _ => rfl,by decide,by decide,?_⟩
  intro order
  exact absurd order.first.2 (by decide)

end Sargantana.FpuCompletion
