import Sargantana.MemPipeline
import Sargantana.Lib.StateMachine
import Mathlib.Data.List.Forall2

-- Which response completes which request: every request is named by the cycle in which the
-- data cache takes it.
namespace Sargantana.LoadCompletion
open DracPkg MemPipeline StateMachine
open PendingMemReqQueue (Response Slot Valid contents finishInstr)

variable {α δ : Type}

-- The memory unit, the cycle, the requests that the cache has not answered by their tags,
-- and the requests that the registers and the queue stand for
@[ext]
structure Tracked (α δ : Type) where
  core : State α δ
  time : Nat
  outstanding : Fin 128 → Option Nat
  born1 : Option Nat
  born2 : Option Nat
  respBorn : Option Nat
  queue : List Nat

def taken (s : State α δ) (i : Input α δ) : Bool := (request s i).valid && i.signals.ready

def lastBorn (reg : Bool) (t : Tracked α δ) : Option Nat := if reg then t.born2 else t.born1

-- The cache answers requests that it took, once; dcache_interface is not ready for a tag
-- whose request is unanswered. The decoder and exe_stage set the kinds, vagu the mask of an
-- AMO.
structure Contract (t : Tracked α δ) (i : Input α δ) : Prop where
  answered : ∀ r, i.response = some r → t.outstanding r.rd ≠ none
  free : sent t.core i = true →
    t.outstanding t.core.handshake.tagId = none ∨ ∃ r, i.response = some r ∧ r.rd = t.core.handshake.tagId
  store : i.shown.isStore = true → i.shown.isAmoOrStore = true
  amo : i.shown.isAmoOrStore = true → i.shown.isStore = false → i.shown.loadMask.getLsbD 0 = true
  reads : i.shown.isStore = false → needRsp i.shown.instrType = true

-- No response for a waiting request meets its tag in the register of a last stage
-- instruction that asked for nothing.
def Calm (reg : Bool) (t : Tracked α δ) (i : Input α δ) : Prop :=
  ∀ r, delivered reg t.core i = some r → (last reg t.core).instruction.valid = true →
    r.rd = (last reg t.core).tagId → asks (last reg t.core).instruction = false →
    ∀ slot ∈ contents t.core.pmrq, slot.tag ≠ some r.rd

section
variable [Inhabited α] [Inhabited δ]

def trackedNext (reg : Bool) (t : Tracked α δ) (i : Input α δ) : Tracked α δ where
  core := next reg t.core i
  time := t.time + 1
  outstanding := fun tag =>
    if expects t.core i = true ∧ tag = t.core.handshake.tagId then some t.time
    else if i.response.any (fun r => r.rd == tag) then none
    else t.outstanding tag
  born1 := if i.flush then none else if taken t.core i then some t.time else none
  born2 := if i.flush || !reg then none else t.born1
  respBorn := if i.flush || !reg then none else i.response.bind fun r => t.outstanding r.rd
  queue := if i.flush then [] else
    (t.queue ++ if pushes reg t.core i then (lastBorn reg t).toList else []).drop (popsQueue reg t.core i).toNat

def machine (reg : Bool) : Machine (Tracked α δ) (Input α δ) where
  initial := ⟨reset,0,fun _ => none,none,none,none,[]⟩
  allowed := Contract
  step := trackedNext reg

-- What is written back with the data of a response, and for which request
def presents (reg : Bool) (t : Tracked α δ) (i : Input α δ) : Option (Nat × MemInstr α × δ) :=
  match writeback reg t.core i with
  | some (.response,x,data) => (lastBorn reg t).map fun n => (n,x,data)
  | some (.queue,x,data) => t.queue.head?.map fun n => (n,x,data)
  | _ => none

def fromQueue (reg : Bool) (t : Tracked α δ) (i : Input α δ) : Bool :=
  (writeback reg t.core i).any fun w => w.1 == .queue

-- Request n for x has been taken before cycle u, and not flushed since.
structure Live (reg : Bool) (inputs : Nat → Input α δ) (u n : Nat) (x : MemInstr α) : Prop where
  before : n < u
  taken : taken (trace (machine reg) inputs n).core (inputs n) = true
  op : (inputs n).shown = x
  quiet : ∀ v, n ≤ v → v < u → (inputs v).flush = false

def Answered (reg : Bool) (inputs : Nat → Input α δ) (u n : Nat) (data : δ) : Prop :=
  ∃ v r, n < v ∧ v < u ∧ (inputs v).response = some r ∧ (trace (machine reg) inputs v).outstanding r.rd = some n ∧
    r.data = data

end

-- The answer to request n is still to come, or waits in the register of the responses.
def Awaits (t : Tracked α δ) (tag : Fin 128) (n : Nat) : Prop :=
  t.outstanding tag = some n ∨ (t.respBorn = some n ∧ ∃ r, t.core.respQ = some r ∧ r.rd = tag)

-- The registers of a stage and the request that they stand for
structure Stage (stage : StageReg α) (born : Option Nat) : Prop where
  born : born.isSome = (stage.instruction.valid && asks stage.instruction)
  kind : stage.instruction.valid = true →
    stage.isStoreOrAmo = stage.instruction.isAmoOrStore ∧ stage.isStore = stage.instruction.isStore
  store : stage.instruction.isStore = true → stage.instruction.isAmoOrStore = true
  amo : stage.instruction.isAmoOrStore = true → stage.instruction.isStore = false → stage.instruction.loadMask.getLsbD 0 = true
  reads : stage.instruction.isStore = false → needRsp stage.instruction.instrType = true

def depth (reg : Bool) : Nat := if reg then 2 else 1

theorem pushes_born {reg : Bool} {t : Tracked α δ} {i : Input α δ} (stage : Stage (last reg t.core) (lastBorn reg t)) (push : pushes reg t.core i = true) :
    ∃ n, lastBorn reg t = some n := by
  simp only [pushes,Bool.and_eq_true,Bool.not_eq_true'] at push
  obtain ⟨⟨⟨⟨valid,_⟩,clean⟩,_⟩,unstored⟩ := push
  have load : (last reg t.core).instruction.isStore = false := (stage.kind valid).2 ▸ unstored
  have ask : asks (last reg t.core).instruction = true := by
    cases kind : (last reg t.core).instruction.isAmoOrStore with
    | false => simp [asks,clean,kind]
    | true => simp only [asks,clean,kind,stage.amo kind load]; rfl
  apply Option.isSome_iff_exists.mp
  rw [stage.born,valid,ask]
  rfl

theorem pops_some {reg : Bool} {t : Tracked α δ} {i : Input α δ} (pop : popsQueue reg t.core i = true) : 0 < t.core.pmrq.num.val := by
  simp only [popsQueue,Bool.and_eq_true] at pop
  cases found : finishInstr t.core.pmrq with
  | none => simp [found] at pop
  | some slot =>
    unfold finishInstr at found
    split at found
    · rename_i some
      exact some.1
    · cases found

theorem advance_pops [Inhabited α] {reg : Bool} {t : Tracked α δ} {i : Input α δ} :
    PendingMemReqQueue.advanceHeadEnable t.core.pmrq (pmrqInput reg t.core i) = popsQueue reg t.core i := by
  change (popsQueue reg t.core i && decide (0 < t.core.pmrq.num.val)) = _
  cases pop : popsQueue reg t.core i with
  | false => rfl
  | true => simp [pops_some pop]

theorem taken_cases (s : State α δ) (i : Input α δ) :
    ((request s i).advance = true → i.shown.valid = true) ∧ taken s i = ((request s i).advance && asks i.shown) ∧
      (taken s i = true → s.fullPmrqQ = false ∧ i.signals.ready = true) := by
  unfold taken request
  split
  · simp
  · obtain ⟨valid,same,free⟩ := request_cases (wired s i) i.shown
    change (_ && i.signals.ready) = _ at same
    refine ⟨valid,same,?_⟩
    intro goes
    have room : s.fullPmrqQ = false := free (same ▸ goes)
    simp only [Bool.and_eq_true] at goes
    exact ⟨room,goes.2⟩

theorem taken_sent {s : State α δ} {i : Input α δ} (goes : taken s i = true) : sent s i = true := by
  simp only [taken,Bool.and_eq_true] at goes
  simp [sent,MemRequest.reqValid,goes.1,goes.2]

theorem taken_expects {s : State α δ} {i : Input α δ} (goes : taken s i = true) : expects s i = needRsp i.shown.instrType := by
  have known := taken_sent goes
  simp only [taken,Bool.and_eq_true] at goes
  simp [expects,known,MemRequest.reqCpuDcache,MemRequest.killedD,goes.1]

-- The full flag is held while the cache is not ready; no request is taken then.
theorem held_room {goes ready held : Bool} {num waiting stages : Nat} (free : goes = true → held = false ∧ ready = true)
    (bound : waiting ≤ stages) (room : num + waiting + (!held).toNat ≤ 14 + stages) :
    num + waiting + goes.toNat +
      (!(if ready || !decide (13 ≤ num) then decide (13 ≤ num) else held)).toNat ≤ 14 + stages := by
  by_cases many : 13 ≤ num
  · cases goes with
    | true =>
      obtain ⟨rfl,rfl⟩ := free rfl
      simpa [many] using room
    | false =>
      cases ready with
      | true => simp [many]; omega
      | false => simpa [many] using room
  · have last := Bool.toNat_le goes
    simp only [many,decide_false,Bool.not_false,Bool.or_true,if_true,Bool.toNat_true]
    omega

theorem replayed_other {s : MemPipeline.State α δ} {i : Input α δ} {slot : Slot α δ}
    (other : ∀ r, delivered reg s i = some r → slot.tag ≠ some r.rd) :
    PendingMemReqQueue.replayed (replay reg s i) slot = slot := by
  unfold PendingMemReqQueue.replayed
  split
  · rfl
  · rename_i r replays
    rw [if_neg]
    have came : delivered reg s i = some r := by
      unfold replay at replays
      split at replays
      · cases replays
      · exact replays
    exact other r came

section
variable [Inhabited α] [Inhabited δ]

-- An entry of the queue and the request that it stands for
structure Holds (reg : Bool) (inputs : Nat → Input α δ) (u : Nat) (t : Tracked α δ) (n : Nat) (slot : Slot α δ) : Prop where
  live : Live reg inputs u n slot.instruction
  older : n + depth reg < u
  valid : slot.instruction.valid = true
  state : (slot.finishBit = true ∧ slot.tag = none ∧ Answered reg inputs u n slot.data) ∨
    (slot.finishBit = false ∧ ∃ tag, slot.tag = some tag ∧ Awaits t tag n)

-- A stage holds the instruction of request n, and no older request waits for its tag.
structure Owns (reg : Bool) (inputs : Nat → Input α δ) (u : Nat) (stage : StageReg α) (waits : Fin 128 → Nat → Prop) (n : Nat) :
    Prop where
  live : Live reg inputs u n stage.instruction
  asked : needRsp stage.instruction.instrType = true → waits stage.tagId n
  owner : ∀ m, waits stage.tagId m → n ≤ m
  io : stage.io = (inputs n).io

structure Invariant (reg : Bool) (inputs : Nat → Input α δ) (u : Nat) (t : Tracked α δ) : Prop where
  time : t.time = u
  valid : Valid t.core.pmrq
  past : ∀ tag n, t.outstanding tag = some n → n < u
  stage1 : Stage t.core.s1 t.born1
  born1 : ∀ n, t.born1 = some n → n + 1 = u ∧ Owns reg inputs u t.core.s1 (fun tag m => t.outstanding tag = some m) n
  stage2 : Stage t.core.s2 t.born2
  born2 : ∀ n, t.born2 = some n → n + 2 = u ∧ Owns reg inputs u t.core.s2 (Awaits t) n
  single : reg = false → t.born2 = none ∧ t.core.respQ = none
  resp : ∀ r, t.core.respQ = some r → (∃ n, t.respBorn = some n ∧ Answered reg inputs u n r.data) ∧
    ∀ n, t.outstanding r.rd = some n → n + 1 = u
  queue : List.Forall₂ (Holds reg inputs u t) t.queue (contents t.core.pmrq)
  sorted : t.queue.Pairwise (· < ·)
  room : t.core.pmrq.num.val + t.born1.isSome.toNat + t.born2.isSome.toNat + (!t.core.fullPmrqQ).toNat ≤ 14 + depth reg

variable {reg : Bool} {inputs : Nat → Input α δ} {u n : Nat} {t : Tracked α δ}

theorem Live.later {x : MemInstr α} (live : Live reg inputs u n x) (straight : (inputs u).flush = false) :
    Live reg inputs (u + 1) n x := by
  refine ⟨Nat.lt_succ_of_lt live.before,live.taken,live.op,?_⟩
  intro v after before
  by_cases now : v = u
  · rw [now]; exact straight
  · exact live.quiet v after (by omega)

theorem Answered.later {data : δ} (answered : Answered reg inputs u n data) : Answered reg inputs (u + 1) n data := by
  obtain ⟨v,r,after,before,rest⟩ := answered
  exact ⟨v,r,after,Nat.lt_succ_of_lt before,rest⟩

theorem last_stage (inv : Invariant reg inputs u t) : Stage (last reg t.core) (lastBorn reg t) := by
  cases reg with
  | false => exact inv.stage1
  | true => exact inv.stage2

theorem last_born (inv : Invariant reg inputs u t) (found : lastBorn reg t = some n) :
    n + depth reg = u ∧ Owns reg inputs u (last reg t.core) (Awaits t) n := by
  cases reg with
  | false =>
    obtain ⟨time,owns⟩ := inv.born1 n found
    refine ⟨time,owns.live,fun answered => .inl (owns.asked answered),?_,owns.io⟩
    rintro m (asked | ⟨_,r,there,_⟩)
    · exact owns.owner m asked
    · rw [(inv.single rfl).2] at there
      cases there
  | true => exact inv.born2 n found

-- The response that is delivered is the one of the request that awaits its tag.
theorem delivered_owner (inv : Invariant reg inputs u (trace (machine reg) inputs u)) {r : Response δ} {tag : Fin 128}
    (came : delivered reg (trace (machine reg) inputs u).core (inputs u) = some r) (same : r.rd = tag)
    (old : n + depth reg ≤ u) (waits : Awaits (trace (machine reg) inputs u) tag n) :
    Answered reg inputs (u + 1) n r.data := by
  cases reg with
  | false =>
    rcases waits with asked | ⟨_,q,there,_⟩
    · exact ⟨u,r,inv.past _ _ asked,Nat.lt_succ_self u,came,same ▸ asked,rfl⟩
    · rw [(inv.single rfl).2] at there
      cases there
  | true =>
    obtain ⟨⟨owner,born,answered⟩,fresh⟩ := inv.resp r came
    rcases waits with asked | ⟨there,_⟩
    · have late := fresh n (same ▸ asked)
      simp only [depth,if_true] at old
      omega
    · obtain rfl := Option.some.inj (there.symm.trans born)
      exact answered.later

variable {i : Input α δ}

theorem asked_keeps (contract : Contract t i) (straight : i.flush = false) {tag : Fin 128}
    (asked : t.outstanding tag = some n) (missed : reg = false → ∀ r, i.response = some r → r.rd ≠ tag) :
    Awaits (trackedNext reg t i) tag n := by
  by_cases now : ∃ r, i.response = some r ∧ r.rd = tag
  · obtain ⟨r,came,same⟩ := now
    cases reg with
    | false => exact absurd same (missed rfl r came)
    | true =>
      refine .inr ⟨?_,r,?_,same⟩
      · simp [trackedNext,straight,came,same,asked]
      · simp [trackedNext,next,straight,came]
  · refine .inl ?_
    have other : ¬ (expects t.core i = true ∧ tag = t.core.handshake.tagId) := by
      rintro ⟨goes,here⟩
      rcases contract.free (Bool.and_eq_true _ _ ▸ goes).1 with free | again
      · rw [← here,asked] at free
        cases free
      · rw [← here] at again
        exact now again
    have silent : i.response.any (fun r => r.rd == tag) = false := by
      cases came : i.response with
      | none => rfl
      | some r =>
        have differ : r.rd ≠ tag := fun same => now ⟨r,came,same⟩
        simp [differ]
    simp only [trackedNext,if_neg other,silent,Bool.false_eq_true,if_false]
    exact asked

theorem awaits_keeps (contract : Contract t i) (straight : i.flush = false) (single : reg = false → t.core.respQ = none)
    {tag : Fin 128} (waits : Awaits t tag n) (missed : ∀ r, delivered reg t.core i = some r → r.rd ≠ tag) :
    Awaits (trackedNext reg t i) tag n := by
  rcases waits with asked | ⟨_,r,there,same⟩
  · refine asked_keeps contract straight asked ?_
    intro plain r came
    exact missed r (by simp [delivered,plain,came])
  · cases reg with
    | false =>
      rw [single rfl] at there
      cases there
    | true => exact absurd same (missed r (by simp [delivered,there]))

theorem push_room (inv : Invariant reg inputs u t) (push : pushes reg t.core i = true) : t.core.pmrq.num.val < 16 := by
  obtain ⟨n,born⟩ := pushes_born (last_stage inv) push
  have room := inv.room
  cases reg with
  | false =>
    change t.born1 = some n at born
    simp only [born,Option.isSome_some,Bool.toNat_true,depth,Bool.false_eq_true,if_false] at room
    omega
  | true =>
    change t.born2 = some n at born
    simp only [born,Option.isSome_some,Bool.toNat_true,depth,if_true] at room
    omega

theorem write_pushes (inv : Invariant reg inputs u t) :
    PendingMemReqQueue.writeEnable t.core.pmrq (pmrqInput reg t.core i) = pushes reg t.core i := by
  cases push : pushes reg t.core i with
  | false => simp [PendingMemReqQueue.writeEnable,pmrqInput,push,MemInstr.zero]
  | true =>
    have valid : (last reg t.core).instruction.valid = true := by
      simp only [pushes,Bool.and_eq_true] at push
      exact push.1.1.1.1
    simp [PendingMemReqQueue.writeEnable,pmrqInput,push,valid,push_room inv push]

theorem slot_aside (inv : Invariant reg inputs u (trace (machine reg) inputs u))
    (calm : Calm reg (trace (machine reg) inputs u) (inputs u)) {slot : Slot α δ} {tag : Fin 128} {r : Response δ}
    (holds : Holds reg inputs u (trace (machine reg) inputs u) n slot)
    (inside : slot ∈ contents (trace (machine reg) inputs u).core.pmrq) (tagged : slot.tag = some tag)
    (waits : Awaits (trace (machine reg) inputs u) tag n)
    (came : delivered reg (trace (machine reg) inputs u).core (inputs u) = some r) (here : r.rd = tag) :
    answers reg (trace (machine reg) inputs u).core (inputs u) = false := by
  rw [Bool.eq_false_iff]
  intro hit
  obtain ⟨valid,r',came',there⟩ := (answers_iff _ _ _).mp hit
  obtain rfl := Option.some.inj (came.symm.trans came')
  cases ask : asks (last reg (trace (machine reg) inputs u).core).instruction with
  | false => exact calm r came valid there ask slot inside (by rw [tagged,here])
  | true =>
    have stage := last_stage inv
    obtain ⟨m,born⟩ : ∃ m, lastBorn reg (trace (machine reg) inputs u) = some m := by
      apply Option.isSome_iff_exists.mp
      rw [stage.born,valid,ask]
      rfl
    obtain ⟨time,owns⟩ := last_born inv born
    have late := owns.owner n (by rw [← there,here]; exact waits)
    have before := holds.older
    omega

theorem holds_next (inv : Invariant reg inputs u (trace (machine reg) inputs u))
    (contract : Contract (trace (machine reg) inputs u) (inputs u)) (calm : Calm reg (trace (machine reg) inputs u) (inputs u))
    (straight : (inputs u).flush = false) {slot : Slot α δ}
    (holds : Holds reg inputs u (trace (machine reg) inputs u) n slot)
    (inside : slot ∈ contents (trace (machine reg) inputs u).core.pmrq) :
    Holds reg inputs (u + 1) (trace (machine reg) inputs (u + 1)) n
      (PendingMemReqQueue.replayed (replay reg (trace (machine reg) inputs u).core (inputs u)) slot) := by
  change Holds reg inputs (u + 1) (trackedNext reg (trace (machine reg) inputs u) (inputs u)) n _
  have old : n + depth reg ≤ u := Nat.le_of_lt holds.older
  have live := holds.live.later straight
  have older : n + depth reg < u + 1 := Nat.lt_succ_of_lt holds.older
  rcases holds.state with ⟨finished,done,answered⟩ | ⟨waiting,tag,tagged,waits⟩
  · rw [replayed_other fun r _ => by rw [done]; simp]
    exact ⟨live,older,holds.valid,.inl ⟨finished,done,answered.later⟩⟩
  · by_cases met : ∃ r, delivered reg (trace (machine reg) inputs u).core (inputs u) = some r ∧ r.rd = tag
    · obtain ⟨r,came,here⟩ := met
      have answered := delivered_owner inv came here old waits
      have aside := slot_aside inv calm holds inside tagged waits came here
      have replays : replay reg (trace (machine reg) inputs u).core (inputs u) = some r := by
        simp [replay,aside,came]
      have done : PendingMemReqQueue.replayed (replay reg (trace (machine reg) inputs u).core (inputs u)) slot =
          { slot with data := r.data, tag := none, finishBit := true } := by
        simp [PendingMemReqQueue.replayed,replays,tagged,here]
      rw [done]
      exact ⟨live,older,holds.valid,.inl ⟨rfl,rfl,answered⟩⟩
    · rw [replayed_other fun r came equal => met ⟨r,came,Option.some.inj (equal.symm.trans tagged)⟩]
      refine ⟨live,older,holds.valid,.inr ⟨waiting,tag,tagged,?_⟩⟩
      exact awaits_keeps contract straight (fun plain => (inv.single plain).2) waits fun r came there => met ⟨r,came,there⟩

theorem zero_stage {stage : StageReg α} (zero : stage.instruction = MemInstr.zero) : Stage stage none := by
  refine ⟨by rw [zero]; rfl,?_,?_,?_,fun _ => by rw [zero]; rfl⟩
  · intro valid; rw [zero] at valid; cases valid
  · intro store; rw [zero] at store; cases store
  · intro amo; rw [zero] at amo; cases amo

theorem stage1_next (contract : Contract t i) : Stage (nextS1 t.core i) (trackedNext reg t i).born1 := by
  obtain ⟨valid,same,_⟩ := taken_cases t.core i
  cases straight : i.flush with
  | true => simp only [nextS1,trackedNext,straight,if_true]; exact zero_stage rfl
  | false =>
    simp only [nextS1,trackedNext,straight,Bool.false_eq_true,if_false,s1D]
    cases advance : (request t.core i).advance with
    | false =>
      simp only [advance,Bool.false_and] at same
      simp only [same,Bool.false_eq_true,if_false]
      exact zero_stage rfl
    | true =>
      simp only [advance,Bool.true_and] at same
      refine ⟨?_,fun _ => ⟨rfl,rfl⟩,contract.store,contract.amo,contract.reads⟩
      simp only [same,if_true,valid advance,Bool.true_and]
      cases asks i.shown <;> rfl

theorem past_next (inv : Invariant reg inputs u t) {tag : Fin 128} (asked : (trackedNext reg t i).outstanding tag = some n) :
    n < u + 1 := by
  simp only [trackedNext] at asked
  split at asked
  · have here := Option.some.inj asked
    have time := inv.time
    omega
  · split at asked
    · cases asked
    · exact Nat.lt_succ_of_lt (inv.past _ _ asked)

theorem stages_bound (inv : Invariant reg inputs u t) : t.born1.isSome.toNat + t.born2.isSome.toNat ≤ depth reg := by
  have bound1 := Bool.toNat_le t.born1.isSome
  have bound2 := Bool.toNat_le t.born2.isSome
  cases reg with
  | false =>
    simp only [(inv.single rfl).1,Option.isSome_none,Bool.toNat_false,depth]
    exact bound1
  | true =>
    simp only [depth,if_true]
    omega

-- The threshold leaves room for what stage 0 and the registers still send to the queue.
theorem room_next (inv : Invariant reg inputs u t) : (trackedNext reg t i).core.pmrq.num.val + (trackedNext reg t i).born1.isSome.toNat +
    (trackedNext reg t i).born2.isSome.toNat + (!(trackedNext reg t i).core.fullPmrqQ).toNat ≤ 14 + depth reg := by
  cases straight : i.flush with
  | true =>
    have empty : (trackedNext reg t i).core.pmrq.num.val = 0 := by
      simp [trackedNext,next,PendingMemReqQueue.next,pmrqInput,straight]
    have none1 : (trackedNext reg t i).born1 = none := by simp [trackedNext,straight]
    have none2 : (trackedNext reg t i).born2 = none := by simp [trackedNext,straight]
    have bound := Bool.toNat_le (!(trackedNext reg t i).core.fullPmrqQ)
    simp only [empty,none1,none2,Option.isSome_none,Bool.toNat_false]
    omega
  | false =>
    have count := PendingMemReqQueue.next_num (i := pmrqInput reg t.core i) inv.valid straight
    rw [write_pushes inv,advance_pops] at count
    have pushed : (pushes reg t.core i).toNat ≤ (lastBorn reg t).isSome.toNat := by
      cases push : pushes reg t.core i with
      | false => exact Nat.zero_le _
      | true =>
        obtain ⟨n,born⟩ := pushes_born (last_stage inv) push
        simp [born]
    obtain ⟨_,_,free⟩ := taken_cases t.core i
    have born1 : (trackedNext reg t i).born1.isSome = taken t.core i := by
      simp only [trackedNext,straight,Bool.false_eq_true,if_false]
      cases taken t.core i <;> rfl
    have born2 : (trackedNext reg t i).born2 = if reg then t.born1 else none := by
      simp only [trackedNext,straight,Bool.false_or]
      cases reg <;> rfl
    have register : (trackedNext reg t i).core.fullPmrqQ =
        if i.signals.ready || !decide (13 ≤ t.core.pmrq.num.val) then decide (13 ≤ t.core.pmrq.num.val) else t.core.fullPmrqQ := by
      simp [trackedNext,next,PendingMemReqQueue.full,straight]
    change (trackedNext reg t i).core.pmrq.num.val = _ at count
    have room := inv.room
    rw [Nat.add_assoc t.core.pmrq.num.val] at room
    have threshold := held_room free (stages_bound inv) room
    rw [count,born1,born2,register]
    cases reg with
    | false =>
      change _ ≤ t.born1.isSome.toNat at pushed
      simp only [Option.isSome_none,Bool.toNat_false,Bool.false_eq_true,if_false]
      omega
    | true =>
      change _ ≤ t.born2.isSome.toNat at pushed
      simp only [if_true]
      omega

theorem born1_next (inv : Invariant reg inputs u (trace (machine reg) inputs u))
    (contract : Contract (trace (machine reg) inputs u) (inputs u))
    (found : (trace (machine reg) inputs (u + 1)).born1 = some n) :
    n + 1 = u + 1 ∧ Owns reg inputs (u + 1) (nextS1 (trace (machine reg) inputs u).core (inputs u))
      (fun tag m => (trace (machine reg) inputs (u + 1)).outstanding tag = some m) n := by
  change (trackedNext reg (trace (machine reg) inputs u) (inputs u)).born1 = some n at found
  change _ ∧ Owns reg inputs (u + 1) _ (fun tag m => (trackedNext reg (trace (machine reg) inputs u) (inputs u)).outstanding tag = some m) n
  have time := inv.time
  generalize here : trace (machine reg) inputs u = t at contract found time ⊢
  simp only [trackedNext] at found
  split at found
  · cases found
  · rename_i straight
    rw [Bool.not_eq_true] at straight
    split at found
    · rename_i goes
      have now : u = n := time.symm.trans (Option.some.inj found)
      subst now
      have stage : nextS1 t.core (inputs u) = ⟨(inputs u).shown,(inputs u).shown.isAmoOrStore,(inputs u).shown.isStore,
          (inputs u).io,t.core.handshake.tagId⟩ := by
        obtain ⟨_,same,_⟩ := taken_cases t.core (inputs u)
        rw [goes,eq_comm,Bool.and_eq_true] at same
        simp only [nextS1,straight,Bool.false_eq_true,if_false,s1D,same.1,if_true]
      rw [stage]
      refine ⟨rfl,⟨Nat.lt_succ_self u,here ▸ goes,rfl,?_⟩,?_,?_,rfl⟩
      · intro v after before
        rw [show v = u by omega]
        exact straight
      · intro answered
        have awaited : expects t.core (inputs u) = true := by rw [taken_expects goes]; exact answered
        simp [trackedNext,awaited,time]
      · intro m asked
        simp only [trackedNext,and_true] at asked
        split at asked
        · exact Nat.le_of_eq (time.symm.trans (Option.some.inj asked))
        · split at asked
          · cases asked
          · -- A store that is not to be answered has taken a tag that nothing waits for.
            rename_i silent
            rcases contract.free (taken_sent goes) with free | ⟨r,came,same⟩
            · rw [free] at asked
              cases asked
            · exact absurd (by simp [came,same]) silent
    · cases found

theorem born2_next (inv : Invariant reg inputs u (trace (machine reg) inputs u))
    (contract : Contract (trace (machine reg) inputs u) (inputs u))
    (found : (trace (machine reg) inputs (u + 1)).born2 = some n) :
    n + 2 = u + 1 ∧ Owns reg inputs (u + 1) (trace (machine reg) inputs (u + 1)).core.s2 (Awaits (trace (machine reg) inputs (u + 1))) n := by
  have born : (inputs u).flush = false ∧ reg = true ∧ (trace (machine reg) inputs u).born1 = some n := by
    change (trackedNext reg (trace (machine reg) inputs u) (inputs u)).born2 = some n at found
    simp only [trackedNext] at found
    split at found
    · cases found
    · rename_i free
      simp only [Bool.or_eq_true,Bool.not_eq_true',not_or,Bool.not_eq_true,Bool.not_eq_false] at free
      exact ⟨free.1,free.2,found⟩
  obtain ⟨straight,rfl,before⟩ := born
  obtain ⟨time,owns⟩ := inv.born1 n before
  have moved : (trace (machine true) inputs (u + 1)).core.s2 = (trace (machine true) inputs u).core.s1 := by
    change (next true (trace (machine true) inputs u).core (inputs u)).s2 = _
    simp [next,straight]
  rw [moved]
  refine ⟨by omega,owns.live.later straight,?_,?_,owns.io⟩
  · intro answered
    exact asked_keeps contract straight (owns.asked answered) fun plain => by cases plain
  · rintro m (asked | ⟨born,r,there,same⟩)
    · change (trackedNext true _ _).outstanding _ = some m at asked
      simp only [trackedNext] at asked
      have now := inv.time
      split at asked
      · have late := Option.some.inj asked
        omega
      · split at asked
        · cases asked
        · exact owns.owner m asked
    · change (trackedNext true _ _).respBorn = some m at born
      change (next true _ _).respQ = some r at there
      simp only [next,straight,Bool.not_true,Bool.or_false,Bool.false_eq_true,if_false] at there
      simp only [trackedNext,straight,Bool.not_true,Bool.or_false,Bool.false_eq_true,if_false,there,Option.bind_some,same] at born
      exact owns.owner m born

theorem resp_next (inv : Invariant reg inputs u (trace (machine reg) inputs u))
    (contract : Contract (trace (machine reg) inputs u) (inputs u)) {r : Response δ}
    (found : (trace (machine reg) inputs (u + 1)).core.respQ = some r) :
    (∃ n, (trace (machine reg) inputs (u + 1)).respBorn = some n ∧ Answered reg inputs (u + 1) n r.data) ∧
      ∀ n, (trace (machine reg) inputs (u + 1)).outstanding r.rd = some n → n + 1 = u + 1 := by
  have came : (inputs u).flush = false ∧ reg = true ∧ (inputs u).response = some r := by
    change (next reg (trace (machine reg) inputs u).core (inputs u)).respQ = some r at found
    simp only [next] at found
    split at found
    · cases found
    · rename_i free
      simp only [Bool.or_eq_true,Bool.not_eq_true',not_or,Bool.not_eq_true,Bool.not_eq_false] at free
      exact ⟨free.1,free.2,found⟩
  obtain ⟨straight,rfl,came⟩ := came
  obtain ⟨n,asked⟩ := Option.ne_none_iff_exists'.mp (contract.answered r came)
  refine ⟨⟨n,?_,u,r,inv.past _ _ asked,Nat.lt_succ_self u,came,asked,rfl⟩,?_⟩
  · change (trackedNext true (trace (machine true) inputs u) (inputs u)).respBorn = some n
    simp [trackedNext,straight,came,asked]
  · intro m again
    change (trackedNext true (trace (machine true) inputs u) (inputs u)).outstanding r.rd = some m at again
    have time := inv.time
    simp only [trackedNext,came,Option.any_some,beq_self_eq_true,if_true] at again
    split at again
    · have same := Option.some.inj again
      omega
    · cases again

theorem queue_older (inv : Invariant reg inputs u t) {n : Nat} (inside : n ∈ t.queue) : n + depth reg < u :=
  ((List.forall₂_and_left _ _).mp (inv.queue.imp fun _ _ holds => ⟨holds.older,holds⟩)).1 n inside

theorem written_holds (inv : Invariant reg inputs u (trace (machine reg) inputs u))
    (contract : Contract (trace (machine reg) inputs u) (inputs u)) (straight : (inputs u).flush = false)
    (push : pushes reg (trace (machine reg) inputs u).core (inputs u) = true)
    (born : lastBorn reg (trace (machine reg) inputs u) = some n) :
    Holds reg inputs (u + 1) (trace (machine reg) inputs (u + 1)) n
      (PendingMemReqQueue.written (pmrqInput reg (trace (machine reg) inputs u).core (inputs u))) := by
  obtain ⟨time,owns⟩ := last_born inv born
  have stage := last_stage inv
  have fresh : answers reg (trace (machine reg) inputs u).core (inputs u) = false ∧
      (last reg (trace (machine reg) inputs u).core).instruction.valid = true ∧
      (last reg (trace (machine reg) inputs u).core).isStore = false := by
    simp only [pushes,Bool.and_eq_true,Bool.not_eq_true'] at push
    exact ⟨push.1.1.1.2,push.1.1.1.1,push.2⟩
  have waits := owns.asked (stage.reads ((stage.kind fresh.2.1).2 ▸ fresh.2.2))
  have same : PendingMemReqQueue.written (pmrqInput reg (trace (machine reg) inputs u).core (inputs u)) =
      ⟨(last reg (trace (machine reg) inputs u).core).instruction,default,some (last reg (trace (machine reg) inputs u).core).tagId,false⟩ := by
    simp [PendingMemReqQueue.written,pmrqInput,push]
  rw [same]
  refine ⟨owns.live.later straight,by omega,fresh.2.1,.inr ⟨rfl,_,rfl,?_⟩⟩
  refine awaits_keeps contract straight (fun plain => (inv.single plain).2) waits ?_
  intro r came here
  have hit := (answers_iff reg _ _).mpr ⟨fresh.2.1,r,came,here⟩
  rw [fresh.1] at hit
  cases hit

theorem queue_next (inv : Invariant reg inputs u (trace (machine reg) inputs u))
    (contract : Contract (trace (machine reg) inputs u) (inputs u)) (calm : Calm reg (trace (machine reg) inputs u) (inputs u)) :
    List.Forall₂ (Holds reg inputs (u + 1) (trace (machine reg) inputs (u + 1)))
        (trace (machine reg) inputs (u + 1)).queue (contents (trace (machine reg) inputs (u + 1)).core.pmrq) ∧
      (trace (machine reg) inputs (u + 1)).queue.Pairwise (· < ·) := by
  have list : (trace (machine reg) inputs (u + 1)).queue = (trackedNext reg (trace (machine reg) inputs u) (inputs u)).queue := rfl
  have table : (trace (machine reg) inputs (u + 1)).core.pmrq = PendingMemReqQueue.next (trace (machine reg) inputs u).core.pmrq
      (pmrqInput reg (trace (machine reg) inputs u).core (inputs u)) := rfl
  rw [list,table]
  cases straight : (inputs u).flush with
  | true =>
    rw [PendingMemReqQueue.flush_contents straight]
    simp [trackedNext,straight]
  | false =>
    rw [PendingMemReqQueue.next_contents inv.valid straight,write_pushes inv,advance_pops]
    simp only [trackedNext,straight,Bool.false_eq_true,if_false]
    have kept : List.Forall₂ (Holds reg inputs (u + 1) (trace (machine reg) inputs (u + 1))) (trace (machine reg) inputs u).queue
        ((contents (trace (machine reg) inputs u).core.pmrq).map
          (PendingMemReqQueue.replayed (pmrqInput reg (trace (machine reg) inputs u).core (inputs u)).replay)) := by
      obtain ⟨length,each⟩ := List.forall₂_iff_zip.mp inv.queue
      refine List.forall₂_map_right_iff.mpr (List.forall₂_iff_zip.mpr ⟨length,?_⟩)
      intro n slot pair
      exact holds_next inv contract calm straight (each pair) (List.of_mem_zip pair).2
    cases push : pushes reg (trace (machine reg) inputs u).core (inputs u) with
    | false =>
      simp only [Bool.false_eq_true,if_false,List.append_nil]
      exact ⟨List.forall₂_drop _ kept,inv.sorted.drop⟩
    | true =>
      obtain ⟨n,born⟩ := pushes_born (last_stage inv) push
      simp only [if_true,born,Option.toList_some]
      refine ⟨List.forall₂_drop _ (List.rel_append kept (.cons (written_holds inv contract straight push born) .nil)),?_⟩
      refine List.Pairwise.drop (List.pairwise_append.mpr ⟨inv.sorted,List.pairwise_singleton _ _,?_⟩)
      intro m inside k new
      obtain rfl := List.mem_singleton.mp new
      have before := queue_older inv inside
      have time := (last_born inv born).1
      omega

theorem invariant_next (inv : Invariant reg inputs u (trace (machine reg) inputs u))
    (contract : Contract (trace (machine reg) inputs u) (inputs u)) (calm : Calm reg (trace (machine reg) inputs u) (inputs u)) :
    Invariant reg inputs (u + 1) (trace (machine reg) inputs (u + 1)) where
  time := congrArg (· + 1) inv.time
  valid := PendingMemReqQueue.next_valid inv.valid
  past := fun _ _ asked => past_next inv asked
  stage1 := stage1_next contract
  born1 := fun _ found => born1_next inv contract found
  stage2 := by
    change Stage (if _ then _ else _) (if _ then _ else _)
    split
    · exact zero_stage rfl
    · exact inv.stage1
  born2 := fun _ found => born2_next inv contract found
  single := by
    rintro rfl
    change (if _ then _ else _) = _ ∧ (if _ then _ else _) = _
    simp
  resp := fun _ found => resp_next inv contract found
  queue := (queue_next inv contract calm).1
  sorted := (queue_next inv contract calm).2
  room := room_next inv

theorem invariant_initial : Invariant reg inputs 0 (trace (machine reg) inputs 0) where
  time := rfl
  valid := PendingMemReqQueue.reset_valid
  past := fun _ _ asked => by cases asked
  stage1 := zero_stage rfl
  born1 := fun _ found => by cases found
  stage2 := zero_stage rfl
  born2 := fun _ found => by cases found
  single := fun _ => ⟨rfl,rfl⟩
  resp := fun _ found => by cases found
  queue := .nil
  sorted := .nil
  room := by
    change 0 + 0 + 0 + 1 ≤ 14 + depth reg
    omega

theorem trace_invariant (admits : Admits (machine reg) inputs) (calm : ∀ u, Calm reg (trace (machine reg) inputs u) (inputs u)) (u : Nat) :
    Invariant reg inputs u (trace (machine reg) inputs u) := by
  induction u with
  | zero => exact invariant_initial
  | succ u ih => exact invariant_next ih (admits u) (calm u)

end

end Sargantana.LoadCompletion
