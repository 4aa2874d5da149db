import Sargantana.HpdcacheMemToAxiRead
import Sargantana.Lib.PointerFifo
import Sargantana.Lib.Bytes
import Sargantana.Lib.StateMachine
import Sargantana.Lib.Ticket
import Mathlib.Data.List.Perm.Basic
import Mathlib.Data.List.Induction

-- The read adapter between the data cache and an AXI slave: one response for each request, with its bytes
namespace Sargantana.AxiReadService

open DracPkg HpdcacheMem HpdcacheMemToAxiRead StateMachine PointerFifo Bytes

structure Read where
  number : Nat
  req : MemReq
  deriving DecidableEq

structure Beat where
  data : BitVec 64
  resp : BitVec 2
  deriving DecidableEq

-- `owed` are the accepted ARs whose burst has not begun, `burst` is the one in progress with its beats so far,
-- `done` the one whose response is presented, `waiting` a request that was not accepted.
structure World where
  adapter : State
  count : Nat
  owed : List Read
  burst : Option (Read × List Beat)
  done : Option (Read × List Beat)
  waiting : Option MemReq

-- The pins of a cycle, and which AR the slave answers when it begins a burst
structure Step where
  pins : Input
  pick : Nat

def arFires (i : Input) : Bool := axiArValid i && i.axiArReady

def rFires (s : State) (i : Input) : Bool := i.axiRValid && axiRReady s

def accepts (s : State) (i : Input) : Bool := i.reqValid && reqReady s i

def returns (s : State) (i : Input) : Bool := respValid s && i.respReady

def beat (i : Input) : Beat := ⟨i.axiRData,i.axiRResp⟩

-- The burst that a beat of this cycle belongs to, with the beats before it
def current (w : World) (p : Step) : Option (Read × List Beat) :=
  match w.burst with
  | some inside => some inside
  | none => w.owed[p.pick]?.map fun r => (r,[])

def grown (w : World) (p : Step) : Option (Read × List Beat) := (current w p).map fun x => (x.1,x.2 ++ [beat p.pins])

def after (w : World) (p : Step) : World where
  adapter := next w.adapter p.pins
  count := if arFires p.pins then w.count + 1 else w.count
  owed :=
    (if rFires w.adapter p.pins && w.burst.isNone then w.owed.eraseIdx p.pick else w.owed) ++
      (if arFires p.pins then [⟨w.count,p.pins.req⟩] else [])
  burst := if rFires w.adapter p.pins then (if p.pins.axiRLast then none else grown w p) else w.burst
  done :=
    if rFires w.adapter p.pins && p.pins.axiRLast then grown w p
    else if returns w.adapter p.pins then none
    else w.done
  waiting := if p.pins.reqValid && !reqReady w.adapter p.pins then some p.pins.req else none

structure Contract (w : World) (p : Step) : Prop where
  request : p.pins.reqValid = true → WellFormed p.pins.req
  held : ∀ req, w.waiting = some req → p.pins.reqValid = true ∧ p.pins.req = req
  -- a burst of len + 1 beats for an accepted AR, in order per id
  burst : p.pins.axiRValid = true → ∃ r beats, current w p = some (r,beats) ∧ p.pins.axiRId = r.req.id ∧
    (p.pins.axiRLast = true ↔ beats.length = (axiLen r.req.size).toNat)
  order : p.pins.axiRValid = true → w.burst = none → ∀ j < p.pick, ∀ r, w.owed[j]? = some r → r.req.id ≠ p.pins.axiRId

def machine : Machine World Step where
  initial :=
    { adapter := reset
      count := 0
      owed := []
      burst := none
      done := none
      waiting := none }
  allowed := Contract
  step := after

-- The slave takes an AR while the adapter has no room for the request.
def Refused (s : State) (i : Input) : Prop := i.reqValid = true ∧ i.axiArReady = true ∧ metaFull s = true

-- Where the adapter puts the data: by the word of the address, or at the end of the line
def placeOf (m : ArMeta) : Option (BitVec 3) := if m.isUc then some m.wordIdx else none

-- A burst begins whose place is not that of the first request in the queue.
def Overtakes (w : World) (p : Step) : Prop := rFires w.adapter p.pins = true ∧ w.burst = none ∧
  ∃ r, w.owed[p.pick]? = some r ∧ placeOf (metaOf r.req) ≠ placeOf (curMeta w.adapter)

-- An access of more than one beat that does not reach the end of the line
def Partial (req : MemReq) : Prop := isUc req.size = false ∧ req.addr.toNat % 64 + bytes req ≠ 64

def Meets (w : World) (p : Step) : Prop :=
  ¬ Refused w.adapter p.pins ∧ ¬ Overtakes w p ∧ ¬ (arFires p.pins = true ∧ Partial p.pins.req)

-- The response of the cycle belongs to r, whose beats these are.
structure Answers (s : State) (r : Read) (beats : List Beat) : Prop where
  id : s.respId = r.req.id
  length : beats.length = (axiLen r.req.size).toNat + 1
  error : s.err = true ↔ ∃ b ∈ beats, isError b.resp = true
  bytes : ∀ j < bytes r.req, ∃ b, beats[j / 8]? = some b ∧
    byteAt s.line ((r.req.addr.toNat + j) % 64) = byteAt b.data ((r.req.addr.toNat + j) % 8)

structure Sound (w : World) (p : Step) : Prop where
  request : arFires p.pins = accepts w.adapter p.pins
  overflow : metaPush w.adapter p.pins = true → w.adapter.metaWrPtr + 1 ≠ w.adapter.metaRdPtr
  underflow : metaPop w.adapter p.pins = true → w.adapter.metaWrPtr ≠ w.adapter.metaRdPtr
  response : respValid w.adapter = true → ∃ r beats, w.done = some (r,beats) ∧ Answers w.adapter r beats

def assemble (m : ArMeta) (beats : List Beat) : BitVec 512 := beats.foldl (fun line b => lineAfter m line b.data) 0

theorem assemble_snoc {m : ArMeta} {beats : List Beat} {b : Beat} : assemble m (beats ++ [b]) = lineAfter m (assemble m beats) b.data := by
  simp [assemble]

theorem lineAfter_place {one two : ArMeta} {line : BitVec 512} {data : BitVec 64} (same : placeOf one = placeOf two) :
    lineAfter one line data = lineAfter two line data := by
  unfold placeOf at same
  unfold lineAfter
  cases first : one.isUc <;> cases second : two.isUc <;> simp [first,second] at same ⊢
  rw [same]

theorem lineAfter_shifted {m : ArMeta} (whole : m.isUc = false) (line : BitVec 512) (data : BitVec 64) : lineAfter m line data = shiftIn line data := by
  rw [← shiftIn_append (r := 448)]
  simp [lineAfter,whole]

theorem assemble_gather {m : ArMeta} (whole : m.isUc = false) (beats : List Beat) : assemble m beats = gather (beats.map (·.data)) := by
  induction beats using List.reverseRecOn with
  | nil => rfl
  | append_singleton beats last ih => rw [assemble_snoc,lineAfter_shifted whole,ih,List.map_append,List.map_singleton,gather_snoc]

theorem assemble_end {m : ArMeta} (whole : m.isUc = false) {beats : List Beat} (fits : beats.length ≤ 8) {k l : Nat} {b : Beat}
    (at' : beats[k]? = some b) (lane : l < 8) : byteAt (assemble m beats) (64 - 8 * beats.length + 8 * k + l) = byteAt b.data l := by
  have word : (beats.map (·.data))[k]? = some b.data := by rw [List.getElem?_map,at']; rfl
  have placed := gather_byte (m := 8) (n := 64) (by rw [List.length_map]; omega) word lane
  rw [List.length_map] at placed
  rw [assemble_gather whole]
  exact placed

theorem assemble_word {m : ArMeta} (single : m.isUc = true) {b : Beat} {l : Nat} (lane : l < 8) :
    byteAt (assemble m [b]) (8 * m.wordIdx.toNat + l) = byteAt b.data l := by
  have small := m.wordIdx.isLt
  have shifted : assemble m [b] = b.data.setWidth 512 <<< (8 * (8 * m.wordIdx.toNat)) := by
    simp only [assemble,List.foldl_cons,List.foldl_nil,lineAfter,single,if_true]
    congr 1
    omega
  rw [shifted,byteAt_shiftLeft (by omega),byteAt_setWidth (by omega)]

theorem assembled {req : MemReq} (formed : WellFormed req) (reaches : ¬ Partial req) {beats : List Beat}
    (whole : beats.length = (axiLen req.size).toNat + 1) {j : Nat} (inside : j < bytes req) : ∃ b, beats[j / 8]? = some b ∧
      byteAt (assemble (metaOf req) beats) ((req.addr.toNat + j) % 64) = byteAt b.data ((req.addr.toNat + j) % 8) := by
  cases single : isUc req.size with
  | true =>
    obtain ⟨length,_⟩ := axiLen_single req.size single
    have within := bytes_inside formed single
    obtain ⟨b,rfl⟩ := List.length_eq_one_iff.mp (by omega : beats.length = 1)
    have first : j / 8 = 0 := by omega
    refine ⟨b,by simp [first],?_⟩
    have place : (req.addr.toNat + j) % 64 = 8 * (metaOf req).wordIdx.toNat + (req.addr.toNat + j) % 8 := by
      simp only [metaOf,wordIdx_val]
      omega
    rw [place]
    exact assemble_word (m := metaOf req) single (by omega)
  | false =>
    obtain ⟨length,fits⟩ := axiLen_whole req.size single formed.size
    have words := (bytes_words formed single).1
    have ends : req.addr.toNat % 64 + bytes req = 64 := by
      by_contra short
      exact reaches ⟨single,short⟩
    have index : j / 8 < beats.length := by
      unfold bytes at inside
      omega
    refine ⟨_,List.getElem?_eq_getElem index,?_⟩
    have placed := assemble_end (m := metaOf req) single (show beats.length ≤ 8 by omega) (List.getElem?_eq_getElem index)
      (by omega : j % 8 < 8)
    have place : 64 - 8 * beats.length + 8 * (j / 8) + j % 8 = (req.addr.toNat + j) % 64 := by
      unfold bytes at inside ends
      omega
    have lane : (req.addr.toNat + j) % 8 = j % 8 := by omega
    rw [← place,lane]
    exact placed

def metas (s : State) : Fifo 4 ArMeta := ⟨s.metaQ,s.metaWrPtr,s.metaRdPtr⟩

theorem metas_next (s : State) (i : Input) : metas (next s i) =
    (metas s).step (if metaPush s i then some (metaOf i.req) else none) (metaPop s i) := by
  cases push : metaPush s i <;> cases pop : metaPop s i <;>
    simp only [metas,next,Fifo.step,push,pop,Bool.false_eq_true,if_true,if_false,Option.elim,Option.isSome]

theorem metas_full (s : State) : metaFull s = true ↔ (metas s).Full := by simp [metaFull,metas,Fifo.Full]

-- The reads whose last beat has not come
def pending (w : World) : List Read := (w.burst.map (·.1)).toList ++ w.owed

def placeReq (r : Read) : Option (BitVec 3) := placeOf (metaOf r.req)

def numbers (w : World) : List Nat := (w.done.map (·.1.number)).toList ++ (pending w).map (·.number)

structure Holds (s : State) (r : Read) (beats : List Beat) : Prop where
  line : s.line = assemble (metaOf r.req) beats
  error : s.err = true ↔ ∃ b ∈ beats, isError b.resp = true

-- What the state of the adapter says of the reads
structure Tracks (w : World) : Prop where
  burst : ∀ r beats, w.burst = some (r,beats) → w.adapter.rState = .assemble ∧ placeOf (curMeta w.adapter) = placeReq r ∧
    beats.length ≤ (axiLen r.req.size).toNat ∧ Holds w.adapter r beats
  idle : w.adapter.rState = .assemble → w.done = none ∧ (w.burst = none → w.adapter.line = 0 ∧ w.adapter.err = false)
  done : w.adapter.rState = .deliver → w.burst = none ∧ ∃ r beats, w.done = some (r,beats) ∧ w.adapter.respId = r.req.id ∧
    beats.length = (axiLen r.req.size).toNat + 1 ∧ Holds w.adapter r beats ∧ WellFormed r.req ∧ ¬ Partial r.req

structure Invariant (w : World) : Prop extends Tracks w where
  queue : ((metas w.adapter).contents.map placeOf).Perm ((pending w).map placeReq)
  formed : ∀ r ∈ pending w, WellFormed r.req ∧ ¬ Partial r.req
  distinct : (numbers w).Nodup
  below : ∀ n ∈ numbers w, n < w.count

theorem invariant_start : Invariant machine.initial where
  burst _ _ inside := by cases inside
  idle := by
    intro _
    exact ⟨rfl,fun _ => ⟨rfl,rfl⟩⟩
  done state := by cases state
  queue := by decide
  formed _ inside := by cases inside
  distinct := List.nodup_nil
  below _ inside := by cases inside

def rest (w : World) (p : Step) : List Read := if w.burst.isNone then w.owed.eraseIdx p.pick else w.owed

theorem current_perm {w : World} {p : Step} {r : Read} {beats : List Beat} (now : current w p = some (r,beats)) :
    (pending w).Perm (r :: rest w p) := by
  unfold current at now
  cases burst : w.burst with
  | some inside =>
      simp only [burst,Option.some.injEq] at now
      simp [pending,rest,burst,now]
  | none =>
      simp only [burst,Option.map_eq_some_iff,Prod.mk.injEq] at now
      obtain ⟨q,at',rfl,_⟩ := now
      obtain ⟨inside,rfl⟩ := List.getElem?_eq_some_iff.mp at'
      simp only [pending,rest,burst,Option.map_none,Option.toList_none,List.nil_append,Option.isNone_none,if_true]
      exact (List.getElem_cons_eraseIdx_perm inside).symm

theorem fires_parts {s : State} {i : Input} (fires : rFires s i = true) : s.rState = .assemble ∧ i.axiRValid = true := by
  simp only [rFires,axiRReady,Bool.and_eq_true,decide_eq_true_eq] at fires
  exact ⟨fires.2,fires.1⟩

theorem current_pending {w : World} {p : Step} {r : Read} {beats : List Beat} (now : current w p = some (r,beats)) : pending w ≠ [] := by
  intro none'
  have taken := current_perm now
  rw [none'] at taken
  exact absurd taken.length_eq (by simp)

theorem fires_accepts {w : World} {p : Step} (meets : Meets w p) : arFires p.pins = accepts w.adapter p.pins ∧ metaPush w.adapter p.pins = arFires p.pins := by
  have room := meets.1
  simp only [Refused,not_and,Bool.not_eq_true] at room
  simp only [arFires,axiArValid,accepts,reqReady,metaPush]
  cases valid : p.pins.reqValid <;> cases ready : p.pins.axiArReady <;> simp
  exact room valid ready

section step

variable {w : World} {p : Step} (invariant : Invariant w)
include invariant

-- A beat finds its own metadata at the head of the queue.
theorem current_place (meets : Meets w p) (fires : rFires w.adapter p.pins = true) {r : Read} {beats : List Beat}
    (now : current w p = some (r,beats)) : placeOf (curMeta w.adapter) = placeReq r ∧ Holds w.adapter r beats := by
  unfold current at now
  cases burst : w.burst with
  | some inside =>
      simp only [burst,Option.some.injEq] at now
      subst now
      obtain ⟨_,place,_,holds⟩ := invariant.burst r beats burst
      exact ⟨place,holds⟩
  | none =>
      simp only [burst,Option.map_eq_some_iff,Prod.mk.injEq] at now
      obtain ⟨q,at',rfl,rfl⟩ := now
      obtain ⟨line,err⟩ := (invariant.idle (fires_parts fires).1).2 burst
      refine ⟨?_,line,by rw [err]; simp⟩
      by_contra other
      exact meets.2.1 ⟨fires,burst,q,at',fun same => other same.symm⟩

theorem pending_queued (some' : pending w ≠ []) : ¬ (metas w.adapter).Empty := by
  rw [empty_length]
  intro none'
  have same := invariant.queue.length_eq
  simp only [List.length_map] at same
  exact some' (List.eq_nil_of_length_eq_zero (by omega))

end step

theorem current_some {w : World} {p : Step} (contract : Contract w p) (fires : rFires w.adapter p.pins = true) : ∃ r beats, current w p = some (r,beats) ∧ p.pins.axiRId = r.req.id ∧
    (p.pins.axiRLast = true ↔ beats.length = (axiLen r.req.size).toNat) := by
  simp only [rFires,Bool.and_eq_true] at fires
  exact contract.burst fires.1

def fresh (w : World) (p : Step) : List Read := if arFires p.pins then [⟨w.count,p.pins.req⟩] else []

-- What a cycle does to the reads: nothing, a beat that is not the last, or the last beat
inductive Move (w : World) (p : Step) : Prop where
  | quiet (silent : rFires w.adapter p.pins = false) (pop : metaPop w.adapter p.pins = false)
      (burst : (after w p).burst = w.burst) (reads : pending (after w p) = pending w ++ fresh w p)
  | adds (r : Read) (beats : List Beat) (fires : rFires w.adapter p.pins = true) (now : current w p = some (r,beats))
      (more : p.pins.axiRLast = false) (pop : metaPop w.adapter p.pins = false)
      (burst : (after w p).burst = some (r,beats ++ [beat p.pins])) (reads : pending (after w p) = r :: rest w p ++ fresh w p)
  | ends (r : Read) (beats : List Beat) (fires : rFires w.adapter p.pins = true) (now : current w p = some (r,beats))
      (last : p.pins.axiRLast = true) (pop : metaPop w.adapter p.pins = true)
      (burst : (after w p).burst = none) (reads : pending (after w p) = rest w p ++ fresh w p)

theorem move {w : World} {p : Step} (contract : Contract w p) : Move w p := by
  cases fires : rFires w.adapter p.pins with
  | false =>
      refine .quiet fires ?_ (by simp [after,fires]) (by simp [pending,after,fires,fresh])
      simp only [rFires,axiRReady,Bool.and_eq_false_iff] at fires
      simp only [metaPop,Bool.and_eq_false_iff]
      exact .inl fires.symm
  | true =>
      obtain ⟨r,beats,now,_⟩ := current_some contract fires
      have state := fires_parts fires
      cases last : p.pins.axiRLast with
      | false =>
          refine .adds r beats fires now last (by simp [metaPop,last]) (by simp [after,fires,last,grown,now]) ?_
          simp [pending,after,fires,last,grown,now,rest,fresh]
      | true =>
          refine .ends r beats fires now last (by simp [metaPop,last,state]) (by simp [after,fires,last]) ?_
          simp [pending,after,fires,last,rest,fresh]

theorem holds_next {w : World} {p : Step} {r : Read} {beats : List Beat} (fires : rFires w.adapter p.pins = true) (place : placeOf (curMeta w.adapter) = placeReq r)
    (holds : Holds w.adapter r beats) : Holds (after w p).adapter r (beats ++ [beat p.pins]) := by
  obtain ⟨state,valid⟩ := fires_parts fires
  have line : (after w p).adapter.line = lineAfter (curMeta w.adapter) w.adapter.line p.pins.axiRData := by
    simp [after,next,state,valid,lineNext]
  have err : (after w p).adapter.err = if isError p.pins.axiRResp then true else w.adapter.err := by
    simp [after,next,state,valid]
  refine ⟨?_,?_⟩
  · rw [line,assemble_snoc,holds.line]
    exact lineAfter_place place
  · rw [err]
    have before := holds.error
    cases bad : isError p.pins.axiRResp <;> simp [beat,bad,before]

theorem head_kept {w : World} {p : Step} (invariant : Invariant w) (some' : pending w ≠ []) (pop : metaPop w.adapter p.pins = false) : curMeta (after w p).adapter = curMeta w.adapter := by
  have nonempty := pending_queued invariant some'
  have rd : (after w p).adapter.metaRdPtr = w.adapter.metaRdPtr := by
    change (if metaPop w.adapter p.pins then w.adapter.metaRdPtr + 1 else w.adapter.metaRdPtr) = _
    rw [pop]
    rfl
  have table : (after w p).adapter.metaQ w.adapter.metaRdPtr = w.adapter.metaQ w.adapter.metaRdPtr := by
    simp only [after,next]
    split
    · exact Function.update_of_ne (fun same => nonempty same.symm) _ _
    · rfl
  rw [curMeta,rd,table,curMeta]

theorem numbers_distinct {w : World} {p : Step} (invariant : Invariant w) : (numbers w ++ (fresh w p).map (·.number)).Nodup := by
  refine List.nodup_append.mpr ⟨invariant.distinct,?_,?_⟩
  · unfold fresh
    split <;> simp
  · intro n old m new equal
    have small := invariant.below n old
    unfold fresh at new
    cases fires : arFires p.pins <;> simp [fires] at new
    omega

theorem rState_next (w : World) (p : Step) : (after w p).adapter.rState = match w.adapter.rState with
    | .assemble => if p.pins.axiRValid && p.pins.axiRLast then .deliver else .assemble
    | .deliver => if p.pins.respReady then .assemble else .deliver := rfl

section next

variable {w : World} {p : Step} (invariant : Invariant w) (contract : Contract w p)
include invariant contract

theorem queue_next (meets : Meets w p) :
    ((metas (after w p).adapter).contents.map placeOf).Perm ((pending (after w p)).map placeReq) := by
  have pushes := (fires_accepts meets).2
  have popped : metaPop w.adapter p.pins = true → ¬ (metas w.adapter).Empty := by
    intro pop
    have fires : rFires w.adapter p.pins = true := by
      simp only [metaPop,Bool.and_eq_true,decide_eq_true_eq] at pop
      simp [rFires,axiRReady,pop]
    obtain ⟨r,beats,now,_⟩ := current_some contract fires
    exact pending_queued invariant (current_pending now)
  have room : (if metaPush w.adapter p.pins then some (metaOf p.pins.req) else none).isSome = true → ¬ (metas w.adapter).Full := by
    intro push
    rw [← metas_full]
    cases full : metaFull w.adapter with
    | false => simp
    | true => simp [metaPush,full] at push
  have contents : (metas (after w p).adapter).contents = (metas w.adapter).contents.drop (if metaPop w.adapter p.pins then 1 else 0) ++
      (if metaPush w.adapter p.pins then some (metaOf p.pins.req) else none).toList := by
    rw [show (after w p).adapter = next w.adapter p.pins from rfl,metas_next]
    exact contents_step room popped
  have added : ((if metaPush w.adapter p.pins then some (metaOf p.pins.req) else none).toList.map placeOf) = (fresh w p).map placeReq := by
    rw [pushes,fresh]
    cases arFires p.pins <;> rfl
  rw [contents,List.map_append,added]
  cases move contract with
  | quiet _ pop _ reads =>
      rw [reads,pop,List.map_append]
      exact invariant.queue.append_right _
  | adds r beats _ now _ pop _ reads =>
      rw [reads,pop,List.map_append]
      exact (invariant.queue.trans ((current_perm now).map _)).append_right _
  | ends r beats fires now _ pop _ reads =>
      have place := (current_place invariant meets fires now).1
      obtain ⟨others,head⟩ := contents_head (popped pop)
      have same := invariant.queue.trans ((current_perm now).map placeReq)
      have front : placeOf ((metas w.adapter).table (metas w.adapter).rd) = placeReq r := place
      rw [head,List.map_cons,List.map_cons,front] at same
      rw [reads,pop,head,List.map_append]
      exact ((List.perm_cons _).mp same).append_right _

theorem numbers_next : ((if returns w.adapter p.pins then (w.done.map (·.1.number)).toList else []) ++ numbers (after w p)).Perm
    (numbers w ++ (fresh w p).map (·.number)) := by
  have state (fires : rFires w.adapter p.pins = true) : w.done = none ∧ returns w.adapter p.pins = false := by
    have phase := (fires_parts fires).1
    exact ⟨(invariant.idle phase).1,by simp [returns,respValid,phase]⟩
  cases move contract with
  | quiet silent _ _ reads =>
      have done : (after w p).done = if returns w.adapter p.pins then none else w.done := by simp [after,silent]
      rw [numbers,reads,done,numbers,List.map_append]
      cases returns w.adapter p.pins <;> simp
  | adds r beats fires now more _ _ reads =>
      obtain ⟨free,unreturned⟩ := state fires
      have done : (after w p).done = none := by simp [after,more,unreturned,free]
      rw [numbers,reads,done,numbers,free,unreturned]
      simpa using (((current_perm now).map (·.number)).append_right ((fresh w p).map (·.number))).symm
  | ends r beats fires now last _ _ reads =>
      obtain ⟨free,unreturned⟩ := state fires
      have done : (after w p).done = some (r,beats ++ [beat p.pins]) := by simp [after,fires,last,grown,now]
      rw [numbers,reads,done,numbers,free,unreturned]
      simpa using (((current_perm now).map (·.number)).append_right ((fresh w p).map (·.number))).symm

theorem current_length {r : Read} {beats : List Beat} (now : current w p = some (r,beats)) (fires : rFires w.adapter p.pins = true) :
    beats.length ≤ (axiLen r.req.size).toNat ∧ (p.pins.axiRLast = true ↔ beats.length = (axiLen r.req.size).toNat) ∧
      p.pins.axiRId = r.req.id := by
  obtain ⟨q,others,same,id,last⟩ := current_some contract fires
  rw [now,Option.some.injEq,Prod.mk.injEq] at same
  obtain ⟨rfl,rfl⟩ := same
  refine ⟨?_,last,id⟩
  unfold current at now
  cases burst : w.burst with
  | some inside =>
      simp only [burst,Option.some.injEq] at now
      exact (invariant.burst r beats (burst.trans (congrArg some now))).2.2.1
  | none =>
      simp only [burst,Option.map_eq_some_iff,Prod.mk.injEq] at now
      obtain ⟨_,_,_,rfl⟩ := now
      exact Nat.zero_le _

theorem formed_next (meets : Meets w p) : ∀ r ∈ pending (after w p), WellFormed r.req ∧ ¬ Partial r.req := by
  have new : ∀ r ∈ fresh w p, WellFormed r.req ∧ ¬ Partial r.req := by
    intro r inside
    unfold fresh at inside
    cases fires : arFires p.pins with
    | false => simp [fires] at inside
    | true =>
      simp only [fires,if_true,List.mem_singleton] at inside
      subst inside
      have valid : p.pins.reqValid = true := by
        simp only [arFires,axiArValid,Bool.and_eq_true] at fires
        exact fires.1
      exact ⟨contract.request valid,fun partial' => meets.2.2 ⟨fires,partial'⟩⟩
  intro r inside
  cases move contract with
  | quiet _ _ _ reads =>
      rw [reads,List.mem_append] at inside
      exact inside.elim (invariant.formed r) (new r)
  | adds q beats _ now _ _ _ reads =>
      rw [reads,List.cons_append,List.mem_cons,List.mem_append,← or_assoc,← List.mem_cons] at inside
      exact inside.elim (fun old => invariant.formed r ((current_perm now).mem_iff.mpr old)) (new r)
  | ends q beats _ now _ _ _ reads =>
      rw [reads,List.mem_append] at inside
      exact inside.elim (fun old => invariant.formed r ((current_perm now).mem_iff.mpr (List.mem_cons_of_mem q old))) (new r)

theorem numbers_kept : (numbers (after w p)).Nodup ∧ ∀ n ∈ numbers (after w p), n < (after w p).count := by
  have same := numbers_next invariant contract
  have count : (after w p).count = if arFires p.pins then w.count + 1 else w.count := rfl
  refine ⟨(List.nodup_append.mp (same.nodup_iff.mpr (numbers_distinct invariant))).2.1,?_⟩
  intro n inside
  have before := same.mem_iff.mp (List.mem_append_right _ inside)
  rw [count]
  rcases List.mem_append.mp before with old | new
  · have small := invariant.below n old
    split <;> omega
  · unfold fresh at new
    cases fires : arFires p.pins <;> simp [fires] at new ⊢
    omega

omit contract in
theorem tracks_waiting (phase : w.adapter.rState = .assemble) (silent : rFires w.adapter p.pins = false)
    (pop : metaPop w.adapter p.pins = false) (burst : (after w p).burst = w.burst) : Tracks (after w p) := by
  have quiet : p.pins.axiRValid = false := by simpa [rFires,axiRReady,phase] using silent
  obtain ⟨free,blank⟩ := invariant.idle phase
  have same : (after w p).adapter.line = w.adapter.line ∧ (after w p).adapter.err = w.adapter.err := by
    simp [after,next,phase,quiet]
  have still : (after w p).adapter.rState = .assemble := by rw [rState_next,phase,quiet]; rfl
  refine ⟨?_,?_,?_⟩
  · intro r beats inside
    rw [burst] at inside
    obtain ⟨_,place,length,line,err⟩ := invariant.burst r beats inside
    refine ⟨still,?_,length,same.1.trans line,by rw [same.2]; exact err⟩
    rw [head_kept invariant (by simp [pending,inside]) pop]
    exact place
  · intro _
    refine ⟨by simp [after,silent,free],?_⟩
    intro none'
    rw [same.1,same.2]
    exact blank (burst.symm.trans none')
  · intro moved
    rw [still] at moved
    cases moved

omit contract in
theorem tracks_delivering (phase : w.adapter.rState = .deliver) (silent : rFires w.adapter p.pins = false)
    (burst : (after w p).burst = w.burst) : Tracks (after w p) := by
  have done : (after w p).done = if returns w.adapter p.pins then none else w.done := by simp [after,silent]
  obtain ⟨alone,r,beats,answer,id,length,holds,good⟩ := invariant.done phase
  have none' : (after w p).burst = none := burst.trans alone
  refine ⟨?_,?_,?_⟩
  · intro q others inside
    rw [none'] at inside
    cases inside
  · intro moved
    rw [rState_next,phase] at moved
    cases ready : p.pins.respReady with
    | false => simp [ready] at moved
    | true =>
      refine ⟨by simp [done,returns,respValid,phase,ready],fun _ => ?_⟩
      simp only [after,next,phase,ready,if_true,and_self]
  · intro stays
    rw [rState_next,phase] at stays
    cases ready : p.pins.respReady with
    | true => simp [ready] at stays
    | false =>
      have kept : (after w p).adapter.line = w.adapter.line ∧ (after w p).adapter.err = w.adapter.err ∧
          (after w p).adapter.respId = w.adapter.respId := by simp [after,next,phase,ready]
      refine ⟨none',r,beats,by simp [done,returns,ready,answer],kept.2.2.trans id,length,⟨kept.1.trans holds.line,?_⟩,good⟩
      rw [kept.2.1]
      exact holds.error

theorem tracks_beat (meets : Meets w p) {r : Read} {beats : List Beat} (fires : rFires w.adapter p.pins = true)
    (now : current w p = some (r,beats)) (more : p.pins.axiRLast = false) (pop : metaPop w.adapter p.pins = false)
    (burst : (after w p).burst = some (r,beats ++ [beat p.pins])) : Tracks (after w p) := by
  obtain ⟨short,last,_⟩ := current_length invariant contract now fires
  obtain ⟨place,holds⟩ := current_place invariant meets fires now
  have phase := (fires_parts fires).1
  have still : (after w p).adapter.rState = .assemble := by rw [rState_next,phase,more]; simp
  refine ⟨?_,?_,?_⟩
  · intro q others inside
    rw [burst,Option.some.injEq,Prod.mk.injEq] at inside
    obtain ⟨rfl,rfl⟩ := inside
    have room : beats.length ≠ (axiLen r.req.size).toNat := fun whole => by simp [last.mpr whole] at more
    refine ⟨still,?_,?_,holds_next fires place holds⟩
    · rw [head_kept invariant (current_pending now) pop]
      exact place
    · rw [List.length_append,List.length_singleton]
      omega
  · intro _
    refine ⟨?_,fun none' => by rw [burst] at none'; cases none'⟩
    simp [after,more,returns,respValid,phase,(invariant.idle phase).1]
  · intro moved
    rw [still] at moved
    cases moved

theorem tracks_last (meets : Meets w p) {r : Read} {beats : List Beat} (fires : rFires w.adapter p.pins = true)
    (now : current w p = some (r,beats)) (last : p.pins.axiRLast = true) (burst : (after w p).burst = none) : Tracks (after w p) := by
  obtain ⟨_,whole,id⟩ := current_length invariant contract now fires
  obtain ⟨place,holds⟩ := current_place invariant meets fires now
  have phase := fires_parts fires
  have moves : (after w p).adapter.rState = .deliver := by rw [rState_next,phase.1,phase.2,last]; rfl
  refine ⟨?_,?_,?_⟩
  · intro q others inside
    rw [burst] at inside
    cases inside
  · intro moved
    rw [moves] at moved
    cases moved
  · intro _
    refine ⟨burst,r,beats ++ [beat p.pins],by simp [after,fires,last,grown,now],?_,?_,holds_next fires place holds,?_⟩
    · simp [after,next,phase,last,id]
    · rw [List.length_append,List.length_singleton,whole.mp last]
    · exact invariant.formed r ((current_perm now).mem_iff.mpr List.mem_cons_self)

theorem invariant_next (meets : Meets w p) : Invariant (after w p) := by
  obtain ⟨distinct,below⟩ := numbers_kept invariant contract
  have tracks : Tracks (after w p) := by
    cases move contract with
    | quiet silent pop burst _ =>
        cases phase : w.adapter.rState with
        | assemble => exact tracks_waiting invariant phase silent pop burst
        | deliver => exact tracks_delivering invariant phase silent burst
    | adds r beats fires now more pop burst _ => exact tracks_beat invariant contract meets fires now more pop burst
    | ends r beats fires now last _ burst _ => exact tracks_last invariant contract meets fires now last burst
  exact ⟨tracks,queue_next invariant contract meets,formed_next invariant contract meets,distinct,below⟩

end next

theorem sound_now {w : World} {p : Step} (invariant : Invariant w) (contract : Contract w p) (meets : Meets w p) : Sound w p where
  request := (fires_accepts meets).1
  overflow push full := by
    have closed : metaFull w.adapter = true := by simpa [metaFull] using full
    simp [metaPush,closed] at push
  underflow pop empty := by
    have fires : rFires w.adapter p.pins = true := by
      simp only [metaPop,Bool.and_eq_true,decide_eq_true_eq] at pop
      simp [rFires,axiRReady,pop]
    obtain ⟨r,beats,now,_⟩ := current_some contract fires
    exact pending_queued invariant (current_pending now) empty
  response valid := by
    have state : w.adapter.rState = .deliver := by simpa [respValid] using valid
    obtain ⟨_,r,beats,answer,id,length,holds,formed,reaches⟩ := invariant.done state
    refine ⟨r,beats,answer,id,length,holds.error,?_⟩
    intro j inside
    rw [holds.line]
    exact assembled formed reaches length inside

section run

variable (inputs : Nat → Step)

def world (t : Nat) : World := trace machine inputs t

-- The request of cycle t is accepted; the requests are numbered in the order of acceptance.
def Accepted (t : Nat) : Prop := arFires (inputs t).pins = true

def Returned (t n : Nat) : Prop := returns (world inputs t).adapter (inputs t).pins = true ∧ ∃ x, (world inputs t).done = some x ∧ x.1.number = n

def Finished (t n : Nat) : Prop := rFires (world inputs t).adapter (inputs t).pins = true ∧ (inputs t).pins.axiRLast = true ∧
  ∃ x, current (world inputs t) (inputs t) = some x ∧ x.1.number = n

-- The data cache takes responses again and again, and a slave whose beats are taken ends each burst.
structure Fair : Prop where
  takes : ∀ t, ∃ u, t ≤ u ∧ (inputs u).pins.respReady = true
  ends : (∀ t, ∃ u, t ≤ u ∧ axiRReady (world inputs u).adapter = true) →
    ∀ t, ∀ r ∈ pending (world inputs t), ∃ u, t ≤ u ∧ Finished inputs u r.number

structure Served : Prop where
  sound : ∀ t, Sound (world inputs t) (inputs t)
  -- each accepted request is answered exactly once, with the bytes of its own address
  once : ∀ t, Accepted inputs t → ∃ u, t < u ∧ Returned inputs u (world inputs t).count ∧
    (∀ v, Returned inputs v (world inputs t).count → v = u) ∧
    ∃ beats, (world inputs u).done = some (⟨(world inputs t).count,(inputs t).pins.req⟩,beats)
  -- and nothing else is answered
  only : ∀ u n, Returned inputs u n → ∃ t, t < u ∧ Accepted inputs t ∧ (world inputs t).count = n

def tickets : Ticket.Tickets where
  issues := Accepted inputs
  count t := (world inputs t).count
  inflight t n := n ∈ numbers (world inputs t)
  finishes := Returned inputs

variable {inputs}

theorem invariant_kept (admits : Admits machine inputs) (t : Nat) (meets : ∀ u < t, Meets (world inputs u) (inputs u)) : Invariant (world inputs t) := by
  induction t with
  | zero => exact invariant_start
  | succ t ih => exact invariant_next (ih fun u earlier => meets u (by omega)) (admits t) (meets t (by omega))

theorem flight_accepted (admits : Admits machine inputs) (t : Nat) : ∀ r, (r ∈ pending (world inputs t) ∨ ∃ beats, (world inputs t).done = some (r,beats)) →
    ∃ u, u < t ∧ Accepted inputs u ∧ r = ⟨(world inputs u).count,(inputs u).pins.req⟩ := by
  induction t with
  | zero =>
    rintro r (inside | ⟨beats,done⟩)
    · cases inside
    · cases done
  | succ t ih =>
    have before : ∀ r, r ∈ pending (world inputs t) ∨ (∃ beats, (world inputs t).done = some (r,beats)) ∨ r ∈ fresh (world inputs t) (inputs t) →
        ∃ u, u < t + 1 ∧ Accepted inputs u ∧ r = ⟨(world inputs u).count,(inputs u).pins.req⟩ := by
      rintro r (inside | done | new)
      · obtain ⟨u,earlier,found⟩ := ih r (.inl inside)
        exact ⟨u,by omega,found⟩
      · obtain ⟨u,earlier,found⟩ := ih r (.inr done)
        exact ⟨u,by omega,found⟩
      · unfold fresh at new
        cases fires : arFires (inputs t).pins with
        | false => simp [fires] at new
        | true =>
          simp only [fires,if_true,List.mem_singleton] at new
          exact ⟨t,by omega,fires,new⟩
    have done : ∀ x, (world inputs (t + 1)).done = some x → (world inputs t).done = some x ∨
        ∃ y, current (world inputs t) (inputs t) = some y ∧ x.1 = y.1 := by
      intro x done
      change (after (world inputs t) (inputs t)).done = some x at done
      simp only [after] at done
      split at done
      · simp only [grown,Option.map_eq_some_iff] at done
        obtain ⟨y,now,rfl⟩ := done
        exact .inr ⟨y,now,rfl⟩
      · split at done
        · cases done
        · exact .inl done
    rintro r (inside | ⟨beats,now⟩)
    · change r ∈ pending (after (world inputs t) (inputs t)) at inside
      refine before r ?_
      cases move (admits t) with
      | quiet _ _ _ reads =>
          rw [world,reads,List.mem_append] at inside
          exact inside.elim .inl (fun new => .inr (.inr new))
      | adds q others _ now _ _ _ reads =>
          rw [world,reads,List.cons_append,List.mem_cons,List.mem_append,← or_assoc,← List.mem_cons] at inside
          exact inside.elim (fun old => .inl ((current_perm now).mem_iff.mpr old)) (fun new => .inr (.inr new))
      | ends q others _ now _ _ _ reads =>
          rw [world,reads,List.mem_append] at inside
          exact inside.elim (fun old => .inl ((current_perm now).mem_iff.mpr (List.mem_cons_of_mem q old))) (fun new => .inr (.inr new))
    · rcases done _ now with old | ⟨y,here,same⟩
      · exact before r (.inr (.inl ⟨beats,old⟩))
      · refine before r (.inl ((current_perm here).mem_iff.mpr ?_))
        rw [show r = y.1 from same]
        exact List.mem_cons_self

theorem assembles_again (fair : Fair inputs) (t : Nat) : ∃ u, t ≤ u ∧ axiRReady (world inputs u).adapter = true := by
  cases state : (world inputs t).adapter.rState with
  | assemble => exact ⟨t,Nat.le_refl t,by simp [axiRReady,state]⟩
  | deliver =>
    obtain ⟨u,later,now,taken⟩ := holds_until (fun u => (world inputs u).adapter.rState = .deliver)
      (fun u => (inputs u).pins.respReady = true) state (by
        intro u _ now untaken
        change (after (world inputs u) (inputs u)).adapter.rState = .deliver
        simp [after,next,now,untaken]) (fair.takes t)
    refine ⟨u + 1,by omega,?_⟩
    have moved : (world inputs (u + 1)).adapter.rState = .assemble := by
      change (after (world inputs u) (inputs u)).adapter.rState = .assemble
      simp [after,next,now,taken]
    simp [axiRReady,moved]

section served

variable (admits : Admits machine inputs) (meets : ∀ t, Meets (world inputs t) (inputs t))
include admits meets

theorem tickets_lawful : Ticket.Lawful (tickets inputs) where
  empty := rfl
  issued t fires := by
    change (after (world inputs t) (inputs t)).count = _
    have now : arFires (inputs t).pins = true := fires
    simp [after,now,tickets]
  kept t silent := by
    change (after (world inputs t) (inputs t)).count = _
    have now : arFires (inputs t).pins = false := by simpa [tickets,Accepted] using silent
    simp [after,now,tickets]
  below t n inside := (invariant_kept admits t fun u _ => meets u).below n inside
  finish := by
    rintro t n ⟨_,x,done,rfl⟩
    change _ ∈ numbers (world inputs t)
    simp [numbers,done]
  step t n := by
    have invariant := invariant_kept admits t fun u _ => meets u
    have same := numbers_next invariant (admits t)
    have distinct := same.nodup_iff.mpr (numbers_distinct invariant)
    have member := same.mem_iff (a := n)
    have gone : n ∈ (if returns (world inputs t).adapter (inputs t).pins then ((world inputs t).done.map (·.1.number)).toList else []) ↔
        Returned inputs t n := by
      cases returned : returns (world inputs t).adapter (inputs t).pins <;> simp [Returned,returned]
    have new : n ∈ (fresh (world inputs t) (inputs t)).map (·.number) ↔ Accepted inputs t ∧ n = (world inputs t).count := by
      unfold fresh Accepted
      cases arFires (inputs t).pins <;> simp
    have below : n ∈ numbers (world inputs t) → n < (world inputs t).count := invariant.below n
    have apart : Returned inputs t n → n ∉ numbers (after (world inputs t) (inputs t)) := by
      intro returned inside
      exact (List.nodup_append.mp distinct).2.2 n (gone.mpr returned) n inside rfl
    change n ∈ numbers (after (world inputs t) (inputs t)) ↔ (n ∈ numbers (world inputs t) ∧ ¬ Returned inputs t n) ∨
      (Accepted inputs t ∧ n = (world inputs t).count)
    rw [List.mem_append,List.mem_append,gone,new] at member
    constructor
    · intro inside
      rcases member.mp (.inr inside) with old | fresh
      · exact .inl ⟨old,fun returned => apart returned inside⟩
      · exact .inr fresh
    · rintro (⟨old,unreturned⟩ | fresh)
      · exact (member.mpr (.inl old)).resolve_left unreturned
      · refine (member.mpr (.inr fresh)).resolve_left ?_
        rintro ⟨_,x,done,same⟩
        have small : n < (world inputs t).count := below (by simp [numbers,done,same])
        omega

theorem presented_returned (fair : Fair inputs) {t n : Nat} {x : Read × List Beat} (done : (world inputs t).done = some x) (number : x.1.number = n) :
    ∃ u, t ≤ u ∧ Returned inputs u n := by
  have deliver : ∀ u, (world inputs u).done = some x → (world inputs u).adapter.rState = .deliver := by
    intro u now
    cases state : (world inputs u).adapter.rState with
    | deliver => rfl
    | assemble =>
      have free := ((invariant_kept admits u fun v _ => meets v).idle state).1
      rw [now] at free
      cases free
  obtain ⟨u,later,now,taken⟩ := holds_until (fun u => (world inputs u).done = some x) (fun u => (inputs u).pins.respReady = true) done (by
    intro u _ now untaken
    change (after (world inputs u) (inputs u)).done = some x
    have state := deliver u now
    simp [after,rFires,axiRReady,state,returns,untaken,now]) (fair.takes t)
  exact ⟨u,later,by simp [returns,respValid,deliver u now,taken],x,now,number⟩

theorem flight_ends (fair : Fair inputs) (t n : Nat) (inside : n ∈ numbers (world inputs t)) : ∃ u, t ≤ u ∧ Returned inputs u n := by
  rw [numbers,List.mem_append] at inside
  rcases inside with done | owed
  · simp only [Option.mem_toList,Option.map_eq_some_iff] at done
    obtain ⟨x,done,number⟩ := done
    exact presented_returned admits meets fair done number
  · obtain ⟨r,inside,rfl⟩ := List.mem_map.mp owed
    obtain ⟨u,later,fires,last,x,now,number⟩ := fair.ends (assembles_again fair) t r inside
    have done : (world inputs (u + 1)).done = some (x.1,x.2 ++ [beat (inputs u).pins]) := by
      change (after (world inputs u) (inputs u)).done = _
      simp [after,fires,last,grown,now]
    obtain ⟨v,after',returned⟩ := presented_returned admits meets fair done number
    exact ⟨v,by omega,returned⟩

-- The adapter serves every run in which no AR is refused, no burst overtakes another place and every access is
-- of one beat or reaches the end of its line.
theorem reads_served (fair : Fair inputs) : Served inputs where
  sound t := sound_now (invariant_kept admits t fun u _ => meets u) (admits t) (meets t)
  once := by
    intro t accepted
    have lawful := tickets_lawful admits meets
    obtain ⟨u,later,returned,unique⟩ := Ticket.served_once lawful (flight_ends admits meets fair) (t := t) accepted
    refine ⟨u,later,returned,unique,?_⟩
    obtain ⟨_,x,done,number⟩ := returned
    obtain ⟨v,_,before,same⟩ := flight_accepted admits u x.1 (.inr ⟨x.2,done⟩)
    have equal : v = t := Ticket.issue_inj lawful before accepted (by
      rw [same] at number
      exact number)
    subst equal
    exact ⟨x.2,by rw [done,← same]⟩
  only := by
    intro u n returned
    exact Ticket.inflight_issued (tickets_lawful admits meets) ((tickets_lawful admits meets).finish u n returned)

end served

end run

-- A cycle without traffic, a request, and a beat for the oldest AR that is owed
def idle : Step where
  pins :=
    { reqValid := false
      req := ⟨0,3,0,.read,false⟩
      respReady := true
      axiArReady := true
      axiRValid := false
      axiRData := 0
      axiRId := 0
      axiRResp := 0
      axiRLast := false }
  pick := 0

def ask (req : MemReq) : Step :=
  { idle with
    pins :=
      { idle.pins with
        reqValid := true
        req := req } }

def answer (id : BitVec 8) (data : BitVec 64) (last : Bool) : Step :=
  { idle with
    pins :=
      { idle.pins with
        axiRValid := true
        axiRData := data
        axiRId := id
        axiRLast := last } }

section cycles

variable {w : World} (clear : w.waiting = none)
include clear

theorem idle_contract : Contract w idle := ⟨nofun,fun _ waits => absurd (clear.symm.trans waits) nofun,nofun,nofun⟩

theorem ask_contract {req : MemReq} (formed : WellFormed req) : Contract w (ask req) :=
  ⟨fun _ => formed,fun _ waits => absurd (clear.symm.trans waits) nofun,nofun,nofun⟩

theorem answer_contract {id : BitVec 8} {data : BitVec 64} {last : Bool} {r : Read} {beats : List Beat}
    (now : current w (answer id data last) = some (r,beats)) (same : id = r.req.id)
    (ends : last = true ↔ beats.length = (axiLen r.req.size).toNat) : Contract w (answer id data last) :=
  ⟨nofun,fun _ waits => absurd (clear.symm.trans waits) nofun,fun _ => ⟨r,beats,now,same,ends⟩,fun _ _ j before => absurd before (Nat.not_lt_zero j)⟩

end cycles

theorem idle_meets (w : World) : Meets w idle :=
  ⟨fun refused => absurd refused.1 nofun,fun overtakes => absurd overtakes.1 nofun,fun partial' => absurd partial'.1 nofun⟩

theorem answer_meets {w : World} {id : BitVec 8} {data : BitVec 64} {last : Bool} {r : Read} {beats : List Beat}
    (now : current w (answer id data last) = some (r,beats)) (place : placeReq r = placeOf (curMeta w.adapter)) :
    Meets w (answer id data last) := by
  refine ⟨fun refused => absurd refused.1 nofun,?_,fun partial' => absurd partial'.1 nofun⟩
  rintro ⟨_,none',q,owed,other⟩
  simp only [current,none',owed,Option.map_some,Option.some.injEq,Prod.mk.injEq] at now
  rw [now.1] at other
  exact other place

section ending

variable {inputs : Nat → Step} {n : Nat} (ends : ∀ t, inputs (t + n) = idle)
include ends

theorem ending_quiet (empty : pending (world inputs n) = []) (t : Nat) : pending (world inputs (t + n)) = [] := by
  induction t with
  | zero => rwa [Nat.zero_add]
  | succ t ih =>
    have step : world inputs (t + 1 + n) = after (world inputs (t + n)) idle := by
      rw [Nat.add_right_comm,← ends t]
      rfl
    rw [step,← ih]
    simp [pending,after,rFires,arFires,axiArValid,idle]

theorem ending_fair (empty : pending (world inputs n) = [])
    (early : ∀ t < n, ∀ r ∈ pending (world inputs t), ∃ u, t ≤ u ∧ Finished inputs u r.number) : Fair inputs where
  takes t := ⟨t + n,Nat.le_add_right t n,by rw [ends]; rfl⟩
  ends := by
    intro _ t r inside
    by_cases before : t < n
    · exact early t before r inside
    · obtain ⟨u,rfl⟩ : ∃ u, t = u + n := ⟨t - n,by omega⟩
      rw [ending_quiet ends empty] at inside
      cases inside

end ending

-- Two reads are open at once: a word, and the two words at the end of a line.
def word : MemReq := ⟨0,3,1,.read,false⟩

def two : MemReq := ⟨48,4,2,.read,true⟩

def overlapping : Nat → Step
  | 0 => ask word
  | 1 => ask two
  | 2 => answer 1 10 true
  | 3 => idle
  | 4 => answer 2 11 false
  | 5 => answer 2 12 true
  | _ => idle

theorem overlapping_admits : Admits machine overlapping := by
  intro t
  match t with
  | 0 => exact ask_contract rfl ⟨by decide,by decide⟩
  | 1 => exact ask_contract (by decide) ⟨by decide,by decide⟩
  | 2 => exact answer_contract (by decide) (by decide : _ = some ((⟨0,word⟩ : Read),[])) rfl (by decide)
  | 3 => exact idle_contract rfl
  | 4 => exact answer_contract rfl (by decide : _ = some ((⟨1,two⟩ : Read),[])) rfl (by decide)
  | 5 => exact answer_contract rfl (by decide : _ = some ((⟨1,two⟩ : Read),[⟨11,0⟩])) rfl (by decide)
  | t + 6 => exact idle_contract (by cases t <;> rfl)

theorem overlapping_fair : Fair overlapping := by
  refine ending_fair (n := 6) (fun _ => rfl) (by decide) ?_
  have first : Finished overlapping 2 0 := ⟨by decide,rfl,_,rfl,rfl⟩
  have second : Finished overlapping 5 1 := ⟨by decide,rfl,_,rfl,rfl⟩
  have open' : ∀ t < 6, ∀ r ∈ pending (world overlapping t), (r.number = 0 ∧ t ≤ 2) ∨ (r.number = 1 ∧ t ≤ 5) := by decide
  intro t before r inside
  rcases open' t before r inside with ⟨number,early⟩ | ⟨number,early⟩ <;> rw [number]
  · exact ⟨2,early,first⟩
  · exact ⟨5,early,second⟩

theorem overlapping_meets (t : Nat) : Meets (world overlapping t) (overlapping t) := by
  match t with
  | 0 | 1 =>
    refine ⟨by unfold Refused; decide,?_,by unfold Partial; decide⟩
    rintro ⟨fires,_⟩
    cases fires
  | 2 => exact answer_meets (by decide : _ = some ((⟨0,word⟩ : Read),[])) (by decide)
  | 4 => exact answer_meets (by decide : _ = some ((⟨1,two⟩ : Read),[])) (by decide)
  | 5 => exact answer_meets (by decide : _ = some ((⟨1,two⟩ : Read),[⟨11,0⟩])) (by decide)
  | 3 | t + 6 => exact idle_meets _

theorem reads_served_overlapping : (pending (world overlapping 2)).map (·.number) = [0,1] ∧
    (world overlapping 3).done = some (⟨0,word⟩,[⟨10,0⟩]) ∧ (world overlapping 6).done = some (⟨1,two⟩,[⟨11,0⟩,⟨12,0⟩]) ∧
    Served overlapping :=
  ⟨by decide,by decide,by decide,reads_served overlapping_admits overlapping_meets overlapping_fair⟩

-- Two words from address 0 are presented at the end of the line.
def reading : Nat → Step
  | 0 => ask ⟨0,4,0,.read,false⟩
  | 1 => answer 0 1 false
  | 2 => answer 0 1 true
  | _ => idle

theorem reading_admits : Admits machine reading := by
  intro t
  match t with
  | 0 => exact ask_contract rfl ⟨by decide,by decide⟩
  | 1 => exact answer_contract (by decide) (by decide : _ = some ((⟨0,⟨0,4,0,.read,false⟩⟩ : Read),[])) rfl (by decide)
  | 2 => exact answer_contract rfl (by decide : _ = some ((⟨0,⟨0,4,0,.read,false⟩⟩ : Read),[⟨1,0⟩])) rfl (by decide)
  | t + 3 => exact idle_contract (by cases t <;> rfl)

theorem reading_fair : Fair reading := by
  refine ending_fair (n := 3) (fun _ => rfl) (by decide) ?_
  have last : Finished reading 2 0 := ⟨by decide,rfl,_,rfl,rfl⟩
  have open' : ∀ t < 3, ∀ r ∈ pending (world reading t), r.number = 0 := by decide
  intro t before r inside
  rw [open' t before r inside]
  exact ⟨2,by omega,last⟩

theorem partial_misplaced : ¬ ∀ inputs, Admits machine inputs → Fair inputs → Served inputs := by
  intro served
  obtain ⟨r,beats,done,_,_,_,bytes⟩ := ((served _ reading_admits reading_fair).sound 3).response (by decide)
  have here : (world reading 3).done = some (⟨0,⟨0,4,0,.read,false⟩⟩,[⟨1,0⟩,⟨1,0⟩]) := by decide
  rw [here] at done
  cases done
  obtain ⟨b,first,same⟩ := bytes 0 (by decide)
  cases first
  exact absurd same (by decide +kernel)

end Sargantana.AxiReadService
