import Sargantana.HpdcacheMemToAxiWrite
import Sargantana.Lib.PointerFifo
import Sargantana.Lib.Bytes
import Sargantana.Lib.StateMachine
import Sargantana.Lib.Ticket

-- The write adapter between the data cache and an AXI slave: one burst for each request, with the bytes of its flit
namespace Sargantana.AxiWriteService

open DracPkg HpdcacheMem HpdcacheMemToAxiWrite StateMachine PointerFifo Bytes

-- `requests` and `flits` are the accepted ones in order, `issued` counts the AWs, `bursts` are the finished bursts
-- and `sending` the beats of the next, `unanswered` the AWs without a response. `early` says that the staged flit
-- came before its request.
structure World where
  adapter : State
  requests : List MemReq
  flits : List Flit
  early : Bool
  issued : Nat
  bursts : List (List WChan)
  sending : List WChan
  unanswered : List Nat

-- The pins of a cycle, and which write the slave answers
structure Step where
  pins : Input
  pick : Nat

def wFire (s : State) (i : Input) : Bool := axiWValid s && i.axiWReady

def after (w : World) (p : Step) : World where
  adapter := next w.adapter p.pins
  requests := w.requests ++ if takesReq w.adapter p.pins then [p.pins.req] else []
  flits := w.flits ++ if takesData w.adapter p.pins then [p.pins.reqData] else []
  early := if takesData w.adapter p.pins then !w.adapter.reqLatched && !p.pins.reqValid else w.early
  issued := if awFire w.adapter p.pins then w.issued + 1 else w.issued
  bursts := w.bursts ++ if wFire w.adapter p.pins && (axiW w.adapter).last then [w.sending ++ [axiW w.adapter]] else []
  sending := if wFire w.adapter p.pins then (if (axiW w.adapter).last then [] else w.sending ++ [axiW w.adapter]) else w.sending
  unanswered := (if respFifoPop w.adapter p.pins then w.unanswered.erase p.pick else w.unanswered) ++
    if awFire w.adapter p.pins then [w.issued] else []

def Enabled (req : MemReq) (f : Flit) : Prop :=
  ∀ m, f.be.getLsbD m = true → req.addr.toNat % 64 ≤ m ∧ m < req.addr.toNat % 64 + bytes req

structure Contract (w : World) (p : Step) : Prop where
  request : p.pins.reqValid = true → WellFormed p.pins.req
  paired : ∀ (k : Nat) (req : MemReq) (f : Flit), (after w p).requests[k]? = some req → (after w p).flits[k]? = some f → Enabled req f
  -- one response for each write whose data are complete, in any order
  answer : p.pins.axiBValid = true → p.pick ∈ w.unanswered ∧ p.pick < w.bursts.length ∧
    ∃ req, w.requests[p.pick]? = some req ∧ p.pins.axiBId = req.id

def machine : Machine World Step where
  initial :=
    { adapter := reset
      requests := []
      flits := []
      early := false
      issued := 0
      bursts := []
      sending := []
      unanswered := [] }
  allowed := Contract
  step := after

-- An AW goes out whose data stand in other lanes than those of its address: the flit came before its request,
-- or it is of several beats and does not begin its line.
def Misplaced (w : World) (i : Input) : Prop := awFire w.adapter i = true ∧ w.adapter.txStrb ≠ 0 ∧
  ((w.early = true ∧ w.adapter.isUcQ = true ∧ w.adapter.wordIdxQ ≠ 0) ∨ (w.adapter.isUcQ = false ∧ w.adapter.reqQ.addr.toNat % 64 ≠ 0))

def base (req : MemReq) : Nat := 8 * (wordIdx req.addr).toNat

structure Carries (req : MemReq) (f : Flit) (k : Nat) (b : WChan) : Prop where
  last : b.last = true ↔ k = (axiLen req.size).toNat
  strobe : ∀ l < 8, b.strb.getLsbD l = f.be.getLsbD (base req + 8 * k + l)
  data : ∀ l < 8, b.strb.getLsbD l = true → byteAt b.data l = byteAt f.data (base req + 8 * k + l)

def Writes (req : MemReq) (beats : List WChan) (off : Nat) (value : BitVec 8) : Prop :=
  ∃ k l b, beats[k]? = some b ∧ l < 8 ∧ b.strb.getLsbD l = true ∧ off = base req + 8 * k + l ∧ value = byteAt b.data l

structure Burst (req : MemReq) (f : Flit) (beats : List WChan) : Prop where
  length : beats.length = (axiLen req.size).toNat + 1
  beat : ∀ k b, beats[k]? = some b → Carries req f k b

structure Sound (w : World) (p : Step) : Prop where
  -- the n-th AW is that of the n-th request
  aw : ∀ code, awFire w.adapter p.pins = true → ∃ req, w.requests[w.issued]? = some req ∧ axiAw code w.adapter = awOf code req
  -- the bursts follow in the order of the AWs, and each writes the enabled bytes of its flit
  burst : ∀ n beats, w.bursts[n]? = some beats → n < w.issued ∧ ∃ req f, w.requests[n]? = some req ∧ w.flits[n]? = some f ∧
    beats.length = (axiLen req.size).toNat + 1 ∧ (∀ k b, beats[k]? = some b → (b.last = true ↔ k = (axiLen req.size).toNat)) ∧
    ∀ off value, Writes req beats off value ↔ f.be.getLsbD off = true ∧ value = byteAt f.data off
  sending : w.adapter.wState = .send → w.bursts.length < w.issued ∧ ∃ req, w.requests[w.bursts.length]? = some req ∧
    w.sending.length ≤ (axiLen req.size).toNat
  id : respFifoPop w.adapter p.pins = true → ∃ req, w.requests[p.pick]? = some req ∧ (resp p.pins).id = req.id
  overflow : awFire w.adapter p.pins = true → w.adapter.dataWrPtr + 1 ≠ w.adapter.dataRdPtr ∧ w.adapter.respWrPtr + 1 ≠ w.adapter.respRdPtr
  underflow : (dataFifoPop w.adapter = true → w.adapter.dataWrPtr ≠ w.adapter.dataRdPtr) ∧
    (respFifoPop w.adapter p.pins = true → w.adapter.respWrPtr ≠ w.adapter.respRdPtr)

theorem burst_writes {req : MemReq} {f : Flit} {beats : List WChan} (formed : WellFormed req) (enabled : Enabled req f)
    (burst : Burst req f beats) (off : Nat) (value : BitVec 8) :
    Writes req beats off value ↔ f.be.getLsbD off = true ∧ value = byteAt f.data off := by
  constructor
  · rintro ⟨k,l,b,at',lane,set,rfl,rfl⟩
    have carries := burst.beat k b at'
    exact ⟨(carries.strobe l lane).symm.trans set,carries.data l lane set⟩
  · rintro ⟨set,rfl⟩
    obtain ⟨low,high⟩ := enabled off set
    have start : base req = req.addr.toNat % 64 / 8 * 8 := by
      rw [base,wordIdx_val]
      omega
    have within : off - base req < 8 * beats.length := by
      rw [burst.length,start]
      cases single : isUc req.size with
      | true =>
          have inside := bytes_inside formed single
          have length := (axiLen_single req.size single).1
          omega
      | false =>
          have words := (bytes_words formed single).1
          have length := (axiLen_whole req.size single formed.size).1
          unfold bytes at high
          omega
    have index : (off - base req) / 8 < beats.length := by omega
    have place : off = base req + 8 * ((off - base req) / 8) + (off - base req) % 8 := by omega
    have at' := List.getElem?_eq_getElem index
    have carries := burst.beat _ _ at'
    have lane : (off - base req) % 8 < 8 := by omega
    have strobe := carries.strobe _ lane
    rw [← place,set] at strobe
    have data := carries.data _ lane strobe
    rw [← place] at data
    exact ⟨_,_,_,at',lane,strobe,place,data.symm⟩

-- What the data FIFO holds for a write: its words from the first lane of the burst on
structure Placed (req : MemReq) (f : Flit) (e : DataEntry) : Prop where
  beats : e.totalBeats = axiLen req.size + 1
  strobe : ∀ m < 8 * ((axiLen req.size).toNat + 1), e.txStrb.getLsbD m = f.be.getLsbD (base req + m)
  data : ∀ m < 8 * ((axiLen req.size).toNat + 1), e.txStrb.getLsbD m = true → byteAt e.txData m = byteAt f.data (base req + m)

theorem placed_shifted (req : MemReq) (f : Flit) :
    Placed req f ⟨(staged (wordIdx req.addr,true) f).data,(staged (wordIdx req.addr,true) f).be,axiLen req.size + 1⟩ := by
  have words : 64 * (wordIdx req.addr).toNat = 8 * base req := by
    unfold base
    omega
  refine ⟨rfl,?_,?_⟩
  · intro m _
    exact BitVec.getLsbD_ushiftRight ..
  · intro m _ _
    change byteAt (f.data >>> (64 * (wordIdx req.addr).toNat)) m = _
    rw [words]
    exact byteAt_shiftRight

theorem placed_start {req : MemReq} (start : base req = 0) (f : Flit) : Placed req f ⟨f.data,f.be,axiLen req.size + 1⟩ := by
  refine ⟨rfl,?_,?_⟩
  · intro m _
    rw [start,Nat.zero_add]
  · intro m _ _
    rw [start,Nat.zero_add]

theorem placed_nothing {req : MemReq} {f : Flit} (nothing : f.be = 0) : Placed req f ⟨f.data,f.be,axiLen req.size + 1⟩ := by
  refine ⟨rfl,?_,?_⟩
  · intro m _
    simp [nothing]
  · intro m _ set
    simp [nothing] at set

theorem beat_carries {req : MemReq} {f : Flit} {e : DataEntry} {s : State} {k : Nat} (placed : Placed req f e) (fits : k ≤ (axiLen req.size).toNat)
    (data : s.wData = e.txData >>> (8 * (8 * k))) (strb : s.wStrb = e.txStrb >>> (8 * k)) (beats : s.wTotalBeats = e.totalBeats)
    (beat : s.beatQ.toNat = k) : Carries req f k (axiW s) := by
  have lanes (l : Nat) (lane : l < 8) : (axiW s).strb.getLsbD l = e.txStrb.getLsbD (8 * k + l) := by
    change (s.wStrb.setWidth 8).getLsbD l = _
    rw [BitVec.getLsbD_setWidth,strb,BitVec.getLsbD_ushiftRight]
    simp [lane]
  have inside (l : Nat) (lane : l < 8) : 8 * k + l < 8 * ((axiLen req.size).toNat + 1) := by omega
  refine ⟨?_,?_,?_⟩
  · change (s.beatQ == s.wTotalBeats - 1) = true ↔ _
    rw [beats,placed.beats,BitVec.add_sub_cancel,beq_iff_eq,← BitVec.toNat_inj,beat]
  · intro l lane
    rw [lanes l lane,placed.strobe _ (inside l lane),Nat.add_assoc]
  · intro l lane set
    rw [lanes l lane] at set
    have word := placed.data _ (inside l lane) set
    change byteAt (s.wData.setWidth 64) l = _
    rw [byteAt_setWidth (by omega),data,byteAt_shiftRight,word,Nat.add_assoc]

def dataF (s : State) : Fifo 4 DataEntry := ⟨s.dataFifo,s.dataWrPtr,s.dataRdPtr⟩

def respF (s : State) : Fifo 4 (BitVec 8) := ⟨s.respFifo,s.respWrPtr,s.respRdPtr⟩

def entry (s : State) : DataEntry := ⟨s.txData,s.txStrb,axiLen s.reqQ.size + 1⟩

theorem dataF_next (s : State) (i : Input) : dataF (next s i) = (dataF s).step (if awFire s i then some (entry s) else none) (dataFifoPop s) := by
  cases push : awFire s i <;> cases pop : dataFifoPop s <;>
    simp only [dataF,next,Fifo.step,entry,push,pop,Bool.false_eq_true,if_true,if_false,Option.elim,Option.isSome]

theorem respF_next (s : State) (i : Input) : respF (next s i) = (respF s).step (if awFire s i then some s.reqQ.id else none) (respFifoPop s i) := by
  cases push : awFire s i <;> cases pop : respFifoPop s i <;>
    simp only [respF,next,Fifo.step,push,pop,Bool.false_eq_true,if_true,if_false,Option.elim,Option.isSome]

-- The writes whose entry has left the data FIFO
def loaded (w : World) : Nat := w.bursts.length + if w.adapter.wState = .send then 1 else 0

-- The registers of the sending state after some beats of a write
structure Sending (w : World) (req : MemReq) (f : Flit) : Prop where
  request : w.requests[w.bursts.length]? = some req
  flit : w.flits[w.bursts.length]? = some f
  fits : w.sending.length ≤ (axiLen req.size).toNat
  beat : w.adapter.beatQ.toNat = w.sending.length
  sent : ∀ k b, w.sending[k]? = some b → Carries req f k b
  rest : ∃ e, Placed req f e ∧ w.adapter.wData = e.txData >>> (8 * (8 * w.sending.length)) ∧
    w.adapter.wStrb = e.txStrb >>> (8 * w.sending.length) ∧ w.adapter.wTotalBeats = e.totalBeats

structure Invariant (w : World) : Prop where
  requests : w.requests.length = w.issued + if w.adapter.reqLatched then 1 else 0
  flits : w.flits.length = w.issued + if w.adapter.dataLatched then 1 else 0
  formed : ∀ req ∈ w.requests, WellFormed req
  enabled : ∀ (k : Nat) (req : MemReq) (f : Flit), w.requests[k]? = some req → w.flits[k]? = some f → Enabled req f
  request : w.adapter.reqLatched = true → w.requests[w.issued]? = some w.adapter.reqQ ∧
    w.adapter.wordIdxQ = wordIdx w.adapter.reqQ.addr ∧ w.adapter.isUcQ = isUc w.adapter.reqQ.size
  flit : w.adapter.dataLatched = true → ∃ f, w.flits[w.issued]? = some f ∧
    Flit.mk w.adapter.txData w.adapter.txStrb = if w.early then f else staged (w.adapter.wordIdxQ,w.adapter.isUcQ) f
  known : w.adapter.dataLatched = true → w.early = false → w.adapter.reqLatched = true
  queue : (dataF w.adapter).contents.length + loaded w = w.issued
  entries : ∀ (j : Nat) (e : DataEntry), (dataF w.adapter).contents[j]? = some e → ∃ req f, w.requests[loaded w + j]? = some req ∧
    w.flits[loaded w + j]? = some f ∧ Placed req f e
  idle : w.adapter.wState = .idle → w.sending = []
  send : w.adapter.wState = .send → ∃ req f, Sending w req f
  bursts : ∀ (n : Nat) (beats : List WChan), w.bursts[n]? = some beats → ∃ req f, w.requests[n]? = some req ∧ w.flits[n]? = some f ∧ Burst req f beats
  responses : (respF w.adapter).contents.length = w.unanswered.length
  distinct : w.unanswered.Nodup
  below : ∀ n ∈ w.unanswered, n < w.issued

theorem invariant_start : Invariant machine.initial where
  requests := rfl
  flits := rfl
  formed _ inside := by cases inside
  enabled _ _ _ inside := by cases inside
  request latched := by cases latched
  flit latched := by cases latched
  known latched := by cases latched
  queue := rfl
  entries _ _ inside := by cases inside
  idle _ := rfl
  send state := by cases state
  bursts _ _ inside := by cases inside
  responses := rfl
  distinct := List.nodup_nil
  below _ inside := by cases inside

theorem canPush_iff (s : State) : canPush s = true ↔ ¬ (dataF s).Full ∧ ¬ (respF s).Full := by
  simp [canPush,dataFifoFull,respFifoFull,dataF,respF,Fifo.Full]

theorem append_kept {α : Type} {l m : List α} {k : Nat} {x : α} (at' : l[k]? = some x) : (l ++ m)[k]? = some x := by
  rw [List.getElem?_append_left (List.getElem?_eq_some_iff.mp at').1]
  exact at'

theorem request_kept {w : World} {p : Step} {k : Nat} {req : MemReq} (at' : w.requests[k]? = some req) : (after w p).requests[k]? = some req :=
  append_kept at'

theorem flit_kept {w : World} {p : Step} {k : Nat} {f : Flit} (at' : w.flits[k]? = some f) : (after w p).flits[k]? = some f :=
  append_kept at'

theorem awFire_staged {s : State} {i : Input} (fires : awFire s i = true) : s.reqLatched = true ∧ s.dataLatched = true ∧ canPush s = true ∧
    takesReq s i = false ∧ takesData s i = false := by
  simp only [awFire,bothStaged,Bool.and_eq_true] at fires
  obtain ⟨⟨⟨req,data⟩,room⟩,_⟩ := fires
  exact ⟨req,data,room,by simp [takesReq,reqReady,req],by simp [takesData,reqDataReady,data]⟩

theorem takesData_place {s : State} {i : Input} (takes : takesData s i = true) :
    s.dataLatched = false ∧ (s.reqLatched = false → takesReq s i = i.reqValid) := by
  simp only [takesData,reqDataReady,Bool.and_eq_true,Bool.or_eq_true,Bool.not_eq_true'] at takes
  obtain ⟨_,data,room⟩ := takes
  refine ⟨data,fun req => ?_⟩
  have free : canPush s = true := room.resolve_right (by simp [req])
  simp [takesReq,reqReady,req,free]

theorem loaded_next (w : World) (p : Step) : loaded (after w p) = loaded w + if dataFifoPop w.adapter then 1 else 0 := by
  cases state : w.adapter.wState with
  | idle =>
      cases empty : dataFifoEmpty w.adapter <;> simp [loaded,after,next,wFire,axiWValid,dataFifoPop,state,empty]
  | send =>
      cases ready : p.pins.axiWReady <;> by_cases last : w.adapter.beatQ = w.adapter.wTotalBeats - 1#8 <;>
        simp [loaded,after,next,wFire,axiWValid,axiW,dataFifoPop,state,ready,last]

theorem popped {s : State} (pop : dataFifoPop s = true) : s.wState = .idle ∧ ¬ (dataF s).Empty := by
  simpa [dataFifoPop,dataFifoEmpty,dataF,Fifo.Empty] using pop

section next

variable {w : World} {p : Step} (invariant : Invariant w) (contract : Contract w p)

theorem dataF_contents : (dataF (after w p).adapter).contents =
    (dataF w.adapter).contents.drop (if dataFifoPop w.adapter then 1 else 0) ++ if awFire w.adapter p.pins then [entry w.adapter] else [] := by
  change (dataF (next w.adapter p.pins)).contents = _
  have room : (if awFire w.adapter p.pins then some (entry w.adapter) else none).isSome = true → ¬ (dataF w.adapter).Full := by
    cases fires : awFire w.adapter p.pins with
    | false => simp
    | true => exact fun _ => ((canPush_iff _).mp (awFire_staged fires).2.2.1).1
  rw [dataF_next,contents_step room fun pop => (popped pop).2]
  cases awFire w.adapter p.pins <;> rfl

theorem respF_contents : (respF (after w p).adapter).contents =
    (respF w.adapter).contents.drop (if respFifoPop w.adapter p.pins then 1 else 0) ++ if awFire w.adapter p.pins then [w.adapter.reqQ.id] else [] := by
  change (respF (next w.adapter p.pins)).contents = _
  have room : (if awFire w.adapter p.pins then some w.adapter.reqQ.id else none).isSome = true → ¬ (respF w.adapter).Full := by
    cases fires : awFire w.adapter p.pins with
    | false => simp
    | true => exact fun _ => ((canPush_iff _).mp (awFire_staged fires).2.2.1).2
  have some' : respFifoPop w.adapter p.pins = true → ¬ (respF w.adapter).Empty := by
    intro pop
    simp only [respFifoPop,respFifoEmpty,Bool.and_eq_true,Bool.not_eq_true',beq_eq_false_iff_ne] at pop
    exact pop.1.1
  rw [respF_next,contents_step room some']
  cases awFire w.adapter p.pins <;> rfl

include invariant

theorem placed_entry (fires : awFire w.adapter p.pins = true) (meets : ¬ Misplaced w p.pins) :
    ∃ f, w.requests[w.issued]? = some w.adapter.reqQ ∧ w.flits[w.issued]? = some f ∧ Placed w.adapter.reqQ f (entry w.adapter) := by
  obtain ⟨req,data,_⟩ := awFire_staged fires
  obtain ⟨request,word,single⟩ := invariant.request req
  obtain ⟨f,flit,same⟩ := invariant.flit data
  refine ⟨f,request,flit,?_⟩
  have unshifted (plain : Flit.mk w.adapter.txData w.adapter.txStrb = f) (start : f.be ≠ 0 → base w.adapter.reqQ = 0) :
      Placed w.adapter.reqQ f (entry w.adapter) := by
    have registers : entry w.adapter = ⟨f.data,f.be,axiLen w.adapter.reqQ.size + 1⟩ := by rw [← plain]; rfl
    rw [registers]
    by_cases nothing : f.be = 0
    · exact placed_nothing nothing
    · exact placed_start (start nothing) f
  have line (plain : Flit.mk w.adapter.txData w.adapter.txStrb = f) (whole : w.adapter.isUcQ = false) (writes : f.be ≠ 0) : base w.adapter.reqQ = 0 := by
    by_contra inside
    refine meets ⟨fires,by rwa [← plain] at writes,.inr ⟨whole,fun start => inside ?_⟩⟩
    rw [base,wordIdx_val]
    omega
  cases early : w.early with
  | true =>
      have plain : Flit.mk w.adapter.txData w.adapter.txStrb = f := by rw [same,early]; rfl
      refine unshifted plain fun writes => ?_
      cases whole : w.adapter.isUcQ with
      | false => exact line plain whole writes
      | true =>
        by_contra inside
        refine meets ⟨fires,by rwa [← plain] at writes,.inl ⟨early,whole,fun start => inside ?_⟩⟩
        rw [base,← word,start]
        rfl
  | false =>
      rw [early,if_neg Bool.false_ne_true] at same
      cases whole : w.adapter.isUcQ with
      | false =>
          have plain : Flit.mk w.adapter.txData w.adapter.txStrb = f := by rw [same,whole]; rfl
          exact unshifted plain (line plain whole)
      | true =>
          have shifted := placed_shifted w.adapter.reqQ f
          rw [← word,← whole,← same] at shifted
          exact shifted

theorem queue_next : (dataF (after w p).adapter).contents.length + loaded (after w p) = (after w p).issued := by
  have before := invariant.queue
  have some' (pop : dataFifoPop w.adapter = true) : 1 ≤ (dataF w.adapter).contents.length := by
    have nonempty := (popped pop).2
    rw [empty_length] at nonempty
    omega
  have issued : (after w p).issued = if awFire w.adapter p.pins then w.issued + 1 else w.issued := rfl
  rw [dataF_contents,loaded_next,issued,List.length_append,List.length_drop]
  cases pop : dataFifoPop w.adapter with
  | false =>
      cases awFire w.adapter p.pins <;> simp only [Bool.false_eq_true,if_true,if_false,List.length_nil,List.length_singleton] <;> omega
  | true =>
      have one := some' pop
      cases awFire w.adapter p.pins <;> simp only [Bool.false_eq_true,if_true,if_false,List.length_nil,List.length_singleton] <;> omega

theorem entries_next (meets : ¬ Misplaced w p.pins) (j : Nat) (e : DataEntry) (at' : (dataF (after w p).adapter).contents[j]? = some e) :
    ∃ req f, (after w p).requests[loaded (after w p) + j]? = some req ∧ (after w p).flits[loaded (after w p) + j]? = some f ∧ Placed req f e := by
  have length := invariant.queue
  have some' (pop : dataFifoPop w.adapter = true) : 1 ≤ (dataF w.adapter).contents.length := by
    have nonempty := (popped pop).2
    rw [empty_length] at nonempty
    omega
  have place : ((dataF w.adapter).contents.drop (if dataFifoPop w.adapter then 1 else 0)).length + loaded (after w p) = w.issued := by
    rw [loaded_next,List.length_drop]
    cases pop : dataFifoPop w.adapter with
    | false => simpa using length
    | true =>
      have one := some' pop
      simp
      omega
  rw [dataF_contents] at at'
  by_cases old : j < ((dataF w.adapter).contents.drop (if dataFifoPop w.adapter then 1 else 0)).length
  · rw [List.getElem?_append_left old,List.getElem?_drop] at at'
    obtain ⟨req,f,request,flit,placed⟩ := invariant.entries _ e at'
    have same : loaded w + ((if dataFifoPop w.adapter then 1 else 0) + j) = loaded (after w p) + j := by
      rw [loaded_next]
      omega
    rw [same] at request flit
    exact ⟨req,f,request_kept request,flit_kept flit,placed⟩
  · rw [List.getElem?_append_right (by omega)] at at'
    cases fires : awFire w.adapter p.pins with
    | false => simp [fires] at at'
    | true =>
      rw [fires,if_pos rfl] at at'
      obtain ⟨first,rfl⟩ := List.getElem?_eq_some_iff.mp at'
      rw [List.length_singleton] at first
      obtain ⟨f,request,flit,placed⟩ := placed_entry invariant fires meets
      have same : loaded (after w p) + j = w.issued := by omega
      rw [same,List.getElem_singleton]
      exact ⟨_,f,request_kept request,flit_kept flit,placed⟩

end next

theorem sending_carries {w : World} {req : MemReq} {f : Flit} (sending : Sending w req f) : Carries req f w.sending.length (axiW w.adapter) := by
  obtain ⟨e,placed,data,strb,beats⟩ := sending.rest
  exact beat_carries placed sending.fits data strb beats sending.beat

theorem sent_next {w : World} {req : MemReq} {f : Flit} (sending : Sending w req f) (k : Nat) (b : WChan)
    (at' : (w.sending ++ [axiW w.adapter])[k]? = some b) : Carries req f k b := by
  by_cases old : k < w.sending.length
  · rw [List.getElem?_append_left old] at at'
    exact sending.sent k b at'
  · have bound := (List.getElem?_eq_some_iff.mp at').1
    rw [List.length_append,List.length_singleton] at bound
    have last : k = w.sending.length := by omega
    rw [last,List.getElem?_concat_length,Option.some.injEq] at at'
    rw [← at',last]
    exact sending_carries sending

-- What a cycle does to the write data
inductive Beat (w : World) (p : Step) : Prop where
  | rests (state : w.adapter.wState = .idle) (empty : dataFifoPop w.adapter = false) (still : (after w p).adapter.wState = .idle)
      (bursts : (after w p).bursts = w.bursts) (sending : (after w p).sending = w.sending)
  | loads (state : w.adapter.wState = .idle) (pop : dataFifoPop w.adapter = true) (moves : (after w p).adapter.wState = .send)
      (bursts : (after w p).bursts = w.bursts) (sending : (after w p).sending = w.sending)
  | waits (state : w.adapter.wState = .send) (ready : p.pins.axiWReady = false) (still : (after w p).adapter.wState = .send)
      (bursts : (after w p).bursts = w.bursts) (sending : (after w p).sending = w.sending)
  | sends (state : w.adapter.wState = .send) (ready : p.pins.axiWReady = true) (more : (axiW w.adapter).last = false)
      (still : (after w p).adapter.wState = .send) (bursts : (after w p).bursts = w.bursts)
      (sending : (after w p).sending = w.sending ++ [axiW w.adapter])
  | ends (state : w.adapter.wState = .send) (ready : p.pins.axiWReady = true) (last : (axiW w.adapter).last = true)
      (moves : (after w p).adapter.wState = .idle) (bursts : (after w p).bursts = w.bursts ++ [w.sending ++ [axiW w.adapter]])
      (sending : (after w p).sending = [])

theorem beat (w : World) (p : Step) : Beat w p := by
  cases state : w.adapter.wState with
  | idle =>
      cases empty : dataFifoEmpty w.adapter with
      | true => exact .rests state (by simp [dataFifoPop,empty]) (by simp [after,next,state,empty]) (by simp [after,wFire,axiWValid,state]) (by simp [after,wFire,axiWValid,state])
      | false => exact .loads state (by simp [dataFifoPop,empty,state]) (by simp [after,next,state,empty]) (by simp [after,wFire,axiWValid,state]) (by simp [after,wFire,axiWValid,state])
  | send =>
      cases ready : p.pins.axiWReady with
      | false => exact .waits state ready (by simp [after,next,state,ready]) (by simp [after,wFire,ready]) (by simp [after,wFire,ready])
      | true =>
        have finish : (after w p).adapter.wState = if (axiW w.adapter).last then .idle else .send := by
          simp only [after,next,state,ready,axiW,Bool.true_and]
          rfl
        cases last : (axiW w.adapter).last with
        | false =>
            refine .sends state ready last (by rw [finish,last]; rfl) ?_ ?_ <;> simp [after,wFire,axiWValid,state,ready,last]
        | true =>
            refine .ends state ready last (by rw [finish,last]; rfl) ?_ ?_ <;> simp [after,wFire,axiWValid,state,ready,last]

section beat

variable {w : World} {p : Step} (invariant : Invariant w)
include invariant

theorem send_next (state : (after w p).adapter.wState = .send) : ∃ req f, Sending (after w p) req f := by
  cases beat w p with
  | rests _ _ still =>
      rw [still] at state
      cases state
  | ends _ _ _ moves =>
      rw [moves] at state
      cases state
  | loads before pop _ bursts sending =>
      obtain ⟨others,head⟩ := contents_head (popped pop).2
      have first : (dataF w.adapter).contents[0]? = some (curEntry w.adapter) := by rw [head]; rfl
      obtain ⟨req,f,request,flit,placed⟩ := invariant.entries 0 _ first
      have place : loaded w + 0 = w.bursts.length := by simp [loaded,before]
      rw [place] at request flit
      have none' := invariant.idle before
      have full : dataFifoEmpty w.adapter = false := by simpa [dataFifoPop,before] using pop
      refine ⟨req,f,by rw [bursts]; exact request_kept request,by rw [bursts]; exact flit_kept flit,?_,?_,?_,curEntry w.adapter,placed,?_⟩
      · rw [sending,none']
        exact Nat.zero_le _
      · rw [sending,none']
        simp [after,next,before,full]
      · intro k b at'
        rw [sending,none'] at at'
        cases at'
      · rw [sending,none']
        simp [after,next,before,full]
  | waits before ready _ bursts sending =>
      obtain ⟨req,f,old⟩ := invariant.send before
      obtain ⟨e,placed,data,strb,beats⟩ := old.rest
      refine ⟨req,f,by rw [bursts]; exact request_kept old.request,by rw [bursts]; exact flit_kept old.flit,?_,?_,?_,e,placed,?_⟩
      · rw [sending]
        exact old.fits
      · rw [sending]
        simpa [after,next,before,ready] using old.beat
      · rw [sending]
        exact old.sent
      · rw [sending]
        simpa [after,next,before,ready] using ⟨data,strb,beats⟩
  | sends before ready more _ bursts sending =>
      obtain ⟨req,f,old⟩ := invariant.send before
      obtain ⟨e,placed,data,strb,beats⟩ := old.rest
      have unfinished : w.sending.length ≠ (axiLen req.size).toNat := by
        intro whole
        have last := (sending_carries old).last.mpr whole
        rw [more] at last
        cases last
      have length : (after w p).sending.length = w.sending.length + 1 := by rw [sending,List.length_append,List.length_singleton]
      have fits := old.fits
      refine ⟨req,f,by rw [bursts]; exact request_kept old.request,by rw [bursts]; exact flit_kept old.flit,by omega,?_,?_,e,placed,?_,?_,?_⟩
      · have beat' : (after w p).adapter.beatQ = w.adapter.beatQ + 1 := by simp [after,next,before,ready]
        have small := (axiLen req.size).isLt
        have value := old.beat
        have one : BitVec.toNat (1 : BitVec 8) = 1 := rfl
        rw [beat',length,BitVec.toNat_add,one]
        omega
      · rw [sending]
        exact sent_next old
      · have shifted : (after w p).adapter.wData = w.adapter.wData >>> 64 := by simp only [after,next,before,ready,if_true]
        rw [shifted,data,length,← BitVec.shiftRight_add]
        congr 1
      · have shifted : (after w p).adapter.wStrb = w.adapter.wStrb >>> 8 := by simp only [after,next,before,ready,if_true]
        rw [shifted,strb,length,← BitVec.shiftRight_add]
        congr 1
      · have same : (after w p).adapter.wTotalBeats = w.adapter.wTotalBeats := by simp only [after,next,before]
        exact same.trans beats

theorem idle_next (state : (after w p).adapter.wState = .idle) : (after w p).sending = [] := by
  cases beat w p with
  | rests before _ _ _ sending => exact sending.trans (invariant.idle before)
  | ends _ _ _ _ _ sending => exact sending
  | loads _ _ moves =>
      rw [moves] at state
      cases state
  | waits _ _ still =>
      rw [still] at state
      cases state
  | sends _ _ _ still =>
      rw [still] at state
      cases state

theorem bursts_next (n : Nat) (beats : List WChan) (at' : (after w p).bursts[n]? = some beats) :
    ∃ req f, (after w p).requests[n]? = some req ∧ (after w p).flits[n]? = some f ∧ Burst req f beats := by
  have old (before : w.bursts[n]? = some beats) : ∃ req f, (after w p).requests[n]? = some req ∧ (after w p).flits[n]? = some f ∧ Burst req f beats := by
    obtain ⟨req,f,request,flit,burst⟩ := invariant.bursts n beats before
    exact ⟨req,f,request_kept request,flit_kept flit,burst⟩
  cases beat w p with
  | rests _ _ _ bursts _ => exact old (bursts ▸ at')
  | loads _ _ _ bursts _ => exact old (bursts ▸ at')
  | waits _ _ _ bursts _ => exact old (bursts ▸ at')
  | sends _ _ _ _ bursts _ => exact old (bursts ▸ at')
  | ends before _ last _ bursts _ =>
      rw [bursts] at at'
      by_cases earlier : n < w.bursts.length
      · rw [List.getElem?_append_left earlier] at at'
        exact old at'
      · have bound := (List.getElem?_eq_some_iff.mp at').1
        rw [List.length_append,List.length_singleton] at bound
        have here : n = w.bursts.length := by omega
        subst here
        rw [List.getElem?_concat_length,Option.some.injEq] at at'
        obtain ⟨req,f,sending⟩ := invariant.send before
        refine ⟨req,f,request_kept sending.request,flit_kept sending.flit,?_,?_⟩
        · rw [← at',List.length_append,List.length_singleton,(sending_carries sending).last.mp last]
        · rw [← at']
          exact sent_next sending

end beat

theorem takesReq_free {s : State} {i : Input} (takes : takesReq s i = true) : i.reqValid = true ∧ s.reqLatched = false := by
  simp only [takesReq,reqReady,Bool.and_eq_true,Bool.not_eq_true'] at takes
  exact ⟨takes.1,takes.2.1⟩

theorem reqLatched_next {s : State} {i : Input} (silent : awFire s i = false) : (next s i).reqLatched = (takesReq s i || s.reqLatched) := by
  simp [next,silent]

theorem dataLatched_next {s : State} {i : Input} (silent : awFire s i = false) : (next s i).dataLatched = (takesData s i || s.dataLatched) := by
  simp [next,silent]

theorem answered_waiting {w : World} {p : Step} (contract : Contract w p) (pop : respFifoPop w.adapter p.pins = true) : p.pick ∈ w.unanswered := by
  simp only [respFifoPop,Bool.and_eq_true] at pop
  exact (contract.answer pop.1.2).1

section staging

variable {w : World} {p : Step} (invariant : Invariant w)
include invariant

theorem requests_next : (after w p).requests.length = (after w p).issued + if (after w p).adapter.reqLatched then 1 else 0 := by
  have length := invariant.requests
  cases fires : awFire w.adapter p.pins with
  | true =>
      obtain ⟨latched,_,_,takes,_⟩ := awFire_staged fires
      simp [after,next,fires,takes,length,latched]
  | false =>
      cases takes : takesReq w.adapter p.pins with
      | false => simp [after,next,fires,takes,length]
      | true =>
        have free := (takesReq_free takes).2
        simp [after,next,fires,takes,length,free]

theorem flits_next : (after w p).flits.length = (after w p).issued + if (after w p).adapter.dataLatched then 1 else 0 := by
  have length := invariant.flits
  cases fires : awFire w.adapter p.pins with
  | true =>
      obtain ⟨_,latched,_,_,takes⟩ := awFire_staged fires
      simp [after,next,fires,takes,length,latched]
  | false =>
      cases takes : takesData w.adapter p.pins with
      | false => simp [after,next,fires,takes,length]
      | true =>
        have free := (takesData_place takes).1
        simp [after,next,fires,takes,length,free]

theorem request_next (latched : (after w p).adapter.reqLatched = true) :
    (after w p).requests[(after w p).issued]? = some (after w p).adapter.reqQ ∧
    (after w p).adapter.wordIdxQ = wordIdx (after w p).adapter.reqQ.addr ∧ (after w p).adapter.isUcQ = isUc (after w p).adapter.reqQ.size := by
  cases fires : awFire w.adapter p.pins with
  | true => simp [after,next,fires] at latched
  | false =>
      change (next w.adapter p.pins).reqLatched = true at latched
      rw [reqLatched_next fires] at latched
      have issued : (after w p).issued = w.issued := by simp [after,fires]
      rw [issued]
      cases takes : takesReq w.adapter p.pins with
      | true =>
        have length := invariant.requests
        rw [(takesReq_free takes).2] at length
        have place : w.issued = w.requests.length := by simpa using length.symm
        simp [after,next,takes,place]
      | false =>
        rw [takes,Bool.false_or] at latched
        obtain ⟨request,word,single⟩ := invariant.request latched
        have kept : (after w p).adapter.reqQ = w.adapter.reqQ ∧ (after w p).adapter.wordIdxQ = w.adapter.wordIdxQ ∧
            (after w p).adapter.isUcQ = w.adapter.isUcQ := by simp [after,next,takes]
        rw [kept.1,kept.2.1,kept.2.2]
        exact ⟨request_kept request,word,single⟩

theorem flit_next (latched : (after w p).adapter.dataLatched = true) :
    ((after w p).early = false → (after w p).adapter.reqLatched = true) ∧ ∃ f, (after w p).flits[(after w p).issued]? = some f ∧
      Flit.mk (after w p).adapter.txData (after w p).adapter.txStrb =
        if (after w p).early then f else staged ((after w p).adapter.wordIdxQ,(after w p).adapter.isUcQ) f := by
  cases fires : awFire w.adapter p.pins with
  | true => simp [after,next,fires] at latched
  | false =>
      change (next w.adapter p.pins).dataLatched = true at latched
      rw [dataLatched_next fires] at latched
      have issued : (after w p).issued = w.issued := by simp [after,fires]
      rw [issued]
      cases takes : takesData w.adapter p.pins with
      | true =>
        obtain ⟨free,request⟩ := takesData_place takes
        have length := invariant.flits
        rw [free] at length
        have place : w.issued = w.flits.length := by simpa using length.symm
        have here : (after w p).flits[w.issued]? = some p.pins.reqData := by simp [after,takes,place]
        have registers : Flit.mk (after w p).adapter.txData (after w p).adapter.txStrb = staged (dataPlace w.adapter p.pins) p.pins.reqData := by
          simp only [after,next,takes,if_true]
        have early : (after w p).early = (!w.adapter.reqLatched && !p.pins.reqValid) := by simp [after,takes]
        rw [registers,early]
        cases held : w.adapter.reqLatched with
        | true =>
          have still : takesReq w.adapter p.pins = false := by simp [takesReq,reqReady,held]
          refine ⟨fun _ => by simp [after,next,fires,held],_,here,?_⟩
          simp [dataPlace,held,after,next,still]
        | false =>
          have together := request held
          cases valid : p.pins.reqValid with
          | true =>
            rw [valid] at together
            refine ⟨fun _ => by simp [after,next,fires,together],_,here,?_⟩
            simp [dataPlace,held,valid,after,next,together]
          | false => exact ⟨fun known => by simp at known,_,here,by simp [dataPlace,held,valid,staged]⟩
      | false =>
        rw [takes,Bool.false_or] at latched
        obtain ⟨f,flit,same⟩ := invariant.flit latched
        have registers : (after w p).adapter.txData = w.adapter.txData ∧ (after w p).adapter.txStrb = w.adapter.txStrb ∧ (after w p).early = w.early := by
          simp [after,next,takes]
        rw [registers.1,registers.2.1,registers.2.2]
        cases early : w.early with
        | true => exact ⟨nofun,f,flit_kept flit,by rw [same,early]; rfl⟩
        | false =>
          have held := invariant.known latched early
          have still : takesReq w.adapter p.pins = false := by simp [takesReq,reqReady,held]
          have place : (after w p).adapter.wordIdxQ = w.adapter.wordIdxQ ∧ (after w p).adapter.isUcQ = w.adapter.isUcQ := by simp [after,next,still]
          refine ⟨fun _ => by simp [after,next,fires,held],f,flit_kept flit,?_⟩
          rw [place.1,place.2,same,early]

theorem unanswered_next : (after w p).unanswered.Nodup ∧ ∀ n ∈ (after w p).unanswered, n < (after w p).issued := by
  have rest : (if respFifoPop w.adapter p.pins then w.unanswered.erase p.pick else w.unanswered).Sublist w.unanswered := by
    split
    · exact List.erase_sublist
    · exact List.Sublist.refl _
  cases fires : awFire w.adapter p.pins with
  | false =>
      have same : (after w p).unanswered = if respFifoPop w.adapter p.pins then w.unanswered.erase p.pick else w.unanswered := by simp [after,fires]
      have issued : (after w p).issued = w.issued := by simp [after,fires]
      rw [same,issued]
      exact ⟨rest.nodup invariant.distinct,fun n inside => invariant.below n (rest.subset inside)⟩
  | true =>
      have same : (after w p).unanswered = (if respFifoPop w.adapter p.pins then w.unanswered.erase p.pick else w.unanswered) ++ [w.issued] := by
        simp [after,fires]
      have issued : (after w p).issued = w.issued + 1 := by simp [after,fires]
      rw [same,issued]
      refine ⟨List.nodup_append.mpr ⟨rest.nodup invariant.distinct,by simp,?_⟩,?_⟩
      · intro n old m new equal
        have small := invariant.below n (rest.subset old)
        simp only [List.mem_singleton] at new
        omega
      · intro n inside
        rcases List.mem_append.mp inside with old | new
        · have small := invariant.below n (rest.subset old)
          omega
        · simp only [List.mem_singleton] at new
          omega

variable (contract : Contract w p)
include contract

theorem formed_next : ∀ req ∈ (after w p).requests, WellFormed req := by
  intro req inside
  rcases List.mem_append.mp inside with old | new
  · exact invariant.formed req old
  · cases takes : takesReq w.adapter p.pins with
    | false => simp [takes] at new
    | true =>
      simp only [takes,if_true,List.mem_singleton] at new
      rw [new]
      exact contract.request (takesReq_free takes).1

theorem responses_next : (respF (after w p).adapter).contents.length = (after w p).unanswered.length := by
  have before := invariant.responses
  have waiting := answered_waiting contract
  have unanswered : (after w p).unanswered = (if respFifoPop w.adapter p.pins then w.unanswered.erase p.pick else w.unanswered) ++
      if awFire w.adapter p.pins then [w.issued] else [] := rfl
  rw [respF_contents,unanswered,List.length_append,List.length_append,List.length_drop]
  have pushed : (if awFire w.adapter p.pins then [w.adapter.reqQ.id] else []).length = (if awFire w.adapter p.pins then [w.issued] else []).length := by
    split <;> rfl
  rw [pushed]
  cases pop : respFifoPop w.adapter p.pins with
  | false => simp only [Bool.false_eq_true,if_false]; omega
  | true =>
      have one := List.length_erase_of_mem (waiting pop)
      simp only [if_true]
      omega

theorem invariant_next (meets : ¬ Misplaced w p.pins) : Invariant (after w p) where
  requests := requests_next invariant
  flits := flits_next invariant
  formed := formed_next invariant contract
  enabled := contract.paired
  request := request_next invariant
  flit latched := (flit_next invariant latched).2
  known latched := (flit_next invariant latched).1
  queue := queue_next invariant
  entries := entries_next invariant meets
  idle := idle_next invariant
  send := send_next invariant
  bursts := bursts_next invariant
  responses := responses_next invariant contract
  distinct := (unanswered_next invariant).1
  below := (unanswered_next invariant).2

end staging

theorem sound_now {w : World} {p : Step} (invariant : Invariant w) (contract : Contract w p) : Sound w p where
  aw code fires := ⟨w.adapter.reqQ,(invariant.request (awFire_staged fires).1).1,rfl⟩
  burst := by
    intro n beats at'
    obtain ⟨req,f,request,flit,burst⟩ := invariant.bursts n beats at'
    have queue := invariant.queue
    have started : w.bursts.length ≤ loaded w := Nat.le_add_right _ _
    have index := (List.getElem?_eq_some_iff.mp at').1
    have formed := invariant.formed req (List.mem_of_getElem? request)
    refine ⟨by omega,req,f,request,flit,burst.length,fun k b inside => (burst.beat k b inside).last,?_⟩
    exact burst_writes formed (invariant.enabled n req f request flit) burst
  sending := by
    intro state
    obtain ⟨req,f,sending⟩ := invariant.send state
    have queue := invariant.queue
    have started : loaded w = w.bursts.length + 1 := by simp [loaded,state]
    exact ⟨by omega,req,sending.request,sending.fits⟩
  id := by
    intro pop
    simp only [respFifoPop,Bool.and_eq_true] at pop
    obtain ⟨_,_,req,request,same⟩ := contract.answer pop.1.2
    exact ⟨req,request,same⟩
  overflow fires := (canPush_iff _).mp (awFire_staged fires).2.2.1
  underflow := by
    refine ⟨fun pop => (popped pop).2,?_⟩
    intro pop
    simp only [respFifoPop,respFifoEmpty,Bool.and_eq_true,Bool.not_eq_true',beq_eq_false_iff_ne] at pop
    exact pop.1.1

section run

variable (inputs : Nat → Step)

def world (t : Nat) : World := trace machine inputs t

-- The request of cycle t is accepted; the requests are numbered in the order of acceptance.
def Accepted (t : Nat) : Prop := takesReq (world inputs t).adapter (inputs t).pins = true

def Addressed (t n : Nat) : Prop := awFire (world inputs t).adapter (inputs t).pins = true ∧ n = (world inputs t).issued

def Written (t n : Nat) : Prop := wFire (world inputs t).adapter (inputs t).pins = true ∧ (axiW (world inputs t).adapter).last = true ∧
  n = (world inputs t).bursts.length

def Returned (t n : Nat) : Prop := respFifoPop (world inputs t).adapter (inputs t).pins = true ∧ n = (inputs t).pick

-- The data cache sends the flit of an accepted request and takes responses again and again. The slave takes what
-- is offered, and answers every complete write if its responses are taken.
structure Fair : Prop where
  flits : ∀ t, (world inputs t).adapter.reqLatched = true → (world inputs t).adapter.dataLatched = false →
    ∃ u, t ≤ u ∧ (inputs u).pins.reqDataValid = true
  address : ∀ t, axiAwValid (world inputs t).adapter = true → ∃ u, t ≤ u ∧ (inputs u).pins.axiAwReady = true
  data : ∀ t, axiWValid (world inputs t).adapter = true → ∃ u, t ≤ u ∧ (inputs u).pins.axiWReady = true
  takes : ∀ t, ∃ u, t ≤ u ∧ (inputs u).pins.respReady = true
  answers : (∀ t, (world inputs t).unanswered ≠ [] → ∃ u, t ≤ u ∧ axiBReady (world inputs u).adapter (inputs u).pins = true) →
    ∀ t, ∀ n ∈ (world inputs t).unanswered, n < (world inputs t).bursts.length → ∃ u, t ≤ u ∧ Returned inputs u n

structure Served : Prop where
  sound : ∀ t, Sound (world inputs t) (inputs t)
  -- each accepted request has exactly one AW, after it exactly one burst and exactly one response
  once : ∀ t, Accepted inputs t → ∃ a, t < a ∧ Addressed inputs a (world inputs t).requests.length ∧
    (∀ v, Addressed inputs v (world inputs t).requests.length → v = a) ∧
    (∃ b, a < b ∧ Written inputs b (world inputs t).requests.length ∧ ∀ v, Written inputs v (world inputs t).requests.length → v = b) ∧
    ∃ r, a < r ∧ Returned inputs r (world inputs t).requests.length ∧ ∀ v, Returned inputs v (world inputs t).requests.length → v = r
  -- and there are no others
  only : ∀ u n, Addressed inputs u n ∨ Written inputs u n ∨ Returned inputs u n →
    ∃ t, t < u ∧ Accepted inputs t ∧ (world inputs t).requests.length = n

def addresses : Ticket.Tickets where
  issues := Accepted inputs
  count t := (world inputs t).requests.length
  inflight t n := (world inputs t).adapter.reqLatched = true ∧ n = (world inputs t).issued
  finishes := Addressed inputs

def writes : Ticket.Tickets where
  issues t := awFire (world inputs t).adapter (inputs t).pins = true
  count t := (world inputs t).issued
  inflight t n := (world inputs t).bursts.length ≤ n ∧ n < (world inputs t).issued
  finishes := Written inputs

def responses : Ticket.Tickets where
  issues t := awFire (world inputs t).adapter (inputs t).pins = true
  count t := (world inputs t).issued
  inflight t n := n ∈ (world inputs t).unanswered
  finishes := Returned inputs

variable {inputs}

theorem invariant_kept (admits : Admits machine inputs) (meets : ∀ t, ¬ Misplaced (world inputs t) (inputs t).pins) (t : Nat) :
    Invariant (world inputs t) := by
  induction t with
  | zero => exact invariant_start
  | succ t ih => exact invariant_next ih (admits t) (meets t)

theorem world_next (t : Nat) : world inputs (t + 1) = after (world inputs t) (inputs t) := rfl

theorem issued_next (t : Nat) : (world inputs (t + 1)).issued =
    if awFire (world inputs t).adapter (inputs t).pins then (world inputs t).issued + 1 else (world inputs t).issued := rfl

theorem beat_taken (fair : Fair inputs) {t : Nat} (state : (world inputs t).adapter.wState = .send) : ∃ u, t ≤ u ∧ (Written inputs u (world inputs t).bursts.length ∨
    (world inputs (u + 1)).adapter.wState = .send ∧ (world inputs (u + 1)).bursts = (world inputs t).bursts ∧
      (world inputs (u + 1)).sending.length = (world inputs t).sending.length + 1) := by
  obtain ⟨u,later,⟨sends,bursts,sending⟩,ready⟩ := holds_until
    (fun u => (world inputs u).adapter.wState = .send ∧ (world inputs u).bursts = (world inputs t).bursts ∧
      (world inputs u).sending = (world inputs t).sending)
    (fun u => (inputs u).pins.axiWReady = true) ⟨state,rfl,rfl⟩ (by
      rintro u _ ⟨sends,bursts,sending⟩ unready
      cases beat (world inputs u) (inputs u) with
      | waits _ _ still same same' => exact ⟨still,same.trans bursts,same'.trans sending⟩
      | rests before | loads before =>
          rw [sends] at before
          cases before
      | sends _ ready | ends _ ready => exact absurd ready unready)
    (fair.data t (by simp [axiWValid,state]))
  refine ⟨u,later,?_⟩
  cases beat (world inputs u) (inputs u) with
  | rests before | loads before =>
      rw [sends] at before
      cases before
  | waits _ unready =>
      rw [ready] at unready
      cases unready
  | ends _ _ last => exact .inl ⟨by simp [wFire,axiWValid,sends,ready],last,by rw [bursts]⟩
  | sends _ _ _ still same grown =>
      refine .inr ⟨still,same.trans bursts,?_⟩
      rw [world_next,grown,sending,List.length_append,List.length_singleton]

-- While no AW goes out, what room there is stays.
theorem room_lasts {t : Nat} (room : canPush (world inputs t).adapter = true) (silent : awFire (world inputs t).adapter (inputs t).pins = false) :
    canPush (world inputs (t + 1)).adapter = true := by
  have data := dataF_contents (w := world inputs t) (p := inputs t)
  have resp := respF_contents (w := world inputs t) (p := inputs t)
  rw [silent,if_neg Bool.false_ne_true,List.append_nil] at data resp
  have dataLength := congrArg List.length data
  have respLength := congrArg List.length resp
  rw [List.length_drop] at dataLength respLength
  rw [canPush_iff,full_length,full_length] at room ⊢
  have dataSmall := Window.age_lt (dataF (world inputs t).adapter).rd (dataF (world inputs t).adapter).wr
  have respSmall := Window.age_lt (respF (world inputs t).adapter).rd (respF (world inputs t).adapter).wr
  rw [← contents_length] at dataSmall respSmall
  rw [world_next,dataLength,respLength]
  omega

theorem bursts_mono {t u : Nat} (later : t ≤ u) : (world inputs t).bursts.length ≤ (world inputs u).bursts.length := by
  induction later with
  | refl => exact Nat.le_refl _
  | step later ih =>
    rw [world_next]
    simp only [after,List.length_append]
    omega

theorem issued_stuck {t u : Nat} (stuck : ∀ v, t ≤ v → awFire (world inputs v).adapter (inputs v).pins = false) (later : t ≤ u) :
    (world inputs u).issued = (world inputs t).issued := by
  induction later with
  | refl => rfl
  | step later ih => rw [issued_next,stuck _ later,if_neg Bool.false_ne_true,ih]

theorem flit_comes (fair : Fair inputs) {t : Nat} (latched : (world inputs t).adapter.reqLatched = true)
    (stuck : ∀ v, t ≤ v → awFire (world inputs v).adapter (inputs v).pins = false) :
    ∃ u, t ≤ u ∧ (world inputs u).adapter.dataLatched = true := by
  have held : ∀ u, t ≤ u → (world inputs u).adapter.reqLatched = true := by
    intro u later
    induction later with
    | refl => exact latched
    | step later ih =>
      change (next (world inputs _).adapter (inputs _).pins).reqLatched = true
      rw [reqLatched_next (stuck _ later),ih,Bool.or_true]
  by_cases here : (world inputs t).adapter.dataLatched = true
  · exact ⟨t,Nat.le_refl t,here⟩
  · obtain ⟨u,later,valid⟩ := fair.flits t latched (by simpa using here)
    refine ⟨u + 1,by omega,?_⟩
    change (next (world inputs u).adapter (inputs u).pins).dataLatched = true
    rw [dataLatched_next (stuck u later)]
    cases staged' : (world inputs u).adapter.dataLatched <;> simp [takesData,reqDataReady,valid,staged',held u later]

section served

variable (admits : Admits machine inputs) (meets : ∀ t, ¬ Misplaced (world inputs t) (inputs t).pins)
include admits meets

theorem addresses_lawful : Ticket.Lawful (addresses inputs) where
  empty := rfl
  issued t takes := by
    have now : takesReq (world inputs t).adapter (inputs t).pins = true := takes
    simp [addresses,world_next,after,now]
  kept t silent := by
    have now : takesReq (world inputs t).adapter (inputs t).pins = false := by simpa [addresses,Accepted] using silent
    simp [addresses,world_next,after,now]
  below := by
    rintro t n ⟨latched,rfl⟩
    have length := (invariant_kept admits meets t).requests
    rw [latched,if_pos rfl] at length
    change (world inputs t).issued < (world inputs t).requests.length
    omega
  finish := by
    rintro t n ⟨fires,number⟩
    exact ⟨(awFire_staged fires).1,number⟩
  step t n := by
    have length := (invariant_kept admits meets t).requests
    change (next (world inputs t).adapter (inputs t).pins).reqLatched = true ∧ n = (world inputs (t + 1)).issued ↔
      ((world inputs t).adapter.reqLatched = true ∧ n = (world inputs t).issued) ∧ ¬ Addressed inputs t n ∨
        takesReq (world inputs t).adapter (inputs t).pins = true ∧ n = (world inputs t).requests.length
    rw [issued_next]
    unfold Addressed
    cases fires : awFire (world inputs t).adapter (inputs t).pins with
    | true =>
        have still := (awFire_staged fires).2.2.2.1
        simp [next,fires,still]
    | false =>
        rw [reqLatched_next fires]
        cases takes : takesReq (world inputs t).adapter (inputs t).pins with
        | false => simp
        | true =>
          rw [(takesReq_free takes).2] at length ⊢
          simp [length]

theorem bursts_issued (t : Nat) : (world inputs t).bursts.length ≤ (world inputs t).issued := by
  have queue := (invariant_kept admits meets t).queue
  have started : (world inputs t).bursts.length ≤ loaded (world inputs t) := Nat.le_add_right _ _
  omega

theorem written_started {t n : Nat} (written : Written inputs t n) : (world inputs t).bursts.length ≤ n ∧ n < (world inputs t).issued := by
  obtain ⟨fires,_,rfl⟩ := written
  have state : (world inputs t).adapter.wState = .send := by
    simp only [wFire,axiWValid,Bool.and_eq_true,decide_eq_true_eq] at fires
    exact fires.1
  have queue := (invariant_kept admits meets t).queue
  have started : loaded (world inputs t) = (world inputs t).bursts.length + 1 := by simp [loaded,state]
  omega

theorem writes_lawful : Ticket.Lawful (writes inputs) where
  empty := rfl
  issued t fires := by
    have now : awFire (world inputs t).adapter (inputs t).pins = true := fires
    simp [writes,issued_next,now]
  kept t silent := by
    have now : awFire (world inputs t).adapter (inputs t).pins = false := by simpa [writes] using silent
    simp [writes,issued_next,now]
  below _ _ inside := inside.2
  finish t n written := written_started admits meets written
  step t n := by
    have within := bursts_issued admits meets t
    have started := written_started admits meets (t := t) (n := n)
    have bursts : (world inputs (t + 1)).bursts.length = (world inputs t).bursts.length +
        if wFire (world inputs t).adapter (inputs t).pins && (axiW (world inputs t).adapter).last then 1 else 0 := by
      rw [world_next]
      simp only [after]
      split <;> simp
    change (world inputs (t + 1)).bursts.length ≤ n ∧ n < (world inputs (t + 1)).issued ↔
      ((world inputs t).bursts.length ≤ n ∧ n < (world inputs t).issued) ∧ ¬ Written inputs t n ∨
        awFire (world inputs t).adapter (inputs t).pins = true ∧ n = (world inputs t).issued
    rw [issued_next,bursts]
    clear bursts
    unfold Written at started ⊢
    revert started
    cases awFire (world inputs t).adapter (inputs t).pins <;> cases wFire (world inputs t).adapter (inputs t).pins <;>
      cases (axiW (world inputs t).adapter).last <;> simp <;> omega

theorem responses_lawful : Ticket.Lawful (responses inputs) where
  empty := rfl
  issued t fires := by
    have now : awFire (world inputs t).adapter (inputs t).pins = true := fires
    simp [responses,issued_next,now]
  kept t silent := by
    have now : awFire (world inputs t).adapter (inputs t).pins = false := by simpa [responses] using silent
    simp [responses,issued_next,now]
  below t n inside := (invariant_kept admits meets t).below n inside
  finish := by
    rintro t n ⟨pop,rfl⟩
    exact answered_waiting (admits t) pop
  step t n := by
    have distinct := (invariant_kept admits meets t).distinct
    change n ∈ (after (world inputs t) (inputs t)).unanswered ↔ (n ∈ (world inputs t).unanswered ∧ ¬ Returned inputs t n) ∨
      awFire (world inputs t).adapter (inputs t).pins = true ∧ n = (world inputs t).issued
    unfold Returned after
    cases respFifoPop (world inputs t).adapter (inputs t).pins <;> cases awFire (world inputs t).adapter (inputs t).pins <;>
      simp [distinct.mem_erase_iff,and_comm]

variable (fair : Fair inputs)
include fair

-- A burst in progress ends, as it has fewer than 256 beats.
theorem sending_ends {d t : Nat} (state : (world inputs t).adapter.wState = .send) (left : 256 ≤ (world inputs t).sending.length + d) :
    ∃ u, t ≤ u ∧ Written inputs u (world inputs t).bursts.length := by
  induction d generalizing t with
  | zero =>
    obtain ⟨req,f,sending⟩ := (invariant_kept admits meets t).send state
    have fits := sending.fits
    have small := (axiLen req.size).isLt
    omega
  | succ d ih =>
    obtain ⟨u,later,written | ⟨still,bursts,length⟩⟩ := beat_taken fair state
    · exact ⟨u,later,written⟩
    · obtain ⟨v,after',written⟩ := ih still (by omega)
      rw [bursts] at written
      exact ⟨v,by omega,written⟩

theorem next_written {t : Nat} (waits : (world inputs t).bursts.length < (world inputs t).issued) :
    ∃ u, t ≤ u ∧ Written inputs u (world inputs t).bursts.length := by
  cases state : (world inputs t).adapter.wState with
  | send => exact sending_ends admits meets fair state (Nat.le_add_left 256 _)
  | idle =>
    have queue := (invariant_kept admits meets t).queue
    have unloaded : loaded (world inputs t) = (world inputs t).bursts.length := by simp [loaded,state]
    have some' : ¬ (dataF (world inputs t).adapter).Empty := by
      rw [empty_length]
      omega
    have pops : dataFifoPop (world inputs t).adapter = true := by
      simpa [dataFifoPop,state,dataFifoEmpty,dataF,Fifo.Empty] using some'
    cases beat (world inputs t) (inputs t) with
    | loads _ _ moves bursts =>
        obtain ⟨u,later,written⟩ := sending_ends admits meets fair (t := t + 1) moves (Nat.le_add_left 256 _)
        rw [world_next,bursts] at written
        exact ⟨u,by omega,written⟩
    | rests _ empty =>
        rw [pops] at empty
        cases empty
    | waits before | sends before | ends before =>
        rw [state] at before
        cases before

theorem writes_end (t n : Nat) (inside : (world inputs t).bursts.length ≤ n ∧ n < (world inputs t).issued) : ∃ u, t ≤ u ∧ Written inputs u n := by
  obtain ⟨d,rfl⟩ := Nat.exists_eq_add_of_le inside.1
  induction d generalizing t with
  | zero => exact next_written admits meets fair inside.2
  | succ d ih =>
    obtain ⟨u,later,written⟩ := next_written admits meets fair (t := t) (by omega)
    have grown : (world inputs (u + 1)).bursts.length = (world inputs t).bursts.length + 1 := by
      obtain ⟨fires,last,number⟩ := written
      simp [world_next,after,fires,last,number]
    have more := Ticket.count_mono (writes_lawful admits meets) (by omega : t ≤ u + 1)
    change (world inputs t).issued ≤ (world inputs (u + 1)).issued at more
    obtain ⟨v,after',found⟩ := ih (u + 1) (by omega)
    rw [grown] at found
    exact ⟨v,by omega,by rwa [Nat.add_assoc,Nat.add_comm 1 d] at found⟩

theorem all_written (t n : Nat) (issued : n ≤ (world inputs t).issued) : ∃ u, t ≤ u ∧ n ≤ (world inputs u).bursts.length := by
  by_cases done : n ≤ (world inputs t).bursts.length
  · exact ⟨t,Nat.le_refl t,done⟩
  · obtain ⟨u,later,fires,last,number⟩ := writes_end admits meets fair t (n - 1) (by omega)
    refine ⟨u + 1,by omega,?_⟩
    simp [world_next,after,fires,last]
    omega

theorem answers_taken (t : Nat) (waits : (world inputs t).unanswered ≠ []) : ∃ u, t ≤ u ∧ axiBReady (world inputs u).adapter (inputs u).pins = true := by
  obtain ⟨u,later,some',ready⟩ := holds_until (fun u => (world inputs u).unanswered ≠ []) (fun u => (inputs u).pins.respReady = true) waits (by
    intro u _ some' unready
    have still : respFifoPop (world inputs u).adapter (inputs u).pins = false := by simp [respFifoPop,unready]
    simp [world_next,after,still,some']) (fair.takes t)
  have queue := (invariant_kept admits meets u).responses
  have nonempty : ¬ (respF (world inputs u).adapter).Empty := by
    rw [empty_length,queue,List.length_eq_zero_iff]
    exact some'
  refine ⟨u,later,?_⟩
  simp only [axiBReady,ready,Bool.and_true,Bool.not_eq_true',respFifoEmpty,beq_eq_false_iff_ne]
  exact nonempty

theorem responses_end (t n : Nat) (waits : n ∈ (world inputs t).unanswered) : ∃ u, t ≤ u ∧ Returned inputs u n := by
  have small := (invariant_kept admits meets t).below n waits
  obtain ⟨u,later,whole⟩ := all_written admits meets fair t (n + 1) small
  by_cases before : ∃ v, t ≤ v ∧ v < u ∧ Returned inputs v n
  · obtain ⟨v,after',_,returned⟩ := before
    exact ⟨v,after',returned⟩
  · have still : n ∈ (world inputs u).unanswered :=
      Ticket.inflight_lasts (responses_lawful admits meets) waits later fun v after' earlier returned => before ⟨v,after',earlier,returned⟩
    obtain ⟨v,after',returned⟩ := fair.answers (answers_taken admits meets fair) u n still whole
    exact ⟨v,by omega,returned⟩

-- Without another AW all bursts end, and a response makes room if there is none.
theorem room_comes {t : Nat} (stuck : ∀ v, t ≤ v → awFire (world inputs v).adapter (inputs v).pins = false) :
    ∃ u, t ≤ u ∧ canPush (world inputs u).adapter = true := by
  obtain ⟨u,later,whole⟩ := all_written admits meets fair t _ (Nat.le_refl _)
  have room : ∀ v, u ≤ v → ¬ (dataF (world inputs v).adapter).Full := by
    intro v beyond
    have queue := (invariant_kept admits meets v).queue
    have issued := issued_stuck stuck (u := v) (by omega)
    have started : (world inputs v).bursts.length ≤ loaded (world inputs v) := Nat.le_add_right _ _
    have grown : (world inputs u).bursts.length ≤ (world inputs v).bursts.length := bursts_mono beyond
    rw [full_length]
    omega
  by_cases full : (respF (world inputs u).adapter).Full
  · have responses := (invariant_kept admits meets u).responses
    rw [full_length] at full
    obtain ⟨m,waits⟩ := List.exists_mem_of_length_pos (by omega : 0 < (world inputs u).unanswered.length)
    obtain ⟨v,beyond,pop,_⟩ := responses_end admits meets fair u m waits
    have small := Window.age_lt (respF (world inputs v).adapter).rd (respF (world inputs v).adapter).wr
    rw [← contents_length] at small
    have length := congrArg List.length (respF_contents (w := world inputs v) (p := inputs v))
    rw [pop,stuck v (by omega),if_pos rfl,if_neg Bool.false_ne_true,List.append_nil,List.length_drop] at length
    refine ⟨v + 1,by omega,(canPush_iff _).mpr ⟨room (v + 1) (by omega),?_⟩⟩
    rw [full_length,world_next,length]
    omega
  · exact ⟨u,later,(canPush_iff _).mpr ⟨room u (Nat.le_refl u),full⟩⟩

theorem addresses_end (t n : Nat) (waits : (world inputs t).adapter.reqLatched = true ∧ n = (world inputs t).issued) :
    ∃ u, t ≤ u ∧ Addressed inputs u n := by
  by_contra never
  have latched (u : Nat) (later : t ≤ u) := Ticket.inflight_lasts (addresses_lawful admits meets) waits later
    fun v after' _ happens => never ⟨v,after',happens⟩
  have stuck : ∀ u, t ≤ u → awFire (world inputs u).adapter (inputs u).pins = false := by
    intro u later
    by_contra fires
    rw [Bool.not_eq_false] at fires
    exact never ⟨u,later,fires,(latched u later).2⟩
  obtain ⟨u,later,flit⟩ := flit_comes fair waits.1 stuck
  obtain ⟨v,after',room⟩ := room_comes admits meets fair stuck
  have data : ∀ x, u ≤ x → (world inputs x).adapter.dataLatched = true := by
    intro x beyond
    induction beyond with
    | refl => exact flit
    | step beyond ih =>
      change (next (world inputs _).adapter (inputs _).pins).dataLatched = true
      rw [dataLatched_next (stuck _ (Nat.le_trans later beyond)),ih,Bool.or_true]
  have free : ∀ x, v ≤ x → canPush (world inputs x).adapter = true := by
    intro x beyond
    induction beyond with
    | refl => exact room
    | step beyond ih => exact room_lasts ih (stuck _ (Nat.le_trans after' beyond))
  have valid (x : Nat) (one : u ≤ x) (two : v ≤ x) : axiAwValid (world inputs x).adapter = true := by
    simp only [axiAwValid,bothStaged,Bool.and_eq_true]
    exact ⟨⟨(latched x (by omega)).1,data x one⟩,free x two⟩
  obtain ⟨x,beyond,ready⟩ := fair.address (max u v) (valid _ (Nat.le_max_left u v) (Nat.le_max_right u v))
  have offered := valid x (by omega) (by omega)
  have fires : awFire (world inputs x).adapter (inputs x).pins = true := by
    simp only [axiAwValid] at offered
    simp [awFire,offered,ready]
  rw [stuck x (by omega)] at fires
  cases fires

-- The adapter serves every run in which no AW goes out with its data in other lanes.
theorem writes_served : Served inputs where
  sound t := sound_now (invariant_kept admits meets t) (admits t)
  once := by
    intro t accepted
    obtain ⟨a,later,addressed,unique⟩ := Ticket.served_once (addresses_lawful admits meets) (addresses_end admits meets fair) (t := t) accepted
    obtain ⟨fires,number⟩ := addressed
    have write := Ticket.served_once (writes_lawful admits meets) (writes_end admits meets fair) (t := a) fires
    have response := Ticket.served_once (responses_lawful admits meets) (responses_end admits meets fair) (t := a) fires
    change (world inputs t).requests.length = (world inputs a).issued at number
    change ∃ u, a < u ∧ Written inputs u (world inputs a).issued ∧ ∀ v, Written inputs v (world inputs a).issued → v = u at write
    change ∃ u, a < u ∧ Returned inputs u (world inputs a).issued ∧ ∀ v, Returned inputs v (world inputs a).issued → v = u at response
    rw [← number] at write response
    exact ⟨a,later,⟨fires,number⟩,unique,write,response⟩
  only := by
    have addressed (u n : Nat) (now : Addressed inputs u n) : ∃ t, t < u ∧ Accepted inputs t ∧ (world inputs t).requests.length = n :=
      Ticket.inflight_issued (addresses_lawful admits meets) ((addresses_lawful admits meets).finish u n now)
    have issued (u n : Nat) (now : ∃ a, a < u ∧ awFire (world inputs a).adapter (inputs a).pins = true ∧ (world inputs a).issued = n) :
        ∃ t, t < u ∧ Accepted inputs t ∧ (world inputs t).requests.length = n := by
      obtain ⟨a,before,fires,number⟩ := now
      obtain ⟨t,earlier,accepted⟩ := addressed a n ⟨fires,number.symm⟩
      exact ⟨t,by omega,accepted⟩
    rintro u n (now | now | now)
    · exact addressed u n now
    · exact issued u n (Ticket.inflight_issued (writes_lawful admits meets) ((writes_lawful admits meets).finish u n now))
    · exact issued u n (Ticket.inflight_issued (responses_lawful admits meets) ((responses_lawful admits meets).finish u n now))

end served

end run

-- A cycle that may bring a request and a flit, and one that brings the response to a write
def offer (req : Option MemReq) (flit : Option Flit) : Step where
  pins :=
    { reqValid := req.isSome
      req := req.getD ⟨0,3,0,.write,false⟩
      reqDataValid := flit.isSome
      reqData := flit.getD ⟨0,0⟩
      respReady := true
      axiAwReady := true
      axiWReady := true
      axiBValid := false
      axiBId := 0
      axiBResp := 0 }
  pick := 0

def idle : Step := offer none none

def respond (pick : Nat) (id : BitVec 8) : Step where
  pins :=
    { idle.pins with
      axiBValid := true
      axiBId := id }
  pick := pick

theorem listed {α : Type} {xs ys : List α} {k : Nat} {x : α} (part : xs <+: ys) (at' : xs[k]? = some x) : ys[k]? = some x := by
  obtain ⟨rest,rfl⟩ := part
  exact (List.getElem?_append_left (List.getElem?_eq_some_iff.mp at').1).trans at'

section cycles

variable {w : World} {reqs : List MemReq} {flits : List Flit}

-- What the cache has sent is the beginning of what it will send.
structure Sends (w : World) (reqs : List MemReq) (flits : List Flit) : Prop where
  requests : w.requests <+: reqs
  flits : w.flits <+: flits

theorem sends_mono {inputs : Nat → Step} {t u : Nat} (later : t ≤ u) :
    Sends (world inputs t) (world inputs u).requests (world inputs u).flits := by
  induction later with
  | refl => exact ⟨List.prefix_rfl,List.prefix_rfl⟩
  | step later ih =>
    rw [world_next]
    exact ⟨ih.requests.trans (List.prefix_append _ _),ih.flits.trans (List.prefix_append _ _)⟩

variable (enabled : ∀ (k : Nat) (req : MemReq) (f : Flit), reqs[k]? = some req → flits[k]? = some f → Enabled req f)
include enabled

theorem offer_contract {req : Option MemReq} {flit : Option Flit} (sends : Sends (after w (offer req flit)) reqs flits)
    (formed : ∀ r, req = some r → WellFormed r) : Contract w (offer req flit) := by
  refine ⟨?_,fun k r f request carried => enabled k r f (listed sends.requests request) (listed sends.flits carried),nofun⟩
  intro valid
  obtain ⟨r,rfl⟩ := Option.isSome_iff_exists.mp valid
  exact formed r rfl

theorem respond_contract {pick : Nat} {id : BitVec 8} {req : MemReq} (sends : Sends (after w (respond pick id)) reqs flits)
    (waits : pick ∈ w.unanswered) (written : pick < w.bursts.length) (request : w.requests[pick]? = some req) (same : id = req.id) :
    Contract w (respond pick id) :=
  ⟨nofun,fun k r f asked carried => enabled k r f (listed sends.requests asked) (listed sends.flits carried),
    fun _ => ⟨waits,written,req,request,same⟩⟩

end cycles

theorem enabled_lanes {req : MemReq} {f : Flit} (lanes : ∀ m : Fin 64, f.be.getLsbD m = true → req.addr.toNat % 64 ≤ m.val ∧
    m.val < req.addr.toNat % 64 + bytes req) : Enabled req f := fun m set => lanes ⟨m,BitVec.lt_of_getLsbD set⟩ set

section ending

variable {inputs : Nat → Step} {n : Nat} (ends : ∀ t, inputs (t + n) = idle) (free : (world inputs n).adapter.reqLatched = false)
  (answered : (world inputs n).unanswered = [])
include ends free answered

theorem ending_quiet (t : Nat) : (world inputs (t + n)).adapter.reqLatched = false ∧ (world inputs (t + n)).unanswered = [] ∧
    (world inputs (t + n)).requests = (world inputs n).requests ∧ (world inputs (t + n)).flits = (world inputs n).flits := by
  induction t with
  | zero => rw [Nat.zero_add]; exact ⟨free,answered,rfl,rfl⟩
  | succ t ih =>
    obtain ⟨free',answered',requests,flits⟩ := ih
    have step : world inputs (t + 1 + n) = after (world inputs (t + n)) idle := by
      rw [Nat.add_right_comm,← ends t]
      rfl
    have takes : takesReq (world inputs (t + n)).adapter idle.pins = false := rfl
    have takes' : takesData (world inputs (t + n)).adapter idle.pins = false := rfl
    have fires : awFire (world inputs (t + n)).adapter idle.pins = false := by simp [awFire,bothStaged,free']
    have pops : respFifoPop (world inputs (t + n)).adapter idle.pins = false := by simp [respFifoPop,idle,offer]
    refine ⟨?_,?_,?_,?_⟩
    · rw [step]
      change (next (world inputs (t + n)).adapter idle.pins).reqLatched = false
      rw [reqLatched_next fires,takes,free']
      rfl
    · simp [step,after,fires,pops,answered']
    · simp [step,after,takes,requests]
    · simp [step,after,takes',flits]

theorem ending_sends {reqs : List MemReq} {fs : List Flit} (listed : (world inputs n).requests = reqs ∧ (world inputs n).flits = fs)
    (t : Nat) : Sends (world inputs t) reqs fs := by
  rw [← listed.1,← listed.2]
  rcases Nat.le_total t n with before | beyond
  · exact sends_mono before
  · obtain ⟨u,rfl⟩ := Nat.exists_eq_add_of_le' beyond
    obtain ⟨_,_,requests,flits⟩ := ending_quiet ends free answered u
    exact ⟨requests ▸ List.prefix_rfl,flits ▸ List.prefix_rfl⟩

theorem ending_unaddressed (t : Nat) : ¬ Misplaced (world inputs (t + n)) (inputs (t + n)).pins := by
  rintro ⟨fires,_⟩
  have held := (awFire_staged fires).1
  rw [(ending_quiet ends free answered t).1] at held
  cases held

theorem ending_fair (ready : ∀ t, (inputs t).pins.axiAwReady = true ∧ (inputs t).pins.axiWReady = true ∧ (inputs t).pins.respReady = true)
    (together : ∀ t < n, (world inputs t).adapter.reqLatched = true → (world inputs t).adapter.dataLatched = true)
    (early : ∀ t < n, ∀ m ∈ (world inputs t).unanswered, ∃ u, t ≤ u ∧ Returned inputs u m) : Fair inputs where
  flits := by
    intro t request flit
    by_cases before : t < n
    · rw [together t before request] at flit
      cases flit
    · obtain ⟨u,rfl⟩ : ∃ u, t = u + n := ⟨t - n,by omega⟩
      rw [(ending_quiet ends free answered u).1] at request
      cases request
  address t _ := ⟨t,Nat.le_refl t,(ready t).1⟩
  data t _ := ⟨t,Nat.le_refl t,(ready t).2.1⟩
  takes t := ⟨t,Nat.le_refl t,(ready t).2.2⟩
  answers := by
    intro _ t m waits _
    by_cases before : t < n
    · exact early t before m waits
    · obtain ⟨u,rfl⟩ : ∃ u, t = u + n := ⟨t - n,by omega⟩
      rw [(ending_quiet ends free answered u).2.1] at waits
      cases waits

end ending

-- Two bytes of the word at address 8, and two bytes across the words of a burst of two beats; the second write is
-- answered first.
def word : MemReq := ⟨8,3,1,.write,false⟩

def wordFlit : Flit := ⟨0x1122 <<< 64,0x0300⟩

def two : MemReq := ⟨0,4,2,.write,true⟩

def twoFlit : Flit := ⟨0x3344 <<< 56,0x0180⟩

def overlapping : Nat → Step
  | 0 => offer (some word) (some wordFlit)
  | 2 => offer (some two) (some twoFlit)
  | 7 => respond 1 2
  | 8 => respond 0 1
  | _ => idle

theorem word_enabled : Enabled word wordFlit := enabled_lanes (by decide)

theorem overlapping_enabled : ∀ (k : Nat) (req : MemReq) (f : Flit), [word,two][k]? = some req → [wordFlit,twoFlit][k]? = some f →
    Enabled req f := by
  intro k req f request flit
  rcases k with _ | _ | k
  · rw [← Option.some.inj request,← Option.some.inj flit]
    exact word_enabled
  · rw [← Option.some.inj request,← Option.some.inj flit]
    exact enabled_lanes (by decide)
  · cases request

theorem overlapping_ends : (world overlapping 9).adapter.reqLatched = false ∧ (world overlapping 9).unanswered = [] := by decide

theorem overlapping_written : ((world overlapping 9).requests = [word,two] ∧ (world overlapping 9).flits = [wordFlit,twoFlit]) ∧
    (world overlapping 7).unanswered = [0,1] ∧
    (world overlapping 7).bursts = [[⟨0x1122,3,true⟩],[⟨0x44 <<< 56,0x80,false⟩,⟨0x33,1,true⟩]] := by
  decide +kernel

theorem overlapping_sends (t : Nat) : Sends (world overlapping t) [word,two] [wordFlit,twoFlit] :=
  ending_sends (n := 9) (fun _ => rfl) overlapping_ends.1 overlapping_ends.2 overlapping_written.1 t

theorem overlapping_admits : Admits machine overlapping := by
  intro t
  have sends := overlapping_sends (t + 1)
  match t with
  | 0 | 2 => exact offer_contract overlapping_enabled sends (by rintro _ ⟨⟩; exact ⟨by decide,by decide⟩)
  | 7 => exact respond_contract overlapping_enabled sends (by decide) (by decide) (by decide : _ = some two) rfl
  | 8 => exact respond_contract overlapping_enabled sends (by decide) (by decide) (by decide : _ = some word) rfl
  | 1 | 3 | 4 | 5 | 6 | t + 9 => exact offer_contract overlapping_enabled sends nofun

theorem overlapping_fair : Fair overlapping := by
  refine ending_fair (n := 9) (fun _ => rfl) overlapping_ends.1 overlapping_ends.2 ?_ (by decide) ?_
  · intro t
    match t with
    | 0 | 1 | 2 | 3 | 4 | 5 | 6 | 7 | 8 | t + 9 => exact ⟨rfl,rfl,rfl⟩
  · have first : Returned overlapping 8 0 := ⟨by decide,rfl⟩
    have second : Returned overlapping 7 1 := ⟨by decide,rfl⟩
    have open' : ∀ t < 9, ∀ m ∈ (world overlapping t).unanswered, (m = 0 ∧ t ≤ 8) ∨ (m = 1 ∧ t ≤ 7) := by decide
    intro t before m waits
    rcases open' t before m waits with ⟨rfl,soon⟩ | ⟨rfl,soon⟩
    · exact ⟨8,soon,first⟩
    · exact ⟨7,soon,second⟩

theorem overlapping_meets (t : Nat) : ¬ Misplaced (world overlapping t) (overlapping t).pins := by
  match t with
  | 0 | 1 | 2 | 3 | 4 | 5 | 6 | 7 | 8 => unfold Misplaced; decide
  | t + 9 => exact ending_unaddressed (n := 9) (fun _ => rfl) overlapping_ends.1 overlapping_ends.2 t

theorem writes_served_overlapping : (world overlapping 7).unanswered = [0,1] ∧
    (world overlapping 7).bursts = [[⟨0x1122,3,true⟩],[⟨0x44 <<< 56,0x80,false⟩,⟨0x33,1,true⟩]] ∧ Served overlapping :=
  ⟨overlapping_written.2.1,overlapping_written.2.2,writes_served overlapping_admits overlapping_meets overlapping_fair⟩

-- A flit that comes before its request is not shifted, and its burst writes nothing.
def apart : Nat → Step
  | 0 => offer none (some wordFlit)
  | 1 => offer (some word) none
  | 5 => respond 0 1
  | _ => idle

theorem apart_enabled : ∀ (k : Nat) (req : MemReq) (f : Flit), [word][k]? = some req → [wordFlit][k]? = some f → Enabled req f := by
  intro k req f request flit
  rcases k with _ | k
  · rw [← Option.some.inj request,← Option.some.inj flit]
    exact word_enabled
  · cases request

theorem apart_ends : (world apart 6).adapter.reqLatched = false ∧ (world apart 6).unanswered = [] := by decide

theorem apart_written : ((world apart 6).requests = [word] ∧ (world apart 6).flits = [wordFlit]) ∧
    (world apart 5).flits[0]? = some wordFlit ∧ (world apart 5).bursts = [[⟨0,0,true⟩]] := by
  decide +kernel

theorem apart_sends (t : Nat) : Sends (world apart t) [word] [wordFlit] :=
  ending_sends (n := 6) (fun _ => rfl) apart_ends.1 apart_ends.2 apart_written.1 t

theorem apart_admits : Admits machine apart := by
  intro t
  have sends := apart_sends (t + 1)
  match t with
  | 1 => exact offer_contract apart_enabled sends (by rintro _ ⟨⟩; exact ⟨by decide,by decide⟩)
  | 5 => exact respond_contract apart_enabled sends (by decide) (by decide) (by decide : _ = some word) rfl
  | 0 | 2 | 3 | 4 | t + 6 => exact offer_contract apart_enabled sends nofun

theorem apart_fair : Fair apart := by
  refine ending_fair (n := 6) (fun _ => rfl) apart_ends.1 apart_ends.2 ?_ (by decide) ?_
  · intro t
    match t with
    | 0 | 1 | 2 | 3 | 4 | 5 | t + 6 => exact ⟨rfl,rfl,rfl⟩
  · have answer : Returned apart 5 0 := ⟨by decide,rfl⟩
    have open' : ∀ t < 6, ∀ m ∈ (world apart t).unanswered, m = 0 := by decide
    intro t before m waits
    rw [open' t before m waits]
    exact ⟨5,by omega,answer⟩

theorem early_unwritten : ¬ ∀ inputs, Admits machine inputs → Fair inputs → Served inputs := by
  intro served
  obtain ⟨_,known,here⟩ := apart_written
  obtain ⟨_,req,f,_,flit,_,_,writes⟩ := ((served _ apart_admits apart_fair).sound 5).burst 0 _ (by rw [here]; rfl)
  rw [known,Option.some.injEq] at flit
  subst flit
  obtain ⟨k,l,b,at',_,set,_⟩ := (writes 8 _).mpr ⟨by decide,rfl⟩
  have blank : ∀ c ∈ [WChan.mk 0 0 true], c.strb = 0 := by decide
  rw [blank b (List.mem_of_getElem? at')] at set
  simp at set

end Sargantana.AxiWriteService
