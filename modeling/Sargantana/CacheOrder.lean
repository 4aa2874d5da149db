import Sargantana.CacheControl

-- The cache does the requests of a line in the order in which they came. While a request stands in stage 1 no refill and no
-- flush runs, and this is what the pipeline needs to keep the lists of the replay table.
namespace Sargantana.CacheOrder

open Arbiters HpdcachePkg CacheEngine

section Pipeline

open CachePipeline

variable {n : Nat} [NeZero n] {c : Cfg} {δ : Type} {g : Settings} {b : ReplayTable.Entry c δ} {s : CachePipeline.State n c δ}
  {i : CachePipeline.Input c δ}

theorem moves_facts (moves : coreReady g b s i = true ∨ rtabReady g b s i = true) :
    normal (pipe g s i) = true ∧ i.miss.refillReqValid = false ∧ (i.handlers.cmoBusy = false ∨ i.handlers.cmoWait = true) ∧
      s.st2FlushAlloc = none := by
  rcases moves with ready | ready
  · simp only [coreReady,coreReqReady,CacheEngine.nop,pipe,Bool.and_eq_true,Bool.not_eq_true',Bool.or_eq_false_iff,
      Option.isSome_eq_false_iff,Option.isNone_iff_eq_none] at ready
    exact ⟨ready.1,ready.2.1.1.1.1.1.2,.inl ready.2.1.1.1.2,ready.2.2.2.1.2⟩
  · simp only [rtabReady,rtabReqReady,CacheEngine.nop,pipe,Bool.and_eq_true,Bool.not_eq_true',Bool.or_eq_false_iff,
      Bool.or_eq_true,Option.isSome_eq_false_iff,Option.isNone_iff_eq_none] at ready
    exact ⟨ready.1,ready.2.1.1.2,ready.2.1.2,ready.2.2.2.1.2⟩

omit [NeZero n] in
theorem refill_waits (clear : i.miss.refillReqValid = false) : refillReady g s i = false := by
  simp [refillReady,refillReqReady,pipe,clear]

end Pipeline

section Handler

open CmoHandler

variable {c : Cfg} [NeZero c.ways] {δ : Type}

def flushing (h : CmoHandler.State c δ) : Bool :=
  decide (h.fsm = .flushAllNext) || decide (h.fsm = .flushAllLast) || decide (h.fsm = .flushNlineNext)

structure Rested (h : CmoHandler.State c δ) : Prop where
  valid : RegFifo.Valid 3 h.flushFifo
  empty : flushing h = false ∨ c.wbEn = false → RegFifo.contents 3 h.flushFifo = []

variable {h : CmoHandler.State c δ} {i : CmoHandler.Input c δ}

omit [NeZero c.ways] in
theorem flushing_false : flushing h = false ↔ h.fsm ≠ .flushAllNext ∧ h.fsm ≠ .flushAllLast ∧ h.fsm ≠ .flushNlineNext := by
  simp [flushing,and_assoc]

omit [NeZero c.ways] in
theorem flushReqW_false (rests : flushing h = false) (dir : DirAnswer c) : h.flushReqW dir = false := by
  obtain ⟨all,last,line⟩ := flushing_false.mp rests
  unfold State.flushReqW
  cases now : h.fsm <;> simp_all

omit [NeZero c.ways] in
theorem flushAlloc_none (rested : Rested h) (rests : flushing h = false) (dir : DirAnswer c) : h.flushAlloc dir = none := by
  have rok := (RegFifo.fifo_ready 3 true h.flushFifo (h.flushReqW dir)).1
  rw [flushReqW_false rests] at rok
  have off : (fifo c).rok h.flushFifo false = false := by
    have clear := rested.empty (.inl rests)
    simpa [fifo,clear] using rok
  simp [State.flushAlloc,flushReqW_false rests,off]

omit [NeZero c.ways] in
theorem fifo_stays (still : h.flushReqW i.dir = false) (empty : RegFifo.contents 3 h.flushFifo = []) (valid : RegFifo.Valid 3 h.flushFifo) :
    RegFifo.contents 3 ((fifo c).next h.flushFifo (h.fifoBeat i)) = [] := by
  have law := (RegFifo.fifo_conserves (α := FlushReq c) 3 true).conserve h.flushFifo (h.fifoBeat i) valid trivial
  rw [RegFifo.flatMap_singleton,RegFifo.flatMap_singleton,empty] at law
  have none' : (RegFifo.fifo 3 true).accepted h.flushFifo (h.fifoBeat i) = [] := by simp [Handshake.Channel.accepted,State.fifoBeat,still]
  rw [none',List.append_nil] at law
  exact (List.append_eq_nil_iff.mp law.symm).2

theorem rested_next (rested : Rested h) : Rested (CmoHandler.next h i) := by
  cases back : c.wbEn with
  | false =>
    have same : (CmoHandler.next h i).flushFifo = h.flushFifo := by simp [CmoHandler.next,back]
    exact ⟨by rw [same]; exact rested.valid,fun _ => by rw [same]; exact rested.empty (.inr back)⟩
  | true =>
    have moves : (CmoHandler.next h i).flushFifo = (fifo c).next h.flushFifo (h.fifoBeat i) := by simp [CmoHandler.next,back]
    refine ⟨by rw [moves]; exact (RegFifo.fifo_conserves (α := FlushReq c) 3 true).next _ _ rested.valid trivial,fun rests => ?_⟩
    have rests' : flushing (CmoHandler.next h i) = false := rests.resolve_right (by simp [back])
    rw [moves]
    by_cases before : flushing h = false
    · exact fifo_stays (flushReqW_false before _) (rested.empty (.inl before)) rested.valid
    have fsm : (CmoHandler.next h i).fsm = h.fsmNext i := rfl
    obtain ⟨next',last',line'⟩ := flushing_false.mp rests'
    rw [fsm] at next' last' line'
    have drained : h.drained i = true := by
      by_contra more
      rw [flushing_false,not_and_or,not_and_or,not_not,not_not,not_not] at before
      rcases before with now | now | now
      · simp only [State.fsmNext,now] at next' last'
        split at last'
        · exact last' rfl
        · rename_i stays
          rw [if_neg stays] at next'
          exact next' rfl
      · simp [State.fsmNext,now,more] at last'
      · simp [State.fsmNext,now,more] at line'
    obtain ⟨empty,still⟩ := drained_empty drained back
    exact fifo_stays still empty rested.valid

end Handler

open CacheControl StateMachine

variable {n f d : Nat} [NeZero n] [NeZero f] {c : Cfg} [NeZero c.mshrWays] [NeZero c.ways] {δ ν ρ ι ο : Type} {p : Params c δ ν ρ ι ο} {s : State n f d c δ ν ρ} {x : Input f c δ ι}

omit [NeZero n] [NeZero f] [NeZero c.ways] in
theorem normal_facts : s.normal p x = true ↔ s.dir.init = true ∧ s.miss.refill = .idle ∧ (c.wbEn = true → s.flush.send = false) := by
  simp only [State.normal,CacheEngine.normal,CachePipeline.pipe,State.ctrlIn,State.missAnswer,State.flushAnswer,
    CacheDirectory.State.ready,MissHandler.State.refillBusy,FlushController.State.busy,Bool.and_eq_true,Bool.not_eq_true',
    decide_eq_false_iff_not,not_not]
  cases c.wbEn <;> simp [and_assoc]

-- A request in stage 1 has the cache.
structure Calm (s : State n f d c δ ν ρ) : Prop where
  rested : Rested s.cmo
  turn : s.ctrl.st1Valid = true → s.dir.init = true ∧ s.miss.refill = .idle ∧ (c.wbEn = true → s.flush.send = false)

omit [NeZero n] [NeZero f] [NeZero c.ways] in
theorem Calm.normal (calm : Calm s) (here : s.ctrl.st1Valid = true) :
    CacheEngine.normal (CachePipeline.pipe p.g s.ctrl (s.ctrlIn p x)) = true := normal_facts.mpr (calm.turn here)

omit [NeZero n] [NeZero f] [NeZero c.ways] in
theorem cmo_silent (calm : Calm s) (free : (s.ctrlIn p x).handlers.cmoBusy = false ∨ (s.ctrlIn p x).handlers.cmoWait = true) :
    s.cmo.flushAlloc s.cmoAnswer = none := by
  refine flushAlloc_none calm.rested (flushing_false.mpr ?_) _
  rcases free with ready | waits
  · simp only [State.ctrlIn,CmoHandler.State.reqReady,Bool.not_eq_false',Bool.and_eq_true,decide_eq_true_eq] at ready
    rw [ready.1]
    decide
  · simp only [State.ctrlIn,CmoHandler.State.reqWait,Bool.or_eq_true,decide_eq_true_eq] at waits
    rcases waits with now | now <;> rw [now] <;> decide

theorem calm_next (calm : Calm s) : Calm (next p s x) := by
  refine ⟨rested_next calm.rested,fun here => ?_⟩
  have moves : s.coreReady p x = true ∨ s.rtabReady p x = true := by
    have valid : (next p s x).ctrl.st1Valid = (s.coreReady p x || s.rtabReady p x) := ReplayOrder.next_valid calm.normal
    rwa [valid,Bool.or_eq_true] at here
  obtain ⟨run,clear,free,none'⟩ := moves_facts moves
  obtain ⟨init,refill,send⟩ := normal_facts.mp run
  refine ⟨by simp [next,CacheDirectory.next,init],?_,fun back => ?_⟩
  · exact MissHandler.refill_rests refill (refill_waits clear)
  · have still : s.flushAlloc = none := by
      rw [State.flushAlloc,none']
      exact cmo_silent calm free
    have off : s.flush.allocates p.ch (s.flushIn p x) = false := by simp [FlushController.State.allocates,State.flushIn,still]
    simp [next,back,FlushController.next,send back,off]

-- In every run, for each line: the requests that have come to stage 1 are those that are done and then those on hold in the
-- replay table, in this order.
theorem requests_in_order (p : Params c δ ν ρ ι ο) (u : Start f c δ ν ρ) (w : World n f d c δ ν ρ)
    (reached : Reached (machine (ι := ι) p (reset p u)) w) :
    ∃ q : c.Nline → List (Fin n), ReplayChains.Held w.cache.ctrl.rtab q ∧
      ∀ line, ReplayOrder.ofLine line w.arrived = ReplayOrder.ofLine line w.executed ++ (q line).map (ReplayOrder.held w.cache.ctrl) := by
  have both : Calm w.cache ∧ ∃ q, ReplayOrder.Ordered p.g w.cache.ctrl w.arrived w.executed q := by
    refine reached.invariant (fun w => Calm w.cache ∧ ∃ q, ReplayOrder.Ordered p.g w.cache.ctrl w.arrived w.executed q) ?_ ?_
    · exact ⟨⟨⟨(RegFifo.reset_fresh 3 u.cmo).1,fun _ => (RegFifo.reset_fresh 3 u.cmo).2⟩,nofun⟩,_,ReplayOrder.order_reset p.g p.blank⟩
    · rintro w x ⟨calm,q,ordered⟩ -
      exact ⟨calm_next calm,ReplayOrder.order_next calm.normal ordered⟩
  obtain ⟨_,q,ordered⟩ := both
  exact ⟨q,ordered.lists,ordered.log⟩

-- Two loads of one line: the first one waits for the write buffer and the second one behind it, until the first one is replayed.
section Sample

def tiny : Cfg := ⟨2,1,0,3,1,1,1,1,1,2,true,true,true⟩

instance : NeZero tiny.ways := ⟨by decide⟩

instance : NeZero tiny.mshrWays := ⟨by decide⟩

def load (tid : Nat) : Req tiny (Carried Nat) := ⟨0,2,.load,true,true,⟨false,.wt⟩,⟨3,tid⟩⟩

def params : Params tiny Nat Unit (RegFifo.Cells 2 Nat) Nat Nat where
  g := ⟨true,false,false,false⟩
  P := CacheDirectory.direct
  ch := RegFifo.fifo 2 false
  blank := ⟨load 0,0⟩
  reqWords := 1
  lastChunkWord := 1
  memReqFlits := 1
  refillCoreRspFeedthrough := false
  cfgErrorOnCacheableAmo := false

def first : Start 2 tiny Nat Unit (RegFifo.Cells 2 Nat) where
  mshr _ := ⟨fun _ => ⟨0,0,0,0,false,false,false⟩,⟨0,0,0,0,false,false,false⟩⟩
  dir _ := ⟨fun _ => CacheDirectory.blankEntry,CacheDirectory.blankEntry⟩
  victim := ()
  resizer := RegFifo.reset 0 2
  miss := ⟨0,0,0,0,false,false,false⟩
  resp := ⟨false,(0,0),false,0⟩
  rsp := ⟨0,false,0⟩
  flush := ⟨0,0⟩
  cmo := ⟨0,fun _ => false⟩
  uc := ⟨none,0,0,false,false⟩

def ask (valid : Bool) (tid : Nat) : Input 2 tiny Nat Nat where
  core := ⟨valid,load tid,0,⟨false,.wt⟩,false⟩
  wbuf := ⟨true,false,false,false,false,false⟩
  wbufEmpty := true
  readReady := true
  resp := none
  flush := ⟨0,true,true,none⟩
  uc := ⟨true,none,true,true,none⟩

abbrev cache : Machine (World 2 2 2 tiny Nat Unit (RegFifo.Cells 2 Nat)) (Input 2 tiny Nat Nat) := machine params (reset params first)

def asking : List (Input 2 tiny Nat Nat) :=
  [ask false 0,ask true 1,{ ask false 0 with wbuf := ⟨true,true,true,false,false,false⟩ },ask true 2,ask false 0,ask false 0,ask false 0]

def replayed : World 2 2 2 tiny Nat Unit (RegFifo.Cells 2 Nat) := asking.foldl cache.step cache.initial

theorem requests_in_order_replayed : (replayed.arrived.map fun r => r.carried.who) = [1,2] ∧
    (replayed.executed.map fun r => r.carried.who) = [1] ∧
    ∃ q : tiny.Nline → List (Fin 2), ReplayChains.Held replayed.cache.ctrl.rtab q ∧
      ∀ line, ReplayOrder.ofLine line replayed.arrived =
        ReplayOrder.ofLine line replayed.executed ++ (q line).map (ReplayOrder.held replayed.cache.ctrl) := by
  have path : Runs cache cache.initial asking replayed := by
    iterate 7 refine .cons trivial ?_
    exact .nil
  exact ⟨by decide,by decide,requests_in_order params first replayed ⟨asking,path⟩⟩

end Sample

end Sargantana.CacheOrder
