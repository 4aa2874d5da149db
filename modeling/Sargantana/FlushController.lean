import Sargantana.Arbiters
import Sargantana.HpdcachePkg
import Sargantana.RegFifo
import Sargantana.Lib.SlotTable

-- The flush controller of the data cache (hpdcache_flush_sarg): it reads the words of a line from the data memory and writes
-- them back, while a directory keeps the lines that are not acknowledged yet.
namespace Sargantana.FlushController

open Arbiters HpdcachePkg Handshake SlotTable

structure MemReq (f : Nat) (c : Cfg) where
  nline : c.Nline
  id : Fin f

-- `resizer` is the buffer behind the controller, of any width.
structure State (f : Nat) (c : Cfg) (ρ : Type) where
  send : Bool
  dirValid : Fin f → Bool
  dir : Fin f → c.Nline
  set : BitVec c.setWidth
  way : c.Ways
  word : BitVec c.clWordIdxWidth
  freeArb : Arbiter f
  requests : RegFifo.Cells 2 (MemReq f c)
  resizer : ρ
  writeFlitsCnt : Nat

structure Input (f : Nat) (c : Cfg) (ι : Type) where
  checkNline : c.Nline
  alloc : Bool
  allocNline : c.Nline
  allocWay : c.Ways
  readData : ι
  reqReady : Bool
  dataReady : Bool
  resp : Option (Fin f)

structure Read (c : Cfg) where
  set : BitVec c.setWidth
  way : c.Ways
  word : BitVec c.clWordIdxWidth

variable {f : Nat} [NeZero f] {c : Cfg} {ρ ι ο : Type}

def reset (blank : MemReq f c) (start : ρ) : State f c ρ where
  send := false
  dirValid _ := false
  dir _ := blank.nline
  set := 0
  way _ := false
  word := 0
  freeArb := .fxReset
  requests := RegFifo.reset blank 2
  resizer := start
  writeFlitsCnt := 0

variable (ch : Channel ρ ι ο) (memReqFlits : Nat) (s : State f c ρ) (i : Input f c ι)

namespace State

def full : Bool := !any fun k => !s.dirValid k

def empty : Bool := !any s.dirValid

def busy : Bool := s.send

def eol : Bool := s.word == 0

def resizerWok : Bool := ch.wok s.resizer i.dataReady

def memReqWok : Bool := (RegFifo.fifo 2 false).wok s.requests i.reqReady

def allocReady : Bool := !s.send && s.resizerWok ch i && s.memReqWok i && !s.full

def allocates : Bool := i.alloc && s.allocReady ch i

def freeBv : Fin f → Bool := s.freeArb.fxGrant fun k => !s.dirValid k

def freePtr : Fin f := Fin.ofNat f (oneHotToBinary s.freeBv)

def dataRead : Option (Read c) :=
  if s.allocates ch i then some ⟨i.allocNline.setWidth c.setWidth,i.allocWay,0⟩
  else if s.send && s.resizerWok ch i && !s.eol then some ⟨s.set,s.way,s.word⟩
  else none

def requestBeat : Beat (MemReq f c) where
  w := !s.send && s.resizerWok ch i && !s.full && i.alloc
  wdata := ⟨i.allocNline,s.freePtr⟩
  wlast := false
  r := i.reqReady

def resizerBeat : Beat ι where
  w := s.send
  wdata := i.readData
  wlast := s.eol
  r := i.dataReady

def dirAck : Fin f → Bool := fun k => decide (i.resp = some k)

def checkHit : Bool := any fun k => s.dirValid k && !dirAck i k && decide (i.checkNline = s.dir k)

-- flush_ack_o and flush_ack_nline_o
def ack : Option c.Nline := i.resp.map s.dir

def writeData : Option (ο × Bool) :=
  if ch.rok s.resizer s.send then some ⟨ch.rdata s.resizer i.readData,decide (s.writeFlitsCnt = memReqFlits)⟩ else none

end State

def next : State f c ρ where
  send := if s.send then !(s.resizerWok ch i && s.eol) else s.allocates ch i
  dirValid k := !s.dirValid k && (s.freeBv k && s.allocates ch i) || s.dirValid k && !State.dirAck i k
  dir := if s.allocates ch i then Function.update s.dir s.freePtr i.allocNline else s.dir
  set := if s.allocates ch i then i.allocNline.setWidth c.setWidth else s.set
  way := if s.allocates ch i then i.allocWay else s.way
  word := if s.allocates ch i || s.send && s.resizerWok ch i && !s.eol then s.word + BitVec.ofNat _ c.accessWords else s.word
  freeArb := s.freeArb.fxNext (fun k => !s.dirValid k) (s.allocates ch i)
  requests := (RegFifo.fifo 2 false).next s.requests (s.requestBeat ch i)
  resizer := ch.next s.resizer (s.resizerBeat i)
  writeFlitsCnt :=
    if ch.rok s.resizer s.send && i.dataReady then if s.writeFlitsCnt = memReqFlits then 0 else s.writeFlitsCnt + 1
    else s.writeFlitsCnt

-- The controller with what the memory knows: the requests it has taken and not acknowledged yet
structure World (f : Nat) (c : Cfg) (ρ : Type) where
  ctrl : State f c ρ
  outstanding : List (MemReq f c)
  allocated : List c.Nline
  taken : List c.Nline

def World.flight (w : World f c ρ) : List (MemReq f c) := RegFifo.contents 2 w.ctrl.requests ++ w.outstanding

-- The memory acknowledges what it has taken.
def machine (blank : MemReq f c) (start : ρ) : StateMachine.Machine (World f c ρ) (Input f c ι) where
  initial := ⟨reset blank start,[],[],[]⟩
  allowed w i := ∀ k, i.resp = some k → ∃ r ∈ w.outstanding, r.id = k
  step w i :=
    let taken := (RegFifo.fifo 2 false).delivered w.ctrl.requests (w.ctrl.requestBeat ch i)
    { ctrl := next ch memReqFlits w.ctrl i
      outstanding := (w.outstanding.filter fun r => i.resp ≠ some r.id) ++ taken
      allocated := if w.ctrl.allocates ch i then w.allocated ++ [i.allocNline] else w.allocated
      taken := w.taken ++ taken.map MemReq.nline }

-- The directory holds what is in flight.
structure Sound (w : World f c ρ) : Prop where
  fifo : RegFifo.Valid 2 w.ctrl.requests
  steady : Steady w.ctrl.freeArb fun k => !w.ctrl.dirValid k
  inflight : Inflight MemReq.id MemReq.nline (fun k => w.ctrl.dirValid k = true) w.ctrl.dir w.flight
  log : w.allocated = w.taken ++ (RegFifo.contents 2 w.ctrl.requests).map MemReq.nline

variable {ch memReqFlits s i}

theorem free_slot (steady : Steady s.freeArb fun k => !s.dirValid k) (allocates : s.allocates ch i = true) :
    s.dirValid s.freePtr = false ∧ s.freeBv = oneHot s.freePtr := by
  have room : any (fun k => !s.dirValid k) = true := by
    simp only [State.allocates,State.allocReady,State.full,Bool.and_eq_true,Bool.not_not] at allocates
    exact allocates.2.2
  obtain ⟨k,free,grant⟩ := fxGrant_some steady room
  have same : s.freePtr = k := by
    apply Fin.ext
    rw [State.freePtr,State.freeBv,grant,oneHotToBinary_oneHot]
    exact Nat.mod_eq_of_lt k.isLt
  rw [same]
  exact ⟨by simpa using free,grant⟩

theorem requests_accepted : (RegFifo.fifo 2 false).accepted s.requests (s.requestBeat ch i) =
    if s.allocates ch i then [⟨i.allocNline,s.freePtr⟩] else [] := by
  have same : ((s.requestBeat ch i).w && (RegFifo.fifo 2 false).wok s.requests (s.requestBeat ch i).r) = s.allocates ch i := by
    simp only [State.requestBeat,State.allocates,State.allocReady,State.memReqWok]
    cases s.send <;> cases s.resizerWok ch i <;> cases s.full <;> cases i.alloc <;> simp
  unfold Channel.accepted
  rw [same]
  rfl

theorem sound_reset (blank : MemReq f c) (start : ρ) : Sound (machine (ι := ι) ch memReqFlits blank start).initial := by
  obtain ⟨valid,clear⟩ := RegFifo.reset_fresh 2 blank
  refine ⟨valid,steady_reset _,?_,?_⟩
  · have none' : World.flight ⟨reset (ρ := ρ) blank start,[],[],[]⟩ = [] := by
      rw [World.flight,List.append_nil]
      exact clear
    change Inflight _ _ _ _ (World.flight ⟨reset blank start,[],[],[]⟩)
    rw [none']
    exact .empty fun k => by simp [machine,reset]
  · have none' : RegFifo.contents 2 (reset (ρ := ρ) blank start).requests = [] := clear
    change [] = [] ++ (RegFifo.contents 2 (reset (ρ := ρ) blank start).requests).map MemReq.nline
    rw [none']
    rfl

omit [NeZero f] in
theorem acked {w : World f c ρ} (sound : Sound w) (known : ∀ k, i.resp = some k → ∃ r ∈ w.outstanding, r.id = k) :
    Inflight MemReq.id MemReq.nline (fun k => (w.ctrl.dirValid k && !State.dirAck i k) = true) w.ctrl.dir
      (RegFifo.contents 2 w.ctrl.requests ++ w.outstanding.filter fun r => i.resp ≠ some r.id) := by
  cases resp : i.resp with
  | none =>
    have all : (w.outstanding.filter fun r => decide (none ≠ some r.id)) = w.outstanding := List.filter_eq_self.mpr (by simp)
    rw [all]
    exact sound.inflight.congr (fun k => by simp [State.dirAck,resp]) fun _ _ => rfl
  | some k =>
    obtain ⟨r,inside,named⟩ := known k resp
    have before : ((RegFifo.contents 2 w.ctrl.requests).filter fun e => e.id ≠ k) = RegFifo.contents 2 w.ctrl.requests := by
      refine List.filter_eq_self.mpr fun e waits => ?_
      simp only [ne_eq,decide_not,Bool.not_eq_true',decide_eq_false_iff_not]
      intro same
      have distinct := sound.inflight.distinct
      rw [World.flight,List.map_append] at distinct
      exact (List.nodup_append.mp distinct).2.2 e.id (List.mem_map_of_mem waits) r.id (List.mem_map_of_mem inside) (same.trans named.symm)
    have rest : (w.outstanding.filter fun r => decide (some k ≠ some r.id)) = w.outstanding.filter fun r => r.id ≠ k :=
      List.filter_congr fun r _ => by simp [eq_comm]
    rw [rest]
    have removed : Inflight MemReq.id MemReq.nline (fun j => (w.ctrl.dirValid j && !State.dirAck i j) = true) w.ctrl.dir
        (w.flight.filter fun e => e.id ≠ k) := sound.inflight.remove k fun j => by
      simp only [State.dirAck,resp,Option.some.injEq,Bool.and_eq_true,Bool.not_eq_true',decide_eq_false_iff_not]
      exact and_congr_right fun _ => ne_comm
    rw [World.flight,List.filter_append,before] at removed
    exact removed

theorem sound_next {w : World f c ρ} {blank : MemReq f c} {start : ρ} (sound : Sound w)
    (allowed : (machine ch memReqFlits blank start).allowed w i) : Sound ((machine ch memReqFlits blank start).step w i) := by
  have law := RegFifo.fifo_conserves (α := MemReq f c) 2 false
  have moves := law.conserve w.ctrl.requests (w.ctrl.requestBeat ch i) sound.fifo trivial
  rw [RegFifo.flatMap_singleton,RegFifo.flatMap_singleton,requests_accepted] at moves
  have after := acked sound allowed
  -- What leaves the buffer only changes its place among the requests in flight.
  have placed : (RegFifo.contents 2 w.ctrl.requests ++
      (if w.ctrl.allocates ch i then [(⟨i.allocNline,w.ctrl.freePtr⟩ : MemReq f c)] else []) ++
      w.outstanding.filter fun r : MemReq f c => i.resp ≠ some r.id).Perm ((machine ch memReqFlits blank start).step w i).flight := by
    rw [moves,List.append_assoc]
    refine List.perm_append_comm.trans ?_
    simp only [World.flight,machine,next,List.append_assoc]
    exact .refl _
  refine ⟨law.next _ _ sound.fifo trivial,?_,?_,?_⟩
  · refine fxNext_steady sound.steady fun stalled k free grant => ?_
    simp only [Bool.not_eq_true'] at free ⊢
    have still : w.ctrl.allocates ch i = false := stalled
    simp [machine,next,free,still]
  · refine Inflight.perm ?_ placed
    cases allocates : w.ctrl.allocates ch i with
    | false =>
      rw [if_neg Bool.false_ne_true,List.append_nil]
      refine after.congr (fun k => ?_) fun k _ => ?_
      · simp [machine,next,allocates]
      · simp [machine,next,allocates]
    | true =>
      obtain ⟨free,grant⟩ := free_slot sound.steady allocates
      rw [if_pos rfl,List.append_assoc]
      refine Inflight.perm (Inflight.add after (e := ⟨i.allocNline,w.ctrl.freePtr⟩) (by simp [free]) ?_ ?_ ?_) ?_
      rotate_right
      · rw [List.append_assoc]
        exact List.Perm.append_left _ List.perm_append_comm
      · intro k
        simp only [machine,next,allocates,grant,Bool.and_true,Bool.or_eq_true,Bool.and_eq_true,Bool.not_eq_true',oneHot_true]
        constructor
        · rintro (⟨_,new⟩ | old)
          · exact .inr new
          · exact .inl old
        · rintro (old | rfl)
          · exact .inr old
          · exact .inl ⟨free,rfl⟩
      · simp [machine,next,allocates]
      · intro k taken
        have other : k ≠ w.ctrl.freePtr := by
          rintro rfl
          simp [free] at taken
        simp [machine,next,allocates,Function.update_of_ne other]
  · have log := sound.log
    have lines := congrArg (List.map MemReq.nline) moves
    rw [List.map_append,List.map_append] at lines
    change (if w.ctrl.allocates ch i then w.allocated ++ [i.allocNline] else w.allocated) = w.taken ++ _ ++ _
    rw [List.append_assoc]
    change _ = w.taken ++ (_ ++ (RegFifo.contents 2 ((RegFifo.fifo 2 false).next w.ctrl.requests (w.ctrl.requestBeat ch i))).map MemReq.nline)
    rw [← lines,← List.append_assoc,← log]
    split <;> simp

-- In every run the lines that are being written back hold a slot each, under different names; the check finds them and no
-- others, and the memory gets the requests in the order in which they came.
theorem flush_inflight {w : World f c ρ} (blank : MemReq f c) (start : ρ)
    (reached : StateMachine.Reached (machine (ι := ι) ch memReqFlits blank start) w) :
    (w.flight.map MemReq.id).Nodup ∧
      (∀ i : Input f c ι, w.ctrl.checkHit i = true ↔ ∃ r ∈ w.flight, r.nline = i.checkNline ∧ i.resp ≠ some r.id) ∧
      (∀ i : Input f c ι, ∀ r ∈ w.outstanding, i.resp = some r.id → w.ctrl.ack i = some r.nline) ∧
      (w.ctrl.empty = true ↔ w.flight = []) ∧
      w.allocated = w.taken ++ (RegFifo.contents 2 w.ctrl.requests).map MemReq.nline := by
  have sound : Sound w := reached.invariant Sound (sound_reset blank start) fun _ _ now allowed => sound_next now allowed
  have inflight := sound.inflight
  refine ⟨inflight.distinct,?_,?_,?_,sound.log⟩
  · intro i
    simp only [State.checkHit,any_true,State.dirAck,Bool.and_eq_true,Bool.not_eq_true',decide_eq_false_iff_not,decide_eq_true_eq]
    constructor
    · rintro ⟨k,⟨taken,stays⟩,line⟩
      obtain ⟨r,inside,rfl,holds⟩ := inflight.find taken
      exact ⟨r,inside,by rw [line,holds],stays⟩
    · rintro ⟨r,inside,line,stays⟩
      exact ⟨r.id,⟨(inflight.exact _).mpr (List.mem_map_of_mem inside),stays⟩,by rw [inflight.same r inside,line]⟩
  · intro i r inside resp
    rw [State.ack,resp,Option.map_some,inflight.same r (List.mem_append_right _ inside)]
  · simp only [State.empty,Bool.not_eq_true',any_false]
    constructor
    · intro none'
      refine List.eq_nil_iff_forall_not_mem.mpr fun r inside => ?_
      have taken := (inflight.exact r.id).mpr (List.mem_map_of_mem inside)
      rw [none'] at taken
      cases taken
    · intro none' k
      rw [← Bool.not_eq_true]
      intro taken
      have inside := (inflight.exact k).mp taken
      rw [none'] at inside
      cases inside

-- The data path. The data memory keeps the word that it has read last.
structure DataWorld (f : Nat) (c : Cfg) (ρ ι : Type) where
  ctrl : State f c ρ
  rdata : ι
  lines : List (c.Nline × c.Ways)
  reads : List (Read c × ι)
  pushed : List ι

-- Every cycle brings its input and the word that the data memory would read in it.
def dataMachine (ch : Channel ρ ι ο) (memReqFlits : Nat) (blank : MemReq f c) (start : ρ) (idle : ι) :
    StateMachine.Machine (DataWorld f c ρ ι) (Input f c ι × ι) where
  initial := ⟨reset blank start,idle,[],[],[]⟩
  allowed w i := i.1.readData = w.rdata
  step w i :=
    { ctrl := next ch memReqFlits w.ctrl i.1
      rdata := if (w.ctrl.dataRead ch i.1).isSome then i.2 else w.rdata
      lines := if w.ctrl.allocates ch i.1 then w.lines ++ [(i.1.allocNline,i.1.allocWay)] else w.lines
      reads := w.reads ++ ((w.ctrl.dataRead ch i.1).map fun read => (read,i.2)).toList
      pushed := w.pushed ++ ch.accepted w.ctrl.resizer (w.ctrl.resizerBeat i.1) }

-- The words of a line in their order, as many at a time as the data memory gives
def lineReads (c : Cfg) (count : Nat) (set : BitVec c.setWidth) (way : c.Ways) : List (Read c) :=
  (List.range count).map fun j => ⟨set,way,BitVec.ofNat c.clWordIdxWidth (j * c.accessWords)⟩

def linesReads (c : Cfg) (count : Nat) (lines : List (c.Nline × c.Ways)) : List (Read c) :=
  lines.flatMap fun line => lineReads c count (line.1.setWidth c.setWidth) line.2

-- `j` words of the current line are read, and all but the last one of them are passed on.
structure Reading (count : Nat) (w : DataWorld f c ρ ι) : Prop where
  idle : w.ctrl.send = false → w.ctrl.word = 0 ∧ w.reads.map Prod.fst = linesReads c count w.lines ∧ w.reads.map Prod.snd = w.pushed
  sends : w.ctrl.send = true → ∃ earlier line j, w.lines = earlier ++ [line] ∧
    w.ctrl.set = line.1.setWidth c.setWidth ∧ w.ctrl.way = line.2 ∧
    0 < j ∧ j ≤ count ∧ w.ctrl.word = BitVec.ofNat c.clWordIdxWidth (j * c.accessWords) ∧
    w.reads.map Prod.fst ++ (lineReads c count w.ctrl.set w.ctrl.way).drop j = linesReads c count w.lines ∧
    w.reads.map Prod.snd = w.pushed ++ [w.rdata]

variable {count : Nat} (whole : count * c.accessWords = 2 ^ c.clWordIdxWidth)

omit [NeZero f] in
include whole in
theorem word_zero {j : Nat} (after : 0 < j) (within : j ≤ count) :
    BitVec.ofNat c.clWordIdxWidth (j * c.accessWords) = 0 ↔ j = count := by
  have positive : 0 < c.accessWords := by
    rcases Nat.eq_zero_or_pos c.accessWords with zero | positive
    · rw [zero,Nat.mul_zero] at whole
      exact absurd whole.symm (Nat.pos_iff_ne_zero.mp (Nat.two_pow_pos _))
    · exact positive
  have bound := Nat.mul_le_mul_right c.accessWords within
  rw [← BitVec.toNat_inj,BitVec.toNat_ofNat]
  constructor
  · intro zero
    by_contra other
    have less := Nat.mul_lt_mul_of_pos_right (lt_of_le_of_ne within other) positive
    rw [Nat.mod_eq_of_lt (by omega)] at zero
    have some' := Nat.mul_pos after positive
    simp at zero
    omega
  · rintro rfl
    simp [whole]

omit [NeZero f] in
theorem lineReads_drop {j : Nat} (inside : j < count) (set : BitVec c.setWidth) (way : c.Ways) :
    (lineReads c count set way).drop j =
      ⟨set,way,BitVec.ofNat c.clWordIdxWidth (j * c.accessWords)⟩ :: (lineReads c count set way).drop (j + 1) := by
  have bound : j < (lineReads c count set way).length := by simpa [lineReads] using inside
  rw [List.drop_eq_getElem_cons bound]
  simp [lineReads]

omit [NeZero f] in
theorem lineReads_end (set : BitVec c.setWidth) (way : c.Ways) : (lineReads c count set way).drop count = [] :=
  List.drop_eq_nil_of_le (by simp [lineReads])

include whole in
theorem reading_next {w : DataWorld f c ρ ι} {i : Input f c ι × ι} {blank : MemReq f c} {start : ρ} {idle : ι} (reading : Reading count w)
    (allowed : (dataMachine ch memReqFlits blank start idle).allowed w i) :
    Reading count ((dataMachine ch memReqFlits blank start idle).step w i) := by
  have held : i.1.readData = w.rdata := allowed
  have some' : 0 < count := by
    rcases Nat.eq_zero_or_pos count with zero | positive
    · rw [zero,Nat.zero_mul] at whole
      exact absurd whole.symm (Nat.pos_iff_ne_zero.mp (Nat.two_pow_pos _))
    · exact positive
  cases send : w.ctrl.send with
  | false =>
    obtain ⟨word,addresses,values⟩ := reading.idle send
    have passes : ch.accepted w.ctrl.resizer (w.ctrl.resizerBeat i.1) = [] := by simp [Channel.accepted,State.resizerBeat,send]
    cases allocates : w.ctrl.allocates ch i.1 with
    | false =>
      have reads : w.ctrl.dataRead ch i.1 = none := by simp [State.dataRead,allocates,send]
      refine ⟨fun _ => ?_,fun sends => ?_⟩
      · simp [dataMachine,next,allocates,send,reads,passes,word,addresses,values]
      · simp [dataMachine,next,allocates,send] at sends
    | true =>
      have reads : w.ctrl.dataRead ch i.1 = some ⟨i.1.allocNline.setWidth c.setWidth,i.1.allocWay,0⟩ := by simp [State.dataRead,allocates]
      refine ⟨fun stays => ?_,fun _ => ⟨w.lines,(i.1.allocNline,i.1.allocWay),1,?_,?_,?_,Nat.one_pos,some',?_,?_,?_⟩⟩
      · simp [dataMachine,next,allocates,send] at stays
      · simp [dataMachine,allocates]
      · simp [dataMachine,next,allocates]
      · simp [dataMachine,next,allocates]
      · simp [dataMachine,next,allocates,word]
      · have line := lineReads_drop some' (i.1.allocNline.setWidth c.setWidth) i.1.allocWay
        rw [List.drop_zero,Nat.zero_mul] at line
        simp only [dataMachine,next,allocates,if_true,reads,Option.map_some,Option.toList_some,List.map_append,List.map_singleton,
          addresses,linesReads,List.flatMap_append,List.flatMap_singleton,List.append_assoc,List.singleton_append]
        rw [line]
        rfl
      · simp [dataMachine,reads,passes,values]
  | true =>
    obtain ⟨earlier,line,j,last,set,way,after,within,word,addresses,values⟩ := reading.sends send
    have ends : w.ctrl.eol = decide (j = count) := by
      rw [State.eol,word,Bool.eq_iff_iff,beq_iff_eq,decide_eq_true_eq,word_zero whole after within]
    have still : w.ctrl.allocates ch i.1 = false := by simp [State.allocates,State.allocReady,send]
    have same : ((dataMachine ch memReqFlits blank start idle).step w i).lines = earlier ++ [line] ∧
        ((dataMachine ch memReqFlits blank start idle).step w i).ctrl.set = line.1.setWidth c.setWidth ∧
        ((dataMachine ch memReqFlits blank start idle).step w i).ctrl.way = line.2 := by
      simp [dataMachine,next,still,last,set,way]
    have passes : ch.accepted w.ctrl.resizer (w.ctrl.resizerBeat i.1) = if w.ctrl.resizerWok ch i.1 then [w.rdata] else [] := by
      simp only [Channel.accepted,State.resizerBeat,send,held,Bool.true_and]
      rfl
    cases wok : w.ctrl.resizerWok ch i.1 with
    | false =>
      have reads : w.ctrl.dataRead ch i.1 = none := by simp [State.dataRead,still,wok]
      refine ⟨fun stays => ?_,fun _ => ⟨earlier,line,j,same.1,same.2.1,same.2.2,after,within,?_,?_,?_⟩⟩
      · simp [dataMachine,next,send,wok] at stays
      · simp [dataMachine,next,still,wok,word]
      · simp [dataMachine,next,still,reads,addresses]
      · simp [dataMachine,reads,passes,wok,values]
    | true =>
      rcases Nat.lt_or_ge j count with more | through
      · have goes : w.ctrl.eol = false := by rw [ends,decide_eq_false_iff_not]; omega
        have reads : w.ctrl.dataRead ch i.1 = some ⟨w.ctrl.set,w.ctrl.way,w.ctrl.word⟩ := by simp [State.dataRead,still,send,wok,goes]
        refine ⟨fun stays => ?_,fun _ => ⟨earlier,line,j + 1,same.1,same.2.1,same.2.2,Nat.succ_pos _,more,?_,?_,?_⟩⟩
        · simp [dataMachine,next,send,wok,goes] at stays
        · simp [dataMachine,next,still,send,wok,goes,word,Nat.add_mul,BitVec.ofNat_add]
        · rw [lineReads_drop more] at addresses
          simp only [dataMachine,next,still,Bool.false_eq_true,if_false,reads,Option.map_some,Option.toList_some,List.map_append,
            List.map_singleton,List.append_assoc,List.singleton_append,word]
          exact addresses
        · simp [dataMachine,reads,passes,wok,values]
      · have all : j = count := by omega
        subst all
        have stops : w.ctrl.eol = true := by simp [ends]
        have reads : w.ctrl.dataRead ch i.1 = none := by simp [State.dataRead,still,stops]
        rw [lineReads_end,List.append_nil] at addresses
        refine ⟨fun _ => ⟨?_,?_,?_⟩,fun sends => ?_⟩
        · have zero := (word_zero whole after within).mpr rfl
          simp [dataMachine,next,still,stops,word,zero]
        · simp [dataMachine,still,reads,addresses]
        · simp [dataMachine,reads,passes,wok,values]
        · simp [dataMachine,next,send,wok,stops] at sends

include whole in
-- The words that go to the memory are those of the lines in their order, each line from its first word to its last. While the
-- last line is on its way, only the words behind the first j of it are missing.
theorem flush_data {w : DataWorld f c ρ ι} (blank : MemReq f c) (start : ρ) (idle : ι)
    (reached : StateMachine.Reached (dataMachine ch memReqFlits blank start idle) w) :
    (if w.ctrl.send then ∃ earlier line j, w.lines = earlier ++ [line] ∧ 0 < j ∧ j ≤ count ∧
        w.reads.map Prod.fst ++ (lineReads c count (line.1.setWidth c.setWidth) line.2).drop j = linesReads c count w.lines
      else w.reads.map Prod.fst = linesReads c count w.lines) ∧
      w.reads.map Prod.snd = w.pushed ++ (if w.ctrl.send then [w.rdata] else []) := by
  have reading : Reading count w := by
    refine reached.invariant (Reading count) ⟨fun _ => ⟨rfl,rfl,rfl⟩,fun sends => ?_⟩ fun _ _ now allowed => reading_next whole now allowed
    cases sends
  cases send : w.ctrl.send with
  | false =>
    obtain ⟨_,addresses,values⟩ := reading.idle send
    exact ⟨addresses,by simp [values]⟩
  | true =>
    obtain ⟨earlier,line,j,last,set,way,after,within,_,addresses,values⟩ := reading.sends send
    rw [set,way] at addresses
    exact ⟨⟨earlier,line,j,last,after,within,addresses⟩,by simp [values]⟩

-- A line of two words goes through a FIFO, and another one comes when the first is acknowledged.
section Sample

def small : Cfg := ⟨4,4,2,3,1,1,2,1,1,2,true,true,true⟩

def line (tag : BitVec 4) : small.Nline := tag ++ (1 : BitVec 2)

def flushing : Input 4 small Nat where
  checkNline := line 2
  alloc := true
  allocNline := line 5
  allocWay _ := true
  readData := 0
  reqReady := true
  dataReady := true
  resp := none

def cycles : List (Input 4 small Nat × Nat) :=
  [(flushing,10),({ flushing with readData := 10 },11),({ flushing with readData := 11 },0),
    ({ flushing with allocNline := line 9, readData := 11, resp := some 0 },20)]

abbrev writer : StateMachine.Machine (World 4 small (RegFifo.Cells 2 Nat)) (Input 4 small Nat) :=
  machine (RegFifo.fifo 2 false) 1 ⟨0,0⟩ (RegFifo.reset 0 2)

def flushed : World 4 small (RegFifo.Cells 2 Nat) := (cycles.map Prod.fst).foldl writer.step writer.initial

theorem flush_inflight_sample : flushed.taken = [line 5] ∧ flushed.flight.map MemReq.nline = [line 9] ∧
    (flushed.flight.map MemReq.id).Nodup := by
  have path : StateMachine.Runs writer writer.initial (cycles.map Prod.fst) flushed := by
    refine .cons nofun (.cons nofun (.cons nofun (.cons ?_ .nil)))
    intro k names
    exact ⟨⟨line 5,0⟩,.head _,Option.some.inj names⟩
  exact ⟨by decide,by decide,(flush_inflight _ _ ⟨_,path⟩).1⟩

abbrev streamer : StateMachine.Machine (DataWorld 4 small (RegFifo.Cells 2 Nat) Nat) (Input 4 small Nat × Nat) :=
  dataMachine (RegFifo.fifo 2 false) 1 ⟨0,0⟩ (RegFifo.reset 0 2) 0

instance (w : DataWorld 4 small (RegFifo.Cells 2 Nat) Nat) (i : Input 4 small Nat × Nat) : Decidable (streamer.allowed w i) :=
  inferInstanceAs (Decidable (i.1.readData = w.rdata))

def streamed : DataWorld 4 small (RegFifo.Cells 2 Nat) Nat := cycles.foldl streamer.step streamer.initial

theorem flush_data_sample : streamed.pushed = [10,11] ∧ streamed.ctrl.send = true ∧
    (∃ earlier line j, streamed.lines = earlier ++ [line] ∧ 0 < j ∧ j ≤ 2 ∧
      streamed.reads.map Prod.fst ++ (lineReads small 2 (line.1.setWidth small.setWidth) line.2).drop j =
        linesReads small 2 streamed.lines) ∧
    streamed.reads.map Prod.snd = streamed.pushed ++ [streamed.rdata] := by
  have path : StateMachine.legal streamer streamer.initial cycles = true := by decide
  exact ⟨by decide,by decide,flush_data (rfl : 2 * small.accessWords = 2 ^ small.clWordIdxWidth) _ _ _ ⟨_,StateMachine.Runs.of_legal path⟩⟩

end Sample

end Sargantana.FlushController
