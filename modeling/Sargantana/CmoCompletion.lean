import Sargantana.CmoHandler

-- A cache management operation that ends has done to the directory what it is for, and has handed over the lines that it
-- has to write back, each once.
namespace Sargantana.CmoCompletion

open Arbiters HpdcachePkg Handshake CacheDirectory CmoHandler

variable {c : Cfg} {ν δ : Type}

structure Line (c : Cfg) where
  tag : BitVec c.tagWidth
  wback : Bool
  dirty : Bool

def lineOf (e : DirEntry c) : Option (Line c) := if e.valid then some ⟨e.tag,e.wback,e.dirty⟩ else none

def names (op : CmoOp) (nline : c.Nline) (set : BitVec c.setWidth) (l : Line c) : Bool :=
  match op with
  | .fence => false
  | .invalByNline | .flushByNline | .flushInvalByNline => decide (l.tag ++ set = nline)
  | .invalAll | .flushAll | .flushInvalAll => true

-- What becomes of a line that is named. A cache that does not write back has nothing to flush.
def kept (op : CmoOp) (l : Line c) : Option (Line c) :=
  match op with
  | .fence => some l
  | .flushByNline | .flushAll => some (if c.wbEn then { l with dirty := false } else l)
  | .invalByNline | .invalAll | .flushInvalByNline | .flushInvalAll => none

def managed (op : CmoOp) (nline : c.Nline) (set : BitVec c.setWidth) (held : Option (Line c)) : Option (Line c) :=
  held.bind fun l => if names op nline set l then kept op l else some l

-- The entries of the directory, one way after the other and set by set
def place (c : Cfg) [NeZero c.ways] (p : Nat) : BitVec c.setWidth × Fin c.ways := (BitVec.ofNat _ (p / c.ways),Fin.ofNat c.ways p)

def index (set : BitVec c.setWidth) (way : Fin c.ways) : Nat := set.toNat * c.ways + way

def Spent (e : DirEntry c) : Bool := e.valid && e.dirty

def request (set : BitVec c.setWidth) (way : Fin c.ways) (e : DirEntry c) : FlushReq c := ⟨e.tag ++ set,oneHot way⟩

variable [NeZero c.ways]

def entryRequest (before : BitVec c.setWidth → Row c) (p : Nat) : Option (FlushReq c) :=
  if Spent (before (place c p).1 (place c p).2) then
    some (request (place c p).1 (place c p).2 (before (place c p).1 (place c p).2))
  else none

def requests (before : BitVec c.setWidth → Row c) (p : Nat) : List (FlushReq c) := (List.range p).filterMap (entryRequest before)

def hits (nline : c.Nline) (before : BitVec c.setWidth → Row c) : c.Ways :=
  fun w => (before (lineSet nline) w).valid && decide ((before (lineSet nline) w).tag = lineTag nline)

-- A flush of one line writes to every way that hits, so it relies on the line being held once.
def flushesLine : CmoOp → Bool
  | .flushByNline | .flushInvalByNline => true
  | _ => false

def Single (nline : c.Nline) (before : BitVec c.setWidth → Row c) : Prop :=
  ∀ v v', hits nline before v = true → hits nline before v' = true → v = v'

def writeBacks (op : CmoOp) (nline : c.Nline) (before : BitVec c.setWidth → Row c) : List (FlushReq c) :=
  match op with
  | .flushAll | .flushInvalAll => if c.wbEn then requests before (c.sets * c.ways) else []
  | .flushByNline | .flushInvalByNline =>
    if c.wbEn && any fun w => hits nline before w && (before (lineSet nline) w).dirty then [⟨nline,hits nline before⟩] else []
  | _ => []

-- The handler with its directory. `before` is the directory in which the operation has started, and `taken` are the requests
-- that the flush controller has got since then.
structure World (c : Cfg) (ν δ : Type) where
  handler : CmoHandler.State c δ
  dir : CacheDirectory.State c ν
  before : BitVec c.setWidth → Row c
  taken : List (FlushReq c)

-- What the directory says to the handler
def answer (h : CmoHandler.State c δ) (d : CacheDirectory.State c ν) : DirAnswer c where
  nlineHitWay := d.hitWay (lineTag h.nline)
  nlineWback := any fun w => d.hitWay (lineTag h.nline) w && (d.row w).wback
  nlineDirty := any fun w => d.hitWay (lineTag h.nline) w && (d.row w).dirty
  entryValid := d.checkedValid
  entryWback := d.checkedWback
  entryDirty := d.checkedDirty
  entryTag := d.checkedTag

structure Cycle (c : Cfg) (δ : Type) where
  handler : CmoHandler.Input c δ
  others : CacheDirectory.Input c

namespace World

variable (w : World c ν δ) (x : Cycle c δ)

def input : CmoHandler.Input c δ := { x.handler with dir := answer w.handler w.dir }

def dirInput : CacheDirectory.Input c := { x.others with
  cmoCheckNlineSet := w.handler.dirCheckNline (w.input x)
  cmoCheckEntry := w.handler.dirCheckEntry (w.input x)
  cmoUpdt := w.handler.dirUpdt (w.input x) }

-- An operation is at work when it waits no more.
def works : Bool := !decide (w.handler.fsm = .idle) && !w.handler.reqWait

def handed : List (FlushReq c) :=
  if x.handler.flushAllocReady then (w.handler.flushAlloc (w.input x).dir).toList else []

-- `before` and `taken` start anew with an operation.
def next (P : Policy c ν) : World c ν δ where
  handler := CmoHandler.next w.handler (w.input x)
  dir := CacheDirectory.next P w.dir (w.dirInput x)
  before := if (w.handler.began (w.input x)).isSome then contents (CacheDirectory.next P w.dir (w.dirInput x)) else w.before
  taken := if (w.handler.began (w.input x)).isSome then [] else w.taken ++ w.handed x

end World

def machine (P : Policy c ν) (start : World c ν δ) : StateMachine.Machine (World c ν δ) (Cycle c δ) where
  initial := start
  allowed w x := (x.handler.req.isSome = true → w.dir.init = true) ∧ (w.works = true → Silent (w.dirInput x))
  step w x := w.next x P

def fresh (who : δ) (blank : FlushReq c) (ram : Fin c.ways → Sram (BitVec c.setWidth) (DirEntry c)) (victim : ν) : World c ν δ where
  handler := CmoHandler.reset who blank
  dir := CacheDirectory.reset ram victim
  before set w := (ram w).mem set
  taken := []

-- Entries one after the other

omit [NeZero c.ways] in
theorem index_lt (power : c.sets = 2 ^ c.setWidth) (set : BitVec c.setWidth) (way : Fin c.ways) : index set way < c.sets * c.ways := by
  have bound : set.toNat + 1 ≤ c.sets := by
    rw [power]
    exact set.isLt
  have rows := Nat.mul_le_mul_right c.ways bound
  rw [Nat.add_mul,Nat.one_mul] at rows
  have inside := way.isLt
  unfold index
  omega

theorem place_index (set : BitVec c.setWidth) (way : Fin c.ways) : place c (index set way) = (set,way) := by
  have positive : 0 < c.ways := Nat.pos_of_neZero _
  have row : (set.toNat * c.ways + way) / c.ways = set.toNat := by
    rw [Nat.mul_comm,Nat.mul_add_div positive,Nat.div_eq_of_lt way.isLt,Nat.add_zero]
  have column : (set.toNat * c.ways + way) % c.ways = way := by
    rw [Nat.mul_comm,Nat.mul_add_mod,Nat.mod_eq_of_lt way.isLt]
  refine Prod.ext ?_ (Fin.ext column)
  simp [place,index,row]

theorem index_place (power : c.sets = 2 ^ c.setWidth) {p : Nat} (inside : p < c.sets * c.ways) :
    index (place c p).1 (place c p).2 = p := by
  have row : p / c.ways < 2 ^ c.setWidth := by
    rw [← power]
    exact Nat.div_lt_of_lt_mul (by rwa [Nat.mul_comm])
  have value : (place c p).1.toNat = p / c.ways := by
    rw [place,BitVec.toNat_ofNat,Nat.mod_eq_of_lt row]
  rw [index,value]
  change p / c.ways * c.ways + p % c.ways = p
  rw [Nat.mul_comm]
  exact Nat.div_add_mod p c.ways

theorem index_eq (power : c.sets = 2 ^ c.setWidth) {p : Nat} (inside : p < c.sets * c.ways) (set : BitVec c.setWidth) (way : Fin c.ways) :
    index set way = p ↔ set = (place c p).1 ∧ way = (place c p).2 := by
  constructor
  · rintro rfl
    rw [place_index]
    exact ⟨rfl,rfl⟩
  · rintro ⟨rfl,rfl⟩
    exact index_place power inside

theorem way_last (p : Nat) : (place c p).2 = -1 ↔ p % c.ways + 1 = c.ways := by
  rw [Fin.ext_iff]
  have value : (place c p).2.val = p % c.ways := rfl
  have last : (-1 : Fin c.ways).val + 1 = c.ways := PointerFifo.last_val
  omega

theorem place_succ (p : Nat) : place c (p + 1) =
    if (place c p).2 = -1 then ((place c p).1 + 1,0) else ((place c p).1,(place c p).2 + 1) := by
  have positive : 0 < c.ways := Nat.pos_of_neZero _
  have whole := Nat.div_add_mod p c.ways
  have small := Nat.mod_lt p positive
  simp only [way_last]
  split
  · rename_i last
    have next : p + 1 = c.ways * (p / c.ways + 1) := by rw [Nat.mul_add]; omega
    have row : (p + 1) / c.ways = p / c.ways + 1 := by rw [next,Nat.mul_div_cancel_left _ positive]
    have column : (p + 1) % c.ways = 0 := by rw [next,Nat.mul_mod_right]
    refine Prod.ext ?_ (Fin.ext ?_)
    · simp [place,row,BitVec.ofNat_add]
    · exact column
  · rename_i more
    have next : p + 1 = c.ways * (p / c.ways) + (p % c.ways + 1) := by omega
    have below : p % c.ways + 1 < c.ways := lt_of_le_of_ne small more
    have row : (p + 1) / c.ways = p / c.ways := by
      rw [next,Nat.mul_add_div positive,Nat.div_eq_of_lt below,Nat.add_zero]
    have column : (p + 1) % c.ways = p % c.ways + 1 := by rw [next,Nat.mul_add_mod,Nat.mod_eq_of_lt below]
    refine Prod.ext ?_ (Fin.ext ?_)
    · simp [place,row]
    · have value : ((place c p).2 + 1).val = if p % c.ways + 1 = c.ways then 0 else p % c.ways + 1 := PointerFifo.succ_val _
      rw [value,if_neg more]
      exact column

theorem last_place (power : c.sets = 2 ^ c.setWidth) {p : Nat} (inside : p < c.sets * c.ways) :
    ((place c p).1 = BitVec.ofNat _ (c.sets - 1) ∧ (place c p).2 = -1) ↔ p + 1 = c.sets * c.ways := by
  have positive : 0 < c.ways := Nat.pos_of_neZero _
  have whole := Nat.div_add_mod p c.ways
  have row : p / c.ways < c.sets := Nat.div_lt_of_lt_mul (by rwa [Nat.mul_comm])
  have last : (place c p).1 = BitVec.ofNat _ (c.sets - 1) ↔ p / c.ways = c.sets - 1 := by
    have bound : c.sets - 1 < 2 ^ c.setWidth := by
      rw [← power]
      exact Nat.sub_lt (Nat.zero_lt_of_lt row) Nat.one_pos
    rw [← BitVec.toNat_inj,place,BitVec.toNat_ofNat,BitVec.toNat_ofNat,Nat.mod_eq_of_lt (power ▸ row),Nat.mod_eq_of_lt bound]
  rw [last,way_last]
  obtain ⟨k,total⟩ : ∃ k, c.sets = k + 1 := ⟨c.sets - 1,by have := Nat.zero_lt_of_lt row; omega⟩
  have rows : (k + 1) * c.ways = c.ways * k + c.ways := by rw [Nat.mul_comm,Nat.mul_add,Nat.mul_one]
  have small := Nat.mod_lt p positive
  rw [total] at row ⊢
  rw [rows,Nat.add_sub_cancel]
  generalize p / c.ways = q at whole row ⊢
  constructor
  · rintro ⟨rfl,column⟩
    omega
  · intro ends
    rcases Nat.lt_or_eq_of_le (Nat.le_of_lt_succ row) with less | rfl
    · have below : c.ways * (q + 1) ≤ c.ways * k := Nat.mul_le_mul_left c.ways less
      rw [Nat.mul_add] at below
      omega
    · exact ⟨rfl,by omega⟩

theorem requests_succ (before : BitVec c.setWidth → Row c) (q : Nat) :
    requests before (q + 1) = requests before q ++ (entryRequest before q).toList := by
  rw [requests,List.range_succ,List.filterMap_append]
  cases entry : entryRequest before q <;> simp [requests,entry]

def cleaned (inval : Bool) (e : DirEntry c) : DirEntry c :=
  if e.valid && (e.dirty || inval) then ⟨!inval,!inval && e.wback,false,false,e.tag⟩ else e

def invalidated (nline : c.Nline) (before : BitVec c.setWidth → Row c) (set : BitVec c.setWidth) : Row c :=
  fun w => if set = lineSet nline ∧ hits nline before w = true then blankEntry else before set w

def flushed (inval : Bool) (nline : c.Nline) (before : BitVec c.setWidth → Row c) (set : BitVec c.setWidth) : Row c :=
  fun w =>
    if set = lineSet nline ∧ hits nline before w = true then
      ⟨!inval,!inval && any fun v => hits nline before v && (before (lineSet nline) v).wback,false,false,lineTag nline⟩
    else before set w

namespace World

variable (w : World c ν δ)

def queued : List (FlushReq c) := RegFifo.contents 3 w.handler.flushFifo

structure Quiet : Prop where
  queue : w.queued = []
  idle : w.handler.flushReqValid = false

structure Begun : Prop extends Quiet w where
  untouched : contents w.dir = w.before
  nothing : w.taken = []

structure FirstEntry : Prop where
  set : w.handler.set = 0
  way : w.handler.way = oneHot 0

-- Which operations flush lines, and with what
structure Flushing (all : Bool) : Prop where
  op : w.handler.op = (if all then .flushAll else .flushByNline) ∨ w.handler.op = (if all then .flushInvalAll else .flushInvalByNline)
  inval : w.handler.flushReqInval = invalidates w.handler.op

-- The first q entries are done with, and the next one may be checked.
structure Swept (q : Nat) : Prop where
  entries : ∀ set way, contents w.dir set way =
    if index set way < q then cleaned w.handler.flushReqInval (w.before set way) else w.before set way
  log : w.taken ++ w.queued = requests w.before q
  checked : w.handler.flushReqValid = true → w.handler.flushReqSet = (place c q).1 ∧ w.handler.flushReqWay = oneHot (place c q).2 ∧
    w.dir.reqWay = oneHot (place c q).2 ∧ w.dir.row (place c q).2 = w.before (place c q).1 (place c q).2

def checks (q : Nat) : Nat := q + w.handler.flushReqValid.toNat

def Phase : Prop :=
  match w.handler.fsm with
  | .idle | .fenceWaitWbufRtabEmpty => w.Quiet
  | .waitMshrRtabEmpty => w.Quiet ∧ w.handler.op ≠ .fence ∧ w.FirstEntry
  | .invalCheckNline => w.Begun ∧ (w.handler.op = .invalByNline ∨ w.handler.op = .flushInvalByNline ∧ c.wbEn = false)
  | .invalSet => w.Quiet ∧ w.taken = [] ∧
    ((w.handler.op = .invalByNline ∨ w.handler.op = .flushInvalByNline ∧ c.wbEn = false) ∧ contents w.dir = w.before ∧
        w.dir.row = w.before (lineSet w.handler.nline) ∨
      (w.handler.op = .invalAll ∨ w.handler.op = .flushInvalAll ∧ c.wbEn = false) ∧
        ∀ set, contents w.dir set = if set.toNat < w.handler.set.toNat then fun _ => blankEntry else w.before set)
  | .flushAllFirst => w.Begun ∧ w.Flushing true ∧ w.FirstEntry
  | .flushAllNext => c.wbEn = true ∧ w.Flushing true ∧ ∃ q, 0 < w.checks q ∧ w.checks q < c.sets * c.ways ∧
    w.handler.set = (place c (w.checks q)).1 ∧ w.handler.way = oneHot (place c (w.checks q)).2 ∧ w.Swept q
  | .flushAllLast => c.wbEn = true ∧ w.Flushing true ∧ ∃ q, w.checks q = c.sets * c.ways ∧ w.Swept q
  | .flushNlineFirst => w.Begun ∧ w.Flushing false
  | .flushNlineNext => c.wbEn = true ∧ w.Flushing false ∧
    if w.handler.flushReqValid then
      w.queued = [] ∧ w.taken = [] ∧ contents w.dir = w.before ∧ w.dir.row = w.before (lineSet w.handler.nline)
    else contents w.dir = flushed w.handler.flushReqInval w.handler.nline w.before ∧
      w.taken ++ w.queued = writeBacks w.handler.op w.handler.nline w.before

structure Sound : Prop where
  ready : w.handler.fsm ≠ .idle → w.dir.init = true
  valid : RegFifo.Valid 3 w.handler.flushFifo
  room : c.wbEn = true → w.handler.flushReqValid = true → w.queued.length < 3
  phase : w.Phase

-- What an operation is for
structure Finished : Prop where
  lines : ∀ set way, lineOf (contents w.dir set way) = managed w.handler.op w.handler.nline set (lineOf (w.before set way))
  taken : w.taken = writeBacks w.handler.op w.handler.nline w.before

end World

variable {w : World c ν δ} {x : Cycle c δ} {P : Policy c ν}

theorem queue_next (valid : RegFifo.Valid 3 w.handler.flushFifo)
    (room : w.handler.flushReqW (w.input x).dir = true → w.queued.length < 3) :
    RegFifo.Valid 3 (w.next x P).handler.flushFifo ∧ w.handed x ++ (w.next x P).queued =
        w.queued ++ (if w.handler.flushReqW (w.input x).dir then [w.handler.flushReqWdata (w.input x).dir] else []) := by
  have same : (w.input x).flushAllocReady = x.handler.flushAllocReady := rfl
  cases back : c.wbEn with
  | false =>
    have still : (w.next x P).handler.flushFifo = w.handler.flushFifo := by simp [World.next,CmoHandler.next,back]
    have quiet : w.handler.flushReqW (w.input x).dir = false := by simp [State.flushReqW,back]
    have none' : w.handed x = [] := by simp [World.handed,State.flushAlloc,back]
    rw [World.queued,still,quiet,none']
    exact ⟨valid,by simp [World.queued]⟩
  | true =>
    have moves : (w.next x P).handler.flushFifo =
        (RegFifo.fifo 3 true).next w.handler.flushFifo (w.handler.fifoBeat (w.input x)) := by
      simp only [World.next,CmoHandler.next,back,if_true]
      rfl
    have law := RegFifo.fifo_conserves (α := FlushReq c) 3 true
    have conserve := law.conserve w.handler.flushFifo (w.handler.fifoBeat (w.input x)) valid trivial
    rw [RegFifo.flatMap_singleton,RegFifo.flatMap_singleton] at conserve
    have out : (RegFifo.fifo 3 true).delivered w.handler.flushFifo (w.handler.fifoBeat (w.input x)) = w.handed x := by
      unfold Channel.delivered World.handed State.flushAlloc
      rw [back]
      change (if (x.handler.flushAllocReady && (fifo c).rok w.handler.flushFifo (w.handler.flushReqW (w.input x).dir)) = true then _ else _) = _
      cases x.handler.flushAllocReady <;> cases (fifo c).rok w.handler.flushFifo (w.handler.flushReqW (w.input x).dir) <;> rfl
    have into : (RegFifo.fifo 3 true).accepted w.handler.flushFifo (w.handler.fifoBeat (w.input x)) =
        if w.handler.flushReqW (w.input x).dir then [w.handler.flushReqWdata (w.input x).dir] else [] := by
      have wok := (RegFifo.fifo_ready 3 true w.handler.flushFifo (w.input x).flushAllocReady).2
      unfold Channel.accepted
      change (if (w.handler.flushReqW (w.input x).dir && (RegFifo.fifo 3 true).wok w.handler.flushFifo (w.input x).flushAllocReady) = true then _
        else _) = _
      rw [wok]
      cases writes : w.handler.flushReqW (w.input x).dir with
      | false => rfl
      | true =>
        have little : (RegFifo.contents 3 w.handler.flushFifo).length < 3 := room writes
        simp only [little,decide_true,Bool.true_or,Bool.and_true,if_true]
        rfl
    rw [World.queued,moves]
    refine ⟨law.next _ _ valid trivial,?_⟩
    rw [out,into] at conserve
    exact conserve.symm

-- A check is only made when there is room for what it may bring.
theorem room_next (valid : RegFifo.Valid 3 w.handler.flushFifo) (back : c.wbEn = true) (silent : w.handler.flushReqW (w.input x).dir = false)
    (wok : w.handler.flushReqWok (w.input x) = true) :
    (w.next x P).queued.length < 3 := by
  obtain ⟨_,queue⟩ := queue_next (x := x) (P := P) valid (by rw [silent]; nofun)
  rw [silent] at queue
  have lengths := congrArg List.length queue
  simp only [List.length_append,Bool.false_eq_true,if_false,List.length_nil,Nat.add_zero] at lengths
  have small : w.queued.length ≤ 3 := RegFifo.contents_fit 3 _
  have ready := (RegFifo.fifo_ready 3 true w.handler.flushFifo (w.input x).flushAllocReady).2
  have wok' : (RegFifo.fifo 3 true).wok w.handler.flushFifo (w.input x).flushAllocReady = true := by
    simpa [State.flushReqWok,back,fifo] using wok
  rw [wok'] at ready
  rcases Nat.lt_or_ge w.queued.length 3 with less | full
  · omega
  · have takes : (w.input x).flushAllocReady = true := by
      have full' : ¬ (RegFifo.contents 3 w.handler.flushFifo).length < 3 := not_lt.mpr full
      simpa [full'] using ready
    have rok := (RegFifo.fifo_ready 3 true w.handler.flushFifo (w.handler.flushReqW (w.input x).dir)).1
    have some' : 0 < (RegFifo.contents 3 w.handler.flushFifo).length := lt_of_lt_of_le (by decide) full
    have gives : (fifo c).rok w.handler.flushFifo (w.handler.flushReqW (w.input x).dir) = true := by
      rw [fifo,rok]
      simp [some']
    have one : (w.handed x).length = 1 := by
      have takes' : x.handler.flushAllocReady = true := takes
      simp [World.handed,State.flushAlloc,takes',back,gives]
    omega

theorem drained_quiet (valid : RegFifo.Valid 3 w.handler.flushFifo) (back : c.wbEn = true)
    (drained : w.handler.drained (w.input x) = true) (still : (w.next x P).handler.flushReqValid = false) :
    x.handler.flushEmpty = true ∧ (w.next x P).Quiet := by
  obtain ⟨queue,off⟩ := drained_empty drained back
  obtain ⟨_,moved⟩ := queue_next (x := x) (P := P) valid (by rw [off]; nofun)
  change w.queued = [] at queue
  rw [queue,off] at moved
  rw [State.drained,Bool.and_eq_true] at drained
  exact ⟨drained.1,(List.append_eq_nil_iff.mp moved).2,still⟩

structure Same (w w' : World c ν δ) (handed : List (FlushReq c)) : Prop where
  op : w'.handler.op = w.handler.op
  nline : w'.handler.nline = w.handler.nline
  inval : w'.handler.flushReqInval = w.handler.flushReqInval
  before : w'.before = w.before
  taken : w'.taken = w.taken ++ handed

omit [NeZero c.ways] in
theorem works_fsm : w.works = true ↔ w.handler.fsm ≠ .idle ∧ w.handler.fsm ≠ .fenceWaitWbufRtabEmpty ∧ w.handler.fsm ≠ .waitMshrRtabEmpty := by
  simp [World.works,State.reqWait]

theorem works_same (works : w.works = true) : Same w (w.next x P) (w.handed x) := by
  obtain ⟨busy,_,started⟩ := works_fsm.mp works
  have began : w.handler.began (w.input x) = none := by
    unfold State.began
    split
    · contradiction
    · contradiction
    · rfl
  have latches : w.handler.latches (w.input x) = none := if_neg busy
  constructor <;> simp [World.next,CmoHandler.next,began,latches]

omit [NeZero c.ways] in
theorem quiet_silent (quiet : w.Quiet) : w.handler.flushReqW (w.input x).dir = false := by simp [State.flushReqW,quiet.idle]

theorem quiet_next (valid : RegFifo.Valid 3 w.handler.flushFifo) (quiet : w.Quiet) :
    (w.next x P).queued = [] ∧ w.handed x = [] := by
  obtain ⟨_,queue⟩ := queue_next (x := x) (P := P) valid (by rw [quiet_silent quiet]; nofun)
  rw [quiet.queue,quiet_silent quiet] at queue
  exact (List.append_eq_nil_iff.mp queue).symm

omit [NeZero c.ways] in
theorem untouched_next (ready : w.dir.init = true) (silent : Silent (w.dirInput x)) (noNline : (w.dirInput x).cmoCheckNlineSet = none)
    (noEntry : (w.dirInput x).cmoCheckEntry = none) (noUpdt : (w.dirInput x).cmoUpdt = none) :
    contents (CacheDirectory.next P w.dir (w.dirInput x)) = contents w.dir := by
  funext set way
  rw [updt_next ready silent noNline noEntry,noUpdt]

section Entry

variable {q : Nat} (power : c.sets = 2 ^ c.setWidth) (valid : RegFifo.Valid 3 w.handler.flushFifo) (ready : w.dir.init = true)
variable (silent : Silent (w.dirInput x)) (same : Same w (w.next x P) (w.handed x)) (swept : w.Swept q)
variable (all : w.handler.fsm = .flushAllNext ∨ w.handler.fsm = .flushAllLast)

omit [NeZero c.ways] in
theorem no_nline (all : w.handler.fsm = .flushAllFirst ∨ w.handler.fsm = .flushAllNext ∨ w.handler.fsm = .flushAllLast) :
    (w.dirInput x).cmoCheckNlineSet = none := by
  rcases all with now | now | now <;> simp [World.dirInput,State.dirCheckNline,now]

include all valid ready silent same swept in
theorem entry_idle (idle : w.handler.flushReqValid = false) (unchecked : w.handler.checksEntry (w.input x) = false)
    (still : (w.next x P).handler.flushReqValid = false) : (w.next x P).Swept q := by
  have noEntry : (w.dirInput x).cmoCheckEntry = none := by simp [World.dirInput,State.dirCheckEntry,unchecked]
  have noUpdt : (w.dirInput x).cmoUpdt = none := by
    rcases all with now | now <;> simp [World.dirInput,State.dirUpdt,now,State.entryUpdt,idle]
  have off : w.handler.flushReqW (w.input x).dir = false := by simp [State.flushReqW,idle]
  obtain ⟨_,queue⟩ := queue_next (x := x) (P := P) valid (by rw [off]; nofun)
  rw [off] at queue
  refine ⟨fun set way => ?_,?_,fun checked => ?_⟩
  · have kept := updt_next (P := P) ready silent (no_nline (.inr all)) noEntry set way
    rw [noUpdt] at kept
    rw [same.inval,same.before,← swept.entries set way]
    exact kept
  · rw [same.taken,same.before,← swept.log,List.append_assoc]
    simpa using queue
  · rw [still] at checked
    cases checked

omit [NeZero c.ways] in
theorem reads_entry {v : Fin c.ways} {e : DirEntry c} (way : w.dir.reqWay = oneHot v) (row : w.dir.row v = e) :
    (w.input x).dir.entryValid = e.valid ∧ (w.input x).dir.entryWback = e.wback ∧ (w.input x).dir.entryDirty = e.dirty ∧
      (w.input x).dir.entryTag = e.tag := by
  have one : ∀ f : Fin c.ways → Bool, (any fun v' => w.dir.reqWay v' && f v') = f v := by
    intro f
    rw [Bool.eq_iff_iff,any_true,way]
    simp
  subst row
  refine ⟨one fun v' => (w.dir.row v').valid,one fun v' => (w.dir.row v').wback,one fun v' => (w.dir.row v').dirty,?_⟩
  change w.dir.mux w.dir.reqWay = _
  rw [CacheDirectory.State.mux,way,find_oneHot]
  rfl

include power all valid ready silent same swept in
theorem entry_done (inside : q < c.sets * c.ways) (back : c.wbEn = true) (room : w.queued.length < 3)
    (checking : w.handler.flushReqValid = true) (still : (w.next x P).handler.flushReqValid = false) :
    (w.next x P).Swept (q + 1) := by
  obtain ⟨set',way',reqWay,row⟩ := swept.checked checking
  obtain ⟨rValid,rWback,rDirty,rTag⟩ := reads_entry (x := x) reqWay row
  have unchecked : w.handler.checksEntry (w.input x) = false := by
    rcases all with now | now <;> simp [State.checksEntry,now,checking]
  have noEntry : (w.dirInput x).cmoCheckEntry = none := by simp [World.dirInput,State.dirCheckEntry,unchecked]
  have updt : (w.dirInput x).cmoUpdt = w.handler.entryUpdt (w.input x) := by
    rcases all with now | now <;> simp [World.dirInput,State.dirUpdt,now]
  have writes : w.handler.flushReqW (w.input x).dir = Spent (w.before (place c q).1 (place c q).2) := by
    rcases all with now | now <;> simp [State.flushReqW,now,back,checking,Spent,rValid,rDirty]
  have wdata : w.handler.flushReqWdata (w.input x).dir =
      request (place c q).1 (place c q).2 (w.before (place c q).1 (place c q).2) := by
    rcases all with now | now <;> simp [State.flushReqWdata,now,set',way',rTag,request]
  obtain ⟨_,queue⟩ := queue_next (x := x) (P := P) valid fun _ => room
  refine ⟨fun set way => ?_,?_,fun checked => ?_⟩
  · have kept := updt_next (P := P) ready silent (no_nline (.inr all)) noEntry set way
    rw [updt] at kept
    change contents (w.next x P).dir set way = _ at kept
    rw [kept,same.inval,same.before,swept.entries set way,State.entryUpdt,checking,rValid,rDirty,set',way',rWback,rTag,cleaned]
    by_cases here : index set way = q
    · obtain ⟨rfl,rfl⟩ := (index_eq power inside set way).mp here
      cases touched : (w.before (place c q).1 (place c q).2).valid &&
        ((w.before (place c q).1 (place c q).2).dirty || w.handler.flushReqInval) <;> simp [here]
    · have other : ¬ (set = (place c q).1 ∧ way = (place c q).2) := fun both => here ((index_eq power inside set way).mpr both)
      have bound : index set way < q + 1 ↔ index set way < q := by omega
      simp only [bound]
      cases touched : (w.before (place c q).1 (place c q).2).valid &&
        ((w.before (place c q).1 (place c q).2).dirty || w.handler.flushReqInval) <;> simp [other]
  · rw [same.taken,same.before,List.append_assoc,queue,requests_succ,← swept.log,writes,wdata,List.append_assoc,entryRequest]
    cases Spent (w.before (place c q).1 (place c q).2) <;> rfl
  · rw [still] at checked
    cases checked

include power valid ready silent same swept in
theorem entry_checked (inside : q < c.sets * c.ways) (back : c.wbEn = true)
    (now : w.handler.fsm = .flushAllFirst ∨ w.handler.fsm = .flushAllNext) (idle : w.handler.flushReqValid = false)
    (checks : w.handler.checksEntry (w.input x) = true) (set : w.handler.set = (place c q).1)
    (way : w.handler.way = oneHot (place c q).2) :
    (w.next x P).Swept q ∧ (w.next x P).queued.length < 3 ∧ (w.next x P).handler.flushReqValid = true := by
  have entry : (w.dirInput x).cmoCheckEntry = some ((place c q).1,oneHot (place c q).2) := by
    simp [World.dirInput,State.dirCheckEntry,checks,set,way]
  have nline := no_nline (x := x) (now.imp_right .inl)
  obtain ⟨kept,asked,row⟩ := checkEntry_next (P := P) ready silent nline entry
  have off : w.handler.flushReqW (w.input x).dir = false := by simp [State.flushReqW,idle]
  have wok : w.handler.flushReqWok (w.input x) = true := by
    rcases now with now | now <;> simp [State.checksEntry,now] at checks <;> exact checks.2
  obtain ⟨_,queue⟩ := queue_next (x := x) (P := P) valid (by rw [off]; nofun)
  rw [off] at queue
  refine ⟨⟨fun set' way' => ?_,?_,fun _ => ⟨?_,?_,asked,?_⟩⟩,room_next valid back off wok,?_⟩
  · rw [same.inval,same.before,← swept.entries set' way']
    exact congrFun (congrFun kept set') way'
  · rw [same.taken,same.before,← swept.log,List.append_assoc]
    simpa using queue
  · simp [World.next,CmoHandler.next,checks,set]
  · simp [World.next,CmoHandler.next,checks,way]
  · rw [same.before]
    refine (row _ (oneHot_true.mpr rfl)).trans ?_
    rw [swept.entries,index_place power inside,if_neg (lt_irrefl _)]
  · rcases now with now | now <;> simp [World.next,CmoHandler.next,State.flushReqValidNext,now,checks]

omit power in
theorem way_shift {v : Fin c.ways} (way : w.handler.way = oneHot v) (more : v ≠ -1) : w.handler.wayShifted = oneHot (v + 1) := by
  funext k
  rw [Bool.eq_iff_iff,oneHot_true,State.wayShifted,way]
  have zero : v + 1 ≠ 0 := fun last => more (eq_neg_of_add_eq_zero_left last)
  by_cases first : k = 0
  · rw [if_pos first,first]
    simpa using zero.symm
  · rw [if_neg first,oneHot_true]
    exact sub_eq_iff_eq_add

include power in
theorem cursor_next (inside : q + 1 < c.sets * c.ways) (now : w.handler.fsm = .flushAllFirst ∨ w.handler.fsm = .flushAllNext)
    (checks : w.handler.checksEntry (w.input x) = true) (set : w.handler.set = (place c q).1)
    (way : w.handler.way = oneHot (place c q).2) :
    (w.next x P).handler.set = (place c (q + 1)).1 ∧ (w.next x P).handler.way = oneHot (place c (q + 1)).2 := by
  have latches : w.handler.latches (w.input x) = none := by rcases now with now | now <;> simp [State.latches,now]
  have incr : w.handler.setIncr (w.input x) = w.handler.wayLast := by
    rcases now with now | now <;> simp [State.setIncr,now,checks]
  have wayLast : w.handler.wayLast = decide ((place c q).2 = -1) := by
    rw [State.wayLast,way,oneHot]
    exact decide_eq_decide.mpr eq_comm
  have setLast : (place c q).2 = -1 → w.handler.setLast = false := by
    intro last
    rw [State.setLast,decide_eq_false_iff_not,set]
    intro ends
    have total := (last_place power (by omega)).mp ⟨ends,last⟩
    omega
  have set' : (w.next x P).handler.set = if w.handler.wayLast then if w.handler.setLast then 0 else w.handler.set + 1
      else w.handler.set := by simp [World.next,CmoHandler.next,latches,incr]
  have way' : (w.next x P).handler.way = if w.handler.wayLast then oneHot 0 else w.handler.wayShifted := by
    simp [World.next,CmoHandler.next,latches,checks]
  rw [set',way',place_succ,wayLast]
  by_cases last : (place c q).2 = -1
  · simp [last,setLast last,set]
  · simp [last,set,way_shift way last]

end Entry

structure Works (w' : World c ν δ) (flushEmpty : Bool) : Prop where
  on : w'.handler.fsm ≠ .idle → w'.Phase
  ends : w'.handler.fsm = .idle → w'.Quiet ∧ ((flushesLine w'.handler.op = true → Single w'.handler.nline w'.before) → w'.Finished) ∧
    (c.wbEn = true → flushes w'.handler.op = true → flushEmpty = true)
  room : c.wbEn = true → w'.handler.flushReqValid = true → w'.queued.length < 3

omit [NeZero c.ways] in
theorem cleaned_line (op : CmoOp) (nline : c.Nline) (set : BitVec c.setWidth) (e : DirEntry c) (back : c.wbEn = true)
    (flushes : op = .flushAll ∨ op = .flushInvalAll) :
    lineOf (cleaned (invalidates op) e) = managed op nline set (lineOf e) := by
  obtain ⟨valid,wback,dirty,fetch,tag⟩ := e
  rcases flushes with rfl | rfl <;> cases valid <;> cases dirty <;>
    simp [cleaned,invalidates,lineOf,managed,names,kept,back]

theorem finished_all (power : c.sets = 2 ^ c.setWidth) (back : c.wbEn = true) (flushing : w.Flushing true)
    (swept : w.Swept (c.sets * c.ways)) (queue : w.queued = []) : w.Finished := by
  have op : w.handler.op = .flushAll ∨ w.handler.op = .flushInvalAll := flushing.op
  refine ⟨fun set way => ?_,?_⟩
  · rw [swept.entries,if_pos (index_lt power set way),flushing.inval,cleaned_line _ w.handler.nline set _ back op]
  · have log := swept.log
    rw [queue,List.append_nil] at log
    rw [log]
    rcases op with op | op <;> simp [writeBacks,op,back]

omit [NeZero c.ways] in
theorem names_nline {op : CmoOp} (one : op = .invalByNline ∨ op = .flushByNline ∨ op = .flushInvalByNline) (nline : c.Nline)
    (set : BitVec c.setWidth) (l : Line c) : names op nline set l = decide (set = lineSet nline ∧ l.tag = lineTag nline) := by
  have parts := line_parts l.tag set nline
  rcases one with rfl | rfl | rfl <;> exact decide_eq_decide.mpr parts

omit [NeZero c.ways] in
theorem hits_here (nline : c.Nline) (before : BitVec c.setWidth → Row c) (set : BitVec c.setWidth) (w : Fin c.ways) :
    set = lineSet nline ∧ hits nline before w = true ↔
      (before set w).valid = true ∧ set = lineSet nline ∧ (before set w).tag = lineTag nline := by
  constructor
  · rintro ⟨rfl,hit⟩
    simp only [hits,Bool.and_eq_true,decide_eq_true_eq] at hit
    exact ⟨hit.1,rfl,hit.2⟩
  · rintro ⟨valid,rfl,tag⟩
    exact ⟨rfl,by simp [hits,valid,tag]⟩

omit [NeZero c.ways] in
theorem invalidated_line {op : CmoOp} (inval : op = .invalByNline ∨ op = .flushInvalByNline) (nline : c.Nline)
    (before : BitVec c.setWidth → Row c) (set : BitVec c.setWidth) (w : Fin c.ways) :
    lineOf (invalidated nline before set w) = managed op nline set (lineOf (before set w)) := by
  have named := names_nline (c := c) (inval.imp_right .inr) nline set
  have gone : ∀ l : Line c, kept op l = none := fun l => by rcases inval with rfl | rfl <;> rfl
  have here := hits_here nline before set w
  unfold invalidated
  simp only [here]
  cases valid : (before set w).valid with
  | false => simp [lineOf,valid,managed]
  | true =>
    have held : lineOf (before set w) = some ⟨(before set w).tag,(before set w).wback,(before set w).dirty⟩ := by simp [lineOf,valid]
    rw [held,managed,Option.bind_some,named]
    by_cases this : set = lineSet nline ∧ (before set w).tag = lineTag nline
    · rw [if_pos ⟨rfl,this⟩,if_pos (decide_eq_true this),gone]
      rfl
    · rw [if_neg fun both => this both.2,if_neg (by simpa using this)]
      exact held

omit [NeZero c.ways] in
theorem flushed_line {op : CmoOp} (back : c.wbEn = true) (flush : op = .flushByNline ∨ op = .flushInvalByNline) (nline : c.Nline)
    (before : BitVec c.setWidth → Row c) (single : Single nline before) (set : BitVec c.setWidth) (w : Fin c.ways) :
    lineOf (flushed (invalidates op) nline before set w) = managed op nline set (lineOf (before set w)) := by
  have named := names_nline (c := c) (.inr flush) nline set
  have here := hits_here nline before set w
  unfold flushed
  simp only [here]
  cases valid : (before set w).valid with
  | false => simp [lineOf,valid,managed]
  | true =>
    have held : lineOf (before set w) = some ⟨(before set w).tag,(before set w).wback,(before set w).dirty⟩ := by simp [lineOf,valid]
    rw [held,managed,Option.bind_some,named]
    by_cases this : set = lineSet nline ∧ (before set w).tag = lineTag nline
    · have only : (any fun v => hits nline before v && (before (lineSet nline) v).wback) = (before set w).wback := by
        have hit := (here.mpr ⟨valid,this⟩).2
        rw [Bool.eq_iff_iff,any_true,this.1]
        constructor
        · rintro ⟨v,both⟩
          rw [Bool.and_eq_true] at both
          rw [single w v hit both.1]
          exact both.2
        · intro wback
          exact ⟨w,by rw [hit,wback]; rfl⟩
      rw [if_pos ⟨rfl,this⟩,if_pos (decide_eq_true this),only,← this.2]
      rcases flush with rfl | rfl
      · simp [lineOf,kept,back,invalidates]
      · rfl
    · rw [if_neg fun both => this both.2,if_neg (by simpa using this)]
      exact held

section Steps

variable (power : c.sets = 2 ^ c.setWidth) (several : 1 < c.sets) (sound : w.Sound) (silent : Silent (w.dirInput x))
variable (same : Same w (w.next x P) (w.handed x))

omit [NeZero c.ways] in
theorem flushing_same {w' : World c ν δ} {handed : List (FlushReq c)} {all : Bool} (same : Same w w' handed) (flushing : w.Flushing all) :
    w'.Flushing all := by
  refine ⟨?_,?_⟩
  · rw [same.op]
    exact flushing.op
  · rw [same.inval,same.op]
    exact flushing.inval

include power several sound silent same

theorem allFirst_next (now : w.handler.fsm = .flushAllFirst) : Works (w.next x P) x.handler.flushEmpty := by
  have ready := sound.ready (by rw [now]; nofun)
  have phase := sound.phase
  simp only [World.Phase,now] at phase
  obtain ⟨begun,flushing,first⟩ := phase
  obtain ⟨queue,handed⟩ := quiet_next (x := x) (P := P) sound.valid begun.toQuiet
  have taken : (w.next x P).taken = [] := by rw [same.taken,begun.nothing,handed,List.append_nil]
  have valid' : (w.next x P).handler.flushReqValid = w.handler.checksEntry (w.input x) := by
    simp [World.next,CmoHandler.next,State.flushReqValidNext,now,begun.idle]
  have latches : w.handler.latches (w.input x) = none := by simp [State.latches,now]
  have holds : w.handler.checksEntry (w.input x) = false → contents (w.next x P).dir = (w.next x P).before ∧
      (w.next x P).handler.set = 0 ∧ (w.next x P).handler.way = oneHot 0 := by
    intro checks
    have dir := untouched_next (x := x) (P := P) ready silent (no_nline (.inl now)) (by simp [World.dirInput,State.dirCheckEntry,checks])
      (by simp [World.dirInput,State.dirUpdt,now])
    rw [same.before,← begun.untouched]
    exact ⟨dir,by simp [World.next,CmoHandler.next,latches,State.setIncr,now,checks,first.set],
      by simp [World.next,CmoHandler.next,latches,checks,first.way]⟩
  have op : w.handler.op = .flushAll ∨ w.handler.op = .flushInvalAll := flushing.op
  cases back : c.wbEn with
  | true =>
    have fsm : (w.next x P).handler.fsm = if w.handler.checksEntry (w.input x) = true then .flushAllNext else .flushAllFirst := by
      simp [World.next,CmoHandler.next,State.fsmNext,State.checksEntry,now,back]
    cases checks : w.handler.checksEntry (w.input x) with
    | false =>
      rw [checks] at valid' fsm
      have stays : (w.next x P).handler.fsm = .flushAllFirst := by simpa using fsm
      obtain ⟨dir,set,way⟩ := holds checks
      refine ⟨fun _ => ?_,fun idle => (by rw [stays] at idle; cases idle),fun _ checked => by rw [valid'] at checked; cases checked⟩
      simp only [World.Phase,stays]
      exact ⟨⟨⟨queue,valid'⟩,dir,taken⟩,flushing_same same flushing,⟨set,way⟩⟩
    | true =>
      have goes : (w.next x P).handler.fsm = .flushAllNext := by rw [fsm,checks,if_pos rfl]
      have total : 1 < c.sets * c.ways := lt_of_lt_of_le several (Nat.le_mul_of_pos_right _ (Nat.pos_of_neZero _))
      have begins : place c 0 = (0,0) := by simp [place]
      have swept : w.Swept 0 :=
        ⟨fun set way => by rw [if_neg (Nat.not_lt_zero _),begun.untouched],by rw [begun.nothing,begun.queue]; rfl,
          fun checked => by rw [begun.idle] at checked; cases checked⟩
      have set : w.handler.set = (place c 0).1 := by rw [first.set,begins]
      have way : w.handler.way = oneHot (place c 0).2 := by rw [first.way,begins]
      obtain ⟨swept',room,valid''⟩ := entry_checked power sound.valid ready silent same swept (by omega) back (.inl now) begun.idle checks set way
      obtain ⟨set',way'⟩ := cursor_next (x := x) (P := P) power total (.inl now) checks set way
      have count : (w.next x P).checks 0 = 1 := by simp [World.checks,valid'']
      refine ⟨fun _ => ?_,fun idle => (by rw [goes] at idle; cases idle),fun _ _ => room⟩
      simp only [World.Phase,goes]
      refine ⟨back,flushing_same same flushing,0,?_⟩
      rw [count]
      exact ⟨Nat.one_pos,total,set',way',swept'⟩
  | false =>
    have checks : w.handler.checksEntry (w.input x) = false := by simp [State.checksEntry,now,back]
    obtain ⟨dir,set,_⟩ := holds checks
    rw [checks] at valid'
    have fsm : (w.next x P).handler.fsm = if w.handler.flushReqInval = true then .invalSet else .idle := by
      simp [World.next,CmoHandler.next,State.fsmNext,now,back]
    rw [flushing.inval] at fsm
    refine ⟨fun busy => ?_,fun idle => ?_,fun _ checked => by rw [valid'] at checked; cases checked⟩
    · have inval : w.handler.op = .flushInvalAll := by
        rcases op with op | op
        · rw [op] at fsm
          exact absurd fsm busy
        · exact op
      rw [inval] at fsm
      have goes : (w.next x P).handler.fsm = .invalSet := fsm
      simp only [World.Phase,goes]
      refine ⟨⟨queue,valid'⟩,taken,.inr ⟨.inr ⟨by rw [same.op,inval],back⟩,fun set' => ?_⟩⟩
      rw [dir,set,if_neg (by simp)]
    · have plain : w.handler.op = .flushAll := by
        rcases op with op | op
        · exact op
        · rw [op] at fsm
          exact absurd (fsm.symm.trans idle) nofun
      refine ⟨⟨queue,valid'⟩,fun _ => ⟨fun set way => ?_,?_⟩,fun enabled => by rw [back] at enabled; cases enabled⟩
      · rw [dir,same.op,plain]
        cases lineOf ((w.next x P).before set way) <;> simp [managed,names,kept,back]
      · rw [taken,same.op,plain]
        simp [writeBacks,back]

omit several in
theorem allNext_next (now : w.handler.fsm = .flushAllNext) : Works (w.next x P) x.handler.flushEmpty := by
  have ready := sound.ready (by rw [now]; nofun)
  have phase := sound.phase
  simp only [World.Phase,now] at phase
  obtain ⟨back,flushing,q,after,before,set,way,swept⟩ := phase
  have fsm : (w.next x P).handler.fsm =
      if (w.handler.checksEntry (w.input x) && (w.handler.setLast && w.handler.wayLast)) = true then .flushAllLast else .flushAllNext := by
    simp [World.next,CmoHandler.next,State.fsmNext,now]
  have valid' : (w.next x P).handler.flushReqValid = w.handler.checksEntry (w.input x) := by
    simp [World.next,CmoHandler.next,State.flushReqValidNext,now]
  have busy : (w.next x P).handler.fsm ≠ .idle := by
    rw [fsm]
    split <;> nofun
  cases checks : w.handler.checksEntry (w.input x) with
  | false =>
    rw [checks] at valid' fsm
    have stays : (w.next x P).handler.fsm = .flushAllNext := by simpa using fsm
    have place' : (w.next x P).handler.set = w.handler.set ∧ (w.next x P).handler.way = w.handler.way := by
      have latches : w.handler.latches (w.input x) = none := by simp [State.latches,now]
      simp [World.next,CmoHandler.next,latches,checks,State.setIncr,now]
    refine ⟨fun _ => ?_,fun idle => absurd idle busy,fun _ checked => by rw [valid'] at checked; cases checked⟩
    simp only [World.Phase,stays]
    cases idle : w.handler.flushReqValid with
    | false =>
      have count : (w.next x P).checks q = w.checks q := by simp [World.checks,valid',idle]
      refine ⟨back,flushing_same same flushing,q,?_⟩
      rw [count,place'.1,place'.2]
      exact ⟨after,before,set,way,entry_idle sound.valid ready silent same swept (.inl now) idle checks valid'⟩
    | true =>
      have count : (w.next x P).checks (q + 1) = w.checks q := by simp [World.checks,valid',idle]
      have inside : q < c.sets * c.ways := by
        rw [World.checks,idle] at before
        exact Nat.lt_of_succ_lt before
      refine ⟨back,flushing_same same flushing,q + 1,?_⟩
      rw [count,place'.1,place'.2]
      exact ⟨after,before,set,way,entry_done power sound.valid ready silent same swept (.inl now) inside back (sound.room back idle) idle valid'⟩
  | true =>
    have idle : w.handler.flushReqValid = false := by simp [State.checksEntry,now] at checks; exact checks.1
    have count : w.checks q = q := by simp [World.checks,idle]
    rw [count] at after before set way
    obtain ⟨swept',room,valid''⟩ := entry_checked power sound.valid ready silent same swept before back (.inr now) idle checks set way
    have count' : (w.next x P).checks q = q + 1 := by simp [World.checks,valid'']
    have last : (w.handler.setLast && w.handler.wayLast) = true ↔ q + 1 = c.sets * c.ways := by
      rw [← last_place power before,State.setLast,State.wayLast,set,way,Bool.and_eq_true,decide_eq_true_eq,oneHot_true,eq_comm (a := -1)]
    refine ⟨fun _ => ?_,fun idle => absurd idle busy,fun _ _ => room⟩
    by_cases ends : q + 1 = c.sets * c.ways
    · have stops : (w.next x P).handler.fsm = .flushAllLast := by rw [fsm,checks,Bool.true_and,if_pos (last.mpr ends)]
      simp only [World.Phase,stops]
      exact ⟨back,flushing_same same flushing,q,by rw [count',ends],swept'⟩
    · have goes : (w.next x P).handler.fsm = .flushAllNext := by
        rw [fsm,checks,Bool.true_and,if_neg (fun both => ends (last.mp both))]
      simp only [World.Phase,goes]
      refine ⟨back,flushing_same same flushing,q,?_⟩
      rw [count']
      obtain ⟨set',way'⟩ := cursor_next (x := x) (P := P) power (by omega) (.inr now) checks set way
      exact ⟨Nat.succ_pos q,by omega,set',way',swept'⟩

omit several in
theorem allLast_next (now : w.handler.fsm = .flushAllLast) : Works (w.next x P) x.handler.flushEmpty := by
  have ready := sound.ready (by rw [now]; nofun)
  have phase := sound.phase
  simp only [World.Phase,now] at phase
  obtain ⟨back,flushing,q,count,swept⟩ := phase
  have valid' : (w.next x P).handler.flushReqValid = false := by
    simp [World.next,CmoHandler.next,State.flushReqValidNext,now]
  have swept' : (w.next x P).Swept (c.sets * c.ways) := by
    cases idle : w.handler.flushReqValid with
    | false =>
      have all : q = c.sets * c.ways := by simpa [World.checks,idle] using count
      exact all ▸ entry_idle sound.valid ready silent same swept (.inr now) idle (by simp [State.checksEntry,now]) valid'
    | true =>
      have all : q + 1 = c.sets * c.ways := by simpa [World.checks,idle] using count
      exact all ▸ entry_done power sound.valid ready silent same swept (.inr now) (by omega) back (sound.room back idle) idle valid'
  have fsm : (w.next x P).handler.fsm = if w.handler.drained (w.input x) = true then .idle else .flushAllLast := by
    simp [World.next,CmoHandler.next,State.fsmNext,now]
  refine ⟨fun busy => ?_,fun idle => ?_,fun _ checked => by rw [valid'] at checked; cases checked⟩
  · have stays : (w.next x P).handler.fsm = .flushAllLast := by
      rw [fsm] at busy ⊢
      split at busy
      · exact absurd rfl busy
      · rename_i more
        rw [if_neg more]
    simp only [World.Phase,stays]
    exact ⟨back,flushing_same same flushing,c.sets * c.ways,by simp [World.checks,valid'],swept'⟩
  · rw [fsm] at idle
    split at idle
    · rename_i drained
      obtain ⟨empty,quiet⟩ := drained_quiet sound.valid back drained valid'
      exact ⟨quiet,fun _ => finished_all power back (flushing_same same flushing) swept' quiet.queue,fun _ _ => empty⟩
    · cases idle

omit power several in
theorem invalCheck_next (now : w.handler.fsm = .invalCheckNline) : Works (w.next x P) x.handler.flushEmpty := by
  have ready := sound.ready (by rw [now]; nofun)
  have phase := sound.phase
  simp only [World.Phase,now] at phase
  obtain ⟨begun,op⟩ := phase
  obtain ⟨queue,handed⟩ := quiet_next (x := x) (P := P) sound.valid begun.toQuiet
  have goes : (w.next x P).handler.fsm = .invalSet := by simp [World.next,CmoHandler.next,State.fsmNext,now]
  have valid' : (w.next x P).handler.flushReqValid = false := by
    simp [World.next,CmoHandler.next,State.flushReqValidNext,now,begun.idle]
  have checks : (w.dirInput x).cmoCheckNlineSet = some (lineSet w.handler.nline) := by
    simp [World.dirInput,State.dirCheckNline,now]
  obtain ⟨dir,row⟩ := checkNline_next (P := P) ready silent checks
  refine ⟨fun _ => ?_,fun idle => (by rw [goes] at idle; cases idle),fun _ checked => by rw [valid'] at checked; cases checked⟩
  simp only [World.Phase,goes]
  refine ⟨⟨queue,valid'⟩,by rw [same.taken,begun.nothing,handed,List.append_nil],.inl ⟨?_,?_,?_⟩⟩
  · rw [same.op]
    exact op
  · rw [same.before,← begun.untouched]
    exact dir
  · rw [same.before,same.nline,← begun.untouched]
    exact row

omit power several in
-- Lines that are only invalidated leave nothing to be written back.
theorem inval_quiet (now : w.handler.fsm = .invalSet) :
    (w.next x P).Quiet ∧ (w.next x P).taken = [] ∧ (w.next x P).handler.fsm = w.handler.invalSetNext ∧
      ∀ set way, contents (w.next x P).dir set way =
        match (w.dirInput x).cmoUpdt with
        | some u => if set = u.set ∧ u.way way = true then u.entry else contents w.dir set way
        | none => contents w.dir set way := by
  have phase := sound.phase
  simp only [World.Phase,now] at phase
  obtain ⟨quiet,nothing,_⟩ := phase
  obtain ⟨queue,handed⟩ := quiet_next (x := x) (P := P) sound.valid quiet
  have valid' : (w.next x P).handler.flushReqValid = false := by
    simp [World.next,CmoHandler.next,State.flushReqValidNext,now,quiet.idle]
  have noNline : (w.dirInput x).cmoCheckNlineSet = none := by simp [World.dirInput,State.dirCheckNline,now]
  have noEntry : (w.dirInput x).cmoCheckEntry = none := by simp [World.dirInput,State.dirCheckEntry,State.checksEntry,now]
  refine ⟨⟨queue,valid'⟩,by rw [same.taken,nothing,handed,List.append_nil],?_,?_⟩
  · simp [World.next,CmoHandler.next,State.fsmNext,now]
  · exact updt_next (P := P) (sound.ready (by rw [now]; nofun)) silent noNline noEntry

omit power several sound silent same [NeZero c.ways] in
theorem plain_op {op : CmoOp} (plain : op = .invalByNline ∨ op = .invalAll ∨ c.wbEn = false) :
    c.wbEn = false ∨ flushes op = false := by
  rcases plain with rfl | rfl | off
  · exact .inr rfl
  · exact .inr rfl
  · exact .inl off

omit power several sound silent same in
theorem plain_writeBacks {op : CmoOp} (plain : c.wbEn = false ∨ flushes op = false) (nline : c.Nline)
    (before : BitVec c.setWidth → Row c) : writeBacks op nline before = [] := by
  rcases plain with off | none'
  · cases op <;> simp [writeBacks,off]
  · cases op <;> first | rfl | cases none'

omit power several in
theorem invalLine_next (now : w.handler.fsm = .invalSet)
    (op : w.handler.op = .invalByNline ∨ w.handler.op = .flushInvalByNline ∧ c.wbEn = false)
    (untouched : contents w.dir = w.before) (row : w.dir.row = w.before (lineSet w.handler.nline)) :
    Works (w.next x P) x.handler.flushEmpty := by
  obtain ⟨quiet',taken,fsm,updt⟩ := inval_quiet (P := P) sound silent same now
  have here : w.handler.op = .invalByNline ∨ w.handler.op = .flushInvalByNline := op.imp_right And.left
  have plain : c.wbEn = false ∨ flushes w.handler.op = false := plain_op (op.imp_right fun both => .inr both.2)
  have ends : (w.next x P).handler.fsm = .idle := by rw [fsm,State.invalSetNext]; rcases here with op | op <;> rw [op]
  have hitWay : (w.input x).dir.nlineHitWay = hits w.handler.nline w.before := by
    change w.dir.hitWay _ = _
    unfold CacheDirectory.State.hitWay
    rw [row]
    rfl
  have command : (w.dirInput x).cmoUpdt =
      if any (hits w.handler.nline w.before) then some ⟨lineSet w.handler.nline,hits w.handler.nline w.before,blankEntry⟩ else none := by
    rcases here with op | op <;> simp [World.dirInput,State.dirUpdt,now,op,hitWay]
  have dir : contents (w.next x P).dir = invalidated w.handler.nline w.before := by
    funext set way
    rw [updt,command,untouched,invalidated]
    cases some' : any (hits w.handler.nline w.before) with
    | true => rfl
    | false => simp [any_false.mp some' way]
  refine ⟨fun busy => absurd ends busy,fun _ => ⟨quiet',fun _ => ⟨fun set way => ?_,?_⟩,fun back flushing => ?_⟩,
    fun _ checked => by rw [quiet'.idle] at checked; cases checked⟩
  · rw [dir,same.op,same.nline,same.before]
    exact invalidated_line here _ _ _ _
  · rw [taken,plain_writeBacks]
    rw [same.op]
    exact plain
  · rw [same.op] at flushing
    simp [back,flushing] at plain

omit several sound silent same [NeZero c.ways] in
theorem setLast_iff : w.handler.setLast = true ↔ w.handler.set.toNat = c.sets - 1 := by
  have bound := w.handler.set.isLt
  rw [← power] at bound
  rw [State.setLast,decide_eq_true_eq,← BitVec.toNat_inj,BitVec.toNat_ofNat,Nat.mod_eq_of_lt (by omega)]

omit several sound silent same [NeZero c.ways] in
theorem set_succ (more : w.handler.setLast = false) : (w.handler.set + 1).toNat = w.handler.set.toNat + 1 := by
  have notLast : w.handler.set.toNat ≠ c.sets - 1 := by
    intro last
    rw [(setLast_iff power).mpr last] at more
    cases more
  have bound := w.handler.set.isLt
  have small : w.handler.set.toNat + 1 < 2 ^ c.setWidth := by omega
  have one : 1 < 2 ^ c.setWidth := by omega
  rw [BitVec.toNat_add]
  change (w.handler.set.toNat + (BitVec.ofNat c.setWidth 1).toNat) % 2 ^ c.setWidth = _
  rw [BitVec.toNat_ofNat,Nat.mod_eq_of_lt one,Nat.mod_eq_of_lt small]

omit several in
theorem invalAll_next (now : w.handler.fsm = .invalSet)
    (op : w.handler.op = .invalAll ∨ w.handler.op = .flushInvalAll ∧ c.wbEn = false)
    (entries : ∀ set, contents w.dir set = if set.toNat < w.handler.set.toNat then fun _ => blankEntry else w.before set) :
    Works (w.next x P) x.handler.flushEmpty := by
  obtain ⟨quiet',taken,fsm,updt⟩ := inval_quiet (P := P) sound silent same now
  have here : w.handler.op = .invalAll ∨ w.handler.op = .flushInvalAll := op.imp_right And.left
  have plain : c.wbEn = false ∨ flushes w.handler.op = false := plain_op (.inr (op.imp_right And.right))
  have command : (w.dirInput x).cmoUpdt = some ⟨w.handler.set,fun _ => true,blankEntry⟩ := by
    rcases here with op | op <;> simp [World.dirInput,State.dirUpdt,now,op]
  have dir : ∀ set, contents (w.next x P).dir set =
      if set.toNat < w.handler.set.toNat + 1 then fun _ => blankEntry else w.before set := by
    intro set
    funext way
    rw [updt,command,entries set]
    by_cases this : set = w.handler.set
    · simp [this]
    · have other : set.toNat ≠ w.handler.set.toNat := fun equal => this (BitVec.eq_of_toNat_eq equal)
      have bound : set.toNat < w.handler.set.toNat + 1 ↔ set.toNat < w.handler.set.toNat := by omega
      simp [this,bound]
  have fsm' : (w.next x P).handler.fsm = if w.handler.setLast then .idle else .invalSet := by
    rw [fsm,State.invalSetNext]
    rcases here with op | op <;> rw [op]
  cases last : w.handler.setLast with
  | false =>
    have goes : (w.next x P).handler.fsm = .invalSet := by rw [fsm',last]; rfl
    have latches : w.handler.latches (w.input x) = none := by simp [State.latches,now]
    have incr : w.handler.setIncr (w.input x) = true := by rcases here with op | op <;> simp [State.setIncr,now,op]
    have set' : (w.next x P).handler.set = w.handler.set + 1 := by simp [World.next,CmoHandler.next,latches,incr,last]
    refine ⟨fun _ => ?_,fun idle => (by rw [goes] at idle; cases idle),fun _ checked => by rw [quiet'.idle] at checked; cases checked⟩
    simp only [World.Phase,goes]
    refine ⟨quiet',taken,.inr ⟨?_,fun set => ?_⟩⟩
    · rw [same.op]
      exact op
    · rw [dir set,set',set_succ power last,same.before]
  | true =>
    have stops : (w.next x P).handler.fsm = .idle := by rw [fsm',last]; rfl
    refine ⟨fun busy => absurd stops busy,fun _ => ⟨quiet',fun _ => ⟨fun set way => ?_,?_⟩,fun back flushing => ?_⟩,
      fun _ checked => by rw [quiet'.idle] at checked; cases checked⟩
    · have inside : set.toNat < w.handler.set.toNat + 1 := by
        have small := set.isLt
        have final := (setLast_iff power).mp last
        omega
      rw [dir set,if_pos inside,same.op]
      rcases here with op | op <;> rw [op] <;> cases lineOf ((w.next x P).before set way) <;> rfl
    · rw [taken,plain_writeBacks]
      rw [same.op]
      exact plain
    · rw [same.op] at flushing
      simp [back,flushing] at plain

omit several in
theorem invalSet_next (now : w.handler.fsm = .invalSet) : Works (w.next x P) x.handler.flushEmpty := by
  have phase := sound.phase
  simp only [World.Phase,now] at phase
  obtain ⟨_,_,⟨op,untouched,row⟩ | ⟨op,entries⟩⟩ := phase
  · exact invalLine_next sound silent same now op untouched row
  · exact invalAll_next power sound silent same now op entries

omit power several in
theorem nlineFirst_next (now : w.handler.fsm = .flushNlineFirst) : Works (w.next x P) x.handler.flushEmpty := by
  have ready := sound.ready (by rw [now]; nofun)
  have phase := sound.phase
  simp only [World.Phase,now] at phase
  obtain ⟨begun,flushing⟩ := phase
  obtain ⟨queue,handed⟩ := quiet_next (x := x) (P := P) sound.valid begun.toQuiet
  have taken : (w.next x P).taken = [] := by rw [same.taken,begun.nothing,handed,List.append_nil]
  have op : w.handler.op = .flushByNline ∨ w.handler.op = .flushInvalByNline := flushing.op
  have noEntry : (w.dirInput x).cmoCheckEntry = none := by simp [World.dirInput,State.dirCheckEntry,State.checksEntry,now]
  have noUpdt : (w.dirInput x).cmoUpdt = none := by simp [World.dirInput,State.dirUpdt,now]
  have valid' : (w.next x P).handler.flushReqValid = (c.wbEn && w.handler.flushReqWok (w.input x)) := by
    simp [World.next,CmoHandler.next,State.flushReqValidNext,now,begun.idle]
  cases checks : c.wbEn && w.handler.flushReqWok (w.input x) with
  | true =>
    obtain ⟨back,wok⟩ := Bool.and_eq_true_iff.mp checks
    have goes : (w.next x P).handler.fsm = .flushNlineNext := by simp [World.next,CmoHandler.next,State.fsmNext,now,back,wok]
    have nline : (w.dirInput x).cmoCheckNlineSet = some (lineSet w.handler.nline) := by
      simp [World.dirInput,State.dirCheckNline,now,back,wok]
    obtain ⟨dir,row⟩ := checkNline_next (P := P) ready silent nline
    rw [checks] at valid'
    refine ⟨fun _ => ?_,fun idle => (by rw [goes] at idle; cases idle),fun _ _ => by simp [queue]⟩
    simp only [World.Phase,goes,valid',if_true]
    refine ⟨back,flushing_same same flushing,queue,taken,?_,?_⟩
    · rw [same.before,← begun.untouched]
      exact dir
    · rw [same.before,same.nline,← begun.untouched]
      exact row
  | false =>
    have noNline : (w.dirInput x).cmoCheckNlineSet = none := by
      simp only [World.dirInput,State.dirCheckNline,now,checks,Bool.false_eq_true,if_false]
    have dir : contents (w.next x P).dir = (w.next x P).before := by
      rw [same.before,← begun.untouched]
      exact untouched_next ready silent noNline noEntry noUpdt
    rw [checks] at valid'
    have begun' : (w.next x P).Begun := ⟨⟨queue,valid'⟩,dir,taken⟩
    have fsm : (w.next x P).handler.fsm =
        if c.wbEn then .flushNlineFirst else if w.handler.flushReqInval then .invalCheckNline else .idle := by
      cases back : c.wbEn with
      | false => simp [World.next,CmoHandler.next,State.fsmNext,now,back]
      | true =>
        rw [back,Bool.true_and] at checks
        simp [World.next,CmoHandler.next,State.fsmNext,now,back,checks]
    rw [flushing.inval] at fsm
    refine ⟨fun busy => ?_,fun idle => ?_,fun _ checked => by rw [valid'] at checked; cases checked⟩
    · cases back : c.wbEn with
      | true =>
        rw [back,if_pos rfl] at fsm
        simp only [World.Phase,fsm]
        exact ⟨begun',flushing_same same flushing⟩
      | false =>
        rw [back,if_neg Bool.false_ne_true] at fsm
        rcases op with op | op
        · rw [op] at fsm
          exact absurd fsm busy
        · rw [op] at fsm
          have goes : (w.next x P).handler.fsm = .invalCheckNline := fsm
          simp only [World.Phase,goes]
          exact ⟨begun',.inr ⟨by rw [same.op,op],back⟩⟩
    · cases back : c.wbEn with
      | true =>
        rw [back,if_pos rfl] at fsm
        rw [fsm] at idle
        cases idle
      | false =>
        rw [back,if_neg Bool.false_ne_true] at fsm
        have plain : w.handler.op = .flushByNline := by
          rcases op with op | op
          · exact op
          · rw [op] at fsm
            exact absurd (fsm.symm.trans idle) nofun
        refine ⟨⟨queue,valid'⟩,fun _ => ⟨fun set way => ?_,?_⟩,nofun⟩
        · rw [dir,same.op,plain]
          cases lineOf ((w.next x P).before set way) <;> simp [managed,kept,back]
        · rw [taken,same.op,plain]
          simp [writeBacks,back]

omit power several in
-- Once the line has been looked up it is written to the directory and handed over.
theorem nline_written (now : w.handler.fsm = .flushNlineNext) :
    contents (w.next x P).dir = flushed w.handler.flushReqInval w.handler.nline w.before ∧
      (w.next x P).taken ++ (w.next x P).queued = writeBacks w.handler.op w.handler.nline w.before := by
  have ready := sound.ready (by rw [now]; nofun)
  have phase := sound.phase
  simp only [World.Phase,now] at phase
  obtain ⟨back,flushing,rest⟩ := phase
  have op : w.handler.op = .flushByNline ∨ w.handler.op = .flushInvalByNline := flushing.op
  have noNline : (w.dirInput x).cmoCheckNlineSet = none := by simp [World.dirInput,State.dirCheckNline,now]
  have noEntry : (w.dirInput x).cmoCheckEntry = none := by simp [World.dirInput,State.dirCheckEntry,State.checksEntry,now]
  cases checking : w.handler.flushReqValid with
  | false =>
    rw [checking,if_neg Bool.false_ne_true] at rest
    have off : w.handler.flushReqW (w.input x).dir = false := by simp [State.flushReqW,checking]
    obtain ⟨_,queue⟩ := queue_next (x := x) (P := P) sound.valid (by rw [off]; nofun)
    rw [off,if_neg Bool.false_ne_true,List.append_nil] at queue
    constructor
    · have noUpdt : (w.dirInput x).cmoUpdt = none := by simp [World.dirInput,State.dirUpdt,now,checking]
      rw [← rest.1]
      exact untouched_next ready silent noNline noEntry noUpdt
    · rw [same.taken,List.append_assoc,queue,rest.2]
  | true =>
    rw [checking,if_pos rfl] at rest
    obtain ⟨none',nothing,untouched,row⟩ := rest
    have hitWay : w.dir.hitWay (lineTag w.handler.nline) = hits w.handler.nline w.before := by
      unfold CacheDirectory.State.hitWay
      rw [row]
      rfl
    obtain ⟨_,queue⟩ := queue_next (x := x) (P := P) sound.valid fun _ => by simp [none']
    have wback : (w.input x).dir.nlineWback =
        any fun v => hits w.handler.nline w.before v && (w.before (lineSet w.handler.nline) v).wback := by
      rw [← hitWay,← row]
      rfl
    have dirty : (w.input x).dir.nlineDirty =
        any fun v => hits w.handler.nline w.before v && (w.before (lineSet w.handler.nline) v).dirty := by
      rw [← hitWay,← row]
      rfl
    have hits' : (w.input x).dir.nlineHitWay = hits w.handler.nline w.before := hitWay
    constructor
    · funext set way
      refine (updt_next (P := P) ready silent noNline noEntry set way).trans ?_
      have command : (w.dirInput x).cmoUpdt = w.handler.dirUpdt (w.input x) := rfl
      rw [command,State.dirUpdt,now,hits',wback,checking,untouched,flushed]
      cases some' : any (hits w.handler.nline w.before) with
      | true => rfl
      | false => simp [any_false.mp some' way]
    · have writes : w.handler.flushReqW (w.input x).dir =
          any fun v => hits w.handler.nline w.before v && (w.before (lineSet w.handler.nline) v).dirty := by
        rw [State.flushReqW,now,hits',dirty,back,checking,Bool.true_and,Bool.true_and,Bool.eq_iff_iff,Bool.and_eq_true]
        refine and_iff_right_of_imp fun some' => ?_
        obtain ⟨v,both⟩ := any_true.mp some'
        exact any_true.mpr ⟨v,(Bool.and_eq_true_iff.mp both).1⟩
      have wdata : w.handler.flushReqWdata (w.input x).dir = ⟨w.handler.nline,hits w.handler.nline w.before⟩ := by
        rw [State.flushReqWdata,now,hits']
      rw [same.taken,List.append_assoc,queue,nothing,none',writes,wdata]
      rcases op with op | op <;> simp [writeBacks,op,back]

omit power several in
theorem nlineNext_next (now : w.handler.fsm = .flushNlineNext) : Works (w.next x P) x.handler.flushEmpty := by
  have phase := sound.phase
  simp only [World.Phase,now] at phase
  obtain ⟨back,flushing,_⟩ := phase
  have op : w.handler.op = .flushByNline ∨ w.handler.op = .flushInvalByNline := flushing.op
  have after := nline_written sound silent same now
  have valid' : (w.next x P).handler.flushReqValid = false := by
    simp [World.next,CmoHandler.next,State.flushReqValidNext,now]
  have fsm : (w.next x P).handler.fsm = if w.handler.drained (w.input x) = true then .idle else .flushNlineNext := by
    simp [World.next,CmoHandler.next,State.fsmNext,now]
  refine ⟨fun busy => ?_,fun idle => ?_,fun _ checked => by rw [valid'] at checked; cases checked⟩
  · have stays : (w.next x P).handler.fsm = .flushNlineNext := by
      rw [fsm] at busy ⊢
      split at busy
      · exact absurd rfl busy
      · rename_i more
        rw [if_neg more]
    simp only [World.Phase,stays,valid',Bool.false_eq_true,if_false]
    rw [same.inval,same.nline,same.before,same.op]
    exact ⟨back,flushing_same same flushing,after⟩
  · rw [fsm] at idle
    split at idle
    · rename_i drained
      obtain ⟨empty,quiet⟩ := drained_quiet sound.valid back drained valid'
      refine ⟨quiet,fun single => ⟨fun set way => ?_,?_⟩,fun _ _ => empty⟩
      · have once : Single w.handler.nline w.before := by
          rw [same.op,same.nline,same.before] at single
          exact single (by rcases op with op | op <;> rw [op] <;> rfl)
        rw [after.1,flushing.inval,same.op,same.nline,same.before]
        exact flushed_line back op _ _ once set way
      · rw [← List.append_nil (w.next x P).taken,← quiet.queue,after.2,same.op,same.nline,same.before]
    · cases idle

end Steps

theorem starts_phase {w' : World c ν δ} (quiet : w'.Quiet) (op : w'.handler.op ≠ .fence) (fsm : w'.handler.fsm = starts w'.handler.op)
    (before : contents w'.dir = w'.before) (taken : w'.taken = []) (first : w'.FirstEntry)
    (inval : flushes w'.handler.op = true → w'.handler.flushReqInval = invalidates w'.handler.op) : w'.Phase := by
  have begun : w'.Begun := ⟨quiet,before,taken⟩
  cases is : w'.handler.op with
  | fence => exact absurd is op
  | invalByNline =>
    rw [is] at fsm
    simp only [World.Phase,fsm,starts]
    exact ⟨begun,.inl is⟩
  | invalAll =>
    rw [is] at fsm
    simp only [World.Phase,fsm,starts]
    refine ⟨quiet,taken,.inr ⟨.inl is,fun set => ?_⟩⟩
    rw [before,first.set,if_neg (by simp)]
  | flushByNline =>
    rw [is] at fsm
    simp only [World.Phase,fsm,starts]
    exact ⟨begun,⟨.inl is,inval (by rw [is]; rfl)⟩⟩
  | flushInvalByNline =>
    rw [is] at fsm
    simp only [World.Phase,fsm,starts]
    exact ⟨begun,⟨.inr is,inval (by rw [is]; rfl)⟩⟩
  | flushAll =>
    rw [is] at fsm
    simp only [World.Phase,fsm,starts]
    exact ⟨begun,⟨.inl is,inval (by rw [is]; rfl)⟩,first⟩
  | flushInvalAll =>
    rw [is] at fsm
    simp only [World.Phase,fsm,starts]
    exact ⟨begun,⟨.inr is,inval (by rw [is]; rfl)⟩,first⟩

theorem began_phase (quiet : (w.next x P).Quiet) (began : w.handler.began (w.input x) = some op) (real : op ≠ .fence)
    (op' : (w.next x P).handler.op = op) (fsm : (w.next x P).handler.fsm = starts op) (first : (w.next x P).FirstEntry) :
    (w.next x P).Phase := by
  refine starts_phase quiet (by rw [op']; exact real) (by rw [op']; exact fsm) ?_ ?_ first fun flushing => ?_
  · simp [World.next,began]
  · simp [World.next,began]
  · rw [op'] at flushing ⊢
    simp [World.next,CmoHandler.next,began,flushing]

theorem request_next (quiet : (w.next x P).Quiet) (now : w.handler.fsm = .idle) : (w.next x P).Phase := by
  cases comes : w.handler.request (w.input x) with
  | none =>
    have stays : (w.next x P).handler.fsm = .idle := by simp [World.next,CmoHandler.next,State.fsmNext,now,comes]
    simp only [World.Phase,stays]
    exact quiet
  | some r =>
    have fsm : (w.next x P).handler.fsm = (w.input x).idleNext r := by
      simp [World.next,CmoHandler.next,State.fsmNext,now,comes]
    by_cases fence : r.op = .fence
    · have fsm' : (w.next x P).handler.fsm = .idle ∨ (w.next x P).handler.fsm = .fenceWaitWbufRtabEmpty := by
        rw [fsm,CmoHandler.Input.idleNext,fence]
        simp only []
        split
        · exact .inr rfl
        · exact .inl rfl
      rcases fsm' with fsm' | fsm' <;> simp only [World.Phase,fsm'] <;> exact quiet
    have latches : w.handler.latches (w.input x) = some r := by simp [State.latches,now,comes,fence]
    have op' : (w.next x P).handler.op = r.op := by simp [World.next,CmoHandler.next,latches]
    have first' : (w.next x P).FirstEntry := by constructor <;> simp [World.next,CmoHandler.next,latches]
    have fsm' : (w.next x P).handler.fsm = if (w.input x).atRest then starts r.op else .waitMshrRtabEmpty := by
      rw [fsm,CmoHandler.Input.idleNext]
      cases is : r.op <;> first | rfl | exact absurd is fence
    cases rest : (w.input x).atRest with
    | false =>
      have waits : (w.next x P).handler.fsm = .waitMshrRtabEmpty := by rw [fsm',rest]; rfl
      simp only [World.Phase,waits]
      exact ⟨quiet,by rw [op']; exact fence,first'⟩
    | true =>
      have began : w.handler.began (w.input x) = some r.op := by simp [State.began,now,rest,latches]
      rw [rest,if_pos rfl] at fsm'
      exact began_phase quiet began fence op' fsm' first'

theorem fence_next (quiet : (w.next x P).Quiet) (now : w.handler.fsm = .fenceWaitWbufRtabEmpty) : (w.next x P).Phase := by
  have fsm : (w.next x P).handler.fsm = .idle ∨ (w.next x P).handler.fsm = .fenceWaitWbufRtabEmpty := by
    simp only [World.next,CmoHandler.next,State.fsmNext,now]
    split
    · exact .inl rfl
    · exact .inr rfl
  rcases fsm with fsm | fsm <;> simp only [World.Phase,fsm] <;> exact quiet

theorem waiting_next (quiet : (w.next x P).Quiet) (phase : w.Phase) (now : w.handler.fsm = .waitMshrRtabEmpty) :
    (w.next x P).Phase := by
  simp only [World.Phase,now] at phase
  obtain ⟨_,op,first⟩ := phase
  have latches : w.handler.latches (w.input x) = none := by simp [State.latches,now]
  have op' : (w.next x P).handler.op = w.handler.op := by simp [World.next,CmoHandler.next,latches]
  have first' : (w.next x P).FirstEntry := by
    constructor <;> simp [World.next,CmoHandler.next,latches,State.setIncr,State.checksEntry,now,first.set,first.way]
  cases rest : (w.input x).atRest with
  | false =>
    have stays : (w.next x P).handler.fsm = .waitMshrRtabEmpty := by simp [World.next,CmoHandler.next,State.fsmNext,now,rest]
    simp only [World.Phase,stays]
    exact ⟨quiet,by rw [op']; exact op,first'⟩
  | true =>
    have began : w.handler.began (w.input x) = some w.handler.op := by simp [State.began,now,rest]
    have goes : (w.next x P).handler.fsm = starts w.handler.op := by simp [World.next,CmoHandler.next,State.fsmNext,now,rest]
    exact began_phase quiet began op op' goes first'

theorem rests_next (sound : w.Sound) (rests : w.works = false) : (w.next x P).Quiet ∧ (w.next x P).Phase := by
  have resting : w.handler.fsm = .idle ∨ w.handler.fsm = .fenceWaitWbufRtabEmpty ∨ w.handler.fsm = .waitMshrRtabEmpty := by
    by_contra other
    rw [not_or,not_or] at other
    rw [works_fsm.mpr other] at rests
    cases rests
  have quiet : w.Quiet := by
    have phase := sound.phase
    rcases resting with now | now | now <;> simp only [World.Phase,now] at phase
    · exact phase
    · exact phase
    · exact phase.1
  obtain ⟨queue,_⟩ := quiet_next (x := x) (P := P) sound.valid quiet
  have valid' : (w.next x P).handler.flushReqValid = false := by
    rcases resting with now | now | now <;> simp [World.next,CmoHandler.next,State.flushReqValidNext,now,quiet.idle]
  have quiet' : (w.next x P).Quiet := ⟨queue,valid'⟩
  refine ⟨quiet',?_⟩
  rcases resting with now | now | now
  · exact request_next quiet' now
  · exact fence_next quiet' now
  · exact waiting_next quiet' sound.phase now

section Run

variable (power : c.sets = 2 ^ c.setWidth) (several : 1 < c.sets) (sound : w.Sound)

include power several sound

theorem works_next (works : w.works = true) (silent : Silent (w.dirInput x)) : Works (w.next x P) x.handler.flushEmpty := by
  have same := works_same (x := x) (P := P) works
  obtain ⟨busy,fences,waits⟩ := works_fsm.mp works
  cases now : w.handler.fsm with
  | idle => exact absurd now busy
  | fenceWaitWbufRtabEmpty => exact absurd now fences
  | waitMshrRtabEmpty => exact absurd now waits
  | invalCheckNline => exact invalCheck_next sound silent same now
  | invalSet => exact invalSet_next power sound silent same now
  | flushAllFirst => exact allFirst_next power several sound silent same now
  | flushAllNext => exact allNext_next power sound silent same now
  | flushAllLast => exact allLast_next power sound silent same now
  | flushNlineFirst => exact nlineFirst_next sound silent same now
  | flushNlineNext => exact nlineNext_next sound silent same now

theorem sound_next (asks : x.handler.req.isSome = true → w.dir.init = true) (silent : w.works = true → Silent (w.dirInput x)) :
    (w.next x P).Sound := by
  have ready : (w.next x P).handler.fsm ≠ .idle → (w.next x P).dir.init = true := by
    intro busy
    have started : w.dir.init = true := by
      by_cases now : w.handler.fsm = .idle
      · refine asks ?_
        by_contra none'
        rw [Bool.not_eq_true,Option.isSome_eq_false_iff,Option.isNone_iff_eq_none] at none'
        have comes : w.handler.request (w.input x) = none := by
          unfold State.request
          split
          · exact none'
          · rfl
        refine busy ?_
        simp [World.next,CmoHandler.next,State.fsmNext,now,comes]
      · exact sound.ready now
    simp [World.next,CacheDirectory.next,started]
  have writes : w.handler.flushReqW (w.input x).dir = true → w.queued.length < 3 := by
    intro writes
    simp only [State.flushReqW,Bool.and_eq_true] at writes
    exact sound.room writes.1.1 writes.1.2
  have valid := (queue_next (x := x) (P := P) sound.valid writes).1
  cases works : w.works with
  | false =>
    obtain ⟨quiet,phase⟩ := rests_next (x := x) (P := P) sound works
    exact ⟨ready,valid,fun _ checked => (by rw [quiet.idle] at checked; cases checked),phase⟩
  | true =>
    obtain ⟨on,ends,room⟩ := works_next (P := P) power several sound works (silent works)
    refine ⟨ready,valid,room,?_⟩
    by_cases idle : (w.next x P).handler.fsm = .idle
    · simp only [World.Phase,idle]
      exact (ends idle).1
    · exact on idle

end Run

theorem sound_fresh (who : δ) (blank : FlushReq c) (ram : Fin c.ways → Sram (BitVec c.setWidth) (DirEntry c)) (victim : ν) :
    (fresh who blank ram victim).Sound where
  ready busy := absurd rfl busy
  valid := (RegFifo.reset_fresh 3 blank).1
  room _ checked := by cases checked
  phase := ⟨(RegFifo.reset_fresh 3 blank).2,rfl⟩

-- In every run, whatever the flush controller and the rest of the cache do: when an operation ends the lines that it names are
-- gone or clean and all others are as they were, and the dirty ones are handed over in order, each once.
theorem managed_done (P : Policy c ν) (who : δ) (blank : FlushReq c) (ram : Fin c.ways → Sram (BitVec c.setWidth) (DirEntry c))
    (victim : ν) (power : c.sets = 2 ^ c.setWidth) (several : 1 < c.sets) (w : World c ν δ) (x : Cycle c δ)
    (reached : StateMachine.Reached (machine P (fresh who blank ram victim)) w)
    (allowed : (machine P (fresh who blank ram victim)).allowed w x) (works : w.works = true)
    (ends : (w.next x P).handler.fsm = .idle) (single : flushesLine w.handler.op = true → Single w.handler.nline w.before) :
    (∀ set way, lineOf (contents (w.next x P).dir set way) =
        managed w.handler.op w.handler.nline set (lineOf (w.before set way))) ∧
      (w.next x P).taken = writeBacks w.handler.op w.handler.nline w.before ∧
      (c.wbEn = true → flushes w.handler.op = true → x.handler.flushEmpty = true) := by
  have sound : w.Sound := reached.invariant World.Sound (sound_fresh who blank ram victim) fun w x now legal => by
    have contract : (x.handler.req.isSome = true → w.dir.init = true) ∧ (w.works = true → Silent (w.dirInput x)) := legal
    exact sound_next power several now contract.1 contract.2
  have same := works_same (x := x) (P := P) works
  obtain ⟨_,finished,empty⟩ := (works_next (P := P) power several sound works (allowed.2 works)).ends ends
  obtain ⟨lines,taken⟩ := finished (by rw [same.op,same.nline,same.before]; exact single)
  rw [same.op,same.nline,same.before] at lines taken
  rw [same.op] at empty
  exact ⟨lines,taken,empty⟩

-- A dirty line is flushed from a cache with two sets of two ways.
section Sample

def tiny : Cfg := ⟨2,2,1,3,1,1,2,1,1,2,true,true,true⟩

instance : NeZero tiny.ways := ⟨by decide⟩

instance (i : CacheDirectory.Input c) : Decidable (Silent i) :=
  decidable_of_iff (i.matchSet = none ∧ i.amoMatchSet = none ∧ i.refill = none ∧ i.invalCheck = false ∧ i.invalWrite = false ∧ i.updt = none)
    ⟨by rintro ⟨a,b,c,d,e,f⟩; exact ⟨a,b,c,d,e,f⟩,fun silent => ⟨silent.1,silent.2,silent.3,silent.4,silent.5,silent.6⟩⟩

def line : tiny.Nline := (2 : BitVec 2) ++ (1 : BitVec 1)

def calm : Cycle tiny Unit where
  handler := ⟨true,true,true,true,none,true,⟨fun _ => false,false,false,false,false,false,0⟩,true,true⟩
  others := ⟨none,none,none,false,false,0,none,none,none,none,none,false⟩

def store : Cycle tiny Unit :=
  { calm with others := { calm.others with refill := some ⟨1,oneHot 1,true,true,true,false,2⟩ } }

def flush : Cycle tiny Unit :=
  { calm with handler := { calm.handler with req := some ⟨.flushByNline,line,(),true⟩ } }

abbrev flusher : StateMachine.Machine (World tiny Unit Unit) (Cycle tiny Unit) :=
  machine direct (fresh () ⟨0,fun _ => false⟩ (fun _ => ⟨fun _ => blankEntry,blankEntry⟩) ())

instance (nline : c.Nline) (before : BitVec c.setWidth → Row c) : Decidable (Single nline before) :=
  inferInstanceAs (Decidable (∀ v v', hits nline before v = true → hits nline before v' = true → v = v'))

instance (w : World tiny Unit Unit) (x : Cycle tiny Unit) : Decidable (flusher.allowed w x) :=
  inferInstanceAs (Decidable ((x.handler.req.isSome = true → w.dir.init = true) ∧ (w.works = true → Silent (w.dirInput x))))

def flushing : List (Cycle tiny Unit) := [calm,calm,store,flush,calm,calm]

def beforeEnd : World tiny Unit Unit := flushing.foldl flusher.step flusher.initial

theorem managed_done_flush : (beforeEnd.next calm direct).taken.map FlushReq.nline = [line] ∧
    (beforeEnd.next calm direct).taken = writeBacks .flushByNline line beforeEnd.before := by
  have path : StateMachine.legal flusher flusher.initial flushing = true := by decide
  refine ⟨by decide,(managed_done direct _ _ _ _ rfl (by decide) beforeEnd calm ⟨_,StateMachine.Runs.of_legal path⟩ ?_ (by decide) (by decide) ?_).2.1⟩
  · exact ⟨by decide,by decide⟩
  · decide

end Sample

end Sargantana.CmoCompletion
