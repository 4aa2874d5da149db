import Sargantana.NcIcacheBuffer
import Sargantana.Lib.StateMachine
import Mathlib.Data.Nat.Find

-- The answers of the buffer for non-cacheable fetches, over every run against the next level
namespace Sargantana.NcFetch

open NcIcacheBuffer StateMachine

-- `epoch` counts the invalidations, `pending` is the request that is neither answered nor killed, `owed` the
-- word that the next level owes, `held` the epoch of the buffered word.
structure World where
  buffer : State
  mem : BitVec 37 → BitVec 64
  epoch : Nat
  pending : Option (BitVec 40)
  owed : Option (BitVec 37)
  held : Option Nat

-- The pins of a cycle and the memory after it
structure Step where
  pins : Input
  mem : BitVec 37 → BitVec 64

-- An unkilled fetch from a mapped region that is not cached
structure Asks (cfg : DracCfg) (i : Input) (a : BitVec 40) : Prop where
  valid : i.coreReqValid = true
  address : i.coreReqAddr = a
  region : addrIsNc cfg a = true
  bare : i.enTranslation = false
  mapped : isInsideMappedSections cfg a = true
  lives : i.coreReqKill = false ∧ i.coreReqInvalidate = false

def Kills (i : Input) : Prop := i.coreReqKill = true ∨ i.coreReqInvalidate = true

def after (cfg : DracCfg) (w : World) (p : Step) : World where
  buffer := next cfg w.buffer p.pins
  mem := p.mem
  epoch := if p.pins.coreReqInvalidate then w.epoch + 1 else w.epoch
  pending :=
    if ncKillD p.pins then none
    else if reqNcValidD cfg p.pins then some p.pins.coreReqAddr
    else if coreRspValid w.buffer then none
    else w.pending
  owed :=
    if (control w.buffer p.pins).reqNcValidO then some (reqNcVaddr w.buffer)
    else if p.pins.l2GrantValid then none
    else w.owed
  held := if w.buffer.ncKill then none else if (control w.buffer p.pins).ncRspValidD then some w.epoch else w.held

structure Contract (w : World) (p : Step) : Prop where
  ready : p.pins.coreReqValid = true → coreRspNcBusy w.buffer p.pins = false
  -- each request is answered once, with its word
  grant : p.pins.l2GrantValid = true → ∃ word, w.owed = some word ∧ p.pins.l2RespData.setWidth 64 = w.mem word
  memory : ∀ word, p.mem word ≠ w.mem word → p.pins.coreReqInvalidate = true

def start (mem : BitVec 37 → BitVec 64) : World where
  buffer := reset
  mem := mem
  epoch := 0
  pending := none
  owed := none
  held := none

def machine (cfg : DracCfg) (mem : BitVec 37 → BitVec 64) : Machine World Step where
  initial := start mem
  allowed := Contract
  step := after cfg

-- A kill or an invalidation in the cycle of the grant
def LateKill (s : State) (i : Input) : Prop := s.stateNc = .wait ∧ s.ncKill = false ∧ i.l2GrantValid = true ∧ Kills i

-- A request for the first word while nothing is in the buffer
def EmptyHit (w : World) : Prop := w.buffer.reqNcValid = true ∧ wordOf w.buffer.paddrInfly = 0 ∧ w.held = none

def Meets (w : World) (p : Step) : Prop := ¬ LateKill w.buffer p.pins ∧ ¬ EmptyHit w

theorem ncKillD_iff {i : Input} : ncKillD i = true ↔ Kills i := by simp [ncKillD,Kills]

theorem asks_iff {cfg : DracCfg} {i : Input} {a : BitVec 40} : Asks cfg i a ↔ reqNcValidD cfg i = true ∧ i.coreReqAddr = a := by
  rw [reqNcValidD_iff]
  constructor
  · rintro ⟨valid,rfl,region,bare,mapped,lives⟩
    exact ⟨⟨valid,region,bare,mapped,by simp [ncKillD,lives]⟩,rfl⟩
  · rintro ⟨⟨valid,region,bare,mapped,lives⟩,rfl⟩
    simp only [ncKillD,Bool.or_eq_false_iff] at lives
    exact ⟨valid,rfl,region,bare,mapped,lives⟩

-- What the registers say about the request in progress and about the buffered word
structure Invariant (w : World) : Prop where
  registered : w.buffer.reqNcValid = true → w.buffer.stateNc = .idle ∧ w.buffer.ncRspValid = false ∧ w.buffer.ncKill = false ∧
    w.pending = some w.buffer.paddrInfly
  answered : w.buffer.ncRspValid = true → w.buffer.stateNc = .idle ∧ w.buffer.ncKill = false ∧ w.pending = some w.buffer.paddrInfly ∧
    w.buffer.bufferPaddr = w.buffer.paddrInfly ∧ w.held ≠ none
  idle : w.buffer.stateNc = .idle → w.buffer.reqNcValid = false → w.buffer.ncRspValid = false → w.pending = none
  waits : w.buffer.stateNc = .wait → w.pending = if w.buffer.ncKill then none else some w.buffer.paddrInfly
  killed : w.buffer.stateNc = .kill → w.pending = none
  owed : w.owed = if w.buffer.stateNc = .idle then none else some (wordOf w.buffer.paddrInfly)
  cleared : w.held = none → w.buffer.bufferPaddr = 0
  word : w.buffer.ncKill = false → ∀ epoch, w.held = some epoch → w.buffer.icacheNcline = w.mem (wordOf w.buffer.bufferPaddr) ∧ epoch = w.epoch

theorem invariant_start (mem : BitVec 37 → BitVec 64) : Invariant (start mem) where
  registered valid := by cases valid
  answered valid := by cases valid
  idle _ _ _ := rfl
  waits state := by cases state
  killed state := by cases state
  owed := rfl
  cleared _ := rfl
  word _ _ held := by cases held

theorem presents_word {w : World} (invariant : Invariant w) (full : ¬ EmptyHit w) (presents : coreRspValid w.buffer = true) :
    ∃ a, w.pending = some a ∧ coreRspData w.buffer = BitVec.replicate 8 (w.mem (wordOf a)) ∧ w.held = some w.epoch := by
  simp only [coreRspValid,isInBuffer,sameAddrReq,Bool.or_eq_true,Bool.and_eq_true,beq_iff_eq] at presents
  rcases presents with answered | ⟨registered,same⟩
  · obtain ⟨_,lives,pending,here,held⟩ := invariant.answered answered
    obtain ⟨epoch,held⟩ := Option.ne_none_iff_exists'.mp held
    obtain ⟨word,rfl⟩ := invariant.word lives epoch held
    exact ⟨_,pending,by rw [coreRspData,word,here],held⟩
  · obtain ⟨_,_,lives,pending⟩ := invariant.registered registered
    cases held : w.held with
    | none =>
      rw [invariant.cleared held] at same
      exact absurd ⟨registered,same,held⟩ full
    | some epoch =>
      obtain ⟨word,rfl⟩ := invariant.word lives epoch held
      exact ⟨_,pending,by rw [coreRspData,word,same],rfl⟩

theorem taken_rests {cfg : DracCfg} {w : World} {p : Step} (contract : Contract w p) (takes : reqNcValidD cfg p.pins = true) :
    control w.buffer p.pins = ⟨false,.idle,false,false⟩ ∧ ncKillD p.pins = false := by
  obtain ⟨valid,_,_,_,lives⟩ := reqNcValidD_iff.mp takes
  have free : (control w.buffer p.pins).waiting = false := contract.ready valid
  refine ⟨?_,lives⟩
  cases cycle w.buffer p.pins with
  | rests _ _ controls => exact controls
  | issues _ _ _ controls | answers _ _ _ controls | drops _ _ controls | holds _ _ _ controls | dies _ _ controls =>
      simp [controls] at free

theorem registered_next {cfg : DracCfg} {w : World} {p : Step} (contract : Contract w p) (takes : reqNcValidD cfg p.pins = true) :
    (after cfg w p).buffer.stateNc = .idle ∧ (after cfg w p).buffer.ncRspValid = false ∧ (after cfg w p).buffer.ncKill = false ∧
      (after cfg w p).pending = some (after cfg w p).buffer.paddrInfly := by
  obtain ⟨controls,lives⟩ := taken_rests contract takes
  simp [after,next,controls,lives,takes,paddrInflyD]

section step

variable {cfg : DracCfg} {w : World} {p : Step} (invariant : Invariant w)
include invariant

theorem untaken_next (late : ¬ LateKill w.buffer p.pins) (untaken : reqNcValidD cfg p.pins = false) :
    (after cfg w p).buffer.paddrInfly = w.buffer.paddrInfly ∧
      match (after cfg w p).buffer.stateNc with
      | .idle => if (after cfg w p).buffer.ncRspValid then
          (after cfg w p).buffer.ncKill = false ∧ (after cfg w p).pending = some w.buffer.paddrInfly ∧
            (after cfg w p).buffer.bufferPaddr = w.buffer.paddrInfly ∧ (after cfg w p).held ≠ none
        else (after cfg w p).pending = none
      | .wait => (after cfg w p).pending = if (after cfg w p).buffer.ncKill then none else some w.buffer.paddrInfly
      | .kill => (after cfg w p).pending = none := by
  have unasked : ∀ state, w.buffer.stateNc = state → state ≠ .idle → w.buffer.reqNcValid = false ∧ w.buffer.ncRspValid = false := by
    intro state now other
    refine ⟨?_,?_⟩
    · by_contra asked
      exact other (now ▸ (invariant.registered (by simpa using asked)).1)
    · by_contra answered
      exact other (now ▸ (invariant.answered (by simpa using answered)).1)
  refine ⟨by simp [after,next,paddrInflyD,untaken],?_⟩
  cases cycle w.buffer p.pins with
  | rests state free controls =>
      have done : (if coreRspValid w.buffer = true then none else w.pending) = none := by
        split
        · rfl
        next silent =>
          simp only [coreRspValid,isInBuffer,Bool.or_eq_true,Bool.and_eq_true,not_or,Bool.not_eq_true] at silent
          refine invariant.idle state ?_ silent.1
          by_contra asked
          exact silent.2 ⟨by simpa using asked,free (by simpa using asked)⟩
      simp [after,next,controls,untaken,done]
  | issues state asked other controls =>
      obtain ⟨_,silent,_,pending⟩ := invariant.registered asked
      simp [after,next,controls,untaken,coreRspValid,isInBuffer,silent,other,pending]
  | answers state lives grant controls =>
      have unkilled : ncKillD p.pins = false := by
        by_contra kills
        exact late ⟨state,lives,grant,ncKillD_iff.mp (by simpa using kills)⟩
      obtain ⟨asked,silent⟩ := unasked _ state (by simp)
      have pending : w.pending = some w.buffer.paddrInfly := by rw [invariant.waits state,lives]; rfl
      simp [after,next,controls,untaken,unkilled,coreRspValid,isInBuffer,asked,silent,lives,pending]
  | drops state grant controls =>
      have pending : w.pending = none := by
        rcases state with ⟨state,killed⟩ | state
        · rw [invariant.waits state,killed]; rfl
        · exact invariant.killed state
      simp [after,next,controls,untaken,pending]
  | holds state lives quiet controls =>
      obtain ⟨asked,silent⟩ := unasked _ state (by simp)
      have pending : w.pending = some w.buffer.paddrInfly := by rw [invariant.waits state,lives]; rfl
      simp [after,next,controls,untaken,coreRspValid,isInBuffer,asked,silent,pending]
  | dies state quiet controls =>
      have pending : w.pending = none := by
        rcases state with ⟨state,killed⟩ | state
        · rw [invariant.waits state,killed]; rfl
        · exact invariant.killed state
      simp [after,next,controls,untaken,pending]

theorem owed_next (contract : Contract w p) :
    (after cfg w p).owed = if (after cfg w p).buffer.stateNc = .idle then none else some (wordOf (after cfg w p).buffer.paddrInfly) := by
  by_cases takes : reqNcValidD cfg p.pins = true
  · obtain ⟨controls,_⟩ := taken_rests contract takes
    have resting : w.buffer.stateNc = .idle := by
      cases cycle w.buffer p.pins with
      | rests state _ _ => exact state
      | issues _ _ _ other | answers _ _ _ other | drops _ _ other | holds _ _ _ other | dies _ _ other =>
          rw [controls] at other
          cases other
    have owed : w.owed = none := by rw [invariant.owed,if_pos resting]
    simp [after,next,controls,owed]
  · have kept : (after cfg w p).buffer.paddrInfly = w.buffer.paddrInfly := by simp [after,next,paddrInflyD,takes]
    have owed := invariant.owed
    rw [kept]
    cases cycle w.buffer p.pins with
    | rests state _ controls => simp [after,next,controls,owed,state]
    | issues _ _ _ controls => simp [after,next,controls,reqNcVaddr]
    | answers _ _ grant controls | drops _ grant controls => simp [after,next,controls,grant]
    | holds state _ quiet controls => simp [after,next,controls,quiet,owed,state]
    | dies state quiet controls =>
        rcases state with ⟨state,_⟩ | state <;> simp [after,next,controls,quiet,owed,state]

theorem cleared_next (empty : (after cfg w p).held = none) : (after cfg w p).buffer.bufferPaddr = 0 := by
  simp only [after] at empty
  simp only [after,next]
  split at empty
  next killed => simp [killed]
  next lives =>
    split at empty
    · cases empty
    next still => simp [lives,still,invariant.cleared empty]

-- The word that is fetched is the word of the memory; an invalidation leaves the kill in its register.
theorem word_next (contract : Contract w p) (lives : (after cfg w p).buffer.ncKill = false) (epoch : Nat) (held : (after cfg w p).held = some epoch) :
    (after cfg w p).buffer.icacheNcline = (after cfg w p).mem (wordOf (after cfg w p).buffer.bufferPaddr) ∧ epoch = (after cfg w p).epoch := by
  have now : ncKillD p.pins = false := lives
  have valid : p.pins.coreReqInvalidate = false := by
    simp only [ncKillD,Bool.or_eq_false_iff] at now
    exact now.2
  have same : ∀ word, p.mem word = w.mem word := by
    intro word
    by_contra changed
    have invalidated := contract.memory word changed
    simp [valid] at invalidated
  have count : (after cfg w p).epoch = w.epoch := by simp [after,valid]
  rw [count]
  simp only [after,next,same] at held ⊢
  split at held
  · cases held
  next unkilled =>
    split at held
    next fetched =>
      cases cycle w.buffer p.pins with
      | answers state _ grant controls =>
          obtain ⟨word,owed,data⟩ := contract.grant grant
          rw [invariant.owed,state] at owed
          cases owed
          cases held
          simp [controls,unkilled,data]
      | rests _ _ controls | issues _ _ _ controls | drops _ _ controls | holds _ _ _ controls | dies _ _ controls =>
          simp [controls] at fetched
    next still =>
      obtain ⟨word,count⟩ := invariant.word (by simpa using unkilled) epoch held
      simp [unkilled,still,word,count]

theorem invariant_next (contract : Contract w p) (meets : Meets w p) : Invariant (after cfg w p) := by
  have asked : (after cfg w p).buffer.reqNcValid = reqNcValidD cfg p.pins := rfl
  by_cases takes : reqNcValidD cfg p.pins = true
  · obtain ⟨state,silent,lives,pending⟩ := registered_next contract takes
    refine ⟨fun _ => ⟨state,silent,lives,pending⟩,?_,?_,?_,?_,owed_next invariant contract,cleared_next invariant,word_next invariant contract⟩
    · intro answered
      rw [silent] at answered
      cases answered
    · intro _ unasked
      rw [asked,takes] at unasked
      cases unasked
    · intro waits
      rw [state] at waits
      cases waits
    · intro killed
      rw [state] at killed
      cases killed
  · obtain ⟨kept,goes⟩ := untaken_next invariant meets.1 (by simpa using takes)
    refine ⟨?_,?_,?_,?_,?_,owed_next invariant contract,cleared_next invariant,word_next invariant contract⟩
    · intro registered
      exact absurd (asked.symm.trans registered) takes
    · intro answered
      have state : (after cfg w p).buffer.stateNc = .idle := by
        have fetched : (control w.buffer p.pins).ncRspValidD = true := answered
        change (control w.buffer p.pins).next = .idle
        cases cycle w.buffer p.pins with
        | answers _ _ _ controls => simp [controls]
        | rests _ _ controls | issues _ _ _ controls | drops _ _ controls | holds _ _ _ controls | dies _ _ controls =>
            simp [controls] at fetched
      rw [state] at goes
      simp only [answered,if_true] at goes
      rw [kept]
      exact ⟨state,goes⟩
    · intro state _ silent
      rw [state] at goes
      simpa [silent] using goes
    · intro state
      rw [state] at goes
      rw [kept]
      exact goes
    · intro state
      rw [state] at goes
      exact goes

theorem resting_presents (resting : control w.buffer p.pins = ⟨false,.idle,false,false⟩) (pending : w.pending ≠ none) :
    coreRspValid w.buffer = true := by
  by_contra silent
  simp only [coreRspValid,isInBuffer,Bool.or_eq_true,Bool.and_eq_true,not_or,Bool.not_eq_true] at silent
  cases cycle w.buffer p.pins with
  | rests state free _ =>
      refine pending (invariant.idle state ?_ silent.1)
      by_contra asked
      exact silent.2 ⟨by simpa using asked,free (by simpa using asked)⟩
  | issues _ _ _ other | answers _ _ _ other | drops _ _ other | holds _ _ _ other | dies _ _ other =>
      rw [resting] at other
      cases other

end step

section run

variable {cfg : DracCfg} {mem : BitVec 37 → BitVec 64} {inputs : Nat → Step}

-- The request of cycle s is the one that cycle t answers or kills.
structure Answers (cfg : DracCfg) (mem : BitVec 37 → BitVec 64) (inputs : Nat → Step) (s t : Nat) (a : BitVec 40) : Prop where
  asks : Asks cfg (inputs s).pins a
  later : s < t
  between : ∀ v, s < v → v < t → coreRspValid (trace (machine cfg mem) inputs v).buffer = false ∧ ¬ Kills (inputs v).pins ∧
    ∀ b, ¬ Asks cfg (inputs v).pins b

-- The next level answers what it owes.
def Fair (cfg : DracCfg) (mem : BitVec 37 → BitVec 64) (inputs : Nat → Step) : Prop :=
  ∀ t, (trace (machine cfg mem) inputs t).owed ≠ none → ∃ u, t ≤ u ∧ (inputs u).pins.l2GrantValid = true

structure Answered (cfg : DracCfg) (mem : BitVec 37 → BitVec 64) (inputs : Nat → Step) : Prop where
  -- only pending requests, with the word of memory, fetched since the last invalidation
  sound : ∀ t, coreRspValid (trace (machine cfg mem) inputs t).buffer = true → ∃ s a, Answers cfg mem inputs s t a ∧
    coreRspData (trace (machine cfg mem) inputs t).buffer = BitVec.replicate 8 ((trace (machine cfg mem) inputs t).mem (wordOf a)) ∧
    (trace (machine cfg mem) inputs t).held = some (trace (machine cfg mem) inputs t).epoch
  -- every request once, unless it is killed
  once : ∀ s a, Asks cfg (inputs s).pins a → ∃ t, Answers cfg mem inputs s t a ∧
    (coreRspValid (trace (machine cfg mem) inputs t).buffer = true ∨ Kills (inputs t).pins) ∧
    ∀ other, Answers cfg mem inputs s other a → coreRspValid (trace (machine cfg mem) inputs other).buffer = true → other = t

theorem pending_step (w : World) (p : Step) (a : BitVec 40) : (after cfg w p).pending = some a ↔
    Asks cfg p.pins a ∨ (w.pending = some a ∧ coreRspValid w.buffer = false ∧ ¬ Kills p.pins ∧ ∀ b, ¬ Asks cfg p.pins b) := by
  have none_asks (untaken : reqNcValidD cfg p.pins = false) (b : BitVec 40) : ¬ Asks cfg p.pins b := by
    intro asks
    have takes := (asks_iff.mp asks).1
    simp [untaken] at takes
  simp only [after]
  split
  next kills =>
    have untaken : reqNcValidD cfg p.pins = false := by simp [reqNcValidD,kills]
    simp [none_asks untaken,ncKillD_iff.mp kills]
  next lives =>
    have unkilled : ¬ Kills p.pins := fun kills => lives (ncKillD_iff.mpr kills)
    split
    next takes =>
      have self : Asks cfg p.pins p.pins.coreReqAddr := asks_iff.mpr ⟨takes,rfl⟩
      constructor
      · intro same
        cases same
        exact .inl self
      · rintro (asks | ⟨_,_,_,nobody⟩)
        · rw [(asks_iff.mp asks).2]
        · exact absurd self (nobody _)
    next untaken =>
      have nobody := none_asks (by simpa using untaken)
      split
      next presents => simp [nobody,presents]
      next silent => simp [nobody,silent,unkilled]

theorem pending_asked {t : Nat} {a : BitVec 40} : (trace (machine cfg mem) inputs t).pending = some a ↔ ∃ s, Answers cfg mem inputs s t a := by
  induction t generalizing a with
  | zero =>
    constructor
    · intro pending
      cases pending
    · rintro ⟨s,answers⟩
      exact absurd answers.later (by omega)
  | succ t ih =>
    refine (pending_step (trace (machine cfg mem) inputs t) (inputs t) a).trans ?_
    constructor
    · rintro (asks | ⟨pending,silent,unkilled,nobody⟩)
      · exact ⟨t,asks,by omega,fun v after before => by omega⟩
      · obtain ⟨s,asks,later,between⟩ := ih.mp pending
        refine ⟨s,asks,by omega,?_⟩
        intro v after before
        rcases Nat.lt_succ_iff_lt_or_eq.mp before with earlier | rfl
        · exact between v after earlier
        · exact ⟨silent,unkilled,nobody⟩
    · rintro ⟨s,asks,later,between⟩
      rcases Nat.lt_succ_iff_lt_or_eq.mp later with earlier | rfl
      · right
        refine ⟨ih.mpr ⟨s,asks,earlier,fun v after before => between v after (by omega)⟩,?_⟩
        exact between t earlier (by omega)
      · exact .inl asks

theorem invariant_kept (admits : Admits (machine cfg mem) inputs) (meets : ∀ t, Meets (trace (machine cfg mem) inputs t) (inputs t)) (t : Nat) :
    Invariant (trace (machine cfg mem) inputs t) := by
  induction t with
  | zero => exact invariant_start mem
  | succ t ih => exact invariant_next ih (admits t) (meets t)

theorem pending_alone (admits : Admits (machine cfg mem) inputs) {t : Nat} (invariant : Invariant (trace (machine cfg mem) inputs t))
    (pending : (trace (machine cfg mem) inputs t).pending ≠ none)
    (silent : coreRspValid (trace (machine cfg mem) inputs t).buffer = false) (b : BitVec 40) : ¬ Asks cfg (inputs t).pins b := by
  intro asks
  have resting := (taken_rests (admits t) (asks_iff.mp asks).1).1
  have presents := resting_presents invariant resting pending
  simp [silent] at presents

theorem pending_lasts (admits : Admits (machine cfg mem) inputs) (invariant : ∀ t, Invariant (trace (machine cfg mem) inputs t)) {s t : Nat} {a : BitVec 40}
    (asks : Asks cfg (inputs s).pins a) (later : s < t)
    (quiet : ∀ v, s < v → v < t → coreRspValid (trace (machine cfg mem) inputs v).buffer = false ∧ ¬ Kills (inputs v).pins) :
    Answers cfg mem inputs s t a := by
  induction t with
  | zero => omega
  | succ t ih =>
    rcases Nat.lt_succ_iff_lt_or_eq.mp later with earlier | rfl
    · have before := ih earlier fun v after sooner => quiet v after (by omega)
      obtain ⟨silent,unkilled⟩ := quiet t earlier (by omega)
      have pending : (trace (machine cfg mem) inputs t).pending ≠ none := by simp [pending_asked.mpr ⟨s,before⟩]
      refine ⟨asks,later,?_⟩
      intro v after sooner
      rcases Nat.lt_succ_iff_lt_or_eq.mp sooner with past | rfl
      · exact before.between v after past
      · exact ⟨silent,unkilled,pending_alone admits (invariant v) pending silent⟩
    · exact ⟨asks,later,fun v after sooner => by omega⟩

theorem request_ends (fair : Fair cfg mem inputs)
    (invariant : ∀ t, Invariant (trace (machine cfg mem) inputs t)) {s : Nat} {a : BitVec 40} (asks : Asks cfg (inputs s).pins a) :
    ∃ t, s < t ∧ (coreRspValid (trace (machine cfg mem) inputs t).buffer = true ∨ Kills (inputs t).pins) := by
  by_contra never
  have quiet : ∀ t, s < t → coreRspValid (trace (machine cfg mem) inputs t).buffer = false ∧ ¬ Kills (inputs t).pins := by
    intro t later
    constructor
    · by_contra presents
      exact never ⟨t,later,.inl (by simpa using presents)⟩
    · exact fun kills => never ⟨t,later,.inr kills⟩
  have unkilled : ∀ t, s < t → ncKillD (inputs t).pins = false := by
    intro t later
    by_contra kills
    exact (quiet t later).2 (ncKillD_iff.mp (by simpa using kills))
  have registered : (trace (machine cfg mem) inputs (s + 1)).buffer.reqNcValid = true := (asks_iff.mp asks).1
  have waiting : (trace (machine cfg mem) inputs (s + 2)).buffer.stateNc = .wait ∧ (trace (machine cfg mem) inputs (s + 2)).buffer.ncKill = false := by
    have resting := ((invariant (s + 1)).registered registered).1
    have other : sameAddrReq (trace (machine cfg mem) inputs (s + 1)).buffer = false := by
      have silent := (quiet (s + 1) (by omega)).1
      simp only [coreRspValid,isInBuffer,registered,Bool.true_and,Bool.or_eq_false_iff] at silent
      exact silent.2
    refine ⟨?_,unkilled (s + 1) (by omega)⟩
    change (control (trace (machine cfg mem) inputs (s + 1)).buffer (inputs (s + 1)).pins).next = .wait
    simp [NcIcacheBuffer.control,resting,registered,other]
  have owes := (invariant (s + 2)).owed
  rw [waiting.1] at owes
  have granted := fair (s + 2) (by simp [owes])
  obtain ⟨u,later,⟨state,lives⟩,grant⟩ := holds_until
    (fun t => (trace (machine cfg mem) inputs t).buffer.stateNc = .wait ∧ (trace (machine cfg mem) inputs t).buffer.ncKill = false)
    (fun t => (inputs t).pins.l2GrantValid = true) waiting (by
      rintro u later ⟨state,lives⟩ silent
      refine ⟨?_,unkilled u (by omega)⟩
      change (control (trace (machine cfg mem) inputs u).buffer (inputs u).pins).next = .wait
      simp [NcIcacheBuffer.control,state,lives,silent]) granted
  have presents : (trace (machine cfg mem) inputs (u + 1)).buffer.ncRspValid = true := by
    change (control (trace (machine cfg mem) inputs u).buffer (inputs u).pins).ncRspValidD = true
    simp [NcIcacheBuffer.control,state,lives,grant]
  have silent := (quiet (u + 1) (by omega)).1
  simp [coreRspValid,presents] at silent

-- Without a kill in the cycle of a grant and a hit on the cleared buffer, every request is answered.
theorem fetch_answered (admits : Admits (machine cfg mem) inputs) (fair : Fair cfg mem inputs)
    (meets : ∀ t, Meets (trace (machine cfg mem) inputs t) (inputs t)) : Answered cfg mem inputs where
  sound := by
    intro t presents
    obtain ⟨a,pending,data,held⟩ := presents_word (invariant_kept admits meets t) (meets t).2 presents
    obtain ⟨s,answers⟩ := pending_asked.mp pending
    exact ⟨s,a,answers,data,held⟩
  once := by
    classical
    intro s a asks
    have invariant := invariant_kept admits meets
    have ends := request_ends fair invariant asks
    obtain ⟨later,event⟩ := Nat.find_spec ends
    have first : ∀ v, s < v → v < Nat.find ends → coreRspValid (trace (machine cfg mem) inputs v).buffer = false ∧ ¬ Kills (inputs v).pins := by
      intro v after before
      have none_yet := Nat.find_min ends before
      simp only [not_and,not_or,Bool.not_eq_true] at none_yet
      exact none_yet after
    refine ⟨Nat.find ends,pending_lasts admits invariant asks later first,event,?_⟩
    intro other answers presents
    rcases Nat.lt_trichotomy other (Nat.find ends) with before | same | past
    · simp [(first other answers.later before).1] at presents
    · exact same
    · obtain ⟨silent,unkilled,_⟩ := answers.between _ later past
      rcases event with now | kills
      · simp [silent] at now
      · exact absurd kills unkilled

end run

-- One region that is not cached, and a memory of zeros
def cfgOne : DracCfg where
  ioSections := [(0x1000,0x2000)]
  mappedSections := [(0x1000,0x2000)]
  initBROM := (0,0)
  debugProgramBuffer := (0,0)

def still : Step where
  pins :=
    { enTranslation := false
      coreReqValid := false
      coreReqAddr := 0x1000
      coreReqInvalidate := false
      coreReqKill := false
      l2GrantValid := false
      l2RespData := 0 }
  mem := fun _ => 0

-- A fetch whose grant comes in cycle 2, with or without an invalidation beside it
def fetching (flush : Bool) : Nat → Step
  | 0 => { still with pins := { still.pins with coreReqValid := true } }
  | 2 =>
    { still with
      pins :=
        { still.pins with
          l2GrantValid := true
          coreReqInvalidate := flush } }
  | _ => still

def fetched (flush : Bool) (t : Nat) : World := trace (machine cfgOne still.mem) (fetching flush) t

theorem fetched_settled (flush : Bool) (t : Nat) : (fetched flush (t + 5)).owed = none ∧ (fetched flush (t + 5)).buffer = (fetched flush 5).buffer := by
  induction t with
  | zero => cases flush <;> exact ⟨by decide,rfl⟩
  | succ t ih =>
    have owed : (after cfgOne (fetched flush (t + 5)) still).owed = none := by
      simp only [after,ih]
      cases flush <;> decide
    have buffer : (after cfgOne (fetched flush (t + 5)) still).buffer = (fetched flush 5).buffer := by
      simp only [after,ih]
      cases flush <;> decide +kernel
    exact ⟨owed,buffer⟩

theorem fetching_admits (flush : Bool) : Admits (machine cfgOne still.mem) (fetching flush) := by
  intro t
  have mem : (trace (machine cfgOne still.mem) (fetching flush) t).mem = still.mem ∧ (fetching flush t).mem = still.mem := by
    have constant : ∀ u, (fetching flush u).mem = still.mem := by
      intro u
      unfold fetching
      split <;> rfl
    cases t with
    | zero => exact ⟨rfl,rfl⟩
    | succ t => exact ⟨constant t,constant (t + 1)⟩
  refine ⟨?_,?_,?_⟩
  · intro asks
    match t with
    | 0 => cases flush <;> decide
    | 1 | 2 | t + 3 => cases asks
  · intro grant
    match t with
    | 2 => exact ⟨0x200,by cases flush <;> decide +kernel,by rw [mem.1]; cases flush <;> decide +kernel⟩
    | 0 | 1 | t + 3 => cases grant
  · intro word changed
    rw [mem.1,mem.2] at changed
    exact absurd rfl changed

theorem fetching_fair (flush : Bool) : Fair cfgOne still.mem (fetching flush) := by
  intro t owed
  match t with
  | 0 | 1 | 2 => exact ⟨2,by omega,rfl⟩
  | 3 | 4 => exact absurd (by cases flush <;> decide) owed
  | t + 5 => exact absurd (fetched_settled flush t).1 owed

theorem fetching_meets (t : Nat) : Meets (fetched false t) (fetching false t) := by
  match t with
  | 0 | 1 | 2 | 3 | 4 => exact ⟨by unfold LateKill Kills; decide,by unfold EmptyHit; decide⟩
  | t + 5 =>
    have buffer := (fetched_settled false t).2
    refine ⟨?_,?_⟩
    · rintro ⟨_,_,grant,_⟩
      cases grant
    · rintro ⟨registered,_⟩
      rw [buffer] at registered
      exact absurd registered (by decide)

theorem fetch_answered_alone : coreRspValid (fetched false 3).buffer = true ∧ Answered cfgOne still.mem (fetching false) :=
  ⟨by decide,fetch_answered (fetching_admits false) (fetching_fair false) fetching_meets⟩

-- The fetch that is invalidated in the cycle of its grant is presented in the next cycle.
theorem invalidation_unseen : ¬ ∀ cfg mem inputs, Admits (machine cfg mem) inputs → Fair cfg mem inputs → Answered cfg mem inputs := by
  intro answered
  obtain ⟨s,a,answers,_⟩ := (answered _ _ _ (fetching_admits true) (fetching_fair true)).sound 3 (by decide)
  have pending := pending_asked.mpr ⟨s,answers⟩
  have dead : (fetched true 3).pending = none := by decide
  rw [fetched] at dead
  rw [dead] at pending
  cases pending

end Sargantana.NcFetch
