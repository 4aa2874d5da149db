import Sargantana.Arbiters
import Sargantana.HpdcachePkg
import Sargantana.Sram

-- The directory of the data cache (the directory part of hpdcache_memctrl_sarg) and the choice of a victim
-- (hpdcache_victim_sel_sarg, hpdcache_victim_plru_sarg and hpdcache_victim_random_sarg)
namespace Sargantana.CacheDirectory

open Arbiters HpdcachePkg

-- One entry a way, as the directory has read them
abbrev Row (c : Cfg) := Fin c.ways → DirEntry c

structure VictimUpdt (c : Cfg) where
  set : BitVec c.setWidth
  way : c.Ways

-- A policy that chooses a victim, with the state ν that it keeps
structure Policy (c : Cfg) (ν : Type) where
  way : ν → Row c → BitVec c.setWidth → c.Ways
  next : ν → Option (VictimUpdt c) → Bool → Row c → ν

section Victim

variable {c : Cfg}

def unusedWays (row : Row c) : c.Ways := fun w => !(row w).fetch && !(row w).valid

def cleanWays (row : Row c) : c.Ways := fun w => !(row w).fetch && (row w).valid && !(row w).dirty

def dirtyWays (row : Row c) : c.Ways := fun w => !(row w).fetch && (row w).valid && (row w).dirty

-- `preferred` are the ways that the policy itself would take.
def selVictim (row : Row c) (preferred : c.Ways) : c.Ways :=
  if any (unusedWays row) then prio (unusedWays row)
  else if any preferred then prio preferred
  else if any (cleanWays row) then prio (cleanWays row)
  else if any (dirtyWays row) then prio (dirtyWays row)
  else fun _ => false

def plruWays (q : BitVec c.setWidth → c.Ways) (row : Row c) (set : BitVec c.setWidth) : c.Ways :=
  fun w => !(row w).fetch && (row w).valid && !q set w

-- When all bits of a set would be set, only that of the way that is used stays.
def plru : Policy c (BitVec c.setWidth → c.Ways) where
  way q row set := selVictim row (plruWays q row set)
  next q updt _ _ :=
    match updt with
    | some u =>
      let bits := fun w => q u.set w || u.way w
      Function.update q u.set (if any fun w => !bits w then bits else u.way)
    | none => q

-- hpdcache_lfsr_sarg with eight bits
def lfsr (q : BitVec 8) : BitVec 8 := if q.getLsbD 0 then q >>> 1 ^^^ 0xE1 else q >>> 1

def randWays (wayIndexWidth : Nat) (q : BitVec 8) (row : Row c) : c.Ways :=
  fun w => !(row w).fetch && (row w).valid && decide ((q.setWidth wayIndexWidth).toNat = w.val)

def random (wayIndexWidth : Nat) : Policy c (BitVec 8) where
  way q row _ := selVictim row (randWays wayIndexWidth q row)
  next q _ sel row := if sel && !any (unusedWays row) && any (randWays wayIndexWidth q row) then lfsr q else q

def direct : Policy c Unit where
  way _ _ _ := fun _ => true
  next q _ _ _ := q

-- What every policy of a cache with several ways keeps to: a way that is not being fetched, one that holds nothing where there is one
structure Careful {ν : Type} (policy : Policy c ν) : Prop where
  one : ∀ q row set, (any (policy.way q row set) = true ↔ ∃ w, (row w).fetch = false) ∧
    (any (policy.way q row set) = true → ∃ w, policy.way q row set = oneHot w ∧ (row w).fetch = false ∧
      ((∃ other, (row other).fetch = false ∧ (row other).valid = false) → (row w).valid = false))

variable {row : Row c} {preferred : c.Ways}

theorem selVictim_careful (within : ∀ w, preferred w = true → (row w).fetch = false ∧ (row w).valid = true) :
    (any (selVictim row preferred) = true ↔ ∃ w, (row w).fetch = false) ∧
      (any (selVictim row preferred) = true → ∃ w, selVictim row preferred = oneHot w ∧ (row w).fetch = false ∧
        ((∃ other, (row other).fetch = false ∧ (row other).valid = false) → (row w).valid = false)) := by
  have some' : ∀ {v : c.Ways} {w}, any v = true → prio v = oneHot w → any (prio v) = true := by
    intro v w _ chosen
    rw [chosen,any_true]
    exact ⟨w,oneHot_true.mpr rfl⟩
  unfold selVictim
  split_ifs with unused preferred' clean dirty
  · obtain ⟨w,here,_,chosen⟩ := prio_first unused
    simp only [unusedWays,Bool.and_eq_true,Bool.not_eq_true'] at here
    exact ⟨⟨fun _ => ⟨w,here.1⟩,fun _ => some' unused chosen⟩,fun _ => ⟨w,chosen,here.1,fun _ => here.2⟩⟩
  all_goals
    have full : ∀ other, (row other).fetch = false → (row other).valid = true := by
      intro other free
      by_contra empty
      exact unused (any_true.mpr ⟨other,by simp [unusedWays,free,empty]⟩)
    have none' : ∀ {w}, (∃ other, (row other).fetch = false ∧ (row other).valid = false) → (row w).valid = false := by
      rintro w ⟨other,free,empty⟩
      rw [full other free] at empty
      cases empty
  · obtain ⟨w,here,_,chosen⟩ := prio_first preferred'
    have free := (within w here).1
    exact ⟨⟨fun _ => ⟨w,free⟩,fun _ => some' preferred' chosen⟩,fun _ => ⟨w,chosen,free,none'⟩⟩
  · obtain ⟨w,here,_,chosen⟩ := prio_first clean
    simp only [cleanWays,Bool.and_eq_true,Bool.not_eq_true'] at here
    exact ⟨⟨fun _ => ⟨w,here.1.1⟩,fun _ => some' clean chosen⟩,fun _ => ⟨w,chosen,here.1.1,none'⟩⟩
  · obtain ⟨w,here,_,chosen⟩ := prio_first dirty
    simp only [dirtyWays,Bool.and_eq_true,Bool.not_eq_true'] at here
    exact ⟨⟨fun _ => ⟨w,here.1.1⟩,fun _ => some' dirty chosen⟩,fun _ => ⟨w,chosen,here.1.1,none'⟩⟩
  · refine ⟨⟨fun some'' => by simp at some'',fun ⟨w,free⟩ => ?_⟩,fun some'' => by simp at some''⟩
    cases spent : (row w).dirty with
    | false => exact absurd (any_true.mpr ⟨w,by simp [cleanWays,free,full w free,spent]⟩) clean
    | true => exact absurd (any_true.mpr ⟨w,by simp [dirtyWays,free,full w free,spent]⟩) dirty

theorem plru_careful : Careful (plru (c := c)) := by
  refine ⟨fun q row set => selVictim_careful fun w inside => ?_⟩
  simp only [plruWays,Bool.and_eq_true,Bool.not_eq_true'] at inside
  exact inside.1

theorem random_careful (wayIndexWidth : Nat) : Careful (random (c := c) wayIndexWidth) := by
  refine ⟨fun q row set => selVictim_careful fun w inside => ?_⟩
  simp only [randWays,Bool.and_eq_true,Bool.not_eq_true'] at inside
  exact inside.1

end Victim

structure State (c : Cfg) (ν : Type) where
  init : Bool
  initSet : BitVec c.setWidth
  reqSet : BitVec c.setWidth
  reqWay : c.Ways
  ram : Fin c.ways → Sram (BitVec c.setWidth) (DirEntry c)
  victim : ν

structure Write (c : Cfg) where
  set : BitVec c.setWidth
  way : c.Ways
  entry : DirEntry c

-- dir_match_i, dir_amo_match_i and so on: who asks for the directory
structure Input (c : Cfg) where
  matchSet : Option (BitVec c.setWidth)
  amoMatchSet : Option (BitVec c.setWidth)
  refill : Option (Write c)
  invalCheck : Bool
  invalWrite : Bool
  invalNline : c.Nline
  cmoCheckNlineSet : Option (BitVec c.setWidth)
  cmoCheckEntry : Option (BitVec c.setWidth × c.Ways)
  cmoUpdt : Option (Write c)
  updt : Option (Write c)
  victimUpdt : Option (VictimUpdt c)
  victimSel : Bool

structure Access (c : Cfg) where
  addr : BitVec c.setWidth
  cs : c.Ways
  we : c.Ways
  entry : DirEntry c

variable {c : Cfg} {ν : Type}

def blankEntry : DirEntry c := ⟨false,false,false,false,0⟩

def reset (ram : Fin c.ways → Sram (BitVec c.setWidth) (DirEntry c)) (victim : ν) : State c ν where
  init := false
  initSet := 0
  reqSet := 0
  reqWay _ := false
  ram := ram
  victim := victim

variable (policy : Policy c ν) (s : State c ν) (i : Input c)

namespace State

def ready : Bool := s.init

def row : Row c := fun w => (s.ram w).out

-- dir_hit_way_o, dir_amo_hit_way_o and the others: they differ in the tag.
def hitWay (tag : BitVec c.tagWidth) : c.Ways := fun w => (s.row w).valid && decide ((s.row w).tag = tag)

def read (set : BitVec c.setWidth) : Access c := ⟨set,fun _ => true,fun _ => false,blankEntry⟩

def write (w : Write c) : Access c := ⟨w.set,w.way,w.way,w.entry⟩

def ctrl : Access c :=
  if !s.init then ⟨s.initSet,fun _ => true,fun _ => true,blankEntry⟩
  else match i.matchSet with
  | some set => read set
  | none => match i.amoMatchSet with
  | some set => read set
  | none => match i.refill with
  | some w => write w
  | none =>
    if i.invalCheck then read (lineSet i.invalNline)
    else if i.invalWrite then write ⟨lineSet i.invalNline,s.hitWay (lineTag i.invalNline),blankEntry⟩
    else match i.cmoCheckNlineSet with
    | some set => read set
    | none => match i.cmoCheckEntry with
    | some (set,way) => ⟨set,way,fun _ => false,blankEntry⟩
    | none => match i.cmoUpdt with
    | some w => write w
    | none => match i.updt with
    | some w => write w
    | none => ⟨s.reqSet,fun _ => false,fun _ => false,blankEntry⟩

-- dir_cmo_check_entry_*_o
def checkedValid : Bool := any fun w => s.reqWay w && (s.row w).valid

def checkedWback : Bool := any fun w => s.reqWay w && (s.row w).wback

def checkedDirty : Bool := any fun w => s.reqWay w && (s.row w).dirty

-- hpdcache_mux_sarg with ONE_HOT_SEL
def mux (way : c.Ways) : BitVec c.tagWidth := ((((List.finRange c.ways).find? way).map fun w => (s.row w).tag)).getD 0

def checkedTag : BitVec c.tagWidth := s.mux s.reqWay

end State

def next : State c ν where
  init := s.init || decide (s.initSet.toNat = c.sets - 1)
  initSet := if s.init then s.initSet else s.initSet + 1
  reqSet := if i.matchSet.isSome || i.amoMatchSet.isSome || i.cmoCheckNlineSet.isSome || i.invalCheck then (s.ctrl i).addr else s.reqSet
  reqWay := match i.cmoCheckEntry with
    | some (_,way) => way
    | none => s.reqWay
  ram w := (s.ram w).step ((s.ctrl i).cs w) ((s.ctrl i).we w) true (s.ctrl i).addr (s.ctrl i).entry
  victim := policy.next s.victim i.victimUpdt i.victimSel s.row

def contents (set : BitVec c.setWidth) : Row c := fun way => (s.ram way).mem set

-- Only the handler of the cache management operations has the directory.
structure Silent : Prop where
  matchSet : i.matchSet = none
  amoMatchSet : i.amoMatchSet = none
  refill : i.refill = none
  invalCheck : i.invalCheck = false
  invalWrite : i.invalWrite = false
  updt : i.updt = none

variable {P : Policy c ν} {s i} (ready : s.init = true) (silent : Silent i)

section Silent

include ready silent

theorem silent_ctrl : s.ctrl i =
    match i.cmoCheckNlineSet with
    | some set => State.read set
    | none => match i.cmoCheckEntry with
    | some (set,way) => ⟨set,way,fun _ => false,blankEntry⟩
    | none => match i.cmoUpdt with
    | some w => State.write w
    | none => ⟨s.reqSet,fun _ => false,fun _ => false,blankEntry⟩ := by
  simp only [State.ctrl,ready,silent.matchSet,silent.amoMatchSet,silent.refill,silent.invalCheck,silent.invalWrite,silent.updt,
    Bool.not_true,Bool.false_eq_true,if_false]

theorem checkNline_next {set : BitVec c.setWidth} (checks : i.cmoCheckNlineSet = some set) :
    contents (next P s i) = contents s ∧ (next P s i).row = contents s set := by
  have ctrl : s.ctrl i = State.read set := by rw [silent_ctrl ready silent,checks]
  constructor <;> funext <;> simp [contents,next,ctrl,State.read,State.row]

theorem checkEntry_next {set : BitVec c.setWidth} {way : c.Ways} (other : i.cmoCheckNlineSet = none)
    (checks : i.cmoCheckEntry = some (set,way)) :
    contents (next P s i) = contents s ∧ (next P s i).reqWay = way ∧
      ∀ w, way w = true → (next P s i).row w = contents s set w := by
  have ctrl : s.ctrl i = ⟨set,way,fun _ => false,blankEntry⟩ := by rw [silent_ctrl ready silent,other,checks]
  refine ⟨?_,by simp [next,checks],fun w inside => ?_⟩
  · funext
    simp [contents,next,ctrl]
  · simp [contents,next,ctrl,State.row,inside]

theorem updt_next (noNline : i.cmoCheckNlineSet = none) (noEntry : i.cmoCheckEntry = none) (set : BitVec c.setWidth) (way : Fin c.ways) :
    contents (next P s i) set way =
      match i.cmoUpdt with
      | some w => if set = w.set ∧ w.way way = true then w.entry else contents s set way
      | none => contents s set way := by
  have ctrl := silent_ctrl ready silent
  rw [noNline,noEntry] at ctrl
  cases writes : i.cmoUpdt with
  | none => simp [contents,next,ctrl,writes]
  | some w =>
    rw [writes] at ctrl
    cases here : w.way way with
    | false => simp [contents,next,ctrl,State.write,here]
    | true => simp [contents,next,ctrl,State.write,here,Function.update_apply]

end Silent

end Sargantana.CacheDirectory
