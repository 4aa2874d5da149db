import Sargantana.BscMmu
import Sargantana.TlbAgreement

-- Which page table entries the walker and the TLBs let an access use, over any memory.
namespace Sargantana.PteValidation
open MmuPkg StateMachine BscMmu TlbAgreement

-- `read` is the entry that the walker read last, with its level, `held` those that the entries of the
-- TLBs come from, and `cached` those of the cache of the walker. They only watch.
structure State where
  mmu : BscMmu.State
  read : BitVec 64 × Nat
  held : Side → Fin 8 → BitVec 64 × Nat
  cached : Fin 3 → BitVec 64

def takes (s : BscMmu.State) (i : BscMmu.Input) : Bool := decide (s.ptw.fsm = .wait) && !i.respNack && i.respValid

def writes (s : BscMmu.State) (i : BscMmu.Input) (side : Side) : Bool := Tlb.writeTlb (tlb s side) (tlbInput s i side)

def next (s : State) (i : BscMmu.Input) : State where
  mmu := BscMmu.next s.mmu i
  read := if takes s.mmu i then (i.respData,s.mmu.ptw.count) else s.read
  held side j := if writes s.mmu i side ∧ j = (tlb s.mmu side).tlbReqTmp.writeIdx then s.read else s.held side j
  cached j := if Ptw.fills s.mmu.ptw (ptwInput s.mmu i) ∧ j = Ptw.fillIdx s.mmu.ptw then i.respData else s.cached j

-- Any requests, any memory and any invalidations
def machine : Machine State BscMmu.Input := ⟨⟨BscMmu.reset,(0,0),fun _ _ => (0,0),fun _ => 0⟩,fun _ _ => True,next⟩

-- The word that the walker acts on: it comes from memory or from the cache.
def used (s : State) (i : BscMmu.Input) : Option (BitVec 64 × Nat) :=
  if takes s.mmu i then some (i.respData,s.mmu.ptw.count)
  else if s.mmu.ptw.fsm = .req ∧ Ptw.skips s.mmu.ptw = true then
    (Ptw.hitIdx s.mmu.ptw).map fun j => (s.cached j,s.mmu.ptw.count)
  else none

def goesOn (s : State) (i : BscMmu.Input) : Bool :=
  decide ((next s i).mmu.ptw.fsm = .req) && decide ((next s i).mmu.ptw.count = s.mmu.ptw.count + 1)

def flag (a : Sv39.Access) (s : Tlb.State) (i : Tlb.Input) : Bool :=
  match a with
  | .fetch => Tlb.xcptIf s i
  | .load => Tlb.xcptLd s i
  | .store => Tlb.xcptSt s i

section
variable (s : State) (i : BscMmu.Input) (side : Side) (a : Sv39.Access)

-- The word and the level behind the answer to an access
def source : BitVec 64 × Nat := s.held side (Tlb.hitIdx (tlb s.mmu side) (tlbInput s.mmu i side))

def hit : Bool := Tlb.hitCam (tlb s.mmu side) (tlbInput s.mmu i side)

-- The page fault that the architecture wants; nothing is known of a page that misses.
def owed : Bool :=
  let p := tlbInput s.mmu i side
  hit s i side && Sv39.faults (Sv39.ending (source s i side).1 (source s i side).2) (Tlb.svPrivLvl p) p.ptw.sum p.ptw.mxr a

structure Judged : Prop where
  fault : flag a (tlb s.mmu side) (tlbInput s.mmu i side) = owed s i side a
  page : hit s i side = true → owed s i side a = false →
    (Tlb.respPpn (tlb s.mmu side) (tlbInput s.mmu i side)).toNat =
      Sv39.physical (source s i side).1 (source s i side).2 ((tlbInput s.mmu i side).req.vpn.setWidth 27).toNat

end

-- The leaves that an access is allowed to use against the architecture, or at the wrong page: it has the
-- permissions of one with reserved bits, or may use one that is writable but not readable, or one whose
-- page is behind the forty bits of pte_addr.
def Misjudged (word : BitVec 64) (level : Nat) (supervisor sum mxr : Bool) (a : Sv39.Access) : Prop :=
  Sv39.V word = true ∧ (Sv39.R word || Sv39.W word || Sv39.X word) = true ∧ Sv39.ppn word % Sv39.span level = 0 ∧
    ((Sv39.reserved word = true ∧ Sv39.grants word supervisor sum mxr a = true) ∨
      (Sv39.reserved word = false ∧ Sv39.permits word supervisor sum mxr a = true ∧
        ((Sv39.W word = true ∧ Sv39.R word = false) ∨ 2 ^ 28 ≤ Sv39.ppn word)))

-- On a miss the flags are those of entry 0.
def blames (a : Sv39.Access) (s : Tlb.State) (i : Tlb.Input) : Bool :=
  Tlb.accessIsZero (s.entries 0) || (decide (a = .store) && Tlb.dirtyIsZero (s.entries 0) i)

def Sound (s : State) (i : BscMmu.Input) (side : Side) (a : Sv39.Access) : Prop :=
  if hit s i side then
    ¬ Misjudged (source s i side).1 (source s i side).2 (Tlb.svPrivLvl (tlbInput s.mmu i side)) (tlbInput s.mmu i side).ptw.sum
      (tlbInput s.mmu i side).ptw.mxr a
  else blames a (tlb s.mmu side) (tlbInput s.mmu i side) = false

-- A word that points to a table, with bits that are not zero there
def malformed (word : BitVec 64) : Bool := Sv39.reserved word || Sv39.D word || Sv39.A word || Sv39.U word

-- A translated access of a kind that one entry at most matches
structure Presents (s : BscMmu.State) (i : BscMmu.Input) (side : Side) (a : Sv39.Access) : Prop where
  on : (tlbInput s i side).vmEnable = true
  plain : (tlbInput s i side).req.passthrough = false
  kind : (tlbInput s i side).req.store = decide (a = .store)
  alone : ∀ j k, Tlb.hitsCam (tlb s side) (tlbInput s i side) j = true → Tlb.hitsCam (tlb s side) (tlbInput s i side) k = true → j = k

def asks (s : BscMmu.State) (side : Side) (p : Tlb.CacheReq) : Prop :=
  p.asid = (tlb s side).tlbReqTmp.asid ∧ p.vpn.setWidth 27 = (tlb s side).tlbReqTmp.vpn

structure Validates (s : State) (i : BscMmu.Input) : Prop where
  -- what the walker acts on
  walk : ∀ w, used s i = some w →
    ((goesOn s i = Sv39.descends w.1 w.2 ∧ (goesOn s i = true → (next s i).mmu.ptw.rPte.ppn.toNat = Sv39.ppn w.1)) ↔
      (takes s.mmu i = true ∨ malformed w.1 = false))
  -- the answer of a walk is there in the next cycle
  fresh : ∀ side, writes s.mmu i side = true → i.flush = false → ∀ j : BscMmu.Input,
    asks s.mmu side (tlbInput (next s i).mmu j side).req →
    hit (next s i) j side = true ∧ source (next s i) j side = s.read ∧
      ∀ k l, Tlb.hitsCam (tlb (next s i).mmu side) (tlbInput (next s i).mmu j side) k = true →
        Tlb.hitsCam (tlb (next s i).mmu side) (tlbInput (next s i).mmu j side) l = true → k = l
  -- what an access is told
  answer : ∀ side a, Presents s.mmu i side a → (Judged s i side a ↔ Sound s i side a)

-- What the words beside the machine are the words of
structure Holds (s : State) : Prop where
  low : s.mmu.ptw.count ≤ 2
  answered : s.mmu.ptw.fsm = .done ∨ s.mmu.ptw.fsm = .error →
    Ptw.resp s.mmu.ptw = respOf s.mmu.ptw.rReq.vpn s.read.1 s.read.2 ∧ s.read.2 ≤ 2
  cached : ∀ j, (s.mmu.ptw.cache j).valid = true → Ptw.isPteTable (Ptw.pteOf (s.cached j) 0) = true ∧
    (s.mmu.ptw.cache j).data = (Ptw.pteOf (s.cached j) 0).ppn
  held : ∀ side j, ((tlb s.mmu side).entries j).nempty = true →
    (∃ tmp vpn, (tlb s.mmu side).entries j = Tlb.filled tmp (respOf vpn (s.held side j).1 (s.held side j).2)) ∧ (s.held side j).2 ≤ 2
  pending : ∀ side, (tlb s.mmu side).fsm = .sendRequest ∨ (tlb s.mmu side).fsm = .waitResponse → ∀ j,
    Tlb.hitsEntry ((tlb s.mmu side).entries j) (tlb s.mmu side).tlbReqTmp.asid (tlb s.mmu side).tlbReqTmp.vpn = false

variable {s : State} {i : BscMmu.Input} {side : Side} {a : Sv39.Access}

theorem takes_parts : takes s.mmu i = true ↔ s.mmu.ptw.fsm = .wait ∧ i.respNack = false ∧ i.respValid = true := by
  rw [takes,Bool.and_eq_true,Bool.and_eq_true,decide_eq_true_eq,Bool.not_eq_true',and_assoc]

theorem taken_fsm (taken : takes s.mmu i = true) : (next s i).mmu.ptw.fsm =
    if Sv39.descends i.respData s.mmu.ptw.count then .req
    else if Ptw.invalidPte i.respData s.mmu.ptw.count || !Ptw.isPteLeaf (Ptw.pteOf i.respData s.mmu.ptw.count) then .error
    else .done := by
  obtain ⟨waits,plain,came⟩ := takes_parts.mp taken
  change Ptw.nextFsm s.mmu.ptw (ptwInput s.mmu i) = _
  have nack : (ptwInput s.mmu i).respNack = false := plain
  have valid : (ptwInput s.mmu i).respValid = true := came
  have data : (ptwInput s.mmu i).respData = i.respData := rfl
  simp only [Ptw.nextFsm,waits,nack,valid,data,descends_walks,Bool.false_eq_true,if_false,if_true]
  cases Ptw.invalidPte i.respData s.mmu.ptw.count <;> cases Ptw.isPteTable (Ptw.pteOf i.respData s.mmu.ptw.count) <;>
    cases decide (s.mmu.ptw.count < 2) <;> cases Ptw.isPteLeaf (Ptw.pteOf i.respData s.mmu.ptw.count) <;> simp

theorem taken_count (taken : takes s.mmu i = true) : (next s i).mmu.ptw.count =
    if Sv39.descends i.respData s.mmu.ptw.count then s.mmu.ptw.count + 1 else s.mmu.ptw.count := by
  obtain ⟨waits,plain,came⟩ := takes_parts.mp taken
  change Ptw.nextCount s.mmu.ptw (ptwInput s.mmu i) = _
  have nack : (ptwInput s.mmu i).respNack = false := plain
  have valid : (ptwInput s.mmu i).respValid = true := came
  have data : (ptwInput s.mmu i).respData = i.respData := rfl
  simp only [Ptw.nextCount,waits,nack,valid,data,descends_walks,Bool.false_eq_true,if_false,Bool.true_and]

theorem taken_pte (taken : takes s.mmu i = true) : (next s i).mmu.ptw.rPte = Ptw.pteOf i.respData s.mmu.ptw.count := by
  obtain ⟨waits,_,came⟩ := takes_parts.mp taken
  change Ptw.nextPte s.mmu.ptw (ptwInput s.mmu i) = _
  exact if_pos ⟨waits,came⟩

theorem answers_taken (ends : (next s i).mmu.ptw.fsm = .done ∨ (next s i).mmu.ptw.fsm = .error) :
    takes s.mmu i = true ∧ Sv39.descends i.respData s.mmu.ptw.count = false := by
  have taken : takes s.mmu i = true := by
    change Ptw.nextFsm s.mmu.ptw (ptwInput s.mmu i) = _ ∨ Ptw.nextFsm s.mmu.ptw (ptwInput s.mmu i) = _ at ends
    have nack : (ptwInput s.mmu i).respNack = i.respNack := rfl
    have valid : (ptwInput s.mmu i).respValid = i.respValid := rfl
    rw [takes_parts]
    unfold Ptw.nextFsm at ends
    cases fsm : s.mmu.ptw.fsm with
    | ready =>
        rw [fsm] at ends
        dsimp only at ends
        split at ends <;> rcases ends with no | no <;> cases no
    | req =>
        rw [fsm] at ends
        dsimp only at ends
        split at ends
        · rcases ends with no | no <;> cases no
        · split at ends <;> rcases ends with no | no <;> cases no
    | wait =>
        rw [fsm,nack,valid] at ends
        dsimp only at ends
        cases refused : i.respNack with
        | true =>
            rw [refused] at ends
            rcases ends with no | no <;> cases no
        | false =>
            cases came : i.respValid with
            | true => exact ⟨rfl,rfl,rfl⟩
            | false =>
                rw [refused,came] at ends
                rcases ends with no | no <;> cases no
    | done =>
        rw [fsm] at ends
        rcases ends with no | no <;> cases no
    | error =>
        rw [fsm] at ends
        rcases ends with no | no <;> cases no
  refine ⟨taken,?_⟩
  rw [Bool.eq_false_iff]
  intro down
  rw [taken_fsm taken,if_pos down] at ends
  rcases ends with no | no <;> cases no

theorem answered_next (holds : Holds s) (ends : (next s i).mmu.ptw.fsm = .done ∨ (next s i).mmu.ptw.fsm = .error) :
    Ptw.resp (next s i).mmu.ptw = respOf (next s i).mmu.ptw.rReq.vpn (next s i).read.1 (next s i).read.2 ∧ (next s i).read.2 ≤ 2 := by
  obtain ⟨taken,stops⟩ := answers_taken ends
  have read : (next s i).read = (i.respData,s.mmu.ptw.count) := if_pos taken
  have fsm := taken_fsm taken
  have count := taken_count taken
  rw [stops,if_neg Bool.false_ne_true] at fsm count
  rw [read]
  refine ⟨?_,holds.low⟩
  rw [Ptw.resp,respOf,taken_pte taken,fsm,count]
  cases Ptw.invalidPte i.respData s.mmu.ptw.count || !Ptw.isPteLeaf (Ptw.pteOf i.respData s.mmu.ptw.count) <;> rfl

theorem low_next (low : s.mmu.ptw.count ≤ 2) : (next s i).mmu.ptw.count ≤ 2 := by
  change Ptw.nextCount s.mmu.ptw (ptwInput s.mmu i) ≤ 2
  unfold Ptw.nextCount
  split
  · exact Nat.zero_le _
  · split
    · rename_i skip
      rw [Ptw.skips,Bool.and_eq_true,decide_eq_true_eq] at skip
      exact skip.2
    · exact low
  · split
    · exact low
    · split
      · rename_i goes
        simp only [Bool.and_eq_true,decide_eq_true_eq] at goes
        exact goes.2
      · exact low
  · exact low

theorem cached_next (holds : Holds s) (j : Fin 3) (valid : ((next s i).mmu.ptw.cache j).valid = true) :
    Ptw.isPteTable (Ptw.pteOf ((next s i).cached j) 0) = true ∧
      ((next s i).mmu.ptw.cache j).data = (Ptw.pteOf ((next s i).cached j) 0).ppn := by
  have cells : (next s i).mmu.ptw.cache = Ptw.nextCache s.mmu.ptw (ptwInput s.mmu i) := rfl
  have words : (next s i).cached j =
      if Ptw.fills s.mmu.ptw (ptwInput s.mmu i) ∧ j = Ptw.fillIdx s.mmu.ptw then i.respData else s.cached j := rfl
  rw [cells,Ptw.nextCache] at valid
  rw [cells,words,Ptw.nextCache]
  by_cases fills : Ptw.fills s.mmu.ptw (ptwInput s.mmu i) = true
  · rw [if_pos fills] at valid ⊢
    by_cases here : j = Ptw.fillIdx s.mmu.ptw
    · rw [if_pos ⟨fills,here⟩,here,Function.update_self]
      unfold Ptw.fills at fills
      simp only [Bool.and_eq_true] at fills
      exact ⟨(PtwCache.isPteTable_level _ _).symm.trans fills.1.2,rfl⟩
    · rw [if_neg fun both => here both.2]
      rw [Function.update_of_ne here] at valid ⊢
      exact holds.cached j valid
  · rw [if_neg fills] at valid ⊢
    rw [if_neg fun both => fills both.1]
    split at valid
    · rename_i touches
      rw [if_pos touches]
      exact holds.cached j valid
    · rename_i quiet
      rw [if_neg quiet]
      split at valid
      · cases valid
      · rename_i still
        rw [if_neg still]
        exact holds.cached j valid

-- The walker acts as the architecture does, but on a malformed word that it has cached.
theorem walk_right (holds : Holds s) (w : BitVec 64 × Nat) (acts : used s i = some w) :
    (goesOn s i = Sv39.descends w.1 w.2 ∧ (goesOn s i = true → (next s i).mmu.ptw.rPte.ppn.toNat = Sv39.ppn w.1)) ↔
      (takes s.mmu i = true ∨ malformed w.1 = false) := by
  unfold used at acts
  split at acts
  · rename_i taken
    obtain rfl := Option.some.inj acts
    refine iff_of_true ⟨?_,?_⟩ (.inl taken)
    · rw [goesOn,taken_fsm taken,taken_count taken]
      cases Sv39.descends i.respData s.mmu.ptw.count with
      | true => simp
      | false =>
          rw [if_neg Bool.false_ne_true]
          split <;> rfl
    · intro _
      rw [taken_pte taken]
      exact pte_ppn _ _
  · rename_i quiet
    split at acts
    · rename_i goes
      obtain ⟨asks,skips⟩ := goes
      obtain ⟨j,found,rfl⟩ := Option.map_eq_some_iff.mp acts
      obtain ⟨table,data⟩ := holds.cached j (PtwCache.hitIdx_some found).1
      have more : s.mmu.ptw.count < 2 := by
        rw [Ptw.skips,Bool.and_eq_true,decide_eq_true_eq] at skips
        exact skips.2
      have on : goesOn s i = true := by
        have fsm : (next s i).mmu.ptw.fsm = .req := by
          change Ptw.nextFsm s.mmu.ptw (ptwInput s.mmu i) = _
          simp only [Ptw.nextFsm,asks,skips,if_true]
        have count : (next s i).mmu.ptw.count = s.mmu.ptw.count + 1 := by
          change Ptw.nextCount s.mmu.ptw (ptwInput s.mmu i) = _
          simp only [Ptw.nextCount,asks,skips,if_true]
        rw [goesOn,fsm,count,decide_eq_true rfl,decide_eq_true rfl,Bool.and_self]
      have page : (next s i).mmu.ptw.rPte.ppn = (Ptw.pteOf (s.cached j) 0).ppn := by
        have pte : (next s i).mmu.ptw.rPte = { s.mmu.ptw.rPte with ppn := Ptw.pteCacheData s.mmu.ptw } := by
          change Ptw.nextPte s.mmu.ptw (ptwInput s.mmu i) = _
          rw [Ptw.nextPte,if_neg (by rw [asks]; exact fun both => Ptw.Fsm.noConfusion both.1),if_pos ⟨asks,skips⟩]
        rw [pte,← data]
        change Ptw.pteCacheData s.mmu.ptw = _
        rw [Ptw.pteCacheData,found]
        rfl
      have down : Sv39.descends (s.cached j) s.mmu.ptw.count = !malformed (s.cached j) := by
        rw [pte_table] at table
        rw [Sv39.descends,malformed,decide_eq_true more]
        revert table
        cases Sv39.V (s.cached j) <;> cases Sv39.R (s.cached j) <;> cases Sv39.W (s.cached j) <;> cases Sv39.X (s.cached j) <;>
          cases Sv39.reserved (s.cached j) <;> simp
      rw [on,down,page,pte_ppn]
      cases malformed (s.cached j) <;> simp [quiet]
    · cases acts

theorem resp_port (side : Side) : (tlbInput s.mmu i side).ptw.resp = if s.mmu.arb.fsm = serving side then Ptw.resp s.mmu.ptw else .zero := by
  cases side <;> rfl

theorem writes_resp (holds : Holds s) (write : writes s.mmu i side = true) : (tlb s.mmu side).fsm = .waitResponse ∧
    (∃ vpn, (tlbInput s.mmu i side).ptw.resp = respOf vpn s.read.1 s.read.2) ∧ s.read.2 ≤ 2 := by
  unfold writes Tlb.writeTlb at write
  rw [Bool.and_eq_true,decide_eq_true_eq] at write
  obtain ⟨waits,came⟩ := write
  rw [resp_port] at came ⊢
  split at came
  · rename_i serves
    rw [if_pos serves]
    have ends : s.mmu.ptw.fsm = .done ∨ s.mmu.ptw.fsm = .error := by
      simpa only [Ptw.resp,Bool.or_eq_true,decide_eq_true_eq] using came
    obtain ⟨answer,low⟩ := holds.answered ends
    exact ⟨waits,⟨_,answer⟩,low⟩
  · cases came

theorem held_kept (quiet : writes s.mmu i side = false) (j : Fin 8) : (next s i).held side j = s.held side j :=
  if_neg fun both => Bool.false_ne_true (quiet.symm.trans both.1)

theorem written_entries (holds : Holds s) (write : writes s.mmu i side = true) (stays : (tlbInput s.mmu i side).ptw.invalidateTlb = false) :
    ∃ vpn, (Tlb.next (tlb s.mmu side) (tlbInput s.mmu i side)).entries =
      Function.update (tlb s.mmu side).entries (tlb s.mmu side).tlbReqTmp.writeIdx
        (Tlb.filled (tlb s.mmu side).tlbReqTmp (respOf vpn s.read.1 s.read.2)) := by
  obtain ⟨waits,⟨vpn,answer⟩,_⟩ := writes_resp holds write
  have idle : Tlb.cleanTlb (tlb s.mmu side) (tlbInput s.mmu i side) = false := by
    rw [Tlb.cleanTlb,waits]
    rfl
  have cells := write_entries (s := tlb s.mmu side) write (by rw [stays,idle]; exact Bool.false_ne_true)
  exact ⟨vpn,answer ▸ cells⟩

theorem held_next (holds : Holds s) (side : Side) (j : Fin 8) (some' : ((tlb (next s i).mmu side).entries j).nempty = true) :
    (∃ tmp vpn, (tlb (next s i).mmu side).entries j =
      Tlb.filled tmp (respOf vpn ((next s i).held side j).1 ((next s i).held side j).2)) ∧ ((next s i).held side j).2 ≤ 2 := by
  have step : tlb (next s i).mmu side = Tlb.next (tlb s.mmu side) (tlbInput s.mmu i side) := tlb_next side
  rw [step] at some' ⊢
  cases write : writes s.mmu i side with
  | false =>
      rw [held_kept write]
      rcases Tlb.entries_shrink (s := tlb s.mmu side) (.inr write) j with gone | same
      · rw [gone] at some'
        cases some'
      · rw [same] at some' ⊢
        exact holds.held side j some'
  | true =>
      obtain ⟨_,_,low⟩ := writes_resp holds write
      cases clear : (tlbInput s.mmu i side).ptw.invalidateTlb with
      | true =>
          -- an invalidation comes before the write
          have gone : (Tlb.next (tlb s.mmu side) (tlbInput s.mmu i side)).entries j = .zero := by
            change Tlb.nextEntries _ _ j = _
            rw [Tlb.nextEntries,clear,Bool.true_or,if_pos rfl,Tlb.clears,clear,Bool.true_or,if_pos rfl]
          rw [gone] at some'
          cases some'
      | false =>
          obtain ⟨vpn,cells⟩ := written_entries holds write clear
          rw [cells] at some' ⊢
          by_cases here : j = (tlb s.mmu side).tlbReqTmp.writeIdx
          · have fresh : (next s i).held side j = s.read := if_pos ⟨write,here⟩
            rw [fresh,here,Function.update_self]
            exact ⟨⟨_,vpn,rfl⟩,low⟩
          · have old : (next s i).held side j = s.held side j := if_neg fun both => here both.2
            rw [old]
            rw [Function.update_of_ne here] at some' ⊢
            exact holds.held side j some'

theorem request_missed (holds : Holds s) (side : Side)
    (busy : (tlb (next s i).mmu side).fsm = .sendRequest ∨ (tlb (next s i).mmu side).fsm = .waitResponse) (j : Fin 8) :
    Tlb.hitsEntry ((tlb (next s i).mmu side).entries j) (tlb (next s i).mmu side).tlbReqTmp.asid (tlb (next s i).mmu side).tlbReqTmp.vpn =
      false := by
  have step : tlb (next s i).mmu side = Tlb.next (tlb s.mmu side) (tlbInput s.mmu i side) := tlb_next side
  rw [step] at busy ⊢
  obtain ⟨quiet,missed⟩ := pending_next (holds.pending side) busy
  exact kept_misses quiet (missed j)

theorem holds_next (holds : Holds s) : Holds (next s i) where
  low := low_next holds.low
  answered := answered_next holds
  cached := cached_next holds
  held := held_next holds
  pending := request_missed holds

theorem holds_run (inputs : Nat → BscMmu.Input) (t : Nat) : Holds (trace machine inputs t) := by
  induction t with
  | zero =>
      refine ⟨Nat.zero_le _,?_,?_,?_,?_⟩
      · rintro (ends | ends) <;> cases ends
      · intro j valid
        cases valid
      · intro side j some'
        cases side <;> cases some'
      · intro side busy
        cases side <;> rcases busy with no | no <;> cases no
  | succ t ih => exact holds_next ih

-- The walk that a TLB waits for: its entry is there in the next cycle, and no other matches.
theorem fresh_answer (holds : Holds s) (write : writes s.mmu i side = true) (quiet : i.flush = false) (j : BscMmu.Input)
    (same : asks s.mmu side (tlbInput (next s i).mmu j side).req) :
    hit (next s i) j side = true ∧ source (next s i) j side = s.read ∧
      ∀ k l, Tlb.hitsCam (tlb (next s i).mmu side) (tlbInput (next s i).mmu j side) k = true →
        Tlb.hitsCam (tlb (next s i).mmu side) (tlbInput (next s i).mmu j side) l = true → k = l := by
  obtain ⟨waits,_,low⟩ := writes_resp holds write
  have stays : (tlbInput s.mmu i side).ptw.invalidateTlb = false := by
    cases side <;> exact quiet
  have step : tlb (next s i).mmu side = Tlb.next (tlb s.mmu side) (tlbInput s.mmu i side) := tlb_next side
  obtain ⟨vpn,cells⟩ := written_entries holds write stays
  have only : ∀ k, Tlb.hitsCam (tlb (next s i).mmu side) (tlbInput (next s i).mmu j side) k = true ↔
      k = (tlb s.mmu side).tlbReqTmp.writeIdx := by
    intro k
    rw [Tlb.hitsCam,same.1,same.2,step,cells]
    by_cases here : k = (tlb s.mmu side).tlbReqTmp.writeIdx
    · rw [here,Function.update_self]
      exact iff_of_true (hitsEntry_iff.mpr ⟨rfl,rfl,low,rfl⟩) rfl
    · rw [Function.update_of_ne here,holds.pending side (.inr waits) k]
      exact iff_of_false Bool.false_ne_true here
  have found : hit (next s i) j side = true :=
    List.any_eq_true.mpr ⟨_,List.mem_finRange _,(only (tlb s.mmu side).tlbReqTmp.writeIdx).mpr rfl⟩
  refine ⟨found,?_,fun k l one two => ((only k).mp one).trans ((only l).mp two).symm⟩
  have place := (only _).mp (hitCam_entry found)
  exact if_pos ⟨write,place⟩

-- The permissions of an entry are those of its word, unless the walk took the word as not valid.
theorem perms_grant (word : BitVec 64) (v : Bool) (p : Tlb.Input) :
    let q : Tlb.Perms := ⟨Sv39.R word && Sv39.U word && v,Sv39.W word && Sv39.U word && v,Sv39.X word && Sv39.U word && v,
      Sv39.R word && !Sv39.U word && v,Sv39.W word && !Sv39.U word && v,Sv39.X word && !Sv39.U word && v⟩
    Tlb.execOk q p = (v && Sv39.grants word (Tlb.svPrivLvl p) p.ptw.sum p.ptw.mxr .fetch) ∧
      Tlb.readOk q p = (v && Sv39.grants word (Tlb.svPrivLvl p) p.ptw.sum p.ptw.mxr .load) ∧
      Tlb.writeOk q p = (v && Sv39.grants word (Tlb.svPrivLvl p) p.ptw.sum p.ptw.mxr .store) := by
  dsimp only
  simp only [Tlb.execOk,Tlb.readOk,Tlb.writeOk,Sv39.grants]
  cases v <;> cases Tlb.svPrivLvl p <;> cases p.ptw.sum <;> cases p.ptw.mxr <;> cases Sv39.U word <;> cases Sv39.R word <;>
    cases Sv39.W word <;> cases Sv39.X word <;> simp

theorem flag_word (t : Tlb.State) (p : Tlb.Input) (a : Sv39.Access) (on : p.vmEnable = true) (found : Tlb.hitCam t p = true)
    (kind : p.req.store = decide (a = .store)) {tmp : Tlb.ReqTmp} {vpn : BitVec 27} {word : BitVec 64} {level : Nat}
    (entry : Tlb.hitEntry t p = Tlb.filled tmp (respOf vpn word level)) :
    flag a t p = (!((Ptw.pteOf word level).v && Sv39.grants word (Tlb.svPrivLvl p) p.ptw.sum p.ptw.mxr a) ||
      (!(Ptw.invalidPte word level || !Ptw.isPteLeaf (Ptw.pteOf word level)) && !(Sv39.A word && (decide (a ≠ .store) || Sv39.D word)))) := by
  obtain ⟨exec,read,write⟩ := perms_grant word (Ptw.pteOf word level).v p
  have perms : (Tlb.hitEntry t p).perms = ⟨Sv39.R word && Sv39.U word && (Ptw.pteOf word level).v,
      Sv39.W word && Sv39.U word && (Ptw.pteOf word level).v,Sv39.X word && Sv39.U word && (Ptw.pteOf word level).v,
      Sv39.R word && !Sv39.U word && (Ptw.pteOf word level).v,Sv39.W word && !Sv39.U word && (Ptw.pteOf word level).v,
      Sv39.X word && !Sv39.U word && (Ptw.pteOf word level).v⟩ := by
    rw [entry]
    rfl
  rw [← perms] at exec read write
  have valid : (Tlb.hitEntry t p).valid = !(Ptw.invalidPte word level || !Ptw.isPteLeaf (Ptw.pteOf word level)) := by
    rw [entry]
    rfl
  have access : (Tlb.hitEntry t p).access = Sv39.A word := by
    rw [entry]
    rfl
  have dirty : (Tlb.hitEntry t p).dirty = Sv39.D word := by
    rw [entry]
    rfl
  have zero : Tlb.accessIsZero (Tlb.hitEntry t p) = (!Sv39.A word && (Tlb.hitEntry t p).valid) := by rw [Tlb.accessIsZero,access]
  obtain ⟨flagIf,flagLd,flagSt⟩ := flags_hit on found
  generalize (Ptw.invalidPte word level || !Ptw.isPteLeaf (Ptw.pteOf word level)) = bad at valid ⊢
  cases a with
  | fetch =>
      have opens : Tlb.storeHit (Tlb.hitEntry t p) p = true := by
        rw [Tlb.storeHit,kind]
        rfl
      rw [flag,flagIf,Tlb.tlbHit,on,found,opens,exec,zero,valid]
      cases Sv39.A word <;> cases bad <;> simp
  | load =>
      have opens : Tlb.storeHit (Tlb.hitEntry t p) p = true := by
        rw [Tlb.storeHit,kind]
        rfl
      rw [flag,flagLd,Tlb.tlbHit,on,found,opens,read,zero,valid]
      cases Sv39.A word <;> cases bad <;> simp
  | store =>
      have opens : Tlb.storeHit (Tlb.hitEntry t p) p = (Sv39.D word || !Tlb.writeOk (Tlb.hitEntry t p).perms p) := by
        rw [Tlb.storeHit,kind,dirty]
        rfl
      rw [flag,flagSt,Tlb.dirtyIsZero,opens,write,zero,valid]
      generalize ((Ptw.pteOf word level).v && Sv39.grants word (Tlb.svPrivLvl p) p.ptw.sum p.ptw.mxr .store) = g
      cases g <;> cases Sv39.A word <;> cases Sv39.D word <;> cases bad <;> simp

theorem grants_leaf {word : BitVec 64} {supervisor sum mxr : Bool} (granted : Sv39.grants word supervisor sum mxr a = true) :
    (Sv39.R word || Sv39.W word || Sv39.X word) = true := by
  unfold Sv39.grants at granted
  cases a <;> revert granted <;> cases Sv39.R word <;> cases Sv39.W word <;> cases Sv39.X word <;> simp

theorem permits_grants (word : BitVec 64) (supervisor sum mxr : Bool) (a : Sv39.Access) : Sv39.permits word supervisor sum mxr a =
    (Sv39.grants word supervisor sum mxr a && (Sv39.A word && (decide (a ≠ .store) || Sv39.D word))) := by
  unfold Sv39.permits Sv39.allows Sv39.grants
  exact Bool.and_assoc _ _ _

theorem faults_bits (word : BitVec 64) (level : Nat) (supervisor sum mxr : Bool) (a : Sv39.Access) :
    Sv39.faults (Sv39.ending word level) supervisor sum mxr a =
      !(Sv39.V word && !(Sv39.W word && !Sv39.R word) && !Sv39.reserved word && (Sv39.R word || Sv39.X word) &&
        decide (Sv39.ppn word % Sv39.span level = 0) && Sv39.permits word supervisor sum mxr a) := by
  unfold Sv39.ending
  by_cases aligned : Sv39.ppn word % Sv39.span level = 0
  · rw [if_pos aligned,decide_eq_true aligned,Bool.and_true]
    cases Sv39.V word <;> cases Sv39.W word <;> cases Sv39.R word <;> cases Sv39.X word <;> cases Sv39.reserved word <;>
      simp [Sv39.faults]
  · rw [if_neg aligned,decide_eq_false aligned,Bool.and_false,Bool.false_and]
    split
    · rfl
    · split <;> rfl

theorem faults_not {word : BitVec 64} {level : Nat} {supervisor sum mxr : Bool} :
    Sv39.faults (Sv39.ending word level) supervisor sum mxr a = false ↔
      Sv39.V word = true ∧ (Sv39.W word = true → Sv39.R word = true) ∧ Sv39.reserved word = false ∧
        (Sv39.R word || Sv39.X word) = true ∧ Sv39.ppn word % Sv39.span level = 0 ∧ Sv39.permits word supervisor sum mxr a = true := by
  rw [faults_bits,Bool.not_eq_false']
  simp only [Bool.and_eq_true,decide_eq_true_eq,and_assoc]
  cases Sv39.W word <;> cases Sv39.R word <;> cases Sv39.reserved word <;> simp

theorem fault_exact (word : BitVec 64) (level : Nat) (supervisor sum mxr : Bool) (a : Sv39.Access) :
    (!((Ptw.pteOf word level).v && Sv39.grants word supervisor sum mxr a) ||
        (!(Ptw.invalidPte word level || !Ptw.isPteLeaf (Ptw.pteOf word level)) && !(Sv39.A word && (decide (a ≠ .store) || Sv39.D word)))) =
      Sv39.faults (Sv39.ending word level) supervisor sum mxr a ↔
    ¬ (Sv39.V word = true ∧ (Sv39.R word || Sv39.W word || Sv39.X word) = true ∧ Sv39.ppn word % Sv39.span level = 0 ∧
      ((Sv39.reserved word = true ∧ Sv39.grants word supervisor sum mxr a = true) ∨
        (Sv39.reserved word = false ∧ Sv39.permits word supervisor sum mxr a = true ∧ Sv39.W word = true ∧ Sv39.R word = false))) := by
  have leaf : Sv39.grants word supervisor sum mxr a = true → (Sv39.R word || Sv39.W word || Sv39.X word) = true := grants_leaf
  have shape : Ptw.isPteLeaf (Ptw.pteOf word level) = ((Ptw.pteOf word level).v && (Sv39.X word || Sv39.W word || Sv39.R word)) := rfl
  rw [faults_bits,shape,pte_invalid,pte_valid,permits_grants]
  generalize Sv39.grants word supervisor sum mxr a = g at leaf ⊢
  generalize (Sv39.A word && (decide (a ≠ .store) || Sv39.D word)) = ready
  generalize (Sv39.D word || Sv39.A word || Sv39.U word) = marked
  generalize Sv39.ppn word % Sv39.span level = rest
  obtain ⟨aligned,same⟩ : ∃ aligned, aligned = decide (rest = 0) := ⟨_,rfl⟩
  have skewed : decide (rest ≠ 0) = !aligned := by rw [same,decide_not]
  have straight : (rest = 0) = (aligned = true) := by rw [same,decide_eq_true_eq]
  rw [skewed,← same,straight]
  generalize Sv39.V word = v
  generalize Sv39.R word = r at leaf ⊢
  generalize Sv39.W word = w at leaf ⊢
  generalize Sv39.X word = x at leaf ⊢
  generalize Sv39.reserved word = bad
  clear same skewed straight
  cases v <;> cases bad <;> cases aligned <;> revert r w x ready marked g <;> decide

theorem page_exact (t : Tlb.State) (p : Tlb.Input) (on : p.vmEnable = true) (plain : p.req.passthrough = false)
    (alone : ∀ j k, Tlb.hitsCam t p j = true → Tlb.hitsCam t p k = true → j = k) (found : Tlb.hitCam t p = true)
    {tmp : Tlb.ReqTmp} {vpn : BitVec 27} {word : BitVec 64} {level : Nat} (low : level ≤ 2)
    (entry : Tlb.hitEntry t p = Tlb.filled tmp (respOf vpn word level)) (aligned : Sv39.ppn word % Sv39.span level = 0) :
    (Tlb.respPpn t p).toNat = Sv39.physical word level (p.req.vpn.setWidth 27).toNat ↔ Sv39.ppn word < 2 ^ 28 := by
  have depth : (Tlb.hitEntry t p).level = level := by
    rw [entry]
    rfl
  have stored : (Tlb.hitEntry t p).ppn = Ptw.respPpn (Ptw.pteOf word level).ppn vpn level := by
    rw [entry]
    rfl
  rw [respPpn_level alone found on plain (depth ▸ low),depth,
    page_truncated low (by rw [pte_ppn]; exact aligned) vpn p.req.vpn stored,pte_ppn,Sv39.physical]
  omega

-- What an access is told is right exactly when its leaf is not misjudged, and on a miss when entry 0 is not blamed.
theorem answer_exact (holds : Holds s) (presents : Presents s.mmu i side a) : Judged s i side a ↔ Sound s i side a := by
  obtain ⟨on,plain,kind,alone⟩ := presents
  unfold Sound
  cases found : hit s i side with
  | false =>
      have missed : Tlb.hitCam (tlb s.mmu side) (tlbInput s.mmu i side) = false := found
      have first : Tlb.hitEntry (tlb s.mmu side) (tlbInput s.mmu i side) = (tlb s.mmu side).entries 0 := by
        have none' : (List.finRange 8).find? (Tlb.hitsCam (tlb s.mmu side) (tlbInput s.mmu i side)) = none := by
          rw [List.find?_eq_none]
          rw [Tlb.hitCam,List.any_eq_false] at missed
          exact missed
        rw [Tlb.hitEntry,Tlb.hitIdx,none']
        rfl
      have told : flag a (tlb s.mmu side) (tlbInput s.mmu i side) = blames a (tlb s.mmu side) (tlbInput s.mmu i side) := by
        cases a <;>
          simp only [flag,blames,Tlb.xcptIf,Tlb.xcptLd,Tlb.xcptSt,Tlb.tlbHit,missed,on,first,Bool.and_false,Bool.false_and,Bool.true_and,
            Bool.false_or,reduceCtorEq,decide_false,decide_true,Bool.or_false]
      have nothing : owed s i side a = false := by
        unfold owed
        rw [found]
        rfl
      rw [if_neg Bool.false_ne_true]
      constructor
      · rintro ⟨fault,_⟩
        rw [← told,fault,nothing]
      · intro quiet
        refine ⟨?_,?_⟩
        · rw [told,quiet,nothing]
        · intro some'
          rw [found] at some'
          cases some'
  | true =>
      have matched := hitCam_entry found
      obtain ⟨⟨tmp,vpn,entry⟩,low⟩ := holds.held side _ (hitsEntry_iff.mp matched).1
      change Tlb.hitEntry (tlb s.mmu side) (tlbInput s.mmu i side) = Tlb.filled tmp (respOf vpn (source s i side).1 (source s i side).2) at entry
      change (source s i side).2 ≤ 2 at low
      have told := flag_word _ _ a on found kind entry
      have wanted : owed s i side a = Sv39.faults (Sv39.ending (source s i side).1 (source s i side).2)
          (Tlb.svPrivLvl (tlbInput s.mmu i side)) (tlbInput s.mmu i side).ptw.sum (tlbInput s.mmu i side).ptw.mxr a := by
        unfold owed
        rw [found,Bool.true_and]
      have page := page_exact _ _ on plain alone found low entry
      have fault := fault_exact (source s i side).1 (source s i side).2 (Tlb.svPrivLvl (tlbInput s.mmu i side))
        (tlbInput s.mmu i side).ptw.sum (tlbInput s.mmu i side).ptw.mxr a
      rw [← told,← wanted] at fault
      rw [if_pos rfl]
      unfold Misjudged
      constructor
      · rintro ⟨right,number⟩ ⟨valid,leaf,aligned,wrong⟩
        rcases wrong with ⟨bad,granted⟩ | ⟨good,permitted,⟨writable,hidden⟩ | far⟩
        · exact fault.mp right ⟨valid,leaf,aligned,.inl ⟨bad,granted⟩⟩
        · exact fault.mp right ⟨valid,leaf,aligned,.inr ⟨good,permitted,writable,hidden⟩⟩
        · by_cases hidden : Sv39.W (source s i side).1 = true ∧ Sv39.R (source s i side).1 = false
          · exact fault.mp right ⟨valid,leaf,aligned,.inr ⟨good,permitted,hidden⟩⟩
          · have open' : owed s i side a = false := by
              rw [wanted,faults_not]
              refine ⟨valid,?_,good,?_,aligned,permitted⟩
              · revert hidden
                cases Sv39.W (source s i side).1 <;> cases Sv39.R (source s i side).1 <;> simp
              · revert hidden leaf
                cases Sv39.W (source s i side).1 <;> cases Sv39.R (source s i side).1 <;> simp
            exact absurd ((page aligned).mp (number found open')) (Nat.not_lt.mpr far)
      · intro sound
        refine ⟨fault.mpr ?_,?_⟩
        · rintro ⟨valid,leaf,aligned,⟨bad,granted⟩ | ⟨good,permitted,hidden⟩⟩
          · exact sound ⟨valid,leaf,aligned,.inl ⟨bad,granted⟩⟩
          · exact sound ⟨valid,leaf,aligned,.inr ⟨good,permitted,.inl hidden⟩⟩
        · intro _ open'
          rw [wanted,faults_not] at open'
          obtain ⟨valid,_,good,reads,aligned,permitted⟩ := open'
          refine (page aligned).mpr (Nat.lt_of_not_le fun far => sound ⟨valid,?_,aligned,.inr ⟨good,permitted,.inr far⟩⟩)
          rw [Bool.or_right_comm,reads,Bool.true_or]

-- Whatever is asked for, whatever memory holds and whenever a TLB is emptied
theorem pte_validated (inputs : Nat → BscMmu.Input) (t : Nat) : Validates (trace machine inputs t) (inputs t) where
  walk := walk_right (holds_run inputs t)
  fresh := fun _ write quiet j same => fresh_answer (holds_run inputs t) write quiet j same
  answer := fun _ _ presents => answer_exact (holds_run inputs t) presents

-- The data TLB loads from page 5: it misses in cycle 0, the walker reads a leaf in cycle 3, and the load is told in cycle 5.
def loads (word : BitVec 64) (t : Nat) : BscMmu.Input where
  icache := ⟨⟨false,0,0,false,true,false⟩,1,false⟩
  core := ⟨⟨true,0,5,false,false,false⟩,1,true⟩
  dmemReady := true
  respValid := decide (t = 3)
  respNack := false
  respData := word
  satp := 1
  flush := false
  sum := false
  mxr := false

-- A leaf with a reserved bit: the walk ends with an error, and the load of its page raises no fault.
theorem reserved_loaded : ¬ ∀ (inputs : Nat → BscMmu.Input) (t : Nat) (side : Side) (a : Sv39.Access),
    Presents (trace machine inputs t).mmu (inputs t) side a → Judged (trace machine inputs t) (inputs t) side a := by
  intro every
  have fault := (every (loads 0x400000000000cf) 5 .dtlb .load ⟨rfl,rfl,rfl,by decide⟩).fault
  revert fault
  decide

end Sargantana.PteValidation
