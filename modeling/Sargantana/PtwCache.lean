import Sargantana.Ptw
import Sargantana.Lib.StateMachine

-- The cache of page table entries: walks that use it against walks from memory, and what an
-- invalidation leaves of it.
namespace Sargantana.PtwCache
open MmuPkg Ptw StateMachine

def walkFrom (mem : BitVec 40 → BitVec 64) (vpn : BitVec 27) : Nat → BitVec 44 → PtwTlbResp
  | 0, ppn =>
    let data := mem (pteAddr ppn vpn 2)
    let pte := pteOf data 2
    ⟨true,invalidPte data 2 || !isPteLeaf pte,{ pte with ppn := respPpn pte.ppn vpn 2 },2⟩
  | left + 1, ppn =>
    let count := 2 - (left + 1)
    let data := mem (pteAddr ppn vpn count)
    let pte := pteOf data count
    if !invalidPte data count && isPteTable pte then walkFrom mem vpn left pte.ppn
    else ⟨true,invalidPte data count || !isPteLeaf pte,{ pte with ppn := respPpn pte.ppn vpn count },count⟩

def memoryWalk (mem : BitVec 40 → BitVec 64) (root : BitVec 44) (vpn : BitVec 27) : PtwTlbResp := walkFrom mem vpn 2 root

-- The memory answers the reads of the walker, from a page table that does not change.
-- bsc_mmu_hpdc_adapter never sends a nack.
structure Contract (mem : BitVec 40 → BitVec 64) (root : BitVec 44) (s : State) (i : Input) : Prop where
  nack : i.respNack = false
  answer : i.respValid = true → s.fsm = .wait ∧ i.respData = mem (address s)
  satp : i.satp = root

-- The walker from a state on, with a fixed page table
def machine (mem : BitVec 40 → BitVec 64) (root : BitVec 44) (s : State) : Machine State Input where
  initial := s
  allowed := Contract mem root
  step := next

-- What is read as a pointer to a table has no bits set that only a leaf may have.
def Proper (s : State) (i : Input) : Prop :=
  i.respValid = true → isPteTable (pteOf i.respData s.count) = true → invalidPte i.respData s.count = false

-- The cached pointer stands in memory.
structure Stored (mem : BitVec 40 → BitVec 64) (e : CacheEntry) : Prop where
  table : isPteTable (pteOf (mem e.tags) 0) = true
  data : (pteOf (mem e.tags) 0).ppn = e.data
  proper : invalidPte (mem e.tags) 0 = false

def Walking (mem : BitVec 40 → BitVec 64) (root : BitVec 44) (s : State) : Prop :=
  match s.fsm with
  | .ready => True
  | .req | .wait => s.count ≤ 2 ∧ walkFrom mem s.rReq.vpn (2 - s.count) s.rPte.ppn = memoryWalk mem root s.rReq.vpn
  | .done | .error => resp s = memoryWalk mem root s.rReq.vpn

structure Invariant (mem : BitVec 40 → BitVec 64) (root : BitVec 44) (s : State) : Prop where
  cache : ∀ j, (s.cache j).valid = true → Stored mem (s.cache j)
  walking : Walking mem root s

theorem isPteTable_level (data : BitVec 64) (count : Nat) : isPteTable (pteOf data count) = isPteTable (pteOf data 0) := by
  simp only [isPteTable,pteOf]
  cases data.getLsbD 1 <;> cases data.getLsbD 2 <;> cases data.getLsbD 3 <;> simp

theorem invalidPte_level (data : BitVec 64) (count : Nat) : invalidPte data count = invalidPte data 0 := by
  unfold invalidPte
  rw [isPteTable_level]
  rfl

variable {mem : BitVec 40 → BitVec 64} {root : BitVec 44} {vpn : BitVec 27} {s : State} {i : Input}

theorem walkFrom_table {count : Nat} {ppn : BitVec 44} (more : count < 2)
    (proper : invalidPte (mem (pteAddr ppn vpn count)) count = false)
    (table : isPteTable (pteOf (mem (pteAddr ppn vpn count)) count) = true) :
    walkFrom mem vpn (2 - count) ppn = walkFrom mem vpn (2 - (count + 1)) (pteOf (mem (pteAddr ppn vpn count)) count).ppn := by
  obtain rfl | rfl : count = 0 ∨ count = 1 := by omega
  all_goals
    change (if _ then _ else _) = _
    simp only [Nat.sub_self,Nat.reduceSub,Nat.reduceAdd] at *
    rw [proper,table]
    rfl

theorem walkFrom_last {count : Nat} {ppn : BitVec 44} (small : count ≤ 2)
    (stops : invalidPte (mem (pteAddr ppn vpn count)) count = true ∨ count = 2 ∨
      isPteTable (pteOf (mem (pteAddr ppn vpn count)) count) = false) :
    walkFrom mem vpn (2 - count) ppn = ⟨true,invalidPte (mem (pteAddr ppn vpn count)) count ||
      !isPteLeaf (pteOf (mem (pteAddr ppn vpn count)) count),{ pteOf (mem (pteAddr ppn vpn count)) count with
        ppn := respPpn (pteOf (mem (pteAddr ppn vpn count)) count).ppn vpn count },count⟩ := by
  by_cases last : count = 2
  · subst last
    rfl
  · have down : (!invalidPte (mem (pteAddr ppn vpn count)) count && isPteTable (pteOf (mem (pteAddr ppn vpn count)) count)) = false := by
      rcases stops with bad | same | none
      · simp [bad]
      · exact absurd same last
      · simp [none]
    obtain rfl | rfl : count = 0 ∨ count = 1 := by omega
    all_goals
      change (if _ then _ else _) = _
      simp only [Nat.reduceSub,Nat.reduceAdd] at *
      rw [down]
      rfl

theorem hitIdx_some {j : Fin 3} (found : hitIdx s = some j) : (s.cache j).valid = true ∧ (s.cache j).tags = address s := by
  have hit := List.find?_some found
  simpa [hits] using hit

-- A hit is the pointer that memory holds.
theorem hit_stored (inv : Invariant mem root s) (hit : pteCacheHit s = true) :
    invalidPte (mem (address s)) s.count = false ∧ isPteTable (pteOf (mem (address s)) s.count) = true ∧
      (pteOf (mem (address s)) s.count).ppn = pteCacheData s := by
  obtain ⟨j,found⟩ := Option.isSome_iff_exists.mp hit
  obtain ⟨valid,tags⟩ := hitIdx_some found
  have stored := inv.cache j valid
  rw [← tags]
  refine ⟨?_,?_,?_⟩
  · rw [invalidPte_level]
    exact stored.proper
  · rw [isPteTable_level]
    exact stored.table
  · rw [pteCacheData,found]
    exact stored.data

theorem cache_next (inv : Invariant mem root s) (contract : Contract mem root s i) (proper : Proper s i) :
    ∀ j, ((next s i).cache j).valid = true → Stored mem ((next s i).cache j) := by
  intro j valid
  change (nextCache s i j).valid = true at valid
  change Stored mem (nextCache s i j)
  unfold nextCache at valid ⊢
  split at valid
  · rename_i fill
    simp only [fills,Bool.and_eq_true,Bool.not_eq_true'] at fill
    obtain ⟨⟨came,table⟩,_⟩ := fill
    rw [if_pos (by simp_all [fills])]
    by_cases here : j = fillIdx s
    · rw [here,Function.update_self]
      have read := (contract.answer came).2
      rw [read] at table ⊢
      refine ⟨?_,rfl,?_⟩
      · rw [← isPteTable_level _ s.count]
        exact table
      · rw [← invalidPte_level _ s.count,← read]
        exact proper came (by rw [read]; exact table)
    · rw [Function.update_of_ne here] at valid ⊢
      exact inv.cache j valid
  · rename_i fill
    rw [if_neg fill]
    split at valid
    · rename_i touch
      rw [if_pos touch]
      exact inv.cache j valid
    · rename_i touch
      rw [if_neg touch]
      split at valid
      · cases valid
      · rename_i quiet
        rw [if_neg quiet]
        exact inv.cache j valid

theorem skip_walking (inv : Invariant mem root s) (asks : s.fsm = .req) (skip : skips s = true) : Walking mem root (next s i) := by
  have walking := inv.walking
  simp only [skips,Bool.and_eq_true,decide_eq_true_eq] at skip
  obtain ⟨hit,more⟩ := skip
  obtain ⟨proper,table,data⟩ := hit_stored inv hit
  have fsm : (next s i).fsm = .req := by simp [next,nextFsm,asks,skips,hit,more]
  have count : (next s i).count = s.count + 1 := by simp [next,nextCount,asks,skips,hit,more]
  have ppn : (next s i).rPte.ppn = pteCacheData s := by simp [next,nextPte,asks,skips,hit,more]
  have same : (next s i).rReq = s.rReq := by simp [next,asks]
  simp only [Walking,asks] at walking
  simp only [Walking,fsm,count,ppn,same]
  refine ⟨by omega,?_⟩
  rw [← walking.2,walkFrom_table more proper table]
  exact congrArg _ data.symm

theorem hold_walking (inv : Invariant mem root s) (busy : s.fsm = .req ∨ s.fsm = .wait) (stays : (next s i).fsm = .req ∨ (next s i).fsm = .wait)
    (count : (next s i).count = s.count) (pte : (next s i).rPte = s.rPte) (same : (next s i).rReq = s.rReq) : Walking mem root (next s i) := by
  have walking : s.count ≤ 2 ∧ walkFrom mem s.rReq.vpn (2 - s.count) s.rPte.ppn = memoryWalk mem root s.rReq.vpn := by
    have here := inv.walking
    rcases busy with fsm | fsm <;> simpa only [Walking,fsm] using here
  rcases stays with fsm | fsm <;> simpa only [Walking,fsm,count,pte,same] using walking

theorem read_walking (inv : Invariant mem root s) (contract : Contract mem root s i) (came : i.respValid = true) :
    Walking mem root (next s i) := by
  obtain ⟨waits,read⟩ := contract.answer came
  have walking := inv.walking
  simp only [Walking,waits] at walking
  obtain ⟨small,here⟩ := walking
  have same : (next s i).rReq = s.rReq := by simp [next,waits]
  have pte : (next s i).rPte = pteOf (mem (address s)) s.count := by simp [next,nextPte,waits,came,read]
  have fsm : (next s i).fsm = if invalidPte (mem (address s)) s.count then .error
      else if isPteTable (pteOf (mem (address s)) s.count) && decide (s.count < 2) then .req
      else if isPteLeaf (pteOf (mem (address s)) s.count) then .done else .error := by
    simp [next,nextFsm,waits,contract.nack,came,read]
  have count : (next s i).count = if !invalidPte (mem (address s)) s.count && isPteTable (pteOf (mem (address s)) s.count) &&
      decide (s.count < 2) then s.count + 1 else s.count := by
    simp [next,nextCount,waits,contract.nack,came,read]
  by_cases down : invalidPte (mem (address s)) s.count = false ∧ isPteTable (pteOf (mem (address s)) s.count) = true ∧ s.count < 2
  · obtain ⟨proper,table,more⟩ := down
    have asks : (next s i).fsm = .req := by simp [fsm,proper,table,more]
    have deeper : (next s i).count = s.count + 1 := by simp [count,proper,table,more]
    simp only [Walking,asks,deeper,pte,same]
    refine ⟨by omega,?_⟩
    rw [← here,walkFrom_table more proper table]
    rfl
  · have stops : invalidPte (mem (address s)) s.count = true ∨ s.count = 2 ∨ isPteTable (pteOf (mem (address s)) s.count) = false := by
      cases proper : invalidPte (mem (address s)) s.count with
      | true => exact .inl rfl
      | false =>
        cases table : isPteTable (pteOf (mem (address s)) s.count) with
        | false => exact .inr (.inr rfl)
        | true =>
          refine .inr (.inl ?_)
          have most : ¬ s.count < 2 := fun more => down ⟨proper,table,more⟩
          omega
    have level : (next s i).count = s.count := by
      rw [count,if_neg]
      simpa [and_assoc] using down
    have ends : (next s i).fsm = if invalidPte (mem (address s)) s.count || !isPteLeaf (pteOf (mem (address s)) s.count) then .error else .done := by
      rw [fsm]
      cases proper : invalidPte (mem (address s)) s.count with
      | true => rfl
      | false =>
        have still : (isPteTable (pteOf (mem (address s)) s.count) && decide (s.count < 2)) = false := by
          rw [Bool.eq_false_iff]
          intro both
          rw [Bool.and_eq_true,decide_eq_true_eq] at both
          exact down ⟨proper,both⟩
        rw [still]
        cases isPteLeaf (pteOf (mem (address s)) s.count) <;> rfl
    have answer : resp (next s i) = memoryWalk mem root s.rReq.vpn := by
      rw [← here,walkFrom_last small stops]
      simp only [resp,ends,level,pte,same]
      cases error : invalidPte (mem (address s)) s.count || !isPteLeaf (pteOf (mem (address s)) s.count) <;>
        simp only [address] at error <;> simp [error,address]
    cases error : invalidPte (mem (address s)) s.count || !isPteLeaf (pteOf (mem (address s)) s.count) <;>
      rw [error] at ends <;> simpa [Walking,ends,same] using answer

theorem walking_next (inv : Invariant mem root s) (contract : Contract mem root s i) : Walking mem root (next s i) := by
  cases fsm : s.fsm with
  | ready =>
    cases valid : i.req.valid with
    | false =>
      have rests : (next s i).fsm = .ready := by simp [next,nextFsm,fsm,valid]
      simp [Walking,rests]
    | true =>
      have asks : (next s i).fsm = .req := by simp [next,nextFsm,fsm,valid]
      have level : (next s i).count = 0 := by simp [next,nextCount,fsm]
      have ppn : (next s i).rPte.ppn = root := by simp [next,nextPte,fsm,valid,contract.satp]
      simp only [Walking,asks,level,ppn]
      exact ⟨Nat.zero_le _,rfl⟩
  | req =>
    cases skip : skips s with
    | true => exact skip_walking inv fsm skip
    | false =>
      refine hold_walking inv (.inl fsm) ?_ ?_ ?_ ?_
      · cases ready : i.dmemReady <;> simp [next,nextFsm,fsm,skip,ready]
      · simp [next,nextCount,fsm,skip]
      · simp [next,nextPte,fsm,skip]
      · simp [next,fsm]
  | wait =>
    cases came : i.respValid with
    | true => exact read_walking inv contract came
    | false =>
      refine hold_walking inv (.inr fsm) ?_ ?_ ?_ ?_
      · simp [next,nextFsm,fsm,contract.nack,came]
      · simp [next,nextCount,fsm,contract.nack,came]
      · simp [next,nextPte,fsm,came]
      · simp [next,fsm]
  | done =>
    have rests : (next s i).fsm = .ready := by simp [next,nextFsm,fsm]
    simp [Walking,rests]
  | error =>
    have rests : (next s i).fsm = .ready := by simp [next,nextFsm,fsm]
    simp [Walking,rests]

theorem invariant_next (inv : Invariant mem root s) (contract : Contract mem root s i) (proper : Proper s i) : Invariant mem root (next s i) :=
  ⟨cache_next inv contract proper,walking_next inv contract⟩

variable {inputs : Nat → Input}

theorem trace_invariant (empty : ∀ j, (s.cache j).valid = false) (idle : s.fsm = .ready) (admits : Admits (machine mem root s) inputs)
    (proper : ∀ u, Proper (trace (machine mem root s) inputs u) (inputs u)) (u : Nat) :
    Invariant mem root (trace (machine mem root s) inputs u) := by
  induction u with
  | zero =>
    refine ⟨?_,?_⟩
    · intro j valid
      rw [show trace (machine mem root s) inputs 0 = s from rfl,empty j] at valid
      cases valid
    · change Walking mem root s
      simp [Walking,idle]
  | succ u ih => exact invariant_next ih (admits u) (proper u)

-- The walk that is accepted in cycle a is answered in cycle t.
structure Served (m : Machine State Input) (inputs : Nat → Input) (a t : Nat) : Prop where
  idle : (trace m inputs a).fsm = .ready
  asks : (inputs a).req.valid = true
  later : a < t
  busy : ∀ w, a < w → w < t → (resp (trace m inputs w)).valid = false
  answer : (resp (trace m inputs t)).valid = true

theorem busy_next (busy : s.fsm ≠ .ready) (quiet : (resp s).valid = false) : (next s i).fsm ≠ .ready ∧ (next s i).rReq = s.rReq := by
  refine ⟨?_,by simp [next,busy]⟩
  change nextFsm s i ≠ .ready
  cases fsm : s.fsm with
  | ready => exact absurd fsm busy
  | req =>
    simp only [nextFsm,fsm]
    cases skips s <;> cases i.dmemReady <;> decide
  | wait =>
    simp only [nextFsm,fsm]
    cases i.respNack <;> cases i.respValid <;> cases invalidPte i.respData s.count <;>
      cases isPteTable (pteOf i.respData s.count) && decide (s.count < 2) <;> cases isPteLeaf (pteOf i.respData s.count) <;> decide
  | done => simp [resp,fsm] at quiet
  | error => simp [resp,fsm] at quiet

theorem served_request {a t : Nat} (served : Served (machine mem root s) inputs a t) :
    (trace (machine mem root s) inputs t).rReq = (inputs a).req := by
  have along : ∀ d, a + 1 + d ≤ t → (trace (machine mem root s) inputs (a + 1 + d)).fsm ≠ .ready ∧
      (trace (machine mem root s) inputs (a + 1 + d)).rReq = (inputs a).req := by
    intro d within
    induction d with
    | zero =>
      change nextFsm (trace (machine mem root s) inputs a) (inputs a) ≠ _ ∧ (next (trace (machine mem root s) inputs a) (inputs a)).rReq = _
      simp [nextFsm,next,served.idle,served.asks]
    | succ d ih =>
      obtain ⟨busy,same⟩ := ih (by omega)
      obtain ⟨still,kept⟩ := busy_next (i := inputs (a + 1 + d)) busy (served.busy _ (by omega) (by omega))
      exact ⟨still,kept.trans same⟩
  have later := served.later
  have here : a + 1 + (t - (a + 1)) = t := by omega
  exact here ▸ (along (t - (a + 1)) (by omega)).2

-- As long as no malformed pointer is read, every walk gives what memory gives.
theorem cached_walk_transparent (empty : ∀ j, (s.cache j).valid = false) (idle : s.fsm = .ready)
    (admits : Admits (machine mem root s) inputs) (proper : ∀ u, Proper (trace (machine mem root s) inputs u) (inputs u)) {a t : Nat}
    (served : Served (machine mem root s) inputs a t) :
    resp (trace (machine mem root s) inputs t) = memoryWalk mem root (inputs a).req.vpn := by
  have walking := (trace_invariant empty idle admits proper t).walking
  have answer := served.answer
  rw [← served_request served]
  cases fsm : (trace (machine mem root s) inputs t).fsm with
  | ready => simp [resp,fsm] at answer
  | req => simp [resp,fsm] at answer
  | wait => simp [resp,fsm] at answer
  | done => simpa only [Walking,fsm] using walking
  | error => simpa only [Walking,fsm] using walking

-- A pointer to the table in page n, a leaf, and the malformed pointer with its A bit set
def pointer (n : Nat) : BitVec 64 := BitVec.ofNat 64 (n * 1024 + 1)
def leaf : BitVec 64 := 0xcf
def malformed (n : Nat) : BitVec 64 := BitVec.ofNat 64 (n * 1024 + 0x41)

def pages (first second : BitVec 64) (address : BitVec 40) : BitVec 64 :=
  if address.toNat / 4096 = 1 then first else if address.toNat / 4096 = 2 then second else leaf

-- A walk is asked for in cycles 0 and `again`; the memory answers as `answers` says.
def walks (again : Nat) (answers : Nat → Option (BitVec 64)) (t : Nat) : Input where
  req := ⟨decide (t = 0 ∨ t = again),0,0,1,false,false⟩
  dmemReady := true
  respValid := (answers t).isSome
  respNack := false
  respData := (answers t).getD 0
  satp := 1
  flush := false

theorem walks_admits {mem : BitVec 40 → BitVec 64} {again : Nat} {answers : Nat → Option (BitVec 64)}
    (served : ∀ t data, answers t = some data → (trace (machine mem 1 reset) (walks again answers) t).fsm = .wait ∧
      data = mem (address (trace (machine mem 1 reset) (walks again answers) t))) : Admits (machine mem 1 reset) (walks again answers) := by
  intro t
  refine ⟨rfl,?_,rfl⟩
  intro came
  obtain ⟨data,found⟩ := Option.isSome_iff_exists.mp came
  have here := served t data found
  refine ⟨here.1,?_⟩
  change (answers t).getD 0 = _
  rw [found]
  exact here.2

-- The second walk skips two levels.
def twoWalks (t : Nat) : Option (BitVec 64) :=
  if t = 2 then some (pointer 2) else if t = 4 then some (pointer 3) else if t = 6 ∨ t = 12 then some leaf else none

theorem twoWalks_served (t : Nat) (data : BitVec 64) (came : twoWalks t = some data) :
    (trace (machine (pages (pointer 2) (pointer 3)) 1 reset) (walks 8 twoWalks) t).fsm = .wait ∧
      data = pages (pointer 2) (pointer 3) (address (trace (machine (pages (pointer 2) (pointer 3)) 1 reset) (walks 8 twoWalks) t)) := by
  unfold twoWalks at came
  split at came
  · rename_i here
    subst here
    obtain rfl := Option.some.inj came
    decide
  · split at came
    · rename_i here
      subst here
      obtain rfl := Option.some.inj came
      decide
    · split at came
      · rename_i here
        obtain rfl := Option.some.inj came
        rcases here with rfl | rfl <;> decide
      · cases came

theorem twoWalks_proper (u : Nat) : Proper (trace (machine (pages (pointer 2) (pointer 3)) 1 reset) (walks 8 twoWalks) u) (walks 8 twoWalks u) := by
  intro _ _
  rw [invalidPte_level]
  change invalidPte ((twoWalks u).getD 0) 0 = false
  unfold twoWalks
  split
  · decide
  · split
    · decide
    · split <;> decide

theorem cached_walk_transparent_twice :
    pteCacheHit (trace (machine (pages (pointer 2) (pointer 3)) 1 reset) (walks 8 twoWalks) 9) = true ∧
      resp (trace (machine (pages (pointer 2) (pointer 3)) 1 reset) (walks 8 twoWalks) 13) =
        memoryWalk (pages (pointer 2) (pointer 3)) 1 (walks 8 twoWalks 8).req.vpn := by
  refine ⟨by decide,cached_walk_transparent (fun _ => rfl) rfl (walks_admits twoWalks_served) twoWalks_proper ⟨?_,rfl,by decide,?_,?_⟩⟩
  · decide
  · intro w after before
    obtain rfl | rfl | rfl | rfl : w = 9 ∨ w = 10 ∨ w = 11 ∨ w = 12 := by omega
    all_goals decide
  · decide

-- The first walk ends with an error at the malformed pointer but leaves it in the cache.
def afterError (t : Nat) : Option (BitVec 64) :=
  if t = 2 then some (malformed 2) else if t = 7 then some leaf else none

theorem afterError_served (t : Nat) (data : BitVec 64) (came : afterError t = some data) :
    (trace (machine (pages (malformed 2) leaf) 1 reset) (walks 4 afterError) t).fsm = .wait ∧
      data = pages (malformed 2) leaf (address (trace (machine (pages (malformed 2) leaf) 1 reset) (walks 4 afterError) t)) := by
  unfold afterError at came
  split at came
  · rename_i here
    subst here
    obtain rfl := Option.some.inj came
    decide
  · split at came
    · rename_i here
      subst here
      obtain rfl := Option.some.inj came
      decide
    · cases came

theorem malformed_pointer_followed :
    Admits (machine (pages (malformed 2) leaf) 1 reset) (walks 4 afterError) ∧
      Served (machine (pages (malformed 2) leaf) 1 reset) (walks 4 afterError) 4 8 ∧
      (resp (trace (machine (pages (malformed 2) leaf) 1 reset) (walks 4 afterError) 8)).error = false ∧
      (memoryWalk (pages (malformed 2) leaf) 1 (walks 4 afterError 4).req.vpn).error = true := by
  refine ⟨walks_admits afterError_served,⟨?_,rfl,by decide,?_,?_⟩,?_,?_⟩
  · decide
  · intro w after before
    obtain rfl | rfl | rfl : w = 5 ∨ w = 6 ∨ w = 7 := by omega
    all_goals decide
  · decide
  · decide
  · decide

-- The cycle, the cycle in which the last read was issued, and for each entry that of its read
structure Tracked where
  core : State
  time : Nat
  asked : Nat
  origin : Fin 3 → Nat

def trackedNext (t : Tracked) (i : Input) : Tracked where
  core := next t.core i
  time := t.time + 1
  asked := if (dmemReq t.core).isSome && i.dmemReady then t.time else t.asked
  origin := if fills t.core i then Function.update t.origin (fillIdx t.core) t.asked else t.origin

def tracking : Machine Tracked Input where
  initial := ⟨reset,0,0,fun _ => 0⟩
  allowed t i := i.respValid = true → t.core.fsm = .wait
  step := trackedNext

structure Dated (t : Tracked) : Prop where
  asked : t.core.fsm = .wait → t.asked < t.time
  origin : ∀ j, (t.core.cache j).valid = true → t.origin j < t.time

theorem asked_next {t : Tracked} (dated : Dated t) (waits : (trackedNext t i).core.fsm = .wait) : (trackedNext t i).asked < t.time + 1 := by
  change (if (dmemReq t.core).isSome && i.dmemReady then t.time else t.asked) < _
  split
  · omega
  · rename_i silent
    change nextFsm t.core i = .wait at waits
    cases fsm : t.core.fsm with
    | ready =>
      simp only [nextFsm,fsm] at waits
      split at waits <;> cases waits
    | req =>
      simp only [nextFsm,fsm] at waits
      cases skip : skips t.core <;> cases ready : i.dmemReady <;> simp [skip,ready] at waits
      simp [dmemReq,fsm,skip,ready] at silent
    | wait =>
      have before := dated.asked fsm
      omega
    | done => simp [nextFsm,fsm] at waits
    | error => simp [nextFsm,fsm] at waits

theorem origin_next {t : Tracked} (dated : Dated t) (answers : i.respValid = true → t.core.fsm = .wait) {j : Fin 3}
    (valid : ((trackedNext t i).core.cache j).valid = true) : (trackedNext t i).origin j < t.time := by
  change (nextCache t.core i j).valid = true at valid
  change (if fills t.core i then Function.update t.origin (fillIdx t.core) t.asked else t.origin) j < _
  unfold nextCache at valid
  split at valid
  · rename_i fill
    have came : i.respValid = true := by
      simp only [fills,Bool.and_eq_true] at fill
      exact fill.1.1
    rw [if_pos fill]
    by_cases here : j = fillIdx t.core
    · rw [here,Function.update_self]
      exact dated.asked (answers came)
    · rw [Function.update_of_ne here] at valid ⊢
      exact dated.origin j valid
  · rename_i fill
    rw [if_neg fill]
    split at valid
    · exact dated.origin j valid
    · split at valid
      · cases valid
      · exact dated.origin j valid

theorem trace_dated (admits : Admits tracking inputs) (u : Nat) : Dated (trace tracking inputs u) ∧ (trace tracking inputs u).time = u := by
  induction u with
  | zero => exact ⟨⟨fun waits => (by cases waits),fun _ valid => (by cases valid)⟩,rfl⟩
  | succ u ih =>
    refine ⟨⟨fun waits => asked_next ih.1 waits,?_⟩,congrArg (· + 1) ih.2⟩
    intro j valid
    exact Nat.lt_succ_of_lt (origin_next ih.1 (admits u) valid)

theorem empty_next {s : State} (empty : ∀ j, (s.cache j).valid = false) (quiet : fills s i = false) (j : Fin 3) :
    ((next s i).cache j).valid = false := by
  change (nextCache s i j).valid = false
  unfold nextCache
  rw [quiet,if_neg Bool.false_ne_true]
  split
  · exact empty j
  · split
    · rfl
    · exact empty j

-- In cycle t the invalidation leaves nothing that was read before, up to a later fill.
def Invalidates (inputs : Nat → Input) (t : Nat) : Prop :=
  ∀ u, t < u → (∀ w, t < w → w < u → fills (trace tracking inputs w).core (inputs w) = false) →
    ∀ j, ((trace tracking inputs u).core.cache j).valid = true → t ≤ (trace tracking inputs u).origin j

-- An invalidation is lost exactly if it meets a fill or a hit of the walker.
theorem invalidation_kept (admits : Admits tracking inputs) {t : Nat} (flush : (inputs t).flush = true) :
    Invalidates inputs t ↔
      fills (trace tracking inputs t).core (inputs t) = false ∧ touches (trace tracking inputs t).core = false := by
  obtain ⟨dated,time⟩ := trace_dated admits t
  constructor
  · intro clears
    have gone : ∀ j, (nextCache (trace tracking inputs t).core (inputs t) j).valid = false := by
      intro j
      rw [Bool.eq_false_iff]
      intro valid
      have young := clears (t + 1) (by omega) (fun w after before => by omega) j valid
      have old : (trace tracking inputs (t + 1)).origin j < _ := origin_next dated (admits t) valid
      omega
    have quiet : fills (trace tracking inputs t).core (inputs t) = false := by
      rw [Bool.eq_false_iff]
      intro fill
      have filled := gone (fillIdx (trace tracking inputs t).core)
      rw [nextCache,if_pos fill,Function.update_self] at filled
      cases filled
    refine ⟨quiet,?_⟩
    rw [Bool.eq_false_iff]
    intro touch
    have hit : pteCacheHit (trace tracking inputs t).core = true := by
      simp only [touches,Bool.and_eq_true] at touch
      exact touch.1
    obtain ⟨j,found⟩ := Option.isSome_iff_exists.mp hit
    have kept := gone j
    rw [nextCache,quiet,if_neg Bool.false_ne_true,if_pos touch,(hitIdx_some found).1] at kept
    cases kept
  · rintro ⟨quiet,still⟩ u later silent j valid
    have empty : ∀ d, t + 1 + d ≤ u → ∀ j, ((trace tracking inputs (t + 1 + d)).core.cache j).valid = false := by
      intro d within
      induction d with
      | zero =>
        intro j
        change (nextCache (trace tracking inputs t).core (inputs t) j).valid = false
        rw [nextCache,quiet,still,flush]
        rfl
      | succ d ih => exact fun j => empty_next (ih (by omega)) (silent _ (by omega) (by omega)) j
    have here : t + 1 + (u - (t + 1)) = u := by omega
    have none := empty (u - (t + 1)) (by omega) j
    rw [here,valid] at none
    cases none

-- A walk fills the cache in cycle 2, and the invalidation comes in one cycle.
def sfence (cycle t : Nat) : Input :=
  { walks 8 twoWalks t with flush := decide (t = cycle), respValid := decide (t = 2) }

theorem sfence_admits {cycle : Nat} (late : cycle = 2 ∨ cycle = 3) : Admits tracking (sfence cycle) := by
  intro t came
  obtain rfl := of_decide_eq_true came
  rcases late with rfl | rfl <;> decide

theorem invalidation_kept_later : (sfence 3 3).flush = true ∧ fills (trace tracking (sfence 3) 2).core (sfence 3 2) = true ∧
    Invalidates (sfence 3) 3 :=
  ⟨rfl,by decide,(invalidation_kept (sfence_admits (.inr rfl)) rfl).mpr (by decide)⟩

-- The entry of the same cycle stays, although its read was issued in cycle 1.
theorem invalidation_lost_to_fill : Admits tracking (sfence 2) ∧ (sfence 2 2).flush = true ∧
    ((trace tracking (sfence 2) 3).core.cache 0).valid = true ∧ (trace tracking (sfence 2) 3).origin 0 = 1 ∧ ¬ Invalidates (sfence 2) 2 := by
  have valid : ((trace tracking (sfence 2) 3).core.cache 0).valid = true := by decide
  have old : (trace tracking (sfence 2) 3).origin 0 = 1 := by decide
  refine ⟨sfence_admits (.inl rfl),rfl,valid,old,?_⟩
  intro clears
  have young := clears 3 (by omega) (fun w after before => by omega) 0 valid
  omega

end Sargantana.PtwCache
