import Sargantana.LsqTraffic
import Mathlib.Data.Nat.ModEq

-- A load overtakes the stores of the buffer only where it shares no byte with them.
namespace Sargantana.LsqOrdering
open DracPkg LoadStoreQueue LsqRefinement LsqTraffic Window QueueTraffic StateMachine

variable {α : Type} {cfg : Config}

def accessSize (memSize : BitVec 4) : Option Nat :=
  match memSize.toNat with
  | 0 | 4 => some 1
  | 1 | 5 => some 2
  | 2 | 6 => some 4
  | 3 => some 8
  | 8 => some 16
  | _ => none

def accesses (x : MemInstr α) (byte : Nat) : Prop :=
  ∃ size, accessSize x.memSize = some size ∧ x.dataRs1.toNat ≤ byte ∧ byte < x.dataRs1.toNat + size

def Aligned (x : MemInstr α) : Prop := ∃ size, accessSize x.memSize = some size ∧ size ∣ x.dataRs1.toNat

-- The low bits that the detector leaves out
def granule (one two : BitVec 4) : Option Nat :=
  let either (code : BitVec 4) := one == code || two == code
  let low (code : BitVec 2) := one.extractLsb' 0 2 == code || two.extractLsb' 0 2 == code
  if either 10 then some 6
  else if either 9 then some 5
  else if either 8 then some 4
  else if either 3 then some 3
  else if low 2 then some 2
  else if low 1 then some 1
  else if low 0 then some 0
  else none

theorem collides_granule (addr : BitVec 64) (size : BitVec 4) (store : MemInstr α) :
    StoreBuffer.collides addr size store =
      ((granule size store.memSize).map fun low => StoreBuffer.sameBlock low store.dataRs1 addr).getD false := by
  unfold StoreBuffer.collides granule
  dsimp only
  split
  · rfl
  · split
    · rfl
    · split
      · rfl
      · split
        · rfl
        · split
          · rfl
          · split
            · rfl
            · split <;> rfl

theorem granule_covers : ∀ one two n m, accessSize one = some n → accessSize two = some m →
    ∃ low, granule one two = some low ∧ n ∣ 2 ^ low ∧ m ∣ 2 ^ low := by
  have all : ∀ one two : BitVec 4, ((accessSize one).bind fun n => (accessSize two).map fun m =>
      ((granule one two).map fun low => decide (2 ^ low % n = 0 ∧ 2 ^ low % m = 0)).getD false).getD true = true := by
    decide
  intro one two n m first second
  have holds := all one two
  rw [first,second] at holds
  cases found : granule one two with
  | none => simp [found] at holds
  | some low =>
    simp only [found,Option.bind_some,Option.map_some,Option.getD_some,decide_eq_true_eq] at holds
    exact ⟨low,rfl,Nat.dvd_of_mod_eq_zero holds.1,Nat.dvd_of_mod_eq_zero holds.2⟩

theorem same_block {low : Nat} {a b : BitVec 64} (same : a.toNat / 2 ^ low = b.toNat / 2 ^ low) :
    StoreBuffer.sameBlock low a b = true := by
  unfold StoreBuffer.sameBlock
  rw [beq_iff_eq]
  apply BitVec.eq_of_toNat_eq
  simp only [BitVec.extractLsb'_toNat,Nat.shiftRight_eq_div_pow,same]

theorem byte_block {address byte size block : Nat} (divides : size ∣ block) (aligned : size ∣ address)
    (least : address ≤ byte) (most : byte < address + size) : byte / block = address / block := by
  obtain ⟨k,rfl⟩ := aligned
  obtain ⟨m,rfl⟩ := divides
  have positive : 0 < size := by omega
  have place : byte / size = k := by
    apply Nat.div_eq_of_lt_le
    · rw [Nat.mul_comm]; exact least
    · rw [Nat.add_mul,Nat.one_mul,Nat.mul_comm]; exact most
  rw [← Nat.div_div_eq_div_mul,place,← Nat.div_div_eq_div_mul,Nat.mul_div_cancel_left _ positive]

theorem apart_of_collides {load store : MemInstr α} (quiet : StoreBuffer.collides load.dataRs1 load.memSize store = false)
    (loadAligned : Aligned load) (storeAligned : Aligned store) (byte : Nat) :
    ¬ (accesses load byte ∧ accesses store byte) := by
  rintro ⟨⟨n,size,least,most⟩,m,other,from',to'⟩
  obtain ⟨n',size',aligned⟩ := loadAligned
  obtain ⟨m',other',aligned'⟩ := storeAligned
  obtain rfl := Option.some.inj (size.symm.trans size')
  obtain rfl := Option.some.inj (other.symm.trans other')
  obtain ⟨low,found,covers,covers'⟩ := granule_covers _ _ _ _ size other
  rw [collides_granule,found] at quiet
  have same : StoreBuffer.sameBlock low store.dataRs1 load.dataRs1 = true :=
    same_block ((byte_block covers' aligned' from' to').symm.trans (byte_block covers aligned least most))
  rw [Option.map_some,Option.getD_some,same] at quiet
  cases quiet

-- The queue with its store buffer, beside the numbers of arrival since the last flush
structure Dated (α : Type) where
  lsq : State α
  traffic : Traffic (Nat × MemInstr α)

def arrival (t : Dated α) (i : LoadStoreQueue.Input α) : Option (Nat × MemInstr α) :=
  ((accepted t.lsq i).map erase).map fun x => (t.traffic.accepted.length,x)

-- What is held, with the numbers: in the buffer and in the queue
def buffered (t : Dated α) : List (Nat × MemInstr α) :=
  (t.traffic.buffer.map Prod.fst).zip (StoreBuffer.contents t.lsq.storeBuffer)

def queued (t : Dated α) : List (Nat × MemInstr α) := (t.traffic.queue.map Prod.fst).zip (contents t.lsq)

-- The number of a load that is shown: one that passes by is the next to come.
def number (cfg : Config) (t : Dated α) (i : LoadStoreQueue.Input α) : Nat :=
  if bypassLsq cfg t.lsq i then t.traffic.accepted.length else ((t.traffic.queue.map Prod.fst).head?).getD 0

-- No valid entry of the buffer collides, wherever the ring stands.
theorem contents_quiet {b : StoreBuffer.State α} {addr : BitVec 64} {size : BitVec 4} {store : MemInstr α}
    (valid : StoreBuffer.Valid b) (quiet : StoreBuffer.collision b addr size = false)
    (inside : store ∈ StoreBuffer.contents b) : StoreBuffer.collides addr size store = false := by
  obtain ⟨k,below,same⟩ := List.getElem_of_mem inside
  have within : k < b.num.val := by simpa [StoreBuffer.contents] using below
  have room := valid.room
  have marked : b.validTable (shift b.head k) = true := by
    rw [valid.marks,age_shift (by omega)]
    exact decide_eq_true within
  have entry : b.instructionTable (shift b.head k) = store := by
    rw [← same]
    simp [StoreBuffer.contents,window_getElem]
  have none := List.any_eq_false.mp quiet (shift b.head k) (List.mem_finRange _)
  rw [marked,Bool.true_and,entry,Bool.not_eq_true] at none
  exact none

structure Invariant (t : Dated α) : Prop where
  valid : Valid t.lsq
  shadow : ∃ came went, t.traffic.map Prod.snd = trafficOf came went t.lsq
  numbered : Numbered t.traffic.buffer t.traffic.queue t.traffic.accepted.length
  stores : ∀ x ∈ StoreBuffer.contents t.lsq.storeBuffer, isLoad x = false

theorem queued_length {t : Dated α} (inv : Invariant t) : t.traffic.queue.length = held t.lsq := by
  obtain ⟨came,went,shadow⟩ := inv.shadow
  have queues := congrArg (fun f : Traffic (MemInstr α) => f.queue.length) shadow
  simpa [Traffic.map,trafficOf,contents] using queues

theorem queued_least {t : Dated α} (inv : Invariant t) {n : Nat} {x : MemInstr α} (inside : (n,x) ∈ queued t) :
    ((t.traffic.queue.map Prod.fst).head?).getD 0 ≤ n := by
  obtain ⟨a,member,rfl⟩ := List.mem_map.mp (List.of_mem_zip inside).1
  have sorted := inv.numbered.sorted
  cases found : t.traffic.queue with
  | nil => simp [found] at member
  | cons first rest =>
    rw [found] at sorted member
    rcases List.mem_cons.mp member with rfl | later
    · simp
    · exact Nat.le_of_lt ((List.pairwise_cons.mp sorted).1 a later)

theorem head_queued {t : Dated α} (inv : Invariant t) (some : 0 < t.lsq.numToExe.val) :
    (((t.traffic.queue.map Prod.fst).head?).getD 0,headInstr t.lsq) ∈ queued t := by
  have count := queued_length inv
  have front := contents_front some
  cases found : t.traffic.queue with
  | nil =>
    rw [found] at count
    simp only [List.length_nil,held] at count
    omega
  | cons first rest =>
    cases cells : contents t.lsq with
    | nil => simp [cells] at front
    | cons x others =>
      rw [cells] at front
      have head : x = headInstr t.lsq := by rw [headInstr_eq]; simpa using front
      simp [queued,found,cells,head]

section
variable [Inhabited α]

def datedNext (cfg : Config) (t : Dated α) (i : LoadStoreQueue.Input α) : Dated α :=
  if i.flush then ⟨next cfg t.lsq i,⟨[],[],[],[]⟩⟩
  else ⟨next cfg t.lsq i,t.traffic.step (arrival t i) (move cfg t.lsq i)⟩

def machine (cfg : Config) : Machine (Dated α) (LoadStoreQueue.Input α) where
  initial := ⟨reset,⟨[],[],[],[]⟩⟩
  allowed t i := Offered cfg t.lsq i
  step := datedNext cfg

theorem next_unloaded {t : Dated α} {i : LoadStoreQueue.Input α} (inv : Invariant t) (straight : i.flush = false) :
    ∀ x ∈ StoreBuffer.contents (next cfg t.lsq i).storeBuffer, isLoad x = false := by
  intro x inside
  rw [next_buffer inv.valid straight] at inside
  rcases List.mem_append.mp (List.mem_of_mem_drop inside) with old | new
  · exact inv.stores x old
  · rcases reads_cases cfg t.lsq i with ⟨same,_⟩ | ⟨same,_⟩ | ⟨⟨same,store,_⟩ | same,_⟩
    · simp [same] at new
    · simp [same] at new
    · rw [same,if_pos rfl] at new
      rw [List.mem_singleton.mp new,← headInstr_eq]
      exact store_not_load (Bool.and_eq_true_iff.mp store).2
    · simp [same] at new

theorem step_invariant {t : Dated α} {i : LoadStoreQueue.Input α} (inv : Invariant t) (offered : Offered cfg t.lsq i) :
    Invariant (datedNext cfg t i) := by
  have valid := next_valid inv.valid offered
  cases straight : i.flush with
  | true =>
    have none : held (next cfg t.lsq i) = 0 := by simp [next,straight,held]
    have drained : StoreBuffer.contents (next cfg t.lsq i).storeBuffer = [] := by
      rw [next_storeBuffer,StoreBuffer.flush_contents straight]
    simp only [datedNext,straight,if_true]
    refine ⟨valid,⟨[],[],(empty_traffic none drained).symm⟩,⟨.nil,?_,?_⟩,?_⟩
    · intro a inside
      cases inside
    · intro a inside
      cases inside
    · intro x inside
      rw [drained] at inside
      cases inside
  | false =>
    obtain ⟨came,went,shadow⟩ := inv.shadow
    simp only [datedNext,straight,Bool.false_eq_true,if_false]
    refine ⟨valid,⟨came ++ (accepted t.lsq i).toList,went ++ (issued cfg t.lsq i).toList,?_⟩,
      step_numbered inv.numbered _ _,next_unloaded inv straight⟩
    rw [next_traffic inv.valid offered straight came went,step_map,shadow,arrival,Option.map_map]
    simp [Function.comp_def]

theorem reached_invariant {t : Dated α} (reached : Reached (machine cfg) t) : Invariant t := by
  refine reached.invariant Invariant ?_ ?_
  · refine ⟨reset_valid,⟨[],[],rfl⟩,⟨.nil,?_,?_⟩,?_⟩ <;> intro a inside <;> cases inside
  · intro t i inv offered
    exact step_invariant inv offered

-- A load that is shown passes by, or stands at the head of the queue clear of the buffer.
theorem shown_load {t : Dated α} {i : LoadStoreQueue.Input α} (inv : Invariant t)
    (shown : (nextInstrExe cfg t.lsq i).valid = true) (load : isLoad (nextInstrExe cfg t.lsq i) = true) :
    (bypassLsq cfg t.lsq i = true ∧ emptyInt t.lsq = true) ∨
    (bypassLsq cfg t.lsq i = false ∧ nextInstrExe cfg t.lsq i = headInstr t.lsq ∧ isNextLoad t.lsq = true ∧
      stBuffCollision t.lsq = false) := by
  cases shows cfg t.lsq i with
  | bypass arrives => exact .inl ⟨arrives,(arrives_parts (Bool.and_eq_true_iff.mp arrives).2).1⟩
  | load away next free same => exact .inr ⟨away,same,next,free⟩
  | buffered _ store same =>
    rw [same] at load
    cases (inv.stores _ (buffer_member (storeInSb_some store))).symm.trans load
  | store _ _ store same =>
    simp only [storeInLsq,isNextStore,Bool.and_eq_true] at store
    rw [same,store_not_load store.1.2.2] at load
    cases load
  | nothing same =>
    rw [same] at shown
    cases shown

-- Whatever load the queue shows in a run, no older store or AMO that it or its buffer holds
-- touches a byte of it.
theorem load_after_store {t : Dated α} (reached : Reached (machine cfg) t) (i : LoadStoreQueue.Input α)
    (shown : (nextInstrExe cfg t.lsq i).valid = true) (load : isLoad (nextInstrExe cfg t.lsq i) = true)
    (aligned : Aligned (nextInstrExe cfg t.lsq i)) :
    (bypassLsq cfg t.lsq i = true ∨ (number cfg t i,nextInstrExe cfg t.lsq i) ∈ queued t) ∧
    ∀ n store, (n,store) ∈ buffered t ++ queued t → n < number cfg t i → isStoreOrAmo store = true →
      Aligned store → ∀ byte, ¬ (accesses (nextInstrExe cfg t.lsq i) byte ∧ accesses store byte) := by
  have inv := reached_invariant reached
  rcases shown_load inv shown load with ⟨bypass,empty⟩ | ⟨bypass,same,next,quiet⟩
  · refine ⟨.inl bypass,?_⟩
    obtain ⟨noExe,noTranslate,noStore⟩ := empty_parts empty
    have nothing : buffered t ++ queued t = [] := by
      simp [buffered,queued,contents,StoreBuffer.contents,held,noExe,noTranslate,noStore]
    intro n store inside
    rw [nothing] at inside
    cases inside
  · have here : number cfg t i = ((t.traffic.queue.map Prod.fst).head?).getD 0 := by simp [number,bypass]
    rw [same] at aligned ⊢
    refine ⟨.inr (here ▸ head_queued inv (isNextLoad_some next)),?_⟩
    intro n store inside older _ storeAligned
    rcases List.mem_append.mp inside with early | late
    · exact apart_of_collides (contents_quiet inv.valid.buffer quiet (List.of_mem_zip early).2) aligned storeAligned
    · have least := queued_least inv late
      omega

end

-- A store of eight bytes and a load of the next eight, both hitting page 5
def access (kind : MemType) (address : BitVec 64) : MemInstr Unit :=
  { MemInstr.zero with valid := true, memType := kind, memSize := 3, dataRs1 := address, loadMask := 1 }

def offers (x : MemInstr Unit) : LoadStoreQueue.Input Unit := ⟨x,true,false,false,false,7,⟨true,false,5,false,false⟩⟩

def plain : Config := ⟨true,false,[],[(0,1048576)]⟩

-- The store waits in the buffer, the load is at the head of the queue.
def overtaken : Dated Unit :=
  datedNext plain (datedNext plain (machine plain).initial (offers (access .store 64))) (offers (access .load 72))

theorem overtaken_reached : Reached (machine plain) overtaken := by
  have first : Offered plain (reset : State Unit) (offers (access .store 64)) := ⟨by decide,by decide⟩
  have second : Offered plain (datedNext plain (machine plain).initial (offers (access .store 64))).lsq
      (offers (access .load 72)) := ⟨by decide,by decide⟩
  have one := (Reached.start (m := machine plain)).step first
  exact one.step second

theorem load_after_store_overtaken :
    (buffered overtaken).map Prod.fst = [0] ∧ number plain overtaken (offers MemInstr.zero) = 1 ∧
    ∀ n store, (n,store) ∈ buffered overtaken ++ queued overtaken → n < number plain overtaken (offers MemInstr.zero) →
      isStoreOrAmo store = true → Aligned store →
      ∀ byte, ¬ (accesses (nextInstrExe plain overtaken.lsq (offers MemInstr.zero)) byte ∧ accesses store byte) := by
  have aligned : Aligned (nextInstrExe plain overtaken.lsq (offers MemInstr.zero)) := ⟨8,by decide,by decide⟩
  exact ⟨by decide,by decide,
    (load_after_store overtaken_reached (offers MemInstr.zero) (by decide) (by decide) aligned).2⟩

end Sargantana.LsqOrdering
