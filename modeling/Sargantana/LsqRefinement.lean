import Sargantana.MemUnit
import Sargantana.Lib.StateMachine

namespace Sargantana.LsqRefinement
open DracPkg LoadStoreQueue Window

variable {α : Type}

def erase (x : MemInstr α) : MemInstr α := {x with dataRs1 := 0, ex := Exception.none, translated := false}

@[simp] theorem erase_translate (cfg : Config) (l : Lookup) (x : MemInstr α) : erase (translate cfg l x) = erase x := rfl

def held (s : State α) : Nat := s.numToExe.val + s.numToTranslate.val

def cell (s : State α) (k : Nat) : MemInstr α := s.controlTable (shift s.head k)

def contents (s : State α) : List (MemInstr α) := window s.controlTable s.head (held s)

structure Valid (s : State α) : Prop where
  tlbTail : s.tlbTail = shift s.head s.numToExe.val
  tail : s.tail = shift s.head (held s)
  room : held s ≤ 8
  valid : ∀ k < held s, (cell s k).valid = true
  translated : ∀ k < s.numToExe.val, (cell s k).translated = true
  buffer : StoreBuffer.Valid s.storeBuffer
  stores : ∀ x ∈ StoreBuffer.contents s.storeBuffer, x.valid = true

-- Instructions are presented only while full_o is low. Without the bypass no
-- load that hits arrives at an empty queue while it is read.
structure Offered (cfg : Config) (s : State α) (i : LoadStoreQueue.Input α) : Prop where
  presented : i.instruction.valid = true → full s i = false
  apart : cfg.bypass = false → i.readNext = true → arrivesAtEmpty s i = false

variable {cfg : Config} {s : State α} {i : LoadStoreQueue.Input α}

theorem incoming_parts (incoming : translateIncoming s i = true) :
    i.instruction.valid = true ∧ s.numToTranslate.val = 0 ∧ full s i = false := by
  simp only [translateIncoming,Bool.and_eq_true,decide_eq_true_eq,Bool.not_eq_true'] at incoming
  exact ⟨incoming.1.1,by simp [incoming.1.2],incoming.2⟩

theorem full_parts (free : full s i = false) : held s ≠ 8 ∧ i.flush = false := by
  simpa [full,held] using free

theorem empty_parts (empty : emptyInt s = true) :
    s.numToExe.val = 0 ∧ s.numToTranslate.val = 0 ∧ s.storeBuffer.num = 0 := by
  simp only [emptyInt,stBuffEmpty,StoreBuffer.empty,Bool.and_eq_true,decide_eq_true_eq] at empty
  exact ⟨by simp [empty.1.1],by simp [empty.2],empty.1.2⟩

theorem arrives_parts (arrives : arrivesAtEmpty s i = true) :
    emptyInt s = true ∧ isLoad i.instruction = true ∧ translateIncoming s i = true ∧ translateEnable s i = true := by
  simp only [arrivesAtEmpty,Bool.and_eq_true] at arrives
  exact ⟨arrives.1.1.1,arrives.1.1.2.2,arrives.1.2,arrives.2⟩

-- Every presented instruction is written, except the load that passes by.
theorem writeEnable_eq (valid : Valid s) (offered : Offered cfg s i) :
    writeEnable s i = (i.instruction.valid && !(arrivesAtEmpty s i && i.readNext)) := by
  cases present : i.instruction.valid with
  | false => simp [writeEnable,present]
  | true =>
      have room := valid.room
      have free := (full_parts (offered.presented present)).1
      have below : s.numToExe.val < 8 := by
        unfold held at room free
        omega
      cases empty : emptyInt s with
      | false => simp [writeEnable,readEnable,arrivesAtEmpty,present,below,empty]
      | true =>
          cases load : isLoad i.instruction with
          | false => simp [writeEnable,readEnable,arrivesAtEmpty,present,below,empty,load]
          | true => simp [writeEnable,readEnable,arrivesAtEmpty,present,below,empty,load,Bool.and_comm]

theorem translates_eq (valid : Valid s) (offered : Offered cfg s i) :
    translates cfg s i =
      (translateEnable s i && ((translateIncoming s i && writeEnable s i) || decide (0 < s.numToTranslate))) := by
  rw [writeEnable_eq valid offered]
  cases enable : translateEnable s i with
  | false => simp [translates,enable]
  | true =>
      cases incoming : translateIncoming s i with
      | false => simp [translates,enable,incoming]
      | true =>
          have present := (incoming_parts incoming).1
          cases define : cfg.bypass with
          | true =>
              cases arrives : arrivesAtEmpty s i <;> cases next : i.readNext <;>
                simp [translates,bypassLsq,enable,incoming,define,arrives,next,present]
          | false =>
              cases next : i.readNext with
              | false => simp [translates,enable,incoming,define,present]
              | true => simp [translates,enable,incoming,define,offered.apart define next,present]

theorem isNextLoad_some (next : isNextLoad s = true) : 0 < s.numToExe.val := by
  simp only [isNextLoad,Bool.and_eq_true,decide_eq_true_eq] at next
  exact next.1

theorem isNextStore_some (next : isNextStore s = true) : 0 < s.numToExe.val := by
  simp only [isNextStore,Bool.and_eq_true,decide_eq_true_eq] at next
  exact next.1

theorem loadInLsq_some (next : loadInLsq cfg s = true) : 0 < s.numToExe.val := by
  simp only [loadInLsq,Bool.and_eq_true] at next
  exact isNextLoad_some next.1.1

theorem storeInLsq_some (next : storeInLsq s i = true) : 0 < s.numToExe.val := by
  simp only [storeInLsq,Bool.and_eq_true] at next
  exact isNextStore_some next.1.2

theorem ioLoadInLsq_some (next : ioLoadInLsq cfg s = true) : 0 < s.numToExe.val := by
  simp only [ioLoadInLsq,Bool.and_eq_true] at next
  exact isNextLoad_some next.1.1

theorem translates_le (valid : Valid s) (offered : Offered cfg s i) :
    (translates cfg s i).toNat ≤ s.numToTranslate.val + (writeEnable s i).toNat := by
  rw [translates_eq valid offered]
  cases writeEnable s i with
  | true => exact Nat.le_trans (Bool.toNat_le _) (Nat.le_add_left _ _)
  | false =>
      by_cases some : 0 < s.numToTranslate
      · exact Nat.le_trans (Bool.toNat_le _) some
      · simp [some]

theorem writes_le (valid : Valid s) (offered : Offered cfg s i) : held s + (writeEnable s i).toNat ≤ 8 := by
  have room := valid.room
  cases write : writeEnable s i with
  | false => exact room
  | true =>
      rw [writeEnable_eq valid offered,Bool.and_eq_true] at write
      have free := (full_parts (offered.presented write.1)).1
      simp only [Bool.toNat_true]
      omega

-- The entry that is translated in its place.
def translatesQueued (s : State α) (i : LoadStoreQueue.Input α) : Bool :=
  translateEnable s i && decide (0 < s.numToTranslate.val)

theorem queued_outside (queued : translatesQueued s i = true) : translateIncoming s i = false := by
  simp only [translatesQueued,Bool.and_eq_true,decide_eq_true_eq] at queued
  cases incoming : translateIncoming s i with
  | false => rfl
  | true =>
      have none := (incoming_parts incoming).2.1
      omega

theorem table_inside (valid : Valid s) (offered : Offered cfg s i) (inside : k < held s) :
    nextTable cfg s i (shift s.head k) =
      if translatesQueued s i = true ∧ k = s.numToExe.val then translate cfg (lookup s i) (cell s k) else cell s k := by
  have room := valid.room
  have bound := writes_le valid offered
  have kept : (if writeEnable s i then Function.update s.controlTable s.tail
      (if translateEnable s i && translateIncoming s i then translatedInstr cfg s i else i.instruction)
      else s.controlTable) (shift s.head k) = cell s k := by
    cases write : writeEnable s i with
    | false => rfl
    | true =>
        rw [write,Bool.toNat_true] at bound
        rw [if_pos rfl,Function.update_of_ne]
        · rfl
        · rw [valid.tail]
          intro same
          have equal := shift_inj (by omega) (by omega) same
          omega
  have guard : (translateEnable s i && !translateIncoming s i && decide (0 < s.numToTranslate)) =
      translatesQueued s i := by
    cases incoming : translateIncoming s i with
    | false => simp [translatesQueued]
    | true => simp [translatesQueued,(incoming_parts incoming).2.1]
  unfold nextTable
  rw [guard]
  cases queued : translatesQueued s i with
  | false => simpa using kept
  | true =>
      have outside := queued_outside queued
      have source : translatedInstr cfg s i = translate cfg (lookup s i) (cell s s.numToExe.val) := by
        rw [translatedInstr,instrToTranslate,outside,valid.tlbTail]
        rfl
      have waiting : 0 < s.numToTranslate.val := by
        simp only [translatesQueued,Bool.and_eq_true,decide_eq_true_eq] at queued
        exact queued.2
      rw [if_pos rfl,valid.tlbTail]
      by_cases here : k = s.numToExe.val
      · simp only [here,Function.update_self,source,and_self,if_true]
      · simp only [here,and_false,if_false]
        rw [Function.update_of_ne,kept]
        intro same
        unfold held at room inside
        exact here (shift_inj (by omega) (by omega) same)

theorem table_tail (valid : Valid s) (offered : Offered cfg s i) (write : writeEnable s i = true) :
    nextTable cfg s i (shift s.head (held s)) =
      if translateEnable s i && translateIncoming s i then translate cfg (lookup s i) i.instruction else i.instruction := by
  have bound := writes_le valid offered
  rw [write,Bool.toNat_true] at bound
  have source (incoming : translateIncoming s i = true) :
      translatedInstr cfg s i = translate cfg (lookup s i) i.instruction := by
    rw [translatedInstr,instrToTranslate,incoming,if_pos rfl]
  have written : (if translateEnable s i && translateIncoming s i then translatedInstr cfg s i else i.instruction) =
      if translateEnable s i && translateIncoming s i then translate cfg (lookup s i) i.instruction else i.instruction := by
    cases incoming : translateIncoming s i with
    | false => simp
    | true => rw [source incoming]
  unfold nextTable
  rw [write,if_pos rfl,written,← valid.tail]
  split
  · rename_i both
    simp only [Bool.and_eq_true,decide_eq_true_eq] at both
    have some : 0 < s.numToTranslate.val := both.2
    rw [Function.update_of_ne,Function.update_self]
    rw [valid.tail,valid.tlbTail]
    intro same
    unfold held at same bound
    have equal := shift_inj (by omega) (by omega) same
    omega
  · rw [Function.update_self]

theorem translates_cases (valid : Valid s) (offered : Offered cfg s i) (taken : translates cfg s i = true) :
    translateEnable s i = true ∧ ((translatesQueued s i = true ∧ s.numToExe.val < held s) ∨
      (translateIncoming s i = true ∧ writeEnable s i = true ∧ s.numToExe.val = held s)) := by
  rw [translates_eq valid offered] at taken
  simp only [Bool.and_eq_true,Bool.or_eq_true,decide_eq_true_eq] at taken
  obtain ⟨enable,⟨incoming,write⟩ | some⟩ := taken
  · have none := (incoming_parts incoming).2.1
    exact ⟨enable,.inr ⟨incoming,write,by simp [held,none]⟩⟩
  · have waiting : 0 < s.numToTranslate.val := some
    exact ⟨enable,.inl ⟨by simp [translatesQueued,enable,waiting],by unfold held; omega⟩⟩

theorem headInstr_eq : headInstr s = cell s 0 := by rw [cell,shift_zero,headInstr]

theorem contents_front (some : 0 < s.numToExe.val) : (contents s).take 1 = [cell s 0] := by
  rw [contents,window_take (by unfold held; omega)]
  rfl

theorem queued_translates (valid : Valid s) (offered : Offered cfg s i) (queued : translatesQueued s i = true) :
    translates cfg s i = true := by
  simp only [translatesQueued,Bool.and_eq_true,decide_eq_true_eq] at queued
  have waiting : 0 < s.numToTranslate := queued.2
  rw [translates_eq valid offered]
  simp [queued.1,waiting]

section Reading
variable [Inhabited α]

theorem storeInSb_some (next : storeInSb s i = true) : 0 < s.storeBuffer.num.val := by
  simp only [storeInSb,stBuffEmpty,StoreBuffer.empty,Bool.and_eq_true,Bool.not_eq_true',decide_eq_false_iff_not] at next
  exact Nat.pos_of_ne_zero fun zero => next.1.2 (Fin.ext zero)

theorem reads_cases (cfg : Config) (s : State α) (i : LoadStoreQueue.Input α) :
    (reads cfg s i = ⟨true,false,false⟩ ∧ readEnable s i = true ∧
      (loadInLsq cfg s = true ∨
        (storeInSb s i = false ∧ (storeInLsq s i = true ∨ (storeInLsq s i = false ∧ ioLoadInLsq cfg s = true))))) ∨
    (reads cfg s i = ⟨false,true,false⟩ ∧ readEnable s i = true ∧ loadInLsq cfg s = false ∧ storeInSb s i = true) ∨
    ((reads cfg s i = ⟨true,false,true⟩ ∧ isNextStore s = true ∧ StoreBuffer.full s.storeBuffer i.flush = false ∨
        reads cfg s i = ⟨false,false,false⟩) ∧
      (readEnable s i = true →
        loadInLsq cfg s = false ∧ storeInSb s i = false ∧ storeInLsq s i = false ∧ ioLoadInLsq cfg s = false)) := by
  unfold reads
  cases enable : readEnable s i with
  | false =>
      simp only [Bool.false_and,Bool.false_eq_true,if_false]
      split
      · rename_i fifth
        simp only [Bool.and_eq_true,Bool.not_eq_true'] at fifth
        simp [fifth]
      · simp
  | true =>
      cases one : loadInLsq cfg s <;> cases two : storeInSb s i <;> cases three : storeInLsq s i <;>
        cases four : ioLoadInLsq cfg s <;> simp

theorem reads_lsq (reading : (reads cfg s i).lsq = true) : 0 < s.numToExe.val := by
  rcases reads_cases cfg s i with ⟨_,_,source⟩ | ⟨same,_⟩ | ⟨⟨_,next,_⟩ | same,_⟩
  · rcases source with load | ⟨_,store | ⟨_,load⟩⟩
    · exact loadInLsq_some load
    · exact storeInLsq_some store
    · exact ioLoadInLsq_some load
  · simp [same] at reading
  · exact isNextStore_some next
  · simp [same] at reading

def popped (cfg : Config) (s : State α) (i : LoadStoreQueue.Input α) : Nat := (reads cfg s i).lsq.toNat

theorem popped_le : popped cfg s i ≤ s.numToExe.val := by
  unfold popped
  cases reads : (reads cfg s i).lsq with
  | false => exact Nat.zero_le _
  | true => exact reads_lsq reads

theorem next_numToExe (valid : Valid s) (straight : i.flush = false) :
    (next cfg s i).numToExe.val = s.numToExe.val + (translates cfg s i).toNat - popped cfg s i := by
  have room := valid.room
  have within := @popped_le _ cfg s i _
  have shape : (next cfg s i).numToExe = s.numToExe + bit (translates cfg s i) - bit (reads cfg s i).lsq := by
    simp [next,straight]
  unfold held at room
  unfold popped at within ⊢
  rw [shape,count_val (by omega) (by omega)]

theorem next_numToTranslate (valid : Valid s) (offered : Offered cfg s i) (straight : i.flush = false) :
    (next cfg s i).numToTranslate.val =
      s.numToTranslate.val + (writeEnable s i).toNat - (translates cfg s i).toNat := by
  have room := valid.room
  have shape : (next cfg s i).numToTranslate =
      s.numToTranslate + bit (writeEnable s i) - bit (translates cfg s i) := by simp [next,straight]
  unfold held at room
  rw [shape,count_val (by omega) (translates_le valid offered)]

theorem next_held (valid : Valid s) (offered : Offered cfg s i) (straight : i.flush = false) :
    held (next cfg s i) = held s + (writeEnable s i).toNat - popped cfg s i := by
  have exe := @next_numToExe _ cfg s i _ valid straight
  have waiting := next_numToTranslate valid offered straight
  have some := @popped_le _ cfg s i _
  have fits := translates_le valid offered
  unfold held
  omega

theorem next_head (straight : i.flush = false) : (next cfg s i).head = shift s.head (popped cfg s i) := by
  simp only [next,straight,Bool.false_eq_true,if_false,shift,bit,popped]

theorem next_table : (next cfg s i).controlTable = nextTable cfg s i := by
  unfold next
  split <;> rfl

theorem next_cell (valid : Valid s) (offered : Offered cfg s i) (straight : i.flush = false)
    (inside : k < held (next cfg s i)) :
    (popped cfg s i + k < held s ∧ cell (next cfg s i) k =
      if translatesQueued s i = true ∧ popped cfg s i + k = s.numToExe.val then
        translate cfg (lookup s i) (cell s (popped cfg s i + k))
      else cell s (popped cfg s i + k)) ∨
    (popped cfg s i + k = held s ∧ writeEnable s i = true ∧ cell (next cfg s i) k =
      if translateEnable s i && translateIncoming s i then translate cfg (lookup s i) i.instruction
      else i.instruction) := by
  have count := next_held valid offered straight
  have few := Bool.toNat_le (writeEnable s i)
  have place : cell (next cfg s i) k = nextTable cfg s i (shift s.head (popped cfg s i + k)) := by
    rw [cell,next_table,next_head straight,shift_add]
  rw [place]
  by_cases within : popped cfg s i + k < held s
  · exact .inl ⟨within,table_inside valid offered within⟩
  · have write : writeEnable s i = true := by
      by_contra idle
      rw [Bool.not_eq_true] at idle
      rw [idle,Bool.toNat_false] at count
      omega
    rw [write,Bool.toNat_true] at count
    have last : popped cfg s i + k = held s := by omega
    exact .inr ⟨last,write,by rw [last]; exact table_tail valid offered write⟩

theorem flush_valid (flush : i.flush = true) : Valid (next cfg s i) := by
  have none : held (next cfg s i) = 0 := by simp [next,flush,held]
  have buffer : (next cfg s i).storeBuffer = StoreBuffer.next s.storeBuffer
      ⟨(reads cfg s i).sbWrite,headInstr s,i.flush,(reads cfg s i).sb⟩ := by
    simp [next,flush]
  refine ⟨?_,?_,?_,?_,?_,?_,?_⟩
  · simp [next,flush]
  · rw [none]
    simp [next,flush]
  · omega
  · intro k inside
    omega
  · intro k inside
    simp [next,flush] at inside
  · rw [buffer]
    exact StoreBuffer.flush_valid flush
  · rw [buffer,StoreBuffer.flush_contents flush]
    simp

theorem next_storeBuffer : (next cfg s i).storeBuffer = StoreBuffer.next s.storeBuffer
    ⟨(reads cfg s i).sbWrite,headInstr s,i.flush,(reads cfg s i).sb⟩ := by
  unfold next
  split <;> rfl

theorem next_stores (valid : Valid s) (straight : i.flush = false) :
    ∀ x ∈ StoreBuffer.contents (next cfg s i).storeBuffer, x.valid = true := by
  intro x present
  rw [next_storeBuffer,StoreBuffer.next_contents valid.buffer straight] at present
  rcases List.mem_append.mp (List.mem_of_mem_drop present) with old | new
  · exact valid.stores x old
  · split at new
    · rename_i writes
      simp only [StoreBuffer.writes,Bool.and_eq_true] at writes
      rw [List.mem_singleton.mp new]
      exact writes.1.1
    · cases new

theorem reset_valid : Valid (reset : State α) := by
  refine ⟨rfl,rfl,Nat.zero_le _,?_,?_,StoreBuffer.reset_valid,?_⟩
  · intro k inside
    exact absurd inside (Nat.not_lt_zero _)
  · intro k inside
    exact absurd inside (Nat.not_lt_zero _)
  · intro x present
    cases present

theorem next_valid (valid : Valid s) (offered : Offered cfg s i) : Valid (next cfg s i) := by
  cases straight : i.flush with
  | true => exact flush_valid straight
  | false =>
      have exe := @next_numToExe _ cfg s i _ valid straight
      have count := next_held valid offered straight
      have some := @popped_le _ cfg s i _
      have bound := writes_le valid offered
      have fits : popped cfg s i ≤ held s := Nat.le_trans some (Nat.le_add_right _ _)
      refine ⟨?_,?_,by omega,?_,?_,?_,next_stores valid straight⟩
      · have last : (next cfg s i).tlbTail = shift s.tlbTail (translates cfg s i).toNat := by
          simp only [next,straight,Bool.false_eq_true,if_false,shift,bit]
        rw [last,next_head straight,exe,valid.tlbTail,← shift_add,← shift_add,Nat.add_sub_cancel' (by omega)]
      · have last : (next cfg s i).tail = shift s.tail (writeEnable s i).toNat := by
          simp only [next,straight,Bool.false_eq_true,if_false,shift,bit]
        rw [last,next_head straight,count,valid.tail,← shift_add,← shift_add,Nat.add_sub_cancel' (by omega)]
      · intro k inside
        rcases next_cell valid offered straight inside with ⟨within,same⟩ | ⟨_,write,same⟩
        · have present := valid.valid _ within
          rw [same]
          split <;> exact present
        · have present : i.instruction.valid = true := by
            rw [writeEnable_eq valid offered,Bool.and_eq_true] at write
            exact write.1
          rw [same]
          split <;> exact present
      · intro k inside
        have below : k < held (next cfg s i) := Nat.lt_of_lt_of_le inside (Nat.le_add_right _ _)
        by_cases old : popped cfg s i + k < s.numToExe.val
        · rcases next_cell valid offered straight below with ⟨_,same⟩ | ⟨last,_⟩
          · rw [same,if_neg (fun both => by omega)]
            exact valid.translated _ old
          · unfold held at last
            omega
        · have taken : translates cfg s i = true := by
            by_contra idle
            rw [Bool.not_eq_true] at idle
            rw [idle,Bool.toNat_false] at exe
            omega
          rw [taken,Bool.toNat_true] at exe
          have here : popped cfg s i + k = s.numToExe.val := by omega
          obtain ⟨enable,⟨queued,more⟩ | ⟨incoming,write,whole⟩⟩ := translates_cases valid offered taken
          · rcases next_cell valid offered straight below with ⟨_,same⟩ | ⟨last,_⟩
            · rw [same,if_pos ⟨queued,here⟩]
              exact enable
            · omega
          · rcases next_cell valid offered straight below with ⟨within,_⟩ | ⟨_,_,same⟩
            · omega
            · rw [same,enable,incoming]
              exact enable
      · rw [next_storeBuffer]
        exact StoreBuffer.next_valid valid.buffer

theorem next_contents (valid : Valid s) (offered : Offered cfg s i) (straight : i.flush = false) :
    (contents (next cfg s i)).map erase = ((contents s).map erase ++
      if writeEnable s i then [erase i.instruction] else []).drop (popped cfg s i) := by
  have count := next_held valid offered straight
  apply List.ext_getElem
  · cases write : writeEnable s i <;> simp [contents,count,write]
  · intro k left right
    have inside : k < held (next cfg s i) := by simpa [contents] using left
    have cells : ((contents (next cfg s i)).map erase)[k] = erase (cell (next cfg s i) k) := by
      simp [contents,window_getElem,cell]
    rw [cells,List.getElem_drop]
    rcases next_cell valid offered straight inside with ⟨within,same⟩ | ⟨last,write,same⟩
    · rw [List.getElem_append_left (by simpa [contents] using within),same]
      simp only [contents,List.getElem_map,window_getElem]
      split <;> rfl
    · have behind : ((contents s).map erase).length ≤ popped cfg s i + k := by
        simp [contents,last]
      rw [List.getElem_append_right behind,same]
      simp only [write,if_true,List.getElem_singleton]
      split <;> rfl

theorem next_buffer (valid : Valid s) (straight : i.flush = false) :
    StoreBuffer.contents (next cfg s i).storeBuffer = (StoreBuffer.contents s.storeBuffer ++
      if (reads cfg s i).sbWrite then [cell s 0] else []).drop (reads cfg s i).sb.toNat := by
  have writes : StoreBuffer.writes s.storeBuffer ⟨(reads cfg s i).sbWrite,headInstr s,i.flush,(reads cfg s i).sb⟩ =
      (reads cfg s i).sbWrite := by
    rcases reads_cases cfg s i with ⟨same,_⟩ | ⟨same,_⟩ | ⟨⟨same,next,free⟩ | same,_⟩
    · simp [StoreBuffer.writes,same]
    · simp [StoreBuffer.writes,same]
    · have some := isNextStore_some next
      have present : (headInstr s).valid = true := by
        rw [headInstr_eq]
        exact valid.valid 0 (Nat.lt_of_lt_of_le some (Nat.le_add_right _ _))
      have room : s.storeBuffer.num.val < 8 := by
        simp only [StoreBuffer.full,Bool.or_eq_false_iff,decide_eq_false_iff_not] at free
        omega
      simp [StoreBuffer.writes,same,present,room]
    · simp [StoreBuffer.writes,same]
  have advances : StoreBuffer.advances s.storeBuffer ⟨(reads cfg s i).sbWrite,headInstr s,i.flush,(reads cfg s i).sb⟩ =
      (reads cfg s i).sb := by
    rcases reads_cases cfg s i with ⟨same,_⟩ | ⟨same,_,_,next⟩ | ⟨⟨same,_⟩ | same,_⟩
    · simp [StoreBuffer.advances,same]
    · have some : (0 : Fin 16) < s.storeBuffer.num := storeInSb_some next
      simp [StoreBuffer.advances,same,some]
    · simp [StoreBuffer.advances,same]
    · simp [StoreBuffer.advances,same]
  rw [next_storeBuffer,StoreBuffer.next_contents valid.buffer straight,writes,advances,headInstr_eq]

theorem next_sbNum (valid : Valid s) (straight : i.flush = false) : (next cfg s i).storeBuffer.num.val =
    s.storeBuffer.num.val + (reads cfg s i).sbWrite.toNat - (reads cfg s i).sb.toNat := by
  have lengths := congrArg List.length (@next_buffer _ cfg s i _ valid straight)
  rw [List.length_drop,List.length_append] at lengths
  cases write : (reads cfg s i).sbWrite <;> simpa [StoreBuffer.contents,write] using lengths

theorem parked_le : (reads cfg s i).sbWrite.toNat ≤ popped cfg s i := by
  unfold popped
  rcases reads_cases cfg s i with ⟨same,_⟩ | ⟨same,_⟩ | ⟨⟨same,_⟩ | same,_⟩ <;> simp [same]

theorem unbuffered_le : (reads cfg s i).sb.toNat ≤ s.storeBuffer.num.val := by
  rcases reads_cases cfg s i with ⟨same,_⟩ | ⟨same,_,_,store⟩ | ⟨⟨same,_⟩ | same,_⟩
  · simp [same]
  · have some := storeInSb_some store
    rw [same]
    exact some
  · simp [same]
  · simp [same]

end Reading

end Sargantana.LsqRefinement
