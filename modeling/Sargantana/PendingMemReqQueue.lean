import Sargantana.DracPkg
import Sargantana.Lib.Window

-- pending_mem_req_queue: the loads that wait for the data cache, in the order in which
-- they were accepted.
namespace Sargantana.PendingMemReqQueue
open DracPkg Window

variable {α δ : Type}

-- resp_dcache_cpu_t of a valid response. `δ` is bus_dcache_data_t.
structure Response (δ : Type) where
  rd : Fin 128
  data : δ
  deriving DecidableEq

-- An entry of instruction_table, tag_table and finish_bit_table. data_rs2 of the
-- instruction holds the data; the tag of an entry that waits for nothing is zero.
structure Slot (α δ : Type) where
  instruction : MemInstr α
  data : δ
  tag : Option (Fin 128)
  finishBit : Bool
  deriving DecidableEq

-- PMRQ_NUM_ENTRIES is 16.
structure State (α δ : Type) where
  table : Fin 16 → Slot α δ
  head : Fin 16
  tail : Fin 16
  num : Fin 32

-- The inputs of one clock cycle; mv_back_tail_i is never raised.
structure Input (α δ : Type) where
  instruction : MemInstr α
  tag : Fin 128
  replay : Option (Response δ)
  flush : Bool
  advanceHead : Bool

def writeEnable (s : State α δ) (i : Input α δ) : Bool := i.instruction.valid && decide (s.num.val < 16)

def advanceHeadEnable (s : State α δ) (i : Input α δ) : Bool := i.advanceHead && decide (0 < s.num.val)

def replayed (replay : Option (Response δ)) (slot : Slot α δ) : Slot α δ :=
  match replay with
  | none => slot
  | some r => if slot.tag = some r.rd then { slot with data := r.data, tag := none, finishBit := true } else slot

def finishInstr (s : State α δ) : Option (Slot α δ) :=
  if 0 < s.num.val ∧ (s.table s.head).finishBit = true then some (s.table s.head) else none

def full (s : State α δ) (flush : Bool) : Bool := decide (13 ≤ s.num.val) || flush

def reset [Inhabited α] [Inhabited δ] : State α δ := ⟨fun _ => ⟨MemInstr.zero,default,none,false⟩,0,0,0⟩

def written [Inhabited δ] (i : Input α δ) : Slot α δ := ⟨i.instruction,default,some i.tag,false⟩

-- The tables do not see flush_i: entries from before it keep their tags.
def next [Inhabited δ] (s : State α δ) (i : Input α δ) : State α δ where
  table :=
    let after := fun j => replayed i.replay (s.table j)
    if writeEnable s i then Function.update after s.tail (written i) else after
  head := if i.flush then 0 else s.head + bit (advanceHeadEnable s i)
  tail := if i.flush then 0 else s.tail + bit (writeEnable s i)
  num := if i.flush then 0 else s.num + bit (writeEnable s i) - bit (advanceHeadEnable s i)

structure Valid (s : State α δ) : Prop where
  tail : s.tail = shift s.head s.num.val
  room : s.num.val ≤ 16

def contents (s : State α δ) : List (Slot α δ) := window s.table s.head s.num.val

theorem contents_length (s : State α δ) : (contents s).length = s.num.val := window_length

theorem finishInstr_head (s : State α δ) : finishInstr s = (contents s).head?.filter (·.finishBit) := by
  unfold finishInstr contents
  cases count : s.num.val with
  | zero => simp
  | succ n =>
    rw [window_cons]
    by_cases finished : (s.table s.head).finishBit = true <;> simp [finished,Option.filter]

variable {s : State α δ} {i : Input α δ}

theorem advance_le : (advanceHeadEnable s i).toNat ≤ s.num.val := by
  cases advance : advanceHeadEnable s i with
  | false => exact Nat.zero_le _
  | true =>
    simp only [advanceHeadEnable,Bool.and_eq_true,decide_eq_true_eq] at advance
    exact advance.2

theorem write_le (valid : Valid s) : s.num.val + (writeEnable s i).toNat ≤ 16 := by
  cases write : writeEnable s i with
  | false => exact valid.room
  | true =>
    simp only [writeEnable,Bool.and_eq_true,decide_eq_true_eq] at write
    exact write.2

theorem reset_valid [Inhabited α] [Inhabited δ] : Valid (reset : State α δ) := ⟨by simp [reset],by simp [reset]⟩

variable [Inhabited δ]

theorem next_num (valid : Valid s) (straight : i.flush = false) :
    (next s i).num.val = s.num.val + (writeEnable s i).toNat - (advanceHeadEnable s i).toNat := by
  have room := @write_le _ _ s i valid
  have fits := @advance_le _ _ s i
  have shape : (next s i).num = s.num + bit (writeEnable s i) - bit (advanceHeadEnable s i) := by
    simp [next,straight]
  rw [shape]
  cases write : writeEnable s i <;> cases advance : advanceHeadEnable s i <;>
    simp only [write,advance,bit_false,bit_true,Bool.toNat_false,Bool.toNat_true] at room fits ⊢ <;> omega

theorem next_head (straight : i.flush = false) :
    (next s i).head = shift s.head (advanceHeadEnable s i).toNat := by
  simp only [next,straight,Bool.false_eq_true,if_false,shift,bit]

theorem next_valid (valid : Valid s) : Valid (next s i) := by
  cases straight : i.flush with
  | true => exact ⟨by simp [next,straight],by simp [next,straight]⟩
  | false =>
    have count := next_num valid straight
    have room := @write_le _ _ s i valid
    have fits := @advance_le _ _ s i
    refine ⟨?_,by omega⟩
    have last : (next s i).tail = shift s.tail (writeEnable s i).toNat := by
      simp only [next,straight,Bool.false_eq_true,if_false,shift,bit]
    rw [last,next_head straight,count,valid.tail,← shift_add,← shift_add,Nat.add_sub_cancel' (by omega)]

-- The write goes to a cell that no entry stands in, whatever tag it kept.
theorem next_contents (valid : Valid s) (straight : i.flush = false) : contents (next s i) =
    ((contents s).map (replayed i.replay) ++ if writeEnable s i then [written i] else []).drop
      (advanceHeadEnable s i).toNat := by
  have count := next_num valid straight
  have fits := @advance_le _ _ s i
  have before : window (fun j => replayed i.replay (s.table j)) s.head s.num.val = (contents s).map (replayed i.replay) := by
    simp [contents,window,Function.comp_def]
  have stored : window (next s i).table s.head (s.num.val + (writeEnable s i).toNat) =
      (contents s).map (replayed i.replay) ++ if writeEnable s i then [written i] else [] := by
    cases write : writeEnable s i with
    | false => simp [next,write,← before]
    | true =>
      have room := @write_le _ _ s i valid
      rw [write,Bool.toNat_true] at room
      simp only [next,write,if_true,Bool.toNat_true]
      rw [valid.tail,window_push (by omega),before]
  rw [← stored,window_drop (by omega),contents,next_head straight,count]

theorem flush_contents (flush : i.flush = true) : contents (next s i) = [] := by
  simp [contents,next,flush]

theorem next_idle (quiet : i.instruction.valid = false) (missed : i.replay = none) (straight : i.flush = false)
    (stays : i.advanceHead = false) : next s i = s := by
  have write : writeEnable s i = false := by simp [writeEnable,quiet]
  have advance : advanceHeadEnable s i = false := by simp [advanceHeadEnable,stays]
  cases s
  simp [next,write,advance,missed,straight,replayed]

end Sargantana.PendingMemReqQueue
