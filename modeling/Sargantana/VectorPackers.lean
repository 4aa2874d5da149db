import Sargantana.MemPipeline
import Sargantana.VloadGather
import Sargantana.LoadExtraction

-- The packers of mem_unit, in which the parts of a vector load are put together, and the
-- vector that it writes back.
namespace Sargantana.VectorPackers
open DracPkg MemPipeline Vagu Packed Window

-- What the packers read of an instruction beside the fields of MemInstr
structure VectorFields where
  vregfileWe : Bool
  dataOldVd : BitVec 128
  dataVm : BitVec 16
  velemOff : Nat
  negStride : Bool
  deriving DecidableEq, Inhabited

abbrev Instr := MemInstr VectorFields

-- The instruction as the loops of vdata_to_wb read it
def asRequest (x : Instr) : Output VectorFields := ⟨x,x.carried.velemOff,x.carried.negStride,0,0⟩

-- vload_packer_id_q, vload_packer_nelem_q and vload_packer_q of one entry
structure Packer where
  id : GlIndex
  nelem : Fin 32
  data : BitVec 128
  deriving DecidableEq

-- Of an entry that is free all bits of nelem are set.
def Packer.idle (e : Packer) : Bool := e.nelem == 31

def Packer.serves (e : Packer) (g : GlIndex) : Bool := e.id == g && !e.idle

-- VECTOR_PACKER_NUM_ENTRIES is 2.
structure State where
  entry : Fin 2 → Packer
  nfree : Fin 4

-- The entry of an instruction: the first one that has its index
def own (entry : Fin 2 → Packer) (g : GlIndex) : Option (Fin 2) :=
  if (entry 0).serves g then some 0 else if (entry 1).serves g then some 1 else none

-- vload_packer_write_idx, which stays zero when no entry is free
def writeIdx (s : State) : Fin 2 := if (s.entry 0).idle then 0 else if (s.entry 1).idle then 1 else 0

-- An instruction that loads a vector, with all of its elements or with some of them
def loadsVector (x : Instr) : Bool := x.valid && x.carried.vregfileWe

def partialVector (x : Instr) : Bool := decide (x.velemIncr.val < MemUnit.vlToDcache x)

-- vload_packer_write
def opens (s : State) (x : Instr) : Bool := loadsVector x && partialVector x && (own s.entry x.glIndex).isNone

-- The counter of the entry with the elements of this request; both have five bits.
def counted (s : State) (x : Instr) (i : Fin 2) : Fin 32 := (s.entry i).nelem + x.velemIncr

-- vload_packer_free
def frees (s : State) (x : Instr) : Bool :=
  loadsVector x && partialVector x && (own s.entry x.glIndex).any fun i => decide (MemUnit.vlToDcache x ≤ (counted s x i).val)

-- vload_packer_complete, in a cycle without flush
def completes (s : State) (x : Instr) : Bool := loadsVector x && !partialVector x || frees s x

def packed (s : State) (x : Instr) : BitVec 128 :=
  if loadsVector x then (own s.entry x.glIndex).elim (BitVec.allOnes 128) fun i => (s.entry i).data else BitVec.allOnes 128

def vdataToWb (s : State) (x : Instr) (dataToWb : BitVec 128) : BitVec 128 :=
  pack 128 (16 / 2 ^ x.sew.val) fun k =>
    (VloadGather.gather (asRequest x) k).elim (element (8 * 2 ^ x.sew.val) k (packed s x)) fun i => element (8 * 2 ^ x.sew.val) i dataToWb

-- The test of masked_data_to_wb for element k
def takes (x : Instr) (k : Nat) : Bool :=
  x.carried.dataVm.getLsbD k || (x.instrType == .vlm && x.sew == 0 && decide (k < x.velemIncr.val)) ||
    decide (MemUnit.vlToDcache x ≤ k)

def maskedDataToWb (s : State) (x : Instr) (dataToWb : BitVec 128) : BitVec 128 :=
  pack 128 (16 / 2 ^ x.sew.val) fun k =>
    if takes x k then element (8 * 2 ^ x.sew.val) k (vdataToWb s x dataToWb) else element (8 * 2 ^ x.sew.val) k x.carried.dataOldVd

def opened (s : State) (x : Instr) : Fin 2 → Packer :=
  if opens s x then Function.update s.entry (writeIdx s) ⟨x.glIndex,0,BitVec.allOnes 128⟩ else s.entry

def advanced (s : State) (e : Packer) (x : Instr) (dataToWb : BitVec 128) (i : Fin 2) : Packer :=
  if MemUnit.vlToDcache x ≤ (counted s x i).val then { e with nelem := 31 }
  else { e with nelem := counted s x i, data := maskedDataToWb s x dataToWb }

def filled (s : State) (after : Fin 2 → Packer) (x : Instr) (dataToWb : BitVec 128) : Fin 2 → Packer :=
  if loadsVector x && partialVector x then
    (own s.entry x.glIndex).elim after fun i => Function.update after i (advanced s (after i) x dataToWb i)
  else after

-- A cycle: flush_to_lsq, instruction_s1_d, and instruction_to_wb with data_to_wb
def next (s : State) (flush : Bool) (x : Instr) (wb : Option (Instr × BitVec 128)) : State :=
  if flush then ⟨fun i => { s.entry i with id := 0, nelem := 31 },2⟩
  else
    { entry := wb.elim (opened s x) fun w => filled s (opened s x) w.1 w.2
      nfree := s.nfree + bit (wb.any fun w => frees s w.1) - bit (opens s x) }

def reset : State := ⟨fun _ => ⟨0,31,0⟩,2⟩

-- vload_packer_full
def full (s : State) : Bool := s.nfree == 0

-- No instruction has two entries.
def Apart (entry : Fin 2 → Packer) : Prop :=
  ∀ i j, (entry i).idle = false → (entry j).idle = false → (entry i).id = (entry j).id → i = j

def content (entry : Fin 2 → Packer) (g : GlIndex) : Option (Fin 32 × BitVec 128) :=
  (own entry g).map fun i => ((entry i).nelem,(entry i).data)

def idles (entry : Fin 2 → Packer) : Nat := (entry 0).idle.toNat + (entry 1).idle.toNat

structure Sound (s : State) : Prop where
  apart : Apart s.entry
  count : s.nfree.val = idles s.entry

variable {s : State} {entry : Fin 2 → Packer} {e : Packer} {g : GlIndex} {i j : Fin 2} {x y : Instr} {data : BitVec 128}

theorem serves_iff : e.serves g = true ↔ e.id = g ∧ e.idle = false := by
  simp [Packer.serves]

theorem own_serves (some : own entry g = some i) : (entry i).serves g = true := by
  unfold own at some
  split at some
  · rename_i first
    cases some
    exact first
  · split at some
    · rename_i second
      cases some
      exact second
    · cases some

theorem own_none : own entry g = none ↔ ∀ i, (entry i).serves g = false := by
  constructor
  · intro none i
    unfold own at none
    split at none
    · cases none
    · rename_i first
      split at none
      · cases none
      · rename_i second
        rw [Bool.not_eq_true] at first second
        match i with
        | 0 => exact first
        | 1 => exact second
  · intro none
    simp [own,none 0,none 1]

theorem own_iff (apart : Apart entry) : own entry g = some i ↔ (entry i).serves g = true := by
  refine ⟨own_serves,fun serves => ?_⟩
  cases found : own entry g with
  | none =>
    rw [own_none.mp found i] at serves
    cases serves
  | some j =>
    obtain ⟨mine,busy⟩ := serves_iff.mp serves
    obtain ⟨yours,taken⟩ := serves_iff.mp (own_serves found)
    rw [apart i j busy taken (mine.trans yours.symm)]

theorem content_some (apart : Apart entry) (serves : (entry i).serves g = true) :
    content entry g = some ((entry i).nelem,(entry i).data) := by
  rw [content,(own_iff apart).mpr serves]
  rfl

theorem content_none : content entry g = none ↔ ∀ i, (entry i).serves g = false := by
  rw [content,Option.map_eq_none_iff,own_none]

theorem update_apart (apart : Apart entry) (alone : e.idle = false → ∀ i, i ≠ j → (entry i).serves e.id = false) :
    Apart (Function.update entry j e) := by
  intro a b busy taken same
  by_cases first : a = j
  · by_cases second : b = j
    · rw [first,second]
    · subst first
      rw [Function.update_self] at busy same
      rw [Function.update_of_ne second] at taken same
      have none := alone busy b second
      rw [serves_iff.mpr ⟨same.symm,taken⟩] at none
      cases none
  · rw [Function.update_of_ne first] at busy same
    by_cases second : b = j
    · subst second
      rw [Function.update_self] at taken same
      have none := alone taken a first
      rw [serves_iff.mpr ⟨same,busy⟩] at none
      cases none
    · rw [Function.update_of_ne second] at taken same
      exact apart a b busy taken same

theorem update_content (apart : Apart entry) (alone : e.idle = false → ∀ i, i ≠ j → (entry i).serves e.id = false) (g : GlIndex) :
    content (Function.update entry j e) g =
      if e.serves g then some (e.nelem,e.data) else if (entry j).serves g then none else content entry g := by
  have after := update_apart apart alone
  cases new : e.serves g with
  | true =>
    have here : (Function.update entry j e j).serves g = true := by rw [Function.update_self]; exact new
    rw [if_pos rfl,content_some after here,Function.update_self]
  | false =>
    rw [if_neg Bool.false_ne_true]
    cases old : (entry j).serves g with
    | true =>
      rw [if_pos rfl,content_none]
      intro i
      by_cases here : i = j
      · rw [here,Function.update_self,new]
      · rw [Function.update_of_ne here,Bool.eq_false_iff]
        intro serves
        exact here (Option.some.inj (((own_iff apart).mpr serves).symm.trans ((own_iff apart).mpr old)))
    | false =>
      rw [if_neg Bool.false_ne_true]
      cases found : own entry g with
      | none =>
        have none := own_none.mp found
        rw [content_none.mpr none,content_none]
        intro i
        by_cases here : i = j
        · rw [here,Function.update_self,new]
        · rw [Function.update_of_ne here,none i]
      | some i =>
        have serves := own_serves found
        have other : i ≠ j := by
          rintro rfl
          rw [old] at serves
          cases serves
        have still : (Function.update entry j e i).serves g = true := by rw [Function.update_of_ne other]; exact serves
        rw [content_some after still,content_some apart serves,Function.update_of_ne other]

theorem update_idles (entry : Fin 2 → Packer) (j : Fin 2) (e : Packer) :
    idles (Function.update entry j e) + (entry j).idle.toNat = idles entry + e.idle.toNat := by
  unfold idles
  match j with
  | 0 =>
    rw [Function.update_self,Function.update_of_ne (by decide)]
    omega
  | 1 =>
    rw [Function.update_self,Function.update_of_ne (by decide)]
    omega

theorem idles_le (entry : Fin 2 → Packer) : idles entry ≤ 2 := by
  have first := Bool.toNat_le (entry 0).idle
  have second := Bool.toNat_le (entry 1).idle
  unfold idles
  omega

theorem reset_sound : Sound reset := by
  refine ⟨?_,rfl⟩
  intro i j busy
  cases busy

theorem flush_sound (s : State) (x : Instr) (wb : Option (Instr × BitVec 128)) : Sound (next s true x wb) := by
  refine ⟨?_,rfl⟩
  intro i j busy
  cases busy

-- An entry is free when one is to be taken.
def Room (s : State) (x : Instr) : Prop := opens s x = true → 0 < idles s.entry

instance (s : State) (x : Instr) : Decidable (Room s x) := inferInstanceAs (Decidable (_ → _))

theorem room_idle (room : Room s x) (opens : opens s x = true) : (s.entry (writeIdx s)).idle = true := by
  have some := room opens
  unfold idles at some
  unfold writeIdx
  cases first : (s.entry 0).idle with
  | true => exact first
  | false =>
    cases second : (s.entry 1).idle with
    | true => exact second
    | false => simp [first,second] at some

theorem opens_none (opens : opens s x = true) : ∀ i, (s.entry i).serves x.glIndex = false := by
  rw [VectorPackers.opens,Bool.and_eq_true,Option.isNone_iff_eq_none] at opens
  exact own_none.mp opens.2

theorem opened_alone (opens : opens s x = true) (e : Packer) (same : e.id = x.glIndex) :
    e.idle = false → ∀ i, i ≠ j → (s.entry i).serves e.id = false := by
  rw [same]
  exact fun _ i _ => opens_none opens i

theorem opened_apart (sound : Sound s) : Apart (opened s x) := by
  unfold opened
  split
  · rename_i opens
    exact update_apart sound.apart (opened_alone opens _ rfl)
  · exact sound.apart

theorem opened_content (sound : Sound s) (room : Room s x) (g : GlIndex) : content (opened s x) g =
    if opens s x = true ∧ x.glIndex = g then some (0,BitVec.allOnes 128) else content s.entry g := by
  unfold opened
  split
  · rename_i opens
    have free : ∀ g, (s.entry (writeIdx s)).serves g = false := by simp [Packer.serves,room_idle room opens]
    rw [update_content sound.apart (opened_alone opens _ rfl),free g]
    by_cases mine : x.glIndex = g
    · rw [if_pos (serves_iff.mpr ⟨mine,rfl⟩),if_pos ⟨opens,mine⟩]
    · rw [if_neg (fun serves => mine (serves_iff.mp serves).1),if_neg Bool.false_ne_true,if_neg fun both => mine both.2]
  · rename_i closed
    rw [if_neg fun both => closed both.1]

theorem opened_idles (room : Room s x) : idles (opened s x) + (opens s x).toNat = idles s.entry := by
  unfold opened
  split
  · rename_i opens
    have change := update_idles s.entry (writeIdx s) ⟨x.glIndex,0,BitVec.allOnes 128⟩
    have taken : (⟨x.glIndex,0,BitVec.allOnes 128⟩ : Packer).idle = false := rfl
    rw [room_idle room opens,taken] at change
    rw [opens]
    exact change
  · rename_i closed
    rw [Bool.not_eq_true] at closed
    rw [closed]
    rfl

theorem opened_busy (room : Room s x) (busy : (s.entry i).idle = false) : opened s x i = s.entry i := by
  unfold opened
  split
  · rename_i opens
    refine Function.update_of_ne ?_ _ _
    rintro rfl
    rw [room_idle room opens] at busy
    cases busy
  · rfl

theorem vl_le (x : Instr) : MemUnit.vlToDcache x ≤ 31 := by
  have small := x.vl.isLt
  have row : 16 / 2 ^ x.sew.val ≤ 16 := Nat.div_le_self _ _
  unfold MemUnit.vlToDcache
  split <;> omega

theorem advanced_id (s : State) (e : Packer) (x : Instr) (data : BitVec 128) (i : Fin 2) : (advanced s e x data i).id = e.id := by
  unfold advanced
  split <;> rfl

theorem advanced_idle (s : State) (e : Packer) (x : Instr) (data : BitVec 128) (i : Fin 2) : (advanced s e x data i).idle = decide (MemUnit.vlToDcache x ≤ (counted s x i).val) := by
  have most := vl_le x
  unfold advanced
  split
  · rename_i last
    rw [decide_eq_true last]
    rfl
  · rename_i more
    rw [decide_eq_false more]
    change (counted s x i == 31) = false
    rw [beq_eq_false_iff_ne]
    intro same
    rw [same] at more
    exact more most

section
variable (sound : Sound s) (room : Room s x)
include sound room

omit sound in
theorem filled_shape (divided : (loadsVector y && partialVector y) = true) (mine : own s.entry y.glIndex = some i) : filled s (opened s x) y data =
    Function.update (opened s x) i (advanced s (s.entry i) y data i) := by
  have busy := (serves_iff.mp (own_serves mine)).2
  rw [filled,divided,if_pos rfl,mine,Option.elim_some,opened_busy room busy]

theorem filled_alone (mine : own s.entry y.glIndex = some i) :
    (advanced s (s.entry i) y data i).idle = false →
      ∀ k, k ≠ i → (opened s x k).serves (advanced s (s.entry i) y data i).id = false := by
  intro _ k other
  obtain ⟨same,busy⟩ := serves_iff.mp (own_serves mine)
  rw [advanced_id,same,Bool.eq_false_iff]
  intro serves
  have here : (opened s x i).serves y.glIndex = true := by rw [opened_busy room busy]; exact own_serves mine
  have both := ((own_iff (opened_apart sound)).mpr serves).symm.trans ((own_iff (opened_apart sound)).mpr here)
  exact other (Option.some.inj both)

theorem filled_content (divided : (loadsVector y && partialVector y) = true) (mine : own s.entry y.glIndex = some i) (g : GlIndex) : content (filled s (opened s x) y data) g =
    if y.glIndex = g then
      (if MemUnit.vlToDcache y ≤ (counted s y i).val then none else some (counted s y i,maskedDataToWb s y data))
    else content (opened s x) g := by
  obtain ⟨same,busy⟩ := serves_iff.mp (own_serves mine)
  rw [filled_shape room divided mine,update_content (opened_apart sound) (filled_alone sound room mine)]
  have before : (opened s x i).serves g = decide (y.glIndex = g) := by
    rw [opened_busy room busy,Bool.eq_iff_iff,serves_iff,same,busy]
    simp
  have after : (advanced s (s.entry i) y data i).serves g =
      (decide (y.glIndex = g) && !decide (MemUnit.vlToDcache y ≤ (counted s y i).val)) := by
    rw [Bool.eq_iff_iff,serves_iff,advanced_id,advanced_idle,same]
    simp
  rw [before,after]
  by_cases mine' : y.glIndex = g
  · by_cases last : MemUnit.vlToDcache y ≤ (counted s y i).val
    · simp [mine',last]
    · simp [mine',last,advanced]
  · simp [mine']

theorem filled_apart : Apart (filled s (opened s x) y data) := by
  cases divided : loadsVector y && partialVector y with
  | false =>
    rw [filled,divided,if_neg Bool.false_ne_true]
    exact opened_apart sound
  | true =>
    cases mine : own s.entry y.glIndex with
    | none =>
      rw [filled,divided,if_pos rfl,mine]
      exact opened_apart sound
    | some i =>
      rw [filled_shape room divided mine]
      exact update_apart (opened_apart sound) (filled_alone sound room mine)

omit sound in
theorem filled_idles : idles (filled s (opened s x) y data) = idles (opened s x) + (frees s y).toNat := by
  cases divided : loadsVector y && partialVector y with
  | false =>
    rw [filled,frees,divided,if_neg Bool.false_ne_true,Bool.false_and]
    rfl
  | true =>
    cases mine : own s.entry y.glIndex with
    | none =>
      rw [filled,frees,divided,if_pos rfl,mine]
      rfl
    | some i =>
      have busy := (serves_iff.mp (own_serves mine)).2
      have change := update_idles (opened s x) i (advanced s (s.entry i) y data i)
      rw [opened_busy room busy,busy,advanced_idle] at change
      rw [filled_shape room divided mine,frees,divided,mine]
      exact change

theorem next_sound (flush : Bool) (wb : Option (Instr × BitVec 128)) : Sound (next s flush x wb) := by
  cases flush with
  | true => exact flush_sound s x wb
  | false =>
    have least := opened_idles room
    have count := sound.count
    cases wb with
    | none =>
      refine ⟨opened_apart sound,?_⟩
      change (s.nfree + bit false - bit (opens s x)).val = idles (opened s x)
      have most := idles_le s.entry
      cases opens : opens s x <;> simp [opens,bit,Fin.sub_def] at least ⊢ <;> omega
    | some w =>
      refine ⟨filled_apart sound room,?_⟩
      have more := @filled_idles s x w.1 w.2 room
      have most := idles_le (filled s (opened s x) w.1 w.2)
      change (s.nfree + bit (frees s w.1) - bit (opens s x)).val = idles (filled s (opened s x) w.1 w.2)
      cases opens : opens s x <;> cases frees : frees s w.1 <;>
        simp [opens,frees,bit,Fin.sub_def,Fin.add_def] at least more ⊢ <;> omega

-- The cycle writes back no elements of instruction g.
theorem next_opened {wb : Option (Instr × BitVec 128)}
    (other : ∀ w, wb = some w → (loadsVector w.1 && partialVector w.1) = true → w.1.glIndex = g → content s.entry g = none) :
    content (next s false x wb).entry g =
      if opens s x = true ∧ x.glIndex = g then some (0,BitVec.allOnes 128) else content s.entry g := by
  rw [← opened_content sound room]
  cases wb with
  | none => rfl
  | some w =>
    change content (filled s (opened s x) w.1 w.2) g = _
    cases divided : loadsVector w.1 && partialVector w.1 with
    | false => rw [filled,divided,if_neg Bool.false_ne_true]
    | true =>
      cases mine : own s.entry w.1.glIndex with
      | none =>
        rw [filled,divided,if_pos rfl,mine]
        rfl
      | some i =>
        have apart : w.1.glIndex ≠ g := by
          intro same
          have none := content_none.mp (other w rfl divided same) i
          rw [← same,own_serves mine] at none
          cases none
        rw [filled_content sound room divided mine,if_neg apart]

-- It writes back some of its elements.
theorem next_filled {n : Fin 32} {v : BitVec 128} (data : BitVec 128) (divided : (loadsVector y && partialVector y) = true)
    (mine : content s.entry y.glIndex = some (n,v)) : content (next s false x (some (y,data))).entry y.glIndex =
      if MemUnit.vlToDcache y ≤ (n + y.velemIncr).val then none else some (n + y.velemIncr,maskedDataToWb s y data) := by
  obtain ⟨i,place,value⟩ := Option.map_eq_some_iff.mp mine
  obtain ⟨rfl,rfl⟩ := Prod.mk.inj value
  change content (filled s (opened s x) y data) y.glIndex = _
  rw [filled_content sound room divided place,if_pos rfl]
  rfl

end

-- Elements of the vector that is written back

theorem row_fits (e : Fin 4) : 16 / 2 ^ e.val * (8 * 2 ^ e.val) ≤ 128 := by
  revert e
  decide

theorem vdata_element {e k : Nat} (sew : x.sew.val = e) (inside : k < 16 / 2 ^ e) : element (8 * 2 ^ e) k (vdataToWb s x data) =
    (VloadGather.gather (asRequest x) k).elim (element (8 * 2 ^ e) k (packed s x)) fun i => element (8 * 2 ^ e) i data := by
  subst sew
  exact element_pack _ inside (row_fits x.sew)

theorem masked_element {e k : Nat} (sew : x.sew.val = e) (inside : k < 16 / 2 ^ e) :
    element (8 * 2 ^ e) k (maskedDataToWb s x data) =
      if takes x k then element (8 * 2 ^ e) k (vdataToWb s x data) else element (8 * 2 ^ e) k x.carried.dataOldVd := by
  subst sew
  exact element_pack _ inside (row_fits x.sew)

theorem packed_content (loads : loadsVector x = true) :
    packed s x = (content s.entry x.glIndex).elim (BitVec.allOnes 128) fun found => found.2 := by
  rw [packed,if_pos loads,content]
  cases own s.entry x.glIndex <;> rfl

end Sargantana.VectorPackers
