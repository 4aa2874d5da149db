import Sargantana.VectorPackers
import Sargantana.VloadElements
import Sargantana.LoadDelivery
import Mathlib.Algebra.Order.BigOperators.Group.Finset

-- A vector load from the requests of vagu to the vector that mem_unit writes back, over whole
-- runs.
namespace Sargantana.VloadAssembly
open DracPkg MemPipeline Vagu VaguPieces VaguCoverage VloadElements VectorPackers Packed StateMachine
open LoadCompletion (Tracked Contract Calm Answered depth)
open LoadDelivery (Presented Held Accepted Fair)
open LoadExtraction (Config dataToWb place sizeLog slice dataToWb_slice place_bits)

variable {α : Type} {c : Config}

def memElement (mem : BitVec 64 → BitVec 8) (e : Nat) (a : BitVec 64) : BitVec (8 * 2 ^ e) :=
  pack _ (2 ^ e) fun j => mem (a + BitVec.ofNat 64 j)

-- The line of the bus has the bytes of a request where the address places them.
def Serves (mem : BitVec 64 → BitVec 8) (r : Output α) (x : Instr) (line : c.Line) : Prop :=
  ∀ j a, VloadGather.sourceByte r j = some a →
    element 8 (place c (bytesLog x.memSize) x.dataRs1 * 2 ^ bytesLog x.memSize + j) line = mem a

section
variable {v : VectorInstr α} {r : Output α} {x : Instr} {line : c.Line} {mem : BitVec 64 → BitVec 8}

theorem bytesLog_size {memSize : BitVec 4} (size : memSize = lineSize ∨ memSize.toNat < 4) :
    sizeLog memSize = bytesLog memSize ∧ bytesLog memSize ≤ 4 ∧ memSize.toNat ≤ 8 := by
  rcases size with rfl | small
  · decide
  · have sizes : ∀ m : BitVec 4, m.toNat < 4 → sizeLog m = bytesLog m ∧ bytesLog m ≤ 4 ∧ m.toNat ≤ 8 := by decide
    exact sizes memSize small

theorem element_signExtend {m n w k : Nat} (y : BitVec m) (inside : k * w + w ≤ m) (fits : k * w + w ≤ n) :
    element w k (y.signExtend n) = element w k y := by
  refine BitVec.eq_of_getLsbD_eq fun j below => ?_
  have first : k * w + j < m := by omega
  have second : k * w + j < n := by omega
  rw [element_bit,element_bit,BitVec.getLsbD_signExtend]
  simp [first,second]

theorem dataToWb_byte {memSize : BitVec 4} {dataRs1 : BitVec 64} (size : memSize = lineSize ∨ memSize.toNat < 4) {j : Nat}
    (inside : j < 2 ^ bytesLog memSize) : element 8 j (dataToWb c memSize dataRs1 line) =
      element 8 (place c (bytesLog memSize) dataRs1 * 2 ^ bytesLog memSize + j) line := by
  obtain ⟨same,narrow,known⟩ := bytesLog_size size
  have rows : 2 ^ bytesLog memSize * 8 = 8 * 2 ^ bytesLog memSize := Nat.mul_comm _ _
  have most : 2 ^ bytesLog memSize ≤ 2 ^ 4 := Nat.pow_le_pow_right (by decide) narrow
  have start : place c (bytesLog memSize) dataRs1 * 2 ^ (3 + bytesLog memSize) =
      8 * 2 ^ bytesLog memSize * place c (bytesLog memSize) dataRs1 := by
    rw [place_bits,Nat.mul_comm 8,Nat.mul_assoc,Nat.mul_comm]
  have part : element 8 j (slice c (bytesLog memSize) dataRs1 line) =
      element 8 (place c (bytesLog memSize) dataRs1 * 2 ^ bytesLog memSize + j) line := by
    rw [slice,start,element_slice rows _ inside]
  rw [dataToWb_slice known,same]
  split
  · rw [element_signExtend _ (by omega) (by omega),part]
  · rw [element_setWidth _ (by omega),part]

theorem element_bytes {n e i j : Nat} (y : BitVec n) (inside : j < 2 ^ e) :
    element 8 j (element (8 * 2 ^ e) i y) = element 8 (i * 2 ^ e + j) y := by
  rw [element,element,Nat.mul_comm i (8 * 2 ^ e)]
  exact element_slice (Nat.mul_comm _ _) y inside

theorem memElement_byte {e j : Nat} (a : BitVec 64) (inside : j < 2 ^ e) :
    element 8 j (memElement mem e a) = mem (a + BitVec.ofNat 64 j) :=
  element_pack _ inside (Nat.le_of_eq (Nat.mul_comm _ _))

theorem brought_element (fetches : Fetches v r) (size : x.memSize = r.instr.memSize) (serves : Serves mem r x line) {k i : Nat}
    (taken : VloadGather.gather r k = some i) : element (8 * 2 ^ registerLog v) i (dataToWb c x.memSize x.dataRs1 line) =
      memElement mem (registerLog v) (elemAddr v k) := by
  refine elements_ext (w := 8) (k := 2 ^ registerLog v) (Nat.le_of_eq (Nat.mul_comm _ _)) fun j inside => ?_
  have source := (fetches.brought k i taken).2 j inside
  have known := fetches.size
  rw [← size] at known
  have within : i * 2 ^ registerLog v + j < 2 ^ bytesLog x.memSize := by
    rw [size]
    unfold VloadGather.sourceByte at source
    dsimp only at source
    split at source
    · rename_i within
      exact within
    · cases source
  rw [element_bytes _ inside,dataToWb_byte known within,serves _ _ source,memElement_byte _ inside]

end

-- The load/store queue hands on a request of a load, for an old register and a graduation
-- index, with its address translated.
structure Hands (v : VectorInstr α) (old : BitVec 128) (g : GlIndex) (r : Output α) (x : Instr) : Prop where
  valid : x.valid = true
  type : x.instrType = r.instr.instrType
  size : x.memSize = r.instr.memSize
  sew : x.sew = r.instr.sew
  vl : x.vl = r.instr.vl
  place : x.velemId = r.instr.velemId
  mask : x.loadMask = r.instr.loadMask
  incr : x.velemIncr = r.instr.velemIncr
  reads : x.isAmoOrStore = false ∧ x.isStore = false
  index : x.glIndex = g
  fields : x.carried = ⟨true,old,v.dataVm,r.velemOff,r.negStride⟩

-- It finds no fault.
structure Issues (v : VectorInstr α) (old : BitVec 128) (g : GlIndex) (r : Output α) (x : Instr) : Prop extends Hands v old g r x where
  clean : x.ex.valid = false

-- instruction_to_lsq; the immediate of a vector load is zero.
def queued (v : VectorInstr α) (old : BitVec 128) (r : Output α) : Instr where
  valid := r.instr.valid
  instrType := r.instr.instrType
  memType := r.instr.memType
  memSize := r.instr.memSize
  dataRs1 := r.instr.dataRs1
  sew := r.instr.sew
  vl := r.instr.vl
  isAmoOrStore := r.instr.isAmoOrStore
  isAmo := r.instr.isAmo
  isStore := r.instr.isStore
  translated := false
  ex := Exception.none
  glIndex := r.instr.glIndex
  vmisalignXcpt := r.instr.vmisalignXcpt
  velemId := r.instr.velemId
  loadMask := r.instr.loadMask
  velemIncr := r.instr.velemIncr
  carried := ⟨true,old,v.dataVm,r.velemOff,r.negStride⟩

theorem translate_hands {v : VectorInstr α} {r : Output α} (fetches : Fetches v r)
    (reads : r.instr.isAmoOrStore = false ∧ r.instr.isStore = false) (old : BitVec 128) (cfg : LoadStoreQueue.Config) (l : LoadStoreQueue.Lookup) :
    Hands v old r.instr.glIndex r (LoadStoreQueue.translate cfg l (queued v old r)) :=
  ⟨fetches.valid,rfl,rfl,rfl,rfl,rfl,rfl,rfl,reads,rfl,rfl⟩

-- The vector that a load is to write: elements of memory where the load is active, the old ones
-- where it is masked off, and ones beyond vl
structure Assembled (v : VectorInstr α) (old : BitVec 128) (mem : BitVec 64 → BitVec 8) (result : BitVec 128) : Prop where
  active : ∀ k < vaguVl v, Active v k → element (8 * 2 ^ registerLog v) k result = memElement mem (registerLog v) (elemAddr v k)
  masked : ∀ k < vaguVl v, ¬ Active v k → element (8 * 2 ^ registerLog v) k result = element (8 * 2 ^ registerLog v) k old
  tail : ∀ k, vaguVl v ≤ k → k < 16 / 2 ^ registerLog v → element (8 * 2 ^ registerLog v) k result = BitVec.allOnes _

structure Packs (v : VectorInstr α) (mem : BitVec 64 → BitVec 8) (given : Nat → Prop) (word : BitVec 128) : Prop where
  active : ∀ k < vaguVl v, Active v k → given k → element (8 * 2 ^ registerLog v) k word = memElement mem (registerLog v) (elemAddr v k)
  tail : ∀ k, vaguVl v ≤ k → k < 16 / 2 ^ registerLog v → element (8 * 2 ^ registerLog v) k word = BitVec.allOnes _

section
variable {v : VectorInstr α} {old : BitVec 128} {g : GlIndex} {r : Output α} {x : Instr} {line : c.Line} {mem : BitVec 64 → BitVec 8}
  {s : VectorPackers.State} {given : Nat → Prop}

theorem element_ones {n w k : Nat} (fits : k * w + w ≤ n) : element w k (BitVec.allOnes n) = BitVec.allOnes w := by
  refine BitVec.eq_of_getLsbD_eq fun j below => ?_
  have inside : k * w + j < n := by omega
  rw [element_bit,BitVec.getLsbD_allOnes,BitVec.getLsbD_allOnes]
  simp [below,inside]

theorem register_fits {e k : Nat} (inside : k < 16 / 2 ^ e) : k * (8 * 2 ^ e) + 8 * 2 ^ e ≤ 128 := by
  have rows : (k + 1) * 2 ^ e ≤ 16 / 2 ^ e * 2 ^ e := Nat.mul_le_mul_right _ inside
  have whole := Nat.div_mul_le_self 16 (2 ^ e)
  have place : k * (8 * 2 ^ e) + 8 * 2 ^ e = 8 * ((k + 1) * 2 ^ e) := by
    rw [Nat.add_mul,Nat.one_mul,Nat.mul_add,Nat.mul_left_comm]
  omega

theorem Packs.empty (v : VectorInstr α) (mem : BitVec 64 → BitVec 8) : Packs v mem (fun _ => False) (BitVec.allOnes 128) :=
  ⟨fun _ _ _ none => none.elim,fun _ _ inside => element_ones (register_fits inside)⟩

theorem issued_gather (fetches : Fetches v r) (issues : Issues v old g r x) :
    VloadGather.gather (asRequest x) = VloadGather.gather r := by
  have slots : VloadGather.slot (asRequest x) = VloadGather.slot r := by
    funext packed
    simp only [VloadGather.slot,VloadGather.elements,asRequest,issues.place,issues.sew]
  funext k
  simp only [VloadGather.gather,slots]
  simp only [VloadGather.elements,asRequest,issues.fields,issues.mask,issues.incr,issues.sew,issues.clean,fetches.quiet]

theorem issued_vl (fetches : Fetches v r) (issues : Hands v old g r x) : MemUnit.vlToDcache x = vaguVl v := by
  rw [← fetches.vl]
  simp only [MemUnit.vlToDcache,issues.type,issues.vl,issues.sew]

theorem issued_takes (load : Load v) (fetches : Fetches v r) (issues : Hands v old g r x) {k : Nat} (inside : k < vaguVl v) :
    takes x k = true ↔ Active v k := by
  have most := vaguVl_le load.decoded
  have length := issued_vl fetches issues
  unfold takes Active
  rw [length,decide_eq_false (by omega : ¬ vaguVl v ≤ k),Bool.or_false,Bool.or_eq_true,issues.fields]
  constructor
  · rintro (set | mask)
    · exact .inr set
    · simp only [Bool.and_eq_true,beq_iff_eq,decide_eq_true_eq] at mask
      obtain ⟨⟨type,sew⟩,below⟩ := mask
      rw [issues.type] at type
      rw [issues.sew] at sew
      rw [issues.incr] at below
      exact fetches.mask type (congrArg Fin.val sew) k below inside
  · rintro (plain | set)
    · exact .inl (unmasked_active load.decoded k (by omega) plain)
    · exact .inl set

theorem packs_masked (load : Load v) (fetches : Fetches v r) (issues : Issues v old g r x) (serves : Serves mem r x line)
    (packs : Packs v mem given (packed s x)) :
    Packs v mem (fun k => given k ∨ ∃ i, VloadGather.gather r k = some i) (maskedDataToWb s x (dataToWb c x.memSize x.dataRs1 line)) := by
  have sew : x.sew.val = registerLog v := by rw [issues.sew,fetches.sew]
  have room := load.room
  have length := issued_vl fetches issues.toHands
  constructor
  · intro k below active brought
    have inside : k < 16 / 2 ^ registerLog v := by omega
    rw [masked_element sew inside,if_pos ((issued_takes load fetches issues.toHands below).mpr active),vdata_element sew inside,
      issued_gather fetches issues]
    cases taken : VloadGather.gather r k with
    | some i => exact brought_element fetches issues.size serves taken
    | none =>
      rcases brought with before | ⟨i,now⟩
      · exact packs.active k below active before
      · rw [taken] at now
        cases now
  · intro k beyond inside
    have tail : takes x k = true := by
      unfold takes
      rw [length,decide_eq_true beyond,Bool.or_true]
    have none : VloadGather.gather r k = none := by
      cases taken : VloadGather.gather r k with
      | none => rfl
      | some i =>
        have below := (fetches.brought k i taken).1
        omega
    rw [masked_element sew inside,if_pos tail,vdata_element sew inside,issued_gather fetches issues,none]
    exact packs.tail k beyond inside

-- With all active elements it is the vector to write.
theorem packs_assembled (load : Load v) (fetches : Fetches v r) (issues : Issues v old g r x) (serves : Serves mem r x line)
    (packs : Packs v mem given (packed s x)) (all : ∀ k < vaguVl v, Active v k → given k ∨ ∃ i, VloadGather.gather r k = some i) :
    Assembled v old mem (maskedDataToWb s x (dataToWb c x.memSize x.dataRs1 line)) := by
  have sew : x.sew.val = registerLog v := by rw [issues.sew,fetches.sew]
  have room := load.room
  have done := packs_masked load fetches issues serves packs
  refine ⟨fun k below active => done.active k below active (all k below active),?_,done.tail⟩
  intro k below idle
  have skips : takes x k = false := by
    rw [Bool.eq_false_iff]
    exact fun taken => idle ((issued_takes load fetches issues.toHands below).mp taken)
  rw [masked_element sew (by omega),skips,if_neg Bool.false_ne_true,issues.fields]

end

-- mem_unit with the packers of its loads
structure State (c : Config) where
  tracked : Tracked VectorFields c.Line
  packers : VectorPackers.State

-- Stage 0 sees whether the packers are full.
def connect (p : VectorPackers.State) (i : Input VectorFields c.Line) : Input VectorFields c.Line :=
  { i with signals := { i.signals with vloadPackerFull := full p } }

-- instruction_to_wb with data_to_wb
def toWb (reg : Bool) (s : MemPipeline.State VectorFields c.Line) (i : Input VectorFields c.Line) : Option (Instr × BitVec 128) :=
  (writeback reg s i).map fun w => (w.2.1,dataToWb c w.2.1.memSize w.2.1.dataRs1 w.2.2)

def next (reg : Bool) (s : State c) (i : Input VectorFields c.Line) : State c where
  tracked := LoadCompletion.trackedNext reg s.tracked (connect s.packers i)
  packers := VectorPackers.next s.packers i.flush (s1D s.tracked.core (connect s.packers i)) (toWb reg s.tracked.core (connect s.packers i))

-- The contract of the memory unit; the decoder makes no store that writes a vector register.
def machine (c : Config) (reg : Bool) : Machine (State c) (Input VectorFields c.Line) where
  initial := ⟨(LoadCompletion.machine reg).initial,VectorPackers.reset⟩
  allowed s i := Contract s.tracked (connect s.packers i) ∧ (i.shown.carried.vregfileWe = true → i.shown.isStore = false)
  step := next reg

-- instruction_simd_o when it is valid: the instruction and vresult
def simd (reg : Bool) (s : State c) (i : Input VectorFields c.Line) : Option (Instr × BitVec 128) :=
  ((toWb reg s.tracked.core (connect s.packers i)).filter fun w =>
    loadsVector w.1 && (i.flush || completes s.packers w.1 || w.1.ex.valid)).map fun w => (w.1,maskedDataToWb s.packers w.1 w.2)

-- No response is taken for that of an instruction without a request, and no request that faults
-- takes a packer while both are in use.
structure Orderly (reg : Bool) (s : State c) (i : Input VectorFields c.Line) : Prop where
  calm : Calm reg s.tracked (connect s.packers i)
  room : (s1D s.tracked.core (connect s.packers i)).ex.valid = true →
    opens s.packers (s1D s.tracked.core (connect s.packers i)) = true → full s.packers = false

section
variable {reg : Bool} {inputs : Nat → Input VectorFields c.Line}

-- What the memory unit is given in each cycle
def fed (reg : Bool) (inputs : Nat → Input VectorFields c.Line) (u : Nat) : Input VectorFields c.Line :=
  connect (trace (machine c reg) inputs u).packers (inputs u)

theorem tracked_trace (u : Nat) : (trace (machine c reg) inputs u).tracked = trace (LoadCompletion.machine reg) (fed reg inputs) u :=
  trace_part State.tracked (LoadCompletion.machine reg) (fed reg inputs) rfl (fun _ => rfl) u

theorem fed_admits (admits : Admits (machine c reg) inputs) : Admits (LoadCompletion.machine reg) (fed reg inputs) := by
  intro u
  rw [← tracked_trace]
  exact (admits u).1

theorem fed_calm (orderly : ∀ u, Orderly reg (trace (machine c reg) inputs u) (inputs u)) (u : Nat) :
    Calm reg (trace (LoadCompletion.machine reg) (fed reg inputs) u) (fed reg inputs u) := by
  rw [← tracked_trace]
  exact (orderly u).calm

-- A request that does not fault waits until it can have a packer.
theorem advance_unblocked {sig : MemUnit.Signals} {x : Instr} (goes : (MemUnit.request sig x).advance = true) (clean : x.ex.valid = false) :
    MemUnit.packerBlocked sig x = false := by
  unfold MemUnit.request at goes
  rw [clean] at goes
  simp only [Bool.and_false,Bool.false_and,Bool.false_eq_true,if_false] at goes
  split at goes
  · cases goes
  · rename_i free
    simp only [Bool.or_eq_true,not_or,Bool.not_eq_true] at free
    exact free.2

theorem s1D_valid {s : MemPipeline.State VectorFields c.Line} {i : Input VectorFields c.Line} (valid : (s1D s i).valid = true) :
    s1D s i = i.shown ∧ (MemPipeline.request s i).advance = true := by
  unfold s1D at valid ⊢
  split at valid
  · rename_i goes
    exact ⟨if_pos goes,goes⟩
  · cases valid

theorem advance_request {s : MemPipeline.State VectorFields c.Line} {i : Input VectorFields c.Line} (goes : (MemPipeline.request s i).advance = true) :
    i.flush = false ∧ (MemUnit.request (MemPipeline.wired s i) i.shown).advance = true := by
  unfold MemPipeline.request at goes
  split at goes
  · cases goes
  · rename_i runs
    simp only [Bool.or_eq_true,not_or,Bool.not_eq_true] at runs
    exact ⟨runs.1,goes⟩

theorem packer_room (sound : Sound s.packers) (i : Input VectorFields c.Line) (load : i.shown.carried.vregfileWe = true → i.shown.isStore = false)
    (orderly : Orderly reg s i) : Room s.packers (s1D s.tracked.core (connect s.packers i)) := by
  intro opened
  have free : full s.packers = false := by
    cases fault : (s1D s.tracked.core (connect s.packers i)).ex.valid with
    | true => exact orderly.room fault opened
    | false =>
      have parts := opened
      simp only [opens,loadsVector,Bool.and_eq_true] at parts
      obtain ⟨⟨⟨valid,writes⟩,divided⟩,_⟩ := parts
      obtain ⟨same,goes⟩ := s1D_valid valid
      rw [same] at fault writes divided
      change partialVector i.shown = true at divided
      have blocked := advance_unblocked (advance_request goes).2 fault
      change (partialVector i.shown && ((full s.packers && !i.shown.isStore) || (i.signals.vstorePackerFull && i.shown.isStore))) = false at blocked
      rw [divided,load writes] at blocked
      simpa using blocked
  have count := sound.count
  rw [full,beq_eq_false_iff_ne] at free
  by_contra none
  exact free (Fin.ext (by rw [count]; exact Nat.eq_zero_of_not_pos none))

theorem packers_sound (admits : Admits (machine c reg) inputs) (orderly : ∀ u, Orderly reg (trace (machine c reg) inputs u) (inputs u)) (u : Nat) :
    Sound (trace (machine c reg) inputs u).packers := by
  induction u with
  | zero => exact reset_sound
  | succ u ih => exact next_sound ih (packer_room ih (inputs u) (admits u).2 (orderly u)) _ _

-- The pipeline and the packers in a cycle
def core (reg : Bool) (inputs : Nat → Input VectorFields c.Line) (u : Nat) : MemPipeline.State VectorFields c.Line :=
  (trace (LoadCompletion.machine reg) (fed reg inputs) u).core

def packers (reg : Bool) (inputs : Nat → Input VectorFields c.Line) (u : Nat) : VectorPackers.State :=
  (trace (machine c reg) inputs u).packers

theorem packers_step (straight : (inputs u).flush = false) : packers reg inputs (u + 1) =
    VectorPackers.next (packers reg inputs u) false (s1D (core reg inputs u) (fed reg inputs u)) (toWb reg (core reg inputs u) (fed reg inputs u)) := by
  unfold core
  rw [← tracked_trace,← straight]
  rfl

def Passes (reg : Bool) (inputs : Nat → Input VectorFields c.Line) (n : Nat) : Prop :=
  (s1D (core reg inputs n) (fed reg inputs n)).valid = true

theorem passes_shown {n : Nat} (passes : Passes reg inputs n) :
    s1D (core reg inputs n) (fed reg inputs n) = (inputs n).shown ∧ (inputs n).shown.valid = true := by
  have same := (s1D_valid passes).1
  refine ⟨same,?_⟩
  have valid : (s1D (core reg inputs n) (fed reg inputs n)).valid = true := passes
  rw [same] at valid
  exact valid

theorem taken_passes {n : Nat} (taken : LoadCompletion.taken (core reg inputs n) (fed reg inputs n) = true) : Passes reg inputs n := by
  obtain ⟨valid,goes,_⟩ := LoadCompletion.taken_cases (core reg inputs n) (fed reg inputs n)
  rw [taken,eq_comm,Bool.and_eq_true] at goes
  unfold Passes s1D
  rw [if_pos goes.1]
  exact valid goes.1

theorem passes_accepted {n : Nat} (passes : Passes reg inputs n) (reads : (inputs n).shown.isAmoOrStore = false ∧ (inputs n).shown.isStore = false)
    (clean : (inputs n).shown.ex.valid = false) : Accepted reg (fed reg inputs) n ∧ (inputs n).flush = false := by
  obtain ⟨_,goes⟩ := s1D_valid passes
  have asked : asks (fed reg inputs n).shown = true := by
    change asks (inputs n).shown = true
    simp only [asks,clean,reads.1]
    rfl
  refine ⟨⟨?_,reads.2,?_⟩,(advance_request goes).1⟩
  · obtain ⟨_,same,_⟩ := LoadCompletion.taken_cases (core reg inputs n) (fed reg inputs n)
    rw [goes,asked] at same
    exact same
  · change ((fed reg inputs n).io && (inputs n).shown.isAmoOrStore) = false
    rw [reads.1,Bool.and_false]

theorem depth_pos (reg : Bool) : 0 < depth reg := by
  cases reg <;> decide

theorem last_passed {start u : Nat} (later : start ≤ u) (valid : (last reg (core reg inputs u)).instruction.valid = true) :
    (∃ n, start ≤ n ∧ n + depth reg = u ∧ Passes reg inputs n ∧ (last reg (core reg inputs u)).instruction = (inputs n).shown) ∨
      (last reg (core reg inputs u)).instruction = (core reg inputs start).s1.instruction ∨
      (last reg (core reg inputs u)).instruction = (core reg inputs start).s2.instruction := by
  have first : ∀ w, start ≤ w → (core reg inputs w).s1.instruction.valid = true →
      (∃ n, start ≤ n ∧ n + 1 = w ∧ Passes reg inputs n ∧ (core reg inputs w).s1.instruction = (inputs n).shown) ∨
        (core reg inputs w).s1.instruction = (core reg inputs start).s1.instruction := by
    intro w after valid
    by_cases now : w = start
    · right
      rw [now]
    · obtain ⟨n,rfl⟩ : ∃ n, w = n + 1 := ⟨w - 1,by omega⟩
      left
      change (nextS1 (core reg inputs n) (fed reg inputs n)).instruction.valid = true at valid
      change ∃ m, start ≤ m ∧ m + 1 = n + 1 ∧ Passes reg inputs m ∧ (nextS1 (core reg inputs n) (fed reg inputs n)).instruction = _
      unfold nextS1 at valid ⊢
      split at valid
      · cases valid
      · rename_i straight
        rw [if_neg straight]
        exact ⟨n,by omega,rfl,valid,(passes_shown valid).1⟩
  cases reg with
  | false => exact (first u later valid).imp_right .inl
  | true =>
    by_cases now : u = start
    · exact .inr (.inr (by rw [now]; rfl))
    · obtain ⟨w,rfl⟩ : ∃ w, u = w + 1 := ⟨u - 1,by omega⟩
      change (if (fed true inputs w).flush || !true then StageReg.zero else (core true inputs w).s1).instruction.valid = true at valid
      change (∃ n, start ≤ n ∧ n + 2 = w + 1 ∧ Passes true inputs n ∧
        (if (fed true inputs w).flush || !true then StageReg.zero else (core true inputs w).s1).instruction = (inputs n).shown) ∨
          (if (fed true inputs w).flush || !true then StageReg.zero else (core true inputs w).s1).instruction = _ ∨
          (if (fed true inputs w).flush || !true then StageReg.zero else (core true inputs w).s1).instruction = _
      split at valid
      · cases valid
      · rename_i straight
        rw [if_neg straight]
        rcases first w (by omega) valid with ⟨n,after,before,passes,same⟩ | same
        · exact .inl ⟨n,after,congrArg (· + 1) before,passes,same⟩
        · exact .inr (.inl same)

-- The last stage writes back without a response when its instruction faults, or is an AMO or a
-- store outside of the cached memory.
theorem stage_source {s : MemPipeline.State VectorFields c.Line} {i : Input VectorFields c.Line} {source : Source}
    (found : stageWb reg s i = some source) : (last reg s).instruction.valid = true ∧
      (source = .response ∨ (source = .exception ∧ (last reg s).instruction.ex.valid = true) ∨
        (source = .io ∧ (last reg s).isStoreOrAmo = true)) := by
  unfold stageWb at found
  cases valid : (last reg s).instruction.valid with
  | false => simp [valid] at found
  | true =>
    rw [valid] at found
    simp only [Bool.not_true,Bool.false_eq_true,if_false] at found
    refine ⟨rfl,?_⟩
    split at found
    · exact .inl (Option.some.inj found).symm
    · split at found
      · rename_i fault
        exact .inr (.inl ⟨(Option.some.inj found).symm,fault⟩)
      · split at found
        · rename_i io
          exact .inr (.inr ⟨(Option.some.inj found).symm,(Bool.and_eq_true _ _ ▸ io).2⟩)
        · cases found

theorem writeback_stage {s : MemPipeline.State VectorFields c.Line} {i : Input VectorFields c.Line} {source : Source} {x : Instr}
    {line : c.Line} (found : writeback reg s i = some (source,x,line)) (other : source ≠ .queue) :
    stageWb reg s i = some source ∧ (last reg s).instruction = x := by
  unfold writeback at found
  split at found
  · rename_i chosen
    cases Option.some.inj found
    exact ⟨chosen,rfl⟩
  · rename_i chosen
    cases Option.some.inj found
    exact ⟨chosen,rfl⟩
  · obtain ⟨slot,_,same⟩ := Option.map_eq_some_iff.mp found
    cases same
    exact absurd rfl other

-- Nothing in the memory unit has this graduation index, and no packer is kept for it.
structure Fresh (reg : Bool) (inputs : Nat → Input VectorFields c.Line) (start : Nat) (g : GlIndex) : Prop where
  s1 : (core reg inputs start).s1.instruction.valid = true → (core reg inputs start).s1.instruction.glIndex ≠ g
  s2 : (core reg inputs start).s2.instruction.valid = true → (core reg inputs start).s2.instruction.glIndex ≠ g
  held : ∀ n, Held (trace (LoadCompletion.machine reg) (fed reg inputs) start) n → (inputs n).shown.glIndex ≠ g
  packer : content (packers reg inputs start).entry g = none

section
variable (admits : Admits (machine c reg) inputs) (orderly : ∀ u, Orderly reg (trace (machine c reg) inputs u) (inputs u))
include admits orderly

theorem fed_invariant (u : Nat) :
    LoadCompletion.Invariant reg (fed reg inputs) u (trace (LoadCompletion.machine reg) (fed reg inputs) u) :=
  LoadCompletion.trace_invariant (fed_admits admits) (fed_calm orderly) u

theorem writeback_source {u : Nat} {source : Source} {x : Instr} {line : c.Line}
    (found : writeback reg (core reg inputs u) (fed reg inputs u) = some (source,x,line)) :
    (∃ n, Presented reg (fed reg inputs) u n x line) ∨
      (x = (last reg (core reg inputs u)).instruction ∧ x.valid = true ∧ (x.ex.valid = true ∨ x.isAmoOrStore = true)) := by
  have inv := fed_invariant admits orderly u
  have known := LoadDelivery.writeback_presented (fed_admits admits) (fed_calm orderly) found
  cases source with
  | queue =>
    obtain ⟨_,slot,first,_⟩ := writeback_queue.mp found
    obtain ⟨slots,table⟩ := List.head?_eq_some_iff.mp first
    have pairs := inv.queue
    rw [show PendingMemReqQueue.contents (trace (LoadCompletion.machine reg) (fed reg inputs) u).core.pmrq = slot :: slots from table,
      List.forall₂_cons_right_iff] at pairs
    obtain ⟨n,rest,_,_,queue⟩ := pairs
    exact .inl ⟨n,LoadDelivery.presented_queue (by rw [queue]; rfl) found⟩
  | response =>
    obtain ⟨chosen,rfl⟩ := writeback_stage found (by decide)
    cases fault : (last reg (core reg inputs u)).instruction.ex.valid with
    | false => exact .inl (known (.inl rfl) fault)
    | true => exact .inr ⟨rfl,(stage_source chosen).1,.inl rfl⟩
  | exception =>
    obtain ⟨chosen,rfl⟩ := writeback_stage found (by decide)
    obtain ⟨valid,response | ⟨_,fault⟩ | ⟨io,_⟩⟩ := stage_source chosen
    · cases response
    · exact .inr ⟨rfl,valid,.inl fault⟩
    · cases io
  | io =>
    obtain ⟨chosen,rfl⟩ := writeback_stage found (by decide)
    obtain ⟨valid,response | ⟨fault,_⟩ | ⟨_,kind⟩⟩ := stage_source chosen
    · cases response
    · cases fault
    · exact .inr ⟨rfl,valid,.inr (((LoadCompletion.last_stage inv).kind valid).1 ▸ kind)⟩

-- A write back of an index that nothing had when the cycle `start` began is that of an
-- instruction that was passed on since.
theorem own_writes {g : GlIndex} {start u : Nat} (fresh : Fresh reg inputs start g) (later : start ≤ u) {source : Source} {x : Instr} {line : c.Line}
    (found : writeback reg (core reg inputs u) (fed reg inputs u) = some (source,x,line)) (mine : x.glIndex = g) (valid : x.valid = true) :
    ∃ n, start ≤ n ∧ n < u ∧ Passes reg inputs n ∧ x = (inputs n).shown ∧
      (Presented reg (fed reg inputs) u n x line ∨ (n + depth reg = u ∧ (x.ex.valid = true ∨ x.isAmoOrStore = true))) := by
  rcases writeback_source admits orderly found with ⟨n,shown⟩ | ⟨same,_,kind⟩
  · obtain ⟨live,_⟩ := LoadDelivery.presented_sound (fed_invariant admits orderly u) shown
    refine ⟨n,?_,live.before,taken_passes live.taken,live.op.symm,.inl shown⟩
    by_contra before
    have held := LoadDelivery.presented_held (fed_invariant admits orderly u) shown
    have earlier := LoadDelivery.held_earlier (fed_admits admits) (fed_calm orderly) held later (by omega)
    exact fresh.held n earlier ((congrArg MemInstr.glIndex live.op).trans mine)
  · rw [same] at valid mine
    rcases last_passed later valid with ⟨n,after,here,passes,shown⟩ | first | second
    · exact ⟨n,after,by have deep := depth_pos reg; omega,passes,same.trans shown,.inr ⟨here,kind⟩⟩
    · rw [first] at valid mine
      exact absurd mine (fresh.s1 valid)
    · rw [second] at valid mine
      exact absurd mine (fresh.s2 valid)

end

end

-- The requests of a load pass stage 0 in the cycles of `times`, asked n in cycle n, and the data
-- cache answers them from memory.
structure Handed (reg : Bool) (inputs : Nat → Input VectorFields c.Line) (v : VectorInstr α) (old : BitVec 128) (mem : BitVec 64 → BitVec 8)
    (g : GlIndex) (start : Nat) (times : Finset Nat) (asked : Nat → Output α) : Prop where
  load : Load v
  fresh : Fresh reg inputs start g
  later : ∀ n ∈ times, start ≤ n
  passes : ∀ n ∈ times, Passes reg inputs n
  issues : ∀ n ∈ times, Issues v old g (asked n) (inputs n).shown
  fetches : ∀ n ∈ times, Fetches v (asked n)
  served : ∀ n ∈ times, ∀ u line, Answered reg (fed reg inputs) u n line → Serves mem (asked n) (inputs n).shown line
  total : ∑ n ∈ times, counted (asked n) ≤ vaguVl v

-- From `start` on there is no flush, and what passes with the index of the load is one of its
-- requests, or one of the others.
def Window (inputs : Nat → Input VectorFields c.Line) (reg : Bool) (g : GlIndex) (mine : Nat → Prop) (start u : Nat) : Prop :=
  ∀ n, start ≤ n → n < u → (inputs n).flush = false ∧ (Passes reg inputs n → (inputs n).shown.glIndex = g → mine n)

-- Only requests of the load are written back with its index.
def Quiet (reg : Bool) (inputs : Nat → Input VectorFields c.Line) (g : GlIndex) (times : Finset Nat) (start u : Nat) : Prop :=
  ∀ w, start ≤ w → w < u → ∀ source x line, writeback reg (core reg inputs w) (fed reg inputs w) = some (source,x,line) →
    x.valid = true → x.glIndex = g → ∃ n ∈ times, Presented reg (fed reg inputs) w n x line

open Classical in
-- The requests that have been written back before cycle u
noncomputable def done (reg : Bool) (inputs : Nat → Input VectorFields c.Line) (times : Finset Nat) (u : Nat) : Finset Nat :=
  times.filter fun n => ∃ w < u, ∃ x line, Presented reg (fed reg inputs) w n x line

def given (reg : Bool) (inputs : Nat → Input VectorFields c.Line) (times : Finset Nat) (asked : Nat → Output α) (u k : Nat) : Prop :=
  ∃ n ∈ done reg inputs times u, ∃ i, VloadGather.gather (asked n) k = some i

section
variable {reg : Bool} {inputs : Nat → Input VectorFields c.Line} {v : VectorInstr α} {old : BitVec 128} {mem : BitVec 64 → BitVec 8}
  {g : GlIndex} {start u n : Nat} {times : Finset Nat} {asked : Nat → Output α} {others : Nat → Prop} {x : Instr} {line : c.Line}

theorem mem_done : n ∈ done reg inputs times u ↔ n ∈ times ∧ ∃ w < u, ∃ x line, Presented reg (fed reg inputs) w n x line := by
  classical
  rw [done,Finset.mem_filter]

theorem done_later (inside : n ∈ done reg inputs times u) : n ∈ done reg inputs times (u + 1) := by
  obtain ⟨member,w,before,shown⟩ := mem_done.mp inside
  exact mem_done.mpr ⟨member,w,by omega,shown⟩

theorem presented_same {m : Nat} {y : Instr} {other : c.Line} (one : Presented reg (fed reg inputs) u n x line)
    (two : Presented reg (fed reg inputs) u m y other) : n = m := by
  have same := Option.some.inj (one.symm.trans two)
  exact (Prod.mk.inj same).1

theorem presented_toWb (shown : Presented reg (fed reg inputs) u n x line) :
    toWb reg (core reg inputs u) (fed reg inputs u) = some (x,dataToWb c x.memSize x.dataRs1 line) := by
  rcases LoadDelivery.presented_cases shown with ⟨found,_⟩ | ⟨found,_⟩
  · exact congrArg _ found
  · exact congrArg _ found

theorem done_quiet (none : ∀ n ∈ times, ∀ x line, ¬ Presented reg (fed reg inputs) u n x line) :
    done reg inputs times (u + 1) = done reg inputs times u := by
  ext m
  refine ⟨fun inside => ?_,done_later⟩
  obtain ⟨member,w,before,x,line,shown⟩ := mem_done.mp inside
  by_cases now : w = u
  · rw [now] at shown
    exact absurd shown (none m member x line)
  · exact mem_done.mpr ⟨member,w,by omega,x,line,shown⟩

theorem done_insert (member : n ∈ times) (shown : Presented reg (fed reg inputs) u n x line) :
    done reg inputs times (u + 1) = insert n (done reg inputs times u) := by
  ext m
  rw [Finset.mem_insert]
  constructor
  · intro inside
    obtain ⟨there,w,before,y,other,again⟩ := mem_done.mp inside
    by_cases now : w = u
    · rw [now] at again
      exact .inl (presented_same again shown)
    · exact .inr (mem_done.mpr ⟨there,w,by omega,y,other,again⟩)
  · rintro (rfl | inside)
    · exact mem_done.mpr ⟨member,u,Nat.lt_succ_self u,x,line,shown⟩
    · exact done_later inside

-- What the packers hold of the load in cycle u: nothing yet, and only requests for all of its
-- elements have passed; or the elements of the requests that were written back; or nothing any
-- more.
def Stands (reg : Bool) (inputs : Nat → Input VectorFields c.Line) (v : VectorInstr α) (mem : BitVec 64 → BitVec 8) (g : GlIndex)
    (times : Finset Nat) (asked : Nat → Output α) (u : Nat) : Prop :=
  (content (packers reg inputs u).entry g = none ∧ ∀ n ∈ times, n < u → vaguVl v ≤ counted (asked n)) ∨
  (∃ t d, content (packers reg inputs u).entry g = some (t,d) ∧ t.val = ∑ n ∈ done reg inputs times u, counted (asked n) ∧
    Packs v mem (given reg inputs times asked u) d ∧ ∀ n ∈ times, counted (asked n) < vaguVl v) ∨
  (content (packers reg inputs u).entry g = none ∧ vaguVl v ≤ ∑ n ∈ done reg inputs times u, counted (asked n))

section
variable (handed : Handed reg inputs v old mem g start times asked)
include handed

theorem counted_request (member : n ∈ times) : (inputs n).shown.velemIncr.val = counted (asked n) :=
  congrArg Fin.val (handed.issues n member).incr

theorem request_part (member : n ∈ times) : partialVector (inputs n).shown = decide (counted (asked n) < vaguVl v) := by
  unfold partialVector
  rw [issued_vl (handed.fetches n member) (handed.issues n member).toHands,counted_request handed member]

theorem request_loads (member : n ∈ times) : loadsVector (inputs n).shown = true := by
  have issues := handed.issues n member
  rw [loadsVector,issues.valid,issues.fields]
  rfl

variable (reg inputs times asked) in
omit handed in
theorem done_total (u : Nat) : ∑ n ∈ done reg inputs times u, counted (asked n) ≤ ∑ n ∈ times, counted (asked n) :=
  Finset.sum_le_sum_of_subset fun _ inside => (mem_done.mp inside).1

theorem alone_request (member : n ∈ times) (whole : vaguVl v ≤ counted (asked n)) {m : Nat} (there : m ∈ times) : m = n := by
  by_contra other
  have both : counted (asked n) + counted (asked m) ≤ ∑ n ∈ times, counted (asked n) := by
    rw [← Finset.sum_pair (f := fun n => counted (asked n)) (Ne.symm other)]
    refine Finset.sum_le_sum_of_subset ?_
    intro k inside
    rcases Finset.mem_insert.mp inside with rfl | inside
    · exact member
    · rw [Finset.mem_singleton.mp inside]
      exact there
  have some := (handed.fetches m there).counts
  have total := handed.total
  omega

theorem done_missing (member : n ∈ times) (missing : n ∉ done reg inputs times u) :
    ∑ m ∈ done reg inputs times u, counted (asked m) < vaguVl v := by
  have some := (handed.fetches n member).counts
  have most : ∑ m ∈ insert n (done reg inputs times u), counted (asked m) ≤ ∑ n ∈ times, counted (asked n) := by
    refine Finset.sum_le_sum_of_subset fun m inside => ?_
    rcases Finset.mem_insert.mp inside with rfl | inside
    · exact member
    · exact (mem_done.mp inside).1
  rw [Finset.sum_insert missing] at most
  have total := handed.total
  omega

theorem parts_of_part (member : n ∈ times) (part : counted (asked n) < vaguVl v) : ∀ m ∈ times, counted (asked m) < vaguVl v := by
  intro m there
  by_contra whole
  rw [alone_request handed there (by omega) member] at part
  omega

variable (admits : Admits (machine c reg) inputs) (orderly : ∀ u, Orderly reg (trace (machine c reg) inputs u) (inputs u))
include admits orderly

omit handed in
theorem done_new (shown : Presented reg (fed reg inputs) u n x line) : n ∉ done reg inputs times u := by
  intro inside
  obtain ⟨_,w,before,y,other,again⟩ := mem_done.mp inside
  have same := LoadDelivery.presented_once (fed_admits admits) (fed_calm orderly) again shown
  omega

variable (asked) in
omit handed in
theorem done_more (member : n ∈ times) (shown : Presented reg (fed reg inputs) u n x line) :
    ∑ m ∈ done reg inputs times (u + 1), counted (asked m) = (∑ m ∈ done reg inputs times u, counted (asked m)) + counted (asked n) := by
  rw [done_insert member shown,Finset.sum_insert (done_new admits orderly shown),Nat.add_comm]

theorem presented_request (member : n ∈ times) (shown : Presented reg (fed reg inputs) u n x line) :
    n < u ∧ x = (inputs n).shown ∧ Serves mem (asked n) (inputs n).shown line := by
  obtain ⟨live,answered⟩ := LoadDelivery.presented_sound (fed_invariant admits orderly u) shown
  exact ⟨live.before,live.op.symm,handed.served n member _ line answered⟩

omit handed in
theorem step_sound (u : Nat) : Sound (packers reg inputs u) ∧
    Room (packers reg inputs u) (s1D (core reg inputs u) (fed reg inputs u)) := by
  have sound := packers_sound admits orderly u
  refine ⟨sound,?_⟩
  have room := packer_room sound (inputs u) (admits u).2 (orderly u)
  rw [tracked_trace] at room
  exact room

theorem done_none (parts : ∀ n ∈ times, counted (asked n) < vaguVl v) (before : ∀ n ∈ times, n < u → vaguVl v ≤ counted (asked n)) :
    done reg inputs times u = ∅ := by
  rw [Finset.eq_empty_iff_forall_notMem]
  intro n inside
  obtain ⟨member,w,earlier,x,line,shown⟩ := mem_done.mp inside
  obtain ⟨after,_⟩ := presented_request handed admits orderly member shown
  have whole := before n member (by omega)
  have part := parts n member
  omega

theorem done_short (member : n ∈ times) (later : u ≤ n) : ∑ m ∈ done reg inputs times u, counted (asked m) < vaguVl v := by
  refine done_missing handed member fun inside => ?_
  obtain ⟨_,w,before,x,line,shown⟩ := mem_done.mp inside
  obtain ⟨after,_⟩ := presented_request handed admits orderly member shown
  omega

-- The packers when an answer to a request of the load is written back
theorem presented_stands (stands : Stands reg inputs v mem g times asked u) (member : n ∈ times)
    (shown : Presented reg (fed reg inputs) u n x line) :
    (counted (asked n) < vaguVl v ∧ (∀ m ∈ times, counted (asked m) < vaguVl v) ∧
      ∃ t d, content (packers reg inputs u).entry g = some (t,d) ∧
        (t + (inputs n).shown.velemIncr).val = ∑ m ∈ done reg inputs times (u + 1), counted (asked m) ∧
        Packs v mem (given reg inputs times asked u) d) ∨
    (vaguVl v ≤ counted (asked n) ∧ content (packers reg inputs u).entry g = none ∧ done reg inputs times u = ∅) := by
  have before := (presented_request handed admits orderly member shown).1
  have more := done_more asked admits orderly member shown
  have total := handed.total
  have total' := done_total reg inputs times asked (u + 1)
  have most := vaguVl_le handed.load.decoded
  have some := (handed.fetches n member).counts
  by_cases divided : counted (asked n) < vaguVl v
  · rcases stands with ⟨_,whole⟩ | ⟨t,d,found,count,packs,parts⟩ | ⟨_,full⟩
    · have := whole n member before
      omega
    · refine .inl ⟨divided,parts,t,d,found,?_,packs⟩
      rw [more,Fin.val_add,count,counted_request handed member]
      exact Nat.mod_eq_of_lt (by omega)
    · omega
  · rcases stands with ⟨closed,_⟩ | ⟨_,_,_,_,_,parts⟩ | ⟨_,full⟩
    · refine .inr ⟨by omega,closed,?_⟩
      rw [Finset.eq_empty_iff_forall_notMem]
      intro m inside
      have same := alone_request handed member (by omega) (mem_done.mp inside).1
      rw [same] at inside
      exact done_new admits orderly shown inside
    · exact absurd (parts n member) divided
    · omega

-- The write back is complete with the last elements, and the packer has the earlier ones.
theorem presented_completes (stands : Stands reg inputs v mem g times asked u) (member : n ∈ times)
    (shown : Presented reg (fed reg inputs) u n x line) :
    completes (packers reg inputs u) x = decide (vaguVl v ≤ ∑ m ∈ done reg inputs times (u + 1), counted (asked m)) ∧
      Packs v mem (given reg inputs times asked u) (packed (packers reg inputs u) x) := by
  obtain ⟨before,rfl,serves⟩ := presented_request handed admits orderly member shown
  have index := (handed.issues n member).index
  have loads := request_loads handed member
  have part := request_part handed member
  have length := issued_vl (handed.fetches n member) (handed.issues n member).toHands
  unfold completes frees
  rw [packed_content loads,loads,part,length,index]
  rcases presented_stands handed admits orderly stands member shown with ⟨divided,_,t,d,found,sum,packs⟩ | ⟨whole,closed,empty⟩
  · rw [found,decide_eq_true divided]
    obtain ⟨i,place,value⟩ := Option.map_eq_some_iff.mp found
    obtain ⟨rfl,rfl⟩ := Prod.mk.inj value
    refine ⟨?_,packs⟩
    rw [place,← sum]
    rfl
  · have more := done_more asked admits orderly member shown
    rw [closed,decide_eq_false (by omega : ¬ counted (asked n) < vaguVl v),decide_eq_true (by omega)]
    refine ⟨rfl,?_⟩
    have nothing : given reg inputs times asked u = fun _ => False := by
      funext k
      simp [given,empty]
    rw [nothing]
    exact Packs.empty v mem

section
variable (later : start ≤ u) (window : Window inputs reg g (fun n => n ∈ times ∨ others n) start (u + 1))
  (extra : ∀ n, others n → ∑ n ∈ times, counted (asked n) < vaguVl v)
include later window extra

-- A packer is taken by a request for part of the load, or by another instruction with its index.
theorem opened_parts (opened : opens (packers reg inputs u) (s1D (core reg inputs u) (fed reg inputs u)) = true)
    (mine : (s1D (core reg inputs u) (fed reg inputs u)).glIndex = g) :
    (∀ n ∈ times, counted (asked n) < vaguVl v) ∧ ∑ m ∈ done reg inputs times u, counted (asked m) < vaguVl v := by
  have parts := opened
  simp only [opens,loadsVector,Bool.and_eq_true] at parts
  obtain ⟨⟨⟨valid,_⟩,divided⟩,_⟩ := parts
  have passes : Passes reg inputs u := valid
  obtain ⟨same,_⟩ := passes_shown passes
  rw [same] at mine divided
  have total := done_total reg inputs times asked u
  rcases (window u later (Nat.lt_succ_self u)).2 passes mine with member | other
  · rw [request_part handed member,decide_eq_true_eq] at divided
    exact ⟨parts_of_part handed member divided,done_short handed admits orderly member (Nat.le_refl u)⟩
  · have short := extra u other
    refine ⟨fun n member => ?_,by omega⟩
    have one := Finset.single_le_sum (f := fun n => counted (asked n)) (fun _ _ => Nat.zero_le _) member
    exact lt_of_le_of_lt one short

theorem stands_silent (quiet : Quiet reg inputs g times start (u + 1)) (stands : Stands reg inputs v mem g times asked u)
    (none : ∀ n ∈ times, ∀ x line, ¬ Presented reg (fed reg inputs) u n x line) : Stands reg inputs v mem g times asked (u + 1) := by
  obtain ⟨sound,room⟩ := step_sound admits orderly u
  have same := done_quiet none
  have other : ∀ w, toWb reg (core reg inputs u) (fed reg inputs u) = some w → (loadsVector w.1 && partialVector w.1) = true →
      w.1.glIndex = g → content (packers reg inputs u).entry g = Option.none := by
    intro w found loads mine
    obtain ⟨⟨source,x,line⟩,wrote,rfl⟩ := Option.map_eq_some_iff.mp found
    simp only [loadsVector,Bool.and_eq_true] at loads
    obtain ⟨n,member,shown⟩ := quiet u later (Nat.lt_succ_self u) source x line wrote loads.1.1 mine
    exact absurd shown (none n member x line)
  have after := next_opened sound room other
  rw [← packers_step (window u later (Nat.lt_succ_self u)).1] at after
  by_cases opened : opens (packers reg inputs u) (s1D (core reg inputs u) (fed reg inputs u)) = true ∧
      (s1D (core reg inputs u) (fed reg inputs u)).glIndex = g
  · obtain ⟨parts,short⟩ := opened_parts handed admits orderly later window extra opened.1 opened.2
    rw [if_pos opened] at after
    have free := content_none.mpr (opens_none opened.1)
    rw [opened.2] at free
    rcases stands with ⟨_,before⟩ | ⟨t,d,found,_⟩ | ⟨_,full⟩
    · have empty := done_none handed admits orderly parts before
      refine .inr (.inl ⟨0,_,after,?_,?_,parts⟩)
      · rw [same,empty]
        rfl
      · have nothing : given reg inputs times asked (u + 1) = fun _ => False := by
          funext k
          simp [given,same,empty]
        rw [nothing]
        exact Packs.empty v mem
    · rw [free] at found
      cases found
    · omega
  · rw [if_neg opened] at after
    rcases stands with ⟨closed,before⟩ | ⟨t,d,found,count,packs,parts⟩ | ⟨closed,full⟩
    · refine .inl ⟨after.trans closed,fun n member earlier => ?_⟩
      by_cases now : n = u
      · subst now
        by_contra part
        have passes := handed.passes n member
        obtain ⟨shown,_⟩ := passes_shown passes
        have index := (handed.issues n member).index
        refine opened ⟨?_,by rw [shown]; exact index⟩
        rw [opens,shown,request_loads handed member,request_part handed member,decide_eq_true (by omega : counted (asked n) < vaguVl v),
          index,own_none.mpr (content_none.mp closed)]
        rfl
      · exact before n member (by omega)
    · refine .inr (.inl ⟨t,d,after.trans found,by rw [same]; exact count,?_,parts⟩)
      unfold given at packs ⊢
      rw [same]
      exact packs
    · exact .inr (.inr ⟨after.trans closed,by rw [same]; exact full⟩)

theorem stands_presented (stands : Stands reg inputs v mem g times asked u) (member : n ∈ times)
    (shown : Presented reg (fed reg inputs) u n x line) : Stands reg inputs v mem g times asked (u + 1) := by
  obtain ⟨sound,room⟩ := step_sound admits orderly u
  obtain ⟨before,rfl,serves⟩ := presented_request handed admits orderly member shown
  have wrote := presented_toWb shown
  have index := (handed.issues n member).index
  have straight := (window u later (Nat.lt_succ_self u)).1
  have loads := request_loads handed member
  have part := request_part handed member
  have length := issued_vl (handed.fetches n member) (handed.issues n member).toHands
  rcases presented_stands handed admits orderly stands member shown with ⟨divided,parts,t,d,found,sum,packs⟩ | ⟨whole,closed,empty⟩
  · rw [decide_eq_true divided] at part
    have both : (loadsVector (inputs n).shown && partialVector (inputs n).shown) = true := by rw [loads,part]; rfl
    rw [← index] at found
    have after := next_filled sound room (dataToWb c (inputs n).shown.memSize (inputs n).shown.dataRs1 line) both found
    rw [← wrote,← packers_step straight,index,length,sum] at after
    by_cases last : vaguVl v ≤ ∑ m ∈ done reg inputs times (u + 1), counted (asked m)
    · rw [if_pos last] at after
      exact .inr (.inr ⟨after,last⟩)
    · rw [if_neg last] at after
      refine .inr (.inl ⟨_,_,after,sum,?_,parts⟩)
      have word : packed (packers reg inputs u) (inputs n).shown = d := by rw [packed_content loads,found]; rfl
      have grown := packs_masked handed.load (handed.fetches n member) (handed.issues n member) serves
        (show Packs v mem (given reg inputs times asked u) (packed (packers reg inputs u) (inputs n).shown) by rw [word]; exact packs)
      refine ⟨fun k below active now => grown.active k below active ?_,grown.tail⟩
      obtain ⟨m,inside,i,taken⟩ := now
      rw [done_insert member shown] at inside
      rcases Finset.mem_insert.mp inside with rfl | earlier
      · exact .inr ⟨i,taken⟩
      · exact .inl ⟨m,earlier,i,taken⟩
  · have none : ∀ w, toWb reg (core reg inputs u) (fed reg inputs u) = some w → (loadsVector w.1 && partialVector w.1) = true →
        w.1.glIndex = g → content (packers reg inputs u).entry g = Option.none := fun _ _ _ _ => closed
    have after := next_opened sound room none
    rw [← packers_step straight] at after
    have more := done_more asked admits orderly member shown
    rw [if_neg] at after
    · exact .inr (.inr ⟨after.trans closed,by omega⟩)
    · intro opened
      have parts := (opened_parts handed admits orderly later window extra opened.1 opened.2).1 n member
      omega

end

-- The induction is on the cycles since the load could begin.
theorem stands_run (others : Nat → Prop) (extra : ∀ n, others n → ∑ n ∈ times, counted (asked n) < vaguVl v) (d : Nat)
    (window : Window inputs reg g (fun n => n ∈ times ∨ others n) start (start + d)) (quiet : Quiet reg inputs g times start (start + d)) :
    Stands reg inputs v mem g times asked (start + d) := by
  induction d with
  | zero =>
    refine .inl ⟨handed.fresh.packer,fun n member before => ?_⟩
    have := handed.later n member
    omega
  | succ d ih =>
    have stands := ih (fun n after before => window n after (by omega)) (fun w after before => quiet w after (by omega))
    by_cases shown : ∃ n ∈ times, ∃ x line, Presented reg (fed reg inputs) (start + d) n x line
    · obtain ⟨n,member,x,line,shown⟩ := shown
      exact stands_presented handed admits orderly (Nat.le_add_right start d) window extra stands member shown
    · exact stands_silent handed admits orderly (Nat.le_add_right start d) window extra quiet stands
        fun n member x line now => shown ⟨n,member,x,line,now⟩

end

end

-- A vector is written back for this graduation index.
def Writes (reg : Bool) (inputs : Nat → Input VectorFields c.Line) (g : GlIndex) (u : Nat) (result : BitVec 128) : Prop :=
  ∃ x, simd reg (trace (machine c reg) inputs u) (inputs u) = some (x,result) ∧ x.glIndex = g

-- The requests of a load as the load/store queue hands them on, in their order: asked n is the one
-- that passes stage 0 in cycle n.
structure Loaded (reg : Bool) (inputs : Nat → Input VectorFields c.Line) (v : VectorInstr α) (old : BitVec 128) (mem : BitVec 64 → BitVec 8)
    (g : GlIndex) (start : Nat) (requests : List (Output α)) (times : List Nat) (asked : Nat → Output α) : Prop where
  fresh : Fresh reg inputs start g
  all : requests = times.map asked
  ordered : times.Pairwise (· < ·)
  later : ∀ n ∈ times, start ≤ n
  passes : ∀ n ∈ times, Passes reg inputs n
  issues : ∀ n ∈ times, Issues v old g (asked n) (inputs n).shown
  served : ∀ n ∈ times, ∀ u line, Answered reg (fed reg inputs) u n line → Serves mem (asked n) (inputs n).shown line

-- From `start` to cycle u there is no flush, and only the requests of the load have its index.
def Undisturbed (reg : Bool) (inputs : Nat → Input VectorFields c.Line) (g : GlIndex) (times : List Nat) (start u : Nat) : Prop :=
  start ≤ u ∧ ∀ n, start ≤ n → n ≤ u → (inputs n).flush = false ∧ (Passes reg inputs n → (inputs n).shown.glIndex = g → n ∈ times)

-- The load is written back once, with the vector that it is to write; and it is written back when
-- the data cache answers and the graduation list does not give its index out before that.
structure WritesOnce (reg : Bool) (inputs : Nat → Input VectorFields c.Line) (v : VectorInstr α) (old : BitVec 128) (mem : BitVec 64 → BitVec 8)
    (g : GlIndex) (start : Nat) (times : List Nat) : Prop where
  right : ∀ u result, Undisturbed reg inputs g times start u → Writes reg inputs g u result → Assembled v old mem result
  once : ∀ u w result other, Undisturbed reg inputs g times start u → Undisturbed reg inputs g times start w →
    Writes reg inputs g u result → Writes reg inputs g w other → u = w
  comes : Fair reg (fed reg inputs) → (∀ u, start ≤ u → (inputs u).flush = false) →
    (∀ n, start ≤ n → Passes reg inputs n → (inputs n).shown.glIndex = g → n ∈ times ∨ ∃ u < n, start ≤ u ∧ ∃ result, Writes reg inputs g u result) →
    ∃ u result, Undisturbed reg inputs g times start u ∧ Writes reg inputs g u result

section
variable {reg : Bool} {inputs : Nat → Input VectorFields c.Line} {v : VectorInstr α} {old : BitVec 128} {mem : BitVec 64 → BitVec 8}
  {g : GlIndex} {start : Nat} {requests : List (Output α)} {times : List Nat} {asked : Nat → Output α}

theorem Loaded.distinct (loaded : Loaded reg inputs v old mem g start requests times asked) : times.Nodup :=
  loaded.ordered.imp fun less => Nat.ne_of_lt less

theorem Loaded.sum (loaded : Loaded reg inputs v old mem g start requests times asked) (fetched : Fetched v requests) :
    ∑ n ∈ times.toFinset, counted (asked n) = vaguVl v := by
  rw [List.sum_toFinset _ loaded.distinct,← fetched.sum,loaded.all,List.map_map]
  rfl

theorem Loaded.handed (load : Load v) (loaded : Loaded reg inputs v old mem g start requests times asked) (fetched : Fetched v requests) :
    Handed reg inputs v old mem g start times.toFinset asked where
  load := load
  fresh := loaded.fresh
  later n inside := loaded.later n (List.mem_toFinset.mp inside)
  passes n inside := loaded.passes n (List.mem_toFinset.mp inside)
  issues n inside := loaded.issues n (List.mem_toFinset.mp inside)
  fetches n inside := by
    refine fetched.each _ ?_
    rw [loaded.all]
    exact List.mem_map_of_mem (List.mem_toFinset.mp inside)
  served n inside := loaded.served n (List.mem_toFinset.mp inside)
  total := Nat.le_of_eq (loaded.sum fetched)

theorem Undisturbed.window {u : Nat} (alone : Undisturbed reg inputs g times start u) :
    Window inputs reg g (fun n => n ∈ times.toFinset ∨ False) start (u + 1) := by
  intro n after before
  obtain ⟨straight,mine⟩ := alone.2 n after (by omega)
  exact ⟨straight,fun passes same => .inl (List.mem_toFinset.mpr (mine passes same))⟩

theorem Undisturbed.earlier {u w : Nat} (alone : Undisturbed reg inputs g times start u) (after : start ≤ w) (before : w ≤ u) :
    Undisturbed reg inputs g times start w :=
  ⟨after,fun n later earlier => alone.2 n later (by omega)⟩

section
variable (loaded : Loaded reg inputs v old mem g start requests times asked)
  (admits : Admits (machine c reg) inputs) (orderly : ∀ u, Orderly reg (trace (machine c reg) inputs u) (inputs u))
include loaded admits orderly

-- What is written back with the index of the load is the answer to one of its requests.
theorem written_request {u : Nat} (alone : Undisturbed reg inputs g times start u) {source : Source} {x : Instr} {line : c.Line}
    (found : writeback reg (core reg inputs u) (fed reg inputs u) = some (source,x,line)) (valid : x.valid = true) (mine : x.glIndex = g) :
    ∃ n ∈ times, Presented reg (fed reg inputs) u n x line ∧ x.ex.valid = false := by
  obtain ⟨n,after,before,passes,rfl,kind⟩ := own_writes admits orderly loaded.fresh alone.1 found mine valid
  have member := (alone.2 n after (by omega)).2 passes mine
  have issues := loaded.issues n member
  refine ⟨n,member,?_,issues.clean⟩
  rcases kind with shown | ⟨_,fault | store⟩
  · exact shown
  · rw [issues.clean] at fault
    cases fault
  · rw [issues.reads.1] at store
    cases store

theorem undisturbed_quiet {u : Nat} (alone : Undisturbed reg inputs g times start u) : Quiet reg inputs g times.toFinset start u := by
  intro w after before source x line found valid mine
  obtain ⟨n,member,shown,_⟩ := written_request loaded admits orderly (alone.earlier after (by omega)) found valid mine
  exact ⟨n,List.mem_toFinset.mpr member,shown⟩

theorem undisturbed_stands (handed : Handed reg inputs v old mem g start times.toFinset asked) {u : Nat} (alone : Undisturbed reg inputs g times start u) :
    Stands reg inputs v mem g times.toFinset asked u := by
  obtain ⟨d,rfl⟩ : ∃ d, u = start + d := ⟨u - start,by have := alone.1; omega⟩
  exact stands_run handed admits orderly (fun _ => False) (fun _ none => none.elim) d
    (fun n after before => alone.window n after (by omega)) (undisturbed_quiet loaded admits orderly alone)

theorem writes_last (handed : Handed reg inputs v old mem g start times.toFinset asked) {u : Nat} {result : BitVec 128}
    (alone : Undisturbed reg inputs g times start u) (writes : Writes reg inputs g u result) :
    ∃ n ∈ times, ∃ line, Presented reg (fed reg inputs) u n (inputs n).shown line ∧
      result = maskedDataToWb (packers reg inputs u) (inputs n).shown (dataToWb c (inputs n).shown.memSize (inputs n).shown.dataRs1 line) ∧
      ∀ m ∈ times, m ∈ done reg inputs times.toFinset (u + 1) := by
  obtain ⟨y,wrote,mine⟩ := writes
  unfold simd at wrote
  rw [tracked_trace] at wrote
  obtain ⟨⟨x,data⟩,found,same⟩ := Option.map_eq_some_iff.mp wrote
  obtain ⟨rfl,rfl⟩ := Prod.mk.inj same
  obtain ⟨found,test⟩ := Option.filter_eq_some_iff.mp found
  obtain ⟨⟨source,x,line⟩,back,same⟩ := Option.map_eq_some_iff.mp found
  obtain ⟨rfl,rfl⟩ := Prod.mk.inj same
  simp only [loadsVector,Bool.and_eq_true,Bool.or_eq_true] at test
  obtain ⟨n,member,shown,clean⟩ := written_request loaded admits orderly alone back test.1.1 mine
  have stands := undisturbed_stands loaded admits orderly handed alone
  have member' := List.mem_toFinset.mpr member
  obtain ⟨complete,_⟩ := presented_completes handed admits orderly stands member' shown
  obtain ⟨before,rfl,_⟩ := presented_request handed admits orderly member' shown
  refine ⟨n,member,line,shown,rfl,fun m there => ?_⟩
  rcases test.2 with (flushed | completed) | fault
  · rw [(alone.2 u alone.1 (Nat.le_refl u)).1] at flushed
    cases flushed
  · have full : vaguVl v ≤ ∑ m ∈ done reg inputs times.toFinset (u + 1), counted (asked m) :=
      of_decide_eq_true (complete.symm.trans completed)
    by_contra missing
    have short := done_missing handed (List.mem_toFinset.mpr there) missing
    omega
  · rw [clean] at fault
    cases fault

theorem writes_assembled (handed : Handed reg inputs v old mem g start times.toFinset asked) (fetched : Fetched v requests)
    {u : Nat} {result : BitVec 128} (alone : Undisturbed reg inputs g times start u) (writes : Writes reg inputs g u result) :
    Assembled v old mem result := by
  obtain ⟨n,member,line,shown,rfl,all⟩ := writes_last loaded admits orderly handed alone writes
  have member' := List.mem_toFinset.mpr member
  have stands := undisturbed_stands loaded admits orderly handed alone
  obtain ⟨_,packs⟩ := presented_completes handed admits orderly stands member' shown
  obtain ⟨_,_,serves⟩ := presented_request handed admits orderly member' shown
  refine packs_assembled handed.load (handed.fetches n member') (handed.issues n member') serves packs fun k below active => ?_
  obtain ⟨r,inside,i,taken⟩ := fetched.reached k below active
  rw [loaded.all] at inside
  obtain ⟨m,there,rfl⟩ := List.mem_map.mp inside
  have written := all m there
  rw [done_insert member' shown] at written
  rcases Finset.mem_insert.mp written with rfl | earlier
  · exact .inr ⟨i,taken⟩
  · exact .inl ⟨m,earlier,i,taken⟩

theorem writes_once (handed : Handed reg inputs v old mem g start times.toFinset asked) {u w : Nat} {result other : BitVec 128}
    (one : Undisturbed reg inputs g times start u) (two : Undisturbed reg inputs g times start w)
    (first : Writes reg inputs g u result) (second : Writes reg inputs g w other) : ¬ u < w := by
  intro before
  obtain ⟨_,_,_,_,_,all⟩ := writes_last loaded admits orderly handed one first
  obtain ⟨m,there,_,shown,_⟩ := writes_last loaded admits orderly handed two second
  obtain ⟨member,t,early,x,line,earlier⟩ := mem_done.mp (all m there)
  exact done_new admits orderly shown (mem_done.mpr ⟨member,t,by omega,x,line,earlier⟩)

theorem all_done (fair : Fair reg (fed reg inputs))
    (straight : ∀ u, start ≤ u → (inputs u).flush = false) : ∃ u, ∀ n ∈ times, n ∈ done reg inputs times.toFinset u := by
  have each : ∀ n ∈ times, ∃ w, ∃ x line, Presented reg (fed reg inputs) w n x line := by
    intro n member
    have issues := loaded.issues n member
    obtain ⟨accepted,_⟩ := passes_accepted (loaded.passes n member) issues.reads issues.clean
    obtain ⟨u,line,shown⟩ := LoadDelivery.accepted_presented (fed_admits admits) (fed_calm orderly) fair accepted
      fun w after => straight w (Nat.le_trans (loaded.later n member) after)
    exact ⟨u,_,line,shown⟩
  choose! cycle shown using each
  exact ⟨times.toFinset.sup cycle + 1,fun n member => mem_done.mpr ⟨List.mem_toFinset.mpr member,cycle n,
    Nat.lt_succ_of_le (Finset.le_sup (List.mem_toFinset.mpr member)),shown n member⟩⟩

theorem presented_writes (handed : Handed reg inputs v old mem g start times.toFinset asked) {u n : Nat} {x : Instr} {line : c.Line}
    (alone : Undisturbed reg inputs g times start u) (member : n ∈ times) (shown : Presented reg (fed reg inputs) u n x line)
    (full : vaguVl v ≤ ∑ m ∈ done reg inputs times.toFinset (u + 1), counted (asked m)) : ∃ result, Writes reg inputs g u result := by
  have member' := List.mem_toFinset.mpr member
  have stands := undisturbed_stands loaded admits orderly handed alone
  have complete := (presented_completes handed admits orderly stands member' shown).1
  obtain ⟨_,rfl,_⟩ := presented_request handed admits orderly member' shown
  refine ⟨maskedDataToWb (packers reg inputs u) (inputs n).shown (dataToWb c (inputs n).shown.memSize (inputs n).shown.dataRs1 line),
    (inputs n).shown,?_,(loaded.issues n member).index⟩
  unfold simd
  rw [tracked_trace]
  refine Option.map_eq_some_iff.mpr ⟨_,Option.filter_eq_some_iff.mpr ⟨presented_toWb shown,?_⟩,rfl⟩
  change (loadsVector (inputs n).shown && ((inputs u).flush || completes (packers reg inputs u) (inputs n).shown || (inputs n).shown.ex.valid)) = true
  rw [request_loads handed member',complete,decide_eq_true full,Bool.or_true]
  rfl

theorem writes_come (handed : Handed reg inputs v old mem g start times.toFinset asked)
    (sum : ∑ n ∈ times.toFinset, counted (asked n) = vaguVl v) (fair : Fair reg (fed reg inputs))
    (straight : ∀ u, start ≤ u → (inputs u).flush = false)
    (reuse : ∀ n, start ≤ n → Passes reg inputs n → (inputs n).shown.glIndex = g →
      n ∈ times ∨ ∃ u < n, start ≤ u ∧ ∃ result, Writes reg inputs g u result) :
    ∃ u result, Undisturbed reg inputs g times start u ∧ Writes reg inputs g u result := by
  classical
  obtain ⟨last,all⟩ := all_done loaded admits orderly fair straight
  have full : ∃ u, vaguVl v ≤ ∑ m ∈ done reg inputs times.toFinset u, counted (asked m) := by
    refine ⟨last,?_⟩
    rw [← sum]
    exact Finset.sum_le_sum_of_subset fun n inside => all n (List.mem_toFinset.mp inside)
  by_contra never
  have alone : ∀ u, start ≤ u → Undisturbed reg inputs g times start u := by
    intro u
    induction u using Nat.strongRecOn with
    | ind u earlier =>
      intro after
      refine ⟨after,fun n later within => ⟨straight n later,fun passes mine => ?_⟩⟩
      rcases reuse n later passes mine with member | ⟨w,before,begun,result,writes⟩
      · exact member
      · exact absurd ⟨w,result,earlier w (by omega) begun,writes⟩ never
  obtain ⟨u,found⟩ : ∃ u, Nat.find full = u + 1 := by
    refine Nat.exists_eq_succ_of_ne_zero fun zero => ?_
    have least := Nat.find_spec full
    rw [zero] at least
    have none : done reg inputs times.toFinset 0 = ∅ := by
      rw [Finset.eq_empty_iff_forall_notMem]
      intro n inside
      obtain ⟨_,w,before,_⟩ := mem_done.mp inside
      omega
    rw [none,Finset.sum_empty] at least
    have some := vaguVl_bounds handed.load.decoded
    omega
  have least := Nat.find_spec full
  have short := Nat.find_min full (m := u) (by omega)
  rw [found] at least
  have now : ∃ n ∈ times.toFinset, ∃ x line, Presented reg (fed reg inputs) u n x line := by
    by_contra none
    rw [done_quiet fun n member x line shown => none ⟨n,member,x,line,shown⟩] at least
    exact short least
  obtain ⟨n,member,x,line,shown⟩ := now
  have before := (presented_request handed admits orderly member shown).1
  have after := handed.later n member
  obtain ⟨result,writes⟩ := presented_writes loaded admits orderly handed (alone u (by omega)) (List.mem_toFinset.mp member) shown least
  exact never ⟨u,result,alone u (by omega),writes⟩

end

variable {feed : Nat → VectorInstr α × Bool} {s : Vagu.State α}

-- A vector load that vagu takes is put together in any run whose cycles are orderly.
theorem vector_load_assembled (admits : Admits (machine c reg) inputs)
    (orderly : ∀ u, Orderly reg (trace (machine c reg) inputs u) (inputs u)) (load : Load v) (direct : Direct v)
    (idle : s.mode = .scalar) (accepted : feed 0 = (v,false)) {t : Nat} (returns : Returns s feed t)
    (loaded : Loaded reg inputs v old mem g start (VaguCoverage.requests s feed t) times asked) : WritesOnce reg inputs v old mem g start times := by
  have fetched : Fetched v (VaguCoverage.requests s feed t) := by
    rw [returned_plan load.taken idle accepted returns]
    exact plan_fetched load direct (accept_awaits load.taken idle accepted).1
  have handed := loaded.handed load fetched
  refine ⟨fun u result alone writes => writes_assembled loaded admits orderly handed fetched alone writes,?_,?_⟩
  · intro u w result other one two first second
    rcases Nat.lt_trichotomy u w with before | same | after
    · exact absurd before (writes_once loaded admits orderly handed one two first second)
    · exact same
    · exact absurd after (writes_once loaded admits orderly handed two one second first)
  · exact fun fair straight reuse => writes_come loaded admits orderly handed (loaded.sum fetched) fair straight reuse

end

def bus : Config := ⟨4,Nat.le_refl 4,Nat.le_add_right 4 2⟩

-- A load of four halfwords, every four bytes downwards over two lines, the second one masked off
def down : VectorInstr Unit := halfwords vlse 0x1006 (-4) (some 0b1101)

theorem down_load : Load down :=
  ⟨halfwords_decoded (.inr rfl) _ _ _,by decide,fun _ => by decide,rfl⟩

theorem down_direct : Direct down := by
  refine Straight.direct ⟨fun i inside _ => ?_,fun indexes => ?_⟩ (by decide)
  · have each : ∀ i < 4, misaligned (registerLog down) (elemAddr down i) = false := by decide
    exact each i inside
  · cases indexes

-- The request that vagu makes in cycle k + 1, and what the load/store queue shows of it
def lineRequest (k : Nat) : Output Unit := request (trace (VaguCoverage.machine start) (fun _ => (down,false)) (k + 1))

def oldHalves : BitVec 128 := 0x7777666655554444333322221111_0000

def lineShown (k : Nat) : Instr :=
  LoadStoreQueue.translate ⟨false,false,[],[]⟩ ⟨⟨true,false,1,false,false⟩,true,true,false,0⟩ (queued down oldHalves (lineRequest k))

-- Every byte of memory is the low byte of its address.
def addressed (a : BitVec 64) : BitVec 8 := a.setWidth 8

def lineAt (base : BitVec 64) : bus.Line := pack _ 16 fun j => addressed (base + BitVec.ofNat 64 j)

-- The second line comes first.
def downRun (u : Nat) : Input VectorFields bus.Line where
  shown := if u < 2 then lineShown u else MemInstr.zero
  reads := true
  flush := false
  signals := MemUnit.calm
  io := false
  response := if u = 3 then some ⟨1,lineAt 0xff0⟩ else if u = 4 then some ⟨0,lineAt 0x1000⟩ else none

theorem down_shown (u : Nat) : (downRun u).shown = lineShown 0 ∨ (downRun u).shown = lineShown 1 ∨
    (downRun u).shown = MemInstr.zero := by
  unfold downRun
  obtain rfl | rfl | later : u = 0 ∨ u = 1 ∨ 2 ≤ u := by omega
  · exact .inl rfl
  · exact .inr (.inl rfl)
  · exact .inr (.inr (if_neg (by omega)))

theorem down_reads (u : Nat) : (downRun u).shown.isStore = false ∧ (downRun u).shown.isAmoOrStore = false ∧
    needRsp (downRun u).shown.instrType = true ∧ (downRun u).shown.ex.valid = false := by
  rcases down_shown u with shown | shown | shown <;> rw [shown] <;> decide

theorem down_response {u : Nat} {r : PendingMemReqQueue.Response bus.Line} (came : (downRun u).response = some r) :
    (u = 3 ∧ r = ⟨1,lineAt 0xff0⟩) ∨ (u = 4 ∧ r = ⟨0,lineAt 0x1000⟩) := by
  by_cases third : u = 3
  · subst third
    exact .inl ⟨rfl,(Option.some.inj came).symm⟩
  · by_cases fourth : u = 4
    · subst fourth
      exact .inr ⟨rfl,(Option.some.inj came).symm⟩
    · simp [downRun,third,fourth] at came

theorem down_silent (u : Nat) : sent (core false downRun (u + 2)) (fed false downRun (u + 2)) = false := by
  obtain ⟨ready,killed⟩ := LoadDelivery.steady_handshake false (fed false downRun) (fun _ => rfl) (u + 1)
  have quiet : (MemPipeline.request (core false downRun (u + 2)) (fed false downRun (u + 2))).valid = false := by
    simp [MemPipeline.request,MemUnit.request,MemInstr.zero,fed,connect,downRun]
  rw [sent,quiet,core]
  simp [MemRequest.reqValid,MemRequest.killedD,ready,killed]

theorem down_admits : Admits (machine bus false) downRun := by
  intro u
  have reads := down_reads u
  refine ⟨⟨?_,?_,?_,?_,?_⟩,?_⟩
  · intro r came
    rcases down_response came with ⟨rfl,rfl⟩ | ⟨rfl,rfl⟩ <;> decide
  · intro goes
    match u with
    | 0 => exact .inl rfl
    | 1 => exact .inl (by decide)
    | u + 2 =>
      rw [tracked_trace] at goes
      exact absurd (goes.symm.trans (down_silent u)) (by decide)
  · intro store
    exact absurd (store.symm.trans reads.1) (by decide)
  · intro store
    exact absurd (store.symm.trans reads.2.1) (by decide)
  · exact fun _ => reads.2.2.1
  · exact fun _ => reads.1

theorem down_orderly (u : Nat) : Orderly false (trace (machine bus false) downRun u) (downRun u) := by
  constructor
  · intro r came valid _ silent
    rcases down_response came with ⟨rfl,rfl⟩ | ⟨rfl,rfl⟩
    · exact absurd valid (by decide)
    · exact absurd valid (by decide)
  · intro fault
    unfold s1D at fault
    split at fault
    · exact absurd (fault.symm.trans (down_reads u).2.2.2) (by decide)
    · cases fault

theorem down_returns : Returns start (fun _ => (down,false)) 3 := by
  refine ⟨by decide,by decide,fun u after before => ?_⟩
  obtain rfl | rfl : u = 1 ∨ u = 2 := by omega
  · decide
  · decide

theorem down_requests : requests start (fun _ => (down,false)) 3 = [0,1].map lineRequest := by
  rfl

theorem line_byte (base : BitVec 64) {j : Nat} (inside : j < 16) :
    element 8 j (lineAt base) = addressed (base + BitVec.ofNat 64 j) :=
  element_pack _ inside (by decide)

theorem line_serves {k : Nat} {base : BitVec 64} (size : (lineRequest k).instr.memSize = lineSize)
    (address : (lineRequest k).instr.dataRs1 >>> 4 <<< 4 = base) : Serves addressed (lineRequest k) (lineShown k) (lineAt base) := by
  intro j a source
  have log : bytesLog (lineShown k).memSize = 4 := congrArg bytesLog size
  simp only [VloadGather.sourceByte,size] at source
  split at source
  · rename_i inside
    have front : place bus 4 (lineShown k).dataRs1 = 0 := LoadExtraction.whole_place rfl
    rw [log,front,Nat.zero_mul,Nat.zero_add,line_byte base inside,← address]
    exact congrArg addressed (Option.some.inj source)
  · cases source

theorem down_fetched : Fetched down (requests start (fun _ => (down,false)) 3) := by
  rw [returned_plan down_load.taken rfl rfl down_returns]
  exact plan_fetched down_load down_direct (accept_awaits down_load.taken rfl rfl).1

theorem down_loaded : Loaded false downRun down oldHalves addressed 0 0
    (requests start (fun _ => (down,false)) 3) [0,1] lineRequest where
  fresh := by
    refine ⟨fun valid => ?_,fun valid => ?_,fun n held => ?_,rfl⟩
    · cases valid
    · cases valid
    · rcases held with queued | second | first
      · cases queued
      · cases second
      · cases first
  all := down_requests
  ordered := by decide
  later _ _ := Nat.zero_le _
  passes n inside := by
    simp only [List.mem_cons,List.not_mem_nil,or_false] at inside
    rcases inside with rfl | rfl
    · change (s1D (core false downRun 0) (fed false downRun 0)).valid = true
      decide
    · change (s1D (core false downRun 1) (fed false downRun 1)).valid = true
      decide
  issues n inside := by
    have fetches := down_fetched.each (lineRequest n) (by rw [down_requests]; exact List.mem_map_of_mem inside)
    simp only [List.mem_cons,List.not_mem_nil,or_false] at inside
    rcases inside with rfl | rfl
    · exact ⟨translate_hands fetches ⟨rfl,rfl⟩ _ _ _,by decide⟩
    · exact ⟨translate_hands fetches ⟨rfl,rfl⟩ _ _ _,by decide⟩
  served n inside u line answered := by
    obtain ⟨w,r,_,_,came,waits,rfl⟩ := answered
    simp only [List.mem_cons,List.not_mem_nil,or_false] at inside
    rcases down_response came with ⟨rfl,rfl⟩ | ⟨rfl,rfl⟩ <;> rcases inside with rfl | rfl
    · exact absurd waits (by decide)
    · exact line_serves (by decide) (by decide)
    · exact line_serves (by decide) (by decide)
    · exact absurd waits (by decide)

-- Two halves of the first line, one of them the old one, two of the second, and ones beyond vl
def downResult : BitVec 128 := 0xfffffffffffffffffbfafffe11110706

theorem down_undisturbed (u : Nat) : Undisturbed false downRun 0 [0,1] 0 u := by
  refine ⟨Nat.zero_le u,fun n _ _ => ⟨rfl,fun passes _ => ?_⟩⟩
  obtain rfl | rfl | later : n = 0 ∨ n = 1 ∨ 2 ≤ n := by omega
  · decide
  · decide
  · have shown := (passes_shown passes).2
    rw [show (downRun n).shown = MemInstr.zero from if_neg (by omega)] at shown
    cases shown

theorem vector_load_assembled_downwards : WritesOnce false downRun down oldHalves addressed 0 0 [0,1] ∧
    Writes false downRun 0 6 downResult ∧ Assembled down oldHalves addressed downResult := by
  have once := vector_load_assembled down_admits down_orderly down_load down_direct rfl rfl down_returns down_loaded
  have writes : Writes false downRun 0 6 downResult := ⟨lineShown 1,by decide +kernel,rfl⟩
  exact ⟨once,writes,once.right 6 downResult (down_undisturbed 6) writes⟩

-- A load of one byte by a 16-bit index from 0x1000 on
def byIndex (index : BitVec 128) : VectorInstr Unit where
  instr := { (MemInstr.zero : MemInstr Unit) with valid := true, instrType := vlxe, memSize := 5, dataRs1 := 0x1000, vl := 1 }
  useMask := false
  dataVm := BitVec.allOnes 16
  dataRs2 := 0
  dataVs1 := 0
  dataVs2 := index

theorem byIndex_load (index : BitVec 128) : Load (byIndex index) := by
  refine ⟨⟨rfl,?_,?_,Nat.one_pos,?_,fun _ => rfl⟩,?_,fun _ => ?_,rfl⟩
  · change isVector vlxe = true
    decide
  · change (5 : BitVec 4) ∈ [0,5,6,7]
    decide
  · change 1 * 2 ^ 0 ≤ 16
    decide
  · change vlxe ∈ [vle,.vlm,.vl1r,vlse,.vleff,vlxe]
    decide
  · change 1 ≤ 16 / 2 ^ elemLog 5
    decide

-- vagu reads eight bits of the index, and asks for the byte at 0x1000 with an index of 0x100 too.
def byteRequest : Output Unit where
  instr := { (MemInstr.zero : MemInstr Unit) with valid := true, instrType := .other 53, dataRs1 := 0x1000, vl := 1, loadMask := 1, velemIncr := 1 }
  velemOff := 0
  negStride := false
  aguReqTag := 0
  dataRs2 := 0

-- The request as the load/store queue shows it
def byteShown : Instr :=
  { (MemInstr.zero : Instr) with valid := true, instrType := .other 53, dataRs1 := 0x1000, vl := 1, loadMask := 1, velemIncr := 1,
                                 carried := ⟨true,0,BitVec.allOnes 16,0,false⟩ }

def byteRun (u : Nat) : Input VectorFields bus.Line :=
  ⟨if u = 0 then byteShown else MemInstr.zero,true,false,MemUnit.calm,false,if u = 1 then some ⟨0,0⟩ else none⟩

def byteResult : BitVec 128 := BitVec.allOnes 128 <<< 8

theorem byte_shown (u : Nat) : (byteRun u).shown = byteShown ∨ (byteRun u).shown = MemInstr.zero := by
  unfold byteRun
  by_cases first : u = 0 <;> simp [first]

theorem byte_response {u : Nat} {r : PendingMemReqQueue.Response bus.Line} (came : (byteRun u).response = some r) : u = 1 ∧ r = ⟨0,0⟩ := by
  by_cases second : u = 1
  · subst second
    exact ⟨rfl,(Option.some.inj came).symm⟩
  · simp [byteRun,second] at came

theorem byte_silent (u : Nat) : sent (core false byteRun (u + 1)) (fed false byteRun (u + 1)) = false := by
  obtain ⟨ready,killed⟩ := LoadDelivery.steady_handshake false (fed false byteRun) (fun _ => rfl) u
  have quiet : (MemPipeline.request (core false byteRun (u + 1)) (fed false byteRun (u + 1))).valid = false := by
    simp [MemPipeline.request,MemUnit.request,MemInstr.zero,fed,connect,byteRun]
  rw [sent,quiet,core]
  simp [MemRequest.reqValid,MemRequest.killedD,ready,killed]

theorem byte_admits : Admits (machine bus false) byteRun := by
  intro u
  refine ⟨⟨?_,?_,?_,?_,?_⟩,?_⟩
  · intro r came
    obtain ⟨rfl,rfl⟩ := byte_response came
    decide
  · intro goes
    cases u with
    | zero => exact .inl rfl
    | succ u =>
      rw [tracked_trace] at goes
      exact absurd (goes.symm.trans (byte_silent u)) (by decide)
  all_goals rcases byte_shown u with shown | shown <;> simp [connect,shown,byteShown,MemInstr.zero,needRsp]

theorem byte_orderly (u : Nat) : Orderly false (trace (machine bus false) byteRun u) (byteRun u) := by
  constructor
  · intro r came _ _ silent
    obtain ⟨rfl,rfl⟩ := byte_response came
    exact absurd silent (by decide)
  · intro fault
    unfold s1D at fault
    split at fault
    · change (byteRun u).shown.ex.valid = true at fault
      rcases byte_shown u with shown | shown <;> rw [shown] at fault <;> cases fault
    · cases fault

theorem byte_returns : Returns VaguCoverage.start (fun _ => (byIndex 0x100,false)) 2 := by
  refine ⟨by decide,rfl,?_⟩
  intro u after before
  obtain rfl : u = 1 := by omega
  decide

theorem byte_loaded {mem : BitVec 64 → BitVec 8} (clear : mem 0x1000 = 0) :
    Loaded false byteRun (byIndex 0x100) 0 mem byteShown.glIndex 0
      (VaguCoverage.requests VaguCoverage.start (fun _ => (byIndex 0x100,false)) 2) [0] fun _ => byteRequest where
  fresh := by
    refine ⟨fun valid => ?_,fun valid => ?_,fun n held => ?_,rfl⟩
    · cases valid
    · cases valid
    · rcases held with queued | second | first
      · cases queued
      · cases second
      · cases first
  all := rfl
  ordered := List.pairwise_singleton _ _
  later _ _ := Nat.zero_le _
  passes n inside := by
    rw [List.mem_singleton.mp inside]
    rfl
  issues n inside := by
    rw [List.mem_singleton.mp inside]
    exact ⟨⟨rfl,rfl,rfl,rfl,rfl,rfl,rfl,rfl,⟨rfl,rfl⟩,rfl,rfl⟩,rfl⟩
  served n inside u line answered := by
    rw [List.mem_singleton.mp inside]
    obtain ⟨w,r,_,_,came,_,rfl⟩ := answered
    obtain ⟨rfl,rfl⟩ := byte_response came
    intro j a source
    simp only [VloadGather.sourceByte] at source
    split at source
    · rename_i below
      obtain rfl : j = 0 := Nat.lt_one_iff.mp below
      obtain rfl : a = 0x1000 := (Option.some.inj source).symm
      rw [clear]
      rfl
    · cases source

-- With an index of 0x100 the load is to read the byte at 0x1100.
theorem wide_index_misread : Admits (machine bus false) byteRun ∧ (∀ u, Orderly false (trace (machine bus false) byteRun u) (byteRun u)) ∧
    Load (byIndex 0x100) ∧ Returns VaguCoverage.start (fun _ => (byIndex 0x100,false)) 2 ∧
    ∃ mem, Loaded false byteRun (byIndex 0x100) 0 mem byteShown.glIndex 0
      (VaguCoverage.requests VaguCoverage.start (fun _ => (byIndex 0x100,false)) 2) [0] (fun _ => byteRequest) ∧
    ¬ WritesOnce false byteRun (byIndex 0x100) 0 mem byteShown.glIndex 0 [0] := by
  refine ⟨byte_admits,byte_orderly,byIndex_load _,byte_returns,fun a => if a = 0x1100 then 7 else 0,
    byte_loaded rfl,?_⟩
  intro writes
  have alone : Undisturbed false byteRun byteShown.glIndex [0] 0 1 := by
    refine ⟨by decide,fun n _ before => ⟨rfl,fun passes _ => ?_⟩⟩
    by_contra late
    obtain rfl : n = 1 := by
      rw [List.mem_singleton] at late
      omega
    cases passes
  have read := (writes.right 1 byteResult alone ⟨byteShown,rfl,rfl⟩).active 0 (by decide) (by decide)
  exact absurd read (by decide)

end Sargantana.VloadAssembly
