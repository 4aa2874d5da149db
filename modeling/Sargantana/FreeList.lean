import Sargantana.DracPkg
import Sargantana.Lib.Window
import Mathlib.Tactic.SplitIfs

namespace Sargantana.FreeList
open DracPkg Window

-- The registers of free_list. Every version has its own head and count; the
-- table and the tail are shared by all of them.
structure State where
  head : CheckpointPtr → FreeListEntry
  tail : FreeListEntry
  versionHead : CheckpointPtr
  versionTail : CheckpointPtr
  numRegisters : CheckpointPtr → Fin 64
  numCheckpoints : Fin 8
  registerTable : FreeListEntry → Phreg
  checkpoint : CheckpointPtr

structure Input where
  readHead : Bool
  addFreeRegister : Fin 2 → Bool
  freeRegister : Fin 2 → Phreg
  doCheckpoint : Bool
  doRecover : Bool
  deleteCheckpoint : Bool
  recoverCheckpoint : CheckpointPtr
  commitRollBack : Bool

def reset : State where
  head := fun _ => 0
  tail := 0
  versionHead := 0
  versionTail := 0
  numRegisters := fun _ => 32
  numCheckpoints := 0
  registerTable := fun i => Fin.ofNat 64 (32 + i.val)
  checkpoint := 0

def checkpointEnable (s : State) (i : Input) : Bool :=
  i.doCheckpoint && decide (s.numCheckpoints.val < DracPkg.numCheckpoints - 1) && !i.doRecover && !i.commitRollBack

def writeEnable (zeroIsFreeable : Bool) (i : Input) (port : Fin 2) : Bool :=
  i.addFreeRegister port && (zeroIsFreeable || i.freeRegister port != 0) && !i.commitRollBack

def readEnable (zeroIsFreeable : Bool) (s : State) (i : Input) : Bool :=
  i.readHead && (decide (0 < s.numRegisters s.versionHead) || writeEnable zeroIsFreeable i 0 ||
    writeEnable zeroIsFreeable i 1) && !i.doRecover && !i.commitRollBack

-- The delete of the same cycle is not taken into account.
def recoveredCount (recover versionTail : CheckpointPtr) : Fin 8 :=
  if versionTail ≤ recover then Fin.ofNat 8 (recover.val - versionTail.val)
  else Fin.ofNat 8 (DracPkg.numCheckpoints - versionTail.val + recover.val)

def rollBack (s : State) : State :=
  {s with
    versionHead := 0
    numCheckpoints := 0
    versionTail := 0
    head := Function.update s.head 0 s.tail
    numRegisters := Function.update s.numRegisters 0 32
    checkpoint := 0}

def writeFreed (s : State) (w0 w1 : Bool) (free : Fin 2 → Phreg) : FreeListEntry → Phreg :=
  if w0 then
    if w1 then Function.update (Function.update s.registerTable s.tail (free 0)) (s.tail + 1) (free 1)
    else Function.update s.registerTable s.tail (free 0)
  else if w1 then Function.update s.registerTable s.tail (free 1)
  else s.registerTable

def next (zeroIsFreeable : Bool) (s : State) (i : Input) : State :=
  let w0 := writeEnable zeroIsFreeable i 0
  let w1 := writeEnable zeroIsFreeable i 1
  let read := readEnable zeroIsFreeable s i
  let taken := checkpointEnable s i
  if i.commitRollBack then rollBack s
  else
    let shared : State := {s with
      versionTail := s.versionTail + bit i.deleteCheckpoint
      registerTable := writeFreed s w0 w1 i.freeRegister
      tail := s.tail + bit w0 + bit w1
      numRegisters := fun v => s.numRegisters v + bit w0 + bit w1
      checkpoint := s.versionHead}
    if i.doRecover then {shared with
      versionHead := i.recoverCheckpoint
      numCheckpoints := recoveredCount i.recoverCheckpoint s.versionTail}
    else
      let headAfter := s.head s.versionHead + bit read
      let numAfter := s.numRegisters s.versionHead + bit w0 + bit w1 - bit read
      let current : State := {shared with
        numCheckpoints := s.numCheckpoints + bit taken - bit i.deleteCheckpoint
        head := Function.update s.head s.versionHead headAfter
        numRegisters := Function.update shared.numRegisters s.versionHead numAfter}
      if taken then {current with
        versionHead := s.versionHead + 1
        head := Function.update current.head (s.versionHead + 1) headAfter
        numRegisters := Function.update current.numRegisters (s.versionHead + 1) numAfter}
      else current

def newRegister (zeroIsFreeable : Bool) (s : State) (i : Input) : Phreg :=
  if !readEnable zeroIsFreeable s i then 0
  else if s.numRegisters s.versionHead = 0 ∧ writeEnable zeroIsFreeable i 0 then i.freeRegister 0
  else if s.numRegisters s.versionHead = 0 ∧ writeEnable zeroIsFreeable i 1 then i.freeRegister 1
  else s.registerTable (s.head s.versionHead)

def empty (zeroIsFreeable : Bool) (s : State) (i : Input) : Bool :=
  decide (s.numRegisters s.versionHead = 0) && !writeEnable zeroIsFreeable i 0 && !writeEnable zeroIsFreeable i 1

def outOfCheckpoints (s : State) : Bool := decide (s.numCheckpoints.val = DracPkg.numCheckpoints - 1)

-- The registers a version still has to give out, in the order it gives them out.
def freeWindow (s : State) (v : CheckpointPtr) : List Phreg :=
  window s.registerTable (s.head v) (s.numRegisters v).val

def free (s : State) (p : Phreg) : State :=
  {s with
    registerTable := Function.update s.registerTable s.tail p
    tail := s.tail + 1
    numRegisters := fun v => s.numRegisters v + 1}

def freePort (s : State) (enable : Bool) (p : Phreg) : State := if enable then free s p else s

def read (s : State) : State :=
  {s with
    head := Function.update s.head s.versionHead (s.head s.versionHead + 1)
    numRegisters := Function.update s.numRegisters s.versionHead (s.numRegisters s.versionHead - 1)}

def takeCheckpoint (s : State) : State :=
  {s with
    versionHead := s.versionHead + 1
    numCheckpoints := s.numCheckpoints + 1
    head := Function.update s.head (s.versionHead + 1) (s.head s.versionHead)
    numRegisters := Function.update s.numRegisters (s.versionHead + 1) (s.numRegisters s.versionHead)}

def deleteOldest (s : State) : State :=
  {s with versionTail := s.versionTail + 1, numCheckpoints := s.numCheckpoints - 1}

def recoverTo (s : State) (c : CheckpointPtr) : State :=
  {s with versionHead := c, numCheckpoints := recoveredCount c s.versionTail}

def freed (zeroIsFreeable : Bool) (s : State) (i : Input) : State :=
  freePort (freePort s (writeEnable zeroIsFreeable i 0) (i.freeRegister 0))
    (writeEnable zeroIsFreeable i 1) (i.freeRegister 1)

def freedRegisters (zeroIsFreeable : Bool) (i : Input) : List Phreg :=
  (if writeEnable zeroIsFreeable i 0 then [i.freeRegister 0] else []) ++
    if writeEnable zeroIsFreeable i 1 then [i.freeRegister 1] else []

def settled (zeroIsFreeable : Bool) (s : State) (i : Input) : State :=
  let one := freed zeroIsFreeable s i
  let two := if readEnable zeroIsFreeable s i then read one else one
  let three := if checkpointEnable s i then takeCheckpoint two else two
  if i.deleteCheckpoint then deleteOldest three else three

variable {z : Bool} {s : State} {i : Input}

@[simp] theorem freed_versionHead : (freed z s i).versionHead = s.versionHead := by
  unfold freed freePort free
  split_ifs <;> rfl

theorem freed_eq : freed z s i = {s with
    registerTable := writeFreed s (writeEnable z i 0) (writeEnable z i 1) i.freeRegister
    tail := s.tail + bit (writeEnable z i 0) + bit (writeEnable z i 1)
    numRegisters := fun v => s.numRegisters v + bit (writeEnable z i 0) + bit (writeEnable z i 1)} := by
  unfold freed freePort free writeFreed
  cases writeEnable z i 0 <;> cases writeEnable z i 1 <;> simp

theorem freeWindow_free (ends : shift (s.head v) (s.numRegisters v).val = s.tail)
    (room : (s.numRegisters v).val < 32) : freeWindow (free s p) v = freeWindow s v ++ [p] := by
  have count : (s.numRegisters v + 1).val = (s.numRegisters v).val + 1 := by omega
  have pushed : window (Function.update s.registerTable (shift (s.head v) (s.numRegisters v).val) p) (s.head v)
      ((s.numRegisters v).val + 1) = freeWindow s v ++ [p] := window_push room
  rw [ends] at pushed
  simpa [freeWindow,free,count] using pushed

theorem ends_free (ends : shift (s.head v) (s.numRegisters v).val = s.tail)
    (room : (s.numRegisters v).val < 32) :
    shift ((free s p).head v) ((free s p).numRegisters v).val = (free s p).tail := by
  have count : (s.numRegisters v + 1).val = (s.numRegisters v).val + 1 := by omega
  simp only [free,count,shift_add,ends]
  rfl

theorem freeWindow_freed (ends : shift (s.head v) (s.numRegisters v).val = s.tail)
    (room : (s.numRegisters v).val + (freedRegisters z i).length ≤ 32) :
    freeWindow (freed z s i) v = freeWindow s v ++ freedRegisters z i := by
  unfold freed freedRegisters freePort at *
  cases one : writeEnable z i 0 <;> cases two : writeEnable z i 1 <;> simp [one,two] at room ⊢
  · exact freeWindow_free ends (by omega)
  · exact freeWindow_free ends (by omega)
  · have count : ((free s (i.freeRegister 0)).numRegisters v).val = (s.numRegisters v).val + 1 := by
      simp only [free]
      omega
    rw [freeWindow_free (ends_free ends (by omega)) (by omega),freeWindow_free ends (by omega)]
    simp

theorem next_rollBack (back : i.commitRollBack = true) : next z s i = rollBack s := by
  simp [next,back]

theorem next_recover (back : i.commitRollBack = false) (recover : i.doRecover = true)
    (alone : i.deleteCheckpoint = false) :
    next z s i = {recoverTo (freed z s i) i.recoverCheckpoint with checkpoint := s.versionHead} := by
  simp [next,back,recover,alone,freed_eq,recoverTo]

theorem next_settled (back : i.commitRollBack = false) (recover : i.doRecover = false) :
    next z s i = {settled z s i with checkpoint := s.versionHead} := by
  unfold next settled
  simp only [back,recover,freed_eq,Bool.false_eq_true,if_false]
  cases readEnable z s i <;> cases checkpointEnable s i <;> cases i.deleteCheckpoint <;>
    simp [read,takeCheckpoint,deleteOldest]

theorem next_versionHead : (next z s i).versionHead =
    if i.commitRollBack then 0 else if i.doRecover then i.recoverCheckpoint
    else if checkpointEnable s i then s.versionHead + 1 else s.versionHead := by
  unfold next
  cases i.commitRollBack <;> cases i.doRecover <;> cases checkpointEnable s i <;> rfl

theorem next_versionTail : (next z s i).versionTail =
    if i.commitRollBack then 0 else s.versionTail + bit i.deleteCheckpoint := by
  unfold next
  cases i.commitRollBack <;> cases i.doRecover <;> cases checkpointEnable s i <;> rfl

theorem next_numCheckpoints : (next z s i).numCheckpoints =
    if i.commitRollBack then 0 else if i.doRecover then recoveredCount i.recoverCheckpoint s.versionTail
    else s.numCheckpoints + bit (checkpointEnable s i) - bit i.deleteCheckpoint := by
  unfold next
  cases i.commitRollBack <;> cases i.doRecover <;> cases checkpointEnable s i <;> rfl

theorem next_freeWindow (back : i.commitRollBack = false)
    (apart : i.doRecover = false → v ≠ s.versionHead ∧ (checkpointEnable s i = true → v ≠ s.versionHead + 1)) :
    freeWindow (next z s i) v = freeWindow (freed z s i) v := by
  rw [freed_eq]
  unfold next
  cases recover : i.doRecover with
  | true => simp [back,freeWindow]
  | false =>
      obtain ⟨current,fresh⟩ := apart recover
      cases taken : checkpointEnable s i with
      | false => simp [back,freeWindow,current]
      | true => simp [back,freeWindow,current,fresh taken]

-- A checkpoint keeps the window of the current version, read and freed registers included.
theorem next_copied (back : i.commitRollBack = false) (recover : i.doRecover = false)
    (taken : checkpointEnable s i = true) :
    freeWindow (next z s i) s.versionHead = freeWindow (next z s i) (next z s i).versionHead := by
  have apart : s.versionHead ≠ s.versionHead + 1 := by simp
  unfold next
  simp [back,recover,taken,freeWindow,apart]

theorem next_checkpoint : (next z s i).checkpoint = if i.commitRollBack then 0 else s.versionHead := by
  unfold next
  cases i.commitRollBack <;> cases i.doRecover <;> cases checkpointEnable s i <;> rfl

-- A register freed in the cycle can already be read in it.
theorem newRegister_freed (ends : shift (s.head s.versionHead) (s.numRegisters s.versionHead).val = s.tail)
    (room : (s.numRegisters s.versionHead).val + (writeEnable z i 0).toNat + (writeEnable z i 1).toNat ≤ 32)
    (reads : readEnable z s i = true) :
    newRegister z s i = (freed z s i).registerTable ((freed z s i).head s.versionHead) := by
  have apart : ∀ k, 0 < k → k < 32 → shift (s.head s.versionHead) k ≠ s.head s.versionHead := by
    intro k positive small same
    have equal : k = 0 := shift_inj small (by decide) (same.trans (shift_zero _).symm)
    omega
  have following : s.tail + 1 = shift (s.head s.versionHead) ((s.numRegisters s.versionHead).val + 1) := by
    rw [shift_add,ends]
    rfl
  rw [freed_eq]
  simp only [newRegister,reads,Bool.not_true,Bool.false_eq_true,if_false,writeFreed]
  by_cases none : s.numRegisters s.versionHead = 0
  · have start : s.head s.versionHead = s.tail := by simpa [none] using ends
    cases one : writeEnable z i 0 <;> cases two : writeEnable z i 1 <;>
      simp [none,start]
  · have some : 0 < (s.numRegisters s.versionHead).val := Nat.pos_of_ne_zero fun zero => none (Fin.ext zero)
    cases one : writeEnable z i 0 <;> cases two : writeEnable z i 1 <;>
      simp only [none,false_and,if_false,if_true,Bool.false_eq_true]
    · have away : s.head s.versionHead ≠ s.tail := by
        rw [← ends]
        exact (apart _ some (by simp [one,two] at room; omega)).symm
      rw [Function.update_of_ne away]
    · have away : s.head s.versionHead ≠ s.tail := by
        rw [← ends]
        exact (apart _ some (by simp [one,two] at room; omega)).symm
      rw [Function.update_of_ne away]
    · have away : s.head s.versionHead ≠ s.tail := by
        rw [← ends]
        exact (apart _ some (by simp [one,two] at room; omega)).symm
      have further : s.head s.versionHead ≠ s.tail + 1 := by
        rw [following]
        exact (apart _ (by omega) (by simp [one,two] at room; omega)).symm
      rw [Function.update_of_ne further,Function.update_of_ne away]

end Sargantana.FreeList
