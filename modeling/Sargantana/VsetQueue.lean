import Mathlib.Data.BitVec
import Sargantana.DracPkg
import Sargantana.Lib.Window

-- The vector configuration: vset_queue, vset_module and the decoder around them, and the copy of
-- the same computation in csr_interface and csr_bsc. VLEN is 128.
namespace Sargantana.VsetQueue

open Window

-- vset_entry_t. vtype has VTYPE_LENGTH + 1 = 9 bits, vill on top.
structure Entry where
  vl : BitVec 5
  vtype : BitVec 9
  vnarrowWideEn : Bool
  vlmax : BitVec 5
  deriving DecidableEq

structure State where
  lastCommitted : Fin 8
  indexLast : Fin 8
  tail : Fin 8
  num : Fin 16
  buffer : Fin 8 → Entry

structure Input where
  commited : Bool
  newVset : Bool
  recoverLastCommitted : Bool
  recoverLastMisspredict : Bool
  indexMisspredict : Fin 8
  entry : Entry

def full (s : State) : Bool := decide (s.num.val = 8)

def writeNewVset (s : State) (i : Input) : Bool := i.newVset && decide (s.num.val < 8)

def nextCommitted (s : State) (i : Input) : Bool := i.commited && decide (1 < s.num.val)

-- The sums are four bits wide.
def numInMisspred (last index : Fin 8) : Fin 16 :=
  (if index < last then Fin.ofNat 16 (8 - last.val) else 0 - Fin.ofNat 16 last.val) + Fin.ofNat 16 (index.val + 1)

def one (enable : Bool) : Nat := if enable then 1 else 0

-- A write goes to the buffer whatever the recovery of the same cycle does with the pointers.
def nextBuffer (s : State) (i : Input) : Fin 8 → Entry :=
  if writeNewVset s i then Function.update s.buffer s.tail i.entry else s.buffer

def next (s : State) (i : Input) : State :=
  let committed := shift s.lastCommitted (one (nextCommitted s i))
  let buffer := nextBuffer s i
  if i.recoverLastMisspredict && nextCommitted s i then
    ⟨committed,i.indexMisspredict,i.indexMisspredict + 1,numInMisspred s.lastCommitted i.indexMisspredict - 1,buffer⟩
  else if i.recoverLastMisspredict then
    ⟨s.lastCommitted,i.indexMisspredict,i.indexMisspredict + 1,numInMisspred s.lastCommitted i.indexMisspredict,buffer⟩
  else if i.recoverLastCommitted then ⟨s.lastCommitted,s.lastCommitted,s.lastCommitted + 1,1,buffer⟩
  else
    ⟨committed,shift s.indexLast (one (writeNewVset s i)),shift s.tail (one (writeNewVset s i)),
      s.num + Fin.ofNat 16 (one (writeNewVset s i)) - Fin.ofNat 16 (one (nextCommitted s i)),buffer⟩

-- The reset value of vtype is written with eight bits, so that the one lands in bit 7.
def resetEntry : Entry := ⟨0,(BitVec.ofNat 1 1 ++ BitVec.ofNat 7 0).setWidth 9,false,0⟩

def reset : State := ⟨0,0,1,1,fun _ => resetEntry⟩

def youngest (s : State) : Entry := s.buffer s.indexLast

-- prev_vtype_o is the vtype of this entry.
def oldest (s : State) : Entry := s.buffer (s.lastCommitted + 1)

inductive Kind where
  | vsetvli | vsetvl | vsetivli
  deriving DecidableEq

-- A decoded vset with the data that its registers read. The AVL of vsetivli is its rs1 field.
structure Vset where
  kind : Kind
  rd : BitVec 5
  rs1 : BitVec 5
  imm : BitVec 12
  rs1Data : BitVec 64
  rs2Data : BitVec 64
  deriving DecidableEq

-- CSR_CMD_VSETVLMAX, and the form that keeps vl
def Vset.max (v : Vset) : Bool := decide (v.kind ≠ .vsetivli) && decide (v.rs1 = 0)

def Vset.keep (v : Vset) : Bool := v.max && decide (v.rd = 0)

-- Register x0 reads as zero.
def Vset.rs1Value (v : Vset) : BitVec 64 := if v.rs1 = 0 then 0 else v.rs1Data

def Vset.avl (v : Vset) : Nat :=
  if v.keep then 1
  else if v.kind = .vsetivli then v.rs1.toNat
  else v.rs1Value.toNat

def Vset.vtype (v : Vset) : BitVec 12 :=
  if v.kind = .vsetvl then (BitVec.ofBool (decide (v.rs2Data >>> 8 ≠ 0)) ++ v.rs2Data.setWidth 8).setWidth 12 else v.imm

-- The vset is written in its decode cycle; the others wait until they read their registers.
def Vset.cycle (v : Vset) : Bool := decide (v.kind = .vsetivli) || (decide (v.kind = .vsetvli) && v.keep)

def vlmax (vtype : BitVec 11) : Nat :=
  let whole := 16 >>> (vtype.extractLsb' 3 3).toNat
  match (vtype.setWidth 3).toNat with
  | 5 => whole >>> 3
  | 6 => whole >>> 2
  | 7 => whole >>> 1
  | _ => whole

def unsupported (vtype : BitVec 11) : Bool :=
  decide (vtype.extractLsb' 8 3 ≠ 0) || vtype.getLsbD 5 ||
    (decide (0 < (vtype.setWidth 3).toNat) &&
      (decide ((vtype.setWidth 3).toNat < 5) || decide ((vtype.setWidth 2).toNat ≤ (vtype.extractLsb' 3 2).toNat)))

def chooseVl (max : Bool) (vlmax avl vl : Nat) : Nat :=
  if max then (if avl = 1 then vl else vlmax)
  else if avl ≤ vlmax then avl
  else if avl ≤ 2 * vlmax then avl / 2 + avl % 2
  else vlmax

-- vsetvl_ctrl of vset_module: vl_d and the entry that goes to the queue
def moduleVl (vl : BitVec 5) (v : Vset) : Nat :=
  if unsupported (v.vtype.setWidth 11) then 0 else chooseVl v.max (vlmax (v.vtype.setWidth 11)) v.avl vl.toNat

def moduleEntry (vl : BitVec 5) (v : Vset) : Entry where
  vl := BitVec.ofNat 5 (moduleVl vl v)
  vtype := if unsupported (v.vtype.setWidth 11) then 0x100 else (v.vtype.setWidth 8).setWidth 9
  vnarrowWideEn := v.vtype.getLsbD 2 || decide (moduleVl vl v ≤ vlmax (v.vtype.setWidth 11) / 2)
  vlmax := BitVec.ofNat 5 (vlmax (v.vtype.setWidth 11))

structure Csr where
  vl : Nat
  vtype : BitVec 64
  deriving DecidableEq

def resetCsr : Csr := ⟨0,0x8000000000000000⟩

-- vsetvl_ctrl of csr_bsc while mstatus.vs is not off
def vsetvlCtrl (max : Bool) (data : Nat) (addr : BitVec 12) (c : Csr) : Csr :=
  let vtypeNew := addr.setWidth 11
  if unsupported vtypeNew then ⟨0,0x8000000000000000⟩
  else ⟨chooseVl max (vlmax vtypeNew) data c.vl,vtypeNew.setWidth 64⟩

-- The command that csr_interface sends for a vset: the vl that the instruction took from
-- vset_module, and the first uncommitted vtype of the queue.
def commitVset (v : Vset) (vl : BitVec 5) (prevVtype : BitVec 9) (c : Csr) : Csr :=
  vsetvlCtrl v.max (if v.keep then 1 else vl.toNat) (prevVtype.setWidth 12) c

def commitVleff (vl : BitVec 5) (c : Csr) : Csr := if vl = 0 then c else { c with vl := vl.toNat }

end Sargantana.VsetQueue
