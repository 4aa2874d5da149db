import Sargantana.Lib.Packed
import Sargantana.Vagu

-- Stores as dcache_interface aligns them in a line, and loads as mem_unit takes them out of it.
namespace Sargantana.LoadExtraction
open Sargantana.Packed

-- The bus is as wide as a line of the cache. Its bytes are a number of seven bits, and no access
-- of the core is wider.
structure Config where
  maxelemLog : Nat
  widest : 4 ≤ maxelemLog
  bounded : maxelemLog ≤ 6

-- bus_dcache_data_t
abbrev Config.Line (c : Config) := BitVec (8 * 2 ^ c.maxelemLog)

abbrev Config.Enables (c : Config) := BitVec (2 ^ c.maxelemLog)

variable {c : Config}

-- The element of 2 ^ g bytes that the address is in: data_rs1[DCACHE_MAXELEM_LOG-1:g]
def place (c : Config) (g : Nat) (dataRs1 : BitVec 64) : Nat := (dataRs1.extractLsb' g (c.maxelemLog - g)).toNat

def low (g : Nat) (dataRs2 : BitVec 128) : BitVec (8 * 2 ^ g) := dataRs2.extractLsb' 0 (8 * 2 ^ g)

-- aligned_data. Wider sizes than the core has get a dummy.
def alignedData (c : Config) (dataRs1 : BitVec 64) (dataRs2 : BitVec 128) (g : Nat) : c.Line :=
  if 2 ^ g * 8 ≤ 128 then
    if 2 ^ g * 8 = 8 * 2 ^ c.maxelemLog then (low g dataRs2).setWidth _
    else (low g dataRs2).setWidth _ <<< (place c g dataRs1 * 2 ^ (3 + g))
  else pack _ (8 * 2 ^ c.maxelemLog / 32) fun _ => 0xbadcab1e#32

def alignedBe (c : Config) (dataRs1 : BitVec 64) (g : Nat) : c.Enables :=
  if 2 ^ g * 8 ≤ 128 then
    if 2 ^ g * 8 = 8 * 2 ^ c.maxelemLog then BitVec.allOnes _
    else (BitVec.allOnes (2 ^ g)).setWidth _ <<< (place c g dataRs1 * 2 ^ g)
  else BitVec.allOnes _

-- {mem_size[3], mem_size[1:0]}
def sizeSelect (memSize : BitVec 4) : Nat := (memSize.extractLsb' 3 1 ++ memSize.extractLsb' 0 2).toNat

def wdata (c : Config) (memSize : BitVec 4) (dataRs1 : BitVec 64) (dataRs2 : BitVec 128) : c.Line :=
  alignedData c dataRs1 dataRs2 (sizeSelect memSize)

def be (c : Config) (memSize : BitVec 4) (dataRs1 : BitVec 64) : c.Enables := alignedBe c dataRs1 (sizeSelect memSize)

def write (line wdata : c.Line) (be : c.Enables) : c.Line :=
  pack _ (2 ^ c.maxelemLog) fun k => if be.getLsbD k then element 8 k wdata else element 8 k line

def stored (c : Config) (memSize : BitVec 4) (dataRs1 : BitVec 64) (dataRs2 : BitVec 128) (line : c.Line) : c.Line :=
  write line (wdata c memSize dataRs1 dataRs2) (be c memSize dataRs1)

def slice (c : Config) (g : Nat) (dataRs1 : BitVec 64) (data : c.Line) : BitVec (8 * 2 ^ g) :=
  data.extractLsb' (place c g dataRs1 * 2 ^ (3 + g)) (8 * 2 ^ g)

def dataByte (c : Config) (dataRs1 : BitVec 64) (data : c.Line) : BitVec 8 := slice c 0 dataRs1 data

def dataHalf (c : Config) (dataRs1 : BitVec 64) (data : c.Line) : BitVec 16 := slice c 1 dataRs1 data

def dataWord (c : Config) (dataRs1 : BitVec 64) (data : c.Line) : BitVec 32 := slice c 2 dataRs1 data

def dataDword (c : Config) (dataRs1 : BitVec 64) (data : c.Line) : BitVec 64 := slice c 3 dataRs1 data

def dataQword (c : Config) (dataRs1 : BitVec 64) (data : c.Line) : BitVec 128 :=
  if c.maxelemLog = 4 then data.setWidth 128 else slice c 4 dataRs1 data

def data8word (c : Config) (dataRs1 : BitVec 64) (data : c.Line) : BitVec 256 :=
  if c.maxelemLog = 5 then data.setWidth 256 else slice c 5 dataRs1 data

def dataToWb (c : Config) (memSize : BitVec 4) (dataRs1 : BitVec 64) (data : c.Line) : BitVec 128 :=
  match memSize.toNat with
  | 0 => (dataByte c dataRs1 data).signExtend 128
  | 1 => (dataHalf c dataRs1 data).signExtend 128
  | 2 => (dataWord c dataRs1 data).signExtend 128
  | 3 => (dataDword c dataRs1 data).signExtend 128
  | 4 => (dataByte c dataRs1 data).setWidth 128
  | 5 => (dataHalf c dataRs1 data).setWidth 128
  | 6 => (dataWord c dataRs1 data).setWidth 128
  | 7 => (dataDword c dataRs1 data).setWidth 128
  | 8 => dataQword c dataRs1 data
  | 9 => (data8word c dataRs1 data).setWidth 128
  | _ => data.setWidth 128

-- The sizes that there are: the decoder puts a zero before func3, and vagu makes its own.
inductive Emitted : BitVec 4 → Prop where
  | decoded (func3 : BitVec 3) : Emitted (0#1 ++ func3)
  | generated {b : Nat} (narrow : b ≤ 4) : Emitted (Vagu.sizeCode b)

-- The bytes of an access are 2 ^ sizeLog. The scalar loads without a sign have their own sizes.
def sizeLog (memSize : BitVec 4) : Nat := if memSize = Vagu.lineSize then 4 else memSize.toNat % 4

def signed (memSize : BitVec 4) : Bool := decide (memSize.toNat < 4)

def extended (memSize : BitVec 4) (dataRs2 : BitVec 128) : BitVec 128 :=
  if signed memSize then (low (sizeLog memSize) dataRs2).signExtend 128 else (low (sizeLog memSize) dataRs2).setWidth 128

def offset (c : Config) (dataRs1 : BitVec 64) : Nat := dataRs1.toNat % 2 ^ c.maxelemLog

def Aligned (memSize : BitVec 4) (dataRs1 : BitVec 64) : Prop := dataRs1.toNat % 2 ^ sizeLog memSize = 0

instance (memSize : BitVec 4) (dataRs1 : BitVec 64) : Decidable (Aligned memSize dataRs1) := inferInstanceAs (Decidable (_ = _))

theorem emitted_size {memSize : BitVec 4} (emitted : Emitted memSize) : memSize.toNat ≤ 8 := by
  cases emitted with
  | decoded func3 =>
    revert func3
    decide
  | generated narrow =>
    rename_i b
    have sizes : ∀ b ≤ 4, (Vagu.sizeCode b).toNat ≤ 8 := by decide
    exact sizes b narrow

theorem sizeSelect_log {memSize : BitVec 4} (emitted : Emitted memSize) : sizeSelect memSize = sizeLog memSize ∧ sizeLog memSize ≤ 4 := by
  have sizes : ∀ m : BitVec 4, m.toNat ≤ 8 → sizeSelect m = sizeLog m ∧ sizeLog m ≤ 4 := by decide
  exact sizes memSize (emitted_size emitted)

section
variable {g : Nat} {dataRs1 : BitVec 64} {dataRs2 : BitVec 128} {line : c.Line}

theorem place_inside (c : Config) (dataRs1 : BitVec 64) (narrow : g ≤ 4) : place c g dataRs1 * 2 ^ g + 2 ^ g ≤ 2 ^ c.maxelemLog := by
  have wide := c.widest
  have below : place c g dataRs1 + 1 ≤ 2 ^ (c.maxelemLog - g) := BitVec.isLt _
  have rows := Nat.mul_le_mul_right (2 ^ g) below
  rw [← Nat.pow_add,Nat.sub_add_cancel (by omega),Nat.add_mul,Nat.one_mul] at rows
  exact rows

theorem place_bits (g o : Nat) : o * 2 ^ (3 + g) = o * 2 ^ g * 8 := by
  rw [Nat.pow_add,Nat.mul_assoc,Nat.mul_comm 8]

theorem whole_place (whole : c.maxelemLog = g) : place c g dataRs1 = 0 := by
  rw [place,whole,Nat.sub_self]
  exact Nat.lt_one_iff.mp (BitVec.isLt _)

theorem alignedData_shifted (narrow : g ≤ 4) : alignedData c dataRs1 dataRs2 g =
    (low g dataRs2).setWidth _ <<< (place c g dataRs1 * 2 ^ g * 8) := by
  have size : 2 ^ g * 8 ≤ 128 := Nat.mul_le_mul_right 8 (Nat.pow_le_pow_right (by decide) narrow : 2 ^ g ≤ 2 ^ 4)
  rw [alignedData,if_pos size,place_bits]
  split
  · rename_i whole
    have same : c.maxelemLog = g := by
      rw [Nat.mul_comm] at whole
      exact (Nat.pow_right_injective (Nat.le_refl 2) (Nat.eq_of_mul_eq_mul_left (by decide) whole)).symm
    rw [whole_place same,Nat.zero_mul,Nat.zero_mul,BitVec.shiftLeft_zero]
  · rfl

theorem alignedBe_bit (dataRs1 : BitVec 64) (narrow : g ≤ 4) {k : Nat} (inside : k < 2 ^ c.maxelemLog) : (alignedBe c dataRs1 g).getLsbD k =
    decide (place c g dataRs1 * 2 ^ g ≤ k ∧ k < place c g dataRs1 * 2 ^ g + 2 ^ g) := by
  have size : 2 ^ g * 8 ≤ 128 := Nat.mul_le_mul_right 8 (Nat.pow_le_pow_right (by decide) narrow : 2 ^ g ≤ 2 ^ 4)
  rw [alignedBe,if_pos size]
  split
  · rename_i whole
    have same : 2 ^ g = 2 ^ c.maxelemLog := by omega
    have first : place c g dataRs1 = 0 := whole_place (Nat.pow_right_injective (Nat.le_refl 2) same).symm
    rw [first,Nat.zero_mul,same]
    simp [inside]
  · rw [BitVec.getLsbD_shiftLeft,BitVec.getLsbD_setWidth,BitVec.getLsbD_allOnes,Bool.eq_iff_iff]
    simp only [Bool.and_eq_true,Bool.not_eq_true',decide_eq_true_iff,decide_eq_false_iff_not]
    omega

theorem write_byte {wdata : c.Line} {be : c.Enables} {k : Nat} (inside : k < 2 ^ c.maxelemLog) :
    element 8 k (write line wdata be) = if be.getLsbD k then element 8 k wdata else element 8 k line :=
  element_pack _ inside (Nat.le_of_eq (Nat.mul_comm _ _))

variable {memSize : BitVec 4}

theorem stored_inside (narrow : sizeSelect memSize ≤ 4) {j : Nat} (inside : j < 2 ^ sizeSelect memSize) :
    element 8 (place c (sizeSelect memSize) dataRs1 * 2 ^ sizeSelect memSize + j) (stored c memSize dataRs1 dataRs2 line) =
      element 8 j dataRs2 := by
  have row := place_inside c dataRs1 narrow
  have within : place c (sizeSelect memSize) dataRs1 * 2 ^ sizeSelect memSize + j < 2 ^ c.maxelemLog := by omega
  have enabled := alignedBe_bit dataRs1 narrow within
  rw [decide_eq_true (by omega)] at enabled
  rw [stored,write_byte within,be,if_pos enabled,wdata,alignedData_shifted narrow,element_shiftLeft _ (by omega),
    element_setWidth _ (by omega),low,element_low _ (by omega)]

theorem stored_outside (narrow : sizeSelect memSize ≤ 4) {k : Nat} (inside : k < 2 ^ c.maxelemLog)
    (apart : k < place c (sizeSelect memSize) dataRs1 * 2 ^ sizeSelect memSize ∨
      place c (sizeSelect memSize) dataRs1 * 2 ^ sizeSelect memSize + 2 ^ sizeSelect memSize ≤ k) :
    element 8 k (stored c memSize dataRs1 dataRs2 line) = element 8 k line := by
  have disabled := alignedBe_bit dataRs1 narrow inside
  rw [decide_eq_false (by omega)] at disabled
  rw [stored,write_byte inside,be,disabled,if_neg (by decide)]

-- The bytes that were written are the ones that a load of the same size takes.
theorem slice_stored (dataRs1 : BitVec 64) (dataRs2 : BitVec 128) (line : c.Line) (narrow : sizeSelect memSize ≤ 4) :
    slice c (sizeSelect memSize) dataRs1 (stored c memSize dataRs1 dataRs2 line) = low (sizeSelect memSize) dataRs2 := by
  have rows : 2 ^ sizeSelect memSize * 8 = 8 * 2 ^ sizeSelect memSize := Nat.mul_comm _ _
  refine elements_ext (w := 8) (k := 2 ^ sizeSelect memSize) (Nat.le_of_eq rows.symm) fun j inside => ?_
  have start : place c (sizeSelect memSize) dataRs1 * 2 ^ (3 + sizeSelect memSize) =
      8 * 2 ^ sizeSelect memSize * place c (sizeSelect memSize) dataRs1 := by
    rw [place_bits,Nat.mul_comm 8,Nat.mul_assoc,Nat.mul_comm]
  rw [slice,start,element_slice rows _ inside,stored_inside narrow inside,low,element_low _ (by omega)]

theorem dataQword_slice (data : c.Line) : dataQword c dataRs1 data = slice c 4 dataRs1 data := by
  rw [dataQword]
  split
  · rename_i whole
    rw [slice,whole_place whole,Nat.zero_mul]
    refine BitVec.eq_of_getLsbD_eq fun j below => ?_
    simp [below]
  · rfl

theorem dataToWb_slice (known : memSize.toNat ≤ 8) (data : c.Line) : dataToWb c memSize dataRs1 data =
    if signed memSize then (slice c (sizeLog memSize) dataRs1 data).signExtend 128
    else (slice c (sizeLog memSize) dataRs1 data).setWidth 128 := by
  have sizes : ∀ m : BitVec 4, m.toNat ≤ 8 → m = 0 ∨ m = 1 ∨ m = 2 ∨ m = 3 ∨ m = 4 ∨ m = 5 ∨ m = 6 ∨ m = 7 ∨ m = 8 := by decide
  rcases sizes memSize known with rfl | rfl | rfl | rfl | rfl | rfl | rfl | rfl | rfl
  · rfl
  · rfl
  · rfl
  · rfl
  · rfl
  · rfl
  · rfl
  · rfl
  · exact (dataQword_slice data).trans (BitVec.setWidth_eq _).symm

theorem aligned_place (narrow : sizeLog memSize ≤ 4) (aligned : Aligned memSize dataRs1) :
    place c (sizeLog memSize) dataRs1 * 2 ^ sizeLog memSize = offset c dataRs1 := by
  have wide := c.widest
  have split : 2 ^ c.maxelemLog = 2 ^ sizeLog memSize * 2 ^ (c.maxelemLog - sizeLog memSize) := by
    rw [← Nat.pow_add,Nat.add_sub_cancel' (by omega)]
  rw [Aligned] at aligned
  rw [place,BitVec.extractLsb'_toNat,Nat.shiftRight_eq_div_pow,offset,split,Nat.mod_mul,aligned,Nat.zero_add,Nat.mul_comm]

end

theorem load_undoes_store (c : Config) (storeSize loadSize : BitVec 4) (dataRs1 : BitVec 64) (dataRs2 : BitVec 128) (line : c.Line)
    (emitted : Emitted storeSize ∧ Emitted loadSize) (same : sizeLog storeSize = sizeLog loadSize)
    (aligned : Aligned storeSize dataRs1) :
    dataToWb c loadSize dataRs1 (stored c storeSize dataRs1 dataRs2 line) = extended loadSize dataRs2 ∧
    ∀ k < 2 ^ c.maxelemLog, k < offset c dataRs1 ∨ offset c dataRs1 + 2 ^ sizeLog storeSize ≤ k →
      element 8 k (stored c storeSize dataRs1 dataRs2 line) = element 8 k line := by
  obtain ⟨store,load⟩ := emitted
  obtain ⟨size,narrow⟩ := sizeSelect_log store
  constructor
  · have bytes := slice_stored dataRs1 dataRs2 line (by omega : sizeSelect storeSize ≤ 4)
    rw [size,same] at bytes
    rw [dataToWb_slice (emitted_size load),bytes]
    rfl
  · intro k inside apart
    refine stored_outside (by omega) inside ?_
    rw [size,aligned_place narrow aligned]
    exact apart

-- A halfword in a line that holds other bytes, the two beside it among them
def wide : Config := ⟨6,by decide,by decide⟩

def line : wide.Line := 0xf7f6f5f4f3f2f1f0 <<< (8 * 0x28)

theorem load_undoes_store_half :
    dataToWb wide 1 0x2a (stored wide 1 0x2a 0x1234abcd line) = BitVec.allOnes 112 ++ 0xabcd#16 ∧
      element 8 0x29 (stored wide 1 0x2a 0x1234abcd line) = 0xf1 ∧ element 8 0x2c (stored wide 1 0x2a 0x1234abcd line) = 0xf4 := by
  obtain ⟨read,others⟩ := load_undoes_store wide 1 1 0x2a 0x1234abcd line ⟨.decoded 1,.decoded 1⟩ rfl (by decide)
  refine ⟨read.trans (by decide),?_,?_⟩
  · exact (others 0x29 (by decide) (by decide)).trans (by decide +kernel)
  · exact (others 0x2c (by decide) (by decide)).trans (by decide +kernel)

end Sargantana.LoadExtraction
