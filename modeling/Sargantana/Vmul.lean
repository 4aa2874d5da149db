import Sargantana.VdivLane
import Sargantana.Lib.PartialProducts

-- vmul, the multiplier of a 64-bit lane. All widths share the products of the bytes; the
-- widest one takes a stage more.
namespace Sargantana.Vmul
open DracPkg Sargantana.Packed PartialProducts
open Vdiv hiding isSigned magnitude State Input reset next dataVd

structure Input where
  instrType : InstrType
  sew : Fin 4
  dataVs1 : BitVec 64
  dataVs2 : BitVec 64

def isMulh : InstrType → Bool
  | .vmulh | .vmulhu | .vmulhsu => true
  | _ => false

def isSigned (t : InstrType) : Bool := t != .vmulhu && t != .vwmulu && t != .vwmaccu

def isSignedUnsigned (t : InstrType) : Bool := t == .vmulhsu || t == .vwmulsu || t == .vwmaccus

def isUnsignedSigned (t : InstrType) : Bool := t == .vwmaccsu

def isWidened : InstrType → Bool
  | .vwmul | .vwmulu | .vwmulsu | .vwmacc | .vwmaccu | .vwmaccsu | .vwmaccus => true
  | _ => false

def src1Signed (t : InstrType) : Bool := isSigned t ^^ isSignedUnsigned t

def src2Signed (t : InstrType) : Bool := isSigned t ^^ isUnsignedSigned t

def magnitude {w : Nat} (signed : Bool) (x : BitVec w) : BitVec w := if signed && x.msb then negate x else x

def srcData (signed : Bool) (sew : Fin 4) (data : BitVec 64) : BitVec 64 :=
  pack 64 (count sew) fun k => magnitude signed (element (bits sew) k data)

structure Stage1 where
  sew : Fin 4
  isMulh : Bool
  isWidened : Bool
  negativeResults : Nat → Bool
  src1Data : BitVec 64
  src2Data : BitVec 64

structure Stage2 where
  sew : Fin 4
  isMulh : Bool
  negativeResults : Nat → Bool
  products32b : Nat → Nat → BitVec 64

structure State where
  stage1 : Stage1
  stage2 : Stage2

def reset : State := ⟨⟨0,false,false,fun _ => false,0,0⟩,⟨0,false,fun _ => false,fun _ _ => 0⟩⟩

def capture (i : Input) : Stage1 where
  sew := i.sew
  isMulh := isMulh i.instrType
  isWidened := isWidened i.instrType
  negativeResults k := decide (k < count i.sew) &&
    ((src1Signed i.instrType && (element (bits i.sew) k i.dataVs1).msb) ^^
      (src2Signed i.instrType && (element (bits i.sew) k i.dataVs2).msb))
  src1Data := srcData (src1Signed i.instrType) i.sew i.dataVs1
  src2Data := srcData (src2Signed i.instrType) i.sew i.dataVs2

-- The products of all elements by all elements, of bytes and of each width by its halves
def products8b (s : Stage1) (i j : Nat) : BitVec (8 + 8) := full (element 8 i s.src1Data) (element 8 j s.src2Data)

def products16b (s : Stage1) (i j : Nat) : BitVec (16 + 16) :=
  combine (products8b s (2 * i) (2 * j)) (products8b s (2 * i) (2 * j + 1))
    (products8b s (2 * i + 1) (2 * j)) (products8b s (2 * i + 1) (2 * j + 1))

def products32b (s : Stage1) (i j : Nat) : BitVec (32 + 32) :=
  combine (products16b s (2 * i) (2 * j)) (products16b s (2 * i) (2 * j + 1))
    (products16b s (2 * i + 1) (2 * j)) (products16b s (2 * i + 1) (2 * j + 1))

def advance (s : Stage1) : Stage2 where
  sew := s.sew
  isMulh := s.isMulh
  negativeResults := s.negativeResults
  products32b := products32b s

def product64b (s : Stage2) : BitVec (64 + 64) :=
  combine (w := 32) (s.products32b 0 0) (s.products32b 0 1) (s.products32b 1 0) (s.products32b 1 1)

def signedResult {m : Nat} (negative : Bool) (product : BitVec m) : BitVec m := if negative then negate product else product

def half {w : Nat} (isMulh : Bool) (product : BitVec (w + w)) : BitVec w :=
  if isMulh then product.extractLsb' w w else product.extractLsb' 0 w

-- One arm of data_vd_o1: the products of w bits of the widened forms, or a half of each
def output (s : Stage1) (w : Nat) (product : Nat → BitVec (w + w)) : BitVec 64 :=
  if s.isWidened then pack 64 (32 / w) fun k => signedResult (s.negativeResults k) (product k)
  else pack 64 (64 / w) fun k => half s.isMulh (signedResult (s.negativeResults k) (product k))

def dataVd1 (s : Stage1) : BitVec 64 :=
  match s.sew with
  | 0 => output s 8 fun k => products8b s k k
  | 1 => output s 16 fun k => products16b s k k
  | 2 => output s 32 fun k => products32b s k k
  | 3 => 0

def dataVd2 (s : Stage2) : BitVec 64 := half s.isMulh (signedResult (s.negativeResults 0) (product64b s))

-- The width in stage 2 selects the result.
def dataVd (s : State) : BitVec 64 := if s.stage2.sew = 3 then dataVd2 s.stage2 else dataVd1 s.stage1

-- full_data_o: the products in their whole width
def fullOutput (s : Stage1) (w : Nat) (product : Nat → BitVec (w + w)) : BitVec 128 :=
  if s.isWidened then 0 else pack 128 (64 / w) fun k => signedResult (s.negativeResults k) (product k)

def fullData1 (s : Stage1) : BitVec 128 :=
  match s.sew with
  | 0 => fullOutput s 8 fun k => products8b s k k
  | 1 => fullOutput s 16 fun k => products16b s k k
  | 2 => fullOutput s 32 fun k => products32b s k k
  | 3 => 0

def fullData2 (s : Stage2) : BitVec 128 := signedResult (s.negativeResults 0) (product64b s)

def fullData (s : State) : BitVec 128 := if s.stage2.sew = 3 then fullData2 s.stage2 else fullData1 s.stage1

def next (s : State) (i : Input) : State := ⟨capture i,advance s.stage1⟩

def width (i : Input) : Nat := if isWidened i.instrType then bits i.sew + bits i.sew else bits i.sew

def product (i : Input) (k : Nat) : Int :=
  MExtension.reading (src1Signed i.instrType) (element (bits i.sew) k i.dataVs1) *
    MExtension.reading (src2Signed i.instrType) (element (bits i.sew) k i.dataVs2)

def value (i : Input) (k : Nat) : Int := if isMulh i.instrType then product i k / 2 ^ bits i.sew else product i k

theorem products16b_full (s : Stage1) (i j : Nat) :
    products16b s i j = full (element 16 i s.src1Data) (element 16 j s.src2Data) := combine_full s.src1Data s.src2Data i j

theorem products32b_full (s : Stage1) (i j : Nat) :
    products32b s i j = full (element 32 i s.src1Data) (element 32 j s.src2Data) := by
  rw [products32b,products16b_full,products16b_full,products16b_full,products16b_full]
  exact combine_full s.src1Data s.src2Data i j

theorem product64b_full (s : Stage1) :
    product64b (advance s) = full (element 64 0 s.src1Data) (element 64 0 s.src2Data) := by
  rw [product64b]
  change combine (w := 32) (products32b s 0 0) (products32b s 0 1) (products32b s 1 0) (products32b s 1 1) = _
  rw [products32b_full,products32b_full,products32b_full,products32b_full]
  exact combine_full s.src1Data s.src2Data 0 0

theorem magnitude_eq {w : Nat} (signed : Bool) (x : BitVec w) : magnitude signed x = MExtension.magnitude signed x := by
  rw [magnitude,MExtension.magnitude,VdivLane.negate_neg]

theorem element_srcData (signed : Bool) (sew : Fin 4) (data : BitVec 64) {k : Nat} (inside : k < count sew) :
    element (bits sew) k (srcData signed sew data) = MExtension.magnitude signed (element (bits sew) k data) := by
  rw [srcData,element_pack _ inside (by rw [VdivLane.bits_count]),magnitude_eq]

theorem signed_product (i : Input) {k : Nat} (inside : k < count i.sew) :
    signedResult ((capture i).negativeResults k)
        (full (element (bits i.sew) k (capture i).src1Data) (element (bits i.sew) k (capture i).src2Data)) =
      BitVec.ofInt (bits i.sew + bits i.sew) (product i k) := by
  have first := element_srcData (src1Signed i.instrType) i.sew i.dataVs1 inside
  have second := element_srcData (src2Signed i.instrType) i.sew i.dataVs2 inside
  change signedResult (decide (k < count i.sew) && _) (full (element _ k (srcData _ _ _)) (element _ k (srcData _ _ _))) = _
  rw [first,second,decide_eq_true inside,Bool.true_and,signedResult,VdivLane.negate_neg]
  exact signed_full _ _ _ _

theorem half_product (isMulh : Bool) {w : Nat} (p : Int) :
    half isMulh (BitVec.ofInt (w + w) p) = BitVec.ofInt w (if isMulh then p / 2 ^ w else p) := by
  cases isMulh with
  | false => exact MExtension.low_half p
  | true => exact MExtension.high_half p

theorem widened_low {t : InstrType} (widened : isWidened t = true) : isMulh t = false := by
  cases t <;> simp_all [isWidened,isMulh]

theorem output_exact (i : Input) {w : Nat} (same : bits i.sew = w) {products : Nat → BitVec (w + w)}
    (exact' : ∀ k, products k = full (element w k (capture i).src1Data) (element w k (capture i).src2Data))
    {k : Nat} (inside : k < 64 / width i) :
    element (width i) k (output (capture i) w products) = BitVec.ofInt (width i) (value i k) := by
  subst same
  have rows : ∀ sew : Fin 4, 64 / (bits sew + bits sew) = 32 / bits sew ∧ 32 / bits sew ≤ count sew ∧
    32 / bits sew * (bits sew + bits sew) ≤ 64 := by decide
  obtain ⟨pairs,fewer,fits⟩ := rows i.sew
  cases widened : isWidened i.instrType with
  | true =>
    have wide : width i = bits i.sew + bits i.sew := if_pos widened
    have whole : value i k = product i k := if_neg (by rw [widened_low widened]; simp)
    rw [wide,pairs] at inside
    rw [wide,whole,output,if_pos (show (capture i).isWidened = true from widened),element_pack _ inside fits,exact']
    exact signed_product i (Nat.lt_of_lt_of_le inside fewer)
  | false =>
    have narrow : width i = bits i.sew := if_neg (by rw [widened]; simp)
    have plain : ¬ (capture i).isWidened = true := by
      change ¬ isWidened i.instrType = true
      rw [widened]
      simp
    rw [narrow] at inside
    rw [narrow,output,if_neg plain,element_pack _ inside (Nat.div_mul_le_self _ _),exact',signed_product i inside]
    exact half_product _ _

-- The elements below 64 bits come out of stage 1.
theorem dataVd1_exact (i : Input) (narrow : i.sew ≠ 3) {k : Nat} (inside : k < 64 / width i) :
    element (width i) k (dataVd1 (capture i)) = BitVec.ofInt (width i) (value i k) := by
  have captured : (capture i).sew = i.sew := rfl
  rw [dataVd1,captured]
  match sew : i.sew with
  | 0 => exact output_exact i (by rw [sew]; rfl) (fun _ => rfl) inside
  | 1 => exact output_exact i (by rw [sew]; rfl) (fun k => products16b_full _ k k) inside
  | 2 => exact output_exact i (by rw [sew]; rfl) (fun k => products32b_full _ k k) inside
  | 3 => exact absurd sew narrow

-- The elements of 64 bits come out of stage 2.
theorem dataVd2_exact (i : Input) (sew : i.sew = 3) (single : isWidened i.instrType = false) :
    dataVd2 (advance (capture i)) = BitVec.ofInt 64 (value i 0) := by
  obtain ⟨t,width,vs1,vs2⟩ := i
  subst sew
  have exact' := signed_product ⟨t,3,vs1,vs2⟩ (show 0 < count 3 by decide)
  rw [dataVd2,product64b_full]
  exact (congrArg (half _) exact').trans (half_product _ _)

theorem fullOutput_exact (i : Input) (single : isWidened i.instrType = false) {w : Nat} (same : bits i.sew = w)
    {products : Nat → BitVec (w + w)}
    (exact' : ∀ k, products k = full (element w k (capture i).src1Data) (element w k (capture i).src2Data))
    {k : Nat} (inside : k < count i.sew) :
    element (bits i.sew + bits i.sew) k (fullOutput (capture i) w products) =
      BitVec.ofInt (bits i.sew + bits i.sew) (product i k) := by
  subst same
  have fits : ∀ sew : Fin 4, 64 / bits sew * (bits sew + bits sew) ≤ 128 := by decide
  have plain : ¬ (capture i).isWidened = true := by
    change ¬ isWidened i.instrType = true
    rw [single]
    exact Bool.false_ne_true
  have placed := element_pack (n := 128) (fun k => signedResult ((capture i).negativeResults k) (products k)) inside (fits i.sew)
  rw [fullOutput,if_neg plain]
  refine placed.trans ?_
  rw [exact']
  exact signed_product i inside

theorem fullData1_exact (i : Input) (narrow : i.sew ≠ 3) (single : isWidened i.instrType = false) {k : Nat}
    (inside : k < count i.sew) :
    element (bits i.sew + bits i.sew) k (fullData1 (capture i)) = BitVec.ofInt (bits i.sew + bits i.sew) (product i k) := by
  obtain ⟨t,sew,vs1,vs2⟩ := i
  rcases sew with ⟨_ | _ | _ | _ | n,less⟩
  · exact fullOutput_exact ⟨t,0,vs1,vs2⟩ single rfl (fun _ => rfl) inside
  · exact fullOutput_exact ⟨t,1,vs1,vs2⟩ single rfl (fun k => products16b_full _ k k) inside
  · exact fullOutput_exact ⟨t,2,vs1,vs2⟩ single rfl (fun k => products32b_full _ k k) inside
  · exact absurd rfl narrow
  · omega

theorem fullData2_exact (i : Input) (sew : i.sew = 3) : fullData2 (advance (capture i)) = BitVec.ofInt 128 (product i 0) := by
  obtain ⟨t,width,vs1,vs2⟩ := i
  subst sew
  have exact' := signed_product ⟨t,3,vs1,vs2⟩ (show 0 < count 3 by decide)
  rw [fullData2,product64b_full]
  exact exact'

end Sargantana.Vmul
