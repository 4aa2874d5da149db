import Sargantana.Lib.FixedPoint
import Sargantana.Lib.Packed
import Sargantana.VdivLane

-- vshift: right shifters with a sign bit in front of the element. A shift to the left is done
-- on the word in reverse.
namespace Sargantana.Vshift
open DracPkg Sargantana.Packed FixedPoint
open Vdiv (bits count)

def vsll : InstrType := .other 158

def vsrl : InstrType := .other 160

def vsra : InstrType := .other 159

def vnsrl : InstrType := .other 161

def vnsra : InstrType := .other 162

def vssrl : InstrType := .other 192

def vssra : InstrType := .other 193

structure Input where
  instrType : InstrType
  sew : Fin 4
  vxrm : Vxrm
  dataVs1 : BitVec 64
  dataVs2 : BitVec 64

def isSigned (t : InstrType) : Bool := t == vsra || t == vnsra || t == vssra

def isLeft (t : InstrType) : Bool := t == vsll

def isNarrow (t : InstrType) : Bool := t == vnsrl || t == vnsra

def isScaling (t : InstrType) : Bool := t == vssrl || t == vssra

-- The elements of vs1 in reverse, each as it is
def dataVs1Flipped (i : Input) : BitVec 64 :=
  pack 64 (count i.sew) fun k => element (bits i.sew) (count i.sew - 1 - k) i.dataVs1

def dataA (i : Input) : BitVec 64 := if isLeft i.instrType then i.dataVs2.reverse else i.dataVs2

def dataB (i : Input) : BitVec 64 := if isLeft i.instrType then dataVs1Flipped i else i.dataVs1

-- The low bits of the element k of vs1
def amount (i : Input) (k more : Nat) : Nat := ((dataB i).extractLsb' (k * bits i.sew) (3 + i.sew.val + more)).toNat

-- The loop of RNE over the bits that are shifted out: in SEW_64 it is compared with the amount,
-- in the others with one less.
def rneSticky {w : Nat} (sew : Fin 4) (a : BitVec w) (d : Nat) : Bool :=
  if 1 < d then
    (List.range (bits sew - 2)).any fun j => decide (j < if sew = 3 then d else d - 1) && a.getLsbD j
  else false

def rodSticky {w : Nat} (sew : Fin 4) (a : BitVec w) (d : Nat) : Bool :=
  if d ≠ 0 then (List.range (bits sew - 1)).any fun j => decide (j < d) && a.getLsbD j else false

-- The index d - 1 of an amount of 0 is beyond the element: `beyond` is what is read there.
def roundingIncrement {w : Nat} (beyond : Bool) (vxrm : Vxrm) (sew : Fin 4) (a : BitVec w) (d : Nat) : Bool :=
  match vxrm with
  | .rnu => if d ≠ 0 then a.getLsbD (d - 1) else false
  | .rne => (rneSticky sew a d || a.getLsbD d) && (if d = 0 then beyond else a.getLsbD (d - 1))
  | .rdn => false
  | .rod => rodSticky sew a d && !a.getLsbD d

def shifted {w : Nat} (signed : Bool) (a : BitVec w) (d : Nat) : BitVec w :=
  ((BitVec.cons (signed && a.msb) a).sshiftRight d).setWidth w

def flag (w : Nat) (b : Bool) : BitVec w := (BitVec.ofBool b).setWidth w

-- The element k of data_vd, for the instructions that do not narrow
def elementVd (beyond : Nat → Bool) (i : Input) (k : Nat) : BitVec (bits i.sew) :=
  let a := element (bits i.sew) k (dataA i)
  let d := amount i k 0
  if isScaling i.instrType then
    shifted (isSigned i.instrType) a d + flag (bits i.sew) (roundingIncrement (beyond k) i.vxrm i.sew a d)
  else shifted (isSigned i.instrType) a d

def narrowVd (i : Input) (k : Nat) : BitVec (bits i.sew) :=
  (shifted (isSigned i.instrType) (element (bits i.sew + bits i.sew) k (dataA i)) (amount i k 1)).setWidth (bits i.sew)

def dataVd (beyond : Nat → Bool) (i : Input) : BitVec 64 :=
  if isNarrow i.instrType then
    if i.sew = 3 then shifted (isSigned i.instrType) (dataA i) (amount i 0 0) else pack 64 (count i.sew / 2) (narrowVd i)
  else pack 64 (count i.sew) (elementVd beyond i)

def dataVdO (beyond : Nat → Bool) (i : Input) : BitVec 64 :=
  if isLeft i.instrType then (dataVd beyond i).reverse else dataVd beyond i

-- What RVV asks for: the shift by the amount modulo SEW, and for the scaling shifts the
-- increment of the rounding mode
def shiftAmount (i : Input) (k : Nat) : Nat := (element (bits i.sew) k i.dataVs1).toNat % bits i.sew

def rounding (i : Input) (k : Nat) : BitVec (bits i.sew) :=
  flag (bits i.sew) (increment i.vxrm (element (bits i.sew) k i.dataVs2).toNat (shiftAmount i k))

def rvv (i : Input) (k : Nat) : BitVec (bits i.sew) :=
  let v := element (bits i.sew) k i.dataVs2
  if i.instrType = vsll then v <<< shiftAmount i k
  else if i.instrType = vsrl then v >>> shiftAmount i k
  else if i.instrType = vsra then v.sshiftRight (shiftAmount i k)
  else if i.instrType = vssrl then v >>> shiftAmount i k + rounding i k
  else v.sshiftRight (shiftAmount i k) + rounding i k

def shifts (t : InstrType) : Bool := t == vsll || t == vsrl || t == vsra || t == vssrl || t == vssra

section
variable {w : Nat}

theorem shifted_signed (a : BitVec w) (d : Nat) : shifted true a d = a.sshiftRight d := by
  refine BitVec.eq_of_getLsbD_eq fun j inside => ?_
  rw [shifted,BitVec.getLsbD_setWidth,BitVec.getLsbD_sshiftRight,BitVec.getLsbD_sshiftRight,BitVec.getLsbD_cons,BitVec.msb_cons]
  rcases Nat.lt_trichotomy (d + j) w with below | last | beyond
  · simp [inside,below,show ¬ w + 1 ≤ j by omega,show ¬ w ≤ j by omega,show d + j < w + 1 by omega,show d + j ≠ w by omega]
  · simp [inside,last,show ¬ w + 1 ≤ j by omega,show ¬ w ≤ j by omega]
  · simp [inside,show ¬ w + 1 ≤ j by omega,show ¬ w ≤ j by omega,show ¬ d + j < w + 1 by omega,show ¬ d + j < w by omega]

theorem shifted_unsigned (a : BitVec w) (d : Nat) : shifted false a d = a >>> d := by
  refine BitVec.eq_of_getLsbD_eq fun j inside => ?_
  rw [shifted,BitVec.getLsbD_setWidth,BitVec.getLsbD_sshiftRight,BitVec.getLsbD_ushiftRight,BitVec.getLsbD_cons,BitVec.msb_cons]
  rcases Nat.lt_trichotomy (d + j) w with below | last | beyond
  · simp [inside,show ¬ w + 1 ≤ j by omega,show d + j < w + 1 by omega,show d + j ≠ w by omega]
  · simp [inside,last,show ¬ w + 1 ≤ j by omega]
  · simp [inside,show ¬ w + 1 ≤ j by omega,show ¬ d + j < w + 1 by omega,BitVec.getLsbD_of_ge a (d + j) (by omega)]

theorem reverse_shift (a : BitVec w) (d : Nat) : (a.reverse >>> d).reverse = a <<< d := by
  refine BitVec.eq_of_getLsbD_eq fun j inside => ?_
  rw [BitVec.getLsbD_reverse,BitVec.getMsbD_ushiftRight,BitVec.getMsbD_reverse,BitVec.getLsbD_shiftLeft]
  by_cases low : j < d <;> simp [inside,low]

theorem element_reverse {n m k : Nat} (rows : m * w = n) (inside : k < m) (x : BitVec n) :
    element w k x.reverse = (element w (m - 1 - k) x).reverse := by
  have last : (m - 1 - k) * w + k * w + w = n := by
    have split : m = m - 1 - k + k + 1 := by omega
    rw [← rows]
    conv_rhs => rw [split]
    rw [Nat.add_mul,Nat.add_mul,Nat.one_mul]
  refine BitVec.eq_of_getLsbD_eq fun j below => ?_
  have place : n - 1 - (k * w + j) = (m - 1 - k) * w + (w - 1 - j) := by omega
  rw [element_bit,BitVec.getLsbD_reverse,BitVec.getLsbD_reverse,BitVec.getMsbD_eq_getLsbD,BitVec.getMsbD_eq_getLsbD,element_bit,place]
  simp [below,show k * w + j < n by omega,show w - 1 - j < w by omega]

end

theorem bits_pow (sew : Fin 4) : 2 ^ (3 + sew.val) = bits sew := by
  revert sew
  decide

theorem amount_element (sew : Fin 4) (k : Nat) (x : BitVec 64) :
    (x.extractLsb' (k * bits sew) (3 + sew.val + 0)).toNat = (element (bits sew) k x).toNat % bits sew := by
  have divides : bits sew ∣ 2 ^ bits sew := by
    rw [← bits_pow sew]
    refine Nat.pow_dvd_pow 2 ?_
    have rows : ∀ sew : Fin 4, 3 + sew.val ≤ 2 ^ (3 + sew.val) := by decide
    exact rows sew
  simp only [element,BitVec.extractLsb'_toNat,Nat.add_zero]
  rw [bits_pow,Nat.mod_mod_of_dvd _ divides]

section
variable {i : Input} {k : Nat}

theorem amount_right (right : isLeft i.instrType = false) : amount i k 0 = shiftAmount i k := by
  rw [amount,dataB,right]
  exact amount_element i.sew k i.dataVs1

theorem amount_left (left : isLeft i.instrType = true) (inside : k < count i.sew) :
    amount i (count i.sew - 1 - k) 0 = shiftAmount i k := by
  have fits : count i.sew * bits i.sew ≤ 64 := Nat.le_of_eq (VdivLane.bits_count i.sew)
  have back : count i.sew - 1 - (count i.sew - 1 - k) = k := by omega
  rw [amount,dataB,left,if_pos rfl,amount_element,dataVs1Flipped,element_pack _ (by omega) fits,back]
  rfl

theorem shiftAmount_lt (i : Input) (k : Nat) : shiftAmount i k < bits i.sew :=
  Nat.mod_lt _ (Nat.lt_of_lt_of_le (by decide) (VdivLane.bits_pos i.sew))

end

theorem any_below {n d : Nat} (f : Nat → Bool) :
    ((List.range n).any fun j => decide (j < d) && f j) = (List.range (min n d)).any f := by
  rw [Bool.eq_iff_iff]
  simp only [List.any_eq_true,List.mem_range,Bool.and_eq_true,decide_eq_true_iff,Nat.lt_min]
  constructor
  · rintro ⟨j,inside,below,set⟩
    exact ⟨j,⟨inside,below⟩,set⟩
  · rintro ⟨j,⟨inside,below⟩,set⟩
    exact ⟨j,inside,below,set⟩

-- The condition on the rounding to even: an amount of 0 is for even elements, and in SEW_64 the
-- shift by 2 to 62 is not halfway above an even quotient.
def Rounds (vxrm : Vxrm) (sew : Fin 4) (v d : Nat) : Prop :=
  vxrm = .rne → (d = 0 → v % 2 = 0) ∧ (sew = 3 → 2 ≤ d → d ≤ 62 → tieToEven v d = false)

section
variable {sew : Fin 4} {a : BitVec (bits sew)} {d e : Nat}

theorem rodSticky_exact (small : d < bits sew) : rodSticky sew a d = sticky a.toNat d := by
  rw [rodSticky,any_below,Nat.min_eq_right (by omega)]
  by_cases zero : d = 0
  · rw [if_neg (not_not.mpr zero),zero]
    rfl
  · rw [if_pos zero]
    rfl

-- One bit less than are shifted out, but for the word of SEW_64
theorem rneSticky_exact (small : e + 1 < bits sew) (other : sew = 3 → e = 0 ∨ e = 62) :
    rneSticky sew a (e + 1) = sticky a.toNat e := by
  rw [rneSticky,any_below]
  by_cases one : e = 0
  · rw [one]
    rfl
  rw [if_pos (by omega)]
  by_cases long : sew = 3
  · have last := (other long).resolve_left one
    have whole : bits sew = 64 := by rw [long]; rfl
    have short : min (bits sew - 2) (e + 1) = e := by omega
    rw [if_pos long,short]
    rfl
  · rw [if_neg long,Nat.add_sub_cancel,Nat.min_eq_right (by omega)]
    rfl

theorem rneSticky_long (long : sew = 3) (some' : 1 ≤ e) (within : e + 1 ≤ 62) :
    rneSticky sew a (e + 1) = (sticky a.toNat e || a.getLsbD e) := by
  have whole : bits sew = 64 := by rw [long]; rfl
  have short : min (bits sew - 2) (e + 1) = e + 1 := by omega
  rw [rneSticky,any_below,if_pos (by omega),if_pos long,short]
  exact sticky_succ a.toNat e

theorem even_bit : a.getLsbD 0 = false ↔ a.toNat % 2 = 0 := by
  change a.toNat.testBit 0 = false ↔ _
  rw [Nat.testBit_zero,decide_eq_false_iff_not]
  omega

theorem rne_iff (small : d < bits sew) :
    (∀ beyond, roundingIncrement beyond .rne sew a d = increment .rne a.toNat d) ↔ Rounds .rne sew a.toNat d := by
  cases d with
  | zero =>
    have nothing : increment .rne a.toNat 0 = false := by simp [increment,Nat.mod_one]
    have code : ∀ beyond, roundingIncrement beyond .rne sew a 0 = (a.getLsbD 0 && beyond) := fun beyond => rfl
    constructor
    · intro every _
      have set := every true
      rw [code,nothing,Bool.and_true] at set
      exact ⟨fun _ => even_bit.mp set,fun _ two => absurd two (by decide)⟩
    · intro rounds beyond
      rw [code,nothing,even_bit.mpr ((rounds rfl).1 rfl),Bool.false_and]
  | succ e =>
    have code : ∀ beyond, roundingIncrement beyond .rne sew a (e + 1) =
        ((rneSticky sew a (e + 1) || a.getLsbD (e + 1)) && a.getLsbD e) := fun beyond => rfl
    have bits' : ∀ j, a.toNat.testBit j = a.getLsbD j := fun j => rfl
    by_cases long : sew = 3 ∧ 1 ≤ e ∧ e + 1 ≤ 62
    · obtain ⟨long,some',within⟩ := long
      have tie := tie_bits a.toNat e
      simp only [Rounds,code,rneSticky_long long some' within,rne_bits,bits'] at tie ⊢
      rw [tie]
      cases a.getLsbD e <;> cases sticky a.toNat e <;> cases a.getLsbD (e + 1) <;> simp [long,some',within]
    · have same := rneSticky_exact (a := a) small fun three => by
        have whole : bits sew = 64 := by rw [three]; rfl
        by_contra neither
        exact long ⟨three,by omega,by omega⟩
      refine ⟨fun _ _ => ⟨fun zero => absurd zero (Nat.succ_ne_zero e),fun three two within => absurd ⟨three,by omega,within⟩ long⟩,
        fun _ beyond => ?_⟩
      rw [code,same,rne_bits,Bool.and_comm]
      rfl

theorem increment_iff {vxrm : Vxrm} (small : d < bits sew) :
    (∀ beyond, roundingIncrement beyond vxrm sew a d = increment vxrm a.toNat d) ↔ Rounds vxrm sew a.toNat d := by
  cases vxrm with
  | rne => exact rne_iff small
  | rnu =>
    refine ⟨fun _ other => absurd other (by decide),fun _ beyond => ?_⟩
    cases d with
    | zero => simp [roundingIncrement,increment,Nat.mod_one]
    | succ e => exact (rnu_bits a.toNat e).symm
  | rdn => exact ⟨fun _ other => absurd other (by decide),fun _ _ => rfl⟩
  | rod =>
    refine ⟨fun _ other => absurd other (by decide),fun _ beyond => ?_⟩
    rw [roundingIncrement,rodSticky_exact small,rod_bits]
    rfl

end

theorem flag_ofInt {w : Nat} (b : Bool) : flag w b = BitVec.ofInt w b.toNat := by
  rw [BitVec.ofInt_natCast,flag,← BitVec.ofNat_toNat]
  cases b <;> rfl

theorem flag_inj {w : Nat} (positive : 0 < w) {b c : Bool} (same : flag w b = flag w c) : b = c := by
  have bit := congrArg (fun x => x.getLsbD 0) same
  simpa [flag,positive] using bit

section
variable {i : Input} {k : Nat} (beyond : Nat → Bool) (inside : k < count i.sew)
include inside

theorem element_right (narrow : isNarrow i.instrType = false) (left : isLeft i.instrType = false) :
    element (bits i.sew) k (dataVdO beyond i) = elementVd beyond i k := by
  rw [dataVdO,left,if_neg Bool.false_ne_true,dataVd,narrow,if_neg Bool.false_ne_true]
  exact element_pack _ inside (Nat.le_of_eq (VdivLane.bits_count i.sew))

theorem vsll_exact (type : i.instrType = vsll) : element (bits i.sew) k (dataVdO beyond i) = rvv i k := by
  have rows := VdivLane.bits_count i.sew
  have left : isLeft i.instrType = true := by rw [type]; rfl
  have forms : isNarrow i.instrType = false ∧ isScaling i.instrType = false ∧ isSigned i.instrType = false := by
    rw [type]
    exact ⟨rfl,rfl,rfl⟩
  have back : count i.sew - 1 - (count i.sew - 1 - k) = k := by omega
  rw [dataVdO,left,if_pos rfl,dataVd,forms.1,if_neg Bool.false_ne_true,element_reverse rows inside,
    element_pack _ (by omega) (Nat.le_of_eq rows),elementVd,forms.2.1,if_neg Bool.false_ne_true,forms.2.2,shifted_unsigned,
    amount_left left inside,dataA,left,if_pos rfl,element_reverse rows (by omega),back,reverse_shift,rvv,if_pos type]

end

theorem right_exact {i : Input} {k : Nat} (left : isLeft i.instrType = false) :
    shifted (isSigned i.instrType) (element (bits i.sew) k (dataA i)) (amount i k 0) =
      if isSigned i.instrType then (element (bits i.sew) k i.dataVs2).sshiftRight (shiftAmount i k)
      else element (bits i.sew) k i.dataVs2 >>> shiftAmount i k := by
  rw [amount_right left,dataA,left,if_neg Bool.false_ne_true]
  cases isSigned i.instrType with
  | true => exact shifted_signed _ _
  | false => exact shifted_unsigned _ _

section
variable {i : Input} {k : Nat} (inside : k < count i.sew)
include inside

theorem plain_exact (beyond : Nat → Bool) (type : i.instrType = vsrl ∨ i.instrType = vsra) :
    element (bits i.sew) k (dataVdO beyond i) = rvv i k := by
  have forms : isNarrow i.instrType = false ∧ isLeft i.instrType = false ∧ isScaling i.instrType = false := by
    rcases type with type | type <;> rw [type] <;> exact ⟨rfl,rfl,rfl⟩
  obtain ⟨narrow,left,scaling⟩ := forms
  rw [element_right beyond inside narrow left,elementVd,scaling,if_neg Bool.false_ne_true,right_exact left,rvv]
  rcases type with type | type
  · rw [type,if_neg (by decide),if_neg (by decide),if_pos rfl]
  · rw [type,if_pos (by decide),if_neg (by decide),if_neg (by decide),if_pos rfl]

theorem scaling_iff (type : i.instrType = vssrl ∨ i.instrType = vssra) :
    (∀ beyond, element (bits i.sew) k (dataVdO beyond i) = rvv i k) ↔
      Rounds i.vxrm i.sew (element (bits i.sew) k i.dataVs2).toNat (shiftAmount i k) := by
  have forms : isNarrow i.instrType = false ∧ isLeft i.instrType = false ∧ isScaling i.instrType = true := by
    rcases type with type | type <;> rw [type] <;> exact ⟨rfl,rfl,rfl⟩
  obtain ⟨narrow,left,scaling⟩ := forms
  let a := element (bits i.sew) k i.dataVs2
  let quotient := if isSigned i.instrType then a.sshiftRight (shiftAmount i k) else a >>> shiftAmount i k
  have same : dataA i = i.dataVs2 := by rw [dataA,left]; rfl
  have code : ∀ beyond, element (bits i.sew) k (dataVdO beyond i) =
      quotient + flag (bits i.sew) (roundingIncrement (beyond k) i.vxrm i.sew a (shiftAmount i k)) := by
    intro beyond
    rw [element_right beyond inside narrow left,elementVd,scaling,if_pos rfl,right_exact left,amount_right left,same]
  have asked : rvv i k = quotient + flag (bits i.sew) (increment i.vxrm a.toNat (shiftAmount i k)) := by
    rw [rvv]
    rcases type with type | type
    · simp only [quotient,a,rounding,type]
      rfl
    · simp only [quotient,a,rounding,type]
      rfl
  have positive : 0 < bits i.sew := Nat.lt_of_lt_of_le (by decide) (VdivLane.bits_pos i.sew)
  rw [← increment_iff (shiftAmount_lt i k)]
  constructor
  · intro every b
    have sum := every fun _ => b
    rw [code,asked] at sum
    exact flag_inj positive (BitVec.add_right_inj _ |>.mp sum)
  · intro every beyond
    rw [code,asked,every]

end

-- Every element of a shift is right, whatever is read beyond it, where its rounding is.
theorem shift_exact (i : Input) (k : Nat) (kind : shifts i.instrType = true) (inside : k < count i.sew) :
    (∀ beyond, element (bits i.sew) k (dataVdO beyond i) = rvv i k) ↔
      (isScaling i.instrType = true → Rounds i.vxrm i.sew (element (bits i.sew) k i.dataVs2).toNat (shiftAmount i k)) := by
  simp only [shifts,Bool.or_eq_true,beq_iff_eq] at kind
  rcases kind with (((type | type) | type) | type) | type
  · refine ⟨fun _ scaling => ?_,fun _ beyond => vsll_exact beyond inside type⟩
    rw [type] at scaling
    exact absurd scaling (by decide)
  · refine ⟨fun _ scaling => ?_,fun _ beyond => plain_exact inside beyond (.inl type)⟩
    rw [type] at scaling
    exact absurd scaling (by decide)
  · refine ⟨fun _ scaling => ?_,fun _ beyond => plain_exact inside beyond (.inr type)⟩
    rw [type] at scaling
    exact absurd scaling (by decide)
  · rw [scaling_iff inside (.inl type)]
    exact ⟨fun rounds _ => rounds,fun rounds => rounds (by rw [type]; rfl)⟩
  · rw [scaling_iff inside (.inr type)]
    exact ⟨fun rounds _ => rounds,fun rounds => rounds (by rw [type]; rfl)⟩

theorem shift_exact_bytes : element 8 0 (dataVdO (fun _ => true) ⟨vssra,0,.rne,2,0x8d⟩) = 0xe3#8 :=
  (shift_exact ⟨vssra,0,.rne,2,0x8d⟩ 0 rfl (by decide)).mpr
    (fun _ _ => ⟨fun zero => absurd zero (by decide),fun three => absurd three (by decide)⟩) fun _ => true

-- VSSRL of 64 bits, 2 by 2: the tie between 0 and 1 goes up.
theorem shift_exact_fails : ¬ ∀ (i : Input) (k : Nat), shifts i.instrType = true → k < count i.sew → ∀ beyond,
    element (bits i.sew) k (dataVdO beyond i) = rvv i k := by
  intro every
  have wrong := every ⟨vssrl,3,.rne,2,2⟩ 0 rfl (by decide) fun _ => false
  revert wrong
  decide

end Sargantana.Vshift
