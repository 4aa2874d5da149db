import Mathlib.Data.List.GetD
import Sargantana.Lib.Packed
import Sargantana.Vdiv
import Sargantana.VsetLength

-- simd_unit: the slides, the gathers and the compression, and what the mask and the tail leave of
-- them. They take one cycle, so that instr_to_out is instruction_i.
namespace Sargantana.VectorPermutation

open Sargantana.Packed
open Vdiv (bits)
open VsetLength (legal vlmaxOf)

inductive Permutation where
  | vslideup | vslidedown | vslide1up | vslide1down | vrgather | vrgatherei16 | vcompress
  deriving DecidableEq

structure Instr where
  instrType : Permutation
  isOpvx : Bool
  isOpvi : Bool
  useMask : Bool
  sew : Fin 4
  lmul : BitVec 3
  vl : BitVec 5
  vlmax : BitVec 5
  vta : Bool
  vregfileWe : Bool
  imm : BitVec 64
  dataRs1 : BitVec 64
  dataVs1 : BitVec 128
  dataVs2 : BitVec 128
  dataOldVd : BitVec 128
  dataVm : BitVec 16
  deriving DecidableEq

def places (sew : Fin 4) : Nat := 128 / bits sew

abbrev Instr.elem (i : Instr) (k : Nat) (x : BitVec 128) : BitVec (bits i.sew) := element (bits i.sew) k x

def shiftAmountInVslide (i : Instr) : BitVec 64 :=
  if i.isOpvi then (i.imm.setWidth 5).setWidth 64 else if i.isOpvx then i.dataRs1 else 0

def vslideup (i : Instr) : BitVec 128 :=
  if (shiftAmountInVslide i).toNat < places i.sew then
    scatter (places i.sew) (fun j =>
      let place := (BitVec.ofNat 64 j + shiftAmountInVslide i).toNat
      if place < places i.sew then some (place,i.elem j i.dataVs2) else none) i.dataOldVd
  else i.dataOldVd

-- The difference that is compared with vl has 32 bits; it is not signed.
def vslidedown (i : Instr) : BitVec 128 :=
  if (shiftAmountInVslide i).toNat < places i.sew then
    scatter (places i.sew) (fun j =>
      if (BitVec.ofNat 32 j - (shiftAmountInVslide i).setWidth 32).toNat < i.vl.toNat then
        some ((BitVec.ofNat 64 j - shiftAmountInVslide i).toNat,i.elem j i.dataVs2)
      else none) 0
  else 0

def vslide1up (i : Instr) : BitVec 128 :=
  put 0 (i.dataRs1.setWidth (bits i.sew))
    (scatter (places i.sew - 1) (fun j =>
      if j < (i.vl.setWidth 32 - 1).toNat then some (j + 1,i.elem j i.dataVs2) else none) 0)

-- trunc_vl_i_sew8 and its siblings
def truncVl (i : Instr) : Nat := (i.vl.setWidth 6 - 1).toNat % places i.sew

def vslide1down (i : Instr) : BitVec 128 :=
  put (truncVl i) (i.dataRs1.setWidth (bits i.sew))
    (scatter (places i.sew) (fun j =>
      if 1 ≤ j ∧ j < i.vl.toNat then some (j - 1,i.elem j i.dataVs2) else none) 0)

-- The low bits of an index address the register.
def vrgatherVv (i : Instr) : BitVec 128 :=
  fill (places i.sew) (fun j =>
    if (i.elem j i.dataVs1).toNat < i.vlmax.toNat then i.elem ((i.elem j i.dataVs1).toNat % places i.sew) i.dataVs2 else 0) 0

-- There are eight indices, also for the sixteen elements of SEW_8.
def vrgatherei16 (i : Instr) : BitVec 128 :=
  fill (min 8 (places i.sew)) (fun j =>
    if (element 16 j i.dataVs1).toNat < places i.sew then i.elem ((element 16 j i.dataVs1).toNat % places i.sew) i.dataVs2 else 0) 0

def gatherIndex (i : Instr) : BitVec 64 :=
  if i.isOpvx then i.dataRs1 else if i.isOpvi then (i.imm.setWidth 5).setWidth 64 else 0

def vrgatherVx (i : Instr) : BitVec 128 :=
  fill (places i.sew) (fun _ =>
    if (gatherIndex i).toNat < places i.sew then i.elem (gatherIndex i).toNat i.dataVs2 else 0) 0

-- gather_index and the register, as far as the loop of vcompress has come
def compressTo (i : Instr) (m : Nat) : BitVec 64 × BitVec 128 :=
  (List.range m).foldl (fun now j =>
    if i.dataVs1.getLsbD j && decide (j < i.vl.toNat) then
      ((now.1.setWidth 63).setWidth 64 + 1,put now.1.toNat (i.elem j i.dataVs2) now.2)
    else now) (0,if i.vta then BitVec.allOnes 128 else i.dataOldVd)

def vcompress (i : Instr) : BitVec 128 := (compressTo i (places i.sew)).2

def resultDataVd (i : Instr) : BitVec 128 :=
  match i.instrType with
  | .vslideup => vslideup i
  | .vslidedown => vslidedown i
  | .vslide1up => vslide1up i
  | .vslide1down => vslide1down i
  | .vrgather => if i.isOpvx || i.isOpvi then vrgatherVx i else vrgatherVv i
  | .vrgatherei16 => vrgatherei16 i
  | .vcompress => vcompress i

def maskedDataVd (i : Instr) : BitVec 128 :=
  if i.useMask then
    scatter (places i.sew) (fun j => if i.dataVm.getLsbD j then some (j,i.elem j (resultDataVd i)) else none) i.dataOldVd
  else resultDataVd i

def tailDataVd (i : Instr) : BitVec 128 :=
  scatter (places i.sew) (fun j => if j < i.vl.toNat then some (j,i.elem j (maskedDataVd i)) else none)
    (if i.vta then BitVec.allOnes 128 else i.dataOldVd)

def destination (i : Instr) : BitVec 128 := if i.vregfileWe then tailDataVd i else i.dataOldVd

-- The instructions that the decoder hands over, under a configuration that it accepts
structure Decoded (i : Instr) : Prop where
  config : legal (BitVec.ofNat 64 (8 * i.sew.val + i.lmul.toNat)) = true
  limit : i.vlmax.toNat = vlmaxOf (BitVec.ofNat 64 (8 * i.sew.val + i.lmul.toNat))
  length : i.vl.toNat ≤ i.vlmax.toNat
  enable : i.vregfileWe = decide (i.vl ≠ 0)
  slide : i.instrType = .vslideup ∨ i.instrType = .vslidedown → i.isOpvx = !i.isOpvi
  gather : i.instrType = .vrgather → (i.isOpvx && i.isOpvi) = false
  indices : i.instrType = .vrgatherei16 → i.vl.toNat ≤ 8
  unmasked : i.instrType = .vcompress → i.useMask = false

def vlmax (i : Instr) : Nat := vlmaxOf (BitVec.ofNat 64 (8 * i.sew.val + i.lmul.toNat))

-- The offset of a slide and the scalar index of a gather
def scalar (i : Instr) : Nat := if i.isOpvi then (i.imm.setWidth 5).toNat else i.dataRs1.toNat

def scalarForm (i : Instr) : Bool := i.isOpvx || i.isOpvi

-- The place of vs2 that an element comes from, where it is not bounded by vl
def index (i : Instr) (k : Nat) : Option Nat :=
  match i.instrType with
  | .vslidedown => some (k + scalar i)
  | .vrgather => some (if scalarForm i then scalar i else (i.elem k i.dataVs1).toNat)
  | .vrgatherei16 => some (element 16 k i.dataVs1).toNat
  | _ => none

-- The places that a compression takes, in order
def selected (i : Instr) : List Nat := (List.range i.vl.toNat).filter fun j => i.dataVs1.getLsbD j

def read (limit : Nat) (i : Instr) (s : Nat) : BitVec (bits i.sew) := if s < limit then i.elem s i.dataVs2 else 0

-- The element that the instruction asks for, with a limit on what is read of vs2
def value (limit : Nat) (i : Instr) (k : Nat) : BitVec (bits i.sew) :=
  match index i k with
  | some s => read limit i s
  | none =>
    match i.instrType with
    | .vslideup => if k < scalar i then i.elem k i.dataOldVd else i.elem (k - scalar i) i.dataVs2
    | .vslide1up => if k = 0 then i.dataRs1.setWidth (bits i.sew) else i.elem (k - 1) i.dataVs2
    | .vslide1down => if k + 1 = i.vl.toNat then i.dataRs1.setWidth (bits i.sew) else i.elem (k + 1) i.dataVs2
    | _ => i.elem ((selected i).getD k 0) i.dataVs2

def body (i : Instr) : Nat := if i.instrType = .vcompress then (selected i).length else i.vl.toNat

def active (i : Instr) (k : Nat) : Bool := !i.useMask || i.dataVm.getLsbD k

-- The destination of the vector architecture
structure Specified (i : Instr) (d : BitVec 128) : Prop where
  live : ∀ k < body i, active i k = true → i.elem k d = value (vlmax i) i k
  masked : ∀ k < body i, active i k = false → i.elem k d = i.elem k i.dataOldVd
  tail : ∀ k < places i.sew, body i ≤ k →
    i.elem k d = i.elem k i.dataOldVd ∨ (i.vta = true ∧ i.elem k d = BitVec.allOnes (bits i.sew))

def replicated (i : Instr) : Instr :=
  { i with isOpvx := false, isOpvi := false, dataVs1 := pack 128 (places i.sew) fun _ => BitVec.ofNat (bits i.sew) (scalar i) }

structure Meets (i : Instr) : Prop where
  specified : Specified i (destination i)
  equal : i.instrType = .vrgather → scalarForm i = true → scalar i < 2 ^ bits i.sew →
    destination i = destination (replicated i)

-- All but the gather of a vector are bounded by VLEN / SEW.
def wide (i : Instr) : Bool := !(decide (i.instrType = .vrgather) && !scalarForm i)

def strayed (i : Instr) (k : Nat) : Bool :=
  (index i k).any fun s => decide (vlmax i ≤ s) && decide (s < places i.sew) && decide (i.elem s i.dataVs2 ≠ 0)

-- An active element comes from beyond VLMAX, where the register holds something.
def strays (i : Instr) : Bool := wide i && (List.range i.vl.toNat).any fun k => active i k && strayed i k

theorem places_bits (sew : Fin 4) : places sew * bits sew = 128 := by
  revert sew
  decide

theorem places_bounds (sew : Fin 4) : 2 ≤ places sew ∧ places sew ≤ 16 := by
  revert sew
  decide

theorem element_fits {sew : Fin 4} {k : Nat} (inside : k < places sew) : k * bits sew + bits sew ≤ 128 := by
  rw [← places_bits sew,← Nat.succ_mul]
  exact Nat.mul_le_mul_right _ inside

theorem element_zero (i : Instr) (k : Nat) : i.elem k 0 = 0 := by
  simp [Instr.elem,element]

theorem element_ones (i : Instr) {k : Nat} (inside : k < places i.sew) : i.elem k (BitVec.allOnes 128) = BitVec.allOnes (bits i.sew) := by
  refine BitVec.eq_of_getLsbD_eq fun j below => ?_
  have fits := element_fits inside
  rw [Instr.elem,element_bit,BitVec.getLsbD_allOnes,BitVec.getLsbD_allOnes]
  simp only [below,decide_true,Bool.true_and,decide_eq_true_eq]
  omega

theorem element_only {i : Instr} {m j k : Nat} {v : BitVec (bits i.sew)} {write : Nat → Option (Nat × BitVec (bits i.sew))}
    (x : BitVec 128) (turn : j < m) (here : write j = some (k,v)) (only : ∀ l < m, ∀ u, write l = some (k,u) → l = j)
    (inside : k < places i.sew) : i.elem k (scatter m write x) = v := by
  refine element_scatter x turn here ?_ (element_fits inside)
  intro l before after u written
  have same := only l before u written
  omega

theorem element_own {i : Instr} {k m : Nat} (f : Nat → BitVec (bits i.sew)) (chosen : Nat → Prop) [DecidablePred chosen] (x : BitVec 128)
    (turn : k < m) (inside : k < places i.sew) :
    i.elem k (scatter m (fun j => if chosen j then some (j,f j) else none) x) = if chosen k then f k else i.elem k x := by
  by_cases here : chosen k
  · rw [if_pos here]
    refine element_only x turn (if_pos here) ?_ inside
    intro l _ u written
    split at written
    · cases written
      rfl
    · cases written
  · rw [if_neg here]
    refine element_scatter_other x fun j _ v written => ?_
    split at written
    next live =>
      cases written
      exact here live
    next => cases written

theorem element_masked (i : Instr) {k : Nat} (inside : k < places i.sew) :
    i.elem k (maskedDataVd i) = if active i k then i.elem k (resultDataVd i) else i.elem k i.dataOldVd := by
  unfold maskedDataVd active
  cases i.useMask with
  | false => rfl
  | true => exact element_own _ (fun j => i.dataVm.getLsbD j = true) _ inside inside

theorem element_tail (i : Instr) {k : Nat} (inside : k < places i.sew) :
    i.elem k (tailDataVd i) = if k < i.vl.toNat then i.elem k (maskedDataVd i)
      else i.elem k (if i.vta then BitVec.allOnes 128 else i.dataOldVd) :=
  element_own _ (fun j => j < i.vl.toNat) _ inside inside

section Slides

variable {i : Instr} {k : Nat}

theorem shift_scalar (forms : i.isOpvx = !i.isOpvi) : (shiftAmountInVslide i).toNat = scalar i := by
  unfold shiftAmountInVslide scalar
  cases immediate : i.isOpvi with
  | true =>
      have low := (i.imm.setWidth 5).isLt
      simp only [if_true,BitVec.toNat_setWidth] at low ⊢
      omega
  | false =>
      rw [immediate] at forms
      simp only [forms,Bool.not_false,Bool.false_eq_true,if_false,if_true]

theorem place_up {shift : BitVec 64} {j : Nat} (small : shift.toNat < 16) (turn : j < 16) :
    (BitVec.ofNat 64 j + shift).toNat = j + shift.toNat := by
  rw [BitVec.toNat_add,BitVec.toNat_ofNat]
  omega

theorem place_down {shift : BitVec 64} {j : Nat} (small : shift.toNat < 16) (turn : j < 16) (above : shift.toNat ≤ j) :
    (BitVec.ofNat 64 j - shift).toNat = j - shift.toNat := by
  rw [BitVec.toNat_sub,BitVec.toNat_ofNat]
  omega

-- Below the offset the difference wraps around to a large number.
theorem place_within {shift : BitVec 64} {j : Nat} {vl : BitVec 5} (small : shift.toNat < 16) (turn : j < 16) :
    (BitVec.ofNat 32 j - shift.setWidth 32).toNat < vl.toNat ↔ shift.toNat ≤ j ∧ j - shift.toNat < vl.toNat := by
  have length := vl.isLt
  rw [BitVec.toNat_sub,BitVec.toNat_ofNat,BitVec.toNat_setWidth]
  omega

theorem vslideup_element (forms : i.isOpvx = !i.isOpvi) (inside : k < places i.sew) :
    i.elem k (vslideup i) = if k < scalar i then i.elem k i.dataOldVd else i.elem (k - scalar i) i.dataVs2 := by
  have most := (places_bounds i.sew).2
  rw [← shift_scalar forms]
  unfold vslideup
  by_cases small : (shiftAmountInVslide i).toNat < places i.sew
  · rw [if_pos small]
    have place : ∀ l < places i.sew, (BitVec.ofNat 64 l + shiftAmountInVslide i).toNat = l + (shiftAmountInVslide i).toNat :=
      fun l turn => place_up (by omega) (by omega)
    by_cases below : k < (shiftAmountInVslide i).toNat
    · rw [if_pos below]
      refine element_scatter_other _ fun l turn v written => ?_
      simp only [place l turn] at written
      split at written
      · cases written
        omega
      · cases written
    · rw [if_neg below]
      have turn : k - (shiftAmountInVslide i).toNat < places i.sew := by omega
      have target : k - (shiftAmountInVslide i).toNat + (shiftAmountInVslide i).toNat = k := by omega
      refine element_only _ turn ?_ ?_ inside
      · simp only [place _ turn,target]
        rw [if_pos inside]
      · intro l before u written
        simp only [place l before] at written
        split at written
        · cases written
          omega
        · cases written
  · rw [if_neg small,if_pos (by omega)]

theorem vslidedown_element (forms : i.isOpvx = !i.isOpvi) (length : i.vl.toNat ≤ places i.sew) (inside : k < i.vl.toNat) :
    i.elem k (vslidedown i) = read (places i.sew) i (k + scalar i) := by
  have most := (places_bounds i.sew).2
  rw [← shift_scalar forms]
  unfold vslidedown read
  by_cases small : (shiftAmountInVslide i).toNat < places i.sew
  · rw [if_pos small]
    have within : ∀ l < places i.sew, (BitVec.ofNat 32 l - (shiftAmountInVslide i).setWidth 32).toNat < i.vl.toNat ↔
        (shiftAmountInVslide i).toNat ≤ l ∧ l - (shiftAmountInVslide i).toNat < i.vl.toNat :=
      fun l turn => place_within (by omega) (by omega)
    have written_place : ∀ l < places i.sew, ∀ u,
        (if (BitVec.ofNat 32 l - (shiftAmountInVslide i).setWidth 32).toNat < i.vl.toNat then
          some ((BitVec.ofNat 64 l - shiftAmountInVslide i).toNat,i.elem l i.dataVs2) else none) = some (k,u) →
        l = k + (shiftAmountInVslide i).toNat := by
      intro l turn u written
      split at written
      next live =>
        have above := ((within l turn).mp live).1
        rw [place_down (by omega) (by omega) above] at written
        cases written
        omega
      next => cases written
    by_cases reach : k + (shiftAmountInVslide i).toNat < places i.sew
    · rw [if_pos reach]
      refine element_only _ reach ?_ written_place (by omega)
      rw [if_pos ((within _ reach).mpr ⟨by omega,by omega⟩),place_down (by omega) (by omega) (by omega)]
      rw [Nat.add_sub_cancel]
    · rw [if_neg reach,← element_zero i k]
      refine element_scatter_other _ fun l turn v written => ?_
      have same := written_place l turn v written
      omega
  · rw [if_neg small,if_neg (by omega)]
    exact element_zero i k

theorem vslide1up_element (length : i.vl.toNat ≤ places i.sew) (inside : k < i.vl.toNat) :
    i.elem k (vslide1up i) = if k = 0 then i.dataRs1.setWidth (bits i.sew) else i.elem (k - 1) i.dataVs2 := by
  have low := i.vl.isLt
  have count : (i.vl.setWidth 32 - 1).toNat = i.vl.toNat - 1 := by
    rw [BitVec.toNat_sub,BitVec.toNat_setWidth]
    have one : (1 : BitVec 32).toNat = 1 := rfl
    omega
  unfold vslide1up
  by_cases first : k = 0
  · subst first
    rw [if_pos rfl]
    exact element_put_same _ _ (element_fits (by omega))
  · rw [if_neg first,Instr.elem,element_put_other _ _ first]
    refine element_only _ (j := k - 1) (by omega) ?_ ?_ (by omega)
    · rw [if_pos (by omega),Nat.sub_add_cancel (by omega)]
    · intro l _ u written
      split at written
      · cases written
        omega
      · cases written

theorem vslide1down_element (length : i.vl.toNat ≤ places i.sew) (inside : k < i.vl.toNat) :
    i.elem k (vslide1down i) = if k + 1 = i.vl.toNat then i.dataRs1.setWidth (bits i.sew) else i.elem (k + 1) i.dataVs2 := by
  have low := i.vl.isLt
  have last : truncVl i = i.vl.toNat - 1 := by
    rw [truncVl,BitVec.toNat_sub,BitVec.toNat_setWidth]
    have one : (1 : BitVec 6).toNat = 1 := rfl
    have whole : (2 ^ 6 - (1 : BitVec 6).toNat + i.vl.toNat % 2 ^ 6) % 2 ^ 6 = i.vl.toNat - 1 := by omega
    rw [whole,Nat.mod_eq_of_lt (by omega)]
  unfold vslide1down
  rw [last]
  by_cases final : k + 1 = i.vl.toNat
  · rw [if_pos final]
    have place : i.vl.toNat - 1 = k := by omega
    rw [place]
    exact element_put_same _ _ (element_fits (by omega))
  · rw [if_neg final,Instr.elem,element_put_other _ _ (by omega)]
    refine element_only _ (j := k + 1) (by omega) ?_ ?_ (by omega)
    · rw [if_pos (by omega),Nat.add_sub_cancel]
    · intro l _ u written
      split at written
      next live =>
        cases written
        omega
      next => cases written

end Slides

section Gathers

variable {i : Instr} {k : Nat}

theorem vrgatherVv_element (limit : i.vlmax.toNat ≤ places i.sew) (inside : k < places i.sew) :
    i.elem k (vrgatherVv i) = read i.vlmax.toNat i (i.elem k i.dataVs1).toNat := by
  have filled : i.elem k (vrgatherVv i) = _ := element_fill _ 0 inside (Nat.le_of_eq (places_bits i.sew))
  rw [filled,read]
  by_cases below : (i.elem k i.dataVs1).toNat < i.vlmax.toNat
  · rw [if_pos below,if_pos below,Nat.mod_eq_of_lt (by omega)]
  · rw [if_neg below,if_neg below]

theorem vrgatherei16_element (inside : k < places i.sew) (indices : k < 8) :
    i.elem k (vrgatherei16 i) = read (places i.sew) i (element 16 k i.dataVs1).toNat := by
  have room : min 8 (places i.sew) * bits i.sew ≤ 128 := by
    rw [← places_bits i.sew]
    exact Nat.mul_le_mul_right _ (Nat.min_le_right _ _)
  have filled : i.elem k (vrgatherei16 i) = _ := element_fill _ 0 (Nat.lt_min.mpr ⟨indices,inside⟩) room
  rw [filled,read]
  by_cases below : (element 16 k i.dataVs1).toNat < places i.sew
  · rw [if_pos below,if_pos below,Nat.mod_eq_of_lt below]
  · rw [if_neg below,if_neg below]

theorem gather_scalar (forms : (i.isOpvx && i.isOpvi) = false) (some' : scalarForm i = true) : (gatherIndex i).toNat = scalar i := by
  unfold gatherIndex scalar
  unfold scalarForm at some'
  cases register : i.isOpvx with
  | true =>
      rw [register,Bool.true_and] at forms
      rw [forms]
      rfl
  | false =>
      rw [register,Bool.false_or] at some'
      have low := (i.imm.setWidth 5).isLt
      simp only [some',Bool.false_eq_true,if_false,if_true,BitVec.toNat_setWidth] at low ⊢
      omega

theorem vrgatherVx_element (forms : (i.isOpvx && i.isOpvi) = false) (some' : scalarForm i = true) (inside : k < places i.sew) :
    i.elem k (vrgatherVx i) = read (places i.sew) i (scalar i) := by
  have filled : i.elem k (vrgatherVx i) = _ := element_fill _ 0 inside (Nat.le_of_eq (places_bits i.sew))
  rw [filled,gather_scalar forms some',read]

def taken (i : Instr) (m : Nat) : List Nat := (List.range m).filter fun j => i.dataVs1.getLsbD j && decide (j < i.vl.toNat)

theorem taken_succ (i : Instr) (m : Nat) :
    taken i (m + 1) = if i.dataVs1.getLsbD m && decide (m < i.vl.toNat) then taken i m ++ [m] else taken i m := by
  rw [taken,List.range_succ,List.filter_append,List.filter_cons,List.filter_nil]
  split
  · rfl
  · exact List.append_nil _

theorem taken_short (i : Instr) (m : Nat) : (taken i m).length ≤ m := by
  have short := List.length_filter_le (fun j => i.dataVs1.getLsbD j && decide (j < i.vl.toNat)) (List.range m)
  rwa [List.length_range] at short

theorem taken_whole (i : Instr) (d : Nat) : taken i (i.vl.toNat + d) = selected i := by
  induction d with
  | zero =>
      refine List.filter_congr fun j inside => ?_
      have live : j < i.vl.toNat := List.mem_range.mp inside
      rw [decide_eq_true live,Bool.and_true]
  | succ d ih =>
      rw [Nat.add_succ,taken_succ,decide_eq_false (by omega),Bool.and_false,if_neg Bool.false_ne_true,ih]

theorem compressTo_succ (i : Instr) (m : Nat) : compressTo i (m + 1) =
    if i.dataVs1.getLsbD m && decide (m < i.vl.toNat) then
      (((compressTo i m).1.setWidth 63).setWidth 64 + 1,put (compressTo i m).1.toNat (i.elem m i.dataVs2) (compressTo i m).2)
    else compressTo i m := by
  simp only [compressTo,List.range_succ,List.foldl_append,List.foldl_cons,List.foldl_nil]

theorem compressTo_index (i : Instr) {m : Nat} (turns : m ≤ places i.sew) : (compressTo i m).1.toNat = (taken i m).length := by
  have most := (places_bounds i.sew).2
  induction m with
  | zero => rfl
  | succ m ih =>
      have before := ih (by omega)
      have short := taken_short i m
      rw [compressTo_succ,taken_succ]
      split
      · rw [BitVec.toNat_add,BitVec.toNat_setWidth,BitVec.toNat_setWidth,before,List.length_append,List.length_singleton]
        have one : (1 : BitVec 64).toNat = 1 := rfl
        omega
      · exact before

-- Every turn so far has put what it took behind what the turns before took.
theorem compressTo_element (i : Instr) {m : Nat} (turns : m ≤ places i.sew) (inside : k < places i.sew) :
    i.elem k (compressTo i m).2 = if k < (taken i m).length then i.elem ((taken i m).getD k 0) i.dataVs2
      else i.elem k (if i.vta then BitVec.allOnes 128 else i.dataOldVd) := by
  induction m with
  | zero => rfl
  | succ m ih =>
      have before := ih (by omega)
      have short := taken_short i m
      rw [compressTo_succ,taken_succ]
      split
      · simp only [compressTo_index i (show m ≤ places i.sew by omega),List.length_append,List.length_singleton]
        rcases Nat.lt_trichotomy k (taken i m).length with earlier | here | later
        · rw [Instr.elem,element_put_other _ _ (by omega),if_pos (by omega),List.getD_append _ _ _ _ earlier]
          rw [if_pos earlier] at before
          exact before
        · subst here
          rw [Instr.elem,element_put_same _ _ (element_fits inside),if_pos (by omega)]
          rw [List.getD_append_right _ _ _ _ (Nat.le_refl _),Nat.sub_self]
          rfl
        · rw [Instr.elem,element_put_other _ _ (by omega),if_neg (by omega)]
          rw [if_neg (by omega)] at before
          exact before
      · exact before

theorem vcompress_element (length : i.vl.toNat ≤ places i.sew) (inside : k < places i.sew) :
    i.elem k (vcompress i) = if k < (selected i).length then i.elem ((selected i).getD k 0) i.dataVs2
      else i.elem k (if i.vta then BitVec.allOnes 128 else i.dataOldVd) := by
  have whole : taken i (places i.sew) = selected i := by
    rw [← taken_whole i (places i.sew - i.vl.toNat),Nat.add_sub_cancel' length]
  rw [vcompress,compressTo_element i (Nat.le_refl _) inside,whole]

theorem selected_short (i : Instr) : (selected i).length ≤ i.vl.toNat := by
  have short := List.length_filter_le (fun j => i.dataVs1.getLsbD j) (List.range i.vl.toNat)
  rwa [List.length_range] at short

end Gathers

def reach (i : Instr) : Nat := if wide i then places i.sew else vlmax i

theorem config_places (sew : Fin 4) (lmul : BitVec 3) (accepted : legal (BitVec.ofNat 64 (8 * sew.val + lmul.toNat)) = true) :
    vlmaxOf (BitVec.ofNat 64 (8 * sew.val + lmul.toNat)) ≤ places sew := by
  revert sew lmul
  decide

section Instructions

variable {i : Instr} {k : Nat}

theorem vlmax_places (decoded : Decoded i) : vlmax i ≤ places i.sew := config_places i.sew i.lmul decoded.config

theorem length_places (decoded : Decoded i) : i.vl.toNat ≤ places i.sew := by
  have limit := vlmax_places decoded
  have length := decoded.length
  rw [decoded.limit] at length
  exact Nat.le_trans length limit

theorem body_short (i : Instr) : body i ≤ i.vl.toNat := by
  unfold body
  split
  · exact selected_short i
  · exact Nat.le_refl _

-- The instruction computes the elements that are asked for, up to the limit of what it reads.
theorem result_value (decoded : Decoded i) (inside : k < body i) : i.elem k (resultDataVd i) = value (reach i) i k := by
  have length := length_places decoded
  have within : k < i.vl.toNat := Nat.lt_of_lt_of_le inside (body_short i)
  have limit := vlmax_places decoded
  unfold resultDataVd value index reach wide
  cases kind : i.instrType with
  | vslideup => exact vslideup_element (decoded.slide (.inl kind)) (by omega)
  | vslidedown => exact vslidedown_element (decoded.slide (.inr kind)) length within
  | vslide1up => exact vslide1up_element length within
  | vslide1down => exact vslide1down_element length within
  | vrgather =>
      cases form : scalarForm i with
      | true =>
          have either : (i.isOpvx || i.isOpvi) = true := form
          simp only [either,if_true]
          exact vrgatherVx_element (decoded.gather kind) form (by omega)
      | false =>
          have neither : (i.isOpvx || i.isOpvi) = false := form
          have same : i.vlmax.toNat = vlmax i := decoded.limit
          simp only [neither,Bool.false_eq_true,if_false]
          exact same ▸ vrgatherVv_element (by omega) (by omega)
  | vrgatherei16 => exact vrgatherei16_element (by omega) (by have := decoded.indices kind; omega)
  | vcompress =>
      have short : k < (selected i).length := by
        rw [body,if_pos kind] at inside
        exact inside
      have element := vcompress_element (k := k) length (by omega)
      rw [if_pos short] at element
      exact element

theorem active_plain (decoded : Decoded i) (kind : i.instrType = .vcompress) (k : Nat) : active i k = true := by
  rw [active,decoded.unmasked kind]
  rfl

theorem destination_inside (decoded : Decoded i) (inside : k < i.vl.toNat) :
    i.elem k (destination i) = if active i k then i.elem k (resultDataVd i) else i.elem k i.dataOldVd := by
  have length := length_places decoded
  have some' : i.vl ≠ 0 := by
    intro zero
    rw [zero] at inside
    exact Nat.not_lt_zero k inside
  have writes : i.vregfileWe = true := by rw [decoded.enable,decide_eq_true some']
  rw [destination,if_pos writes,element_tail i (by omega),if_pos inside,element_masked i (by omega)]

theorem destination_tail (decoded : Decoded i) (inside : k < places i.sew) (behind : body i ≤ k) :
    i.elem k (destination i) = i.elem k i.dataOldVd ∨
      (i.vta = true ∧ i.elem k (destination i) = BitVec.allOnes (bits i.sew)) := by
  have filled : ∀ d : BitVec 128, i.elem k d = i.elem k (if i.vta then BitVec.allOnes 128 else i.dataOldVd) →
      i.elem k d = i.elem k i.dataOldVd ∨ (i.vta = true ∧ i.elem k d = BitVec.allOnes (bits i.sew)) := by
    intro d same
    rw [same]
    cases i.vta with
    | false => exact .inl rfl
    | true => exact .inr ⟨rfl,element_ones i inside⟩
  by_cases after : k < i.vl.toNat
  · have kind : i.instrType = .vcompress := by
      by_contra other
      rw [body,if_neg other] at behind
      omega
    have beyond : ¬ k < (selected i).length := by
      rw [body,if_pos kind] at behind
      omega
    refine filled _ ?_
    have element := vcompress_element (length_places decoded) inside
    rw [if_neg beyond] at element
    rw [destination_inside decoded after,if_pos (active_plain decoded kind k)]
    simp only [resultDataVd,kind]
    exact element
  · unfold destination
    split
    · refine filled _ ?_
      rw [element_tail i inside,if_neg after]
    · exact .inl rfl

theorem read_same (limit : vlmax i ≤ places i.sew) (s : Nat) : read (places i.sew) i s = read (vlmax i) i s ↔
    (decide (vlmax i ≤ s) && decide (s < places i.sew) && decide (i.elem s i.dataVs2 ≠ 0)) = false := by
  unfold read
  by_cases low : s < vlmax i
  · rw [if_pos low,if_pos (by omega),decide_eq_false (by omega : ¬ vlmax i ≤ s)]
    simp
  · by_cases high : s < places i.sew
    · rw [if_neg low,if_pos high,decide_eq_true high,decide_eq_true (by omega : vlmax i ≤ s)]
      simp
    · rw [if_neg low,if_neg high,decide_eq_false high]
      simp

theorem value_same (limit : vlmax i ≤ places i.sew) (k : Nat) :
    value (places i.sew) i k = value (vlmax i) i k ↔ strayed i k = false := by
  unfold value strayed
  cases index i k with
  | none => simp
  | some s => exact read_same limit s

theorem body_index {s : Nat} (place : index i k = some s) : body i = i.vl.toNat := by
  rw [body,if_neg]
  intro kind
  simp only [index,kind] at place
  cases place

-- Without a stray no limit makes a difference.
theorem value_reach (decoded : Decoded i) (fine : strays i = false) (inside : k < body i) (live : active i k = true) :
    value (reach i) i k = value (vlmax i) i k := by
  unfold reach
  cases limit : wide i with
  | false => rfl
  | true =>
      rw [if_pos rfl]
      refine (value_same (vlmax_places decoded) k).mpr ?_
      rw [strays,limit,Bool.true_and,List.any_eq_false] at fine
      have none := fine k (List.mem_range.mpr (Nat.lt_of_lt_of_le inside (body_short i)))
      rw [live,Bool.true_and] at none
      exact Bool.not_eq_true _ ▸ none

theorem specified_fine (decoded : Decoded i) (fine : strays i = false) : Specified i (destination i) := by
  refine ⟨?_,?_,?_⟩
  · intro k inside live
    have within : k < i.vl.toNat := Nat.lt_of_lt_of_le inside (body_short i)
    rw [destination_inside decoded within,if_pos live,result_value decoded inside,value_reach decoded fine inside live]
  · intro k inside dead
    have within : k < i.vl.toNat := Nat.lt_of_lt_of_le inside (body_short i)
    rw [destination_inside decoded within,dead,if_neg Bool.false_ne_true]
  · intro k inside behind
    exact destination_tail decoded inside behind

theorem specified_strays (decoded : Decoded i) (specified : Specified i (destination i)) : strays i = false := by
  by_contra strange
  rw [Bool.not_eq_false,strays,Bool.and_eq_true,List.any_eq_true] at strange
  obtain ⟨limit,k,among,both⟩ := strange
  rw [Bool.and_eq_true] at both
  obtain ⟨live,away⟩ := both
  have within : k < i.vl.toNat := List.mem_range.mp among
  have inside : k < body i := by
    rcases place : index i k with _ | s
    · rw [strayed,place] at away
      cases away
    · rw [body_index place]
      exact within
  have asked := specified.live k inside live
  rw [destination_inside decoded within,if_pos live,result_value decoded inside,reach,if_pos limit] at asked
  rw [(value_same (vlmax_places decoded) k).mp asked] at away
  cases away

end Instructions

theorem replicated_decoded {i : Instr} (decoded : Decoded i) (kind : i.instrType = .vrgather) : Decoded (replicated i) where
  config := decoded.config
  limit := decoded.limit
  length := decoded.length
  enable := decoded.enable
  slide other := by
    have same : i.instrType = .vslideup ∨ i.instrType = .vslidedown := other
    rw [kind] at same
    rcases same with up | down
    · cases up
    · cases down
  gather _ := rfl
  indices := decoded.indices
  unmasked := decoded.unmasked

theorem replicated_index {i : Instr} {k : Nat} (small : scalar i < 2 ^ bits i.sew) (inside : k < places i.sew) :
    ((replicated i).elem k (replicated i).dataVs1).toNat = scalar i := by
  have packed : (replicated i).elem k (replicated i).dataVs1 = BitVec.ofNat (bits i.sew) (scalar i) :=
    element_pack _ inside (Nat.le_of_eq (places_bits i.sew))
  exact (congrArg BitVec.toNat packed).trans ((BitVec.toNat_ofNat _ _).trans (Nat.mod_eq_of_lt small))

theorem replicated_same {i : Instr} (decoded : Decoded i) (fine : strays i = false) (kind : i.instrType = .vrgather)
    (form : scalarForm i = true) (small : scalar i < 2 ^ bits i.sew) : destination i = destination (replicated i) := by
  have plain : i.instrType ≠ .vcompress := by
    rw [kind]
    exact fun same => by cases same
  have whole : body i = i.vl.toNat := if_neg plain
  have wholeToo : body (replicated i) = i.vl.toNat := if_neg plain
  have other := replicated_decoded decoded kind
  have narrow : reach (replicated i) = vlmax i := by
    have off : wide (replicated i) = false := by
      have same : (replicated i).instrType = .vrgather := kind
      rw [wide,same]
      rfl
    rw [reach,off]
    rfl
  refine elements_ext (Nat.le_of_eq (places_bits i.sew).symm) fun k inside => ?_
  by_cases within : k < i.vl.toNat
  · have left := destination_inside decoded within
    have right := destination_inside other (show k < (replicated i).vl.toNat from within)
    refine left.trans (Eq.trans ?_ right.symm)
    have same : active (replicated i) k = active i k := rfl
    rw [same]
    cases live : active i k with
    | false => rfl
    | true =>
        have one := result_value decoded (show k < body i by omega)
        have two := result_value other (show k < body (replicated i) by omega)
        refine (if_pos rfl).trans (Eq.trans ?_ (if_pos rfl).symm)
        refine one.trans (Eq.trans ?_ two.symm)
        rw [value_reach decoded fine (by omega) live,narrow]
        have here : index i k = some (scalar i) := by
          rw [index,kind]
          simp only [form,if_true]
        have there : index (replicated i) k = some (scalar i) := by
          have same : (replicated i).instrType = .vrgather := kind
          have vector : scalarForm (replicated i) = false := rfl
          rw [index,same]
          simp only [vector,Bool.false_eq_true,if_false]
          rw [replicated_index small inside]
        simp only [value,here,there]
        rfl
  · have enable : (replicated i).vregfileWe = i.vregfileWe := rfl
    have old : (replicated i).dataOldVd = i.dataOldVd := rfl
    unfold destination
    rw [enable,old]
    split
    · refine (element_tail i inside).trans (Eq.trans ?_ (element_tail (replicated i) inside).symm)
      rw [if_neg within]
      exact (if_neg within).symm
    · rfl

-- The permutations are those of the architecture as long as nothing beyond VLMAX is read that is not zero.
theorem permutation_exact (i : Instr) (decoded : Decoded i) : Meets i ↔ strays i = false := by
  constructor
  · exact fun meets => specified_strays decoded meets.specified
  · intro fine
    exact ⟨specified_fine decoded fine,replicated_same decoded fine⟩

-- Two bytes of an eighth of the register move down by one.
def slid (vs2 : BitVec 128) : Instr where
  instrType := .vslidedown
  isOpvx := false
  isOpvi := true
  useMask := false
  sew := 0
  lmul := 5
  vl := 2
  vlmax := 2
  vta := false
  vregfileWe := true
  imm := 1
  dataRs1 := 0
  dataVs1 := 0
  dataVs2 := vs2
  dataOldVd := 0
  dataVm := 0

theorem slid_decoded (vs2 : BitVec 128) : Decoded (slid vs2) where
  config := (by decide : legal 5#64 = true)
  limit := (by decide : (2#5).toNat = vlmaxOf 5#64)
  length := Nat.le_refl 2
  enable := rfl
  slide _ := rfl
  gather kind := by cases kind
  indices kind := by cases kind
  unmasked kind := by cases kind

theorem permutation_exact_slid : Decoded (slid 0x2211) ∧ Meets (slid 0x2211) :=
  ⟨slid_decoded 0x2211,(permutation_exact (slid 0x2211) (slid_decoded 0x2211)).mpr (by decide)⟩

-- The third byte lies beyond VLMAX and comes down all the same.
theorem permutation_strays : ¬ ∀ i : Instr, Decoded i → Meets i := by
  intro exact'
  have meets := exact' (slid 0x332211) (slid_decoded 0x332211)
  have second := meets.specified.live 1 (by decide) rfl
  revert second
  decide

end Sargantana.VectorPermutation
