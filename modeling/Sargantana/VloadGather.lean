import Sargantana.VaguCoverage
import Sargantana.Lib.Gather

-- mem_unit: which bytes of memory the answer to a request of vagu puts into the elements of
-- the vector register.
namespace Sargantana.VloadGather
open DracPkg Vagu VaguPieces VaguCoverage Gather

variable {α : Type} {c : Nat}

-- Elements of the register, for the sew of the request
def elements (r : Output α) : Nat := 16 / 2 ^ r.instr.sew.val

-- The element that vdata_to_wb takes where packed_velems stands; the sum is cut to the width
-- of the register.
def slot (r : Output α) (packed : Nat) : Nat := (packed + r.instr.velemId.val) % elements r

-- vdata_to_wb: for each element of the register, the element of data_to_wb that it takes from
-- this answer. packed_velems has five bits.
def gather (r : Output α) : Nat → Option Nat :=
  if r.negStride then
    (pick (fun packed => (packed + 31) % 32) (slot r) (fun i => r.instr.loadMask.getLsbD i)
      ((r.instr.velemIncr.val + 31) % 32) (elements r)).2
  else
    (pick (fun packed => (packed + 1) % 32) (slot r)
      (fun i => decide (r.velemOff ≤ i) && (r.instr.loadMask.getLsbD (i - r.velemOff) && !r.instr.ex.valid))
      0 (elements r)).2

-- The address of byte j of data_to_wb; above the width of a narrow access it repeats the sign.
def sourceByte (r : Output α) (j : Nat) : Option (BitVec 64) :=
  let b := bytesLog r.instr.memSize
  if j < 2 ^ b then some ((r.instr.dataRs1 >>> b) <<< b + BitVec.ofNat 64 j) else none

-- masked_data_to_wb takes the element, and not the one of the old register.
def kept (v : VectorInstr α) (r : Output α) (k : Nat) : Prop :=
  v.dataVm.getLsbD k = true ∨ (v.instr.instrType = .vlm ∧ r.instr.sew = 0 ∧ k < r.instr.velemIncr.val) ∨ vaguVl v ≤ k

def Reads (v : VectorInstr α) (r : Output α) (k : Nat) (a : BitVec 64) : Prop :=
  kept v r k ∧ ∃ i, gather r k = some i ∧ ∃ j < 2 ^ r.instr.sew.val, sourceByte r (i * 2 ^ r.instr.sew.val + j) = some a

def readBack (v : VectorInstr α) (requests : List (Output α)) : Set (Nat × BitVec 64) :=
  {p | ∃ r ∈ requests, Reads v r p.1 p.2}

-- The active ones of n elements from c on, and their bytes
def wanted (v : VectorInstr α) (c n : Nat) : Set (Nat × BitVec 64) :=
  {p | c ≤ p.1 ∧ p.1 < c + n ∧ Active v p.1 ∧ (p.2 - elemAddr v p.1).toNat < 2 ^ elemLog v.instr.memSize}

theorem readBack_append (v : VectorInstr α) (front back : List (Output α)) :
    readBack v (front ++ back) = readBack v front ∪ readBack v back := by
  ext p
  simp only [readBack,Set.mem_ofPred_eq,List.mem_append,Set.mem_union]
  constructor
  · rintro ⟨r,first | second,reads⟩
    · exact .inl ⟨r,first,reads⟩
    · exact .inr ⟨r,second,reads⟩
  · rintro (⟨r,inside,reads⟩ | ⟨r,inside,reads⟩)
    · exact ⟨r,.inl inside,reads⟩
    · exact ⟨r,.inr inside,reads⟩

theorem readBack_nil (v : VectorInstr α) : readBack v [] = ∅ := by
  ext p
  simp [readBack]

theorem wanted_append (v : VectorInstr α) (c m n : Nat) : wanted v c m ∪ wanted v (c + m) n = wanted v c (m + n) := by
  ext p
  simp only [wanted,Set.mem_union,Set.mem_ofPred_eq]
  constructor
  · rintro (⟨after,before,rest⟩ | ⟨after,before,rest⟩)
    · exact ⟨after,by omega,rest⟩
    · exact ⟨by omega,by omega,rest⟩
  · rintro ⟨after,before,rest⟩
    by_cases early : p.1 < c + m
    · exact .inl ⟨after,early,rest⟩
    · exact .inr ⟨by omega,by omega,rest⟩

theorem wanted_idle {v : VectorInstr α} {c n : Nat} (idle : ∀ i, c ≤ i → i < c + n → ¬ Active v i) : wanted v c n = ∅ := by
  ext p
  simp only [wanted,Set.mem_ofPred_eq,Set.mem_empty_iff_false,iff_false]
  rintro ⟨after,before,live,_⟩
  exact idle p.1 after before live

theorem near_iff {a x : BitVec 64} {e : Nat} (small : e ≤ 3) :
    (∃ j < 2 ^ e, x + BitVec.ofNat 64 j = a) ↔ (a - x).toNat < 2 ^ e := by
  have most : 2 ^ e ≤ 8 := Nat.pow_le_pow_right (by decide) small
  constructor
  · rintro ⟨j,inside,rfl⟩
    exact near_above inside (by omega)
  · intro near
    refine ⟨(a - x).toNat,near,?_⟩
    rw [BitVec.ofNat_toNat,BitVec.setWidth_eq,BitVec.add_comm,BitVec.sub_add_cancel]

theorem up_counter (q : Nat) (small : q < 32) : (fun packed => (packed + 1) % 32)^[q] 0 = q := by
  induction q with
  | zero => rfl
  | succ q ih =>
    rw [Function.iterate_succ_apply',ih (by omega)]
    exact Nat.mod_eq_of_lt small

theorem down_counter (n q : Nat) (small : n < 32) (inside : q ≤ n) :
    (fun packed => (packed + 31) % 32)^[q] n = n - q := by
  induction q with
  | zero => rfl
  | succ q ih =>
    rw [Function.iterate_succ_apply',ih (by omega)]
    omega

def Takes (r : Output α) (c m : Nat) (place : Nat → Nat) : Prop :=
  ∀ k i, gather r k = some i ↔ ∃ q < m, k = c + q ∧ i = place q

theorem takes_none {r : Output α} (none : r.instr.loadMask = 0) (c : Nat) (place : Nat → Nat) : Takes r c 0 place := by
  intro k i
  unfold gather
  rw [none]
  split
  · rw [pick_taken (fun a _ _ _ live => by rw [zero_bit] at live; cases live)]
    simp
  · rw [pick_taken (fun a _ _ _ live => by simp at live)]
    simp

theorem takes_up {r : Output α} {c m st off : Nat} (up : r.negStride = false) (quiet : r.instr.ex.valid = false)
    (loadMask : r.instr.loadMask = spread st id m) (start : r.velemOff = off) (place : r.instr.velemId.val = c)
    (apart : 0 < st) (room : c + m ≤ elements r) (line : ∀ q < m, off + q * st < elements r) (narrow : elements r ≤ 16) :
    Takes r c m fun q => off + q * st := by
  intro k i
  have slots : ∀ q < m, slot r ((fun packed => (packed + 1) % 32)^[q] 0) = c + q := by
    intro q inside
    rw [up_counter q (by omega),slot,place,Nat.mod_eq_of_lt (by omega),Nat.add_comm]
  rw [gather,up,if_neg Bool.false_ne_true,loadMask,start,quiet,pick_enumerated (f := fun q => off + q * st) (n := m)]
  · constructor
    · rintro ⟨q,inside,here,rfl⟩
      rw [slots q inside] at here
      exact ⟨q,inside,here.symm,rfl⟩
    · rintro ⟨q,inside,rfl,rfl⟩
      exact ⟨q,inside,slots q inside,rfl⟩
  · intro a b before _
    exact Nat.add_lt_add_left (Nat.mul_lt_mul_of_pos_right before apart) off
  · intro i
    simp only [Bool.not_false,Bool.and_true,Bool.and_eq_true,decide_eq_true_eq,spread_bit,id]
    constructor
    · rintro ⟨above,_,q,inside,here⟩
      exact ⟨q,inside,by omega⟩
    · rintro ⟨q,inside,rfl⟩
      have below := line q inside
      exact ⟨by omega,by omega,q,inside,by omega⟩
  · exact line
  · intro a small b less same
    rw [slots a small,slots b less] at same
    omega

theorem takes_down {r : Output α} {c m st off : Nat} (down : r.negStride = true)
    (loadMask : r.instr.loadMask = spread st (fun i => elements r - 1 - i - (elements r - off - 1)) m)
    (count : r.instr.velemIncr.val = m) (some : 0 < m) (place : r.instr.velemId.val = c) (apart : 0 < st)
    (room : c + m ≤ elements r) (line : ∀ q < m, q * st ≤ off) (within : off < elements r) (narrow : elements r ≤ 16) :
    Takes r c m fun q => off - q * st := by
  intro k i
  have start : (r.instr.velemIncr.val + 31) % 32 = m - 1 := by omega
  have slots : ∀ q < m, slot r ((fun packed => (packed + 31) % 32)^[q] (m - 1)) = c + (m - 1 - q) := by
    intro q inside
    rw [down_counter _ q (by omega) (by omega),slot,place,Nat.mod_eq_of_lt (by omega),Nat.add_comm]
  rw [gather,down,if_pos rfl,loadMask,start,pick_enumerated (f := fun q => off - (m - 1 - q) * st) (n := m)]
  · constructor
    · rintro ⟨q,inside,here,rfl⟩
      rw [slots q inside] at here
      exact ⟨m - 1 - q,by omega,here.symm,rfl⟩
    · rintro ⟨q,inside,rfl,rfl⟩
      refine ⟨m - 1 - q,by omega,?_,?_⟩
      · rw [slots _ (by omega)]
        omega
      · rw [show m - 1 - (m - 1 - q) = q by omega]
  · intro a b before inside
    have less : (m - 1 - b) * st < (m - 1 - a) * st := Nat.mul_lt_mul_of_pos_right (by omega) apart
    have most := line (m - 1 - a) (by omega)
    omega
  · intro i
    rw [spread_bit]
    constructor
    · rintro ⟨_,q,inside,here⟩
      refine ⟨m - 1 - q,by omega,?_⟩
      rw [show m - 1 - (m - 1 - q) = q by omega]
      omega
    · rintro ⟨q,inside,rfl⟩
      exact ⟨by omega,m - 1 - q,by omega,by omega⟩
  · intro q inside
    omega
  · intro a small b less same
    rw [slots a small,slots b less] at same
    omega

-- Addresses of the bytes that an answer brings

theorem source_line {r : Output α} {x : BitVec 64} (line : r.instr.memSize = lineSize) (base : r.instr.dataRs1 = lineAddr x)
    {j : Nat} (inside : j < 16) : sourceByte r j = some (lineAddr x + BitVec.ofNat 64 j) := by
  have bytes : bytesLog lineSize = 4 := rfl
  have same : (lineAddr x >>> 4) <<< 4 = lineAddr x := by
    refine BitVec.eq_of_toNat_eq ?_
    rw [← lineAddr,line_toNat,line_toNat]
    omega
  simp only [sourceByte,line,bytes,base,same]
  rw [if_pos (show j < 2 ^ 4 from inside)]

theorem source_narrow {r : Output α} {e : Nat} (small : e ≤ 3) (size : r.instr.memSize = BitVec.ofNat 4 e)
    (aligned : misaligned e r.instr.dataRs1 = false) {j : Nat} (inside : j < 2 ^ e) :
    sourceByte r j = some (r.instr.dataRs1 + BitVec.ofNat 64 j) := by
  have bytes : bytesLog (BitVec.ofNat 4 e) = e := by
    obtain rfl | rfl | rfl | rfl : e = 0 ∨ e = 1 ∨ e = 2 ∨ e = 3 := by omega
    all_goals rfl
  have same : (r.instr.dataRs1 >>> e) <<< e = r.instr.dataRs1 := by
    simp only [misaligned,decide_eq_false_iff_not,Decidable.not_not] at aligned
    have bound := r.instr.dataRs1.isLt
    refine BitVec.eq_of_toNat_eq ?_
    rw [BitVec.toNat_shiftLeft,BitVec.toNat_ushiftRight,Nat.shiftRight_eq_div_pow,Nat.shiftLeft_eq,
      Nat.div_mul_cancel (Nat.dvd_of_mod_eq_zero aligned),Nat.mod_eq_of_lt bound]
  simp only [sourceByte,size,bytes,same]
  rw [if_pos inside]

theorem line_start {e : Nat} (small : e ≤ 3) {x : BitVec 64} (aligned : misaligned e x = false) :
    lineAddr x + BitVec.ofNat 64 (lineOff e x * 2 ^ e) = x := by
  simp only [misaligned,decide_eq_false_iff_not,Decidable.not_not] at aligned
  have bound := x.isLt
  refine BitVec.eq_of_toNat_eq ?_
  rw [BitVec.toNat_add,BitVec.toNat_ofNat,line_toNat,lineOff]
  obtain rfl | rfl | rfl | rfl : e = 0 ∨ e = 1 ∨ e = 2 ∨ e = 3 := by omega
  all_goals omega

theorem scaled {e k : Nat} (wide : e ≤ k) (q : Nat) : q * 2 ^ (k - e) * 2 ^ e = q * 2 ^ k := by
  rw [Nat.mul_assoc,← Nat.pow_add,Nat.sub_add_cancel wide]

theorem inside_line {e place j : Nat} (inside : place < 16 / 2 ^ e) (byte : j < 2 ^ e) : place * 2 ^ e + j < 16 := by
  have row : (place + 1) * 2 ^ e ≤ 16 / 2 ^ e * 2 ^ e := Nat.mul_le_mul_right _ inside
  have whole := Nat.div_mul_le_self 16 (2 ^ e)
  rw [Nat.add_mul,Nat.one_mul] at row
  omega

theorem line_up {e k q j : Nat} (small : e ≤ 3) (wide : e ≤ k) {x : BitVec 64} (aligned : misaligned e x = false) :
    lineAddr x + BitVec.ofNat 64 ((lineOff e x + q * 2 ^ (k - e)) * 2 ^ e + j) =
      x + BitVec.ofNat 64 (q * 2 ^ k) + BitVec.ofNat 64 j := by
  rw [Nat.add_mul,scaled wide,Nat.add_assoc,BitVec.ofNat_add,BitVec.ofNat_add,← BitVec.add_assoc,← BitVec.add_assoc,
    line_start small aligned]

theorem line_down {e k q j : Nat} (small : e ≤ 3) (wide : e ≤ k) {x : BitVec 64} (aligned : misaligned e x = false)
    (within : q * 2 ^ (k - e) ≤ lineOff e x) :
    lineAddr x + BitVec.ofNat 64 ((lineOff e x - q * 2 ^ (k - e)) * 2 ^ e + j) =
      x - BitVec.ofNat 64 (q * 2 ^ k) + BitVec.ofNat 64 j := by
  have split : lineOff e x * 2 ^ e = (lineOff e x - q * 2 ^ (k - e)) * 2 ^ e + q * 2 ^ k := by
    rw [← scaled wide,← Nat.add_mul,Nat.sub_add_cancel within]
  have start := line_start small aligned
  rw [split,BitVec.ofNat_add,← BitVec.add_assoc] at start
  rw [BitVec.ofNat_add,← BitVec.add_assoc]
  congr 1
  exact BitVec.eq_sub_iff_add_eq.mpr start

end Sargantana.VloadGather
