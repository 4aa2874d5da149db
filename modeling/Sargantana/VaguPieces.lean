import Sargantana.Vagu
import Sargantana.Lib.Tiling
import Mathlib.Data.Finset.Card
import Mathlib.Data.Fintype.Basic
import Mathlib.Tactic.Ring

-- What vagu asks for in each of its states, and for which elements.
namespace Sargantana.VaguPieces
open DracPkg Vagu Tiling

variable {α : Type}

def isIndexed (v : VectorInstr α) : Bool := decide (v.instr.instrType ∈ [vlxe,.vsxe])

def isUnit (v : VectorInstr α) : Bool := decide (v.instr.instrType ∈ [vle,.vlm,.vl1r,.vse,.vsm,.vs1r,.vleff])

def step (v : VectorInstr α) : BitVec 64 :=
  if isUnit v then BitVec.ofNat 64 (2 ^ elemLog v.instr.memSize) else v.dataRs2

def Active (v : VectorInstr α) (i : Nat) : Prop := v.useMask = false ∨ v.dataVm.getLsbD i = true

instance (v : VectorInstr α) (i : Nat) : Decidable (Active v i) := inferInstanceAs (Decidable (_ ∨ _))

def elemAddr (v : VectorInstr α) (i : Nat) : BitVec 64 :=
  if isIndexed v then v.instr.dataRs1 + BitVec.ofNat 64 (indexAt (vaguIndex v) (elemLog v.instr.memSize) i)
  else v.instr.dataRs1 + BitVec.ofNat 64 i * step v

def ones (mask : BitVec 16) : Nat := (Finset.univ.filter fun j : Fin 16 => mask.getLsbD j.val = true).card

-- The elements of a request: as many as its mask has ones and it counts, from velem_id on
def first (r : Output α) : Nat := r.instr.velemId.val

def counted (r : Output α) : Nat := r.instr.velemIncr.val

def count (r : Output α) : Nat := min (ones r.instr.loadMask) (counted r)

def Covers (r : Output α) (i : Nat) : Prop := Member first count r i

instance (r : Output α) (i : Nat) : Decidable (Covers r i) := inferInstanceAs (Decidable (Member _ _ _ _))

def bytesLog (memSize : BitVec 4) : Nat := if memSize = lineSize then 4 else memSize.toNat

def Contains (r : Output α) (a : BitVec 64) : Prop := (a - r.instr.dataRs1).toNat < 2 ^ bytesLog r.instr.memSize

theorem zero_bit (j : Nat) : (0 : BitVec 16).getLsbD j = false := BitVec.getLsbD_zero

theorem ones_zero : ones 0 = 0 := by decide

theorem ones_all : ones (BitVec.allOnes 16) = 16 := by decide

theorem ones_low {n : Nat} (small : n ≤ 16) : ones (lowOnes n) = n := by
  have each : ∀ n : Fin 17, ones (lowOnes n.val) = n.val := by decide
  exact each ⟨n,by omega⟩

theorem ones_set {mask : BitVec 16} {p : Nat} (small : p < 16) (free : mask.getLsbD p = false) :
    ones (mask ||| (1#16 <<< p)) = ones mask + 1 := by
  have shape : (Finset.univ.filter fun j : Fin 16 => (mask ||| (1#16 <<< p)).getLsbD j.val = true) =
      insert ⟨p,small⟩ (Finset.univ.filter fun j : Fin 16 => mask.getLsbD j.val = true) := by
    ext j
    have bit : (1#16 <<< p).getLsbD j.val = decide (j.val = p) := by
      rw [BitVec.getLsbD_shiftLeft,BitVec.getLsbD_one]
      have := j.isLt
      by_cases same : j.val = p <;> simp [same] <;> omega
    simp only [Finset.mem_filter,Finset.mem_univ,true_and,Finset.mem_insert,BitVec.getLsbD_or,bit,Bool.or_eq_true,
      decide_eq_true_eq,Fin.ext_iff]
    exact or_comm
  rw [ones,shape,Finset.card_insert_of_notMem]
  · rfl
  · simp only [Finset.mem_filter,Finset.mem_univ,true_and,free]
    exact Bool.false_ne_true

theorem low_bit {n j : Nat} (small : n ≤ 16) : (lowOnes n).getLsbD j = decide (j < n) := by
  simp only [lowOnes,BitVec.getLsbD_ushiftRight,BitVec.getLsbD_allOnes]
  congr 1
  apply propext
  omega

theorem spread_bit {step : Nat} {place : Nat → Nat} {n j : Nat} :
    (spread step place n).getLsbD j = true ↔ j < 16 ∧ ∃ i < n, place (i * step) = j := by
  induction n with
  | zero => simp [spread]
  | succ n ih =>
    rw [spread,BitVec.getLsbD_or,Bool.or_eq_true,ih,BitVec.getLsbD_shiftLeft,BitVec.getLsbD_one]
    constructor
    · rintro (⟨small,i,before,here⟩ | last)
      · exact ⟨small,i,by omega,here⟩
      · simp only [Bool.and_eq_true,Bool.not_eq_true',decide_eq_true_eq,decide_eq_false_iff_not] at last
        exact ⟨last.1.1,n,by omega,by omega⟩
    · rintro ⟨small,i,before,here⟩
      by_cases last : i = n
      · right
        subst last
        simp only [Bool.and_eq_true,Bool.not_eq_true',decide_eq_true_eq,decide_eq_false_iff_not]
        exact ⟨⟨small,by omega⟩,by decide,by omega⟩
      · exact .inl ⟨small,i,by omega,here⟩

theorem ones_spread {step : Nat} {place : Nat → Nat} {n : Nat} (small : ∀ i < n, place (i * step) < 16)
    (apart : ∀ i < n, ∀ j < n, place (i * step) = place (j * step) → i = j) : ones (spread step place n) = n := by
  induction n with
  | zero => exact ones_zero
  | succ n ih =>
    rw [spread,ones_set (small n (by omega))]
    · rw [ih (fun i before => small i (by omega)) (fun i before j after => apart i (by omega) j (by omega))]
    · rw [Bool.eq_false_iff]
      intro set
      obtain ⟨_,i,before,here⟩ := spread_bit.mp set
      have same := apart i (by omega) n (by omega) here
      omega

structure Setup (v : VectorInstr α) (s : State α) : Prop where
  mode : s.mode = startMode (wired v false false)
  vl : s.vl = vaguVl v
  instr : s.instr = v.instr
  vsew : s.vsew = v.instr.sew.val
  masked : s.maskedOp = v.useMask
  mask : v.useMask = true ∨ isIndexed v = true → s.mask = v.dataVm &&& lowOnes (16 / 2 ^ v.instr.sew.val)
  index : isIndexed v = true → s.index = vaguIndex v
  signed : ∀ a : BitVec 64, (if s.negStride then a - s.stride else a + s.stride) = a + vaguStride v
  group : s.group = true → ∃ l ≤ 3, s.logStride = l ∧ s.stride = BitVec.ofNat 64 (2 ^ l) ∧ vaguStride v = BitVec.ofNat 64 (2 ^ l)
  groupNeg : s.groupNeg = true → ∃ l ≤ 3, s.logStride = l ∧ s.stride = BitVec.ofNat 64 (2 ^ l) ∧
    vaguStride v = -BitVec.ofNat 64 (2 ^ l)
  up : s.group = groups (vaguStride v) v.instr.instrType
  down : s.groupNeg = (!groups (vaguStride v) v.instr.instrType && groups (-vaguStride v) v.instr.instrType)

-- A line serves several elements.
def lined (s : State α) : Bool :=
  match s.mode with
  | .vlUnit | .vsUnit => true
  | .vlStrided => (s.group || s.groupNeg) && decide (elemLog s.instr.memSize ≤ s.logStride)
  | _ => false

structure Progress (v : VectorInstr α) (c : Nat) (s : State α) : Prop where
  setup : Setup v s
  cnt : s.velemCnt = c
  left : c < vaguVl v
  vaddr : s.vaddr = if isIndexed v then v.instr.dataRs1 else elemAddr v c
  acum : s.acumVelemIncr ≤ c
  exact : lined s = true → s.acumVelemIncr = 0

theorem decoded_size {v : VectorInstr α} (decoded : Decoded v) :
    (v.instr.memSize = 0 ∧ elemLog v.instr.memSize = 0) ∨ (v.instr.memSize = 5 ∧ elemLog v.instr.memSize = 1) ∨
      (v.instr.memSize = 6 ∧ elemLog v.instr.memSize = 2) ∨ (v.instr.memSize = 7 ∧ elemLog v.instr.memSize = 3) := by
  have size := decoded.size
  simp only [List.mem_cons,List.not_mem_nil,or_false] at size
  rcases size with size | size | size | size <;> rw [size] <;> decide

theorem elemLog_le {v : VectorInstr α} (decoded : Decoded v) : elemLog v.instr.memSize ≤ 3 := by
  have := decoded_size decoded
  omega

theorem vaguVl_bounds {v : VectorInstr α} (decoded : Decoded v) : 0 < vaguVl v ∧ vaguVl v ≤ 16 := by
  have some := decoded.some
  have small : v.instr.vl.val ≤ 16 := le_trans (Nat.le_mul_of_pos_right _ (Nat.two_pow_pos _)) decoded.register
  unfold vaguVl
  split
  · omega
  · split
    · rcases decoded_size decoded with ⟨_,e⟩ | ⟨_,e⟩ | ⟨_,e⟩ | ⟨_,e⟩ <;> rw [e] <;> decide
    · exact ⟨some,small⟩

theorem vaguVl_le {v : VectorInstr α} (decoded : Decoded v) : vaguVl v ≤ 16 := (vaguVl_bounds decoded).2

-- vagu has no state for the masked store of a mask or of a whole register.
structure Taken (v : VectorInstr α) : Prop extends Decoded v where
  cut : v.useMask = true → v.instr.instrType ∉ [.vsm,.vs1r]

theorem mode_cases {v : VectorInstr α} (decoded : Taken v) :
    (startMode (wired v false false) = .vlUnit ∧ v.instr.instrType ∈ [vle,.vlm,.vl1r]) ∨
    (startMode (wired v false false) = .vsUnit ∧ v.instr.instrType ∈ [.vse,.vsm,.vs1r] ∧ v.useMask = false) ∨
    (startMode (wired v false false) = .vlStrided ∧ v.instr.instrType ∈ [vlse,.vleff]) ∨
    (startMode (wired v false false) = .vsStrided ∧ v.instr.instrType ∈ [.vse,.vsse]) ∨
    (startMode (wired v false false) = .vlIndexed ∧ v.instr.instrType = vlxe) ∨
    (startMode (wired v false false) = .vsIndexed ∧ v.instr.instrType = .vsxe) := by
  have vector := decoded.vector
  have cut := decoded.cut
  have some : (v.instr.vl != 0) = true := by
    have positive := decoded.some
    simp only [bne_iff_ne,ne_eq,Fin.ext_iff]
    exact Nat.ne_of_gt positive
  simp only [isVector,decide_eq_true_eq,List.mem_cons,List.not_mem_nil,or_false] at vector
  simp only [startMode,wired,decoded.valid,some,Bool.and_self,Bool.not_true,Bool.false_eq_true,if_false,vaguMop]
  rcases vector with kind | kind | kind | kind | kind | kind | kind | kind | kind | kind | kind <;>
    rw [kind] at cut ⊢ <;> cases masked : v.useMask <;> rw [masked] at cut <;> simp_all [vle,vlse,vlxe]

theorem groups_pow {stride : BitVec 64} {t : InstrType} (grouped : groups stride t = true) :
    ∃ l ≤ 3, stride = BitVec.ofNat 64 (2 ^ l) := by
  simp only [groups,Bool.and_eq_true,decide_eq_true_eq,List.mem_cons,List.not_mem_nil,or_false] at grouped
  rcases grouped.1 with value | value | value | value
  · exact ⟨0,by omega,BitVec.eq_of_toNat_eq value⟩
  · exact ⟨1,by omega,BitVec.eq_of_toNat_eq value⟩
  · exact ⟨2,by omega,BitVec.eq_of_toNat_eq value⟩
  · exact ⟨3,by omega,BitVec.eq_of_toNat_eq value⟩

theorem logOf_pow (old : Nat) {l : Nat} (small : l ≤ 3) : logOf old (BitVec.ofNat 64 (2 ^ l)) = l := by
  obtain rfl | rfl | rfl | rfl : l = 0 ∨ l = 1 ∨ l = 2 ∨ l = 3 := by omega
  · rfl
  · rfl
  · rfl
  · rfl

theorem pow_positive {l : Nat} (small : l ≤ 3) :
    (BitVec.ofNat 64 (2 ^ l)).getLsbD 63 = false ∧ (-BitVec.ofNat 64 (2 ^ l)).getLsbD 63 = true := by
  obtain rfl | rfl | rfl | rfl : l = 0 ∨ l = 1 ∨ l = 2 ∨ l = 3 := by omega
  · decide
  · decide
  · decide
  · decide

theorem accept_setup {v : VectorInstr α} {s : State α} (idle : s.mode = .scalar) (flush : Bool) :
    Setup v (next s (wired v flush false)) := by
  have moved : next s (wired v flush false) = { accept s (wired v flush false) with
      mask := if (wired v flush false).maskValid then (wired v flush false).mask else s.mask
      index := if (wired v flush false).maskValid then (wired v flush false).index else s.index
      vstoreBuffer := if (wired v flush false).vstoreDataValid || decide (s.mode = .scalar) then (wired v flush false).vstoreData
        else s.vstoreBuffer } := by
    simp only [next,idle,if_true]
    rfl
  rw [moved]
  refine ⟨rfl,rfl,rfl,rfl,rfl,?_,?_,?_,?_,?_,rfl,rfl⟩
  · intro masks
    have valid : (wired v flush false).maskValid = true := by
      rcases masks with masked | indexed
      · simp [wired,masked]
      · simp only [wired,isIndexed] at indexed ⊢
        rw [indexed,Bool.or_true]
    simp only [valid,if_true]
    rfl
  · intro indexed
    have valid : (wired v flush false).maskValid = true := by
      simp only [wired,isIndexed] at indexed ⊢
      rw [indexed,Bool.or_true]
    simp only [valid,if_true]
    rfl
  · intro a
    change (if (vaguStride v).getLsbD 63 then a - (if (vaguStride v).getLsbD 63 then -vaguStride v else vaguStride v)
      else a + (if (vaguStride v).getLsbD 63 then -vaguStride v else vaguStride v)) = _
    cases (vaguStride v).getLsbD 63 <;> simp
  · intro grouped
    obtain ⟨l,small,value⟩ := groups_pow grouped
    change vaguStride v = _ at value
    have plus := (pow_positive small).1
    refine ⟨l,small,?_,?_,value⟩
    · change logOf _ (if (vaguStride v).getLsbD 63 then _ else vaguStride v) = l
      rw [value,plus]
      exact logOf_pow _ small
    · change (if (vaguStride v).getLsbD 63 then _ else vaguStride v) = _
      rw [value,plus]
      rfl
  · intro grouped
    obtain ⟨l,small,value⟩ := groups_pow (Bool.and_eq_true _ _ ▸ grouped).2
    change -vaguStride v = _ at value
    have negative : vaguStride v = -BitVec.ofNat 64 (2 ^ l) := by rw [← value,BitVec.neg_neg]
    have minus := (pow_positive small).2
    refine ⟨l,small,?_,?_,negative⟩
    · change logOf _ (if (vaguStride v).getLsbD 63 then -vaguStride v else _) = l
      rw [negative,minus,if_pos rfl,BitVec.neg_neg]
      exact logOf_pow _ small
    · change (if (vaguStride v).getLsbD 63 then -vaguStride v else _) = _
      rw [negative,minus,if_pos rfl,BitVec.neg_neg]

theorem accept_progress {v : VectorInstr α} (decoded : Taken v) {s : State α} (idle : s.mode = .scalar) (flush : Bool) :
    Progress v 0 (next s (wired v flush false)) := by
  refine ⟨accept_setup idle flush,?_,(vaguVl_bounds decoded.toDecoded).1,?_,?_,?_⟩
  · simp [next,idle,accept,wired]
  · have here : (next s (wired v flush false)).vaddr = v.instr.dataRs1 := by simp [next,idle,accept,wired]
    rw [here]
    split
    · rfl
    · rename_i other
      simp [elemAddr,other]
  · simp [next,idle,accept,wired]
  · intro _
    simp [next,idle,accept,wired]

-- Arithmetic of addresses in a line

theorem line_toNat (x : BitVec 64) : (lineAddr x).toNat = x.toNat / 16 * 16 := by
  have small := x.isLt
  simp only [lineAddr,BitVec.toNat_shiftLeft,BitVec.toNat_ushiftRight,Nat.shiftRight_eq_div_pow,Nat.shiftLeft_eq]
  omega

theorem line_above {x : BitVec 64} {d : Nat} (fits : x.toNat % 16 + d < 16) : (x + BitVec.ofNat 64 d - lineAddr x).toNat < 16 := by
  have small := x.isLt
  rw [BitVec.toNat_sub,BitVec.toNat_add,BitVec.toNat_ofNat,line_toNat]
  omega

theorem line_below {x : BitVec 64} {d : Nat} (fits : d ≤ x.toNat % 16) : (x - BitVec.ofNat 64 d - lineAddr x).toNat < 16 := by
  have small := x.isLt
  rw [BitVec.toNat_sub,BitVec.toNat_sub,BitVec.toNat_ofNat,line_toNat]
  omega

theorem near_above {x : BitVec 64} {d n : Nat} (fits : d < n) (small : n ≤ 16) : (x + BitVec.ofNat 64 d - x).toNat < n := by
  have same : x + BitVec.ofNat 64 d - x = BitVec.ofNat 64 d := by
    rw [BitVec.add_comm,BitVec.add_sub_cancel]
  rw [same,BitVec.toNat_ofNat]
  omega

variable {v : VectorInstr α} {s : State α} {c : Nat}

theorem elemAddr_add (plain : isIndexed v = false) (c n : Nat) : elemAddr v (c + n) = elemAddr v c + BitVec.ofNat 64 n * step v := by
  simp only [elemAddr,plain,Bool.false_eq_true,if_false]
  rw [BitVec.ofNat_add,BitVec.add_mul,BitVec.add_assoc]

theorem elemAddr_pow (plain : isIndexed v = false) {l : Nat} (pow : step v = BitVec.ofNat 64 (2 ^ l)) (c n : Nat) :
    elemAddr v (c + n) = elemAddr v c + BitVec.ofNat 64 (n * 2 ^ l) := by
  rw [elemAddr_add plain,pow,BitVec.ofNat_mul]

theorem elemAddr_neg (plain : isIndexed v = false) {l : Nat} (pow : step v = -BitVec.ofNat 64 (2 ^ l)) (c n : Nat) :
    elemAddr v (c + n) = elemAddr v c - BitVec.ofNat 64 (n * 2 ^ l) := by
  rw [elemAddr_add plain,pow,BitVec.ofNat_mul,BitVec.mul_neg,BitVec.sub_eq_add_neg]

def live (v : VectorInstr α) : Bool := decide ((v.dataVm &&& lowOnes (16 / 2 ^ v.instr.sew.val)) &&& lowOnes (vaguVl v) ≠ 0)

-- The mask that vagu is given ends at vl; a whole register can have active elements beyond it.
def Seen (v : VectorInstr α) : Prop :=
  v.useMask = true → v.instr.instrType = .vl1r → (∃ i < vaguVl v, Active v i) → live v = true

theorem mask_inside (decoded : Decoded v) (whole : v.instr.instrType ∉ [.vl1r,.vs1r]) {i : Nat} (small : i < vaguVl v) :
    i < 16 / 2 ^ v.instr.sew.val := by
  have some := decoded.some
  have length : vaguVl v ≤ v.instr.vl.val := by
    simp only [List.mem_cons,List.not_mem_nil,or_false] at whole
    simp only [vaguVl,List.mem_cons,List.not_mem_nil,or_false,if_neg whole]
    split <;> omega
  have register := decoded.register
  rw [Nat.lt_div_iff_mul_lt (Nat.two_pow_pos _)]
  have positive := Nat.two_pow_pos v.instr.sew.val
  have grows : (i + 1) * 2 ^ v.instr.sew.val ≤ v.instr.vl.val * 2 ^ v.instr.sew.val := Nat.mul_le_mul_right _ (by omega)
  rw [Nat.add_mul] at grows
  omega

theorem mask_bit (decoded : Decoded v) (whole : v.instr.instrType ∉ [.vl1r,.vs1r]) (setup : Setup v s)
    (masks : v.useMask = true ∨ isIndexed v = true) {i : Nat} (small : i < vaguVl v) :
    s.mask.getLsbD i = v.dataVm.getLsbD i := by
  have bound := mask_inside decoded whole small
  rw [setup.mask masks,BitVec.getLsbD_and,low_bit (Nat.div_le_self _ _)]
  simp [bound]

theorem live_active (decoded : Decoded v) (seen : Seen v) (masked : v.useMask = true) {i : Nat} (small : i < vaguVl v)
    (on : Active v i) (load : v.instr.instrType ≠ .vs1r) : live v = true := by
  by_cases whole : v.instr.instrType = .vl1r
  · exact seen masked whole ⟨i,small,on⟩
  · have inside := mask_inside decoded (by simp [whole,load]) small
    have set : v.dataVm.getLsbD i = true := by
      rcases on with plain | set
      · rw [masked] at plain
        cases plain
      · exact set
    refine decide_eq_true ?_
    intro zero
    have bit := congrArg (fun m => m.getLsbD i) zero
    simp only [BitVec.getLsbD_and,set,low_bit (Nat.div_le_self _ _),low_bit (vaguVl_le decoded),inside,small] at bit
    simp at bit

-- Only the states for adjacent elements take whole registers.
theorem mode_whole (decoded : Taken v) (setup : Setup v s) (mode : s.mode ∉ [.vlUnit,.vsUnit]) :
    v.instr.instrType ∉ [.vl1r,.vs1r] := by
  rw [setup.mode] at mode
  rcases mode_cases decoded with ⟨m,_⟩ | ⟨m,_⟩ | ⟨_,kind⟩ | ⟨_,kind⟩ | ⟨_,kind⟩ | ⟨_,kind⟩
  · simp [m] at mode
  · simp [m] at mode
  all_goals
    simp only [List.mem_cons,List.not_mem_nil,or_false] at kind ⊢
    rintro (whole | whole) <;> rw [whole] at kind <;> simp [vlse,vlxe] at kind

theorem active_iff (decoded : Taken v) (progress : Progress v c s) (mode : s.mode ∉ [.vlUnit,.vsUnit]) :
    active s = true ↔ Active v c := by
  unfold active Active
  rw [progress.setup.masked,progress.cnt]
  cases masked : v.useMask with
  | false => simp
  | true =>
    rw [mask_bit decoded.toDecoded (mode_whole decoded progress.setup mode) progress.setup (.inl masked) progress.left]
    simp

theorem unmasked_active (decoded : Decoded v) (i : Nat) (small : i < 16) : v.useMask = false → v.dataVm.getLsbD i = true := by
  intro plain
  rw [decoded.unmasked plain,BitVec.getLsbD_allOnes]
  exact decide_eq_true small

-- The elements that a piece counts, whether or not they are aligned
structure Shape (v : VectorInstr α) (c : Nat) (s : State α) (p : Piece) : Prop where
  pos : 0 < p.velemIncr
  fits : c + p.velemIncr ≤ vaguVl v
  address : p.vaddrNext = if isIndexed v then v.instr.dataRs1 else elemAddr v (c + p.velemIncr)
  kind : (p.makeReq = true ∧ (nextAcum s p = 0 ∨ c + p.velemIncr = vaguVl v) ∧
      (min (ones p.loadMask) (s.acumVelemIncr + p.velemIncr) = p.velemIncr ∨
        (p.loadMask = 0 ∧ (Seen v → ∀ i, c ≤ i → i < c + p.velemIncr → ¬ Active v i)))) ∨
    (p.makeReq = false ∧ p.velemIncr = 1 ∧ nextAcum s p = s.acumVelemIncr + 1 ∧ ¬ Active v c ∧ c + 1 < vaguVl v)

-- The request of a piece reaches its active elements.
def Reaches (v : VectorInstr α) (c : Nat) (p : Piece) : Prop :=
  ∀ i, c ≤ i → i < c + p.velemIncr → Active v i → (elemAddr v i - p.dataRs1).toNat < 2 ^ bytesLog p.memSize

theorem unit_step (unit : isUnit v = true) : isIndexed v = false ∧ step v = BitVec.ofNat 64 (2 ^ elemLog v.instr.memSize) := by
  refine ⟨?_,by simp [step,unit]⟩
  simp only [isUnit,isIndexed,decide_eq_true_eq,decide_eq_false_iff_not,List.mem_cons,List.not_mem_nil,or_false] at unit ⊢
  rcases unit with kind | kind | kind | kind | kind | kind | kind <;> rw [kind] <;> simp [vle,vlxe]

theorem lineOff_lt (e : Nat) (small : e ≤ 3) (x : BitVec 64) : lineOff e x < 16 / 2 ^ e := by
  unfold lineOff
  obtain rfl | rfl | rfl | rfl : e = 0 ∨ e = 1 ∨ e = 2 ∨ e = 3 := by omega
  · omega
  · omega
  · omega
  · omega

theorem line_room {e place : Nat} (small : e ≤ 3) {x : BitVec 64} (aligned : misaligned e x = false)
    (room : place < 16 / 2 ^ e - lineOff e x) : x.toNat % 16 + place * 2 ^ e < 16 := by
  simp only [misaligned,decide_eq_false_iff_not,Decidable.not_not] at aligned
  unfold lineOff at room
  obtain rfl | rfl | rfl | rfl : e = 0 ∨ e = 1 ∨ e = 2 ∨ e = 3 := by omega
  · omega
  · omega
  · omega
  · omega

theorem vlUnit_mask (decoded : Taken v) (seen : Seen v) (progress : Progress v c s) (e : Nat) {i : Nat}
    (bound : i < vaguVl v) (on : Active v i) : (vlUnit e s).loadMask = lowOnes (vlUnit e s).velemIncr := by
  have some : s.mask &&& lowOnes s.vl ≠ 0 ∨ s.maskedOp = false := by
    rw [progress.setup.masked]
    cases masked : v.useMask with
    | false => exact .inr rfl
    | true =>
      left
      have load : v.instr.instrType ≠ .vs1r := by
        intro store
        have cut := decoded.cut masked
        simp [store] at cut
      rw [progress.setup.mask (.inl masked),progress.setup.vl]
      exact of_decide_eq_true (live_active decoded.toDecoded seen masked bound on load)
  simp only [vlUnit,if_pos some]

theorem vlUnit_incr (e : Nat) (progress : Progress v c s) : (vlUnit e s).velemIncr =
    if 16 / 2 ^ e - lineOff e s.vaddr + c ≤ vaguVl v then 16 / 2 ^ e - lineOff e s.vaddr else vaguVl v - c := by
  simp only [vlUnit,progress.cnt,progress.setup.vl]

theorem vlUnit_shape (decoded : Taken v) (progress : Progress v c s) (mode : s.mode = .vlUnit) (unit : isUnit v = true) :
    Shape v c s (vlUnit (elemLog v.instr.memSize) s) := by
  have small := elemLog_le decoded.toDecoded
  have left := progress.left
  have most := vaguVl_le decoded.toDecoded
  have off := lineOff_lt _ small s.vaddr
  have incr := vlUnit_incr (elemLog v.instr.memSize) progress
  obtain ⟨plain,pow⟩ := unit_step unit
  have zero : s.acumVelemIncr = 0 := progress.exact (by simp [lined,mode])
  have pos : 0 < (vlUnit (elemLog v.instr.memSize) s).velemIncr := by rw [incr]; split <;> omega
  have fits : c + (vlUnit (elemLog v.instr.memSize) s).velemIncr ≤ vaguVl v := by rw [incr]; split <;> omega
  refine ⟨pos,fits,?_,.inl ⟨rfl,.inl (by simp [nextAcum,mode,zero]),?_⟩⟩
  · rw [plain,elemAddr_pow plain pow]
    simp only [vlUnit,progress.vaddr,plain,Bool.false_eq_true,if_false]
  · by_cases some : s.mask &&& lowOnes s.vl ≠ 0 ∨ s.maskedOp = false
    · left
      have full : (vlUnit (elemLog v.instr.memSize) s).loadMask = lowOnes (vlUnit (elemLog v.instr.memSize) s).velemIncr := by
        simp only [vlUnit,if_pos some]
      rw [full,ones_low (by omega),zero,Nat.zero_add,Nat.min_self]
    · right
      have none : (vlUnit (elemLog v.instr.memSize) s).loadMask = 0 := by simp only [vlUnit,if_neg some]
      refine ⟨none,?_⟩
      intro seen i _ before live
      have full := vlUnit_mask decoded seen progress (elemLog v.instr.memSize) (i := i) (by omega) live
      have length := ones_low (n := (vlUnit (elemLog v.instr.memSize) s).velemIncr) (by omega)
      rw [← full,none,ones_zero] at length
      omega

theorem vlUnit_reaches (decoded : Taken v) (progress : Progress v c s) (unit : isUnit v = true)
    (aligned : misaligned (elemLog v.instr.memSize) s.vaddr = false) : Reaches v c (vlUnit (elemLog v.instr.memSize) s) := by
  intro i after before _
  have small := elemLog_le decoded.toDecoded
  have incr := vlUnit_incr (elemLog v.instr.memSize) progress
  obtain ⟨plain,pow⟩ := unit_step unit
  obtain ⟨j,rfl⟩ : ∃ j, i = c + j := ⟨i - c,by omega⟩
  have here : elemAddr v c = s.vaddr := by simp [progress.vaddr,plain]
  have line : (vlUnit (elemLog v.instr.memSize) s).dataRs1 = lineAddr s.vaddr := by simp [vlUnit,aligned]
  rw [elemAddr_pow plain pow,here,line]
  refine line_above (line_room small aligned ?_)
  rw [incr] at before
  split at before <;> omega

theorem storeWidth_spec (e : Nat) (s : State α) (b : Nat) : storeWidth e s b = e ∨
    (e < storeWidth e s b ∧ storeWidth e s b ≤ b ∧ s.velemCnt + 2 ^ (storeWidth e s b - e) ≤ s.vl ∧
      s.vaddr.toNat % 2 ^ storeWidth e s b = 0) := by
  induction b with
  | zero => exact .inl rfl
  | succ b ih =>
    unfold storeWidth
    split
    · rename_i fits
      exact .inr ⟨fits.1,Nat.le_refl _,fits.2⟩
    · rcases ih with same | ⟨above,below,rest⟩
      · exact .inl same
      · exact .inr ⟨above,by omega,rest⟩

theorem sizeCode_bytes {b : Nat} (small : b ≤ 4) : bytesLog (sizeCode b) = b := by
  obtain rfl | rfl | rfl | rfl | rfl : b = 0 ∨ b = 1 ∨ b = 2 ∨ b = 3 ∨ b = 4 := by omega
  · rfl
  · rfl
  · rfl
  · rfl
  · rfl

theorem vsUnit_width (decoded : Taken v) (progress : Progress v c s) :
    elemLog v.instr.memSize ≤ storeWidth (elemLog v.instr.memSize) s 4 ∧ storeWidth (elemLog v.instr.memSize) s 4 ≤ 4 ∧
      c + 2 ^ (storeWidth (elemLog v.instr.memSize) s 4 - elemLog v.instr.memSize) ≤ vaguVl v := by
  have small := elemLog_le decoded.toDecoded
  have left := progress.left
  rcases storeWidth_spec (elemLog v.instr.memSize) s 4 with same | ⟨above,below,fits,_⟩
  · rw [same,Nat.sub_self]
    exact ⟨Nat.le_refl _,by omega,left⟩
  · rw [progress.cnt,progress.setup.vl] at fits
    exact ⟨Nat.le_of_lt above,below,fits⟩

theorem vsUnit_shape (decoded : Taken v) (progress : Progress v c s) (mode : s.mode = .vsUnit) (unit : isUnit v = true) :
    Shape v c s (vsUnit (elemLog v.instr.memSize) s) := by
  obtain ⟨above,_,fits⟩ := vsUnit_width decoded progress
  have most := vaguVl_le decoded.toDecoded
  obtain ⟨plain,pow⟩ := unit_step unit
  have zero : s.acumVelemIncr = 0 := progress.exact (by simp [lined,mode])
  refine ⟨Nat.two_pow_pos _,fits,?_,.inl ⟨rfl,.inl (by simp [nextAcum,mode,zero]),.inl ?_⟩⟩
  · rw [plain,elemAddr_pow plain pow]
    simp only [vsUnit,progress.vaddr,plain,Bool.false_eq_true,if_false]
    rw [← Nat.pow_add,Nat.sub_add_cancel above]
  · change min (ones (BitVec.allOnes 16)) (s.acumVelemIncr + 2 ^ _) = 2 ^ _
    rw [ones_all,zero]
    omega

theorem vsUnit_reaches (decoded : Taken v) (progress : Progress v c s) (unit : isUnit v = true) :
    Reaches v c (vsUnit (elemLog v.instr.memSize) s) := by
  intro i after before _
  obtain ⟨above,below,_⟩ := vsUnit_width decoded progress
  obtain ⟨plain,pow⟩ := unit_step unit
  obtain ⟨j,rfl⟩ : ∃ j, i = c + j := ⟨i - c,by omega⟩
  have here : elemAddr v c = s.vaddr := by simp [progress.vaddr,plain]
  have inside : j < 2 ^ (storeWidth (elemLog v.instr.memSize) s 4 - elemLog v.instr.memSize) := by
    change c + j < c + 2 ^ _ at before
    omega
  rw [elemAddr_pow plain pow,here]
  change (_ - s.vaddr).toNat < 2 ^ bytesLog (sizeCode _)
  rw [sizeCode_bytes below]
  refine near_above ?_ ?_
  · calc j * 2 ^ elemLog v.instr.memSize
        < 2 ^ (storeWidth (elemLog v.instr.memSize) s 4 - elemLog v.instr.memSize) * 2 ^ elemLog v.instr.memSize :=
          Nat.mul_lt_mul_of_pos_right inside (Nat.two_pow_pos _)
      _ = 2 ^ storeWidth (elemLog v.instr.memSize) s 4 := by rw [← Nat.pow_add,Nat.sub_add_cancel above]
  · exact Nat.pow_le_pow_right (by omega) below

-- Strided loads of several elements of a line. The stride is 2 ^ l bytes up or down.

theorem strided_step (strided : v.instr.instrType ∈ [vlse,.vleff] ∨ v.instr.instrType ∈ [.vse,.vsse]) :
    isIndexed v = false ∧ step v = vaguStride v := by
  simp only [isIndexed,step,isUnit,vaguStride,List.mem_cons,List.not_mem_nil,or_false] at strided ⊢
  rcases strided with (kind | kind) | (kind | kind) <;> rw [kind] <;> simp [vlse,vlxe,vle]

theorem groupIncr_cases (e off : Nat) (progress : Progress v c s) : groupIncr e s off =
    if groupRoom e s off + c ≤ vaguVl v then groupRoom e s off else vaguVl v - c := by
  simp only [groupIncr,progress.cnt,progress.setup.vl]

theorem groupRoom_value {e l off : Nat} (small : l ≤ 3) (log : s.logStride = l) (stride : s.stride = BitVec.ofNat 64 (2 ^ l)) :
    groupRoom e s off = (16 / 2 ^ e - off + 2 ^ l / 2 ^ e - 1) / 2 ^ (l - e) := by
  have value : s.stride.toNat % 128 = 2 ^ l := by
    rw [stride,BitVec.toNat_ofNat]
    obtain rfl | rfl | rfl | rfl : l = 0 ∨ l = 1 ∨ l = 2 ∨ l = 3 := by omega
    · rfl
    · rfl
    · rfl
    · rfl
  rw [groupRoom,value,log,Nat.shiftRight_eq_div_pow]

theorem groupRoom_bounds {e l space : Nat} (most : l ≤ 3) (wide : e ≤ l) (some : 0 < space) :
    0 < (space + 2 ^ l / 2 ^ e - 1) / 2 ^ (l - e) ∧
      ∀ j < (space + 2 ^ l / 2 ^ e - 1) / 2 ^ (l - e), j * 2 ^ (l - e) < space := by
  have quotient : 2 ^ l / 2 ^ e = 2 ^ (l - e) := Nat.pow_div wide (by omega)
  rw [quotient]
  obtain close | close | close | close : l - e = 0 ∨ l - e = 1 ∨ l - e = 2 ∨ l - e = 3 := by omega
  · rw [close]
    exact ⟨by omega,fun j before => by omega⟩
  · rw [close]
    exact ⟨by omega,fun j before => by omega⟩
  · rw [close]
    exact ⟨by omega,fun j before => by omega⟩
  · rw [close]
    exact ⟨by omega,fun j before => by omega⟩

theorem groupIncr_bounds {e l off : Nat} (progress : Progress v c s) (most : l ≤ 3) (wide : e ≤ l) (some : off < 16 / 2 ^ e)
    (log : s.logStride = l) (stride : s.stride = BitVec.ofNat 64 (2 ^ l)) :
    0 < groupIncr e s off ∧ c + groupIncr e s off ≤ vaguVl v ∧
      ∀ j < groupIncr e s off, j * 2 ^ (l - e) < 16 / 2 ^ e - off := by
  have left := progress.left
  obtain ⟨pos,inside⟩ := groupRoom_bounds most wide (show 0 < 16 / 2 ^ e - off by omega)
  rw [← groupRoom_value most log stride] at pos inside
  rw [groupIncr_cases e off progress]
  split
  · exact ⟨pos,by omega,inside⟩
  · exact ⟨by omega,by omega,fun j before => inside j (by omega)⟩

theorem groupActive_iff (decoded : Taken v) (progress : Progress v c s) (mode : s.mode = .vlStrided) {n : Nat} (fits : c + n ≤ vaguVl v) :
    groupActive s n = true ↔ v.useMask = false ∨ ∃ i, c ≤ i ∧ i < c + n ∧ Active v i := by
  have most := vaguVl_le decoded.toDecoded
  unfold groupActive
  rw [progress.setup.masked,progress.cnt,progress.setup.vl,Bool.or_eq_true,decide_eq_true_eq]
  cases masked : v.useMask with
  | false => simp
  | true =>
    have bits : ∀ j, (s.mask >>> c &&& BitVec.ofNat 16 (2 ^ n - 1) &&& lowOnes (vaguVl v)).getLsbD j =
        (decide (j < n) && v.dataVm.getLsbD (c + j)) := by
      intro j
      rw [BitVec.getLsbD_and,BitVec.getLsbD_and,BitVec.getLsbD_ushiftRight,BitVec.getLsbD_ofNat,Nat.testBit_two_pow_sub_one,
        low_bit most]
      by_cases inside : j < n
      · rw [mask_bit decoded.toDecoded (mode_whole decoded progress.setup (by simp [mode])) progress.setup (.inl masked) (by omega)]
        simp [inside,show j < 16 by omega,show j < vaguVl v by omega]
      · simp [inside]
    simp only [Bool.not_true,Bool.false_eq_true,or_false,Bool.true_eq_false,false_or]
    constructor
    · intro some
      by_contra none
      refine some (BitVec.eq_of_getLsbD_eq ?_)
      intro j _
      rw [bits j,zero_bit,Bool.and_eq_false_iff,decide_eq_false_iff_not]
      by_cases inside : j < n
      · right
        rw [Bool.eq_false_iff]
        intro set
        exact none ⟨c + j,by omega,by omega,.inr set⟩
      · exact .inl inside
    · rintro ⟨i,after,before,live⟩ zero
      have bit := bits (i - c)
      rw [zero,zero_bit,show c + (i - c) = i by omega] at bit
      rcases live with plain | set
      · rw [masked] at plain
        cases plain
      · rw [set,decide_eq_true (show i - c < n by omega)] at bit
        cases bit

theorem group_shape (decoded : Taken v) (progress : Progress v c s) {p : Piece} {m : BitVec 16}
    (zero : s.acumVelemIncr = 0) (mode : s.mode = .vlStrided) (line : p.memSize = lineSize)
    (pos : 0 < p.velemIncr) (fits : c + p.velemIncr ≤ vaguVl v) (address : p.vaddrNext = elemAddr v (c + p.velemIncr))
    (plain : isIndexed v = false) (made : p.makeReq = true) (full : ones m = p.velemIncr)
    (loadMask : p.loadMask = if groupActive s p.velemIncr then m else 0) : Shape v c s p := by
  refine ⟨pos,fits,by rw [plain,address]; rfl,.inl ⟨made,.inl (by simp [nextAcum,mode,line,zero]),?_⟩⟩
  rw [loadMask]
  cases live : groupActive s p.velemIncr with
  | true =>
    left
    rw [if_pos rfl,full,zero,Nat.zero_add,Nat.min_self]
  | false =>
    right
    refine ⟨rfl,?_⟩
    intro _ i after before active
    have some := (groupActive_iff decoded progress mode fits).mpr (.inr ⟨i,after,before,active⟩)
    rw [live] at some
    cases some

theorem vlGroup_shape (decoded : Taken v) (progress : Progress v c s) (mode : s.mode = .vlStrided)
    (plain : isIndexed v = false) (stepped : step v = vaguStride v) (grouped : s.group = true)
    (wide : elemLog v.instr.memSize ≤ s.logStride) : Shape v c s (vlGroup (elemLog v.instr.memSize) s) := by
  obtain ⟨l,most,log,stride,up⟩ := progress.setup.group grouped
  have small := elemLog_le decoded.toDecoded
  have off := lineOff_lt _ small s.vaddr
  rw [log] at wide
  obtain ⟨pos,fits,inside⟩ := groupIncr_bounds progress most wide off log stride
  have zero : s.acumVelemIncr = 0 := progress.exact (by simp [lined,mode,grouped,progress.setup.instr,log,wide])
  refine group_shape decoded progress zero mode rfl pos fits ?_ plain rfl
    (m := spread (2 ^ (s.logStride - elemLog v.instr.memSize)) id (vlGroup (elemLog v.instr.memSize) s).velemIncr) ?_ rfl
  · rw [elemAddr_pow plain (stepped.trans up)]
    simp only [vlGroup,progress.vaddr,plain,Bool.false_eq_true,if_false,log]
  · rw [log]
    refine ones_spread ?_ ?_
    · intro j before
      have place := inside j before
      have line : 16 / 2 ^ elemLog v.instr.memSize ≤ 16 := Nat.div_le_self _ _
      simp only [id]
      omega
    · intro i _ j _ same
      exact Nat.eq_of_mul_eq_mul_right (Nat.two_pow_pos _) same

theorem vlGroup_reaches (decoded : Taken v) (progress : Progress v c s) (plain : isIndexed v = false)
    (stepped : step v = vaguStride v) (grouped : s.group = true) (wide : elemLog v.instr.memSize ≤ s.logStride)
    (aligned : misaligned (elemLog v.instr.memSize) s.vaddr = false) : Reaches v c (vlGroup (elemLog v.instr.memSize) s) := by
  intro i after before _
  obtain ⟨l,most,log,stride,up⟩ := progress.setup.group grouped
  have small := elemLog_le decoded.toDecoded
  have off := lineOff_lt _ small s.vaddr
  rw [log] at wide
  obtain ⟨_,_,inside⟩ := groupIncr_bounds progress most wide off log stride
  obtain ⟨j,rfl⟩ : ∃ j, i = c + j := ⟨i - c,by omega⟩
  have room := inside j (by change c + j < c + groupIncr _ s _ at before; omega)
  have here : elemAddr v c = s.vaddr := by simp [progress.vaddr,plain]
  have line : (vlGroup (elemLog v.instr.memSize) s).dataRs1 = lineAddr s.vaddr := by simp [vlGroup,aligned]
  have scaled : j * 2 ^ l = j * 2 ^ (l - elemLog v.instr.memSize) * 2 ^ elemLog v.instr.memSize := by
    rw [Nat.mul_assoc,← Nat.pow_add,Nat.sub_add_cancel wide]
  rw [elemAddr_pow plain (stepped.trans up),here,line,scaled]
  exact line_above (line_room small aligned room)

theorem vlGroupNeg_shape (decoded : Taken v) (progress : Progress v c s) (mode : s.mode = .vlStrided)
    (plain : isIndexed v = false) (stepped : step v = vaguStride v) (grouped : s.groupNeg = true)
    (wide : elemLog v.instr.memSize ≤ s.logStride) : Shape v c s (vlGroupNeg (elemLog v.instr.memSize) s) := by
  obtain ⟨l,most,log,stride,down⟩ := progress.setup.groupNeg grouped
  have small := elemLog_le decoded.toDecoded
  have off := lineOff_lt _ small s.vaddr
  rw [log] at wide
  obtain ⟨pos,fits,inside⟩ := groupIncr_bounds progress most wide
    (show 16 / 2 ^ elemLog v.instr.memSize - lineOff (elemLog v.instr.memSize) s.vaddr - 1 < 16 / 2 ^ elemLog v.instr.memSize by omega) log stride
  have zero : s.acumVelemIncr = 0 := progress.exact (by simp [lined,mode,grouped,progress.setup.instr,log,wide])
  refine group_shape decoded progress zero mode rfl pos fits ?_ plain rfl
    (m := spread (2 ^ (s.logStride - elemLog v.instr.memSize))
      (fun i => 16 / 2 ^ elemLog v.instr.memSize - 1 - i - (16 / 2 ^ elemLog v.instr.memSize - lineOff (elemLog v.instr.memSize) s.vaddr - 1))
      (vlGroupNeg (elemLog v.instr.memSize) s).velemIncr) ?_ rfl
  · rw [elemAddr_neg plain (stepped.trans down)]
    simp only [vlGroupNeg,progress.vaddr,plain,Bool.false_eq_true,if_false,log]
  · rw [log]
    have line : 16 / 2 ^ elemLog v.instr.memSize ≤ 16 := Nat.div_le_self _ _
    refine ones_spread ?_ ?_
    · intro j _
      omega
    · intro i before j after same
      have one := inside i before
      have two := inside j after
      exact Nat.eq_of_mul_eq_mul_right (Nat.two_pow_pos (l - elemLog v.instr.memSize)) (by omega)

theorem vlGroupNeg_reaches (decoded : Taken v) (progress : Progress v c s) (plain : isIndexed v = false)
    (stepped : step v = vaguStride v) (grouped : s.groupNeg = true) (wide : elemLog v.instr.memSize ≤ s.logStride)
    (aligned : misaligned (elemLog v.instr.memSize) s.vaddr = false) : Reaches v c (vlGroupNeg (elemLog v.instr.memSize) s) := by
  intro i after before _
  obtain ⟨l,most,log,stride,down⟩ := progress.setup.groupNeg grouped
  have small := elemLog_le decoded.toDecoded
  have off := lineOff_lt _ small s.vaddr
  rw [log] at wide
  obtain ⟨_,_,inside⟩ := groupIncr_bounds progress most wide
    (show 16 / 2 ^ elemLog v.instr.memSize - lineOff (elemLog v.instr.memSize) s.vaddr - 1 < 16 / 2 ^ elemLog v.instr.memSize by omega) log stride
  obtain ⟨j,rfl⟩ : ∃ j, i = c + j := ⟨i - c,by omega⟩
  have room := inside j (by change c + j < c + groupIncr _ s _ at before; omega)
  have here : elemAddr v c = s.vaddr := by simp [progress.vaddr,plain]
  have line : (vlGroupNeg (elemLog v.instr.memSize) s).dataRs1 = lineAddr s.vaddr := by simp [vlGroupNeg,aligned]
  have scaled : j * 2 ^ l = j * 2 ^ (l - elemLog v.instr.memSize) * 2 ^ elemLog v.instr.memSize := by
    rw [Nat.mul_assoc,← Nat.pow_add,Nat.sub_add_cancel wide]
  rw [elemAddr_neg plain (stepped.trans down),here,line,scaled]
  refine line_below ?_
  -- The places counted down from the offset stay in the line.
  have down : j * 2 ^ (l - elemLog v.instr.memSize) ≤ lineOff (elemLog v.instr.memSize) s.vaddr := by omega
  exact le_trans (Nat.mul_le_mul_right _ down) (Nat.div_mul_le_self _ _)

theorem vlSingle_reaches (plain : isIndexed v = false) (progress : Progress v c s) (e : Nat) : Reaches v c (vlSingle e s) := by
  intro i after before _
  have same : i = c := by change i < c + 1 at before; omega
  have here : elemAddr v i = s.vaddr := by simp [same,progress.vaddr,plain]
  change (elemAddr v i - s.vaddr).toNat < _
  rw [here,BitVec.sub_self]
  exact Nat.two_pow_pos _

theorem ones_single (n : Nat) : min (ones 1) (n + 1) = 1 := by
  have one : ones 1 = 1 := by decide
  rw [one]
  omega

theorem single_next (plain : isIndexed v = false) (stepped : step v = vaguStride v) (progress : Progress v c s) (e : Nat) :
    (vlSingle e s).vaddrNext = elemAddr v (c + 1) := by
  change (if s.negStride then s.vaddr - s.stride else s.vaddr + s.stride) = _
  rw [progress.setup.signed,elemAddr_add plain,stepped,progress.vaddr,plain]
  simp

theorem single_shape (progress : Progress v c s) {p : Piece} {live : Bool} (live_iff : live = true ↔ Active v c)
    (single : p.velemIncr = 1) (address : p.vaddrNext = if isIndexed v then v.instr.dataRs1 else elemAddr v (c + 1))
    (loadMask : p.loadMask = if live then 1 else 0) (made : live = true ∨ c + 1 = vaguVl v → p.makeReq = true)
    (counts : live = true → nextAcum s p = 0) (waits : p.makeReq = false → nextAcum s p = s.acumVelemIncr + 1)
    (asked : live = false → p.makeReq = true → nextAcum s p = 0 ∨ c + 1 = vaguVl v) : Shape v c s p := by
  have left := progress.left
  refine ⟨by omega,by omega,by rw [single]; exact address,?_⟩
  cases found : live with
  | true =>
    left
    refine ⟨made (.inl found),.inl (counts found),.inl ?_⟩
    rw [loadMask,found,single]
    exact ones_single _
  | false =>
    have idle : ¬ Active v c := fun active => by rw [live_iff.mpr active] at found; cases found
    cases request : p.makeReq with
    | true =>
      left
      refine ⟨rfl,by rw [single]; exact asked found request,.inr ⟨by rw [loadMask,found]; rfl,?_⟩⟩
      intro _ i after before active
      rw [single] at before
      rw [show i = c by omega] at active
      exact idle active
    | false =>
      right
      refine ⟨rfl,single,waits request,idle,?_⟩
      by_contra late
      have last := made (.inr (by omega))
      rw [request] at last
      cases last

theorem vlSingle_shape (decoded : Taken v) (progress : Progress v c s) (mode : s.mode = .vlStrided)
    (plain : isIndexed v = false) (stepped : step v = vaguStride v) :
    Shape v c s (vlSingle (elemLog v.instr.memSize) s) := by
  have left := progress.left
  have small := elemLog_le decoded.toDecoded
  have narrow : (vlSingle (elemLog v.instr.memSize) s).memSize ≠ lineSize := by
    change BitVec.ofNat 4 (elemLog v.instr.memSize) ≠ lineSize
    obtain e | e | e | e : elemLog v.instr.memSize = 0 ∨ elemLog v.instr.memSize = 1 ∨ elemLog v.instr.memSize = 2 ∨
      elemLog v.instr.memSize = 3 := by omega
    all_goals rw [e]; decide
  have counts : nextAcum s (vlSingle (elemLog v.instr.memSize) s) = if active s then 0 else s.acumVelemIncr + 1 := by
    unfold nextAcum
    rw [mode]
    simp only
    rw [if_neg narrow]
    rfl
  have made : (vlSingle (elemLog v.instr.memSize) s).makeReq = (active s || decide (vaguVl v ≤ c + 1)) := by
    simp only [vlSingle,progress.setup.vl,progress.cnt]
  refine single_shape progress (active_iff decoded progress (by simp [mode])) rfl ?_ rfl ?_ ?_ ?_ ?_
  · rw [plain,single_next plain stepped progress]
    rfl
  · rintro (live | last)
    · simp [made,live]
    · simp [made,last]
  · intro live
    simp [counts,live]
  · intro none
    rw [made,Bool.or_eq_false_iff] at none
    simp [counts,none.1]
  · intro idle request
    rw [made,idle,Bool.false_or,decide_eq_true_eq] at request
    exact .inr (by omega)

theorem vsStrided_shape (decoded : Taken v) (progress : Progress v c s) (mode : s.mode = .vsStrided)
    (plain : isIndexed v = false) (stepped : step v = vaguStride v) : Shape v c s (vsStrided (elemLog v.instr.memSize) s) := by
  have counts : nextAcum s (vsStrided (elemLog v.instr.memSize) s) = 0 := by
    simp only [nextAcum,mode,vsStrided,if_true]
  refine single_shape progress (active_iff decoded progress (by simp [mode])) rfl ?_ rfl (fun _ => rfl) (fun _ => counts) ?_ (fun _ _ => .inl counts)
  · rw [plain]
    exact single_next plain stepped progress (elemLog v.instr.memSize)
  · intro none
    cases none

theorem indexed_active (decoded : Taken v) (progress : Progress v c s) (indexes : isIndexed v = true) :
    s.mask.getLsbD c = true ↔ Active v c := by
  have most := vaguVl_le decoded.toDecoded
  have left := progress.left
  have whole : v.instr.instrType ∉ [.vl1r,.vs1r] := by
    simp only [isIndexed,decide_eq_true_eq,List.mem_cons,List.not_mem_nil,or_false] at indexes ⊢
    rcases indexes with kind | kind <;> simp [kind,vlxe]
  rw [mask_bit decoded.toDecoded whole progress.setup (.inr indexes) left]
  constructor
  · exact .inr
  · rintro (plain | set)
    · exact unmasked_active decoded.toDecoded c (by omega) plain
    · exact set

theorem vlIndexed_shape (decoded : Taken v) (progress : Progress v c s) (mode : s.mode = .vlIndexed)
    (indexes : isIndexed v = true) : Shape v c s (vlIndexed (elemLog v.instr.memSize) s) := by
  have left := progress.left
  have made : (vlIndexed (elemLog v.instr.memSize) s).makeReq = (s.mask.getLsbD c || decide (vaguVl v ≤ c + 1)) := by
    simp only [vlIndexed,progress.setup.vl,progress.cnt]
  have counts : nextAcum s (vlIndexed (elemLog v.instr.memSize) s) =
      if (vlIndexed (elemLog v.instr.memSize) s).makeReq then 0 else s.acumVelemIncr + 1 := by
    unfold nextAcum
    rw [mode]
    rfl
  refine single_shape progress (indexed_active decoded progress indexes) rfl ?_ ?_ ?_ ?_ ?_ ?_
  · rw [indexes]
    simp [vlIndexed,indexed,progress.vaddr,indexes]
  · simp only [vlIndexed,progress.cnt]
  · rintro (live | last)
    · simp [made,live]
    · simp [made,last]
  · intro live
    simp [counts,made,live]
  · intro none
    simp [counts,none]
  · intro _ request
    simp [counts,request]

theorem vsIndexed_shape (decoded : Taken v) (progress : Progress v c s) (mode : s.mode = .vsIndexed)
    (indexes : isIndexed v = true) : Shape v c s (indexed (elemLog v.instr.memSize) s) := by
  have counts : nextAcum s (indexed (elemLog v.instr.memSize) s) = 0 := by
    simp only [nextAcum,mode,indexed,if_true]
  refine single_shape progress (active_iff decoded progress (by simp [mode])) rfl ?_ rfl (fun _ => rfl) (fun _ => counts) ?_ (fun _ _ => .inl counts)
  · rw [indexes]
    simp [indexed,progress.vaddr,indexes]
  · intro none
    cases none

def Narrow (v : VectorInstr α) : Prop := isIndexed v = true → ∀ i < vaguVl v, Active v i →
  (elemAddr v i - (v.instr.dataRs1 + BitVec.ofNat 64 (indexAt (vaguIndex v) (min (elemLog v.instr.memSize) v.instr.sew.val) i))).toNat <
    2 ^ v.instr.sew.val

theorem indexed_bytes (progress : Progress v c s) (e : Nat) : bytesLog (indexed e s).memSize = v.instr.sew.val := by
  have small := v.instr.sew.isLt
  change bytesLog (BitVec.ofNat 4 s.vsew) = _
  rw [progress.setup.vsew]
  obtain w | w | w | w : v.instr.sew.val = 0 ∨ v.instr.sew.val = 1 ∨ v.instr.sew.val = 2 ∨ v.instr.sew.val = 3 := by omega
  all_goals rw [w]; rfl

theorem indexed_address (progress : Progress v c s) (indexes : isIndexed v = true) (e : Nat) :
    (indexed e s).dataRs1 = v.instr.dataRs1 + BitVec.ofNat 64 (indexAt (vaguIndex v) (min e v.instr.sew.val) c) := by
  change s.vaddr + BitVec.ofNat 64 (indexAt s.index (min e s.vsew) s.velemCnt) = _
  rw [progress.vaddr,indexes,if_pos rfl,progress.setup.index indexes,progress.setup.vsew,progress.cnt]

theorem indexed_reaches (narrow : Narrow v) (progress : Progress v c s) (indexes : isIndexed v = true) :
    Reaches v c (indexed (elemLog v.instr.memSize) s) := by
  intro i after before live
  have left := progress.left
  have same : i = c := by change i < c + 1 at before; omega
  rw [indexed_bytes progress,indexed_address progress indexes,same]
  exact narrow indexes c left (same ▸ live)

theorem piece_cases (decoded : Taken v) (setup : Setup v s) :
    (s.mode = .vlUnit ∧ isUnit v = true ∧ piece s = vlUnit (elemLog v.instr.memSize) s) ∨
    (s.mode = .vsUnit ∧ isUnit v = true ∧ v.useMask = false ∧ piece s = vsUnit (elemLog v.instr.memSize) s) ∨
    (s.mode = .vlStrided ∧ (isIndexed v = false ∧ step v = vaguStride v) ∧ piece s = vlStrided (elemLog v.instr.memSize) s) ∨
    (s.mode = .vsStrided ∧ (isIndexed v = false ∧ step v = vaguStride v) ∧ piece s = vsStrided (elemLog v.instr.memSize) s) ∨
    (s.mode = .vlIndexed ∧ isIndexed v = true ∧ piece s = vlIndexed (elemLog v.instr.memSize) s) ∨
    (s.mode = .vsIndexed ∧ isIndexed v = true ∧ piece s = indexed (elemLog v.instr.memSize) s) := by
  have mode := setup.mode
  simp only [piece,setup.instr]
  rcases mode_cases decoded with ⟨m,kind⟩ | ⟨m,kind,plain⟩ | ⟨m,kind⟩ | ⟨m,kind⟩ | ⟨m,kind⟩ | ⟨m,kind⟩ <;> rw [m] at mode <;> rw [mode]
  · have unit : isUnit v = true := by
      simp only [List.mem_cons,List.not_mem_nil,or_false] at kind
      simp only [isUnit,decide_eq_true_eq,List.mem_cons,List.not_mem_nil,or_false]
      rcases kind with kind | kind | kind <;> simp [kind]
    exact .inl ⟨rfl,unit,rfl⟩
  · have unit : isUnit v = true := by
      simp only [List.mem_cons,List.not_mem_nil,or_false] at kind
      simp only [isUnit,decide_eq_true_eq,List.mem_cons,List.not_mem_nil,or_false]
      rcases kind with kind | kind | kind <;> simp [kind]
    exact .inr (.inl ⟨rfl,unit,plain,rfl⟩)
  · exact .inr (.inr (.inl ⟨rfl,strided_step (.inl kind),rfl⟩))
  · exact .inr (.inr (.inr (.inl ⟨rfl,strided_step (.inr kind),rfl⟩)))
  · exact .inr (.inr (.inr (.inr (.inl ⟨rfl,by simp [isIndexed,kind],rfl⟩))))
  · exact .inr (.inr (.inr (.inr (.inr ⟨rfl,by simp [isIndexed,kind],rfl⟩))))

theorem vlStrided_cases (e : Nat) (s : State α) : (s.group = true ∧ e ≤ s.logStride ∧ vlStrided e s = vlGroup e s) ∨
    (s.groupNeg = true ∧ e ≤ s.logStride ∧ vlStrided e s = vlGroupNeg e s) ∨
    (((s.group || s.groupNeg) && decide (e ≤ s.logStride)) = false ∧ vlStrided e s = vlSingle e s) := by
  unfold vlStrided
  cases group : s.group <;> cases groupNeg : s.groupNeg <;> by_cases wide : e ≤ s.logStride <;> simp [wide]

theorem piece_shape (decoded : Taken v) (progress : Progress v c s) : Shape v c s (piece s) := by
  rcases piece_cases decoded progress.setup with ⟨mode,unit,here⟩ | ⟨mode,unit,_,here⟩ | ⟨mode,⟨plain,stepped⟩,here⟩ |
    ⟨mode,⟨plain,stepped⟩,here⟩ | ⟨mode,indexes,here⟩ | ⟨mode,indexes,here⟩ <;> rw [here]
  · exact vlUnit_shape decoded progress mode unit
  · exact vsUnit_shape decoded progress mode unit
  · rcases vlStrided_cases (elemLog v.instr.memSize) s with ⟨up,wide,same⟩ | ⟨down,wide,same⟩ | ⟨_,same⟩ <;> rw [same]
    · exact vlGroup_shape decoded progress mode plain stepped up wide
    · exact vlGroupNeg_shape decoded progress mode plain stepped down wide
    · exact vlSingle_shape decoded progress mode plain stepped
  · exact vsStrided_shape decoded progress mode plain stepped
  · exact vlIndexed_shape decoded progress mode indexes
  · exact vsIndexed_shape decoded progress mode indexes

theorem piece_reaches (decoded : Taken v) (narrow : Narrow v) (progress : Progress v c s) (aligned : (piece s).misalign = false) :
    Reaches v c (piece s) := by
  rcases piece_cases decoded progress.setup with ⟨_,unit,here⟩ | ⟨_,unit,_,here⟩ | ⟨_,⟨plain,stepped⟩,here⟩ |
    ⟨_,⟨plain,_⟩,here⟩ | ⟨_,indexes,here⟩ | ⟨_,indexes,here⟩ <;> rw [here] at aligned ⊢
  · exact vlUnit_reaches decoded progress unit aligned
  · exact vsUnit_reaches decoded progress unit
  · rcases vlStrided_cases (elemLog v.instr.memSize) s with ⟨up,wide,same⟩ | ⟨down,wide,same⟩ | ⟨_,same⟩ <;> rw [same] at aligned ⊢
    · exact vlGroup_reaches decoded progress plain stepped up wide aligned
    · exact vlGroupNeg_reaches decoded progress plain stepped down wide aligned
    · exact vlSingle_reaches plain progress _
  · exact vlSingle_reaches plain progress _
  · exact indexed_reaches narrow progress indexes
  · exact indexed_reaches narrow progress indexes

def Skewed (v : VectorInstr α) (i : Nat) : Prop :=
  isIndexed v = false ∧ misaligned (elemLog v.instr.memSize) (elemAddr v i) = true

instance (v : VectorInstr α) (i : Nat) : Decidable (Skewed v i) := inferInstanceAs (Decidable (_ ∧ _))

theorem piece_misalign (decoded : Taken v) (progress : Progress v c s) : (piece s).misalign = true ↔ Skewed v c := by
  have here : isIndexed v = false → s.vaddr = elemAddr v c := fun plain => by simp [progress.vaddr,plain]
  unfold Skewed
  rcases piece_cases decoded progress.setup with ⟨_,unit,same⟩ | ⟨_,unit,_,same⟩ | ⟨_,⟨plain,_⟩,same⟩ |
    ⟨_,⟨plain,_⟩,same⟩ | ⟨_,indexes,same⟩ | ⟨_,indexes,same⟩ <;> rw [same]
  · have plain := (unit_step unit).1
    rw [← here plain]
    simp [vlUnit,plain]
  · have plain := (unit_step unit).1
    rw [← here plain]
    simp [vsUnit,plain]
  · rw [← here plain]
    rcases vlStrided_cases (elemLog v.instr.memSize) s with ⟨_,_,same⟩ | ⟨_,_,same⟩ | ⟨_,same⟩ <;> rw [same] <;>
      simp [vlGroup,vlGroupNeg,vlSingle,plain]
  · rw [← here plain]
    simp [vsStrided,vlSingle,plain]
  · simp [vlIndexed,indexed,indexes]
  · simp [indexed,indexes]

theorem lined_makes (decoded : Taken v) (setup : Setup v s) (line : lined s = true) : (piece s).makeReq = true := by
  rcases piece_cases decoded setup with ⟨_,_,same⟩ | ⟨_,_,_,same⟩ | ⟨mode,_,same⟩ | ⟨mode,_⟩ | ⟨mode,_⟩ | ⟨mode,_⟩
  · rw [same]; rfl
  · rw [same]; rfl
  · rw [same]
    simp only [lined,mode,setup.instr] at line
    rcases vlStrided_cases (elemLog v.instr.memSize) s with ⟨_,_,group⟩ | ⟨_,_,group⟩ | ⟨single,_⟩
    · rw [group]; rfl
    · rw [group]; rfl
    · rw [single] at line
      cases line
  all_goals simp [lined,mode] at line

theorem single_piece (decoded : Taken v) (setup : Setup v s) (none : lined s = false) : (piece s).velemIncr = 1 := by
  rcases piece_cases decoded setup with ⟨mode,_⟩ | ⟨mode,_⟩ | ⟨mode,_,same⟩ | ⟨_,_,same⟩ | ⟨_,_,same⟩ | ⟨_,_,same⟩
  · simp [lined,mode] at none
  · simp [lined,mode] at none
  · rw [same]
    simp only [lined,mode,setup.instr] at none
    rcases vlStrided_cases (elemLog v.instr.memSize) s with ⟨up,wide,_⟩ | ⟨down,wide,_⟩ | ⟨_,single⟩
    · simp [up,wide] at none
    · simp [down,wide] at none
    · rw [single]; rfl
  all_goals rw [same]; rfl

theorem advance_ends (progress : Progress v c s) (fits : c + (piece s).velemIncr ≤ vaguVl v) :
    ends s (s.velemCnt + (piece s).velemIncr) = decide (c + (piece s).velemIncr = vaguVl v) := by
  unfold ends
  rw [progress.cnt,progress.setup.vl]
  split
  · exact decide_eq_decide.mpr ⟨fun late => by omega,fun same => by omega⟩
  · rfl

theorem advance_progress (decoded : Taken v) (progress : Progress v c s) (aligned : ¬ Skewed v c)
    (more : c + (piece s).velemIncr < vaguVl v) : Progress v (c + (piece s).velemIncr) (advance s false) := by
  have shape := piece_shape decoded progress
  have straight : (piece s).misalign = false := by
    rw [Bool.eq_false_iff]
    exact fun skew => aligned ((piece_misalign decoded progress).mp skew)
  have stays : (advance s false).mode = s.mode := by
    simp only [advance,advance_ends progress shape.fits,straight]
    simp [Nat.ne_of_lt more]
  have setup := progress.setup
  refine ⟨⟨stays.trans setup.mode,setup.vl,setup.instr,setup.vsew,setup.masked,setup.mask,setup.index,setup.signed,setup.group,
    setup.groupNeg,setup.up,setup.down⟩,?_,more,?_,?_,?_⟩
  · change s.velemCnt + _ = _
    rw [progress.cnt]
  · exact shape.address
  · change nextAcum s (piece s) ≤ _
    have before := progress.acum
    rcases shape.kind with ⟨_,zero | last,_⟩ | ⟨_,single,counts,_⟩ <;> omega
  · intro line
    change nextAcum s (piece s) = 0
    have same : lined s = true := by
      unfold lined at line ⊢
      rw [stays] at line
      exact line
    have zero := progress.exact same
    rcases shape.kind with ⟨_,done | last,_⟩ | ⟨none,_,_,_⟩
    · exact done
    · omega
    · rw [lined_makes decoded setup same] at none
      cases none

end Sargantana.VaguPieces
