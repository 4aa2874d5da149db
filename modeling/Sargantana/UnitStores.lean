import Sargantana.VaguCoverage
import Sargantana.Lib.Packed

-- Unit-stride stores of vagu, cut into aligned accesses.
namespace Sargantana.UnitStores
open DracPkg Vagu VaguPieces VaguCoverage StateMachine Sargantana.Packed

variable {α : Type}

def length (v : VectorInstr α) : Nat := vaguVl v * 2 ^ elemLog v.instr.memSize

-- The place of an address after the base
def place (v : VectorInstr α) (a : BitVec 64) : Nat := (a - v.instr.dataRs1).toNat

structure Splits (v : VectorInstr α) (requests : List (Output α)) : Prop where
  aligned : ∀ r ∈ requests, r.instr.dataRs1.toNat % 2 ^ bytesLog r.instr.memSize = 0
  apart : requests.Pairwise fun r r' => ∀ a, Contains r a → ¬ Contains r' a
  covers : ∀ a, (∃ r ∈ requests, Contains r a) ↔ place v a < length v
  data : ∀ r ∈ requests, ∀ j < 2 ^ bytesLog r.instr.memSize,
    element 8 j r.dataRs2 = (element 8 (place v (r.instr.dataRs1 + BitVec.ofNat 64 j)) v.dataVs2 : BitVec 8)

-- What the decoder promises of an unmasked store with an aligned base: vl is at most
-- VMAXELEM >> width for VSE, and nothing is asked of the others.
structure Store (v : VectorInstr α) : Prop where
  kind : v.instr.instrType ∈ [.vse,.vsm,.vs1r]
  unmasked : v.useMask = false
  fits : v.instr.instrType = .vse → v.instr.vl.val ≤ 16 / 2 ^ elemLog v.instr.memSize
  aligned : misaligned (elemLog v.instr.memSize) v.instr.dataRs1 = false
  decoded : 0 < v.instr.vl.val → Decoded v

variable {v : VectorInstr α} {s : State α} {c : Nat}

structure Chunk (v : VectorInstr α) (c n : Nat) (r : Output α) : Prop where
  base : r.instr.dataRs1 = v.instr.dataRs1 + BitVec.ofNat 64 (c * 2 ^ elemLog v.instr.memSize)
  bytes : 2 ^ bytesLog r.instr.memSize = n * 2 ^ elemLog v.instr.memSize
  aligned : r.instr.dataRs1.toNat % 2 ^ bytesLog r.instr.memSize = 0
  data : r.dataRs2 = v.dataVs2 >>> (c * (8 * 2 ^ elemLog v.instr.memSize))

theorem Store.unit (store : Store v) : isUnit v = true := by
  have kind := store.kind
  simp only [isUnit,decide_eq_true_eq,List.mem_cons,List.not_mem_nil,or_false] at kind ⊢
  rcases kind with kind | kind | kind
  · simp [kind]
  · simp [kind]
  · simp [kind]

theorem Store.taken (store : Store v) (some : 0 < v.instr.vl.val) : Taken v := by
  refine ⟨store.decoded some,fun masked => ?_⟩
  rw [store.unmasked] at masked
  cases masked

theorem Store.room (store : Store v) (decoded : Decoded v) : length v ≤ 16 := by
  have kind := store.kind
  have small := elemLog_le decoded
  have register : v.instr.vl.val ≤ 16 := le_trans (Nat.le_mul_of_pos_right _ (Nat.two_pow_pos _)) decoded.register
  have whole := Nat.div_mul_le_self 16 (2 ^ elemLog v.instr.memSize)
  have most : vaguVl v ≤ 16 / 2 ^ elemLog v.instr.memSize := by
    simp only [List.mem_cons,List.not_mem_nil,or_false] at kind
    rcases kind with kind | kind | kind
    · simpa [vaguVl,kind] using store.fits kind
    · have two : 2 ≤ 16 / 2 ^ elemLog v.instr.memSize := by
        obtain e | e | e | e : elemLog v.instr.memSize = 0 ∨ elemLog v.instr.memSize = 1 ∨
          elemLog v.instr.memSize = 2 ∨ elemLog v.instr.memSize = 3 := by omega
        all_goals rw [e]; decide
      simp only [vaguVl,kind,List.mem_cons,List.not_mem_nil,or_false,or_true,if_true]
      omega
    · simp [vaguVl,kind]
  exact le_trans (Nat.mul_le_mul_right _ most) whole

theorem Store.mode (store : Store v) (decoded : Decoded v) : startMode (wired v false false) = .vsUnit := by
  have kind := store.kind
  have some : (v.instr.vl != 0) = true := by
    have positive := decoded.some
    simp only [bne_iff_ne,ne_eq,Fin.ext_iff]
    exact Nat.ne_of_gt positive
  simp only [List.mem_cons,List.not_mem_nil,or_false] at kind
  simp only [startMode,wired,decoded.valid,some,store.unmasked]
  rcases kind with kind | kind | kind <;> simp [kind,vle]

theorem Chunk.contains {n : Nat} {r : Output α} (chunk : Chunk v c n r)
    (room : (c + n) * 2 ^ elemLog v.instr.memSize ≤ 16) (a : BitVec 64) :
    Contains r a ↔ c * 2 ^ elemLog v.instr.memSize ≤ place v a ∧ place v a < (c + n) * 2 ^ elemLog v.instr.memSize := by
  unfold Contains place
  rw [chunk.bytes,chunk.base]
  rw [Nat.add_mul] at room ⊢
  generalize c * 2 ^ elemLog v.instr.memSize = before at room ⊢
  generalize n * 2 ^ elemLog v.instr.memSize = size at room ⊢
  rw [BitVec.toNat_sub,BitVec.toNat_sub,BitVec.toNat_add,BitVec.toNat_ofNat]
  have high := a.isLt
  have low := v.instr.dataRs1.isLt
  omega

theorem element_shift {n k j place : Nat} (x : BitVec n) (here : k + j * 8 = place * 8) :
    element 8 j (x >>> k) = (element 8 place x : BitVec 8) := by
  refine BitVec.eq_of_getLsbD_eq fun i below => ?_
  rw [element_bit,element_bit,BitVec.getLsbD_ushiftRight,← Nat.add_assoc,here]

theorem Chunk.byte {n j : Nat} {r : Output α} (chunk : Chunk v c n r)
    (room : (c + n) * 2 ^ elemLog v.instr.memSize ≤ 16) (inside : j < 2 ^ bytesLog r.instr.memSize) :
    element 8 j r.dataRs2 = (element 8 (place v (r.instr.dataRs1 + BitVec.ofNat 64 j)) v.dataVs2 : BitVec 8) := by
  rw [chunk.bytes] at inside
  rw [Nat.add_mul] at room
  have here : place v (r.instr.dataRs1 + BitVec.ofNat 64 j) = c * 2 ^ elemLog v.instr.memSize + j := by
    unfold place
    rw [chunk.base,BitVec.toNat_sub,BitVec.toNat_add,BitVec.toNat_add,BitVec.toNat_ofNat,BitVec.toNat_ofNat]
    have low := v.instr.dataRs1.isLt
    omega
  have bits : c * (8 * 2 ^ elemLog v.instr.memSize) = c * 2 ^ elemLog v.instr.memSize * 8 := by
    rw [Nat.mul_comm 8,← Nat.mul_assoc]
  rw [here,chunk.data,bits]
  exact element_shift _ (by omega)

-- The next access, of the greatest size that is aligned and fits in what is left
theorem chunk_of_progress (store : Store v) (decoded : Taken v) (progress : Progress v c s) (buffer : s.vstoreBuffer = v.dataVs2) :
    Chunk v c (piece s).velemIncr (request s) := by
  have mode := progress.setup.mode.trans (store.mode decoded.toDecoded)
  have instr := progress.setup.instr
  have small := elemLog_le decoded.toDecoded
  have left := progress.left
  obtain ⟨plain,pow⟩ := unit_step store.unit
  obtain ⟨above,below,fits⟩ := vsUnit_width decoded progress
  have same : piece s = vsUnit (elemLog v.instr.memSize) s := by simp [piece,mode,instr]
  have address : s.vaddr = v.instr.dataRs1 + BitVec.ofNat 64 (c * 2 ^ elemLog v.instr.memSize) := by
    rw [progress.vaddr,plain]
    have moved := elemAddr_pow plain pow 0 c
    rw [Nat.zero_add] at moved
    simpa [elemAddr,plain] using moved
  have width : bytesLog (request s).instr.memSize = storeWidth (elemLog v.instr.memSize) s 4 :=
    (congrArg (fun p => bytesLog p.memSize) same).trans (sizeCode_bytes below)
  refine ⟨(congrArg Piece.dataRs1 same).trans address,?_,?_,?_⟩
  · rw [width,same]
    change _ = 2 ^ (storeWidth _ s 4 - _) * _
    rw [← Nat.pow_add,Nat.sub_add_cancel above]
  · rw [width]
    change (piece s).dataRs1.toNat % _ = 0
    rw [same]
    change s.vaddr.toNat % _ = 0
    rcases storeWidth_spec (elemLog v.instr.memSize) s 4 with least | ⟨_,_,_,aligned⟩
    · rw [least,address]
      have base := store.aligned
      rw [← (multiple_skew (k := c) small).1] at base
      simpa [misaligned] using base
    · exact aligned
  · have room := store.room decoded.toDecoded
    have row : c < 16 / 2 ^ elemLog v.instr.memSize := by
      rw [Nat.lt_div_iff_mul_lt (Nat.two_pow_pos _)]
      have more : (c + 1) * 2 ^ elemLog v.instr.memSize ≤ length v := Nat.mul_le_mul_right _ left
      have positive := Nat.two_pow_pos (elemLog v.instr.memSize)
      rw [Nat.add_mul] at more
      omega
    have shift : storeShift s = c * (8 * 2 ^ elemLog v.instr.memSize) := by
      simp only [storeShift,mode,instr,progress.cnt]
      rw [Nat.mod_eq_of_lt row]
    simp [request,mode,buffer,shift]

structure Rest (v : VectorInstr α) (c : Nat) (requests : List (Output α)) : Prop where
  aligned : ∀ r ∈ requests, r.instr.dataRs1.toNat % 2 ^ bytesLog r.instr.memSize = 0
  apart : requests.Pairwise fun r r' => ∀ a, Contains r a → ¬ Contains r' a
  covers : ∀ a, (∃ r ∈ requests, Contains r a) ↔ c * 2 ^ elemLog v.instr.memSize ≤ place v a ∧ place v a < length v
  data : ∀ r ∈ requests, ∀ j < 2 ^ bytesLog r.instr.memSize,
    element 8 j r.dataRs2 = (element 8 (place v (r.instr.dataRs1 + BitVec.ofNat 64 j)) v.dataVs2 : BitVec 8)

theorem rest_nil : Rest v (vaguVl v) [] := by
  refine ⟨by simp,List.Pairwise.nil,fun a => ?_,by simp⟩
  simp only [List.not_mem_nil,false_and,exists_false,false_iff,length]
  omega

theorem rest_cons {n : Nat} {r : Output α} {requests : List (Output α)} (chunk : Chunk v c n r) (fits : c + n ≤ vaguVl v)
    (room : length v ≤ 16) (rest : Rest v (c + n) requests) : Rest v c (r :: requests) := by
  have bytes : (c + n) * 2 ^ elemLog v.instr.memSize ≤ length v := Nat.mul_le_mul_right _ fits
  have within : (c + n) * 2 ^ elemLog v.instr.memSize ≤ 16 := le_trans bytes room
  have lower : c * 2 ^ elemLog v.instr.memSize ≤ (c + n) * 2 ^ elemLog v.instr.memSize :=
    Nat.mul_le_mul_right _ (Nat.le_add_right c n)
  refine ⟨?_,List.pairwise_cons.mpr ⟨?_,rest.apart⟩,?_,?_⟩
  · rintro r' inside
    rcases List.mem_cons.mp inside with rfl | later
    · exact chunk.aligned
    · exact rest.aligned r' later
  · intro r' later a first second
    have before := ((chunk.contains within a).mp first).2
    have after := ((rest.covers a).mp ⟨r',later,second⟩).1
    omega
  · intro a
    have here := chunk.contains within a
    have others := rest.covers a
    constructor
    · rintro ⟨r',inside,contains⟩
      rcases List.mem_cons.mp inside with rfl | later
      · obtain ⟨after,before⟩ := here.mp contains
        exact ⟨after,by omega⟩
      · obtain ⟨after,before⟩ := others.mp ⟨r',later,contains⟩
        exact ⟨by omega,before⟩
    · rintro ⟨after,before⟩
      by_cases near : place v a < (c + n) * 2 ^ elemLog v.instr.memSize
      · exact ⟨r,List.mem_cons_self,here.mpr ⟨after,near⟩⟩
      · obtain ⟨r',later,contains⟩ := others.mpr ⟨by omega,before⟩
        exact ⟨r',List.mem_cons_of_mem _ later,contains⟩
  · rintro r' inside j byte
    rcases List.mem_cons.mp inside with rfl | later
    · exact chunk.byte within byte
    · exact rest.data r' later j byte

theorem Store.unskewed (store : Store v) (decoded : Decoded v) (i : Nat) : ¬ Skewed v i := by
  intro skew
  obtain ⟨plain,pow⟩ := unit_step store.unit
  have straight := skew_step decoded plain (Nat.le_refl _) (.inl pow) i
  have base : elemAddr v 0 = v.instr.dataRs1 := by simp [elemAddr,plain]
  rw [skew.2,base,store.aligned] at straight
  cases straight

-- The induction is on the elements that are left.
theorem store_plan (store : Store v) (decoded : Taken v) {fuel : Nat} (progress : Progress v c s)
    (buffer : s.vstoreBuffer = v.dataVs2) (enough : vaguVl v ≤ c + fuel) : Rest v c (plan fuel s) := by
  induction fuel generalizing c s with
  | zero =>
    have left := progress.left
    omega
  | succ fuel ih =>
    have shape := piece_shape decoded progress
    have fits := shape.fits
    have pos := shape.pos
    have mode := progress.setup.mode.trans (store.mode decoded.toDecoded)
    have made := lined_makes decoded progress.setup (by simp [lined,mode])
    have list : emitted s = [request s] := by
      rcases emitted_cases decoded progress with ⟨_,list⟩ | ⟨none,_⟩
      · exact list
      · rw [none] at made
        cases made
    rw [plan_step decoded progress,list,List.singleton_append]
    refine rest_cons (chunk_of_progress store decoded progress buffer) fits (store.room decoded.toDecoded) ?_
    by_cases last : c + (piece s).velemIncr = vaguVl v
    · rw [plan_scalar (advance_done decoded progress (.inl last)),last]
      exact rest_nil
    · exact ih (advance_progress decoded progress (store.unskewed decoded.toDecoded c) (by omega)) buffer (by omega)

variable {feed : Nat → VectorInstr α × Bool}

theorem accept_buffer (idle : s.mode = .scalar) (accepted : feed 0 = (v,false)) :
    (trace (machine s) feed 1).vstoreBuffer = v.dataVs2 := by
  change (next s (fed s (feed 0).1 false (feed 0).2)).vstoreBuffer = v.dataVs2
  rw [accepted,fed_scalar idle]
  simp [next,idle,wired]

theorem splits_empty : Splits v [] ↔ length v = 0 := by
  constructor
  · intro splits
    by_contra some
    have base := (splits.covers v.instr.dataRs1).mpr (by simp only [place,BitVec.sub_self]; exact Nat.pos_of_ne_zero some)
    simp at base
  · intro none
    refine ⟨by simp,List.Pairwise.nil,fun a => ?_,by simp⟩
    rw [none]
    simp

theorem length_zero (store : Store v) (empty : v.instr.vl.val = 0) : length v = 0 ↔ v.instr.instrType ≠ .vs1r := by
  have kind := store.kind
  have small : elemLog v.instr.memSize < 4 := Nat.mod_lt _ (by decide)
  simp only [List.mem_cons,List.not_mem_nil,or_false] at kind
  rcases kind with kind | kind | kind
  · simp [length,vaguVl,kind,empty]
  · simp [length,vaguVl,kind,empty]
  · obtain e | e | e | e : elemLog v.instr.memSize = 0 ∨ elemLog v.instr.memSize = 1 ∨
      elemLog v.instr.memSize = 2 ∨ elemLog v.instr.memSize = 3 := by omega
    all_goals simp [length,vaguVl,kind,e]

-- The accesses of an unmasked unit-stride, mask or whole-register store are aligned, do not
-- overlap, cover its bytes and carry those of the register, except for a whole register when
-- vl is zero: vagu asks for vl to be other than zero, and makes none. The unit becomes free
-- again in each case. Stalls do not matter.
theorem unit_store_splits (store : Store v) (idle : s.mode = .scalar) (accepted : feed 0 = (v,false)) :
    (∀ t, Returns s feed t →
        (Splits v (requests s feed t) ↔ ¬ (v.instr.instrType = .vs1r ∧ v.instr.vl.val = 0))) ∧
      ((∀ t, ∃ u, t ≤ u ∧ (feed u).2 = false) → ∃ t, Returns s feed t) := by
  rcases Nat.eq_zero_or_pos v.instr.vl.val with empty | some
  · have kind := store.kind
    have vector : isVector v.instr.instrType = true := by
      simp only [isVector,decide_eq_true_eq,List.mem_cons,List.not_mem_nil,or_false] at kind ⊢
      rcases kind with kind | kind | kind
      · simp [kind]
      · simp [kind]
      · simp [kind]
    obtain ⟨ended,none⟩ := empty_over vector empty idle accepted
    refine ⟨fun t returns => ?_,fun _ => ⟨1,over_returns ended⟩⟩
    rw [returns_once returns ended,none,splits_empty,length_zero store empty]
    simp [empty]
  · have taken := store.taken some
    have progress := (accept_awaits taken idle accepted).1
    refine ⟨fun t returns => ?_,comes_back taken idle accepted⟩
    rw [returned_plan taken idle accepted returns]
    have rest := store_plan store taken progress (accept_buffer idle accepted) (show vaguVl v ≤ 0 + vaguVl v by omega)
    refine iff_of_true ⟨rest.aligned,rest.apart,fun a => ?_,rest.data⟩ (by omega)
    rw [rest.covers a]
    simp

def stored (t : InstrType) (base : BitVec 64) (n : Fin 32) : VectorInstr Unit :=
  { halfwords t base 0 none with instr := { (halfwords t base 0 none).instr with vl := n } }

def storing (_ : Nat) : VectorInstr Unit × Bool := (stored .vse 0x1006 4,false)

theorem stored_store : Store (stored .vse 0x1006 4) :=
  ⟨by decide,rfl,fun _ => by decide,by decide,fun _ => ⟨rfl,rfl,by decide,by decide,by decide,fun _ => rfl⟩⟩

theorem unit_store_splits_sample : ∃ t, Returns start storing t ∧
    Splits (stored .vse 0x1006 4) (requests start storing t) := by
  obtain ⟨splits,returns⟩ := unit_store_splits stored_store (show start.mode = .scalar from rfl)
    (show storing 0 = _ from rfl)
  obtain ⟨t,back⟩ := returns fun t => ⟨t,Nat.le_refl t,rfl⟩
  exact ⟨t,back,(splits t back).mpr (by decide)⟩

-- A whole register, with vl zero
theorem register_store_unsplit : ¬ ∀ (v : VectorInstr Unit) (s : State Unit) (feed : Nat → VectorInstr Unit × Bool) (t : Nat),
    Store v → s.mode = .scalar → feed 0 = (v,false) → Returns s feed t → Splits v (requests s feed t) := by
  intro every
  have store : Store (stored .vs1r 0x1000 0) :=
    ⟨by decide,rfl,(fun kind => by cases kind),by decide,fun some => absurd some (by decide)⟩
  have ended : Returns start (fun _ => (stored .vs1r 0x1000 0,false)) 1 := over_returns rfl
  have splits := every _ start (fun _ => (stored .vs1r 0x1000 0,false)) 1 store rfl rfl ended
  obtain ⟨r,inside,_⟩ := (splits.covers 0x1000).mpr (by decide)
  cases inside

end Sargantana.UnitStores
