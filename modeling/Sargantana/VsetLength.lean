import Sargantana.VsetAgreement

-- The vl of a vset against the AVL and the VLMAX of its configuration, over every run of the vset queue.
namespace Sargantana.VsetLength

open VsetQueue Window StateMachine
open VsetAgreement (moduleEntry_vl moduleEntry_supported chooseVl_chosen chooseVl_le vlmax_bounds)

-- One cycle of the queue with a vset that the decoder writes; the other inputs are free.
structure Step where
  vset : Option Vset
  commited : Bool
  recoverLastCommitted : Bool
  recoverLastMisspredict : Bool
  indexMisspredict : Fin 8

def queueInput (s : State) (i : Step) : VsetQueue.Input where
  commited := i.commited
  newVset := i.vset.isSome
  recoverLastCommitted := i.recoverLastCommitted
  recoverLastMisspredict := i.recoverLastMisspredict
  indexMisspredict := i.indexMisspredict
  entry := (i.vset.map (moduleEntry (youngest s).vl)).getD resetEntry

def machine : Machine State Step where
  initial := reset
  allowed _ _ := True
  step s i := VsetQueue.next s (queueInput s i)

-- The configuration that a vset asks for, in all its bits
def config (v : Vset) : BitVec 64 := if v.kind = .vsetvl then v.rs2Data else (v.imm.setWidth 11).setWidth 64

def elementBits (w : BitVec 64) : Nat := 8 * 2 ^ (w.extractLsb' 3 3).toNat

-- LMUL as numerator and denominator
def lmul (w : BitVec 64) : Nat × Nat :=
  match (w.extractLsb' 0 3).toNat with
  | 5 => (1,8)
  | 6 => (1,4)
  | 7 => (1,2)
  | m => (2 ^ m,1)

-- VLEN times LMUL over SEW
def vlmaxOf (w : BitVec 64) : Nat := 128 * (lmul w).1 / (elementBits w * (lmul w).2)

-- No reserved bit, a SEW of at most 64 bits, an LMUL of one or a fraction, and SEW within LMUL times ELEN
def legal (w : BitVec 64) : Bool :=
  decide (w >>> 8 = 0) && decide ((w.extractLsb' 3 3).toNat < 4) &&
    (decide ((w.extractLsb' 0 3).toNat = 0) || decide (5 ≤ (w.extractLsb' 0 3).toNat)) &&
    decide (elementBits w * (lmul w).2 ≤ 64 * (lmul w).1)

structure Ruled (previous : BitVec 5) (v : Vset) (e : Entry) : Prop where
  illegal : legal (config v) = false → e.vtype.getLsbD 8 = true ∧ e.vl = 0
  vtype : legal (config v) = true → e.vtype = ((config v).setWidth 8).setWidth 9
  short : legal (config v) = true → v.max = false → v.avl ≤ vlmaxOf (config v) → e.vl.toNat = v.avl
  middle : legal (config v) = true → v.max = false → v.avl < 2 * vlmaxOf (config v) →
    (v.avl + 1) / 2 ≤ e.vl.toNat ∧ e.vl.toNat ≤ vlmaxOf (config v)
  long : legal (config v) = true → v.max = false → 2 * vlmaxOf (config v) ≤ v.avl → e.vl.toNat = vlmaxOf (config v)
  whole : legal (config v) = true → v.max = true → v.keep = false → e.vl.toNat = vlmaxOf (config v)
  kept : legal (config v) = true → v.keep = true → e.vl = previous

-- A legal entry has a vl within its own VLMAX.
def Bounded (e : Entry) : Prop := e.vtype.getLsbD 8 = false → e.vl.toNat ≤ vlmaxOf (e.vtype.setWidth 64)

def live (s : State) (k : Fin 8) : Prop := age s.lastCommitted k < s.num.val

def writes (s : State) (i : Step) : Bool := i.vset.isSome && decide (s.num.val < 8)

-- The form that keeps vl is written with a VLMAX below the vl that it keeps.
def grows (s : State) (i : Step) : Bool :=
  match i.vset with
  | none => false
  | some v => writes s i && v.keep && legal (config v) && decide (vlmaxOf (config v) < (youngest s).vl.toNat)

-- The configurations are few enough to be gone through.
theorem low_configurations (low : BitVec 11) : unsupported low = !legal (low.setWidth 64) ∧
    (unsupported low = false → vlmax low = vlmaxOf (low.setWidth 64) ∧
      ((low.setWidth 8).setWidth 9).getLsbD 8 = false ∧ ((low.setWidth 8).setWidth 9).setWidth 64 = low.setWidth 64) := by
  revert low
  decide +kernel

theorem flag_unsupported (low : BitVec 8) : unsupported (((BitVec.ofBool true ++ low).setWidth 12).setWidth 11) = true := by
  revert low
  decide

theorem high_small {data : BitVec 64} (clear : data >>> 8 = 0) : data.toNat < 256 := by
  have value := congrArg BitVec.toNat clear
  rw [BitVec.toNat_ushiftRight,Nat.shiftRight_eq_div_pow] at value
  have zero : (0 : BitVec 64).toNat = 0 := rfl
  omega

-- The decoder's twelve bits stand for the whole configuration: the bits above the eighth only count as a flag.
theorem config_low {v : Vset} (clear : v.kind = .vsetvl → v.rs2Data >>> 8 = 0) : config v = (v.vtype.setWidth 11).setWidth 64 := by
  by_cases register : v.kind = .vsetvl
  · simp only [config,Vset.vtype,if_pos register]
    rw [decide_eq_false (not_not_intro (clear register))]
    have small := high_small (clear register)
    apply BitVec.eq_of_toNat_eq
    simp only [BitVec.toNat_setWidth,BitVec.toNat_append,BitVec.ofBool_false]
    have flag : BitVec.toNat (0 : BitVec 1) = 0 := rfl
    rw [flag,Nat.zero_shiftLeft,Nat.zero_or]
    omega
  · simp only [config,Vset.vtype,if_neg register]

theorem config_legal (v : Vset) : unsupported (v.vtype.setWidth 11) = !legal (config v) := by
  by_cases clear : v.kind = .vsetvl → v.rs2Data >>> 8 = 0
  · rw [config_low clear,(low_configurations _).1]
  · obtain ⟨register,high⟩ := Classical.not_imp.mp clear
    have flagged : unsupported (v.vtype.setWidth 11) = true := by
      simp only [Vset.vtype,if_pos register]
      rw [decide_eq_true high,flag_unsupported]
    have illegal : legal (config v) = false := by
      simp only [config,if_pos register,legal]
      rw [decide_eq_false high]
      simp only [Bool.false_and]
    rw [flagged,illegal]
    rfl

theorem legal_low {v : Vset} (allowed : legal (config v) = true) : config v = (v.vtype.setWidth 11).setWidth 64 := by
  refine config_low fun register => ?_
  by_contra high
  simp only [config,if_pos register,legal,decide_eq_false high,Bool.false_and] at allowed
  cases allowed

theorem legal_supported {v : Vset} (allowed : legal (config v) = true) : unsupported (v.vtype.setWidth 11) = false := by
  rw [config_legal,allowed]
  rfl

theorem legal_vlmax {v : Vset} (allowed : legal (config v) = true) : vlmax (v.vtype.setWidth 11) = vlmaxOf (config v) := by
  rw [legal_low allowed,((low_configurations _).2 (legal_supported allowed)).1]

theorem legal_vl {v : Vset} (vl : BitVec 5) (allowed : legal (config v) = true) :
    (moduleEntry vl v).vl.toNat = chooseVl v.max (vlmaxOf (config v)) v.avl vl.toNat := by
  rw [moduleEntry_vl,moduleVl,legal_supported allowed,legal_vlmax allowed]
  rfl

theorem chooseVl_middle (vlmax avl vl : Nat) (less : avl < 2 * vlmax) : (avl + 1) / 2 ≤ chooseVl false vlmax avl vl := by
  simp only [chooseVl,Bool.false_eq_true,if_false]
  split
  · omega
  · rw [if_pos (by omega)]
    omega

theorem chooseVl_long (vlmax avl vl : Nat) (long : 2 * vlmax ≤ avl) (some : 0 < vlmax) : chooseVl false vlmax avl vl = vlmax := by
  simp only [chooseVl,Bool.false_eq_true,if_false]
  rw [if_neg (by omega)]
  split <;> omega

theorem keep_max {v : Vset} (keep : v.keep = true) : v.max = true := by
  rw [Vset.keep,Bool.and_eq_true] at keep
  exact keep.1

-- The form that asks for VLMAX reads x0 as its AVL.
theorem whole_avl {v : Vset} (max : v.max = true) (other : v.keep = false) : v.avl = 0 := by
  have kinds : v.kind ≠ .vsetivli ∧ v.rs1 = 0 := by simpa [Vset.max] using max
  simp [Vset.avl,other,kinds.1,Vset.rs1Value,kinds.2]

theorem module_ruled (vl : BitVec 5) (v : Vset) : Ruled vl v (moduleEntry vl v) := by
  have bounds : legal (config v) = true → 2 ≤ vlmaxOf (config v) := by
    intro allowed
    rw [← legal_vlmax allowed]
    exact (vlmax_bounds (legal_supported allowed)).1
  refine ⟨?_,?_,?_,?_,?_,?_,?_⟩
  · intro illegal
    have marked : unsupported (v.vtype.setWidth 11) = true := by
      rw [config_legal,illegal]
      rfl
    refine ⟨?_,?_⟩
    · simp only [moduleEntry,marked,if_true]
      decide
    · simp only [moduleEntry,moduleVl,marked,if_true]
      rfl
  · intro allowed
    have narrow : ((v.vtype.setWidth 11).setWidth 64).setWidth 8 = (v.vtype.setWidth 11).setWidth 8 :=
      BitVec.setWidth_setWidth_of_le _ (by decide)
    rw [moduleEntry_supported vl (legal_supported allowed),legal_low allowed,narrow]
  · intro allowed new short
    rw [legal_vl vl allowed,new,chooseVl_chosen _ _ _ short]
  · intro allowed new middle
    rw [legal_vl vl allowed,new]
    exact ⟨chooseVl_middle _ _ _ middle,chooseVl_le _ _ _⟩
  · intro allowed new long
    rw [legal_vl vl allowed,new,chooseVl_long _ _ _ long (by have := bounds allowed; omega)]
  · intro allowed max other
    rw [legal_vl vl allowed,max,whole_avl max other]
    rfl
  · intro allowed keep
    apply BitVec.eq_of_toNat_eq
    rw [legal_vl vl allowed,keep_max keep,Vset.avl,if_pos keep]
    rfl

-- Only the form that keeps vl leaves one beyond the VLMAX of its configuration.
theorem module_bounded (vl : BitVec 5) (v : Vset)
    (within : v.keep = true → legal (config v) = true → vl.toNat ≤ vlmaxOf (config v)) : Bounded (moduleEntry vl v) := by
  intro valid
  have ruled := module_ruled vl v
  cases allowed : legal (config v) with
  | false =>
      rw [(ruled.illegal allowed).1] at valid
      cases valid
  | true =>
      have vtype : (moduleEntry vl v).vtype.setWidth 64 = config v := by
        rw [moduleEntry_supported vl (legal_supported allowed),((low_configurations _).2 (legal_supported allowed)).2.2,legal_low allowed]
      rw [vtype]
      cases keep : v.keep with
      | true =>
          rw [ruled.kept allowed keep]
          exact within keep allowed
      | false =>
          cases max : v.max with
          | true => exact Nat.le_of_eq (ruled.whole allowed max keep)
          | false =>
              rw [legal_vl vl allowed,max]
              exact chooseVl_le _ _ _

theorem reset_bounded : Bounded resetEntry := fun _ => Nat.zero_le _

section Step

variable {s : State} {i : Step}

theorem entry_given {v : Vset} (given : i.vset = some v) : (queueInput s i).entry = moduleEntry (youngest s).vl v := by
  simp only [queueInput,given,Option.map_some,Option.getD_some]

theorem next_buffer : (machine.step s i).buffer = nextBuffer s (queueInput s i) := by
  change (VsetQueue.next s (queueInput s i)).buffer = _
  simp only [VsetQueue.next]
  split
  · rfl
  · split
    · rfl
    · split
      · rfl
      · rfl

theorem buffer_written {v : Vset} (given : i.vset = some v) (write : writes s i = true) :
    (machine.step s i).buffer = Function.update s.buffer s.tail (moduleEntry (youngest s).vl v) := by
  rw [next_buffer,nextBuffer,if_pos (show writeNewVset s (queueInput s i) = true from write),entry_given given]

theorem buffer_kept (quiet : writes s i = false) : (machine.step s i).buffer = s.buffer := by
  have none : writeNewVset s (queueInput s i) = false := quiet
  rw [next_buffer,nextBuffer,none,if_neg Bool.false_ne_true]

theorem writes_some (write : writes s i = true) : ∃ v, i.vset = some v := by
  rw [writes,Bool.and_eq_true] at write
  exact Option.isSome_iff_exists.mp write.1

theorem written_bounded {v : Vset} (given : i.vset = some v) (write : writes s i = true) (steady : grows s i = false) :
    Bounded (moduleEntry (youngest s).vl v) := by
  refine module_bounded _ v fun keep allowed => ?_
  simp only [grows,given,write,keep,allowed,Bool.true_and,decide_eq_false_iff_not] at steady
  exact Nat.le_of_not_lt steady

end Step

-- The last vset that wrote this entry had to keep a vl above its VLMAX.
def Grown (inputs : Nat → Step) (t : Nat) (k : Fin 8) : Prop :=
  ∃ u < t, grows (trace machine inputs u) (inputs u) = true ∧ (trace machine inputs u).tail = k ∧
    ∀ w < t, u < w → writes (trace machine inputs w) (inputs w) = true → (trace machine inputs w).tail ≠ k

theorem grown_later {inputs : Nat → Step} {t : Nat} {k : Fin 8} (grown : Grown inputs t k)
    (other : writes (trace machine inputs t) (inputs t) = true → (trace machine inputs t).tail ≠ k) : Grown inputs (t + 1) k := by
  obtain ⟨u,before,keeps,place,last⟩ := grown
  refine ⟨u,Nat.lt_succ_of_lt before,keeps,place,?_⟩
  intro w within after write
  rcases Nat.lt_succ_iff_lt_or_eq.mp within with earlier | now
  · exact last w earlier after write
  · subst now
    exact other write

theorem entries_bounded (inputs : Nat → Step) (t : Nat) (k : Fin 8) : Bounded ((trace machine inputs t).buffer k) ∨ Grown inputs t k := by
  induction t with
  | zero => exact .inl reset_bounded
  | succ t ih =>
      change Bounded ((machine.step (trace machine inputs t) (inputs t)).buffer k) ∨ _
      cases write : writes (trace machine inputs t) (inputs t) with
      | false =>
          rw [buffer_kept write]
          refine ih.imp_right fun grown => grown_later grown fun written => ?_
          rw [write] at written
          cases written
      | true =>
          obtain ⟨v,given⟩ := writes_some write
          rw [buffer_written given write]
          by_cases here : (trace machine inputs t).tail = k
          · cases keeps : grows (trace machine inputs t) (inputs t) with
            | true =>
                refine .inr ⟨t,Nat.lt_succ_self t,keeps,here,?_⟩
                intro w within after
                exact absurd (Nat.lt_succ_iff.mp within) (Nat.not_le_of_lt after)
            | false =>
                left
                rw [← here,Function.update_self]
                exact written_bounded given write keeps
          · rw [Function.update_of_ne (Ne.symm here)]
            exact ih.imp_right fun grown => grown_later grown fun _ => here

theorem tail_next (s : State) (i : Step) (behind : s.tail = s.indexLast + 1) : (machine.step s i).tail = (machine.step s i).indexLast + 1 := by
  change (VsetQueue.next s (queueInput s i)).tail = (VsetQueue.next s (queueInput s i)).indexLast + 1
  simp only [VsetQueue.next]
  split
  · rfl
  · split
    · rfl
    · split
      · rfl
      · simp only [behind,shift]
        exact add_right_comm _ _ _

theorem tail_along (inputs : Nat → Step) (t : Nat) : (trace machine inputs t).tail = (trace machine inputs t).indexLast + 1 := by
  induction t with
  | zero => rfl
  | succ t ih => exact tail_next _ _ ih

theorem written_index {s : State} {i : Step} (write : writes s i = true) (misspredict : i.recoverLastMisspredict = false)
    (committed : i.recoverLastCommitted = false) : (machine.step s i).indexLast = s.indexLast + 1 := by
  have live : writeNewVset s (queueInput s i) = true := write
  have one : (queueInput s i).recoverLastMisspredict = false := misspredict
  have two : (queueInput s i).recoverLastCommitted = false := committed
  change (VsetQueue.next s (queueInput s i)).indexLast = _
  simp only [VsetQueue.next,one,two,Bool.false_and,Bool.false_eq_true,if_false,live]
  rfl

-- The entry that a step writes, and when no recovery follows at once it is the one that the next instructions use.
structure Leaves (s : State) (i : Step) (v : Vset) : Prop where
  ruled : Ruled (youngest s).vl v ((machine.step s i).buffer s.tail)
  youngest : i.recoverLastMisspredict = false → i.recoverLastCommitted = false →
    youngest (machine.step s i) = (machine.step s i).buffer s.tail

theorem step_leaves {s : State} {i : Step} {v : Vset} (behind : s.tail = s.indexLast + 1) (given : i.vset = some v)
    (write : writes s i = true) : Leaves s i v := by
  refine ⟨?_,?_⟩
  · rw [buffer_written given write,Function.update_self]
    exact module_ruled _ v
  · intro misspredict committed
    rw [VsetQueue.youngest,written_index write misspredict committed,behind]

-- A live entry is within its VLMAX unless it was written to keep a larger vl, and every vset follows the rule.
theorem length_ruled (inputs : Nat → Step) (t : Nat) :
    (∀ k, live (trace machine inputs t) k → Bounded ((trace machine inputs t).buffer k) ∨ Grown inputs t k) ∧
    ∀ v, (inputs t).vset = some v → writes (trace machine inputs t) (inputs t) = true → Leaves (trace machine inputs t) (inputs t) v :=
  ⟨fun k _ => entries_bounded inputs t k,fun _ given write => step_leaves (tail_along inputs t) given write⟩

def idle : Step := ⟨none,false,false,false,0⟩

-- Sixteen bytes, and then the form that keeps vl with doublewords
def widen : Nat → Step
  | 0 => { idle with vset := some ⟨.vsetivli,1,16,0,0,0⟩ }
  | 1 => { idle with vset := some ⟨.vsetvli,0,0,0x18,0,0⟩ }
  | _ => idle

theorem length_ruled_widen : live (trace machine widen 1) 1 ∧ writes (trace machine widen 1) (widen 1) = true ∧
    (Bounded ((trace machine widen 1).buffer 1) ∨ Grown widen 1 1) ∧
    Leaves (trace machine widen 1) (widen 1) ⟨.vsetvli,0,0,0x18,0,0⟩ := by
  have here : live (trace machine widen 1) 1 := by
    rw [live]
    decide
  have write : writes (trace machine widen 1) (widen 1) = true := by decide
  exact ⟨here,write,(length_ruled widen 1).1 1 here,(length_ruled widen 1).2 _ rfl write⟩

-- The vl of sixteen stays where two doublewords fit.
theorem length_exceeds : ¬ ∀ (inputs : Nat → Step) (t : Nat) (k : Fin 8),
    live (trace machine inputs t) k → Bounded ((trace machine inputs t).buffer k) := by
  intro within
  have here : live (trace machine widen 2) 2 := by
    rw [live]
    decide
  have valid : ((trace machine widen 2).buffer 2).vtype.getLsbD 8 = false := by decide
  have bound := within widen 2 2 here valid
  have large : ¬ ((trace machine widen 2).buffer 2).vl.toNat ≤ vlmaxOf (((trace machine widen 2).buffer 2).vtype.setWidth 64) := by
    decide
  exact large bound

end Sargantana.VsetLength
