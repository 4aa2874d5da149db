import Sargantana.VaguPieces
import Sargantana.Lib.StateMachine

-- Which elements the requests of a vector memory instruction are for.
namespace Sargantana.VaguCoverage
open DracPkg Vagu VaguPieces Tiling StateMachine

variable {α : Type}

structure Coverage (v : VectorInstr α) (requests : List (Output α)) : Prop where
  sum : (requests.map counted).sum = vaguVl v
  once : ∀ i < vaguVl v, Active v i → requests.countP (fun r => decide (Covers r i)) = 1
  placed : ∀ r ∈ requests, ∀ i, Covers r i → Active v i → Contains r (elemAddr v i)
  within : ∀ r ∈ requests, ∀ i, Covers r i → i < vaguVl v

def Flagged (v : VectorInstr α) (requests : List (Output α)) : Prop :=
  ∃ r, requests.getLast? = some r ∧ r.instr.vmisalignXcpt = true ∧ ∃ i, Covers r i ∧ Active v i

variable {v : VectorInstr α} {s : State α} {c : Nat}

def emitted (s : State α) : List (Output α) := if (request s).instr.valid then [request s] else []

theorem request_fields (decoded : Taken v) (progress : Progress v c s) : first (request s) = c ∧
    counted (request s) = s.acumVelemIncr + (piece s).velemIncr ∧
    count (request s) = min (ones (piece s).loadMask) (s.acumVelemIncr + (piece s).velemIncr) := by
  have shape := piece_shape decoded progress
  have fits := shape.fits
  have most := vaguVl_le decoded.toDecoded
  have before := progress.acum
  have left := progress.left
  have place : first (request s) = c := by
    change s.velemCnt % 16 = c
    rw [progress.cnt,Nat.mod_eq_of_lt (by omega)]
  have length : counted (request s) = s.acumVelemIncr + (piece s).velemIncr := by
    change (s.acumVelemIncr + (piece s).velemIncr) % 32 = _
    rw [Nat.mod_eq_of_lt (by omega)]
  exact ⟨place,length,by rw [count,length]; rfl⟩

theorem emitted_cases (decoded : Taken v) (progress : Progress v c s) :
    ((piece s).makeReq = true ∧ emitted s = [request s]) ∨ ((piece s).makeReq = false ∧ emitted s = []) := by
  have valid : (request s).instr.valid = (piece s).makeReq := by
    change (s.instr.valid && (piece s).makeReq) = _
    rw [progress.setup.instr,decoded.valid,Bool.true_and]
  unfold emitted
  rw [valid]
  cases (piece s).makeReq <;> simp

def carried (v : VectorInstr α) (c : Nat) (s : State α) : Nat :=
  if c + (piece s).velemIncr = vaguVl v then 0 else (advance s false).acumVelemIncr

def Serves (v : VectorInstr α) (r : Output α) (i : Nat) : Prop := Active v i → Contains r (elemAddr v i)

theorem step_pieces (decoded : Taken v) (seen : Seen v) (progress : Progress v c s) (reaches : Reaches v c (piece s)) {rest : List (Output α)}
    (tail : Pieces first count counted (Active v) (Serves v) (vaguVl v) (c + (piece s).velemIncr) (carried v c s) rest) :
    Pieces first count counted (Active v) (Serves v) (vaguVl v) c s.acumVelemIncr (emitted s ++ rest) := by
  have shape := piece_shape decoded progress
  obtain ⟨place,length,covers⟩ := request_fields decoded progress
  rcases shape.kind with ⟨made,kept,kind⟩ | ⟨none,single,counts,idle,more⟩
  · have zero : carried v c s = 0 := by
      unfold carried
      split
      · rfl
      · rename_i other
        exact kept.resolve_right other
    rcases emitted_cases decoded progress with ⟨_,list⟩ | ⟨none,_⟩
    · rw [list,List.singleton_append]
      rw [zero] at tail
      refine .send place shape.pos shape.fits length ?_ tail
      rcases kind with full | ⟨masked,idle⟩
      · exact .inl ⟨covers.trans full,fun i after before live => reaches i after before live⟩
      · refine .inr ⟨?_,idle seen⟩
        rw [covers,masked,ones_zero,Nat.zero_min]
    · rw [none] at made
      cases made
  · have carry : carried v c s = s.acumVelemIncr + 1 := by
      rw [carried,if_neg (by omega)]
      exact counts
    rcases emitted_cases decoded progress with ⟨made,_⟩ | ⟨_,list⟩
    · rw [none] at made
      cases made
    · rw [list,List.nil_append]
      rw [carry,single] at tail
      exact .skip idle more tail

theorem step_sum (decoded : Taken v) (progress : Progress v c s) :
    ((emitted s).map counted).sum + carried v c s = s.acumVelemIncr + (piece s).velemIncr := by
  have shape := piece_shape decoded progress
  obtain ⟨_,length,_⟩ := request_fields decoded progress
  rcases shape.kind with ⟨made,kept,_⟩ | ⟨none,single,counts,_,more⟩
  · rcases emitted_cases decoded progress with ⟨_,list⟩ | ⟨none,_⟩
    · rw [list,List.map_singleton,List.sum_singleton,length,carried]
      split
      · rfl
      · rename_i other
        exact congrArg (s.acumVelemIncr + (piece s).velemIncr + ·) (kept.resolve_right other)
    · rw [none] at made
      cases made
  · rcases emitted_cases decoded progress with ⟨made,_⟩ | ⟨_,list⟩
    · rw [none] at made
      cases made
    · rw [list,List.map_nil,List.sum_nil,Nat.zero_add,carried,if_neg (by omega),single]
      exact counts

def plan : Nat → State α → List (Output α)
  | 0, _ => []
  | fuel + 1, s => if s.mode = .scalar then [] else emitted s ++ plan fuel (advance s false)

theorem plan_scalar (idle : s.mode = .scalar) (fuel : Nat) : plan fuel s = [] := by
  cases fuel with
  | zero => rfl
  | succ fuel => simp [plan,idle]

theorem progress_busy (decoded : Taken v) (progress : Progress v c s) : s.mode ≠ .scalar := by
  rcases piece_cases decoded progress.setup with ⟨mode,_⟩ | ⟨mode,_⟩ | ⟨mode,_⟩ | ⟨mode,_⟩ | ⟨mode,_⟩ | ⟨mode,_⟩ <;> rw [mode] <;> decide

theorem advance_done (decoded : Taken v) (progress : Progress v c s)
    (finished : c + (piece s).velemIncr = vaguVl v ∨ Skewed v c) : (advance s false).mode = .scalar := by
  have shape := piece_shape decoded progress
  simp only [advance,advance_ends progress shape.fits]
  rcases finished with last | skew
  · simp [last]
  · simp [(piece_misalign decoded progress).mpr skew]

theorem plan_step (decoded : Taken v) (progress : Progress v c s) (fuel : Nat) :
    plan (fuel + 1) s = emitted s ++ plan fuel (advance s false) := by
  rw [plan,if_neg (progress_busy decoded progress)]

-- The induction is on the elements that are left.
theorem plan_aligned (decoded : Taken v) (seen : Seen v) (narrow : Narrow v) (aligned : ∀ i < vaguVl v, ¬ Skewed v i) {fuel : Nat}
    (progress : Progress v c s) (enough : vaguVl v ≤ c + fuel) :
    Pieces first count counted (Active v) (Serves v) (vaguVl v) c s.acumVelemIncr (plan fuel s) := by
  induction fuel generalizing c s with
  | zero =>
    have left := progress.left
    omega
  | succ fuel ih =>
    have shape := piece_shape decoded progress
    have fits := shape.fits
    have pos := shape.pos
    have straight : (piece s).misalign = false := by
      rw [Bool.eq_false_iff]
      exact fun skew => aligned c progress.left ((piece_misalign decoded progress).mp skew)
    rw [plan_step decoded progress]
    refine step_pieces decoded seen progress (piece_reaches decoded narrow progress straight) ?_
    by_cases last : c + (piece s).velemIncr = vaguVl v
    · rw [plan_scalar (advance_done decoded progress (.inl last)),carried,if_pos last,last]
      exact .done
    · rw [carried,if_neg last]
      exact ih (advance_progress decoded progress (aligned c progress.left) (by omega)) (by omega)

-- Before the first misaligned element the pieces are single elements.
theorem plan_skewed (decoded : Taken v) (seen : Seen v) {m : Nat} (skew : Skewed v m) (within : m < vaguVl v) (least : ∀ i < m, ¬ Skewed v i)
    {fuel : Nat} (progress : Progress v c s) (before : c ≤ m) (whole : lined s = true → c = m) (enough : vaguVl v ≤ c + fuel) :
    ∃ s' prior, Progress v m s' ∧ lined s' = lined s ∧ plan fuel s = prior ++ emitted s' ∧
      (∀ r ∈ prior, r.instr.vmisalignXcpt = false) ∧ (prior.map counted).sum + c + s'.acumVelemIncr = m + s.acumVelemIncr ∧
      ∀ rest, Pieces first count counted (Active v) (Serves v) (vaguVl v) m s'.acumVelemIncr rest →
        Pieces first count counted (Active v) (Serves v) (vaguVl v) c s.acumVelemIncr (prior ++ rest) := by
  induction fuel generalizing c s with
  | zero => omega
  | succ fuel ih =>
    rw [plan_step decoded progress]
    by_cases here : c = m
    · subst here
      refine ⟨s,[],progress,rfl,?_,by simp,by simp,fun rest tail => tail⟩
      rw [plan_scalar (advance_done decoded progress (.inr skew))]
      simp
    · have alone : lined s = false := by
        rw [Bool.eq_false_iff]
        exact fun line => here (whole line)
      have single := single_piece decoded progress.setup alone
      have narrow : Narrow v := fun indexes => by rw [skew.1] at indexes; cases indexes
      have aligned := least c (by omega)
      have straight : (piece s).misalign = false := by
        rw [Bool.eq_false_iff]
        exact fun bad => aligned ((piece_misalign decoded progress).mp bad)
      have moved := advance_progress decoded progress aligned (by omega)
      rw [single] at moved
      have stays : lined (advance s false) = lined s := by
        have mode : (advance s false).mode = s.mode := moved.setup.mode.trans progress.setup.mode.symm
        simp only [lined,mode]
        rfl
      obtain ⟨s',prior,found,same,list,clean,sum,build⟩ := ih moved (by omega) (fun line => by rw [stays,alone] at line; cases line) (by omega)
      have carry : carried v c s = (advance s false).acumVelemIncr := by rw [carried,if_neg (by omega)]
      refine ⟨s',emitted s ++ prior,found,same.trans stays,by rw [list,List.append_assoc],?_,?_,?_⟩
      · intro r inside
        rcases List.mem_append.mp inside with now | later
        · unfold emitted at now
          split at now
          · rw [List.mem_singleton.mp now]
            exact straight
          · cases now
        · exact clean r later
      · have total := step_sum decoded progress
        rw [carry,single] at total
        rw [List.map_append,List.sum_append]
        omega
      · intro rest tail
        rw [List.append_assoc]
        refine step_pieces decoded seen progress (piece_reaches decoded narrow progress straight) ?_
        rw [carry,single]
        exact build rest tail

theorem pieces_coverage {requests : List (Output α)}
    (pieces : Pieces first count counted (Active v) (Serves v) (vaguVl v) 0 0 requests) : Coverage v requests := by
  refine ⟨pieces.sum,?_,?_,?_⟩
  · intro i small live
    exact pieces.once (Nat.zero_le i) small live
  · intro r inside i covers live
    exact (pieces.within inside covers).2.2 live
  · intro r inside i covers
    exact (pieces.within inside covers).2.1

theorem plan_member (decoded : Taken v) {fuel : Nat} (progress : Progress v c s) {r : Output α} (inside : r ∈ plan fuel s) :
    ∃ c' s', Progress v c' s' ∧ (piece s').makeReq = true ∧ r = request s' := by
  induction fuel generalizing c s with
  | zero => cases inside
  | succ fuel ih =>
    rw [plan_step decoded progress] at inside
    rcases List.mem_append.mp inside with now | later
    · rcases emitted_cases decoded progress with ⟨made,list⟩ | ⟨_,list⟩
      · rw [list] at now
        exact ⟨c,s,progress,made,List.mem_singleton.mp now⟩
      · rw [list] at now
        cases now
    · have fits := (piece_shape decoded progress).fits
      by_cases finished : c + (piece s).velemIncr = vaguVl v ∨ Skewed v c
      · rw [plan_scalar (advance_done decoded progress finished)] at later
        cases later
      · rw [not_or] at finished
        exact ih (advance_progress decoded progress finished.2 (by omega)) later

theorem covers_piece (decoded : Taken v) (progress : Progress v c s) (made : (piece s).makeReq = true) {i : Nat} (covers : Covers (request s) i) :
    c ≤ i ∧ i < c + (piece s).velemIncr := by
  obtain ⟨place,_,length⟩ := request_fields decoded progress
  obtain ⟨after,before⟩ := covers
  rw [place] at after before
  rw [length] at before
  refine ⟨after,?_⟩
  rcases (piece_shape decoded progress).kind with ⟨_,_,full | ⟨masked,_⟩⟩ | ⟨none,_⟩
  · omega
  · rw [masked,ones_zero,Nat.zero_min] at before
    omega
  · rw [none] at made
    cases made

-- Elements that a line of sixteen bytes serves from the base on, 2 ^ l bytes apart
def lineReach (v : VectorInstr α) (places l : Nat) : Nat :=
  min ((places + 2 ^ l / 2 ^ elemLog v.instr.memSize - 1) / 2 ^ (l - elemLog v.instr.memSize)) (vaguVl v)

-- The elements of the request that begins at the first misaligned element. Loads of
-- adjacent or close elements are made line by line.
def reach (v : VectorInstr α) : Nat :=
  let e := elemLog v.instr.memSize
  let off := lineOff e v.instr.dataRs1
  let up := Nat.log2 (vaguStride v).toNat
  let down := Nat.log2 (-vaguStride v).toNat
  if v.instr.instrType ∈ [vle,.vlm,.vl1r] then lineReach v (16 / 2 ^ e - off) e
  else if v.instr.instrType ∉ [vlse,.vleff] then 1
  else if groups (vaguStride v) v.instr.instrType ∧ e ≤ up then lineReach v (16 / 2 ^ e - off) up
  else if groups (-vaguStride v) v.instr.instrType ∧ e ≤ down then lineReach v (off + 1) down
  else 1

theorem log2_pow {l : Nat} (small : l ≤ 3) : Nat.log2 (BitVec.ofNat 64 (2 ^ l)).toNat = l := by
  obtain rfl | rfl | rfl | rfl : l = 0 ∨ l = 1 ∨ l = 2 ∨ l = 3 := by omega
  · decide
  · decide
  · decide
  · decide

theorem multiple_skew {x : BitVec 64} {e k : Nat} (small : e ≤ 3) :
    misaligned e (x + BitVec.ofNat 64 (k * 2 ^ e)) = misaligned e x ∧ misaligned e (x - BitVec.ofNat 64 (k * 2 ^ e)) = misaligned e x := by
  unfold misaligned
  have bound := x.isLt
  rw [BitVec.toNat_add,BitVec.toNat_sub,BitVec.toNat_ofNat]
  obtain rfl | rfl | rfl | rfl : e = 0 ∨ e = 1 ∨ e = 2 ∨ e = 3 := by omega
  all_goals constructor <;> refine decide_eq_decide.mpr ?_ <;> omega

theorem skew_step (decoded : Decoded v) (plain : isIndexed v = false) {l : Nat} (wide : elemLog v.instr.memSize ≤ l)
    (steps : step v = BitVec.ofNat 64 (2 ^ l) ∨ step v = -BitVec.ofNat 64 (2 ^ l)) (m : Nat) :
    misaligned (elemLog v.instr.memSize) (elemAddr v m) = misaligned (elemLog v.instr.memSize) (elemAddr v 0) := by
  have small := elemLog_le decoded
  have scaled : m * 2 ^ l = m * 2 ^ (l - elemLog v.instr.memSize) * 2 ^ elemLog v.instr.memSize := by
    rw [Nat.mul_assoc,← Nat.pow_add,Nat.sub_add_cancel wide]
  rcases steps with up | down
  · have moved := elemAddr_pow plain up 0 m
    rw [Nat.zero_add] at moved
    rw [moved,scaled]
    exact (multiple_skew small).1
  · have moved := elemAddr_neg plain down 0 m
    rw [Nat.zero_add] at moved
    rw [moved,scaled]
    exact (multiple_skew small).2

-- A line is made of elements that are all aligned or all misaligned.
theorem lined_skew (decoded : Taken v) (setup : Setup v s) (line : lined s = true) {m : Nat} (skew : Skewed v m) : Skewed v 0 := by
  refine ⟨skew.1,?_⟩
  rcases piece_cases decoded setup with ⟨_,unit,_⟩ | ⟨_,unit,_⟩ | ⟨mode,⟨plain,stepped⟩,_⟩ | ⟨mode,_⟩ | ⟨mode,_⟩ | ⟨mode,_⟩
  · rw [← skew_step decoded.toDecoded skew.1 (Nat.le_refl _) (.inl (unit_step unit).2) m]
    exact skew.2
  · rw [← skew_step decoded.toDecoded skew.1 (Nat.le_refl _) (.inl (unit_step unit).2) m]
    exact skew.2
  · simp only [lined,mode,setup.instr,Bool.and_eq_true,Bool.or_eq_true,decide_eq_true_eq] at line
    obtain ⟨either,wide⟩ := line
    rcases either with up | down
    · obtain ⟨l,_,log,_,value⟩ := setup.group up
      rw [← skew_step decoded.toDecoded plain (log ▸ wide) (.inl (stepped.trans value)) m]
      exact skew.2
    · obtain ⟨l,_,log,_,value⟩ := setup.groupNeg down
      rw [← skew_step decoded.toDecoded plain (log ▸ wide) (.inr (stepped.trans value)) m]
      exact skew.2
  all_goals simp [lined,mode] at line

theorem min_of_split (a b : Nat) : (if a + 0 ≤ b then a else b - 0) = min a b := by
  split <;> omega

-- The registers say whether the stride is served by lines.
-- A stride that groups upwards does not group downwards, and the setup has its logarithm.
theorem stride_up (setup : Setup v s) (up : groups (vaguStride v) v.instr.instrType = true) :
    groups (-vaguStride v) v.instr.instrType = false ∧ Nat.log2 (vaguStride v).toNat = s.logStride := by
  obtain ⟨l,small,log,_,value⟩ := setup.group (setup.up.trans up)
  refine ⟨?_,by rw [value,log2_pow small,log]⟩
  rw [value]
  obtain rfl | rfl | rfl | rfl : l = 0 ∨ l = 1 ∨ l = 2 ∨ l = 3 := by omega
  all_goals rfl

theorem stride_down (setup : Setup v s) (up : groups (vaguStride v) v.instr.instrType = false)
    (down : groups (-vaguStride v) v.instr.instrType = true) : Nat.log2 (-vaguStride v).toNat = s.logStride := by
  obtain ⟨l,small,log,_,value⟩ := setup.groupNeg (by rw [setup.down,up,down]; rfl)
  rw [value,BitVec.neg_neg,log2_pow small,log]

theorem strided_reach (setup : Setup v s) (kind : v.instr.instrType ∈ [vlse,.vleff]) : reach v =
    if s.group = true ∧ elemLog v.instr.memSize ≤ s.logStride then
      lineReach v (16 / 2 ^ elemLog v.instr.memSize - lineOff (elemLog v.instr.memSize) v.instr.dataRs1) s.logStride
    else if s.groupNeg = true ∧ elemLog v.instr.memSize ≤ s.logStride then
      lineReach v (lineOff (elemLog v.instr.memSize) v.instr.dataRs1 + 1) s.logStride
    else 1 := by
  have other : v.instr.instrType ∉ [vle,.vlm,.vl1r] := by
    simp only [List.mem_cons,List.not_mem_nil,or_false] at kind ⊢
    rcases kind with kind | kind <;> rw [kind] <;> simp [vlse,vle]
  simp only [reach,if_neg other,if_neg (not_not.mpr kind),setup.up,setup.down]
  cases up : groups (vaguStride v) v.instr.instrType with
  | true =>
    obtain ⟨away,same⟩ := stride_up setup up
    simp [away,same]
  | false =>
    cases down : groups (-vaguStride v) v.instr.instrType with
    | true =>
      have same := stride_down setup up down
      simp only [same,Bool.false_eq_true,false_and,if_false,Bool.not_false,Bool.true_and]
    | false => simp

theorem single_reach (setup : Setup v s) (kind : v.instr.instrType ∈ [vlse,.vleff])
    (single : ((s.group || s.groupNeg) && decide (elemLog v.instr.memSize ≤ s.logStride)) = false) : reach v = 1 := by
  have none : ∀ b : Bool, (b = s.group ∨ b = s.groupNeg) → ¬ (b = true ∧ elemLog v.instr.memSize ≤ s.logStride) := by
    intro b which ⟨set,wide⟩
    rcases which with rfl | rfl <;> simp [set,wide] at single
  rw [strided_reach setup kind,if_neg (none _ (.inl rfl)),if_neg (none _ (.inr rfl))]

theorem lineReach_unit (v : VectorInstr α) (places : Nat) :
    lineReach v places (elemLog v.instr.memSize) = min places (vaguVl v) := by
  rw [lineReach,Nat.div_self (Nat.two_pow_pos _),Nat.sub_self,Nat.pow_zero,Nat.div_one,Nat.add_sub_cancel]

theorem vlUnit_reach (progress : Progress v 0 s) (kind : v.instr.instrType ∈ [vle,.vlm,.vl1r]) (base : s.vaddr = v.instr.dataRs1) :
    (vlUnit (elemLog v.instr.memSize) s).velemIncr = reach v := by
  rw [vlUnit_incr _ progress,min_of_split,base,reach]
  simp only [if_pos kind]
  rw [lineReach_unit]

theorem group_reach (progress : Progress v 0 s) {e l off : Nat} (same : e = elemLog v.instr.memSize) (small : l ≤ 3) (log : s.logStride = l)
    (stride : s.stride = BitVec.ofNat 64 (2 ^ l)) : groupIncr e s off = lineReach v (16 / 2 ^ e - off) l := by
  rw [groupIncr_cases _ _ progress,min_of_split,groupRoom_value small log stride,same,lineReach]

theorem vlStrided_reach (decoded : Taken v) (progress : Progress v 0 s) (kind : v.instr.instrType ∈ [vlse,.vleff])
    (base : s.vaddr = v.instr.dataRs1) : (vlStrided (elemLog v.instr.memSize) s).velemIncr = reach v := by
  have off := lineOff_lt _ (elemLog_le decoded.toDecoded) v.instr.dataRs1
  rcases vlStrided_cases (elemLog v.instr.memSize) s with ⟨up,wide,same⟩ | ⟨down,wide,same⟩ | ⟨single,same⟩ <;> rw [same]
  · obtain ⟨l,small,log,stride,_⟩ := progress.setup.group up
    rw [strided_reach progress.setup kind,if_pos ⟨up,wide⟩,log,← base]
    exact group_reach progress rfl small log stride
  · obtain ⟨l,small,log,stride,_⟩ := progress.setup.groupNeg down
    have away : s.group = false := by
      have turns := progress.setup.down
      rw [down,← progress.setup.up] at turns
      cases group : s.group with
      | false => rfl
      | true => rw [group] at turns; cases turns
    rw [strided_reach progress.setup kind,if_neg (by rw [away]; exact fun both => Bool.false_ne_true both.1),if_pos ⟨down,wide⟩,log,← base]
    refine (group_reach progress rfl small log stride).trans (congrArg (lineReach v · l) ?_)
    rw [base]
    omega
  · rw [single_reach progress.setup kind single]
    rfl

theorem piece_reach (decoded : Taken v) {m : Nat} (skew : Skewed v m) (progress : Progress v m s) (whole : lined s = true → m = 0) :
    (piece s).velemIncr = reach v ∨ (v.useMask = false ∧ 0 < (piece s).velemIncr ∧ 0 < reach v) := by
  have mode := progress.setup.mode
  have base : m = 0 → s.vaddr = v.instr.dataRs1 := by
    rintro rfl
    rw [progress.vaddr,skew.1]
    simp [elemAddr,skew.1]
  have apart : ∀ {t}, v.instr.instrType = t → t ∉ [vle,.vlm,.vl1r] → t ∉ [vlse,.vleff] → reach v = 1 := by
    rintro t rfl none other
    simp only [reach,if_neg none,if_pos other]
  rcases mode_cases decoded with ⟨begin,kind⟩ | ⟨begin,kind,plain⟩ | ⟨begin,kind⟩ | ⟨begin,kind⟩ | ⟨begin,kind⟩ | ⟨begin,kind⟩ <;>
    rw [begin] at mode
  · have zero : m = 0 := whole (by simp [lined,mode])
    subst zero
    simp only [piece,mode,progress.setup.instr]
    exact .inl (vlUnit_reach progress kind (base rfl))
  · refine .inr ⟨plain,(piece_shape decoded progress).pos,?_⟩
    simp only [List.mem_cons,List.not_mem_nil,or_false] at kind
    rcases kind with kind | kind | kind <;> rw [apart kind (by decide) (by decide)] <;> decide
  · left
    by_cases line : lined s = true
    · have zero := whole line
      subst zero
      simp only [piece,mode,progress.setup.instr]
      exact vlStrided_reach decoded progress kind (base rfl)
    · rw [Bool.not_eq_true] at line
      rw [single_piece decoded progress.setup line]
      simp only [lined,mode,progress.setup.instr] at line
      exact (single_reach progress.setup kind line).symm
  · left
    rw [single_piece decoded progress.setup (by simp [lined,mode])]
    simp only [List.mem_cons,List.not_mem_nil,or_false] at kind
    rcases kind with kind | kind <;> rw [apart kind (by decide) (by decide)]
  · have plain := skew.1
    simp [isIndexed,kind] at plain
  · have plain := skew.1
    simp [isIndexed,kind] at plain

-- The first misaligned element ends the instruction. The request there is for an active
-- element, or it is the last one in any case.
structure Regular (v : VectorInstr α) : Prop where
  cut : v.useMask = true → v.instr.instrType ∉ [.vsm,.vs1r]
  seen : Seen v
  narrow : Narrow v
  ending : ∀ m < vaguVl v, Skewed v m → (∀ i < m, ¬ Skewed v i) →
    m + reach v = vaguVl v ∨ ∃ i, m ≤ i ∧ i < m + reach v ∧ Active v i

-- The state at the first misaligned element, with the requests before it
structure Stops (v : VectorInstr α) (m : Nat) (s : State α) (prior : List (Output α)) : Prop where
  skew : Skewed v m
  progress : Progress v m s
  incr : (piece s).velemIncr = reach v ∨ (v.useMask = false ∧ 0 < (piece s).velemIncr ∧ 0 < reach v)
  clean : ∀ r ∈ prior, r.instr.vmisalignXcpt = false
  sum : (prior.map counted).sum + s.acumVelemIncr = m
  build : ∀ rest, Pieces first count counted (Active v) (Serves v) (vaguVl v) m s.acumVelemIncr rest →
    Pieces first count counted (Active v) (Serves v) (vaguVl v) 0 0 (prior ++ rest)

theorem plan_stops (decoded : Taken v) (seen : Seen v) {m : Nat} (skew : Skewed v m) (within : m < vaguVl v) (least : ∀ i < m, ¬ Skewed v i)
    (progress : Progress v 0 s) : ∃ s' prior, Stops v m s' prior ∧ plan (vaguVl v) s = prior ++ emitted s' := by
  have none : s.acumVelemIncr = 0 := Nat.le_zero.mp progress.acum
  have whole : lined s = true → 0 = m := by
    intro line
    by_contra later
    exact least 0 (by omega) (lined_skew decoded progress.setup line skew)
  obtain ⟨s',prior,found,same,list,clean,sum,build⟩ :=
    plan_skewed decoded seen skew within least progress (Nat.zero_le m) whole (show vaguVl v ≤ 0 + vaguVl v by omega)
  have incr := piece_reach decoded skew found (fun line => (whole (same ▸ line)).symm)
  rw [none] at sum build
  exact ⟨s',prior,⟨skew,found,incr,clean,by omega,build⟩,list⟩

variable {m : Nat} {prior : List (Output α)}

theorem stops_flagged (decoded : Taken v) (seen : Seen v) (stops : Stops v m s prior) {i : Nat} (after : m ≤ i) (before : i < m + (piece s).velemIncr)
    (live : Active v i) : Flagged v (prior ++ emitted s) := by
  have shape := piece_shape decoded stops.progress
  obtain ⟨place,_,length⟩ := request_fields decoded stops.progress
  rcases shape.kind with ⟨made,_,full | ⟨_,idle⟩⟩ | ⟨_,single,_,idle,_⟩
  · rcases emitted_cases decoded stops.progress with ⟨_,list⟩ | ⟨none,_⟩
    · refine ⟨request s,by rw [list]; simp,(piece_misalign decoded stops.progress).mpr stops.skew,i,⟨?_,?_⟩,live⟩
      · rw [place]
        exact after
      · rw [place,length,full]
        exact before
    · rw [none] at made
      cases made
  · exact absurd live (idle seen i after before)
  · have same : i = m := by omega
    exact absurd (same ▸ live) idle

theorem stops_last (decoded : Taken v) (seen : Seen v) (stops : Stops v m s prior) (last : m + (piece s).velemIncr = vaguVl v)
    (idle : ∀ i, m ≤ i → i < m + (piece s).velemIncr → ¬ Active v i) : Coverage v (prior ++ emitted s) := by
  have tail : Pieces first count counted (Active v) (Serves v) (vaguVl v) (m + (piece s).velemIncr) (carried v m s) [] := by
    rw [carried,if_pos last,last]
    exact .done
  have whole := step_pieces decoded seen stops.progress (fun i after before live => absurd live (idle i after before)) tail
  rw [List.append_nil] at whole
  exact pieces_coverage (stops.build _ whole)

theorem stops_unflagged (decoded : Taken v) (stops : Stops v m s prior)
    (idle : ∀ i, m ≤ i → i < m + (piece s).velemIncr → ¬ Active v i) : ¬ Flagged v (prior ++ emitted s) := by
  rintro ⟨r,last,flag,i,covers,live⟩
  have before : r ∉ prior := by
    intro inside
    rw [stops.clean r inside] at flag
    cases flag
  rcases emitted_cases decoded stops.progress with ⟨made,list⟩ | ⟨_,list⟩
  · rw [list,List.getLast?_concat] at last
    obtain rfl := Option.some.inj last
    obtain ⟨after,near⟩ := covers_piece decoded stops.progress made covers
    exact idle i after near live
  · rw [list,List.append_nil] at last
    exact before (List.mem_of_getLast? last)

theorem stops_short (decoded : Taken v) (stops : Stops v m s prior) (short : m + (piece s).velemIncr ≠ vaguVl v) :
    ¬ Coverage v (prior ++ emitted s) := by
  intro coverage
  have sum := coverage.sum
  have fits := (piece_shape decoded stops.progress).fits
  have total := step_sum decoded stops.progress
  have before := stops.sum
  rw [List.map_append,List.sum_append] at sum
  omega

theorem indexed_request (decoded : Taken v) (progress : Progress v c s) (indexes : isIndexed v = true) (made : (piece s).makeReq = true)
    {i : Nat} (covers : Covers (request s) i) : i = c ∧ bytesLog (request s).instr.memSize = v.instr.sew.val ∧
      (request s).instr.dataRs1 = v.instr.dataRs1 +
        BitVec.ofNat 64 (indexAt (vaguIndex v) (min (elemLog v.instr.memSize) v.instr.sew.val) i) := by
  obtain ⟨after,before⟩ := covers_piece decoded progress made covers
  have single : (piece s).velemIncr = 1 ∧ bytesLog (piece s).memSize = v.instr.sew.val ∧ (piece s).dataRs1 = v.instr.dataRs1 +
      BitVec.ofNat 64 (indexAt (vaguIndex v) (min (elemLog v.instr.memSize) v.instr.sew.val) c) := by
    rcases piece_cases decoded progress.setup with ⟨_,unit,_⟩ | ⟨_,unit,_⟩ | ⟨_,⟨plain,_⟩,_⟩ | ⟨_,⟨plain,_⟩,_⟩ | ⟨_,_,same⟩ | ⟨_,_,same⟩
    · rw [(unit_step unit).1] at indexes
      cases indexes
    · rw [(unit_step unit).1] at indexes
      cases indexes
    · rw [plain] at indexes
      cases indexes
    · rw [plain] at indexes
      cases indexes
    · rw [same]
      exact ⟨rfl,indexed_bytes progress (elemLog v.instr.memSize),indexed_address progress indexes _⟩
    · rw [same]
      exact ⟨rfl,indexed_bytes progress (elemLog v.instr.memSize),indexed_address progress indexes _⟩
  have same : i = c := by omega
  exact ⟨same,single.2.1,same ▸ single.2.2⟩

-- An index that is cut leads elsewhere.
theorem narrow_of_plan (decoded : Taken v) (progress : Progress v 0 s)
    (met : Flagged v (plan (vaguVl v) s) ∨ Coverage v (plan (vaguVl v) s)) : Narrow v := by
  intro indexes i small live
  rcases met with ⟨r,last,flag,_⟩ | coverage
  · obtain ⟨c',s',found,_,rfl⟩ := plan_member decoded progress (List.mem_of_getLast? last)
    have skew := (piece_misalign decoded found).mp flag
    rw [skew.1] at indexes
    cases indexes
  · have once := coverage.once i small live
    obtain ⟨r,inside,covers⟩ := List.countP_pos_iff.mp (by rw [once]; exact Nat.one_pos)
    have placed := coverage.placed r inside i (of_decide_eq_true covers) live
    obtain ⟨c',s',found,made,rfl⟩ := plan_member decoded progress inside
    obtain ⟨_,bytes,address⟩ := indexed_request decoded found indexes made (of_decide_eq_true covers)
    unfold Contains at placed
    rw [bytes,address] at placed
    exact placed

theorem plan_blank (mode : s.mode = .vlUnit ∨ s.mode = .scalar) (masked : s.maskedOp = true)
    (blank : s.mask &&& lowOnes s.vl = 0) (fuel : Nat) : ∀ r ∈ plan fuel s, r.instr.loadMask = 0 := by
  induction fuel generalizing s with
  | zero => intro r inside; cases inside
  | succ fuel ih =>
    intro r inside
    rcases mode with unit | idle
    · rw [plan,if_neg (by rw [unit]; decide)] at inside
      rcases List.mem_append.mp inside with now | later
      · unfold emitted at now
        split at now
        · rw [List.mem_singleton.mp now]
          simp [request,piece,unit,vlUnit,blank,masked]
        · cases now
      · have mode : (advance s false).mode = .vlUnit ∨ (advance s false).mode = .scalar := by
          simp only [advance,unit]
          split
          · exact .inr rfl
          · exact .inl rfl
        exact ih mode masked blank r later
    · rw [plan_scalar idle] at inside
      cases inside

theorem blank_covers {r : Output α} (blank : r.instr.loadMask = 0) (i : Nat) : ¬ Covers r i := by
  rintro ⟨after,before⟩
  rw [count,blank,ones_zero,Nat.zero_min] at before
  omega

theorem seen_of_plan (decoded : Taken v) (progress : Progress v 0 s)
    (met : Flagged v (plan (vaguVl v) s) ∨ Coverage v (plan (vaguVl v) s)) : Seen v := by
  intro masked whole some
  by_contra dead
  obtain ⟨i,small,on⟩ := some
  have unit : s.mode = .vlUnit := by
    have mode := progress.setup.mode
    rcases mode_cases decoded with ⟨m,_⟩ | ⟨_,kind,_⟩ | ⟨_,kind⟩ | ⟨_,kind⟩ | ⟨_,kind⟩ | ⟨_,kind⟩
    · exact mode.trans m
    all_goals simp [whole,vlse,vlxe] at kind
  have blank : s.mask &&& lowOnes s.vl = 0 := by
    rw [progress.setup.mask (.inl masked),progress.setup.vl]
    exact Decidable.not_not.mp (of_decide_eq_false (Bool.eq_false_iff.mpr dead))
  have none := plan_blank (.inl unit) (progress.setup.masked.trans masked) blank (vaguVl v)
  rcases met with ⟨r,last,_,k,covers,_⟩ | coverage
  · exact blank_covers (none r (List.mem_of_getLast? last)) k covers
  · have once := coverage.once i small on
    obtain ⟨r,inside,covers⟩ := List.countP_pos_iff.mp (by rw [once]; exact Nat.one_pos)
    exact blank_covers (none r inside) i (of_decide_eq_true covers)

theorem plan_covers (decoded : Taken v) (progress : Progress v 0 s) :
    (Flagged v (plan (vaguVl v) s) ∨ Coverage v (plan (vaguVl v) s)) ↔ Regular v := by
  constructor
  · intro met
    have seen := seen_of_plan decoded progress met
    refine ⟨decoded.cut,seen,narrow_of_plan decoded progress met,?_⟩
    intro m within skew least
    by_contra neither
    rw [not_or,not_exists] at neither
    obtain ⟨short,idle⟩ := neither
    obtain ⟨s',prior,stops,list⟩ := plan_stops decoded seen skew within least progress
    rw [list] at met
    have incr : (piece s').velemIncr = reach v := by
      rcases stops.incr with same | ⟨plain,_,some⟩
      · exact same
      · exact absurd ⟨Nat.le_refl m,by omega,.inl plain⟩ (idle m)
    rcases met with flagged | coverage
    · exact stops_unflagged decoded stops (fun i after before live => idle i ⟨after,incr ▸ before,live⟩) flagged
    · exact stops_short decoded stops (by rw [incr]; exact short) coverage
  · rintro ⟨_,seen,narrow,ending⟩
    by_cases some : ∃ m, m < vaguVl v ∧ Skewed v m
    · obtain ⟨within,skew⟩ := Nat.find_spec some
      have least : ∀ i < Nat.find some, ¬ Skewed v i := fun i before bad => Nat.find_min some before ⟨by omega,bad⟩
      obtain ⟨s',prior,stops,list⟩ := plan_stops decoded seen skew within least progress
      rw [list]
      by_cases live : ∃ i, Nat.find some ≤ i ∧ i < Nat.find some + (piece s').velemIncr ∧ Active v i
      · obtain ⟨i,after,before,live⟩ := live
        exact .inl (stops_flagged decoded seen stops after before live)
      · have idle : ∀ i, Nat.find some ≤ i → i < Nat.find some + (piece s').velemIncr → ¬ Active v i :=
          fun i after before here => live ⟨i,after,before,here⟩
        rcases stops.incr with same | ⟨plain,pos,_⟩
        · rw [same] at idle
          rcases ending _ within skew least with last | ⟨i,after,before,here⟩
          · exact .inr (stops_last decoded seen stops (by rw [same]; exact last) (by rw [same]; exact idle))
          · exact absurd here (idle i after before)
        · exact absurd (.inl plain) (idle _ (Nat.le_refl _) (by omega))
    · have aligned : ∀ i < vaguVl v, ¬ Skewed v i := fun i small bad => some ⟨i,small,bad⟩
      have pieces := plan_aligned decoded seen narrow aligned progress (show vaguVl v ≤ 0 + vaguVl v by omega)
      rw [Nat.le_zero.mp progress.acum] at pieces
      exact .inr (pieces_coverage pieces)

-- vagu in exe_stage, from any state on: in each cycle the instruction at its input and
-- stall_i. There is no flush.
def machine (s : State α) : Machine (State α) (VectorInstr α × Bool) where
  initial := s
  allowed _ _ := True
  step s i := next s (fed s i.1 false i.2)

variable {feed : Nat → VectorInstr α × Bool}

-- The valid requests of the first cycles
def requests (s : State α) (feed : Nat → VectorInstr α × Bool) : Nat → List (Output α)
  | 0 => []
  | t + 1 =>
    let now := trace (machine s) feed t
    let out := output now (fed now (feed t).1 false (feed t).2)
    requests s feed t ++ if out.instr.valid then [out] else []

-- The unit is busy from the cycle after the first on, until cycle t.
def Returns (s : State α) (feed : Nat → VectorInstr α × Bool) (t : Nat) : Prop :=
  0 < t ∧ (trace (machine s) feed t).mode = .scalar ∧ ∀ u, 0 < u → u < t → (trace (machine s) feed u).mode ≠ .scalar

theorem stalled_step (busy : s.mode ≠ .scalar) (w : VectorInstr α) : next s (fed s w false true) = s := by
  simp [next,fed,wired,busy]

theorem stalled_output (busy : s.mode ≠ .scalar) (w : VectorInstr α) : (output s (fed s w false true)).instr.valid = false := by
  simp [output,fed,wired,busy]

theorem moved_step (busy : s.mode ≠ .scalar) (w : VectorInstr α) : next s (fed s w false false) = advance s false := by
  simp [next,fed,wired,busy,advance]

theorem moved_output (busy : s.mode ≠ .scalar) (w : VectorInstr α) : output s (fed s w false false) = request s := by
  simp [output,fed,wired,busy]

theorem fed_scalar (idle : s.mode = .scalar) (w : VectorInstr α) (stall : Bool) : fed s w false stall = wired w false stall := by
  simp [fed,idle]

-- What is left to ask for. A stalled cycle changes nothing.
structure Awaits (v : VectorInstr α) (whole : List (Output α)) (s : State α) (sent : List (Output α)) (n : Nat) : Prop where
  rest : sent ++ plan n s = whole
  busy : s.mode ≠ .scalar → ∃ c, Progress v c s ∧ vaguVl v ≤ c + n

theorem awaits_step (decoded : Taken v) {whole sent : List (Output α)} {n : Nat} (awaits : Awaits v whole s sent n)
    (busy : s.mode ≠ .scalar) : ∃ k, n = k + 1 ∧ Awaits v whole (advance s false) (sent ++ emitted s) k := by
  obtain ⟨c,progress,enough⟩ := awaits.busy busy
  have left := progress.left
  have shape := piece_shape decoded progress
  have pos := shape.pos
  have fits := shape.fits
  obtain ⟨k,rfl⟩ : ∃ k, n = k + 1 := ⟨n - 1,by omega⟩
  refine ⟨k,rfl,?_,?_⟩
  · rw [List.append_assoc,← plan_step decoded progress]
    exact awaits.rest
  · intro still
    by_cases finished : c + (piece s).velemIncr = vaguVl v ∨ Skewed v c
    · exact absurd (advance_done decoded progress finished) still
    · rw [not_or] at finished
      exact ⟨_,advance_progress decoded progress finished.2 (by omega),by omega⟩

theorem accept_silent (vector : isVector v.instr.instrType = true) (idle : s.mode = .scalar) (accepted : feed 0 = (v,false)) :
    requests s feed 1 = [] := by
  change [] ++ (if (output s (fed s (feed 0).1 false (feed 0).2)).instr.valid then _ else []) = []
  rw [accepted,fed_scalar idle]
  simp [output,idle,passes,wired,vector]

theorem accept_awaits (decoded : Taken v) (idle : s.mode = .scalar) (accepted : feed 0 = (v,false)) :
    Progress v 0 (trace (machine s) feed 1) ∧ requests s feed 1 = [] := by
  constructor
  · change Progress v 0 (next s (fed s (feed 0).1 false (feed 0).2))
    rw [accepted,fed_scalar idle]
    exact accept_progress decoded idle false
  · exact accept_silent decoded.vector idle accepted

-- The induction is over the cycles since the instruction was accepted.
theorem busy_awaits (decoded : Taken v) (idle : s.mode = .scalar) (accepted : feed 0 = (v,false)) (t : Nat)
    (busy : ∀ u, 0 < u → u < t + 1 → (trace (machine s) feed u).mode ≠ .scalar) :
    ∃ n, Awaits v (plan (vaguVl v) (trace (machine s) feed 1)) (trace (machine s) feed (t + 1)) (requests s feed (t + 1)) n := by
  induction t with
  | zero =>
    obtain ⟨progress,none⟩ := accept_awaits decoded idle accepted
    refine ⟨vaguVl v,?_,fun _ => ⟨0,progress,by omega⟩⟩
    rw [none]
    rfl
  | succ t ih =>
    obtain ⟨n,awaits⟩ := ih fun u after before => busy u after (by omega)
    have here := busy (t + 1) (by omega) (by omega)
    change ∃ n, Awaits v _ (next (trace (machine s) feed (t + 1)) (fed (trace (machine s) feed (t + 1)) (feed (t + 1)).1 false (feed (t + 1)).2))
      (requests s feed (t + 1) ++ if (output (trace (machine s) feed (t + 1))
        (fed (trace (machine s) feed (t + 1)) (feed (t + 1)).1 false (feed (t + 1)).2)).instr.valid then [_] else []) n
    cases (feed (t + 1)).2 with
    | true =>
      rw [stalled_step here,stalled_output here,if_neg Bool.false_ne_true,List.append_nil]
      exact ⟨n,awaits⟩
    | false =>
      rw [moved_step here,moved_output here]
      obtain ⟨k,_,moved⟩ := awaits_step decoded awaits here
      exact ⟨k,moved⟩

theorem returned_plan (decoded : Taken v) (idle : s.mode = .scalar) (accepted : feed 0 = (v,false)) {t : Nat}
    (returns : Returns s feed t) : requests s feed t = plan (vaguVl v) (trace (machine s) feed 1) := by
  obtain ⟨some,done,busy⟩ := returns
  obtain ⟨u,rfl⟩ : ∃ u, t = u + 1 := ⟨t - 1,by omega⟩
  obtain ⟨n,awaits⟩ := busy_awaits decoded idle accepted u busy
  have rest := awaits.rest
  rw [plan_scalar done,List.append_nil] at rest
  exact rest

-- Each cycle that is not stalled brings the end nearer.
theorem awaits_returns (decoded : Taken v) (released : ∀ t, ∃ u, t ≤ u ∧ (feed u).2 = false) {whole sent : List (Output α)} {n t : Nat}
    (awaits : Awaits v whole (trace (machine s) feed t) sent n) : ∃ u, t ≤ u ∧ (trace (machine s) feed u).mode = .scalar := by
  induction n generalizing t sent with
  | zero =>
    by_cases busy : (trace (machine s) feed t).mode = .scalar
    · exact ⟨t,Nat.le_refl t,busy⟩
    · obtain ⟨k,none,_⟩ := awaits_step decoded awaits busy
      cases none
  | succ n ih =>
    by_cases busy : (trace (machine s) feed t).mode = .scalar
    · exact ⟨t,Nat.le_refl t,busy⟩
    · obtain ⟨u,later,same,moves⟩ := holds_until (fun u => trace (machine s) feed u = trace (machine s) feed t)
        (fun u => (feed u).2 = false) rfl (fun u _ same stalled => by
          rw [Bool.not_eq_false] at stalled
          change next (trace (machine s) feed u) (fed _ (feed u).1 false (feed u).2) = _
          rw [same,stalled]
          exact stalled_step busy _) (released t)
      have moved : trace (machine s) feed (u + 1) = advance (trace (machine s) feed t) false := by
        change next (trace (machine s) feed u) (fed _ (feed u).1 false (feed u).2) = _
        rw [same,moves]
        exact moved_step busy _
      obtain ⟨k,more,nearer⟩ := awaits_step decoded awaits busy
      obtain rfl : n = k := by omega
      rw [← moved] at nearer
      obtain ⟨w,after,done⟩ := ih nearer
      exact ⟨w,by omega,done⟩

theorem comes_back (decoded : Taken v) (idle : s.mode = .scalar) (accepted : feed 0 = (v,false))
    (released : ∀ t, ∃ u, t ≤ u ∧ (feed u).2 = false) : ∃ t, Returns s feed t := by
  obtain ⟨n,awaits⟩ := busy_awaits decoded idle accepted 0 (fun u after before => by omega)
  obtain ⟨t,after,done⟩ := awaits_returns decoded released awaits
  have back : ∃ t, 0 < t ∧ (trace (machine s) feed t).mode = .scalar := ⟨t,after,done⟩
  refine ⟨Nat.find back,(Nat.find_spec back).1,(Nat.find_spec back).2,?_⟩
  intro u later before busy
  exact Nat.find_min back before ⟨later,busy⟩

theorem empty_over (vector : isVector v.instr.instrType = true) (empty : v.instr.vl.val = 0) (idle : s.mode = .scalar)
    (accepted : feed 0 = (v,false)) : (trace (machine s) feed 1).mode = .scalar ∧ requests s feed 1 = [] := by
  have none : (v.instr.vl != 0) = false := bne_eq_false_iff_eq.mpr (Fin.ext empty)
  constructor
  · change (next s (fed s (feed 0).1 false (feed 0).2)).mode = .scalar
    rw [accepted,fed_scalar idle]
    simp [next,idle,accept,wired,startMode,none]
  · exact accept_silent vector idle accepted

theorem over_returns (ended : (trace (machine s) feed 1).mode = .scalar) : Returns s feed 1 :=
  ⟨Nat.one_pos,ended,fun u after before => by omega⟩

theorem returns_once {t : Nat} (returns : Returns s feed t) (ended : (trace (machine s) feed 1).mode = .scalar) : t = 1 := by
  by_contra later
  have begun := returns.1
  exact returns.2.2 1 Nat.one_pos (by omega) ended

theorem scalar_over (idle : s.mode = .scalar) (accepted : feed 0 = (v,false))
    (stays : startMode (wired v false false) = .scalar) : (trace (machine s) feed 1).mode = .scalar := by
  change (next s (fed s (feed 0).1 false (feed 0).2)).mode = .scalar
  rw [accepted,fed_scalar idle]
  exact (accept_setup idle false).mode.trans stays

theorem scalar_returns (vector : isVector v.instr.instrType = true) (idle : s.mode = .scalar) (accepted : feed 0 = (v,false))
    (stays : startMode (wired v false false) = .scalar) (t : Nat) (returns : Returns s feed t) : requests s feed t = [] := by
  obtain rfl := returns_once returns (scalar_over idle accepted stays)
  exact accept_silent vector idle accepted

theorem masked_scalar (kind : v.instr.instrType ∈ [.vsm,.vs1r]) (masked : v.useMask = true) : startMode (wired v false false) = .scalar := by
  simp only [List.mem_cons,List.not_mem_nil,or_false] at kind
  unfold startMode
  rcases kind with same | same <;> simp [wired,same,masked,vle,vlse,vlxe]

-- A vector access that is not flushed is covered, or ends misaligned, exactly if it is regular.
-- Stalls do not matter.
theorem vector_access_covered (decoded : Decoded v) (idle : s.mode = .scalar) (accepted : feed 0 = (v,false)) :
    (∀ t, Returns s feed t → ((Flagged v (requests s feed t) ∨ Coverage v (requests s feed t)) ↔ Regular v)) ∧
      ((∀ t, ∃ u, t ≤ u ∧ (feed u).2 = false) → ∃ t, Returns s feed t) := by
  by_cases dropped : v.useMask = true ∧ v.instr.instrType ∈ [.vsm,.vs1r]
  · obtain ⟨masked,store⟩ := dropped
    have stays := masked_scalar store masked
    refine ⟨?_,fun _ => ⟨1,over_returns (scalar_over idle accepted stays)⟩⟩
    intro t returns
    rw [scalar_returns decoded.vector idle accepted stays t returns]
    constructor
    · rintro (⟨r,last,_⟩ | coverage)
      · cases last
      · have sum : 0 = vaguVl v := coverage.sum
        have some := vaguVl_bounds decoded
        omega
    · intro regular
      exact absurd store (regular.cut masked)
  · have taken : Taken v := ⟨decoded,fun masked store => dropped ⟨masked,store⟩⟩
    constructor
    · intro t returns
      rw [returned_plan taken idle accepted returns]
      exact plan_covers taken (accept_awaits taken idle accepted).1
    · exact comes_back taken idle accepted

def start : State Unit :=
  ⟨.scalar,0,0,0,0,0,false,0,0,0,MemInstr.zero,0,0,0,0,false,false,false⟩

def halfwords (t : InstrType) (base stride : BitVec 64) (mask : Option (BitVec 16)) : VectorInstr Unit where
  instr := { MemInstr.zero with valid := true, instrType := t, memSize := 5, dataRs1 := base, sew := 1, vl := 4 }
  useMask := mask.isSome
  dataVm := mask.getD (BitVec.allOnes 16)
  dataRs2 := stride
  dataVs1 := 0
  dataVs2 := 0

theorem halfwords_decoded {t : InstrType} (kind : t = vle ∨ t = vlse) (base stride : BitVec 64) (mask : Option (BitVec 16)) :
    Decoded (halfwords t base stride mask) := by
  refine ⟨rfl,?_,by simp [halfwords],by simp [halfwords],by change 4 * 2 ^ 1 ≤ 16; decide,?_⟩
  · rcases kind with rfl | rfl <;> rfl
  · cases mask <;> simp [halfwords]

-- The second cycle is stalled; the elements lie on two lines.
def crossing (t : Nat) : VectorInstr Unit × Bool := (halfwords vle 0x100c 0 none,decide (t = 1))

theorem vector_access_covered_crossing : ∃ t, Returns start crossing t ∧
    (Flagged (halfwords vle 0x100c 0 none) (requests start crossing t) ∨
      Coverage (halfwords vle 0x100c 0 none) (requests start crossing t)) := by
  obtain ⟨covered,returns⟩ := vector_access_covered (halfwords_decoded (.inl rfl) 0x100c 0 none)
    (show start.mode = .scalar from rfl) (show crossing 0 = _ from rfl)
  obtain ⟨t,back⟩ := returns fun t => ⟨t + 2,by omega,by simp [crossing]⟩
  refine ⟨t,back,(covered t back).mpr ⟨fun masks => ?_,fun masks => ?_,fun indexes => ?_,fun m within skew => ?_⟩⟩
  · cases masks
  · cases masks
  · cases indexes
  · have aligned : ∀ m < 4, ¬ Skewed (halfwords vle 0x100c 0 none) m := by decide
    exact absurd skew (aligned m within)

-- The first element is misaligned and masked off, so nothing is asked for and the unit
-- stops before the second one, which is aligned and active.
def masked (_ : Nat) : VectorInstr Unit × Bool := (halfwords vlse 0x1001 3 (some 2),false)

theorem masked_skew_uncovered : Decoded (halfwords vlse 0x1001 3 (some 2)) ∧ start.mode = .scalar ∧
    masked 0 = (halfwords vlse 0x1001 3 (some 2),false) ∧ Returns start masked 2 ∧
    ¬ (Flagged (halfwords vlse 0x1001 3 (some 2)) (requests start masked 2) ∨
      Coverage (halfwords vlse 0x1001 3 (some 2)) (requests start masked 2)) := by
  have none : requests start masked 2 = [] := rfl
  refine ⟨halfwords_decoded (.inr rfl) _ _ _,rfl,rfl,⟨by decide,rfl,?_⟩,?_⟩
  · intro u after before
    obtain rfl : u = 1 := by omega
    decide
  · rw [none]
    rintro (⟨r,last,_⟩ | coverage)
    · cases last
    · have sum := coverage.sum
      cases sum

end Sargantana.VaguCoverage
