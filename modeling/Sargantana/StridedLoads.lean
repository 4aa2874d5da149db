import Sargantana.VloadElements

-- Strided loads of vagu, line by line and element by element, as mem_unit reads them back.
namespace Sargantana.StridedLoads
open DracPkg Vagu VaguPieces VaguCoverage VloadGather Gather StateMachine

variable {α : Type}

-- What the decoder (vl is at most VMAXELEM >> width) and exe_stage (no exception yet) promise
-- of a strided load, with a stride of 2 ^ l bytes up or down and an aligned base
structure Strided (v : VectorInstr α) (l : Nat) : Prop where
  decoded : Decoded v
  kind : v.instr.instrType = vlse
  fits : v.instr.vl.val ≤ 16 / 2 ^ elemLog v.instr.memSize
  quiet : v.instr.ex.valid = false
  small : l ≤ 3
  stride : v.dataRs2 = BitVec.ofNat 64 (2 ^ l) ∨ v.dataRs2 = -BitVec.ofNat 64 (2 ^ l)
  wide : elemLog v.instr.memSize ≤ l
  aligned : misaligned (elemLog v.instr.memSize) v.instr.dataRs1 = false

-- The unit with the requests for lines turned off
def ungrouped (s : State α) : State α := { s with group := false, groupNeg := false }

variable {v : VectorInstr α} {s : State α} {c l : Nat}

theorem Strided.taken (strided : Strided v l) : Taken v :=
  ⟨strided.decoded,fun _ => by rw [strided.kind]; decide⟩

theorem Strided.length (strided : Strided v l) : vaguVl v = v.instr.vl.val := by
  simp [vaguVl,strided.kind,vlse]

theorem Strided.room (strided : Strided v l) : vaguVl v ≤ 16 / 2 ^ elemLog v.instr.memSize := by
  rw [strided.length]
  exact strided.fits

theorem Strided.plain (strided : Strided v l) : isIndexed v = false ∧ step v = vaguStride v :=
  strided_step (.inl (by rw [strided.kind]; exact List.mem_cons_self))

theorem Strided.steps (strided : Strided v l) :
    step v = BitVec.ofNat 64 (2 ^ l) ∨ step v = -BitVec.ofNat 64 (2 ^ l) := by
  have stride : step v = v.dataRs2 := by simp [step,isUnit,strided.kind,vlse,vle]
  rw [stride]
  exact strided.stride

theorem Strided.straight (strided : Strided v l) (i : Nat) :
    misaligned (elemLog v.instr.memSize) (elemAddr v i) = false := by
  rw [skew_step strided.decoded strided.plain.1 strided.wide strided.steps i]
  have base : elemAddr v 0 = v.instr.dataRs1 := by simp [elemAddr,strided.plain.1]
  rw [base]
  exact strided.aligned

theorem Strided.unskewed (strided : Strided v l) (i : Nat) : ¬ Skewed v i := by
  intro skew
  have straight := strided.straight i
  rw [skew.2] at straight
  cases straight

theorem Strided.mode (strided : Strided v l) : startMode (wired v false false) = .vlStrided := by
  rcases mode_cases strided.taken with ⟨_,kind⟩ | ⟨_,kind,_⟩ | ⟨mode,_⟩ | ⟨_,kind⟩ | ⟨_,kind⟩ | ⟨_,kind⟩
  · rw [strided.kind] at kind
    simp [vlse,vle] at kind
  · rw [strided.kind] at kind
    simp [vlse] at kind
  · exact mode
  · rw [strided.kind] at kind
    simp [vlse] at kind
  · rw [strided.kind] at kind
    simp [vlse,vlxe] at kind
  · rw [strided.kind] at kind
    simp [vlse] at kind

theorem kept_active (strided : Strided v l) (r : Output α) {k : Nat} (inside : k < vaguVl v) : kept v r k ↔ Active v k := by
  have other : v.instr.instrType ≠ .vlm := by rw [strided.kind]; decide
  have most := vaguVl_le strided.decoded
  unfold kept Active
  constructor
  · rintro (set | ⟨mask,_⟩ | above)
    · exact .inr set
    · exact absurd mask other
    · omega
  · rintro (unmasked | set)
    · exact .inl (unmasked_active strided.decoded k (by omega) unmasked)
    · exact .inl set

-- The register takes the active ones of m elements from c on when the places in data_to_wb
-- are those of the elements.
theorem takes_wanted (strided : Strided v l) {r : Output α} {m : Nat} {place : Nat → Nat} (takes : Takes r c m place)
    (sew : r.instr.sew.val = elemLog v.instr.memSize) (fits : c + m ≤ vaguVl v)
    (bytes : ∀ q < m, ∀ j < 2 ^ elemLog v.instr.memSize,
      sourceByte r (place q * 2 ^ elemLog v.instr.memSize + j) = some (elemAddr v (c + q) + BitVec.ofNat 64 j)) :
    readBack v [r] = wanted v c m := by
  have small := elemLog_le strided.decoded
  ext ⟨k,a⟩
  simp only [readBack,Reads,wanted,Set.mem_ofPred_eq,List.mem_singleton,exists_eq_left,sew]
  constructor
  · rintro ⟨kept,i,taken,j,inside,source⟩
    obtain ⟨q,less,rfl,rfl⟩ := (takes k i).mp taken
    rw [bytes q less j inside] at source
    exact ⟨by omega,by omega,(kept_active strided r (by omega)).mp kept,
      (near_iff small).mp ⟨j,inside,Option.some.inj source⟩⟩
  · rintro ⟨after,before,live,near⟩
    obtain ⟨j,inside,here⟩ := (near_iff small).mpr near
    obtain ⟨q,rfl⟩ : ∃ q, k = c + q := ⟨k - c,by omega⟩
    refine ⟨(kept_active strided r (by omega)).mpr live,place q,(takes _ _).mpr ⟨q,by omega,rfl,rfl⟩,j,inside,?_⟩
    rw [bytes q (by omega) j inside,here]

theorem masked_wanted {r : Output α} {m : Nat} (none : r.instr.loadMask = 0) (idle : ∀ i, c ≤ i → i < c + m → ¬ Active v i) :
    readBack v [r] = wanted v c m := by
  rw [wanted_idle idle]
  ext ⟨k,a⟩
  simp only [readBack,Reads,Set.mem_ofPred_eq,List.mem_singleton,exists_eq_left,Set.mem_empty_iff_false,iff_false]
  rintro ⟨_,i,taken,_⟩
  obtain ⟨q,less,_⟩ := (takes_none none c id k i).mp taken
  omega

theorem request_sew (decoded : Decoded v) (instr : s.instr = v.instr) (mode : s.mode = .vlStrided) :
    (request s).instr.sew.val = elemLog v.instr.memSize := by
  have small := elemLog_le decoded
  change (pieceSew s).val = _
  simp only [pieceSew,mode,instr]
  exact Nat.mod_eq_of_lt (by omega)

theorem request_elements (decoded : Decoded v) (instr : s.instr = v.instr) (mode : s.mode = .vlStrided) :
    elements (request s) = 16 / 2 ^ elemLog v.instr.memSize := by
  rw [elements,request_sew decoded instr mode]

theorem request_quiet (strided : Strided v l) (instr : s.instr = v.instr) : (request s).instr.ex.valid = false := by
  change s.instr.ex.valid = false
  rw [instr,strided.quiet]

theorem Strided.load (strided : Strided v l) : VloadElements.Load v :=
  ⟨strided.decoded,by rw [strided.kind]; decide,fun _ => strided.fits,strided.quiet⟩

theorem Strided.direct (strided : Strided v l) : VloadElements.Direct v := by
  refine VloadElements.Straight.direct ⟨fun i _ _ => ?_,fun indexes => ?_⟩ (by rw [strided.kind]; decide)
  · rw [VloadElements.plain_log strided.plain.1]
    exact strided.straight i
  · rw [strided.plain.1] at indexes
    cases indexes

-- Element c is the next one of a strided load, however the elements are grouped.
structure Alone (v : VectorInstr α) (c : Nat) (s : State α) : Prop where
  mode : s.mode = .vlStrided
  instr : s.instr = v.instr
  vl : s.vl = vaguVl v
  masked : s.maskedOp = v.useMask
  mask : v.useMask = true → ∀ i < vaguVl v, s.mask.getLsbD i = v.dataVm.getLsbD i
  cnt : s.velemCnt = c
  left : c < vaguVl v
  vaddr : s.vaddr = elemAddr v c
  signed : ∀ a : BitVec 64, (if s.negStride then a - s.stride else a + s.stride) = a + step v

theorem alone_of_progress (strided : Strided v l) (progress : Progress v c s) : Alone v c s where
  mode := progress.setup.mode.trans strided.mode
  instr := progress.setup.instr
  vl := progress.setup.vl
  masked := progress.setup.masked
  mask masked _ small := mask_bit strided.decoded (by rw [strided.kind]; decide) progress.setup (.inl masked) small
  cnt := progress.cnt
  left := progress.left
  vaddr := VloadElements.here progress strided.plain.1
  signed a := by rw [progress.setup.signed,strided.plain.2]

theorem Alone.ungrouped (alone : Alone v c s) : Alone v c (ungrouped s) :=
  ⟨alone.mode,alone.instr,alone.vl,alone.masked,alone.mask,alone.cnt,alone.left,alone.vaddr,alone.signed⟩

theorem Alone.active (alone : Alone v c s) : active s = true ↔ Active v c := by
  unfold Vagu.active Active
  rw [alone.masked,alone.cnt]
  cases masked : v.useMask with
  | false => simp
  | true =>
    rw [alone.mask masked c alone.left]
    simp

theorem Alone.misalign (strided : Strided v l) (alone : Alone v c s) :
    (vlSingle (elemLog v.instr.memSize) s).misalign = false := by
  change misaligned _ s.vaddr = false
  rw [alone.vaddr]
  exact strided.straight c

theorem single_wanted (strided : Strided v l) (alone : Alone v c s)
    (same : piece s = vlSingle (elemLog v.instr.memSize) s) : readBack v (emitted s) = wanted v c 1 := by
  have small := elemLog_le strided.decoded
  have most := vaguVl_le strided.decoded
  have room := strided.room
  have left := alone.left
  have valid : (request s).instr.valid = (piece s).makeReq := by
    change (s.instr.valid && (piece s).makeReq) = _
    rw [alone.instr,strided.decoded.valid,Bool.true_and]
  have loadMask : (request s).instr.loadMask = if active s then 1 else 0 := congrArg Piece.loadMask same
  have made : (piece s).makeReq = (active s || decide (s.vl ≤ s.velemCnt + 1)) := congrArg Piece.makeReq same
  unfold emitted
  rw [valid,made]
  cases live : active s with
  | true =>
    rw [live,if_pos rfl] at loadMask
    have row := request_elements (s := s) strided.decoded alone.instr alone.mode
    have line : 16 / 2 ^ elemLog v.instr.memSize ≤ 16 := Nat.div_le_self _ _
    have place : (request s).instr.velemId.val = c := by
      change s.velemCnt % 16 = c
      rw [alone.cnt,Nat.mod_eq_of_lt (by omega)]
    have one : (1 : BitVec 16) = spread 1 id 1 := by decide
    have takes := takes_up (congrArg Piece.negStride same) (request_quiet strided alone.instr) (loadMask.trans one)
      (congrArg Piece.velemOff same) place Nat.one_pos (by omega) (fun q less => by simp only [vlSingle]; omega) (by omega)
    have base : (request s).instr.dataRs1 = s.vaddr := congrArg Piece.dataRs1 same
    rw [Bool.true_or,if_pos rfl]
    refine takes_wanted strided takes (request_sew strided.decoded alone.instr alone.mode) left fun q less j byte => ?_
    obtain rfl : q = 0 := by omega
    have source := source_narrow small (congrArg Piece.memSize same) (by rw [base]; exact alone.misalign strided) byte
    simp only [vlSingle,Nat.zero_mul,Nat.zero_add,Nat.add_zero]
    rw [source,base,alone.vaddr]
  | false =>
    rw [live,if_neg Bool.false_ne_true] at loadMask
    have idle : ∀ i, c ≤ i → i < c + 1 → ¬ Active v i := by
      intro i after before active
      rw [show i = c by omega] at active
      rw [alone.active.mpr active] at live
      cases live
    split
    · exact masked_wanted loadMask idle
    · rw [readBack_nil,wanted_idle idle]

theorem Alone.advance (strided : Strided v l) (alone : Alone v c s)
    (same : piece s = vlSingle (elemLog v.instr.memSize) s) (more : c + 1 < vaguVl v) : Alone v (c + 1) (advance s false) := by
  have on : ¬ (ends s (s.velemCnt + 1) || false || false) = true := by
    simp only [ends,alone.mode,alone.vl,alone.cnt,Bool.or_false,decide_eq_true_eq]
    omega
  refine ⟨?_,alone.instr,alone.vl,alone.masked,alone.mask,?_,more,?_,alone.signed⟩
  · simp only [Vagu.advance,same,alone.misalign strided]
    exact (if_neg on).trans alone.mode
  · simp only [Vagu.advance,same]
    exact congrArg (· + 1) alone.cnt
  · simp only [Vagu.advance,same]
    change (if s.negStride then s.vaddr - s.stride else s.vaddr + s.stride) = _
    rw [alone.signed,elemAddr_add strided.plain.1,alone.vaddr]
    simp

theorem Alone.done (alone : Alone v c s) (same : piece s = vlSingle (elemLog v.instr.memSize) s)
    (last : c + 1 = vaguVl v) : (Vagu.advance s false).mode = .scalar := by
  have off : (ends s (s.velemCnt + 1) || false || (vlSingle (elemLog v.instr.memSize) s).misalign) = true := by
    simp only [ends,alone.mode,alone.vl,alone.cnt,Bool.or_eq_true,decide_eq_true_eq]
    exact .inl (.inl (by omega))
  simp only [Vagu.advance,same]
  exact if_pos off

theorem single_of_flags (alone : Alone v c s) (up : s.group = false) (down : s.groupNeg = false) :
    piece s = vlSingle (elemLog v.instr.memSize) s := by
  simp [piece,alone.mode,alone.instr,vlStrided,up,down]

-- Element by element. The induction is on the elements that are left.
theorem single_plan (strided : Strided v l) {fuel : Nat} (alone : Alone v c s) (up : s.group = false)
    (down : s.groupNeg = false) (enough : vaguVl v ≤ c + fuel) :
    readBack v (plan fuel s) = wanted v c (vaguVl v - c) := by
  induction fuel generalizing c s with
  | zero =>
    have left := alone.left
    omega
  | succ fuel ih =>
    have same := single_of_flags alone up down
    have busy : s.mode ≠ .scalar := by rw [alone.mode]; decide
    rw [plan,if_neg busy,readBack_append,single_wanted strided alone same]
    have left := alone.left
    by_cases last : c + 1 = vaguVl v
    · rw [plan_scalar (alone.done same last),readBack_nil,Set.union_empty,show vaguVl v - c = 1 by omega]
    · rw [ih (alone.advance strided same (by omega)) up down (by omega),wanted_append]
      congr 1
      omega

theorem piece_wanted (strided : Strided v l) (progress : Progress v c s) :
    readBack v (emitted s) = wanted v c (piece s).velemIncr := by
  have shape := piece_shape strided.taken progress
  have log := VloadElements.plain_log strided.plain.1
  rcases emitted_cases strided.taken progress with ⟨made,list⟩ | ⟨none,list⟩
  · rw [list]
    rcases VloadElements.piece_brings strided.load progress strided.direct with ⟨place,takes,bytes⟩ | ⟨zero,idle⟩
    · rw [log] at bytes
      exact takes_wanted strided takes (log ▸ VloadElements.request_sew strided.load progress) shape.fits bytes
    · exact masked_wanted zero idle
  · rcases shape.kind with ⟨made,_⟩ | ⟨_,single,_,idle,_⟩
    · rw [none] at made
      cases made
    · rw [list,readBack_nil,wanted_idle]
      intro i after before
      rw [show i = c by omega]
      exact idle

theorem grouped_plan (strided : Strided v l) {fuel : Nat} (progress : Progress v c s) (enough : vaguVl v ≤ c + fuel) :
    readBack v (plan fuel s) = wanted v c (vaguVl v - c) := by
  induction fuel generalizing c s with
  | zero =>
    have left := progress.left
    omega
  | succ fuel ih =>
    have shape := piece_shape strided.taken progress
    have fits := shape.fits
    have pos := shape.pos
    rw [plan_step strided.taken progress,readBack_append,piece_wanted strided progress]
    by_cases last : c + (piece s).velemIncr = vaguVl v
    · rw [plan_scalar (advance_done strided.taken progress (.inl last)),readBack_nil,Set.union_empty]
      congr 1
      omega
    · rw [ih (advance_progress strided.taken progress (strided.unskewed c) (by omega)) (by omega),wanted_append]
      congr 1
      omega

variable {feed : Nat → VectorInstr α × Bool}

-- A strided load, with elements or without
structure Load (v : VectorInstr α) (l : Nat) : Prop where
  kind : v.instr.instrType = vlse
  strided : 0 < v.instr.vl.val → Strided v l

-- A strided load that is not flushed reads back, element by element and byte by byte, what it
-- would read with the requests for lines turned off. Stalls do not matter.
theorem grouped_strided_agrees (load : Load v l) (idle : s.mode = .scalar) (accepted : feed 0 = (v,false)) :
    (∀ t, Returns s feed t → readBack v (requests s feed t) =
        readBack v (plan (vaguVl v) (ungrouped (trace (machine s) feed 1)))) ∧
      ((∀ t, ∃ u, t ≤ u ∧ (feed u).2 = false) → ∃ t, Returns s feed t) := by
  rcases Nat.eq_zero_or_pos v.instr.vl.val with empty | some
  · have vector : isVector v.instr.instrType = true := by rw [load.kind]; rfl
    obtain ⟨ended,none⟩ := empty_over vector empty idle accepted
    refine ⟨fun t returns => ?_,fun _ => ⟨1,over_returns ended⟩⟩
    rw [returns_once returns ended,none,plan_scalar (show (ungrouped (trace (machine s) feed 1)).mode = .scalar from ended)]
  · have strided := load.strided some
    have progress := (accept_awaits strided.taken idle accepted).1
    refine ⟨fun t returns => ?_,comes_back strided.taken idle accepted⟩
    have alone := (alone_of_progress strided progress).ungrouped
    rw [returned_plan strided.taken idle accepted returns,grouped_plan strided progress (by omega),
      single_plan strided alone rfl rfl (by omega)]

-- Four halfwords every four bytes downwards over two lines, the second one masked off
def downwards (_ : Nat) : VectorInstr Unit × Bool := (halfwords Vagu.vlse 0x1006 (-4) (some 0b1101),false)

theorem downwards_load : Load (halfwords Vagu.vlse 0x1006 (-4) (some 0b1101)) 2 :=
  ⟨rfl,fun _ => ⟨halfwords_decoded (.inr rfl) _ _ _,rfl,by decide,rfl,by decide,.inr rfl,by decide,by decide⟩⟩

theorem grouped_strided_agrees_downwards : ∃ t, Returns start downwards t ∧
    readBack (halfwords Vagu.vlse 0x1006 (-4) (some 0b1101)) (requests start downwards t) =
      readBack (halfwords Vagu.vlse 0x1006 (-4) (some 0b1101)) (plan 4 (ungrouped (trace (machine start) downwards 1))) := by
  obtain ⟨agrees,returns⟩ := grouped_strided_agrees downwards_load (show start.mode = .scalar from rfl)
    (show downwards 0 = _ from rfl)
  obtain ⟨t,back⟩ := returns fun t => ⟨t,Nat.le_refl t,rfl⟩
  exact ⟨t,back,agrees t back⟩

end Sargantana.StridedLoads
