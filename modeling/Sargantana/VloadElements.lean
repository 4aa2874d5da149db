import Sargantana.VloadGather
import Sargantana.MemUnit

-- What the requests of a vector load bring into the register, in every addressing mode.
namespace Sargantana.VloadElements
open DracPkg Vagu VaguPieces VaguCoverage VloadGather

variable {α : Type} {v : VectorInstr α} {s : State α} {c : Nat}

-- What the decoder (vl is at most VMAXELEM >> width) and exe_stage (no exception yet) promise
-- of a vector load
structure Load (v : VectorInstr α) : Prop where
  decoded : Decoded v
  kind : v.instr.instrType ∈ [vle,.vlm,.vl1r,vlse,.vleff,vlxe]
  fits : v.instr.instrType ∈ [vle,vlse,.vleff] → v.instr.vl.val ≤ 16 / 2 ^ elemLog v.instr.memSize
  quiet : v.instr.ex.valid = false

-- The elements of the register have 2 ^ registerLog bytes; a load with indices has those of
-- vtype.
def registerLog (v : VectorInstr α) : Nat := if isIndexed v then v.instr.sew.val else elemLog v.instr.memSize

-- No element is misaligned, masked off or not (with indices, no active one), and an index cut to
-- the width of an element leads to the element.
structure Straight (v : VectorInstr α) : Prop where
  aligned : ∀ i < vaguVl v, isIndexed v = false ∨ Active v i → misaligned (registerLog v) (elemAddr v i) = false
  narrow : isIndexed v = true → ∀ i < vaguVl v, Active v i → elemAddr v i =
    v.instr.dataRs1 + BitVec.ofNat 64 (indexAt (vaguIndex v) (min (elemLog v.instr.memSize) v.instr.sew.val) i)

-- vagu sees an active element of a whole register, and no element of a mask is masked off that lies
-- in the line of its base: mem_unit writes these in any case.
structure Direct (v : VectorInstr α) : Prop extends Straight v where
  seen : Seen v
  mask : v.instr.instrType = .vlm → elemLog v.instr.memSize = 0 → ∀ i < reach v, Active v i

theorem Straight.direct (straight : Straight v) (other : v.instr.instrType ∉ [.vlm,.vl1r]) : Direct v := by
  simp only [List.mem_cons,List.not_mem_nil,or_false,not_or] at other
  exact ⟨straight,fun _ whole => absurd whole other.2,fun mask => absurd mask other.1⟩

-- An answer gives the register m elements from c on, each with its own bytes.
def Brings (v : VectorInstr α) (r : Output α) (c m : Nat) : Prop :=
  ∃ place, Takes r c m place ∧ ∀ q < m, ∀ j < 2 ^ registerLog v,
    sourceByte r (place q * 2 ^ registerLog v + j) = some (elemAddr v (c + q) + BitVec.ofNat 64 j)

-- Or it gives none of them, and none is active.
def Spares (v : VectorInstr α) (r : Output α) (c m : Nat) : Prop :=
  r.instr.loadMask = 0 ∧ ∀ i, c ≤ i → i < c + m → ¬ Active v i

theorem Load.taken (load : Load v) : Taken v := by
  have kind := load.kind
  refine ⟨load.decoded,fun _ store => ?_⟩
  simp only [List.mem_cons,List.not_mem_nil,or_false] at kind store
  rcases store with store | store <;> rw [store] at kind <;> simp [vle,vlse,vlxe] at kind

theorem plain_log (plain : isIndexed v = false) : registerLog v = elemLog v.instr.memSize := by
  rw [registerLog,plain]
  rfl

theorem registerLog_le (decoded : Decoded v) : registerLog v ≤ 3 := by
  have small := elemLog_le decoded
  have width := v.instr.sew.isLt
  unfold registerLog
  split <;> omega

theorem Load.modes (load : Load v) :
    (startMode (wired v false false) = .vlUnit ∧ isUnit v = true) ∨
    (startMode (wired v false false) = .vlStrided ∧ isIndexed v = false ∧ step v = vaguStride v) ∨
    (startMode (wired v false false) = .vlIndexed ∧ isIndexed v = true) := by
  have kinds := load.kind
  rcases mode_cases load.taken with ⟨mode,kind⟩ | ⟨_,kind,_⟩ | ⟨mode,kind⟩ | ⟨_,kind⟩ | ⟨mode,kind⟩ | ⟨_,kind⟩
  · left
    refine ⟨mode,?_⟩
    simp only [List.mem_cons,List.not_mem_nil,or_false] at kind
    simp only [isUnit,decide_eq_true_eq,List.mem_cons,List.not_mem_nil,or_false]
    rcases kind with kind | kind | kind <;> simp [kind]
  · simp only [List.mem_cons,List.not_mem_nil,or_false] at kind
    rcases kind with kind | kind | kind <;> rw [kind] at kinds <;> simp [vle,vlse,vlxe] at kinds
  · exact .inr (.inl ⟨mode,strided_step (.inl kind)⟩)
  · simp only [List.mem_cons,List.not_mem_nil,or_false] at kind
    rcases kind with kind | kind <;> rw [kind] at kinds <;> simp [vle,vlse,vlxe] at kinds
  · exact .inr (.inr ⟨mode,by simp [isIndexed,kind]⟩)
  · rw [kind] at kinds
    simp [vle,vlse,vlxe] at kinds

theorem Load.room (load : Load v) : vaguVl v ≤ 16 / 2 ^ registerLog v := by
  have register := load.decoded.register
  have size := decoded_size load.decoded
  have kind := load.kind
  have fits := load.fits
  have small : v.instr.vl.val ≤ 16 := le_trans (Nat.le_mul_of_pos_right _ (Nat.two_pow_pos _)) register
  have bytes : 2 ≤ 16 / 2 ^ elemLog v.instr.memSize := by
    rcases size with ⟨_,e⟩ | ⟨_,e⟩ | ⟨_,e⟩ | ⟨_,e⟩ <;> rw [e] <;> decide
  simp only [List.mem_cons,List.not_mem_nil,or_false] at kind fits
  rcases kind with kind | kind | kind | kind | kind | kind
  · simpa [vaguVl,registerLog,isIndexed,kind,vle,vlxe] using fits (.inl kind)
  · simp only [vaguVl,registerLog,isIndexed,kind,vlxe]
    simp
    omega
  · simp [vaguVl,registerLog,isIndexed,kind,vlxe]
  · simpa [vaguVl,registerLog,isIndexed,kind,vlse,vlxe] using fits (.inr (.inl kind))
  · simpa [vaguVl,registerLog,isIndexed,kind,vlxe] using fits (.inr (.inr kind))
  · simp only [vaguVl,registerLog,isIndexed,kind,vlxe]
    simpa using (Nat.le_div_iff_mul_le (Nat.two_pow_pos _)).mpr register

theorem mask_given {p : Prop} [Decidable p] {mask : BitVec 16} (some : (if p then mask else 0) ≠ 0) : (if p then mask else 0) = mask := by
  split
  · rfl
  · rename_i none
    rw [if_neg none] at some
    exact absurd rfl some

section
variable (load : Load v) (progress : Progress v c s)
include load progress

theorem request_sew : (request s).instr.sew.val = registerLog v := by
  have small := elemLog_le load.decoded
  have mode := progress.setup.mode
  have instr := progress.setup.instr
  change (pieceSew s).val = _
  rcases load.modes with ⟨start,unit⟩ | ⟨start,plain,_⟩ | ⟨start,indexes⟩ <;> rw [start] at mode <;> simp only [pieceSew,mode,instr]
  · rw [registerLog,(unit_step unit).1]
    exact Nat.mod_eq_of_lt (by omega)
  · rw [registerLog,plain]
    exact Nat.mod_eq_of_lt (by omega)
  · rw [registerLog,indexes]
    rfl

theorem request_elements : elements (request s) = 16 / 2 ^ registerLog v := by
  rw [elements,request_sew load progress]

theorem request_place : (request s).instr.velemId.val = c := (request_fields load.taken progress).1

theorem request_quiet : (request s).instr.ex.valid = false := by
  change s.instr.ex.valid = false
  rw [progress.setup.instr,load.quiet]

theorem line_brings {k m : Nat} (plain : isIndexed v = false) (wide : elemLog v.instr.memSize ≤ k)
    (aligned : misaligned (elemLog v.instr.memSize) s.vaddr = false) (size : (request s).instr.memSize = lineSize)
    (base : (request s).instr.dataRs1 = lineAddr s.vaddr) (up : (request s).negStride = false)
    (start : (request s).velemOff = lineOff (elemLog v.instr.memSize) s.vaddr)
    (mask : (request s).instr.loadMask = spread (2 ^ (k - elemLog v.instr.memSize)) id m) (fits : c + m ≤ vaguVl v)
    (inside : ∀ q < m, q * 2 ^ (k - elemLog v.instr.memSize) < 16 / 2 ^ elemLog v.instr.memSize - lineOff (elemLog v.instr.memSize) s.vaddr)
    (address : ∀ q, elemAddr v (c + q) = s.vaddr + BitVec.ofNat 64 (q * 2 ^ k)) : Brings v (request s) c m := by
  have small := elemLog_le load.decoded
  have log := plain_log plain
  have room := load.room
  have row := request_elements load progress
  have line : 16 / 2 ^ elemLog v.instr.memSize ≤ 16 := Nat.div_le_self _ _
  rw [log] at row room
  have takes := takes_up up (request_quiet load progress) mask start (request_place load progress) (Nat.two_pow_pos _) (by omega)
    (fun q less => by have below := inside q less; omega) (by omega)
  refine ⟨_,takes,fun q less j byte => ?_⟩
  have below := inside q less
  rw [log] at byte ⊢
  have place : lineOff (elemLog v.instr.memSize) s.vaddr + q * 2 ^ (k - elemLog v.instr.memSize) <
      16 / 2 ^ elemLog v.instr.memSize := by omega
  rw [source_line size base (inside_line place byte),line_up small wide aligned,address]

omit load in
theorem here (plain : isIndexed v = false) : s.vaddr = elemAddr v c := by
  simp [progress.vaddr,plain]

-- A request without a mask is for elements that are masked off.
theorem zero_spares (seen : Seen v) (zero : (piece s).loadMask = 0) : Spares v (request s) c (piece s).velemIncr := by
  have shape := piece_shape load.taken progress
  have pos := shape.pos
  refine ⟨zero,?_⟩
  rcases shape.kind with ⟨_,_,counts | ⟨_,idle⟩⟩ | ⟨_,single,_,idle,_⟩
  · rw [zero,ones_zero,Nat.zero_min] at counts
    omega
  · exact idle seen
  · intro i after before
    rw [show i = c by omega]
    exact idle

section
variable (straight : Direct v)
include straight

omit load in
theorem here_aligned (plain : isIndexed v = false) : misaligned (elemLog v.instr.memSize) s.vaddr = false := by
  rw [here progress plain,← plain_log plain]
  exact straight.aligned c progress.left (.inl plain)

theorem unit_brings (unit : isUnit v = true) (same : piece s = vlUnit (elemLog v.instr.memSize) s) (some : (piece s).loadMask ≠ 0) :
    Brings v (request s) c (piece s).velemIncr := by
  obtain ⟨plain,pow⟩ := unit_step unit
  have aligned := here_aligned progress straight plain
  have fits := (piece_shape load.taken progress).fits
  have most := vaguVl_le load.decoded
  have incr := vlUnit_incr (elemLog v.instr.memSize) progress
  have off := lineOff_lt _ (elemLog_le load.decoded) s.vaddr
  rw [← same] at incr
  have mask : (piece s).loadMask = lowOnes (piece s).velemIncr := by
    rw [same] at some ⊢
    simp only [vlUnit] at some ⊢
    exact mask_given some
  have ones : ∀ n : Fin 17, lowOnes n.val = spread (2 ^ 0) id n.val := by decide
  refine line_brings load progress plain (Nat.le_refl _) aligned (congrArg Piece.memSize same) ?_ (congrArg Piece.negStride same)
    (congrArg Piece.velemOff same) ?_ fits ?_ ?_
  · refine (congrArg Piece.dataRs1 same).trans ?_
    simp [vlUnit,aligned]
  · rw [Nat.sub_self]
    exact mask.trans (ones ⟨(piece s).velemIncr,by omega⟩)
  · intro q less
    rw [Nat.sub_self,Nat.pow_zero,Nat.mul_one]
    split at incr <;> omega
  · intro q
    rw [elemAddr_pow plain pow,here progress plain]

theorem group_brings (plain : isIndexed v = false) (stepped : step v = vaguStride v) (grouped : s.group = true)
    (wide : elemLog v.instr.memSize ≤ s.logStride) (same : piece s = vlGroup (elemLog v.instr.memSize) s) (some : (piece s).loadMask ≠ 0) :
    Brings v (request s) c (piece s).velemIncr := by
  have aligned := here_aligned progress straight plain
  have off := lineOff_lt _ (elemLog_le load.decoded) s.vaddr
  obtain ⟨k,most,log,stride,up⟩ := progress.setup.group grouped
  rw [log] at wide
  obtain ⟨_,fits,inside⟩ := groupIncr_bounds progress most wide off log stride
  have count : (piece s).velemIncr = groupIncr (elemLog v.instr.memSize) s (lineOff (elemLog v.instr.memSize) s.vaddr) :=
    congrArg Piece.velemIncr same
  rw [← count] at fits inside
  have mask : (piece s).loadMask = spread (2 ^ (k - elemLog v.instr.memSize)) id (piece s).velemIncr := by
    rw [same] at some ⊢
    simp only [vlGroup,log] at some ⊢
    exact mask_given some
  refine line_brings load progress plain wide aligned (congrArg Piece.memSize same) ?_ (congrArg Piece.negStride same)
    (congrArg Piece.velemOff same) mask fits inside ?_
  · refine (congrArg Piece.dataRs1 same).trans ?_
    simp [vlGroup,aligned]
  · intro q
    rw [elemAddr_pow plain (stepped.trans up),here progress plain]

theorem groupNeg_brings (plain : isIndexed v = false) (stepped : step v = vaguStride v) (mode : s.mode = .vlStrided)
    (grouped : s.groupNeg = true) (wide : elemLog v.instr.memSize ≤ s.logStride)
    (same : piece s = vlGroupNeg (elemLog v.instr.memSize) s) (some : (piece s).loadMask ≠ 0) :
    Brings v (request s) c (piece s).velemIncr := by
  have small := elemLog_le load.decoded
  have aligned := here_aligned progress straight plain
  have off := lineOff_lt _ small s.vaddr
  have zero : s.acumVelemIncr = 0 := progress.exact (by simp [lined,mode,grouped,progress.setup.instr,wide])
  obtain ⟨k,most,log,stride,down⟩ := progress.setup.groupNeg grouped
  rw [log] at wide
  obtain ⟨pos,fits,inside⟩ := groupIncr_bounds progress most wide
    (show 16 / 2 ^ elemLog v.instr.memSize - lineOff (elemLog v.instr.memSize) s.vaddr - 1 < 16 / 2 ^ elemLog v.instr.memSize by omega)
    log stride
  have count : (piece s).velemIncr = groupIncr (elemLog v.instr.memSize) s
      (16 / 2 ^ elemLog v.instr.memSize - lineOff (elemLog v.instr.memSize) s.vaddr - 1) := congrArg Piece.velemIncr same
  rw [← count] at pos fits inside
  have room := load.room
  have row := request_elements load progress
  have line : 16 / 2 ^ elemLog v.instr.memSize ≤ 16 := Nat.div_le_self _ _
  rw [plain_log plain] at row room
  have mask : (request s).instr.loadMask = spread (2 ^ (k - elemLog v.instr.memSize))
      (fun i => elements (request s) - 1 - i - (elements (request s) - lineOff (elemLog v.instr.memSize) s.vaddr - 1)) (piece s).velemIncr := by
    change (piece s).loadMask = _
    rw [row]
    rw [same] at some ⊢
    simp only [vlGroupNeg,log] at some ⊢
    exact mask_given some
  have counts : (request s).instr.velemIncr.val = (piece s).velemIncr := by
    have length := (request_fields load.taken progress).2.1
    rw [zero,Nat.zero_add] at length
    exact length
  have takes := takes_down (congrArg Piece.negStride same) mask counts pos (request_place load progress) (Nat.two_pow_pos _) (by omega)
    (fun q less => by have below := inside q less; omega) (by omega) (by omega)
  refine ⟨_,takes,fun q less j byte => ?_⟩
  have below := inside q less
  have base : (request s).instr.dataRs1 = lineAddr s.vaddr := by
    refine (congrArg Piece.dataRs1 same).trans ?_
    simp [vlGroupNeg,aligned]
  rw [plain_log plain] at byte ⊢
  have within : q * 2 ^ (k - elemLog v.instr.memSize) ≤ lineOff (elemLog v.instr.memSize) s.vaddr := by omega
  have place : lineOff (elemLog v.instr.memSize) s.vaddr - q * 2 ^ (k - elemLog v.instr.memSize) <
      16 / 2 ^ elemLog v.instr.memSize := by omega
  rw [source_line (congrArg Piece.memSize same) base (inside_line place byte),line_down small wide aligned within,
    elemAddr_neg plain (stepped.trans down),here progress plain]

omit straight in
theorem element_brings (size : (request s).instr.memSize = BitVec.ofNat 4 (registerLog v)) (base : (request s).instr.dataRs1 = elemAddr v c)
    (aligned : misaligned (registerLog v) (elemAddr v c) = false) (up : (request s).negStride = false)
    (start : (request s).velemOff = 0) (mask : (request s).instr.loadMask = 1) : Brings v (request s) c 1 := by
  have room := load.room
  have left := progress.left
  have row := request_elements load progress
  have line : 16 / 2 ^ registerLog v ≤ 16 := Nat.div_le_self _ _
  have one : (1 : BitVec 16) = spread 1 id 1 := by decide
  have takes := takes_up up (request_quiet load progress) (mask.trans one) start (request_place load progress) Nat.one_pos
    (by omega) (fun q less => by omega) (by omega)
  refine ⟨_,takes,fun q less j byte => ?_⟩
  obtain rfl : q = 0 := by omega
  have source := source_narrow (registerLog_le load.decoded) size (by rw [base]; exact aligned) byte
  simp only [Nat.zero_mul,Nat.zero_add,Nat.add_zero]
  rw [source,base]

theorem single_brings (plain : isIndexed v = false) (same : piece s = vlSingle (elemLog v.instr.memSize) s)
    (some : (piece s).loadMask ≠ 0) : Brings v (request s) c 1 := by
  have mask : (piece s).loadMask = 1 := by
    rw [same] at some ⊢
    simp only [vlSingle] at some ⊢
    exact mask_given some
  refine element_brings load progress ?_ ?_ (straight.aligned c progress.left (.inl plain)) (congrArg Piece.negStride same)
    (congrArg Piece.velemOff same) mask
  · rw [plain_log plain]
    exact congrArg Piece.memSize same
  · exact (congrArg Piece.dataRs1 same).trans (here progress plain)

theorem indexed_brings (indexes : isIndexed v = true) (same : piece s = vlIndexed (elemLog v.instr.memSize) s)
    (some : (piece s).loadMask ≠ 0) : Brings v (request s) c 1 := by
  have log : registerLog v = v.instr.sew.val := by rw [registerLog,if_pos indexes]
  have live : s.mask.getLsbD c = true := by
    rw [same] at some
    simp only [vlIndexed,progress.cnt] at some
    by_contra none
    rw [if_neg none] at some
    exact absurd rfl some
  have active := (indexed_active load.taken progress indexes).mp live
  refine element_brings load progress ?_ ?_ (straight.aligned c progress.left (.inr active)) (congrArg Piece.negStride same)
    (congrArg Piece.velemOff same) ?_
  · rw [log,← progress.setup.vsew]
    exact congrArg Piece.memSize same
  · have base : (piece s).dataRs1 = (vlIndexed (elemLog v.instr.memSize) s).dataRs1 := congrArg Piece.dataRs1 same
    rw [straight.narrow indexes c progress.left active,← indexed_address progress indexes]
    exact base
  · refine (congrArg Piece.loadMask same).trans ?_
    simp only [vlIndexed,progress.cnt,live,if_true]

theorem piece_brings : Brings v (request s) c (piece s).velemIncr ∨ Spares v (request s) c (piece s).velemIncr := by
  by_cases zero : (piece s).loadMask = 0
  · exact .inr (zero_spares load progress straight.seen zero)
  · left
    have mode := progress.setup.mode
    rcases piece_cases load.taken progress.setup with ⟨_,unit,same⟩ | ⟨other,_⟩ | ⟨here,⟨plain,stepped⟩,same⟩ |
      ⟨other,_⟩ | ⟨_,indexes,same⟩ | ⟨other,_⟩
    · exact unit_brings load progress straight unit same zero
    · rcases load.modes with ⟨start,_⟩ | ⟨start,_⟩ | ⟨start,_⟩ <;> rw [other,start] at mode <;> cases mode
    · rcases vlStrided_cases (elemLog v.instr.memSize) s with ⟨up,wide,form⟩ | ⟨down,wide,form⟩ | ⟨_,form⟩
      · exact group_brings load progress straight plain stepped up wide (same.trans form) zero
      · exact groupNeg_brings load progress straight plain stepped here down wide (same.trans form) zero
      · have count : (piece s).velemIncr = 1 := congrArg Piece.velemIncr (same.trans form)
        rw [count]
        exact single_brings load progress straight plain (same.trans form) zero
    · rcases load.modes with ⟨start,_⟩ | ⟨start,_⟩ | ⟨start,_⟩ <;> rw [other,start] at mode <;> cases mode
    · have count : (piece s).velemIncr = 1 := congrArg Piece.velemIncr same
      rw [count]
      exact indexed_brings load progress straight indexes same zero
    · rcases load.modes with ⟨start,_⟩ | ⟨start,_⟩ | ⟨start,_⟩ <;> rw [other,start] at mode <;> cases mode

omit straight in
theorem request_size : (request s).instr.memSize = lineSize ∨ (request s).instr.memSize.toNat < 4 := by
  have small := elemLog_le load.decoded
  have width := v.instr.sew.isLt
  have mode := progress.setup.mode
  change (piece s).memSize = lineSize ∨ (piece s).memSize.toNat < 4
  rcases load.modes with ⟨start,_⟩ | ⟨start,_⟩ | ⟨start,_⟩ <;> rw [start] at mode <;> simp only [piece,mode,progress.setup.instr]
  · exact .inl rfl
  · rcases vlStrided_cases (elemLog v.instr.memSize) s with ⟨_,_,form⟩ | ⟨_,_,form⟩ | ⟨_,form⟩ <;> rw [form]
    · exact .inl rfl
    · exact .inl rfl
    · right
      change (BitVec.ofNat 4 (elemLog v.instr.memSize)).toNat < 4
      rw [BitVec.toNat_ofNat]
      omega
  · right
    change (BitVec.ofNat 4 s.vsew).toNat < 4
    rw [progress.setup.vsew,BitVec.toNat_ofNat]
    omega

omit straight in
theorem request_vl : MemUnit.vlToDcache (request s).instr = vaguVl v := by
  have kind := load.kind
  have mode := progress.setup.mode
  have instr := progress.setup.instr
  have sew := request_sew load progress
  have length : (request s).instr.vl = v.instr.vl := by change s.instr.vl = _; rw [instr]
  have type : (request s).instr.instrType = pieceType s := rfl
  simp only [List.mem_cons,List.not_mem_nil,or_false] at kind
  unfold MemUnit.vlToDcache
  rw [type,length,sew]
  cases indexes : isIndexed v with
  | true =>
    have same : v.instr.instrType = vlxe := by
      rcases kind with kind | kind | kind | kind | kind | kind <;>
        first | exact kind | simp [isIndexed,kind,vle,vlse,vlxe] at indexes
    have start : startMode (wired v false false) = .vlIndexed := by
      rcases load.modes with ⟨_,unit⟩ | ⟨_,plain,_⟩ | ⟨start,_⟩
      · rw [(unit_step unit).1] at indexes
        cases indexes
      · rw [plain] at indexes
        cases indexes
      · exact start
    have loads : ∀ w, ∃ code, loadType w = .other code := by
      intro w
      unfold loadType
      split <;> exact ⟨_,rfl⟩
    rw [start] at mode
    obtain ⟨code,shape⟩ := loads s.vsew
    simp only [pieceType,mode,shape]
    simp [vaguVl,same,vlxe]
  | false =>
    have own : pieceType s = v.instr.instrType := by
      rcases load.modes with ⟨start,_⟩ | ⟨start,_⟩ | ⟨_,indexed⟩
      · rw [start] at mode
        simp only [pieceType,mode,instr]
      · rw [start] at mode
        simp only [pieceType,mode,instr]
      · rw [indexed] at indexes
        cases indexes
    rw [own,plain_log indexes]
    rcases kind with kind | kind | kind | kind | kind | kind <;> rw [kind] <;> simp [vaguVl,kind,vle,vlse,vlxe]

end

end

theorem request_mask (load : Load v) (progress : Progress v c s) (mask : (request s).instr.instrType = .vlm) : v.instr.instrType = .vlm := by
  have mode := progress.setup.mode
  have type : pieceType s = .vlm := mask
  rw [← progress.setup.instr]
  rcases load.modes with ⟨start,_⟩ | ⟨start,_⟩ | ⟨start,_⟩ <;> rw [start] at mode <;> simp only [pieceType,mode] at type
  · exact type
  · exact type
  · unfold loadType at type
    split at type <;> cases type

-- A mask has two bytes at most, so the first line has the longest request.
theorem mask_counted (load : Load v) (progress : Progress v c s) (kind : v.instr.instrType = .vlm) :
    counted (request s) ≤ reach v := by
  have plain : isIndexed v = false := by simp [isIndexed,kind,vlxe]
  have mode : s.mode = .vlUnit := by
    rw [progress.setup.mode]
    rcases load.modes with ⟨mode,_⟩ | ⟨_,_,stepped⟩ | ⟨_,indexes⟩
    · exact mode
    · rcases mode_cases load.taken with ⟨mode,_⟩ | ⟨_,other,_⟩ | ⟨_,other⟩ | ⟨_,other⟩ | ⟨_,other⟩ | ⟨_,other⟩
      · exact mode
      all_goals simp [kind,vlse,vlxe] at other
    · rw [plain] at indexes
      cases indexes
  have same : piece s = vlUnit (elemLog v.instr.memSize) s := by simp [piece,mode,progress.setup.instr]
  have zero : s.acumVelemIncr = 0 := progress.exact (by simp [lined,mode])
  have length : counted (request s) = (vlUnit (elemLog v.instr.memSize) s).velemIncr := by
    rw [(request_fields load.taken progress).2.1,zero,Nat.zero_add,same]
  have register := load.decoded.register
  have small : v.instr.vl.val ≤ 16 := le_trans (Nat.le_mul_of_pos_right _ (Nat.two_pow_pos _)) register
  have two : vaguVl v ≤ 2 := by
    simp only [vaguVl,kind,List.mem_cons,List.not_mem_nil,or_false,true_or,if_true]
    omega
  rw [length]
  obtain rfl | later : c = 0 ∨ 0 < c := by omega
  · exact Nat.le_of_eq (vlUnit_reach progress (by simp [kind]) (by simp [progress.vaddr,plain,elemAddr]))
  · have left := progress.left
    have off := lineOff_lt _ (elemLog_le load.decoded) v.instr.dataRs1
    have fits := (piece_shape load.taken progress).fits
    have some : 0 < reach v := by
      simp only [reach,kind,List.mem_cons,List.not_mem_nil,or_false,or_true,true_or,if_true]
      rw [lineReach_unit]
      omega
    rw [same] at fits
    omega

structure Fetches (v : VectorInstr α) (r : Output α) : Prop where
  valid : r.instr.valid = true
  quiet : r.instr.ex.valid = false
  mask : r.instr.instrType = .vlm → r.instr.sew.val = 0 → ∀ k < counted r, k < vaguVl v → Active v k
  sew : r.instr.sew.val = registerLog v
  vl : MemUnit.vlToDcache r.instr = vaguVl v
  counts : 0 < counted r
  size : r.instr.memSize = lineSize ∨ r.instr.memSize.toNat < 4
  brought : ∀ k i, gather r k = some i → k < vaguVl v ∧
    ∀ j < 2 ^ registerLog v, sourceByte r (i * 2 ^ registerLog v + j) = some (elemAddr v k + BitVec.ofNat 64 j)

-- The requests of a load bring every active element.
structure Fetched (v : VectorInstr α) (requests : List (Output α)) : Prop where
  each : ∀ r ∈ requests, Fetches v r
  sum : (requests.map counted).sum = vaguVl v
  reached : ∀ k < vaguVl v, Active v k → ∃ r ∈ requests, ∃ i, gather r k = some i

theorem request_fetches (load : Load v) (straight : Direct v) (progress : Progress v c s) (made : (piece s).makeReq = true) :
    Fetches v (request s) := by
  have shape := piece_shape load.taken progress
  have pos := shape.pos
  have fits := shape.fits
  refine ⟨?_,request_quiet load progress,?_,request_sew load progress,request_vl load progress,?_,request_size load progress,?_⟩
  · change (s.instr.valid && (piece s).makeReq) = true
    rw [progress.setup.instr,load.decoded.valid,made]
    rfl
  · intro type sew k below _
    have mask := request_mask load progress type
    have plain : isIndexed v = false := by simp [isIndexed,mask,vlxe]
    rw [request_sew load progress,plain_log plain] at sew
    exact straight.mask mask sew k (Nat.lt_of_lt_of_le below (mask_counted load progress mask))
  · rw [(request_fields load.taken progress).2.1]
    omega
  · intro k i taken
    rcases piece_brings load progress straight with ⟨place,takes,bytes⟩ | ⟨zero,_⟩
    · obtain ⟨q,less,rfl,rfl⟩ := (takes k i).mp taken
      exact ⟨by omega,bytes q less⟩
    · obtain ⟨q,less,_⟩ := (takes_none zero c id k i).mp taken
      omega

theorem Straight.unskewed (straight : Straight v) (i : Nat) (inside : i < vaguVl v) : ¬ Skewed v i := by
  rintro ⟨plain,skew⟩
  have aligned := straight.aligned i inside (.inl plain)
  rw [plain_log plain,skew] at aligned
  cases aligned

-- The induction is on the elements that are left.
theorem plan_reached (load : Load v) (straight : Direct v) {fuel : Nat} (progress : Progress v c s) (enough : vaguVl v ≤ c + fuel) {k : Nat}
    (after : c ≤ k) (inside : k < vaguVl v) (active : Active v k) : ∃ r ∈ plan fuel s, ∃ i, gather r k = some i := by
  induction fuel generalizing c s with
  | zero => omega
  | succ fuel ih =>
    have shape := piece_shape load.taken progress
    have pos := shape.pos
    rw [plan_step load.taken progress]
    by_cases here : k < c + (piece s).velemIncr
    · rcases piece_brings load progress straight with ⟨place,takes,_⟩ | ⟨_,idle⟩
      · rcases shape.kind with ⟨made,_⟩ | ⟨_,single,_,idle,_⟩
        · rcases emitted_cases load.taken progress with ⟨_,list⟩ | ⟨none,_⟩
          · refine ⟨request s,?_,place (k - c),(takes k _).mpr ⟨k - c,by omega,by omega,rfl⟩⟩
            rw [list]
            exact List.mem_append_left _ List.mem_cons_self
          · rw [none] at made
            cases made
        · rw [show c = k by omega] at idle
          exact absurd active idle
      · exact absurd active (idle k after here)
    · have more := advance_progress load.taken progress (straight.unskewed c progress.left) (by omega)
      obtain ⟨r,later,found⟩ := ih more (by omega) (by omega)
      exact ⟨r,List.mem_append_right _ later,found⟩

theorem plan_fetched (load : Load v) (straight : Direct v) (progress : Progress v 0 s) : Fetched v (plan (vaguVl v) s) := by
  have narrow : Narrow v := by
    intro indexes i inside active
    rw [straight.narrow indexes i inside active,BitVec.sub_self]
    exact Nat.two_pow_pos _
  refine ⟨?_,?_,fun k inside active => plan_reached load straight progress (by omega) (Nat.zero_le k) inside active⟩
  · intro r inside
    obtain ⟨c,s',progress',made,rfl⟩ := plan_member load.taken progress inside
    exact request_fetches load straight progress' made
  · have zero : s.acumVelemIncr = 0 := Nat.le_zero.mp progress.acum
    have pieces := plan_aligned load.taken straight.seen narrow straight.unskewed progress (show vaguVl v ≤ 0 + vaguVl v by omega)
    rw [zero] at pieces
    exact (pieces_coverage pieces).sum

end Sargantana.VloadElements
