import Sargantana.VaguCoverage
import Sargantana.CsrInterface

-- Which vector memory instructions come to an end: without memory, or with a request of vagu.
namespace Sargantana.VectorCompletion
open DracPkg Vagu VaguPieces VaguCoverage StateMachine

variable {α : Type}

-- gl_is_vector_vl_0 of datapath
def glIsVectorVl0 (unit : FunctionalUnit) (vregfileWe regfileWe : Bool) (t : InstrType) (vl : Nat) : Bool :=
  ((decide (unit = .simd) && !vregfileWe && !regfileWe) || decide (t ∈ [vle,.vlm,.vleff,vlse,vlxe])) && decide (vl = 0)

-- The entry that is pushed into the graduation list; VLEFF with elements waits for commit.
def glEntry (v : VectorInstr α) : GraduationList.Entry Unit where
  instr := ⟨v.instr.valid,v.instr.instrType,v.instr.memType,decide (v.instr.instrType = .vleff) && decide (v.instr.vl.val ≠ 0),()⟩
  status := ⟨false,0,false,v.instr.vl.val,v.instr.sew,0⟩

def finished (v : VectorInstr α) (vregfileWe : Bool) : Bool :=
  GraduationList.isStoreOrAmo (glEntry v) || (glEntry v).status.exValid ||
    glIsVectorVl0 .mem vregfileWe false v.instr.instrType v.instr.vl.val

-- The instruction is complete without memory: it is finished, and commit waits for no store.
def needsNoMemory (v : VectorInstr α) (vregfileWe : Bool) : Bool := finished v vregfileWe && !CsrInterface.commitStoreOrAmo (glEntry v)

-- What the decoder accepts. It does not look at vm for whole registers and masks, nor at vl for
-- whole registers.
structure Accepted (v : VectorInstr α) : Prop where
  valid : v.instr.valid = true
  vector : isVector v.instr.instrType = true
  memType : v.instr.memType = if v.instr.instrType ∈ [.vse,.vsm,.vs1r,.vsse,.vsxe] then .store else .load
  size : v.instr.memSize ∈ [0,5,6,7]
  register : v.instr.vl.val * 2 ^ v.instr.sew.val ≤ 16
  unmasked : v.useMask = false → v.dataVm = BitVec.allOnes 16

def Emits (s : State α) (feed : Nat → VectorInstr α × Bool) (v : VectorInstr α) : Prop :=
  ∃ t, Returns s feed t ∧ ∃ r ∈ requests s feed t, r.instr.valid = true ∧ r.instr.glIndex = v.instr.glIndex

-- All bytes of a register are asked for, or a misaligned address is reported. A request without
-- a mask bit does neither.
def Transfers (s : State α) (feed : Nat → VectorInstr α × Bool) (v : VectorInstr α) : Prop :=
  ∃ t, Returns s feed t ∧ ((∃ r ∈ requests s feed t, r.instr.vmisalignXcpt = true ∧ r.instr.loadMask ≠ 0) ∨
    ∀ i < 16 / 2 ^ elemLog v.instr.memSize, ∃ r ∈ requests s feed t, Covers r i ∧ Contains r (elemAddr v i))

def apart (v : VectorInstr α) : Bool :=
  !(groups (vaguStride v) v.instr.instrType && decide (elemLog v.instr.memSize ≤ Nat.log2 (vaguStride v).toNat)) &&
    !(groups (-vaguStride v) v.instr.instrType && decide (elemLog v.instr.memSize ≤ Nat.log2 (-vaguStride v).toNat))

-- A strided load ends at its first misaligned element; up to there every element is masked off.
def Silent (v : VectorInstr α) : Prop :=
  v.instr.instrType ∈ [vlse,.vleff] ∧ apart v = true ∧ ∃ m, m + 1 < v.instr.vl.val ∧ Skewed v m ∧ (∀ i < m, ¬ Skewed v i) ∧ ∀ i ≤ m, ¬ Active v i

structure Met (v : VectorInstr α) : Prop where
  whole : v.instr.instrType ∈ [.vl1r,.vs1r] → v.instr.vl.val ≠ 0
  store : v.instr.instrType ∈ [.vsm,.vs1r] → v.instr.vl.val ≠ 0 → v.useMask = false
  load : v.instr.instrType = .vl1r → v.useMask = false ∨ live v = true
  loud : ¬ Silent v

variable {v : VectorInstr α} {s : State α} {c : Nat} {feed : Nat → VectorInstr α × Bool}

-- With no elements only the whole registers go to memory, with elements everything does.
theorem needsNoMemory_iff (accepted : Accepted v) (vregfileWe : Bool) :
    needsNoMemory v vregfileWe = true ↔ v.instr.vl.val = 0 ∧ v.instr.instrType ∉ [.vl1r,.vs1r] := by
  have vector := accepted.vector
  have memType := accepted.memType
  simp only [isVector,decide_eq_true_eq,List.mem_cons,List.not_mem_nil,or_false] at vector
  simp only [needsNoMemory,finished,glIsVectorVl0,GraduationList.isStoreOrAmo,CsrInterface.commitStoreOrAmo,CsrInterface.isVectorStore,
    glEntry,memType]
  rcases vector with kind | kind | kind | kind | kind | kind | kind | kind | kind | kind | kind <;> rw [kind] <;>
    by_cases zero : v.instr.vl.val = 0 <;> simp [zero,vle,vlse,vlxe]

theorem scalar_silent (vector : isVector v.instr.instrType = true) (idle : s.mode = .scalar) (taken : feed 0 = (v,false))
    (stays : startMode (wired v false false) = .scalar) : ¬ Emits s feed v := by
  rintro ⟨t,returns,r,inside,_⟩
  rw [scalar_returns vector idle taken stays t returns] at inside
  cases inside

theorem plan_some (decoded : Taken v) {i fuel : Nat} (within : i < vaguVl v) (stops : Active v i ∨ i + 1 = vaguVl v)
    (progress : Progress v c s) (before : c ≤ i) (straight : ∀ j, c ≤ j → j < i → ¬ Skewed v j) (enough : vaguVl v ≤ c + fuel) :
    plan fuel s ≠ [] := by
  induction fuel generalizing c s with
  | zero => omega
  | succ fuel ih =>
    rw [plan_step decoded progress]
    rcases emitted_cases decoded progress with ⟨_,list⟩ | ⟨none,list⟩
    · rw [list]
      exact List.cons_ne_nil _ _
    · rw [list,List.nil_append]
      rcases (piece_shape decoded progress).kind with ⟨made,_⟩ | ⟨_,single,_,idle,more⟩
      · rw [none] at made
        cases made
      · have later : c ≠ i := by
          rintro rfl
          rcases stops with active | last
          · exact idle active
          · omega
        have moved := advance_progress decoded progress (straight c (Nat.le_refl c) (by omega)) (by omega)
        rw [single] at moved
        exact ih moved (by omega) (fun j after below => straight j (by omega) below) (by omega)

theorem lined_apart (setup : Setup v s) (mode : s.mode = .vlStrided) : lined s = !apart v := by
  simp only [lined,mode,apart,setup.instr,setup.up,setup.down]
  cases up : groups (vaguStride v) v.instr.instrType with
  | true =>
    obtain ⟨away,same⟩ := stride_up setup up
    simp [away,same]
  | false =>
    cases down : groups (-vaguStride v) v.instr.instrType with
    | true =>
      have same := stride_down setup up down
      rw [same]
      simp
    | false => simp

theorem strided_mode (decoded : Taken v) (setup : Setup v s) (kind : v.instr.instrType ∈ [vlse,.vleff]) : s.mode = .vlStrided := by
  have start := setup.mode
  rcases mode_cases decoded with ⟨m,other⟩ | ⟨m,other,_⟩ | ⟨m,_⟩ | ⟨m,other⟩ | ⟨m,other⟩ | ⟨m,other⟩
  case inr.inr.inl => exact start.trans m
  all_goals
    simp only [List.mem_cons,List.not_mem_nil,or_false] at kind other
    rcases kind with same | same <;> rw [same] at other <;> simp [vlse,vle,vlxe] at other

theorem plan_silent (decoded : Taken v) (kind : v.instr.instrType ∈ [vlse,.vleff]) (single : apart v = true) {m fuel : Nat}
    (more : m + 1 < vaguVl v) (skew : Skewed v m) (least : ∀ i < m, ¬ Skewed v i) (idle : ∀ i ≤ m, ¬ Active v i)
    (progress : Progress v c s) (before : c ≤ m) : plan fuel s = [] := by
  induction fuel generalizing c s with
  | zero => rfl
  | succ fuel ih =>
    have mode := strided_mode decoded progress.setup kind
    have alone : lined s = false := by rw [lined_apart progress.setup mode,single]; rfl
    have one := single_piece decoded progress.setup alone
    have masked : active s = false := by
      rw [Bool.eq_false_iff]
      exact fun on => idle c before ((active_iff decoded progress (by simp [mode])).mp on)
    have none : (piece s).makeReq = false := by
      have single : vlStrided (elemLog v.instr.memSize) s = vlSingle (elemLog v.instr.memSize) s := by
        simp only [lined,mode,progress.setup.instr] at alone
        rcases vlStrided_cases (elemLog v.instr.memSize) s with ⟨up,wide,_⟩ | ⟨down,wide,_⟩ | ⟨_,same⟩
        · simp [up,wide] at alone
        · simp [down,wide] at alone
        · exact same
      simp only [piece,mode,progress.setup.instr,single]
      simp only [vlSingle,masked,progress.cnt,progress.setup.vl,Bool.false_or,decide_eq_false_iff_not]
      omega
    rw [plan_step decoded progress]
    rcases emitted_cases decoded progress with ⟨made,_⟩ | ⟨_,list⟩
    · rw [none] at made
      cases made
    · rw [list,List.nil_append]
      by_cases here : c = m
      · exact plan_scalar (advance_done decoded progress (.inr (here ▸ skew))) fuel
      · have moved := advance_progress decoded progress (least c (by omega)) (by omega)
        rw [one] at moved
        exact ih moved (by omega)

-- Only strided loads that are served element by element leave out a request.
theorem unmade_strided (decoded : Taken v) (setup : Setup v s) (plain : isIndexed v = false) (none : (piece s).makeReq = false) :
    v.instr.instrType ∈ [vlse,.vleff] ∧ apart v = true := by
  have short : lined s = false := by
    rw [Bool.eq_false_iff]
    intro line
    rw [lined_makes decoded setup line] at none
    cases none
  have start := setup.mode
  rcases mode_cases decoded with ⟨m,_⟩ | ⟨m,_⟩ | ⟨m,kind⟩ | ⟨m,_⟩ | ⟨m,kind⟩ | ⟨m,kind⟩ <;> rw [m] at start
  · simp [lined,start] at short
  · simp [lined,start] at short
  · rw [lined_apart setup start] at short
    exact ⟨kind,by simpa using short⟩
  · simp [piece,start,vsStrided] at none
  · simp [isIndexed,kind] at plain
  · simp [isIndexed,kind] at plain

theorem plan_emits (decoded : Taken v) (progress : Progress v 0 s) : plan (vaguVl v) s ≠ [] ↔ ¬ Silent v := by
  have strided : ∀ {t : InstrType}, t ∈ [vlse,.vleff] → v.instr.instrType = t → vaguVl v = v.instr.vl.val := by
    intro t kind same
    simp only [List.mem_cons,List.not_mem_nil,or_false] at kind
    unfold vaguVl
    rw [same]
    rcases kind with rfl | rfl <;> simp [vlse]
  constructor
  · rintro some ⟨kind,single,m,more,skew,least,idle⟩
    have length := strided kind rfl
    exact some (plan_silent decoded kind single (by omega) skew least idle progress (Nat.zero_le m))
  · intro loud
    have most := vaguVl_bounds decoded.toDecoded
    by_cases skews : ∃ m, m < vaguVl v ∧ Skewed v m
    · obtain ⟨within,skew⟩ := Nat.find_spec skews
      have least : ∀ i < Nat.find skews, ¬ Skewed v i := fun i before bad => Nat.find_min skews before ⟨by omega,bad⟩
      by_cases active : ∃ i, i ≤ Nat.find skews ∧ Active v i
      · obtain ⟨i,upto,on⟩ := active
        exact plan_some decoded (by omega) (.inl on) progress (Nat.zero_le i) (fun j _ below => least j (by omega)) (by omega)
      · by_cases last : Nat.find skews + 1 = vaguVl v
        · exact plan_some decoded within (.inr last) progress (Nat.zero_le _) (fun j _ below => least j below) (by omega)
        · have made : (piece s).makeReq = true := by
            by_contra none
            rw [Bool.not_eq_true] at none
            obtain ⟨kind,alone⟩ := unmade_strided decoded progress.setup skew.1 none
            have length := strided kind rfl
            exact loud ⟨kind,alone,Nat.find skews,by omega,skew,least,fun i upto on => active ⟨i,upto,on⟩⟩
          obtain ⟨fuel,enough⟩ : ∃ fuel, vaguVl v = fuel + 1 := ⟨vaguVl v - 1,by omega⟩
          rw [enough,plan_step decoded progress]
          rcases emitted_cases decoded progress with ⟨_,list⟩ | ⟨none,_⟩
          · rw [list]
            exact List.cons_ne_nil _ _
          · rw [made] at none
            cases none
    · refine plan_some (i := vaguVl v - 1) decoded (by omega) (.inr (by omega)) progress (Nat.zero_le _) ?_ (by omega)
      intro j _ below bad
      exact skews ⟨j,by omega,bad⟩

theorem plan_index (decoded : Taken v) (progress : Progress v 0 s) {fuel : Nat} {r : Output α} (inside : r ∈ plan fuel s) :
    r.instr.valid = true ∧ r.instr.glIndex = v.instr.glIndex := by
  obtain ⟨c,s',found,made,rfl⟩ := plan_member decoded progress inside
  constructor
  · change (s'.instr.valid && (piece s').makeReq) = true
    rw [found.setup.instr,decoded.valid,made]
    rfl
  · change s'.instr.glIndex = _
    rw [found.setup.instr]

theorem emits_iff (decoded : Taken v) (idle : s.mode = .scalar) (taken : feed 0 = (v,false))
    (released : ∀ t, ∃ u, t ≤ u ∧ (feed u).2 = false) : Emits s feed v ↔ ¬ Silent v := by
  have progress := (accept_awaits decoded idle taken).1
  rw [← plan_emits decoded progress]
  constructor
  · rintro ⟨t,returns,r,inside,_⟩
    rw [returned_plan decoded idle taken returns] at inside
    exact List.ne_nil_of_mem inside
  · intro some
    obtain ⟨t,returns⟩ := comes_back decoded idle taken released
    obtain ⟨r,inside⟩ := List.exists_mem_of_ne_nil _ some
    exact ⟨t,returns,r,by rw [returned_plan decoded idle taken returns]; exact inside,plan_index decoded progress inside⟩

theorem whole_transfers (decoded : Taken v) (plain : v.useMask = false) (idle : s.mode = .scalar) (taken : feed 0 = (v,false))
    (released : ∀ t, ∃ u, t ≤ u ∧ (feed u).2 = false) (kind : v.instr.instrType ∈ [.vl1r,.vs1r]) : Transfers s feed v := by
  have length : vaguVl v = 16 / 2 ^ elemLog v.instr.memSize := by
    simp only [List.mem_cons,List.not_mem_nil,or_false] at kind
    unfold vaguVl
    rcases kind with same | same <;> rw [same] <;> simp
  have unit : isIndexed v = false := by
    simp only [List.mem_cons,List.not_mem_nil,or_false] at kind
    unfold isIndexed
    rcases kind with same | same <;> rw [same] <;> simp [vlxe]
  have regular : Regular v := by
    refine ⟨decoded.cut,fun masked => (by rw [plain] at masked; cases masked),
      fun indexes => (by rw [unit] at indexes; cases indexes),?_⟩
    intro m within _ _
    have pos : 0 < reach v := by
      have off := lineOff_lt _ (elemLog_le decoded.toDecoded) v.instr.dataRs1
      have some := (vaguVl_bounds decoded.toDecoded).1
      simp only [List.mem_cons,List.not_mem_nil,or_false] at kind
      unfold reach
      rcases kind with same | same
      · simp only [same,List.mem_cons,List.not_mem_nil,or_false,or_true,if_true]
        rw [lineReach_unit]
        omega
      · simp [same,vle,vlse]
    exact .inr ⟨m,Nat.le_refl m,by omega,.inl plain⟩
  obtain ⟨t,returns⟩ := comes_back decoded idle taken released
  refine ⟨t,returns,?_⟩
  rw [returned_plan decoded idle taken returns]
  rcases (plan_covers decoded (accept_awaits decoded idle taken).1).mpr regular with ⟨r,last,flag,i,covers,_⟩ | coverage
  · left
    refine ⟨r,List.mem_of_getLast? last,flag,?_⟩
    intro zero
    have some := covers.2
    have after := covers.1
    rw [count,zero,ones_zero,Nat.zero_min] at some
    omega
  · right
    intro i small
    have once := coverage.once i (by omega) (.inl plain)
    obtain ⟨r,inside,covers⟩ := List.countP_pos_iff.mp (by rw [once]; exact Nat.one_pos)
    exact ⟨r,inside,of_decide_eq_true covers,coverage.placed r inside i (of_decide_eq_true covers) (.inl plain)⟩

-- The same instruction without its mask. A load of a mask or of a whole register is cut in the
-- same way with and without one, only the masks of its requests differ.
def unmask (v : VectorInstr α) : VectorInstr α := { v with useMask := false, dataVm := BitVec.allOnes 16 }

def shade (b : Bool) (r : Output α) : Output α := if b then r else { r with instr := { r.instr with loadMask := 0 } }

structure Similar (b : Bool) (s s' : State α) : Prop where
  same : s' = { s with maskedOp := false, mask := s'.mask, index := s'.index }
  mode : s.mode = .vlUnit ∨ s.mode = .scalar
  masked : s.maskedOp = true
  live : decide (s.mask &&& lowOnes s.vl ≠ 0) = b

variable {b : Bool} {s' : State α}

theorem similar_advance (similar : Similar b s s') (busy : s.mode = .vlUnit) : Similar b (advance s false) (advance s' false) := by
  obtain ⟨same,_,masked,live⟩ := similar
  refine ⟨?_,?_,masked,live⟩
  · rw [same]
    simp only [advance,piece,busy,vlUnit,ends,nextAcum]
  · simp only [advance,busy]
    split
    · exact .inr rfl
    · exact .inl rfl

theorem similar_request (similar : Similar b s s') (busy : s.mode = .vlUnit) : request s = shade b (request s') := by
  obtain ⟨same,_,masked,live⟩ := similar
  rw [same]
  cases b with
  | true =>
    have some := of_decide_eq_true live
    simp only [request,shade,piece,busy,vlUnit,pieceType,pieceSew]
    rw [if_pos (Or.inl some)]
    simp
  | false =>
    have none := Decidable.not_not.mp (of_decide_eq_false live)
    simp only [request,shade,piece,busy,vlUnit,pieceType,pieceSew]
    simp [none,masked]

theorem loads_unit (accepted : Accepted v) (some : v.instr.vl.val ≠ 0) (kind : v.instr.instrType ∈ [.vlm,.vl1r]) (useMask : Bool) (dataVm : BitVec 16) :
    startMode (wired { v with useMask := useMask, dataVm := dataVm } false false) = .vlUnit := by
  have length : (v.instr.vl != 0) = true := by
    simp only [bne_iff_ne,ne_eq,Fin.ext_iff]
    exact some
  simp only [List.mem_cons,List.not_mem_nil,or_false] at kind
  simp only [startMode,wired,accepted.valid,length]
  rcases kind with same | same <;> rw [same] <;> simp

def unmasked (v : VectorInstr α) (feed : Nat → VectorInstr α × Bool) (t : Nat) : VectorInstr α × Bool :=
  if t = 0 then (unmask v,false) else feed t

theorem similar_start (accepted : Accepted v) (some : v.instr.vl.val ≠ 0) (kind : v.instr.instrType ∈ [.vlm,.vl1r])
    (masked : v.useMask = true) (idle : s.mode = .scalar) (taken : feed 0 = (v,false)) :
    Similar (live v) (trace (machine s) feed 1) (trace (machine s) (unmasked v feed) 1) := by
  change Similar _ (next s (fed s (feed 0).1 false (feed 0).2)) (next s (fed s (unmask v) false false))
  rw [taken,fed_scalar idle,fed_scalar idle]
  have setup := accept_setup (v := v) idle false
  have mode := loads_unit accepted some kind v.useMask v.dataVm
  have other := loads_unit accepted some kind false (BitVec.allOnes 16)
  change startMode (wired (unmask v) false false) = .vlUnit at other
  refine ⟨?_,.inl (setup.mode.trans mode),setup.masked.trans masked,?_⟩
  · have accepts : ∀ w : VectorInstr α, next s (wired w false false) = { accept s (wired w false false) with
        mask := if (wired w false false).maskValid then (wired w false false).mask else s.mask
        index := if (wired w false false).maskValid then (wired w false false).index else s.index
        vstoreBuffer := w.dataVs2 } := by
      intro w
      simp only [next,idle,if_true,decide_true,Bool.or_true]
      rfl
    have modes : startMode (wired (unmask v) false false) = startMode (wired v false false) := other.trans mode.symm
    rw [accepts,accepts]
    simp only [accept,modes]
    rfl
  · rw [setup.mask (.inl masked),setup.vl]
    rfl

theorem similar_run (accepted : Accepted v) (some : v.instr.vl.val ≠ 0) (kind : v.instr.instrType ∈ [.vlm,.vl1r])
    (masked : v.useMask = true) (idle : s.mode = .scalar) (taken : feed 0 = (v,false)) (t : Nat)
    (busy : ∀ u, 0 < u → u < t + 1 → (trace (machine s) feed u).mode ≠ .scalar) :
    Similar (live v) (trace (machine s) feed (t + 1)) (trace (machine s) (unmasked v feed) (t + 1)) ∧
      requests s feed (t + 1) = (requests s (unmasked v feed) (t + 1)).map (shade (live v)) := by
  induction t with
  | zero =>
    refine ⟨similar_start accepted some kind masked idle taken,?_⟩
    have none : ∀ w : VectorInstr α, isVector w.instr.instrType = true → (output s (fed s w false false)).instr.valid = false := by
      intro w vector
      rw [fed_scalar idle]
      simp [output,idle,passes,wired,vector]
    change [] ++ (if (output s (fed s (feed 0).1 false (feed 0).2)).instr.valid then _ else []) =
      ([] ++ (if (output s (fed s (unmask v) false false)).instr.valid then _ else [])).map _
    rw [taken,none v accepted.vector,none (unmask v) accepted.vector]
    rfl
  | succ t ih =>
    obtain ⟨similar,same⟩ := ih fun u after before => busy u after (by omega)
    have here := busy (t + 1) (by omega) (by omega)
    have unit := similar.mode.resolve_right here
    have there : (trace (machine s) (unmasked v feed) (t + 1)).mode ≠ .scalar := by
      rw [similar.same]
      exact here
    have input : unmasked v feed (t + 1) = feed (t + 1) := rfl
    change Similar _ (next (trace (machine s) feed (t + 1)) (fed (trace (machine s) feed (t + 1)) (feed (t + 1)).1 false (feed (t + 1)).2))
        (next (trace (machine s) (unmasked v feed) (t + 1)) (fed _ (unmasked v feed (t + 1)).1 false (unmasked v feed (t + 1)).2)) ∧
      (requests s feed (t + 1) ++ if (output (trace (machine s) feed (t + 1))
        (fed (trace (machine s) feed (t + 1)) (feed (t + 1)).1 false (feed (t + 1)).2)).instr.valid then [_] else []) =
      (requests s (unmasked v feed) (t + 1) ++ if (output (trace (machine s) (unmasked v feed) (t + 1))
        (fed (trace (machine s) (unmasked v feed) (t + 1)) (unmasked v feed (t + 1)).1 false (unmasked v feed (t + 1)).2)).instr.valid
        then [_] else []).map _
    rw [input]
    cases (feed (t + 1)).2 with
    | true =>
      rw [stalled_step here,stalled_step there,stalled_output here,stalled_output there,if_neg Bool.false_ne_true,
        if_neg Bool.false_ne_true,List.append_nil,List.append_nil]
      exact ⟨similar,same⟩
    | false =>
      rw [moved_step here,moved_step there,moved_output here,moved_output there]
      refine ⟨similar_advance similar unit,?_⟩
      have valid : ∀ r : Output α, (shade (live v) r).instr.valid = r.instr.valid := by
        intro r
        unfold shade
        split <;> rfl
      rw [same,similar_request similar unit,List.map_append,valid]
      congr 1
      split <;> rfl

theorem similar_returns (accepted : Accepted v) (some : v.instr.vl.val ≠ 0) (kind : v.instr.instrType ∈ [.vlm,.vl1r])
    (masked : v.useMask = true) (idle : s.mode = .scalar) (taken : feed 0 = (v,false)) {t : Nat}
    (returns : Returns s (unmasked v feed) t) : Returns s feed t := by
  have modes : ∀ t, (∀ u, 0 < u → u < t + 1 → (trace (machine s) feed u).mode ≠ .scalar) →
      (trace (machine s) (unmasked v feed) (t + 1)).mode = (trace (machine s) feed (t + 1)).mode := by
    intro t busy
    have similar := (similar_run accepted some kind masked idle taken t busy).1
    rw [similar.same]
  obtain ⟨pos,done,there⟩ := returns
  have busy : ∀ u, 0 < u → u < t → (trace (machine s) feed u).mode ≠ .scalar := by
    intro u
    induction u using Nat.strongRecOn with
    | ind u first =>
      intro after before
      obtain ⟨w,rfl⟩ : ∃ w, u = w + 1 := ⟨u - 1,by omega⟩
      rw [← modes w fun x later earlier => first x earlier later (by omega)]
      exact there (w + 1) after before
  obtain ⟨w,rfl⟩ : ∃ w, t = w + 1 := ⟨t - 1,by omega⟩
  exact ⟨pos,(modes w busy).symm.trans done,busy⟩

theorem unmask_taken (accepted : Accepted v) (some : v.instr.vl.val ≠ 0) : Taken (unmask v) :=
  ⟨⟨accepted.valid,accepted.vector,accepted.size,Nat.pos_of_ne_zero some,accepted.register,fun _ => rfl⟩,fun masked => nomatch masked⟩

theorem unmasked_released (released : ∀ t, ∃ u, t ≤ u ∧ (feed u).2 = false) (t : Nat) : ∃ u, t ≤ u ∧ (unmasked v feed u).2 = false := by
  obtain ⟨u,later,moves⟩ := released (t + 1)
  refine ⟨u,by omega,?_⟩
  rw [unmasked,if_neg (by omega)]
  exact moves

-- The load of a whole register with a mask asks for everything, or for nothing.
theorem masked_transfers (accepted : Accepted v) (some : v.instr.vl.val ≠ 0) (kind : v.instr.instrType = .vl1r)
    (masked : v.useMask = true) (idle : s.mode = .scalar) (taken : feed 0 = (v,false))
    (released : ∀ t, ∃ u, t ≤ u ∧ (feed u).2 = false) : Transfers s feed v ↔ live v = true := by
  have load : v.instr.instrType ∈ [.vlm,.vl1r] := by simp [kind]
  constructor
  · rintro ⟨t,returns,asks⟩
    by_contra dead
    rw [Bool.not_eq_true] at dead
    obtain ⟨w,rfl⟩ : ∃ w, t = w + 1 := ⟨t - 1,by have := returns.1; omega⟩
    have same := (similar_run accepted some load masked idle taken w returns.2.2).2
    have blank : ∀ r ∈ requests s feed (w + 1), r.instr.loadMask = 0 := by
      intro r inside
      rw [same,dead] at inside
      obtain ⟨r',_,rfl⟩ := List.mem_map.mp inside
      rfl
    rcases asks with ⟨r,inside,_,mask⟩ | whole
    · exact mask (blank r inside)
    · have wide : 0 < 16 / 2 ^ elemLog v.instr.memSize := by
        have size := accepted.size
        simp only [List.mem_cons,List.not_mem_nil,or_false] at size
        rcases size with same | same | same | same <;> rw [same] <;> decide
      obtain ⟨r,inside,covers,_⟩ := whole 0 wide
      have short := covers.2
      rw [count,blank r inside,ones_zero,Nat.zero_min] at short
      exact absurd covers.1 (by omega)
  · intro on
    obtain ⟨t,returns,asks⟩ := whole_transfers (unmask_taken accepted some) rfl idle rfl (unmasked_released released) (by change v.instr.instrType ∈ _; simp [kind])
    have back := similar_returns accepted some load masked idle taken returns
    obtain ⟨w,rfl⟩ : ∃ w, t = w + 1 := ⟨t - 1,by have := back.1; omega⟩
    have same := (similar_run accepted some load masked idle taken w back.2.2).2
    have equal : requests s feed (w + 1) = requests s (unmasked v feed) (w + 1) := by
      rw [same,on]
      exact (List.map_congr_left fun _ _ => rfl).trans (List.map_id _)
    refine ⟨w + 1,back,?_⟩
    rw [equal]
    exact asks

theorem empty_scalar (zero : v.instr.vl.val = 0) : startMode (wired v false false) = .scalar := by
  have length : (v.instr.vl != 0) = false := by
    simp only [bne_eq_false_iff_eq,Fin.ext_iff]
    exact zero
  simp [startMode,wired,length]

theorem vector_access_completes (accepted : Accepted v) (idle : s.mode = .scalar) (taken : feed 0 = (v,false))
    (released : ∀ t, ∃ u, t ≤ u ∧ (feed u).2 = false) (vregfileWe : Bool) :
    ((needsNoMemory v vregfileWe = true ∨ Emits s feed v) ∧ (v.instr.instrType ∈ [.vl1r,.vs1r] → Transfers s feed v)) ↔ Met v := by
  by_cases zero : v.instr.vl.val = 0
  · have silent := scalar_silent accepted.vector idle taken (empty_scalar zero)
    constructor
    · rintro ⟨complete,_⟩
      have other := ((needsNoMemory_iff accepted vregfileWe).mp (complete.resolve_right silent)).2
      refine ⟨fun whole => absurd whole other,fun _ some => absurd zero some,fun load => absurd (by simp [load]) other,?_⟩
      rintro ⟨_,_,m,more,_⟩
      omega
    · intro met
      have other : v.instr.instrType ∉ [.vl1r,.vs1r] := fun whole => met.whole whole zero
      exact ⟨.inl ((needsNoMemory_iff accepted vregfileWe).mpr ⟨zero,other⟩),fun whole => absurd whole other⟩
  · have memory : ¬ needsNoMemory v vregfileWe = true := fun none => zero ((needsNoMemory_iff accepted vregfileWe).mp none).1
    by_cases dropped : v.useMask = true ∧ v.instr.instrType ∈ [.vsm,.vs1r]
    · obtain ⟨masked,store⟩ := dropped
      have silent := scalar_silent accepted.vector idle taken (masked_scalar store masked)
      constructor
      · rintro ⟨complete,_⟩
        exact absurd complete (not_or.mpr ⟨memory,silent⟩)
      · intro met
        have plain := met.store store zero
        rw [masked] at plain
        cases plain
    · have cut : v.useMask = true → v.instr.instrType ∉ [.vsm,.vs1r] := fun masked store => dropped ⟨masked,store⟩
      have decoded : Taken v :=
        ⟨⟨accepted.valid,accepted.vector,accepted.size,Nat.pos_of_ne_zero zero,accepted.register,accepted.unmasked⟩,cut⟩
      rw [or_iff_right memory,emits_iff decoded idle taken released]
      constructor
      · rintro ⟨loud,transfers⟩
        refine ⟨fun _ => zero,fun store _ => ?_,fun load => ?_,loud⟩
        · rw [← Bool.not_eq_true]
          exact fun masked => cut masked store
        · cases masked : v.useMask with
          | false => exact .inl rfl
          | true => exact .inr ((masked_transfers accepted zero load masked idle taken released).mp (transfers (by simp [load])))
      · intro met
        refine ⟨met.loud,fun whole => ?_⟩
        cases masked : v.useMask with
        | false => exact whole_transfers decoded masked idle taken released whole
        | true =>
          have load : v.instr.instrType = .vl1r := by
            have other := cut masked
            simp only [List.mem_cons,List.not_mem_nil,or_false,not_or] at whole other
            exact whole.resolve_right other.2
          have on := (met.load load).resolve_left (by rw [masked]; decide)
          exact (masked_transfers accepted zero load masked idle taken released).mpr on

-- Stores of a whole register and of four halfwords, with vl = 0 and vl = 4
def registers (t : InstrType) (vl : Fin 32) (_ : Nat) : VectorInstr Unit × Bool :=
  ({ halfwords t 0x1000 0 none with instr := { (halfwords t 0x1000 0 none).instr with memType := .store, vl := vl } },false)

theorem registers_accepted {t : InstrType} (kind : t ∈ [.vse,.vs1r]) {vl : Fin 32} (small : vl.val ≤ 8) : Accepted (registers t vl 0).1 := by
  simp only [List.mem_cons,List.not_mem_nil,or_false] at kind
  refine ⟨rfl,?_,?_,by change (5 : BitVec 4) ∈ _; decide,?_,fun _ => rfl⟩
  · rcases kind with rfl | rfl <;> rfl
  · rcases kind with rfl | rfl <;> rfl
  · change vl.val * 2 ^ 1 ≤ 16
    omega

theorem vector_access_completes_register : Emits start (registers .vs1r 4) (registers .vs1r 4 0).1 ∧
    Transfers start (registers .vs1r 4) (registers .vs1r 4 0).1 := by
  have met : Met (registers .vs1r 4 0).1 :=
    ⟨fun _ => (by decide),fun _ _ => rfl,fun load => (by cases load),fun silent => absurd silent.1 (by decide)⟩
  obtain ⟨complete,transfers⟩ := (vector_access_completes (registers_accepted (by decide) (by decide)) (show start.mode = .scalar from rfl)
    (show registers .vs1r 4 0 = _ from rfl) (fun t => ⟨t,Nat.le_refl t,rfl⟩) false).mpr met
  exact ⟨complete.resolve_left (by decide),transfers (by decide)⟩

-- With vl = 0 the store of a whole register waits for a request that never comes, while the
-- other store is complete.
theorem register_store_stuck : Accepted (registers .vs1r 0 0).1 ∧ start.mode = .scalar ∧
    needsNoMemory (registers .vse 0 0).1 false = true ∧ needsNoMemory (registers .vs1r 0 0).1 false = false ∧
    CsrInterface.commitStoreOrAmo (glEntry (registers .vs1r 0 0).1) = true ∧
    ¬ Emits start (registers .vs1r 0) (registers .vs1r 0 0).1 :=
  ⟨registers_accepted (by decide) (by decide),rfl,by decide,by decide,by decide,
    scalar_silent rfl rfl rfl (empty_scalar rfl)⟩

end Sargantana.VectorCompletion
