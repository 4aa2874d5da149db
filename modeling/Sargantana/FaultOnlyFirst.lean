import Sargantana.VloadAssembly

-- Fault-only-first loads, over whole runs: the vector that mem_unit writes back when the last
-- element faults, and the length that it reports.
namespace Sargantana.FaultOnlyFirst
open DracPkg MemPipeline Vagu VaguPieces VaguCoverage VloadGather VloadElements VectorPackers VloadAssembly Gather Packed StateMachine
open LoadCompletion (depth)
open LoadDelivery (Presented Held Accepted)
open LoadExtraction (Config dataToWb)

variable {α : Type} {c : Config} {v : VectorInstr α} {s : Vagu.State α} {r : Output α} {k : Nat}

theorem single_piece (load : Load v) (kind : v.instr.instrType = .vleff) (progress : Progress v k s) :
    piece s = vlSingle (elemLog v.instr.memSize) s := by
  have none : groups (vaguStride v) v.instr.instrType = false ∧ groups (-vaguStride v) v.instr.instrType = false := by
    simp [groups,kind]
  have up := progress.setup.up
  have down := progress.setup.down
  rw [none.1] at up down
  rw [none.2] at down
  have strided : s.mode = .vlStrided := by
    rw [progress.setup.mode]
    rcases mode_cases load.taken with ⟨_,other⟩ | ⟨_,other,_⟩ | ⟨mode,_⟩ | ⟨_,other⟩ | ⟨_,other⟩ | ⟨_,other⟩
    · simp [kind,vle] at other
    · simp [kind] at other
    · exact mode
    · simp [kind] at other
    · simp [kind,vlxe] at other
    · simp [kind] at other
  simp [piece,strided,progress.setup.instr,vlStrided,up,down]

-- A request of the load: it brings the element of its own, and is still one of a fault-only-first
-- load.
structure Alone (r : Output α) : Prop where
  brings : ∀ j i, gather r j = some i → j = r.instr.velemId.val
  kind : r.instr.instrType = .vleff
  up : r.negStride = false

theorem request_alone (load : Load v) (kind : v.instr.instrType = .vleff) (straight : Direct v) (progress : Progress v k s) :
    Alone (request s) := by
  have single := single_piece load kind progress
  have count : (piece s).velemIncr = 1 := congrArg Piece.velemIncr single
  refine ⟨fun j i taken => ?_,?_,congrArg Piece.negStride single⟩
  · rw [request_place load progress]
    rcases piece_brings load progress straight with ⟨place,takes,_⟩ | ⟨zero,_⟩
    · obtain ⟨q,less,rfl,_⟩ := (takes j i).mp taken
      omega
    · obtain ⟨q,less,_⟩ := (takes_none zero k id j i).mp taken
      omega
  · have mode := progress.setup.mode
    change pieceType s = .vleff
    rcases load.modes with ⟨start,_⟩ | ⟨start,_⟩ | ⟨_,indexes⟩
    · rw [start] at mode
      simp only [pieceType,mode,progress.setup.instr,kind]
    · rw [start] at mode
      simp only [pieceType,mode,progress.setup.instr,kind]
    · simp [isIndexed,kind,vlxe] at indexes

-- The last request is for the last element. The induction is on the elements that are left.
theorem plan_last (load : Load v) (kind : v.instr.instrType = .vleff) (straight : Direct v) {fuel : Nat} (progress : Progress v k s)
    (enough : vaguVl v ≤ k + fuel) : ∃ front r, plan fuel s = front ++ [r] ∧ r.instr.velemId.val + 1 = vaguVl v := by
  induction fuel generalizing k s with
  | zero =>
    have left := progress.left
    omega
  | succ fuel ih =>
    have shape := piece_shape load.taken progress
    have count : (piece s).velemIncr = 1 := congrArg Piece.velemIncr (single_piece load kind progress)
    have fits := shape.fits
    rw [plan_step load.taken progress]
    by_cases last : k + (piece s).velemIncr = vaguVl v
    · rw [plan_scalar (advance_done load.taken progress (.inl last)),List.append_nil]
      rcases emitted_cases load.taken progress with ⟨_,list⟩ | ⟨none,_⟩
      · exact ⟨[],request s,list,by rw [request_place load progress]; omega⟩
      · rcases shape.kind with ⟨made,_⟩ | ⟨_,_,_,_,more⟩
        · rw [none] at made
          cases made
        · omega
    · obtain ⟨front,r,rest,place⟩ := ih (advance_progress load.taken progress (straight.unskewed k progress.left) (by omega)) (by omega)
      exact ⟨emitted s ++ front,r,by rw [rest,List.append_assoc],place⟩

structure Singles (v : VectorInstr α) (requests : List (Output α)) : Prop where
  alone : ∀ r ∈ requests, Alone r
  last : ∃ front r, requests = front ++ [r] ∧ r.instr.velemId.val + 1 = vaguVl v

theorem plan_singles (load : Load v) (kind : v.instr.instrType = .vleff) (straight : Direct v) {fuel : Nat} (progress : Progress v k s)
    (enough : vaguVl v ≤ k + fuel) : Singles v (plan fuel s) := by
  refine ⟨fun r inside => ?_,plan_last load kind straight progress enough⟩
  obtain ⟨k',s',progress',_,rfl⟩ := plan_member load.taken progress inside
  exact request_alone load kind straight progress'

-- vleff_vl_int and vleff_gl_index
structure Vleff where
  vl : Fin 32
  glIndex : GlIndex

def Vleff.next (f : Vleff) (flush : Bool) (wb : Option Instr) : Vleff :=
  if flush then ⟨0,0⟩
  else wb.elim f fun x =>
    if x.ex.valid && x.instrType == .vleff && x.velemId != 0 && f.vl == 0 then ⟨x.velemId.castLE (by decide),x.glIndex⟩
    else if x.valid && x.glIndex != f.glIndex then ⟨0,0⟩
    else f

-- instruction_simd_o.ex
def simdEx (x : Instr) : Exception := if x.instrType == .vleff && x.velemId != 0 then Exception.none else x.ex

-- mem_unit with these registers
structure State (c : Config) where
  unit : VloadAssembly.State c
  vleff : Vleff

def next (reg : Bool) (s : State c) (i : Input VectorFields c.Line) : State c where
  unit := VloadAssembly.next reg s.unit i
  vleff := s.vleff.next i.flush ((toWb reg s.unit.tracked.core (connect s.unit.packers i)).map fun w => w.1)

def machine (c : Config) (reg : Bool) : Machine (State c) (Input VectorFields c.Line) where
  initial := ⟨(VloadAssembly.machine c reg).initial,⟨0,0⟩⟩
  allowed s i := (VloadAssembly.machine c reg).allowed s.unit i
  step := next reg

section
variable {reg : Bool} {inputs : Nat → Input VectorFields c.Line}

theorem unit_trace (u : Nat) : (trace (machine c reg) inputs u).unit = trace (VloadAssembly.machine c reg) inputs u :=
  trace_part State.unit (VloadAssembly.machine c reg) inputs rfl (fun _ => rfl) u

theorem unit_admits (admits : Admits (machine c reg) inputs) : Admits (VloadAssembly.machine c reg) inputs := by
  intro u
  rw [← unit_trace]
  exact admits u

def reported (reg : Bool) (inputs : Nat → Input VectorFields c.Line) (u : Nat) : Vleff := (trace (machine c reg) inputs u).vleff

theorem reported_step (u : Nat) : reported reg inputs (u + 1) =
    (reported reg inputs u).next (inputs u).flush ((toWb reg (core reg inputs u) (fed reg inputs u)).map fun w => w.1) := by
  have same : core reg inputs u = (trace (VloadAssembly.machine c reg) inputs u).tracked.core := by
    rw [core,← tracked_trace]
  rw [same,VloadAssembly.fed,← unit_trace]
  rfl

theorem next_faulted {f : Vleff} {x : Instr} (fault : x.ex.valid = true) (kind : x.instrType = .vleff) (other : x.velemId ≠ 0) (clear : f.vl = 0) :
    f.next false (some x) = ⟨x.velemId.castLE (by decide),x.glIndex⟩ := by
  simp [Vleff.next,fault,kind,other,clear]

theorem next_kept {f : Vleff} {wb : Option Instr} (set : f.vl ≠ 0) (own : ∀ x, wb = some x → x.valid = true → x.glIndex = f.glIndex) :
    f.next false wb = f := by
  cases wb with
  | none => rfl
  | some x =>
    have zero : (f.vl == 0) = false := by simpa using set
    simp only [Vleff.next,Bool.false_eq_true,if_false,Option.elim_some,zero,Bool.and_false]
    refine if_neg fun other => ?_
    simp only [Bool.and_eq_true,bne_iff_ne] at other
    exact other.2 (own x rfl other.1)

-- The queue hands on the requests of a load in their order; the last one is the first that
-- faults, and it is asked in cycle `fault`.
structure Faulted (reg : Bool) (inputs : Nat → Input VectorFields c.Line) (v : VectorInstr α) (old : BitVec 128) (mem : BitVec 64 → BitVec 8)
    (g : GlIndex) (start : Nat) (requests : List (Output α)) (times : List Nat) (fault : Nat) (asked : Nat → Output α) : Prop where
  earlier : Loaded reg inputs v old mem g start (times.map asked) times asked
  all : requests = times.map asked ++ [asked fault]
  last : ∀ n ∈ times, n < fault
  later : start ≤ fault
  passes : Passes reg inputs fault
  hands : Hands v old g (asked fault) (inputs fault).shown
  faults : (inputs fault).shown.ex.valid = true

-- When the last stage has the request that faults, the earlier ones have left the memory unit
-- and no length of another load is kept.
structure Settled (reg : Bool) (inputs : Nat → Input VectorFields c.Line) (times : List Nat) (fault : Nat) : Prop where
  gone : ∀ n ∈ times, ¬ Held (trace (LoadCompletion.machine reg) (fed reg inputs) (fault + depth reg)) n
  clear : (reported reg inputs (fault + depth reg)).vl = 0

-- The load is written back once: with the elements below the last one, without an exception, and
-- with the number of these elements as the length, which is kept while no other instruction is
-- written back.
structure FaultsOnce (reg : Bool) (inputs : Nat → Input VectorFields c.Line) (v : VectorInstr α) (mem : BitVec 64 → BitVec 8) (g : GlIndex)
    (start : Nat) (times : List Nat) : Prop where
  carries : ∀ u result, Undisturbed reg inputs g times start u → Writes reg inputs g u result → ∀ j < vaguVl v - 1, Active v j →
    element (8 * 2 ^ registerLog v) j result = memElement mem (registerLog v) (elemAddr v j)
  quiet : ∀ u x result, Undisturbed reg inputs g times start u → simd reg (trace (VloadAssembly.machine c reg) inputs u) (inputs u) = some (x,result) →
    x.glIndex = g → simdEx x = Exception.none
  length : ∀ u w result, Undisturbed reg inputs g times start u → Writes reg inputs g u result → u < w →
    (∀ t, u < t → t < w → (inputs t).flush = false ∧ ∀ x data, toWb reg (core reg inputs t) (fed reg inputs t) = some (x,data) →
      x.valid = true → x.glIndex = g) → (reported reg inputs w).vl.val = vaguVl v - 1
  once : ∀ u w result other, Undisturbed reg inputs g times start u → Undisturbed reg inputs g times start w →
    Writes reg inputs g u result → Writes reg inputs g w other → u = w
  comes : (∀ u, start ≤ u → (inputs u).flush = false) →
    (∀ n, start ≤ n → Passes reg inputs n → (inputs n).shown.glIndex = g → n ∈ times ∨ ∃ u < n, start ≤ u ∧ ∃ result, Writes reg inputs g u result) →
    ∃ u result, Undisturbed reg inputs g times start u ∧ Writes reg inputs g u result

end

theorem faulty_brings {x : Instr} (fault : x.ex.valid = true) (up : x.carried.negStride = false) (j : Nat) : gather (asRequest x) j = none := by
  have mark : (asRequest x).instr.ex.valid = true := fault
  have none : (asRequest x).negStride = false := up
  rw [gather,none,if_neg Bool.false_ne_true,mark]
  cases taken : (pick (fun packed => (packed + 1) % 32) (slot (asRequest x))
      (fun i => decide ((asRequest x).velemOff ≤ i) && ((asRequest x).instr.loadMask.getLsbD (i - (asRequest x).velemOff) && !true))
      0 (elements (asRequest x))).2 j with
  | none => rfl
  | some i =>
    rw [pick_taken (fun a _ _ _ live => by simp at live)] at taken
    simp at taken

theorem fault_writeback {reg : Bool} {s : MemPipeline.State VectorFields c.Line} {i : Input VectorFields c.Line}
    (valid : (last reg s).instruction.valid = true) (fault : (last reg s).instruction.ex.valid = true) :
    ∃ source line, writeback reg s i = some (source,(last reg s).instruction,line) := by
  unfold writeback
  cases hit : answers reg s i && !(last reg s).isStore with
  | true =>
    have chosen : stageWb reg s i = some .response := by
      simp [stageWb,valid,hit]
    rw [chosen]
    exact ⟨_,_,rfl⟩
  | false =>
    have chosen : stageWb reg s i = some .exception := by
      simp [stageWb,valid,hit,fault]
    rw [chosen]
    exact ⟨_,_,rfl⟩

section
variable {reg : Bool} {inputs : Nat → Input VectorFields c.Line} {old : BitVec 128} {mem : BitVec 64 → BitVec 8} {g : GlIndex}
  {start fault u n : Nat} {requests : List (Output α)} {times : List Nat} {asked : Nat → Output α}

theorem passes_last (passes : Passes reg inputs n) (straight : ∀ w, n ≤ w → w < n + depth reg → (inputs w).flush = false) :
    (last reg (core reg inputs (n + depth reg))).instruction = (inputs n).shown := by
  have first : (core reg inputs (n + 1)).s1.instruction = (inputs n).shown := by
    change (nextS1 (core reg inputs n) (fed reg inputs n)).instruction = _
    unfold nextS1
    rw [if_neg]
    · exact (passes_shown passes).1
    · change ¬ (inputs n).flush = true
      rw [straight n (Nat.le_refl n) (Nat.lt_add_of_pos_right (depth_pos reg))]
      exact Bool.false_ne_true
  cases reg with
  | false => exact first
  | true =>
    change (if (inputs (n + 1)).flush || !true then StageReg.zero else (core true inputs (n + 1)).s1).instruction = _
    rw [straight (n + 1) (by omega) (by change n + 1 < n + 2; omega)]
    exact first

section
variable (fetched : Fetched v requests) (faulted : Faulted reg inputs v old mem g start requests times fault asked)
include fetched faulted

theorem earlier_fetches (member : n ∈ times) : Fetches v (asked n) := by
  refine fetched.each _ ?_
  rw [faulted.all]
  exact List.mem_append_left _ (List.mem_map_of_mem member)

theorem fault_fetches : Fetches v (asked fault) := by
  refine fetched.each _ ?_
  rw [faulted.all]
  exact List.mem_append_right _ List.mem_cons_self

theorem counted_total : (∑ n ∈ times.toFinset, counted (asked n)) + counted (asked fault) = vaguVl v := by
  rw [List.sum_toFinset _ faulted.earlier.distinct,← fetched.sum,faulted.all,List.map_append,List.sum_append,List.map_map]
  simp [Function.comp_def]

theorem counted_short : ∑ n ∈ times.toFinset, counted (asked n) < vaguVl v := by
  have total := counted_total fetched faulted
  have some := (fault_fetches fetched faulted).counts
  omega

theorem Faulted.handed (load : Load v) : Handed reg inputs v old mem g start times.toFinset asked where
  load := load
  fresh := faulted.earlier.fresh
  later n inside := faulted.earlier.later n (List.mem_toFinset.mp inside)
  passes n inside := faulted.earlier.passes n (List.mem_toFinset.mp inside)
  issues n inside := faulted.earlier.issues n (List.mem_toFinset.mp inside)
  fetches _ inside := earlier_fetches fetched faulted (List.mem_toFinset.mp inside)
  served n inside := faulted.earlier.served n (List.mem_toFinset.mp inside)
  total := Nat.le_of_lt (counted_short fetched faulted)

end

theorem faulted_window (alone : Undisturbed reg inputs g (times ++ [fault]) start u) :
    Window inputs reg g (fun n => n ∈ times.toFinset ∨ n = fault) start (u + 1) := by
  intro n after before
  obtain ⟨straight,mine⟩ := alone.2 n after (by omega)
  refine ⟨straight,fun passes same => ?_⟩
  rcases List.mem_append.mp (mine passes same) with member | last
  · exact .inl (List.mem_toFinset.mpr member)
  · exact .inr (List.mem_singleton.mp last)

section
variable (admits : Admits (VloadAssembly.machine c reg) inputs)
  (orderly : ∀ u, Orderly reg (trace (VloadAssembly.machine c reg) inputs u) (inputs u))
  (faulted : Faulted reg inputs v old mem g start requests times fault asked)
include admits orderly faulted

theorem fault_silent {x : Instr} {line : c.Line} : ¬ Presented reg (fed reg inputs) u fault x line := by
  intro shown
  obtain ⟨live,_⟩ := LoadDelivery.presented_sound (fed_invariant admits orderly u) shown
  obtain ⟨_,same,_⟩ := LoadCompletion.taken_cases (core reg inputs fault) (fed reg inputs fault)
  have taken : LoadCompletion.taken (core reg inputs fault) (fed reg inputs fault) = true := live.taken
  have silent : asks (fed reg inputs fault).shown = false := by
    change asks (inputs fault).shown = false
    simp [asks,faulted.faults]
  rw [taken,silent,Bool.and_false] at same
  cases same

-- What is written back with the index of the load is the answer to one of the earlier requests, or
-- the request that faults.
theorem written_cases (alone : Undisturbed reg inputs g (times ++ [fault]) start u) {source : Source} {x : Instr} {line : c.Line}
    (found : writeback reg (core reg inputs u) (fed reg inputs u) = some (source,x,line)) (valid : x.valid = true) (mine : x.glIndex = g) :
    (∃ n ∈ times, Presented reg (fed reg inputs) u n x line ∧ x.ex.valid = false) ∨ (fault + depth reg = u ∧ x = (inputs fault).shown) := by
  obtain ⟨n,after,before,passes,rfl,kind⟩ := own_writes admits orderly faulted.earlier.fresh alone.1 found mine valid
  rcases List.mem_append.mp ((alone.2 n after (by omega)).2 passes mine) with member | last
  · have issues := faulted.earlier.issues n member
    refine .inl ⟨n,member,?_,issues.clean⟩
    rcases kind with shown | ⟨_,fault | store⟩
    · exact shown
    · rw [issues.clean] at fault
      cases fault
    · rw [issues.reads.1] at store
      cases store
  · obtain rfl := List.mem_singleton.mp last
    rcases kind with shown | ⟨here,_⟩
    · exact absurd shown (fault_silent admits orderly faulted)
    · exact .inr ⟨here,rfl⟩

theorem faulted_quiet (alone : Undisturbed reg inputs g (times ++ [fault]) start u) (before : u ≤ fault + depth reg) :
    Quiet reg inputs g times.toFinset start u := by
  intro w after earlier source x line found valid mine
  rcases written_cases admits orderly faulted (alone.earlier after (by omega)) found valid mine with ⟨n,member,shown,_⟩ | ⟨here,_⟩
  · exact ⟨n,List.mem_toFinset.mpr member,shown⟩
  · omega

section
variable (settled : Settled reg inputs times fault)
include settled

theorem presented_earlier (member : n ∈ times) {x : Instr} {line : c.Line} (shown : Presented reg (fed reg inputs) u n x line) :
    u < fault + depth reg := by
  by_contra late
  have held := LoadDelivery.presented_held (fed_invariant admits orderly u) shown
  have before := faulted.last n member
  exact settled.gone n member (LoadDelivery.held_earlier (fed_admits admits) (fed_calm orderly) held (by omega) (by omega))

theorem settled_done (alone : Undisturbed reg inputs g (times ++ [fault]) start (fault + depth reg)) (member : n ∈ times) :
    n ∈ done reg inputs times.toFinset (fault + depth reg) := by
  have issues := faulted.earlier.issues n member
  have before := faulted.last n member
  have after := faulted.earlier.later n member
  obtain ⟨accepted,_⟩ := passes_accepted (faulted.earlier.passes n member) issues.reads issues.clean
  rcases LoadDelivery.held_until_presented (fed_admits admits) (fed_calm orderly) accepted (u := fault + depth reg) (by omega)
    (fun w later earlier => (alone.2 w (by omega) (by omega)).1) with held | ⟨w,line,_,earlier,shown⟩
  · exact absurd held (settled.gone n member)
  · exact mem_done.mpr ⟨List.mem_toFinset.mpr member,w,earlier,_,line,shown⟩

variable (fetched : Fetched v requests) (load : Load v)
include fetched load

omit settled in
theorem faulted_stands (alone : Undisturbed reg inputs g (times ++ [fault]) start u) (before : u ≤ fault + depth reg) :
    Stands reg inputs v mem g times.toFinset asked u := by
  obtain ⟨d,rfl⟩ : ∃ d, u = start + d := ⟨u - start,by have := alone.1; omega⟩
  exact stands_run (faulted.handed fetched load) admits orderly (fun n => n = fault) (fun _ _ => counted_short fetched faulted) d
    (fun n after before => faulted_window alone n after (by omega)) (faulted_quiet admits orderly faulted alone before)

theorem written_fault (alone : Undisturbed reg inputs g (times ++ [fault]) start u) {x : Instr} {result : BitVec 128}
    (wrote : simd reg (trace (VloadAssembly.machine c reg) inputs u) (inputs u) = some (x,result)) (mine : x.glIndex = g) :
    fault + depth reg = u ∧ x = (inputs fault).shown ∧ ∃ data, toWb reg (core reg inputs u) (fed reg inputs u) = some (x,data) ∧
      result = maskedDataToWb (packers reg inputs u) x data := by
  unfold simd at wrote
  rw [tracked_trace] at wrote
  obtain ⟨⟨y,data⟩,found,same⟩ := Option.map_eq_some_iff.mp wrote
  obtain ⟨rfl,rfl⟩ := Prod.mk.inj same
  obtain ⟨found,test⟩ := Option.filter_eq_some_iff.mp found
  obtain ⟨⟨source,z,line⟩,back,same⟩ := Option.map_eq_some_iff.mp found
  obtain ⟨rfl,rfl⟩ := Prod.mk.inj same
  simp only [loadsVector,Bool.and_eq_true,Bool.or_eq_true] at test
  rcases written_cases admits orderly faulted alone back test.1.1 mine with ⟨n,member,shown,clean⟩ | ⟨here,rfl⟩
  · have earlier := presented_earlier admits orderly faulted settled member shown
    have handed := faulted.handed fetched load
    have stands := faulted_stands admits orderly faulted fetched load alone (by omega)
    have complete := (presented_completes handed admits orderly stands (List.mem_toFinset.mpr member) shown).1
    have total := done_total reg inputs times.toFinset asked (u + 1)
    have short := counted_short fetched faulted
    rcases test.2 with (flushed | completed) | fault
    · rw [(alone.2 u alone.1 (Nat.le_refl u)).1] at flushed
      cases flushed
    · have full := of_decide_eq_true (complete.symm.trans completed)
      omega
    · rw [clean] at fault
      cases fault
  · exact ⟨here,rfl,_,found,rfl⟩

variable (singles : Singles v requests)
include singles

omit admits orderly settled fetched load in
theorem fault_place : (asked fault).instr.velemId.val + 1 = vaguVl v := by
  obtain ⟨front,r,list,place⟩ := singles.last
  have same := congrArg List.getLast? (faulted.all.symm.trans list)
  simp only [List.getLast?_append,List.getLast?_singleton,Option.some_or,Option.some.injEq] at same
  rw [same]
  exact place

theorem fault_carries (alone : Undisturbed reg inputs g (times ++ [fault]) start u) {result : BitVec 128} (writes : Writes reg inputs g u result)
    {j : Nat} (below : j < vaguVl v - 1) (active : Active v j) :
    element (8 * 2 ^ registerLog v) j result = memElement mem (registerLog v) (elemAddr v j) := by
  obtain ⟨x,wrote,mine⟩ := writes
  obtain ⟨here,rfl,data,_,rfl⟩ := written_fault admits orderly faulted settled fetched load alone wrote mine
  subst here
  have hands := faulted.hands
  have fetches := fault_fetches fetched faulted
  have place := fault_place faulted singles
  have short := counted_short fetched faulted
  have room := load.room
  have sew : (inputs fault).shown.sew.val = registerLog v := by rw [hands.sew,fetches.sew]
  have loads : loadsVector (inputs fault).shown = true := by
    rw [loadsVector,hands.valid,hands.fields]
    rfl
  have up : (inputs fault).shown.carried.negStride = false := by
    rw [hands.fields]
    exact (singles.alone _ (by rw [faulted.all]; exact List.mem_append_right _ List.mem_cons_self)).up
  obtain ⟨r,inside,i,taken⟩ := fetched.reached j (by omega) active
  have own := (singles.alone r inside).brings j i taken
  rw [faulted.all] at inside
  rcases List.mem_append.mp inside with inside | last
  · obtain ⟨n,member,rfl⟩ := List.mem_map.mp inside
    have brought : given reg inputs times.toFinset asked (fault + depth reg) j :=
      ⟨n,settled_done admits orderly faulted settled alone member,i,taken⟩
    rw [masked_element sew (by omega),if_pos ((issued_takes load fetches hands (by omega)).mpr active),vdata_element sew (by omega),
      faulty_brings faulted.faults up,Option.elim_none,packed_content loads,hands.index]
    rcases faulted_stands admits orderly faulted fetched load alone (Nat.le_refl _) with ⟨_,whole⟩ | ⟨t,d,found,_,packs,_⟩ | ⟨_,full⟩
    · have before := faulted.last n member
      have most := whole n (List.mem_toFinset.mpr member) (by omega)
      have one := Finset.single_le_sum (f := fun n => counted (asked n)) (fun _ _ => Nat.zero_le _) (List.mem_toFinset.mpr member)
      exact absurd (Nat.lt_of_le_of_lt one short) (Nat.not_lt.mpr most)
    · rw [found]
      exact packs.active j (by omega) active brought
    · have total := done_total reg inputs times.toFinset asked (fault + depth reg)
      omega
  · rw [List.mem_singleton.mp last] at own
    omega

omit admits orderly settled fetched load in
theorem fault_kind (long : 1 < vaguVl v) : (inputs fault).shown.instrType = .vleff ∧ (inputs fault).shown.velemId ≠ 0 := by
  have hands := faulted.hands
  have place := fault_place faulted singles
  constructor
  · rw [hands.type]
    exact (singles.alone _ (by rw [faulted.all]; exact List.mem_append_right _ List.mem_cons_self)).kind
  · rw [hands.place,ne_eq,Fin.ext_iff]
    change ¬ (asked fault).instr.velemId.val = 0
    omega

omit admits orderly settled fetched load in
theorem fault_quiet (long : 1 < vaguVl v) : simdEx (inputs fault).shown = Exception.none := by
  obtain ⟨kind,other⟩ := fault_kind faulted singles long
  simp [simdEx,kind,other]

theorem fault_length (long : 1 < vaguVl v) (alone : Undisturbed reg inputs g (times ++ [fault]) start u) {result : BitVec 128}
    (writes : Writes reg inputs g u result) : (reported reg inputs (u + 1)).vl.val = vaguVl v - 1 ∧ (reported reg inputs (u + 1)).glIndex = g := by
  obtain ⟨x,wrote,mine⟩ := writes
  obtain ⟨here,rfl,data,found,_⟩ := written_fault admits orderly faulted settled fetched load alone wrote mine
  have hands := faulted.hands
  have place := fault_place faulted singles
  obtain ⟨kind,other⟩ := fault_kind faulted singles long
  have clear := settled.clear
  rw [here] at clear
  rw [reported_step,found,(alone.2 u alone.1 (Nat.le_refl u)).1,Option.map_some,next_faulted faulted.faults kind other clear]
  refine ⟨?_,hands.index⟩
  change (inputs fault).shown.velemId.val = _
  rw [hands.place]
  omega

theorem length_kept (long : 1 < vaguVl v) (alone : Undisturbed reg inputs g (times ++ [fault]) start u) {result : BitVec 128}
    (writes : Writes reg inputs g u result) (d : Nat)
    (rest : ∀ t, u < t → t < u + 1 + d → (inputs t).flush = false ∧
      ∀ x data, toWb reg (core reg inputs t) (fed reg inputs t) = some (x,data) → x.valid = true → x.glIndex = g) :
    reported reg inputs (u + 1 + d) = reported reg inputs (u + 1) := by
  obtain ⟨length,index⟩ := fault_length admits orderly faulted settled fetched load singles long alone writes
  induction d with
  | zero => rfl
  | succ d ih =>
    have same := ih fun t after before => rest t after (by omega)
    obtain ⟨straight,own⟩ := rest (u + 1 + d) (by omega) (by omega)
    change reported reg inputs (u + 1 + d + 1) = _
    rw [reported_step,straight,same]
    refine next_kept ?_ fun x found valid => ?_
    · intro zero
      rw [zero] at length
      change 0 = _ at length
      omega
    · obtain ⟨⟨y,data⟩,wrote,rfl⟩ := Option.map_eq_some_iff.mp found
      rw [index]
      exact own y data wrote valid

end

omit admits orderly in
theorem fault_writes (straight : ∀ w, fault ≤ w → w < fault + depth reg → (inputs w).flush = false) :
    ∃ result, Writes reg inputs g (fault + depth reg) result := by
  have hands := faulted.hands
  have same := passes_last faulted.passes straight
  obtain ⟨source,line,found⟩ := fault_writeback (i := fed reg inputs (fault + depth reg)) (by rw [same]; exact hands.valid)
    (by rw [same]; exact faulted.faults)
  rw [same] at found
  have wrote : toWb reg (core reg inputs (fault + depth reg)) (fed reg inputs (fault + depth reg)) =
      some ((inputs fault).shown,dataToWb c (inputs fault).shown.memSize (inputs fault).shown.dataRs1 line) := by
    rw [toWb,found]
    rfl
  refine ⟨maskedDataToWb (packers reg inputs (fault + depth reg)) (inputs fault).shown
    (dataToWb c (inputs fault).shown.memSize (inputs fault).shown.dataRs1 line),(inputs fault).shown,?_,hands.index⟩
  unfold simd
  rw [tracked_trace]
  refine Option.map_eq_some_iff.mpr ⟨_,Option.filter_eq_some_iff.mpr ⟨wrote,?_⟩,rfl⟩
  change (loadsVector (inputs fault).shown && (_ || _ || (inputs fault).shown.ex.valid)) = true
  rw [loadsVector,hands.valid,hands.fields,faulted.faults,Bool.or_true]
  rfl

theorem faulted_undisturbed (settled : Settled reg inputs times fault) (fetched : Fetched v requests) (load : Load v)
    (straight : ∀ u, start ≤ u → (inputs u).flush = false)
    (reuse : ∀ n, start ≤ n → Passes reg inputs n → (inputs n).shown.glIndex = g →
      n ∈ times ++ [fault] ∨ ∃ u < n, start ≤ u ∧ ∃ result, Writes reg inputs g u result) (u : Nat) :
    start ≤ u → u ≤ fault + depth reg → Undisturbed reg inputs g (times ++ [fault]) start u := by
  induction u using Nat.strongRecOn with
  | ind u ih =>
    intro after before
    refine ⟨after,fun n later within => ⟨straight n later,fun passes mine => ?_⟩⟩
    rcases reuse n later passes mine with member | ⟨w,earlier,begun,result,x,wrote,own⟩
    · exact member
    · have here := (written_fault admits orderly faulted settled fetched load (ih w (by omega) begun (by omega)) wrote own).1
      omega

end

variable {feed : Nat → VectorInstr α × Bool} {s : Vagu.State α}

-- A fault-only-first load whose last element is the first that faults is written back once, when
-- its earlier elements are there by then.
theorem last_fault_written_once (admits : Admits (machine c reg) inputs)
    (orderly : ∀ u, Orderly reg (trace (VloadAssembly.machine c reg) inputs u) (inputs u)) (load : Load v) (kind : v.instr.instrType = .vleff)
    (straight : Straight v) (long : 1 < vaguVl v) (idle : s.mode = .scalar) (accepted : feed 0 = (v,false)) {t : Nat} (returns : Returns s feed t)
    (faulted : Faulted reg inputs v old mem g start (VaguCoverage.requests s feed t) times fault asked) (settled : Settled reg inputs times fault) :
    FaultsOnce reg inputs v mem g start (times ++ [fault]) := by
  have unit := unit_admits admits
  have direct : Direct v := straight.direct (by rw [kind]; decide)
  have progress := (accept_awaits load.taken idle accepted).1
  have plan := returned_plan load.taken idle accepted returns
  have fetched : Fetched v (VaguCoverage.requests s feed t) := by
    rw [plan]
    exact plan_fetched load direct progress
  have singles : Singles v (VaguCoverage.requests s feed t) := by
    rw [plan]
    exact plan_singles load kind direct progress (by omega)
  have time : ∀ u result, Undisturbed reg inputs g (times ++ [fault]) start u → Writes reg inputs g u result → fault + depth reg = u := by
    intro u result alone writes
    obtain ⟨x,wrote,mine⟩ := writes
    exact (written_fault unit orderly faulted settled fetched load alone wrote mine).1
  refine ⟨?_,?_,?_,?_,?_⟩
  · intro u result alone writes j below active
    exact fault_carries unit orderly faulted settled fetched load singles alone writes below active
  · intro u x result alone wrote mine
    obtain ⟨_,rfl,_⟩ := written_fault unit orderly faulted settled fetched load alone wrote mine
    exact fault_quiet faulted singles long
  · intro u w result alone writes later rest
    obtain ⟨d,rfl⟩ : ∃ d, w = u + 1 + d := ⟨w - (u + 1),by omega⟩
    rw [length_kept unit orderly faulted settled fetched load singles long alone writes d rest]
    exact (fault_length unit orderly faulted settled fetched load singles long alone writes).1
  · intro u w result other one two first second
    rw [← time u result one first,← time w other two second]
  · intro never reuse
    have alone := faulted_undisturbed unit orderly faulted settled fetched load never reuse (fault + depth reg)
      (Nat.le_trans faulted.later (Nat.le_add_right _ _)) (Nat.le_refl _)
    obtain ⟨result,writes⟩ := fault_writes faulted fun w after _ => never w (Nat.le_trans faulted.later after)
    exact ⟨_,result,alone,writes⟩

end

-- A load of two bytes on both sides of a page
def acrossPages : VectorInstr Unit where
  instr := { (MemInstr.zero : MemInstr Unit) with valid := true, instrType := .vleff, dataRs1 := 0x1fff, vl := 2 }
  useMask := false
  dataVm := BitVec.allOnes 16
  dataRs2 := 0
  dataVs1 := 0
  dataVs2 := 0

theorem acrossPages_load : Load acrossPages := by
  refine ⟨⟨rfl,by decide,by decide,by decide,by decide,fun _ => rfl⟩,by decide,by decide,rfl⟩

theorem acrossPages_straight : Straight acrossPages := by
  refine ⟨fun i _ _ => ?_,fun indexes => ?_⟩
  · change decide (_ % 1 ≠ 0) = false
    simp [Nat.mod_one]
  · cases indexes

def byteOf (k : Fin 2) : Output Unit where
  instr := { acrossPages.instr with dataRs1 := if k = 0 then 0x1fff else 0x2000, loadMask := 1, velemId := k.castLE (by decide), velemIncr := 1 }
  velemOff := 0
  negStride := false
  aguReqTag := k.castLE (by decide)
  dataRs2 := 0

-- The queue finds the page of the second byte unmapped.
def handed (k : Fin 2) : Instr :=
  LoadStoreQueue.translate ⟨false,false,[],[]⟩ ⟨⟨true,false,1,k == 1,false⟩,true,true,false,0⟩ (queued acrossPages 0 (byteOf k))

-- The data cache answers for the first byte in a later cycle.
def pageRun (answer u : Nat) : Input VectorFields bus.Line :=
  ⟨if u = 0 then handed 0 else if u = 1 then handed 1 else MemInstr.zero,true,false,MemUnit.calm,false,if u = answer then some ⟨0,0⟩ else none⟩

theorem page_shown (answer u : Nat) : (pageRun answer u).shown = handed 0 ∨ (u = 1 ∧ (pageRun answer u).shown = handed 1) ∨
    (pageRun answer u).shown = MemInstr.zero := by
  unfold pageRun
  by_cases first : u = 0
  · simp [first]
  · by_cases second : u = 1 <;> simp [first,second]

theorem page_reads (answer u : Nat) : (pageRun answer u).shown.isStore = false ∧ (pageRun answer u).shown.isAmoOrStore = false ∧
    needRsp (pageRun answer u).shown.instrType = true := by
  rcases page_shown answer u with shown | ⟨_,shown⟩ | shown <;> rw [shown] <;> decide

theorem page_response {answer u : Nat} {r : PendingMemReqQueue.Response bus.Line} (came : (pageRun answer u).response = some r) :
    u = answer ∧ r = ⟨0,0⟩ := by
  by_cases here : u = answer
  · subst here
    have same : some ⟨0,0⟩ = some r := (if_pos rfl).symm.trans came
    exact ⟨rfl,(Option.some.inj same).symm⟩
  · simp [pageRun,here] at came

theorem page_silent (answer u : Nat) : sent (core false (pageRun answer) (u + 1)) (fed false (pageRun answer) (u + 1)) = false := by
  obtain ⟨ready,killed⟩ := LoadDelivery.steady_handshake false (fed false (pageRun answer)) (fun _ => rfl) u
  have quiet : (MemPipeline.request (core false (pageRun answer) (u + 1)) (fed false (pageRun answer) (u + 1))).valid = false := by
    cases u with
    | zero => rfl
    | succ u => simp [MemPipeline.request,MemUnit.request,MemInstr.zero,VloadAssembly.fed,connect,pageRun]
  rw [sent,quiet,core]
  simp [MemRequest.reqValid,MemRequest.killedD,ready,killed]

section
variable {answer : Nat} (time : answer = 1 ∨ answer = 3)
include time

theorem page_admits : Admits (machine bus false) (pageRun answer) := by
  intro u
  change (VloadAssembly.machine bus false).allowed (trace (machine bus false) (pageRun answer) u).unit (pageRun answer u)
  rw [unit_trace]
  have reads := page_reads answer u
  refine ⟨⟨?_,?_,?_,?_,?_⟩,?_⟩
  · intro r came
    obtain ⟨rfl,rfl⟩ := page_response came
    rcases time with rfl | rfl <;> decide
  · intro goes
    cases u with
    | zero => exact .inl rfl
    | succ u =>
      rw [tracked_trace] at goes
      exact absurd (goes.symm.trans (page_silent answer u)) (by decide)
  · intro store
    exact absurd (store.symm.trans reads.1) (by decide)
  · intro store
    exact absurd (store.symm.trans reads.2.1) (by decide)
  · exact fun _ => reads.2.2
  · exact fun _ => reads.1

theorem page_orderly (u : Nat) : Orderly false (trace (VloadAssembly.machine bus false) (pageRun answer) u) (pageRun answer u) := by
  constructor
  · intro r came valid _ silent
    obtain ⟨rfl,rfl⟩ := page_response came
    rcases time with rfl | rfl
    · exact absurd silent (by decide)
    · exact absurd valid (by decide)
  · intro fault
    unfold s1D at fault
    split at fault
    · change (pageRun answer u).shown.ex.valid = true at fault
      rcases page_shown answer u with shown | ⟨rfl,_⟩ | shown
      · rw [shown] at fault
        exact absurd fault (by decide)
      · rcases time with rfl | rfl <;> exact fun _ => rfl
      · rw [shown] at fault
        cases fault
    · cases fault

end

theorem page_returns : Returns VaguCoverage.start (fun _ => (acrossPages,false)) 3 := by
  refine ⟨by decide,rfl,fun u after before => ?_⟩
  obtain rfl | rfl : u = 1 ∨ u = 2 := by omega
  · decide
  · decide

theorem page_faulted (answer : Nat) : Faulted false (pageRun answer) acrossPages 0 (fun _ => 0) 0 0
    (VaguCoverage.requests VaguCoverage.start (fun _ => (acrossPages,false)) 3) [0] 1 (fun n => byteOf (Fin.ofNat 2 n)) where
  earlier := by
    refine ⟨⟨fun valid => ?_,fun valid => ?_,fun n held => ?_,rfl⟩,rfl,List.pairwise_singleton _ _,fun _ _ => Nat.zero_le _,?_,?_,?_⟩
    · cases valid
    · cases valid
    · rcases held with queued | second | first
      · cases queued
      · cases second
      · cases first
    · intro n inside
      rw [List.mem_singleton.mp inside]
      rfl
    · intro n inside
      rw [List.mem_singleton.mp inside]
      exact ⟨⟨rfl,rfl,rfl,rfl,rfl,rfl,rfl,rfl,⟨rfl,rfl⟩,rfl,rfl⟩,rfl⟩
    · intro n inside u line answered
      obtain ⟨w,r,_,_,came,_,rfl⟩ := answered
      obtain ⟨_,rfl⟩ := page_response came
      intro j a _
      simp [element]
  all := rfl
  last n inside := by
    rw [List.mem_singleton.mp inside]
    decide
  later := Nat.zero_le _
  passes := rfl
  hands := ⟨rfl,rfl,rfl,rfl,rfl,rfl,rfl,rfl,⟨rfl,rfl⟩,rfl,rfl⟩
  faults := rfl

theorem page_settled : Settled false (pageRun 1) [0] 1 := by
  refine ⟨fun n inside => ?_,rfl⟩
  rw [List.mem_singleton.mp inside]
  rintro (queued | second | first)
  · cases queued
  · cases second
  · cases first

theorem last_fault_written_once_early : FaultsOnce false (pageRun 1) acrossPages (fun _ => 0) 0 0 [0,1] :=
  last_fault_written_once (page_admits (.inl rfl)) (page_orderly (.inl rfl)) acrossPages_load rfl acrossPages_straight (by decide) rfl rfl
    page_returns (page_faulted 1) page_settled

-- An answer that comes late: the vector is written back without the first byte.
theorem late_answer_missing : Admits (machine bus false) (pageRun 3) ∧
    (∀ u, Orderly false (trace (VloadAssembly.machine bus false) (pageRun 3) u) (pageRun 3 u)) ∧ Load acrossPages ∧ Straight acrossPages ∧
    Returns VaguCoverage.start (fun _ => (acrossPages,false)) 3 ∧
    Faulted false (pageRun 3) acrossPages 0 (fun _ => 0) 0 0
      (VaguCoverage.requests VaguCoverage.start (fun _ => (acrossPages,false)) 3) [0] 1 (fun n => byteOf (Fin.ofNat 2 n)) ∧
    ¬ FaultsOnce false (pageRun 3) acrossPages (fun _ => 0) 0 0 [0,1] := by
  refine ⟨page_admits (.inr rfl),page_orderly (.inr rfl),acrossPages_load,acrossPages_straight,page_returns,page_faulted 3,?_⟩
  intro writes
  have alone : Undisturbed false (pageRun 3) 0 [0,1] 0 2 := by
    refine ⟨by decide,fun n _ before => ⟨rfl,fun passes _ => ?_⟩⟩
    by_contra late
    obtain rfl : n = 2 := by
      simp only [List.mem_cons,List.not_mem_nil,or_false,not_or] at late
      omega
    cases passes
  have read := writes.carries 2 (BitVec.allOnes 128) alone ⟨handed 1,rfl,rfl⟩ 0 (by decide) (by decide)
  exact absurd read (by decide)

end Sargantana.FaultOnlyFirst
