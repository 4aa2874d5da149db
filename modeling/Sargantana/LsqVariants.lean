import Sargantana.LsqTraffic

namespace Sargantana.LsqVariants
open DracPkg LoadStoreQueue LsqRefinement LsqTraffic QueueTraffic StateMachine

variable {α : Type}

-- The two compilations of one configuration.
def synthesised (cfg : Config) : Config := {cfg with bypass := false}

def simulated (cfg : Config) : Config := {cfg with bypass := true}

-- Both queues under the same inputs, with what came since the last flush and what
-- each of them issued.
structure Pair (α : Type) where
  plain : State α
  bypassing : State α
  came : List (MemInstr α)
  wentPlain : List (MemInstr α)
  wentBypassing : List (MemInstr α)

def Presents (p : Pair α) (i : LoadStoreQueue.Input α) : Prop := i.instruction.valid = true → full p.plain i = false

-- No load that hits in the TLB arrives at an empty queue while read_next_i is high.
def Apart (p : Pair α) (i : LoadStoreQueue.Input α) : Prop := i.readNext = true → arrivesAtEmpty p.plain i = false

instance (p : Pair α) (i : LoadStoreQueue.Input α) : Decidable (Presents p i) := inferInstanceAs (Decidable (_ → _))

instance (p : Pair α) (i : LoadStoreQueue.Input α) : Decidable (Apart p i) := inferInstanceAs (Decidable (_ → _))

structure Agrees (p : Pair α) : Prop where
  same : p.plain = p.bypassing
  issues : p.wentPlain = p.wentBypassing
  kept : (p.came.map erase).Perm
    ((p.wentPlain ++ StoreBuffer.contents p.plain.storeBuffer ++ contents p.plain).map erase)
  counted : p.plain.numToTranslate.val ≤ 8

variable [Inhabited α]

def pairNext (cfg : Config) (p : Pair α) (i : LoadStoreQueue.Input α) : Pair α :=
  let plain := next (synthesised cfg) p.plain i
  let bypassing := next (simulated cfg) p.bypassing i
  if i.flush then ⟨plain,bypassing,[],[],[]⟩
  else ⟨plain,bypassing,p.came ++ (accepted p.plain i).toList,
    p.wentPlain ++ (issued (synthesised cfg) p.plain i).toList,
    p.wentBypassing ++ (issued (simulated cfg) p.bypassing i).toList⟩

def start : Pair α := ⟨reset,reset,[],[],[]⟩

-- Instructions are presented while full_o is low, and nothing else is promised.
def free (cfg : Config) : Machine (Pair α) (LoadStoreQueue.Input α) := ⟨start,Presents,pairNext cfg⟩

def machine (cfg : Config) : Machine (Pair α) (LoadStoreQueue.Input α) :=
  ⟨start,fun p i => Presents p i ∧ Apart p i,pairNext cfg⟩

instance (cfg : Config) (p : Pair α) (i : LoadStoreQueue.Input α) : Decidable ((free cfg).allowed p i) :=
  inferInstanceAs (Decidable (Presents p i))

instance (cfg : Config) (p : Pair α) (i : LoadStoreQueue.Input α) : Decidable ((machine cfg).allowed p i) :=
  inferInstanceAs (Decidable (Presents p i ∧ Apart p i))

variable {cfg : Config} {s : State α} {p : Pair α} {i : LoadStoreQueue.Input α}

theorem next_same (valid : Valid s) (presents : i.instruction.valid = true → full s i = false)
    (apart : i.readNext = true → arrivesAtEmpty s i = false) : next (synthesised cfg) s i = next (simulated cfg) s i := by
  have one : Offered (synthesised cfg) s i := ⟨presents,fun _ => apart⟩
  have two : Offered (simulated cfg) s i := ⟨presents,fun none => by simp [simulated] at none⟩
  have translations : translates (synthesised cfg) s i = translates (simulated cfg) s i := by
    rw [translates_eq valid one,translates_eq valid two]
  unfold next
  rw [translations]
  rfl

-- The bypass changes what is shown only when nothing is read.
theorem issued_same (apart : i.readNext = true → arrivesAtEmpty s i = false) :
    issued (synthesised cfg) s i = issued (simulated cfg) s i := by
  cases next : i.readNext with
  | false => simp [issued,next]
  | true =>
      have shown : nextInstrExe (synthesised cfg) s i = nextInstrExe (simulated cfg) s i := by
        simp only [nextInstrExe,bypassLsq,apart next,Bool.and_false]
        rfl
      rw [issued,issued,shown]

structure Invariant (p : Pair α) : Prop where
  valid : Valid p.plain
  agrees : Agrees p

theorem step_invariant (inv : Invariant p) (presents : Presents p i) (apart : Apart p i) :
    Invariant (pairNext cfg p i) := by
  obtain ⟨valid,same,issues,kept,_⟩ := inv
  have offered : Offered (synthesised cfg) p.plain i := ⟨presents,fun _ => apart⟩
  have after := next_valid valid offered
  have states : next (synthesised cfg) p.plain i = next (simulated cfg) p.bypassing i := by
    rw [← same]
    exact next_same valid presents apart
  have counted : (next (synthesised cfg) p.plain i).numToTranslate.val ≤ 8 := by
    have room := after.room
    unfold held at room
    omega
  cases straight : i.flush with
  | true =>
      have none : contents (next (synthesised cfg) p.plain i) = [] := by simp [contents,held,next,straight]
      have drained : StoreBuffer.contents (next (synthesised cfg) p.plain i).storeBuffer = [] := by
        rw [next_storeBuffer,StoreBuffer.flush_contents straight]
      simp only [pairNext,straight,if_true]
      exact ⟨after,states,rfl,by simp [none,drained],counted⟩
  | false =>
      have conserved : Conserved (trafficOf p.came p.wentPlain p.plain) := by simpa [trafficOf,Conserved] using kept
      have traffic := next_traffic valid offered straight p.came p.wentPlain
      have stepped := step_conserved conserved ((accepted p.plain i).map erase) (move (synthesised cfg) p.plain i)
      rw [← traffic] at stepped
      simp only [pairNext,straight,Bool.false_eq_true,if_false]
      refine ⟨after,states,?_,?_,counted⟩
      · rw [issues,← same,issued_same apart]
      · simpa [trafficOf,Conserved] using stepped

theorem reached_invariant (reached : Reached (machine cfg) p) : Invariant p := by
  refine reached.invariant Invariant ?_ ?_
  · exact ⟨reset_valid,rfl,rfl,List.Perm.refl _,Nat.zero_le _⟩
  · intro p i inv allowed
    exact step_invariant inv allowed.1 allowed.2

-- The load is not written, but it is counted as translated.
theorem arrival_underflows (arrives : arrivesAtEmpty s i = true) (next : i.readNext = true) :
    (LoadStoreQueue.next (synthesised cfg) s i).numToTranslate = 15 := by
  obtain ⟨empty,load,incoming,enable⟩ := arrives_parts arrives
  have none : s.numToTranslate = 0 := Fin.ext (empty_parts empty).2.1
  have straight := (full_parts (incoming_parts incoming).2.2).2
  have unwritten : writeEnable s i = false := by simp [writeEnable,readEnable,arrives,next,empty,load]
  have counted : translates (synthesised cfg) s i = true := by simp [translates,synthesised,enable,incoming]
  simp only [LoadStoreQueue.next,straight,unwritten,counted,none,Bool.false_eq_true,if_false]
  rfl

theorem variants_agree (cfg : Config) (p : Pair α) (reached : Reached (machine cfg) p) :
    Agrees p ∧ ∀ i, Presents p i → (Agrees (pairNext cfg p i) ↔ Apart p i) := by
  have inv := reached_invariant reached
  refine ⟨inv.agrees,?_⟩
  intro i presents
  refine ⟨?_,fun apart => (step_invariant inv presents apart).agrees⟩
  intro agrees next
  rw [Bool.eq_false_iff]
  intro arrives
  have straight := (full_parts (incoming_parts (arrives_parts arrives).2.2.1).2.2).2
  have counted := agrees.counted
  simp only [pairNext,straight,Bool.false_eq_true,if_false] at counted
  rw [arrival_underflows arrives next] at counted
  exact absurd counted (by decide)

def load : MemInstr Unit :=
  {MemInstr.zero with valid := true, memType := .load, memSize := 3, dataRs1 := 4096, glIndex := 1, loadMask := 1}

def cycle (x : MemInstr Unit) (next : Bool) : LoadStoreQueue.Input Unit :=
  ⟨x,true,false,next,false,0,⟨true,false,5,false,false⟩⟩

def board : Config := ⟨false,false,[],[(0,4096)]⟩

def queued : List (LoadStoreQueue.Input Unit) := [cycle load false,cycle MemInstr.zero true]

theorem variants_agree_queued :
    (Agrees (queued.foldl (pairNext board) start) ∧
      ∀ i, Presents (queued.foldl (pairNext board) start) i →
        (Agrees (pairNext board (queued.foldl (pairNext board) start) i) ↔ Apart (queued.foldl (pairNext board) start) i)) ∧
      (queued.foldl (pairNext board) start).wentPlain.map (·.glIndex) = [1] := by
  have path : legal (machine board) start queued = true := by decide
  exact ⟨variants_agree board _ ⟨_,Runs.of_legal path⟩,by decide⟩

def lost : Pair Unit := pairNext board start (cycle load true)

theorem arrival_lost :
    Reached (free board) lost ∧ lost.came.length = 1 ∧ lost.wentPlain.length = 0 ∧ lost.wentBypassing.length = 1 ∧
      lost.plain.numToTranslate = 15 ∧ ¬ Agrees lost := by
  refine ⟨⟨[cycle load true],Runs.of_legal (by decide)⟩,by decide,by decide,by decide,by decide,?_⟩
  intro agrees
  exact absurd (congrArg List.length agrees.issues) (by decide)

end Sargantana.LsqVariants
