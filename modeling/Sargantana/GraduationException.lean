import Sargantana.GraduationRefinement
import Sargantana.Lib.Earliest

namespace Sargantana.GraduationException
open DracPkg GraduationList GraduationRefinement StateMachine Window Earliest

variable {α : Type}

-- The graduation list beside the exceptions reported about its live entries. An
-- entry whose exception is taken leaves the list one cycle before the commit
-- flush; `trap` remembers it for that cycle.
structure Watched (α : Type) where
  gl : State α
  reports : List (Option Exception)
  trap : Option Exception

def pushedReport (t : Watched α) (i : GraduationList.Input α) : Option (Option Exception) :=
  if writeEnable t.gl i then some (if i.instruction.status.exValid then some i.ex else none) else none

def reported (t : Watched α) (i : GraduationList.Input α) : List (Option Exception) :=
  let cells := t.reports ++ (pushedReport t i).toList
  if i.exFromExe.valid then cells.modify (age t.gl.head i.exFromExeIndex) (report i.exFromExe) else cells

def kept (t : Watched α) (i : GraduationList.Input α) : List (Option Exception) :=
  cut (flushAge t.gl i) (reported t i)

def watchedNext (t : Watched α) (i : GraduationList.Input α) : Watched α where
  gl := next t.gl i
  reports := if i.flushCommit then [] else (kept t i).drop (readEnable i)
  trap := if !i.flushCommit && readEnable i == 1 then (kept t i).head?.join else none

-- ex_i belongs to the pushed instruction, and the execute stage reports about
-- live entries.
structure Wired (t : Watched α) (i : GraduationList.Input α) : Prop where
  presented : Presented t.gl i
  frontEnd : i.ex.valid = i.instruction.status.exValid
  live : i.exFromExe.valid = true → age t.gl.head i.exFromExeIndex < t.gl.num.val

-- In a branch flush kill_exe silences what is younger than the branch, and the
-- branch has not retired. An instruction with an exception retires alone, by its
-- trap, and the control unit flushes the list in the next cycle.
structure Guarded (t : Watched α) (i : GraduationList.Input α) : Prop where
  bounded : Bounded t.gl i
  killed : i.flush = true → i.exFromExe.valid = true →
    age t.gl.head i.exFromExeIndex ≤ age t.gl.head i.flushIndex
  alone : ∀ found ∈ earliest (kept t i), found.1 < readEnable i → readEnable i = 1
  followed : t.trap.isSome = true → i.flushCommit = true

instance (t : Watched α) (i : GraduationList.Input α) : Decidable (Wired t i) :=
  decidable_of_iff (Presented t.gl i ∧ i.ex.valid = i.instruction.status.exValid ∧
      (i.exFromExe.valid = true → age t.gl.head i.exFromExeIndex < t.gl.num.val))
    ⟨fun h => ⟨h.1,h.2.1,h.2.2⟩,fun h => ⟨h.presented,h.frontEnd,h.live⟩⟩

instance (t : Watched α) (i : GraduationList.Input α) : Decidable (Guarded t i) :=
  decidable_of_iff (Bounded t.gl i ∧ (i.flush = true → i.exFromExe.valid = true →
      age t.gl.head i.exFromExeIndex ≤ age t.gl.head i.flushIndex) ∧
      (∀ found ∈ earliest (kept t i), found.1 < readEnable i → readEnable i = 1) ∧
      (t.trap.isSome = true → i.flushCommit = true))
    ⟨fun h => ⟨h.1,h.2.1,h.2.2.1,h.2.2.2⟩,fun h => ⟨h.bounded,h.killed,h.alone,h.followed⟩⟩

def free (zero : Cell α) : Machine (Watched α) (GraduationList.Input α) :=
  ⟨⟨reset zero,[],none⟩,Wired,watchedNext⟩

def machine (zero : Cell α) : Machine (Watched α) (GraduationList.Input α) :=
  ⟨⟨reset zero,[],none⟩,fun t i => Wired t i ∧ Guarded t i,watchedNext⟩

instance (zero : Cell α) (t : Watched α) (i : GraduationList.Input α) : Decidable ((free zero).allowed t i) :=
  inferInstanceAs (Decidable (Wired t i))

instance (zero : Cell α) (t : Watched α) (i : GraduationList.Input α) : Decidable ((machine zero).allowed t i) :=
  inferInstanceAs (Decidable (Wired t i ∧ Guarded t i))

def recorded (head : GlIndex) (register : Exception × GlIndex) : Option (Nat × Exception) :=
  if register.1.valid then some ⟨age head register.2,register.1⟩ else none

structure Invariant (t : Watched α) : Prop where
  valid : Valid t.gl
  length : t.reports.length = t.gl.num.val
  oldest : t.trap = none → recorded t.gl.head ⟨t.gl.exception,t.gl.exceptionIndex⟩ = earliest t.reports
  trapped : ∀ ex ∈ t.trap, t.gl.exception = ex ∧ ex.valid = true

variable {t : Watched α} {i : GraduationList.Input α}

-- The three-case comparison of raw indices compares ages.
theorem older_eq (head index other : GlIndex) :
    older head index other = decide (age head index < age head other) := by
  rw [Bool.eq_iff_iff,decide_eq_true_eq]
  simp only [older,age,Bool.or_eq_true,Bool.and_eq_true,decide_eq_true_eq,Fin.le_def,Fin.lt_def,Fin.val_sub]
  omega

theorem reported_exe (live : age t.gl.head i.exFromExeIndex < t.reports.length) (exe : i.exFromExe.valid = true) :
    earliest (reported t i) =
      takeOver (age t.gl.head i.exFromExeIndex) i.exFromExe (earliest t.reports) := by
  rw [reported,if_pos exe,earliest_report _ (by rw [List.length_append]; omega)]
  cases push : pushedReport t i with
  | none => rw [Option.toList_none,List.append_nil]
  | some last =>
      rw [Option.toList_some,earliest_append]
      cases earliest t.reports with
      | some found => rfl
      | none => cases last <;> simp [takeOver,live]

theorem reported_silent (exe : i.exFromExe.valid = false) :
    earliest (reported t i) = (earliest t.reports).or
      (if writeEnable t.gl i && i.instruction.status.exValid then some ⟨t.reports.length,i.ex⟩ else none) := by
  rw [reported,if_neg (by simp [exe])]
  cases push : writeEnable t.gl i with
  | false => simp [pushedReport,push]
  | true =>
      have one : pushedReport t i = some (if i.instruction.status.exValid then some i.ex else none) := by
        simp [pushedReport,push]
      rw [one,Option.toList_some,earliest_append]
      cases i.instruction.status.exValid <;> simp

-- A flush keeps a report when it is not younger than the branch.
def survives (flush : Option Nat) (found : Nat × β) : Bool := flush.all fun k => decide (found.1 < k + 1)

theorem earliest_cut (flush : Option Nat) (cells : List (Option β)) :
    earliest (cut flush cells) = (earliest cells).filter (survives flush) := by
  cases flush with
  | none =>
      rw [cut]
      cases earliest cells <;> rfl
  | some k => exact earliest_take cells (k + 1)

theorem recorded_kept (clear : i.flushCommit = false) (was : t.gl.exception.valid = true)
    (behind : i.exFromExe.valid = true →
      ¬ age t.gl.head i.exFromExeIndex < age t.gl.head t.gl.exceptionIndex) :
    recorded t.gl.head (nextException t.gl i) =
      (some ⟨age t.gl.head t.gl.exceptionIndex,t.gl.exception⟩ : Option (Nat × Exception)).filter
        (survives (flushAge t.gl i)) := by
  have shape : nextException t.gl i =
      if i.flush && decide (age t.gl.head i.flushIndex < age t.gl.head t.gl.exceptionIndex) then ⟨Exception.none,0⟩
      else ⟨t.gl.exception,t.gl.exceptionIndex⟩ := by
    cases exe : i.exFromExe.valid with
    | false => simp [nextException,clear,was,exe,older_eq]
    | true => simp [nextException,clear,was,exe,older_eq,behind exe]
  rw [shape,Option.filter_some]
  cases flush : i.flush with
  | false => simp [recorded,was,survives,flushAge,flush]
  | true =>
      by_cases cutOff : age t.gl.head i.flushIndex < age t.gl.head t.gl.exceptionIndex
      · have gone : decide (age t.gl.head t.gl.exceptionIndex < age t.gl.head i.flushIndex + 1) = false := by
          rw [decide_eq_false_iff_not]
          omega
        simp only [recorded,survives,flushAge,flush,cutOff,gone,Exception.none,decide_true,Bool.and_self,if_true,
          Bool.false_eq_true,if_false,Option.all_some]
      · have stays : decide (age t.gl.head t.gl.exceptionIndex < age t.gl.head i.flushIndex + 1) = true := by
          rw [decide_eq_true_iff]
          omega
        simp only [recorded,was,survives,flushAge,flush,cutOff,stays,decide_false,Bool.and_false,Bool.false_eq_true,
          if_true,if_false,Option.all_some]

theorem arbitrated_exe (inv : Invariant t) (untrapped : t.trap = none) (wired : Wired t i) (guarded : Guarded t i)
    (clear : i.flushCommit = false) (exe : i.exFromExe.valid = true) :
    recorded t.gl.head (nextException t.gl i) = earliest (kept t i) := by
  have live : age t.gl.head i.exFromExeIndex < t.reports.length := inv.length ▸ wired.live exe
  have oldest := inv.oldest untrapped
  have stays : survives (flushAge t.gl i) ⟨age t.gl.head i.exFromExeIndex,i.exFromExe⟩ = true := by
    cases flush : i.flush with
    | false => simp [survives,flushAge,flush]
    | true =>
        have below := guarded.killed flush exe
        simpa [survives,flushAge,flush] using Nat.lt_succ_of_le below
  rw [kept,earliest_cut,reported_exe live exe,← oldest]
  cases was : t.gl.exception.valid with
  | false => simp [nextException,recorded,takeOver,clear,exe,was,stays,Option.filter_some]
  | true =>
      by_cases before : age t.gl.head i.exFromExeIndex < age t.gl.head t.gl.exceptionIndex
      · simp [nextException,recorded,takeOver,older_eq,clear,exe,was,before,stays,Option.filter_some]
      · rw [recorded_kept clear was fun _ => before]
        simp [recorded,takeOver,was,before]

theorem arbitrated_silent (inv : Invariant t) (untrapped : t.trap = none) (wired : Wired t i)
    (clear : i.flushCommit = false) (exe : i.exFromExe.valid = false) :
    recorded t.gl.head (nextException t.gl i) = earliest (kept t i) := by
  have oldest := inv.oldest untrapped
  have room := inv.valid.room
  rw [kept,earliest_cut,reported_silent exe,← oldest]
  cases was : t.gl.exception.valid with
  | true =>
      rw [recorded_kept clear was (by simp [exe])]
      simp [recorded,was]
  | false =>
      have wire := wired.frontEnd
      cases push : writeEnable t.gl i with
      | false => simp [nextException,recorded,clear,exe,was,push]
      | true =>
          have straight : i.flush = false := by
            simp only [writeEnable,Bool.and_eq_true,Bool.not_eq_true'] at push
            exact push.1.2
          have place : age t.gl.head t.gl.tail = t.reports.length := by
            rw [inv.length,inv.valid.tail]
            exact age_shift (by omega)
          cases raised : i.instruction.status.exValid with
          | false =>
              rw [raised] at wire
              simp [nextException,recorded,clear,exe,was,push,raised,wire,straight]
          | true =>
              rw [raised] at wire
              simp [nextException,recorded,clear,exe,was,push,raised,wire,straight,survives,flushAge,place,Option.filter_some]

theorem arbitrated (inv : Invariant t) (untrapped : t.trap = none) (wired : Wired t i) (guarded : Guarded t i)
    (clear : i.flushCommit = false) : recorded t.gl.head (nextException t.gl i) = earliest (kept t i) := by
  cases exe : i.exFromExe.valid with
  | true => exact arbitrated_exe inv untrapped wired guarded clear exe
  | false => exact arbitrated_silent inv untrapped wired clear exe

theorem next_head (clear : i.flushCommit = false) : (next s i).head = shift s.head (readEnable i) := by
  simp only [next,clear,Bool.false_eq_true,if_false]
  split <;> rfl

theorem next_register (clear : i.flushCommit = false) :
    (⟨(next s i).exception,(next s i).exceptionIndex⟩ : Exception × GlIndex) = nextException s i := by
  simp only [next,clear,Bool.false_eq_true,if_false]
  split <;> rfl

theorem cut_length (flush : Option Nat) {one : List β} {two : List γ} (same : one.length = two.length) :
    (cut flush one).length = (cut flush two).length := by
  cases flush with
  | none => exact same
  | some k => simp [cut,same]

theorem next_length (inv : Invariant t) (wired : Wired t i) (guarded : Guarded t i) (clear : i.flushCommit = false) :
    ((kept t i).drop (readEnable i)).length = (next t.gl i).num.val := by
  have refined := (next_refines inv.valid wired.presented guarded.bounded).2
  have push : (pushedReport t i).toList.length = (pushOf (contents t.gl) i).toList.length := by
    rw [pushedReport,pushOf,contents_length,writeEnable]
    split <;> rfl
  have same : (reported t i).length = ((finishedAges t.gl i).foldl (fun l k => l.modify k finish)
      (contents t.gl ++ (pushOf (contents t.gl) i).toList)).length := by
    rw [marked_length,List.length_append,contents_length,← push,← inv.length,← List.length_append,reported]
    split
    · exact List.length_modify ..
    · rfl
  rw [← contents_length,refined,clear,listNext,if_neg (by decide),List.length_drop,List.length_drop,kept,
    cut_length _ same]

theorem recorded_advance {read : Nat} (register : Exception × GlIndex)
    (within : ∀ found ∈ recorded head register, read ≤ found.1) :
    recorded (shift head read) register = (recorded head register).map fun found => ⟨found.1 - read,found.2⟩ := by
  cases valid : register.1.valid with
  | false => simp [recorded,valid]
  | true =>
      have behind : read ≤ age head register.2 := within ⟨age head register.2,register.1⟩ (by simp [recorded,valid])
      simp [recorded,valid,age_advance behind]

theorem step_invariant (inv : Invariant t) (wired : Wired t i) (guarded : Guarded t i) :
    Invariant (watchedNext t i) := by
  have refined := next_refines inv.valid wired.presented guarded.bounded
  cases clear : i.flushCommit with
  | true =>
      refine ⟨refined.1,?_,?_,?_⟩
      · simp [watchedNext,next,clear]
      · intro _
        simp [watchedNext,next,nextException,clear,recorded,Exception.none]
      · simp [watchedNext,clear]
  | false =>
      have untrapped : t.trap = none := by
        rw [← Option.not_isSome_iff_eq_none]
        intro trap
        exact absurd (guarded.followed trap) (by simp [clear])
      have oldest := arbitrated inv untrapped wired guarded clear
      have register := next_register (s := t.gl) clear
      refine ⟨refined.1,?_,?_,?_⟩
      · simpa [watchedNext,clear] using next_length inv wired guarded clear
      · intro quiet
        have within : ∀ found ∈ earliest (kept t i), readEnable i ≤ found.1 := by
          intro found present
          by_contra retired
          have single := guarded.alone found present (by omega)
          have front : earliest (kept t i) = some ⟨0,found.2⟩ := by
            rw [Option.mem_def.mp present]
            have zero : found.1 = 0 := by omega
            rw [← zero]
          have trap := (earliest_zero _ _).mp front
          simp [watchedNext,clear,single,trap] at quiet
        change recorded (next t.gl i).head ⟨(next t.gl i).exception,(next t.gl i).exceptionIndex⟩ =
          earliest (if i.flushCommit then [] else (kept t i).drop (readEnable i))
        rw [register,next_head clear,clear,if_neg (by decide),earliest_drop _ _ within,← oldest]
        exact recorded_advance _ (by rwa [oldest])
      · intro ex taken
        have trap : (kept t i).head?.join = some ex := by
          by_cases single : readEnable i = 1
          · simpa [watchedNext,clear,single] using taken
          · simp [watchedNext,clear,single] at taken
        rw [(earliest_zero _ _).mpr trap,recorded] at oldest
        have same : (nextException t.gl i).1 = ex ∧ (nextException t.gl i).1.valid = true := by
          split at oldest
          · rename_i valid
            simp only [Option.some.injEq,Prod.mk.injEq] at oldest
            exact ⟨oldest.2,valid⟩
          · cases oldest
        rw [← register] at same
        exact ⟨same.1,same.1 ▸ same.2⟩

theorem reached_invariant {zero : Cell α} (reached : Reached (machine zero) t) : Invariant t := by
  refine reached.invariant Invariant ?_ ?_
  · exact ⟨⟨rfl,Nat.zero_le _⟩,rfl,fun _ => rfl,fun _ taken => by cases taken⟩
  · intro t i inv allowed
    exact step_invariant inv allowed.1 allowed.2

-- The register follows the reports about live entries.
structure OldestWins (t : Watched α) : Prop where
  live : t.reports.length = t.gl.num.val
  raised : ∀ k ex, earliest t.reports = some ⟨k,ex⟩ →
    t.gl.exception.valid = true ∧ t.gl.exceptionIndex = shift t.gl.head k ∧ t.gl.exception = ex
  quiet : earliest t.reports = none → t.gl.exception.valid = false

theorem oldest_exception (zero : Cell α) (t : Watched α) (reached : Reached (machine zero) t) :
    (t.trap = none → OldestWins t) ∧ ∀ ex ∈ t.trap, t.gl.exception = ex ∧ ex.valid = true := by
  have inv := reached_invariant reached
  refine ⟨?_,inv.trapped⟩
  intro untrapped
  have oldest := inv.oldest untrapped
  cases valid : t.gl.exception.valid with
  | false =>
      simp only [recorded,valid,Bool.false_eq_true,if_false] at oldest
      exact ⟨inv.length,fun k ex found => by simp [← oldest] at found,fun _ => valid⟩
  | true =>
      simp only [recorded,valid,if_true] at oldest
      refine ⟨inv.length,?_,fun none => by simp [← oldest] at none⟩
      intro k ex found
      rw [← oldest,Option.some.injEq,Prod.mk.injEq] at found
      exact ⟨valid,by rw [← found.1,shift_age],found.2⟩

-- A page fault reported about an entry.
def faulting (index : GlIndex) (i : GraduationList.Input Unit) : GraduationList.Input Unit :=
  {i with exFromExe := ⟨true,13,4096⟩, exFromExeIndex := index}

def run (inputs : List (GraduationList.Input Unit)) : Watched Unit :=
  inputs.foldl watchedNext ⟨reset blank,[],none⟩

-- A fault of the older of two entries is reported after that of the younger.
def twoFaults : List (GraduationList.Input Unit) :=
  [cycle true [] 0 none,cycle true [] 0 none,faulting 1 (cycle true [] 0 none),faulting 0 (cycle false [] 0 none)]

theorem oldest_exception_faults :
    ((run twoFaults).trap = none → OldestWins (run twoFaults)) ∧ (run twoFaults).trap = none ∧
      (run twoFaults).gl.exceptionIndex = 0 := by
  have path : legal (machine blank) ⟨reset blank,[],none⟩ twoFaults = true := by decide
  exact ⟨(oldest_exception blank (run twoFaults) ⟨_,Runs.of_legal path⟩).1,by decide,by decide⟩

-- A fault is reported in the cycle of the flush that removes its entry.
def flushedFault : List (GraduationList.Input Unit) :=
  [cycle true [] 0 none,cycle true [] 0 none,faulting 1 (cycle false [] 0 (some 0))]

-- so does the fault of an instruction that has just retired,
def retiredFault : List (GraduationList.Input Unit) :=
  [cycle true [] 0 none,faulting 0 (cycle false [] 0 none),cycle false [written 0] 0 none,cycle false [] 1 none]

-- and after a flush that was overtaken the list takes reports about dead entries.
def deadFault : List (GraduationList.Input Unit) :=
  addThree ++ [cycle false [] 2 (some 0),faulting 2 (cycle false [] 0 none)]

theorem unguarded_exception_stays :
    (Reached (free blank) (run flushedFault) ∧ ¬ OldestWins (run flushedFault)) ∧
      (Reached (free blank) (run retiredFault) ∧ ¬ OldestWins (run retiredFault)) ∧
      (Reached (free blank) (run deadFault) ∧ ¬ OldestWins (run deadFault)) := by
  refine ⟨⟨?_,?_⟩,⟨?_,?_⟩,⟨?_,?_⟩⟩
  · exact ⟨flushedFault,Runs.of_legal (by decide)⟩
  · exact fun wins => absurd (wins.quiet (by decide)) (by decide)
  · exact ⟨retiredFault,Runs.of_legal (by decide)⟩
  · exact fun wins => absurd (wins.quiet (by decide)) (by decide)
  · exact ⟨deadFault,Runs.of_legal (by decide)⟩
  · exact fun wins => absurd (wins.quiet (by decide)) (by decide)

end Sargantana.GraduationException
