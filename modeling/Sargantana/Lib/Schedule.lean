import Mathlib.Data.List.Basic
import Mathlib.Data.List.Perm.Subperm

-- Units of fixed latencies that share one result port: what is in flight, how many
-- cycles each has left, and which operation is due in which cycle.
namespace Sargantana.Schedule

variable {Op : Type}

structure Flight (Op : Type) where
  op : Op
  left : Nat

-- One clock cycle: the operation issued in it with its latency, and whether all that
-- is in flight is dropped at its end. A latency of zero is an operation due at once.
structure Beat (Op : Type) where
  issue : Option (Flight Op)
  flush : Bool

def Flight.tick (flight : Flight Op) : Option (Flight Op) :=
  match flight.left with
  | 0 => none
  | left + 1 => some ⟨flight.op,left⟩

def Beat.live (cycle : Beat Op) (flights : List (Flight Op)) : List (Flight Op) :=
  flights ++ cycle.issue.toList

def Beat.next (cycle : Beat Op) (flights : List (Flight Op)) : List (Flight Op) :=
  if cycle.flush then [] else (cycle.live flights).filterMap Flight.tick

def Flight.landed (flight : Flight Op) : Option Op :=
  match flight.left with
  | 0 => some flight.op
  | _ + 1 => none

def landed (flights : List (Flight Op)) : List Op := flights.filterMap Flight.landed

def flights (cycles : Nat → Beat Op) : Nat → List (Flight Op)
  | 0 => []
  | t + 1 => (cycles t).next (flights cycles t)

-- The schedule said without a state: nothing was dropped from cycle t up to cycle u,
-- and the operation of cycle t is due in cycle u.
def Quiet (cycles : Nat → Beat Op) (t u : Nat) : Prop := ∀ v < u, t ≤ v → (cycles v).flush = false

instance (cycles : Nat → Beat Op) (t u : Nat) : Decidable (Quiet cycles t u) :=
  inferInstanceAs (Decidable (∀ v < u, t ≤ v → (cycles v).flush = false))

def remaining (cycles : Nat → Beat Op) (u t : Nat) : Option (Flight Op) :=
  match (cycles t).issue with
  | none => none
  | some flight => if Quiet cycles t u ∧ u ≤ t + flight.left then some ⟨flight.op,t + flight.left - u⟩ else none

def dueAt (cycles : Nat → Beat Op) (u t : Nat) : Option Op :=
  match (cycles t).issue with
  | none => none
  | some flight => if Quiet cycles t u ∧ t + flight.left = u then some flight.op else none

def due (cycles : Nat → Beat Op) (u : Nat) : List Op := (List.range (u + 1)).filterMap (dueAt cycles u)

theorem remaining_now (cycles : Nat → Beat Op) (u : Nat) : remaining cycles u u = (cycles u).issue := by
  have quiet : Quiet cycles u u := fun v below above => absurd above (by omega)
  unfold remaining
  split
  · rename_i none
    exact none.symm
  · rename_i flight issued
    rw [if_pos ⟨quiet,by omega⟩,issued]
    simp

theorem quiet_succ {cycles : Nat → Beat Op} {t u : Nat} (before : t ≤ u) :
    Quiet cycles t (u + 1) ↔ (cycles u).flush = false ∧ Quiet cycles t u := by
  constructor
  · intro quiet
    exact ⟨quiet u (by omega) before,fun v below => quiet v (by omega)⟩
  · rintro ⟨last,quiet⟩ v below above
    by_cases same : v = u
    · rw [same]; exact last
    · exact quiet v (by omega) above

theorem remaining_succ {cycles : Nat → Beat Op} {t u : Nat} (before : t ≤ u) :
    remaining cycles (u + 1) t =
      if (cycles u).flush then none else (remaining cycles u t).bind Flight.tick := by
  unfold remaining
  cases issued : (cycles t).issue with
  | none => simp
  | some flight =>
    simp only [quiet_succ before]
    cases flushed : (cycles u).flush with
    | true => simp
    | false =>
      by_cases quiet : Quiet cycles t u
      · rcases Nat.lt_trichotomy u (t + flight.left) with early | now | late
        · have shift : t + flight.left - u = t + flight.left - (u + 1) + 1 := by omega
          have there : u ≤ t + flight.left := by omega
          have still : u + 1 ≤ t + flight.left := by omega
          simp [quiet,there,still,Flight.tick,shift]
        · simp [quiet,Flight.tick,← now]
        · have gone : ¬ u ≤ t + flight.left := by omega
          have past : ¬ u + 1 ≤ t + flight.left := by omega
          simp [gone,past]
      · simp [quiet]

theorem remaining_landed (cycles : Nat → Beat Op) (u t : Nat) :
    (remaining cycles u t).bind Flight.landed = dueAt cycles u t := by
  unfold remaining dueAt
  cases issued : (cycles t).issue with
  | none => rfl
  | some flight =>
    by_cases quiet : Quiet cycles t u
    · rcases Nat.lt_trichotomy u (t + flight.left) with early | now | late
      · have shift : t + flight.left - u = t + flight.left - (u + 1) + 1 := by omega
        have there : u ≤ t + flight.left := by omega
        have other : ¬ t + flight.left = u := by omega
        simp [quiet,there,other,Flight.landed,shift]
      · simp [quiet,Flight.landed,← now]
      · have gone : ¬ u ≤ t + flight.left := by omega
        have other : ¬ t + flight.left = u := by omega
        simp [gone,other]
    · simp [quiet]

theorem live_of_flights {cycles : Nat → Beat Op} {u : Nat}
    (known : flights cycles u = (List.range u).filterMap (remaining cycles u)) :
    (cycles u).live (flights cycles u) = (List.range (u + 1)).filterMap (remaining cycles u) := by
  rw [Beat.live,known,List.range_succ,List.filterMap_append]
  congr 1
  rw [List.filterMap_cons,List.filterMap_nil,remaining_now]
  cases (cycles u).issue <;> rfl

-- The state of the schedule is what its history says.
theorem flights_eq (cycles : Nat → Beat Op) (u : Nat) :
    flights cycles u = (List.range u).filterMap (remaining cycles u) := by
  induction u with
  | zero => rfl
  | succ u ih =>
    have moved : ∀ t ∈ List.range (u + 1), remaining cycles (u + 1) t =
        if (cycles u).flush then none else (remaining cycles u t).bind Flight.tick :=
      fun t inside => remaining_succ (Nat.le_of_lt_succ (List.mem_range.mp inside))
    rw [flights,Beat.next,live_of_flights ih,List.filterMap_congr moved]
    cases (cycles u).flush with
    | true => simp
    | false => simp [List.filterMap_filterMap]

theorem landed_live (cycles : Nat → Beat Op) (u : Nat) :
    landed ((cycles u).live (flights cycles u)) = due cycles u := by
  rw [live_of_flights (flights_eq cycles u),landed,List.filterMap_filterMap,due]
  exact List.filterMap_congr fun t _ => remaining_landed cycles u t

-- No two operations in flight are due in one cycle.
def Distinct (flights : List (Flight Op)) : Prop := flights.Pairwise fun a b => a.left ≠ b.left

theorem Distinct.perm {a b : List (Flight Op)} (same : a.Perm b) : Distinct a ↔ Distinct b :=
  same.pairwise_iff fun differ => differ.symm

theorem tick_left {flight next : Flight Op} (ticked : flight.tick = some next) : flight.left = next.left + 1 := by
  unfold Flight.tick at ticked
  split at ticked
  · cases ticked
  · rename_i left held
    cases ticked
    exact held

theorem tick_booked {flights : List (Flight Op)} {k : Nat} :
    (∃ flight ∈ flights.filterMap Flight.tick, flight.left = k) ↔ ∃ flight ∈ flights, flight.left = k + 1 := by
  constructor
  · rintro ⟨after,member,rfl⟩
    obtain ⟨flight,inside,ticked⟩ := List.mem_filterMap.mp member
    exact ⟨flight,inside,tick_left ticked⟩
  · rintro ⟨⟨op,left⟩,inside,rfl⟩
    exact ⟨⟨op,k⟩,List.mem_filterMap.mpr ⟨_,inside,rfl⟩,rfl⟩

theorem Distinct.append_single {flights : List (Flight Op)} {flight : Flight Op} (distinct : Distinct flights)
    (free : ¬ ∃ other ∈ flights, other.left = flight.left) : Distinct (flights ++ [flight]) := by
  refine List.pairwise_append.mpr ⟨distinct,List.pairwise_singleton _ _,?_⟩
  intro other inside last member same
  rw [List.mem_singleton.mp member] at same
  exact free ⟨other,inside,same⟩

theorem Distinct.tick {flights : List (Flight Op)} (distinct : Distinct flights) :
    Distinct (flights.filterMap Flight.tick) := by
  refine List.Pairwise.filterMap Flight.tick ?_ distinct
  intro a b differ x fromA y fromB same
  exact differ (by rw [tick_left fromA,tick_left fromB,same])

theorem landed_left {flight : Flight Op} {op : Op} (landed : flight.landed = some op) : flight.left = 0 := by
  unfold Flight.landed at landed
  split at landed
  · assumption
  · cases landed

theorem Distinct.one_landed {flights : List (Flight Op)} (distinct : Distinct flights) :
    (landed flights).length ≤ 1 := by
  induction flights with
  | nil => simp [landed]
  | cons flight rest ih =>
    obtain ⟨apart,distinct⟩ := List.pairwise_cons.mp distinct
    rw [landed,List.filterMap_cons]
    cases first : flight.landed with
    | none => exact ih distinct
    | some op =>
      have none : rest.filterMap Flight.landed = [] := by
        refine List.filterMap_eq_nil_iff.mpr fun other inside => ?_
        cases second : other.landed with
        | none => rfl
        | some _ => exact absurd ((landed_left first).trans (landed_left second).symm) (apart other inside)
      simp [none]

theorem two_found {β γ : Type} {f : β → Option γ} {l : List β} {a b : β} (inA : a ∈ l) (inB : b ∈ l)
    (differ : a ≠ b) (foundA : f a ≠ none) (foundB : f b ≠ none) : 2 ≤ (l.filterMap f).length := by
  have pair : [a,b].Subperm l := by
    refine List.subperm_of_subset (by simp [differ]) ?_
    intro x member
    rcases List.mem_cons.mp member with rfl | member
    · exact inA
    · rwa [List.mem_singleton.mp member]
  obtain ⟨part,same,within⟩ := pair
  have both : ([a,b].filterMap f).length = 2 := by
    obtain ⟨x,foundX⟩ := Option.ne_none_iff_exists'.mp foundA
    obtain ⟨y,foundY⟩ := Option.ne_none_iff_exists'.mp foundB
    simp [foundX,foundY]
  calc 2 = ([a,b].filterMap f).length := both.symm
    _ = (part.filterMap f).length := (same.filterMap f).length_eq.symm
    _ ≤ (l.filterMap f).length := (within.filterMap f).length_le

theorem due_mem {cycles : Nat → Beat Op} {u : Nat} {op : Op} :
    op ∈ due cycles u ↔ ∃ t flight, (cycles t).issue = some flight ∧ flight.op = op ∧ Quiet cycles t u ∧ t + flight.left = u := by
  rw [due,List.mem_filterMap]
  constructor
  · rintro ⟨t,_,found⟩
    unfold dueAt at found
    split at found
    · cases found
    · rename_i flight issued
      split at found
      · rename_i holds
        exact ⟨t,flight,issued,Option.some.inj found,holds⟩
      · cases found
  · rintro ⟨t,flight,issued,same,holds⟩
    refine ⟨t,List.mem_range.mpr (by omega),?_⟩
    simp only [dueAt,issued,if_pos holds,same]

theorem due_unique {cycles : Nat → Beat Op} {u s t : Nat} {a b : Flight Op} (one : (due cycles u).length ≤ 1)
    (issuedA : (cycles s).issue = some a) (quietA : Quiet cycles s u) (endsA : s + a.left = u)
    (issuedB : (cycles t).issue = some b) (quietB : Quiet cycles t u) (endsB : t + b.left = u) : s = t := by
  apply Classical.byContradiction
  intro differ
  have foundA : dueAt cycles u s ≠ none := by simp [dueAt,issuedA,quietA,endsA]
  have foundB : dueAt cycles u t ≠ none := by simp [dueAt,issuedB,quietB,endsB]
  have two := two_found (f := dueAt cycles u)
    (List.mem_range.mpr (show s < u + 1 by omega)) (List.mem_range.mpr (show t < u + 1 by omega)) differ foundA foundB
  rw [due] at one
  omega

theorem Beat.next_perm {cycle : Beat Op} {a b : List (Flight Op)} (same : a.Perm b) :
    (cycle.next a).Perm (cycle.next b) := by
  unfold Beat.next
  split
  · exact List.Perm.refl _
  · exact (same.append_right _).filterMap _

theorem landed_perm {a b : List (Flight Op)} (same : a.Perm b) : (landed a).Perm (landed b) :=
  same.filterMap _

theorem single_perm {a b : List Op} (one : b.length ≤ 1) (same : a.Perm b) : a = b := by
  cases b with
  | nil => exact same.eq_nil
  | cons op rest =>
    cases rest with
    | nil => exact List.perm_singleton.mp same
    | cons => simp at one

theorem single_mem {b : List Op} {op : Op} (one : b.length ≤ 1) (member : op ∈ b) : b = [op] := by
  cases b with
  | nil => cases member
  | cons first rest =>
    cases rest with
    | nil => rw [List.mem_singleton.mp member]
    | cons => simp at one

-- A line of n cells that an operation passes one a cycle, the last one n - 1 cycles after
-- it entered the first.
def line (n : Nat) (cells : Nat → Option Op) : List (Flight Op) :=
  (List.range n).filterMap fun cell => (cells cell).map fun op => ⟨op,n - 1 - cell⟩

theorem line_mem {n : Nat} {cells : Nat → Option Op} {flight : Flight Op} :
    flight ∈ line n cells ↔ ∃ cell < n, cells cell = some flight.op ∧ flight.left = n - 1 - cell := by
  simp only [line,List.mem_filterMap,List.mem_range,Option.map_eq_some_iff]
  constructor
  · rintro ⟨cell,inside,op,found,rfl⟩
    exact ⟨cell,inside,found,rfl⟩
  · rintro ⟨cell,inside,found,left⟩
    exact ⟨cell,inside,flight.op,found,by rw [← left]⟩

theorem line_shift {n : Nat} {cells after : Nat → Option Op} (moved : ∀ cell < n, after (cell + 1) = cells cell) :
    line (n + 1) after =
      ((after 0).map fun op => ⟨op,n⟩).toList ++ (line (n + 1) cells).filterMap Flight.tick := by
  have kept : (line (n + 1) cells).filterMap Flight.tick =
      (List.range n).filterMap fun cell => (cells cell).map fun op => ⟨op,n - (cell + 1)⟩ := by
    rw [line,List.range_succ,List.filterMap_append,List.filterMap_append]
    have last : ([n].filterMap fun cell => (cells cell).map fun op => (⟨op,n + 1 - 1 - cell⟩ : Flight Op)).filterMap
        Flight.tick = [] := by
      cases found : cells n <;> simp [found,Flight.tick]
    rw [last,List.append_nil,List.filterMap_filterMap]
    refine List.filterMap_congr fun cell inside => ?_
    have before : cell < n := List.mem_range.mp inside
    obtain ⟨left,same⟩ : ∃ left, n - cell = left + 1 := ⟨n - cell - 1,by omega⟩
    have less : n - (cell + 1) = left := by omega
    cases cells cell with
    | none => rfl
    | some op => simp [Flight.tick,same,less]
  rw [kept,line,List.range_succ_eq_map,List.filterMap_cons,List.filterMap_map]
  have rest : (List.range n).filterMap ((fun cell => (after cell).map fun op => (⟨op,n + 1 - 1 - cell⟩ : Flight Op)) ∘ Nat.succ) =
      (List.range n).filterMap fun cell => (cells cell).map fun op => ⟨op,n - (cell + 1)⟩ := by
    refine List.filterMap_congr fun cell inside => ?_
    simp only [Function.comp,Nat.succ_eq_add_one,moved cell (List.mem_range.mp inside),Nat.add_sub_cancel]
  rw [rest]
  cases after 0 <;> simp

theorem line_landed {n : Nat} {cells : Nat → Option Op} : landed (line (n + 1) cells) = (cells n).toList := by
  rw [landed,line,List.range_succ,List.filterMap_append,List.filterMap_append,List.filterMap_filterMap]
  have waiting : ((List.range n).filterMap fun cell =>
      ((cells cell).map fun op => (⟨op,n + 1 - 1 - cell⟩ : Flight Op)).bind Flight.landed) = [] := by
    refine List.filterMap_eq_nil_iff.mpr fun cell inside => ?_
    have before : cell < n := List.mem_range.mp inside
    obtain ⟨left,same⟩ : ∃ left, n - cell = left + 1 := ⟨n - cell - 1,by omega⟩
    cases cells cell with
    | none => rfl
    | some op => simp [Flight.landed,same]
  rw [waiting]
  cases found : cells n <;> simp [found,Flight.landed]

end Sargantana.Schedule
