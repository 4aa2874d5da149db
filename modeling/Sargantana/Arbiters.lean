import Sargantana.DracPkg
import Sargantana.Lib.StateMachine
import Sargantana.Lib.Window
import Mathlib.Order.Fin.Basic
import Mathlib.Algebra.Group.Fin.Basic
import Mathlib.Data.Fintype.Basic
import Mathlib.Order.WellFounded
import Mathlib.Data.Finset.Card
import Mathlib.Order.Interval.Finset.Nat

-- The arbiters of the data cache. A grant that is not taken is held until it is.
namespace Sargantana.Arbiters

open Window StateMachine

variable {n : Nat}

def any (v : Fin n → Bool) : Bool := decide (∃ i, v i = true)

def oneHot (i : Fin n) : Fin n → Bool := fun j => decide (j = i)

-- hpdcache_prio_1hot_encoder_sarg
def prio (val : Fin n → Bool) : Fin n → Bool := fun i => val i && decide (∀ j, j < i → val j = false)

-- hpdcache_1hot_to_binary_sarg: the last line that is set counts.
def oneHotToBinary (val : Fin n → Bool) : Nat := (((List.finRange n).reverse.find? val).map Fin.val).getD 0

@[simp] theorem any_true {v : Fin n → Bool} : any v = true ↔ ∃ i, v i = true := by simp [any]

theorem any_false {v : Fin n → Bool} : any v = false ↔ ∀ i, v i = false := by simp [any]

@[simp] theorem oneHot_true {i j : Fin n} : oneHot i j = true ↔ j = i := by simp [oneHot]

@[simp] theorem oneHot_false {i j : Fin n} : oneHot i j = false ↔ j ≠ i := by simp [oneHot]

theorem oneHot_inj {i j : Fin n} (same : oneHot i = oneHot j) : i = j := by
  have here : oneHot i i = true := by simp
  rw [same] at here
  exact oneHot_true.mp here

theorem find_oneHot (i : Fin n) : (List.finRange n).find? (oneHot i) = some i := by
  cases search : (List.finRange n).find? (oneHot i) with
  | none =>
    rw [List.find?_eq_none] at search
    exact absurd (oneHot_true.mpr rfl) (search i (List.mem_finRange i))
  | some j => rw [oneHot_true.mp (List.find?_some search)]

theorem oneHotToBinary_oneHot (i : Fin n) : oneHotToBinary (oneHot i) = i.val := by
  have found : (List.finRange n).reverse.find? (oneHot i) = some i := by
    cases search : (List.finRange n).reverse.find? (oneHot i) with
    | none =>
      rw [List.find?_eq_none] at search
      exact absurd (oneHot_true.mpr rfl) (search i (by simp))
    | some j => rw [oneHot_true.mp (List.find?_some search)]
  rw [oneHotToBinary,found]
  rfl

theorem prio_first {val : Fin n → Bool} (set : any val = true) :
    ∃ i, val i = true ∧ (∀ j, val j = true → i ≤ j) ∧ prio val = oneHot i := by
  obtain ⟨i,member,least⟩ := wellFounded_lt.has_min {i | val i = true} (any_true.mp set)
  have here : val i = true := member
  have lowest : ∀ j, val j = true → i ≤ j := fun j other => not_lt.mp (least j other)
  refine ⟨i,here,lowest,?_⟩
  funext j
  rw [Bool.eq_iff_iff,oneHot_true]
  constructor
  · intro chosen
    simp only [prio,Bool.and_eq_true,decide_eq_true_eq] at chosen
    obtain ⟨other,alone⟩ := chosen
    rcases lt_or_eq_of_le (lowest j other) with before | same
    · rw [alone i before] at here
      cases here
    · exact same.symm
  · rintro rfl
    have alone : ∀ k, k < j → val k = false := fun k before =>
      Bool.eq_false_iff.mpr fun other => absurd (lowest k other) (not_le.mpr before)
    simpa [prio,here] using alone

theorem prio_none {val : Fin n → Bool} (clear : any val = false) : prio val = fun _ => false := by
  funext i
  simp [prio,any_false.mp clear i]

structure Arbiter (n : Nat) where
  wait : Bool
  gnt : Fin n → Bool

namespace Arbiter

def held (s : Arbiter n) (gnt : Fin n → Bool) : Fin n → Bool := if s.wait then s.gnt else gnt

def waits (s : Arbiter n) (req : Fin n → Bool) (ready : Bool) : Bool := !ready && (s.wait || any req)

-- hpdcache_fxarb_sarg
def fxReset : Arbiter n := ⟨false,fun _ => false⟩

def fxGrant (s : Arbiter n) (req : Fin n → Bool) : Fin n → Bool := s.held (prio req)

def fxNext (s : Arbiter n) (req : Fin n → Bool) (ready : Bool) : Arbiter n where
  wait := s.waits req ready
  gnt := if !ready && !s.wait && any req then prio req else s.gnt

-- hpdcache_rrarb_sarg
variable [NeZero n]

-- The grant before the first one is that of the last line.
def rrReset : Arbiter n := ⟨false,oneHot (-1)⟩

-- The lines behind the last grant
def mask (s : Arbiter n) : Fin n → Bool := fun i => decide (∃ j, j ≤ i ∧ s.gnt (j - 1) = true)

def rrChoice (s : Arbiter n) (req : Fin n → Bool) : Fin n → Bool :=
  let masked := prio fun i => req i && s.mask i
  if any masked then masked else prio req

def rrGrant (s : Arbiter n) (req : Fin n → Bool) : Fin n → Bool := s.held (s.rrChoice req)

def rrNext (s : Arbiter n) (req : Fin n → Bool) (ready : Bool) : Arbiter n where
  wait := s.waits req ready
  gnt := if !s.wait && any req then s.rrChoice req else s.gnt

end Arbiter

open Arbiter

structure Steady (s : Arbiter n) (req : Fin n → Bool) : Prop where
  waiting : s.wait = true → ∃ i, s.gnt = oneHot i ∧ req i = true

theorem steady_reset (req : Fin n → Bool) : Steady Arbiter.fxReset req := ⟨by intro waits; cases waits⟩

theorem fxGrant_some {s : Arbiter n} {req : Fin n → Bool} (steady : Steady s req) (asked : any req = true) :
    ∃ i, req i = true ∧ s.fxGrant req = oneHot i := by
  cases waits : s.wait with
  | true =>
    obtain ⟨i,held,asks⟩ := steady.waiting waits
    exact ⟨i,asks,by simp [Arbiter.fxGrant,Arbiter.held,waits,held]⟩
  | false =>
    obtain ⟨i,asks,_,chosen⟩ := prio_first asked
    exact ⟨i,asks,by simp [Arbiter.fxGrant,Arbiter.held,waits,chosen]⟩

theorem fxNext_steady {s : Arbiter n} {req after : Fin n → Bool} {ready : Bool} (steady : Steady s req)
    (keeps : ready = false → ∀ i, req i = true → s.fxGrant req i = true → after i = true) : Steady (s.fxNext req ready) after := by
  constructor
  intro waits
  simp only [Arbiter.fxNext,Arbiter.waits,Bool.and_eq_true,Bool.not_eq_true',Bool.or_eq_true] at waits
  obtain ⟨stalled,_⟩ := waits
  cases held : s.wait with
  | true =>
    obtain ⟨i,grant,asks⟩ := steady.waiting held
    refine ⟨i,by simp [Arbiter.fxNext,held,grant],keeps stalled i asks ?_⟩
    simp [Arbiter.fxGrant,Arbiter.held,held,grant]
  | false =>
    have asked : any req = true := by simp_all
    obtain ⟨i,asks,_,chosen⟩ := prio_first asked
    refine ⟨i,by simp [Arbiter.fxNext,held,stalled,asked,chosen],keeps stalled i asks ?_⟩
    simp [Arbiter.fxGrant,Arbiter.held,held,chosen]

section RoundRobin

variable [NeZero n]

omit [NeZero n] in
theorem age_le {start i : Fin n} (behind : start ≤ i) : age start i = i.val - start.val := by
  have low : start.val ≤ i.val := behind
  have bound := i.isLt
  have size := start.isLt
  rw [age,Fin.val_sub]
  have split : n - start.val + i.val = i.val - start.val + n := by omega
  rw [split,Nat.add_mod_right,Nat.mod_eq_of_lt (by omega)]

omit [NeZero n] in
theorem age_gt {start i : Fin n} (before : i < start) : age start i = n - start.val + i.val := by
  have low : i.val < start.val := before
  have size := start.isLt
  rw [age,Fin.val_sub,Nat.mod_eq_of_lt (by omega)]

theorem mask_true {s : Arbiter n} {p i : Fin n} (last : s.gnt = oneHot p) : s.mask i = true ↔ p + 1 ≤ i := by
  simp only [mask,last,oneHot_true,decide_eq_true_eq,sub_eq_iff_eq_add]
  constructor
  · rintro ⟨j,below,rfl⟩
    exact below
  · intro below
    exact ⟨p + 1,below,rfl⟩

theorem rrChoice_next {s : Arbiter n} {req : Fin n → Bool} {p : Fin n} (last : s.gnt = oneHot p) (asked : any req = true) :
    ∃ j, req j = true ∧ s.rrChoice req = oneHot j ∧ ∀ i, req i = true → age (p + 1) j ≤ age (p + 1) i := by
  cases behind : any fun i => req i && s.mask i with
  | true =>
    obtain ⟨j,chosen,least,first⟩ := prio_first behind
    simp only [Bool.and_eq_true,mask_true last] at chosen least
    refine ⟨j,chosen.1,by simp [rrChoice,first],?_⟩
    intro i asks
    rw [age_le chosen.2]
    have inside := j.isLt
    by_cases later : p + 1 ≤ i
    · have order : j.val ≤ i.val := least i ⟨asks,later⟩
      rw [age_le later]
      omega
    · rw [age_gt (not_le.mp later)]
      omega
  | false =>
    obtain ⟨j,asks,least,first⟩ := prio_first asked
    have nobody : ∀ i, req i = true → i < p + 1 := by
      intro i other
      have clear := any_false.mp behind i
      rw [other,Bool.true_and,← Bool.not_eq_true,mask_true last] at clear
      exact not_le.mp clear
    have masked : any (fun _ : Fin n => false) = false := any_false.mpr fun _ => rfl
    refine ⟨j,asks,by simp [rrChoice,prio_none behind,masked,first],?_⟩
    intro i other
    have order : j.val ≤ i.val := least i other
    rw [age_gt (nobody j asks),age_gt (nobody i other)]
    omega

-- The last grant is always one line.
def Granted (s : Arbiter n) : Prop := ∃ p, s.gnt = oneHot p

theorem granted_reset : Granted (rrReset : Arbiter n) := ⟨-1,rfl⟩

theorem rrNext_granted {s : Arbiter n} (granted : Granted s) (req : Fin n → Bool) (ready : Bool) : Granted (s.rrNext req ready) := by
  obtain ⟨p,last⟩ := granted
  cases fresh : !s.wait && any req with
  | false => exact ⟨p,by simp [rrNext,fresh,last]⟩
  | true =>
    have asked : any req = true := by simp_all
    obtain ⟨j,_,chosen,_⟩ := rrChoice_next last asked
    exact ⟨j,by simp [rrNext,fresh,chosen]⟩

theorem rrGrant_some {s : Arbiter n} {req : Fin n → Bool} (granted : Granted s) (steady : Steady s req) (asked : any req = true) :
    ∃ i, req i = true ∧ s.rrGrant req = oneHot i := by
  cases waits : s.wait with
  | true =>
    obtain ⟨i,grant,asks⟩ := steady.waiting waits
    exact ⟨i,asks,by simp [rrGrant,held,waits,grant]⟩
  | false =>
    obtain ⟨p,last⟩ := granted
    obtain ⟨i,asks,chosen,_⟩ := rrChoice_next last asked
    exact ⟨i,asks,by simp [rrGrant,held,waits,chosen]⟩

theorem rrNext_steady {s : Arbiter n} {req after : Fin n → Bool} {ready : Bool} (granted : Granted s) (steady : Steady s req)
    (keeps : ready = false → ∀ i, req i = true → s.rrGrant req i = true → after i = true) : Steady (s.rrNext req ready) after := by
  constructor
  intro waits
  simp only [rrNext,Arbiter.waits,Bool.and_eq_true,Bool.not_eq_true',Bool.or_eq_true] at waits
  obtain ⟨stalled,_⟩ := waits
  cases was : s.wait with
  | true =>
    obtain ⟨i,grant,asks⟩ := steady.waiting was
    refine ⟨i,by simp [rrNext,was,grant],keeps stalled i asks ?_⟩
    simp [rrGrant,held,was,grant]
  | false =>
    have asked : any req = true := by simp_all
    obtain ⟨p,last⟩ := granted
    obtain ⟨i,asks,chosen,_⟩ := rrChoice_next last asked
    refine ⟨i,by simp [rrNext,was,asked,chosen],keeps stalled i asks ?_⟩
    simp [rrGrant,held,was,chosen]

def robin : Machine (Arbiter n) ((Fin n → Bool) × Bool) where
  initial := rrReset
  allowed _ _ := True
  step s i := s.rrNext i.1 i.2

variable {rounds : Nat → (Fin n → Bool) × Bool}

def grantAt (rounds : Nat → (Fin n → Bool) × Bool) (t : Nat) : Fin n → Bool := (trace robin rounds t).rrGrant (rounds t).1

def Serves (rounds : Nat → (Fin n → Bool) × Bool) (i : Fin n) (t : Nat) : Prop := grantAt rounds t i = true ∧ (rounds t).2 = true

instance (i : Fin n) (t : Nat) : Decidable (Serves rounds i t) := inferInstanceAs (Decidable (_ ∧ _))

theorem granted_at (t : Nat) : Granted (trace robin rounds t) := by
  induction t with
  | zero => exact granted_reset
  | succ t ih => exact rrNext_granted ih _ _

-- How many others can still be served before line i
def ahead (s : Arbiter n) (p i : Fin n) : Nat :=
  if s.wait = true ∧ p = i then 0 else age (p + 1) i + if s.wait then 1 else 0

theorem age_back (p i : Fin n) (other : p ≠ i) : age (p + 1) i + 1 < n + 1 ∧ age (p + 1) i + 1 = age p i := by
  have apart : age p i ≠ 0 := by
    intro near
    have place := shift_age p i
    rw [near,shift_zero] at place
    exact other place
  have next : age (shift p 1) i = age p i - 1 := age_advance (by omega)
  have step : shift p 1 = p + 1 := rfl
  rw [step] at next
  have bound := age_lt p i
  omega

theorem ahead_small (s : Arbiter n) (p i : Fin n) : ahead s p i < n := by
  have bound := age_lt (p + 1) i
  have size : 0 < n := Nat.pos_of_neZero n
  unfold ahead
  split
  · exact size
  · rename_i free
    cases waits : s.wait with
    | false => simpa using bound
    | true =>
      have other : p ≠ i := fun same => free ⟨waits,same⟩
      have back := age_back p i other
      have far := age_lt p i
      simp only [↓reduceIte]
      omega

-- One round brings line i nearer by what it serves, unless it serves line i.
theorem ahead_step {s : Arbiter n} {req : Fin n → Bool} (ready : Bool) {p i : Fin n} (last : s.gnt = oneHot p) (asks : req i = true)
    (unserved : ¬ (s.rrGrant req i = true ∧ ready = true)) :
    ∃ q, (s.rrNext req ready).gnt = oneHot q ∧ ahead (s.rrNext req ready) q i + (if ready then 1 else 0) ≤ ahead s p i := by
  have asked : any req = true := any_true.mpr ⟨i,asks⟩
  cases waits : s.wait with
  | true =>
    refine ⟨p,by simp [rrNext,waits,last],?_⟩
    have grant : s.rrGrant req = oneHot p := by simp [rrGrant,held,waits,last]
    rw [grant,oneHot_true] at unserved
    have next : (s.rrNext req ready).wait = !ready := by simp [rrNext,Arbiter.waits,waits]
    cases ready with
    | false => simp [ahead,next,waits]
    | true =>
      have other : p ≠ i := fun same => unserved ⟨same.symm,rfl⟩
      simp [ahead,next,waits,other]
  | false =>
    obtain ⟨j,_,chosen,least⟩ := rrChoice_next last asked
    have near := least i asks
    refine ⟨j,by simp [rrNext,waits,asked,chosen],?_⟩
    have grant : s.rrGrant req = oneHot j := by simp [rrGrant,held,waits,chosen]
    rw [grant,oneHot_true] at unserved
    have next : (s.rrNext req ready).wait = !ready := by simp [rrNext,Arbiter.waits,waits,asked]
    by_cases same : j = i
    · subst same
      have stalled : ready = false := by simpa using unserved
      rw [stalled] at next ⊢
      simp [ahead,next]
    · have place : age (j + 1) i + (age (p + 1) j + 1) = age (p + 1) i := by
        have apart : age (p + 1) j ≠ age (p + 1) i := by
          intro equal
          exact same (by rw [← shift_age (p + 1) j,equal,shift_age])
        have next : age (shift (p + 1) (age (p + 1) j + 1)) i = age (p + 1) i - (age (p + 1) j + 1) := age_advance (by omega)
        have step : shift (p + 1) (age (p + 1) j + 1) = j + 1 := by
          rw [shift_add,shift_age]
          rfl
        rw [step] at next
        omega
      cases ready <;> simp [ahead,next,waits,same] <;> omega

-- A line that keeps asking is served before n others are.
theorem round_robin_fair (i : Fin n) (t u : Nat) (asks : ∀ v, t ≤ v → v < u → (rounds v).1 i = true)
    (unserved : ∀ v, t ≤ v → v < u → ¬ Serves rounds i v) :
    ((Finset.Ico t u).filter fun v => (rounds v).2 = true).card < n := by
  suffices bound : ∀ d, t + d ≤ u → ∃ q, (trace robin rounds (t + d)).gnt = oneHot q ∧
      ahead (trace robin rounds (t + d)) q i + ((Finset.Ico t (t + d)).filter fun v => (rounds v).2 = true).card < n by
    by_cases order : t ≤ u
    · obtain ⟨q,_,small⟩ := bound (u - t) (by omega)
      rw [Nat.add_sub_cancel' order] at small
      omega
    · rw [Finset.Ico_eq_empty (by omega)]
      exact Nat.pos_of_neZero n
  intro d within
  induction d with
  | zero =>
    obtain ⟨p,last⟩ : Granted (trace robin rounds t) := granted_at t
    exact ⟨p,last,by simpa using ahead_small _ p i⟩
  | succ d ih =>
    obtain ⟨p,last,small⟩ := ih (by omega)
    have not' : ¬ Serves rounds i (t + d) := unserved (t + d) (by omega) (by omega)
    obtain ⟨q,next,nearer⟩ := ahead_step (rounds (t + d)).2 last (asks (t + d) (by omega) (by omega)) not'
    refine ⟨q,next,?_⟩
    have step : trace robin rounds (t + (d + 1)) = (trace robin rounds (t + d)).rrNext (rounds (t + d)).1 (rounds (t + d)).2 := rfl
    rw [step,← Nat.add_assoc,Nat.Ico_succ_right_eq_insert_Ico (by omega),Finset.filter_insert]
    cases served : (rounds (t + d)).2 with
    | false =>
      rw [served] at nearer
      simpa [served] using lt_of_le_of_lt (Nat.add_le_add_right nearer _) small
    | true =>
      rw [served] at nearer
      rw [if_pos rfl,Finset.card_insert_of_notMem (by simp)]
      simp only [↓reduceIte] at nearer
      omega

def everyone : Nat → (Fin 3 → Bool) × Bool := fun _ => (fun _ => true,true)

theorem round_robin_fair_last : Serves everyone 2 2 ∧ ((Finset.Ico 0 2).filter fun v => (everyone v).2 = true).card < 3 := by
  refine ⟨by decide,round_robin_fair 2 0 2 (fun _ _ _ => rfl) fun v _ before => ?_⟩
  match v, before with
  | 0, _ => decide
  | 1, _ => decide

end RoundRobin

end Sargantana.Arbiters
