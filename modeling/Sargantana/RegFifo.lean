import Sargantana.DracPkg
import Sargantana.Lib.Handshake
import Sargantana.Lib.PointerFifo

-- The FIFO buffer of the data cache (hpdcache_fifo_reg_sarg): no buffer, one entry or a ring, by its depth
namespace Sargantana.RegFifo

open Handshake Window PointerFifo

variable {α : Type}

-- hpdcache_sync_buffer_sarg
structure Buffer (α : Type) where
  valid : Bool
  buf : α

structure Ring (n : Nat) (α : Type) where
  mem : Fin n → α
  rptr : Fin n
  wptr : Fin n
  crossover : Bool

def Cells : Nat → Type → Type
  | 0, _ => Unit
  | 1, α => Buffer α
  | n + 2, α => Ring (n + 2) α

def bypass : Channel (Cells 0 α) α α where
  wok _ r := r
  rok _ w := w
  rdata _ wdata := wdata
  next s _ := s

namespace Buffer

variable (s : Buffer α) (feedthrough : Bool) (b : Beat α)

def we : Bool := b.w && (feedthrough && !(s.valid ^^ b.r) || !feedthrough && !s.valid)

def next : Buffer α where
  valid := s.we feedthrough b || s.valid && !b.r
  buf := if s.we feedthrough b then b.wdata else s.buf

def contents : List α := if s.valid then [s.buf] else []

end Buffer

def buffer (feedthrough : Bool) : Channel (Cells 1 α) α α where
  wok s r := !Buffer.valid s || feedthrough && r
  rok s w := Buffer.valid s || feedthrough && w
  rdata s wdata := if feedthrough && !Buffer.valid s then wdata else Buffer.buf s
  next s b := Buffer.next s feedthrough b

namespace Ring

variable {n : Nat} [NeZero n] (s : Ring n α) (feedthrough : Bool) (b : Beat α)

def matchPtr : Bool := decide (s.wptr = s.rptr)

def empty : Bool := s.matchPtr && !s.crossover

def full : Bool := s.matchPtr && s.crossover

def rexec : Bool := b.r && !s.empty

def wexec : Bool :=
  b.w && (feedthrough && (s.empty && !b.r || s.full && b.r || !s.full && !s.empty) || !feedthrough && !s.full)

-- The last cell is followed by the first one, and the bit tells that the write pointer has passed it.
def next : Ring n α where
  mem := if s.wexec feedthrough b then Function.update s.mem s.wptr b.wdata else s.mem
  rptr := if s.rexec b then s.rptr + 1 else s.rptr
  wptr := if s.wexec feedthrough b then s.wptr + 1 else s.wptr
  crossover :=
    if s.wexec feedthrough b && decide (s.wptr + 1 = 0) then true
    else if s.rexec b && decide (s.rptr + 1 = 0) then false
    else s.crossover

def used : Nat := if s.full then n else age s.rptr s.wptr

def contents : List α := window s.mem s.rptr s.used

-- rptr_ahead_wptr_assert
def Valid : Prop := if s.crossover then s.wptr ≤ s.rptr else s.rptr ≤ s.wptr

end Ring

def ring (n : Nat) (feedthrough : Bool) : Channel (Cells (n + 2) α) α α where
  wok s r := !Ring.full s || feedthrough && r
  rok s w := !Ring.empty s || feedthrough && w
  rdata s wdata := if feedthrough && Ring.empty s then wdata else Ring.mem s (Ring.rptr s)
  next s b := Ring.next s feedthrough b

-- hpdcache_fifo_reg_sarg
def fifo : (depth : Nat) → (feedthrough : Bool) → Channel (Cells depth α) α α
  | 0, _ => bypass
  | 1, feedthrough => buffer feedthrough
  | n + 2, feedthrough => ring n feedthrough

def reset (blank : α) : (depth : Nat) → Cells depth α
  | 0 => ()
  | 1 => (⟨false,blank⟩ : Buffer α)
  | n + 2 => (⟨fun _ => blank,0,0,false⟩ : Ring (n + 2) α)

def contents : (depth : Nat) → Cells depth α → List α
  | 0, _ => []
  | 1, s => Buffer.contents s
  | _ + 2, s => Ring.contents s

def Valid : (depth : Nat) → Cells depth α → Prop
  | 0, _ => True
  | 1, _ => True
  | _ + 2, s => Ring.Valid s

theorem bypass_conserve (s : Cells 0 α) (b : Beat α) : bypass.accepted s b = bypass.delivered s b := by
  simp only [Channel.accepted,Channel.delivered,bypass]
  cases b.w <;> cases b.r <;> rfl

theorem buffer_conserve (feedthrough : Bool) (s : Buffer α) (b : Beat α) :
    s.contents ++ (buffer feedthrough).accepted s b = (buffer feedthrough).delivered s b ++ (s.next feedthrough b).contents := by
  obtain ⟨valid,buf⟩ := s
  obtain ⟨w,wdata,wlast,r⟩ := b
  cases valid <;> cases feedthrough <;> cases w <;> cases r <;> rfl

namespace Ring

variable {n : Nat} [NeZero n] {s : Ring n α} {feedthrough : Bool} {b : Beat α}

omit [NeZero n] in
theorem used_small (s : Ring n α) : s.used ≤ n := by
  unfold used
  split
  · exact le_rfl
  · exact le_of_lt (age_lt _ _)

omit [NeZero n] in
theorem full_used : s.full = true ↔ s.used = n := by
  unfold used
  split
  · simp [*]
  · have small := age_lt s.rptr s.wptr
    constructor
    · intro full
      contradiction
    · intro all
      omega

theorem empty_used : s.empty = true ↔ s.used = 0 := by
  have some' := Nat.pos_of_ne_zero (NeZero.ne n)
  unfold used
  cases full : s.full with
  | true =>
    simp only [Ring.full,Bool.and_eq_true] at full
    simp [empty,full,NeZero.ne n]
  | false =>
    simp only [Bool.false_eq_true,if_false]
    constructor
    · intro none'
      simp only [empty,matchPtr,Bool.and_eq_true,decide_eq_true_eq] at none'
      rw [none'.1,age_self]
    · intro none'
      have same : s.wptr = s.rptr := by
        have place := shift_age s.rptr s.wptr
        rw [none',shift_zero] at place
        exact place.symm
      simp only [Ring.full,matchPtr,same,decide_true,Bool.true_and] at full
      simp [empty,matchPtr,same,full]

theorem wptr_shift (s : Ring n α) : s.wptr = shift s.rptr s.used := by
  unfold used
  split
  · rename_i full
    simp only [Ring.full,matchPtr,Bool.and_eq_true,decide_eq_true_eq] at full
    rw [shift_whole,full.1]
  · exact (shift_age _ _).symm

-- The bit tells whether the contents go round the end of the ring.
theorem crossover_used (valid : s.Valid) : s.crossover = decide (n ≤ s.rptr.val + s.used) := by
  have place := congrArg Fin.val (wptr_shift s)
  rw [shift_val] at place
  have small := s.used_small
  have front := s.rptr.isLt
  unfold Valid at valid
  cases crossed : s.crossover with
  | true =>
    simp only [crossed,if_true,Fin.le_def] at valid
    symm
    rw [decide_eq_true_eq]
    by_contra inside
    rw [Nat.mod_eq_of_lt (by omega)] at place
    have full : s.full = true := by
      simp only [Ring.full,matchPtr,crossed,Bool.and_true,decide_eq_true_eq]
      exact Fin.ext (by omega)
    rw [full_used] at full
    omega
  | false =>
    simp only [crossed,Bool.false_eq_true,if_false,Fin.le_def] at valid
    symm
    rw [decide_eq_false_iff_not]
    intro outside
    have below : s.used ≠ n := by
      intro all
      have full := full_used.mpr all
      simp [Ring.full,crossed] at full
    have wraps : (s.rptr.val + s.used) % n = s.rptr.val + s.used - n := by
      rw [Nat.mod_eq_sub_mod outside,Nat.mod_eq_of_lt (by omega)]
    omega

-- A ring is known by where its contents begin and how many there are.
theorem used_unique {u : Nat} (small : u ≤ n) (place : s.wptr = shift s.rptr u) (bit : s.crossover = decide (n ≤ s.rptr.val + u)) :
    s.used = u ∧ s.Valid := by
  have front := s.rptr.isLt
  have val := congrArg Fin.val place
  rw [shift_val] at val
  by_cases whole : u = n
  · subst whole
    rw [shift_whole] at place
    have crossed : s.crossover = true := by simpa using bit
    exact ⟨full_used.mp (by simp [Ring.full,matchPtr,place,crossed]),by simp [Valid,crossed,place]⟩
  · have below : u < n := by omega
    have apart : s.full = false := by
      by_contra full
      simp only [Ring.full,matchPtr,Bool.not_eq_false,Bool.and_eq_true,decide_eq_true_eq] at full
      have none' : u = 0 := shift_inj below (Nat.pos_of_ne_zero (NeZero.ne n)) (by rw [← place,shift_zero,full.1])
      rw [full.2,none'] at bit
      have wrong : n ≤ s.rptr.val + 0 := by simpa using bit.symm
      omega
    refine ⟨?_,?_⟩
    · rw [used,apart,if_neg Bool.false_ne_true,place,age_shift below]
    · unfold Valid
      by_cases outside : n ≤ s.rptr.val + u
      · have wraps : (s.rptr.val + u) % n = s.rptr.val + u - n := by
          rw [Nat.mod_eq_sub_mod outside,Nat.mod_eq_of_lt (by omega)]
        simp only [bit,outside,decide_true,if_true,Fin.le_def]
        omega
      · rw [Nat.mod_eq_of_lt (by omega)] at val
        simp only [bit,outside,decide_false,Bool.false_eq_true,if_false,Fin.le_def]
        omega

theorem rexec_used : s.rexec b = (b.r && decide (s.used ≠ 0)) := by
  have same : s.empty = decide (s.used = 0) := by rw [Bool.eq_iff_iff,empty_used,decide_eq_true_eq]
  simp [rexec,same]

theorem wexec_used : s.wexec feedthrough b = (b.w && decide (if feedthrough then (s.used = 0 ∧ b.r = false) ∨ (s.used = n ∧ b.r = true) ∨
    (s.used ≠ n ∧ s.used ≠ 0) else s.used ≠ n)) := by
  have empty' : s.empty = decide (s.used = 0) := by rw [Bool.eq_iff_iff,empty_used,decide_eq_true_eq]
  have full' : s.full = decide (s.used = n) := by rw [Bool.eq_iff_iff,full_used,decide_eq_true_eq]
  cases feedthrough <;> simp [wexec,empty',full',Bool.decide_or,Bool.decide_and,Bool.or_assoc]

theorem next_used (feedthrough : Bool) (b : Beat α) (valid : s.Valid) : (s.next feedthrough b).Valid ∧
    (s.next feedthrough b).used + (s.rexec b).toNat = s.used + (s.wexec feedthrough b).toNat := by
  have small := s.used_small
  have front := s.rptr.isLt
  have some' := Nat.pos_of_ne_zero (NeZero.ne n)
  have bit := crossover_used valid
  have place := wptr_shift s
  have wval := congrArg Fin.val place
  rw [shift_val] at wval
  have wraps : s.wptr.val + 1 = n ↔ s.rptr.val + s.used + 1 = n ∨ s.rptr.val + s.used + 1 = 2 * n := by
    rw [wval]
    by_cases inside : s.rptr.val + s.used < n
    · rw [Nat.mod_eq_of_lt inside]
      omega
    · rw [Nat.mod_eq_sub_mod (by omega),Nat.mod_eq_of_lt (by omega)]
      omega
  have room : s.wexec feedthrough b = true → s.rexec b = false → s.used < n := by
    rw [wexec_used,rexec_used]
    cases feedthrough <;> cases b.r <;> simp <;> omega
  have some'' : s.rexec b = true → 0 < s.used := by
    rw [rexec_used]
    simp
    omega
  suffices found : ∃ u, u + (s.rexec b).toNat = s.used + (s.wexec feedthrough b).toNat ∧ u ≤ n ∧
      (s.next feedthrough b).wptr = shift (s.next feedthrough b).rptr u ∧
      (s.next feedthrough b).crossover = decide (n ≤ (s.next feedthrough b).rptr.val + u) by
    obtain ⟨u,count,fits,place',bit'⟩ := found
    obtain ⟨same,valid'⟩ := used_unique fits place' bit'
    exact ⟨valid',by rw [same,count]⟩
  cases writes : s.wexec feedthrough b with
  | false =>
    cases reads : s.rexec b with
    | false => exact ⟨s.used,rfl,small,by simp [next,writes,reads,place],by simp [next,writes,reads,bit]⟩
    | true =>
      have more := some'' reads
      refine ⟨s.used - 1,by simp; omega,by omega,?_,?_⟩
      · simp only [next,writes,reads,Bool.false_eq_true,if_false,if_true]
        rw [show s.rptr + 1 = shift s.rptr 1 from rfl,← shift_add,Nat.add_sub_cancel' more]
        exact place
      · simp only [next,writes,reads,Bool.false_and,Bool.false_eq_true,if_false,Bool.true_and,decide_eq_true_eq,if_true,succ_zero,
          succ_val,bit]
        split <;> simp <;> omega
  | true =>
    cases reads : s.rexec b with
    | false =>
      have fits := room writes reads
      refine ⟨s.used + 1,rfl,by omega,?_,?_⟩
      · simp only [next,writes,reads,Bool.false_eq_true,if_false,if_true]
        rw [place,shift_next]
      · simp only [next,writes,reads,Bool.false_and,Bool.false_eq_true,if_false,Bool.true_and,decide_eq_true_eq,succ_zero,wraps,bit]
        split
        · simp
          omega
        · simp
          omega
    | true =>
      have more := some'' reads
      refine ⟨s.used,rfl,small,?_,?_⟩
      · simp only [next,writes,reads,if_true]
        rw [place,shift_next,Nat.add_comm,shift_add]
        rfl
      · simp only [next,writes,reads,Bool.true_and,decide_eq_true_eq,if_true,succ_zero,succ_val,wraps,bit]
        split
        · split <;> simp <;> omega
        · split <;> simp <;> omega

-- An item that is read leaves the front, and one that is written goes behind the others.
theorem next_contents (feedthrough : Bool) (b : Beat α) (valid : s.Valid) : s.contents ++ (if s.wexec feedthrough b then [b.wdata] else []) =
    (if s.rexec b then [s.mem s.rptr] else []) ++ (s.next feedthrough b).contents := by
  obtain ⟨_,count⟩ := next_used feedthrough b valid
  have small := s.used_small
  have place := wptr_shift s
  unfold contents
  cases writes : s.wexec feedthrough b with
  | false =>
    cases reads : s.rexec b with
    | false =>
      rw [writes,reads] at count
      have same : (s.next feedthrough b).used = s.used := by simpa using count
      rw [same]
      simp [next,writes,reads]
    | true =>
      rw [writes,reads] at count
      have more : s.used = (s.next feedthrough b).used + 1 := by simpa using count.symm
      rw [more,window_cons]
      simp only [next,writes,reads,Bool.false_eq_true,if_false,if_true,List.append_nil,List.singleton_append]
      rfl
  | true =>
    cases reads : s.rexec b with
    | false =>
      rw [writes,reads] at count
      have more : (s.next feedthrough b).used = s.used + 1 := by simpa using count
      have fits : s.used < n := by
        have bound := (s.next feedthrough b).used_small
        omega
      rw [more]
      simp only [next,writes,reads,Bool.false_eq_true,if_false,if_true,List.nil_append,place]
      exact (window_push fits).symm
    | true =>
      rw [writes,reads] at count
      have same : (s.next feedthrough b).used = s.used := by simpa using count
      obtain ⟨u,more⟩ : ∃ u, s.used = u + 1 := by
        have some' : 0 < s.used := by
          rw [rexec_used] at reads
          simp only [Bool.and_eq_true,decide_eq_true_eq] at reads
          omega
        exact ⟨s.used - 1,by omega⟩
      rw [same]
      simp only [next,writes,reads,if_true,place,more]
      rw [window_cons,window_snoc,List.cons_append,List.singleton_append,Nat.add_comm u 1,shift_add,
        show s.rptr + 1 = shift s.rptr 1 from rfl,window_beyond le_rfl (by omega),Function.update_self]

-- An item that comes while the ring is empty and is asked for at once never enters it.
def Passes (s : Ring n α) (feedthrough : Bool) (b : Beat α) : Prop :=
  feedthrough = true ∧ s.empty = true ∧ b.w = true ∧ b.r = true

omit [NeZero n] in
theorem wexec_accepts (stays : ¬ Passes s feedthrough b) : (b.w && (!s.full || feedthrough && b.r)) = s.wexec feedthrough b := by
  unfold Passes at stays
  unfold wexec full
  unfold empty at stays ⊢
  generalize s.matchPtr = same at *
  generalize s.crossover = crossed at *
  obtain ⟨w,wdata,wlast,r⟩ := b
  cases feedthrough <;> cases w <;> cases r <;> cases same <;> cases crossed <;> simp_all

omit [NeZero n] in
theorem rexec_delivers (stays : ¬ Passes s feedthrough b) : (b.r && (!s.empty || feedthrough && b.w)) = s.rexec b := by
  unfold Passes at stays
  unfold rexec
  generalize s.empty = empty at *
  obtain ⟨w,wdata,wlast,r⟩ := b
  cases feedthrough <;> cases w <;> cases r <;> cases empty <;> simp_all

end Ring

theorem ring_conserve {n : Nat} {feedthrough : Bool} {s : Ring (n + 2) α} {b : Beat α} (valid : s.Valid) :
    s.contents ++ (ring n feedthrough).accepted s b = (ring n feedthrough).delivered s b ++ (s.next feedthrough b).contents := by
  have step := Ring.next_contents feedthrough b valid
  by_cases passes : s.Passes feedthrough b
  · obtain ⟨through,empty,comes,taken⟩ := passes
    have none' : s.used = 0 := Ring.empty_used.mp empty
    have accepted : (ring n feedthrough).accepted s b = [b.wdata] := by simp [Channel.accepted,ring,through,comes,taken]
    have delivered : (ring n feedthrough).delivered s b = [b.wdata] := by simp [Channel.delivered,ring,through,comes,taken,empty]
    have writes : s.wexec feedthrough b = false := by simp [Ring.wexec_used,through,none',taken]
    have reads : s.rexec b = false := by simp [Ring.rexec,empty]
    have clear : s.contents = [] := by simp [Ring.contents,none']
    rw [writes,reads,clear] at step
    rw [accepted,delivered,clear]
    simpa using step.symm
  · have accepted : (ring n feedthrough).accepted s b = if s.wexec feedthrough b then [b.wdata] else [] := by
      rw [← Ring.wexec_accepts passes]
      rfl
    have delivered : (ring n feedthrough).delivered s b = if s.rexec b then [s.mem s.rptr] else [] := by
      have same : (b.r && (ring n feedthrough).rok s b.w) = s.rexec b := Ring.rexec_delivers passes
      unfold Channel.delivered
      rw [same]
      cases reads : s.rexec b with
      | false => rfl
      | true =>
        have some' : s.empty = false := by
          simp only [Ring.rexec,Bool.and_eq_true,Bool.not_eq_true'] at reads
          exact reads.2
        simp [ring,some']
    rw [accepted,delivered]
    exact step

@[simp] theorem flatMap_singleton (items : List α) : items.flatMap List.singleton = items := by
  induction items with
  | nil => rfl
  | cons a rest ih =>
    rw [List.flatMap_cons,ih]
    rfl

theorem fifo_conserves (depth : Nat) (feedthrough : Bool) :
    Conserves (fifo (α := α) depth feedthrough) (Valid depth) (fun _ _ => True) (contents depth) List.singleton List.singleton where
  next s b valid _ :=
    match depth, s with
    | 0, _ => trivial
    | 1, _ => trivial
    | _ + 2, _ => (Ring.next_used _ _ valid).1
  conserve s b valid _ := by
    rw [flatMap_singleton,flatMap_singleton]
    match depth, s with
    | 0, s => exact (bypass_conserve s b).trans (List.append_nil _).symm
    | 1, s => exact buffer_conserve feedthrough s b
    | _ + 2, s => exact ring_conserve valid

theorem ring_ready {n : Nat} [NeZero n] (s : Ring n α) : s.empty = !decide (0 < s.contents.length) ∧ s.full = !decide (s.contents.length < n) := by
  have small := s.used_small
  have length : s.contents.length = s.used := window_length
  constructor
  · rw [Bool.eq_iff_iff,Ring.empty_used,length,Bool.not_eq_true',decide_eq_false_iff_not]
    omega
  · rw [Bool.eq_iff_iff,Ring.full_used,length,Bool.not_eq_true',decide_eq_false_iff_not]
    omega

-- When the buffer takes an item and when it has one. Without an entry, or with the feedthrough, the other side may help.
theorem fifo_ready (depth : Nat) (feedthrough : Bool) (s : Cells depth α) (moves : Bool) :
    (fifo depth feedthrough).rok s moves = (decide (0 < (contents depth s).length) || (feedthrough || decide (depth = 0)) && moves) ∧
      (fifo depth feedthrough).wok s moves =
        (decide ((contents depth s).length < depth) || (feedthrough || decide (depth = 0)) && moves) := by
  match depth, s with
  | 0, s => simp [fifo,bypass,contents]
  | 1, (s : Buffer α) =>
    obtain ⟨valid,buf⟩ := s
    cases valid <;> simp [fifo,buffer,contents,Buffer.contents]
  | n + 2, (s : Ring (n + 2) α) =>
    obtain ⟨empty,full⟩ := ring_ready s
    constructor
    · change (!s.empty || feedthrough && moves) = (decide (0 < s.contents.length) || (feedthrough || false) && moves)
      rw [empty,Bool.not_not,Bool.or_false]
    · change (!s.full || feedthrough && moves) = (decide (s.contents.length < n + 2) || (feedthrough || false) && moves)
      rw [full,Bool.not_not,Bool.or_false]

theorem contents_fit (depth : Nat) (s : Cells depth α) : (contents depth s).length ≤ depth := by
  match depth, s with
  | 0, _ => exact le_rfl
  | 1, (s : Buffer α) =>
    obtain ⟨valid,buf⟩ := s
    cases valid <;> simp [contents,Buffer.contents]
  | _ + 2, (s : Ring _ α) =>
    refine le_trans (le_of_eq ?_) s.used_small
    exact window_length

theorem reset_fresh (depth : Nat) (blank : α) : Valid depth (reset blank depth) ∧ contents depth (reset blank depth) = [] := by
  match depth with
  | 0 => exact ⟨trivial,rfl⟩
  | 1 => exact ⟨trivial,rfl⟩
  | n + 2 =>
    refine ⟨Nat.le_refl 0,?_⟩
    have none' : (⟨fun _ => blank,0,0,false⟩ : Ring (n + 2) α).used = 0 := Ring.empty_used.mp rfl
    exact List.length_eq_zero_iff.mp (window_length.trans none')

-- Whatever its depth, a FIFO gives out in order what it has taken, keeps the rest, and never holds more than its depth.
theorem fifo_in_order (depth : Nat) (feedthrough : Bool) (blank : α) (r : Recorded (Cells depth α) α α)
    (reached : StateMachine.Reached (recorded (fifo depth feedthrough) (reset blank depth) fun _ _ => True) r) :
    r.accepted = r.delivered ++ contents depth r.state ∧ (contents depth r.state).length ≤ depth ∧
      ∀ moves, (fifo depth feedthrough).rok r.state moves =
          (decide (r.delivered.length < r.accepted.length) || (feedthrough || decide (depth = 0)) && moves) ∧
        (fifo depth feedthrough).wok r.state moves =
          (decide (r.accepted.length < r.delivered.length + depth) || (feedthrough || decide (depth = 0)) && moves) := by
  obtain ⟨valid,clear⟩ := reset_fresh depth blank
  obtain ⟨_,log⟩ := conserved (fifo_conserves depth feedthrough) valid clear reached
  rw [flatMap_singleton,flatMap_singleton] at log
  refine ⟨log,contents_fit depth r.state,fun moves => ?_⟩
  obtain ⟨rok,wok⟩ := fifo_ready depth feedthrough r.state moves
  rw [rok,wok,log,List.length_append]
  simp

-- A second entry comes while the first one is read.
def passing : List (Beat Nat) := [⟨true,7,false,false⟩,⟨true,8,false,true⟩]

def passed : Recorded (Cells 2 Nat) Nat Nat :=
  passing.foldl (recorded (fifo 2 false) (reset 0 2) fun _ _ => True).step ⟨reset 0 2,[],[]⟩

theorem fifo_in_order_passing : passed.accepted = [7,8] ∧ passed.delivered = [7] ∧
    passed.accepted = passed.delivered ++ contents 2 passed.state :=
  ⟨by decide,by decide,(fifo_in_order 2 false 0 passed ⟨passing,.cons trivial (.cons trivial .nil)⟩).1⟩

end Sargantana.RegFifo
