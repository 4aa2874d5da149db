import Sargantana.RegFifo

-- The buffers of the data cache that change the width of what passes through them (hpdcache_data_upsize_sarg and
-- hpdcache_data_downsize_sarg; with equal widths hpdcache_data_resize_sarg is a FIFO). A wide word is k narrow ones.
namespace Sargantana.DataResize

open Handshake Window PointerFifo

-- The registers of both: slots of wide words, with the number of words each has taken in or has left
structure Slots (n k : Nat) (α : Type) where
  buf : Fin n → Fin k → α
  wrptr : Fin n
  rdptr : Fin n
  used : Nat
  words : Fin n → Fin k

variable {n k : Nat} [NeZero n] [NeZero k] {α : Type}

namespace Slots

variable (s : Slots n k α)

def reset (blank : α) : Slots n k α := ⟨fun _ _ => blank,0,0,0,fun _ => 0⟩

def full : Bool := decide (s.used = n)

def empty : Bool := decide (s.used = 0)

def done (r : Bool) : Bool := r && !s.empty && decide (s.words s.rdptr = 0)

-- hpdcache_data_downsize_sarg: a slot is left with its last word.
def downNext (b : Beat (Fin k → α)) : Slots n k α where
  buf := if b.w && !s.full then Function.update s.buf s.wrptr b.wdata else s.buf
  wrptr := if b.w && !s.full then s.wrptr + 1 else s.wrptr
  rdptr := if s.done b.r then s.rdptr + 1 else s.rdptr
  used := s.used + (b.w && !s.full).toNat - (s.done b.r).toNat
  words :=
    let set := if b.w && !s.full then Function.update s.words s.wrptr (-1) else s.words
    if b.r && !s.empty && decide (s.words s.rdptr ≠ 0) then Function.update set s.rdptr (s.words s.rdptr - 1) else set

def complete (b : Beat α) : Bool := b.w && !s.full && (decide (s.words s.wrptr + 1 = 0) || b.wlast)

-- hpdcache_data_upsize_sarg: a slot is handed over with its last word, or earlier with the last word of the packet.
def upNext (b : Beat α) : Slots n k α where
  buf := if b.w && !s.full then Function.update s.buf s.wrptr (Function.update (s.buf s.wrptr) (s.words s.wrptr) b.wdata) else s.buf
  wrptr := if s.complete b then s.wrptr + 1 else s.wrptr
  rdptr := if b.r && !s.empty then s.rdptr + 1 else s.rdptr
  used := s.used + (s.complete b).toNat - (b.r && !s.empty).toNat
  words :=
    let counted := if b.w && !s.full && decide (s.words s.wrptr + 1 ≠ 0) then
      Function.update s.words s.wrptr (s.words s.wrptr + 1) else s.words
    if b.r && !s.empty then Function.update counted s.rdptr 0 else counted

end Slots

def downsize (n k : Nat) [NeZero n] [NeZero k] : Channel (Slots n k α) (Fin k → α) α where
  wok s _ := !s.full
  rok s _ := !s.empty
  rdata s _ := s.buf s.rdptr (s.words s.rdptr).rev
  next := Slots.downNext

def upsize (n k : Nat) [NeZero n] [NeZero k] : Channel (Slots n k α) α (Fin k → α) where
  wok s _ := !s.full
  rok s _ := !s.empty
  rdata s _ := s.buf s.rdptr
  next := Slots.upNext

-- The slots in use follow one another.
structure Placed (s : Slots n k α) : Prop where
  fits : s.used ≤ n
  place : s.wrptr = shift s.rdptr s.used

def wide (s : Slots n k α) : List α := (window s.buf s.rdptr s.used).flatMap List.ofFn

section Down

-- Behind the slot that is read every slot is whole.
structure DownValid (s : Slots n k α) : Prop extends Placed s where
  whole : ∀ j, 0 < j → j < s.used → s.words (shift s.rdptr j) = -1

def skipped (s : Slots n k α) : Nat := if s.used = 0 then 0 else (s.words s.rdptr).rev

def downContents (s : Slots n k α) : List α := (wide s).drop (skipped s)

def put (s : Slots n k α) (wdata : Fin k → α) : Slots n k α :=
  ⟨Function.update s.buf s.wrptr wdata,s.wrptr + 1,s.rdptr,s.used + 1,Function.update s.words s.wrptr (-1)⟩

def take (s : Slots n k α) : Slots n k α :=
  if s.words s.rdptr = 0 then ⟨s.buf,s.wrptr,s.rdptr + 1,s.used - 1,s.words⟩
  else ⟨s.buf,s.wrptr,s.rdptr,s.used,Function.update s.words s.rdptr (s.words s.rdptr - 1)⟩

variable {s : Slots n k α}

theorem put_valid (valid : DownValid s) (room : s.used < n) (wdata : Fin k → α) : DownValid (put s wdata) where
  fits := room
  place := by simp [put,valid.place,shift_next]
  whole := by
    intro j after before
    have cell : (put s wdata).words (shift s.rdptr j) = Function.update s.words s.wrptr (-1) (shift s.rdptr j) := rfl
    rw [show (put s wdata).rdptr = s.rdptr from rfl,cell]
    by_cases last : j = s.used
    · rw [last,← valid.place,Function.update_self]
    · have inside : j < s.used := by
        have bound : j < s.used + 1 := before
        omega
      rw [Function.update_of_ne,valid.whole j after inside]
      rw [valid.place]
      exact fun same => last (shift_inj (by omega) (by omega) same)

theorem put_contents (valid : DownValid s) (room : s.used < n) (wdata : Fin k → α) :
    downContents (put s wdata) = downContents s ++ List.ofFn wdata := by
  have cells : wide (put s wdata) = wide s ++ List.ofFn wdata := by
    simp only [wide,put,valid.place]
    rw [window_push room,List.flatMap_append]
    simp
  unfold downContents
  rw [cells]
  by_cases none' : s.used = 0
  · have first : s.wrptr = s.rdptr := by rw [valid.place,none',shift_zero]
    have last : k - ((-1 : Fin k).val + 1) = 0 := by rw [last_val,Nat.sub_self]
    have clear : wide s = [] := by simp [wide,none']
    simp [skipped,put,first,none',clear,last]
  · have other : s.rdptr ≠ s.wrptr := by
      intro same
      rw [valid.place] at same
      have zero : shift s.rdptr 0 = shift s.rdptr s.used := by rw [shift_zero]; exact same
      exact none' (shift_inj (by omega) room zero).symm
    have same : skipped (put s wdata) = skipped s := by
      simp [skipped,put,none',Function.update_of_ne other]
    have within : skipped s ≤ (wide s).length := by
      have small := (s.words s.rdptr).rev.isLt
      obtain ⟨u,more⟩ : ∃ u, s.used = u + 1 := ⟨s.used - 1,by omega⟩
      rw [wide,more,window_cons,List.flatMap_cons,List.length_append,List.length_ofFn,skipped,if_neg none']
      omega
    rw [same,List.drop_append_of_le_length within]

omit [NeZero k] in
theorem wide_cons (some' : 0 < s.used) :
    wide s = List.ofFn (s.buf s.rdptr) ++ (window s.buf (shift s.rdptr 1) (s.used - 1)).flatMap List.ofFn := by
  obtain ⟨u,more⟩ : ∃ u, s.used = u + 1 := ⟨s.used - 1,by omega⟩
  rw [wide,more,window_cons,List.flatMap_cons,Nat.add_sub_cancel]

theorem take_valid (valid : DownValid s) (some' : 0 < s.used) : DownValid (take s) := by
  have bound := valid.fits
  unfold take
  split
  · refine ⟨⟨Nat.le_trans (Nat.sub_le _ _) bound,?_⟩,?_⟩
    · change s.wrptr = shift (shift s.rdptr 1) (s.used - 1)
      rw [← shift_add,Nat.add_sub_cancel' some',valid.place]
    · intro j _ before
      change s.words (shift (shift s.rdptr 1) j) = -1
      change j < s.used - 1 at before
      rw [← shift_add]
      exact valid.whole _ (by omega) (by omega)
  · refine ⟨⟨bound,valid.place⟩,?_⟩
    intro j after before
    change j < s.used at before
    change Function.update s.words s.rdptr (s.words s.rdptr - 1) (shift s.rdptr j) = -1
    rw [Function.update_of_ne,valid.whole j after before]
    intro same
    have zero : shift s.rdptr j = shift s.rdptr 0 := by rw [same,shift_zero]
    exact absurd (shift_inj (by omega) (by omega) zero) (by omega)

theorem take_contents (valid : DownValid s) (some' : 0 < s.used) :
    downContents s = s.buf s.rdptr (s.words s.rdptr).rev :: downContents (take s) := by
  have small := (s.words s.rdptr).isLt
  have inside : (s.words s.rdptr).rev.val < (List.ofFn (s.buf s.rdptr)).length := by
    rw [List.length_ofFn]
    exact (s.words s.rdptr).rev.isLt
  have first : skipped s = (s.words s.rdptr).rev.val := if_neg (by omega)
  rw [downContents,wide_cons some',first,List.drop_append_of_le_length (le_of_lt inside),List.drop_eq_getElem_cons inside]
  simp only [List.getElem_ofFn,Fin.eta,List.cons_append,List.cons.injEq,true_and]
  unfold take
  split
  · rename_i last
    have all : (s.words s.rdptr).rev.val + 1 = k := by
      rw [Fin.val_rev,last]
      simp only [Fin.val_zero]
      omega
    have none' : skipped (⟨s.buf,s.wrptr,s.rdptr + 1,s.used - 1,s.words⟩ : Slots n k α) = 0 := by
      by_cases alone : s.used - 1 = 0
      · simp [skipped,alone]
      · have next : s.words (s.rdptr + 1) = -1 := valid.whole 1 (by omega) (by omega)
        simp only [skipped,alone,if_false,next,Fin.val_rev]
        have last := last_val (n := k)
        omega
    rw [downContents,none',List.drop_zero,List.drop_eq_nil_of_le (by rw [List.length_ofFn,all]),List.nil_append]
    rfl
  · rename_i more
    have step : skipped (⟨s.buf,s.wrptr,s.rdptr,s.used,Function.update s.words s.rdptr (s.words s.rdptr - 1)⟩ : Slots n k α) =
        (s.words s.rdptr).rev.val + 1 := by
      have positive : 0 < (s.words s.rdptr).val := Nat.pos_of_ne_zero fun zero => more (Fin.ext zero)
      have less : (s.words s.rdptr - 1).val + 1 = (s.words s.rdptr).val := by
        have val := succ_val (s.words s.rdptr - 1)
        rw [sub_add_cancel] at val
        split at val
        · omega
        · exact val.symm
      simp only [skipped,Function.update_self,Fin.val_rev]
      rw [if_neg (by omega)]
      omega
    rw [downContents,step]
    have same : wide (⟨s.buf,s.wrptr,s.rdptr,s.used,Function.update s.words s.rdptr (s.words s.rdptr - 1)⟩ : Slots n k α) = wide s := rfl
    rw [same,wide_cons some',List.drop_append_of_le_length (by rw [List.length_ofFn]; exact (s.words s.rdptr).rev.isLt)]

omit [NeZero k] in
theorem slots_apart (placed : Placed s) (some' : 0 < s.used) (room : s.used < n) : s.rdptr ≠ s.wrptr := by
  intro same
  have zero : shift s.rdptr 0 = shift s.rdptr s.used := by rw [shift_zero,← placed.place]; exact same
  exact absurd (shift_inj (by omega) room zero) (by omega)

-- The cycle as a write and a read; they never meet in one slot.
theorem downNext_parts (valid : DownValid s) (b : Beat (Fin k → α)) :
    s.downNext b =
      let filled := if b.w && !s.full then put s b.wdata else s
      if b.r && !s.empty then take filled else filled := by
  cases writes : (b.w && !s.full) with
  | false =>
    cases reads : (b.r && !s.empty) with
    | false => simp [Slots.downNext,Slots.done,writes,reads]
    | true => by_cases last : s.words s.rdptr = 0 <;> simp [Slots.downNext,Slots.done,take,writes,reads,last]
  | true =>
    cases reads : (b.r && !s.empty) with
    | false => simp [Slots.downNext,Slots.done,put,writes,reads]
    | true =>
      have apart : s.rdptr ≠ s.wrptr := by
        simp only [Slots.full,Slots.empty,Bool.and_eq_true,Bool.not_eq_true',decide_eq_false_iff_not] at writes reads
        have bound := valid.fits
        exact slots_apart valid.toPlaced (by omega) (by omega)
      by_cases last : s.words s.rdptr = 0 <;>
        simp [Slots.downNext,Slots.done,take,put,writes,reads,last,Function.update_of_ne apart]

theorem down_conserves : Conserves (downsize (α := α) n k) DownValid (fun _ _ => True) downContents List.ofFn List.singleton where
  next s b valid _ := by
    change DownValid (s.downNext b)
    rw [downNext_parts valid]
    have bound := valid.fits
    cases writes : (b.w && !s.full) with
    | false =>
      cases reads : (b.r && !s.empty) with
      | false => exact valid
      | true =>
        simp only [Slots.empty,Bool.and_eq_true,Bool.not_eq_true',decide_eq_false_iff_not] at reads
        have some' : 0 < s.used := by omega
        exact take_valid valid some'
    | true =>
      simp only [Slots.full,Bool.and_eq_true,Bool.not_eq_true',decide_eq_false_iff_not] at writes
      have filled := put_valid valid (by omega) b.wdata
      cases reads : (b.r && !s.empty) with
      | false => exact filled
      | true => exact take_valid filled (Nat.succ_pos _)
  conserve s b valid _ := by
    have bound := valid.fits
    change downContents s ++ List.flatMap List.ofFn (if b.w && !s.full then [b.wdata] else []) =
      (if b.r && !s.empty then [s.buf s.rdptr (s.words s.rdptr).rev] else []).flatMap List.singleton ++ downContents (s.downNext b)
    rw [downNext_parts valid,RegFifo.flatMap_singleton]
    cases writes : (b.w && !s.full) with
    | false =>
      cases reads : (b.r && !s.empty) with
      | false => simp
      | true =>
        simp only [Slots.empty,Bool.and_eq_true,Bool.not_eq_true',decide_eq_false_iff_not] at reads
        simp only [Bool.false_eq_true,if_false,if_true,List.flatMap_nil,List.append_nil,List.singleton_append]
        exact take_contents valid (by omega)
    | true =>
      simp only [Slots.full,Bool.and_eq_true,Bool.not_eq_true',decide_eq_false_iff_not] at writes
      have filled := put_valid valid (by omega) b.wdata
      have more : downContents s ++ List.flatMap List.ofFn [b.wdata] = downContents (put s b.wdata) := by
        rw [put_contents valid (by omega)]
        simp
      cases reads : (b.r && !s.empty) with
      | false => simpa using more
      | true =>
        simp only [Slots.empty,Bool.and_eq_true,Bool.not_eq_true',decide_eq_false_iff_not] at reads
        have apart := slots_apart valid.toPlaced (by omega) (by omega)
        simp only [if_true,List.singleton_append]
        rw [more,take_contents filled (Nat.succ_pos _)]
        simp [put,Function.update_of_ne apart]

end Down

section Up

-- The slots behind the one that is being filled have taken in nothing.
structure UpValid (s : Slots n k α) : Prop extends Placed s where
  clear : ∀ j, s.used < j → j < n → s.words (shift s.rdptr j) = 0

def begun (s : Slots n k α) : List α := if s.used = n then [] else (List.ofFn (s.buf s.wrptr)).take (s.words s.wrptr)

def upContents (s : Slots n k α) : List α := wide s ++ begun s

def shiftIn (s : Slots n k α) (wdata : α) : Slots n k α :=
  let buf := Function.update s.buf s.wrptr (Function.update (s.buf s.wrptr) (s.words s.wrptr) wdata)
  if s.words s.wrptr + 1 = 0 then ⟨buf,s.wrptr + 1,s.rdptr,s.used + 1,s.words⟩
  else ⟨buf,s.wrptr,s.rdptr,s.used,Function.update s.words s.wrptr (s.words s.wrptr + 1)⟩

def leave (s : Slots n k α) : Slots n k α := ⟨s.buf,s.wrptr,s.rdptr + 1,s.used - 1,Function.update s.words s.rdptr 0⟩

-- A packet ends where a wide word does.
def Aligned (s : Slots n k α) (b : Beat α) : Prop := b.w = true → s.full = false → b.wlast = true → s.words s.wrptr + 1 = 0

variable {s : Slots n k α}

theorem shiftIn_valid (valid : UpValid s) (room : s.used < n) (wdata : α) : UpValid (shiftIn s wdata) := by
  unfold shiftIn
  simp only []
  split
  · exact ⟨⟨room,by simp only [valid.place,shift_next]⟩,fun j after before => valid.clear j (Nat.lt_of_succ_lt after) before⟩
  · refine ⟨⟨valid.fits,valid.place⟩,?_⟩
    intro j after before
    change s.used < j at after
    change Function.update s.words s.wrptr (s.words s.wrptr + 1) (shift s.rdptr j) = 0
    rw [Function.update_of_ne,valid.clear j after before]
    rw [valid.place]
    exact fun same => absurd (shift_inj before room same) (by omega)

theorem shiftIn_contents (valid : UpValid s) (room : s.used < n) (wdata : α) :
    upContents (shiftIn s wdata) = upContents s ++ [wdata] := by
  have inside : (s.words s.wrptr).val < (List.ofFn (Function.update (s.buf s.wrptr) (s.words s.wrptr) wdata)).length := by
    rw [List.length_ofFn]
    exact (s.words s.wrptr).isLt
  have added : (List.ofFn (Function.update (s.buf s.wrptr) (s.words s.wrptr) wdata)).take ((s.words s.wrptr).val + 1) =
      (List.ofFn (s.buf s.wrptr)).take (s.words s.wrptr) ++ [wdata] := by
    rw [List.take_succ_eq_append_getElem inside]
    congr 1
    · refine List.ext_getElem (by simp) ?_
      intro j one two
      have before : j < (s.words s.wrptr).val := by
        rw [List.length_take] at one
        omega
      simp only [List.getElem_take,List.getElem_ofFn]
      rw [Function.update_of_ne]
      exact fun same => absurd (congrArg Fin.val same) (by simp; omega)
    · simp
  have cells : ∀ line : Fin k → α, window (Function.update s.buf s.wrptr line) s.rdptr s.used = window s.buf s.rdptr s.used := by
    intro line
    rw [valid.place,window_beyond le_rfl room]
  unfold shiftIn
  simp only []
  split
  · rename_i last
    have all : (s.words s.wrptr).val + 1 = k := (succ_zero _).mp last
    have whole : wide (⟨Function.update s.buf s.wrptr (Function.update (s.buf s.wrptr) (s.words s.wrptr) wdata),s.wrptr + 1,s.rdptr,
        s.used + 1,s.words⟩ : Slots n k α) = wide s ++ begun s ++ [wdata] := by
      rw [all,List.take_of_length_le (by simp)] at added
      simp only [wide]
      rw [valid.place,window_push room,List.flatMap_append,List.flatMap_singleton,begun,if_neg (by omega),List.append_assoc,
        ← valid.place,added]
    have none' : begun (⟨Function.update s.buf s.wrptr (Function.update (s.buf s.wrptr) (s.words s.wrptr) wdata),s.wrptr + 1,s.rdptr,
        s.used + 1,s.words⟩ : Slots n k α) = [] := by
      unfold begun
      split
      · rfl
      · rename_i more
        change ¬ s.used + 1 = n at more
        have clear : s.words (s.wrptr + 1) = 0 := by
          rw [valid.place,shift_next]
          exact valid.clear _ (Nat.lt_succ_self _) (by omega)
        simp [clear]
    rw [upContents,whole,none',List.append_nil,upContents]
  · rename_i more
    have step : (s.words s.wrptr + 1).val = (s.words s.wrptr).val + 1 := by
      rw [succ_val,if_neg]
      exact fun last => more ((succ_zero _).mpr last)
    have begins : begun (⟨Function.update s.buf s.wrptr (Function.update (s.buf s.wrptr) (s.words s.wrptr) wdata),s.wrptr,s.rdptr,
        s.used,Function.update s.words s.wrptr (s.words s.wrptr + 1)⟩ : Slots n k α) = begun s ++ [wdata] := by
      simp only [begun,Function.update_self,step]
      rw [if_neg (by omega),if_neg (by omega),added]
    rw [upContents,begins,← List.append_assoc]
    simp only [wide,cells]
    rfl

theorem shiftIn_used {wdata : α} (some' : 0 < s.used) : 0 < (shiftIn s wdata).used := by
  unfold shiftIn
  split
  · exact Nat.succ_pos _
  · exact some'

theorem leave_valid (valid : UpValid s) (some' : 0 < s.used) : UpValid (leave s) := by
  have bound := valid.fits
  refine ⟨⟨Nat.le_trans (Nat.sub_le _ _) bound,?_⟩,?_⟩
  · change s.wrptr = shift (shift s.rdptr 1) (s.used - 1)
    rw [← shift_add,Nat.add_sub_cancel' some',valid.place]
  · intro j after before
    change s.used - 1 < j at after
    change Function.update s.words s.rdptr 0 (shift (shift s.rdptr 1) j) = 0
    rw [← shift_add]
    by_cases round : 1 + j = n
    · rw [round,shift_whole,Function.update_self]
    · rw [Function.update_of_ne,valid.clear _ (by omega) (by omega)]
      intro same
      have zero : shift s.rdptr (1 + j) = shift s.rdptr 0 := by rw [same,shift_zero]
      exact absurd (shift_inj (by omega) (by omega) zero) (by omega)

theorem leave_contents (valid : UpValid s) (some' : 0 < s.used) : upContents s = List.ofFn (s.buf s.rdptr) ++ upContents (leave s) := by
  have bound := valid.fits
  have begins : begun (leave s) = begun s := by
    unfold begun leave
    simp only []
    rw [if_neg (by omega)]
    split
    · rename_i full
      have same : s.wrptr = s.rdptr := by rw [valid.place,full,shift_whole]
      rw [same,Function.update_self]
      simp
    · rename_i room
      rw [Function.update_of_ne]
      exact fun same => slots_apart valid.toPlaced some' (by omega) same.symm
  rw [upContents,wide_cons some',upContents,begins,List.append_assoc]
  rfl

theorem upNext_parts (valid : UpValid s) (b : Beat α) (aligned : Aligned s b) :
    s.upNext b =
      let filled := if b.w && !s.full then shiftIn s b.wdata else s
      if b.r && !s.empty then leave filled else filled := by
  cases writes : (b.w && !s.full) with
  | false => cases reads : (b.r && !s.empty) <;> simp [Slots.upNext,Slots.complete,leave,writes,reads]
  | true =>
    simp only [Bool.and_eq_true,Bool.not_eq_true'] at writes
    have ends : s.complete b = decide (s.words s.wrptr + 1 = 0) := by
      simp only [Slots.complete,writes.1,writes.2,Bool.not_false,Bool.true_and]
      cases last : b.wlast with
      | false => simp
      | true => simp [aligned writes.1 writes.2 last]
    cases reads : (b.r && !s.empty) with
    | false =>
      by_cases last : s.words s.wrptr + 1 = 0 <;> simp [Slots.upNext,ends,shiftIn,writes.1,writes.2,reads,last]
    | true =>
      have apart : s.rdptr ≠ s.wrptr := by
        simp only [Slots.full,Slots.empty,Bool.and_eq_true,Bool.not_eq_true',decide_eq_false_iff_not] at writes reads
        have bound := valid.fits
        exact slots_apart valid.toPlaced (by omega) (by omega)
      by_cases last : s.words s.wrptr + 1 = 0 <;> simp [Slots.upNext,ends,shiftIn,leave,writes.1,writes.2,reads,last]

theorem up_conserves : Conserves (upsize (α := α) n k) UpValid Aligned upContents List.singleton List.ofFn where
  next s b valid aligned := by
    change UpValid (s.upNext b)
    rw [upNext_parts valid b aligned]
    have bound := valid.fits
    cases writes : (b.w && !s.full) with
    | false =>
      cases reads : (b.r && !s.empty) with
      | false => exact valid
      | true =>
        simp only [Slots.empty,Bool.and_eq_true,Bool.not_eq_true',decide_eq_false_iff_not] at reads
        have some' : 0 < s.used := by omega
        exact leave_valid valid some'
    | true =>
      simp only [Slots.full,Bool.and_eq_true,Bool.not_eq_true',decide_eq_false_iff_not] at writes
      have filled := shiftIn_valid valid (by omega) b.wdata
      cases reads : (b.r && !s.empty) with
      | false => exact filled
      | true =>
        simp only [Slots.empty,Bool.and_eq_true,Bool.not_eq_true',decide_eq_false_iff_not] at reads
        exact leave_valid filled (shiftIn_used (by omega))
  conserve s b valid aligned := by
    have bound := valid.fits
    change upContents s ++ List.flatMap List.singleton (if b.w && !s.full then [b.wdata] else []) =
      (if b.r && !s.empty then [s.buf s.rdptr] else []).flatMap List.ofFn ++ upContents (s.upNext b)
    rw [upNext_parts valid b aligned,RegFifo.flatMap_singleton]
    cases writes : (b.w && !s.full) with
    | false =>
      cases reads : (b.r && !s.empty) with
      | false => simp
      | true =>
        simp only [Slots.empty,Bool.and_eq_true,Bool.not_eq_true',decide_eq_false_iff_not] at reads
        have some' : 0 < s.used := by omega
        simpa using leave_contents valid some'
    | true =>
      simp only [Slots.full,Bool.and_eq_true,Bool.not_eq_true',decide_eq_false_iff_not] at writes
      have filled := shiftIn_valid valid (by omega) b.wdata
      have more := shiftIn_contents valid (by omega) b.wdata
      cases reads : (b.r && !s.empty) with
      | false => simpa using more.symm
      | true =>
        simp only [Slots.empty,Bool.and_eq_true,Bool.not_eq_true',decide_eq_false_iff_not] at reads
        have apart := slots_apart valid.toPlaced (by omega) (by omega)
        have some' : 0 < (shiftIn s b.wdata).used := shiftIn_used (by omega)
        have front : (shiftIn s b.wdata).buf (shiftIn s b.wdata).rdptr = s.buf s.rdptr := by
          unfold shiftIn
          split <;> simp [Function.update_of_ne apart]
        simp only [if_true,List.flatMap_singleton]
        rw [← more,leave_contents filled some',front]

end Up

open StateMachine

omit [NeZero k] in
theorem wide_none {s : Slots n k α} (empty : s.empty = true) : wide s = [] := by
  simp only [Slots.empty,decide_eq_true_eq] at empty
  simp [wide,empty]

theorem reset_placed (blank : α) : Placed (Slots.reset (n := n) (k := k) blank) := ⟨Nat.zero_le _,(shift_zero _).symm⟩

-- The words come out in the order in which they went in, cut from wide words or put together to them, as long as no packet
-- ends inside a wide word. Only the words of a wide one that is not whole yet can be kept back.
theorem resize_in_order (blank : α) :
    (∀ r, Reached (recorded (downsize n k) (Slots.reset blank) fun _ _ => True) r →
      r.accepted.flatMap List.ofFn = r.delivered ++ downContents r.state ∧
        (∀ w, (downsize n k).rok r.state w = false → r.accepted.flatMap List.ofFn = r.delivered)) ∧
    (∀ r, Reached (recorded (upsize n k) (Slots.reset blank) Aligned) r →
      r.accepted = r.delivered.flatMap List.ofFn ++ upContents r.state ∧
        (∀ w, (upsize n k).rok r.state w = false → r.accepted.length < r.delivered.length * k + k)) := by
  constructor
  · intro r reached
    obtain ⟨_,log⟩ := conserved down_conserves ⟨reset_placed blank,nofun⟩ (by simp [downContents,wide,Slots.reset]) reached
    rw [RegFifo.flatMap_singleton] at log
    refine ⟨log,fun w stops => ?_⟩
    have empty : r.state.empty = true := by simpa [downsize] using stops
    rw [log,downContents,wide_none empty,List.drop_nil,List.append_nil]
  · intro r reached
    have fresh : UpValid (Slots.reset (n := n) (k := k) blank) := ⟨reset_placed blank,fun _ _ _ => rfl⟩
    have clear : upContents (Slots.reset (n := n) (k := k) blank) = [] := by
      simp [upContents,wide,begun,Slots.reset,(NeZero.ne n).symm]
    obtain ⟨valid,log⟩ := conserved up_conserves fresh clear reached
    rw [RegFifo.flatMap_singleton] at log
    refine ⟨log,fun w stops => ?_⟩
    have empty : r.state.empty = true := by simpa [upsize] using stops
    have few : (begun r.state).length < k := by
      unfold begun
      split
      · exact Nat.pos_of_ne_zero (NeZero.ne k)
      · rw [List.length_take,List.length_ofFn]
        have small := (r.state.words r.state.wrptr).isLt
        omega
    have length := congrArg List.length log
    have whole : (r.delivered.flatMap List.ofFn).length = r.delivered.length * k := by simp [List.length_flatMap]
    rw [List.length_append,whole,upContents,wide_none empty,List.nil_append] at length
    omega

-- A wide word is cut into two, and two wide words are put together while the first one leaves.
section Sample

def cutting : List (Beat (Fin 2 → Nat)) := [⟨true,fun j => j.val + 1,false,false⟩,⟨true,fun j => j.val + 3,false,true⟩]

def cut : Recorded (Slots 2 2 Nat) (Fin 2 → Nat) Nat :=
  cutting.foldl (recorded (downsize 2 2) (Slots.reset 0) fun _ _ => True).step ⟨Slots.reset 0,[],[]⟩

abbrev upsizer : Machine (Recorded (Slots 2 2 Nat) Nat (Fin 2 → Nat)) (Beat Nat) := recorded (upsize 2 2) (Slots.reset 0) Aligned

instance (r : Recorded (Slots 2 2 Nat) Nat (Fin 2 → Nat)) (b : Beat Nat) : Decidable (upsizer.allowed r b) :=
  inferInstanceAs (Decidable (b.w = true → r.state.full = false → b.wlast = true → r.state.words r.state.wrptr + 1 = 0))

def gluing : List (Beat Nat) :=
  [⟨true,1,false,false⟩,⟨true,2,true,false⟩,⟨true,3,false,true⟩,⟨true,4,true,false⟩,⟨true,5,false,true⟩]

def glued : Recorded (Slots 2 2 Nat) Nat (Fin 2 → Nat) := gluing.foldl upsizer.step upsizer.initial

theorem resize_in_order_sample :
    (cut.delivered = [1] ∧ cut.accepted.flatMap List.ofFn = cut.delivered ++ downContents cut.state) ∧
      glued.delivered.map List.ofFn = [[1,2],[3,4]] ∧
      glued.accepted = glued.delivered.flatMap List.ofFn ++ upContents glued.state := by
  have path : legal upsizer upsizer.initial gluing = true := by decide
  refine ⟨⟨by decide,((resize_in_order 0).1 cut ⟨cutting,.cons trivial (.cons trivial .nil)⟩).1⟩,by decide,?_⟩
  exact ((resize_in_order 0).2 glued ⟨gluing,Runs.of_legal path⟩).1

end Sample

end Sargantana.DataResize
