import Mathlib.Data.List.Perm.Basic

namespace Sargantana.QueueTraffic

variable {ι : Type}

-- Items pass through a queue in order of arrival. Some may wait in a buffer
-- behind it, and an item may pass both when they are empty.
structure Traffic (ι : Type) where
  accepted : List ι
  issued : List ι
  buffer : List ι
  queue : List ι

inductive Move where
  | stay | pass | front | buffered | park
  deriving DecidableEq

def Traffic.step (f : Traffic ι) (arrival : Option ι) : Move → Traffic ι
  | .stay => ⟨f.accepted ++ arrival.toList,f.issued,f.buffer,f.queue ++ arrival.toList⟩
  | .pass => ⟨f.accepted ++ arrival.toList,f.issued ++ arrival.toList,f.buffer,f.queue⟩
  | .front => ⟨f.accepted ++ arrival.toList,f.issued ++ f.queue.take 1,f.buffer,f.queue.drop 1 ++ arrival.toList⟩
  | .buffered => ⟨f.accepted ++ arrival.toList,f.issued ++ f.buffer.take 1,f.buffer.drop 1,f.queue ++ arrival.toList⟩
  | .park => ⟨f.accepted ++ arrival.toList,f.issued,f.buffer ++ f.queue.take 1,f.queue.drop 1 ++ arrival.toList⟩

def Conserved (f : Traffic ι) : Prop := f.accepted.Perm (f.issued ++ f.buffer ++ f.queue)

theorem step_conserved (conserved : Conserved f) (arrival : Option ι) (move : Move) :
    Conserved (f.step arrival move) := by
  have grown : (f.accepted ++ arrival.toList).Perm (f.issued ++ f.buffer ++ f.queue ++ arrival.toList) :=
    conserved.append_right _
  have same : (f.step arrival move).accepted = f.accepted ++ arrival.toList := by cases move <;> rfl
  rw [Conserved,same]
  refine grown.trans ?_
  cases move with
  | stay => simp [Traffic.step]
  | pass =>
      simp only [Traffic.step,List.append_assoc]
      refine List.Perm.append_left _ ?_
      have swap : (f.buffer ++ f.queue ++ arrival.toList).Perm (arrival.toList ++ (f.buffer ++ f.queue)) :=
        List.perm_append_comm
      rwa [List.append_assoc] at swap
  | front =>
      have parts := List.take_append_drop 1 f.queue
      simp only [Traffic.step,List.append_assoc]
      refine List.Perm.append_left _ ?_
      conv => lhs; rw [← parts]
      simp only [← List.append_assoc]
      exact (List.perm_append_comm.append_right _).append_right _
  | buffered =>
      have parts := List.take_append_drop 1 f.buffer
      simp only [Traffic.step,List.append_assoc]
      conv => lhs; rw [← parts]
      rw [List.append_assoc]
  | park =>
      have parts := List.take_append_drop 1 f.queue
      simp only [Traffic.step,List.append_assoc]
      conv => lhs; rw [← parts]
      rw [List.append_assoc]

variable {early : ι → Bool}

-- The early items never wait in the buffer, so they overtake the others but not
-- one another; nor do the others.
structure Ordered (early : ι → Bool) (f : Traffic ι) : Prop where
  earlies : f.accepted.filter early = (f.issued ++ f.queue).filter early
  lates : f.accepted.filter (!early ·) = (f.issued ++ f.buffer ++ f.queue).filter (!early ·)
  parked : f.buffer.filter early = []

-- A late item of the queue is only issued past an empty buffer.
def Legal (early : ι → Bool) (f : Traffic ι) : Move → Prop
  | .stay => True
  | .pass => f.queue = [] ∧ f.buffer = []
  | .front => (f.queue.take 1).filter (!early ·) = [] ∨ f.buffer = []
  | .buffered => True
  | .park => (f.queue.take 1).filter early = []

theorem filter_parts (p : ι → Bool) (items : List ι) :
    items.filter p = (items.take 1).filter p ++ (items.drop 1).filter p := by
  rw [← List.filter_append,List.take_append_drop]

theorem step_ordered (ordered : Ordered early f) (arrival : Option ι) (legal : Legal early f move) :
    Ordered early (f.step arrival move) := by
  obtain ⟨earlies,lates,parked⟩ := ordered
  simp only [List.filter_append] at earlies lates
  cases move with
  | stay =>
      refine ⟨?_,?_,parked⟩
      · simp [Traffic.step,earlies]
      · simp [Traffic.step,lates]
  | pass =>
      obtain ⟨noQueue,noBuffer⟩ := legal
      refine ⟨?_,?_,parked⟩
      · simp [Traffic.step,earlies,noQueue]
      · simp [Traffic.step,lates,noQueue,noBuffer]
  | front =>
      rw [filter_parts _ f.queue] at earlies lates
      refine ⟨?_,?_,parked⟩
      · simp [Traffic.step,earlies]
      · simp only [Traffic.step,List.filter_append,lates]
        rcases legal with none | none
        · simp [none]
        · simp [none]
  | buffered =>
      rw [filter_parts _ f.buffer] at lates parked
      have none := List.append_eq_nil_iff.mp parked
      refine ⟨?_,?_,none.2⟩
      · simp [Traffic.step,earlies,none.1]
      · simp [Traffic.step,lates]
  | park =>
      rw [filter_parts _ f.queue] at earlies lates
      have none : (f.queue.take 1).filter early = [] := legal
      refine ⟨?_,?_,?_⟩
      · simp [Traffic.step,earlies,none]
      · simp [Traffic.step,lates]
      · simp [Traffic.step,parked,none]

def Traffic.map {κ : Type} (g : ι → κ) (f : Traffic ι) : Traffic κ :=
  ⟨f.accepted.map g,f.issued.map g,f.buffer.map g,f.queue.map g⟩

theorem step_map {κ : Type} (g : ι → κ) (f : Traffic ι) (arrival : Option ι) (move : Move) :
    (f.step arrival move).map g = (f.map g).step (arrival.map g) move := by
  have items : (arrival.map g).toList = arrival.toList.map g := by cases arrival <;> rfl
  cases move <;> simp [Traffic.step,Traffic.map,items]

-- An arrival takes the next number: what is queued stands in the order of its numbers,
-- and what is buffered came before it.
structure Numbered (buffer queue : List (Nat × ι)) (fresh : Nat) : Prop where
  sorted : queue.Pairwise fun a b => a.1 < b.1
  older : ∀ a ∈ buffer, ∀ b ∈ queue, a.1 < b.1
  within : ∀ a ∈ buffer ++ queue, a.1 < fresh

variable {buffer queue new : List (Nat × ι)} {fresh : Nat}

theorem Numbered.sublist (numbered : Numbered buffer queue fresh) (fewer : List.Sublist before buffer)
    (shorter : List.Sublist after queue) (later : fresh ≤ fresh') : Numbered before after fresh' := by
  refine ⟨numbered.sorted.sublist shorter,?_,?_⟩
  · intro a inside b queued
    exact numbered.older a (fewer.subset inside) b (shorter.subset queued)
  · intro a inside
    exact Nat.lt_of_lt_of_le (numbered.within a ((fewer.append shorter).subset inside)) later

theorem Numbered.arrive (numbered : Numbered buffer queue fresh) (named : ∀ a ∈ new, a.1 = fresh)
    (single : new.length ≤ 1) : Numbered buffer (queue ++ new) (fresh + new.length) := by
  have last : new.Pairwise fun a b => a.1 < b.1 := by
    cases new with
    | nil => exact .nil
    | cons a rest =>
      cases rest with
      | nil => exact List.pairwise_singleton _ _
      | cons => simp at single
  refine ⟨?_,?_,?_⟩
  · refine List.pairwise_append.mpr ⟨numbered.sorted,last,?_⟩
    intro a old b recent
    rw [named b recent]
    exact numbered.within a (List.mem_append_right _ old)
  · intro a inside b queued
    rcases List.mem_append.mp queued with old | recent
    · exact numbered.older a inside b old
    · rw [named b recent]
      exact numbered.within a (List.mem_append_left _ inside)
  · intro a inside
    rw [← List.append_assoc] at inside
    rcases List.mem_append.mp inside with old | recent
    · exact Nat.lt_of_lt_of_le (numbered.within a old) (Nat.le_add_right _ _)
    · rw [named a recent]
      exact Nat.lt_add_of_pos_right (List.length_pos_of_mem recent)

theorem Numbered.park (numbered : Numbered buffer queue fresh) :
    Numbered (buffer ++ queue.take 1) (queue.drop 1) fresh := by
  cases queue with
  | nil => simpa using numbered
  | cons first rest =>
    obtain ⟨least,sorted⟩ := List.pairwise_cons.mp numbered.sorted
    refine ⟨sorted,?_,?_⟩
    · intro a inside b queued
      rcases List.mem_append.mp inside with old | parked
      · exact numbered.older a old b (List.mem_cons_of_mem _ queued)
      · rw [List.mem_singleton.mp parked]
        exact least b queued
    · intro a inside
      exact numbered.within a (by simpa using inside)

theorem step_numbered {f : Traffic (Nat × ι)} (numbered : Numbered f.buffer f.queue f.accepted.length)
    (arrival : Option ι) (move : Move) :
    let after := f.step (arrival.map fun x => (f.accepted.length,x)) move
    Numbered after.buffer after.queue after.accepted.length := by
  have named : ∀ a ∈ (arrival.map fun x => (f.accepted.length,x)).toList, a.1 = f.accepted.length := by
    cases arrival <;> simp
  have single : (arrival.map fun x => (f.accepted.length,x)).toList.length ≤ 1 := by
    cases arrival <;> simp
  generalize grown : (arrival.map fun x => (f.accepted.length,x)) = new at named single
  cases move with
  | stay => simpa [Traffic.step] using numbered.arrive named single
  | pass => exact numbered.sublist (.refl _) (.refl _) (by simp [Traffic.step])
  | front =>
    have shorter := numbered.sublist (.refl _) (List.drop_sublist 1 f.queue) (Nat.le_refl _)
    simpa [Traffic.step] using shorter.arrive named single
  | buffered =>
    have fewer := numbered.sublist (List.drop_sublist 1 f.buffer) (.refl _) (Nat.le_refl _)
    simpa [Traffic.step] using fewer.arrive named single
  | park => simpa [Traffic.step] using numbered.park.arrive named single

end Sargantana.QueueTraffic
