import Sargantana.LsqRefinement
import Sargantana.Lib.QueueTraffic

namespace Sargantana.LsqTraffic
open DracPkg LoadStoreQueue LsqRefinement Window QueueTraffic

variable {α : Type} {cfg : Config} {s : State α} {i : LoadStoreQueue.Input α}

def accepted (s : State α) (i : LoadStoreQueue.Input α) : Option (MemInstr α) :=
  if i.instruction.valid && !full s i then some i.instruction else none

theorem accepted_eq (offered : Offered cfg s i) :
    accepted s i = if i.instruction.valid then some i.instruction else none := by
  cases present : i.instruction.valid with
  | false => simp [accepted,present]
  | true => simp [accepted,present,offered.presented present]

theorem reads_away (quiet : (arrivesAtEmpty s i && i.readNext) = false) (enable : readEnable s i = true) :
    i.readNext = true ∧ bypassLsq cfg s i = false := by
  simp only [readEnable,Bool.and_eq_true] at enable
  have none : arrivesAtEmpty s i = false := by simpa [enable.1] using quiet
  exact ⟨enable.1,by simp [bypassLsq,none]⟩

-- The instructions that came and went since the last flush, beside those held.
def trafficOf (came went : List (MemInstr α)) (s : State α) : Traffic (MemInstr α) :=
  ⟨came.map erase,went.map erase,(StoreBuffer.contents s.storeBuffer).map erase,(contents s).map erase⟩

theorem empty_traffic (none : held s = 0) (drained : StoreBuffer.contents s.storeBuffer = []) :
    trafficOf [] [] s = ⟨[],[],[],[]⟩ := by
  simp [trafficOf,contents,none,drained]

theorem head_member (some : 0 < s.numToExe.val) : headInstr s ∈ contents s := by
  refine List.mem_of_mem_take (i := 1) ?_
  rw [contents_front some,headInstr_eq]
  exact List.mem_singleton.mpr rfl

theorem store_not_load {x : MemInstr α} (store : isStoreOrAmo x = true) : isLoad x = false := by
  unfold isStoreOrAmo at store
  unfold isLoad
  cases kind : x.memType <;> simp_all

section Issue
variable [Inhabited α]

-- An instruction leaves when stage 0 reads while the queue shows it.
def issued (cfg : Config) (s : State α) (i : LoadStoreQueue.Input α) : Option (MemInstr α) :=
  if !i.flush && i.readNext && (nextInstrExe cfg s i).valid then some (nextInstrExe cfg s i) else none

def move (cfg : Config) (s : State α) (i : LoadStoreQueue.Input α) : Move :=
  if arrivesAtEmpty s i && i.readNext then .pass
  else if (reads cfg s i).sb then .buffered
  else if (reads cfg s i).lsq then (if (reads cfg s i).sbWrite then .park else .front)
  else .stay

theorem buffer_front (some : 0 < s.storeBuffer.num.val) :
    (StoreBuffer.contents s.storeBuffer).take 1 = [stBuffInstOut s] := by
  have present : (0 : Fin 16) < s.storeBuffer.num := some
  rw [StoreBuffer.contents,window_take some,stBuffInstOut,StoreBuffer.finishInstr,if_pos present]
  simp [window]

-- What the queue shows, and where it comes from.
inductive Shows (cfg : Config) (s : State α) (i : LoadStoreQueue.Input α) : Prop where
  | bypass (arrives : bypassLsq cfg s i = true) (same : nextInstrExe cfg s i = translatedInstr cfg s i)
  | load (away : bypassLsq cfg s i = false) (next : isNextLoad s = true) (free : stBuffCollision s = false)
      (same : nextInstrExe cfg s i = headInstr s)
  | buffered (away : bypassLsq cfg s i = false) (store : storeInSb s i = true)
      (same : nextInstrExe cfg s i = stBuffInstOut s)
  | store (away : bypassLsq cfg s i = false) (none : storeInSb s i = false) (store : storeInLsq s i = true)
      (same : nextInstrExe cfg s i = headInstr s)
  | nothing (same : nextInstrExe cfg s i = MemInstr.zero)

theorem shows (cfg : Config) (s : State α) (i : LoadStoreQueue.Input α) : Shows cfg s i := by
  cases bypass : bypassLsq cfg s i with
  | true => exact .bypass bypass (by simp [nextInstrExe,bypass])
  | false =>
    by_cases one : (loadInLsq cfg s && (headInstr s).translated) = true
    · have load := (Bool.and_eq_true_iff.mp one).1
      simp only [loadInLsq,Bool.and_eq_true,Bool.not_eq_true'] at load
      exact .load bypass load.1.1 load.1.2 (by simp [nextInstrExe,bypass,one])
    · cases two : storeInSb s i with
      | true => exact .buffered bypass two (by simp [nextInstrExe,bypass,one,two])
      | false =>
        by_cases three : (storeInLsq s i && (headInstr s).translated) = true
        · exact .store bypass two (Bool.and_eq_true_iff.mp three).1 (by simp [nextInstrExe,bypass,one,two,three])
        · by_cases four : (ioLoadInLsq cfg s && (headInstr s).translated) = true
          · have load := (Bool.and_eq_true_iff.mp four).1
            simp only [ioLoadInLsq,Bool.and_eq_true,Bool.not_eq_true'] at load
            exact .load bypass load.1.1 load.1.2 (by simp [nextInstrExe,bypass,one,two,three,four])
          · exact .nothing (by simp [nextInstrExe,bypass,one,two,three,four])

theorem buffer_member (some : 0 < s.storeBuffer.num.val) :
    stBuffInstOut s ∈ StoreBuffer.contents s.storeBuffer := by
  refine List.mem_of_mem_take (i := 1) ?_
  rw [buffer_front some]
  exact List.mem_singleton.mpr rfl

theorem shown_none (quiet : bypassLsq cfg s i = false) (one : loadInLsq cfg s = false) (two : storeInSb s i = false)
    (three : storeInLsq s i = false) (four : ioLoadInLsq cfg s = false) : nextInstrExe cfg s i = MemInstr.zero := by
  simp [nextInstrExe,quiet,one,two,three,four]

theorem shown_valid (valid : Valid s) (quiet : bypassLsq cfg s i = false)
    (some : loadInLsq cfg s = true ∨ storeInSb s i = true ∨ storeInLsq s i = true ∨ ioLoadInLsq cfg s = true) :
    (nextInstrExe cfg s i).valid = true := by
  have head (exe : 0 < s.numToExe.val) : (headInstr s).translated = true ∧ (headInstr s).valid = true := by
    rw [headInstr_eq]
    exact ⟨valid.translated 0 exe,valid.valid 0 (Nat.lt_of_lt_of_le exe (Nat.le_add_right _ _))⟩
  have buffer (store : storeInSb s i = true) : (stBuffInstOut s).valid = true := by
    exact valid.stores _ (buffer_member (storeInSb_some store))
  rw [nextInstrExe,quiet]
  by_cases one : loadInLsq cfg s = true
  · simp [one,head (loadInLsq_some one)]
  · by_cases two : storeInSb s i = true
    · simp [one,two,buffer two]
    · by_cases three : storeInLsq s i = true
      · simp [one,two,three,head (storeInLsq_some three)]
      · have four : ioLoadInLsq cfg s = true := by simpa [one,two,three] using some
        simp [one,two,three,four,head (ioLoadInLsq_some four)]

theorem reads_progress (enable : readEnable s i = true)
    (applies : loadInLsq cfg s = true ∨ storeInSb s i = true ∨ storeInLsq s i = true ∨ ioLoadInLsq cfg s = true) :
    (reads cfg s i).lsq = true ∨ (reads cfg s i).sb = true := by
  rcases reads_cases cfg s i with ⟨same,_⟩ | ⟨same,_⟩ | ⟨_,silent⟩
  · exact .inl (by rw [same])
  · exact .inr (by rw [same])
  · obtain ⟨one,two,three,four⟩ := silent enable
    simp [one,two,three,four] at applies

theorem issued_none (quiet : (arrivesAtEmpty s i && i.readNext) = false)
    (silent : readEnable s i = true →
      loadInLsq cfg s = false ∧ storeInSb s i = false ∧ storeInLsq s i = false ∧ ioLoadInLsq cfg s = false) :
    issued cfg s i = none := by
  cases next : i.readNext with
  | false => simp [issued,next]
  | true =>
      have away : arrivesAtEmpty s i = false := by simpa [next] using quiet
      have unshown : loadInLsq cfg s = false ∧ storeInSb s i = false ∧ storeInLsq s i = false ∧
          ioLoadInLsq cfg s = false := by
        cases empty : emptyInt s with
        | false => exact silent (by simp [readEnable,next,empty])
        | true =>
            obtain ⟨noExe,_,noStore⟩ := empty_parts empty
            refine ⟨?_,?_,?_,?_⟩
            · exact Bool.eq_false_iff.mpr fun shown => absurd (loadInLsq_some shown) (by omega)
            · exact Bool.eq_false_iff.mpr fun shown => absurd (storeInSb_some shown) (by simp [noStore])
            · exact Bool.eq_false_iff.mpr fun shown => absurd (storeInLsq_some shown) (by omega)
            · exact Bool.eq_false_iff.mpr fun shown => absurd (ioLoadInLsq_some shown) (by omega)
      obtain ⟨one,two,three,four⟩ := unshown
      rw [issued,shown_none (by simp [bypassLsq,away]) one two three four]
      simp [MemInstr.zero]

theorem issued_front (valid : Valid s) (quiet : (arrivesAtEmpty s i && i.readNext) = false) (straight : i.flush = false)
    (enable : readEnable s i = true) (source : loadInLsq cfg s = true ∨
      (storeInSb s i = false ∧ (storeInLsq s i = true ∨ (storeInLsq s i = false ∧ ioLoadInLsq cfg s = true)))) :
    issued cfg s i = some (cell s 0) := by
  obtain ⟨next,away⟩ := @reads_away _ cfg _ _ quiet enable
  have some : 0 < s.numToExe.val := by
    rcases source with load | ⟨_,store | ⟨_,load⟩⟩
    · exact loadInLsq_some load
    · exact storeInLsq_some store
    · exact ioLoadInLsq_some load
  have translated : (headInstr s).translated = true := by
    rw [headInstr_eq]
    exact valid.translated 0 some
  have present : (cell s 0).valid = true := valid.valid 0 (Nat.lt_of_lt_of_le some (Nat.le_add_right _ _))
  have shown : nextInstrExe cfg s i = cell s 0 := by
    rw [← headInstr_eq,nextInstrExe]
    rcases source with load | ⟨buffer,store | ⟨store,load⟩⟩
    · simp [away,load,translated]
    · simp [away,buffer,store,translated]
    · simp [away,buffer,store,load,translated]
  simp [issued,straight,next,shown,present]

theorem issued_buffered (valid : Valid s) (quiet : (arrivesAtEmpty s i && i.readNext) = false)
    (straight : i.flush = false) (enable : readEnable s i = true) (load : loadInLsq cfg s = false)
    (store : storeInSb s i = true) : issued cfg s i = some (stBuffInstOut s) := by
  obtain ⟨next,away⟩ := @reads_away _ cfg _ _ quiet enable
  have present := shown_valid valid away (.inr (.inl store))
  have shown : nextInstrExe cfg s i = stBuffInstOut s := by simp [nextInstrExe,away,load,store]
  rw [shown] at present
  simp [issued,straight,next,shown,present]

theorem issued_pass (offered : Offered cfg s i) (pass : (arrivesAtEmpty s i && i.readNext) = true) :
    issued cfg s i = some (translate cfg (lookup s i) i.instruction) := by
  obtain ⟨arrives,next⟩ := Bool.and_eq_true_iff.mp pass
  obtain ⟨_,_,incoming,_⟩ := arrives_parts arrives
  obtain ⟨present,_,free⟩ := incoming_parts incoming
  have straight := (full_parts free).2
  have define : cfg.bypass = true := by
    cases define : cfg.bypass with
    | true => rfl
    | false => simp [offered.apart define next] at arrives
  have shown : nextInstrExe cfg s i = translate cfg (lookup s i) i.instruction := by
    rw [nextInstrExe,bypassLsq,define,arrives,translatedInstr,instrToTranslate,incoming]
    rfl
  have valid : (translate cfg (lookup s i) i.instruction).valid = true := present
  simp [issued,straight,next,shown,valid]

theorem pass_reads (pass : (arrivesAtEmpty s i && i.readNext) = true) : reads cfg s i = ⟨false,false,false⟩ := by
  obtain ⟨arrives,_⟩ := Bool.and_eq_true_iff.mp pass
  obtain ⟨noExe,_,noStore⟩ := empty_parts (arrives_parts arrives).1
  rcases reads_cases cfg s i with ⟨_,_,source⟩ | ⟨_,_,_,store⟩ | ⟨⟨_,store,_⟩ | same,_⟩
  · rcases source with load | ⟨_,store | ⟨_,load⟩⟩
    · exact absurd (loadInLsq_some load) (by omega)
    · exact absurd (storeInLsq_some store) (by omega)
    · exact absurd (ioLoadInLsq_some load) (by omega)
  · exact absurd (storeInSb_some store) (by simp [noStore])
  · exact absurd (isNextStore_some store) (by omega)
  · exact same

theorem next_traffic (valid : Valid s) (offered : Offered cfg s i) (straight : i.flush = false)
    (came went : List (MemInstr α)) :
    trafficOf (came ++ (accepted s i).toList) (went ++ (issued cfg s i).toList) (next cfg s i) =
      (trafficOf came went s).step ((accepted s i).map erase) (move cfg s i) := by
  have queue := next_contents valid offered straight
  have buffer := @next_buffer _ cfg s i _ valid straight
  have arrival : ((accepted s i).map erase).toList = if i.instruction.valid then [erase i.instruction] else [] := by
    rw [accepted_eq offered]
    split <;> rfl
  have came' : (came ++ (accepted s i).toList).map erase = came.map erase ++ ((accepted s i).map erase).toList := by
    cases accepted s i <;> simp
  rw [writeEnable_eq valid offered] at queue
  rw [trafficOf,queue,buffer,came',move,popped]
  cases pass : arrivesAtEmpty s i && i.readNext with
  | true =>
      have present := (incoming_parts (arrives_parts (Bool.and_eq_true_iff.mp pass).1).2.2.1).1
      rw [pass_reads pass,issued_pass offered pass]
      simp [Traffic.step,trafficOf,arrival,present]
  | false =>
      have front (some : 0 < s.numToExe.val) (last : List (MemInstr α)) :
          ((contents s).map erase ++ last).drop 1 = ((contents s).map erase).drop 1 ++ last := by
        apply List.drop_append_of_le_length
        simp only [contents,List.length_map,window_length,held]
        omega
      rcases reads_cases cfg s i with ⟨same,enable,source⟩ | ⟨same,enable,load,store⟩ | ⟨⟨same,next,_⟩ | same,silent⟩
      · have some : 0 < s.numToExe.val := reads_lsq (by rw [same])
        rw [same,issued_front valid pass straight enable source]
        simp only [Traffic.step,trafficOf,Bool.not_false,Bool.and_true,Bool.false_eq_true,if_false,if_true,arrival,
          Bool.toNat_true,Bool.toNat_false,List.append_nil,List.drop_zero,← List.map_take,contents_front some]
        rw [front some]
        simp
      · rw [same,issued_buffered valid pass straight enable load store]
        simp only [Traffic.step,trafficOf,Bool.not_false,Bool.and_true,Bool.false_eq_true,if_false,if_true,arrival,
          Bool.toNat_true,Bool.toNat_false,List.append_nil,List.drop_zero,← List.map_take,
          buffer_front (storeInSb_some store)]
        simp
      · have some := isNextStore_some next
        rw [same,issued_none pass silent]
        simp only [Traffic.step,trafficOf,Bool.not_false,Bool.and_true,Bool.false_eq_true,if_false,if_true,arrival,
          Bool.toNat_true,Bool.toNat_false,List.drop_zero,← List.map_take,contents_front some]
        rw [front some]
        simp
      · rw [same,issued_none pass silent]
        simp [Traffic.step,trafficOf,arrival]

theorem move_legal (unblocked : i.readNext = true → blockedStore cfg s i = false)
    (came went : List (MemInstr α)) : Legal isLoad (trafficOf came went s) (move cfg s i) := by
  unfold move
  cases pass : arrivesAtEmpty s i && i.readNext with
  | true =>
      obtain ⟨noExe,noTranslate,noStore⟩ := empty_parts (arrives_parts (Bool.and_eq_true_iff.mp pass).1).1
      refine ⟨?_,?_⟩
      · simp [trafficOf,contents,held,noExe,noTranslate]
      · simp [trafficOf,StoreBuffer.contents,noStore]
  | false =>
      have first (some : 0 < s.numToExe.val) : (trafficOf came went s).queue.take 1 = [erase (headInstr s)] := by
        rw [trafficOf,← List.map_take,contents_front some,headInstr_eq]
        rfl
      rcases reads_cases cfg s i with ⟨same,enable,source⟩ | ⟨same,_⟩ | ⟨⟨same,next,_⟩ | same,_⟩
      · have some : 0 < s.numToExe.val := reads_lsq (by rw [same])
        simp only [same,Bool.false_eq_true,if_false,if_true]
        change ((trafficOf came went s).queue.take 1).filter (!isLoad ·) = [] ∨ (trafficOf came went s).buffer = []
        rw [first some]
        cases load : isLoad (headInstr s) with
        | true => exact .inl (by simp [show isLoad (erase (headInstr s)) = true from load])
        | false =>
            have notNext : isNextLoad s = false := by simp [isNextLoad,load]
            have notLoad : loadInLsq cfg s = false := by simp [loadInLsq,notNext]
            have notIo : ioLoadInLsq cfg s = false := by simp [ioLoadInLsq,notNext]
            obtain ⟨next,away⟩ := @reads_away _ cfg _ _ pass enable
            have clear := unblocked next
            have none : storeInSb s i = false := by
              rcases source with wrong | ⟨none,_⟩
              · simp [notLoad] at wrong
              · exact none
            have empty : stBuffEmpty s = true := by
              cases empty : stBuffEmpty s with
              | true => rfl
              | false => simp [blockedStore,away,notLoad,none,empty] at clear
            simp only [stBuffEmpty,StoreBuffer.empty,decide_eq_true_eq] at empty
            exact .inr (by simp [trafficOf,StoreBuffer.contents,empty])
      · simp only [same,Bool.false_eq_true,if_false,if_true]
        trivial
      · simp only [same,Bool.false_eq_true,if_false,if_true]
        change ((trafficOf came went s).queue.take 1).filter isLoad = []
        rw [first (isNextStore_some next)]
        have store : isLoad (erase (headInstr s)) = false := store_not_load (Bool.and_eq_true_iff.mp next).2
        simp [store]
      · simp only [same,Bool.false_eq_true,if_false]
        trivial

end Issue

end Sargantana.LsqTraffic
