import Sargantana.LsqRefinement

namespace Sargantana.LsqTranslation
open DracPkg LoadStoreQueue LsqRefinement

variable {α : Type} {cfg : Config} {s : State α} {i : LoadStoreQueue.Input α}

-- What the TLB answered, with the page it was asked for.
structure Answer where
  vpn : BitVec 28
  lookup : Lookup

def Own (cfg : Config) (s : State α) (arrivals : List (MemInstr α)) (answers : List Answer) (k : Nat) : Prop :=
  ∃ x, arrivals[k]? = some x ∧
    if k < s.numToExe.val then
      ∃ a, answers[k]? = some a ∧ a.vpn = x.dataRs1.extractLsb' 12 28 ∧ a.lookup.enable = true ∧
        cell s k = translate cfg a.lookup x
    else cell s k = x

-- The queued instructions as they were presented, and the answers for those that
-- are translated
structure Owned (cfg : Config) (s : State α) (arrivals : List (MemInstr α)) (answers : List Answer) : Prop where
  arrived : arrivals.length = held s
  answered : answers.length = s.numToExe.val
  own : ∀ k < held s, Own cfg s arrivals answers k

theorem answer_queued (valid : Valid s) (queued : translatesQueued s i = true) :
    requestVpn s i = (cell s s.numToExe.val).dataRs1.extractLsb' 12 28 := by
  rw [requestVpn,instrToTranslate,queued_outside queued,valid.tlbTail]
  rfl

theorem answer_incoming (incoming : translateIncoming s i = true) :
    requestVpn s i = i.instruction.dataRs1.extractLsb' 12 28 := by
  rw [requestVpn,instrToTranslate,incoming,if_pos rfl]

variable [Inhabited α]

def nextArrivals (cfg : Config) (s : State α) (i : LoadStoreQueue.Input α) (arrivals : List (MemInstr α)) :
    List (MemInstr α) :=
  (arrivals ++ if writeEnable s i then [i.instruction] else []).drop (popped cfg s i)

def nextAnswers (cfg : Config) (s : State α) (i : LoadStoreQueue.Input α) (answers : List Answer) : List Answer :=
  (answers ++ if translates cfg s i then [Answer.mk (requestVpn s i) (lookup s i)] else []).drop (popped cfg s i)

variable {arrivals : List (MemInstr α)} {answers : List Answer}

theorem next_own_old (valid : Valid s) (owned : Owned cfg s arrivals answers) (offered : Offered cfg s i)
    (straight : i.flush = false) (within : popped cfg s i + k < held s)
    (same : cell (next cfg s i) k = if translatesQueued s i = true ∧ popped cfg s i + k = s.numToExe.val then
      translate cfg (lookup s i) (cell s (popped cfg s i + k)) else cell s (popped cfg s i + k)) :
    Own cfg (next cfg s i) (nextArrivals cfg s i arrivals) (nextAnswers cfg s i answers) k := by
  have exe := @next_numToExe _ cfg s i _ valid straight
  have pops := @popped_le _ cfg s i _
  obtain ⟨x,arrival,old⟩ := owned.own _ within
  refine ⟨x,?_,?_⟩
  · rw [nextArrivals,List.getElem?_drop,List.getElem?_append_left (by rw [owned.arrived]; exact within)]
    exact arrival
  · rw [exe,nextAnswers,List.getElem?_drop]
    by_cases before : popped cfg s i + k < s.numToExe.val
    · rw [if_pos before] at old
      obtain ⟨a,answer,page,enable,done⟩ := old
      rw [if_pos (by omega),List.getElem?_append_left (by rw [owned.answered]; exact before)]
      exact ⟨a,answer,page,enable,by rw [same,if_neg (fun both => by omega),done]⟩
    · rw [if_neg before] at old
      by_cases here : translatesQueued s i = true ∧ popped cfg s i + k = s.numToExe.val
      · have taken := queued_translates valid offered here.1
        have enable := (translates_cases valid offered taken).1
        rw [taken,Bool.toNat_true,if_pos (by omega),List.getElem?_append_right (by rw [owned.answered]; omega),
          owned.answered,here.2,Nat.sub_self,if_pos rfl]
        refine ⟨_,rfl,?_,enable,?_⟩
        · rw [answer_queued valid here.1,← here.2,old]
        · rw [same,if_pos here,old]
      · have later : ¬ k < s.numToExe.val + (translates cfg s i).toNat - popped cfg s i := by
          cases taken : translates cfg s i with
          | false =>
              simp only [Bool.toNat_false]
              omega
          | true =>
              simp only [Bool.toNat_true]
              obtain ⟨_,⟨queued,_⟩ | ⟨_,_,whole⟩⟩ := translates_cases valid offered taken
              · have other : popped cfg s i + k ≠ s.numToExe.val := fun equal => here ⟨queued,equal⟩
                omega
              · omega
        rw [if_neg later,same,if_neg here,old]

theorem next_own_new (valid : Valid s) (owned : Owned cfg s arrivals answers) (offered : Offered cfg s i)
    (straight : i.flush = false) (last : popped cfg s i + k = held s) (write : writeEnable s i = true)
    (same : cell (next cfg s i) k = if translateEnable s i && translateIncoming s i then
      translate cfg (lookup s i) i.instruction else i.instruction) :
    Own cfg (next cfg s i) (nextArrivals cfg s i arrivals) (nextAnswers cfg s i answers) k := by
  have exe := @next_numToExe _ cfg s i _ valid straight
  have pops := @popped_le _ cfg s i _
  refine ⟨i.instruction,?_,?_⟩
  · rw [nextArrivals,List.getElem?_drop,List.getElem?_append_right (by rw [owned.arrived]; omega),owned.arrived,
      last,Nat.sub_self,if_pos write]
    rfl
  · rw [exe,nextAnswers,List.getElem?_drop]
    cases hit : translateEnable s i && translateIncoming s i with
    | true =>
        obtain ⟨enable,incoming⟩ := Bool.and_eq_true_iff.mp hit
        have none := (incoming_parts incoming).2.1
        have whole : held s = s.numToExe.val := by simp [held,none]
        have taken : translates cfg s i = true := by
          rw [translates_eq valid offered]
          simp [enable,incoming,write]
        rw [taken,Bool.toNat_true,if_pos (by omega),List.getElem?_append_right (by rw [owned.answered]; omega),
          owned.answered,last,whole,Nat.sub_self,if_pos rfl]
        exact ⟨_,rfl,answer_incoming incoming,enable,by rw [same,hit,if_pos rfl]⟩
    | false =>
        have later : ¬ k < s.numToExe.val + (translates cfg s i).toNat - popped cfg s i := by
          have most : s.numToExe.val ≤ held s := Nat.le_add_right _ _
          cases taken : translates cfg s i with
          | false =>
              simp only [Bool.toNat_false]
              omega
          | true =>
              simp only [Bool.toNat_true]
              obtain ⟨enable,⟨_,more⟩ | ⟨incoming,_⟩⟩ := translates_cases valid offered taken
              · omega
              · simp [enable,incoming] at hit
        rw [if_neg later,same,hit]
        rfl

theorem next_owned (valid : Valid s) (owned : Owned cfg s arrivals answers) (offered : Offered cfg s i)
    (straight : i.flush = false) :
    Owned cfg (next cfg s i) (nextArrivals cfg s i arrivals) (nextAnswers cfg s i answers) := by
  refine ⟨?_,?_,?_⟩
  · rw [next_held valid offered straight,nextArrivals,List.length_drop,List.length_append,owned.arrived]
    cases writeEnable s i <;> rfl
  · rw [next_numToExe valid straight,nextAnswers,List.length_drop,List.length_append,owned.answered]
    cases translates cfg s i <;> rfl
  · intro k inside
    rcases next_cell valid offered straight inside with ⟨within,same⟩ | ⟨last,write,same⟩
    · exact next_own_old valid owned offered straight within same
    · exact next_own_new valid owned offered straight last write same

end Sargantana.LsqTranslation
