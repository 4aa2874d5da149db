import Sargantana.Tlb
import Sargantana.PtwCache
import Sargantana.Lib.Sv39

-- What a TLB answers against what the page table says.
namespace Sargantana.TlbAgreement
open MmuPkg Ptw PtwCache Tlb StateMachine

def lastRead (mem : BitVec 40 → BitVec 64) (vpn : BitVec 27) : Nat → BitVec 44 → BitVec 64 × Nat
  | 0, ppn => (mem (pteAddr ppn vpn 2),2)
  | left + 1, ppn =>
    let count := 2 - (left + 1)
    let data := mem (pteAddr ppn vpn count)
    if !invalidPte data count && isPteTable (pteOf data count) then lastRead mem vpn left (pteOf data count).ppn else (data,count)

def respOf (vpn : BitVec 27) (data : BitVec 64) (count : Nat) : PtwTlbResp :=
  ⟨true,invalidPte data count || !isPteLeaf (pteOf data count),
    { pteOf data count with ppn := Ptw.respPpn (pteOf data count).ppn vpn count },count⟩

variable {mem : BitVec 40 → BitVec 64} {root : BitVec 44}

theorem walkFrom_lastRead (vpn : BitVec 27) (left : Nat) (ppn : BitVec 44) :
    walkFrom mem vpn left ppn = respOf vpn (lastRead mem vpn left ppn).1 (lastRead mem vpn left ppn).2 := by
  induction left generalizing ppn with
  | zero => rfl
  | succ left ih =>
    unfold walkFrom lastRead
    dsimp only
    split
    · exact ih _
    · rfl

theorem lastRead_level (vpn : BitVec 27) {left : Nat} (small : left ≤ 2) (ppn : BitVec 44) :
    2 - left ≤ (lastRead mem vpn left ppn).2 ∧ (lastRead mem vpn left ppn).2 ≤ 2 := by
  induction left generalizing ppn with
  | zero => exact ⟨Nat.le_refl _,Nat.le_refl _⟩
  | succ left ih =>
    unfold lastRead
    dsimp only
    split
    · have deeper := ih (by omega) (pteOf (mem (pteAddr ppn vpn (2 - (left + 1)))) (2 - (left + 1))).ppn
      omega
    · omega

-- Pages with the same tag at a level have the same tags and indices above it.
theorem vpnTag_above {v w : BitVec 27} {count level : Nat} (above : count ≤ level) (low : level ≤ 2)
    (same : vpnTag v level = vpnTag w level) : vpnTag v count = vpnTag w count := by
  unfold vpnTag at *
  have cut : ∀ n : Nat, n / 2 ^ (9 * (2 - count)) = n / 2 ^ (9 * (2 - level)) / 2 ^ (9 * (level - count)) := by
    intro n
    rw [Nat.div_div_eq_div_mul,← Nat.pow_add]
    congr 2
    omega
  rw [cut,cut w.toNat,same]

theorem vpnReq_above {v w : BitVec 27} {count level : Nat} (above : count ≤ level) (low : level ≤ 2)
    (same : vpnTag v level = vpnTag w level) : vpnReq v count = vpnReq w count := by
  have tags := vpnTag_above above low same
  unfold vpnTag at tags
  rw [vpnReq,vpnReq,tags]

-- The walks of two pages that share an entry read the same words.
theorem lastRead_shared {v w : BitVec 27} {left : Nat} (small : left ≤ 2) {ppn : BitVec 44}
    (same : vpnTag v (lastRead mem v left ppn).2 = vpnTag w (lastRead mem v left ppn).2) : lastRead mem w left ppn = lastRead mem v left ppn := by
  induction left generalizing ppn with
  | zero =>
    have index := vpnReq_above (Nat.le_refl 2) (Nat.le_refl 2) same
    simp only [lastRead,pteAddr,index]
  | succ left ih =>
    have bounds : 2 - (left + 1) ≤ (lastRead mem v (left + 1) ppn).2 ∧ (lastRead mem v (left + 1) ppn).2 ≤ 2 := lastRead_level v small ppn
    have index : vpnReq v (2 - (left + 1)) = vpnReq w (2 - (left + 1)) := vpnReq_above bounds.1 bounds.2 same
    have address : pteAddr ppn w (2 - (left + 1)) = pteAddr ppn v (2 - (left + 1)) := by rw [pteAddr,pteAddr,index]
    unfold lastRead at same ⊢
    dsimp only at same ⊢
    rw [address]
    split
    · rename_i down
      rw [if_pos down] at same
      exact ih (by omega) same
    · rfl

-- The TLB over a fixed page table: the responses it waits for are those of its request.
def machine (mem : BitVec 40 → BitVec 64) (root : BitVec 44) : Machine Tlb.State Tlb.Input where
  initial := Tlb.reset
  allowed s i := s.fsm = .waitResponse → i.ptw.resp.valid = true → i.ptw.resp = memoryWalk mem root s.tlbReqTmp.vpn
  step := Tlb.next

def leafOf (mem : BitVec 40 → BitVec 64) (root : BitVec 44) (vpn : BitVec 27) : BitVec 64 × Nat := lastRead mem vpn 2 root

def Walked (mem : BitVec 40 → BitVec 64) (root : BitVec 44) (e : Entry) : Prop :=
  ∃ tmp, e = filled tmp (memoryWalk mem root tmp.vpn)

structure Invariant (mem : BitVec 40 → BitVec 64) (root : BitVec 44) (s : Tlb.State) : Prop where
  walked : ∀ j, (s.entries j).nempty = true → Walked mem root (s.entries j)
  apart : ∀ j k, j ≠ k → (s.entries k).nempty = true → hitsEntry (s.entries j) (s.entries k).asid (s.entries k).vpn = false
  pending : s.fsm = .sendRequest ∨ s.fsm = .waitResponse → ∀ j, hitsEntry (s.entries j) s.tlbReqTmp.asid s.tlbReqTmp.vpn = false

theorem hitsEntry_iff {e : Entry} {asid : BitVec 7} {vpn : BitVec 27} : hitsEntry e asid vpn = true ↔
    e.nempty = true ∧ e.asid = asid ∧ e.level ≤ 2 ∧ vpnTag e.vpn e.level = vpnTag vpn e.level := by
  simp only [hitsEntry,hitsAt,Bool.or_eq_true,Bool.and_eq_true,decide_eq_true_eq,beq_iff_eq]
  constructor
  · rintro ((⟨⟨⟨tag,asid⟩,some⟩,level⟩ | ⟨⟨⟨tag,asid⟩,some⟩,level⟩) | ⟨⟨⟨tag,asid⟩,some⟩,level⟩)
    all_goals exact ⟨some,asid,by omega,level ▸ tag⟩
  · rintro ⟨some,asid,low,tag⟩
    obtain level | level | level : e.level = 0 ∨ e.level = 1 ∨ e.level = 2 := by omega
    · exact .inl (.inl ⟨⟨⟨level ▸ tag,asid⟩,some⟩,level⟩)
    · exact .inl (.inr ⟨⟨⟨level ▸ tag,asid⟩,some⟩,level⟩)
    · exact .inr ⟨⟨⟨level ▸ tag,asid⟩,some⟩,level⟩

theorem walked_level {e : Entry} (walked : Walked mem root e) : e.level = (leafOf mem root e.vpn).2 := by
  obtain ⟨tmp,rfl⟩ := walked
  change (memoryWalk mem root tmp.vpn).level = _
  rw [memoryWalk,walkFrom_lastRead]
  rfl

theorem hit_leaf {e : Entry} (walked : Walked mem root e) {asid : BitVec 7} {vpn : BitVec 27} (hit : hitsEntry e asid vpn = true) :
    leafOf mem root vpn = leafOf mem root e.vpn := by
  obtain ⟨_,_,_,tag⟩ := hitsEntry_iff.mp hit
  rw [walked_level walked] at tag
  exact lastRead_shared (Nat.le_refl 2) tag

-- Two entries that match a page match each other.
theorem hits_meet {e f : Entry} (one : Walked mem root e) (two : Walked mem root f) {asid : BitVec 7} {vpn : BitVec 27}
    (hit : hitsEntry e asid vpn = true) (other : hitsEntry f asid vpn = true) : hitsEntry e f.asid f.vpn = true := by
  have level : e.level = f.level := by
    rw [walked_level one,walked_level two,← hit_leaf one hit,hit_leaf two other]
  obtain ⟨some,mine,low,tag⟩ := hitsEntry_iff.mp hit
  obtain ⟨_,theirs,_,mark⟩ := hitsEntry_iff.mp other
  exact hitsEntry_iff.mpr ⟨some,mine.trans theirs.symm,low,by rw [tag,level,mark]⟩

variable {s : Tlb.State} {i : Tlb.Input}

theorem zero_misses (asid : BitVec 7) (vpn : BitVec 27) : hitsEntry .zero asid vpn = false := by
  simp [hitsEntry,hitsAt,Entry.zero]

theorem kept_misses (quiet : writeTlb s i = false) {asid : BitVec 7} {vpn : BitVec 27} {j : Fin 8}
    (missed : hitsEntry (s.entries j) asid vpn = false) : hitsEntry ((Tlb.next s i).entries j) asid vpn = false := by
  rcases entries_shrink (.inr quiet) j with gone | same
  · rw [gone]
    exact zero_misses asid vpn
  · rw [same]
    exact missed

-- The request that is kept after a miss matches no entry.
theorem pending_next (pending : s.fsm = .sendRequest ∨ s.fsm = .waitResponse → ∀ j, hitsEntry (s.entries j) s.tlbReqTmp.asid s.tlbReqTmp.vpn = false)
    (busy : (Tlb.next s i).fsm = .sendRequest ∨ (Tlb.next s i).fsm = .waitResponse) :
    writeTlb s i = false ∧ ∀ j, hitsEntry (s.entries j) (Tlb.next s i).tlbReqTmp.asid (Tlb.next s i).tlbReqTmp.vpn = false := by
  change Tlb.nextFsm s i = _ ∨ Tlb.nextFsm s i = _ at busy
  have tmp : (Tlb.next s i).tlbReqTmp =
    if storeTlbReq s i then ⟨i.req.vpn.setWidth 27,i.req.asid,i.req.store,i.req.instruction,evictionIdx s⟩ else s.tlbReqTmp := rfl
  cases fsm : s.fsm with
  | idle =>
    refine ⟨by simp [writeTlb,fsm],?_⟩
    have miss : i.req.valid = true ∧ tlbMiss s i = true := by
      simp only [Tlb.nextFsm,fsm] at busy
      split at busy
      · rename_i both
        simpa using both
      · rcases busy with no | no <;> cases no
    have kept : storeTlbReq s i = true := by simp [storeTlbReq,cleanTlb,fsm,miss]
    rw [tmp,if_pos kept]
    intro j
    have none : hitCam s i = false := by
      have away := miss.2
      simp only [tlbMiss,Bool.and_eq_true,Bool.not_eq_true'] at away
      exact away.2
    rw [hitCam,List.any_eq_false] at none
    have missed := none j (List.mem_finRange j)
    rw [Bool.not_eq_true] at missed
    exact missed
  | sendRequest =>
    rw [tmp,if_neg (by simp [storeTlbReq,cleanTlb,fsm])]
    exact ⟨by simp [writeTlb,fsm],pending (.inl fsm)⟩
  | waitResponse =>
    rw [tmp,if_neg (by simp [storeTlbReq,cleanTlb,fsm])]
    refine ⟨?_,pending (.inr fsm)⟩
    simp only [Tlb.nextFsm,fsm] at busy
    cases came : i.ptw.resp.valid with
    | false => simp [writeTlb,came]
    | true => simp [came] at busy
  | invalidatedWaitResponse =>
    simp only [Tlb.nextFsm,fsm] at busy
    split at busy <;> rcases busy with no | no <;> cases no

theorem write_entries (writes : writeTlb s i = true) (used : ¬ (i.ptw.invalidateTlb || cleanTlb s i) = true) :
    (Tlb.next s i).entries = Function.update s.entries s.tlbReqTmp.writeIdx (filled s.tlbReqTmp i.ptw.resp) := by
  change nextEntries s i = _
  rw [nextEntries,if_neg used,if_pos writes]

theorem shrunk_walked (inv : Invariant mem root s) (shrinks : ∀ j, (Tlb.next s i).entries j = .zero ∨ (Tlb.next s i).entries j = s.entries j) :
    (∀ j, ((Tlb.next s i).entries j).nempty = true → Walked mem root ((Tlb.next s i).entries j)) ∧
    ∀ j k, j ≠ k → ((Tlb.next s i).entries k).nempty = true →
      hitsEntry ((Tlb.next s i).entries j) ((Tlb.next s i).entries k).asid ((Tlb.next s i).entries k).vpn = false := by
  refine ⟨?_,?_⟩
  · intro j some
    rcases shrinks j with gone | same
    · rw [gone] at some
      cases some
    · rw [same] at some ⊢
      exact inv.walked j some
  · intro j k other some
    rcases shrinks k with gone | same
    · rw [gone] at some
      cases some
    · rw [same] at some ⊢
      rcases shrinks j with none | here
      · rw [none]
        exact zero_misses _ _
      · rw [here]
        exact inv.apart j k other some

theorem written_apart (inv : Invariant mem root s) (writes : writeTlb s i = true)
    (answer : i.ptw.resp = memoryWalk mem root s.tlbReqTmp.vpn) {k : Fin 8} (some : (s.entries k).nempty = true) :
    hitsEntry (s.entries k) s.tlbReqTmp.asid s.tlbReqTmp.vpn = false ∧
      hitsEntry (filled s.tlbReqTmp i.ptw.resp) (s.entries k).asid (s.entries k).vpn = false := by
  have waits : s.fsm = .waitResponse := by
    simp only [writeTlb,Bool.and_eq_true,decide_eq_true_eq] at writes
    exact writes.1
  have missed := inv.pending (.inr waits) k
  refine ⟨missed,?_⟩
  rw [Bool.eq_false_iff]
  intro hit
  have new : Walked mem root (filled s.tlbReqTmp i.ptw.resp) := ⟨s.tlbReqTmp,by rw [answer]⟩
  have old := inv.walked k some
  have self : hitsEntry (s.entries k) (s.entries k).asid (s.entries k).vpn = true := by
    refine hitsEntry_iff.mpr ⟨some,rfl,?_,rfl⟩
    rw [walked_level old]
    exact (lastRead_level _ (Nat.le_refl 2) _).2
  have meets := hits_meet old new self hit
  change hitsEntry (s.entries k) s.tlbReqTmp.asid s.tlbReqTmp.vpn = true at meets
  rw [missed] at meets
  cases meets

theorem invariant_next (inv : Invariant mem root s) (answers : (machine mem root).allowed s i) : Invariant mem root (Tlb.next s i) := by
  have pending : (Tlb.next s i).fsm = .sendRequest ∨ (Tlb.next s i).fsm = .waitResponse →
      ∀ j, hitsEntry ((Tlb.next s i).entries j) (Tlb.next s i).tlbReqTmp.asid (Tlb.next s i).tlbReqTmp.vpn = false := by
    intro busy j
    obtain ⟨quiet,missed⟩ := pending_next inv.pending busy
    exact kept_misses quiet (missed j)
  by_cases clear : (i.ptw.invalidateTlb || cleanTlb s i) = true
  · obtain ⟨walked,apart⟩ := shrunk_walked inv (entries_shrink (.inl clear))
    exact ⟨walked,apart,pending⟩
  · cases writes : writeTlb s i with
    | false =>
      obtain ⟨walked,apart⟩ := shrunk_walked inv (entries_shrink (.inr writes))
      exact ⟨walked,apart,pending⟩
    | true =>
      have cells := write_entries writes clear
      have answer : i.ptw.resp = memoryWalk mem root s.tlbReqTmp.vpn := by
        simp only [writeTlb,Bool.and_eq_true,decide_eq_true_eq] at writes
        exact answers writes.1 writes.2
      refine ⟨?_,?_,pending⟩
      · intro j some
        rw [cells] at some ⊢
        by_cases here : j = s.tlbReqTmp.writeIdx
        · rw [here,Function.update_self]
          exact ⟨s.tlbReqTmp,by rw [answer]⟩
        · rw [Function.update_of_ne here] at some ⊢
          exact inv.walked j some
      · intro j k other some
        rw [cells] at some ⊢
        by_cases new : k = s.tlbReqTmp.writeIdx
        · rw [new,Function.update_self,Function.update_of_ne (fun here => other (here.trans new.symm))]
          have waits : s.fsm = .waitResponse := by
            simp only [writeTlb,Bool.and_eq_true,decide_eq_true_eq] at writes
            exact writes.1
          exact inv.pending (.inr waits) j
        · rw [Function.update_of_ne new] at some ⊢
          by_cases here : j = s.tlbReqTmp.writeIdx
          · rw [here,Function.update_self]
            exact (written_apart inv writes answer some).2
          · rw [Function.update_of_ne here]
            exact inv.apart j k other some

variable {inputs : Nat → Tlb.Input}

theorem trace_invariant (admits : Admits (machine mem root) inputs) (u : Nat) : Invariant mem root (trace (machine mem root) inputs u) := by
  induction u with
  | zero =>
    refine ⟨?_,?_,?_⟩
    · intro j some
      cases some
    · intro j k _ some
      cases some
    · rintro (busy | busy) <;> cases busy
  | succ u ih => exact invariant_next ih (admits u)

theorem match_unique (inv : Invariant mem root s) {j k : Fin 8} (one : hitsCam s i j = true) (two : hitsCam s i k = true) : j = k := by
  by_contra other
  have some := (hitsEntry_iff.mp two).1
  have meets := hits_meet (inv.walked j (hitsEntry_iff.mp one).1) (inv.walked k some) one two
  rw [inv.apart j k other some] at meets
  cases meets

theorem hitCam_entry (hit : hitCam s i = true) : hitsCam s i (Tlb.hitIdx s i) = true := by
  rw [hitCam,List.any_eq_true] at hit
  obtain ⟨j,inside,here⟩ := hit
  unfold Tlb.hitIdx
  cases found : (List.finRange 8).find? (hitsCam s i) with
  | none =>
    have away := List.find?_eq_none.mp found j inside
    exact absurd here away
  | some k => exact List.find?_some found

-- Physical memory behind the forty address bits of the data cache
def bus (memory : Nat → BitVec 64) (address : BitVec 40) : BitVec 64 := memory address.toNat

-- A valid entry does not give write without read, is no leaf with reserved bits, and its page
-- is one that forty address bits reach.
structure SaneWord (word : BitVec 64) : Prop where
  writable : Sv39.V word = true → Sv39.W word = true → Sv39.R word = true
  plain : Sv39.V word = true → (Sv39.R word || Sv39.W word || Sv39.X word) = true → Sv39.reserved word = false
  near : Sv39.V word = true → Sv39.ppn word < 2 ^ 28

-- The entries that the walk of a page reads are so.
def Sane (memory : Nat → BitVec 64) (vpn : Nat) : Nat → Nat → Prop
  | 0, table => SaneWord (memory (table * 4096 + vpn / Sv39.span 2 % 512 * 8))
  | left + 1, table =>
    let word := memory (table * 4096 + vpn / Sv39.span (2 - (left + 1)) % 512 * 8)
    SaneWord word ∧ ((Sv39.V word && !Sv39.X word && !Sv39.W word && !Sv39.R word) = true → Sane memory vpn left (Sv39.ppn word))

theorem pte_ppn (word : BitVec 64) (count : Nat) : (pteOf word count).ppn.toNat = Sv39.ppn word := by
  simp [pteOf,Sv39.ppn,BitVec.toNat_setWidth,Nat.shiftRight_eq_div_pow]

theorem pte_table (word : BitVec 64) (count : Nat) : isPteTable (pteOf word count) = (Sv39.V word && !Sv39.X word && !Sv39.W word && !Sv39.R word) := by
  rw [isPteTable_level]
  simp only [isPteTable,pteOf,Sv39.V,Sv39.X,Sv39.W,Sv39.R]
  cases word.getLsbD 1 <;> cases word.getLsbD 2 <;> cases word.getLsbD 3 <;> simp

theorem pte_valid (word : BitVec 64) (count : Nat) : (pteOf word count).v =
    (Sv39.V word && !((Sv39.R word || Sv39.W word || Sv39.X word) && decide (Sv39.ppn word % Sv39.span count ≠ 0))) := by
  have page := pte_ppn word count
  simp only [pteOf] at page ⊢
  rw [page]
  rfl

theorem pte_invalid (word : BitVec 64) (count : Nat) : invalidPte word count =
    (Sv39.reserved word || ((Sv39.V word && !Sv39.X word && !Sv39.W word && !Sv39.R word) && (Sv39.D word || Sv39.A word || Sv39.U word))) := by
  rw [invalidPte,pte_table]
  rfl

theorem pteAddr_toNat {ppn : BitVec 44} (near : ppn.toNat < 2 ^ 28) (vpn : BitVec 27) (count : Nat) :
    (pteAddr ppn vpn count).toNat = ppn.toNat * 4096 + vpn.toNat / Sv39.span count % 512 * 8 := by
  rw [pteAddr,BitVec.toNat_ofNat]
  change (ppn.toNat * 4096 + vpn.toNat / Sv39.span count % 512 * 8) % 2 ^ 40 = _
  omega

variable {memory : Nat → BitVec 64}

-- What the walk ends with, as the architecture reads the same word
def mappingOf (word : BitVec 64) (level : Nat) : Sv39.Mapping :=
  if invalidPte word level || !isPteLeaf (pteOf word level) then .fault else .page word level

theorem last_mapping {word : BitVec 64} (sane : SaneWord word) (count : Nat) : Sv39.ending word count = mappingOf word count := by
  unfold Sv39.ending mappingOf isPteLeaf
  rw [pte_invalid,pte_valid]
  have writable := sane.writable
  change _ = if (_ || !(_ && (Sv39.X word || Sv39.W word || Sv39.R word))) = true then _ else _
  cases hv : Sv39.V word <;> cases hr : Sv39.R word <;> cases hw : Sv39.W word <;> cases hx : Sv39.X word <;>
    cases hs : Sv39.reserved word <;> simp_all

-- The walk reads on exactly if the architecture does.
theorem descends_walks (word : BitVec 64) (count : Nat) : Sv39.descends word count =
    (!invalidPte word count && isPteTable (pteOf word count) && decide (count < 2)) := by
  rw [pte_invalid,pte_table,Sv39.descends]
  cases Sv39.V word <;> cases Sv39.R word <;> cases Sv39.W word <;> cases Sv39.X word <;> cases Sv39.reserved word <;>
    cases (Sv39.D word || Sv39.A word || Sv39.U word) <;> simp

theorem descends_table {word : BitVec 64} {level : Nat} (down : Sv39.descends word level = true) :
    Sv39.V word = true ∧ (Sv39.V word && !Sv39.X word && !Sv39.W word && !Sv39.R word) = true := by
  simp only [Sv39.descends,Bool.and_eq_true,Bool.not_eq_true',Bool.or_eq_false_iff] at down
  simp [down]

theorem walk_matches (vpn : BitVec 27) {left : Nat} (small : left ≤ 2) {ppn : BitVec 44} (near : ppn.toNat < 2 ^ 28)
    (sane : Sane memory vpn.toNat left ppn.toNat) :
    Sv39.walk memory vpn.toNat left ppn.toNat = mappingOf (lastRead (bus memory) vpn left ppn).1 (lastRead (bus memory) vpn left ppn).2 ∧
      SaneWord (lastRead (bus memory) vpn left ppn).1 := by
  induction left generalizing ppn with
  | zero =>
    have read : memory (ppn.toNat * 4096 + vpn.toNat / Sv39.span 2 % 512 * 8) = bus memory (pteAddr ppn vpn 2) := by
      rw [bus,pteAddr_toNat near]
    have word : SaneWord (bus memory (pteAddr ppn vpn 2)) := by rw [← read]; exact sane
    have stops : Sv39.descends (bus memory (pteAddr ppn vpn 2)) 2 = false := by rw [descends_walks]; exact Bool.and_false _
    rw [Sv39.walk_step,Nat.sub_zero,read,stops,if_neg Bool.false_ne_true,lastRead]
    exact ⟨last_mapping word 2,word⟩
  | succ left ih =>
    have read : memory (ppn.toNat * 4096 + vpn.toNat / Sv39.span (2 - (left + 1)) % 512 * 8) =
        bus memory (pteAddr ppn vpn (2 - (left + 1))) := by
      rw [bus,pteAddr_toNat near]
    obtain ⟨word,below⟩ := sane
    rw [read] at word below
    have step := descends_walks (bus memory (pteAddr ppn vpn (2 - (left + 1)))) (2 - (left + 1))
    rw [decide_eq_true (by omega),Bool.and_true] at step
    rw [Sv39.walk_step,read,Nat.add_sub_cancel]
    unfold lastRead
    dsimp only
    rw [← step]
    generalize bus memory (pteAddr ppn vpn (2 - (left + 1))) = data at *
    cases down : Sv39.descends data (2 - (left + 1)) with
    | true =>
      obtain ⟨valid,table⟩ := descends_table down
      have close : (pteOf data (2 - (left + 1))).ppn.toNat < 2 ^ 28 := by
        rw [pte_ppn]
        exact word.near valid
      have deeper := ih (by omega) close (by rw [pte_ppn]; exact below table)
      rw [pte_ppn] at deeper
      exact deeper
    | false => exact ⟨last_mapping word _,word⟩

theorem walked_perms {e : Entry} (walked : Walked (bus memory) root e) {word : BitVec 64} {level : Nat}
    (leaf : leafOf (bus memory) root e.vpn = (word,level)) :
    (mappingOf word level = .fault ∧ e.valid = false ∧ e.perms = ⟨false,false,false,false,false,false⟩) ∨
    (mappingOf word level = .page word level ∧ e.valid = true ∧ e.access = Sv39.A word ∧ e.dirty = Sv39.D word ∧
      e.perms = ⟨Sv39.R word && Sv39.U word,Sv39.W word && Sv39.U word,Sv39.X word && Sv39.U word,
        Sv39.R word && !Sv39.U word,Sv39.W word && !Sv39.U word,Sv39.X word && !Sv39.U word⟩) ∨
    (mappingOf word level = .fault ∧ isPteLeaf (pteOf word level) = true) := by
  obtain ⟨tmp,rfl⟩ := walked
  have answer : memoryWalk (bus memory) root tmp.vpn = respOf tmp.vpn word level := by
    rw [memoryWalk,walkFrom_lastRead]
    change leafOf (bus memory) root tmp.vpn = _ at leaf
    unfold leafOf at leaf
    rw [leaf]
  rw [answer]
  cases shape : isPteLeaf (pteOf word level) with
  | false =>
    left
    refine ⟨by simp [mappingOf,shape],by simp [filled,respOf,shape],?_⟩
    simp only [isPteLeaf,Bool.and_eq_false_iff,Bool.or_eq_false_iff] at shape
    rcases shape with off | ⟨⟨hx,hw⟩,hr⟩
    · simp [filled,respOf,off]
    · simp [filled,respOf,hx,hw,hr]
  | true =>
    cases bad : invalidPte word level with
    | true => exact .inr (.inr ⟨by simp [mappingOf,bad],rfl⟩)
    | false =>
      refine .inr (.inl ⟨by simp [mappingOf,bad,shape],by simp [filled,respOf,bad,shape],rfl,rfl,?_⟩)
      have on : (pteOf word level).v = true := by
        simp only [isPteLeaf,Bool.and_eq_true] at shape
        exact shape.1
      simp only [filled,respOf,on,Bool.and_true]
      rfl

theorem sane_leaf {word : BitVec 64} {level : Nat} (sane : SaneWord word) (shape : isPteLeaf (pteOf word level) = true) :
    mappingOf word level ≠ .fault := by
  have plain := sane.plain
  have bad : invalidPte word level = false := by
    rw [isPteLeaf,pte_valid] at shape
    change (_ && (Sv39.X word || Sv39.W word || Sv39.R word)) = true at shape
    rw [pte_invalid]
    cases hv : Sv39.V word <;> cases hr : Sv39.R word <;> cases hw : Sv39.W word <;> cases hx : Sv39.X word <;> simp_all
  simp [mappingOf,bad,shape]

-- The store flag of an access that is no store leaves the D bit out.
def deniesWrite (m : Sv39.Mapping) (supervisor sum mxr : Bool) : Bool :=
  match m with
  | .fault => true
  | .page word _ => !Sv39.allows word supervisor sum mxr .store

-- The response of the TLB against a mapping
structure Agrees (m : Sv39.Mapping) (s : Tlb.State) (i : Tlb.Input) : Prop where
  ppn : ∀ word level, m = .page word level → i.req.passthrough = false →
    (Tlb.respPpn s i).toNat = Sv39.physical word level (i.req.vpn.setWidth 27).toNat
  fetch : tlbHit s i = true → xcptIf s i = Sv39.faults m (svPrivLvl i) i.ptw.sum i.ptw.mxr .fetch
  load : tlbHit s i = true → xcptLd s i = Sv39.faults m (svPrivLvl i) i.ptw.sum i.ptw.mxr .load
  store : i.req.store = true → xcptSt s i = Sv39.faults m (svPrivLvl i) i.ptw.sum i.ptw.mxr .store
  write : i.req.store = false → xcptSt s i = deniesWrite m (svPrivLvl i) i.ptw.sum i.ptw.mxr

theorem hitLvl_entry (alone : ∀ j k, hitsCam s i j = true → hitsCam s i k = true → j = k) (hit : hitCam s i = true) (lvl : Nat) (small : lvl ≤ 2) :
    hitLvl lvl s i = decide ((hitEntry s i).level = lvl) := by
  have here := hitCam_entry hit
  obtain ⟨some,asid,_,tag⟩ := hitsEntry_iff.mp here
  rw [Bool.eq_iff_iff,decide_eq_true_eq,hitLvl,List.any_eq_true]
  constructor
  · rintro ⟨j,_,found⟩
    have level : (s.entries j).level = lvl := by
      simp only [hitsAt,Bool.and_eq_true,decide_eq_true_eq] at found
      exact found.2
    have cam : hitsCam s i j = true := by
      simp only [hitsAt,Bool.and_eq_true,decide_eq_true_eq,beq_iff_eq] at found
      exact hitsEntry_iff.mpr ⟨found.1.2,found.1.1.2,by omega,by rw [level]; exact found.1.1.1⟩
    rw [alone j _ cam here] at level
    exact level
  · intro level
    refine ⟨Tlb.hitIdx s i,List.mem_finRange _,?_⟩
    change (s.entries (Tlb.hitIdx s i)).level = lvl at level
    simp only [hitsAt,Bool.and_eq_true,decide_eq_true_eq,beq_iff_eq]
    exact ⟨⟨⟨level ▸ tag,asid⟩,some⟩,level⟩

theorem respPpn_level (alone : ∀ j k, hitsCam s i j = true → hitsCam s i k = true → j = k) (hit : hitCam s i = true) (on : i.vmEnable = true) (plain : i.req.passthrough = false)
    (low : (hitEntry s i).level ≤ 2) : Tlb.respPpn s i = ppnAt (hitEntry s i).level (hitEntry s i) i.req.vpn := by
  simp only [Tlb.respPpn,on,plain,hitLvl_entry alone hit 0 (by omega),hitLvl_entry alone hit 1 (by omega),hitLvl_entry alone hit 2 (by omega)]
  obtain level | level | level : (hitEntry s i).level = 0 ∨ (hitEntry s i).level = 1 ∨ (hitEntry s i).level = 2 := by omega
  all_goals simp [level,masked]

-- The page number of an entry has lost what lies behind the forty bits of pte_addr.
theorem page_truncated {page : BitVec 44} {level : Nat} (low : level ≤ 2) (aligned : page.toNat % Sv39.span level = 0)
    (v : BitVec 27) (q : BitVec 28) {e : Entry} (stored : e.ppn = Ptw.respPpn page v level) :
    (ppnAt level e q).toNat = page.toNat % 2 ^ 28 + (q.setWidth 27).toNat % Sv39.span level := by
  have small := q.isLt
  unfold ppnAt
  rw [stored,Ptw.respPpn]
  rw [BitVec.toNat_ofNat,BitVec.toNat_ofNat,BitVec.toNat_setWidth]
  unfold Sv39.span at aligned ⊢
  obtain rfl | rfl | rfl : level = 0 ∨ level = 1 ∨ level = 2 := by omega
  all_goals
    simp only [Nat.reduceSub,Nat.reduceMul,Nat.reducePow] at *
    omega

theorem page_number {page : BitVec 44} {level : Nat} (low : level ≤ 2) (near : page.toNat < 2 ^ 28) (aligned : page.toNat % Sv39.span level = 0)
    (v : BitVec 27) (q : BitVec 28) {e : Entry} (stored : e.ppn = Ptw.respPpn page v level) :
    (ppnAt level e q).toNat = page.toNat + (q.setWidth 27).toNat % Sv39.span level := by
  rw [page_truncated low aligned v q stored,Nat.mod_eq_of_lt near]

theorem page_aligned {word : BitVec 64} {level : Nat} (page : mappingOf word level = .page word level) :
    Sv39.V word = true ∧ Sv39.ppn word % Sv39.span level = 0 := by
  have shape : isPteLeaf (pteOf word level) = true := by
    unfold mappingOf at page
    split at page
    · cases page
    · rename_i fine
      simp only [Bool.or_eq_true,Bool.not_eq_true',not_or,Bool.not_eq_false] at fine
      exact fine.2
  rw [isPteLeaf,pte_valid] at shape
  change (_ && (Sv39.X word || Sv39.W word || Sv39.R word)) = true at shape
  cases hv : Sv39.V word <;> cases hr : Sv39.R word <;> cases hw : Sv39.W word <;> cases hx : Sv39.X word <;> simp_all

theorem rights (word : BitVec 64) (i : Tlb.Input) :
    let p : Perms := ⟨Sv39.R word && Sv39.U word,Sv39.W word && Sv39.U word,Sv39.X word && Sv39.U word,
      Sv39.R word && !Sv39.U word,Sv39.W word && !Sv39.U word,Sv39.X word && !Sv39.U word⟩
    (execOk p i && Sv39.A word) = Sv39.allows word (svPrivLvl i) i.ptw.sum i.ptw.mxr .fetch ∧
      (readOk p i && Sv39.A word) = Sv39.allows word (svPrivLvl i) i.ptw.sum i.ptw.mxr .load ∧
      (writeOk p i && Sv39.A word) = Sv39.allows word (svPrivLvl i) i.ptw.sum i.ptw.mxr .store := by
  dsimp only
  simp only [execOk,readOk,writeOk,Sv39.allows]
  cases svPrivLvl i <;> cases i.ptw.sum <;> cases i.ptw.mxr <;> cases Sv39.U word <;> cases Sv39.R word <;> cases Sv39.W word <;>
    cases Sv39.X word <;> simp

theorem flags_hit (on : i.vmEnable = true) (hit : hitCam s i = true) :
    xcptIf s i = ((tlbHit s i && !execOk (hitEntry s i).perms i) || accessIsZero (hitEntry s i)) ∧
      xcptLd s i = ((tlbHit s i && !readOk (hitEntry s i).perms i) || accessIsZero (hitEntry s i)) ∧
      xcptSt s i = ((storeHit (hitEntry s i) i && !writeOk (hitEntry s i).perms i) || accessIsZero (hitEntry s i) ||
        dirtyIsZero (hitEntry s i) i) := by
  refine ⟨?_,?_,?_⟩
  · rw [xcptIf,on,Bool.true_and]
  · rw [xcptLd,on,Bool.true_and]
  · rw [xcptSt,tlbHit,on,hit,Bool.true_and,Bool.true_and,Bool.true_and]

theorem fault_agrees (on : i.vmEnable = true) (hit : hitCam s i = true)
    (perms : (hitEntry s i).perms = ⟨false,false,false,false,false,false⟩) : Agrees .fault s i := by
  obtain ⟨flagIf,flagLd,flagSt⟩ := flags_hit on hit
  have denied : execOk (hitEntry s i).perms i = false ∧ readOk (hitEntry s i).perms i = false ∧ writeOk (hitEntry s i).perms i = false := by
    rw [perms]
    simp only [execOk,readOk,writeOk]
    cases svPrivLvl i <;> cases i.ptw.sum <;> cases i.ptw.mxr <;> simp
  have opens : storeHit (hitEntry s i) i = true := by simp [storeHit,denied.2.2]
  refine ⟨?_,?_,?_,?_,?_⟩
  · intro w l page
    cases page
  · intro hits
    rw [flagIf,hits,denied.1]
    rfl
  · intro hits
    rw [flagLd,hits,denied.2.1]
    rfl
  · intro _
    rw [flagSt,opens,denied.2.2]
    rfl
  · intro _
    rw [flagSt,opens,denied.2.2]
    rfl

theorem page_agrees {word : BitVec 64} {level : Nat} (on : i.vmEnable = true) (hit : hitCam s i = true)
    (valid : (hitEntry s i).valid = true) (access : (hitEntry s i).access = Sv39.A word) (dirty : (hitEntry s i).dirty = Sv39.D word)
    (perms : (hitEntry s i).perms = ⟨Sv39.R word && Sv39.U word,Sv39.W word && Sv39.U word,Sv39.X word && Sv39.U word,
      Sv39.R word && !Sv39.U word,Sv39.W word && !Sv39.U word,Sv39.X word && !Sv39.U word⟩)
    (ppn : i.req.passthrough = false → (Tlb.respPpn s i).toNat = Sv39.physical word level (i.req.vpn.setWidth 27).toNat) :
    Agrees (.page word level) s i := by
  obtain ⟨flagIf,flagLd,flagSt⟩ := flags_hit on hit
  obtain ⟨exec,read,write⟩ := rights word i
  rw [← perms] at exec read write
  have zero : accessIsZero (hitEntry s i) = !Sv39.A word := by rw [accessIsZero,access,valid,Bool.and_true]
  refine ⟨?_,?_,?_,?_,?_⟩
  · intro w l mapped plain
    obtain ⟨rfl,rfl⟩ := Sv39.Mapping.page.inj mapped
    exact ppn plain
  · intro hits
    rw [flagIf,hits,zero]
    simp only [Sv39.faults,Sv39.permits,← exec]
    cases execOk (hitEntry s i).perms i <;> cases Sv39.A word <;> simp
  · intro hits
    rw [flagLd,hits,zero]
    simp only [Sv39.faults,Sv39.permits,← read]
    cases readOk (hitEntry s i).perms i <;> cases Sv39.A word <;> simp
  · intro stores
    rw [flagSt,zero]
    simp only [Sv39.faults,Sv39.permits,← write,storeHit,dirtyIsZero,stores,dirty,valid]
    cases writeOk (hitEntry s i).perms i <;> cases Sv39.A word <;> cases Sv39.D word <;> simp
  · intro reads
    rw [flagSt,zero]
    simp only [deniesWrite,← write,storeHit,dirtyIsZero,reads]
    cases writeOk (hitEntry s i).perms i <;> cases Sv39.A word <;> simp

theorem hit_ppn {word : BitVec 64} {level : Nat} (inv : Invariant (bus memory) root s) (on : i.vmEnable = true) (hit : hitCam s i = true)
    (outcome : leafOf (bus memory) root (hitEntry s i).vpn = (word,level)) (sane : SaneWord word)
    (page : mappingOf word level = .page word level) (plain : i.req.passthrough = false) :
    (Tlb.respPpn s i).toNat = Sv39.physical word level (i.req.vpn.setWidth 27).toNat := by
  have walked := inv.walked (Tlb.hitIdx s i) (hitsEntry_iff.mp (hitCam_entry hit)).1
  change Walked (bus memory) root (hitEntry s i) at walked
  obtain ⟨valid,aligned⟩ := page_aligned page
  have low : (hitEntry s i).level = level := by rw [walked_level walked,outcome]
  have small : level ≤ 2 := by
    have bound : (leafOf (bus memory) root (hitEntry s i).vpn).2 ≤ 2 := (lastRead_level _ (Nat.le_refl 2) root).2
    rw [outcome] at bound
    exact bound
  have stored : (hitEntry s i).ppn = Ptw.respPpn (pteOf word level).ppn (hitEntry s i).vpn level := by
    obtain ⟨tmp,shape⟩ := walked
    have answer : memoryWalk (bus memory) root tmp.vpn = respOf tmp.vpn word level := by
      rw [shape] at outcome
      rw [memoryWalk,walkFrom_lastRead]
      change lastRead (bus memory) tmp.vpn 2 root = _ at outcome
      rw [outcome]
    rw [shape,answer]
    rfl
  rw [respPpn_level (fun _ _ => match_unique inv) hit on plain (by omega),low,
    page_number small (by rw [pte_ppn]; exact sane.near valid) (by rw [pte_ppn]; exact aligned) _ _ stored,pte_ppn]
  rfl

theorem hit_agrees (inv : Invariant (bus memory) root s) (near : root.toNat < 2 ^ 28) (on : i.vmEnable = true) (found : tlbMiss s i = false)
    (sane : Sane memory (i.req.vpn.setWidth 27).toNat 2 root.toNat) :
    Agrees (Sv39.translate memory root.toNat (i.req.vpn.setWidth 27).toNat) s i := by
  have hit : hitCam s i = true := by simpa [tlbMiss,on] using found
  have here := hitCam_entry hit
  have walked := inv.walked (Tlb.hitIdx s i) (hitsEntry_iff.mp here).1
  obtain ⟨same,word⟩ := walk_matches (i.req.vpn.setWidth 27) (Nat.le_refl 2) near sane
  change Sv39.translate memory root.toNat (i.req.vpn.setWidth 27).toNat = _ at same
  rw [same]
  have leaf := hit_leaf walked here
  unfold leafOf at leaf
  rw [leaf] at word ⊢
  generalize outcome : lastRead (bus memory) (s.entries (Tlb.hitIdx s i)).vpn 2 root = last at word ⊢
  obtain ⟨word',level⟩ := last
  dsimp only at word ⊢
  rcases walked_perms walked outcome with ⟨fault,_,perms⟩ | ⟨page,valid,access,dirty,perms⟩ | ⟨fault,shape⟩
  · rw [fault]
    exact fault_agrees on hit perms
  · rw [page]
    exact page_agrees on hit valid access dirty perms (hit_ppn inv on hit outcome word page)
  · exact absurd fault (sane_leaf word shape)

-- At most one entry matches, whatever the tables hold, and a hit agrees with tables that are
-- sane on its path.
theorem tlb_agrees (near : root.toNat < 2 ^ 28) (admits : Admits (machine (bus memory) root) inputs) (u : Nat) :
    (∀ j k, hitsCam (trace (machine (bus memory) root) inputs u) (inputs u) j = true →
      hitsCam (trace (machine (bus memory) root) inputs u) (inputs u) k = true → j = k) ∧
    ((inputs u).vmEnable = true → tlbMiss (trace (machine (bus memory) root) inputs u) (inputs u) = false →
      Sane memory ((inputs u).req.vpn.setWidth 27).toNat 2 root.toNat →
      Agrees (Sv39.translate memory root.toNat ((inputs u).req.vpn.setWidth 27).toNat) (trace (machine (bus memory) root) inputs u) (inputs u)) := by
  have inv := trace_invariant admits u
  refine ⟨fun j k one two => match_unique inv one two,?_⟩
  intro on found sane
  exact hit_agrees inv near on found sane

-- A root table in page 1 with the same leaf everywhere. Page 5 misses in cycle 0, its walk ends
-- in cycle 2 and it is asked for again in cycle 3.
def gigapages (word : BitVec 64) (_ : Nat) : BitVec 64 := word

def again (word : BitVec 64) (t : Nat) : Tlb.Input where
  req := ⟨decide (t = 0 ∨ t = 3),0,5,false,false,true⟩
  privLvl := 1
  vmEnable := true
  ptw := ⟨if t = 2 then memoryWalk (bus (gigapages word)) 1 5 else .zero,decide (t = 1),false,false,false⟩

theorem again_admits {word : BitVec 64} (kept : (trace (machine (bus (gigapages word)) 1) (again word) 2).tlbReqTmp.vpn = 5) :
    Admits (machine (bus (gigapages word)) 1) (again word) := by
  intro t _ came
  change (if t = 2 then memoryWalk (bus (gigapages word)) 1 5 else PtwTlbResp.zero).valid = true at came
  change (if t = 2 then memoryWalk (bus (gigapages word)) 1 5 else PtwTlbResp.zero) = _
  split at came
  · rename_i here
    subst here
    rw [if_pos rfl,kept]
  · cases came

theorem tlb_agrees_again :
    tlbHit (trace (machine (bus (gigapages 0xcf)) 1) (again 0xcf) 3) (again 0xcf 3) = true ∧
    Agrees (.page 0xcf 0) (trace (machine (bus (gigapages 0xcf)) 1) (again 0xcf) 3) (again 0xcf 3) := by
  refine ⟨by decide,?_⟩
  have sane : SaneWord 0xcf := ⟨by decide,by decide,by decide⟩
  have leaf : ¬ (Sv39.V 0xcf && !Sv39.X 0xcf && !Sv39.W 0xcf && !Sv39.R 0xcf) = true := by decide
  exact (tlb_agrees (by decide) (again_admits (by decide)) 3).2 rfl (by decide) ⟨sane,fun down => absurd down leaf⟩

-- The walk of a leaf with a reserved bit fails, but the entry has the permissions of the leaf:
-- the store is a hit without a fault.
theorem reserved_leaf_hit :
    Admits (machine (bus (gigapages 0x400000000000cf)) 1) (again 0x400000000000cf) ∧
    tlbHit (trace (machine (bus (gigapages 0x400000000000cf)) 1) (again 0x400000000000cf) 3) (again 0x400000000000cf 3) = true ∧
    xcptSt (trace (machine (bus (gigapages 0x400000000000cf)) 1) (again 0x400000000000cf) 3) (again 0x400000000000cf 3) = false ∧
    Sv39.faults (Sv39.translate (gigapages 0x400000000000cf) 1 5) true false false .store = true ∧
    ¬ Agrees (Sv39.translate (gigapages 0x400000000000cf) 1 5)
      (trace (machine (bus (gigapages 0x400000000000cf)) 1) (again 0x400000000000cf) 3) (again 0x400000000000cf 3) := by
  have silent : xcptSt (trace (machine (bus (gigapages 0x400000000000cf)) 1) (again 0x400000000000cf) 3) (again 0x400000000000cf 3) = false := by
    decide
  have faults : Sv39.faults (Sv39.translate (gigapages 0x400000000000cf) 1 5) true false false .store = true := by decide
  refine ⟨again_admits (by decide),by decide,silent,faults,?_⟩
  intro agrees
  have flag := agrees.store rfl
  rw [silent] at flag
  exact absurd (flag.trans faults) (by decide)

end Sargantana.TlbAgreement
