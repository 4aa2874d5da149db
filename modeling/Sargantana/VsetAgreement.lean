import Sargantana.VsetTracking

-- vl and vtype are computed at decode and again at commit. The two copies follow each other as far
-- as the queue is told what the CSR file does.
namespace Sargantana.VsetAgreement

open VsetQueue VsetPipeline VsetTracking Window StateMachine Scan

-- The vtype register for the nine bits that the queue keeps: vill is bit 63.
def vtypeCsr (vtype : BitVec 9) : BitVec 64 := BitVec.ofBool (vtype.getLsbD 8) ++ 0#55 ++ vtype.setWidth 8

-- What the decoder uses for the next vector instruction is what the CSRs hold.
structure Agree (s : VsetPipeline.State) : Prop where
  vl : s.csr.vl = (youngest s.queue).vl.toNat
  vtype : s.csr.vtype = vtypeCsr (youngest s.queue).vtype

-- No supported configuration has a vlmax of one, which csr_bsc would take for the form that keeps vl, and the queue keeps
-- all of its bits.
theorem supported_configurations (vtype : BitVec 11) (supported : unsupported vtype = false) :
    (2 ≤ vlmax vtype ∧ vlmax vtype ≤ 16) ∧ (((vtype.setWidth 8).setWidth 9).setWidth 12).setWidth 11 = vtype ∧
      vtypeCsr ((vtype.setWidth 8).setWidth 9) = vtype.setWidth 64 := by
  revert vtype
  decide +kernel

theorem vlmax_bounds {vtype : BitVec 11} (supported : unsupported vtype = false) : 2 ≤ vlmax vtype ∧ vlmax vtype ≤ 16 :=
  (supported_configurations vtype supported).1

theorem chooseVl_le (vlmax avl vl : Nat) : chooseVl false vlmax avl vl ≤ vlmax := by
  unfold chooseVl
  simp only [Bool.false_eq_true,if_false]
  split
  · assumption
  · split
    · omega
    · exact Nat.le_refl _

theorem chooseVl_chosen (vlmax chosen vl : Nat) (fits : chosen ≤ vlmax) : chooseVl false vlmax chosen vl = chosen := by
  simp [chooseVl,fits]

theorem supported_low {vtype : BitVec 11} (supported : unsupported vtype = false) :
    (((vtype.setWidth 8).setWidth 9).setWidth 12).setWidth 11 = vtype ∧ vtypeCsr ((vtype.setWidth 8).setWidth 9) = vtype.setWidth 64 :=
  (supported_configurations vtype supported).2

theorem low_eq (vtype : BitVec 12) : vtype.setWidth 8 = (vtype.setWidth 11).setWidth 8 := by
  ext j inside
  simp

theorem moduleEntry_supported {v : Vset} (vl : BitVec 5) (supported : unsupported (v.vtype.setWidth 11) = false) :
    (moduleEntry vl v).vtype = ((v.vtype.setWidth 11).setWidth 8).setWidth 9 := by
  simp only [moduleEntry,supported,Bool.false_eq_true,if_false]
  rw [low_eq]

-- csr_bsc sees the configuration that vset_module saw.
theorem commit_unsupported (v : Vset) (vl carried : BitVec 5) (c : Csr) (illegal : unsupported (v.vtype.setWidth 11) = true) :
    commitVset v carried (moduleEntry vl v).vtype c = ⟨0,0x8000000000000000⟩ := by
  have marked : (moduleEntry vl v).vtype = 0x100 := by simp [moduleEntry,illegal]
  have again : unsupported (((0x100 : BitVec 9).setWidth 12).setWidth 11) = true := by decide
  rw [marked]
  simp only [commitVset,vsetvlCtrl,again,if_true]

theorem commit_supported (v : Vset) (vl carried : BitVec 5) (c : Csr) (supported : unsupported (v.vtype.setWidth 11) = false) :
    commitVset v carried (moduleEntry vl v).vtype c =
      ⟨chooseVl v.max (vlmax (v.vtype.setWidth 11)) (if v.keep then 1 else carried.toNat) c.vl,(v.vtype.setWidth 11).setWidth 64⟩ := by
  rw [moduleEntry_supported vl supported]
  simp only [commitVset,vsetvlCtrl,(supported_low supported).1,supported,Bool.false_eq_true,if_false]

theorem commit_vtype (v : Vset) (vl : BitVec 5) (c : Csr) :
    (commitVset v (moduleEntry vl v).vl (moduleEntry vl v).vtype c).vtype = vtypeCsr (moduleEntry vl v).vtype := by
  cases supported : unsupported (v.vtype.setWidth 11) with
  | true =>
      have marked : (moduleEntry vl v).vtype = 0x100 := by simp [moduleEntry,supported]
      rw [commit_unsupported v vl _ c supported,marked]
      decide
  | false => rw [commit_supported v vl _ c supported,moduleEntry_supported vl supported,(supported_low supported).2]

theorem moduleVl_small (vl : BitVec 5) (v : Vset) : moduleVl vl v < 32 := by
  unfold moduleVl
  cases supported : unsupported (v.vtype.setWidth 11) with
  | true => simp
  | false =>
      have most := (vlmax_bounds supported).2
      simp only [Bool.false_eq_true,if_false]
      cases max : v.max with
      | true =>
          have old := vl.isLt
          simp only [chooseVl,if_true]
          split <;> omega
      | false =>
          have least := chooseVl_le (vlmax (v.vtype.setWidth 11)) v.avl vl.toNat
          omega

theorem moduleEntry_vl (vl : BitVec 5) (v : Vset) : (moduleEntry vl v).vl.toNat = moduleVl vl v := by
  have small := moduleVl_small vl v
  simp only [moduleEntry,BitVec.toNat_ofNat]
  omega

theorem commit_chooses (v : Vset) (vl : BitVec 5) (c : Csr) (new : chooses v = true) :
    (commitVset v (moduleEntry vl v).vl (moduleEntry vl v).vtype c).vl = (moduleEntry vl v).vl.toNat := by
  cases supported : unsupported (v.vtype.setWidth 11) with
  | true =>
      rw [commit_unsupported v vl _ c supported,moduleEntry_vl]
      simp [moduleVl,supported]
  | false =>
      have other : v.keep = false := by simpa [chooses,supported] using new
      obtain ⟨least,most⟩ := vlmax_bounds supported
      rw [commit_supported v vl _ c supported]
      simp only [other,Bool.false_eq_true,if_false,moduleEntry_vl]
      cases max : v.max with
      | true =>
          have kinds : v.kind ≠ .vsetivli ∧ v.rs1 = 0 := by simpa [Vset.max] using max
          have zero : v.avl = 0 := by simp [Vset.avl,other,kinds.1,Vset.rs1Value,kinds.2]
          have whole : moduleVl vl v = vlmax (v.vtype.setWidth 11) := by simp [moduleVl,supported,chooseVl,max,zero]
          rw [whole]
          simp only [chooseVl,if_true]
          rw [if_neg (by omega)]
      | false =>
          refine chooseVl_chosen _ _ _ ?_
          simp only [moduleVl,supported,max,Bool.false_eq_true,if_false]
          exact chooseVl_le _ _ _

theorem commit_keeps (v : Vset) (vl : BitVec 5) (c : Csr) (old : chooses v = false) :
    (commitVset v (moduleEntry vl v).vl (moduleEntry vl v).vtype c).vl = c.vl ∧ (moduleEntry vl v).vl = vl := by
  simp only [chooses,Bool.or_eq_false_iff,Bool.not_eq_false'] at old
  obtain ⟨keep,supported⟩ := old
  have max : v.max = true := by
    have both := keep
    simp only [Vset.keep,Bool.and_eq_true] at both
    exact both.1
  refine ⟨?_,?_⟩
  · rw [commit_supported v vl _ c supported]
    simp [keep,max,chooseVl]
  · apply BitVec.eq_of_toNat_eq
    rw [moduleEntry_vl]
    simp [moduleVl,supported,chooseVl,max,Vset.avl,keep]

-- Every vset in flight was given its entry from the vl of the one before it.
def follow (before : Entry) : Item → Entry
  | .vset _ e => e
  | .branch _ => before

def computed (before : Entry) : Item → Prop
  | .vset v e => e = moduleEntry before.vl v
  | .branch _ => True

def Chained (committed : Entry) (items : List Item) : Prop := Along follow computed committed items

theorem follow_entries (items : List Item) (committed : Entry) : items.foldl follow committed = (entries items).getLastD committed := by
  induction items generalizing committed with
  | nil => rfl
  | cons item rest ih =>
      cases item with
      | vset v e =>
          rw [List.foldl_cons,ih,entries,List.getLastD_cons]
          rfl
      | branch index => exact ih committed

theorem branch_follow (item : Item) (branch : item.isBranch = true) (before : Entry) : follow before item = before := by
  cases item with
  | vset => cases branch
  | branch => rfl

structure Follows (s : VsetPipeline.State) : Prop where
  chained : Chained s.committed s.flight
  vtype : s.csr.vtype = if s.configured then vtypeCsr s.committed.vtype else resetCsr.vtype
  first : s.configured = false → s.committed = resetEntry
  vl : s.stale = false → s.csr.vl = s.committed.vl.toNat
  short : s.stale = true → s.csr.vl < s.committed.vl.toNat

theorem follows_reset : Follows VsetPipeline.reset := ⟨trivial,rfl,fun _ => rfl,fun _ => rfl,by decide⟩

section Step

variable {s : VsetPipeline.State} {i : VsetPipeline.Input}

theorem entering_chained (tracks : Tracks s) (i : VsetPipeline.Input) : Chained ((entries s.flight).getLastD s.committed) (entering s i) := by
  unfold entering
  split
  · trivial
  · split
    · trivial
    · exact ⟨trivial,trivial⟩
    · split
      · refine ⟨?_,trivial⟩
        rw [← tracks.youngest]
        rfl
      · trivial

theorem chained_next (tracks : Tracks s) (meets : Meets s i) (start : Entry)
    (front : Chained start ((held s i).drop i.commit.count))
    (last : exceptionNow i = false → i.misspredict = .none →
      ((held s i).drop i.commit.count).foldl follow start = (entries s.flight).getLastD s.committed)
    (shorter : ∀ p, i.misspredict = .live p → Chained start ((s.flight.take (p + 1)).drop i.commit.count)) :
    Chained start (nextFlight s i) := by
  cases trap : exceptionNow i with
  | true =>
      simp only [nextFlight,trap,if_true]
      trivial
  | false =>
      cases recovery : i.misspredict with
      | none =>
          simp only [nextFlight,trap,recovery,Bool.false_eq_true,if_false]
          refine along_append.mpr ⟨front,?_⟩
          rw [last trap recovery]
          exact entering_chained tracks i
      | live p =>
          simp only [nextFlight,trap,recovery,Bool.false_eq_true,if_false]
          exact shorter p recovery
      | dead index =>
          have late := meets.1
          simp [lateRecovery,recovery] at late

theorem commits_inv (taken : commits s i = some (v,e)) :
    i.commit = .vset ∧ exceptionNow i = false ∧ ∃ rest, s.flight = .vset v e :: rest := by
  unfold commits at taken
  split at taken
  next both =>
    refine ⟨both.1,both.2,head_split ?_⟩
    split at taken
    next head =>
      cases taken
      exact head
    next => cases taken
  next => cases taken

theorem follows_commit (follows : Follows s) (tracks : Tracks s) (allowed : Allowed s i) (meets : Meets s i)
    (taken : commits s i = some (v,e)) : Follows (VsetPipeline.next s i) := by
  obtain ⟨commit,noTrap,rest,head⟩ := commits_inv taken
  obtain ⟨kept,first⟩ := held_head allowed commit head
  have front : Chained s.committed (held s i) := held_along follows.chained i
  rw [first] at front
  have chained := follows.chained
  rw [head] at chained
  have given : e = moduleEntry s.committed.vl v := chained.1
  have vtype : (oldest s.queue).vtype = e.vtype := tracks.oldest e (by simp [head,entries])
  have csr : (VsetPipeline.next s i).csr = commitVset v e.vl e.vtype s.csr := by simp [VsetPipeline.next,nextCsr,taken,vtype]
  have committed : (VsetPipeline.next s i).committed = e := by simp [VsetPipeline.next,taken]
  have configured : (VsetPipeline.next s i).configured = true := by simp [VsetPipeline.next,taken]
  have stale : (VsetPipeline.next s i).stale = (s.stale && !chooses v) := by simp [VsetPipeline.next,nextStale,taken]
  have behind : (held s i).drop i.commit.count = kept := by simp [commit,Commit.count,first]
  refine ⟨?_,?_,?_,?_,?_⟩
  · rw [committed]
    refine chained_next tracks meets e ?_ ?_ ?_
    · rw [behind]
      exact front.2
    · intro running straight
      rw [behind,← entries_held running straight meets,first,follow_entries,entries,List.getLastD_cons]
    · intro p live
      have shorter : (s.flight.take (p + 1)).drop i.commit.count = rest.take p := by simp [commit,Commit.count,head]
      rw [shorter]
      exact Along.take chained.2 p
  · rw [csr,configured,committed,given]
    exact commit_vtype v _ _
  · rw [configured]
    intro never
    cases never
  · intro fresh
    rw [csr,committed]
    rw [stale] at fresh
    cases new : chooses v with
    | true => exact given ▸ commit_chooses v _ _ new
    | false =>
        have kept := commit_keeps v s.committed.vl s.csr new
        rw [← given] at kept
        rw [kept.1,kept.2]
        exact follows.vl (by simpa [new] using fresh)
  · intro old
    rw [csr,committed]
    simp only [stale,Bool.and_eq_true,Bool.not_eq_true'] at old
    have kept := commit_keeps v s.committed.vl s.csr old.2
    rw [← given] at kept
    rw [kept.1,kept.2]
    exact follows.short old.1

theorem chained_quiet (follows : Follows s) (tracks : Tracks s) (allowed : Allowed s i) (meets : Meets s i)
    (none : commits s i = none) : Chained s.committed (nextFlight s i) := by
  cases trap : exceptionNow i with
  | true =>
      simp only [nextFlight,trap,if_true]
      trivial
  | false =>
      have quiet : i.commit ≠ .vset := by
        intro commit
        obtain ⟨v,e,head⟩ := allowed.vset commit trap
        obtain ⟨rest,cons⟩ := head_split head
        rw [commits_head commit trap cons] at none
        cases none
      have only := quiet_commit allowed quiet
      have still : ∀ item ∈ s.flight.take i.commit.count, ∀ before, follow before item = before :=
        fun item inside => branch_follow item (only item inside)
      have front : Chained s.committed (held s i) := held_along follows.chained i
      rw [← held_commit allowed] at only
      refine chained_next tracks meets s.committed (Along.drop_still front ?_) ?_ ?_
      · rw [held_commit allowed]
        exact still
      · intro running straight
        rw [follow_entries,entries_drop only,entries_held running straight meets]
      · intro p live
        refine Along.drop_still (Along.take follows.chained (p + 1)) ?_
        rw [List.take_take,Nat.min_eq_left (Nat.le_succ_of_le (allowed.live p live).1.1)]
        exact still

theorem follows_same (follows : Follows s) (chained : Chained s.committed (nextFlight s i)) (none : commits s i = none)
    (csr : (VsetPipeline.next s i).csr = s.csr) (stale : (VsetPipeline.next s i).stale = s.stale) : Follows (VsetPipeline.next s i) := by
  have committed : (VsetPipeline.next s i).committed = s.committed := by simp [VsetPipeline.next,none]
  have configured : (VsetPipeline.next s i).configured = s.configured := by simp [VsetPipeline.next,none]
  refine ⟨committed ▸ chained,?_,?_,?_,?_⟩
  · rw [csr,configured,committed]
    exact follows.vtype
  · rw [configured,committed]
    exact follows.first
  · rw [csr,stale,committed]
    exact follows.vl
  · rw [csr,stale,committed]
    exact follows.short

-- A load shortens vl in the CSR file only.
theorem follows_vleff (follows : Follows s) (chained : Chained s.committed (nextFlight s i)) (allowed : Allowed s i)
    (vleff : i.commit = .vleff vl) (fault : vl ≠ 0) : Follows (VsetPipeline.next s i) := by
  have none : commits s i = none := commits_none (.inl (by simp [vleff]))
  have committed : (VsetPipeline.next s i).committed = s.committed := by simp [VsetPipeline.next,none]
  have configured : (VsetPipeline.next s i).configured = s.configured := by simp [VsetPipeline.next,none]
  have csr : (VsetPipeline.next s i).csr = { s.csr with vl := vl.toNat } := by
    simp only [VsetPipeline.next,nextCsr,none,vleff,commitVleff]
    rw [if_neg fault]
  have stale : (VsetPipeline.next s i).stale = true := by
    simp only [VsetPipeline.next,nextStale,none,vleff]
    rw [decide_eq_true fault,Bool.or_true]
  refine ⟨committed ▸ chained,?_,?_,?_,?_⟩
  · rw [csr,configured,committed]
    exact follows.vtype
  · rw [configured,committed]
    exact follows.first
  · intro fresh
    rw [stale] at fresh
    cases fresh
  · intro _
    rw [csr,committed]
    exact allowed.vleff vl vleff fault

theorem unchanged (none : commits s i = none) (noLoad : ∀ vl, i.commit ≠ .vleff vl) :
    (VsetPipeline.next s i).csr = s.csr ∧ (VsetPipeline.next s i).stale = s.stale := by
  simp only [VsetPipeline.next,nextCsr,nextStale,none]
  cases commit : i.commit with
  | none => exact ⟨trivial,trivial⟩
  | branches n => exact ⟨trivial,trivial⟩
  | vset => exact ⟨trivial,trivial⟩
  | vleff vl => exact absurd commit (noLoad vl)

theorem follows_next (follows : Follows s) (tracks : Tracks s) (allowed : Allowed s i) (meets : Meets s i) :
    Follows (VsetPipeline.next s i) := by
  rcases taken : commits s i with _ | ⟨v,e⟩
  · have chained := chained_quiet follows tracks allowed meets taken
    by_cases load : ∃ vl, i.commit = .vleff vl
    · obtain ⟨vl,commit⟩ := load
      by_cases zero : vl = 0
      · refine follows_same follows chained taken ?_ ?_
        · simp [VsetPipeline.next,nextCsr,taken,commit,commitVleff,zero]
        · simp [VsetPipeline.next,nextStale,taken,commit,zero]
      · exact follows_vleff follows chained allowed commit zero
    · obtain ⟨csr,stale⟩ := unchanged taken fun vl commit => load ⟨vl,commit⟩
      exact follows_same follows chained taken csr stale
  · exact follows_commit follows tracks allowed meets taken

end Step

theorem follows_along {inputs : Nat → VsetPipeline.Input} (admits : Admits machine inputs) {t : Nat}
    (meets : ∀ u < t, Meets (trace machine inputs u) (inputs u)) : Follows (trace machine inputs t) := by
  induction t with
  | zero => exact follows_reset
  | succ t ih =>
      have tracks := (invariant_along admits (t := t) fun u before => meets u (by omega)).tracks
      exact follows_next (ih fun u before => meets u (by omega)) tracks (admits t) (meets t (by omega))

-- Between the vsets the two copies agree from the first vset on, while no load has shortened vl.
theorem configuration_agrees (inputs : Nat → VsetPipeline.Input) (admits : Admits machine inputs) (t : Nat)
    (meets : ∀ u < t, Meets (trace machine inputs u) (inputs u)) (settled : entries (trace machine inputs t).flight = []) :
    Agree (trace machine inputs t) ↔ (trace machine inputs t).configured = true ∧ (trace machine inputs t).stale = false := by
  have follows := follows_along admits meets
  have tracks := (invariant_along admits meets).tracks
  have decoded : youngest (trace machine inputs t).queue = (trace machine inputs t).committed := by
    rw [tracks.youngest,settled]
    rfl
  refine ⟨?_,?_⟩
  · intro agree
    refine ⟨?_,?_⟩
    · by_contra never
      have unset : (trace machine inputs t).configured = false := by simpa using never
      have vtype := agree.vtype
      rw [decoded,follows.first unset,follows.vtype,unset] at vtype
      simp only [Bool.false_eq_true,if_false] at vtype
      revert vtype
      decide
    · by_contra short
      have less := follows.short (by simpa using short)
      have vl := agree.vl
      rw [decoded] at vl
      omega
  · rintro ⟨configured,fresh⟩
    refine ⟨?_,?_⟩
    · rw [decoded]
      exact follows.vl fresh
    · rw [decoded,follows.vtype,configured]
      rfl

-- A vset of four elements commits, and a fault-only-first load stops before its third element.
def shorten : Nat → VsetPipeline.Input
  | 0 => { idle with decode := .vset (setTo 4) }
  | 1 => { idle with commit := .vset }
  | 2 => { idle with commit := .vleff 2 }
  | _ => idle

theorem shorten_admits : Admits machine shorten := by
  intro t
  match t with
  | 0 => exact allowed_quiet _ _ false 2
  | 1 =>
      have head : (trace machine shorten 1).flight.head? = some (.vset (setTo 4) (moduleEntry 0 (setTo 4))) := by decide
      refine ⟨fun _ _ => ⟨_,_,head⟩,?_,?_,?_,?_,?_,?_,?_⟩ <;> simp [shorten,idle,Commit.count]
  | 2 =>
      have less : (2 : BitVec 5).toNat < (trace machine shorten 2).committed.vl.toNat := by decide
      refine ⟨?_,?_,?_,?_,?_,?_,?_,?_⟩ <;> simp [shorten,idle,exceptionNow,Commit.count]
      exact less
  | t + 3 => exact allowed_quiet _ .none false 2

theorem shorten_meets : ∀ u < 2, Meets (trace machine shorten u) (shorten u) := by
  intro u before
  match u, before with
  | 0, _ => decide
  | 1, _ => decide

theorem configuration_agrees_vset : (trace machine shorten 2).csr.vl = 4 ∧ Agree (trace machine shorten 2) := by
  refine ⟨by decide,?_⟩
  exact (configuration_agrees shorten shorten_admits 2 shorten_meets (by decide)).mpr ⟨by decide,by decide⟩

-- The copies differ before the first vset, by vill, and after the load, by vl.
theorem configuration_differs : Admits machine shorten ∧
    (entries (trace machine shorten 0).flight = [] ∧ ¬ Agree (trace machine shorten 0)) ∧
    entries (trace machine shorten 3).flight = [] ∧ ¬ Agree (trace machine shorten 3) := by
  refine ⟨shorten_admits,⟨rfl,?_⟩,by decide,?_⟩
  · intro agree
    have vtype := agree.vtype
    revert vtype
    decide
  · intro agree
    have vl := agree.vl
    revert vl
    decide

end Sargantana.VsetAgreement
