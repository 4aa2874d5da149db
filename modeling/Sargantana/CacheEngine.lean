import Sargantana.HpdcachePkg

-- The protocol engine of the data cache (hpdcache_ctrl_pe_sarg): what happens to the request in stage 1, and which
-- request enters the pipeline. The performance events are left out.
namespace Sargantana.CacheEngine

open HpdcachePkg

structure Stage1 where
  valid : Bool
  abort : Bool
  rtab : Bool
  isError : Bool
  uncacheable : Bool
  needRsp : Bool
  op : Op
  wr : WrPolicy

structure Answers where
  cachedirHit : Bool
  dirHitWback : Bool
  dirHitDirty : Bool
  dirHitFetch : Bool
  dirVictimUnavailable : Bool
  dirVictimValid : Bool
  dirVictimWback : Bool
  dirVictimDirty : Bool
  mshrAllocReady : Bool
  mshrHit : Bool
  mshrFull : Bool
  wbufWriteReady : Bool
  wbufReadHit : Bool
  flushCheckHit : Bool
  flushAllocReady : Bool
  rtabCheckHit : Bool

-- The request of stage 0, which the replay table or the core presents
structure Stage0 where
  coreReqValid : Bool
  rtabReqValid : Bool
  isError : Bool
  uncacheable : Bool
  op : Op

structure Config where
  lowLatency : Bool
  prefetchUpdtPlru : Bool
  defaultWb : Bool

-- The state a line gets in the directory: st2_dir_updt_valid, wback, dirty and fetch
structure DirUpdt where
  valid : Bool
  wback : Bool
  dirty : Bool
  fetch : Bool

-- st2_mshr_alloc_need_rsp and wback
structure MshrAlloc where
  needRsp : Bool
  wback : Bool

structure Decision where
  rtabAlloc : Bool
  rtabAllocAndLink : Bool
  rtabCommit : Bool
  deps : Deps
  nop : Bool
  ucReqValid : Bool
  cmoReqValid : Bool
  wbufWriteValid : Bool
  wbufReadFlushHit : Bool
  rspValid : Bool
  rspError : Bool
  rspAborted : Bool
  cachedirSelVictim : Bool
  cachedirUpdtSelVictim : Bool
  cachedataRead : Bool
  cachedataWrite : Bool
  cachedataWriteEnable : Bool
  mshrAlloc : Option MshrAlloc
  flushAlloc : Bool
  dirUpdt : Option DirUpdt

def Decision.idle : Decision :=
  ⟨false,false,false,Deps.none,false,false,false,false,false,false,false,false,false,false,false,false,false,none,false,none⟩

-- The request goes to the replay table and the next cycle stays empty.
def Decision.onHold (d : Decision) (deps : Deps) : Decision := { d with rtabAlloc := true, deps := deps, nop := true }

variable (g : Config) (x : Stage1) (y : Answers) (z : Stage0)

-- Requests that are executed in program order
def st1Fence : Bool := x.uncacheable || x.op.isCmoFence || x.op.isCmoInval || x.op.isCmoFlush

def rtabCheck : Bool := x.valid && !x.rtab && !st1Fence x

-- A miss replaces the victim, whose dirty data is flushed.
def victimUpdt : DirUpdt := ⟨y.dirVictimValid,y.dirVictimWback,false,true⟩

def amoRequest : Decision :=
  if y.cachedirHit && y.dirHitDirty && !y.flushAllocReady then Decision.idle.onHold { Deps.none with flushNotReady := true }
  else { Decision.idle with
    ucReqValid := true
    nop := true
    rtabCommit := x.rtab
    flushAlloc := y.cachedirHit && y.dirHitDirty
    dirUpdt := if y.cachedirHit then some ⟨true,y.dirHitWback,false,y.dirHitFetch⟩ else none }

def loadMiss : Decision :=
  let miss := { Decision.idle with nop := true, wbufReadFlushHit := true, cachedirSelVictim := true }
  if y.mshrHit then miss.onHold { Deps.none with mshrHit := true }
  else if y.mshrFull then miss.onHold { Deps.none with mshrFull := true }
  else if y.dirVictimUnavailable then miss.onHold { Deps.none with dirUnavailable := true }
  else if y.wbufReadHit then miss.onHold { Deps.none with wbufHit := true }
  else if !y.mshrAllocReady then miss.onHold { Deps.none with mshrReady := true }
  else if y.flushCheckHit then miss.onHold { Deps.none with flushHit := true }
  else if y.dirVictimDirty && !y.flushAllocReady then miss.onHold { Deps.none with flushNotReady := true }
  else { miss with
    flushAlloc := y.dirVictimDirty
    rtabCommit := x.rtab
    mshrAlloc := some ⟨x.needRsp,x.wr == .auto && g.defaultWb || x.wr == .wb⟩
    dirUpdt := some (victimUpdt y) }

def loadHit : Decision :=
  if x.wr == .wt && y.dirHitWback && y.dirHitDirty && !y.flushAllocReady then
    Decision.idle.onHold { Deps.none with flushNotReady := true }
  else
    let hit := { Decision.idle with
      rtabCommit := x.rtab
      nop := x.rtab && !z.rtabReqValid
      cachedirUpdtSelVictim := !x.op.isCmoPrefetch || g.prefetchUpdtPlru
      cachedataRead := !g.lowLatency
      rspValid := x.needRsp }
    if !y.dirHitFetch && (x.wr == .wt && y.dirHitWback) then
      { hit with dirUpdt := some ⟨true,false,false,false⟩, flushAlloc := y.dirHitDirty, nop := true }
    else if !y.dirHitFetch && (x.wr == .wb && !y.dirHitWback) then { hit with dirUpdt := some ⟨true,true,false,false⟩, nop := true }
    else hit

-- A store starts from this: the data is presented to the memory, whatever becomes of it.
def storeBase : Decision := { Decision.idle with
  cachedataWrite := true
  nop := if g.lowLatency then (z.coreReqValid || z.rtabReqValid) && z.op.isLoad || x.rtab && !z.rtabReqValid
    else x.rtab && !z.rtabReqValid }

def storeMissWb : Decision :=
  let miss := { storeBase g x z with cachedirSelVictim := true, wbufReadFlushHit := true, nop := true }
  if !y.mshrAllocReady then miss.onHold { Deps.none with mshrReady := true }
  else if y.mshrFull then miss.onHold { Deps.none with mshrFull := true }
  else if y.wbufReadHit then miss.onHold { Deps.none with wbufHit := true }
  else if y.dirVictimUnavailable then miss.onHold { Deps.none with dirUnavailable := true }
  else if y.dirVictimDirty && !y.flushAllocReady then miss.onHold { Deps.none with flushNotReady := true }
  else { miss.onHold { Deps.none with writeMiss := true } with
    flushAlloc := y.dirVictimDirty
    dirUpdt := some (victimUpdt y)
    mshrAlloc := some ⟨false,true⟩ }

def storeMissWt : Decision :=
  let write := { storeBase g x z with wbufWriteValid := true }
  if !y.wbufWriteReady then write.onHold { Deps.none with wbufNotReady := true }
  else { write with rtabCommit := x.rtab, rspValid := x.needRsp }

def storeHitWb : Decision :=
  let hit := { storeBase g x z with wbufReadFlushHit := true }
  if y.wbufReadHit then hit.onHold { Deps.none with wbufHit := true }
  else
    let update := !y.dirHitWback || !y.dirHitDirty
    { hit with
      dirUpdt := if update then some ⟨true,true,true,false⟩ else none
      nop := hit.nop || update
      rtabCommit := x.rtab
      rspValid := x.needRsp
      cachedataWriteEnable := true
      cachedirUpdtSelVictim := true }

def storeHitWt : Decision :=
  let hit := { storeBase g x z with wbufWriteValid := !y.dirHitDirty }
  if y.dirHitDirty && !y.flushAllocReady then hit.onHold { Deps.none with flushNotReady := true }
  else if y.dirHitDirty then
    { hit.onHold { Deps.none with flushHit := true } with flushAlloc := true, dirUpdt := some ⟨true,false,false,false⟩ }
  else if !y.wbufWriteReady then hit.onHold { Deps.none with wbufNotReady := true }
  else { hit with rtabCommit := x.rtab, rspValid := x.needRsp, cachedirUpdtSelVictim := true, cachedataWriteEnable := true }

def storeRequest : Decision :=
  if y.mshrHit then (storeBase g x z).onHold { Deps.none with mshrHit := true }
  else if y.flushCheckHit then (storeBase g x z).onHold { Deps.none with flushHit := true }
  else if !y.cachedirHit then
    if x.wr == .wb || x.wr == .auto && g.defaultWb then storeMissWb g x y z else storeMissWt g x y z
  else if y.dirHitFetch then (storeBase g x z).onHold { Deps.none with dirFetch := true }
  else if x.wr == .wb || x.wr == .auto && y.dirHitWback then storeHitWb g x y z
  else storeHitWt g x y z

def cacheable : Decision :=
  if x.op.isAmo then amoRequest x y
  else if x.op.isLoad || x.op.isCmoPrefetch then if !y.cachedirHit then loadMiss g x y else loadHit g x y z
  else if x.op.isStore then storeRequest g x y z
  else Decision.idle

def stage1 : Decision :=
  if !x.valid then Decision.idle
  else if x.abort && !x.rtab then { Decision.idle with rspValid := x.needRsp, rspAborted := true }
  else if x.isError then { Decision.idle with rtabCommit := x.rtab, rspValid := x.needRsp, rspError := x.needRsp }
  else if rtabCheck x && y.rtabCheckHit then { Decision.idle with rtabAllocAndLink := true, nop := true }
  else if x.op.isCmoInval || x.op.isCmoFlush || x.op.isCmoFence then { Decision.idle with cmoReqValid := true, nop := true }
  else if x.uncacheable then { Decision.idle with ucReqValid := true, nop := true }
  else cacheable g x y z

-- What stage 1 does with a request. `Executed` leaves the pipeline for good, the others go to the replay table.
inductive Outcome where
  | empty | aborted | linked | handedOver | onHold | executed
  deriving DecidableEq, Repr

def outcome : Outcome :=
  if !x.valid then .empty
  else if x.abort && !x.rtab then .aborted
  else if x.isError then .executed
  else if rtabCheck x && y.rtabCheckHit then .linked
  else if x.op.isCmoInval || x.op.isCmoFlush || x.op.isCmoFence || x.uncacheable then .handedOver
  else if (cacheable g x y z).rtabAlloc then .onHold else .executed

structure Pipe where
  initReady : Bool
  refillBusy : Bool
  flushBusy : Bool
  st2MshrAlloc : Bool
  st2FlushAlloc : Bool
  st2DirUpdt : Bool
  refillReqValid : Bool
  rtabFull : Bool
  rtabFence : Bool
  cmoBusy : Bool
  cmoWait : Bool
  ucBusy : Bool

variable (p : Pipe)

def normal : Bool := p.initReady && !p.refillBusy && !p.flushBusy

def decision : Decision := if normal p then stage1 g x y z else Decision.idle

def nop : Bool := (decision g x y z p).nop || (p.st2MshrAlloc || p.st2FlushAlloc || p.st2DirUpdt)

def coreReqReady : Bool :=
  normal p && (z.coreReqValid && !z.rtabReqValid && !p.refillReqValid && !p.rtabFull && !p.cmoBusy && !p.ucBusy && !p.rtabFence &&
    !nop g x y z p)

def rtabReqReady : Bool := normal p && (z.rtabReqValid && !p.refillReqValid && (!p.cmoBusy || p.cmoWait) && !nop g x y z p)

def refillReqReady : Bool :=
  normal p && (p.refillReqValid && (!p.cmoBusy || p.cmoWait) && !x.valid && !(p.st2MshrAlloc || p.st2DirUpdt))

def st1ReqValid : Bool := if normal p then coreReqReady g x y z p || rtabReqReady g x y z p else x.valid

def st1ReqIsError : Bool := if normal p then z.isError else x.isError

-- st0_req_mshr_check and st0_req_cachedir_read
def mshrCheck : Bool :=
  (coreReqReady g x y z p || rtabReqReady g x y z p) && !z.uncacheable && !z.isError &&
    (z.op.isLoad || z.op.isCmoPrefetch || z.op.isStore || z.op.isAmo)

def cachedataRead : Bool :=
  (coreReqReady g x y z p || rtabReqReady g x y z p) && !z.uncacheable && !z.isError &&
    (g.lowLatency && (z.op.isLoad && (!(x.valid && x.op.isStore && !x.uncacheable) || x.isError))) || (decision g x y z p).cachedataRead

variable {g x y z p}

-- What a decision does to the replay table and to the stages behind, by what becomes of the request. Whatever it asks
-- of them leaves the next cycle empty.
structure Sound (d : Decision) (o : Outcome) (rtab : Bool) : Prop where
  alloc : d.rtabAlloc = decide (o = .onHold)
  link : d.rtabAllocAndLink = decide (o = .linked)
  commit : d.rtabCommit = (decide (o = .executed) && rtab)
  stalls : d.rtabAlloc = true ∨ d.rtabAllocAndLink = true ∨ d.ucReqValid = true ∨ d.cmoReqValid = true ∨
    d.mshrAlloc.isSome = true ∨ d.flushAlloc = true ∨ d.dirUpdt.isSome = true → d.nop = true

def settled (d : Decision) : Outcome := if d.rtabAlloc then .onHold else .executed

theorem onHold_sound {d : Decision} {deps : Deps} {rtab : Bool} (link : d.rtabAllocAndLink = false) (commit : d.rtabCommit = false) :
    Sound (d.onHold deps) (settled (d.onHold deps)) rtab := ⟨rfl,link,commit,fun _ => rfl⟩

theorem amoRequest_sound : Sound (amoRequest x y) (settled (amoRequest x y)) x.rtab := by
  unfold amoRequest
  split
  · exact onHold_sound rfl rfl
  · exact ⟨rfl,rfl,rfl,fun _ => rfl⟩

theorem loadMiss_sound : Sound (loadMiss g x y) (settled (loadMiss g x y)) x.rtab := by
  unfold loadMiss
  simp only []
  split_ifs
  iterate 7 exact onHold_sound rfl rfl
  exact ⟨rfl,rfl,rfl,fun _ => rfl⟩

theorem loadHit_sound : Sound (loadHit g x y z) (settled (loadHit g x y z)) x.rtab := by
  unfold loadHit
  simp only []
  split_ifs
  · exact onHold_sound rfl rfl
  · exact ⟨rfl,rfl,rfl,fun _ => rfl⟩
  · exact ⟨rfl,rfl,rfl,fun _ => rfl⟩
  · exact ⟨rfl,rfl,rfl,by simp [Decision.idle]⟩

theorem storeMissWb_sound : Sound (storeMissWb g x y z) (settled (storeMissWb g x y z)) x.rtab := by
  unfold storeMissWb
  simp only []
  split_ifs
  iterate 5 exact onHold_sound rfl rfl
  exact ⟨rfl,rfl,rfl,fun _ => rfl⟩

theorem storeMissWt_sound : Sound (storeMissWt g x y z) (settled (storeMissWt g x y z)) x.rtab := by
  unfold storeMissWt
  simp only []
  split_ifs
  · exact onHold_sound rfl rfl
  · exact ⟨rfl,rfl,rfl,by simp [storeBase,Decision.idle]⟩

theorem storeHitWb_sound : Sound (storeHitWb g x y z) (settled (storeHitWb g x y z)) x.rtab := by
  unfold storeHitWb
  simp only []
  split_ifs
  · exact onHold_sound rfl rfl
  · rename_i update
    exact ⟨rfl,rfl,rfl,fun _ => by rw [update,Bool.or_true]⟩
  · exact ⟨rfl,rfl,rfl,by simp [storeBase,Decision.idle]⟩

theorem storeHitWt_sound : Sound (storeHitWt g x y z) (settled (storeHitWt g x y z)) x.rtab := by
  unfold storeHitWt
  simp only []
  split_ifs
  · exact onHold_sound rfl rfl
  · exact ⟨rfl,rfl,rfl,fun _ => rfl⟩
  · exact onHold_sound rfl rfl
  · exact ⟨rfl,rfl,rfl,by simp [storeBase,Decision.idle]⟩

theorem storeRequest_sound : Sound (storeRequest g x y z) (settled (storeRequest g x y z)) x.rtab := by
  unfold storeRequest
  split_ifs
  iterate 2 exact onHold_sound rfl rfl
  · exact storeMissWb_sound
  · exact storeMissWt_sound
  · exact onHold_sound rfl rfl
  · exact storeHitWb_sound
  · exact storeHitWt_sound

theorem cacheable_sound (served : x.op.isAmo = true ∨ x.op.isLoad = true ∨ x.op.isCmoPrefetch = true ∨ x.op.isStore = true) :
    Sound (cacheable g x y z) (settled (cacheable g x y z)) x.rtab := by
  unfold cacheable
  split_ifs
  · exact amoRequest_sound
  · exact loadMiss_sound
  · exact loadHit_sound
  · exact storeRequest_sound
  · simp_all

theorem served (op : Op) (fence : op.isCmoFence = false) (inval : op.isCmoInval = false) (flush : op.isCmoFlush = false) :
    op.isAmo = true ∨ op.isLoad = true ∨ op.isCmoPrefetch = true ∨ op.isStore = true := by
  cases op <;> simp_all [Op.isCmoFence,Op.isCmoInval,Op.isCmoFlush,Op.isAmo,Op.isLoad,Op.isCmoPrefetch,Op.isStore]

theorem stage1_sound : Sound (stage1 g x y z) (outcome g x y z) x.rtab := by
  unfold stage1 outcome
  split
  · exact ⟨rfl,rfl,rfl,by simp [Decision.idle]⟩
  split
  · exact ⟨rfl,rfl,rfl,by simp [Decision.idle]⟩
  split
  · exact ⟨rfl,rfl,rfl,by simp [Decision.idle]⟩
  split
  · exact ⟨rfl,rfl,rfl,fun _ => rfl⟩
  rename_i free
  by_cases cmo : (x.op.isCmoInval || x.op.isCmoFlush || x.op.isCmoFence) = true
  · rw [if_pos cmo,if_pos (by simp [cmo])]
    exact ⟨rfl,rfl,rfl,fun _ => rfl⟩
  rw [if_neg cmo]
  cases uncached : x.uncacheable with
  | true =>
    rw [if_pos rfl,if_pos (by simp)]
    exact ⟨rfl,rfl,rfl,fun _ => rfl⟩
  | false =>
    simp only [Bool.not_eq_true,Bool.or_eq_false_iff] at cmo
    rw [if_neg Bool.false_ne_true,if_neg (by simp [cmo])]
    exact cacheable_sound (served x.op cmo.2 cmo.1.1 cmo.1.2)

theorem outcome_empty : outcome g x y z = .empty ↔ x.valid = false := by
  unfold outcome
  split_ifs <;> simp_all

theorem outcome_linked (linked : outcome g x y z = .linked) : x.valid = true ∧ rtabCheck x = true ∧ y.rtabCheckHit = true := by
  unfold outcome at linked
  split_ifs at linked
  simp_all

theorem outcome_onHold (waits : outcome g x y z = .onHold) :
    x.valid = true ∧ st1Fence x = false ∧ (rtabCheck x && y.rtabCheckHit) = false := by
  unfold outcome at waits
  split_ifs at waits
  simp_all [st1Fence]

theorem outcome_executed (ends : outcome g x y z = .executed) :
    x.valid = true ∧ (x.isError = true ∨ st1Fence x = false ∧ (rtabCheck x && y.rtabCheckHit) = false) := by
  unfold outcome at ends
  split_ifs at ends <;> simp_all [st1Fence]

theorem outcome_replayed (here : x.valid = true) (replayed : x.rtab = true) (plain : st1Fence x = false) :
    outcome g x y z = .executed ∨ outcome g x y z = .onHold := by
  unfold outcome
  simp only [st1Fence,Bool.or_eq_false_iff] at plain
  split_ifs <;> simp_all [rtabCheck]

end Sargantana.CacheEngine
