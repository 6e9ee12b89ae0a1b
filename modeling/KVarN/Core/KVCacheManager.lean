import KVarN.Core.SingleType

/-!
# The KV-cache manager

`KVCacheManager` coordinates the single-type managers over one block pool. Its
main operation is `allocateSlots`: free the blocks attention no longer reads,
compare a prediction of the blocks needed with the free ones, and then take the
prefix-cache hits, blocks for externally computed tokens and blocks for the new
tokens, in this order, before registering the full blocks in the prefix cache.

`KVState` adds what the scheduler keeps around the manager: the blocks whose
return to the pool waits for a step that is still in flight.

## Main definitions

* `KVCacheConfig` — the static configuration; the coordinator class follows from it.
* `KVCacheManager.allocateSlots`, `KVCacheManager.cacheBlocks`,
  `KVCacheManager.free`, `KVCacheManager.popBlocksForFree`.
* `KVState.freeRequestBlocks`, `KVState.drainDeferredFrees` — deferred frees.
-/

namespace KVarN.Core

open KVarN.Lib

/-- The static configuration of the KV cache. -/
structure KVCacheConfig where
  maxModelLen : ℕ
  enableCaching : Bool
  hashBlockSize : ℕ
  schedulerBlockSize : ℕ
  numReprefillableTokens : ℕ
  retentionInterval : Option ℕ
  watermarkBlocks : ℕ
  dcpWorldSize : ℕ
  deriving DecidableEq

/-- One manager with its static part. -/
abbrev Managed (H : Type) := Group × Manager H

/-- The managers in group order, the shared pool and the pinned hand-off blocks. -/
structure KVCacheManager (H : Type) where
  pool : BlockPool H
  managers : List (Managed H)
  partialTailPins : Dict ReqId (List BlockId)

/-- Run an operation on each manager in turn, with its index; the pool is threaded
through and the outputs are collected. -/
def eachManager {H α : Type}
    (f : ℕ → Group → Manager H → BlockPool H → Except Fault (α × Manager H × BlockPool H)) :
    ℕ → List (Managed H) → BlockPool H → Except Fault (List α × List (Managed H) × BlockPool H)
  | _, [], p => .ok ([], [], p)
  | i, (g, m) :: ms, p => do
      let (a, m, p) ← f i g m p
      let (as, ms, p) ← eachManager f (i + 1) ms p
      pure (a :: as, (g, m) :: ms, p)

/-- An operation without output. -/
def noOutput {α : Type} (x : Except Fault α) : Except Fault (Unit × α) := do
  let a ← x
  pure ((), a)

/-- Whether a group's manager can look up hits inside a block. -/
def Group.supportsFineGrainedHashLookup (g : Group) : Bool :=
  match g.spec with
  | .fullAttention | .rswa _ | .mamba _ _ => true
  | _ => false

/-- Whether a group makes partial hash hits worthwhile. -/
def Group.isPartialMamba (g : Group) (hashBlockSize : ℕ) : Bool :=
  match g.spec with
  | .mamba .align _ => hashBlockSize < g.blockSize
  | _ => false

/-- The arguments of `allocate_slots` besides the request. The canonical empty
`KVCacheBlocks` is any list of empty lists. -/
structure AllocArgs where
  numNewTokens : ℕ
  numNewComputedTokens : ℕ := 0
  newComputedBlocks : List (List BlockId) := []
  numLookaheadTokens : ℕ := 0
  numExternalComputedTokens : ℕ := 0
  delayCacheBlocks : Bool := false
  numEncoderTokens : ℕ := 0
  fullSequenceMustFit : Bool := false
  reservedBlocks : ℤ := 0
  hasScheduledReqs : Bool := true

namespace KVCacheManager

variable {H : Type}

/-- A fresh manager over the given groups. -/
def init (cfg : KVCacheConfig) (numBlocks : ℕ) (groups : List Group) : KVCacheManager H where
  pool := BlockPool.init numBlocks cfg.enableCaching cfg.hashBlockSize
  managers := groups.map fun g => (g, Manager.init)
  partialTailPins := Dict.empty

variable (cfg : KVCacheConfig) (s : KVCacheManager H)

/-- The class of the coordinator: hybrid with caching and several groups. -/
def isHybrid : Bool :=
  cfg.enableCaching && decide (s.managers.length ≠ 1)

/-- `enable_partial_hash_hits` of the hybrid coordinator. -/
def enablePartialHashHits : Bool :=
  decide (cfg.dcpWorldSize = 1) &&
    s.managers.any (fun gm => gm.1.isPartialMamba cfg.hashBlockSize) &&
    s.managers.all fun gm =>
      gm.1.supportsFineGrainedHashLookup || decide (gm.1.blockSize = cfg.hashBlockSize)

def getBlocks (r : ReqId) : List (List BlockId) :=
  s.managers.map fun gm => gm.2.blocksOf r

/-- `remove_skipped_blocks`. -/
def removeSkippedBlocks (s : KVCacheManager H) (r : ReqId) (processed : ℕ)
    (numPromptTokens : Option ℕ) : Except Fault (KVCacheManager H) := do
  let (_, ms, p) ← eachManager (fun _ g m p =>
    noOutput (g.removeSkippedBlocks m p r processed numPromptTokens)) 0 s.managers s.pool
  pure { s with managers := ms, pool := p }

/-- `free`: the pinned blocks first, then each group's. -/
def free (s : KVCacheManager H) (r : ReqId) : Except Fault (KVCacheManager H) := do
  let pool := s.pool.freeBlocks ((s.partialTailPins.get? r).getD [])
  let (_, ms, p) ← eachManager (fun _ g m p => .ok ((), g.free m p r)) 0 s.managers pool
  pure { pool := p, managers := ms, partialTailPins := s.partialTailPins.pop r }

/-- `pop_blocks_for_free`. -/
def popBlocksForFree (s : KVCacheManager H) (r : ReqId) : List BlockId × KVCacheManager H :=
  let res := s.managers.map fun gm => gm.1.popBlocksForFree gm.2 r
  ((s.partialTailPins.get? r).getD [] ++ (res.map Prod.fst).flatten, { s with
      managers := (s.managers.map Prod.fst).zip (res.map Prod.snd)
      partialTailPins := s.partialTailPins.pop r })

/-- `take_kv_cache_block_copies`: the drained copies and their retained ends. -/
def takeKvCacheBlockCopies : List (BlockId × BlockId) × List BlockId × KVCacheManager H :=
  let copies := s.managers.flatMap fun gm => gm.2.pendingCowCopies
  (copies, copies.flatMap (fun c => [c.1, c.2]),
    { s with managers := s.managers.map fun gm => (gm.1, { gm.2 with pendingCowCopies := [] }) })

/-- Pin each handed-off block for its request. -/
def pinOffloads : List (ReqId × ℕ × BlockId × ℕ) → KVCacheManager H →
    Except Fault (KVCacheManager H)
  | [], s => .ok s
  | (r, _, b, _) :: es, s => do
      let pool ← s.pool.touch [b]
      pinOffloads es { s with
        pool := pool
        partialTailPins :=
          s.partialTailPins.set r ((s.partialTailPins.get? r).getD [] ++ [b]) }

/-- `take_partial_tail_offloads`: the drained hand-offs, now pinned. -/
def takePartialTailOffloads : Except Fault (List (ReqId × ℕ × BlockId × ℕ) × KVCacheManager H) := do
  let offloads := s.managers.flatMap fun gm => gm.2.pendingPartialTailOffloads
  let s ← pinOffloads offloads { s with
    managers := s.managers.map fun gm => (gm.1, { gm.2 with pendingPartialTailOffloads := [] }) }
  pure (offloads, s)

/-- `take_new_block_ids`. -/
def takeNewBlockIds : List BlockId × KVCacheManager H :=
  (s.managers.flatMap fun gm => gm.2.newBlockIds,
    { s with managers := s.managers.map fun gm => (gm.1, { gm.2 with newBlockIds := [] }) })

/-- `record_blocks_for_zeroing`. -/
def recordBlocksForZeroing (r : ReqId) (startToken : ℕ) : Except Fault (KVCacheManager H) := do
  assert (∀ gm ∈ s.managers, gm.1.recordNewBlockIds = true → startToken % gm.1.blockSize = 0)
  pure { s with
    managers := s.managers.map fun gm =>
      (gm.1, if gm.1.recordNewBlockIds then { gm.2 with
        newBlockIds := gm.2.newBlockIds ++ (gm.2.blocksOf r).drop (startToken / gm.1.blockSize) }
        else gm.2) }

/-- `get_zeroing_block_ids_in_range`. -/
def getZeroingBlockIdsInRange (r : ReqId) (startToken endToken : ℕ) : List BlockId :=
  s.managers.flatMap fun gm =>
    if gm.1.recordNewBlockIds then
      ((gm.2.blocksOf r).take (cdiv endToken gm.1.blockSize)).drop (startToken / gm.1.blockSize)
    else []

/-- `get_num_common_prefix_blocks`: without a prefix cache there are none. -/
def getNumCommonPrefixBlocks (cfg : KVCacheConfig) (s : KVCacheManager H) (r : ReqId) : List ℕ :=
  s.managers.map fun gm =>
    if cfg.enableCaching then gm.1.getNumCommonPrefixBlocks gm.2 s.pool r else 0

/-- `new_step_starts`. -/
def newStepStarts : KVCacheManager H :=
  { s with managers := s.managers.map fun gm => (gm.1, { gm.2 with cachedBlocksThisStep := [] }) }

variable [DecidableEq H]

/-- The demand on one group: cross-attention makes a single static allocation for
the encoder input, the other groups see their own hits. -/
def groupDemand (g : Group) (nc : List BlockId) (numEncoderTokens : ℕ) (d : Group.Demand) :
    Group.Demand :=
  if g.spec = .crossAttention then
    { d with
      numTokens := numEncoderTokens
      newComputedBlocks := []
      totalComputedTokens := 0
      numLocalComputedTokens := 0
      numTokensMainModel := numEncoderTokens }
  else { d with newComputedBlocks := nc }

/-- `KVCacheCoordinator.get_num_blocks_to_allocate`. -/
def getNumBlocksToAllocate (p : BlockPool H) (r : ReqId) (ncs : List (List BlockId))
    (numEncoderTokens : ℕ) (d : Group.Demand) : ℕ → List (Managed H) → Except Fault ℤ
  | _, [] => .ok 0
  | i, (g, m) :: ms => do
      let n ← g.getNumBlocksToAllocate m p r (groupDemand g (ncs.getD i []) numEncoderTokens d)
      let rest ← getNumBlocksToAllocate p r ncs numEncoderTokens d (i + 1) ms
      pure (n + rest)

/-- Every group's local hits. -/
def addLocalComputedBlocks (s : KVCacheManager H) (r : ReqId) (ncs : List (List BlockId))
    (numLocal numExternal : ℕ) : Except Fault (KVCacheManager H) := do
  let (_, ms, p) ← eachManager (fun i g m p =>
    noOutput (g.addLocalComputedBlocks m p r (ncs.getD i []) numLocal numExternal))
    0 s.managers s.pool
  pure { s with managers := ms, pool := p }

/-- Every group's blocks for externally computed tokens, if there are such tokens. -/
def allocateExternalComputedBlocks (s : KVCacheManager H) (r : ReqId)
    (numLocal numExternal : ℕ) : Except Fault (KVCacheManager H) :=
  if 0 < numExternal then do
    let (_, ms, p) ← eachManager (fun _ g m p =>
      noOutput (g.allocateExternalComputedBlocks m p r numLocal numExternal)) 0 s.managers s.pool
    pure { s with managers := ms, pool := p }
  else .ok s

/-- `allocate_new_computed_blocks`: every group's hits are touched before the first
block is taken for external tokens. -/
def allocateNewComputedBlocks (r : ReqId) (ncs : List (List BlockId)) (numLocal numExternal : ℕ) :
    Except Fault (KVCacheManager H) :=
  if ∃ gm ∈ s.managers, r ∈ gm.2.numCachedBlock then do
    assert (∀ bs ∈ ncs, bs = [])
    pure s
  else do
    let s ← s.addLocalComputedBlocks r ncs numLocal numExternal
    s.allocateExternalComputedBlocks r numLocal numExternal

/-- `KVCacheCoordinator.allocate_new_blocks`. -/
def allocateNewBlocks (s : KVCacheManager H) (r : ReqId)
    (numTokens numTokensMainModel numEncoderTokens : ℕ) :
    Except Fault (List (List BlockId) × KVCacheManager H) := do
  let (bs, ms, p) ← eachManager (fun _ g m p =>
    g.allocateNewBlocks m p r (if g.spec = .crossAttention then numEncoderTokens else numTokens)
      numTokensMainModel) 0 s.managers s.pool
  pure (bs, { s with managers := ms, pool := p })

/-- `_align_cacheable`. -/
def alignCacheable (numTokens : ℕ) : ℕ :=
  if enablePartialHashHits cfg s then numTokens
  else numTokens / cfg.schedulerBlockSize * cfg.schedulerBlockSize

/-- The number of tokens a group may cache when `numComputedTokens` are computed. -/
def numTokensToCache (g : Group) (numComputedTokens : ℕ) : ℕ :=
  let finalized := numComputedTokens - cfg.numReprefillableTokens
  if isHybrid cfg s then
    -- an EAGLE group matches one block past each boundary and drops it
    if g.useEagle ∧ 0 < alignCacheable cfg s numComputedTokens then
      min finalized (alignCacheable cfg s finalized + g.blockSize)
    else alignCacheable cfg s numComputedTokens
  else finalized

variable (req : KVRequest H) (numComputedTokens : ℕ)

/-- `KVCacheCoordinator.cache_blocks`. -/
def coordinatorCacheBlocks : Except Fault (KVCacheManager H) := do
  let (_, ms, p) ← eachManager (fun _ g m p =>
    noOutput (g.cacheBlocks m p req (numTokensToCache cfg s g numComputedTokens)
      cfg.retentionInterval)) 0 s.managers s.pool
  pure { s with managers := ms, pool := p }

/-- `cache_blocks`. -/
def cacheBlocks : Except Fault (KVCacheManager H) :=
  if cfg.enableCaching then coordinatorCacheBlocks cfg s req numComputedTokens else .ok s

section

omit [DecidableEq H]

variable (args : AllocArgs)

/-- The watermark applies to requests awaiting admission while others run. -/
def watermark : ℤ :=
  if args.hasScheduledReqs ∧ req.awaitingAdmission then cfg.watermarkBlocks else 0

/-- Locally computed tokens after the new hits. -/
def numLocalComputedTokens : ℕ :=
  req.numComputedTokens + args.numNewComputedTokens

/-- All computed tokens, capped by the model length. -/
def totalComputedTokens : ℕ :=
  min (numLocalComputedTokens req args + args.numExternalComputedTokens) cfg.maxModelLen

/-- Tokens of the main model after the step. -/
def numTokensMainModel : ℕ :=
  totalComputedTokens cfg req args + args.numNewTokens

/-- Tokens that need a slot, lookahead included. -/
def numTokensNeedSlot : ℕ :=
  min (numTokensMainModel cfg req args + args.numLookaheadTokens) cfg.maxModelLen

/-- The demand of the admission gate: the whole sequence, capped. -/
def fullDemand : Group.Demand where
  numTokens := min req.numTokens cfg.maxModelLen
  newComputedBlocks := []
  totalComputedTokens := totalComputedTokens cfg req args
  numLocalComputedTokens := numLocalComputedTokens req args
  numTokensMainModel := min req.numTokens cfg.maxModelLen
  applyAdmissionCap := true

def stepDemand : Group.Demand where
  numTokens := numTokensNeedSlot cfg req args
  newComputedBlocks := []
  totalComputedTokens := numLocalComputedTokens req args + args.numExternalComputedTokens
  numLocalComputedTokens := numLocalComputedTokens req args
  numTokensMainModel := numTokensMainModel cfg req args
  applyAdmissionCap := false

end

variable (args : AllocArgs)

/-- The admission gate of `allocate_slots`: the whole sequence must fit. -/
def fullSequenceFits : Except Fault Bool :=
  if args.fullSequenceMustFit then do
    let n ← getNumBlocksToAllocate s.pool req.requestId args.newComputedBlocks
      args.numEncoderTokens (fullDemand cfg req args) 0 s.managers
    pure (decide (n + watermark cfg req args ≤ s.pool.getNumFreeBlocks))
  else .ok true

/-- The computed-block phase of `allocate_slots`: skipped for the canonical empty
hit without external tokens. -/
def takeComputedBlocks : Except Fault (KVCacheManager H) :=
  if (∃ bs ∈ args.newComputedBlocks, bs ≠ []) ∨ 0 < args.numExternalComputedTokens then
    s.allocateNewComputedBlocks req.requestId args.newComputedBlocks
      (numLocalComputedTokens req args) args.numExternalComputedTokens
  else .ok s

/-- The caching phase of `allocate_slots`. Draft tokens that may be rejected are not
cached. -/
def cacheScheduled : Except Fault (KVCacheManager H) :=
  if ¬ cfg.enableCaching ∨ args.delayCacheBlocks then .ok s
  else s.coordinatorCacheBlocks cfg req
    (min (totalComputedTokens cfg req args + args.numNewTokens) req.numTokens)

/-- The part of `allocate_slots` after the free-block check. -/
def commitSlots : Except Fault (List (List BlockId) × KVCacheManager H) := do
  let s ← s.takeComputedBlocks req args
  let (bs, s) ← s.allocateNewBlocks req.requestId (numTokensNeedSlot cfg req args)
    (numTokensMainModel cfg req args) args.numEncoderTokens
  let s ← s.cacheScheduled cfg req args
  pure (bs, s)

/-- `allocate_slots`: the new blocks per group, or `none` when they do not fit. -/
def allocateSlots : Except Fault (Option (List (List BlockId)) × KVCacheManager H) :=
  if args.numNewTokens = 0 ∧ args.numExternalComputedTokens = 0 then .error .valueError
  else do
    let fits ← fullSequenceFits cfg s req args
    if fits = false then pure (none, s)
    else do
      let s ← s.removeSkippedBlocks req.requestId
        (totalComputedTokens cfg req args - req.numInFlightTokens) (some req.numPromptTokens)
      let n ← getNumBlocksToAllocate s.pool req.requestId args.newComputedBlocks
        args.numEncoderTokens (stepDemand cfg req args) 0 s.managers
      if s.pool.getNumFreeBlocks - args.reservedBlocks < n + watermark cfg req args then
        pure (none, s)
      else do
        let (bs, s) ← commitSlots cfg s req args
        pure (some bs, s)

/-- `evict_blocks`. -/
def evictBlocks (s : KVCacheManager H) (ids : List BlockId) : Except Fault (KVCacheManager H) := do
  let p ← s.pool.evictBlocks ids
  pure { s with pool := p }

/-- `reset_prefix_cache`. -/
def resetPrefixCache (s : KVCacheManager H) : Bool × KVCacheManager H :=
  (s.pool.resetPrefixCache.1, { s with pool := s.pool.resetPrefixCache.2 })

end KVCacheManager

/-- The manager together with the scheduler's fences for deferred frees. -/
structure KVState (H : Type) where
  kv : KVCacheManager H
  deferBlockFree : Bool
  schedStepSeq : ℕ
  processedStepSeq : ℕ
  deferredFrees : List (ℕ × List BlockId)

namespace KVState

variable {H : Type}

def init (cfg : KVCacheConfig) (numBlocks : ℕ) (groups : List Group) (deferBlockFree : Bool) :
    KVState H where
  kv := KVCacheManager.init cfg numBlocks groups
  deferBlockFree := deferBlockFree
  schedStepSeq := 0
  processedStepSeq := 0
  deferredFrees := []

variable (s : KVState H)

/-- `Scheduler._free_request_blocks`: deferred while a step that was scheduled with
the request may still write its blocks. -/
def freeRequestBlocks (r : ReqId) (lastSchedSeq : ℕ) : Except Fault (KVState H) :=
  if ¬ s.deferBlockFree ∨ lastSchedSeq ≤ s.processedStepSeq then do
    let kv ← s.kv.free r
    pure { s with kv := kv }
  else
    let res := s.kv.popBlocksForFree r
    .ok { s with
      kv := res.2
      deferredFrees :=
        if res.1 = [] then s.deferredFrees else s.deferredFrees ++ [(s.schedStepSeq, res.1)] }

/-- `Scheduler._free_cow_retained_blocks`. -/
def freeCowRetainedBlocks (bs : List BlockId) (fence : ℕ) : KVState H :=
  if ¬ s.deferBlockFree ∨ fence ≤ s.processedStepSeq then
    { s with kv := { s.kv with pool := s.kv.pool.freeBlocks bs } }
  else { s with deferredFrees := s.deferredFrees ++ [(fence, bs.reverse)] }

/-- Draining the copies at the end of `schedule`: their ends are retained until the
step that runs the copy, numbered `sched_step_seq + 1`, has been processed. -/
def takeCopies : List (BlockId × BlockId) × KVState H :=
  let res := s.kv.takeKvCacheBlockCopies
  (res.1, if res.2.1 = [] then { s with kv := res.2.2 }
    else ({ s with kv := res.2.2 } : KVState H).freeCowRetainedBlocks res.2.1 (s.schedStepSeq + 1))

/-- The loop of `Scheduler._drain_deferred_frees` over the queued entries. -/
def drainLoop (processed : ℕ) : List (ℕ × List BlockId) → BlockPool H →
    List (ℕ × List BlockId) × BlockPool H
  | [], p => ([], p)
  | (fence, bs) :: rest, p =>
    if processed < fence then ((fence, bs) :: rest, p)
    else drainLoop processed rest (p.freeBlocks bs.reverse)

/-- `Scheduler._drain_deferred_frees`. -/
def drainDeferredFrees : KVState H :=
  let res := drainLoop s.processedStepSeq s.deferredFrees s.kv.pool
  { s with deferredFrees := res.1, kv := { s.kv with pool := res.2 } }

/-- A step with tokens has been scheduled. -/
def stepScheduled : KVState H :=
  if s.deferBlockFree then { s with schedStepSeq := s.schedStepSeq + 1 } else s

/-- The output of a step with tokens has come back. -/
def stepProcessed : KVState H :=
  if s.deferBlockFree then
    ({ s with processedStepSeq := s.processedStepSeq + 1 } : KVState H).drainDeferredFrees
  else s

end KVState

/-! ## Small deployments -/

/-- One rank, with hashes of `hashBlockSize` and blocks of `blockSize` tokens. -/
def KVCacheConfig.small (enableCaching : Bool) (hashBlockSize blockSize : ℕ) : KVCacheConfig where
  maxModelLen := 64
  enableCaching := enableCaching
  hashBlockSize := hashBlockSize
  schedulerBlockSize := blockSize
  numReprefillableTokens := 0
  retentionInterval := none
  watermarkBlocks := 0
  dcpWorldSize := 1

/-- A group without a cap, with the block size of the scheduler. -/
def Group.small (cfg : KVCacheConfig) (hpos : 0 < cfg.schedulerBlockSize) (spec : KVCacheSpec)
    (groupId : ℕ) (useEagle : Bool) : Group where
  spec := spec
  specId := groupId
  blockSize := cfg.schedulerBlockSize
  blockSize_pos := hpos
  groupId := groupId
  enableCaching := cfg.enableCaching
  useEagle := useEagle
  schedulerBlockSize := cfg.schedulerBlockSize
  recordNewBlockIds := false
  maxAdmissionBlocksPerRequest := none

/-- A request with nothing in flight. -/
def KVRequest.small {H : Type} (r : ReqId) (numTokens numPromptTokens numComputedTokens : ℕ)
    (hashes : List H) (awaitingAdmission : Bool) : KVRequest H where
  requestId := r
  numTokens := numTokens
  numPromptTokens := numPromptTokens
  numComputedTokens := numComputedTokens
  numInFlightTokens := 0
  blockHashes := hashes
  sharedPrefixBoundary := 0
  skipReadingPrefixCache := false
  awaitingAdmission := awaitingAdmission

end KVarN.Core
