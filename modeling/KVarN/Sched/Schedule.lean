import KVarN.Sched.Scheduler

/-!
# One scheduling pass

`schedule` gives tokens to the running requests first, preempting others when the
blocks run out, and then admits waiting requests. The locals of the source function
are a `Pass`; each loop body is cut into the pieces between which the source can
leave it.

What other components answer during the call (the grammar compiler, the connectors)
is a parameter, `ScheduleEnv`.

## Main definitions

* `Pass`, `Pass.runningLoop`, `Pass.waitingLoop`, `Pass.finish`.
* `Scheduler.schedule`, `SchedulerOutput`.
-/

namespace KVarN.Sched

open KVarN.Lib KVarN.Core

/-- The state of a request's grammar. -/
inductive GrammarState
  | pending
  | failed
  | ready
  deriving DecidableEq, Repr

/-- The answers of the components around the scheduler during one call. -/
structure ScheduleEnv where
  throttlePrefills : Bool
  grammar : ReqId → GrammarState
  /-- `get_num_new_matched_tokens` of the KV connector. -/
  matchedTokens : ReqId → ℕ → Option ℕ × Bool
  /-- `ensure_cache_available` of the encoder connector. -/
  encoderAvailable : ReqId → ℤ → Bool
  /-- `has_cache_item` of the encoder connector. -/
  encoderRemote : MmHash → Bool

/-- `NewRequestData`: what the workers get for a request that enters the batch. -/
structure NewRequestData where
  reqId : ReqId
  promptTokenIds : Option (List Token)
  mmFeatures : List MmFeature
  blockIds : List (List BlockId)
  numComputedTokens : ℤ
  /-- Only for the V2 model runner. -/
  prefillTokenIds : Option (List Token)

/-- One request's part of `CachedRequestData`. -/
structure CachedRequestData where
  reqId : ReqId
  resumed : Bool
  /-- Only with pipeline parallelism. -/
  newTokenIds : Option (List Token)
  newBlockIds : List (List BlockId)
  numComputedTokens : ℤ
  numOutputTokens : ℤ

/-- `SchedulerOutput`. -/
structure SchedulerOutput where
  scheduledNewReqs : List NewRequestData
  scheduledCachedReqs : List CachedRequestData
  numScheduledTokens : Dict ReqId ℕ
  scheduledSpecDecodeTokens : Dict ReqId (List Token)
  scheduledEncoderInputs : Dict ReqId (List ℕ)
  numCommonPrefixBlocks : List ℕ
  preemptedReqIds : List ReqId
  finishedReqIds : List ReqId
  freeEncoderMmHashes : List MmHash
  newBlockIdsToZero : List BlockId
  kvCacheBlockCopies : List (BlockId × BlockId)
  partialTailOffloads : List (ReqId × ℕ × BlockId × ℕ)
  numSpecTokensToSchedule : ℕ

/-- `total_num_scheduled_tokens`. -/
def SchedulerOutput.totalNumScheduledTokens (out : SchedulerOutput) : ℕ :=
  out.numScheduledTokens.values.sum

/-- The locals of `schedule`. -/
structure Pass (H : Type) where
  s : Scheduler H
  scheduledNewReqs : List ReqId
  scheduledResumedReqs : List ReqId
  scheduledRunningReqs : List ReqId
  preemptedReqs : List ReqId
  reqToNewBlocks : Dict ReqId (List (List BlockId))
  numScheduledTokens : Dict ReqId ℕ
  tokenBudget : ℤ
  inputBudget : ℤ
  scheduledEncoderInputs : Dict ReqId (List ℕ)
  encoderComputeBudget : ℤ
  scheduledSpecDecodeTokens : Dict ReqId (List Token)
  prefillScheduled : Bool
  scheduledLoras : List ℕ
  stepSkippedWaiting : List ReqId

/-! ## The number of tokens of a request -/

section Tokens

variable {H : Type} (cfg : SchedulerConfig H)

/-- Cap a number of tokens by `long_prefill_token_threshold`. -/
def capByThreshold (n : ℤ) : ℤ :=
  if 0 < cfg.longPrefillTokenThreshold ∧ (cfg.longPrefillTokenThreshold : ℤ) < n then
    cfg.longPrefillTokenThreshold
  else n

variable (r : Request H)

/-- The positions at which `_mamba_block_aligned_split` must stop a chunk; 0 is none. -/
def mambaStops (start stop : ℤ) : List ℤ :=
  let bs : ℤ := cfg.cacheBlockSize
  let lastCache : ℤ := (r.numTokens : ℤ) - r.numTokens % bs
  let lastCache := if cfg.useEagle then max (lastCache - bs) 0 else lastCache
  let tail : ℤ :=
    if cfg.mambaPartialCacheHit then
      (r.numPromptTokens / cfg.kv.hashBlockSize * cfg.kv.hashBlockSize : ℕ)
    else 0
  [ if start % bs ≠ 0 then (start / bs + 1) * bs else 0, lastCache,
    if lastCache < tail ∧ tail < r.numPromptTokens then tail else 0,
    if start < r.sharedPrefixBoundary ∧ (r.sharedPrefixBoundary : ℤ) < stop then
      start + (r.sharedPrefixBoundary - start) / bs * bs else 0 ]

/-- The end of a chunk before the mandatory stops: block aligned, unless it ends the
prefill or no aligned chunk could make progress. -/
def mambaAlignedEnd (start stop prefillEnd : ℤ) : ℤ :=
  let bs : ℤ := cfg.cacheBlockSize
  let maxPrefill : ℤ :=
    if 0 < cfg.longPrefillTokenThreshold then
      min (cfg.maxNumScheduledTokens : ℤ) cfg.longPrefillTokenThreshold
    else cfg.maxNumScheduledTokens
  if stop < prefillEnd ∧ (start < stop / bs * bs ∨ bs ≤ maxPrefill) then stop / bs * bs else stop

/-- `_mamba_block_aligned_split`. -/
def mambaBlockAlignedSplit (numNewTokens : ℤ) (numLocal numExternal : ℕ) : ℤ :=
  let start := r.numComputedTokens + numLocal + numExternal
  let prefillEnd : ℤ := max (r.numPromptTokens : ℤ) ((r.numTokens : ℤ) - 1)
  if prefillEnd ≤ start then numNewTokens
  else
    let stop := mambaAlignedEnd cfg start (start + numNewTokens) prefillEnd
    let stops := (mambaStops cfg r start stop).filter fun x => start < x ∧ x < stop
    max ((stops.foldl min stop) - start) 0

/-- `_reserve_prefill_lookahead`. -/
def reservePrefillLookahead (numComputedTokens numNewTokens : ℤ) : ℤ :=
  let remaining := (r.numTokens : ℤ) - numComputedTokens - numNewTokens
  max (if 0 < remaining ∧ remaining < cfg.numPrefillLookahead then
    numNewTokens - (cfg.numPrefillLookahead - remaining) else numNewTokens) 0

/-- The Mamba split, where it applies. -/
def mambaSplit (numNewTokens : ℤ) (numLocal numExternal : ℕ) : ℤ :=
  if cfg.needMambaBlockAlignedSplit then
    mambaBlockAlignedSplit cfg r numNewTokens numLocal numExternal
  else numNewTokens

/-- The tokens a running request asks for, capped by the threshold, the budgets and
the model length. -/
def runningTokens (tokenBudget inputBudget : ℤ) (r : Request H) : ℤ :=
  min
    (min (min (capByThreshold cfg (r.numTokensWithSpec + r.numOutputPlaceholders
      - r.numComputedTokens)) tokenBudget) (inputBudget - cfg.draftSlots))
    (cfg.maxModelLen - r.numComputedTokens - cfg.numSampledTokensPerStep)

/-- Whether a running request sits this step out: its last step is already in
flight, its turn in the pipeline has not come, or prefills are deferred. -/
def notDue (currentStep : ℕ) (deferPrefills : Bool) (r : Request H) : Prop :=
  (0 < r.numOutputPlaceholders ∧
    (r.numPromptTokens + r.maxTokens : ℤ) ≤ r.numComputedTokens + 2 - r.numOutputPlaceholders) ∨
  currentStep < r.nextDecodeEligibleStep ∨ (deferPrefills = true ∧ r.isPrefillChunk = true)
  deriving Decidable

end Tokens

namespace Pass

variable {H : Type}

def start (cfg : SchedulerConfig H) (s : Scheduler H) : Pass H where
  s := { s with currentStep := s.currentStep + 1, kv := { s.kv with kv := s.kv.kv.newStepStarts } }
  scheduledNewReqs := []
  scheduledResumedReqs := []
  scheduledRunningReqs := []
  preemptedReqs := []
  reqToNewBlocks := Dict.empty
  numScheduledTokens := Dict.empty
  tokenBudget := if s.pauseState = .pausedAll then 0 else cfg.maxNumScheduledTokens
  inputBudget := cfg.maxNumBatchedTokens
  scheduledEncoderInputs := Dict.empty
  encoderComputeBudget := cfg.maxNumEncoderInputTokens
  scheduledSpecDecodeTokens := Dict.empty
  prefillScheduled := false
  scheduledLoras := []
  stepSkippedWaiting := []

def setKV (p : Pass H) (kv : KVCacheManager H) : Pass H :=
  { p with s := { p.s with kv := { p.s.kv with kv := kv } } }

def setEncoder (p : Pass H) (e : EncoderCache) : Pass H :=
  { p with s := { p.s with encoder := e } }

def setSched (p : Pass H) (s : Scheduler H) : Pass H := { p with s := s }

variable (cfg : SchedulerConfig H) (env : ScheduleEnv) (p : Pass H) (s : Scheduler H) (v id : ReqId)

/-- `_try_schedule_encoder_inputs`, or nothing for a request without encoder inputs. -/
def encoderPlan (numComputedTokens numNewTokens : ℤ) : Except Fault EncoderPlan :=
  if (p.s.objs id).hasEncoderInputs then
    tryScheduleEncoderInputs cfg.encoder env.encoderRemote (p.s.objs id) id numComputedTokens
      cfg.numPrefillLookahead p.s.encoder numNewTokens p.encoderComputeBudget
  else .ok ⟨p.s.encoder, [], [], numNewTokens, p.encoderComputeBudget, [], 0⟩

/-- The encoder inputs and tokens of a request whose chunk starts at
`numComputedTokens`. -/
def planTokens (numComputedTokens numNewTokens : ℤ) : Except Fault EncoderPlan := do
  let plan ← p.encoderPlan cfg env id numComputedTokens numNewTokens
  pure { plan with numNewTokens :=
    reservePrefillLookahead cfg (p.s.objs id) numComputedTokens plan.numNewTokens }

/-- Record the tokens, blocks and encoder inputs of a request that is scheduled. -/
def grant (numNewTokens : ℕ) (blocks : List (List BlockId)) : Pass H :=
  { p with
    reqToNewBlocks := p.reqToNewBlocks.set id blocks
    numScheduledTokens := p.numScheduledTokens.set id numNewTokens
    tokenBudget := p.tokenBudget - numNewTokens
    inputBudget := p.inputBudget - (numNewTokens + cfg.draftSlots) }

/-- Allocate the encoder inputs of a request that is scheduled. -/
def grantEncoder (plan : EncoderPlan) : Except Fault (Pass H) := do
  let e ← EncoderCache.allocateAll cfg.encoder.isEncoderDecoder (p.s.objs id) id
    (plan.inputs ++ plan.external) p.s.encoder
  let p := p.setEncoder e
  pure (if plan.inputs = [] then p
    else { p with
      scheduledEncoderInputs := p.scheduledEncoderInputs.set id plan.inputs
      encoderComputeBudget := plan.computeBudget })

/-! ## Running requests -/

/-- `max(self.running, key=...)`: the first of those that come last. -/
def lowestPriority (s : Scheduler H) : List ReqId → Option ReqId
  | [] => none
  | id :: ids =>
    match lowestPriority s ids with
    | none => some id
    | some best =>
      if (s.objs id).priority < (s.objs best).priority ∨
          ((s.objs id).priority = (s.objs best).priority ∧
            (s.objs id).arrivalTime < (s.objs best).arrivalTime) then some best
      else some id

/-- Take back what was given to a request earlier in this pass. -/
def rescind : Except Fault (Pass H) := do
  let restored ← orRaise .keyError (p.numScheduledTokens.get? id)
  pure { p with
    scheduledRunningReqs := p.scheduledRunningReqs.erase id
    numScheduledTokens := p.numScheduledTokens.pop id
    tokenBudget := p.tokenBudget + restored
    inputBudget := p.inputBudget + (restored + cfg.draftSlots)
    reqToNewBlocks := p.reqToNewBlocks.pop id
    scheduledSpecDecodeTokens := p.scheduledSpecDecodeTokens.pop id
    scheduledEncoderInputs := p.scheduledEncoderInputs.pop id
    encoderComputeBudget := p.encoderComputeBudget +
      (((p.scheduledEncoderInputs.get? id).getD []).map (p.s.objs id).getNumEncoderEmbeds).sum }

/-- The request to preempt: the last one, or the one of lowest priority. -/
def victim : Except Fault ReqId :=
  match cfg.policy with
  | .priority => orRaise .valueError (lowestPriority p.s p.s.running)
  | .fcfs => orRaise .indexError p.s.running.getLast?

/-- Remove the victim from the running queue. -/
def dropRunning : Pass H :=
  { p with s := { p.s with running :=
      if cfg.policy = .priority then p.s.running.erase v else p.s.running.dropLast } }

/-- Under the priority policy the victim may have been scheduled in this pass. -/
def rescindVictim : Except Fault (Pass H) :=
  if cfg.policy = .priority ∧ v ∈ p.scheduledRunningReqs then p.rescind cfg v else .ok p

def preemptVictim : Except Fault (Pass H) := do
  let p ← (p.dropRunning cfg v).rescindVictim cfg v
  let s ← p.s.preemptRequest cfg v (cfg.hasConnector && cfg.requiresKvDelivery)
  pure { p with s := s, preemptedReqs := p.preemptedReqs ++ [v] }

/-- The cursor of the loop over the running requests after a preemption. -/
def cursorAfter (idx : ℕ) : ℕ :=
  if cfg.policy = .priority ∧ p.s.running.idxOf v < idx then idx - 1 else idx

/-- The arguments of `allocate_slots` for a running request. -/
def runningArgs (numNewTokens : ℕ) : AllocArgs :=
  { numNewTokens := numNewTokens
    numLookaheadTokens := cfg.numLookaheadTokens }

variable [DecidableEq H]

/-- Allocate slots for a running request, preempting others until they fit or the
request itself is preempted. Each round that fails removes one running request, and
`fuel` counts them. -/
def allocateLoop (id : ReqId) (numNewTokens : ℕ) :
    ℕ → ℕ → Pass H → Except Fault (Option (List (List BlockId)) × ℕ × Pass H)
  | 0, _, _ => .error .indexError
  | fuel + 1, idx, p => do
      let (blocks, kv) ← p.s.kv.kv.allocateSlots cfg.kv ((p.s.objs id).toKV id)
        (runningArgs cfg numNewTokens)
      let p := p.setKV kv
      match blocks with
      | some blocks => pure (some blocks, idx, p)
      | none => do
          let v ← p.victim cfg
          let idx := p.cursorAfter cfg v idx
          let p ← p.preemptVictim cfg v
          if v = id then pure (none, idx, p) else allocateLoop id numNewTokens fuel idx p

/-- The draft tokens of a running request that fit in its scheduled tokens. -/
def scheduleSpec (numNewTokens : ℤ) : Pass H :=
  let r := p.s.objs id
  if r.specTokenIds = [] then p
  else
    let numSpec := numNewTokens + r.numComputedTokens - r.numTokens - r.numOutputPlaceholders
    let p :=
      if 0 < numSpec then { p with scheduledSpecDecodeTokens :=
        p.scheduledSpecDecodeTokens.set id (r.specTokenIds.take numSpec.toNat) }
      else p
    p.setSched (p.s.update id fun r => { r with specTokenIds := [] })

/-- Schedule a running request that got its blocks. -/
def commitRunning (plan : EncoderPlan) (blocks : List (List BlockId)) : Except Fault (Pass H) :=
  let p := { p with
    scheduledRunningReqs := p.scheduledRunningReqs ++ [id]
    prefillScheduled := p.prefillScheduled || (p.s.objs id).isPrefillChunk }
  let p := (p.grant cfg id plan.numNewTokens.toNat blocks).scheduleSpec id plan.numNewTokens
  p.grantEncoder cfg id plan

/-- The loop over the running requests, from position `idx` on. Every round moves the
cursor towards the end of the list, and `fuel` counts the requests behind it. -/
def runningLoop (deferPrefills : Bool) : ℕ → ℕ → Pass H → Except Fault (Pass H)
  | 0, _, p => .ok p
  | fuel + 1, idx, p =>
    match p.s.running[idx]? with
    | none => .ok p
    | some id =>
      if p.tokenBudget ≤ 0 ∨ p.inputBudget ≤ cfg.draftSlots then .ok p
      else if notDue p.s.currentStep deferPrefills (p.s.objs id) then
        runningLoop deferPrefills fuel (idx + 1) p
      else do
        let plan ← p.planTokens cfg env id (p.s.objs id).numComputedTokens
          (mambaSplit cfg (p.s.objs id)
            (runningTokens cfg p.tokenBudget p.inputBudget (p.s.objs id)) 0 0)
        let p := p.setEncoder plan.cache
        if plan.numNewTokens = 0 then runningLoop deferPrefills fuel (idx + 1) p
        else do
          let (blocks, idx, p) ← p.allocateLoop cfg id plan.numNewTokens.toNat
            p.s.running.length idx
          match blocks with
          | none => pure p
          | some blocks => do
              let p ← p.commitRunning cfg id plan blocks
              runningLoop deferPrefills fuel (idx + 1) p

/-! ## Waiting requests -/

/-- `_select_waiting_queue_for_scheduling`: the request to consider, and whether it is
the head of the skipped queue. -/
def peek : Option (Bool × ReqId) :=
  match cfg.policy, p.s.waiting, p.s.skippedWaiting with
  | _, [], [] => none
  | _, w :: _, [] => some (false, w)
  | _, [], k :: _ => some (true, k)
  | .fcfs, _ :: _, k :: _ => some (true, k)
  | .priority, w :: _, k :: _ => some (if p.s.lt w k then (false, w) else (true, k))

/-- Pop the head of one of the two queues. -/
def popHead (skipped : Bool) : Except Fault (ReqId × Pass H) :=
  if skipped then do
    let (id, q) ← p.s.popQueue cfg.policy p.s.skippedWaiting
    pure (id, p.setSched { p.s with skippedWaiting := q })
  else do
    let (id, q) ← p.s.popQueue cfg.policy p.s.waiting
    pure (id, p.setSched { p.s with waiting := q })

/-- Set the head of a queue aside for this pass. -/
def skipHead (skipped : Bool) : Except Fault (Pass H) := do
  let (id, p) ← p.popHead cfg skipped
  pure { p with stepSkippedWaiting := p.s.prependQueue cfg.policy p.stepSkippedWaiting id }

/-- A finished load that failed: what was loaded is cached, or the blocks go. -/
def remoteKvFailed : Except Fault (KVCacheManager H) :=
  let r := s.objs id
  if r.numComputedTokens ≠ 0 then do
    let kv ← s.kv.kv.cacheBlocks cfg.kv (r.toKV id) r.numComputedTokens.toNat
    if cfg.needsKvCacheZeroing then kv.recordBlocksForZeroing id r.numComputedTokens.toNat
    else pure kv
  else s.kv.kv.free id

/-- On a full hit the last token is recomputed. -/
def recomputeLast (r : Request H) : Request H :=
  if r.numComputedTokens = r.numTokens then
    { r with numComputedTokens := (r.numTokens : ℤ) - 1 } else r

/-- `_update_waiting_for_remote_kv`, for a request whose load has finished. -/
def updateWaitingForRemoteKv : Except Fault (Scheduler H) := do
  assert (cfg.hasConnector = true)
  if id ∈ s.failedRecvingKvReqIds then do
    let kv ← remoteKvFailed cfg s id
    pure { s with
      kv := { s.kv with kv := kv }
      failedRecvingKvReqIds := s.failedRecvingKvReqIds.filter (· ≠ id)
      finishedRecvingKvReqIds := s.finishedRecvingKvReqIds.filter (· ≠ id) }
  else do
    let kv ← s.kv.kv.cacheBlocks cfg.kv ((s.objs id).toKV id) (s.objs id).numComputedTokens.toNat
    pure (({ s with
      kv := { s.kv with kv := kv }
      finishedRecvingKvReqIds := s.finishedRecvingKvReqIds.filter (· ≠ id) } :
        Scheduler H).update id recomputeLast)

/-- Promote a request whose remote KV is there. -/
def promoteRemoteKv : Except Fault (Bool × Scheduler H) :=
  if id ∉ s.finishedRecvingKvReqIds then .ok (false, s)
  else do
    let s ← updateWaitingForRemoteKv cfg s id
    pure (true, s.update id fun r =>
      { r with status := if r.numPreemptions ≠ 0 then .preempted else .waiting })

/-- `_try_promote_blocked_waiting_request`, for a blocked request. -/
def tryPromote : Except Fault (Bool × Scheduler H) :=
  match (s.objs id).status with
  | .waitingForRemoteKvs => promoteRemoteKv cfg s id
  | .waitingForStructuredOutputGrammar =>
    match env.grammar id with
    | .pending => .ok (false, s)
    | .failed => .ok (false, { s with
        grammarCompileErrorReqs := addTo s.grammarCompileErrorReqs id })
    | .ready => .ok (true, s.update id fun r => { r with status := .waiting })
  | .waitingForStreamingReq =>
    if (s.objs id).streamingQueue.getD [] = [] then .ok (false, s) else .error .assertionError
  | _ => .error .assertionError

/-- Promote a request if it is blocked; whether it can be considered. -/
def promote : Except Fault (Bool × Scheduler H) :=
  if (s.objs id).status.isBlockedWaiting then tryPromote cfg env s id else .ok (true, s)

/-- Reasons to pass over a request: deliverable stale output in flight, or no room for
its LoRA. -/
def passedOver (r : Request H) : Prop :=
  (0 < r.numStaleOutputTokens ∧ r.dropStaleOutput = false) ∨
  (∃ m ∈ cfg.maxLoras, ∃ l ∈ r.loraId, p.scheduledLoras.length = m ∧ l ∉ p.scheduledLoras)
  deriving Decidable

/-- What is already computed of a request that is considered for admission. -/
structure Hit where
  blocks : List (List BlockId)
  numLocal : ℕ
  numExternal : ℕ
  loadKvAsync : Bool

/-- `_get_local_prefix_cache_hit`: blocks, tokens, boundary and whether the groups
diverge. -/
def localHit : Except Fault (List (List BlockId) × ℕ × ℕ × Bool) :=
  if cfg.hasConnector ∧ cfg.supportsDivergentLocalHybridHits then
    s.kv.kv.getComputedBlocksForConnector cfg.kv ((s.objs id).toKV id)
  else do
    let (blocks, n, boundary) ← s.kv.kv.getComputedBlocks cfg.kv ((s.objs id).toKV id)
    pure (blocks, n, boundary, false)

/-- How the connector's answer changes the local hit. A partial tail is dropped when
the remote hit goes beyond it, and kept otherwise. -/
def mergeExternal (blocks : List (List BlockId)) (n ext : ℕ) (async : Bool) : Except Fault Hit :=
  let tail := n % cfg.blockSize
  if tail ≠ 0 ∧ tail < ext then do
    let blocks ← KVCacheManager.truncateComputedBlocks (n - tail) s.kv.kv.managers blocks
    pure ⟨blocks, n - tail, ext, async⟩
  else if tail ≠ 0 then .ok ⟨blocks, n, 0, false⟩
  else .ok ⟨blocks, n, ext, async⟩

/-- Record the shared-prefix boundary of a request. -/
def setBoundary (boundary : ℕ) : Scheduler H :=
  s.update id fun r => { r with sharedPrefixBoundary := boundary }

/-- A deeper local hit that no external tokens back is reconciled between the groups. -/
def reconcileHit (diverged : Bool) (hit : Hit) : Except Fault (Scheduler H × Hit) :=
  if diverged ∧ hit.numExternal = 0 then do
    let (blocks, n, boundary) ← s.kv.kv.getComputedBlocks cfg.kv ((s.objs id).toKV id)
    pure (setBoundary s id boundary, { hit with blocks := blocks, numLocal := n })
  else .ok (s, hit)

/-- The connector's part of the lookup; `none` when it cannot tell yet. -/
def externalHit (blocks : List (List BlockId)) (n : ℕ) (diverged : Bool) :
    Except Fault (Scheduler H × Option Hit) :=
  if cfg.hasConnector then
    match env.matchedTokens id (n - n % cfg.blockSize) with
    | (none, _) => .ok (s, none)
    | (some ext, async) => do
        let hit ← mergeExternal cfg s blocks n ext async
        let (s, hit) ← reconcileHit cfg s id diverged hit
        pure (s, some hit)
  else .ok (s, some ⟨blocks, n, 0, false⟩)

/-- The checks on the computed tokens; `none` when encoder outputs are still on their
way. -/
def checkComputed (hit : Hit) : Except Fault (Option Hit) := do
  let r := s.objs id
  assert (hit.numLocal + hit.numExternal ≤ r.numTokens)
  if cfg.encoder.hasEcConnector ∧ r.mmFeatures ≠ [] ∧
      env.encoderAvailable id ((hit.numLocal + hit.numExternal : ℕ) : ℤ) = false then
    pure none
  else do
    assert (¬ (r.prefillStats = true ∧ r.numPreemptions = 0) ∨
      hit.numLocal + hit.numExternal ≤ r.numPromptTokens)
    pure (some hit)

/-- The lookup of a request without computed tokens. -/
def lookupComputed : Except Fault (Scheduler H × Option Hit) := do
  let (blocks, n, boundary, diverged) ← localHit cfg s id
  let (s, hit) ← externalHit cfg env (setBoundary s id boundary) id blocks n diverged
  match hit with
  | none => pure (s, none)
  | some hit => do
      let hit ← checkComputed cfg env s id hit
      pure (s, hit)

/-- What is computed of a request; `none` to pass it over for now. After an
asynchronous load, or a pause, a waiting request has computed tokens already. -/
def getHit : Except Fault (Scheduler H × Option Hit) :=
  if (s.objs id).numComputedTokens = 0 then lookupComputed cfg env s id
  else .ok (s, some ⟨[], 0, 0, false⟩)

/-- Whether a request that needs a single token is padded to a decode with drafts. -/
def padsSpecDecode (n : ℤ) : Prop :=
  0 < cfg.numSpecTokens ∧ cfg.dynamicSdLookup = none ∧ 0 < cfg.numSampledTokensPerStep ∧
    n = 1 ∧ p.scheduledRunningReqs ≠ [] ∧ p.prefillScheduled = false
  deriving Decidable

/-- The tokens a waiting request asks for and whether they were padded; `none` when
padding does not fit. -/
def wantedTokens (r : Request H) (numComputed : ℤ) : Option (ℤ × Bool) :=
  let n := (r.numTokens : ℤ) - numComputed
  if padsSpecDecode cfg p n then
    if min p.tokenBudget (p.inputBudget - cfg.draftSlots) < 1 + cfg.numSpecTokens ∨
        (cfg.maxModelLen : ℤ) < numComputed + (1 + cfg.numSpecTokens) then none
    else some (1 + cfg.numSpecTokens, true)
  else some (n, false)

/-- The tokens of a waiting request within the budget and at Mamba boundaries; `none`
to stop admitting. -/
def admissionTokens (deferPrefills : Bool) (r : Request H) (hit : Hit) :
    Except Fault (Option (ℤ × Bool)) :=
  let numComputed := r.numComputedTokens + hit.numLocal + hit.numExternal
  let budget := min p.tokenBudget (p.inputBudget - cfg.draftSlots)
  if deferPrefills ∧ numComputed < (r.numTokens : ℤ) - 1 then .ok none
  else
    match wantedTokens cfg p r numComputed with
    | none => .ok none
    | some (n, pad) =>
      if cfg.enableChunkedPrefill = false ∧ budget < capByThreshold cfg n then .ok none
      else do
        assert (0 < min (capByThreshold cfg n) budget)
        let n := mambaSplit cfg r (min (capByThreshold cfg n) budget) hit.numLocal hit.numExternal
        pure (if cfg.needMambaBlockAlignedSplit ∧ n = 0 then none else some (n, pad))

/-- An admission that has its tokens and encoder inputs. -/
structure Admission where
  hit : Hit
  plan : EncoderPlan
  pad : Bool

/-- Plan the tokens of a request that runs in this step; `none` to stop admitting. The
encoder cache may have changed in any case. -/
def planAdmission (deferPrefills : Bool) (id : ReqId) (hit : Hit) :
    Except Fault (Pass H × Option Admission) := do
  let r := p.s.objs id
  let tokens ← admissionTokens cfg p deferPrefills r hit
  match tokens with
  | none => pure (p, none)
  | some (n, pad) => do
      let plan ← p.planTokens cfg env id (r.numComputedTokens + hit.numLocal + hit.numExternal) n
      pure (p.setEncoder plan.cache, if plan.numNewTokens = 0 then none else some ⟨hit, plan, pad⟩)

/-- An asynchronous load plans no tokens for this step. -/
def planLoad (hit : Hit) : Except Fault (Pass H × Option Admission) := do
  assert (0 < hit.numExternal)
  pure (p, some ⟨hit, ⟨p.s.encoder, [], [], 0, p.encoderComputeBudget, [], 0⟩, false⟩)

/-- `_request_remaining_blocks`. -/
def requestRemainingBlocks : Except Fault ℤ :=
  let r := s.objs id
  let n := min r.numTokens cfg.maxModelLen
  KVCacheManager.getNumBlocksToAllocate s.kv.kv.pool id [] 0
    { numTokens := n
      newComputedBlocks := []
      totalComputedTokens := r.numComputedTokens.toNat
      numLocalComputedTokens := r.numComputedTokens.toNat
      numTokensMainModel := n
      applyAdmissionCap := true } 0 s.kv.kv.managers

/-- `_inflight_prefill_reserved_blocks`. -/
def inflightPrefillReservedBlocks (s : Scheduler H) : List ReqId → Except Fault ℤ
  | [] => .ok 0
  | id :: ids => do
      let n ← requestRemainingBlocks cfg s id
      let m ← inflightPrefillReservedBlocks s ids
      pure (n + m)

/-- The blocks an asynchronous load must leave to the prefills in flight. -/
def reservedBlocks (loadKvAsync : Bool) : Except Fault ℤ :=
  if loadKvAsync then inflightPrefillReservedBlocks cfg s s.inflightPrefills else .ok 0

section

omit [DecidableEq H]

/-- The arguments of `allocate_slots` for an admission. -/
def admissionArgs (s : Scheduler H) (id : ReqId) (a : Admission) (reserved : ℤ) : AllocArgs where
  numNewTokens := a.plan.numNewTokens.toNat
  numNewComputedTokens := a.hit.numLocal
  newComputedBlocks := a.hit.blocks
  numLookaheadTokens := if a.hit.loadKvAsync then 0 else cfg.numLookaheadTokens
  numExternalComputedTokens := a.hit.numExternal
  delayCacheBlocks := a.hit.loadKvAsync
  numEncoderTokens :=
    if cfg.encoder.isEncoderDecoder then
      (a.plan.inputs.map (s.objs id).getNumEncoderEmbeds).sum
    else 0
  fullSequenceMustFit := cfg.schedulerReserveFullIsl
  reservedBlocks := reserved
  hasScheduledReqs := decide (s.running ≠ [])

/-- A request whose blocks did not fit lets go of its encoder inputs. -/
def abandon : Except Fault (Pass H) :=
  if (p.s.objs id).hasEncoderInputs then do
    let s ← p.s.freeEncoder cfg id
    pure (p.setSched s)
  else .ok p

/-- Put the popped request aside until its KV has been loaded. -/
def startLoad (hit : Hit) : Pass H :=
  let numComputed := (p.s.objs id).numComputedTokens + hit.numLocal + hit.numExternal
  let s := p.s.update id fun r =>
    { r with status := .waitingForRemoteKvs, numComputedTokens := numComputed }
  let s := { s with
    inflightPrefills := addTo s.inflightPrefills id
    skipZeroBlockIds :=
      if cfg.needsKvCacheZeroing then
        s.skipZeroBlockIds ++ s.kv.kv.getZeroingBlockIdsInRange id hit.numLocal numComputed.toNat
      else s.skipZeroBlockIds }
  { p with s := s, stepSkippedWaiting := s.prependQueue cfg.policy p.stepSkippedWaiting id }

/-- Note a request as new or as resumed. -/
def noteAdmitted : Except Fault (Pass H) :=
  match (p.s.objs id).status with
  | .waiting => .ok { p with scheduledNewReqs := p.scheduledNewReqs ++ [id] }
  | .preempted => .ok { p with scheduledResumedReqs := p.scheduledResumedReqs ++ [id] }
  | _ => .error .runtimeError

/-- The LoRAs of the batch with that of an admitted request. -/
def lorasWith : List ℕ :=
  match cfg.maxLoras, (p.s.objs id).loraId with
  | some _, some l => addTo p.scheduledLoras l
  | _, _ => p.scheduledLoras

end

/-- The popped request starts to run. Only one that will still be prefilling is kept
among the prefills in flight. -/
def enterRunning (id : ReqId) (a : Admission) : Pass H :=
  let r := p.s.objs id
  let numComputed := r.numComputedTokens + a.hit.numLocal + a.hit.numExternal
  { p with
    s := { p.s.update id fun r =>
        { r with status := .running, numComputedTokens := numComputed } with
      running := p.s.running ++ [id]
      inflightPrefills :=
        if numComputed + a.plan.numNewTokens < r.numTokens then addTo p.s.inflightPrefills id
        else p.s.inflightPrefills }
    scheduledSpecDecodeTokens :=
      if a.pad then p.scheduledSpecDecodeTokens.set id (List.replicate cfg.numSpecTokens (-1))
      else p.scheduledSpecDecodeTokens }

def admitRequest (id : ReqId) (a : Admission) : Except Fault (Pass H) := do
  let p ← p.noteAdmitted id
  let p := ({ p with scheduledLoras := p.lorasWith cfg id } : Pass H).grant cfg id
    a.plan.numNewTokens.toNat (p.s.kv.kv.getBlocks id)
  (p.enterRunning cfg id a).grantEncoder cfg id a.plan

variable (deferPrefills skipped : Bool)

/-- A request whose blocks were allocated leaves its queue. -/
def takeHead (a : Admission) : Except Fault (Pass H) := do
  let (id, p) ← p.popHead cfg skipped
  if a.hit.loadKvAsync then pure (p.startLoad cfg id a.hit) else p.admitRequest cfg id a

/-- Allocate slots for an admission; whether to go on admitting. -/
def allocateAdmission (id : ReqId) (a : Admission) : Except Fault (Bool × Pass H) := do
  let reserved ← reservedBlocks cfg p.s a.hit.loadKvAsync
  let (blocks, kv) ← p.s.kv.kv.allocateSlots cfg.kv ((p.s.objs id).toKV id)
    (admissionArgs cfg p.s id a reserved)
  match blocks with
  | none => do
      let p ← (p.setKV kv).abandon cfg id
      pure (false, p)
  | some _ => do
      let p ← (p.setKV kv).takeHead cfg skipped a
      pure (true, p)

/-- Plan an admission; `none` to stop admitting. -/
def planHit (id : ReqId) (hit : Hit) : Except Fault (Pass H × Option Admission) :=
  if hit.loadKvAsync then p.planLoad hit else p.planAdmission cfg env deferPrefills id hit

/-- A request that can be admitted as far as its hit goes. -/
def admitHit (id : ReqId) (hit : Hit) : Except Fault (Bool × Pass H) := do
  let (p, a) ← p.planHit cfg env deferPrefills id hit
  match a with
  | none => pure (false, p)
  | some a => p.allocateAdmission cfg skipped id a

/-- A request that is not blocked any more. -/
def considerHead (id : ReqId) : Except Fault (Bool × Pass H) :=
  if passedOver cfg p (p.s.objs id) then do
    let p ← p.skipHead cfg skipped
    pure (true, p)
  else do
    let (s, hit) ← getHit cfg env p.s id
    match hit with
    | none => do
        let p ← (p.setSched s).skipHead cfg skipped
        pure (true, p)
    | some hit => (p.setSched s).admitHit cfg env deferPrefills skipped id hit

/-- One round of the admission loop for the head of a queue; whether to go on. -/
def waitingStep (id : ReqId) : Except Fault (Bool × Pass H) := do
  let (ready, s) ← promote cfg env p.s id
  if ready then (p.setSched s).considerHead cfg env deferPrefills skipped id
  else do
    let p ← (p.setSched s).skipHead cfg skipped
    pure (true, p)

/-- The loop that admits waiting requests. Every round but the last takes a request
out of a queue, and `fuel` counts the queued ones. -/
def waitingLoop (deferPrefills : Bool) : ℕ → Pass H → Except Fault (Pass H)
  | 0, p => .ok p
  | fuel + 1, p =>
    match p.peek cfg with
    | none => .ok p
    | some (skipped, id) =>
      if p.tokenBudget ≤ 0 ∨ p.inputBudget ≤ cfg.draftSlots ∨ (cfg.maxNumRunningReqs : ℤ)
            ≤ p.s.running.length + p.s.numWaitingForStreamingInput then .ok p
      else do
        let (more, p) ← p.waitingStep cfg env deferPrefills skipped id
        if more then waitingLoop deferPrefills fuel p else pure p

/-- Put the requests that were set aside back in front of the skipped queue. -/
def requeue : Pass H :=
  let s := { p.s with
    skippedWaiting := p.s.prependAll cfg.policy p.s.skippedWaiting p.stepSkippedWaiting }
  { p with
    s := { s with
      prefillCapacityBound :=
        if deferPrefills then s.prefillCapacityBound else decide (s.waiting ≠ []) }
    stepSkippedWaiting := [] }

def admitWaiting : Except Fault (Pass H) :=
  if p.preemptedReqs = [] ∧ p.s.pauseState = .unpaused then do
    let p ← p.waitingLoop cfg env deferPrefills (p.s.waiting.length + p.s.skippedWaiting.length)
    pure (p.requeue cfg deferPrefills)
  else .ok p

/-- The LoRAs of the running requests that were scheduled. -/
def collectLoras : Except Fault (Pass H) :=
  match cfg.maxLoras with
  | none => .ok p
  | some m => do
      let loras := (p.scheduledRunningReqs.filterMap fun id => (p.s.objs id).loraId).filter (0 < ·)
      assert (loras.dedup.length ≤ m)
      pure { p with scheduledLoras := loras.dedup }

end Pass

/-! ## The end of the pass -/

section Finish

variable {H : Type} (cfg : SchedulerConfig H) (out : SchedulerOutput) (p : Pass H)

/-- The assertions at the end of the loops. -/
def Pass.checkBudgets : Except Fault Unit :=
  assert (p.numScheduledTokens.values.sum ≤ cfg.maxNumScheduledTokens ∧
    0 ≤ p.tokenBudget ∧ 0 ≤ p.inputBudget ∧ p.s.running.length ≤ cfg.maxNumRunningReqs ∧
    p.scheduledNewReqs.length + p.scheduledResumedReqs.length + p.scheduledRunningReqs.length
      ≤ p.s.running.length)

/-- The data of a request that enters the batch. -/
def Pass.newRequestData (id : ReqId) : NewRequestData where
  reqId := id
  promptTokenIds := (p.s.objs id).promptTokenIds
  mmFeatures := (p.s.objs id).mmFeatures
  blockIds := (p.reqToNewBlocks.get? id).getD []
  numComputedTokens := (p.s.objs id).numComputedTokens
  prefillTokenIds := if cfg.useV2ModelRunner then some (p.s.objs id).allTokenIds else none

/-- `_make_cached_request_data`, for one request. -/
def Pass.cachedRequestData (resumed : Bool) (id : ReqId) : CachedRequestData where
  reqId := id
  resumed := resumed
  newTokenIds :=
    if 1 < cfg.ppSize ∧ cfg.asyncScheduling = false then
      some (((p.s.objs id).allTokenIds.drop (p.s.objs id).numComputedTokens.toNat).take
        ((p.numScheduledTokens.get? id).getD 0
          - ((p.scheduledSpecDecodeTokens.get? id).getD []).length))
    else none
  newBlockIds := (p.reqToNewBlocks.get? id).getD []
  numComputedTokens := (p.s.objs id).numComputedTokens
  numOutputTokens := (p.s.objs id).numOutputTokens + (p.s.objs id).numOutputPlaceholders

/-- The requests that are sent as new: the V2 model runner takes resumed ones as new. -/
def Pass.newReqs : List ReqId :=
  if cfg.useV2ModelRunner then p.scheduledNewReqs ++ p.scheduledResumedReqs
  else p.scheduledNewReqs

/-- The requests that are sent as resumed. -/
def Pass.resumedReqs : List ReqId :=
  if cfg.useV2ModelRunner then [] else p.scheduledResumedReqs

/-- Dynamic speculative decoding: the number of draft tokens for the batch size. -/
def Pass.numSpecTokensToSchedule : Except Fault ℕ :=
  match cfg.dynamicSdLookup with
  | none => .ok cfg.numSpecTokens
  | some table =>
    if p.numScheduledTokens.keys = [] then .ok cfg.numSpecTokens
    else orRaise .indexError table[p.numScheduledTokens.keys.length]?

/-- The producer's hand-off of partial tails. -/
def takeOffloads (kv : KVState H) : Except Fault (List (ReqId × ℕ × BlockId × ℕ) × KVState H) :=
  if cfg.hasConnector ∧ cfg.isKvProducer then do
    let (offloads, m) ← kv.kv.takePartialTailOffloads
    pure (offloads, { kv with kv := m })
  else .ok ([], kv)

/-- What the end of the pass does to a scheduled request. -/
def Scheduler.advance (kv : KVState H) (n : ℕ) (r : Request H) : Request H :=
  { r with
    numComputedTokens := r.numComputedTokens + n
    numInFlightTokens := r.numInFlightTokens + n
    lastSchedSeq := if kv.deferBlockFree then kv.schedStepSeq else r.lastSchedSeq
    isPrefillChunk := decide (r.numComputedTokens + n < r.numTokens + r.numOutputPlaceholders) }

/-- What `AsyncScheduler` adds: the placeholders of the tokens to come. -/
def Scheduler.expect (currentStep numSpec numPlaceholders : ℕ) (r : Request H) : Request H :=
  if r.isPrefillChunk then r
  else { r with
    numOutputPlaceholders := r.numOutputPlaceholders + (cfg.numSampledTokensPerStep + numSpec : ℕ)
    specTokenIds := List.replicate numPlaceholders (-1)
    nextDecodeEligibleStep :=
      if cfg.useV2ModelRunner then currentStep + cfg.ppSize else r.nextDecodeEligibleStep }

/-- The number of draft tokens scheduled for a request. -/
def SchedulerOutput.numSpec (id : ReqId) : ℕ :=
  ((out.scheduledSpecDecodeTokens.get? id).getD []).length

/-- `_update_after_schedule` for one request. -/
def Scheduler.afterSchedule (kv : KVState H) (currentStep : ℕ) (id : ReqId) (n : ℕ)
    (r : Request H) : Request H :=
  if cfg.asyncScheduling then
    expect cfg currentStep (out.numSpec id) out.numSpecTokensToSchedule (advance kv n r)
  else advance kv n r

/-- The scheduled requests advance, in order. -/
def Scheduler.advanceAll (s : Scheduler H) : Scheduler H :=
  let kv := s.kv
  let step := s.currentStep
  out.numScheduledTokens.entries.foldl (fun s e =>
    s.update e.1 (afterSchedule cfg out kv step e.1 e.2)) s

/-- `_update_after_schedule`. -/
def Scheduler.updateAfterSchedule (s : Scheduler H) : Except Fault (Scheduler H) :=
  if ∀ id ∈ out.numScheduledTokens.keys, id ∈ s.requests then
    let s := s.advanceAll cfg out
    .ok { s with
      inflightPrefills := s.inflightPrefills.filter fun id =>
        ¬ (id ∈ out.numScheduledTokens.keys ∧ (s.objs id).isPrefillChunk = false)
      finishedReqIds := []
      resetPreemptedReqIds := []
      numSpecTokenPlaceholders :=
        if cfg.asyncScheduling then out.numSpecTokensToSchedule else s.numSpecTokenPlaceholders }
  else .error .keyError

/-- The common prefix of the running requests. -/
def Pass.commonPrefix : List ℕ :=
  match p.s.running with
  | [] => p.s.kv.kv.managers.map fun _ => 0
  | id :: _ => p.s.kv.kv.getNumCommonPrefixBlocks cfg.kv id

/-- What the end of the pass takes from the KV cache: the hand-offs, the copies and the
blocks to zero. -/
structure Drained (H : Type) where
  offloads : List (ReqId × ℕ × BlockId × ℕ)
  copies : List (BlockId × BlockId)
  zero : List BlockId
  kv : KVState H

/-- Drain the KV cache at the end of a pass. -/
def Pass.drainKV : Except Fault (Drained H) := do
  let (offloads, kv) ← takeOffloads cfg p.s.kv
  let (copies, kv) := kv.takeCopies
  let (zero, m) := kv.kv.takeNewBlockIds
  pure
    { offloads := offloads
      copies := copies
      zero :=
        if cfg.needsKvCacheZeroing then zero.filter fun b => decide (b ∉ p.s.skipZeroBlockIds)
        else []
      kv := { kv with kv := m } }

def Pass.output (d : Drained H) (numSpec : ℕ) : SchedulerOutput where
  scheduledNewReqs := (p.newReqs cfg).map (p.newRequestData cfg)
  scheduledCachedReqs := p.scheduledRunningReqs.map (p.cachedRequestData cfg false) ++
    (p.resumedReqs cfg).map (p.cachedRequestData cfg true)
  numScheduledTokens := p.numScheduledTokens
  scheduledSpecDecodeTokens := p.scheduledSpecDecodeTokens
  scheduledEncoderInputs := p.scheduledEncoderInputs
  numCommonPrefixBlocks := p.commonPrefix cfg
  preemptedReqIds := p.s.resetPreemptedReqIds
  finishedReqIds := p.s.finishedReqIds
  freeEncoderMmHashes := (p.s.encoder.getFreedMmHashes cfg.encoder.isEncoderDecoder).1
  newBlockIdsToZero := d.zero
  kvCacheBlockCopies := d.copies
  partialTailOffloads := d.offloads
  numSpecTokensToSchedule := numSpec

/-- The scheduler when the output of a pass is put together. Only a step with tokens
advances the fence of deferred frees. -/
def Pass.issued (d : Drained H) : Scheduler H :=
  { p.s with
    kv := if 0 < p.numScheduledTokens.values.sum then d.kv.stepScheduled else d.kv
    encoder := (p.s.encoder.getFreedMmHashes cfg.encoder.isEncoderDecoder).2
    skipZeroBlockIds := if cfg.needsKvCacheZeroing then [] else p.s.skipZeroBlockIds }

/-- The part of `schedule` after the loops: the output is put together and the
scheduled requests advance. -/
def Pass.finish : Except Fault (SchedulerOutput × Scheduler H) := do
  p.checkBudgets cfg
  let d ← p.drainKV cfg
  let numSpec ← p.numSpecTokensToSchedule cfg
  let s ← (p.issued cfg d).updateAfterSchedule cfg (p.output cfg d numSpec)
  pure (p.output cfg d numSpec, s)

end Finish

/-- Whether prefills are deferred to a later step. -/
def Scheduler.deferPrefills {H : Type} (s : Scheduler H) (throttle : Bool) : Bool :=
  throttle && !s.prefillCapacityBound && s.running.any fun id => !(s.objs id).isPrefillChunk

/-- The loops of `schedule`. -/
def Scheduler.schedulePass {H : Type} [DecidableEq H] (cfg : SchedulerConfig H)
    (env : ScheduleEnv) (s : Scheduler H) : Except Fault (Pass H) := do
  let deferPrefills := s.deferPrefills env.throttlePrefills
  let p ← (Pass.start cfg s).runningLoop cfg env deferPrefills s.running.length 0
  let p ← p.collectLoras cfg
  p.admitWaiting cfg env deferPrefills

/-- `schedule`. -/
def Scheduler.schedule {H : Type} [DecidableEq H] (cfg : SchedulerConfig H) (env : ScheduleEnv)
    (s : Scheduler H) : Except Fault (SchedulerOutput × Scheduler H) := do
  let p ← s.schedulePass cfg env
  p.finish cfg

end KVarN.Sched
