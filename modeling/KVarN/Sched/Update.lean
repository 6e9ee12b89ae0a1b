import KVarN.Sched.Schedule

/-!
# Outputs and requests from outside

`updateFromOutput` takes the model's output for an earlier scheduling pass and
brings the requests up to date: rejected drafts are taken back, new tokens are
appended, finished requests are freed. The other entry points add and finish
requests, reset the prefix cache and set draft tokens.

## Main definitions

* `ModelRunnerOutput`, `Scheduler.updateFromOutput`.
* `Scheduler.addRequest`, `Scheduler.finishRequests`, `Scheduler.resetPrefixCache`,
  `Scheduler.updateDraftTokenIds`.
* `Call`, `Scheduler.call` — one call of any entry point.
-/

namespace KVarN.Sched

open KVarN.Lib KVarN.Core

/-- `KVConnectorOutput`. -/
structure KVConnectorOutput where
  invalidBlockIds : List BlockId
  finishedRecving : List ReqId
  finishedSending : List ReqId

/-- What comes back for a scheduled step, with the answers of the connectors and the
grammars while it is processed. -/
structure ModelRunnerOutput where
  sampledTokenIds : ReqId → List Token
  /-- Whether there is a pooler output. -/
  poolerOutput : ReqId → Bool
  /-- Whether a request's grammar rejects the tokens that were appended. -/
  grammarRejects : ReqId → List Token → Bool
  kvConnectorOutput : Option KVConnectorOutput
  /-- Whether a connector wants to keep the blocks of a finished request. -/
  delaysFree : ReqId → Bool

/-- `EngineCoreOutput`: the tokens a client gets and why the request finished. -/
structure EngineCoreOutput where
  requestId : ReqId
  newTokenIds : List Token
  finishReason : Option RequestStatus
  deriving DecidableEq

namespace Scheduler

variable {H : Type} (cfg : SchedulerConfig H)

/-! ## Finishing requests -/

/-- The requests among `ids` that are known and not finished. -/
def unfinishedAmong (s : Scheduler H) (ids : List ReqId) : List ReqId :=
  ids.dedup.filter fun id => decide (id ∈ s.requests) && !(s.objs id).isFinished

/-- Take requests out of the queues. -/
def dequeue (s : Scheduler H) (ids : List ReqId) : Scheduler H :=
  let running := ids.filter fun id => decide ((s.objs id).status = .running)
  let waiting := ids.filter fun id => decide ((s.objs id).status ≠ .running)
  { s with
    running := removeAll s.running running
    waiting := if waiting = [] then s.waiting else s.removeFromQueue cfg.policy s.waiting waiting
    skippedWaiting :=
      if waiting = [] then s.skippedWaiting
      else s.removeFromQueue cfg.policy s.skippedWaiting waiting
    numWaitingForStreamingInput := s.numWaitingForStreamingInput -
      (ids.filter fun id => decide ((s.objs id).status = .waitingForStreamingReq)).length }

/-- Finish one request that has left the queues. A load from a connector that is still
going on keeps the blocks. -/
def finishOne (status : RequestStatus) (delaysFree : ReqId → Bool) (s : Scheduler H)
    (id : ReqId) : Except Fault (Scheduler H) :=
  let remote := (s.objs id).status = .waitingForRemoteKvs
  let delay := decide (remote ∧ id ∉ s.finishedRecvingKvReqIds)
  let s := if remote then
    { s with
      finishedRecvingKvReqIds := s.finishedRecvingKvReqIds.filter (· ≠ id)
      failedRecvingKvReqIds := s.failedRecvingKvReqIds.filter (· ≠ id) } else s
  freeRequest cfg (s.update id fun r => { r with status := status }) id delay delaysFree

def finishAll (status : RequestStatus) (delaysFree : ReqId → Bool) :
    List ReqId → Scheduler H → Except Fault (Scheduler H)
  | [], s => .ok s
  | id :: ids, s => do
      let s ← finishOne cfg status delaysFree s id
      finishAll status delaysFree ids s

/-- `finish_requests`: the requests that were finished by it. -/
def finishRequests (ids : List ReqId) (status : RequestStatus) (delaysFree : ReqId → Bool)
    (s : Scheduler H) : Except Fault (List ReqId × Scheduler H) := do
  assert (status.isFinished = true)
  let valid := s.unfinishedAmong ids
  let s ← finishAll cfg status delaysFree valid (s.dequeue cfg valid)
  pure (valid, s)

/-! ## Failed loads -/

/-- The accumulators of `_update_requests_with_invalid_blocks`. -/
structure InvalidScan (H : Type) where
  s : Scheduler H
  affected : List ReqId
  blocksToEvict : List BlockId
  marked : List BlockId

/-- One request of `_update_requests_with_invalid_blocks`. Of the invalid blocks in its
table only those no earlier request has marked count as its own, and the first of them
cuts its computed tokens. -/
def scanInvalid (invalid : List BlockId) (scheduled : Dict ReqId ℕ) (evict : Bool)
    (x : InvalidScan H) (id : ReqId) : Except Fault (InvalidScan H) :=
  match x.s.kv.kv.getBlocks id with
  | [table] =>
    let numComputed := (x.s.objs id).numComputedTokens - (scheduled.get? id).getD 0
    let bad := (table.take (cdiv numComputed.toNat cfg.blockSize)).zipIdx.filter fun b =>
      decide (b.1 ∈ invalid)
    let fresh := bad.filter fun b => decide (b.1 ∉ x.marked)
    match bad, fresh with
    | [], _ => .ok x
    | _ :: _, [] => .ok { x with
        s := x.s.update id fun r => { r with numComputedTokens := numComputed }
        affected := x.affected ++ [id] }
    | _ :: _, b :: _ => .ok
        { s := x.s.update id fun r =>
            { r with numComputedTokens := ((b.2 * cfg.blockSize : ℕ) : ℤ) }
          affected := x.affected ++ [id]
          blocksToEvict := if evict then x.blocksToEvict ++ table.drop b.2 else x.blocksToEvict
          marked := x.marked ++ fresh.map Prod.fst }
  | _ => .error .valueError

/-- `_update_requests_with_invalid_blocks`. -/
def scanAllInvalid (invalid : List BlockId) (scheduled : Dict ReqId ℕ) (evict : Bool) :
    List ReqId → InvalidScan H → Except Fault (InvalidScan H)
  | [], x => .ok x
  | id :: ids, x => do
      let x ← scanInvalid cfg invalid scheduled evict x id
      scanAllInvalid invalid scheduled evict ids x

variable [DecidableEq H]

/-- Evict the blocks of failed loads from the prefix cache. -/
def evictFailed (s : Scheduler H) (ids : List BlockId) : Except Fault (Scheduler H) :=
  if ids = [] then .ok s
  else do
    let kv ← s.kv.kv.evictBlocks ids.dedup
    pure { s with kv := { s.kv with kv := kv } }

/-- `_handle_invalid_blocks`: the requests whose output is skipped. -/
def handleInvalidBlocks (invalid : List BlockId) (scheduled : Dict ReqId ℕ) (s : Scheduler H) :
    Except Fault (List ReqId × Scheduler H) := do
  let loading := (s.iterQueue cfg.policy s.skippedWaiting).filter fun id =>
    decide ((s.objs id).status = .waitingForRemoteKvs)
  let x ← scanAllInvalid cfg invalid scheduled false loading ⟨s, [], [], []⟩
  let y ← scanAllInvalid cfg invalid scheduled true x.s.running ⟨x.s, [], [], []⟩
  if cfg.recomputeKvLoadFailures then
    pure (y.affected, { y.s with
      failedRecvingKvReqIds := x.affected.foldl addTo y.s.failedRecvingKvReqIds })
  else do
    let s ← y.s.evictFailed y.blocksToEvict
    pure (x.affected ++ y.affected, s)

/-- The failed loads an output reports. -/
def handleKvOutput (scheduled : Dict ReqId ℕ) (o : Option KVConnectorOutput) (s : Scheduler H) :
    Except Fault (List ReqId × Scheduler H) :=
  match o with
  | none => .ok ([], s)
  | some o =>
    if o.invalidBlockIds = [] then .ok ([], s)
    else handleInvalidBlocks cfg o.invalidBlockIds scheduled s

/-! ## One request of an output -/

section

omit [DecidableEq H]

/-- The tokens of a processed step are no longer in flight, and no longer stale. -/
def drain (n : ℕ) (r : Request H) : Request H :=
  { r with
    numInFlightTokens := r.numInFlightTokens - n
    numStaleOutputTokens :=
      if 0 < r.numStaleOutputTokens then r.numStaleOutputTokens - n else r.numStaleOutputTokens }

/-- Rejected draft tokens are taken back, unless the request was preempted since. -/
def rejectDrafts (numDraft numGenerated : ℕ) (stale : Bool) (r : Request H) : Request H :=
  if numDraft ≠ 0 ∧ (numGenerated ≠ 0 ∨ cfg.numSampledTokensPerStep = 0) ∧ stale = false then
    let rejected : ℤ := numDraft - (numGenerated - cfg.numSampledTokensPerStep : ℕ)
    { r with
      numComputedTokens :=
        if 0 < r.numComputedTokens then r.numComputedTokens - rejected else r.numComputedTokens
      numOutputPlaceholders :=
        if 0 < r.numOutputPlaceholders then r.numOutputPlaceholders - rejected
        else r.numOutputPlaceholders }
  else r

def setReq (s : Scheduler H) (id : ReqId) (r : Request H) : Scheduler H := s.update id fun _ => r

/-- Items whose placeholders are computed are freed. -/
def freeComputedEncoderInputs (s : Scheduler H) (id : ReqId) : Except Fault (Scheduler H) :=
  if (s.objs id).hasEncoderInputs then do
    let e ← freeEncoderInputs cfg.encoder.isEncoderDecoder cfg.numPrefillLookahead (s.objs id) id
      s.encoder
    pure { s with encoder := e }
  else .ok s

end

variable (m : ModelRunnerOutput) (s : Scheduler H) (id : ReqId)

/-- `AsyncScheduler._update_request_with_output`, after the tokens were appended. -/
def settlePlaceholders (wasRunning : Bool) (numKept : ℕ) (stale : Bool) :
    Except Fault (Scheduler H) := do
  let s := if stale then s else s.update id fun r =>
    { r with numOutputPlaceholders := r.numOutputPlaceholders - numKept }
  assert (stale = true ∨ 0 ≤ (s.objs id).numOutputPlaceholders)
  if wasRunning then do
    let r := s.objs id
    let kv ← s.kv.kv.cacheBlocks cfg.kv (r.toKV id)
      (r.numComputedTokens - r.numOutputPlaceholders).toNat
    pure { s with kv := { s.kv with kv := kv } }
  else pure s

/-- `_update_request_with_output`: the tokens that were appended and whether the request
stopped. -/
def appendOutput (generated : List Token) (stale : Bool) :
    Except Fault (List Token × Bool × Scheduler H) := do
  let wasRunning := decide ((s.objs id).status = .running)
  let (kept, stopped, r) ← (s.objs id).updateWithOutput cfg.hasher cfg.maxModelLen generated
  if cfg.asyncScheduling then do
    let s ← settlePlaceholders cfg (s.setReq id r) id wasRunning kept.length stale
    pure (kept, stopped, s)
  else pure (kept, stopped, s.setReq id r)

/-- The tokens of an output, or what ends a request that samples none. -/
def takeOutput (stale : Bool) : Except Fault (List Token × Bool × Scheduler H) :=
  if m.sampledTokenIds id ≠ [] then appendOutput cfg s id (m.sampledTokenIds id) stale
  else if ((s.objs id).pooling = true ∧ m.poolerOutput id = true) ∨ (cfg.isEncoderOnly = true ∧
        ((s.objs id).numPromptTokens : ℤ) ≤ (s.objs id).numComputedTokens) then
    .ok ([], true, s.update id fun r => { r with status := .finishedStopped })
  else .ok ([], false, s)

/-- A grammar that rejects the new tokens ends the request. -/
def applyGrammar (kept : List Token) (stopped : Bool) : Bool × Scheduler H :=
  if kept ≠ [] ∧ (s.objs id).useStructuredOutput = true ∧ m.grammarRejects id kept = true then
    (true, s.update id fun r =>
      { r with status := .finishedError, resumable := false })
  else (stopped, s)

/-- The accumulators of the loop over an output's requests. -/
structure Draining (H : Type) where
  s : Scheduler H
  stoppedRunning : List ReqId
  stoppedPreempted : List ReqId
  outputs : List EngineCoreOutput

/-- A request that stopped is freed, or goes on as a session. -/
def settleStopped : Except Fault (Scheduler H) := do
  let (finished, s) ← handleStoppedRequest cfg s id
  if finished then freeRequest cfg s id false m.delaysFree else pure s

/-- The end of a request's turn: a stop is recorded by the queue the request stood in,
and an output is emitted. -/
def concludeOutput (x : Draining H) (s : Scheduler H) (id : ReqId) (statusBefore : RequestStatus)
    (kept : List Token) (stopped : Bool) : Except Fault (Draining H) :=
  let emit := kept ≠ [] ∨ m.poolerOutput id = true ∨ stopped = true
  let s := if emit then s.update id fun r => { r with prefillStats := false } else s
  if stopped then do
    let reason := (s.objs id).status
    let s ← settleStopped cfg m s id
    pure
      { s := s
        stoppedRunning :=
          if statusBefore = .running then addTo x.stoppedRunning id else x.stoppedRunning
        stoppedPreempted :=
          if statusBefore = .running then x.stoppedPreempted else addTo x.stoppedPreempted id
        outputs := x.outputs ++ [⟨id, kept, some reason⟩] }
  else .ok { x with s := s, outputs := if emit then x.outputs ++ [⟨id, kept, none⟩] else x.outputs }

/-- The output of an unfinished request is applied. -/
def deliver (out : SchedulerOutput) (m : ModelRunnerOutput) (x : Draining H) (id : ReqId)
    (stale : Bool) : Except Fault (Draining H) := do
  let s := x.s.update id (rejectDrafts cfg (out.numSpec id) (m.sampledTokenIds id).length stale)
  let s ← freeComputedEncoderInputs cfg s id
  let statusBefore := (s.objs id).status
  let (kept, stopped, s) ← takeOutput cfg m s id stale
  let (stopped, s) := applyGrammar m s id kept stopped
  concludeOutput cfg m x s id statusBefore kept stopped

/-- A request that is still known, once its tokens are drained. -/
def processKnown (out : SchedulerOutput) (m : ModelRunnerOutput) (failed : List ReqId)
    (x : Draining H) (id : ReqId) (n : ℕ) : Except Fault (Draining H) := do
  let stale := decide (0 < (x.s.objs id).numStaleOutputTokens)
  let x : Draining H := { x with s := x.s.update id (drain n) }
  assert (stale = false ∨ 0 ≤ (x.s.objs id).numStaleOutputTokens)
  if id ∈ failed ∨ (x.s.objs id).isFinished = true ∨
      (stale = true ∧ (x.s.objs id).dropStaleOutput = true) then pure x
  else deliver cfg out m x id stale

def processOne (out : SchedulerOutput) (m : ModelRunnerOutput) (failed : List ReqId)
    (x : Draining H) (id : ReqId) (n : ℕ) : Except Fault (Draining H) := do
  assert (0 < n)
  if id ∈ x.s.requests then processKnown cfg out m failed x id n else pure x

/-- The loop over the scheduled requests of an output. -/
def processAll (out : SchedulerOutput) (m : ModelRunnerOutput) (failed : List ReqId) :
    List (ReqId × ℕ) → Draining H → Except Fault (Draining H)
  | [], x => .ok x
  | (id, n) :: es, x => do
      let x ← processOne cfg out m failed x id n
      processAll out m failed es x

section

omit [DecidableEq H]

/-- The requests that stopped leave the queues they stood in. -/
def removeStopped (x : Draining H) : Scheduler H :=
  { x.s with
    running := removeAll x.s.running x.stoppedRunning
    waiting :=
      if x.stoppedPreempted = [] then x.s.waiting
      else x.s.removeFromQueue cfg.policy x.s.waiting x.stoppedPreempted
    skippedWaiting :=
      if x.stoppedPreempted = [] then x.s.skippedWaiting
      else x.s.removeFromQueue cfg.policy x.s.skippedWaiting x.stoppedPreempted }

/-- A transfer to this scheduler has finished. -/
def finishRecving (s : Scheduler H) (id : ReqId) : Except Fault (Scheduler H) := do
  assert (id ∈ s.requests)
  if (s.objs id).status = .waitingForRemoteKvs then
    pure { s with finishedRecvingKvReqIds := addTo s.finishedRecvingKvReqIds id }
  else s.freeBlocks id

/-- A transfer from this scheduler has finished. -/
def finishSending (s : Scheduler H) (id : ReqId) : Except Fault (Scheduler H) := do
  assert (id ∈ s.requests)
  s.freeBlocks id

/-- Apply an operation for each id in turn. -/
def forEach (f : Scheduler H → ReqId → Except Fault (Scheduler H)) :
    List ReqId → Scheduler H → Except Fault (Scheduler H)
  | [], s => .ok s
  | id :: ids, s => do
      let s ← f s id
      forEach f ids s

/-- `_update_from_kv_xfer_finished`. -/
def updateFromKvXferFinished (o : Option KVConnectorOutput) (s : Scheduler H) :
    Except Fault (Scheduler H) :=
  match o with
  | none => .ok s
  | some o => do
      let s ← forEach finishRecving o.finishedRecving s
      forEach finishSending o.finishedSending s

end

/-- Requests with a failed grammar or, if failed loads are not recomputed, a failed load
are finished with an error. -/
def finishFailed (failed : List ReqId) (delaysFree : ReqId → Bool) (s : Scheduler H) :
    Except Fault (List EngineCoreOutput × Scheduler H) := do
  let ids := s.grammarCompileErrorReqs ++ if cfg.recomputeKvLoadFailures then [] else failed
  let s := { s with grammarCompileErrorReqs := [] }
  if ids = [] then pure ([], s)
  else do
    let (done, s) ← finishRequests cfg ids .finishedError delaysFree s
    pure (done.map fun id => ⟨id, [], some .finishedError⟩, s)

/-- A step with tokens is processed: the frees it fenced can happen. -/
def noteProcessed (out : SchedulerOutput) (s : Scheduler H) : Scheduler H :=
  if 0 < out.totalNumScheduledTokens then { s with kv := s.kv.stepProcessed } else s

/-- `update_from_output`: the outputs for the clients. -/
def updateFromOutput (out : SchedulerOutput) (m : ModelRunnerOutput) (s : Scheduler H) :
    Except Fault (List EngineCoreOutput × Scheduler H) := do
  let (failed, s) ← handleKvOutput cfg out.numScheduledTokens m.kvConnectorOutput
    (s.noteProcessed out)
  let x ← processAll cfg out m failed out.numScheduledTokens.entries ⟨s, [], [], []⟩
  let (errors, s) ← finishFailed cfg failed m.delaysFree (removeStopped cfg x)
  let s ← updateFromKvXferFinished m.kvConnectorOutput s
  pure (x.outputs ++ errors, s)

/-! ## The other entry points -/

section

omit [DecidableEq H]

/-- `add_request`: a new request, or the next input of a session. -/
def addRequest (delaysFree : ReqId → Bool) (s : Scheduler H) (id : ReqId) (r : Request H) :
    Except Fault (Scheduler H) :=
  if id ∈ s.requests then
    if (s.objs id).status ≠ .waitingForStreamingReq then do
      let q ← orRaise .assertionError (s.objs id).streamingQueue
      pure (s.update id fun r' => { r' with streamingQueue := some (q ++ [r.toUpdate]) })
    else
      match r.toUpdate with
      | some u => updateRequestAsSession cfg s id u
      | none => do
          let (_, s) ← finishRequests cfg [id] .finishedAborted delaysFree s
          pure s
  else
    let r := if r.resumable then { r with streamingQueue := some [] } else r
    let s := enqueueWaitingRequest cfg (s.setReq id r) id
    .ok { s with requests := s.requests ++ [id] }

/-- Preempt the running requests, the last one first. -/
def preemptAll : List ReqId → Scheduler H → Except Fault (Scheduler H)
  | [], s => .ok s
  | id :: ids, s => do
      let s ← preemptRequest cfg { s with running := s.running.dropLast } id true
      preemptAll ids s

/-- Preempt all running requests, if that is asked for. -/
def preemptForReset (resetRunning : Bool) (s : Scheduler H) : Except Fault (Scheduler H) :=
  if resetRunning then preemptAll cfg s.running.reverse s else .ok s

/-- `reset_prefix_cache`, with the connector's answer if it is asked to reset as well. -/
def resetPrefixCache (resetRunning : Bool) (connectorResets : Option Bool) (s : Scheduler H) :
    Except Fault (Bool × Scheduler H) := do
  let s ← preemptForReset cfg resetRunning s
  let (ok, kv) := s.kv.kv.resetPrefixCache
  if resetRunning ∧ ok = false then .error .runtimeError
  else pure (ok && ((connectorResets.getD true) || !cfg.hasConnector),
    { s with kv := { s.kv with kv := kv } })

/-- `update_draft_token_ids` for one request; the drafts are those its grammar allows. -/
def updateDraft (s : Scheduler H) (id : ReqId) (drafts : List Token) : Scheduler H :=
  if id ∈ s.requests ∧ (s.objs id).isFinished = false then
    s.update id fun r => { r with specTokenIds := if r.isPrefillChunk then [] else drafts }
  else s

/-- `update_draft_token_ids`. -/
def updateDraftTokenIds (drafts : List (ReqId × List Token)) (s : Scheduler H) : Scheduler H :=
  drafts.foldl (fun s d => s.updateDraft d.1 d.2) s

end

end Scheduler

/-- A call of one of the entry points that change the scheduler. -/
inductive Call
  | addRequest (id : ReqId) (q : RequestParams) (delaysFree : ReqId → Bool)
  | finishRequests (ids : List ReqId) (status : RequestStatus) (delaysFree : ReqId → Bool)
  | finishAllRequests (status : RequestStatus) (delaysFree : ReqId → Bool)
  | schedule (env : ScheduleEnv)
  | updateFromOutput (out : SchedulerOutput) (m : ModelRunnerOutput)
  | updateDraftTokenIds (drafts : List (ReqId × List Token))
  | resetPrefixCache (resetRunning : Bool) (connectorResets : Option Bool)
  | setPauseState (p : PauseState)

def Scheduler.call {H : Type} [DecidableEq H] (cfg : SchedulerConfig H) (s : Scheduler H) :
    Call → Except Fault (Scheduler H)
  | .addRequest id q d => do
      let r ← Request.create cfg.hasher q
      s.addRequest cfg d id r
  | .finishRequests ids st d => do
      let (_, s) ← s.finishRequests cfg ids st d
      pure s
  | .finishAllRequests st d => do
      let (_, s) ← s.finishRequests cfg s.requests st d
      pure s
  | .schedule env => do
      let (_, s) ← s.schedule cfg env
      pure s
  | .updateFromOutput out m => do
      let (_, s) ← s.updateFromOutput cfg out m
      pure s
  | .updateDraftTokenIds ds => .ok (s.updateDraftTokenIds ds)
  | .resetPrefixCache b c => do
      let (_, s) ← s.resetPrefixCache cfg b c
      pure s
  | .setPauseState p => .ok { s with pauseState := p }

end KVarN.Sched
