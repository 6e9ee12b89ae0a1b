import KVarN.Core.Lookup
import KVarN.Lib.Heapq
import KVarN.Sched.Encoder

/-!
# The scheduler's state

A `Scheduler` holds the requests, the three queues they stand in, the KV-cache
manager with its deferred frees and the encoder cache. Requests are objects in the
source; here `objs` maps an id to its request and `requests` lists the ids that
are keys of the source's dictionary, so a request that was just deleted can still
be compared with others in a queue.

A queue is a list of ids: first-come-first-served queues are used as deques, the
priority policy keeps them as binary heaps ordered by the requests they name.

This module has the operations every entry point shares: queue operations, freeing
and preempting a request, and the splice of a streaming session.

## Main definitions

* `SchedulerConfig`, `Scheduler`, `Scheduler.update`.
* `Scheduler.addToQueue`, `Scheduler.popQueue`, `Scheduler.prependQueue`.
* `Scheduler.freeRequest`, `Scheduler.preemptRequest`, `Scheduler.updateRequestAsSession`.
-/

namespace KVarN.Sched

open KVarN.Lib KVarN.Core Heapq

/-- `SchedulingPolicy`. -/
inductive SchedulingPolicy
  | fcfs
  | priority
  deriving DecidableEq, Repr

/-- `PauseState`. -/
inductive PauseState
  | unpaused
  | pausedNew
  | pausedAll
  deriving DecidableEq, Repr

/-- The static configuration of the scheduler. -/
structure SchedulerConfig (H : Type) where
  policy : SchedulingPolicy
  /-- `AsyncScheduler` rather than `Scheduler`. -/
  asyncScheduling : Bool
  maxNumRunningReqs : ℕ
  maxNumScheduledTokens : ℕ
  maxNumBatchedTokens : ℕ
  maxModelLen : ℕ
  longPrefillTokenThreshold : ℕ
  enableChunkedPrefill : Bool
  schedulerReserveFullIsl : Bool
  /-- `max_num_new_slots_for_drafting`. -/
  draftSlots : ℕ
  numSampledTokensPerStep : ℕ
  numSpecTokens : ℕ
  numLookaheadTokens : ℕ
  numPrefillLookahead : ℕ
  dynamicSdLookup : Option (List ℕ)
  useEagle : Bool
  useV2ModelRunner : Bool
  ppSize : ℕ
  /-- `cache_config.block_size`. -/
  cacheBlockSize : ℕ
  /-- The scheduler's block size. -/
  blockSize : ℕ
  needMambaBlockAlignedSplit : Bool
  mambaPartialCacheHit : Bool
  isEncoderOnly : Bool
  encoder : EncoderConfig
  maxNumEncoderInputTokens : ℕ
  maxLoras : Option ℕ
  hasConnector : Bool
  isKvProducer : Bool
  supportsDivergentLocalHybridHits : Bool
  recomputeKvLoadFailures : Bool
  requiresKvDelivery : Bool
  needsKvCacheZeroing : Bool
  kv : KVCacheConfig
  /-- The block hasher of the requests. -/
  hasher : Request H → List H

structure Scheduler (H : Type) where
  objs : ReqId → Request H
  /-- The keys of `self.requests`. -/
  requests : List ReqId
  waiting : List ReqId
  skippedWaiting : List ReqId
  running : List ReqId
  finishedReqIds : List ReqId
  resetPreemptedReqIds : List ReqId
  numWaitingForStreamingInput : ℤ
  finishedRecvingKvReqIds : List ReqId
  failedRecvingKvReqIds : List ReqId
  grammarCompileErrorReqs : List ReqId
  encoder : EncoderCache
  kv : KVState H
  currentStep : ℕ
  prefillCapacityBound : Bool
  skipZeroBlockIds : List BlockId
  pauseState : PauseState
  inflightPrefills : List ReqId
  /-- The length of the drafts a decoding request gets as placeholders. -/
  numSpecTokenPlaceholders : ℕ

namespace Scheduler

variable {H : Type}

def update (s : Scheduler H) (id : ReqId) (f : Request H → Request H) : Scheduler H :=
  { s with objs := Function.update s.objs id (f (s.objs id)) }

theorem update_objs_of_ne (s : Scheduler H) {id i : ReqId} (f : Request H → Request H)
    (h : i ≠ id) : (s.update id f).objs i = s.objs i := by simp [update, h]

section

variable (s : Scheduler H) (id : ReqId) (f : Request H → Request H)

@[simp] theorem update_objs_self : (s.update id f).objs id = f (s.objs id) := by simp [update]
@[simp] theorem update_requests : (s.update id f).requests = s.requests := rfl
@[simp] theorem update_waiting : (s.update id f).waiting = s.waiting := rfl
@[simp] theorem update_skippedWaiting : (s.update id f).skippedWaiting = s.skippedWaiting := rfl
@[simp] theorem update_running : (s.update id f).running = s.running := rfl
@[simp] theorem update_numWaitingForStreamingInput :
    (s.update id f).numWaitingForStreamingInput = s.numWaitingForStreamingInput := rfl
@[simp] theorem update_kv : (s.update id f).kv = s.kv := rfl
@[simp] theorem update_encoder : (s.update id f).encoder = s.encoder := rfl

end

def init (kv : KVState H) (encoder : EncoderCache) (numSpecTokens : ℕ) (objs : ReqId → Request H) :
    Scheduler H where
  objs := objs
  requests := []
  waiting := []
  skippedWaiting := []
  running := []
  finishedReqIds := []
  resetPreemptedReqIds := []
  numWaitingForStreamingInput := 0
  finishedRecvingKvReqIds := []
  failedRecvingKvReqIds := []
  grammarCompileErrorReqs := []
  encoder := encoder
  kv := kv
  currentStep := 0
  prefillCapacityBound := false
  skipZeroBlockIds := []
  pauseState := .unpaused
  inflightPrefills := []
  numSpecTokenPlaceholders := numSpecTokens

/-! ## Queues -/

def lt (s : Scheduler H) (a b : ReqId) : Bool := (s.objs a).lt (s.objs b) a b

variable (cfg : SchedulerConfig H) (p : SchedulingPolicy) (s : Scheduler H) (q : List ReqId)
  (id : ReqId)

/-- `add_request` of a queue. -/
def addToQueue : List ReqId :=
  match p with
  | .fcfs => q ++ [id]
  | .priority => push s.lt q id

/-- `pop_request`. -/
def popQueue : Except Fault (ReqId × List ReqId) :=
  match p with
  | .fcfs =>
    match q with
    | [] => .error .indexError
    | id :: q => .ok (id, q)
  | .priority => orRaise .indexError (pop s.lt q)

/-- `prepend_request`; a heap has no front. -/
def prependQueue : List ReqId :=
  match p with
  | .fcfs => id :: q
  | .priority => push s.lt q id

def iterQueue : List ReqId :=
  match p with
  | .fcfs => q
  | .priority => drain s.lt q

/-- `prepend_requests`: a deque takes them in reverse order. -/
def prependAll (q front : List ReqId) : List ReqId :=
  match p with
  | .fcfs => front.reverse ++ q
  | .priority => (s.iterQueue p front).foldl (push s.lt) q

/-- `remove_requests`. -/
def removeFromQueue (q ids : List ReqId) : List ReqId :=
  match p with
  | .fcfs => q.filter (· ∉ ids)
  | .priority => heapify s.lt (q.filter (· ∉ ids))

/-- `remove_all`: a single item is removed once, several by filtering. -/
def removeAll (q ids : List ReqId) : List ReqId :=
  match ids with
  | [] => q
  | [id] => q.erase id
  | ids => q.filter (· ∉ ids)

theorem addToQueue_perm : (s.addToQueue p q id).Perm (id :: q) := by
  cases p with
  | fcfs => exact List.perm_append_singleton _ _
  | priority => exact push_perm _ _ _

theorem prependQueue_perm : (s.prependQueue p q id).Perm (id :: q) := by
  cases p with
  | fcfs => exact .refl _
  | priority => exact push_perm _ _ _

/-- Popping returns the head that `peek_request` shows. -/
theorem popQueue_cons {p : SchedulingPolicy} {s : Scheduler H} {q : List ReqId} {id x : ReqId}
    {q' : List ReqId} (h : s.popQueue p (x :: q) = .ok (id, q')) : id = x ∧ q'.Perm q := by
  cases p with
  | fcfs => cases h; exact ⟨rfl, .refl _⟩
  | priority =>
    obtain ⟨rest, hpop, hperm⟩ := pop_cons s.lt x q
    rw [popQueue, orRaise_eq_ok, hpop] at h
    cases h
    exact ⟨rfl, hperm⟩

theorem iterQueue_perm : (s.iterQueue p q).Perm q := by
  cases p with
  | fcfs => exact .refl _
  | priority => exact drain_perm _ _

theorem prependAll_perm (q front : List ReqId) : (s.prependAll p q front).Perm (front ++ q) := by
  cases p with
  | fcfs => exact (List.reverse_perm _).append_right _
  | priority =>
    rw [prependAll]
    refine List.Perm.trans ?_ ((iterQueue_perm .priority s front).append_right q)
    generalize s.iterQueue .priority front = l
    induction l generalizing q with
    | nil => exact .refl _
    | cons x l ih =>
      refine (ih (push s.lt q x)).trans ?_
      exact ((push_perm _ _ _).append_left l).trans List.perm_middle

theorem removeFromQueue_perm (q ids : List ReqId) :
    (s.removeFromQueue p q ids).Perm (q.filter (· ∉ ids)) := by
  cases p with
  | fcfs => exact .refl _
  | priority => exact heapify_perm _ _

theorem removeAll_eq_filter {q : List ReqId} (hq : q.Nodup) (ids : List ReqId) :
    removeAll q ids = q.filter (· ∉ ids) := by
  match ids with
  | [] => simp [removeAll]
  | [id] =>
    rw [removeAll, hq.erase_eq_filter]
    refine List.filter_congr fun x _ => ?_
    rw [Bool.eq_iff_iff]
    simp
  | id :: id' :: ids => rfl

/-! ## Enqueueing, freeing and preempting -/

/-- `_enqueue_waiting_request`. -/
def enqueueWaitingRequest : Scheduler H :=
  if (s.objs id).status.isBlockedWaiting then
    { s with skippedWaiting := s.addToQueue cfg.policy s.skippedWaiting id }
  else { s with waiting := s.addToQueue cfg.policy s.waiting id }

/-- `_free_request_blocks`. -/
def freeRequestBlocks (s : Scheduler H) (id : ReqId) : Except Fault (Scheduler H) := do
  let kv ← s.kv.freeRequestBlocks id (s.objs id).lastSchedSeq
  pure { s with kv := kv }

/-- `_free_blocks`: the blocks go and the request is forgotten. -/
def freeBlocks : Except Fault (Scheduler H) := do
  assert ((s.objs id).isFinished = true)
  let s ← s.freeRequestBlocks id
  pure { s with requests := s.requests.filter (· ≠ id) }

/-- `encoder_cache_manager.free`. -/
def freeEncoder : Except Fault (Scheduler H) := do
  let e ← s.encoder.free cfg.encoder.isEncoderDecoder (s.objs id) id
  pure { s with encoder := e }

/-- `_connector_finished`: blocks outside the window are freed before the connector
sees the table. -/
def connectorFinished : Except Fault (Scheduler H) :=
  if cfg.hasConnector then do
    let r := s.objs id
    let kv ← s.kv.kv.removeSkippedBlocks id (r.numComputedTokens - r.numInFlightTokens).toNat
      (some r.numPromptTokens)
    pure { s with kv := { s.kv with kv := kv } }
  else .ok s

/-- `_free_request`; the connectors may ask to keep the blocks. -/
def freeRequest (delayFreeBlocks : Bool) (connectorDelays : ReqId → Bool) :
    Except Fault (Scheduler H) := do
  assert ((s.objs id).isFinished = true)
  let s ← connectorFinished cfg
    { s with inflightPrefills := s.inflightPrefills.filter (· ≠ id) } id
  let s ← s.freeEncoder cfg id
  let s := { s with finishedReqIds := addTo s.finishedReqIds id }
  if delayFreeBlocks ∨
      ((cfg.hasConnector ∨ cfg.encoder.hasEcConnector) ∧ connectorDelays id) then pure s
  else s.freeBlocks id

/-- The stop of a Python slice of a list of length `n`; negative ones count from the
end. -/
def sliceStop (n : ℕ) (i : ℤ) : ℕ := if i < 0 then (n + i).toNat else i.toNat

/-- The fields `_preempt_request` resets; the output in flight becomes stale. -/
def preempt (dropStaleOutput : Bool) (r : Request H) : Request H :=
  { r with
    status := .preempted
    numComputedTokens := 0
    specTokenIds := []
    dropStaleOutput := dropStaleOutput ||
      (r.dropStaleOutput && decide (0 < r.numStaleOutputTokens))
    numStaleOutputTokens := r.numInFlightTokens
    numOutputPlaceholders := 0
    numPreemptions := r.numPreemptions + 1 }

/-- `_preempt_request`, for a request that has left the running queue. -/
def preemptRequest (dropStaleOutput : Bool) : Except Fault (Scheduler H) := do
  assert ((s.objs id).status = .running)
  let s ← s.freeRequestBlocks id
  let s ← s.freeEncoder cfg id
  let s := { s with inflightPrefills := s.inflightPrefills.filter (· ≠ id) }
  let s := s.update id (preempt dropStaleOutput)
  pure { s with
    waiting := s.prependQueue cfg.policy s.waiting id
    resetPreemptedReqIds := addTo s.resetPreemptedReqIds id }

/-- **What a preemption does.** -/
theorem preemptRequest_eq_ok {cfg : SchedulerConfig H} {s s' : Scheduler H} {id : ReqId}
    {drop : Bool} (h : s.preemptRequest cfg id drop = .ok s') :
    (s.objs id).status = .running ∧ ∃ kv e w,
      s.kv.freeRequestBlocks id (s.objs id).lastSchedSeq = .ok kv ∧
      s.encoder.free cfg.encoder.isEncoderDecoder (s.objs id) id = .ok e ∧
      w.Perm (id :: s.waiting) ∧
      s' = { s with
        objs := Function.update s.objs id (preempt drop (s.objs id))
        kv := kv
        encoder := e
        inflightPrefills := s.inflightPrefills.filter (· ≠ id)
        waiting := w
        resetPreemptedReqIds := addTo s.resetPreemptedReqIds id } := by
  simp only [preemptRequest, freeRequestBlocks, freeEncoder, bind_eq_ok, assert_eq_ok, pure,
    Except.pure, Except.ok.injEq] at h
  obtain ⟨-, hst, s₁, ⟨kv, hkv, rfl⟩, s₂, ⟨e, he, rfl⟩, rfl⟩ := h
  exact ⟨hst, kv, e, _, hkv, he, prependQueue_perm _ _ _ _, rfl⟩

/-! ## Streaming sessions -/

/-- The request `_update_request_as_session` leaves: the computed part of the output
becomes prompt, the rest is discarded, and the update's prompt follows. -/
def sessionRequest (hasher : Request H → List H) (r : Request H) (prompt : List Token)
    (u : StreamingUpdate) : Request H :=
  let n := sliceStop r.allTokenIds.length r.numComputedTokens
  let keptOutput := (r.allTokenIds.take n).drop r.numPromptTokens
  let tokens := r.allTokenIds.take n
  let r := Request.updateBlockHashes hasher { r with
    allTokenIds := tokens ++ u.promptTokenIds
    outputTokenIds := []
    promptTokenIds := some (prompt ++ keptOutput ++ u.promptTokenIds)
    mmFeatures := r.mmFeatures ++ u.mmFeatures.map fun f =>
      { f with offset := f.offset + tokens.length } }
  { r with
    numPromptTokens := (prompt ++ keptOutput ++ u.promptTokenIds).length
    arrivalTime := u.arrivalTime
    samplingParams := u.samplingParams
    status := .waiting }

/-- `_update_request_as_session`. -/
def updateRequestAsSession (u : StreamingUpdate) : Except Fault (Scheduler H) := do
  let prompt ← orRaise .assertionError (s.objs id).promptTokenIds
  let wasStreaming := (s.objs id).status = .waitingForStreamingReq
  let s := s.update id fun r => sessionRequest cfg.hasher r prompt u
  pure (if wasStreaming then
    { s with numWaitingForStreamingInput := s.numWaitingForStreamingInput - 1 } else s)

/-- `_handle_stopped_request`: whether the request is finished; a session that goes on
is queued again. -/
def handleStoppedRequest : Except Fault (Bool × Scheduler H) :=
  if (s.objs id).resumable = false then .ok (true, s)
  else
    match (s.objs id).streamingQueue with
    | some (none :: q) => .ok (true, s.update id fun r => { r with streamingQueue := some q })
    | some (some u :: q) => do
        let s ← (s.update id fun r => { r with streamingQueue := some q }).updateRequestAsSession
          cfg id u
        pure (false, enqueueWaitingRequest cfg s id)
    | _ =>
      let s := s.update id fun r => { r with status := .waitingForStreamingReq }
      .ok (false, enqueueWaitingRequest cfg
        { s with numWaitingForStreamingInput := s.numWaitingForStreamingInput + 1 } id)

end Scheduler

end KVarN.Sched
