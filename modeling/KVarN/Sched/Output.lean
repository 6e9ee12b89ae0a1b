import KVarN.Sched.Issue
import KVarN.Sched.Update

/-!
# What an output does

Each piece of `update_from_output` changes little of the state. This module says
what: how a finished request is freed, how the sampled tokens change a request, and
where a request that stopped goes.

## Main results

* `Scheduler.freeRequest_eq_ok`, `Scheduler.finishOne_eq_ok` — freeing and finishing.
* `Scheduler.takeOutput_eq_ok`, `Scheduler.settleStopped_eq_ok`,
  `Scheduler.deliver_eq_ok` — an output that is delivered.
* `Scheduler.handleKvOutput_eq_ok` — failed loads.
-/

namespace KVarN.Sched

open KVarN.Lib KVarN.Core

/-! ## Appending tokens -/

namespace Request

variable {H : Type} {r r' : Request H}

/-- A request with tokens appended, its new block hashes and its new status. -/
def extendBy (kept : List Token) (hashes : List H) (st : RequestStatus) (r : Request H) :
    Request H :=
  { r with
    outputTokenIds := r.outputTokenIds ++ kept
    allTokenIds := r.allTokenIds ++ kept
    blockHashes := hashes
    status := st }

theorem isFinished_of_checkStop {n : ℕ} {st : RequestStatus}
    (h : r.checkStop n = .ok (some st)) : st.isFinished = true := by
  simp only [checkStop, bind_eq_ok, stopStatus] at h
  obtain ⟨-, -, sp, -, h⟩ := h
  split at h
  · cases h
  obtain ⟨last, -, h⟩ := bind_eq_ok.1 h
  split at h
  · cases h
    rfl
  split at h
  · cases h
    rfl
  split at h
  · cases h
    rfl
  · cases h

/-- **What appending a step's tokens does.** The tokens after a stop are dropped. -/
theorem updateWithOutput_eq_ok {hasher : Request H → List H} {n : ℕ} {ts kept : List Token}
    {stopped : Bool} (h : r.updateWithOutput hasher n ts = .ok (kept, stopped, r')) :
    kept <+: ts ∧ (stopped = false → kept = ts) ∧ (ts ≠ [] → kept ≠ []) ∧ ∃ hashes st,
      r' = r.extendBy kept hashes st ∧ (stopped = false → st = r.status) ∧
      (stopped = true → st.isFinished = true) := by
  induction ts generalizing r kept with
  | nil =>
    cases h
    exact ⟨List.prefix_refl _, fun _ => rfl, id, r'.blockHashes, r'.status,
      by simp [extendBy], fun _ => rfl, by simp⟩
  | cons t ts ih =>
    obtain ⟨stop, hstop, h⟩ := bind_eq_ok.1 h
    cases stop with
    | some st =>
      cases h
      exact ⟨by simp, by simp, by simp, _, st, rfl, by simp, fun _ => isFinished_of_checkStop hstop⟩
    | none =>
      obtain ⟨⟨kept', stopped', r₁⟩, hrest, h⟩ := bind_eq_ok.1 h
      cases h
      obtain ⟨hpre, hall, -, hashes, st, rfl, hgo, hfin⟩ := ih hrest
      refine ⟨by simpa using hpre, fun hs => by rw [hall hs], by simp, hashes, st, ?_, hgo, hfin⟩
      simp [extendBy, appendOutputTokenId, updateBlockHashes]

end Request

namespace Scheduler

variable {H : Type} {cfg : SchedulerConfig H}

/-! ## Finishing a request -/

/-- The KV cache after a connector was told that a request has finished. -/
def connectorKV (cfg : SchedulerConfig H) (s : Scheduler H) (id : ReqId) :
    Except Fault (KVState H) :=
  if cfg.hasConnector then do
    let r := s.objs id
    let kv ← s.kv.kv.removeSkippedBlocks id (r.numComputedTokens - r.numInFlightTokens).toNat
      (some r.numPromptTokens)
    pure { s.kv with kv := kv }
  else .ok s.kv

variable {s s' : Scheduler H} {id : ReqId} {delays : ReqId → Bool} {stale : Bool} {n : ℕ}
  {m : ModelRunnerOutput} {kept : List Token} {x x' : Draining H} {out : SchedulerOutput}
  {failed : List ReqId} {scheduled : Dict ReqId ℕ}

theorem connectorFinished_eq_ok (h : s.connectorFinished cfg id = .ok s') :
    ∃ kv, connectorKV cfg s id = .ok kv ∧ s' = { s with kv := kv } := by
  rw [connectorFinished] at h
  rw [connectorKV]
  split at h
  · next hcon =>
    obtain ⟨kv, hkv, h⟩ := bind_eq_ok.1 h
    cases h
    rw [if_pos hcon]
    exact ⟨_, bind_eq_ok.2 ⟨kv, hkv, rfl⟩, rfl⟩
  · next hcon =>
    cases h
    rw [if_neg hcon]
    exact ⟨_, rfl, rfl⟩

/-- How freeing a request leaves the KV cache and the known requests. -/
inductive Freed (cfg : SchedulerConfig H) (s : Scheduler H) (id : ReqId) :
    KVState H → List ReqId → Prop
  | delayed {kv : KVState H} (told : connectorKV cfg s id = .ok kv) :
      Freed cfg s id kv s.requests
  | gone {kv kv' : KVState H} (told : connectorKV cfg s id = .ok kv)
      (freed : kv.freeRequestBlocks id (s.objs id).lastSchedSeq = .ok kv') :
      Freed cfg s id kv' (s.requests.filter (· ≠ id))

/-- A scheduler from which a request was freed. -/
def freedTo (s : Scheduler H) (id : ReqId) (kv : KVState H) (e : EncoderCache)
    (requests : List ReqId) : Scheduler H :=
  { s with
    inflightPrefills := s.inflightPrefills.filter (· ≠ id)
    encoder := e
    finishedReqIds := addTo s.finishedReqIds id
    kv := kv
    requests := requests }

variable {delay stopped evict : Bool} {f : Request H → Request H} {r r' : Request H}
  {invalid : List BlockId}

/-- **What freeing a request does.** -/
theorem freeRequest_eq_ok (h : s.freeRequest cfg id delay delays = .ok s') :
    (s.objs id).isFinished = true ∧ ∃ kv e requests, Freed cfg s id kv requests ∧
      s.encoder.free cfg.encoder.isEncoderDecoder (s.objs id) id = .ok e ∧
      s' = s.freedTo id kv e requests := by
  simp only [freeRequest, bind_eq_ok, assert_eq_ok, freeEncoder] at h
  obtain ⟨-, hfin, s₁, htold, s₂, ⟨e, he, hs₂⟩, h⟩ := h
  obtain ⟨kv, hkv, rfl⟩ := connectorFinished_eq_ok htold
  cases hs₂
  refine ⟨hfin, ?_⟩
  split at h
  · cases h
    exact ⟨kv, e, s.requests, .delayed hkv, he, rfl⟩
  · simp only [freeBlocks, freeRequestBlocks, bind_eq_ok, assert_eq_ok] at h
    obtain ⟨-, -, s₃, ⟨kv', hfree, hs₃⟩, h⟩ := h
    cases hs₃
    cases h
    exact ⟨kv', e, _, .gone hkv hfree, he, rfl⟩

def withStatus (st : RequestStatus) (r : Request H) : Request H := { r with status := st }

/-- **What finishing one request does.** -/
theorem finishOne_eq_ok {st : RequestStatus} (h : s.finishOne cfg st delays id = .ok s') :
    ∃ recving failed kv e requests, Freed cfg (s.update id (withStatus st)) id kv requests ∧
      s.encoder.free cfg.encoder.isEncoderDecoder (withStatus st (s.objs id)) id = .ok e ∧
      s' = { (s.update id (withStatus st)).freedTo id kv e requests with
        finishedRecvingKvReqIds := recving
        failedRecvingKvReqIds := failed } := by
  rw [finishOne] at h
  split at h
  · obtain ⟨-, kv, e, requests, hfreed, he, rfl⟩ := freeRequest_eq_ok h
    refine ⟨_, _, kv, e, requests, ?_, ?_, rfl⟩
    · cases hfreed with
      | delayed told => exact .delayed told
      | gone told freed => exact .gone told freed
    · simpa [withStatus] using he
  · obtain ⟨-, kv, e, requests, hfreed, he, rfl⟩ := freeRequest_eq_ok h
    exact ⟨_, _, kv, e, requests, hfreed, by simpa [withStatus] using he, rfl⟩

/-! ## The tokens of an output -/

/-- The tokens a request keeps are no longer expected. -/
def settle (cfg : SchedulerConfig H) (stale : Bool) (n : ℕ) (r : Request H) : Request H :=
  if cfg.asyncScheduling = true ∧ stale = false then
    { r with numOutputPlaceholders := r.numOutputPlaceholders - n }
  else r

/-- What ends a request that samples no tokens. -/
def EndsUnsampled (cfg : SchedulerConfig H) (m : ModelRunnerOutput) (id : ReqId)
    (r : Request H) : Prop :=
  (r.pooling = true ∧ m.poolerOutput id = true) ∨
    (cfg.isEncoderOnly = true ∧ (r.numPromptTokens : ℤ) ≤ r.numComputedTokens)

/-- What an output does to a request: the tokens it keeps and whether it stops. -/
inductive Takes (cfg : SchedulerConfig H) (m : ModelRunnerOutput) (id : ReqId) (stale : Bool)
    (r : Request H) : List Token → Bool → Request H → Prop
  | sampled {kept : List Token} {stopped : Bool} {r' : Request H}
      (some_tokens : m.sampledTokenIds id ≠ [])
      (appended : r.updateWithOutput cfg.hasher cfg.maxModelLen (m.sampledTokenIds id) =
        .ok (kept, stopped, r'))
      (nonneg : cfg.asyncScheduling = true → stale = false →
        0 ≤ (settle cfg stale kept.length r').numOutputPlaceholders) :
      Takes cfg m id stale r kept stopped (settle cfg stale kept.length r')
  | unsampled (no_tokens : m.sampledTokenIds id = []) (ends : EndsUnsampled cfg m id r) :
      Takes cfg m id stale r [] true (withStatus .finishedStopped r)
  | nothing (no_tokens : m.sampledTokenIds id = []) (goes_on : ¬ EndsUnsampled cfg m id r) :
      Takes cfg m id stale r [] false r

/-- The KV cache after the new tokens of a running request were cached. -/
def CachesOutput [DecidableEq H] (cfg : SchedulerConfig H) (s : Scheduler H) (id : ReqId)
    (r : Request H) (kv : KVCacheManager H) : Prop :=
  kv = s.kv.kv ∨ (cfg.asyncScheduling = true ∧ (s.objs id).status = .running ∧
    s.kv.kv.cacheBlocks cfg.kv (r.toKV id)
      (r.numComputedTokens - r.numOutputPlaceholders).toNat = .ok kv)

/-- A scheduler with a new request and new caches. -/
def outputTo (s : Scheduler H) (id : ReqId) (r : Request H) (e : EncoderCache)
    (kv : KVCacheManager H) : Scheduler H :=
  { s with objs := Function.update s.objs id r, encoder := e, kv := { s.kv with kv := kv } }

section

variable (s) (id) (r r') (e e' : EncoderCache) (kv kv' : KVCacheManager H)

@[simp] theorem outputTo_objs : (s.outputTo id r e kv).objs id = r := by simp [outputTo]
@[simp] theorem outputTo_encoder : (s.outputTo id r e kv).encoder = e := rfl
@[simp] theorem outputTo_kv : (s.outputTo id r e kv).kv.kv = kv := rfl
@[simp] theorem outputTo_outputTo :
    (s.outputTo id r e kv).outputTo id r' e' kv' = s.outputTo id r' e' kv' := by
  simp [outputTo]

end

theorem outputTo_self (s : Scheduler H) (id : ReqId) :
    s.outputTo id (s.objs id) s.encoder s.kv.kv = s := by
  simp [outputTo]

theorem settlePlaceholders_eq_ok [DecidableEq H]
    {wasRunning : Bool} (hasync : cfg.asyncScheduling = true)
    (h : settlePlaceholders cfg s id wasRunning n stale = .ok s') :
    (stale = false → 0 ≤ (settle cfg stale n (s.objs id)).numOutputPlaceholders) ∧
    ∃ kv, (kv = s.kv.kv ∨ (wasRunning = true ∧
        s.kv.kv.cacheBlocks cfg.kv ((settle cfg stale n (s.objs id)).toKV id)
          ((settle cfg stale n (s.objs id)).numComputedTokens
            - (settle cfg stale n (s.objs id)).numOutputPlaceholders).toNat = .ok kv)) ∧
      s' = s.outputTo id (settle cfg stale n (s.objs id)) s.encoder kv := by
  have hsettle : (if stale = true then s else s.update id fun r =>
      { r with numOutputPlaceholders := r.numOutputPlaceholders - n }) =
      s.update id (settle cfg stale n) := by
    cases stale
    · simp [settle, hasync, update]
    · simp [settle, update]
  simp only [settlePlaceholders, bind_eq_ok, assert_eq_ok, hsettle] at h
  obtain ⟨-, hnonneg, h⟩ := h
  rw [update_objs_self] at hnonneg
  refine ⟨fun hs => hnonneg.resolve_left (by simp [hs]), ?_⟩
  split at h
  · next hrun =>
    obtain ⟨kv, hkv, h⟩ := bind_eq_ok.1 h
    cases h
    exact ⟨kv, .inr ⟨hrun, by simpa using hkv⟩, rfl⟩
  · cases h
    exact ⟨s.kv.kv, .inl rfl, rfl⟩

/-- **What the tokens of an output do.** -/
theorem takeOutput_eq_ok [DecidableEq H]
    (h : takeOutput cfg m s id stale = .ok (kept, stopped, s')) :
    ∃ r kv, Takes cfg m id stale (s.objs id) kept stopped r ∧ CachesOutput cfg s id r kv ∧
      s' = s.outputTo id r s.encoder kv := by
  rw [takeOutput] at h
  split at h
  · next hsome =>
    simp only [appendOutput, bind_eq_ok] at h
    obtain ⟨⟨kept', stopped', r⟩, happ, h⟩ := h
    split at h
    · next hasync =>
      obtain ⟨s₁, hset, h⟩ := bind_eq_ok.1 h
      cases h
      obtain ⟨hnonneg, kv, hkv, rfl⟩ := settlePlaceholders_eq_ok hasync hset
      simp only [setReq, update_objs_self] at hnonneg hkv ⊢
      refine ⟨_, kv, .sampled hsome happ fun _ => hnonneg, ?_, ?_⟩
      · exact hkv.imp_right fun hkv => ⟨hasync, by simpa using hkv.1, hkv.2⟩
      · simp [outputTo, update]
    · next hasync =>
      cases h
      have hsettle : settle cfg stale kept'.length r = r := by simp [settle, hasync]
      refine ⟨r, s.kv.kv, ?_, .inl rfl, rfl⟩
      have htakes : Takes cfg m id stale (s.objs id) kept' stopped' _ :=
        .sampled hsome happ fun ha => absurd ha hasync
      rwa [hsettle] at htakes
  next hnone =>
  have hnone : m.sampledTokenIds id = [] := by simpa using hnone
  split at h
  · next hends =>
    cases h
    exact ⟨_, s.kv.kv, .unsampled hnone hends, .inl rfl, rfl⟩
  · next hgoes =>
    cases h
    exact ⟨_, s.kv.kv, .nothing hnone hgoes, .inl rfl, (outputTo_self s id).symm⟩

/-! ## Requests that stop -/

def withInputs (queue : Option (List (Option StreamingUpdate))) (r : Request H) : Request H :=
  { r with streamingQueue := queue }

/-- Where a request that stopped goes: it is freed, or it goes on as a session, with the
input that is queued or waiting for one. -/
inductive Settles (cfg : SchedulerConfig H) (s : Scheduler H) (id : ReqId) : Scheduler H → Prop
  | finished {queue : Option (List (Option StreamingUpdate))} {kv : KVState H} {e : EncoderCache}
      {requests : List ReqId}
      (ends : ((s.objs id).resumable = false ∧ queue = (s.objs id).streamingQueue) ∨
        ∃ q, (s.objs id).streamingQueue = some (none :: q) ∧ queue = some q)
      (freed : Freed cfg (s.update id (withInputs queue)) id kv requests)
      (encoder : s.encoder.free cfg.encoder.isEncoderDecoder
        (withInputs queue (s.objs id)) id = .ok e) :
      Settles cfg s id ((s.update id (withInputs queue)).freedTo id kv e requests)
  | spliced {u : StreamingUpdate} {q : List (Option StreamingUpdate)} {prompt : List Token}
      {w : List ReqId} (resumable : (s.objs id).resumable = true)
      (queue : (s.objs id).streamingQueue = some (some u :: q))
      (prompt_eq : (s.objs id).promptTokenIds = some prompt)
      (enqueued : w.Perm (id :: s.waiting)) :
      Settles cfg s id { s.update id fun r =>
          sessionRequest cfg.hasher (withInputs (some q) r) prompt u with
        waiting := w }
  | waits {k : List ReqId} (resumable : (s.objs id).resumable = true)
      (queue : (s.objs id).streamingQueue.getD [] = [])
      (enqueued : k.Perm (id :: s.skippedWaiting)) :
      Settles cfg s id { s.update id (withStatus .waitingForStreamingReq) with
        skippedWaiting := k
        numWaitingForStreamingInput := s.numWaitingForStreamingInput + 1 }

theorem enqueueWaitingRequest_of_ready (h : (s.objs id).status.isBlockedWaiting = false) :
    ∃ w, w.Perm (id :: s.waiting) ∧ s.enqueueWaitingRequest cfg id = { s with waiting := w } := by
  refine ⟨_, addToQueue_perm cfg.policy s s.waiting id, ?_⟩
  simp [enqueueWaitingRequest, h]

theorem enqueueWaitingRequest_of_blocked (h : (s.objs id).status.isBlockedWaiting = true) :
    ∃ k, k.Perm (id :: s.skippedWaiting) ∧
      s.enqueueWaitingRequest cfg id = { s with skippedWaiting := k } := by
  refine ⟨_, addToQueue_perm cfg.policy s s.skippedWaiting id, ?_⟩
  simp [enqueueWaitingRequest, h]

theorem freed_of_freeRequest (h : (s.update id f).freeRequest cfg id delay delays = .ok s') :
    ∃ kv e requests, Freed cfg (s.update id f) id kv requests ∧
      s.encoder.free cfg.encoder.isEncoderDecoder (f (s.objs id)) id = .ok e ∧
      s' = (s.update id f).freedTo id kv e requests := by
  obtain ⟨-, kv, e, requests, hfreed, he, rfl⟩ := freeRequest_eq_ok h
  exact ⟨kv, e, requests, hfreed, by simpa using he, rfl⟩

/-- **What becomes of a request that stopped.** -/
theorem settleStopped_eq_ok
    (finished : (s.objs id).isFinished = true) (h : settleStopped cfg m s id = .ok s') :
    Settles cfg s id s' := by
  simp only [settleStopped, bind_eq_ok] at h
  obtain ⟨⟨done, s₁⟩, hstop, h⟩ := h
  rw [handleStoppedRequest] at hstop
  split at hstop
  · next hres =>
    cases hstop
    have hsame : s.update id (withInputs (s.objs id).streamingQueue) = s := by
      simp [update, withInputs]
    rw [if_pos rfl, ← hsame] at h
    obtain ⟨kv, e, requests, hfreed, he, rfl⟩ := freed_of_freeRequest h
    exact .finished (.inl ⟨hres, rfl⟩) hfreed he
  next hres =>
  have hres : (s.objs id).resumable = true := by simpa using hres
  split at hstop
  · next q hq =>
    cases hstop
    have h : (s.update id (withInputs (some q))).freeRequest cfg id false m.delaysFree
      = .ok s' := h
    obtain ⟨kv, e, requests, hfreed, he, rfl⟩ := freed_of_freeRequest h
    exact .finished (.inr ⟨q, hq, rfl⟩) hfreed he
  · next u q hq =>
    simp only [updateRequestAsSession, bind_eq_ok, orRaise_eq_ok, update_objs_self] at hstop
    obtain ⟨s₂, ⟨prompt, hprompt, hs₂⟩, hstop⟩ := hstop
    cases hstop
    cases h
    have hst : (s.objs id).status ≠ .waitingForStreamingReq := by
      intro he
      rw [Request.isFinished, he] at finished
      cases finished
    rw [if_neg hst] at hs₂
    cases hs₂
    have hsession : ((s.update id (withInputs (some q))).update id fun r =>
        sessionRequest cfg.hasher r prompt u) =
        s.update id fun r => sessionRequest cfg.hasher (withInputs (some q) r) prompt u := by
      simp [update]
    obtain ⟨w, hw, heq⟩ := @enqueueWaitingRequest_of_ready _ cfg
      ((s.update id (withInputs (some q))).update id fun r =>
        sessionRequest cfg.hasher r prompt u) id (by simp [sessionRequest]; rfl)
    have hset : Settles cfg s id _ := .spliced hres hq hprompt hw
    rw [← hsession, ← heq] at hset
    exact hset
  · next hno hsome =>
    cases hstop
    cases h
    have hq : (s.objs id).streamingQueue.getD [] = [] := by
      match hq : (s.objs id).streamingQueue with
      | none => rfl
      | some [] => rfl
      | some (none :: q) => exact (hno q hq).elim
      | some (some u :: q) => exact (hsome u q hq).elim
    obtain ⟨k, hk, heq⟩ := @enqueueWaitingRequest_of_blocked _ cfg
      { s.update id (withStatus .waitingForStreamingReq) with
        numWaitingForStreamingInput := s.numWaitingForStreamingInput + 1 } id
      (by simp [update, withStatus]; rfl)
    have hset : Settles cfg s id _ := .waits hres hq hk
    exact heq ▸ hset

/-! ## One delivered output -/

/-- Whether a request's grammar rejects the tokens it kept. -/
def Rejects (m : ModelRunnerOutput) (id : ReqId) (kept : List Token) (r : Request H) : Prop :=
  kept ≠ [] ∧ r.useStructuredOutput = true ∧ m.grammarRejects id kept = true

instance (m : ModelRunnerOutput) (id : ReqId) (kept : List Token) (r : Request H) :
    Decidable (Rejects m id kept r) := inferInstanceAs (Decidable (_ ∧ _))

/-- A request whose grammar rejected its tokens. -/
def rejected (r : Request H) : Request H :=
  { r with status := .finishedError, resumable := false }

def reported (r : Request H) : Request H := { r with prefillStats := false }

/-- The encoder cache after the items of the computed placeholders were freed. -/
def FreesEncoder (cfg : SchedulerConfig H) (s : Scheduler H) (id : ReqId) (r : Request H)
    (e : EncoderCache) : Prop :=
  if r.hasEncoderInputs then
    freeEncoderInputs cfg.encoder.isEncoderDecoder cfg.numPrefillLookahead r id s.encoder = .ok e
  else e = s.encoder

theorem freeComputedEncoderInputs_eq_ok
    (h : (s.update id f).freeComputedEncoderInputs cfg id = .ok s') :
    ∃ e, FreesEncoder cfg s id (f (s.objs id)) e ∧
      s' = s.outputTo id (f (s.objs id)) e s.kv.kv := by
  rw [freeComputedEncoderInputs, update_objs_self] at h
  split at h
  · next henc =>
    obtain ⟨e, he, h⟩ := bind_eq_ok.1 h
    cases h
    exact ⟨e, by rwa [FreesEncoder, if_pos henc], rfl⟩
  · next henc =>
    cases h
    exact ⟨s.encoder, by rw [FreesEncoder, if_neg henc], rfl⟩

/-- An output that is delivered to a request: the request goes on, or it stops. -/
inductive Delivered [DecidableEq H] (cfg : SchedulerConfig H) (m : ModelRunnerOutput)
    (x : Draining H) (id : ReqId) (stale : Bool) (r : Request H) : Draining H → Prop
  | goesOn {e : EncoderCache} {kv : KVCacheManager H} {kept : List Token} {r' : Request H}
      (freed : FreesEncoder cfg x.s id r e) (taken : Takes cfg m id stale r kept false r')
      (cached : CachesOutput cfg x.s id r' kv) (accepted : ¬ Rejects m id kept r') :
      Delivered cfg m x id stale r { x with
        s := x.s.outputTo id (if kept ≠ [] ∨ m.poolerOutput id = true then reported r' else r') e kv
        outputs :=
          if kept ≠ [] ∨ m.poolerOutput id = true then x.outputs ++ [⟨id, kept, none⟩]
          else x.outputs }
  | stops {e : EncoderCache} {kv : KVCacheManager H} {kept : List Token} {stopped : Bool}
      {r' r'' : Request H} {s : Scheduler H} (freed : FreesEncoder cfg x.s id r e)
      (taken : Takes cfg m id stale r kept stopped r') (cached : CachesOutput cfg x.s id r' kv)
      (stop : (Rejects m id kept r' ∧ r'' = rejected r') ∨
        (stopped = true ∧ ¬ Rejects m id kept r' ∧ r'' = r'))
      (settled : Settles cfg (x.s.outputTo id (reported r'') e kv) id s) :
      Delivered cfg m x id stale r
        { s := s
          stoppedRunning :=
            if r.status = .running then addTo x.stoppedRunning id else x.stoppedRunning
          stoppedPreempted :=
            if r.status = .running then x.stoppedPreempted else addTo x.stoppedPreempted id
          outputs := x.outputs ++ [⟨id, kept, some r''.status⟩] }

/-- A request that stopped is finished until it is settled. -/
theorem Takes.isFinished (h : Takes cfg m id stale r kept true r') : r'.isFinished = true := by
  cases h with
  | sampled some_tokens appended =>
    obtain ⟨-, -, -, hashes, st, rfl, -, hfin⟩ := Request.updateWithOutput_eq_ok appended
    rw [settle]
    split <;> exact hfin rfl
  | unsampled => rfl

theorem concludeOutput_eq_ok [DecidableEq H] {stopped' : Bool}
    {e : EncoderCache} {kv : KVCacheManager H}
    (freed : FreesEncoder cfg x.s id r e) (taken : Takes cfg m id stale r kept stopped r')
    (cached : CachesOutput cfg x.s id r' kv)
    (grammar : applyGrammar m (x.s.outputTo id r' e kv) id kept stopped = (stopped', s))
    (h : concludeOutput cfg m x s id r.status kept stopped' = .ok x') :
    Delivered cfg m x id stale r x' := by
  -- the request before it is reported, and whether it stopped
  obtain ⟨r'', rfl, hstop⟩ : ∃ r'', s = x.s.outputTo id r'' e kv ∧
      ((stopped' = false ∧ stopped = false ∧ ¬ Rejects m id kept r' ∧ r'' = r') ∨
        (stopped' = true ∧ r''.isFinished = true ∧ ((Rejects m id kept r' ∧ r'' = rejected r') ∨
          (stopped = true ∧ ¬ Rejects m id kept r' ∧ r'' = r')))) := by
    have hr : (x.s.outputTo id r' e kv).objs id = r' := by simp [outputTo]
    rw [applyGrammar, hr] at grammar
    split at grammar
    · next hrej =>
      cases grammar
      exact ⟨rejected r', by simp [outputTo, update, rejected], .inr ⟨rfl, rfl, .inl ⟨hrej, rfl⟩⟩⟩
    · next hacc =>
      cases grammar
      refine ⟨r', rfl, ?_⟩
      cases stopped with
      | false => exact .inl ⟨rfl, rfl, hacc, rfl⟩
      | true => exact .inr ⟨rfl, taken.isFinished, .inr ⟨rfl, hacc, rfl⟩⟩
  rw [concludeOutput] at h
  obtain ⟨rfl, rfl, hacc, rfl⟩ | ⟨rfl, hfin, hcause⟩ := hstop
  · simp only [Bool.false_eq_true, if_false, or_false] at h
    cases h
    have hdel : Delivered cfg m x id stale r _ := .goesOn freed taken cached hacc
    convert hdel using 2
    split
    · simp [outputTo, update, reported]
    · rfl
  · simp only [or_true, if_true, bind_eq_ok] at h
    obtain ⟨s', hset, h⟩ := h
    cases h
    have hs : ((x.s.outputTo id r'' e kv).update id fun r => { r with prefillStats := false }) =
        x.s.outputTo id (reported r'') e kv := by
      simp [outputTo, update, reported]
    have hr : ((x.s.outputTo id (reported r'') e kv).objs id) = reported r'' := by
      simp [outputTo]
    rw [hs] at hset ⊢
    rw [hr]
    have hsettled := settleStopped_eq_ok (by rw [hr]; exact hfin) hset
    have hdel : Delivered cfg m x id stale r _ := .stops freed taken cached hcause hsettled
    exact hdel

@[simp] theorem rejectDrafts_status (numDraft numGenerated : ℕ) (stale : Bool) (r : Request H) :
    (rejectDrafts cfg numDraft numGenerated stale r).status = r.status := by
  rw [rejectDrafts]
  split <;> rfl

/-- **What delivering an output does.** -/
theorem deliver_eq_ok [DecidableEq H] (h : deliver cfg out m x id stale = .ok x') :
    Delivered cfg m x id stale
      (rejectDrafts cfg (out.numSpec id) (m.sampledTokenIds id).length stale (x.s.objs id)) x' := by
  simp only [deliver, bind_eq_ok] at h
  obtain ⟨s₁, hfree, ⟨kept, stopped, s₂⟩, htake, h⟩ := h
  obtain ⟨e, he, rfl⟩ := freeComputedEncoderInputs_eq_ok hfree
  obtain ⟨r', kv, htakes, hcached, rfl⟩ := takeOutput_eq_ok htake
  simp only [outputTo_objs, outputTo_outputTo, outputTo_encoder] at htakes h
  have hcached : CachesOutput cfg x.s id r' kv := by
    simpa only [CachesOutput, outputTo_objs, rejectDrafts_status, outputTo_kv] using hcached
  exact concludeOutput_eq_ok he htakes hcached rfl h

/-! ## One scheduled request -/

/-- Whether a request's output comes from before its last preemption. -/
def isStale (r : Request H) : Bool := decide (0 < r.numStaleOutputTokens)

/-- The reasons not to deliver an output. -/
def Skips (failed : List ReqId) (id : ReqId) (r : Request H) : Prop :=
  id ∈ failed ∨ r.isFinished = true ∨ (isStale r = true ∧ r.dropStaleOutput = true)

/-- The tokens of an output are drained. -/
def drained (x : Draining H) (id : ReqId) (n : ℕ) : Draining H :=
  { x with s := x.s.update id (drain n) }

/-- What processing the output of one scheduled request can be. -/
inductive Processed [DecidableEq H] (cfg : SchedulerConfig H) (out : SchedulerOutput)
    (m : ModelRunnerOutput) (failed : List ReqId) (x : Draining H) (id : ReqId) (n : ℕ) :
    Draining H → Prop
  | unknown (gone : id ∉ x.s.requests) : Processed cfg out m failed x id n x
  | skipped (known : id ∈ x.s.requests)
      (nonneg : isStale (x.s.objs id) = true → 0 ≤ (drain n (x.s.objs id)).numStaleOutputTokens)
      (skips : Skips failed id (x.s.objs id)) :
      Processed cfg out m failed x id n (drained x id n)
  | delivered {x' : Draining H} (known : id ∈ x.s.requests)
      (nonneg : isStale (x.s.objs id) = true → 0 ≤ (drain n (x.s.objs id)).numStaleOutputTokens)
      (takes : ¬ Skips failed id (x.s.objs id))
      (result : Delivered cfg m (drained x id n) id (isStale (x.s.objs id))
        (rejectDrafts cfg (out.numSpec id) (m.sampledTokenIds id).length (isStale (x.s.objs id))
          (drain n (x.s.objs id))) x') :
      Processed cfg out m failed x id n x'

/-- **What processing one scheduled request does.** -/
theorem processOne_eq_ok [DecidableEq H] (h : processOne cfg out m failed x id n = .ok x') :
    0 < n ∧ Processed cfg out m failed x id n x' := by
  simp only [processOne, bind_eq_ok, assert_eq_ok] at h
  obtain ⟨-, hn, h⟩ := h
  refine ⟨hn, ?_⟩
  split at h
  swap
  · next hgone =>
    cases h
    exact .unknown hgone
  next hknown =>
  simp only [processKnown, bind_eq_ok, assert_eq_ok, update_objs_self] at h
  obtain ⟨-, hnonneg, h⟩ := h
  have hnonneg : isStale (x.s.objs id) = true →
      0 ≤ (drain n (x.s.objs id)).numStaleOutputTokens := fun hs =>
    hnonneg.resolve_left (by simpa [isStale] using hs)
  split at h
  · next hskip =>
    cases h
    exact .skipped hknown hnonneg hskip
  · next hskip =>
    have hdel := deliver_eq_ok h
    simp only [update_objs_self] at hdel
    exact .delivered hknown hnonneg hskip hdel

/-! ## Other requests -/

/-- What processing the output of `id` leaves alone. -/
structure Frame (id : ReqId) (x x' : Draining H) : Prop where
  objs : ∀ i, i ≠ id → x'.s.objs i = x.s.objs i
  requests : ∀ i ∈ x'.s.requests, i ∈ x.s.requests
  stopped : ∀ i, i ≠ id → i ∉ x.stoppedRunning ∧ i ∉ x.stoppedPreempted →
    i ∉ x'.stoppedRunning ∧ i ∉ x'.stoppedPreempted
  running : x'.s.running = x.s.running

theorem Freed.subset {i : ReqId} {kv : KVState H} {requests : List ReqId}
    (h : Freed cfg s id kv requests) (hi : i ∈ requests) : i ∈ s.requests := by
  cases h with
  | delayed told => exact hi
  | gone told freed => exact List.mem_of_mem_filter hi

theorem Settles.frame (h : Settles cfg s id s') :
    (∀ i, i ≠ id → s'.objs i = s.objs i) ∧ (∀ i ∈ s'.requests, i ∈ s.requests) ∧
      s'.running = s.running := by
  cases h with
  | finished ends freed encoder =>
    exact ⟨fun i hi => update_objs_of_ne _ _ hi, fun i hi => freed.subset hi, rfl⟩
  | spliced => exact ⟨fun i hi => Function.update_of_ne hi _ _, fun i hi => hi, rfl⟩
  | waits => exact ⟨fun i hi => Function.update_of_ne hi _ _, fun i hi => hi, rfl⟩

/-- **Processing an output of one request leaves the others alone.** -/
theorem Processed.frame [DecidableEq H]
    (h : Processed cfg out m failed x id n x') : Frame id x x' := by
  have hdrain (i : ReqId) (hi : i ≠ id) : (drained x id n).s.objs i = x.s.objs i :=
    update_objs_of_ne _ _ hi
  cases h with
  | unknown gone => exact ⟨fun i _ => rfl, fun i hi => hi, fun i _ hi => hi, rfl⟩
  | skipped => exact ⟨hdrain, fun i hi => hi, fun i _ hi => hi, rfl⟩
  | delivered known nonneg takes result =>
    cases result with
    | goesOn =>
      refine ⟨fun i hi => ?_, fun i hi => hi, fun i _ hi => hi, rfl⟩
      exact (Function.update_of_ne hi _ _).trans (hdrain i hi)
    | stops freed taken cached stop settled =>
      obtain ⟨hobjs, hreq, hrun⟩ := settled.frame
      refine ⟨fun i hi => ?_, hreq, fun i hi hnot => ?_, hrun⟩
      · exact (hobjs i hi).trans ((Function.update_of_ne hi _ _).trans (hdrain i hi))
      · simp only
        split
        · exact ⟨by simpa [hi, drained] using hnot.1, hnot.2⟩
        · exact ⟨hnot.1, by simpa [hi, drained] using hnot.2⟩

/-! ## Failed loads -/

/-- The requests after failed loads: some have fewer computed tokens. -/
def OnlyComputed (objs objs' : ReqId → Request H) : Prop :=
  ∀ id, ∃ c, objs' id = { objs id with numComputedTokens := c }

theorem OnlyComputed.refl (objs : ReqId → Request H) : OnlyComputed objs objs :=
  fun id => ⟨(objs id).numComputedTokens, rfl⟩

theorem OnlyComputed.trans {objs₁ objs₂ objs₃ : ReqId → Request H} (h : OnlyComputed objs₁ objs₂)
    (h' : OnlyComputed objs₂ objs₃) : OnlyComputed objs₁ objs₃ := by
  intro id
  obtain ⟨c, hc⟩ := h id
  obtain ⟨c', hc'⟩ := h' id
  exact ⟨c', by rw [hc', hc]⟩

theorem scanInvalid_eq_ok
    {x x' : InvalidScan H} (h : scanInvalid cfg invalid scheduled evict x id = .ok x') :
    ∃ objs, x'.s = { x.s with objs := objs } ∧ OnlyComputed x.s.objs objs := by
  have hupdate (c : ℤ) : OnlyComputed x.s.objs
      (x.s.update id fun r => { r with numComputedTokens := c }).objs := by
    intro i
    rcases eq_or_ne i id with rfl | hne
    · exact ⟨c, by simp⟩
    · exact ⟨_, by rw [update_objs_of_ne _ _ hne]⟩
  simp only [scanInvalid] at h
  split at h
  · split at h
    · cases h
      exact ⟨_, rfl, .refl _⟩
    · cases h
      exact ⟨_, rfl, hupdate _⟩
    · cases h
      exact ⟨_, rfl, hupdate _⟩
  · cases h

theorem scanAllInvalid_eq_ok {ids : List ReqId} {x x' : InvalidScan H}
    (h : scanAllInvalid cfg invalid scheduled evict ids x = .ok x') :
    ∃ objs, x'.s = { x.s with objs := objs } ∧ OnlyComputed x.s.objs objs := by
  induction ids generalizing x with
  | nil =>
    cases h
    exact ⟨_, rfl, .refl _⟩
  | cons id ids ih =>
    obtain ⟨x₁, hone, h⟩ := bind_eq_ok.1 h
    obtain ⟨objs₁, hs₁, hc₁⟩ := scanInvalid_eq_ok hone
    obtain ⟨objs, hs, hc⟩ := ih h
    rw [hs₁] at hs hc
    exact ⟨objs, hs, hc₁.trans hc⟩

/-- **What failed loads do**: they take back computed tokens, and may evict blocks. -/
theorem handleKvOutput_eq_ok [DecidableEq H] {o : Option KVConnectorOutput}
    (h : handleKvOutput cfg scheduled o s = .ok (failed, s')) :
    ∃ objs kv failedIds, OnlyComputed s.objs objs ∧ s' = { s with
        objs := objs
        kv := { s.kv with kv := kv }
        failedRecvingKvReqIds := failedIds } := by
  unfold handleKvOutput at h
  split at h
  · cases h
    exact ⟨_, _, _, .refl _, rfl⟩
  split at h
  · cases h
    exact ⟨_, _, _, .refl _, rfl⟩
  simp only [handleInvalidBlocks, bind_eq_ok] at h
  obtain ⟨x, hx, y, hy, h⟩ := h
  obtain ⟨objs₁, hs₁, hc₁⟩ := scanAllInvalid_eq_ok hx
  obtain ⟨objs, hs, hc⟩ := scanAllInvalid_eq_ok hy
  simp only at hs₁ hc₁
  simp only [hs₁] at hs hc
  split at h
  · cases h
    rw [hs]
    exact ⟨objs, s.kv.kv, _, hc₁.trans hc, rfl⟩
  · simp only [evictFailed, bind_eq_ok] at h
    obtain ⟨s₁, hev, h⟩ := h
    cases h
    split at hev
    · cases hev
      exact ⟨objs, s.kv.kv, s.failedRecvingKvReqIds, hc₁.trans hc, hs⟩
    · obtain ⟨kv, -, hev⟩ := bind_eq_ok.1 hev
      cases hev
      rw [hs]
      exact ⟨objs, kv, s.failedRecvingKvReqIds, hc₁.trans hc, rfl⟩

end Scheduler

end KVarN.Sched
