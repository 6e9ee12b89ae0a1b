import KVarN.Core.KVCacheManager

/-!
# Requests

A `Request` is what the scheduler knows about one request: its tokens, the
counters that run ahead of the model while steps are in flight, and its status.
The tokens of the output and of the whole sequence are two lists in the source as
well, and both are kept.

`checkStop` decides after each appended token whether the request is done, and
`updateWithOutput` appends a step's tokens up to the first one that stops it.

## Main definitions

* `RequestStatus`, `Request`, `Request.create`, `StreamingUpdate`.
* `Request.checkStop`, `Request.updateWithOutput`.
* `Request.toKV` — the part of a request the KV-cache manager reads.
-/

namespace KVarN.Sched

open KVarN.Core

/-- Token ids; `-1` stands for a draft token that is not known yet. -/
abbrev Token := ℤ

/-- Identifiers of multimodal items, equal for equal contents. -/
abbrev MmHash := ℕ

/-- `RequestStatus`. -/
inductive RequestStatus
  | waiting
  | waitingForStructuredOutputGrammar
  | waitingForRemoteKvs
  | waitingForStreamingReq
  | running
  | preempted
  | finishedStopped
  | finishedLengthCapped
  | finishedAborted
  | finishedIgnored
  | finishedError
  | finishedRepetition
  deriving DecidableEq, Repr

namespace RequestStatus

/-- `RequestStatus.is_finished`: everything after `PREEMPTED`. -/
def isFinished : RequestStatus → Bool
  | .waiting | .waitingForStructuredOutputGrammar | .waitingForRemoteKvs
  | .waitingForStreamingReq | .running | .preempted => false
  | _ => true

/-- `Scheduler._is_blocked_waiting_status`. -/
def isBlockedWaiting : RequestStatus → Bool
  | .waitingForStructuredOutputGrammar | .waitingForRemoteKvs | .waitingForStreamingReq => true
  | _ => false

end RequestStatus

/-- `RepetitionDetectionParams`. -/
structure RepetitionDetectionParams where
  maxPatternSize : ℕ
  minPatternSize : ℕ
  minCount : ℕ
  deriving DecidableEq, Repr

/-- The sampling parameters that decide when a request stops. -/
structure SamplingParams where
  minTokens : ℕ
  eosTokenId : Option Token
  stopTokenIds : List Token
  repetitionDetection : Option RepetitionDetectionParams
  deriving DecidableEq, Repr

/-- A multimodal item: its identifier and the placeholders it fills
(`PlaceholderRange`). -/
structure MmFeature where
  identifier : MmHash
  offset : ℕ
  length : ℕ
  /-- Which placeholders take an embedding; `none` when all do. -/
  isEmbed : Option (List Bool)
  deriving DecidableEq, Repr

namespace MmFeature

/-- Embeddings among the first `n` placeholders. -/
def embedsBelow (f : MmFeature) (n : ℕ) : ℕ :=
  match f.isEmbed with
  | none => n
  | some mask => (mask.take n).count true

/-- `get_num_embeds`. -/
def getNumEmbeds (f : MmFeature) : ℕ :=
  match f.isEmbed with
  | none => f.length
  | some mask => mask.count true

end MmFeature

/-- `StreamingUpdate`: the next input of a streaming session. -/
structure StreamingUpdate where
  mmFeatures : List MmFeature
  promptTokenIds : List Token
  arrivalTime : ℕ
  samplingParams : Option SamplingParams
  deriving DecidableEq, Repr

/-- `Request`. The counters that the source decrements are integers. -/
structure Request (H : Type) where
  priority : ℤ
  arrivalTime : ℕ
  status : RequestStatus
  samplingParams : Option SamplingParams
  /-- Whether `pooling_params` is set. -/
  pooling : Bool
  maxTokens : ℕ
  /-- Whether `structured_output_request` is set. -/
  useStructuredOutput : Bool
  /-- `none` for a prompt given by embeddings only. -/
  promptTokenIds : Option (List Token)
  numPromptTokens : ℕ
  outputTokenIds : List Token
  allTokenIds : List Token
  numOutputPlaceholders : ℤ
  numStaleOutputTokens : ℤ
  dropStaleOutput : Bool
  numInFlightTokens : ℤ
  nextDecodeEligibleStep : ℕ
  lastSchedSeq : ℕ
  specTokenIds : List Token
  numComputedTokens : ℤ
  mmFeatures : List MmFeature
  isPrefillChunk : Bool
  sharedPrefixBoundary : ℕ
  numPreemptions : ℕ
  /-- Whether the statistics of the first prefill are still to be reported. -/
  prefillStats : Bool
  blockHashes : List H
  skipReadingPrefixCache : Bool
  resumable : Bool
  /-- The queued inputs of a session; the entry `none` ends it. -/
  streamingQueue : Option (List (Option StreamingUpdate))
  /-- `lora_request.lora_int_id`. -/
  loraId : Option ℕ

/-- The arguments a request is made from. -/
structure RequestParams where
  priority : ℤ
  arrivalTime : ℕ
  samplingParams : Option SamplingParams
  pooling : Bool
  maxTokens : ℕ
  useStructuredOutput : Bool
  promptTokenIds : Option (List Token)
  /-- The length of the prompt embeddings, for a prompt without token ids. -/
  numPromptEmbeds : ℕ
  mmFeatures : List MmFeature
  skipReadingPrefixCache : Bool
  resumable : Bool
  loraId : Option ℕ
  deriving DecidableEq, Repr

namespace Request

variable {H : Type} (r : Request H)

/-- `num_tokens`. -/
def numTokens : ℕ := r.allTokenIds.length

/-- `num_tokens_with_spec`. -/
def numTokensWithSpec : ℕ := r.allTokenIds.length + r.specTokenIds.length

/-- `num_output_tokens`. -/
def numOutputTokens : ℕ := r.outputTokenIds.length

/-- `is_finished`. -/
def isFinished (r : Request H) : Bool := r.status.isFinished

/-- `has_encoder_inputs`. -/
def hasEncoderInputs : Bool := !r.mmFeatures.isEmpty

/-- `get_num_encoder_embeds`. -/
def getNumEncoderEmbeds (i : ℕ) : ℕ :=
  (r.mmFeatures[i]?.map MmFeature.getNumEmbeds).getD 0

/-- `__lt__`, with the request ids that break ties. -/
def lt (r r' : Request H) (id id' : ReqId) : Bool :=
  if r.priority ≠ r'.priority then r.priority < r'.priority
  else if r.arrivalTime ≠ r'.arrivalTime then r.arrivalTime < r'.arrivalTime
  else id < id'

/-- The fields the KV-cache manager reads. -/
def toKV (id : ReqId) : KVRequest H where
  requestId := id
  numTokens := r.numTokens
  numPromptTokens := r.numPromptTokens
  numComputedTokens := r.numComputedTokens.toNat
  numInFlightTokens := r.numInFlightTokens.toNat
  blockHashes := r.blockHashes
  sharedPrefixBoundary := r.sharedPrefixBoundary
  skipReadingPrefixCache := r.skipReadingPrefixCache
  awaitingAdmission := decide (r.status = .waiting ∨ r.status = .preempted)

/-- `update_block_hashes`: the hasher returns the hashes of the new full blocks. -/
def updateBlockHashes (hasher : Request H → List H) (r : Request H) : Request H :=
  { r with blockHashes := r.blockHashes ++ hasher r }

/-- The request the constructor makes, before its blocks are hashed. -/
def ofParams (q : RequestParams) : Request H where
  priority := q.priority
  arrivalTime := q.arrivalTime
  status :=
    if q.pooling = false ∧ q.useStructuredOutput then .waitingForStructuredOutputGrammar
    else .waiting
  samplingParams := q.samplingParams
  pooling := q.pooling
  maxTokens := if q.pooling then 1 else q.maxTokens
  useStructuredOutput := q.useStructuredOutput
  promptTokenIds := q.promptTokenIds
  numPromptTokens := (q.promptTokenIds.map List.length).getD q.numPromptEmbeds
  outputTokenIds := []
  allTokenIds := q.promptTokenIds.getD (List.replicate q.numPromptEmbeds 0)
  numOutputPlaceholders := 0
  numStaleOutputTokens := 0
  dropStaleOutput := false
  numInFlightTokens := 0
  nextDecodeEligibleStep := 0
  lastSchedSeq := 0
  specTokenIds := []
  numComputedTokens := 0
  mmFeatures := q.mmFeatures
  isPrefillChunk := false
  sharedPrefixBoundary := 0
  numPreemptions := 0
  prefillStats := true
  blockHashes := []
  skipReadingPrefixCache := q.skipReadingPrefixCache
  resumable := q.resumable
  streamingQueue := none
  loraId := q.loraId

/-- The constructor; one of the two kinds of parameters must be set. -/
def create (hasher : Request H → List H) (q : RequestParams) : Except Fault (Request H) :=
  if q.samplingParams = none ∧ q.pooling = false then .error .valueError
  else .ok (updateBlockHashes hasher (ofParams q))

/-- `StreamingUpdate.from_request`: a request that cannot be resumed ends the session. -/
def toUpdate : Option StreamingUpdate :=
  if r.resumable then
    some ⟨r.mmFeatures, r.promptTokenIds.getD [], r.arrivalTime, r.samplingParams⟩
  else none

/-- `append_output_token_ids` for one token. -/
def appendOutputTokenId (hasher : Request H → List H) (r : Request H) (t : Token) : Request H :=
  updateBlockHashes hasher { r with
    outputTokenIds := r.outputTokenIds ++ [t]
    allTokenIds := r.allTokenIds ++ [t] }

/-- The tail of `toks` repeats its last `len` tokens `count` times
(`_has_repeating_pattern`). -/
def hasRepeatingPattern (toks : List Token) (len count : ℕ) : Bool :=
  (List.range len).all fun n => (List.range count).all fun m =>
    toks.reverse[len * m + n]? = toks.reverse[n]?

/-- `check_sequence_repetition`: the shortest pattern that does not fit any more ends
the search. -/
def checkSequenceRepetition (toks : List Token) (p : RepetitionDetectionParams) : Bool :=
  let lo := if p.minPatternSize = 0 then 1 else p.minPatternSize
  if p.maxPatternSize = 0 ∨ p.minCount < 2 ∨ p.maxPatternSize < lo then false
  else
    ((List.range' lo (p.maxPatternSize + 1 - lo)).takeWhile fun len =>
      len * p.minCount ≤ toks.length).any fun len => hasRepeatingPattern toks len p.minCount

/-- What `check_stop` decides from the sampling parameters: the finished status, or
`none` to go on. -/
def stopStatus (sp : SamplingParams) (maxModelLen : ℕ) : Except Fault (Option RequestStatus) :=
  if r.numOutputTokens < sp.minTokens then .ok none
  else do
    let last ← orRaise .indexError r.outputTokenIds.getLast?
    if sp.eosTokenId = some last ∨ last ∈ sp.stopTokenIds then pure (some .finishedStopped)
    else if maxModelLen ≤ r.numTokens ∨ r.maxTokens ≤ r.numOutputTokens then
      pure (some .finishedLengthCapped)
    else if ∃ p ∈ sp.repetitionDetection, checkSequenceRepetition r.outputTokenIds p = true then
      pure (some .finishedRepetition)
    else pure none

/-- `check_stop`. -/
def checkStop (maxModelLen : ℕ) : Except Fault (Option RequestStatus) := do
  assert (r.pooling = false)
  let sp ← orRaise .assertionError r.samplingParams
  r.stopStatus sp maxModelLen

/-- `Scheduler._update_request_with_output`: append tokens up to the first that stops
the request. Returns the tokens that were appended and whether it stopped. -/
def updateWithOutput (hasher : Request H → List H) (maxModelLen : ℕ) :
    List Token → Request H → Except Fault (List Token × Bool × Request H)
  | [], r => .ok ([], false, r)
  | t :: ts, r => do
      let r := r.appendOutputTokenId hasher t
      let stop ← r.checkStop maxModelLen
      match stop with
      | some st => pure ([t], true, { r with status := st })
      | none => do
          let (kept, stopped, r) ← updateWithOutput hasher maxModelLen ts r
          pure (t :: kept, stopped, r)

end Request

end KVarN.Sched
