import KVarN.Core.BlockPool
import KVarN.Lib.Dict
import KVarN.Lib.FloatFormat
import KVarN.Lib.KeyedWrite
import KVarN.Lib.RowTable
import Mathlib.Data.Finset.Basic
import Mathlib.Data.List.Sort

/-!
# The persistent batch of a worker

`InputBatch` keeps the requests of a worker in rows. In each step requests are removed, new
ones are put into the vacated rows and then behind the last row, `condense` slides the last
requests down into rows that are still vacant, and rows may be swapped. What a row holds is
spread over some twenty containers that are updated side by side. Here the containers that
are indexed by rows and have a fixed size are one table of `Row`s, and every assignment of
the source is a field of it; the lists whose length changes are kept as lists.

What the logits processors have to know about a step is collected by `BatchUpdateBuilder`.

## Main definitions

* `SamplingParams`, `CachedRequestState` — what a request brings along.
* `BatchUpdateBuilder` — the removals, additions and moves of a step.
* `Row`, `InputBatch` — the rows and the batch.
* `InputBatch.addRequest`, `removeRequest`, `updateReqSpecTokenIds`, `swapStates`, `condense`,
  `refreshMetadata` — the operations.
* `BatchOp`, `BatchStep`, `InputBatch.exec`, `InputBatch.run` — steps of the worker.
-/

namespace KVarN.Worker

open KVarN.Lib Function
open KVarN.Core (Fault orRaise assert)

/-! ## Requests -/

abbrev ReqId := ℕ

/-- The identity of a `torch.Generator`. -/
abbrev Generator := ℕ

/-- A list object: its identity and what it holds when it is handed over. -/
structure ListObject where
  ident : ℕ
  items : List ℤ
  deriving DecidableEq, Repr

/-- A tensor object: its identity and its first dimension. -/
structure TensorObject where
  ident : ℕ
  length : ℕ
  deriving DecidableEq, Repr

/-- `SamplingParams`, as far as the batch and the built-in logits processors read it. -/
structure SamplingParams where
  temperature : ℚ := 1
  topP : ℚ := 1
  topK : ℤ := 0
  minP : ℚ := 0
  frequencyPenalty : ℚ := 0
  presencePenalty : ℚ := 0
  repetitionPenalty : ℚ := 1
  minTokens : ℕ := 0
  allStopTokenIds : Finset ℕ := ∅
  logitBias : Option (List (ℕ × ℚ)) := none
  allowedTokenIds : Option (List ℕ) := none
  badWordsTokenIds : Option (List (List ℤ)) := none
  thinkingTokenBudget : Option ℕ := none
  deriving DecidableEq

/-- `sampling_type` is `GREEDY`. -/
def SamplingParams.IsGreedy (p : SamplingParams) : Prop := p.temperature < 1 / 100000
  deriving Decidable

/-- `PoolingParams`. -/
structure PoolingParams where
  requiresTokenIds : Bool
  deriving DecidableEq, Repr

/-- `LoRARequest`; adapter ids are positive. -/
@[ext]
structure LoRARequest where
  loraIntId : ℕ
  pos : 0 < loraIntId

instance : DecidableEq LoRARequest := fun _ _ => decidable_of_iff _ LoRARequest.ext_iff.symm

/-- `CachedRequestState`. -/
structure CachedRequestState where
  reqId : ReqId
  promptTokenIds : Option (List ℤ)
  samplingParams : Option SamplingParams
  generator : Option Generator
  blockIds : List (List ℕ)
  numComputedTokens : ℕ
  outputTokenIds : ListObject
  loraRequest : Option LoRARequest
  promptEmbeds : Option TensorObject
  promptIsTokenIds : Option (List Bool)
  poolingParams : Option PoolingParams
  deriving DecidableEq

/-- `length_from_prompt_token_ids_or_embeds`. -/
def lengthFromPromptTokenIdsOrEmbeds (promptTokenIds : Option (List ℤ))
    (promptEmbeds : Option TensorObject) : Except Fault ℕ :=
  match promptTokenIds, promptEmbeds with
  | none, none => .error .valueError
  | none, some e => .ok e.length
  | some ids, none => .ok ids.length
  | some ids, some e => if e.length ≠ ids.length then .error .valueError else .ok ids.length

namespace CachedRequestState

/-- `num_prompt_tokens`. -/
def numPromptTokens (r : CachedRequestState) : ℕ :=
  (lengthFromPromptTokenIdsOrEmbeds r.promptTokenIds r.promptEmbeds).toOption.getD 0

/-- `num_tokens`. -/
def numTokens (r : CachedRequestState) : ℕ := r.numPromptTokens + r.outputTokenIds.items.length

end CachedRequestState

/-! ## The changes of a step -/

/-- What the logits processors are told about a new request. -/
structure AddedRequest where
  params : SamplingParams
  promptTokIds : Option (List ℤ)
  outputTokIds : ListObject
  deriving DecidableEq

/-- `BatchUpdate`: the removed rows, the added requests with their rows, and the moves. -/
structure BatchUpdate where
  batchSize : ℕ
  removed : List ℕ
  added : List (ℕ × AddedRequest)
  moved : List RowMove
  deriving DecidableEq

/-- `BatchUpdateBuilder`. -/
structure BatchUpdateBuilder where
  removed : List ℕ := []
  isRemovedSorted : Bool := false
  added : List (ℕ × AddedRequest) := []
  moved : List RowMove := []
  batchChanged : Bool := false
  deriving DecidableEq

namespace BatchUpdateBuilder

variable (u : BatchUpdateBuilder)

/-- `_ensure_removed_sorted`: descending order. -/
def ensureRemovedSorted : BatchUpdateBuilder :=
  if u.isRemovedSorted then u
  else { u with removed := u.removed.insertionSort (· ≥ ·), isRemovedSorted := true }

/-- `removed_append`. -/
def removedAppend (i : ℕ) : Except Fault BatchUpdateBuilder :=
  if u.isRemovedSorted then .error .runtimeError
  else .ok { u with removed := u.removed ++ [i], batchChanged := true }

/-- `peek_removed`: the lowest removed row. -/
def peekRemoved : Option ℕ := u.ensureRemovedSorted.removed.getLast?

/-- `pop_removed`; sorts only if there is a removed row. -/
def popRemoved : Option ℕ × BatchUpdateBuilder :=
  if u.removed = [] then (none, u)
  else
    let v := u.ensureRemovedSorted
    (v.removed.getLast?, { v with removed := v.removed.dropLast })

/-- `get_and_reset`. -/
def getAndReset (batchSize : ℕ) : Option BatchUpdate × BatchUpdateBuilder :=
  if u.removed = [] ∧ u.moved = [] ∧ u.added = [] then
    (none, { u with isRemovedSorted := false, batchChanged := false })
  else (some ⟨batchSize, u.removed, u.added, u.moved⟩, {})

end BatchUpdateBuilder

/-! ## Rows -/

/-- Assignment of a list to a slice of a row of a numpy array; a list of one element is
spread over the slice, and lengths that differ raise an exception. -/
def assignSlice {α : Type} (width start stop : ℕ) (values : List α) (row : ℕ → α) :
    Except Fault (ℕ → α) :=
  let n := min stop width - min start width
  if values.length = n then .ok (writeSlice row start values)
  else match values with
    | [x] => .ok (writeSlice row start (List.replicate n x))
    | _ => .error .valueError

/-- Assignment of one value to a slice. -/
def fillSlice {α : Type} (width start stop : ℕ) (x : α) (row : ℕ → α) : ℕ → α :=
  writeSlice row start (List.replicate (min stop width - min start width) x)

/-- The constants of a block table of one group. -/
structure BlockTableConfig where
  maxNumBlocksPerReq : ℕ
  blocksPerKvBlock : ℕ
  deriving DecidableEq, Repr

/-- `map_to_kernel_blocks`. -/
def mapToKernelBlocks (ids : List ℕ) (blocksPerKvBlock : ℕ) : List ℕ :=
  if blocksPerKvBlock = 1 then ids
  else ids.flatMap fun b => (List.range blocksPerKvBlock).map (b * blocksPerKvBlock + ·)

/-- One row of a `BlockTable`. -/
structure BlockRow where
  numBlocks : ℕ
  blockTable : ℕ → ℕ

namespace BlockRow

variable (r : BlockRow) (c : BlockTableConfig) (ids : List ℕ)

/-- The blocks of a row. -/
def blocks : List ℕ := (List.range r.numBlocks).map r.blockTable

/-- `append_row`. -/
def appendRow (r : BlockRow) : Except Fault BlockRow :=
  if ids = [] then .ok r
  else do
    let ids := mapToKernelBlocks ids c.blocksPerKvBlock
    let table ← assignSlice c.maxNumBlocksPerReq r.numBlocks (r.numBlocks + ids.length) ids
      r.blockTable
    pure ⟨r.numBlocks + ids.length, table⟩

/-- `add_row`. -/
def addRow (r : BlockRow) : Except Fault BlockRow :=
  appendRow c ids { r with numBlocks := 0 }

/-- `clear_row`. -/
def clearRow : BlockRow :=
  ⟨0, writeSlice r.blockTable 0 (List.replicate r.numBlocks 0)⟩

/-- `move_row`, the target. -/
def moveRow (src tgt : BlockRow) : BlockRow :=
  ⟨src.numBlocks, writeSlice tgt.blockTable 0 src.blocks⟩

end BlockRow

/-- `MultiGroupBlockTable.add_row`. -/
def addRowAll : List BlockTableConfig → List (List ℕ) → List BlockRow →
    Except Fault (List BlockRow)
  | [], _, rs => .ok rs
  | _ :: _, [], _ => .error .indexError
  | c :: cs, ids :: idss, rs => do
      let r ← (rs.headD ⟨0, fun _ => 0⟩).addRow c ids
      let rs ← addRowAll cs idss rs.tail
      pure (r :: rs)

/-- The constants of a batch. -/
structure BatchConfig where
  isPoolingModel : Bool
  maxNumReqs : ℕ
  maxModelLen : ℕ
  vocabSize : ℕ
  useReplayssm : Bool
  blockTables : List BlockTableConfig
  deriving DecidableEq, Repr

/-- The containers of the batch at one row. -/
structure Row where
  tokenIdsCpu : ℕ → ℤ
  isTokenIds : ℕ → Bool
  reqPromptEmbeds : Option TensorObject
  numTokensNoSpec : ℕ
  numPromptTokens : ℕ
  numComputedTokensCpu : ℕ
  replayssmDecodeBase : ℕ
  blockTable : List BlockRow
  temperatureCpu : ℚ
  topPCpu : ℚ
  topKCpu : ℤ
  frequencyPenaltiesCpu : ℚ
  presencePenaltiesCpu : ℚ
  repetitionPenaltiesCpu : ℚ
  numAcceptedTokensCpu : ℕ
  requestLoraMapping : ℕ
  generators : Option Generator
  allowedTokenIdsMask : ℕ → Bool
  badWordsTokenIds : Option (List (List ℤ))
  logitsProcessingNeedsTokenIds : Bool

namespace Row

variable (cfg : BatchConfig) (request : CachedRequestState)

/-- A row before the first request. -/
def blank : Row where
  tokenIdsCpu := fun _ => 0
  isTokenIds := fun _ => false
  reqPromptEmbeds := none
  numTokensNoSpec := 0
  numPromptTokens := 0
  numComputedTokensCpu := 0
  replayssmDecodeBase := 0
  blockTable := cfg.blockTables.map fun _ => ⟨0, fun _ => 0⟩
  temperatureCpu := 0
  topPCpu := 0
  topKCpu := 0
  frequencyPenaltiesCpu := 0
  presencePenaltiesCpu := 0
  repetitionPenaltiesCpu := 0
  numAcceptedTokensCpu := 1
  requestLoraMapping := 0
  generators := none
  allowedTokenIdsMask := fun _ => false
  badWordsTokenIds := none
  logitsProcessingNeedsTokenIds := false

/-- `add_request`: the token ids of the prompt and their flags. -/
def loadPrompt (numPromptTokens : ℕ) (row : Row) : Except Fault ((ℕ → ℤ) × (ℕ → Bool)) :=
  match request.promptTokenIds with
  | some ids => do
      let tokens ← assignSlice cfg.maxModelLen 0 numPromptTokens ids row.tokenIdsCpu
      let flags ← match request.promptIsTokenIds with
        | some isIds => assignSlice cfg.maxModelLen 0 numPromptTokens isIds row.isTokenIds
        | none => pure (fillSlice cfg.maxModelLen 0 numPromptTokens true row.isTokenIds)
      pure (tokens, flags)
  | none => .ok (row.tokenIdsCpu, fillSlice cfg.maxModelLen 0 numPromptTokens false row.isTokenIds)

variable (maskAllocated : Bool) (n : ℕ) (p : SamplingParams) (row : Row)

/-- `add_request`: the tokens and counts. -/
def loadTokens : Except Fault Row := do
  let numPromptTokens ←
    lengthFromPromptTokenIdsOrEmbeds request.promptTokenIds request.promptEmbeds
  let startIdx := numPromptTokens
  let endIdx := startIdx + request.outputTokenIds.items.length
  let (tokens, flags) ← row.loadPrompt cfg request numPromptTokens
  let tokens ← assignSlice cfg.maxModelLen startIdx endIdx request.outputTokenIds.items tokens
  let blocks ← addRowAll cfg.blockTables request.blockIds row.blockTable
  pure { row with
    numPromptTokens := numPromptTokens
    tokenIdsCpu := tokens
    isTokenIds := fillSlice cfg.maxModelLen startIdx endIdx true flags
    reqPromptEmbeds := request.promptEmbeds.or row.reqPromptEmbeds
    numTokensNoSpec := request.numTokens
    replayssmDecodeBase :=
      if cfg.useReplayssm then request.numTokens else row.replayssmDecodeBase
    numComputedTokensCpu := request.numComputedTokens
    blockTable := blocks }

/-- The row of the mask of a request that may generate the given tokens only. -/
def maskOf (allowed : List ℕ) (v : ℕ) : Bool := v ∉ allowed

/-- `add_request`: the row of the mask. -/
def loadMask : Except Fault (ℕ → Bool) :=
  match p.allowedTokenIds with
  | some (v :: vs) =>
    if ∀ u ∈ v :: vs, u < cfg.vocabSize then .ok (maskOf (v :: vs)) else .error .indexError
  | _ => .ok row.allowedTokenIdsMask

/-- `add_request`: the sampling parameters. -/
def loadSampling : Except Fault Row := do
  let mask ← row.loadMask cfg p
  pure { row with
    temperatureCpu := if p.IsGreedy then 0 else float32 p.temperature
    topPCpu := float32 p.topP
    topKCpu := if 0 < p.topK ∧ p.topK < cfg.vocabSize then p.topK else cfg.vocabSize
    frequencyPenaltiesCpu := float32 p.frequencyPenalty
    presencePenaltiesCpu := float32 p.presencePenalty
    repetitionPenaltiesCpu := float32 p.repetitionPenalty
    generators := request.generator.or row.generators
    allowedTokenIdsMask := mask
    badWordsTokenIds := match p.badWordsTokenIds with
      | some (w :: ws) => some (w :: ws)
      | _ => row.badWordsTokenIds }

/-- `add_request`: what follows the tokens. -/
def loadParams : Except Fault Row := do
  let row ← match request.samplingParams with
    | some p => row.loadSampling cfg request p
    | none => match request.poolingParams with
      | some p => pure { row with logitsProcessingNeedsTokenIds := p.requiresTokenIds }
      | none => .error .runtimeError
  pure { row with
    numAcceptedTokensCpu := 1
    requestLoraMapping := (request.loraRequest.map LoRARequest.loraIntId).getD 0 }

/-- `remove_request`; the prompt embeddings stay. -/
def unload : Row :=
  let row := { row with
    blockTable := row.blockTable.map BlockRow.clearRow
    requestLoraMapping := 0 }
  if cfg.isPoolingModel then row
  else { row with
    generators := none
    allowedTokenIdsMask := if maskAllocated then fun _ => false else row.allowedTokenIdsMask
    badWordsTokenIds := none }

/-- `_get_active_token_count`. -/
def activeTokenCount (spec : List ℤ) : ℕ := row.numTokensNoSpec + spec.length

/-- The cells of a slice from the beginning. -/
def firstCells {α : Type} (n : ℕ) (cells : ℕ → α) : List α := (List.range n).map cells

/-- `condense`: what the vacant row is after `n` tokens of the last row were moved into it. -/
def moveInto (last empty : Row) : Row :=
  let row := { empty with
    tokenIdsCpu := writeSlice empty.tokenIdsCpu 0 (firstCells n last.tokenIdsCpu)
    isTokenIds := writeSlice empty.isTokenIds 0 (firstCells n last.isTokenIds)
    reqPromptEmbeds := last.reqPromptEmbeds.or empty.reqPromptEmbeds
    numTokensNoSpec := last.numTokensNoSpec
    numPromptTokens := last.numPromptTokens
    replayssmDecodeBase :=
      if cfg.useReplayssm then last.replayssmDecodeBase else empty.replayssmDecodeBase
    numComputedTokensCpu := last.numComputedTokensCpu
    blockTable := List.zipWith BlockRow.moveRow last.blockTable empty.blockTable
    requestLoraMapping := last.requestLoraMapping }
  if cfg.isPoolingModel then row
  else { row with
    temperatureCpu := last.temperatureCpu
    topPCpu := last.topPCpu
    topKCpu := last.topKCpu
    frequencyPenaltiesCpu := last.frequencyPenaltiesCpu
    presencePenaltiesCpu := last.presencePenaltiesCpu
    repetitionPenaltiesCpu := last.repetitionPenaltiesCpu
    numAcceptedTokensCpu := last.numAcceptedTokensCpu
    generators := last.generators.or empty.generators
    allowedTokenIdsMask :=
      if maskAllocated then last.allowedTokenIdsMask else empty.allowedTokenIdsMask
    badWordsTokenIds := last.badWordsTokenIds.or empty.badWordsTokenIds }

/-- `condense`: the last row after it was moved; dictionary entries were popped. -/
def movedAway (last : Row) : Row :=
  let row := { last with
    reqPromptEmbeds := none
    blockTable := last.blockTable.map BlockRow.clearRow }
  if cfg.isPoolingModel then row
  else { row with generators := none, badWordsTokenIds := none }

/-- `swap_states`: what a row is after the swap with another one, up to `n` tokens. -/
def swapInto (row other : Row) : Row :=
  let row := { row with
    numTokensNoSpec := other.numTokensNoSpec
    numPromptTokens := other.numPromptTokens
    replayssmDecodeBase :=
      if cfg.useReplayssm then other.replayssmDecodeBase else row.replayssmDecodeBase
    numComputedTokensCpu := other.numComputedTokensCpu
    tokenIdsCpu := writeSlice row.tokenIdsCpu 0 (firstCells n other.tokenIdsCpu)
    isTokenIds := writeSlice row.isTokenIds 0 (firstCells n other.isTokenIds)
    reqPromptEmbeds := other.reqPromptEmbeds
    blockTable := other.blockTable
    requestLoraMapping := other.requestLoraMapping }
  if cfg.isPoolingModel then row
  else { row with
    temperatureCpu := other.temperatureCpu
    topPCpu := other.topPCpu
    topKCpu := other.topKCpu
    frequencyPenaltiesCpu := other.frequencyPenaltiesCpu
    presencePenaltiesCpu := other.presencePenaltiesCpu
    repetitionPenaltiesCpu := other.repetitionPenaltiesCpu
    numAcceptedTokensCpu := other.numAcceptedTokensCpu
    generators := other.generators
    badWordsTokenIds := other.badWordsTokenIds }

end Row

/-! ## The batch -/

/-- `InputBatch`. -/
structure InputBatch where
  reqIds : List (Option ReqId)
  reqIdToIndex : Dict ReqId ℕ
  reqOutputTokenIds : List (Option ListObject)
  specTokenIds : List (List ℤ)
  rows : ℕ → Row
  maskAllocated : Bool
  loraIdToRequestIds : Dict ℕ (Finset ReqId)
  loraIdToLoraRequest : Dict ℕ LoRARequest
  batchUpdateBuilder : BatchUpdateBuilder

namespace InputBatch

variable (cfg : BatchConfig) (b : InputBatch)

/-- An empty batch; there is a list of speculative tokens for each row. -/
def init : InputBatch where
  reqIds := []
  reqIdToIndex := Dict.empty
  reqOutputTokenIds := []
  specTokenIds := List.replicate cfg.maxNumReqs []
  rows := fun _ => Row.blank cfg
  maskAllocated := false
  loraIdToRequestIds := Dict.empty
  loraIdToLoraRequest := Dict.empty
  batchUpdateBuilder := {}

/-- `num_reqs`. -/
def numReqs : ℕ := b.reqIdToIndex.keys.length

variable (i j : ℕ) (reqId : ReqId) (request : CachedRequestState)

/-- `_register_add_request`. -/
def registerAddRequest : Except Fault (ℕ × BatchUpdateBuilder) := do
  let (popped, u) := b.batchUpdateBuilder.popRemoved
  let newReqIndex := popped.getD b.numReqs
  assert (newReqIndex < cfg.maxNumReqs)
  let u := { u with batchChanged := true }
  match request.samplingParams with
  | some p => pure (newReqIndex, { u with
      added := u.added ++ [(newReqIndex, ⟨p, request.promptTokenIds, request.outputTokenIds⟩)] })
  | none => pure (newReqIndex, u)

/-- Whether the mask has to be there for a request. -/
def needsMask : Bool :=
  match request.samplingParams.bind SamplingParams.allowedTokenIds with
  | some (_ :: _) => true
  | _ => false

/-- `add_request`. -/
def addRequest : Except Fault InputBatch := do
  let (reqIndex, u) ← b.registerAddRequest cfg request
  let row ← (b.rows reqIndex).loadTokens cfg request
  let row ← row.loadParams cfg request
  let (reqIds, outs, specs) :=
    if reqIndex = b.reqIds.length then
      (b.reqIds ++ [some request.reqId], b.reqOutputTokenIds ++ [some request.outputTokenIds],
        b.specTokenIds ++ [[]])
    else
      (b.reqIds.set reqIndex (some request.reqId),
        b.reqOutputTokenIds.set reqIndex (some request.outputTokenIds),
        b.specTokenIds.set reqIndex [])
  pure { b with
    reqIds := reqIds
    reqIdToIndex := b.reqIdToIndex.set request.reqId reqIndex
    reqOutputTokenIds := outs
    specTokenIds := specs
    rows := update b.rows reqIndex row
    maskAllocated := b.maskAllocated || needsMask request
    loraIdToRequestIds := match request.loraRequest with
      | some l => b.loraIdToRequestIds.set l.loraIntId
          (insert request.reqId ((b.loraIdToRequestIds.get? l.loraIntId).getD ∅))
      | none => b.loraIdToRequestIds
    loraIdToLoraRequest := match request.loraRequest with
      | some l => b.loraIdToLoraRequest.set l.loraIntId l
      | none => b.loraIdToLoraRequest
    batchUpdateBuilder := u }

/-- `update_req_spec_token_ids`; the tokens are those scheduled for the request. -/
def updateReqSpecTokenIds (specTokenIds : List ℤ) : Except Fault InputBatch := do
  let i ← orRaise .keyError (b.reqIdToIndex.get? reqId)
  if specTokenIds = [] then pure { b with specTokenIds := b.specTokenIds.set i [] }
  else do
    let row := b.rows i
    let startIndex := row.numTokensNoSpec
    let endTokenIndex := startIndex + specTokenIds.length
    let tokens ← assignSlice cfg.maxModelLen startIndex endTokenIndex specTokenIds row.tokenIdsCpu
    pure { b with
      specTokenIds := b.specTokenIds.set i specTokenIds
      rows := update b.rows i { row with
        tokenIdsCpu := tokens
        isTokenIds := fillSlice cfg.maxModelLen startIndex endTokenIndex true row.isTokenIds } }

/-- `remove_request`: the LoRA part. -/
def discardLora (loraId : ℕ) : Except Fault (Dict ℕ (Finset ReqId) × Dict ℕ LoRARequest) :=
  if loraId = 0 then .ok (b.loraIdToRequestIds, b.loraIdToLoraRequest)
  else do
    let reqs ← orRaise .keyError (b.loraIdToRequestIds.get? loraId)
    let rest := reqs.erase reqId
    if rest = ∅ then do
      let _ ← orRaise .keyError (b.loraIdToLoraRequest.get? loraId)
      pure (b.loraIdToRequestIds.pop loraId, b.loraIdToLoraRequest.pop loraId)
    else pure (b.loraIdToRequestIds.set loraId rest, b.loraIdToLoraRequest)

/-- `remove_request`. -/
def removeRequest : Except Fault InputBatch :=
  match b.reqIdToIndex.get? reqId with
  | none => .ok b
  | some i => do
      let u ← b.batchUpdateBuilder.removedAppend i
      let (loraIds, loras) ← b.discardLora reqId (b.rows i).requestLoraMapping
      pure { b with
        reqIds := b.reqIds.set i none
        reqIdToIndex := b.reqIdToIndex.pop reqId
        reqOutputTokenIds := b.reqOutputTokenIds.set i none
        specTokenIds := b.specTokenIds.set i []
        rows := update b.rows i ((b.rows i).unload cfg b.maskAllocated)
        loraIdToRequestIds := loraIds
        loraIdToLoraRequest := loras
        batchUpdateBuilder := u }

/-- The speculative tokens of a row. -/
def spec : List ℤ := b.specTokenIds.getD i []

/-- Exchange two elements of a list. -/
def swapItems {α : Type} (l : List α) (i j : ℕ) (default : α) : List α :=
  (l.set i (l.getD j default)).set j (l.getD i default)

/-- `swap_states` on the rows. Reading a row of the mask gives a view of it, so the second
assignment of the mask reads what the first one has written. -/
def swapRows : ℕ → Row :=
  let n := max ((b.rows i).activeTokenCount (b.spec i)) ((b.rows j).activeTokenCount (b.spec j))
  let ri := (b.rows i).swapInto cfg n (b.rows j)
  let rj := (b.rows j).swapInto cfg n (b.rows i)
  let swapped := update (update b.rows i ri) j rj
  if b.maskAllocated ∧ ¬ cfg.isPoolingModel then
    let first := update swapped i
      { swapped i with allowedTokenIdsMask := (swapped j).allowedTokenIdsMask }
    update first j { first j with allowedTokenIdsMask := (first i).allowedTokenIdsMask }
  else swapped

/-- `swap_states`. -/
def swapStates : Except Fault InputBatch := do
  let oldI ← orRaise .assertionError (b.reqIds.getD i none)
  let oldJ ← orRaise .assertionError (b.reqIds.getD j none)
  let indexI ← orRaise .keyError (b.reqIdToIndex.get? oldI)
  let indexJ ← orRaise .keyError (b.reqIdToIndex.get? oldJ)
  pure { b with
    reqIds := swapItems b.reqIds i j none
    reqIdToIndex := (b.reqIdToIndex.set oldI indexJ).set oldJ indexI
    reqOutputTokenIds := swapItems b.reqOutputTokenIds i j none
    specTokenIds := swapItems b.specTokenIds i j []
    rows := b.swapRows cfg i j
    batchUpdateBuilder :=
      if cfg.isPoolingModel then b.batchUpdateBuilder
      else { b.batchUpdateBuilder with moved := b.batchUpdateBuilder.moved ++ [.swap i j] } }

/-- The largest row that is not vacant. -/
def lastNonEmpty (empty : List ℕ) : ℕ → ℕ
  | 0 => 0
  | i + 1 => if i + 1 ∈ empty then lastNonEmpty empty i else i + 1

/-- The body of the loop of `condense`: the last request moves into the lowest vacant row. -/
def moveDown (last empty : ℕ) : Except Fault InputBatch := do
  let u := b.batchUpdateBuilder.popRemoved.2
  let reqId ← orRaise .assertionError (b.reqIds.getD last none)
  let n := (b.rows last).activeTokenCount (b.spec last)
  pure { b with
    reqIds := (b.reqIds.set empty (some reqId)).set last none
    reqOutputTokenIds :=
      (b.reqOutputTokenIds.set empty (b.reqOutputTokenIds.getD last none)).set last none
    reqIdToIndex := b.reqIdToIndex.set reqId empty
    specTokenIds := (b.specTokenIds.set empty (b.spec last)).set last []
    rows := update (update b.rows empty
      ((b.rows last).moveInto cfg b.maskAllocated n (b.rows empty))) last
      ((b.rows last).movedAway cfg)
    batchUpdateBuilder :=
      if cfg.isPoolingModel then u else { u with moved := u.moved ++ [.oneWay last empty] } }

/-- The loop of `condense`; it takes one vacant row in each round. -/
def condenseLoop (cfg : BatchConfig) : ℕ → ℕ → InputBatch → Except Fault InputBatch
  | 0, _, b => .ok b
  | fuel + 1, lastReqIndex, b => do
      let last := lastNonEmpty b.batchUpdateBuilder.removed lastReqIndex
      let empty ← orRaise .assertionError b.batchUpdateBuilder.peekRemoved
      if last ≤ empty then pure b
      else do
        let b ← b.moveDown cfg last empty
        condenseLoop cfg fuel (last - 1) b

/-- Trim the lists to the batch size. -/
def trim (n : ℕ) : InputBatch :=
  { b with
    reqIds := b.reqIds.take n
    reqOutputTokenIds := b.reqOutputTokenIds.take n
    specTokenIds := b.specTokenIds.take n }

/-- `condense`. -/
def condense : Except Fault InputBatch := do
  let numReqs := b.numReqs
  let b := { b with batchUpdateBuilder := b.batchUpdateBuilder.ensureRemovedSorted }
  let numEmpty := b.batchUpdateBuilder.removed.length
  if numEmpty = 0 then pure b
  else if numReqs = 0 then pure (b.trim 0)
  else do
    let b ← condenseLoop cfg numEmpty (numReqs + numEmpty - 1) b
    pure (b.trim numReqs)

/-- `refresh_metadata`, with the update it hands to the logits processors of sampling models. -/
def refreshMetadata : Option BatchUpdate × InputBatch :=
  if cfg.isPoolingModel then (none, { b with batchUpdateBuilder := {} })
  else
    let r := b.batchUpdateBuilder.getAndReset b.numReqs
    (r.1, { b with batchUpdateBuilder := r.2 })

end InputBatch

/-! ## Steps -/

/-- The operations of a step before its metadata are refreshed. -/
inductive BatchOp
  | remove (reqId : ReqId)
  | add (request : CachedRequestState)
  | spec (reqId : ReqId) (specTokenIds : List ℤ)
  | condense
  | swap (i j : ℕ)
  deriving DecidableEq

/-- A step: removals, then additions, then `condense`, then swaps. Speculative tokens may be
updated after the removals, and the metadata are refreshed at the end. -/
structure BatchStep where
  removals : List ReqId
  additions : List (CachedRequestState ⊕ ReqId × List ℤ)
  swaps : List ((ℕ × ℕ) ⊕ ReqId × List ℤ)

/-- The operations of a step before `condense`. -/
def BatchStep.early (s : BatchStep) : List BatchOp :=
  s.removals.map .remove ++ s.additions.map (Sum.elim .add fun x => .spec x.1 x.2)

/-- The operations of a step in their order. -/
def BatchStep.ops (s : BatchStep) : List BatchOp :=
  s.early ++ .condense :: s.swaps.map (Sum.elim (fun x => .swap x.1 x.2) fun x => .spec x.1 x.2)

namespace InputBatch

variable (cfg : BatchConfig) (b : InputBatch)

/-- One operation. -/
def exec : BatchOp → Except Fault InputBatch
  | .remove reqId => b.removeRequest cfg reqId
  | .add request => b.addRequest cfg request
  | .spec reqId specTokenIds => b.updateReqSpecTokenIds cfg reqId specTokenIds
  | .condense => b.condense cfg
  | .swap i j => b.swapStates cfg i j

/-- A step, with the update for the logits processors. -/
def step (s : BatchStep) : Except Fault (Option BatchUpdate × InputBatch) := do
  let b ← s.ops.foldlM (exec cfg) b
  pure (b.refreshMetadata cfg)

/-- A sequence of steps. -/
def run (cfg : BatchConfig) : List BatchStep → InputBatch → Except Fault InputBatch
  | [], b => .ok b
  | s :: steps, b => do
      let (_, b) ← b.step cfg s
      run cfg steps b

end InputBatch

end KVarN.Worker
