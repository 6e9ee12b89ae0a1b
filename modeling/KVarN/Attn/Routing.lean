import KVarN.Attn.Kernels

/-!
# Routing in the attention backend

`forward` sends the query tokens of a batch down one of several paths, by the shape of the
batch, the deployment and a few switches. Each path chooses its key range and its masks on
its own. This module models the metadata builder and every path down to the list of keys
each query token attends to. A key is a position of a request, which a path reaches
through a row of the block table.

What a token should attend to does not depend on the path: the window of the layer that
ends at the token, or at the end of the request when attention is not causal. What it does
attend to is in `KVarN.Attn.Attended`.

## Main definitions

* `Impl` — the layer, its buffers and the switches; `Row`, `Batch` — a batch.
* `build` — the metadata of a batch; `forward` — the keys of each query token.
* `attended` — the keys of a token, for a window and a causality.
-/

namespace KVarN.Attn


/-! ## Layers and batches -/

/-- The environment switches that routing reads. -/
structure Switches where
  /-- `KVARN_FUSED_DECODE` -/
  fusedDecode : Bool := true
  /-- `KVARN_FUSED_VERIFY` -/
  fusedVerify : Bool := true
  /-- `KVARN_FUSED_VERIFY_MAXQ` -/
  fusedVerifyMaxq : ℕ := 8
  /-- `KVARN_FUSED_VERIFY_MIN_BLOCKS` -/
  fusedVerifyMinBlocks : ℕ := 64
  /-- `KVARN_SHARED_VERIFY` -/
  sharedVerify : Bool := true
  /-- `KVARN_SPLIT_K` -/
  splitK : Option Bool := none
  /-- `KVARN_NUM_KV_SPLITS` -/
  numKvSplits : Option ℕ := none

/-- A layer of the backend with its deployment: the fields of `KVarNAttentionImpl` and of
the metadata builder that routing reads. Without FlashAttention the fused decode kernel
cannot be turned off. -/
structure Impl extends Switches where
  shape : KernelShape
  slidingWindow : ℕ
  headSize : ℕ
  numHeads : ℕ
  numKvHeads : ℕ
  smCount : ℕ
  maxModelLen : ℕ
  hasFlashAttn : Bool
  /-- rows of `_mid_o_buf` -/
  midRows : Option ℕ
  /-- rows of `_fa_K_buf` and `_fa_V_buf` -/
  faRows : Option ℕ
  numSpeculativeTokens : Option ℕ
  parallelDrafting : Bool
  contextParallel : Bool
  numKvSplits_pos : ∀ n ∈ numKvSplits, 0 < n
  fused_or_flash : fusedDecode = true ∨ hasFlashAttn = true

/-- One request of a batch: its new tokens, its length with them, and the request whose
blocks its row of the block table holds. -/
structure Row where
  req : ℕ
  queryLen : ℕ
  seqLen : ℕ
  queryLen_pos : 0 < queryLen
  queryLen_le : queryLen ≤ seqLen

/-- A position of a request. -/
abbrev Key := ℕ × ℕ

namespace Row

/-- The tokens before the step. -/
def committed (r : Row) : ℕ := r.seqLen - r.queryLen

/-- One past the last position that token `j` of the row may attend to. -/
def limit (r : Row) (causal : Bool) (j : ℕ) : ℕ :=
  if causal then r.committed + j + 1 else r.seqLen

/-- Positions of the row's request. -/
def keys (r : Row) (positions : List ℕ) : List Key := positions.map (r.req, ·)

/-- A row of several new tokens with tokens before them. -/
def CachedMultiquery (r : Row) : Prop := 1 < r.queryLen ∧ r.queryLen < r.seqLen
  deriving Decidable

end Row

variable (impl : Impl) (rows : List Row)

def numTokens : ℕ := (rows.map Row.queryLen).sum

/-- `max_query_len`. -/
def maxQueryLen : ℕ := (rows.map Row.queryLen).foldr max 0

/-- One entry per new token of the rows, in order. -/
def perToken {α : Type*} (rows : List Row) (f : Row → ℕ → α) : List α :=
  rows.flatMap fun r => (List.range r.queryLen).map (f r)

/-- `adaptive_num_kv_splits`. -/
def Impl.adaptiveNumKvSplits (maxBlocksPerReq : ℕ) : ℕ :=
  match impl.numKvSplits with
  | some n => n
  | none => if maxBlocksPerReq ≤ 256 then 32 else 64

/-- `reorder_batch_threshold` of the builder. -/
def Impl.reorderBatchThreshold : ℕ :=
  let threshold := match impl.fusedVerify, impl.numSpeculativeTokens with
    | true, some n => max 1 (1 + (if impl.parallelDrafting then 2 else 1) * n)
    | _, _ => 1
  if impl.contextParallel then 1 else threshold

/-- A batch as the runners order it: a row of one token with tokens before it does not
follow a row above the decode threshold. `maxSeqLen` bounds the lengths, and the block
table is wide enough for them. -/
structure Batch (impl : Impl) where
  rows : List Row
  causal : Bool
  maxSeqLen : ℕ
  tableCols : ℕ
  rows_ne_nil : rows ≠ []
  ordered : rows.Pairwise fun r r' =>
    r'.queryLen = 1 → r'.queryLen < r'.seqLen → r.queryLen ≤ impl.reorderBatchThreshold
  le_maxSeqLen : ∀ r ∈ rows, r.seqLen ≤ maxSeqLen
  le_tableCols : ∀ r ∈ rows, r.seqLen ≤ tableCols * impl.shape.group
  le_maxModelLen : ∀ r ∈ rows, r.seqLen ≤ impl.maxModelLen

/-! ## The metadata builder -/

/-- `KVarNMetadata`: the fields the paths read. A virtual row of the verify plan is a row
of the block table and a length. -/
structure Metadata where
  rows : List Row
  maxQueryLen : ℕ
  maxSeqLen : ℕ
  tableCols : ℕ
  isPrefill : Bool
  numDecodes : ℕ := 0
  numDecodeTokens : ℕ := 0
  hasCachedMultiquery : Bool := false
  vqPlan : Option (List (ℕ × ℕ)) := none
  vqQlen : ℕ := 0
  causal : Bool

/-- `split_decodes_and_prefills`: the decode rows and their tokens. -/
def splitDecodesAndPrefills (threshold : ℕ) (rows : List Row) : ℕ × ℕ :=
  if maxQueryLen rows ≤ threshold then (rows.length, numTokens rows)
  else if rows.head?.any (threshold < ·.queryLen) then (0, 0)
  else if ¬ rows.any (threshold < ·.queryLen) then (rows.length, numTokens rows)
  else
    let firstPrefill := rows.findIdx (threshold < ·.queryLen)
    (firstPrefill, numTokens (rows.take firstPrefill))

/-- One virtual row per token, with the limit of its position. -/
def virtualRows (limit : Row → ℕ → ℕ) (rows : List Row) : List (ℕ × ℕ) :=
  rows.zipIdx.flatMap fun (r, b) => (List.range r.queryLen).map fun j => (b, limit r j)

/-- The common query length of the rows, 0 without one. -/
def uniformQueryLen : ℕ :=
  rows.foldl (fun uniform r => if r.queryLen ≠ uniform then 0 else uniform)
    (rows.head?.elim 0 Row.queryLen)

/-- `KVarNMetadataBuilder.build`. -/
def build (batch : Batch impl) : Metadata :=
  let (numDecodes, numDecodeTokens) :=
    splitDecodesAndPrefills impl.reorderBatchThreshold batch.rows
  let decodes := batch.rows.take numDecodes
  let planned := 0 < numDecodes ∧ numDecodes < numDecodeTokens
  let uniform := uniformQueryLen decodes
  { rows := batch.rows
    maxQueryLen := maxQueryLen batch.rows
    maxSeqLen := batch.maxSeqLen
    tableCols := batch.tableCols
    isPrefill := 1 < maxQueryLen batch.rows
    numDecodes := numDecodes
    numDecodeTokens := numDecodeTokens
    hasCachedMultiquery := batch.rows.any (·.CachedMultiquery)
    vqPlan := if planned then some (virtualRows (·.limit batch.causal) decodes) else none
    vqQlen := if planned ∧ 2 ≤ uniform ∧ batch.causal then uniform else 0
    causal := batch.causal }

/-! ## The paths -/

variable (md : Metadata)

/-- Positions reached through row `b` of the block table. -/
def tableKeys (b : ℕ) (positions : List ℕ) : List Key :=
  rows[b]?.elim [] (·.keys positions)

variable (causal : Bool) (sh : KernelShape)

/-- `_kvarn_build_packed_kv_kernel`: the positions of a request that it packs, in the order
they have in the packed buffer; a program takes a whole tile. -/
def buildPackedKv (maxBlocksPerReq seqLen : ℕ) : List ℕ :=
  (List.range maxBlocksPerReq).flatMap fun k =>
    ((List.range sh.group).filter (sh.holdsToken seqLen k ·)).map (k * sh.group + ·)

/-- `flash_attn_varlen_func`, for token `j` of `queryLen`: a causal mask is aligned to the
last query and the last key. -/
def flashVarlen (queryLen : ℕ) (keys : List ℕ) (j : ℕ) : List ℕ :=
  if causal then keys.take (keys.length - queryLen + j + 1) else keys

/-- `F.scaled_dot_product_attention` with `is_causal`: the mask is aligned to the first
query and the first key. -/
def scaledDotProduct (keys : List ℕ) (j : ℕ) : List ℕ :=
  if causal then keys.take (j + 1) else keys

/-- `kvarn_decode_attention`. -/
def kvarnDecodeAttention : List (List Key) :=
  let sh := impl.shape
  let maxBlocksPerReq := sh.numBlocks impl.maxModelLen
  let midFits := impl.midRows.any (rows.length * impl.numHeads ≤ ·)
  let splitK := impl.fusedDecode && midFits && match impl.splitK with
    | some enabled => enabled
    | none => impl.slidingWindow ≤ 0 && 16 ≤ maxBlocksPerReq &&
        rows.length * impl.numKvHeads ≤ impl.smCount
  let numSplits := impl.adaptiveNumKvSplits maxBlocksPerReq
  rows.map fun r => r.keys <|
    if impl.fusedDecode && !splitK then fusedDecodeKernel sh impl.slidingWindow r.seqLen
    else if splitK then
      (List.range numSplits).flatMap
        (fusedDecodeStage1 sh impl.slidingWindow numSplits r.seqLen)
    else flashVarlen false 1 (buildPackedKv sh maxBlocksPerReq r.seqLen) 0

/-- `kvarn_verify_attention`; `qlen` is the uniform query length, or 0. -/
def kvarnVerifyAttention (plan : List (ℕ × ℕ)) (maxCtxBlocks qlen : ℕ) : List (List Key) :=
  let sh := impl.shape
  if 2 ≤ qlen ∧ plan.length % qlen = 0 ∧ impl.sharedVerify then
    let numReqs := plan.length / qlen
    let numSplits :=
      if 16 ≤ maxCtxBlocks ∧ numReqs * impl.numKvHeads ≤ impl.smCount then
        impl.adaptiveNumKvSplits maxCtxBlocks
      else 1
    (List.range numReqs).flatMap fun b =>
      -- the length of the request is that of its last token
      let seqLen := plan[b * qlen + (qlen - 1)]?.elim 0 Prod.snd
      (List.range qlen).map fun j =>
        tableKeys rows b <| (List.range numSplits).flatMap
          (fusedVerifyStage1 sh impl.slidingWindow numSplits qlen seqLen j)
  else
    let splitK := match impl.splitK with
      | some enabled => enabled
      | none => impl.slidingWindow ≤ 0 && 16 ≤ maxCtxBlocks &&
          plan.length * impl.numKvHeads ≤ impl.smCount
    let numSplits := impl.adaptiveNumKvSplits maxCtxBlocks
    plan.map fun (b, seqLen) => tableKeys rows b <| if splitK then
        (List.range numSplits).flatMap (fusedDecodeStage1 sh impl.slidingWindow numSplits seqLen)
      else fusedDecodeKernel sh impl.slidingWindow seqLen

/-- `_prefill_first_chunk`: attention over the new tokens only. -/
def prefillFirstChunk : List (List Key) :=
  perToken md.rows fun r j => r.keys <| let newTokens := List.Ico r.committed r.seqLen
    if impl.hasFlashAttn ∧ impl.headSize ≤ 256 then flashVarlen md.causal r.queryLen newTokens j
    else scaledDotProduct md.causal newTokens j

/-- `_gather_request_kv`: full tiles, then the tail; a position is at its own index. -/
def gatherRequestKv (seqLen : ℕ) : List ℕ :=
  let numFull := seqLen / sh.group
  let tailLen := seqLen % sh.group
  ((List.Ico 0 numFull).flatMap fun k => List.Ico (k * sh.group) (k * sh.group + sh.group)) ++
    (if 0 < tailLen then List.Ico (numFull * sh.group) (numFull * sh.group + tailLen) else [])

/-- `_decode_path_slow`: `k_pos <= q_pos`, for every layer and batch. -/
def decodePathSlow : List (List Key) :=
  perToken md.rows fun r j => r.keys <|
    (gatherRequestKv impl.shape r.seqLen).filter (· ≤ j + (r.seqLen - r.queryLen))

/-- `_verify_decode_path`, with the plan of the builder; only called with one. -/
def verifyDecodePath : List (List Key) :=
  kvarnVerifyAttention impl md.rows (md.vqPlan.getD [])
    (max (impl.shape.numBlocks impl.maxModelLen) 1) md.vqQlen

/-- `_fused_verify_path`, with a plan of its own. -/
def fusedVerifyPath : List (List Key) :=
  kvarnVerifyAttention impl md.rows
    (virtualRows (fun r j => r.seqLen - r.queryLen + j + 1) md.rows)
    (max (min (impl.shape.numBlocks md.maxSeqLen) md.tableCols) 1) 0

/-- The cached multi-query path takes the fused kernels: few new tokens, long context. -/
def Impl.FusedRoute (maxQueryLen maxSeqLen : ℕ) : Prop :=
  impl.fusedVerify = true ∧ maxQueryLen ≤ impl.fusedVerifyMaxq ∧
    impl.fusedVerifyMinBlocks ≤ impl.shape.numBlocks maxSeqLen
  deriving Decidable

/-- The cached multi-query path can pack the rows' keys for FlashAttention. -/
def Impl.Packs : Prop :=
  impl.hasFlashAttn = true ∧ impl.headSize ≤ 256 ∧
    0 < (rows.map Row.seqLen).sum ∧ ∃ n ∈ impl.faRows, (rows.map Row.seqLen).sum ≤ n
  deriving Decidable

/-- `_cached_multiquery_path`. -/
def cachedMultiqueryPath : List (List Key) :=
  if impl.FusedRoute md.maxQueryLen md.maxSeqLen ∧ 0 < md.rows.length then
    fusedVerifyPath impl md
  else if impl.Packs md.rows then
    let maxBlocks := max (min (impl.shape.numBlocks md.maxSeqLen) md.tableCols) 1
    perToken md.rows fun r j =>
      r.keys (flashVarlen md.causal r.queryLen (buildPackedKv impl.shape maxBlocks r.seqLen) j)
  else decodePathSlow impl md

/-- `_decode_path`. -/
def decodePath : List (List Key) :=
  if 1 < md.maxQueryLen then cachedMultiqueryPath impl md
  else kvarnDecodeAttention impl md.rows

/-- The decode portion of `_mixed_batch_path`. -/
def decodeMeta : Metadata where
  rows := md.rows.take md.numDecodes
  maxQueryLen := 1
  maxSeqLen := md.maxSeqLen
  tableCols := md.tableCols
  isPrefill := false
  vqPlan := md.vqPlan.map (·.take md.numDecodeTokens)
  vqQlen := if md.vqPlan.isSome then md.vqQlen else 0
  causal := md.causal

/-- The prefill portion of `_mixed_batch_path`, with the bounds of the whole batch. -/
def prefillMeta : Metadata where
  rows := md.rows.drop md.numDecodes
  maxQueryLen := md.maxQueryLen
  maxSeqLen := md.maxSeqLen
  tableCols := md.tableCols
  isPrefill := true
  causal := md.causal

/-- The new tokens of a prefill, with or without tokens before them. -/
def prefillPath (hasCachedMultiquery : Bool) : List (List Key) :=
  if hasCachedMultiquery then cachedMultiqueryPath impl md else prefillFirstChunk impl md

/-- `_mixed_batch_path`. -/
def mixedBatchPath : List (List Key) :=
  (if md.vqPlan.isSome then verifyDecodePath impl (decodeMeta md)
    else decodePath impl (decodeMeta md)) ++
  prefillPath impl (prefillMeta md) md.hasCachedMultiquery

/-- `KVarNAttentionImpl.forward`: the keys of each query token, in order. -/
def forward : List (List Key) :=
  if ¬ md.isPrefill then decodePath impl md
  else if md.vqPlan.isSome ∧ md.numDecodeTokens = numTokens md.rows then verifyDecodePath impl md
  else if md.numDecodes = 0 then prefillPath impl md md.hasCachedMultiquery
  else mixedBatchPath impl md

/-- The keys of a token: the window up to the token's limit. -/
def attended (slidingWindow : ℕ) (causal : Bool) (r : Row) (j : ℕ) : List Key :=
  r.keys (window slidingWindow (r.limit causal j))

end KVarN.Attn
