import KVarN.Worker.InputBatch

/-!
# What a row holds of its request

A request that is put into a row leaves its tokens, counts, blocks and parameters there.
`Row.Holds` says so, up to the active tokens of the request: cells behind them are left over
from earlier requests. It depends only on what `Row.SameFor` compares, and this is what
`condense` and `swap_states` carry over.

## Main definitions

* `Tenant` — a request of the batch with its speculative tokens.
* `CachedRequestState.Fits` — the sizes and kinds that the batch is made for.
* `Row.Holds`, `Row.SameFor` — the data of a request in a row.

## Main results

* `Row.load_spec` — `add_request` leaves the data of the request.
* `Row.sameFor_moveInto`, `Row.sameFor_swapInto` — moves and swaps carry it over.
-/

namespace KVarN.Worker

open KVarN.Lib Option

/-! ## Slices -/

section Slices

variable {α : Type} {width start stop n : ℕ} {values : List α} {row : ℕ → α} {x : α} {j : ℕ}

theorem assignSlice_eq (hstop : stop ≤ width) (hlen : start + values.length = stop) :
    assignSlice width start stop values row = .ok (writeSlice row start values) := by
  unfold assignSlice
  dsimp only
  rw [if_pos (by omega)]

theorem writeSlice_zero_of_lt (row : ℕ → α) (hj : j < values.length) :
    some (writeSlice row 0 values j) = values[j]? := by
  rw [writeSlice, if_pos (Nat.zero_le j), Nat.sub_zero, List.getElem?_eq_getElem hj, getD_some]

theorem writeSlice_of_lt_start (hj : j < start) : writeSlice row start values j = row j := by
  rw [writeSlice, if_neg (by omega)]

theorem writeSlice_firstCells {src : ℕ → α} (hj : j < n) :
    writeSlice row 0 (Row.firstCells n src) j = src j := by
  have hlen : j < (Row.firstCells n src).length := by simpa [Row.firstCells] using hj
  have hcell := writeSlice_zero_of_lt row hlen
  rw [Row.firstCells, List.getElem?_map, List.getElem?_range hj] at hcell
  simpa [Row.firstCells] using hcell

theorem fillSlice_of_mem (hstop : stop ≤ width) (hstart : start ≤ j) (hj : j < stop) :
    fillSlice width start stop x row j = x := by
  rw [fillSlice, writeSlice, if_pos hstart, List.getElem?_replicate_of_lt (by omega), getD_some]

theorem fillSlice_of_lt (hj : j < start) : fillSlice width start stop x row j = row j :=
  writeSlice_of_lt_start hj

end Slices

/-! ## Block tables -/

namespace BlockRow

theorem blocks_writeSlice (ids : List ℕ) (table : ℕ → ℕ) :
    blocks ⟨ids.length, writeSlice table 0 ids⟩ = ids := by
  refine List.ext_getElem? fun j => ?_
  rw [blocks, List.getElem?_map]
  by_cases hj : j < ids.length
  · rw [List.getElem?_range hj, map_some]
    exact writeSlice_zero_of_lt _ hj
  · rw [List.getElem?_eq_none (by simpa using hj), List.getElem?_eq_none (by simpa using hj)]
    rfl

theorem addRow_spec {c : BlockTableConfig} {ids : List ℕ} (r : BlockRow)
    (h : (mapToKernelBlocks ids c.blocksPerKvBlock).length ≤ c.maxNumBlocksPerReq) :
    ∃ r', r.addRow c ids = .ok r' ∧ r'.blocks = mapToKernelBlocks ids c.blocksPerKvBlock := by
  rw [addRow, appendRow]
  by_cases hids : ids = []
  · refine ⟨_, if_pos hids, ?_⟩
    rw [hids, mapToKernelBlocks]
    split <;> rfl
  · rw [if_neg hids]
    simp only [Nat.zero_add, assignSlice_eq h (Nat.zero_add _), ok_bind, pure_eq_ok]
    exact ⟨_, rfl, blocks_writeSlice _ _⟩

@[simp] theorem blocks_moveRow (src tgt : BlockRow) : (moveRow src tgt).blocks = src.blocks := by
  have hlen : src.numBlocks = src.blocks.length := by simp [blocks]
  rw [moveRow]
  conv_lhs => rw [hlen]
  exact blocks_writeSlice _ _

theorem map_blocks_zipWith_moveRow {l l' : List BlockRow} (h : l.length = l'.length) :
    (List.zipWith moveRow l l').map blocks = l.map blocks := by
  induction l generalizing l' with
  | nil => rfl
  | cons r l ih =>
    obtain _ | ⟨r', l'⟩ := l'
    · simp at h
    · simp only [List.zipWith_cons_cons, List.map_cons, blocks_moveRow, ih (Nat.succ_injective h)]

end BlockRow

open BlockRow

theorem addRowAll_spec {cs : List BlockTableConfig} {idss : List (List ℕ)} (rs : List BlockRow)
    (hlen : idss.length = cs.length) (hrs : rs.length = cs.length) (h : ∀ p ∈ cs.zip idss,
      (mapToKernelBlocks p.2 p.1.blocksPerKvBlock).length ≤ p.1.maxNumBlocksPerReq) :
    ∃ rs', addRowAll cs idss rs = .ok rs' ∧ rs'.length = cs.length ∧ rs'.map blocks =
      List.zipWith (fun c ids => mapToKernelBlocks ids c.blocksPerKvBlock) cs idss := by
  induction cs generalizing idss rs with
  | nil =>
    obtain rfl := List.length_eq_zero_iff.1 hrs
    exact ⟨[], rfl, rfl, by simp⟩
  | cons c cs ih =>
    obtain _ | ⟨ids, idss⟩ := idss
    · simp at hlen
    obtain ⟨r', hr', hblocks⟩ := addRow_spec (rs.headD ⟨0, fun _ => 0⟩)
      (h (c, ids) (by simp))
    obtain ⟨rs', hrs', hlen', hblocks'⟩ := ih rs.tail (Nat.succ_injective hlen)
      (by simp [hrs]) fun p hp => h p (by simp [hp])
    refine ⟨r' :: rs', ?_, by simp [hlen'], by simp [hblocks, hblocks']⟩
    simp only [addRowAll, hr', hrs', ok_bind, pure_eq_ok]

/-! ## The data of a request -/

namespace CachedRequestState

variable (cfg : BatchConfig) (r : CachedRequestState)

/-- The sizes and kinds that the batch is made for. -/
def Fits : Prop :=
  (lengthFromPromptTokenIdsOrEmbeds r.promptTokenIds r.promptEmbeds).isOk = true ∧
    (∀ l ∈ r.promptIsTokenIds, l.length = r.numPromptTokens) ∧
    r.numTokens ≤ cfg.maxModelLen ∧
    r.blockIds.length = cfg.blockTables.length ∧
    (∀ p ∈ cfg.blockTables.zip r.blockIds,
      (mapToKernelBlocks p.2 p.1.blocksPerKvBlock).length ≤ p.1.maxNumBlocksPerReq) ∧
    cfg.isPoolingModel = r.samplingParams.isNone ∧
    (r.samplingParams = none → r.poolingParams ≠ none) ∧
    ∀ p ∈ r.samplingParams, ∀ l ∈ p.allowedTokenIds, ∀ v ∈ l, v < cfg.vocabSize
  deriving Decidable

/-- The adapter of a request, or 0. -/
def loraId : ℕ := (r.loraRequest.map LoRARequest.loraIntId).getD 0

/-- The kernel blocks of a request in each group. -/
def kernelBlocks : List (List ℕ) :=
  List.zipWith (fun c ids => mapToKernelBlocks ids c.blocksPerKvBlock) cfg.blockTables r.blockIds

/-- Whether a position holds a token id; prompt positions may be embeddings. -/
def flagAt (j : ℕ) : Bool :=
  if j < r.numPromptTokens then
    match r.promptTokenIds, r.promptIsTokenIds with
    | none, _ => false
    | some _, none => true
    | some _, some l => l.getD j false
  else true

theorem Fits.length_eq {cfg : BatchConfig} {r : CachedRequestState} (h : r.Fits cfg) :
    lengthFromPromptTokenIdsOrEmbeds r.promptTokenIds r.promptEmbeds = .ok r.numPromptTokens := by
  rw [numPromptTokens]
  cases hlen : lengthFromPromptTokenIdsOrEmbeds r.promptTokenIds r.promptEmbeds with
  | error e =>
    have hok := h.1
    rw [hlen] at hok
    cases hok
  | ok n => rfl

theorem Fits.length_promptTokenIds {cfg : BatchConfig} {r : CachedRequestState} (h : r.Fits cfg)
    {ids : List ℤ} (hids : r.promptTokenIds = some ids) : ids.length = r.numPromptTokens := by
  have hlen := h.length_eq
  rw [hids] at hlen
  rcases he : r.promptEmbeds with _ | e <;> rw [he] at hlen
  · exact Except.ok.inj hlen
  · rw [lengthFromPromptTokenIdsOrEmbeds] at hlen
    split_ifs at hlen
    exact Except.ok.inj hlen

end CachedRequestState

open CachedRequestState

/-- A request of the batch with the speculative tokens that are scheduled for it. -/
structure Tenant where
  request : CachedRequestState
  spec : List ℤ
  deriving DecidableEq

namespace Tenant

/-- The active length. -/
def activeTokens (t : Tenant) : ℕ := t.request.numTokens + t.spec.length

/-- The token id at a position, if the request has one there. -/
def tokenAt (t : Tenant) (j : ℕ) : Option ℤ :=
  if j < t.request.numPromptTokens then t.request.promptTokenIds.bind (·[j]?)
  else (t.request.outputTokenIds.items ++ t.spec)[j - t.request.numPromptTokens]?

theorem tokenAt_lt {t : Tenant} {j : ℕ} {v : ℤ} (h : t.tokenAt j = some v) :
    j < t.activeTokens := by
  rw [tokenAt] at h
  rw [activeTokens, numTokens]
  split_ifs at h
  · omega
  · obtain ⟨hlt, -⟩ := List.getElem?_eq_some_iff.1 h
    rw [List.length_append] at hlt
    omega

end Tenant

open Tenant

namespace Row

/-- The sampling parameters of a request are those of the row. -/
structure HoldsSampling (cfg : BatchConfig) (request : CachedRequestState) (p : SamplingParams)
    (row : Row) : Prop where
  temperature : row.temperatureCpu = if p.IsGreedy then 0 else float32 p.temperature
  topP : row.topPCpu = float32 p.topP
  topK : row.topKCpu = if 0 < p.topK ∧ p.topK < cfg.vocabSize then p.topK else cfg.vocabSize
  frequencyPenalty : row.frequencyPenaltiesCpu = float32 p.frequencyPenalty
  presencePenalty : row.presencePenaltiesCpu = float32 p.presencePenalty
  repetitionPenalty : row.repetitionPenaltiesCpu = float32 p.repetitionPenalty
  generator : row.generators = request.generator
  badWords : row.badWordsTokenIds = p.badWordsTokenIds.filter (· ≠ [])

/-- **The row holds the data of the request.** -/
structure Holds (cfg : BatchConfig) (t : Tenant) (row : Row) : Prop where
  numPromptTokens : row.numPromptTokens = t.request.numPromptTokens
  numTokensNoSpec : row.numTokensNoSpec = t.request.numTokens
  numComputedTokens : row.numComputedTokensCpu = t.request.numComputedTokens
  tokens : ∀ j v, t.tokenAt j = some v → row.tokenIdsCpu j = v
  flags : ∀ j < t.activeTokens, row.isTokenIds j = t.request.flagAt j
  blocks : row.blockTable.map blocks = t.request.kernelBlocks cfg
  lora : row.requestLoraMapping = t.request.loraId
  sampling : ∀ p ∈ t.request.samplingParams, row.HoldsSampling cfg t.request p

/-- No entry of the dictionaries that are keyed by rows is left; pooling models do not use
them. -/
def Cleared (cfg : BatchConfig) (row : Row) : Prop :=
  cfg.isPoolingModel = false → row.generators = none ∧ row.badWordsTokenIds = none

/-- Two rows agree in what belongs to a request with `n` active tokens. -/
structure SameFor (cfg : BatchConfig) (n : ℕ) (row row' : Row) : Prop where
  numPromptTokens : row'.numPromptTokens = row.numPromptTokens
  numTokensNoSpec : row'.numTokensNoSpec = row.numTokensNoSpec
  numComputedTokens : row'.numComputedTokensCpu = row.numComputedTokensCpu
  tokens : ∀ j < n, row'.tokenIdsCpu j = row.tokenIdsCpu j
  flags : ∀ j < n, row'.isTokenIds j = row.isTokenIds j
  blocks : row'.blockTable.map blocks = row.blockTable.map blocks
  lora : row'.requestLoraMapping = row.requestLoraMapping
  sampling : cfg.isPoolingModel = false →
    row'.temperatureCpu = row.temperatureCpu ∧ row'.topPCpu = row.topPCpu ∧
      row'.topKCpu = row.topKCpu ∧ row'.frequencyPenaltiesCpu = row.frequencyPenaltiesCpu ∧
      row'.presencePenaltiesCpu = row.presencePenaltiesCpu ∧
      row'.repetitionPenaltiesCpu = row.repetitionPenaltiesCpu ∧
      row'.generators = row.generators ∧ row'.badWordsTokenIds = row.badWordsTokenIds

variable {cfg : BatchConfig} {t : Tenant} {row row' last empty other : Row} {n : ℕ}

/-- A row that agrees with the one of a request holds its data. -/
theorem Holds.congr (h : row.Holds cfg t) (hfits : t.request.Fits cfg)
    (hn : t.activeTokens ≤ n) (hsame : SameFor cfg n row row') : row'.Holds cfg t := by
  refine ⟨hsame.numPromptTokens.trans h.numPromptTokens,
    hsame.numTokensNoSpec.trans h.numTokensNoSpec,
    hsame.numComputedTokens.trans h.numComputedTokens, fun j v hv => ?_, fun j hj => ?_,
    hsame.blocks.trans h.blocks, hsame.lora.trans h.lora, fun p hp => ?_⟩
  · exact (hsame.tokens j ((tokenAt_lt hv).trans_le hn)).trans (h.tokens j v hv)
  · exact (hsame.flags j (hj.trans_le hn)).trans (h.flags j hj)
  · have hpool : cfg.isPoolingModel = false := by
      rw [hfits.2.2.2.2.2.1, isNone_eq_false_iff]
      exact isSome_of_mem hp
    obtain ⟨h1, h2, h3, h4, h5, h6, h7, h8⟩ := hsame.sampling hpool
    have hs := h.sampling p hp
    exact ⟨h1.trans hs.temperature, h2.trans hs.topP, h3.trans hs.topK,
      h4.trans hs.frequencyPenalty, h5.trans hs.presencePenalty, h6.trans hs.repetitionPenalty,
      h7.trans hs.generator, h8.trans hs.badWords⟩

/-- Speculative tokens are written behind the tokens of the request. -/
theorem Holds.withSpec {tokens : List ℤ} {cells : ℕ → ℤ} {flags : ℕ → Bool} (h : row.Holds cfg t)
    (hcells : ∀ j, cells j = writeSlice row.tokenIdsCpu t.request.numTokens tokens j)
    (hflags : ∀ j < t.request.numTokens + tokens.length,
      flags j = if j < t.request.numTokens then row.isTokenIds j else true) :
    Holds cfg { t with spec := tokens } { row with tokenIdsCpu := cells, isTokenIds := flags } := by
  refine ⟨h.numPromptTokens, h.numTokensNoSpec, h.numComputedTokens, fun j v hv => ?_,
    fun j hj => ?_, h.blocks, h.lora, fun p hp => ?_⟩
  · dsimp only
    rw [hcells]
    rw [tokenAt] at hv
    dsimp only at hv
    have hold := h.tokens j v
    rw [tokenAt] at hold
    by_cases hnum : j < t.request.numTokens
    · rw [writeSlice_of_lt_start hnum]
      refine hold ?_
      split_ifs at hv ⊢ with hprompt
      · exact hv
      · rw [numTokens] at hnum
        rw [List.getElem?_append_left (by omega)] at hv ⊢
        exact hv
    · rw [numTokens] at hnum ⊢
      rw [if_neg (by omega), List.getElem?_append_right (by omega), Nat.sub_sub] at hv
      rw [writeSlice, if_pos (Nat.not_lt.1 hnum), hv, getD_some]
  · dsimp only
    rw [hflags j hj]
    split_ifs with hnum
    · refine h.flags j ?_
      rw [activeTokens]
      omega
    · rw [numTokens] at hnum
      rw [flagAt, if_neg (by omega)]
  · have hs := h.sampling p hp
    exact ⟨hs.temperature, hs.topP, hs.topK, hs.frequencyPenalty, hs.presencePenalty,
      hs.repetitionPenalty, hs.generator, hs.badWords⟩

/-- **Moving a row down** carries the data over. -/
theorem sameFor_moveInto (maskAllocated : Bool)
    (hlen : last.blockTable.length = empty.blockTable.length) (hclear : empty.Cleared cfg) :
    SameFor cfg n last (last.moveInto cfg maskAllocated n empty) := by
  have hblocks := map_blocks_zipWith_moveRow hlen
  rw [moveInto]
  by_cases hpool : cfg.isPoolingModel = true
  · simp only [hpool, if_true]
    exact ⟨rfl, rfl, rfl, fun j hj => writeSlice_firstCells hj,
      fun j hj => writeSlice_firstCells hj, hblocks, rfl, fun h => by simp [hpool] at h⟩
  · simp only [hpool, Bool.false_eq_true, if_false]
    refine ⟨rfl, rfl, rfl, fun j hj => writeSlice_firstCells hj,
      fun j hj => writeSlice_firstCells hj, hblocks, rfl, fun _ => ?_⟩
    obtain ⟨hgen, hbad⟩ := hclear (Bool.not_eq_true _ ▸ hpool)
    exact ⟨rfl, rfl, rfl, rfl, rfl, rfl, by simp [hgen], by simp [hbad]⟩

/-- **Swapping rows** carries the data over. -/
theorem sameFor_swapInto : SameFor cfg n other (row.swapInto cfg n other) := by
  rw [swapInto]
  by_cases hpool : cfg.isPoolingModel = true
  · simp only [hpool, if_true]
    exact ⟨rfl, rfl, rfl, fun j hj => writeSlice_firstCells hj,
      fun j hj => writeSlice_firstCells hj, rfl, rfl, fun h => by simp [hpool] at h⟩
  · simp only [hpool, Bool.false_eq_true, if_false]
    exact ⟨rfl, rfl, rfl, fun j hj => writeSlice_firstCells hj,
      fun j hj => writeSlice_firstCells hj, rfl, rfl,
      fun _ => ⟨rfl, rfl, rfl, rfl, rfl, rfl, rfl, rfl⟩⟩

@[simp] theorem allowedTokenIdsMask_swapInto :
    (row.swapInto cfg n other).allowedTokenIdsMask = row.allowedTokenIdsMask := by
  rw [swapInto]
  split_ifs <;> rfl

theorem withMask_swapInto : { row.swapInto cfg n other with
    allowedTokenIdsMask := row.allowedTokenIdsMask } = row.swapInto cfg n other := by
  rw [swapInto]
  split_ifs <;> rfl

@[simp] theorem blockTable_swapInto : (row.swapInto cfg n other).blockTable = other.blockTable := by
  rw [swapInto]
  split_ifs <;> rfl

@[simp] theorem reqPromptEmbeds_swapInto :
    (row.swapInto cfg n other).reqPromptEmbeds = other.reqPromptEmbeds := by
  rw [swapInto]
  split_ifs <;> rfl

@[simp] theorem logitsProcessingNeedsTokenIds_swapInto :
    (row.swapInto cfg n other).logitsProcessingNeedsTokenIds =
      row.logitsProcessingNeedsTokenIds := by
  rw [swapInto]
  split_ifs <;> rfl

theorem SameFor.refl (cfg : BatchConfig) (n : ℕ) (row : Row) : SameFor cfg n row row :=
  ⟨rfl, rfl, rfl, fun _ _ => rfl, fun _ _ => rfl, rfl, rfl,
    fun _ => ⟨rfl, rfl, rfl, rfl, rfl, rfl, rfl, rfl⟩⟩

/-- The mask does not belong to what is compared. -/
theorem SameFor.withMask (h : SameFor cfg n row row') (mask : ℕ → Bool) :
    SameFor cfg n row { row' with allowedTokenIdsMask := mask } :=
  ⟨h.numPromptTokens, h.numTokensNoSpec, h.numComputedTokens, h.tokens, h.flags, h.blocks, h.lora,
    h.sampling⟩

/-! ### Loading a request -/

/-- What a request leaves in the mask: its own row, or what was there. -/
def maskAfter (request : CachedRequestState) (row : Row) : ℕ → Bool :=
  match request.samplingParams.bind SamplingParams.allowedTokenIds with
  | some (v :: vs) => maskOf (v :: vs)
  | _ => row.allowedTokenIdsMask

/-- What `add_request` leaves in a row, beside the data of the request. -/
structure Loaded (cfg : BatchConfig) (request : CachedRequestState) (row row' : Row) : Prop where
  holds : row'.Holds cfg ⟨request, []⟩
  tables : row'.blockTable.length = cfg.blockTables.length
  promptEmbeds : row'.reqPromptEmbeds = request.promptEmbeds.or row.reqPromptEmbeds
  mask : row'.allowedTokenIdsMask = row.maskAfter request
  needsTokenIds : row'.logitsProcessingNeedsTokenIds = if request.samplingParams = none then
      (request.poolingParams.map PoolingParams.requiresTokenIds).getD
        row.logitsProcessingNeedsTokenIds
    else row.logitsProcessingNeedsTokenIds

variable {request : CachedRequestState}

theorem loadPrompt_spec (row : Row) (hfits : request.Fits cfg) :
    ∃ tokens flags, row.loadPrompt cfg request request.numPromptTokens = .ok (tokens, flags) ∧
      (∀ j < request.numPromptTokens, ∀ v, request.promptTokenIds.bind (·[j]?) = some v →
        tokens j = v) ∧ ∀ j < request.numPromptTokens, flags j = request.flagAt j := by
  obtain ⟨-, hflags, hmax, -⟩ := id hfits
  rw [numTokens] at hmax
  obtain ⟨n, hn⟩ : ∃ n, request.numPromptTokens = n := ⟨_, rfl⟩
  rw [hn] at hmax ⊢
  have hflagAt : ∀ j < n, request.flagAt j = match request.promptTokenIds,
      request.promptIsTokenIds with
      | none, _ => false
      | some _, none => true
      | some _, some l => l.getD j false := by
    intro j hj
    rw [flagAt, hn, if_pos hj]
  rw [loadPrompt]
  rcases hids : request.promptTokenIds with _ | ids <;> simp only [hids] at hflagAt
  · refine ⟨_, _, rfl, by simp, fun j hj => ?_⟩
    rw [fillSlice_of_mem (by omega) (Nat.zero_le j) hj, hflagAt j hj]
  have hlen : ids.length = n := (hfits.length_promptTokenIds hids).trans hn
  have htok : ∀ j < n, ∀ v, (some ids).bind (·[j]?) = some v →
      writeSlice row.tokenIdsCpu 0 ids j = v := by
    intro j hj v hv
    have hcell := writeSlice_zero_of_lt row.tokenIdsCpu (hlen.symm ▸ hj)
    exact Option.some.inj (hcell.trans hv)
  dsimp only
  rw [assignSlice_eq (by omega) (by omega)]
  rcases hisIds : request.promptIsTokenIds with _ | isIds <;> simp only [hisIds] at hflagAt
  · refine ⟨_, _, rfl, htok, fun j hj => ?_⟩
    rw [fillSlice_of_mem (by omega) (Nat.zero_le j) hj, hflagAt j hj]
  · have hislen : isIds.length = n := (hflags isIds hisIds).trans hn
    dsimp only
    rw [assignSlice_eq (by omega) (by omega)]
    refine ⟨_, _, rfl, htok, fun j hj => ?_⟩
    have hcell := writeSlice_zero_of_lt row.isTokenIds (hislen.symm ▸ hj)
    rw [hflagAt j hj, List.getD_eq_getElem?_getD, ← hcell, getD_some]

/-- What the first part of `add_request` leaves in a row. -/
structure TokensLoaded (cfg : BatchConfig) (request : CachedRequestState) (row row' : Row) :
    Prop where
  numPromptTokens : row'.numPromptTokens = request.numPromptTokens
  numTokensNoSpec : row'.numTokensNoSpec = request.numTokens
  numComputedTokens : row'.numComputedTokensCpu = request.numComputedTokens
  tokens : ∀ j v, tokenAt ⟨request, []⟩ j = some v → row'.tokenIdsCpu j = v
  flags : ∀ j < request.numTokens, row'.isTokenIds j = request.flagAt j
  tables : row'.blockTable.length = cfg.blockTables.length
  blocks : row'.blockTable.map blocks = request.kernelBlocks cfg
  promptEmbeds : row'.reqPromptEmbeds = request.promptEmbeds.or row.reqPromptEmbeds
  generator : row'.generators = row.generators
  badWords : row'.badWordsTokenIds = row.badWordsTokenIds
  mask : row'.allowedTokenIdsMask = row.allowedTokenIdsMask
  needsTokenIds : row'.logitsProcessingNeedsTokenIds = row.logitsProcessingNeedsTokenIds

theorem loadTokens_spec (hfits : request.Fits cfg)
    (hlen : row.blockTable.length = cfg.blockTables.length) :
    ∃ row', row.loadTokens cfg request = .ok row' ∧ TokensLoaded cfg request row row' := by
  obtain ⟨pt, pf, hload, hpt, hpf⟩ := loadPrompt_spec row hfits
  have hprompt := hfits.length_eq
  obtain ⟨-, -, hmax, hblocks, hkernel, -⟩ := id hfits
  obtain ⟨blocks, hadd, hblen, hbmap⟩ := addRowAll_spec _ hblocks hlen hkernel
  obtain ⟨outs, houts⟩ : ∃ outs, request.outputTokenIds.items = outs := ⟨_, rfl⟩
  obtain ⟨n, hn⟩ : ∃ n, request.numPromptTokens = n := ⟨_, rfl⟩
  rw [numTokens, houts, hn] at hmax
  rw [hn] at hpt hpf hload hprompt
  simp only [loadTokens, hprompt, hload, houts, ok_bind, pure_eq_ok, hadd,
    assignSlice_eq (show n + outs.length ≤ cfg.maxModelLen from hmax) rfl]
  refine ⟨_, rfl, hn.symm, rfl, rfl, fun j v hv => ?_, fun j hj => ?_, hblen, hbmap, rfl, rfl, rfl,
    rfl, rfl⟩
  · rw [tokenAt] at hv
    dsimp only at hv ⊢
    rw [hn, houts, List.append_nil] at hv
    split_ifs at hv with hj
    · rw [writeSlice_of_lt_start hj]
      exact hpt j hj v hv
    · rw [writeSlice, if_pos (by omega), hv, getD_some]
  · rw [numTokens, hn, houts] at hj
    dsimp only
    by_cases hprompt : j < n
    · rw [fillSlice_of_lt hprompt]
      exact hpf j hprompt
    · rw [fillSlice_of_mem (by omega) (by omega) hj, flagAt, hn, if_neg hprompt]

theorem loadSampling_spec {p : SamplingParams} (hfits : request.Fits cfg)
    (hp : request.samplingParams = some p) (hgen : row.generators = none)
    (hbad : row.badWordsTokenIds = none) :
    ∃ row', row.loadSampling cfg request p = .ok row' ∧ row'.HoldsSampling cfg request p ∧
      (∀ n, SameFor { cfg with isPoolingModel := true } n row row') ∧
      row'.blockTable = row.blockTable ∧ row'.reqPromptEmbeds = row.reqPromptEmbeds ∧
      row'.allowedTokenIdsMask = row.maskAfter request ∧
      row'.logitsProcessingNeedsTokenIds = row.logitsProcessingNeedsTokenIds := by
  have hallowed := hfits.2.2.2.2.2.2.2 p hp
  have hmask : row.loadMask cfg p = .ok (row.maskAfter request) := by
    rw [loadMask, maskAfter, hp, bind_some]
    rcases hl : p.allowedTokenIds with _ | _ | ⟨v, vs⟩
    · rfl
    · rfl
    · exact if_pos (hallowed _ hl)
  simp only [loadSampling, hmask, ok_bind, pure_eq_ok]
  refine ⟨_, rfl, ⟨rfl, rfl, rfl, rfl, rfl, rfl, by simp [hgen], ?_⟩, fun n => ?_, rfl, rfl,
    rfl, rfl⟩
  · dsimp only
    rcases p.badWordsTokenIds with _ | _ | ⟨w, ws⟩
    · exact hbad
    · exact hbad
    · rfl
  · exact ⟨rfl, rfl, rfl, fun _ _ => rfl, fun _ _ => rfl, rfl, rfl, fun h => by simp at h⟩

/-- **Loading a request** into a vacant row leaves its data there. -/
theorem load_spec (hfits : request.Fits cfg)
    (hlen : row.blockTable.length = cfg.blockTables.length) (hclear : row.Cleared cfg) :
    ∃ row₁ row', row.loadTokens cfg request = .ok row₁ ∧ row₁.loadParams cfg request = .ok row' ∧
      Loaded cfg request row row' := by
  obtain ⟨row₁, hrow₁, h₁⟩ := loadTokens_spec hfits hlen
  refine ⟨row₁, ?_⟩
  rw [loadParams]
  rcases hp : request.samplingParams with _ | p
  · -- a pooling request
    obtain ⟨q, hq⟩ := ne_none_iff_exists'.1 (hfits.2.2.2.2.2.2.1 hp)
    rw [hq]
    refine ⟨_, hrow₁, rfl, ⟨h₁.numPromptTokens, h₁.numTokensNoSpec, h₁.numComputedTokens,
      h₁.tokens, h₁.flags, h₁.blocks, rfl, by simp [hp]⟩, h₁.tables, h₁.promptEmbeds, ?_, ?_⟩
    · rw [maskAfter, hp]
      exact h₁.mask
    · rw [if_pos hp, hq]
      rfl
  · obtain ⟨hgen, hbad⟩ := hclear (by rw [hfits.2.2.2.2.2.1, hp]; rfl)
    obtain ⟨row₂, hrow₂, hs, hsame, htables, hembeds, hmask, hneeds⟩ :=
      loadSampling_spec hfits hp (h₁.generator.trans hgen) (h₁.badWords.trans hbad)
    dsimp only
    rw [hrow₂]
    refine ⟨_, hrow₁, rfl, ⟨?_, ?_, ?_, fun j v hv => ?_, fun j hj => ?_, ?_, rfl, ?_⟩, ?_, ?_,
      ?_, ?_⟩
    · exact (hsame 0).numPromptTokens.trans h₁.numPromptTokens
    · exact (hsame 0).numTokensNoSpec.trans h₁.numTokensNoSpec
    · exact (hsame 0).numComputedTokens.trans h₁.numComputedTokens
    · exact ((hsame (j + 1)).tokens j j.lt_succ_self).trans (h₁.tokens j v hv)
    · exact ((hsame (j + 1)).flags j j.lt_succ_self).trans (h₁.flags j hj)
    · exact (hsame 0).blocks.trans h₁.blocks
    · rintro p' hp'
      obtain rfl : p = p' := Option.some.inj (hp.symm.trans hp')
      exact ⟨hs.temperature, hs.topP, hs.topK, hs.frequencyPenalty, hs.presencePenalty,
        hs.repetitionPenalty, hs.generator, hs.badWords⟩
    · exact (congrArg List.length htables).trans h₁.tables
    · exact hembeds.trans h₁.promptEmbeds
    · refine hmask.trans ?_
      rw [maskAfter, maskAfter, h₁.mask]
    · rw [if_neg (by simp [hp])]
      exact hneeds.trans h₁.needsTokenIds

end Row

end KVarN.Worker
