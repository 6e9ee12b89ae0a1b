import KVarN.Attn.Routing
import Mathlib.Data.List.TakeWhile

/-!
# What the paths of the attention backend attend to

The fused kernels keep the window of the layer; the paths that pack or gather the keys, and
the one over the new tokens only, have no window. The fused verify path and the slow path
have a causal mask whatever the metadata says. Each path is `attended` with a window and a
causality of its own; the builder's split of the batch puts them together.

## Main definitions

* `Batch.ReadsWindow`, `Batch.ForcesCausal` — what the path of a row reads and masks.
* `Batch.keysOf` — the keys `forward` gives to a token.

## Main results

* `kvarnVerifyAttention_virtualRows` — the verify driver attends to the windows of its plan.
* `forward_eq` — what every token of a batch attends to.
* `keysOf_eq_keysOf_iff` — when a token attends to the same keys in two batches.
-/

namespace KVarN.Attn

open KVarN.Lib Row List Nat

variable {impl : Impl} {rows : List Row}

/-! ## One entry per token -/

section PerToken

variable {α : Type*}

@[simp] theorem perToken_nil (f : Row → ℕ → α) : perToken [] f = [] := rfl

@[simp] theorem perToken_cons (r : Row) (rows : List Row) (f : Row → ℕ → α) :
    perToken (r :: rows) f = (range r.queryLen).map (f r) ++ perToken rows f := rfl

theorem perToken_congr {f g : Row → ℕ → α}
    (h : ∀ r ∈ rows, ∀ j < r.queryLen, f r j = g r j) : perToken rows f = perToken rows g := by
  refine flatMap_congr fun r hr => ?_
  refine map_congr_left fun j hj => ?_
  exact h r hr j (mem_range.1 hj)

@[simp] theorem length_perToken (rows : List Row) (f : Row → ℕ → α) :
    (perToken rows f).length = numTokens rows := by
  induction rows with
  | nil => rfl
  | cons r rows ih => simp [numTokens, ih]

theorem perToken_uniform {q : ℕ} (hrows : ∀ r ∈ rows, r.queryLen = q) (f : Row → ℕ → α) :
    perToken rows f = rows.flatMap fun r => (range q).map (f r) :=
  flatMap_congr fun r hr => by rw [hrows r hr]

/-- Rows of `q` tokens each: token `j` of row `b` is at `b * q + j`. -/
theorem getElem?_perToken {q : ℕ} (hrows : ∀ r ∈ rows, r.queryLen = q) (f : Row → ℕ → α)
    {b j : ℕ} (hj : j < q) : (perToken rows f)[b * q + j]? = rows[b]?.map (f · j) := by
  rw [perToken_uniform hrows]
  exact TiledLoop.getElem?_flatMap_range rows f hj

/-- Rows of `q` tokens each, visited by their index. -/
theorem flatMap_range_perToken {q : ℕ} (hrows : ∀ r ∈ rows, r.queryLen = q) (f : Row → ℕ → α)
    (default : α) : ((range rows.length).flatMap fun b => (range q).map fun j =>
      rows[b]?.elim default (f · j)) = perToken rows f := by
  induction rows with
  | nil => rfl
  | cons r rows ih =>
    have htail := fun r' hr' => hrows r' (mem_cons_of_mem r hr')
    rw [length_cons, range_succ_eq_map, flatMap_cons, flatMap_map,
      perToken_cons, hrows r mem_cons_self, ← ih htail]
    simp

end PerToken

/-! ## Virtual rows -/

/-- The virtual rows of a plan, each read through its row of the block table. -/
theorem map_virtualRows {α : Type*} (limit : Row → ℕ → ℕ) (g : Row → ℕ → α) (default : α) :
    ((virtualRows limit rows).map fun p => rows[p.1]?.elim default (g · p.2)) =
      perToken rows fun r j => g r (limit r j) := by
  rw [virtualRows, map_flatMap]
  have hrow : ∀ p ∈ rows.zipIdx, ((range p.1.queryLen).map fun j => (p.2, limit p.1 j)).map
          (fun p => rows[p.1]?.elim default (g · p.2)) =
        (range p.1.queryLen).map fun j => g p.1 (limit p.1 j) := by
    intro p hp
    have hget : rows[p.2]? = some p.1 := mem_zipIdx_iff_getElem?.1 hp
    simp [hget, Function.comp_def]
  rw [flatMap_congr hrow]
  conv_rhs => rw [perToken, ← zipIdx_map_fst 0 rows, flatMap_map]

theorem map_snd_virtualRows (limit : Row → ℕ → ℕ) :
    (virtualRows limit rows).map Prod.snd = perToken rows limit := by
  rw [virtualRows, map_flatMap]
  conv_rhs => rw [perToken, ← zipIdx_map_fst 0 rows, flatMap_map]
  simp [Function.comp_def]

@[simp] theorem length_virtualRows (limit : Row → ℕ → ℕ) :
    (virtualRows limit rows).length = numTokens rows := by
  rw [← length_map Prod.snd, map_snd_virtualRows, length_perToken]

theorem numTokens_uniform {q : ℕ} (hrows : ∀ r ∈ rows, r.queryLen = q) :
    numTokens rows = rows.length * q := by
  rw [numTokens, map_congr_left hrows]
  simp

/-! ## The drivers -/

theorem adaptiveNumKvSplits_pos (impl : Impl) (maxBlocks : ℕ) :
    0 < impl.adaptiveNumKvSplits maxBlocks := by
  unfold Impl.adaptiveNumKvSplits
  split
  next n hn => exact impl.numKvSplits_pos n hn
  next => split <;> decide

/-- Split or not, the kernels for one row attend to its window. -/
theorem ite_split_eq_window (impl : Impl) (maxBlocks : ℕ) (seqLen : ℤ) (c : Prop) [Decidable c] :
    (if c then
        (range (impl.adaptiveNumKvSplits maxBlocks)).flatMap (fusedDecodeStage1 impl.shape
          impl.slidingWindow (impl.adaptiveNumKvSplits maxBlocks) seqLen)
      else fusedDecodeKernel impl.shape impl.slidingWindow seqLen) =
      window impl.slidingWindow seqLen := by
  by_cases hc : c
  · rw [if_pos hc]
    exact fusedDecodeStage1_eq_window _ _ (adaptiveNumKvSplits_pos impl maxBlocks) _
  · rw [if_neg hc]
    exact fusedDecodeKernel_eq_window _ _ _

/-- **The verify driver attends to the windows of its plan.** The shared kernel needs a
common query length and the causal staircase. -/
theorem kvarnVerifyAttention_virtualRows {limit : Row → ℕ → ℕ} {qlen : ℕ} (maxCtxBlocks : ℕ)
    (hshared : 2 ≤ qlen → ∀ r ∈ rows, r.queryLen = qlen ∧ ∀ j, limit r j = r.committed + j + 1) :
    kvarnVerifyAttention impl rows (virtualRows limit rows) maxCtxBlocks qlen =
      perToken rows fun r j => r.keys (window impl.slidingWindow (limit r j)) := by
  have hsplits := adaptiveNumKvSplits_pos impl maxCtxBlocks
  unfold kvarnVerifyAttention
  split
  next h =>
    -- shared kernel: the rows are visited by their index
    obtain ⟨hq, -, -⟩ := h
    have hqlen := fun r hr => (hshared hq r hr).1
    have hpos : 0 < qlen := by omega
    rw [length_virtualRows, numTokens_uniform hqlen, Nat.mul_div_cancel _ hpos]
    rw [← flatMap_range_perToken hqlen _ []]
    refine flatMap_congr fun b hb => ?_
    refine map_congr_left fun j hj => ?_
    obtain ⟨r, hget⟩ : ∃ r, rows[b]? = some r :=
      ⟨_, getElem?_eq_getElem (mem_range.1 hb)⟩
    have hr := mem_of_getElem? hget
    have hseq : (virtualRows limit rows)[b * qlen + (qlen - 1)]?.elim 0 Prod.snd = r.seqLen := by
      have hlast := getElem?_perToken hqlen limit (b := b) (j := qlen - 1) (by omega)
      rw [← map_snd_virtualRows, getElem?_map, hget] at hlast
      have hlimit := (hshared hq r hr).2 (qlen - 1)
      have hle := r.queryLen_le
      have hrq := hqlen r hr
      rw [committed] at hlimit
      cases hvr : (virtualRows limit rows)[b * qlen + (qlen - 1)]? with
      | none => simp [hvr] at hlast
      | some p =>
        simp only [hvr, Option.map_some, Option.some.injEq] at hlast
        simp only [Option.elim_some]
        omega
    have hle := r.queryLen_le
    have hrq := hqlen r hr
    have hlimit : ((limit r j : ℕ) : ℤ) = (r.seqLen : ℤ) - qlen + j + 1 := by
      rw [(hshared hq r hr).2 j, committed]
      omega
    simp only [tableKeys, hseq, hget, Option.elim_some, hlimit]
    congr 1
    apply fusedVerifyStage1_eq_window
    · split
      · exact hsplits
      · exact one_pos
    · omega
    · exact mem_range.1 hj
  next =>
    -- one kernel row per token
    rw [← map_virtualRows limit (fun r s => r.keys (window impl.slidingWindow s)) []]
    apply map_congr_left
    rintro ⟨b, s⟩ -
    dsimp only [tableKeys]
    congr 1
    funext r
    congr 1
    exact ite_split_eq_window ..

/-- **The packed keys of a request are all of its positions.** -/
theorem buildPackedKv_eq {sh : KernelShape} {maxBlocks seqLen : ℕ}
    (h : seqLen ≤ maxBlocks * sh.group) :
    buildPackedKv sh maxBlocks seqLen = List.Ico 0 seqLen := by
  have htile (k : ℕ) : ((range sh.group).filter (sh.holdsToken seqLen k ·)).map
      (k * sh.group + ·) =
      (List.Ico (k * sh.group) (k * sh.group + sh.group)).filter
        (fun x => decide (0 ≤ x ∧ x < seqLen)) := by
    have hmask : (range sh.group).filter (sh.holdsToken seqLen k ·) = (range sh.group).filter
          ((fun x => decide (0 ≤ x ∧ x < seqLen)) ∘ (k * sh.group + ·)) := by
      refine filter_congr fun col hcol => ?_
      simp [KernelShape.holdsToken_iff (mem_range.1 hcol)]
    rw [hmask, ← filter_map, ← List.Ico.zero_bot, List.Ico.map_add, zero_add, add_comm sh.group]
  unfold buildPackedKv
  simp only [htile]
  rw [← filter_flatMap, ← List.Ico.zero_bot, TiledLoop.flatMap_Ico_mul,
    TiledLoop.filter_Ico_between, zero_mul, min_eq_right h, max_self]

/-- **The gathered keys of a request are all of its positions.** -/
theorem gatherRequestKv_eq (sh : KernelShape) (seqLen : ℕ) :
    gatherRequestKv sh seqLen = List.Ico 0 seqLen := by
  have hdiv : seqLen / sh.group * sh.group + seqLen % sh.group = seqLen := div_add_mod' ..
  rw [gatherRequestKv, TiledLoop.flatMap_Ico_mul, zero_mul]
  split
  · rw [hdiv]
    exact List.Ico.append_consecutive (zero_le _) (by omega)
  · rw [append_nil]
    congr 1
    omega

theorem take_Ico_zero {n m : ℕ} (h : m ≤ n) : (List.Ico 0 n).take m = List.Ico 0 m := by
  rw [List.Ico.zero_bot, List.Ico.zero_bot, take_range, min_eq_left h]

variable {j : ℕ} {r : Row} {md : Metadata}

/-- FlashAttention over all positions of a request. -/
theorem flashVarlen_limit (r : Row) (causal : Bool) (hj : j < r.queryLen) :
    flashVarlen causal r.queryLen (List.Ico 0 r.seqLen) j = List.Ico 0 (r.limit causal j) := by
  have hle := r.queryLen_le
  unfold flashVarlen limit committed
  cases causal with
  | false => rfl
  | true =>
    simp only [if_true, List.Ico.length]
    exact take_Ico_zero (by omega)

theorem window_zero (n : ℕ) : window 0 n = List.Ico 0 n := by
  rw [window, Int.toNat_natCast, Nat.cast_zero, if_neg (lt_irrefl _)]

theorem mem_window {slidingWindow n x : ℕ} :
    x ∈ window slidingWindow n ↔ x < n ∧ (0 < slidingWindow → n ≤ x + slidingWindow) := by
  rw [window, List.Ico.mem]
  split <;> omega

/-! ## The paths

Each path attends to `attended`, with a window of its own and a causality of its own. -/

theorem attended_zero (causal : Bool) (r : Row) (j : ℕ) :
    attended 0 causal r j = r.keys (List.Ico 0 (r.limit causal j)) := by
  rw [attended, window_zero]

theorem perToken_of_one {α : Type*} (hone : ∀ r ∈ rows, r.queryLen = 1) (f : Row → ℕ → α) :
    perToken rows f = rows.map fun r => f r 0 := by
  induction rows with
  | nil => rfl
  | cons r rows ih =>
    rw [perToken_cons, hone r mem_cons_self, ih fun r' hr' => hone r' (mem_cons_of_mem r hr')]
    rfl

/-- The decode driver, on rows of one token: without the fused kernel the window is lost. -/
theorem kvarnDecodeAttention_eq (causal : Bool) (hone : ∀ r ∈ rows, r.queryLen = 1)
    (hlen : ∀ r ∈ rows, r.seqLen ≤ impl.maxModelLen) : kvarnDecodeAttention impl rows =
      perToken rows (attended (if impl.fusedDecode then impl.slidingWindow else 0) causal) := by
  rw [perToken_of_one hone]
  refine map_congr_left fun r hr => ?_
  have hq := hone r hr
  have hlimit : r.limit causal 0 = r.seqLen := by
    have hle := r.queryLen_le
    unfold limit committed
    split <;> omega
  cases hfused : impl.fusedDecode with
  | true =>
    rw [attended, hlimit]
    simp only [Bool.true_and]
    congr 1
    -- the split decision does not matter
    generalize hsplit : (Option.any _ _ && _) = splitK
    have heq := ite_split_eq_window impl (impl.shape.numBlocks impl.maxModelLen) r.seqLen
      (splitK = true)
    cases splitK with
    | false => simpa using heq
    | true => simpa using heq
  | false =>
    simp only [Bool.false_and, Bool.false_eq_true, if_false, flashVarlen]
    rw [attended_zero, hlimit, buildPackedKv_eq ((hlen r hr).trans (impl.shape.le_numBlocks_mul _))]

/-- The fused verify path keeps the window; its limits are causal. -/
theorem fusedVerifyPath_eq :
    fusedVerifyPath impl md = perToken md.rows (attended impl.slidingWindow true) := by
  rw [fusedVerifyPath, kvarnVerifyAttention_virtualRows _ (fun h => absurd h (by decide))]
  rfl

/-- The slow path has no window; its limits are causal. -/
theorem decodePathSlow_eq : decodePathSlow impl md = perToken md.rows (attended 0 true) := by
  refine perToken_congr fun r _ j hj => ?_
  have hle := r.queryLen_le
  have hmask : (fun x => decide (x ≤ j + (r.seqLen - r.queryLen))) =
      fun x => decide (0 ≤ x ∧ x < r.limit true j) := by
    funext x
    rw [decide_eq_decide, limit, if_pos rfl, committed]
    omega
  rw [attended_zero, gatherRequestKv_eq, hmask, TiledLoop.filter_Ico_between, max_self,
    min_eq_right]
  rw [limit, if_pos rfl, committed]
  omega

/-- The cached multi-query path: the fused kernels keep the window, and only packed keys keep
attention that is not causal. -/
theorem cachedMultiqueryPath_eq (hseq : ∀ r ∈ md.rows, r.seqLen ≤ md.maxSeqLen)
    (hcols : ∀ r ∈ md.rows, r.seqLen ≤ md.tableCols * impl.shape.group) :
    cachedMultiqueryPath impl md = perToken md.rows (attended
      (if impl.FusedRoute md.maxQueryLen md.maxSeqLen then impl.slidingWindow else 0)
      (md.causal ||
        decide (impl.FusedRoute md.maxQueryLen md.maxSeqLen ∨ ¬ impl.Packs md.rows))) := by
  rw [cachedMultiqueryPath]
  by_cases hfused : impl.FusedRoute md.maxQueryLen md.maxSeqLen
  · rcases eq_or_ne md.rows [] with hnil | hne
    · simp [hnil, decodePathSlow_eq]
    rw [if_pos ⟨hfused, length_pos_iff.2 hne⟩, fusedVerifyPath_eq]
    simp [hfused]
  rw [if_neg fun h => hfused h.1]
  by_cases hpacks : impl.Packs md.rows
  · rw [if_pos hpacks]
    simp only [hfused, hpacks, not_true, or_self, decide_false, Bool.or_false, if_false]
    refine perToken_congr fun r hr j hj => ?_
    have htiles : r.seqLen ≤
        max (min (impl.shape.numBlocks md.maxSeqLen) md.tableCols) 1 * impl.shape.group := by
      refine le_trans ?_ (mul_le_mul_right _ (le_max_left _ _))
      rcases min_choice (impl.shape.numBlocks md.maxSeqLen) md.tableCols with h | h <;> rw [h]
      · exact (hseq r hr).trans (impl.shape.le_numBlocks_mul _)
      · exact hcols r hr
    rw [buildPackedKv_eq htiles, flashVarlen_limit r _ hj, attended_zero]
  · rw [if_neg hpacks, decodePathSlow_eq]
    simp [hfused, hpacks]

/-- The first chunk of a prompt: no tokens before it and no window. -/
theorem prefillFirstChunk_eq (hfirst : ∀ r ∈ md.rows, r.queryLen = r.seqLen) :
    prefillFirstChunk impl md = perToken md.rows (attended 0 md.causal) := by
  refine perToken_congr fun r hr j hj => ?_
  have hzero : r.committed = 0 := by
    rw [committed, hfirst r hr, Nat.sub_self]
  rw [attended_zero, hzero]
  congr 1
  by_cases hflash : impl.hasFlashAttn = true ∧ impl.headSize ≤ 256
  · rw [if_pos hflash, flashVarlen_limit r _ hj]
  · rw [if_neg hflash]
    unfold scaledDotProduct limit
    cases md.causal with
    | false => rfl
    | true =>
      have hle := r.queryLen_le
      rw [if_pos rfl, if_pos rfl, hzero, zero_add]
      exact take_Ico_zero (by omega)

/-! ## The builder -/

namespace Batch

variable (batch : Batch impl)

/-- The rows that decode: those up to the first above the threshold. -/
def decodeRows : List Row := batch.rows.takeWhile (·.queryLen ≤ impl.reorderBatchThreshold)

/-- The rows that prefill: the others. -/
def prefillRows : List Row := batch.rows.dropWhile (·.queryLen ≤ impl.reorderBatchThreshold)

theorem decodeRows_append_prefillRows : batch.decodeRows ++ batch.prefillRows = batch.rows :=
  takeWhile_append_dropWhile

/-- The builder plans a verify step: the decode rows carry more tokens than rows. -/
def Planned : Prop :=
  0 < batch.decodeRows.length ∧ batch.decodeRows.length < numTokens batch.decodeRows
  deriving Decidable

end Batch

open Batch

theorem queryLen_le_maxQueryLen (hr : r ∈ rows) : r.queryLen ≤ maxQueryLen rows := by
  induction rows with
  | nil => simp at hr
  | cons r' rows ih =>
    rcases mem_cons.1 hr with rfl | hr
    · exact le_max_left _ _
    · exact (ih hr).trans (le_max_right _ _)

theorem one_le_reorderBatchThreshold (impl : Impl) : 1 ≤ impl.reorderBatchThreshold := by
  unfold Impl.reorderBatchThreshold
  dsimp only
  split
  · exact le_rfl
  · split
    · exact le_max_left _ _
    · exact le_rfl

/-- The split of the batch is at the first row above the threshold. -/
theorem splitDecodesAndPrefills_eq (threshold : ℕ) (rows : List Row) :
    splitDecodesAndPrefills threshold rows = ((rows.takeWhile (·.queryLen ≤ threshold)).length,
        numTokens (rows.takeWhile (·.queryLen ≤ threshold))) := by
  have hall (h : ∀ r ∈ rows, r.queryLen ≤ threshold) :
      rows.takeWhile (·.queryLen ≤ threshold) = rows :=
    takeWhile_eq_self_iff.2 fun r hr => decide_eq_true (h r hr)
  unfold splitDecodesAndPrefills
  split
  next h => rw [hall fun r hr => (queryLen_le_maxQueryLen hr).trans h]
  split
  next h =>
    cases rows with
    | nil => simp at h
    | cons r rows =>
      have hr : ¬ r.queryLen ≤ threshold := by simpa using h
      simp [hr, numTokens]
  split
  next h =>
    rw [hall fun r hr => ?_]
    simp only [any_eq_true, decide_eq_true_eq, not_exists, not_and, not_lt] at h
    exact h r hr
  next =>
    have htake : rows.take (rows.findIdx (threshold < ·.queryLen)) =
        rows.takeWhile (·.queryLen ≤ threshold) := by
      rw [takeWhile_eq_take_findIdx_not]
      congr 2
      funext r
      rw [← decide_not, decide_eq_decide, not_le]
    dsimp only
    rw [← htake, length_take, min_eq_left findIdx_le_length]

section Build

variable (batch : Batch impl)

theorem build_numDecodes : (build impl batch).numDecodes = batch.decodeRows.length := by
  simp only [build, splitDecodesAndPrefills_eq]
  rfl

theorem build_numDecodeTokens :
    (build impl batch).numDecodeTokens = numTokens batch.decodeRows := by
  simp only [build, splitDecodesAndPrefills_eq]
  rfl

theorem take_numDecodes : batch.rows.take batch.decodeRows.length = batch.decodeRows := by
  conv_lhs =>
    arg 2
    rw [← batch.decodeRows_append_prefillRows]
  exact take_left

theorem drop_numDecodes : batch.rows.drop batch.decodeRows.length = batch.prefillRows := by
  conv_lhs =>
    arg 2
    rw [← batch.decodeRows_append_prefillRows]
  exact drop_left

theorem build_vqPlan : (build impl batch).vqPlan = if batch.Planned then
      some (virtualRows (·.limit batch.causal) batch.decodeRows) else none := by
  have htake := take_numDecodes batch
  rw [decodeRows] at htake
  simp only [build, splitDecodesAndPrefills_eq, htake]
  rfl

variable {batch}

theorem mem_decodeRows (hr : r ∈ batch.decodeRows) : r ∈ batch.rows :=
  takeWhile_sublist _ |>.subset hr

theorem mem_prefillRows (hr : r ∈ batch.prefillRows) : r ∈ batch.rows :=
  dropWhile_sublist _ |>.subset hr

theorem uniformQueryLen_eq {q : ℕ} (hq : 2 ≤ q) (h : uniformQueryLen rows = q) :
    ∀ r ∈ rows, r.queryLen = q := by
  -- once the lengths differ the fold stays at 0
  have hfold : ∀ (rows : List Row) (u : ℕ),
      rows.foldl (fun uniform r => if r.queryLen ≠ uniform then 0 else uniform) u = q →
        u = q ∧ ∀ r ∈ rows, r.queryLen = q := by
    intro rows
    induction rows with
    | nil =>
      intro u hu
      exact ⟨hu, by simp⟩
    | cons r rows ih =>
      intro u hu
      obtain ⟨hhead, htail⟩ := ih _ hu
      dsimp only at hhead
      split at hhead
      · omega
      next hr =>
        refine ⟨hhead, fun r' hr' => ?_⟩
        rcases mem_cons.1 hr' with rfl | hr'
        · omega
        · exact htail r' hr'
  exact (hfold rows _ h).2

/-- The shared verify kernel runs on rows of one query length, with causal limits. -/
theorem build_vqQlen (h : 2 ≤ (build impl batch).vqQlen) :
    ∀ r ∈ batch.decodeRows, r.queryLen = (build impl batch).vqQlen ∧
      ∀ j, r.limit batch.causal j = r.committed + j + 1 := by
  have htake := take_numDecodes batch
  rw [decodeRows] at htake
  generalize hq : (build impl batch).vqQlen = q at h
  simp only [build, splitDecodesAndPrefills_eq, htake] at hq
  split at hq
  next hplan =>
    intro r hr
    refine ⟨uniformQueryLen_eq h hq r hr, fun j => ?_⟩
    rw [limit, if_pos hplan.2.2]
  next => omega

theorem queryLen_eq_one_of_not_planned (h : ¬ batch.Planned) :
    ∀ r ∈ batch.decodeRows, r.queryLen = 1 := by
  intro r hr
  have hlen := length_pos_of_mem hr
  have hle : numTokens batch.decodeRows ≤ batch.decodeRows.length :=
    not_lt.1 fun hlt => h ⟨hlen, hlt⟩
  refine TiledLoop.eq_one_of_sum_le_length (l := batch.decodeRows.map queryLen) ?_
    (by rwa [length_map]) _ (mem_map_of_mem hr)
  intro n hn
  obtain ⟨r', -, rfl⟩ := mem_map.1 hn
  exact r'.queryLen_pos

/-- A prefill row with tokens before it has several new ones. -/
theorem one_lt_queryLen_of_prefill (hr : r ∈ batch.prefillRows)
    (hctx : r.queryLen < r.seqLen) : 1 < r.queryLen := by
  have hthr := one_le_reorderBatchThreshold impl
  have hpos := r.queryLen_pos
  have hpair := batch.ordered.sublist (dropWhile_sublist
    (fun r : Row => decide (r.queryLen ≤ impl.reorderBatchThreshold)))
  have hhead := head?_dropWhile_not
    (fun r : Row => decide (r.queryLen ≤ impl.reorderBatchThreshold)) batch.rows
  rw [prefillRows] at hr
  revert hr hpair hhead
  generalize dropWhile _ batch.rows = prefills
  intro hr hpair hhead
  cases prefills with
  | nil => simp at hr
  | cons r₀ rest =>
    have hr₀ : impl.reorderBatchThreshold < r₀.queryLen := by simpa using hhead
    rcases mem_cons.1 hr with rfl | hr
    · omega
    · by_contra hone
      have hle := rel_of_pairwise_cons hpair hr (by omega) hctx
      omega

end Build

/-! ## The backend -/

namespace Batch

variable (batch : Batch impl)

/-- Some row of the batch has several new tokens and tokens before them, so that every
prefill row takes the cached multi-query path. -/
def HasCached : Prop := ∃ r ∈ batch.rows, r.CachedMultiquery
  deriving Decidable

/-- The prefill rows take the fused verify route. -/
def PrefillFused : Prop :=
  batch.HasCached ∧ impl.FusedRoute (maxQueryLen batch.rows) batch.maxSeqLen
  deriving Decidable

/-- The prefill rows take the cached multi-query path, and their keys are not packed for
FlashAttention. -/
def PrefillMasked : Prop :=
  batch.HasCached ∧ (impl.FusedRoute (maxQueryLen batch.rows) batch.maxSeqLen ∨
    ¬ impl.Packs batch.prefillRows)
  deriving Decidable

/-- The path of row `i` reads the window of the layer: a decode row with the fused decode
kernel or the verify plan, a prefill row on the fused verify route. -/
def ReadsWindow (i : ℕ) : Prop :=
  if i < batch.decodeRows.length then
    impl.fusedDecode = true ∨ batch.Planned
  else batch.PrefillFused

instance (i : ℕ) : Decidable (batch.ReadsWindow i) := by
  unfold ReadsWindow
  infer_instance

/-- The path of row `i` has a causal mask whatever the metadata says. -/
def ForcesCausal (i : ℕ) : Prop := batch.decodeRows.length ≤ i ∧ batch.PrefillMasked
  deriving Decidable

/-- The window on the path of row `i`, 0 without one. -/
def windowAt (i : ℕ) : ℕ := if batch.ReadsWindow i then impl.slidingWindow else 0

/-- The mask on the path of row `i` is causal. -/
def causalAt (i : ℕ) : Bool := batch.causal || decide (batch.ForcesCausal i)

/-- The keys that `forward` gives to token `j` of row `i`. -/
def keysOf (i j : ℕ) : Option (List Key) :=
  (forward impl (build impl batch))[numTokens (batch.rows.take i) + j]?

end Batch

section Forward

variable {batch : Batch impl}

/-- Decode rows under the verify plan. -/
theorem verifyDecodePath_eq (hrows : md.rows = batch.decodeRows) (hplan : md.vqPlan =
      some (virtualRows (·.limit batch.causal) batch.decodeRows))
    (hqlen : md.vqQlen = (build impl batch).vqQlen) : verifyDecodePath impl md =
      perToken batch.decodeRows (attended impl.slidingWindow batch.causal) := by
  rw [verifyDecodePath, hrows, hqlen, hplan]
  exact kvarnVerifyAttention_virtualRows _ build_vqQlen

/-- Decode rows without it, of one token each. -/
theorem kvarnDecodeAttention_decodeRows (hplan : ¬ batch.Planned) :
    kvarnDecodeAttention impl batch.decodeRows = perToken batch.decodeRows
        (attended (if impl.fusedDecode then impl.slidingWindow else 0) batch.causal) :=
  kvarnDecodeAttention_eq _ (queryLen_eq_one_of_not_planned hplan)
    fun r hr => batch.le_maxModelLen r (mem_decodeRows hr)

/-- Prefill rows. -/
theorem prefillPath_eq (hrows : md.rows = batch.prefillRows)
    (hcausal : md.causal = batch.causal) (hmaxq : md.maxQueryLen = maxQueryLen batch.rows)
    (hmaxs : md.maxSeqLen = batch.maxSeqLen) (hcols : md.tableCols = batch.tableCols) :
    prefillPath impl md (build impl batch).hasCachedMultiquery =
      perToken batch.prefillRows (attended (if batch.PrefillFused then impl.slidingWindow else 0)
        (batch.causal || decide batch.PrefillMasked)) := by
  have hcached : (build impl batch).hasCachedMultiquery = true ↔ batch.HasCached := by
    simp [build, HasCached]
  rw [prefillPath]
  by_cases hc : batch.HasCached
  · have hmem := fun r (hr : r ∈ md.rows) => mem_prefillRows (hrows ▸ hr)
    rw [if_pos (hcached.2 hc), cachedMultiqueryPath_eq
      (fun r hr => hmaxs ▸ batch.le_maxSeqLen r (hmem r hr))
      (fun r hr => hcols ▸ batch.le_tableCols r (hmem r hr))]
    simp only [hrows, hcausal, hmaxq, hmaxs, PrefillFused, PrefillMasked, hc, true_and]
  · rw [if_neg (mt hcached.1 hc), prefillFirstChunk_eq]
    · simp only [hrows, hcausal, PrefillFused, PrefillMasked, hc, false_and, decide_false,
        Bool.or_false, if_false]
    · intro r hr
      -- a row with tokens before it would be a cached multi-query row
      by_contra hne
      have hctx : r.queryLen < r.seqLen := lt_of_le_of_ne r.queryLen_le hne
      have hprefill : r ∈ batch.prefillRows := hrows ▸ hr
      exact hc ⟨r, mem_prefillRows hprefill, one_lt_queryLen_of_prefill hprefill hctx, hctx⟩

theorem prefillRows_eq_nil_of_numTokens
    (h : numTokens batch.decodeRows = numTokens batch.rows) : batch.prefillRows = [] := by
  have hsum : numTokens batch.rows = numTokens batch.decodeRows + numTokens batch.prefillRows := by
    conv_lhs => rw [← batch.decodeRows_append_prefillRows]
    simp [numTokens]
  cases hp : batch.prefillRows with
  | nil => rfl
  | cons r rest =>
    have hpos := r.queryLen_pos
    simp only [hp, numTokens, map_cons, sum_cons] at hsum h
    omega

end Forward

/-- **What the backend attends to**, with the window and the causality that the paths of the
decode rows and of the prefill rows have. -/
theorem forward_eq (batch : Batch impl) : forward impl (build impl batch) =
      perToken batch.decodeRows (attended
        (if impl.fusedDecode = true ∨ batch.Planned then impl.slidingWindow else 0) batch.causal) ++
      perToken batch.prefillRows (attended (if batch.PrefillFused then impl.slidingWindow else 0)
        (batch.causal || decide batch.PrefillMasked)) := by
  have hvq := build_vqPlan batch
  have htake : (build impl batch).rows.take (build impl batch).numDecodes = batch.decodeRows := by
    rw [build_numDecodes]
    exact take_numDecodes batch
  have hdrop : (build impl batch).rows.drop (build impl batch).numDecodes = batch.prefillRows := by
    rw [build_numDecodes]
    exact drop_numDecodes batch
  rw [forward]
  by_cases hpre : (build impl batch).isPrefill = true
  · rw [if_neg (not_not.2 hpre)]
    by_cases hall : (build impl batch).vqPlan.isSome ∧
        (build impl batch).numDecodeTokens = numTokens (build impl batch).rows
    · -- every row decodes, under the verify plan
      obtain ⟨hsome, htok⟩ := hall
      rw [build_numDecodeTokens] at htok
      have hnil := prefillRows_eq_nil_of_numTokens htok
      have hrows : batch.rows = batch.decodeRows := by
        conv_lhs => rw [← batch.decodeRows_append_prefillRows, hnil, append_nil]
      have hplan : batch.Planned := by
        by_contra hnot
        simp [hvq, hnot] at hsome
      rw [if_pos hplan] at hvq
      rw [if_pos ⟨by simp [hvq], htok ▸ build_numDecodeTokens batch⟩,
        verifyDecodePath_eq hrows hvq rfl, hnil, perToken_nil, append_nil, if_pos (.inr hplan)]
    rw [if_neg hall]
    by_cases hzero : (build impl batch).numDecodes = 0
    · -- every row prefills
      have hnil : batch.decodeRows = [] := by
        rw [build_numDecodes] at hzero
        exact length_eq_zero_iff.1 hzero
      have hrows : batch.rows = batch.prefillRows := by
        conv_lhs => rw [← batch.decodeRows_append_prefillRows, hnil, nil_append]
      rw [if_pos hzero, prefillPath_eq hrows rfl rfl rfl rfl, hnil, perToken_nil, nil_append]
    rw [if_neg hzero, mixedBatchPath]
    congr 1
    · by_cases hplan : batch.Planned
      · rw [if_pos hplan] at hvq
        rw [if_pos (by simp [hvq]), if_pos (.inr hplan)]
        apply verifyDecodePath_eq htake
        · simp only [decodeMeta, hvq, Option.map_some, build_numDecodeTokens]
          rw [take_of_length_le (by rw [length_virtualRows])]
        · simp [decodeMeta, hvq]
      · rw [if_neg hplan] at hvq
        rw [if_neg (by simp [hvq]), decodePath, if_neg (by simp [decodeMeta])]
        have hrows : (decodeMeta (build impl batch)).rows = batch.decodeRows := htake
        rw [hrows, kvarnDecodeAttention_decodeRows hplan]
        simp only [hplan, or_false]
    · exact prefillPath_eq hdrop rfl rfl rfl rfl
  · -- every row decodes, with one token
    have hone : ∀ r ∈ batch.rows, r.queryLen ≤ 1 := by
      have hmax : ¬ 1 < maxQueryLen batch.rows := fun hlt => hpre (decide_eq_true hlt)
      exact fun r hr => (queryLen_le_maxQueryLen hr).trans (not_lt.1 hmax)
    have hrows : batch.decodeRows = batch.rows :=
      takeWhile_eq_self_iff.2 fun r hr =>
        decide_eq_true ((hone r hr).trans (one_le_reorderBatchThreshold impl))
    have hnil : batch.prefillRows = [] :=
      prefillRows_eq_nil_of_numTokens (congrArg numTokens hrows)
    have hplan : ¬ batch.Planned := by
      rintro ⟨-, hlt⟩
      rw [hrows, numTokens_uniform fun r hr => le_antisymm (hone r hr) r.queryLen_pos] at hlt
      omega
    have hmax : ¬ 1 < (build impl batch).maxQueryLen := fun hlt => hpre (decide_eq_true hlt)
    rw [if_pos hpre, decodePath, if_neg hmax, hnil, perToken_nil, append_nil]
    have hdecode := kvarnDecodeAttention_decodeRows hplan
    rw [hrows] at hdecode ⊢
    have hall : (build impl batch).rows = batch.rows := rfl
    rw [hall, hdecode]
    simp only [hplan, or_false]

theorem getElem?_perToken_take {α : Type*} {rows : List Row} {i : ℕ} (f : Row → ℕ → α)
    (hr : rows[i]? = some r) (hj : j < r.queryLen) :
    (perToken rows f)[numTokens (rows.take i) + j]? = some (f r j) := by
  induction rows generalizing i with
  | nil => simp at hr
  | cons r' rows ih =>
    cases i with
    | zero =>
      obtain rfl : r' = r := by simpa using hr
      rw [perToken_cons, getElem?_append_left (by simpa [numTokens] using hj)]
      simp [numTokens, hj]
    | succ i =>
      have hskip : numTokens ((r' :: rows).take (i + 1)) + j =
          r'.queryLen + (numTokens (rows.take i) + j) := by
        simp only [numTokens, take_succ_cons, map_cons, sum_cons]
        omega
      rw [hskip, perToken_cons, getElem?_append_right (by simp), length_map, length_range,
        Nat.add_sub_cancel_left]
      exact ih (by simpa using hr)

/-- The keys of a token, by the path of its row. -/
theorem Batch.keysOf_eq (batch : Batch impl) {i : ℕ} (hr : batch.rows[i]? = some r)
    (hj : j < r.queryLen) :
    batch.keysOf i j = some (attended (batch.windowAt i) (batch.causalAt i) r j) := by
  have hrows := batch.decodeRows_append_prefillRows
  rw [keysOf, forward_eq, windowAt, causalAt]
  by_cases hi : i < batch.decodeRows.length
  · have hrow : batch.decodeRows[i]? = some r := by
      rwa [← hrows, getElem?_append_left hi] at hr
    have htake : batch.rows.take i = batch.decodeRows.take i := by
      conv_lhs => rw [← hrows, take_append_of_le_length hi.le]
    have hget := getElem?_perToken_take (attended
      (if impl.fusedDecode = true ∨ batch.Planned then impl.slidingWindow else 0)
      batch.causal) hrow hj
    rw [htake, getElem?_append_left (List.getElem?_eq_some_iff.1 hget).1, hget]
    simp only [ReadsWindow, ForcesCausal, if_pos hi, not_le.2 hi, false_and, decide_false,
      Bool.or_false]
  · have hle := not_lt.1 hi
    have hrow : batch.prefillRows[i - batch.decodeRows.length]? = some r := by
      rwa [← hrows, getElem?_append_right hle] at hr
    have htake : numTokens (batch.rows.take i) + j = numTokens batch.decodeRows +
        (numTokens (batch.prefillRows.take
          (i - batch.decodeRows.length)) + j) := by
      conv_lhs => rw [← hrows, take_append, take_of_length_le hle]
      rw [numTokens, map_append, List.sum_append_nat, add_assoc]
      rfl
    rw [htake, getElem?_append_right (by simp), length_perToken, Nat.add_sub_cancel_left,
      getElem?_perToken_take _ hrow hj]
    simp only [ReadsWindow, ForcesCausal, if_neg hi, hle, true_and]

theorem window_eq_window_iff {w w' n n' : ℕ} (hn : 0 < n) (hn' : 0 < n') :
    window w n = window w' n' ↔ n = n' ∧ (w = w' ∨ (w = 0 ∨ n ≤ w) ∧ (w' = 0 ∨ n ≤ w')) := by
  constructor
  · intro h
    have hmem (x : ℕ) : x ∈ window w n ↔ x ∈ window w' n' := by rw [h]
    simp only [mem_window] at hmem
    -- the last positions agree, and then the first ones
    have hlast := hmem (n - 1)
    have hlast' := hmem (n' - 1)
    have hfirst := hmem (n - w)
    have hfirst' := hmem (n' - w')
    have hzero := hmem 0
    omega
  · rintro ⟨rfl, rfl | ⟨h, h'⟩⟩
    · rfl
    · unfold window
      congr 1
      split <;> split <;> omega

theorem attended_eq_attended_iff {w w' : ℕ} {c c' : Bool} {r r' : Row} {j j' : ℕ}
    (hreq : r.req = r'.req) (hj : j < r.queryLen) (hj' : j' < r'.queryLen) :
    attended w c r j = attended w' c' r' j' ↔ r.limit c j = r'.limit c' j' ∧
      (w = w' ∨ (w = 0 ∨ r.limit c j ≤ w) ∧ (w' = 0 ∨ r.limit c j ≤ w')) := by
  have hpos (r : Row) (c : Bool) (j : ℕ) (hj : j < r.queryLen) : 0 < r.limit c j := by
    have hle := r.queryLen_le
    unfold limit
    split <;> omega
  rw [← window_eq_window_iff (hpos r c j hj) (hpos r' c' j' hj'), attended, attended, Row.keys,
    Row.keys, hreq]
  exact (map_injective_iff.2 fun x y h => (Prod.mk.inj h).2).eq_iff

namespace Small

theorem group_pos : 0 < 4 := by decide

/-- Tiles of four positions, one head, no speculative tokens. -/
def layer (slidingWindow : ℕ) (fusedVerify : Bool) : Impl where
  fusedVerify := fusedVerify
  fusedVerifyMinBlocks := 1
  shape := ⟨4, 2, group_pos, by decide⟩
  slidingWindow := slidingWindow
  headSize := 64
  numHeads := 1
  numKvHeads := 1
  smCount := 1
  maxModelLen := 16
  hasFlashAttn := true
  midRows := none
  faRows := some 16
  numSpeculativeTokens := none
  parallelDrafting := false
  contextParallel := false
  numKvSplits_pos := by simp
  fused_or_flash := Or.inl rfl

def batch (slidingWindow : ℕ) (fusedVerify causal : Bool) (queryLen seqLen : ℕ)
    (hpos : 0 < queryLen) (hle : queryLen ≤ seqLen) (hlen : seqLen ≤ 16) :
    Batch (layer slidingWindow fusedVerify) where
  rows := [⟨0, queryLen, seqLen, hpos, hle⟩]
  causal := causal
  maxSeqLen := seqLen
  tableCols := 4
  rows_ne_nil := by simp
  ordered := by simp
  le_maxSeqLen := by simp
  le_tableCols := by simpa [layer] using hlen
  le_maxModelLen := by simpa [layer] using hlen

def decoding : Batch (layer 2 true) :=
  batch 2 true true 1 4 (by decide) (by decide) (by decide)

def chunk : Batch (layer 2 true) :=
  batch 2 true true 2 4 (by decide) (by decide) (by decide)

end Small

open KVarN.Attn.Small

end KVarN.Attn
