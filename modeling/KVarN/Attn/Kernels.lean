import KVarN.Lib.TiledLoop

/-!
# The key positions of the attention kernels

Three kernels read the cache: the single-stage decode kernel, the split-K kernel and the
shared verify kernel. Each walks tiles of `GROUP` positions in chunks of `BLOCK_N` and
masks the scores of the positions a query row must not see. What a kernel attends to is
the list of positions it leaves un-masked, in the order of its loops.

The kernels compute their tile ranges and masks by different formulas. They un-mask the
same positions: for a row of length `limit` and a window `w`, those from `limit - w` (or
from the start, without a window) up to `limit`, each once.

## Main definitions

* `KernelShape` — the tile and chunk sizes of a launch.
* `fusedDecodeKernel`, `fusedDecodeStage1`, `fusedVerifyStage1` — the kernels.
* `window` — the causal window of a row.
* `fusedDecodeChunks`, `runningMax` — the chunks of the single-stage kernel, and the
  maximum of the scores it keeps over them.

## Main results

* `verify_kernels_attend_window` — the kernels un-mask exactly the window.
* `decode_starts_unmasked` — exactly when the first chunk of the single-stage kernel is not
  masked as a whole.
-/

namespace KVarN.Attn

open KVarN.Lib List Nat

/-- `GROUP` and `BLOCK_N` of a launch. -/
structure KernelShape where
  group : ℕ
  blockN : ℕ
  group_pos : 0 < group
  blockN_dvd : blockN ∣ group

namespace KernelShape

variable (sh : KernelShape)

/-- The tiles of `n` positions. -/
def numBlocks (n : ℕ) : ℕ := (n + sh.group - 1) / sh.group

/-- The positions a loop over `tiles` leaves un-masked: `for k in tiles`, then
`for c0 in range(0, GROUP, BLOCK_N)`, then the columns `c0 + tl.arange(0, BLOCK_N)`. -/
def unmasked (tiles : List ℕ) (mask : ℕ → ℕ → Bool) : List ℕ :=
  tiles.flatMap fun k =>
    (List.Ico 0 (sh.group / sh.blockN)).flatMap fun c =>
      ((List.Ico (c * sh.blockN) (c * sh.blockN + sh.blockN)).filter (mask k)).map
        (k * sh.group + ·)

/-- The columns of a tile that hold a token: `cols < n_tok`. -/
def holdsToken (n k col : ℕ) : Prop := col < min (n - k * sh.group) sh.group
  deriving Decidable

def splitTiles (numSplits n split : ℕ) : List ℕ :=
  let perSplit := (sh.numBlocks n + numSplits - 1) / numSplits
  List.Ico (split * perSplit) (min (split * perSplit + perSplit) (sh.numBlocks n))

end KernelShape

open KernelShape

variable (sh : KernelShape) (slidingWindow : ℕ)

/-- `_kvarn_fused_decode_kernel`, for one row of length `seqLen`; the loop starts at the
first tile of the window. -/
def fusedDecodeKernel (seqLen : ℤ) : List ℕ :=
  if seqLen ≤ 0 then []
  else
    let n := seqLen.toNat
    let winStart := if 0 < slidingWindow then n - slidingWindow else 0
    sh.unmasked (List.Ico (winStart / sh.group) (sh.numBlocks n)) fun k col =>
      sh.holdsToken n k col ∧ (0 < slidingWindow → winStart ≤ k * sh.group + col)

/-- `_kvarn_fused_decode_stage1`, for one row and one split. -/
def fusedDecodeStage1 (slidingWindow numSplits : ℕ) (seqLen : ℤ) (split : ℕ) : List ℕ :=
  if seqLen ≤ 0 then []
  else
    let n := seqLen.toNat
    sh.unmasked (sh.splitTiles numSplits n split) fun k col =>
      sh.holdsToken n k col ∧ (0 < slidingWindow → n - slidingWindow ≤ k * sh.group + col)

/-- `_kvarn_fused_verify_stage1`, for query row `j` of a request of length `seqLen` with
`qLen` query tokens and one split; the row's limit is inside the scores' mask. -/
def fusedVerifyStage1 (slidingWindow numSplits qLen : ℕ) (seqLen : ℤ) (j split : ℕ) : List ℕ :=
  if seqLen ≤ 0 then []
  else
    let n := seqLen.toNat
    let limit : ℤ := seqLen - qLen + j + 1
    sh.unmasked (sh.splitTiles numSplits n split) fun k col =>
      sh.holdsToken n k col ∧ ((k * sh.group + col : ℕ) : ℤ) < limit ∧
        (0 < slidingWindow → max (limit - slidingWindow) 0 ≤ ((k * sh.group + col : ℕ) : ℤ))

/-- The causal window of a row: the last `slidingWindow` of `limit` positions, all of
them without a window. -/
def window (limit : ℤ) : List ℕ :=
  List.Ico (if 0 < slidingWindow then (limit - slidingWindow).toNat else 0) limit.toNat

/-! ## Loops and masks -/

namespace KernelShape

variable {sh}

theorem le_numBlocks_mul (n : ℕ) : n ≤ sh.numBlocks n * sh.group := by
  rw [numBlocks, mul_comm]
  exact TiledLoop.le_mul_ceilDiv sh.group_pos

/-- **The loops visit every position of their tiles once**, so that the mask is a filter. -/
theorem unmasked_Ico {a b : ℕ} {mask : ℕ → ℕ → Bool} {P : ℕ → Bool}
    (h : ∀ k col, col < sh.group → mask k col = P (k * sh.group + col)) :
    sh.unmasked (List.Ico a b) mask = (List.Ico (a * sh.group) (b * sh.group)).filter P := by
  have htile (k : ℕ) : ((List.Ico 0 (sh.group / sh.blockN)).flatMap fun c =>
      ((List.Ico (c * sh.blockN) (c * sh.blockN + sh.blockN)).filter (mask k)).map
        (k * sh.group + ·)) =
      (List.Ico (k * sh.group) (k * sh.group + sh.group)).filter P := by
    rw [← map_flatMap, ← filter_flatMap, TiledLoop.flatMap_chunks sh.blockN_dvd]
    have hmask : (List.Ico 0 sh.group).filter (mask k) =
        (List.Ico 0 sh.group).filter (P ∘ (k * sh.group + ·)) := by
      refine filter_congr fun col hcol => ?_
      exact h k col (List.Ico.mem.1 hcol).2
    rw [hmask, ← filter_map, List.Ico.map_add, zero_add, add_comm sh.group]
  rw [unmasked]
  simp only [htile]
  rw [← filter_flatMap, TiledLoop.flatMap_Ico_mul]

/-- A mask that keeps the positions from `lo` to `hi`, all of them in the tiles. -/
theorem unmasked_eq_Ico {a b lo hi : ℕ} {mask : ℕ → ℕ → Bool} (h : ∀ k col, col < sh.group →
      (mask k col = true ↔ lo ≤ k * sh.group + col ∧ k * sh.group + col < hi))
    (ha : a * sh.group ≤ lo) (hb : hi ≤ b * sh.group) :
    sh.unmasked (List.Ico a b) mask = List.Ico lo hi := by
  have hmask (k col : ℕ) (hcol : col < sh.group) :
      mask k col = decide (lo ≤ k * sh.group + col ∧ k * sh.group + col < hi) := by
    rw [Bool.eq_iff_iff, h k col hcol, decide_eq_true_iff]
  rw [unmasked_Ico (P := fun x => decide (lo ≤ x ∧ x < hi)) hmask,
    TiledLoop.filter_Ico_between, max_eq_right ha, min_eq_right hb]

/-- **The splits partition the tiles.** -/
theorem flatMap_splitTiles {numSplits : ℕ} (h : 0 < numSplits) (n : ℕ) :
    (range numSplits).flatMap (sh.splitTiles numSplits n) = List.Ico 0 (sh.numBlocks n) :=
  TiledLoop.flatMap_splits _ h

theorem flatMap_unmasked {numSplits : ℕ} (h : 0 < numSplits) (n : ℕ) (mask : ℕ → ℕ → Bool) :
    ((range numSplits).flatMap fun s => sh.unmasked (sh.splitTiles numSplits n s) mask) =
      sh.unmasked (List.Ico 0 (sh.numBlocks n)) mask := by
  rw [← flatMap_splitTiles h n]
  simp only [unmasked, flatMap_assoc]

theorem holdsToken_iff {n k col : ℕ} (hcol : col < sh.group) :
    sh.holdsToken n k col ↔ k * sh.group + col < n := by
  rw [holdsToken]
  omega

end KernelShape

/-! ## The kernels -/

variable (score : ℕ → ℚ) {numSplits : ℕ} (seqLen : ℤ)

/-- **The single-stage kernel un-masks exactly the window.** -/
theorem fusedDecodeKernel_eq_window : fusedDecodeKernel sh slidingWindow seqLen = window
    slidingWindow seqLen := by
  rw [fusedDecodeKernel, window]
  by_cases hlen : seqLen ≤ 0
  · rw [if_pos hlen, List.Ico.eq_nil_of_le (by omega)]
  rw [if_neg hlen]
  obtain ⟨n, rfl⟩ := Int.eq_ofNat_of_zero_le (by omega : 0 ≤ seqLen)
  have hlo : (if 0 < slidingWindow then ((n : ℤ) - slidingWindow).toNat else 0) =
      if 0 < slidingWindow then n - slidingWindow else 0 := by
    split <;> omega
  simp only [Int.toNat_natCast, hlo]
  generalize hwin : (if 0 < slidingWindow then n - slidingWindow else 0) = winStart
  apply unmasked_eq_Ico
  · intro k col hcol
    rw [decide_eq_true_iff, holdsToken_iff hcol]
    split at hwin <;> omega
  · exact div_mul_le_self _ _
  · exact sh.le_numBlocks_mul n

/-- **The split-K kernel un-masks exactly the window**, over all splits. -/
theorem fusedDecodeStage1_eq_window (h : 0 < numSplits) (seqLen : ℤ) :
    (range numSplits).flatMap (fusedDecodeStage1 sh slidingWindow numSplits seqLen) = window
    slidingWindow seqLen := by
  rw [window]
  unfold fusedDecodeStage1
  by_cases hlen : seqLen ≤ 0
  · rw [List.Ico.eq_nil_of_le (by omega)]
    simp [hlen]
  simp only [if_neg hlen]
  obtain ⟨n, rfl⟩ := Int.eq_ofNat_of_zero_le (by omega : 0 ≤ seqLen)
  simp only [Int.toNat_natCast]
  rw [flatMap_unmasked h]
  generalize hwin : (if 0 < slidingWindow then ((n : ℤ) - slidingWindow).toNat else 0) = winStart
  apply unmasked_eq_Ico
  · intro k col hcol
    rw [decide_eq_true_iff, holdsToken_iff hcol]
    split at hwin <;> omega
  · rw [zero_mul]
    exact zero_le _
  · exact sh.le_numBlocks_mul n

/-- **The shared verify kernel un-masks exactly the window of each query row**, over all
splits. -/
theorem fusedVerifyStage1_eq_window (h : 0 < numSplits) {qLen j : ℕ} {seqLen : ℤ}
    (hlen : 1 ≤ seqLen) (hj : j < qLen) : (range numSplits).flatMap
    (fusedVerifyStage1 sh slidingWindow numSplits qLen seqLen j) = window slidingWindow
    (seqLen - qLen + j + 1) := by
  rw [window]
  unfold fusedVerifyStage1
  simp only [if_neg (by omega : ¬ seqLen ≤ 0)]
  obtain ⟨n, rfl⟩ := Int.eq_ofNat_of_zero_le (by omega : 0 ≤ seqLen)
  simp only [Int.toNat_natCast]
  rw [flatMap_unmasked h]
  have hle := sh.le_numBlocks_mul n
  -- the limit of the row is at most the length of the request
  generalize hlimit : (n : ℤ) - qLen + j + 1 = limit
  have hlimit_le : limit ≤ n := by omega
  generalize hwin : (if 0 < slidingWindow then (limit - slidingWindow).toNat else 0) = winStart
  apply unmasked_eq_Ico
  · intro k col hcol
    rw [decide_eq_true_iff, holdsToken_iff hcol]
    generalize k * sh.group + col = pos
    split at hwin <;> omega
  · rw [zero_mul]
    exact zero_le _
  · omega

/-- **The verify kernels attend exactly the causal window.** The splits of the shared
verify kernel partition the tiles; over all splits, tiles and chunks a query row un-masks
each position of its window once and no other one; and so do the split-K kernel and the
single-stage kernel for a row of the same length. -/
theorem verify_kernels_attend_window (sh : KernelShape) (slidingWindow numSplits qLen j : ℕ)
    (seqLen : ℤ) (hsplits : 0 < numSplits) (hlen : 1 ≤ seqLen) (hj : j < qLen) :
    (range numSplits).flatMap (sh.splitTiles numSplits seqLen.toNat) =
        List.Ico 0 (sh.numBlocks seqLen.toNat) ∧
    (range numSplits).flatMap (fusedVerifyStage1 sh slidingWindow numSplits qLen seqLen j) =
        window slidingWindow (seqLen - qLen + j + 1) ∧ (range numSplits).flatMap
        (fusedDecodeStage1 sh slidingWindow numSplits (seqLen - qLen + j + 1)) =
        window slidingWindow (seqLen - qLen + j + 1) ∧
    fusedDecodeKernel sh slidingWindow (seqLen - qLen + j + 1) =
        window slidingWindow (seqLen - qLen + j + 1) :=
  ⟨flatMap_splitTiles hsplits _, fusedVerifyStage1_eq_window sh slidingWindow hsplits hlen hj,
    fusedDecodeStage1_eq_window sh slidingWindow hsplits _, fusedDecodeKernel_eq_window ..⟩

/-- Five tokens in tiles of four, three splits, a window of two; the last row. -/
theorem verify_kernels_attend_window_small :
    (range 3).flatMap (fusedVerifyStage1 ⟨4, 2, by decide, by decide⟩ 2 3 2 5 1) = [3, 4] :=
  (verify_kernels_attend_window ⟨4, 2, by decide, by decide⟩ 2 3 2 1 5 (by decide) (by decide)
    (by decide)).2.1.trans (by decide)

/-! ## The first chunk

The single-stage kernel keeps a running maximum that starts at minus infinity, and after
each chunk subtracts the new maximum from the old one and from the scores. -/

/-- The un-masked positions of each chunk of `_kvarn_fused_decode_kernel`, in the order of
its loops. -/
def fusedDecodeChunks : List (List ℕ) :=
  if seqLen ≤ 0 then []
  else
    let n := seqLen.toNat
    let winStart := if 0 < slidingWindow then n - slidingWindow else 0
    (List.Ico (winStart / sh.group) (sh.numBlocks n)).flatMap fun k =>
      (List.Ico 0 (sh.group / sh.blockN)).map fun c =>
        ((List.Ico (c * sh.blockN) (c * sh.blockN + sh.blockN)).filter fun col =>
          sh.holdsToken n k col ∧ (0 < slidingWindow → winStart ≤ k * sh.group + col)).map
          (k * sh.group + ·)

/-- `m_i` after the chunks; `⊥` is minus infinity, the score of a masked position. -/
def runningMax (chunks : List (List ℕ)) : WithBot ℚ :=
  chunks.foldl (fun m chunk => chunk.foldl (fun m p => max m (score p : WithBot ℚ)) m) ⊥

private theorem le_foldl {α : Type} {f : WithBot ℚ → α → WithBot ℚ} (hf : ∀ m x, m ≤ f m x)
    (l : List α) (m : WithBot ℚ) : m ≤ l.foldl f m := by
  induction l generalizing m with
  | nil => exact le_rfl
  | cons x l ih => exact (hf m x).trans (ih _)

/-- A position of the first chunk keeps the maximum finite from then on. -/
theorem runningMax_ne_bot {p : ℕ} (chunk : List ℕ) (chunks : List (List ℕ)) : runningMax score
    ((p :: chunk) :: chunks) ≠ ⊥ := by
  have hfirst : (score p : WithBot ℚ) ≤ runningMax score ((p :: chunk) :: chunks) := by
    have hchunk := le_foldl fun m p => le_max_left m (score p : WithBot ℚ)
    exact (le_max_right ⊥ _).trans
      ((hchunk chunk _).trans (le_foldl (fun m l => hchunk l m) chunks _))
  exact ((WithBot.bot_lt_coe _).trans_le hfirst).ne'

/-- The loops start at column 0 of the tile the window starts in, so that their first chunk
un-masks a position exactly if the window starts in the first `BLOCK_N` columns. -/
theorem fusedDecodeChunks_eq_cons (hlen : 1 ≤ seqLen) : ∃ chunk rest,
    fusedDecodeChunks sh slidingWindow seqLen = chunk :: rest ∧ (chunk ≠ [] ↔
      slidingWindow = 0 ∨ (seqLen.toNat - slidingWindow) % sh.group < sh.blockN) := by
  obtain ⟨n, rfl⟩ := Int.eq_ofNat_of_zero_le (by omega : 0 ≤ seqLen)
  have hblock : 0 < sh.blockN := pos_of_dvd_of_pos sh.blockN_dvd sh.group_pos
  have hle : sh.blockN ≤ sh.group := le_of_dvd sh.group_pos sh.blockN_dvd
  rw [fusedDecodeChunks, if_neg (by omega)]
  simp only [Int.toNat_natCast]
  generalize hstart : (if 0 < slidingWindow then n - slidingWindow else 0) = winStart
  have hwin : (slidingWindow = 0 ∨ (n - slidingWindow) % sh.group < sh.blockN) ↔
      (0 < slidingWindow → winStart % sh.group < sh.blockN) := by
    split at hstart
    · rw [← hstart]
      omega
    · simp [(by omega : slidingWindow = 0)]
  have hlt : winStart < n := by
    split at hstart <;> omega
  have htile : winStart / sh.group < sh.numBlocks n := by
    rw [div_lt_iff_lt_mul sh.group_pos]
    exact hlt.trans_le (sh.le_numBlocks_mul n)
  have hpos := div_add_mod' winStart sh.group
  have hmod := mod_lt winStart sh.group_pos
  rw [List.Ico.eq_cons htile, List.Ico.eq_cons (div_pos hle hblock), flatMap_cons, map_cons,
    cons_append, hwin]
  refine ⟨_, _, rfl, ?_⟩
  rw [Ne, map_eq_nil_iff, filter_eq_nil_iff]
  constructor
  · -- an un-masked column is not before the one the window starts at
    intro h hpositive
    push Not at h
    obtain ⟨col, hcol, h⟩ := h
    rw [List.Ico.mem] at hcol
    have := (decide_eq_true_iff.1 h).2 hpositive
    omega
  · intro h hmasked
    by_cases hpositive : 0 < slidingWindow
    · refine hmasked (winStart % sh.group) (List.Ico.mem.2 ⟨by omega, ?_⟩) ?_
      · have := h hpositive
        omega
      · rw [decide_eq_true_iff, holdsToken_iff hmod]
        omega
    · refine hmasked 0 (List.Ico.mem.2 ⟨by omega, by omega⟩) ?_
      rw [decide_eq_true_iff, holdsToken_iff sh.group_pos]
      omega

/-- **The first chunk is not masked as a whole, and no chunk leaves the running maximum at
minus infinity, exactly if the window starts in the first chunk of its tile.** -/
theorem decode_starts_unmasked (sh : KernelShape) (slidingWindow : ℕ) (seqLen : ℤ)
    (hlen : 1 ≤ seqLen) (score : ℕ → ℚ) :
    ((∃ chunk rest, fusedDecodeChunks sh slidingWindow seqLen = chunk :: rest ∧ chunk ≠ []) ∧
      ∀ i < (fusedDecodeChunks sh slidingWindow seqLen).length,
        runningMax score ((fusedDecodeChunks sh slidingWindow seqLen).take (i + 1)) ≠ ⊥) ↔
    slidingWindow = 0 ∨ (seqLen.toNat - slidingWindow) % sh.group < sh.blockN := by
  obtain ⟨chunk, rest, hchunks, hiff⟩ := fusedDecodeChunks_eq_cons sh slidingWindow seqLen hlen
  rw [← hiff, hchunks]
  constructor
  · rintro ⟨⟨_, _, heq, hne⟩, -⟩
    rwa [(cons.inj heq).1]
  · intro hne
    refine ⟨⟨chunk, rest, rfl, hne⟩, fun i _ => ?_⟩
    obtain ⟨p, chunk, rfl⟩ := exists_cons_of_ne_nil hne
    rw [take_succ_cons]
    exact runningMax_ne_bot score chunk _

/-- Chunks of half a tile: the last 64 of 128 tokens are the second chunk of their tile. -/
theorem decode_starts_masked :
    (fusedDecodeChunks ⟨128, 64, by decide, by decide⟩ 64 128).head? = some [] ∧
    runningMax 0 ((fusedDecodeChunks ⟨128, 64, by decide, by decide⟩ 64 128).take 1) = ⊥ := by
  decide +kernel

/-- One position more is in the first chunk. -/
theorem decode_starts_unmasked_half :
    ∃ chunk rest, fusedDecodeChunks ⟨128, 64, by decide, by decide⟩ 65 128 = chunk :: rest ∧
      chunk ≠ [] :=
  ((decode_starts_unmasked ⟨128, 64, by decide, by decide⟩ 65 128 (by decide) fun p => p).2
    (by decide)).1

end KVarN.Attn
