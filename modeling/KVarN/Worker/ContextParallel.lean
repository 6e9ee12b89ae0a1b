import KVarN.Lib.Stripes
import KVarN.Lib.TiledLoop
import KVarN.Worker.InputBatch
import Mathlib.Algebra.BigOperators.Ring.Finset

/-!
# Context-parallel sharding

The positions of a request are dealt out to the ranks in stripes of `cp_kv_cache_interleave_size`.
One formula tells a rank the slot of a position (`_compute_slot_mapping_kernel`), another how many
of the first positions it stores (`get_dcp_local_seq_lens`).

## Main definitions

* `BlockTable` — the sizes of a sharded block table.
* `BlockTable.isLocal`, `slotId` — what the kernel stores for a token.
* `getDcpLocalSeqLens` — the local lengths, in 32-bit arithmetic.

## Main results

* `sharding_partition` — **the ranks share the positions exactly and in order.**
* `rank_offset_overflows` — the offset of a rank may not fit.
-/

namespace KVarN.Worker

open KVarN.Lib.Stripes List

/-- The sizes that the block tables of the ranks share. -/
structure BlockTable where
  dcpWorldSize : ℕ
  kvCacheBlockSize : ℕ
  blockSize : ℕ
  interleaveSize : ℕ
  worldSize_pos : 0 < dcpWorldSize
  kvBlockSize_pos : 0 < kvCacheBlockSize
  block_dvd : blockSize ∣ kvCacheBlockSize
  interleave_dvd : interleaveSize ∣ kvCacheBlockSize

namespace BlockTable

variable (t : BlockTable)

/-! ## The kernel -/

/-- `blocks_per_kv_block`. -/
def blocksPerKvBlock : ℕ :=
  if t.blockSize = t.kvCacheBlockSize then 1 else t.kvCacheBlockSize / t.blockSize

/-- `virtual_block_indices`. -/
def virtualBlockIndex (pos : ℕ) : ℕ := pos / (t.kvCacheBlockSize * t.dcpWorldSize)

/-- `virtual_block_offsets`. -/
def virtualBlockOffset (pos : ℕ) : ℕ :=
  pos - t.virtualBlockIndex pos * (t.kvCacheBlockSize * t.dcpWorldSize)

/-- `is_local`, on a rank. -/
def isLocal (rank pos : ℕ) : Prop :=
  t.virtualBlockOffset pos / t.interleaveSize % t.dcpWorldSize = rank
  deriving Decidable

/-- `local_block_offsets`. -/
def localBlockOffset (pos : ℕ) : ℕ :=
  t.virtualBlockOffset pos / (t.dcpWorldSize * t.interleaveSize) * t.interleaveSize +
    t.virtualBlockOffset pos % t.interleaveSize

/-- `slot_ids`, for a row of the table; the positions of other ranks get `PAD_ID`. -/
def slotId (padId : ℤ) (row : ℕ → ℕ) (rank pos : ℕ) : ℤ :=
  if t.isLocal rank pos then
    row (t.virtualBlockIndex pos * t.blocksPerKvBlock + t.localBlockOffset pos / t.blockSize) *
      t.blockSize + (t.localBlockOffset pos % t.blockSize : ℕ)
  else padId

/-! ## Slots -/

variable {rank pos i L : ℕ}

theorem interleave_pos : 0 < t.interleaveSize :=
  Nat.pos_of_dvd_of_pos t.interleave_dvd t.kvBlockSize_pos

theorem blockSize_mul_blocksPerKvBlock : t.blockSize * t.blocksPerKvBlock = t.kvCacheBlockSize := by
  rw [blocksPerKvBlock]
  split_ifs with h
  · rw [h, Nat.mul_one]
  · exact Nat.mul_div_cancel' t.block_dvd

theorem blockSize_pos : 0 < t.blockSize := Nat.pos_of_dvd_of_pos t.block_dvd t.kvBlockSize_pos

theorem blocksPerKvBlock_pos : 0 < t.blocksPerKvBlock :=
  Nat.pos_of_mul_pos_left (t.blockSize_mul_blocksPerKvBlock ▸ t.kvBlockSize_pos : 0 < _ * _)

/-- A virtual block is a number of rounds of stripes. -/
theorem exists_virtualBlock : ∃ k, t.kvCacheBlockSize = t.interleaveSize * k ∧
    t.kvCacheBlockSize * t.dcpWorldSize = t.interleaveSize * t.dcpWorldSize * k := by
  obtain ⟨k, hk⟩ := t.interleave_dvd
  exact ⟨k, hk, by rw [hk]; ring⟩

theorem virtualBlockOffset_eq (pos : ℕ) :
    t.virtualBlockOffset pos = pos % (t.kvCacheBlockSize * t.dcpWorldSize) := by
  rw [virtualBlockOffset, virtualBlockIndex, Nat.mod_def, Nat.mul_comm]

theorem isLocal_iff : t.isLocal rank pos ↔ owner t.interleaveSize t.dcpWorldSize pos = rank := by
  obtain ⟨k, -, hk⟩ := t.exists_virtualBlock
  rw [isLocal, virtualBlockOffset_eq, hk, Nat.mul_assoc, Nat.mod_mul_right_div_self,
    Nat.mod_mod_of_dvd _ (Nat.dvd_mul_right _ _), owner]

theorem place_eq (pos : ℕ) : t.virtualBlockIndex pos * t.kvCacheBlockSize +
    t.localBlockOffset pos = place t.interleaveSize t.dcpWorldSize pos := by
  obtain ⟨k, hk, hsize⟩ := t.exists_virtualBlock
  have hdvd : t.interleaveSize ∣ t.interleaveSize * t.dcpWorldSize * k :=
    ⟨t.dcpWorldSize * k, Nat.mul_assoc _ _ _⟩
  rw [localBlockOffset, virtualBlockOffset_eq, virtualBlockIndex, hsize,
    Nat.mul_comm t.dcpWorldSize, Nat.mod_mul_right_div_self, ← Nat.div_div_eq_div_mul, place, hk,
    Nat.mod_mod_of_dvd pos hdvd, ← Nat.add_assoc]
  congr 1
  generalize pos / (t.interleaveSize * t.dcpWorldSize) = x
  calc x / k * (t.interleaveSize * k) + x % k * t.interleaveSize
      = (k * (x / k) + x % k) * t.interleaveSize := by ring
    _ = x * t.interleaveSize := by rw [Nat.div_add_mod]

/-- A local position has the slot of its place in the table of the rank. -/
theorem slotId_of_isLocal (padId : ℤ) (row : ℕ → ℕ) (h : t.isLocal rank pos)
    (hplace : place t.interleaveSize t.dcpWorldSize pos = i) : t.slotId padId row rank pos =
      row (i / t.blockSize) * t.blockSize + (i % t.blockSize : ℕ) := by
  rw [← t.place_eq, ← t.blockSize_mul_blocksPerKvBlock, Nat.mul_left_comm] at hplace
  rw [slotId, if_pos h, ← hplace, Nat.mul_add_div t.blockSize_pos, Nat.mul_add_mod]

theorem getElem?_mapToKernelBlocks (ids : List ℕ) {q k j : ℕ} (hj : j < q) :
    (mapToKernelBlocks ids q)[k * q + j]? = ids[k]?.map (· * q + j) := by
  rw [mapToKernelBlocks]
  split_ifs with hq
  · obtain rfl : j = 0 := by omega
    simp [hq]
  · exact Lib.TiledLoop.getElem?_flatMap_range ids (fun b i => b * q + i) hj

/-- The entry for a place in the table that is read in kernel-block order. -/
theorem getElem?_table {blocks : List ℕ} (h : i < blocks.length * t.kvCacheBlockSize) :
    ∃ b ∈ blocks[i / t.kvCacheBlockSize]?,
      (mapToKernelBlocks blocks t.blocksPerKvBlock)[i / t.blockSize]? =
        some (b * t.blocksPerKvBlock + i / t.blockSize % t.blocksPerKvBlock) := by
  have hlt := (Nat.div_lt_iff_lt_mul t.kvBlockSize_pos).2 h
  have hget := getElem?_mapToKernelBlocks blocks (k := i / t.blockSize / t.blocksPerKvBlock)
    (Nat.mod_lt (i / t.blockSize) t.blocksPerKvBlock_pos)
  rw [Nat.div_add_mod', Nat.div_div_eq_div_mul, t.blockSize_mul_blocksPerKvBlock,
    getElem?_eq_getElem hlt] at hget
  exact ⟨_, getElem?_eq_getElem hlt, hget⟩

end BlockTable

/-! ## Local lengths -/

/-- A value of a 32-bit tensor. -/
def int32 (x : ℤ) : ℤ := x.bmod (2 ^ 32)

/-- `get_dcp_local_seq_lens`, for one sequence and rank. -/
def getDcpLocalSeqLens (seqLen : ℤ) (dcpSize dcpRank interleave : ℕ) : ℤ :=
  let seqLen := int32 seqLen
  let base := int32 (seqLen / interleave / dcpSize * interleave)
  let remainder := int32 (seqLen - int32 (base * dcpSize))
  let remainder := int32 (remainder - int32 (dcpRank * interleave))
  int32 (base + min (max remainder 0) interleave)

theorem int32_natCast {x : ℕ} (h : x < 2 ^ 31) : int32 x = x :=
  Int.bmod_eq_of_le_mul_two (by omega) (by push_cast; omega)

/-- The second formula counts the local positions, where nothing overflows. -/
theorem getDcpLocalSeqLens_eq {L n r w : ℕ} (hw : 0 < w) (hr : r < n) (hL : L < 2 ^ 31)
    (hround : w * n ≤ 2 ^ 31) : getDcpLocalSeqLens L n r w = count w n r L := by
  have hle : r * w + w ≤ w * n := by
    rw [← Nat.succ_mul, Nat.mul_comm w]
    exact Nat.mul_le_mul_right w hr
  have hdiv := Nat.div_add_mod L (w * n)
  have hbase : L / (w * n) * w * n = w * n * (L / (w * n)) := by ring
  have hbase_le : L / (w * n) * w ≤ w * n * (L / (w * n)) :=
    hbase ▸ Nat.le_mul_of_pos_right _ (by omega)
  have hquot : (L : ℤ) / w / n * w = (L / (w * n) * w : ℕ) := by
    rw [← Nat.div_div_eq_div_mul]
    push_cast
    rfl
  have hrest : (L : ℤ) - (L / (w * n) * w * n : ℕ) = (L % (w * n) : ℕ) := by omega
  have hlast : int32 ((L % (w * n) : ℕ) - (r * w : ℕ)) = (L % (w * n) : ℕ) - (r * w : ℕ) :=
    Int.bmod_eq_of_le_mul_two (by omega) (by omega)
  have hclip : min (max ((L % (w * n) : ℕ) - (r * w : ℕ) : ℤ) 0) w =
      (min (L % (w * n) - r * w) w : ℕ) := by omega
  simp only [getDcpLocalSeqLens, Lib.Stripes.count]
  rw [int32_natCast hL, hquot, int32_natCast (by omega), ← Nat.cast_mul, ← Nat.cast_mul,
    int32_natCast (by omega), hrest, int32_natCast (by omega), int32_natCast (by omega), hlast,
    hclip, ← Nat.cast_add, int32_natCast (by omega)]

/-! ## Sharding -/

namespace BlockTable

/-- **The ranks share the positions of a sequence exactly and in order**: each position has one
rank, the ranks have as many as the second formula says, and the slots of a rank are those of its
table, in order. -/
theorem sharding_partition (t : BlockTable) {blocks : List ℕ} (hblocks : blocks.Nodup) {L : ℕ}
    (hroom : L ≤ blocks.length * (t.kvCacheBlockSize * t.dcpWorldSize)) (hL : L < 2 ^ 31)
    (hround : t.interleaveSize * t.dcpWorldSize ≤ 2 ^ 31) (padId : ℤ) :
    let table := mapToKernelBlocks blocks t.blocksPerKvBlock
    let slot := t.slotId padId (table.getD · 0)
    let positions := fun rank => (range L).filter (t.isLocal rank ·)
    let localSeqLen := fun rank => getDcpLocalSeqLens L t.dcpWorldSize rank t.interleaveSize
    (∀ pos < L, ∃! rank, rank < t.dcpWorldSize ∧ t.isLocal rank pos) ∧
      (∀ rank < t.dcpWorldSize, ((positions rank).length : ℤ) = localSeqLen rank) ∧
      ∑ rank ∈ Finset.range t.dcpWorldSize, localSeqLen rank = L ∧
      ∀ rank < t.dcpWorldSize,
        (∀ i pos, (positions rank)[i]? = some pos → ∃ b, table[i / t.blockSize]? = some b ∧
          slot rank pos = b * t.blockSize + (i % t.blockSize : ℕ)) ∧
        ∀ pos ∈ positions rank, ∀ pos' ∈ positions rank,
          slot rank pos = slot rank pos' → pos = pos' := by
  intro table slot positions localSeqLen
  have hw := t.interleave_pos
  have hpositions : ∀ rank < t.dcpWorldSize, positions rank =
      (range (count t.interleaveSize t.dcpWorldSize rank L)).map
        (nth t.interleaveSize t.dcpWorldSize rank) := fun rank hr => by
    simp only [positions, t.isLocal_iff]
    exact filter_owner hw hr L
  have hlen : ∀ rank < t.dcpWorldSize,
      localSeqLen rank = count t.interleaveSize t.dcpWorldSize rank L :=
    fun rank hr => getDcpLocalSeqLens_eq hw hr hL hround
  -- what is stored at the `i`-th local position
  have hslot : ∀ rank < t.dcpWorldSize, ∀ i pos, (positions rank)[i]? = some pos →
      ∃ b ∈ blocks[i / t.kvCacheBlockSize]?, ∃ e, e =
          b * t.blocksPerKvBlock + i / t.blockSize % t.blocksPerKvBlock ∧
        table[i / t.blockSize]? = some e ∧
        slot rank pos = e * t.blockSize + (i % t.blockSize : ℕ) := by
    intro rank hr i pos hpos
    have hmem := mem_of_getElem? hpos
    simp only [positions, mem_filter, mem_range, decide_eq_true_eq] at hmem
    have hplace : place t.interleaveSize t.dcpWorldSize pos = i := by
      rw [hpositions rank hr, getElem?_map, Option.map_eq_some_iff] at hpos
      obtain ⟨j, hj, rfl⟩ := hpos
      rw [place_nth hw hr, ← (List.getElem?_eq_some_iff.1 hj).2, getElem_range]
    have hlt : i < blocks.length * t.kvCacheBlockSize := by
      obtain ⟨k, hk, hsize⟩ := t.exists_virtualBlock
      have hpos := hmem.1.trans_le hroom
      rw [hsize, Nat.mul_comm _ k, ← Nat.mul_assoc] at hpos
      rw [hk, Nat.mul_comm _ k, ← Nat.mul_assoc, ← hplace]
      exact place_lt hw hpos
    obtain ⟨b, hb, htable⟩ := t.getElem?_table hlt
    refine ⟨b, hb, _, rfl, htable, ?_⟩
    simp only [slot, t.slotId_of_isLocal padId _ hmem.2 hplace, getD_eq_getElem?_getD]
    rw [htable]
    rfl
  refine ⟨fun pos _ => ?_, fun rank hr => ?_, ?_, fun rank hr => ⟨fun i pos hpos => ?_, ?_⟩⟩
  · exact ⟨_, ⟨owner_lt t.worldSize_pos, t.isLocal_iff.2 rfl⟩,
      fun _ h => (t.isLocal_iff.1 h.2).symm⟩
  · rw [hlen rank hr, hpositions rank hr, length_map, length_range]
  · rw [Finset.sum_congr rfl fun rank hr => hlen rank (Finset.mem_range.1 hr), ← Nat.cast_sum,
      sum_count hw t.worldSize_pos]
  · obtain ⟨b, -, e, -, htable, h⟩ := hslot rank hr i pos hpos
    exact ⟨e, htable, h⟩
  · intro pos hpos pos' hpos' heq
    obtain ⟨i, hi⟩ := getElem?_of_mem hpos
    obtain ⟨i', hi'⟩ := getElem?_of_mem hpos'
    obtain ⟨b, hb, _, rfl, -, h⟩ := hslot rank hr i pos hi
    obtain ⟨b', hb', _, rfl, -, h'⟩ := hslot rank hr i' pos' hi'
    rw [h, h'] at heq
    obtain ⟨hentry, hoffset⟩ := eq_of_digits (Nat.mod_lt i t.blockSize_pos)
      (Nat.mod_lt i' t.blockSize_pos) (by exact_mod_cast heq)
    obtain ⟨hblock, hpart⟩ := eq_of_digits (Nat.mod_lt _ t.blocksPerKvBlock_pos)
      (Nat.mod_lt _ t.blocksPerKvBlock_pos) hentry
    subst hblock
    have hrow := (getElem?_inj (List.getElem?_eq_some_iff.1 hb).1 hblocks).1 (hb.trans hb'.symm)
    rw [← t.blockSize_mul_blocksPerKvBlock, ← Nat.div_div_eq_div_mul,
      ← Nat.div_div_eq_div_mul] at hrow
    have hi_eq : i = i' := by
      rw [← Nat.div_add_mod' i t.blockSize, ← Nat.div_add_mod' i' t.blockSize, hoffset,
        ← Nat.div_add_mod' (i / t.blockSize) t.blocksPerKvBlock, hrow, hpart, Nat.div_add_mod']
    subst hi_eq
    exact Option.some.inj (hi.symm.trans hi')

/-- Three ranks with blocks of 6 positions, in stripes of 3 and kernel blocks of 2. -/
def small : BlockTable := ⟨3, 6, 2, 3, by decide, by decide, by decide, by decide⟩

theorem sharding_partition_small : (range 10).filter (small.isLocal 0 ·) = [0, 1, 2, 9] ∧
      ∑ rank ∈ Finset.range small.dcpWorldSize,
        getDcpLocalSeqLens 10 small.dcpWorldSize rank small.interleaveSize = 10 :=
  ⟨by decide, (sharding_partition small (by decide : [5, 3].Nodup) (L := 10)
    (by decide) (by decide) (by decide) (-1)).2.2.1⟩

/-- Ranks whose offsets do not fit in 32 bits. -/
def wide : BlockTable := ⟨49153, 65536, 65536, 65536, by decide, by decide, by decide, by decide⟩

/-- The last of these ranks is said to store 65536 positions of a sequence of one, of which it
stores none. -/
theorem rank_offset_overflows :
    getDcpLocalSeqLens 1 wide.dcpWorldSize 49152 wide.interleaveSize = 65536 ∧
      (range 1).filter (wide.isLocal 49152 ·) = [] := by
  decide

end BlockTable

end KVarN.Worker
