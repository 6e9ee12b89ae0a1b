import KVarN.Lib.Dict
import Mathlib.Data.Finset.Basic

/-!
# The fp16 tail pool of one KV-cache group

KVarN keeps most of the KV cache as int4 tiles and a few tiles of `GROUP` tokens
in fp16, in a pool of fixed size. `GroupState` is the allocator state that
`KVarNAttentionImpl` and `KVarNMetadataBuilder` keep for one KV-cache group: the
map from tile rows to pool slots, the free slots, the sinks, the retired sinks,
the fill counts, and the two device mirrors the kernels read.

The primitive updates that `build` composes are here, each with the lemma that it
keeps the containers coherent.

## Main definitions

* `Config` — what the builder's constructor fixes; divisibility is a field.
* `GroupState`, `GroupState.init` — the allocator of one group.
* `GroupState.ensurePool` — `_ensure_pool`, as far as the allocator goes.
* `GroupState.release`, `GroupState.evict`, `GroupState.take` — a slot's ways.
* `GroupState.Coherent` — slots are partitioned and the mirrors agree.
-/

namespace KVarN.Tile

open KVarN.Lib Dict

/-- The A/B switch `KVARN_MTP_FIX`. -/
inductive MtpFix
  | off
  | unify
  | full
  deriving DecidableEq, Repr

/-- What the constructor of `KVarNMetadataBuilder` fixes, and the number of vLLM
blocks the group's cache has. The last field is the constructor's assertion that
the block size is a multiple of the tile size. -/
structure Config where
  /-- `GROUP`, the tokens of one tile. -/
  group : ℕ
  /-- The tokens of one vLLM block. -/
  blockSize : ℕ
  /-- The vLLM blocks of the group's KV cache. -/
  numBlocks : ℕ
  maxModelLen : ℕ
  mtpFix : MtpFix
  group_pos : 0 < group
  blockSize_pos : 0 < blockSize
  group_dvd : group ∣ blockSize

namespace Config

variable (cfg : Config)

/-- `_tpr`: tiles per vLLM block. -/
def tpr : ℕ := cfg.blockSize / cfg.group

/-- `_max_tiles`: the width of the tile-unit block table. -/
def maxTiles : ℕ := (cfg.maxModelLen + cfg.group - 1) / cfg.group

theorem tpr_mul_group : cfg.tpr * cfg.group = cfg.blockSize :=
  Nat.div_mul_cancel cfg.group_dvd

theorem tpr_pos : 0 < cfg.tpr :=
  Nat.div_pos (Nat.le_of_dvd cfg.blockSize_pos cfg.group_dvd) cfg.group_pos

end Config

/-- `KVarNConfig.pool_slots`: the size of the pool for a capped concurrency. -/
def poolSlots (group maxNumSeqs maxNumBatchedTokens : ℕ) : ℕ :=
  max (2 * maxNumSeqs + (maxNumBatchedTokens + group - 1) / group + 8) 8

/-! ## Lookup tensors -/

/-- A one-dimensional device tensor. A tensor that was never created has shape `0`. -/
structure Tensor (α : Type) where
  shape : ℕ
  data : ℕ → α

variable {α : Type} (t : Tensor α) (i : ℕ) (v : α)

/-- `if i < t.shape[0]: t[i] = v`. -/
def Tensor.store : Tensor α :=
  if i < t.shape then { t with data := Function.update t.data i v } else t

@[simp] theorem Tensor.store_shape : (t.store i v).shape = t.shape := by
  unfold Tensor.store; split <;> rfl

theorem Tensor.store_data (i j : ℕ) (v : α) (hj : j < t.shape) : (t.store i v).data j = if j = i
    then v else t.data j := by
  unfold Tensor.store
  by_cases hij : j = i
  · subst hij; simp [hj]
  · split <;> simp [Function.update, hij]

/-! ## The allocator state -/

/-- The allocator of one KV-cache group. -/
structure GroupState where
  /-- `_block_to_slot_dict`: the pool slot of each fp16-resident tile row. -/
  blockToSlot : Dict ℕ ℕ
  /-- `_free_slots`, the end of the Python list first. -/
  freeSlots : List ℕ
  /-- `_allocator_pool_size`. -/
  poolSize : ℕ
  /-- `_global_sink_blocks`. -/
  sinks : Finset ℕ
  /-- `_retired_sinks`, oldest first. -/
  retiredSinks : Dict ℕ Unit
  /-- `_block_fill`: tokens the pool holds for a tile row after the step. -/
  blockFill : Dict ℕ ℕ
  /-- `_block_to_slot_t`, the mirror of `blockToSlot` the kernels read. -/
  blockToSlotT : Tensor ℤ
  /-- `_is_sink_t`, the mirror of `sinks`. -/
  isSinkT : Tensor Bool
  /-- `_max_known_block_id`. -/
  maxKnownBlockId : ℕ

namespace GroupState

/-- The allocator that the first `_ensure_pool` of a group creates, before its
lookup tensors exist. -/
def init (poolSize : ℕ) : GroupState where
  blockToSlot := empty
  freeSlots := List.range poolSize
  poolSize := poolSize
  sinks := ∅
  retiredSinks := empty
  blockFill := empty
  blockToSlotT := ⟨0, fun _ => -1⟩
  isSinkT := ⟨0, fun _ => false⟩
  maxKnownBlockId := 0

variable (s : GroupState) (bid : ℕ)

/-- What the mirror should hold for a tile row: its slot, or `-1`. -/
def slotEntry : ℤ :=
  match s.blockToSlot.get? bid with
  | some slot => slot
  | none => -1

/-- The size `_ensure_pool` wants the lookup tensors to have at least. -/
def numBlocks (numBlocksHint : ℕ) : ℕ :=
  max numBlocksHint (max (s.maxKnownBlockId + 1) 1024)

/-- `_ensure_pool`: grow the lookup tensors, re-syncing them from the host state. -/
def ensurePool (numBlocksHint : ℕ) : GroupState :=
  if s.blockToSlotT.shape < s.numBlocks numBlocksHint then
    { s with
      blockToSlotT := ⟨s.numBlocks numBlocksHint, s.slotEntry⟩
      isSinkT := ⟨s.numBlocks numBlocksHint, fun bid => decide (bid ∈ s.sinks)⟩ }
  else s

/-- Label a tile row as a sink, in the set and in its mirror. -/
def addSink : GroupState :=
  { s with sinks := insert bid s.sinks, isSinkT := s.isSinkT.store bid true }

/-- Drop the sink label of a tile row, in the set and in its mirror. -/
def dropSink : GroupState :=
  { s with sinks := s.sinks.erase bid, isSinkT := s.isSinkT.store bid false }

/-- Free the slot of a flushed or discarded tile row. -/
def release : GroupState :=
  match s.blockToSlot.get? bid with
  | none => { s with blockFill := s.blockFill.pop bid }
  | some slot =>
    { s with
      blockToSlot := s.blockToSlot.pop bid
      blockFill := s.blockFill.pop bid
      freeSlots := slot :: s.freeSlots
      blockToSlotT := s.blockToSlotT.store bid (-1) }

/-- Take a retired sink out of the pool. -/
def evict (old : ℕ) : GroupState :=
  dropSink
    { s with
      retiredSinks := s.retiredSinks.pop old
      blockToSlot := s.blockToSlot.pop old
      blockFill := s.blockFill.pop old
      blockToSlotT := s.blockToSlotT.store old (-1)
      freeSlots := (s.blockToSlot.get? old).toList ++ s.freeSlots } old

/-- Give a tile row the next free slot, if there is one. -/
def take : Option GroupState :=
  match s.freeSlots with
  | [] => none
  | slot :: rest => some
    { s with
      blockToSlot := s.blockToSlot.set bid slot
      freeSlots := rest
      blockToSlotT := s.blockToSlotT.store bid slot
      maxKnownBlockId := max s.maxKnownBlockId bid }

/-! ## Coherence -/

/-- The slots in use and the free slots are `range(pool_size)` without
duplicates, and the mirrors show the host containers. -/
structure Coherent (s : GroupState) : Prop where
  partition : (s.blockToSlot.values ++ s.freeSlots).Perm (List.range s.poolSize)
  slot_mirror : ∀ bid < s.blockToSlotT.shape, s.blockToSlotT.data bid = s.slotEntry bid
  sink_mirror : ∀ bid < s.isSinkT.shape, s.isSinkT.data bid = decide (bid ∈ s.sinks)
  shape_eq : s.isSinkT.shape = s.blockToSlotT.shape
  keys_lt : ∀ bid ∈ s.blockToSlot, bid < s.blockToSlotT.shape
  sinks_lt : ∀ bid ∈ s.sinks, bid < s.blockToSlotT.shape

variable {s}

theorem slotEntry_of_get? {bid slot : ℕ} (h : s.blockToSlot.get? bid = some slot) :
    s.slotEntry bid = slot := by simp [slotEntry, h]

theorem slotEntry_of_notMem {bid : ℕ} (h : bid ∉ s.blockToSlot) : s.slotEntry bid = -1 := by
  simp [slotEntry, get?_eq_none_iff.2 h]

/-- Coherence does not depend on the fill counts or the retired sinks. -/
theorem Coherent.withLabels (h : s.Coherent) (fill : Dict ℕ ℕ) (ret : Dict ℕ Unit) :
    ({ s with blockFill := fill, retiredSinks := ret } : GroupState).Coherent :=
  ⟨h.partition, h.slot_mirror, h.sink_mirror, h.shape_eq, h.keys_lt, h.sinks_lt⟩

theorem coherent_init (poolSize : ℕ) : (init poolSize).Coherent where
  partition := by simp [init]
  slot_mirror := by simp [init]
  sink_mirror := by simp [init]
  shape_eq := rfl
  keys_lt := by simp [init]
  sinks_lt := by simp [init]

namespace Coherent

/-- No slot is used twice. -/
theorem slot_inj (h : s.Coherent) {a b slot : ℕ} (ha : s.blockToSlot.get? a = some slot)
    (hb : s.blockToSlot.get? b = some slot) : a = b := by
  by_contra hab
  have hnd : s.blockToSlot.values.Nodup :=
    (List.nodup_append.1 (h.partition.nodup_iff.2 List.nodup_range)).1
  have hb' : (s.blockToSlot.pop a).get? b = some slot := by
    rw [get?_pop, if_neg (Ne.symm hab), hb]
  exact (List.nodup_cons.1 ((values_perm_pop ha).nodup_iff.1 hnd)).1
    (mem_values_iff.2 ⟨b, hb'⟩)

/-- The pool is exactly as full as the free list is short. -/
theorem card_add_free (h : s.Coherent) :
    s.blockToSlot.keys.length + s.freeSlots.length = s.poolSize := by
  simpa [length_values] using h.partition.length_eq

end Coherent

/-- After `_ensure_pool` the hint is a valid index bound. -/
theorem le_shape_ensurePool (s : GroupState) (hint : ℕ) :
    hint ≤ (s.ensurePool hint).blockToSlotT.shape := by
  unfold ensurePool
  split
  · exact le_max_left _ _
  · rename_i h; exact (le_max_left _ _).trans (not_lt.1 h)

theorem shape_le_ensurePool (s : GroupState) (hint : ℕ) :
    s.blockToSlotT.shape ≤ (s.ensurePool hint).blockToSlotT.shape := by
  unfold ensurePool
  split
  · rename_i h; exact h.le
  · exact le_rfl

section Fields

variable (s) (hint : ℕ)

@[simp] theorem ensurePool_blockToSlot : (s.ensurePool hint).blockToSlot = s.blockToSlot := by
  unfold ensurePool; split <;> rfl
@[simp] theorem ensurePool_freeSlots : (s.ensurePool hint).freeSlots = s.freeSlots := by
  unfold ensurePool; split <;> rfl
@[simp] theorem ensurePool_poolSize : (s.ensurePool hint).poolSize = s.poolSize := by
  unfold ensurePool; split <;> rfl
@[simp] theorem ensurePool_sinks : (s.ensurePool hint).sinks = s.sinks := by
  unfold ensurePool; split <;> rfl
@[simp] theorem ensurePool_retiredSinks : (s.ensurePool hint).retiredSinks = s.retiredSinks := by
  unfold ensurePool; split <;> rfl
@[simp] theorem ensurePool_blockFill : (s.ensurePool hint).blockFill = s.blockFill := by
  unfold ensurePool; split <;> rfl

@[simp] theorem release_poolSize : (s.release bid).poolSize = s.poolSize := by
  unfold release; split <;> rfl
@[simp] theorem release_sinks : (s.release bid).sinks = s.sinks := by
  unfold release; split <;> rfl
@[simp] theorem release_retiredSinks : (s.release bid).retiredSinks = s.retiredSinks := by
  unfold release; split <;> rfl
@[simp] theorem release_blockFill : (s.release bid).blockFill = s.blockFill.pop bid := by
  unfold release; split <;> rfl
@[simp] theorem release_shape : (s.release bid).blockToSlotT.shape = s.blockToSlotT.shape := by
  unfold release; split <;> simp
@[simp] theorem release_blockToSlot : (s.release bid).blockToSlot = s.blockToSlot.pop bid := by
  unfold release
  split
  · rename_i h; rw [pop_of_notMem (get?_eq_none_iff.1 h)]
  · rfl

end Fields

/-! ### Every primitive update keeps the state coherent -/

section

variable (h : s.Coherent)

include h

theorem Coherent.ensurePool (hint : ℕ) : (s.ensurePool hint).Coherent := by
  have hle := shape_le_ensurePool s hint
  refine ⟨by simpa using h.partition, ?_, ?_, ?_, ?_, ?_⟩
  · unfold GroupState.ensurePool
    split
    · exact fun _ _ => rfl
    · exact h.slot_mirror
  · unfold GroupState.ensurePool
    split
    · exact fun _ _ => rfl
    · exact h.sink_mirror
  · unfold GroupState.ensurePool
    split
    · rfl
    · exact h.shape_eq
  · intro bid hb
    exact (h.keys_lt bid (by simpa using hb)).trans_le hle
  · intro bid hb
    exact (h.sinks_lt bid (by simpa using hb)).trans_le hle

theorem Coherent.addSink {bid : ℕ} (hb : bid < s.blockToSlotT.shape) :
    (s.addSink bid).Coherent where
  partition := h.partition
  slot_mirror := h.slot_mirror
  sink_mirror := by
    intro b hbs
    have hbs' : b < s.isSinkT.shape := by simpa [GroupState.addSink] using hbs
    simp only [GroupState.addSink, Tensor.store_data _ _ _ _ hbs', Finset.mem_insert]
    by_cases e : b = bid <;> simp [e, h.sink_mirror b hbs']
  shape_eq := by simpa [GroupState.addSink] using h.shape_eq
  keys_lt := h.keys_lt
  sinks_lt := by
    intro b hbs
    rcases Finset.mem_insert.1 hbs with rfl | hbs
    · exact hb
    · exact h.sinks_lt b hbs

theorem Coherent.dropSink (bid : ℕ) : (s.dropSink bid).Coherent where
  partition := h.partition
  slot_mirror := h.slot_mirror
  sink_mirror := by
    intro b hbs
    have hbs' : b < s.isSinkT.shape := by simpa [GroupState.dropSink] using hbs
    simp only [GroupState.dropSink, Tensor.store_data _ _ _ _ hbs', Finset.mem_erase]
    by_cases e : b = bid <;> simp [e, h.sink_mirror b hbs']
  shape_eq := by simpa [GroupState.dropSink] using h.shape_eq
  keys_lt := h.keys_lt
  sinks_lt := fun b hbs => h.sinks_lt b (Finset.mem_of_mem_erase hbs)

/-- Taking a tile row out of the map and its slot back is coherent, whoever does it. -/
theorem Coherent.freed (bid : ℕ) (fill : Dict ℕ ℕ) (ret : Dict ℕ Unit) :
    ({ s with
        retiredSinks := ret
        blockToSlot := s.blockToSlot.pop bid
        blockFill := fill
        blockToSlotT := s.blockToSlotT.store bid (-1)
        freeSlots := (s.blockToSlot.get? bid).toList ++ s.freeSlots } : GroupState).Coherent where
  partition := by
    cases hg : s.blockToSlot.get? bid with
    | none =>
      rw [pop_of_notMem (get?_eq_none_iff.1 hg)]
      exact h.partition
    | some slot =>
      refine List.Perm.trans ?_ h.partition
      refine List.perm_middle.trans ?_
      exact ((values_perm_pop hg).append_right s.freeSlots).symm
  slot_mirror := by
    intro b hb
    have hb' : b < s.blockToSlotT.shape := by simpa using hb
    rw [Tensor.store_data _ _ _ _ hb', h.slot_mirror b hb']
    by_cases e : b = bid <;> simp [slotEntry, get?_pop, e]
  sink_mirror := h.sink_mirror
  shape_eq := by simpa using h.shape_eq
  keys_lt := by
    intro b hb
    simpa using h.keys_lt b (mem_pop.1 hb).2
  sinks_lt := by
    intro b hb
    simpa using h.sinks_lt b hb

theorem Coherent.release (bid : ℕ) : (s.release bid).Coherent := by
  cases hg : s.blockToSlot.get? bid with
  | none =>
    have e : s.release bid = { s with blockFill := s.blockFill.pop bid } := by
      simp [GroupState.release, hg]
    rw [e]
    exact h.withLabels _ s.retiredSinks
  | some slot =>
    have hf := h.freed bid (s.blockFill.pop bid) s.retiredSinks
    rw [hg] at hf
    simpa only [GroupState.release, hg, Option.toList_some, List.singleton_append] using hf

theorem Coherent.evict (old : ℕ) : (s.evict old).Coherent :=
  (h.freed old _ _).dropSink old

theorem Coherent.take {bid : ℕ} {s' : GroupState} (hb : bid ∉ s.blockToSlot)
    (hlt : bid < s.blockToSlotT.shape) (ht : s.take bid = some s') : s'.Coherent := by
  unfold GroupState.take at ht
  split at ht
  · exact absurd ht (by simp)
  rename_i slot rest hfree
  obtain rfl := Option.some.inj ht
  refine ⟨?_, ?_, h.sink_mirror, by simpa using h.shape_eq, ?_, ?_⟩
  · rw [values_set_of_notMem hb, List.append_assoc]
    have hp := h.partition
    rwa [hfree] at hp
  · intro b hbs
    have hbs' : b < s.blockToSlotT.shape := by simpa using hbs
    rw [Tensor.store_data _ _ _ _ hbs', h.slot_mirror b hbs']
    by_cases e : b = bid <;> simp [slotEntry, get?_set, e]
  · intro b hbs
    rcases mem_set.1 hbs with rfl | hbs
    · simpa using hlt
    · simpa using h.keys_lt b hbs
  · intro b hbs
    simpa using h.sinks_lt b hbs

end

end GroupState

end KVarN.Tile
