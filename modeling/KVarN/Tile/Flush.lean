import KVarN.Lib.Dict
import KVarN.Lib.KeyedWrite
import KVarN.Lib.Outcome
import KVarN.Lib.TiledLoop
import Mathlib.Data.List.Induction
import Mathlib.Data.Nat.Size

/-!
# Flushing tiles to the cache

A complete tile is packed and written to the cache as one record per head. One tile can be
flushed on its own (`flushTail`), field by field at the offsets of the configuration. The
builder flushes many tiles at once (`batchedFlush`): it groups them by layer, gathers a
chunk of tiles, packs them together and scatters whole records of `tile_bytes_aligned`
bytes.

Packing one tile is an arbitrary function of its contents and the configuration here. Each
layer has a configuration and a head count of its own; the batched flush takes those of the
first pair's layer.

## Main definitions

* `KVarNConfig` — the byte layout of a record; `Packed` — its fields.
* `Backend` — the layers and the shapes of their caches.
* `writePacked`, `flushTail` — one tile.
* `batchedFlush` — many tiles; `batchedPairs` — the order in which it writes.
* `Regular` — the pairs on which it is right.

## Main results

* `writePacked_eq` — the fields are adjacent: they are written as one slice.
* `Batchable.flushLayers_eq_ok` — the batched flush as a sequence of writes.
* `batchedFlush_eq_flushTails_iff` — when the batched flush is the flushes one by one.
-/

namespace KVarN.Flush

open KVarN.Lib Dict List

/-- The parameters of `KVarNConfig` that the layout depends on. -/
structure KVarNConfig where
  headDim : ℕ
  keyBits : ℕ
  valueBits : ℕ
  group : ℕ
  group_pos : 0 < group

namespace KVarNConfig

variable (cfg : KVarNConfig)

def kPackedBytes : ℕ := (cfg.headDim * cfg.group * cfg.keyBits + 7) / 8

def vPackedBytes : ℕ := (cfg.group * cfg.headDim * cfg.valueBits + 7) / 8

def kScaleBytes : ℕ := (2 * cfg.headDim + cfg.group) * 2

def vScaleBytes : ℕ := (cfg.headDim + 2 * cfg.group) * 2

def tileBytes : ℕ := cfg.kPackedBytes + cfg.kScaleBytes + cfg.vPackedBytes + cfg.vScaleBytes

/-- `tile_bytes_aligned`: from `head_dim` 256 on the bytes of a token are a power of two. -/
def tileBytesAligned : ℕ :=
  if 256 ≤ cfg.headDim then
    let slot := (cfg.tileBytes + cfg.group - 1) / cfg.group
    2 ^ (slot - 1).size * cfg.group
  else (cfg.tileBytes + 7) / 8 * 8

def kPackedOffset (_ : KVarNConfig) : ℕ := 0
def kSColOffset : ℕ := cfg.kPackedOffset + cfg.kPackedBytes
def kZpOffset : ℕ := cfg.kSColOffset + cfg.headDim * 2
def kSRowOffset : ℕ := cfg.kZpOffset + cfg.headDim * 2
def vPackedOffset : ℕ := cfg.kSRowOffset + cfg.group * 2
def vSColOffset : ℕ := cfg.vPackedOffset + cfg.vPackedBytes
def vSRowOffset : ℕ := cfg.vSColOffset + cfg.headDim * 2
def vZpOffset : ℕ := cfg.vSRowOffset + cfg.group * 2

theorem tileBytes_le_aligned : cfg.tileBytes ≤ cfg.tileBytesAligned := by
  unfold tileBytesAligned
  split
  · have hle : cfg.tileBytes ≤ (cfg.tileBytes + cfg.group - 1) / cfg.group * cfg.group := by
      rw [Nat.mul_comm]
      exact TiledLoop.le_mul_ceilDiv cfg.group_pos
    refine hle.trans (Nat.mul_le_mul_right _ ?_)
    have hsize := Nat.lt_size_self ((cfg.tileBytes + cfg.group - 1) / cfg.group - 1)
    omega
  · omega

end KVarNConfig

open KVarNConfig

/-- The packed fields of one head of a tile, as bytes. -/
structure Packed (cfg : KVarNConfig) where
  kPacked : List UInt8
  kSCol : List UInt8
  kZp : List UInt8
  kSRow : List UInt8
  vPacked : List UInt8
  vSCol : List UInt8
  vSRow : List UInt8
  vZp : List UInt8
  length_kPacked : kPacked.length = cfg.kPackedBytes
  length_kSCol : kSCol.length = cfg.headDim * 2
  length_kZp : kZp.length = cfg.headDim * 2
  length_kSRow : kSRow.length = cfg.group * 2
  length_vPacked : vPacked.length = cfg.vPackedBytes
  length_vSCol : vSCol.length = cfg.headDim * 2
  length_vSRow : vSRow.length = cfg.group * 2
  length_vZp : vZp.length = cfg.group * 2

section

variable {cfg : KVarNConfig} (p : Packed cfg)

/-- `torch.cat(parts, dim=1)`, one row. -/
def Packed.record : List UInt8 :=
  p.kPacked ++ p.kSCol ++ p.kZp ++ p.kSRow ++ p.vPacked ++ p.vSCol ++ p.vSRow ++ p.vZp

/-- The record, padded to `tile_bytes_aligned`. -/
def Packed.padded : List UInt8 :=
  p.record ++ replicate (cfg.tileBytesAligned - p.record.length) 0

/-- `_write_packed`: the fields, each at its offset. -/
def writePacked (flat : ℕ → UInt8) : ℕ → UInt8 :=
  let flat := writeSlice flat cfg.kPackedOffset p.kPacked
  let flat := writeSlice flat cfg.kSColOffset p.kSCol
  let flat := writeSlice flat cfg.kZpOffset p.kZp
  let flat := writeSlice flat cfg.kSRowOffset p.kSRow
  let flat := writeSlice flat cfg.vPackedOffset p.vPacked
  let flat := writeSlice flat cfg.vSColOffset p.vSCol
  let flat := writeSlice flat cfg.vSRowOffset p.vSRow
  writeSlice flat cfg.vZpOffset p.vZp

end

/-- Every field filled with one byte. -/
def Packed.fill (cfg : KVarNConfig) (x : UInt8) : Packed cfg where
  kPacked := replicate _ x
  kSCol := replicate _ x
  kZp := replicate _ x
  kSRow := replicate _ x
  vPacked := replicate _ x
  vSCol := replicate _ x
  vSRow := replicate _ x
  vZp := replicate _ x
  length_kPacked := length_replicate
  length_kSCol := length_replicate
  length_kZp := length_replicate
  length_kSRow := length_replicate
  length_vPacked := length_replicate
  length_vSCol := length_replicate
  length_vSRow := length_replicate
  length_vZp := length_replicate

/-! ## Layers and pairs -/

/-- A preset of the cache: what `KVarNConfig.from_cache_dtype` fixes for all layers. -/
structure Preset where
  keyBits : ℕ
  valueBits : ℕ
  group : ℕ
  group_pos : 0 < group

/-- A layer: its shape, `_block_to_slot_dict` of its group, and its pools, by slot, token of
the tile, head and channel. -/
structure Layer (α : Type) where
  numKvHeads : ℕ
  headSize : ℕ
  numKvHeads_pos : 0 < numKvHeads
  headSize_pos : 0 < headSize
  slot : ℕ → Option ℕ
  tailKPool : ℕ → ℕ → ℕ → ℕ → α
  tailVPool : ℕ → ℕ → ℕ → ℕ → α

/-- The layers of a model under one preset, and the shape of a row of each cache: its heads
and the bytes of a head. -/
structure Backend (α : Type) where
  preset : Preset
  layers : ℕ → Layer α
  rowShape : ℕ → ℕ × ℕ

open Backend

/-- The contents of a tile, one head: keys by channel and token, values by token and
channel. -/
abbrev Tile (α : Type) := List α × List α

/-- The bytes of every cache, by cache and block, then head and byte. -/
abbrev Mem := ℕ × ℕ → ℕ → ℕ → UInt8

/-- A flush pair: a layer (by identity), a tile and a cache. -/
structure Pair where
  layer : ℕ
  block : ℕ
  cache : ℕ
deriving DecidableEq

/-- `reshape` to another number of entries, and the assignment of rows of another shape. -/
inductive Fault where
  | reshape
  | assign
deriving DecidableEq

section

variable {α : Type} (b : Backend α) (quantise : (cfg : KVarNConfig) → Tile α → Packed cfg)

/-- `kvarn_config` of a layer. -/
def Backend.config (l : ℕ) : KVarNConfig :=
  ⟨(b.layers l).headSize, b.preset.keyBits, b.preset.valueBits, b.preset.group, b.preset.group_pos⟩

/-- Head `h` of a slot's keys, `[D, group]`. -/
def Backend.kTile (l slot h : ℕ) : List α :=
  (range (b.layers l).headSize).flatMap fun d =>
    (range b.preset.group).map fun g => (b.layers l).tailKPool slot g h d

/-- Head `h` of a slot's values, `[group, D]`. -/
def Backend.vTile (l slot h : ℕ) : List α :=
  (range b.preset.group).flatMap fun g =>
    (range (b.layers l).headSize).map fun d => (b.layers l).tailVPool slot g h d

/-- The keys of a slot, head by head. -/
def Backend.kHeads (l slot : ℕ) : List α :=
  (range (b.layers l).numKvHeads).flatMap (b.kTile l slot)

/-- The values of a slot, head by head. -/
def Backend.vHeads (l slot : ℕ) : List α :=
  (range (b.layers l).numKvHeads).flatMap (b.vTile l slot)

variable (mem : Mem)

/-- One head of a block: `kv_cache[block_id, head]`. -/
def setHead (key : ℕ × ℕ) (h : ℕ) (f : (ℕ → UInt8) → ℕ → UInt8) : Mem :=
  Function.update mem key (Function.update (mem key) h (f (mem key h)))

/-- `_flush_tail`, with the configuration of its layer: a tile without a slot is left alone. -/
def flushTail (p : Pair) : Mem :=
  match (b.layers p.layer).slot p.block with
  | none => mem
  | some slot =>
    (range (b.layers p.layer).numKvHeads).foldl (fun mem h =>
      setHead mem (p.cache, p.block) h (writePacked
        (quantise (b.config p.layer) (b.kTile p.layer slot h, b.vTile p.layer slot h)))) mem

/-- The tiles of one layer: its cache, and its blocks with their slots. -/
structure Entry where
  cache : ℕ
  tiles : List (ℕ × ℕ)

/-- One round of the loop that groups the pairs by layer: the cache is that of the layer's
first pair. -/
def groupPair (byImpl : Dict ℕ Entry) (p : Pair) : Dict ℕ Entry :=
  match (b.layers p.layer).slot p.block with
  | none => byImpl
  | some slot =>
    let e := (byImpl.get? p.layer).getD ⟨p.cache, []⟩
    byImpl.set p.layer { e with tiles := e.tiles ++ [(p.block, slot)] }

/-- `reshape` to `rows` rows of `cols` entries. -/
def reshape (rows cols : ℕ) (flat : List α) : Except Fault (List (List α)) :=
  if flat.length = rows * cols then
    .ok ((range rows).map fun i => (flat.drop (i * cols)).take cols)
  else .error .reshape

/-- `kvc[bid_t] = rec.view(nB, Hk, T)`: whole rows, of the shape of the cache. One head
is broadcast to all heads of the cache. -/
def scatter (numKvHeads bytes cache : ℕ) (bids : List ℕ) (rec : List (List UInt8)) (mem : Mem) :
    Except Fault Mem :=
  if (numKvHeads = (b.rowShape cache).1 ∨ numKvHeads = 1) ∧ bytes = (b.rowShape cache).2 then
    .ok (bids.zipIdx.foldl (fun mem (bid, i) =>
      (range (b.rowShape cache).1).foldl (fun mem h =>
        setHead mem (cache, bid) h fun row =>
          writeSlice row 0 (rec[i * numKvHeads + h % numKvHeads]?.getD [])) mem) mem)
  else .error .assign

/-- One chunk of a layer: gather, reshape and pack with the configuration and the head count
of the layer `first`, scatter. -/
def flushChunk (first l cache : ℕ) (mem : Mem) (chunk : List (ℕ × ℕ)) : Except Fault Mem := do
  let cfg := b.config first
  let numKvHeads := (b.layers first).numKvHeads
  let kTiles ← reshape (chunk.length * numKvHeads) (cfg.headDim * cfg.group)
    (chunk.flatMap fun t => b.kHeads l t.2)
  let vTiles ← reshape (chunk.length * numKvHeads) (cfg.group * cfg.headDim)
    (chunk.flatMap fun t => b.vHeads l t.2)
  scatter b numKvHeads cfg.tileBytesAligned cache (chunk.map Prod.fst)
    ((kTiles.zip vTiles).map fun t => (quantise cfg t).padded) mem

/-- `CHUNK_BLOCKS` -/
def chunkBlocks (numKvHeads : ℕ) : ℕ := max 1 (2048 / max numKvHeads 1)

/-- `range(0, len(bids), CHUNK_BLOCKS)`, as the chunks it cuts. -/
def chunks (size : ℕ) (tiles : List (ℕ × ℕ)) : List (List (ℕ × ℕ)) :=
  (range ((tiles.length + size - 1) / size)).map fun i => (tiles.drop (i * size)).take size

def flushLayer (first : ℕ) (mem : Mem) (e : ℕ × Entry) : Except Fault Mem :=
  (chunks (chunkBlocks (b.layers first).numKvHeads) e.2.tiles).foldlM
    (flushChunk b quantise first e.1 e.2.cache) mem

/-- The loop over `by_impl`. -/
def flushLayers (first : ℕ) (pairs : List Pair) (mem : Mem) : Except Fault Mem :=
  let byImpl := pairs.foldl (groupPair b) empty
  byImpl.entries.foldlM (flushLayer b quantise first) mem

/-- `_batched_flush`: configuration and head count are those of the first pair's layer. -/
def batchedFlush (pairs : List Pair) (mem : Mem) : Except Fault Mem :=
  match pairs with
  | [] => .ok mem
  | first :: _ => flushLayers b quantise first.layer pairs mem

end

/-! ## One tile -/

section Record

variable {cfg : KVarNConfig}
  (p : Packed cfg) (n : ℕ) (cells : ℕ → List UInt8) (block : ℕ → ℕ → UInt8)

theorem Packed.length_record : p.record.length = cfg.tileBytes := by
  simp only [record, length_append, p.length_kPacked, p.length_kSCol, p.length_kZp,
    p.length_kSRow, p.length_vPacked, p.length_vSCol, p.length_vSRow, p.length_vZp,
    tileBytes, kScaleBytes, vScaleBytes]
  ring

theorem Packed.length_padded : p.padded.length = cfg.tileBytesAligned := by
  have hle := cfg.tileBytes_le_aligned
  rw [padded, length_append, length_replicate, p.length_record]
  omega

/-- **The fields are adjacent**: writing them is writing the record. -/
theorem writePacked_eq (flat : ℕ → UInt8) : writePacked p flat = writeSlice flat 0 p.record := by
  simp only [Packed.record, ← writeSlice_append, length_append, p.length_kPacked,
    p.length_kSCol, p.length_kZp, p.length_kSRow, p.length_vPacked, p.length_vSCol,
    p.length_vSRow, Nat.zero_add]
  simp only [writePacked, kPackedOffset, kSColOffset, kZpOffset, kSRowOffset, vPackedOffset,
    vSColOffset, vSRowOffset, vZpOffset, Nat.zero_add]

/-- The heads of a block, each with its own cells. -/
def writeHeads (h : ℕ) : ℕ → UInt8 :=
  if h < n then writeSlice (block h) 0 (cells h) else block h

theorem writeHeads_cover {cells' : ℕ → List UInt8}
    (h : ∀ hd, (cells' hd).length ≤ (cells hd).length) :
    writeHeads n cells (writeHeads n cells' block) = writeHeads n cells block := by
  funext hd
  simp only [writeHeads]
  split
  · exact writeSlice_cover (h hd)
  · rfl

/-- The loop over the heads. -/
theorem foldl_setHead (key : ℕ × ℕ) (mem : Mem) : (range n).foldl
    (fun mem h => setHead mem key h fun row => writeSlice row 0 (cells h)) mem = Function.update mem
    key (writeHeads n cells (mem key)) := by
  induction n with
  | zero =>
    have hnone : writeHeads 0 cells (mem key) = mem key := by
      funext h
      simp [writeHeads]
    rw [hnone, Function.update_eq_self]
    rfl
  | succ n ih =>
    rw [range_succ, foldl_append, ih, foldl_cons, foldl_nil, setHead,
      Function.update_self, Function.update_idem]
    congr 1
    funext h
    by_cases hh : h = n
    · subst hh
      simp [writeHeads]
    · rw [Function.update_of_ne hh]
      simp only [writeHeads]
      by_cases hlt : h < n
      · rw [if_pos hlt, if_pos (by omega)]
      · rw [if_neg hlt, if_neg (by omega)]

end Record

/-! ## Both flushes as writes -/

section Writes

variable {α : Type} (b : Backend α) (quantise : (cfg : KVarNConfig) → Tile α → Packed cfg)

def Pair.key (p : Pair) : ℕ × ℕ := (p.cache, p.block)

namespace Backend

/-- The pairs whose tiles have a slot. -/
def live (pairs : List Pair) : List Pair :=
  pairs.filter fun p => ((b.layers p.layer).slot p.block).isSome

def slotOf (p : Pair) : ℕ := ((b.layers p.layer).slot p.block).getD 0

/-- The tile of a pair, one head. -/
def tile (p : Pair) (h : ℕ) : Tile α :=
  (b.kTile p.layer (b.slotOf p) h, b.vTile p.layer (b.slotOf p) h)

def tiles (p : Pair) : List (Tile α) :=
  (range (b.layers p.layer).numKvHeads).map (b.tile p)

/-- What the batched flush takes for it, cut in the shape of the layer `first`. -/
def batchTile (first : ℕ) (p : Pair) (h : ℕ) : Tile α :=
  let numKvHeads := (b.layers first).numKvHeads
  let cfg := b.config first
  (((b.kHeads p.layer (b.slotOf p)).drop (h % numKvHeads * (cfg.headDim * cfg.group))).take
      (cfg.headDim * cfg.group),
    ((b.vHeads p.layer (b.slotOf p)).drop (h % numKvHeads * (cfg.group * cfg.headDim))).take
      (cfg.group * cfg.headDim))

/-- The shape of the rows of a layer's cache, `get_kv_cache_shape`. -/
def shapeOf (l : ℕ) : ℕ × ℕ := ((b.layers l).numKvHeads, (b.config l).tileBytesAligned)

/-- The tiles of layer `l` can be taken for tiles of layer `first`: they have as many
entries, and the rows fit. -/
structure Fits (first l : ℕ) : Prop where
  entries : (b.layers l).numKvHeads * (b.layers l).headSize =
    (b.layers first).numKvHeads * (b.layers first).headSize
  heads : (b.layers first).numKvHeads = (b.layers l).numKvHeads ∨ (b.layers first).numKvHeads = 1
  bytes : (b.config first).tileBytesAligned = (b.config l).tileBytesAligned

/-- What flushing the pair on its own writes. -/
def updTail (p : Pair) : (ℕ → ℕ → UInt8) → ℕ → ℕ → UInt8 :=
  writeHeads (b.layers p.layer).numKvHeads fun h =>
    (quantise (b.config p.layer) (b.tile p h)).record

/-- What the batched flush writes for it. -/
def updBatch (first : ℕ) (p : Pair) : (ℕ → ℕ → UInt8) → ℕ → ℕ → UInt8 :=
  writeHeads (b.layers p.layer).numKvHeads fun h =>
    (quantise (b.config first) (b.batchTile first p h)).padded

theorem length_kTile (l slot h : ℕ) :
    (b.kTile l slot h).length = (b.layers l).headSize * b.preset.group := by
  simp [kTile, length_flatMap]

theorem length_vTile (l slot h : ℕ) :
    (b.vTile l slot h).length = b.preset.group * (b.layers l).headSize := by
  simp [vTile, length_flatMap]

theorem length_kHeads (l slot : ℕ) : (b.kHeads l slot).length =
    (b.layers l).numKvHeads * ((b.layers l).headSize * b.preset.group) := by
  simp [kHeads, length_flatMap, length_kTile]

theorem length_vHeads (l slot : ℕ) : (b.vHeads l slot).length =
    (b.layers l).numKvHeads * (b.preset.group * (b.layers l).headSize) := by
  simp [vHeads, length_flatMap, length_vTile]

end Backend

/-- The flushes one by one. -/
theorem foldl_flushTail (pairs : List Pair) (mem : Mem) : pairs.foldl (flushTail b quantise) mem =
      writeAll Pair.key (b.updTail quantise) (b.live pairs) mem := by
  induction pairs generalizing mem with
  | nil => rfl
  | cons p pairs ih =>
    rw [foldl_cons, ih]
    cases hslot : (b.layers p.layer).slot p.block with
    | none =>
      have hlive : b.live (p :: pairs) = b.live pairs := by simp [live, hslot]
      rw [hlive, flushTail, hslot]
    | some slot =>
      have hlive : b.live (p :: pairs) = p :: b.live pairs := by simp [live, hslot]
      have hone : flushTail b quantise mem p = writeOne Pair.key (b.updTail quantise) mem p := by
        simp only [flushTail, hslot]
        simp only [funext (writePacked_eq _)]
        rw [foldl_setHead]
        simp [writeOne, updTail, tile, slotOf, hslot, Pair.key]
      rw [hlive, hone]
      rfl

def pairOf (layer cache : ℕ) (t : ℕ × ℕ) : Pair := ⟨layer, t.1, cache⟩

variable {b} {first l cache : ℕ} {chunk : List (ℕ × ℕ)}

/-- One chunk of a layer that fits. -/
theorem flushChunk_eq_ok (hfit : b.Fits first l) (hrow : b.rowShape cache = b.shapeOf l)
    (hslot : ∀ t ∈ chunk, (b.layers l).slot t.1 = some t.2) (mem : Mem) :
    flushChunk b quantise first l cache mem chunk = .ok (chunk.foldl (fun mem t =>
        writeOne Pair.key (b.updBatch quantise first) mem (pairOf l cache t)) mem) := by
  have hk : ∀ t : ℕ × ℕ, (b.kHeads l t.2).length = (b.layers first).numKvHeads *
      ((b.config first).headDim * (b.config first).group) := fun t => by
    rw [length_kHeads, ← Nat.mul_assoc, hfit.entries, Nat.mul_assoc]
    rfl
  have hv : ∀ t : ℕ × ℕ, (b.vHeads l t.2).length = (b.layers first).numKvHeads *
      ((b.config first).group * (b.config first).headDim) := fun t => by
    rw [Nat.mul_comm (b.config first).group, ← hk t, length_vHeads, length_kHeads,
      Nat.mul_comm b.preset.group]
  have hstack {F : ℕ × ℕ → List α} {n m : ℕ} (hF : ∀ t, (F t).length = n * m) :
      (chunk.flatMap F).length = chunk.length * n * m := by
    simp [length_flatMap, hF, Nat.mul_assoc]
  rw [flushChunk, reshape, if_pos (hstack hk), ok_bind, reshape, if_pos (hstack hv), ok_bind,
    zip_map', map_map, scatter, hrow, if_pos ⟨hfit.heads, hfit.bytes⟩]
  congr 1
  rw [zipIdx_map, foldl_map]
  conv_rhs => rw [← zipIdx_map_fst 0 chunk, foldl_map]
  refine foldl_ext _ _ mem fun mem p hp => ?_
  obtain ⟨t, i⟩ := p
  have hget : chunk[i]? = some t := mem_zipIdx_iff_getElem?.1 hp
  have hi : i < chunk.length := (List.getElem?_eq_some_iff.1 hget).1
  dsimp only [Prod.map]
  rw [foldl_setHead]
  simp only [writeOne, updBatch, pairOf, Pair.key, id]
  congr 2
  funext h
  -- head `h` of tile `i` is in row `i * Hk + h % Hk` of the stack
  have hmod : h % (b.layers first).numKvHeads < (b.layers first).numKvHeads :=
    Nat.mod_lt _ (b.layers first).numKvHeads_pos
  have hlt : i * (b.layers first).numKvHeads + h % (b.layers first).numKvHeads <
      chunk.length * (b.layers first).numKvHeads := by
    have hle := Nat.mul_le_mul_right (b.layers first).numKvHeads (Nat.succ_le_of_lt hi)
    rw [Nat.succ_mul] at hle
    omega
  rw [getElem?_map, getElem?_range hlt, Option.map_some, Option.getD_some,
    Function.comp_apply, TiledLoop.take_drop_flatMap_mul hk hget hmod,
    TiledLoop.take_drop_flatMap_mul hv hget hmod]
  simp only [batchTile, slotOf, hslot t (mem_of_getElem? hget), Option.getD_some]

/-- A chunk of a layer that does not fit raises. -/
theorem fits_of_flushChunk {mem mem' : Mem} (hrow : b.rowShape cache = b.shapeOf l)
    (hne : chunk ≠ []) (h : flushChunk b quantise first l cache mem chunk = .ok mem') :
    b.Fits first l := by
  rw [flushChunk] at h
  obtain ⟨kTiles, hk, h⟩ := except_bind_eq_ok.1 h
  obtain ⟨vTiles, -, h⟩ := except_bind_eq_ok.1 h
  unfold reshape at hk
  unfold scatter at h
  split at hk
  next hlen =>
    split at h
    next hassign =>
      rw [hrow] at hassign
      refine ⟨?_, hassign.1, hassign.2⟩
      have hpos := Nat.mul_pos (length_pos_iff.2 hne) b.preset.group_pos
      refine Nat.eq_of_mul_eq_mul_left hpos ?_
      calc chunk.length * b.preset.group * ((b.layers l).numKvHeads * (b.layers l).headSize)
          = chunk.length * ((b.layers l).numKvHeads *
              ((b.layers l).headSize * b.preset.group)) := by ring
        _ = (chunk.flatMap fun t => b.kHeads l t.2).length := by
            simp [length_flatMap, length_kHeads]
        _ = chunk.length * (b.layers first).numKvHeads *
              ((b.layers first).headSize * b.preset.group) := hlen
        _ = _ := by ring
    next => cases h
  next => cases hk

theorem flatten_chunks {n : ℕ} (hn : 0 < n) (tiles : List (ℕ × ℕ)) :
    (chunks n tiles).flatten = tiles := by
  rw [chunks, ← flatMap_def, TiledLoop.flatMap_drop_take, take_of_length_le]
  rw [Nat.mul_comm]
  exact TiledLoop.le_mul_ceilDiv hn

theorem chunkBlocks_pos (numKvHeads : ℕ) : 0 < chunkBlocks numKvHeads :=
  lt_of_lt_of_le Nat.one_pos (le_max_left _ _)

variable {e : ℕ × Entry}

theorem flushLayer_eq_ok (hfit : b.Fits first e.1) (hrow : b.rowShape e.2.cache = b.shapeOf e.1)
    (hslot : ∀ t ∈ e.2.tiles, (b.layers e.1).slot t.1 = some t.2) (mem : Mem) :
    flushLayer b quantise first mem e = .ok (writeAll Pair.key (b.updBatch quantise first)
        (e.2.tiles.map (pairOf e.1 e.2.cache)) mem) := by
  have hflat := flatten_chunks (chunkBlocks_pos (b.layers first).numKvHeads) e.2.tiles
  rw [flushLayer, foldlM_eq_ok fun mem chunk hchunk => flushChunk_eq_ok quantise hfit hrow
    (fun t ht => hslot t ?_) mem]
  · rw [← foldl_flatten, hflat, writeAll, foldl_map]
  · rw [← hflat]
    exact mem_flatten.2 ⟨chunk, hchunk, ht⟩

theorem fits_of_flushLayer {mem mem' : Mem} {t : ℕ × ℕ}
    (hrow : b.rowShape e.2.cache = b.shapeOf e.1) (ht : t ∈ e.2.tiles)
    (h : flushLayer b quantise first mem e = .ok mem') : b.Fits first e.1 := by
  rw [← flatten_chunks (chunkBlocks_pos (b.layers first).numKvHeads) e.2.tiles] at ht
  obtain ⟨chunk, hchunk, ht⟩ := mem_flatten.1 ht
  obtain ⟨_, _, hok⟩ := exists_ok_of_foldlM h hchunk
  exact fits_of_flushChunk quantise hrow (ne_nil_of_mem ht) hok

end Writes

/-! ## Grouping by layer -/

section Group

variable {α : Type} {b : Backend α} {pairs : List Pair}

/-- What the groups of the processed pairs hold. -/
structure Grouped (b : Backend α) (pairs : List Pair) (byImpl : Dict ℕ Entry) : Prop where
  of_get : ∀ layer e, byImpl.get? layer = some e →
    (∃ p ∈ b.live pairs, p.layer = layer ∧ p.cache = e.cache) ∧
    ∀ t ∈ e.tiles, (b.layers layer).slot t.1 = some t.2
  get_of : ∀ p ∈ b.live pairs, ∃ e, byImpl.get? p.layer = some e ∧ (p.block, b.slotOf p) ∈ e.tiles

theorem Grouped.step {byImpl : Dict ℕ Entry} (h : Grouped b pairs byImpl) (p : Pair) :
    Grouped b (pairs ++ [p]) (groupPair b byImpl p) := by
  cases hslot : (b.layers p.layer).slot p.block with
  | none =>
    have hlive : b.live (pairs ++ [p]) = b.live pairs := by simp [live, hslot]
    rw [groupPair, hslot]
    exact ⟨hlive ▸ h.of_get, hlive ▸ h.get_of⟩
  | some s =>
    have hlive : b.live (pairs ++ [p]) = b.live pairs ++ [p] := by simp [live, hslot]
    have hold {P : Pair → Prop} : (∃ q ∈ b.live pairs, P q) → ∃ q ∈ b.live (pairs ++ [p]), P q :=
      fun ⟨q, hq, hP⟩ => ⟨q, hlive ▸ mem_append_left _ hq, hP⟩
    simp only [groupPair, hslot]
    refine ⟨fun layer e he => ?_, fun q hq => ?_⟩
    · rw [get?_set] at he
      split at he
      next hlayer =>
        subst hlayer
        obtain rfl := (Option.some.inj he).symm
        cases hget : byImpl.get? p.layer with
        | none =>
          refine ⟨⟨p, by simp [hlive], rfl, by simp⟩, fun t ht => ?_⟩
          obtain rfl : t = (p.block, s) := by simpa [hget] using ht
          exact hslot
        | some e₀ =>
          obtain ⟨hcache, htiles⟩ := h.of_get p.layer e₀ hget
          refine ⟨hold (by simpa [hget] using hcache), fun t ht => ?_⟩
          have ht' : t ∈ e₀.tiles ∨ t = (p.block, s) := by simpa [hget] using ht
          rcases ht' with ht' | rfl
          · exact htiles t ht'
          · exact hslot
      next => exact ⟨hold (h.of_get layer e he).1, (h.of_get layer e he).2⟩
    · rw [get?_set]
      rw [hlive] at hq
      rcases mem_append.1 hq with hq | hq
      · obtain ⟨e, he, ht⟩ := h.get_of q hq
        by_cases hlayer : q.layer = p.layer
        · rw [if_pos hlayer]
          rw [hlayer] at he
          exact ⟨_, rfl, by simp [he, ht]⟩
        · rw [if_neg hlayer]
          exact ⟨e, he, ht⟩
      · obtain rfl := mem_singleton.1 hq
        rw [if_pos rfl]
        exact ⟨_, rfl, by simp [slotOf, hslot]⟩

theorem grouped_foldl (b : Backend α) (pairs : List Pair) :
    Grouped b pairs (pairs.foldl (groupPair b) empty) := by
  induction pairs using reverseRecOn with
  | nil => exact ⟨by simp, by simp [live]⟩
  | append_singleton pairs p ih =>
    rw [foldl_append]
    exact ih.step p

/-- The writes of the batched flush: layer by layer in the order of the layers' first live
pairs, each to the cache of that pair. -/
def batchedPairs (b : Backend α) (pairs : List Pair) : List Pair :=
  (pairs.foldl (groupPair b) empty).entries.flatMap fun e => e.2.tiles.map (pairOf e.1 e.2.cache)

theorem of_mem_batchedPairs {w : Pair} (hw : w ∈ batchedPairs b pairs) :
    ∃ q ∈ b.live pairs, q.layer = w.layer ∧ q.cache = w.cache := by
  obtain ⟨⟨layer, e⟩, he, hw⟩ := mem_flatMap.1 hw
  obtain ⟨t, -, rfl⟩ := mem_map.1 hw
  exact ((grouped_foldl b pairs).of_get layer e (get?_eq_some_iff.2 he)).1

/-- The first live pair of every layer is written to its own cache. -/
theorem exists_mem_batchedPairs {p : Pair} (hp : p ∈ b.live pairs) :
    ∃ q ∈ b.live pairs, q.layer = p.layer ∧ q ∈ batchedPairs b pairs := by
  have hgroup := grouped_foldl b pairs
  obtain ⟨e, he, -⟩ := hgroup.get_of p hp
  obtain ⟨⟨q, hq, hlayer, hcache⟩, -⟩ := hgroup.of_get p.layer e he
  obtain ⟨e', he', ht⟩ := hgroup.get_of q hq
  rw [hlayer, he, Option.some.injEq] at he'
  subst he'
  refine ⟨q, hq, hlayer, mem_flatMap.2 ⟨(p.layer, e), get?_eq_some_iff.1 he, ?_⟩⟩
  exact mem_map.2 ⟨_, ht, by rw [pairOf, ← hcache, ← hlayer]⟩

end Group

/-! ## The batched flush -/

section Batched

variable {α : Type} {b : Backend α} (quantise : (cfg : KVarNConfig) → Tile α → Packed cfg)
  {first : ℕ} {pairs : List Pair} {mem : Mem} {p q : Pair}

/-- Pairs with caches of their layers' shape, whose tiles can be taken for tiles of the layer
`first`. -/
structure Batchable (b : Backend α) (first : ℕ) (pairs : List Pair) : Prop where
  rows : ∀ p ∈ b.live pairs, b.rowShape p.cache = b.shapeOf p.layer
  fits : ∀ p ∈ b.live pairs, b.Fits first p.layer

/-- **A batched flush that returns takes tiles that fit.** -/
theorem batchable_of_flushLayers {mem' : Mem}
    (hrow : ∀ p ∈ b.live pairs, b.rowShape p.cache = b.shapeOf p.layer)
    (h : flushLayers b quantise first pairs mem = .ok mem') : Batchable b first pairs := by
  refine ⟨hrow, fun p hp => ?_⟩
  have hgroup := grouped_foldl b pairs
  obtain ⟨e, he, ht⟩ := hgroup.get_of p hp
  obtain ⟨⟨q, hq, hlayer, hcache⟩, -⟩ := hgroup.of_get p.layer e he
  obtain ⟨_, _, hok⟩ := exists_ok_of_foldlM h (get?_eq_some_iff.1 he)
  refine fits_of_flushLayer quantise ?_ ht hok
  rw [← hcache, ← hlayer]
  exact hrow q hq

namespace Batchable

variable (h : Batchable b first pairs)

include h

/-- The chunks of all layers. -/
theorem flushLayers_eq_ok (mem : Mem) : flushLayers b quantise first pairs mem =
    .ok (writeAll Pair.key (b.updBatch quantise first) (batchedPairs b pairs) mem) := by
  have hgroup := grouped_foldl b pairs
  rw [flushLayers, batchedPairs]
  generalize pairs.foldl (groupPair b) empty = byImpl at hgroup
  rw [foldlM_eq_ok fun mem e he => flushLayer_eq_ok quantise ?_ ?_ ?_ mem]
  · rw [writeAll, foldl_flatMap]
    rfl
  all_goals
    obtain ⟨⟨q, hq, hlayer, hcache⟩, htiles⟩ := hgroup.of_get e.1 e.2 (get?_eq_some_iff.2 he)
  · rw [← hlayer]
    exact h.fits q hq
  · rw [← hlayer, ← hcache]
    exact h.rows q hq
  · exact htiles

/-- Layers that share a cache have one shape. -/
theorem shape_eq (hp : p ∈ b.live pairs) (hq : q ∈ b.live pairs) (hcache : p.cache = q.cache) :
    (b.layers p.layer).numKvHeads = (b.layers q.layer).numKvHeads ∧
      (b.layers p.layer).headSize = (b.layers q.layer).headSize := by
  have hrow := (h.rows p hp).symm.trans ((congrArg b.rowShape hcache).trans (h.rows q hq))
  have hheads : (b.layers p.layer).numKvHeads = (b.layers q.layer).numKvHeads :=
    congrArg Prod.fst hrow
  refine ⟨hheads, Nat.eq_of_mul_eq_mul_left (b.layers p.layer).numKvHeads_pos ?_⟩
  rw [(h.fits p hp).entries, hheads, (h.fits q hq).entries]

/-- What the flushes one by one leave in a block. -/
theorem flushTails_apply (mem : Mem) (key : ℕ × ℕ) : pairs.foldl (flushTail b quantise) mem key =
      (lastAt Pair.key (b.live pairs) key).elim (mem key) (b.updTail quantise · (mem key)) := by
  rw [foldl_flushTail]
  refine writeAll_apply (fun p hp q hq hkey block => ?_) mem key
  obtain ⟨hheads, hsize⟩ := h.shape_eq hp hq (congrArg Prod.fst hkey)
  have hcfg : b.config q.layer = b.config p.layer := by simp only [config, hsize]
  rw [updTail, updTail, ← hheads]
  refine writeHeads_cover _ _ _ fun hd => ?_
  rw [Packed.length_record, Packed.length_record, hcfg]

/-- What the batched flush leaves in a block. -/
theorem batched_apply (mem : Mem) (key : ℕ × ℕ) :
    writeAll Pair.key (b.updBatch quantise first) (batchedPairs b pairs) mem key =
      (lastAt Pair.key (batchedPairs b pairs) key).elim (mem key)
        (b.updBatch quantise first · (mem key)) := by
  refine writeAll_apply (fun p hp q hq hkey block => ?_) mem key
  obtain ⟨p', hp', hlayer, hcache⟩ := of_mem_batchedPairs hp
  obtain ⟨q', hq', hlayer', hcache'⟩ := of_mem_batchedPairs hq
  have hshape := h.shape_eq hp' hq'
    (hcache.trans ((congrArg Prod.fst hkey).trans hcache'.symm))
  rw [hlayer, hlayer'] at hshape
  rw [updBatch, updBatch, ← hshape.1]
  exact writeHeads_cover _ _ _ fun hd => by rw [Packed.length_padded, Packed.length_padded]

/-- **Flushing one by one changes no byte but those of the records.** -/
theorem flushTails_of_tileBytes_le (mem : Mem) {key : ℕ × ℕ} {hd j : ℕ}
    (hout : ∀ p ∈ b.live pairs, p.key = key → hd < (b.layers p.layer).numKvHeads →
      (b.config p.layer).tileBytes ≤ j) :
    pairs.foldl (flushTail b quantise) mem key hd j = mem key hd j := by
  rw [h.flushTails_apply]
  cases hlast : lastAt Pair.key (b.live pairs) key with
  | none => rfl
  | some w =>
    obtain ⟨hw, rfl⟩ := mem_of_lastAt hlast
    simp only [Option.elim_some, updTail, writeHeads]
    split
    next hlt =>
      have hj := hout w hw rfl hlt
      exact writeSlice_of_length_le (by simpa [Packed.length_record] using hj)
    next => rfl

end Batchable

/-- The batched flush clears the bytes behind a record. -/
theorem updBatch_padding (b : Backend α) {l hd j : ℕ} {w : Pair}
    (hhd : hd < (b.layers w.layer).numKvHeads) (hj : (b.config l).tileBytes ≤ j)
    (hj' : j < (b.config l).tileBytesAligned) (block : ℕ → ℕ → UInt8) :
    b.updBatch quantise l w block hd j = 0 := by
  rw [updBatch, writeHeads, if_pos hhd, Packed.padded, writeSlice_padding]
  · rwa [Packed.length_record]
  · rw [Packed.length_record]
    omega

/-! ## When both agree -/

/-- The tiles that a sequence of writes leaves in a block, one for each head. -/
def tilesAt (b : Backend α) (ps : List Pair) (key : ℕ × ℕ) : List (Tile α) :=
  (lastAt Pair.key ps key).elim [] b.tiles

/-- A layer has the head count and the head size of the layer `first`. -/
def SameShape (b : Backend α) (first l : ℕ) : Prop :=
  (b.layers l).numKvHeads = (b.layers first).numKvHeads ∧
    (b.layers l).headSize = (b.layers first).headSize

/-- Pairs on which the batched flush is right. The layers have the shape of the first one; in
every block the last tiles in the order of the pairs are those of the order by layer; and the
bytes behind the records are zero. -/
structure Regular (b : Backend α) (first : ℕ) (pairs : List Pair) (mem : Mem) : Prop where
  shape : ∀ p ∈ b.live pairs, SameShape b first p.layer
  last : ∀ key, tilesAt b (b.live pairs) key = tilesAt b (batchedPairs b pairs) key
  padding : ∀ p ∈ b.live pairs, ∀ h < (b.layers p.layer).numKvHeads, ∀ j,
    (b.config p.layer).tileBytes ≤ j → j < (b.config p.layer).tileBytesAligned → mem p.key h j = 0

namespace SameShape

variable {f : ℕ}

theorem config_eq (h : SameShape b f p.layer) : b.config p.layer = b.config f := by
  simp only [config, h.2]

theorem fits (h : SameShape b f p.layer) : b.Fits f p.layer :=
  ⟨by rw [h.1, h.2], .inl h.1.symm, by rw [h.config_eq]⟩

/-- Tiles of one shape are cut at their heads. -/
theorem batchTile_eq (h : SameShape b f p.layer) {hd : ℕ} (hhd : hd < (b.layers f).numKvHeads) :
    b.batchTile f p hd = b.tile p hd := by
  have hget : (range (b.layers p.layer).numKvHeads)[hd]? = some hd :=
    getElem?_range (h.1 ▸ hhd)
  have hk := TiledLoop.take_drop_flatMap (b.length_kTile p.layer (b.slotOf p)) hget
  have hv := TiledLoop.take_drop_flatMap (b.length_vTile p.layer (b.slotOf p)) hget
  rw [h.2] at hk hv
  rw [batchTile, Nat.mod_eq_of_lt hhd, tile, ← hk, ← hv]
  rfl

end SameShape

theorem length_tiles (p : Pair) : (b.tiles p).length = (b.layers p.layer).numKvHeads := by
  rw [tiles, length_map, length_range]

theorem tilesAt_eq_nil_iff {ps : List Pair} {key : ℕ × ℕ} :
    tilesAt b ps key = [] ↔ lastAt Pair.key ps key = none := by
  rw [tilesAt]
  cases lastAt Pair.key ps key with
  | none => simp
  | some w =>
    have hpos := (b.layers w.layer).numKvHeads_pos
    simp [← length_eq_zero_iff, length_tiles]
    omega

namespace Regular

variable (h : Regular b first pairs mem)

include h

/-- The last writes of both flushes leave the same bytes. -/
theorem updTail_eq (hp : p ∈ b.live pairs) (hq : SameShape b first q.layer)
    (htiles : b.tiles p = b.tiles q) :
    b.updTail quantise p (mem p.key) = b.updBatch quantise first q (mem p.key) := by
  have hshape := h.shape p hp
  funext hd
  simp only [updTail, updBatch, writeHeads, hshape.1, hq.1]
  split
  next hhd =>
    have htile : b.tile p hd = b.tile q hd := by
      have hget := congrArg (·[hd]?) htiles
      simpa [tiles, hshape.1, hq.1, hhd] using hget
    rw [hq.batchTile_eq hhd, ← htile, ← hshape.config_eq]
    refine (writeSlice_append_replicate fun j hj hj' => ?_).symm
    rw [Packed.length_record] at hj hj'
    have hle := (b.config p.layer).tileBytes_le_aligned
    exact h.padding p hp hd (hshape.1 ▸ hhd) j hj (by omega)
  next => rfl

theorem flushLayers_eq (hbatch : Batchable b first pairs) :
    flushLayers b quantise first pairs mem = .ok (pairs.foldl (flushTail b quantise) mem) := by
  rw [hbatch.flushLayers_eq_ok]
  congr 1
  funext key
  rw [hbatch.batched_apply, hbatch.flushTails_apply]
  have hlast := h.last key
  cases htail : lastAt Pair.key (b.live pairs) key with
  | none =>
    rw [tilesAt_eq_nil_iff.1 (hlast.symm.trans (tilesAt_eq_nil_iff.2 htail))]
    rfl
  | some w =>
    cases hbat : lastAt Pair.key (batchedPairs b pairs) key with
    | none =>
      rw [tilesAt_eq_nil_iff.1 (hlast.trans (tilesAt_eq_nil_iff.2 hbat))] at htail
      cases htail
    | some w' =>
      obtain ⟨hw, rfl⟩ := mem_of_lastAt htail
      obtain ⟨q, hq, hlayer, -⟩ := of_mem_batchedPairs (mem_of_lastAt hbat).1
      simp only [tilesAt, htail, hbat, Option.elim_some] at hlast
      exact (h.updTail_eq quantise hw (hlayer ▸ h.shape q hq) hlast).symm

end Regular

/-! ## Quantisers that tell tiles apart -/

theorem Packed.record_fill (cfg : KVarNConfig) (x : UInt8) :
    (Packed.fill cfg x).record = replicate cfg.tileBytes x := by
  refine eq_replicate_iff.2 ⟨Packed.length_record _, fun y hy => ?_⟩
  simp only [record, fill, mem_append, mem_replicate] at hy
  tauto

theorem writeSlice_fill (cfg : KVarNConfig) (x : UInt8) (row : ℕ → UInt8) (cells : List UInt8) :
    writeSlice row 0 ((Packed.fill cfg x).record ++ cells) 0 = x := by
  have hpos : 0 < cfg.tileBytes := by
    have hgroup := cfg.group_pos
    unfold tileBytes kScaleBytes
    omega
  rw [Packed.record_fill, writeSlice, if_pos le_rfl, getElem?_append_left (by simpa using hpos)]
  simp [hpos]

/-- A quantiser that fills a tile's record with one byte. -/
def filling (f : KVarNConfig → Tile α → UInt8) (cfg : KVarNConfig) (t : Tile α) : Packed cfg :=
  Packed.fill cfg (f cfg t)

theorem updTail_filling (f : KVarNConfig → Tile α → UInt8) (w : Pair) {hd : ℕ}
    (hhd : hd < (b.layers w.layer).numKvHeads) (block : ℕ → ℕ → UInt8) :
    b.updTail (filling f) w block hd 0 = f (b.config w.layer) (b.tile w hd) := by
  have hfill :=
    writeSlice_fill (b.config w.layer) (f (b.config w.layer) (b.tile w hd)) (block hd) []
  rw [append_nil] at hfill
  rw [updTail, writeHeads, if_pos hhd, filling, hfill]

theorem updBatch_filling (f : KVarNConfig → Tile α → UInt8) (l : ℕ) (w : Pair) {hd : ℕ}
    (hhd : hd < (b.layers w.layer).numKvHeads) (block : ℕ → ℕ → UInt8) :
    b.updBatch (filling f) l w block hd 0 = f (b.config l) (b.batchTile l w hd) := by
  rw [updBatch, writeHeads, if_pos hhd, filling, Packed.padded, writeSlice_fill]

namespace Batchable

variable (h : Batchable b first pairs) (heq : ∀ f, flushLayers b (filling f) first pairs mem =
  .ok (pairs.foldl (flushTail b (filling f)) mem))

include h heq

/-- What both flushes leave in a block, for a quantiser that fills. -/
theorem last_eq (f : KVarNConfig → Tile α → UInt8) (key : ℕ × ℕ) :
    (lastAt Pair.key (b.live pairs) key).elim (mem key) (b.updTail (filling f) · (mem key)) =
      (lastAt Pair.key (batchedPairs b pairs) key).elim (mem key)
        (b.updBatch (filling f) first · (mem key)) := by
  rw [← h.flushTails_apply, ← h.batched_apply]
  have hok := heq f
  rw [h.flushLayers_eq_ok] at hok
  exact congrFun (Except.ok.inj hok).symm key

/-- Tiles of another shape are never cut right. -/
theorem sameShape (hp : p ∈ b.live pairs) : SameShape b first p.layer := by
  have hfit := h.fits p hp
  rcases hfit.heads with hheads | hone
  · refine ⟨hheads.symm, Nat.eq_of_mul_eq_mul_left (b.layers first).numKvHeads_pos ?_⟩
    rw [← hfit.entries, hheads]
  -- the first layer has one head, which is broadcast
  obtain ⟨q, hq, hlayer, hqb⟩ := exists_mem_batchedPairs hp
  obtain ⟨w, hw⟩ := exists_lastAt Pair.key hq
  obtain ⟨w', hw'⟩ := exists_lastAt Pair.key hqb
  have hbyte := congrFun₂ (h.last_eq heq
    (fun cfg _ => if cfg.headDim = (b.layers first).headSize then 1 else 0) q.key) 0 0
  rw [hw, hw', Option.elim_some, Option.elim_some,
    updTail_filling _ w (b.layers w.layer).numKvHeads_pos,
    updBatch_filling _ _ w' (b.layers w'.layer).numKvHeads_pos] at hbyte
  have hsize : (b.layers w.layer).headSize = (b.layers first).headSize := by
    by_contra hne
    simp [config, hne] at hbyte
  obtain ⟨hmem, hkey⟩ := mem_of_lastAt hw
  obtain ⟨-, hsize'⟩ := h.shape_eq hmem hq (congrArg Prod.fst hkey)
  rw [hlayer] at hsize'
  have hentries := hfit.entries
  rw [← hsize', hsize] at hentries
  exact ⟨Nat.eq_of_mul_eq_mul_right (b.layers first).headSize_pos hentries, hsize'.symm.trans hsize⟩

theorem tilesAt_eq (key : ℕ × ℕ) :
    tilesAt b (b.live pairs) key = tilesAt b (batchedPairs b pairs) key := by
  classical
  -- a byte that is not there tells a written block from another one
  have hmark := congrFun₂ (h.last_eq heq (fun _ _ => if mem key 0 0 = 0 then 1 else 0) key) 0 0
  have hne : (if mem key 0 0 = 0 then (1 : UInt8) else 0) ≠ mem key 0 0 := by
    split
    next hzero => simp [hzero]
    next hzero => exact fun heq => hzero heq.symm
  unfold tilesAt
  cases htail : lastAt Pair.key (b.live pairs) key with
  | none =>
    cases hbat : lastAt Pair.key (batchedPairs b pairs) key with
    | none => rfl
    | some w' =>
      rw [htail, hbat, Option.elim_none, Option.elim_some,
        updBatch_filling _ _ w' (b.layers w'.layer).numKvHeads_pos] at hmark
      exact absurd hmark.symm hne
  | some w =>
    cases hbat : lastAt Pair.key (batchedPairs b pairs) key with
    | none =>
      rw [htail, hbat, Option.elim_none, Option.elim_some,
        updTail_filling _ w (b.layers w.layer).numKvHeads_pos] at hmark
      exact absurd hmark hne
    | some w' =>
      obtain ⟨q, hq, hlayer, -⟩ := of_mem_batchedPairs (mem_of_lastAt hbat).1
      have hshape := h.sameShape heq (mem_of_lastAt htail).1
      have hshape' : SameShape b first w'.layer := hlayer ▸ h.sameShape heq hq
      rw [Option.elim_some, Option.elim_some, tiles, tiles, hshape.1, hshape'.1]
      refine map_congr_left fun hd hhd => ?_
      have hlt := mem_range.1 hhd
      have hbyte := congrFun₂ (h.last_eq heq
        (fun _ t => if t = b.tile w hd then 1 else 0) key) hd 0
      rw [htail, hbat, Option.elim_some, Option.elim_some,
        updTail_filling _ w (hshape.1 ▸ hlt), updBatch_filling _ _ w' (hshape'.1 ▸ hlt),
        hshape'.batchTile_eq hlt, if_pos rfl] at hbyte
      by_contra hdiff
      rw [if_neg (Ne.symm hdiff)] at hbyte
      exact absurd hbyte (by decide)

theorem regular : Regular b first pairs mem where
  shape := fun p hp => h.sameShape heq hp
  last := h.tilesAt_eq heq
  padding := by
    intro p hp hd hhd j hj hj'
    obtain ⟨w, hw⟩ := exists_lastAt Pair.key hp
    obtain ⟨w', hw'⟩ : ∃ w', lastAt Pair.key (batchedPairs b pairs) p.key = some w' := by
      refine Option.ne_none_iff_exists'.1 fun hnone => ?_
      have hnil := (h.tilesAt_eq heq p.key).trans (tilesAt_eq_nil_iff.2 hnone)
      simp [tilesAt_eq_nil_iff.1 hnil] at hw
    obtain ⟨q, hq, hlayer, -⟩ := of_mem_batchedPairs (mem_of_lastAt hw').1
    have hshape := h.sameShape heq hp
    have hshape' : SameShape b first w'.layer := hlayer ▸ h.sameShape heq hq
    rw [hshape.config_eq] at hj hj'
    have hbyte := congrFun₂ (h.last_eq heq (fun _ _ => 0) p.key) hd j
    rw [← h.flushTails_apply, h.flushTails_of_tileBytes_le _ mem ?_, hw', Option.elim_some,
      updBatch_padding _ b (by rwa [hshape'.1, ← hshape.1]) hj hj'] at hbyte
    · exact hbyte
    · intro q' hq' _ _
      rwa [(h.sameShape heq hq').config_eq]

end Batchable

end Batched

/-- The layer of the first pair. -/
def firstLayer (pairs : List Pair) : ℕ := (pairs.head?.map Pair.layer).getD 0

theorem batchedFlush_eq {α : Type} (b : Backend α)
    (quantise : (cfg : KVarNConfig) → Tile α → Packed cfg) (pairs : List Pair) (mem : Mem) :
    batchedFlush b quantise pairs mem = flushLayers b quantise (firstLayer pairs) pairs mem := by
  cases pairs with
  | nil => rfl
  | cons first rest => rfl

/-- **When the batched flush is the flushes one by one.** For pairs with caches of their
layers' shape, it returns what these leave, whatever the quantiser, and changes no byte but
those of the records, exactly if the pairs are regular. -/
theorem batchedFlush_eq_flushTails_iff {α : Type} (b : Backend α) (pairs : List Pair) (mem : Mem)
    (hrow : ∀ p ∈ b.live pairs, b.rowShape p.cache = b.shapeOf p.layer) :
    (∀ quantise, batchedFlush b quantise pairs mem = .ok (pairs.foldl (flushTail b quantise) mem) ∧
      ∀ key hd j, (∀ p ∈ b.live pairs, p.key = key →
        hd < (b.layers p.layer).numKvHeads → (b.config p.layer).tileBytes ≤ j) →
        pairs.foldl (flushTail b quantise) mem key hd j = mem key hd j) ↔
      Regular b (firstLayer pairs) pairs mem := by
  simp only [batchedFlush_eq]
  constructor
  · intro halike
    have hbatch := batchable_of_flushLayers _ hrow (halike (filling fun _ _ => 0)).1
    exact hbatch.regular fun f => (halike (filling f)).1
  · intro hregular quantise
    have hbatch : Batchable b (firstLayer pairs) pairs :=
      ⟨hrow, fun p hp => (hregular.shape p hp).fits⟩
    exact ⟨hregular.flushLayers_eq quantise hbatch,
      fun key hd j hout => hbatch.flushTails_of_tileBytes_le quantise mem hout⟩

/-! ## Two layers -/

namespace Small

theorem group_pos : 0 < 128 := by decide

/-- Tiles of 128 tokens, four bits for keys and two for values. Blocks 0 and 1 have slots;
the entries of a pool are the number of the layer. -/
def backend (heads size : ℕ → ℕ) (hheads : ∀ l, 0 < heads l) (hsize : ∀ l, 0 < size l) :
    Backend UInt8 where
  preset := ⟨4, 2, 128, group_pos⟩
  layers l := ⟨heads l, size l, hheads l, hsize l, fun bid => if bid < 2 then some bid else none,
    fun _ _ _ _ => UInt8.ofNat l, fun _ _ _ _ => UInt8.ofNat l⟩
  rowShape c := (heads c, tileBytesAligned ⟨size c, 4, 2, 128, group_pos⟩)

theorem heads_pos (l : ℕ) : 0 < 2 * (l + 1) := Nat.mul_pos Nat.two_pos l.succ_pos

/-- Layers of one shape. -/
def uniform (size : ℕ) (hsize : 0 < size) : Backend UInt8 :=
  backend (fun _ => 2) (fun _ => size) (fun _ => by decide) (fun _ => hsize)

/-- Two blocks of layer 0, then block 0 of layer 1 twice and a block without a slot, all to
one cache. -/
def pairs : List Pair := [⟨0, 0, 0⟩, ⟨0, 1, 0⟩, ⟨1, 0, 0⟩, ⟨1, 5, 0⟩, ⟨1, 0, 0⟩]

/-- Records filled with the number of the layer. -/
def byLayer : (cfg : KVarNConfig) → Tile UInt8 → Packed cfg := filling fun _ t => t.1.headD 0

theorem batchable (size : ℕ) (hsize : 0 < size) (pairs : List Pair) :
    Batchable (uniform size hsize) (firstLayer pairs) pairs :=
  ⟨fun _ _ => rfl, fun _ _ => ⟨rfl, .inl rfl, rfl⟩⟩

end Small

open KVarN.Flush.Small

/-- Two layers of two heads, flushed layer by layer to one cache. -/
theorem batchedFlush_eq_flushTails_small :
    batchedFlush (uniform 128 (by decide)) byLayer pairs (fun _ _ _ => 7) =
      .ok (pairs.foldl (flushTail (uniform 128 (by decide)) byLayer) fun _ _ _ => 7) :=
  ((batchedFlush_eq_flushTails_iff (uniform 128 (by decide)) pairs (fun _ _ _ => 7)
    fun _ _ => rfl).2
    { shape := fun _ _ => ⟨rfl, rfl⟩
      last := fun key => by
        have horder : batchedPairs (uniform 128 (by decide)) pairs =
            (uniform 128 (by decide)).live pairs := by decide +kernel
        rw [horder]
      padding := fun p _ h _ j hj hj' => absurd (hj.trans_lt hj')
        (by decide : ¬ tileBytes ⟨128, 4, 2, 128, group_pos⟩ <
          tileBytesAligned ⟨128, 4, 2, 128, group_pos⟩) } byLayer).1

/-- **The batched flush is not the flushes one by one.** It raises when a later layer has
another head count than the first one. With `head_dim` 256 it clears the bytes behind a record.
A layer that is flushed to two caches is written to the first one only. -/
theorem batchedFlush_ne_flushTails :
    (∀ mem, batchedFlush (backend (fun l => 2 * (l + 1)) (fun _ => 128) heads_pos fun _ => by decide)
      byLayer [⟨0, 0, 0⟩, ⟨1, 0, 1⟩] (fun _ _ _ => 7) ≠ .ok mem) ∧
    (((batchedFlush (uniform 256 (by decide)) byLayer [⟨0, 0, 0⟩]
        fun _ _ _ => 7).toOption.map fun mem => mem (0, 0) 0 32767) = some 0 ∧
      [⟨0, 0, 0⟩].foldl (flushTail (uniform 256 (by decide)) byLayer) (fun _ _ _ => 7)
        (0, 0) 0 32767 = 7) ∧
    ((batchedFlush (uniform 128 (by decide)) byLayer [⟨0, 0, 0⟩, ⟨0, 0, 1⟩]
        fun _ _ _ => 7).toOption.map fun mem => mem (1, 0) 0 0) = some 7 ∧
      [⟨0, 0, 0⟩, ⟨0, 0, 1⟩].foldl (flushTail (uniform 128 (by decide)) byLayer)
        (fun _ _ _ => 7) (1, 0) 0 0 = 0 := by
  have hbatch (size : ℕ) (hsize : 0 < size) (pairs : List Pair) (key : ℕ × ℕ) (hd j : ℕ) :
      ((batchedFlush (uniform size hsize) byLayer pairs
        fun _ _ _ => 7).toOption.map fun mem => mem key hd j) =
      some ((lastAt Pair.key (batchedPairs (uniform size hsize) pairs) key).elim (fun _ _ => 7)
        ((uniform size hsize).updBatch byLayer (firstLayer pairs) · fun _ _ => 7) hd j) := by
    rw [batchedFlush_eq, (batchable size hsize pairs).flushLayers_eq_ok, Except.toOption,
      Option.map_some, (batchable size hsize pairs).batched_apply]
  refine ⟨fun mem hok => ?_, ⟨?_, ?_⟩, ?_, ?_⟩
  · rw [batchedFlush_eq] at hok
    have hfit := (batchable_of_flushLayers _ (by decide +kernel) hok).fits ⟨1, 0, 1⟩ (by decide)
    exact absurd hfit.entries (by decide)
  · rw [hbatch, show lastAt Pair.key (batchedPairs (uniform 256 _) _) _ = some ⟨0, 0, 0⟩ from by
      decide +kernel, Option.elim_some, updBatch_padding _ _ (by decide) (by decide) (by decide)]
  · exact (batchable 256 (by decide) _).flushTails_of_tileBytes_le _ _ fun _ _ _ _ =>
      (by decide : tileBytes ⟨256, 4, 2, 128, group_pos⟩ ≤ 32767)
  · rw [hbatch, show lastAt Pair.key (batchedPairs (uniform 128 _) _) _ = none from by
      decide +kernel, Option.elim_none]
  · rw [(batchable 128 (by decide) _).flushTails_apply, show lastAt Pair.key _ _ =
      some ⟨0, 0, 1⟩ from by decide +kernel, Option.elim_some, byLayer,
      updTail_filling _ _ (by decide)]
    decide +kernel

end KVarN.Flush
