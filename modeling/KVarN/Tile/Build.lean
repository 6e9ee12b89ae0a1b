import KVarN.Tile.State

/-!
# The tile lifecycle of one build

`KVarNMetadataBuilder.build` runs once per engine step, and once per draft step
with `fast_build`. Before the step's tokens are written it decides which tiles
hold a pool slot: it marks sinks, un-retires, walks each row back from its
committed boundary to flush full tiles, reclaims what no request of the batch
needs, and allocates slots for the tiles the step writes, evicting retired sinks
when the pool runs dry.

Each stage is a definition of its own. `build` composes them and returns the new
allocator state, the tiles handed to `_batched_flush` with the slot each was
copied from, and the exception, if one was raised.

## Main definitions

* `AttnMetadata`, `BatchRow` — the part of the batch metadata that `build` reads.
* `AttnMetadata.tileWrites` — the assignments to `_block_fill`, in loop order.
* `mark`, `walkBack`, `reclaim`, `allocate` — the stages.
* `build`, `BuildResult`.
-/

namespace KVarN.Tile

open KVarN.Lib

/-- The exceptions a build can raise. -/
inductive BuildError
  /-- A walk-back position past the width of the block table. -/
  | indexError
  /-- `RuntimeError("KVarN pool exhausted …")`. -/
  | poolExhausted
  deriving DecidableEq, Repr

/-- What `build` reads of `CommonAttentionMetadata`. The block table is
rectangular; unallocated entries are negative. -/
structure AttnMetadata where
  seqLens : List ℕ
  queryStartLoc : Option (List ℤ)
  blockTable : List (List ℤ)
  btCols : ℕ
  slotMapping : List ℤ
  rect : ∀ row ∈ blockTable, row.length = btCols

/-- One row of the batch, as the loops of `build` see it. -/
structure BatchRow where
  seqLen : ℕ
  queryLen : ℤ
  table : List ℤ

/-- `max(sl - q_len, 0)`: the tokens written before this step. -/
def BatchRow.committed (r : BatchRow) : ℕ := ((r.seqLen : ℤ) - r.queryLen).toNat

/-- The tile row of tile `t`, in the vLLM block `vbid`. -/
def Config.tileRow (cfg : Config) (vbid : ℤ) (t : ℕ) : ℕ :=
  vbid.toNat * cfg.tpr + t % cfg.tpr

namespace AttnMetadata

/-- `query_lens_cpu`. -/
def queryLens (cam : AttnMetadata) : List ℤ :=
  match cam.queryStartLoc with
  | some qsl => List.zipWith (fun a b => b - a) qsl qsl.tail
  | none => List.replicate cam.seqLens.length 1

/-- The rows `b < min(B, bt_rows)`; a missing query length counts as `1`. -/
def rows (cam : AttnMetadata) : List BatchRow :=
  (cam.seqLens.zip cam.blockTable).zipIdx.map fun p =>
    ⟨p.1.1, cam.queryLens.getD p.2 1, p.1.2⟩

end AttnMetadata

/-! ## Tiles written by the step -/

/-- The tiles of a row that receive tokens in this step. -/
def BatchRow.writtenIdx (cfg : Config) (btCols : ℕ) (r : BatchRow) : List ℕ :=
  if btCols = 0 ∨ r.seqLen = 0 then []
  else
    List.range' (r.committed / cfg.group)
      (min ((r.seqLen + cfg.group - 1) / cfg.group) (btCols * cfg.tpr) - r.committed / cfg.group)

/-- The tile row of tile `t` of a block-table row, if its block is allocated. -/
def rowTile (cfg : Config) (table : List ℤ) (t : ℕ) : Option ℕ :=
  match table[t / cfg.tpr]? with
  | some vbid => if vbid < 0 then none else some (cfg.tileRow vbid t)
  | none => none

/-- The assignment `_block_fill[tr] = …` for one written tile, unless its block is
unallocated. -/
def BatchRow.tileWrite (cfg : Config) (r : BatchRow) (t : ℕ) : Option (ℕ × ℕ) :=
  (rowTile cfg r.table t).map fun tr =>
    (tr, min r.seqLen ((t + 1) * cfg.group) - t * cfg.group)

namespace AttnMetadata

variable (cfg : Config) (cam : AttnMetadata)

/-- All assignments to `_block_fill`, in loop order. -/
def tileWrites : List (ℕ × ℕ) :=
  cam.rows.flatMap fun r => (r.writtenIdx cfg cam.btCols).filterMap (r.tileWrite cfg)

/-- The tiles named by the slot mapping. -/
def slotTiles : List ℕ :=
  (cam.slotMapping.filter (0 ≤ ·)).map fun s : ℤ => (s / (cfg.group : ℤ)).toNat

/-- `blocks_needed` before the sinks are marked. -/
def written : List ℕ :=
  ((cam.tileWrites cfg).map Prod.fst ++ cam.slotTiles cfg).foldl (fun acc b => acc.insert b) []

/-- `_block_fill` after the loop over the written tiles. -/
def recordFill (fill : Dict ℕ ℕ) : Dict ℕ ℕ :=
  (cam.tileWrites cfg).foldl (fun f w => f.set w.1 w.2) fill

/-- `row0_set`: the first tile of every row whose first block is allocated. -/
def firstTiles : List ℕ :=
  cam.rows.filterMap fun r =>
    match r.table.head? with
    | none => none
    | some v => if v < 0 then none else some (v.toNat * cfg.tpr)

end AttnMetadata

/-! ## Marking and un-retiring -/

/-- The allocator and `blocks_needed` while `build` runs. -/
structure Marked where
  state : GroupState
  needed : List ℕ

/-- One row of the marking loop: a sink stays needed, a first tile written in
this step becomes a sink. -/
def markSink (m : Marked) (s0 : ℕ) : Marked :=
  if s0 ∈ m.state.sinks then { m with needed := m.needed.insert s0 }
  else if s0 ∈ m.needed then { m with state := m.state.addSink s0 }
  else m

/-- Un-retire one needed tile. A tile that is no request's first tile sheds its
sink label. -/
def unretire (row0 : List ℕ) (s : GroupState) (bid : ℕ) : GroupState :=
  if bid ∉ row0 ∧ bid ∈ s.sinks then
    GroupState.dropSink { s with retiredSinks := s.retiredSinks.pop bid } bid
  else { s with retiredSinks := s.retiredSinks.pop bid }

section Mark

variable (cfg : Config) (cam : AttnMetadata)

/-- The state in which the marking starts: fill counts recorded, lookup tensors
large enough for every written tile. -/
def prepare (s : GroupState) : Marked where
  state := ({ s with blockFill := cam.recordFill cfg s.blockFill } : GroupState).ensurePool
    ((cam.written cfg).foldl max 0 + 1)
  needed := cam.written cfg

/-- The state after the marking loop. -/
def markSinks (s : GroupState) : Marked :=
  (cam.firstTiles cfg).foldl markSink (prepare cfg cam s)

/-- Stage (1): mark sinks, then un-retire what the batch needs. -/
def mark (s : GroupState) : Marked :=
  let m := markSinks cfg cam s
  { m with
    state := (m.state.retiredSinks.keys.filter (· ∈ m.needed)).foldl
      (unretire (cam.firstTiles cfg)) m.state }

end Mark

/-! ## Flush detection and reclaim -/

/-- The walk-back of one row from tile `t` down to tile `1`, extending the flush
list. It stops at an unallocated, queued, sink or slotless tile. -/
def walkRow (cfg : Config) (s : GroupState) (table : List ℤ) :
    ℕ → List ℕ → Except BuildError (List ℕ)
  | 0, flush => .ok flush
  | t + 1, flush =>
    match table[(t + 1) / cfg.tpr]? with
    | none => .error .indexError
    | some vbid =>
      if vbid < 0 then .ok flush
      else if cfg.tileRow vbid (t + 1) ∈ flush ∨ cfg.tileRow vbid (t + 1) ∈ s.sinks ∨
          cfg.tileRow vbid (t + 1) ∉ s.blockToSlot then .ok flush
      else walkRow cfg s table t (flush ++ [cfg.tileRow vbid (t + 1)])

/-- Stage (2): walk every row back from its committed boundary. -/
def walkBack (cfg : Config) (s : GroupState) :
    List BatchRow → List ℕ → Except BuildError (List ℕ)
  | [], flush => .ok flush
  | r :: rows, flush =>
    if r.seqLen = 0 ∨ r.table = [] then walkBack cfg s rows flush
    else
      match walkRow cfg s r.table (r.committed / cfg.group - 1) flush with
      | .error e => .error e
      | .ok flush' => walkBack cfg s rows flush'

/-- The sorting of slot-holding tiles into flushed, discarded and retired ones. -/
structure Reclaim where
  state : GroupState
  flush : List ℕ
  discard : List ℕ

variable (cfg : Config) (s : GroupState) (r : Reclaim) (bid : ℕ) (fastBuild : Bool)
  (cam : AttnMetadata) (m : Marked)

/-- `_block_fill.get(bid, 0) >= GROUP`. -/
def GroupState.Full : Prop :=
  cfg.group ≤ (s.blockFill.get? bid).getD 0
  deriving Decidable

def reclaimTile : Reclaim :=
  if r.state.Full cfg bid then
    if bid ∈ r.state.sinks then
      { r with state := { r.state with retiredSinks := r.state.retiredSinks.set bid () } }
    else { r with flush := r.flush ++ [bid] }
  else
    { r with
      discard := r.discard ++ [bid]
      state := if bid ∈ r.state.sinks then r.state.dropSink bid else r.state }

/-- Stage (2b): reclaim the slot-holding tiles neither needed nor queued. -/
def reclaim (flush : List ℕ) : Reclaim :=
  (m.state.blockToSlot.keys.filter fun b => b ∉ m.needed ∧ b ∉ flush).foldl
    (reclaimTile cfg) ⟨m.state, flush, []⟩

/-- The lifecycle stages, which a draft build skips under `KVARN_MTP_FIX=full`. -/
def lifecycle : Except BuildError Reclaim :=
  if fastBuild = true ∧ cfg.mtpFix = .full then .ok ⟨m.state, [], []⟩
  else
    match walkBack cfg m.state cam.rows [] with
    | .error e => .error e
    | .ok flush => .ok (reclaim cfg m flush)

/-! ## Allocation -/

/-- The tiles of a flush with the slot each is copied from. -/
def copies (bids : List ℕ) : List (ℕ × ℕ) :=
  bids.filterMap fun b => (s.blockToSlot.get? b).map fun slot => (b, slot)

/-- Free the slots of the flushed and the discarded tiles. -/
def Reclaim.freed : GroupState :=
  (r.flush ++ r.discard).foldl GroupState.release r.state

/-- What a build leaves: the allocator, the batch's needed tiles, the tiles given
to `_batched_flush` with the slots they were copied from, and the exception. -/
structure BuildResult where
  state : GroupState
  needed : List ℕ
  flushed : List (ℕ × ℕ)
  error : Option BuildError

/-- The oldest retired sink, when a slot has to be made free by evicting it. -/
def evictee : Option ℕ :=
  if s.freeSlots = [] then s.retiredSinks.keys.head? else none

/-- Evict the oldest retired sink if no slot is free. -/
def makeRoom : GroupState :=
  match evictee s with
  | some old => s.evict old
  | none => s

/-- Stage (3): allocate a slot for every needed tile that has none. -/
def allocate (needed : List ℕ) : List ℕ → GroupState → List (ℕ × ℕ) → BuildResult
  | [], s, fl => ⟨s, needed, fl, none⟩
  | bid :: rest, s, fl =>
    if bid ∈ s.blockToSlot then allocate needed rest s fl
    else
      match (makeRoom s).take bid with
      | none => ⟨makeRoom s, needed, fl ++ copies s (evictee s).toList, some .poolExhausted⟩
      | some s' => allocate needed rest s' (fl ++ copies s (evictee s).toList)

/-! ## The build -/

/-- The order in which Python iterates over a set: some order of its elements. -/
structure SetOrder where
  order : List ℕ → List ℕ
  perm : ∀ l, (order l).Perm l

/-- The order of insertion, one of the possible ones. -/
def SetOrder.insertion : SetOrder := ⟨id, fun _ => List.Perm.refl _⟩

/-- `KVarNMetadataBuilder.build`, as far as the tile lifecycle goes. -/
def build (ord : SetOrder) (cam : AttnMetadata) (s : GroupState) : BuildResult :=
  match lifecycle cfg fastBuild cam (mark cfg cam s) with
  | .error e => ⟨(mark cfg cam s).state, (mark cfg cam s).needed, [], some e⟩
  | .ok r =>
    allocate (mark cfg cam s).needed (ord.order (mark cfg cam s).needed) r.freed
      (copies r.state r.flush)

end KVarN.Tile
