import KVarN.Tile.Fate

/-!
# The engine around the pool

A step of the engine is a build, then the writes of `do_kv_cache_update`, then the
attention kernels. This module models the data that flows through them: the fp16
pool, the int4 records, and the requests whose tokens they hold.

Between two steps each live request is settled: some of the tokens the last step
wrote are accepted, the others are rejected and will be overwritten. A batch
continues live requests from their accepted length, and admits new ones on whole
vLLM blocks adopted from the prefix cache. A block may be adopted once its tokens
are written and accepted; `Plan.Valid` also admits the adoption of a block that
another request of the same batch completes in this very step, which the
scheduler allows, and batches that leave live requests out.

Quantisation is an arbitrary function of the slot contents. The field `stamp` of
the memory and the field `epoch` of the engine are history variables: which
assignment of its block a tile position was last written under.

## Main definitions

* `Req`, `Done`, `Sched`, `Plan` — requests, cached blocks, a step's batch.
* `Plan.Valid` — what the scheduler guarantees of a plan.
* `Memory`, `batchedFlush`, `scatterStore`, `select` — the data path.
* `Engine.step`, `Reach` — one step, and the states runs reach.
-/

namespace KVarN.Tile


variable {V R : Type}

/-! ## Requests and plans -/

/-- A live request between two steps. -/
structure Req (V : Type) where
  /-- Its vLLM blocks. -/
  row : List ℕ
  /-- The tokens that can no longer be rejected. -/
  sure : ℕ
  /-- The KV value of every token written for it. -/
  vals : List V
  deriving DecidableEq

/-- The request once its first `acc` tokens are accepted and the rest is rejected. -/
def Req.settle (r : Req V) (acc : ℕ) : Req V := ⟨r.row, acc, r.vals.take acc⟩

/-- A vLLM block whose tokens are all written and accepted: the prefix cache may
hand it to any request, at the same index. -/
structure Done (V : Type) where
  block : ℕ
  index : ℕ
  vals : List V
  deriving DecidableEq

/-- The `i`-th stretch of `n` values. -/
def slice (n : ℕ) (l : List V) (i : ℕ) : List V := (l.drop (i * n)).take n

/-- The complete blocks of a settled request. -/
def Req.complete (cfg : Config) (r : Req V) : List (Done V) :=
  (List.range (r.vals.length / cfg.blockSize)).filterMap fun j =>
    r.row[j]?.map fun b => ⟨b, j, slice cfg.blockSize r.vals j⟩

/-- Where a scheduled request comes from. -/
inductive Origin (V : Type)
  /-- A live request, with its accepted length. -/
  | running (r : Req V) (accepted : ℕ)
  /-- A new or resumed request, with the blocks it adopts and their contents. -/
  | admitted (blocks : List ℕ) (vals : List V)

namespace Origin

/-- The blocks the request has before the step allocates more. -/
def kept : Origin V → List ℕ
  | running r _ => r.row
  | admitted blocks _ => blocks

/-- The values of the tokens computed before the step. -/
def context : Origin V → List V
  | running r acc => r.vals.take acc
  | admitted _ vals => vals

/-- The blocks taken from the prefix cache. -/
def adopted : Origin V → List ℕ
  | running _ _ => []
  | admitted blocks _ => blocks

/-- The live request continued, with its accepted length. -/
def prior : Origin V → Option (Req V × ℕ)
  | running r acc => some (r, acc)
  | admitted _ _ => none

end Origin

structure Sched (V : Type) where
  origin : Origin V
  /-- The blocks newly allocated for it. -/
  fresh : List ℕ
  /-- The values of its query tokens. -/
  query : List V
  /-- How many of its tokens cannot be rejected after the step. -/
  sure : ℕ

namespace Sched

variable (s : Sched V)

/-- `seq_len - query_len`. -/
def committed : ℕ := s.origin.context.length

def row : List ℕ := s.origin.kept ++ s.fresh

def vals : List V := s.origin.context ++ s.query

def req : Req V := ⟨s.row, s.sure, s.vals⟩

end Sched

open KVarN.Tile.Sched

/-- The slot-mapping entry of position `p`. -/
def slotOf (cfg : Config) (row : List ℕ) (p : ℕ) : ℤ :=
  match row[p / cfg.blockSize]? with
  | some b => (b * cfg.blockSize + p % cfg.blockSize : ℕ)
  | none => -1

/-- The query tokens of a scheduled request with the slots they go to. -/
def Sched.writes (cfg : Config) (s : Sched V) : List (ℤ × V) :=
  ((List.range' s.committed s.query.length).map (slotOf cfg s.row)).zip s.query

/-- A block-table row, padded with `-1`. -/
def Sched.table (btCols : ℕ) (s : Sched V) : List ℤ :=
  (s.row.map Int.ofNat ++ List.replicate (btCols - s.row.length) (-1)).take btCols

/-- The running sums `a, a + l₀, a + l₀ + l₁, …`. -/
def cumSum (a : ℤ) : List ℕ → List ℤ
  | [] => [a]
  | x :: l => a :: cumSum (a + x) l

/-- What happens between the end of one step and the writes of the next. -/
structure Plan (V : Type) where
  batch : List (Sched V)
  /-- Live requests left out of the batch, with their accepted lengths. -/
  omitted : List (Req V × ℕ)
  /-- Live requests that finished or were preempted, with their accepted lengths. -/
  finished : List (Req V × ℕ)
  btCols : ℕ
  order : SetOrder

namespace Plan

/-- The live requests of the plan, with their accepted lengths. -/
def continued (pl : Plan V) : List (Req V × ℕ) := pl.batch.filterMap fun s => s.origin.prior

/-- The requests that stay live, settled. -/
def settled (pl : Plan V) : List (Req V) :=
  (pl.continued ++ pl.omitted).map fun p => p.1.settle p.2

/-- The requests that end before the step, settled. -/
def ended (pl : Plan V) : List (Req V) := pl.finished.map fun p => p.1.settle p.2

/-- All blocks newly allocated in the step. -/
def fresh (pl : Plan V) : List ℕ := pl.batch.flatMap Sched.fresh

/-- The query tokens of the batch with their slots. -/
def writes (cfg : Config) (pl : Plan V) : List (ℤ × V) := pl.batch.flatMap (Sched.writes cfg)

/-- The metadata handed to the builder. -/
def cam (cfg : Config) (pl : Plan V) : AttnMetadata where
  seqLens := pl.batch.map fun s => s.vals.length
  queryStartLoc := some (cumSum 0 (pl.batch.map fun s => s.query.length))
  blockTable := pl.batch.map (table pl.btCols)
  btCols := pl.btCols
  slotMapping := (pl.writes cfg).map Prod.fst
  rect := by
    intro row hrow
    obtain ⟨s, -, rfl⟩ := List.mem_map.1 hrow
    simp only [table, List.length_take, List.length_append, List.length_map, List.length_replicate]
    omega

end Plan

/-! ## Memory -/

/-- The fp16 pool by slot and offset, the int4 record of every tile row, and the
history of the writes. -/
structure Memory (V R : Type) where
  pool : ℕ → ℕ → V
  int4 : ℕ → R
  stamp : ℕ → ℕ → Option ℕ

/-- `_batched_flush`: quantise the slot of each tile into the tile's record. -/
def batchedFlush {n : ℕ} (quant : (Fin n → V) → R) (m : Memory V R) (ps : List (ℕ × ℕ)) :
    Memory V R :=
  ps.foldl (fun m p =>
    { m with int4 := Function.update m.int4 p.1 (quant fun o => m.pool p.2 o) }) m

/-- `_kvarn_scatter_store_kernel`, for one token: look up the slot of its tile and
store the value there. Unmapped tokens are skipped. -/
def scatterStore (cfg : Config) (g : GroupState) (epoch : ℕ → ℕ) (m : Memory V R) (w : ℤ × V) :
    Memory V R :=
  let tile := (w.1 / (cfg.group : ℤ)).toNat
  let pos := (w.1 % (cfg.group : ℤ)).toNat
  if 0 ≤ w.1 ∧ tile < g.blockToSlotT.shape ∧ 0 ≤ g.blockToSlotT.data tile then
    { m with
      pool := fun slot o =>
        if slot = (g.blockToSlotT.data tile).toNat ∧ o = pos then w.2 else m.pool slot o
      stamp := fun t o =>
        if t = tile ∧ o = pos then some (epoch (tile / cfg.tpr)) else m.stamp t o }
  else m

/-- What a kernel reads for one token. -/
inductive Source (V R : Type)
  | pool (v : V)
  | record (r : R)
  deriving DecidableEq

/-- The source the attention kernels select for offset `o` of the tile row `id`
of the tile-unit block table. -/
def select (g : GroupState) (m : Memory V R) (id : ℤ) (o : ℕ) : Source V R :=
  let inRange := 0 ≤ id ∧ id < g.blockToSlotT.shape
  let safeBid := if inRange then id.toNat else 0
  let poolSlot := if inRange then g.blockToSlotT.data safeBid else -1
  if 0 ≤ poolSlot then .pool (m.pool poolSlot.toNat o) else .record (m.int4 safeBid)

/-- `_tile_row_table`: the tile-unit block table, `-1` where there is no tile. -/
def tileRowTable (cfg : Config) (cam : AttnMetadata) (b t : ℕ) : ℤ :=
  match cam.seqLens[b]?, cam.blockTable[b]? with
  | some sl, some row =>
    if t < min ((sl + cfg.group - 1) / cfg.group) cfg.maxTiles then
      match rowTile cfg row t with
      | some tr => tr
      | none => -1
    else -1
  | _, _ => -1

/-! ## Steps and runs -/

/-- The engine's state between two steps. -/
structure Engine (V R : Type) where
  group : GroupState
  mem : Memory V R
  live : List (Req V)
  /-- The blocks the prefix cache may hand out. -/
  done : List (Done V)
  /-- How often each block was newly allocated. -/
  epoch : ℕ → ℕ

namespace Engine

variable (cfg : Config) (e : Engine V R) (pl : Plan V)

/-- The blocks the prefix cache may hand out once the live requests are settled. -/
def settledDone : List (Done V) :=
  (pl.settled ++ pl.ended).flatMap (Req.complete cfg) ++ e.done

/-- The same once the step's new blocks are allocated: handing out a block again
takes it out of the prefix cache. -/
def nextDone : List (Done V) :=
  (e.settledDone cfg pl).filter fun d => d.block ∉ pl.fresh

def build (cfg : Config) (e : Engine V R) (pl : Plan V) : BuildResult :=
  Tile.build cfg false pl.order (pl.cam cfg) e.group

/-- The memory after the build, before the writes. -/
def flushed (cfg : Config) (quant : (Fin cfg.group → V) → R) (e : Engine V R) (pl : Plan V) :
    Memory V R :=
  batchedFlush quant e.mem (e.build cfg pl).flushed

/-- The allocator when the writes start: `do_kv_cache_update` calls `_ensure_pool`
with the number of tile rows. -/
def atWrite : GroupState :=
  (e.build cfg pl).state.ensurePool (cfg.numBlocks * cfg.tpr)

/-- The block assignments after the step. -/
def nextEpoch (b : ℕ) : ℕ :=
  if b ∈ pl.fresh then e.epoch b + 1 else e.epoch b

/-- The memory after the writes: `do_kv_cache_update` of every query token. -/
abbrev memAfter (quant : (Fin cfg.group → V) → R) (e : Engine V R) (pl : Plan V) : Memory V R :=
  (pl.writes cfg).foldl (scatterStore cfg (e.atWrite cfg pl) (e.nextEpoch pl))
    (e.flushed cfg quant pl)

/-- One step. If the build raises, nothing is written and nothing is admitted. -/
def step (quant : (Fin cfg.group → V) → R) (e : Engine V R) (pl : Plan V) : Engine V R :=
  match (e.build cfg pl).error with
  | some _ =>
    { group := (e.build cfg pl).state
      mem := e.flushed cfg quant pl
      live := pl.settled
      done := e.nextDone cfg pl
      epoch := e.epoch }
  | none =>
    { group := e.atWrite cfg pl
      mem := e.memAfter cfg quant pl
      live := pl.batch.map req ++ pl.omitted.map fun p => p.1.settle p.2
      done := e.nextDone cfg pl
      epoch := e.nextEpoch pl }

/-- The step when the build returns. -/
theorem step_returned {cfg : Config} (quant : (Fin cfg.group → V) → R) {e : Engine V R}
    {pl : Plan V} (h : (e.build cfg pl).error = none) :
    e.step cfg quant pl =
      { group := e.atWrite cfg pl
        mem := e.memAfter cfg quant pl
        live := pl.batch.map req ++ pl.omitted.map fun p => p.1.settle p.2
        done := e.nextDone cfg pl
        epoch := e.nextEpoch pl } := by
  unfold step
  rw [h]

end Engine

/-- The engine before its first step, with whatever the memory holds. -/
def Engine.start (poolSize : ℕ) (mem : Memory V R) : Engine V R :=
  ⟨GroupState.init poolSize, { mem with stamp := fun _ _ => none }, [], [], fun _ => 0⟩

/-! ## What the scheduler guarantees -/

/-- Block `j` of an admitted request may be adopted from the prefix cache. -/
def AdoptsDone (cfg : Config) (e : Engine V R) (pl : Plan V) (s : Sched V) (j : ℕ) : Prop :=
  ∃ d ∈ e.settledDone cfg pl, s.origin.adopted[j]? = some d.block ∧ d.index = j ∧
    d.vals = slice cfg.blockSize s.origin.context j ∧ d.block ∉ pl.fresh

/-- Block `j` of an admitted request is completed by a request of the same batch. -/
def AdoptsNow (cfg : Config) (pl : Plan V) (s : Sched V) (j : ℕ) : Prop :=
  ∃ w ∈ pl.batch, s.origin.adopted[j]? = w.row[j]? ∧ w.committed < (j + 1) * cfg.blockSize ∧
    (j + 1) * cfg.blockSize ≤ w.sure ∧
    slice cfg.blockSize w.vals j = slice cfg.blockSize s.origin.context j

/-- What the scheduler and the KV-cache manager guarantee of a plan. -/
structure Plan.Valid (cfg : Config) (e : Engine V R) (pl : Plan V) : Prop where
  /-- The plan accounts for every live request. -/
  live : e.live.Perm ((pl.continued ++ pl.omitted ++ pl.finished).map Prod.fst)
  /-- Sure tokens are accepted, and no more than were written. -/
  accepted : ∀ p ∈ pl.continued ++ pl.omitted ++ pl.finished, p.1.sure ≤ p.2 ∧ p.2 ≤ p.1.vals.length
  query_pos : ∀ s ∈ pl.batch, 0 < s.query.length
  sure_le : ∀ s ∈ pl.batch, s.committed ≤ s.sure ∧ s.sure ≤ s.vals.length
  /-- Every token has a block. -/
  room : ∀ s ∈ pl.batch, s.vals.length ≤ s.row.length * cfg.blockSize
  width : ∀ s ∈ pl.batch, s.row.length ≤ pl.btCols
  modelLen : ∀ s ∈ pl.batch, s.vals.length ≤ cfg.maxModelLen
  /-- An admitted request starts at the end of its adopted blocks. -/
  aligned : ∀ s ∈ pl.batch, s.origin.prior = none →
    s.committed = s.origin.adopted.length * cfg.blockSize
  adopts : ∀ s ∈ pl.batch, ∀ j < s.origin.adopted.length,
    AdoptsDone cfg e pl s j ∨ AdoptsNow cfg pl s j
  /-- Newly allocated blocks are distinct, and no live request has them. -/
  fresh_nodup : pl.fresh.Nodup
  fresh_new : ∀ p ∈ pl.continued ++ pl.omitted, ∀ b ∈ p.1.row, b ∉ pl.fresh
  fresh_lt : ∀ b ∈ pl.fresh, b < cfg.numBlocks

/-- The validity of a plan without adoption depends on the live requests only. -/
theorem Plan.Valid.of_live {cfg : Config} {e e' : Engine V R} {pl : Plan V}
    (h : pl.Valid cfg e') (hlive : e.live = e'.live)
    (hno : ∀ s ∈ pl.batch, s.origin.adopted = []) : pl.Valid cfg e where
  live := hlive ▸ h.live
  accepted := h.accepted
  query_pos := h.query_pos
  sure_le := h.sure_le
  room := h.room
  width := h.width
  modelLen := h.modelLen
  aligned := h.aligned
  adopts := by
    intro s hs j hj
    rw [hno s hs] at hj
    exact absurd hj (Nat.not_lt_zero j)
  fresh_nodup := h.fresh_nodup
  fresh_new := h.fresh_new
  fresh_lt := h.fresh_lt

section Decidable

variable [DecidableEq V] (cfg : Config) (e : Engine V R) (pl : Plan V)

instance (s : Sched V) (j : ℕ) : Decidable (AdoptsDone cfg e pl s j) :=
  inferInstanceAs (Decidable (∃ d ∈ e.settledDone cfg pl, _))

instance (s : Sched V) (j : ℕ) : Decidable (AdoptsNow cfg pl s j) :=
  inferInstanceAs (Decidable (∃ w ∈ pl.batch, _))

omit [DecidableEq V] in
theorem Plan.valid_iff : pl.Valid cfg e ↔
    e.live.Perm ((pl.continued ++ pl.omitted ++ pl.finished).map Prod.fst) ∧
    (∀ p ∈ pl.continued ++ pl.omitted ++ pl.finished, p.1.sure ≤ p.2 ∧ p.2 ≤ p.1.vals.length) ∧
    (∀ s ∈ pl.batch, 0 < s.query.length ∧ (s.committed ≤ s.sure ∧ s.sure ≤ s.vals.length) ∧
      s.vals.length ≤ s.row.length * cfg.blockSize ∧ s.row.length ≤ pl.btCols ∧
      s.vals.length ≤ cfg.maxModelLen ∧
      (s.origin.prior = none → s.committed = s.origin.adopted.length * cfg.blockSize) ∧
      ∀ j < s.origin.adopted.length, AdoptsDone cfg e pl s j ∨ AdoptsNow cfg pl s j) ∧
    pl.fresh.Nodup ∧ (∀ p ∈ pl.continued ++ pl.omitted, ∀ b ∈ p.1.row, b ∉ pl.fresh) ∧
    ∀ b ∈ pl.fresh, b < cfg.numBlocks := by
  constructor
  · intro h
    exact ⟨h.live, h.accepted, fun s hs => ⟨h.query_pos s hs, h.sure_le s hs, h.room s hs,
      h.width s hs, h.modelLen s hs, h.aligned s hs, h.adopts s hs⟩, h.fresh_nodup, h.fresh_new,
      h.fresh_lt⟩
  · rintro ⟨h₁, h₂, h₃, h₄, h₅, h₆⟩
    exact ⟨h₁, h₂, fun s hs => (h₃ s hs).1, fun s hs => (h₃ s hs).2.1,
      fun s hs => (h₃ s hs).2.2.1, fun s hs => (h₃ s hs).2.2.2.1,
      fun s hs => (h₃ s hs).2.2.2.2.1, fun s hs => (h₃ s hs).2.2.2.2.2.1,
      fun s hs => (h₃ s hs).2.2.2.2.2.2, h₄, h₅, h₆⟩

instance : Decidable (pl.Valid cfg e) := decidable_of_iff' _ (Plan.valid_iff cfg e pl)

end Decidable

/-- The states reached by runs whose steps are valid and meet `P`. -/
inductive Reach (cfg : Config) (quant : (Fin cfg.group → V) → R) (poolSize : ℕ)
    (P : Engine V R → Plan V → Prop) : Engine V R → Prop
  | start (mem : Memory V R) : Reach cfg quant poolSize P (Engine.start poolSize mem)
  | step {e : Engine V R} {pl : Plan V} (h : Reach cfg quant poolSize P e) (hv : pl.Valid cfg e)
      (hp : P e pl) : Reach cfg quant poolSize P (e.step cfg quant pl)

end KVarN.Tile
