import KVarN.Lib.Dict
import Mathlib.Data.List.Induction
import Mathlib.Data.List.Intervals

/-!
# The metadata builder of the latent-attention backend

Latent attention keeps the tokens of an unfinished tile in a sparse pool of slots. Between
two forward passes the metadata builder decides, from the lengths and block tables of the
batch alone, which tiles are packed into the cache, which slots are given back and which
blocks get one. The forward pass then scatters the new tokens into the pool.

A step whose rows all decode one token inside a tile does nothing but remember the
lengths. The builder recognises it by the lengths (`fastSkip`).

## Main definitions

* `State` — the allocator, the pool and the packed tiles.
* `scan`, `reclaim`, `release`, `allocate` — the stages of `build`.
* `build` — the builder; `doKvCacheUpdate` — the scatter of the forward pass.

## Main results

* `buildFull_eq_ok` — after a full build the blocks that hold a slot are those written by
  the batch.
* `slots_build` — a build hands slots on, and neither loses nor duplicates one.
-/

namespace KVarN.Mla

open KVarN.Lib Function List

universe u v

/-- One row of a batch as the builder sees it: the row of the block table (`none` for a
negative entry), the length with this step's tokens, and the number of them. The request is
not visible to the builder. -/
structure Row where
  req : ℕ
  blocks : List (Option ℕ)
  seqLen : ℕ
  queryLen : ℕ
deriving DecidableEq

variable (G : ℕ) (r : Row) (b2s : Dict ℕ ℕ)

/-- The tokens written before this step, as the builder computes them. -/
def Row.committed : ℕ := r.seqLen - r.queryLen

/-- `row[k]`, where it is a block. -/
def Row.block (k : ℕ) : Option ℕ := (r.blocks[k]?).join

/-- How full a block is after a step; `req` and `tile` remember who wrote it and are never
read. -/
structure Fill where
  tokens : ℕ
  req : ℕ
  tile : ℕ
deriving DecidableEq

/-- The deployment. A tile of tokens is packed by `quantise`; `setOrder` is the order in
which a set of blocks is visited. -/
structure Config (α : Type u) (τ : Type v) where
  group : ℕ
  poolSlots : ℕ
  /-- `KVARN_MLA_NOSKIP` -/
  noSkip : Bool
  /-- `KVARN_MLA_NOZERO` -/
  noZero : Bool
  zero : α
  quantise : (ℕ → α) → τ
  setOrder : List ℕ → List ℕ
  group_pos : 0 < group
  mem_setOrder : ∀ {l : List ℕ} {bid : ℕ}, bid ∈ setOrder l ↔ bid ∈ l

/-- The class-level state of `TritonMLAImpl`; the top of the free list comes first. A pool
position holds the latent and rope of a token in every layer. -/
structure State (α : Type u) (τ : Type v) where
  b2s : Dict ℕ ℕ
  free : List ℕ
  fill : ℕ → Option Fill
  prevSeqlens : Option (List ℕ)
  pool : ℕ → ℕ → α
  int4 : ℕ → τ

/-- The pool has no slot left. -/
inductive Fault where
  | exhausted (size : ℕ)
deriving DecidableEq

def Fault.message : Fault → String
  | .exhausted size =>
    "KVarN-MLA pool exhausted (size=" ++ toString size ++ "); raise KVARN_MLA_POOL_SLOTS"

def State.init {α : Type u} {τ : Type v} (cfg : Config α τ) (int4 : ℕ → τ) : State α τ where
  b2s := Dict.empty
  free := range cfg.poolSlots
  fill := fun _ => none
  prevSeqlens := none
  pool := fun _ _ => cfg.zero
  int4 := int4

/-! ## The scan of the batch -/

/-- What the loop over the rows collects: `blocks_needed`, `fill`, and `flush_q`, whose
elements are those of `flush_seen`. -/
structure Scan where
  needed : List ℕ
  fill : ℕ → Option Fill
  flushQ : List ℕ

variable (sc : Scan)

/-- The tiles of a row that receive writes. -/
def Row.tiles : List ℕ :=
  List.Ico (r.committed / G) (min ((r.seqLen - 1) / G) (r.blocks.length - 1) + 1)

/-- How full tile `k` of a row is after the step. -/
def Row.fillAt (k : ℕ) : Fill := ⟨min r.seqLen ((k + 1) * G) - k * G, r.req, k⟩

/-- A block that receives writes, and how full it will be. -/
def Scan.need (k : ℕ) : Scan :=
  match r.block k with
  | some bid =>
    { sc with
      needed := sc.needed.insert bid
      fill := update sc.fill bid
        (some (r.fillAt G k)) }
  | none => sc

/-- The walk back from tile `k - 1` over blocks that still hold a slot. -/
def walkBack (b2s : Dict ℕ ℕ) (r : Row) : ℕ → List ℕ → List ℕ
  | 0, flushQ => flushQ
  | k + 1, flushQ =>
    match r.block k with
    | some bid => if bid ∈ flushQ ∨ bid ∉ b2s then flushQ else walkBack b2s r k (flushQ ++ [bid])
    | none => flushQ

/-- One round of the loop over the rows. -/
def Scan.row (r : Row) : Scan :=
  if r.blocks = [] ∨ r.seqLen = 0 then sc
  else
    let sc := (r.tiles G).foldl (Scan.need G r) sc
    { sc with flushQ := walkBack b2s r (r.committed / G) sc.flushQ }

def scan (fill : ℕ → Option Fill) (rows : List Row) : Scan :=
  rows.foldl (Scan.row G b2s) ⟨[], fill, []⟩

/-- `fill.get(bid, 0) >= G` -/
def full (fill : ℕ → Option Fill) (bid : ℕ) : Bool :=
  G ≤ (fill bid).elim 0 Fill.tokens

/-- Blocks with a slot that are neither written nor queued. -/
def idle : List ℕ :=
  b2s.keys.filter fun bid => bid ∉ sc.needed ∧ bid ∉ sc.flushQ

/-- RECLAIM: the flush queue with the idle blocks that are complete, and the others. -/
def reclaim : List ℕ × List ℕ :=
  (sc.flushQ ++ (idle b2s sc).filter (full G sc.fill),
    (idle b2s sc).filter fun bid => !full G sc.fill bid)

/-! ## Slots -/

section

variable {α : Type u} {τ : Type v} (cfg : Config α τ)

/-- `_kvarn_batched_flush`: the tiles of the queued blocks are packed. -/
def batchedFlush (flushQ : List ℕ) (s : State α τ) : State α τ :=
  { s with
    int4 := fun bid =>
      if bid ∈ flushQ then (s.b2s.get? bid).elim (s.int4 bid) fun slot => cfg.quantise (s.pool slot)
      else s.int4 bid }

variable (s : State α τ) (rows : List Row)

def releaseOne (bid : ℕ) : State α τ :=
  { s with
    b2s := s.b2s.pop bid
    free := (s.b2s.get? bid).elim s.free (· :: s.free)
    fill := update s.fill bid none }

/-- The loops over the queued and the discarded blocks. -/
def release (bids : List ℕ) (s : State α τ) : State α τ := bids.foldl releaseOne s

/-- A block takes the next free slot, cleared of its old tokens. -/
def takeSlot (bid slot : ℕ) (free : List ℕ) (s : State α τ) : State α τ :=
  { s with
    b2s := s.b2s.set bid slot
    free := free
    pool := if cfg.noZero then s.pool else update s.pool slot fun _ => cfg.zero }

/-- ALLOCATE: needed blocks without a slot. -/
def allocate : List ℕ → State α τ → Except Fault (State α τ)
  | [], s => .ok s
  | bid :: bids, s =>
    if bid ∈ s.b2s then allocate bids s
    else
      match s.free with
      | [] => .error (.exhausted cfg.poolSlots)
      | slot :: free => allocate bids (takeSlot cfg bid slot free s)

/-! ## The builder -/

/-- `num_actual_tokens` -/
def numTokens : ℕ := (rows.map Row.queryLen).sum

/-- The FAST-SKIP test on the lengths: one new token a row, every length one more than at
its place in the step before, and no row at a tile boundary. -/
def SkipsAfter (G : ℕ) (prev : List ℕ) (rows : List Row) : Prop :=
  numTokens rows = rows.length ∧ rows.map Row.seqLen = prev.map (· + 1) ∧
    ∀ r ∈ rows, 1 < r.seqLen % G
  deriving Decidable

/-- FAST-SKIP. -/
def fastSkip : Bool :=
  !cfg.noSkip && s.prevSeqlens.any fun prev => SkipsAfter cfg.group prev rows

/-- `_kvarn_prev_seqlens` is set on both paths. -/
def remember : State α τ :=
  { s with prevSeqlens := some (rows.map Row.seqLen) }

/-- The tiles a full build hands to `_kvarn_batched_flush`. -/
def flushed : List ℕ :=
  (reclaim cfg.group s.b2s (scan cfg.group s.b2s s.fill rows)).1

/-- `TritonMLAMetadataBuilder.build` past the FAST-SKIP test. -/
def buildFull : Except Fault (State α τ) :=
  let sc := scan cfg.group s.b2s s.fill rows
  let (flushQ, discardIds) := reclaim cfg.group s.b2s sc
  let s := batchedFlush cfg flushQ { s with fill := sc.fill }
  let s := release discardIds (release flushQ s)
  allocate cfg (cfg.setOrder sc.needed) s

/-- `TritonMLAMetadataBuilder.build`. -/
def build : Except Fault (State α τ) :=
  if fastSkip cfg s rows then .ok (remember s rows)
  else buildFull cfg (remember s rows) rows

/-- One program of the scatter kernel: a token of a block without a slot is dropped. -/
def storeToken (r : Row) (pos : ℕ) (token : α) : State α τ :=
  match (r.block (pos / cfg.group)).bind s.b2s.get? with
  | some slot =>
    { s with
      pool := update s.pool slot
        (update (s.pool slot) (pos % cfg.group) token) }
  | none => s

/-- `do_kv_cache_update`: the new tokens of every row, from the position that the device
knows for it. -/
def doKvCacheUpdate (tokens : ℕ → ℕ → α) (placed : List (Row × ℕ)) (s : State α τ) : State α τ :=
  placed.foldl (fun s (r, start) => (List.Ico start (start + r.queryLen)).foldl
    (fun s pos => storeToken cfg s r pos (tokens r.req pos)) s) s

end

/-! ## What a scan collects -/

/-- Row `r` writes tile `k`. -/
def Row.Writes (G : ℕ) (r : Row) (k : ℕ) : Prop :=
  r.committed / G ≤ k ∧ k * G < r.seqLen
  deriving Decidable

/-- Row `r` writes block `bid`, as tile `k`. -/
def Row.WritesTo (G : ℕ) (r : Row) (k bid : ℕ) : Prop := r.Writes G k ∧ r.block k = some bid

theorem Row.lt_length_of_block {r : Row} {k bid : ℕ} (h : r.block k = some bid) :
    k < r.blocks.length := by
  by_contra hge
  rw [Row.block, getElem?_eq_none (not_lt.1 hge)] at h
  simp at h

theorem Row.mem_tiles {G : ℕ} (hG : 0 < G) {r : Row} {k bid : ℕ} (h : r.block k = some bid)
    (hlen : 0 < r.seqLen) : k ∈ r.tiles G ↔ r.Writes G k := by
  have hlt := r.lt_length_of_block h
  have hdiv : k ≤ (r.seqLen - 1) / G ↔ k * G < r.seqLen := by
    rw [Nat.le_div_iff_mul_le hG]
    omega
  rw [Row.tiles, List.Ico.mem, Row.Writes, ← hdiv]
  omega

theorem mem_walkBack {b2s : Dict ℕ ℕ} {r : Row} {k bid : ℕ} {flushQ : List ℕ}
    (h : bid ∈ walkBack b2s r k flushQ) :
    bid ∈ flushQ ∨ bid ∈ b2s ∧ ∃ k' < k, r.block k' = some bid := by
  induction k generalizing flushQ with
  | zero => exact Or.inl h
  | succ k ih =>
    rw [walkBack] at h
    split at h
    next bid' hblock =>
      split at h
      · exact Or.inl h
      next hcond =>
        rcases ih h with hq | ⟨hb2s, k', hk', hr⟩
        · rcases mem_append.1 hq with hq | hq
          · exact Or.inl hq
          · obtain rfl : bid = bid' := mem_singleton.1 hq
            exact Or.inr ⟨not_not.1 (not_or.1 hcond).2, k, Nat.lt_succ_self k, hblock⟩
        · exact Or.inr ⟨hb2s, k', Nat.lt_succ_of_lt hk', hr⟩
    next => exact Or.inl h

/-- A walk that meets a block without a slot at once queues nothing. -/
theorem walkBack_eq_self {b2s : Dict ℕ ℕ} {r : Row} {k : ℕ} (flushQ : List ℕ)
    (h : ∀ k' bid, k = k' + 1 → r.block k' = some bid → bid ∉ b2s) :
    walkBack b2s r k flushQ = flushQ := by
  cases k with
  | zero => rfl
  | succ k =>
    rw [walkBack]
    split
    next bid hblock => rw [if_pos (Or.inr (h k bid rfl hblock))]
    next => rfl

/-- What a scan of `rows` has collected. -/
structure Scan.Of (G : ℕ) (b2s : Dict ℕ ℕ) (fill : ℕ → Option Fill) (rows : List Row)
    (sc : Scan) : Prop where
  needed : ∀ bid, bid ∈ sc.needed ↔ ∃ r ∈ rows, ∃ k, r.WritesTo G k bid
  fill_of_notMem : ∀ bid ∉ sc.needed, sc.fill bid = fill bid
  fill_of_mem : ∀ bid ∈ sc.needed, ∃ r ∈ rows, ∃ k, r.WritesTo G k bid ∧
    sc.fill bid = some (r.fillAt G k)
  flushQ : ∀ bid ∈ sc.flushQ, bid ∈ b2s ∧ ∃ r ∈ rows, ∃ k < r.committed / G, r.block k = some bid

section Scan

variable {G b2s r sc} {fill : ℕ → Option Fill}

theorem Scan.need_of_block {k bid : ℕ} (h : r.block k = some bid) :
    sc.need G r k = { sc with
      needed := sc.needed.insert bid
      fill := update sc.fill bid (some (r.fillAt G k)) } := by
  rw [need, h]

theorem Scan.need_of_none {k : ℕ} (h : r.block k = none) : sc.need G r k = sc := by
  rw [need, h]

/-- The loop over the tiles of a row. -/
theorem Scan.foldl_need (ks : List ℕ) (sc : Scan) :
    (ks.foldl (Scan.need G r) sc).flushQ = sc.flushQ ∧
    (∀ bid, bid ∈ (ks.foldl (Scan.need G r) sc).needed ↔
      bid ∈ sc.needed ∨ ∃ k ∈ ks, r.block k = some bid) ∧
    ∀ bid, (ks.foldl (Scan.need G r) sc).fill bid = sc.fill bid ∧ (∀ k ∈ ks, r.block k ≠ some bid) ∨
      ∃ k ∈ ks, r.block k = some bid ∧
        (ks.foldl (Scan.need G r) sc).fill bid = some (r.fillAt G k) := by
  induction ks using reverseRecOn with
  | nil => simp
  | append_singleton ks k ih =>
    obtain ⟨hq, hneed, hfill⟩ := ih
    rw [foldl_append, foldl_cons, foldl_nil]
    generalize ks.foldl (Scan.need G r) sc = sc' at hq hneed hfill
    cases hblock : r.block k with
    | none =>
      rw [Scan.need_of_none hblock]
      refine ⟨hq, fun bid => ?_, fun bid => ?_⟩
      · rw [hneed bid]
        simp [or_and_right, exists_or, hblock]
      · rcases hfill bid with ⟨hsame, hno⟩ | ⟨k', hk', hr, hval⟩
        · refine Or.inl ⟨hsame, fun k' hk' => ?_⟩
          rcases mem_append.1 hk' with hk' | hk'
          · exact hno k' hk'
          · rw [mem_singleton.1 hk', hblock]
            simp
        · exact Or.inr ⟨k', mem_append_left _ hk', hr, hval⟩
    | some bid' =>
      rw [Scan.need_of_block hblock]
      refine ⟨hq, fun bid => ?_, fun bid => ?_⟩
      · rw [mem_insert_iff, hneed bid]
        simp only [mem_append, mem_singleton, or_and_right, exists_or,
          exists_eq_left, hblock, Option.some.injEq, eq_comm (a := bid)]
        exact or_comm.trans or_assoc
      · by_cases hbid : bid = bid'
        · subst hbid
          exact Or.inr ⟨k, by simp, hblock, by simp⟩
        · dsimp only
          rw [update_of_ne hbid]
          rcases hfill bid with ⟨hsame, hno⟩ | ⟨k', hk', hr, hval⟩
          · refine Or.inl ⟨hsame, fun k' hk' => ?_⟩
            rcases mem_append.1 hk' with hk' | hk'
            · exact hno k' hk'
            · rw [mem_singleton.1 hk', hblock]
              simpa [eq_comm] using hbid
          · exact Or.inr ⟨k', mem_append_left _ hk', hr, hval⟩

/-- One row. -/
theorem Scan.Of.row (hG : 0 < G) {rows : List Row} (h : Scan.Of G b2s fill rows sc) (r : Row) :
    Scan.Of G b2s fill (rows ++ [r]) (sc.row G b2s r) := by
  have hold {P : Row → Prop} : (∃ r ∈ rows, P r) → ∃ r' ∈ rows ++ [r], P r' :=
    fun ⟨r', hr', hP⟩ => ⟨r', mem_append_left _ hr', hP⟩
  have hsplit {P : Row → Prop} : (∃ r' ∈ rows ++ [r], P r') ↔ (∃ r' ∈ rows, P r') ∨ P r := by
    simp [or_and_right, exists_or]
  rw [Scan.row]
  by_cases hskip : r.blocks = [] ∨ r.seqLen = 0
  · rw [if_pos hskip]
    have hnone : ∀ k bid, ¬ r.WritesTo G k bid := by
      rintro k bid ⟨⟨-, hlt⟩, hblock⟩
      have hlen := r.lt_length_of_block hblock
      rcases hskip with hnil | hzero
      · simp [hnil] at hlen
      · omega
    refine ⟨fun bid => ?_, h.fill_of_notMem, fun bid hbid => hold (h.fill_of_mem bid hbid),
      fun bid hbid => ⟨(h.flushQ bid hbid).1, hold (h.flushQ bid hbid).2⟩⟩
    rw [hsplit, h.needed bid]
    exact ⟨Or.inl, fun hor => hor.elim id fun ⟨k, hk⟩ => absurd hk (hnone k bid)⟩
  rw [if_neg hskip]
  have hlen : 0 < r.seqLen := by
    have hne := (not_or.1 hskip).2
    omega
  have htile : ∀ bid, (∃ k ∈ r.tiles G, r.block k = some bid) ↔ ∃ k, r.WritesTo G k bid :=
    fun _ => exists_congr fun _ => and_congr_left fun hblock => Row.mem_tiles hG hblock hlen
  obtain ⟨hq, hneed, hfill⟩ := Scan.foldl_need (G := G) (r := r) (r.tiles G) sc
  generalize (r.tiles G).foldl (Scan.need G r) sc = sc' at hq hneed hfill
  refine ⟨fun bid => ?_, fun bid hbid => ?_, fun bid hbid => ?_, fun bid hbid => ?_⟩
  · rw [hsplit, hneed bid, h.needed bid, htile bid]
  · have hnot := not_or.1 (mt (hneed bid).2 hbid)
    rcases hfill bid with ⟨hsame, -⟩ | ⟨k, hk, hblock, -⟩
    · rw [hsame, h.fill_of_notMem bid hnot.1]
    · exact absurd ⟨k, hk, hblock⟩ hnot.2
  · rcases hfill bid with ⟨hsame, hno⟩ | ⟨k, hk, hblock, hval⟩
    · rcases (hneed bid).1 hbid with hmem | ⟨k, hk, hblock⟩
      · dsimp only
        rw [hsame]
        exact hold (h.fill_of_mem bid hmem)
      · exact absurd hblock (hno k hk)
    · exact ⟨r, by simp, k, ⟨(Row.mem_tiles hG hblock hlen).1 hk, hblock⟩, hval⟩
  · rcases mem_walkBack hbid with hmem | ⟨hb2s, k, hk, hblock⟩
    · rw [hq] at hmem
      exact ⟨(h.flushQ bid hmem).1, hold (h.flushQ bid hmem).2⟩
    · exact ⟨hb2s, r, by simp, k, hk, hblock⟩

/-- **The scan of a batch.** -/
theorem scan_of (hG : 0 < G) (b2s : Dict ℕ ℕ) (fill : ℕ → Option Fill) (rows : List Row) :
    Scan.Of G b2s fill rows (scan G b2s fill rows) := by
  induction rows using reverseRecOn with
  | nil => exact ⟨by simp [scan], fun _ _ => rfl, by simp [scan], by simp [scan]⟩
  | append_singleton rows r ih =>
    rw [scan, foldl_append]
    exact ih.row hG r

end Scan

/-! ## What the stages do to the state -/

section Stages

variable {α : Type u} {τ : Type v} {cfg : Config α τ}

/-- The stages that give slots back. -/
theorem release_spec (bids : List ℕ) (s : State α τ) :
    (∀ bid, bid ∈ (release bids s).b2s ↔ bid ∈ s.b2s ∧ bid ∉ bids) ∧
    (∀ bid, (release bids s).fill bid = if bid ∈ bids then none else s.fill bid) ∧
    (release bids s).prevSeqlens = s.prevSeqlens := by
  induction bids generalizing s with
  | nil => simp [release]
  | cons bid bids ih =>
    obtain ⟨hmem, hfill, hprev⟩ := ih (releaseOne s bid)
    refine ⟨fun bid' => ?_, fun bid' => ?_, hprev⟩
    · rw [release, foldl_cons, ← release, hmem bid']
      simp only [releaseOne, Dict.mem_pop, mem_cons]
      tauto
    · rw [release, foldl_cons, ← release, hfill bid']
      simp only [releaseOne, mem_cons, update_apply]
      by_cases heq : bid' = bid <;> simp [heq]

/-- The stage that takes slots. -/
theorem allocate_eq_ok {bids : List ℕ} {s s' : State α τ} (h : allocate cfg bids s = .ok s') :
    (∀ bid, bid ∈ s'.b2s ↔ bid ∈ s.b2s ∨ bid ∈ bids) ∧ s'.fill = s.fill ∧
      s'.prevSeqlens = s.prevSeqlens := by
  induction bids generalizing s with
  | nil =>
    obtain rfl : s = s' := by simpa [allocate] using h
    simp
  | cons bid bids ih =>
    rw [allocate] at h
    split at h
    next hbid =>
      obtain ⟨hmem, hrest⟩ := ih h
      refine ⟨fun bid' => ?_, hrest⟩
      have hold : bid' ∈ s.b2s ∨ bid' = bid ↔ bid' ∈ s.b2s := or_iff_left_of_imp (· ▸ hbid)
      rw [hmem bid', mem_cons, ← or_assoc, hold]
    next =>
      split at h
      · simp at h
      next slot free hfree =>
        obtain ⟨hmem, hrest⟩ := ih h
        refine ⟨fun bid' => ?_, hrest⟩
        rw [hmem bid']
        simp only [takeSlot, Dict.mem_set, mem_cons]
        tauto

/-- **After a full build the blocks with a slot are those the batch writes.** What a block
holds is what the scan recorded, unless the block was queued or discarded before it got its
slot again. -/
theorem buildFull_eq_ok {s s' : State α τ} {rows : List Row} (h : buildFull cfg s rows = .ok s') :
    (∀ bid, bid ∈ s'.b2s ↔ ∃ r ∈ rows, ∃ k, r.WritesTo cfg.group k bid) ∧
    (∀ bid, bid ∈ s'.b2s → s'.fill bid = none ∧ bid ∈ (scan cfg.group s.b2s s.fill rows).flushQ ∨
      bid ∉ (scan cfg.group s.b2s s.fill rows).flushQ ∧
        s'.fill bid = (scan cfg.group s.b2s s.fill rows).fill bid) ∧
    s'.prevSeqlens = s.prevSeqlens := by
  have hscan := scan_of cfg.group_pos s.b2s s.fill rows
  rw [buildFull] at h
  generalize scan cfg.group s.b2s s.fill rows = sc at h hscan
  dsimp only [reclaim] at h
  obtain ⟨hmem, hfill, hprev⟩ := allocate_eq_ok h
  obtain ⟨hmem₂, hfill₂, hprev₂⟩ := release_spec ((idle s.b2s sc).filter fun bid =>
    !full cfg.group sc.fill bid) (release (sc.flushQ ++ (idle s.b2s sc).filter
      (full cfg.group sc.fill)) (batchedFlush cfg (sc.flushQ ++ (idle s.b2s sc).filter
      (full cfg.group sc.fill)) { s with fill := sc.fill }))
  obtain ⟨hmem₁, hfill₁, hprev₁⟩ := release_spec (sc.flushQ ++ (idle s.b2s sc).filter
      (full cfg.group sc.fill)) (batchedFlush cfg (sc.flushQ ++ (idle s.b2s sc).filter
      (full cfg.group sc.fill)) { s with fill := sc.fill })
  have hiff : ∀ bid, bid ∈ s'.b2s ↔ bid ∈ sc.needed := by
    intro bid
    rw [hmem bid, hmem₂ bid, hmem₁ bid, cfg.mem_setOrder]
    constructor
    · -- a block with a slot that is not written is queued or discarded
      rintro (⟨⟨hb2s, hq⟩, hd⟩ | hneed)
      · by_contra hneed
        rw [mem_append, not_or] at hq
        have hidle : bid ∈ idle s.b2s sc := by
          simpa [idle] using ⟨hb2s, hneed, hq.1⟩
        cases hfull : full cfg.group sc.fill bid with
        | true => exact hq.2 (mem_filter.2 ⟨hidle, hfull⟩)
        | false => exact hd (mem_filter.2 ⟨hidle, by simp [hfull]⟩)
      · exact hneed
    · exact Or.inr
  have hnotIdle : ∀ bid ∈ sc.needed, bid ∉ idle s.b2s sc := by
    intro bid hneed hidle
    simp [idle, hneed] at hidle
  refine ⟨fun bid => (hiff bid).trans (hscan.needed bid), fun bid hbid => ?_, ?_⟩
  · have hneed := (hiff bid).1 hbid
    have hnot := hnotIdle bid hneed
    rw [hfill, hfill₂ bid, hfill₁ bid]
    by_cases hq : bid ∈ sc.flushQ
    · refine Or.inl ⟨?_, hq⟩
      simp [hq]
    · refine Or.inr ⟨hq, ?_⟩
      simp [hq, hnot, batchedFlush]
  · rw [hprev, hprev₂, hprev₁]
    rfl

/-- The forward pass changes the pool only. -/
theorem doKvCacheUpdate_eq (tokens : ℕ → ℕ → α) (placed : List (Row × ℕ)) (s : State α τ) :
    doKvCacheUpdate cfg tokens placed s =
      { s with pool := (doKvCacheUpdate cfg tokens placed s).pool } := by
  have hstore (s : State α τ) (r : Row) (pos : ℕ) (token : α) :
      ∃ pool, storeToken cfg s r pos token = { s with pool := pool } := by
    unfold storeToken
    split
    · exact ⟨_, rfl⟩
    · exact ⟨s.pool, rfl⟩
  have hrow (r : Row) (positions : List ℕ) (s : State α τ) :
      ∃ pool, positions.foldl (fun s pos => storeToken cfg s r pos (tokens r.req pos)) s =
        { s with pool := pool } := by
    induction positions generalizing s with
    | nil => exact ⟨s.pool, rfl⟩
    | cons pos positions ih =>
      obtain ⟨pool, h⟩ := hstore s r pos (tokens r.req pos)
      obtain ⟨pool', h'⟩ := ih { s with pool := pool }
      exact ⟨pool', by rw [foldl_cons, h, h']⟩
  have hall : ∃ pool, doKvCacheUpdate cfg tokens placed s = { s with pool := pool } := by
    rw [doKvCacheUpdate]
    induction placed generalizing s with
    | nil => exact ⟨s.pool, rfl⟩
    | cons p placed ih =>
      obtain ⟨pool, h⟩ := hrow p.1 (List.Ico p.2 (p.2 + p.1.queryLen)) s
      obtain ⟨pool', h'⟩ := ih { s with pool := pool }
      refine ⟨pool', ?_⟩
      rw [foldl_cons]
      dsimp only
      rw [h, h']
  obtain ⟨pool, h⟩ := hall
  rw [h]

/-! ### Slots -/

variable {s s' : State α τ}

/-- The slots of the blocks, and the free ones. -/
def State.slots (s : State α τ) : List ℕ := s.b2s.values ++ s.free

open State (slots)

theorem slots_release (bids : List ℕ) (s : State α τ) : (release bids s).slots.Perm s.slots := by
  induction bids generalizing s with
  | nil => exact .refl _
  | cons bid bids ih =>
    refine (ih (releaseOne s bid)).trans ?_
    rw [slots, slots, releaseOne]
    cases h : s.b2s.get? bid with
    | none =>
      rw [Dict.pop_of_notMem (Dict.get?_eq_none_iff.1 h)]
      rfl
    | some slot => exact perm_middle.trans ((Dict.values_perm_pop h).symm.append_right _)

theorem slots_allocate {bids : List ℕ} (h : allocate cfg bids s = .ok s') :
    s'.slots.Perm s.slots := by
  induction bids generalizing s with
  | nil =>
    cases h
    exact .refl _
  | cons bid bids ih =>
    rw [allocate] at h
    split at h
    · exact ih h
    next hbid =>
      split at h
      · cases h
      next slot free hfree =>
        refine (ih h).trans ?_
        rw [slots, slots, takeSlot, Dict.values_set_of_notMem hbid, hfree, append_assoc]
        rfl

/-- **A build hands slots on**: it neither loses nor duplicates one. -/
theorem slots_build {rows : List Row} (h : build cfg s rows = .ok s') : s'.slots.Perm s.slots := by
  rw [build] at h
  split at h
  · cases h
    exact .refl _
  · exact (slots_allocate h).trans ((slots_release _ _).trans (slots_release _ _))

end Stages

end KVarN.Mla
