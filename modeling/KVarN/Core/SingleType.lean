import KVarN.Core.BlockPool
import KVarN.Lib.Dict

/-!
# Single-type KV-cache managers

One manager serves one KV-cache group. `Group` is its static part: the kind of
attention the group's layers use and the sizes it works with. `Manager` is its
mutable part: the block table of every request, how many of its blocks are
cached, pending copy-on-write pairs and the bookkeeping of Mamba groups.

Each operation of the source is a function of the group, the manager and the
shared block pool, and fails with the exception the source raises. The manager
classes differ in a few overridden methods; those dispatch on `Group.spec`.

## Main definitions

* `Group.getNumBlocksToAllocate` — the prediction used by the free-block check.
* `Group.addLocalComputedBlocks`, `Group.allocateExternalComputedBlocks`,
  `Group.allocateNewBlocks` — the three allocation phases.
* `Group.cacheBlocks`, `Group.removeSkippedBlocks`, `Group.free`.
-/

namespace KVarN.Core

open KVarN.Lib Dict

def cdiv (a b : ℕ) : ℕ := (a + b - 1) / b

/-- How a Mamba group keeps its states. -/
inductive MambaCacheMode
  | none
  | all
  | align
  deriving DecidableEq, Repr

/-- The kinds of KV-cache groups, one for each manager class. -/
inductive KVCacheSpec
  | fullAttention
  | rswa (rswaWindow : ℕ)
  | slidingWindow (slidingWindow extraRetainedTokens : ℕ)
  | chunkedLocalAttention (attentionChunkSize : ℕ)
  | mamba (mambaCacheMode : MambaCacheMode) (numSpeculativeBlocks : ℕ)
  | crossAttention
  deriving DecidableEq, Repr

/-- The fields of a request that the KV-cache manager reads. -/
structure KVRequest (H : Type) where
  requestId : ReqId
  numTokens : ℕ
  numPromptTokens : ℕ
  numComputedTokens : ℕ
  numInFlightTokens : ℕ
  blockHashes : List H
  sharedPrefixBoundary : ℕ
  skipReadingPrefixCache : Bool
  /-- Whether the status is `WAITING` or `PREEMPTED`. -/
  awaitingAdmission : Bool

/-- The static part of a manager. -/
structure Group where
  spec : KVCacheSpec
  /-- Tells apart specs that differ in fields the manager does not read. -/
  specId : ℕ
  blockSize : ℕ
  blockSize_pos : 0 < blockSize
  groupId : ℕ
  enableCaching : Bool
  useEagle : Bool
  schedulerBlockSize : ℕ
  recordNewBlockIds : Bool
  maxAdmissionBlocksPerRequest : Option ℕ
  deriving DecidableEq

/-- The mutable part of a manager. The last four fields are used by Mamba groups
only. -/
structure Manager (H : Type) where
  reqToBlocks : Dict ReqId (List BlockId)
  numCachedBlock : Dict ReqId ℕ
  partialHitReqs : Dict ReqId (ℕ × BlockId)
  pendingCowCopies : List (BlockId × BlockId)
  /-- Request, group, block and token boundary of each hand-off. -/
  pendingPartialTailOffloads : List (ReqId × ℕ × BlockId × ℕ)
  newBlockIds : List BlockId
  cachedBlocksThisStep : List (Key H)
  lastStateBlockIdx : Dict ReqId ℤ
  allocatedBlockReqs : List ReqId
  producerPartialTailReqs : Dict ReqId ℕ

namespace Manager

variable {H : Type}

def init : Manager H where
  reqToBlocks := empty
  numCachedBlock := empty
  partialHitReqs := empty
  pendingCowCopies := []
  pendingPartialTailOffloads := []
  newBlockIds := []
  cachedBlocksThisStep := []
  lastStateBlockIdx := empty
  allocatedBlockReqs := []
  producerPartialTailReqs := empty

variable (m : Manager H) (r : ReqId)

/-- `req_to_blocks[r]`, the empty list for a request without an entry. -/
def blocksOf : List BlockId := (m.reqToBlocks.get? r).getD []

def setBlocks (bs : List BlockId) : Manager H :=
  { m with reqToBlocks := m.reqToBlocks.set r bs }

@[simp] theorem blocksOf_setBlocks (r r' : ReqId) (bs : List BlockId) : (m.setBlocks r bs).blocksOf
    r' = if r' = r then bs else m.blocksOf r' := by
  simp only [blocksOf, setBlocks, get?_set]
  split <;> simp

theorem blocksOf_setBlocks_self (bs : List BlockId) : (m.setBlocks r bs).blocksOf r = bs := by simp

end Manager

/-- A Python list index: negative ones count from the end. -/
def pyIndex (n : ℕ) (i : ℤ) : Option ℕ :=
  if 0 ≤ i then (if i < n then some i.toNat else none)
  else if 0 ≤ i + n then some (i + n).toNat else none

namespace Group

variable {H : Type} (g : Group) (m : Manager H) (p : BlockPool H) (r : ReqId)
  (numComputedTokens : ℕ) (newComputedBlocks : List BlockId) (numLocal numExternal : ℕ)

/-- `get_num_skipped_tokens`: tokens the next step's attention does not read. -/
def getNumSkippedTokens : ℤ :=
  match g.spec with
  | .slidingWindow w extra => max 0 ((numComputedTokens : ℤ) - w + 1 - extra)
  | .chunkedLocalAttention c => (numComputedTokens / c * c : ℕ)
  | .mamba _ _ => (numComputedTokens : ℤ) - 1
  | _ => 0

/-- Whole blocks among the skipped tokens. -/
def numSkippedBlocks : ℕ :=
  (g.getNumSkippedTokens numComputedTokens / g.blockSize).toNat

/-- `_has_partial_local_hit`: the local hit ends inside a block of this group. -/
def hasPartialLocalHit (numLocalComputedTokens : ℕ) : Prop :=
  newComputedBlocks ≠ [] ∧ numLocalComputedTokens % g.blockSize ≠ 0
  deriving Decidable

/-- `_get_num_evictable_blocks`. -/
def getNumEvictableBlocks (bs : List BlockId) : ℕ :=
  bs.countP fun b => p.refCnt b = 0 ∧ b ≠ nullBlock

/-- The arguments of `get_num_blocks_to_allocate` besides the request. -/
structure Demand where
  numTokens : ℕ
  newComputedBlocks : List BlockId
  totalComputedTokens : ℕ
  numLocalComputedTokens : ℕ
  numTokensMainModel : ℕ
  applyAdmissionCap : Bool

/-- The base class's `get_num_blocks_to_allocate` for `numTokens` tokens. -/
def getNumBlocksToAllocateBase (numTokens : ℕ) (d : Demand) : Except Fault ℤ :=
  let numRequiredBlocks : ℕ :=
    match g.maxAdmissionBlocksPerRequest with
    | some cap => if d.applyAdmissionCap then min (cdiv numTokens g.blockSize) cap
        else cdiv numTokens g.blockSize
    | none => cdiv numTokens g.blockSize
  let numReqBlocks := (m.blocksOf r).length
  if r ∈ m.numCachedBlock then do
    -- a running request has no new prefix-cache hits
    assert (d.newComputedBlocks = [])
    pure (max ((numRequiredBlocks : ℤ) - numReqBlocks) 0)
  else
    let numLocalComputedBlocks := d.newComputedBlocks.length + numReqBlocks
    let numSkipped := g.numSkippedBlocks d.totalComputedTokens
    let numNewBlocks : ℤ :=
      max ((numRequiredBlocks : ℤ) - (max numSkipped numLocalComputedBlocks : ℕ)) 0
    let numEvictable := getNumEvictableBlocks p
      (d.newComputedBlocks.drop (numSkipped - numReqBlocks))
    -- the private copy of a partially hit tail takes one block more
    .ok (numNewBlocks + numEvictable +
      if g.hasPartialLocalHit d.newComputedBlocks d.numLocalComputedTokens then 1 else 0)

/-- The "align" branch of `MambaManager.get_num_blocks_to_allocate`. -/
def getNumBlocksToAllocateAlign (numSpeculativeBlocks : ℕ) (d : Demand) : ℤ :=
  let numRequiredBlocks := cdiv d.numTokensMainModel g.blockSize + numSpeculativeBlocks
  let missing : ℤ := (numRequiredBlocks : ℤ) - d.newComputedBlocks.length
    - (m.blocksOf r).length
  let hasPartialHit := g.hasPartialLocalHit d.newComputedBlocks d.numLocalComputedTokens ∨
    r ∈ m.partialHitReqs
  let extra : ℤ := if hasPartialHit then 1 else 0
  let numNewBlocks : ℤ := if hasPartialHit then max missing 0 + 1 else missing
  -- a known request reuses its speculative blocks and needs one more at most
  let numNewBlocks : ℤ :=
    if 0 < numNewBlocks then
      (if r ∈ m.allocatedBlockReqs then 1 + extra else 1 + numSpeculativeBlocks + extra)
    else numNewBlocks
  numNewBlocks + getNumEvictableBlocks p d.newComputedBlocks

/-- `cached_blocks_this_step` holds the hash of the last hit block: a Mamba state
written in this step cannot be read in it. -/
def hitsThisStep [DecidableEq H] (m : Manager H) (p : BlockPool H)
    (newComputedBlocks : List BlockId) : Prop :=
  ∃ b ∈ newComputedBlocks.getLast?, ∃ k ∈ p.index.blockHash b, k ∈ m.cachedBlocksThisStep

instance [DecidableEq H] (m : Manager H) (p : BlockPool H) (bs : List BlockId) :
    Decidable (hitsThisStep m p bs) :=
  inferInstanceAs (Decidable (∃ b ∈ bs.getLast?, ∃ k ∈ p.index.blockHash b,
    k ∈ m.cachedBlocksThisStep))

/-- `get_num_blocks_to_allocate`. -/
def getNumBlocksToAllocate [DecidableEq H] (g : Group) (m : Manager H) (p : BlockPool H)
    (r : ReqId) (d : Demand) : Except Fault ℤ :=
  match g.spec with
  | .mamba mode numSpeculativeBlocks =>
    -- more blocks than there are: the request waits for the next step
    if hitsThisStep m p d.newComputedBlocks then .ok (p.numGpuBlocks + 1)
    else if mode = .align then
      .ok (g.getNumBlocksToAllocateAlign m p r numSpeculativeBlocks d)
    else g.getNumBlocksToAllocateBase m p r
      (d.numTokens + g.blockSize * numSpeculativeBlocks) d
  | _ => g.getNumBlocksToAllocateBase m p r d.numTokens d

/-- Touch the hits; without caching there are none. -/
def touchHits (hits : List BlockId) : Except Fault (BlockPool H) :=
  if g.enableCaching then p.touch hits
  else do
    assert (hits = [])
    pure p

/-- The base class's `add_local_computed_blocks`. -/
def addLocalBase : Except Fault (Manager H × BlockPool H) := do
  assert (m.blocksOf r = [])
  let numSkipped := g.numSkippedBlocks (numLocal + numExternal)
  let hits := newComputedBlocks.drop numSkipped
  let p ← g.touchHits p hits
  -- skipped blocks are padded with null blocks
  let blocks := List.replicate numSkipped nullBlock ++ hits
  let m := m.setBlocks r blocks
  if g.hasPartialLocalHit hits numLocal then
    let idx := numLocal / g.blockSize
    pure ({ m with
      partialHitReqs := m.partialHitReqs.set r (idx, hits.getLastD nullBlock)
      numCachedBlock := m.numCachedBlock.set r idx }, p)
  else pure ({ m with numCachedBlock := m.numCachedBlock.set r blocks.length }, p)

/-- `add_local_computed_blocks`. -/
def addLocalComputedBlocks : Except Fault (Manager H × BlockPool H) :=
  match g.spec with
  | .crossAttention => do
      assert (newComputedBlocks = [])
      pure (m, p)
  | _ => g.addLocalBase m p r newComputedBlocks numLocal numExternal

variable [DecidableEq H]

/-- Append freshly allocated blocks to a request's table. -/
def extendBlocks (n : ℤ) : Except Fault (List BlockId × Manager H × BlockPool H) := do
  let (bs, p) ← p.getNewBlocks n
  let m := m.setBlocks r (m.blocksOf r ++ bs)
  pure (bs, (if g.recordNewBlockIds then { m with newBlockIds := m.newBlockIds ++ bs } else m), p)

/-- External tokens that are still read by attention. -/
def numExternalTokens (numLocal numExternal : ℕ) : ℤ :=
  let skipped := g.getNumSkippedTokens (numLocal + numExternal)
  if 0 < skipped then min (((numLocal + numExternal : ℕ) : ℤ) - skipped) numExternal
  else numExternal

/-- `allocate_external_computed_blocks`. -/
def allocateExternalComputedBlocks (numLocal numExternal : ℕ) :
    Except Fault (Manager H × BlockPool H) :=
  if g.spec = .crossAttention then .ok (m, p)
  else if g.numExternalTokens numLocal numExternal ≤ 0 then .ok (m, p)
  else do
    let (_, m, p) ← g.extendBlocks m p r
      ((cdiv (numLocal + numExternal) g.blockSize : ℤ) - (m.blocksOf r).length)
    pure (m, p)

/-- `_apply_cow`: the request continues on a private copy of its partial tail; both
ends of the copy stay retained until the worker has run it. -/
def applyCow (idx : ℕ) (src cow : BlockId) : Except Fault (Manager H × BlockPool H) := do
  let blocks := m.blocksOf r
  assert (idx < blocks.length)
  assert (blocks[idx]? = some src)
  assert (src ≠ nullBlock ∧ 0 < p.refCnt src)
  let m := m.setBlocks r (blocks.set idx cow)
  pure ({ m with pendingCowCopies := m.pendingCowCopies ++ [(src, cow)] }, p.retain cow)

/-- The copy-on-write redirect at the start of `allocate_new_blocks`. -/
def redirectPartialHit : Except Fault (List BlockId × Manager H × BlockPool H) :=
  match m.partialHitReqs.get? r with
  | none => .ok ([], m, p)
  | some (idx, src) => do
      let (bs, p) ← p.getNewBlocks 1
      let cow ← orRaise .indexError bs[0]?
      let (m, p) ← applyCow { m with partialHitReqs := m.partialHitReqs.pop r } p r idx src cow
      pure ([cow], { m with newBlockIds := m.newBlockIds ++ [cow] }, p)

/-- The base class's `allocate_new_blocks`. -/
def allocateNewBlocksBase (numTokens : ℕ) : Except Fault (List BlockId × Manager H × BlockPool H) :=
    do
  let (cow, m, p) ← redirectPartialHit m p r
  let numNewBlocks : ℤ := (cdiv numTokens g.blockSize : ℤ) - (m.blocksOf r).length
  if numNewBlocks ≤ 0 then pure (cow, m.setBlocks r (m.blocksOf r), p)
  else do
    let (bs, m, p) ← g.extendBlocks m p r numNewBlocks
    pure (cow ++ bs, m, p)

/-- The loop that moves a running request's speculative blocks, from position `i`
on, behind the newly skipped ones. -/
def reuseSpecBlocks (numSkipped : ℕ) : ℤ → ℕ → List BlockId → Except Fault (List BlockId)
  | _, 0, blocks => .ok blocks
  | i, n + 1, blocks =>
    if i < numSkipped then do
      let j ← orRaise .indexError (pyIndex blocks.length i)
      let blocks := blocks ++ [blocks.getD j nullBlock]
      let j ← orRaise .indexError (pyIndex blocks.length i)
      reuseSpecBlocks numSkipped (i + 1) n (blocks.set j nullBlock)
    else .ok blocks

/-- The producer side of copy-on-write: the running request stays on `src`, the
cache entries and the queued copy go to `cow`. -/
def handOffTail (src cow : BlockId) : Except Fault (Manager H × BlockPool H) := do
  let x ← p.index.moveBlockHashes src cow
  let m := { m with
    pendingCowCopies := m.pendingCowCopies ++ [(src, cow)]
    producerPartialTailReqs := m.producerPartialTailReqs.pop r
    pendingPartialTailOffloads := m.pendingPartialTailOffloads ++
      ((m.producerPartialTailReqs.get? r).map fun t => (r, g.groupId, cow, t)).toList
    -- the moved entry is only filled by this step's copy
    cachedBlocksThisStep := m.cachedBlocksThisStep ++ (x.blockHash cow).toList }
  pure (m, (p.withIndex x).retain src)

/-- The index of the block that holds the state of the step before. -/
def recordLastState (prevLen numSpeculativeBlocks : ℕ) : Manager H :=
  if r ∈ m.allocatedBlockReqs then
    { m with lastStateBlockIdx :=
        m.lastStateBlockIdx.set r ((prevLen : ℤ) - 1 - numSpeculativeBlocks) }
  else if 0 < prevLen then
    { m with lastStateBlockIdx := m.lastStateBlockIdx.set r ((prevLen : ℤ) - 1) }
  else m

/-- Null blocks for the states between the previous block and the running one,
then, for a known request, its speculative blocks moved behind them. -/
def shiftStates (numSkipped numSpeculativeBlocks : ℕ) (allocated : Bool)
    (blocks : List BlockId) : Except Fault (List BlockId) :=
  let padded := blocks ++ List.replicate (numSkipped - blocks.length) nullBlock
  if allocated then
    reuseSpecBlocks numSkipped ((blocks.length : ℤ) - numSpeculativeBlocks)
      numSpeculativeBlocks padded
  else .ok padded

/-- The copy-on-write step of the "align" branch, if the request has a partial
hit; the first of the new blocks is its copy. -/
def alignCow (allocated : Bool) (newBlocks : List BlockId) :
    Except Fault (List BlockId × List BlockId × Manager H × BlockPool H) :=
  match m.partialHitReqs.get? r with
  | none => .ok ([], newBlocks, m, p)
  | some (idx, src) => do
      let cow ← orRaise .indexError newBlocks[0]?
      if allocated then do
        assert ((m.blocksOf r)[idx]? = some src)
        let (m, p) ← g.handOffTail m p r src cow
        pure ([], newBlocks.drop 1, m, p)
      else do
        let (m, p) ← applyCow m p r idx src cow
        pure ([cow], newBlocks.drop 1, m, p)

/-- `self._allocated_block_reqs.add(r)`. -/
def markAllocated : Manager H :=
  { m with allocatedBlockReqs :=
      if r ∈ m.allocatedBlockReqs then m.allocatedBlockReqs else m.allocatedBlockReqs ++ [r] }

/-- The "align" branch of `MambaManager.allocate_new_blocks`. -/
def allocateNewBlocksAlign (numTokensMainModel numSpeculativeBlocks : ℕ) :
    Except Fault (List BlockId × Manager H × BlockPool H) :=
  let blocks := m.blocksOf r
  let numRequiredBlocks := cdiv numTokensMainModel g.blockSize + numSpeculativeBlocks
  let hasPartialHit := r ∈ m.partialHitReqs
  if numRequiredBlocks ≤ blocks.length ∧ ¬ hasPartialHit then
    .ok ([], markAllocated (m.setBlocks r blocks) r, p)
  else do
    let allocated : Bool := r ∈ m.allocatedBlockReqs
    let m := recordLastState m r blocks.length numSpeculativeBlocks
    let shifted ← shiftStates (numRequiredBlocks - numSpeculativeBlocks - 1)
      numSpeculativeBlocks allocated blocks
    let extra : ℤ := if hasPartialHit then 1 else 0
    let missing : ℤ := (numRequiredBlocks : ℤ) - shifted.length
    let numNewBlocks : ℤ := if hasPartialHit then max missing 0 + 1 else missing
    assert (numNewBlocks ≤ (if allocated then 1 else (numSpeculativeBlocks : ℤ) + 1) + extra)
    let (newBlocks, p) ← p.getNewBlocks numNewBlocks
    let (cow, newBlocks, m, p) ← g.alignCow (m.setBlocks r shifted) p r allocated newBlocks
    let m := m.setBlocks r (m.blocksOf r ++ newBlocks)
    let m := markAllocated { m with partialHitReqs := m.partialHitReqs.pop r } r
    pure (cow ++ shifted.drop blocks.length ++ newBlocks, m, p)

/-- `allocate_new_blocks`. -/
def allocateNewBlocks (numTokens numTokensMainModel : ℕ) :
    Except Fault (List BlockId × Manager H × BlockPool H) :=
  match g.spec with
  | .mamba .align numSpeculativeBlocks =>
    g.allocateNewBlocksAlign m p r numTokensMainModel numSpeculativeBlocks
  | .mamba _ numSpeculativeBlocks =>
    g.allocateNewBlocksBase m p r (numTokens + g.blockSize * numSpeculativeBlocks)
  | _ => g.allocateNewBlocksBase m p r numTokens

/-! ## Releasing blocks -/

/-- The loop of `_remove_blocks_in_range`, backwards from position `last - 1`: the
blocks it frees and the table it leaves. -/
def removeLoop (first : ℕ) : ℕ → List BlockId → List BlockId × List BlockId
  | 0, blocks => ([], blocks)
  | i + 1, blocks =>
    if i < first ∨ blocks.getD i nullBlock = nullBlock then ([], blocks)
    else
      let r := removeLoop first i (blocks.set i nullBlock)
      (blocks.getD i nullBlock :: r.1, r.2)

section

omit [DecidableEq H]

/-- `_remove_blocks_in_range`. -/
def removeBlocksInRange (first last : ℕ) : Manager H × BlockPool H :=
  if r ∉ m.reqToBlocks ∨ last ≤ first then (m, p)
  else
    let blocks := m.blocksOf r
    let res := removeLoop first (min last blocks.length) blocks
    (m.setBlocks r res.2, p.freeBlocks res.1)

variable (processed : ℕ)

/-- The base class's `remove_skipped_blocks`. -/
def removeSkippedBase : Manager H × BlockPool H :=
  if g.getNumSkippedTokens processed ≤ 0 then (m, p)
  else removeBlocksInRange m p r 0 (min (g.numSkippedBlocks processed) (m.blocksOf r).length)

/-- Free the state block of two steps ago of a Mamba "align" request. -/
def freeLastState : Except Fault (Manager H × BlockPool H) :=
  match m.lastStateBlockIdx.get? r with
  | none => .ok (m, p)
  | some idx =>
    if idx < (cdiv processed g.blockSize : ℤ) - 1 then do
      let blocks := m.blocksOf r
      let j ← orRaise .indexError (pyIndex blocks.length idx)
      let b := blocks.getD j nullBlock
      if b ≠ nullBlock then
        pure (m.setBlocks r (blocks.set j nullBlock), p.freeBlocks [b])
      else pure (m, p)
    else .ok (m, p)

/-- `remove_skipped_blocks`. -/
def removeSkippedBlocks (numPromptTokens : Option ℕ) : Except Fault (Manager H × BlockPool H) :=
  match g.spec, numPromptTokens with
  | .rswa window, some n =>
    -- the gap between the prompt and the decode window
    .ok (removeBlocksInRange m p r (cdiv n g.blockSize)
      (max n (processed - window) / g.blockSize))
  | .mamba .align _, _ =>
    let s := g.removeSkippedBase m p r processed
    g.freeLastState s.1 s.2 r processed
  | _, _ => .ok (g.removeSkippedBase m p r processed)

/-- `pop_blocks_for_free`: the request's blocks and the manager without it. -/
def popBlocksForFree : List BlockId × Manager H :=
  let m' := { m with
    reqToBlocks := m.reqToBlocks.pop r
    numCachedBlock := m.numCachedBlock.pop r
    partialHitReqs := m.partialHitReqs.pop r }
  (m.blocksOf r, match g.spec with
    | .mamba .align _ => { m' with
        allocatedBlockReqs := m.allocatedBlockReqs.filter (· ≠ r)
        lastStateBlockIdx := m.lastStateBlockIdx.pop r
        producerPartialTailReqs := m.producerPartialTailReqs.pop r
        pendingPartialTailOffloads := m.pendingPartialTailOffloads.filter fun e => e.1 ≠ r }
    | _ => m')

/-- `free`: tail blocks are freed first. -/
def free : Manager H × BlockPool H :=
  let res := g.popBlocksForFree m r
  (res.2, p.freeBlocks res.1.reverse)

end

/-! ## Caching -/

/-- `_contiguous_blocks_for_hit`. -/
def contiguousBlocksForHit (window blockSize : ℕ) (useEagle : Bool) : ℕ :=
  cdiv (window - 1) blockSize + if useEagle then 1 else 0

/-- Python's floor division and multiplication back, on possibly negative values. -/
def alignDown (n : ℤ) (a : ℕ) : ℤ := n / a * a

variable (req : KVRequest H)

/-- `SlidingWindowManager.reachable_block_mask`. -/
def slidingWindowMask (window startBlock endBlock : ℕ) (retention : Option ℕ)
    (boundaries : List ℤ) : Option (List Bool) :=
  let need := contiguousBlocksForHit window g.blockSize g.useEagle
  let shift := if g.useEagle then 1 else 0
  let perSegment : Option ℕ :=
    match retention with
    | none => some (g.schedulerBlockSize / g.blockSize)
    | some 0 => none
    | some n => some (n / g.blockSize)
  -- every block is reachable
  if ∃ per ∈ perSegment, per ≤ need then none
  else
    let inSegment : ℕ → Bool := fun i =>
      match perSegment with
      | none => false
      | some per => shift ≤ i ∧ per ≤ (i - shift) % per + need
    let atBoundary : ℕ → Bool := fun i =>
      retention.isSome ∧ ∃ t ∈ boundaries,
        let stop := alignDown t g.schedulerBlockSize / g.blockSize + shift
        stop - need ≤ i ∧ (i : ℤ) < stop
    some ((List.range' startBlock (endBlock - startBlock)).map fun i =>
      inSegment i || atBoundary i)

variable (startBlock endBlock numTokens : ℕ) (retention : Option ℕ) (boundaries : List ℤ)

/-- `MambaManager.reachable_block_mask`. -/
def mambaMask : Option (List Bool) :=
  match retention with
  | none => none
  | some interval =>
    let per := interval / g.blockSize
    if interval ≠ 0 ∧ per ≤ 1 then none
    else
      let inSegment : ℕ → Bool := fun i => interval ≠ 0 ∧ (i + 1) % per = 0
      let atBoundary : ℕ → Bool := fun i => ∃ t ∈ boundaries,
        (i : ℤ) = alignDown t g.schedulerBlockSize / g.blockSize - 1
      some ((List.range' startBlock (endBlock - startBlock)).map fun i =>
        inSegment i || atBoundary i)

/-- `reachable_block_mask`; `none` caches every block. -/
def reachableBlockMask : Except Fault (Option (List Bool)) :=
  match g.spec with
  | .slidingWindow window _ => do
      assert (g.schedulerBlockSize % g.blockSize = 0)
      pure (g.slidingWindowMask window startBlock endBlock retention boundaries)
  | .mamba _ _ => .ok (g.mambaMask startBlock endBlock retention boundaries)
  | _ => .ok none

/-- The token boundaries whose tail sparse retention keeps. -/
def reachableBoundaries : List ℤ :=
  ((req.numPromptTokens : ℤ) - 1) ::
    if req.sharedPrefixBoundary = 0 then [] else [(req.sharedPrefixBoundary : ℤ)]

/-- The base class's `cache_blocks`. -/
def cacheBlocksBase : Except Fault (Manager H × BlockPool H) :=
  let numCachedBlocks := (m.numCachedBlock.get? req.requestId).getD 0
  let numFullBlocks := numTokens / g.blockSize
  if numFullBlocks ≤ numCachedBlocks then .ok (m, p)
  else do
    let mask ← g.reachableBlockMask numCachedBlocks numFullBlocks retention
      (reachableBoundaries req)
    let x ← p.index.cacheFullBlocks p.hashBlockSize req.blockHashes (m.blocksOf req.requestId)
      numCachedBlocks numFullBlocks g.blockSize g.groupId mask
    pure ({ m with numCachedBlock := m.numCachedBlock.set req.requestId numFullBlocks },
      p.withIndex x)

/-- `FullAttentionManager._cache_partial_tail_block`. -/
def cachePartialTailFull : Except Fault (BlockPool H) :=
  let boundary := req.numPromptTokens / p.hashBlockSize * p.hashBlockSize
  if boundary = 0 ∨ numTokens < boundary ∨ boundary % g.blockSize = 0 then .ok p
  else
    match (m.blocksOf req.requestId)[boundary / g.blockSize]? with
    | none => .ok p
    | some b => do
        let (_, x) ← p.index.cachePartialBlock p.hashBlockSize req.blockHashes b boundary
          g.groupId g.blockSize
        pure (p.withIndex x)

/-- `MambaManager._cache_partial_tail_block`, in "align" mode only. -/
def cachePartialTailMamba (align : Bool) : Except Fault (Option (Key H) × Manager H × BlockPool
    H) :=
  if ¬ align ∨ g.blockSize = p.hashBlockSize ∨ numTokens % g.blockSize = 0 ∨
      numTokens % p.hashBlockSize ≠ 0 ∨
      numTokens ≠ req.numPromptTokens / p.hashBlockSize * p.hashBlockSize then
    .ok (none, m, p)
  else
    match (m.blocksOf req.requestId)[numTokens / g.blockSize]? with
    | none => .ok (none, m, p)
    | some b =>
      if b = nullBlock then .ok (none, m, p)
      else do
        let (k, x) ← p.index.cachePartialBlock p.hashBlockSize req.blockHashes b numTokens
          g.groupId g.blockSize
        let p := p.withIndex x
        if k = none then pure (k, m, p)
        else pure (k, { m with
          partialHitReqs := m.partialHitReqs.set req.requestId (numTokens / g.blockSize, b)
          numCachedBlock := m.numCachedBlock.set req.requestId (numTokens / g.blockSize)
          producerPartialTailReqs :=
            m.producerPartialTailReqs.set req.requestId numTokens }, p)

/-- `MambaManager.cache_blocks` after the base class's: the partial tail, then the
hashes cached in this step. -/
def cacheBlocksMamba (numTokens numCachedBefore : ℕ) (align : Bool) :
    Except Fault (Manager H × BlockPool H) := do
  let numCachedAfter := (m.numCachedBlock.get? req.requestId).getD 0
  let (k, m, p) ← g.cachePartialTailMamba m p req numTokens align
  let newly := ((m.blocksOf req.requestId).take numCachedAfter).drop numCachedBefore
  let hashes := newly.filterMap fun b => if b = nullBlock then none else p.index.blockHash b
  pure ({ m with cachedBlocksThisStep := m.cachedBlocksThisStep ++ k.toList ++ hashes }, p)

/-- `cache_blocks`. -/
def cacheBlocks : Except Fault (Manager H × BlockPool H) :=
  match g.spec with
  | .crossAttention => .error .valueError
  | .mamba mode _ => do
      let before := (m.numCachedBlock.get? req.requestId).getD 0
      let (m, p) ← g.cacheBlocksBase m p req numTokens retention
      g.cacheBlocksMamba m p req numTokens before (mode = .align)
  | .fullAttention | .rswa _ => do
      let (m, p) ← g.cacheBlocksBase m p req numTokens retention
      if g.blockSize = p.hashBlockSize then pure (m, p)
      else do
        let p ← g.cachePartialTailFull m p req numTokens
        pure (m, p)
  | _ => g.cacheBlocksBase m p req numTokens retention

/-- `get_num_common_prefix_blocks`: blocks that every request of the group holds. -/
def getNumCommonPrefixBlocks (r : ReqId) : ℕ :=
  match g.spec with
  | .fullAttention | .rswa _ =>
    -- reading the table of an unknown request gives it an entry
    let numReqs := if r ∈ m.reqToBlocks then m.reqToBlocks.keys.length
      else m.reqToBlocks.keys.length + 1
    ((m.blocksOf r).takeWhile fun b => p.refCnt b = numReqs).length
  | _ => 0

end Group

end KVarN.Core
